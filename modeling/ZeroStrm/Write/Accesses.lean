import ZeroStrm.Common.BlockAccess
import ZeroStrm.Write.Transmission

/-!
# The interrupt of a transfer between two accesses of a write

`zero_strm_write` calls `zero_strm_block_append`, `zero_strm_block_fetch` and
`zero_strm_block_new` with interrupts enabled, and the interrupt of a transfer frees a block and
fetches the next one. Here the interrupt may run between any two of the accesses of a write to the
lists (`writeProgram`).

It must keep out of these windows (`InCompletionWindow`). While `zero_strm_block_append` is about
to link its block behind the only queued one, the interrupt would send that one, and clear the
tail. After the link is stored and before the tail is, it would send the new block itself. After
`zero_strm_block_new` has loaded the free list, it would free a block in front of the one that is
about to be taken. No interrupt can come during `zero_strm_block_fetch`, since that call has
`bBusy`.

Everywhere else the interrupt can be moved in front of the call, or behind it once the link is
stored. So a run that keeps out of the windows ends where interrupts between states lead
(`interruptedWrite_reduced`), and `interruptedWrite_exact` says that the windows are exact.
-/

set_option autoImplicit false

namespace ZeroStrm

open EventRuns Interruption LinkedChain

variable {β : Type}

/-! ## The application, one access at a time -/

/-- The points of a write inside of the block manager, with the arguments of the call. -/
inductive WritePoint where
  | append (ptNewNode : Addr) (point : AppendPoint)
  | fetch (point : FetchPoint)
  | new (point : NewPoint)
  deriving DecidableEq, Repr

/-- The sender with another memory of the block manager. -/
def withBlocks (m : MemBlkFifo β) (s : TxStream β) : TxStream β := { s with tMemBlockFifo := m }

/-- The memory of the block manager as a part of the system. -/
def writePool : Part (WriteSystem β) (MemBlkFifo β) where
  get s := s.strm.tMemBlockFifo
  set m s := { s with strm := withBlocks m s.strm }
  get_set _ _ := rfl
  set_get _ := rfl
  set_set _ _ _ := rfl

/-- The rest of the start of the flush after `zero_strm_block_append`. -/
def afterAppend (_ : Bool) (s : WriteSystem β) : WriteSystem β :=
  { s with strm := { s.strm with
      fsmEnqueue := ⟨Enqueue.flush, ⟨StreamWriteFlush.isDmaBusy⟩⟩ } }

/-- The rest of `GET_BLOCK` after `zero_strm_block_fetch`. -/
def afterBlockFetch (ptFifoSend : Ptr) (s : WriteSystem β) : WriteSystem β :=
  let sending := { s.strm with
    ptFifoSend := ptFifoSend
    fsmEnqueue := ⟨Enqueue.getByteFifo, ⟨StreamWriteFlush.start⟩⟩ }
  match ptFifoSend with
  | none => { s with strm := { sending with bBusy := false } }
  | some block =>
    let dma := dmaTx.fnDmaStart s.strm.tMemBlockFifo block s.strm.dma
    { s with strm := { sending with dma := dma } }

/-- The rest of `GET_BYTE_FIFO` after `zero_strm_block_new`. -/
def afterNew (ptByteFifo : Ptr) (s : WriteSystem β) : WriteSystem β :=
  match ptByteFifo with
  | none => { s with calling := none }
  | some block => { s with strm := blockTaken s.strm block s.strm.tMemBlockFifo }

/-- A state of the call in progress up to its call of the block manager, if it makes one. -/
def writeNext (s : WriteSystem β) : Option (WriteSystem β × Option WritePoint) :=
  s.calling.map fun tByte =>
    match s.strm.fsmEnqueue.chState, s.strm.fsmEnqueue.fsmFlush.chState with
    | Enqueue.flush, StreamWriteFlush.start =>
      (s, some (.append s.strm.ptByteFifo .clearNext))
    | Enqueue.flush, StreamWriteFlush.getBlock => (s, some (.fetch .loadTemp))
    | Enqueue.getByteFifo, _ => (s, some (.new .loadTemp))
    | _, _ => (callStep s tByte, none)

def writeAccess : Routine WritePoint (WriteSystem β) Unit
  | .append ptNewNode point, s =>
    (appendAccess ptNewNode).within writePool (.append ptNewNode) afterAppend point s
  | .fetch point, s => fetchAccess.within writePool .fetch afterBlockFetch point s
  | .new point, s => newAccess.within writePool .new afterNew point s

/-- The application that calls `zero_strm_write`. -/
def writeProgram : Program WritePoint (WriteSystem β) where
  next := writeNext
  access := writeAccess
  length := 8

/-! ## Without interruption -/

section Calls

variable {s s₀ : WriteSystem β} {tByte : β} {first : WritePoint}

theorem writeAccess_append (block : Addr) (point : AppendPoint) (s : WriteSystem β) :
    writeAccess (.append block point) s =
      (appendAccess block).within writePool (.append block) afterAppend point s := rfl

theorem writeAccess_fetch (point : FetchPoint) (s : WriteSystem β) :
    writeAccess (.fetch point) s =
      fetchAccess.within writePool .fetch afterBlockFetch point s := rfl

theorem writeAccess_new (point : NewPoint) (s : WriteSystem β) :
    writeAccess (.new point) s = newAccess.within writePool .new afterNew point s := rfl

theorem alone_append (block : Addr) (s : WriteSystem β) :
    writeAccess.alone 8 (.append block .clearNext) s =
      some ((), afterAppend true (writePool.set
        (zeroStrmBlockAppend s.strm.tMemBlockFifo (some block)).2 s)) := by
  have alone : (appendAccess block).alone 8 .clearNext s.strm.tMemBlockFifo = _ :=
    Routine.alone_mono (by decide) (appendAccess_alone block s.strm.tMemBlockFifo)
  rw [within_alone (writeAccess_append block) 8 .clearNext s]
  exact congrArg _ alone

theorem alone_blockFetch (s : WriteSystem β) :
    writeAccess.alone 8 (.fetch .loadTemp) s =
      some ((), afterBlockFetch (zeroStrmBlockFetch s.strm.tMemBlockFifo).1
        (writePool.set (zeroStrmBlockFetch s.strm.tMemBlockFifo).2 s)) := by
  rw [within_alone writeAccess_fetch 8 .loadTemp s]
  exact congrArg _ (fetchAccess_alone s.strm.tMemBlockFifo)

theorem alone_new (s : WriteSystem β) :
    writeAccess.alone 8 (.new .loadTemp) s =
      some ((), afterNew (zeroStrmBlockNew s.strm.tMemBlockFifo).1
        (writePool.set (zeroStrmBlockNew s.strm.tMemBlockFifo).2 s)) := by
  have alone : newAccess.alone 8 .loadTemp s.strm.tMemBlockFifo = _ :=
    Routine.alone_mono (by decide) (newAccess_alone s.strm.tMemBlockFifo)
  rw [within_alone writeAccess_new 8 .loadTemp s]
  exact congrArg _ alone

/-- The calls of the block manager that the states of a write make. -/
inductive WriteCalls (s : WriteSystem β) : WritePoint → Prop where
  | append (here : s.strm.fsmEnqueue = ⟨Enqueue.flush, ⟨StreamWriteFlush.start⟩⟩) :
      WriteCalls s (.append s.strm.ptByteFifo .clearNext)
  | fetch (here : Holds s.strm) : WriteCalls s (.fetch .loadTemp)
  | new (here : s.strm.fsmEnqueue = ⟨Enqueue.getByteFifo, ⟨StreamWriteFlush.start⟩⟩) :
      WriteCalls s (.new .loadTemp)

theorem writeNext_calls (place : Place s.strm.fsmEnqueue) :
    writeNext s = some (s₀, some first) ↔
      s₀ = s ∧ s.calling.isSome = true ∧ WriteCalls s first := by
  constructor
  · intro enters
    obtain ⟨tByte, calling, enters⟩ := Option.map_eq_some_iff.mp enters
    generalize here : s.strm.fsmEnqueue = point at place enters
    rw [calling]
    cases place <;> cases enters
    · exact ⟨rfl, rfl, .append here⟩
    · exact ⟨rfl, rfl, .fetch here⟩
    · exact ⟨rfl, rfl, .new here⟩
  · rintro ⟨rfl, calling, calls⟩
    obtain ⟨tByte, calling⟩ := Option.isSome_iff_exists.mp calling
    simp only [writeNext, calling]
    cases calls with
    | append here => simp only [here, Option.map_some]
    | fetch here =>
        rw [Holds] at here
        simp only [here, Option.map_some]
    | new here => simp only [here, Option.map_some]

/-- A state that calls the block manager, without interruption. -/
theorem whole_of_calls {u : WriteSystem β} (place : Place s.strm.fsmEnqueue)
    (calling : s.calling.isSome = true) (calls : WriteCalls s first)
    (alone : writeAccess.alone 8 first s = some ((), u)) : writeProgram.whole s = some u := by
  have enters : writeProgram.next s = some (s, some first) :=
    (writeNext_calls place).mpr ⟨rfl, calling, calls⟩
  have ends : writeProgram.settled ⟨s, some first⟩ = some u := congrArg (Option.map _) alone
  simp only [Program.whole, enters, Option.bind_some, ends]

/-- **Without interruption the application takes the states of the call.** -/
theorem writeProgram_whole (place : Place s.strm.fsmEnqueue) (calling : s.calling = some tByte) :
    writeProgram.whole s = some (callStep s tByte) := by
  have isCall : s.calling.isSome = true := by rw [calling]; rfl
  have effect := innermostState_effect dmaTx tByte place
  obtain ⟨r, code⟩ : ∃ r, innermostState dmaTx tByte s.strm = r := ⟨_, rfl⟩
  rw [code] at effect
  have noByte := effect.storedByte
  have step (u : TxStream β) (goto : r = (u, .goto)) :
      callStep s tByte = { s with strm := u } := by
    subst goto
    have none : acceptedByte .goto tByte = [] := if_neg (by rintro ⟨⟩)
    simp only [callStep, code, noByte, none, if_true, List.append_nil, ← calling]
  cases effect with
  | append here =>
      rw [step _ rfl]
      exact whole_of_calls place isCall (.append here) (alone_append s.strm.ptByteFifo s)
  | send here sends =>
      rw [step _ rfl]
      refine whole_of_calls place isCall (.fetch here) ?_
      rw [alone_blockFetch]
      cases sends with
      | drained empty head =>
          rw [empty]
          rfl
      | started fetched =>
          rw [fetched]
          rfl
  | park here noBlock =>
      have none : acceptedByte (.ret .onGoing) tByte = [] := if_neg (by rintro ⟨⟩)
      refine whole_of_calls place isCall (.new here) ?_
      rw [alone_new, noBlock]
      simp only [callStep, code, noByte, none, List.append_nil]
      rfl
  | take here found =>
      rw [step _ rfl]
      refine whole_of_calls place isCall (.new here) ?_
      rw [alone_new, found]
      rfl
  | _ =>
      simp only [Program.whole, writeProgram, writeNext, *, Option.map_some, Option.bind_some,
        Program.settled]

end Calls

/-! ## The interrupt -/

section Interrupt

variable {m u : MemBlkFifo β} {s : WriteSystem β} {sent block : Addr}

/-- Two memories with the same head, sizes and data. -/
structure SameHead (m u : MemBlkFifo β) : Prop where
  head : u.ptHead = m.ptHead
  sizes : u.tSizeInByte = m.tSizeInByte
  memory : u.chMemory = m.chMemory

/-- The memory after the interrupt, as a function of the memory before. -/
def poolCompleted (ptFifoSend : Ptr) (m : MemBlkFifo β) : MemBlkFifo β :=
  (zeroStrmBlockFetch (zeroStrmBlockFree m ptFifoSend)).2

theorem fetch_fst (m : MemBlkFifo β) : (zeroStrmBlockFetch m).1 = m.ptHead := by
  unfold zeroStrmBlockFetch
  cases head : m.ptHead <;> rfl

theorem ptHead_free (m : MemBlkFifo β) (p : Ptr) : (zeroStrmBlockFree m p).ptHead = m.ptHead := by
  cases p <;> rfl

/-- What `GET_BLOCK` does is a function of the stream. -/
theorem Sends.eq {D : Type} {io : DmaTxIO β D} {s u : StreamWrite β D} (sends : Sends io s u) :
    u = sendNext io s := by
  cases sends with
  | drained empty head => simp only [sendNext, empty]
  | started fetched =>
      simp only [sendNext, fetched]
      rfl

theorem completed_eq {s : TxStream β} (auto : s.fsmFlushAuto = ⟨StreamWriteFlush.start⟩)
    (nothing : s.ptByteFifoCpl = none) : completed s = sendNext dmaTx (cplFreed s) :=
  (completed_sends auto nothing).eq

/-- `GET_BLOCK` on another memory. -/
theorem sendNext_withBlocks {s : TxStream β} (same : SameHead s.tMemBlockFifo m) :
    sendNext dmaTx (withBlocks m s) =
      withBlocks (zeroStrmBlockFetch m).2 (sendNext dmaTx s) := by
  have first : (zeroStrmBlockFetch m).1 = (zeroStrmBlockFetch s.tMemBlockFifo).1 := by
    rw [fetch_fst, fetch_fst, same.head]
  have bytes (block : Addr) : (zeroStrmBlockFetch m).2.blockBytes block =
      (zeroStrmBlockFetch s.tMemBlockFifo).2.blockBytes block := by
    rw [blockBytes_fetch, blockBytes_fetch]
    exact blockBytes_congr (congrFun same.sizes block) (congrFun same.memory block)
  have pool : (withBlocks m s).tMemBlockFifo = m := rfl
  simp only [sendNext, pool, first]
  cases (zeroStrmBlockFetch s.tMemBlockFifo).1 with
  | none => rfl
  | some block =>
      simp only [dmaTx, bytes]
      rfl

/-- **The interrupt on another memory.** What it does apart from the memory is the same. -/
theorem completeStep_set (auto : s.strm.fsmFlushAuto = ⟨StreamWriteFlush.start⟩)
    (nothing : s.strm.ptByteFifoCpl = none) (same : SameHead s.strm.tMemBlockFifo m) :
    completeStep (writePool.set m s) =
      writePool.set (poolCompleted s.strm.ptFifoSend m) (completeStep s) := by
  have freed : SameHead (cplFreed s.strm).tMemBlockFifo
      (zeroStrmBlockFree m s.strm.ptFifoSend) := by
    refine ⟨?_, ?_, ?_⟩
    · simp only [cplFreed, ptHead_free, same.head]
    · simp only [cplFreed, tSizeInByte_free, same.sizes]
    · simp only [cplFreed, chMemory_free, same.memory]
  have sent := sendNext_withBlocks freed
  rw [← completed_eq auto nothing] at sent
  have here : completed (withBlocks m s.strm) = _ := completed_eq (s := withBlocks m s.strm)
    auto nothing
  have moved : completed (withBlocks m s.strm) =
      withBlocks (poolCompleted s.strm.ptFifoSend m) (completed s.strm) := here.trans sent
  exact congrArg (fun u : TxStream β =>
    ({ s with strm := u, freed := s.freed ++ [s.strm.ptFifoSend] } : WriteSystem β)) moved

theorem completeStep_pool (auto : s.strm.fsmFlushAuto = ⟨StreamWriteFlush.start⟩)
    (nothing : s.strm.ptByteFifoCpl = none) :
    (completeStep s).strm.tMemBlockFifo =
      poolCompleted s.strm.ptFifoSend s.strm.tMemBlockFifo := by
  have same := completeStep_set auto nothing (m := s.strm.tMemBlockFifo) ⟨rfl, rfl, rfl⟩
  exact congrArg (fun u : WriteSystem β => u.strm.tMemBlockFifo) same

/-- The interrupt neither reads nor changes the place of the call. -/
theorem completeStep_place (auto : s.strm.fsmFlushAuto = ⟨StreamWriteFlush.start⟩)
    (nothing : s.strm.ptByteFifoCpl = none) (f : FsmEnqueue) :
    completeStep { s with strm := { s.strm with fsmEnqueue := f } } =
      { completeStep s with strm := { (completeStep s).strm with fsmEnqueue := f } } := by
  have there : completed { s.strm with fsmEnqueue := f } =
      sendNext dmaTx (cplFreed { s.strm with fsmEnqueue := f }) := completed_eq auto nothing
  have sent : completed { s.strm with fsmEnqueue := f } =
      { completed s.strm with fsmEnqueue := f } := by
    rw [there, completed_eq auto nothing, sendNext, sendNext]
    have pool : (cplFreed { s.strm with fsmEnqueue := f }).tMemBlockFifo =
        (cplFreed s.strm).tMemBlockFifo := rfl
    rw [pool]
    dsimp only
    cases (zeroStrmBlockFetch (cplFreed s.strm).tMemBlockFifo).1 <;> rfl
  exact congrArg (fun u : TxStream β =>
    ({ s with strm := u, freed := s.freed ++ [s.strm.ptFifoSend] } : WriteSystem β)) sent

/-! ### The pointers after the interrupt -/

/-- With nothing queued a block is freed and nothing else happens. -/
theorem poolCompleted_drained (head : m.ptHead = none) :
    poolCompleted (some sent) m = zeroStrmBlockFree m (some sent) := by
  simp only [poolCompleted, zeroStrmBlockFree, zeroStrmBlockFetch, head]

theorem ptHead_poolCompleted (head : m.ptHead = some block) (other : block ≠ sent) :
    (poolCompleted (some sent) m).ptHead = m.ptNext block := by
  simp only [poolCompleted, zeroStrmBlockFree, zeroStrmBlockFetch, head]
  exact Function.update_of_ne other ..

/-- The tail after a fetch is that after its test for the last one block. -/
theorem ptTail_fetch (m : MemBlkFifo β) :
    (zeroStrmBlockFetch m).2.ptTail = (tailCleared m).ptTail := by
  cases head : m.ptHead with
  | none =>
      simp only [zeroStrmBlockFetch, tailCleared, head]
      split
      · next empty => exact empty.symm
      · rfl
  | some first => simp only [zeroStrmBlockFetch, tailCleared, head]

theorem ptTail_poolCompleted (more : m.ptHead ≠ m.ptTail) (p : Ptr) :
    (poolCompleted p m).ptTail = m.ptTail := by
  have freed : (zeroStrmBlockFree m p).ptHead ≠ (zeroStrmBlockFree m p).ptTail := by
    cases p <;> exact more
  rw [poolCompleted, ptTail_fetch, tailCleared_other freed]
  cases p <;> rfl

/-- With one block queued the tail is cleared. -/
theorem ptTail_poolCompleted_last (only : m.ptHead = m.ptTail) (p : Ptr) :
    (poolCompleted p m).ptTail = none := by
  have freed : (zeroStrmBlockFree m p).ptHead = (zeroStrmBlockFree m p).ptTail := by
    cases p <;> exact only
  rw [poolCompleted, ptTail_fetch, tailCleared_last freed]

/-- The interrupt does not touch the pointer of a block that only the call has. -/
theorem poolCompleted_nextCleared (other : block ≠ sent) (notFirst : m.ptHead ≠ some block) :
    poolCompleted (some sent) (nextCleared block m) =
      nextCleared block (poolCompleted (some sent) m) := by
  have freed : zeroStrmBlockFree (nextCleared block m) (some sent) =
      nextCleared block (zeroStrmBlockFree m (some sent)) := by
    simp only [zeroStrmBlockFree, nextCleared]
    rw [Function.update_comm other]
  rw [poolCompleted, poolCompleted, freed]
  cases head : m.ptHead with
  | none => simp only [zeroStrmBlockFetch, nextCleared, zeroStrmBlockFree, head]
  | some first =>
      have ne : first ≠ block := fun same => notFirst (same ▸ head)
      simp only [zeroStrmBlockFetch, nextCleared, zeroStrmBlockFree, head]
      rw [Function.update_of_ne ne, Function.update_comm ne]

/-- Nor does it matter whether the new tail is stored before or after it, unless the interrupt
would send the new block. -/
theorem poolCompleted_storeTail (notFirst : m.ptHead ≠ some block) :
    poolCompleted (some sent) { m with ptTail := some block } =
      { poolCompleted (some sent) m with ptTail := some block } := by
  have tail : (poolCompleted (some sent) { m with ptTail := some block }).ptTail = some block :=
    ptTail_poolCompleted (m := { m with ptTail := some block }) notFirst _
  have others : poolCompleted (some sent) { m with ptTail := some block } =
      { poolCompleted (some sent) m with
        ptTail := (poolCompleted (some sent) { m with ptTail := some block }).ptTail } := by
    cases head : m.ptHead with
    | none => simp only [poolCompleted, zeroStrmBlockFree, zeroStrmBlockFetch, head]
    | some first => simp only [poolCompleted, zeroStrmBlockFree, zeroStrmBlockFetch, head]
  rw [others, tail]

end Interrupt

/-! ## The windows -/

/-- The only queued block is about to be linked to, or the new block is linked, first in the
queue, and not yet the tail. -/
def AppendPoint.InWindow (ptNewNode : Addr) (m : MemBlkFifo β) : AppendPoint → Prop
  | .loadTail => m.ptHead = m.ptTail
  | .storeLink _ => m.ptHead = m.ptTail
  | .storeTail => m.ptHead = some ptNewNode
  | _ => False

/-- The free list is loaded. -/
def NewPoint.InWindow : NewPoint → Prop
  | .loadTemp => False
  | _ => True

/-- The application is inside of a window. -/
def InCompletionWindow (s : Interrupted WritePoint (WriteSystem β)) : Prop :=
  match s.point with
  | some (.append ptNewNode point) => point.InWindow ptNewNode s.state.strm.tMemBlockFifo
  | some (.new point) => point.InWindow
  | _ => False

/-- No transfer ends inside of a window. -/
def AvoidsCompletion (s : Interrupted WritePoint (WriteSystem β)) (e : WriteEvent β) : Prop :=
  e = .complete → ¬ InCompletionWindow s

/-- `zero_strm_block_append` has linked its block behind the last one. -/
def LinkStored (point : WritePoint) : Prop := ∃ block, point = .append block .storeTail

/-! ## Moving the interrupt out of a call -/

section Movers

variable {count : ℕ} {c s s' : WriteSystem β} {e : WriteEvent β} {m : MemBlkFifo β}

/-- What a call has stored so far does not matter to the interrupt. -/
theorem AppendStage.sameHead {block : Addr} {u : MemBlkFifo β} {point : AppendPoint}
    (stage : AppendStage block m point u) : SameHead m u := by
  cases point with
  | clearNext =>
      obtain rfl : u = m := stage
      exact ⟨rfl, rfl, rfl⟩
  | testTail =>
      obtain rfl : u = _ := stage
      exact ⟨rfl, rfl, rfl⟩
  | storeTail =>
      obtain ⟨last, -, rfl⟩ := stage
      exact ⟨rfl, rfl, rfl⟩
  | _ =>
      obtain ⟨rfl, -⟩ := stage
      exact ⟨rfl, rfl, rfl⟩

/-- The interrupt keeps every stage of a call that has not stored its link. -/
theorem AppendStage.after {block sent : Addr} {u : MemBlkFifo β} {point : AppendPoint}
    (stage : AppendStage block m point u) (other : block ≠ sent)
    (notFirst : m.ptHead ≠ some block) (both : m.ptHead = none ↔ m.ptTail = none)
    (uncommitted : point ≠ .storeTail) (met : ¬ point.InWindow block u) :
    AppendStage block (poolCompleted (some sent) m) point (poolCompleted (some sent) u) := by
  have cleared := poolCompleted_nextCleared other notFirst
  have drained (empty : m.ptTail = none) :
      poolCompleted (some sent) m = zeroStrmBlockFree m (some sent) ∧
        poolCompleted (some sent) { nextCleared block m with ptTail := some block } =
          { nextCleared block (zeroStrmBlockFree m (some sent)) with ptTail := some block } := by
    have head : m.ptHead = none := both.mpr empty
    rw [poolCompleted_drained head, poolCompleted_drained (by exact head)]
    refine ⟨rfl, ?_⟩
    simp only [zeroStrmBlockFree, nextCleared]
    rw [Function.update_comm other]
  cases point with
  | clearNext =>
      obtain rfl : u = m := stage
      rfl
  | testTail =>
      obtain rfl : u = _ := stage
      exact cleared
  | storeFirst =>
      obtain ⟨rfl, empty⟩ := stage
      refine ⟨cleared, ?_⟩
      rw [(drained empty).1]
      exact empty
  | loadFirst =>
      obtain ⟨rfl, empty⟩ := stage
      obtain ⟨free, stored⟩ := drained empty
      rw [stored, free]
      exact ⟨rfl, empty⟩
  | storeHead ptTail =>
      obtain ⟨rfl, empty, rfl⟩ := stage
      obtain ⟨free, stored⟩ := drained empty
      rw [stored, free]
      exact ⟨rfl, empty, rfl⟩
  | loadTail =>
      obtain ⟨rfl, last, isLast⟩ := stage
      have more : m.ptHead ≠ m.ptTail := met
      exact ⟨cleared, last, (ptTail_poolCompleted more _).trans isLast⟩
  | storeLink ptTail =>
      obtain ⟨rfl, last, isLast, rfl⟩ := stage
      have more : m.ptHead ≠ m.ptTail := met
      exact ⟨cleared, last, (ptTail_poolCompleted more _).trans isLast, rfl⟩
  | storeTail => exact absurd rfl uncommitted

/-- What the current block and the block in flight are to the lists. -/
theorem WriteOwnedInv.current_outside (inv : WriteOwnedInv count c) {sent : Addr}
    (here : c.strm.fsmEnqueue = ⟨Enqueue.flush, ⟨StreamWriteFlush.start⟩⟩)
    (inFlight : c.strm.dma.inFlight = some sent) :
    c.strm.ptByteFifo ≠ sent ∧ c.strm.tMemBlockFifo.ptHead ≠ some c.strm.ptByteFifo ∧
      (c.strm.tMemBlockFifo.ptHead = none ↔ c.strm.tMemBlockFifo.ptTail = none) := by
  obtain ⟨free, queue, owned⟩ := inv.owned
  have owns : ownedBlock c.strm = [c.strm.ptByteFifo] := if_pos (.inr (.inr here))
  have member : c.strm.ptByteFifo ∈ ownedBlock c.strm := by simp [owns]
  refine ⟨?_, ?_, owned.headTail⟩
  · rintro rfl
    exact owned.apart inFlight member
  · rw [owned.represents.fifo.start]
    intro first
    exact (owned.outside (List.mem_append_right _ member)).2 (List.mem_of_head? first)

/-- **In front of an open call**: an interrupt that keeps out of the windows. -/
theorem WriteCalls.left {first point : WritePoint} (inv : WriteOwnedInv count c)
    (calling : c.calling.isSome = true) (calls : WriteCalls c first)
    (reached : writeAccess.Reached first c point s) (uncommitted : ¬ LinkStored point)
    (met : AvoidsCompletion ⟨s, some point⟩ e) (other : e ≠ .step) (step : WriteStep s e s') :
    ∃ c', WriteStep c e c' ∧ c'.calling.isSome = true ∧ WriteCalls c' first ∧
      writeAccess.Reached first c' point s' := by
  obtain ⟨auto, nothing⟩ := And.intro inv.busy.busy.auto inv.busy.busy.nothing
  have frame := (completed_sends auto nothing).frame
  cases calls with
  | append here =>
      obtain ⟨inner, m, rfl, rfl, before⟩ := of_within_reached (writeAccess_append _) reached
      have stage := appendAccess_reached_iff.mp before
      cases step with
      | write idle tByte =>
          rw [show c.calling = none from idle] at calling
          cases calling
      | step => exact absurd rfl other
      | @complete _ sent inFlight =>
          have apart := inv.current_outside here inFlight
          have same : (completeStep c).strm.ptByteFifo = c.strm.ptByteFifo := frame.2.2
          have after := stage.after apart.1 apart.2.1 apart.2.2
            (fun last => uncommitted ⟨_, by rw [last]⟩) (met rfl)
          have isSent := inv.busy.busy.sending sent inFlight
          rw [← isSent] at after
          have pool : (completeStep c).strm.tMemBlockFifo =
              poolCompleted c.strm.ptFifoSend (writePool.get c) := completeStep_pool auto nothing
          have moved := completeStep_set auto nothing stage.sameHead
          refine ⟨completeStep c, .complete inFlight, calling, ?_, ?_⟩
          · rw [← same]
            exact .append (frame.1.trans here)
          · rw [moved]
            refine within_reached (writeAccess_append _) (appendAccess_reached_iff.mpr ?_)
            rw [← pool] at after
            exact after
  | fetch here =>
      obtain ⟨inner, m, rfl, rfl, -⟩ := of_within_reached writeAccess_fetch reached
      cases step with
      | write idle tByte =>
          rw [show c.calling = none from idle] at calling
          cases calling
      | step => exact absurd rfl other
      | @complete _ sent inFlight =>
          have idle := inv.busy.busy.alone here
          rw [show c.strm.dma.inFlight = some sent from inFlight] at idle
          cases idle
  | new here =>
      obtain ⟨inner, m, rfl, rfl, before⟩ := of_within_reached writeAccess_new reached
      have stage := newAccess_reached before
      cases step with
      | write idle tByte =>
          rw [show c.calling = none from idle] at calling
          cases calling
      | step => exact absurd rfl other
      | complete inFlight =>
          have outside := met rfl
          cases inner with
          | loadTemp =>
              obtain rfl : m = _ := stage
              exact ⟨completeStep c, .complete inFlight, calling, .new (frame.1.trans here),
                .start⟩
          | _ => exact absurd trivial outside

/-- The last access of `zero_strm_block_append`, and what follows it. -/
theorem alone_storeTail (block : Addr) (s : WriteSystem β) :
    writeAccess.alone 8 (.append block .storeTail) s =
      some ((), afterAppend true
        (writePool.set { s.strm.tMemBlockFifo with ptTail := some block } s)) :=
  within_alone (writeAccess_append block) 8 .storeTail s

/-- **Behind a committed call**: an interrupt that does not send the new block. -/
theorem append_right {block : Addr} (inv : WriteOwnedInv count c)
    (ends : writeAccess.alone 8 (.append block .storeTail) s = some ((), c))
    (met : AvoidsCompletion ⟨s, some (.append block .storeTail)⟩ e)
    (other : e ≠ .step) (step : WriteStep s e s') :
    ∃ c', WriteStep c e c' ∧
      writeAccess.alone 8 (.append block .storeTail) s' = some ((), c') := by
  rw [alone_storeTail] at ends
  obtain ⟨-, rfl⟩ := Prod.mk.inj (Option.some.inj ends)
  have auto : s.strm.fsmFlushAuto = ⟨StreamWriteFlush.start⟩ := inv.busy.busy.auto
  have nothing : s.strm.ptByteFifoCpl = none := inv.busy.busy.nothing
  cases step with
  | write idle tByte =>
      rcases inv.busy.outside idle with atStart | parked
      · cases atStart
      · cases parked
  | step => exact absurd rfl other
  | @complete _ sent inFlight =>
      refine ⟨_, .complete inFlight, ?_⟩
      have isSent : s.strm.ptFifoSend = some sent := inv.busy.busy.sending sent inFlight
      obtain ⟨m, isStored⟩ : ∃ m, m = { s.strm.tMemBlockFifo with ptTail := some block } :=
        ⟨_, rfl⟩
      have same : SameHead s.strm.tMemBlockFifo m := by
        rw [isStored]
        exact ⟨rfl, rfl, rfl⟩
      have moved := completeStep_set auto nothing same
      have place : completeStep (afterAppend true (writePool.set m s)) =
          afterAppend true (completeStep (writePool.set m s)) :=
        completeStep_place (s := writePool.set m s) auto nothing _
      have stored : poolCompleted (some sent) { s.strm.tMemBlockFifo with ptTail := some block } =
          { poolCompleted (some sent) s.strm.tMemBlockFifo with ptTail := some block } :=
        poolCompleted_storeTail (met rfl)
      have pool := completeStep_pool auto nothing
      rw [isSent] at moved pool
      rw [alone_storeTail, pool, ← stored, ← isStored, ← moved, ← place]

/-- **The interrupt of a transfer can be moved out of a write.** -/
theorem writeMovers (count : ℕ) :
    Movers (writeProgram (β := β)) WriteStep .step (WriteOwnedInv count) LinkStored
      AvoidsCompletion where
  steps := by
    intro c c' inv whole
    have enters : (writeNext c).isSome = true := by
      cases enters : writeNext c with
      | some r => rfl
      | none =>
          have faults : writeProgram.whole c = (writeNext c).bind _ := rfl
          rw [faults, enters] at whole
          cases whole
    obtain ⟨tByte, calling⟩ :=
      Option.isSome_iff_exists.mp ((Option.isSome_map ..).symm.trans enters)
    rw [writeProgram_whole inv.busy.busy.place calling] at whole
    cases whole
    exact .step calling
  ends := by
    intro c inv enters
    obtain ⟨tByte, calling⟩ :=
      Option.isSome_iff_exists.mp ((Option.isSome_map ..).symm.trans enters)
    rw [writeProgram_whole inv.busy.busy.place calling]
    rfl
  kept := fun _ _ _ inv step => inv.kept step
  stays := by
    rintro point s next t ⟨block, rfl⟩ code
    cases code
  left := by
    intro c s₀ s s' first point e inv enters reached uncommitted met other step
    obtain ⟨rfl, calling, calls⟩ := (writeNext_calls inv.busy.busy.place).mp enters
    obtain ⟨c', step', calling', calls', reached'⟩ :=
      calls.left inv calling reached uncommitted met other step
    exact ⟨c', c', step', (writeNext_calls (inv.kept step').busy.busy.place).mpr
      ⟨rfl, calling', calls'⟩, reached'⟩
  right := by
    rintro c s s' point e inv ends ⟨block, rfl⟩ met other step
    exact append_right inv ends met other step

/-! ## Inside of a window -/

theorem settled_append {block : Addr} {point : AppendPoint} {u : WriteSystem β}
    (ends : writeProgram.settled ⟨s, some (.append block point)⟩ = some u) :
    ∃ ret pool, (appendAccess block).alone 8 point s.strm.tMemBlockFifo = some (ret, pool) ∧
      u.strm.tMemBlockFifo = pool := by
  have call : writeProgram.settled ⟨s, some (.append block point)⟩ =
      ((writeAccess.alone 8 (.append block point) s).map Prod.snd) := rfl
  rw [call, within_alone (writeAccess_append block) 8 point s, Option.map_map] at ends
  obtain ⟨⟨ret, pool⟩, alone, rfl⟩ := Option.map_eq_some_iff.mp ends
  exact ⟨ret, pool, alone, rfl⟩

theorem settled_new {point : NewPoint} {u : WriteSystem β}
    (ends : writeProgram.settled ⟨s, some (.new point)⟩ = some u) :
    ∃ block pool, newAccess.alone 8 point s.strm.tMemBlockFifo = some (block, pool) ∧
      u = afterNew block (writePool.set pool s) := by
  have call : writeProgram.settled ⟨s, some (.new point)⟩ =
      ((writeAccess.alone 8 (.new point) s).map Prod.snd) := rfl
  rw [call, within_alone writeAccess_new 8 point s, Option.map_map] at ends
  obtain ⟨⟨block, pool⟩, alone, rfl⟩ := Option.map_eq_some_iff.mp ends
  exact ⟨block, pool, alone, rfl⟩

/-- **Inside of `zero_strm_block_append`**, before the link is stored, an interrupt that sends the
only queued block makes the head and the tail part, or the call goes on from a null tail. -/
theorem AppendStage.broken {block sent : Addr} {point : AppendPoint} {pool : MemBlkFifo β}
    {free queue : List Addr} {ret : Bool} (held : Represents m free queue)
    (notFirst : m.ptHead ≠ some block) (notSent : sent ∉ queue) (other : block ≠ sent)
    {u : MemBlkFifo β} (stage : AppendStage block m point u) (uncommitted : point ≠ .storeTail)
    (window : point.InWindow block u)
    (alone : (appendAccess block).alone 8 point (poolCompleted (some sent) u) =
      some (ret, pool)) : ¬ (pool.ptHead = none ↔ pool.ptTail = none) := by
  have emptied {last : Addr} (isLast : m.ptTail = some last) (only : m.ptHead = m.ptTail) :
      (poolCompleted (some sent) (nextCleared block m)).ptHead = none ∧
        (poolCompleted (some sent) (nextCleared block m)).ptTail = none := by
    have head : m.ptHead = some last := only.trans isLast
    have ne : last ≠ sent := by
      rintro rfl
      exact notSent (List.mem_of_head? (held.fifo.start.symm.trans head))
    have next : m.ptNext last = none := held.next_last head only
    rw [poolCompleted_nextCleared other notFirst]
    exact ⟨(ptHead_poolCompleted head ne).trans next, ptTail_poolCompleted_last only _⟩
  cases point with
  | loadTail =>
      obtain ⟨rfl, last, isLast⟩ := stage
      obtain ⟨-, tail⟩ := emptied isLast window
      simp only [Routine.alone, appendAccess, tail] at alone
      cases alone
  | storeLink ptTail =>
      obtain ⟨rfl, last, isLast, rfl⟩ := stage
      obtain ⟨head, -⟩ := emptied isLast window
      simp only [Routine.alone, appendAccess, Option.some.injEq, Prod.mk.injEq] at alone
      obtain ⟨-, rfl⟩ := alone
      intro both
      cases both.mp head
  | storeTail => exact absurd rfl uncommitted
  | _ => exact absurd window id

/-- **Inside of `zero_strm_block_new`**, a block is handed out that is free, or the freed one is
lost. -/
theorem NewStage.broken {point : NewPoint} {u : WriteSystem β} {sent : Addr}
    (inv : WriteOwnedInv count c) (here : c.strm.fsmEnqueue =
      ⟨Enqueue.getByteFifo, ⟨StreamWriteFlush.start⟩⟩)
    (stage : NewStage c.strm.tMemBlockFifo point m) (window : point.InWindow)
    (inFlight : c.strm.dma.inFlight = some sent)
    (ends : writeProgram.settled ⟨completeStep c, some (.new point)⟩ = some u) :
    ¬ WriteOwned count u.strm := by
  rintro ⟨⟨free', queue', owned'⟩, -⟩
  obtain ⟨free, queue, owned⟩ := inv.owned
  obtain ⟨queue₀, after⟩ := owned.completed inv.busy.busy inFlight
  have place : (completed c.strm).fsmEnqueue = _ :=
    (completed_sends inv.busy.busy.auto inv.busy.busy.nothing).frame.1.trans here
  have parked : ownedBlock (completed c.strm) = [] := by
    rw [ownedBlock, if_neg (by simp [OwnsCurrent, place])]
  obtain ⟨ret, pool, alone, rfl⟩ := settled_new ends
  have twice {block : Addr} (taken : ret = some block) (top : pool.ptFreeList = some block) :
      False := by
    subst taken
    have stack : Chain pool.ptNext pool.ptFreeList free' := owned'.represents.stack
    rw [top] at stack
    obtain ⟨rest, rfl, -⟩ := stack.eq_cons
    have member : block ∈ (block :: rest) ++ queue' ++
        (completed c.strm).dma.inFlight.toList := by simp
    exact owned'.ne_current (.inr (.inl rfl)) member rfl
  have lost {block : Addr} {rest : List Addr} (isFree : free = block :: rest)
      (taken : ret = some block)
      (isPool : pool = { (completed c.strm).tMemBlockFifo with
        ptFreeList := (completed c.strm).tMemBlockFifo.ptNext block }) : False := by
    subst isFree taken isPool
    obtain ⟨-, -, below⟩ := after.represents.stack
    have sameFree : free' = rest := owned'.represents.stack.unique below
    have sameQueue : queue' = queue₀ := owned'.represents.fifo.unique after.represents.fifo
    have before := after.partition.length_eq
    have now := owned'.partition.length_eq
    have current : ownedBlock (afterNew (some block) (writePool.set
        { (completed c.strm).tMemBlockFifo with
          ptFreeList := (completed c.strm).tMemBlockFifo.ptNext block }
        (completeStep c))).strm = [block] := if_pos (.inr (.inl rfl))
    have channel : (afterNew (some block) (writePool.set
        { (completed c.strm).tMemBlockFifo with
          ptFreeList := (completed c.strm).tMemBlockFifo.ptNext block }
        (completeStep c))).strm.dma.inFlight = (completed c.strm).dma.inFlight := rfl
    rw [sameFree, sameQueue, current, channel] at now
    rw [parked] at before
    simp only [List.length_append, List.length_cons, List.length_nil] at before now
    omega
  have stack := owned.represents.stack
  cases point with
  | loadTemp => exact absurd window id
  | loadList ptTemp =>
      obtain ⟨rfl, top⟩ := stage
      rw [top] at stack
      obtain ⟨rest, rfl, -⟩ := stack.eq_cons
      obtain ⟨first, second, -⟩ := after.represents.stack
      change newAccess.alone 8 _ (completed c.strm).tMemBlockFifo = _ at alone
      simp only [Routine.alone, newAccess, first, Option.some.injEq, Prod.mk.injEq] at alone
      obtain ⟨rfl, rfl⟩ := alone
      exact twice rfl second
  | loadNext ptTemp ptFreeList =>
      obtain ⟨rfl, top, rfl⟩ := stage
      rw [top] at stack
      obtain ⟨rest, rfl, -⟩ := stack.eq_cons
      change newAccess.alone 8 _ (completed c.strm).tMemBlockFifo = _ at alone
      simp only [Routine.alone, newAccess, Option.some.injEq, Prod.mk.injEq] at alone
      obtain ⟨rfl, rfl⟩ := alone
      exact lost rfl rfl rfl
  | storeList ptTemp ptNext =>
      obtain ⟨rfl, top, rfl⟩ := stage
      rw [top] at stack
      obtain ⟨rest, rfl, below⟩ := stack.eq_cons
      obtain ⟨-, -, below'⟩ := after.represents.stack
      change newAccess.alone 8 _ (completed c.strm).tMemBlockFifo = _ at alone
      simp only [Routine.alone, newAccess, Option.some.injEq, Prod.mk.injEq] at alone
      obtain ⟨rfl, rfl⟩ := alone
      rw [below.start, ← below'.start] at lost
      exact lost rfl rfl rfl

/-- The same, for the interrupted write. -/
theorem append_broken {sent : Addr} {point : AppendPoint} {u : WriteSystem β}
    (inv : WriteOwnedInv count c)
    (here : c.strm.fsmEnqueue = ⟨Enqueue.flush, ⟨StreamWriteFlush.start⟩⟩)
    (stage : AppendStage c.strm.ptByteFifo c.strm.tMemBlockFifo point m)
    (uncommitted : point ≠ .storeTail) (window : point.InWindow c.strm.ptByteFifo m)
    (inFlight : c.strm.dma.inFlight = some sent)
    (ends : writeProgram.settled ⟨completeStep (writePool.set m c),
      some (.append c.strm.ptByteFifo point)⟩ = some u) : ¬ WriteOwned count u.strm := by
  rintro ⟨⟨free', queue', owned'⟩, -⟩
  obtain ⟨free, queue, owned⟩ := inv.owned
  obtain ⟨other, notFirst, -⟩ := inv.current_outside here inFlight
  have notSent := (owned.outside (List.mem_append_left _ (Option.mem_toList.mpr inFlight))).2
  obtain ⟨ret, pool, alone, samePool⟩ := settled_append ends
  rw [completeStep_set inv.busy.busy.auto inv.busy.busy.nothing stage.sameHead,
    inv.busy.busy.sending sent inFlight] at alone
  have both := owned'.headTail
  rw [samePool] at both
  exact stage.broken owned.represents notFirst notSent other uncommitted window alone both

/-- **After the link is stored**, the interrupt that sends the new block leaves a tail without a
head. -/
theorem storeTail_broken {sent block : Addr} {u : WriteSystem β} (inv : WriteOwnedInv count c)
    (closing : writeAccess.alone 8 (.append block .storeTail) s = some ((), c))
    (window : s.strm.tMemBlockFifo.ptHead = some block)
    (inFlight : s.strm.dma.inFlight = some sent)
    (ends : writeProgram.settled ⟨completeStep s, some (.append block .storeTail)⟩ = some u) :
    ¬ WriteOwned count u.strm := by
  rintro ⟨⟨free', queue', owned'⟩, -⟩
  rw [alone_storeTail] at closing
  obtain ⟨-, rfl⟩ := Prod.mk.inj (Option.some.inj closing)
  obtain ⟨free, queue, owned⟩ := inv.owned
  have next : s.strm.tMemBlockFifo.ptNext block = none := owned.represents.next_last window window
  have queued : block ∈ queue := List.mem_of_head? (owned.represents.fifo.start.symm.trans window)
  have notSent := (owned.outside (List.mem_append_left _ (Option.mem_toList.mpr inFlight))).2
  have other : block ≠ sent := fun same => notSent (same ▸ queued)
  have isSent : s.strm.ptFifoSend = some sent := inv.busy.busy.sending sent inFlight
  have gone : (completeStep s).strm.tMemBlockFifo.ptHead = none := by
    have pool := completeStep_pool (s := s) inv.busy.busy.auto inv.busy.busy.nothing
    rw [pool, isSent, ptHead_poolCompleted window other, next]
  obtain ⟨ret, pool, alone, samePool⟩ := settled_append ends
  simp only [Routine.alone, appendAccess, Option.some.injEq, Prod.mk.injEq] at alone
  obtain ⟨-, rfl⟩ := alone
  have both := owned'.headTail
  rw [samePool] at both
  cases both.mp gone

/-- **An interrupt inside of a window breaks the lists**, as soon as the interrupted call is at its
end. -/
theorem completion_broken {s t : Interrupted WritePoint (WriteSystem β)}
    (inv : WriteOwnedInv count c) (stands : writeProgram.Stands LinkStored c s)
    (misses : ¬ AvoidsCompletion s e) (step : writeProgram.Fine WriteStep .step s e t) :
    ¬ ∃ u, writeProgram.settled t = some u ∧ WriteOwned count u.strm := by
  simp only [AvoidsCompletion, Classical.not_imp, not_not] at misses
  obtain ⟨rfl, window⟩ := misses
  rcases step with ⟨isMain, -⟩ | ⟨-, step, samePoint⟩
  · cases isMain
  obtain ⟨t, point'⟩ := t
  obtain ⟨sent, inFlight, isCompleted⟩ := step.completes
  dsimp only at isCompleted samePoint
  subst isCompleted samePoint
  rintro ⟨u, ends, owned⟩
  cases stands with
  | rest => exact window
  | @before s₀ s first point enters reached uncommitted =>
      obtain ⟨rfl, calling, calls⟩ := (writeNext_calls inv.busy.busy.place).mp enters
      cases calls with
      | append here =>
          obtain ⟨inner, m, rfl, rfl, before⟩ := of_within_reached (writeAccess_append _) reached
          exact append_broken inv here (appendAccess_reached_iff.mp before)
            (fun last => uncommitted ⟨_, by rw [last]⟩) window inFlight ends owned
      | fetch here =>
          obtain ⟨inner, m, rfl, rfl, -⟩ := of_within_reached writeAccess_fetch reached
          exact window
      | new here =>
          obtain ⟨inner, m, rfl, rfl, before⟩ := of_within_reached writeAccess_new reached
          have stage := newAccess_reached before
          have unchanged : m = s₀.strm.tMemBlockFifo := by
            cases inner with
            | loadTemp => exact absurd window id
            | _ => exact stage.1
          subst unchanged
          exact stage.broken inv here window inFlight ends owned
  | after closing closed =>
      obtain ⟨block, rfl⟩ := closed
      exact storeTail_broken inv closing window inFlight ends owned

end Movers

/-! ## Runs -/

section Runs

variable {cfg : StreamWriteCfg} {m : MemBlkFifo β} {strm : TxStream β}
  {es : List (WriteEvent β)} {t : Interrupted WritePoint (WriteSystem β)}

/-- The steps of the sender with the interrupt between any two accesses to the lists. -/
abbrev WriteAccessStep : StepRel (Interrupted WritePoint (WriteSystem β)) (WriteEvent β) :=
  writeProgram.Fine WriteStep .step

/-- What an interrupted call has not changed: the logs and the channel. -/
theorem writeStands_frame {count : ℕ} {c : WriteSystem β} (inv : WriteOwnedInv count c)
    (stands : writeProgram.Stands LinkStored c t) :
    t.state.accepted = c.accepted ∧ t.state.strm.dma = c.strm.dma ∧
      (t.point = none → t.state = c) := by
  cases stands with
  | rest => exact ⟨rfl, rfl, fun _ => rfl⟩
  | @before s₀ s first point enters reached uncommitted =>
      obtain ⟨rfl, -, calls⟩ := (writeNext_calls inv.busy.busy.place).mp enters
      cases calls with
      | append here =>
          obtain ⟨inner, m, rfl, rfl, -⟩ := of_within_reached (writeAccess_append _) reached
          exact ⟨rfl, rfl, nofun⟩
      | fetch here =>
          obtain ⟨inner, m, rfl, rfl, -⟩ := of_within_reached writeAccess_fetch reached
          exact ⟨rfl, rfl, nofun⟩
      | new here =>
          obtain ⟨inner, m, rfl, rfl, -⟩ := of_within_reached writeAccess_new reached
          exact ⟨rfl, rfl, nofun⟩
  | @after s point ends closed =>
      obtain ⟨block, rfl⟩ := closed
      have last : writeAccess.alone 8 (.append block .storeTail) s = some ((), c) := ends
      rw [alone_storeTail] at last
      obtain ⟨-, rfl⟩ := Prod.mk.inj (Option.some.inj last)
      exact ⟨rfl, rfl, nofun⟩

/-- **Interrupts between any two accesses.** A run whose interrupts keep out of the windows leads
where a run with the same calls and the same interrupts between the states of the call leads: to
the same state whenever no call of the block manager is under way, with the same bytes accepted and
sent at any time. So the bytes given to the channel are the first accepted ones. -/
theorem interruptedWrite_reduced (positive : 0 < cfg.writeBuffCnt)
    (small : cfg.writeBuffCnt < 2 ^ 16)
    (init : zeroStrmWriteInit cfg m DmaTx.reset = some strm)
    (run : Run (guarded WriteAccessStep AvoidsCompletion) ⟨⟨strm, none, [], [], []⟩, none⟩ es t) :
    (∃ ds u, WriteRun WriteStep cfg m ds u ∧
      ds.filter WriteEvent.isExternal = es.filter WriteEvent.isExternal ∧
      t.state.accepted = u.accepted ∧ t.state.strm.dma = u.strm.dma ∧
      (t.point = none → t.state = u)) ∧
    startedBytes t.state.strm <+: t.state.accepted := by
  have start := (zeroStrmWriteInit_spec init).ownedInv
  obtain ⟨ds, u, coarse, inv, stands, order⟩ :=
    (writeMovers cfg.chCnt).reduced WriteEvent.isExternal_iff start .rest run
  have whole : WriteRun WriteStep cfg m ds u := ⟨strm, init, coarse⟩
  obtain ⟨accepted, channel, still⟩ := writeStands_frame inv stands
  refine ⟨⟨ds, u, whole, order, accepted, channel, still⟩, ?_⟩
  obtain ⟨_, ⟨free, queue, -, -, same, rfl⟩, lossless⟩ := whole.shows positive small
  rw [startedBytes, channel, accepted, same]
  exact lossless.received_prefix

/-- **The windows are exact.** The interrupts of a run keep out of the windows exactly when in
every state of the run the interrupted call, run to its end, leaves every block with one owner.
-/
theorem interruptedWrite_exact
    (init : zeroStrmWriteInit cfg m DmaTx.reset = some strm)
    (run : Run WriteAccessStep ⟨⟨strm, none, [], [], []⟩, none⟩ es t) :
    Run (guarded WriteAccessStep AvoidsCompletion) ⟨⟨strm, none, [], [], []⟩, none⟩ es t ↔
      Throughout WriteAccessStep
        (fun s => ∃ u, writeProgram.settled s = some u ∧ WriteOwned cfg.chCnt u.strm)
        ⟨⟨strm, none, [], [], []⟩, none⟩ es := by
  have start := (zeroStrmWriteInit_spec init).ownedInv
  exact (writeMovers cfg.chCnt).exact writeStep_deterministic (fun _ inv => inv.writeOwned)
    (fun _ _ _ _ inv stands misses step => completion_broken inv stands misses step) start run

end Runs

/-! ### Runs on fixed events -/

section Steps

variable {s : Interrupted WritePoint (WriteSystem β)} {block : Addr}

theorem avoidsCompletion_step (s : Interrupted WritePoint (WriteSystem β)) :
    AvoidsCompletion s .step := nofun

theorem writeAccessStep_write (idle : s.state.calling = none) (tByte : β) :
    guarded WriteAccessStep AvoidsCompletion s (.write tByte)
      ⟨{ s.state with calling := some tByte }, s.point⟩ :=
  ⟨nofun, .inr ⟨nofun, .write idle tByte, rfl⟩⟩

theorem writeAccessStep_complete (inFlight : s.state.strm.dma.inFlight = some block) :
    WriteAccessStep s .complete ⟨completeStep s.state, s.point⟩ :=
  .inr ⟨nofun, .complete inFlight, rfl⟩

end Steps

/-- The events of a sender with two blocks of one byte: the third write appends its full block, and
the transfer of the other one ends before that has tested the tail. -/
def completingEvents : List (WriteEvent UInt8) :=
  .write 7 :: (List.replicate 2 .step ++ .write 8 :: (List.replicate 24 .step ++ .write 9 ::
    (List.replicate 4 .step ++ .complete :: List.replicate 4 .step)))

/-- Those events can happen with the interrupt out of the windows. -/
theorem completingEvents_run :
    ∃ s t, zeroStrmWriteInit (smallWriteCfg 2) zeroMemory DmaTx.reset = some s ∧
      Run (guarded WriteAccessStep AvoidsCompletion) ⟨⟨s, none, [], [], []⟩, none⟩
        completingEvents t ∧
      t.state.accepted = [7, 8] :=
  ⟨_, _, rfl, ⟨_, writeAccessStep_write rfl 7,
    run_append.mpr ⟨_, Program.run_advances avoidsCompletion_step rfl,
    _, writeAccessStep_write rfl 8,
    run_append.mpr ⟨_, Program.run_advances avoidsCompletion_step rfl,
    _, writeAccessStep_write rfl 9,
    run_append.mpr ⟨_, Program.run_advances avoidsCompletion_step rfl,
    _, ⟨fun _ => id, writeAccessStep_complete rfl⟩,
    Program.run_advances avoidsCompletion_step rfl⟩⟩⟩⟩, rfl⟩

/-- After those events the same interrupt between the states of the call has the same outcome. -/
theorem interruptedWrite_reduced_twoBlocks :
    ∃ s t ds u, zeroStrmWriteInit (smallWriteCfg 2) zeroMemory DmaTx.reset = some s ∧
      Run (guarded WriteAccessStep AvoidsCompletion) ⟨⟨s, none, [], [], []⟩, none⟩
        completingEvents t ∧
      WriteRun WriteStep (smallWriteCfg 2) zeroMemory ds u ∧ u.accepted = [7, 8] := by
  obtain ⟨s, t, init, run, accepted⟩ := completingEvents_run
  obtain ⟨⟨ds, u, coarse, -, same, -⟩, -⟩ :=
    interruptedWrite_reduced (by decide) (by decide) init run
  exact ⟨s, t, ds, u, init, run, coarse, same.symm.trans accepted⟩

/-- The events of a sender with three blocks of one byte: while one is in flight and one queued,
the third is about to be linked behind the queued one, and the interrupt sends that one. -/
def strandingEvents : List (WriteEvent UInt8) :=
  .write 7 :: (List.replicate 2 .step ++ .write 8 :: (List.replicate 24 .step ++ .write 9 ::
    (List.replicate 15 .step ++ .write 1 ::
      (List.replicate 6 .step ++ .complete :: List.replicate 2 .step))))

/-- After those events the third block is the tail of a queue without a head: the interrupt has not
kept out of the windows. -/
theorem interruptedWrite_exact_stranded :
    ∃ s t, zeroStrmWriteInit (smallWriteCfg 3) zeroMemory DmaTx.reset = some s ∧
      Run WriteAccessStep ⟨⟨s, none, [], [], []⟩, none⟩ strandingEvents t ∧
      t.state.accepted = [7, 8, 9] ∧ t.state.strm.tMemBlockFifo.ptHead = none ∧
      ¬ Run (guarded WriteAccessStep AvoidsCompletion) ⟨⟨s, none, [], [], []⟩, none⟩
        strandingEvents t := by
  have rests {count : ℕ} {s t : Interrupted WritePoint (WriteSystem UInt8)}
      (code : writeProgram.advances count s = some t) :
      Run WriteAccessStep s (List.replicate count .step) t :=
    (Program.run_advances avoidsCompletion_step code).unguarded
  obtain ⟨s, t, init, run, accepted, point, head, tail⟩ :
      ∃ s t, zeroStrmWriteInit (smallWriteCfg 3) zeroMemory DmaTx.reset = some s ∧
        Run WriteAccessStep ⟨⟨s, none, [], [], []⟩, none⟩ strandingEvents t ∧
        t.state.accepted = [7, 8, 9] ∧ t.point = none ∧
        t.state.strm.tMemBlockFifo.ptHead = none ∧
        t.state.strm.tMemBlockFifo.ptTail.isSome = true :=
    ⟨_, _, rfl, ⟨_, (writeAccessStep_write rfl 7).2, run_append.mpr ⟨_, rests rfl,
      _, (writeAccessStep_write rfl 8).2, run_append.mpr ⟨_, rests rfl,
      _, (writeAccessStep_write rfl 9).2, run_append.mpr ⟨_, rests rfl,
      _, (writeAccessStep_write rfl 1).2, run_append.mpr ⟨_, rests rfl,
      _, writeAccessStep_complete rfl, rests rfl⟩⟩⟩⟩⟩, rfl, rfl, rfl, rfl⟩
  refine ⟨s, t, init, run, accepted, head, ?_⟩
  rw [interruptedWrite_exact init run]
  intro always
  obtain ⟨v, settled, ⟨free, queue, owned⟩, -⟩ := always _ t List.prefix_rfl run
  have here : writeProgram.settled t = some t.state := by
    simp only [Program.settled, point]
  rw [here] at settled
  cases settled
  rw [owned.headTail.mp head] at tail
  cases tail

end ZeroStrm
