import ZeroStrm.Read.Delivery
import ZeroStrm.Read.Handlers

/-!
# Handlers between two accesses of a read

`zero_strm_read` calls `zero_strm_block_free` and `zero_strm_block_fetch` with interrupts enabled.
Here a handler may run between any two of their accesses to the lists (`readProgram`), and not only
between two states of `dequeue`.

A handler that appends a block must keep out of two windows (`InWindow`). After
`zero_strm_block_free` has loaded the free list, the handler would take the block that is about to
be linked behind the freed one. After `zero_strm_block_fetch` has found the last one block, and
until it has stored the head, the handler would append behind a block that leaves the queue.

Everywhere else a handler can be moved in front of the call, or behind it once the head is stored.
So a run that keeps out of the windows ends where handlers between states lead, and every result
about those runs holds for it (`interruptedRead_reduced`). `interruptedRead_exact` says that the
windows are exact: the first handler inside of one leaves lists that the interrupted call, run to
its end, breaks.
-/

set_option autoImplicit false

namespace ZeroStrm

open EventRuns Interruption

variable {β D : Type}

/-! ## The application, one access at a time -/

/-- The points of the application inside of the block manager, with the arguments of the call. -/
inductive ReadPoint where
  | free (ptFreeBlock : Addr) (point : FreePoint)
  | fetch (point : FetchPoint)
  deriving DecidableEq, Repr

/-- The memory of the block manager as a part of the system. -/
def readPool : Part (ReadSystem β D) (MemBlkFifo β) where
  get s := s.strm.tMemBlockFifo
  set m s := { s with strm := withPool m s.strm }
  get_set _ _ := rfl
  set_get _ := rfl
  set_set _ _ _ := rfl

/-- The rest of `BYTE_FIFO_OUT` after `zero_strm_block_free`. -/
def afterFree (_ : Unit) (s : ReadSystem β D) : ReadSystem β D :=
  { s with strm := { s.strm with
      fsmDequeue := { s.strm.fsmDequeue with chState := Dequeue.getByteFifo } } }

/-- The rest of `GET_BYTE_FIFO` after `zero_strm_block_fetch`. -/
def afterFetch (ptByteFifo : Ptr) (s : ReadSystem β D) : ReadSystem β D :=
  match ptByteFifo with
  | none => s
  | some block =>
    let full := zeroStrmInitByteFifoFull s.strm.tByteFifo (some block)
      (u16 (s.strm.tMemBlockFifo.tSizeInByte block))
    { s with strm := withOwn full.2 ⟨Dequeue.byteFifoOut, block⟩ s.strm }

/-- A state of `dequeue` up to its call of the block manager, if it makes one. -/
def readNext (s : ReadSystem β D) : Option (ReadSystem β D × Option ReadPoint) :=
  match s.strm.fsmDequeue.chState with
  | Dequeue.start =>
    some ({ s with strm := { s.strm with
        fsmDequeue := { s.strm.fsmDequeue with chState := Dequeue.byteFifoOut } } }, none)
  | Dequeue.byteFifoOut =>
    let deq := zeroStrmDequeueByteFifo s.strm.tMemBlockFifo s.strm.tByteFifo
    match deq.1 with
    | some byte =>
      some ({ strm := { s.strm with
                tByteFifo := deq.2
                fsmDequeue := { s.strm.fsmDequeue with chState := Dequeue.start } }
              returned := s.returned ++ [byte] }, none)
    | none =>
      some ({ s with strm := { s.strm with tByteFifo := deq.2 } },
        some (.free s.strm.fsmDequeue.ptByteFifo .loadList))
  | Dequeue.getByteFifo => some (s, some (.fetch .loadTemp))
  | _ => some (s, none)

def readAccess : Routine ReadPoint (ReadSystem β D) Unit
  | .free ptFreeBlock point, s =>
    (freeAccess ptFreeBlock).within readPool (.free ptFreeBlock) afterFree point s
  | .fetch point, s => fetchAccess.within readPool .fetch afterFetch point s

/-- The application that calls `zero_strm_read`. -/
def readProgram : Program ReadPoint (ReadSystem β D) where
  next := readNext
  access := readAccess
  length := 8

/-! ## Without interruption -/

section Calls

variable {s : ReadSystem β D}

theorem readAccess_free (block : Addr) (point : FreePoint) (s : ReadSystem β D) :
    readAccess (.free block point) s =
      (freeAccess block).within readPool (.free block) afterFree point s := rfl

theorem readAccess_fetch (point : FetchPoint) (s : ReadSystem β D) :
    readAccess (.fetch point) s = fetchAccess.within readPool .fetch afterFetch point s := rfl

theorem alone_free (block : Addr) (s : ReadSystem β D) :
    readAccess.alone 8 (.free block .loadList) s =
      some ((), afterFree () (readPool.set
        (zeroStrmBlockFree s.strm.tMemBlockFifo (some block)) s)) :=
  within_alone (readAccess_free block) 8 .loadList s

theorem alone_fetch (s : ReadSystem β D) :
    readAccess.alone 8 (.fetch .loadTemp) s =
      some ((), afterFetch (zeroStrmBlockFetch s.strm.tMemBlockFifo).1
        (readPool.set (zeroStrmBlockFetch s.strm.tMemBlockFifo).2 s)) := by
  rw [within_alone readAccess_fetch 8 .loadTemp s]
  exact congrArg _ (fetchAccess_alone s.strm.tMemBlockFifo)

/-- **Without interruption the application takes the states of `dequeue`.** -/
theorem readProgram_whole {ι : Type} (hw : RxHardware β D ι)
    (valid : s.strm.fsmDequeue.chState ≤ Dequeue.getByteFifo) :
    readProgram.whole s = some (readStep hw s .read) := by
  rcases dequeue_places valid with at_start | at_out | at_get
  · simp only [Program.whole, readProgram, readNext, at_start, readStep, dequeueState,
      returnedByte, Option.bind_some, Program.settled]
    rw [if_neg (by rintro ⟨⟩), List.append_nil]
  · obtain ⟨⟨byte | byte, fifo⟩, deq⟩ :
        ∃ r, zeroStrmDequeueByteFifo s.strm.tMemBlockFifo s.strm.tByteFifo = r := ⟨_, rfl⟩
    · simp only [Program.whole, readProgram, readNext, at_out, deq, readStep, dequeueState,
        returnedByte, Option.bind_some, Program.settled, alone_free]
      rw [if_neg (by rintro ⟨⟩), List.append_nil]
      rfl
    · simp only [Program.whole, readProgram, readNext, at_out, deq, readStep, dequeueState,
        returnedByte, Option.bind_some, Program.settled, if_true, Option.toList_some]
  · obtain ⟨⟨block | block, pool⟩, fetched⟩ :
        ∃ r, zeroStrmBlockFetch s.strm.tMemBlockFifo = r := ⟨_, rfl⟩
    · simp only [Program.whole, readProgram, readNext, at_get, readStep, dequeueState, fetched,
        returnedByte, Option.bind_some, Program.settled, alone_fetch]
      rw [if_neg (by rintro ⟨⟩), List.append_nil]
      rfl
    · simp only [Program.whole, readProgram, readNext, at_get, readStep, dequeueState, fetched,
        returnedByte, Option.bind_some, Program.settled, alone_fetch]
      rw [if_neg (by rintro ⟨⟩), List.append_nil]
      rfl

end Calls

/-- The calls of the block manager that the states of `dequeue` make. -/
inductive Calls (s : ReadSystem β D) : ReadPoint → Prop where
  | free (at_out : s.strm.fsmDequeue.chState = Dequeue.byteFifoOut)
      (drained : zeroStrmIsByteFifoEmpty s.strm.tByteFifo = true) :
      Calls s (.free s.strm.fsmDequeue.ptByteFifo .loadList)
  | fetch (at_get : s.strm.fsmDequeue.chState = Dequeue.getByteFifo) :
      Calls s (.fetch .loadTemp)

theorem readNext_calls {s s₀ : ReadSystem β D} {first : ReadPoint} :
    readNext s = some (s₀, some first) ↔ s₀ = s ∧ Calls s first := by
  constructor
  · intro enters
    simp only [readNext] at enters
    split at enters
    · cases enters
    · next at_out =>
        split at enters
        · cases enters
        · next drained =>
            rw [zeroStrmDequeueByteFifo_refused drained] at enters
            cases enters
            refine ⟨rfl, .free at_out ?_⟩
            unfold zeroStrmDequeueByteFifo at drained
            split_ifs at drained with empty
            exact decide_eq_true empty
    · next at_get =>
        cases enters
        exact ⟨rfl, .fetch at_get⟩
    · cases enters
  · rintro ⟨rfl, calls⟩
    cases calls with
    | free at_out drained =>
        have deq : zeroStrmDequeueByteFifo s₀.strm.tMemBlockFifo s₀.strm.tByteFifo =
            (none, s₀.strm.tByteFifo) := if_pos (of_decide_eq_true drained)
        simp only [readNext, at_out, deq]
    | fetch at_get => simp only [readNext, at_get]

/-- The calls depend on what only the application uses. -/
theorem Calls.congr {s t : ReadSystem β D} {first : ReadPoint} (calls : Calls s first)
    (fifo : t.strm.tByteFifo = s.strm.tByteFifo)
    (dequeue : t.strm.fsmDequeue = s.strm.fsmDequeue) : Calls t first := by
  cases calls with
  | free at_out drained =>
      rw [← dequeue] at at_out ⊢
      rw [← fifo] at drained
      exact .free at_out drained
  | fetch at_get =>
      rw [← dequeue] at at_get
      exact .fetch at_get

/-! ## The windows -/

/-- The free list is loaded. -/
def FreePoint.InWindow : FreePoint → Prop
  | .loadList => False
  | _ => True

/-- The last one block is found, and the head not yet stored. -/
def FetchPoint.InWindow (m : MemBlkFifo β) : FetchPoint → Prop
  | .clearTail _ => True
  | .loadHead _ => m.ptTail = none
  | .loadNext _ _ => m.ptTail = none
  | .storeHead _ _ => m.ptTail = none
  | _ => False

/-- The application is inside of a window. -/
def InWindow (s : Interrupted ReadPoint (ReadSystem β D)) : Prop :=
  match s.point with
  | some (.free _ point) => point.InWindow
  | some (.fetch point) => point.InWindow s.state.strm.tMemBlockFifo
  | none => False

/-- No handler appends a block inside of a window. -/
def AvoidsWindow (s : Interrupted ReadPoint (ReadSystem β (DmaRx β))) (e : ReadEvent β) : Prop :=
  Appends s.state.strm e → ¬ InWindow s

/-- `zero_strm_block_fetch` has stored the head. -/
def HeadStored (point : ReadPoint) : Prop := ∃ ptTemp, point = .fetch (.clearNext ptTemp)

/-- The events of the receiver, as long as flushes with data find a block. -/
abbrev FindingStep : StepRel (ReadSystem β (DmaRx β)) (ReadEvent β) :=
  guarded (ReadStep dmaRx) FlushFindsBlock

/-! ## Moving a handler out of a call -/

section Movers

variable {count : ℕ} {c s s' : ReadSystem β (DmaRx β)} {e : ReadEvent β} {m : MemBlkFifo β}

/-- **A handler on the memory of an interrupted call** is a handler on the memory before the
call. -/
theorem handler_moved (quiet : Quiet c.strm) (handler : e ≠ .read)
    (same : SameBlocks c.strm.tMemBlockFifo m) (step : FindingStep (readPool.set m c) e s') :
    ∃ c', FindingStep c e c' ∧ s' = readPool.set (poolAfter c.strm e m) c' ∧
      c'.strm.tMemBlockFifo = poolAfter c.strm e c.strm.tMemBlockFifo := by
  obtain ⟨finds, taken⟩ := step
  refine ⟨readStep dmaRx c e, ⟨?_, rfl⟩, ?_, handler_pool quiet handler⟩
  · intro ran something
    have found := finds ((flushes_offTimer (offTimer_withPool m) c.strm e).trans ran) something
    rw [← same.list]
    exact found
  · exact Eq.trans taken (handler_set quiet handler same)

/-- A handler that appends nothing keeps every stage of a call, and so does a handler that finds
the memory as it was before the call. -/
theorem FreeStage.after {block : Addr} {point : FreePoint}
    (stage : FreeStage block c.strm.tMemBlockFifo point m)
    (met : Appends c.strm e → ¬ point.InWindow) :
    FreeStage block (poolAfter c.strm e c.strm.tMemBlockFifo) point (poolAfter c.strm e m) := by
  by_cases appends : Appends c.strm e
  · cases point with
    | loadList =>
        obtain rfl : m = _ := stage
        rfl
    | storeNext => exact absurd trivial (met appends)
    | storeList => exact absurd trivial (met appends)
  · have before : poolAfter c.strm e c.strm.tMemBlockFifo = withData _ _ _ :=
      poolAfter_pointers appends ⟨rfl, rfl, rfl⟩
    rw [poolAfter_pointers appends stage.sameBlocks]
    exact before ▸ stage.otherData _ _

/-- The lists after a handler that appends a block. -/
theorem OwnedInv.appended (inv : OwnedInv count c) (appends : Appends c.strm e)
    (finds : FlushFindsBlock c e) :
    ∃ first free queue, OwnedBy count c.strm (first :: free) queue ∧
      Represents (poolAfter c.strm e c.strm.tMemBlockFifo) free
        (queue ++ [c.strm.ptByteFifoDmaRx]) := by
  obtain ⟨free, queue, owned⟩ := inv.owned
  cases free with
  | nil => exact absurd owned.represents.stack (finds appends.1 appends.2)
  | cons first free =>
      obtain ⟨notFree, notQueued⟩ := owned.dmaBlock_outside
      refine ⟨first, free, queue, owned, ?_⟩
      rw [poolAfter_flush _ appends.1]
      exact flushedPool_append owned.represents appends.2 notFree notQueued

/-- An append behind more than one block leaves the first two alone. -/
theorem FetchStage.after {point : FetchPoint} (inv : OwnedInv count c)
    (stage : FetchStage c.strm.tMemBlockFifo point m)
    (uncommitted : ¬ HeadStored (.fetch point)) (met : Appends c.strm e → ¬ point.InWindow m)
    (finds : FlushFindsBlock c e) :
    FetchStage (poolAfter c.strm e c.strm.tMemBlockFifo) point (poolAfter c.strm e m) := by
  by_cases appends : Appends c.strm e
  · obtain ⟨first, free, queue, owned, appended⟩ := inv.appended appends finds
    have top : c.strm.tMemBlockFifo.ptFreeList = some first := owned.represents.stack.1
    have headStays {ptTemp : Addr} (head : c.strm.tMemBlockFifo.ptHead = some ptTemp) :
        (poolAfter c.strm e c.strm.tMemBlockFifo).ptHead = some ptTemp ∧
          ptTemp ≠ c.strm.ptByteFifoDmaRx := by
      obtain ⟨rest, rfl, -⟩ := (head ▸ owned.represents.fifo).eq_cons
      refine ⟨appended.fifo.start, ?_⟩
      rintro rfl
      exact owned.dmaBlock_outside.2 (List.mem_cons_self ..)
    have lastNow : (poolAfter c.strm e c.strm.tMemBlockFifo).ptTail =
        some c.strm.ptByteFifoDmaRx := by rw [appended.tail]; simp
    have open_ {ptTemp : Addr} (head : c.strm.tMemBlockFifo.ptHead = some ptTemp)
        (tail : (tailCleared c.strm.tMemBlockFifo).ptTail ≠ none) :
        c.strm.tMemBlockFifo.ptTail ≠ some ptTemp ∧
          tailCleared c.strm.tMemBlockFifo = c.strm.tMemBlockFifo ∧
            tailCleared (poolAfter c.strm e c.strm.tMemBlockFifo) =
              poolAfter c.strm e c.strm.tMemBlockFifo := by
      have more : c.strm.tMemBlockFifo.ptHead ≠ c.strm.tMemBlockFifo.ptTail := by
        intro only
        exact tail (congrArg MemBlkFifo.ptTail (tailCleared_last only))
      refine ⟨fun last => more (head.trans last.symm), tailCleared_other more, ?_⟩
      apply tailCleared_other
      rw [(headStays head).1, lastNow]
      exact fun same => (headStays head).2 (Option.some.inj same)
    cases point with
    | loadTemp =>
        obtain rfl : m = _ := stage
        rfl
    | compareHead ptTemp =>
        obtain ⟨rfl, head⟩ := stage
        exact ⟨rfl, (headStays head).1⟩
    | compareTail ptTemp ptHead =>
        obtain ⟨rfl, head, rfl⟩ := stage
        exact ⟨rfl, (headStays head).1, rfl⟩
    | clearTail ptTemp => exact absurd trivial (met appends)
    | loadHead ptTemp =>
        obtain ⟨rfl, head⟩ := stage
        obtain ⟨-, before, after⟩ := open_ head (met appends)
        rw [before]
        exact ⟨after.symm, (headStays head).1⟩
    | loadNext ptTemp ptHead =>
        obtain ⟨rfl, head, rfl⟩ := stage
        obtain ⟨-, before, after⟩ := open_ head (met appends)
        rw [before]
        exact ⟨after.symm, (headStays head).1, rfl⟩
    | storeHead ptTemp ptNext =>
        obtain ⟨rfl, head, rfl⟩ := stage
        obtain ⟨notLast, before, after⟩ := open_ head (met appends)
        rw [before]
        exact ⟨after.symm, (headStays head).1,
          (poolAfter_next appends top notLast (headStays head).2).symm⟩
    | clearNext ptTemp => exact absurd ⟨ptTemp, rfl⟩ uncommitted
  · have before : poolAfter c.strm e c.strm.tMemBlockFifo = withData _ _ _ :=
      poolAfter_pointers appends ⟨rfl, rfl, rfl⟩
    rw [poolAfter_pointers appends stage.sameBlocks]
    exact before ▸ stage.otherData _ _

theorem appends_withPool : Appends (withPool m c.strm) e ↔ Appends c.strm e := by
  rw [Appends, Appends, flushes_offTimer (offTimer_withPool _)]
  rfl

/-- **In front of an open call**: a handler that keeps out of the windows. -/
theorem Calls.left {first point : ReadPoint} (inv : OwnedInv count c) (calls : Calls c first)
    (reached : readAccess.Reached first c point s) (uncommitted : ¬ HeadStored point)
    (met : AvoidsWindow ⟨s, some point⟩ e) (handler : e ≠ .read) (step : FindingStep s e s') :
    ∃ c', FindingStep c e c' ∧ Calls c' first ∧ readAccess.Reached first c' point s' := by
  cases calls with
  | free at_out drained =>
      obtain ⟨inner, m, rfl, rfl, before⟩ := of_within_reached (readAccess_free _) reached
      have stage := freeAccess_reached_iff.mp before
      obtain ⟨c', step', rfl, pool⟩ := handler_moved inv.quiet handler stage.sameBlocks step
      obtain ⟨fifo, dequeue, -⟩ := handler_frame inv.quiet handler step'.2
      have after := stage.after fun appends => met (appends_withPool.mpr appends)
      rw [← pool] at after
      exact ⟨c', step', (Calls.free at_out drained).congr fifo dequeue,
        within_reached (readAccess_free _) (freeAccess_reached_iff.mpr after)⟩
  | fetch at_get =>
      obtain ⟨inner, m, rfl, rfl, before⟩ := of_within_reached readAccess_fetch reached
      have stage := fetchAccess_reached_iff.mp before
      obtain ⟨c', step', rfl, pool⟩ := handler_moved inv.quiet handler stage.sameBlocks step
      obtain ⟨fifo, dequeue, -⟩ := handler_frame inv.quiet handler step'.2
      have after := stage.after inv uncommitted
        (fun appends => met (appends_withPool.mpr appends)) step'.1
      rw [← pool] at after
      exact ⟨c', step', (Calls.fetch at_get).congr fifo dequeue,
        within_reached readAccess_fetch (fetchAccess_reached_iff.mpr after)⟩

/-- The last access of `zero_strm_block_fetch`, and what follows it. -/
theorem alone_clearNext (ptTemp : Addr) (s : ReadSystem β (DmaRx β)) :
    readAccess.alone 8 (.fetch (.clearNext ptTemp)) s =
      some ((), afterFetch (some ptTemp)
        (readPool.set (nextCleared ptTemp s.strm.tMemBlockFifo) s)) :=
  within_alone readAccess_fetch 8 (.clearNext ptTemp) s

/-- **Behind a committed call**: any handler. The interrupted state is the one after the call but for
a pointer and the application's own variables. -/
theorem fetch_right {ptTemp : Addr} (inv : OwnedInv count c)
    (ends : readAccess.alone 8 (.fetch (.clearNext ptTemp)) s = some ((), c))
    (handler : e ≠ .read) (step : FindingStep s e s') :
    ∃ c', FindingStep c e c' ∧
      readAccess.alone 8 (.fetch (.clearNext ptTemp)) s' = some ((), c') := by
  obtain ⟨m, fifo, dequeue, rfl⟩ : ∃ m fifo dequeue,
      s = { c with strm := withOwn fifo dequeue (withPool m c.strm) } := by
    rw [alone_clearNext] at ends
    obtain ⟨-, rfl⟩ := Prod.mk.inj (Option.some.inj ends)
    exact ⟨s.strm.tMemBlockFifo, s.strm.tByteFifo, s.strm.fsmDequeue, rfl⟩
  rw [alone_clearNext] at ends
  obtain ⟨-, result⟩ := Prod.mk.inj (Option.some.inj ends)
  have cleared : nextCleared ptTemp m = c.strm.tMemBlockFifo :=
    congrArg (fun u : ReadSystem β (DmaRx β) => u.strm.tMemBlockFifo) result
  have ring : (zeroStrmInitByteFifoFull fifo (some ptTemp) (u16 (m.tSizeInByte ptTemp))).2 =
      c.strm.tByteFifo := congrArg (fun u : ReadSystem β (DmaRx β) => u.strm.tByteFifo) result
  have fetched : ⟨Dequeue.byteFifoOut, ptTemp⟩ = c.strm.fsmDequeue :=
    congrArg (fun u : ReadSystem β (DmaRx β) => u.strm.fsmDequeue) result
  have same : SameBlocks c.strm.tMemBlockFifo m := by
    rw [← cleared]
    exact ⟨rfl, rfl, rfl⟩
  obtain ⟨free, queue, owned⟩ := inv.owned
  have holds : c.strm.fsmDequeue.chState ≠ Dequeue.getByteFifo := by
    rw [← fetched]
    exact (by decide : Dequeue.byteFifoOut ≠ Dequeue.getByteFifo)
  have outside := owned.held_outside holds
  have notReceiving := owned.held_ne_dmaBlock holds
  rw [← fetched] at outside notReceiving
  have notFirst : m.ptFreeList ≠ some ptTemp := by
    rw [same.list, owned.represents.stack.start]
    exact fun top => outside.1 (List.mem_of_head? top)
  have notLast : m.ptTail ≠ some ptTemp := by
    have tail : m.ptTail = c.strm.tMemBlockFifo.ptTail := by rw [← cleared]; rfl
    rw [tail, owned.represents.tail]
    exact fun last => outside.2 (List.mem_of_getLast? last)
  obtain ⟨finds, taken⟩ := step
  have quiet : Quiet (withPool m c.strm) :=
    ⟨inv.quiet.flushHt, inv.quiet.timeOut, inv.quiet.dequeue⟩
  have finds' : FlushFindsBlock c e := by
    intro ran something
    have found := finds ((flushes_offTimer (offTimer_withOwn ..) _ _).trans
      ((flushes_offTimer (offTimer_withPool _) _ _).trans ran)) something
    rw [← same.list]
    exact found
  obtain ⟨c', code⟩ : ∃ c', readStep dmaRx c e = c' := ⟨_, rfl⟩
  have moved := handler_set inv.quiet handler same
  have alike := handler_own (s := { c with strm := withPool m c.strm }) quiet handler fifo dequeue
  rw [moved] at alike
  obtain ⟨sameFifo, sameDequeue, -⟩ := handler_frame inv.quiet handler code.symm
  have pool := handler_pool inv.quiet handler
  rw [code] at alike pool
  refine ⟨c', ⟨finds', code.symm⟩, ?_⟩
  rw [taken, alike, alone_clearNext]
  have clearedAfter : nextCleared ptTemp (poolAfter c.strm e m) = c'.strm.tMemBlockFifo := by
    rw [pool, ← cleared, poolAfter_nextCleared notFirst notLast notReceiving]
  have size : (poolAfter c.strm e m).tSizeInByte ptTemp = m.tSizeInByte ptTemp :=
    poolAfter_size notFirst notReceiving
  have ringAfter : (zeroStrmInitByteFifoFull fifo (some ptTemp)
      (u16 ((poolAfter c.strm e m).tSizeInByte ptTemp))).2 = c'.strm.tByteFifo := by
    rw [size, ring, sameFifo]
  have after : afterFetch (some ptTemp) (readPool.set (nextCleared ptTemp (poolAfter c.strm e m))
      { c' with strm := withOwn fifo dequeue (withPool (poolAfter c.strm e m) c'.strm) }) =
      { c' with
        strm := withOwn
          (zeroStrmInitByteFifoFull fifo (some ptTemp)
            (u16 ((poolAfter c.strm e m).tSizeInByte ptTemp))).2
          ⟨Dequeue.byteFifoOut, ptTemp⟩
          (withPool (nextCleared ptTemp (poolAfter c.strm e m)) c'.strm) } := rfl
  refine congrArg (fun u => some ((), u)) (after.trans ?_)
  rw [ringAfter, fetched, ← sameDequeue, clearedAfter]
  rfl

/-- **Handlers that keep out of the windows can be moved out of the calls.** -/
theorem readMovers : Movers (readProgram (β := β) (D := DmaRx β)) FindingStep .read
    (OwnedInv count) HeadStored AvoidsWindow where
  steps c c' inv whole := by
    rw [readProgram_whole dmaRx inv.quiet.dequeue] at whole
    exact ⟨nofun, (Option.some.inj whole).symm⟩
  ends c inv _ := by
    rw [readProgram_whole dmaRx inv.quiet.dequeue]
    rfl
  kept c e c' inv step := inv.kept step.1 step.2
  stays := by
    rintro point s next t ⟨ptTemp, rfl⟩ code
    cases code
  left := by
    intro c s₀ s s' first point e inv enters reached uncommitted met handler step
    obtain ⟨rfl, calls⟩ := readNext_calls.mp enters
    obtain ⟨c', step', calls', reached'⟩ :=
      calls.left inv reached uncommitted met handler step
    exact ⟨c', c', step', readNext_calls.mpr ⟨rfl, calls'⟩, reached'⟩
  right := by
    rintro c s s' point e inv ends ⟨ptTemp, rfl⟩ - handler step
    exact fetch_right inv ends handler step

/-! ## Inside of a window -/

theorem settled_fetch {point : FetchPoint} {u : ReadSystem β (DmaRx β)}
    (ends : readProgram.settled ⟨s, some (.fetch point)⟩ = some u) :
    ∃ block pool, fetchAccess.alone 8 point s.strm.tMemBlockFifo = some (block, pool) ∧
      u.strm.tMemBlockFifo = pool ∧ u.strm.ptByteFifoDmaRx = s.strm.ptByteFifoDmaRx := by
  have call : readProgram.settled ⟨s, some (.fetch point)⟩ =
      ((readAccess.alone 8 (.fetch point) s).map Prod.snd) := rfl
  rw [call, within_alone readAccess_fetch 8 point s, Option.map_map] at ends
  obtain ⟨⟨block, pool⟩, alone, rfl⟩ := Option.map_eq_some_iff.mp ends
  refine ⟨block, pool, alone, ?_⟩
  cases block with
  | none => exact ⟨rfl, rfl⟩
  | some block => exact ⟨rfl, rfl⟩

theorem settled_free {block : Addr} {point : FreePoint} {u : ReadSystem β (DmaRx β)}
    (ends : readProgram.settled ⟨s, some (.free block point)⟩ = some u) :
    ∃ pool, (freeAccess block).alone 8 point s.strm.tMemBlockFifo = some ((), pool) ∧
      u.strm.tMemBlockFifo = pool ∧ u.strm.ptByteFifoDmaRx = s.strm.ptByteFifoDmaRx := by
  have call : readProgram.settled ⟨s, some (.free block point)⟩ =
      ((readAccess.alone 8 (.free block point) s).map Prod.snd) := rfl
  rw [call, within_alone (readAccess_free block) 8 point s, Option.map_map] at ends
  obtain ⟨⟨⟨⟩, pool⟩, alone, rfl⟩ := Option.map_eq_some_iff.mp ends
  exact ⟨pool, alone, rfl, rfl⟩

/-- **Inside of `zero_strm_block_free`**, the block that the handler takes for the channel stays
on the free list, linked behind the freed one. -/
theorem FreeStage.broken {point : FreePoint} {u : ReadSystem β (DmaRx β)} (inv : OwnedInv count c)
    (at_out : c.strm.fsmDequeue.chState = Dequeue.byteFifoOut)
    (stage : FreeStage c.strm.fsmDequeue.ptByteFifo c.strm.tMemBlockFifo point m)
    (appends : Appends c.strm e) (window : point.InWindow) {c' : ReadSystem β (DmaRx β)}
    (step : FindingStep c e c')
    (ends : readProgram.settled ⟨readPool.set (poolAfter c.strm e m) c',
      some (.free c.strm.fsmDequeue.ptByteFifo point)⟩ = some u) : ¬ Owned count u.strm := by
  rintro ⟨free', queue', owned'⟩
  obtain ⟨first, free, queue, owned, -⟩ := inv.appended appends step.1
  have top : c.strm.tMemBlockFifo.ptFreeList = some first := owned.represents.stack.1
  have taken : c'.strm.ptByteFifoDmaRx = first := by
    have same := ((step.2.effect inv.quiet).flushed appends.1).1
    rw [same.dmaBlock, (flushed_starts appends.2 top).1]
  obtain ⟨pool, alone, samePool, sameBlock⟩ := settled_free ends
  have holds : c.strm.fsmDequeue.chState ≠ Dequeue.getByteFifo := by
    rw [at_out]
    decide
  have outside := owned.held_outside holds
  have notLast : c.strm.tMemBlockFifo.ptTail ≠ some c.strm.fsmDequeue.ptByteFifo := by
    rw [owned.represents.tail]
    exact fun last => outside.2 (List.mem_of_getLast? last)
  have linked : pool.ptFreeList = some c.strm.fsmDequeue.ptByteFifo ∧
      pool.ptNext c.strm.fsmDequeue.ptByteFifo = some first := by
    cases point with
    | loadList => exact absurd window id
    | storeNext ptFreeList =>
        obtain ⟨rfl, rfl⟩ := stage
        cases alone
        exact ⟨rfl, (Function.update_self ..).trans top⟩
    | storeList =>
        obtain rfl : m = _ := stage
        cases alone
        refine ⟨rfl, ?_⟩
        have kept := poolAfter_next appends (m := { c.strm.tMemBlockFifo with
          ptNext := Function.update c.strm.tMemBlockFifo.ptNext c.strm.fsmDequeue.ptByteFifo
            c.strm.tMemBlockFifo.ptFreeList }) top notLast (owned.held_ne_dmaBlock holds)
        exact kept.trans ((Function.update_self ..).trans top)
  rw [← samePool] at linked
  have stack := owned'.represents.stack
  rw [linked.1] at stack
  obtain ⟨below, rfl, rest⟩ := stack.eq_cons
  rw [linked.2] at rest
  obtain ⟨bottom, rfl, -⟩ := rest.eq_cons
  have receiving : u.strm.ptByteFifoDmaRx = first := sameBlock.trans taken
  refine owned'.dmaBlock_outside.1 ?_
  rw [receiving]
  exact List.mem_cons_of_mem _ (List.mem_cons_self ..)

/-- **Inside of `zero_strm_block_fetch`**, once the tail is cleared, the handler finds an empty
queue, and the head and the tail part. -/
theorem FetchStage.broken {point : FetchPoint} {u : ReadSystem β (DmaRx β)}
    (inv : OwnedInv count c) (stage : FetchStage c.strm.tMemBlockFifo point m)
    (appends : Appends c.strm e) (window : point.InWindow m) {c' : ReadSystem β (DmaRx β)}
    (step : FindingStep c e c')
    (ends : readProgram.settled ⟨readPool.set (poolAfter c.strm e m) c',
      some (.fetch point)⟩ = some u) : ¬ Owned count u.strm := by
  rintro ⟨free', queue', owned'⟩
  obtain ⟨first, free, queue, owned, appended⟩ := inv.appended appends step.1
  have top : c.strm.tMemBlockFifo.ptFreeList = some first := owned.represents.stack.1
  obtain ⟨block, pool, alone, samePool, -⟩ := settled_fetch ends
  have both := owned'.headTail
  rw [samePool] at both
  change fetchAccess.alone 8 point (poolAfter c.strm e m) = _ at alone
  have emptied {ptTemp : Addr} (head : c.strm.tMemBlockFifo.ptHead = some ptTemp)
      (tail : (tailCleared c.strm.tMemBlockFifo).ptTail = none) :
      (poolAfter c.strm e (tailCleared c.strm.tMemBlockFifo)).ptTail =
          some c.strm.ptByteFifoDmaRx ∧
        (poolAfter c.strm e (tailCleared c.strm.tMemBlockFifo)).ptHead =
          some c.strm.ptByteFifoDmaRx ∧
        (poolAfter c.strm e (tailCleared c.strm.tMemBlockFifo)).ptNext
          c.strm.ptByteFifoDmaRx = none ∧
        (poolAfter c.strm e (tailCleared c.strm.tMemBlockFifo)).ptNext ptTemp = none ∧
        c.strm.tMemBlockFifo.ptNext ptTemp = none := by
    have only : c.strm.tMemBlockFifo.ptHead = c.strm.tMemBlockFifo.ptTail := by
      by_contra more
      rw [tailCleared_other more, ← owned.headTail, head] at tail
      cases tail
    have other : ptTemp ≠ c.strm.ptByteFifoDmaRx := by
      rintro rfl
      have queued : some c.strm.ptByteFifoDmaRx = queue.head? := head ▸ owned.represents.fifo.start
      exact owned.dmaBlock_outside.2 (List.mem_of_head? queued.symm)
    have next := owned.represents.next_last head only
    have kept := poolAfter_next appends (m := tailCleared c.strm.tMemBlockFifo) top
      (by rw [tail]; nofun) other
    refine ⟨?_, ?_, ?_, kept.trans next, next⟩ <;>
      rw [poolAfter_appends appends (m := tailCleared c.strm.tMemBlockFifo) top] <;>
      simp only [zeroStrmBlockAppend, MemBlkFifo.setSize, tail, Function.update_self]
  cases point with
  | clearTail ptTemp =>
      obtain ⟨rfl, head, last⟩ := stage
      obtain ⟨rest, rfl, -⟩ := (head ▸ owned.represents.fifo).eq_cons
      obtain ⟨headNow, next⟩ := appended.fifo
      simp only [Routine.alone, fetchAccess, headNow, Option.some.injEq, Prod.mk.injEq] at alone
      obtain ⟨-, rfl⟩ := alone
      have noHead := both.mpr rfl
      rw [show (poolAfter c.strm e c.strm.tMemBlockFifo).ptNext ptTemp = none from noHead] at next
      exact absurd next.eq_nil (List.append_ne_nil_of_right_ne_nil _ (List.cons_ne_nil _ _))
  | loadHead ptTemp =>
      obtain ⟨rfl, head⟩ := stage
      obtain ⟨tailNow, headNow, nextNow, -, -⟩ := emptied head window
      simp only [Routine.alone, fetchAccess, headNow, nextNow, Option.some.injEq,
        Prod.mk.injEq] at alone
      obtain ⟨-, rfl⟩ := alone
      have noTail := both.mp rfl
      rw [tailNow] at noTail
      cases noTail
  | loadNext ptTemp ptHead =>
      obtain ⟨rfl, head, rfl⟩ := stage
      obtain ⟨tailNow, -, -, nextNow, -⟩ := emptied head window
      simp only [Routine.alone, fetchAccess, nextNow, Option.some.injEq, Prod.mk.injEq] at alone
      obtain ⟨-, rfl⟩ := alone
      have noTail := both.mp rfl
      rw [tailNow] at noTail
      cases noTail
  | storeHead ptTemp ptNext =>
      obtain ⟨rfl, head, rfl⟩ := stage
      obtain ⟨tailNow, -, -, -, noNext⟩ := emptied head window
      simp only [Routine.alone, fetchAccess, noNext, Option.some.injEq, Prod.mk.injEq] at alone
      obtain ⟨-, rfl⟩ := alone
      have noTail := both.mp rfl
      rw [tailNow] at noTail
      cases noTail
  | _ => exact absurd window id

/-- **A handler inside of a window breaks the lists**, as soon as the interrupted call is at its
end. -/
theorem window_broken {t : Interrupted ReadPoint (ReadSystem β (DmaRx β))}
    {s : Interrupted ReadPoint (ReadSystem β (DmaRx β))} (inv : OwnedInv count c)
    (stands : readProgram.Stands HeadStored c s) (misses : ¬ AvoidsWindow s e)
    (step : readProgram.Fine FindingStep .read s e t) :
    ¬ ∃ u, readProgram.settled t = some u ∧ Owned count u.strm := by
  simp only [AvoidsWindow, Classical.not_imp, not_not] at misses
  obtain ⟨appends, window⟩ := misses
  rcases step with ⟨rfl, -⟩ | ⟨handler, step, samePoint⟩
  · cases appends.1
  obtain ⟨t, point'⟩ := t
  rintro ⟨u, ends, owned⟩
  cases stands with
  | rest => exact window
  | @before s₀ s first point enters reached uncommitted =>
      obtain ⟨rfl, calls⟩ := readNext_calls.mp enters
      cases samePoint
      cases calls with
      | free at_out drained =>
          obtain ⟨inner, m, rfl, rfl, before⟩ := of_within_reached (readAccess_free _) reached
          have stage := freeAccess_reached_iff.mp before
          obtain ⟨c', step', same, -⟩ := handler_moved inv.quiet handler stage.sameBlocks step
          dsimp only at same
          subst same
          exact stage.broken inv at_out (appends_withPool.mp appends) window step' ends owned
      | fetch at_get =>
          obtain ⟨inner, m, rfl, rfl, before⟩ := of_within_reached readAccess_fetch reached
          have stage := fetchAccess_reached_iff.mp before
          obtain ⟨c', step', same, -⟩ := handler_moved inv.quiet handler stage.sameBlocks step
          dsimp only at same
          subst same
          exact stage.broken inv (appends_withPool.mp appends) window step' ends owned
  | after ends closed =>
      obtain ⟨ptTemp, rfl⟩ := closed
      exact window

end Movers

/-! ## Runs -/

section Runs

variable {cfg : StreamReadCfg} {m : MemBlkFifo β} {dma : DmaRx β} {strm : RxStream β}
  {es : List (ReadEvent β)} {t : Interrupted ReadPoint (ReadSystem β (DmaRx β))}

/-- The steps of the receiver with handlers between any two accesses to the lists. -/
abbrev AccessStep : StepRel (Interrupted ReadPoint (ReadSystem β (DmaRx β))) (ReadEvent β) :=
  readProgram.Fine FindingStep .read

/-- What an interrupted call has not changed: the returned bytes and the channel. -/
theorem stands_frame {c : ReadSystem β (DmaRx β)} (stands : readProgram.Stands HeadStored c t) :
    t.state.returned = c.returned ∧ t.state.strm.dma = c.strm.dma ∧
      (t.point = none → t.state = c) := by
  cases stands with
  | rest => exact ⟨rfl, rfl, fun _ => rfl⟩
  | @before s₀ s first point enters reached uncommitted =>
      obtain ⟨rfl, calls⟩ := readNext_calls.mp enters
      cases calls with
      | free at_out drained =>
          obtain ⟨inner, m, rfl, rfl, -⟩ := of_within_reached (readAccess_free _) reached
          exact ⟨rfl, rfl, nofun⟩
      | fetch at_get =>
          obtain ⟨inner, m, rfl, rfl, -⟩ := of_within_reached readAccess_fetch reached
          exact ⟨rfl, rfl, nofun⟩
  | after ends closed =>
      obtain ⟨ptTemp, rfl⟩ := closed
      have last : readAccess.alone 8 _ _ = _ := ends
      rw [alone_clearNext] at last
      obtain ⟨-, rfl⟩ := Prod.mk.inj (Option.some.inj last)
      exact ⟨rfl, rfl, nofun⟩

/-- **Handlers between any two accesses.** A run whose handlers keep out of the windows, and whose
flushes find a block, leads where a run with the same handlers between the states of `dequeue`
leads: to the same state whenever no call of the block manager is under way, with the same bytes
returned and stored at any time. So the returned bytes are the first stored ones. -/
theorem interruptedRead_reduced (positive : 0 < cfg.readBuffCnt) (small : cfg.readBuffCnt < 2 ^ 16)
    (init : zeroStrmReadInit dmaRx.toDmaRxIO cfg m DmaRx.reset = some strm)
    (run : Run (guarded AccessStep AvoidsWindow) ⟨⟨strm, []⟩, none⟩ es t) :
    (∃ ds u, Run FindingStep ⟨strm, []⟩ ds u ∧
      ds.filter ReadEvent.isHandler = es.filter ReadEvent.isHandler ∧
      t.state.returned = u.returned ∧ t.state.strm.dma = u.strm.dma ∧
      (t.point = none → t.state = u)) ∧
    t.state.returned <+: t.state.strm.dma.stored := by
  have initial := zeroStrmReadInit_spec init
  have start : OwnedInv cfg.chCnt ⟨strm, []⟩ := ⟨initial.quiet, initial.owned⟩
  obtain ⟨ds, u, coarse, -, stands, order⟩ :=
    readMovers.reduced ReadEvent.isHandler_iff start .rest run
  obtain ⟨returned, channel, still⟩ := stands_frame stands
  refine ⟨⟨ds, u, coarse, order, returned, channel, still⟩, ?_⟩
  obtain ⟨c, ⟨-, free, queue, -, rfl⟩, lossless⟩ :=
    (read_refines small).lossless coarse (initial.shows positive small)
  rw [returned, channel]
  exact lossless.received_prefix

/-- **The windows are exact.** In a run whose flushes find a block, the handlers keep out of the
windows exactly when in every state of the run the interrupted call, run to its end, leaves every
block with one owner. -/
theorem interruptedRead_exact
    (init : zeroStrmReadInit dmaRx.toDmaRxIO cfg m dma = some strm)
    (run : Run AccessStep ⟨⟨strm, []⟩, none⟩ es t) :
    Run (guarded AccessStep AvoidsWindow) ⟨⟨strm, []⟩, none⟩ es t ↔
      Throughout AccessStep
        (fun s => ∃ u, readProgram.settled s = some u ∧ Owned cfg.chCnt u.strm)
        ⟨⟨strm, []⟩, none⟩ es := by
  have initial := zeroStrmReadInit_spec init
  have start : OwnedInv cfg.chCnt ⟨strm, []⟩ := ⟨initial.quiet, initial.owned⟩
  have determined := (readStep_deterministic dmaRx).guarded (FlushFindsBlock (β := β))
  exact readMovers.exact determined (fun _ inv => inv.owned)
    (fun _ _ _ _ inv stands misses step => window_broken inv stands misses step) start run

end Runs

/-! ### Runs on fixed events -/

section Steps

variable {s t : Interrupted ReadPoint (ReadSystem β (DmaRx β))} {new : Addr}

theorem avoidsWindow_read (s : Interrupted ReadPoint (ReadSystem β (DmaRx β))) :
    AvoidsWindow s .read := fun appends => absurd appends.1 nofun

theorem accessStep_arrive (byte : β) :
    guarded AccessStep AvoidsWindow s (.arrive byte)
      ⟨readStep dmaRx s.state (.arrive byte), s.point⟩ :=
  ⟨fun appends => absurd appends.1 nofun,
    .inr ⟨nofun, ⟨fun ran => absurd ran nofun, rfl⟩, rfl⟩⟩

theorem accessStep_dmaHalf (found : s.state.strm.tMemBlockFifo.ptFreeList = some new) :
    AccessStep s .dmaHalf ⟨readStep dmaRx s.state .dmaHalf, s.point⟩ := by
  refine .inr ⟨nofun, ⟨?_, rfl⟩, rfl⟩
  intro _ _
  rw [found]
  exact Option.some_ne_none new

end Steps

/-- The events of a receiver with four blocks: one handler appends a block before
`zero_strm_block_free` has loaded the free list, one while `zero_strm_block_fetch` compares, and a
byte is stored in between. -/
def interruptingEvents : List (ReadEvent UInt8) :=
  .arrive 7 :: (List.replicate 2 .read ++ .dmaHalf :: (List.replicate 1 .read ++ .arrive 8 ::
    (List.replicate 4 .read ++ .dmaHalf :: List.replicate 7 .read)))

/-- Those events can happen with the handlers out of the windows, and give the first byte. -/
theorem interruptingEvents_run :
    ∃ s t, zeroStrmReadInit dmaRx.toDmaRxIO (smallCfg 4) zeroMemory DmaRx.reset = some s ∧
      Run (guarded AccessStep AvoidsWindow) ⟨⟨s, []⟩, none⟩ interruptingEvents t ∧
      t.state.returned = [7] ∧ t.state.strm.dma.stored = [7, 8] :=
  ⟨_, _, rfl,
    ⟨_, accessStep_arrive 7, run_append.mpr ⟨_, Program.run_advances avoidsWindow_read rfl,
      _, ⟨fun _ => id, accessStep_dmaHalf rfl⟩,
      run_append.mpr ⟨_, Program.run_advances avoidsWindow_read rfl,
      _, accessStep_arrive 8, run_append.mpr ⟨_, Program.run_advances avoidsWindow_read rfl,
      _, ⟨fun _ => id, accessStep_dmaHalf rfl⟩,
      Program.run_advances avoidsWindow_read rfl⟩⟩⟩⟩, rfl, rfl⟩

/-- After those events the same handlers between the states of `dequeue` have the same outcome. -/
theorem interruptedRead_reduced_fourBlocks :
    ∃ s t ds u, zeroStrmReadInit dmaRx.toDmaRxIO (smallCfg 4) zeroMemory DmaRx.reset = some s ∧
      Run (guarded AccessStep AvoidsWindow) ⟨⟨s, []⟩, none⟩ interruptingEvents t ∧
      Run FindingStep ⟨s, []⟩ ds u ∧ u.returned = [7] := by
  obtain ⟨s, t, init, run, returned, -⟩ := interruptingEvents_run
  obtain ⟨⟨ds, u, coarse, -, same, -⟩, -⟩ :=
    interruptedRead_reduced (by decide) (by decide) init run
  exact ⟨s, t, ds, u, init, run, coarse, same.symm.trans returned⟩

/-- A handler appends a block while `zero_strm_block_fetch` is about to clear the tail. -/
def partingEvents : List (ReadEvent UInt8) :=
  .arrive 7 :: .dmaHalf :: (List.replicate 9 .read ++ .arrive 8 :: .dmaHalf ::
    List.replicate 6 .read)

/-- The next append puts its block over the one behind the cleared tail. -/
def losingEvents : List (ReadEvent UInt8) :=
  partingEvents ++ .arrive 9 :: .dmaHalf :: List.replicate 16 .read

/-- After those events the second of three bytes is skipped: a handler has not kept out of the
windows. -/
theorem interruptedRead_exact_lost :
    ∃ s t, zeroStrmReadInit dmaRx.toDmaRxIO (smallCfg 4) zeroMemory DmaRx.reset = some s ∧
      Run AccessStep ⟨⟨s, []⟩, none⟩ losingEvents t ∧
      t.state.strm.dma.stored = [7, 8, 9] ∧ t.state.returned = [7, 9] ∧
      ¬ Run (guarded AccessStep AvoidsWindow) ⟨⟨s, []⟩, none⟩ losingEvents t := by
  have rests {count : ℕ} {s t : Interrupted ReadPoint (ReadSystem UInt8 (DmaRx UInt8))}
      (code : readProgram.advances count s = some t) :
      Run AccessStep s (List.replicate count .read) t :=
    (Program.run_advances avoidsWindow_read code).unguarded
  obtain ⟨s, u, t, init, parting, point, head, tail, rest, stored, returned⟩ :
      ∃ s u t, zeroStrmReadInit dmaRx.toDmaRxIO (smallCfg 4) zeroMemory DmaRx.reset = some s ∧
        Run AccessStep ⟨⟨s, []⟩, none⟩ partingEvents u ∧ u.point = none ∧
        u.state.strm.tMemBlockFifo.ptHead.isSome = true ∧
        u.state.strm.tMemBlockFifo.ptTail = none ∧
        Run AccessStep u (.arrive 9 :: .dmaHalf :: List.replicate 16 .read) t ∧
        t.state.strm.dma.stored = [7, 8, 9] ∧ t.state.returned = [7, 9] :=
    ⟨_, _, _, rfl, ⟨_, (accessStep_arrive 7).2, _, accessStep_dmaHalf rfl,
      run_append.mpr ⟨_, rests rfl, _, (accessStep_arrive 8).2, _, accessStep_dmaHalf rfl,
      rests rfl⟩⟩, rfl, rfl, rfl, ⟨_, (accessStep_arrive 9).2, _, accessStep_dmaHalf rfl,
      rests rfl⟩, rfl, rfl⟩
  have run : Run AccessStep ⟨⟨s, []⟩, none⟩ losingEvents t := run_append.mpr ⟨u, parting, rest⟩
  refine ⟨s, t, init, run, stored, returned, ?_⟩
  rw [interruptedRead_exact init run]
  intro always
  obtain ⟨v, settled, free, queue, owned⟩ := always _ u (List.prefix_append _ _) parting
  have here : readProgram.settled u = some u.state := by
    simp only [Program.settled, point]
  rw [here] at settled
  cases settled
  rw [owned.headTail.mpr tail] at head
  cases head

end ZeroStrm
