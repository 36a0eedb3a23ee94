import ZeroStrm.Write.Call
import ZeroStrm.Write.Capacity

/-!
# Back-pressure

A call of `zero_strm_write` returns `false` exactly when the pool is full: when the accepted
bytes whose block has not had its complete event (`pendingBytes`) fill all blocks to the last
byte (`backPressure`). Then every block is queued, in flight, or the full current one.

The first call that is refused may still append the current block and start the DMA before it
finds no free block. It changes no byte, and its own byte leaves no trace (`Refused`). From then
on `enqueue` is parked: further calls change nothing, and the first one that succeeds after a
complete event stores its own byte.

The proof counts. The blocks are partitioned, and all but the current one are full, so the
pending bytes are counted by blocks (`Counted.pending_length`). At the end of a refused call the
free list is empty and the current block is gone, and a call that is accepted leaves one more
pending byte than there were.
-/

set_option autoImplicit false

namespace ZeroStrm

open EventRuns

variable {β : Type}

/-! ## The bytes that wait -/

/-- The bytes of the transfers that had their complete event. -/
def completedBytes (t : WriteSystem β) : List β :=
  (t.strm.dma.started.take t.freed.length).flatMap Prod.snd

/-- The accepted bytes whose block has not had its complete event. -/
def pendingBytes (t : WriteSystem β) : List β := t.accepted.drop (completedBytes t).length

/-- The stream holds these bytes, in order: those given to the DMA, those of the queued blocks
and those of the current block. -/
def Carries (s : TxStream β) (bytes : List β) : Prop :=
  ∃ free queue, Represents s.tMemBlockFifo free queue ∧
    startedBytes s ++ (queueBytes s queue ++ currentBytes s) = bytes

/-- What is known of a sender, with its bytes counted. -/
structure Counted (count buffCnt : ℕ) (t : WriteSystem β) (free queue : List Addr) : Prop where
  busy : BusyInv t
  filled : Filled count buffCnt t.strm free queue
  starts : ∀ start ∈ t.strm.dma.started, start.2.length = buffCnt
  accepted : t.accepted =
    startedBytes t.strm ++ (queueBytes t.strm queue ++ currentBytes t.strm)

theorem WriteRun.counted {cfg : StreamWriteCfg} {m : MemBlkFifo β} {es : List (WriteEvent β)}
    {t : WriteSystem β} (positive : 0 < cfg.writeBuffCnt) (small : cfg.writeBuffCnt < 2 ^ 16)
    (run : WriteRun WriteStep cfg m es t) :
    ∃ free queue, Counted cfg.chCnt cfg.writeBuffCnt t free queue := by
  obtain ⟨_, ⟨free, queue, busy, filled, accepted, rfl⟩, lossless⟩ := run.shows positive small
  exact ⟨free, queue, busy, filled, (run.capacityInv positive small).ring.starts,
    accepted.trans lossless⟩

theorem length_flatMap_const {α γ : Type*} {l : List α} {f : α → List γ} {n : ℕ}
    (same : ∀ a ∈ l, (f a).length = n) : (l.flatMap f).length = l.length * n := by
  rw [List.length_flatMap, List.map_congr_left same, List.map_const', List.sum_replicate_nat]

namespace Counted

variable {count buffCnt : ℕ} {t : WriteSystem β} {free queue : List Addr}

/-- The transfers that were started are those that are complete and the one in flight. -/
theorem started_length (counted : Counted count buffCnt t free queue) :
    t.strm.dma.started.length = t.freed.length + t.strm.dma.inFlight.toList.length := by
  have freed := congrArg List.length counted.busy.freed
  rwa [List.length_map, List.length_append, List.length_map] at freed

theorem completed_length (counted : Counted count buffCnt t free queue) :
    (completedBytes t).length = t.freed.length * buffCnt := by
  have started := counted.started_length
  rw [completedBytes, length_flatMap_const (n := buffCnt), List.length_take,
    Nat.min_eq_left (by omega)]
  intro start member
  exact counted.starts start (List.mem_of_mem_take member)

/-- The accepted bytes are those of the complete transfers and those that wait. -/
theorem split (counted : Counted count buffCnt t free queue) :
    t.accepted = completedBytes t ++ pendingBytes t := by
  have completed : completedBytes t <+: startedBytes t.strm := by
    refine ⟨(t.strm.dma.started.drop t.freed.length).flatMap Prod.snd, ?_⟩
    rw [completedBytes, ← List.flatMap_append, List.take_append_drop]
    rfl
  have started : startedBytes t.strm <+: t.accepted := ⟨_, counted.accepted.symm⟩
  exact (List.prefix_iff_eq_append.mp (completed.trans started)).symm

theorem accepted_length (counted : Counted count buffCnt t free queue) :
    t.accepted.length = t.freed.length * buffCnt + (pendingBytes t).length := by
  have split := congrArg List.length counted.split
  rwa [List.length_append, counted.completed_length] at split

/-- Every block has one owner. -/
theorem blocks (counted : Counted count buffCnt t free queue) :
    free.length + queue.length + t.strm.dma.inFlight.toList.length + (ownedBlock t.strm).length =
      count := by
  have partition := counted.filled.owned.partition.length_eq
  simp only [List.length_append, List.length_range] at partition
  omega

/-- **The bytes that wait, counted by blocks**: the full ones, and the current one. -/
theorem pending_length (counted : Counted count buffCnt t free queue) :
    (pendingBytes t).length =
      (queue.length + t.strm.dma.inFlight.toList.length) * buffCnt +
        (currentBytes t.strm).length := by
  have accepted := counted.accepted_length
  have started : (startedBytes t.strm).length = t.strm.dma.started.length * buffCnt :=
    length_flatMap_const counted.starts
  have queued : (queueBytes t.strm queue).length = queue.length * buffCnt := by
    refine length_flatMap_const ?_
    intro block member
    rw [length_blockBytes]
    exact counted.filled.size block (by simp [member])
  rw [counted.started_length] at started
  rw [counted.accepted, List.length_append, List.length_append, started, queued] at accepted
  rw [Nat.add_mul] at accepted ⊢
  omega

theorem pending_le (counted : Counted count buffCnt t free queue) :
    (pendingBytes t).length ≤ count * buffCnt := by
  have current : (currentBytes t.strm).length ≤ (ownedBlock t.strm).length * buffCnt := by
    by_cases owns : OwnsCurrent t.strm
    · rw [ownedBlock, if_pos owns, List.length_singleton, Nat.one_mul]
      exact counted.filled.currentBytes_length
    · rw [currentBytes, if_neg owns]
      exact Nat.zero_le _
  rw [counted.pending_length, ← counted.blocks]
  calc (queue.length + t.strm.dma.inFlight.toList.length) * buffCnt + (currentBytes t.strm).length
      ≤ (queue.length + t.strm.dma.inFlight.toList.length) * buffCnt +
          (ownedBlock t.strm).length * buffCnt := Nat.add_le_add_left current _
    _ = (queue.length + t.strm.dma.inFlight.toList.length + (ownedBlock t.strm).length) *
          buffCnt := (Nat.add_mul ..).symm
    _ ≤ _ := Nat.mul_le_mul_right buffCnt (by omega)

/-- Parked without a free block, the sender is full. -/
theorem pending_parked (counted : Counted count buffCnt t free queue)
    (parked : t.strm.fsmEnqueue = ⟨Enqueue.getByteFifo, ⟨StreamWriteFlush.start⟩⟩)
    (noBlock : t.strm.tMemBlockFifo.ptFreeList = none) :
    (pendingBytes t).length = count * buffCnt := by
  have gone : ¬ OwnsCurrent t.strm := by simp [OwnsCurrent, parked]
  have top := counted.filled.owned.represents.stack.start
  rw [noBlock] at top
  obtain rfl : free = [] := List.head?_eq_none_iff.mp top.symm
  have blocks := counted.blocks
  rw [ownedBlock, if_neg gone, List.length_nil] at blocks
  rw [counted.pending_length, currentBytes, if_neg gone, List.length_nil, ← blocks]
  simp only [Nat.zero_add, Nat.add_zero]

end Counted

/-! ## A call between two events -/

theorem run_freed {s t : WriteSystem β} {es : List (WriteEvent β)} (run : Run WriteStep s es t)
    (noComplete : ∀ e ∈ es, e ≠ .complete) : t.freed = s.freed := by
  induction es generalizing s with
  | nil =>
      obtain rfl : s = t := run
      rfl
  | cons e es ih =>
      obtain ⟨u, step, rest⟩ := run
      rw [ih rest fun e member => noComplete e (List.mem_cons_of_mem _ member)]
      cases step with
      | write idle tByte => rfl
      | step calling => rfl
      | complete inFlight => exact absurd rfl (noComplete _ (List.mem_cons_self ..))

/-- A complete event is neither a call nor a part of one. -/
theorem run_complete {s t : WriteSystem β} {n : ℕ}
    (run : Run WriteStep s (List.replicate n .complete) t) :
    t.calling = s.calling ∧ t.accepted = s.accepted := by
  induction n generalizing s with
  | zero =>
      obtain rfl : s = t := run
      exact ⟨rfl, rfl⟩
  | succ n ih =>
      obtain ⟨u, step, rest⟩ := run
      obtain ⟨calling, accepted⟩ := ih rest
      cases step with
      | complete inFlight => exact ⟨calling, accepted⟩

section Calls

variable {cfg : StreamWriteCfg} {m : MemBlkFifo β} {es : List (WriteEvent β)}
  {t t' : WriteSystem β} {tByte : β} {ret : Bool}

/-- A call that is made between two events, from its begin to its return. -/
structure Called (cfg : StreamWriteCfg) (m : MemBlkFifo β) (es : List (WriteEvent β))
    (t : WriteSystem β) (tByte : β) (ret : Bool) (t' : WriteSystem β) : Prop where
  returns : Writes t.strm tByte ret t'.strm
  run : ∃ n, WriteRun WriteStep cfg m (es ++ .write tByte :: List.replicate n .step) t'
  outside : t'.calling = none
  accepted : t'.accepted = t.accepted ++ if ret then [tByte] else []
  freed : t'.freed = t.freed

/-- **A call returns**, and is a part of the run. -/
theorem WriteRun.called (positive : 0 < cfg.writeBuffCnt) (small : cfg.writeBuffCnt < 2 ^ 16)
    (run : WriteRun WriteStep cfg m es t) (outside : t.calling = none) (tByte : β) :
    ∃ t' rt, Called cfg m es t tByte (decide (rt = .cpl)) t' ∧ CallEnd t.strm t'.strm 8 rt := by
  obtain ⟨free, queue, counted⟩ := run.counted positive small
  have busy := counted.busy.busy
  obtain ⟨u, rt, returned, ended⟩ : ∃ u rt,
      call (innermostState dmaTx tByte) 8 t.strm = (u, some rt) ∧ CallEnd t.strm u 8 rt :=
    call_ends positive small busy counted.filled (callRank_lt t.strm)
  have begun : ({ t with calling := some tByte } : WriteSystem β).calling = some tByte := rfl
  obtain ⟨n, t', steps, rfl, ended', accepted⟩ := call_innermost_run begun returned
  refine ⟨t', rt, ⟨writes_of_innermost busy returned, ⟨n, ?_⟩, ended', ?_, ?_⟩, ended⟩
  · obtain ⟨s, init, run⟩ := run
    exact ⟨s, init, run_append.mpr ⟨t, run, _, .write outside tByte, steps⟩⟩
  · rw [accepted]
    by_cases stored : rt = .cpl <;> simp [acceptedByte, stored]
  · refine (run_freed steps ?_).trans rfl
    intro e member complete
    cases complete.symm.trans (List.eq_of_mem_replicate member)

/-- After a call the bytes that wait are those from before, and the byte of the call. -/
theorem Called.pending (positive : 0 < cfg.writeBuffCnt) (small : cfg.writeBuffCnt < 2 ^ 16)
    (run : WriteRun WriteStep cfg m es t) (called : Called cfg m es t tByte ret t') :
    (pendingBytes t').length = (pendingBytes t).length + if ret then 1 else 0 := by
  obtain ⟨free, queue, before⟩ := run.counted positive small
  obtain ⟨n, run'⟩ := called.run
  obtain ⟨free', queue', after⟩ := run'.counted positive small
  have lengthBefore := before.accepted_length
  have lengthAfter := after.accepted_length
  rw [called.accepted, called.freed, List.length_append] at lengthAfter
  cases ret with
  | true =>
      simp only [if_true, List.length_singleton] at lengthAfter ⊢
      omega
  | false =>
      simp only [Bool.false_eq_true, if_false, List.length_nil] at lengthAfter ⊢
      omega

/-- After a call the stream carries the accepted bytes. -/
theorem Called.carries (positive : 0 < cfg.writeBuffCnt) (small : cfg.writeBuffCnt < 2 ^ 16)
    (called : Called cfg m es t tByte ret t') : Carries t'.strm t'.accepted := by
  obtain ⟨n, run⟩ := called.run
  obtain ⟨free, queue, counted⟩ := run.counted positive small
  exact ⟨free, queue, counted.filled.owned.represents, counted.accepted.symm⟩

/-- **A parked sender without a free block refuses every byte and stays as it is.** -/
theorem writes_parked {s : TxStream β} (busy : Busy s)
    (parked : s.fsmEnqueue = ⟨Enqueue.getByteFifo, ⟨StreamWriteFlush.start⟩⟩)
    (noBlock : s.tMemBlockFifo.ptFreeList = none) (tByte : β) : Writes s tByte false s := by
  have chState := congrArg FsmEnqueue.chState parked
  have code : innermostState dmaTx tByte s = (s, .ret .onGoing) := by
    rw [innermostState_enqueue (by rw [chState]; decide)]
    simp only [enqueueState, chState, zeroStrmBlockNew, noBlock]
  have returned : call (innermostState dmaTx tByte) 1 s = (s, some .onGoing) := call_ret code
  exact writes_of_innermost busy returned

/-! ## Refusals -/

/-- A call of `zero_strm_write` as an event: its byte, and what it returns. -/
def WriteCall : StepRel (TxStream β) (β × Bool) := fun s call u => Writes s call.1 call.2 u

/-- What a refused call leaves: `t` is the sender before it and `t'` the one after it. -/
structure Refused (t t' : WriteSystem β) : Prop where
  /-- The byte is stored nowhere. -/
  bytes : SameBytes t.strm t'.strm
  /-- Any other byte would have led to the same stream. -/
  anyByte : ∀ b, Writes t.strm b false t'.strm
  /-- Further calls are refused and change nothing at all. -/
  again : ∀ bs : List β, Run WriteCall t'.strm (bs.map fun b => (b, false)) t'.strm
  /-- The first call that succeeds stores its own byte. -/
  later : ∀ n v, Run WriteStep t' (List.replicate n .complete) v →
    ∀ b u, Writes v.strm b true u → Carries u (t.accepted ++ [b])

/-- **A refused call leaves no trace of its byte.** -/
theorem Called.refused {rt : FsmRt} (positive : 0 < cfg.writeBuffCnt)
    (small : cfg.writeBuffCnt < 2 ^ 16) (run : WriteRun WriteStep cfg m es t)
    (called : Called cfg m es t tByte false t') (ended : CallEnd t.strm t'.strm 8 rt)
    (notStored : rt ≠ .cpl) :
    Refused t t' ∧ (pendingBytes t').length = cfg.chCnt * cfg.writeBuffCnt := by
  obtain ⟨n, run'⟩ := called.run
  obtain ⟨free, queue, counted⟩ := run.counted positive small
  obtain ⟨free', queue', counted'⟩ := run'.counted positive small
  cases ended with
  | stored ctl => exact absurd ctl notStored
  | parked ctl place noBlock same storesNot anyByte =>
      subst ctl
      refine ⟨⟨same, ?_, ?_, ?_⟩, counted'.pending_parked place noBlock⟩
      · intro b
        exact writes_of_innermost counted.busy.busy (anyByte b)
      · intro bs
        induction bs with
        | nil => rfl
        | cons b bs ih => exact ⟨_, writes_parked counted'.busy.busy place noBlock b, ih⟩
      · intro k v completes b u wrote
        obtain ⟨outside, accepted⟩ := run_complete completes
        have reached : WriteRun WriteStep cfg m
            ((es ++ .write tByte :: List.replicate n .step) ++ List.replicate k .complete) v := by
          obtain ⟨s, init, steps⟩ := run'
          exact ⟨s, init, run_append.mpr ⟨t', steps, completes⟩⟩
        obtain ⟨v', rt, later, -⟩ := reached.called positive small (outside.trans called.outside) b
        obtain ⟨stored, rfl⟩ := wrote.unique later.returns
        have carries := later.carries positive small
        rw [later.accepted, ← stored, accepted, called.accepted] at carries
        simpa using carries

/-- **Back-pressure is exact.** Between two events a call returns `false` exactly if the accepted
bytes that wait for their complete event fill the whole pool. Then its byte is stored nowhere,
further calls are refused and change nothing, and the first one that succeeds stores its own
byte. A call that returns `true` has appended its byte to what the stream carries. -/
theorem backPressure (positive : 0 < cfg.writeBuffCnt) (small : cfg.writeBuffCnt < 2 ^ 16)
    (run : WriteRun WriteStep cfg m es t) (outside : t.calling = none) (tByte : β) :
    ∃ ret t', Called cfg m es t tByte ret t' ∧ Carries t'.strm t'.accepted ∧
      t.accepted = completedBytes t ++ pendingBytes t ∧
      (ret = false ↔ (pendingBytes t).length = cfg.chCnt * cfg.writeBuffCnt) ∧
      (ret = false → Refused t t') := by
  obtain ⟨t', rt, called, ended⟩ := run.called positive small outside tByte
  obtain ⟨free, queue, counted⟩ := run.counted positive small
  have waiting := called.pending positive small run
  by_cases stored : rt = .cpl
  · obtain ⟨n, run'⟩ := called.run
    obtain ⟨free', queue', counted'⟩ := run'.counted positive small
    have bound := counted'.pending_le
    rw [decide_eq_true stored] at called waiting
    simp only [if_true] at waiting
    refine ⟨true, t', called, called.carries positive small, counted.split, ?_, ?_⟩
    · constructor
      · intro refused
        cases refused
      · intro full
        omega
    · intro refused
      cases refused
  · rw [decide_eq_false stored] at called waiting
    obtain ⟨refused, full⟩ := called.refused positive small run ended stored
    simp only [Bool.false_eq_true, if_false, Nat.add_zero] at waiting
    rw [waiting] at full
    exact ⟨false, t', called, called.carries positive small, counted.split,
      ⟨fun _ => full, fun _ => rfl⟩, fun _ => refused⟩

end Calls

/-- A sender with one block of one byte takes one byte, and refuses the next one. -/
theorem backPressure_oneBlock :
    ∃ t t', WriteRun WriteStep (smallWriteCfg 1) zeroMemory [.write 7, .step, .step] t ∧
      Writes t.strm 8 false t'.strm ∧ Refused t t' := by
  obtain ⟨t, run, outside, full⟩ : ∃ t : WriteSystem UInt8,
      WriteRun WriteStep (smallWriteCfg 1) zeroMemory [.write 7, .step, .step] t ∧
        t.calling = none ∧ (pendingBytes t).length = 1 :=
    ⟨_, ⟨_, rfl, _, .write rfl _, _, .step rfl, _, .step rfl, rfl⟩, rfl, rfl⟩
  obtain ⟨ret, t', called, -, -, exact, refused⟩ :=
    backPressure (by decide) (by decide) run outside 8
  obtain rfl : ret = false := exact.mpr full
  exact ⟨t, t', run, called.returns, refused rfl⟩

end ZeroStrm
