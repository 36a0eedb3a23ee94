import ZeroStrm.Write.BusyProtocol
import Mathlib.Data.List.Perm.Basic

/-!
# Block ownership of the sender

Every block of the pool has one owner: the free list, the queue, the transfer in flight, or
`enqueue`, which owns the current block up to its append and again after it has taken another
one (`OwnsCurrent`). In between, `ptByteFifo` keeps pointing at a block that is queued, sent, or
free again, but no state of the machines uses it.

The protocol of `bBusy` is what makes this work: `GET_BLOCK` starts the channel only with
nothing in flight, so no transfer is forgotten. `writeOwned_run` says that the partition holds in
every state of a run, and that each block is appended and freed by its owner. A complete event puts
exactly the block in flight on the free list, and no other event puts a block there
(`WriteOwnedBy.step`).
-/

set_option autoImplicit false

namespace ZeroStrm

open EventRuns

variable {β : Type}

/-! ## Owners -/

/-- `enqueue` owns the current block: it has not appended it yet. -/
def OwnsCurrent (s : TxStream β) : Prop :=
  s.fsmEnqueue.chState = Enqueue.start ∨ s.fsmEnqueue.chState = Enqueue.byteFifoIn ∨
    s.fsmEnqueue = ⟨Enqueue.flush, ⟨StreamWriteFlush.start⟩⟩

instance (s : TxStream β) : Decidable (OwnsCurrent s) := by
  unfold OwnsCurrent
  infer_instance

/-- The block of `enqueue`. -/
def ownedBlock (s : TxStream β) : List Addr := if OwnsCurrent s then [s.ptByteFifo] else []

/-- The blocks below `count` are partitioned into a free list, a queue, the transfer in flight and
the block of `enqueue`. -/
structure WriteOwnedBy (count : ℕ) (s : TxStream β) (free queue : List Addr) : Prop where
  represents : Represents s.tMemBlockFifo free queue
  acyclic : free.Nodup ∧ queue.Nodup
  headTail : s.tMemBlockFifo.ptHead = none ↔ s.tMemBlockFifo.ptTail = none
  partition :
    (free ++ queue ++ (s.dma.inFlight.toList ++ ownedBlock s)).Perm (List.range count)

/-- Every block has exactly one owner, and the transfer in flight is that of `ptFifoSend`. -/
def WriteOwned (count : ℕ) (s : TxStream β) : Prop :=
  (∃ free queue, WriteOwnedBy count s free queue) ∧
    ∀ block, s.dma.inFlight = some block → s.ptFifoSend = some block

/-- A block that nobody but its owner has: it is neither free nor queued. -/
def Outside (s : TxStream β) (block : Addr) : Prop :=
  ∃ free queue, Represents s.tMemBlockFifo free queue ∧ block ∉ free ∧ block ∉ queue

/-- A block that is appended is owned by `enqueue` alone, and a block that is freed was in flight
alone. -/
def MovesOwned (s : WriteSystem β) : WriteEvent β → Prop
  | .write _ => True
  | .step => s.strm.fsmEnqueue = ⟨Enqueue.flush, ⟨StreamWriteFlush.start⟩⟩ →
      Outside s.strm s.strm.ptByteFifo ∧ s.strm.dma.inFlight ≠ some s.strm.ptByteFifo
  | .complete => ∃ block, s.strm.ptFifoSend = some block ∧ Outside s.strm block ∧
      block ∉ ownedBlock s.strm

namespace WriteOwnedBy

variable {count : ℕ} {s u : TxStream β} {free queue : List Addr} {block : Addr}

theorem of (held : Represents s.tMemBlockFifo free queue)
    (partition :
      (free ++ queue ++ (s.dma.inFlight.toList ++ ownedBlock s)).Perm (List.range count)) :
    WriteOwnedBy count s free queue :=
  ⟨held, ⟨held.stack.nodup, held.fifo.nodup⟩, held.head_eq_none_iff, partition⟩

theorem nodup (owned : WriteOwnedBy count s free queue) :
    (free ++ queue ++ (s.dma.inFlight.toList ++ ownedBlock s)).Nodup :=
  owned.partition.nodup_iff.mpr List.nodup_range

/-- A block in flight or with `enqueue` is neither free nor queued. -/
theorem outside (owned : WriteOwnedBy count s free queue)
    (member : block ∈ s.dma.inFlight.toList ++ ownedBlock s) :
    block ∉ free ∧ block ∉ queue := by
  have distinct := List.disjoint_of_nodup_append owned.nodup
  exact ⟨fun inFree => distinct (List.mem_append_left _ inFree) member,
    fun inQueue => distinct (List.mem_append_right _ inQueue) member⟩

/-- A block in flight is not the one of `enqueue`. -/
theorem apart (owned : WriteOwnedBy count s free queue) (inFlight : s.dma.inFlight = some block) :
    block ∉ ownedBlock s := by
  have distinct := List.disjoint_of_nodup_append (List.nodup_append.mp owned.nodup).2.1
  exact fun member => distinct (by rw [inFlight]; exact List.mem_singleton_self block) member

/-- The owners are seen through the pointers, the transfer in flight and the place. -/
theorem congr (owned : WriteOwnedBy count s free queue)
    (held : Represents u.tMemBlockFifo free queue) (inFlight : u.dma.inFlight = s.dma.inFlight)
    (current : ownedBlock u = ownedBlock s) : WriteOwnedBy count u free queue := by
  refine of held ?_
  rw [inFlight, current]
  exact owned.partition

end WriteOwnedBy

theorem Represents.enqueueByte {m pool : MemBlkFifo β} {this fifo : ByteFifo} {tByte : β}
    {free queue : List Addr} (held : Represents m free queue)
    (room : zeroStrmEnqueueByteFifo m this tByte = (true, pool, fifo)) :
    Represents pool free queue := by
  rw [zeroStrmEnqueueByteFifo_stores room]
  exact held.setByte _ _ _

/-! ## What the effects do to the owners

A block goes from the free list to `enqueue`, to the queue, to the channel, and back to the free
list. -/

namespace WriteOwnedBy

variable {count : ℕ} {s : TxStream β} {free queue : List Addr} {block : Addr}
  {pool : MemBlkFifo β}

/-- The current block goes to the queue. -/
theorem appended (owned : WriteOwnedBy count s free queue) (current : OwnsCurrent s) :
    WriteOwnedBy count (blockAppended s) free (queue ++ [s.ptByteFifo]) := by
  have owns : ownedBlock s = [s.ptByteFifo] := if_pos current
  have gone : ownedBlock (blockAppended s) = [] := by
    simp [ownedBlock, OwnsCurrent, blockAppended]
  obtain ⟨notFree, notQueued⟩ := owned.outside
    (show s.ptByteFifo ∈ s.dma.inFlight.toList ++ ownedBlock s by simp [owns])
  refine of (owned.represents.enqueue notFree notQueued) ?_
  have before := owned.partition
  rw [owns] at before
  rw [gone]
  refine List.Perm.trans ?_ before
  apply List.perm_iff_count.mpr
  intro x
  simp only [blockAppended, List.count_append, List.count_nil]
  omega

/-- The first block of the queue goes to the channel. -/
theorem started (owned : WriteOwnedBy count s free queue) (idle : s.dma.inFlight = none)
    (fetched : zeroStrmBlockFetch s.tMemBlockFifo = (some block, pool)) :
    ∃ rest, queue = block :: rest ∧
      WriteOwnedBy count (blockStarted dmaTx s block pool) free rest := by
  obtain ⟨rest, rfl, held⟩ := owned.represents.fetch_some fetched
  refine ⟨rest, rfl, of held ?_⟩
  have inFlight : (blockStarted dmaTx s block pool).dma.inFlight = some block := rfl
  have current : ownedBlock (blockStarted dmaTx s block pool) = ownedBlock s := rfl
  have before := owned.partition
  rw [idle] at before
  rw [inFlight, current]
  refine List.Perm.trans ?_ before
  apply List.perm_iff_count.mpr
  intro x
  simp only [Option.toList_some, Option.toList_none, List.count_append, List.count_cons,
    List.count_nil]
  omega

/-- The top of the free list goes to `enqueue`. -/
theorem taken (owned : WriteOwnedBy count s free queue) (parked : ¬ OwnsCurrent s)
    (found : zeroStrmBlockNew s.tMemBlockFifo = (some block, pool)) :
    ∃ rest, free = block :: rest ∧ WriteOwnedBy count (blockTaken s block pool) rest queue := by
  obtain ⟨rest, rfl, -, held⟩ := owned.represents.new_some found
  refine ⟨rest, rfl, of (held.setSize _ _) ?_⟩
  have nothing : ownedBlock s = [] := if_neg parked
  have current : ownedBlock (blockTaken s block pool) = [block] := if_pos (.inr (.inl rfl))
  have before := owned.partition
  rw [nothing] at before
  rw [current]
  refine List.Perm.trans ?_ before
  apply List.perm_iff_count.mpr
  intro x
  simp only [blockTaken, List.count_append, List.count_cons, List.count_nil]
  omega

/-- The block of a transfer that ended goes to the free list. -/
theorem freed (owned : WriteOwnedBy count s free queue) (inFlight : s.dma.inFlight = some block)
    (sending : s.ptFifoSend = some block) :
    WriteOwnedBy count (cplFreed s) (block :: free) queue := by
  obtain ⟨notFree, notQueued⟩ := owned.outside
    (show block ∈ s.dma.inFlight.toList ++ ownedBlock s by simp [inFlight])
  refine of ?_ ?_
  · simp only [cplFreed, sending]
    exact owned.represents.push notFree notQueued
  · have idle : (cplFreed s).dma.inFlight = none := rfl
    have current : ownedBlock (cplFreed s) = ownedBlock s := rfl
    have before := owned.partition
    rw [inFlight] at before
    rw [idle, current]
    refine List.Perm.trans ?_ before
    apply List.perm_iff_count.mpr
    intro x
    simp only [Option.toList_some, Option.toList_none, List.count_append, List.count_cons,
      List.count_nil]
    omega

theorem stored (owned : WriteOwnedBy count s free queue) {fifo : ByteFifo} {tByte : β}
    (here : s.fsmEnqueue = ⟨Enqueue.byteFifoIn, ⟨StreamWriteFlush.start⟩⟩)
    (room : zeroStrmEnqueueByteFifo s.tMemBlockFifo s.tByteFifo tByte = (true, pool, fifo)) :
    WriteOwnedBy count (byteStored s pool fifo) free queue := by
  refine owned.congr ?_ rfl (by simp [ownedBlock, OwnsCurrent, here, byteStored])
  exact (owned.represents.enqueueByte room).setSize _ _

theorem sends {u : TxStream β} (owned : WriteOwnedBy count s free queue)
    (idle : s.dma.inFlight = none) (sends : Sends dmaTx s u) :
    ∃ queue', WriteOwnedBy count u free queue' := by
  cases sends with
  | drained empty head => exact ⟨queue, owned.congr owned.represents rfl rfl⟩
  | started fetched =>
      obtain ⟨rest, -, owned'⟩ := owned.started idle fetched
      exact ⟨rest, owned'⟩

/-- A state of a call that leaves the block lists, the channel and the owner alone. -/
theorem rests {u : TxStream β} (owned : WriteOwnedBy count s free queue)
    (same : u.tMemBlockFifo = s.tMemBlockFifo ∧ u.dma = s.dma)
    (current : ownedBlock u = ownedBlock s) :
    ∃ free' queue', WriteOwnedBy count u free' queue' ∧ free' <:+ free :=
  ⟨free, queue, owned.congr (same.1 ▸ owned.represents) (congrArg DmaTx.inFlight same.2) current,
    List.suffix_rfl⟩

/-- **Every state of a call keeps the partition**, and frees no block. -/
theorem innermost {tByte : β} {r : TxStream β × Ctl} (owned : WriteOwnedBy count s free queue)
    (busy : Busy s) (effect : InnermostEffect dmaTx s tByte r) :
    ∃ free' queue', WriteOwnedBy count r.1 free' queue' ∧ free' <:+ free := by
  cases effect with
  | start here => exact owned.rests ⟨rfl, rfl⟩ (by simp [ownedBlock, OwnsCurrent, here])
  | store here room => exact ⟨free, queue, owned.stored here room, List.suffix_rfl⟩
  | full here refused => exact owned.rests ⟨rfl, rfl⟩ (by simp [ownedBlock, OwnsCurrent, here])
  | append here => exact ⟨free, _, owned.appended (.inr (.inr here)), List.suffix_rfl⟩
  | busy here set => exact owned.rests ⟨rfl, rfl⟩ (by simp [ownedBlock, OwnsCurrent, here])
  | acquire here clear => exact owned.rests ⟨rfl, rfl⟩ (by simp [ownedBlock, OwnsCurrent, here])
  | send here sends =>
      obtain ⟨queue', sent⟩ := owned.sends (busy.alone here) sends
      refine ⟨free, queue', sent.congr sent.represents rfl ?_, List.suffix_rfl⟩
      simp [ownedBlock, OwnsCurrent, sends.frame.1, here]
  | park here noBlock => exact ⟨free, queue, owned, List.suffix_rfl⟩
  | take here found =>
      obtain ⟨rest, rfl, owned'⟩ := owned.taken (by simp [OwnsCurrent, here]) found
      exact ⟨rest, queue, owned', List.suffix_cons ..⟩

/-- **The interrupt of a transfer keeps the partition.** -/
theorem completed (owned : WriteOwnedBy count s free queue) (busy : Busy s)
    (inFlight : s.dma.inFlight = some block) :
    ∃ queue', WriteOwnedBy count (completed s) (block :: free) queue' :=
  (owned.freed inFlight (busy.sending block inFlight)).sends rfl
    (completed_sends busy.auto busy.nothing)

end WriteOwnedBy

/-! ## Runs -/

/-- The initialised stream has the last block as its current one and the others free. -/
theorem InitialWrite.owned {cfg : StreamWriteCfg} {s : TxStream β}
    (initial : InitialWrite cfg DmaTx.reset s) :
    WriteOwnedBy cfg.chCnt s (List.range (cfg.chCnt - 1)).reverse [] := by
  refine .of initial.represents ?_
  obtain ⟨n, count⟩ : ∃ n, cfg.chCnt = n + 1 := by
    have enough := initial.enough
    exact ⟨cfg.chCnt - 1, by omega⟩
  rw [initial.dma, ownedBlock, if_pos (.inl (congrArg FsmEnqueue.chState initial.fsmEnqueue)),
    initial.current, count]
  apply List.perm_iff_count.mpr
  intro x
  simp [DmaTx.reset, List.range_succ, List.count_append]

section Runs

variable {count : ℕ} {s t : WriteSystem β} {e : WriteEvent β}

/-- The invariant of the sender's blocks. -/
structure WriteOwnedInv (count : ℕ) (s : WriteSystem β) : Prop where
  busy : BusyInv s
  owned : ∃ free queue, WriteOwnedBy count s.strm free queue

theorem WriteOwnedInv.writeOwned (inv : WriteOwnedInv count s) : WriteOwned count s.strm :=
  ⟨inv.owned, inv.busy.busy.sending⟩

/-- What an event does to the free list and to the log of freed blocks. A complete event puts the
block in flight on top, which was not free, and no other event puts a block there. -/
inductive FreesInFlight (s t : WriteSystem β) (free free' : List Addr) : WriteEvent β → Prop where
  | other {e : WriteEvent β} (notComplete : e ≠ .complete) (taken : free' <:+ free)
      (log : t.freed = s.freed) : FreesInFlight s t free free' e
  | complete {block : Addr} (inFlight : s.strm.dma.inFlight = some block) (inUse : block ∉ free)
      (freed : free' = block :: free) (log : t.freed = s.freed ++ [some block]) :
      FreesInFlight s t free free' .complete

/-- **Every event keeps the partition**, and only a complete event frees a block. -/
theorem WriteOwnedBy.step {free queue : List Addr} (owned : WriteOwnedBy count s.strm free queue)
    (busy : BusyInv s) (step : WriteStep s e t) :
    ∃ free' queue', WriteOwnedBy count t.strm free' queue' ∧ FreesInFlight s t free free' e := by
  cases step with
  | write idle tByte => exact ⟨free, queue, owned, .other (by rintro ⟨⟩) List.suffix_rfl rfl⟩
  | @step _ tByte calling =>
      obtain ⟨free', queue', owned', taken⟩ :=
        owned.innermost busy.busy (innermostState_effect dmaTx tByte busy.busy.place)
      exact ⟨free', queue', owned', .other (by rintro ⟨⟩) taken rfl⟩
  | @complete _ block inFlight =>
      obtain ⟨queue', owned'⟩ := owned.completed busy.busy inFlight
      have inUse : block ∉ free := (owned.outside (by simp [inFlight])).1
      have log : (completeStep s).freed = s.freed ++ [some block] := by
        rw [completeStep, busy.busy.sending block inFlight]
      exact ⟨_, queue', owned', .complete inFlight inUse rfl log⟩

theorem WriteOwnedInv.kept (inv : WriteOwnedInv count s) (step : WriteStep s e t) :
    WriteOwnedInv count t := by
  obtain ⟨busy, free, queue, owned⟩ := inv
  obtain ⟨free', queue', owned', -⟩ := owned.step busy step
  exact ⟨busy.kept step, free', queue', owned'⟩

/-- Every event moves blocks that nobody else owns. -/
theorem WriteOwnedInv.movesOwned (inv : WriteOwnedInv count s) (step : WriteStep s e t) :
    MovesOwned s e := by
  obtain ⟨busy, free, queue, owned⟩ := inv
  cases step with
  | write idle tByte => trivial
  | step calling =>
      intro here
      have owns : ownedBlock s.strm = [s.strm.ptByteFifo] := by
        simp [ownedBlock, OwnsCurrent, here]
      obtain ⟨notFree, notQueued⟩ := owned.outside
        (show s.strm.ptByteFifo ∈ s.strm.dma.inFlight.toList ++ ownedBlock s.strm by simp [owns])
      refine ⟨⟨free, queue, owned.represents, notFree, notQueued⟩, ?_⟩
      intro inFlight
      exact owned.apart inFlight (by simp [owns])
  | @complete _ block inFlight =>
      obtain ⟨notFree, notQueued⟩ := owned.outside
        (show block ∈ s.strm.dma.inFlight.toList ++ ownedBlock s.strm by simp [inFlight])
      exact ⟨block, busy.busy.sending block inFlight,
        ⟨free, queue, owned.represents, notFree, notQueued⟩, owned.apart inFlight⟩

theorem InitialWrite.ownedInv {cfg : StreamWriteCfg} {strm : TxStream β}
    (initial : InitialWrite cfg DmaTx.reset strm) :
    WriteOwnedInv cfg.chCnt ⟨strm, none, [], [], []⟩ :=
  ⟨initial.busyInv, _, _, initial.owned⟩

theorem WriteRun.ownedInv {cfg : StreamWriteCfg} {m : MemBlkFifo β} {es : List (WriteEvent β)}
    (run : WriteRun WriteStep cfg m es t) : WriteOwnedInv cfg.chCnt t := by
  obtain ⟨s, init, run⟩ := run
  have start := (zeroStrmWriteInit_spec init).ownedInv
  exact run.invariant (WriteOwnedInv cfg.chCnt) (fun _ _ _ inv => inv.kept) start

/-- **The blocks of the sender are partitioned in every state of every run**, and every block is
appended and freed by the one who owns it. -/
theorem writeOwned_run {cfg : StreamWriteCfg} {m : MemBlkFifo β} {es : List (WriteEvent β)}
    (run : WriteRun WriteStep cfg m es t) :
    WriteOwned cfg.chCnt t.strm ∧ WriteRun (guarded WriteStep MovesOwned) cfg m es t := by
  refine ⟨run.ownedInv.writeOwned, ?_⟩
  obtain ⟨s, init, run⟩ := run
  have start := (zeroStrmWriteInit_spec init).ownedInv
  refine ⟨s, init, ?_⟩
  refine run.guarded_of_invariant (WriteOwnedInv cfg.chCnt) ?_ ?_ start
  · intro u e v inv step
    exact inv.kept step
  · intro u e v inv step
    exact inv.movesOwned step

end Runs

/-- The events of a sender with blocks of one byte: two writes, and the second sends the block
of the first, whose transfer ends. -/
def sendingEvents : List (WriteEvent UInt8) :=
  [.write 7, .step, .step, .write 8, .step, .step, .step, .step, .step, .step, .step, .complete]

/-- Those events can happen, and they end outside of a call with `bBusy` clear. -/
theorem sendingEvents_run :
    ∃ t, WriteRun WriteStep (smallWriteCfg 2) zeroMemory sendingEvents t ∧
      t.calling = none ∧ t.strm.bBusy = false :=
  ⟨_, ⟨_, rfl, _, .write rfl _, _, .step rfl, _, .step rfl, _, .write rfl _, _, .step rfl, _,
    .step rfl, _, .step rfl, _, .step rfl, _, .step rfl, _, .step rfl, _, .step rfl, _,
    .complete rfl, rfl⟩, rfl, rfl⟩

/-- After those events two blocks have one owner each. -/
theorem writeOwned_twoBlocks :
    ∃ t, WriteRun WriteStep (smallWriteCfg 2) zeroMemory sendingEvents t ∧ WriteOwned 2 t.strm := by
  obtain ⟨t, run, -⟩ := sendingEvents_run
  exact ⟨t, run, (writeOwned_run run).1⟩

end ZeroStrm
