import ZeroStrm.Read.Channel
import ZeroStrm.Read.Init
import Mathlib.Data.List.Perm.Basic

/-!
# Block ownership of the receiver

Every block of the pool has one owner: the free list, the queue, the channel, or `dequeue`,
which owns nothing while it is parked in `GET_BYTE_FIFO` (`OwnedBy`). Every event keeps this
partition except one: a flush that has received data and finds the pool empty
(`FlushFindsBlock`). It appends the receiving block and leaves it with the channel, so that
block then has two owners.

`readOwned_iff` says that this is the only way: the blocks are partitioned in every state of a
run exactly when each flush of the run with data to append finds a block.
-/

set_option autoImplicit false

namespace ZeroStrm

open EventRuns LinkedChain

variable {β D : Type}

/-! ## Owners -/

/-- The block that `dequeue` holds. -/
def dequeueHolds (s : StreamRead β D) : List Addr :=
  if s.fsmDequeue.chState = Dequeue.getByteFifo then [] else [s.fsmDequeue.ptByteFifo]

/-- The blocks below `count` are partitioned into a free list, a queue, the block of the channel
and the block of `dequeue`. -/
structure OwnedBy (count : ℕ) (s : StreamRead β D) (free queue : List Addr) : Prop where
  represents : Represents s.tMemBlockFifo free queue
  acyclic : free.Nodup ∧ queue.Nodup
  headTail : s.tMemBlockFifo.ptHead = none ↔ s.tMemBlockFifo.ptTail = none
  partition : (free ++ queue ++ s.ptByteFifoDmaRx :: dequeueHolds s).Perm (List.range count)

/-- Every block has exactly one owner. -/
def Owned (count : ℕ) (s : StreamRead β D) : Prop := ∃ free queue, OwnedBy count s free queue

/-- A flush that has data to append finds a block for the channel. -/
def FlushFindsBlock (s : ReadSystem β (DmaRx β)) (e : ReadEvent β) : Prop :=
  flushes s.strm e = true → rxReceived s.strm ≠ 0 → s.strm.tMemBlockFifo.ptFreeList ≠ none

/-- The block that the flush of a stream frees or appends in `GET_DATA_CNT`. -/
def movedBlock (s : RxStream β) : Ptr :=
  if rxReceived s = 0 then newBlock s else some s.ptByteFifoDmaRx

/-- The block that a flush frees or appends is neither free nor queued at that moment, and the
channel does not keep it. -/
def FlushMovesOwned (s : ReadSystem β (DmaRx β)) (e : ReadEvent β) : Prop :=
  flushes s.strm e = true → ∀ block, movedBlock s.strm = some block →
    ∃ free queue, Represents (newPool s.strm) free queue ∧ block ∉ free ∧ block ∉ queue ∧
      (rxFlushed s.strm).ptByteFifoDmaRx ≠ block

namespace OwnedBy

variable {count : ℕ} {s : StreamRead β D} {free queue : List Addr}

theorem of (held : Represents s.tMemBlockFifo free queue)
    (partition : (free ++ queue ++ s.ptByteFifoDmaRx :: dequeueHolds s).Perm (List.range count)) :
    OwnedBy count s free queue :=
  ⟨held, ⟨held.stack.nodup, held.fifo.nodup⟩, held.head_eq_none_iff, partition⟩

/-- No block has two owners. -/
theorem nodup (owned : OwnedBy count s free queue) :
    (free ++ queue ++ s.ptByteFifoDmaRx :: dequeueHolds s).Nodup :=
  owned.partition.nodup_iff.mpr List.nodup_range

theorem dmaBlock_outside (owned : OwnedBy count s free queue) :
    s.ptByteFifoDmaRx ∉ free ∧ s.ptByteFifoDmaRx ∉ queue := by
  have distinct := owned.nodup
  simp only [List.nodup_append, List.mem_append, List.mem_cons, ne_eq] at distinct
  exact ⟨fun member => distinct.2.2 _ (.inl member) _ (.inl rfl) rfl,
    fun member => distinct.2.2 _ (.inr member) _ (.inl rfl) rfl⟩

theorem held_outside (owned : OwnedBy count s free queue)
    (holds : s.fsmDequeue.chState ≠ Dequeue.getByteFifo) :
    s.fsmDequeue.ptByteFifo ∉ free ∧ s.fsmDequeue.ptByteFifo ∉ queue := by
  have distinct := owned.nodup
  simp only [dequeueHolds, if_neg holds, List.nodup_append, List.mem_append, List.mem_cons,
    ne_eq] at distinct
  exact ⟨fun member => distinct.2.2 _ (.inl member) _ (.inr (.inl rfl)) rfl,
    fun member => distinct.2.2 _ (.inr member) _ (.inr (.inl rfl)) rfl⟩

/-- The owners are seen through the pointers, the block of the channel and `dequeue`. -/
theorem congr {s' : StreamRead β D} (owned : OwnedBy count s free queue)
    (held : Represents s'.tMemBlockFifo free queue)
    (dmaBlock : s'.ptByteFifoDmaRx = s.ptByteFifoDmaRx)
    (holds : dequeueHolds s' = dequeueHolds s) : OwnedBy count s' free queue := by
  refine of held ?_
  rw [dmaBlock, holds]
  exact owned.partition

end OwnedBy

/-! ## What the effects do to the owners -/

namespace OwnedBy

variable {count : ℕ} {s : RxStream β} {free queue : List Addr}

/-- An arriving byte leaves every pointer alone. -/
theorem arrived (owned : OwnedBy count s free queue) (byte : β) :
    OwnedBy count (ZeroStrm.arrived s byte) free queue := by
  by_cases room : s.dma.count < s.dma.length
  · rw [arrived_room byte room]
    exact owned.congr (owned.represents.setByte ..) rfl rfl
  · rw [arrived_full byte room]
    exact owned

/-- Owners do not change with the flags, the timer and the flush machines. -/
theorem sameData {s' : RxStream β} (owned : OwnedBy count s free queue)
    (same : SameData s s') : OwnedBy count s' free queue := by
  refine owned.congr ?_ same.dmaBlock ?_
  · rw [same.pool]
    exact owned.represents
  · rw [dequeueHolds, dequeueHolds, same.dequeue]

/-- A flush without data keeps every owner. -/
theorem flushed_nothing (owned : OwnedBy count s free queue) (nothing : rxReceived s = 0) :
    OwnedBy count (rxFlushed s) free queue :=
  owned.congr (flushedPool_nothing owned.represents nothing) (if_pos nothing) rfl

/-- With data, the block that a flush finds goes from the free list to the channel, and the one
of the channel to the queue. -/
theorem flushed_something {b : Addr} (owned : OwnedBy count s (b :: free) queue)
    (something : rxReceived s ≠ 0) :
    OwnedBy count (rxFlushed s) free (queue ++ [s.ptByteFifoDmaRx]) := by
  obtain ⟨notFree, notQueued⟩ := owned.dmaBlock_outside
  have appended := flushedPool_append owned.represents something notFree notQueued
  have dmaBlock : (rxFlushed s).ptByteFifoDmaRx = b := by
    change flushedDmaRx dmaRx.toDmaRxIO s = b
    rw [flushedDmaRx, if_neg something, newBlock_eq, owned.represents.stack.1]
    rfl
  refine of appended ?_
  rw [dmaBlock, show dequeueHolds (rxFlushed s) = dequeueHolds s from rfl]
  refine List.Perm.trans ?_ owned.partition
  apply List.perm_iff_count.mpr
  intro x
  simp only [List.count_append, List.count_cons, List.count_nil]
  omega

/-- **A flush that finds a block when it has data keeps the partition.** -/
theorem flushed (owned : OwnedBy count s free queue)
    (finds : rxReceived s ≠ 0 → s.tMemBlockFifo.ptFreeList ≠ none) :
    Owned count (rxFlushed s) := by
  by_cases nothing : rxReceived s = 0
  · exact ⟨free, queue, owned.flushed_nothing nothing⟩
  · cases free with
    | nil => exact absurd owned.represents.stack (finds nothing)
    | cons b free => exact ⟨free, _, owned.flushed_something nothing⟩

/-- **A flush with data and an empty pool breaks the partition**: the receiving block is queued
and stays with the channel. -/
theorem flushed_exhausted (owned : OwnedBy count s free queue) (something : rxReceived s ≠ 0)
    (empty : s.tMemBlockFifo.ptFreeList = none) : ¬ Owned count (rxFlushed s) := by
  rintro ⟨free', queue', owned'⟩
  obtain ⟨notFree, notQueued⟩ := owned.dmaBlock_outside
  have appended := flushedPool_append owned.represents something notFree notQueued
  have dmaBlock : (rxFlushed s).ptByteFifoDmaRx = s.ptByteFifoDmaRx := by
    change flushedDmaRx dmaRx.toDmaRxIO s = s.ptByteFifoDmaRx
    rw [flushedDmaRx, if_neg something, newBlock_eq, empty]
    rfl
  refine owned'.dmaBlock_outside.2 ?_
  rw [dmaBlock, ← (appended.unique owned'.represents).2]
  exact List.mem_append_right _ (List.mem_singleton_self _)

end OwnedBy

/-- **Every state of `dequeue` keeps the partition.** A drained block goes to the free list, and
the first block of the queue comes to `dequeue`. -/
theorem Owned.dequeueEffect {count : ℕ} {s : StreamRead β D}
    {r : (StreamRead β D × Option β) × Ctl} (owned : Owned count s)
    (effect : DequeueEffect s r) : Owned count r.1.1 := by
  obtain ⟨free, queue, owned⟩ := owned
  cases effect with
  | start at_start =>
      exact ⟨free, queue, owned.congr owned.represents rfl (by simp [dequeueHolds, at_start])⟩
  | byte at_out deq =>
      exact ⟨free, queue, owned.congr owned.represents rfl (by simp [dequeueHolds, at_out])⟩
  | free at_out deq =>
      have holds : s.fsmDequeue.chState ≠ Dequeue.getByteFifo := by rw [at_out]; decide
      obtain ⟨notFree, notQueued⟩ := owned.held_outside holds
      refine ⟨_ :: free, queue, .of (owned.represents.push notFree notQueued) ?_⟩
      refine List.Perm.trans ?_ owned.partition
      apply List.perm_iff_count.mpr
      intro x
      simp only [dequeueHolds, if_neg holds, if_true, List.cons_append, List.count_append,
        List.count_cons, List.count_nil]
      omega
  | wait at_get fetched =>
      obtain ⟨-, rfl⟩ := owned.represents.fetch_none fetched
      exact ⟨free, queue, owned⟩
  | fetch at_get fetched =>
      obtain ⟨rest, rfl, held⟩ := owned.represents.fetch_some fetched
      refine ⟨free, rest, .of held ?_⟩
      refine List.Perm.trans ?_ owned.partition
      apply List.perm_iff_count.mpr
      intro x
      simp only [dequeueHolds, at_get, if_true, if_neg (by decide : ¬ Dequeue.byteFifoOut = 2),
        List.count_append, List.count_cons, List.count_nil]
      omega

/-! ## Runs -/

/-- The initialised stream has the last block with the channel, the one before with `dequeue`,
and the others free. -/
theorem InitialRead.owned {io : DmaRxIO β D} {cfg : StreamReadCfg} {dma : D}
    {s : StreamRead β D} (initial : InitialRead io cfg dma s) : Owned cfg.chCnt s := by
  obtain ⟨n, count⟩ : ∃ n, cfg.chCnt = n + 2 := ⟨cfg.chCnt - 2, by have := initial.enough; omega⟩
  have blocks := initial.represents
  rw [count] at blocks
  refine ⟨_, _, .of blocks ?_⟩
  rw [count, initial.dmaBlock, dequeueHolds, initial.dequeue, count]
  apply List.perm_iff_count.mpr
  intro x
  simp [List.range_succ, List.count_append, List.count_cons]
  omega

section Runs

variable {count : ℕ} {s t : ReadSystem β (DmaRx β)} {e : ReadEvent β}

/-- **An event that meets the condition keeps the partition.** -/
theorem Owned.step (owned : Owned count s.strm) (quiet : Quiet s.strm)
    (finds : FlushFindsBlock s e) (step : ReadStep dmaRx s e t) : Owned count t.strm := by
  obtain ⟨free, queue, ownedBy⟩ := owned
  cases step.effect quiet with
  | arrive byte => exact ⟨free, queue, ownedBy.arrived byte⟩
  | read => exact Owned.dequeueEffect ⟨free, queue, ownedBy⟩ (dequeueState_effect quiet.dequeue)
  | flush ran same =>
      obtain ⟨free, queue, ownedBy⟩ := ownedBy.flushed (finds ran)
      exact ⟨free, queue, ownedBy.sameData same⟩
  | idle _ same => exact ⟨free, queue, ownedBy.sameData same⟩

/-- **An event that misses the condition breaks the partition.** -/
theorem Owned.broken (owned : Owned count s.strm) (quiet : Quiet s.strm)
    (misses : ¬ FlushFindsBlock s e) (step : ReadStep dmaRx s e t) : ¬ Owned count t.strm := by
  simp only [FlushFindsBlock, Classical.not_imp, not_not] at misses
  obtain ⟨ran, something, empty⟩ := misses
  obtain ⟨free, queue, ownedBy⟩ := owned
  have same := ((step.effect quiet).flushed ran).1
  rintro ⟨free', queue', ownedBy'⟩
  exact ownedBy.flushed_exhausted something empty ⟨free', queue', ownedBy'.sameData same.symm⟩

/-- A flush that finds a block when it has data moves a block that nobody else owns. -/
theorem FlushFindsBlock.movesOwned (owned : Owned count s.strm) (finds : FlushFindsBlock s e) :
    FlushMovesOwned s e := by
  obtain ⟨free, queue, owned⟩ := owned
  intro ran block moved
  have dmaBlock : (rxFlushed s.strm).ptByteFifoDmaRx = flushedDmaRx dmaRx.toDmaRxIO s.strm := rfl
  obtain ⟨dmaNotFree, dmaNotQueued⟩ := owned.dmaBlock_outside
  by_cases nothing : rxReceived s.strm = 0
  · rw [movedBlock, if_pos nothing, newBlock_eq] at moved
    rw [dmaBlock, flushedDmaRx, if_pos nothing]
    cases free with
    | nil => cases owned.represents.stack.symm.trans moved
    | cons b free =>
        obtain rfl := Option.some.inj (owned.represents.stack.1.symm.trans moved)
        exact ⟨free, queue, newPool_cons owned.represents,
          (List.nodup_cons.mp owned.acyclic.1).1,
          (List.disjoint_cons_left.mp owned.represents.disjoint).1,
          fun same => dmaNotFree (same ▸ List.mem_cons_self ..)⟩
  · rw [movedBlock, if_neg nothing] at moved
    obtain rfl := Option.some.inj moved
    rw [dmaBlock, flushedDmaRx, if_neg nothing, newBlock_eq]
    cases free with
    | nil => exact absurd owned.represents.stack (finds ran nothing)
    | cons b free =>
        rw [owned.represents.stack.1]
        exact ⟨free, queue, newPool_cons owned.represents,
          fun member => dmaNotFree (List.mem_cons_of_mem _ member), dmaNotQueued,
          fun same => dmaNotFree (same ▸ List.mem_cons_self ..)⟩

/-- The invariant of the runs whose flushes find a block. -/
structure OwnedInv (count : ℕ) (s : ReadSystem β (DmaRx β)) : Prop where
  quiet : Quiet s.strm
  owned : Owned count s.strm

theorem OwnedInv.kept (inv : OwnedInv count s) (finds : FlushFindsBlock s e)
    (step : ReadStep dmaRx s e t) : OwnedInv count t :=
  ⟨inv.quiet.kept step, inv.owned.step inv.quiet finds step⟩

/-- **The blocks are partitioned exactly as long as no flush with data finds the pool empty.**
The steps of a run all meet that condition exactly when every block has one owner in every state
of the run and every flush moves a block that nobody else owns. -/
theorem readOwned_iff {cfg : StreamReadCfg} {m : MemBlkFifo β} {dma : DmaRx β} {s : RxStream β}
    (init : zeroStrmReadInit dmaRx.toDmaRxIO cfg m dma = some s) {es : List (ReadEvent β)}
    (run : Run (ReadStep dmaRx) ⟨s, []⟩ es t) :
    Run (guarded (ReadStep dmaRx) FlushFindsBlock) ⟨s, []⟩ es t ↔
      Throughout (ReadStep dmaRx) (fun u => Owned cfg.chCnt u.strm) ⟨s, []⟩ es ∧
        Run (guarded (ReadStep dmaRx) FlushMovesOwned) ⟨s, []⟩ es t := by
  have initial := zeroStrmReadInit_spec init
  have start : OwnedInv cfg.chCnt ⟨s, []⟩ := ⟨initial.quiet, initial.owned⟩
  have partitioned : Run (guarded (ReadStep dmaRx) FlushFindsBlock) ⟨s, []⟩ es t ↔
      Throughout (ReadStep dmaRx) (fun u => Owned cfg.chCnt u.strm) ⟨s, []⟩ es :=
    run.guarded_iff_throughout (readStep_deterministic dmaRx) (fun _ inv => inv.owned)
      (fun _ _ _ inv => inv.kept) (fun _ _ _ inv => inv.owned.broken inv.quiet) start
  refine ⟨fun finds => ⟨partitioned.mp finds, ?_⟩, fun owned => partitioned.mpr owned.1⟩
  exact finds.guarded_mono (OwnedInv cfg.chCnt) (fun _ _ _ inv => inv.kept)
    (fun _ _ inv met => met.movesOwned inv.owned) start

end Runs

/-- With a third block a flush with data keeps the partition. -/
theorem readOwned_iff_threeBlocks :
    ∃ s t, zeroStrmReadInit dmaRx.toDmaRxIO (smallCfg 3) zeroMemory DmaRx.reset = some s ∧
      Run (ReadStep dmaRx) ⟨s, []⟩ [.arrive 7, .dmaHalf] t ∧
      Throughout (ReadStep dmaRx) (fun u => Owned 3 u.strm) ⟨s, []⟩ [.arrive 7, .dmaHalf] := by
  obtain ⟨s, init⟩ : ∃ s,
      zeroStrmReadInit dmaRx.toDmaRxIO (smallCfg 3) zeroMemory DmaRx.reset = some s := ⟨_, rfl⟩
  obtain ⟨t, run⟩ : ∃ t, Run (ReadStep dmaRx) ⟨s, []⟩ [.arrive 7, .dmaHalf] t :=
    ⟨_, _, rfl, _, rfl, rfl⟩
  have finds : Run (guarded (ReadStep dmaRx) FlushFindsBlock) ⟨s, []⟩ [.arrive 7, .dmaHalf] t := by
    obtain rfl := Option.some.inj init
    obtain ⟨_, rfl, _, rfl, rfl⟩ := run
    exact ⟨_, ⟨nofun, rfl⟩, _, ⟨fun _ _ => nofun, rfl⟩, rfl⟩
  exact ⟨s, t, init, run, ((readOwned_iff init run).mp finds).1⟩

/-- With two blocks and an application that does not read, the first flush with data queues the
block that the channel keeps. -/
theorem readOwned_exhausted :
    ∃ s t, zeroStrmReadInit dmaRx.toDmaRxIO (smallCfg 2) zeroMemory DmaRx.reset = some s ∧
      Run (ReadStep dmaRx) ⟨s, []⟩ [.arrive 7, .dmaHalf] t ∧ ¬ Owned 2 t.strm := by
  refine ⟨_, _, rfl, ⟨_, rfl, _, rfl, rfl⟩, ?_⟩
  rintro ⟨free, queue, owned⟩
  have head : Chain _ (some 1) queue := owned.represents.fifo
  obtain ⟨rest, rfl, -⟩ := head.eq_cons
  exact owned.dmaBlock_outside.2 (List.mem_cons_self ..)

end ZeroStrm
