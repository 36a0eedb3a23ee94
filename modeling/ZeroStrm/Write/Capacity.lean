import ZeroStrm.Write.Transmission

/-!
# The capacity of a block

`tSizeInByte` is the fill count of a block while `enqueue` writes it, and the capacity of the
block when it is taken again. No code restores it. What makes it come back is that a block is
appended only when it is full: `writeCapacity` says that every free, queued and sent block has
its full capacity as its size in every state of every run, however often it has gone round.

So the DMA is always given full blocks, a recycled block is never refused as a buffer, and every
byte is stored below the capacity, into a block that is neither free nor queued nor in flight
(`StaysInBounds`). The proof adds the ring itself and the lengths of the past transfers
(`CapacityInv`) to what is known of the blocks (`Filled`).
-/

set_option autoImplicit false

namespace ZeroStrm

open EventRuns FifoChannel

variable {β : Type}

/-! ## What is in bounds -/

/-- A store into the ring is below the capacity, in a block that only `enqueue` has, and it wraps
no counter around. -/
structure StoreInBounds (buffCnt : ℕ) (s : TxStream β) : Prop where
  index : s.tByteFifo.hwTail < buffCnt
  buffer : s.tByteFifo.pchBuffer = s.ptByteFifo
  outside : Outside s s.tByteFifo.pchBuffer
  notInFlight : s.dma.inFlight ≠ some s.tByteFifo.pchBuffer
  tail : u16 (s.tByteFifo.hwTail + 1) = s.tByteFifo.hwTail + 1
  length : u16 (s.tByteFifo.hwLength + 1) = s.tByteFifo.hwLength + 1

/-- The next free block has the size `buffCnt`, which does not change as a `uint16_t`, and is
accepted as a buffer. -/
def RecycleAccepted (buffCnt : ℕ) (s : TxStream β) : Prop :=
  ∀ block pool, zeroStrmBlockNew s.tMemBlockFifo = (some block, pool) →
    pool.tSizeInByte block = buffCnt ∧ u16 (pool.tSizeInByte block) = pool.tSizeInByte block ∧
      (zeroStrmInitByteFifoEmpty s.tByteFifo (some block) (u16 (pool.tSizeInByte block))).1 = true

/-- A state of a call stores in bounds, if it stores, and takes only blocks that are accepted. -/
def StaysInBounds (buffCnt : ℕ) (s : WriteSystem β) : WriteEvent β → Prop
  | .step => (∀ tByte, storedByte s.strm tByte ≠ [] → StoreInBounds buffCnt s.strm) ∧
      (s.strm.fsmEnqueue.chState = Enqueue.getByteFifo → RecycleAccepted buffCnt s.strm)
  | _ => True

/-- The sizes of the blocks in a state, by owner. -/
structure Capacities (buffCnt : ℕ) (s : TxStream β) (free queue : List Addr) : Prop where
  represents : Represents s.tMemBlockFifo free queue
  ring : s.tByteFifo.hwSize = buffCnt
  wellFormed : s.tByteFifo.WellFormed
  full : ∀ block ∈ free ++ queue ++ s.dma.inFlight.toList,
    s.tMemBlockFifo.tSizeInByte block = buffCnt
  owned : ∀ block ∈ ownedBlock s,
    s.tMemBlockFifo.tSizeInByte block = s.tByteFifo.hwLength ∧ s.tByteFifo.hwLength ≤ buffCnt

/-! ## The invariant -/

/-- **A recycled block is accepted**, because it has its full capacity as its size. -/
theorem Filled.recycled {count buffCnt : ℕ} {s : TxStream β} {free queue : List Addr}
    (positive : 0 < buffCnt) (small : buffCnt < 2 ^ 16)
    (filled : Filled count buffCnt s free queue) : RecycleAccepted buffCnt s := by
  intro block pool found
  obtain ⟨rest, rfl, rfl, -⟩ := filled.owned.represents.new_some found
  have size : s.tMemBlockFifo.tSizeInByte block = buffCnt := filled.size block (by simp)
  dsimp only
  rw [size, u16_of_lt small, ByteFifo.init_empty block positive]
  exact ⟨rfl, rfl, rfl⟩

/-- **A store is in bounds.** -/
theorem Filled.storeInBounds {count buffCnt : ℕ} {s : TxStream β} {free queue : List Addr}
    {tByte : β} (filled : Filled count buffCnt s free queue) (stores : storedByte s tByte ≠ []) :
    StoreInBounds buffCnt s := by
  obtain ⟨here, accepted⟩ : s.fsmEnqueue.chState = Enqueue.byteFifoIn ∧
      (zeroStrmEnqueueByteFifo s.tMemBlockFifo s.tByteFifo tByte).1 = true := by
    by_contra refused
    exact stores (if_neg refused)
  have current : OwnsCurrent s := .inr (.inl here)
  have filling := filled.current current
  have room : s.tByteFifo.hwLength ≠ s.tByteFifo.hwSize :=
    (ByteFifo.enqueue_accepts_iff filling.wellFormed).mp accepted
  have owns : ownedBlock s = [s.ptByteFifo] := if_pos current
  obtain ⟨notFree, notQueued⟩ := filled.owned.outside
    (show s.ptByteFifo ∈ s.dma.inFlight.toList ++ ownedBlock s by simp [owns])
  have tailLt := filling.wellFormed.tail_lt
  have lengthLe := filling.wellFormed.length_le
  have sizeLt := filling.wellFormed.size_lt
  refine ⟨?_, filling.buffer, ?_, ?_, u16_of_lt (by omega), u16_of_lt (by omega)⟩
  · rw [← filling.capacity]
    exact tailLt
  · rw [filling.buffer]
    exact ⟨free, queue, filled.owned.represents, notFree, notQueued⟩
  · rw [filling.buffer]
    intro inFlight
    exact filled.owned.apart inFlight (by simp [owns])

/-- The ring, and the transfers so far. -/
structure RingKept (buffCnt : ℕ) (s : TxStream β) : Prop where
  wellFormed : s.tByteFifo.WellFormed
  capacity : s.tByteFifo.hwSize = buffCnt
  starts : ∀ start ∈ s.dma.started, start.2.length = buffCnt

namespace RingKept

variable {count buffCnt : ℕ} {s u : TxStream β} {free queue : List Addr} {tByte : β}

theorem frame (kept : RingKept buffCnt s) (fifo : u.tByteFifo = s.tByteFifo)
    (started : u.dma.started = s.dma.started) : RingKept buffCnt u := by
  obtain ⟨wellFormed, capacity, starts⟩ := kept
  constructor
  · rw [fifo]
    exact wellFormed
  · rw [fifo]
    exact capacity
  · rw [started]
    exact starts

/-- **A start of the channel is given a full block.** -/
theorem sends (kept : RingKept buffCnt s) (filled : Filled count buffCnt s free queue)
    (sends : Sends dmaTx s u) : RingKept buffCnt u := by
  cases sends with
  | drained empty head => exact kept.frame rfl rfl
  | @started block pool fetched =>
      refine ⟨kept.wellFormed, kept.capacity, ?_⟩
      obtain ⟨rest, rfl, -⟩ := filled.owned.represents.fetch_some fetched
      obtain ⟨-, -, bytes⟩ := fetch_frame fetched
      intro start member
      rcases List.mem_append.mp member with before | now
      · exact kept.starts start before
      · obtain rfl := List.mem_singleton.mp now
        dsimp only
        rw [bytes, length_blockBytes]
        exact filled.size block (by simp)

/-- **Every state of a call keeps the ring and gives the channel full blocks.** -/
theorem innermost {r : TxStream β × Ctl} (positive : 0 < buffCnt) (small : buffCnt < 2 ^ 16)
    (kept : RingKept buffCnt s) (filled : Filled count buffCnt s free queue)
    (effect : InnermostEffect dmaTx s tByte r) : RingKept buffCnt r.1 := by
  cases effect with
  | start here => exact kept.frame rfl rfl
  | store here room =>
      have took := ByteFifo.enqueue_took kept.wellFormed room
      exact ⟨took.wellFormed, took.size.trans kept.capacity, kept.starts⟩
  | full here refused => exact kept.frame rfl rfl
  | append here => exact kept.frame rfl rfl
  | busy here set => exact kept.frame rfl rfl
  | acquire here clear => exact kept.frame rfl rfl
  | send here sends => exact (kept.sends filled sends).frame rfl rfl
  | park here noBlock => exact kept
  | @take block pool here found =>
      obtain ⟨capacity, -⟩ := filled.recycled positive small block pool found
      have fifo : (blockTaken s block pool).tByteFifo = ⟨block, buffCnt, 0, 0, 0⟩ := by
        rw [blockTaken, capacity, u16_of_lt small]
        exact congrArg Prod.snd (ByteFifo.init_empty block positive)
      refine ⟨?_, ?_, kept.starts⟩
      · rw [fifo]
        exact ByteFifo.wellFormed_empty block positive small
      · rw [fifo]

/-- **So does the interrupt of a transfer.** -/
theorem completed {block : Addr} (kept : RingKept buffCnt s)
    (filled : Filled count buffCnt s free queue) (busy : Busy s)
    (inFlight : s.dma.inFlight = some block) : RingKept buffCnt (completed s) := by
  obtain ⟨freed, -⟩ : _ ∧ txChannel [] (cplFreed s) queue = _ :=
    filled.freed inFlight (busy.sending block inFlight)
  have ring : RingKept buffCnt (cplFreed s) := kept.frame rfl rfl
  exact ring.sends freed (completed_sends busy.auto busy.nothing)

end RingKept

/-! ## Runs -/

section Runs

variable {count buffCnt : ℕ} {s t : WriteSystem β} {e : WriteEvent β}

/-- What is known of a sender: the protocol of `bBusy`, the blocks, the ring and the transfers. -/
structure CapacityInv (count buffCnt : ℕ) (s : WriteSystem β) : Prop where
  busy : BusyInv s
  filled : ∃ free queue, Filled count buffCnt s.strm free queue
  ring : RingKept buffCnt s.strm

/-- **Every event keeps the capacities.** -/
theorem CapacityInv.kept (positive : 0 < buffCnt) (small : buffCnt < 2 ^ 16)
    (inv : CapacityInv count buffCnt s) (step : WriteStep s e t) :
    CapacityInv count buffCnt t := by
  have busy := inv.busy.kept step
  obtain ⟨before, ⟨free, queue, filled⟩, ring⟩ := inv
  cases step with
  | write idle tByte => exact ⟨busy, ⟨free, queue, filled⟩, ring⟩
  | @step _ tByte calling =>
      have effect := innermostState_effect dmaTx tByte before.busy.place
      obtain ⟨free', queue', filled'⟩ := filled.innermost_kept positive small before.busy effect
      exact ⟨busy, ⟨free', queue', filled'⟩, ring.innermost positive small filled effect⟩
  | complete inFlight =>
      obtain ⟨free', queue', filled', -⟩ : ∃ free' queue', _ ∧ Move (txChannel [] _ _) _ :=
        filled.completed before.busy inFlight
      exact ⟨busy, ⟨free', queue', filled'⟩, ring.completed filled before.busy inFlight⟩

theorem CapacityInv.staysInBounds (positive : 0 < buffCnt) (small : buffCnt < 2 ^ 16)
    (inv : CapacityInv count buffCnt s) : StaysInBounds buffCnt s e := by
  obtain ⟨-, ⟨free, queue, filled⟩, -⟩ := inv
  cases e with
  | step => exact ⟨fun tByte => filled.storeInBounds, fun _ => filled.recycled positive small⟩
  | _ => trivial

theorem CapacityInv.capacities (inv : CapacityInv count buffCnt s) :
    ∃ free queue, Capacities buffCnt s.strm free queue := by
  obtain ⟨-, ⟨free, queue, filled⟩, ring⟩ := inv
  refine ⟨free, queue, filled.owned.represents, ring.capacity, ring.wellFormed, filled.size, ?_⟩
  intro block member
  rw [ownedBlock] at member
  split at member
  · next current =>
      have filling := filled.current current
      rw [List.mem_singleton.mp member, ← ring.capacity]
      exact ⟨filling.size, ring.wellFormed.length_le⟩
  · cases member

/-- The initialised sender has all its blocks at their capacity. -/
theorem InitialWrite.capacityInv {cfg : StreamWriteCfg} {s : TxStream β}
    (initial : InitialWrite cfg DmaTx.reset s) (positive : 0 < cfg.writeBuffCnt)
    (small : cfg.writeBuffCnt < 2 ^ 16) :
    CapacityInv cfg.chCnt cfg.writeBuffCnt ⟨s, none, [], [], []⟩ := by
  obtain ⟨-, ⟨free, queue, busy, filled, -⟩, -⟩ := initial.shows positive small
  refine ⟨busy, ⟨free, queue, filled⟩, ?_, ?_, ?_⟩
  · rw [initial.fifo positive small]
    exact ByteFifo.wellFormed_empty _ positive small
  · rw [initial.fifo positive small]
  · rw [initial.dma]
    intro start member
    cases member

theorem WriteRun.capacityInv {cfg : StreamWriteCfg} {m : MemBlkFifo β} {es : List (WriteEvent β)}
    (positive : 0 < cfg.writeBuffCnt) (small : cfg.writeBuffCnt < 2 ^ 16)
    (run : WriteRun WriteStep cfg m es t) : CapacityInv cfg.chCnt cfg.writeBuffCnt t := by
  obtain ⟨s, init, run⟩ := run
  refine run.invariant (CapacityInv cfg.chCnt cfg.writeBuffCnt) ?_
    ((zeroStrmWriteInit_spec init).capacityInv positive small)
  intro u e v inv step
  exact inv.kept positive small step

/-- **A block never loses capacity, and every store is in bounds.** In every state of every run,
between any two states of a call too: the ring has the full capacity, and so have the free, the
queued and the sent blocks; the block of `enqueue` has its fill count. Every transfer was started
on a full block of accepted bytes, and every event stays in bounds. -/
theorem writeCapacity {cfg : StreamWriteCfg} {m : MemBlkFifo β} {es : List (WriteEvent β)}
    (positive : 0 < cfg.writeBuffCnt) (small : cfg.writeBuffCnt < 2 ^ 16)
    (run : WriteRun WriteStep cfg m es t) :
    (∃ free queue, Capacities cfg.writeBuffCnt t.strm free queue) ∧
      (∀ start ∈ t.strm.dma.started, start.2.length = cfg.writeBuffCnt) ∧
      startedBytes t.strm <+: t.accepted ∧
      WriteRun (guarded WriteStep (StaysInBounds cfg.writeBuffCnt)) cfg m es t := by
  obtain ⟨_, ⟨free, queue, -, -, accepted, rfl⟩, lossless⟩ := run.shows positive small
  have inv := run.capacityInv positive small
  obtain ⟨s, init, run⟩ := run
  have start := (zeroStrmWriteInit_spec init).capacityInv positive small
  refine ⟨inv.capacities, inv.ring.starts, ?_, s, init, ?_⟩
  · rw [accepted]
    exact ⟨_, lossless.symm⟩
  · refine run.guarded_of_invariant (CapacityInv cfg.chCnt cfg.writeBuffCnt) ?_ ?_ start
    · intro u e v inv step
      exact inv.kept positive small step
    · intro u e v inv step
      exact inv.staysInBounds positive small

end Runs

/-- The capacities of a sender with blocks of one byte, after a write and a start. -/
theorem writeCapacity_twoBlocks :
    ∃ t free queue, WriteRun WriteStep (smallWriteCfg 2) zeroMemory sendingEvents t ∧
      Capacities 1 t.strm free queue ∧ ∀ start ∈ t.strm.dma.started, start.2.length = 1 := by
  obtain ⟨t, run, -⟩ := sendingEvents_run
  obtain ⟨⟨free, queue, capacities⟩, starts, -⟩ := writeCapacity (by decide) (by decide) run
  exact ⟨t, free, queue, run, capacities, starts⟩

end ZeroStrm
