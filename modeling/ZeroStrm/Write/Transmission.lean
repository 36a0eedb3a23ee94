import ZeroStrm.Library.FifoChannel
import ZeroStrm.Write.Ownership

/-!
# Transmission in order

The sender is a channel from the calls of `zero_strm_write` to the DMA (`txChannel`). The bytes
in transit are those of the queued blocks from head to tail and those of the current block while
`enqueue` owns it. A call that stores a byte puts it in, and a start of the DMA takes the bytes
of one block out. All other states of the machines, and the interrupt at any of them, leave the
bytes where they are (`write_refines`).

A block has its capacity as its size from the moment it is full, through the queue and the
transfer, up to the next time it is taken from the free list (`Filled`).
-/

set_option autoImplicit false

namespace ZeroStrm

open EventRuns FifoChannel

variable {β : Type}

/-! ## The channel a sender shows -/

/-- The bytes of the current byte queue, while `enqueue` owns its block. -/
def currentBytes (s : TxStream β) : List β :=
  if OwnsCurrent s then s.tByteFifo.content s.tMemBlockFifo else []

/-- The bytes of the queued blocks, from head to tail. -/
def queueBytes (s : TxStream β) (queue : List Addr) : List β :=
  queue.flatMap s.tMemBlockFifo.blockBytes

/-- The bytes of the blocks that were handed to `fnDmaStart`, in start order. -/
def startedBytes (s : TxStream β) : List β := s.dma.started.flatMap Prod.snd

/-- What was stored, what waits in the blocks, and what the DMA was given. -/
def txChannel (enqueued : List β) (s : TxStream β) (queue : List Addr) : Channel β where
  sent := enqueued
  inTransit := queueBytes s queue ++ currentBytes s
  received := startedBytes s

/-- The byte queue that fills the current block from its first byte on. -/
structure Filling (buffCnt : ℕ) (s : TxStream β) : Prop where
  wellFormed : s.tByteFifo.WellFormed
  buffer : s.tByteFifo.pchBuffer = s.ptByteFifo
  capacity : s.tByteFifo.hwSize = buffCnt
  head : s.tByteFifo.hwHead = 0
  size : s.tMemBlockFifo.tSizeInByte s.ptByteFifo = s.tByteFifo.hwLength

/-- The sizes of the blocks, and what the transfer in flight was started with. -/
structure Filled (count buffCnt : ℕ) (s : TxStream β) (free queue : List Addr) : Prop where
  owned : WriteOwnedBy count s free queue
  size : ∀ block ∈ free ++ queue ++ s.dma.inFlight.toList,
    s.tMemBlockFifo.tSizeInByte block = buffCnt
  current : OwnsCurrent s → Filling buffCnt s
  full : s.fsmEnqueue = ⟨Enqueue.flush, ⟨StreamWriteFlush.start⟩⟩ →
    s.tByteFifo.hwLength = buffCnt
  last : ∀ block, s.dma.inFlight = some block →
    s.dma.started.getLast? = some (block, s.tMemBlockFifo.blockBytes block)

theorem Filling.content {buffCnt : ℕ} {s : TxStream β} (filling : Filling buffCnt s) :
    s.tByteFifo.content s.tMemBlockFifo = s.tMemBlockFifo.blockBytes s.ptByteFifo := by
  rw [ByteFifo.content, filling.buffer, filling.head,
    Ring.ringList_zero_head filling.wellFormed.length_le, MemBlkFifo.blockBytes, filling.size]

/-- A block that is free, queued or in flight is not the current one. -/
theorem WriteOwnedBy.ne_current {count : ℕ} {s : TxStream β} {free queue : List Addr}
    {block : Addr} (owned : WriteOwnedBy count s free queue) (current : OwnsCurrent s)
    (member : block ∈ free ++ queue ++ s.dma.inFlight.toList) : block ≠ s.ptByteFifo := by
  rintro rfl
  have owns : ownedBlock s = [s.ptByteFifo] := if_pos current
  have distinct := owned.nodup
  rw [← List.append_assoc, owns] at distinct
  exact List.disjoint_of_nodup_append distinct member (List.mem_singleton_self _)

/-- A call stores a byte exactly in the state that returns `fsm_rt_cpl`. -/
theorem InnermostEffect.storedByte {s : TxStream β} {tByte : β} {r : TxStream β × Ctl}
    (effect : InnermostEffect dmaTx s tByte r) :
    storedByte s tByte = acceptedByte r.2 tByte := by
  cases effect with
  | store here room => simp [ZeroStrm.storedByte, acceptedByte, here, room]
  | full here refused => simp [ZeroStrm.storedByte, acceptedByte, here, refused]
  | start here => simp [ZeroStrm.storedByte, acceptedByte, here]
  | append here => simp [ZeroStrm.storedByte, acceptedByte, here]
  | busy here set => simp [ZeroStrm.storedByte, acceptedByte, here]
  | acquire here clear => simp [ZeroStrm.storedByte, acceptedByte, here]
  | send here sends => simp [ZeroStrm.storedByte, acceptedByte, here]
  | park here noBlock => simp [ZeroStrm.storedByte, acceptedByte, here]
  | take here found => simp [ZeroStrm.storedByte, acceptedByte, here]

namespace Filled

variable {count buffCnt : ℕ} {s u : TxStream β} {free queue : List Addr} {block : Addr}
  {pool : MemBlkFifo β} {tByte : β} {enqueued : List β}

theorem inTransit_eq (filled : Filled count buffCnt s free queue) :
    queueBytes s queue ++ currentBytes s =
      (queue ++ ownedBlock s).flatMap s.tMemBlockFifo.blockBytes := by
  rw [List.flatMap_append, queueBytes, currentBytes, ownedBlock]
  by_cases current : OwnsCurrent s
  · rw [if_pos current, if_pos current, (filled.current current).content, List.flatMap_singleton]
  · rw [if_neg current, if_neg current, List.flatMap_nil]

theorem currentBytes_length (filled : Filled count buffCnt s free queue) :
    (currentBytes s).length ≤ buffCnt := by
  rw [currentBytes]
  split
  · next owns =>
      have filling := filled.current owns
      rw [ByteFifo.length_content, ← filling.capacity]
      exact filling.wellFormed.length_le
  · exact Nat.zero_le _

/-- The shown channel is the same where the bytes of those blocks are. -/
theorem txChannel_eq {free' queue' : List Addr} (filled : Filled count buffCnt s free queue)
    (filled' : Filled count buffCnt u free' queue') (started : u.dma.started = s.dma.started)
    (same : (queue' ++ ownedBlock u).flatMap u.tMemBlockFifo.blockBytes =
      (queue ++ ownedBlock s).flatMap s.tMemBlockFifo.blockBytes) :
    txChannel enqueued u queue' = txChannel enqueued s queue := by
  rw [← filled.inTransit_eq, ← filled'.inTransit_eq] at same
  rw [txChannel, txChannel, same, startedBytes, startedBytes, started]

/-! ### What the effects do -/

theorem frame (filled : Filled count buffCnt s free queue)
    (same : u.tMemBlockFifo = s.tMemBlockFifo ∧ u.tByteFifo = s.tByteFifo ∧
      u.ptByteFifo = s.ptByteFifo ∧ u.dma = s.dma)
    (owns : OwnsCurrent u ↔ OwnsCurrent s)
    (full : u.fsmEnqueue = ⟨Enqueue.flush, ⟨StreamWriteFlush.start⟩⟩ →
      s.tByteFifo.hwLength = buffCnt) :
    Filled count buffCnt u free queue ∧
      txChannel enqueued u queue = txChannel enqueued s queue := by
  obtain ⟨blocks, fifo, current, dma⟩ := same
  have ownedSame : ownedBlock u = ownedBlock s := by
    simp only [ownedBlock, owns, current]
  have held : Represents u.tMemBlockFifo free queue := blocks ▸ filled.owned.represents
  refine ⟨⟨filled.owned.congr held (congrArg DmaTx.inFlight dma) ownedSame, ?_, ?_, ?_, ?_⟩, ?_⟩
  · rw [blocks, dma]
    exact filled.size
  · intro ownsNow
    obtain ⟨wellFormed, buffer, capacity, head, size⟩ := filled.current (owns.mp ownsNow)
    constructor <;> simpa only [blocks, fifo, current]
  · rw [fifo]
    exact full
  · rw [blocks, dma]
    exact filled.last
  · simp only [txChannel, queueBytes, currentBytes, startedBytes, blocks, fifo, dma, owns]

/-- **A stored byte is put in.** -/
theorem stored {fifo : ByteFifo} (filled : Filled count buffCnt s free queue)
    (here : s.fsmEnqueue = ⟨Enqueue.byteFifoIn, ⟨StreamWriteFlush.start⟩⟩)
    (room : zeroStrmEnqueueByteFifo s.tMemBlockFifo s.tByteFifo tByte = (true, pool, fifo)) :
    Filled count buffCnt (byteStored s pool fifo) free queue ∧
      Move (txChannel enqueued s queue)
        (txChannel (enqueued ++ [tByte]) (byteStored s pool fifo) queue) := by
  have current : OwnsCurrent s := .inr (.inl (congrArg FsmEnqueue.chState here))
  have filling := filled.current current
  have took := ByteFifo.enqueue_took filling.wellFormed room
  have sizeNow : (byteStored s pool fifo).tMemBlockFifo.tSizeInByte =
      Function.update s.tMemBlockFifo.tSizeInByte s.ptByteFifo (fifo.hwLength) := by
    rw [took.length, ← filling.size, ← took.sizes]
    rfl
  have others : ∀ block ∈ free ++ queue ++ s.dma.inFlight.toList,
      (byteStored s pool fifo).tMemBlockFifo.tSizeInByte block =
        s.tMemBlockFifo.tSizeInByte block ∧
      (byteStored s pool fifo).tMemBlockFifo.blockBytes block =
        s.tMemBlockFifo.blockBytes block := by
    intro block member
    have other := filled.owned.ne_current current member
    have size : (byteStored s pool fifo).tMemBlockFifo.tSizeInByte block =
        s.tMemBlockFifo.tSizeInByte block := by
      rw [sizeNow]
      exact Function.update_of_ne other ..
    rw [← filling.buffer] at other
    exact ⟨size, blockBytes_congr size (took.memory block other)⟩
  refine ⟨⟨filled.owned.stored here room, ?_, fun _ => ⟨took.wellFormed,
    took.buffer.trans filling.buffer, took.size.trans filling.capacity,
    took.head.trans filling.head, ?_⟩, nofun, ?_⟩, ?_⟩
  · intro block member
    exact (others block member).1.trans (filled.size block member)
  · rw [sizeNow]
    exact Function.update_self ..
  · intro block inFlight
    have member : block ∈ free ++ queue ++ s.dma.inFlight.toList := by
      rw [show s.dma.inFlight = some block from inFlight]
      simp
    rw [(others block member).2]
    exact filled.last block inFlight
  · have stays : OwnsCurrent (byteStored s pool fifo) := .inl rfl
    have waiting : queueBytes (byteStored s pool fifo) queue = queueBytes s queue :=
      List.flatMap_congr fun block member =>
        (others block (List.mem_append_left _ (List.mem_append_right _ member))).2
    have filled' : currentBytes (byteStored s pool fifo) = currentBytes s ++ [tByte] := by
      rw [currentBytes, currentBytes, if_pos stays, if_pos current]
      exact took.content
    rw [txChannel, txChannel, waiting, filled', ← List.append_assoc]
    exact .put tByte

/-- **The append of a full block moves no byte.** -/
theorem appended (filled : Filled count buffCnt s free queue)
    (here : s.fsmEnqueue = ⟨Enqueue.flush, ⟨StreamWriteFlush.start⟩⟩) :
    Filled count buffCnt (blockAppended s) free (queue ++ [s.ptByteFifo]) ∧
      txChannel enqueued (blockAppended s) (queue ++ [s.ptByteFifo]) =
        txChannel enqueued s queue := by
  have current : OwnsCurrent s := .inr (.inr here)
  have filling := filled.current current
  have gone : ¬ OwnsCurrent (blockAppended s) := by simp [OwnsCurrent, blockAppended]
  have sizes : (blockAppended s).tMemBlockFifo.tSizeInByte = s.tMemBlockFifo.tSizeInByte :=
    tSizeInByte_append ..
  have bytes : (blockAppended s).tMemBlockFifo.blockBytes = s.tMemBlockFifo.blockBytes :=
    blockBytes_append ..
  have filled' : Filled count buffCnt (blockAppended s) free (queue ++ [s.ptByteFifo]) := by
    refine ⟨filled.owned.appended current, ?_, fun owns => absurd owns gone, ?_, ?_⟩
    · intro block member
      rw [sizes]
      by_cases isCurrent : block = s.ptByteFifo
      · rw [isCurrent, filling.size]
        exact filled.full here
      · have before : block ∈ free ++ queue ++ s.dma.inFlight.toList := by
          simpa [blockAppended, isCurrent] using member
        exact filled.size block before
    · intro place
      cases place
    · rw [bytes]
      exact filled.last
  refine ⟨filled', filled.txChannel_eq filled' rfl ?_⟩
  rw [bytes, ownedBlock, ownedBlock, if_neg gone, if_pos current, List.append_nil]

/-- **A start of the channel takes the bytes of the first block.** -/
theorem sends (filled : Filled count buffCnt s free queue) (idle : s.dma.inFlight = none)
    (sends : Sends dmaTx s u) :
    ∃ queue', Filled count buffCnt u free queue' ∧
      Move (txChannel enqueued s queue) (txChannel enqueued u queue') := by
  cases sends with
  | drained empty head =>
      have rests : Filled count buffCnt { s with ptFifoSend := none, bBusy := false } free queue ∧
          txChannel enqueued { s with ptFifoSend := none, bBusy := false } queue =
            txChannel enqueued s queue :=
        filled.frame ⟨rfl, rfl, rfl, rfl⟩ Iff.rfl filled.full
      exact ⟨queue, rests.1, rests.2 ▸ .rest⟩
  | @started block pool fetched =>
      obtain ⟨rest, rfl, owned⟩ := filled.owned.started idle fetched
      obtain ⟨sizes, memory, bytes⟩ := fetch_frame fetched
      refine ⟨rest, ⟨owned, ?_, ?_, filled.full, ?_⟩, ?_⟩
      · intro block' member
        refine (congrFun sizes block').trans (filled.size block' ?_)
        simp only [blockStarted, dmaTx, Option.toList_some, List.mem_append,
          List.mem_singleton] at member
        simp only [List.mem_append, List.mem_cons]
        tauto
      · intro owns
        obtain ⟨wellFormed, buffer, capacity, head, size⟩ := filled.current owns
        exact ⟨wellFormed, buffer, capacity, head, (congrFun sizes _).trans size⟩
      · intro block' inFlight
        obtain rfl : block = block' := Option.some.inj inFlight
        simp [blockStarted, dmaTx]
      · have first : (txChannel enqueued s (block :: rest)).inTransit =
            s.tMemBlockFifo.blockBytes block ++ (queueBytes s rest ++ currentBytes s) := by
          simp only [txChannel, queueBytes, List.flatMap_cons, List.append_assoc]
        have current : currentBytes (blockStarted dmaTx s block pool) = currentBytes s := by
          simp only [currentBytes, blockStarted, ByteFifo.content, memory]
          rfl
        have after : txChannel enqueued (blockStarted dmaTx s block pool) rest =
            { txChannel enqueued s (block :: rest) with
              inTransit := queueBytes s rest ++ currentBytes s
              received := startedBytes s ++ s.tMemBlockFifo.blockBytes block } := by
          rw [txChannel, current]
          simp [txChannel, queueBytes, startedBytes, blockStarted, dmaTx, bytes]
        rw [after]
        exact .take first

/-- **A block that is taken is empty.** -/
theorem taken (positive : 0 < buffCnt) (small : buffCnt < 2 ^ 16)
    (filled : Filled count buffCnt s free queue)
    (parked : ¬ OwnsCurrent s)
    (found : zeroStrmBlockNew s.tMemBlockFifo = (some block, pool)) :
    ∃ rest, Filled count buffCnt (blockTaken s block pool) rest queue ∧
      txChannel enqueued (blockTaken s block pool) queue = txChannel enqueued s queue := by
  obtain ⟨rest, rfl, owned⟩ := filled.owned.taken parked found
  have sizes : pool.tSizeInByte = s.tMemBlockFifo.tSizeInByte := by
    rw [← tSizeInByte_new s.tMemBlockFifo, found]
  have memory : pool.chMemory = s.tMemBlockFifo.chMemory := by
    rw [← chMemory_new s.tMemBlockFifo, found]
  have capacity : pool.tSizeInByte block = buffCnt := by
    rw [sizes]
    exact filled.size block (by simp)
  have fifo : (blockTaken s block pool).tByteFifo = ⟨block, buffCnt, 0, 0, 0⟩ := by
    rw [blockTaken, capacity, u16_of_lt small]
    exact congrArg Prod.snd (ByteFifo.init_empty block positive)
  have sizeNow : (blockTaken s block pool).tMemBlockFifo.tSizeInByte =
      Function.update s.tMemBlockFifo.tSizeInByte block 0 := by
    rw [← sizes]
    rfl
  have others : ∀ block' ∈ rest ++ queue ++ s.dma.inFlight.toList,
      (blockTaken s block pool).tMemBlockFifo.tSizeInByte block' =
        s.tMemBlockFifo.tSizeInByte block' ∧
      (blockTaken s block pool).tMemBlockFifo.blockBytes block' =
        s.tMemBlockFifo.blockBytes block' := by
    intro block' member
    have distinct := filled.owned.nodup
    rw [← List.append_assoc, List.cons_append, List.cons_append, List.cons_append,
      List.nodup_cons] at distinct
    have other : block' ≠ block := fun same =>
      distinct.1 (List.mem_append_left _ (same ▸ member))
    have size : (blockTaken s block pool).tMemBlockFifo.tSizeInByte block' =
        s.tMemBlockFifo.tSizeInByte block' := by
      rw [sizeNow]
      exact Function.update_of_ne other ..
    exact ⟨size, blockBytes_congr size (congrFun memory block')⟩
  have owns : OwnsCurrent (blockTaken s block pool) := .inr (.inl rfl)
  have empty : (blockTaken s block pool).tMemBlockFifo.tSizeInByte block = 0 := by
    rw [sizeNow]
    exact Function.update_self ..
  have filled' : Filled count buffCnt (blockTaken s block pool) rest queue := by
    refine ⟨owned, ?_, ?_, ?_, ?_⟩
    · intro block' member
      rw [(others block' member).1]
      exact filled.size block' (List.mem_cons_of_mem block member)
    · intro _
      constructor
      · rw [fifo]
        exact ByteFifo.wellFormed_empty block positive small
      · rw [fifo]
        rfl
      · rw [fifo]
      · rw [fifo]
      · rw [fifo]
        exact empty
    · intro place
      cases place
    · intro block' inFlight
      have member : block' ∈ rest ++ queue ++ s.dma.inFlight.toList := by
        rw [show s.dma.inFlight = some block' from inFlight]
        simp
      rw [(others block' member).2]
      exact filled.last block' inFlight
  refine ⟨rest, filled', filled.txChannel_eq filled' rfl ?_⟩
  have waiting : queue.flatMap (blockTaken s block pool).tMemBlockFifo.blockBytes =
      queue.flatMap s.tMemBlockFifo.blockBytes :=
    List.flatMap_congr fun block' member =>
      (others block' (List.mem_append_left _ (List.mem_append_right _ member))).2
  have nothing : (blockTaken s block pool).tMemBlockFifo.blockBytes block = [] := by
    rw [MemBlkFifo.blockBytes, empty]
    rfl
  rw [ownedBlock, ownedBlock, if_pos owns, if_neg parked, List.flatMap_append, waiting,
    List.flatMap_singleton, List.append_nil]
  exact (congrArg _ nothing).trans (List.append_nil _)

/-- A block whose transfer ended is free and keeps its size. -/
theorem freed (filled : Filled count buffCnt s free queue) (inFlight : s.dma.inFlight = some block)
    (sending : s.ptFifoSend = some block) :
    Filled count buffCnt (cplFreed s) (block :: free) queue ∧
      txChannel enqueued (cplFreed s) queue = txChannel enqueued s queue := by
  have owned := filled.owned.freed inFlight sending
  have sizes : (cplFreed s).tMemBlockFifo.tSizeInByte = s.tMemBlockFifo.tSizeInByte :=
    tSizeInByte_free ..
  have bytes : (cplFreed s).tMemBlockFifo.blockBytes = s.tMemBlockFifo.blockBytes :=
    blockBytes_free ..
  have filled' : Filled count buffCnt (cplFreed s) (block :: free) queue := by
    refine ⟨owned, ?_, ?_, filled.full, nofun⟩
    · intro block' member
      rw [sizes]
      refine filled.size block' ?_
      rw [inFlight]
      simp only [cplFreed, DmaTx.complete, Option.toList_none, List.append_nil, List.cons_append,
        List.mem_cons, List.mem_append] at member
      simp only [Option.toList_some, List.mem_append, List.mem_singleton]
      tauto
    · intro owns
      obtain ⟨wellFormed, buffer, capacity, head, size⟩ := filled.current owns
      exact ⟨wellFormed, buffer, capacity, head, (congrFun sizes _).trans size⟩
  refine ⟨filled', filled.txChannel_eq filled' rfl ?_⟩
  rw [bytes]
  rfl

theorem still {free' queue' : List Addr}
    (rests : Filled count buffCnt u free' queue' ∧
      txChannel enqueued u queue' = txChannel enqueued s queue) :
    ∃ free' queue', Filled count buffCnt u free' queue' ∧
      Move (txChannel enqueued s queue) (txChannel (enqueued ++ []) u queue') := by
  refine ⟨free', queue', rests.1, ?_⟩
  rw [List.append_nil, rests.2]
  exact .rest

/-- **Every state of a call is a move of the channel.** -/
theorem innermost {r : TxStream β × Ctl} (positive : 0 < buffCnt) (small : buffCnt < 2 ^ 16)
    (filled : Filled count buffCnt s free queue) (busy : Busy s)
    (effect : InnermostEffect dmaTx s tByte r) :
    ∃ free' queue', Filled count buffCnt r.1 free' queue' ∧
      Move (txChannel enqueued s queue)
        (txChannel (enqueued ++ acceptedByte r.2 tByte) r.1 queue') := by
  cases effect with
  | start here =>
      exact still (filled.frame ⟨rfl, rfl, rfl, rfl⟩ (by simp [OwnsCurrent, here])
        (by intro place; cases place))
  | store here room => exact ⟨free, queue, filled.stored here room⟩
  | full here refused =>
      have filling := filled.current (.inr (.inl (congrArg FsmEnqueue.chState here)))
      have isFull : s.tByteFifo.hwLength = s.tByteFifo.hwSize := by
        by_contra room
        rw [(ByteFifo.enqueue_accepts_iff filling.wellFormed).mpr room] at refused
        cases refused
      exact still (filled.frame ⟨rfl, rfl, rfl, rfl⟩ (by simp [OwnsCurrent, here])
        fun _ => isFull.trans filling.capacity)
  | append here => exact still (filled.appended here)
  | busy here set =>
      exact still (filled.frame ⟨rfl, rfl, rfl, rfl⟩ (by simp [OwnsCurrent, here])
        (by intro place; cases place))
  | acquire here clear =>
      exact still (filled.frame ⟨rfl, rfl, rfl, rfl⟩ (by simp [OwnsCurrent, here])
        (by intro place; cases place))
  | @send u here sends =>
      obtain ⟨queue', sent, move⟩ := filled.sends (busy.alone here) sends
      obtain ⟨filled', same⟩ : Filled count buffCnt
          { u with fsmEnqueue := ⟨Enqueue.getByteFifo, ⟨StreamWriteFlush.start⟩⟩ } free queue' ∧
        txChannel enqueued
            { u with fsmEnqueue := ⟨Enqueue.getByteFifo, ⟨StreamWriteFlush.start⟩⟩ } queue' =
          txChannel enqueued u queue' := by
        refine sent.frame ⟨rfl, rfl, rfl, rfl⟩ ?_ (by intro place; cases place)
        simp [OwnsCurrent, sends.frame.1, here]
      refine ⟨free, queue', filled', ?_⟩
      rw [← same] at move
      simpa [acceptedByte] using move
  | park here noBlock => exact still ⟨filled, rfl⟩
  | take here found =>
      obtain ⟨rest, filled', same⟩ :=
        filled.taken positive small (by simp [OwnsCurrent, here]) found
      exact still ⟨filled', same⟩

/-- The sizes of the blocks are kept, whatever was sent. -/
theorem innermost_kept {r : TxStream β × Ctl} (positive : 0 < buffCnt) (small : buffCnt < 2 ^ 16)
    (filled : Filled count buffCnt s free queue) (busy : Busy s)
    (effect : InnermostEffect dmaTx s tByte r) :
    ∃ free' queue', Filled count buffCnt r.1 free' queue' := by
  obtain ⟨free', queue', filled', -⟩ : ∃ free' queue', _ ∧ Move (txChannel [] s queue) _ :=
    filled.innermost positive small busy effect
  exact ⟨free', queue', filled'⟩

/-- **So is the interrupt of a transfer.** -/
theorem completed (filled : Filled count buffCnt s free queue) (busy : Busy s)
    (inFlight : s.dma.inFlight = some block) :
    ∃ free' queue', Filled count buffCnt (completed s) free' queue' ∧
      Move (txChannel enqueued s queue) (txChannel enqueued (completed s) queue') := by
  obtain ⟨filled', same⟩ := filled.freed inFlight (busy.sending block inFlight)
  obtain ⟨queue', sent, move⟩ := filled'.sends rfl (completed_sends busy.auto busy.nothing)
  exact ⟨_, queue', sent, same ▸ move⟩

end Filled

/-! ## Runs -/

/-- The channel that a state of the system shows. -/
def TxShows (count buffCnt : ℕ) (s : WriteSystem β) (c : Channel β) : Prop :=
  ∃ free queue, BusyInv s ∧ Filled count buffCnt s.strm free queue ∧
    s.accepted = s.enqueued ∧ c = txChannel s.enqueued s.strm queue

/-- **The sender refines a channel.** -/
theorem write_refines {count buffCnt : ℕ} (positive : 0 < buffCnt) (small : buffCnt < 2 ^ 16) :
    Refines (WriteStep : StepRel (WriteSystem β) _) (TxShows count buffCnt) := by
  rintro s e t c ⟨free, queue, inv, filled, accepted, rfl⟩ - step
  have inv' := inv.kept step
  cases step with
  | write idle tByte => exact ⟨_, .rest, free, queue, inv', filled, accepted, rfl⟩
  | @step _ tByte calling =>
      have effect := innermostState_effect dmaTx tByte inv.busy.place
      obtain ⟨free', queue', filled', move⟩ := filled.innermost positive small inv.busy effect
      rw [← effect.storedByte] at move
      refine ⟨_, move, free', queue', inv', filled', ?_, rfl⟩
      simp only [callStep, accepted, effect.storedByte]
  | complete inFlight =>
      obtain ⟨free', queue', filled', move⟩ := filled.completed inv.busy inFlight
      exact ⟨_, move, free', queue', inv', filled', accepted, rfl⟩

section Runs

variable {cfg : StreamWriteCfg} {m : MemBlkFifo β} {es : List (WriteEvent β)} {t : WriteSystem β}

theorem InitialWrite.shows {s : TxStream β} (initial : InitialWrite cfg DmaTx.reset s)
    (positive : 0 < cfg.writeBuffCnt) (small : cfg.writeBuffCnt < 2 ^ 16) :
    ∃ c, TxShows cfg.chCnt cfg.writeBuffCnt ⟨s, none, [], [], []⟩ c ∧ c.Lossless := by
  have fifo := initial.fifo positive small
  have owns : OwnsCurrent s := .inl (congrArg FsmEnqueue.chState initial.fsmEnqueue)
  have idle : s.dma.inFlight = none := congrArg DmaTx.inFlight initial.dma
  refine ⟨_, ⟨_, [], initial.busyInv, ⟨initial.owned, ?_, ?_, ?_, ?_⟩, rfl, rfl⟩, ?_⟩
  · intro block member
    refine initial.size block ?_
    simpa [idle] using member
  · intro _
    constructor
    · rw [fifo]
      exact ByteFifo.wellFormed_empty _ positive small
    · rw [fifo, initial.current]
    · rw [fifo]
    · rw [fifo]
    · rw [fifo, initial.currentSize]
  · rw [initial.fsmEnqueue]
    nofun
  · rw [idle]
    nofun
  · have nothing : currentBytes s = [] := by
      rw [currentBytes, if_pos owns, ByteFifo.content_eq_nil_iff, fifo]
    have noStart : startedBytes s = [] := by
      rw [startedBytes, initial.dma]
      rfl
    simp [Channel.Lossless, txChannel, queueBytes, nothing, noStart]

theorem WriteRun.shows (positive : 0 < cfg.writeBuffCnt) (small : cfg.writeBuffCnt < 2 ^ 16)
    (run : WriteRun WriteStep cfg m es t) :
    ∃ c, TxShows cfg.chCnt cfg.writeBuffCnt t c ∧ c.Lossless := by
  obtain ⟨s, init, run⟩ := run
  have initial := zeroStrmWriteInit_spec init
  exact (write_refines positive small).lossless run (initial.shows positive small)

/-- **Nothing is lost, doubled or reordered on the way to the DMA.** In every state of every run,
the bytes of the blocks that were started, of the queued blocks and of the current block are the
bytes that were stored, which are the bytes of the calls that returned true. The block in flight
still holds the bytes it was started with. -/
theorem transmission (positive : 0 < cfg.writeBuffCnt) (small : cfg.writeBuffCnt < 2 ^ 16)
    (run : WriteRun WriteStep cfg m es t) :
    ∃ free queue, Represents t.strm.tMemBlockFifo free queue ∧
      startedBytes t.strm ++ (queueBytes t.strm queue ++ currentBytes t.strm) = t.enqueued ∧
      t.enqueued = t.accepted ∧
      ∀ block, t.strm.dma.inFlight = some block →
        t.strm.dma.started.getLast? = some (block, t.strm.tMemBlockFifo.blockBytes block) := by
  obtain ⟨_, ⟨free, queue, -, filled, accepted, rfl⟩, lossless⟩ := run.shows positive small
  exact ⟨free, queue, filled.owned.represents, lossless.symm, accepted.symm, filled.last⟩

/-- **One transfer at a time, and no wake-up is lost.** In every state of every run: the DMA was
never started while a transfer was in flight; a transfer in flight has `bBusy` set and is that of
`ptFifoSend`; the blocks freed by the complete events, with the one in flight, are the blocks
started, in order. Whatever happens next, a complete event puts exactly the block in flight on the
free list, and no other event puts a block there. Outside of a call `bBusy` is set exactly while a
transfer is in flight, and a clear `bBusy` means that nothing is queued, so the accepted bytes
that the DMA was not given are those of the current block. -/
theorem busyProtocol (run : WriteRun WriteStep cfg m es t) :
    t.strm.dma.overlapped = false ∧
      (∀ block, t.strm.dma.inFlight = some block →
        t.strm.bBusy = true ∧ t.strm.ptFifoSend = some block) ∧
      t.strm.dma.started.map (fun start => some start.1) =
        t.freed ++ t.strm.dma.inFlight.toList.map some ∧
      (∀ e u, WriteStep t e u → ∃ free queue free' queue',
        Represents t.strm.tMemBlockFifo free queue ∧
          Represents u.strm.tMemBlockFifo free' queue' ∧ FreesInFlight t u free free' e) ∧
      (t.calling = none →
        (t.strm.bBusy = true ↔ t.strm.dma.inFlight.isSome) ∧
        (t.strm.bBusy = false →
          (∃ free, Represents t.strm.tMemBlockFifo free []) ∧ t.strm.dma.inFlight = none ∧
          (0 < cfg.writeBuffCnt → cfg.writeBuffCnt < 2 ^ 16 →
            t.accepted = startedBytes t.strm ++ currentBytes t.strm ∧
              (currentBytes t.strm).length ≤ cfg.writeBuffCnt))) := by
  obtain ⟨protocol, free, queue, owned⟩ := run.ownedInv
  have busy := protocol.busy
  refine ⟨busy.single, fun block inFlight => ⟨?_, busy.sending block inFlight⟩, protocol.freed,
    ?_, fun outside => ⟨protocol.flag_iff outside, ?_⟩⟩
  · exact busy.flag.mpr (.inl (by rw [inFlight]; rfl))
  · intro e u step
    obtain ⟨free', queue', owned', frees⟩ := owned.step protocol step
    exact ⟨free, queue, free', queue', owned.represents, owned'.represents, frees⟩
  intro clear
  have idle : t.strm.dma.inFlight = none := by
    have flag := protocol.flag_iff outside
    rw [clear] at flag
    simpa using flag
  have head := owned.represents.fifo.start
  rw [(protocol.still outside idle).2] at head
  obtain rfl : queue = [] := List.head?_eq_none_iff.mp head.symm
  refine ⟨⟨free, owned.represents⟩, idle, ?_⟩
  intro positive small
  obtain ⟨_, ⟨free', queue', -, filled, accepted, rfl⟩, lossless⟩ := run.shows positive small
  obtain ⟨-, rfl⟩ := owned.represents.unique filled.owned.represents
  exact ⟨accepted.trans lossless, filled.currentBytes_length⟩

end Runs

/-- The channel of a sender with blocks of one byte, after a write and a start. -/
theorem transmission_twoBlocks :
    ∃ t free queue, WriteRun WriteStep (smallWriteCfg 2) zeroMemory sendingEvents t ∧
      Represents t.strm.tMemBlockFifo free queue ∧
      startedBytes t.strm ++ (queueBytes t.strm queue ++ currentBytes t.strm) = t.accepted := by
  obtain ⟨t, run, -⟩ := sendingEvents_run
  obtain ⟨free, queue, held, bytes, same, -⟩ := transmission (by decide) (by decide) run
  exact ⟨t, free, queue, run, held, bytes.trans same⟩

/-- After those events nothing is queued, and one byte waits in the current block. -/
theorem busyProtocol_twoBlocks :
    ∃ t, WriteRun WriteStep (smallWriteCfg 2) zeroMemory sendingEvents t ∧
      t.strm.dma.inFlight = none ∧
      t.accepted = startedBytes t.strm ++ currentBytes t.strm := by
  obtain ⟨t, run, returned, clear⟩ := sendingEvents_run
  obtain ⟨-, -, -, -, outside⟩ := busyProtocol run
  obtain ⟨-, idle, bytes⟩ := (outside returned).2 clear
  exact ⟨t, run, idle, (bytes (by decide) (by decide)).1⟩

end ZeroStrm
