import ZeroStrm.Read.Runs

/-!
# The receive channel, and what an event can do

`DmaRx` is the channel as the callbacks of a configuration drive it. `fnDmaStartRx` makes later
bytes land in the block from its first byte on, for as many bytes as the size of the block
says, and `fnDmaCntGet` returns the remaining count. A byte that arrives when the count is zero
is dropped. The channel also keeps a history: the bytes it has stored, the blocks it was
started on with their sizes at that moment, and how much had been stored when a block was last
handed to it.

An event acts on the blocks, the byte queue and the channel in one of four ways: a byte
arrives, `dequeue` runs a state, a flush runs, or they stay as they are (`readStep_effect`). A
state of `dequeue` acts in one of five ways (`dequeueState_effect`). Every invariant of the
receiver is proved from these two inversions.
-/

set_option autoImplicit false

namespace ZeroStrm

open EventRuns

/-! ## The channel -/

/-- The receive channel and its history. -/
structure DmaRx (β : Type) where
  /-- The block that bytes land in. -/
  target : Addr
  /-- The length of the transfer. -/
  length : ℕ
  /-- The bytes of the transfer that are stored. -/
  count : ℕ
  /-- All bytes stored so far. -/
  stored : List β
  /-- The blocks handed to `fnDmaStartRx`, with their sizes at that moment. -/
  starts : List (Addr × ℕ)
  /-- How many bytes had been stored when a block was last handed to `fnDmaStartRx`. -/
  handedAt : Addr → Option ℕ

variable {β : Type}

/-- A channel that was never started. -/
def DmaRx.reset : DmaRx β := ⟨0, 0, 0, [], [], fun _ => none⟩

/-- Start the channel on a block. -/
def DmaRx.start (m : MemBlkFifo β) (block : Addr) (d : DmaRx β) : DmaRx β :=
  { target := block
    length := m.tSizeInByte block
    count := 0
    stored := d.stored
    starts := d.starts ++ [(block, m.tSizeInByte block)]
    handedAt := Function.update d.handedAt block (some d.stored.length) }

/-- The callbacks and the behaviour of the channel. -/
def dmaRx : RxHardware β (DmaRx β) β where
  fnDmaStartRx := DmaRx.start
  fnDmaCntGet d := (d.length - d.count, d)
  arrive byte m d :=
    if d.count < d.length then
      (m.setByte d.target d.count byte,
        { d with count := d.count + 1, stored := d.stored ++ [byte] })
    else (m, d)

/-- A receiver on that channel. -/
abbrev RxStream (β : Type) := StreamRead β (DmaRx β)

/-- The stream after a byte arrived. -/
def arrived (s : RxStream β) (byte : β) : RxStream β :=
  { s with
    tMemBlockFifo := (dmaRx.arrive byte s.tMemBlockFifo s.dma).1
    dma := (dmaRx.arrive byte s.tMemBlockFifo s.dma).2 }

/-- A stored byte goes to the first free cell of the receiving block. -/
theorem arrived_room {s : RxStream β} (byte : β) (room : s.dma.count < s.dma.length) :
    arrived s byte =
      { s with
        tMemBlockFifo := s.tMemBlockFifo.setByte s.dma.target s.dma.count byte
        dma := { s.dma with count := s.dma.count + 1, stored := s.dma.stored ++ [byte] } } := by
  simp only [arrived, dmaRx, if_pos room]

theorem arrived_full {s : RxStream β} (byte : β) (full : ¬ s.dma.count < s.dma.length) :
    arrived s byte = s := by
  simp only [arrived, dmaRx, if_neg full]

theorem tSizeInByte_arrived (s : RxStream β) (byte : β) :
    (arrived s byte).tMemBlockFifo.tSizeInByte = s.tMemBlockFifo.tSizeInByte := by
  simp only [arrived, dmaRx]
  split_ifs <;> rfl

theorem chMemory_arrived (s : RxStream β) (byte : β) {block : Addr}
    (other : block ≠ s.dma.target) :
    (arrived s byte).tMemBlockFifo.chMemory block = s.tMemBlockFifo.chMemory block := by
  simp only [arrived, dmaRx]
  split_ifs
  · exact Function.update_of_ne other ..
  · rfl

theorem handedAt_arrived (s : RxStream β) (byte : β) :
    (arrived s byte).dma.handedAt = s.dma.handedAt := by
  simp only [arrived, dmaRx]
  split_ifs <;> rfl

/-- A flush on that channel. -/
abbrev rxFlushed (s : RxStream β) : RxStream β := flushed dmaRx.toDmaRxIO s

/-- The count a flush would read now. -/
abbrev rxReceived (s : RxStream β) : ℕ := received dmaRx.toDmaRxIO s

/-- Whether an event runs a flush through `GET_BLOCK`: every DMA-half event does, and a tick
that is a timeout. -/
def flushes (s : RxStream β) : ReadEvent β → Bool
  | .dmaHalf => true
  | .tick => (isReallyTimeOut dmaRx.toDmaRxIO s).1
  | _ => false

/-! ## What an event does to the data -/

/-- Two streams with the same blocks, byte queue, holders and channel. The flags, the timer and
the flush machines may differ. -/
structure SameData (s s' : RxStream β) : Prop where
  pool : s'.tMemBlockFifo = s.tMemBlockFifo
  fifo : s'.tByteFifo = s.tByteFifo
  dmaBlock : s'.ptByteFifoDmaRx = s.ptByteFifoDmaRx
  dequeue : s'.fsmDequeue = s.fsmDequeue
  total : s'.hwDmaSizeTotal = s.hwDmaSizeTotal
  dma : s'.dma = s.dma

theorem SameData.symm {s s' : RxStream β} (same : SameData s s') : SameData s' s :=
  ⟨same.pool.symm, same.fifo.symm, same.dmaBlock.symm, same.dequeue.symm, same.total.symm,
    same.dma.symm⟩

theorem SameData.trans {s t u : RxStream β} (first : SameData s t) (second : SameData t u) :
    SameData s u :=
  ⟨second.pool.trans first.pool, second.fifo.trans first.fifo,
    second.dmaBlock.trans first.dmaBlock, second.dequeue.trans first.dequeue,
    second.total.trans first.total, second.dma.trans first.dma⟩

theorem SameData.isReallyTimeOut (s : RxStream β) :
    SameData s (ZeroStrm.isReallyTimeOut dmaRx.toDmaRxIO s).2 := by
  obtain ⟨_, _, dma, read, changed⟩ := isReallyTimeOut_changes dmaRx.toDmaRxIO s
  have kept : dma = s.dma := read.elim id id
  rw [changed, kept]
  exact ⟨rfl, rfl, rfl, rfl, rfl, rfl⟩

/-- The count depends on the length of the channel and on its state. -/
theorem SameData.received {s s' : RxStream β} (same : SameData s s') :
    rxReceived s' = rxReceived s := by
  simp only [ZeroStrm.received, getDmaDataCnt, same.total, same.dma]

theorem SameData.flushed {s s' : RxStream β} (same : SameData s s') :
    SameData (rxFlushed s) (rxFlushed s') := by
  obtain ⟨pool, fifo, dmaBlock, dequeue, total, dma⟩ := same
  cases s
  cases s'
  dsimp only at pool fifo dmaBlock dequeue total dma
  subst pool fifo dmaBlock dequeue total dma
  exact ⟨rfl, rfl, rfl, rfl, rfl, rfl⟩

/-- What an event does to the blocks, the byte queue and the channel. -/
inductive ReadEffect (s : ReadSystem β (DmaRx β)) :
    ReadEvent β → ReadSystem β (DmaRx β) → Prop where
  | arrive (byte : β) : ReadEffect s (.arrive byte) ⟨arrived s.strm byte, s.returned⟩
  | read : ReadEffect s .read
      ⟨(dequeueState (s.strm, none)).1.1,
        s.returned ++ returnedByte (dequeueState (s.strm, none))⟩
  | flush {e : ReadEvent β} {u : RxStream β} (ran : flushes s.strm e = true)
      (same : SameData (rxFlushed s.strm) u) : ReadEffect s e ⟨u, s.returned⟩
  | idle {e : ReadEvent β} {u : RxStream β} (ran : flushes s.strm e = false)
      (same : SameData s.strm u) : ReadEffect s e ⟨u, s.returned⟩

/-- **The four effects of an event.** -/
theorem readStep_effect {s : ReadSystem β (DmaRx β)} (quiet : Quiet s.strm) (e : ReadEvent β) :
    ReadEffect s e (readStep dmaRx s e) := by
  cases e with
  | arrive byte => exact .arrive byte
  | dmaHalf =>
      have toggled : SameData s.strm { s.strm with bBusy := true, bUartIdle := false } :=
        ⟨rfl, rfl, rfl, rfl, rfl, rfl⟩
      simp only [readStep, zeroStrmUartDmaGetDataInsertToDmaIrqEventHandler,
        flushHt_eq quiet.flushHt]
      exact .flush rfl (toggled.flushed.trans ⟨rfl, rfl, rfl, rfl, rfl, rfl⟩)
  | uartIdle => exact .idle rfl ⟨rfl, rfl, rfl, rfl, rfl, rfl⟩
  | tick =>
      have counted := SameData.isReallyTimeOut s.strm
      simp only [readStep, zeroStrmUartWaitTimeOutInsertToHardTimerIrqEventHandler]
      cases really : (isReallyTimeOut dmaRx.toDmaRxIO s.strm).1 with
      | false =>
          rw [timeOut_not_really quiet.timeOut really]
          exact .idle really (counted.trans ⟨rfl, rfl, rfl, rfl, rfl, rfl⟩)
      | true =>
          rw [timeOut_really quiet.timeOut really]
          exact .flush really (counted.flushed.trans ⟨rfl, rfl, rfl, rfl, rfl, rfl⟩)
  | read => exact .read

theorem ReadStep.effect {s t : ReadSystem β (DmaRx β)} {e : ReadEvent β} (quiet : Quiet s.strm)
    (step : ReadStep dmaRx s e t) : ReadEffect s e t :=
  step ▸ readStep_effect quiet e

theorem ReadEffect.flushed {s t : ReadSystem β (DmaRx β)} {e : ReadEvent β}
    (effect : ReadEffect s e t) (ran : flushes s.strm e = true) :
    SameData (rxFlushed s.strm) t.strm ∧ t.returned = s.returned := by
  cases effect with
  | arrive byte => cases ran
  | read => cases ran
  | flush _ same => exact ⟨same, rfl⟩
  | idle rests => rw [ran] at rests; cases rests

/-! ## What a state of `dequeue` does -/

/-- What a state of `dequeue` can do to the stream. -/
inductive DequeueEffect {D : Type} (s : StreamRead β D) :
    (StreamRead β D × Option β) × Ctl → Prop where
  | start (at_start : s.fsmDequeue.chState = Dequeue.start) :
      DequeueEffect s
        (({ s with fsmDequeue := ⟨Dequeue.byteFifoOut, s.fsmDequeue.ptByteFifo⟩ }, none), .goto)
  | byte {byte : β} {fifo : ByteFifo} (at_out : s.fsmDequeue.chState = Dequeue.byteFifoOut)
      (deq : zeroStrmDequeueByteFifo s.tMemBlockFifo s.tByteFifo = (some byte, fifo)) :
      DequeueEffect s
        (({ s with
            tByteFifo := fifo
            fsmDequeue := ⟨Dequeue.start, s.fsmDequeue.ptByteFifo⟩ }, some byte), .ret .cpl)
  | free {fifo : ByteFifo} (at_out : s.fsmDequeue.chState = Dequeue.byteFifoOut)
      (deq : zeroStrmDequeueByteFifo s.tMemBlockFifo s.tByteFifo = (none, fifo)) :
      DequeueEffect s
        (({ s with
            tByteFifo := fifo
            tMemBlockFifo := zeroStrmBlockFree s.tMemBlockFifo (some s.fsmDequeue.ptByteFifo)
            fsmDequeue := ⟨Dequeue.getByteFifo, s.fsmDequeue.ptByteFifo⟩ }, none), .goto)
  | wait {pool : MemBlkFifo β} (at_get : s.fsmDequeue.chState = Dequeue.getByteFifo)
      (fetched : zeroStrmBlockFetch s.tMemBlockFifo = (none, pool)) :
      DequeueEffect s (({ s with tMemBlockFifo := pool }, none), .ret .onGoing)
  | fetch {block : Addr} {pool : MemBlkFifo β}
      (at_get : s.fsmDequeue.chState = Dequeue.getByteFifo)
      (fetched : zeroStrmBlockFetch s.tMemBlockFifo = (some block, pool)) :
      DequeueEffect s
        (({ s with
            tMemBlockFifo := pool
            tByteFifo := (zeroStrmInitByteFifoFull s.tByteFifo (some block)
              (u16 (pool.tSizeInByte block))).2
            fsmDequeue := ⟨Dequeue.byteFifoOut, block⟩ }, none), .goto)

/-- `dequeue` is in one of three states. -/
theorem dequeue_places {chState : ℕ} (valid : chState ≤ Dequeue.getByteFifo) :
    chState = Dequeue.start ∨ chState = Dequeue.byteFifoOut ∨ chState = Dequeue.getByteFifo := by
  dsimp only [Dequeue.start, Dequeue.byteFifoOut, Dequeue.getByteFifo] at valid ⊢
  omega

/-- **The five effects of a state of `dequeue`.** -/
theorem dequeueState_effect {D : Type} {s : StreamRead β D}
    (valid : s.fsmDequeue.chState ≤ Dequeue.getByteFifo) :
    DequeueEffect s (dequeueState (s, none)) := by
  rcases dequeue_places valid with at_start | at_out | at_get
  · simp only [dequeueState, at_start]
    exact .start at_start
  · obtain ⟨⟨byte | byte, fifo⟩, deq⟩ :
        ∃ r, zeroStrmDequeueByteFifo s.tMemBlockFifo s.tByteFifo = r := ⟨_, rfl⟩
    · simp only [dequeueState, at_out, deq]
      exact .free at_out deq
    · simp only [dequeueState, at_out, deq]
      exact .byte at_out deq
  · obtain ⟨⟨block | block, pool⟩, fetched⟩ :
        ∃ r, zeroStrmBlockFetch s.tMemBlockFifo = r := ⟨_, rfl⟩
    · simp only [dequeueState, at_get, fetched]
      exact .wait at_get fetched
    · simp only [dequeueState, at_get, fetched]
      exact .fetch at_get fetched

theorem DequeueEffect.frame {D : Type} {s : StreamRead β D}
    {r : (StreamRead β D × Option β) × Ctl} (effect : DequeueEffect s r) :
    r.1.1.dma = s.dma ∧ r.1.1.ptByteFifoDmaRx = s.ptByteFifoDmaRx ∧
      r.1.1.tMemBlockFifo.chMemory = s.tMemBlockFifo.chMemory := by
  cases effect with
  | start at_start => exact ⟨rfl, rfl, rfl⟩
  | byte at_out deq => exact ⟨rfl, rfl, rfl⟩
  | free at_out deq => exact ⟨rfl, rfl, chMemory_free ..⟩
  | wait at_get fetched =>
      exact ⟨rfl, rfl, (fetch_frame fetched).2.1⟩
  | fetch at_get fetched =>
      exact ⟨rfl, rfl, (fetch_frame fetched).2.1⟩

end ZeroStrm
