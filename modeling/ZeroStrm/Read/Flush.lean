import ZeroStrm.Read.Stream

/-!
# What a flush does

From `GET_BLOCK` on, a flush takes a block off the free list and reads the count. With nothing
received it puts the block back and clears `bBusy`. Otherwise it appends the receiving block to
the queue and, if it has a new block, starts the channel on that. `flushed` is the stream
after it.

A flush that starts at `START` does this only when it finds `bBusy` clear, and sets it first
(`streamReadFlush_idle`, `streamReadFlush_busy`). The flush that `time_out` calls does not:
the numbers of `FLUSH` and `GET_BLOCK` are equal, and the shared state variable makes it begin
at `GET_BLOCK` (`timeOut_really`).
-/

set_option autoImplicit false

namespace ZeroStrm

variable {β D : Type} {io : DmaRxIO β D} {s : StreamRead β D} {this : FsmStreamReadFlush}

/-! ## The flush from `GET_BLOCK` on

A flush changes four members of the stream. Each is a function of the stream before. -/

/-- The count a flush reads. -/
def received (io : DmaRxIO β D) (s : StreamRead β D) : ℕ := (getDmaDataCnt io s).1

/-- The channel after its count was read. -/
def countedDma (io : DmaRxIO β D) (s : StreamRead β D) : D := (io.fnDmaCntGet s.dma).2

/-- The block a flush takes, null when the pool is empty. -/
def newBlock (s : StreamRead β D) : Ptr := (zeroStrmBlockNew s.tMemBlockFifo).1

/-- The block manager after `GET_BLOCK`: a block that was found has the channel's length as its
size. -/
def newPool (s : StreamRead β D) : MemBlkFifo β :=
  let new := zeroStrmBlockNew s.tMemBlockFifo
  match new.1 with
  | some block => new.2.setSize block s.hwDmaSizeTotal
  | none => new.2

/-- The block manager after the flush. -/
def flushedPool (io : DmaRxIO β D) (s : StreamRead β D) : MemBlkFifo β :=
  if received io s = 0 then zeroStrmBlockFree (newPool s) (newBlock s)
  else
    (zeroStrmBlockAppend ((newPool s).setSize s.ptByteFifoDmaRx (received io s))
      (some s.ptByteFifoDmaRx)).2

/-- The receiving block after the flush. -/
def flushedDmaRx (io : DmaRxIO β D) (s : StreamRead β D) : Addr :=
  if received io s = 0 then s.ptByteFifoDmaRx else (newBlock s).getD s.ptByteFifoDmaRx

/-- The channel after the flush. -/
def flushedDma (io : DmaRxIO β D) (s : StreamRead β D) : D :=
  if received io s = 0 then countedDma io s
  else
    match newBlock s with
    | some block => io.fnDmaStartRx (flushedPool io s) block (countedDma io s)
    | none => countedDma io s

/-- The stream after a flush that begins at `GET_BLOCK`. -/
def flushed (io : DmaRxIO β D) (s : StreamRead β D) : StreamRead β D :=
  { s with
    bBusy := if received io s = 0 then false else s.bBusy
    tMemBlockFifo := flushedPool io s
    ptByteFifoDmaRx := flushedDmaRx io s
    dma := flushedDma io s }

theorem getBlock_state (code : this.chState = StreamReadFlush.getBlock) :
    streamReadFlushState io (this, s) =
      ((⟨StreamReadFlush.getDataCnt, newBlock s⟩, { s with tMemBlockFifo := newPool s }),
        .goto) := by
  simp only [streamReadFlushState, code, newBlock, newPool]
  cases (zeroStrmBlockNew s.tMemBlockFifo).1 <;> rfl

/-- `GET_DATA_CNT`, for the block that `GET_BLOCK` found. -/
theorem getDataCnt_state :
    streamReadFlushState io
        (⟨StreamReadFlush.getDataCnt, newBlock s⟩, { s with tMemBlockFifo := newPool s }) =
      ((⟨StreamReadFlush.start, newBlock s⟩, flushed io s), .ret .cpl) := by
  have count : (getDmaDataCnt io { s with tMemBlockFifo := newPool s }).1 = received io s := rfl
  by_cases nothing : received io s = 0
  · simp only [streamReadFlushState, count, flushed, flushedPool, flushedDmaRx, flushedDma,
      nothing, if_true]
    rfl
  · simp only [streamReadFlushState, count, updateDataCnt, flushed, flushedPool, flushedDmaRx,
      flushedDma, nothing, if_false]
    cases newBlock s <;> rfl

/-- `GET_DATA_CNT` completes, for any block, and leaves the saved machines alone. -/
theorem getDataCnt_state_frame (io : DmaRxIO β D) (s : StreamRead β D)
    (code : this.chState = StreamReadFlush.getDataCnt) :
    ∃ t, streamReadFlushState io (this, s) =
        ((⟨StreamReadFlush.start, this.ptByteFifo⟩, t), .ret .cpl) ∧
      t.fsmFlushHt = s.fsmFlushHt ∧ t.fsmTimeOut = s.fsmTimeOut := by
  by_cases nothing : (getDmaDataCnt io s).1 = 0
  · simp only [streamReadFlushState, code, nothing, if_true]
    exact ⟨_, rfl, rfl, rfl⟩
  · simp only [streamReadFlushState, code, if_neg nothing, updateDataCnt]
    cases this.ptByteFifo <;> exact ⟨_, rfl, rfl, rfl⟩

/-- A flush that is entered at `GET_BLOCK` runs two states and completes. -/
theorem call_getBlock (budget : ℕ) (code : this.chState = StreamReadFlush.getBlock) :
    call (streamReadFlushState io) (budget + 2) (this, s) =
      ((⟨StreamReadFlush.start, newBlock s⟩, flushed io s), some .cpl) := by
  rw [call_goto (getBlock_state code), call_ret getDataCnt_state]

/-! ## The blocks of a flush -/

section Blocks

variable {free queue : List Addr} {b : Addr}

/-- A flush takes the top of the free list. -/
theorem newBlock_eq : newBlock s = s.tMemBlockFifo.ptFreeList := by
  unfold newBlock zeroStrmBlockNew
  split
  · next empty => exact empty.symm
  · next top => exact top.symm

@[simp] theorem chMemory_newPool : (newPool s).chMemory = s.tMemBlockFifo.chMemory := by
  unfold newPool
  dsimp only
  split <;> simp [MemBlkFifo.setSize]

@[simp] theorem chMemory_flushedPool :
    (flushedPool io s).chMemory = s.tMemBlockFifo.chMemory := by
  unfold flushedPool
  split_ifs <;> simp [MemBlkFifo.setSize]

theorem tSizeInByte_newPool (found : newBlock s = some b) :
    (newPool s).tSizeInByte =
      Function.update s.tMemBlockFifo.tSizeInByte b s.hwDmaSizeTotal := by
  unfold newBlock at found
  simp [newPool, found, MemBlkFifo.setSize]

theorem tSizeInByte_flushedPool (something : received io s ≠ 0) :
    (flushedPool io s).tSizeInByte =
      Function.update (newPool s).tSizeInByte s.ptByteFifoDmaRx (received io s) := by
  rw [flushedPool, if_neg something, tSizeInByte_append]
  rfl

theorem tSizeInByte_flushedPool_other {block : Addr} (notNew : newBlock s ≠ some block)
    (notReceiving : block ≠ s.ptByteFifoDmaRx) :
    (flushedPool io s).tSizeInByte block = s.tMemBlockFifo.tSizeInByte block := by
  have unchanged : (newPool s).tSizeInByte block = s.tMemBlockFifo.tSizeInByte block := by
    cases found : newBlock s with
    | none =>
        unfold newBlock at found
        simp [newPool, found]
    | some b =>
        rw [found] at notNew
        rw [tSizeInByte_newPool found]
        exact Function.update_of_ne (fun same => notNew (congrArg some same.symm)) ..
  by_cases nothing : received io s = 0
  · rw [flushedPool, if_pos nothing, tSizeInByte_free]
    exact unchanged
  · rw [tSizeInByte_flushedPool nothing, Function.update_of_ne notReceiving]
    exact unchanged

theorem newPool_nil (held : Represents s.tMemBlockFifo [] queue) :
    newPool s = s.tMemBlockFifo := by
  unfold newPool
  rw [held.new_nil]

theorem newPool_cons (held : Represents s.tMemBlockFifo (b :: free) queue) :
    Represents (newPool s) free queue := by
  obtain ⟨popped, rest⟩ := held.new_cons
  unfold newPool
  rw [popped]
  exact rest.setSize b s.hwDmaSizeTotal

/-- **With nothing received a flush leaves the lists as they were.** -/
theorem flushedPool_nothing (held : Represents s.tMemBlockFifo free queue)
    (nothing : received io s = 0) : Represents (flushedPool io s) free queue := by
  rw [flushedPool, if_pos nothing, newBlock_eq]
  cases free with
  | nil =>
      rw [newPool_nil held, show s.tMemBlockFifo.ptFreeList = none from held.stack]
      exact held
  | cons b free =>
      rw [held.stack.1]
      exact (newPool_cons held).push (List.nodup_cons.mp held.stack.nodup).1
        (List.disjoint_cons_left.mp held.disjoint).1

/-- **With data received a flush enqueues the receiving block**, and the free list loses the
block that the flush found. -/
theorem flushedPool_append (held : Represents s.tMemBlockFifo free queue)
    (something : received io s ≠ 0) (notFree : s.ptByteFifoDmaRx ∉ free)
    (notQueued : s.ptByteFifoDmaRx ∉ queue) :
    Represents (flushedPool io s) free.tail (queue ++ [s.ptByteFifoDmaRx]) := by
  rw [flushedPool, if_neg something]
  cases free with
  | nil =>
      rw [newPool_nil held]
      exact (held.setSize _ _).enqueue notFree notQueued
  | cons b free =>
      have popped := newPool_cons held
      exact (popped.setSize _ _).enqueue
        (fun member => notFree (List.mem_cons_of_mem _ member)) notQueued

end Blocks

/-! ## The flush from `START` on -/

theorem start_state (code : this.chState = StreamReadFlush.start) :
    streamReadFlushState io (this, s) =
      ((⟨StreamReadFlush.isDmaBusy, this.ptByteFifo⟩, s), .goto) := by
  simp only [streamReadFlushState, code]

theorem isDmaBusy_state_busy (code : this.chState = StreamReadFlush.isDmaBusy)
    (busy : s.bBusy = true) :
    streamReadFlushState io (this, s) =
      ((⟨StreamReadFlush.start, this.ptByteFifo⟩, s), .ret .cpl) := by
  simp [streamReadFlushState, code, isDmaBusy, busy]

theorem isDmaBusy_state_idle (code : this.chState = StreamReadFlush.isDmaBusy)
    (idle : s.bBusy = false) :
    streamReadFlushState io (this, s) =
      ((⟨StreamReadFlush.getBlock, this.ptByteFifo⟩, { s with bBusy := true }), .goto) := by
  simp [streamReadFlushState, code, isDmaBusy, idle]

/-- **A fresh flush that finds `bBusy` set changes nothing.** -/
theorem streamReadFlush_busy (fresh : this.chState = StreamReadFlush.start)
    (busy : s.bBusy = true) :
    streamReadFlush io this s = ((⟨StreamReadFlush.start, this.ptByteFifo⟩, s), some .cpl) := by
  rw [streamReadFlush, call_goto (start_state fresh)]
  exact call_ret (isDmaBusy_state_busy rfl busy)

/-- **A fresh flush that finds `bBusy` clear sets it and goes on from `GET_BLOCK`.** -/
theorem streamReadFlush_idle (fresh : this.chState = StreamReadFlush.start)
    (idle : s.bBusy = false) :
    streamReadFlush io this s =
      ((⟨StreamReadFlush.start, newBlock s⟩, flushed io { s with bBusy := true }),
        some .cpl) := by
  rw [streamReadFlush, call_goto (start_state fresh),
    call_goto (isDmaBusy_state_idle rfl idle), call_getBlock 0 rfl]
  rfl

/-! ## The handlers -/

/-- **The DMA-half handler flushes whatever `bBusy` was**, and completes. -/
theorem flushHt_eq (fresh : s.fsmFlushHt.chState = StreamReadFlush.start) :
    flushHt io (setUartBusy (setDmaIdle s)) =
      ({ flushed io { s with bBusy := true, bUartIdle := false } with
          fsmFlushHt := ⟨StreamReadFlush.start, newBlock s⟩ }, some .cpl) := by
  have flush : streamReadFlush io s.fsmFlushHt (setUartBusy (setDmaIdle s)) = _ :=
    streamReadFlush_idle fresh rfl
  simp only [flushHt]
  rw [show (setUartBusy (setDmaIdle s)).fsmFlushHt = s.fsmFlushHt from rfl, flush]
  rfl

/-! ### The tick

The state variable of `time_out` is the one of the flush it calls, so both machines are
followed through one record. Neither the timeout test nor the flush reads that record. -/

/-- A change of the stream that does not touch what the timeout test reads and writes. -/
structure OffTimer (f : StreamRead β D → StreamRead β D) : Prop where
  started : ∀ s, (f s).bTimerStart = s.bTimerStart
  left : ∀ s, (f s).wTimeStamp = s.wTimeStamp
  idle : ∀ s, (f s).bUartIdle = s.bUartIdle
  count : ∀ s, (f s).hwDmaCntUartIdle = s.hwDmaCntUartIdle
  channel : ∀ s, (f s).dma = s.dma
  timer : ∀ s started left, { f s with bTimerStart := started, wTimeStamp := left } =
    f { s with bTimerStart := started, wTimeStamp := left }
  counted : ∀ s dma, { f s with dma := dma } = f { s with dma := dma }

section OffTimer

variable {f : StreamRead β D → StreamRead β D}

theorem isTimerTimeOut_offTimer (off : OffTimer f) (s : StreamRead β D) :
    isTimerTimeOut (f s) = ((isTimerTimeOut s).1, f (isTimerTimeOut s).2) := by
  unfold isTimerTimeOut
  rw [off.started, off.left]
  by_cases stopped : s.bTimerStart = false
  · rw [if_pos stopped, if_pos stopped]
  · rw [if_neg stopped, if_neg stopped]
    dsimp only
    by_cases last : (if 0 < s.wTimeStamp then s.wTimeStamp - 1 else s.wTimeStamp) = 0
    · rw [if_pos last, if_pos last]
      exact congrArg (Prod.mk true) (off.timer s false _)
    · rw [if_neg last, if_neg last]
      exact congrArg (Prod.mk false) (off.timer s s.bTimerStart _)

theorem isEqualToCountBeforeTimeOut_offTimer (io : DmaRxIO β D) (off : OffTimer f)
    (s : StreamRead β D) :
    isEqualToCountBeforeTimeOut io (f s) = ((isEqualToCountBeforeTimeOut io s).1,
      f (isEqualToCountBeforeTimeOut io s).2) := by
  refine Prod.ext ?_ ?_
  · simp only [isEqualToCountBeforeTimeOut, off.count, off.channel]
  · dsimp only [isEqualToCountBeforeTimeOut]
    rw [off.channel]
    exact off.counted s _

/-- **The timeout test commutes with a change that does not touch it.** -/
theorem isReallyTimeOut_offTimer (io : DmaRxIO β D) (off : OffTimer f) (s : StreamRead β D) :
    isReallyTimeOut io (f s) = ((isReallyTimeOut io s).1, f (isReallyTimeOut io s).2) := by
  unfold isReallyTimeOut
  rw [isTimerTimeOut_offTimer off]
  dsimp only
  have idle : isUartIdle (f (isTimerTimeOut s).2) = isUartIdle (isTimerTimeOut s).2 := off.idle _
  rw [idle, isEqualToCountBeforeTimeOut_offTimer io off]
  split_ifs <;> rfl

end OffTimer

theorem offTimer_fsmTimeOut (fsm : FsmStreamReadFlush) :
    OffTimer fun s : StreamRead β D => { s with fsmTimeOut := fsm } := by
  constructor <;> intros <;> rfl

theorem isTimerTimeOut_changes (s : StreamRead β D) :
    ∃ started left,
      (isTimerTimeOut s).2 = { s with bTimerStart := started, wTimeStamp := left } := by
  unfold isTimerTimeOut
  by_cases stopped : s.bTimerStart = false
  · rw [if_pos stopped]
    exact ⟨s.bTimerStart, s.wTimeStamp, rfl⟩
  · rw [if_neg stopped]
    dsimp only
    by_cases last : (if 0 < s.wTimeStamp then s.wTimeStamp - 1 else s.wTimeStamp) = 0
    · rw [if_pos last]
      exact ⟨false, _, rfl⟩
    · rw [if_neg last]
      exact ⟨s.bTimerStart, _, rfl⟩

/-- **The timeout test changes the timer and, where it reads the count, the channel.** -/
theorem isReallyTimeOut_changes (io : DmaRxIO β D) (s : StreamRead β D) :
    ∃ started left dma, (dma = s.dma ∨ dma = (io.fnDmaCntGet s.dma).2) ∧
      (isReallyTimeOut io s).2 =
        { s with bTimerStart := started, wTimeStamp := left, dma := dma } := by
  obtain ⟨started, left, ticked⟩ := isTimerTimeOut_changes s
  unfold isReallyTimeOut
  dsimp only
  rw [ticked]
  split
  · exact ⟨started, left, s.dma, .inl rfl, rfl⟩
  · split
    · exact ⟨started, left, s.dma, .inl rfl, rfl⟩
    · exact ⟨started, left, _, .inr rfl, rfl⟩

theorem flushed_fsmTimeOut (fsm : FsmStreamReadFlush) :
    flushed io { s with fsmTimeOut := fsm } = { flushed io s with fsmTimeOut := fsm } := rfl

/-- The state of `time_out` that follows `START`. -/
theorem timeOut_start (fresh : s.fsmTimeOut.chState = TimeOut.start) :
    timeOutState io s =
      ({ s with fsmTimeOut := ⟨TimeOut.isReallyTimeOut, s.fsmTimeOut.ptByteFifo⟩ }, .goto) := by
  simp only [timeOutState, fresh]

theorem timeOutState_really (really : (isReallyTimeOut io s).1 = true) (block : Ptr) :
    timeOutState io { s with fsmTimeOut := ⟨TimeOut.isReallyTimeOut, block⟩ } =
      ({ (isReallyTimeOut io s).2 with fsmTimeOut := ⟨TimeOut.flush, block⟩ }, .goto) := by
  have test := isReallyTimeOut_offTimer io
    (offTimer_fsmTimeOut ⟨TimeOut.isReallyTimeOut, block⟩) s
  simp only [timeOutState, test, really, if_true]

theorem timeOutState_not_really (really : (isReallyTimeOut io s).1 = false) (block : Ptr) :
    timeOutState io { s with fsmTimeOut := ⟨TimeOut.isReallyTimeOut, block⟩ } =
      ({ (isReallyTimeOut io s).2 with fsmTimeOut := ⟨TimeOut.start, block⟩ },
        .ret .onGoing) := by
  have test := isReallyTimeOut_offTimer io
    (offTimer_fsmTimeOut ⟨TimeOut.isReallyTimeOut, block⟩) s
  simp only [timeOutState, test, really]
  rfl

/-- **A tick that is not a timeout** only counts the timer down. -/
theorem timeOut_not_really (fresh : s.fsmTimeOut.chState = TimeOut.start)
    (really : (isReallyTimeOut io s).1 = false) :
    timeOut io s = ({ (isReallyTimeOut io s).2 with fsmTimeOut := s.fsmTimeOut },
      some .onGoing) := by
  have same : (⟨TimeOut.start, s.fsmTimeOut.ptByteFifo⟩ : FsmStreamReadFlush) =
      s.fsmTimeOut := by
    rw [← fresh]
  rw [timeOut, call_goto (timeOut_start fresh), call_ret (timeOutState_not_really really _), same]

/-- **A timeout flushes from `GET_BLOCK` on**: the number of `FLUSH`, which `time_out` has just
saved, is the number of `GET_BLOCK`, so the flush neither tests nor sets `bBusy`. -/
theorem timeOut_really (fresh : s.fsmTimeOut.chState = TimeOut.start)
    (really : (isReallyTimeOut io s).1 = true) :
    timeOut io s =
      ({ flushed io (isReallyTimeOut io s).2 with
          fsmTimeOut := ⟨TimeOut.start, newBlock (isReallyTimeOut io s).2⟩ }, some .cpl) := by
  have nested : call (streamReadFlushState io) 4 (⟨TimeOut.flush, s.fsmTimeOut.ptByteFifo⟩,
      { (isReallyTimeOut io s).2 with
        fsmTimeOut := ⟨TimeOut.flush, s.fsmTimeOut.ptByteFifo⟩ }) = _ :=
    call_getBlock 2 rfl
  rw [timeOut, call_goto (timeOut_start fresh), call_goto (timeOutState_really really _)]
  refine call_ret ?_
  simp only [timeOutState, streamReadFlush, nested, flushed_fsmTimeOut, if_true]
  rfl

theorem visited_timeOut_really (fresh : s.fsmTimeOut.chState = TimeOut.start)
    (really : (isReallyTimeOut io s).1 = true) :
    visited (timeOutState io) 3 s =
      [s, { s with fsmTimeOut := ⟨TimeOut.isReallyTimeOut, s.fsmTimeOut.ptByteFifo⟩ },
        { (isReallyTimeOut io s).2 with
          fsmTimeOut := ⟨TimeOut.flush, s.fsmTimeOut.ptByteFifo⟩ }] := by
  rw [visited_goto (timeOut_start fresh), visited_goto (timeOutState_really really _),
    visited_one]

theorem visited_timeOut_not_really (fresh : s.fsmTimeOut.chState = TimeOut.start)
    (really : (isReallyTimeOut io s).1 = false) :
    visited (timeOutState io) 3 s =
      [s, { s with fsmTimeOut := ⟨TimeOut.isReallyTimeOut, s.fsmTimeOut.ptByteFifo⟩ }] := by
  rw [visited_goto (timeOut_start fresh), visited_ret (timeOutState_not_really really _)]

end ZeroStrm
