import ZeroStrm.Common.SimpleFsm
import ZeroStrm.Common.ByteFifo

/-!
# The receiving stream

`zero_strm_read.c` and `fsm_dequeue.c`, function by function. A receive DMA channel fills the
memory of one block. A flush puts that block into the block queue and hands the channel a free
one, and `zero_strm_read` takes bytes out of the queued blocks. Three machines do the work:
`dequeue` for the reader, `stream_read_flush` for the DMA-half handler, and `time_out`, which
calls a flush of its own, for the timer.

The callbacks of the configuration are a parameter (`DmaRxIO`). They act on a state `D` of the
channel, of any type.

`zero_strm_read_init` initialises a `stream_read_flush` on the memory of `fsmTimeOut`, and
`time_out` calls it there. The two structures have `chState` as their first member, so there is
one state variable for both machines, and `time_out` reads no other member that the flush
writes. The model has one record for that memory.
-/

set_option autoImplicit false

namespace ZeroStrm

/-- The callbacks of a configuration, over the state of the receive channel. -/
structure DmaRxIO (β D : Type) where
  /-- Start receiving into a block. The callback reads the block's header. -/
  fnDmaStartRx : MemBlkFifo β → Addr → D → D
  /-- The remaining count, a `uint16_t`. -/
  fnDmaCntGet : D → ℕ × D

/-- The members of a `stream_read_flush` that change. The others are set by its initialiser:
`ptStreamRead` is the stream, and `pptByteFifo` points at the stream's `ptByteFifoDmaRx`. -/
structure FsmStreamReadFlush where
  chState : ℕ
  ptByteFifo : Ptr
  deriving DecidableEq, Repr

/-- The members of a `dequeue` that change. -/
structure FsmDequeue where
  chState : ℕ
  ptByteFifo : Addr
  deriving DecidableEq, Repr

/-- `stream_read_t`, with the state of the channel behind its callbacks. -/
structure StreamRead (β D : Type) where
  bBusy : Bool
  bUartIdle : Bool
  bTimerStart : Bool
  tMemBlockFifo : MemBlkFifo β
  tByteFifo : ByteFifo
  ptByteFifoDmaRx : Addr
  ptByteFifoEmpty : Addr
  hwDmaCntUartIdle : ℕ
  wSetTime : ℕ
  wTimeStamp : ℕ
  fsmFlushHt : FsmStreamReadFlush
  fsmDequeue : FsmDequeue
  fsmTimeOut : FsmStreamReadFlush
  hwDmaSizeTotal : ℕ
  dma : D

variable {β D : Type}

/-! ## Flags, timer and counts -/

/-- The test-and-set of `bBusy`: whether it was set before. -/
def isDmaBusy (s : StreamRead β D) : Bool × StreamRead β D :=
  if s.bBusy = false then (false, { s with bBusy := true }) else (true, s)

def setDmaIdle (s : StreamRead β D) : StreamRead β D := { s with bBusy := false }

def isUartIdle (s : StreamRead β D) : Bool := s.bUartIdle

def setUartBusy (s : StreamRead β D) : StreamRead β D := { s with bUartIdle := false }

def setUartIdle (s : StreamRead β D) : StreamRead β D := { s with bUartIdle := true }

def recordCurrentDataCount (io : DmaRxIO β D) (s : StreamRead β D) : StreamRead β D :=
  let count := io.fnDmaCntGet s.dma
  { s with hwDmaCntUartIdle := count.1, dma := count.2 }

def isEqualToCountBeforeTimeOut (io : DmaRxIO β D) (s : StreamRead β D) :
    Bool × StreamRead β D :=
  let count := io.fnDmaCntGet s.dma
  (s.hwDmaCntUartIdle = count.1, { s with dma := count.2 })

/-- The received count, a `uint16_t`: the subtraction wraps around. -/
def getDmaDataCnt (io : DmaRxIO β D) (s : StreamRead β D) : ℕ × StreamRead β D :=
  let count := io.fnDmaCntGet s.dma
  (u16 (s.hwDmaSizeTotal + (2 ^ 16 - u16 count.1)), { s with dma := count.2 })

def updateDataCnt (s : StreamRead β D) (hwDataCnt : ℕ) : StreamRead β D :=
  if hwDataCnt = 0 then s
  else { s with tMemBlockFifo := s.tMemBlockFifo.setSize s.ptByteFifoDmaRx hwDataCnt }

def setTargetTime (s : StreamRead β D) : StreamRead β D :=
  { s with wTimeStamp := s.wSetTime, bTimerStart := true }

/-- Count a started timer down by one tick: whether it ends at this tick. -/
def isTimerTimeOut (s : StreamRead β D) : Bool × StreamRead β D :=
  if s.bTimerStart = false then (false, s)
  else
    let wTimeStamp := if 0 < s.wTimeStamp then s.wTimeStamp - 1 else s.wTimeStamp
    if wTimeStamp = 0 then (true, { s with wTimeStamp := wTimeStamp, bTimerStart := false })
    else (false, { s with wTimeStamp := wTimeStamp })

def isReallyTimeOut (io : DmaRxIO β D) (s : StreamRead β D) : Bool × StreamRead β D :=
  let timer := isTimerTimeOut s
  if timer.1 = false then (false, timer.2)
  else if isUartIdle timer.2 = false then (false, timer.2)
  else isEqualToCountBeforeTimeOut io timer.2

/-! ## The machines -/

namespace Dequeue

@[match_pattern] abbrev start : ℕ := 0
@[match_pattern] abbrev byteFifoOut : ℕ := 1
@[match_pattern] abbrev getByteFifo : ℕ := 2

end Dequeue

namespace StreamReadFlush

@[match_pattern] abbrev start : ℕ := 0
@[match_pattern] abbrev isDmaBusy : ℕ := 1
@[match_pattern] abbrev getBlock : ℕ := 2
@[match_pattern] abbrev getDataCnt : ℕ := 3

end StreamReadFlush

namespace TimeOut

@[match_pattern] abbrev start : ℕ := 0
@[match_pattern] abbrev isReallyTimeOut : ℕ := 1
@[match_pattern] abbrev flush : ℕ := 2

end TimeOut

/-- One state of `dequeue`. The second component is the byte written through `ptByte`. -/
def dequeueState : Fsm (StreamRead β D × Option β)
  | (s, out) =>
    match s.fsmDequeue.chState with
    | Dequeue.start =>
      (({ s with fsmDequeue := { s.fsmDequeue with chState := Dequeue.byteFifoOut } }, out), .goto)
    | Dequeue.byteFifoOut =>
      let deq := zeroStrmDequeueByteFifo s.tMemBlockFifo s.tByteFifo
      match deq.1 with
      | some byte =>
        (({ s with
            tByteFifo := deq.2
            fsmDequeue := { s.fsmDequeue with chState := Dequeue.start } }, some byte), .ret .cpl)
      | none =>
        (({ s with
            tByteFifo := deq.2
            tMemBlockFifo := zeroStrmBlockFree s.tMemBlockFifo (some s.fsmDequeue.ptByteFifo)
            fsmDequeue := { s.fsmDequeue with chState := Dequeue.getByteFifo } }, out), .goto)
    | Dequeue.getByteFifo =>
      let fetched := zeroStrmBlockFetch s.tMemBlockFifo
      match fetched.1 with
      | none => (({ s with tMemBlockFifo := fetched.2 }, out), .ret .onGoing)
      | some block =>
        let full := zeroStrmInitByteFifoFull s.tByteFifo (some block)
          (u16 (fetched.2.tSizeInByte block))
        (({ s with
            tMemBlockFifo := fetched.2
            tByteFifo := full.2
            fsmDequeue := { chState := Dequeue.byteFifoOut, ptByteFifo := block } }, out), .goto)
    | _ => ((s, out), .ret .err)

/-- One state of `stream_read_flush`, on an instance of that machine. -/
def streamReadFlushState (io : DmaRxIO β D) : Fsm (FsmStreamReadFlush × StreamRead β D)
  | (this, s) =>
    match this.chState with
    | StreamReadFlush.start => (({ this with chState := StreamReadFlush.isDmaBusy }, s), .goto)
    | StreamReadFlush.isDmaBusy =>
      let busy := isDmaBusy s
      if busy.1 then (({ this with chState := StreamReadFlush.start }, busy.2), .ret .cpl)
      else (({ this with chState := StreamReadFlush.getBlock }, busy.2), .goto)
    | StreamReadFlush.getBlock =>
      let new := zeroStrmBlockNew s.tMemBlockFifo
      let this := { this with chState := StreamReadFlush.getDataCnt, ptByteFifo := new.1 }
      match new.1 with
      | some block =>
        ((this, { s with tMemBlockFifo := new.2.setSize block s.hwDmaSizeTotal }), .goto)
      | none => ((this, { s with tMemBlockFifo := new.2 }), .goto)
    | StreamReadFlush.getDataCnt =>
      let count := getDmaDataCnt io s
      let cpl := { this with chState := StreamReadFlush.start }
      if count.1 = 0 then
        let freed := zeroStrmBlockFree count.2.tMemBlockFifo this.ptByteFifo
        ((cpl, setDmaIdle { count.2 with tMemBlockFifo := freed }), .ret .cpl)
      else
        let counted := updateDataCnt count.2 count.1
        let appended := zeroStrmBlockAppend counted.tMemBlockFifo (some counted.ptByteFifoDmaRx)
        match this.ptByteFifo with
        | some block =>
          ((cpl, { counted with
              tMemBlockFifo := appended.2
              dma := io.fnDmaStartRx appended.2 block counted.dma
              ptByteFifoDmaRx := block }), .ret .cpl)
        | none => ((cpl, { counted with tMemBlockFifo := appended.2 }), .ret .cpl)
    | _ => ((this, s), .ret .err)

/-- A call of `stream_read_flush`. Its states only go forward, so four of them are a whole
call. -/
def streamReadFlush (io : DmaRxIO β D) (this : FsmStreamReadFlush) (s : StreamRead β D) :
    (FsmStreamReadFlush × StreamRead β D) × Option FsmRt :=
  call (streamReadFlushState io) 4 (this, s)

/-- One state of `time_out`. The flush of `FLUSH` runs on the memory of `fsmTimeOut`. -/
def timeOutState (io : DmaRxIO β D) : Fsm (StreamRead β D) := fun s =>
  match s.fsmTimeOut.chState with
  | TimeOut.start =>
    ({ s with fsmTimeOut := { s.fsmTimeOut with chState := TimeOut.isReallyTimeOut } }, .goto)
  | TimeOut.isReallyTimeOut =>
    let really := isReallyTimeOut io s
    if really.1 then
      ({ really.2 with fsmTimeOut := { really.2.fsmTimeOut with chState := TimeOut.flush } }, .goto)
    else
      -- `reset_fsm` without a return: the `break` that follows returns `fsm_rt_on_going`
      ({ really.2 with fsmTimeOut := { really.2.fsmTimeOut with chState := TimeOut.start } },
        .ret .onGoing)
  | TimeOut.flush =>
    let flush := streamReadFlush io s.fsmTimeOut s
    let after := { flush.1.2 with fsmTimeOut := flush.1.1 }
    if flush.2 = some .cpl then
      ({ after with fsmTimeOut := { after.fsmTimeOut with chState := TimeOut.start } }, .ret .cpl)
    else (after, .ret .onGoing)
  | _ => (s, .ret .err)

/-- A call of `time_out`: three states at most. -/
def timeOut (io : DmaRxIO β D) (s : StreamRead β D) : StreamRead β D × Option FsmRt :=
  call (timeOutState io) 3 s

/-! ## The interface -/

/-- `zero_strm_read`, within a budget of states: the returned flag, the byte written through
`pchChar` and the stream. -/
def zeroStrmRead (budget : ℕ) (s : StreamRead β D) : Option (Bool × Option β × StreamRead β D) :=
  let run := call dequeueState budget (s, none)
  run.2.map fun rt => (rt = .cpl, run.1.2, run.1.1)

/-- The flush of the DMA-half handler, after `set_dma_idle` and `set_uart_busy`. -/
def flushHt (io : DmaRxIO β D) (s : StreamRead β D) : StreamRead β D × Option FsmRt :=
  let flush := streamReadFlush io s.fsmFlushHt s
  ({ flush.1.2 with fsmFlushHt := flush.1.1 }, flush.2)

def zeroStrmUartDmaGetDataInsertToDmaIrqEventHandler (io : DmaRxIO β D) (s : StreamRead β D) :
    StreamRead β D :=
  (flushHt io (setUartBusy (setDmaIdle s))).1

def zeroStrmUartIdleInsertToUartIrqEventHandler (io : DmaRxIO β D) (s : StreamRead β D) :
    StreamRead β D :=
  setTargetTime (recordCurrentDataCount io (setUartIdle s))

def zeroStrmUartWaitTimeOutInsertToHardTimerIrqEventHandler (io : DmaRxIO β D)
    (s : StreamRead β D) : StreamRead β D :=
  (timeOut io s).1

/-! ## Initialisation -/

/-- `stream_read_cfg_t` without its callbacks and its buffer, and the two constants of the
build: `READ_BUFF_CNT` and `sizeof(read_fifo_t)`. -/
structure StreamReadCfg where
  hwSize : ℕ
  wTimeOutMs : ℕ
  readBuffCnt : ℕ
  sizeofReadFifo : ℕ

/-- The number of blocks, a `uint8_t`. -/
def StreamReadCfg.chCnt (cfg : StreamReadCfg) : ℕ := cfg.hwSize / cfg.sizeofReadFifo % 2 ^ 8

/-- `zero_strm_read_init`, over the memory of the pool and the channel as they are before.
`none` is the access through a null `ptByteFifoEmpty` that a pool of fewer than two blocks
leads to. -/
def zeroStrmReadInit (io : DmaRxIO β D) (cfg : StreamReadCfg) (m : MemBlkFifo β) (dma : D) :
    Option (StreamRead β D) :=
  let pool := initBlocks cfg.readBuffCnt cfg.chCnt (zeroStrmBlockFifoInit m)
  let first := zeroStrmBlockNew pool
  let second := zeroStrmBlockNew first.2
  match first.1, second.1 with
  | some dmaRx, some empty => some
    { bBusy := false
      bUartIdle := false
      bTimerStart := false
      tMemBlockFifo := second.2
      tByteFifo := (zeroStrmInitByteFifoEmpty ⟨empty, 0, 0, 0, 0⟩ (some empty)
        (u16 (second.2.tSizeInByte empty))).2
      ptByteFifoDmaRx := dmaRx
      ptByteFifoEmpty := empty
      hwDmaCntUartIdle := 0
      wSetTime := cfg.wTimeOutMs
      wTimeStamp := 0
      fsmFlushHt := { chState := StreamReadFlush.start, ptByteFifo := none }
      fsmDequeue := { chState := Dequeue.start, ptByteFifo := empty }
      fsmTimeOut := { chState := TimeOut.start, ptByteFifo := none }
      hwDmaSizeTotal := u16 cfg.readBuffCnt
      dma := io.fnDmaStartRx first.2 dmaRx dma }
  | _, _ => none

end ZeroStrm
