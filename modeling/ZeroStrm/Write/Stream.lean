import ZeroStrm.Common.SimpleFsm
import ZeroStrm.Common.ByteFifo

/-!
# The sending stream

`zero_strm_write.c` and `fsm_enqueue.c`, function by function. `zero_strm_write` stores a byte
into the current block. When the block is full, `enqueue` appends it to the block queue, starts
the transmit DMA unless that is busy, and takes a free block. When a transfer is complete, the
interrupt handler frees its block and starts the DMA on the next one of the queue.

Two instances of `stream_write_flush` do the sending: one inside `enqueue`, for the current
block, and `fsmFlushAuto` of the interrupt handler, whose `ptByteFifoCpl` is null, so that it
appends nothing.

The callback of the configuration is a parameter (`DmaTxIO`). It acts on a state `D` of the
channel, of any type.
-/

set_option autoImplicit false

namespace ZeroStrm

/-- The callback of a configuration, over the state of the transmit channel. -/
structure DmaTxIO (β D : Type) where
  /-- Start sending a block. The callback reads the block's header and its bytes. -/
  fnDmaStart : MemBlkFifo β → Addr → D → D

/-- The member of a `stream_write_flush` that changes. The others are set by its initialiser:
the stream, the callback, and `pptByteFifo`, which points at a member of the stream. -/
structure FsmStreamWriteFlush where
  chState : ℕ
  deriving DecidableEq, Repr

/-- The members of an `enqueue` that change. -/
structure FsmEnqueue where
  chState : ℕ
  fsmFlush : FsmStreamWriteFlush
  deriving DecidableEq, Repr

/-- `stream_write_t`, with the state of the channel behind its callback. -/
structure StreamWrite (β D : Type) where
  bBusy : Bool
  ptFifoSend : Ptr
  ptByteFifo : Addr
  ptByteFifoCpl : Ptr
  tMemBlockFifo : MemBlkFifo β
  tByteFifo : ByteFifo
  fsmEnqueue : FsmEnqueue
  fsmFlushAuto : FsmStreamWriteFlush
  dma : D

variable {β D : Type}

/-! ## The machines -/

namespace Enqueue

@[match_pattern] abbrev start : ℕ := 0
@[match_pattern] abbrev byteFifoIn : ℕ := 1
@[match_pattern] abbrev flush : ℕ := 2
@[match_pattern] abbrev getByteFifo : ℕ := 3

end Enqueue

namespace StreamWriteFlush

@[match_pattern] abbrev start : ℕ := 0
@[match_pattern] abbrev isDmaBusy : ℕ := 1
@[match_pattern] abbrev getBlock : ℕ := 2

end StreamWriteFlush

/-- One state of `stream_write_flush`, on an instance of that machine and the target of its
`pptByteFifo`. -/
def streamWriteFlushState (io : DmaTxIO β D) (pptByteFifo : StreamWrite β D → Ptr) :
    Fsm (FsmStreamWriteFlush × StreamWrite β D)
  | (this, s) =>
    match this.chState with
    | StreamWriteFlush.start =>
      let appended := zeroStrmBlockAppend s.tMemBlockFifo (pptByteFifo s)
      ((⟨StreamWriteFlush.isDmaBusy⟩, { s with tMemBlockFifo := appended.2 }), .goto)
    | StreamWriteFlush.isDmaBusy =>
      if s.bBusy = false then ((⟨StreamWriteFlush.getBlock⟩, { s with bBusy := true }), .goto)
      else ((⟨StreamWriteFlush.start⟩, s), .ret .cpl)
    | StreamWriteFlush.getBlock =>
      let fetched := zeroStrmBlockFetch s.tMemBlockFifo
      let sending := { s with tMemBlockFifo := fetched.2, ptFifoSend := fetched.1 }
      match fetched.1 with
      | none => ((⟨StreamWriteFlush.start⟩, { sending with bBusy := false }), .ret .cpl)
      | some block =>
        ((⟨StreamWriteFlush.start⟩,
          { sending with dma := io.fnDmaStart fetched.2 block s.dma }), .ret .cpl)
    | _ => ((this, s), .ret .err)

/-- A call of `stream_write_flush`: three states at most. -/
def streamWriteFlush (io : DmaTxIO β D) (pptByteFifo : StreamWrite β D → Ptr)
    (this : FsmStreamWriteFlush) (s : StreamWrite β D) :
    (FsmStreamWriteFlush × StreamWrite β D) × Option FsmRt :=
  call (streamWriteFlushState io pptByteFifo) 3 (this, s)

/-- The block that the flush inside `enqueue` appends. -/
def currentBlock (s : StreamWrite β D) : Ptr := some s.ptByteFifo

/-- One state of `enqueue`, called with a byte. -/
def enqueueState (io : DmaTxIO β D) (tByte : β) : Fsm (StreamWrite β D) := fun s =>
  match s.fsmEnqueue.chState with
  | Enqueue.start =>
    ({ s with fsmEnqueue := { s.fsmEnqueue with chState := Enqueue.byteFifoIn } }, .goto)
  | Enqueue.byteFifoIn =>
    let enq := zeroStrmEnqueueByteFifo s.tMemBlockFifo s.tByteFifo tByte
    if enq.1 then
      ({ s with
          tMemBlockFifo := enq.2.1.setSize s.ptByteFifo (enq.2.1.tSizeInByte s.ptByteFifo + 1)
          tByteFifo := enq.2.2
          fsmEnqueue := { s.fsmEnqueue with chState := Enqueue.start } }, .ret .cpl)
    else
      -- `init_fsm` puts the flush to its start
      ({ s with
          tMemBlockFifo := enq.2.1
          tByteFifo := enq.2.2
          fsmEnqueue := ⟨Enqueue.flush, ⟨StreamWriteFlush.start⟩⟩ }, .goto)
  | Enqueue.flush =>
    let flush := streamWriteFlush io currentBlock s.fsmEnqueue.fsmFlush s
    let after := { flush.1.2 with fsmEnqueue := ⟨s.fsmEnqueue.chState, flush.1.1⟩ }
    if flush.2 = some .cpl then
      ({ after with fsmEnqueue := ⟨Enqueue.getByteFifo, flush.1.1⟩ }, .goto)
    else (after, .ret .onGoing)
  | Enqueue.getByteFifo =>
    let new := zeroStrmBlockNew s.tMemBlockFifo
    match new.1 with
    | none => ({ s with tMemBlockFifo := new.2 }, .ret .onGoing)
    | some block =>
      ({ s with
          tByteFifo := (zeroStrmInitByteFifoEmpty s.tByteFifo (some block)
            (u16 (new.2.tSizeInByte block))).2
          tMemBlockFifo := new.2.setSize block 0
          ptByteFifo := block
          fsmEnqueue := { s.fsmEnqueue with chState := Enqueue.byteFifoIn } }, .goto)
  | _ => (s, .ret .err)

/-! ## The interface -/

/-- `zero_strm_write`, within a budget of states: the returned flag and the stream. -/
def zeroStrmWrite (io : DmaTxIO β D) (budget : ℕ) (s : StreamWrite β D) (tByte : β) :
    Option (Bool × StreamWrite β D) :=
  let run := call (enqueueState io tByte) budget s
  run.2.map fun rt => (rt = .cpl, run.1)

def zeroStrmDmaSendDataCplEventHandler (io : DmaTxIO β D) (s : StreamWrite β D) :
    StreamWrite β D :=
  let freed := { s with
    tMemBlockFifo := zeroStrmBlockFree s.tMemBlockFifo s.ptFifoSend
    bBusy := false }
  let flush := streamWriteFlush io StreamWrite.ptByteFifoCpl freed.fsmFlushAuto freed
  { flush.1.2 with fsmFlushAuto := flush.1.1 }

/-! ## Initialisation -/

/-- `stream_write_cfg_t` without its callback and its buffer, and the two constants of the
build: `WRITE_BUFF_CNT` and `sizeof(write_fifo_t)`. -/
structure StreamWriteCfg where
  hwSize : ℕ
  writeBuffCnt : ℕ
  sizeofWriteFifo : ℕ

/-- The number of blocks, a `uint8_t`. -/
def StreamWriteCfg.chCnt (cfg : StreamWriteCfg) : ℕ := cfg.hwSize / cfg.sizeofWriteFifo % 2 ^ 8

/-- `zero_strm_write_init`, over the memory of the pool and the channel as they are before.
`none` is the access through a null `ptByteFifo` that an empty pool leads to. -/
def zeroStrmWriteInit (cfg : StreamWriteCfg) (m : MemBlkFifo β) (dma : D) :
    Option (StreamWrite β D) :=
  let pool := initBlocks cfg.writeBuffCnt cfg.chCnt (zeroStrmBlockFifoInit m)
  let first := zeroStrmBlockNew pool
  match first.1 with
  | none => none
  | some block => some
    { bBusy := false
      ptFifoSend := none
      ptByteFifo := block
      ptByteFifoCpl := none
      tMemBlockFifo := first.2.setSize block 0
      tByteFifo := (zeroStrmInitByteFifoEmpty ⟨block, 0, 0, 0, 0⟩ (some block)
        (u16 (first.2.tSizeInByte block))).2
      fsmEnqueue := ⟨Enqueue.start, ⟨StreamWriteFlush.start⟩⟩
      fsmFlushAuto := ⟨StreamWriteFlush.start⟩
      dma := dma }

end ZeroStrm
