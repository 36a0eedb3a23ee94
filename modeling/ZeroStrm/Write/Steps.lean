import ZeroStrm.Write.Runs

/-!
# What an event does to the sender

Between two events the two machines of a write are together in one of six places (`Place`). The
state that runs there does one of nine things (`innermostState_effect`). The interrupt handler
frees the block of the transfer that ended and then does what `GET_BLOCK` does: it starts the
channel on the first block of the queue, or clears `bBusy` if there is none (`sendNext`). Every
invariant of the sender is proved from these two inversions.
-/

set_option autoImplicit false

namespace ZeroStrm

open EventRuns

variable {β D : Type}

/-! ## Places -/

/-- Where `enqueue` and its nested flush are between two events. -/
inductive Place : FsmEnqueue → Prop where
  | start : Place ⟨Enqueue.start, ⟨StreamWriteFlush.start⟩⟩
  | byteFifoIn : Place ⟨Enqueue.byteFifoIn, ⟨StreamWriteFlush.start⟩⟩
  | append : Place ⟨Enqueue.flush, ⟨StreamWriteFlush.start⟩⟩
  | isDmaBusy : Place ⟨Enqueue.flush, ⟨StreamWriteFlush.isDmaBusy⟩⟩
  | getBlock : Place ⟨Enqueue.flush, ⟨StreamWriteFlush.getBlock⟩⟩
  | getByteFifo : Place ⟨Enqueue.getByteFifo, ⟨StreamWriteFlush.start⟩⟩

/-! ## `GET_BLOCK` -/

section Send

variable (io : DmaTxIO β D) (s : StreamWrite β D)

/-- The stream after `GET_BLOCK`: the channel is started on the first block of the queue, and
without one `bBusy` is cleared. -/
def sendNext : StreamWrite β D :=
  let fetched := zeroStrmBlockFetch s.tMemBlockFifo
  let sending := { s with tMemBlockFifo := fetched.2, ptFifoSend := fetched.1 }
  match fetched.1 with
  | none => { sending with bBusy := false }
  | some block => { sending with dma := io.fnDmaStart fetched.2 block s.dma }

/-- The stream after the channel was started on a block. -/
def blockStarted (block : Addr) (pool : MemBlkFifo β) : StreamWrite β D :=
  { s with
    tMemBlockFifo := pool
    ptFifoSend := some block
    dma := io.fnDmaStart pool block s.dma }

/-- What `GET_BLOCK` does. -/
inductive Sends : StreamWrite β D → Prop where
  | drained (empty : zeroStrmBlockFetch s.tMemBlockFifo = (none, s.tMemBlockFifo))
      (head : s.tMemBlockFifo.ptHead = none) :
      Sends { s with ptFifoSend := none, bBusy := false }
  | started {block : Addr} {pool : MemBlkFifo β}
      (fetched : zeroStrmBlockFetch s.tMemBlockFifo = (some block, pool)) :
      Sends (blockStarted io s block pool)

theorem sendNext_sends : Sends io s (sendNext io s) := by
  cases head : s.tMemBlockFifo.ptHead with
  | none =>
      have empty : zeroStrmBlockFetch s.tMemBlockFifo = (none, s.tMemBlockFifo) := by
        simp only [zeroStrmBlockFetch, head]
      simp only [sendNext, empty]
      exact .drained empty head
  | some block =>
      obtain ⟨pool, fetched⟩ : ∃ pool, zeroStrmBlockFetch s.tMemBlockFifo = (some block, pool) := by
        simp only [zeroStrmBlockFetch, head]
        exact ⟨_, rfl⟩
      simp only [sendNext, fetched]
      exact .started fetched

theorem getBlock_sends (pptByteFifo : StreamWrite β D → Ptr) :
    streamWriteFlushState io pptByteFifo (⟨StreamWriteFlush.getBlock⟩, s) =
      ((⟨StreamWriteFlush.start⟩, sendNext io s), .ret .cpl) := by
  simp only [streamWriteFlushState, sendNext]
  cases (zeroStrmBlockFetch s.tMemBlockFifo).1 <;> rfl

end Send

/-! ## The states of a call -/

/-- The stream after its current byte queue took a byte. -/
def byteStored (s : StreamWrite β D) (pool : MemBlkFifo β) (fifo : ByteFifo) : StreamWrite β D :=
  { s with
    tMemBlockFifo := pool.setSize s.ptByteFifo (pool.tSizeInByte s.ptByteFifo + 1)
    tByteFifo := fifo
    fsmEnqueue := ⟨Enqueue.start, ⟨StreamWriteFlush.start⟩⟩ }

/-- The stream after the nested flush appended the current block. -/
def blockAppended (s : StreamWrite β D) : StreamWrite β D :=
  { s with
    tMemBlockFifo := (zeroStrmBlockAppend s.tMemBlockFifo (some s.ptByteFifo)).2
    fsmEnqueue := ⟨Enqueue.flush, ⟨StreamWriteFlush.isDmaBusy⟩⟩ }

/-- The stream after `enqueue` took a free block as its current one. -/
def blockTaken (s : StreamWrite β D) (block : Addr) (pool : MemBlkFifo β) : StreamWrite β D :=
  { s with
    tByteFifo := (zeroStrmInitByteFifoEmpty s.tByteFifo (some block)
      (u16 (pool.tSizeInByte block))).2
    tMemBlockFifo := pool.setSize block 0
    ptByteFifo := block
    fsmEnqueue := ⟨Enqueue.byteFifoIn, ⟨StreamWriteFlush.start⟩⟩ }

/-- What the innermost machine of a call does in one state. -/
inductive InnermostEffect (io : DmaTxIO β D) (s : StreamWrite β D) (tByte : β) :
    StreamWrite β D × Ctl → Prop where
  | start (here : s.fsmEnqueue = ⟨Enqueue.start, ⟨StreamWriteFlush.start⟩⟩) :
      InnermostEffect io s tByte
        ({ s with fsmEnqueue := ⟨Enqueue.byteFifoIn, ⟨StreamWriteFlush.start⟩⟩ }, .goto)
  | store {pool : MemBlkFifo β} {fifo : ByteFifo}
      (here : s.fsmEnqueue = ⟨Enqueue.byteFifoIn, ⟨StreamWriteFlush.start⟩⟩)
      (room : zeroStrmEnqueueByteFifo s.tMemBlockFifo s.tByteFifo tByte = (true, pool, fifo)) :
      InnermostEffect io s tByte (byteStored s pool fifo, .ret .cpl)
  | full (here : s.fsmEnqueue = ⟨Enqueue.byteFifoIn, ⟨StreamWriteFlush.start⟩⟩)
      (refused : (zeroStrmEnqueueByteFifo s.tMemBlockFifo s.tByteFifo tByte).1 = false) :
      InnermostEffect io s tByte
        ({ s with fsmEnqueue := ⟨Enqueue.flush, ⟨StreamWriteFlush.start⟩⟩ }, .goto)
  | append (here : s.fsmEnqueue = ⟨Enqueue.flush, ⟨StreamWriteFlush.start⟩⟩) :
      InnermostEffect io s tByte (blockAppended s, .goto)
  | busy (here : s.fsmEnqueue = ⟨Enqueue.flush, ⟨StreamWriteFlush.isDmaBusy⟩⟩)
      (busy : s.bBusy = true) :
      InnermostEffect io s tByte
        ({ s with fsmEnqueue := ⟨Enqueue.getByteFifo, ⟨StreamWriteFlush.start⟩⟩ }, .goto)
  | acquire (here : s.fsmEnqueue = ⟨Enqueue.flush, ⟨StreamWriteFlush.isDmaBusy⟩⟩)
      (idle : s.bBusy = false) :
      InnermostEffect io s tByte
        ({ s with
            bBusy := true
            fsmEnqueue := ⟨Enqueue.flush, ⟨StreamWriteFlush.getBlock⟩⟩ }, .goto)
  | send {u : StreamWrite β D}
      (here : s.fsmEnqueue = ⟨Enqueue.flush, ⟨StreamWriteFlush.getBlock⟩⟩)
      (sends : Sends io s u) :
      InnermostEffect io s tByte
        ({ u with fsmEnqueue := ⟨Enqueue.getByteFifo, ⟨StreamWriteFlush.start⟩⟩ }, .goto)
  | park (here : s.fsmEnqueue = ⟨Enqueue.getByteFifo, ⟨StreamWriteFlush.start⟩⟩)
      (noBlock : zeroStrmBlockNew s.tMemBlockFifo = (none, s.tMemBlockFifo)) :
      InnermostEffect io s tByte (s, .ret .onGoing)
  | take {block : Addr} {pool : MemBlkFifo β}
      (here : s.fsmEnqueue = ⟨Enqueue.getByteFifo, ⟨StreamWriteFlush.start⟩⟩)
      (found : zeroStrmBlockNew s.tMemBlockFifo = (some block, pool)) :
      InnermostEffect io s tByte (blockTaken s block pool, .goto)

/-- **The nine effects of a state of a call.** -/
theorem innermostState_effect (io : DmaTxIO β D) {s : StreamWrite β D} (tByte : β)
    (place : Place s.fsmEnqueue) : InnermostEffect io s tByte (innermostState io tByte s) := by
  generalize here : s.fsmEnqueue = point at place
  have chState := congrArg FsmEnqueue.chState here
  have nested := congrArg FsmEnqueue.fsmFlush here
  cases place with
  | start =>
      rw [innermostState_enqueue (by rw [chState]; decide)]
      simp only [enqueueState, here]
      exact .start here
  | byteFifoIn =>
      rw [innermostState_enqueue (by rw [chState]; decide)]
      simp only [enqueueState, chState, nested]
      obtain ⟨⟨stored, pool, fifo⟩, code⟩ :
          ∃ r, zeroStrmEnqueueByteFifo s.tMemBlockFifo s.tByteFifo tByte = r := ⟨_, rfl⟩
      cases stored with
      | true =>
          simp only [code, if_true]
          exact .store here code
      | false =>
          have refused : (zeroStrmEnqueueByteFifo s.tMemBlockFifo s.tByteFifo tByte).1 = false := by
            rw [code]
          simp only [zeroStrmEnqueueByteFifo_refused refused]
          exact .full here refused
  | append =>
      rw [innermostState_flush io tByte s chState, nested]
      simp only [streamWriteFlushState, currentBlock]
      exact .append here
  | isDmaBusy =>
      rw [innermostState_flush io tByte s chState, nested]
      cases idle : s.bBusy with
      | false =>
          simp only [streamWriteFlushState, idle, if_true]
          exact .acquire here idle
      | true =>
          simp only [streamWriteFlushState, idle]
          exact .busy here idle
  | getBlock =>
      rw [innermostState_flush io tByte s chState, nested, getBlock_sends]
      exact .send here (sendNext_sends io s)
  | getByteFifo =>
      rw [innermostState_enqueue (by rw [chState]; decide)]
      simp only [enqueueState, chState, nested]
      cases found : s.tMemBlockFifo.ptFreeList with
      | none =>
          have noBlock : zeroStrmBlockNew s.tMemBlockFifo = (none, s.tMemBlockFifo) := by
            simp only [zeroStrmBlockNew, found]
          simp only [noBlock]
          exact .park here noBlock
      | some block =>
          obtain ⟨pool, code⟩ : ∃ pool, zeroStrmBlockNew s.tMemBlockFifo = (some block, pool) := by
            simp only [zeroStrmBlockNew, found]
            exact ⟨_, rfl⟩
          simp only [code]
          exact .take here code

/-- After every state the machines are again in one of the places. -/
theorem InnermostEffect.place {io : DmaTxIO β D} {s : StreamWrite β D} {tByte : β}
    {r : StreamWrite β D × Ctl} (effect : InnermostEffect io s tByte r) :
    Place r.1.fsmEnqueue := by
  cases effect with
  | start => exact .byteFifoIn
  | store => exact .start
  | full => exact .append
  | append => exact .isDmaBusy
  | busy => exact .getByteFifo
  | acquire => exact .getBlock
  | send => exact .getByteFifo
  | park here =>
      rw [here]
      exact .getByteFifo
  | take => exact .byteFifoIn

/-! ## The interrupt handler -/

/-- A flush that has nothing to append and finds `bBusy` clear sends the next block. -/
theorem streamWriteFlush_nothing (io : DmaTxIO β D) {pptByteFifo : StreamWrite β D → Ptr}
    {s : StreamWrite β D} (nothing : pptByteFifo s = none) (idle : s.bBusy = false) :
    streamWriteFlush io pptByteFifo ⟨StreamWriteFlush.start⟩ s =
      ((⟨StreamWriteFlush.start⟩, sendNext io { s with bBusy := true }), some .cpl) := by
  have appends : streamWriteFlushState io pptByteFifo (⟨StreamWriteFlush.start⟩, s) =
      ((⟨StreamWriteFlush.isDmaBusy⟩, s), .goto) := by
    simp only [streamWriteFlushState, nothing, zeroStrmBlockAppend]
  have acquires : streamWriteFlushState io pptByteFifo (⟨StreamWriteFlush.isDmaBusy⟩, s) =
      ((⟨StreamWriteFlush.getBlock⟩, { s with bBusy := true }), .goto) := by
    simp only [streamWriteFlushState, idle, if_true]
  rw [streamWriteFlush, call_goto appends, call_goto acquires, call_ret (getBlock_sends ..)]

/-- **The handler frees a block and sends the next one.** -/
theorem cplEventHandler_sends (io : DmaTxIO β D) {s : StreamWrite β D}
    (fresh : s.fsmFlushAuto = ⟨StreamWriteFlush.start⟩) (nothing : s.ptByteFifoCpl = none) :
    Sends io
      { s with tMemBlockFifo := zeroStrmBlockFree s.tMemBlockFifo s.ptFifoSend, bBusy := true }
      (zeroStrmDmaSendDataCplEventHandler io s) := by
  obtain ⟨freed, isFreed⟩ : ∃ freed : StreamWrite β D, freed = { s with
      tMemBlockFifo := zeroStrmBlockFree s.tMemBlockFifo s.ptFifoSend
      bBusy := false } := ⟨_, rfl⟩
  have start : freed.fsmFlushAuto = ⟨StreamWriteFlush.start⟩ := by rw [isFreed, fresh]
  have appendsNothing : freed.ptByteFifoCpl = none := by rw [isFreed, nothing]
  have idle : freed.bBusy = false := by rw [isFreed]
  have flush := streamWriteFlush_nothing io appendsNothing idle
  rw [← start] at flush
  have handled : zeroStrmDmaSendDataCplEventHandler io s =
      { sendNext io { freed with bBusy := true } with fsmFlushAuto := freed.fsmFlushAuto } := by
    rw [zeroStrmDmaSendDataCplEventHandler, ← isFreed, flush]
  rw [handled, isFreed]
  have sends := sendNext_sends io { s with
    tMemBlockFifo := zeroStrmBlockFree s.tMemBlockFifo s.ptFifoSend
    bBusy := true }
  generalize sendNext io { s with
    tMemBlockFifo := zeroStrmBlockFree s.tMemBlockFifo s.ptFifoSend
    bBusy := true } = u at sends ⊢
  cases sends with
  | drained empty head => exact .drained empty head
  | started fetched => exact .started fetched

/-- The stream when the handler comes to its `GET_BLOCK`. -/
def cplFreed (s : TxStream β) : TxStream β :=
  { s with
    dma := s.dma.complete
    tMemBlockFifo := zeroStrmBlockFree s.tMemBlockFifo s.ptFifoSend
    bBusy := true }

theorem completed_sends {s : TxStream β} (fresh : s.fsmFlushAuto = ⟨StreamWriteFlush.start⟩)
    (nothing : s.ptByteFifoCpl = none) : Sends dmaTx (cplFreed s) (completed s) := by
  have sends : Sends dmaTx _
      (zeroStrmDmaSendDataCplEventHandler dmaTx { s with dma := s.dma.complete }) :=
    cplEventHandler_sends dmaTx fresh nothing
  exact sends

theorem Sends.frame {io : DmaTxIO β D} {s u : StreamWrite β D} (sends : Sends io s u) :
    u.fsmEnqueue = s.fsmEnqueue ∧ u.tByteFifo = s.tByteFifo ∧ u.ptByteFifo = s.ptByteFifo := by
  cases sends <;> exact ⟨rfl, rfl, rfl⟩

end ZeroStrm
