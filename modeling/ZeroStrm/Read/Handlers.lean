import ZeroStrm.Common.BlockAccess
import ZeroStrm.Read.Ownership
import ZeroStrm.Read.DmaLength

/-!
# What a handler does to the lists

The handlers of the receiver touch the lists of the block manager in a flush only. A flush without
data leaves every pointer as it is: it takes the first free block and puts it back
(`poolAfter_pointers`). A flush with data takes the first free block and links the receiving
block behind the last queued one.

So what a handler does can be computed on a memory that differs in pointers from that of the
stream (`handler_set`), as a call that is under way in the application leaves one behind. Nor
does a handler read or write what only the application uses, which is the byte queue and the state
of `dequeue` (`handler_own`).
-/

set_option autoImplicit false

namespace ZeroStrm

open EventRuns

variable {β : Type}

/-! ## The memory after a handler -/

/-- The stream with another memory of the block manager. -/
def withPool {D : Type} (m : MemBlkFifo β) (s : StreamRead β D) : StreamRead β D :=
  { s with tMemBlockFifo := m }

/-- The memory after an event, as a function of the memory before. -/
def poolAfter (s : RxStream β) (e : ReadEvent β) (m : MemBlkFifo β) : MemBlkFifo β :=
  match e with
  | .arrive byte => (dmaRx.arrive byte m s.dma).1
  | e => if flushes s e then flushedPool dmaRx.toDmaRxIO (withPool m s) else m

theorem poolAfter_flush {s : RxStream β} {e : ReadEvent β} (m : MemBlkFifo β)
    (ran : flushes s e = true) :
    poolAfter s e m = flushedPool dmaRx.toDmaRxIO (withPool m s) := by
  cases e with
  | arrive => cases ran
  | _ =>
      dsimp only [poolAfter]
      rw [if_pos ran]

theorem poolAfter_rest {s : RxStream β} {e : ReadEvent β} (m : MemBlkFifo β)
    (rests : flushes s e = false) (noByte : ∀ byte, e ≠ .arrive byte) : poolAfter s e m = m := by
  have notRan : ¬ flushes s e = true := by rw [rests]; decide
  cases e with
  | arrive byte => exact absurd rfl (noByte byte)
  | _ =>
      dsimp only [poolAfter]
      rw [if_neg notRan]

/-- Whether an event flushes is seen from what the timeout test reads. -/
theorem flushes_offTimer {f : RxStream β → RxStream β} (off : OffTimer f) (s : RxStream β)
    (e : ReadEvent β) : flushes (f s) e = flushes s e := by
  have test := isReallyTimeOut_offTimer dmaRx.toDmaRxIO off s
  cases e with
  | tick =>
      change (isReallyTimeOut _ _).1 = _
      rw [test]
      rfl
  | _ => rfl

theorem offTimer_withPool {D : Type} (m : MemBlkFifo β) :
    OffTimer fun s : StreamRead β D => withPool m s := by
  constructor <;> intros <;> rfl

theorem received_withPool {D : Type} (io : DmaRxIO β D) (m : MemBlkFifo β)
    (s : StreamRead β D) : received io (withPool m s) = received io s := rfl

/-- A start of the channel reads the sizes only. -/
theorem DmaRx.start_congr {m u : MemBlkFifo β} (sizes : u.tSizeInByte = m.tSizeInByte)
    (block : Addr) (d : DmaRx β) : DmaRx.start u block d = DmaRx.start m block d := by
  unfold DmaRx.start
  rw [sizes]

/-- A flush reads the memory through the free list and the sizes. -/
theorem flushed_withPool {m : MemBlkFifo β} {s : RxStream β}
    (same : SameBlocks s.tMemBlockFifo m) :
    rxFlushed (withPool m s) =
      withPool (flushedPool dmaRx.toDmaRxIO (withPool m s)) (rxFlushed s) := by
  have block : newBlock (withPool m s) = newBlock s := by
    rw [newBlock_eq, newBlock_eq]
    exact same.list
  have started : flushedDma dmaRx.toDmaRxIO (withPool m s) = flushedDma dmaRx.toDmaRxIO s := by
    unfold flushedDma
    rw [received_withPool, block]
    by_cases nothing : rxReceived s = 0
    · rw [if_pos nothing, if_pos nothing]
      rfl
    · rw [if_neg nothing, if_neg nothing]
      cases found : newBlock s with
      | none => rfl
      | some b =>
          have sizes : (flushedPool dmaRx.toDmaRxIO (withPool m s)).tSizeInByte =
              (flushedPool dmaRx.toDmaRxIO s).tSizeInByte := by
            rw [tSizeInByte_flushedPool nothing,
              tSizeInByte_flushedPool (s := withPool m s) nothing, tSizeInByte_newPool found,
              tSizeInByte_newPool (s := withPool m s) (block.trans found)]
            change Function.update (Function.update m.tSizeInByte b _) _ _ = _
            rw [same.sizes]
            rfl
          exact DmaRx.start_congr sizes b s.dma
  have dmaBlock : flushedDmaRx dmaRx.toDmaRxIO (withPool m s) =
      flushedDmaRx dmaRx.toDmaRxIO s := by
    simp only [flushedDmaRx, block]
    rfl
  change flushed _ _ = _
  unfold flushed
  rw [dmaBlock, started]
  rfl

/-- **A handler on another memory.** What it does apart from the memory is the same. -/
theorem handler_set {s : ReadSystem β (DmaRx β)} (quiet : Quiet s.strm) {e : ReadEvent β}
    (handler : e ≠ .read) {m : MemBlkFifo β} (same : SameBlocks s.strm.tMemBlockFifo m) :
    readStep dmaRx { s with strm := withPool m s.strm } e =
      { readStep dmaRx s e with
        strm := withPool (poolAfter s.strm e m) (readStep dmaRx s e).strm } := by
  cases e with
  | arrive byte =>
      simp only [readStep, poolAfter, withPool, dmaRx]
      split_ifs <;> rfl
  | dmaHalf =>
      have quiet' : (withPool m s.strm).fsmFlushHt.chState = StreamReadFlush.start :=
        quiet.flushHt
      simp only [readStep, zeroStrmUartDmaGetDataInsertToDmaIrqEventHandler,
        flushHt_eq quiet.flushHt, flushHt_eq quiet']
      have sameBusy : SameBlocks ({ s.strm with
          bBusy := true, bUartIdle := false } : RxStream β).tMemBlockFifo m := same
      have flush := flushed_withPool sameBusy
      have block : newBlock (withPool m s.strm) = newBlock s.strm := by
        rw [newBlock_eq, newBlock_eq]
        exact same.list
      rw [block]
      exact congrArg (fun u : RxStream β => (⟨{ u with
        fsmFlushHt := ⟨StreamReadFlush.start, newBlock s.strm⟩ }, s.returned⟩ :
          ReadSystem β (DmaRx β))) flush
  | uartIdle => rfl
  | tick =>
      have test := isReallyTimeOut_offTimer dmaRx.toDmaRxIO (offTimer_withPool m) s.strm
      have first : (isReallyTimeOut dmaRx.toDmaRxIO (withPool m s.strm)).1 =
          (isReallyTimeOut dmaRx.toDmaRxIO s.strm).1 := by rw [test]
      have second : (isReallyTimeOut dmaRx.toDmaRxIO (withPool m s.strm)).2 =
          withPool m (isReallyTimeOut dmaRx.toDmaRxIO s.strm).2 := by rw [test]
      have quiet' : (withPool m s.strm).fsmTimeOut.chState = TimeOut.start := quiet.timeOut
      have data := SameData.isReallyTimeOut s.strm
      simp only [readStep, zeroStrmUartWaitTimeOutInsertToHardTimerIrqEventHandler]
      by_cases really : (isReallyTimeOut dmaRx.toDmaRxIO s.strm).1 = true
      · have same' : SameBlocks (isReallyTimeOut dmaRx.toDmaRxIO s.strm).2.tMemBlockFifo m := by
          rw [data.pool]
          exact same
        have flush := flushed_withPool same'
        have pool : flushedPool dmaRx.toDmaRxIO
            (withPool m (isReallyTimeOut dmaRx.toDmaRxIO s.strm).2) =
              flushedPool dmaRx.toDmaRxIO (withPool m s.strm) := by
          have here : SameData (withPool m s.strm)
              (withPool m (isReallyTimeOut dmaRx.toDmaRxIO s.strm).2) :=
            ⟨rfl, data.fifo, data.dmaBlock, data.dequeue, data.total, data.dma⟩
          exact here.flushed.pool
        have block : newBlock (withPool m (isReallyTimeOut dmaRx.toDmaRxIO s.strm).2) =
            newBlock (isReallyTimeOut dmaRx.toDmaRxIO s.strm).2 := by
          rw [newBlock_eq, newBlock_eq]
          exact same'.list
        rw [timeOut_really quiet.timeOut really,
          timeOut_really quiet' (first.trans really), second, block,
          poolAfter_flush (e := .tick) m really, ← pool]
        exact congrArg (fun u : RxStream β => (⟨{ u with
          fsmTimeOut := ⟨TimeOut.start, newBlock (isReallyTimeOut dmaRx.toDmaRxIO s.strm).2⟩ },
            s.returned⟩ : ReadSystem β (DmaRx β))) flush
      · have really' := Bool.eq_false_iff.mpr really
        rw [timeOut_not_really quiet.timeOut really',
          timeOut_not_really quiet' (first.trans really'), second,
          poolAfter_rest (e := .tick) m really' (by rintro _ ⟨⟩)]
        rfl
  | read => exact absurd rfl handler

theorem handler_pool {s : ReadSystem β (DmaRx β)} (quiet : Quiet s.strm) {e : ReadEvent β}
    (handler : e ≠ .read) :
    (readStep dmaRx s e).strm.tMemBlockFifo = poolAfter s.strm e s.strm.tMemBlockFifo := by
  have same := handler_set quiet handler (m := s.strm.tMemBlockFifo) ⟨rfl, rfl, rfl⟩
  exact congrArg (fun u : ReadSystem β (DmaRx β) => u.strm.tMemBlockFifo) same

/-! ## What only the application uses -/

/-- The stream with another byte queue and another state of `dequeue`. -/
def withOwn {D : Type} (fifo : ByteFifo) (dequeue : FsmDequeue) (s : StreamRead β D) :
    StreamRead β D :=
  { s with tByteFifo := fifo, fsmDequeue := dequeue }

theorem offTimer_withOwn {D : Type} (fifo : ByteFifo) (dequeue : FsmDequeue) :
    OffTimer fun s : StreamRead β D => withOwn fifo dequeue s := by
  constructor <;> intros <;> rfl

/-- **A handler leaves what only the application uses alone**, and does the same whatever it
is. -/
theorem handler_own {s : ReadSystem β (DmaRx β)} (quiet : Quiet s.strm) {e : ReadEvent β}
    (handler : e ≠ .read) (fifo : ByteFifo) (dequeue : FsmDequeue) :
    readStep dmaRx { s with strm := withOwn fifo dequeue s.strm } e =
      { readStep dmaRx s e with strm := withOwn fifo dequeue (readStep dmaRx s e).strm } := by
  cases e with
  | arrive byte => rfl
  | dmaHalf =>
      have quiet' : (withOwn fifo dequeue s.strm).fsmFlushHt.chState = StreamReadFlush.start :=
        quiet.flushHt
      simp only [readStep, zeroStrmUartDmaGetDataInsertToDmaIrqEventHandler,
        flushHt_eq quiet.flushHt, flushHt_eq quiet']
      rfl
  | uartIdle => rfl
  | tick =>
      have test :=
        isReallyTimeOut_offTimer dmaRx.toDmaRxIO (offTimer_withOwn fifo dequeue) s.strm
      have first : (isReallyTimeOut dmaRx.toDmaRxIO (withOwn fifo dequeue s.strm)).1 =
          (isReallyTimeOut dmaRx.toDmaRxIO s.strm).1 := by rw [test]
      have second : (isReallyTimeOut dmaRx.toDmaRxIO (withOwn fifo dequeue s.strm)).2 =
          withOwn fifo dequeue (isReallyTimeOut dmaRx.toDmaRxIO s.strm).2 := by rw [test]
      have quiet' : (withOwn fifo dequeue s.strm).fsmTimeOut.chState = TimeOut.start :=
        quiet.timeOut
      simp only [readStep, zeroStrmUartWaitTimeOutInsertToHardTimerIrqEventHandler]
      by_cases really : (isReallyTimeOut dmaRx.toDmaRxIO s.strm).1 = true
      · rw [timeOut_really quiet.timeOut really, timeOut_really quiet' (first.trans really),
          second]
        rfl
      · have really' := Bool.eq_false_iff.mpr really
        rw [timeOut_not_really quiet.timeOut really',
          timeOut_not_really quiet' (first.trans really'), second]
        rfl
  | read => exact absurd rfl handler

theorem handler_frame {s t : ReadSystem β (DmaRx β)} (quiet : Quiet s.strm) {e : ReadEvent β}
    (handler : e ≠ .read) (step : ReadStep dmaRx s e t) :
    t.strm.tByteFifo = s.strm.tByteFifo ∧ t.strm.fsmDequeue = s.strm.fsmDequeue ∧
      t.returned = s.returned := by
  cases step.effect quiet with
  | arrive byte => exact ⟨rfl, rfl, rfl⟩
  | read => exact absurd rfl handler
  | flush _ same => exact ⟨same.fifo, same.dequeue, rfl⟩
  | idle _ same => exact ⟨same.fifo, same.dequeue, rfl⟩

/-! ## The pointers after a handler -/

/-- A handler that appends a block. -/
def Appends (s : RxStream β) (e : ReadEvent β) : Prop :=
  flushes s e = true ∧ rxReceived s ≠ 0

/-- A flush without data changes the size of the first free block and nothing else. -/
theorem flushedPool_nothing_eq {D : Type} {io : DmaRxIO β D} {s : StreamRead β D}
    (nothing : received io s = 0) :
    flushedPool io s =
      match s.tMemBlockFifo.ptFreeList with
      | none => s.tMemBlockFifo
      | some block => s.tMemBlockFifo.setSize block s.hwDmaSizeTotal := by
  rw [flushedPool, if_pos nothing]
  cases top : s.tMemBlockFifo.ptFreeList with
  | none => simp only [newPool, newBlock, zeroStrmBlockNew, top, zeroStrmBlockFree]
  | some block =>
      have back : Function.update s.tMemBlockFifo.ptNext block
          (s.tMemBlockFifo.ptNext block) = s.tMemBlockFifo.ptNext := Function.update_eq_self ..
      simp only [newPool, newBlock, zeroStrmBlockNew, top, zeroStrmBlockFree,
        MemBlkFifo.setSize, back]

/-- **A handler that appends nothing leaves every pointer alone**, and does the same to the sizes
and the data whatever the pointers are. -/
theorem poolAfter_pointers {s : RxStream β} {e : ReadEvent β} (rests : ¬ Appends s e)
    {m u : MemBlkFifo β} (same : SameBlocks m u) :
    poolAfter s e u =
      withData (poolAfter s e m).tSizeInByte (poolAfter s e m).chMemory u := by
  obtain ⟨list, sizes, memory⟩ := same
  cases m
  cases u
  dsimp only at list sizes memory
  subst list sizes memory
  cases ran : flushes s e with
  | true =>
      have nothing : rxReceived s = 0 := by
        by_contra something
        exact rests ⟨ran, something⟩
      have flush (m : MemBlkFifo β) :=
        (poolAfter_flush m ran).trans (flushedPool_nothing_eq (s := withPool m s) nothing)
      rw [flush, flush]
      dsimp only [withPool]
      split <;> rfl
  | false =>
      cases e with
      | arrive byte =>
          simp only [poolAfter, dmaRx, MemBlkFifo.setByte]
          split_ifs <;> rfl
      | _ =>
          rw [poolAfter_rest _ ran (by rintro _ ⟨⟩), poolAfter_rest _ ran (by rintro _ ⟨⟩)]
          rfl

/-- Clearing the pointer of a block that is not the first free one does not matter to an
allocation. -/
theorem new_nextCleared {m : MemBlkFifo β} {block : Addr} (notFirst : m.ptFreeList ≠ some block) :
    zeroStrmBlockNew (nextCleared block m) =
      ((zeroStrmBlockNew m).1, nextCleared block (zeroStrmBlockNew m).2) := by
  cases top : m.ptFreeList with
  | none =>
      have top' : (nextCleared block m).ptFreeList = none := top
      simp only [zeroStrmBlockNew, top, top']
  | some first =>
      have top' : (nextCleared block m).ptFreeList = some first := top
      have other : first ≠ block := fun same => notFirst (same ▸ top)
      have next : (nextCleared block m).ptNext first = m.ptNext first :=
        Function.update_of_ne other ..
      simp only [zeroStrmBlockNew, top, top', next]
      rfl

/-- Nor does it matter to an append, for a block that is neither the last one nor the new one. -/
theorem append_nextCleared {m : MemBlkFifo β} {block new : Addr} (other : block ≠ new)
    (notLast : m.ptTail ≠ some block) :
    (zeroStrmBlockAppend (nextCleared block m) (some new)).2 =
      nextCleared block (zeroStrmBlockAppend m (some new)).2 := by
  cases tail : m.ptTail with
  | none =>
      simp only [zeroStrmBlockAppend, tail, nextCleared]
      rw [Function.update_comm other]
  | some last =>
      have other' : block ≠ last := fun same => notLast (same ▸ tail)
      simp only [zeroStrmBlockAppend, tail, nextCleared]
      rw [Function.update_comm other, Function.update_comm other']

/-- **A handler does not touch the pointer of a block that only the application has.** -/
theorem poolAfter_nextCleared {s : RxStream β} {e : ReadEvent β} {m : MemBlkFifo β}
    {block : Addr} (notFirst : m.ptFreeList ≠ some block) (notLast : m.ptTail ≠ some block)
    (notReceiving : block ≠ s.ptByteFifoDmaRx) :
    poolAfter s e (nextCleared block m) = nextCleared block (poolAfter s e m) := by
  by_cases appends : Appends s e
  · obtain ⟨ran, something⟩ := appends
    have pool : newPool (withPool (nextCleared block m) s) =
        nextCleared block (newPool (withPool m s)) := by
      simp only [newPool, withPool, new_nextCleared notFirst]
      cases (zeroStrmBlockNew m).1 <;> rfl
    have last : (newPool (withPool m s)).ptTail = m.ptTail := by
      simp only [newPool, withPool, zeroStrmBlockNew]
      cases m.ptFreeList <;> rfl
    rw [poolAfter_flush _ ran, poolAfter_flush _ ran, flushedPool, flushedPool,
      received_withPool, received_withPool, if_neg something, if_neg something, pool]
    have sized : ((newPool (withPool m s)).setSize s.ptByteFifoDmaRx (rxReceived s)).ptTail ≠
        some block := fun same => notLast (last ▸ same)
    exact append_nextCleared notReceiving sized
  · have same : SameBlocks m (nextCleared block m) := ⟨rfl, rfl, rfl⟩
    have here : poolAfter s e m = withData _ _ m :=
      poolAfter_pointers appends (m := m) ⟨rfl, rfl, rfl⟩
    rw [poolAfter_pointers appends same]
    exact (congrArg (nextCleared block) here).symm

/-! ## What a handler does to a block that it does not move -/

/-- A handler leaves the size of a block alone that is neither the first free one nor the
receiving one. -/
theorem poolAfter_size {s : RxStream β} {e : ReadEvent β} {m : MemBlkFifo β} {block : Addr}
    (notFirst : m.ptFreeList ≠ some block) (notReceiving : block ≠ s.ptByteFifoDmaRx) :
    (poolAfter s e m).tSizeInByte block = m.tSizeInByte block := by
  cases ran : flushes s e with
  | true =>
      rw [poolAfter_flush m ran]
      refine tSizeInByte_flushedPool_other ?_ notReceiving
      rw [newBlock_eq]
      exact notFirst
  | false =>
      cases e with
      | arrive byte =>
          simp only [poolAfter, dmaRx]
          split_ifs <;> rfl
      | _ => rw [poolAfter_rest m ran (by rintro _ ⟨⟩)]

/-- The memory after a handler that appends a block, with a free block for the channel. -/
theorem poolAfter_appends {s : RxStream β} {e : ReadEvent β} {m : MemBlkFifo β} {first : Addr}
    (appends : Appends s e) (top : m.ptFreeList = some first) :
    poolAfter s e m =
      (zeroStrmBlockAppend
        ((({ m with ptFreeList := m.ptNext first } : MemBlkFifo β).setSize first
          s.hwDmaSizeTotal).setSize s.ptByteFifoDmaRx (rxReceived s))
        (some s.ptByteFifoDmaRx)).2 := by
  rw [poolAfter_flush m appends.1, flushedPool, received_withPool, if_neg appends.2]
  have pool : newPool (withPool m s) =
      ({ m with ptFreeList := m.ptNext first } : MemBlkFifo β).setSize first
        s.hwDmaSizeTotal := by
    simp only [newPool, withPool, zeroStrmBlockNew, top]
  rw [pool]
  rfl

/-- Such a handler leaves the pointer of a block alone that is neither the last one nor the
receiving one. -/
theorem poolAfter_next {s : RxStream β} {e : ReadEvent β} {m : MemBlkFifo β} {block : Addr}
    {first : Addr} (appends : Appends s e) (top : m.ptFreeList = some first)
    (notLast : m.ptTail ≠ some block) (notReceiving : block ≠ s.ptByteFifoDmaRx) :
    (poolAfter s e m).ptNext block = m.ptNext block := by
  rw [poolAfter_appends appends top]
  cases tail : m.ptTail with
  | none =>
      simp only [zeroStrmBlockAppend, MemBlkFifo.setSize]
      exact Function.update_of_ne notReceiving ..
  | some last =>
      have other : block ≠ last := fun same => notLast (same ▸ tail)
      simp only [zeroStrmBlockAppend, MemBlkFifo.setSize]
      rw [Function.update_of_ne other, Function.update_of_ne notReceiving]

end ZeroStrm
