import ZeroStrm.Read.DmaLength

/-!
# The flush that `time_out` calls

`time_out` keeps its state in the memory of the flush machine that it calls. When it reaches
`FLUSH` that state is the number of `GET_BLOCK`, so the nested flush runs only the last two of
its states. It neither tests nor sets `bBusy`.

A separate machine would start at `START`. At a timeout the two do the same to the stream when
`bBusy` is clear and nothing was received. When `bBusy` is set a separate machine leaves the
stream alone, and the nested one does so only if its append writes what is already there, which
happens after two flushes with an empty pool (`nestedLaw_iff`). That the nested flush completes
at the busy test, or that `bBusy` is set when it takes a block, holds only where there is no
test to complete at and no block to take (`nestedFlush_iff`).
-/

set_option autoImplicit false

namespace ZeroStrm

open EventRuns

variable {β : Type}

/-! ## The two flushes -/

/-- The same `bBusy`, block manager, receiving block and channel, with its history of started
blocks. -/
structure SameEffect (s t : RxStream β) : Prop where
  busy : t.bBusy = s.bBusy
  pool : t.tMemBlockFifo = s.tMemBlockFifo
  dmaBlock : t.ptByteFifoDmaRx = s.ptByteFifoDmaRx
  dma : t.dma = s.dma

/-- The stream after a timeout whose flush runs on a machine of its own. -/
def separateFlush (s : RxStream β) : RxStream β :=
  (streamReadFlush dmaRx.toDmaRxIO ⟨StreamReadFlush.start, none⟩
    (isReallyTimeOut dmaRx.toDmaRxIO s).2).1.2

/-- The stream after a timeout as it is. -/
def nestedFlush (s : RxStream β) : RxStream β := (timeOut dmaRx.toDmaRxIO s).1

/-- The machine and the stream on entry to each state of the nested flush. -/
def nestedStates (s : RxStream β) : List (FsmStreamReadFlush × RxStream β) :=
  ((visited (timeOutState dmaRx.toDmaRxIO) 3 s).filter
    (·.fsmTimeOut.chState = TimeOut.flush)).flatMap fun t =>
      visited (streamReadFlushState dmaRx.toDmaRxIO) 4 (t.fsmTimeOut, t)

/-- Both flushes do the same to the stream. With `bBusy` set the nested one completes at the
busy test and changes nothing, and otherwise `bBusy` is set when it takes a block. -/
structure NestedLikeSeparate (s : RxStream β) : Prop where
  law : SameEffect (separateFlush s) (nestedFlush s)
  busy : s.bBusy = true →
    (nestedStates s).getLast?.map (·.1.chState) = some StreamReadFlush.isDmaBusy ∧
      SameEffect s (nestedFlush s)
  idle : s.bBusy = false → ∀ entry ∈ nestedStates s,
    entry.1.chState = StreamReadFlush.getBlock → entry.2.tMemBlockFifo.ptFreeList ≠ none →
      entry.2.bBusy = true

/-- Appending the receiving block writes what is already there. -/
def AppendsNothing (s : RxStream β) : Prop :=
  s.tMemBlockFifo.ptTail = some s.ptByteFifoDmaRx ∧
    s.tMemBlockFifo.ptNext s.ptByteFifoDmaRx = some s.ptByteFifoDmaRx ∧
      s.tMemBlockFifo.tSizeInByte s.ptByteFifoDmaRx = rxReceived s

/-- An append changes nothing exactly when the block is the last one already and points to
itself. -/
theorem append_setSize_eq_iff {m : MemBlkFifo β} {block : Addr} {size : ℕ} :
    (zeroStrmBlockAppend (m.setSize block size) (some block)).2 = m ↔
      m.ptTail = some block ∧ m.ptNext block = some block ∧ m.tSizeInByte block = size := by
  constructor
  · intro same
    have sizes := congrFun (congrArg MemBlkFifo.tSizeInByte same) block
    rw [tSizeInByte_append] at sizes
    have size_eq : m.tSizeInByte block = size :=
      sizes.symm.trans (Function.update_self ..)
    cases last : m.ptTail with
    | none =>
        have tail := congrArg MemBlkFifo.ptTail same
        simp [zeroStrmBlockAppend, MemBlkFifo.setSize, last] at tail
    | some t =>
        have tail := congrArg MemBlkFifo.ptTail same
        have next := congrFun (congrArg MemBlkFifo.ptNext same) block
        simp only [zeroStrmBlockAppend, MemBlkFifo.setSize, last] at tail next
        obtain rfl := Option.some.inj tail
        rw [Function.update_self] at next
        exact ⟨rfl, next.symm, size_eq⟩
  · rintro ⟨last, next, rfl⟩
    have sameNext : Function.update (Function.update m.ptNext block none) block (some block) =
        m.ptNext := by
      rw [Function.update_idem, ← next, Function.update_eq_self]
    have sameSize : Function.update m.tSizeInByte block (m.tSizeInByte block) =
        m.tSizeInByte := Function.update_eq_self ..
    simp only [zeroStrmBlockAppend, MemBlkFifo.setSize, last, sameNext, sameSize]
    rw [← last]

/-! ## At a timeout -/

section TimeOut

variable {s : RxStream β}

/-- The test of a timeout has no effect on the blocks and the channel. -/
theorem SameEffect.isReallyTimeOut (s : RxStream β) :
    SameEffect s (ZeroStrm.isReallyTimeOut dmaRx.toDmaRxIO s).2 :=
  have same := SameData.isReallyTimeOut s
  ⟨isReallyTimeOut_bBusy dmaRx.toDmaRxIO s, same.pool, same.dmaBlock, same.dma⟩

/-- **The nested flush runs `GET_BLOCK` and `GET_DATA_CNT`**, with `bBusy` as it was. -/
theorem nestedStates_eq (fresh : s.fsmTimeOut.chState = TimeOut.start)
    (really : (isReallyTimeOut dmaRx.toDmaRxIO s).1 = true) :
    ∃ first last, nestedStates s = [first, last] ∧
      first.1.chState = StreamReadFlush.getBlock ∧ last.1.chState = StreamReadFlush.getDataCnt ∧
      SameEffect s first.2 := by
  have states : nestedStates s = visited (streamReadFlushState dmaRx.toDmaRxIO) 4
      (⟨TimeOut.flush, s.fsmTimeOut.ptByteFifo⟩,
        { (isReallyTimeOut dmaRx.toDmaRxIO s).2 with
          fsmTimeOut := ⟨TimeOut.flush, s.fsmTimeOut.ptByteFifo⟩ }) := by
    rw [nestedStates, visited_timeOut_really fresh really]
    simp [fresh]
  rw [states, visited_goto (getBlock_state rfl), visited_ret getDataCnt_state]
  have same := SameEffect.isReallyTimeOut s
  exact ⟨_, _, rfl, rfl, rfl, same.busy, same.pool, same.dmaBlock, same.dma⟩

/-- With `bBusy` clear, both flushes run. Only the nested one leaves `bBusy` clear after it
appended a block. -/
theorem nestedLaw_idle (fresh : s.fsmTimeOut.chState = TimeOut.start)
    (really : (isReallyTimeOut dmaRx.toDmaRxIO s).1 = true) (idle : s.bBusy = false) :
    SameEffect (separateFlush s) (nestedFlush s) ↔ rxReceived s = 0 := by
  have idle' := (isReallyTimeOut_bBusy dmaRx.toDmaRxIO s).trans idle
  have same := SameData.isReallyTimeOut s
  rw [separateFlush, streamReadFlush_idle rfl idle', nestedFlush, timeOut_really fresh really,
    ← same.received]
  constructor
  · intro effect
    by_contra something
    have busy : (if rxReceived (isReallyTimeOut dmaRx.toDmaRxIO s).2 = 0 then false
        else (isReallyTimeOut dmaRx.toDmaRxIO s).2.bBusy) =
        if rxReceived (isReallyTimeOut dmaRx.toDmaRxIO s).2 = 0 then false else true :=
      effect.busy
    rw [if_neg something, if_neg something, idle'] at busy
    cases busy
  · intro nothing
    have busy : (if rxReceived (isReallyTimeOut dmaRx.toDmaRxIO s).2 = 0 then false
        else (isReallyTimeOut dmaRx.toDmaRxIO s).2.bBusy) =
        if rxReceived (isReallyTimeOut dmaRx.toDmaRxIO s).2 = 0 then false else true := by
      rw [if_pos nothing, if_pos nothing]
    exact ⟨busy, rfl, rfl, rfl⟩

/-- A flush from `GET_BLOCK` on with `bBusy` set changes something, unless it appends nothing
new. -/
theorem flushed_sameEffect_iff (busy : s.bBusy = true) :
    SameEffect s (rxFlushed s) ↔
      rxReceived s ≠ 0 ∧ s.tMemBlockFifo.ptFreeList = none ∧ AppendsNothing s := by
  have appended (something : rxReceived s ≠ 0) (empty : s.tMemBlockFifo.ptFreeList = none) :
      (rxFlushed s).tMemBlockFifo =
        (zeroStrmBlockAppend (s.tMemBlockFifo.setSize s.ptByteFifoDmaRx (rxReceived s))
          (some s.ptByteFifoDmaRx)).2 := by
    have unchanged : newPool s = s.tMemBlockFifo := by
      simp only [newPool, zeroStrmBlockNew, empty]
    change flushedPool dmaRx.toDmaRxIO s = _
    rw [flushedPool, if_neg something, unchanged]
  constructor
  · intro effect
    have something : rxReceived s ≠ 0 := by
      intro nothing
      have cleared := effect.busy
      rw [busy] at cleared
      change (if rxReceived s = 0 then false else s.bBusy) = true at cleared
      rw [if_pos nothing] at cleared
      cases cleared
    have empty : s.tMemBlockFifo.ptFreeList = none := by
      cases top : s.tMemBlockFifo.ptFreeList with
      | none => rfl
      | some b =>
          have starts := congrArg (fun d => d.starts.length) effect.dma
          rw [(flushed_starts something top).2] at starts
          simp at starts
    exact ⟨something, empty, append_setSize_eq_iff.mp ((appended something empty).symm.trans
      effect.pool)⟩
  · rintro ⟨something, empty, nothingNew⟩
    obtain ⟨dma, dmaBlock⟩ := flushed_goes_on (.inr empty)
    refine ⟨?_, ?_, dmaBlock, dma⟩
    · exact if_neg something
    · rw [appended something empty]
      exact append_setSize_eq_iff.mpr nothingNew

/-- With `bBusy` set, only the nested flush runs. -/
theorem nestedLaw_busy (fresh : s.fsmTimeOut.chState = TimeOut.start)
    (really : (isReallyTimeOut dmaRx.toDmaRxIO s).1 = true) (busy : s.bBusy = true) :
    SameEffect (separateFlush s) (nestedFlush s) ↔
      rxReceived s ≠ 0 ∧ s.tMemBlockFifo.ptFreeList = none ∧ AppendsNothing s := by
  have busy' := (isReallyTimeOut_bBusy dmaRx.toDmaRxIO s).trans busy
  have same := SameData.isReallyTimeOut s
  have appends : AppendsNothing (isReallyTimeOut dmaRx.toDmaRxIO s).2 ↔ AppendsNothing s := by
    rw [AppendsNothing, AppendsNothing, same.pool, same.dmaBlock, same.received]
  rw [separateFlush, streamReadFlush_busy rfl busy', nestedFlush, timeOut_really fresh really,
    ← appends, ← same.received, ← same.pool, ← flushed_sameEffect_iff busy']
  exact ⟨fun effect => ⟨effect.busy, effect.pool, effect.dmaBlock, effect.dma⟩,
    fun effect => ⟨effect.busy, effect.pool, effect.dmaBlock, effect.dma⟩⟩

/-- **When the nested flush does what a separate one does.** -/
theorem nestedLaw_iff (fresh : s.fsmTimeOut.chState = TimeOut.start)
    (really : (isReallyTimeOut dmaRx.toDmaRxIO s).1 = true) :
    SameEffect (separateFlush s) (nestedFlush s) ↔
      s.bBusy = false ∧ rxReceived s = 0 ∨
        s.bBusy = true ∧ rxReceived s ≠ 0 ∧ s.tMemBlockFifo.ptFreeList = none ∧
          AppendsNothing s := by
  cases busy : s.bBusy with
  | false => simp [nestedLaw_idle fresh really busy]
  | true => simp [nestedLaw_busy fresh really busy]

/-- **When it does so by the same means.** With `bBusy` set it never does, and with `bBusy`
clear only if it takes no block. -/
theorem nestedLikeSeparate_iff (fresh : s.fsmTimeOut.chState = TimeOut.start)
    (really : (isReallyTimeOut dmaRx.toDmaRxIO s).1 = true) :
    NestedLikeSeparate s ↔
      s.bBusy = false ∧ rxReceived s = 0 ∧ s.tMemBlockFifo.ptFreeList = none := by
  obtain ⟨first, last, states, atGetBlock, atGetDataCnt, same⟩ := nestedStates_eq fresh really
  constructor
  · intro like
    cases busy : s.bBusy with
    | true =>
        have completes := (like.busy busy).1
        rw [states] at completes
        simp [atGetDataCnt] at completes
    | false =>
        refine ⟨rfl, (nestedLaw_idle fresh really busy).mp like.law, ?_⟩
        by_contra block
        have set := like.idle busy first (by rw [states]; exact List.mem_cons_self ..) atGetBlock
          (by rw [same.pool]; exact block)
        rw [same.busy, busy] at set
        cases set
  · rintro ⟨idle, nothing, empty⟩
    refine ⟨(nestedLaw_idle fresh really idle).mpr nothing, ?_, ?_⟩
    · intro busy
      rw [idle] at busy
      cases busy
    · intro _ entry member atBlock block
      rw [states] at member
      rcases List.mem_pair.mp member with rfl | rfl
      · rw [same.pool] at block
        exact absurd empty block
      · rw [atGetDataCnt] at atBlock
        cases atBlock

end TimeOut

/-! ## Runs -/

/-- **In every state that a run reaches, at every timeout**, the nested flush has the effect of a
separate one exactly when `bBusy` is clear and nothing was received, or when with `bBusy` set
and an empty pool its append changes nothing. It does so by the same means exactly when `bBusy`
is clear, nothing was received and the pool is empty. -/
theorem nestedFlush_iff {cfg : StreamReadCfg} {m : MemBlkFifo β} {dma : DmaRx β} {s : RxStream β}
    (init : zeroStrmReadInit dmaRx.toDmaRxIO cfg m dma = some s) {es : List (ReadEvent β)}
    {t : ReadSystem β (DmaRx β)} (run : Run (ReadStep dmaRx) ⟨s, []⟩ es t)
    (really : (isReallyTimeOut dmaRx.toDmaRxIO t.strm).1 = true) :
    (SameEffect (separateFlush t.strm) (nestedFlush t.strm) ↔
      t.strm.bBusy = false ∧ rxReceived t.strm = 0 ∨
        t.strm.bBusy = true ∧ rxReceived t.strm ≠ 0 ∧
          t.strm.tMemBlockFifo.ptFreeList = none ∧ AppendsNothing t.strm) ∧
    (NestedLikeSeparate t.strm ↔
      t.strm.bBusy = false ∧ rxReceived t.strm = 0 ∧
        t.strm.tMemBlockFifo.ptFreeList = none) := by
  have quiet := (zeroStrmReadInit_spec init).quiet.run run
  exact ⟨nestedLaw_iff quiet.timeOut really, nestedLikeSeparate_iff quiet.timeOut really⟩

/-- With nothing received and no block to take, a timeout frees nothing and appends nothing. -/
theorem nestedFlush_iff_noBlock :
    ∃ s t, zeroStrmReadInit dmaRx.toDmaRxIO (smallCfg 2) zeroMemory DmaRx.reset = some s ∧
      Run (ReadStep dmaRx) ⟨s, []⟩ [.uartIdle, .tick] t ∧
      (isReallyTimeOut dmaRx.toDmaRxIO t.strm).1 = true ∧ NestedLikeSeparate t.strm := by
  obtain ⟨s, init⟩ : ∃ s,
      zeroStrmReadInit dmaRx.toDmaRxIO (smallCfg 2) zeroMemory DmaRx.reset = some s := ⟨_, rfl⟩
  obtain ⟨t, run, really, quietBlocks⟩ : ∃ t,
      Run (ReadStep dmaRx) ⟨s, []⟩ [.uartIdle, .tick] t ∧
        (isReallyTimeOut dmaRx.toDmaRxIO t.strm).1 = true ∧
        t.strm.bBusy = false ∧ rxReceived t.strm = 0 ∧
          t.strm.tMemBlockFifo.ptFreeList = none := by
    obtain rfl := Option.some.inj init
    exact ⟨_, ⟨_, rfl, _, rfl, rfl⟩, rfl, rfl, rfl, rfl⟩
  exact ⟨s, t, init, run, really, (nestedFlush_iff init run really).2.mpr quietBlocks⟩

/-- A flush of the DMA-half handler leaves `bBusy` set. At the next timeout a separate flush
would complete at the busy test, and the nested one appends the receiving block and starts the
channel on another. -/
theorem nestedFlush_busy :
    ∃ s t, zeroStrmReadInit dmaRx.toDmaRxIO (smallCfg 4) zeroMemory DmaRx.reset = some s ∧
      Run (ReadStep dmaRx) ⟨s, []⟩ [.arrive (7 : UInt8), .dmaHalf, .arrive 8, .uartIdle, .tick] t ∧
      (isReallyTimeOut dmaRx.toDmaRxIO t.strm).1 = true ∧ t.strm.bBusy = true ∧
      (separateFlush t.strm).ptByteFifoDmaRx = 1 ∧ (nestedFlush t.strm).ptByteFifoDmaRx = 0 ∧
      ¬ SameEffect (separateFlush t.strm) (nestedFlush t.strm) := by
  refine ⟨_, _, rfl, ⟨_, rfl, _, rfl, _, rfl, _, rfl, _, rfl, rfl⟩, rfl, rfl, rfl, rfl,
    fun effect => ?_⟩
  have dmaBlock : (0 : ℕ) = 1 := effect.dmaBlock
  cases dmaBlock

end ZeroStrm
