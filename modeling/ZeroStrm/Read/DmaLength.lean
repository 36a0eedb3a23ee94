import ZeroStrm.Read.Channel
import ZeroStrm.Read.Init

/-!
# The length of the receive transfer

A flush gives the block it found the size `hwDmaSizeTotal`, and then gives the receiving block
the received count as its size. It starts the channel on the first of the two. As long as they
are different blocks the transfer has the full length, and the sixteen-bit difference that
`get_dma_data_cnt` computes is the number of bytes stored since the start (`DmaAgrees`).

They can be the same block: after a flush without a new block the receiving block is queued,
`dequeue` drains it and frees it, and the next flush finds it on the free list. Then the second
size overwrites the first, and the channel is started for too few bytes. `dmaAgrees_iff` says
that the transfer has the right length throughout a run exactly when no flush of the run starts
a partly filled receiving block again (`FlushKeepsSize`).
-/

set_option autoImplicit false

namespace ZeroStrm

open EventRuns

variable {β : Type}

/-- The channel fills the receiving block, for the length that the stream counts with, and the
count a flush reads is the number of bytes stored since the block was handed over. -/
structure DmaAgrees (buffCnt : ℕ) (s : RxStream β) : Prop where
  total : s.hwDmaSizeTotal = buffCnt
  target : s.dma.target = s.ptByteFifoDmaRx
  length : s.dma.length = s.hwDmaSizeTotal
  starts : ∀ start ∈ s.dma.starts, start.2 = s.hwDmaSizeTotal
  stored : ∃ handed, s.dma.handedAt s.ptByteFifoDmaRx = some handed ∧
    s.dma.stored.length = handed + rxReceived s
  noWrap : (dmaRx.fnDmaCntGet s.dma).1 + rxReceived s = s.hwDmaSizeTotal
  bound : rxReceived s ≤ buffCnt
  count : rxReceived s = s.dma.count

/-- A flush does not find the receiving block on top of the free list, unless that block is
empty or full. -/
def FlushKeepsSize (s : ReadSystem β (DmaRx β)) (e : ReadEvent β) : Prop :=
  flushes s.strm e = true → s.strm.tMemBlockFifo.ptFreeList = some s.strm.ptByteFifoDmaRx →
    s.strm.dma.count = 0 ∨ s.strm.dma.count = s.strm.hwDmaSizeTotal

/-- The sixteen-bit difference is the count, if the channel counts from the same length. -/
theorem received_eq_count {s : RxStream β} (small : s.hwDmaSizeTotal < 2 ^ 16)
    (length : s.dma.length = s.hwDmaSizeTotal) (fits : s.dma.count ≤ s.dma.length) :
    rxReceived s = s.dma.count := by
  simp only [received, getDmaDataCnt, dmaRx, u16, length] at fits ⊢
  omega

namespace DmaAgrees

variable {buffCnt : ℕ} {s : RxStream β}

theorem of (small : buffCnt < 2 ^ 16) (total : s.hwDmaSizeTotal = buffCnt)
    (target : s.dma.target = s.ptByteFifoDmaRx) (length : s.dma.length = s.hwDmaSizeTotal)
    (starts : ∀ start ∈ s.dma.starts, start.2 = s.hwDmaSizeTotal)
    (stored : ∃ handed, s.dma.handedAt s.ptByteFifoDmaRx = some handed ∧
      s.dma.stored.length = handed + s.dma.count)
    (fits : s.dma.count ≤ s.dma.length) : DmaAgrees buffCnt s := by
  have count : rxReceived s = s.dma.count :=
    received_eq_count (by rw [total]; exact small) length fits
  refine ⟨total, target, length, starts, count ▸ stored, ?_, ?_, count⟩
  · rw [count, ← length]
    exact Nat.sub_add_cancel fits
  · rw [count, ← total, ← length]
    exact fits

theorem arrived (small : buffCnt < 2 ^ 16) (agrees : DmaAgrees buffCnt s) (byte : β) :
    DmaAgrees buffCnt (ZeroStrm.arrived s byte) := by
  by_cases room : s.dma.count < s.dma.length
  · rw [arrived_room byte room]
    refine of small agrees.total agrees.target agrees.length agrees.starts ?_ room
    obtain ⟨handed, handedAt, stored⟩ := agrees.stored
    refine ⟨handed, handedAt, ?_⟩
    simp only [List.length_append, List.length_singleton, stored, agrees.count]
    omega
  · rw [arrived_full byte room]
    exact agrees

theorem congr {s' : RxStream β} (agrees : DmaAgrees buffCnt s)
    (dmaBlock : s'.ptByteFifoDmaRx = s.ptByteFifoDmaRx)
    (total : s'.hwDmaSizeTotal = s.hwDmaSizeTotal) (dma : s'.dma = s.dma) :
    DmaAgrees buffCnt s' := by
  cases s
  cases s'
  dsimp only at dmaBlock total dma
  subst dmaBlock total dma
  exact ⟨agrees.total, agrees.target, agrees.length, agrees.starts, agrees.stored,
    agrees.noWrap, agrees.bound, agrees.count⟩

theorem sameData {s' : RxStream β} (agrees : DmaAgrees buffCnt s) (same : SameData s s') :
    DmaAgrees buffCnt s' :=
  agrees.congr same.dmaBlock same.total same.dma

theorem dequeueEffect {r : (RxStream β × Option β) × Ctl} (agrees : DmaAgrees buffCnt s)
    (effect : DequeueEffect s r) : DmaAgrees buffCnt r.1.1 := by
  cases effect <;> exact agrees.congr rfl rfl rfl

end DmaAgrees

/-! ## The transfer that a flush starts -/

section Flush

variable {buffCnt : ℕ} {s : RxStream β} {b : Addr}

/-- Without data, or without a new block, the channel goes on. -/
theorem flushed_goes_on (goesOn : rxReceived s = 0 ∨ s.tMemBlockFifo.ptFreeList = none) :
    (rxFlushed s).dma = s.dma ∧ (rxFlushed s).ptByteFifoDmaRx = s.ptByteFifoDmaRx := by
  change flushedDma dmaRx.toDmaRxIO s = s.dma ∧ flushedDmaRx dmaRx.toDmaRxIO s = s.ptByteFifoDmaRx
  unfold flushedDma flushedDmaRx
  by_cases nothing : rxReceived s = 0
  · rw [if_pos nothing, if_pos nothing]
    exact ⟨rfl, rfl⟩
  · rw [if_neg nothing, if_neg nothing, newBlock_eq, goesOn.resolve_left nothing]
    exact ⟨rfl, rfl⟩

/-- **With data and a new block the channel is started on that block.** Its size is the full
length, unless the block is the receiving one. -/
theorem flushed_starts (something : rxReceived s ≠ 0)
    (top : s.tMemBlockFifo.ptFreeList = some b) :
    (rxFlushed s).ptByteFifoDmaRx = b ∧ (rxFlushed s).dma =
      { target := b
        length := if b = s.ptByteFifoDmaRx then rxReceived s else s.hwDmaSizeTotal
        count := 0
        stored := s.dma.stored
        starts := s.dma.starts ++
          [(b, if b = s.ptByteFifoDmaRx then rxReceived s else s.hwDmaSizeTotal)]
        handedAt := Function.update s.dma.handedAt b (some s.dma.stored.length) } := by
  have found : newBlock s = some b := newBlock_eq.trans top
  have size : (flushedPool dmaRx.toDmaRxIO s).tSizeInByte b =
      if b = s.ptByteFifoDmaRx then rxReceived s else s.hwDmaSizeTotal := by
    rw [tSizeInByte_flushedPool something, tSizeInByte_newPool found]
    split_ifs with same
    · rw [same, Function.update_self]
    · rw [Function.update_of_ne same, Function.update_self]
  change flushedDmaRx dmaRx.toDmaRxIO s = b ∧ flushedDma dmaRx.toDmaRxIO s = _
  rw [flushedDmaRx, flushedDma, if_neg something, if_neg something, found, ← size]
  exact ⟨rfl, rfl⟩

/-- **A flush that does not shorten the receiving block keeps the agreement.** -/
theorem DmaAgrees.flushed (small : buffCnt < 2 ^ 16) (agrees : DmaAgrees buffCnt s)
    (keeps : s.tMemBlockFifo.ptFreeList = some s.ptByteFifoDmaRx →
      s.dma.count = 0 ∨ s.dma.count = s.hwDmaSizeTotal) : DmaAgrees buffCnt (rxFlushed s) := by
  by_cases goesOn : rxReceived s = 0 ∨ s.tMemBlockFifo.ptFreeList = none
  · obtain ⟨dma, dmaBlock⟩ := flushed_goes_on goesOn
    exact agrees.congr dmaBlock rfl dma
  · obtain ⟨something, top⟩ := not_or.mp goesOn
    obtain ⟨b, top⟩ := Option.ne_none_iff_exists'.mp top
    obtain ⟨dmaBlock, dma⟩ := flushed_starts something top
    have length : (if b = s.ptByteFifoDmaRx then rxReceived s else s.hwDmaSizeTotal) =
        s.hwDmaSizeTotal := by
      split_ifs with same
      · rw [agrees.count] at something ⊢
        exact (keeps (top.trans (congrArg some same))).resolve_left something
      · rfl
    rw [length] at dma
    refine of small agrees.total ?_ ?_ ?_ ?_ ?_
    · rw [dma, dmaBlock]
    · rw [dma]
      rfl
    · rw [dma]
      intro start member
      rcases List.mem_append.mp member with earlier | now
      · exact agrees.starts start earlier
      · rw [List.mem_singleton.mp now]
        rfl
    · rw [dma, dmaBlock]
      exact ⟨s.dma.stored.length, Function.update_self .., rfl⟩
    · rw [dma]
      exact Nat.zero_le _

/-- **A flush that starts a partly filled receiving block again breaks the agreement**: the
channel is started for the received count. -/
theorem DmaAgrees.flushed_shortened (agrees : DmaAgrees buffCnt s)
    (top : s.tMemBlockFifo.ptFreeList = some s.ptByteFifoDmaRx) (nonempty : s.dma.count ≠ 0)
    (notFull : s.dma.count ≠ s.hwDmaSizeTotal) : ¬ DmaAgrees buffCnt (rxFlushed s) := by
  intro after
  rw [← agrees.count] at nonempty notFull
  have length := after.length
  rw [(flushed_starts nonempty top).2, if_pos rfl] at length
  exact notFull length

end Flush

/-! ## Runs -/

section Runs

variable {cfg : StreamReadCfg} {m : MemBlkFifo β} {s : RxStream β}

theorem InitialRead.dmaAgrees (small : cfg.readBuffCnt < 2 ^ 16)
    (initial : InitialRead dmaRx.toDmaRxIO cfg DmaRx.reset s) :
    DmaAgrees cfg.readBuffCnt s := by
  have total : s.hwDmaSizeTotal = cfg.readBuffCnt := by rw [initial.total, u16_of_lt small]
  obtain ⟨pool, size, dma⟩ := initial.dma
  refine .of small total ?_ ?_ ?_ ?_ ?_
  · rw [dma, initial.dmaBlock]
    rfl
  · rw [dma, total, ← size]
    rfl
  · rw [dma, total, ← size]
    intro start member
    rw [List.mem_singleton.mp member]
  · rw [dma, initial.dmaBlock]
    exact ⟨0, Function.update_self .., rfl⟩
  · rw [dma]
    exact Nat.zero_le _

/-- The invariant of the runs whose flushes keep the length. -/
structure DmaInv (buffCnt : ℕ) (s : ReadSystem β (DmaRx β)) : Prop where
  quiet : Quiet s.strm
  agrees : DmaAgrees buffCnt s.strm

theorem DmaInv.kept {s t : ReadSystem β (DmaRx β)} {e : ReadEvent β}
    (small : cfg.readBuffCnt < 2 ^ 16) (inv : DmaInv cfg.readBuffCnt s)
    (keeps : FlushKeepsSize s e) (step : ReadStep dmaRx s e t) : DmaInv cfg.readBuffCnt t := by
  refine ⟨inv.quiet.kept step, ?_⟩
  cases step.effect inv.quiet with
  | arrive byte => exact inv.agrees.arrived small byte
  | read => exact inv.agrees.dequeueEffect (dequeueState_effect inv.quiet.dequeue)
  | flush ran same => exact (inv.agrees.flushed small (keeps ran)).sameData same
  | idle _ same => exact inv.agrees.sameData same

theorem DmaInv.broken {s t : ReadSystem β (DmaRx β)} {e : ReadEvent β}
    (inv : DmaInv cfg.readBuffCnt s) (shortens : ¬ FlushKeepsSize s e)
    (step : ReadStep dmaRx s e t) : ¬ DmaAgrees cfg.readBuffCnt t.strm := by
  simp only [FlushKeepsSize, Classical.not_imp, not_or] at shortens
  obtain ⟨ran, top, nonempty, notFull⟩ := shortens
  have same := ((step.effect inv.quiet).flushed ran).1
  intro agrees
  exact inv.agrees.flushed_shortened top nonempty notFull (agrees.sameData same.symm)

/-- **The channel has the full length exactly as long as no flush starts a partly filled
receiving block again.** The steps of a run all meet that condition exactly when the channel,
the stream and the received count agree in every state of the run. -/
theorem dmaAgrees_iff (small : cfg.readBuffCnt < 2 ^ 16)
    (init : zeroStrmReadInit dmaRx.toDmaRxIO cfg m DmaRx.reset = some s)
    {es : List (ReadEvent β)} {t : ReadSystem β (DmaRx β)}
    (run : Run (ReadStep dmaRx) ⟨s, []⟩ es t) :
    Run (guarded (ReadStep dmaRx) FlushKeepsSize) ⟨s, []⟩ es t ↔
      Throughout (ReadStep dmaRx) (fun u => DmaAgrees cfg.readBuffCnt u.strm) ⟨s, []⟩ es := by
  have initial := zeroStrmReadInit_spec init
  have start : DmaInv cfg.readBuffCnt ⟨s, []⟩ := ⟨initial.quiet, initial.dmaAgrees small⟩
  exact run.guarded_iff_throughout (readStep_deterministic dmaRx) (fun _ inv => inv.agrees)
    (fun _ _ _ inv => inv.kept small) (fun _ _ _ inv => inv.broken) start

end Runs

/-- A flush that finds another block starts the channel with the full length. -/
theorem dmaAgrees_iff_threeBlocks :
    ∃ s t, zeroStrmReadInit dmaRx.toDmaRxIO (smallCfg 3) zeroMemory DmaRx.reset = some s ∧
      Run (ReadStep dmaRx) ⟨s, []⟩ [.arrive 7, .dmaHalf] t ∧
      Throughout (ReadStep dmaRx) (fun u => DmaAgrees 16 u.strm) ⟨s, []⟩
        [.arrive 7, .dmaHalf] := by
  obtain ⟨s, init⟩ : ∃ s,
      zeroStrmReadInit dmaRx.toDmaRxIO (smallCfg 3) zeroMemory DmaRx.reset = some s := ⟨_, rfl⟩
  obtain ⟨t, run⟩ : ∃ t, Run (ReadStep dmaRx) ⟨s, []⟩ [.arrive 7, .dmaHalf] t :=
    ⟨_, _, rfl, _, rfl, rfl⟩
  have keeps : Run (guarded (ReadStep dmaRx) FlushKeepsSize) ⟨s, []⟩ [.arrive 7, .dmaHalf] t := by
    obtain rfl := Option.some.inj init
    obtain ⟨_, rfl, _, rfl, rfl⟩ := run
    exact ⟨_, ⟨nofun, rfl⟩, _, ⟨fun _ => nofun, rfl⟩, rfl⟩
  exact ⟨s, t, init, run, (dmaAgrees_iff (by decide) init run).mp keeps⟩

/-- The events after which the channel of a receiver with two blocks is too short: the pool is
empty at the first flush, the application reads the byte and frees the receiving block, and the
second flush finds that block with two bytes in it. -/
def shorteningEvents : List (ReadEvent UInt8) :=
  [.arrive 7, .dmaHalf, .read, .read, .read, .read, .read, .read, .arrive 8, .dmaHalf]

/-- After those events the transfer has length two instead of sixteen. -/
theorem dmaAgrees_shortened :
    ∃ s t, zeroStrmReadInit dmaRx.toDmaRxIO (smallCfg 2) zeroMemory DmaRx.reset = some s ∧
      Run (ReadStep dmaRx) ⟨s, []⟩ shorteningEvents t ∧
      t.strm.dma.length = 2 ∧ t.strm.hwDmaSizeTotal = 16 ∧ ¬ DmaAgrees 16 t.strm := by
  refine ⟨_, _, rfl, ⟨_, rfl, _, rfl, _, rfl, _, rfl, _, rfl, _, rfl, _, rfl, _, rfl, _, rfl,
    _, rfl, rfl⟩, rfl, rfl, fun agrees => ?_⟩
  have length : (2 : ℕ) = 16 := agrees.length
  cases length

end ZeroStrm
