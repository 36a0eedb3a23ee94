import ZeroStrm.Read.Runs

/-!
# The initialised receiver

`zero_strm_read_init` frees the blocks of the pool in order. It then hands the last one to the
channel, gives the one before to `dequeue`, and leaves the others on the free list
(`zeroStrmReadInit_spec`). It needs two blocks: with fewer, the second allocation gives null
and the initialisation goes on to use it (`zeroStrmReadInit_isSome`).
-/

set_option autoImplicit false

namespace ZeroStrm

variable {β D : Type}

/-- The stream that `zero_strm_read_init` builds. -/
structure InitialRead (io : DmaRxIO β D) (cfg : StreamReadCfg) (dma : D) (s : StreamRead β D) :
    Prop where
  enough : 2 ≤ cfg.chCnt
  represents : Represents s.tMemBlockFifo (List.range (cfg.chCnt - 2)).reverse []
  size : ∀ block < cfg.chCnt, s.tMemBlockFifo.tSizeInByte block = cfg.readBuffCnt
  dmaBlock : s.ptByteFifoDmaRx = cfg.chCnt - 1
  emptyBlock : s.ptByteFifoEmpty = cfg.chCnt - 2
  flushHt : s.fsmFlushHt.ptByteFifo = none
  timeOut : s.fsmTimeOut.ptByteFifo = none
  dequeue : s.fsmDequeue = ⟨Dequeue.start, cfg.chCnt - 2⟩
  fifo : 0 < cfg.readBuffCnt → cfg.readBuffCnt < 2 ^ 16 →
    s.tByteFifo = ⟨cfg.chCnt - 2, cfg.readBuffCnt, 0, 0, 0⟩
  total : s.hwDmaSizeTotal = u16 cfg.readBuffCnt
  dma : ∃ pool : MemBlkFifo β, pool.tSizeInByte (cfg.chCnt - 1) = cfg.readBuffCnt ∧
    s.dma = io.fnDmaStartRx pool (cfg.chCnt - 1) dma
  quiet : Quiet s
  notBusy : s.bBusy = false
  notIdle : s.bUartIdle = false
  notStarted : s.bTimerStart = false
  setTime : s.wSetTime = cfg.wTimeOutMs

variable {io : DmaRxIO β D} {cfg : StreamReadCfg} {m : MemBlkFifo β} {dma : D}
  {s : StreamRead β D}

/-- A pool of fewer than two blocks makes the initialisation use a null block. -/
theorem zeroStrmReadInit_none (few : cfg.chCnt < 2) : zeroStrmReadInit io cfg m dma = none := by
  have pool := initBlocks_represents cfg.readBuffCnt m cfg.chCnt
  rcases (by omega : cfg.chCnt = 0 ∨ cfg.chCnt = 1) with none | one
  · rw [none] at pool
    simp only [zeroStrmReadInit, none, pool.new_nil]
  · rw [one] at pool
    obtain ⟨first, rest⟩ := pool.new_cons
    simp only [zeroStrmReadInit, one, first, rest.new_nil]

/-- **What the initialisation builds from a pool of two blocks or more.** -/
theorem zeroStrmReadInit_some (io : DmaRxIO β D) (m : MemBlkFifo β) (dma : D)
    (enough : 2 ≤ cfg.chCnt) :
    ∃ s, zeroStrmReadInit io cfg m dma = some s ∧ InitialRead io cfg dma s := by
  have pool := initBlocks_represents cfg.readBuffCnt m cfg.chCnt
  have sizes : ∀ block < cfg.chCnt,
      (initBlocks cfg.readBuffCnt cfg.chCnt (zeroStrmBlockFifoInit m)).tSizeInByte block =
        cfg.readBuffCnt := fun _ inside => initBlocks_size _ _ inside
  obtain ⟨n, count⟩ : ∃ n, cfg.chCnt = n + 2 := ⟨cfg.chCnt - 2, by omega⟩
  have order : (List.range (n + 2)).reverse = (n + 1) :: n :: (List.range n).reverse := by
    simp [List.range_succ]
  rw [count] at pool sizes
  rw [order] at pool
  obtain ⟨first, rest⟩ := pool.new_cons
  obtain ⟨second, rest⟩ := rest.new_cons
  have last : cfg.chCnt - 1 = n + 1 := by omega
  have before : cfg.chCnt - 2 = n := by omega
  refine ⟨_, by simp only [zeroStrmReadInit, count, first, second]; rfl, ?_⟩
  constructor
  case enough => exact enough
  case represents =>
    rw [before]
    exact rest
  case size =>
    rw [count]
    exact sizes
  case dmaBlock => exact last.symm
  case emptyBlock => exact before.symm
  case dequeue => rw [before]
  case fifo =>
    intro positive small
    have size : (initBlocks cfg.readBuffCnt (n + 2) (zeroStrmBlockFifoInit m)).tSizeInByte n =
        cfg.readBuffCnt := sizes n (by omega)
    rw [before, size, u16_of_lt small, ByteFifo.init_empty n positive]
  case dma =>
    rw [last]
    refine ⟨_, ?_, rfl⟩
    exact sizes (n + 1) (by omega)
  case quiet => exact ⟨rfl, rfl, Nat.zero_le _⟩
  all_goals rfl

/-- **The initialisation succeeds exactly on a pool of two blocks or more.** -/
theorem zeroStrmReadInit_isSome (io : DmaRxIO β D) (m : MemBlkFifo β) (dma : D) :
    (zeroStrmReadInit io cfg m dma).isSome ↔ 2 ≤ cfg.chCnt := by
  constructor
  · intro succeeded
    by_contra few
    rw [zeroStrmReadInit_none (by omega)] at succeeded
    cases succeeded
  · intro enough
    obtain ⟨s, init, -⟩ := zeroStrmReadInit_some io m dma enough
    rw [init]
    rfl

/-- What is known of a stream that the initialisation returned. -/
theorem zeroStrmReadInit_spec (init : zeroStrmReadInit io cfg m dma = some s) :
    InitialRead io cfg dma s := by
  have enough : 2 ≤ cfg.chCnt := by
    rw [← zeroStrmReadInit_isSome io m dma, init]
    rfl
  obtain ⟨s', init', initial⟩ := zeroStrmReadInit_some io m dma enough
  rw [init] at init'
  cases init'
  exact initial

/-! ## Small receivers -/

/-- A receiver with blocks of sixteen bytes, each in twenty-four bytes of memory. -/
def smallCfg (blocks : ℕ) : StreamReadCfg :=
  { hwSize := 24 * blocks, wTimeOutMs := 2, readBuffCnt := 16, sizeofReadFifo := 24 }

end ZeroStrm
