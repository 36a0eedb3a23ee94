import ZeroStrm.Write.Runs

/-!
# The initialised sender

`zero_strm_write_init` frees the blocks of the pool in order and takes the last one as the
current block. The others stay on the free list, nothing is queued and nothing is sent
(`zeroStrmWriteInit_spec`). It needs one block: with none the initialisation goes on to use a
null block (`zeroStrmWriteInit_isSome`).
-/

set_option autoImplicit false

namespace ZeroStrm

variable {β D : Type}

/-- The stream that `zero_strm_write_init` builds. -/
structure InitialWrite (cfg : StreamWriteCfg) (dma : D) (s : StreamWrite β D) : Prop where
  enough : 0 < cfg.chCnt
  represents : Represents s.tMemBlockFifo (List.range (cfg.chCnt - 1)).reverse []
  size : ∀ block < cfg.chCnt - 1, s.tMemBlockFifo.tSizeInByte block = cfg.writeBuffCnt
  current : s.ptByteFifo = cfg.chCnt - 1
  currentSize : s.tMemBlockFifo.tSizeInByte s.ptByteFifo = 0
  fifo : 0 < cfg.writeBuffCnt → cfg.writeBuffCnt < 2 ^ 16 →
    s.tByteFifo = ⟨cfg.chCnt - 1, cfg.writeBuffCnt, 0, 0, 0⟩
  fsmEnqueue : s.fsmEnqueue = ⟨Enqueue.start, ⟨StreamWriteFlush.start⟩⟩
  fsmFlushAuto : s.fsmFlushAuto = ⟨StreamWriteFlush.start⟩
  ptByteFifoCpl : s.ptByteFifoCpl = none
  notBusy : s.bBusy = false
  dma : s.dma = dma

variable {cfg : StreamWriteCfg} {m : MemBlkFifo β} {dma : D} {s : StreamWrite β D}

/-- An empty pool makes the initialisation use a null block. -/
theorem zeroStrmWriteInit_none (empty : cfg.chCnt = 0) : zeroStrmWriteInit cfg m dma = none := by
  have pool := initBlocks_represents cfg.writeBuffCnt m cfg.chCnt
  rw [empty] at pool
  simp only [zeroStrmWriteInit, empty, pool.new_nil]

/-- **What the initialisation builds from a pool of one block or more.** -/
theorem zeroStrmWriteInit_some (m : MemBlkFifo β) (dma : D) (enough : 0 < cfg.chCnt) :
    ∃ s, zeroStrmWriteInit cfg m dma = some s ∧ InitialWrite cfg dma s := by
  have pool := initBlocks_represents cfg.writeBuffCnt m cfg.chCnt
  have sizes : ∀ block < cfg.chCnt,
      (initBlocks cfg.writeBuffCnt cfg.chCnt (zeroStrmBlockFifoInit m)).tSizeInByte block =
        cfg.writeBuffCnt := fun _ inside => initBlocks_size _ _ inside
  obtain ⟨n, count⟩ : ∃ n, cfg.chCnt = n + 1 := ⟨cfg.chCnt - 1, by omega⟩
  have order : (List.range (n + 1)).reverse = n :: (List.range n).reverse := by
    simp [List.range_succ]
  have before : cfg.chCnt - 1 = n := by omega
  rw [count] at pool sizes
  rw [order] at pool
  obtain ⟨first, rest⟩ := pool.new_cons
  refine ⟨_, by simp only [zeroStrmWriteInit, count, first]; rfl, ?_⟩
  constructor
  case enough => exact enough
  case represents =>
    rw [before]
    exact rest.setSize n 0
  case size =>
    intro block inside
    have other : block ≠ n := by omega
    exact (Function.update_of_ne other ..).trans (sizes block (by omega))
  case current => exact before.symm
  case currentSize => exact Function.update_self ..
  case fifo =>
    intro positive small
    have size : (initBlocks cfg.writeBuffCnt (n + 1) (zeroStrmBlockFifoInit m)).tSizeInByte n =
        cfg.writeBuffCnt := sizes n (by omega)
    dsimp only
    rw [before, size, u16_of_lt small, ByteFifo.init_empty n positive]
  all_goals rfl

/-- **The initialisation succeeds exactly on a pool of one block or more.** -/
theorem zeroStrmWriteInit_isSome (m : MemBlkFifo β) (dma : D) :
    (zeroStrmWriteInit cfg m dma).isSome ↔ 0 < cfg.chCnt := by
  constructor
  · intro succeeded
    by_contra empty
    rw [zeroStrmWriteInit_none (by omega)] at succeeded
    cases succeeded
  · intro enough
    obtain ⟨s, init, -⟩ := zeroStrmWriteInit_some m dma enough
    rw [init]
    rfl

theorem zeroStrmWriteInit_spec (init : zeroStrmWriteInit cfg m dma = some s) :
    InitialWrite cfg dma s := by
  have enough : 0 < cfg.chCnt := by
    rw [← zeroStrmWriteInit_isSome m dma, init]
    rfl
  obtain ⟨s', init', initial⟩ := zeroStrmWriteInit_some m dma enough
  rw [init] at init'
  cases init'
  exact initial

/-! ## Small senders -/

/-- A sender with blocks of one byte, each in twelve bytes of memory. -/
def smallWriteCfg (blocks : ℕ) : StreamWriteCfg :=
  { hwSize := 12 * blocks, writeBuffCnt := 1, sizeofWriteFifo := 12 }

end ZeroStrm
