import ZeroStrm.Read.Ownership
import ZeroStrm.Write.Ownership
import Mathlib.Order.Interval.Finset.Nat

/-!
# The buffer behind the pool

Both initialisations cut the buffer of the user into blocks of one stride, the size of
`read_fifo_t` or of `write_fifo_t`, and count the blocks in a `uint8_t`. The blocks do not
overlap and stay inside the buffer (`Tiled`). Whether they fill it depends on the count:
`poolConstruction_iff` says that the whole buffer becomes blocks exactly if there are at most
255 of them. A larger buffer is cut into `hwSize / stride % 256` blocks, and a buffer of 256
blocks into none, so that the initialisation goes on to use a null block
(`poolConstruction_wraps`).
-/

set_option autoImplicit false

namespace ZeroStrm

variable {β D : Type}

/-! ## Blocks of one stride -/

/-- The bytes of the buffer that a block takes. -/
def blockExtent (stride : ℕ) (block : Addr) : Finset ℕ :=
  Finset.Ico (block * stride) ((block + 1) * stride)

/-- Blocks that are all blocks of a buffer, each once. They are inside the buffer, and apart. -/
structure Tiled (hwSize stride : ℕ) (blocks : List Addr) : Prop where
  all : blocks.Perm (List.range (hwSize / stride))
  inside : ∀ block ∈ blocks, blockExtent stride block ⊆ Finset.range hwSize
  apart : blocks.Pairwise fun block other =>
    Disjoint (blockExtent stride block) (blockExtent stride other)

/-- Different blocks do not overlap: a byte is in the block that its quotient names. -/
theorem blockExtent_disjoint {stride : ℕ} {block other : Addr} (different : block ≠ other) :
    Disjoint (blockExtent stride block) (blockExtent stride other) := by
  rw [Finset.disjoint_left]
  intro byte member memberOther
  obtain ⟨lower, upper⟩ := Finset.mem_Ico.mp member
  obtain ⟨lower', upper'⟩ := Finset.mem_Ico.mp memberOther
  have here : byte / stride = block := Nat.div_eq_of_lt_le lower upper
  have there : byte / stride = other := Nat.div_eq_of_lt_le lower' upper'
  exact different (here.symm.trans there)

theorem blockExtent_inside {hwSize stride : ℕ} {block : Addr} (below : block < hwSize / stride) :
    blockExtent stride block ⊆ Finset.range hwSize := by
  have fits : (block + 1) * stride ≤ hwSize :=
    (Nat.mul_le_mul_right stride below).trans (Nat.div_mul_le_self hwSize stride)
  intro byte member
  rw [Finset.mem_range]
  exact (Finset.mem_Ico.mp member).2.trans_le fits

/-- The blocks below the quotient, in any order, tile the buffer. -/
theorem Tiled.of_perm {hwSize stride : ℕ} {blocks : List Addr}
    (all : blocks.Perm (List.range (hwSize / stride))) : Tiled hwSize stride blocks where
  all := all
  inside _ member := blockExtent_inside (List.mem_range.mp (all.mem_iff.mp member))
  apart := (all.symm.nodup List.nodup_range).imp fun different => blockExtent_disjoint different

/-! ## The two pools -/

/-- A receiver whose pool is the whole buffer: one block is the target of the channel, one is
held by `dequeue`, and the others are an acyclic free list. -/
structure WholeReadPool (io : DmaRxIO β D) (cfg : StreamReadCfg) (dma : D) (s : StreamRead β D)
    (free : List Addr) : Prop where
  represents : Represents s.tMemBlockFifo free []
  acyclic : free.Nodup
  left : free.length + 2 = cfg.hwSize / cfg.sizeofReadFifo
  target : ∃ pool, s.dma = io.fnDmaStartRx pool s.ptByteFifoDmaRx dma
  held : dequeueHolds s = [s.fsmDequeue.ptByteFifo]
  tiled : Tiled cfg.hwSize cfg.sizeofReadFifo
    (s.ptByteFifoDmaRx :: s.fsmDequeue.ptByteFifo :: free)

/-- A sender whose pool is the whole buffer: one block is the current one, and the others are an
acyclic free list of blocks with the full capacity. -/
structure WholeWritePool (cfg : StreamWriteCfg) (s : StreamWrite β D) (free : List Addr) :
    Prop where
  represents : Represents s.tMemBlockFifo free []
  acyclic : free.Nodup
  left : free.length + 1 = cfg.hwSize / cfg.sizeofWriteFifo
  capacity : ∀ block ∈ free, s.tMemBlockFifo.tSizeInByte block = cfg.writeBuffCnt
  tiled : Tiled cfg.hwSize cfg.sizeofWriteFifo (s.ptByteFifo :: free)

/-- The initialisation of a receiver ends with the whole buffer in its pool. -/
def ReadInitWhole (io : DmaRxIO β D) (cfg : StreamReadCfg) (m : MemBlkFifo β) (dma : D) : Prop :=
  ∃ s free, zeroStrmReadInit io cfg m dma = some s ∧ WholeReadPool io cfg dma s free

/-- The initialisation of a sender ends with the whole buffer in its pool. -/
def WriteInitWhole (cfg : StreamWriteCfg) (m : MemBlkFifo β) (dma : D) : Prop :=
  ∃ s free, zeroStrmWriteInit cfg m dma = some s ∧ WholeWritePool cfg s free

/-! ## When the whole buffer is used -/

section Receiver

variable {io : DmaRxIO β D} {cfg : StreamReadCfg} {m : MemBlkFifo β} {dma : D}
  {s : StreamRead β D}

/-- **A receiver has as many blocks as the eight-bit count says.** -/
theorem readPool_count {free : List Addr} (init : zeroStrmReadInit io cfg m dma = some s)
    (held : Represents s.tMemBlockFifo free []) :
    free.length + 2 = cfg.hwSize / cfg.sizeofReadFifo % 256 := by
  have initial := zeroStrmReadInit_spec init
  have enough := initial.enough
  obtain ⟨rfl, -⟩ := held.unique initial.represents
  rw [List.length_reverse, List.length_range]
  exact Nat.sub_add_cancel enough

/-- A receiver whose count did not wrap around has the whole buffer in its pool. -/
theorem InitialRead.wholePool (initial : InitialRead io cfg dma s)
    (small : cfg.hwSize / cfg.sizeofReadFifo < 256) :
    WholeReadPool io cfg dma s (List.range (cfg.chCnt - 2)).reverse := by
  have count : cfg.chCnt = cfg.hwSize / cfg.sizeofReadFifo := Nat.mod_eq_of_lt small
  obtain ⟨n, blocks⟩ : ∃ n, cfg.chCnt = n + 2 := ⟨cfg.chCnt - 2, by have := initial.enough; omega⟩
  have target := initial.dmaBlock
  have held := initial.dequeue
  have represents := initial.represents
  obtain ⟨pool, -, started⟩ := initial.dma
  rw [← target] at started
  simp only [blocks, Nat.add_sub_cancel] at target held represents ⊢
  refine ⟨represents, represents.stack.nodup, ?_, ⟨pool, started⟩, ?_, Tiled.of_perm ?_⟩
  · rw [← count, blocks, List.length_reverse, List.length_range]
  · simp [dequeueHolds, held]
  · rw [target, held, ← count, blocks]
    have order : (List.range (n + 2)).reverse = (n + 1) :: n :: (List.range n).reverse := by
      simp [List.range_succ]
    exact order ▸ List.reverse_perm _

/-- **A receiver uses its whole buffer exactly if that has at most 255 blocks.** -/
theorem readInitWhole_iff (io : DmaRxIO β D) (cfg : StreamReadCfg) (m : MemBlkFifo β) (dma : D)
    (enough : 2 ≤ cfg.hwSize / cfg.sizeofReadFifo) :
    ReadInitWhole io cfg m dma ↔ cfg.hwSize / cfg.sizeofReadFifo ≤ 255 := by
  constructor
  · rintro ⟨s, free, init, whole⟩
    have counted := readPool_count init whole.represents
    have left := whole.left
    omega
  · intro small
    have count : cfg.chCnt = cfg.hwSize / cfg.sizeofReadFifo := Nat.mod_eq_of_lt (by omega)
    obtain ⟨s, init, initial⟩ := zeroStrmReadInit_some io m dma (count ▸ enough)
    exact ⟨s, _, init, initial.wholePool (by omega)⟩

end Receiver

section Sender

variable {cfg : StreamWriteCfg} {m : MemBlkFifo β} {dma : D} {s : StreamWrite β D}

/-- **A sender has as many blocks as the eight-bit count says.** -/
theorem writePool_count {free : List Addr} (init : zeroStrmWriteInit cfg m dma = some s)
    (held : Represents s.tMemBlockFifo free []) :
    free.length + 1 = cfg.hwSize / cfg.sizeofWriteFifo % 256 := by
  have initial := zeroStrmWriteInit_spec init
  have enough := initial.enough
  obtain ⟨rfl, -⟩ := held.unique initial.represents
  rw [List.length_reverse, List.length_range]
  exact Nat.sub_add_cancel enough

/-- A sender whose count did not wrap around has the whole buffer in its pool. -/
theorem InitialWrite.wholePool (initial : InitialWrite cfg dma s)
    (small : cfg.hwSize / cfg.sizeofWriteFifo < 256) :
    WholeWritePool cfg s (List.range (cfg.chCnt - 1)).reverse := by
  have count : cfg.chCnt = cfg.hwSize / cfg.sizeofWriteFifo := Nat.mod_eq_of_lt small
  obtain ⟨n, blocks⟩ : ∃ n, cfg.chCnt = n + 1 := ⟨cfg.chCnt - 1, by have := initial.enough; omega⟩
  have current := initial.current
  have size := initial.size
  have represents := initial.represents
  simp only [blocks, Nat.add_sub_cancel] at current size represents ⊢
  refine ⟨represents, represents.stack.nodup, ?_, ?_, Tiled.of_perm ?_⟩
  · rw [← count, blocks, List.length_reverse, List.length_range]
  · intro block member
    exact size block (List.mem_range.mp (List.mem_reverse.mp member))
  · rw [current, ← count, blocks]
    have order : (List.range (n + 1)).reverse = n :: (List.range n).reverse := by
      simp [List.range_succ]
    exact order ▸ List.reverse_perm _

/-- **A sender uses its whole buffer exactly if that has at most 255 blocks.** -/
theorem writeInitWhole_iff (cfg : StreamWriteCfg) (m : MemBlkFifo β) (dma : D)
    (enough : 1 ≤ cfg.hwSize / cfg.sizeofWriteFifo) :
    WriteInitWhole cfg m dma ↔ cfg.hwSize / cfg.sizeofWriteFifo ≤ 255 := by
  constructor
  · rintro ⟨s, free, init, whole⟩
    have counted := writePool_count init whole.represents
    have left := whole.left
    omega
  · intro small
    have count : cfg.chCnt = cfg.hwSize / cfg.sizeofWriteFifo := Nat.mod_eq_of_lt (by omega)
    obtain ⟨s, init, initial⟩ := zeroStrmWriteInit_some m dma (count ▸ enough)
    exact ⟨s, _, init, initial.wholePool (by omega)⟩

end Sender

/-- **The whole buffer becomes blocks exactly if there are at most 255 of them**, at the receiver
and at the sender, whatever the sizes of the buffer and of a block are. -/
theorem poolConstruction_iff :
    (∀ (io : DmaRxIO β D) (cfg : StreamReadCfg) (m : MemBlkFifo β) (dma : D),
      2 ≤ cfg.hwSize / cfg.sizeofReadFifo →
        (ReadInitWhole io cfg m dma ↔ cfg.hwSize / cfg.sizeofReadFifo ≤ 255)) ∧
    ∀ (cfg : StreamWriteCfg) (m : MemBlkFifo β) (dma : D),
      1 ≤ cfg.hwSize / cfg.sizeofWriteFifo →
        (WriteInitWhole cfg m dma ↔ cfg.hwSize / cfg.sizeofWriteFifo ≤ 255) :=
  ⟨readInitWhole_iff, writeInitWhole_iff⟩

/-- A buffer of 1024 bytes is cut into blocks as a whole. -/
theorem poolConstruction_iff_kilobyte :
    ReadInitWhole dmaRx.toDmaRxIO ⟨1024, 2, 16, 24⟩ zeroMemory DmaRx.reset ∧
      WriteInitWhole ⟨1024, 4, 12⟩ zeroMemory () :=
  ⟨(poolConstruction_iff.1 dmaRx.toDmaRxIO ⟨1024, 2, 16, 24⟩ zeroMemory DmaRx.reset
      (by decide)).mpr (by decide),
    (poolConstruction_iff.2 ⟨1024, 4, 12⟩ zeroMemory () (by decide)).mpr (by decide)⟩

/-- A buffer of 256 blocks is cut into none: both initialisations use a null block. -/
theorem poolConstruction_wraps :
    (2 ≤ (6144 : ℕ) / 24 ∧
      zeroStrmReadInit dmaRx.toDmaRxIO ⟨6144, 2, 16, 24⟩ zeroMemory DmaRx.reset = none ∧
      ¬ ReadInitWhole dmaRx.toDmaRxIO ⟨6144, 2, 16, 24⟩ zeroMemory DmaRx.reset) ∧
    1 ≤ (3072 : ℕ) / 12 ∧
      zeroStrmWriteInit ⟨3072, 4, 12⟩ zeroMemory () = none ∧
      ¬ WriteInitWhole ⟨3072, 4, 12⟩ zeroMemory () := by
  have reader : zeroStrmReadInit dmaRx.toDmaRxIO ⟨6144, 2, 16, 24⟩ zeroMemory DmaRx.reset =
      none := zeroStrmReadInit_none (by decide)
  have writer : zeroStrmWriteInit ⟨3072, 4, 12⟩ zeroMemory () = none :=
    zeroStrmWriteInit_none (by decide)
  refine ⟨⟨by decide, reader, ?_⟩, by decide, writer, ?_⟩
  · rintro ⟨s, free, init, -⟩
    rw [reader] at init
    cases init
  · rintro ⟨s, free, init, -⟩
    rw [writer] at init
    cases init

end ZeroStrm
