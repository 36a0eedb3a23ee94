import ZeroStrm.Common.ByteFifo

/-!
# Cells

A byte lies in a cell of the memory: a block and an index. In the memory where every cell holds
its own address (`MemBlkFifo.cells`), what is read is the cell that it is read from. The block
manager and the byte queue look at no byte, so they act on that memory as on any other, and a
store that writes the address of its cell changes nothing. A system over that memory therefore
moves the cells of the bytes in place of the bytes.
-/

set_option autoImplicit false

namespace ZeroStrm

variable {β : Type}

/-- A byte of the memory of a block. -/
abbrev Cell := Addr × ℕ

namespace MemBlkFifo

/-- The content of a cell. -/
def read (m : MemBlkFifo β) (cell : Cell) : β := m.chMemory cell.1 cell.2

/-- The memory in which every cell holds its own address. -/
def cells (m : MemBlkFifo β) : MemBlkFifo Cell where
  ptFreeList := m.ptFreeList
  ptHead := m.ptHead
  ptTail := m.ptTail
  ptNext := m.ptNext
  tSizeInByte := m.tSizeInByte
  chMemory := Prod.mk

/-- The cells of a block: those of its first `tSizeInByte` bytes. -/
def blockCells (m : MemBlkFifo β) (block : Addr) : List Cell :=
  (List.range (m.tSizeInByte block)).map (Prod.mk block)

/-- The bytes of a block are the content of its cells. -/
theorem map_read_blockCells (m : MemBlkFifo β) (block : Addr) :
    (m.blockCells block).map m.read = m.blockBytes block :=
  List.map_map

theorem read_congr {m m' : MemBlkFifo β} (memory : m.chMemory = m'.chMemory) :
    m.read = m'.read := by
  funext cell
  simp only [read, memory]

theorem setByte_cells (m : MemBlkFifo β) (block : Addr) (index : ℕ) :
    m.cells.setByte block index (block, index) = m.cells := by
  have kept : Function.update (m.cells.chMemory block) index (block, index) =
      m.cells.chMemory block := Function.update_eq_self ..
  rw [setByte, kept, Function.update_eq_self]

theorem read_setByte_of_ne (m : MemBlkFifo β) {block : Addr} {index : ℕ} {cell : Cell} (byte : β)
    (other : cell ≠ (block, index)) : (m.setByte block index byte).read cell = m.read cell := by
  have elsewhere : cell.1 ≠ block ∨ cell.2 ≠ index := by
    by_contra same
    push Not at same
    exact other (Prod.ext same.1 same.2)
  exact chMemory_setByte_other m byte elsewhere

theorem read_setByte (m : MemBlkFifo β) (block : Addr) (index : ℕ) (byte : β) :
    (m.setByte block index byte).read (block, index) = byte := by
  simp only [read, setByte, Function.update_self]

end MemBlkFifo

/-! ## The block manager -/

section Blocks

variable (m : MemBlkFifo β)

theorem cells_free (p : Ptr) : (zeroStrmBlockFree m p).cells = zeroStrmBlockFree m.cells p := by
  cases p with
  | none => rfl
  | some block => rfl

theorem cells_new :
    zeroStrmBlockNew m.cells = ((zeroStrmBlockNew m).1, (zeroStrmBlockNew m).2.cells) := by
  cases top : m.ptFreeList with
  | none => simp only [zeroStrmBlockNew, MemBlkFifo.cells, top]
  | some block => simp only [zeroStrmBlockNew, MemBlkFifo.cells, top]

theorem cells_append (p : Ptr) :
    zeroStrmBlockAppend m.cells p =
      ((zeroStrmBlockAppend m p).1, (zeroStrmBlockAppend m p).2.cells) := by
  cases p with
  | none => rfl
  | some block =>
      cases last : m.ptTail with
      | none => simp only [zeroStrmBlockAppend, MemBlkFifo.cells, last]
      | some ptTail => simp only [zeroStrmBlockAppend, MemBlkFifo.cells, last]

theorem cells_fetch :
    zeroStrmBlockFetch m.cells = ((zeroStrmBlockFetch m).1, (zeroStrmBlockFetch m).2.cells) := by
  cases first : m.ptHead with
  | none => simp only [zeroStrmBlockFetch, MemBlkFifo.cells, first]
  | some block => simp only [zeroStrmBlockFetch, MemBlkFifo.cells, first]

/-- The initial lists do not depend on the bytes. -/
theorem cells_initBlocks (capacity count : ℕ) :
    initBlocks capacity count m.cells = (initBlocks capacity count m).cells := by
  induction count with
  | zero => rfl
  | succ count ih =>
      rw [initBlocks, initBlocks, ih, cells_free]
      rfl

end Blocks

/-! ## The byte queue -/

section Queue

variable (m : MemBlkFifo β) (this : ByteFifo)

/-- The cell at the head of a ring. -/
def headCell : Cell := (this.pchBuffer, this.hwHead)

/-- The cell at the tail of a ring. -/
def tailCell : Cell := (this.pchBuffer, this.hwTail)

/-- A byte taken from a ring is the content of the cell at its head. -/
theorem dequeue_headCell :
    (zeroStrmDequeueByteFifo m this).1 =
      (zeroStrmDequeueByteFifo m this).1.map fun _ => m.read (headCell this) := by
  unfold zeroStrmDequeueByteFifo
  split_ifs <;> rfl

/-- From the memory of the cells a ring gives the cell at its head. -/
theorem cells_dequeue :
    zeroStrmDequeueByteFifo m.cells this =
      ((zeroStrmDequeueByteFifo m this).1.map fun _ => headCell this,
        (zeroStrmDequeueByteFifo m this).2) := by
  unfold zeroStrmDequeueByteFifo
  split_ifs <;> rfl

/-- A byte put into a ring is stored in the cell at its tail. -/
theorem cells_enqueue (byte : β) :
    zeroStrmEnqueueByteFifo m.cells this (tailCell this) =
      ((zeroStrmEnqueueByteFifo m this byte).1, (zeroStrmEnqueueByteFifo m this byte).2.1.cells,
        (zeroStrmEnqueueByteFifo m this byte).2.2) := by
  unfold zeroStrmEnqueueByteFifo
  split_ifs
  · rfl
  · rw [tailCell, MemBlkFifo.setByte_cells]
    rfl

end Queue

end ZeroStrm
