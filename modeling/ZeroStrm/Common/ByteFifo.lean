import ZeroStrm.Library.Ring
import ZeroStrm.Common.Block

/-!
# The byte queue inside a block

`zero_strm_byte_fifo.c` uses the memory of a block as a ring of bytes. Its counters are
sixteen-bit numbers, written here as naturals with the wrap-around explicit (`u16`). Full and
empty both have the head at the tail, and the length tells them apart.

A well-formed ring (`ByteFifo.WellFormed`) holds the list `ByteFifo.content`. On such a ring
the refusals are exactly the full and the empty ring, no counter wraps around, and the two
operations are those of a bounded queue (`enqueue_room`, `enqueue_full`, `dequeue_cons`,
`dequeue_nil`).
-/

set_option autoImplicit false

namespace ZeroStrm

open Ring

/-- A number stored into a `uint16_t`. -/
def u16 (n : ℕ) : ℕ := n % 2 ^ 16

/-- A decrement, written as the addition of its two's complement, does not wrap above zero. -/
theorem u16_pred {n : ℕ} (positive : n ≠ 0) (small : n < 2 ^ 16) : u16 (n + 65535) = n - 1 := by
  unfold u16
  omega

theorem u16_of_lt {n : ℕ} (small : n < 2 ^ 16) : u16 n = n := Nat.mod_eq_of_lt small

/-- `byte_fifo_t`. The buffer is the memory of a block. -/
structure ByteFifo where
  pchBuffer : Addr
  hwSize : ℕ
  hwHead : ℕ
  hwTail : ℕ
  hwLength : ℕ
  deriving DecidableEq, Repr

variable {β : Type}

/-- Set up an empty ring. A null buffer or a size of zero is refused. -/
def zeroStrmInitByteFifoEmpty (this : ByteFifo) (ptBuff : Ptr) (hwSize : ℕ) : Bool × ByteFifo :=
  match ptBuff with
  | none => (false, this)
  | some buffer =>
    if hwSize = 0 then (false, this)
    else (true, { pchBuffer := buffer, hwSize := hwSize, hwHead := 0, hwTail := 0, hwLength := 0 })

/-- Set up a full ring. A null buffer or a size of zero is refused. -/
def zeroStrmInitByteFifoFull (this : ByteFifo) (ptBuff : Ptr) (hwSize : ℕ) : Bool × ByteFifo :=
  match ptBuff with
  | none => (false, this)
  | some buffer =>
    if hwSize = 0 then (false, this)
    else (true,
      { pchBuffer := buffer, hwSize := hwSize, hwHead := 0, hwTail := 0, hwLength := hwSize })

/-- Store a byte at the tail, unless the ring is full. -/
def zeroStrmEnqueueByteFifo (m : MemBlkFifo β) (this : ByteFifo) (tByteToIn : β) :
    Bool × MemBlkFifo β × ByteFifo :=
  if this.hwHead = this.hwTail ∧ this.hwLength ≠ 0 then (false, m, this)
  else
    let hwTail := u16 (this.hwTail + 1)
    (true, m.setByte this.pchBuffer this.hwTail tByteToIn,
      { this with
        hwTail := if this.hwSize ≤ hwTail then 0 else hwTail
        hwLength := u16 (this.hwLength + 1) })

/-- Take the byte at the head, unless the ring is empty. `none` is the refusal. -/
def zeroStrmDequeueByteFifo (m : MemBlkFifo β) (this : ByteFifo) : Option β × ByteFifo :=
  if this.hwHead = this.hwTail ∧ this.hwLength = 0 then (none, this)
  else
    let hwHead := u16 (this.hwHead + 1)
    (some (m.chMemory this.pchBuffer this.hwHead),
      { this with
        hwHead := if this.hwSize ≤ hwHead then 0 else hwHead
        hwLength := u16 (this.hwLength + 65535) })

/-- The ring is empty. -/
def zeroStrmIsByteFifoEmpty (this : ByteFifo) : Bool :=
  this.hwHead = this.hwTail ∧ this.hwLength = 0

/-! ## Refusals -/

section Refusals

variable {m : MemBlkFifo β} {this : ByteFifo}

theorem zeroStrmEnqueueByteFifo_refused {b : β}
    (refused : (zeroStrmEnqueueByteFifo m this b).1 = false) :
    zeroStrmEnqueueByteFifo m this b = (false, m, this) := by
  unfold zeroStrmEnqueueByteFifo at refused ⊢
  split_ifs at refused ⊢
  rfl

/-- A byte that is taken is stored at the tail. -/
theorem zeroStrmEnqueueByteFifo_stores {b : β} {pool : MemBlkFifo β} {fifo : ByteFifo}
    (room : zeroStrmEnqueueByteFifo m this b = (true, pool, fifo)) :
    pool = m.setByte this.pchBuffer this.hwTail b := by
  unfold zeroStrmEnqueueByteFifo at room
  split_ifs at room
  · cases room
  · exact (congrArg (fun r => r.2.1) room).symm

theorem pchBuffer_enqueue {b : β} {pool : MemBlkFifo β} {fifo : ByteFifo}
    (room : zeroStrmEnqueueByteFifo m this b = (true, pool, fifo)) :
    fifo.pchBuffer = this.pchBuffer := by
  unfold zeroStrmEnqueueByteFifo at room
  split_ifs at room
  · cases room
  · cases room
    rfl

/-- A ring that is set up lies in the given buffer, or stays where it is. -/
theorem pchBuffer_initEmpty (this : ByteFifo) (buffer : Addr) (hwSize : ℕ) :
    (zeroStrmInitByteFifoEmpty this (some buffer) hwSize).2.pchBuffer = buffer ∨
      (zeroStrmInitByteFifoEmpty this (some buffer) hwSize).2.pchBuffer = this.pchBuffer := by
  unfold zeroStrmInitByteFifoEmpty
  dsimp only
  split_ifs
  · exact .inr rfl
  · exact .inl rfl

theorem zeroStrmDequeueByteFifo_refused (refused : (zeroStrmDequeueByteFifo m this).1 = none) :
    zeroStrmDequeueByteFifo m this = (none, this) := by
  unfold zeroStrmDequeueByteFifo at refused ⊢
  split_ifs at refused ⊢
  rfl

theorem zeroStrmInitByteFifoEmpty_refused {ptBuff : Ptr} {hwSize : ℕ}
    (refused : (zeroStrmInitByteFifoEmpty this ptBuff hwSize).1 = false) :
    zeroStrmInitByteFifoEmpty this ptBuff hwSize = (false, this) := by
  unfold zeroStrmInitByteFifoEmpty at refused ⊢
  cases ptBuff with
  | none => rfl
  | some buffer =>
      split_ifs at refused ⊢
      rfl

theorem zeroStrmInitByteFifoFull_refused {ptBuff : Ptr} {hwSize : ℕ}
    (refused : (zeroStrmInitByteFifoFull this ptBuff hwSize).1 = false) :
    zeroStrmInitByteFifoFull this ptBuff hwSize = (false, this) := by
  unfold zeroStrmInitByteFifoFull at refused ⊢
  cases ptBuff with
  | none => rfl
  | some buffer =>
      split_ifs at refused ⊢
      rfl

end Refusals

namespace ByteFifo

/-- The bytes a ring holds, from the head on. -/
def content (m : MemBlkFifo β) (this : ByteFifo) : List β :=
  ringList (m.chMemory this.pchBuffer) this.hwSize this.hwHead this.hwLength

/-- A ring that the operations build. -/
structure WellFormed (this : ByteFifo) : Prop where
  size_pos : 0 < this.hwSize
  size_lt : this.hwSize < 2 ^ 16
  head_lt : this.hwHead < this.hwSize
  length_le : this.hwLength ≤ this.hwSize
  tail_eq : this.hwTail = (this.hwHead + this.hwLength) % this.hwSize

variable {m m' : MemBlkFifo β} {this : ByteFifo} {b : β} {rest : List β}

@[simp] theorem length_content : (this.content m).length = this.hwLength := length_ringList

theorem content_eq_nil_iff : this.content m = [] ↔ this.hwLength = 0 := by
  rw [← List.length_eq_zero_iff, length_content]

/-- The contents depend on the memory of the buffer block only. -/
theorem content_congr (memory : m'.chMemory this.pchBuffer = m.chMemory this.pchBuffer) :
    this.content m' = this.content m := by
  unfold content
  rw [memory]

namespace WellFormed

theorem tail_lt (wf : this.WellFormed) : this.hwTail < this.hwSize := by
  rw [wf.tail_eq]
  exact Nat.mod_lt _ wf.size_pos

/-- With the head at the tail a ring is empty or full. -/
theorem head_eq_tail_iff (wf : this.WellFormed) :
    this.hwHead = this.hwTail ↔ this.hwLength = 0 ∨ this.hwLength = this.hwSize := by
  have headLt := wf.head_lt
  have lengthLe := wf.length_le
  rw [wf.tail_eq]
  constructor
  · intro same
    by_cases full : this.hwLength = this.hwSize
    · exact .inr full
    · have turn : (this.hwHead + 0) % this.hwSize =
          (this.hwHead + this.hwLength) % this.hwSize := by
        rw [Nat.add_zero, Nat.mod_eq_of_lt headLt]
        exact same
      exact .inl (offset_inj wf.size_pos (by omega) turn).symm
  · rintro (empty | full)
    · rw [empty, Nat.add_zero, Nat.mod_eq_of_lt headLt]
    · rw [full, Nat.add_mod_right, Nat.mod_eq_of_lt headLt]

theorem empty_iff (wf : this.WellFormed) :
    (this.hwHead = this.hwTail ∧ this.hwLength = 0) ↔ this.hwLength = 0 := by
  rw [wf.head_eq_tail_iff]
  tauto

theorem full_iff (wf : this.WellFormed) :
    (this.hwHead = this.hwTail ∧ this.hwLength ≠ 0) ↔ this.hwLength = this.hwSize := by
  have positive := wf.size_pos
  rw [wf.head_eq_tail_iff]
  omega

end WellFormed

/-! ## The operations on a well-formed ring -/

theorem init_empty (buffer : Addr) {hwSize : ℕ} (positive : 0 < hwSize) :
    zeroStrmInitByteFifoEmpty this (some buffer) hwSize =
      (true, ⟨buffer, hwSize, 0, 0, 0⟩) := by
  simp only [zeroStrmInitByteFifoEmpty, if_neg positive.ne']

theorem init_full (buffer : Addr) {hwSize : ℕ} (positive : 0 < hwSize) :
    zeroStrmInitByteFifoFull this (some buffer) hwSize =
      (true, ⟨buffer, hwSize, 0, 0, hwSize⟩) := by
  simp only [zeroStrmInitByteFifoFull, if_neg positive.ne']

theorem wellFormed_empty (buffer : Addr) {hwSize : ℕ} (positive : 0 < hwSize)
    (small : hwSize < 2 ^ 16) : (⟨buffer, hwSize, 0, 0, 0⟩ : ByteFifo).WellFormed :=
  ⟨positive, small, positive, Nat.zero_le _, (Nat.zero_mod _).symm⟩

theorem wellFormed_full (buffer : Addr) {hwSize : ℕ} (positive : 0 < hwSize)
    (small : hwSize < 2 ^ 16) : (⟨buffer, hwSize, 0, 0, hwSize⟩ : ByteFifo).WellFormed :=
  ⟨positive, small, positive, le_rfl, by rw [Nat.zero_add, Nat.mod_self]⟩

/-- A full ring made of a block holds the bytes of the block. -/
theorem content_full (buffer : Addr) :
    (⟨buffer, m.tSizeInByte buffer, 0, 0, m.tSizeInByte buffer⟩ : ByteFifo).content m =
      m.blockBytes buffer :=
  ringList_zero_head le_rfl

theorem dequeue_nil (wf : this.WellFormed) (empty : this.hwLength = 0) :
    zeroStrmDequeueByteFifo m this = (none, this) := by
  rw [zeroStrmDequeueByteFifo, if_pos (wf.empty_iff.mpr empty)]

/-- **A ring that is not empty gives its first byte.** -/
theorem dequeue_cons (m : MemBlkFifo β) (wf : this.WellFormed) (nonempty : this.hwLength ≠ 0) :
    ∃ b this', zeroStrmDequeueByteFifo m this = (some b, this') ∧
      this.content m = b :: this'.content m ∧ this'.WellFormed ∧
      this'.pchBuffer = this.pchBuffer ∧ this'.hwSize = this.hwSize ∧
      this'.hwLength + 1 = this.hwLength := by
  have headLt := wf.head_lt
  have sizeLt := wf.size_lt
  have lengthLe := wf.length_le
  have head : u16 (this.hwHead + 1) = this.hwHead + 1 := u16_of_lt (by omega)
  have length : u16 (this.hwLength + 65535) = this.hwLength - 1 :=
    u16_pred nonempty (by omega)
  have code : zeroStrmDequeueByteFifo m this = (some (m.chMemory this.pchBuffer this.hwHead),
      { this with hwHead := advance this.hwSize this.hwHead, hwLength := this.hwLength - 1 }) := by
    rw [zeroStrmDequeueByteFifo, if_neg (mt wf.empty_iff.mp nonempty), head, length]
    rfl
  have split : this.hwLength = (this.hwLength - 1) + 1 := by omega
  refine ⟨_, _, code, ?_, ?_, rfl, rfl, split.symm⟩
  · rw [content, split]
    exact ringList_succ headLt
  · refine ⟨wf.size_pos, sizeLt, advance_lt headLt, ?_, ?_⟩
    · dsimp only
      omega
    · have shifted : this.hwHead + 1 + (this.hwLength - 1) = this.hwHead + this.hwLength := by
        omega
      dsimp only
      rw [wf.tail_eq, advance_eq_mod headLt, Nat.mod_add_mod, shifted]

theorem dequeue_gives_iff (m : MemBlkFifo β) (wf : this.WellFormed) :
    (zeroStrmDequeueByteFifo m this).1 ≠ none ↔ this.hwLength ≠ 0 := by
  by_cases empty : this.hwLength = 0
  · simp [dequeue_nil wf empty, empty]
  · obtain ⟨byte, fifo, code, -⟩ := dequeue_cons m wf empty
    simp [code, empty]

theorem enqueue_full (wf : this.WellFormed) (full : this.hwLength = this.hwSize) :
    zeroStrmEnqueueByteFifo m this b = (false, m, this) := by
  rw [zeroStrmEnqueueByteFifo, if_pos (wf.full_iff.mpr full)]

/-- **A ring with room stores the byte in its first free cell.** -/
theorem enqueue_room (wf : this.WellFormed) (room : this.hwLength ≠ this.hwSize) :
    zeroStrmEnqueueByteFifo m this b = (true, m.setByte this.pchBuffer this.hwTail b,
      { this with hwTail := advance this.hwSize this.hwTail, hwLength := this.hwLength + 1 }) := by
  have tailLt := wf.tail_lt
  have sizeLt := wf.size_lt
  have lengthLe := wf.length_le
  have tail : u16 (this.hwTail + 1) = this.hwTail + 1 := u16_of_lt (by omega)
  have length : u16 (this.hwLength + 1) = this.hwLength + 1 := u16_of_lt (by omega)
  rw [zeroStrmEnqueueByteFifo, if_neg (mt wf.full_iff.mp room), tail, length]
  rfl

theorem enqueue_accepts_iff (wf : this.WellFormed) :
    (zeroStrmEnqueueByteFifo m this b).1 = true ↔ this.hwLength ≠ this.hwSize := by
  by_cases full : this.hwLength = this.hwSize
  · simp [enqueue_full wf full, full]
  · simp [enqueue_room wf full, full]

theorem wellFormed_enqueue (wf : this.WellFormed) (room : this.hwLength ≠ this.hwSize) :
    ({ this with hwTail := advance this.hwSize this.hwTail,
                 hwLength := this.hwLength + 1 } : ByteFifo).WellFormed := by
  have lengthLe := wf.length_le
  refine ⟨wf.size_pos, wf.size_lt, wf.head_lt, ?_, ?_⟩
  · dsimp only
    omega
  · dsimp only
    rw [advance_eq_mod wf.tail_lt, wf.tail_eq, Nat.mod_add_mod, Nat.add_assoc]

theorem content_enqueue (wf : this.WellFormed) (room : this.hwLength ≠ this.hwSize) :
    ({ this with hwTail := advance this.hwSize this.hwTail,
                 hwLength := this.hwLength + 1 } : ByteFifo).content
        (m.setByte this.pchBuffer this.hwTail b) = this.content m ++ [b] := by
  have lengthLe := wf.length_le
  have free : this.hwLength < this.hwSize := by omega
  simp only [content, MemBlkFifo.setByte, Function.update_self, wf.tail_eq]
  exact ringList_push free

/-- A ring and the memory of the blocks, before and after the ring took a byte. -/
structure Took (m : MemBlkFifo β) (this : ByteFifo) (b : β) (m' : MemBlkFifo β)
    (this' : ByteFifo) : Prop where
  wellFormed : this'.WellFormed
  buffer : this'.pchBuffer = this.pchBuffer
  size : this'.hwSize = this.hwSize
  head : this'.hwHead = this.hwHead
  length : this'.hwLength = this.hwLength + 1
  content : this'.content m' = this.content m ++ [b]
  sizes : m'.tSizeInByte = m.tSizeInByte
  memory : ∀ block, block ≠ this.pchBuffer → m'.chMemory block = m.chMemory block

/-- **A ring that does not refuse a byte has taken it.** -/
theorem enqueue_took {this' : ByteFifo} (wf : this.WellFormed)
    (stored : zeroStrmEnqueueByteFifo m this b = (true, m', this')) :
    Took m this b m' this' := by
  have room : this.hwLength ≠ this.hwSize := (enqueue_accepts_iff wf).mp (congrArg Prod.fst stored)
  rw [enqueue_room wf room] at stored
  cases stored
  exact ⟨wellFormed_enqueue wf room, rfl, rfl, rfl, rfl, content_enqueue wf room, rfl,
    fun _ other => Function.update_of_ne other ..⟩

end ByteFifo

end ZeroStrm
