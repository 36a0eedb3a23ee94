import ZeroStrm.Library.LinkedChain

/-!
# The block manager

`zero_strm_block.c` keeps the blocks of a pool in two lists threaded by the one pointer
`ptNext`: a stack of free blocks, and a queue of blocks that hold data. A block is known by its
index in the pool, and a pointer is an index or null. `MemBlkFifo` is the manager together with
the memory of the blocks its pointers reach, field by field, so that the source's
`ptBlock->ptNext` is `m.ptNext block`.

`Represents m free queue` says that the manager holds the stack `free` and the queue `queue`.
Each of the four operations acts on a represented manager as the operation of that name acts on
the stack and the queue (`Represents.push`, `Represents.new_cons`, `Represents.enqueue`,
`Represents.fetch_cons`). None of them touches the size or the data of a block.
-/

set_option autoImplicit false

namespace ZeroStrm

open LinkedChain

/-- A block of the pool, by its index. -/
abbrev Addr := ℕ

/-- A block pointer, `none` for `NULL`. -/
abbrev Ptr := Option Addr

/-- `mem_blk_fifo_t`, with the `mem_blk_t` memory behind its pointers. The bytes are of any
type, since no code inspects them. -/
structure MemBlkFifo (β : Type) where
  ptFreeList : Ptr
  ptHead : Ptr
  ptTail : Ptr
  ptNext : Addr → Ptr
  tSizeInByte : Addr → ℕ
  chMemory : Addr → ℕ → β

variable {β : Type}

namespace MemBlkFifo

/-- Store into the size field of a block. -/
def setSize (m : MemBlkFifo β) (block : Addr) (size : ℕ) : MemBlkFifo β :=
  { m with tSizeInByte := Function.update m.tSizeInByte block size }

/-- Store a byte into the memory of a block. -/
def setByte (m : MemBlkFifo β) (block : Addr) (index : ℕ) (byte : β) : MemBlkFifo β :=
  let memory := Function.update (m.chMemory block) index byte
  { m with chMemory := Function.update m.chMemory block memory }

/-- The bytes of a block: the first `tSizeInByte` bytes of its memory. -/
def blockBytes (m : MemBlkFifo β) (block : Addr) : List β :=
  (List.range (m.tSizeInByte block)).map (m.chMemory block)

end MemBlkFifo

/-! ## The operations -/

/-- No free block and no queued block; the memory is left as it is. -/
def zeroStrmBlockFifoInit (m : MemBlkFifo β) : MemBlkFifo β :=
  { m with ptFreeList := none, ptHead := none, ptTail := none }

/-- Push a block on the free list. -/
def zeroStrmBlockFree (m : MemBlkFifo β) : Ptr → MemBlkFifo β
  | none => m
  | some ptFreeBlock =>
    { m with
      ptNext := Function.update m.ptNext ptFreeBlock m.ptFreeList
      ptFreeList := some ptFreeBlock }

/-- Pop a block off the free list. Its `ptNext` keeps pointing into the list. -/
def zeroStrmBlockNew (m : MemBlkFifo β) : Ptr × MemBlkFifo β :=
  match m.ptFreeList with
  | none => (none, m)
  | some ptTemp => (some ptTemp, { m with ptFreeList := m.ptNext ptTemp })

/-- Link a block behind the last one of the queue. -/
def zeroStrmBlockAppend (m : MemBlkFifo β) : Ptr → Bool × MemBlkFifo β
  | none => (false, m)
  | some ptNewNode =>
    let next := Function.update m.ptNext ptNewNode none
    match m.ptTail with
    | none => (true, { m with ptNext := next, ptTail := some ptNewNode, ptHead := some ptNewNode })
    | some ptTail =>
      (true, { m with
        ptNext := Function.update next ptTail (some ptNewNode)
        ptTail := some ptNewNode })

/-- Take the first block off the queue. -/
def zeroStrmBlockFetch (m : MemBlkFifo β) : Ptr × MemBlkFifo β :=
  match m.ptHead with
  | none => (none, m)
  | some ptTemp =>
    -- the last one block
    let ptTail := if m.ptHead = m.ptTail then none else m.ptTail
    (some ptTemp, { m with
      ptTail := ptTail
      ptHead := m.ptNext ptTemp
      ptNext := Function.update m.ptNext ptTemp none })

/-- The loop of both `init` functions: every block of the pool gets the capacity as its size
and is freed, from index `0` on. -/
def initBlocks (capacity : ℕ) : ℕ → MemBlkFifo β → MemBlkFifo β
  | 0, m => m
  | chIndex + 1, m =>
    zeroStrmBlockFree ((initBlocks capacity chIndex m).setSize chIndex capacity) (some chIndex)

/-! ## Frames -/

section Frames

variable (m : MemBlkFifo β) (p : Ptr)

@[simp] theorem tSizeInByte_free : (zeroStrmBlockFree m p).tSizeInByte = m.tSizeInByte := by
  cases p <;> rfl

@[simp] theorem chMemory_free : (zeroStrmBlockFree m p).chMemory = m.chMemory := by
  cases p <;> rfl

@[simp] theorem tSizeInByte_new : (zeroStrmBlockNew m).2.tSizeInByte = m.tSizeInByte := by
  unfold zeroStrmBlockNew
  split <;> rfl

@[simp] theorem chMemory_new : (zeroStrmBlockNew m).2.chMemory = m.chMemory := by
  unfold zeroStrmBlockNew
  split <;> rfl

@[simp] theorem tSizeInByte_append : (zeroStrmBlockAppend m p).2.tSizeInByte = m.tSizeInByte := by
  cases p with
  | none => rfl
  | some b =>
      simp only [zeroStrmBlockAppend]
      split <;> rfl

@[simp] theorem chMemory_append : (zeroStrmBlockAppend m p).2.chMemory = m.chMemory := by
  cases p with
  | none => rfl
  | some b =>
      simp only [zeroStrmBlockAppend]
      split <;> rfl

@[simp] theorem tSizeInByte_fetch : (zeroStrmBlockFetch m).2.tSizeInByte = m.tSizeInByte := by
  unfold zeroStrmBlockFetch
  split <;> rfl

@[simp] theorem chMemory_fetch : (zeroStrmBlockFetch m).2.chMemory = m.chMemory := by
  unfold zeroStrmBlockFetch
  split <;> rfl

@[simp] theorem length_blockBytes (block : Addr) :
    (m.blockBytes block).length = m.tSizeInByte block := by
  rw [MemBlkFifo.blockBytes, List.length_map, List.length_range]

/-- The bytes of a block depend on its size and its memory only. -/
theorem blockBytes_congr {m m' : MemBlkFifo β} {block : Addr}
    (size : m'.tSizeInByte block = m.tSizeInByte block)
    (memory : m'.chMemory block = m.chMemory block) :
    m'.blockBytes block = m.blockBytes block := by
  unfold MemBlkFifo.blockBytes
  rw [size, memory]

@[simp] theorem blockBytes_free : (zeroStrmBlockFree m p).blockBytes = m.blockBytes := by
  funext block
  exact blockBytes_congr (by simp) (by simp)

@[simp] theorem blockBytes_append : (zeroStrmBlockAppend m p).2.blockBytes = m.blockBytes := by
  funext block
  exact blockBytes_congr (by simp) (by simp)

@[simp] theorem blockBytes_fetch : (zeroStrmBlockFetch m).2.blockBytes = m.blockBytes := by
  funext block
  exact blockBytes_congr (by simp) (by simp)

theorem fetch_frame {m m' : MemBlkFifo β} {p : Ptr} (fetched : zeroStrmBlockFetch m = (p, m')) :
    m'.tSizeInByte = m.tSizeInByte ∧ m'.chMemory = m.chMemory ∧ m'.blockBytes = m.blockBytes := by
  have sizes := tSizeInByte_fetch m
  have memory := chMemory_fetch m
  have bytes := blockBytes_fetch m
  rw [fetched] at sizes memory bytes
  exact ⟨sizes, memory, bytes⟩

/-- A stored byte is the only one that changes. -/
theorem chMemory_setByte_other {block other : Addr} {index i : ℕ} (byte : β)
    (elsewhere : other ≠ block ∨ i ≠ index) :
    (m.setByte block index byte).chMemory other i = m.chMemory other i := by
  by_cases same : other = block
  · subst same
    have next : i ≠ index := elsewhere.resolve_left (not_not_intro rfl)
    simp only [MemBlkFifo.setByte, Function.update_self, Function.update_of_ne next]
  · simp only [MemBlkFifo.setByte, Function.update_of_ne same]

end Frames

/-! ## The stack and the queue a manager holds -/

/-- The manager holds a stack of free blocks and a queue of appended blocks. -/
structure Represents (m : MemBlkFifo β) (free queue : List Addr) : Prop where
  stack : Chain m.ptNext m.ptFreeList free
  fifo : Chain m.ptNext m.ptHead queue
  tail : m.ptTail = queue.getLast?
  disjoint : List.Disjoint free queue

namespace Represents

variable {m : MemBlkFifo β} {free queue : List Addr} {b : Addr}

theorem init (m : MemBlkFifo β) : Represents (zeroStrmBlockFifoInit m) [] [] :=
  ⟨rfl, rfl, rfl, List.disjoint_nil_left _⟩

theorem congr {m' : MemBlkFifo β} (held : Represents m free queue)
    (freeList : m'.ptFreeList = m.ptFreeList) (head : m'.ptHead = m.ptHead)
    (tail : m'.ptTail = m.ptTail) (next : m'.ptNext = m.ptNext) : Represents m' free queue := by
  refine ⟨?_, ?_, tail.trans held.tail, held.disjoint⟩
  · rw [next, freeList]
    exact held.stack
  · rw [next, head]
    exact held.fifo

theorem setSize (held : Represents m free queue) (block : Addr) (size : ℕ) :
    Represents (m.setSize block size) free queue :=
  held.congr rfl rfl rfl rfl

theorem setByte (held : Represents m free queue) (block : Addr) (index : ℕ) (byte : β) :
    Represents (m.setByte block index byte) free queue :=
  held.congr rfl rfl rfl rfl

theorem unique {free' queue' : List Addr} (held : Represents m free queue)
    (held' : Represents m free' queue') : free = free' ∧ queue = queue' :=
  ⟨held.stack.unique held'.stack, held.fifo.unique held'.fifo⟩

theorem head_eq_none_iff (held : Represents m free queue) :
    m.ptHead = none ↔ m.ptTail = none := by
  rw [held.fifo.start, held.tail, List.head?_eq_none_iff, List.getLast?_eq_none_iff]

/-- **Freeing pushes on the stack.** -/
theorem push (held : Represents m free queue) (notFree : b ∉ free) (notQueued : b ∉ queue) :
    Represents (zeroStrmBlockFree m (some b)) (b :: free) queue where
  stack := held.stack.push notFree
  fifo := held.fifo.update notQueued _
  tail := held.tail
  disjoint := List.disjoint_cons_left.mpr ⟨notQueued, held.disjoint⟩

theorem new_nil (held : Represents m [] queue) : zeroStrmBlockNew m = (none, m) := by
  have empty : m.ptFreeList = none := held.stack
  simp only [zeroStrmBlockNew, empty]

/-- **Allocating pops the stack.** -/
theorem new_cons (held : Represents m (b :: free) queue) :
    zeroStrmBlockNew m = (some b, { m with ptFreeList := m.ptNext b }) ∧
      Represents { m with ptFreeList := m.ptNext b } free queue := by
  obtain ⟨top, rest⟩ := held.stack
  refine ⟨?_, rest, held.fifo, held.tail, (List.disjoint_cons_left.mp held.disjoint).2⟩
  simp only [zeroStrmBlockNew, top]

/-- An allocation that gives a block took the top of the stack. -/
theorem new_some {m' : MemBlkFifo β} (held : Represents m free queue)
    (found : zeroStrmBlockNew m = (some b, m')) :
    ∃ rest, free = b :: rest ∧ m' = { m with ptFreeList := m.ptNext b } ∧
      Represents m' rest queue := by
  cases free with
  | nil =>
      rw [held.new_nil] at found
      cases found
  | cons c free =>
      obtain ⟨popped, rest⟩ := held.new_cons
      rw [popped] at found
      cases found
      exact ⟨free, rfl, rfl, rest⟩

/-- **Appending enqueues.** -/
theorem enqueue (held : Represents m free queue) (notFree : b ∉ free) (notQueued : b ∉ queue) :
    Represents (zeroStrmBlockAppend m (some b)).2 free (queue ++ [b]) := by
  have disjoint : List.Disjoint free (queue ++ [b]) := by
    rw [List.disjoint_append_right, List.disjoint_singleton]
    exact ⟨held.disjoint, notFree⟩
  rcases List.eq_nil_or_concat' queue with rfl | ⟨front, last, rfl⟩
  · have empty : m.ptTail = none := held.tail
    simp only [zeroStrmBlockAppend, empty]
    exact ⟨held.stack.update notFree _, chain_singleton b, rfl, disjoint⟩
  · have isLast : m.ptTail = some last := by rw [held.tail]; simp
    have lastNotFree : last ∉ free := fun member => held.disjoint member (by simp)
    simp only [zeroStrmBlockAppend, isLast]
    refine ⟨(held.stack.update notFree _).update lastNotFree _, ?_, by simp, disjoint⟩
    exact held.fifo.linkTail notQueued

theorem fetch_nil (held : Represents m free []) : zeroStrmBlockFetch m = (none, m) := by
  have empty : m.ptHead = none := held.fifo
  simp only [zeroStrmBlockFetch, empty]

/-- **Fetching dequeues.** -/
theorem fetch_cons (held : Represents m free (b :: queue)) :
    (zeroStrmBlockFetch m).1 = some b ∧ Represents (zeroStrmBlockFetch m).2 free queue := by
  obtain ⟨head, rest⟩ := held.fifo
  have notRest : b ∉ queue := (List.nodup_cons.mp held.fifo.nodup).1
  obtain ⟨notFree, disjoint⟩ := List.disjoint_cons_right.mp held.disjoint
  have tail : (if some b = m.ptTail then none else m.ptTail) = queue.getLast? := by
    rw [held.tail]
    cases queue with
    | nil => simp
    | cons c queue =>
        have other : some b ≠ (c :: queue).getLast? := fun same =>
          notRest (List.mem_of_getLast? same.symm)
        rw [List.getLast?_cons_cons, if_neg other]
  simp only [zeroStrmBlockFetch, head]
  exact ⟨trivial, held.stack.update notFree _, rest.update notRest _, tail, disjoint⟩

/-- A fetch that gives nothing found the queue empty, and changes nothing. -/
theorem fetch_none {m' : MemBlkFifo β} (held : Represents m free queue)
    (fetched : zeroStrmBlockFetch m = (none, m')) : queue = [] ∧ m' = m := by
  cases queue with
  | nil =>
      rw [held.fetch_nil] at fetched
      exact ⟨rfl, (Prod.mk.inj fetched).2.symm⟩
  | cons b queue =>
      have first := held.fetch_cons.1
      rw [fetched] at first
      cases first

/-- A fetch that gives a block took the first one of the queue. -/
theorem fetch_some {m' : MemBlkFifo β} (held : Represents m free queue)
    (fetched : zeroStrmBlockFetch m = (some b, m')) :
    ∃ rest, queue = b :: rest ∧ Represents m' free rest := by
  cases queue with
  | nil =>
      rw [held.fetch_nil] at fetched
      cases fetched
  | cons c queue =>
      obtain ⟨first, rest⟩ := held.fetch_cons
      rw [fetched] at first rest
      cases first
      exact ⟨queue, rfl, rest⟩

end Represents

/-- **The loop of an initialisation frees the blocks in order**, so the last one is on top. -/
theorem initBlocks_represents (capacity : ℕ) (m : MemBlkFifo β) (count : ℕ) :
    Represents (initBlocks capacity count (zeroStrmBlockFifoInit m))
      (List.range count).reverse [] := by
  induction count with
  | zero => exact Represents.init m
  | succ chIndex ih =>
      rw [List.range_succ, List.reverse_append]
      exact (ih.setSize chIndex capacity).push (by simp) (by simp)

theorem initBlocks_size (capacity : ℕ) (m : MemBlkFifo β) {count block : ℕ}
    (inside : block < count) : (initBlocks capacity count m).tSizeInByte block = capacity := by
  induction count with
  | zero => cases inside
  | succ chIndex ih =>
      rw [initBlocks, tSizeInByte_free]
      by_cases last : block = chIndex
      · rw [last]
        exact Function.update_self ..
      · exact (Function.update_of_ne last ..).trans (ih (by omega))

/-- A memory of zeros. -/
def zeroMemory : MemBlkFifo UInt8 :=
  { ptFreeList := none
    ptHead := none
    ptTail := none
    ptNext := fun _ => none
    tSizeInByte := fun _ => 0
    chMemory := fun _ _ => 0 }

end ZeroStrm
