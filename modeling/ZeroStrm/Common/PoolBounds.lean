import ZeroStrm.Common.ByteFifo

/-!
# The bounds of a pool

A pool is an array of `count` blocks, and the manager reaches them only through pointers that it
was given or that it read in a block. If all of these are inside (`PoolInside`), then every
operation follows and stores pointers of the pool only, and of the memory outside of the first
`limit` bytes of each block it changes nothing (`SameOutside`). Nothing is assumed of the lists:
they may share blocks or run in a circle.
-/

set_option autoImplicit false

namespace ZeroStrm

variable {β : Type}

/-! ## Pointers into the pool -/

/-- A pointer is null or one of the first `count` blocks. -/
def Inside (count : ℕ) (p : Ptr) : Prop := ∀ block, p = some block → block < count

theorem inside_none (count : ℕ) : Inside count none := nofun

theorem inside_some {count : ℕ} {block : Addr} (inside : block < count) :
    Inside count (some block) := by
  rintro _ ⟨⟩
  exact inside

/-- Every pointer that the manager can follow is inside. -/
structure PoolInside (count : ℕ) (m : MemBlkFifo β) : Prop where
  freeList : Inside count m.ptFreeList
  head : Inside count m.ptHead
  tail : Inside count m.ptTail
  next : ∀ block < count, Inside count (m.ptNext block)

/-- Outside of the first `limit` bytes of the first `count` blocks, two memories are the same. -/
structure SameOutside (count limit : ℕ) (m m' : MemBlkFifo β) : Prop where
  next : ∀ block, count ≤ block → m'.ptNext block = m.ptNext block
  size : ∀ block, count ≤ block → m'.tSizeInByte block = m.tSizeInByte block
  memory : ∀ block index, count ≤ block ∨ limit ≤ index →
    m'.chMemory block index = m.chMemory block index

theorem SameOutside.refl (count limit : ℕ) (m : MemBlkFifo β) : SameOutside count limit m m :=
  ⟨fun _ _ => rfl, fun _ _ => rfl, fun _ _ _ => rfl⟩

section Operations

variable {count limit : ℕ} {m m' m'' : MemBlkFifo β} {block : Addr} {p : Ptr}

theorem SameOutside.trans (first : SameOutside count limit m m')
    (second : SameOutside count limit m' m'') : SameOutside count limit m m'' :=
  ⟨fun block outside => (second.next block outside).trans (first.next block outside),
    fun block outside => (second.size block outside).trans (first.size block outside),
    fun block index outside => (second.memory block index outside).trans
      (first.memory block index outside)⟩

/-- A store into the link of a block. -/
theorem inside_update {next : Addr → Ptr} (links : ∀ block < count, Inside count (next block))
    (inside : Inside count p) (block : Addr) :
    ∀ other < count, Inside count (Function.update next block p other) := by
  intro other here
  by_cases same : other = block
  · rw [same, Function.update_self]
    exact inside
  · rw [Function.update_of_ne same]
    exact links other here

theorem update_outside {γ : Type} {f : Addr → γ} {value : γ} (inside : block < count) :
    ∀ other, count ≤ other → Function.update f block value other = f other := by
  intro other outside
  have different : other ≠ block := fun same => absurd inside (same ▸ outside).not_gt
  exact Function.update_of_ne different ..

theorem Inside.mono {count' : ℕ} (more : count ≤ count') (inside : Inside count p) :
    Inside count' p :=
  fun block here => (inside block here).trans_le more

namespace PoolInside

theorem free (pool : PoolInside count m) (inside : Inside count p) (limit : ℕ) :
    PoolInside count (zeroStrmBlockFree m p) ∧
      SameOutside count limit m (zeroStrmBlockFree m p) := by
  cases p with
  | none => exact ⟨pool, .refl ..⟩
  | some block =>
      exact ⟨⟨inside, pool.head, pool.tail, inside_update pool.next pool.freeList block⟩,
        update_outside (inside block rfl), fun _ _ => rfl, fun _ _ _ => rfl⟩

theorem new (pool : PoolInside count m) (limit : ℕ) :
    Inside count (zeroStrmBlockNew m).1 ∧ PoolInside count (zeroStrmBlockNew m).2 ∧
      SameOutside count limit m (zeroStrmBlockNew m).2 := by
  unfold zeroStrmBlockNew
  cases top : m.ptFreeList with
  | none => exact ⟨inside_none count, pool, .refl ..⟩
  | some block =>
      have inside := pool.freeList block top
      exact ⟨inside_some inside, ⟨pool.next block inside, pool.head, pool.tail, pool.next⟩,
        fun _ _ => rfl, fun _ _ => rfl, fun _ _ _ => rfl⟩

theorem append (pool : PoolInside count m) (inside : block < count) (limit : ℕ) :
    PoolInside count (zeroStrmBlockAppend m (some block)).2 ∧
      SameOutside count limit m (zeroStrmBlockAppend m (some block)).2 := by
  have next := inside_update pool.next (inside_none count) block
  have here := inside_some inside
  simp only [zeroStrmBlockAppend]
  cases last : m.ptTail with
  | none =>
      exact ⟨⟨pool.freeList, here, here, next⟩, update_outside inside, fun _ _ => rfl,
        fun _ _ _ => rfl⟩
  | some tail =>
      refine ⟨⟨pool.freeList, pool.head, here, inside_update next here tail⟩, ?_, fun _ _ => rfl,
        fun _ _ _ => rfl⟩
      intro other outside
      exact (update_outside (pool.tail tail last) other outside).trans
        (update_outside inside other outside)

theorem fetch (pool : PoolInside count m) (limit : ℕ) :
    Inside count (zeroStrmBlockFetch m).1 ∧ PoolInside count (zeroStrmBlockFetch m).2 ∧
      SameOutside count limit m (zeroStrmBlockFetch m).2 := by
  unfold zeroStrmBlockFetch
  cases first : m.ptHead with
  | none => exact ⟨inside_none count, pool, .refl ..⟩
  | some block =>
      have inside := pool.head block first
      have tail : Inside count (if some block = m.ptTail then none else m.ptTail) := by
        split
        · exact inside_none count
        · exact pool.tail
      exact ⟨inside_some inside,
        ⟨pool.freeList, pool.next block inside, tail,
          inside_update pool.next (inside_none count) block⟩,
        update_outside inside, fun _ _ => rfl, fun _ _ _ => rfl⟩

theorem setSize (pool : PoolInside count m) (inside : block < count) (size limit : ℕ) :
    PoolInside count (m.setSize block size) ∧ SameOutside count limit m (m.setSize block size) :=
  ⟨⟨pool.freeList, pool.head, pool.tail, pool.next⟩, fun _ _ => rfl, update_outside inside,
    fun _ _ _ => rfl⟩

/-- The initial pool. Its loop writes the link and the size of every block, and nothing else. -/
theorem initBlocks (capacity limit : ℕ) (m : MemBlkFifo β) (count : ℕ) :
    PoolInside count (ZeroStrm.initBlocks capacity count (zeroStrmBlockFifoInit m)) ∧
      SameOutside count limit m
        (ZeroStrm.initBlocks capacity count (zeroStrmBlockFifoInit m)) := by
  induction count with
  | zero =>
      exact ⟨⟨nofun, nofun, nofun, nofun⟩, fun _ _ => rfl, fun _ _ => rfl, fun _ _ _ => rfl⟩
  | succ n ih =>
      obtain ⟨pool, same⟩ := ih
      have more := Nat.le_succ n
      have last := Nat.lt_succ_self n
      refine ⟨⟨inside_some last, pool.head.mono more, pool.tail.mono more, ?_⟩, ?_, ?_, ?_⟩
      · intro block inside
        simp only [ZeroStrm.initBlocks, zeroStrmBlockFree, MemBlkFifo.setSize]
        rcases Nat.lt_succ_iff_lt_or_eq.mp inside with before | rfl
        · rw [Function.update_of_ne before.ne]
          exact (pool.next block before).mono more
        · rw [Function.update_self]
          exact pool.freeList.mono more
      · intro block outside
        exact (update_outside last block outside).trans (same.next block (more.trans outside))
      · intro block outside
        exact (update_outside last block outside).trans (same.size block (more.trans outside))
      · intro block index outside
        exact same.memory block index (outside.imp_left more.trans)

end PoolInside

end Operations

end ZeroStrm
