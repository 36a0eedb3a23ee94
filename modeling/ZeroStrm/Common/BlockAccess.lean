import ZeroStrm.Library.Interruption
import ZeroStrm.Common.Block

/-!
# The block manager, one access at a time

The functions of `zero_strm_block.c` run in the application and in interrupt handlers, on the same
lists and without a lock. Here each is a routine whose points are its loads and stores of the
lists, in the order of the source, with the pointers it has loaded so far. Without interruption a
routine does what the function of `Common.Block` does (`freeAccess_alone`, `newAccess_alone`,
`appendAccess_alone`, `fetchAccess_alone`).

At each point, the memory is that of the beginning with the stores made so far (`FreeStage`,
`NewStage`, `AppendStage`, `FetchStage`). The order of the two loads in the comparison of
`zero_strm_block_fetch` is left open by the language, and is taken from left to right.
-/

set_option autoImplicit false

namespace ZeroStrm

open Interruption

variable {β : Type}

/-- Two memories with the same free list, sizes and data. The queue and the pointers of the blocks
may differ. -/
structure SameBlocks (m u : MemBlkFifo β) : Prop where
  list : u.ptFreeList = m.ptFreeList
  sizes : u.tSizeInByte = m.tSizeInByte
  memory : u.chMemory = m.chMemory

/-- The memory with other sizes and other data. -/
def withData (sizes : Addr → ℕ) (memory : Addr → ℕ → β) (m : MemBlkFifo β) : MemBlkFifo β :=
  { m with tSizeInByte := sizes, chMemory := memory }

/-! ## `zero_strm_block_free` -/

/-- The points of `zero_strm_block_free`. -/
inductive FreePoint where
  /-- Load `ptFreeList`. -/
  | loadList
  /-- Store it into `ptFreeBlock->ptNext`. -/
  | storeNext (ptFreeList : Ptr)
  /-- Store `ptFreeBlock` into `ptFreeList`. -/
  | storeList
  deriving DecidableEq, Repr

def freeAccess (ptFreeBlock : Addr) : Routine FreePoint (MemBlkFifo β) Unit
  | .loadList, m => (.goesOn (.storeNext m.ptFreeList), m)
  | .storeNext ptFreeList, m =>
    (.goesOn .storeList, { m with ptNext := Function.update m.ptNext ptFreeBlock ptFreeList })
  | .storeList, m => (.returns (), { m with ptFreeList := some ptFreeBlock })

/-- The memory at a point of a call that nothing interrupts. -/
def FreeStage (ptFreeBlock : Addr) (m : MemBlkFifo β) : FreePoint → MemBlkFifo β → Prop
  | .loadList, u => u = m
  | .storeNext ptFreeList, u => u = m ∧ ptFreeList = m.ptFreeList
  | .storeList, u =>
    u = { m with ptNext := Function.update m.ptNext ptFreeBlock m.ptFreeList }

/-- Up to the store into the list, a call has changed a pointer at most. -/
theorem FreeStage.sameBlocks {block : Addr} {m u : MemBlkFifo β} {point : FreePoint}
    (stage : FreeStage block m point u) : SameBlocks m u := by
  cases point with
  | loadList =>
      obtain rfl : u = m := stage
      exact ⟨rfl, rfl, rfl⟩
  | storeNext ptFreeList =>
      obtain ⟨rfl, -⟩ := stage
      exact ⟨rfl, rfl, rfl⟩
  | storeList =>
      obtain rfl : u = _ := stage
      exact ⟨rfl, rfl, rfl⟩

theorem FreeStage.otherData {block : Addr} {m u : MemBlkFifo β} {point : FreePoint}
    (stage : FreeStage block m point u) (sizes : Addr → ℕ) (memory : Addr → ℕ → β) :
    FreeStage block (withData sizes memory m) point (withData sizes memory u) := by
  cases point with
  | loadList =>
      obtain rfl : u = m := stage
      rfl
  | storeNext ptFreeList =>
      obtain ⟨rfl, rfl⟩ := stage
      exact ⟨rfl, rfl⟩
  | storeList =>
      obtain rfl : u = _ := stage
      rfl

theorem freeAccess_alone (ptFreeBlock : Addr) (m : MemBlkFifo β) :
    (freeAccess ptFreeBlock).alone 3 .loadList m =
      some ((), zeroStrmBlockFree m (some ptFreeBlock)) := rfl

theorem freeAccess_reached_iff {ptFreeBlock : Addr} {m u : MemBlkFifo β} {point : FreePoint} :
    (freeAccess ptFreeBlock).Reached .loadList m point u ↔ FreeStage ptFreeBlock m point u := by
  constructor
  · intro reached
    induction reached with
    | start => rfl
    | @access point _ t u _ code ih =>
        cases point with
        | loadList =>
            cases code
            exact ⟨ih, congrArg MemBlkFifo.ptFreeList ih⟩
        | storeNext ptFreeList =>
            obtain ⟨rfl, rfl⟩ := ih
            cases code
            rfl
        | storeList => cases code
  · intro stage
    cases point with
    | loadList =>
        obtain rfl : u = m := stage
        exact .start
    | storeNext ptFreeList =>
        obtain ⟨rfl, rfl⟩ := stage
        exact .access .start rfl
    | storeList =>
        obtain rfl : u = _ := stage
        exact .access (.access .start rfl) rfl

/-! ## `zero_strm_block_new` -/

/-- The points of `zero_strm_block_new`. -/
inductive NewPoint where
  /-- Load `ptFreeList` into `ptTemp`, and return if that is null. -/
  | loadTemp
  /-- Load `ptFreeList` again. -/
  | loadList (ptTemp : Addr)
  /-- Load its `ptNext`. -/
  | loadNext (ptTemp : Addr) (ptFreeList : Ptr)
  /-- Store that into `ptFreeList`. -/
  | storeList (ptTemp : Addr) (ptNext : Ptr)
  deriving DecidableEq, Repr

def newAccess : Routine NewPoint (MemBlkFifo β) Ptr
  | .loadTemp, m =>
    match m.ptFreeList with
    | none => (.returns none, m)
    | some ptTemp => (.goesOn (.loadList ptTemp), m)
  | .loadList ptTemp, m => (.goesOn (.loadNext ptTemp m.ptFreeList), m)
  | .loadNext ptTemp ptFreeList, m =>
    match ptFreeList with
    | none => (.faults, m)
    | some block => (.goesOn (.storeList ptTemp (m.ptNext block)), m)
  | .storeList ptTemp ptNext, m => (.returns (some ptTemp), { m with ptFreeList := ptNext })

/-- The memory at a point of a call that nothing interrupts. -/
def NewStage (m : MemBlkFifo β) : NewPoint → MemBlkFifo β → Prop
  | .loadTemp, u => u = m
  | .loadList ptTemp, u => u = m ∧ m.ptFreeList = some ptTemp
  | .loadNext ptTemp ptFreeList, u =>
    u = m ∧ m.ptFreeList = some ptTemp ∧ ptFreeList = some ptTemp
  | .storeList ptTemp ptNext, u =>
    u = m ∧ m.ptFreeList = some ptTemp ∧ ptNext = m.ptNext ptTemp

theorem newAccess_alone (m : MemBlkFifo β) :
    newAccess.alone 4 .loadTemp m = some (zeroStrmBlockNew m) := by
  cases top : m.ptFreeList with
  | none => simp only [Routine.alone, newAccess, top, zeroStrmBlockNew]
  | some ptTemp => simp only [Routine.alone, newAccess, top, zeroStrmBlockNew]

theorem newAccess_reached {m u : MemBlkFifo β} {point : NewPoint}
    (reached : newAccess.Reached .loadTemp m point u) : NewStage m point u := by
  induction reached with
  | start => rfl
  | @access point _ t u _ code ih =>
      cases point with
      | loadTemp =>
          obtain rfl : t = m := ih
          cases top : t.ptFreeList with
          | none =>
              simp only [newAccess, top] at code
              cases code
          | some ptTemp =>
              simp only [newAccess, top] at code
              cases code
              exact ⟨rfl, top⟩
      | loadList ptTemp =>
          obtain ⟨rfl, top⟩ := ih
          cases code
          exact ⟨rfl, top, top⟩
      | loadNext ptTemp ptFreeList =>
          obtain ⟨rfl, top, rfl⟩ := ih
          cases code
          exact ⟨rfl, top, rfl⟩
      | storeList ptTemp ptNext => cases code

/-! ## `zero_strm_block_append` -/

/-- The points of `zero_strm_block_append`. -/
inductive AppendPoint where
  /-- Clear `ptNewNode->ptNext`. -/
  | clearNext
  /-- Load `ptTail` and compare it with null. -/
  | testTail
  /-- With a null tail: store `ptNewNode` into `ptTail`. -/
  | storeFirst
  /-- Load `ptTail`. -/
  | loadFirst
  /-- Store it into `ptHead`. -/
  | storeHead (ptTail : Ptr)
  /-- With another tail: load `ptTail`. -/
  | loadTail
  /-- Store `ptNewNode` into its `ptNext`. -/
  | storeLink (ptTail : Ptr)
  /-- Store `ptNewNode` into `ptTail`. -/
  | storeTail
  deriving DecidableEq, Repr

def appendAccess (ptNewNode : Addr) : Routine AppendPoint (MemBlkFifo β) Bool
  | .clearNext, m =>
    (.goesOn .testTail, { m with ptNext := Function.update m.ptNext ptNewNode none })
  | .testTail, m =>
    match m.ptTail with
    | none => (.goesOn .storeFirst, m)
    | some _ => (.goesOn .loadTail, m)
  | .storeFirst, m => (.goesOn .loadFirst, { m with ptTail := some ptNewNode })
  | .loadFirst, m => (.goesOn (.storeHead m.ptTail), m)
  | .storeHead ptTail, m => (.returns true, { m with ptHead := ptTail })
  | .loadTail, m => (.goesOn (.storeLink m.ptTail), m)
  | .storeLink ptTail, m =>
    match ptTail with
    | none => (.faults, m)
    | some last =>
      (.goesOn .storeTail, { m with ptNext := Function.update m.ptNext last (some ptNewNode) })
  | .storeTail, m => (.returns true, { m with ptTail := some ptNewNode })

/-- The memory after the first store of `zero_strm_block_append`. -/
def nextCleared (ptNewNode : Addr) (m : MemBlkFifo β) : MemBlkFifo β :=
  { m with ptNext := Function.update m.ptNext ptNewNode none }

/-- The memory at a point of a call that nothing interrupts. -/
def AppendStage (ptNewNode : Addr) (m : MemBlkFifo β) : AppendPoint → MemBlkFifo β → Prop
  | .clearNext, u => u = m
  | .testTail, u => u = nextCleared ptNewNode m
  | .storeFirst, u => u = nextCleared ptNewNode m ∧ m.ptTail = none
  | .loadFirst, u =>
    u = { nextCleared ptNewNode m with ptTail := some ptNewNode } ∧ m.ptTail = none
  | .storeHead ptTail, u =>
    u = { nextCleared ptNewNode m with ptTail := some ptNewNode } ∧ m.ptTail = none ∧
      ptTail = some ptNewNode
  | .loadTail, u => u = nextCleared ptNewNode m ∧ ∃ last, m.ptTail = some last
  | .storeLink ptTail, u =>
    u = nextCleared ptNewNode m ∧ ∃ last, m.ptTail = some last ∧ ptTail = some last
  | .storeTail, u => ∃ last, m.ptTail = some last ∧
      u = { nextCleared ptNewNode m with
        ptNext := Function.update (nextCleared ptNewNode m).ptNext last (some ptNewNode) }

theorem appendAccess_alone (ptNewNode : Addr) (m : MemBlkFifo β) :
    (appendAccess ptNewNode).alone 5 .clearNext m =
      some (zeroStrmBlockAppend m (some ptNewNode)) := by
  cases last : m.ptTail with
  | none => simp only [Routine.alone, appendAccess, last, zeroStrmBlockAppend]
  | some ptTail => simp only [Routine.alone, appendAccess, last, zeroStrmBlockAppend]

theorem appendAccess_reached_iff {ptNewNode : Addr} {m u : MemBlkFifo β} {point : AppendPoint} :
    (appendAccess ptNewNode).Reached .clearNext m point u ↔
      AppendStage ptNewNode m point u := by
  constructor
  · intro reached
    induction reached with
    | start => rfl
    | @access point _ t u _ code ih =>
        cases point with
        | clearNext =>
            obtain rfl : t = m := ih
            cases code
            rfl
        | testTail =>
            obtain rfl : t = nextCleared ptNewNode m := ih
            have same : (nextCleared ptNewNode m).ptTail = m.ptTail := rfl
            cases last : m.ptTail with
            | none =>
                simp only [appendAccess, same, last] at code
                cases code
                exact ⟨rfl, last⟩
            | some ptTail =>
                simp only [appendAccess, same, last] at code
                cases code
                exact ⟨rfl, ptTail, last⟩
        | storeFirst =>
            obtain ⟨rfl, empty⟩ := ih
            cases code
            exact ⟨rfl, empty⟩
        | loadFirst =>
            obtain ⟨rfl, empty⟩ := ih
            cases code
            exact ⟨rfl, empty, rfl⟩
        | storeHead ptTail => cases code
        | loadTail =>
            obtain ⟨rfl, last, isLast⟩ := ih
            cases code
            exact ⟨rfl, last, isLast, isLast⟩
        | storeLink ptTail =>
            obtain ⟨rfl, last, isLast, rfl⟩ := ih
            cases code
            exact ⟨last, isLast, rfl⟩
        | storeTail => cases code
  · intro stage
    have test : (appendAccess ptNewNode).Reached .clearNext m .testTail
        (nextCleared ptNewNode m) := .access .start rfl
    have first (empty : m.ptTail = none) : (appendAccess ptNewNode).Reached .clearNext m
        .storeFirst (nextCleared ptNewNode m) := by
      refine .access test ?_
      simp only [appendAccess, nextCleared, empty]
    have second {last : Addr} (isLast : m.ptTail = some last) :
        (appendAccess ptNewNode).Reached .clearNext m .loadTail (nextCleared ptNewNode m) := by
      refine .access test ?_
      simp only [appendAccess, nextCleared, isLast]
    have link {last : Addr} (isLast : m.ptTail = some last) :
        (appendAccess ptNewNode).Reached .clearNext m (.storeLink (some last))
          (nextCleared ptNewNode m) := by
      refine .access (second isLast) ?_
      simp only [appendAccess, nextCleared, isLast]
    cases point with
    | clearNext =>
        obtain rfl : u = m := stage
        exact .start
    | testTail =>
        obtain rfl : u = _ := stage
        exact test
    | storeFirst =>
        obtain ⟨rfl, empty⟩ := stage
        exact first empty
    | loadFirst =>
        obtain ⟨rfl, empty⟩ := stage
        exact .access (first empty) rfl
    | storeHead ptTail =>
        obtain ⟨rfl, empty, rfl⟩ := stage
        exact .access (.access (first empty) rfl) rfl
    | loadTail =>
        obtain ⟨rfl, last, isLast⟩ := stage
        exact second isLast
    | storeLink ptTail =>
        obtain ⟨rfl, last, isLast, rfl⟩ := stage
        exact link isLast
    | storeTail =>
        obtain ⟨last, isLast, rfl⟩ := stage
        exact .access (link isLast) rfl

/-! ## `zero_strm_block_fetch` -/

/-- The points of `zero_strm_block_fetch`. -/
inductive FetchPoint where
  /-- Load `ptHead` into `ptTemp`, and return if that is null. -/
  | loadTemp
  /-- Load `ptHead` for the comparison. -/
  | compareHead (ptTemp : Addr)
  /-- Load `ptTail` and compare. -/
  | compareTail (ptTemp : Addr) (ptHead : Ptr)
  /-- The last one block: clear `ptTail`. -/
  | clearTail (ptTemp : Addr)
  /-- Load `ptHead`. -/
  | loadHead (ptTemp : Addr)
  /-- Load its `ptNext`. -/
  | loadNext (ptTemp : Addr) (ptHead : Ptr)
  /-- Store that into `ptHead`. -/
  | storeHead (ptTemp : Addr) (ptNext : Ptr)
  /-- Clear `ptTemp->ptNext`. -/
  | clearNext (ptTemp : Addr)
  deriving DecidableEq, Repr

def fetchAccess : Routine FetchPoint (MemBlkFifo β) Ptr
  | .loadTemp, m =>
    match m.ptHead with
    | none => (.returns none, m)
    | some ptTemp => (.goesOn (.compareHead ptTemp), m)
  | .compareHead ptTemp, m => (.goesOn (.compareTail ptTemp m.ptHead), m)
  | .compareTail ptTemp ptHead, m =>
    if ptHead = m.ptTail then (.goesOn (.clearTail ptTemp), m)
    else (.goesOn (.loadHead ptTemp), m)
  | .clearTail ptTemp, m => (.goesOn (.loadHead ptTemp), { m with ptTail := none })
  | .loadHead ptTemp, m => (.goesOn (.loadNext ptTemp m.ptHead), m)
  | .loadNext ptTemp ptHead, m =>
    match ptHead with
    | none => (.faults, m)
    | some block => (.goesOn (.storeHead ptTemp (m.ptNext block)), m)
  | .storeHead ptTemp ptNext, m => (.goesOn (.clearNext ptTemp), { m with ptHead := ptNext })
  | .clearNext ptTemp, m =>
    (.returns (some ptTemp), { m with ptNext := Function.update m.ptNext ptTemp none })

/-- The memory after the test of `zero_strm_block_fetch` for the last one block. -/
def tailCleared (m : MemBlkFifo β) : MemBlkFifo β :=
  { m with ptTail := if m.ptHead = m.ptTail then none else m.ptTail }

/-- With one block queued the test clears the tail. -/
theorem tailCleared_last {m : MemBlkFifo β} (only : m.ptHead = m.ptTail) :
    tailCleared m = { m with ptTail := none } := by
  simp only [tailCleared, if_pos only]

theorem tailCleared_other {m : MemBlkFifo β} (more : m.ptHead ≠ m.ptTail) :
    tailCleared m = m := by
  simp only [tailCleared, if_neg more]

/-- A queue whose head is its tail has one block. -/
theorem Represents.next_last {m : MemBlkFifo β} {free queue : List Addr}
    {block : Addr} (held : Represents m free queue) (head : m.ptHead = some block)
    (only : m.ptHead = m.ptTail) : m.ptNext block = none := by
  obtain ⟨rest, rfl, next⟩ := (head ▸ held.fifo).eq_cons
  cases rest with
  | nil => exact next
  | cons second rest =>
      have distinct := (List.nodup_cons.mp held.fifo.nodup).1
      have last : (second :: rest).getLast? = some block := by
        rw [← List.getLast?_cons_cons (a := block), ← held.tail, ← only, head]
      exact absurd (List.mem_of_getLast? last) distinct

/-- The memory at a point of a call that nothing interrupts. -/
def FetchStage (m : MemBlkFifo β) : FetchPoint → MemBlkFifo β → Prop
  | .loadTemp, u => u = m
  | .compareHead ptTemp, u => u = m ∧ m.ptHead = some ptTemp
  | .compareTail ptTemp ptHead, u => u = m ∧ m.ptHead = some ptTemp ∧ ptHead = some ptTemp
  | .clearTail ptTemp, u => u = m ∧ m.ptHead = some ptTemp ∧ m.ptTail = some ptTemp
  | .loadHead ptTemp, u => u = tailCleared m ∧ m.ptHead = some ptTemp
  | .loadNext ptTemp ptHead, u =>
    u = tailCleared m ∧ m.ptHead = some ptTemp ∧ ptHead = some ptTemp
  | .storeHead ptTemp ptNext, u =>
    u = tailCleared m ∧ m.ptHead = some ptTemp ∧ ptNext = m.ptNext ptTemp
  | .clearNext ptTemp, u =>
    m.ptHead = some ptTemp ∧ u = { tailCleared m with ptHead := m.ptNext ptTemp }

/-- A call changes no free block, no size and no data. -/
theorem FetchStage.sameBlocks {m u : MemBlkFifo β} {point : FetchPoint}
    (stage : FetchStage m point u) : SameBlocks m u := by
  cases point with
  | loadTemp =>
      obtain rfl : u = m := stage
      exact ⟨rfl, rfl, rfl⟩
  | clearNext ptTemp =>
      obtain ⟨-, rfl⟩ := stage
      exact ⟨rfl, rfl, rfl⟩
  | _ =>
      obtain ⟨rfl, -⟩ := stage
      exact ⟨rfl, rfl, rfl⟩

theorem FetchStage.otherData {m u : MemBlkFifo β} {point : FetchPoint}
    (stage : FetchStage m point u) (sizes : Addr → ℕ) (memory : Addr → ℕ → β) :
    FetchStage (withData sizes memory m) point (withData sizes memory u) := by
  cases point with
  | loadTemp =>
      obtain rfl : u = m := stage
      rfl
  | clearNext ptTemp =>
      obtain ⟨head, rfl⟩ := stage
      exact ⟨head, rfl⟩
  | _ =>
      obtain ⟨rfl, pointers⟩ := stage
      exact ⟨rfl, pointers⟩

theorem fetchAccess_alone (m : MemBlkFifo β) :
    fetchAccess.alone 8 .loadTemp m = some (zeroStrmBlockFetch m) := by
  cases head : m.ptHead with
  | none => simp only [Routine.alone, fetchAccess, head, zeroStrmBlockFetch]
  | some ptTemp =>
      by_cases only : some ptTemp = m.ptTail
      · have last : m.ptTail = some ptTemp := only.symm
        simp only [Routine.alone, fetchAccess, head, last, if_true, zeroStrmBlockFetch]
      · simp only [Routine.alone, fetchAccess, head, if_neg only, zeroStrmBlockFetch]

theorem fetchAccess_reached_iff {m u : MemBlkFifo β} {point : FetchPoint} :
    fetchAccess.Reached .loadTemp m point u ↔ FetchStage m point u := by
  constructor
  · intro reached
    induction reached with
    | start => rfl
    | @access point _ t u _ code ih =>
        cases point with
        | loadTemp =>
            obtain rfl : t = m := ih
            cases head : t.ptHead with
            | none =>
                simp only [fetchAccess, head] at code
                cases code
            | some ptTemp =>
                simp only [fetchAccess, head] at code
                cases code
                exact ⟨rfl, head⟩
        | compareHead ptTemp =>
            obtain ⟨rfl, head⟩ := ih
            cases code
            exact ⟨rfl, head, head⟩
        | compareTail ptTemp ptHead =>
            obtain ⟨rfl, head, rfl⟩ := ih
            by_cases only : some ptTemp = t.ptTail
            · simp only [fetchAccess, if_pos only] at code
              cases code
              exact ⟨rfl, head, only.symm⟩
            · simp only [fetchAccess, if_neg only] at code
              cases code
              exact ⟨(tailCleared_other (head ▸ only)).symm, head⟩
        | clearTail ptTemp =>
            obtain ⟨rfl, head, last⟩ := ih
            cases code
            exact ⟨(tailCleared_last (head.trans last.symm)).symm, head⟩
        | loadHead ptTemp =>
            obtain ⟨rfl, head⟩ := ih
            cases code
            exact ⟨rfl, head, head⟩
        | loadNext ptTemp ptHead =>
            obtain ⟨rfl, head, rfl⟩ := ih
            cases code
            exact ⟨rfl, head, rfl⟩
        | storeHead ptTemp ptNext =>
            obtain ⟨rfl, head, rfl⟩ := ih
            cases code
            exact ⟨head, rfl⟩
        | clearNext ptTemp => cases code
  · intro stage
    have compare {ptTemp : Addr} (head : m.ptHead = some ptTemp) :
        fetchAccess.Reached .loadTemp m (.compareHead ptTemp) m := by
      refine .access .start ?_
      simp only [fetchAccess, head]
    have compared {ptTemp : Addr} (head : m.ptHead = some ptTemp) :
        fetchAccess.Reached .loadTemp m (.compareTail ptTemp (some ptTemp)) m := by
      refine .access (compare head) ?_
      simp only [fetchAccess, head]
    have clear {ptTemp : Addr} (head : m.ptHead = some ptTemp) (last : m.ptTail = some ptTemp) :
        fetchAccess.Reached .loadTemp m (.clearTail ptTemp) m := by
      refine .access (compared head) ?_
      simp only [fetchAccess, last, if_true]
    have load {ptTemp : Addr} (head : m.ptHead = some ptTemp) :
        fetchAccess.Reached .loadTemp m (.loadHead ptTemp) (tailCleared m) := by
      by_cases only : some ptTemp = m.ptTail
      · rw [tailCleared_last (head.trans only)]
        exact .access (clear head only.symm) rfl
      · rw [tailCleared_other (head ▸ only)]
        refine .access (compared head) ?_
        simp only [fetchAccess, if_neg only]
    have loaded {ptTemp : Addr} (head : m.ptHead = some ptTemp) :
        fetchAccess.Reached .loadTemp m (.loadNext ptTemp (some ptTemp)) (tailCleared m) := by
      refine .access (load head) ?_
      simp only [fetchAccess, tailCleared, head]
    have store {ptTemp : Addr} (head : m.ptHead = some ptTemp) :
        fetchAccess.Reached .loadTemp m (.storeHead ptTemp (m.ptNext ptTemp))
          (tailCleared m) := .access (loaded head) rfl
    cases point with
    | loadTemp =>
        obtain rfl : u = m := stage
        exact .start
    | compareHead ptTemp =>
        obtain ⟨rfl, head⟩ := stage
        exact compare head
    | compareTail ptTemp ptHead =>
        obtain ⟨rfl, head, rfl⟩ := stage
        exact compared head
    | clearTail ptTemp =>
        obtain ⟨rfl, head, last⟩ := stage
        exact clear head last
    | loadHead ptTemp =>
        obtain ⟨rfl, head⟩ := stage
        exact load head
    | loadNext ptTemp ptHead =>
        obtain ⟨rfl, head, rfl⟩ := stage
        exact loaded head
    | storeHead ptTemp ptNext =>
        obtain ⟨rfl, head, rfl⟩ := stage
        exact store head
    | clearNext ptTemp =>
        obtain ⟨head, rfl⟩ := stage
        exact .access (store head) rfl

end ZeroStrm
