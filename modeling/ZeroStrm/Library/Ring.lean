import Mathlib.Data.List.Range
import Mathlib.Data.Nat.ModEq
import Mathlib.Logic.Function.Basic

/-!
# The contents of a ring buffer

A ring of a given size holds a list in the cells `head, head + 1, …`, taken modulo the size
(`ringList`). Moving the head on by one takes the first element off (`ringList_succ`), and
writing the cell behind the last one appends an element (`ringList_push`). A ring whose head is
at cell zero holds an initial segment of its memory (`ringList_zero_head`).
-/

set_option autoImplicit false

namespace Ring

variable {β : Type*}

/-- The elements of a ring of the given size, from the head on. -/
def ringList (mem : ℕ → β) (size head len : ℕ) : List β :=
  (List.range len).map fun i => mem ((head + i) % size)

/-- The index after the given one, back at zero at the end of the ring. -/
def advance (size i : ℕ) : ℕ := if size ≤ i + 1 then 0 else i + 1

variable {mem : ℕ → β} {size head len i : ℕ} {x : β}

theorem advance_eq_mod (inside : i < size) : advance size i = (i + 1) % size := by
  unfold advance
  split
  · have last : i + 1 = size := by omega
    rw [last, Nat.mod_self]
  · exact (Nat.mod_eq_of_lt (by omega)).symm

theorem advance_lt (inside : i < size) : advance size i < size := by
  unfold advance
  split <;> omega

@[simp] theorem length_ringList : (ringList mem size head len).length = len := by
  simp [ringList]

@[simp] theorem ringList_zero : ringList mem size head 0 = [] := rfl

/-- The first element of a ring is at the head, and the rest is the ring from the next
index. -/
theorem ringList_succ (inside : head < size) :
    ringList mem size head (len + 1) = mem head :: ringList mem size (advance size head) len := by
  rw [ringList, List.range_succ_eq_map, List.map_cons, List.map_map, Nat.add_zero,
    Nat.mod_eq_of_lt inside, advance_eq_mod inside]
  congr 1
  apply List.map_congr_left
  intro k _
  rw [Function.comp_apply, Nat.mod_add_mod]
  congr 2
  omega

/-- Two offsets within one turn of the ring that meet the same cell are equal. -/
theorem offset_inj {j k : ℕ} (jInside : j < size) (kInside : k < size)
    (same : (head + j) % size = (head + k) % size) : j = k := by
  have cancelled : j % size = k % size := Nat.ModEq.add_left_cancel' head same
  rwa [Nat.mod_eq_of_lt jInside, Nat.mod_eq_of_lt kInside] at cancelled

/-- **Writing the first free cell appends.** -/
theorem ringList_push (room : len < size) :
    ringList (Function.update mem ((head + len) % size) x) size head (len + 1) =
      ringList mem size head len ++ [x] := by
  rw [ringList, List.range_succ, List.map_append, List.map_singleton, Function.update_self]
  congr 1
  apply List.map_congr_left
  intro k member
  have earlier : k < len := List.mem_range.mp member
  apply Function.update_of_ne
  intro same
  have equal := offset_inj (by omega) room same
  omega

/-- A ring from cell zero is an initial segment of its memory. -/
theorem ringList_zero_head (fits : len ≤ size) :
    ringList mem size 0 len = (List.range len).map mem := by
  apply List.map_congr_left
  intro k member
  have inside : k < size := (List.mem_range.mp member).trans_le fits
  rw [Nat.zero_add, Nat.mod_eq_of_lt inside]

end Ring
