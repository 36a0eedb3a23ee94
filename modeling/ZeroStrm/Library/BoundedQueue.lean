import ZeroStrm.Library.Operations

/-!
# Bounded queues

A queue with a capacity, whose contents never exceed it. Values are put in at the back as long
as there is room and taken out at the front as long as there is one, into a register that holds
the last value taken (`queueCall`). A queue may also be set up again, empty or full.
-/

set_option autoImplicit false

namespace BoundedQueue

open DataRefinement

variable {α : Type*}

/-- The contents of a queue, within its capacity. -/
@[ext] structure Queue (α : Type*) where
  capacity : ℕ
  content : List α
  bounded : content.length ≤ capacity

/-- A queue with nothing in it. -/
def Queue.empty (capacity : ℕ) : Queue α := ⟨capacity, [], Nat.zero_le _⟩

/-- A queue with no more room. -/
def Queue.full (content : List α) : Queue α := ⟨content.length, content, Nat.le_refl _⟩

/-- A call of a queue. A refused one is there for callers that check their arguments. -/
inductive Call (α : Type*) where
  | restart (q : Queue α)
  | put (a : α)
  | take
  | isEmpty
  | refuse

/-- A queue with the register that values are taken into, under a call. -/
def queueCall : Component (Queue α × α) (Call α) Bool
  | (_, out), .restart q => (true, (q, out))
  | (q, out), .put a =>
    if room : q.content.length < q.capacity then
      (true, (⟨q.capacity, q.content ++ [a], by rw [List.length_append]; exact room⟩, out))
    else (false, (q, out))
  | (⟨capacity, [], bounded⟩, out), .take => (false, (⟨capacity, [], bounded⟩, out))
  | (⟨capacity, a :: rest, bounded⟩, _), .take =>
    (true, (⟨capacity, rest, Nat.le_of_succ_le bounded⟩, a))
  | (q, out), .isEmpty => (q.content.isEmpty, (q, out))
  | (q, out), .refuse => (false, (q, out))

variable {q : Queue α} {out a : α} {rest : List α}

theorem put_room (room : q.content.length < q.capacity) :
    (queueCall (q, out) (.put a)).1 = true ∧
      (queueCall (q, out) (.put a)).2.1.capacity = q.capacity ∧
      (queueCall (q, out) (.put a)).2.1.content = q.content ++ [a] ∧
      (queueCall (q, out) (.put a)).2.2 = out := by
  simp only [queueCall, dif_pos room]
  exact ⟨trivial, trivial, trivial, trivial⟩

theorem put_full (full : q.content.length = q.capacity) :
    queueCall (q, out) (.put a) = (false, (q, out)) := by
  simp only [queueCall, dif_neg (by omega : ¬ q.content.length < q.capacity)]

theorem take_nil (nothing : q.content = []) :
    queueCall (q, out) .take = (false, (q, out)) := by
  obtain ⟨capacity, content, bounded⟩ := q
  obtain rfl : content = [] := nothing
  rfl

theorem take_cons (first : q.content = a :: rest) :
    (queueCall (q, out) .take).1 = true ∧
      (queueCall (q, out) .take).2.1.capacity = q.capacity ∧
      (queueCall (q, out) .take).2.1.content = rest ∧
      (queueCall (q, out) .take).2.2 = a := by
  obtain ⟨capacity, content, bounded⟩ := q
  obtain rfl : content = a :: rest := first
  exact ⟨rfl, rfl, rfl, rfl⟩

theorem put_accepted_iff :
    (queueCall (q, out) (.put a)).1 = true ↔ q.content.length < q.capacity := by
  by_cases room : q.content.length < q.capacity
  · simp only [(put_room room).1, room]
  · have bounded := q.bounded
    simp only [put_full (show q.content.length = q.capacity by omega), room, Bool.false_eq_true]

theorem take_accepted_iff : (queueCall (q, out) .take).1 = true ↔ q.content ≠ [] := by
  obtain ⟨capacity, content, bounded⟩ := q
  cases content with
  | nil => simp [queueCall]
  | cons a rest => simp [queueCall]

end BoundedQueue
