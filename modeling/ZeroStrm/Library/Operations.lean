import Mathlib.Order.Basic

/-!
# Refinement of operations

A component takes a call in a state to a result and a next state. One component implements
another one if a relation between their states is kept by every call and the results agree
(`Implements`). Then they agree on any sequence of calls, result by result (`Implements.run`).

The call of the abstract component may depend on the concrete state (`view`), and the abstract
component may ask something of its calls (`pre`). Both are followed along the whole sequence
(`Component.seen`, `Component.Allowed`).
-/

set_option autoImplicit false

namespace DataRefinement

variable {σ τ κ κ' ρ : Type*}

/-- What a call does in a state: its result, and the state after it. -/
abbrev Component (σ κ ρ : Type*) := σ → κ → ρ × σ

namespace Component

/-- The results of calls made in order, and the state after them. -/
def run (component : Component σ κ ρ) : σ → List κ → List ρ × σ
  | s, [] => ([], s)
  | s, c :: cs =>
    let after := run component (component s c).2 cs
    ((component s c).1 :: after.1, after.2)

/-- The calls as the abstract component sees them, in the states in which they are made. -/
def seen (component : Component σ κ ρ) (view : σ → κ → κ') : σ → List κ → List κ'
  | _, [] => []
  | s, c :: cs => view s c :: seen component view (component s c).2 cs

/-- Every call meets a condition in the state in which it is made. -/
def Allowed (component : Component σ κ ρ) (pre : σ → κ → Prop) : σ → List κ → Prop
  | _, [] => True
  | s, c :: cs => pre s c ∧ Allowed component pre (component s c).2 cs

variable {component : Component σ κ ρ} {s : σ} {c : κ} {cs ds : List κ}

@[simp] theorem run_nil : component.run s [] = ([], s) := rfl

@[simp] theorem run_cons : component.run s (c :: cs) =
    ((component s c).1 :: (component.run (component s c).2 cs).1,
      (component.run (component s c).2 cs).2) := rfl

@[simp] theorem seen_nil (view : σ → κ → κ') : component.seen view s [] = [] := rfl

@[simp] theorem seen_cons (view : σ → κ → κ') :
    component.seen view s (c :: cs) = view s c :: component.seen view (component s c).2 cs := rfl

/-- A view that shows every call as it is shows the sequence as it is. -/
theorem seen_same : component.seen (fun _ c => c) s cs = cs := by
  induction cs generalizing s with
  | nil => rfl
  | cons c cs ih => rw [seen_cons, ih]

/-- A condition that every call meets is met throughout. -/
theorem allowed_of_forall {pre : σ → κ → Prop} (always : ∀ s c, pre s c) :
    component.Allowed pre s cs := by
  induction cs generalizing s with
  | nil => trivial
  | cons c cs ih => exact ⟨always s c, ih⟩

end Component

/-- A concrete component implements an abstract one: on related states an allowed call gives
the same result and leads to related states. -/
structure Implements (concrete : Component σ κ ρ) (abstract : Component τ κ' ρ)
    (view : σ → κ → κ') (pre : τ → κ' → Prop) (related : σ → τ → Prop) : Prop where
  result : ∀ ⦃s t c⦄, related s t → pre t (view s c) →
    (concrete s c).1 = (abstract t (view s c)).1
  state : ∀ ⦃s t c⦄, related s t → pre t (view s c) →
    related (concrete s c).2 (abstract t (view s c)).2

/-- **The components agree on every sequence of calls.** -/
theorem Implements.run {concrete : Component σ κ ρ} {abstract : Component τ κ' ρ}
    {view : σ → κ → κ'} {pre : τ → κ' → Prop} {related : σ → τ → Prop}
    (implements : Implements concrete abstract view pre related) {s : σ} {t : τ} {cs : List κ}
    (here : related s t) (allowed : abstract.Allowed pre t (concrete.seen view s cs)) :
    (concrete.run s cs).1 = (abstract.run t (concrete.seen view s cs)).1 ∧
      related (concrete.run s cs).2 (abstract.run t (concrete.seen view s cs)).2 := by
  induction cs generalizing s t with
  | nil => exact ⟨rfl, here⟩
  | cons c cs ih =>
      obtain ⟨met, later⟩ := allowed
      have same := implements.result here met
      obtain ⟨results, after⟩ := ih (implements.state here met) later
      simp only [Component.run_cons, Component.seen_cons, same, results]
      exact ⟨trivial, after⟩

end DataRefinement
