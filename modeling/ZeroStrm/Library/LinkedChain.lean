import Mathlib.Data.List.Nodup
import Mathlib.Logic.Function.Basic

/-!
# Chains of next pointers

A memory of nodes is seen through its next pointers, a function `next : α → Option α` in which
`none` is the null pointer. `Chain next p xs` says that following `next` from `p` visits the
nodes of `xs` in order and then reaches null.

A chain is determined by its start (`Chain.unique`), so no node occurs twice in it
(`Chain.nodup`): a chain that ends has no cycle. Writing the pointer of a node outside a chain
leaves the chain alone (`chain_update`). The three ways a chain changes are a node pushed in
front of it (`Chain.push`), its first node taken off (`chain_cons`), and a node linked behind
its last one (`Chain.linkTail`).
-/

set_option autoImplicit false

namespace LinkedChain

variable {α : Type*}

/-- Following the next pointers from the start visits the nodes in order and ends at null. -/
def Chain (next : α → Option α) : Option α → List α → Prop
  | p, [] => p = none
  | p, a :: as => p = some a ∧ Chain next (next a) as

variable {next next' : α → Option α} {p : Option α} {xs ys : List α} {a t : α}

@[simp] theorem chain_nil : Chain next p [] ↔ p = none := Iff.rfl

@[simp] theorem chain_cons : Chain next p (a :: xs) ↔ p = some a ∧ Chain next (next a) xs :=
  Iff.rfl

theorem Chain.start (chain : Chain next p xs) : p = xs.head? := by
  cases xs with
  | nil => exact chain
  | cons a as => exact chain.1

theorem Chain.eq_nil (chain : Chain next none xs) : xs = [] := by
  cases xs with
  | nil => rfl
  | cons a as => cases chain.1

theorem Chain.eq_cons (chain : Chain next (some a) xs) :
    ∃ as, xs = a :: as ∧ Chain next (next a) as := by
  cases xs with
  | nil => cases chain
  | cons b as =>
      obtain ⟨same, rest⟩ := chain
      cases same
      exact ⟨as, rfl, rest⟩

theorem Chain.unique (first : Chain next p xs) (second : Chain next p ys) : xs = ys := by
  induction xs generalizing p ys with
  | nil =>
      cases first
      exact second.eq_nil.symm
  | cons a as ih =>
      obtain ⟨rfl, rest⟩ := first
      obtain ⟨bs, rfl, rest'⟩ := second.eq_cons
      rw [ih rest rest']

/-- The part of a chain from one of its nodes on is the chain of that node. -/
theorem Chain.suffix {before : List α} (chain : Chain next p (before ++ a :: xs)) :
    Chain next (some a) (a :: xs) := by
  induction before generalizing p with
  | nil => exact ⟨rfl, chain.2⟩
  | cons b before ih => exact ih chain.2

/-- **A chain visits no node twice.** A second visit would give a node two chains of
different length. -/
theorem Chain.nodup (chain : Chain next p xs) : xs.Nodup := by
  induction xs generalizing p with
  | nil => exact List.nodup_nil
  | cons a as ih =>
      refine List.nodup_cons.mpr ⟨?_, ih chain.2⟩
      intro again
      obtain ⟨before, after, rfl⟩ := List.append_of_mem again
      have here : Chain next (some a) (a :: (before ++ a :: after)) := ⟨rfl, chain.2⟩
      have there : Chain next (some a) (a :: after) := Chain.suffix chain.2
      have lengths := congrArg List.length (here.unique there)
      simp only [List.length_cons, List.length_append] at lengths
      omega

theorem Chain.congr (same : ∀ a ∈ xs, next a = next' a) (chain : Chain next p xs) :
    Chain next' p xs := by
  induction xs generalizing p with
  | nil => exact chain
  | cons a as ih =>
      refine ⟨chain.1, ?_⟩
      rw [← same a (List.mem_cons_self ..)]
      exact ih (fun b member => same b (List.mem_cons_of_mem _ member)) chain.2

section Update

variable [DecidableEq α]

/-- **Writing the pointer of a node outside a chain leaves the chain alone.** -/
theorem Chain.update (outside : a ∉ xs) (q : Option α) (chain : Chain next p xs) :
    Chain (Function.update next a q) p xs := by
  apply chain.congr
  intro b member
  have other : b ≠ a := fun same => outside (same ▸ member)
  exact (Function.update_of_ne other q next).symm

/-- A node whose pointer is set to the start of a chain is a new first node. -/
theorem Chain.push (outside : a ∉ xs) (chain : Chain next p xs) :
    Chain (Function.update next a p) (some a) (a :: xs) := by
  refine ⟨rfl, ?_⟩
  rw [Function.update_self]
  exact chain.update outside p

/-- A node with a null pointer, to which the last node of a chain points, is a new last
node. -/
theorem Chain.linkTail (outside : a ∉ xs ++ [t]) (chain : Chain next p (xs ++ [t])) :
    Chain (Function.update (Function.update next a none) t (some a)) p (xs ++ [t] ++ [a]) := by
  induction xs generalizing p with
  | nil =>
      obtain ⟨rfl, -⟩ := chain
      have other : a ≠ t := fun same => outside (by simp [same])
      exact ⟨rfl, Function.update_self .., Function.update_of_ne other .. |>.trans
        (Function.update_self ..)⟩
  | cons b xs ih =>
      have distinct := chain.nodup
      obtain ⟨rfl, rest⟩ := chain
      have notNew : b ≠ a := fun same => outside (by simp [same])
      have notLast : b ≠ t := by
        rintro rfl
        simp at distinct
      refine ⟨rfl, ?_⟩
      rw [Function.update_of_ne notLast, Function.update_of_ne notNew]
      exact ih (fun member => outside (List.mem_cons_of_mem _ member)) rest

theorem chain_singleton (a : α) : Chain (Function.update next a none) (some a) [a] :=
  ⟨rfl, Function.update_self ..⟩

end Update

end LinkedChain
