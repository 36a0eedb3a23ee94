import Mathlib.Data.List.Infix

/-!
# Runs of an event-driven system

A system is a step relation: in a state, an event may lead to a state. A run takes a list of
events in order (`Run`). Two rules carry what one step preserves to whole runs:

* `Run.invariant`: what holds at the start and is kept by every step holds at the end;
* `Run.guarded_iff_throughout`: where every step from a state of the invariant either meets a
  guard and keeps the invariant, or misses the guard and breaks a property, a run meets the
  guard at every step exactly when the property holds in every state it reaches.

The guard speaks about the state before the step and the event. A run whose steps all meet
the guard is a run of the guarded relation (`guarded`).
-/

set_option autoImplicit false

namespace EventRuns

variable {σ ε : Type*}

/-- In a state, an event may lead to a state. -/
abbrev StepRel (σ ε : Type*) := σ → ε → σ → Prop

/-- The events, taken in order from the first state, lead to the last. -/
def Run (step : StepRel σ ε) : σ → List ε → σ → Prop
  | s, [], t => s = t
  | s, e :: es, t => ∃ u, step s e u ∧ Run step u es t

/-- The steps that meet a condition on the event and on the state before it. -/
def guarded (step : StepRel σ ε) (guard : σ → ε → Prop) : StepRel σ ε :=
  fun s e t => guard s e ∧ step s e t

/-- The event and the state before it determine the state after it. -/
def Deterministic (step : StepRel σ ε) : Prop :=
  ∀ ⦃s e t u⦄, step s e t → step s e u → t = u

/-- A property holds in every state the events reach, the first one included. -/
def Throughout (step : StepRel σ ε) (good : σ → Prop) (s : σ) (es : List ε) : Prop :=
  ∀ taken u, taken <+: es → Run step s taken u → good u

variable {step : StepRel σ ε}

@[simp] theorem run_nil {s t : σ} : Run step s [] t ↔ s = t := Iff.rfl

@[simp] theorem run_cons {s t : σ} {e : ε} {es : List ε} :
    Run step s (e :: es) t ↔ ∃ u, step s e u ∧ Run step u es t := Iff.rfl

theorem run_append {s t : σ} {first second : List ε} :
    Run step s (first ++ second) t ↔ ∃ u, Run step s first u ∧ Run step u second t := by
  induction first generalizing s with
  | nil => simp
  | cons e es ih =>
      simp only [List.cons_append, run_cons, ih]
      constructor
      · rintro ⟨v, taken, u, before, after⟩
        exact ⟨u, ⟨v, taken, before⟩, after⟩
      · rintro ⟨u, ⟨v, taken, before⟩, after⟩
        exact ⟨v, taken, u, before, after⟩

theorem run_concat {s t : σ} {es : List ε} {e : ε} :
    Run step s (es ++ [e]) t ↔ ∃ u, Run step s es u ∧ step u e t := by
  simp [run_append]

/-- **The invariant rule.** -/
theorem Run.invariant (inv : σ → Prop) (kept : ∀ ⦃s e t⦄, inv s → step s e t → inv t)
    {s t : σ} {es : List ε} (run : Run step s es t) (start : inv s) : inv t := by
  induction es generalizing s with
  | nil => exact run ▸ start
  | cons e es ih =>
      obtain ⟨u, taken, rest⟩ := run
      exact ih rest (kept start taken)

/-- **The invariant rule with a history**, for a run of allowed events. -/
theorem Run.history (inv : List ε → σ → Prop) (allowed : ε → Prop) (done : List ε)
    (kept : ∀ ⦃done s e t⦄, allowed e → inv done s → step s e t → inv (done ++ [e]) t)
    {s t : σ} {es : List ε} (run : Run step s es t) (every : ∀ e ∈ es, allowed e)
    (start : inv done s) : inv (done ++ es) t := by
  induction es generalizing s done with
  | nil =>
      obtain rfl : s = t := run
      simpa using start
  | cons e es ih =>
      obtain ⟨u, taken, rest⟩ := run
      have next := kept (every e List.mem_cons_self) start taken
      simpa using ih _ rest (fun f member => every f (List.mem_cons_of_mem _ member)) next

theorem Throughout.mono {good good' : σ → Prop} (weaker : ∀ s, good s → good' s) {s : σ}
    {es : List ε} (always : Throughout step good s es) : Throughout step good' s es :=
  fun taken u before run => weaker u (always taken u before run)

/-- **The credit rule.** Certain events lower a rank, and certain events raise it by no more than
their credit. Then the first are no more than the rank and the credit of the others allow. -/
theorem Run.credit (inv : σ → Prop) (kept : ∀ ⦃s e t⦄, inv s → step s e t → inv t)
    (rank : σ → ℕ) (own given : ε → Bool) (credit : ℕ)
    (paid : ∀ ⦃s e t⦄, inv s → step s e t →
      rank t + (if own e then 1 else 0) ≤ rank s + if given e then credit else 0)
    {s t : σ} {es : List ε} (run : Run step s es t) (start : inv s) :
    rank t + es.countP own ≤ rank s + credit * es.countP given := by
  induction es generalizing s with
  | nil =>
      obtain rfl : s = t := run
      exact le_rfl
  | cons e es ih =>
      obtain ⟨u, taken, rest⟩ := run
      have before := paid start taken
      have after := ih rest (kept start taken)
      have credited : credit * (if given e then 1 else 0) = if given e then credit else 0 := by
        cases given e <;> simp
      rw [List.countP_cons, List.countP_cons, Nat.mul_add, credited]
      omega

/-- **The rank rule.** A rank that certain events lower and the others do not raise bounds the
number of those events in a run. -/
theorem Run.rank (inv : σ → Prop) (kept : ∀ ⦃s e t⦄, inv s → step s e t → inv t)
    (rank : σ → ℕ) (own : ε → Bool)
    (lowered : ∀ ⦃s e t⦄, inv s → step s e t → rank t + (if own e then 1 else 0) ≤ rank s)
    {s t : σ} {es : List ε} (run : Run step s es t) (start : inv s) :
    rank t + es.countP own ≤ rank s := by
  have bound := run.credit inv kept rank own (fun _ => false) 0 lowered start
  rwa [Nat.zero_mul, Nat.add_zero] at bound

section Histories

variable {σ' : Type*} {step' : StepRel σ' ε} {f : σ' → σ}

/-- A view of the states that shows every step as a step shows a run as a run. -/
theorem Run.map (shows : ∀ ⦃s e t⦄, step' s e t → step (f s) e (f t)) {s t : σ'} {es : List ε}
    (run : Run step' s es t) : Run step (f s) es (f t) := by
  induction es generalizing s with
  | nil => exact congrArg f run
  | cons e es ih =>
      obtain ⟨u, taken, rest⟩ := run
      exact ⟨f u, shows taken, ih rest⟩

/-- A system that only adds a history to another one has its runs. -/
theorem Run.lift (extended : ∀ ⦃s e t⦄, step (f s) e t → ∃ t', f t' = t ∧ step' s e t') {s : σ'}
    {t : σ} {es : List ε} (run : Run step (f s) es t) : ∃ t', f t' = t ∧ Run step' s es t' := by
  induction es generalizing s with
  | nil => exact ⟨s, run, rfl⟩
  | cons e es ih =>
      obtain ⟨u, taken, rest⟩ := run
      obtain ⟨u', rfl, taken'⟩ := extended taken
      obtain ⟨t', same, rest'⟩ := ih rest
      exact ⟨t', same, u', taken', rest'⟩

end Histories

/-- Where an invariant gives a guard, every run is guarded. -/
theorem Run.guarded_of_invariant {guard : σ → ε → Prop} (inv : σ → Prop)
    (kept : ∀ ⦃s e t⦄, inv s → step s e t → inv t)
    (met : ∀ ⦃s e t⦄, inv s → step s e t → guard s e) {s t : σ} {es : List ε}
    (run : Run step s es t) (start : inv s) : Run (guarded step guard) s es t := by
  induction es generalizing s with
  | nil => exact run
  | cons e es ih =>
      obtain ⟨u, taken, rest⟩ := run
      exact ⟨u, ⟨met start taken, taken⟩, ih rest (kept start taken)⟩

theorem Run.unguarded {guard : σ → ε → Prop} {s t : σ} {es : List ε}
    (run : Run (guarded step guard) s es t) : Run step s es t := by
  induction es generalizing s with
  | nil => exact run
  | cons e es ih =>
      obtain ⟨u, ⟨-, taken⟩, rest⟩ := run
      exact ⟨u, taken, ih rest⟩

/-- A run is guarded, or there is a first step that misses the guard. -/
theorem Run.guarded_or_missed (guard : σ → ε → Prop) {s t : σ} {es : List ε}
    (run : Run step s es t) :
    Run (guarded step guard) s es t ∨
      ∃ first e rest u, es = first ++ e :: rest ∧ Run (guarded step guard) s first u ∧
        ¬ guard u e := by
  induction es generalizing s with
  | nil => exact .inl run
  | cons e es ih =>
      obtain ⟨u, taken, rest⟩ := run
      by_cases met : guard s e
      · rcases ih rest with always | ⟨first, e', rest, v, rfl, before, missed⟩
        · exact .inl ⟨u, ⟨met, taken⟩, always⟩
        · exact .inr ⟨e :: first, e', _, v, rfl, ⟨u, ⟨met, taken⟩, before⟩, missed⟩
      · exact .inr ⟨[], e, es, s, rfl, rfl, met⟩

/-- Where an invariant turns one guard into another, a run guarded by the first is guarded by
the second. -/
theorem Run.guarded_mono {guard guard' : σ → ε → Prop} (inv : σ → Prop)
    (kept : ∀ ⦃s e t⦄, inv s → guard s e → step s e t → inv t)
    (weaker : ∀ ⦃s e⦄, inv s → guard s e → guard' s e) {s t : σ} {es : List ε}
    (run : Run (guarded step guard) s es t) (start : inv s) :
    Run (guarded step guard') s es t := by
  induction es generalizing s with
  | nil => exact run
  | cons e es ih =>
      obtain ⟨u, ⟨met, taken⟩, rest⟩ := run
      exact ⟨u, ⟨weaker start met, taken⟩, ih rest (kept start met taken)⟩

theorem Deterministic.guarded (determined : Deterministic step) (guard : σ → ε → Prop) :
    Deterministic (guarded step guard) :=
  fun _ _ _ _ first second => determined first.2 second.2

theorem Run.unique (determined : Deterministic step) {s t u : σ}
    {es : List ε} (first : Run step s es t) (second : Run step s es u) : t = u := by
  induction es generalizing s with
  | nil => exact first.symm.trans second
  | cons e es ih =>
      obtain ⟨v, taken, rest⟩ := first
      obtain ⟨w, taken', rest'⟩ := second
      obtain rfl := determined taken taken'
      exact ih rest rest'

theorem throughout_cons (determined : Deterministic step)
    {good : σ → Prop} {s u : σ} {e : ε} {es : List ε} (taken : step s e u) :
    Throughout step good s (e :: es) ↔ good s ∧ Throughout step good u es := by
  constructor
  · intro always
    refine ⟨always [] s (List.nil_prefix) rfl, ?_⟩
    intro done v before run
    exact always (e :: done) v (List.cons_prefix_cons.mpr ⟨rfl, before⟩) ⟨u, taken, run⟩
  · rintro ⟨here, later⟩ done v before run
    cases done with
    | nil => exact run ▸ here
    | cons e' done =>
        obtain ⟨rfl, within⟩ := List.cons_prefix_cons.mp before
        obtain ⟨w, taken', run⟩ := run
        obtain rfl := determined taken taken'
        exact later done v within run

/-- **A guard is exact for a property.** From a state of the invariant, a step that meets the
guard keeps the invariant and a step that misses it breaks the property. Then the steps of a
run all meet the guard exactly when the property holds in every state reached. -/
theorem Run.guarded_iff_throughout
    (determined : Deterministic step)
    {guard : σ → ε → Prop} {inv good : σ → Prop} (good_of_inv : ∀ ⦃s⦄, inv s → good s)
    (kept : ∀ ⦃s e t⦄, inv s → guard s e → step s e t → inv t)
    (broken : ∀ ⦃s e t⦄, inv s → ¬ guard s e → step s e t → ¬ good t)
    {s t : σ} {es : List ε} (run : Run step s es t) (start : inv s) :
    Run (guarded step guard) s es t ↔ Throughout step good s es := by
  induction es generalizing s with
  | nil =>
      constructor
      · intro _ taken u before run'
        obtain rfl := List.prefix_nil.mp before
        exact run' ▸ good_of_inv start
      · intro _
        exact run
  | cons e es ih =>
      obtain ⟨u, taken, rest⟩ := run
      rw [throughout_cons determined taken]
      constructor
      · rintro ⟨v, ⟨met, taken'⟩, rest'⟩
        obtain rfl := determined taken taken'
        exact ⟨good_of_inv start, (ih rest (kept start met taken)).mp rest'⟩
      · rintro ⟨_, later⟩
        by_cases met : guard s e
        · exact ⟨u, ⟨met, taken⟩, (ih rest (kept start met taken)).mpr later⟩
        · exact absurd (later [] u List.nil_prefix rfl) (broken start met taken)

/-- **A property that a run cannot leave without breaking another.** If the last state does not
have it and the other holds throughout, no state of the run has it. -/
theorem Throughout.never (determined : Deterministic step) {good stuck : σ → Prop}
    (stays : ∀ ⦃s e t⦄, stuck s → step s e t → stuck t ∨ ¬ good t) {s t : σ} {es : List ε}
    (run : Run step s es t) (ends : ¬ stuck t) (always : Throughout step good s es) :
    Throughout step (fun u => ¬ stuck u) s es := by
  induction es generalizing s with
  | nil =>
      intro taken u before run'
      obtain rfl := List.prefix_nil.mp before
      obtain rfl : s = t := run
      exact run' ▸ ends
  | cons e es ih =>
      obtain ⟨u, taken, rest⟩ := run
      obtain ⟨-, later⟩ := (throughout_cons determined taken).mp always
      have never := ih rest later
      refine (throughout_cons determined taken).mpr ⟨?_, never⟩
      intro here
      rcases stays here taken with still | broken
      · exact never [] u List.nil_prefix rfl still
      · exact broken (later [] u List.nil_prefix rfl)

end EventRuns
