import ZeroStrm.Library.Runs

/-!
# Programs that are interrupted between two memory accesses

A function on shared memory is a routine: at each of its points it makes one access and goes on
at another point, returns, or faults. A program calls routines, and handlers run between any two
accesses (`Program.Fine`). Seen coarsely, a handler runs before or after a call, but never inside
of one (`Program.whole`).

The two views agree when every handler that interrupts a call can be moved out of it. Up to some
point of the routine the handler can be moved in front of the call, and from there on, where the
routine is committed, behind it (`Movers`). Then a run with interrupted calls leads where a run of
whole calls leads, with the same handlers in the same order (`Movers.reduced`).

Which handlers can be moved is a matter of a guard. `Movers.exact` says when a guard is exact: if
every handler that it forbids leaves a state from which the call, run to its end, breaks a
property, then a run meets the guard throughout exactly when the property holds throughout.
-/

set_option autoImplicit false

namespace Interruption

open EventRuns

variable {π π' σ τ ρ ε : Type*}

/-! ## Routines -/

/-- How an access ends. -/
inductive Outcome (π ρ : Type*) where
  | goesOn (point : π)
  | returns (value : ρ)
  | faults

/-- A function by its accesses: at a point, in a state, one access. -/
abbrev Routine (π σ ρ : Type*) := π → σ → Outcome π ρ × σ

namespace Routine

variable (routine : Routine π σ ρ)

/-- The function from a point on, without interruption and within a number of accesses. -/
def alone : ℕ → π → σ → Option (ρ × σ)
  | 0, _, _ => none
  | accesses + 1, point, s =>
    match routine point s with
    | (.goesOn next, t) => alone accesses next t
    | (.returns value, t) => some (value, t)
    | (.faults, _) => none

/-- The points and states that a call comes through without interruption. -/
inductive Reached (first : π) (s : σ) : π → σ → Prop where
  | start : Reached first s first s
  | access {point next : π} {t u : σ} (before : Reached first s point t)
      (code : routine point t = (.goesOn next, u)) : Reached first s next u

variable {routine} {first point next : π} {s t u : σ} {value : ρ} {accesses : ℕ}
  {result : ρ × σ}

theorem alone_goesOn (code : routine point s = (.goesOn next, t)) :
    routine.alone (accesses + 1) point s = routine.alone accesses next t := by
  simp only [alone, code]

theorem alone_returns (code : routine point s = (.returns value, t)) :
    routine.alone (accesses + 1) point s = some (value, t) := by
  simp only [alone, code]

theorem alone_mono {more : ℕ} (bound : accesses ≤ more)
    (returned : routine.alone accesses point s = some result) :
    routine.alone more point s = some result := by
  induction accesses generalizing point s more with
  | zero => cases returned
  | succ accesses ih =>
      obtain ⟨more, rfl⟩ : ∃ k, more = k + 1 := ⟨more - 1, by omega⟩
      have bound' : accesses ≤ more := Nat.le_of_succ_le_succ bound
      match code : routine point s with
      | (.goesOn next, t) =>
          rw [alone_goesOn code] at returned ⊢
          exact ih bound' returned
      | (.returns value, t) =>
          rw [alone_returns code] at returned ⊢
          exact returned
      | (.faults, t) =>
          simp only [alone, code] at returned
          cases returned

theorem alone_next (code : routine point s = (.goesOn next, t))
    (returned : routine.alone accesses point s = some result) :
    routine.alone accesses next t = some result := by
  cases accesses with
  | zero => cases returned
  | succ accesses =>
      rw [alone_goesOn code] at returned
      exact alone_mono (Nat.le_succ _) returned

theorem alone_last (code : routine point s = (.returns value, t))
    (returned : routine.alone accesses point s = some result) : result = (value, t) := by
  cases accesses with
  | zero => cases returned
  | succ accesses =>
      rw [alone_returns code] at returned
      exact (Option.some.inj returned).symm

/-- A call that returns has its result from every point it comes through. -/
theorem Reached.alone (reached : routine.Reached first s point t)
    (returned : routine.alone accesses first s = some result) :
    routine.alone accesses point t = some result := by
  induction reached with
  | start => exact returned
  | access _ code ih => exact alone_next code ih

end Routine

/-! ## Routines on a part of the state -/

/-- A part of the state that can be read and replaced. -/
structure Part (τ σ : Type*) where
  get : τ → σ
  set : σ → τ → τ
  get_set : ∀ m s, get (set m s) = m
  set_get : ∀ s, set (get s) s = s
  set_set : ∀ m m' s, set m (set m' s) = set m s

/-- A call of a routine on a part of the state, with what follows its return. -/
def Routine.within (routine : Routine π σ ρ) (part : Part τ σ) (embed : π → π')
    (resume : ρ → τ → τ) (point : π) (s : τ) : Outcome π' Unit × τ :=
  match routine point (part.get s) with
  | (.goesOn next, m) => (.goesOn (embed next), part.set m s)
  | (.returns value, m) => (.returns (), resume value (part.set m s))
  | (.faults, m) => (.faults, part.set m s)

section Within

variable {routine : Routine π σ ρ} {part : Part τ σ} {embed : π → π'} {resume : ρ → τ → τ}
  {access : Routine π' τ Unit} {first : π} {s : τ}

/-- The accesses of the call are those of the routine. -/
theorem within_alone
    (called : ∀ point s, access (embed point) s = routine.within part embed resume point s)
    (accesses : ℕ) (point : π) (s : τ) :
    access.alone accesses (embed point) s =
      (routine.alone accesses point (part.get s)).map fun r =>
        ((), resume r.1 (part.set r.2 s)) := by
  induction accesses generalizing point s with
  | zero => rfl
  | succ accesses ih =>
      match code : routine point (part.get s) with
      | (.goesOn next, m) =>
          have outer : access (embed point) s = (.goesOn (embed next), part.set m s) := by
            simp only [called, Routine.within, code]
          rw [Routine.alone_goesOn outer, Routine.alone_goesOn code, ih, part.get_set]
          simp only [part.set_set]
      | (.returns value, m) =>
          have outer : access (embed point) s = (.returns (), resume value (part.set m s)) := by
            simp only [called, Routine.within, code]
          rw [Routine.alone_returns outer, Routine.alone_returns code]
          rfl
      | (.faults, m) =>
          have outer : access (embed point) s = (.faults, part.set m s) := by
            simp only [called, Routine.within, code]
          simp only [Routine.alone, outer, code, Option.map_none]

/-- The call comes through the points that the routine comes through. -/
theorem within_reached
    (called : ∀ point s, access (embed point) s = routine.within part embed resume point s)
    {point : π} {m : σ} (reached : routine.Reached first (part.get s) point m) :
    access.Reached (embed first) s (embed point) (part.set m s) := by
  induction reached with
  | start =>
      rw [part.set_get]
      exact .start
  | @access point next m m' _ code ih =>
      refine .access ih ?_
      simp only [called, Routine.within, part.get_set, code, part.set_set]

/-- The call comes through no other points. -/
theorem of_within_reached
    (called : ∀ point s, access (embed point) s = routine.within part embed resume point s)
    {point : π'} {t : τ} (reached : access.Reached (embed first) s point t) :
    ∃ inner m, point = embed inner ∧ t = part.set m s ∧
      routine.Reached first (part.get s) inner m := by
  induction reached with
  | start => exact ⟨first, part.get s, rfl, (part.set_get s).symm, .start⟩
  | @access _ next _ u _ code ih =>
      obtain ⟨inner, m, rfl, rfl, before⟩ := ih
      rw [called, Routine.within, part.get_set] at code
      match inside : routine inner m with
      | (.goesOn next', m') =>
          simp only [inside, part.set_set] at code
          cases code
          exact ⟨next', m', rfl, rfl, .access before inside⟩
      | (.returns value, m') =>
          simp only [inside] at code
          cases code
      | (.faults, m') =>
          simp only [inside] at code
          cases code

end Within

/-! ## Programs -/

/-- A program. Outside of a call it takes a step, possible in some states only, that may begin a
call. -/
structure Program (π σ : Type*) where
  next : σ → Option (σ × Option π)
  access : Routine π σ Unit
  /-- A bound on the accesses of a call. -/
  length : ℕ

/-- A state together with the point of the call that is under way. -/
structure Interrupted (π σ : Type*) where
  state : σ
  point : Option π

namespace Program

variable (P : Program π σ) (step : StepRel σ ε) (main : ε)

/-- The call that is under way, run to its end without interruption. -/
def settled (s : Interrupted π σ) : Option σ :=
  match s.point with
  | none => some s.state
  | some point => (P.access.alone P.length point s.state).map Prod.snd

/-- A step of the program with its call as a whole. -/
def whole (s : σ) : Option σ := (P.next s).bind fun r => P.settled ⟨r.1, r.2⟩

/-- One access of the program, or its next step outside of a call. -/
def advance (s : Interrupted π σ) : Option (Interrupted π σ) :=
  match s.point with
  | none => (P.next s.state).map fun r => ⟨r.1, r.2⟩
  | some point =>
    match P.access point s.state with
    | (.goesOn next, t) => some ⟨t, some next⟩
    | (.returns _, t) => some ⟨t, none⟩
    | (.faults, _) => none

/-- A number of accesses in a row. -/
def advances : ℕ → Interrupted π σ → Option (Interrupted π σ)
  | 0, s => some s
  | accesses + 1, s => (P.advance s).bind (advances accesses)

/-- The interrupted program: its own event is one access, and the other events are handlers, which
run as a whole between two accesses. -/
def Fine : StepRel (Interrupted π σ) ε := fun s e t =>
  e = main ∧ P.advance s = some t ∨ e ≠ main ∧ step s.state e t.state ∧ t.point = s.point

variable {P step main}

theorem fine_deterministic (determined : Deterministic step) :
    Deterministic (P.Fine step main) := by
  rintro s e ⟨t, p⟩ ⟨u, q⟩ (⟨isMain, code⟩ | ⟨notMain, taken, rfl⟩)
    (⟨isMain', code'⟩ | ⟨notMain', taken', rfl⟩)
  · exact Option.some.inj (code.symm.trans code')
  · exact absurd isMain notMain'
  · exact absurd isMain' notMain
  · obtain rfl : t = u := determined taken taken'
    rfl

/-- Accesses in a row are a run, under any guard that leaves them free. -/
theorem run_advances {guard : Interrupted π σ → ε → Prop} (free : ∀ s, guard s main)
    {accesses : ℕ} {s t : Interrupted π σ} (code : P.advances accesses s = some t) :
    Run (guarded (P.Fine step main) guard) s (List.replicate accesses main) t := by
  induction accesses generalizing s with
  | zero => exact Option.some.inj code
  | succ accesses ih =>
      obtain ⟨u, first, rest⟩ := Option.bind_eq_some_iff.mp code
      exact ⟨u, ⟨free s, .inl ⟨rfl, first⟩⟩, ih rest⟩

/-- How an interrupted state stands to the state of the coarse view. A call that is not committed
has not happened there, and a committed one is over. -/
inductive Stands (P : Program π σ) (committed : π → Prop) (c : σ) :
    Interrupted π σ → Prop where
  | rest : Stands P committed c ⟨c, none⟩
  | before {s₀ s : σ} {first point : π} (enters : P.next c = some (s₀, some first))
      (reached : P.access.Reached first s₀ point s) (uncommitted : ¬ committed point) :
      Stands P committed c ⟨s, some point⟩
  | after {s : σ} {point : π} (ends : P.access.alone P.length point s = some ((), c))
      (closed : committed point) : Stands P committed c ⟨s, some point⟩

end Program

/-! ## Handlers that can be moved out of a call -/

/-- The conditions under which interrupted calls can be seen as whole ones: a whole step of the
program is a step of the coarse view and does not fault, the invariant of the coarse view is kept,
and every handler the guard allows can be moved in front of an open call and behind a committed
one. -/
structure Movers (P : Program π σ) (step : StepRel σ ε) (main : ε) (inv : σ → Prop)
    (committed : π → Prop) (guard : Interrupted π σ → ε → Prop) : Prop where
  steps : ∀ ⦃c c'⦄, inv c → P.whole c = some c' → step c main c'
  ends : ∀ ⦃c⦄, inv c → (P.next c).isSome → (P.whole c).isSome
  kept : ∀ ⦃c e c'⦄, inv c → step c e c' → inv c'
  stays : ∀ ⦃point s next t⦄, committed point → P.access point s = (.goesOn next, t) →
    committed next
  left : ∀ ⦃c s₀ s s' first point e⦄, inv c → P.next c = some (s₀, some first) →
    P.access.Reached first s₀ point s → ¬ committed point → guard ⟨s, some point⟩ e →
    e ≠ main → step s e s' → ∃ c' s₀', step c e c' ∧ P.next c' = some (s₀', some first) ∧
      P.access.Reached first s₀' point s'
  right : ∀ ⦃c s s' point e⦄, inv c → P.access.alone P.length point s = some ((), c) →
    committed point → guard ⟨s, some point⟩ e → e ≠ main → step s e s' →
    ∃ c', step c e c' ∧ P.access.alone P.length point s' = some ((), c')

namespace Movers

variable {P : Program π σ} {step : StepRel σ ε} {main : ε} {inv : σ → Prop}
  {committed : π → Prop} {guard : Interrupted π σ → ε → Prop}

/-- The result of a call is that of the rest of it. -/
theorem whole_of_reached {c s₀ s : σ} {first point : π}
    (enters : P.next c = some (s₀, some first)) (reached : P.access.Reached first s₀ point s)
    (ends : (P.whole c).isSome) :
    ∃ c', P.whole c = some c' ∧ P.access.alone P.length point s = some ((), c') := by
  simp only [Program.whole, enters, Option.bind_some, Program.settled] at ends ⊢
  cases result : P.access.alone P.length first s₀ with
  | none =>
      rw [result] at ends
      cases ends
  | some r => exact ⟨r.2, rfl, reached.alone result⟩

/-- **An access of the program** leaves the coarse view where it is, or is its whole step. -/
theorem advance (movers : Movers P step main inv committed guard) {c : σ}
    {s t : Interrupted π σ} (holds : inv c) (stands : P.Stands committed c s)
    (code : P.advance s = some t) :
    P.Stands committed c t ∨ ∃ c', step c main c' ∧ P.Stands committed c' t := by
  cases stands with
  | rest =>
      simp only [Program.advance] at code
      obtain ⟨⟨s₀, point⟩, enters, rfl⟩ := Option.map_eq_some_iff.mp code
      cases point with
      | none =>
          refine .inr ⟨s₀, movers.steps holds ?_, .rest⟩
          simp only [Program.whole, enters, Option.bind_some, Program.settled]
      | some first =>
          by_cases closed : committed first
          · have ends := movers.ends holds (by rw [enters]; rfl)
            obtain ⟨c', whole, rest⟩ := whole_of_reached enters .start ends
            exact .inr ⟨c', movers.steps holds whole, .after rest closed⟩
          · exact .inl (.before enters .start closed)
  | @before s₀ s first point enters reached uncommitted =>
      have ends := movers.ends holds (by rw [enters]; rfl)
      obtain ⟨c', whole, rest⟩ := whole_of_reached enters reached ends
      simp only [Program.advance] at code
      match access : P.access point s with
      | (.goesOn next, u) =>
          simp only [access] at code
          obtain rfl := Option.some.inj code
          by_cases closed : committed next
          · exact .inr ⟨c', movers.steps holds whole,
              .after (Routine.alone_next access rest) closed⟩
          · exact .inl (.before enters (.access reached access) closed)
      | (.returns value, u) =>
          simp only [access] at code
          obtain rfl := Option.some.inj code
          obtain ⟨-, rfl⟩ := Prod.mk.inj (Routine.alone_last access rest)
          exact .inr ⟨c', movers.steps holds whole, .rest⟩
      | (.faults, u) =>
          simp only [access] at code
          cases code
  | @after s point ends closed =>
      simp only [Program.advance] at code
      match access : P.access point s with
      | (.goesOn next, u) =>
          simp only [access] at code
          obtain rfl := Option.some.inj code
          exact .inl (.after (Routine.alone_next access ends) (movers.stays closed access))
      | (.returns value, u) =>
          simp only [access] at code
          obtain rfl := Option.some.inj code
          obtain ⟨-, rfl⟩ := Prod.mk.inj (Routine.alone_last access ends)
          exact .inl .rest
      | (.faults, u) =>
          simp only [access] at code
          cases code

/-- **A handler the guard allows** is a step of the coarse view. -/
theorem handler (movers : Movers P step main inv committed guard) {c : σ}
    {s t : Interrupted π σ} {e : ε} (holds : inv c) (stands : P.Stands committed c s)
    (met : guard s e) (notMain : e ≠ main) (taken : step s.state e t.state)
    (same : t.point = s.point) : ∃ c', step c e c' ∧ P.Stands committed c' t := by
  obtain ⟨t, point'⟩ := t
  cases stands with
  | rest =>
      cases same
      exact ⟨t, taken, .rest⟩
  | before enters reached uncommitted =>
      cases same
      obtain ⟨c', s₀', moved, enters', reached'⟩ :=
        movers.left holds enters reached uncommitted met notMain taken
      exact ⟨c', moved, .before enters' reached' uncommitted⟩
  | after ends closed =>
      cases same
      obtain ⟨c', moved, ends'⟩ := movers.right holds ends closed met notMain taken
      exact ⟨c', moved, .after ends' closed⟩

/-- **Interrupted calls can be seen as whole ones.** A run of accesses that meets the guard leads
where a run of whole steps leads, with the same handlers in the same order. -/
theorem reduced (movers : Movers P step main inv committed guard) {handler : ε → Bool}
    (own : ∀ e, handler e = false ↔ e = main) {c : σ} {s t : Interrupted π σ} {es : List ε}
    (holds : inv c) (stands : P.Stands committed c s)
    (run : Run (guarded (P.Fine step main) guard) s es t) :
    ∃ ds c', Run step c ds c' ∧ inv c' ∧ P.Stands committed c' t ∧
      ds.filter handler = es.filter handler := by
  induction es generalizing c s with
  | nil =>
      obtain rfl : s = t := run
      exact ⟨[], c, rfl, holds, stands, rfl⟩
  | cons e es ih =>
      obtain ⟨u, ⟨met, taken⟩, rest⟩ := run
      rcases taken with ⟨rfl, code⟩ | ⟨notMain, taken, same⟩
      · have notHandler : ¬ handler e = true := by rw [(own e).mpr rfl]; decide
        rcases movers.advance holds stands code with still | ⟨c', moved, stands'⟩
        · obtain ⟨ds, c', run', holds', stands', order⟩ := ih holds still rest
          refine ⟨ds, c', run', holds', stands', ?_⟩
          rw [order, List.filter_cons_of_neg notHandler]
        · obtain ⟨ds, c'', run', holds', stands'', order⟩ :=
            ih (movers.kept holds moved) stands' rest
          refine ⟨e :: ds, c'', ⟨c', moved, run'⟩, holds', stands'', ?_⟩
          rw [List.filter_cons_of_neg notHandler, order, List.filter_cons_of_neg notHandler]
      · obtain ⟨c', moved, stands'⟩ := movers.handler holds stands met notMain taken same
        obtain ⟨ds, c'', run', holds', stands'', order⟩ :=
          ih (movers.kept holds moved) stands' rest
        refine ⟨e :: ds, c'', ⟨c', moved, run'⟩, holds', stands'', ?_⟩
        rw [List.filter_cons, List.filter_cons, order]

/-- The call under way, run to its end, leaves a state of the invariant. -/
theorem settled (movers : Movers P step main inv committed guard) {c : σ}
    {s : Interrupted π σ} (holds : inv c) (stands : P.Stands committed c s) :
    ∃ u, P.settled s = some u ∧ inv u := by
  cases stands with
  | rest => exact ⟨c, rfl, holds⟩
  | before enters reached uncommitted =>
      have ends := movers.ends holds (by rw [enters]; rfl)
      obtain ⟨c', whole, rest⟩ := whole_of_reached enters reached ends
      refine ⟨c', ?_, movers.kept holds (movers.steps holds whole)⟩
      simp only [Program.settled, rest, Option.map_some]
  | after ends closed =>
      refine ⟨c, ?_, holds⟩
      simp only [Program.settled, ends, Option.map_some]

/-- **A guard is exact for a property.** If every handler that the guard forbids leaves a state in
which the call under way, run to its end, faults or breaks the property, then a run meets the
guard throughout exactly when no state of it does so. -/
theorem exact (movers : Movers P step main inv committed guard)
    (determined : Deterministic step) {good : σ → Prop} (good_of_inv : ∀ ⦃c⦄, inv c → good c)
    (broken : ∀ ⦃c s t e⦄, inv c → P.Stands committed c s → ¬ guard s e →
      P.Fine step main s e t → ¬ ∃ u, P.settled t = some u ∧ good u)
    {c : σ} {t : Interrupted π σ} {es : List ε} (holds : inv c)
    (run : Run (P.Fine step main) ⟨c, none⟩ es t) :
    Run (guarded (P.Fine step main) guard) ⟨c, none⟩ es t ↔
      Throughout (P.Fine step main) (fun s => ∃ u, P.settled s = some u ∧ good u)
        ⟨c, none⟩ es := by
  have start : ∃ c', inv c' ∧ P.Stands committed c' ⟨c, none⟩ := ⟨c, holds, .rest⟩
  refine @Run.guarded_iff_throughout _ _ _ (Program.fine_deterministic determined) guard
    (fun s => ∃ c, inv c ∧ P.Stands committed c s) _ ?_ ?_ ?_ _ _ _ run start
  · rintro s ⟨c, holds, stands⟩
    obtain ⟨u, ends, holds'⟩ := movers.settled holds stands
    exact ⟨u, ends, good_of_inv holds'⟩
  · rintro s e u ⟨c, holds, stands⟩ met (⟨rfl, code⟩ | ⟨notMain, taken, same⟩)
    · rcases movers.advance holds stands code with still | ⟨c', moved, stands'⟩
      · exact ⟨c, holds, still⟩
      · exact ⟨c', movers.kept holds moved, stands'⟩
    · obtain ⟨c', moved, stands'⟩ := movers.handler holds stands met notMain taken same
      exact ⟨c', movers.kept holds moved, stands'⟩
  · rintro s e u ⟨c, holds, stands⟩ missed taken
    exact broken holds stands missed taken

end Movers

end Interruption
