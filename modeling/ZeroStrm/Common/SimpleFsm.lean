import Mathlib.Order.Basic

/-!
# Switch-based state machines

The macros of `simple_fsm.h` make a machine out of a `switch` over the state variable
`chState` that is kept between calls. A call enters the switch at the saved state. The code of
a state ends in one of three ways: `update_state_to` saves another state and jumps to its
code, `fsm_cpl` saves state `0` and returns `fsm_rt_cpl`, and a `break` leaves the saved state
as it is and returns `fsm_rt_on_going`. A saved state without a `case` returns `fsm_rt_err`.

A machine is modelled by what the code of its current state does (`Fsm`). `call` runs a whole
call, state after state, within a budget of states, and `visited` lists the machine as it was
on entry to each state that ran. A call that returns within a budget returns the same within
every larger one (`call_mono`).
-/

set_option autoImplicit false

namespace ZeroStrm

variable {σ : Type*}

/-- `fsm_rt_t`, the values the machines of this program return. -/
inductive FsmRt where
  | err
  | cpl
  | onGoing
  deriving DecidableEq, Repr

/-- How the code of a state ends. -/
inductive Ctl where
  /-- `update_state_to`: the code of another state follows. -/
  | goto
  /-- The call returns. -/
  | ret (rt : FsmRt)
  deriving DecidableEq, Repr

/-- What the code of the current state of a machine does. The machine's saved `chState` is a
part of `σ`. -/
abbrev Fsm (σ : Type*) := σ → σ × Ctl

/-- A call of a machine, within a budget of states. The result is `none` when the budget ends
before the call returns. -/
def call (fsm : Fsm σ) : ℕ → σ → σ × Option FsmRt
  | 0, s => (s, none)
  | budget + 1, s =>
    match fsm s with
    | (t, .goto) => call fsm budget t
    | (t, .ret rt) => (t, some rt)

/-- The machine on entry to each of the states that a call runs. -/
def visited (fsm : Fsm σ) : ℕ → σ → List σ
  | 0, _ => []
  | budget + 1, s =>
    s :: match fsm s with
      | (t, .goto) => visited fsm budget t
      | (_, .ret _) => []

variable {fsm : Fsm σ} {s t : σ} {rt : FsmRt} {budget more : ℕ}

theorem call_goto (code : fsm s = (t, .goto)) : call fsm (budget + 1) s = call fsm budget t := by
  simp only [call, code]

theorem call_ret (code : fsm s = (t, .ret rt)) : call fsm (budget + 1) s = (t, some rt) := by
  simp only [call, code]

theorem visited_goto (code : fsm s = (t, .goto)) :
    visited fsm (budget + 1) s = s :: visited fsm budget t := by
  simp only [visited, code]

theorem visited_ret (code : fsm s = (t, .ret rt)) : visited fsm (budget + 1) s = [s] := by
  simp only [visited, code]

theorem visited_one : visited fsm 1 s = [s] := by
  simp only [visited]
  split <;> rfl

/-- **A larger budget does not change a call that returns.** -/
theorem call_mono (bound : budget ≤ more) (returned : call fsm budget s = (t, some rt)) :
    call fsm more s = (t, some rt) := by
  induction budget generalizing s more with
  | zero => cases returned
  | succ budget ih =>
      obtain ⟨more, rfl⟩ := Nat.exists_eq_add_of_lt bound
      rw [show budget + more + 1 = (budget + more) + 1 from rfl]
      match code : fsm s with
      | (u, .goto) =>
          rw [call_goto code] at returned ⊢
          exact ih (Nat.le_add_right ..) returned
      | (u, .ret rt') =>
          rw [call_ret code] at returned ⊢
          exact returned

end ZeroStrm
