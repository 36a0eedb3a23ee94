import Mathlib.Logic.Function.Iterate
import Mathlib.Order.Lattice

/-!
# One-shot countdowns

A countdown is started with a number of ticks and then ticked. It expires at one tick and stays
stopped until it is started again. A countdown that is started with `n` expires at the tick
number `n`, or at the first one if `n` is zero (`expires_iff`).
-/

set_option autoImplicit false

namespace Countdown

/-- A countdown: whether it runs, and the ticks that are left. -/
@[ext] structure Timer where
  running : Bool
  left : ℕ
  deriving DecidableEq, Repr

/-- A countdown that has just been started. -/
def Timer.start (n : ℕ) : Timer := ⟨true, n⟩

/-- The next tick is the one at which the countdown expires. -/
def Timer.Expires (t : Timer) : Prop := t.running = true ∧ t.left ≤ 1

/-- A tick. A stopped countdown ignores it. -/
def Timer.tick (t : Timer) : Timer :=
  if t.running then ⟨1 < t.left, t.left - 1⟩ else t

/-- A countdown after some ticks. -/
def Timer.after (n ticks : ℕ) : Timer := Timer.tick^[ticks] (Timer.start n)

@[simp] theorem after_zero (n : ℕ) : Timer.after n 0 = Timer.start n := rfl

theorem after_succ (n ticks : ℕ) : Timer.after n (ticks + 1) = (Timer.after n ticks).tick :=
  Function.iterate_succ_apply' ..

/-- **What a countdown is after any number of ticks.** -/
theorem after_eq (n ticks : ℕ) : Timer.after n ticks = ⟨ticks < max 1 n, n - ticks⟩ := by
  induction ticks with
  | zero => simp [Timer.start]
  | succ ticks ih =>
      rw [after_succ, ih, Timer.tick]
      by_cases running : ticks < max 1 n
      · simp only [running, decide_true, if_true]
        ext
        · simp
          omega
        · exact Nat.sub_sub ..
      · have stopped : ¬ ticks + 1 < max 1 n := by omega
        simp only [running, stopped, decide_false, Bool.false_eq_true, if_false]
        ext
        · rfl
        · simp
          omega

/-- **A countdown expires once**, and its start says at which tick. -/
theorem expires_iff (n ticks : ℕ) : (Timer.after n ticks).Expires ↔ ticks + 1 = max 1 n := by
  rw [Timer.Expires, after_eq]
  simp only [decide_eq_true_eq]
  omega

end Countdown
