import ZeroStrm.Library.Runs
import Mathlib.Data.List.Infix

/-!
# Lossless channels

What a buffer between a sender and a receiver is for: the values that went in come out in the
same order, none lost and none twice. A `Channel` has the values sent, those in transit and
those received. A move puts a value in at the back or takes values out at the front.

A channel is lossless when the sent values are the received ones followed by those in transit.
Every move keeps that (`Move.lossless`), so a system whose steps are moves of the channel it
shows is lossless in every state it reaches (`Refines.lossless`).
-/

set_option autoImplicit false

namespace FifoChannel

open EventRuns

variable {α : Type*}

/-- Values on their way from a sender to a receiver. -/
structure Channel (α : Type*) where
  sent : List α
  inTransit : List α
  received : List α

/-- A step of a channel. -/
inductive Move (c : Channel α) : Channel α → Prop where
  | rest : Move c c
  | put (a : α) : Move c { c with sent := c.sent ++ [a], inTransit := c.inTransit ++ [a] }
  | take {front back : List α} (first : c.inTransit = front ++ back) :
      Move c { c with inTransit := back, received := c.received ++ front }

/-- Nothing is lost, doubled or reordered. -/
def Channel.Lossless (c : Channel α) : Prop := c.sent = c.received ++ c.inTransit

variable {c c' : Channel α}

/-- **Every move keeps a channel lossless.** -/
theorem Move.lossless (move : Move c c') (lossless : c.Lossless) : c'.Lossless := by
  unfold Channel.Lossless at lossless ⊢
  cases move with
  | rest => exact lossless
  | put a => rw [lossless, List.append_assoc]
  | take first => rw [lossless, first, List.append_assoc]

namespace Channel.Lossless

/-- What was received is the beginning of what was sent. -/
theorem received_prefix (lossless : c.Lossless) : c.received <+: c.sent :=
  ⟨c.inTransit, lossless.symm⟩

theorem next {a : α} {back : List α} (lossless : c.Lossless)
    (first : c.inTransit = a :: back) : c.sent[c.received.length]? = some a := by
  unfold Channel.Lossless at lossless
  rw [lossless, first, List.getElem?_append_right le_rfl, Nat.sub_self]
  rfl

end Channel.Lossless

/-- Two channels in a row, and what has left the first and not gone into the second. -/
def Channel.series (first : Channel α) (between : List α) (second : Channel α) : Channel α where
  sent := first.sent
  inTransit := second.inTransit ++ (between ++ first.inTransit)
  received := second.received

/-- **Lossless channels in a row are a lossless channel.** -/
theorem Channel.Lossless.series {first second : Channel α} {between : List α}
    (before : first.Lossless) (after : second.Lossless)
    (joined : first.received = second.sent ++ between) :
    (first.series between second).Lossless := by
  unfold Channel.Lossless at before after ⊢
  calc first.sent = first.received ++ first.inTransit := before
    _ = second.received ++ second.inTransit ++ between ++ first.inTransit := by
        rw [joined, after]
    _ = second.received ++ (second.inTransit ++ (between ++ first.inTransit)) := by
        simp only [List.append_assoc]

/-! ## Systems that are channels -/

variable {σ ε : Type*} {step : StepRel σ ε} {view : σ → Channel α → Prop}

/-- Every step of a system that shows a lossless channel is a move of that channel. -/
def Refines (step : StepRel σ ε) (view : σ → Channel α → Prop) : Prop :=
  ∀ ⦃s e t c⦄, view s c → c.Lossless → step s e t → ∃ c', Move c c' ∧ view t c'

/-- A step keeps the shown channel lossless. -/
theorem Refines.kept (refines : Refines step view) {s t : σ} {e : ε} (taken : step s e t)
    (shows : ∃ c, view s c ∧ c.Lossless) : ∃ c, view t c ∧ c.Lossless := by
  obtain ⟨c, shown, lossless⟩ := shows
  obtain ⟨c', move, shown'⟩ := refines shown lossless taken
  exact ⟨c', shown', move.lossless lossless⟩

/-- **A system that refines a channel is lossless** in every state it reaches. -/
theorem Refines.lossless (refines : Refines step view) {s t : σ} {es : List ε}
    (run : Run step s es t) (shows : ∃ c, view s c ∧ c.Lossless) :
    ∃ c, view t c ∧ c.Lossless :=
  run.invariant _ (fun _ _ _ shows taken => refines.kept taken shows) shows

end FifoChannel
