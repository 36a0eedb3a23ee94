import ZeroStrm.Read.Channel
import ZeroStrm.Read.Init

/-!
# Handlers that preempt each other

The DMA-half handler and the timer handler run state by state here, and one may preempt the
other between any two states. Interrupts nest: the innermost handler runs to its end before the
one below goes on. `Preempted` is the stream with the stack of active handlers.

A flush is in its section from its entry to `GET_BLOCK` until it completes, and it holds `bBusy`
from its test, when that finds `bBusy` clear and sets it (`Locked`). The timer's flush enters its
section without the test, so it never holds `bBusy`, and the DMA-half handler clears `bBusy`
before its own. Nothing but the order of the interrupts keeps the two apart. `flushSections_iff`
gives the exact conditions on the steps of a run: for a flush in its section to be the holder of
`bBusy` (`FindsNoTimeOut`), and for a single flush in its section (`NoOverlap`).
-/

set_option autoImplicit false

namespace ZeroStrm

open EventRuns

variable {β D ι : Type}

/-! ## The system -/

/-- What an active handler runs. -/
inductive Irq where
  /-- The flush of the DMA-half handler. -/
  | dmaHalf
  /-- The states of `time_out` before `FLUSH`. -/
  | timeOut
  /-- The flush that `time_out` calls in `FLUSH`. -/
  | timeOutFlush
  deriving DecidableEq, Repr

/-- The stream, with the active handlers from the innermost one on. -/
structure Preempted (β D : Type) where
  strm : StreamRead β D
  irq : List Irq

inductive PreemptEvent (ι : Type) where
  /-- The channel acts. -/
  | arrive (i : ι)
  /-- A UART-idle interrupt, which nothing preempts. -/
  | uartIdle
  /-- One state of a `zero_strm_read` call, when no handler is active. -/
  | read
  /-- A DMA-half interrupt: the handler clears two flags before its flush. -/
  | dmaHalf
  /-- A timer interrupt. -/
  | tick
  /-- One state of the innermost handler. -/
  | step
  deriving DecidableEq, Repr

/-- One state of the DMA-half handler's flush, over the handlers below it. -/
def stepDmaHalf (io : DmaRxIO β D) (strm : StreamRead β D) (rest : List Irq) : Preempted β D :=
  let flush := streamReadFlushState io (strm.fsmFlushHt, strm)
  { strm := { flush.1.2 with fsmFlushHt := flush.1.1 }
    irq := if flush.2 = .goto then .dmaHalf :: rest else rest }

/-- One state of `time_out` before `FLUSH`. The code of `FLUSH` begins with the call of the
flush. -/
def stepTimeOut (io : DmaRxIO β D) (strm : StreamRead β D) (rest : List Irq) : Preempted β D :=
  let after := timeOutState io strm
  { strm := after.1
    irq :=
      if after.2 = .goto then
        if after.1.fsmTimeOut.chState = TimeOut.flush then .timeOutFlush :: rest
        else .timeOut :: rest
      else rest }

/-- One state of the flush that `time_out` calls, with the end of `FLUSH` after its last. -/
def stepTimeOutFlush (io : DmaRxIO β D) (strm : StreamRead β D) (rest : List Irq) :
    Preempted β D :=
  let flush := streamReadFlushState io (strm.fsmTimeOut, strm)
  let after := { flush.1.2 with fsmTimeOut := flush.1.1 }
  match flush.2 with
  | .goto => { strm := after, irq := .timeOutFlush :: rest }
  | .ret .cpl =>
    { strm := { after with fsmTimeOut := { after.fsmTimeOut with chState := TimeOut.start } }
      irq := rest }
  | .ret _ => { strm := after, irq := rest }

/-- What an event does. A handler that is active is not entered again. -/
def preemptStep (hw : RxHardware β D ι) (s : Preempted β D) :
    PreemptEvent ι → Option (Preempted β D)
  | .arrive i =>
    let arrived := hw.arrive i s.strm.tMemBlockFifo s.strm.dma
    some { s with strm := { s.strm with tMemBlockFifo := arrived.1, dma := arrived.2 } }
  | .uartIdle =>
    some { s with strm := zeroStrmUartIdleInsertToUartIrqEventHandler hw.toDmaRxIO s.strm }
  | .read => if s.irq = [] then some { s with strm := (dequeueState (s.strm, none)).1.1 } else none
  | .dmaHalf =>
    if .dmaHalf ∈ s.irq then none
    else some { strm := setUartBusy (setDmaIdle s.strm), irq := .dmaHalf :: s.irq }
  | .tick =>
    if .timeOut ∈ s.irq ∨ .timeOutFlush ∈ s.irq then none
    else some { s with irq := .timeOut :: s.irq }
  | .step =>
    match s.irq with
    | [] => none
    | .dmaHalf :: rest => some (stepDmaHalf hw.toDmaRxIO s.strm rest)
    | .timeOut :: rest => some (stepTimeOut hw.toDmaRxIO s.strm rest)
    | .timeOutFlush :: rest => some (stepTimeOutFlush hw.toDmaRxIO s.strm rest)

/-- The step relation of the preempted receiver. -/
def PreemptStep (hw : RxHardware β D ι) : StepRel (Preempted β D) (PreemptEvent ι) :=
  fun s e t => preemptStep hw s e = some t

theorem preemptStep_deterministic (hw : RxHardware β D ι) : Deterministic (PreemptStep hw) :=
  fun _ _ _ _ first second => Option.some.inj (first.symm.trans second)

/-! ## Sections -/

/-- A flush between its entry to `GET_BLOCK` and its completion. -/
def InSection (this : FsmStreamReadFlush) : Prop :=
  this.chState = StreamReadFlush.getBlock ∨ this.chState = StreamReadFlush.getDataCnt

/-- The flush of the DMA-half handler is in its section. -/
def DmaHalfIn (s : Preempted β D) : Prop := .dmaHalf ∈ s.irq ∧ InSection s.strm.fsmFlushHt

/-- The flush of the timer handler is in its section. -/
def TimeOutIn (s : Preempted β D) : Prop := .timeOutFlush ∈ s.irq ∧ InSection s.strm.fsmTimeOut

/-- At most one flush is in its section. -/
def Exclusive (s : Preempted β D) : Prop := ¬ (DmaHalfIn s ∧ TimeOutIn s)

/-- The innermost handler is about to find that a timeout is real. -/
def FindsTimeOut (io : DmaRxIO β D) (s : Preempted β D) : Prop :=
  s.irq.head? = some .timeOut ∧ s.strm.fsmTimeOut.chState = TimeOut.isReallyTimeOut ∧
    (isReallyTimeOut io s.strm).1 = true

/-- No DMA-half interrupt preempts the timer's flush in its section, and no timeout is found
while the DMA-half handler's flush is in its own. -/
def NoOverlap (hw : RxHardware β D ι) (s : Preempted β D) : PreemptEvent ι → Prop
  | .dmaHalf => ¬ TimeOutIn s
  | .step => FindsTimeOut hw.toDmaRxIO s → ¬ DmaHalfIn s
  | _ => True

/-- No timeout is found, so `time_out` does not enter `FLUSH`. -/
def FindsNoTimeOut (hw : RxHardware β D ι) (s : Preempted β D) (e : PreemptEvent ι) : Prop :=
  e = .step → ¬ FindsTimeOut hw.toDmaRxIO s

instance (s : Preempted β D) : Decidable (DmaHalfIn s) := by
  unfold DmaHalfIn InSection
  infer_instance

instance (s : Preempted β D) : Decidable (TimeOutIn s) := by
  unfold TimeOutIn InSection
  infer_instance

instance (io : DmaRxIO β D) (s : Preempted β D) : Decidable (FindsTimeOut io s) := by
  unfold FindsTimeOut
  infer_instance

instance (hw : RxHardware β D ι) (s : Preempted β D) (e : PreemptEvent ι) :
    Decidable (NoOverlap hw s e) := by
  unfold NoOverlap
  split <;> infer_instance

instance [DecidableEq ι] (hw : RxHardware β D ι) (s : Preempted β D) (e : PreemptEvent ι) :
    Decidable (FindsNoTimeOut hw s e) := by
  unfold FindsNoTimeOut
  infer_instance

/-! ## The holder of `bBusy` -/

/-- The preempted receiver, with the flush that holds `bBusy`. -/
structure Locked (β D : Type) where
  sys : Preempted β D
  holder : Option Irq

/-- The flush that passes its test of `bBusy` at an event: it finds `bBusy` clear and sets it. -/
def testPassed (s : Preempted β D) : PreemptEvent ι → Option Irq
  | .step =>
    if s.strm.bBusy = true then none
    else
      match s.irq with
      | .dmaHalf :: _ =>
        if s.strm.fsmFlushHt.chState = StreamReadFlush.isDmaBusy then some .dmaHalf else none
      | .timeOutFlush :: _ =>
        if s.strm.fsmTimeOut.chState = StreamReadFlush.isDmaBusy then some .timeOutFlush else none
      | _ => none
  | _ => none

/-- The holder after an event: the flush that has passed its test, or else the holder before, as
long as `bBusy` is set and that flush has not ended. -/
def holderAfter (s : Preempted β D) (holder : Option Irq) (e : PreemptEvent ι)
    (t : Preempted β D) : Option Irq :=
  (testPassed s e).or (if t.strm.bBusy = true then holder.filter (· ∈ t.irq) else none)

/-- What an event does, with the holder. -/
def LockedStep (hw : RxHardware β D ι) : StepRel (Locked β D) (PreemptEvent ι) := fun s e t =>
  PreemptStep hw s.sys e t.sys ∧ t.holder = holderAfter s.sys s.holder e t.sys

/-- A flush holds `bBusy`, which is set. -/
def HeldBy (s : Locked β D) (flush : Irq) : Prop :=
  s.sys.strm.bBusy = true ∧ s.holder = some flush

/-- A flush in its section is the holder of `bBusy`. -/
structure SoleHolder (s : Locked β D) : Prop where
  dmaHalf : DmaHalfIn s.sys → HeldBy s .dmaHalf
  timeOut : TimeOutIn s.sys → HeldBy s .timeOutFlush

theorem lockedStep_deterministic (hw : RxHardware β D ι) : Deterministic (LockedStep hw) := by
  rintro s e ⟨t, holder⟩ ⟨u, holder'⟩ ⟨first, held⟩ ⟨second, held'⟩
  obtain rfl : t = u := preemptStep_deterministic hw first second
  obtain rfl : holder = holder' := held.trans held'.symm
  rfl

/-- At most one flush is the holder. -/
theorem SoleHolder.exclusive {s : Locked β D} (sole : SoleHolder s) : Exclusive s.sys := by
  rintro ⟨dmaHalf, timeOut⟩
  have same := (sole.dmaHalf dmaHalf).2.symm.trans (sole.timeOut timeOut).2
  cases same

/-! ## The control of the handlers -/

/-- What a state of a flush does to the state variable of its machine and to `bBusy`, and how
it ends. -/
inductive FlushControl : ℕ → Bool → ℕ → Bool → Ctl → Prop where
  | start (busy : Bool) :
      FlushControl StreamReadFlush.start busy StreamReadFlush.isDmaBusy busy .goto
  | busy : FlushControl StreamReadFlush.isDmaBusy true StreamReadFlush.start true (.ret .cpl)
  | enter : FlushControl StreamReadFlush.isDmaBusy false StreamReadFlush.getBlock true .goto
  | getBlock (busy : Bool) :
      FlushControl StreamReadFlush.getBlock busy StreamReadFlush.getDataCnt busy .goto
  | complete (busy busy' : Bool) :
      FlushControl StreamReadFlush.getDataCnt busy StreamReadFlush.start busy' (.ret .cpl)

/-- **The states of a flush, as far as control goes.** They leave the saved machines of the
stream alone. -/
theorem streamReadFlushState_control (io : DmaRxIO β D) (this : FsmStreamReadFlush)
    (s : StreamRead β D) (valid : this.chState ≤ StreamReadFlush.getDataCnt) :
    FlushControl this.chState s.bBusy (streamReadFlushState io (this, s)).1.1.chState
        (streamReadFlushState io (this, s)).1.2.bBusy (streamReadFlushState io (this, s)).2 ∧
      (streamReadFlushState io (this, s)).1.2.fsmFlushHt = s.fsmFlushHt ∧
      (streamReadFlushState io (this, s)).1.2.fsmTimeOut = s.fsmTimeOut := by
  have states : this.chState = StreamReadFlush.start ∨
      this.chState = StreamReadFlush.isDmaBusy ∨ this.chState = StreamReadFlush.getBlock ∨
        this.chState = StreamReadFlush.getDataCnt := by
    dsimp only [StreamReadFlush.start, StreamReadFlush.isDmaBusy, StreamReadFlush.getBlock,
      StreamReadFlush.getDataCnt] at valid ⊢
    omega
  rcases states with code | code | code | code
  · rw [start_state code, code]
    exact ⟨.start _, rfl, rfl⟩
  · cases busy : s.bBusy with
    | false =>
        rw [isDmaBusy_state_idle code busy, code]
        exact ⟨.enter, rfl, rfl⟩
    | true =>
        rw [isDmaBusy_state_busy code busy, code]
        exact ⟨busy ▸ .busy, rfl, rfl⟩
  · rw [getBlock_state code, code]
    exact ⟨.getBlock _, rfl, rfl⟩
  · obtain ⟨t, state, sameHt, sameTimeOut⟩ :=
      getDataCnt_state_frame io s code
    rw [state, code]
    exact ⟨.complete _ _, sameHt, sameTimeOut⟩

/-- The parts of a preempted receiver that decide which flush is where. -/
structure Control where
  busy : Bool
  dmaHalf : ℕ
  timeOut : ℕ
  irq : List Irq

def Preempted.control (s : Preempted β D) : Control where
  busy := s.strm.bBusy
  dmaHalf := s.strm.fsmFlushHt.chState
  timeOut := s.strm.fsmTimeOut.chState
  irq := s.irq

/-- What an event can do to the control. -/
inductive PreemptEffect (hw : RxHardware β D ι) (s : Preempted β D) :
    PreemptEvent ι → Control → Prop where
  | passive {e : PreemptEvent ι} (notHalf : e ≠ .dmaHalf) (notStep : e ≠ .step) :
      PreemptEffect hw s e s.control
  | dmaHalf (inactive : .dmaHalf ∉ s.irq) :
      PreemptEffect hw s .dmaHalf
        { s.control with busy := false, irq := .dmaHalf :: s.irq }
  | tick (inactive : ¬ (.timeOut ∈ s.irq ∨ .timeOutFlush ∈ s.irq)) :
      PreemptEffect hw s .tick { s.control with irq := .timeOut :: s.irq }
  | flushDmaHalf {rest : List Irq} {code : ℕ} {busy : Bool} {ctl : Ctl}
      (top : s.irq = .dmaHalf :: rest)
      (flush : FlushControl s.control.dmaHalf s.control.busy code busy ctl) :
      PreemptEffect hw s .step
        { s.control with
          busy := busy, dmaHalf := code, irq := if ctl = .goto then .dmaHalf :: rest else rest }
  | timeOutStarts {rest : List Irq} (top : s.irq = .timeOut :: rest)
      (code : s.control.timeOut = TimeOut.start) :
      PreemptEffect hw s .step { s.control with timeOut := TimeOut.isReallyTimeOut }
  | timeOutEnds {rest : List Irq} (top : s.irq = .timeOut :: rest)
      (code : s.control.timeOut = TimeOut.isReallyTimeOut)
      (really : (isReallyTimeOut hw.toDmaRxIO s.strm).1 = false) :
      PreemptEffect hw s .step { s.control with timeOut := TimeOut.start, irq := rest }
  | timeOutFound {rest : List Irq} (top : s.irq = .timeOut :: rest)
      (found : FindsTimeOut hw.toDmaRxIO s) :
      PreemptEffect hw s .step
        { s.control with timeOut := TimeOut.flush, irq := .timeOutFlush :: rest }
  | flushTimeOut {rest : List Irq} {code : ℕ} {busy : Bool} {ctl : Ctl}
      (top : s.irq = .timeOutFlush :: rest)
      (flush : FlushControl s.control.timeOut s.control.busy code busy ctl) :
      PreemptEffect hw s .step
        { s.control with
          busy := busy, timeOut := code
          irq := if ctl = .goto then .timeOutFlush :: rest else rest }

/-- The stack holds each handler at most once. An inactive handler's machine is at `START`, and
an active one's at a state of what it runs, by its number. -/
structure Nested (c : Control) : Prop where
  dmaHalf_once : c.irq.count .dmaHalf ≤ 1
  timeOut_once : c.irq.count .timeOut + c.irq.count .timeOutFlush ≤ 1
  dmaHalf_valid : c.dmaHalf ≤ 3
  dmaHalf_inactive : c.irq.count .dmaHalf = 0 → c.dmaHalf = 0
  timeOut_inactive : c.irq.count .timeOut + c.irq.count .timeOutFlush = 0 → c.timeOut = 0
  timeOut_test : c.irq.count .timeOut = 1 → c.timeOut ≤ 1
  timeOut_flush : c.irq.count .timeOutFlush = 1 → 2 ≤ c.timeOut ∧ c.timeOut ≤ 3

section Effects

variable {hw : RxHardware β D ι} {s t : Preempted β D} {rest : List Irq}

/-- A state of a flush goes on or completes. -/
theorem FlushControl.ends {code code' : ℕ} {busy busy' : Bool} {ctl : Ctl}
    (flush : FlushControl code busy code' busy' ctl) :
    ctl = .goto ∨ ctl = .ret .cpl ∧ code' = StreamReadFlush.start := by
  cases flush with
  | start => exact .inl rfl
  | busy => exact .inr ⟨rfl, rfl⟩
  | enter => exact .inl rfl
  | getBlock => exact .inl rfl
  | complete => exact .inr ⟨rfl, rfl⟩

/-- An innermost timer handler is before `FLUSH`. -/
theorem Nested.timeOut_test_top (nested : Nested s.control) (top : s.irq = .timeOut :: rest) :
    s.control.timeOut ≤ 1 := by
  apply nested.timeOut_test
  have once := nested.timeOut_once
  simp only [Preempted.control, top, List.count_cons_self] at once ⊢
  omega

/-- An innermost flush of the timer is past the busy test. -/
theorem Nested.timeOut_flush_top (nested : Nested s.control)
    (top : s.irq = .timeOutFlush :: rest) : 2 ≤ s.control.timeOut ∧ s.control.timeOut ≤ 3 := by
  apply nested.timeOut_flush
  have once := nested.timeOut_once
  simp only [Preempted.control, top, List.count_cons_self] at once ⊢
  omega

theorem stepDmaHalf_effect (nested : Nested s.control) (top : s.irq = .dmaHalf :: rest) :
    PreemptEffect hw s .step (stepDmaHalf hw.toDmaRxIO s.strm rest).control := by
  obtain ⟨flush, -, timeOut⟩ := streamReadFlushState_control hw.toDmaRxIO s.strm.fsmFlushHt
    s.strm nested.dmaHalf_valid
  have effect : PreemptEffect hw s .step _ := .flushDmaHalf top flush
  dsimp only [Preempted.control] at effect
  rw [← timeOut] at effect
  exact effect

theorem stepTimeOutFlush_effect (nested : Nested s.control)
    (top : s.irq = .timeOutFlush :: rest) :
    PreemptEffect hw s .step (stepTimeOutFlush hw.toDmaRxIO s.strm rest).control := by
  obtain ⟨flush, dmaHalf, -⟩ := streamReadFlushState_control hw.toDmaRxIO s.strm.fsmTimeOut
    s.strm (nested.timeOut_flush_top top).2
  have effect : PreemptEffect hw s .step _ := .flushTimeOut top flush
  dsimp only [Preempted.control] at effect
  rw [← dmaHalf] at effect
  dsimp only [stepTimeOutFlush]
  rcases flush.ends with goesOn | ⟨completes, code⟩
  · rw [goesOn] at effect ⊢
    exact effect
  · rw [completes, code] at effect
    rw [completes]
    exact effect

theorem stepTimeOut_effect (nested : Nested s.control) (top : s.irq = .timeOut :: rest) :
    PreemptEffect hw s .step (stepTimeOut hw.toDmaRxIO s.strm rest).control := by
  have states : s.strm.fsmTimeOut.chState = TimeOut.start ∨
      s.strm.fsmTimeOut.chState = TimeOut.isReallyTimeOut := by
    have valid : s.strm.fsmTimeOut.chState ≤ TimeOut.isReallyTimeOut :=
      nested.timeOut_test_top top
    dsimp only [TimeOut.start, TimeOut.isReallyTimeOut] at valid ⊢
    omega
  rcases states with code | code
  · have effect : PreemptEffect hw s .step _ := .timeOutStarts top code
    rw [stepTimeOut, timeOut_start code]
    dsimp only [Preempted.control] at effect ⊢
    rw [top] at effect
    exact effect
  · have here : s.strm = { s.strm with
        fsmTimeOut := ⟨TimeOut.isReallyTimeOut, s.strm.fsmTimeOut.ptByteFifo⟩ } := by
      rw [← code]
    obtain ⟨dmaHalf, -⟩ := isReallyTimeOut_fsm hw.toDmaRxIO s.strm
    have busy := isReallyTimeOut_bBusy hw.toDmaRxIO s.strm
    cases really : (isReallyTimeOut hw.toDmaRxIO s.strm).1 with
    | false =>
        have effect : PreemptEffect hw s .step _ := .timeOutEnds top code really
        have state : timeOutState hw.toDmaRxIO s.strm = _ :=
          (congrArg _ here).trans (timeOutState_not_really really _)
        dsimp only [Preempted.control] at effect
        rw [stepTimeOut, state]
        rw [← dmaHalf, ← busy] at effect
        exact effect
    | true =>
        have effect : PreemptEffect hw s .step _ :=
          .timeOutFound top ⟨by rw [top]; rfl, code, really⟩
        have state : timeOutState hw.toDmaRxIO s.strm = _ :=
          (congrArg _ here).trans (timeOutState_really really _)
        dsimp only [Preempted.control] at effect
        rw [stepTimeOut, state]
        rw [← dmaHalf, ← busy] at effect
        exact effect

/-- **The effects of an event on the control.** -/
theorem preemptStep_effect {e : PreemptEvent ι} (nested : Nested s.control)
    (step : PreemptStep hw s e t) : PreemptEffect hw s e t.control := by
  unfold PreemptStep at step
  cases e with
  | arrive i =>
      cases step
      exact .passive nofun nofun
  | uartIdle =>
      cases step
      exact .passive nofun nofun
  | read =>
      simp only [preemptStep] at step
      split at step
      · cases step
        have same : Preempted.control ⟨(dequeueState (s.strm, none)).1.1, s.irq⟩ = s.control := by
          obtain ⟨flushHt, timeOut⟩ := dequeueState_fsm s.strm none
          simp only [Preempted.control, dequeueState_bBusy, flushHt, timeOut]
        rw [same]
        exact .passive nofun nofun
      · cases step
  | dmaHalf =>
      simp only [preemptStep] at step
      split at step
      · cases step
      · next inactive =>
          cases step
          exact .dmaHalf inactive
  | tick =>
      simp only [preemptStep] at step
      split at step
      · cases step
      · next inactive =>
          cases step
          exact .tick inactive
  | step =>
      simp only [preemptStep] at step
      split at step
      · cases step
      · next rest top =>
          cases step
          exact stepDmaHalf_effect nested top
      · next rest top =>
          cases step
          exact stepTimeOut_effect nested top
      · next rest top =>
          cases step
          exact stepTimeOutFlush_effect nested top

theorem FlushControl.equations {code code' : ℕ} {busy busy' : Bool} {ctl : Ctl}
    (flush : FlushControl code busy code' busy' ctl) :
    (code = 0 ∧ code' = 1 ∧ busy' = busy ∧ ctl = .goto) ∨
    (code = 1 ∧ busy = true ∧ code' = 0 ∧ busy' = true ∧ ctl = .ret .cpl) ∨
    (code = 1 ∧ busy = false ∧ code' = 2 ∧ busy' = true ∧ ctl = .goto) ∨
    (code = 2 ∧ code' = 3 ∧ busy' = busy ∧ ctl = .goto) ∨
    (code = 3 ∧ code' = 0 ∧ ctl = .ret .cpl) := by
  cases flush <;> simp

/-- **Every event keeps the stack nested.** -/
theorem Nested.effect {e : PreemptEvent ι} {c : Control} (nested : Nested s.control)
    (effect : PreemptEffect hw s e c) : Nested c := by
  obtain ⟨halfOnce, timeOnce, halfValid, halfInactive, timeInactive, timeTest, timeFlush⟩ := nested
  dsimp only [Preempted.control] at *
  cases effect with
  | passive =>
      exact ⟨halfOnce, timeOnce, halfValid, halfInactive, timeInactive, timeTest, timeFlush⟩
  | dmaHalf inactive =>
      have none := List.count_eq_zero.mpr inactive
      constructor <;> simp [Preempted.control] <;> omega
  | tick inactive =>
      have none := List.count_eq_zero.mpr (not_or.mp inactive).1
      have none' := List.count_eq_zero.mpr (not_or.mp inactive).2
      constructor <;> simp [Preempted.control] <;> omega
  | flushDmaHalf top flush =>
      simp [top] at halfOnce timeOnce halfInactive timeInactive timeTest timeFlush
      rcases flush.equations with ⟨-, rfl, -, rfl⟩ | ⟨-, -, rfl, -, rfl⟩ | ⟨-, -, rfl, -, rfl⟩ |
        ⟨-, rfl, -, rfl⟩ | ⟨-, rfl, rfl⟩
      all_goals constructor <;> simp [Preempted.control] <;> omega
  | timeOutStarts top code =>
      simp [top] at halfOnce timeOnce halfInactive timeInactive timeTest timeFlush
      constructor <;> simp [Preempted.control, top] <;> omega
  | timeOutEnds top code really =>
      simp [top] at halfOnce timeOnce halfInactive timeInactive timeTest timeFlush
      constructor <;> simp [Preempted.control] <;> omega
  | timeOutFound top found =>
      simp [top] at halfOnce timeOnce halfInactive timeInactive timeTest timeFlush
      constructor <;> simp [Preempted.control, TimeOut.flush] <;> omega
  | flushTimeOut top flush =>
      simp [top] at halfOnce timeOnce halfInactive timeInactive timeTest timeFlush
      have code : s.strm.fsmTimeOut.chState = s.control.timeOut := rfl
      rcases flush.equations with ⟨_, rfl, -, rfl⟩ | ⟨_, -, rfl, -, rfl⟩ | ⟨_, -, rfl, -, rfl⟩ |
        ⟨-, rfl, -, rfl⟩ | ⟨-, rfl, rfl⟩
      all_goals constructor <;> simp [Preempted.control] <;> omega

/-! ## Who is in a section -/

theorem Nested.step {e : PreemptEvent ι} (nested : Nested s.control)
    (step : PreemptStep hw s e t) : Nested t.control :=
  nested.effect (preemptStep_effect nested step)

theorem dmaHalfIn_iff (nested : Nested s.control) : DmaHalfIn s ↔ 2 ≤ s.control.dmaHalf := by
  have valid := nested.dmaHalf_valid
  have inactive := nested.dmaHalf_inactive
  rw [List.count_eq_zero] at inactive
  simp only [DmaHalfIn, InSection, Preempted.control, StreamReadFlush.getBlock,
    StreamReadFlush.getDataCnt] at *
  constructor
  · rintro ⟨-, code⟩
    omega
  · intro code
    refine ⟨?_, by omega⟩
    by_contra absent
    have := inactive absent
    omega

theorem timeOutIn_iff (nested : Nested s.control) : TimeOutIn s ↔ 2 ≤ s.control.timeOut := by
  obtain ⟨-, once, -, -, inactive, test, flush⟩ := nested
  simp only [TimeOutIn, InSection, Preempted.control, StreamReadFlush.getBlock,
    StreamReadFlush.getDataCnt] at *
  rw [← List.count_pos_iff]
  omega

theorem exclusive_iff (nested : Nested s.control) :
    Exclusive s ↔ ¬ (2 ≤ s.control.dmaHalf ∧ 2 ≤ s.control.timeOut) := by
  rw [Exclusive, dmaHalfIn_iff nested, timeOutIn_iff nested]

theorem PreemptEffect.interrupt {c : Control} (effect : PreemptEffect hw s .dmaHalf c) :
    .dmaHalf ∉ s.irq ∧ c = { s.control with busy := false, irq := .dmaHalf :: s.irq } := by
  cases effect with
  | passive notHalf => exact absurd rfl notHalf
  | dmaHalf inactive => exact ⟨inactive, rfl⟩

theorem PreemptEffect.enters {c : Control} (effect : PreemptEffect hw s .step c)
    (found : FindsTimeOut hw.toDmaRxIO s) :
    ∃ rest, c = { s.control with timeOut := TimeOut.flush, irq := .timeOutFlush :: rest } := by
  obtain ⟨innermost, code, really⟩ := found
  cases effect with
  | passive _ notStep => exact absurd rfl notStep
  | flushDmaHalf top => rw [top] at innermost; cases innermost
  | timeOutStarts _ code' => exact absurd (code'.symm.trans code) (by decide)
  | timeOutEnds _ _ really' => rw [really] at really'; cases really'
  | timeOutFound => exact ⟨_, rfl⟩
  | flushTimeOut top => rw [top] at innermost; cases innermost

/-! ## The holder alone -/

/-- What holds in every state of a run in which no timeout is found. -/
structure HolderInv (s : Locked β D) : Prop where
  nested : Nested s.sys.control
  dmaHalf : 2 ≤ s.sys.control.dmaHalf → HeldBy s .dmaHalf
  timeOut : s.sys.control.timeOut ≤ 1
  notTimer : s.holder ≠ some .timeOutFlush

section Holder

variable {e : PreemptEvent ι} {s t : Locked β D} {flush : Irq}

/-- A holder goes on holding `bBusy`, unless that is cleared or the flush ends. -/
theorem HeldBy.kept (held : HeldBy s flush) (step : LockedStep hw s e t)
    (busy : t.sys.strm.bBusy = true) (active : flush ∈ t.sys.irq) : HeldBy t flush := by
  obtain ⟨set, holder⟩ := held
  have passed : testPassed s.sys e = none := by
    cases e with
    | step => exact if_pos set
    | _ => rfl
  refine ⟨busy, step.2.trans ?_⟩
  rw [holderAfter, passed, Option.none_or, if_pos busy, holder]
  exact Option.filter_eq_some_iff.mpr ⟨rfl, decide_eq_true active⟩

/-- A flush that passes its test holds `bBusy`. -/
theorem LockedStep.heldBy (step : LockedStep hw s e t) (passed : testPassed s.sys e = some flush)
    (busy : t.sys.strm.bBusy = true) : HeldBy t flush := by
  refine ⟨busy, step.2.trans ?_⟩
  rw [holderAfter, passed, Option.some_or]

/-- A flush that did not hold `bBusy` holds it only by its test. -/
theorem LockedStep.notHolder (step : LockedStep hw s e t) (before : s.holder ≠ some flush)
    (failed : testPassed s.sys e ≠ some flush) : t.holder ≠ some flush := by
  intro holder
  rw [step.2, holderAfter, Option.or_eq_some_iff] at holder
  rcases holder with passed | ⟨-, kept⟩
  · exact failed passed
  · split at kept
    · exact before (Option.eq_some_of_filter_eq_some kept)
    · cases kept

/-- The timer's flush does not pass the test before it is entered. -/
theorem testPassed_timer {u : Preempted β D} (notFlush : u.irq.head? ≠ some .timeOutFlush) :
    testPassed u e ≠ some .timeOutFlush := by
  cases e with
  | step =>
      rw [testPassed]
      split
      · simp
      · split
        · split <;> simp
        · next top => exact absurd (by rw [top]; rfl) notFlush
        · simp
  | _ => simp [testPassed]

/-- **Where no timeout is found, the DMA-half handler's flush is the only one in a section, and it
is the holder.** -/
theorem HolderInv.step (inv : HolderInv s) (clear : FindsNoTimeOut hw s.sys e)
    (step : LockedStep hw s e t) : HolderInv t := by
  have effect := preemptStep_effect inv.nested step.1
  have nested := inv.nested.effect effect
  have notFlush : s.sys.irq.head? ≠ some .timeOutFlush := by
    intro innermost
    obtain ⟨rest, top⟩ := List.head?_eq_some_iff.mp innermost
    have inside := inv.nested.timeOut_flush_top top
    have outside := inv.timeOut
    omega
  have active (inside : 2 ≤ s.sys.control.dmaHalf) : .dmaHalf ∈ s.sys.irq :=
    ((dmaHalfIn_iff inv.nested).mpr inside).1
  have kept (inside : 2 ≤ s.sys.control.dmaHalf) (busy : t.sys.control.busy = true)
      (member : .dmaHalf ∈ t.sys.control.irq) : HeldBy t .dmaHalf :=
    (inv.dmaHalf inside).kept step busy member
  have passes (passed : testPassed s.sys e = some .dmaHalf) (busy : t.sys.control.busy = true) :
      HeldBy t .dmaHalf := step.heldBy passed busy
  suffices control : (2 ≤ t.sys.control.dmaHalf → HeldBy t .dmaHalf) ∧
      t.sys.control.timeOut ≤ 1 from
    ⟨nested, control.1, control.2, step.notHolder inv.notTimer (testPassed_timer notFlush)⟩
  generalize t.sys.control = c at effect kept passes
  cases effect with
  | passive =>
      exact ⟨fun inside => kept inside (inv.dmaHalf inside).1 (active inside), inv.timeOut⟩
  | dmaHalf inactive =>
      have code := inv.nested.dmaHalf_inactive (List.count_eq_zero.mpr inactive)
      exact ⟨fun inside => by dsimp only at inside; omega, inv.timeOut⟩
  | tick inactive =>
      refine ⟨fun inside => ?_, inv.timeOut⟩
      exact kept inside (inv.dmaHalf inside).1 (List.mem_cons_of_mem _ (active inside))
  | flushDmaHalf top flush =>
      refine ⟨fun inside => ?_, inv.timeOut⟩
      dsimp only at inside kept passes
      rcases flush.equations with ⟨_, rfl, rfl, -⟩ | ⟨_, _, rfl, rfl, -⟩ |
        ⟨code, idle, rfl, rfl, -⟩ | ⟨_, rfl, rfl, rfl⟩ | ⟨_, rfl, -⟩
      · omega
      · omega
      · refine passes ?_ rfl
        have clear : ¬ s.sys.strm.bBusy = true := by
          rw [show s.sys.strm.bBusy = false from idle]
          exact Bool.false_ne_true
        rw [testPassed, if_neg clear, top]
        exact if_pos code
      · have before : 2 ≤ s.sys.control.dmaHalf := by omega
        exact kept before (inv.dmaHalf before).1 List.mem_cons_self
      · omega
  | timeOutStarts top code =>
      exact ⟨fun inside => kept inside (inv.dmaHalf inside).1 (active inside), le_rfl⟩
  | timeOutEnds top code really =>
      refine ⟨fun inside => ?_, Nat.zero_le _⟩
      have member := active inside
      rw [top] at member
      rcases List.mem_cons.mp member with same | below
      · cases same
      · exact kept inside (inv.dmaHalf inside).1 below
  | timeOutFound top found => exact absurd found (clear rfl)
  | flushTimeOut top flush => exact absurd (by rw [top]; rfl) notFlush

theorem HolderInv.soleHolder (inv : HolderInv s) : SoleHolder s where
  dmaHalf inside := inv.dmaHalf ((dmaHalfIn_iff inv.nested).mp inside)
  timeOut inside := by
    have entered := (timeOutIn_iff inv.nested).mp inside
    have outside := inv.timeOut
    omega

/-- **A timeout that is found breaks the single holder.** The timer's flush is in its section
then, and it has passed no test. -/
theorem HolderInv.broken (inv : HolderInv s) (finds : ¬ FindsNoTimeOut hw s.sys e)
    (step : LockedStep hw s e t) : ¬ SoleHolder t := by
  obtain ⟨rfl, found⟩ : e = .step ∧ FindsTimeOut hw.toDmaRxIO s.sys := by
    simpa [FindsNoTimeOut] using finds
  have effect := preemptStep_effect inv.nested step.1
  have nested := inv.nested.effect effect
  obtain ⟨rest, after⟩ := effect.enters found
  have inside : TimeOutIn t.sys := by
    rw [timeOutIn_iff nested, after]
  have notFlush : s.sys.irq.head? ≠ some .timeOutFlush := by simp [found.1]
  intro sole
  exact step.notHolder inv.notTimer (testPassed_timer notFlush) (sole.timeOut inside).2

end Holder

/-! ## Mutual exclusion alone -/

/-- The timer's flush is not in its section below an active DMA-half handler. -/
def Aligned (s : Preempted β D) : Prop := s.irq.head? = some .dmaHalf → ¬ TimeOutIn s

/-- The DMA-half handler is on its way into its section above the timer's flush. -/
structure Doomed (s : Preempted β D) : Prop where
  innermost : s.irq.head? = some .dmaHalf
  inside : TimeOutIn s
  outside : ¬ DmaHalfIn s
  idle : s.strm.bBusy = false

/-- **A step without overlap keeps the sections apart.** -/
theorem Exclusive.step {e : PreemptEvent ι} (nested : Nested s.control) (exclusive : Exclusive s)
    (aligned : Aligned s) (apart : NoOverlap hw s e) (step : PreemptStep hw s e t) :
    Exclusive t ∧ Aligned t := by
  have effect := preemptStep_effect nested step
  have nested' := nested.effect effect
  have head : t.irq = t.control.irq := rfl
  rw [exclusive_iff nested] at exclusive
  rw [Aligned, timeOutIn_iff nested] at aligned
  rw [exclusive_iff nested', Aligned, timeOutIn_iff nested', head]
  generalize t.control = c at effect
  cases effect with
  | passive => exact ⟨exclusive, aligned⟩
  | dmaHalf inactive =>
      have outside : ¬ TimeOutIn s := apart
      rw [timeOutIn_iff nested] at outside
      exact ⟨fun both => outside both.2, fun _ => outside⟩
  | tick inactive => exact ⟨exclusive, nofun⟩
  | flushDmaHalf top flush =>
      have outside := aligned (by rw [top]; rfl)
      exact ⟨fun both => outside both.2, fun _ => outside⟩
  | timeOutStarts top code => exact ⟨by dsimp only [TimeOut.isReallyTimeOut]; omega,
      by dsimp only [TimeOut.isReallyTimeOut]; omega⟩
  | timeOutEnds top code really => exact ⟨by dsimp only [TimeOut.start]; omega,
      by dsimp only [TimeOut.start]; omega⟩
  | timeOutFound top found =>
      have outside : ¬ DmaHalfIn s := apart found
      rw [dmaHalfIn_iff nested] at outside
      exact ⟨fun both => outside both.1, nofun⟩
  | flushTimeOut top flush =>
      have active := nested.timeOut_flush_top top
      dsimp only
      rcases flush.equations with ⟨_, rfl, rfl, -⟩ | ⟨_, _, rfl, rfl, -⟩ | ⟨_, idle, rfl, rfl, -⟩ |
        ⟨_, rfl, rfl, rfl⟩ | ⟨_, rfl, -⟩
      · omega
      · omega
      · omega
      · exact ⟨by omega, nofun⟩
      · exact ⟨by omega, by omega⟩

/-- A step with overlap has both flushes in their sections, or the DMA-half handler on its way
there. -/
theorem Exclusive.broken {e : PreemptEvent ι} (nested : Nested s.control)
    (overlaps : ¬ NoOverlap hw s e) (step : PreemptStep hw s e t) :
    ¬ (Exclusive t ∧ ¬ Doomed t) := by
  have effect := preemptStep_effect nested step
  have nested' := nested.effect effect
  rintro ⟨exclusive, notDoomed⟩
  cases e with
  | dmaHalf =>
      obtain ⟨inactive, after⟩ := effect.interrupt
      have inside : TimeOutIn s := by simpa [NoOverlap] using overlaps
      have code := nested.dmaHalf_inactive (List.count_eq_zero.mpr inactive)
      refine notDoomed ⟨?_, ?_, ?_, ?_⟩
      · exact (congrArg (fun c => c.irq.head?) after)
      · rw [timeOutIn_iff nested', after]
        exact (timeOutIn_iff nested).mp inside
      · rw [dmaHalfIn_iff nested', after]
        dsimp only
        omega
      · exact congrArg Control.busy after
  | step =>
      have both : FindsTimeOut hw.toDmaRxIO s ∧ DmaHalfIn s := by
        simpa [NoOverlap] using overlaps
      obtain ⟨rest, after⟩ := effect.enters both.1
      rw [exclusive_iff nested', after] at exclusive
      exact exclusive ⟨(dmaHalfIn_iff nested).mp both.2, le_rfl⟩
  | arrive => exact overlaps trivial
  | uartIdle => exact overlaps trivial
  | read => exact overlaps trivial
  | tick => exact overlaps trivial

/-- **A DMA-half handler on its way into its section above the timer's flush gets there.** The
timer's flush cannot go on before it. -/
theorem Doomed.stays {e : PreemptEvent ι} (nested : Nested s.control) (doomed : Doomed s)
    (step : PreemptStep hw s e t) : Doomed t ∨ ¬ Exclusive t := by
  obtain ⟨innermost, inside, outside, idle⟩ := doomed
  have effect := preemptStep_effect nested step
  have nested' := nested.effect effect
  have inside' := (timeOutIn_iff nested).mp inside
  have outside' := (dmaHalfIn_iff nested).not.mp outside
  have idle' : s.control.busy = false := idle
  have of (innermost : t.control.irq.head? = some .dmaHalf) (inside : 2 ≤ t.control.timeOut)
      (outside : ¬ 2 ≤ t.control.dmaHalf) (idle : t.control.busy = false) : Doomed t :=
    ⟨innermost, (timeOutIn_iff nested').mpr inside, (dmaHalfIn_iff nested').not.mpr outside, idle⟩
  rw [exclusive_iff nested']
  generalize t.control = c at effect of
  cases effect with
  | passive => exact .inl (of innermost inside' outside' idle)
  | dmaHalf inactive => exact absurd (List.mem_of_head? innermost) inactive
  | tick inactive => exact absurd (.inr inside.1) inactive
  | flushDmaHalf top flush =>
      rcases flush.equations with ⟨_, rfl, rfl, rfl⟩ | ⟨_, busy, _⟩ | ⟨_, _, rfl, rfl, _⟩ |
        ⟨_, _⟩ | ⟨_, _⟩
      · exact .inl (of rfl inside' (by dsimp only; omega) idle)
      · rw [idle'] at busy
        cases busy
      · exact .inr fun apart => apart ⟨le_rfl, inside'⟩
      · omega
      · omega
  | timeOutStarts top => rw [top] at innermost; cases innermost
  | timeOutEnds top => rw [top] at innermost; cases innermost
  | timeOutFound top => rw [top] at innermost; cases innermost
  | flushTimeOut top => rw [top] at innermost; cases innermost

end Effects

/-! ## Runs -/

section Runs

variable {hw : RxHardware β D ι} {cfg : StreamReadCfg} {m : MemBlkFifo β} {dma : D}
  {s : StreamRead β D} {t : Preempted β D} {es : List (PreemptEvent ι)}

/-- The initialised receiver has no active handler. -/
theorem InitialRead.nested {io : DmaRxIO β D} (initial : InitialRead io cfg dma s) :
    Nested (⟨s, []⟩ : Preempted β D).control :=
  ⟨Nat.zero_le _, Nat.zero_le _, initial.quiet.flushHt.trans_le (Nat.zero_le _),
    fun _ => initial.quiet.flushHt, fun _ => initial.quiet.timeOut, nofun, nofun⟩

/-- What holds in every state of a run without overlap. -/
structure ApartInv (s : Preempted β D) : Prop where
  nested : Nested s.control
  exclusive : Exclusive s
  aligned : Aligned s

theorem ApartInv.step {u v : Preempted β D} {e : PreemptEvent ι} (inv : ApartInv u)
    (apart : NoOverlap hw u e) (step : PreemptStep hw u e v) : ApartInv v :=
  have kept := inv.exclusive.step inv.nested inv.aligned apart step
  ⟨inv.nested.step step, kept.1, kept.2⟩

theorem ApartInv.notDoomed {u : Preempted β D} (inv : ApartInv u) : Exclusive u ∧ ¬ Doomed u :=
  ⟨inv.exclusive, fun doomed => inv.aligned doomed.innermost doomed.inside⟩

/-- In a run that ends with no active handler, the DMA-half handler is never on its way into its
section above the timer's flush if the flushes exclude each other. -/
theorem Throughout.notDoomed {u : Preempted β D} (nested : Nested u.control)
    (run : Run (PreemptStep hw) u es t) (done : t.irq = [])
    (always : Throughout (PreemptStep hw) Exclusive u es) :
    Throughout (PreemptStep hw) (fun v => Exclusive v ∧ ¬ Doomed v) u es := by
  have never : Throughout (PreemptStep hw) (fun v => ¬ (Nested v.control ∧ Doomed v)) u es := by
    refine Throughout.never (preemptStep_deterministic hw) ?_ run ?_ always
    · rintro v e w ⟨nested, doomed⟩ step
      exact (doomed.stays nested step).imp_left fun still => ⟨nested.step step, still⟩
    · rintro ⟨-, doomed⟩
      have innermost := doomed.innermost
      rw [done] at innermost
      cases innermost
  intro taken v before run'
  have nested' : Nested v.control :=
    run'.invariant (fun u => Nested u.control) (fun _ _ _ nested step => nested.step step) nested
  exact ⟨always taken v before run', fun doomed => never taken v before run' ⟨nested', doomed⟩⟩

/-- The holder is known in every run. -/
theorem locked_run {s : Locked β D} (run : Run (PreemptStep hw) s.sys es t) :
    ∃ holder, Run (LockedStep hw) s es ⟨t, holder⟩ := by
  have lifted : ∃ t', t'.sys = t ∧ Run (LockedStep hw) s es t' := by
    refine run.lift (f := Locked.sys) ?_
    intro u e v step
    exact ⟨⟨v, holderAfter u.sys u.holder e v⟩, rfl, step, rfl⟩
  obtain ⟨⟨_, holder⟩, rfl, locked⟩ := lifted
  exact ⟨holder, locked⟩

theorem locked_run_guarded {guard : Preempted β D → PreemptEvent ι → Prop} {s : Locked β D}
    (run : Run (guarded (PreemptStep hw) guard) s.sys es t) :
    ∃ t', t'.sys = t ∧ Run (guarded (LockedStep hw) fun u => guard u.sys) s es t' := by
  refine run.lift (f := Locked.sys) ?_
  rintro u e v ⟨met, step⟩
  exact ⟨⟨v, holderAfter u.sys u.holder e v⟩, rfl, met, step, rfl⟩

theorem HolderInv.throughout_iff {u v : Locked β D} (start : HolderInv u)
    (run : Run (LockedStep hw) u es v) :
    Run (guarded (LockedStep hw) fun w => FindsNoTimeOut hw w.sys) u es v ↔
      Throughout (LockedStep hw) SoleHolder u es :=
  run.guarded_iff_throughout (lockedStep_deterministic hw) (fun _ inv => inv.soleHolder)
    (fun _ _ _ inv => inv.step) (fun _ _ _ inv => inv.broken) start

/-- **When the flushes exclude each other.** In every run, a flush is in its section only as the
holder of `bBusy`, and so at most one is, exactly when no timeout is found. Without regard to
`bBusy`, a run without overlap has at most one flush in its section, and a run that ends with no
active handler has it only if it is without overlap. -/
theorem flushSections_iff (init : zeroStrmReadInit hw.toDmaRxIO cfg m dma = some s)
    (run : Run (PreemptStep hw) ⟨s, []⟩ es t) :
    (∃ holder, Run (LockedStep hw) ⟨⟨s, []⟩, none⟩ es ⟨t, holder⟩) ∧
    (Run (guarded (PreemptStep hw) (FindsNoTimeOut hw)) ⟨s, []⟩ es t ↔
      Throughout (LockedStep hw) SoleHolder ⟨⟨s, []⟩, none⟩ es) ∧
    (Run (guarded (PreemptStep hw) (NoOverlap hw)) ⟨s, []⟩ es t →
      Throughout (PreemptStep hw) Exclusive ⟨s, []⟩ es) ∧
    (t.irq = [] → Throughout (PreemptStep hw) Exclusive ⟨s, []⟩ es →
      Run (guarded (PreemptStep hw) (NoOverlap hw)) ⟨s, []⟩ es t) := by
  have nested := (zeroStrmReadInit_spec init).nested
  have apart : ApartInv (⟨s, []⟩ : Preempted β D) := by
    refine ⟨nested, ?_, ?_⟩
    · rintro ⟨⟨active, -⟩, -⟩
      cases active
    · rintro ⟨⟩
  have overlap : Run (guarded (PreemptStep hw) (NoOverlap hw)) ⟨s, []⟩ es t ↔
      Throughout (PreemptStep hw) (fun u => Exclusive u ∧ ¬ Doomed u) ⟨s, []⟩ es :=
    run.guarded_iff_throughout (preemptStep_deterministic hw) (fun _ inv => inv.notDoomed)
      (fun _ _ _ inv => inv.step) (fun _ _ _ inv => Exclusive.broken inv.nested) apart
  have start : HolderInv (⟨⟨s, []⟩, none⟩ : Locked β D) := by
    have dmaHalf : (⟨s, []⟩ : Preempted β D).control.dmaHalf = 0 := nested.dmaHalf_inactive rfl
    have timeOut : (⟨s, []⟩ : Preempted β D).control.timeOut = 0 := nested.timeOut_inactive rfl
    refine ⟨nested, ?_, timeOut.trans_le (Nat.zero_le _), ?_⟩
    · intro inside
      rw [dmaHalf] at inside
      omega
    · rintro ⟨⟩
  obtain ⟨holder, locked⟩ := locked_run (s := ⟨⟨s, []⟩, none⟩) run
  refine ⟨⟨holder, locked⟩, ⟨?_, ?_⟩, ?_, ?_⟩
  · intro met
    obtain ⟨_, -, met'⟩ := locked_run_guarded (s := ⟨⟨s, []⟩, none⟩) met
    exact (start.throughout_iff met'.unguarded).mp met'
  · intro always
    exact ((start.throughout_iff locked).mpr always).map (f := Locked.sys)
      fun _ _ _ step => ⟨step.1, step.2.1⟩
  · intro met
    exact (overlap.mp met).mono fun _ good => good.1
  · intro done always
    exact overlap.mpr (Throughout.notDoomed nested run done always)

end Runs

/-- The events of a DMA-half interrupt that preempts a timer handler before its test: a byte, a
tick with one state, the interrupt with the four states of its flush, and the test. -/
def timerPreemptedEvents : List (PreemptEvent UInt8) :=
  [.arrive 7, .tick, .step, .dmaHalf, .step, .step, .step, .step, .step]

/-- The events of a timer handler whose flush preempts a DMA-half handler before its own: a byte,
the interrupt, an idle line, a tick that only counts, a tick whose flush completes, and the four
states of the other flush. -/
def timerPreemptsEvents : List (PreemptEvent UInt8) :=
  [.arrive 7, .dmaHalf, .uartIdle, .tick, .step, .step, .tick, .step, .step, .step, .step, .step,
    .step, .step, .step]

/-- In the first of these runs the flush is the holder. In the second there are two flushes, one
after the other in its section, and the timer's is not the holder. -/
theorem flushSections_iff_twoHandlers :
    ∃ s t u, zeroStrmReadInit dmaRx.toDmaRxIO (smallCfg 3) zeroMemory DmaRx.reset = some s ∧
      Run (PreemptStep dmaRx) ⟨s, []⟩ timerPreemptedEvents t ∧
      Throughout (LockedStep dmaRx) SoleHolder ⟨⟨s, []⟩, none⟩ timerPreemptedEvents ∧
      Run (PreemptStep dmaRx) ⟨s, []⟩ timerPreemptsEvents u ∧
      Throughout (PreemptStep dmaRx) Exclusive ⟨s, []⟩ timerPreemptsEvents ∧
      ¬ Throughout (LockedStep dmaRx) SoleHolder ⟨⟨s, []⟩, none⟩ timerPreemptsEvents := by
  obtain ⟨s, init⟩ : ∃ s,
      zeroStrmReadInit dmaRx.toDmaRxIO (smallCfg 3) zeroMemory DmaRx.reset = some s := ⟨_, rfl⟩
  obtain ⟨t, clear⟩ : ∃ t, Run (guarded (PreemptStep dmaRx) (FindsNoTimeOut dmaRx)) ⟨s, []⟩
      timerPreemptedEvents t := by
    obtain rfl := Option.some.inj init
    refine ⟨_, _, ⟨?_, rfl⟩, _, ⟨?_, rfl⟩, _, ⟨?_, rfl⟩, _, ⟨?_, rfl⟩, _, ⟨?_, rfl⟩, _,
      ⟨?_, rfl⟩, _, ⟨?_, rfl⟩, _, ⟨?_, rfl⟩, _, ⟨?_, rfl⟩, rfl⟩
    all_goals decide
  obtain ⟨u, apart⟩ : ∃ u, Run (guarded (PreemptStep dmaRx) (NoOverlap dmaRx)) ⟨s, []⟩
      timerPreemptsEvents u := by
    obtain rfl := Option.some.inj init
    refine ⟨_, _, ⟨?_, rfl⟩, _, ⟨?_, rfl⟩, _, ⟨?_, rfl⟩, _, ⟨?_, rfl⟩, _, ⟨?_, rfl⟩, _,
      ⟨?_, rfl⟩, _, ⟨?_, rfl⟩, _, ⟨?_, rfl⟩, _, ⟨?_, rfl⟩, _, ⟨?_, rfl⟩, _, ⟨?_, rfl⟩, _,
      ⟨?_, rfl⟩, _, ⟨?_, rfl⟩, _, ⟨?_, rfl⟩, _, ⟨?_, rfl⟩, rfl⟩
    all_goals decide
  obtain ⟨v, entered, inside, notBusy⟩ : ∃ v, Run (PreemptStep dmaRx) ⟨s, []⟩
      (timerPreemptsEvents.take 9) v ∧ TimeOutIn v ∧ v.strm.bBusy = false := by
    obtain rfl := Option.some.inj init
    exact ⟨_, ⟨_, rfl, _, rfl, _, rfl, _, rfl, _, rfl, _, rfl, _, rfl, _, rfl, _, rfl, rfl⟩,
      ⟨by decide, .inl rfl⟩, rfl⟩
  obtain ⟨-, alone, -⟩ := flushSections_iff init clear.unguarded
  obtain ⟨-, -, exclusive, -⟩ := flushSections_iff init apart.unguarded
  obtain ⟨⟨holder, locked⟩, -⟩ := flushSections_iff init entered
  refine ⟨s, t, u, init, clear.unguarded, alone.mp clear, apart.unguarded, exclusive apart, ?_⟩
  intro always
  have held := (always _ _ (List.take_prefix ..) locked).timeOut inside
  rw [HeldBy, notBusy] at held
  exact Bool.false_ne_true held.1

/-- The events of a DMA-half interrupt in the section of the timer's flush: an idle line, a tick
that only counts, a tick that enters the flush, and the interrupt with two states of its flush. -/
def overlappingEvents : List (PreemptEvent UInt8) :=
  [.uartIdle, .tick, .step, .step, .tick, .step, .step, .dmaHalf, .step, .step]

/-- After those events both flushes are in their sections. -/
theorem flushSections_overlap :
    ∃ s t, zeroStrmReadInit dmaRx.toDmaRxIO (smallCfg 3) zeroMemory DmaRx.reset = some s ∧
      Run (PreemptStep dmaRx) ⟨s, []⟩ overlappingEvents t ∧ DmaHalfIn t ∧ TimeOutIn t := by
  refine ⟨_, _, rfl, ⟨_, rfl, _, rfl, _, rfl, _, rfl, _, rfl, _, rfl, _, rfl, _, rfl, _, rfl,
    _, rfl, rfl⟩, ⟨by decide, .inl rfl⟩, ⟨by decide, .inl rfl⟩⟩

end ZeroStrm
