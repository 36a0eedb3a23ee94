import ZeroStrm.Library.Runs
import ZeroStrm.Read.Flush

/-!
# Runs of the receiver

Five kinds of event drive the receiver: something happens in the channel, a DMA-half interrupt,
a UART-idle interrupt, a timer tick, and one state of a `zero_strm_read` call. The handlers are
atomic. A read event is a single state of `dequeue`, so a handler may run between any two
states of a call, and a whole call is a list of read events (`zeroStrmRead_run`).

What the channel does by itself is a parameter, like the callbacks (`RxHardware`). Every event
leaves the three machines of the receiver in a state from which the next call starts
(`Quiet.step`).
-/

set_option autoImplicit false

namespace ZeroStrm

open EventRuns

/-! ## The system -/

/-- Callbacks together with what the channel does by itself. -/
structure RxHardware (β D ι : Type) extends DmaRxIO β D where
  arrive : ι → MemBlkFifo β → D → MemBlkFifo β × D

inductive ReadEvent (ι : Type) where
  /-- The channel acts. -/
  | arrive (i : ι)
  /-- A DMA-half interrupt. -/
  | dmaHalf
  /-- A UART-idle interrupt. -/
  | uartIdle
  /-- A timer interrupt. -/
  | tick
  /-- One state of a `zero_strm_read` call. -/
  | read
  deriving DecidableEq, Repr

/-- The stream, and the bytes that `zero_strm_read` has returned. -/
structure ReadSystem (β D : Type) where
  strm : StreamRead β D
  returned : List β

variable {β D ι : Type}

/-- The events that run a handler or the channel. -/
def ReadEvent.isHandler : ReadEvent ι → Bool
  | .read => false
  | _ => true

theorem ReadEvent.isHandler_iff (e : ReadEvent ι) : e.isHandler = false ↔ e = .read := by
  cases e with
  | read => exact ⟨fun _ => rfl, fun _ => rfl⟩
  | _ => exact ⟨nofun, nofun⟩

/-- The byte that a state of `dequeue` returns with `fsm_rt_cpl`. -/
def returnedByte (r : (StreamRead β D × Option β) × Ctl) : List β :=
  if r.2 = .ret .cpl then r.1.2.toList else []

/-- What an event does. -/
def readStep (hw : RxHardware β D ι) (s : ReadSystem β D) : ReadEvent ι → ReadSystem β D
  | .arrive i =>
    let arrived := hw.arrive i s.strm.tMemBlockFifo s.strm.dma
    { s with strm := { s.strm with tMemBlockFifo := arrived.1, dma := arrived.2 } }
  | .dmaHalf =>
    { s with strm := zeroStrmUartDmaGetDataInsertToDmaIrqEventHandler hw.toDmaRxIO s.strm }
  | .uartIdle =>
    { s with strm := zeroStrmUartIdleInsertToUartIrqEventHandler hw.toDmaRxIO s.strm }
  | .tick =>
    { s with strm := zeroStrmUartWaitTimeOutInsertToHardTimerIrqEventHandler hw.toDmaRxIO s.strm }
  | .read =>
    let deq := dequeueState (s.strm, none)
    { strm := deq.1.1, returned := s.returned ++ returnedByte deq }

/-- The step relation of the receiver. -/
def ReadStep (hw : RxHardware β D ι) : StepRel (ReadSystem β D) (ReadEvent ι) :=
  fun s e t => t = readStep hw s e

theorem readStep_deterministic (hw : RxHardware β D ι) : Deterministic (ReadStep hw) :=
  fun _ _ _ _ first second => first.trans second.symm

/-- A run from `zero_strm_read_init`, under the given step relation. -/
def ReadRun (hw : RxHardware β D ι) (step : StepRel (ReadSystem β D) (ReadEvent ι))
    (cfg : StreamReadCfg) (m : MemBlkFifo β) (dma : D) (es : List (ReadEvent ι))
    (t : ReadSystem β D) : Prop :=
  ∃ s, zeroStrmReadInit hw.toDmaRxIO cfg m dma = some s ∧ Run step ⟨s, []⟩ es t

theorem ReadRun.unique {hw : RxHardware β D ι} {cfg : StreamReadCfg} {m : MemBlkFifo β}
    {dma : D} {es : List (ReadEvent ι)} {t u : ReadSystem β D}
    (first : ReadRun hw (ReadStep hw) cfg m dma es t)
    (second : ReadRun hw (ReadStep hw) cfg m dma es u) : t = u := by
  obtain ⟨s, init, run⟩ := first
  obtain ⟨s', init', run'⟩ := second
  obtain rfl : s = s' := Option.some.inj (init.symm.trans init')
  exact run.unique (readStep_deterministic hw) run'

/-! ## Whole calls of `zero_strm_read` -/

theorem dequeueState_goto_out {s t : StreamRead β D} {out out' : Option β}
    (code : dequeueState (s, out) = ((t, out'), .goto)) : out' = out := by
  simp only [dequeueState] at code
  split at code
  · cases code
    rfl
  · split at code <;> cases code
    rfl
  · split at code <;> cases code
    rfl
  · cases code

/-- **A call of `zero_strm_read` is a run of read events**, one for each of its states. -/
theorem zeroStrmRead_run (hw : RxHardware β D ι) {budget : ℕ} {s t : StreamRead β D}
    {ret : Bool} {out : Option β} (returned : List β)
    (called : zeroStrmRead budget s = some (ret, out, t)) :
    ∃ n ≤ budget, Run (ReadStep hw) ⟨s, returned⟩ (List.replicate n .read)
      ⟨t, returned ++ (if ret then out.toList else [])⟩ := by
  induction budget generalizing s with
  | zero => cases called
  | succ budget ih =>
      obtain ⟨⟨⟨u, out'⟩, ctl⟩, code⟩ : ∃ r, dequeueState (s, none) = r := ⟨_, rfl⟩
      cases ctl with
      | goto =>
          obtain rfl := dequeueState_goto_out code
          have called' : zeroStrmRead budget u = some (ret, out, t) := by
            rw [← called, zeroStrmRead, zeroStrmRead, call_goto code]
          obtain ⟨n, bound, run⟩ := ih called'
          refine ⟨n + 1, Nat.succ_le_succ bound, ⟨u, returned⟩, ?_, run⟩
          simp [ReadStep, readStep, code, returnedByte]
      | ret rt =>
          simp only [zeroStrmRead, call_ret code, Option.map_some, Option.some.injEq,
            Prod.mk.injEq] at called
          obtain ⟨rfl, rfl, rfl⟩ := called
          refine ⟨1, Nat.succ_le_succ (Nat.zero_le _), ⟨u, _⟩, ?_, rfl⟩
          simp [ReadStep, readStep, code, returnedByte]

/-! ## The machines between events -/

/-- Between events the flush machines are at `START`, and `dequeue` is at one of its states. -/
structure Quiet (s : StreamRead β D) : Prop where
  flushHt : s.fsmFlushHt.chState = StreamReadFlush.start
  timeOut : s.fsmTimeOut.chState = TimeOut.start
  dequeue : s.fsmDequeue.chState ≤ Dequeue.getByteFifo

theorem isReallyTimeOut_fsm (io : DmaRxIO β D) (s : StreamRead β D) :
    (isReallyTimeOut io s).2.fsmFlushHt = s.fsmFlushHt ∧
      (isReallyTimeOut io s).2.fsmDequeue = s.fsmDequeue := by
  obtain ⟨_, _, _, _, changed⟩ := isReallyTimeOut_changes io s
  rw [changed]
  exact ⟨rfl, rfl⟩

theorem isReallyTimeOut_bBusy (io : DmaRxIO β D) (s : StreamRead β D) :
    (isReallyTimeOut io s).2.bBusy = s.bBusy := by
  obtain ⟨_, _, _, _, changed⟩ := isReallyTimeOut_changes io s
  rw [changed]

theorem dequeueState_bBusy (s : StreamRead β D) (out : Option β) :
    (dequeueState (s, out)).1.1.bBusy = s.bBusy := by
  simp only [dequeueState]
  split
  · rfl
  · split <;> rfl
  · split <;> rfl
  · rfl

theorem dequeueState_fsm (s : StreamRead β D) (out : Option β) :
    (dequeueState (s, out)).1.1.fsmFlushHt = s.fsmFlushHt ∧
      (dequeueState (s, out)).1.1.fsmTimeOut = s.fsmTimeOut := by
  simp only [dequeueState]
  split
  · exact ⟨rfl, rfl⟩
  · split <;> exact ⟨rfl, rfl⟩
  · split <;> exact ⟨rfl, rfl⟩
  · exact ⟨rfl, rfl⟩

theorem dequeueState_chState {s : StreamRead β D} (out : Option β)
    (valid : s.fsmDequeue.chState ≤ Dequeue.getByteFifo) :
    (dequeueState (s, out)).1.1.fsmDequeue.chState ≤ Dequeue.getByteFifo := by
  have startState : Dequeue.start ≤ Dequeue.getByteFifo := by decide
  have outState : Dequeue.byteFifoOut ≤ Dequeue.getByteFifo := by decide
  simp only [dequeueState]
  split
  · exact outState
  · split
    · exact startState
    · exact le_rfl
  · split
    · exact valid
    · exact outState
  · exact valid

/-- **Every event leaves the machines between calls.** -/
theorem Quiet.step (hw : RxHardware β D ι) {s : ReadSystem β D} (quiet : Quiet s.strm)
    (e : ReadEvent ι) : Quiet (readStep hw s e).strm := by
  cases e with
  | arrive i => exact ⟨quiet.flushHt, quiet.timeOut, quiet.dequeue⟩
  | dmaHalf =>
      simp only [readStep, zeroStrmUartDmaGetDataInsertToDmaIrqEventHandler,
        flushHt_eq quiet.flushHt]
      exact ⟨rfl, quiet.timeOut, quiet.dequeue⟩
  | uartIdle => exact ⟨quiet.flushHt, quiet.timeOut, quiet.dequeue⟩
  | tick =>
      obtain ⟨flushHt, dequeue⟩ := isReallyTimeOut_fsm hw.toDmaRxIO s.strm
      simp only [readStep, zeroStrmUartWaitTimeOutInsertToHardTimerIrqEventHandler]
      cases really : (isReallyTimeOut hw.toDmaRxIO s.strm).1 with
      | false =>
          rw [timeOut_not_really quiet.timeOut really]
          exact ⟨flushHt ▸ quiet.flushHt, quiet.timeOut, dequeue ▸ quiet.dequeue⟩
      | true =>
          rw [timeOut_really quiet.timeOut really]
          exact ⟨flushHt ▸ quiet.flushHt, rfl, dequeue ▸ quiet.dequeue⟩
  | read =>
      obtain ⟨flushHt, timeOut⟩ := dequeueState_fsm s.strm none
      exact ⟨flushHt ▸ quiet.flushHt, timeOut ▸ quiet.timeOut,
        dequeueState_chState none quiet.dequeue⟩

theorem Quiet.kept {hw : RxHardware β D ι} {s t : ReadSystem β D} {e : ReadEvent ι}
    (quiet : Quiet s.strm) (step : ReadStep hw s e t) : Quiet t.strm := by
  rw [step]
  exact quiet.step hw e

/-- The machines are between calls in every state of a run. -/
theorem Quiet.run {hw : RxHardware β D ι} {s t : ReadSystem β D} {es : List (ReadEvent ι)}
    (quiet : Quiet s.strm) (run : Run (ReadStep hw) s es t) : Quiet t.strm :=
  run.invariant (fun u => Quiet u.strm) (fun _ _ _ quiet step => quiet.kept step) quiet

end ZeroStrm
