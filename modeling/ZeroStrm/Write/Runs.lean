import ZeroStrm.Library.Runs
import ZeroStrm.Write.Stream

/-!
# Runs of the sender

Three kinds of event drive the sender: the application calls `zero_strm_write`, a state of that
call runs, and a transfer is complete. One call is in progress at a time. A step of it is one
state of the innermost machine that is running (`innermostState`), which is the nested flush
while `enqueue` is in its `FLUSH` state. So the interrupt handler, which is atomic, may run
between any two states of the call and of its flush, and a call without interrupts is a run of
such steps (`zeroStrmWrite_run`).

`DmaTx` is the channel as the callback drives it, with the history of its starts. A complete
event can happen exactly while a transfer is in flight.
-/

set_option autoImplicit false

namespace ZeroStrm

open EventRuns

variable {β D : Type}

/-! ## One state of a write -/

/-- One state of the innermost machine that a call of `zero_strm_write` runs. -/
def innermostState (io : DmaTxIO β D) (tByte : β) : Fsm (StreamWrite β D) := fun s =>
  if s.fsmEnqueue.chState = Enqueue.flush then
    match streamWriteFlushState io currentBlock (s.fsmEnqueue.fsmFlush, s) with
    | ((this, t), .goto) => ({ t with fsmEnqueue := ⟨Enqueue.flush, this⟩ }, .goto)
    | ((this, t), .ret .cpl) => ({ t with fsmEnqueue := ⟨Enqueue.getByteFifo, this⟩ }, .goto)
    | ((this, t), .ret _) => ({ t with fsmEnqueue := ⟨Enqueue.flush, this⟩ }, .ret .onGoing)
  else enqueueState io tByte s

section Calls

variable {io : DmaTxIO β D} {tByte : β} {s t : StreamWrite β D}
  {this this' : FsmStreamWriteFlush} {rt : FsmRt} {budget : ℕ}

/-- The nested flush does not read the machine that calls it. -/
theorem streamWriteFlushState_frame (io : DmaTxIO β D) (this : FsmStreamWriteFlush)
    (s : StreamWrite β D) (f : FsmEnqueue) :
    streamWriteFlushState io currentBlock (this, { s with fsmEnqueue := f }) =
      let r := streamWriteFlushState io currentBlock (this, s)
      ((r.1.1, { r.1.2 with fsmEnqueue := f }), r.2) := by
  simp only [streamWriteFlushState, currentBlock]
  split
  · rfl
  · split <;> rfl
  · split <;> rfl
  · rfl

/-- The innermost machine of a call in `FLUSH` is the nested flush. -/
theorem innermostState_flush (io : DmaTxIO β D) (tByte : β) (s : StreamWrite β D)
    (inFlush : s.fsmEnqueue.chState = Enqueue.flush) :
    innermostState io tByte s =
      match streamWriteFlushState io currentBlock (s.fsmEnqueue.fsmFlush, s) with
      | ((this, t), .goto) => ({ t with fsmEnqueue := ⟨Enqueue.flush, this⟩ }, .goto)
      | ((this, t), .ret .cpl) => ({ t with fsmEnqueue := ⟨Enqueue.getByteFifo, this⟩ }, .goto)
      | ((this, t), .ret _) => ({ t with fsmEnqueue := ⟨Enqueue.flush, this⟩ }, .ret .onGoing) := by
  rw [innermostState, if_pos inFlush]

/-- Elsewhere it is `enqueue` itself. -/
theorem innermostState_enqueue (elsewhere : s.fsmEnqueue.chState ≠ Enqueue.flush) :
    innermostState io tByte s = enqueueState io tByte s := by
  rw [innermostState, if_neg elsewhere]

/-- **A nested flush that completes, state by state**, takes `enqueue` to `GET_BYTE_FIFO`. -/
theorem call_flush_cpl (tByte : β)
    (returned : call (streamWriteFlushState io currentBlock) budget (this, s) =
      ((this', t), some .cpl)) :
    ∃ n, ∀ more, call (innermostState io tByte) (n + more)
        { s with fsmEnqueue := ⟨Enqueue.flush, this⟩ } =
      call (innermostState io tByte) more
        { t with fsmEnqueue := ⟨Enqueue.getByteFifo, this'⟩ } := by
  induction budget generalizing this s with
  | zero => cases returned
  | succ budget ih =>
      have inner := innermostState_flush io tByte { s with fsmEnqueue := ⟨Enqueue.flush, this⟩ }
        rfl
      rw [streamWriteFlushState_frame] at inner
      obtain ⟨⟨⟨this₁, s₁⟩, ctl⟩, code⟩ :
          ∃ r, streamWriteFlushState io currentBlock (this, s) = r := ⟨_, rfl⟩
      simp only [code] at inner
      cases ctl with
      | goto =>
          rw [call_goto code] at returned
          obtain ⟨n, rest⟩ := ih returned
          refine ⟨n + 1, ?_⟩
          intro more
          rw [← rest more, Nat.add_right_comm]
          exact call_goto inner
      | ret rt =>
          rw [call_ret code] at returned
          cases returned
          refine ⟨1, ?_⟩
          intro more
          rw [Nat.add_comm]
          exact call_goto inner

/-- A flush that is called in one of its states completes. -/
theorem streamWriteFlush_cpl (io : DmaTxIO β D) (pptByteFifo : StreamWrite β D → Ptr)
    (s : StreamWrite β D) (valid : this.chState ≤ StreamWriteFlush.getBlock) :
    ∃ t, streamWriteFlush io pptByteFifo this s =
      ((⟨StreamWriteFlush.start⟩, t), some .cpl) := by
  have fromGet (budget : ℕ) (u : StreamWrite β D) :
      ∃ t, call (streamWriteFlushState io pptByteFifo) (budget + 1)
        (⟨StreamWriteFlush.getBlock⟩, u) = ((⟨StreamWriteFlush.start⟩, t), some .cpl) := by
    simp only [call, streamWriteFlushState]
    cases (zeroStrmBlockFetch u.tMemBlockFifo).1 <;> exact ⟨_, rfl⟩
  have fromBusy (budget : ℕ) (u : StreamWrite β D) :
      ∃ t, call (streamWriteFlushState io pptByteFifo) (budget + 2)
        (⟨StreamWriteFlush.isDmaBusy⟩, u) = ((⟨StreamWriteFlush.start⟩, t), some .cpl) := by
    rw [call]
    simp only [streamWriteFlushState]
    cases u.bBusy with
    | false => exact fromGet budget _
    | true => exact ⟨_, rfl⟩
  have states : this = ⟨StreamWriteFlush.start⟩ ∨ this = ⟨StreamWriteFlush.isDmaBusy⟩ ∨
      this = ⟨StreamWriteFlush.getBlock⟩ := by
    obtain ⟨chState⟩ := this
    simp only [FsmStreamWriteFlush.mk.injEq]
    change chState ≤ 2 at valid
    change chState = 0 ∨ chState = 1 ∨ chState = 2
    omega
  rcases states with rfl | rfl | rfl
  · exact fromBusy 0 _
  · exact fromBusy 1 s
  · exact fromGet 2 s

/-- `enqueue` keeps its nested flush in one of the states of that machine. -/
theorem enqueueState_valid (io : DmaTxIO β D) (tByte : β)
    (valid : s.fsmEnqueue.fsmFlush.chState ≤ StreamWriteFlush.getBlock) :
    (enqueueState io tByte s).1.fsmEnqueue.fsmFlush.chState ≤ StreamWriteFlush.getBlock := by
  simp only [enqueueState]
  split
  · exact valid
  · split
    · exact valid
    · exact Nat.zero_le _
  · obtain ⟨t, flushed⟩ := streamWriteFlush_cpl io currentBlock s valid
    rw [flushed]
    exact Nat.zero_le _
  · split <;> exact valid
  · exact valid

/-- **A call of `enqueue` can be taken state by state of the innermost machine.** -/
theorem call_enqueue_innermost
    (valid : s.fsmEnqueue.fsmFlush.chState ≤ StreamWriteFlush.getBlock)
    (returned : call (enqueueState io tByte) budget s = (t, some rt)) :
    ∃ n, call (innermostState io tByte) n s = (t, some rt) := by
  induction budget generalizing s with
  | zero => cases returned
  | succ budget ih =>
      have next := enqueueState_valid io tByte valid
      by_cases inFlush : s.fsmEnqueue.chState = Enqueue.flush
      · obtain ⟨u, flushed⟩ := streamWriteFlush_cpl io currentBlock s valid
        have code : enqueueState io tByte s =
            ({ u with fsmEnqueue := ⟨Enqueue.getByteFifo, ⟨StreamWriteFlush.start⟩⟩ },
              .goto) := by
          simp only [enqueueState, inFlush, flushed, if_true]
        rw [code] at next
        rw [call_goto code] at returned
        obtain ⟨n, rest⟩ := ih next returned
        obtain ⟨k, nested⟩ := call_flush_cpl tByte flushed
        refine ⟨k + n, ?_⟩
        rw [← rest, ← nested n, ← inFlush]
      · obtain ⟨⟨u, ctl⟩, code⟩ : ∃ r, enqueueState io tByte s = r := ⟨_, rfl⟩
        have inner := (innermostState_enqueue inFlush).trans code
        rw [code] at next
        cases ctl with
        | goto =>
            rw [call_goto code] at returned
            obtain ⟨n, rest⟩ := ih next returned
            exact ⟨n + 1, by rw [call_goto inner, rest]⟩
        | ret rt' =>
            rw [call_ret code] at returned
            exact ⟨1, by rw [call_ret inner, returned]⟩

end Calls

/-! ## The system -/

/-- The transmit channel and its history. -/
structure DmaTx (β : Type) where
  /-- The block of the transfer in flight. -/
  inFlight : Option Addr
  /-- The blocks handed to `fnDmaStart`, with the bytes they had at that moment. -/
  started : List (Addr × List β)
  /-- A start happened while a transfer was in flight. -/
  overlapped : Bool

/-- A channel that was never started. -/
def DmaTx.reset : DmaTx β := ⟨none, [], false⟩

/-- The callback starts a transfer. -/
def dmaTx : DmaTxIO β (DmaTx β) where
  fnDmaStart m block d :=
    { inFlight := some block
      started := d.started ++ [(block, m.blockBytes block)]
      overlapped := d.overlapped || d.inFlight.isSome }

/-- The transfer in flight ends. -/
def DmaTx.complete (d : DmaTx β) : DmaTx β := { d with inFlight := none }

inductive WriteEvent (β : Type) where
  /-- The application calls `zero_strm_write`. -/
  | write (tByte : β)
  /-- One state of the call in progress. -/
  | step
  /-- A transfer is complete. -/
  | complete
  deriving DecidableEq, Repr

/-- The events that are no states of the call. -/
def WriteEvent.isExternal : WriteEvent β → Bool
  | .step => false
  | _ => true

theorem WriteEvent.isExternal_iff (e : WriteEvent β) : e.isExternal = false ↔ e = .step := by
  cases e with
  | step => exact ⟨fun _ => rfl, fun _ => rfl⟩
  | _ => exact ⟨nofun, nofun⟩

/-- A sender on that channel. -/
abbrev TxStream (β : Type) := StreamWrite β (DmaTx β)

/-- The stream, the byte of the call in progress, and three logs: the bytes of the calls that
returned true, the bytes that `zero_strm_enqueue_byte_fifo` stored, and the pointer that each
complete event found in `ptFifoSend`. That this is the block which the event puts on the free list
is a theorem (`WriteOwnedBy.step`). -/
structure WriteSystem (β : Type) where
  strm : TxStream β
  calling : Option β
  accepted : List β
  enqueued : List β
  freed : List Ptr

/-- The byte that this state of `enqueue` stores, if it is in `BYTE_FIFO_IN` and there is room. -/
def storedByte (s : StreamWrite β D) (tByte : β) : List β :=
  if s.fsmEnqueue.chState = Enqueue.byteFifoIn ∧
    (zeroStrmEnqueueByteFifo s.tMemBlockFifo s.tByteFifo tByte).1 = true then [tByte] else []

/-- The byte that is accepted when a call returns true. -/
def acceptedByte (ctl : Ctl) (tByte : β) : List β := if ctl = .ret .cpl then [tByte] else []

/-- A state of the call in progress. -/
def callStep (s : WriteSystem β) (tByte : β) : WriteSystem β :=
  let code := innermostState dmaTx tByte s.strm
  { strm := code.1
    calling := if code.2 = .goto then some tByte else none
    accepted := s.accepted ++ acceptedByte code.2 tByte
    enqueued := s.enqueued ++ storedByte s.strm tByte
    freed := s.freed }

/-- The stream after the transfer in flight has ended and its interrupt has run. -/
def completed (s : TxStream β) : TxStream β :=
  zeroStrmDmaSendDataCplEventHandler dmaTx { s with dma := s.dma.complete }

/-- A transfer ends, and its interrupt runs. -/
def completeStep (s : WriteSystem β) : WriteSystem β :=
  { s with strm := completed s.strm, freed := s.freed ++ [s.strm.ptFifoSend] }

/-- What an event does, when it can happen. -/
inductive WriteStep : StepRel (WriteSystem β) (WriteEvent β)
  | write {s : WriteSystem β} (idle : s.calling = none) (tByte : β) :
      WriteStep s (.write tByte) { s with calling := some tByte }
  | step {s : WriteSystem β} {tByte : β} (calling : s.calling = some tByte) :
      WriteStep s .step (callStep s tByte)
  | complete {s : WriteSystem β} {block : Addr} (inFlight : s.strm.dma.inFlight = some block) :
      WriteStep s .complete (completeStep s)

/-- A complete event happens while a transfer is in flight. -/
theorem WriteStep.completes {s t : WriteSystem β} (step : WriteStep s .complete t) :
    ∃ block, s.strm.dma.inFlight = some block ∧ t = completeStep s := by
  cases step with
  | complete inFlight => exact ⟨_, inFlight, rfl⟩

theorem writeStep_deterministic : Deterministic (WriteStep (β := β)) := by
  intro s e t u first second
  cases first with
  | write idle tByte =>
      cases second
      rfl
  | step calling =>
      cases second with
      | step calling' =>
          rw [calling] at calling'
          cases calling'
          rfl
  | complete inFlight =>
      cases second
      rfl

/-- A run from `zero_strm_write_init`. -/
def WriteRun (step : StepRel (WriteSystem β) (WriteEvent β)) (cfg : StreamWriteCfg)
    (m : MemBlkFifo β) (es : List (WriteEvent β)) (t : WriteSystem β) : Prop :=
  ∃ s, zeroStrmWriteInit cfg m DmaTx.reset = some s ∧ Run step ⟨s, none, [], [], []⟩ es t

/-! ## Whole calls of `zero_strm_write` -/

theorem call_innermost_run {budget : ℕ} {s : WriteSystem β} {t : TxStream β} {tByte : β}
    {rt : FsmRt} (calling : s.calling = some tByte)
    (returned : call (innermostState dmaTx tByte) budget s.strm = (t, some rt)) :
    ∃ n u, Run WriteStep s (List.replicate n .step) u ∧ u.strm = t ∧ u.calling = none ∧
      u.accepted = s.accepted ++ acceptedByte (.ret rt) tByte := by
  induction budget generalizing s with
  | zero => cases returned
  | succ budget ih =>
      have step : WriteStep s .step (callStep s tByte) := .step calling
      obtain ⟨⟨v, ctl⟩, code⟩ : ∃ r, innermostState dmaTx tByte s.strm = r := ⟨_, rfl⟩
      cases ctl with
      | goto =>
          rw [call_goto code] at returned
          have strm : (callStep s tByte).strm = v := by simp only [callStep, code]
          have still : (callStep s tByte).calling = some tByte := by
            simp only [callStep, code, if_true]
          rw [← strm] at returned
          obtain ⟨n, u, run, same, ended, accepted⟩ := ih still returned
          refine ⟨n + 1, u, ⟨_, step, run⟩, same, ended, accepted.trans ?_⟩
          simp [callStep, code, acceptedByte]
      | ret rt' =>
          rw [call_ret code] at returned
          cases returned
          refine ⟨1, _, ⟨_, step, rfl⟩, ?_, ?_, ?_⟩ <;> simp [callStep, code]

/-- **A call of `zero_strm_write` is a run**: the call, and one event for each state. -/
theorem zeroStrmWrite_run {budget : ℕ} {s : WriteSystem β} {t : TxStream β} {tByte : β}
    {ret : Bool} (idle : s.calling = none)
    (valid : s.strm.fsmEnqueue.fsmFlush.chState ≤ StreamWriteFlush.getBlock)
    (called : zeroStrmWrite dmaTx budget s.strm tByte = some (ret, t)) :
    ∃ n u, Run WriteStep s (.write tByte :: List.replicate n .step) u ∧ u.strm = t ∧
      u.calling = none ∧ u.accepted = s.accepted ++ if ret then [tByte] else [] := by
  obtain ⟨⟨t', rt | rt⟩, returned⟩ :
      ∃ r, call (enqueueState dmaTx tByte) budget s.strm = r := ⟨_, rfl⟩
  · simp [zeroStrmWrite, returned] at called
  · simp only [zeroStrmWrite, returned, Option.map_some, Option.some.injEq, Prod.mk.injEq]
      at called
    obtain ⟨rfl, rfl⟩ := called
    obtain ⟨k, inner⟩ := call_enqueue_innermost valid returned
    have begun : ({ s with calling := some tByte } : WriteSystem β).calling = some tByte := rfl
    obtain ⟨n, u, run, same, ended, accepted⟩ := call_innermost_run begun inner
    refine ⟨n, u, ⟨_, .write idle tByte, run⟩, same, ended, accepted.trans ?_⟩
    simp [acceptedByte]

end ZeroStrm
