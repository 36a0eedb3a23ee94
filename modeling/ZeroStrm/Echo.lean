import ZeroStrm.Read.Delivery
import ZeroStrm.Read.Safety
import ZeroStrm.Write.Progress

/-!
# The echo

`main.c` of the example puts the two halves together. Its loop calls `zero_strm_read` and passes
each byte that it gets to `printf`, which ends in `stdout_putchar`, and that calls
`zero_strm_write` once. What `zero_strm_write` answers is not looked at: a byte that is refused
is gone.

The loop, the handlers of the receiver and the interrupt of the transmit channel are the three
parties of one system (`EchoStep`). The loop runs one state of one machine at a time, so any
interrupt may come between any two states. Each half of a run of the system is a run of that half
(`EchoInv`), so what is known of the halves holds in the system.

Four results. What is sent is a part of what was received, in its order (`echo_order`). A byte is
dropped only while the accepted bytes that wait fill every block of the sender, and the call that
drops it leaves every other byte where it is (`echo_drops`). As long as that does not happen the
echo is one lossless channel, from the bytes that the receive channel stores to those that the
transmit channel is started with (`echo_lossless`). And the loop never gets stuck: in a bounded
number of states it offers every flushed byte to the sender (`echo_catchesUp`).
-/

set_option autoImplicit false

namespace ZeroStrm

open EventRuns FifoChannel

variable {β : Type}

/-! ## The system -/

/-- The two streams, the characters that `printf` has still to pass on, and the calls of
`zero_strm_write` that have returned, with their answers. -/
structure EchoSystem (β : Type) where
  rx : ReadSystem β (DmaRx β)
  tx : WriteSystem β
  printing : List β
  offered : List (β × Bool)

inductive EchoEvent (β : Type) where
  /-- The loop of `main` runs a state. -/
  | main
  /-- An event of the receiver that is no state of a call. -/
  | rx (e : ReadEvent β)
  /-- A transfer is complete. -/
  | complete

/-- The call that a state has ended, and its answer. -/
def finishedCall (ctl : Ctl) (tByte : β) : List (β × Bool) :=
  match ctl with
  | .goto => []
  | .ret rt => [(tByte, rt = .cpl)]

/-- A state of the loop of `main`. `printed` are the characters that `printf("%c", chByte)`
passes to `stdout_putchar`. -/
def mainStep (printed : β → List β) (s : EchoSystem β) : EchoSystem β :=
  match s.tx.calling, s.printing with
  | some tByte, _ =>
    -- a state of `zero_strm_write`
    { s with
      tx := callStep s.tx tByte
      offered := s.offered ++ finishedCall (innermostState dmaTx tByte s.tx.strm).2 tByte }
  | none, ch :: printing =>
    -- `stdout_putchar` calls `zero_strm_write`
    { s with tx := { s.tx with calling := some ch }, printing := printing }
  | none, [] =>
    -- a state of `zero_strm_read`, and `printf` for the byte that it returns
    { s with
      rx := readStep dmaRx s.rx .read
      printing := (returnedByte (dequeueState (s.rx.strm, none))).flatMap printed }

/-- What an event does, when it can happen. -/
inductive EchoStep (printed : β → List β) : StepRel (EchoSystem β) (EchoEvent β)
  | main {s : EchoSystem β} : EchoStep printed s .main (mainStep printed s)
  | rx {s : EchoSystem β} {e : ReadEvent β} (handler : e.isHandler = true) :
      EchoStep printed s (.rx e) { s with rx := readStep dmaRx s.rx e }
  | complete {s : EchoSystem β} {block : Addr} (inFlight : s.tx.strm.dma.inFlight = some block) :
      EchoStep printed s .complete { s with tx := completeStep s.tx }

/-- A flush of the receiver that has data to append finds a block. -/
def EchoFindsBlock (s : EchoSystem β) : EchoEvent β → Prop
  | .rx e => FlushFindsBlock s.rx e
  | _ => True

/-- A run of the example from its two initialisations. -/
def EchoRun (printed : β → List β) (rcfg : StreamReadCfg) (wcfg : StreamWriteCfg)
    (mr mw : MemBlkFifo β) (guard : EchoSystem β → EchoEvent β → Prop) (es : List (EchoEvent β))
    (t : EchoSystem β) : Prop :=
  ∃ r w, zeroStrmReadInit dmaRx.toDmaRxIO rcfg mr DmaRx.reset = some r ∧
    zeroStrmWriteInit wcfg mw DmaTx.reset = some w ∧
    Run (guarded (EchoStep printed) guard) ⟨⟨r, []⟩, ⟨w, none, [], [], []⟩, [], []⟩ es t

/-! ## The halves of a run -/

/-- What joins the halves. The returned bytes, printed, are those that were offered to the
sender, the one it is called with and those that `printf` has left. The sender has accepted those
of the offered bytes that it answered `true` for. -/
structure EchoInv (printed : β → List β) (wcfg : StreamWriteCfg) (mw : MemBlkFifo β)
    (s : EchoSystem β) : Prop where
  tx : ∃ es, WriteRun WriteStep wcfg mw es s.tx
  offered : s.rx.returned.flatMap printed =
    s.offered.map Prod.fst ++ (s.tx.calling.toList ++ s.printing)
  accepted : s.tx.accepted = (s.offered.filter Prod.snd).map Prod.fst

section Steps

variable {printed : β → List β} {wcfg : StreamWriteCfg} {mw : MemBlkFifo β}
  {s t : EchoSystem β} {e : EchoEvent β}

/-- What a state of the loop does: a state of `zero_strm_write`, the call of it in
`stdout_putchar`, or a state of `zero_strm_read`. -/
inductive MainEffect (printed : β → List β) (s : EchoSystem β) : EchoSystem β → Prop
  | write {tByte : β} (calling : s.tx.calling = some tByte) :
      MainEffect printed s
        { s with
          tx := callStep s.tx tByte
          offered := s.offered ++ finishedCall (innermostState dmaTx tByte s.tx.strm).2 tByte }
  | putchar {ch : β} {rest : List β} (outside : s.tx.calling = none)
      (printing : s.printing = ch :: rest) :
      MainEffect printed s { s with tx := { s.tx with calling := some ch }, printing := rest }
  | read (outside : s.tx.calling = none) (printing : s.printing = []) :
      MainEffect printed s
        { s with
          rx := readStep dmaRx s.rx .read
          printing := (returnedByte (dequeueState (s.rx.strm, none))).flatMap printed }

theorem mainStep_effect (printed : β → List β) (s : EchoSystem β) :
    MainEffect printed s (mainStep printed s) := by
  unfold mainStep
  split
  · next calling => exact .write calling
  · next outside printing => exact .putchar outside printing
  · next outside printing => exact .read outside printing

theorem acceptedByte_eq (ctl : Ctl) (tByte : β) :
    acceptedByte ctl tByte = ((finishedCall ctl tByte).filter Prod.snd).map Prod.fst := by
  cases ctl with
  | goto => rfl
  | ret rt => cases rt <;> rfl

theorem calling_callStep (w : WriteSystem β) (tByte : β) :
    some tByte = (callStep w tByte).calling ∧
        finishedCall (innermostState dmaTx tByte w.strm).2 tByte = [] ∨
      (callStep w tByte).calling = none ∧
        (finishedCall (innermostState dmaTx tByte w.strm).2 tByte).map Prod.fst = [tByte] := by
  simp only [callStep]
  cases (innermostState dmaTx tByte w.strm).2 with
  | goto => exact .inl ⟨rfl, rfl⟩
  | ret rt => exact .inr ⟨rfl, rfl⟩

/-- **The loop keeps the halves together.** -/
theorem EchoInv.main (inv : EchoInv printed wcfg mw s) (effect : MainEffect printed s t) :
    EchoInv printed wcfg mw t := by
  obtain ⟨⟨ws, tx⟩, offered, accepted⟩ := inv
  cases effect with
  | @write tByte calling =>
      refine ⟨⟨_, tx.concat (.step calling)⟩, ?_, ?_⟩
      · rw [offered, calling]
        dsimp only
        rcases calling_callStep s.tx tByte with ⟨still, goesOn⟩ | ⟨ended, one⟩
        · rw [← still, goesOn, List.append_nil]
        · rw [ended, List.map_append, one]
          simp
      · change s.tx.accepted ++ acceptedByte _ tByte = _
        rw [accepted, acceptedByte_eq, List.filter_append, List.map_append]
  | @putchar ch _ outside printing =>
      rw [outside, printing] at offered
      exact ⟨⟨_, tx.concat (.write outside ch)⟩, offered, accepted⟩
  | read outside printing =>
      rw [printing] at offered
      refine ⟨⟨ws, tx⟩, ?_, accepted⟩
      change (s.rx.returned ++ _).flatMap printed = _
      rw [List.flatMap_append, offered, outside]
      simp

/-- **Every step keeps the halves together.** -/
theorem EchoInv.kept (inv : EchoInv printed wcfg mw s) (step : EchoStep printed s e t) :
    EchoInv printed wcfg mw t := by
  cases step with
  | main => exact inv.main (mainStep_effect printed s)
  | @rx _ d handler =>
      obtain ⟨tx, offered, accepted⟩ := inv
      have returned : (readStep dmaRx s.rx d).returned = s.rx.returned := by
        cases d with
        | read => cases handler
        | _ => rfl
      refine ⟨tx, ?_, accepted⟩
      rw [← offered]
      exact congrArg (List.flatMap printed) returned
  | complete inFlight =>
      obtain ⟨⟨ws, tx⟩, offered, accepted⟩ := inv
      exact ⟨⟨_, tx.concat (.complete inFlight)⟩, offered, accepted⟩

theorem EchoStep.receiver (finds : EchoFindsBlock s e) (step : EchoStep printed s e t) :
    t.rx = s.rx ∨ ∃ d, guarded (ReadStep dmaRx) FlushFindsBlock s.rx d t.rx := by
  cases step with
  | main =>
      have effect := mainStep_effect printed s
      generalize mainStep printed s = u at effect
      cases effect with
      | write => exact .inl rfl
      | putchar => exact .inl rfl
      | read => exact .inr ⟨.read, nofun, rfl⟩
  | @rx _ d handler => exact .inr ⟨d, finds, rfl⟩
  | complete inFlight => exact .inl rfl

/-- **The state that refuses a call changes nothing**, does not store a byte, and finds a full
sender. -/
theorem WriteRun.refused {ws : List (WriteEvent β)} {w : WriteSystem β} {tByte ch : β}
    (positive : 0 < wcfg.writeBuffCnt) (small : wcfg.writeBuffCnt < 2 ^ 16)
    (run : WriteRun WriteStep wcfg mw ws w)
    (refused : (ch, false) ∈ finishedCall (innermostState dmaTx tByte w.strm).2 tByte) :
    callStep w tByte = { w with calling := none } ∧ ¬ StoresNext w.strm ∧
      (pendingBytes w).length = wcfg.chCnt * wcfg.writeBuffCnt := by
  obtain ⟨free, queue, counted⟩ := run.counted positive small
  have effect := innermostState_effect dmaTx tByte counted.busy.busy.place
  have ends := effect.ends positive small counted.filled
  have stored := effect.storedByte
  simp only [callStep, stored]
  generalize innermostState dmaTx tByte w.strm = r at ends refused
  clear stored effect
  cases ends with
  | goesOn ctl => rw [ctl] at refused; cases refused
  | takes ctl => rw [ctl] at refused; cases refused
  | stored ctl => rw [ctl] at refused; cases List.mem_singleton.mp refused
  | parks ctl still parked noBlock =>
      refine ⟨?_, ?_, counted.pending_parked parked noBlock⟩
      · rw [ctl, still]
        simp [acceptedByte]
      · rintro ⟨here, -⟩
        rw [parked] at here
        cases here

/-- What holds of the sender, since a state `t`, as long as no call ends: its bytes are as they
were, or the call in progress has taken a block and is about to store its byte. -/
structure Offering (wcfg : StreamWriteCfg) (mw : MemBlkFifo β) (t s : EchoSystem β) : Prop where
  tx : ∃ ws, WriteRun WriteStep wcfg mw ws s.tx
  grows : t.offered <+: s.offered
  untouched : s.offered = t.offered → s.tx.accepted = t.tx.accepted ∧
    (SameBytes t.tx.strm s.tx.strm ∨ StoresNext s.tx.strm)

/-- A step that leaves the stream of the sender and the answers alone. -/
theorem Offering.rests {u : EchoSystem β} (offering : Offering wcfg mw t s)
    (tx : ∃ ws, WriteRun WriteStep wcfg mw ws u.tx)
    (same : u.tx.strm = s.tx.strm ∧ u.tx.accepted = s.tx.accepted ∧ u.offered = s.offered) :
    Offering wcfg mw t u := by
  obtain ⟨strm, accepted, offered⟩ := same
  refine ⟨tx, offered ▸ offering.grows, ?_⟩
  rw [strm, accepted, offered]
  exact offering.untouched

/-- **A state of a call** goes on with the bytes as they were, takes a block, or ends the call. -/
theorem Offering.write {tByte : β} (positive : 0 < wcfg.writeBuffCnt)
    (small : wcfg.writeBuffCnt < 2 ^ 16) (offering : Offering wcfg mw t s)
    (calling : s.tx.calling = some tByte) :
    Offering wcfg mw t
      { s with
        tx := callStep s.tx tByte
        offered := s.offered ++ finishedCall (innermostState dmaTx tByte s.tx.strm).2 tByte } := by
  obtain ⟨⟨ws, tx⟩, grows, untouched⟩ := offering
  obtain ⟨free, queue, counted⟩ := tx.counted positive small
  have ends := (innermostState_effect dmaTx tByte counted.busy.busy.place).ends positive small
    counted.filled
  refine ⟨⟨_, tx.concat (.step calling)⟩, grows.trans (List.prefix_append ..), ?_⟩
  dsimp only [callStep]
  intro same
  have before : s.offered = t.offered := by
    refine List.IsPrefix.eq_of_length_le ?_ grows.length_le
    exact ⟨_, same⟩
  rw [before] at same
  have unended := List.append_right_eq_self.mp same
  obtain ⟨accepted, bytes⟩ := untouched before
  cases ends with
  | goesOn ctl less kept storesNot =>
      refine ⟨?_, .inl ((bytes.resolve_right storesNot).trans kept)⟩
      rw [ctl, acceptedByte, if_neg (by decide), List.append_nil, accepted]
  | takes ctl less stores =>
      refine ⟨?_, .inr stores⟩
      rw [ctl, acceptedByte, if_neg (by decide), List.append_nil, accepted]
  | stored ctl => rw [ctl] at unended; cases unended
  | parks ctl => rw [ctl] at unended; cases unended

/-- **Every step** keeps that, a complete event in the middle of a call too. -/
theorem Offering.kept (positive : 0 < wcfg.writeBuffCnt) (small : wcfg.writeBuffCnt < 2 ^ 16)
    {u : EchoSystem β} (offering : Offering wcfg mw t s) (step : EchoStep printed s e u) :
    Offering wcfg mw t u := by
  have tx := offering.tx
  cases step with
  | main =>
      have effect := mainStep_effect printed s
      generalize mainStep printed s = u at effect
      cases effect with
      | write calling => exact offering.write positive small calling
      | @putchar ch _ outside printing =>
          obtain ⟨ws, tx⟩ := tx
          exact offering.rests ⟨_, tx.concat (.write outside ch)⟩ ⟨rfl, rfl, rfl⟩
      | read => exact offering.rests tx ⟨rfl, rfl, rfl⟩
  | rx => exact offering.rests tx ⟨rfl, rfl, rfl⟩
  | complete inFlight =>
      obtain ⟨ws, tx⟩ := tx
      obtain ⟨free, queue, counted⟩ := tx.counted positive small
      have busy := counted.busy.busy
      refine ⟨⟨_, tx.concat (.complete inFlight)⟩, offering.grows, ?_⟩
      intro same
      obtain ⟨accepted, bytes | ⟨here, room⟩⟩ := offering.untouched same
      · exact ⟨accepted, .inl (bytes.trans (completed_sameBytes busy))⟩
      · obtain ⟨place, fifo, -⟩ := (completed_sends busy.auto busy.nothing).frame
        have place' : (completed s.tx.strm).fsmEnqueue = s.tx.strm.fsmEnqueue := place
        have fifo' : (completed s.tx.strm).tByteFifo = s.tx.strm.tByteFifo := fifo
        refine ⟨accepted, .inr ?_⟩
        change StoresNext (completed s.tx.strm)
        rw [StoresNext, place', fifo']
        exact ⟨here, room⟩

end Steps

/-! ## Runs -/

section Runs

variable {printed : β → List β} {rcfg : StreamReadCfg} {wcfg : StreamWriteCfg}
  {mr mw : MemBlkFifo β} {guard : EchoSystem β → EchoEvent β → Prop} {s t : EchoSystem β}
  {e : EchoEvent β} {es : List (EchoEvent β)}

theorem EchoRun.inv (run : EchoRun printed rcfg wcfg mr mw guard es t) :
    EchoInv printed wcfg mw t := by
  obtain ⟨r, w, initR, initW, run⟩ := run
  exact run.invariant _ (fun _ _ _ inv step => inv.kept step.2) ⟨⟨[], w, initW, rfl⟩, rfl, rfl⟩

/-- While the flushes find blocks the receiver is a lossless channel. -/
theorem EchoRun.shows (positive : 0 < rcfg.readBuffCnt) (small : rcfg.readBuffCnt < 2 ^ 16)
    (finds : ∀ s e, guard s e → EchoFindsBlock s e)
    (run : EchoRun printed rcfg wcfg mr mw guard es t) :
    ∃ c, Shows rcfg.chCnt rcfg.readBuffCnt t.rx c ∧ c.Lossless := by
  obtain ⟨r, w, initR, initW, run⟩ := run
  refine run.invariant (fun u => ∃ c, Shows rcfg.chCnt rcfg.readBuffCnt u.rx c ∧ c.Lossless) ?_
    ((zeroStrmReadInit_spec initR).shows positive small)
  rintro u e v shows ⟨met, step⟩
  rcases step.receiver (finds u e met) with same | ⟨d, taken⟩
  · rw [same]
    exact shows
  · exact (read_refines small).kept taken shows

/-- **A byte is dropped only by a full sender.** Let `t` be a state since which no call of
`zero_strm_write` has ended, such as the one before a call. When that call, however it was
interrupted, is refused, then the accepted bytes that wait for their transfer fill every block.
Since `t` nothing was accepted and no byte, no size and no ring of the sender has changed, and what
the sender carries are the accepted bytes. (Blocks may have been queued, sent and freed.) -/
theorem echo_drops {fs : List (EchoEvent β)} {u : EchoSystem β}
    (positive : 0 < wcfg.writeBuffCnt) (small : wcfg.writeBuffCnt < 2 ^ 16)
    (run : EchoRun printed rcfg wcfg mr mw (fun _ _ => True) es t)
    (goesOn : Run (EchoStep printed) t fs u) (unended : u.offered = t.offered)
    (step : EchoStep printed u e s) {ch : β} (dropped : s.offered = t.offered ++ [(ch, false)]) :
    (pendingBytes s.tx).length = wcfg.chCnt * wcfg.writeBuffCnt ∧
      s.tx = { u.tx with calling := none } ∧ s.tx.accepted = t.tx.accepted ∧
      SameBytes t.tx.strm s.tx.strm ∧ Carries s.tx.strm t.tx.accepted := by
  have start : Offering wcfg mw t t :=
    ⟨run.inv.tx, List.prefix_rfl, fun _ => ⟨rfl, .inl ⟨rfl, rfl, rfl, rfl⟩⟩⟩
  have offering : Offering wcfg mw t u :=
    goesOn.invariant _ (fun _ _ _ inv taken => inv.kept positive small taken) start
  obtain ⟨accepted, bytes⟩ := offering.untouched unended
  obtain ⟨ws, tx⟩ := offering.tx
  have ended : s.offered ≠ u.offered := by
    rw [dropped, unended]
    simp
  cases step with
  | rx => exact absurd rfl ended
  | complete => exact absurd rfl ended
  | main =>
      have effect := mainStep_effect printed u
      generalize mainStep printed u = v at effect dropped ended ⊢
      cases effect with
      | putchar => exact absurd rfl ended
      | read => exact absurd rfl ended
      | @write tByte calling =>
          dsimp only at dropped
          rw [unended] at dropped
          have refused : finishedCall (innermostState dmaTx tByte u.tx.strm).2 tByte =
            [(ch, false)] := List.append_cancel_left dropped
          obtain ⟨same, storesNot, full⟩ :=
            tx.refused positive small (refused ▸ List.mem_singleton_self _)
          obtain ⟨free, queue, counted⟩ := tx.counted positive small
          dsimp only
          rw [same]
          refine ⟨full, rfl, accepted, bytes.resolve_right storesNot, free, queue,
            counted.filled.owned.represents, ?_⟩
          rw [← accepted]
          exact counted.accepted.symm

/-- **What is sent is a part of what was received, in its order.** No byte is made up, doubled or
overtaken on the way, whatever the interrupts do and whatever the sender refuses. -/
theorem echo_order (plain : ∀ b, printed b = [b]) (positiveR : 0 < rcfg.readBuffCnt)
    (smallR : rcfg.readBuffCnt < 2 ^ 16) (positiveW : 0 < wcfg.writeBuffCnt)
    (smallW : wcfg.writeBuffCnt < 2 ^ 16)
    (run : EchoRun printed rcfg wcfg mr mw EchoFindsBlock es t) :
    List.Sublist (startedBytes t.tx.strm) t.rx.strm.dma.stored := by
  obtain ⟨⟨ws, tx⟩, offered, accepted⟩ := run.inv
  obtain ⟨_, ⟨-, free, queue, -, rfl⟩, lossless⟩ := run.shows positiveR smallR fun _ _ met => met
  obtain ⟨free', queue', counted⟩ := tx.counted positiveW smallW
  have same : t.rx.returned.flatMap printed = t.rx.returned := by
    rw [funext plain]
    exact List.flatMap_singleton' _
  have sent : startedBytes t.tx.strm <+: t.tx.accepted := ⟨_, counted.accepted.symm⟩
  have kept : List.Sublist t.tx.accepted (t.offered.map Prod.fst) := by
    rw [accepted]
    exact (List.filter_sublist).map Prod.fst
  have passed : t.offered.map Prod.fst <+: t.rx.returned := ⟨_, (same ▸ offered).symm⟩
  exact ((sent.sublist.trans kept).trans passed.sublist).trans lossless.received_prefix.sublist

/-- The sender has room when a state of one of its calls runs, and flushes find blocks. -/
def EchoRoom (wcfg : StreamWriteCfg) (s : EchoSystem β) (e : EchoEvent β) : Prop :=
  EchoFindsBlock s e ∧ (e = .main → s.tx.calling ≠ none →
    (pendingBytes s.tx).length < wcfg.chCnt * wcfg.writeBuffCnt)

/-- With room, the sender answers `true` to everything. -/
theorem EchoRun.answered (positive : 0 < wcfg.writeBuffCnt) (small : wcfg.writeBuffCnt < 2 ^ 16)
    (run : EchoRun printed rcfg wcfg mr mw (EchoRoom wcfg) es t) :
    ∀ call ∈ t.offered, call.2 = true := by
  obtain ⟨r, w, initR, initW, run⟩ := run
  refine (run.invariant (fun u => EchoInv printed wcfg mw u ∧ ∀ call ∈ u.offered, call.2 = true) ?_
    ⟨⟨⟨[], w, initW, rfl⟩, rfl, rfl⟩, nofun⟩).2
  rintro u e v ⟨inv, answered⟩ ⟨⟨-, room⟩, step⟩
  refine ⟨inv.kept step, ?_⟩
  obtain ⟨⟨ws, tx⟩, -, -⟩ := inv
  cases step with
  | rx => exact answered
  | complete => exact answered
  | main =>
      have effect := mainStep_effect printed u
      generalize mainStep printed u = v at effect ⊢
      cases effect with
      | putchar => exact answered
      | read => exact answered
      | @write tByte calling =>
          have fits := room rfl (by rw [calling]; nofun)
          rintro ⟨ch, answer⟩ member
          rcases List.mem_append.mp member with before | now
          · exact answered (ch, answer) before
          · cases answer with
            | true => rfl
            | false => exact absurd (tx.refused positive small now).2.2 fits.ne

/-- **The echo is one lossless channel**, as long as flushes find blocks and the sender has room.
The bytes stored by the receive channel are, in order: those that the transmit channel was
started with, those of the sender's queued blocks and of its current one, the one that
`zero_strm_write` is called with, and those that the receiver has not returned. -/
theorem echo_lossless (plain : ∀ b, printed b = [b]) (positiveR : 0 < rcfg.readBuffCnt)
    (smallR : rcfg.readBuffCnt < 2 ^ 16) (positiveW : 0 < wcfg.writeBuffCnt)
    (smallW : wcfg.writeBuffCnt < 2 ^ 16)
    (run : EchoRun printed rcfg wcfg mr mw (EchoRoom wcfg) es t) :
    ∃ freeR queueR freeW queueW, Represents t.rx.strm.tMemBlockFifo freeR queueR ∧
      Represents t.tx.strm.tMemBlockFifo freeW queueW ∧
      t.rx.strm.dma.stored = startedBytes t.tx.strm ++
        ((queueBytes t.tx.strm queueW ++ currentBytes t.tx.strm) ++
          ((t.tx.calling.toList ++ t.printing) ++
            (available t.rx.strm queueR ++ dmaBytes t.rx.strm))) := by
  obtain ⟨⟨ws, tx⟩, offered, accepted⟩ := run.inv
  have answered := run.answered positiveW smallW
  obtain ⟨_, ⟨-, freeR, queueR, flow, rfl⟩, received⟩ :=
    run.shows positiveR smallR fun _ _ met => met.1
  obtain ⟨_, ⟨freeW, queueW, -, filled, enqueued, rfl⟩, sent⟩ := tx.shows positiveW smallW
  have same : t.rx.returned.flatMap printed = t.rx.returned := by
    rw [funext plain]
    exact List.flatMap_singleton' _
  have everything : t.tx.accepted = t.offered.map Prod.fst := by
    rw [accepted, List.filter_eq_self.mpr answered]
  have joined : t.rx.returned = t.tx.enqueued ++ (t.tx.calling.toList ++ t.printing) := by
    rw [← enqueued, everything, ← offered, same]
  exact ⟨freeR, queueR, freeW, queueW, flow.owned.represents, filled.owned.represents,
    received.series sent joined⟩

end Runs

/-! ## The loop catches up -/

/-- What is known of the system while the flushes find blocks. -/
structure EchoFlow (rcfg : StreamReadCfg) (wcfg : StreamWriteCfg) (s : EchoSystem β)
    (free queue : List Addr) : Prop where
  flow : Flow rcfg.chCnt rcfg.readBuffCnt s.rx free queue
  lossless : (rxChannel s.rx queue).Lossless
  safely : ReadSafely rcfg.chCnt (2 ^ 16 - 1) rcfg.readBuffCnt (fun _ => True) s.rx
  capacity : CapacityInv wcfg.chCnt wcfg.writeBuffCnt s.tx

/-- The loop has nothing to do. -/
structure CaughtUp (s : EchoSystem β) (queue : List Addr) : Prop where
  outside : s.tx.calling = none
  printed : s.printing = []
  returned : available s.rx.strm queue = []

/-- How many states the loop can run until it has caught up: those of the call in progress, eight
for each character that is printed, and four for each byte that is read. -/
def echoLoad (printed : β → List β) (s : EchoSystem β) (queue : List Addr) : ℕ :=
  statesLeft s.tx + 8 * s.printing.length + statesToReturn s.rx.strm +
    ((available s.rx.strm queue).map fun b => 4 + 8 * (printed b).length).sum

section Progress

variable {printed : β → List β} {rcfg : StreamReadCfg} {wcfg : StreamWriteCfg}
  {mr mw : MemBlkFifo β} {s t : EchoSystem β} {es : List (EchoEvent β)} {free queue : List Addr}
  {n : ℕ}

theorem EchoFlow.read (positive : 0 < rcfg.readBuffCnt) (small : rcfg.readBuffCnt < 2 ^ 16)
    (known : EchoFlow rcfg wcfg s free queue) (outside : s.tx.calling = none)
    (printing : s.printing = [])
    (reads : t =
      { s with
        rx := readStep dmaRx s.rx .read
        printing := (returnedByte (dequeueState (s.rx.strm, none))).flatMap printed }) :
    ∃ free' queue', EchoFlow rcfg wcfg t free' queue' ∧
      (CaughtUp s queue ∨ echoLoad printed t queue' + 1 ≤ echoLoad printed s queue) := by
  obtain ⟨flow, lossless, safely, capacity⟩ := known
  have tame := (dmaRx_fits (β := β) rcfg).dataOnly.tame rcfg.chCnt rcfg.readBuffCnt
  have effect := dequeueState_effect safely.quiet.dequeue
  have step : ReadStep dmaRx s.rx .read (readStep dmaRx s.rx .read) := rfl
  have safely' := safely.kept tame positive (Nat.le_pred_of_lt small) (by decide) step
  obtain ⟨free', queue', readable', -, split, ends⟩ := flow.readable.effect effect
  obtain ⟨free'', queue'', flow', move⟩ := flow.read effect
  obtain ⟨rfl, rfl⟩ := readable'.represents.unique flow'.owned.represents
  have bytes := Readable.available_of_located split
  subst reads
  refine ⟨free', queue', ⟨flow', move.lossless lossless, safely', capacity⟩, ?_⟩
  have before : statesLeft s.tx = 0 := by simp [statesLeft, outside]
  have goesOn := effect.goesOn safely.safe (by decide)
  have most := statesToReturn_le (dequeueState (s.rx.strm, none)).1.1
  unfold echoLoad
  simp only [readStep, bytes, before, printing]
  cases ends with
  | goesOn ctl out less =>
      have less := goesOn ctl
      have nothing : returnedByte (dequeueState (s.rx.strm, none)) = [] := by
        simp [returnedByte, ctl]
      rw [nothing]
      simp only [List.flatMap_nil, List.length_nil, List.nil_append]
      omega
  | byte b ctl out =>
      have one : returnedByte (dequeueState (s.rx.strm, none)) = [b] := by
        simp [returnedByte, ctl, out]
      rw [one]
      simp only [List.flatMap_singleton, List.length_nil, List.singleton_append, List.map_cons,
        List.sum_cons]
      omega
  | none ctl out empty => exact .inl ⟨outside, printing, empty⟩

/-- **Every state of the loop brings it nearer to its end.** -/
theorem EchoFlow.main (positiveR : 0 < rcfg.readBuffCnt) (smallR : rcfg.readBuffCnt < 2 ^ 16)
    (positiveW : 0 < wcfg.writeBuffCnt) (smallW : wcfg.writeBuffCnt < 2 ^ 16)
    (known : EchoFlow rcfg wcfg s free queue) (effect : MainEffect printed s t) :
    ∃ free' queue', EchoFlow rcfg wcfg t free' queue' ∧
      (CaughtUp s queue ∨ echoLoad printed t queue' + 1 ≤ echoLoad printed s queue) := by
  obtain ⟨flow, lossless, safely, capacity⟩ := known
  cases effect with
  | @write tByte calling =>
      have step : WriteStep s.tx .step (callStep s.tx tByte) := .step calling
      have less := statesLeft_step (e := .step) positiveW smallW capacity nofun step
      have own : (!(WriteEvent.step : WriteEvent β).isExternal) = true := rfl
      rw [if_pos own] at less
      refine ⟨free, queue, ⟨flow, lossless, safely, capacity.kept positiveW smallW step⟩, .inr ?_⟩
      unfold echoLoad
      dsimp only
      omega
  | @putchar ch _ outside printing =>
      have step : WriteStep s.tx (.write ch) { s.tx with calling := some ch } := .write outside ch
      have most := callRank_le s.tx.strm
      refine ⟨free, queue, ⟨flow, lossless, safely, capacity.kept positiveW smallW step⟩, .inr ?_⟩
      unfold echoLoad
      simp only [statesLeft, outside, printing, List.length_cons, Option.isSome_some,
        Option.isSome_none, if_true]
      simp only [Bool.false_eq_true, if_false]
      omega
  | read outside printing =>
      exact EchoFlow.read positiveR smallR ⟨flow, lossless, safely, capacity⟩ outside printing rfl

theorem MainEffect.dma (effect : MainEffect printed s t) (quiet : Quiet s.rx.strm) :
    t.rx.strm.dma = s.rx.strm.dma := by
  cases effect with
  | write => rfl
  | putchar => rfl
  | read => exact (dequeueState_effect quiet.dequeue).frame.1

/-- So it gets there. -/
theorem EchoFlow.catchesUp (positiveR : 0 < rcfg.readBuffCnt) (smallR : rcfg.readBuffCnt < 2 ^ 16)
    (positiveW : 0 < wcfg.writeBuffCnt) (smallW : wcfg.writeBuffCnt < 2 ^ 16)
    (known : EchoFlow rcfg wcfg s free queue) (bound : echoLoad printed s queue ≤ n) :
    ∃ k ≤ n, ∃ u queue', Run (EchoStep printed) s (List.replicate k .main) u ∧
      (rxChannel u.rx queue').Lossless ∧ CaughtUp u queue' ∧
      u.rx.strm.dma = s.rx.strm.dma := by
  obtain ⟨free', queue', known', caughtUp | less⟩ :=
    known.main positiveR smallR positiveW smallW (mainStep_effect printed s)
  · exact ⟨0, Nat.zero_le _, s, queue, rfl, known.lossless, caughtUp, rfl⟩
  · induction n generalizing s free queue free' queue' with
    | zero => omega
    | succ n ih =>
        have dma := (mainStep_effect printed s).dma known.safely.quiet
        obtain ⟨free'', queue'', known'', caughtUp | less'⟩ :=
          known'.main positiveR smallR positiveW smallW (mainStep_effect printed _)
        · exact ⟨1, Nat.succ_le_succ (Nat.zero_le _), _, queue', ⟨_, .main, rfl⟩, known'.lossless,
            caughtUp, dma⟩
        · obtain ⟨k, within, u, last, run, lossless, caughtUp, same⟩ :=
            ih known' (by omega) free'' queue'' known'' less'
          exact ⟨k + 1, Nat.succ_le_succ within, u, last, ⟨_, .main, run⟩, lossless, caughtUp,
            same.trans dma⟩

theorem EchoRun.known (positiveR : 0 < rcfg.readBuffCnt) (smallR : rcfg.readBuffCnt < 2 ^ 16)
    (positiveW : 0 < wcfg.writeBuffCnt) (smallW : wcfg.writeBuffCnt < 2 ^ 16)
    (run : EchoRun printed rcfg wcfg mr mw EchoFindsBlock es t) :
    ∃ free queue, EchoFlow rcfg wcfg t free queue := by
  have tame := (dmaRx_fits (β := β) rcfg).dataOnly.tame rcfg.chCnt rcfg.readBuffCnt
  have within : rcfg.readBuffCnt ≤ 2 ^ 16 - 1 := Nat.le_pred_of_lt smallR
  obtain ⟨⟨ws, tx⟩, -, -⟩ := run.inv
  obtain ⟨_, ⟨-, free, queue, flow, rfl⟩, lossless⟩ :=
    run.shows positiveR smallR fun _ _ met => met
  refine ⟨free, queue, flow, lossless, ?_, tx.capacityInv positiveW smallW⟩
  obtain ⟨r, w, initR, -, run⟩ := run
  refine run.invariant
    (fun u => ReadSafely rcfg.chCnt (2 ^ 16 - 1) rcfg.readBuffCnt (fun _ => True) u.rx) ?_
    (readSafely_init tame positiveR within (by decide) initR [])
  rintro u e v safely ⟨finds, step⟩
  rcases step.receiver finds with same | ⟨d, -, taken⟩
  · rw [same]
    exact safely
  · exact safely.kept tame positiveR within (by decide) taken

/-- **The loop catches up.** From any state of a run whose flushes find blocks, the loop by
itself passes every byte that is not in the receiving block on to `zero_strm_write`. It needs no
more than ten states, eight for each character that `printf` has left, and for each byte that can
be read four and eight for each of its characters. -/
theorem echo_catchesUp (positiveR : 0 < rcfg.readBuffCnt) (smallR : rcfg.readBuffCnt < 2 ^ 16)
    (positiveW : 0 < wcfg.writeBuffCnt) (smallW : wcfg.writeBuffCnt < 2 ^ 16)
    (run : EchoRun printed rcfg wcfg mr mw EchoFindsBlock es t) :
    ∃ free queue n u, Represents t.rx.strm.tMemBlockFifo free queue ∧
      n ≤ 10 + 8 * t.printing.length +
        ((available t.rx.strm queue).map fun b => 4 + 8 * (printed b).length).sum ∧
      Run (EchoStep printed) t (List.replicate n .main) u ∧
      u.rx.strm.dma.stored = t.rx.strm.dma.stored ∧
      u.rx.strm.dma.stored = u.rx.returned ++ dmaBytes u.rx.strm ∧
      u.offered.map Prod.fst = u.rx.returned.flatMap printed := by
  obtain ⟨free, queue, known⟩ := run.known positiveR smallR positiveW smallW
  obtain ⟨n, few, u, queue', mains, lossless, caughtUp, dma⟩ :=
    known.catchesUp (n := echoLoad printed t queue) positiveR smallR positiveW smallW le_rfl
  refine ⟨free, queue, n, u, known.flow.owned.represents, ?_, mains, ?_, ?_, ?_⟩
  · have call : statesLeft t.tx ≤ 7 := by
      unfold statesLeft
      split
      · exact callRank_le t.tx.strm
      · exact Nat.zero_le 7
    have reader := statesToReturn_le t.rx.strm
    unfold echoLoad at few
    omega
  · rw [dma]
  · have stored : u.rx.strm.dma.stored =
        u.rx.returned ++ (available u.rx.strm queue' ++ dmaBytes u.rx.strm) := lossless
    rwa [caughtUp.returned] at stored
  · have inv : EchoInv printed wcfg mw u :=
      mains.invariant _ (fun _ _ _ inv step => inv.kept step) run.inv
    rw [inv.offered, caughtUp.outside, caughtUp.printed]
    simp

end Progress

/-- Two bytes arrive and are flushed, and then the loop runs some states. It reads the first byte
and stores it, and reads the second one, for which the sender has to send the block of the first.
-/
def echoEvents (states : ℕ) : List (EchoEvent UInt8) :=
  [.rx (.arrive 7), .rx (.arrive 8), .rx .dmaHalf] ++ List.replicate states .main

/-- The loop can run any number of states. -/
theorem run_mains {printed : β → List β} {guard : EchoSystem β → EchoEvent β → Prop}
    (free : ∀ s, guard s .main) (n : ℕ) (s : EchoSystem β) :
    Run (guarded (EchoStep printed) guard) s (List.replicate n .main)
      ((mainStep printed)^[n] s) := by
  induction n generalizing s with
  | zero => rfl
  | succ n ih => exact ⟨mainStep printed s, ⟨free s, .main⟩, ih (mainStep printed s)⟩

theorem echo_order_twoBlocks :
    ∃ t, EchoRun (fun b => [b]) (smallCfg 3) (smallWriteCfg 2) zeroMemory zeroMemory EchoFindsBlock
        (echoEvents 17) t ∧ t.tx.accepted = [7, 8] ∧ startedBytes t.tx.strm = [7] ∧
      List.Sublist (startedBytes t.tx.strm) t.rx.strm.dma.stored := by
  obtain ⟨t, run, accepted, started⟩ : ∃ t,
      EchoRun (fun b => [b]) (smallCfg 3) (smallWriteCfg 2) zeroMemory zeroMemory EchoFindsBlock
        (echoEvents 17) t ∧ t.tx.accepted = [7, 8] ∧ startedBytes t.tx.strm = [7] :=
    ⟨_, ⟨_, _, rfl, rfl, run_append.mpr ⟨_, ⟨_, ⟨nofun, .rx rfl⟩, _, ⟨nofun, .rx rfl⟩, _,
      ⟨fun _ _ => nofun, .rx rfl⟩, rfl⟩, run_mains (fun _ => trivial) 17 _⟩⟩, rfl, rfl⟩
  exact ⟨t, run, accepted, started, echo_order (fun _ => rfl) (by decide) (by decide) (by decide)
    (by decide) run⟩

/-- Once the two bytes are flushed, the loop alone offers both to the sender. -/
theorem echo_catchesUp_twoBytes :
    ∃ t n u, EchoRun (fun b => [b]) (smallCfg 3) (smallWriteCfg 2) zeroMemory zeroMemory
        EchoFindsBlock (echoEvents 0) t ∧
      Run (EchoStep fun b => [b]) t (List.replicate n .main) u ∧
      u.offered.map Prod.fst ++ dmaBytes u.rx.strm = [7, 8] := by
  obtain ⟨t, run, arrived⟩ : ∃ t,
      EchoRun (fun b => [b]) (smallCfg 3) (smallWriteCfg 2) zeroMemory zeroMemory
        EchoFindsBlock (echoEvents 0) t ∧ t.rx.strm.dma.stored = [7, 8] :=
    ⟨_, ⟨_, _, rfl, rfl, _, ⟨nofun, .rx rfl⟩, _, ⟨nofun, .rx rfl⟩, _,
      ⟨fun _ _ => nofun, .rx rfl⟩, rfl⟩, rfl⟩
  obtain ⟨-, -, n, u, -, -, mains, same, stored, offered⟩ :=
    echo_catchesUp (by decide) (by decide) (by decide) (by decide) run
  refine ⟨t, n, u, run, mains, ?_⟩
  rw [offered, List.flatMap_singleton', ← stored, same, arrived]

/-- With a single block of one byte, the call for the second byte sends the first one, and then
drops the second. -/
theorem echo_drops_oneBlock :
    ∃ t u s, EchoRun (fun b => [b]) (smallCfg 3) (smallWriteCfg 1) zeroMemory zeroMemory
        (fun _ _ => True) (echoEvents 9) t ∧ t.tx.calling = none ∧
      Run (EchoStep fun b => [b]) t (List.replicate 6 .main) u ∧
      EchoStep (fun b => [b]) u .main s ∧ s.offered = [(7, true), (8, false)] ∧
      (pendingBytes s.tx).length = 1 ∧ SameBytes t.tx.strm s.tx.strm ∧ Carries s.tx.strm [7] := by
  obtain ⟨t, run, outside, offered, accepted, unended, dropped⟩ : ∃ t,
      EchoRun (fun b => [b]) (smallCfg 3) (smallWriteCfg 1) zeroMemory zeroMemory
        (fun _ _ => True) (echoEvents 9) t ∧ t.tx.calling = none ∧ t.offered = [(7, true)] ∧
      t.tx.accepted = [7] ∧ ((mainStep fun b => [b])^[6] t).offered = t.offered ∧
      (mainStep (fun b => [b]) ((mainStep fun b => [b])^[6] t)).offered =
        [(7, true), (8, false)] :=
    ⟨_, ⟨_, _, rfl, rfl, run_append.mpr ⟨_, ⟨_, ⟨trivial, .rx rfl⟩, _, ⟨trivial, .rx rfl⟩, _,
      ⟨trivial, .rx rfl⟩, rfl⟩, run_mains (fun _ => trivial) 9 _⟩⟩, rfl, rfl, rfl, rfl, rfl⟩
  have mains : Run (guarded (EchoStep fun b => [b]) fun _ _ => True) t (List.replicate 6 .main)
      ((mainStep fun b => [b])^[6] t) := run_mains (fun _ => trivial) 6 t
  have goesOn : Run (EchoStep fun b => [b]) t (List.replicate 6 .main)
      ((mainStep fun b => [b])^[6] t) := mains.map (f := id) fun _ _ _ step => step.2
  have last : (mainStep (fun b => [b]) ((mainStep fun b => [b])^[6] t)).offered =
      t.offered ++ [(8, false)] := by
    rw [dropped, offered]
    rfl
  obtain ⟨full, -, -, same, carries⟩ :=
    echo_drops (by decide) (by decide) run goesOn unended .main last
  exact ⟨t, _, _, run, outside, goesOn, .main, dropped, full, same, accepted ▸ carries⟩

/-- A byte that arrives, is flushed and is stored by the sender before anything else arrives. -/
theorem echo_lossless_oneByte :
    ∃ t, EchoRun (fun b => [b]) (smallCfg 3) (smallWriteCfg 2) zeroMemory zeroMemory
        (EchoRoom (smallWriteCfg 2))
        [.rx (.arrive 7), .rx .dmaHalf, .main, .main, .main, .main, .main, .main, .main] t ∧
      ∃ queueR queueW, t.rx.strm.dma.stored = startedBytes t.tx.strm ++
        ((queueBytes t.tx.strm queueW ++ currentBytes t.tx.strm) ++
          ((t.tx.calling.toList ++ t.printing) ++
            (available t.rx.strm queueR ++ dmaBytes t.rx.strm))) := by
  obtain ⟨t, run⟩ : ∃ t, EchoRun (fun b => [b]) (smallCfg 3) (smallWriteCfg 2) zeroMemory
      zeroMemory (EchoRoom (smallWriteCfg 2))
      [.rx (.arrive 7), .rx .dmaHalf, .main, .main, .main, .main, .main, .main, .main] t :=
    ⟨_, _, _, rfl, rfl, _, ⟨⟨nofun, nofun⟩, .rx rfl⟩, _, ⟨⟨fun _ _ => nofun, nofun⟩, .rx rfl⟩,
      _, ⟨⟨trivial, fun _ calling => absurd rfl calling⟩, .main⟩,
      _, ⟨⟨trivial, fun _ calling => absurd rfl calling⟩, .main⟩,
      _, ⟨⟨trivial, fun _ calling => absurd rfl calling⟩, .main⟩,
      _, ⟨⟨trivial, fun _ calling => absurd rfl calling⟩, .main⟩,
      _, ⟨⟨trivial, fun _ calling => absurd rfl calling⟩, .main⟩,
      _, ⟨⟨trivial, fun _ _ => Nat.zero_lt_two⟩, .main⟩,
      _, ⟨⟨trivial, fun _ _ => Nat.zero_lt_two⟩, .main⟩, rfl⟩
  obtain ⟨-, queueR, -, queueW, -, -, stored⟩ :=
    echo_lossless (fun _ => rfl) (by decide) (by decide) (by decide) (by decide) run
  exact ⟨t, run, queueR, queueW, stored⟩

end ZeroStrm
