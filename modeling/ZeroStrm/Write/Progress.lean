import ZeroStrm.Write.BackPressure

/-!
# Progress of the sender

Three questions of a caller. How long can a call take: seven states at most, however many
transfers end in between (`writeWaitFree`). How much can be written in one go: as many bytes as
the blocks have room for, and then no more (`burst`). And what will be sent if no further call is
made: the blocks that are queued or in flight, one at each complete event, and nothing of the
current block, even when that is full (`drain`). So the last bytes of a message stay in the sender
until a later call.
-/

set_option autoImplicit false

namespace ZeroStrm

open EventRuns

variable {β : Type}

/-! ## A call against the interrupt -/

/-- The states that the call in progress can still run. -/
def statesLeft (s : WriteSystem β) : ℕ := if s.calling.isSome then callRank s.strm else 0

theorem callRank_pos {s : TxStream β} (place : Place s.fsmEnqueue) : 0 < callRank s := by
  unfold callRank
  generalize s.fsmEnqueue = point at place
  cases place <;> dsimp only
  case byteFifoIn => split_ifs <;> decide
  all_goals exact Nat.zero_lt_succ _

theorem callRank_le (s : TxStream β) : callRank s ≤ 7 := Nat.le_of_lt_succ (callRank_lt s)

/-- The interrupt leaves the place of the call and its ring alone. -/
theorem callRank_completed {s : TxStream β} (busy : Busy s) :
    callRank (completed s) = callRank s := by
  obtain ⟨place, fifo, -⟩ := (completed_sends busy.auto busy.nothing).frame
  simp only [callRank, place, fifo]
  rfl

section Runs

variable {cfg : StreamWriteCfg} {m : MemBlkFifo β} {es fs : List (WriteEvent β)}
  {t u : WriteSystem β} {tByte : β}

/-- **Every state of a call is one state less to run**, and the interrupt adds none. -/
theorem statesLeft_step {count buffCnt : ℕ} {s : WriteSystem β} {e : WriteEvent β}
    (positive : 0 < buffCnt) (small : buffCnt < 2 ^ 16) (inv : CapacityInv count buffCnt s)
    (oneCall : ∀ b, e ≠ .write b) (step : WriteStep s e t) :
    statesLeft t + (if !e.isExternal then 1 else 0) ≤ statesLeft s := by
  obtain ⟨busy, ⟨free, queue, filled⟩, -⟩ := inv
  cases step with
  | write idle b => exact absurd rfl (oneCall b)
  | @step _ b calling =>
      have effect := innermostState_effect dmaTx b busy.busy.place
      have ends := effect.ends positive small filled
      have here : statesLeft s = callRank s.strm := by simp [statesLeft, calling]
      have less : statesLeft (callStep s b) < callRank s.strm := by
        simp only [statesLeft, callStep]
        cases ends with
        | goesOn ctl less => simpa [ctl] using less
        | takes ctl less => simpa [ctl] using less
        | stored ctl => simpa [ctl] using callRank_pos busy.busy.place
        | parks ctl => simpa [ctl] using callRank_pos busy.busy.place
      rw [here]
      exact less
  | complete inFlight =>
      have same : statesLeft (completeStep s) = statesLeft s := by
        simp only [statesLeft, completeStep, callRank_completed busy.busy]
      exact same.le

/-- **A call is wait-free.** Between its begin and its return a call runs seven states at most, and
after seven it has returned, whatever transfers end in between. -/
theorem writeWaitFree (positive : 0 < cfg.writeBuffCnt) (small : cfg.writeBuffCnt < 2 ^ 16)
    (run : WriteRun WriteStep cfg m es t) (called : Run WriteStep t (.write tByte :: fs) u)
    (oneCall : ∀ b, .write b ∉ fs) :
    fs.countP (fun e => !e.isExternal) ≤ 7 ∧
      (fs.countP (fun e => !e.isExternal) = 7 → u.calling = none) := by
  obtain ⟨v, begins, rest⟩ := called
  have inv : CapacityInv cfg.chCnt cfg.writeBuffCnt v :=
    (run.capacityInv positive small).kept positive small begins
  have allowed : Run (guarded WriteStep fun _ e => ∀ b, e ≠ .write b) v fs u := by
    clear inv begins
    induction fs generalizing v with
    | nil => exact rest
    | cons e fs ih =>
        obtain ⟨w, step, rest⟩ := rest
        refine ⟨w, ⟨?_, step⟩, ih (fun b later => oneCall b (List.mem_cons_of_mem _ later)) w rest⟩
        rintro b rfl
        exact oneCall b (List.mem_cons_self ..)
  have bound : statesLeft u + fs.countP (fun e => !e.isExternal) ≤ statesLeft v :=
    allowed.rank (CapacityInv cfg.chCnt cfg.writeBuffCnt)
      (fun _ _ _ inv step => inv.kept positive small step.2) statesLeft _
      (fun _ _ _ inv step => statesLeft_step positive small inv step.1 step.2) inv
  have most : statesLeft v ≤ 7 := by
    unfold statesLeft
    split
    · exact callRank_le v.strm
    · exact Nat.zero_le 7
  refine ⟨by omega, ?_⟩
  intro all
  have none : statesLeft u = 0 := by omega
  have busy : Busy u.strm := (allowed.invariant (CapacityInv cfg.chCnt cfg.writeBuffCnt)
    (fun _ _ _ inv step => inv.kept positive small step.2) inv).busy.busy
  unfold statesLeft at none
  split at none
  · exact absurd none (callRank_pos busy.place).ne'
  · next returned => simpa using returned

end Runs

/-- A call that a transfer interrupts runs seven states and has returned. -/
theorem writeWaitFree_interrupted :
    ∃ t u, WriteRun WriteStep (smallWriteCfg 2) zeroMemory [.write 7, .step, .step] t ∧
      Run WriteStep t
        [.write 8, .step, .step, .step, .step, .step, .complete, .step, .step] u ∧
      u.calling = none := by
  obtain ⟨t, u, run, called⟩ : ∃ t u,
      WriteRun WriteStep (smallWriteCfg 2) zeroMemory [.write 7, .step, .step] t ∧
        Run WriteStep t
          [.write 8, .step, .step, .step, .step, .step, .complete, .step, .step] u :=
    ⟨_, _, ⟨_, rfl, _, .write rfl _, _, .step rfl, _, .step rfl, rfl⟩,
      _, .write rfl _, _, .step rfl, _, .step rfl, _, .step rfl, _, .step rfl, _, .step rfl, _,
      .complete rfl, _, .step rfl, _, .step rfl, rfl⟩
  have ends := writeWaitFree (by decide) (by decide) run called (by simp)
  exact ⟨t, u, run, called, ends.2 rfl⟩

/-! ## What is sent without further calls -/

section Completes

variable {count buffCnt : ℕ} {t u : WriteSystem β} {free queue free' queue' : List Addr}

theorem completed_sameBytes {s : TxStream β} (busy : Busy s) : SameBytes s (completed s) := by
  have freed : SameBytes s (cplFreed s) := ⟨chMemory_free .., tSizeInByte_free .., rfl, rfl⟩
  exact freed.trans (completed_sends busy.auto busy.nothing).sameBytes

theorem currentBytes_completed {s : TxStream β} (busy : Busy s) :
    currentBytes (completed s) = currentBytes s := by
  have same := completed_sameBytes busy
  have place : (completed s).fsmEnqueue = s.fsmEnqueue :=
    (completed_sends busy.auto busy.nothing).frame.1
  simp only [currentBytes, OwnsCurrent, place, ByteFifo.content, same.fifo, same.memory]

/-- **A complete event makes room for one block.** -/
theorem Counted.completes (counted : Counted count buffCnt t free queue)
    (counted' : Counted count buffCnt u free' queue') (step : WriteStep t .complete u) :
    (pendingBytes u).length + buffCnt = (pendingBytes t).length := by
  obtain ⟨block, inFlight, rfl⟩ := step.completes
  have before := counted.accepted_length
  have after := counted'.accepted_length
  have freed : (completeStep t).freed.length = t.freed.length + 1 := List.length_append
  have accepted : (completeStep t).accepted = t.accepted := rfl
  rw [freed, accepted, Nat.add_mul, Nat.one_mul] at after
  omega

/-- So one block less is queued or in flight. -/
theorem Counted.completes_blocks (positive : 0 < buffCnt)
    (counted : Counted count buffCnt t free queue)
    (counted' : Counted count buffCnt u free' queue') (step : WriteStep t .complete u) :
    queue'.length + u.strm.dma.inFlight.toList.length + 1 =
      queue.length + t.strm.dma.inFlight.toList.length := by
  have room := counted.completes counted' step
  obtain ⟨block, inFlight, rfl⟩ := step.completes
  have same : currentBytes (completeStep t).strm = currentBytes t.strm :=
    currentBytes_completed counted.busy.busy
  rw [counted.pending_length, counted'.pending_length, same] at room
  refine Nat.eq_of_mul_eq_mul_right positive ?_
  rw [Nat.add_mul, Nat.one_mul]
  omega

end Completes

section Drains

variable {cfg : StreamWriteCfg} {m : MemBlkFifo β} {es : List (WriteEvent β)}
  {t u : WriteSystem β} {free queue : List Addr} {n : ℕ}

theorem WriteRun.concat {e : WriteEvent β} (run : WriteRun WriteStep cfg m es t)
    (step : WriteStep t e u) : WriteRun WriteStep cfg m (es ++ [e]) u := by
  obtain ⟨s, init, run⟩ := run
  exact ⟨s, init, run_concat.mpr ⟨t, run, step⟩⟩

theorem completes_le (positive : 0 < cfg.writeBuffCnt) (small : cfg.writeBuffCnt < 2 ^ 16)
    (run : WriteRun WriteStep cfg m es t)
    (counted : Counted cfg.chCnt cfg.writeBuffCnt t free queue)
    (completes : Run WriteStep t (List.replicate n .complete) u) :
    n ≤ queue.length + t.strm.dma.inFlight.toList.length := by
  induction n generalizing t es free queue with
  | zero => exact Nat.zero_le _
  | succ n ih =>
      obtain ⟨v, step, rest⟩ := completes
      have run' := run.concat step
      obtain ⟨free', queue', counted'⟩ := run'.counted positive small
      have less := counted.completes_blocks positive counted' step
      have bound := ih run' counted' rest
      omega

/-- **And all of those are sent**, one at each complete event, since a queued block has the channel
busy. -/
theorem completes_all (positive : 0 < cfg.writeBuffCnt) (small : cfg.writeBuffCnt < 2 ^ 16)
    (run : WriteRun WriteStep cfg m es t) (outside : t.calling = none)
    (counted : Counted cfg.chCnt cfg.writeBuffCnt t free queue)
    (waiting : queue.length + t.strm.dma.inFlight.toList.length = n) :
    ∃ u free', Run WriteStep t (List.replicate n .complete) u ∧
      u.strm.dma.inFlight = none ∧ u.strm.bBusy = false ∧
      Counted cfg.chCnt cfg.writeBuffCnt u free' [] ∧ u.accepted = t.accepted ∧
      currentBytes u.strm = currentBytes t.strm := by
  induction n generalizing t es free queue with
  | zero =>
      obtain rfl : queue = [] := List.eq_nil_of_length_eq_zero (by omega)
      have idle : t.strm.dma.inFlight = none :=
        Option.toList_eq_nil_iff.mp (List.eq_nil_of_length_eq_zero (by omega))
      exact ⟨t, free, rfl, idle, (counted.busy.still outside idle).1, counted, rfl, rfl⟩
  | succ n ih =>
      obtain ⟨block, inFlight⟩ : ∃ block, t.strm.dma.inFlight = some block := by
        rw [← Option.isSome_iff_exists, ← Option.not_isNone, Bool.not_eq_true',
          Option.isNone_eq_false_iff, Option.isSome_iff_ne_none]
        intro idle
        have head := counted.filled.owned.represents.fifo.start
        rw [(counted.busy.still outside idle).2] at head
        obtain rfl : queue = [] := List.head?_eq_none_iff.mp head.symm
        rw [idle] at waiting
        cases waiting
      have step : WriteStep t .complete (completeStep t) := .complete inFlight
      have run' := run.concat step
      obtain ⟨free', queue', counted'⟩ := run'.counted positive small
      have less := counted.completes_blocks positive counted' step
      obtain ⟨u, free'', rest, idle, clear, drained, accepted, current⟩ :=
        ih run' outside counted' (by omega)
      exact ⟨u, free'', ⟨_, step, rest⟩, idle, clear, drained, accepted,
        current.trans (currentBytes_completed counted.busy.busy)⟩

/-- Outside of a call `enqueue` is at its start with a byte in its block, unless no byte was
accepted. -/
theorem WriteRun.startHolds (positive : 0 < cfg.writeBuffCnt) (small : cfg.writeBuffCnt < 2 ^ 16)
    (run : WriteRun WriteStep cfg m es t) (here : t.strm.fsmEnqueue.chState = Enqueue.start) :
    t.accepted = [] ∨ 0 < t.strm.tByteFifo.hwLength := by
  obtain ⟨s, init, run⟩ := run
  have initial := zeroStrmWriteInit_spec init
  refine (run.invariant (fun v => CapacityInv cfg.chCnt cfg.writeBuffCnt v ∧
    (v.strm.fsmEnqueue.chState = Enqueue.start →
      v.accepted = [] ∨ 0 < v.strm.tByteFifo.hwLength)) ?_
    ⟨initial.capacityInv positive small, fun _ => .inl rfl⟩).2 here
  rintro v e w ⟨inv, holds⟩ step
  refine ⟨inv.kept positive small step, ?_⟩
  obtain ⟨busy, ⟨free, queue, filled⟩, -⟩ := inv
  cases step with
  | write idle b => exact holds
  | @step _ b calling =>
      have effect := innermostState_effect dmaTx b busy.busy.place
      simp only [callStep]
      generalize innermostState dmaTx b v.strm = r at effect
      intro atStart
      cases effect with
      | store here room =>
          have filling := filled.current (.inr (.inl (congrArg FsmEnqueue.chState here)))
          have took := ByteFifo.enqueue_took filling.wellFormed room
          refine .inr ?_
          simp only [byteStored, took.length]
          exact Nat.succ_pos _
      | park here => rw [here] at atStart; cases atStart
      | _ => cases atStart
  | complete inFlight =>
      obtain ⟨place, fifo, -⟩ := (completed_sends busy.busy.auto busy.busy.nothing).frame
      intro atStart
      have ring : (completeStep v).strm.tByteFifo = v.strm.tByteFifo := fifo
      rw [ring]
      exact holds ((congrArg FsmEnqueue.chState place).symm.trans atStart)

/-- How many of the accepted bytes no complete event will send: those of the current block. There
is none while `enqueue` waits for a free block, and outside of a call the current block is not
empty once a byte was accepted. -/
def unsentCount (buffCnt : ℕ) (t : WriteSystem β) : ℕ :=
  if t.strm.fsmEnqueue.chState = Enqueue.getByteFifo ∨ t.accepted = [] then 0
  else (t.accepted.length - 1) % buffCnt + 1

theorem currentBytes_unsent (positive : 0 < cfg.writeBuffCnt) (small : cfg.writeBuffCnt < 2 ^ 16)
    (run : WriteRun WriteStep cfg m es t) (outside : t.calling = none) :
    (currentBytes t.strm).length = unsentCount cfg.writeBuffCnt t := by
  obtain ⟨free, queue, counted⟩ := run.counted positive small
  have accepted := counted.accepted_length
  rw [counted.pending_length, ← Nat.add_assoc, ← Nat.add_mul] at accepted
  rcases counted.busy.outside outside with here | here
  · have owns : OwnsCurrent t.strm := .inl here
    have length : (currentBytes t.strm).length = t.strm.tByteFifo.hwLength := by
      rw [currentBytes, if_pos owns, ByteFifo.length_content]
    have most := counted.filled.currentBytes_length
    have elsewhere : t.strm.fsmEnqueue.chState ≠ Enqueue.getByteFifo := by rw [here]; decide
    rcases run.startHolds positive small here with nothing | some
    · rw [unsentCount, if_pos (.inr nothing)]
      rw [nothing, List.length_nil] at accepted
      omega
    · have notEmpty : t.accepted ≠ [] := by
        rintro nothing
        rw [nothing, List.length_nil] at accepted
        omega
      rw [unsentCount, if_neg (not_or.mpr ⟨elsewhere, notEmpty⟩)]
      have position : t.accepted.length - 1 = ((currentBytes t.strm).length - 1) +
          (t.freed.length + (queue.length + t.strm.dma.inFlight.toList.length)) *
            cfg.writeBuffCnt := by omega
      rw [position, Nat.add_mul_mod_self_right, Nat.mod_eq_of_lt (by omega)]
      omega
  · have gone : ¬ OwnsCurrent t.strm := by
      rintro (atStart | atIn | atFlush)
      · rw [here] at atStart
        cases atStart
      · rw [here] at atIn
        cases atIn
      · rw [atFlush] at here
        cases here
    rw [currentBytes, if_neg gone, unsentCount, if_pos (.inl here)]
    rfl

/-- **The sender drains to its current block.** Without further calls exactly the blocks that are
queued or in flight are sent, one at each complete event: then the channel stands still and `bBusy`
is clear. The last `unsentCount` accepted bytes are left, and they are those of the current
block, which may be full. -/
theorem drain (positive : 0 < cfg.writeBuffCnt) (small : cfg.writeBuffCnt < 2 ^ 16)
    (run : WriteRun WriteStep cfg m es t) (outside : t.calling = none) :
    ∃ n u, Run WriteStep t (List.replicate n .complete) u ∧
      (∃ free queue, Represents t.strm.tMemBlockFifo free queue ∧
        n = queue.length + t.strm.dma.inFlight.toList.length) ∧
      n * cfg.writeBuffCnt + unsentCount cfg.writeBuffCnt t = (pendingBytes t).length ∧
      (∀ k v, Run WriteStep t (List.replicate k .complete) v → k ≤ n) ∧
      u.strm.dma.inFlight = none ∧ u.strm.bBusy = false ∧
      startedBytes u.strm =
        t.accepted.take (t.accepted.length - unsentCount cfg.writeBuffCnt t) ∧
      currentBytes u.strm =
        t.accepted.drop (t.accepted.length - unsentCount cfg.writeBuffCnt t) := by
  obtain ⟨free, queue, counted⟩ := run.counted positive small
  have unsent := currentBytes_unsent positive small run outside
  obtain ⟨u, free', completes, idle, clear, drained, accepted, current⟩ :=
    completes_all positive small run outside counted rfl
  have split : t.accepted = startedBytes u.strm ++ currentBytes t.strm := by
    rw [← accepted, drained.accepted, current]
    rfl
  have sent : t.accepted.length - (currentBytes t.strm).length = (startedBytes u.strm).length := by
    rw [split, List.length_append, Nat.add_sub_cancel]
  refine ⟨_, u, completes, ⟨free, queue, counted.filled.owned.represents, rfl⟩, ?_, ?_, idle,
    clear, ?_, ?_⟩
  · rw [← unsent, counted.pending_length]
  · intro k v more
    exact completes_le positive small run counted more
  · rw [← unsent, sent, split]
    exact List.take_left.symm
  · rw [← unsent, sent, split, current]
    exact List.drop_left.symm

end Drains

/-- Of two bytes in blocks of one byte the first is sent, and the second stays in its block, though
that is full. -/
theorem drain_twoBlocks :
    ∃ t u, WriteRun WriteStep (smallWriteCfg 2) zeroMemory (sendingEvents.take 11) t ∧
      Run WriteStep t [.complete] u ∧ u.strm.dma.inFlight = none ∧
      startedBytes u.strm = [7] ∧ currentBytes u.strm = [8] := by
  obtain ⟨t, run, outside, pending, unsent, accepted⟩ : ∃ t,
      WriteRun WriteStep (smallWriteCfg 2) zeroMemory (sendingEvents.take 11) t ∧
        t.calling = none ∧ (pendingBytes t).length = 2 ∧ unsentCount 1 t = 1 ∧
        t.accepted = [7, 8] :=
    ⟨_, ⟨_, rfl, _, .write rfl _, _, .step rfl, _, .step rfl, _, .write rfl _, _, .step rfl, _,
      .step rfl, _, .step rfl, _, .step rfl, _, .step rfl, _, .step rfl, _, .step rfl, rfl⟩,
      rfl, rfl, rfl, rfl⟩
  obtain ⟨n, u, completes, -, count, -, idle, -, started, kept⟩ :=
    drain (by decide) (by decide) run outside
  have one : (smallWriteCfg 2).writeBuffCnt = 1 := rfl
  rw [one, unsent, pending] at count
  obtain rfl : n = 1 := by omega
  rw [one, unsent, accepted] at started kept
  exact ⟨t, u, run, completes, idle, started, kept⟩

/-! ## How much can be written in one go -/

section Bursts

variable {cfg : StreamWriteCfg} {m : MemBlkFifo β} {es : List (WriteEvent β)}
  {t t' v : WriteSystem β} {tByte : β} {n : ℕ}

/-- The bytes that the sender has room for. -/
def roomBytes (cfg : StreamWriteCfg) (t : WriteSystem β) : ℕ :=
  cfg.chCnt * cfg.writeBuffCnt - (pendingBytes t).length

/-- The calls of a burst: the first bytes are accepted, the others are refused. -/
def burstCalls (room : ℕ) (bs : List β) : List (β × Bool) :=
  (bs.take room).map (fun b => (b, true)) ++ (bs.drop room).map fun b => (b, false)

/-- A call is accepted while there is room, and takes one byte of it. -/
theorem WriteRun.offered (positive : 0 < cfg.writeBuffCnt) (small : cfg.writeBuffCnt < 2 ^ 16)
    (run : WriteRun WriteStep cfg m es t) (outside : t.calling = none) (tByte : β) :
    ∃ t', Called cfg m es t tByte (decide (0 < roomBytes cfg t)) t' ∧
      roomBytes cfg t' = roomBytes cfg t - 1 := by
  obtain ⟨t', rt, called, ended⟩ := run.called positive small outside tByte
  have waiting := called.pending positive small run
  obtain ⟨free, queue, counted⟩ := run.counted positive small
  have before := counted.pending_le
  refine ⟨t', ?_⟩
  unfold roomBytes
  by_cases stored : rt = .cpl
  · obtain ⟨n, run'⟩ := called.run
    obtain ⟨free', queue', counted'⟩ := run'.counted positive small
    have after := counted'.pending_le
    rw [decide_eq_true stored] at called waiting
    simp only [if_true] at waiting
    rw [decide_eq_true (by omega : 0 < _)]
    exact ⟨called, by omega⟩
  · rw [decide_eq_false stored] at called waiting
    have full := (called.refused positive small run ended stored).2
    simp only [Bool.false_eq_true, if_false, Nat.add_zero] at waiting
    rw [decide_eq_false (by omega : ¬ 0 < _)]
    exact ⟨called, by omega⟩

/-- Each complete event makes room for the bytes of one block. -/
theorem roomBytes_completes (positive : 0 < cfg.writeBuffCnt) (small : cfg.writeBuffCnt < 2 ^ 16)
    (run : WriteRun WriteStep cfg m es t)
    (completes : Run WriteStep t (List.replicate n .complete) v) :
    WriteRun WriteStep cfg m (es ++ List.replicate n .complete) v ∧
      roomBytes cfg v = roomBytes cfg t + n * cfg.writeBuffCnt := by
  induction n generalizing t es with
  | zero =>
      obtain rfl : t = v := completes
      exact ⟨by simpa using run, by simp⟩
  | succ n ih =>
      obtain ⟨u, step, rest⟩ := completes
      have run' := run.concat step
      obtain ⟨free, queue, counted⟩ := run.counted positive small
      obtain ⟨free', queue', counted'⟩ := run'.counted positive small
      have less := counted.completes counted' step
      have most := counted.pending_le
      obtain ⟨reached, room⟩ := ih run' rest
      refine ⟨by simpa [List.replicate_succ] using reached, ?_⟩
      have more : roomBytes cfg u = roomBytes cfg t + cfg.writeBuffCnt := by
        unfold roomBytes
        omega
      rw [room, more, Nat.add_mul, Nat.one_mul]
      omega

/-- A burst without complete events fills the room that there is. -/
theorem WriteRun.offeredAll (positive : 0 < cfg.writeBuffCnt)
    (small : cfg.writeBuffCnt < 2 ^ 16) (run : WriteRun WriteStep cfg m es t)
    (outside : t.calling = none) (bs : List β) :
    ∃ fs u, WriteRun WriteStep cfg m (es ++ fs) u ∧ u.calling = none ∧ (∀ e ∈ fs, e ≠ .complete) ∧
      Run WriteCall t.strm (burstCalls (roomBytes cfg t) bs) u.strm ∧
      u.accepted = t.accepted ++ bs.take (roomBytes cfg t) := by
  induction bs generalizing t es with
  | nil =>
      refine ⟨[], t, by simpa using run, outside, nofun, ?_, by simp⟩
      simp only [burstCalls, List.take_nil, List.drop_nil, List.map_nil, List.append_nil]
      rfl
  | cons b bs ih =>
      obtain ⟨t', called, room⟩ := run.offered positive small outside b
      obtain ⟨n, run'⟩ := called.run
      obtain ⟨fs, u, reached, ended, own, calls, accepted⟩ := ih run' called.outside
      refine ⟨.write b :: List.replicate n .step ++ fs, u, by simpa using reached, ended,
        ?_, ?_, ?_⟩
      · intro e member
        rcases List.mem_append.mp member with here | later
        · rcases List.mem_cons.mp here with rfl | step
          · nofun
          · rw [List.eq_of_mem_replicate step]
            nofun
        · exact own e later
      · rw [room] at calls
        have returns := called.returns
        cases left : roomBytes cfg t with
        | zero =>
            rw [left] at calls returns
            exact ⟨_, returns, calls⟩
        | succ k =>
            rw [left] at calls returns
            exact ⟨_, returns, calls⟩
      · rw [accepted, called.accepted, room]
        cases left : roomBytes cfg t with
        | zero => simp
        | succ k => simp

/-- **A burst is accepted as far as there is room.** When `n` transfers have ended, the calls that
follow accept exactly the first bytes, as many as the pool had room for before and `n` blocks hold,
in their order, and refuse every byte after them. -/
theorem burst (positive : 0 < cfg.writeBuffCnt) (small : cfg.writeBuffCnt < 2 ^ 16)
    (run : WriteRun WriteStep cfg m es t) (outside : t.calling = none)
    (completes : Run WriteStep t (List.replicate n .complete) v) (bs : List β) :
    ∃ fs u, WriteRun WriteStep cfg m (es ++ List.replicate n .complete ++ fs) u ∧
      u.calling = none ∧ (∀ e ∈ fs, e ≠ .complete) ∧
      Run WriteCall v.strm (burstCalls (roomBytes cfg t + n * cfg.writeBuffCnt) bs) u.strm ∧
      u.accepted = t.accepted ++ bs.take (roomBytes cfg t + n * cfg.writeBuffCnt) := by
  obtain ⟨reached, room⟩ := roomBytes_completes positive small run completes
  obtain ⟨same, accepted⟩ := run_complete completes
  rw [← room, ← accepted]
  exact reached.offeredAll positive small (same.trans outside) bs

/-- Two blocks of one byte are full after two bytes. The transfer of the first one makes room for
one byte of a burst of two. -/
theorem burst_twoBlocks :
    ∃ v u fs, WriteRun WriteStep (smallWriteCfg 2) zeroMemory sendingEvents v ∧
      WriteRun WriteStep (smallWriteCfg 2) zeroMemory (sendingEvents ++ fs) u ∧
      Run WriteCall v.strm [(9, true), (10, false)] u.strm ∧ u.accepted = [7, 8, 9] := by
  obtain ⟨t, v, run, outside, full, accepted, completes⟩ : ∃ t v : WriteSystem UInt8,
      WriteRun WriteStep (smallWriteCfg 2) zeroMemory (sendingEvents.take 11) t ∧
        t.calling = none ∧ roomBytes (smallWriteCfg 2) t = 0 ∧ t.accepted = [7, 8] ∧
        WriteStep t .complete v :=
    ⟨_, _, ⟨_, rfl, _, .write rfl _, _, .step rfl, _, .step rfl, _, .write rfl _, _, .step rfl, _,
      .step rfl, _, .step rfl, _, .step rfl, _, .step rfl, _, .step rfl, _, .step rfl, rfl⟩,
      rfl, rfl, rfl, .complete rfl⟩
  obtain ⟨fs, u, reached, -, -, calls, total⟩ :=
    burst (n := 1) (by decide) (by decide) run outside ⟨v, completes, rfl⟩ [9, 10]
  rw [full] at calls total
  rw [accepted] at total
  exact ⟨v, u, fs, run.concat completes, reached, calls, total⟩

end Bursts

end ZeroStrm
