import ZeroStrm.Library.Countdown
import ZeroStrm.Read.Channel
import ZeroStrm.Read.Init

/-!
# When the timer flushes

An idle event records the remaining count and starts a countdown, a DMA-half event marks the
line as busy, and a tick counts down. `time_out` goes on to its `FLUSH` state when the countdown
ends at this tick, the line is still idle and the count is still the recorded one.

These are five members of the stream, read and written by three handlers (`Watch`). Each event
acts on them as a step of a small machine (`watch_step`), and after the last idle event they are
a function of the events since (`SinceIdle`). So `time_out` reaches `FLUSH` exactly at the tick
that the history of the run names (`timeOutFlush_iff`).
-/

set_option autoImplicit false

namespace ZeroStrm

open EventRuns Countdown

variable {β D ι : Type}

/-! ## The test of a tick -/

/-- `time_out`, called on this stream, runs the code of its `FLUSH` state. -/
def ReachesFlush (io : DmaRxIO β D) (s : StreamRead β D) : Prop :=
  TimeOut.flush ∈ (visited (timeOutState io) 3 s).map fun u => u.fsmTimeOut.chState

/-- The timer of the stream, as a countdown. -/
def countdown (s : StreamRead β D) : Timer := ⟨s.bTimerStart, s.wTimeStamp⟩

/-- **A tick of the timer is a tick of the countdown**, and reports whether it expires. -/
theorem isTimerTimeOut_eq (s : StreamRead β D) :
    ((isTimerTimeOut s).1 = true ↔ (countdown s).Expires) ∧
      (isTimerTimeOut s).2 =
        { s with bTimerStart := (countdown s).tick.running, wTimeStamp := (countdown s).tick.left } := by
  cases started : s.bTimerStart with
  | false =>
      have ticked : (countdown s).tick = countdown s := if_neg (by simp [countdown, started])
      rw [ticked, isTimerTimeOut, if_pos started]
      simp [countdown, Timer.Expires, started]
      simp [← started]
  | true =>
      have ticked : (countdown s).tick = ⟨1 < s.wTimeStamp, s.wTimeStamp - 1⟩ := if_pos started
      have counted : (if 0 < s.wTimeStamp then s.wTimeStamp - 1 else s.wTimeStamp) =
          s.wTimeStamp - 1 := by
        split <;> omega
      rw [ticked, isTimerTimeOut, if_neg (by simp [started])]
      dsimp only
      rw [counted]
      by_cases last : s.wTimeStamp - 1 = 0
      · have expires : s.wTimeStamp ≤ 1 := by omega
        rw [if_pos last]
        simp [countdown, Timer.Expires, started, expires]
      · have goesOn : ¬ s.wTimeStamp ≤ 1 := by omega
        rw [if_neg last]
        simp [countdown, Timer.Expires, started, Nat.not_le.mp goesOn]

/-- **The three conditions of a timeout.** -/
theorem isReallyTimeOut_iff (io : DmaRxIO β D) (s : StreamRead β D) :
    (isReallyTimeOut io s).1 = true ↔
      (countdown s).Expires ∧ s.bUartIdle = true ∧ s.hwDmaCntUartIdle = (io.fnDmaCntGet s.dma).1 := by
  obtain ⟨expires, ticked⟩ := isTimerTimeOut_eq s
  rw [← expires]
  unfold isReallyTimeOut
  simp only [ticked, isUartIdle, isEqualToCountBeforeTimeOut]
  cases (isTimerTimeOut s).1 <;> cases s.bUartIdle <;> simp

theorem reachesFlush_iff {io : DmaRxIO β D} {s : StreamRead β D} (quiet : Quiet s) :
    ReachesFlush io s ↔ (isReallyTimeOut io s).1 = true := by
  have here : s.fsmTimeOut.chState = 0 := quiet.timeOut
  unfold ReachesFlush
  cases really : (isReallyTimeOut io s).1 with
  | false =>
      rw [visited_timeOut_not_really quiet.timeOut really]
      simp [here]
  | true =>
      rw [visited_timeOut_really quiet.timeOut really]
      simp

/-! ## What the handlers keep about the last idle event -/

/-- The members of the stream that decide about a timeout. -/
structure Watch where
  timer : Timer
  bUartIdle : Bool
  hwDmaCntUartIdle : ℕ
  wSetTime : ℕ

def watch (s : StreamRead β D) : Watch :=
  { timer := countdown s
    bUartIdle := s.bUartIdle
    hwDmaCntUartIdle := s.hwDmaCntUartIdle
    wSetTime := s.wSetTime }

/-- What an event does to them, with the count that the channel shows. -/
def Watch.step (w : Watch) (count : ℕ) : ReadEvent ι → Watch
  | .arrive _ => w
  | .dmaHalf => { w with bUartIdle := false }
  | .uartIdle =>
    { w with timer := Timer.start w.wSetTime, bUartIdle := true, hwDmaCntUartIdle := count }
  | .tick => { w with timer := w.timer.tick }
  | .read => w

theorem watch_isReallyTimeOut (io : DmaRxIO β D) (s : StreamRead β D) :
    watch (isReallyTimeOut io s).2 = { watch s with timer := (countdown s).tick } := by
  have ticked := (isTimerTimeOut_eq s).2
  unfold isReallyTimeOut
  dsimp only
  split_ifs
  · rw [ticked]
    rfl
  · rw [ticked]
    rfl
  · rw [isEqualToCountBeforeTimeOut, ticked]
    rfl

theorem watch_dequeueState (s : StreamRead β D) (out : Option β) :
    watch (dequeueState (s, out)).1.1 = watch s := by
  simp only [dequeueState]
  split
  · rfl
  · split <;> rfl
  · split <;> rfl
  · rfl

/-- **Every event acts on the watch by itself.** -/
theorem watch_step (hw : RxHardware β D ι) {s : ReadSystem β D} (quiet : Quiet s.strm)
    (e : ReadEvent ι) :
    watch (readStep hw s e).strm =
      (watch s.strm).step (hw.fnDmaCntGet s.strm.dma).1 e := by
  cases e with
  | arrive i => rfl
  | dmaHalf =>
      simp only [readStep, zeroStrmUartDmaGetDataInsertToDmaIrqEventHandler,
        flushHt_eq quiet.flushHt]
      rfl
  | uartIdle => rfl
  | tick =>
      simp only [readStep, zeroStrmUartWaitTimeOutInsertToHardTimerIrqEventHandler]
      cases really : (isReallyTimeOut hw.toDmaRxIO s.strm).1 with
      | false =>
          rw [timeOut_not_really quiet.timeOut really]
          exact watch_isReallyTimeOut hw.toDmaRxIO s.strm
      | true =>
          rw [timeOut_really quiet.timeOut really]
          exact watch_isReallyTimeOut hw.toDmaRxIO s.strm
  | read => exact watch_dequeueState s.strm none

/-! ## The history of a run -/

/-- The number of ticks among events. -/
def ticks (es : List (ReadEvent ι)) : ℕ :=
  es.countP fun e => match e with
    | .tick => true
    | _ => false

@[simp] theorem ticks_append (es fs : List (ReadEvent ι)) :
    ticks (es ++ fs) = ticks es + ticks fs :=
  List.countP_append

/-- The watch, after the given events since the last idle event. -/
structure SinceIdle (wSetTime recorded : ℕ) (es : List (ReadEvent ι)) (w : Watch) : Prop where
  setTime : w.wSetTime = wSetTime
  timer : w.timer = Timer.after wSetTime (ticks es)
  idle : w.bUartIdle = true ↔ .dmaHalf ∉ es
  recorded : w.hwDmaCntUartIdle = recorded

/-- **One event more.** -/
theorem SinceIdle.step {wSetTime recorded : ℕ} {es : List (ReadEvent ι)} {w : Watch}
    (since : SinceIdle wSetTime recorded es w) (count : ℕ) {e : ReadEvent ι}
    (notIdle : e ≠ .uartIdle) : SinceIdle wSetTime recorded (es ++ [e]) (w.step count e) := by
  obtain ⟨setTime, timer, idle, recorded⟩ := since
  have noTick (other : ticks [e] = 0) :
      w.timer = Timer.after wSetTime (ticks (es ++ [e])) := by
    rw [ticks_append, other]
    exact timer
  have noHalf (other : .dmaHalf ≠ e) : w.bUartIdle = true ↔ .dmaHalf ∉ es ++ [e] := by
    simpa [other] using idle
  cases e with
  | arrive i => exact ⟨setTime, noTick rfl, noHalf nofun, recorded⟩
  | dmaHalf => exact ⟨setTime, noTick rfl, by simp [Watch.step], recorded⟩
  | uartIdle => exact absurd rfl notIdle
  | tick =>
      refine ⟨setTime, ?_, noHalf nofun, recorded⟩
      rw [ticks_append]
      exact (congrArg Timer.tick timer).trans (after_succ ..).symm
  | read => exact ⟨setTime, noTick rfl, noHalf nofun, recorded⟩

theorem sinceIdle_idle (w : Watch) (count : ℕ) :
    SinceIdle w.wSetTime count ([] : List (ReadEvent ι)) (w.step count (.uartIdle : ReadEvent ι)) :=
  ⟨rfl, rfl, by simp [Watch.step], rfl⟩

theorem SinceIdle.run {hw : RxHardware β D ι} {wSetTime recorded : ℕ}
    {es fs : List (ReadEvent ι)} {s t : ReadSystem β D}
    (since : SinceIdle wSetTime recorded es (watch s.strm)) (quiet : Quiet s.strm)
    (run : Run (ReadStep hw) s fs t) (noIdle : .uartIdle ∉ fs) :
    SinceIdle wSetTime recorded (es ++ fs) (watch t.strm) := by
  refine (run.history
    (fun done u => SinceIdle wSetTime recorded done (watch u.strm) ∧ Quiet u.strm)
    (· ≠ .uartIdle) es ?_ (fun e member same => noIdle (same ▸ member)) ⟨since, quiet⟩).1
  intro done u e v notIdle here step
  obtain rfl : v = readStep hw u e := step
  refine ⟨?_, here.2.step hw e⟩
  rw [watch_step hw here.2 e]
  exact here.1.step _ notIdle

/-- **The history decides about the flush.** -/
theorem SinceIdle.reachesFlush_iff {io : DmaRxIO β D} {wSetTime recorded : ℕ}
    {es : List (ReadEvent ι)} {s : StreamRead β D}
    (since : SinceIdle wSetTime recorded es (watch s)) (quiet : Quiet s) :
    ReachesFlush io s ↔
      ticks es + 1 = max 1 wSetTime ∧ .dmaHalf ∉ es ∧ (io.fnDmaCntGet s.dma).1 = recorded := by
  have timed : countdown s = Timer.after wSetTime (ticks es) := since.timer
  have counted : s.hwDmaCntUartIdle = recorded := since.recorded
  rw [ZeroStrm.reachesFlush_iff quiet, isReallyTimeOut_iff, timed, expires_iff, counted,
    eq_comm (a := recorded)]
  exact and_congr_right fun _ => and_congr_left fun _ => since.idle

/-! ## Whole runs -/

section Runs

variable {hw : RxHardware β D ι} {cfg : StreamReadCfg} {m : MemBlkFifo β} {dma : D}
  {es : List (ReadEvent ι)} {t : ReadSystem β D}

theorem ReadRun.quiet (run : ReadRun hw (ReadStep hw) cfg m dma es t) : Quiet t.strm := by
  obtain ⟨s, init, run⟩ := run
  exact (zeroStrmReadInit_spec init).quiet.run run

theorem ReadRun.setTime (run : ReadRun hw (ReadStep hw) cfg m dma es t) :
    t.strm.wSetTime = cfg.wTimeOutMs := by
  obtain ⟨s, init, run⟩ := run
  have initial := zeroStrmReadInit_spec init
  refine (run.invariant (fun u => Quiet u.strm ∧ u.strm.wSetTime = cfg.wTimeOutMs) ?_
    ⟨initial.quiet, initial.setTime⟩).2
  rintro u e v ⟨quiet, setTime⟩ rfl
  refine ⟨quiet.step hw e, Eq.trans ?_ setTime⟩
  have kept : (watch (readStep hw u e).strm).wSetTime = (watch u.strm).wSetTime := by
    rw [watch_step hw quiet e]
    cases e <;> rfl
  exact kept

theorem ReadRun.stopped (run : ReadRun hw (ReadStep hw) cfg m dma es t)
    (noIdle : .uartIdle ∉ es) : t.strm.bTimerStart = false := by
  obtain ⟨s, init, run⟩ := run
  have initial := zeroStrmReadInit_spec init
  refine (run.history (fun _ u => u.strm.bTimerStart = false ∧ Quiet u.strm)
    (· ≠ .uartIdle) [] ?_ (fun e member same => noIdle (same ▸ member))
    ⟨initial.notStarted, initial.quiet⟩).1
  intro _ u e v notIdle ⟨stopped, quiet⟩ step
  obtain rfl : v = readStep hw u e := step
  refine ⟨?_, quiet.step hw e⟩
  have next : (watch (readStep hw u e).strm).timer.running = _ :=
    congrArg (fun w => w.timer.running) (watch_step hw quiet e)
  refine next.trans ?_
  have still : (countdown u.strm).tick = countdown u.strm := if_neg (by simp [countdown, stopped])
  cases e with
  | uartIdle => exact absurd rfl notIdle
  | tick => exact (congrArg Timer.running still).trans stopped
  | _ => exact stopped

/-- A run with an idle event, split there. -/
theorem ReadRun.split_idle {before after : List (ReadEvent ι)}
    (run : ReadRun hw (ReadStep hw) cfg m dma (before ++ .uartIdle :: after) t) :
    ∃ u, ReadRun hw (ReadStep hw) cfg m dma before u ∧
      Run (ReadStep hw) (readStep hw u .uartIdle) after t ∧
      SinceIdle cfg.wTimeOutMs (hw.fnDmaCntGet u.strm.dma).1 ([] : List (ReadEvent ι))
        (watch (readStep hw u .uartIdle).strm) := by
  obtain ⟨s, init, run⟩ := run
  obtain ⟨u, first, v, idle, rest⟩ := run_append.mp run
  obtain rfl : v = readStep hw u .uartIdle := idle
  have before : ReadRun hw (ReadStep hw) cfg m dma before u := ⟨s, init, first⟩
  refine ⟨u, before, rest, ?_⟩
  rw [watch_step hw before.quiet, ← before.setTime]
  exact sinceIdle_idle (watch u.strm) _

/-- What a run has recorded, split at its last idle event. -/
theorem ReadRun.sinceIdle {before after : List (ReadEvent ι)}
    (run : ReadRun hw (ReadStep hw) cfg m dma (before ++ .uartIdle :: after) t)
    (noIdle : .uartIdle ∉ after) :
    ∃ u, ReadRun hw (ReadStep hw) cfg m dma before u ∧
      SinceIdle cfg.wTimeOutMs (hw.fnDmaCntGet u.strm.dma).1 after (watch t.strm) := by
  obtain ⟨u, first, rest, start⟩ := run.split_idle
  exact ⟨u, first, start.run (first.quiet.step hw _) rest noIdle⟩

theorem exists_last_idle (member : .uartIdle ∈ es) :
    ∃ before after, es = before ++ .uartIdle :: after ∧ .uartIdle ∉ after := by
  obtain ⟨after, before, split, fresh⟩ :=
    List.eq_append_cons_of_mem (List.mem_reverse.mpr member)
  refine ⟨before.reverse, after.reverse, ?_, by simpa using fresh⟩
  simpa using congrArg List.reverse split

/-- The last idle event names the tick: `after` are the events since. -/
def NamesTick (hw : RxHardware β D ι) (cfg : StreamReadCfg) (m : MemBlkFifo β) (dma : D)
    (es : List (ReadEvent ι)) (t : ReadSystem β D) : Prop :=
  ∃ before after u, es = before ++ .uartIdle :: after ∧ .uartIdle ∉ after ∧
    ReadRun hw (ReadStep hw) cfg m dma before u ∧
    ticks after + 1 = max 1 cfg.wTimeOutMs ∧ .dmaHalf ∉ after ∧
    (hw.fnDmaCntGet t.strm.dma).1 = (hw.fnDmaCntGet u.strm.dma).1

/-- **A tick reaches `FLUSH` exactly when the history names it.** -/
theorem ReadRun.reachesFlush_iff (run : ReadRun hw (ReadStep hw) cfg m dma es t) :
    ReachesFlush hw.toDmaRxIO t.strm ↔ NamesTick hw cfg m dma es t := by
  constructor
  · intro reaches
    by_cases member : .uartIdle ∈ es
    · obtain ⟨before, after, rfl, noIdle⟩ := exists_last_idle member
      obtain ⟨u, first, since⟩ := run.sinceIdle noIdle
      exact ⟨before, after, u, rfl, noIdle, first,
        (since.reachesFlush_iff run.quiet).mp reaches⟩
    · have expires := ((isReallyTimeOut_iff _ _).mp
        ((ZeroStrm.reachesFlush_iff run.quiet).mp reaches)).1
      have running : t.strm.bTimerStart = true := expires.1
      rw [run.stopped member] at running
      cases running
  · rintro ⟨before, after, u, rfl, noIdle, first, named⟩
    obtain ⟨u', first', since⟩ := run.sinceIdle noIdle
    obtain rfl := ReadRun.unique first first'
    exact (since.reachesFlush_iff run.quiet).mpr named

/-! ## The machines never fail -/

/-- What the machines of the receiver return in a state. -/
structure NoError (io : DmaRxIO β D) (s : StreamRead β D) : Prop where
  timeOutFresh : s.fsmTimeOut.chState = TimeOut.start
  flushFresh : s.fsmFlushHt.chState = StreamReadFlush.start
  tickFlushes : ReachesFlush io s → (timeOut io s).2 = some .cpl
  tickWaits : ¬ ReachesFlush io s → (timeOut io s).2 = some .onGoing
  dmaHalf : (flushHt io (setUartBusy (setDmaIdle s))).2 = some .cpl
  read : ∀ out, (dequeueState (s, out)).2 ≠ .ret .err

theorem dequeueState_noError {s : StreamRead β D} (out : Option β)
    (valid : s.fsmDequeue.chState ≤ Dequeue.getByteFifo) :
    (dequeueState (s, out)).2 ≠ .ret .err := by
  intro failed
  simp only [dequeueState] at failed
  split at failed
  · cases failed
  · split at failed <;> cases failed
  · split at failed <;> cases failed
  · next notStart notOut notGet =>
      have valid : s.fsmDequeue.chState ≤ 2 := valid
      have notStart : s.fsmDequeue.chState ≠ 0 := notStart
      have notOut : s.fsmDequeue.chState ≠ 1 := notOut
      have notGet : s.fsmDequeue.chState ≠ 2 := notGet
      omega

theorem Quiet.noError (io : DmaRxIO β D) {s : StreamRead β D} (quiet : Quiet s) :
    NoError io s where
  timeOutFresh := quiet.timeOut
  flushFresh := quiet.flushHt
  tickFlushes reaches := by
    rw [timeOut_really quiet.timeOut ((reachesFlush_iff quiet).mp reaches)]
  tickWaits waits := by
    have really := mt (reachesFlush_iff quiet).mpr waits
    rw [timeOut_not_really quiet.timeOut (Bool.eq_false_iff.mpr really)]
  dmaHalf := by rw [flushHt_eq quiet.flushHt]
  read out := dequeueState_noError out quiet.dequeue

/-! ## Counters that only go down -/

/-- The callback shows a count that the channel, between two starts, only lowers. -/
structure CountsDown (hw : RxHardware β D ι) (count : D → ℕ) : Prop where
  get : ∀ d, (hw.fnDmaCntGet d).1 = count d
  get_keeps : ∀ d, count (hw.fnDmaCntGet d).2 = count d
  arrive_le : ∀ i m d, count (hw.arrive i m d).2 ≤ count d

variable {count : D → ℕ}

theorem dequeueState_dma (s : StreamRead β D) (out : Option β) :
    (dequeueState (s, out)).1.1.dma = s.dma := by
  simp only [dequeueState]
  split
  · rfl
  · split <;> rfl
  · split <;> rfl
  · rfl

/-- A tick that is no timeout may read the count. -/
theorem isReallyTimeOut_dma (io : DmaRxIO β D) (s : StreamRead β D) :
    (isReallyTimeOut io s).2.dma = s.dma ∨
      (isReallyTimeOut io s).2.dma = (io.fnDmaCntGet s.dma).2 := by
  obtain ⟨_, _, dma, read, changed⟩ := isReallyTimeOut_changes io s
  rw [changed]
  exact read

/-- **An event that does not flush does not raise the count.** -/
theorem CountsDown.step (counts : CountsDown hw count) {s : ReadSystem β D}
    (quiet : Quiet s.strm) {e : ReadEvent ι} (notHalf : e ≠ .dmaHalf)
    (noFlush : e = .tick → ¬ ReachesFlush hw.toDmaRxIO s.strm) :
    count (readStep hw s e).strm.dma ≤ count s.strm.dma := by
  cases e with
  | arrive i => exact counts.arrive_le i s.strm.tMemBlockFifo s.strm.dma
  | dmaHalf => exact absurd rfl notHalf
  | uartIdle => exact (counts.get_keeps s.strm.dma).le
  | tick =>
      have really := Bool.eq_false_iff.mpr (mt (reachesFlush_iff quiet).mpr (noFlush rfl))
      simp only [readStep, zeroStrmUartWaitTimeOutInsertToHardTimerIrqEventHandler]
      rw [timeOut_not_really quiet.timeOut really]
      rcases isReallyTimeOut_dma hw.toDmaRxIO s.strm with same | read
      · exact (congrArg count same).le
      · exact ((congrArg count read).trans (counts.get_keeps s.strm.dma)).le
  | read => exact (congrArg count (dequeueState_dma s.strm none)).le

/-- The events since the last idle event do not raise the count while the tick that the history
names is still to come. -/
theorem CountsDown.run (counts : CountsDown hw count) {wSetTime recorded : ℕ}
    {done : List (ReadEvent ι)} {s : ReadSystem β D}
    (since : SinceIdle wSetTime recorded done (watch s.strm)) (quiet : Quiet s.strm)
    (run : Run (ReadStep hw) s es t) (noIdle : .uartIdle ∉ es) (noHalf : .dmaHalf ∉ es)
    (early : ticks (done ++ es) < max 1 wSetTime) : count t.strm.dma ≤ count s.strm.dma := by
  have kept := run.history
    (fun done u => SinceIdle wSetTime recorded done (watch u.strm) ∧ Quiet u.strm ∧
      (ticks done < max 1 wSetTime → count u.strm.dma ≤ count s.strm.dma))
    (fun e => e ≠ .uartIdle ∧ e ≠ .dmaHalf) done ?_
    (fun e member => ⟨fun same => noIdle (same ▸ member), fun same => noHalf (same ▸ member)⟩)
    ⟨since, quiet, fun _ => le_rfl⟩
  · exact kept.2.2 early
  rintro done u e v ⟨notIdle, notHalf⟩ ⟨since, quiet, lowered⟩ rfl
  refine ⟨?_, quiet.step hw e, ?_⟩
  · rw [watch_step hw quiet e]
    exact since.step _ notIdle
  · intro early
    rw [ticks_append] at early
    refine (counts.step quiet notHalf ?_).trans (lowered (by omega))
    rintro rfl reaches
    obtain ⟨last, -, -⟩ := (since.reachesFlush_iff quiet).mp reaches
    have one : ticks [(.tick : ReadEvent ι)] = 1 := rfl
    omega

/-- Between an idle event and the flush that it leads to, the count stays where it is. -/
theorem CountsDown.level (counts : CountsDown hw count) {wSetTime : ℕ}
    {first second : List (ReadEvent ι)} {s u : ReadSystem β D} (quiet : Quiet s.strm)
    (start : SinceIdle wSetTime (count s.strm.dma) ([] : List (ReadEvent ι)) (watch s.strm))
    (toHere : Run (ReadStep hw) s first u) (toTick : Run (ReadStep hw) u second t)
    (noIdle : .uartIdle ∉ first ++ second) (reaches : ReachesFlush hw.toDmaRxIO t.strm) :
    count u.strm.dma = count t.strm.dma := by
  have run := run_append.mpr ⟨u, toHere, toTick⟩
  obtain ⟨last, noHalf, same⟩ :=
    ((start.run quiet run noIdle).reachesFlush_iff (quiet.run run)).mp reaches
  rw [List.nil_append] at last noHalf
  rw [counts.get] at same
  simp only [List.mem_append, not_or] at noIdle noHalf
  rw [ticks_append] at last
  have before : count u.strm.dma ≤ count s.strm.dma :=
    counts.run start quiet toHere noIdle.1 noHalf.1 (by rw [List.nil_append]; omega)
  have after : count t.strm.dma ≤ count u.strm.dma :=
    counts.run (start.run quiet toHere noIdle.1) (quiet.run toHere) toTick noIdle.2 noHalf.2
      (by rw [List.nil_append, ticks_append]; omega)
  omega

/-- The arrivals since the last idle event stored nothing. -/
def NothingStored (hw : RxHardware β D ι) (count : D → ℕ) (cfg : StreamReadCfg)
    (m : MemBlkFifo β) (dma : D) (es : List (ReadEvent ι)) : Prop :=
  ∀ before mid after i u, es = before ++ .uartIdle :: (mid ++ .arrive i :: after) →
    .uartIdle ∉ mid ++ .arrive i :: after →
    ReadRun hw (ReadStep hw) cfg m dma (before ++ .uartIdle :: mid) u →
    count (hw.arrive i u.strm.tMemBlockFifo u.strm.dma).2 = count u.strm.dma

/-- **A timeout flush means that nothing was stored since the idle event.** -/
theorem CountsDown.nothingStored (counts : CountsDown hw count)
    (run : ReadRun hw (ReadStep hw) cfg m dma es t)
    (reaches : ReachesFlush hw.toDmaRxIO t.strm) : NothingStored hw count cfg m dma es := by
  rintro before mid after i u rfl noIdle sofar
  obtain ⟨u₀, first, later, start⟩ := run.split_idle
  have quiet : Quiet (readStep hw u₀ .uartIdle).strm := first.quiet.step hw _
  have recorded : (hw.fnDmaCntGet u₀.strm.dma).1 =
      count (readStep hw u₀ .uartIdle).strm.dma :=
    (counts.get _).trans (counts.get_keeps _).symm
  rw [recorded] at start
  obtain ⟨u', toHere, w, arrived, rest⟩ := run_append.mp later
  obtain rfl : u = u' := by
    obtain ⟨s, init, run₀⟩ := first
    exact sofar.unique ⟨s, init, run_append.mpr ⟨u₀, run₀, _, rfl, toHere⟩⟩
  have before := counts.level quiet start toHere (run_cons.mpr ⟨w, arrived, rest⟩) noIdle reaches
  have after := counts.level quiet start (run_concat.mpr ⟨u, toHere, arrived⟩) rest
    (by simpa using noIdle) reaches
  rw [arrived] at after
  exact after.trans before.symm

/-! ## The timeout flush -/

/-- **The timeout flush fires exactly when it should.** A tick reaches `FLUSH` if and only if
the last idle event before it names it: it is the tick number `max 1 wTimeOutMs` since, without
a DMA-half event since, and the count is the one that was recorded. So an idle event leads to
one flush at most, the machines are at their start after every event and never return an error,
and with a counter that only goes down nothing was stored between the idle event and the
flush. -/
theorem timeOutFlush_iff (run : ReadRun hw (ReadStep hw) cfg m dma es t) :
    (ReachesFlush hw.toDmaRxIO t.strm ↔ NamesTick hw cfg m dma es t) ∧
      (ReachesFlush hw.toDmaRxIO t.strm → ∀ between v,
        Run (ReadStep hw) t (.tick :: between) v → ReachesFlush hw.toDmaRxIO v.strm →
        .uartIdle ∈ between) ∧
      NoError hw.toDmaRxIO t.strm ∧
      (∀ count, CountsDown hw count → ReachesFlush hw.toDmaRxIO t.strm →
        NothingStored hw count cfg m dma es) := by
  refine ⟨run.reachesFlush_iff, ?_, run.quiet.noError _,
    fun count counts reaches => counts.nothingStored run reaches⟩
  intro reaches between v more again
  by_contra noIdle
  obtain ⟨before, after, u, rfl, notAfter, first, named⟩ := run.reachesFlush_iff.mp reaches
  have whole : ReadRun hw (ReadStep hw) cfg m dma
      (before ++ .uartIdle :: (after ++ .tick :: between)) v := by
    obtain ⟨s, init, run⟩ := run
    exact ⟨s, init, by simpa using run_append.mpr ⟨t, run, more⟩⟩
  obtain ⟨w, -, since⟩ := whole.sinceIdle (by simp [notAfter, noIdle])
  obtain ⟨last, -, -⟩ := (since.reachesFlush_iff whole.quiet).mp again
  have later : ticks (after ++ .tick :: between) = ticks after + (ticks between + 1) := by
    rw [ticks_append]
    simp [ticks]
  omega

end Runs

/-- The count of the channel goes down between two starts. -/
theorem dmaRx_countsDown :
    CountsDown (dmaRx : RxHardware β (DmaRx β) β) fun d => d.length - d.count where
  get _ := rfl
  get_keeps _ := rfl
  arrive_le byte m d := by
    simp only [dmaRx]
    split
    · exact Nat.sub_le_sub_left (Nat.le_succ _) _
    · exact le_rfl

/-- A timeout of two ticks: a byte, an idle event and a tick, and the next tick flushes. -/
theorem timeOutFlush_iff_twoTicks :
    ∃ t, ReadRun dmaRx (ReadStep dmaRx) (smallCfg 2) zeroMemory DmaRx.reset
        [.arrive 7, .uartIdle, .tick] t ∧
      ReachesFlush dmaRx.toDmaRxIO t.strm ∧
      NothingStored dmaRx (fun d => d.length - d.count) (smallCfg 2) zeroMemory DmaRx.reset
        [.arrive 7, .uartIdle, .tick] := by
  obtain ⟨s, init⟩ : ∃ s,
      zeroStrmReadInit dmaRx.toDmaRxIO (smallCfg 2) zeroMemory DmaRx.reset = some s := ⟨_, rfl⟩
  obtain ⟨u, first⟩ : ∃ u, Run (ReadStep dmaRx) ⟨s, []⟩ [.arrive 7] u := ⟨_, _, rfl, rfl⟩
  obtain ⟨t, rest⟩ : ∃ t, Run (ReadStep dmaRx) u [.uartIdle, .tick] t :=
    ⟨_, _, rfl, _, rfl, rfl⟩
  have run : ReadRun dmaRx (ReadStep dmaRx) (smallCfg 2) zeroMemory DmaRx.reset
      [.arrive 7, .uartIdle, .tick] t := ⟨s, init, run_append.mpr ⟨u, first, rest⟩⟩
  have names : NamesTick dmaRx (smallCfg 2) zeroMemory DmaRx.reset
      [.arrive 7, .uartIdle, .tick] t := by
    refine ⟨[.arrive 7], [.tick], u, rfl, by decide, ⟨s, init, first⟩, by decide, by decide, ?_⟩
    obtain rfl := Option.some.inj init
    obtain ⟨_, rfl, rfl⟩ := first
    obtain ⟨_, rfl, _, rfl, rfl⟩ := rest
    rfl
  obtain ⟨fires, -, -, nothing⟩ := timeOutFlush_iff run
  have reaches := fires.mpr names
  exact ⟨t, run, reaches, nothing _ dmaRx_countsDown reaches⟩

end ZeroStrm
