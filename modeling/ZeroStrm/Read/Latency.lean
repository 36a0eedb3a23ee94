import ZeroStrm.Read.Delivery
import ZeroStrm.Read.Safety
import ZeroStrm.Read.TimeOut

/-!
# How late a byte is, and how far the reader may fall behind

A stored byte can be read from the next flush on. Two questions remain for a user of the
receiver. When is that flush, if the line falls silent? At the tick that ends the countdown of
the last idle event, and at no tick before, as long as a flush with data finds a block
(`timeOutLatency`). And how often must the application read, so that it does? Each unread block
has an unread byte, so it is enough that fewer than `chCnt - 2` flushed bytes are unread at each
flush with data (`keepsUp_findsBlock`). No larger number will do, however large the blocks are
(`keepsUp_sharp`): a flush takes a whole block for a single byte. A flush without data may find
no block, and needs none.
-/

set_option autoImplicit false

namespace ZeroStrm

open EventRuns FifoChannel

variable {β : Type}

/-! ## The silent line -/

/-- The bytes of the receiving block, and where they lie. -/
structure SameReceiving (s t : RxStream β) : Prop where
  dma : t.dma = s.dma
  dmaBlock : t.ptByteFifoDmaRx = s.ptByteFifoDmaRx
  memory : t.tMemBlockFifo.chMemory = s.tMemBlockFifo.chMemory

theorem SameReceiving.trans {s t u : RxStream β} (first : SameReceiving s t)
    (second : SameReceiving t u) : SameReceiving s u :=
  ⟨second.dma.trans first.dma, second.dmaBlock.trans first.dmaBlock,
    second.memory.trans first.memory⟩

theorem SameReceiving.bytes {s t : RxStream β} (same : SameReceiving s t) :
    dmaBytes t = dmaBytes s := by
  rw [dmaBytes, same.dma, same.dmaBlock, same.memory]
  rfl

theorem SameData.receiving {s t : RxStream β} (same : SameData s t) : SameReceiving s t :=
  ⟨same.dma, same.dmaBlock, congrArg MemBlkFifo.chMemory same.pool⟩

/-- What holds since an idle event, while the line is silent: `s` is the receiver at that event and
`done` are the events since. -/
structure Silent (cfg : StreamReadCfg) (s : ReadSystem β (DmaRx β)) (done : List (ReadEvent β))
    (t : ReadSystem β (DmaRx β)) : Prop where
  shows : ∃ c, Shows cfg.chCnt cfg.readBuffCnt t c ∧ c.Lossless
  since : SinceIdle cfg.wTimeOutMs (dmaRx.fnDmaCntGet s.strm.dma).1 done (watch t.strm)
  noHalf : .dmaHalf ∉ done
  waits : ticks done < max 1 cfg.wTimeOutMs → SameReceiving s.strm t.strm
  delivered : max 1 cfg.wTimeOutMs ≤ ticks done → t.strm.dma.count = 0

section Silence

variable {cfg : StreamReadCfg} {m : MemBlkFifo β} {s t u : ReadSystem β (DmaRx β)}
  {done es fs : List (ReadEvent β)} {e : ReadEvent β}

theorem Silent.quiet (silent : Silent cfg s done t) : Quiet t.strm := by
  obtain ⟨c, shows, -⟩ := silent.shows
  exact shows.1

/-- A state of `dequeue` does not touch the receiving block. -/
theorem Silent.read (small : cfg.readBuffCnt < 2 ^ 16) (silent : Silent cfg s done t)
    (step : guarded (ReadStep dmaRx) FlushFindsBlock t .read u) :
    Silent cfg s (done ++ [.read]) u := by
  have frame := (dequeueState_effect silent.quiet.dequeue).frame
  have same : SameReceiving t.strm u.strm := by
    obtain ⟨-, rfl⟩ := step
    exact ⟨frame.1, frame.2.1, frame.2.2⟩
  have count : ticks (done ++ [.read]) = ticks done := ticks_append done [.read]
  refine ⟨(read_refines small).kept step silent.shows, ?_, by simpa using silent.noHalf, ?_, ?_⟩
  · obtain ⟨-, rfl⟩ := step
    rw [watch_step dmaRx silent.quiet]
    exact silent.since.step _ nofun
  · rw [count]
    exact fun early => (silent.waits early).trans same
  · rw [count, same.dma]
    exact silent.delivered

/-- **A tick flushes when the countdown ends**, and otherwise leaves the receiving block alone. -/
theorem Silent.tick (small : cfg.readBuffCnt < 2 ^ 16) (silent : Silent cfg s done t)
    (step : guarded (ReadStep dmaRx) FlushFindsBlock t .tick u) :
    Silent cfg s (done ++ [.tick]) u := by
  have count : ticks (done ++ [.tick]) = ticks done + 1 := ticks_append done [.tick]
  have due : flushes t.strm .tick = true ↔ ticks done + 1 = max 1 cfg.wTimeOutMs ∧
      .dmaHalf ∉ done ∧ (dmaRx.fnDmaCntGet t.strm.dma).1 = (dmaRx.fnDmaCntGet s.strm.dma).1 := by
    have named : ReachesFlush dmaRx.toDmaRxIO t.strm ↔ _ :=
      silent.since.reachesFlush_iff silent.quiet
    rw [← named, reachesFlush_iff silent.quiet]
    rfl
  obtain ⟨c, ⟨quiet, free, queue, flow, rfl⟩, lossless⟩ := silent.shows
  obtain ⟨-, -, -, -, empty⟩ := flow.step small quiet lossless step.1 step.2
  have rests : flushes t.strm .tick = false → SameReceiving t.strm u.strm := by
    intro notDue
    cases step.2.effect quiet with
    | flush ran => rw [notDue] at ran; cases ran
    | idle _ same => exact same.receiving
  refine ⟨(read_refines small).kept step silent.shows, ?_, by simpa using silent.noHalf, ?_, ?_⟩
  · obtain ⟨-, rfl⟩ := step
    rw [watch_step dmaRx quiet]
    exact silent.since.step _ nofun
  · rw [count]
    intro early
    refine (silent.waits (by omega)).trans (rests ?_)
    rw [Bool.eq_false_iff, ne_eq, due]
    omega
  · rw [count]
    intro late
    by_cases already : max 1 cfg.wTimeOutMs ≤ ticks done
    · by_cases ran : flushes t.strm .tick = true
      · exact empty ran
      · rw [(rests (Bool.eq_false_iff.mpr ran)).dma]
        exact silent.delivered already
    · have same := silent.waits (by omega)
      refine empty (due.mpr ⟨by omega, silent.noHalf, ?_⟩)
      rw [same.dma]

/-- An idle event starts the countdown and moves nothing. -/
theorem silent_idle (positive : 0 < cfg.readBuffCnt) (small : cfg.readBuffCnt < 2 ^ 16)
    (run : ReadRun dmaRx (guarded (ReadStep dmaRx) FlushFindsBlock) cfg m DmaRx.reset es s)
    (idle : guarded (ReadStep dmaRx) FlushFindsBlock s .uartIdle t) : Silent cfg s [] t := by
  obtain ⟨strm, init, run⟩ := run
  have initial := zeroStrmReadInit_spec init
  obtain ⟨c, shows, lossless⟩ :=
    (read_refines small).lossless run (initial.shows positive small)
  have setTime := ReadRun.setTime ⟨strm, init, run.unguarded⟩
  have kept := (read_refines small).kept idle ⟨c, shows, lossless⟩
  obtain ⟨-, rfl⟩ := idle
  refine ⟨kept, ?_, nofun, fun _ => ⟨rfl, rfl, rfl⟩, ?_⟩
  · rw [watch_step dmaRx shows.1, ← setTime]
    exact sinceIdle_idle (watch s.strm) _
  · intro late
    have none : ticks ([] : List (ReadEvent β)) = 0 := rfl
    omega

/-- **A silent line is flushed at the tick that ends the countdown**, in a run whose flushes with
data find a block. After an idle event, while nothing arrives and no other interrupt comes, the
receiving block keeps its bytes for as many ticks as `wTimeOutMs` says, or for one. Then it is
empty, and repeated calls of `zero_strm_read` return every byte that was stored. -/
theorem timeOutLatency (positive : 0 < cfg.readBuffCnt) (small : cfg.readBuffCnt < 2 ^ 16)
    (run : ReadRun dmaRx (guarded (ReadStep dmaRx) FlushFindsBlock) cfg m DmaRx.reset es s)
    (after : Run (guarded (ReadStep dmaRx) FlushFindsBlock) s (.uartIdle :: fs) t)
    (silence : ∀ e ∈ fs, e = .tick ∨ e = .read) :
    (ticks fs < max 1 cfg.wTimeOutMs → dmaBytes t.strm = dmaBytes s.strm) ∧
      (max 1 cfg.wTimeOutMs ≤ ticks fs → dmaBytes t.strm = [] ∧
        ∃ budget calls bytes v, readAll budget calls t.strm = some (bytes, v) ∧
          t.returned ++ bytes = t.strm.dma.stored) := by
  obtain ⟨u, idle, rest⟩ := after
  have silent : Silent cfg s fs t := by
    refine rest.history (fun done v => Silent cfg s done v) (fun e => e = .tick ∨ e = .read) []
      ?_ silence (silent_idle positive small run idle)
    rintro done v e w (rfl | rfl) here step
    · exact here.tick small step
    · exact here.read small step
  refine ⟨fun early => (silent.waits early).bytes, ?_⟩
  intro late
  have noDma : dmaBytes t.strm = [] := by
    rw [dmaBytes, silent.delivered late]
    rfl
  obtain ⟨c, ⟨-, free, queue, flow, rfl⟩, lossless⟩ := silent.shows
  obtain ⟨v, all⟩ := readAll_available flow.readable.poppable le_rfl
    (Nat.lt_succ_self (available t.strm queue).length)
  refine ⟨noDma, _, _, _, v, all, ?_⟩
  have stored : t.strm.dma.stored = t.returned ++ (available t.strm queue ++ dmaBytes t.strm) :=
    lossless
  rw [stored, noDma, List.append_nil]

end Silence

/-- A byte that is followed by an idle event and two ticks can be read. -/
theorem timeOutLatency_twoTicks :
    ∃ s t budget calls bytes v,
      ReadRun dmaRx (guarded (ReadStep dmaRx) FlushFindsBlock) (smallCfg 3) zeroMemory
        DmaRx.reset [.arrive 7] s ∧
      Run (guarded (ReadStep dmaRx) FlushFindsBlock) s [.uartIdle, .tick, .tick] t ∧
      readAll budget calls t.strm = some (bytes, v) ∧ bytes = [7] := by
  obtain ⟨s, t, run, after, returned, stored⟩ : ∃ s t,
      ReadRun dmaRx (guarded (ReadStep dmaRx) FlushFindsBlock) (smallCfg 3) zeroMemory
        DmaRx.reset [.arrive 7] s ∧
      Run (guarded (ReadStep dmaRx) FlushFindsBlock) s [.uartIdle, .tick, .tick] t ∧
      t.returned = [] ∧ t.strm.dma.stored = [7] :=
    ⟨_, _, ⟨_, rfl, _, ⟨nofun, rfl⟩, rfl⟩, ⟨_, ⟨nofun, rfl⟩, _, ⟨nofun, rfl⟩, _,
      ⟨fun _ _ => nofun, rfl⟩, rfl⟩, rfl, rfl⟩
  obtain ⟨-, budget, calls, bytes, v, all, total⟩ :=
    (timeOutLatency (by decide) (by decide) run after (by simp)).2 (by decide)
  rw [returned, stored] at total
  exact ⟨s, t, budget, calls, bytes, v, run, after, all, total⟩

/-! ## The backlog -/

/-- The flushed bytes that are not returned yet. -/
def unread (s : ReadSystem β (DmaRx β)) : ℕ :=
  s.strm.dma.stored.length - s.returned.length - s.strm.dma.count

/-- At a flush with data, fewer than `count - 2` flushed bytes are unread. -/
def KeepsUp (count : ℕ) (s : ReadSystem β (DmaRx β)) (e : ReadEvent β) : Prop :=
  flushes s.strm e = true → s.strm.dma.count ≠ 0 → unread s + 2 < count

section Backlog

variable {cfg : StreamReadCfg} {m : MemBlkFifo β} {strm : RxStream β}
  {s t : ReadSystem β (DmaRx β)} {count buffCnt limit total : ℕ} {free queue : List Addr}

/-- Every queued block has an unread byte. -/
theorem Flow.queue_le_unread (flow : Flow count buffCnt s free queue)
    (lossless : (rxChannel s queue).Lossless) (safe : ReadSafe count limit total s.strm) :
    queue.length ≤ unread s := by
  have stored := Flow.stored_length lossless
  have inside : ∀ block ∈ queue, block < count := by
    intro block member
    have within := flow.owned.partition.mem_iff (a := block)
    rw [List.mem_range] at within
    exact within.mp (by simp [member])
  have most : queue.length ≤ (queue.flatMap s.strm.tMemBlockFifo.blockBytes).length := by
    clear stored lossless flow
    induction queue with
    | nil => exact Nat.zero_le _
    | cons block queue ih =>
        have size := (safe.sizes block (inside block (List.mem_cons_self ..))).1
        have rest := ih fun b member => inside b (List.mem_cons_of_mem _ member)
        rw [List.flatMap_cons, List.length_append, List.length_cons, length_blockBytes]
        omega
  have located : (located s.strm queue).length = (available s.strm queue).length := by
    rw [← map_snd_located, List.length_map]
  have parts : (available s.strm queue).length =
      (s.strm.tByteFifo.content s.strm.tMemBlockFifo).length +
        (queue.flatMap s.strm.tMemBlockFifo.blockBytes).length := List.length_append
  unfold unread
  omega

/-- So a free block is left. -/
theorem Flow.findsBlock (flow : Flow count buffCnt s free queue)
    (lossless : (rxChannel s queue).Lossless) (safe : ReadSafe count limit total s.strm)
    (few : unread s + 2 < count) : s.strm.tMemBlockFifo.ptFreeList ≠ none := by
  intro none
  have queued := flow.queue_le_unread lossless safe
  have top := flow.owned.represents.stack.start
  rw [none] at top
  obtain rfl : free = [] := List.head?_eq_none_iff.mp top.symm
  have blocks := flow.owned.partition.length_eq
  have held : (dequeueHolds s.strm).length ≤ 1 := by
    unfold dequeueHolds
    split <;> simp
  simp only [List.nil_append, List.length_append, List.length_cons, List.length_range] at blocks
  omega

/-- What the steps of a reader that keeps up preserve. -/
def KeepingUp (cfg : StreamReadCfg) (s : ReadSystem β (DmaRx β)) : Prop :=
  (∃ c, Shows cfg.chCnt cfg.readBuffCnt s c ∧ c.Lossless) ∧
    ReadSafely cfg.chCnt (2 ^ 16 - 1) cfg.readBuffCnt (fun _ => True) s

theorem KeepingUp.findsBlock {e : ReadEvent β} (inv : KeepingUp cfg s)
    (keepsUp : KeepsUp cfg.chCnt s e) : FlushFindsBlock s e := by
  obtain ⟨⟨c, ⟨-, free, queue, flow, rfl⟩, lossless⟩, safely⟩ := inv
  intro ran something
  rw [flow.agrees.count] at something
  exact flow.findsBlock lossless safely.safe (keepsUp ran something)

theorem KeepingUp.kept {e : ReadEvent β} (positive : 0 < cfg.readBuffCnt)
    (small : cfg.readBuffCnt < 2 ^ 16) (inv : KeepingUp cfg s) (keepsUp : KeepsUp cfg.chCnt s e)
    (step : ReadStep dmaRx s e t) : KeepingUp cfg t := by
  have tame := (dmaRx_fits (β := β) cfg).dataOnly.tame cfg.chCnt cfg.readBuffCnt
  exact ⟨(read_refines small).kept ⟨inv.findsBlock keepsUp, step⟩ inv.1,
    inv.2.kept tame positive (Nat.le_pred_of_lt small) (by decide) step⟩

theorem keepingUp_init (positive : 0 < cfg.readBuffCnt) (small : cfg.readBuffCnt < 2 ^ 16)
    (init : zeroStrmReadInit dmaRx.toDmaRxIO cfg m DmaRx.reset = some strm) :
    KeepingUp cfg (⟨strm, []⟩ : ReadSystem β (DmaRx β)) := by
  have tame := (dmaRx_fits (β := β) cfg).dataOnly.tame cfg.chCnt cfg.readBuffCnt
  exact ⟨(zeroStrmReadInit_spec init).shows positive small,
    readSafely_init tame positive (Nat.le_pred_of_lt small) (by decide) init []⟩

/-- **A reader that keeps up loses nothing.** If at each flush with data fewer than `chCnt - 2`
flushed bytes are unread, then each flush with data finds a block, and what is returned are the
first stored bytes. -/
theorem keepsUp_findsBlock (positive : 0 < cfg.readBuffCnt) (small : cfg.readBuffCnt < 2 ^ 16)
    (init : zeroStrmReadInit dmaRx.toDmaRxIO cfg m DmaRx.reset = some strm)
    {es : List (ReadEvent β)}
    (run : Run (guarded (ReadStep dmaRx) (KeepsUp cfg.chCnt)) ⟨strm, []⟩ es t) :
    Run (guarded (ReadStep dmaRx) FlushFindsBlock) ⟨strm, []⟩ es t ∧
      t.returned <+: t.strm.dma.stored := by
  have start : KeepingUp cfg (⟨strm, []⟩ : ReadSystem β (DmaRx β)) :=
    keepingUp_init positive small init
  have ends : KeepingUp cfg t := run.invariant (KeepingUp cfg)
    (fun _ _ _ inv step => inv.kept positive small step.1 step.2) start
  obtain ⟨⟨c, ⟨-, free, queue, -, rfl⟩, lossless⟩, -⟩ := ends
  refine ⟨?_, lossless.received_prefix⟩
  exact run.guarded_mono (KeepingUp cfg) (fun _ _ _ inv met => inv.kept positive small met)
    (fun _ _ inv met => inv.findsBlock met) start

/-- A receiver that has queued `n` blocks, and whose reader has not begun. -/
structure Crowded (cfg : StreamReadCfg) (n : ℕ) (s : ReadSystem β (DmaRx β))
    (free queue : List Addr) : Prop where
  quiet : Quiet s.strm
  flow : Flow cfg.chCnt cfg.readBuffCnt s free queue
  lossless : (rxChannel s queue).Lossless
  queued : queue.length = n
  empty : s.strm.dma.count = 0
  stored : s.strm.dma.stored.length = n
  notBegun : s.strm.fsmDequeue.chState = Dequeue.start
  nothing : s.returned = []

/-- The free blocks of a crowded receiver. -/
theorem Crowded.free_length {n : ℕ} (crowded : Crowded cfg n s free queue) :
    free.length + n + 2 = cfg.chCnt := by
  have blocks := crowded.flow.owned.partition.length_eq
  have queued := crowded.queued
  have notParked : s.strm.fsmDequeue.chState ≠ Dequeue.getByteFifo := by
    rw [crowded.notBegun]
    decide
  rw [dequeueHolds, if_neg notParked] at blocks
  simp only [List.length_append, List.length_cons, List.length_nil, List.length_range] at blocks
  omega

/-- One more byte: it is the only flushable one. -/
theorem Crowded.arrive {n : ℕ} (positive : 0 < cfg.readBuffCnt) (small : cfg.readBuffCnt < 2 ^ 16)
    (crowded : Crowded cfg n s free queue) (byte : β) :
    ∃ t, ReadStep dmaRx s (.arrive byte) t ∧ Quiet t.strm ∧
      Flow cfg.chCnt cfg.readBuffCnt t free queue ∧ (rxChannel t queue).Lossless ∧
      t.strm.dma.count = 1 ∧ t.strm.dma.stored.length = n + 1 ∧ unread t = n ∧
      t.strm.fsmDequeue.chState = Dequeue.start ∧ t.returned = [] := by
  obtain ⟨flow, move⟩ := crowded.flow.arrived small byte
  have room : s.strm.dma.count < s.strm.dma.length := by
    rw [crowded.empty, crowded.flow.agrees.length, crowded.flow.agrees.total]
    exact positive
  have step : ReadStep dmaRx s (.arrive byte) ⟨arrived s.strm byte, s.returned⟩ := rfl
  have count : (arrived s.strm byte).dma.count = 1 := by
    rw [arrived_room byte room]
    exact congrArg Nat.succ crowded.empty
  have stored : (arrived s.strm byte).dma.stored.length = n + 1 := by
    rw [arrived_room byte room]
    simp [crowded.stored]
  refine ⟨_, step, crowded.quiet.kept step, flow, move.lossless crowded.lossless, count, stored, ?_,
    crowded.notBegun, crowded.nothing⟩
  simp only [unread, stored, count, crowded.nothing, List.length_nil]
  omega

/-- Its flush takes a block. -/
theorem Crowded.round {n : ℕ} (positive : 0 < cfg.readBuffCnt) (small : cfg.readBuffCnt < 2 ^ 16)
    (crowded : Crowded cfg n s free queue) (more : n + 2 < cfg.chCnt) (byte : β) :
    ∃ t free' queue', Run (guarded (ReadStep dmaRx) (KeepsUp cfg.chCnt)) s
      [.arrive byte, .dmaHalf] t ∧ Crowded cfg (n + 1) t free' queue' := by
  obtain ⟨u, arrival, quiet, flow, lossless, count, stored, behind, notBegun, nothing⟩ :=
    crowded.arrive positive small byte
  have blocks := crowded.free_length
  have queued := crowded.queued
  have half : ReadStep dmaRx u .dmaHalf (readStep dmaRx u .dmaHalf) := rfl
  cases free with
  | nil =>
      rw [List.length_nil] at blocks
      omega
  | cons b free =>
      have something : rxReceived u.strm ≠ 0 := by
        rw [flow.agrees.count, count]
        decide
      obtain ⟨same, returned⟩ := (half.effect quiet).flushed rfl
      obtain ⟨flushed', channel⟩ := flow.flushed_something small lossless something
      obtain ⟨after, channel'⟩ := flushed'.sameData same
      obtain ⟨-, dma⟩ := flushed_starts something flow.owned.represents.stack.1
      dsimp only at after channel channel'
      rw [← returned] at after channel channel'
      refine ⟨readStep dmaRx u .dmaHalf, free, queue ++ [u.strm.ptByteFifoDmaRx],
        ⟨u, ⟨nofun, arrival⟩, _, ⟨fun _ _ => ?_, half⟩, rfl⟩, ?_⟩
      · rw [behind]
        exact more
      · constructor
        case quiet => exact quiet.kept half
        case flow => exact after
        case lossless =>
          have moved : rxChannel (readStep dmaRx u .dmaHalf)
              (queue ++ [u.strm.ptByteFifoDmaRx]) = rxChannel u queue := channel'.trans channel
          rw [moved]
          exact lossless
        case queued => simp [queued]
        case empty => rw [same.dma, dma]
        case stored => rw [same.dma, dma, stored]
        case notBegun =>
          rw [same.dequeue]
          exact notBegun
        case nothing => rw [returned, nothing]

/-- The worst case: `n` bytes, each flushed by itself. -/
theorem crowded (positive : 0 < cfg.readBuffCnt) (small : cfg.readBuffCnt < 2 ^ 16)
    (init : zeroStrmReadInit dmaRx.toDmaRxIO cfg m DmaRx.reset = some strm) (byte : β) {n : ℕ}
    (room : n + 2 ≤ cfg.chCnt) :
    ∃ es t free queue, Run (guarded (ReadStep dmaRx) (KeepsUp cfg.chCnt)) ⟨strm, []⟩ es t ∧
      Crowded cfg n t free queue := by
  induction n with
  | zero =>
      have initial := zeroStrmReadInit_spec init
      obtain ⟨c, ⟨quiet, free, queue, flow, rfl⟩, lossless⟩ := initial.shows positive small
      obtain ⟨-, rfl⟩ := initial.represents.unique flow.owned.represents
      obtain ⟨pool, -, dma⟩ := initial.dma
      refine ⟨[], _, free, [], rfl, quiet, flow, lossless, rfl, ?_, ?_, ?_, rfl⟩
      · rw [dma]
        rfl
      · rw [dma]
        rfl
      · rw [initial.dequeue]
  | succ n ih =>
      obtain ⟨es, s, free, queue, run, here⟩ := ih (by omega)
      obtain ⟨t, free', queue', more, next⟩ := here.round positive small (by omega) byte
      exact ⟨_, t, free', queue', run_append.mpr ⟨s, run, more⟩, next⟩

/-- **The bound is sharp.** Every receiver has a run whose reader keeps up to its last event, and
after which `chCnt - 2` flushed bytes are unread: the next DMA-half interrupt finds no block for
the byte that it flushes. -/
theorem keepsUp_sharp (positive : 0 < cfg.readBuffCnt) (small : cfg.readBuffCnt < 2 ^ 16)
    (init : zeroStrmReadInit dmaRx.toDmaRxIO cfg m DmaRx.reset = some strm) (byte : β) :
    ∃ es t, Run (guarded (ReadStep dmaRx) (KeepsUp cfg.chCnt)) ⟨strm, []⟩ es t ∧
      unread t + 2 = cfg.chCnt ∧ ¬ FlushFindsBlock t .dmaHalf := by
  have enough := (zeroStrmReadInit_spec init).enough
  obtain ⟨es, s, free, queue, run, here⟩ :=
    crowded (n := cfg.chCnt - 2) positive small init byte (by omega)
  obtain ⟨t, arrival, -, flow, -, count, -, behind, -⟩ := here.arrive positive small byte
  refine ⟨es ++ [.arrive byte], t, run_concat.mpr ⟨s, run, nofun, arrival⟩, by omega, ?_⟩
  intro finds
  have blocks := here.free_length
  obtain rfl : free = [] := List.eq_nil_of_length_eq_zero (by omega)
  refine finds rfl ?_ flow.owned.represents.stack
  rw [flow.agrees.count, count]
  decide

end Backlog

/-- With three blocks a reader keeps up that has read everything before each flush. -/
theorem keepsUp_findsBlock_threeBlocks :
    ∃ s t, zeroStrmReadInit dmaRx.toDmaRxIO (smallCfg 3) zeroMemory DmaRx.reset = some s ∧
      Run (guarded (ReadStep dmaRx) (KeepsUp 3)) ⟨s, []⟩ deliveryEvents t ∧
      t.returned <+: t.strm.dma.stored := by
  obtain ⟨s, init⟩ : ∃ s,
      zeroStrmReadInit dmaRx.toDmaRxIO (smallCfg 3) zeroMemory DmaRx.reset = some s := ⟨_, rfl⟩
  obtain ⟨t, run⟩ : ∃ t, Run (guarded (ReadStep dmaRx) (KeepsUp 3)) ⟨s, []⟩ deliveryEvents t := by
    obtain rfl := Option.some.inj init
    exact ⟨_, _, ⟨nofun, rfl⟩, _, ⟨fun _ _ => Nat.lt_succ_self 2, rfl⟩, _, ⟨nofun, rfl⟩, _,
      ⟨nofun, rfl⟩, _, ⟨nofun, rfl⟩, _, ⟨nofun, rfl⟩, _, ⟨nofun, rfl⟩, rfl⟩
  exact ⟨s, t, init, run, (keepsUp_findsBlock (by decide) (by decide) init run).2⟩

/-- With three blocks of sixteen bytes a single unread byte can be one too many. -/
theorem keepsUp_sharp_threeBlocks :
    ∃ (s : RxStream UInt8) (es : List (ReadEvent UInt8)) (t : ReadSystem UInt8 (DmaRx UInt8)),
      Run (guarded (ReadStep dmaRx) (KeepsUp 3)) ⟨s, []⟩ es t ∧ unread t = 1 ∧
        ¬ FlushFindsBlock t .dmaHalf := by
  obtain ⟨s, init⟩ : ∃ s,
      zeroStrmReadInit dmaRx.toDmaRxIO (smallCfg 3) zeroMemory DmaRx.reset = some s := ⟨_, rfl⟩
  obtain ⟨es, t, run, behind, exhausted⟩ := keepsUp_sharp (by decide) (by decide) init 7
  have three : unread t + 2 = 3 := behind
  exact ⟨s, es, t, run, by omega, exhausted⟩

end ZeroStrm
