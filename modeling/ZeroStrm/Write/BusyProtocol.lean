import ZeroStrm.Write.Init
import ZeroStrm.Write.Steps

/-!
# The protocol of `bBusy`

`bBusy` is set while a transfer is in flight, and while the flush of a write call holds it on
the way from its test to `GET_BLOCK`; never both (`Busy`). Whoever holds it either starts the
channel or finds the queue empty and clears it. The one gap is between the append of a write
call and its test: there `bBusy` may be clear with a block queued, and the test that follows
takes it. So outside of a call a clear `bBusy` means an empty queue, and no wake-up is lost.

No pointer of the block lists is followed here. The queue is empty when its head is null.
-/

set_option autoImplicit false

namespace ZeroStrm

open EventRuns

variable {β : Type}

/-! ## The invariant -/

/-- The flush of a write call has set `bBusy` and is before its `GET_BLOCK`. -/
def Holds (s : TxStream β) : Prop :=
  s.fsmEnqueue = ⟨Enqueue.flush, ⟨StreamWriteFlush.getBlock⟩⟩

/-- The flush of a write call has appended its block and is before its test of `bBusy`. -/
def BeforeTest (s : TxStream β) : Prop :=
  s.fsmEnqueue = ⟨Enqueue.flush, ⟨StreamWriteFlush.isDmaBusy⟩⟩

/-- The protocol of `bBusy`, as a property of the stream. -/
structure Busy (s : TxStream β) : Prop where
  place : Place s.fsmEnqueue
  auto : s.fsmFlushAuto = ⟨StreamWriteFlush.start⟩
  nothing : s.ptByteFifoCpl = none
  /-- `bBusy` is set by the transfer in flight or by the one that holds it. -/
  flag : s.bBusy = true ↔ s.dma.inFlight.isSome ∨ Holds s
  /-- The holder is alone. -/
  alone : Holds s → s.dma.inFlight = none
  sending : ∀ block, s.dma.inFlight = some block → s.ptFifoSend = some block
  /-- With `bBusy` clear nothing is queued, unless the test is about to come. -/
  drained : s.bBusy = false → s.tMemBlockFifo.ptHead = none ∨ BeforeTest s
  single : s.dma.overlapped = false

/-- The protocol together with the logs of the system: outside of a call `enqueue` is at its
start or parked, and the blocks started are those freed and the one in flight, in order. -/
structure BusyInv (s : WriteSystem β) : Prop where
  busy : Busy s.strm
  outside : s.calling = none → s.strm.fsmEnqueue.chState = Enqueue.start ∨
    s.strm.fsmEnqueue.chState = Enqueue.getByteFifo
  freed : s.strm.dma.started.map (fun start => some start.1) =
    s.freed ++ s.strm.dma.inFlight.toList.map some

/-! ## Starting the channel -/

/-- A stream whose holder of `bBusy` has just done `GET_BLOCK`. -/
structure Handed (s u : TxStream β) : Prop where
  auto : u.fsmFlushAuto = s.fsmFlushAuto
  nothing : u.ptByteFifoCpl = s.ptByteFifoCpl
  flag : u.bBusy = true ↔ u.dma.inFlight.isSome
  sending : ∀ block, u.dma.inFlight = some block → u.ptFifoSend = some block
  drained : u.bBusy = false → u.tMemBlockFifo.ptHead = none
  single : u.dma.overlapped = false
  started : u.dma.started.map Prod.fst = s.dma.started.map Prod.fst ++ u.dma.inFlight.toList

/-- **`GET_BLOCK` starts one transfer or clears `bBusy`.** -/
theorem Sends.handed {s u : TxStream β} (sends : Sends dmaTx s u) (held : s.bBusy = true)
    (idle : s.dma.inFlight = none) (single : s.dma.overlapped = false) : Handed s u := by
  cases sends with
  | drained empty head =>
      constructor
      case flag => simp [idle]
      case sending => simp [idle]
      case drained => exact fun _ => head
      case single => exact single
      case started => simp [idle]
      all_goals rfl
  | started fetched =>
      constructor
      case flag => simp [held, blockStarted, dmaTx]
      case sending => simp [blockStarted, dmaTx]
      case drained => simp [held, blockStarted]
      case single => simp [blockStarted, dmaTx, single, idle]
      case started => simp [blockStarted, dmaTx]
      all_goals rfl

namespace Busy

variable {s u : TxStream β}

/-- The holder of `bBusy` gives it to the transfer it starts, or back. -/
theorem hand (handed : Handed s u) (auto : s.fsmFlushAuto = ⟨StreamWriteFlush.start⟩)
    (nothing : s.ptByteFifoCpl = none) (place : Place u.fsmEnqueue) (away : ¬ Holds u) :
    Busy u where
  place := place
  auto := handed.auto.trans auto
  nothing := handed.nothing.trans nothing
  flag := handed.flag.trans (or_iff_left away).symm
  alone holds := absurd holds away
  sending := handed.sending
  drained clear := .inl (handed.drained clear)
  single := handed.single

/-- A step that leaves `bBusy` and the channel alone. -/
theorem frame (busy : Busy s) (place : Place u.fsmEnqueue) (away : ¬ Holds s) (away' : ¬ Holds u)
    (same : u.bBusy = s.bBusy ∧ u.dma = s.dma ∧ u.ptFifoSend = s.ptFifoSend ∧
      u.fsmFlushAuto = s.fsmFlushAuto ∧ u.ptByteFifoCpl = s.ptByteFifoCpl)
    (drained : s.bBusy = false → u.tMemBlockFifo.ptHead = none ∨ BeforeTest u) : Busy u := by
  obtain ⟨flag, dma, sending, auto, nothing⟩ := same
  constructor
  case place => exact place
  case auto => exact auto.trans busy.auto
  case nothing => exact nothing.trans busy.nothing
  case flag => rw [flag, dma, busy.flag, or_iff_left away, or_iff_left away']
  case alone => exact fun holds => absurd holds away'
  case sending => rw [dma, sending]; exact busy.sending
  case drained => rw [flag]; exact drained
  case single => rw [dma]; exact busy.single

theorem empty (busy : Busy s) (elsewhere : ¬ BeforeTest s) (clear : s.bBusy = false) :
    s.tMemBlockFifo.ptHead = none :=
  (busy.drained clear).resolve_right elsewhere

end Busy

/-! ## The steps -/

theorem ptHead_new (m : MemBlkFifo β) : (zeroStrmBlockNew m).2.ptHead = m.ptHead := by
  unfold zeroStrmBlockNew
  split <;> rfl

theorem ptHead_enqueueByte (m : MemBlkFifo β) (this : ByteFifo) (b : β) :
    (zeroStrmEnqueueByteFifo m this b).2.1.ptHead = m.ptHead := by
  unfold zeroStrmEnqueueByteFifo
  split <;> rfl

/-- **Every state of a call keeps the protocol.** -/
theorem Busy.innermost {s : TxStream β} {tByte : β} {r : TxStream β × Ctl} (busy : Busy s)
    (effect : InnermostEffect dmaTx s tByte r) : Busy r.1 := by
  have place := effect.place
  cases effect with
  | start here =>
      refine busy.frame place ?_ ?_ ⟨rfl, rfl, rfl, rfl, rfl⟩ fun clear => .inl ?_
      · simp [Holds, here]
      · simp [Holds]
      · exact busy.empty (by simp [BeforeTest, here]) clear
  | store here room =>
      refine busy.frame place ?_ ?_ ⟨rfl, rfl, rfl, rfl, rfl⟩ fun clear => .inl ?_
      · simp [Holds, here]
      · simp [Holds, byteStored]
      · have head := ptHead_enqueueByte s.tMemBlockFifo s.tByteFifo tByte
        rw [room] at head
        exact head.trans (busy.empty (by simp [BeforeTest, here]) clear)
  | full here refused =>
      refine busy.frame place ?_ ?_ ⟨rfl, rfl, rfl, rfl, rfl⟩ fun clear => .inl ?_
      · simp [Holds, here]
      · simp [Holds]
      · exact busy.empty (by simp [BeforeTest, here]) clear
  | append here =>
      refine busy.frame place ?_ ?_ ⟨rfl, rfl, rfl, rfl, rfl⟩ fun _ => .inr rfl
      · simp [Holds, here]
      · simp [Holds, blockAppended]
  | busy here set =>
      refine busy.frame place ?_ ?_ ⟨rfl, rfl, rfl, rfl, rfl⟩ ?_
      · simp [Holds, here]
      · simp [Holds]
      · intro clear
        rw [set] at clear
        cases clear
  | acquire here clear =>
      have away : ¬ Holds s := by simp [Holds, here]
      have idle : s.dma.inFlight = none := by
        have flag := busy.flag
        rw [clear, or_iff_left away] at flag
        simpa using flag
      exact ⟨place, busy.auto, busy.nothing, ⟨fun _ => .inr rfl, fun _ => rfl⟩, fun _ => idle,
        busy.sending, nofun, busy.single⟩
  | @send u here sends =>
      have idle := busy.alone here
      have held := busy.flag.mpr (.inr here)
      have handed := sends.handed held idle busy.single
      have handed' : Handed s { u with
          fsmEnqueue := ⟨Enqueue.getByteFifo, ⟨StreamWriteFlush.start⟩⟩ } :=
        ⟨handed.auto, handed.nothing, handed.flag, handed.sending, handed.drained, handed.single,
          handed.started⟩
      exact .hand handed' busy.auto busy.nothing place (by simp [Holds])
  | park here noBlock => exact busy
  | take here found =>
      refine busy.frame place ?_ ?_ ⟨rfl, rfl, rfl, rfl, rfl⟩ fun clear => .inl ?_
      · simp [Holds, here]
      · simp [Holds, blockTaken]
      · have head := ptHead_new s.tMemBlockFifo
        rw [found] at head
        exact head.trans (busy.empty (by simp [BeforeTest, here]) clear)

/-- **The interrupt of a transfer hands `bBusy` on.** -/
theorem Busy.completed {s : TxStream β} {block : Addr} (busy : Busy s)
    (inFlight : s.dma.inFlight = some block) :
    Handed (cplFreed s) (completed s) ∧ Busy (completed s) := by
  have away : ¬ Holds s := by
    intro holds
    have idle := busy.alone holds
    rw [inFlight] at idle
    cases idle
  have sends := completed_sends busy.auto busy.nothing
  have same : (ZeroStrm.completed s).fsmEnqueue = s.fsmEnqueue := sends.frame.1
  have handed := sends.handed rfl rfl busy.single
  refine ⟨handed, .hand handed busy.auto busy.nothing ?_ ?_⟩
  · rw [same]
    exact busy.place
  · rw [Holds, same]
    exact away

/-- A state of a call starts the channel only with nothing in flight. -/
theorem InnermostEffect.started {s : TxStream β} {tByte : β} {r : TxStream β × Ctl}
    (busy : Busy s) (effect : InnermostEffect dmaTx s tByte r) :
    r.1.dma = s.dma ∨ s.dma.inFlight = none ∧
      r.1.dma.started.map Prod.fst = s.dma.started.map Prod.fst ++ r.1.dma.inFlight.toList := by
  cases effect with
  | send here sends =>
      have idle := busy.alone here
      have held := busy.flag.mpr (.inr here)
      exact .inr ⟨idle, (sends.handed held idle busy.single).started⟩
  | _ => exact .inl rfl

theorem InnermostEffect.outside {s : TxStream β} {tByte : β} {r : TxStream β × Ctl}
    (effect : InnermostEffect dmaTx s tByte r) (returns : r.2 ≠ .goto) :
    r.1.fsmEnqueue.chState = Enqueue.start ∨ r.1.fsmEnqueue.chState = Enqueue.getByteFifo := by
  cases effect with
  | store => exact .inl rfl
  | park here => exact .inr (congrArg FsmEnqueue.chState here)
  | _ => exact absurd rfl returns

/-- **Every event keeps the protocol.** -/
theorem BusyInv.kept {s t : WriteSystem β} {e : WriteEvent β} (inv : BusyInv s)
    (step : WriteStep s e t) : BusyInv t := by
  obtain ⟨busy, outside, freed⟩ := inv
  cases step with
  | write idle tByte => exact ⟨busy, nofun, freed⟩
  | @step _ tByte calling =>
      have effect := innermostState_effect dmaTx tByte busy.place
      refine ⟨busy.innermost effect, ?_, ?_⟩
      · intro returned
        apply effect.outside
        intro goto
        simp only [callStep, goto, if_true] at returned
        cases returned
      · rcases effect.started busy with same | ⟨idle, started⟩
        · simp only [callStep, same]
          exact freed
        · rw [idle] at freed
          have blocks := congrArg (List.map some) started
          simp only [List.map_map, List.map_append] at blocks
          simp only [callStep]
          refine blocks.trans ?_
          rw [← List.append_nil s.freed]
          exact congrArg (· ++ _) freed
  | @complete _ block inFlight =>
      obtain ⟨handed, busy'⟩ := busy.completed inFlight
      have place : (completeStep s).strm.fsmEnqueue = s.strm.fsmEnqueue :=
        (completed_sends busy.auto busy.nothing).frame.1
      refine ⟨busy', ?_, ?_⟩
      · intro returned
        rw [place]
        exact outside returned
      · have blocks := congrArg (List.map some) handed.started
        simp only [List.map_map, List.map_append] at blocks
        refine blocks.trans ?_
        rw [inFlight] at freed
        rw [completeStep, busy.sending block inFlight]
        exact congrArg (· ++ _) freed

/-! ## Outside of a call -/

/-- Outside of a call the flush is neither before its test nor the holder. -/
theorem BusyInv.between {s : WriteSystem β} (inv : BusyInv s) (outside : s.calling = none) :
    ¬ Holds s.strm ∧ ¬ BeforeTest s.strm := by
  have notFlush : s.strm.fsmEnqueue.chState ≠ Enqueue.flush := by
    rcases inv.outside outside with place | place
    · rw [place]
      decide
    · rw [place]
      decide
  exact ⟨fun here => notFlush (congrArg FsmEnqueue.chState here),
    fun here => notFlush (congrArg FsmEnqueue.chState here)⟩

/-- **Outside of a call `bBusy` is set exactly while a transfer is in flight.** -/
theorem BusyInv.flag_iff {s : WriteSystem β} (inv : BusyInv s) (outside : s.calling = none) :
    s.strm.bBusy = true ↔ s.strm.dma.inFlight.isSome :=
  inv.busy.flag.trans (or_iff_left (inv.between outside).1)

/-- Then a channel that stands still has nothing to send. -/
theorem BusyInv.still {s : WriteSystem β} (inv : BusyInv s) (outside : s.calling = none)
    (idle : s.strm.dma.inFlight = none) :
    s.strm.bBusy = false ∧ s.strm.tMemBlockFifo.ptHead = none := by
  have clear : s.strm.bBusy = false := by
    rw [Bool.eq_false_iff, Ne, inv.flag_iff outside, idle]
    exact Bool.false_ne_true
  exact ⟨clear, inv.busy.empty (inv.between outside).2 clear⟩

theorem InitialWrite.busyInv {cfg : StreamWriteCfg} {s : TxStream β}
    (initial : InitialWrite cfg DmaTx.reset s) :
    BusyInv (⟨s, none, [], [], []⟩ : WriteSystem β) := by
  have head : s.tMemBlockFifo.ptHead = none := initial.represents.fifo
  refine ⟨⟨?_, initial.fsmFlushAuto, initial.ptByteFifoCpl, ?_, ?_, ?_, fun _ => .inl head, ?_⟩,
    fun _ => .inl ?_, ?_⟩
  · rw [initial.fsmEnqueue]
    exact .start
  · simp [initial.notBusy, initial.dma, DmaTx.reset, Holds, initial.fsmEnqueue]
  · simp [Holds, initial.fsmEnqueue]
  · simp [initial.dma, DmaTx.reset]
  · rw [initial.dma]
    rfl
  · rw [initial.fsmEnqueue]
  · simp [initial.dma, DmaTx.reset]

end ZeroStrm
