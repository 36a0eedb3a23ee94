import ZeroStrm.Common.Cells
import ZeroStrm.Write.Capacity

/-!
# The sender copies nothing

A byte stays in the cell that `zero_strm_write` stores it in, and the transmit channel takes it
from there: the cells of the blocks that the channel was started on are the cells that accepted
bytes were stored in, in the same order (`write_zeroCopy`). No event but a state that stores a
byte changes a cell, and that cell is none of the block in flight.

As for the receiver, the proof runs the sender over cells. The byte of a call is only stored, so
each state is run with the cell at the tail of the ring as its byte.
-/

set_option autoImplicit false

namespace ZeroStrm

open EventRuns FifoChannel

variable {β : Type}

/-! ## The cells of a run -/

/-- The sender, with the cells that accepted bytes were stored in. -/
structure TracedWrite (β : Type) where
  sys : WriteSystem β
  storedIn : List Cell

/-- The cell that a state of a call stores its byte in. -/
def stateCells (s : TxStream β) (tByte : β) : List Cell :=
  (storedByte s tByte).map fun _ => tailCell s.tByteFifo

/-- The cell that an event stores a byte in. -/
def writtenCells (s : WriteSystem β) : WriteEvent β → List Cell
  | .step => s.calling.toList.flatMap (stateCells s.strm)
  | _ => []

/-- The cells of the blocks that the channel was started on, in start order. -/
def sentFrom (s : TxStream β) : List Cell :=
  s.dma.started.flatMap fun start => (List.range start.2.length).map (Prod.mk start.1)

/-- What an event does, with its cells. -/
def TracedWriteStep : StepRel (TracedWrite β) (WriteEvent β) := fun s e t =>
  WriteStep s.sys e t.sys ∧ t.storedIn = s.storedIn ++ writtenCells s.sys e

/-- What an event does to the cells. A byte goes to its cell, which is none of the block in
flight, and no other cell changes. What the channel is given is the content of its cells. -/
structure WrittenInPlace (s : TracedWrite β) (e : WriteEvent β) (t : TracedWrite β) : Prop where
  others : ∀ cell ∉ writtenCells s.sys e,
    t.sys.strm.tMemBlockFifo.read cell = s.sys.strm.tMemBlockFifo.read cell
  stored : t.sys.enqueued =
    s.sys.enqueued ++ (writtenCells s.sys e).map t.sys.strm.tMemBlockFifo.read
  apart : ∀ cell ∈ writtenCells s.sys e, s.sys.strm.dma.inFlight ≠ some cell.1
  sent : ∃ cells, sentFrom t.sys.strm = sentFrom s.sys.strm ++ cells ∧
    startedBytes t.sys.strm =
      startedBytes s.sys.strm ++ cells.map s.sys.strm.tMemBlockFifo.read

/-! ## The sender over cells -/

/-- The channel with cells in place of the bytes. -/
def DmaTx.cells (d : DmaTx β) : DmaTx Cell where
  inFlight := d.inFlight
  started := d.started.map fun start =>
    (start.1, (List.range start.2.length).map (Prod.mk start.1))
  overlapped := d.overlapped

/-- The stream with cells in place of the bytes. -/
def cellSender (s : TxStream β) : TxStream Cell where
  bBusy := s.bBusy
  ptFifoSend := s.ptFifoSend
  ptByteFifo := s.ptByteFifo
  ptByteFifoCpl := s.ptByteFifoCpl
  tMemBlockFifo := s.tMemBlockFifo.cells
  tByteFifo := s.tByteFifo
  fsmEnqueue := s.fsmEnqueue
  fsmFlushAuto := s.fsmFlushAuto
  dma := s.dma.cells

section Views

variable {s u : TxStream β} {tByte : β} {r : TxStream β × Ctl}

theorem startedBytes_cellSender (s : TxStream β) : startedBytes (cellSender s) = sentFrom s :=
  List.flatMap_map ..

theorem Busy.cells (busy : Busy s) : Busy (cellSender s) :=
  ⟨busy.place, busy.auto, busy.nothing, busy.flag, busy.alone, busy.sending, busy.drained,
    busy.single⟩

/-- A start hands the channel the cells of its block. -/
theorem dmaTx_start_cells (m : MemBlkFifo β) (block : Addr) (d : DmaTx β) :
    dmaTx.fnDmaStart m.cells block d.cells = (dmaTx.fnDmaStart m block d).cells := by
  have cells : m.cells.blockBytes block =
      (List.range (m.blockBytes block).length).map (Prod.mk block) := by
    simp only [MemBlkFifo.blockBytes, List.length_map, List.length_range]
    rfl
  simp only [dmaTx, DmaTx.cells, List.map_append, List.map_cons, List.map_nil, cells]

theorem Sends.cells (sends : Sends dmaTx s u) : Sends dmaTx (cellSender s) (cellSender u) := by
  have fetch := cells_fetch s.tMemBlockFifo
  cases sends with
  | drained empty head =>
      rw [empty] at fetch
      exact .drained fetch head
  | @started block pool fetched =>
      rw [fetched] at fetch
      have started : cellSender (blockStarted dmaTx s block pool) =
          blockStarted dmaTx (cellSender s) block pool.cells := by
        have start := dmaTx_start_cells pool block s.dma
        simp only [cellSender, blockStarted, start]
      rw [started]
      exact .started fetch

/-- **A state of a call runs the same way over cells**, with the cell at the tail of the ring as
its byte. -/
theorem InnermostEffect.cells (effect : InnermostEffect dmaTx s tByte r) :
    InnermostEffect dmaTx (cellSender s) (tailCell s.tByteFifo) (cellSender r.1, r.2) := by
  have enqueue := cells_enqueue s.tMemBlockFifo s.tByteFifo tByte
  have new := cells_new s.tMemBlockFifo
  cases effect with
  | start here => exact .start (s := cellSender s) here
  | store here room =>
      rw [room] at enqueue
      exact .store (s := cellSender s) here enqueue
  | full here refused =>
      exact .full (s := cellSender s) here ((congrArg Prod.fst enqueue).trans refused)
  | append here =>
      have appended := cells_append s.tMemBlockFifo (some s.ptByteFifo)
      have same : cellSender (blockAppended s) = blockAppended (cellSender s) := by
        simp only [cellSender, blockAppended, appended]
      rw [same]
      exact .append here
  | busy here set => exact .busy (s := cellSender s) here set
  | acquire here clear => exact .acquire (s := cellSender s) here clear
  | send here sends => exact .send (s := cellSender s) here sends.cells
  | park here noBlock =>
      rw [noBlock] at new
      exact .park (s := cellSender s) here new
  | take here found =>
      rw [found] at new
      exact .take (s := cellSender s) here new

/-- The handler frees the same block. -/
theorem cplFreed_cells (s : TxStream β) : cplFreed (cellSender s) = cellSender (cplFreed s) := by
  have freed := cells_free s.tMemBlockFifo s.ptFifoSend
  simp only [cplFreed, cellSender, freed]
  rfl

/-- What the channel is given is the content of its cells. -/
theorem Sends.sentFrom (sends : Sends dmaTx s u) :
    ∃ cells, ZeroStrm.sentFrom u = ZeroStrm.sentFrom s ++ cells ∧
      startedBytes u = startedBytes s ++ cells.map s.tMemBlockFifo.read := by
  cases sends with
  | drained => exact ⟨[], (List.append_nil _).symm, (List.append_nil _).symm⟩
  | @started block pool fetched =>
      obtain ⟨sizes, memory, bytes⟩ := fetch_frame fetched
      refine ⟨s.tMemBlockFifo.blockCells block, ?_, ?_⟩
      · simp only [ZeroStrm.sentFrom, blockStarted, dmaTx, List.flatMap_append,
          List.flatMap_singleton, MemBlkFifo.blockBytes, List.length_map, List.length_range, sizes,
          MemBlkFifo.blockCells]
      · simp only [startedBytes, blockStarted, dmaTx, List.flatMap_append,
          List.flatMap_singleton, bytes, MemBlkFifo.map_read_blockCells]

theorem Sends.reads (sends : Sends dmaTx s u) : u.tMemBlockFifo.read = s.tMemBlockFifo.read := by
  cases sends with
  | drained => rfl
  | started fetched => exact MemBlkFifo.read_congr (fetch_frame fetched).2.1

theorem InnermostEffect.others (effect : InnermostEffect dmaTx s tByte r) {cell : Cell}
    (outside : cell ∉ stateCells s tByte) :
    r.1.tMemBlockFifo.read cell = s.tMemBlockFifo.read cell := by
  cases effect with
  | store here room =>
      have stores : ZeroStrm.storedByte s tByte = [tByte] := by
        simp [ZeroStrm.storedByte, here, room]
      rw [stateCells, stores, List.map_singleton, List.mem_singleton] at outside
      rw [zeroStrmEnqueueByteFifo_stores room]
      exact MemBlkFifo.read_setByte_of_ne _ tByte outside
  | append here => exact congrFun (MemBlkFifo.read_congr (chMemory_append ..)) cell
  | send here sends => exact congrFun sends.reads cell
  | take here found =>
      have memory := chMemory_new s.tMemBlockFifo
      rw [found] at memory
      exact congrFun (MemBlkFifo.read_congr memory) cell
  | _ => rfl

/-- The byte of a state is the content of its cell. -/
theorem InnermostEffect.stored (effect : InnermostEffect dmaTx s tByte r) :
    ZeroStrm.storedByte s tByte = (stateCells s tByte).map r.1.tMemBlockFifo.read := by
  rw [stateCells, List.map_map, effect.storedByte]
  cases effect with
  | store here room =>
      have content := MemBlkFifo.read_setByte s.tMemBlockFifo s.tByteFifo.pchBuffer
        s.tByteFifo.hwTail tByte
      rw [← zeroStrmEnqueueByteFifo_stores room] at content
      simp only [acceptedByte, if_true, List.map_singleton]
      exact congrArg (fun byte => [byte]) content.symm
  | _ => simp [acceptedByte]

/-- What a state of a call gives to the channel is the content of its cells. -/
theorem InnermostEffect.sentFrom (effect : InnermostEffect dmaTx s tByte r) :
    ∃ cells, ZeroStrm.sentFrom r.1 = ZeroStrm.sentFrom s ++ cells ∧
      startedBytes r.1 = startedBytes s ++ cells.map s.tMemBlockFifo.read := by
  cases effect with
  | send here sends => exact sends.sentFrom
  | _ => exact ⟨[], (List.append_nil _).symm, (List.append_nil _).symm⟩

/-- The cells of a state are those of the byte that it accepts. -/
theorem InnermostEffect.stateCells (effect : InnermostEffect dmaTx s tByte r) :
    ZeroStrm.stateCells s tByte = acceptedByte r.2 (tailCell s.tByteFifo) := by
  rw [ZeroStrm.stateCells, effect.storedByte, acceptedByte, acceptedByte]
  split <;> rfl

/-- A byte goes to a cell of the pool that is none of the block in flight. -/
theorem Filled.stateCells {count buffCnt : ℕ} {free queue : List Addr} {cell : Cell}
    (filled : Filled count buffCnt (cellSender s) free queue)
    (member : cell ∈ ZeroStrm.stateCells s tByte) :
    (cell.1 < count ∧ cell.2 < buffCnt) ∧ s.dma.inFlight ≠ some cell.1 := by
  obtain ⟨byte, stores, rfl⟩ := List.mem_map.mp member
  obtain ⟨here, room⟩ : s.fsmEnqueue.chState = Enqueue.byteFifoIn ∧
      (zeroStrmEnqueueByteFifo s.tMemBlockFifo s.tByteFifo tByte).1 = true := by
    by_contra refused
    rw [storedByte, if_neg refused] at stores
    cases stores
  have enqueue := congrArg Prod.fst (cells_enqueue s.tMemBlockFifo s.tByteFifo tByte)
  have stores' : storedByte (cellSender s) (tailCell s.tByteFifo) ≠ [] := by
    have taken : (cellSender s).fsmEnqueue.chState = Enqueue.byteFifoIn ∧
        (zeroStrmEnqueueByteFifo (cellSender s).tMemBlockFifo (cellSender s).tByteFifo
          (tailCell s.tByteFifo)).1 = true := ⟨here, enqueue.trans room⟩
    rw [storedByte, if_pos taken]
    exact List.cons_ne_nil _ _
  have bounds := filled.storeInBounds stores'
  have current : OwnsCurrent (cellSender s) := .inr (.inl here)
  have owns : ownedBlock (cellSender s) = [s.ptByteFifo] := if_pos current
  have inPool : s.ptByteFifo < count := by
    refine List.mem_range.mp (filled.owned.partition.subset ?_)
    simp [owns]
  have buffer : s.tByteFifo.pchBuffer = s.ptByteFifo := bounds.buffer
  have here' : (tailCell s.tByteFifo).1 < count := buffer.trans_lt inPool
  exact ⟨⟨here', bounds.index⟩, bounds.notInFlight⟩

end Views

/-! ## Runs -/

/-- The invariant of a traced run. -/
structure CellFill (count buffCnt : ℕ) (s : TracedWrite β) : Prop where
  busy : BusyInv s.sys
  stored : s.storedIn.length = s.sys.accepted.length
  inside : ∀ cell ∈ s.storedIn, cell.1 < count ∧ cell.2 < buffCnt
  filled : ∃ free queue, Filled count buffCnt (cellSender s.sys.strm) free queue ∧
    (txChannel s.storedIn (cellSender s.sys.strm) queue).Lossless

theorem writtenCells_step {s : WriteSystem β} {tByte : β} (calling : s.calling = some tByte) :
    writtenCells s .step = stateCells s.strm tByte := by
  rw [writtenCells, calling]
  exact List.flatMap_singleton ..

namespace CellFill

variable {count buffCnt : ℕ} {s t : TracedWrite β} {e : WriteEvent β}

/-- **Every event keeps the cells in order.** -/
theorem kept (positive : 0 < buffCnt) (small : buffCnt < 2 ^ 16) (inv : CellFill count buffCnt s)
    (step : TracedWriteStep s e t) : CellFill count buffCnt t := by
  obtain ⟨sys, storedIn⟩ := t
  obtain ⟨taken, rfl⟩ : WriteStep s.sys e sys ∧ storedIn = s.storedIn ++ writtenCells s.sys e :=
    step
  have busy := inv.busy.kept taken
  obtain ⟨free, queue, filled, lossless⟩ := inv.filled
  cases taken with
  | write idle tByte =>
      simp only [writtenCells, List.append_nil]
      exact ⟨busy, inv.stored, inv.inside, free, queue, filled, lossless⟩
  | @step _ tByte calling =>
      have effect := innermostState_effect dmaTx tByte inv.busy.busy.place
      have cells := effect.stateCells
      obtain ⟨free', queue', filled', move⟩ :=
        filled.innermost positive small inv.busy.busy.cells effect.cells
      rw [writtenCells_step calling]
      refine ⟨busy, ?_, ?_, free', queue', filled', ?_⟩
      · have lengths : (stateCells s.sys.strm tByte).length = (acceptedByte
            (innermostState dmaTx tByte s.sys.strm).2 tByte).length := by
          rw [stateCells, List.length_map, effect.storedByte]
        simp only [callStep, List.length_append, inv.stored, lengths]
      · intro cell member
        rcases List.mem_append.mp member with before | now
        · exact inv.inside cell before
        · exact (filled.stateCells now).1
      · rw [cells]
        exact move.lossless lossless
  | @complete _ block inFlight =>
      have sends := (completed_sends inv.busy.busy.auto inv.busy.busy.nothing).cells
      obtain ⟨filled', same⟩ := filled.freed inFlight (inv.busy.busy.sending block inFlight)
      rw [cplFreed_cells] at filled' same
      obtain ⟨queue', sent, move⟩ := filled'.sends rfl sends
      simp only [writtenCells, List.append_nil]
      refine ⟨busy, inv.stored, inv.inside, _, queue', sent, ?_⟩
      rw [← same] at lossless
      exact move.lossless lossless

/-- **No event copies a byte.** -/
theorem inPlace (inv : CellFill count buffCnt s) (step : TracedWriteStep s e t) :
    WrittenInPlace s e t := by
  obtain ⟨sys, storedIn⟩ := t
  obtain ⟨taken, -⟩ := step
  dsimp only at taken
  obtain ⟨free, queue, filled, -⟩ := inv.filled
  cases taken with
  | write idle tByte =>
      refine ⟨fun _ _ => rfl, (List.append_nil _).symm, ?_, [], (List.append_nil _).symm,
        (List.append_nil _).symm⟩
      rintro _ ⟨⟩
  | @step _ tByte calling =>
      have effect := innermostState_effect dmaTx tByte inv.busy.busy.place
      have written := writtenCells_step calling
      refine ⟨?_, ?_, ?_, effect.sentFrom⟩
      · intro cell outside
        rw [written] at outside
        exact effect.others outside
      · rw [written]
        exact congrArg (s.sys.enqueued ++ ·) effect.stored
      · intro cell member
        rw [written] at member
        exact (filled.stateCells member).2
  | complete inFlight =>
      have sends := completed_sends inv.busy.busy.auto inv.busy.busy.nothing
      have freed : (cplFreed s.sys.strm).tMemBlockFifo.read = s.sys.strm.tMemBlockFifo.read :=
        MemBlkFifo.read_congr (chMemory_free ..)
      obtain ⟨cells, sent, bytes⟩ := sends.sentFrom
      rw [freed] at bytes
      refine ⟨?_, (List.append_nil _).symm, ?_, cells, sent, bytes⟩
      · intro cell _
        rw [← freed]
        exact congrFun sends.reads cell
      · rintro _ ⟨⟩

theorem sentFrom_prefix (inv : CellFill count buffCnt s) :
    sentFrom s.sys.strm <+: s.storedIn := by
  obtain ⟨free, queue, -, lossless⟩ := inv.filled
  rw [← startedBytes_cellSender]
  exact lossless.received_prefix

end CellFill

section Runs

variable {cfg : StreamWriteCfg} {m : MemBlkFifo β} {strm : TxStream β} {t : TracedWrite β}
  {es : List (WriteEvent β)}

/-- The initialisation runs the same way over cells. -/
theorem zeroStrmWriteInit_cells (init : zeroStrmWriteInit cfg m DmaTx.reset = some strm) :
    zeroStrmWriteInit cfg m.cells DmaTx.reset = some (cellSender strm) := by
  obtain ⟨⟨current, pool⟩, first⟩ : ∃ r, zeroStrmBlockNew (initBlocks cfg.writeBuffCnt cfg.chCnt
      (zeroStrmBlockFifoInit m)) = r := ⟨_, rfl⟩
  have none : zeroStrmBlockFifoInit m.cells = (zeroStrmBlockFifoInit m).cells := rfl
  have first' : zeroStrmBlockNew (initBlocks cfg.writeBuffCnt cfg.chCnt
      (zeroStrmBlockFifoInit m.cells)) = (current, pool.cells) := by
    rw [none, cells_initBlocks, cells_new, first]
  simp only [zeroStrmWriteInit, first] at init
  simp only [zeroStrmWriteInit, first']
  split at init
  · cases init
  · cases init
    rfl

theorem cellFill_init (positive : 0 < cfg.writeBuffCnt) (small : cfg.writeBuffCnt < 2 ^ 16)
    (init : zeroStrmWriteInit cfg m DmaTx.reset = some strm) :
    CellFill cfg.chCnt cfg.writeBuffCnt ⟨⟨strm, none, [], [], []⟩, []⟩ := by
  obtain ⟨c, ⟨free, queue, -, filled, -, rfl⟩, lossless⟩ :=
    (zeroStrmWriteInit_spec (zeroStrmWriteInit_cells init)).shows positive small
  refine ⟨(zeroStrmWriteInit_spec init).busyInv, rfl, ?_, free, queue, filled, lossless⟩
  rintro _ ⟨⟩

/-- **The sender copies nothing.** In every state of every run, between any two states of a call
too, the cells that the channel was started on are the first cells that accepted bytes were stored
in, in their order, and all are of the first `WRITE_BUFF_CNT` cells of a block of the pool. And
whatever happens next, no cell changes but the one that a byte is stored in, that cell is none of
the block in flight, and what the channel is given is the content of its cells. -/
theorem write_zeroCopy (positive : 0 < cfg.writeBuffCnt) (small : cfg.writeBuffCnt < 2 ^ 16)
    (init : zeroStrmWriteInit cfg m DmaTx.reset = some strm)
    (run : Run TracedWriteStep ⟨⟨strm, none, [], [], []⟩, []⟩ es t) :
    sentFrom t.sys.strm <+: t.storedIn ∧ t.storedIn.length = t.sys.accepted.length ∧
      (∀ cell ∈ t.storedIn, cell.1 < cfg.chCnt ∧ cell.2 < cfg.writeBuffCnt) ∧
      ∀ e u, TracedWriteStep t e u → WrittenInPlace t e u := by
  have inv : CellFill cfg.chCnt cfg.writeBuffCnt t :=
    run.invariant _ (fun _ _ _ inv taken => inv.kept positive small taken)
      (cellFill_init positive small init)
  exact ⟨inv.sentFrom_prefix, inv.stored, inv.inside, fun _ _ step => inv.inPlace step⟩

end Runs

/-- With blocks of one byte the first byte is sent from the cell it was stored in, and the second
is in the other block. -/
theorem write_zeroCopy_twoBlocks :
    ∃ s t, zeroStrmWriteInit (smallWriteCfg 2) zeroMemory DmaTx.reset = some s ∧
      Run TracedWriteStep ⟨⟨s, none, [], [], []⟩, []⟩ sendingEvents t ∧
      t.storedIn = [(1, 0), (0, 0)] ∧ sentFrom t.sys.strm = [(1, 0)] ∧
      t.storedIn.length = t.sys.accepted.length ∧ t.sys.accepted = [7, 8] ∧
      startedBytes t.sys.strm = [7] := by
  obtain ⟨s, init⟩ : ∃ s,
      zeroStrmWriteInit (smallWriteCfg 2) zeroMemory DmaTx.reset = some s := ⟨_, rfl⟩
  obtain ⟨t, run, storedIn, sent, accepted, bytes⟩ : ∃ t,
      Run TracedWriteStep ⟨⟨s, none, [], [], []⟩, []⟩ sendingEvents t ∧
        t.storedIn = [(1, 0), (0, 0)] ∧ sentFrom t.sys.strm = [(1, 0)] ∧
        t.sys.accepted = [7, 8] ∧ startedBytes t.sys.strm = [7] := by
    obtain rfl := Option.some.inj init
    refine ⟨⟨_, _⟩, ⟨⟨_, _⟩, ⟨.write rfl _, rfl⟩, ⟨_, _⟩, ⟨.step rfl, rfl⟩,
      ⟨_, _⟩, ⟨.step rfl, rfl⟩, ⟨_, _⟩, ⟨.write rfl _, rfl⟩, ⟨_, _⟩, ⟨.step rfl, rfl⟩,
      ⟨_, _⟩, ⟨.step rfl, rfl⟩, ⟨_, _⟩, ⟨.step rfl, rfl⟩, ⟨_, _⟩, ⟨.step rfl, rfl⟩,
      ⟨_, _⟩, ⟨.step rfl, rfl⟩, ⟨_, _⟩, ⟨.step rfl, rfl⟩, ⟨_, _⟩, ⟨.step rfl, rfl⟩,
      ⟨_, _⟩, ⟨.complete rfl, rfl⟩, rfl⟩, ?_, ?_, ?_, ?_⟩
    all_goals rfl
  obtain ⟨-, length, -⟩ := write_zeroCopy (by decide) (by decide) init run
  exact ⟨s, t, init, run, storedIn, sent, length, accepted, bytes⟩

end ZeroStrm
