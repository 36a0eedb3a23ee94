import ZeroStrm.Common.Cells
import ZeroStrm.Read.Delivery

/-!
# The receiver copies nothing

A byte stays in the cell that the channel stores it in, and `zero_strm_read` reads it from there:
the cells that are read are the cells that were stored, in the same order (`read_zeroCopy`). No
event but an arrival changes a cell, and no cell of the receiving block is read.

The proof runs the receiver over cells. The stream with the memory of the cells in place of the
memory (`cellStream`) goes through the same states, since nothing looks at a byte, and what it
returns are the cells read. So `Flow` holds of it, and its lossless channel carries the cells.
-/

set_option autoImplicit false

namespace ZeroStrm

open EventRuns FifoChannel

variable {β : Type}

/-! ## The cells of a run -/

/-- The receiver, with the cells that the channel stored and those that were read. -/
structure TracedRead (β : Type) where
  sys : ReadSystem β (DmaRx β)
  storedIn : List Cell
  readFrom : List Cell

/-- The cell that an arriving byte is stored in. -/
def storedCells (s : RxStream β) : ReadEvent β → List Cell
  | .arrive _ => if s.dma.count < s.dma.length then [(s.dma.target, s.dma.count)] else []
  | _ => []

/-- The cell that a returned byte is read from. -/
def readCells (s : RxStream β) : ReadEvent β → List Cell
  | .read => (returnedByte (dequeueState (s, none))).map fun _ => headCell s.tByteFifo
  | _ => []

/-- What an event does, with its cells. -/
def tracedReadStep (s : TracedRead β) (e : ReadEvent β) : TracedRead β where
  sys := readStep dmaRx s.sys e
  storedIn := s.storedIn ++ storedCells s.sys.strm e
  readFrom := s.readFrom ++ readCells s.sys.strm e

def TracedReadStep : StepRel (TracedRead β) (ReadEvent β) := fun s e t => t = tracedReadStep s e

/-- What an event does to the cells. An arriving byte goes to its cell, and no other cell changes.
A returned byte is the content of its cell, which is none of the receiving block. -/
structure ReadInPlace (s : TracedRead β) (e : ReadEvent β) (t : TracedRead β) : Prop where
  others : ∀ cell ∉ storedCells s.sys.strm e,
    t.sys.strm.tMemBlockFifo.read cell = s.sys.strm.tMemBlockFifo.read cell
  arrived : ∀ byte, e = .arrive byte → ∀ cell ∈ storedCells s.sys.strm e,
    t.sys.strm.tMemBlockFifo.read cell = byte
  returned : t.sys.returned =
    s.sys.returned ++ (readCells s.sys.strm e).map s.sys.strm.tMemBlockFifo.read
  apart : ∀ cell ∈ readCells s.sys.strm e, cell.1 ≠ s.sys.strm.dma.target

/-! ## The receiver over cells -/

/-- The channel with cells in place of the stored bytes. -/
def DmaRx.cells (storedIn : List Cell) (d : DmaRx β) : DmaRx Cell where
  target := d.target
  length := d.length
  count := d.count
  stored := storedIn
  starts := d.starts
  handedAt := d.handedAt

/-- The stream with cells in place of the bytes. -/
def cellStream (storedIn : List Cell) (s : RxStream β) : RxStream Cell where
  bBusy := s.bBusy
  bUartIdle := s.bUartIdle
  bTimerStart := s.bTimerStart
  tMemBlockFifo := s.tMemBlockFifo.cells
  tByteFifo := s.tByteFifo
  ptByteFifoDmaRx := s.ptByteFifoDmaRx
  ptByteFifoEmpty := s.ptByteFifoEmpty
  hwDmaCntUartIdle := s.hwDmaCntUartIdle
  wSetTime := s.wSetTime
  wTimeStamp := s.wTimeStamp
  fsmFlushHt := s.fsmFlushHt
  fsmDequeue := s.fsmDequeue
  fsmTimeOut := s.fsmTimeOut
  hwDmaSizeTotal := s.hwDmaSizeTotal
  dma := s.dma.cells storedIn

/-- The system over cells: what arrived are the cells stored, what is returned the cells read. -/
def TracedRead.cells (s : TracedRead β) : ReadSystem Cell (DmaRx Cell) where
  strm := cellStream s.storedIn s.sys.strm
  returned := s.readFrom

section Views

variable {s u : RxStream β} {storedIn : List Cell}

theorem cellStream_arrived (byte : β) :
    cellStream (storedIn ++ storedCells s (.arrive byte)) (arrived s byte) =
      arrived (cellStream storedIn s) (s.dma.target, s.dma.count) := by
  by_cases room : s.dma.count < s.dma.length
  · have room' : (cellStream storedIn s).dma.count < (cellStream storedIn s).dma.length := room
    have kept : (cellStream storedIn s).tMemBlockFifo.setByte (cellStream storedIn s).dma.target
        (cellStream storedIn s).dma.count (s.dma.target, s.dma.count) =
          (cellStream storedIn s).tMemBlockFifo :=
      MemBlkFifo.setByte_cells ..
    rw [arrived_room byte room, arrived_room _ room', kept, storedCells, if_pos room]
    rfl
  · have full : ¬ (cellStream storedIn s).dma.count < (cellStream storedIn s).dma.length := room
    rw [arrived_full byte room, arrived_full _ full, storedCells, if_neg room, List.append_nil]

theorem cellStream_dequeue (valid : s.fsmDequeue.chState ≤ Dequeue.getByteFifo) :
    dequeueState (cellStream storedIn s, none) =
      ((cellStream storedIn (dequeueState (s, none)).1.1,
        (dequeueState (s, none)).1.2.map fun _ => headCell s.tByteFifo),
        (dequeueState (s, none)).2) := by
  rcases dequeue_places valid with at_start | at_out | at_get
  · simp only [dequeueState, cellStream, at_start, Option.map_none]
  · have deq' := cells_dequeue s.tMemBlockFifo s.tByteFifo
    obtain ⟨⟨byte | byte, fifo⟩, deq⟩ :
        ∃ r, zeroStrmDequeueByteFifo s.tMemBlockFifo s.tByteFifo = r := ⟨_, rfl⟩
    · rw [deq] at deq'
      simp only [dequeueState, cellStream, at_out, deq, deq', Option.map_none, cells_free]
    · rw [deq] at deq'
      simp only [dequeueState, cellStream, at_out, deq, deq', Option.map_some]
  · have fetched' := cells_fetch s.tMemBlockFifo
    obtain ⟨⟨block | block, pool⟩, fetched⟩ :
        ∃ r, zeroStrmBlockFetch s.tMemBlockFifo = r := ⟨_, rfl⟩
    · rw [fetched] at fetched'
      simp only [dequeueState, cellStream, at_get, fetched, fetched', Option.map_none]
    · rw [fetched] at fetched'
      simp only [dequeueState, cellStream, at_get, fetched, fetched', Option.map_none]
      rfl

/-- A flush runs the same way over cells. -/
theorem cellStream_flushed (lengths : storedIn.length = s.dma.stored.length) :
    rxFlushed (cellStream storedIn s) = cellStream storedIn (rxFlushed s) := by
  obtain ⟨⟨found, free⟩, new⟩ : ∃ r, zeroStrmBlockNew s.tMemBlockFifo = r := ⟨_, rfl⟩
  have new' := cells_new s.tMemBlockFifo
  rw [new] at new'
  have block : newBlock (cellStream storedIn s) = newBlock s := by
    simp only [newBlock, cellStream, new, new']
  have taken : newPool (cellStream storedIn s) = (newPool s).cells := by
    simp only [newPool, cellStream, new, new']
    cases found with
    | none => rfl
    | some b => rfl
  have pool : flushedPool dmaRx.toDmaRxIO (cellStream storedIn s) =
      (flushedPool dmaRx.toDmaRxIO s).cells := by
    simp only [flushedPool, taken, block]
    change (if rxReceived s = 0 then _ else _) = _
    split_ifs
    · exact (cells_free ..).symm
    · exact congrArg Prod.snd (cells_append ((newPool s).setSize ..) _)
  have dma : flushedDma dmaRx.toDmaRxIO (cellStream storedIn s) =
      (flushedDma dmaRx.toDmaRxIO s).cells storedIn := by
    simp only [flushedDma, pool, block]
    change (if rxReceived s = 0 then _ else _) = _
    split_ifs
    · rfl
    · cases newBlock s with
      | none => rfl
      | some b =>
          change DmaRx.start _ b (s.dma.cells storedIn) = (DmaRx.start _ b s.dma).cells storedIn
          simp only [DmaRx.start, DmaRx.cells, lengths]
          rfl
  have dmaBlock : flushedDmaRx dmaRx.toDmaRxIO (cellStream storedIn s) =
      flushedDmaRx dmaRx.toDmaRxIO s := by
    simp only [flushedDmaRx, block]
    rfl
  change flushed _ _ = _
  unfold flushed
  rw [pool, dma, dmaBlock]
  rfl

theorem cellStream_same (same : SameData s u) :
    SameData (cellStream storedIn s) (cellStream storedIn u) := by
  obtain ⟨pool, fifo, dmaBlock, dequeue, total, dma⟩ := same
  exact ⟨congrArg MemBlkFifo.cells pool, fifo, dmaBlock, dequeue, total,
    congrArg (DmaRx.cells storedIn) dma⟩

theorem stored_flushed (s : RxStream β) : (rxFlushed s).dma.stored = s.dma.stored := by
  change (flushedDma dmaRx.toDmaRxIO s).stored = _
  unfold flushedDma
  split_ifs
  · rfl
  · split <;> rfl

/-- A byte is returned from the cell at the head of the ring. -/
theorem returnedByte_headCell (valid : s.fsmDequeue.chState ≤ Dequeue.getByteFifo) :
    returnedByte (dequeueState (s, none)) =
      (readCells s .read).map s.tMemBlockFifo.read := by
  have effect := dequeueState_effect valid
  rw [readCells, List.map_map]
  generalize dequeueState (s, none) = r at effect
  cases effect with
  | byte at_out deq =>
      have cell := dequeue_headCell s.tMemBlockFifo s.tByteFifo
      rw [deq] at cell
      simp only [returnedByte, if_true]
      exact congrArg Option.toList cell
  | _ => simp [returnedByte]

end Views

/-! ## Runs -/

/-- The invariant of a traced run whose flushes find a block. -/
structure CellFlow (count buffCnt : ℕ) (s : TracedRead β) : Prop where
  quiet : Quiet s.sys.strm
  stored : s.storedIn.length = s.sys.strm.dma.stored.length
  read : s.readFrom.length = s.sys.returned.length
  inside : ∀ cell ∈ s.storedIn, cell.1 < count ∧ cell.2 < buffCnt
  flow : ∃ free queue, Flow count buffCnt s.cells free queue ∧
    (rxChannel s.cells queue).Lossless

theorem OwnedBy.dmaBlock_lt {D : Type} {count : ℕ} {s : StreamRead β D} {free queue : List Addr}
    (owned : OwnedBy count s free queue) : s.ptByteFifoDmaRx < count :=
  List.mem_range.mp (owned.partition.subset (by simp))

namespace CellFlow

variable {count buffCnt : ℕ} {s t : TracedRead β} {e : ReadEvent β}

/-- **A handler moves no byte.** -/
theorem handled {r : ReadSystem β (DmaRx β)} (small : buffCnt < 2 ^ 16)
    (inv : CellFlow count buffCnt s) (quiet : Quiet r.strm) (finds : FlushFindsBlock s.sys e)
    (effect : ReadEffect s.sys e r) (noByte : ∀ byte, e ≠ .arrive byte) (noRead : e ≠ .read) :
    CellFlow count buffCnt ⟨r, s.storedIn, s.readFrom⟩ := by
  obtain ⟨free, queue, flow, lossless⟩ := inv.flow
  cases effect with
  | arrive byte => exact absurd rfl (noByte byte)
  | read => exact absurd rfl noRead
  | @flush _ u ran same =>
      have finds' : rxReceived s.cells.strm ≠ 0 → s.cells.strm.tMemBlockFifo.ptFreeList ≠ none :=
        finds ran
      obtain ⟨free', queue', flow', channel, -⟩ := flow.flushed small lossless finds'
      have asCells : rxFlushed s.cells.strm = cellStream s.storedIn (rxFlushed s.sys.strm) :=
        cellStream_flushed inv.stored
      rw [asCells] at flow' channel
      obtain ⟨after, channel'⟩ := flow'.sameData (cellStream_same same)
      refine ⟨quiet, ?_, inv.read, inv.inside, free', queue', after, ?_⟩
      · rw [same.dma, stored_flushed]
        exact inv.stored
      · have here : rxChannel ⟨cellStream s.storedIn u, s.readFrom⟩ queue' =
            rxChannel s.cells queue := channel'.trans channel
        rw [← here] at lossless
        exact lossless
  | @idle _ u rests same =>
      obtain ⟨after, channel⟩ := flow.sameData (cellStream_same same)
      refine ⟨quiet, ?_, inv.read, inv.inside, free, queue, after, ?_⟩
      · rw [same.dma]
        exact inv.stored
      · have here : rxChannel ⟨cellStream s.storedIn u, s.readFrom⟩ queue =
            rxChannel s.cells queue := channel
        rw [← here] at lossless
        exact lossless

/-- **An arriving byte puts its cell in.** -/
theorem arrive (small : buffCnt < 2 ^ 16) (inv : CellFlow count buffCnt s) (byte : β) :
    CellFlow count buffCnt
      ⟨⟨ZeroStrm.arrived s.sys.strm byte, s.sys.returned⟩,
        s.storedIn ++ storedCells s.sys.strm (.arrive byte), s.readFrom⟩ := by
  obtain ⟨free, queue, flow, lossless⟩ := inv.flow
  obtain ⟨after, move⟩ := flow.arrived small (s.sys.strm.dma.target, s.sys.strm.dma.count)
  have asCells : ZeroStrm.arrived s.cells.strm (s.sys.strm.dma.target, s.sys.strm.dma.count) =
      cellStream (s.storedIn ++ storedCells s.sys.strm (.arrive byte))
        (ZeroStrm.arrived s.sys.strm byte) := (cellStream_arrived byte).symm
  rw [asCells] at after move
  have step : ReadStep dmaRx s.sys (.arrive byte)
      ⟨ZeroStrm.arrived s.sys.strm byte, s.sys.returned⟩ := rfl
  refine ⟨inv.quiet.kept step, ?_, inv.read, ?_, free, queue, after, move.lossless lossless⟩
  · by_cases room : s.sys.strm.dma.count < s.sys.strm.dma.length
    · simp only [arrived_room byte room, storedCells, if_pos room, List.length_append,
        List.length_singleton, inv.stored]
    · simp only [arrived_full byte room, storedCells, if_neg room, List.append_nil, inv.stored]
  · intro cell member
    rcases List.mem_append.mp member with before | now
    · exact inv.inside cell before
    · rw [storedCells] at now
      split at now
      · next room =>
          rw [List.mem_singleton.mp now]
          have target : s.sys.strm.dma.target = s.sys.strm.ptByteFifoDmaRx := flow.agrees.target
          have length : s.sys.strm.dma.length = buffCnt :=
            flow.agrees.length.trans flow.agrees.total
          exact ⟨target ▸ flow.owned.dmaBlock_lt, length ▸ room⟩
      · cases now

/-- **A state of `dequeue` takes out the cell of the byte it returns.** -/
theorem dequeue (inv : CellFlow count buffCnt s) :
    CellFlow count buffCnt
      ⟨readStep dmaRx s.sys .read, s.storedIn, s.readFrom ++ readCells s.sys.strm .read⟩ := by
  obtain ⟨free, queue, flow, lossless⟩ := inv.flow
  have asCells : dequeueState (s.cells.strm, none) =
      ((cellStream s.storedIn (dequeueState (s.sys.strm, none)).1.1,
        (dequeueState (s.sys.strm, none)).1.2.map fun _ => headCell s.sys.strm.tByteFifo),
        (dequeueState (s.sys.strm, none)).2) := cellStream_dequeue inv.quiet.dequeue
  have effect := dequeueState_effect (s := s.cells.strm) inv.quiet.dequeue
  obtain ⟨free', queue', after, move⟩ := flow.read effect
  have cell : returnedByte (dequeueState (s.cells.strm, none)) = readCells s.sys.strm .read := by
    rw [asCells, readCells, returnedByte, returnedByte]
    split_ifs
    · exact Option.toList_map ..
    · rfl
  rw [cell, asCells] at after move
  have step : ReadStep dmaRx s.sys .read (readStep dmaRx s.sys .read) := rfl
  have frame := (dequeueState_effect inv.quiet.dequeue).frame
  refine ⟨inv.quiet.kept step, ?_, ?_, inv.inside, free', queue', after, move.lossless lossless⟩
  · rw [inv.stored]
    exact congrArg (fun d => d.stored.length) frame.1.symm
  · simp only [readStep, readCells, List.length_append, List.length_map, inv.read]

/-- **Every event keeps the cells in order**, as long as flushes find a block. -/
theorem kept (small : buffCnt < 2 ^ 16) (inv : CellFlow count buffCnt s)
    (finds : FlushFindsBlock s.sys e) (step : TracedReadStep s e t) :
    CellFlow count buffCnt t := by
  rw [TracedReadStep] at step
  subst step
  have taken : ReadStep dmaRx s.sys e (readStep dmaRx s.sys e) := rfl
  have effect := readStep_effect inv.quiet e
  have quiet := inv.quiet.kept taken
  cases e with
  | arrive byte =>
      simp only [tracedReadStep, readCells, List.append_nil]
      exact inv.arrive small byte
  | read =>
      simp only [tracedReadStep, storedCells, List.append_nil]
      exact inv.dequeue
  | _ =>
      simp only [tracedReadStep, storedCells, readCells, List.append_nil]
      exact inv.handled small quiet finds effect (by rintro _ ⟨⟩) (by rintro ⟨⟩)

/-- Only an arrival changes a cell. -/
theorem reads_kept (inv : CellFlow count buffCnt s) (noByte : ∀ byte, e ≠ .arrive byte) :
    (readStep dmaRx s.sys e).strm.tMemBlockFifo.read = s.sys.strm.tMemBlockFifo.read := by
  refine MemBlkFifo.read_congr ?_
  have effect := readStep_effect inv.quiet e
  generalize readStep dmaRx s.sys e = r at effect
  cases effect with
  | arrive byte => exact absurd rfl (noByte byte)
  | read => exact (dequeueState_effect inv.quiet.dequeue).frame.2.2
  | flush ran same =>
      rw [same.pool]
      exact chMemory_flushedPool
  | idle rests same => rw [same.pool]

/-- What is read lies in the block of `dequeue`, and the channel stores into another one. -/
theorem readCells_apart (inv : CellFlow count buffCnt s) {cell : Cell}
    (member : cell ∈ readCells s.sys.strm e) : cell.1 ≠ s.sys.strm.dma.target := by
  obtain ⟨free, queue, flow, -⟩ := inv.flow
  cases e with
  | read =>
      have effect := dequeueState_effect inv.quiet.dequeue
      rw [readCells] at member
      generalize dequeueState (s.sys.strm, none) = r at effect member
      cases effect with
      | byte at_out deq =>
          obtain ⟨-, -, rfl⟩ := List.mem_map.mp member
          have wf : s.sys.strm.tByteFifo.WellFormed := flow.readable.fifo
          have gives : (zeroStrmDequeueByteFifo s.sys.strm.tMemBlockFifo
              s.sys.strm.tByteFifo).1 ≠ none := by
            rw [deq]
            exact Option.some_ne_none _
          obtain ⟨holds, lies⟩ :=
            flow.readable.buffer ((ByteFifo.dequeue_gives_iff _ wf).mp gives)
          have target : s.sys.strm.dma.target = s.sys.strm.ptByteFifoDmaRx := flow.agrees.target
          have other : s.sys.strm.fsmDequeue.ptByteFifo ≠ s.sys.strm.ptByteFifoDmaRx :=
            flow.owned.held_ne_dmaBlock holds
          exact fun same => other (lies.symm.trans (same.trans target))
      | _ => simp [returnedByte] at member
  | _ => cases member

/-- **No event copies a byte.** -/
theorem inPlace (inv : CellFlow count buffCnt s) (step : TracedReadStep s e t) :
    ReadInPlace s e t := by
  rw [TracedReadStep] at step
  subst step
  have apart : ∀ cell ∈ readCells s.sys.strm e, cell.1 ≠ s.sys.strm.dma.target :=
    fun _ member => inv.readCells_apart member
  cases e with
  | arrive byte =>
      have taken : (tracedReadStep s (.arrive byte)).sys =
          ⟨ZeroStrm.arrived s.sys.strm byte, s.sys.returned⟩ := rfl
      by_cases room : s.sys.strm.dma.count < s.sys.strm.dma.length
      · have cells : storedCells s.sys.strm (.arrive byte) =
            [(s.sys.strm.dma.target, s.sys.strm.dma.count)] := if_pos room
        refine ⟨?_, ?_, (List.append_nil _).symm, apart⟩
        · intro cell outside
          rw [cells, List.mem_singleton] at outside
          rw [taken, arrived_room byte room]
          exact MemBlkFifo.read_setByte_of_ne _ byte outside
        · intro byte' same cell member
          rw [cells] at member
          rw [taken, arrived_room byte room, List.mem_singleton.mp member]
          cases same
          exact MemBlkFifo.read_setByte ..
      · have cells : storedCells s.sys.strm (.arrive byte) = [] := if_neg room
        refine ⟨?_, ?_, (List.append_nil _).symm, apart⟩
        · intro cell outside
          rw [taken, arrived_full byte room]
        · intro byte' same cell member
          rw [cells] at member
          cases member
  | read =>
      refine ⟨?_, ?_, ?_, apart⟩
      · intro cell outside
        exact congrFun (inv.reads_kept (by rintro _ ⟨⟩)) cell
      · rintro byte ⟨⟩
      · rw [← returnedByte_headCell inv.quiet.dequeue]
        rfl
  | _ =>
      refine ⟨?_, ?_, ?_, apart⟩
      · intro cell outside
        exact congrFun (inv.reads_kept (by rintro _ ⟨⟩)) cell
      · rintro byte ⟨⟩
      · exact (List.append_nil _).symm

theorem readFrom_prefix (inv : CellFlow count buffCnt s) : s.readFrom <+: s.storedIn := by
  obtain ⟨free, queue, -, lossless⟩ := inv.flow
  exact lossless.received_prefix

end CellFlow

section Runs

variable {cfg : StreamReadCfg} {m : MemBlkFifo β} {strm : RxStream β} {t : TracedRead β}
  {es : List (ReadEvent β)}

/-- The initialisation runs the same way over cells. -/
theorem zeroStrmReadInit_cells
    (init : zeroStrmReadInit dmaRx.toDmaRxIO cfg m DmaRx.reset = some strm) :
    zeroStrmReadInit dmaRx.toDmaRxIO cfg m.cells DmaRx.reset = some (cellStream [] strm) := by
  obtain ⟨⟨dmaBlock, pool⟩, first⟩ : ∃ r, zeroStrmBlockNew (initBlocks cfg.readBuffCnt cfg.chCnt
      (zeroStrmBlockFifoInit m)) = r := ⟨_, rfl⟩
  obtain ⟨⟨empty, rest⟩, second⟩ : ∃ r, zeroStrmBlockNew pool = r := ⟨_, rfl⟩
  have none : zeroStrmBlockFifoInit m.cells = (zeroStrmBlockFifoInit m).cells := rfl
  have first' : zeroStrmBlockNew (initBlocks cfg.readBuffCnt cfg.chCnt
      (zeroStrmBlockFifoInit m.cells)) = (dmaBlock, pool.cells) := by
    rw [none, cells_initBlocks, cells_new, first]
  have second' : zeroStrmBlockNew pool.cells = (empty, rest.cells) := by
    rw [cells_new, second]
  simp only [zeroStrmReadInit, first, second] at init
  simp only [zeroStrmReadInit, first', second']
  split at init
  · cases init
    rfl
  · cases init

/-- The initialised receiver has no cell in transit. -/
theorem cellFlow_init (positive : 0 < cfg.readBuffCnt) (small : cfg.readBuffCnt < 2 ^ 16)
    (init : zeroStrmReadInit dmaRx.toDmaRxIO cfg m DmaRx.reset = some strm) :
    CellFlow cfg.chCnt cfg.readBuffCnt ⟨⟨strm, []⟩, [], []⟩ := by
  have initial := zeroStrmReadInit_spec init
  obtain ⟨c, ⟨-, free, queue, flow, rfl⟩, lossless⟩ :=
    (zeroStrmReadInit_spec (zeroStrmReadInit_cells init)).shows positive small
  obtain ⟨pool, -, dma⟩ := initial.dma
  refine ⟨initial.quiet, ?_, rfl, ?_, free, queue, flow, lossless⟩
  · rw [dma]
    rfl
  · rintro _ ⟨⟩

/-- **The receiver copies nothing.** In every state of a run whose flushes find a block, the cells
that bytes were returned from are the first cells that bytes were stored in, in their order, one
for each byte, and all of the first `READ_BUFF_CNT` cells of a block of the pool. And whatever
happens next, no cell changes but the one that an arriving byte is stored in, a returned byte is
the content of its cell, and that cell is none of the receiving block. -/
theorem read_zeroCopy (positive : 0 < cfg.readBuffCnt) (small : cfg.readBuffCnt < 2 ^ 16)
    (init : zeroStrmReadInit dmaRx.toDmaRxIO cfg m DmaRx.reset = some strm)
    (run : Run (guarded TracedReadStep fun s => FlushFindsBlock s.sys) ⟨⟨strm, []⟩, [], []⟩ es t) :
    t.readFrom <+: t.storedIn ∧ t.readFrom.length = t.sys.returned.length ∧
      t.storedIn.length = t.sys.strm.dma.stored.length ∧
      (∀ cell ∈ t.storedIn, cell.1 < cfg.chCnt ∧ cell.2 < cfg.readBuffCnt) ∧
      ∀ e u, TracedReadStep t e u → ReadInPlace t e u := by
  have inv : CellFlow cfg.chCnt cfg.readBuffCnt t :=
    run.invariant _ (fun _ _ _ inv taken => inv.kept small taken.1 taken.2)
      (cellFlow_init positive small init)
  exact ⟨inv.readFrom_prefix, inv.read, inv.stored, inv.inside, fun _ _ step => inv.inPlace step⟩

end Runs

/-- The first byte is read from the cell it was stored in, and the second has gone to the next
receiving block. -/
theorem read_zeroCopy_threeBlocks :
    ∃ s t, zeroStrmReadInit dmaRx.toDmaRxIO (smallCfg 3) zeroMemory DmaRx.reset = some s ∧
      Run (guarded TracedReadStep fun s => FlushFindsBlock s.sys) ⟨⟨s, []⟩, [], []⟩
        deliveryEvents t ∧
      t.storedIn = [(2, 0), (0, 0)] ∧ t.readFrom <+: t.storedIn ∧
      t.readFrom.length = t.sys.returned.length ∧ t.sys.returned = [7] := by
  obtain ⟨s, init⟩ : ∃ s,
      zeroStrmReadInit dmaRx.toDmaRxIO (smallCfg 3) zeroMemory DmaRx.reset = some s := ⟨_, rfl⟩
  obtain ⟨t, run, storedIn, returned⟩ : ∃ t,
      Run (guarded TracedReadStep fun s => FlushFindsBlock s.sys) ⟨⟨s, []⟩, [], []⟩
        deliveryEvents t ∧ t.storedIn = [(2, 0), (0, 0)] ∧ t.sys.returned = [7] := by
    obtain rfl := Option.some.inj init
    refine ⟨_, ⟨_, ⟨?_, rfl⟩, _, ⟨?_, rfl⟩, _, ⟨?_, rfl⟩, _, ⟨?_, rfl⟩, _, ⟨?_, rfl⟩,
      _, ⟨?_, rfl⟩, _, ⟨?_, rfl⟩, rfl⟩, rfl, rfl⟩
    · rintro ⟨⟩
    · rintro _ _ ⟨⟩
    all_goals rintro ⟨⟩
  obtain ⟨before, length, -⟩ := read_zeroCopy (by decide) (by decide) init run
  exact ⟨s, t, init, run, storedIn, before, length, returned⟩

end ZeroStrm
