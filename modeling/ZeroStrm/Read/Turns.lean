import ZeroStrm.Read.Ownership

/-!
# The states of a read call

The bytes that can be read are those of the byte queue, followed by those of the queued blocks
(`available`). A stream on which `dequeue` can work has well-formed lists and a well-formed ring,
and it is parked only with its ring drained (`Poppable`). Nothing is asked of the sizes of the
queued blocks but that they fit into sixteen bits, and nothing of the place where the ring lies.

Three states of `dequeue` leave the call to another one: `START`, `BYTE_FIFO_OUT` with a drained
ring, whose block it frees, and `GET_BYTE_FIFO` with a queued block, which it takes. Each is a
`Turn`: it keeps the available bytes and lowers the number of states that the call can still run
(`rank`).
-/

set_option autoImplicit false

namespace ZeroStrm

variable {β D : Type}

/-- The bytes that can be read. -/
def available (s : StreamRead β D) (queue : List Addr) : List β :=
  s.tByteFifo.content s.tMemBlockFifo ++ queue.flatMap s.tMemBlockFifo.blockBytes

/-- A stream that `dequeue` can pop. It is parked only with its ring drained. -/
structure Poppable (s : StreamRead β D) (free queue : List Addr) : Prop where
  represents : Represents s.tMemBlockFifo free queue
  fifo : s.tByteFifo.WellFormed
  sizes : ∀ block ∈ queue, s.tMemBlockFifo.tSizeInByte block < 2 ^ 16
  outside : ∀ block ∈ dequeueHolds s, block ∉ free ∧ block ∉ queue
  drained : s.fsmDequeue.chState = Dequeue.getByteFifo → s.tByteFifo.hwLength = 0
  valid : s.fsmDequeue.chState ≤ Dequeue.getByteFifo

/-- How many states a call can still run. -/
def rank (s : StreamRead β D) (queue : List Addr) : ℕ :=
  2 * queue.length + (3 - s.fsmDequeue.chState)

/-- A state that goes on: it leaves the call to `s'` with the queue `queue'`, having freed the
blocks `seen`. -/
structure Turn (s : StreamRead β D) (free queue : List Addr) (s' : StreamRead β D)
    (queue' seen : List Addr) : Prop where
  code : dequeueState (s, none) = ((s', none), .goto)
  less : rank s' queue' < rank s queue
  ready : Poppable s' (seen.reverse ++ free) queue'
  bytes : available s queue = available s' queue'
  order : dequeueHolds s ++ queue = seen ++ (dequeueHolds s' ++ queue')
  sizes : s'.tMemBlockFifo.tSizeInByte = s.tMemBlockFifo.tSizeInByte
  memory : s'.tMemBlockFifo.chMemory = s.tMemBlockFifo.chMemory
  others : s' = { s with
    tMemBlockFifo := s'.tMemBlockFifo, tByteFifo := s'.tByteFifo, fsmDequeue := s'.fsmDequeue }

/-- The ring that `init_full` makes of a fetched block holds the bytes of the block. A drained
ring stays as it is when the block is empty. -/
theorem init_full_content {m : MemBlkFifo β} {this : ByteFifo} {block : Addr}
    (wf : this.WellFormed) (drained : this.hwLength = 0)
    (small : m.tSizeInByte block < 2 ^ 16) :
    let full := (zeroStrmInitByteFifoFull this (some block) (u16 (m.tSizeInByte block))).2
    full.WellFormed ∧ full.content m = m.blockBytes block ∧
      (full.hwLength ≠ 0 → full.pchBuffer = block) := by
  rw [u16_of_lt small]
  by_cases positive : 0 < m.tSizeInByte block
  · rw [ByteFifo.init_full block positive]
    exact ⟨ByteFifo.wellFormed_full block positive small, ByteFifo.content_full block,
      fun _ => rfl⟩
  · have zero : m.tSizeInByte block = 0 := by omega
    have same : zeroStrmInitByteFifoFull this (some block) 0 = (false, this) := by
      simp only [zeroStrmInitByteFifoFull, if_true]
    have empty : m.blockBytes block = [] := by
      unfold MemBlkFifo.blockBytes
      rw [zero]
      rfl
    rw [zero, same, empty]
    exact ⟨wf, ByteFifo.content_eq_nil_iff.mpr drained, fun bytes => absurd drained bytes⟩

namespace Poppable

variable {s : StreamRead β D} {free queue : List Addr}

theorem holds (at_other : s.fsmDequeue.chState ≠ Dequeue.getByteFifo) :
    dequeueHolds s = [s.fsmDequeue.ptByteFifo] := if_neg at_other

theorem holds_nothing (at_get : s.fsmDequeue.chState = Dequeue.getByteFifo) :
    dequeueHolds s = [] := if_pos at_get

theorem rank_pos (ready : Poppable s free queue) : 0 < rank s queue := by
  have valid := ready.valid
  dsimp only [rank, Dequeue.getByteFifo] at valid ⊢
  omega

/-- A returned byte leaves the ring as the only thing that changed. -/
theorem byte {fifo : ByteFifo} (ready : Poppable s free queue)
    (at_out : s.fsmDequeue.chState = Dequeue.byteFifoOut) (wellFormed : fifo.WellFormed) :
    Poppable { s with
      tByteFifo := fifo
      fsmDequeue := ⟨Dequeue.start, s.fsmDequeue.ptByteFifo⟩ } free queue := by
  have startNotGet : Dequeue.start ≠ Dequeue.getByteFifo := by decide
  have outside := ready.outside
  rw [holds (by rw [at_out]; decide)] at outside
  refine ⟨ready.represents, wellFormed, ready.sizes, ?_, ?_, Nat.zero_le _⟩
  · rw [holds startNotGet]
    exact outside
  · intro at_get
    exact absurd at_get startNotGet

theorem turn_start (ready : Poppable s free queue)
    (at_start : s.fsmDequeue.chState = Dequeue.start) :
    Turn s free queue { s with fsmDequeue := ⟨Dequeue.byteFifoOut, s.fsmDequeue.ptByteFifo⟩ }
      queue [] := by
  have outNotGet : Dequeue.byteFifoOut ≠ Dequeue.getByteFifo := by decide
  have before : dequeueHolds s = [s.fsmDequeue.ptByteFifo] := holds (by rw [at_start]; decide)
  refine ⟨?_, ?_, ⟨ready.represents, ready.fifo, ready.sizes, ?_, fun at_get => ?_, ?_⟩, rfl, ?_,
    rfl, rfl, rfl⟩
  · simp only [dequeueState, at_start]
  · dsimp only [rank]
    rw [at_start]
    dsimp only [Dequeue.start, Dequeue.byteFifoOut]
    omega
  · have outside := ready.outside
    rw [before] at outside
    rw [holds outNotGet]
    exact outside
  · exact absurd at_get outNotGet
  · exact (by decide : Dequeue.byteFifoOut ≤ Dequeue.getByteFifo)
  · rw [before, holds outNotGet]
    rfl

/-- `BYTE_FIFO_OUT` frees the block of a drained ring. -/
theorem turn_free (ready : Poppable s free queue)
    (at_out : s.fsmDequeue.chState = Dequeue.byteFifoOut) (drained : s.tByteFifo.hwLength = 0) :
    Turn s free queue { s with
        tMemBlockFifo := zeroStrmBlockFree s.tMemBlockFifo (some s.fsmDequeue.ptByteFifo)
        fsmDequeue := ⟨Dequeue.getByteFifo, s.fsmDequeue.ptByteFifo⟩ }
      queue [s.fsmDequeue.ptByteFifo] := by
  have before : dequeueHolds s = [s.fsmDequeue.ptByteFifo] := holds (by rw [at_out]; decide)
  obtain ⟨notFree, notQueued⟩ :=
    ready.outside s.fsmDequeue.ptByteFifo (by rw [before]; exact List.mem_singleton_self _)
  refine ⟨?_, ?_, ⟨ready.represents.push notFree notQueued, ready.fifo, ?_, ?_, fun _ => drained,
    le_rfl⟩, ?_, ?_, ?_, ?_, rfl⟩
  · simp only [dequeueState, at_out, ByteFifo.dequeue_nil ready.fifo drained]
  · dsimp only [rank]
    rw [at_out]
    dsimp only [Dequeue.getByteFifo, Dequeue.byteFifoOut]
    omega
  · rw [tSizeInByte_free]
    exact ready.sizes
  · rw [holds_nothing rfl]
    intro block member
    cases member
  · have memory := congrFun (chMemory_free s.tMemBlockFifo (some s.fsmDequeue.ptByteFifo))
      s.tByteFifo.pchBuffer
    rw [available, available, blockBytes_free, ByteFifo.content_congr memory]
  · rw [before, holds_nothing rfl]
    rfl
  · exact tSizeInByte_free ..
  · exact chMemory_free ..

/-- `GET_BYTE_FIFO` takes the first queued block. -/
theorem turn_fetch {block : Addr} {rest : List Addr} {pool : MemBlkFifo β}
    (ready : Poppable s free (block :: rest))
    (at_get : s.fsmDequeue.chState = Dequeue.getByteFifo)
    (fetched : zeroStrmBlockFetch s.tMemBlockFifo = (some block, pool)) :
    Turn s free (block :: rest) { s with
        tMemBlockFifo := pool
        tByteFifo := (zeroStrmInitByteFifoFull s.tByteFifo (some block)
          (u16 (pool.tSizeInByte block))).2
        fsmDequeue := ⟨Dequeue.byteFifoOut, block⟩ } rest [] := by
  have outNotGet : Dequeue.byteFifoOut ≠ Dequeue.getByteFifo := by decide
  have held := ready.represents.fetch_cons.2
  obtain ⟨sameSize, sameMemory, sameBytes⟩ := fetch_frame fetched
  rw [fetched] at held
  obtain ⟨notFree, -⟩ := List.disjoint_cons_right.mp ready.represents.disjoint
  have notRest : block ∉ rest := (List.nodup_cons.mp ready.represents.fifo.nodup).1
  have drained := ready.drained at_get
  have small := ready.sizes block (List.mem_cons_self ..)
  rw [← sameSize] at small
  obtain ⟨wellFormed, content, -⟩ := init_full_content ready.fifo drained small
  refine ⟨?_, ?_, ⟨held, wellFormed, ?_, ?_, fun at_get => absurd at_get outNotGet, ?_⟩, ?_, ?_,
    sameSize, sameMemory, rfl⟩
  · simp only [dequeueState, at_get, fetched]
  · dsimp only [rank]
    rw [at_get, List.length_cons]
    dsimp only [Dequeue.getByteFifo, Dequeue.byteFifoOut]
    omega
  · dsimp only
    rw [sameSize]
    intro other member
    exact ready.sizes other (List.mem_cons_of_mem _ member)
  · rw [holds outNotGet]
    intro other member
    rw [List.mem_singleton.mp member]
    exact ⟨notFree, notRest⟩
  · exact (by decide : Dequeue.byteFifoOut ≤ Dequeue.getByteFifo)
  · dsimp only [available]
    rw [content, sameBytes, ByteFifo.content_eq_nil_iff.mpr drained, List.flatMap_cons]
    rfl
  · rw [holds_nothing at_get, holds outNotGet]
    rfl

end Poppable

end ZeroStrm
