import ZeroStrm.Read.Turns

/-!
# A read pops the available bytes

`zeroStrmRead_pops` says what a call of `zero_strm_read` does to the stream as a whole. It gives
the first available byte and leaves the others, or writes no byte when there is none. On its way
it frees the drained block and every block of size zero behind it, each once and in order
(`Pops`); the blocks it does not reach stay queued. A call that finds nothing parks `dequeue`,
which then holds no block, and further calls change nothing at all (`Poppable.parked`). So calls
repeated until one returns `false` give all available bytes (`readAll_available`).

The state is any that `dequeue` can work on (`Poppable`), and the queue may hold any number of
blocks, empty ones too. The proof follows the states of `dequeue` with `rank` as the measure: each
turn puts what it does in front of what the rest of the call does (`Turn.pops`).
-/

set_option autoImplicit false

namespace ZeroStrm

variable {β D : Type}

/-- What a call of `zero_strm_read` does to a stream `s`: it ends in `t`, having passed some
blocks, with the blocks `left` still queued. -/
structure Pops (s : StreamRead β D) (free queue : List Addr) (t : StreamRead β D)
    (passed left : List Addr) : Prop where
  /-- The call returns whether there is a byte, and the first byte. -/
  returns : ∀ budget, rank s queue ≤ budget →
    zeroStrmRead budget s = some (!(available s queue).isEmpty, (available s queue).head?, t)
  rest : available t left = (available s queue).tail
  /-- The passed blocks are on the free list, in the order in which they were passed. -/
  ready : Poppable t (passed.reverse ++ free) left
  order : dequeueHolds s ++ queue = passed ++ (dequeueHolds t ++ left)
  /-- The passed blocks that were queued are empty. -/
  empty : ∀ block ∈ passed, block ∈ queue → s.tMemBlockFifo.tSizeInByte block = 0
  /-- A byte of the ring is returned without passing a block. -/
  same : s.tByteFifo.hwLength ≠ 0 → passed = [] ∧
    t.fsmDequeue.ptByteFifo = s.fsmDequeue.ptByteFifo ∧
    t.tByteFifo.pchBuffer = s.tByteFifo.pchBuffer
  /-- Otherwise the byte comes from a queued block, which is now the block being read. -/
  fetched : s.tByteFifo.hwLength = 0 → available s queue ≠ [] →
    t.fsmDequeue.ptByteFifo ∈ queue ∧ t.tByteFifo.pchBuffer = t.fsmDequeue.ptByteFifo
  ends : t.fsmDequeue.chState =
    if (available s queue).isEmpty then Dequeue.getByteFifo else Dequeue.start
  /-- A call that finds nothing has passed the whole queue. -/
  all : available s queue = [] → left = []
  sizes : t.tMemBlockFifo.tSizeInByte = s.tMemBlockFifo.tSizeInByte
  memory : t.tMemBlockFifo.chMemory = s.tMemBlockFifo.chMemory
  others : t = { s with
    tMemBlockFifo := t.tMemBlockFifo, tByteFifo := t.tByteFifo, fsmDequeue := t.fsmDequeue }

section Calls

variable {s t : StreamRead β D} {out : Option β} {rt : FsmRt} {budget : ℕ}

/-- A state that goes on leaves the call to the next one. -/
theorem zeroStrmRead_goto (code : dequeueState (s, none) = ((t, none), .goto)) :
    zeroStrmRead (budget + 1) s = zeroStrmRead budget t := by
  simp only [zeroStrmRead, call_goto code]

/-- A state that returns ends the call. -/
theorem zeroStrmRead_ret (code : dequeueState (s, none) = ((t, out), .ret rt)) :
    zeroStrmRead (budget + 1) s = some (decide (rt = .cpl), out, t) := by
  simp only [zeroStrmRead, call_ret code, Option.map_some]

end Calls

/-- **What a state puts in front of the rest of a call.** The blocks it has freed come before
those that are freed later. -/
theorem Turn.pops {s s' t : StreamRead β D} {free queue queue' seen passed left : List Addr}
    (turn : Turn s free queue s' queue' seen)
    (pops : Pops s' (seen.reverse ++ free) queue' t passed left)
    (empty : ∀ block ∈ seen ++ passed, block ∈ queue → s.tMemBlockFifo.tSizeInByte block = 0)
    (same : s.tByteFifo.hwLength ≠ 0 → seen ++ passed = [] ∧
      t.fsmDequeue.ptByteFifo = s.fsmDequeue.ptByteFifo ∧
      t.tByteFifo.pchBuffer = s.tByteFifo.pchBuffer)
    (fetched : s.tByteFifo.hwLength = 0 → available s queue ≠ [] →
      t.fsmDequeue.ptByteFifo ∈ queue ∧ t.tByteFifo.pchBuffer = t.fsmDequeue.ptByteFifo) :
    Pops s free queue t (seen ++ passed) left where
  returns := by
    intro budget enough
    have less := turn.less
    obtain ⟨budget, rfl⟩ : ∃ b, budget = b + 1 := ⟨budget - 1, by omega⟩
    rw [zeroStrmRead_goto turn.code, turn.bytes]
    exact pops.returns budget (by omega)
  rest := by rw [turn.bytes, pops.rest]
  ready := by
    rw [List.reverse_append, List.append_assoc]
    exact pops.ready
  order := by rw [turn.order, pops.order, List.append_assoc]
  empty := empty
  same := same
  fetched := fetched
  ends := by rw [turn.bytes, pops.ends]
  all := by rw [turn.bytes]; exact pops.all
  sizes := pops.sizes.trans turn.sizes
  memory := pops.memory.trans turn.memory
  others := by
    have later := pops.others
    rw [turn.others] at later
    exact later

namespace Poppable

variable {s : StreamRead β D} {free queue : List Addr}

/-- **A parked stream without queued blocks stays as it is**, however often it is read. -/
theorem parked (ready : Poppable s free [])
    (at_get : s.fsmDequeue.chState = Dequeue.getByteFifo) {budget : ℕ} (enough : budget ≠ 0) :
    zeroStrmRead budget s = some (false, none, s) := by
  obtain ⟨budget, rfl⟩ : ∃ b, budget = b + 1 := ⟨budget - 1, by omega⟩
  have code : dequeueState (s, none) = ((s, none), .ret .onGoing) := by
    simp only [dequeueState, at_get, ready.represents.fetch_nil]
  rw [zeroStrmRead_ret code]
  rfl

/-! ## The turns of a call, and its ends -/

/-- The ring of a fetched block is as long as the block, and lies in it unless it is empty. -/
theorem fetched_ring {block : Addr} {rest : List Addr} {pool : MemBlkFifo β}
    (ready : Poppable s free (block :: rest))
    (at_get : s.fsmDequeue.chState = Dequeue.getByteFifo)
    (fetched : zeroStrmBlockFetch s.tMemBlockFifo = (some block, pool)) :
    let full := (zeroStrmInitByteFifoFull s.tByteFifo (some block)
      (u16 (pool.tSizeInByte block))).2
    full.hwLength = s.tMemBlockFifo.tSizeInByte block ∧
      (full.hwLength ≠ 0 → full.pchBuffer = block) := by
  obtain ⟨sameSize, -⟩ := fetch_frame fetched
  have small := ready.sizes block (List.mem_cons_self ..)
  rw [← sameSize] at small
  obtain ⟨-, content, lies⟩ := init_full_content ready.fifo (ready.drained at_get) small
  refine ⟨?_, lies⟩
  have length := congrArg List.length content
  rw [ByteFifo.length_content, length_blockBytes] at length
  rw [length]
  exact congrFun sameSize block

/-- `BYTE_FIFO_OUT` returns the first byte of the ring. -/
theorem pops_byte (ready : Poppable s free queue)
    (at_out : s.fsmDequeue.chState = Dequeue.byteFifoOut)
    (nonempty : s.tByteFifo.hwLength ≠ 0) : ∃ t, Pops s free queue t [] queue := by
  have startNotGet : Dequeue.start ≠ Dequeue.getByteFifo := by decide
  have before : dequeueHolds s = [s.fsmDequeue.ptByteFifo] := holds (by rw [at_out]; decide)
  obtain ⟨byte, fifo, deq, content, wellFormed, buffer, -⟩ :=
    ByteFifo.dequeue_cons s.tMemBlockFifo ready.fifo nonempty
  have bytes : available s queue = byte ::
      (fifo.content s.tMemBlockFifo ++ queue.flatMap s.tMemBlockFifo.blockBytes) := by
    rw [available, content]
    rfl
  refine ⟨{ s with tByteFifo := fifo, fsmDequeue := ⟨Dequeue.start, s.fsmDequeue.ptByteFifo⟩ },
    ?_, ?_, ready.byte at_out wellFormed, ?_, ?_, ?_, ?_, ?_, ?_, rfl, rfl, rfl⟩
  · intro budget enough
    have positive := ready.rank_pos
    obtain ⟨budget, rfl⟩ : ∃ b, budget = b + 1 := ⟨budget - 1, by omega⟩
    rw [zeroStrmRead_ret (by simp only [dequeueState, at_out, deq]; rfl), bytes]
    rfl
  · rw [bytes]
    rfl
  · rw [before, holds startNotGet]
    rfl
  · intro block member
    cases member
  · intro _
    exact ⟨rfl, rfl, buffer⟩
  · intro drained
    exact absurd drained nonempty
  · rw [bytes]
    rfl
  · rw [bytes]
    intro nothing
    cases nothing

/-- `GET_BYTE_FIFO` without a queued block returns `false`. -/
theorem pops_wait (ready : Poppable s free [])
    (at_get : s.fsmDequeue.chState = Dequeue.getByteFifo) : Pops s free [] s [] [] := by
  have drained := ready.drained at_get
  have bytes : available s [] = [] := by
    rw [available, ByteFifo.content_eq_nil_iff.mpr drained]
    rfl
  refine ⟨?_, ?_, ready, ?_, ?_, ?_, ?_, ?_, fun _ => rfl, rfl, rfl, rfl⟩
  · intro budget enough
    have positive := ready.rank_pos
    rw [ready.parked at_get (by omega), bytes]
    rfl
  · rw [bytes]
    rfl
  · rw [holds_nothing at_get]
    rfl
  · intro block member
    cases member
  · intro nonempty
    exact absurd drained nonempty
  · intro _ some
    exact absurd bytes some
  · rw [bytes, at_get]
    rfl

/-! ## The call -/

/-- **A call pops.** The induction is on the rank: every state that goes on lowers it. -/
theorem pops (ready : Poppable s free queue) :
    ∃ t passed left, Pops s free queue t passed left := by
  obtain ⟨bound, below⟩ : ∃ bound, rank s queue < bound := ⟨_, Nat.lt_succ_self _⟩
  induction bound generalizing s free queue with
  | zero => cases below
  | succ bound ih =>
      rcases dequeue_places ready.valid with at_start | at_out | at_get
      · have turn := ready.turn_start at_start
        have less := turn.less
        obtain ⟨t, passed, left, pops⟩ := ih turn.ready (by omega)
        exact ⟨t, passed, left, turn.pops pops pops.empty pops.same pops.fetched⟩
      · by_cases drained : s.tByteFifo.hwLength = 0
        · have turn := ready.turn_free at_out drained
          have less := turn.less
          obtain ⟨t, passed, left, pops⟩ := ih turn.ready (by omega)
          refine ⟨t, _ :: passed, left, turn.pops pops ?_ ?_ ?_⟩
          · intro block member queued
            rcases List.mem_cons.mp member with rfl | later
            · have held : s.fsmDequeue.ptByteFifo ∈ dequeueHolds s := by
                rw [holds (by rw [at_out]; decide)]
                exact List.mem_singleton_self _
              exact absurd queued (ready.outside _ held).2
            · rw [← turn.sizes]
              exact pops.empty block later queued
          · intro nonempty
            exact absurd drained nonempty
          · intro _ some
            exact pops.fetched drained (turn.bytes ▸ some)
        · obtain ⟨t, pops⟩ := ready.pops_byte at_out drained
          exact ⟨t, [], queue, pops⟩
      · cases queue with
        | nil => exact ⟨s, [], [], ready.pops_wait at_get⟩
        | cons block rest =>
            obtain ⟨⟨first, pool⟩, fetched⟩ :
                ∃ r, zeroStrmBlockFetch s.tMemBlockFifo = r := ⟨_, rfl⟩
            obtain rfl : first = some block := by
              rw [← ready.represents.fetch_cons.1, fetched]
            have turn := ready.turn_fetch at_get fetched
            have less := turn.less
            obtain ⟨t, passed, left, pops⟩ := ih turn.ready (by omega)
            obtain ⟨length, lies⟩ := ready.fetched_ring at_get fetched
            refine ⟨t, passed, left, turn.pops pops ?_ ?_ ?_⟩
            · intro other member queued
              rcases List.mem_cons.mp queued with rfl | later
              · by_contra bytes
                rw [← length] at bytes
                rw [(pops.same bytes).1] at member
                cases member
              · rw [← turn.sizes]
                exact pops.empty other member later
            · intro nonempty
              exact absurd (ready.drained at_get) nonempty
            · intro _ some
              by_cases empty : s.tMemBlockFifo.tSizeInByte block = 0
              · rw [← length] at empty
                obtain ⟨member, buffer⟩ := pops.fetched empty (turn.bytes ▸ some)
                exact ⟨List.mem_cons_of_mem _ member, buffer⟩
              · rw [← length] at empty
                obtain ⟨-, held, buffer⟩ := pops.same empty
                rw [held, buffer]
                exact ⟨List.mem_cons_self .., lies empty⟩

end Poppable

/-- **`zero_strm_read` pops the available bytes**, whatever blocks are queued. A call that finds
nothing leaves the queue empty and `dequeue` without a block, and from then on calls return
`false` and change nothing. -/
theorem zeroStrmRead_pops {s : StreamRead β D} {free queue : List Addr}
    (ready : Poppable s free queue) :
    ∃ t passed left, Pops s free queue t passed left ∧
      (available s queue = [] → left = [] ∧ dequeueHolds t = [] ∧
        ∀ budget, budget ≠ 0 → zeroStrmRead budget t = some (false, none, t)) := by
  obtain ⟨t, passed, left, pops⟩ := ready.pops
  refine ⟨t, passed, left, pops, ?_⟩
  intro nothing
  obtain rfl := pops.all nothing
  have at_get : t.fsmDequeue.chState = Dequeue.getByteFifo := by
    rw [pops.ends, nothing]
    rfl
  refine ⟨rfl, Poppable.holds_nothing at_get, ?_⟩
  intro budget enough
  exact pops.ready.parked at_get enough

/-- A receiver whose ring is drained, with an empty block and a block of one byte queued. -/
def emptyBlockStream : StreamRead UInt8 Unit :=
  { bBusy := false
    bUartIdle := false
    bTimerStart := false
    tMemBlockFifo :=
      ((zeroStrmBlockAppend (zeroStrmBlockAppend (zeroStrmBlockFifoInit zeroMemory)
        (some 1)).2 (some 2)).2.setSize 2 1).setByte 2 0 7
    tByteFifo := ⟨0, 16, 0, 0, 0⟩
    ptByteFifoDmaRx := 3
    ptByteFifoEmpty := 0
    hwDmaCntUartIdle := 0
    wSetTime := 2
    wTimeStamp := 0
    fsmFlushHt := ⟨StreamReadFlush.start, none⟩
    fsmDequeue := ⟨Dequeue.start, 0⟩
    fsmTimeOut := ⟨TimeOut.start, none⟩
    hwDmaSizeTotal := 16
    dma := () }

/-- The byte comes from the last block, and the other two are passed. -/
theorem zeroStrmRead_pops_emptyBlock :
    ∃ t passed left, zeroStrmRead 7 emptyBlockStream = some (true, some 7, t) ∧
      Represents t.tMemBlockFifo passed.reverse left ∧ [0, 1, 2] = passed ++ ([2] ++ left) := by
  have queued : Represents emptyBlockStream.tMemBlockFifo [] [1, 2] :=
    (((Represents.init zeroMemory).enqueue (b := 1) (by decide) (by decide)).enqueue (b := 2)
      (by decide) (by decide)).setSize 2 1 |>.setByte 2 0 7
  have ready : Poppable emptyBlockStream [] [1, 2] :=
    ⟨queued, ByteFifo.wellFormed_empty 0 (by decide) (by decide), by decide, by decide, by decide,
      by decide⟩
  obtain ⟨t, passed, left, pops, -⟩ := zeroStrmRead_pops ready
  have returned : zeroStrmRead 7 emptyBlockStream = some (true, some 7, t) :=
    pops.returns 7 (by decide)
  obtain ⟨u, ran, held⟩ : ∃ u, zeroStrmRead 7 emptyBlockStream = some (true, some 7, u) ∧
      dequeueHolds u = [2] := ⟨_, rfl, rfl⟩
  obtain rfl : t = u := by simpa [ran] using returned.symm
  refine ⟨t, passed, left, ran, ?_, ?_⟩
  · exact List.append_nil passed.reverse ▸ pops.ready.represents
  · have order := pops.order
    rw [held] at order
    exact order

/-! ## Repeated calls -/

/-- A call that returns a byte leaves no more blocks queued than there were. -/
theorem Pops.left_le {s t : StreamRead β D} {free queue passed left : List Addr}
    (pops : Pops s free queue t passed left) (bytes : available s queue ≠ []) :
    left.length ≤ queue.length := by
  have order := congrArg List.length pops.order
  have holdsOne : (dequeueHolds s).length ≤ 1 := by
    rw [dequeueHolds]
    split
    · exact Nat.zero_le _
    · exact le_rfl
  have at_start : t.fsmDequeue.chState = Dequeue.start := by
    rw [pops.ends, if_neg (by rw [List.isEmpty_iff]; exact bytes)]
  rw [Poppable.holds (s := t) (by rw [at_start]; decide)] at order
  simp only [List.length_append, List.length_singleton] at order
  omega

/-- `zero_strm_read` called until it returns `false`, within a number of calls: the bytes it
gives. -/
def readAll (budget : ℕ) : ℕ → StreamRead β D → Option (List β × StreamRead β D)
  | 0, _ => none
  | calls + 1, s =>
    match zeroStrmRead budget s with
    | some (true, some byte, t) => (readAll budget calls t).map fun r => (byte :: r.1, r.2)
    | some (false, _, t) => some ([], t)
    | _ => none

/-- **Repeated calls give all available bytes, in order**, and then `false`. -/
theorem readAll_available {s : StreamRead β D} {free queue : List Addr} {budget calls : ℕ}
    (ready : Poppable s free queue) (enough : 2 * queue.length + 3 ≤ budget)
    (many : (available s queue).length < calls) :
    ∃ t, readAll budget calls s = some (available s queue, t) := by
  induction calls generalizing s free queue with
  | zero => cases many
  | succ calls ih =>
      obtain ⟨t, passed, left, pops⟩ := ready.pops
      have bound : rank s queue ≤ budget := by
        rw [rank]
        omega
      have returned := pops.returns budget bound
      cases bytes : available s queue with
      | nil =>
          rw [bytes] at returned
          refine ⟨t, ?_⟩
          rw [readAll, returned]
          rfl
      | cons byte rest =>
          have after := pops.rest
          have shorter := pops.left_le (by rw [bytes]; exact List.cons_ne_nil byte rest)
          rw [bytes] at returned after many
          rw [List.length_cons] at many
          rw [List.tail_cons] at after
          obtain ⟨u, all⟩ := ih pops.ready (by omega) (by rw [after]; omega)
          refine ⟨u, ?_⟩
          rw [readAll, returned]
          simp only [List.isEmpty_cons, Bool.not_false, List.head?_cons, all, after,
            Option.map_some]

end ZeroStrm
