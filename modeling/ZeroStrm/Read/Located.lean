import ZeroStrm.Read.Turns

/-!
# The bytes that can be read, and where they are

Each available byte is in the block it was stored in (`located`). On a stream whose ring lies in
the block that `dequeue` holds (`Readable`), a state of `dequeue` returns at most the first of
these bytes and keeps the others where they are (`Readable.effect`). The states that go on are
the turns of `Poppable`, and a returned byte is the first one of the ring.
-/

set_option autoImplicit false

namespace ZeroStrm

variable {β D : Type}

/-- The bytes that can be read, each with the block it is in. -/
def located (s : StreamRead β D) (queue : List Addr) : List (Addr × β) :=
  (s.tByteFifo.content s.tMemBlockFifo).map (Prod.mk s.tByteFifo.pchBuffer) ++
    queue.flatMap fun block => (s.tMemBlockFifo.blockBytes block).map (Prod.mk block)

theorem map_snd_located (s : StreamRead β D) (queue : List Addr) :
    (located s queue).map Prod.snd = available s queue := by
  simp [located, available, List.map_flatMap, Function.comp_def]

/-- A stream that `dequeue` can work on: the lists are well formed, the byte queue is a
well-formed ring, and a ring that holds bytes lies in the block that `dequeue` holds. -/
structure Readable (s : StreamRead β D) (free queue : List Addr) : Prop where
  represents : Represents s.tMemBlockFifo free queue
  fifo : s.tByteFifo.WellFormed
  sizes : ∀ block ∈ queue, s.tMemBlockFifo.tSizeInByte block < 2 ^ 16
  outside : s.fsmDequeue.chState ≠ Dequeue.getByteFifo →
    s.fsmDequeue.ptByteFifo ∉ free ∧ s.fsmDequeue.ptByteFifo ∉ queue
  buffer : s.tByteFifo.hwLength ≠ 0 → s.fsmDequeue.chState ≠ Dequeue.getByteFifo ∧
    s.tByteFifo.pchBuffer = s.fsmDequeue.ptByteFifo
  valid : s.fsmDequeue.chState ≤ Dequeue.getByteFifo

/-- The three ways a state of `dequeue` ends: the call goes on, it returns a byte, or it
returns without one because there is none. -/
inductive DequeueEnd (s : StreamRead β D) (queue : List Addr)
    (r : (StreamRead β D × Option β) × Ctl) (queue' : List Addr) : Prop where
  | goesOn (ctl : r.2 = .goto) (out : r.1.2 = none) (less : rank r.1.1 queue' < rank s queue)
  | byte (byte : β) (ctl : r.2 = .ret .cpl) (out : r.1.2 = some byte)
  | none (ctl : r.2 = .ret .onGoing) (out : r.1.2 = none) (empty : available s queue = [])

/-- The bytes of a ring that lies in a block are located in that block. -/
theorem located_full {m : MemBlkFifo β} {this : ByteFifo} {block : Addr}
    (lies : this.hwLength ≠ 0 → this.pchBuffer = block)
    (content : this.content m = m.blockBytes block) :
    (this.content m).map (Prod.mk this.pchBuffer) =
      (m.blockBytes block).map (Prod.mk block) := by
  by_cases empty : this.hwLength = 0
  · rw [← content, ByteFifo.content_eq_nil_iff.mpr empty]
    rfl
  · rw [content, lies empty]

/-- The located bytes are seen through the ring, its bytes and the bytes of the blocks. -/
theorem located_congr {s t : StreamRead β D} {queue : List Addr}
    (buffer : t.tByteFifo.pchBuffer = s.tByteFifo.pchBuffer)
    (content : t.tByteFifo.content t.tMemBlockFifo = s.tByteFifo.content s.tMemBlockFifo)
    (blocks : ∀ block ∈ queue,
      t.tMemBlockFifo.blockBytes block = s.tMemBlockFifo.blockBytes block) :
    located t queue = located s queue := by
  unfold located
  rw [buffer, content, List.flatMap_def, List.flatMap_def]
  congr 2
  exact List.map_congr_left fun block member => by rw [blocks block member]

/-- A stream on which `dequeue` can work is readable, if its ring lies in the held block. -/
theorem Poppable.readable {s : StreamRead β D} {free queue : List Addr}
    (ready : Poppable s free queue)
    (buffer : s.tByteFifo.hwLength ≠ 0 → s.fsmDequeue.chState ≠ Dequeue.getByteFifo ∧
      s.tByteFifo.pchBuffer = s.fsmDequeue.ptByteFifo) : Readable s free queue := by
  refine ⟨ready.represents, ready.fifo, ready.sizes, ?_, buffer, ready.valid⟩
  intro holds
  refine ready.outside _ ?_
  rw [Poppable.holds holds]
  exact List.mem_singleton_self _

namespace Readable

variable {s : StreamRead β D} {free queue : List Addr}
  {r : (StreamRead β D × Option β) × Ctl}

/-- `dequeue` can work on such a stream. -/
theorem poppable (readable : Readable s free queue) : Poppable s free queue := by
  refine ⟨readable.represents, readable.fifo, readable.sizes, ?_, ?_, readable.valid⟩
  · intro block member
    rw [dequeueHolds] at member
    split at member
    · cases member
    · next holds =>
        rw [List.mem_singleton.mp member]
        exact readable.outside holds
  · intro at_get
    by_contra bytes
    exact (readable.buffer bytes).1 at_get

/-- **What a state of `dequeue` does to the available bytes.** It returns the first one or
none, and keeps the others. -/
theorem effect (readable : Readable s free queue) (effect : DequeueEffect s r) :
    ∃ free' queue', Readable r.1.1 free' queue' ∧ queue'.length ≤ queue.length ∧
      located s queue = (returnedByte r).map (Prod.mk s.tByteFifo.pchBuffer) ++
        located r.1.1 queue' ∧
      DequeueEnd s queue r queue' := by
  have startNotGet : Dequeue.start ≠ Dequeue.getByteFifo := by decide
  have outNotGet : Dequeue.byteFifoOut ≠ Dequeue.getByteFifo := by decide
  have ready := readable.poppable
  cases effect with
  | start at_start =>
      have turn := ready.turn_start at_start
      refine ⟨free, queue, turn.ready.readable ?_, le_rfl, rfl, .goesOn rfl rfl turn.less⟩
      intro bytes
      exact ⟨outNotGet, (readable.buffer bytes).2⟩
  | @byte byte fifo at_out deq =>
      have nonempty : s.tByteFifo.hwLength ≠ 0 := by
        rw [← ByteFifo.dequeue_gives_iff s.tMemBlockFifo readable.fifo, deq]
        exact Option.some_ne_none byte
      obtain ⟨byte', fifo', deq', content, wf, block, -⟩ :=
        ByteFifo.dequeue_cons s.tMemBlockFifo readable.fifo nonempty
      obtain ⟨rfl, rfl⟩ : byte = byte' ∧ fifo = fifo' := by simpa using deq.symm.trans deq'
      refine ⟨free, queue, (ready.byte at_out wf).readable ?_, le_rfl, ?_, .byte _ rfl rfl⟩
      · intro _
        exact ⟨startNotGet, block.trans (readable.buffer nonempty).2⟩
      · simp only [located, content, block, returnedByte, if_true, Option.toList_some]
        rfl
  | @free fifo at_out deq =>
      have drained : s.tByteFifo.hwLength = 0 := by
        by_contra nonempty
        have given := (ByteFifo.dequeue_gives_iff s.tMemBlockFifo readable.fifo).mpr nonempty
        rw [deq] at given
        exact given rfl
      rw [ByteFifo.dequeue_nil readable.fifo drained] at deq
      obtain rfl : s.tByteFifo = fifo := (Prod.mk.inj deq).2
      have turn := ready.turn_free at_out drained
      refine ⟨_ :: free, queue, turn.ready.readable ?_, le_rfl, ?_, .goesOn rfl rfl turn.less⟩
      · intro bytes
        exact absurd drained bytes
      · have memory := congrFun turn.memory s.tByteFifo.pchBuffer
        have pool := blockBytes_free s.tMemBlockFifo (some s.fsmDequeue.ptByteFifo)
        change located s queue = located _ queue
        exact (located_congr rfl (ByteFifo.content_congr memory)
          fun block _ => congrFun pool block).symm
  | wait at_get fetched =>
      obtain ⟨rfl, rfl⟩ := readable.represents.fetch_none fetched
      refine ⟨free, [], readable, le_rfl, rfl, .none rfl rfl ?_⟩
      rw [available, ByteFifo.content_eq_nil_iff.mpr (ready.drained at_get)]
      rfl
  | @fetch block pool at_get fetched =>
      obtain ⟨rest, rfl, -⟩ := readable.represents.fetch_some fetched
      have turn := ready.turn_fetch at_get fetched
      have drained := ready.drained at_get
      obtain ⟨sameSize, -, sameBytes⟩ := fetch_frame fetched
      have small := readable.sizes block (List.mem_cons_self ..)
      rw [← sameSize] at small
      obtain ⟨-, content, lies⟩ := init_full_content readable.fifo drained small
      refine ⟨free, rest, turn.ready.readable ?_, Nat.le_succ _, ?_, .goesOn rfl rfl turn.less⟩
      · intro bytes
        exact ⟨outNotGet, lies bytes⟩
      · dsimp only [located]
        rw [located_full lies content, sameBytes, ByteFifo.content_eq_nil_iff.mpr drained,
          List.flatMap_cons]
        rfl

/-- The located bytes determine the available ones. -/
theorem available_of_located {t : StreamRead β D} {queue' : List Addr} {bytes : List β}
    {block : Addr} (split : located s queue = bytes.map (Prod.mk block) ++ located t queue') :
    available s queue = bytes ++ available t queue' := by
  rw [← map_snd_located, ← map_snd_located, split]
  simp [Function.comp_def]

end Readable

end ZeroStrm
