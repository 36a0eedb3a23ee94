import ZeroStrm.Library.BoundedQueue
import ZeroStrm.Common.ByteFifo

/-!
# Calls of the byte queue

A user of `zero_strm_byte_fifo.c` sees a bounded queue of bytes. `byteFifo_refines` says so for
every capacity that fits into sixteen bits and for any sequence of calls after an initialisation,
further initialisations included: each call returns what the bounded queue returns, and the ring
keeps its shape. Every access to the buffer is below the size of the ring, and no counter wraps
around. A refused call, for whatever reason, changes nothing.
-/

set_option autoImplicit false

namespace ZeroStrm

open DataRefinement BoundedQueue

variable {β : Type}

/-! ## The calls -/

/-- A function of the byte queue with its arguments. -/
inductive ByteFifoFn (β : Type) where
  | initEmpty (ptBuff : Ptr) (hwSize : UInt16)
  | initFull (ptBuff : Ptr) (hwSize : UInt16)
  | enqueue (tByteToIn : β)
  /-- `nullOut` says that `ptToOut` is `NULL`. -/
  | dequeue (nullOut : Bool)
  | isEmpty

/-- A call: `nullThis` says that `ptThis` is `NULL`. -/
structure ByteFifoCall (β : Type) where
  nullThis : Bool
  fn : ByteFifoFn β

/-- The memory of the blocks, a ring, and the byte that `ptToOut` points at. -/
structure ByteFifoSystem (β : Type) where
  pool : MemBlkFifo β
  fifo : ByteFifo
  out : β

/-- A call of the byte queue. -/
def byteFifoCall : Component (ByteFifoSystem β) (ByteFifoCall β) Bool
  | s, ⟨true, _⟩ => (false, s)
  | s, ⟨false, .initEmpty ptBuff hwSize⟩ =>
    let init := zeroStrmInitByteFifoEmpty s.fifo ptBuff hwSize.toNat
    (init.1, { s with fifo := init.2 })
  | s, ⟨false, .initFull ptBuff hwSize⟩ =>
    let init := zeroStrmInitByteFifoFull s.fifo ptBuff hwSize.toNat
    (init.1, { s with fifo := init.2 })
  | s, ⟨false, .enqueue tByteToIn⟩ =>
    let enq := zeroStrmEnqueueByteFifo s.pool s.fifo tByteToIn
    (enq.1, { s with pool := enq.2.1, fifo := enq.2.2 })
  | s, ⟨false, .dequeue true⟩ => (false, s)
  | s, ⟨false, .dequeue false⟩ =>
    let deq := zeroStrmDequeueByteFifo s.pool s.fifo
    (deq.1.isSome, { s with fifo := deq.2, out := deq.1.getD s.out })
  | s, ⟨false, .isEmpty⟩ => (zeroStrmIsByteFifoEmpty s.fifo, s)

/-! ## The bounded queue behind it -/

/-- The first bytes of a buffer. -/
def firstBytes (pool : MemBlkFifo β) (buffer : Addr) (hwSize : UInt16) : List β :=
  (List.range hwSize.toNat).map (pool.chMemory buffer)

/-- What a call asks of the bounded queue. A null argument or a size of zero is refused. -/
def queueView (s : ByteFifoSystem β) : ByteFifoCall β → Call β
  | ⟨true, _⟩ => .refuse
  | ⟨false, .initEmpty none _⟩ => .refuse
  | ⟨false, .initEmpty (some _) hwSize⟩ =>
    if hwSize = 0 then .refuse else .restart (.empty hwSize.toNat)
  | ⟨false, .initFull none _⟩ => .refuse
  | ⟨false, .initFull (some buffer) hwSize⟩ =>
    if hwSize = 0 then .refuse else .restart (.full (firstBytes s.pool buffer hwSize))
  | ⟨false, .enqueue tByteToIn⟩ => .put tByteToIn
  | ⟨false, .dequeue true⟩ => .refuse
  | ⟨false, .dequeue false⟩ => .take
  | ⟨false, .isEmpty⟩ => .isEmpty

/-- A ring that holds the contents of a bounded queue, and the byte taken last. -/
structure QueueHeld (s : ByteFifoSystem β) (t : Queue β × β) : Prop where
  wellFormed : s.fifo.WellFormed
  capacity : t.1.capacity = s.fifo.hwSize
  content : t.1.content = s.fifo.content s.pool
  out : t.2 = s.out

namespace QueueHeld

variable {s : ByteFifoSystem β} {q : Queue β}

theorem room_iff (held : QueueHeld s (q, s.out)) :
    q.content.length < q.capacity ↔ s.fifo.hwLength ≠ s.fifo.hwSize := by
  have capacity : q.capacity = s.fifo.hwSize := held.capacity
  have content : q.content = s.fifo.content s.pool := held.content
  have lengthLe := held.wellFormed.length_le
  rw [capacity, content, ByteFifo.length_content]
  omega

theorem enqueue (held : QueueHeld s (q, s.out)) (tByteToIn : β) :
    (byteFifoCall s ⟨false, .enqueue tByteToIn⟩).1 = (queueCall (q, s.out) (.put tByteToIn)).1 ∧
      QueueHeld (byteFifoCall s ⟨false, .enqueue tByteToIn⟩).2
        (queueCall (q, s.out) (.put tByteToIn)).2 := by
  obtain ⟨wellFormed, capacity, content, -⟩ := id held
  by_cases isFull : s.fifo.hwLength = s.fifo.hwSize
  · have full : q.content.length = q.capacity := by
      have noRoom := mt held.room_iff.mp (not_not_intro isFull)
      have bounded := q.bounded
      omega
    rw [put_full full]
    simp only [byteFifoCall, ByteFifo.enqueue_full wellFormed isFull]
    exact ⟨trivial, held⟩
  · obtain ⟨⟨stored, pool, fifo⟩, code⟩ :
        ∃ r, zeroStrmEnqueueByteFifo s.pool s.fifo tByteToIn = r := ⟨_, rfl⟩
    obtain rfl : stored = true := by
      rw [← (ByteFifo.enqueue_accepts_iff wellFormed).mpr isFull, code]
    have took := ByteFifo.enqueue_took wellFormed code
    have put : (queueCall (q, s.out) (.put tByteToIn)).1 = true ∧ _ :=
      put_room (held.room_iff.mpr isFull)
    obtain ⟨accepted, sameCapacity, appended, kept⟩ := put
    simp only [byteFifoCall, code]
    refine ⟨accepted.symm, took.wellFormed, ?_, ?_, kept⟩
    · exact (sameCapacity.trans capacity).trans took.size.symm
    · rw [appended, took.content, content]

theorem dequeue (held : QueueHeld s (q, s.out)) :
    (byteFifoCall s ⟨false, .dequeue false⟩).1 = (queueCall (q, s.out) .take).1 ∧
      QueueHeld (byteFifoCall s ⟨false, .dequeue false⟩).2 (queueCall (q, s.out) .take).2 := by
  obtain ⟨wellFormed, capacity, content, -⟩ := id held
  by_cases isEmpty : s.fifo.hwLength = 0
  · have nothing : q.content = [] := content.trans (ByteFifo.content_eq_nil_iff.mpr isEmpty)
    rw [take_nil nothing]
    simp only [byteFifoCall, ByteFifo.dequeue_nil wellFormed isEmpty]
    exact ⟨rfl, held⟩
  · obtain ⟨byte, fifo, code, split, wellFormed', -, sameSize, -⟩ :=
      ByteFifo.dequeue_cons s.pool wellFormed isEmpty
    have take : (queueCall (q, s.out) .take).1 = true ∧ _ := take_cons (content.trans split)
    obtain ⟨given, sameCapacity, rest, taken⟩ := take
    simp only [byteFifoCall, code]
    refine ⟨given.symm, wellFormed', ?_, rest, taken⟩
    exact (sameCapacity.trans capacity).trans sameSize.symm

theorem isEmpty (held : QueueHeld s (q, s.out)) :
    (byteFifoCall s ⟨false, .isEmpty⟩).1 = (queueCall (q, s.out) .isEmpty).1 := by
  have content : q.content = s.fifo.content s.pool := held.content
  have nothing : s.fifo.content s.pool = [] ↔ s.fifo.hwLength = 0 := ByteFifo.content_eq_nil_iff
  rw [Bool.eq_iff_iff]
  simp only [byteFifoCall, zeroStrmIsByteFifoEmpty, queueCall, decide_eq_true_eq,
    List.isEmpty_iff, content, nothing]
  exact held.wellFormed.empty_iff

end QueueHeld

theorem toNat_pos {hwSize : UInt16} (nonzero : hwSize ≠ 0) : 0 < hwSize.toNat := by
  apply Nat.pos_of_ne_zero
  intro zero
  exact nonzero (UInt16.toNat_inj.mp zero)

/-- A call that sets a ring up, and the queue that the ring then holds. -/
inductive SetsUp (s : ByteFifoSystem β) : ByteFifoFn β → Queue β → Prop where
  | empty (buffer : Addr) {hwSize : UInt16} (nonzero : hwSize ≠ 0) :
      SetsUp s (.initEmpty (some buffer) hwSize) (.empty hwSize.toNat)
  | full (buffer : Addr) {hwSize : UInt16} (nonzero : hwSize ≠ 0) :
      SetsUp s (.initFull (some buffer) hwSize) (.full (firstBytes s.pool buffer hwSize))

/-- **An initialisation that is not refused sets a ring up**, whatever the ring was before. -/
theorem SetsUp.held {s : ByteFifoSystem β} {fn : ByteFifoFn β} {q : Queue β}
    (up : SetsUp s fn q) :
    (byteFifoCall s ⟨false, fn⟩).1 = true ∧
      QueueHeld (byteFifoCall s ⟨false, fn⟩).2 (q, s.out) := by
  cases up with
  | empty buffer nonzero =>
      have positive := toNat_pos nonzero
      simp only [byteFifoCall, ByteFifo.init_empty buffer positive]
      exact ⟨trivial, ByteFifo.wellFormed_empty buffer positive (UInt16.toNat_lt _), rfl, rfl, rfl⟩
  | @full buffer hwSize nonzero =>
      have positive := toNat_pos nonzero
      simp only [byteFifoCall, ByteFifo.init_full buffer positive]
      refine ⟨trivial, ByteFifo.wellFormed_full buffer positive (UInt16.toNat_lt _), ?_, ?_, rfl⟩
      · simp [Queue.full, firstBytes]
      · exact (Ring.ringList_zero_head le_rfl).symm

/-- One call of the ring is one of the bounded queue. -/
theorem byteFifoCall_step {s : ByteFifoSystem β} {t : Queue β × β} (held : QueueHeld s t)
    (call : ByteFifoCall β) :
    (byteFifoCall s call).1 = (queueCall t (queueView s call)).1 ∧
      QueueHeld (byteFifoCall s call).2 (queueCall t (queueView s call)).2 := by
  obtain ⟨q, out⟩ := t
  obtain rfl : out = s.out := held.out
  obtain ⟨nullThis, fn⟩ := call
  cases nullThis with
  | true => exact ⟨rfl, held⟩
  | false =>
      cases fn with
      | initEmpty ptBuff hwSize =>
          cases ptBuff with
          | none => exact ⟨rfl, held⟩
          | some buffer =>
              by_cases zero : hwSize = 0
              · subst zero
                exact ⟨rfl, held⟩
              · obtain ⟨accepted, up⟩ := (SetsUp.empty (s := s) buffer zero).held
                simp only [queueView, if_neg zero]
                exact ⟨accepted, up⟩
      | initFull ptBuff hwSize =>
          cases ptBuff with
          | none => exact ⟨rfl, held⟩
          | some buffer =>
              by_cases zero : hwSize = 0
              · subst zero
                exact ⟨rfl, held⟩
              · obtain ⟨accepted, up⟩ := (SetsUp.full (s := s) buffer zero).held
                simp only [queueView, if_neg zero]
                exact ⟨accepted, up⟩
      | enqueue tByteToIn => exact held.enqueue tByteToIn
      | dequeue nullOut =>
          cases nullOut with
          | true => exact ⟨rfl, held⟩
          | false => exact held.dequeue
      | isEmpty => exact ⟨held.isEmpty, held⟩

/-- **The ring implements a bounded queue.** -/
theorem byteFifoCall_implements :
    Implements (byteFifoCall : Component (ByteFifoSystem β) _ _) queueCall queueView
      (fun _ _ => True) QueueHeld where
  result _ _ call held _ := (byteFifoCall_step held call).1
  state _ _ call held _ := (byteFifoCall_step held call).2

/-! ## Accesses, counters and refusals -/

/-- The accesses of a call that is not refused are below the size of the ring, and the counters
it moves do not wrap around. -/
def ByteFifoFn.InBounds (this : ByteFifo) : ByteFifoFn β → Prop
  | .enqueue _ =>
    this.hwTail < this.hwSize ∧ this.hwTail + 1 < 2 ^ 16 ∧ this.hwLength + 1 < 2 ^ 16
  | .dequeue _ => this.hwHead < this.hwSize ∧ this.hwHead + 1 < 2 ^ 16 ∧ 0 < this.hwLength
  | _ => True

/-- **A call that is not refused stays in bounds.** -/
theorem QueueHeld.inBounds {s : ByteFifoSystem β} {t : Queue β × β} (held : QueueHeld s t)
    {fn : ByteFifoFn β} (accepted : (byteFifoCall s ⟨false, fn⟩).1 = true) :
    fn.InBounds s.fifo := by
  have wellFormed := held.wellFormed
  have headLt := wellFormed.head_lt
  have tailLt := wellFormed.tail_lt
  have sizeLt := wellFormed.size_lt
  have lengthLe := wellFormed.length_le
  cases fn with
  | enqueue tByteToIn =>
      have room : s.fifo.hwLength ≠ s.fifo.hwSize :=
        (ByteFifo.enqueue_accepts_iff wellFormed).mp accepted
      exact ⟨tailLt, by omega, by omega⟩
  | dequeue nullOut =>
      cases nullOut with
      | true => cases accepted
      | false =>
          have nonempty : s.fifo.hwLength ≠ 0 :=
            (ByteFifo.dequeue_gives_iff s.pool wellFormed).mp (Option.isSome_iff_ne_none.mp accepted)
          exact ⟨headLt, by omega, by omega⟩
  | _ => trivial

/-- A call writes the buffer below the size of the ring, and nothing else in memory. -/
theorem QueueHeld.writes {s : ByteFifoSystem β} {t : Queue β × β} (held : QueueHeld s t)
    (call : ByteFifoCall β) {block : Addr} {i : ℕ}
    (outside : block ≠ s.fifo.pchBuffer ∨ s.fifo.hwSize ≤ i) :
    (byteFifoCall s call).2.pool.chMemory block i = s.pool.chMemory block i := by
  obtain ⟨nullThis, fn⟩ := call
  cases nullThis with
  | true => rfl
  | false =>
      cases fn with
      | enqueue tByteToIn =>
          by_cases isFull : s.fifo.hwLength = s.fifo.hwSize
          · simp only [byteFifoCall, ByteFifo.enqueue_full held.wellFormed isFull]
          · have tailLt := held.wellFormed.tail_lt
            simp only [byteFifoCall, ByteFifo.enqueue_room held.wellFormed isFull]
            exact chMemory_setByte_other s.pool tByteToIn (outside.imp_right (by omega))
      | dequeue nullOut => cases nullOut <;> rfl
      | _ => rfl

/-- **A refused call changes nothing.** -/
theorem byteFifoCall_refused {s : ByteFifoSystem β} {call : ByteFifoCall β}
    (refused : (byteFifoCall s call).1 = false) : (byteFifoCall s call).2 = s := by
  obtain ⟨nullThis, fn⟩ := call
  cases nullThis with
  | true => rfl
  | false =>
      cases fn with
      | initEmpty ptBuff hwSize => simp only [byteFifoCall, zeroStrmInitByteFifoEmpty_refused refused]
      | initFull ptBuff hwSize => simp only [byteFifoCall, zeroStrmInitByteFifoFull_refused refused]
      | enqueue tByteToIn => simp only [byteFifoCall, zeroStrmEnqueueByteFifo_refused refused]
      | dequeue nullOut =>
          cases nullOut with
          | true => rfl
          | false =>
              have nothing : (zeroStrmDequeueByteFifo s.pool s.fifo).1 = none := by
                simpa [byteFifoCall] using refused
              simp only [byteFifoCall, zeroStrmDequeueByteFifo_refused nothing, Option.getD_none]
      | isEmpty => rfl

/-! ## Sequences of calls -/

/-- **The byte queue is a bounded queue**, for every size from one to 65535. After any calls that
follow an initialisation, further initialisations included, the ring has returned what the
bounded queue returns and holds what it holds. The next call is accepted exactly when there is
room, or a byte, and then stays in bounds; refused, it changes nothing. -/
theorem byteFifo_refines {s u : ByteFifoSystem β} {fn : ByteFifoFn β} {q : Queue β}
    (up : SetsUp s fn q) {calls : List (ByteFifoCall β)} {results : List Bool}
    (ran : byteFifoCall.run (byteFifoCall s ⟨false, fn⟩).2 calls = (results, u)) :
    ∃ q' : Queue β,
      queueCall.run (q, s.out)
        (byteFifoCall.seen queueView (byteFifoCall s ⟨false, fn⟩).2 calls) =
          (results, (q', u.out)) ∧
      (u.fifo.WellFormed ∧ u.fifo.hwTail < u.fifo.hwSize) ∧
      q'.capacity = u.fifo.hwSize ∧ q'.content = u.fifo.content u.pool ∧
      (∀ tByteToIn, (byteFifoCall u ⟨false, .enqueue tByteToIn⟩).1 = true ↔
        q'.content.length < u.fifo.hwSize) ∧
      ((byteFifoCall u ⟨false, .dequeue false⟩).1 = true ↔ q'.content ≠ []) ∧
      ((byteFifoCall u ⟨false, .isEmpty⟩).1 = true ↔ q'.content = []) ∧
      (∀ fn : ByteFifoFn β, (byteFifoCall u ⟨false, fn⟩).1 = true → fn.InBounds u.fifo) ∧
      (∀ call block i, block ≠ u.fifo.pchBuffer ∨ u.fifo.hwSize ≤ i →
        (byteFifoCall u call).2.pool.chMemory block i = u.pool.chMemory block i) ∧
      ∀ call, (byteFifoCall u call).1 = false → (byteFifoCall u call).2 = u := by
  obtain ⟨same, held⟩ := byteFifoCall_implements.run up.held.2
    (Component.allowed_of_forall fun _ _ => trivial)
  rw [ran] at same held
  obtain ⟨after, moved⟩ : ∃ after, queueCall.run (q, s.out)
      (byteFifoCall.seen queueView (byteFifoCall s ⟨false, fn⟩).2 calls) = after := ⟨_, rfl⟩
  rw [moved] at same held
  obtain ⟨results', q', out⟩ := after
  obtain rfl : out = u.out := held.out
  obtain rfl : results = results' := same
  have enqueues := fun tByteToIn => (held.enqueue tByteToIn).1
  have dequeues := held.dequeue.1
  refine ⟨q', moved, ⟨held.wellFormed, held.wellFormed.tail_lt⟩, held.capacity, held.content,
    ?_, ?_, ?_, fun fn accepted => held.inBounds accepted,
    fun call block i outside => held.writes call outside,
    fun call refused => byteFifoCall_refused refused⟩
  · intro tByteToIn
    have capacity : q'.capacity = u.fifo.hwSize := held.capacity
    rw [enqueues, put_accepted_iff, capacity]
  · rw [dequeues, take_accepted_iff]
  · rw [held.isEmpty]
    exact List.isEmpty_iff

/-- A ring of two bytes is filled past its end, refuses to be set up without a buffer, wraps
around, and is emptied. -/
def twoByteCalls : List (ByteFifoCall UInt8) :=
  [⟨false, .enqueue 5⟩, ⟨false, .enqueue 6⟩, ⟨false, .enqueue 7⟩, ⟨false, .initFull none 2⟩,
    ⟨false, .dequeue false⟩, ⟨false, .enqueue 8⟩, ⟨false, .dequeue false⟩,
    ⟨false, .dequeue false⟩, ⟨false, .dequeue false⟩, ⟨false, .isEmpty⟩]

/-- The byte that was refused never comes out, and the byte taken last is the one stored last. -/
theorem byteFifo_refines_twoBytes :
    ∃ u, ∃ q' : Queue UInt8, byteFifoCall.run
        (byteFifoCall ⟨zeroMemory, ⟨0, 0, 0, 0, 0⟩, 0⟩ ⟨false, .initEmpty (some 3) 2⟩).2
        twoByteCalls =
          ([true, true, false, false, true, true, true, true, false, true], u) ∧
      u.fifo.WellFormed ∧ u.out = 8 ∧ q'.content = u.fifo.content u.pool ∧ q'.content = [] := by
  have up : SetsUp (⟨zeroMemory, ⟨0, 0, 0, 0, 0⟩, 0⟩ : ByteFifoSystem UInt8)
      (.initEmpty (some 3) 2) (.empty 2) := SetsUp.empty 3 (by decide)
  obtain ⟨u, ran⟩ : ∃ u, byteFifoCall.run
      (byteFifoCall ⟨zeroMemory, ⟨0, 0, 0, 0, 0⟩, 0⟩ ⟨false, .initEmpty (some 3) 2⟩).2
      twoByteCalls = ([true, true, false, false, true, true, true, true, false, true], u) :=
    ⟨_, rfl⟩
  obtain ⟨q', same, wellFormed, -, content, -⟩ := byteFifo_refines up ran
  have left := congrArg Prod.snd same
  refine ⟨u, q', ran, wellFormed.1, ?_, content, ?_⟩
  · exact (congrArg Prod.snd left).symm.trans rfl
  · exact (congrArg (Queue.content ∘ Prod.fst) left).symm.trans rfl

end ZeroStrm
