import ZeroStrm.Write.Transmission

/-!
# A call of `zero_strm_write`

A call returns: with `true` in the state that stores its byte, or with `false` when `enqueue` is
parked in `GET_BYTE_FIFO` and finds no free block. Every state before that lowers a rank
(`callRank`), and a block that is taken has room for the byte, so a call does not go round
(`call_ends`). A call that returns `false` has touched no byte, no size and no ring, and the byte
it was called with played no part (`CallEnd.parked`).

The states are those of the innermost machine. `call_innermost_enqueue` takes what they say to
the call itself, which is the other direction of `call_enqueue_innermost`.
-/

set_option autoImplicit false

namespace ZeroStrm

open EventRuns

variable {β D : Type}

/-! ## From the innermost machine to the call -/

/-- **What the innermost machine returns, the call returns.** -/
theorem call_innermost_enqueue {io : DmaTxIO β D} {tByte : β} {s t : StreamWrite β D} {rt : FsmRt}
    {n : ℕ} (valid : s.fsmEnqueue.fsmFlush.chState ≤ StreamWriteFlush.getBlock)
    (returned : call (innermostState io tByte) n s = (t, some rt)) :
    ∃ budget, call (enqueueState io tByte) budget s = (t, some rt) := by
  induction n generalizing s with
  | zero => cases returned
  | succ n ih =>
      have elsewhere : ∀ v : StreamWrite β D, v.fsmEnqueue.chState ≠ Enqueue.flush →
          v.fsmEnqueue.fsmFlush.chState ≤ StreamWriteFlush.getBlock →
          call (innermostState io tByte) (n + 1) v = (t, some rt) →
          ∃ budget, call (enqueueState io tByte) budget v = (t, some rt) := by
        intro v notFlush valid returned
        obtain ⟨⟨u, ctl⟩, code⟩ : ∃ r, enqueueState io tByte v = r := ⟨_, rfl⟩
        have inner := (innermostState_enqueue notFlush).trans code
        have next := enqueueState_valid io tByte valid
        rw [code] at next
        cases ctl with
        | goto =>
            rw [call_goto inner] at returned
            obtain ⟨budget, rest⟩ := ih next returned
            exact ⟨budget + 1, by rw [call_goto code, rest]⟩
        | ret rt' =>
            rw [call_ret inner] at returned
            exact ⟨1, by rw [call_ret code, returned]⟩
      by_cases inFlush : s.fsmEnqueue.chState = Enqueue.flush
      · obtain ⟨u, flushed⟩ := streamWriteFlush_cpl io currentBlock s valid
        have code : enqueueState io tByte s =
            ({ u with fsmEnqueue := ⟨Enqueue.getByteFifo, ⟨StreamWriteFlush.start⟩⟩ },
              .goto) := by
          simp only [enqueueState, inFlush, flushed, if_true]
        obtain ⟨k, nested⟩ := call_flush_cpl tByte flushed
        have more := call_mono (Nat.le_add_left (n + 1) k) returned
        have same : ({ s with fsmEnqueue := ⟨Enqueue.flush, s.fsmEnqueue.fsmFlush⟩ } :
            StreamWrite β D) = s := by rw [← inFlush]
        rw [← same, nested] at more
        have getNotFlush : Enqueue.getByteFifo ≠ Enqueue.flush := by decide
        obtain ⟨budget, rest⟩ := elsewhere _ getNotFlush (Nat.zero_le _) more
        exact ⟨budget + 1, by rw [call_goto code, rest]⟩
      · exact elsewhere s inFlush valid returned

/-! ## What one state does to the call -/

/-- Two streams with the same bytes, sizes and ring. -/
structure SameBytes (s t : TxStream β) : Prop where
  memory : t.tMemBlockFifo.chMemory = s.tMemBlockFifo.chMemory
  sizes : t.tMemBlockFifo.tSizeInByte = s.tMemBlockFifo.tSizeInByte
  fifo : t.tByteFifo = s.tByteFifo
  current : t.ptByteFifo = s.ptByteFifo

theorem SameBytes.trans {s t u : TxStream β} (first : SameBytes s t) (second : SameBytes t u) :
    SameBytes s u :=
  ⟨second.memory.trans first.memory, second.sizes.trans first.sizes,
    second.fifo.trans first.fifo, second.current.trans first.current⟩

/-- The next state stores a byte: `BYTE_FIFO_IN` with room in the ring. -/
def StoresNext (s : TxStream β) : Prop :=
  s.fsmEnqueue.chState = Enqueue.byteFifoIn ∧ s.tByteFifo.hwLength ≠ s.tByteFifo.hwSize

/-- How many states a call can still run. -/
def callRank (s : TxStream β) : ℕ :=
  match s.fsmEnqueue.chState with
  | Enqueue.start => 7
  | Enqueue.byteFifoIn => if s.tByteFifo.hwLength = s.tByteFifo.hwSize then 6 else 1
  | Enqueue.flush => 5 - s.fsmEnqueue.fsmFlush.chState
  | _ => 2

theorem callRank_lt (s : TxStream β) : callRank s < 8 := by
  unfold callRank
  split
  · decide
  · split <;> decide
  · omega
  · decide

/-- How a state ends: it goes on with the bytes as they are, it has taken a block for the byte, it
stores the byte, or it finds no block and parks. -/
inductive StateEnd (s : TxStream β) (r : TxStream β × Ctl) : Prop where
  | goesOn (ctl : r.2 = .goto) (less : callRank r.1 < callRank s) (same : SameBytes s r.1)
      (storesNot : ¬ StoresNext s)
  | takes (ctl : r.2 = .goto) (less : callRank r.1 < callRank s) (stores : StoresNext r.1)
  | stored (ctl : r.2 = .ret .cpl)
  | parks (ctl : r.2 = .ret .onGoing) (still : r.1 = s)
      (parked : s.fsmEnqueue = ⟨Enqueue.getByteFifo, ⟨StreamWriteFlush.start⟩⟩)
      (noBlock : s.tMemBlockFifo.ptFreeList = none)

theorem Sends.sameBytes {s u : TxStream β} (sends : Sends dmaTx s u) : SameBytes s u := by
  cases sends with
  | drained empty head => exact ⟨rfl, rfl, rfl, rfl⟩
  | started fetched =>
      obtain ⟨sizes, memory, -⟩ := fetch_frame fetched
      exact ⟨memory, sizes, rfl, rfl⟩

/-- **The ways a state of a call ends.** -/
theorem InnermostEffect.ends {count buffCnt : ℕ} {s : TxStream β} {free queue : List Addr}
    {tByte : β} {r : TxStream β × Ctl} (positive : 0 < buffCnt) (small : buffCnt < 2 ^ 16)
    (filled : Filled count buffCnt s free queue) (effect : InnermostEffect dmaTx s tByte r) :
    StateEnd s r := by
  have elsewhere {place : ℕ} (here : s.fsmEnqueue.chState = place)
      (other : place ≠ Enqueue.byteFifoIn) : ¬ StoresNext s := by
    rintro ⟨inPlace, -⟩
    exact other (here.symm.trans inPlace)
  cases effect with
  | start here =>
      refine .goesOn rfl ?_ ⟨rfl, rfl, rfl, rfl⟩ (elsewhere (congrArg _ here) (by decide))
      simp only [callRank, here]
      split_ifs <;> decide
  | store here room => exact .stored rfl
  | full here refused =>
      have filling := filled.current (.inr (.inl (congrArg FsmEnqueue.chState here)))
      have isFull : s.tByteFifo.hwLength = s.tByteFifo.hwSize := by
        by_contra room
        rw [ByteFifo.enqueue_room filling.wellFormed room] at refused
        cases refused
      refine .goesOn rfl ?_ ⟨rfl, rfl, rfl, rfl⟩ (fun stores => stores.2 isFull)
      simp only [callRank, here, if_pos isFull]
      decide
  | append here =>
      refine .goesOn rfl ?_ ⟨chMemory_append .., tSizeInByte_append .., rfl, rfl⟩
        (elsewhere (congrArg _ here) (by decide))
      simp only [callRank, here, blockAppended]
      decide
  | busy here set =>
      refine .goesOn rfl ?_ ⟨rfl, rfl, rfl, rfl⟩ (elsewhere (congrArg _ here) (by decide))
      simp only [callRank, here]
      decide
  | acquire here clear =>
      refine .goesOn rfl ?_ ⟨rfl, rfl, rfl, rfl⟩ (elsewhere (congrArg _ here) (by decide))
      simp only [callRank, here]
      decide
  | send here sends =>
      refine .goesOn rfl ?_ (sends.sameBytes.trans ⟨rfl, rfl, rfl, rfl⟩)
        (elsewhere (congrArg _ here) (by decide))
      simp only [callRank, here]
      decide
  | park here noBlock =>
      refine .parks rfl rfl here ?_
      cases list : s.tMemBlockFifo.ptFreeList with
      | none => rfl
      | some block =>
          simp only [zeroStrmBlockNew, list] at noBlock
          cases noBlock
  | @take block pool here found =>
      obtain ⟨rest, taken, -⟩ : ∃ rest, _ ∧ txChannel [] (blockTaken s block pool) queue = _ :=
        filled.taken positive small (by simp [OwnsCurrent, here]) found
      have filling := taken.current (.inr (.inl rfl))
      have stores : StoresNext (blockTaken s block pool) := by
        refine ⟨rfl, ?_⟩
        rw [← filling.size, filling.capacity]
        have empty : (blockTaken s block pool).tMemBlockFifo.tSizeInByte block = 0 :=
          Function.update_self ..
        exact (empty.trans_lt positive).ne
      refine .takes rfl ?_ stores
      simp only [callRank, here, if_neg stores.2]
      exact (by decide : 1 < 2)

/-- A state that does not store a byte does the same for every byte. -/
theorem innermostState_anyByte {io : DmaTxIO β D} {s : StreamWrite β D} (tByte other : β)
    (storesNot : ∀ b, s.fsmEnqueue.chState = Enqueue.byteFifoIn →
      (zeroStrmEnqueueByteFifo s.tMemBlockFifo s.tByteFifo b).1 = false) :
    innermostState io other s = innermostState io tByte s := by
  by_cases atIn : s.fsmEnqueue.chState = Enqueue.byteFifoIn
  · have notFlush : s.fsmEnqueue.chState ≠ Enqueue.flush := by rw [atIn]; decide
    rw [innermostState_enqueue notFlush, innermostState_enqueue notFlush]
    simp only [enqueueState, atIn, zeroStrmEnqueueByteFifo_refused (storesNot _ atIn)]
  · by_cases inFlush : s.fsmEnqueue.chState = Enqueue.flush
    · rw [innermostState_flush io other s inFlush, innermostState_flush io tByte s inFlush]
    · rw [innermostState_enqueue inFlush, innermostState_enqueue inFlush]
      simp only [enqueueState]
      split <;> first | rfl | contradiction

theorem Filled.refusesAny {count buffCnt : ℕ} {s : TxStream β} {free queue : List Addr}
    (filled : Filled count buffCnt s free queue) (storesNot : ¬ StoresNext s) (b : β)
    (here : s.fsmEnqueue.chState = Enqueue.byteFifoIn) :
    (zeroStrmEnqueueByteFifo s.tMemBlockFifo s.tByteFifo b).1 = false := by
  have filling := filled.current (.inr (.inl here))
  have isFull : s.tByteFifo.hwLength = s.tByteFifo.hwSize := by
    by_contra room
    exact storesNot ⟨here, room⟩
  rw [ByteFifo.enqueue_full filling.wellFormed isFull]

/-! ## How a call ends -/

/-- How a call ends that was given `n` states: it has stored its byte, or it has parked without
changing a byte, as it would have done for every other byte. -/
inductive CallEnd (s t : TxStream β) (n : ℕ) (rt : FsmRt) : Prop where
  | stored (ctl : rt = .cpl)
  | parked (ctl : rt = .onGoing)
      (place : t.fsmEnqueue = ⟨Enqueue.getByteFifo, ⟨StreamWriteFlush.start⟩⟩)
      (noBlock : t.tMemBlockFifo.ptFreeList = none) (same : SameBytes s t)
      (storesNot : ¬ StoresNext s)
      (anyByte : ∀ b, call (innermostState dmaTx b) n s = (t, some rt))

/-- **A call returns.** The induction is on the states it may still run, which the rank bounds. -/
theorem call_ends {count buffCnt n : ℕ} {s : TxStream β} {free queue : List Addr} {tByte : β}
    (positive : 0 < buffCnt) (small : buffCnt < 2 ^ 16) (busy : Busy s)
    (filled : Filled count buffCnt s free queue) (enough : callRank s < n) :
    ∃ t rt, call (innermostState dmaTx tByte) n s = (t, some rt) ∧ CallEnd s t n rt := by
  induction n generalizing s free queue with
  | zero => cases enough
  | succ n ih =>
      have effect := innermostState_effect dmaTx tByte busy.place
      obtain ⟨free', queue', filled'⟩ := filled.innermost_kept positive small busy effect
      have busy' := busy.innermost effect
      have ends := effect.ends positive small filled
      have anyCode (storesNot : ¬ StoresNext s) (b : β) :
          innermostState dmaTx b s = innermostState dmaTx tByte s :=
        innermostState_anyByte tByte b (fun b here => filled.refusesAny storesNot b here)
      obtain ⟨⟨u, ctl⟩, code⟩ : ∃ r, innermostState dmaTx tByte s = r := ⟨_, rfl⟩
      rw [code] at filled' busy' ends anyCode
      cases ends with
      | goesOn ctl less same storesNot =>
          dsimp only at ctl less same filled' busy'
          subst ctl
          obtain ⟨t, rt, returned, ended⟩ := ih busy' filled' (by omega)
          refine ⟨t, rt, (call_goto code).trans returned, ?_⟩
          cases ended with
          | stored ctl => exact .stored ctl
          | parked ctl place noBlock same' _ anyByte =>
              refine .parked ctl place noBlock (same.trans same') storesNot ?_
              intro b
              exact (call_goto (anyCode storesNot b)).trans (anyByte b)
      | takes ctl less stores =>
          dsimp only at ctl less stores filled' busy'
          subst ctl
          obtain ⟨t, rt, returned, ended⟩ := ih busy' filled' (by omega)
          refine ⟨t, rt, (call_goto code).trans returned, ?_⟩
          cases ended with
          | stored ctl => exact .stored ctl
          | parked _ _ _ _ storesNot => exact absurd stores storesNot
      | stored ctl =>
          dsimp only at ctl
          subst ctl
          exact ⟨u, .cpl, call_ret code, .stored rfl⟩
      | parks ctl still parked noBlock =>
          dsimp only at ctl still
          subst ctl still
          have storesNot : ¬ StoresNext u := by
            rintro ⟨here, -⟩
            rw [parked] at here
            cases here
          refine ⟨u, .onGoing, call_ret code,
            .parked rfl parked noBlock ⟨rfl, rfl, rfl, rfl⟩ storesNot ?_⟩
          intro b
          exact call_ret (anyCode storesNot b)

/-- A whole call: within every budget that is large enough it returns `ret` and leaves `u`. -/
def Writes (s : TxStream β) (tByte : β) (ret : Bool) (u : TxStream β) : Prop :=
  ∃ enough, ∀ budget, enough ≤ budget → zeroStrmWrite dmaTx budget s tByte = some (ret, u)

/-- A call of `zero_strm_write` is what its innermost machine does. -/
theorem writes_of_innermost {s t : TxStream β} {tByte : β} {n : ℕ} {rt : FsmRt} (busy : Busy s)
    (returned : call (innermostState dmaTx tByte) n s = (t, some rt)) :
    Writes s tByte (decide (rt = .cpl)) t := by
  have valid : s.fsmEnqueue.fsmFlush.chState ≤ StreamWriteFlush.getBlock := by
    have place := busy.place
    generalize s.fsmEnqueue = point at place
    cases place <;> decide
  obtain ⟨enough, called⟩ := call_innermost_enqueue valid returned
  refine ⟨enough, ?_⟩
  intro budget larger
  simp only [zeroStrmWrite, call_mono larger called, Option.map_some]

theorem Writes.unique {s u v : TxStream β} {tByte : β} {ret ret' : Bool}
    (first : Writes s tByte ret u) (second : Writes s tByte ret' v) : ret = ret' ∧ u = v := by
  obtain ⟨enough, called⟩ := first
  obtain ⟨enough', called'⟩ := second
  have same := (called _ (Nat.le_max_left enough enough')).symm.trans
    (called' _ (Nat.le_max_right enough enough'))
  exact Prod.mk.inj (Option.some.inj same)

end ZeroStrm
