import ZeroStrm.Common.PoolBounds
import ZeroStrm.Write.Capacity

/-!
# Memory safety of the sender

The sender reaches its memory through the pointers of the manager, the block of the channel and
the ring of `enqueue`. All of them stay blocks of the pool in every run, also between two states
of a call, and the only stores outside of links and sizes are the bytes that the ring takes, below
`WRITE_BUFF_CNT` (`writeMemorySafe`). That the ring is not full when it takes one is what the
capacity of the blocks is needed for (`CapacityInv`).
-/

set_option autoImplicit false

namespace ZeroStrm

open EventRuns

variable {β : Type}

/-- Every pointer of the sender is null or a block of the pool: those of the manager, its own
three, and the buffer of its ring. So is every block that the channel was started on. -/
structure WriteSafe (count : ℕ) (s : TxStream β) : Prop where
  pool : PoolInside count s.tMemBlockFifo
  current : s.ptByteFifo < count
  sending : Inside count s.ptFifoSend
  cpl : Inside count s.ptByteFifoCpl
  buffer : s.tByteFifo.pchBuffer < count
  started : ∀ start ∈ s.dma.started, start.1 < count

/-- What a step does to the memory of the sender. -/
structure StepSafe (count limit : ℕ) (s u : TxStream β) : Prop where
  safe : WriteSafe count u
  outside : SameOutside count limit s.tMemBlockFifo u.tMemBlockFifo

section Steps

variable {count limit : ℕ} {s u : TxStream β} {tByte : β}

theorem SameOutside.setByte {m : MemBlkFifo β} {block index : ℕ} {b : β} (inside : block < count)
    (below : index < limit) : SameOutside count limit m (m.setByte block index b) := by
  refine ⟨fun _ _ => rfl, fun _ _ => rfl, ?_⟩
  rintro other position (outside | outside)
  · exact chMemory_setByte_other _ b (.inl (inside.trans_le outside).ne')
  · exact chMemory_setByte_other _ b (.inr (below.trans_le outside).ne')

namespace WriteSafe

theorem frame (safe : WriteSafe count s)
    (same : u.tMemBlockFifo = s.tMemBlockFifo ∧ u.ptByteFifo = s.ptByteFifo ∧
      u.ptFifoSend = s.ptFifoSend ∧ u.ptByteFifoCpl = s.ptByteFifoCpl ∧
      u.tByteFifo = s.tByteFifo ∧ u.dma = s.dma) : StepSafe count limit s u := by
  obtain ⟨pool, current, sending, cpl, fifo, dma⟩ := same
  constructor
  · exact ⟨pool ▸ safe.pool, current ▸ safe.current, sending ▸ safe.sending, cpl ▸ safe.cpl,
      fifo ▸ safe.buffer, dma ▸ safe.started⟩
  · rw [pool]
    exact .refl ..

/-- **`GET_BLOCK` hands the channel a block of the pool.** -/
theorem sends (safe : WriteSafe count s) (sends : Sends dmaTx s u) :
    StepSafe count limit s u := by
  obtain ⟨found, pool, same⟩ := safe.pool.fetch limit
  cases sends with
  | drained =>
      exact ⟨⟨safe.pool, safe.current, inside_none count, safe.cpl, safe.buffer, safe.started⟩,
        .refl ..⟩
  | @started block _ fetched =>
      rw [fetched] at found pool same
      refine ⟨⟨pool, safe.current, found, safe.cpl, safe.buffer, ?_⟩, same⟩
      intro start member
      rcases List.mem_append.mp member with before | now
      · exact safe.started start before
      · obtain rfl := List.mem_singleton.mp now
        exact found block rfl

/-- A byte is stored in the block of `enqueue`, at the tail of the ring. -/
theorem stored {free queue : List Addr} {pool : MemBlkFifo β} {fifo : ByteFifo}
    (safe : WriteSafe count s) (filled : Filled count limit s free queue)
    (here : s.fsmEnqueue = ⟨Enqueue.byteFifoIn, ⟨StreamWriteFlush.start⟩⟩)
    (room : zeroStrmEnqueueByteFifo s.tMemBlockFifo s.tByteFifo tByte = (true, pool, fifo)) :
    StepSafe count limit s (byteStored s pool fifo) := by
  have filling := filled.current (.inr (.inl (congrArg FsmEnqueue.chState here)))
  have tail : s.tByteFifo.hwTail < limit := filling.capacity ▸ filling.wellFormed.tail_lt
  have buffer : fifo.pchBuffer < count := (pchBuffer_enqueue room).trans_lt safe.buffer
  have bytes := zeroStrmEnqueueByteFifo_stores room
  have inside : PoolInside count pool := by
    rw [bytes]
    exact ⟨safe.pool.freeList, safe.pool.head, safe.pool.tail, safe.pool.next⟩
  have same : SameOutside count limit s.tMemBlockFifo pool :=
    bytes ▸ .setByte safe.buffer tail
  obtain ⟨sized, still⟩ :=
    inside.setSize safe.current (pool.tSizeInByte s.ptByteFifo + 1) limit
  exact ⟨⟨sized, safe.current, safe.sending, safe.cpl, buffer, safe.started⟩, same.trans still⟩

/-- **Every state of a call keeps the sender safe.** -/
theorem innermost {free queue : List Addr} {r : TxStream β × Ctl} (safe : WriteSafe count s)
    (filled : Filled count limit s free queue) (effect : InnermostEffect dmaTx s tByte r) :
    StepSafe count limit s r.1 := by
  cases effect with
  | start => exact safe.frame ⟨rfl, rfl, rfl, rfl, rfl, rfl⟩
  | store here room => exact safe.stored filled here room
  | full => exact safe.frame ⟨rfl, rfl, rfl, rfl, rfl, rfl⟩
  | append =>
      obtain ⟨pool, same⟩ := safe.pool.append safe.current limit
      exact ⟨⟨pool, safe.current, safe.sending, safe.cpl, safe.buffer, safe.started⟩, same⟩
  | busy => exact safe.frame ⟨rfl, rfl, rfl, rfl, rfl, rfl⟩
  | acquire => exact safe.frame ⟨rfl, rfl, rfl, rfl, rfl, rfl⟩
  | send here sends =>
      obtain ⟨safe', same⟩ : StepSafe count limit s _ := safe.sends sends
      exact ⟨⟨safe'.pool, safe'.current, safe'.sending, safe'.cpl, safe'.buffer,
        safe'.started⟩, same⟩
  | park => exact safe.frame ⟨rfl, rfl, rfl, rfl, rfl, rfl⟩
  | @take block rest here found =>
      obtain ⟨top, pool, same⟩ := safe.pool.new limit
      rw [found] at top pool same
      have inside := top block rfl
      have buffer : (blockTaken s block rest).tByteFifo.pchBuffer < count := by
        rcases pchBuffer_initEmpty s.tByteFifo block (u16 (rest.tSizeInByte block)) with new | old
        · exact new.trans_lt inside
        · exact old.trans_lt safe.buffer
      obtain ⟨sized, still⟩ := pool.setSize inside 0 limit
      exact ⟨⟨sized, inside, safe.sending, safe.cpl, buffer, safe.started⟩, same.trans still⟩

/-- **So does the interrupt of a transfer**, which frees the block that was sent. -/
theorem completed (safe : WriteSafe count s) (busy : Busy s) :
    StepSafe count limit s (completed s) := by
  obtain ⟨pool, same⟩ := safe.pool.free safe.sending limit
  have freed : WriteSafe count (cplFreed s) :=
    ⟨pool, safe.current, safe.sending, safe.cpl, safe.buffer, safe.started⟩
  obtain ⟨safe', still⟩ : StepSafe count limit (cplFreed s) _ :=
    freed.sends (completed_sends busy.auto busy.nothing)
  exact ⟨safe', same.trans still⟩

end WriteSafe

end Steps

/-! ## Runs -/

section Runs

variable {cfg : StreamWriteCfg} {m : MemBlkFifo β} {t : WriteSystem β} {e : WriteEvent β}

theorem WriteSafe.kept {count limit : ℕ} {s : WriteSystem β} (safe : WriteSafe count s.strm)
    (inv : CapacityInv count limit s) (step : WriteStep s e t) :
    StepSafe count limit s.strm t.strm := by
  obtain ⟨before, ⟨free, queue, filled⟩, -⟩ := inv
  cases step with
  | write => exact safe.frame ⟨rfl, rfl, rfl, rfl, rfl, rfl⟩
  | @step _ tByte =>
      exact safe.innermost filled (innermostState_effect dmaTx tByte before.busy.place)
  | complete => exact safe.completed before.busy

end Runs

end ZeroStrm
