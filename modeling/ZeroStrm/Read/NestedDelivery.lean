import ZeroStrm.Read.Delivery
import ZeroStrm.Read.Preemption

/-!
# Delivery under preemption

Handlers that preempt each other can have both of their flushes in the section at once
(`flushSections_iff`). Nothing is lost by that. A flush keeps the block that it has taken in its
own machine, and in one state it reads the count, appends the receiving block and starts the
channel on its own one. So every block has one owner, which may be a flush (`NestedOwnedBy`), and
the receiver is the same lossless channel as with handlers that nothing preempts
(`nested_delivery`). The condition is the one of those: a flush that has data has a block
(`CompletesWithBlock`), and for the owners it is exact (`nestedOwned_iff`).

The proof goes back to flushes that run at once. With the blocks of the flushes given back to the
free list, in any order, the receiver is in a state of `Flow` (`NestedFlow`). There a flush that
completes is a flush that finds its own block on top.
-/

set_option autoImplicit false

namespace ZeroStrm

open EventRuns FifoChannel

variable {β : Type}

/-! ## The states of a flush -/

/-- The block that a flush has taken, and has neither freed nor handed to the channel. -/
def flushHolds (this : FsmStreamReadFlush) : List Addr :=
  if this.chState = StreamReadFlush.getDataCnt then this.ptByteFifo.toList else []

theorem flushHolds_at {this : FsmStreamReadFlush}
    (code : this.chState = StreamReadFlush.getDataCnt) :
    flushHolds this = this.ptByteFifo.toList := if_pos code

theorem flushHolds_nil {this : FsmStreamReadFlush}
    (elsewhere : this.chState ≠ StreamReadFlush.getDataCnt) : flushHolds this = [] :=
  if_neg elsewhere

/-- The manager after the receiving block was appended with the received count as its size. -/
def queuedPool (s : RxStream β) : MemBlkFifo β :=
  (zeroStrmBlockAppend (s.tMemBlockFifo.setSize s.ptByteFifoDmaRx (rxReceived s))
    (some s.ptByteFifoDmaRx)).2

theorem tSizeInByte_queuedPool (s : RxStream β) :
    (queuedPool s).tSizeInByte =
      Function.update s.tMemBlockFifo.tSizeInByte s.ptByteFifoDmaRx (rxReceived s) :=
  tSizeInByte_append ..

theorem chMemory_queuedPool (s : RxStream β) :
    (queuedPool s).chMemory = s.tMemBlockFifo.chMemory := chMemory_append ..

/-- The stream after that, with the channel started on another block. -/
def handedOver (s : RxStream β) (block : Addr) : RxStream β :=
  { s with
    tMemBlockFifo := queuedPool s
    ptByteFifoDmaRx := block
    dma := DmaRx.start (queuedPool s) block s.dma }

/-- What a state of a flush does to the blocks and to the channel, and to the block it holds. -/
inductive FlushEffect (this : FsmStreamReadFlush) (s : RxStream β) :
    FsmStreamReadFlush × RxStream β → Prop where
  | rest {this' : FsmStreamReadFlush} {u : RxStream β}
      (elsewhere : this.chState ≠ StreamReadFlush.getDataCnt)
      (after : flushHolds this' = []) (same : SameData s u) : FlushEffect this s (this', u)
  | take (elsewhere : this.chState ≠ StreamReadFlush.getDataCnt) :
      FlushEffect this s
        (⟨StreamReadFlush.getDataCnt, newBlock s⟩, { s with tMemBlockFifo := newPool s })
  | free {u : RxStream β} (at_get : this.chState = StreamReadFlush.getDataCnt)
      (nothing : rxReceived s = 0)
      (same : SameData
        { s with tMemBlockFifo := zeroStrmBlockFree s.tMemBlockFifo this.ptByteFifo } u) :
      FlushEffect this s (⟨StreamReadFlush.start, this.ptByteFifo⟩, u)
  | hand {block : Addr} (at_get : this.chState = StreamReadFlush.getDataCnt)
      (something : rxReceived s ≠ 0) (held : this.ptByteFifo = some block) :
      FlushEffect this s (⟨StreamReadFlush.start, this.ptByteFifo⟩, handedOver s block)
  | keep (at_get : this.chState = StreamReadFlush.getDataCnt) (something : rxReceived s ≠ 0)
      (noBlock : this.ptByteFifo = none) :
      FlushEffect this s
        (⟨StreamReadFlush.start, this.ptByteFifo⟩, { s with tMemBlockFifo := queuedPool s })

/-- **The five effects of a state of a flush.** -/
theorem streamReadFlushState_effect {this : FsmStreamReadFlush} (s : RxStream β)
    (valid : this.chState ≤ StreamReadFlush.getDataCnt) :
    FlushEffect this s (streamReadFlushState dmaRx.toDmaRxIO (this, s)).1 := by
  have states : this.chState = StreamReadFlush.start ∨
      this.chState = StreamReadFlush.isDmaBusy ∨ this.chState = StreamReadFlush.getBlock ∨
        this.chState = StreamReadFlush.getDataCnt := by
    dsimp only [StreamReadFlush.start, StreamReadFlush.isDmaBusy, StreamReadFlush.getBlock,
      StreamReadFlush.getDataCnt] at valid ⊢
    omega
  rcases states with code | code | code | code
  · rw [start_state code]
    exact .rest (code.trans_ne (by decide)) rfl ⟨rfl, rfl, rfl, rfl, rfl, rfl⟩
  · have elsewhere := code.trans_ne (by decide : StreamReadFlush.isDmaBusy ≠ 3)
    cases busy : s.bBusy with
    | false =>
        rw [isDmaBusy_state_idle code busy]
        exact .rest elsewhere rfl ⟨rfl, rfl, rfl, rfl, rfl, rfl⟩
    | true =>
        rw [isDmaBusy_state_busy code busy]
        exact .rest elsewhere rfl ⟨rfl, rfl, rfl, rfl, rfl, rfl⟩
  · rw [getBlock_state code]
    exact .take (code.trans_ne (by decide))
  · have count : (getDmaDataCnt dmaRx.toDmaRxIO s).1 = rxReceived s := rfl
    by_cases nothing : rxReceived s = 0
    · simp only [streamReadFlushState, code, count, nothing, if_true]
      exact .free code nothing ⟨rfl, rfl, rfl, rfl, rfl, rfl⟩
    · simp only [streamReadFlushState, code, count, if_neg nothing, updateDataCnt]
      cases held : this.ptByteFifo with
      | none =>
          have effect : FlushEffect this s _ := .keep code nothing held
          rw [held] at effect
          exact effect
      | some block =>
          have effect : FlushEffect this s _ := .hand code nothing held
          rw [held] at effect
          exact effect

/-! ## Free blocks do not matter -/

/-- Two streams with the same bytes, holders and channel. The links may differ, and the sizes of
the blocks in a list. -/
structure SameBut (blocks : List Addr) (s u : RxStream β) : Prop where
  fifo : u.tByteFifo = s.tByteFifo
  dmaBlock : u.ptByteFifoDmaRx = s.ptByteFifoDmaRx
  dequeue : u.fsmDequeue = s.fsmDequeue
  total : u.hwDmaSizeTotal = s.hwDmaSizeTotal
  dma : u.dma = s.dma
  memory : u.tMemBlockFifo.chMemory = s.tMemBlockFifo.chMemory
  sizes : ∀ block ∉ blocks,
    u.tMemBlockFifo.tSizeInByte block = s.tMemBlockFifo.tSizeInByte block

namespace SameBut

variable {blocks : List Addr} {s t u : RxStream β}

theorem of_data (same : SameData s u) : SameBut blocks s u := by
  obtain ⟨pool, fifo, dmaBlock, dequeue, total, dma⟩ := same
  refine ⟨fifo, dmaBlock, dequeue, total, dma, ?_, ?_⟩
  · rw [pool]
  · intro block _
    rw [pool]

theorem symm (same : SameBut blocks s u) : SameBut blocks u s :=
  ⟨same.fifo.symm, same.dmaBlock.symm, same.dequeue.symm, same.total.symm, same.dma.symm,
    same.memory.symm, fun block outside => (same.sizes block outside).symm⟩

theorem trans (first : SameBut blocks s t) (second : SameBut blocks t u) : SameBut blocks s u :=
  ⟨second.fifo.trans first.fifo, second.dmaBlock.trans first.dmaBlock,
    second.dequeue.trans first.dequeue, second.total.trans first.total,
    second.dma.trans first.dma, second.memory.trans first.memory,
    fun block outside => (second.sizes block outside).trans (first.sizes block outside)⟩

theorem received (same : SameBut blocks s u) : rxReceived u = rxReceived s := by
  simp only [ZeroStrm.received, getDmaDataCnt, same.total, same.dma]

/-- A byte arrives at both. -/
theorem arrived (same : SameBut blocks s u) (byte : β) :
    SameBut blocks (arrived s byte) (ZeroStrm.arrived u byte) := by
  by_cases room : s.dma.count < s.dma.length
  · have room' : u.dma.count < u.dma.length := same.dma ▸ room
    rw [arrived_room byte room, arrived_room byte room']
    obtain ⟨fifo, dmaBlock, dequeue, total, dma, memory, sizes⟩ := same
    refine ⟨fifo, dmaBlock, dequeue, total, ?_, ?_, sizes⟩
    · dsimp only
      rw [dma]
    · simp only [MemBlkFifo.setByte, dma, memory]
  · have full : ¬ u.dma.count < u.dma.length := same.dma ▸ room
    rw [arrived_full byte room, arrived_full byte full]
    exact same

/-- **A flush of the one that finds a block on top, and a flush of the other that holds it.** -/
theorem handedOver {block : Addr} (same : SameBut [] u s)
    (top : u.tMemBlockFifo.ptFreeList = some block) (something : rxReceived s ≠ 0)
    (notDma : block ≠ s.ptByteFifoDmaRx)
    (full : s.tMemBlockFifo.tSizeInByte block = s.hwDmaSizeTotal) :
    SameBut blocks (rxFlushed u) (handedOver s block) := by
  have count := same.received
  rw [count] at something
  rw [same.dmaBlock] at notDma
  have sizes : s.tMemBlockFifo.tSizeInByte = u.tMemBlockFifo.tSizeInByte :=
    funext fun block => same.sizes block List.not_mem_nil
  obtain ⟨dmaBlock, dma⟩ := flushed_starts something top
  have size : (queuedPool s).tSizeInByte = (rxFlushed u).tMemBlockFifo.tSizeInByte := by
    change _ = (flushedPool dmaRx.toDmaRxIO u).tSizeInByte
    rw [tSizeInByte_queuedPool, tSizeInByte_flushedPool something,
      tSizeInByte_newPool (newBlock_eq.trans top), same.dmaBlock, count, ← sizes, ← same.total,
      ← full, Function.update_eq_self]
  have length : (queuedPool s).tSizeInByte block = u.hwDmaSizeTotal := by
    rw [tSizeInByte_queuedPool, same.dmaBlock, Function.update_of_ne notDma, full, same.total]
  refine ⟨same.fifo, dmaBlock.symm, same.dequeue, same.total, ?_, ?_, ?_⟩
  · rw [dma, if_neg notDma]
    simp only [ZeroStrm.handedOver, DmaRx.start, length, same.dma]
  · exact (chMemory_queuedPool s).trans (same.memory.trans chMemory_flushedPool.symm)
  · intro other _
    exact congrFun size other

end SameBut

namespace Flow

variable {count buffCnt : ℕ} {s : ReadSystem β (DmaRx β)} {free free' queue : List Addr}
  {u : RxStream β}

theorem located_but (flow : Flow count buffCnt s free queue) (same : SameBut free s.strm u) :
    located u queue = located s.strm queue := by
  refine located_congr (congrArg ByteFifo.pchBuffer same.fifo)
    (flow.readable.content_keep same.fifo fun _ => congrFun same.memory _) ?_
  intro block member
  refine blockBytes_congr (same.sizes block ?_) (congrFun same.memory block)
  exact fun free => flow.owned.represents.disjoint free member

theorem channel_but (flow : Flow count buffCnt s free queue) (same : SameBut free s.strm u) :
    rxChannel ⟨u, s.returned⟩ queue = rxChannel s queue := by
  have bytes : dmaBytes u = dmaBytes s.strm := by
    rw [dmaBytes, dmaBytes, same.dma, same.dmaBlock, same.memory]
  rw [rxChannel, rxChannel, ← map_snd_located, flow.located_but same, map_snd_located, same.dma,
    bytes]

/-- **The free list may be in another order**, and its blocks may have other sizes. -/
theorem but (flow : Flow count buffCnt s free queue) (same : SameBut free s.strm u)
    (represents : Represents u.tMemBlockFifo free' queue) (order : free'.Perm free) :
    Flow count buffCnt ⟨u, s.returned⟩ free' queue := by
  have owned : OwnedBy count u free' queue := by
    refine .of represents ?_
    rw [same.dmaBlock, dequeueHolds, same.dequeue]
    exact ((order.append_right queue).append_right _).trans flow.owned.partition
  have here := flow.located_but same
  refine ⟨owned, flow.agrees.congr same.dmaBlock same.total same.dma, ?_, ?_⟩
  · refine flow.readable.keep owned same.fifo same.dequeue ?_
    intro block member
    rw [same.sizes block fun free => flow.owned.represents.disjoint free member]
    exact flow.readable.sizes block member
  · intro i block byte found
    rw [here] at found
    rw [same.dma]
    exact flow.fresh i block byte found

end Flow

/-! ## Blocks given back -/

/-- The manager after some blocks were freed, the first one last. -/
def givenBack (held : List Addr) (m : MemBlkFifo β) : MemBlkFifo β :=
  held.foldr (fun block m => zeroStrmBlockFree m (some block)) m

@[simp] theorem tSizeInByte_givenBack (held : List Addr) (m : MemBlkFifo β) :
    (givenBack held m).tSizeInByte = m.tSizeInByte := by
  induction held with
  | nil => rfl
  | cons block held ih => exact (tSizeInByte_free _ (some block)).trans ih

@[simp] theorem chMemory_givenBack (held : List Addr) (m : MemBlkFifo β) :
    (givenBack held m).chMemory = m.chMemory := by
  induction held with
  | nil => rfl
  | cons block held ih => exact (chMemory_free _ (some block)).trans ih

theorem givenBack_represents {m : MemBlkFifo β} {held free queue : List Addr}
    (represents : Represents m free queue) (distinct : (held ++ free ++ queue).Nodup) :
    Represents (givenBack held m) (held ++ free) queue := by
  induction held with
  | nil => exact represents
  | cons block held ih =>
      have apart : (block :: (held ++ free ++ queue)).Nodup := distinct
      obtain ⟨outside, rest⟩ := List.nodup_cons.mp apart
      rw [List.mem_append, not_or] at outside
      exact (ih rest).push outside.1 outside.2

/-- The stream with the held blocks on its free list. -/
def withHeld (held : List Addr) (s : RxStream β) : RxStream β :=
  { s with tMemBlockFifo := givenBack held s.tMemBlockFifo }

theorem withHeld_same (held blocks : List Addr) (s : RxStream β) :
    SameBut blocks (withHeld held s) s :=
  ⟨rfl, rfl, rfl, rfl, rfl, (chMemory_givenBack ..).symm,
    fun block _ => (congrFun (tSizeInByte_givenBack ..) block).symm⟩

/-- With the held blocks given back, the stream is as between two flushes. The held blocks have the
length of the channel as their size. -/
structure NestedFlow (count buffCnt : ℕ) (s : ReadSystem β (DmaRx β))
    (held free queue : List Addr) : Prop where
  represents : Represents s.strm.tMemBlockFifo free queue
  given : Flow count buffCnt ⟨withHeld held s.strm, s.returned⟩ (held ++ free) queue
  lossless : (rxChannel s queue).Lossless
  sizes : ∀ block ∈ held, s.strm.tMemBlockFifo.tSizeInByte block = s.strm.hwDmaSizeTotal

namespace NestedFlow

variable {count buffCnt : ℕ} {s : ReadSystem β (DmaRx β)} {t u : RxStream β} {returned : List β}
  {held others free free' queue : List Addr} {block : Addr}

/-- **A stream that differs from one of `Flow` in its free blocks only**, some of which are held. -/
theorem of (flow : Flow count buffCnt ⟨u, returned⟩ free' queue)
    (lossless : (rxChannel ⟨u, returned⟩ queue).Lossless) (same : SameBut free' u t)
    (represents : Represents t.tMemBlockFifo free queue) (order : (held ++ free).Perm free')
    (sizes : ∀ block ∈ held, t.tMemBlockFifo.tSizeInByte block = t.hwDmaSizeTotal) :
    NestedFlow count buffCnt ⟨t, returned⟩ held free queue := by
  have distinct : (held ++ free ++ queue).Nodup :=
    ((order.append_right queue).nodup_iff).mpr (List.nodup_append.mp flow.owned.nodup).1
  have given := givenBack_represents represents distinct
  have back : SameBut free' t (withHeld held t) := (withHeld_same held free' t).symm
  refine ⟨represents, flow.but (same.trans back) given order, ?_, sizes⟩
  rw [flow.channel_but same]
  exact lossless

theorem given_lossless (flow : NestedFlow count buffCnt s held free queue) :
    (rxChannel ⟨withHeld held s.strm, s.returned⟩ queue).Lossless := by
  have same := flow.given.channel_but (withHeld_same held (held ++ free) s.strm)
  rw [← same]
  exact flow.lossless

/-- A held block is nowhere else. -/
theorem apart (flow : NestedFlow count buffCnt s (block :: others) free queue) :
    block ∉ others ++ free ∧ block ∉ queue ∧ block ≠ s.strm.ptByteFifoDmaRx := by
  have distinct : (block :: (others ++ free ++ queue ++
      s.strm.ptByteFifoDmaRx :: dequeueHolds s.strm)).Nodup := flow.given.owned.nodup
  have outside := (List.nodup_cons.mp distinct).1
  simp only [List.mem_append, List.mem_cons, not_or] at outside ⊢
  exact ⟨outside.1.1, outside.1.2, outside.2.1⟩

/-- The order of the held blocks does not matter. -/
theorem perm (flow : NestedFlow count buffCnt s held free queue) (order : others.Perm held) :
    NestedFlow count buffCnt s others free queue :=
  .of flow.given flow.given_lossless (withHeld_same held _ s.strm) flow.represents
    (order.append_right free) fun block member => flow.sizes block (order.subset member)

/-- Neither do the flags, the timer and the flush machines. -/
theorem sameData (flow : NestedFlow count buffCnt s held free queue) (same : SameData s.strm t) :
    NestedFlow count buffCnt ⟨t, s.returned⟩ held free queue := by
  have back := withHeld_same held (held ++ free) s.strm
  refine .of flow.given flow.given_lossless (back.trans (.of_data same)) ?_ (.refl _) ?_
  · rw [same.pool]
    exact flow.represents
  · rw [same.pool, same.total]
    exact flow.sizes

/-- **A stored byte** goes to the receiving block. -/
theorem arrived (small : buffCnt < 2 ^ 16) (flow : NestedFlow count buffCnt s held free queue)
    (byte : β) :
    NestedFlow count buffCnt ⟨ZeroStrm.arrived s.strm byte, s.returned⟩ held free queue := by
  obtain ⟨after, move⟩ := flow.given.arrived small byte
  have back := withHeld_same held (held ++ free) s.strm
  refine .of after (move.lossless flow.given_lossless) (back.arrived byte) ?_ (.refl _) ?_
  · by_cases room : s.strm.dma.count < s.strm.dma.length
    · rw [arrived_room byte room]
      exact flow.represents.setByte ..
    · rw [arrived_full byte room]
      exact flow.represents
  · rw [tSizeInByte_arrived]
    exact flow.sizes

/-- **A state of `dequeue`**, when no flush holds a block. -/
theorem read (flow : NestedFlow count buffCnt s [] free queue)
    {r : (RxStream β × Option β) × Ctl} (effect : DequeueEffect s.strm r) :
    ∃ free' queue',
      NestedFlow count buffCnt ⟨r.1.1, s.returned ++ returnedByte r⟩ [] free' queue' := by
  have given : Flow count buffCnt s free queue := flow.given
  obtain ⟨free', queue', after, move⟩ := given.read effect
  exact ⟨free', queue', after.owned.represents, after, move.lossless flow.lossless, nofun⟩

/-- **`GET_BLOCK` moves the top of the free list to the flush.** -/
theorem take (flow : NestedFlow count buffCnt s held free queue) :
    ∃ free', NestedFlow count buffCnt
      ⟨{ s.strm with tMemBlockFifo := newPool s.strm }, s.returned⟩
      ((newBlock s.strm).toList ++ held) free' queue := by
  have top := flow.represents.stack.start
  rw [← newBlock_eq] at top
  cases free with
  | nil =>
      have same : SameData s.strm { s.strm with tMemBlockFifo := newPool s.strm } :=
        ⟨newPool_nil flow.represents, rfl, rfl, rfl, rfl, rfl⟩
      have none : newBlock s.strm = none := top
      rw [none]
      exact ⟨[], flow.sameData same⟩
  | cons block free =>
      have found : newBlock s.strm = some block := top
      have size := tSizeInByte_newPool found
      rw [found]
      refine ⟨free, .of flow.given flow.given_lossless ?_ (newPool_cons flow.represents) ?_ ?_⟩
      · refine (withHeld_same held _ s.strm).trans ⟨rfl, rfl, rfl, rfl, rfl, chMemory_newPool, ?_⟩
        intro other outside
        have different : other ≠ block := fun same => outside (by simp [same])
        dsimp only
        rw [size, Function.update_of_ne different]
      · exact List.perm_middle.symm
      · intro other member
        dsimp only
        rw [size]
        by_cases same : other = block
        · rw [same, Function.update_self]
        · rw [Function.update_of_ne same]
          exact flow.sizes other ((List.mem_cons.mp member).resolve_left same)

/-- **A flush without data frees its block.** -/
theorem freed {p : Ptr} (flow : NestedFlow count buffCnt s (p.toList ++ others) free queue) :
    ∃ free', NestedFlow count buffCnt
      ⟨{ s.strm with tMemBlockFifo := zeroStrmBlockFree s.strm.tMemBlockFifo p }, s.returned⟩
      others free' queue := by
  cases p with
  | none => exact ⟨free, flow⟩
  | some block =>
      have flow : NestedFlow count buffCnt s (block :: others) free queue := flow
      obtain ⟨notFree, notQueued, -⟩ := flow.apart
      have back := withHeld_same (block :: others) (block :: others ++ free) s.strm
      refine ⟨block :: free, .of flow.given flow.given_lossless (back.trans ?_) ?_ ?_ ?_⟩
      · exact ⟨rfl, rfl, rfl, rfl, rfl, chMemory_free .., fun _ _ => rfl⟩
      · exact flow.represents.push (fun member => notFree (List.mem_append_right _ member))
          notQueued
      · exact List.perm_middle
      · intro other member
        exact flow.sizes other (List.mem_cons_of_mem _ member)

/-- **A flush with data and a block** appends the receiving block and starts the channel on its
own. -/
theorem hand (small : buffCnt < 2 ^ 16)
    (flow : NestedFlow count buffCnt s (block :: others) free queue)
    (something : rxReceived s.strm ≠ 0) :
    NestedFlow count buffCnt ⟨handedOver s.strm block, s.returned⟩ others free
      (queue ++ [s.strm.ptByteFifoDmaRx]) := by
  obtain ⟨-, -, notDma⟩ := flow.apart
  obtain ⟨dmaNotFree, dmaNotQueued⟩ := flow.given.owned.dmaBlock_outside
  have back := withHeld_same (block :: others) [] s.strm
  obtain ⟨after, channel⟩ := flow.given.flushed_something small flow.given_lossless
    (back.received ▸ something)
  have same : SameBut (others ++ free) (rxFlushed (withHeld (block :: others) s.strm))
      (handedOver s.strm block) :=
    back.handedOver rfl something notDma (flow.sizes block List.mem_cons_self)
  refine .of after (channel.symm ▸ flow.given_lossless) same ?_ (.refl _) ?_
  · exact (flow.represents.setSize ..).enqueue
      (fun member => dmaNotFree (List.mem_append_right _ member)) dmaNotQueued
  · intro other member
    have different : other ≠ s.strm.ptByteFifoDmaRx := fun same =>
      dmaNotFree (List.mem_append_left _ (List.mem_cons_of_mem _ (same ▸ member)))
    change (queuedPool s.strm).tSizeInByte other = s.strm.hwDmaSizeTotal
    rw [tSizeInByte_queuedPool, Function.update_of_ne different]
    exact flow.sizes other (List.mem_cons_of_mem _ member)

end NestedFlow

/-! ## The system -/

/-- The preempted receiver with the bytes that its calls of `zero_strm_read` have returned. -/
structure PreemptedSystem (β : Type) where
  now : Preempted β (DmaRx β)
  returned : List β

/-- The bytes that an event returns. -/
def eventReturns (s : Preempted β (DmaRx β)) : PreemptEvent β → List β
  | .read => returnedByte (dequeueState (s.strm, none))
  | _ => []

def PreemptedStep : StepRel (PreemptedSystem β) (PreemptEvent β) := fun s e t =>
  PreemptStep dmaRx s.now e t.now ∧ t.returned = s.returned ++ eventReturns s.now e

theorem preemptedStep_deterministic : Deterministic (PreemptedStep (β := β)) := by
  rintro s e ⟨t, returned⟩ ⟨u, returned'⟩ ⟨first, bytes⟩ ⟨second, bytes'⟩
  obtain rfl : t = u := preemptStep_deterministic dmaRx first second
  obtain rfl : returned = returned' := bytes.trans bytes'.symm
  rfl

/-- The flush that the innermost handler runs. -/
def innermostFlush (s : Preempted β (DmaRx β)) : Option FsmStreamReadFlush :=
  match s.irq with
  | .dmaHalf :: _ => some s.strm.fsmFlushHt
  | .timeOutFlush :: _ => some s.strm.fsmTimeOut
  | _ => none

/-- A flush that is about to complete and has data has a block for the channel. -/
def CompletesWithBlock (s : PreemptedSystem β) (e : PreemptEvent β) : Prop :=
  e = .step → ∀ this ∈ innermostFlush s.now, this.chState = StreamReadFlush.getDataCnt →
    rxReceived s.now.strm ≠ 0 → this.ptByteFifo ≠ none

/-- The blocks that flushes hold. -/
def flushesHold {D : Type} (s : StreamRead β D) : List Addr :=
  flushHolds s.fsmFlushHt ++ flushHolds s.fsmTimeOut

/-- The states of `time_out` before `FLUSH` move no block. -/
theorem timeOutState_before (s : RxStream β)
    (early : s.fsmTimeOut.chState ≤ TimeOut.isReallyTimeOut) :
    SameData s (timeOutState dmaRx.toDmaRxIO s).1 ∧
      (timeOutState dmaRx.toDmaRxIO s).1.fsmFlushHt = s.fsmFlushHt ∧
      flushHolds (timeOutState dmaRx.toDmaRxIO s).1.fsmTimeOut = [] := by
  have states : s.fsmTimeOut.chState = TimeOut.start ∨
      s.fsmTimeOut.chState = TimeOut.isReallyTimeOut := by
    dsimp only [TimeOut.start, TimeOut.isReallyTimeOut] at early ⊢
    omega
  rcases states with code | code
  · rw [timeOut_start code]
    exact ⟨⟨rfl, rfl, rfl, rfl, rfl, rfl⟩, rfl, rfl⟩
  · have same := SameData.isReallyTimeOut s
    obtain ⟨flushHt, -⟩ := isReallyTimeOut_fsm dmaRx.toDmaRxIO s
    simp only [timeOutState, code]
    split
    · exact ⟨same.trans ⟨rfl, rfl, rfl, rfl, rfl, rfl⟩, flushHt, rfl⟩
    · exact ⟨same.trans ⟨rfl, rfl, rfl, rfl, rfl, rfl⟩, flushHt, rfl⟩

/-- What an event does to the blocks, the byte queue and the channel, and to the blocks that
flushes hold. -/
inductive NestedEffect (s : PreemptedSystem β) : PreemptEvent β → PreemptedSystem β → Prop where
  | arrive (byte : β) :
      NestedEffect s (.arrive byte) ⟨⟨arrived s.now.strm byte, s.now.irq⟩, s.returned⟩
  | read (inactive : s.now.irq = []) :
      NestedEffect s .read
        ⟨⟨(dequeueState (s.now.strm, none)).1.1, s.now.irq⟩,
          s.returned ++ returnedByte (dequeueState (s.now.strm, none))⟩
  | rest {e : PreemptEvent β} {u : Preempted β (DmaRx β)} (same : SameData s.now.strm u.strm)
      (held : flushesHold u.strm = flushesHold s.now.strm)
      (noFlush : e = .step → innermostFlush s.now = none) :
      NestedEffect s e ⟨u, s.returned⟩
  | flush {this : FsmStreamReadFlush} {others : List Addr} {u : Preempted β (DmaRx β)}
      {r : FsmStreamReadFlush × RxStream β} (innermost : innermostFlush s.now = some this)
      (before : (flushHolds this ++ others).Perm (flushesHold s.now.strm))
      (effect : FlushEffect this s.now.strm r) (same : SameData r.2 u.strm)
      (after : (flushHolds r.1 ++ others).Perm (flushesHold u.strm)) :
      NestedEffect s .step ⟨u, s.returned⟩

section Effects

variable {s t : PreemptedSystem β} {rest : List Irq}

/-- A state of the DMA-half handler's flush. -/
theorem NestedEffect.dmaHalf (nested : Nested s.now.control) (top : s.now.irq = .dmaHalf :: rest) :
    NestedEffect s .step ⟨stepDmaHalf dmaRx.toDmaRxIO s.now.strm rest, s.returned⟩ := by
  have effect := streamReadFlushState_effect s.now.strm nested.dmaHalf_valid
  obtain ⟨-, -, timeOut⟩ := streamReadFlushState_control dmaRx.toDmaRxIO s.now.strm.fsmFlushHt
    s.now.strm nested.dmaHalf_valid
  refine .flush (by rw [innermostFlush, top]) (.refl _) effect ⟨rfl, rfl, rfl, rfl, rfl, rfl⟩ ?_
  rw [flushesHold, ← timeOut]
  rfl

/-- A state of the timer's flush. -/
theorem NestedEffect.timeOutFlush (nested : Nested s.now.control)
    (top : s.now.irq = .timeOutFlush :: rest) :
    NestedEffect s .step ⟨stepTimeOutFlush dmaRx.toDmaRxIO s.now.strm rest, s.returned⟩ := by
  have valid := (nested.timeOut_flush_top top).2
  have effect := streamReadFlushState_effect s.now.strm valid
  obtain ⟨flush, flushHt, -⟩ := streamReadFlushState_control dmaRx.toDmaRxIO s.now.strm.fsmTimeOut
    s.now.strm valid
  have innermost : innermostFlush s.now = some s.now.strm.fsmTimeOut := by
    rw [innermostFlush, top]
  obtain ⟨⟨⟨this, u⟩, ctl⟩, code⟩ :
      ∃ r, streamReadFlushState dmaRx.toDmaRxIO (s.now.strm.fsmTimeOut, s.now.strm) = r := ⟨_, rfl⟩
  rw [code] at effect flush flushHt
  simp only [stepTimeOutFlush, code]
  dsimp only at flushHt
  rcases flush.ends with rfl | ⟨rfl, completes⟩
  · refine .flush innermost List.perm_append_comm effect ⟨rfl, rfl, rfl, rfl, rfl, rfl⟩ ?_
    rw [flushesHold, flushHt]
    exact List.perm_append_comm
  · refine .flush innermost List.perm_append_comm effect ⟨rfl, rfl, rfl, rfl, rfl, rfl⟩ ?_
    have before : flushHolds this = [] := flushHolds_nil (completes.trans_ne (by decide))
    rw [flushesHold, flushHt, before]
    exact List.perm_append_comm

/-- A state of `time_out` before `FLUSH`. -/
theorem NestedEffect.timeOut (nested : Nested s.now.control)
    (top : s.now.irq = .timeOut :: rest) :
    NestedEffect s .step ⟨stepTimeOut dmaRx.toDmaRxIO s.now.strm rest, s.returned⟩ := by
  have early : s.now.strm.fsmTimeOut.chState ≤ TimeOut.isReallyTimeOut :=
    nested.timeOut_test_top top
  have before : flushHolds s.now.strm.fsmTimeOut = [] := by
    apply flushHolds_nil
    intro code
    rw [code] at early
    exact absurd early (by decide)
  have noFlush : innermostFlush s.now = none := by rw [innermostFlush, top]
  obtain ⟨same, flushHt, after⟩ := timeOutState_before s.now.strm early
  refine .rest same ?_ fun _ => noFlush
  rw [flushesHold, flushesHold, before]
  dsimp only [stepTimeOut]
  rw [flushHt, after]

/-- **The effects of an event.** -/
theorem PreemptedStep.effect {e : PreemptEvent β} (nested : Nested s.now.control)
    (step : PreemptedStep s e t) : NestedEffect s e t := by
  obtain ⟨u, returned⟩ := t
  obtain ⟨step, rfl⟩ : PreemptStep dmaRx s.now e u ∧ returned = _ := step
  have nothing (other : e ≠ .read) : s.returned ++ eventReturns s.now e = s.returned := by
    cases e with
    | read => exact absurd rfl other
    | _ => exact List.append_nil _
  unfold PreemptStep at step
  cases e with
  | arrive byte =>
      cases step
      rw [nothing (by rintro ⟨⟩)]
      exact .arrive byte
  | uartIdle =>
      cases step
      rw [nothing (by rintro ⟨⟩)]
      exact .rest ⟨rfl, rfl, rfl, rfl, rfl, rfl⟩ rfl (by rintro ⟨⟩)
  | read =>
      simp only [preemptStep] at step
      split at step
      · next inactive =>
          cases step
          exact .read inactive
      · cases step
  | dmaHalf =>
      rw [nothing (by rintro ⟨⟩)]
      simp only [preemptStep] at step
      split at step
      · cases step
      · cases step
        exact .rest ⟨rfl, rfl, rfl, rfl, rfl, rfl⟩ rfl (by rintro ⟨⟩)
  | tick =>
      rw [nothing (by rintro ⟨⟩)]
      simp only [preemptStep] at step
      split at step
      · cases step
      · cases step
        exact .rest ⟨rfl, rfl, rfl, rfl, rfl, rfl⟩ rfl (by rintro ⟨⟩)
  | step =>
      rw [nothing (by rintro ⟨⟩)]
      simp only [preemptStep] at step
      split at step
      · cases step
      · next rest top =>
          cases step
          exact .dmaHalf nested top
      · next rest top =>
          cases step
          exact .timeOut nested top
      · next rest top =>
          cases step
          exact .timeOutFlush nested top

end Effects

/-! ## Owners -/

/-- The blocks below `count` are partitioned into a free list, a queue, the blocks of the flushes,
the block of the channel and the block of `dequeue`. -/
structure NestedOwnedBy {D : Type} (count : ℕ) (s : StreamRead β D) (free queue : List Addr) :
    Prop where
  represents : Represents s.tMemBlockFifo free queue
  partition : (free ++ queue ++ (flushesHold s ++ s.ptByteFifoDmaRx :: dequeueHolds s)).Perm
    (List.range count)

/-- Every block has exactly one owner. -/
def NestedOwned {D : Type} (count : ℕ) (s : StreamRead β D) : Prop :=
  ∃ free queue, NestedOwnedBy count s free queue

/-- What is known of the preempted receiver. -/
structure NestedInv (count buffCnt : ℕ) (s : PreemptedSystem β) : Prop where
  nested : Nested s.now.control
  flow : ∃ free queue, NestedFlow count buffCnt ⟨s.now.strm, s.returned⟩
    (flushesHold s.now.strm) free queue

section Invariant

variable {count buffCnt : ℕ} {s t : PreemptedSystem β} {e : PreemptEvent β}
  {free queue : List Addr}

theorem NestedFlow.owned {s : ReadSystem β (DmaRx β)}
    (flow : NestedFlow count buffCnt s (flushesHold s.strm) free queue) :
    NestedOwnedBy count s.strm free queue := by
  refine ⟨flow.represents, List.Perm.trans ?_ flow.given.owned.partition⟩
  apply List.perm_iff_count.mpr
  intro block
  have same : (withHeld (flushesHold s.strm) s.strm).ptByteFifoDmaRx = s.strm.ptByteFifoDmaRx ∧
      dequeueHolds (withHeld (flushesHold s.strm) s.strm) = dequeueHolds s.strm := ⟨rfl, rfl⟩
  simp only [same, List.count_append]
  omega

/-- **Every state of a flush keeps the channel**, if a flush that completes with data has a
block. -/
theorem NestedFlow.flushEffect {s : ReadSystem β (DmaRx β)} {this : FsmStreamReadFlush}
    {others : List Addr} {r : FsmStreamReadFlush × RxStream β} (small : buffCnt < 2 ^ 16)
    (flow : NestedFlow count buffCnt s (flushHolds this ++ others) free queue)
    (effect : FlushEffect this s.strm r)
    (completes : this.chState = StreamReadFlush.getDataCnt → rxReceived s.strm ≠ 0 →
      this.ptByteFifo ≠ none) :
    ∃ free' queue',
      NestedFlow count buffCnt ⟨r.2, s.returned⟩ (flushHolds r.1 ++ others) free' queue' := by
  cases effect with
  | rest elsewhere after same =>
      rw [flushHolds_nil elsewhere] at flow
      rw [after]
      exact ⟨free, queue, flow.sameData same⟩
  | take elsewhere =>
      rw [flushHolds_nil elsewhere] at flow
      obtain ⟨free', taken⟩ := NestedFlow.take flow
      exact ⟨free', queue, taken⟩
  | free at_get nothing same =>
      rw [flushHolds_at at_get] at flow
      obtain ⟨free', freed⟩ := flow.freed
      exact ⟨free', queue, freed.sameData same⟩
  | hand at_get something held =>
      rw [flushHolds_at at_get, held] at flow
      exact ⟨free, _, NestedFlow.hand small flow something⟩
  | keep at_get something noBlock => exact absurd noBlock (completes at_get something)

/-- Without an active handler no flush holds a block. -/
theorem Nested.flushesHold (nested : Nested s.now.control) (inactive : s.now.irq = []) :
    ZeroStrm.flushesHold s.now.strm = [] := by
  have flushHt : s.now.strm.fsmFlushHt.chState = 0 := nested.dmaHalf_inactive (by
    rw [Preempted.control, inactive]
    rfl)
  have timeOut : s.now.strm.fsmTimeOut.chState = 0 := nested.timeOut_inactive (by
    rw [Preempted.control, inactive]
    rfl)
  rw [ZeroStrm.flushesHold, flushHolds_nil (flushHt.trans_ne (by decide)),
    flushHolds_nil (timeOut.trans_ne (by decide))]
  rfl

/-- **Every event keeps what is known**, if a flush that completes with data has a block. -/
theorem NestedInv.kept (small : buffCnt < 2 ^ 16) (inv : NestedInv count buffCnt s)
    (completes : CompletesWithBlock s e) (step : PreemptedStep s e t) :
    NestedInv count buffCnt t := by
  refine ⟨inv.nested.step step.1, ?_⟩
  obtain ⟨free, queue, flow⟩ := inv.flow
  cases step.effect inv.nested with
  | arrive byte => exact ⟨free, queue, flow.arrived small byte⟩
  | read inactive =>
      have noneHeld := inv.nested.flushesHold inactive
      obtain ⟨flushHt, timeOut⟩ := dequeueState_fsm s.now.strm none
      rw [noneHeld] at flow
      obtain ⟨free', queue', after⟩ :=
        flow.read (dequeueState_effect flow.given.readable.valid)
      have same : flushesHold (dequeueState (s.now.strm, none)).1.1 = [] := by
        rw [← noneHeld, flushesHold, flushHt, timeOut]
        rfl
      refine ⟨free', queue', ?_⟩
      dsimp only
      rw [same]
      exact after
  | rest same held => exact ⟨free, queue, held ▸ flow.sameData same⟩
  | flush innermost before effect same after =>
      obtain ⟨free', queue', flow'⟩ :=
        NestedFlow.flushEffect small (flow.perm before) effect (completes rfl _ innermost)
      exact ⟨free', queue', (flow'.sameData same).perm after.symm⟩

/-- **A flush with data and without a block breaks the partition**: the receiving block is queued
and stays with the channel. -/
theorem NestedInv.broken (inv : NestedInv count buffCnt s) (misses : ¬ CompletesWithBlock s e)
    (step : PreemptedStep s e t) : ¬ NestedOwned count t.now.strm := by
  simp only [CompletesWithBlock, Classical.not_imp, not_forall, not_not] at misses
  obtain ⟨rfl, this, innermost, at_get, something, noBlock⟩ := misses
  obtain ⟨free, queue, flow⟩ := inv.flow
  obtain ⟨dmaNotFree, dmaNotQueued⟩ := flow.given.owned.dmaBlock_outside
  rintro ⟨free', queue', represents, partition⟩
  cases step.effect inv.nested with
  | rest same held noFlush =>
      rw [noFlush rfl] at innermost
      cases innermost
  | flush innermost' before effect same after =>
      obtain rfl := Option.some.inj (innermost'.symm.trans innermost)
      cases effect with
      | rest elsewhere => exact elsewhere at_get
      | take elsewhere => exact elsewhere at_get
      | free _ nothing => exact something nothing
      | hand _ _ held =>
          rw [noBlock] at held
          cases held
      | keep =>
          have appended : Represents (queuedPool s.now.strm) free
              (queue ++ [s.now.strm.ptByteFifoDmaRx]) :=
            (flow.represents.setSize ..).enqueue
              (fun member => dmaNotFree (List.mem_append_right _ member)) dmaNotQueued
          rw [same.pool] at represents
          obtain ⟨rfl, rfl⟩ := appended.unique represents
          have distinct := partition.nodup_iff.mpr List.nodup_range
          rw [same.dmaBlock] at distinct
          simp [List.nodup_append] at distinct

end Invariant

/-! ## Runs -/

section Runs

variable {cfg : StreamReadCfg} {m : MemBlkFifo β} {strm : RxStream β} {t : PreemptedSystem β}
  {es : List (PreemptEvent β)}

/-- The initialised receiver has no active handler. -/
theorem InitialRead.nestedInv (positive : 0 < cfg.readBuffCnt) (small : cfg.readBuffCnt < 2 ^ 16)
    (initial : InitialRead dmaRx.toDmaRxIO cfg DmaRx.reset strm) :
    NestedInv cfg.chCnt cfg.readBuffCnt ⟨⟨strm, []⟩, []⟩ := by
  obtain ⟨_, ⟨-, free, queue, flow, rfl⟩, lossless⟩ := initial.shows positive small
  have nested : Nested (⟨strm, []⟩ : Preempted β (DmaRx β)).control := initial.nested
  have noneHeld := Nested.flushesHold (s := ⟨⟨strm, []⟩, []⟩) nested rfl
  refine ⟨nested, free, queue, ?_⟩
  rw [noneHeld]
  exact ⟨flow.owned.represents, flow, lossless, nofun⟩

theorem preempted_nestedInv (positive : 0 < cfg.readBuffCnt) (small : cfg.readBuffCnt < 2 ^ 16)
    (init : zeroStrmReadInit dmaRx.toDmaRxIO cfg m DmaRx.reset = some strm)
    (run : Run (guarded PreemptedStep CompletesWithBlock) ⟨⟨strm, []⟩, []⟩ es t) :
    NestedInv cfg.chCnt cfg.readBuffCnt t :=
  run.invariant _ (fun _ _ _ inv step => inv.kept small step.1 step.2)
    ((zeroStrmReadInit_spec init).nestedInv positive small)

/-- **Preempted handlers lose nothing**, even with both flushes in their sections. In every state
of a run whose completing flushes have a block for their data, every block has one owner, and the
stored bytes are the returned ones, those that can be read and those of the receiving block. When
no handler is active, repeated calls of `zero_strm_read` return all that can be read. -/
theorem nested_delivery (positive : 0 < cfg.readBuffCnt) (small : cfg.readBuffCnt < 2 ^ 16)
    (init : zeroStrmReadInit dmaRx.toDmaRxIO cfg m DmaRx.reset = some strm)
    (run : Run (guarded PreemptedStep CompletesWithBlock) ⟨⟨strm, []⟩, []⟩ es t) :
    (∃ free queue, NestedOwnedBy cfg.chCnt t.now.strm free queue ∧
      t.now.strm.dma.stored =
        t.returned ++ (available t.now.strm queue ++ dmaBytes t.now.strm)) ∧
    (t.now.irq = [] → ∃ budget calls bytes v, readAll budget calls t.now.strm = some (bytes, v) ∧
      t.now.strm.dma.stored = t.returned ++ bytes ++ dmaBytes t.now.strm) := by
  obtain ⟨nested, free, queue, flow⟩ := preempted_nestedInv positive small init run
  have stored : t.now.strm.dma.stored =
      t.returned ++ (available t.now.strm queue ++ dmaBytes t.now.strm) := flow.lossless
  refine ⟨⟨free, queue, flow.owned, stored⟩, ?_⟩
  intro inactive
  rw [nested.flushesHold inactive] at flow
  have ready : Poppable t.now.strm free queue := flow.given.readable.poppable
  obtain ⟨v, all⟩ := readAll_available ready le_rfl
    (Nat.lt_succ_self (available t.now.strm queue).length)
  exact ⟨_, _, _, v, all, stored.trans (List.append_assoc ..).symm⟩

/-- **The condition is exact.** With handlers that preempt each other, every block has one owner in
every state of a run exactly when each flush of the run that completes with data has a block. -/
theorem nestedOwned_iff (positive : 0 < cfg.readBuffCnt) (small : cfg.readBuffCnt < 2 ^ 16)
    (init : zeroStrmReadInit dmaRx.toDmaRxIO cfg m DmaRx.reset = some strm)
    (run : Run PreemptedStep ⟨⟨strm, []⟩, []⟩ es t) :
    Run (guarded PreemptedStep CompletesWithBlock) ⟨⟨strm, []⟩, []⟩ es t ↔
      Throughout PreemptedStep (fun u => NestedOwned cfg.chCnt u.now.strm) ⟨⟨strm, []⟩, []⟩ es := by
  refine run.guarded_iff_throughout preemptedStep_deterministic ?_
    (fun _ _ _ inv => inv.kept small) (fun _ _ _ inv => inv.broken)
    ((zeroStrmReadInit_spec init).nestedInv positive small)
  rintro u ⟨-, free, queue, flow⟩
  exact ⟨free, queue, flow.owned⟩

end Runs

/-! ## The handlers end -/

section Ends

variable {D ι : Type} {hw : RxHardware β D ι} {cfg : StreamReadCfg} {m : MemBlkFifo β} {dma : D}
  {strm : StreamRead β D} {s t : Preempted β D} {e : PreemptEvent ι} {es : List (PreemptEvent ι)}

/-- A state of a handler. -/
def PreemptEvent.isStep : PreemptEvent ι → Bool
  | .step => true
  | _ => false

/-- The begin of a handler. -/
def PreemptEvent.begins : PreemptEvent ι → Bool
  | .dmaHalf => true
  | .tick => true
  | _ => false

/-- How many states the active handlers can still run. -/
def statesToEnd (c : Control) : ℕ :=
  (if c.irq.count .dmaHalf = 0 then 0 else 4 - c.dmaHalf) +
    if c.irq.count .timeOut + c.irq.count .timeOutFlush = 0 then 0 else 4 - c.timeOut

/-- A state of a handler brings its end nearer, and an interrupt adds four states. -/
theorem statesToEnd_effect {c : Control} (nested : Nested s.control)
    (effect : PreemptEffect hw s e c) :
    statesToEnd c + (if e.isStep then 1 else 0) ≤
      statesToEnd s.control + if e.begins then 4 else 0 := by
  obtain ⟨halfOnce, timeOnce, halfValid, -, -, timeTest, timeFlush⟩ := nested
  dsimp only [Preempted.control] at *
  cases effect with
  | passive notHalf notStep =>
      cases e with
      | dmaHalf => exact absurd rfl notHalf
      | step => exact absurd rfl notStep
      | _ => exact Nat.le_add_right ..
  | dmaHalf inactive =>
      have none := List.count_eq_zero.mpr inactive
      simp [statesToEnd, Preempted.control, PreemptEvent.isStep, PreemptEvent.begins, none]
      omega
  | tick inactive =>
      have none := List.count_eq_zero.mpr (not_or.mp inactive).1
      have none' := List.count_eq_zero.mpr (not_or.mp inactive).2
      simp [statesToEnd, Preempted.control, PreemptEvent.isStep, PreemptEvent.begins, none, none']
  | flushDmaHalf top flush =>
      simp [top] at halfOnce
      have code : s.strm.fsmFlushHt.chState = s.control.dmaHalf := rfl
      rcases flush.equations with ⟨_, rfl, -, rfl⟩ | ⟨_, -, rfl, -, rfl⟩ | ⟨_, -, rfl, -, rfl⟩ |
        ⟨_, rfl, -, rfl⟩ | ⟨_, rfl, rfl⟩
      all_goals
        simp [statesToEnd, Preempted.control, PreemptEvent.isStep, PreemptEvent.begins, top,
          halfOnce]
        omega
  | timeOutStarts top code =>
      simp [statesToEnd, Preempted.control, PreemptEvent.isStep, PreemptEvent.begins, top]
      dsimp only [Preempted.control, TimeOut.start, TimeOut.isReallyTimeOut] at *
      omega
  | @timeOutEnds rest top code really =>
      simp [top] at timeOnce
      have none : rest.count .timeOut = 0 ∧ rest.count .timeOutFlush = 0 := by omega
      simp [statesToEnd, Preempted.control, PreemptEvent.isStep, PreemptEvent.begins, top, none]
      dsimp only [Preempted.control, TimeOut.isReallyTimeOut] at *
      omega
  | timeOutFound top found =>
      obtain ⟨-, code, -⟩ := found
      simp [statesToEnd, Preempted.control, PreemptEvent.isStep, PreemptEvent.begins, top]
      dsimp only [TimeOut.flush, TimeOut.isReallyTimeOut] at *
      omega
  | @flushTimeOut rest _ _ _ top flush =>
      simp [top] at timeOnce timeFlush
      have none : rest.count .timeOut = 0 ∧ rest.count .timeOutFlush = 0 := by omega
      have code : s.strm.fsmTimeOut.chState = s.control.timeOut := rfl
      rcases flush.equations with ⟨_, rfl, -, rfl⟩ | ⟨_, -, rfl, -, rfl⟩ | ⟨_, -, rfl, -, rfl⟩ |
        ⟨_, rfl, -, rfl⟩ | ⟨_, rfl, rfl⟩
      all_goals
        simp [statesToEnd, Preempted.control, PreemptEvent.isStep, PreemptEvent.begins, top, none]
        omega

theorem statesToEnd_le (c : Control) : statesToEnd c ≤ 8 := by
  unfold statesToEnd
  split <;> split <;> omega

/-- While a handler is active, its next state can run. -/
theorem step_enabled (hw : RxHardware β D ι) (active : s.irq ≠ []) :
    ∃ t, PreemptStep hw s .step t := by
  unfold PreemptStep
  cases top : s.irq with
  | nil => exact absurd top active
  | cons handler rest =>
      cases handler with
      | _ =>
          simp only [preemptStep, top]
          exact ⟨_, rfl⟩

/-- The active handlers end by themselves. -/
theorem Nested.ends {n : ℕ} (hw : RxHardware β D ι) (nested : Nested s.control)
    (few : statesToEnd s.control ≤ n) :
    ∃ k ≤ n, ∃ t, Run (PreemptStep hw) s (List.replicate k .step) t ∧ t.irq = [] := by
  induction n generalizing s with
  | zero =>
      refine ⟨0, le_rfl, s, rfl, ?_⟩
      by_contra active
      obtain ⟨t, step⟩ := step_enabled hw active
      have less : statesToEnd t.control + 1 ≤ statesToEnd s.control :=
        statesToEnd_effect nested (preemptStep_effect nested step)
      omega
  | succ n ih =>
      by_cases inactive : s.irq = []
      · exact ⟨0, Nat.zero_le _, s, rfl, inactive⟩
      · obtain ⟨t, step⟩ := step_enabled hw inactive
        have less : statesToEnd t.control + 1 ≤ statesToEnd s.control :=
          statesToEnd_effect nested (preemptStep_effect nested step)
        obtain ⟨k, within, u, run, ended⟩ := ih (nested.step step) (by omega)
        exact ⟨k + 1, Nat.succ_le_succ within, u, ⟨t, step, run⟩, ended⟩

/-- **The handlers end.** In every run an interrupt costs four states at most, on any channel and
however the handlers preempt each other, and from every state of the run the active handlers end
within eight states. -/
theorem handlersEnd (init : zeroStrmReadInit hw.toDmaRxIO cfg m dma = some strm)
    (run : Run (PreemptStep hw) ⟨strm, []⟩ es t) :
    es.countP PreemptEvent.isStep ≤ 4 * es.countP PreemptEvent.begins ∧
      ∃ n ≤ 8, ∃ u, Run (PreemptStep hw) t (List.replicate n .step) u ∧ u.irq = [] := by
  have start := (zeroStrmReadInit_spec init).nested
  have kept : ∀ ⦃s : Preempted β D⦄ ⦃e : PreemptEvent ι⦄ ⦃t⦄, Nested s.control →
      PreemptStep hw s e t → Nested t.control := fun _ _ _ nested step => nested.step step
  constructor
  · have bound := run.credit (fun s => Nested s.control) kept (fun s => statesToEnd s.control)
      PreemptEvent.isStep PreemptEvent.begins 4
      (fun _ _ _ nested step => statesToEnd_effect nested (preemptStep_effect nested step)) start
    have none : statesToEnd (⟨strm, []⟩ : Preempted β D).control = 0 := rfl
    omega
  · exact (run.invariant _ kept start).ends hw (statesToEnd_le _)

end Ends

/-- Both flushes in their sections, each with a block. The timer's flush has taken one when the
DMA-half handler preempts it and flushes the first byte. The second byte arrives before the
timer's flush goes on. -/
def nestedEvents : List (PreemptEvent UInt8) :=
  [.arrive 7, .uartIdle, .tick, .step, .step, .tick, .step, .step, .step,
    .dmaHalf, .step, .step, .step, .step, .arrive 8, .step]

/-- The condition as a test. -/
theorem completesWithBlock_of {s : PreemptedSystem β} {e : PreemptEvent β}
    (met : (innermostFlush s.now).all (fun this =>
      decide (this.chState = StreamReadFlush.getDataCnt →
        rxReceived s.now.strm ≠ 0 → this.ptByteFifo ≠ none)) = true) : CompletesWithBlock s e := by
  rintro - this found
  rw [Option.mem_def.mp found] at met
  exact of_decide_eq_true met

theorem nestedEvents_run :
    ∃ s t, zeroStrmReadInit dmaRx.toDmaRxIO (smallCfg 4) zeroMemory DmaRx.reset = some s ∧
      Run (guarded PreemptedStep CompletesWithBlock) ⟨⟨s, []⟩, []⟩ nestedEvents t ∧
      t.now.irq = [] ∧ t.now.strm.dma.stored = [7, 8] := by
  refine ⟨_, _, rfl, ⟨⟨_, _⟩, ⟨?_, rfl, rfl⟩, ⟨_, _⟩, ⟨?_, rfl, rfl⟩, ⟨_, _⟩, ⟨?_, rfl, rfl⟩,
    ⟨_, _⟩, ⟨?_, rfl, rfl⟩, ⟨_, _⟩, ⟨?_, rfl, rfl⟩, ⟨_, _⟩, ⟨?_, rfl, rfl⟩, ⟨_, _⟩, ⟨?_, rfl, rfl⟩,
    ⟨_, _⟩, ⟨?_, rfl, rfl⟩, ⟨_, _⟩, ⟨?_, rfl, rfl⟩, ⟨_, _⟩, ⟨?_, rfl, rfl⟩, ⟨_, _⟩, ⟨?_, rfl, rfl⟩,
    ⟨_, _⟩, ⟨?_, rfl, rfl⟩, ⟨_, _⟩, ⟨?_, rfl, rfl⟩, ⟨_, _⟩, ⟨?_, rfl, rfl⟩, ⟨_, _⟩, ⟨?_, rfl, rfl⟩,
    ⟨_, _⟩, ⟨?_, rfl, rfl⟩, rfl⟩, rfl, rfl⟩
  all_goals exact completesWithBlock_of rfl

/-- **Overlapping flushes deliver both bytes.** -/
theorem nested_delivery_overlap :
    ∃ s t, zeroStrmReadInit dmaRx.toDmaRxIO (smallCfg 4) zeroMemory DmaRx.reset = some s ∧
      Run (guarded PreemptedStep CompletesWithBlock) ⟨⟨s, []⟩, []⟩ nestedEvents t ∧
      ∃ budget calls bytes v, readAll budget calls t.now.strm = some (bytes, v) ∧
        t.returned ++ bytes ++ dmaBytes t.now.strm = [7, 8] := by
  obtain ⟨s, t, init, run, inactive, stored⟩ := nestedEvents_run
  obtain ⟨budget, calls, bytes, v, all, split⟩ :=
    (nested_delivery (by decide) (by decide) init run).2 inactive
  exact ⟨s, t, init, run, budget, calls, bytes, v, all, split.symm.trans stored⟩

/-- Both handlers active, each flush with its block. -/
theorem handlersEnd_overlap :
    ∃ s t, zeroStrmReadInit dmaRx.toDmaRxIO (smallCfg 4) zeroMemory DmaRx.reset = some s ∧
      Run (PreemptStep dmaRx) ⟨s, []⟩ (nestedEvents.take 13) t ∧ DmaHalfIn t ∧ TimeOutIn t ∧
      ∃ n ≤ 8, ∃ u, Run (PreemptStep dmaRx) t (List.replicate n .step) u ∧ u.irq = [] := by
  have run : ∃ s t, zeroStrmReadInit dmaRx.toDmaRxIO (smallCfg 4) zeroMemory DmaRx.reset = some s ∧
      Run (PreemptStep dmaRx) ⟨s, []⟩ (nestedEvents.take 13) t ∧ DmaHalfIn t ∧ TimeOutIn t := by
    refine ⟨_, _, rfl, ⟨_, rfl, _, rfl, _, rfl, _, rfl, _, rfl, _, rfl, _, rfl, _, rfl, _, rfl,
      _, rfl, _, rfl, _, rfl, _, rfl, rfl⟩, ⟨by decide, .inr rfl⟩, ⟨by decide, .inr rfl⟩⟩
  obtain ⟨s, t, init, run, dmaHalf, timeOut⟩ := run
  exact ⟨s, t, init, run, dmaHalf, timeOut, (handlersEnd init run).2⟩

theorem nestedOwned_iff_overlap :
    ∃ s t, zeroStrmReadInit dmaRx.toDmaRxIO (smallCfg 4) zeroMemory DmaRx.reset = some s ∧
      Run PreemptedStep ⟨⟨s, []⟩, []⟩ nestedEvents t ∧
      Throughout PreemptedStep (fun u => NestedOwned 4 u.now.strm) ⟨⟨s, []⟩, []⟩ nestedEvents := by
  obtain ⟨s, t, init, run, -⟩ := nestedEvents_run
  exact ⟨s, t, init, run.unguarded,
    (nestedOwned_iff (by decide) (by decide) init run.unguarded).mp run⟩

end ZeroStrm
