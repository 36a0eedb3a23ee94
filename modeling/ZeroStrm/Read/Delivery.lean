import ZeroStrm.Library.FifoChannel
import ZeroStrm.Read.Located
import ZeroStrm.Read.Pop
import ZeroStrm.Read.DmaLength

/-!
# Delivery of the received bytes

The receiver is a lossless channel from the bytes that the channel hardware stores to the bytes
that `zero_strm_read` returns. In transit are the bytes of the byte queue, those of the queued
blocks from head to tail, and those in the receiving block (`rxChannel`). As long as every flush
with data finds a block, each event is a move of that channel (`Flow.step`): a stored byte is
put in, a state of `dequeue` takes out the byte it returns, and a flush only moves the border
between the queued blocks and the receiving one.

Two results follow for such runs. No byte is lost or reordered, and after a flush repeated calls
return everything that was stored (`delivery`). Every returned byte was stored since its block
was handed to the channel (`delivery_once`). A flush that finds no block breaks the second:
the receiving block is queued and goes on being filled, so its first bytes come back with the
next flush (`delivery_once_exhausted`).
-/

set_option autoImplicit false

namespace ZeroStrm

open EventRuns FifoChannel

variable {β : Type}

/-! ## The channel a receiver shows -/

/-- The bytes stored so far in the receiving block. -/
def dmaBytes (s : RxStream β) : List β :=
  (List.range s.dma.count).map (s.tMemBlockFifo.chMemory s.ptByteFifoDmaRx)

/-- What the channel stored, what can be read or still lies in the receiving block, and what
`zero_strm_read` has returned. -/
def rxChannel (s : ReadSystem β (DmaRx β)) (queue : List Addr) : Channel β where
  sent := s.strm.dma.stored
  inTransit := available s.strm queue ++ dmaBytes s.strm
  received := s.returned

/-- Each byte that can be read was stored since its block was handed to the channel. The bytes
that can be read are the next ones after those returned. -/
def Fresh (s : ReadSystem β (DmaRx β)) (queue : List Addr) : Prop :=
  ∀ i block byte, (located s.strm queue)[i]? = some (block, byte) →
    ∃ handed ≤ s.returned.length + i, s.strm.dma.handedAt block = some handed

/-- The invariant of a run whose flushes find a block. -/
structure Flow (count buffCnt : ℕ) (s : ReadSystem β (DmaRx β)) (free queue : List Addr) :
    Prop where
  owned : OwnedBy count s.strm free queue
  agrees : DmaAgrees buffCnt s.strm
  readable : Readable s.strm free queue
  fresh : Fresh s queue

section Frames

variable {s t : RxStream β} {free queue free' queue' : List Addr} {count : ℕ}

theorem OwnedBy.held_ne_dmaBlock (owned : OwnedBy count s free queue)
    (holds : s.fsmDequeue.chState ≠ Dequeue.getByteFifo) :
    s.fsmDequeue.ptByteFifo ≠ s.ptByteFifoDmaRx := by
  have distinct := owned.nodup
  simp only [dequeueHolds, if_neg holds, List.nodup_append, List.nodup_cons,
    List.mem_singleton] at distinct
  exact fun same => distinct.2.1.1 same.symm

theorem Readable.mem_located (readable : Readable s free queue) {block : Addr} {byte : β}
    (member : (block, byte) ∈ located s queue) :
    block ∈ queue ∨
      s.fsmDequeue.chState ≠ Dequeue.getByteFifo ∧ block = s.fsmDequeue.ptByteFifo := by
  rcases List.mem_append.mp member with inRing | queued
  · obtain ⟨byte', within, same⟩ := List.mem_map.mp inRing
    obtain ⟨rfl, -⟩ := Prod.mk.inj same
    have bytes : s.tByteFifo.hwLength ≠ 0 := by
      intro empty
      rw [ByteFifo.content_eq_nil_iff.mpr empty] at within
      cases within
    exact .inr (readable.buffer bytes)
  · obtain ⟨block', member', within⟩ := List.mem_flatMap.mp queued
    obtain ⟨byte', -, same⟩ := List.mem_map.mp within
    obtain ⟨rfl, -⟩ := Prod.mk.inj same
    exact .inl member'

/-- Where `dequeue` and the ring stay, a stream stays readable with the lists of its blocks. -/
theorem Readable.keep (readable : Readable s free queue) (owned : OwnedBy count t free' queue')
    (fifo : t.tByteFifo = s.tByteFifo) (dequeue : t.fsmDequeue = s.fsmDequeue)
    (sizes : ∀ block ∈ queue', t.tMemBlockFifo.tSizeInByte block < 2 ^ 16) :
    Readable t free' queue' where
  represents := owned.represents
  fifo := fifo ▸ readable.fifo
  sizes := sizes
  outside := owned.held_outside
  buffer := by
    rw [fifo, dequeue]
    exact readable.buffer
  valid := dequeue ▸ readable.valid

theorem Readable.content_keep (readable : Readable s free queue)
    (fifo : t.tByteFifo = s.tByteFifo)
    (memory : s.fsmDequeue.chState ≠ Dequeue.getByteFifo →
      t.tMemBlockFifo.chMemory s.fsmDequeue.ptByteFifo =
        s.tMemBlockFifo.chMemory s.fsmDequeue.ptByteFifo) :
    t.tByteFifo.content t.tMemBlockFifo = s.tByteFifo.content s.tMemBlockFifo := by
  rw [fifo]
  by_cases empty : s.tByteFifo.hwLength = 0
  · rw [ByteFifo.content_eq_nil_iff.mpr empty, ByteFifo.content_eq_nil_iff.mpr empty]
  · obtain ⟨holds, lies⟩ := readable.buffer empty
    refine ByteFifo.content_congr ?_
    rw [lies]
    exact memory holds

end Frames

/-! ## What the effects do to the channel -/

theorem map_range_update {f : ℕ → β} {n : ℕ} {byte : β} :
    (List.range (n + 1)).map (Function.update f n byte) = (List.range n).map f ++ [byte] := by
  rw [List.range_succ, List.map_append, List.map_singleton, Function.update_self]
  apply congrArg (· ++ [byte])
  apply List.map_congr_left
  intro i inside
  exact Function.update_of_ne (List.mem_range.mp inside).ne ..

theorem dmaBytes_arrived {s : RxStream β} (byte : β) (target : s.dma.target = s.ptByteFifoDmaRx)
    (room : s.dma.count < s.dma.length) :
    dmaBytes (arrived s byte) = dmaBytes s ++ [byte] := by
  rw [arrived_room byte room]
  simp only [dmaBytes, MemBlkFifo.setByte, target, Function.update_self]
  exact map_range_update

namespace Flow

variable {count buffCnt : ℕ} {s : ReadSystem β (DmaRx β)} {free queue : List Addr}

/-- **A stored byte is put in.** It goes to the receiving block, which nobody reads. -/
theorem arrived (small : buffCnt < 2 ^ 16) (flow : Flow count buffCnt s free queue) (byte : β) :
    Flow count buffCnt ⟨ZeroStrm.arrived s.strm byte, s.returned⟩ free queue ∧
      Move (rxChannel s queue) (rxChannel ⟨ZeroStrm.arrived s.strm byte, s.returned⟩ queue) := by
  have owned := flow.owned.arrived byte
  have agrees := flow.agrees.arrived small byte
  have sizes := tSizeInByte_arrived s.strm byte
  have memory : ∀ block, block ≠ s.strm.ptByteFifoDmaRx →
      (ZeroStrm.arrived s.strm byte).tMemBlockFifo.chMemory block =
        s.strm.tMemBlockFifo.chMemory block :=
    fun block other => chMemory_arrived s.strm byte (flow.agrees.target ▸ other)
  have readable : Readable (ZeroStrm.arrived s.strm byte) free queue := by
    refine flow.readable.keep owned rfl rfl ?_
    rw [sizes]
    exact flow.readable.sizes
  have same : located (ZeroStrm.arrived s.strm byte) queue = located s.strm queue := by
    refine located_congr rfl (flow.readable.content_keep rfl ?_) ?_
    · intro holds
      exact memory _ (flow.owned.held_ne_dmaBlock holds)
    · intro block member
      have other : block ≠ s.strm.ptByteFifoDmaRx := fun same =>
        flow.owned.dmaBlock_outside.2 (same ▸ member)
      exact blockBytes_congr (congrFun sizes block) (memory block other)
  refine ⟨⟨owned, agrees, readable, ?_⟩, ?_⟩
  · intro i block byte' found
    rw [same] at found
    rw [handedAt_arrived]
    exact flow.fresh i block byte' found
  · have bytes : available (ZeroStrm.arrived s.strm byte) queue = available s.strm queue := by
      rw [← map_snd_located, same, map_snd_located]
    by_cases room : s.strm.dma.count < s.strm.dma.length
    · have dma := dmaBytes_arrived byte flow.agrees.target room
      have stored : (ZeroStrm.arrived s.strm byte).dma.stored = s.strm.dma.stored ++ [byte] := by
        rw [arrived_room byte room]
      rw [rxChannel, rxChannel, bytes, dma, stored, ← List.append_assoc]
      exact .put byte
    · rw [arrived_full byte room]
      exact .rest

/-- **A state of `dequeue` takes out the byte it returns.** -/
theorem read (flow : Flow count buffCnt s free queue) {r : (RxStream β × Option β) × Ctl}
    (effect : DequeueEffect s.strm r) :
    ∃ free' queue',
      Flow count buffCnt ⟨r.1.1, s.returned ++ returnedByte r⟩ free' queue' ∧
        Move (rxChannel s queue) (rxChannel ⟨r.1.1, s.returned ++ returnedByte r⟩ queue') := by
  obtain ⟨free', queue', readable, -, split, -⟩ := flow.readable.effect effect
  obtain ⟨free'', queue'', owned⟩ := Owned.dequeueEffect ⟨free, queue, flow.owned⟩ effect
  obtain ⟨rfl, rfl⟩ := readable.represents.unique owned.represents
  obtain ⟨dma, dmaBlock, memory⟩ := effect.frame
  refine ⟨free', queue', ⟨owned, flow.agrees.dequeueEffect effect, readable, ?_⟩, ?_⟩
  · intro i block byte found
    have further : (located s.strm queue)[(returnedByte r).length + i]? = some (block, byte) := by
      rw [split, List.getElem?_append_right (by rw [List.length_map]; omega), List.length_map,
        Nat.add_sub_cancel_left]
      exact found
    obtain ⟨handed, before, handedAt⟩ := flow.fresh _ block byte further
    refine ⟨handed, ?_, ?_⟩
    · rw [List.length_append]
      omega
    · exact (congrArg (DmaRx.handedAt · block) dma).trans handedAt
  · have bytes := Readable.available_of_located split
    have sameDma : dmaBytes r.1.1 = dmaBytes s.strm := by
      rw [dmaBytes, dma, dmaBlock, memory]
      rfl
    rw [rxChannel, rxChannel, bytes, dma, sameDma, List.append_assoc]
    exact .take rfl

theorem size_flushed (flow : Flow count buffCnt s free queue) {block : Addr}
    (member : block ∈ queue) :
    (rxFlushed s.strm).tMemBlockFifo.tSizeInByte block =
      s.strm.tMemBlockFifo.tSizeInByte block := by
  refine tSizeInByte_flushedPool_other ?_ ?_
  · rw [newBlock_eq, flow.owned.represents.stack.start]
    intro top
    exact flow.owned.represents.disjoint (List.mem_of_head? top) member
  · intro same
    exact flow.owned.dmaBlock_outside.2 (same ▸ member)

theorem located_flushed (flow : Flow count buffCnt s free queue) :
    located (rxFlushed s.strm) queue = located s.strm queue := by
  refine located_congr rfl (flow.readable.content_keep rfl ?_) ?_
  · intro _
    exact congrFun chMemory_flushedPool _
  · intro block member
    exact blockBytes_congr (flow.size_flushed member) (congrFun chMemory_flushedPool block)

/-- The bytes of the receiving block come behind them when the block is appended. -/
theorem located_appended (flow : Flow count buffCnt s free queue)
    (something : rxReceived s.strm ≠ 0) :
    located (rxFlushed s.strm) (queue ++ [s.strm.ptByteFifoDmaRx]) =
      located s.strm queue ++ (dmaBytes s.strm).map (Prod.mk s.strm.ptByteFifoDmaRx) := by
  have size : (flushedPool dmaRx.toDmaRxIO s.strm).tSizeInByte s.strm.ptByteFifoDmaRx =
      s.strm.dma.count := by
    rw [tSizeInByte_flushedPool something, Function.update_self]
    exact flow.agrees.count
  have bytes : (rxFlushed s.strm).tMemBlockFifo.blockBytes s.strm.ptByteFifoDmaRx =
      dmaBytes s.strm := by
    change (flushedPool dmaRx.toDmaRxIO s.strm).blockBytes _ = _
    rw [MemBlkFifo.blockBytes, size, chMemory_flushedPool]
    rfl
  rw [← flow.located_flushed, located, located, List.flatMap_append, List.append_assoc,
    List.flatMap_singleton, bytes]

/-- A flush without data leaves everything where it was. -/
theorem flushed_nothing (flow : Flow count buffCnt s free queue)
    (nothing : rxReceived s.strm = 0) :
    Flow count buffCnt ⟨rxFlushed s.strm, s.returned⟩ free queue ∧
      rxChannel ⟨rxFlushed s.strm, s.returned⟩ queue = rxChannel s queue := by
  obtain ⟨dma, dmaBlock⟩ := flushed_goes_on (.inl nothing)
  have owned := flow.owned.flushed_nothing nothing
  have same := flow.located_flushed
  refine ⟨⟨owned, flow.agrees.congr dmaBlock rfl dma, ?_, ?_⟩, ?_⟩
  · apply flow.readable.keep owned rfl rfl
    intro block member
    rw [flow.size_flushed member]
    exact flow.readable.sizes block member
  · intro i block byte found
    rw [same] at found
    rw [dma]
    exact flow.fresh i block byte found
  · have bytes : dmaBytes (rxFlushed s.strm) = dmaBytes s.strm := by
      rw [dmaBytes, dma, dmaBlock]
      exact List.map_congr_left fun i _ => congrFun (congrFun chMemory_flushedPool _) i
    rw [rxChannel, rxChannel, ← map_snd_located, same, map_snd_located, dma, bytes]

theorem stored_length (lossless : (rxChannel s queue).Lossless) :
    s.strm.dma.stored.length =
      s.returned.length + (located s.strm queue).length + s.strm.dma.count := by
  have lengths := congrArg List.length lossless
  simp only [rxChannel, List.length_append, ← map_snd_located, List.length_map, dmaBytes,
    List.length_range] at lengths
  omega

/-- The appended bytes were stored since the receiving block was handed over, and handing over
another block changes that of no readable byte. -/
theorem fresh_appended {b : Addr} (flow : Flow count buffCnt s (b :: free) queue)
    (lossless : (rxChannel s queue).Lossless) (something : rxReceived s.strm ≠ 0) :
    Fresh ⟨rxFlushed s.strm, s.returned⟩ (queue ++ [s.strm.ptByteFifoDmaRx]) := by
  have outside : ∀ block, block ≠ b → (rxFlushed s.strm).dma.handedAt block =
      s.strm.dma.handedAt block := by
    intro block other
    rw [(flushed_starts something flow.owned.represents.stack.1).2]
    exact Function.update_of_ne other ..
  have top : b ∈ b :: free := List.mem_cons_self ..
  intro i block byte found
  rw [flow.located_appended something] at found
  by_cases before : i < (located s.strm queue).length
  · rw [List.getElem?_append_left before] at found
    have other : block ≠ b := by
      rintro rfl
      rcases flow.readable.mem_located (List.mem_of_getElem? found) with queued | ⟨holds, held⟩
      · exact flow.owned.represents.disjoint top queued
      · exact (flow.owned.held_outside holds).1 (held ▸ top)
    rw [outside block other]
    exact flow.fresh i block byte found
  · rw [List.getElem?_append_right (not_lt.mp before), List.getElem?_map] at found
    obtain ⟨byte', -, same⟩ := Option.map_eq_some_iff.mp found
    obtain ⟨rfl, -⟩ := Prod.mk.inj same
    obtain ⟨handed, handedAt, stored⟩ := flow.agrees.stored
    rw [outside _ fun same => flow.owned.dmaBlock_outside.1 (by rw [same]; exact top)]
    refine ⟨handed, ?_, handedAt⟩
    have total := stored_length lossless
    rw [stored, flow.agrees.count] at total
    dsimp only
    omega

/-- A flush with data appends the receiving block and starts the channel on another one. -/
theorem flushed_something {b : Addr} (small : buffCnt < 2 ^ 16)
    (flow : Flow count buffCnt s (b :: free) queue) (lossless : (rxChannel s queue).Lossless)
    (something : rxReceived s.strm ≠ 0) :
    Flow count buffCnt ⟨rxFlushed s.strm, s.returned⟩ free
        (queue ++ [s.strm.ptByteFifoDmaRx]) ∧
      rxChannel ⟨rxFlushed s.strm, s.returned⟩ (queue ++ [s.strm.ptByteFifoDmaRx]) =
        rxChannel s queue := by
  have owned := flow.owned.flushed_something something
  obtain ⟨dmaBlock, dma⟩ := flushed_starts something flow.owned.represents.stack.1
  have appended := flow.located_appended something
  have other : b ≠ s.strm.ptByteFifoDmaRx := fun same =>
    flow.owned.dmaBlock_outside.1 (same ▸ List.mem_cons_self ..)
  have agrees : DmaAgrees buffCnt (rxFlushed s.strm) := by
    refine flow.agrees.flushed small fun top => absurd ?_ other
    exact Option.some.inj (flow.owned.represents.stack.1.symm.trans top)
  refine ⟨⟨owned, agrees, ?_, flow.fresh_appended lossless something⟩, ?_⟩
  · apply flow.readable.keep owned rfl rfl
    intro block member
    rcases List.mem_append.mp member with queued | last
    · rw [flow.size_flushed queued]
      exact flow.readable.sizes block queued
    · rw [List.mem_singleton.mp last]
      have size := congrFun (tSizeInByte_flushedPool something) s.strm.ptByteFifoDmaRx
      rw [Function.update_self] at size
      exact size.trans_lt (flow.agrees.bound.trans_lt small)
  · have empty : dmaBytes (rxFlushed s.strm) = [] := by
      rw [dmaBytes, dma]
      rfl
    have stored : (rxFlushed s.strm).dma.stored = s.strm.dma.stored := by rw [dma]
    have bytes : available (rxFlushed s.strm) (queue ++ [s.strm.ptByteFifoDmaRx]) =
        available s.strm queue ++ dmaBytes s.strm := by
      rw [← map_snd_located, appended, List.map_append, map_snd_located, List.map_map]
      simp [Function.comp_def]
    rw [rxChannel, rxChannel, bytes, empty, stored, List.append_nil]

/-- **A flush moves nothing.** The bytes of the receiving block become the last queued ones. -/
theorem flushed (small : buffCnt < 2 ^ 16) (flow : Flow count buffCnt s free queue)
    (lossless : (rxChannel s queue).Lossless)
    (finds : rxReceived s.strm ≠ 0 → s.strm.tMemBlockFifo.ptFreeList ≠ none) :
    ∃ free' queue', Flow count buffCnt ⟨rxFlushed s.strm, s.returned⟩ free' queue' ∧
      rxChannel ⟨rxFlushed s.strm, s.returned⟩ queue' = rxChannel s queue ∧
        (rxFlushed s.strm).dma.count = 0 := by
  by_cases nothing : rxReceived s.strm = 0
  · obtain ⟨after, same⟩ := flow.flushed_nothing nothing
    refine ⟨free, queue, after, same, ?_⟩
    rw [(flushed_goes_on (.inl nothing)).1, ← flow.agrees.count]
    exact nothing
  · cases free with
    | nil => exact absurd flow.owned.represents.stack (finds nothing)
    | cons b free =>
        obtain ⟨after, same⟩ := flow.flushed_something small lossless nothing
        refine ⟨free, _, after, same, ?_⟩
        rw [(flushed_starts nothing flow.owned.represents.stack.1).2]

theorem sameData (flow : Flow count buffCnt s free queue) {u : RxStream β}
    (same : SameData s.strm u) :
    Flow count buffCnt ⟨u, s.returned⟩ free queue ∧
      rxChannel ⟨u, s.returned⟩ queue = rxChannel s queue := by
  have owned := flow.owned.sameData same
  have here : located u queue = located s.strm queue := by
    rw [located, located, same.fifo, same.pool]
  refine ⟨⟨owned, flow.agrees.sameData same, ?_, ?_⟩, ?_⟩
  · refine flow.readable.keep owned same.fifo same.dequeue ?_
    rw [same.pool]
    exact flow.readable.sizes
  · intro i block byte found
    rw [here] at found
    rw [same.dma]
    exact flow.fresh i block byte found
  · have bytes : dmaBytes u = dmaBytes s.strm := by
      rw [dmaBytes, dmaBytes, same.dma, same.pool, same.dmaBlock]
    rw [rxChannel, rxChannel, ← map_snd_located, here, map_snd_located, same.dma, bytes]

/-- **Every event is a move of the channel**, as long as flushes find a block. -/
theorem step {t : ReadSystem β (DmaRx β)} {e : ReadEvent β} (small : buffCnt < 2 ^ 16)
    (flow : Flow count buffCnt s free queue) (quiet : Quiet s.strm)
    (lossless : (rxChannel s queue).Lossless) (finds : FlushFindsBlock s e)
    (step : ReadStep dmaRx s e t) :
    ∃ free' queue', Flow count buffCnt t free' queue' ∧
      Move (rxChannel s queue) (rxChannel t queue') ∧
        (flushes s.strm e = true → t.strm.dma.count = 0) := by
  cases step.effect quiet with
  | arrive byte =>
      obtain ⟨after, move⟩ := flow.arrived small byte
      exact ⟨free, queue, after, move, nofun⟩
  | read =>
      obtain ⟨free', queue', after, move⟩ := flow.read (dequeueState_effect quiet.dequeue)
      exact ⟨free', queue', after, move, nofun⟩
  | flush ran same =>
      obtain ⟨free', queue', flow', channel, empty⟩ := flow.flushed small lossless (finds ran)
      obtain ⟨after, channel'⟩ := flow'.sameData same
      refine ⟨free', queue', after, ?_, ?_⟩
      · rw [channel'.trans channel]
        exact .rest
      · intro _
        rw [same.dma]
        exact empty
  | idle rests same =>
      obtain ⟨after, channel⟩ := flow.sameData same
      refine ⟨free, queue, after, ?_, ?_⟩
      · rw [channel]
        exact .rest
      · intro ran
        rw [rests] at ran
        cases ran

end Flow

/-! ## Runs -/

section Runs

variable {count buffCnt : ℕ} {s t : ReadSystem β (DmaRx β)}

/-- A receiver between events shows a channel. -/
def Shows (count buffCnt : ℕ) (s : ReadSystem β (DmaRx β)) (c : Channel β) : Prop :=
  Quiet s.strm ∧ ∃ free queue, Flow count buffCnt s free queue ∧ c = rxChannel s queue

/-- **A receiver whose flushes find a block refines a channel.** -/
theorem read_refines (small : buffCnt < 2 ^ 16) :
    Refines (guarded (ReadStep dmaRx) FlushFindsBlock)
      (Shows count buffCnt : ReadSystem β (DmaRx β) → Channel β → Prop) := by
  rintro s e t c ⟨quiet, free, queue, flow, rfl⟩ lossless ⟨finds, step⟩
  obtain ⟨free', queue', after, move, -⟩ := flow.step small quiet lossless finds step
  exact ⟨_, move, quiet.kept step, free', queue', after, rfl⟩

variable {cfg : StreamReadCfg} {m : MemBlkFifo β} {strm : RxStream β}

/-- The initialised receiver shows an empty channel. -/
theorem InitialRead.shows (positive : 0 < cfg.readBuffCnt) (small : cfg.readBuffCnt < 2 ^ 16)
    (initial : InitialRead dmaRx.toDmaRxIO cfg DmaRx.reset strm) :
    ∃ c, Shows cfg.chCnt cfg.readBuffCnt ⟨strm, []⟩ c ∧ c.Lossless := by
  obtain ⟨free, queue, owned⟩ := initial.owned
  obtain ⟨-, rfl⟩ := initial.represents.unique owned.represents
  obtain ⟨pool, -, dma⟩ := initial.dma
  have fifo := initial.fifo positive small
  have empty : located strm [] = [] := by
    rw [located, fifo]
    rfl
  have noDma : dmaBytes strm = [] := by
    rw [dmaBytes, dma]
    rfl
  have stored : strm.dma.stored = [] := by
    rw [dma]
    rfl
  refine ⟨_, ⟨initial.quiet, free, [], ⟨owned, initial.dmaAgrees small, ?_, ?_⟩, rfl⟩, ?_⟩
  · refine ⟨owned.represents, ?_, ?_, owned.held_outside, ?_, initial.quiet.dequeue⟩
    · rw [fifo]
      exact ByteFifo.wellFormed_empty _ positive small
    · intro block member
      cases member
    · rw [fifo]
      exact fun bytes => absurd rfl bytes
  · intro i block byte found
    rw [empty] at found
    cases found
  · change strm.dma.stored = [] ++ (available strm [] ++ dmaBytes strm)
    rw [stored, ← map_snd_located, empty, noDma]
    rfl

/-- A state of `dequeue` returns the next stored byte, which was stored since the block it is
read from was handed to the channel. -/
def ReturnsFresh (s : ReadSystem β (DmaRx β)) (e : ReadEvent β) : Prop :=
  ∀ byte, e = .read → returnedByte (dequeueState (s.strm, none)) = [byte] →
    s.strm.dma.stored[s.returned.length]? = some byte ∧
      ∃ handed ≤ s.returned.length,
        s.strm.dma.handedAt s.strm.tByteFifo.pchBuffer = some handed

theorem Shows.returnsFresh {c : Channel β} (shows : Shows count buffCnt s c)
    (lossless : c.Lossless) (e : ReadEvent β) : ReturnsFresh s e := by
  obtain ⟨quiet, free, queue, flow, rfl⟩ := shows
  rintro byte - returns
  obtain ⟨-, queue', -, -, split, -⟩ :=
    flow.readable.effect (dequeueState_effect quiet.dequeue)
  rw [returns] at split
  constructor
  · have first : (rxChannel s queue).inTransit = byte :: (_ ++ dmaBytes s.strm) :=
      congrArg (· ++ dmaBytes s.strm) (Readable.available_of_located split)
    exact lossless.next first
  · have first : (located s.strm queue)[0]? = some (s.strm.tByteFifo.pchBuffer, byte) := by
      rw [split]
      rfl
    exact flow.fresh 0 _ byte first

/-- **Lossless delivery in order.** In every state of a run whose flushes find a block, the
stored bytes are the returned ones, those of the byte queue, those of the queued blocks and
those of the receiving block. After a flush nothing is in the receiving block, and repeated
calls of `zero_strm_read` return all the rest. -/
theorem delivery (positive : 0 < cfg.readBuffCnt) (small : cfg.readBuffCnt < 2 ^ 16)
    (init : zeroStrmReadInit dmaRx.toDmaRxIO cfg m DmaRx.reset = some strm)
    {es : List (ReadEvent β)}
    (run : Run (guarded (ReadStep dmaRx) FlushFindsBlock) ⟨strm, []⟩ es t) :
    (∃ free queue, Represents t.strm.tMemBlockFifo free queue ∧
      t.strm.dma.stored =
        t.returned ++ t.strm.tByteFifo.content t.strm.tMemBlockFifo ++
          queue.flatMap t.strm.tMemBlockFifo.blockBytes ++ dmaBytes t.strm) ∧
    ∀ e u, flushes t.strm e = true → guarded (ReadStep dmaRx) FlushFindsBlock t e u →
      dmaBytes u.strm = [] ∧
        ∃ budget calls bytes v, readAll budget calls u.strm = some (bytes, v) ∧
          u.returned ++ bytes = u.strm.dma.stored := by
  have start := (zeroStrmReadInit_spec init).shows positive small
  obtain ⟨c, ⟨quiet, free, queue, flow, rfl⟩, lossless⟩ := (read_refines small).lossless run start
  refine ⟨⟨free, queue, flow.owned.represents, ?_⟩, ?_⟩
  · rw [List.append_assoc, List.append_assoc, ← List.append_assoc (ByteFifo.content _ _)]
    exact lossless
  · rintro e u ran ⟨finds, step⟩
    obtain ⟨free', queue', after, move, empty⟩ := flow.step small quiet lossless finds step
    have noDma : dmaBytes u.strm = [] := by
      rw [dmaBytes, empty ran]
      rfl
    obtain ⟨v, all⟩ := readAll_available after.readable.poppable le_rfl
      (Nat.lt_succ_self (available u.strm queue').length)
    refine ⟨noDma, _, _, _, v, all, ?_⟩
    have stored := move.lossless lossless
    change u.strm.dma.stored = u.returned ++ (available u.strm queue' ++ dmaBytes u.strm) at stored
    rw [stored, noDma, List.append_nil]

/-- **No byte is returned twice or out of order.** In a run whose flushes find a block the
returned bytes are the first stored ones, and each was stored since the block it was read from
was handed to the channel. -/
theorem delivery_once (positive : 0 < cfg.readBuffCnt) (small : cfg.readBuffCnt < 2 ^ 16)
    (init : zeroStrmReadInit dmaRx.toDmaRxIO cfg m DmaRx.reset = some strm)
    {es : List (ReadEvent β)}
    (run : Run (guarded (ReadStep dmaRx) FlushFindsBlock) ⟨strm, []⟩ es t) :
    t.returned <+: t.strm.dma.stored ∧
      Run (guarded (ReadStep dmaRx) ReturnsFresh) ⟨strm, []⟩ es t := by
  have start := (zeroStrmReadInit_spec init).shows positive small
  constructor
  · obtain ⟨c, ⟨-, free, queue, -, rfl⟩, lossless⟩ := (read_refines small).lossless run start
    exact lossless.received_prefix
  · refine run.guarded_mono (fun u => ∃ c, Shows cfg.chCnt cfg.readBuffCnt u c ∧ c.Lossless)
      (fun _ _ _ shows finds step => ?_) ?_ start
    · exact (read_refines small).kept ⟨finds, step⟩ shows
    · rintro u e ⟨c, shows, lossless⟩ -
      exact shows.returnsFresh lossless e

end Runs

/-- The events of a receiver with three blocks: a byte is stored, flushed and read, and a second
one is stored. -/
def deliveryEvents : List (ReadEvent UInt8) :=
  [.arrive 7, .dmaHalf, .read, .read, .read, .read, .arrive 8]

/-- After those events the first byte is returned and the second is in the receiving block. -/
theorem delivery_threeBlocks :
    ∃ s t, zeroStrmReadInit dmaRx.toDmaRxIO (smallCfg 3) zeroMemory DmaRx.reset = some s ∧
      Run (guarded (ReadStep dmaRx) FlushFindsBlock) ⟨s, []⟩ deliveryEvents t ∧
      t.returned = [7] ∧ dmaBytes t.strm = [8] ∧
      ∃ free queue, Represents t.strm.tMemBlockFifo free queue ∧
        t.strm.dma.stored =
          t.returned ++ t.strm.tByteFifo.content t.strm.tMemBlockFifo ++
            queue.flatMap t.strm.tMemBlockFifo.blockBytes ++ dmaBytes t.strm := by
  obtain ⟨s, init⟩ : ∃ s,
      zeroStrmReadInit dmaRx.toDmaRxIO (smallCfg 3) zeroMemory DmaRx.reset = some s := ⟨_, rfl⟩
  obtain ⟨t, run, returned, dma⟩ : ∃ t,
      Run (guarded (ReadStep dmaRx) FlushFindsBlock) ⟨s, []⟩ deliveryEvents t ∧
        t.returned = [7] ∧ dmaBytes t.strm = [8] := by
    obtain rfl := Option.some.inj init
    exact ⟨_, ⟨_, ⟨nofun, rfl⟩, _, ⟨fun _ _ => nofun, rfl⟩, _, ⟨nofun, rfl⟩, _, ⟨nofun, rfl⟩,
      _, ⟨nofun, rfl⟩, _, ⟨nofun, rfl⟩, _, ⟨nofun, rfl⟩, rfl⟩, rfl, rfl⟩
  exact ⟨s, t, init, run, returned, dma, (delivery (by decide) (by decide) init run).1⟩

/-- The byte that was read and the one still in the receiving block are the first stored ones,
each returned once. -/
theorem delivery_once_threeBlocks :
    ∃ s t, zeroStrmReadInit dmaRx.toDmaRxIO (smallCfg 3) zeroMemory DmaRx.reset = some s ∧
      Run (guarded (ReadStep dmaRx) FlushFindsBlock) ⟨s, []⟩ deliveryEvents t ∧
      t.returned <+: t.strm.dma.stored ∧
      Run (guarded (ReadStep dmaRx) ReturnsFresh) ⟨s, []⟩ deliveryEvents t := by
  obtain ⟨s, init⟩ : ∃ s,
      zeroStrmReadInit dmaRx.toDmaRxIO (smallCfg 3) zeroMemory DmaRx.reset = some s := ⟨_, rfl⟩
  obtain ⟨t, run⟩ : ∃ t,
      Run (guarded (ReadStep dmaRx) FlushFindsBlock) ⟨s, []⟩ deliveryEvents t := by
    obtain rfl := Option.some.inj init
    exact ⟨_, _, ⟨nofun, rfl⟩, _, ⟨fun _ _ => nofun, rfl⟩, _, ⟨nofun, rfl⟩, _, ⟨nofun, rfl⟩,
      _, ⟨nofun, rfl⟩, _, ⟨nofun, rfl⟩, _, ⟨nofun, rfl⟩, rfl⟩
  exact ⟨s, t, init, run, delivery_once (by decide) (by decide) init run⟩

/-- The events after which a receiver with two blocks returns a byte again: the first flush
queues the receiving block and keeps filling it, the application reads its first byte, and the
second flush queues it with both bytes. -/
def repeatingEvents : List (ReadEvent UInt8) :=
  [.arrive 7, .dmaHalf, .read, .read, .read, .read,
    .arrive 8, .dmaHalf, .read, .read, .read, .read]

/-- After those events the first byte has been returned twice and the second not at all. -/
theorem delivery_once_exhausted :
    ∃ s t, zeroStrmReadInit dmaRx.toDmaRxIO (smallCfg 2) zeroMemory DmaRx.reset = some s ∧
      Run (ReadStep dmaRx) ⟨s, []⟩ repeatingEvents t ∧
      t.returned = [7, 7] ∧ t.strm.dma.stored = [7, 8] ∧
      ¬ t.returned.Sublist t.strm.dma.stored := by
  refine ⟨_, _, rfl, ⟨_, rfl, _, rfl, _, rfl, _, rfl, _, rfl, _, rfl, _, rfl, _, rfl, _, rfl,
    _, rfl, _, rfl, _, rfl, rfl⟩, rfl, rfl, ?_⟩
  exact (by decide : ¬ List.Sublist [(7 : UInt8), 7] [7, 8])

end ZeroStrm
