import ZeroStrm.Common.PoolBounds
import ZeroStrm.Read.Channel
import ZeroStrm.Read.Init

/-!
# Memory safety and wait-freedom of the receiver

With an exhausted pool a flush gives a block two owners, and from then on the two lists may share
blocks, lose them or run in a circle. Two things hold even so, in every run. No pointer ever leaves
the pool and no cell outside of its blocks is ever written (`readMemorySafe`), as long as the
channel itself stays inside the block it was started on. And a call of `zero_strm_read` never
runs more than four states, whatever the handlers do in between (`readWaitFree`): the block that
`dequeue` fetches always has a byte.

The channel is a parameter. What it must promise is `ChannelFits` for the first result, and only
that it writes no pointer and no size (`DataOnly`) for the second.
-/

set_option autoImplicit false

namespace ZeroStrm

open EventRuns

variable {β D ι : Type}

/-! ## Sizes -/

/-- The sizes of the blocks are positive and within the limit. -/
def SizesWithin (count limit : ℕ) (size : Addr → ℕ) : Prop :=
  ∀ block < count, 0 < size block ∧ size block ≤ limit

theorem SizesWithin.update {count limit value : ℕ} {size : Addr → ℕ}
    (sizes : SizesWithin count limit size) (positive : 0 < value) (fits : value ≤ limit)
    (block : Addr) : SizesWithin count limit (Function.update size block value) := by
  intro other inside
  by_cases same : other = block
  · rw [same, Function.update_self]
    exact ⟨positive, fits⟩
  · rw [Function.update_of_ne same]
    exact sizes other inside

/-! ## A flush -/

section Flush

variable {count limit : ℕ} {io : DmaRxIO β D} {s : StreamRead β D}

theorem PoolInside.newPool (pool : PoolInside count s.tMemBlockFifo) (limit : ℕ) :
    Inside count (newBlock s) ∧ PoolInside count (newPool s) ∧
      SameOutside count limit s.tMemBlockFifo (newPool s) := by
  obtain ⟨found, rest, same⟩ := pool.new limit
  refine ⟨found, ?_⟩
  unfold ZeroStrm.newPool
  dsimp only
  split
  · next block here =>
    obtain ⟨sized, still⟩ := rest.setSize (found block here) s.hwDmaSizeTotal limit
    exact ⟨sized, same.trans still⟩
  · exact ⟨rest, same⟩

/-- **A flush follows and stores pointers of the pool only**, whether it finds a block or not. -/
theorem PoolInside.flushedPool (io : DmaRxIO β D) (pool : PoolInside count s.tMemBlockFifo)
    (dmaBlock : s.ptByteFifoDmaRx < count) (limit : ℕ) :
    PoolInside count (flushedPool io s) ∧
      SameOutside count limit s.tMemBlockFifo (flushedPool io s) ∧
      flushedDmaRx io s < count := by
  obtain ⟨found, rest, same⟩ := pool.newPool limit
  unfold ZeroStrm.flushedPool flushedDmaRx
  split
  · obtain ⟨freed, still⟩ := rest.free found limit
    exact ⟨freed, same.trans still, dmaBlock⟩
  · obtain ⟨sized, still⟩ := rest.setSize dmaBlock (received io s) limit
    obtain ⟨appended, linked⟩ := sized.append dmaBlock limit
    refine ⟨appended, (same.trans still).trans linked, ?_⟩
    cases here : newBlock s with
    | none => exact dmaBlock
    | some block => exact found block here

/-- The sizes after a flush: the block that it finds gets the whole length, and the receiving block
what was received. -/
theorem SizesWithin.flushedPool (sizes : SizesWithin count limit s.tMemBlockFifo.tSizeInByte)
    (positive : 0 < s.hwDmaSizeTotal) (fits : s.hwDmaSizeTotal ≤ limit)
    (bound : received io s ≤ limit) :
    SizesWithin count limit (flushedPool io s).tSizeInByte := by
  have new : SizesWithin count limit (newPool s).tSizeInByte := by
    cases found : newBlock s with
    | none =>
        unfold newBlock at found
        simpa [newPool, found] using sizes
    | some block =>
        rw [tSizeInByte_newPool found]
        exact sizes.update positive fits block
  by_cases nothing : received io s = 0
  · rw [ZeroStrm.flushedPool, if_pos nothing, tSizeInByte_free]
    exact new
  · rw [tSizeInByte_flushedPool nothing]
    exact new.update (Nat.pos_of_ne_zero nothing) bound _

end Flush

/-! ## The handlers, for any channel -/

/-- The members of the stream that the reader and the flush share. The saved pointer of a flush
machine may have become the block that a flush found. -/
structure SameCore (found : Ptr) (s s' : StreamRead β D) : Prop where
  pool : s'.tMemBlockFifo = s.tMemBlockFifo
  fifo : s'.tByteFifo = s.tByteFifo
  dmaBlock : s'.ptByteFifoDmaRx = s.ptByteFifoDmaRx
  empty : s'.ptByteFifoEmpty = s.ptByteFifoEmpty
  dequeue : s'.fsmDequeue = s.fsmDequeue
  flushHt : s'.fsmFlushHt.ptByteFifo = s.fsmFlushHt.ptByteFifo ∨ s'.fsmFlushHt.ptByteFifo = found
  timeOut : s'.fsmTimeOut.ptByteFifo = s.fsmTimeOut.ptByteFifo ∨ s'.fsmTimeOut.ptByteFifo = found
  total : s'.hwDmaSizeTotal = s.hwDmaSizeTotal

/-- **A handler reads the count once more at most, and flushes or rests.** -/
theorem handler_core (hw : RxHardware β D ι) {s : ReadSystem β D} (quiet : Quiet s.strm)
    {e : ReadEvent ι} (handler : e.isHandler = true) (noArrival : ∀ i, e ≠ .arrive i) :
    ∃ u v, SameCore none s.strm u ∧
      (u.dma = s.strm.dma ∨ u.dma = (hw.fnDmaCntGet s.strm.dma).2) ∧
      (v = u ∨ v = flushed hw.toDmaRxIO u) ∧ SameCore (newBlock u) v (readStep hw s e).strm ∧
      (readStep hw s e).strm.dma = v.dma := by
  cases e with
  | arrive i => exact absurd rfl (noArrival i)
  | dmaHalf =>
      simp only [readStep, zeroStrmUartDmaGetDataInsertToDmaIrqEventHandler,
        flushHt_eq quiet.flushHt]
      exact ⟨_, _, ⟨rfl, rfl, rfl, rfl, rfl, .inl rfl, .inl rfl, rfl⟩, .inl rfl, .inr rfl,
        ⟨rfl, rfl, rfl, rfl, rfl, .inr rfl, .inl rfl, rfl⟩, rfl⟩
  | uartIdle =>
      exact ⟨recordCurrentDataCount hw.toDmaRxIO (setUartIdle s.strm), _,
        ⟨rfl, rfl, rfl, rfl, rfl, .inl rfl, .inl rfl, rfl⟩, .inr rfl, .inl rfl,
        ⟨rfl, rfl, rfl, rfl, rfl, .inl rfl, .inl rfl, rfl⟩, rfl⟩
  | tick =>
      obtain ⟨started, left, dma, counted, tested⟩ :=
        isReallyTimeOut_changes hw.toDmaRxIO s.strm
      refine ⟨(isReallyTimeOut hw.toDmaRxIO s.strm).2, ?_⟩
      simp only [readStep, zeroStrmUartWaitTimeOutInsertToHardTimerIrqEventHandler]
      cases really : (isReallyTimeOut hw.toDmaRxIO s.strm).1 with
      | false =>
          rw [timeOut_not_really quiet.timeOut really, tested]
          exact ⟨_, ⟨rfl, rfl, rfl, rfl, rfl, .inl rfl, .inl rfl, rfl⟩, counted, .inl rfl,
            ⟨rfl, rfl, rfl, rfl, rfl, .inl rfl, .inl rfl, rfl⟩, rfl⟩
      | true =>
          rw [timeOut_really quiet.timeOut really, tested]
          exact ⟨_, ⟨rfl, rfl, rfl, rfl, rfl, .inl rfl, .inl rfl, rfl⟩, counted, .inr rfl,
            ⟨rfl, rfl, rfl, rfl, rfl, .inl rfl, .inr rfl, rfl⟩, rfl⟩
  | read => cases handler

/-! ## The invariant -/

/-- The channel writes data only, no pointer and no size. -/
def DataOnly (hw : RxHardware β D ι) : Prop :=
  ∀ i m d, ∃ memory, (hw.arrive i m d).1 = { m with chMemory := memory }

/-- What the stream needs of its channel: started on a block of the pool, the channel is in a state
that `fits`, and then its counts stand for sizes within the limit. -/
structure Tame (hw : RxHardware β D ι) (count limit total : ℕ) (fits : D → Prop) : Prop where
  dataOnly : DataOnly hw
  start : ∀ m block d, block < count → m.tSizeInByte block ≤ limit →
    fits (hw.fnDmaStartRx m block d)
  counts : ∀ d, fits d → u16 (total + (2 ^ 16 - u16 (hw.fnDmaCntGet d).1)) ≤ limit ∧
    fits (hw.fnDmaCntGet d).2
  arrive : ∀ i m d, fits d → fits (hw.arrive i m d).2

/-- Every pointer of the stream is null or a block of the pool: those of the manager, its own two,
those that its three machines save, and the buffer of its ring. Every block has a size within the
limit, and the ring lies in its block. -/
structure ReadSafe (count limit total : ℕ) (s : StreamRead β D) : Prop where
  pool : PoolInside count s.tMemBlockFifo
  sizes : SizesWithin count limit s.tMemBlockFifo.tSizeInByte
  dmaBlock : s.ptByteFifoDmaRx < count
  empty : s.ptByteFifoEmpty < count
  held : s.fsmDequeue.ptByteFifo < count
  flushHt : Inside count s.fsmFlushHt.ptByteFifo
  timeOut : Inside count s.fsmTimeOut.ptByteFifo
  ring : s.tByteFifo.WellFormed
  ringSize : s.tByteFifo.hwSize ≤ limit
  buffer : s.tByteFifo.pchBuffer < count
  total : s.hwDmaSizeTotal = total

namespace ReadSafe

variable {count limit total : ℕ} {s s' : StreamRead β D}

theorem core {found : Ptr} (safe : ReadSafe count limit total s) (same : SameCore found s s')
    (inside : Inside count found) : ReadSafe count limit total s' := by
  obtain ⟨pool, fifo, dmaBlock, empty, dequeue, flushHt, timeOut, sameTotal⟩ := same
  constructor
  case pool => exact pool ▸ safe.pool
  case sizes => exact pool ▸ safe.sizes
  case dmaBlock => exact dmaBlock ▸ safe.dmaBlock
  case empty => exact empty ▸ safe.empty
  case held => exact dequeue ▸ safe.held
  case flushHt =>
    rcases flushHt with kept | taken
    · exact kept ▸ safe.flushHt
    · exact taken ▸ inside
  case timeOut =>
    rcases timeOut with kept | taken
    · exact kept ▸ safe.timeOut
    · exact taken ▸ inside
  case ring => exact fifo ▸ safe.ring
  case ringSize => exact fifo ▸ safe.ringSize
  case buffer => exact fifo ▸ safe.buffer
  case total => exact sameTotal.trans safe.total

/-- **A flush keeps the stream safe**, also one that finds no block. -/
theorem flushed (io : DmaRxIO β D) (safe : ReadSafe count limit total s) (positive : 0 < total)
    (within : total ≤ limit) (bound : received io s ≤ limit) :
    ReadSafe count limit total (flushed io s) := by
  obtain ⟨pool, -, dmaBlock⟩ := safe.pool.flushedPool io safe.dmaBlock limit
  rw [← safe.total] at positive within
  exact { safe with
    pool := pool
    sizes := safe.sizes.flushedPool positive within bound
    dmaBlock := dmaBlock }

/-- **Every state of `dequeue` keeps the stream safe.** The block it fetches becomes a ring that is
not empty. -/
theorem dequeueEffect {r : (StreamRead β D × Option β) × Ctl} (safe : ReadSafe count limit total s)
    (small : limit < 2 ^ 16) (effect : DequeueEffect s r) :
    ReadSafe count limit total r.1.1 := by
  cases effect with
  | start => exact { safe with held := safe.held }
  | byte at_out deq =>
      by_cases empty : s.tByteFifo.hwLength = 0
      · rw [ByteFifo.dequeue_nil safe.ring empty] at deq
        cases deq
      · obtain ⟨byte, fifo, taken, -, ring, buffer, size, -⟩ :=
          ByteFifo.dequeue_cons s.tMemBlockFifo safe.ring empty
        rw [taken] at deq
        cases deq
        exact { safe with
          held := safe.held
          ring := ring
          ringSize := size.trans_le safe.ringSize
          buffer := buffer.trans_lt safe.buffer }
  | free at_out deq =>
      have refused := zeroStrmDequeueByteFifo_refused (congrArg Prod.fst deq)
      rw [deq] at refused
      cases refused
      exact { safe with
        held := safe.held
        pool := (safe.pool.free (inside_some safe.held) limit).1
        sizes := by simpa using safe.sizes }
  | wait at_get fetched =>
      have pool := (safe.pool.fetch limit).2.1
      have sizes := (fetch_frame fetched).1
      rw [fetched] at pool
      exact { safe with
        pool := pool
        sizes := sizes ▸ safe.sizes }
  | @fetch block _ at_get fetched =>
      obtain ⟨found, pool, -⟩ := safe.pool.fetch limit
      have sizes := (fetch_frame fetched).1
      rw [fetched] at found pool
      have inside := found block rfl
      have size := safe.sizes block inside
      have short : u16 (s.tMemBlockFifo.tSizeInByte block) = s.tMemBlockFifo.tSizeInByte block :=
        u16_of_lt (size.2.trans_lt small)
      rw [sizes, short, ByteFifo.init_full block size.1]
      exact { safe with
        pool := pool
        sizes := sizes ▸ safe.sizes
        held := inside
        ring := ByteFifo.wellFormed_full block size.1 (size.2.trans_lt small)
        ringSize := size.2
        buffer := inside }

end ReadSafe

/-- What every step keeps. -/
structure ReadSafely (count limit total : ℕ) (fits : D → Prop) (s : ReadSystem β D) : Prop where
  safe : ReadSafe count limit total s.strm
  channel : fits s.strm.dma
  quiet : Quiet s.strm

section Runs

variable {count limit total : ℕ} {fits : D → Prop} {hw : RxHardware β D ι} {s t : ReadSystem β D}
  {e : ReadEvent ι} {cfg : StreamReadCfg} {m : MemBlkFifo β} {dma : D}

theorem ReadSafely.handler (tame : Tame hw count limit total fits) (positive : 0 < total)
    (within : total ≤ limit) (before : ReadSafely count limit total fits s)
    (handler : e.isHandler = true) (noArrival : ∀ i, e ≠ .arrive i) :
    ReadSafe count limit total (readStep hw s e).strm ∧ fits (readStep hw s e).strm.dma := by
  obtain ⟨safe, channel, quiet⟩ := before
  obtain ⟨u, v, first, counted, flushes, last, dmaAfter⟩ := handler_core hw quiet handler noArrival
  have safe' : ReadSafe count limit total u := safe.core first (inside_none count)
  have found := (safe'.pool.newPool limit).1
  have channel' : fits u.dma := by
    rcases counted with same | once
    · rw [same]
      exact channel
    · rw [once]
      exact (tame.counts _ channel).2
  rcases flushes with rfl | rfl
  · exact ⟨safe'.core last found, dmaAfter ▸ channel'⟩
  · obtain ⟨bound, channel''⟩ := tame.counts _ channel'
    rw [← safe'.total] at bound
    have flushed' := safe'.flushed hw.toDmaRxIO positive within bound
    refine ⟨flushed'.core last found, dmaAfter ▸ ?_⟩
    change fits (flushedDma hw.toDmaRxIO u)
    unfold flushedDma
    split
    · exact channel''
    · cases new : newBlock u with
      | none => exact channel''
      | some block =>
          have inside := found block new
          exact tame.start _ _ _ inside (flushed'.sizes block inside).2

/-- **Every step of the receiver keeps it safe**, with an exhausted pool as well. -/
theorem ReadSafely.kept (tame : Tame hw count limit total fits) (positive : 0 < total)
    (within : total ≤ limit) (small : limit < 2 ^ 16)
    (before : ReadSafely count limit total fits s) (step : ReadStep hw s e t) :
    ReadSafely count limit total fits t := by
  have quiet := before.quiet.kept step
  rw [ReadStep] at step
  subst step
  cases e with
  | arrive i =>
      obtain ⟨memory, same⟩ := tame.dataOnly i s.strm.tMemBlockFifo s.strm.dma
      have pool := before.safe.pool
      refine ⟨?_, tame.arrive i _ _ before.channel, quiet⟩
      simp only [readStep, same]
      exact { before.safe with
        pool := ⟨pool.freeList, pool.head, pool.tail, pool.next⟩
        sizes := before.safe.sizes }
  | read =>
      have effect := dequeueState_effect before.quiet.dequeue
      have frame := effect.frame
      refine ⟨before.safe.dequeueEffect small effect, ?_, quiet⟩
      simp only [readStep, frame.1]
      exact before.channel
  | dmaHalf =>
      obtain ⟨safe, channel⟩ := before.handler (e := .dmaHalf) tame positive within rfl
        (by rintro _ ⟨⟩)
      exact ⟨safe, channel, quiet⟩
  | uartIdle =>
      obtain ⟨safe, channel⟩ := before.handler (e := .uartIdle) tame positive within rfl
        (by rintro _ ⟨⟩)
      exact ⟨safe, channel, quiet⟩
  | tick =>
      obtain ⟨safe, channel⟩ := before.handler (e := .tick) tame positive within rfl
        (by rintro _ ⟨⟩)
      exact ⟨safe, channel, quiet⟩

theorem zeroStrmReadInit_pool {io : DmaRxIO β D} {s : StreamRead β D}
    (init : zeroStrmReadInit io cfg m dma = some s) (limit : ℕ) :
    PoolInside cfg.chCnt s.tMemBlockFifo ∧ SameOutside cfg.chCnt limit m s.tMemBlockFifo := by
  obtain ⟨pool, same⟩ := PoolInside.initBlocks cfg.readBuffCnt limit m cfg.chCnt
  obtain ⟨-, pool₁, same₁⟩ := pool.new limit
  obtain ⟨-, pool₂, same₂⟩ := pool₁.new limit
  have memory : s.tMemBlockFifo = (zeroStrmBlockNew (zeroStrmBlockNew
      (initBlocks cfg.readBuffCnt cfg.chCnt (zeroStrmBlockFifoInit m))).2).2 := by
    simp only [zeroStrmReadInit] at init
    split at init
    · cases init
      rfl
    · cases init
  rw [memory]
  exact ⟨pool₂, (same.trans same₁).trans same₂⟩

theorem readSafely_init (tame : Tame hw cfg.chCnt limit cfg.readBuffCnt fits)
    (positive : 0 < cfg.readBuffCnt) (within : cfg.readBuffCnt ≤ limit) (small : limit < 2 ^ 16)
    {s : StreamRead β D} (init : zeroStrmReadInit hw.toDmaRxIO cfg m dma = some s)
    (returned : List β) :
    ReadSafely cfg.chCnt limit cfg.readBuffCnt fits ⟨s, returned⟩ := by
  have initial := zeroStrmReadInit_spec init
  have fifo := initial.fifo positive (within.trans_lt small)
  have enough := initial.enough
  refine ⟨?_, ?_, initial.quiet⟩
  · constructor
    case pool => exact (zeroStrmReadInit_pool init limit).1
    case sizes =>
      intro block inside
      rw [initial.size block inside]
      exact ⟨positive, within⟩
    case dmaBlock =>
      rw [initial.dmaBlock]
      exact Nat.sub_lt (by omega) Nat.one_pos
    case empty =>
      rw [initial.emptyBlock]
      exact Nat.sub_lt (by omega) Nat.two_pos
    case held =>
      rw [initial.dequeue]
      exact Nat.sub_lt (by omega) Nat.two_pos
    case flushHt =>
      rw [initial.flushHt]
      exact inside_none _
    case timeOut =>
      rw [initial.timeOut]
      exact inside_none _
    case ring =>
      rw [fifo]
      exact ByteFifo.wellFormed_empty _ positive (within.trans_lt small)
    case ringSize =>
      rw [fifo]
      exact within
    case buffer =>
      rw [fifo]
      exact Nat.sub_lt (by omega) Nat.two_pos
    case total =>
      rw [initial.total, u16_of_lt (within.trans_lt small)]
  · obtain ⟨before, size, started⟩ := initial.dma
    change fits s.dma
    rw [started]
    exact tame.start _ _ _ (by omega) (size.trans_le within)

/-! ## Memory safety -/

/-- What the channel promises: it reports no more than the length it was started with, and it
writes only into the memory of the block it was started on. -/
structure ChannelFits (hw : RxHardware β D ι) (cfg : StreamReadCfg) (fits : D → Prop) : Prop where
  dataOnly : DataOnly hw
  start : ∀ m block d, block < cfg.chCnt → m.tSizeInByte block ≤ cfg.readBuffCnt →
    fits (hw.fnDmaStartRx m block d)
  counts : ∀ d, fits d → (hw.fnDmaCntGet d).1 ≤ cfg.readBuffCnt ∧ fits (hw.fnDmaCntGet d).2
  arrive : ∀ i m d, fits d → fits (hw.arrive i m d).2 ∧
    ∀ block index, cfg.chCnt ≤ block ∨ cfg.readBuffCnt ≤ index →
      (hw.arrive i m d).1.chMemory block index = m.chMemory block index

theorem ChannelFits.tame (channel : ChannelFits hw cfg fits) (small : cfg.readBuffCnt < 2 ^ 16) :
    Tame hw cfg.chCnt cfg.readBuffCnt cfg.readBuffCnt fits := by
  refine ⟨channel.dataOnly, channel.start, ?_, fun i m d here => (channel.arrive i m d here).1⟩
  intro d here
  obtain ⟨bound, still⟩ := channel.counts d here
  refine ⟨?_, still⟩
  rw [u16_of_lt (bound.trans_lt small), u16]
  omega

theorem SameOutside.step (channel : ChannelFits hw cfg fits)
    (before : ReadSafely cfg.chCnt cfg.readBuffCnt cfg.readBuffCnt fits s)
    (step : ReadStep hw s e t) :
    SameOutside cfg.chCnt cfg.readBuffCnt s.strm.tMemBlockFifo t.strm.tMemBlockFifo := by
  have quiet := before.quiet
  rw [ReadStep] at step
  subst step
  have handled (noArrival : ∀ i, e ≠ .arrive i) (handler : e.isHandler = true) :
      SameOutside cfg.chCnt cfg.readBuffCnt s.strm.tMemBlockFifo
        (readStep hw s e).strm.tMemBlockFifo := by
    obtain ⟨u, v, first, -, flushes, last, -⟩ := handler_core hw quiet handler noArrival
    have safe := before.safe.core first (inside_none _)
    rw [last.pool, ← first.pool]
    rcases flushes with rfl | rfl
    · exact .refl ..
    · exact (safe.pool.flushedPool hw.toDmaRxIO safe.dmaBlock _).2.1
  cases e with
  | arrive i =>
      obtain ⟨memory, same⟩ := channel.dataOnly i s.strm.tMemBlockFifo s.strm.dma
      have outside := (channel.arrive i s.strm.tMemBlockFifo _ before.channel).2
      rw [same] at outside
      simp only [readStep, same]
      exact ⟨fun _ _ => rfl, fun _ _ => rfl, outside⟩
  | read =>
      have pool := before.safe.pool
      have effect := dequeueState_effect quiet.dequeue
      simp only [readStep]
      generalize dequeueState (s.strm, none) = r at effect
      cases effect with
      | start => exact .refl ..
      | byte => exact .refl ..
      | free => exact (pool.free (inside_some before.safe.held) _).2
      | wait at_get fetched =>
          have same := (pool.fetch cfg.readBuffCnt).2.2
          rwa [fetched] at same
      | fetch at_get fetched =>
          have same := (pool.fetch cfg.readBuffCnt).2.2
          rwa [fetched] at same
  | dmaHalf => exact handled (by rintro _ ⟨⟩) rfl
  | uartIdle => exact handled (by rintro _ ⟨⟩) rfl
  | tick => exact handled (by rintro _ ⟨⟩) rfl

/-- A channel whose counts are never looked at is tame: a count of sixteen bits is a size. -/
theorem DataOnly.tame (dataOnly : DataOnly hw) (count total : ℕ) :
    Tame hw count (2 ^ 16 - 1) total fun _ => True :=
  ⟨dataOnly, fun _ _ _ _ _ => trivial,
    fun _ _ => ⟨Nat.le_pred_of_lt (Nat.mod_lt _ (by decide)), trivial⟩, fun _ _ _ _ => trivial⟩

/-- A state of `dequeue` that does not return. -/
def GoesOn (s : ReadSystem β D) (e : ReadEvent ι) : Prop :=
  e = .read → (dequeueState (s.strm, none)).2 = .goto

/-- How many states of `dequeue` can go on in a row. -/
def statesToReturn (s : StreamRead β D) : ℕ :=
  match s.fsmDequeue.chState with
  | Dequeue.start => if s.tByteFifo.hwLength = 0 then 3 else 1
  | Dequeue.byteFifoOut => if s.tByteFifo.hwLength = 0 then 2 else 0
  | Dequeue.getByteFifo => 1
  | _ => 0

theorem statesToReturn_le (s : StreamRead β D) : statesToReturn s ≤ 3 := by
  unfold statesToReturn
  split
  · split_ifs <;> decide
  · split_ifs <;> decide
  · decide
  · exact Nat.zero_le 3

/-- **A state of `dequeue` that goes on** brings the return one state nearer. -/
theorem DequeueEffect.goesOn {s : StreamRead β D} {r : (StreamRead β D × Option β) × Ctl}
    (effect : DequeueEffect s r) (safe : ReadSafe count limit total s) (small : limit < 2 ^ 16)
    (goto : r.2 = .goto) : statesToReturn r.1.1 + 1 ≤ statesToReturn s := by
  cases effect with
  | start at_start =>
      simp only [statesToReturn, at_start]
      split_ifs <;> exact le_rfl
  | byte => cases goto
  | free at_out deq =>
      have empty : s.tByteFifo.hwLength = 0 := by
        by_contra some
        exact (ByteFifo.dequeue_gives_iff s.tMemBlockFifo safe.ring).mpr some
          (congrArg Prod.fst deq)
      simp only [statesToReturn, at_out, if_pos empty]
      exact le_rfl
  | wait => cases goto
  | @fetch block _ at_get fetched =>
      have inside := (safe.pool.fetch limit).1
      have sizes := (fetch_frame fetched).1
      rw [fetched] at inside
      have size := safe.sizes block (inside block rfl)
      have short : u16 (s.tMemBlockFifo.tSizeInByte block) = s.tMemBlockFifo.tSizeInByte block :=
        u16_of_lt (size.2.trans_lt small)
      rw [sizes, short, ByteFifo.init_full block size.1]
      simp only [statesToReturn, at_get, if_neg size.1.ne']
      exact le_rfl

theorem statesToReturn_handler (hw : RxHardware β D ι) (quiet : Quiet s.strm)
    (handler : e.isHandler = true) :
    statesToReturn (readStep hw s e).strm = statesToReturn s.strm := by
  by_cases arrival : ∃ i, e = .arrive i
  · obtain ⟨i, rfl⟩ := arrival
    rfl
  · obtain ⟨u, v, first, -, flushes, last, -⟩ :=
      handler_core hw quiet handler (not_exists.mp arrival)
    have fifo : v.tByteFifo = u.tByteFifo ∧ v.fsmDequeue = u.fsmDequeue := by
      rcases flushes with rfl | rfl
      · exact ⟨rfl, rfl⟩
      · exact ⟨rfl, rfl⟩
    simp only [statesToReturn, last.fifo, last.dequeue, fifo.1, fifo.2, first.fifo, first.dequeue]

/-- **Every call of `zero_strm_read` is wait-free.** Of any four states of `dequeue`, with any
handlers between them, one returns: a byte, or that there is none yet. This holds in every run,
whatever the channel counts and whether flushes find blocks or not. -/
theorem readWaitFree (dataOnly : DataOnly hw) (positive : 0 < cfg.readBuffCnt)
    (small : cfg.readBuffCnt < 2 ^ 16) {es fs : List (ReadEvent ι)} {u : ReadSystem β D}
    (run : ReadRun hw (ReadStep hw) cfg m dma es t) (more : Run (ReadStep hw) t fs u)
    (four : 4 ≤ fs.countP fun e => !e.isHandler) :
    ∃ first rest v, fs = first ++ .read :: rest ∧ Run (ReadStep hw) t first v ∧
      ((dequeueState (v.strm, none)).2 = .ret .cpl ∨
        (dequeueState (v.strm, none)).2 = .ret .onGoing) := by
  obtain ⟨s, init, run⟩ := run
  have tame := dataOnly.tame cfg.chCnt cfg.readBuffCnt
  have within : cfg.readBuffCnt ≤ 2 ^ 16 - 1 := Nat.le_pred_of_lt small
  have kept : ∀ ⦃s e t⦄, ReadSafely cfg.chCnt (2 ^ 16 - 1) cfg.readBuffCnt (fun _ => True) s →
      ReadStep hw s e t →
      ReadSafely cfg.chCnt (2 ^ 16 - 1) cfg.readBuffCnt (fun _ => True) t :=
    fun _ _ _ before step => before.kept tame positive within (by decide) step
  have start := run.invariant _ kept (readSafely_init tame positive within (by decide) init [])
  rcases more.guarded_or_missed GoesOn with always | ⟨first, e, rest, v, rfl, before, missed⟩
  · have bound : statesToReturn u.strm + fs.countP (fun e => !e.isHandler) ≤
        statesToReturn t.strm := by
      refine always.rank (ReadSafely cfg.chCnt (2 ^ 16 - 1) cfg.readBuffCnt fun _ => True)
        (fun _ _ _ before step => kept before step.2)
        (fun s => statesToReturn s.strm) _ ?_ start
      rintro s e v before ⟨goesOn, step⟩
      rw [ReadStep] at step
      subst step
      cases handler : e.isHandler with
      | true => simp [statesToReturn_handler hw before.quiet handler]
      | false =>
          obtain rfl := (e.isHandler_iff).mp handler
          exact (dequeueState_effect before.quiet.dequeue).goesOn before.safe (by decide)
            (goesOn rfl)
    have most := statesToReturn_le t.strm
    omega
  · obtain ⟨rfl, returns⟩ := Classical.not_imp.mp missed
    have quiet := (before.unguarded.invariant _ kept start).quiet
    refine ⟨first, rest, v, rfl, before.unguarded, ?_⟩
    have effect := dequeueState_effect quiet.dequeue
    generalize dequeueState (v.strm, none) = r at effect returns
    cases effect with
    | start => exact absurd rfl returns
    | byte => exact .inl rfl
    | free => exact absurd rfl returns
    | wait => exact .inr rfl
    | fetch => exact absurd rfl returns

end Runs

/-! ## The concrete channel -/

/-- The channel of `Channel.lean` stays inside the block it was started on. -/
theorem dmaRx_fits (cfg : StreamReadCfg) :
    ChannelFits (dmaRx (β := β)) cfg fun d =>
      d.target < cfg.chCnt ∧ d.length ≤ cfg.readBuffCnt := by
  constructor
  case dataOnly =>
    intro byte m d
    simp only [dmaRx]
    split
    · exact ⟨_, rfl⟩
    · exact ⟨_, rfl⟩
  case start => exact fun m block d inside short => ⟨inside, short⟩
  case counts => exact fun d here => ⟨(Nat.sub_le ..).trans here.2, here⟩
  case arrive =>
    rintro byte m d ⟨inside, short⟩
    simp only [dmaRx]
    split
    · next room =>
      refine ⟨⟨inside, short⟩, ?_⟩
      rintro block index (outside | outside)
      · exact chMemory_setByte_other _ byte (.inl (inside.trans_le outside).ne')
      · have beyond : index ≠ d.count := by omega
        exact chMemory_setByte_other _ byte (.inr beyond)
    · exact ⟨⟨inside, short⟩, fun _ _ _ => rfl⟩

/-- Two blocks, and a reader that comes too late: the flush finds no block, the receiving block is
queued and goes on receiving, and the reader drains it meanwhile. -/
def crowdedEvents : List (ReadEvent UInt8) :=
  [.arrive 7, .dmaHalf, .read, .read, .read, .arrive 8, .read]

/-- The four states that the reader runs among those events return the byte. -/
theorem readWaitFree_crowded :
    ∃ s v first rest, ReadRun dmaRx (ReadStep dmaRx) (smallCfg 2) zeroMemory DmaRx.reset [] s ∧
      crowdedEvents = first ++ .read :: rest ∧ Run (ReadStep dmaRx) s first v ∧
      (dequeueState (v.strm, none)).2 ≠ .goto := by
  obtain ⟨s, t, run, more⟩ : ∃ s t,
      ReadRun dmaRx (ReadStep dmaRx) (smallCfg 2) zeroMemory DmaRx.reset [] s ∧
        Run (ReadStep dmaRx) s crowdedEvents t :=
    ⟨_, _, ⟨_, rfl, rfl⟩, _, rfl, _, rfl, _, rfl, _, rfl, _, rfl, _, rfl, _, rfl, rfl⟩
  obtain ⟨first, rest, v, split, before, returns | returns⟩ :=
    readWaitFree (dmaRx_fits (smallCfg 2)).dataOnly (by decide) (by decide) run more (by decide)
  · exact ⟨s, v, first, rest, run, split, before, by rw [returns]; nofun⟩
  · exact ⟨s, v, first, rest, run, split, before, by rw [returns]; nofun⟩

end ZeroStrm
