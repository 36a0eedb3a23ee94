import ZeroStrm.Library.Operations
import ZeroStrm.Common.Block
import Mathlib.Data.List.Perm.Basic

/-!
# Calls of the block manager

A user of `zero_strm_block.c` sees a stack of free blocks and a queue of appended ones
(`BlockPool`), and need not know that one `ptNext` threads both. `blockManager_refines` says so
for any sequence of calls that gives the manager only blocks it does not have: every call returns
what the stack and the queue return, and the linked state represents them. The blocks that came
out, with those still in, are the blocks that were put in (`BlockPool.balance`).

A null block changes nothing, and neither does a null `ptThis`.
-/

set_option autoImplicit false

namespace ZeroStrm

open DataRefinement

variable {β : Type}

/-! ## The calls -/

/-- A function of the block manager with its argument. -/
inductive BlockFn where
  | free (ptFreeBlock : Ptr)
  | new
  | append (ptNewNode : Ptr)
  | fetch
  deriving DecidableEq, Repr

/-- A call: `nullThis` says that `ptThis` is `NULL`. -/
structure BlockCall where
  nullThis : Bool
  fn : BlockFn
  deriving DecidableEq, Repr

/-- What a call returns. -/
inductive BlockRet where
  | void
  | block (p : Ptr)
  | flag (b : Bool)
  deriving DecidableEq, Repr

/-- What a function returns for a null `ptThis`. -/
def BlockFn.refusal : BlockFn → BlockRet
  | .free _ => .void
  | .new => .block none
  | .append _ => .flag false
  | .fetch => .block none

/-- A call of the block manager. -/
def blockCall : Component (MemBlkFifo β) BlockCall BlockRet
  | m, ⟨true, fn⟩ => (fn.refusal, m)
  | m, ⟨false, .free ptFreeBlock⟩ => (.void, zeroStrmBlockFree m ptFreeBlock)
  | m, ⟨false, .new⟩ => (.block (zeroStrmBlockNew m).1, (zeroStrmBlockNew m).2)
  | m, ⟨false, .append ptNewNode⟩ =>
    (.flag (zeroStrmBlockAppend m ptNewNode).1, (zeroStrmBlockAppend m ptNewNode).2)
  | m, ⟨false, .fetch⟩ => (.block (zeroStrmBlockFetch m).1, (zeroStrmBlockFetch m).2)

/-! ## The stack and the queue -/

/-- What the block manager is for: a stack and a queue of blocks. -/
structure BlockPool where
  stack : List Addr
  queue : List Addr
  deriving DecidableEq, Repr

/-- A call on the stack and the queue. -/
def poolCall : Component BlockPool BlockCall BlockRet
  | pool, ⟨true, fn⟩ => (fn.refusal, pool)
  | pool, ⟨false, .free none⟩ => (.void, pool)
  | pool, ⟨false, .free (some block)⟩ => (.void, { pool with stack := block :: pool.stack })
  | pool, ⟨false, .new⟩ => (.block pool.stack.head?, { pool with stack := pool.stack.tail })
  | pool, ⟨false, .append none⟩ => (.flag false, pool)
  | pool, ⟨false, .append (some block)⟩ =>
    (.flag true, { pool with queue := pool.queue ++ [block] })
  | pool, ⟨false, .fetch⟩ => (.block pool.queue.head?, { pool with queue := pool.queue.tail })

/-- The block that a call puts in. -/
def BlockCall.given : BlockCall → List Addr
  | ⟨false, .free ptFreeBlock⟩ => ptFreeBlock.toList
  | ⟨false, .append ptNewNode⟩ => ptNewNode.toList
  | _ => []

/-- The block that a call takes out. -/
def BlockRet.taken : BlockRet → List Addr
  | .block p => p.toList
  | _ => []

/-- A call puts in no block that the manager already has. -/
def BlockPool.Outside (pool : BlockPool) (call : BlockCall) : Prop :=
  ∀ block ∈ call.given, block ∉ pool.stack ∧ block ∉ pool.queue

/-- **One call keeps the balance** of the blocks put in and the blocks taken out. -/
theorem poolCall_balance (pool : BlockPool) (call : BlockCall) :
    ((poolCall pool call).1.taken ++
        ((poolCall pool call).2.stack ++ (poolCall pool call).2.queue)).Perm
      (call.given ++ (pool.stack ++ pool.queue)) := by
  obtain ⟨nullThis, fn⟩ := call
  cases nullThis with
  | true => cases fn <;> exact List.Perm.refl _
  | false =>
      cases fn with
      | free ptFreeBlock => cases ptFreeBlock <;> exact List.Perm.refl _
      | new =>
          obtain ⟨stack, queue⟩ := pool
          cases stack <;> exact List.Perm.refl _
      | append ptNewNode =>
          cases ptNewNode with
          | none => exact List.Perm.refl _
          | some block =>
              apply List.perm_iff_count.mpr
              intro x
              simp only [poolCall, BlockRet.taken, BlockCall.given, Option.toList_some,
                List.nil_append, List.count_append]
              omega
      | fetch =>
          obtain ⟨stack, queue⟩ := pool
          cases queue with
          | nil => exact List.Perm.refl _
          | cons block queue =>
              apply List.perm_iff_count.mpr
              intro x
              simp only [poolCall, BlockRet.taken, BlockCall.given, List.head?_cons,
                List.tail_cons, Option.toList_some, List.nil_append, List.count_append,
                List.count_cons, List.count_nil]
              omega

/-- **No block is lost or doubled.** After any calls, the blocks taken out and those still in are
the blocks put in and those that were in before. -/
theorem BlockPool.balance (pool : BlockPool) (calls : List BlockCall) :
    ((poolCall.run pool calls).1.flatMap BlockRet.taken ++
        ((poolCall.run pool calls).2.stack ++ (poolCall.run pool calls).2.queue)).Perm
      (calls.flatMap BlockCall.given ++ (pool.stack ++ pool.queue)) := by
  induction calls generalizing pool with
  | nil => exact List.Perm.refl _
  | cons call calls ih =>
      have first := List.perm_iff_count.mp (poolCall_balance pool call)
      have later := List.perm_iff_count.mp (ih (poolCall pool call).2)
      apply List.perm_iff_count.mpr
      intro x
      specialize first x
      specialize later x
      simp only [Component.run_cons, List.flatMap_cons, List.count_append] at first later ⊢
      omega

/-! ## The refinement -/

/-- The manager represents the pool. -/
def Holding (m : MemBlkFifo β) (pool : BlockPool) : Prop := Represents m pool.stack pool.queue

theorem zeroStrmBlockAppend_some (m : MemBlkFifo β) (block : Addr) :
    (zeroStrmBlockAppend m (some block)).1 = true := by
  simp only [zeroStrmBlockAppend]
  split <;> rfl

/-- One call of the manager is one of the stack and the queue. -/
theorem blockCall_step {m : MemBlkFifo β} {pool : BlockPool} {call : BlockCall}
    (held : Holding m pool) (outside : pool.Outside call) :
    (blockCall m call).1 = (poolCall pool call).1 ∧
      Holding (blockCall m call).2 (poolCall pool call).2 := by
  obtain ⟨stack, queue⟩ := pool
  obtain ⟨nullThis, fn⟩ := call
  cases nullThis with
  | true => exact ⟨rfl, held⟩
  | false =>
      cases fn with
      | free ptFreeBlock =>
          cases ptFreeBlock with
          | none => exact ⟨rfl, held⟩
          | some block =>
              obtain ⟨notFree, notQueued⟩ := outside block (List.mem_singleton_self _)
              exact ⟨rfl, held.push notFree notQueued⟩
      | new =>
          cases stack with
          | nil =>
              simp only [blockCall, held.new_nil]
              exact ⟨rfl, held⟩
          | cons block stack =>
              obtain ⟨popped, rest⟩ := held.new_cons
              simp only [blockCall, popped]
              exact ⟨rfl, rest⟩
      | append ptNewNode =>
          cases ptNewNode with
          | none => exact ⟨rfl, held⟩
          | some block =>
              obtain ⟨notFree, notQueued⟩ := outside block (List.mem_singleton_self _)
              exact ⟨congrArg BlockRet.flag (zeroStrmBlockAppend_some m block),
                held.enqueue notFree notQueued⟩
      | fetch =>
          cases queue with
          | nil =>
              simp only [blockCall, held.fetch_nil]
              exact ⟨rfl, held⟩
          | cons block queue =>
              obtain ⟨first, rest⟩ := held.fetch_cons
              exact ⟨congrArg BlockRet.block first, rest⟩

/-- **The manager implements a stack and a queue.** -/
theorem blockCall_implements :
    Implements (blockCall : Component (MemBlkFifo β) _ _) poolCall (fun _ call => call)
      BlockPool.Outside Holding where
  result _ _ _ held outside := (blockCall_step held outside).1
  state _ _ _ held outside := (blockCall_step held outside).2

/-- No call touches the size or the data of a block. -/
theorem blockCall_frame (m : MemBlkFifo β) (call : BlockCall) :
    (blockCall m call).2.tSizeInByte = m.tSizeInByte ∧
      (blockCall m call).2.chMemory = m.chMemory := by
  obtain ⟨nullThis, fn⟩ := call
  cases nullThis with
  | true => exact ⟨rfl, rfl⟩
  | false => cases fn <;> exact ⟨by simp [blockCall], by simp [blockCall]⟩

theorem blockCall_run_frame (m : MemBlkFifo β) (calls : List BlockCall) :
    (blockCall.run m calls).2.tSizeInByte = m.tSizeInByte ∧
      (blockCall.run m calls).2.chMemory = m.chMemory := by
  induction calls generalizing m with
  | nil => exact ⟨rfl, rfl⟩
  | cons call calls ih =>
      obtain ⟨sizes, memory⟩ := ih (blockCall m call).2
      obtain ⟨size, data⟩ := blockCall_frame m call
      exact ⟨sizes.trans size, memory.trans data⟩

/-- A call with a null argument. -/
def BlockCall.HasNull (call : BlockCall) : Prop :=
  call.nullThis = true ∨ call.fn = .free none ∨ call.fn = .append none

theorem blockCall_null (m : MemBlkFifo β) {call : BlockCall} (hasNull : call.HasNull) :
    (blockCall m call).2 = m := by
  obtain ⟨nullThis, fn⟩ := call
  cases nullThis with
  | true => rfl
  | false =>
      rcases hasNull with null | free | append
      · cases null
      · obtain rfl : fn = .free none := free
        rfl
      · obtain rfl : fn = .append none := append
        rfl

/-- The linked state of a manager is a stack and a queue: two chains that end at null, without
cycles and apart, with `ptTail` at the last block of the queue. -/
structure Linked (m : MemBlkFifo β) (pool : BlockPool) : Prop where
  stack : LinkedChain.Chain m.ptNext m.ptFreeList pool.stack
  queue : LinkedChain.Chain m.ptNext m.ptHead pool.queue
  tail : m.ptTail = pool.queue.getLast?
  headTail : m.ptHead = none ↔ m.ptTail = none
  acyclic : pool.stack.Nodup ∧ pool.queue.Nodup
  disjoint : List.Disjoint pool.stack pool.queue

theorem Holding.linked {m : MemBlkFifo β} {pool : BlockPool} (held : Holding m pool) :
    Linked m pool :=
  ⟨held.stack, held.fifo, held.tail, held.head_eq_none_iff,
    ⟨held.stack.nodup, held.fifo.nodup⟩, held.disjoint⟩

/-- **The block manager is a stack and a queue.** After any calls that put in only blocks the
manager does not have, it has returned what the stack and the queue return, its linked state
represents them, and no block is lost or doubled. No call changes a size or a byte, and a call
with a null argument changes nothing. -/
theorem blockManager_refines (m manager : MemBlkFifo β) {calls : List BlockCall}
    {results : List BlockRet} (allowed : poolCall.Allowed BlockPool.Outside ⟨[], []⟩ calls)
    (ran : blockCall.run (zeroStrmBlockFifoInit m) calls = (results, manager)) :
    ∃ pool, poolCall.run ⟨[], []⟩ calls = (results, pool) ∧ Linked manager pool ∧
      (results.flatMap BlockRet.taken ++ (pool.stack ++ pool.queue)).Perm
        (calls.flatMap BlockCall.given) ∧
      manager.tSizeInByte = m.tSizeInByte ∧ manager.chMemory = m.chMemory ∧
      ∀ call : BlockCall, call.HasNull → (blockCall manager call).2 = manager := by
  have start : Holding (zeroStrmBlockFifoInit m) ⟨[], []⟩ := Represents.init m
  have seen : blockCall.seen (fun _ call => call) (zeroStrmBlockFifoInit m) calls = calls :=
    Component.seen_same
  obtain ⟨same, held⟩ := blockCall_implements.run start (by rw [seen]; exact allowed)
  have balance := BlockPool.balance ⟨[], []⟩ calls
  have frame := blockCall_run_frame (zeroStrmBlockFifoInit m) calls
  rw [seen] at same held
  rw [ran] at same held frame
  rw [← same, List.append_nil, List.append_nil] at balance
  refine ⟨_, Prod.ext same.symm rfl, held.linked, balance, frame.1, frame.2, ?_⟩
  intro call hasNull
  exact blockCall_null manager hasNull

/-- Two blocks are freed, one of them is taken again and queued, and the queue is emptied. -/
def poolCalls : List BlockCall :=
  [⟨false, .free (some 0)⟩, ⟨false, .free (some 1)⟩, ⟨false, .new⟩, ⟨false, .append (some 1)⟩,
    ⟨false, .append none⟩, ⟨false, .fetch⟩, ⟨false, .fetch⟩]

/-- The block freed last is the one that is taken, and it comes out of the queue again. -/
theorem blockManager_refines_twoBlocks :
    ∃ manager pool, blockCall.run (zeroStrmBlockFifoInit zeroMemory) poolCalls =
        ([.void, .void, .block (some 1), .flag true, .flag false, .block (some 1), .block none],
          manager) ∧
      Linked manager pool ∧ pool = ⟨[0], []⟩ := by
  have allowed : poolCall.Allowed BlockPool.Outside ⟨[], []⟩ poolCalls := by
    simp [poolCalls, Component.Allowed, poolCall, BlockPool.Outside, BlockCall.given]
  obtain ⟨manager, ran⟩ : ∃ manager, blockCall.run (zeroStrmBlockFifoInit zeroMemory) poolCalls =
      ([.void, .void, .block (some 1), .flag true, .flag false, .block (some 1), .block none],
        manager) := ⟨_, rfl⟩
  obtain ⟨pool, same, linked, -⟩ := blockManager_refines zeroMemory manager allowed ran
  have left : poolCall.run ⟨[], []⟩ poolCalls = (_, ⟨[0], []⟩) := rfl
  rw [left] at same
  exact ⟨manager, pool, ran, linked, (Prod.mk.inj same).2.symm⟩

end ZeroStrm
