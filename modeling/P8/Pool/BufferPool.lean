import Mathlib.Logic.Function.Basic
import Mathlib.Tactic.Lemma

/-!
# The buffer pool

`cp8_buffer_pool` (`engine/p8_buffer_pool.cpp`) and the budget it draws from (`engine/p8_memory_budget.cpp`).
Threads `τ` wait in a queue that is linked through a node on each one's stack; buffers are addresses `β`. An
operation is one critical section of `mo_mutex`. `new` is given with its outcome. `none` as the result of an
operation is the use of a null pointer.

`Pool` are the members of the class with the nodes of the threads (`node`), a function since each thread has one, in
a stack frame of `acquire_wait`. What a caller sees of an operation is returned beside the pool: a buffer, that it
has to wait, or the condition variables to notify (`Shard`).

* `Pool.acquireNoLock` takes a free buffer or a new one within the budget (`Budget.tryReserve`).
* `Pool.acquireWait` and `Pool.enqueue` put a thread at the end of the queue.
* `Pool.tryHandoffNoLock` serves the first one with a buffer; `Pool.recycle` and `Pool.recycleList` do so for each
  buffer that comes back.
* `Pool.stopLoop` is the loop of `stop_waiters`, with a fuel that is the count of waiters.
-/

namespace P8

/-- Condition variables of a pool (`mz_wait_cv_count`). -/
def mzWaitCvCount : Nat := 64

/-- An index into `mo_wait_cvs`. -/
abbrev Shard := Fin mzWaitCvCount

/-- `s_waiter`: the node of one thread. -/
structure Waiter (τ β : Type) where
  mpNext : Option τ
  mpBuf : Option β
  mbDone : Bool
  mpCv : Option Shard

/-- `cp8_memory_budget`. -/
structure Budget where
  mzMax : Nat
  muUsed : Nat
  deriving DecidableEq

/-- `try_reserve`. -/
def Budget.tryReserve (b : Budget) (izBytes : Nat) : Budget × Bool :=
  if b.muUsed > b.mzMax ∨ b.mzMax - b.muUsed < izBytes then (b, false)
  else ({ b with muUsed := b.muUsed + izBytes }, true)

/-- `release`. -/
def Budget.release (b : Budget) (izBytes : Nat) : Budget := { b with muUsed := b.muUsed - izBytes }

/-- A buffer pool. `arrived` and `served` are ghosts: the threads that queued, and those whose node was marked done
with what it was given, both in order. -/
structure Pool (τ β : Type) where
  mzBufferSize : Nat
  mpBudget : Option Budget
  moFree : List β
  moAll : List β
  mpWaitHead : Option τ
  mpWaitTail : Option τ
  muWaitCount : Nat
  mbStopping : Bool
  muCvNext : UInt32
  muInflight : Nat
  node : τ → Waiter τ β
  arrived : List τ
  served : List (τ × Option β)

namespace Pool

variable {τ β : Type}

/-- The constructor. -/
def ctor (izBufferSize : Nat) (ipBudget : Option Budget) : Pool τ β where
  mzBufferSize := izBufferSize
  mpBudget := ipBudget
  moFree := []
  moAll := []
  mpWaitHead := none
  mpWaitTail := none
  muWaitCount := 0
  mbStopping := false
  muCvNext := 0
  muInflight := 0
  node := fun _ => ⟨none, none, false, none⟩
  arrived := []
  served := []

/-- `mp_budget->try_reserve`, when there is a budget. -/
def tryReserve (p : Pool τ β) : Pool τ β × Bool :=
  match p.mpBudget with
  | none => (p, true)
  | some b => ({ p with mpBudget := some (b.tryReserve p.mzBufferSize).1 }, (b.tryReserve p.mzBufferSize).2)

/-- `mp_budget->release`, when there is a budget. -/
def release (p : Pool τ β) : Pool τ β := { p with mpBudget := p.mpBudget.map (·.release p.mzBufferSize) }

/-- `init`, for the outcomes of its allocations; it ends early where the budget or an allocation does. -/
def init : List (Option β) → Pool τ β → Pool τ β
  | [], p => p
  | new :: news, p =>
    match p.tryReserve with
    | (p, false) => p
    | (p, true) =>
      match new with
      | none => p.release
      | some b => init news { p with moAll := p.moAll ++ [b], moFree := p.moFree ++ [b] }

/-- `acquire_no_lock`. -/
def acquireNoLock (new : Option β) (p : Pool τ β) : Pool τ β × Option β :=
  match p.moFree with
  | b :: free => ({ p with moFree := free }, some b)
  | [] =>
    match p.tryReserve with
    | (p, false) => (p, none)
    | (p, true) =>
      match new with
      | none => (p.release, none)
      | some b => ({ p with moAll := p.moAll ++ [b] }, some b)

section

variable [DecidableEq τ]

/-- A write to the node of a thread. -/
def setNode (p : Pool τ β) (t : τ) (w : Waiter τ β) : Pool τ β := { p with node := Function.update p.node t w }

/-- The shard of the next waiter, by turns. -/
def nextShard (p : Pool τ β) : Shard := ⟨p.muCvNext.toNat % mzWaitCvCount, Nat.mod_lt _ (by decide)⟩

/-- The tail, or else the head pointer, is made to point to the node of a thread. -/
def link (t : τ) (p : Pool τ β) : Pool τ β :=
  match p.mpWaitTail with
  | some u => p.setNode u { p.node u with mpNext := some t }
  | none => { p with mpWaitHead := some t }

/-- The part of `acquire_wait` that puts the thread's node at the tail of the queue. -/
def enqueue (t : τ) (p : Pool τ β) : Pool τ β :=
  let p := (p.setNode t ⟨none, none, false, some p.nextShard⟩).link t
  { p with
    muCvNext := p.muCvNext + 1
    mpWaitTail := some t
    muWaitCount := p.muWaitCount + 1
    muInflight := p.muInflight + 1
    arrived := p.arrived ++ [t] }

/-- `acquire_wait` up to the wait: `some r` when it returns `r` at once, `none` when the thread has queued and
parks. -/
def acquireWait (t : τ) (new : Option β) (p : Pool τ β) : Pool τ β × Option (Option β) :=
  match p.acquireNoLock new with
  | (p, some b) => (p, some (some b))
  | (p, none) => if p.mbStopping then (p, some none) else (p.enqueue t, none)

/-- A node is marked done and given a result. -/
def serve (t : τ) (b : Option β) (p : Pool τ β) : Pool τ β :=
  { p.setNode t { p.node t with mpBuf := b, mbDone := true } with served := p.served ++ [(t, b)] }

/-- The part of `try_handoff_no_lock` that takes the oldest waiter out of the queue. -/
def dequeue (t : τ) (p : Pool τ β) : Pool τ β :=
  { p with
    mpWaitHead := (p.node t).mpNext
    mpWaitTail := if (p.node t).mpNext = none then none else p.mpWaitTail
    muWaitCount := p.muWaitCount - 1 }

/-- `try_handoff_no_lock`: the shard of the waiter that was served, or `none` for -1. -/
def tryHandoffNoLock (b : β) (p : Pool τ β) : Option (Pool τ β × Option Shard) :=
  if p.muWaitCount = 0 then some (p, none)
  else
    match p.mpWaitHead with
    | none => none
    | some t =>
      let p := (p.dequeue t).serve t (some b)
      match (p.node t).mpCv with
      | none => none
      | some shard => some (p, some shard)

/-- One buffer of `recycle`: it is handed to a waiter, whose shard is notified, or it is free. -/
def recycleNoLock (b : β) (p : Pool τ β) : Option (Pool τ β × List Shard) :=
  match p.tryHandoffNoLock b with
  | none => none
  | some (p, some shard) => some (p, [shard])
  | some (p, none) => some ({ p with moFree := p.moFree ++ [b] }, [])

/-- `recycle` of a buffer, with the shards it notifies. -/
def recycle (ipBuf : Option β) (p : Pool τ β) : Option (Pool τ β × List Shard) :=
  match ipBuf with
  | none => some (p, [])
  | some b => p.recycleNoLock b

/-- `recycle` of a list of buffers in one critical section, with the shards it notifies. -/
def recycleList : List (Option β) → Pool τ β → Option (Pool τ β × List Shard)
  | [], p => some (p, [])
  | none :: bufs, p => recycleList bufs p
  | some b :: bufs, p =>
    match p.recycleNoLock b with
    | none => none
    | some (p, shards) => (recycleList bufs p).map fun r => (r.1, shards ++ r.2)

/-- The loop of `stop_waiters` over `fuel` nodes at most. -/
def stopLoop : Nat → Pool τ β → Pool τ β
  | 0, p => p
  | fuel + 1, p =>
    match p.mpWaitHead with
    | none => p
    | some t => stopLoop fuel ({ p with mpWaitHead := (p.node t).mpNext }.serve t none)

/-- `stop_waiters`, with the shards it notifies: all of them when it woke a thread. The count bounds its loop. -/
def stopWaiters (p : Pool τ β) : Pool τ β × List Shard :=
  let woke := p.mpWaitHead.isSome
  let p := stopLoop p.muWaitCount { p with mbStopping := true }
  ({ p with mpWaitTail := none, muWaitCount := 0 }, if woke then List.finRange mzWaitCvCount else [])

end

end Pool

end P8
