import P8.Lib.System
import P8.Lib.Account

/-!
# Pools that share a budget

Any number of `cp8_buffer_pool` on one `cp8_memory_budget` (`engine/p8_buffer_pool.cpp`,
`engine/p8_memory_budget.cpp`). A load, a compare-exchange and a subtract of `mu_used` are one step each; between
them a thread keeps the mutex of its pool, and threads on other pools go on. `new` may fail. The waiters of a pool
are a list here.

`Pc` is where a thread is: outside, with the mutex of a pool between the load and the exchange of `try_reserve`,
with the right to a buffer it is about to allocate, with bytes it is about to give back, or waiting. `Use` is the
operation it is in. The counter is a `UInt64`, as in the source, and the sums of the code are taken in it; `Fits` is
its comparison with the maximum.

`reserved` counts, in numbers without a bound, the bytes of the buffers of all live pools, which is what the counter
is compared with in `Pool/Budget.lean`.
-/

namespace P8.Shared
open P8.Lib

variable {π τ β : Type}

/-- `cp8_buffer_pool`. `lent` is a ghost: the buffers given out and not recycled. -/
structure Pool (τ β : Type) where
  mzBufferSize : UInt64
  moAll : List β
  moFree : List β
  lent : List β
  queue : List τ
  mbStopping : Bool

/-- What a buffer is allocated for: `init` with the iterations left after this one, or `acquire_no_lock`, called by
`acquire_wait` or not. -/
inductive Use where
  | init (left : Nat)
  | acquire (wait : Bool)

/-- Where a thread is. -/
inductive Pc (π β : Type) where
  | out
  | init (p : π) (left : Nat)
  | acquire (p : π) (wait : Bool)
  | load (p : π) (use : Use)
  | test (p : π) (use : Use) (lzCurrent : UInt64)
  | alloc (p : π) (use : Use)
  | giveBack (p : π) (use : Use)
  | failed (p : π) (use : Use)
  | parked (p : π)
  | handed (p : π) (r : Option β)
  | destroyed (lzReserved : UInt64)

/-- The pool whose code a thread is in. -/
def Pc.pool : Pc π β → Option π
  | .init p _ | .acquire p _ | .load p _ | .test p _ _ | .alloc p _ | .giveBack p _ | .failed p _ | .parked p
  | .handed p _ => some p
  | .out | .destroyed _ => none

/-- The pool whose `mo_mutex` a thread holds. -/
def Pc.locks : Pc π β → Option π
  | .init p _ | .acquire p _ | .load p _ | .test p _ _ | .alloc p _ | .giveBack p _ | .failed p _ => some p
  | .out | .parked _ | .handed _ _ | .destroyed _ => none

/-- No operation on the budget is in progress: a thread is outside the pools or waits in one. -/
def Pc.quiet : Pc π β → Bool
  | .out | .parked _ | .handed _ _ => true
  | .init _ _ | .acquire _ _ | .load _ _ | .test _ _ _ | .alloc _ _ | .giveBack _ _ | .failed _ _ | .destroyed _ =>
    false

/-- The budget, the pools that are alive, their mutexes and the threads. -/
structure Sys (π τ β : Type) where
  mzMax : UInt64
  muUsed : UInt64
  live : Finset π
  pool : π → Pool τ β
  lock : π → Option τ
  pc : τ → Pc π β

/-- What a step does to `mu_used`. -/
inductive Event where
  | add (izBytes : UInt64)
  | sub (izBytes : UInt64)
  | refused
  | other

section
variable [DecidableEq π] [DecidableEq τ] [DecidableEq β]

namespace Sys

variable (s : Sys π τ β)

/-- A thread goes on. -/
abbrev go (t : τ) (c : Pc π β) : Sys π τ β := { s with pc := Function.update s.pc t c }

/-- A thread takes or leaves the mutex of a pool. -/
abbrev setLock (p : π) (o : Option τ) : Sys π τ β := { s with lock := Function.update s.lock p o }

/-- A pool changes. -/
abbrev setPool (p : π) (q : Pool τ β) : Sys π τ β := { s with pool := Function.update s.pool p q }

/-- A thread leaves the mutex of a pool and goes on. -/
abbrev leave (p : π) (t : τ) (c : Pc π β) : Sys π τ β := (s.setLock p none).go t c

/-- One buffer of `recycle`: the oldest waiter gets it, or it is free. -/
def recycle (p : π) (b : β) : Sys π τ β :=
  match (s.pool p).queue with
  | u :: q => (s.setPool p { s.pool p with queue := q }).go u (.handed p (some b))
  | [] => s.setPool p { s.pool p with moFree := (s.pool p).moFree ++ [b], lent := (s.pool p).lent.erase b }

/-- `stop_waiters`. -/
abbrev stopWaiters (p : π) : Sys π τ β :=
  { s with
    pool := Function.update s.pool p { s.pool p with queue := [], mbStopping := true }
    pc := fun t => if t ∈ (s.pool p).queue then .handed p none else s.pc t }

end Sys

/-- The request fits: not `lz_current > mz_max || mz_max - lz_current < iz_bytes`. -/
def Fits (s : Sys π τ β) (lzCurrent izBytes : UInt64) : Prop :=
  ¬(lzCurrent > s.mzMax ∨ s.mzMax - lzCurrent < izBytes)

/-- The steps of the threads. -/
inductive Step : Sys π τ β → Event → Sys π τ β → Prop
  -- the constructor and init
  | construct {s t p size} : s.pc t = .out → p ∉ s.live →
    Step s .other { s.setPool p ⟨size, [], [], [], [], false⟩ with live := insert p s.live }
  | init {s t p n} : s.pc t = .out → p ∈ s.live → s.lock p = none →
    Step s .other ((s.setLock p (some t)).go t (.init p n))
  | initNext {s t p n} : s.pc t = .init p (n + 1) → Step s .other (s.go t (.load p (.init n)))
  | initDone {s t p} : s.pc t = .init p 0 → Step s .other (s.leave p t .out)
  -- acquire_no_lock between lock and unlock, and acquire_wait
  | acquire {s t p wait} : s.pc t = .out → p ∈ s.live → s.lock p = none →
    Step s .other ((s.setLock p (some t)).go t (.acquire p wait))
  | take {s t p wait b bs} : s.pc t = .acquire p wait → (s.pool p).moFree = b :: bs →
    Step s .other ((s.setPool p { s.pool p with moFree := bs, lent := b :: (s.pool p).lent }).leave p t .out)
  | grow {s t p wait} : s.pc t = .acquire p wait → (s.pool p).moFree = [] →
    Step s .other (s.go t (.load p (.acquire wait)))
  -- try_reserve; the compare-exchange is weak
  | load {s t p use} : s.pc t = .load p use → Step s .other (s.go t (.test p use s.muUsed))
  | refuse {s t p use cur} : s.pc t = .test p use cur → ¬Fits s cur (s.pool p).mzBufferSize →
    Step s .refused (s.go t (.failed p use))
  | swap {s t p use} : s.pc t = .test p use s.muUsed → Fits s s.muUsed (s.pool p).mzBufferSize →
    Step s (.add (s.pool p).mzBufferSize)
      ({ s with muUsed := s.muUsed + (s.pool p).mzBufferSize }.go t (.alloc p use))
  | retry {s t p use cur} : s.pc t = .test p use cur → Fits s cur (s.pool p).mzBufferSize →
    Step s .other (s.go t (.test p use s.muUsed))
  -- new
  | allocInit {s t p n b} : s.pc t = .alloc p (.init n) → (∀ q ∈ s.live, b ∉ (s.pool q).moAll) →
    Step s .other ((s.setPool p { s.pool p with
      moAll := (s.pool p).moAll ++ [b], moFree := (s.pool p).moFree ++ [b] }).go t (.init p n))
  | allocAcquire {s t p wait b} : s.pc t = .alloc p (.acquire wait) → (∀ q ∈ s.live, b ∉ (s.pool q).moAll) →
    Step s .other ((s.setPool p { s.pool p with
      moAll := (s.pool p).moAll ++ [b], moFree := (s.pool p).moFree ++ [b] }).go t (.acquire p wait))
  | allocFails {s t p use} : s.pc t = .alloc p use → Step s .other (s.go t (.giveBack p use))
  | giveBack {s t p use} : s.pc t = .giveBack p use →
    Step s (.sub (s.pool p).mzBufferSize)
      ({ s with muUsed := s.muUsed - (s.pool p).mzBufferSize }.go t (.failed p use))
  -- no buffer: the loop of init ends, acquire_no_lock returns null, acquire_wait parks unless it is stopping
  | none {s t p use} : s.pc t = .failed p use → (use = .acquire true → (s.pool p).mbStopping = true) →
    Step s .other (s.leave p t .out)
  | park {s t p} : s.pc t = .failed p (.acquire true) → (s.pool p).mbStopping = false →
    Step s .other ((s.setPool p { s.pool p with queue := (s.pool p).queue ++ [t] }).leave p t (.parked p))
  | ret {s t p r} : s.pc t = .handed p r → Step s .other (s.go t .out)
  -- recycle of one buffer or of a list, of buffers that were given out
  | recycle {s t p} {bs : List β} : s.pc t = .out → p ∈ s.live → s.lock p = none → bs.Nodup →
    (∀ b ∈ bs, b ∈ (s.pool p).lent) → Step s .other (bs.foldl (fun s b => s.recycle p b) s)
  | stop {s t p} : s.pc t = .out → p ∈ s.live → s.lock p = none → Step s .other (s.stopWaiters p)
  -- the destructor, after its barrier
  | destroy {s t p} : s.pc t = .out → p ∈ s.live → (∀ u, (s.pc u).pool ≠ some p) →
    Step s .other ({ s.setPool p ⟨(s.pool p).mzBufferSize, [], [], [], [], false⟩ with live := s.live.erase p }.go t
      (.destroyed (UInt64.ofNat (s.pool p).moAll.length * (s.pool p).mzBufferSize)))
  | release {s t n} : s.pc t = .destroyed n → n > 0 →
    Step s (.sub n) ({ s with muUsed := s.muUsed - n }.go t .out)
  | nothing {s t} : s.pc t = .destroyed 0 → Step s .other (s.go t .out)

end

/-- A budget and no pool yet. -/
def system [DecidableEq π] [DecidableEq τ] [DecidableEq β] : System (Sys π τ β) Event where
  start s := s.muUsed = 0 ∧ s.live = ∅ ∧ (∀ p, s.lock p = none) ∧ ∀ t, s.pc t = .out
  step := Step

/-- What a live pool took from the budget. -/
def reserved (s : Sys π τ β) (p : π) : Nat := (s.pool p).moAll.length * (s.pool p).mzBufferSize.toNat

end P8.Shared
