import P8.Lib.System
import P8.Pool.Queue

/-!
# Teardown of a pool

Any number of calls of a pool's operations beside its destructor (`engine/p8_buffer_pool.cpp`). What a call does in
one go while it holds `mo_mutex` is a step. Taking and releasing the mutex are steps of their own, and so are the
turns of the wait in `acquire_wait` and all that a woken waiter does on its way out. Allocations may fail.

`Barrier` is what holds in every state: `mu_inflight` counts the calls that are still to come out, a node that is
done is off the queue, also between two turns of the loops of `recycle` and `stop_waiters`, and the nodes on the
queue belong to calls that are there. When the destructor has left its loop, everybody who ever queued is out. It is
proved of every state of every run, with what is more: from then on none of these calls takes a step
(`teardown_barrier`).

The queue is that of `Pool/Queue.lean`, whose invariant asks for a pool without stock while somebody waits. With
allocations that fail this is not so; `dry` is the pool as its queue sees it, and the lemmas `dry_...` carry each
operation over. `Tended` is what an operation leaves of queue and nodes, `Inv` the invariant with the stage of each
call (`Stage`). Its lemmas are about one actor's step, from `Inv.take` and `Inv.give` for the mutex to
`Inv.decrement` for the last one.
-/

namespace P8.Teardown
open P8.Lib

variable {τ β : Type}

/-- An operation of the pool that is called; `new` is the outcome of its allocation. -/
inductive Op (β : Type) where
  | acquireNoLock (new : Option β)
  | acquireWait (new : Option β)
  | recycle (ipBuf : Option β)
  | recycleList (ioBufs : List (Option β))
  | stopWaiters

/-- Where a call is. -/
inductive Pc (β : Type) where
  /-- It has not begun, or waits for the mutex, or has it. -/
  | idle
  | enters (op : Op β)
  | inside (op : Op β)
  /-- It is queued: in the wait with the mutex, about to test its node, or parked, or woken and without the mutex. -/
  | looks
  | asleep
  | awake
  /-- It is out of the wait and reads `mp_buf`, and then has its result. -/
  | reads
  | served (lpResult : Option β)
  /-- `unlock` has given the mutex free and goes on, and then has returned. -/
  | unlocks (lpResult : Option β)
  | unlocked (lpResult : Option β)
  /-- It has decremented `mu_inflight`. -/
  | left (lpResult : Option β)
  /-- It did not queue: it is about to unlock with its result, and then has returned. -/
  | exits (lpResult : Option β)
  | returned (lpResult : Option β)

/-- Where the destructor is: not called; before, in and at the end of the critical section of `stop_waiters`; in the
spin loop; past it, before and in the critical section that frees the buffers, and at its end; done. -/
inductive Dtor where
  | alive
  | enters
  | inside
  | exits
  | spins
  | leaves
  | frees
  | freed
  | gone
  deriving DecidableEq

/-- Who takes a step. -/
inductive Actor (τ : Type) where
  | call (t : τ)
  | destructor

/-- A pool with its mutex, the calls and the destructor. Each call has a node of its own. -/
structure Sys (τ β : Type) where
  pool : Pool τ β
  moMutex : Option (Actor τ)
  pc : τ → Pc β
  dtor : Dtor

/-- `notify_all` on some shards: the calls that are parked on them wake. -/
def notify (shards : List Shard) (p : Pool τ β) (pc : τ → Pc β) (t : τ) : Pc β :=
  match pc t with
  | .asleep => if (p.node t).mpCv.any shards.contains then .awake else .asleep
  | c => c

/-- The destructor's last critical section: the buffers are freed and their bytes go back to the budget. -/
def free (p : Pool τ β) : Pool τ β :=
  let lzReserved := p.moAll.length * p.mzBufferSize
  { p with
    moAll := []
    moFree := []
    mpBudget := if lzReserved > 0 then p.mpBudget.map (·.release lzReserved) else p.mpBudget }

section
variable [DecidableEq τ]

/-- What a call does with the mutex held up to its unlock or its wait, with the shards it notifies. -/
def Op.run (t : τ) (p : Pool τ β) : Op β → Option (Pool τ β × List Shard × Pc β)
  | .acquireNoLock new => some ((p.acquireNoLock new).1, [], .exits (p.acquireNoLock new).2)
  | .acquireWait new =>
    match p.acquireWait t new with
    | (p, some r) => some (p, [], .exits r)
    | (p, none) => some (p, [], .looks)
  | .recycle b => (p.recycle b).map fun r => (r.1, r.2, .exits none)
  | .recycleList bufs => (p.recycleList bufs).map fun r => (r.1, r.2, .exits none)
  | .stopWaiters => some (p.stopWaiters.1, p.stopWaiters.2, .exits none)

/-- A call goes on. -/
def Sys.go (s : Sys τ β) (t : τ) (c : Pc β) : Sys τ β := { s with pc := Function.update s.pc t c }

/-- The steps of the calls and of the destructor. -/
inductive Step : Sys τ β → Actor τ → Sys τ β → Prop
  | enter {s : Sys τ β} {t : τ} {op : Op β} : s.pc t = .idle → Step s (.call t) (s.go t (.enters op))
  | lock {s : Sys τ β} {t : τ} {op : Op β} : s.pc t = .enters op → s.moMutex = none →
    Step s (.call t) ({ s with moMutex := some (.call t) }.go t (.inside op))
  | run {s : Sys τ β} {t : τ} {op : Op β} {p : Pool τ β} {shards : List Shard} {c : Pc β} : s.pc t = .inside op →
    op.run t s.pool = some (p, shards, c) →
    Step s (.call t) ({ s with pool := p, pc := notify shards s.pool s.pc }.go t c)
  | unlock {s : Sys τ β} {t : τ} {r : Option β} : s.pc t = .exits r →
    Step s (.call t) ({ s with moMutex := none }.go t (.returned r))
  -- the wait
  | sleep {s : Sys τ β} {t : τ} : s.pc t = .looks → (s.pool.node t).mbDone = false →
    Step s (.call t) ({ s with moMutex := none }.go t .asleep)
  | wake {s : Sys τ β} {t : τ} : s.pc t = .asleep → Step s (.call t) (s.go t .awake)
  | relock {s : Sys τ β} {t : τ} : s.pc t = .awake → s.moMutex = none →
    Step s (.call t) ({ s with moMutex := some (.call t) }.go t .looks)
  -- the way out
  | done {s : Sys τ β} {t : τ} : s.pc t = .looks → (s.pool.node t).mbDone = true → Step s (.call t) (s.go t .reads)
  | read {s : Sys τ β} {t : τ} : s.pc t = .reads → Step s (.call t) (s.go t (.served (s.pool.node t).mpBuf))
  | release {s : Sys τ β} {t : τ} {r : Option β} : s.pc t = .served r →
    Step s (.call t) ({ s with moMutex := none }.go t (.unlocks r))
  | unlocked {s : Sys τ β} {t : τ} {r : Option β} : s.pc t = .unlocks r → Step s (.call t) (s.go t (.unlocked r))
  | decrement {s : Sys τ β} {t : τ} {r : Option β} : s.pc t = .unlocked r →
    Step s (.call t) ({ s with pool := { s.pool with muInflight := s.pool.muInflight - 1 } }.go t (.left r))
  -- the destructor: stop_waiters
  | destroy {s : Sys τ β} : s.dtor = .alive → Step s .destructor { s with dtor := .enters }
  | lockStop {s : Sys τ β} : s.dtor = .enters → s.moMutex = none →
    Step s .destructor { s with moMutex := some .destructor, dtor := .inside }
  | stop {s : Sys τ β} : s.dtor = .inside →
    Step s .destructor { s with
      pool := s.pool.stopWaiters.1
      pc := notify s.pool.stopWaiters.2 s.pool s.pc
      dtor := .exits }
  | unlockStop {s : Sys τ β} : s.dtor = .exits → Step s .destructor { s with moMutex := none, dtor := .spins }
  -- the spin loop
  | spin {s : Sys τ β} : s.dtor = .spins → s.pool.muInflight ≠ 0 → Step s .destructor s
  | leave {s : Sys τ β} : s.dtor = .spins → s.pool.muInflight = 0 → Step s .destructor { s with dtor := .leaves }
  -- the buffers
  | lockFree {s : Sys τ β} : s.dtor = .leaves → s.moMutex = none →
    Step s .destructor { s with moMutex := some .destructor, dtor := .frees }
  | free {s : Sys τ β} : s.dtor = .frees → Step s .destructor { s with pool := free s.pool, dtor := .freed }
  | unlockFree {s : Sys τ β} : s.dtor = .freed → Step s .destructor { s with moMutex := none, dtor := .gone }

/-- A pool on which `init` was called, with whatever outcomes of its allocations. -/
def system (τ β : Type) [DecidableEq τ] : System (Sys τ β) (Actor τ) where
  start s := ∃ (izBufferSize : Nat) (ipBudget : Option Budget) (news : List (Option β)),
    s = ⟨(Pool.ctor izBufferSize ipBudget).init news, none, fun _ => .idle, .alive⟩
  step := Step

end

/-- How far a call has come as a waiter. -/
inductive Stage where
  | outside
  | waiting
  | leaving
  | left
  deriving DecidableEq

/-- The stage of a call. -/
def Pc.stage : Pc β → Stage
  | .idle | .enters _ | .inside _ | .exits _ | .returned _ => .outside
  | .looks | .asleep | .awake => .waiting
  | .reads | .served _ | .unlocks _ | .unlocked _ => .leaving
  | .left _ => .left

/-- The call has the mutex. -/
def Pc.holds : Pc β → Bool
  | .inside _ | .looks | .reads | .served _ | .exits _ => true
  | _ => false

/-- The destructor has the mutex. -/
def Dtor.holds : Dtor → Bool
  | .inside | .exits | .frees | .freed => true
  | _ => false

/-- The destructor has stopped the waiters. -/
def Dtor.stopped : Dtor → Bool
  | .alive | .enters | .inside => false
  | _ => true

/-- The destructor has left its spin loop. -/
def Dtor.drained : Dtor → Bool
  | .leaves | .frees | .freed | .gone => true
  | _ => false

/-- No node that is marked done is met from the head of the queue. -/
def Unlinked (p : Pool τ β) : Prop :=
  ∀ t, (p.node t).mbDone = true → ¬Reaches (fun u => (p.node u).mpNext) p.mpWaitHead t

/-- The barrier between the waiters and the destructor. -/
structure Barrier [DecidableEq τ] (s : Sys τ β) : Prop where
  /-- `mu_inflight` counts the calls that queued and have not done their final decrement; each queued once. -/
  inflight : s.pool.muInflight = (s.pool.arrived.filter fun t => (s.pc t).stage ≠ .left).length
  once : s.pool.arrived.Nodup
  queued : ∀ t, t ∈ s.pool.arrived ↔ (s.pc t).stage ≠ .outside
  /-- A node is off the queue once it is marked done, and what is on the queue is the node of a call in the wait. -/
  unlinked : Unlinked s.pool
  tail : ∀ t, (s.pool.node t).mbDone = true → s.pool.mpWaitTail ≠ some t
  alive : ∀ t, Reaches (fun u => (s.pool.node u).mpNext) s.pool.mpWaitHead t → (s.pc t).stage = .waiting
  /-- So it is between two buffers of a critical section of `recycle`, and between two turns of the loop of
  `stop_waiters`. -/
  handedOff : ∀ bufs p shards, s.pool.recycleList bufs = some (p, shards) → Unlinked p
  stopping : ∀ turns, Unlinked (Pool.stopLoop turns { s.pool with mbStopping := true })
  /-- When the destructor has left its loop, every call that ever queued has released the mutex and is out. -/
  drained : s.dtor.drained = true → ∀ t ∈ s.pool.arrived, (s.pc t).stage = .left ∧ s.moMutex ≠ some (.call t)

section Dry

variable {p p' : Pool τ β} {q : List τ}

/-- The pool as its queue sees it: with nothing free and no room, which is so whenever a call queues on a pool whose
allocations succeed. -/
def dry (p : Pool τ β) : Pool τ β := { p with moFree := [], mpBudget := some ⟨0, 0⟩, mzBufferSize := 1, moAll := [] }

/-- A pool without stock has no room. -/
lemma dry_room (p : Pool τ β) : (dry p).tryReserve.2 = false := rfl

/-- The queue does not depend on the stock. -/
lemma queued_dry (h : p.Queued q) : (dry p).Queued q :=
  ⟨h.linked, h.count, h.waits, fun _ => ⟨rfl, dry_room p⟩, h.order, h.stopped⟩

/-- Pools that are the same up to the stock. -/
lemma dry_eq (h : dry p' = dry p) : p'.node = p.node ∧ p'.arrived = p.arrived ∧ p'.muInflight = p.muInflight ∧
    p'.mbStopping = p.mbStopping := by
  simp only [dry, Pool.mk.injEq] at h
  obtain ⟨-, -, -, -, -, -, -, hs, -, hi, hn, ha, -⟩ := h
  exact ⟨hn, ha, hi, hs⟩

/-- A reservation and its release are about the stock alone. -/
lemma dry_tryReserve (p : Pool τ β) : dry p.tryReserve.1 = dry p := by
  rw [Pool.tryReserve_fields]
  rfl

/-- The preallocation leaves the queue as it is. -/
lemma dry_init (news : List (Option β)) (p : Pool τ β) : dry (p.init news) = dry p := by
  induction news generalizing p with
  | nil => rfl
  | cons new news ih =>
    have hp := dry_tryReserve p
    rw [Pool.init]
    split
    · rename_i p' e
      rw [e] at hp
      exact hp
    · rename_i p' e
      rw [e] at hp
      cases new with
      | none => exact hp
      | some b => exact (ih _).trans hp

/-- So does taking a buffer. -/
lemma dry_acquireNoLock (new : Option β) (p : Pool τ β) : dry (p.acquireNoLock new).1 = dry p := by
  have hp := dry_tryReserve p
  unfold Pool.acquireNoLock
  split
  · rfl
  · split
    · rename_i p' e
      rw [e] at hp
      exact hp
    · rename_i p' e
      rw [e] at hp
      cases new with
      | none => exact hp
      | some b => exact hp

/-- So does the end of the destructor. -/
lemma dry_free (p : Pool τ β) : dry (free p) = dry p := rfl

variable [DecidableEq τ]

/-- A call queues, whatever is in stock. -/
lemma dry_enqueue (p : Pool τ β) (t : τ) : dry (p.enqueue t) = (dry p).enqueue t := by
  show dry (p.enqueue t) = _
  cases h : p.mpWaitTail with
  | none => simp only [Pool.enqueue, Pool.link, Pool.setNode, dry, h, Pool.nextShard]
  | some u => simp only [Pool.enqueue, Pool.link, Pool.setNode, dry, h, Pool.nextShard]

/-- The turns of the loop of `stop_waiters` do not read the stock. -/
lemma dry_stopLoop (fuel : Nat) (p : Pool τ β) : dry (Pool.stopLoop fuel p) = Pool.stopLoop fuel (dry p) := by
  induction fuel generalizing p with
  | zero => rfl
  | succ fuel ih =>
    cases h : p.mpWaitHead with
    | none =>
      have h' : (dry p).mpWaitHead = none := h
      simp only [Pool.stopLoop, h, h']
    | some t =>
      have h' : (dry p).mpWaitHead = some t := h
      simp only [Pool.stopLoop, h, h']
      exact ih _

/-- Nor does `stop_waiters` as a whole. -/
lemma dry_stopWaiters (p : Pool τ β) :
    dry p.stopWaiters.1 = (dry p).stopWaiters.1 ∧ p.stopWaiters.2 = (dry p).stopWaiters.2 := by
  refine ⟨?_, rfl⟩
  have e := dry_stopLoop p.muWaitCount { p with mbStopping := true }
  have e' := congrArg (fun p : Pool τ β => ({ p with mpWaitTail := none, muWaitCount := 0 } : Pool τ β)) e
  exact e'

/-- Recycling one buffer, up to the stock. -/
lemma dry_recycleNoLock (b : β) (p : Pool τ β) :
    (p.recycleNoLock b).map (fun r => (dry r.1, r.2)) = ((dry p).recycleNoLock b).map (fun r => (dry r.1, r.2)) := by
  by_cases hc : p.muWaitCount = 0
  · have hc' : (dry p).muWaitCount = 0 := hc
    simp only [Pool.recycleNoLock, Pool.tryHandoffNoLock, hc, hc', if_true]
    rfl
  · have hc' : (dry p).muWaitCount ≠ 0 := hc
    simp only [Pool.recycleNoLock, Pool.tryHandoffNoLock, if_neg hc, if_neg hc']
    cases hh : p.mpWaitHead with
    | none =>
      have hh' : (dry p).mpWaitHead = none := hh
      simp only [hh']
    | some t =>
      have hh' : (dry p).mpWaitHead = some t := hh
      have hcv : (((dry p).dequeue t).node t).mpCv = ((p.dequeue t).node t).mpCv := rfl
      simp only [hh', Pool.serve_node_self, hcv]
      cases ((p.dequeue t).node t).mpCv with
      | none => rfl
      | some shard => rfl

/-- Recycling a list, up to the stock. -/
lemma dry_recycleList (bufs : List (Option β)) (h : dry p = dry p') :
    (p.recycleList bufs).map (fun r => (dry r.1, r.2)) = (p'.recycleList bufs).map (fun r => (dry r.1, r.2)) := by
  induction bufs generalizing p p' with
  | nil => simp only [Pool.recycleList, Option.map_some, h]
  | cons x bufs ih =>
    cases x with
    | none => exact ih h
    | some b =>
      have hb : (p.recycleNoLock b).map (fun r => (dry r.1, r.2))
          = (p'.recycleNoLock b).map (fun r => (dry r.1, r.2)) := by
        rw [dry_recycleNoLock b p, dry_recycleNoLock b p', h]
      simp only [Pool.recycleList]
      cases e : p.recycleNoLock b with
      | none =>
        rw [e] at hb
        cases e' : p'.recycleNoLock b with
        | none => rfl
        | some r' =>
          rw [e'] at hb
          cases hb
      | some r =>
        rw [e] at hb
        cases e' : p'.recycleNoLock b with
        | none =>
          rw [e'] at hb
          cases hb
        | some r' =>
          rw [e', Option.map_some, Option.map_some, Option.some.injEq, Prod.mk.injEq] at hb
          have hl := ih hb.1
          have hm := congrArg (Option.map fun x : Pool τ β × List Shard => (x.1, r'.2 ++ x.2)) hl
          simp only [Option.map_map] at hm ⊢
          rw [hb.2]
          exact hm

end Dry

section Unlinked

variable {p : Pool τ β} {q : List τ}

/-- Where just the nodes of a chain are met and none of them is marked done, no node marked done is met. -/
lemma Unlinked.of_chain (h : Chain (fun t => (p.node t).mpNext) p.mpWaitHead q)
    (hw : ∀ t ∈ q, (p.node t).mbDone = false) : Unlinked p := by
  intro t hd hr
  have hf := hw t (h.reaches_iff.mp hr)
  rw [hd] at hf
  cases hf

/-- What is on the queue is not done. -/
lemma Unlinked.of_queued (h : (dry p).Queued q) : Unlinked p := .of_chain h.linked.chain fun t ht => (h.waits t ht).1

/-- Each turn of the loop of `stop_waiters` takes the first node off the queue and marks it. -/
lemma stopLoop_turn [DecidableEq τ] (turns : Nat) (h : Chain (fun t => (p.node t).mpNext) p.mpWaitHead q)
    (hq : q.Nodup) (hw : ∀ t ∈ q, (p.node t).mbDone = false) : Unlinked (Pool.stopLoop turns p) := by
  induction turns generalizing p q with
  | zero => exact .of_chain h hw
  | succ turns ih =>
    cases q with
    | nil =>
      have hn : p.mpWaitHead = none := h
      simp only [Pool.stopLoop, hn]
      exact .of_chain h hw
    | cons t q =>
      have hs : p.mpWaitHead = some t := h.1
      rw [List.nodup_cons] at hq
      simp only [Pool.stopLoop, hs]
      apply ih (q := q)
      · exact h.2.congr fun u _ => Pool.serve_next { p with mpWaitHead := (p.node t).mpNext } t u none
      · exact hq.2
      · intro u hu
        have hne : u ≠ t := by
          rintro rfl
          exact hq.1 hu
        rw [Pool.serve_node_of_ne _ _ hne]
        exact hw u (List.mem_cons_of_mem _ hu)

end Unlinked

/-- An operation that queues no call: the queue is still that of the calls in the wait whose nodes are not marked
done, whatever calls are in the wait. -/
structure Tended (p : Pool τ β) (q : List τ) (p' : Pool τ β) (q' : List τ) : Prop where
  queued : (dry p').Queued q'
  waiting : ∀ W : τ → Prop, (∀ t, t ∈ q ↔ W t ∧ (p.node t).mbDone = false) →
    ∀ t, t ∈ q' ↔ W t ∧ (p'.node t).mbDone = false
  arrived : p'.arrived = p.arrived
  inflight : p'.muInflight = p.muInflight
  stopping : p.mbStopping = true → p'.mbStopping = true

section Tended

variable {p p' : Pool τ β} {q : List τ}

/-- A change of the stock. -/
lemma Tended.of_dry (h : (dry p).Queued q) (e : dry p' = dry p) : Tended p q p' q := by
  obtain ⟨hn, ha, hi, hs⟩ := dry_eq e
  refine ⟨e ▸ h, fun W hW t => ?_, ha, hi, hs.trans⟩
  rw [hn]
  exact hW t

variable [DecidableEq τ]

/-- Recycled buffers: the calls that get them are off the queue and marked done. -/
lemma Tended.of_delivered {bs : List β} {p₁ : Pool τ β} {shards : List Shard} (h : (dry p).Queued q)
    (hd : Pool.Delivered q bs (dry p) p₁ shards) (e : dry p' = dry p₁) : Tended p q p' (q.drop bs.length) := by
  obtain ⟨hn, ha, hi, hs⟩ := dry_eq e
  refine ⟨e ▸ queued_dry hd.queued, fun W hW t => ?_, ha.trans hd.stock.arrived, hi.trans hd.stock.inflight,
    (hs.trans hd.stopping).trans⟩
  rw [hn]
  by_cases ht : t ∈ q.take bs.length
  · have hnot : t ∉ q.drop bs.length := List.disjoint_take_drop h.linked.nodup (Nat.le_refl _) ht
    simp only [hnot, (hd.handed ht).1, Bool.true_eq_false, and_false]
  · rw [Pool.mem_drop_iff ht, hd.others t ht]
    exact hW t

/-- A list is recycled without a null pointer being followed. -/
lemma Tended.recycleList (h : (dry p).Queued q) (bufs : List (Option β)) :
    ∃ p' shards q', p.recycleList bufs = some (p', shards) ∧ Tended p q p' q' := by
  obtain ⟨p₁, shards₁, e₁, hd⟩ := Pool.recycleList_spec h bufs
  have hmap := dry_recycleList bufs (show dry p = dry (dry p) from rfl)
  rw [e₁, Option.map_some, Option.map_eq_some_iff] at hmap
  obtain ⟨⟨p', shards⟩, e, he⟩ := hmap
  exact ⟨p', shards, _, e, .of_delivered h hd (congrArg Prod.fst he)⟩

/-- A buffer is recycled as a list of one. -/
lemma recycle_eq (b : Option β) (p : Pool τ β) : p.recycle b = p.recycleList [b] := by
  cases b with
  | none => rfl
  | some b =>
    simp only [Pool.recycle, Pool.recycleList]
    cases p.recycleNoLock b with
    | none => rfl
    | some r => simp only [Option.map_some, List.append_nil]

/-- Stopping: all are off the queue and marked done. -/
lemma Tended.stopWaiters (h : (dry p).Queued q) :
    Tended p q p.stopWaiters.1 [] ∧ p.stopWaiters.1.mbStopping = true := by
  obtain ⟨hq, hw, -⟩ := h.stopWaiters
  have e : dry p.stopWaiters.1 = dry (dry p).stopWaiters.1 := by
    rw [← (dry_stopWaiters p).1]
    rfl
  obtain ⟨hn, ha, hi, hs⟩ := dry_eq e
  have hst : p.stopWaiters.1.mbStopping = true := hs.trans hw.stopping
  refine ⟨⟨e ▸ queued_dry hq, fun W hW t => ⟨nofun, ?_⟩, ha.trans hw.stock.arrived, hi.trans hw.stock.inflight,
    fun _ => hst⟩, hst⟩
  rintro ⟨ht, hd⟩
  rw [hn] at hd
  by_cases hm : t ∈ q
  · rw [(hw.marked t hm).2] at hd
    cases hd
  · rw [hw.others t hm] at hd
    exact absurd ((hW t).mpr ⟨ht, hd⟩) hm

end Tended

/-- What every step keeps: the calls `q` are queued. -/
structure Inv (s : Sys τ β) (q : List τ) : Prop where
  queued : (dry s.pool).Queued q
  waiting : ∀ t, t ∈ q ↔ (s.pc t).stage = .waiting ∧ (s.pool.node t).mbDone = false
  once : s.pool.arrived.Nodup
  arrived : ∀ t, t ∈ s.pool.arrived ↔ (s.pc t).stage ≠ .outside
  inflight : s.pool.muInflight = (s.pool.arrived.filter fun t => (s.pc t).stage ≠ .left).length
  calls : ∀ t, s.moMutex = some (.call t) ↔ (s.pc t).holds = true
  destructor : s.moMutex = some .destructor ↔ s.dtor.holds = true
  stopped : s.dtor.stopped = true → s.pool.mbStopping = true
  drained : s.dtor.drained = true → ∀ t ∈ s.pool.arrived, (s.pc t).stage = .left

/-- A notification wakes calls; they stay in the wait. -/
lemma notify_stage (shards : List Shard) (p : Pool τ β) (pc : τ → Pc β) (t : τ) :
    (notify shards p pc t).stage = (pc t).stage ∧ (notify shards p pc t).holds = (pc t).holds := by
  unfold notify
  split
  · rename_i h
    rw [h]
    split <;> exact ⟨rfl, rfl⟩
  · exact ⟨rfl, rfl⟩

/-- Only what has stopped the waiters has left the spin loop. -/
lemma Dtor.stopped_of_drained {d : Dtor} (h : d.drained = true) : d.stopped = true := by
  cases d <;> first | rfl | cases h

section Inv

variable {s : Sys τ β} {q : List τ}

/-- The destructor goes on, with or without the mutex. -/
lemma Inv.destruct (h : Inv s q) {m : Option (Actor τ)} {d : Dtor}
    (hc : ∀ t, m = some (.call t) ↔ s.moMutex = some (.call t)) (hd : m = some .destructor ↔ d.holds = true)
    (hs : d.stopped = true → s.pool.mbStopping = true)
    (hl : d.drained = true → s.pool.muInflight = 0 ∨ s.dtor.drained = true) :
    Inv { s with moMutex := m, dtor := d } q := by
  refine ⟨h.queued, h.waiting, h.once, h.arrived, h.inflight, fun t => (hc t).trans (h.calls t), hd, hs,
    fun hdr t ht => ?_⟩
  rcases hl hdr with h0 | hdr
  · by_contra hne
    have hi := h.inflight
    rw [h0] at hi
    have hnil := List.eq_nil_of_length_eq_zero hi.symm
    have hm : t ∈ s.pool.arrived.filter fun t => (s.pc t).stage ≠ .left :=
      List.mem_filter.mpr ⟨ht, decide_eq_true hne⟩
    rw [hnil] at hm
    cases hm
  · exact h.drained hdr t ht

/-- An operation that queues no call. -/
lemma Inv.tend (h : Inv s q) {p : Pool τ β} {q' : List τ} (hp : Tended s.pool q p q') :
    Inv { s with pool := p } q' := by
  refine ⟨hp.queued, fun t => hp.waiting (fun t => (s.pc t).stage = .waiting) h.waiting t, ?_, fun t => ?_, ?_,
    h.calls, h.destructor, fun hs => hp.stopping (h.stopped hs), fun hd t ht => ?_⟩
  · rw [hp.arrived]
    exact h.once
  · rw [hp.arrived]
    exact h.arrived t
  · rw [hp.arrived, hp.inflight]
    exact h.inflight
  · rw [hp.arrived] at ht
    exact h.drained hd t ht

/-- A notification. -/
lemma Inv.notified (h : Inv s q) (shards : List Shard) (p : Pool τ β) :
    Inv { s with pc := notify shards p s.pc } q := by
  have hst : ∀ t, (notify shards p s.pc t).stage = (s.pc t).stage := fun t => (notify_stage shards p s.pc t).1
  refine ⟨h.queued, fun t => ?_, h.once, fun t => ?_, ?_, fun t => ?_, h.destructor, h.stopped, fun hd t ht => ?_⟩
  · rw [hst]
    exact h.waiting t
  · rw [hst]
    exact h.arrived t
  · simp only [hst]
    exact h.inflight
  · rw [(notify_stage shards p s.pc t).2]
    exact h.calls t
  · rw [hst]
    exact h.drained hd t ht

variable [DecidableEq τ]

/-- A call goes on in its stage, or out of the wait when its node is marked done; the mutex may change hands between
the call and no one. -/
lemma Inv.go (h : Inv s q) {t : τ} {c : Pc β} {m : Option (Actor τ)}
    (hw : c.stage = .waiting ∧ (s.pool.node t).mbDone = false ↔
      (s.pc t).stage = .waiting ∧ (s.pool.node t).mbDone = false)
    (ho : c.stage = .outside ↔ (s.pc t).stage = .outside) (hl : c.stage = .left ↔ (s.pc t).stage = .left)
    (ht : m = some (.call t) ↔ c.holds = true) (hm : ∀ a, a ≠ .call t → (m = some a ↔ s.moMutex = some a)) :
    Inv ({ s with moMutex := m }.go t c) q := by
  have hleft : ∀ u, (Function.update s.pc t c u).stage = .left ↔ (s.pc u).stage = .left := by
    intro u
    by_cases e : u = t
    · rw [e, Function.update_self]
      exact hl
    · rw [Function.update_of_ne e]
  refine ⟨h.queued, fun u => ?_, h.once, fun u => ?_, ?_, fun u => ?_, (hm .destructor nofun).trans h.destructor,
    h.stopped, fun hd u hu => (hleft u).mpr (h.drained hd u hu)⟩
  · by_cases e : u = t
    · rw [e]
      simp only [Sys.go, Function.update_self]
      exact (h.waiting t).trans hw.symm
    · simp only [Sys.go, Function.update_of_ne e]
      exact h.waiting u
  · by_cases e : u = t
    · rw [e]
      simp only [Sys.go, Function.update_self]
      exact (h.arrived t).trans (not_congr ho.symm)
    · simp only [Sys.go, Function.update_of_ne e]
      exact h.arrived u
  · simp only [Sys.go, ne_eq, hleft]
    exact h.inflight
  · by_cases e : u = t
    · rw [e]
      simp only [Sys.go, Function.update_self]
      exact ht
    · simp only [Sys.go, Function.update_of_ne e]
      exact (hm (.call u) fun he => e (Actor.call.inj he)).trans (h.calls u)

/-- A call goes on and keeps the mutex, or goes on without. -/
lemma Inv.keep (h : Inv s q) {t : τ} {c c' : Pc β} (hc : s.pc t = c) (hs : c'.stage = c.stage)
    (hh : c'.holds = c.holds) : Inv (s.go t c') q := by
  apply h.go (m := s.moMutex)
  · rw [hc, hs]
  · rw [hc, hs]
  · rw [hc, hs]
  · rw [hh, ← hc]
    exact h.calls t
  · exact fun _ _ => .rfl

/-- A call takes the mutex. -/
lemma Inv.take (h : Inv s q) {t : τ} {c c' : Pc β} (hc : s.pc t = c) (hs : c'.stage = c.stage)
    (hm : s.moMutex = none) (hh : c'.holds = true) : Inv ({ s with moMutex := some (.call t) }.go t c') q := by
  apply h.go
  · rw [hc, hs]
  · rw [hc, hs]
  · rw [hc, hs]
  · exact iff_of_true rfl hh
  · intro a ha
    rw [hm]
    exact iff_of_false (fun e => ha (Option.some.inj e).symm) nofun

/-- A call gives the mutex free. -/
lemma Inv.give (h : Inv s q) {t : τ} {c c' : Pc β} (hc : s.pc t = c) (hs : c'.stage = c.stage)
    (hh : c.holds = true) (hh' : c'.holds = false) : Inv ({ s with moMutex := none }.go t c') q := by
  apply h.go
  · rw [hc, hs]
  · rw [hc, hs]
  · rw [hc, hs]
  · rw [hh']
    exact iff_of_false nofun Bool.false_ne_true
  · intro a ha
    have hm : s.moMutex = some (.call t) := (h.calls t).mpr (hc ▸ hh)
    rw [hm]
    exact iff_of_false nofun fun e => ha (Option.some.inj e).symm

/-- A call whose node is marked done goes out of the wait with the mutex. -/
lemma Inv.wayOut (h : Inv s q) {t : τ} (hc : s.pc t = .looks) (hd : (s.pool.node t).mbDone = true) :
    Inv (s.go t .reads) q := by
  apply h.go (m := s.moMutex)
  · rw [hd]
    exact iff_of_false (fun hw => Bool.true_eq_false.mp hw.2) fun hw => Bool.true_eq_false.mp hw.2
  · rw [hc]
    exact iff_of_false nofun nofun
  · rw [hc]
    exact iff_of_false nofun nofun
  · rw [h.calls t, hc]
    exact iff_of_true rfl rfl
  · exact fun _ _ => .rfl

/-- A call queues behind the others and is in flight. -/
lemma Inv.park (h : Inv s q) {t : τ} {op : Op β} (hc : s.pc t = .inside op) (hs : s.pool.mbStopping = false) :
    Inv ({ s with pool := s.pool.enqueue t }.go t .looks) (q ++ [t]) := by
  have hout : t ∉ s.pool.arrived := by
    intro ht
    have hne := (h.arrived t).mp ht
    rw [hc] at hne
    exact hne rfl
  have hnot : t ∉ q := by
    intro ht
    have hw := ((h.waiting t).mp ht).1
    rw [hc] at hw
    cases hw
  have hlive : s.dtor.stopped ≠ true := by
    intro hd
    rw [h.stopped hd] at hs
    cases hs
  obtain ⟨hq, hself, hother⟩ := h.queued.enqueue hnot rfl (dry_room s.pool) hs
  have e : dry (s.pool.enqueue t) = dry ((dry s.pool).enqueue t) := by
    rw [← dry_enqueue]
    rfl
  obtain ⟨hn, -⟩ := dry_eq e
  have ha := (s.pool.enqueue_fields t).2
  have hi := s.pool.enqueue_inflight t
  refine ⟨e ▸ queued_dry hq, fun u => ?_, ?_, fun u => ?_, ?_, fun u => ?_, h.destructor,
    fun hd => absurd hd hlive, fun hd => absurd (Dtor.stopped_of_drained hd) hlive⟩
  · simp only [Sys.go, hn, List.mem_append, List.mem_singleton]
    by_cases e : u = t
    · rw [e, hself.2.1, Pool.setNode_self, Function.update_self]
      exact iff_of_true (.inr rfl) ⟨rfl, rfl⟩
    · rw [Function.update_of_ne e, (hother u e).2.1, or_iff_left e]
      exact h.waiting u
  · simp only [Sys.go, ha]
    rw [List.nodup_append]
    refine ⟨h.once, List.nodup_singleton t, fun a hm b hb => ?_⟩
    rw [List.mem_singleton.mp hb]
    rintro rfl
    exact hout hm
  · simp only [Sys.go, ha, List.mem_append, List.mem_singleton]
    by_cases e : u = t
    · rw [e, Function.update_self]
      exact iff_of_true (.inr rfl) nofun
    · rw [Function.update_of_ne e, or_iff_left e]
      exact h.arrived u
  · show (s.pool.enqueue t).muInflight = ((s.pool.enqueue t).arrived.filter
      fun u => (Function.update s.pc t .looks u).stage ≠ .left).length
    have hold : (s.pool.arrived.filter fun u => (Function.update s.pc t .looks u).stage ≠ .left)
        = s.pool.arrived.filter fun u => (s.pc u).stage ≠ .left := by
      refine List.filter_congr fun u hu => ?_
      have hne : u ≠ t := by
        rintro rfl
        exact hout hu
      rw [Function.update_of_ne hne]
    have hnew : ([t].filter fun u => (Function.update s.pc t .looks u).stage ≠ .left) = [t] := by
      apply List.filter_cons_of_pos
      rw [Function.update_self]
      rfl
    rw [ha, hi, h.inflight, List.filter_append, hold, hnew, List.length_append]
    rfl
  · by_cases e : u = t
    · rw [e]
      simp only [Sys.go, Function.update_self]
      rw [h.calls t, hc]
      exact iff_of_true rfl rfl
    · simp only [Sys.go, Function.update_of_ne e]
      exact h.calls u

/-- The final decrement of a call. -/
lemma Inv.decrement (h : Inv s q) {t : τ} {r : Option β} (hc : s.pc t = .unlocked r) :
    Inv ({ s with pool := { s.pool with muInflight := s.pool.muInflight - 1 } }.go t (.left r)) q := by
  have hin : t ∈ s.pool.arrived := by
    rw [h.arrived t, hc]
    exact nofun
  have hmem : t ∈ s.pool.arrived.filter fun u => (s.pc u).stage ≠ .left := by
    refine List.mem_filter.mpr ⟨hin, ?_⟩
    rw [hc]
    rfl
  have hrest : (s.pool.arrived.filter fun u => (Function.update s.pc t (.left r) u).stage ≠ .left)
      = (s.pool.arrived.filter fun u => (s.pc u).stage ≠ .left).erase t := by
    rw [(h.once.filter _).erase_eq_filter, List.filter_filter]
    refine List.filter_congr fun u _ => ?_
    by_cases e : u = t
    · rw [e, Function.update_self]
      simp [Pc.stage]
    · rw [Function.update_of_ne e]
      simp [e]
  refine ⟨?_, fun u => ?_, h.once, fun u => ?_, ?_, fun u => ?_, h.destructor, h.stopped, fun hd u hu => ?_⟩
  · exact ⟨h.queued.linked, h.queued.count, h.queued.waits, fun _ => ⟨rfl, rfl⟩, h.queued.order, h.queued.stopped⟩
  · by_cases e : u = t
    · have hu := h.waiting t
      rw [hc] at hu
      rw [e]
      simp only [Sys.go, Function.update_self]
      exact hu.trans (iff_of_false nofun nofun)
    · simp only [Sys.go, Function.update_of_ne e]
      exact h.waiting u
  · by_cases e : u = t
    · rw [e]
      simp only [Sys.go, Function.update_self]
      exact iff_of_true hin nofun
    · simp only [Sys.go, Function.update_of_ne e]
      exact h.arrived u
  · refine Eq.trans ?_ (congrArg List.length hrest.symm)
    rw [List.length_erase_of_mem hmem, ← h.inflight]
    rfl
  · by_cases e : u = t
    · rw [e]
      simp only [Sys.go, Function.update_self]
      rw [h.calls t, hc]
      exact iff_of_false nofun nofun
    · simp only [Sys.go, Function.update_of_ne e]
      exact h.calls u
  · by_cases e : u = t
    · rw [e]
      simp only [Sys.go, Function.update_self]
      rfl
    · simp only [Sys.go, Function.update_of_ne e]
      exact h.drained hd u hu

/-- What a call does with the mutex held: it goes to its unlock, or queues on a pool that is not stopping. -/
lemma run_cases {p p' : Pool τ β} {t : τ} {op : Op β} {shards : List Shard} {c : Pc β} (h : (dry p).Queued q)
    (hr : op.run t p = some (p', shards, c)) :
    (∃ r, c = .exits r ∧ ∃ q', Tended p q p' q') ∨
      (c = .looks ∧ ∃ p₁, dry p₁ = dry p ∧ p₁.mbStopping = false ∧ p' = p₁.enqueue t) := by
  cases op with
  | acquireNoLock new =>
    cases hr
    exact .inl ⟨_, rfl, q, .of_dry h (dry_acquireNoLock new p)⟩
  | acquireWait new =>
    have hd := dry_acquireNoLock new p
    simp only [Op.run, Pool.acquireWait] at hr
    generalize p.acquireNoLock new = a at hd hr
    obtain ⟨p₁, b⟩ := a
    cases b with
    | some b =>
      cases hr
      exact .inl ⟨_, rfl, q, .of_dry h hd⟩
    | none =>
      cases hs : p₁.mbStopping with
      | true =>
        simp only [hs, if_true] at hr
        cases hr
        exact .inl ⟨_, rfl, q, .of_dry h hd⟩
      | false =>
        simp only [hs, Bool.false_eq_true, if_false] at hr
        cases hr
        exact .inr ⟨rfl, p₁, hd, hs, rfl⟩
  | recycle b =>
    obtain ⟨p₁, shards₁, q', e, ht⟩ := Tended.recycleList h [b]
    simp only [Op.run, recycle_eq, e, Option.map_some] at hr
    cases hr
    exact .inl ⟨_, rfl, q', ht⟩
  | recycleList bufs =>
    obtain ⟨p₁, shards₁, q', e, ht⟩ := Tended.recycleList h bufs
    simp only [Op.run, e, Option.map_some] at hr
    cases hr
    exact .inl ⟨_, rfl, q', ht⟩
  | stopWaiters =>
    cases hr
    exact .inl ⟨_, rfl, [], (Tended.stopWaiters h).1⟩

/-- No operation follows a null pointer. -/
lemma Inv.run_isSome (h : Inv s q) (t : τ) (op : Op β) : (op.run t s.pool).isSome = true := by
  cases op with
  | acquireNoLock new => rfl
  | acquireWait new =>
    simp only [Op.run]
    split <;> rfl
  | recycle b =>
    obtain ⟨p', shards, q', e, -⟩ := Tended.recycleList h.queued [b]
    simp only [Op.run, recycle_eq, e, Option.map_some, Option.isSome_some]
  | recycleList bufs =>
    obtain ⟨p', shards, q', e, -⟩ := Tended.recycleList h.queued bufs
    simp only [Op.run, e, Option.map_some, Option.isSome_some]
  | stopWaiters => rfl

/-- A call runs its operation. -/
lemma Inv.run (h : Inv s q) {t : τ} {op : Op β} {p : Pool τ β} {shards : List Shard} {c : Pc β}
    (hc : s.pc t = .inside op) (hr : op.run t s.pool = some (p, shards, c)) :
    ∃ q', Inv ({ s with pool := p, pc := notify shards s.pool s.pc }.go t c) q' := by
  have hn : notify shards s.pool s.pc t = .inside op := by
    unfold notify
    rw [hc]
  rcases run_cases h.queued hr with ⟨r, rfl, q', ht⟩ | ⟨rfl, p₁, hd, hs, rfl⟩
  · exact ⟨q', ((h.tend ht).notified shards s.pool).keep hn rfl rfl⟩
  · exact ⟨q ++ [t], ((h.tend (.of_dry h.queued hd)).notified shards s.pool).park hn hs⟩

/-- A new pool. -/
lemma Inv.start (h : (system τ β).start s) : Inv s [] := by
  obtain ⟨size, budget, news, rfl⟩ := h
  have e := dry_init news (Pool.ctor (τ := τ) size budget)
  obtain ⟨hn, ha, hi, -⟩ := dry_eq e
  have hq : (dry (Pool.ctor (τ := τ) (β := β) size budget)).Queued [] :=
    ⟨.nil, rfl, nofun, fun _ => ⟨rfl, rfl⟩, rfl, fun _ => rfl⟩
  refine ⟨e ▸ hq, fun t => ⟨nofun, fun hw => ?_⟩, ?_, fun t => ?_, ?_, fun t => iff_of_false nofun nofun,
    iff_of_false nofun nofun, nofun, nofun⟩
  · cases hw.1
  · rw [ha]
    exact .nil
  · rw [ha]
    exact iff_of_false nofun fun hne => hne rfl
  · rw [ha, hi]
    rfl

/-- Every step keeps the invariant. -/
lemma Inv.step (h : Inv s q) {a : Actor τ} {s' : Sys τ β} (hs : Step s a s') : ∃ q', Inv s' q' := by
  cases hs with
  | enter hc => exact ⟨q, h.keep hc rfl rfl⟩
  | lock hc hm => exact ⟨q, h.take hc rfl hm rfl⟩
  | run hc hr => exact h.run hc hr
  | unlock hc => exact ⟨q, h.give hc rfl rfl rfl⟩
  | sleep hc _ => exact ⟨q, h.give hc rfl rfl rfl⟩
  | wake hc => exact ⟨q, h.keep hc rfl rfl⟩
  | relock hc hm => exact ⟨q, h.take hc rfl hm rfl⟩
  | done hc hd => exact ⟨q, h.wayOut hc hd⟩
  | read hc => exact ⟨q, h.keep hc rfl rfl⟩
  | release hc => exact ⟨q, h.give hc rfl rfl rfl⟩
  | unlocked hc => exact ⟨q, h.keep hc rfl rfl⟩
  | decrement hc => exact ⟨q, h.decrement hc⟩
  | destroy hd =>
    refine ⟨q, h.destruct (fun _ => .rfl) ?_ nofun nofun⟩
    rw [h.destructor, hd]
    exact .rfl
  | lockStop hd hm =>
    refine ⟨q, h.destruct (fun t => ?_) (iff_of_true rfl rfl) nofun nofun⟩
    rw [hm]
    exact iff_of_false nofun nofun
  | stop hd =>
    obtain ⟨ht, hst⟩ := Tended.stopWaiters h.queued
    have hm := h.destructor
    rw [hd] at hm
    exact ⟨[], ((h.tend ht).notified s.pool.stopWaiters.2 s.pool).destruct (fun _ => .rfl) hm (fun _ => hst) nofun⟩
  | unlockStop hd =>
    have hm := h.destructor.mpr (hd ▸ rfl)
    refine ⟨q, h.destruct (fun t => ?_) (iff_of_false nofun nofun) (fun _ => h.stopped (hd ▸ rfl)) nofun⟩
    rw [hm]
    exact iff_of_false nofun nofun
  | spin _ _ => exact ⟨q, h⟩
  | leave hd h0 =>
    refine ⟨q, h.destruct (fun _ => .rfl) ?_ (fun _ => h.stopped (hd ▸ rfl)) fun _ => .inl h0⟩
    rw [h.destructor, hd]
    exact .rfl
  | lockFree hd hm =>
    refine ⟨q, h.destruct (fun t => ?_) (iff_of_true rfl rfl) (fun _ => h.stopped (hd ▸ rfl))
      fun _ => .inr (hd ▸ rfl)⟩
    rw [hm]
    exact iff_of_false nofun nofun
  | free hd =>
    have hm := h.destructor
    rw [hd] at hm
    exact ⟨q, (h.tend (.of_dry h.queued (dry_free s.pool))).destruct (fun _ => .rfl) hm
      (fun _ => h.stopped (hd ▸ rfl)) fun _ => .inr (hd ▸ rfl)⟩
  | unlockFree hd =>
    have hm := h.destructor.mpr (hd ▸ rfl)
    refine ⟨q, h.destruct (fun t => ?_) (iff_of_false nofun nofun) (fun _ => h.stopped (hd ▸ rfl))
      fun _ => .inr (hd ▸ rfl)⟩
    rw [hm]
    exact iff_of_false nofun nofun

/-- The barrier holds where the invariant does. -/
lemma Inv.barrier (h : Inv s q) : Barrier s := by
  have hchain := h.queued.linked.chain
  have hwaits : ∀ t ∈ q, (s.pool.node t).mbDone = false := fun t ht => ((h.waiting t).mp ht).2
  refine ⟨h.inflight, h.once, h.arrived, .of_queued h.queued, fun t hd ht => ?_, fun t ht => ?_,
    fun bufs p shards e => ?_, fun turns => ?_, fun hd t ht => ?_⟩
  · have hlast := h.queued.linked.last
    have hm := hwaits t (List.mem_of_getLast? (hlast.symm.trans ht))
    rw [hd] at hm
    cases hm
  · exact ((h.waiting t).mp (hchain.reaches_iff.mp ht)).1
  · obtain ⟨p', shards', q', e', ht⟩ := Tended.recycleList h.queued bufs
    cases e.symm.trans e'
    exact .of_queued ht.queued
  · exact stopLoop_turn turns hchain h.queued.linked.nodup hwaits
  · have hl := h.drained hd t ht
    refine ⟨hl, fun hm => ?_⟩
    have hh := (h.calls t).mp hm
    revert hl hh
    cases s.pc t <;> simp only [Pc.stage, Pc.holds, reduceCtorEq, false_implies, implies_true, Bool.false_eq_true]

/-- The destructor does not go back into its loop, and no call queues once it has left it. -/
lemma Inv.drained_step (h : Inv s q) {a : Actor τ} {s' : Sys τ β} (hs : Step s a s') (hd : s.dtor.drained = true) :
    s'.dtor.drained = true ∧ s'.pool.arrived = s.pool.arrived := by
  cases hs with
  | run hc hr =>
    refine ⟨hd, ?_⟩
    rcases run_cases h.queued hr with ⟨r, rfl, q', ht⟩ | ⟨rfl, p₁, e, hs, rfl⟩
    · exact ht.arrived
    · have hst := (dry_eq e).2.2.2
      rw [h.stopped (Dtor.stopped_of_drained hd), hs] at hst
      cases hst
  | enter | lock | unlock | sleep | wake | relock | done | read | release | unlocked | decrement | spin =>
    exact ⟨hd, rfl⟩
  | destroy e | lockStop e | stop e | unlockStop e | leave e =>
    rw [e] at hd
    cases hd
  | lockFree | free | unlockFree => exact ⟨rfl, rfl⟩

/-- A call that has left takes no step. -/
lemma Inv.no_step (h : Inv s q) {t : τ} {s' : Sys τ β} (hd : s.dtor.drained = true) (ht : t ∈ s.pool.arrived) :
    ¬Step s (.call t) s' := by
  intro hs
  have hl := h.drained hd t ht
  cases hs with
  | enter hc | lock hc | run hc | unlock hc | sleep hc | wake hc | relock hc | done hc | read hc | release hc
  | unlocked hc | decrement hc =>
    rw [hc] at hl
    cases hl

/-- Over a run: the invariant, and what the steps past the spin loop are not. -/
lemma path_spec {l : List (Sys τ β × Actor τ)} (h : (system τ β).Path l s) :
    (∃ q, Inv s q) ∧ System.Always Barrier l s ∧
      ∀ x ∈ l, x.1.dtor.drained = true → s.dtor.drained = true ∧ ∀ t ∈ s.pool.arrived, x.2 ≠ .call t := by
  induction h with
  | start h => exact ⟨⟨[], .start h⟩, ⟨nofun, (Inv.start h).barrier⟩, nofun⟩
  | @step l s s' a _ hs ih =>
    obtain ⟨⟨q, hi⟩, ⟨hb, hb'⟩, hx⟩ := ih
    obtain ⟨q', hi'⟩ := hi.step hs
    refine ⟨⟨q', hi'⟩, ⟨fun x hm => ?_, hi'.barrier⟩, fun x hm hd => ?_⟩
    · rcases List.mem_append.mp hm with hm | hm
      · exact hb x hm
      · rw [List.mem_singleton.mp hm]
        exact hb'
    · rcases List.mem_append.mp hm with hm | hm
      · obtain ⟨hd', hne⟩ := hx x hm hd
        obtain ⟨hd', ha⟩ := hi.drained_step hs hd'
        exact ⟨hd', ha ▸ hne⟩
      · cases List.mem_singleton.mp hm
        obtain ⟨hd', ha⟩ := hi.drained_step hs hd
        refine ⟨hd', fun t ht => ?_⟩
        rintro rfl
        exact hi.no_step hd (ha ▸ ht) hs

end Inv

/-- In every state of every run of any calls and the destructor the barrier holds, and once the destructor has left its
spin loop no call that ever queued takes a further step. -/
theorem teardown_barrier [DecidableEq τ] {l : List (Sys τ β × Actor τ)} {s : Sys τ β} (h : (system τ β).Path l s) :
    System.Always Barrier l s ∧
      ∀ x ∈ l, x.1.dtor.drained = true → ∀ t ∈ s.pool.arrived, x.2 ≠ .call t := by
  obtain ⟨-, hb, hx⟩ := path_spec h
  exact ⟨hb, fun x hm hd => (hx x hm hd).2⟩

/-- A call takes the only buffer and another one parks; the destructor wakes it and waits until it has left. -/
lemma drained_run : ∃ (l : List (Sys Nat Nat × Actor Nat)) (s : Sys Nat Nat), (system Nat Nat).Path l s ∧
    s.dtor = .frees ∧ s.pool.arrived = [1] ∧ s.pc 1 = .left none := by
  have h := System.Path.start (S := system Nat Nat) ⟨1024, some ⟨1024, 0⟩, [some 7], rfl⟩
  -- the call 0
  have h := h.step (show Step _ (.call 0) (Sys.go _ 0 (.enters (.acquireNoLock none))) from .enter rfl)
  have h := h.step (.lock (t := 0) rfl rfl)
  have h := h.step (.run (t := 0) rfl rfl)
  have h := h.step (.unlock (t := 0) rfl)
  -- the call 1
  have h := h.step (show Step _ (.call 1) (Sys.go _ 1 (.enters (.acquireWait none))) from .enter rfl)
  have h := h.step (.lock (t := 1) rfl rfl)
  have h := h.step (.run (t := 1) rfl rfl)
  have h := h.step (.sleep (t := 1) rfl rfl)
  -- the destructor up to its loop
  have h := h.step (.destroy rfl)
  have h := h.step (.lockStop rfl rfl)
  have h := h.step (.stop rfl)
  have h := h.step (.unlockStop rfl)
  have h := h.step (.spin rfl nofun)
  -- the call 1 leaves
  have h := h.step (.relock (t := 1) rfl rfl)
  have h := h.step (.done (t := 1) rfl rfl)
  have h := h.step (.read (t := 1) rfl)
  have h := h.step (.release (t := 1) rfl)
  have h := h.step (.unlocked (t := 1) rfl)
  have h := h.step (.spin rfl nofun)
  have h := h.step (.decrement (t := 1) rfl)
  have h := h.step (.leave rfl rfl)
  have h := h.step (.lockFree rfl rfl)
  exact ⟨_, _, h, rfl, rfl, rfl⟩

/-- A call queues, the destructor stops it, and the call is out when the buffers are freed. -/
theorem teardown_barrier_parked : ∃ (l : List (Sys Nat Nat × Actor Nat)) (s : Sys Nat Nat), s.dtor = .frees ∧
    s.pool.arrived = [1] ∧ s.pc 1 = .left none ∧ System.Always Barrier l s ∧
    ∀ x ∈ l, x.1.dtor.drained = true → ∀ t ∈ s.pool.arrived, x.2 ≠ .call t := by
  obtain ⟨l, s, h, hd, ha, hl⟩ := drained_run
  exact ⟨l, s, hd, ha, hl, teardown_barrier h⟩

end P8.Teardown
