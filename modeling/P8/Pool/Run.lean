import P8.Lib.System
import P8.Pool.Queue

/-!
# Threads at a pool

Any number of threads that call a pool's operations, park in `acquire_wait` and are woken. A critical section of
`mo_mutex` is one step; a thread parked on a condition variable is asleep until its shard is notified or it wakes by
itself, and then looks at its own node.

`PoolSys` is the pool with the phase of each thread, `PoolEvent` what a step shows. `FifoHandOff` is the property of
a run: buffers are handed to waiters in the order in which they parked, each once and to nobody else, a free buffer
is never kept while somebody waits, a stop leaves nobody behind, and no null pointer is followed.

`PoolInv` is the invariant that gives it, with `Queued` for the list of those who wait and, for every thread, what
its phase says of its node. Its lemmas are about what can happen to one thread (`PoolInv.park`, `PoolInv.goOut`) and
to the pool (`PoolInv.acquire`, `PoolInv.deliver`, `PoolInv.stop`); `PoolInv.step` puts them together, and
the theorem reads the property off the invariant.
-/

namespace P8
open P8.Lib

variable {τ β : Type}

/-- Where a thread is: outside or before the wait of `acquire_wait`, asleep in it, awake and about to take the mutex
again, or past its unlock with a result. -/
inductive Phase (β : Type) where
  | running
  | asleep
  | awake
  | leaving (lpResult : Option β)

/-- A pool and its threads. -/
structure PoolSys (τ β : Type) where
  pool : Pool τ β
  phase : τ → Phase β

/-- What a step shows. -/
inductive PoolEvent (τ β : Type) where
  | acquired (t : τ) (r : Option β)
  | returned (t : τ) (r : Option β)
  | parked (t : τ)
  | woken (t : τ)
  | slept (t : τ)
  | unparked (t : τ)
  | recycled (t : τ) (ipBuf : Option β)
  | recycledList (t : τ) (ioBufs : List (Option β))
  | stopped (t : τ)

/-- The thread that a step queues. -/
def PoolEvent.parkedBy : PoolEvent τ β → Option τ
  | .parked t => some t
  | _ => none

/-- `notify_all` on some shards: the threads asleep on them wake. -/
def notifyAll (shards : List Shard) (p : Pool τ β) (phase : τ → Phase β) (t : τ) : Phase β :=
  match phase t with
  | .asleep => if (p.node t).mpCv.any (· ∈ shards) then .awake else .asleep
  | ph => ph

section

variable [DecidableEq τ]

/-- The steps of the threads. Allocations give a buffer that the pool does not have. -/
inductive PoolStep : PoolSys τ β → PoolEvent τ β → PoolSys τ β → Prop
  | acquire {s : PoolSys τ β} {t : τ} {b : β} : s.phase t = .running → b ∉ s.pool.moAll →
    PoolStep s (.acquired t (s.pool.acquireNoLock (some b)).2)
      { s with pool := (s.pool.acquireNoLock (some b)).1 }
  | result {s : PoolSys τ β} {t : τ} {b : β} {p : Pool τ β} {r : Option β} : s.phase t = .running →
    b ∉ s.pool.moAll → s.pool.acquireWait t (some b) = (p, some r) →
    PoolStep s (.returned t r) { s with pool := p }
  | park {s : PoolSys τ β} {t : τ} {b : β} {p : Pool τ β} : s.phase t = .running → b ∉ s.pool.moAll →
    s.pool.acquireWait t (some b) = (p, none) →
    PoolStep s (.parked t) ⟨p, Function.update s.phase t .asleep⟩
  | wake {s : PoolSys τ β} {t : τ} : s.phase t = .asleep →
    PoolStep s (.woken t) { s with phase := Function.update s.phase t .awake }
  | sleep {s : PoolSys τ β} {t : τ} : s.phase t = .awake → (s.pool.node t).mbDone = false →
    PoolStep s (.slept t) { s with phase := Function.update s.phase t .asleep }
  | unpark {s : PoolSys τ β} {t : τ} : s.phase t = .awake → (s.pool.node t).mbDone = true →
    PoolStep s (.unparked t) { s with phase := Function.update s.phase t (.leaving (s.pool.node t).mpBuf) }
  | leave {s : PoolSys τ β} {t : τ} {r : Option β} : s.phase t = .leaving r →
    PoolStep s (.returned t r)
      ⟨{ s.pool with muInflight := s.pool.muInflight - 1 }, Function.update s.phase t .running⟩
  | recycle {s : PoolSys τ β} {t : τ} {b : Option β} {p : Pool τ β} {shards : List Shard} :
    s.phase t = .running → s.pool.recycle b = some (p, shards) →
    PoolStep s (.recycled t b) ⟨p, notifyAll shards s.pool s.phase⟩
  | recycleList {s : PoolSys τ β} {t : τ} {bufs : List (Option β)} {p : Pool τ β} {shards : List Shard} :
    s.phase t = .running → s.pool.recycleList bufs = some (p, shards) →
    PoolStep s (.recycledList t bufs) ⟨p, notifyAll shards s.pool s.phase⟩
  | stop {s : PoolSys τ β} {t : τ} : s.phase t = .running →
    PoolStep s (.stopped t) ⟨s.pool.stopWaiters.1, notifyAll s.pool.stopWaiters.2 s.pool s.phase⟩

/-- A pool on which `init` was called, and threads that start. -/
def poolSystem (τ β : Type) [DecidableEq τ] : System (PoolSys τ β) (PoolEvent τ β) where
  start s := ∃ (izBufferSize : Nat) (ipBudget : Option Budget) (news : List β), news.Nodup ∧
    s = ⟨(Pool.ctor izBufferSize ipBudget).init (news.map some), fun _ => .running⟩
  step := PoolStep

end

/-- A strict first-in first-out hand-off, after the steps `l` and with the threads `q` queued. -/
structure FifoHandOff [DecidableEq τ] (l : List (PoolEvent τ β)) (s : PoolSys τ β) (q : List τ) : Prop where
  /-- The linked nodes are those of the threads in `acquire_wait` that are not marked done. -/
  linked : Linked (fun t => (s.pool.node t).mpNext) s.pool.mpWaitHead s.pool.mpWaitTail q
  waiting : ∀ t, t ∈ q ↔ (s.phase t = .asleep ∨ s.phase t = .awake) ∧ (s.pool.node t).mbDone = false
  count : s.pool.muWaitCount = q.length
  /-- Nothing is free while a thread is queued, and a later one gets no buffer: it waits behind. -/
  refused : q ≠ [] → s.pool.moFree = [] ∧ (∀ new, s.pool.acquireNoLock new = (s.pool, none)) ∧
    ∀ t new, s.pool.acquireWait t new = (s.pool.enqueue t, none)
  /-- The threads were served in the order they queued. -/
  order : l.filterMap PoolEvent.parkedBy = s.pool.served.map (·.1) ++ q
  /-- A recycled buffer is handed to the oldest waiter, whose shard is notified, or it is free. -/
  recycle : ∀ b, ∃ p shards, s.pool.recycle b = some (p, shards) ∧ Pool.Delivered q b.toList s.pool p shards
  recycleList : ∀ bufs, ∃ p shards, s.pool.recycleList bufs = some (p, shards) ∧
    Pool.Delivered q bufs.reduceOption s.pool p shards
  /-- Stopping marks all waiters done with no buffer and notifies all shards. -/
  stop : Pool.Woken q { s.pool with mbStopping := true } s.pool.stopWaiters.1 ∧
    (q ≠ [] → ∀ shard, shard ∈ s.pool.stopWaiters.2)
  /-- No thread sleeps once it is marked done. -/
  notified : ∀ t, s.phase t = .asleep → (s.pool.node t).mbDone = false
  /-- No buffer only after `stop_waiters`. -/
  null : ∀ t, .returned t none ∈ l → ∃ u, .stopped u ∈ l

variable {l : List (PoolEvent τ β)} {s : PoolSys τ β} {q : List τ}

namespace Pool

variable {p : Pool τ β}

/-- `init` changes the stock alone. -/
lemma init_fields (news : List β) (p : Pool τ β) : ∃ budget free all,
    p.init (news.map some) = { p with mpBudget := budget, moFree := free, moAll := all } := by
  induction news generalizing p with
  | nil => exact ⟨p.mpBudget, p.moFree, p.moAll, rfl⟩
  | cons b news ih =>
    have hp := tryReserve_fields (p := p)
    rw [List.map_cons, init]
    split
    · rename_i p' e
      rw [e] at hp
      exact ⟨_, _, _, hp⟩
    · rename_i p' e
      rw [e] at hp
      obtain ⟨budget, free, all, e'⟩ := ih { p' with moAll := p'.moAll ++ [b], moFree := p'.moFree ++ [b] }
      refine ⟨budget, free, all, e'.trans ?_⟩
      simp only at hp ⊢
      rw [hp]

/-- How `acquire_wait` goes on: with a buffer, without one when the pool is stopping, or in the queue. -/
lemma acquireWait_cases [DecidableEq τ] (t : τ) (b : β) :
    (∃ c, p.acquireWait t (some b) = ((p.acquireNoLock (some b)).1, some (some c))) ∨
      (p.mbStopping = true ∧ p.acquireWait t (some b) = (p, some none)) ∨
      (p.mbStopping = false ∧ p.moFree = [] ∧ p.tryReserve.2 = false ∧
        p.acquireWait t (some b) = (p.enqueue t, none)) := by
  unfold acquireWait
  cases e : p.acquireNoLock (some b) with
  | mk p' r =>
    cases r with
    | some c => exact .inl ⟨c, rfl⟩
    | none =>
      obtain ⟨rfl, hf, hr⟩ := acquireNoLock_eq_none e
      cases hs : p'.mbStopping with
      | true => exact .inr (.inl ⟨rfl, by simp only [hs, if_true]⟩)
      | false => exact .inr (.inr ⟨rfl, hf, hr, by simp only [hs, Bool.false_eq_true, if_false]⟩)

end Pool

/-- A notification wakes threads; it does not make them leave. -/
lemma notifyAll_parked (shards : List Shard) (p : Pool τ β) (phase : τ → Phase β) (t : τ) :
    (notifyAll shards p phase t = .asleep ∨ notifyAll shards p phase t = .awake) ↔
      (phase t = .asleep ∨ phase t = .awake) := by
  unfold notifyAll
  cases phase t with
  | asleep => split <;> simp
  | running => simp
  | awake => simp
  | leaving r => simp

/-- A thread that is asleep after a notification was so before, on another shard. -/
lemma notifyAll_asleep {shards : List Shard} {p : Pool τ β} {phase : τ → Phase β} {t : τ}
    (h : notifyAll shards p phase t = .asleep) :
    phase t = .asleep ∧ ∀ shard ∈ shards, (p.node t).mpCv ≠ some shard := by
  unfold notifyAll at h
  cases e : phase t with
  | asleep =>
    rw [e] at h
    simp only at h
    split at h
    · cases h
    · rename_i hn
      refine ⟨rfl, fun shard hs hc => hn ?_⟩
      rw [hc]
      simpa using hs
  | running =>
    rw [e] at h
    cases h
  | awake =>
    rw [e] at h
    cases h
  | leaving r =>
    rw [e] at h
    cases h

/-- A thread that leaves is not notified. -/
lemma notifyAll_leaving {shards : List Shard} {p : Pool τ β} {phase : τ → Phase β} {t : τ} {r : Option β}
    (h : notifyAll shards p phase t = .leaving r) : phase t = .leaving r := by
  unfold notifyAll at h
  cases e : phase t with
  | asleep =>
    rw [e] at h
    simp only at h
    split at h <;> cases h
  | running =>
    rw [e] at h
    cases h
  | awake =>
    rw [e] at h
    cases h
  | leaving r' =>
    rw [e] at h
    exact h

/-- What every step keeps. -/
structure PoolInv (l : List (PoolEvent τ β)) (s : PoolSys τ β) (q : List τ) : Prop where
  queued : s.pool.Queued q
  waiting : ∀ t, t ∈ q ↔ (s.phase t = .asleep ∨ s.phase t = .awake) ∧ (s.pool.node t).mbDone = false
  notified : ∀ t, s.phase t = .asleep → (s.pool.node t).mbDone = false
  awake : ∀ t, s.phase t = .awake → (s.pool.node t).mbDone = true → (s.pool.node t).mpBuf = none →
    s.pool.mbStopping = true
  leaving : ∀ t, s.phase t = .leaving none → s.pool.mbStopping = true
  null : ∀ t, .returned t none ∈ l → s.pool.mbStopping = true
  stopped : s.pool.mbStopping = true → ∃ u, .stopped u ∈ l
  arrived : s.pool.arrived = l.filterMap PoolEvent.parkedBy

/-- A step that shows nothing of the queue keeps what was shown. -/
lemma PoolInv.null_concat (h : PoolInv l s q) {e : PoolEvent τ β}
    (he : ∀ t, e = .returned t none → s.pool.mbStopping = true) :
    ∀ t, .returned t none ∈ l ++ [e] → s.pool.mbStopping = true := by
  intro t ht
  rcases List.mem_append.mp ht with ht | ht
  · exact h.null t ht
  · exact he t (List.mem_singleton.mp ht).symm

/-- A pool that is stopped was stopped in the run. -/
lemma PoolInv.stopped_concat (h : PoolInv l s q) (e : PoolEvent τ β) (hs : s.pool.mbStopping = true) :
    ∃ u, .stopped u ∈ l ++ [e] := by
  obtain ⟨u, hu⟩ := h.stopped hs
  exact ⟨u, List.mem_append_left _ hu⟩

/-- A step that parks no thread adds no arrival. -/
lemma PoolInv.arrived_concat (h : PoolInv l s q) {e : PoolEvent τ β} (he : e.parkedBy = none) :
    s.pool.arrived = (l ++ [e]).filterMap PoolEvent.parkedBy := by
  rw [List.filterMap_append, List.filterMap_cons, he, List.filterMap_nil, List.append_nil]
  exact h.arrived

/-- An acquisition. -/
lemma PoolInv.acquire (h : PoolInv l s q) (b : β) {e : PoolEvent τ β} (he : e.parkedBy = none)
    (hn : ∀ t, e = .returned t none → s.pool.mbStopping = true) :
    PoolInv (l ++ [e]) { s with pool := (s.pool.acquireNoLock (some b)).1 } q := by
  have hq := h.queued.acquireNoLock b
  have h1 := h.null_concat hn
  have h2 := h.stopped_concat e
  have h3 := h.arrived_concat he
  obtain ⟨budget, free, all, e'⟩ := Pool.acquireNoLock_fields (p := s.pool) b
  rw [e'] at hq ⊢
  exact ⟨hq, h.waiting, h.notified, h.awake, h.leaving, h1, h2, h3⟩

variable [DecidableEq τ]

/-- A new pool. -/
lemma PoolInv.start (h : (poolSystem τ β).start s) : PoolInv [] s [] := by
  obtain ⟨size, budget, news, -, rfl⟩ := h
  obtain ⟨budget', free, all, e⟩ := Pool.init_fields news (Pool.ctor (τ := τ) size budget)
  rw [e]
  refine ⟨⟨.nil, rfl, nofun, fun hn => absurd rfl hn, rfl, fun _ => rfl⟩, fun t => ⟨nofun, ?_⟩, nofun, nofun, nofun,
    nofun, nofun, rfl⟩
  rintro ⟨h | h, -⟩ <;> cases h

/-- A thread parks behind the others. -/
lemma PoolInv.park (h : PoolInv l s q) {t : τ} (ht : s.phase t = .running) (hf : s.pool.moFree = [])
    (hr : s.pool.tryReserve.2 = false) (hs : s.pool.mbStopping = false) :
    PoolInv (l ++ [.parked t]) ⟨s.pool.enqueue t, Function.update s.phase t .asleep⟩ (q ++ [t]) := by
  have hnot : t ∉ q := by
    intro hq
    have hp := ((h.waiting t).mp hq).1
    rw [ht] at hp
    rcases hp with hp | hp <;> cases hp
  obtain ⟨hq, hself, hother⟩ := h.queued.enqueue hnot hf hr hs
  obtain ⟨hstop, harr⟩ := s.pool.enqueue_fields t
  have hdone : ((s.pool.enqueue t).node t).mbDone = false := by
    rw [hself.2.1, Pool.setNode_self]
  refine ⟨hq, fun u => ?_, fun u hu => ?_, fun u hu hd hb => ?_, fun u hu => ?_, fun u hu => ?_, fun hst => ?_, ?_⟩
  · by_cases e : u = t
    · subst e
      simp [hdone]
    · simp only [List.mem_append, List.mem_singleton, e, or_false, Function.update_of_ne e, (hother u e).2.1]
      exact h.waiting u
  · by_cases e : u = t
    · subst e
      exact hdone
    · simp only [Function.update_of_ne e] at hu
      exact (hother u e).2.1.trans (h.notified u hu)
  · by_cases e : u = t
    · subst e
      simp only [Function.update_self] at hu
      cases hu
    · simp only [Function.update_of_ne e, (hother u e).2.1, (hother u e).1] at hu hd hb
      exact hstop.trans (h.awake u hu hd hb)
  · by_cases e : u = t
    · subst e
      simp only [Function.update_self] at hu
      cases hu
    · simp only [Function.update_of_ne e] at hu
      exact hstop.trans (h.leaving u hu)
  · exact hstop.trans (h.null_concat (e := .parked t) (fun _ => nofun) u hu)
  · exact h.stopped_concat _ (hstop.symm.trans hst)
  · rw [harr, h.arrived, List.filterMap_append]
    rfl

/-- A thread in the wait wakes, or goes to sleep again when it is not marked done. -/
lemma PoolInv.rephase (h : PoolInv l s q) {t : τ} {ph : Phase β} {e : PoolEvent τ β}
    (hold : s.phase t = .asleep ∨ s.phase t = .awake) (hnew : ph = .asleep ∨ ph = .awake)
    (hd : ph = .asleep → (s.pool.node t).mbDone = false)
    (hd' : s.phase t = .asleep ∨ ph = .asleep) (he : e.parkedBy = none) (hn : ∀ u, e ≠ .returned u none) :
    PoolInv (l ++ [e]) { s with phase := Function.update s.phase t ph } q := by
  refine ⟨h.queued, fun u => ?_, fun u hu => ?_, fun u hu hdu hb => ?_, fun u hu => ?_,
    h.null_concat fun u hu => absurd hu (hn u), h.stopped_concat e, h.arrived_concat he⟩
  · by_cases e : u = t
    · subst e
      simp only [Function.update_self, h.waiting u, hold, hnew]
    · simp only [Function.update_of_ne e]
      exact h.waiting u
  · by_cases e : u = t
    · subst e
      simp only [Function.update_self] at hu
      exact hd hu
    · simp only [Function.update_of_ne e] at hu
      exact h.notified u hu
  · by_cases e : u = t
    · subst e
      simp only [Function.update_self] at hu
      rcases hd' with hd' | hd'
      · exact absurd ((h.notified u hd').symm.trans hdu) Bool.false_ne_true
      · rw [hu] at hd'
        cases hd'
    · simp only [Function.update_of_ne e] at hu
      exact h.awake u hu hdu hb
  · by_cases e : u = t
    · subst e
      simp only [Function.update_self] at hu
      rcases hnew with hnew | hnew <;> rw [hnew] at hu <;> cases hu
    · simp only [Function.update_of_ne e] at hu
      exact h.leaving u hu

/-- A thread that is marked done leaves the wait, and then `acquire_wait`. -/
lemma PoolInv.goOut (h : PoolInv l s q) {t : τ} {ph : Phase β} {e : PoolEvent τ β} {n : Nat}
    (hnew : ph ≠ .asleep ∧ ph ≠ .awake) (hq : t ∉ q) (hl : ph = .leaving none → s.pool.mbStopping = true)
    (he : e.parkedBy = none) (hn : ∀ u, e = .returned u none → s.pool.mbStopping = true) :
    PoolInv (l ++ [e]) ⟨{ s.pool with muInflight := n }, Function.update s.phase t ph⟩ q := by
  have hqd := h.queued
  have hroom : ({ s.pool with muInflight := n } : Pool τ β).tryReserve.2 = s.pool.tryReserve.2 :=
    Pool.tryReserve_congr rfl rfl
  refine ⟨⟨hqd.linked, hqd.count, hqd.waits, fun hne => ⟨(hqd.empty hne).1, hroom.trans (hqd.empty hne).2⟩,
    hqd.order, hqd.stopped⟩, fun u => ?_, fun u hu => ?_, fun u hu hdu hb => ?_, fun u hu => ?_,
    h.null_concat hn, h.stopped_concat e, h.arrived_concat he⟩
  · by_cases e : u = t
    · subst e
      simp only [Function.update_self, hq, hnew, or_self, false_and]
    · simp only [Function.update_of_ne e]
      exact h.waiting u
  · by_cases e : u = t
    · subst e
      simp only [Function.update_self] at hu
      exact absurd hu hnew.1
    · simp only [Function.update_of_ne e] at hu
      exact h.notified u hu
  · by_cases e : u = t
    · subst e
      simp only [Function.update_self] at hu
      exact absurd hu hnew.2
    · simp only [Function.update_of_ne e] at hu
      exact h.awake u hu hdu hb
  · by_cases e : u = t
    · subst e
      simp only [Function.update_self] at hu
      exact hl hu
    · simp only [Function.update_of_ne e] at hu
      exact h.leaving u hu

/-- Recycled buffers are delivered. -/
lemma PoolInv.deliver (h : PoolInv l s q) {bs : List β} {p : Pool τ β} {shards : List Shard} {e : PoolEvent τ β}
    (hp : Pool.Delivered q bs s.pool p shards) (he : e.parkedBy = none) (hn : ∀ u, e ≠ .returned u none) :
    PoolInv (l ++ [e]) ⟨p, notifyAll shards s.pool s.phase⟩ (q.drop bs.length) := by
  have hnodup := h.queued.linked.nodup
  refine ⟨hp.queued, fun u => ?_, fun u hu => ?_, fun u hu hd hb => ?_, fun u hu => ?_, fun u hu => ?_,
    fun hst => ?_, ?_⟩
  · simp only
    rw [notifyAll_parked]
    by_cases hu : u ∈ q.take bs.length
    · have hnot : u ∉ q.drop bs.length := List.disjoint_take_drop hnodup (Nat.le_refl _) hu
      simp only [hnot, (hp.handed hu).1, Bool.true_eq_false, and_false]
    · rw [Pool.mem_drop_iff hu, hp.others u hu]
      exact h.waiting u
  · obtain ⟨ha, hne⟩ := notifyAll_asleep hu
    by_cases hu' : u ∈ q.take bs.length
    · obtain ⟨shard, hs, hc⟩ := hp.notified u hu'
      exact absurd hc (hne shard hs)
    · simp only
      rw [hp.others u hu']
      exact h.notified u ha
  · have hpk := (notifyAll_parked shards s.pool s.phase u).mp (.inr hu)
    by_cases hu' : u ∈ q.take bs.length
    · exact absurd hb (hp.handed hu').2
    · simp only at hd hb ⊢
      rw [hp.others u hu'] at hd hb
      rw [hp.stopping]
      rcases hpk with hpk | hpk
      · exact absurd ((h.notified u hpk).symm.trans hd) Bool.false_ne_true
      · exact h.awake u hpk hd hb
  · exact hp.stopping.trans (h.leaving u (notifyAll_leaving hu))
  · exact hp.stopping.trans (h.null_concat (fun v hv => absurd hv (hn v)) u hu)
  · exact h.stopped_concat e (hp.stopping.symm.trans hst)
  · exact hp.stock.arrived.trans (h.arrived_concat he)

/-- All waiters are woken. -/
lemma PoolInv.stop (h : PoolInv l s q) (t : τ) :
    PoolInv (l ++ [.stopped t]) ⟨s.pool.stopWaiters.1, notifyAll s.pool.stopWaiters.2 s.pool s.phase⟩ [] := by
  obtain ⟨hq, hw, hall⟩ := h.queued.stopWaiters
  have hstop : s.pool.stopWaiters.1.mbStopping = true := hw.stopping
  refine ⟨hq, fun u => ⟨nofun, ?_⟩, fun u hu => ?_, fun _ _ _ _ => hstop, fun _ _ => hstop, fun _ _ => hstop,
    fun _ => ⟨t, List.mem_append_right _ (List.mem_singleton_self _)⟩,
    hw.stock.arrived.trans (h.arrived_concat rfl)⟩
  · rintro ⟨hu, hd⟩
    simp only at hu hd
    rw [notifyAll_parked] at hu
    by_cases hu' : u ∈ q
    · exact absurd ((hw.marked u hu').2.symm.trans hd) Bool.true_eq_false.mp
    · rw [hw.others u hu'] at hd
      exact absurd ((h.waiting u).mpr ⟨hu, hd⟩) hu'
  · obtain ⟨ha, hne⟩ := notifyAll_asleep hu
    have hu' : u ∈ q := (h.waiting u).mpr ⟨.inl ha, h.notified u ha⟩
    obtain ⟨shard, hc⟩ := Option.isSome_iff_exists.mp (h.queued.waits u hu').2
    exact absurd hc (hne shard (hall (List.ne_nil_of_mem hu') shard))

/-- Every step of a thread keeps the invariant. -/
lemma PoolInv.step (h : PoolInv l s q) {e : PoolEvent τ β} {s' : PoolSys τ β} (hs : PoolStep s e s') :
    ∃ q', PoolInv (l ++ [e]) s' q' := by
  cases hs with
  | @acquire t b ht hb => exact ⟨q, h.acquire b rfl nofun⟩
  | @result t b p r ht hb e =>
    rcases s.pool.acquireWait_cases t b with ⟨c, e'⟩ | ⟨hst, e'⟩ | ⟨-, -, -, e'⟩
    · rw [e'] at e
      cases e
      exact ⟨q, h.acquire b rfl fun _ => nofun⟩
    · rw [e'] at e
      cases e
      refine ⟨q, ⟨h.queued, h.waiting, h.notified, h.awake, h.leaving, h.null_concat fun _ _ => hst,
        h.stopped_concat _, h.arrived_concat rfl⟩⟩
    · rw [e'] at e
      cases e
  | @park t b p ht hb e =>
    rcases s.pool.acquireWait_cases t b with ⟨c, e'⟩ | ⟨hst, e'⟩ | ⟨hst, hf, hr, e'⟩
    · rw [e'] at e
      cases e
    · rw [e'] at e
      cases e
    · rw [e'] at e
      cases e
      exact ⟨q ++ [t], h.park ht hf hr hst⟩
  | @wake t ht => exact ⟨q, h.rephase (.inl ht) (.inr rfl) nofun (.inl ht) rfl fun _ => nofun⟩
  | @sleep t ht hd => exact ⟨q, h.rephase (.inr ht) (.inl rfl) (fun _ => hd) (.inr rfl) rfl fun _ => nofun⟩
  | @unpark t ht hd =>
    refine ⟨q, h.goOut ⟨nofun, nofun⟩ (fun hq => ?_) (fun hl => ?_) rfl fun _ => nofun⟩
    · exact absurd (((h.waiting t).mp hq).2.symm.trans hd) Bool.false_ne_true
    · exact h.awake t ht hd (Phase.leaving.inj hl)
  | @leave t r ht =>
    refine ⟨q, h.goOut ⟨nofun, nofun⟩ (fun hq => ?_) nofun rfl fun u hu => ?_⟩
    · have hp := ((h.waiting t).mp hq).1
      rw [ht] at hp
      rcases hp with hp | hp <;> cases hp
    · cases hu
      exact h.leaving t ht
  | @recycle t b p shards ht e =>
    cases b with
    | none =>
      cases e
      refine ⟨q, h.deliver (.nil h.queued) rfl fun _ => nofun⟩
    | some b =>
      obtain ⟨p', shards', e', hd⟩ := Pool.recycleNoLock_spec h.queued b
      rw [Pool.recycle, e'] at e
      cases e
      exact ⟨_, h.deliver hd rfl fun _ => nofun⟩
  | @recycleList t bufs p shards ht e =>
    obtain ⟨p', shards', e', hd⟩ := Pool.recycleList_spec h.queued bufs
    rw [e'] at e
    cases e
    exact ⟨_, h.deliver hd rfl fun _ => nofun⟩
  | @stop t ht => exact ⟨[], h.stop t⟩

/-- Strict first-in first-out hand-off without lost wake-ups, in every state that any number of threads reach. -/
theorem fifo_hand_off (h : (poolSystem τ β).Run l s) : ∃ q, FifoHandOff l s q := by
  obtain ⟨q, hi⟩ : ∃ q, PoolInv l s q := by
    refine h.invariant (I := fun l s => ∃ q, PoolInv l s q) (fun _ h0 => ⟨[], .start h0⟩) ?_
    rintro l s e s' - ⟨q, hi⟩ hs
    exact hi.step hs
  have hq := hi.queued
  refine ⟨q, hq.linked, hi.waiting, hq.count, fun hne => ?_, ?_, fun b => ?_, Pool.recycleList_spec hq,
    hq.stopWaiters.2, hi.notified, fun t ht => hi.stopped (hi.null t ht)⟩
  · obtain ⟨hf, hr⟩ := hq.empty hne
    have hstop : s.pool.mbStopping = false := Bool.eq_false_iff.mpr fun hs => hne (hq.stopped hs)
    have hnone := fun new => Pool.acquireNoLock_none new hf hr
    refine ⟨hf, hnone, fun t new => ?_⟩
    simp only [Pool.acquireWait, hnone, hstop, Bool.false_eq_true, if_false]
  · rw [← hi.arrived]
    exact hq.order
  · cases b with
    | none => exact ⟨s.pool, [], rfl, .nil hq⟩
    | some b => exact Pool.recycleNoLock_spec hq b

/-- One buffer in all: a second thread parks, and returns with the buffer that the first one recycles. -/
theorem fifo_hand_off_two_threads :
    ∃ s q, FifoHandOff [.acquired 0 (some 7), .parked 1, .recycled 0 (some 7), .unparked 1,
      (.returned 1 (some 7) : PoolEvent Nat Nat)] s q := by
  have h0 : (poolSystem Nat Nat).Run [] ⟨Pool.ctor 1 (some ⟨1, 0⟩), fun _ => .running⟩ :=
    .start ⟨1, some ⟨1, 0⟩, [], .nil, rfl⟩
  have h1 := h0.step (.acquire (t := 0) (b := 7) rfl nofun)
  have h2 := h1.step (.park (t := 1) (b := 8) rfl (by decide) rfl)
  have h3 := h2.step (.recycle (t := 0) (b := some 7) rfl rfl)
  have h4 := h3.step (.unpark (t := 1) rfl rfl)
  have h5 := h4.step (.leave (t := 1) rfl)
  exact ⟨_, fifo_hand_off h5⟩

end P8
