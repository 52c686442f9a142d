import Mathlib.Data.List.Basic
import P8.Pool.Run
import P8.Writer.Tls

/-!
# Outstanding buffers

`acquire_buffer`, `release_buffer` and `release_buffers` of an initialized `cp8_core` (`engine/p8_core.cpp`) on its
pool, by any number of threads, with `mu_outstanding_buffers`. A release is two steps: the pool's critical section
and the subtraction. Only buffers that were acquired are released.

The ghosts are the buffers that are lent and whether the counter ever went below zero; `Exact` is what the counter
is to be, the number of the former. It is raised nowhere, so it stays exact only as long as nobody gets a buffer:
`Untouched` is the invariant of runs in which every call finds none (`FindsNone`), and `Untouched.breaks` says that
the first call that finds one ends it.

`outstanding_exact` is the equivalence over runs, by the rule for paths of `Lib/System.lean`; `outstanding_wraps` is
a single buffer that is acquired and released, after which the counter is 2^64 - 1.
-/

namespace P8.Outstanding
open P8.Lib

variable {τ β : Type}

/-- Where a thread is in a call of the core: outside, past the fast path of `acquire_buffer` that found nothing, or
between recycling and the subtraction. -/
inductive Call where
  | idle
  | waits
  | releases (lzCount : UInt64)

/-- The pool with its threads, their calls, and the counter. `lent` and `wrapped` are ghosts: the buffers acquired and
not recycled, and whether a subtraction went below zero. -/
structure Core (τ β : Type) where
  pools : PoolSys τ β
  call : τ → Call
  muOutstandingBuffers : UInt64
  lent : List β
  wrapped : Bool

/-- What a step shows; `new` is the outcome of an allocation. -/
inductive Event (τ β : Type) where
  | acquire (t : τ) (ibWait : Bool) (new : Option β)
  | acquireWait (t : τ) (new : Option β)
  | leave (t : τ)
  | pool (e : PoolEvent τ β)
  | releaseBuffer (t : τ) (ipBuffer : Option β)
  | releaseBuffers (t : τ) (ioBuffers : List β)
  | subtract (t : τ)

namespace Core
variable [DecidableEq τ]

/-- A thread goes on. -/
def go (s : Core τ β) (t : τ) (c : Call) : Core τ β := { s with call := Function.update s.call t c }

/-- A call of `acquire_buffer` ends with what it returns. -/
def give (s : Core τ β) (t : τ) (r : Option β) : Core τ β := { s.go t .idle with lent := s.lent ++ r.toList }

/-- `mu_outstanding_buffers.fetch_sub`. -/
def fetchSub (s : Core τ β) (lzCount : UInt64) : Core τ β :=
  { s with
    muOutstandingBuffers := s.muOutstandingBuffers - lzCount
    wrapped := s.wrapped || decide (s.muOutstandingBuffers < lzCount) }

end Core

section
variable [DecidableEq τ] [DecidableEq β]

/-- The steps of the threads. Allocations fail or give a buffer that the pool does not have. -/
inductive Step : Core τ β → Event τ β → Core τ β → Prop
  -- acquire_buffer up to its fast path, and acquire_wait
  | acquire {s : Core τ β} {t : τ} {ibWait : Bool} {new : Option β} : s.call t = .idle → s.pools.phase t = .running →
    (∀ b, new = some b → b ∉ s.pools.pool.moAll) →
    (ibWait = false ∨ (s.pools.pool.acquireNoLock new).2 ≠ none) →
    Step s (.acquire t ibWait new)
      ({ s with pools := { s.pools with pool := (s.pools.pool.acquireNoLock new).1 } }.give t
        (s.pools.pool.acquireNoLock new).2)
  | miss {s : Core τ β} {t : τ} {new : Option β} : s.call t = .idle → s.pools.phase t = .running →
    (∀ b, new = some b → b ∉ s.pools.pool.moAll) → (s.pools.pool.acquireNoLock new).2 = none →
    Step s (.acquire t true new)
      ({ s with pools := { s.pools with pool := (s.pools.pool.acquireNoLock new).1 } }.go t .waits)
  | result {s : Core τ β} {t : τ} {new : Option β} {p : Pool τ β} {r : Option β} : s.call t = .waits →
    s.pools.phase t = .running → (∀ b, new = some b → b ∉ s.pools.pool.moAll) →
    s.pools.pool.acquireWait t new = (p, some r) →
    Step s (.acquireWait t new) ({ s with pools := { s.pools with pool := p } }.give t r)
  | park {s : Core τ β} {t : τ} {new : Option β} {p : Pool τ β} : s.call t = .waits →
    s.pools.phase t = .running → (∀ b, new = some b → b ∉ s.pools.pool.moAll) →
    s.pools.pool.acquireWait t new = (p, none) →
    Step s (.acquireWait t new) { s with pools := ⟨p, Function.update s.pools.phase t .asleep⟩ }
  | leave {s : Core τ β} {t : τ} {r : Option β} : s.call t = .waits → s.pools.phase t = .leaving r →
    Step s (.leave t) ({ s with pools := ⟨{ s.pools.pool with muInflight := s.pools.pool.muInflight - 1 },
      Function.update s.pools.phase t .running⟩ }.give t r)
  -- a parked thread wakes or sleeps, or the waiters are stopped
  | wake {s : Core τ β} {t : τ} {s' : PoolSys τ β} : PoolStep s.pools (.woken t) s' →
    Step s (.pool (.woken t)) { s with pools := s' }
  | sleep {s : Core τ β} {t : τ} {s' : PoolSys τ β} : PoolStep s.pools (.slept t) s' →
    Step s (.pool (.slept t)) { s with pools := s' }
  | unpark {s : Core τ β} {t : τ} {s' : PoolSys τ β} : PoolStep s.pools (.unparked t) s' →
    Step s (.pool (.unparked t)) { s with pools := s' }
  | stop {s : Core τ β} {t : τ} {s' : PoolSys τ β} : s.call t = .idle → PoolStep s.pools (.stopped t) s' →
    Step s (.pool (.stopped t)) { s with pools := s' }
  -- release_buffer and release_buffers; the worker's flushes are among them
  | releaseNull {s : Core τ β} {t : τ} : s.call t = .idle → Step s (.releaseBuffer t none) s
  | releaseBuffer {s : Core τ β} {t : τ} {b : β} {s' : PoolSys τ β} : s.call t = .idle → b ∈ s.lent →
    PoolStep s.pools (.recycled t (some b)) s' →
    Step s (.releaseBuffer t (some b)) ({ s with pools := s', lent := s.lent.erase b }.go t (.releases 1))
  | releaseNone {s : Core τ β} {t : τ} : s.call t = .idle → Step s (.releaseBuffers t []) s
  | releaseBuffers {s : Core τ β} {t : τ} {bufs : List β} {s' : PoolSys τ β} : s.call t = .idle → bufs ≠ [] →
    bufs.Nodup → (∀ b ∈ bufs, b ∈ s.lent) → PoolStep s.pools (.recycledList t (bufs.map some)) s' →
    Step s (.releaseBuffers t bufs)
      ({ s with pools := s', lent := s.lent.diff bufs }.go t (.releases (UInt64.ofNat bufs.length)))
  | subtract {s : Core τ β} {t : τ} {lzCount : UInt64} : s.call t = .releases lzCount →
    Step s (.subtract t) ((s.fetchSub lzCount).go t .idle)

/-- A core whose pool was initialized, and threads that start. -/
def system (τ β : Type) [DecidableEq τ] [DecidableEq β] : System (Core τ β) (Event τ β) where
  start s := (poolSystem τ β).start s.pools ∧ (∀ t, s.call t = .idle) ∧ s.muOutstandingBuffers = 0 ∧ s.lent = [] ∧
    s.wrapped = false
  step := Step

end

/-- The counter is the number of the buffers acquired and not recycled, and never went below zero. -/
def Exact (s : Core τ β) : Prop := s.muOutstandingBuffers.toNat = s.lent.length ∧ s.wrapped = false

/-- There is no buffer to be had: none is free, and the budget or the allocation refuses a new one. -/
def Dry (p : Pool τ β) (new : Option β) : Prop := p.moFree = [] ∧ (p.tryReserve.2 = false ∨ new = none)

/-- A call that looks for a buffer finds none. -/
def FindsNone (s : Core τ β) : Event τ β → Prop
  | .acquire _ _ new | .acquireWait _ new => Dry s.pools.pool new
  | _ => True

/-- No buffer was given out: the counter is zero, nothing is lent or recycled, and no waiter was handed a buffer. -/
structure Untouched (s : Core τ β) : Prop where
  count : s.muOutstandingBuffers = 0
  lent : s.lent = []
  wrapped : s.wrapped = false
  calls : ∀ t n, s.call t ≠ .releases n
  nodes : ∀ t, (s.pools.pool.node t).mpBuf = none
  leaving : ∀ t b, s.pools.phase t ≠ .leaving (some b)

/-- The counter is exact as long as no buffer was given out. -/
lemma Untouched.exact {s : Core τ β} (h : Untouched s) : Exact s := by
  refine ⟨?_, h.wrapped⟩
  rw [h.count, h.lent]
  rfl

section
variable {p : Pool τ β} {new : Option β}

/-- An acquisition finds nothing exactly when there is nothing to be had. -/
lemma acquireNoLock_eq_none_iff : (p.acquireNoLock new).2 = none ↔ Dry p new := by
  unfold Pool.acquireNoLock Dry
  cases p.moFree with
  | cons b free => exact iff_of_false nofun fun h => List.cons_ne_nil _ _ h.1
  | nil =>
    obtain ⟨q, ok⟩ := p.tryReserve
    cases ok with
    | false => exact iff_of_true rfl ⟨rfl, .inl rfl⟩
    | true => cases new <;> simp

/-- An acquisition leaves the waiters' nodes alone. -/
lemma acquireNoLock_node : (p.acquireNoLock new).1.node = p.node := by
  cases new with
  | some b =>
    obtain ⟨budget, free, all, e⟩ := Pool.acquireNoLock_fields (p := p) b
    rw [e]
  | none =>
    have hp := Pool.tryReserve_fields (p := p)
    unfold Pool.acquireNoLock
    split
    · rfl
    · generalize p.tryReserve = r at hp ⊢
      obtain ⟨q, ok⟩ := r
      simp only at hp
      have hn : q.node = p.node := hp ▸ rfl
      cases ok <;> exact hn

variable [DecidableEq τ] {t u : τ} {p' : Pool τ β} {r : Option β}

/-- A node is written without a buffer. -/
lemma setNode_mpBuf {w : Waiter τ β} (hb : ∀ u, (p.node u).mpBuf = none) (hw : w.mpBuf = none) (u : τ) :
    ((p.setNode t w).node u).mpBuf = none := by
  by_cases e : u = t
  · rw [e, Pool.setNode_self]
    exact hw
  · rw [Pool.setNode_of_ne p w e]
    exact hb u

/-- A thread queues with an empty node. -/
lemma enqueue_mpBuf (hb : ∀ u, (p.node u).mpBuf = none) (u : τ) : ((p.enqueue t).node u).mpBuf = none := by
  have hset : ∀ u, ((p.setNode t ⟨none, none, false, some p.nextShard⟩).node u).mpBuf = none :=
    setNode_mpBuf hb rfl
  show (((p.setNode t ⟨none, none, false, some p.nextShard⟩).link t).node u).mpBuf = none
  rw [Pool.link]
  generalize p.setNode t ⟨none, none, false, some p.nextShard⟩ = q at hset ⊢
  cases q.mpWaitTail with
  | none => exact hset u
  | some v => exact setNode_mpBuf (w := { q.node v with mpNext := some t }) hset (hset v) u

/-- The loop of `stop_waiters` hands nobody a buffer. -/
lemma stopLoop_mpBuf (fuel : Nat) (hb : ∀ u, (p.node u).mpBuf = none) (u : τ) :
    ((Pool.stopLoop fuel p).node u).mpBuf = none := by
  induction fuel generalizing p with
  | zero => exact hb u
  | succ fuel ih =>
    rw [Pool.stopLoop]
    split
    · exact hb u
    · exact ih (setNode_mpBuf hb rfl)

/-- `acquire_wait` that returns at once returns what the acquisition found, and leaves the nodes alone. -/
lemma acquireWait_some (h : p.acquireWait t new = (p', some r)) : r = (p.acquireNoLock new).2 ∧ p'.node = p.node := by
  have hn : (p.acquireNoLock new).1.node = p.node := acquireNoLock_node
  unfold Pool.acquireWait at h
  generalize p.acquireNoLock new = q at h hn ⊢
  obtain ⟨q, c⟩ := q
  cases c with
  | some b =>
    cases h
    exact ⟨rfl, hn⟩
  | none =>
    simp only at h
    split at h
    · cases h
      exact ⟨rfl, hn⟩
    · cases h

/-- `acquire_wait` parks a thread that found nothing, with an empty node. -/
lemma acquireWait_none (h : p.acquireWait t new = (p', none)) (hb : ∀ u, (p.node u).mpBuf = none) :
    Dry p new ∧ ∀ u, (p'.node u).mpBuf = none := by
  have hn : (p.acquireNoLock new).1.node = p.node := acquireNoLock_node
  rw [← acquireNoLock_eq_none_iff]
  unfold Pool.acquireWait at h
  generalize p.acquireNoLock new = q at h hn ⊢
  obtain ⟨q, c⟩ := q
  cases c with
  | some b => cases h
  | none =>
    simp only at h
    split at h
    · cases h
    · cases h
      exact ⟨rfl, enqueue_mpBuf fun u => (congrArg (fun f => (f u).mpBuf) hn).trans (hb u)⟩

/-- A thread that wakes, sleeps, leaves its wait or stops the waiters hands nobody a buffer. -/
lemma PoolStep.untouched {s s' : PoolSys τ β} {e : PoolEvent τ β} (h : PoolStep s e s')
    (he : e = .woken t ∨ e = .slept t ∨ e = .unparked t ∨ e = .stopped t)
    (hb : ∀ u, (s.pool.node u).mpBuf = none) (hl : ∀ u b, s.phase u ≠ .leaving (some b)) :
    (∀ u, (s'.pool.node u).mpBuf = none) ∧ ∀ u b, s'.phase u ≠ .leaving (some b) := by
  have update {ph : Phase β} (v : τ) (hph : ∀ b, ph ≠ .leaving (some b)) :
      ∀ u b, Function.update s.phase v ph u ≠ .leaving (some b) := by
    intro u b
    rw [Function.update_apply]
    split
    · exact hph b
    · exact hl u b
  cases h with
  | wake _ => exact ⟨hb, update _ nofun⟩
  | sleep _ _ => exact ⟨hb, update _ nofun⟩
  | unpark _ _ => exact ⟨hb, update _ fun b => by rw [hb]; nofun⟩
  | stop _ =>
    refine ⟨fun u => ?_, fun u b h => hl u b (notifyAll_leaving h)⟩
    exact stopLoop_mpBuf (p := { s.pool with mbStopping := true }) s.pool.muWaitCount hb u
  | _ => rcases he with he | he | he | he <;> cases he

variable {s s' : Core τ β} {e : Event τ β}

/-- A new core. -/
lemma Untouched.start [DecidableEq β] (h : (system τ β).start s) : Untouched s := by
  obtain ⟨⟨izBufferSize, ipBudget, news, -, hp⟩, hc, hm, hl, hw⟩ := h
  obtain ⟨budget, free, all, e⟩ := Pool.init_fields news (Pool.ctor (τ := τ) izBufferSize ipBudget)
  refine ⟨hm, hl, hw, fun t n => by rw [hc]; nofun, fun t => ?_, fun t b => by rw [hp]; nofun⟩
  rw [hp]
  show ((Pool.init _ _).node t).mpBuf = none
  rw [e]
  rfl

/-- A step that gives nobody a buffer. -/
lemma Untouched.keep (h : Untouched s) {pools : PoolSys τ β} (c : Call) (hc : ∀ n, c ≠ .releases n)
    (hb : ∀ u, (pools.pool.node u).mpBuf = none) (hl : ∀ u b, pools.phase u ≠ .leaving (some b)) :
    Untouched ({ s with pools := pools }.go t c) := by
  refine ⟨h.count, h.lent, h.wrapped, fun u n => ?_, hb, hl⟩
  show Function.update s.call t c u ≠ .releases n
  rw [Function.update_apply]
  split
  · exact hc n
  · exact h.calls u n

/-- A call that ends without a buffer. -/
lemma Untouched.give (h : Untouched s) {pools : PoolSys τ β}
    (hb : ∀ u, (pools.pool.node u).mpBuf = none) (hl : ∀ u b, pools.phase u ≠ .leaving (some b)) :
    Untouched ({ s with pools := pools }.give t none) := by
  have hk := h.keep (t := t) .idle nofun hb hl
  refine ⟨hk.count, ?_, hk.wrapped, hk.calls, hk.nodes, hk.leaving⟩
  show s.lent ++ [] = []
  rw [h.lent]
  rfl

/-- No step but an acquisition that finds a buffer touches anything. -/
lemma Untouched.step [DecidableEq β] (h : Untouched s) (hs : Step s e s') (he : FindsNone s e) : Untouched s' := by
  cases hs with
  | acquire _ _ _ _ =>
    have hn := acquireNoLock_eq_none_iff.mpr he
    rw [hn]
    exact h.give (fun u => by simp only; rw [acquireNoLock_node]; exact h.nodes u) h.leaving
  | miss _ _ _ _ =>
    exact h.keep .waits nofun (fun u => by simp only; rw [acquireNoLock_node]; exact h.nodes u) h.leaving
  | result _ _ _ hw =>
    obtain ⟨hr, hn⟩ := acquireWait_some hw
    rw [hr, acquireNoLock_eq_none_iff.mpr he]
    exact h.give (fun u => by rw [hn]; exact h.nodes u) h.leaving
  | @park t _ _ _ _ _ hw =>
    obtain ⟨-, hn⟩ := acquireWait_none hw h.nodes
    refine ⟨h.count, h.lent, h.wrapped, h.calls, hn, fun u b => ?_⟩
    show Function.update s.pools.phase t .asleep u ≠ .leaving (some b)
    rw [Function.update_apply]
    split
    · nofun
    · exact h.leaving u b
  | @leave t r _ hl =>
    cases r with
    | some b => exact absurd hl (h.leaving t b)
    | none =>
      refine h.give h.nodes fun u b => ?_
      show Function.update s.pools.phase t .running u ≠ .leaving (some b)
      rw [Function.update_apply]
      split
      · nofun
      · exact h.leaving u b
  | wake hp =>
    have hk := PoolStep.untouched hp (.inl rfl) h.nodes h.leaving
    exact ⟨h.count, h.lent, h.wrapped, h.calls, hk.1, hk.2⟩
  | sleep hp =>
    have hk := PoolStep.untouched hp (.inr (.inl rfl)) h.nodes h.leaving
    exact ⟨h.count, h.lent, h.wrapped, h.calls, hk.1, hk.2⟩
  | unpark hp =>
    have hk := PoolStep.untouched hp (.inr (.inr (.inl rfl))) h.nodes h.leaving
    exact ⟨h.count, h.lent, h.wrapped, h.calls, hk.1, hk.2⟩
  | stop _ hp =>
    have hk := PoolStep.untouched hp (.inr (.inr (.inr rfl))) h.nodes h.leaving
    exact ⟨h.count, h.lent, h.wrapped, h.calls, hk.1, hk.2⟩
  | releaseNull _ => exact h
  | releaseBuffer _ hb _ =>
    rw [h.lent] at hb
    cases hb
  | releaseNone _ => exact h
  | @releaseBuffers t bufs _ _ hne _ hb _ =>
    obtain ⟨b, hmem⟩ := List.exists_mem_of_ne_nil bufs hne
    have hb := hb b hmem
    rw [h.lent] at hb
    cases hb
  | subtract hc => exact absurd hc (h.calls _ _)

/-- An acquisition that finds a buffer leaves the counter at zero. -/
lemma Untouched.breaks [DecidableEq β] (h : Untouched s) (hs : Step s e s') (he : ¬FindsNone s e) : ¬Exact s' := by
  -- the call gives out a first buffer, and the counter stays zero
  have gives {pools : PoolSys τ β} {t : τ} (b : β) : ¬Exact ({ s with pools := pools }.give t (some b)) := by
    intro hx
    have hx : s.muOutstandingBuffers.toNat = (s.lent ++ [b]).length := hx.1
    rw [h.count, h.lent] at hx
    exact absurd hx nofun
  cases hs with
  | @acquire t ibWait new _ _ _ _ =>
    cases hr : (s.pools.pool.acquireNoLock new).2 with
    | none => exact absurd (acquireNoLock_eq_none_iff.mp hr) he
    | some b => exact gives b
  | miss _ _ _ hr => exact absurd (acquireNoLock_eq_none_iff.mp hr) he
  | @result t new _ r _ _ _ hw =>
    obtain ⟨hr, -⟩ := acquireWait_some hw
    cases r with
    | none => exact absurd (acquireNoLock_eq_none_iff.mp hr.symm) he
    | some b => exact gives b
  | park _ _ _ hw => exact absurd (acquireWait_none hw h.nodes).1 he
  | _ => exact absurd trivial he

/-- In every run: the counter is right in each state the run goes through, and never went below zero, exactly when no
call that looked for a buffer could get one. -/
theorem outstanding_exact [DecidableEq β] {l : List (Core τ β × Event τ β)} (h : (system τ β).Path l s) :
    System.Always Exact l s ↔ System.Each FindsNone l :=
  h.always_iff (I := Untouched) (fun _ => .start) (fun _ => Untouched.exact) (fun _ _ _ hi hs => hi.step hs)
    fun _ _ _ hi hs => hi.breaks hs

/-- A core whose pool starts with some buffers, and one thread. -/
def oneThread (news : List Nat) : Core Unit Nat :=
  ⟨⟨(Pool.ctor mzDataBufferSize none).init (news.map some), fun _ => .running⟩, fun _ => .idle, 0, [], false⟩

/-- This is a start. -/
lemma oneThread_start {news : List Nat} (h : news.Nodup) : (system Unit Nat).start (oneThread news) :=
  ⟨⟨mzDataBufferSize, none, news, h, rfl⟩, fun _ => rfl, rfl, rfl, rfl⟩

/-- A core without a buffer, whose allocation fails: the counter stays right. -/
theorem outstanding_exact_none : ∃ l s, (system Unit Nat).Path l s ∧ l.length = 1 ∧ System.Always Exact l s := by
  have h0 : (system Unit Nat).Path [] (oneThread []) := .start (oneThread_start List.nodup_nil)
  have h := h0.step (show Step _ (.acquire () false none) _ from .acquire rfl rfl nofun (.inl rfl))
  refine ⟨_, _, h, rfl, (outstanding_exact h).mpr fun x hx => ?_⟩
  cases List.mem_singleton.mp hx
  exact ⟨rfl, .inr rfl⟩

/-- A thread acquires a buffer and releases it: the counter is zero while the buffer is out, and wraps when it is
back. -/
theorem outstanding_wraps :
    (∃ l s, (system Unit Nat).Path l s ∧ s.lent = [0] ∧ s.muOutstandingBuffers = 0) ∧
      (∃ l s, (system Unit Nat).Path l s ∧ s.lent = [] ∧ s.muOutstandingBuffers.toNat = 2 ^ 64 - 1) ∧
      ¬∀ l s, (system Unit Nat).Path l s → System.Always Exact l s := by
  have h0 : (system Unit Nat).Path [] (oneThread [0]) := .start (oneThread_start (List.nodup_singleton 0))
  have h1 := h0.step (show Step _ (.acquire () false none) _ from .acquire rfl rfl nofun (.inl rfl))
  have h2 := h1.step (show Step _ (.releaseBuffer () (some 0)) _ from
    .releaseBuffer rfl (List.mem_singleton_self 0) (.recycle rfl rfl))
  have h3 := h2.step (show Step _ (.subtract ()) _ from .subtract rfl)
  refine ⟨⟨_, _, h1, rfl, rfl⟩, ⟨_, _, h3, rfl, rfl⟩, fun h => ?_⟩
  exact absurd (h _ _ h1).2.1 nofun

end

end P8.Outstanding
