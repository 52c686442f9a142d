import P8.Core.Control
import P8.Lib.Account

/-!
# Where the buffers are

Every buffer that the pool of a core has allocated is in one place, and once: no step loses one or has it twice. A
thread that waits for a buffer keeps none to itself.

`Place` lists where a buffer may be: free in the pool or handed to a waiter, current or a fragment of some writer,
in the ready queue, in the service buffers, in the lists of the worker, or in the local variable of a thread.
`Counted` says of each buffer how often it is in a place, over all places, as a sum with finitely many terms that
are not zero (`AddsUp` of `Lib/Account.lean`), so that a step that moves buffers between two places leaves the sum
alone.

For a step of an agent the places that may change are listed (`agentPlaces`), and the sum over them is the same
before and after, case by case. What the pool gives to other threads is accounted for by `Waits`: those that are
parked are in the queue. `Spent` says that the worker recycles what it has passed to the sink before anything else,
so its steps lose nothing either.

`Counted.conserved` reads `Conserved` from the sum: once for each allocated buffer. `buffers_conserved` is the rule
for runs, and its case is one in which the only buffer is lent and another thread is parked.
-/

namespace P8.Core
open P8.Lib

variable {s s' : Sys} {a : Agent} {l : List Actor} {n m : Nat → Nat}

/-- A place for buffers: the pool's free ones and those handed to a waiter that has not returned, the current buffer and
the fragments of a writer, the ready queue, the service buffers, the worker's lists before and after they are passed to
the sink, and the local variable of a running thread. -/
inductive Place where
  | free
  | handed (a : Agent)
  | mpBuffer (a : Agent)
  | moFragments (a : Agent)
  | moReadyQueue
  | moSvcBuffers
  | batch
  | spent
  | svcTaken
  | svcSpent
  | localVar (a : Agent)
  deriving DecidableEq

/-- The buffers at a place, by their addresses. -/
def Place.bufs (s : Sys) : Place → List Nat
  | .free => s.pool.free
  | .handed a => (s.pool.handed a).join.toList
  | .mpBuffer a => (s.writer a).mpBuffer.toList.map (·.addr)
  | .moFragments a => (s.writer a).moFragments.map (·.addr)
  | .moReadyQueue => s.moReadyQueue.map (·.addr)
  | .moSvcBuffers => s.moSvcBuffers.map (·.addr)
  | .batch => s.batch.map (·.addr)
  | .spent => s.spent.map (·.addr)
  | .svcTaken => s.svcTaken.map (·.addr)
  | .svcSpent => s.svcSpent.map (·.addr)
  | .localVar a => (s.pc a).localBuf.toList

/-- No buffer is lost or in two places, and a thread parked in `acquire_wait` holds back none: it has none in a
local variable, and the worker can pull what its writer has. -/
structure Conserved (s : Sys) : Prop where
  once : ∀ b < s.pool.next, ∃! k : Place, b ∈ k.bufs s
  nodup : ∀ k : Place, (k.bufs s).Nodup
  known : ∀ (k : Place), ∀ b ∈ k.bufs s, b < s.pool.next
  parked : ∀ a k, s.pc a = .acquire k .parked → Place.bufs s (.localVar a) = [] ∧ (s.pc a).locked = false ∧
    (k.isData = true → Place.bufs s (.mpBuffer a) = [])

/-- How often each buffer is in a place, over all places. -/
def Counted (s : Sys) (n : Nat → Nat) : Prop := ∀ b, AddsUp (fun k : Place => (k.bufs s).count b) (n b)

/-- Every allocated buffer counts one. -/
def allocated (next b : Nat) : Nat := if b < next then 1 else 0

/-- What the buffers at some places were and are: the others stay. -/
lemma Counted.change (h : Counted s n) {K : List Place} (hk : K.Nodup)
    (off : ∀ k ∉ K, Place.bufs s' k = k.bufs s)
    (hsum : ∀ b, (K.map fun k => (k.bufs s').count b).sum + n b = (K.map fun k => (k.bufs s).count b).sum + m b) :
    Counted s' m := by
  intro b
  refine (h b).change hk (fun k hk => ?_) (hsum b)
  show List.count b (k.bufs s') = List.count b (k.bufs s)
  rw [off k hk]

/-- Nothing moved. -/
lemma Counted.same (h : Counted s n) (hb : ∀ k : Place, k.bufs s' = k.bufs s) : Counted s' n :=
  h.change (K := []) .nil (fun k _ => hb k) fun _ => rfl

/-- Who waits at the pool: parked agents, in a queue; those that were served are out of it. -/
structure Waits (s : Sys) : Prop where
  nodup : s.pool.queue.Nodup
  queued : ∀ a ∈ s.pool.queue, s.pool.handed a = none
  parked : ∀ a, a ∈ s.pool.queue ∨ s.pool.handed a ≠ none → ∃ k, s.pc a = .acquire k .parked

/-- A buffer given back is with the oldest waiter or free. -/
lemma Counted.give (h : Counted s n) (hw : Waits s) (x : Nat) : Counted (s.give x) fun b => n b + List.count b [x] := by
  cases hq : s.pool.queue with
  | nil =>
    refine h.change (K := [.free]) (List.nodup_singleton _) (fun k hk => ?_) fun b => ?_
    · cases k with
      | free => exact absurd (List.mem_singleton_self _) hk
      | _ => simp only [Place.bufs, Stock.give_nil hq]
    · simp only [List.map_cons, List.map_nil, List.sum_cons, List.sum_nil, Place.bufs, Stock.give_nil hq,
        List.count_append]
      omega
  | cons t q =>
    have ht : s.pool.handed t = none := hw.queued t (hq ▸ List.mem_cons_self)
    refine h.change (K := [.handed t]) (List.nodup_singleton _) (fun k hk => ?_) fun b => ?_
    · cases k with
      | handed c =>
        have hc : c ≠ t := by
          rintro rfl
          exact hk (List.mem_singleton_self _)
        simp only [Place.bufs, Stock.give_cons hq, Function.update_of_ne hc]
      | _ => simp only [Place.bufs, Stock.give_cons hq]
    · simp only [List.map_cons, List.map_nil, List.sum_cons, List.sum_nil, Place.bufs, Stock.give_cons hq,
        Function.update_self, ht, Option.join_some, Option.join_none, Option.toList_some, Option.toList_none,
        List.count_nil]
      omega

/-- An agent that is not parked is not waited for. -/
lemma Waits.not_waiting (h : Waits s) (hp : ∀ k, s.pc a ≠ .acquire k .parked) :
    a ∉ s.pool.queue ∧ s.pool.handed a = none := by
  constructor
  · intro hq
    obtain ⟨k, hk⟩ := h.parked a (.inl hq)
    exact hp k hk
  · by_contra hn
    obtain ⟨k, hk⟩ := h.parked a (.inr hn)
    exact hp k hk

/-- The waiters stay, and an agent that is not parked takes a step. -/
lemma Waits.of_same (h : Waits s) (hs : AgentStep a s s') (hp : ∀ k, s.pc a ≠ .acquire k .parked)
    (hq : s'.pool.queue = s.pool.queue) (hh : s'.pool.handed = s.pool.handed) : Waits s' := by
  obtain ⟨hna, hha⟩ := h.not_waiting hp
  refine ⟨hq ▸ h.nodup, fun b hb => ?_, fun b hb => ?_⟩
  · rw [hq] at hb
    rw [hh]
    exact h.queued b hb
  · rw [hq, hh] at hb
    have hne : b ≠ a := by
      rintro rfl
      exact hb.elim hna fun hn => hn hha
    rw [hs.pc_of_ne hne]
    exact h.parked b hb

/-- A buffer is given back. -/
lemma Waits.give (h : Waits s) (x : Nat) : Waits (s.give x) := by
  cases hq : s.pool.queue with
  | nil =>
    have e : (s.give x).pool = { s.pool with free := s.pool.free ++ [x] } := Stock.give_nil hq x
    refine ⟨?_, fun b hb => ?_, fun b hb => h.parked b ?_⟩
    · rw [e]
      exact h.nodup
    · rw [e] at hb ⊢
      exact h.queued b hb
    · rwa [e] at hb
  | cons t q =>
    have e : (s.give x).pool =
        { s.pool with queue := q, handed := Function.update s.pool.handed t (some (some x)) } := Stock.give_cons hq x
    have hnodup := h.nodup
    rw [hq, List.nodup_cons] at hnodup
    refine ⟨?_, fun b hb => ?_, fun b hb => h.parked b ?_⟩
    · rw [e]
      exact hnodup.2
    · rw [e] at hb ⊢
      simp only [Function.update_of_ne (ne_of_mem_of_not_mem hb hnodup.1)]
      exact h.queued b (hq ▸ List.mem_cons_of_mem _ hb)
    · rw [e] at hb
      obtain rfl | hne := eq_or_ne b t
      · exact .inl (hq ▸ List.mem_cons_self)
      · simp only [Function.update_of_ne hne] at hb
        exact hb.imp (fun hb => hq ▸ List.mem_cons_of_mem _ hb) id

/-- Buffers are given back in order. -/
lemma Waits.giveAll (h : Waits s) (xs : List Nat) : Waits { s with pool := s.pool.giveAll xs } := by
  induction xs generalizing s with
  | nil => exact h
  | cons x xs ih => exact ih (h.give x)

/-- Buffers given to the pool one by one are counted once each. -/
lemma Counted.giveAll (h : Counted s n) (hw : Waits s) (xs : List Nat) :
    Counted { s with pool := s.pool.giveAll xs } fun b => n b + List.count b xs := by
  induction xs generalizing s n with
  | nil => exact h
  | cons x xs ih =>
    have hc := ih (h.give hw x) (hw.give x)
    intro b
    have e : n b + List.count b (x :: xs) = n b + List.count b [x] + List.count b xs := by
      rw [Nat.add_assoc, ← List.count_append, List.singleton_append]
    exact (congrArg (AddsUp _) e).mpr (hc b)

/-- A step of an agent keeps the waiters. -/
lemma Waits.agent (h : Waits s) (hs : AgentStep a s s') : Waits s' := by
  have hstep := hs
  cases hs with
  | acquirePark hp =>
    obtain ⟨hna, hha⟩ := h.not_waiting (a := a) (by simp [hp])
    refine ⟨?_, fun b hb => ?_, fun b hb => ?_⟩
    · exact List.nodup_append.mpr ⟨h.nodup, List.nodup_singleton a, fun b hb c hc => by
        rw [List.mem_singleton.mp hc]
        exact ne_of_mem_of_not_mem hb hna⟩
    · simp only [Stock.park, Function.update_apply]
      split
      · rfl
      · rename_i hne
        exact h.queued b ((List.mem_append.mp hb).resolve_right fun hm => hne (List.mem_singleton.mp hm))
    · obtain rfl | hne := eq_or_ne b a
      · exact ⟨_, Function.update_self _ _ _⟩
      · simp only [Stock.park, Function.update_of_ne hne, List.mem_append, List.mem_singleton, hne, or_false] at hb ⊢
        exact h.parked b hb
  | acquireReturn hp hh =>
    have hna : a ∉ s.pool.queue := by
      intro hq
      rw [h.queued a hq] at hh
      cases hh
    refine ⟨h.nodup, fun b hb => ?_, fun b hb => ?_⟩
    · simp only [Stock.leave, Function.update_of_ne (ne_of_mem_of_not_mem hb hna)]
      exact h.queued b hb
    · obtain rfl | hne := eq_or_ne b a
      · simp [Stock.leave, hna] at hb
      · simp only [Stock.leave, Function.update_of_ne hne] at hb ⊢
        exact h.parked b hb
  | @discardExtra c o bs b hp | @discardAlone c o bs b hp =>
    have hg := h.give b.addr
    have hne : ∀ k, s.pc a ≠ .acquire k .parked := by simp [hp]
    refine ⟨hg.nodup, hg.queued, fun t ht => ?_⟩
    obtain ⟨k, hk⟩ := hg.parked t ht
    have hta : t ≠ a := by
      rintro rfl
      exact hne k hk
    exact ⟨k, (hstep.pc_of_ne hta).trans hk⟩
  | @acquireFast k b alloc hp | @acquireWait k b alloc hp | @extraBuffer e b alloc hp | @rotate c b o x n alloc hp =>
    obtain ⟨hq, hh⟩ := s.pool.acquire_waiters alloc
    exact h.of_same hstep (by simp [hp]) hq hh
  | _ => exact h.of_same hstep (by simp_all) rfl rfl

/-- The places that a step of an agent may change, but for what the pool hands to others. -/
def agentPlaces (a : Agent) : List Place :=
  [.free, .handed a, .mpBuffer a, .moFragments a, .localVar a, .moReadyQueue, .moSvcBuffers]

/-- These places are different. -/
lemma agentPlaces_nodup (a : Agent) : (agentPlaces a).Nodup := by
  simp [agentPlaces]

/-- A step of an agent leaves the other places alone. -/
lemma AgentStep.bufs_of_notMem (hs : AgentStep a s s') (hh : ∀ b, b ≠ a → s'.pool.handed b = s.pool.handed b)
    {k : Place} (hk : k ∉ agentPlaces a) : k.bufs s' = k.bufs s := by
  have hf := hs.frame
  cases k with
  | free | moReadyQueue | moSvcBuffers => simp [agentPlaces] at hk
  | handed b =>
    have hne : b ≠ a := by
      rintro rfl
      simp [agentPlaces] at hk
    simp only [Place.bufs, hh b hne]
  | mpBuffer b | moFragments b =>
    have hne : b ≠ a := by
      rintro rfl
      simp [agentPlaces] at hk
    simp only [Place.bufs, hs.writer_of_ne hne]
  | localVar b =>
    have hne : b ≠ a := by
      rintro rfl
      simp [agentPlaces] at hk
    simp only [Place.bufs, hs.pc_of_ne hne]
  | batch => simp only [Place.bufs, hf.batch]
  | spent => simp only [Place.bufs, hf.spent]
  | svcTaken => simp only [Place.bufs, hf.svcTaken]
  | svcSpent => simp only [Place.bufs, hf.svcSpent]

/-- A step of an agent that gives no buffer back: what its own places, the free buffers and the core's lists were and
are. -/
lemma Counted.agent (h : Counted s (allocated s.pool.next)) (hs : AgentStep a s s')
    (hh : ∀ b, b ≠ a → s'.pool.handed b = s.pool.handed b)
    (hsum : ∀ b, ((agentPlaces a).map fun k => (k.bufs s').count b).sum + allocated s.pool.next b =
      ((agentPlaces a).map fun k => (k.bufs s).count b).sum + allocated s'.pool.next b) :
    Counted s' (allocated s'.pool.next) :=
  h.change (agentPlaces_nodup a) (fun _ hk => hs.bufs_of_notMem hh hk) hsum

/-- The buffers in the places of an agent, in the free list and in the core's lists. -/
lemma agentPlaces_sum (s : Sys) (a : Agent) (b : Nat) : ((agentPlaces a).map fun k => (k.bufs s).count b).sum =
    List.count b s.pool.free + List.count b (s.pool.handed a).join.toList +
      List.count b ((s.writer a).mpBuffer.toList.map (·.addr)) + List.count b ((s.writer a).moFragments.map (·.addr)) +
      List.count b (s.pc a).localBuf.toList + List.count b (s.moReadyQueue.map (·.addr)) +
      List.count b (s.moSvcBuffers.map (·.addr)) := by
  simp only [agentPlaces, List.map_cons, List.map_nil, List.sum_cons, List.sum_nil, Place.bufs]
  omega

/-- A buffer that the pool gives is taken from the free ones, or counts one more. -/
lemma acquire_count {p : Stock Agent} {alloc : Bool} {x : Nat} (hx : (p.acquire alloc).2 = some x) (b : Nat) :
    List.count b (p.acquire alloc).1.free + List.count b [x] + allocated p.next b =
      List.count b p.free + allocated (p.acquire alloc).1.next b := by
  rcases Stock.acquire_cases hx with ⟨free, hf, e⟩ | ⟨hf, rfl, budget, e⟩
  · simp only [e, hf, List.count_cons, List.count_nil]
    omega
  · simp only [e, hf, List.count_cons, List.count_nil, allocated, beq_iff_eq]
    split <;> split <;> split <;> omega

/-- No step of an agent loses a buffer or has it twice. -/
lemma Counted.step_agent (h : Counted s (allocated s.pool.next)) (hw : Waits s) (hsh : Shape s)
    (hs : AgentStep a s s') : Counted s' (allocated s'.pool.next) := by
  have hstep := hs
  cases hs with
  | @discardExtra c o bs w hp _ hb | @discardAlone c o bs w hp _ hb =>
    rw [Stock.next_give]
    refine (h.give hw w.addr).change (K := [.moFragments a]) (List.nodup_singleton _) (fun k hk => ?_) fun b => ?_
    · cases k with
      | moFragments c =>
        have hc : c ≠ a := by
          rintro rfl
          exact hk (List.mem_singleton_self _)
        simp only [Place.bufs, Function.update_of_ne hc]
      | mpBuffer c =>
        simp only [Place.bufs, Function.update_apply]
        split
        · rename_i hc
          rw [hc]
          rfl
        · rfl
      | localVar c =>
        obtain rfl | hc := eq_or_ne c a
        · simp only [Place.bufs, Function.update_self, hp, Pc.localBuf]
        · simp only [Place.bufs, Function.update_of_ne hc]
      | _ => rfl
    · simp only [List.map_cons, List.map_nil, List.sum_cons, List.sum_nil, Place.bufs, Function.update_self, hb,
        TlsWriter.giveBack, List.dropLast_concat, List.map_append, List.count_append]
      omega
  | @acquireFast k x alloc hp hx | @acquireWait k x alloc hp hx =>
    have hh := (s.pool.acquire_waiters alloc).2
    refine h.agent hstep (fun b _ => congrFun hh b) fun b => ?_
    have hc := acquire_count hx b
    rw [agentPlaces_sum, agentPlaces_sum]
    simp only [Function.update_self, hp, Pc.localBuf, hh, Option.toList_some, Option.toList_none, List.count_nil]
    omega
  | @extraBuffer e x alloc hp _ _ hx =>
    have hh := (s.pool.acquire_waiters alloc).2
    refine h.agent hstep (fun b _ => congrFun hh b) fun b => ?_
    have hc := acquire_count hx b
    rw [agentPlaces_sum, agentPlaces_sum]
    simp only [hh, List.map_append, List.map_cons, List.map_nil, List.count_append]
    omega
  | @rotate c w o x n alloc hp hb _ _ hx =>
    have hh := (s.pool.acquire_waiters alloc).2
    refine h.agent hstep (fun b _ => congrFun hh b) fun b => ?_
    have hc := acquire_count hx b
    rw [agentPlaces_sum, agentPlaces_sum]
    simp only [Function.update_self, hh, hb, TlsWriter.rotated, TlsWriter.rotate, TlsWriter.openBuf,
      Option.toList_some, List.map_append, List.map_cons, List.map_nil, List.count_append]
    omega
  | acquirePark hp =>
    have hha := (hw.not_waiting (a := a) (by simp [hp])).2
    refine h.agent hstep (fun b hb => Function.update_of_ne hb _ _) fun b => ?_
    rw [agentPlaces_sum, agentPlaces_sum]
    simp only [Function.update_self, hp, Pc.localBuf, Stock.park, hha]
  | acquireReturn hp hr =>
    refine h.agent hstep (fun b hb => Function.update_of_ne hb _ _) fun b => ?_
    rw [agentPlaces_sum, agentPlaces_sum]
    simp only [Function.update_self, hp, Pc.localBuf, Stock.leave, hr, Option.join_some, Option.join_none,
      Option.toList_none, List.count_nil]
    omega
  | gotSvc hp =>
    refine h.agent hstep (fun _ _ => rfl) fun b => ?_
    rw [agentPlaces_sum, agentPlaces_sum]
    simp only [Function.update_self, hp, Pc.localBuf, Option.toList_some, Option.toList_none, List.map_append,
      List.map_cons, List.map_nil, List.count_append, List.count_nil]
    omega
  | gotBuffer hp =>
    have hnone := hsh.noCurrent a (by rw [hp]; rfl)
    refine h.agent hstep (fun _ _ => rfl) fun b => ?_
    rw [agentPlaces_sum, agentPlaces_sum]
    simp only [Function.update_self, hp, hnone, Pc.localBuf, TlsWriter.openBuffer, TlsWriter.openBuf,
      Option.toList_some, Option.toList_none, List.map_cons, List.map_nil, List.count_nil]
    omega
  | register hp =>
    have hheld := hsh.left a (.inr (by rw [hp]; rfl))
    rw [TlsWriter.held, List.append_eq_nil_iff] at hheld
    refine h.agent hstep (fun _ _ => rfl) fun b => ?_
    rw [agentPlaces_sum, agentPlaces_sum]
    simp only [Function.update_self, hp, hheld, Pc.localBuf, TlsWriter.start, Option.toList_none]
  | corePush hp =>
    refine h.agent hstep (fun _ _ => rfl) fun b => ?_
    rw [agentPlaces_sum, agentPlaces_sum]
    simp only [Function.update_self, hp, Pc.localBuf, TlsWriter.clear, TlsWriter.held, List.map_append,
      Option.toList_none, List.map_nil, List.count_append, List.count_nil]
    omega
  | parkFull hp hb =>
    refine h.agent hstep (fun _ _ => rfl) fun b => ?_
    rw [agentPlaces_sum, agentPlaces_sum]
    simp only [Function.update_self, hp, Pc.localBuf, TlsWriter.park, TlsWriter.held, List.map_append,
      Option.toList_none, List.map_nil, List.count_append, List.count_nil]
    omega
  | rotateFails hp hb =>
    refine h.agent hstep (fun _ _ => rfl) fun b => ?_
    rw [agentPlaces_sum, agentPlaces_sum]
    simp only [Function.update_self, hp, hb, Pc.localBuf, TlsWriter.rotate, List.map_append, List.map_cons,
      Option.toList_some, Option.toList_none, List.map_nil, List.count_append, List.count_nil]
    omega
  | discardCut hp ho hb =>
    have hnone := hsh.noCurrent a (by rw [hp]; rfl)
    refine h.agent hstep (fun _ _ => rfl) fun b => ?_
    rw [agentPlaces_sum, agentPlaces_sum]
    simp only [Function.update_self, hp, hb, hnone, Pc.localBuf, TlsWriter.restore, List.dropLast_concat,
      List.map_append, List.map_cons, Option.toList_some, Option.toList_none, List.map_nil, List.count_append,
      List.count_nil]
    omega
  | @finish c w o pad hp hb =>
    refine h.agent hstep (fun _ _ => rfl) fun b => ?_
    rw [agentPlaces_sum, agentPlaces_sum]
    simp only [Function.update_self, hp, hb, Pc.localBuf, TlsWriter.finish, TlsWriter.put]
    split
    · simp only [TlsWriter.park, TlsWriter.held, List.map_append, Option.toList_some, Option.toList_none, List.map_cons,
        List.map_nil, List.count_append, List.count_nil]
      omega
    · simp only [Option.toList_some, List.map_cons, List.map_nil]
  | begin hp hb | put hp hb =>
    refine h.agent hstep (fun _ _ => rfl) fun b => ?_
    rw [agentPlaces_sum, agentPlaces_sum]
    simp only [Function.update_self, TlsWriter.begin, TlsWriter.put, hp, hb, Pc.localBuf, Option.toList_some,
      List.map_cons, List.map_nil]
  | reserve hp hb | fillNext hp hb | fillLast hp hb | extraFill hp hb =>
    refine h.agent hstep (fun _ _ => rfl) fun b => ?_
    rw [agentPlaces_sum, agentPlaces_sum]
    simp only [Function.update_self, hp, hb, Pc.localBuf, List.map_append, List.map_cons, List.map_nil,
      SvcBuf.reserve, SvcBuf.written]
  | construct hp | callPlain hp | callKnown hp | callResolve hp | lookup hp | found hp | noDesc hp | notFound hp
  | svcLock hp | publish hp | tooBig hp | acquireSvc hp | noSvc hp | extra hp | extraDropped hp | acquireSlow hp
  | acquireStopping hp | lock hp | hasRoom hp | noBuffer hp | gotNone hp | unregister hp | release hp =>
    refine h.agent hstep (fun _ _ => rfl) fun b => ?_
    rw [agentPlaces_sum, agentPlaces_sum]
    simp only [Function.update_self, hp, Pc.localBuf]

/-- What the worker has passed to the sink it recycles before anything else. -/
structure Spent (s : Sys) : Prop where
  data : s.spent = [] ∨ ∃ b, s.worker = .recycle b
  service : s.svcSpent = [] ∨ ∃ b t, s.worker = .recycleSvc b t

/-- A step of the worker recycles what it has passed on. -/
lemma Spent.worker (h : Spent s) (hs : WorkerStep s s') : Spent s' := by
  obtain ⟨data, service⟩ := h
  cases hs with
  | flush hw _ => exact ⟨.inr ⟨_, rfl⟩, .inl (service.resolve_right (by simp [hw]))⟩
  | recycle hw => exact ⟨.inl rfl, .inl (service.resolve_right (by simp [hw]))⟩
  | writeSvc hw _ => exact ⟨.inl (data.resolve_right (by simp [hw])), .inr ⟨_, _, rfl⟩⟩
  | recycleSvc hw _ => exact ⟨.inl (data.resolve_right (by simp [hw])), .inr ⟨_, _, hw⟩⟩
  | recycledSvc hw he => exact ⟨.inl (data.resolve_right (by simp [hw])), .inl he⟩
  | wake hw | wakeStop hw | readClock hw | drainLock hw | pull hw | drained hw | takeReady hw | takeSvc hw | noSvc hw
  | skip hw | again hw | stop hw =>
    exact ⟨.inl (data.resolve_right (by simp [hw])), .inl (service.resolve_right (by simp [hw]))⟩

/-- What the worker's places were and are. -/
lemma Counted.moved (h : Counted s n) {i j : Place} (hij : i ≠ j)
    (off : ∀ k, k ≠ i → k ≠ j → Place.bufs s' k = k.bufs s)
    (hsum : ∀ b, List.count b (i.bufs s') + List.count b (j.bufs s') =
      List.count b (i.bufs s) + List.count b (j.bufs s)) : Counted s' n := by
  refine h.change (K := [i, j]) (by simp [hij]) (fun k hk => ?_) fun b => ?_
  · rw [List.mem_cons, List.mem_singleton, not_or] at hk
    exact off k hk.1 hk.2
  · have hb := hsum b
    simp only [List.map_cons, List.map_nil, List.sum_cons, List.sum_nil]
    omega

/-- No step of the worker loses a buffer or has it twice. -/
lemma Counted.step_worker (h : Counted s (allocated s.pool.next)) (hw : Waits s) (hsp : Spent s)
    (hs : WorkerStep s s') : Counted s' (allocated s'.pool.next) := by
  cases hs with
  | @pull b t a todo hwk hl =>
    refine h.change (K := [.batch, .mpBuffer a, .moFragments a]) (by simp) (fun k hk => ?_) fun b => ?_
    · simp only [List.mem_cons, List.not_mem_nil, or_false, not_or] at hk
      cases k with
      | mpBuffer c | moFragments c =>
        have hc : c ≠ a := by
          rintro rfl
          simp at hk
        simp only [Place.bufs, Function.update_of_ne hc]
      | batch => exact absurd rfl hk.1
      | _ => rfl
    · simp only [List.map_cons, List.map_nil, List.sum_cons, List.sum_nil, Place.bufs, Function.update_self,
        TlsWriter.clear, TlsWriter.held, List.map_append, List.count_append, Option.toList_none, List.count_nil]
      omega
  | takeReady =>
    refine h.moved (i := .batch) (j := .moReadyQueue) (fun e => Place.noConfusion e) (fun k hi hj => ?_) fun b => ?_
    · cases k <;> first | rfl | exact absurd rfl hi | exact absurd rfl hj
    · simp only [Place.bufs, List.map_append, List.count_append, List.map_nil, List.count_nil, Nat.add_zero]
  | takeSvc =>
    refine h.moved (i := .svcTaken) (j := .moSvcBuffers) (fun e => Place.noConfusion e) (fun k hi hj => ?_) fun b => ?_
    · cases k <;> first | rfl | exact absurd rfl hi | exact absurd rfl hj
    · simp only [Place.bufs, List.map_append, List.count_append, List.map_nil, List.count_nil, Nat.add_zero]
  | writeSvc hwk _ =>
    have hnil := hsp.service.resolve_right (by simp [hwk])
    refine h.moved (i := .svcTaken) (j := .svcSpent) (fun e => Place.noConfusion e) (fun k hi hj => ?_) fun b => ?_
    · cases k <;> first | rfl | exact absurd rfl hi | exact absurd rfl hj
    · simp only [Place.bufs, hnil, List.map_nil, List.count_nil, Nat.add_zero, Nat.zero_add]
  | flush hwk _ =>
    have hnil := hsp.data.resolve_right (by simp [hwk])
    refine h.moved (i := .batch) (j := .spent) (fun e => Place.noConfusion e) (fun k hi hj => ?_) fun b => ?_
    · cases k <;> first | rfl | exact absurd rfl hi | exact absurd rfl hj
    · simp only [Place.bufs, hnil, List.map_nil, List.count_nil, Nat.add_zero, Nat.zero_add]
  | @recycleSvc b t x xs hwk hx =>
    rw [Stock.next_give]
    refine (h.give hw x.addr).change (K := [.svcSpent]) (List.nodup_singleton _) (fun k hk => ?_) fun b => ?_
    · cases k <;> first | rfl | exact absurd (List.mem_singleton_self _) hk
    · simp only [List.map_cons, List.map_nil, List.sum_cons, List.sum_nil, Place.bufs, hx, List.count_cons,
        List.count_nil]
      omega
  | recycle hwk =>
    rw [Stock.next_giveAll]
    refine (h.giveAll hw (s.spent.map (·.addr))).change (K := [.spent]) (List.nodup_singleton _) (fun k hk => ?_)
      fun b => ?_
    · cases k <;> first | rfl | exact absurd (List.mem_singleton_self _) hk
    · simp only [List.map_cons, List.map_nil, List.sum_cons, List.sum_nil, Place.bufs, List.count_nil]
      omega
  | _ => exact h.same fun k => by cases k <;> rfl

/-- A step of the worker keeps the waiters. -/
lemma Waits.worker (h : Waits s) (hs : WorkerStep s s') : Waits s' := by
  cases hs with
  | @recycleSvc b t x xs hwk hx =>
    have hg := h.give x.addr
    exact ⟨hg.nodup, hg.queued, hg.parked⟩
  | recycle hwk =>
    have hg := h.giveAll (s.spent.map (·.addr))
    exact ⟨hg.nodup, hg.queued, hg.parked⟩
  | _ => exact ⟨h.nodup, h.queued, h.parked⟩

/-- A step of the main thread: those that waited are served with no buffer. -/
lemma Waits.main (h : Waits s) (hs : MainStep s s') : Waits s' := by
  cases hs with
  | stopWaiters =>
    refine ⟨.nil, nofun, fun a ha => ?_⟩
    have ha := ha.resolve_left nofun
    by_cases hq : a ∈ s.pool.queue
    · exact h.parked a (.inl hq)
    · simp only [Stock.stop, if_neg hq] at ha
      exact h.parked a (.inr ha)
  | _ => exact ⟨h.nodup, h.queued, h.parked⟩

/-- A step of the main thread keeps every buffer's count. -/
lemma Counted.step_main (h : Counted s n) (hw : Waits s) (hs : MainStep s s') : Counted s' n := by
  refine h.same fun k => ?_
  cases hs with
  | stopWaiters =>
    cases k with
    | handed a =>
      simp only [Place.bufs, Stock.stop]
      split
      · rename_i hq
        rw [hw.queued a hq]
        rfl
      · rfl
    | _ => rfl
  | _ => cases k <;> rfl

/-- The buffers that a pool begins with are free. -/
lemma Counted.start (ticks : Ticks) (mpBudget : Option Budget) (n : Nat) :
    Counted (.init ticks mpBudget n) (allocated n) := by
  intro b
  refine AddsUp.zero.change (l := [Place.free]) (List.nodup_singleton _) (fun k hk => ?_) ?_
  · cases k <;> first | rfl | exact absurd (List.mem_singleton_self _) hk
  · simp only [List.map_cons, List.map_nil, List.sum_cons, List.sum_nil, Place.bufs, Sys.init, allocated,
      List.nodup_range.count, List.mem_range]
    omega

/-- Where every allocated buffer counts one, it is in one place. -/
lemma Counted.conserved (h : Counted s (allocated s.pool.next)) (hsh : Shape s) : Conserved s := by
  refine ⟨fun b hb => ?_, fun k => ?_, fun k b hb => ?_, fun a k hp => ⟨?_, ?_, fun hd => ?_⟩⟩
  · have hone := h b
    rw [allocated, if_pos hb] at hone
    obtain ⟨k, hk, hother⟩ := hone.eq_one
    refine ⟨k, List.count_pos_iff.mp (hk ▸ Nat.one_pos), fun k' hk' => ?_⟩
    by_contra hne
    exact absurd (List.count_pos_iff.mpr hk') (Nat.not_lt.mpr (hother k' hne).le)
  · refine List.nodup_iff_count_le_one.mpr fun b => ((h b).le k).trans ?_
    unfold allocated
    split <;> omega
  · by_contra hn
    have hle := (h b).le k
    rw [allocated, if_neg hn] at hle
    exact absurd (List.count_pos_iff.mpr hb) (Nat.not_lt.mpr hle)
  · rw [Place.bufs, hp]
    rfl
  · rw [hp]
    rfl
  · have hnone := hsh.noCurrent a (by rw [hp]; exact hd)
    rw [Place.bufs, hnone]
    rfl

/-- What every step keeps holds at the end of a run. -/
lemma Conserved.invariants (h : system.Run l s) :
    Counted s (allocated s.pool.next) ∧ Waits s ∧ Spent s := by
  refine h.invariant (I := fun _ s => Counted s (allocated s.pool.next) ∧ Waits s ∧ Spent s) ?_ ?_
  · rintro s ⟨ticks, mpBudget, n, rfl⟩
    exact ⟨.start ticks mpBudget n, ⟨.nil, nofun, fun a ha => ha.elim nofun fun hn => absurd rfl hn⟩, .inl rfl,
      .inl rfl⟩
  · rintro l s x s' hr ⟨hc, hw, hsp⟩ hs
    cases hs with
    | agent a hs =>
      have hf := hs.frame
      refine ⟨hc.step_agent hw (.run hr) hs, hw.agent hs, ?_⟩
      exact ⟨by rw [hf.spent, hf.worker]; exact hsp.data, by rw [hf.svcSpent, hf.worker]; exact hsp.service⟩
    | worker hs => exact ⟨hc.step_worker hw hsp hs, hw.worker hs, hsp.worker hs⟩
    | main hs =>
      have hn : s'.pool.next = s.pool.next := by
        cases hs <;> rfl
      refine ⟨hn ▸ hc.step_main hw hs, hw.main hs, ?_⟩
      cases hs <;> exact ⟨hsp.data, hsp.service⟩
    | tick k => exact ⟨hc, ⟨hw.nodup, hw.queued, hw.parked⟩, hsp.data, hsp.service⟩

/-- In every state of every run each buffer that the pool allocated is in one place, and once, and no parked thread
holds one back. -/
theorem buffers_conserved (h : system.Run l s) : Conserved s := (Conserved.invariants h).1.conserved (.run h)

/-- The only buffer is an agent's current one while another agent is parked. -/
lemma parked_run : ∃ (l : List Actor) (s : Sys) (c : Call), system.Run l s ∧ s.pool.next = 1 ∧
    0 ∈ Place.bufs s (.mpBuffer 0) ∧ s.pc 1 = .acquire (.data c) .parked := by
  let c : Call := ⟨.trcEnd, 0, fun _ => 0, fun _ => 0, 0⟩
  have h : system.Run _ _ := .start ⟨⟨0, 0, 0⟩, some ⟨mzDataBufferSize, mzDataBufferSize⟩, 1, rfl⟩
  have h := h.step (.agent 0 (.construct rfl rfl))
  have h := h.step (.agent 0 (.register rfl nofun))
  have h := h.step (.agent 0 (.callPlain (c := c) rfl rfl))
  have h := h.step (.agent 0 (.lock rfl))
  have h := h.step (.agent 0 (.noBuffer rfl rfl))
  have h := h.step (.agent 0 (.acquireFast rfl (show (Sys.tryAcquire _ true).2 = some 0 from rfl)))
  have h := h.step (.agent 0 (.gotBuffer rfl))
  have h := h.step (.agent 0 (.begin rfl rfl))
  have h := h.step (.agent 0 (.finish rfl rfl rfl (show _ + 0 ≤ mzDataBufferSize by decide)))
  have h := h.step (.agent 1 (.construct rfl rfl))
  have h := h.step (.agent 1 (.register rfl nofun))
  have h := h.step (.agent 1 (.callPlain (c := c) rfl rfl))
  have h := h.step (.agent 1 (.lock rfl))
  have h := h.step (.agent 1 (.noBuffer rfl rfl))
  have h := h.step (.agent 1 (.acquireSlow rfl (show (Sys.tryAcquire _ true).2 = none from rfl)))
  have h := h.step (.agent 1 (.acquirePark rfl (show (Sys.tryAcquire _ true).2 = none from rfl) rfl))
  exact ⟨_, _, c, h, rfl, List.mem_singleton_self _, rfl⟩

/-- A run in which one thread has the only buffer and another is parked at the pool. -/
theorem buffers_conserved_parked : ∃ (s : Sys) (c : Call), s.pool.next = 1 ∧ 0 ∈ Place.bufs s (.mpBuffer 0) ∧
    s.pc 1 = .acquire (.data c) .parked ∧ Conserved s := by
  obtain ⟨l, s, c, h, hn, hb, hp⟩ := parked_run
  exact ⟨s, c, hn, hb, hp, buffers_conserved h⟩

end P8.Core
