import Mathlib.Data.List.ReduceOption
import P8.Lib.LinkedQueue
import P8.Pool.BufferPool

/-!
# The waiters of a pool

The list of threads that the linked nodes of a pool stand for, and what each operation does to it.

`Queued p q` says that `q` is queued at `p`: the nodes are a queue in the sense of `Lib.Linked`, the count is right,
everybody in it waits on a condition variable and is not done, and while there is somebody the pool is dry. It is
the invariant under which no operation meets a null pointer, so the lemmas also say that the operations have a
result.

There is a specification for each operation: `Queued.acquireNoLock` and `Queued.enqueue` for calls, `Queued.handOff`
for one buffer that is handed over, `recycleList_spec` for a list of them with `Delivered`, which gives the first
waiters the buffers in order and leaves the rest free, and `stopLoop_spec` and `Queued.stopWaiters` for the end,
with `Woken`. `SameStock` and `SameMarks` are their frames. The lemmas on nodes (`setNode_self`, `serve_next`) are
what lets the proofs above go without the definitions.
-/

namespace P8.Pool
open P8.Lib

variable {τ β : Type} {p p' : Pool τ β} {q : List τ} {t : τ}

/-- The threads queued at a pool. While there is one, nothing is free and the budget is used up. -/
structure Queued (p : Pool τ β) (q : List τ) : Prop where
  linked : Linked (fun t => (p.node t).mpNext) p.mpWaitHead p.mpWaitTail q
  count : p.muWaitCount = q.length
  waits : ∀ t ∈ q, (p.node t).mbDone = false ∧ (p.node t).mpCv.isSome = true
  empty : q ≠ [] → p.moFree = [] ∧ p.tryReserve.2 = false
  order : p.arrived = p.served.map (·.1) ++ q
  stopped : p.mbStopping = true → q = []

/-- What an operation on the queue leaves alone. -/
structure SameStock (p p' : Pool τ β) : Prop where
  size : p'.mzBufferSize = p.mzBufferSize
  budget : p'.mpBudget = p.mpBudget
  all : p'.moAll = p.moAll
  arrived : p'.arrived = p.arrived
  inflight : p'.muInflight = p.muInflight

/-- Nothing happens to a pool. -/
lemma SameStock.refl : SameStock p p := ⟨rfl, rfl, rfl, rfl, rfl⟩

/-- One operation on the queue after the other. -/
lemma SameStock.trans {p'' : Pool τ β} (h : SameStock p p') (h' : SameStock p' p'') : SameStock p p'' :=
  ⟨h'.size.trans h.size, h'.budget.trans h.budget, h'.all.trans h.all, h'.arrived.trans h.arrived,
    h'.inflight.trans h.inflight⟩

/-- Whether the budget has room depends on the budget and the size. -/
lemma tryReserve_congr (hs : p'.mzBufferSize = p.mzBufferSize) (hb : p'.mpBudget = p.mpBudget) :
    p'.tryReserve.2 = p.tryReserve.2 := by
  unfold tryReserve
  rw [hb]
  cases p.mpBudget with
  | none => rfl
  | some b => rw [hs]

/-- A reservation that fails changes nothing. -/
lemma tryReserve_false (h : p.tryReserve.2 = false) : p.tryReserve = (p, false) := by
  unfold tryReserve at h ⊢
  cases hb : p.mpBudget with
  | none =>
    rw [hb] at h
    cases h
  | some b =>
    rw [hb] at h
    simp only [Budget.tryReserve] at h ⊢
    split at h
    · rename_i hc
      rw [if_pos hc, ← hb]
    · cases h

/-- Nothing free and no room: no buffer, whatever `new` would give. -/
lemma acquireNoLock_none (new : Option β) (hf : p.moFree = []) (hr : p.tryReserve.2 = false) :
    p.acquireNoLock new = (p, none) := by
  unfold acquireNoLock
  rw [hf, tryReserve_false hr]

/-- An acquisition whose allocation does not fail gives no buffer only when nothing is free and there is no room. -/
lemma acquireNoLock_eq_none {b : β} (h : p.acquireNoLock (some b) = (p', none)) :
    p' = p ∧ p.moFree = [] ∧ p.tryReserve.2 = false := by
  unfold acquireNoLock at h
  cases hf : p.moFree with
  | cons c free =>
    rw [hf] at h
    cases h
  | nil =>
    rw [hf] at h
    cases hr : p.tryReserve.2 with
    | false =>
      rw [tryReserve_false hr] at h
      cases h
      exact ⟨rfl, rfl, rfl⟩
    | true =>
      simp only at h
      split at h
      · rename_i e
        rw [e] at hr
        cases hr
      · cases h

/-- A reservation writes to the budget only. -/
lemma tryReserve_fields : p.tryReserve.1 = { p with mpBudget := p.tryReserve.1.mpBudget } := by
  unfold tryReserve
  split <;> rfl

/-- An acquisition changes the stock alone. -/
lemma acquireNoLock_fields (b : β) : ∃ budget free all,
    (p.acquireNoLock (some b)).1 = { p with mpBudget := budget, moFree := free, moAll := all } := by
  unfold acquireNoLock
  split
  · rename_i c free hf
    exact ⟨p.mpBudget, free, p.moAll, rfl⟩
  · rename_i hf
    have hp := tryReserve_fields (p := p)
    split
    · rename_i q e
      rw [e] at hp
      exact ⟨_, _, _, hp⟩
    · rename_i q e
      rw [e] at hp
      refine ⟨q.mpBudget, q.moFree, q.moAll ++ [b], ?_⟩
      simp only at hp ⊢
      rw [hp]

/-- Taking a buffer leaves the queue as it is. -/
lemma Queued.acquireNoLock (h : Queued p q) (b : β) : Queued (p.acquireNoLock (some b)).1 q := by
  by_cases hq : q = []
  · obtain ⟨budget, free, all, e⟩ := acquireNoLock_fields (p := p) b
    rw [e]
    exact ⟨h.linked, h.count, h.waits, fun hn => absurd hq hn, h.order, h.stopped⟩
  · have he := h.empty hq
    rw [acquireNoLock_none (some b) he.1 he.2]
    exact h

/-- A node keeps its marks: all but the link. -/
def SameMarks (p p' : Pool τ β) (t : τ) : Prop :=
  (p'.node t).mpBuf = (p.node t).mpBuf ∧ (p'.node t).mbDone = (p.node t).mbDone ∧
    (p'.node t).mpCv = (p.node t).mpCv

/-- What recycling the buffers `bs` does to a pool where `q` is queued: the first waiters get them in order and
their shards are notified, and what is left over is free. -/
structure Delivered (q : List τ) (bs : List β) (p p' : Pool τ β) (shards : List Shard) : Prop where
  queued : Queued p' (q.drop bs.length)
  free : p'.moFree = p.moFree ++ bs.drop q.length
  served : p'.served = p.served ++ q.zip (bs.map some)
  marked : ∀ x ∈ q.zip (bs.map some), (p'.node x.1).mpBuf = x.2 ∧ (p'.node x.1).mbDone = true
  others : ∀ t, t ∉ q.take bs.length → p'.node t = p.node t
  notified : ∀ t ∈ q.take bs.length, ∃ shard ∈ shards, (p.node t).mpCv = some shard
  stock : SameStock p p'
  stopping : p'.mbStopping = p.mbStopping

/-- The served waiters are those at the front of the queue. -/
lemma exists_zip_of_mem_take {t : τ} {bs : List β} (h : t ∈ q.take bs.length) :
    ∃ b, (t, some b) ∈ q.zip (bs.map some) := by
  induction bs generalizing q with
  | nil => exact absurd h nofun
  | cons b bs ih =>
    cases q with
    | nil => exact absurd h (by simp)
    | cons u q =>
      rcases List.mem_cons.mp h with rfl | h
      · exact ⟨b, List.mem_cons_self⟩
      · obtain ⟨c, hc⟩ := ih h
        exact ⟨c, List.mem_cons_of_mem _ hc⟩

/-- The calls that are not at the front of the queue stay. -/
lemma mem_drop_iff {n : Nat} (h : t ∉ q.take n) : t ∈ q.drop n ↔ t ∈ q := by
  conv_rhs => rw [← List.take_append_drop n q]
  simp only [List.mem_append, h, false_or]

/-- A call at the front of the queue is marked done with a buffer. -/
lemma Delivered.handed {bs : List β} {shards : List Shard} (h : Delivered q bs p p' shards)
    (ht : t ∈ q.take bs.length) : (p'.node t).mbDone = true ∧ (p'.node t).mpBuf ≠ none := by
  obtain ⟨b, hb⟩ := exists_zip_of_mem_take ht
  have hm := h.marked _ hb
  exact ⟨hm.2, fun hb' => Option.some_ne_none b (hm.1.symm.trans hb')⟩

/-- No buffers are recycled. -/
lemma Delivered.nil (h : Queued p q) : Delivered q [] p p [] where
  queued := h
  free := by
    rw [List.drop_nil, List.append_nil]
  served := by
    rw [List.map_nil, List.zip_nil_right, List.append_nil]
  marked := by
    rw [List.map_nil, List.zip_nil_right]
    exact nofun
  others := fun _ _ => rfl
  notified := nofun
  stock := .refl
  stopping := rfl

/-- One buffer, and then the rest. -/
lemma Delivered.cons {b : β} {bs : List β} {p₁ : Pool τ β} {shards₁ shards : List Shard}
    (h₁ : Delivered q [b] p p₁ shards₁) (hq : q.Nodup) (h : Delivered (q.drop 1) bs p₁ p' shards) :
    Delivered q (b :: bs) p p' (shards₁ ++ shards) := by
  cases q with
  | nil =>
    have hq' := h.queued
    simp only [List.drop_nil] at hq'
    refine ⟨List.drop_nil.symm ▸ hq', ?_, ?_, nofun, fun t _ => ?_, ?_, h₁.stock.trans h.stock,
      h.stopping.trans h₁.stopping⟩
    · rw [h.free, h₁.free, List.append_assoc]
      rfl
    · rw [h.served, h₁.served]
      exact List.append_nil _
    · refine (h.others t ?_).trans (h₁.others t nofun)
      rw [List.drop_nil, List.take_nil]
      exact nofun
    · rw [List.take_nil]
      exact nofun
  | cons t q =>
    rw [List.nodup_cons] at hq
    refine ⟨h.queued, ?_, ?_, ?_, fun u hu => ?_, ?_, h₁.stock.trans h.stock, h.stopping.trans h₁.stopping⟩
    · rw [h.free, h₁.free]
      simp only [List.length_cons, List.drop_succ_cons, List.drop_zero, List.drop_nil, List.append_nil]
    · rw [h.served, h₁.served, List.append_assoc]
      simp only [List.map_cons, List.map_nil, List.zip_cons_cons, List.zip_nil_right, List.drop_succ_cons,
        List.drop_zero, List.singleton_append]
    · intro x hx
      rcases List.mem_cons.mp hx with rfl | hx
      · have hm := h₁.marked (t, some b) List.mem_cons_self
        rw [h.others t fun ht => hq.1 (List.mem_of_mem_take ht)]
        exact hm
      · exact h.marked x hx
    · rw [List.length_cons, List.take_succ_cons, List.mem_cons, not_or] at hu
      refine (h.others u hu.2).trans (h₁.others u ?_)
      exact fun hut => hu.1 (List.mem_singleton.mp hut)
    · intro u hu
      rcases List.mem_cons.mp hu with rfl | hu
      · obtain ⟨shard, hs, e⟩ := h₁.notified u List.mem_cons_self
        exact ⟨shard, List.mem_append_left _ hs, e⟩
      · obtain ⟨shard, hs, e⟩ := h.notified u hu
        refine ⟨shard, List.mem_append_right _ hs, ?_⟩
        rw [← e, h₁.others u]
        intro hut
        rw [List.mem_singleton.mp hut] at hu
        exact hq.1 (List.mem_of_mem_take hu)

variable [DecidableEq τ]

/-- The node that was set. -/
lemma setNode_self (p : Pool τ β) (t : τ) (w : Waiter τ β) : (p.setNode t w).node t = w :=
  Function.update_self (β := fun _ => Waiter τ β) t w p.node

/-- The nodes of other threads stay. -/
lemma setNode_of_ne {u : τ} (p : Pool τ β) (w : Waiter τ β) (h : u ≠ t) : (p.setNode t w).node u = p.node u :=
  Function.update_of_ne (β := fun _ => Waiter τ β) h w p.node

/-- The links after a write to a node. -/
lemma setNode_next (p : Pool τ β) (t : τ) (w : Waiter τ β) :
    (fun u => ((p.setNode t w).node u).mpNext) = Function.update (fun u => (p.node u).mpNext) t w.mpNext := by
  funext u
  by_cases e : u = t
  · subst e
    rw [setNode_self, Function.update_self]
  · rw [setNode_of_ne p w e, Function.update_of_ne e]

/-- A write to the link of a node keeps the marks of all. -/
lemma setLink_sameMarks (p : Pool τ β) (u v : τ) (n : Option τ) :
    SameMarks p (p.setNode u { p.node u with mpNext := n }) v := by
  by_cases e : v = u
  · subst e
    simp only [SameMarks, setNode_self, and_self]
  · simp only [SameMarks, setNode_of_ne p _ e, and_self]

/-- Linking a node keeps the marks of all, and everything but the head pointer and the links. -/
lemma link_spec (p : Pool τ β) (t : τ) :
    (∀ u, SameMarks p (p.link t) u) ∧
      p.link t = { p with mpWaitHead := (p.link t).mpWaitHead, node := (p.link t).node } := by
  unfold link
  split
  · exact ⟨fun v => setLink_sameMarks p _ v (some t), rfl⟩
  · exact ⟨fun _ => ⟨rfl, rfl, rfl⟩, rfl⟩

/-- The list behind the last node goes on with the new one. -/
lemma link_linked (h : Linked (fun t => (p.node t).mpNext) p.mpWaitHead p.mpWaitTail q) (ht : t ∉ q)
    (hn : (p.node t).mpNext = none) :
    Linked (fun u => ((p.link t).node u).mpNext) (p.link t).mpWaitHead (some t) (q ++ [t]) := by
  unfold link
  cases e : p.mpWaitTail with
  | none =>
    rw [e] at h
    exact h.enqueue_first hn
  | some u =>
    rw [e] at h
    have hl := h.enqueue_last ht hn
    simp only
    rw [setNode_next]
    exact hl

/-- A call that queues is one more that arrived, and does not stop the pool. -/
lemma enqueue_fields (p : Pool τ β) (t : τ) :
    (p.enqueue t).mbStopping = p.mbStopping ∧ (p.enqueue t).arrived = p.arrived ++ [t] := by
  unfold Pool.enqueue
  rw [(link_spec (p.setNode t ⟨none, none, false, some p.nextShard⟩) t).2]
  exact ⟨rfl, rfl⟩

/-- It is one more in flight. -/
lemma enqueue_inflight (p : Pool τ β) (t : τ) : (p.enqueue t).muInflight = p.muInflight + 1 := by
  unfold Pool.enqueue
  rw [(link_spec (p.setNode t ⟨none, none, false, some p.nextShard⟩) t).2]
  rfl

/-- `acquire_wait` puts a thread at the end of the queue, in a node of its own. -/
lemma Queued.enqueue (h : Queued p q) (ht : t ∉ q) (hf : p.moFree = []) (hr : p.tryReserve.2 = false)
    (hs : p.mbStopping = false) :
    Queued (p.enqueue t) (q ++ [t]) ∧
      SameMarks (p.setNode t ⟨none, none, false, some p.nextShard⟩) (p.enqueue t) t ∧
      ∀ u, u ≠ t → SameMarks p (p.enqueue t) u := by
  have hkeep : Linked (fun u => ((p.setNode t ⟨none, none, false, some p.nextShard⟩).node u).mpNext)
      p.mpWaitHead p.mpWaitTail q := by
    refine h.linked.congr fun u hu => ?_
    rw [setNode_of_ne]
    rintro rfl
    exact ht hu
  have hnew : ((p.setNode t ⟨none, none, false, some p.nextShard⟩).node t).mpNext = none := by
    rw [setNode_self]
  have hlinked := link_linked hkeep ht hnew
  obtain ⟨hmarks, e⟩ := link_spec (p.setNode t ⟨none, none, false, some p.nextShard⟩) t
  have hother : ∀ u, u ≠ t → SameMarks p (p.enqueue t) u := by
    intro u hu
    have hm := hmarks u
    unfold SameMarks at hm ⊢
    rw [setNode_of_ne p _ hu] at hm
    exact hm
  have hself : SameMarks (p.setNode t ⟨none, none, false, some p.nextShard⟩) (p.enqueue t) t := hmarks t
  have hwaits : ∀ u ∈ q ++ [t],
      ((p.enqueue t).node u).mbDone = false ∧ ((p.enqueue t).node u).mpCv.isSome = true := by
    intro u hu
    rw [List.mem_append, List.mem_singleton] at hu
    by_cases hut : u = t
    · rw [hut, hself.2.1, hself.2.2, setNode_self]
      exact ⟨rfl, rfl⟩
    · have hw := h.waits u (hu.resolve_right hut)
      rw [(hother u hut).2.1, (hother u hut).2.2]
      exact hw
  refine ⟨?_, hself, hother⟩
  unfold Pool.enqueue at hwaits ⊢
  rw [e] at hlinked hwaits ⊢
  refine ⟨hlinked, ?_, hwaits, fun _ => ⟨hf, ?_⟩, ?_, fun hs' => ?_⟩
  · rw [List.length_append]
    exact congrArg (· + 1) h.count
  · rw [← hr]
    exact tryReserve_congr rfl rfl
  · rw [← List.append_assoc]
    exact congrArg (· ++ [t]) h.order
  · exact absurd (hs.symm.trans hs') Bool.false_ne_true

/-- The node that is served. -/
lemma serve_node_self (p : Pool τ β) (t : τ) (b : Option β) :
    (p.serve t b).node t = { p.node t with mpBuf := b, mbDone := true } := setNode_self p t _

/-- The others are left alone. -/
lemma serve_node_of_ne {u : τ} (p : Pool τ β) (b : Option β) (h : u ≠ t) : (p.serve t b).node u = p.node u :=
  setNode_of_ne p _ h

/-- Marking a node keeps the links. -/
lemma serve_next (p : Pool τ β) (t u : τ) (b : Option β) :
    ((p.serve t b).node u).mpNext = (p.node u).mpNext := by
  by_cases e : u = t
  · subst e
    rw [serve_node_self]
  · rw [serve_node_of_ne p b e]

/-- The oldest waiter is taken and served. -/
lemma Queued.handOff (h : Queued p (t :: q)) (b : β) :
    Queued ((p.dequeue t).serve t (some b)) q ∧
      ∃ shard, (p.node t).mpCv = some shard ∧
        p.tryHandoffNoLock b = some ((p.dequeue t).serve t (some b), some shard) := by
  have hc := h.count
  have hnot := (List.nodup_cons.mp h.linked.nodup).1
  have hhead : p.mpWaitHead = some t := h.linked.head_eq
  have hw := h.waits t List.mem_cons_self
  have he := h.empty (List.cons_ne_nil t q)
  obtain ⟨shard, hcv⟩ := Option.isSome_iff_exists.mp hw.2
  refine ⟨⟨?_, ?_, fun u hu => ?_, fun _ => ⟨he.1, ?_⟩, ?_, fun hs => ?_⟩, shard, hcv, ?_⟩
  · exact h.linked.dequeue.congr fun u _ => serve_next (p.dequeue t) t u (some b)
  · exact congrArg (· - 1) hc
  · have hu' : u ≠ t := by
      rintro rfl
      exact hnot hu
    rw [serve_node_of_ne _ _ hu']
    exact h.waits u (List.mem_cons_of_mem _ hu)
  · rw [← he.2]
    exact tryReserve_congr rfl rfl
  · have ho := h.order
    change p.arrived = (p.served ++ [(t, some b)]).map (·.1) ++ q
    rw [ho, List.map_append, List.append_assoc]
    rfl
  · cases h.stopped hs
  · have hne : p.muWaitCount ≠ 0 := by
      rw [hc]
      exact Nat.succ_ne_zero _
    simp only [tryHandoffNoLock, if_neg hne, hhead, serve_node_self]
    have hcv' : ((p.dequeue t).node t).mpCv = some shard := hcv
    rw [hcv']

/-- `recycle` of one buffer. -/
lemma recycleNoLock_spec (h : Queued p q) (b : β) :
    ∃ p' shards, p.recycleNoLock b = some (p', shards) ∧ Delivered q [b] p p' shards := by
  cases q with
  | nil =>
    refine ⟨{ p with moFree := p.moFree ++ [b] }, [], ?_, ?_⟩
    · simp only [recycleNoLock, tryHandoffNoLock, h.count, List.length_nil, if_true]
    · refine ⟨⟨h.linked, h.count, h.waits, nofun, h.order, h.stopped⟩, rfl, ?_, nofun, fun _ _ => rfl, nofun,
        ⟨rfl, rfl, rfl, rfl, rfl⟩, rfl⟩
      exact (List.append_nil _).symm
  | cons t q =>
    obtain ⟨hq, shard, hcv, e⟩ := h.handOff b
    refine ⟨(p.dequeue t).serve t (some b), [shard], ?_, ⟨hq, ?_, ?_, ?_, fun u hu => ?_, ?_, ?_, rfl⟩⟩
    · simp only [recycleNoLock, e]
    · rw [List.length_cons, List.drop_succ_cons, List.drop_nil, List.append_nil]
      rfl
    · rw [List.map_cons, List.map_nil, List.zip_cons_cons, List.zip_nil_right]
      rfl
    · intro x hx
      rw [List.map_cons, List.map_nil, List.zip_cons_cons, List.zip_nil_right, List.mem_singleton] at hx
      rw [hx, serve_node_self]
      exact ⟨rfl, rfl⟩
    · exact serve_node_of_ne (p.dequeue t) (some b) fun e => hu (e ▸ List.mem_cons_self)
    · intro u hu
      rw [List.mem_singleton.mp hu]
      exact ⟨shard, List.mem_singleton_self shard, hcv⟩
    · exact ⟨rfl, rfl, rfl, rfl, rfl⟩

/-- `recycle` of a list: its buffers, without the null ones, are delivered. -/
lemma recycleList_spec (h : Queued p q) (bufs : List (Option β)) :
    ∃ p' shards, p.recycleList bufs = some (p', shards) ∧ Delivered q bufs.reduceOption p p' shards := by
  induction bufs generalizing p q with
  | nil => exact ⟨p, [], rfl, .nil h⟩
  | cons x bufs ih =>
    cases x with
    | none => exact ih h
    | some b =>
      obtain ⟨p₁, shards₁, e₁, h₁⟩ := recycleNoLock_spec h b
      obtain ⟨p', shards, e, h'⟩ := ih h₁.queued
      refine ⟨p', shards₁ ++ shards, ?_, h₁.cons h.linked.nodup h'⟩
      simp only [recycleList, e₁, e, Option.map_some]

/-- What waking the waiters of a chain does: all of them are marked done with no buffer. -/
structure Woken (q : List τ) (p p' : Pool τ β) : Prop where
  head : p'.mpWaitHead = none
  served : p'.served = p.served ++ q.map (·, none)
  marked : ∀ t ∈ q, (p'.node t).mpBuf = none ∧ (p'.node t).mbDone = true
  others : ∀ t, t ∉ q → p'.node t = p.node t
  free : p'.moFree = p.moFree
  stock : SameStock p p'
  stopping : p'.mbStopping = p.mbStopping

/-- The loop of `stop_waiters` gets to the end of the queue. -/
lemma stopLoop_spec (h : Chain (fun t => (p.node t).mpNext) p.mpWaitHead q) (hq : q.Nodup) :
    Woken q p (stopLoop q.length p) := by
  induction q generalizing p with
  | nil =>
    refine ⟨h, ?_, nofun, fun _ _ => rfl, rfl, .refl, rfl⟩
    exact (List.append_nil _).symm
  | cons t q ih =>
    rw [List.nodup_cons] at hq
    have hhead : p.mpWaitHead = some t := h.1
    have hchain := h.2.congr fun u _ => serve_next { p with mpWaitHead := (p.node t).mpNext } t u none
    have hw := ih hchain hq.2
    have e : stopLoop (t :: q).length p
        = stopLoop q.length (({ p with mpWaitHead := (p.node t).mpNext } : Pool τ β).serve t none) := by
      rw [List.length_cons, stopLoop, hhead]
    have hs : SameStock p (({ p with mpWaitHead := (p.node t).mpNext } : Pool τ β).serve t none) :=
      ⟨rfl, rfl, rfl, rfl, rfl⟩
    rw [e]
    refine ⟨hw.head, ?_, fun u hu => ?_, fun u hu => ?_, hw.free, hs.trans hw.stock, hw.stopping⟩
    · exact hw.served.trans (List.append_assoc _ _ _)
    · rcases List.mem_cons.mp hu with rfl | hu
      · rw [hw.others u hq.1, serve_node_self]
        exact ⟨rfl, rfl⟩
      · exact hw.marked u hu
    · rw [List.mem_cons, not_or] at hu
      exact (hw.others u hu.2).trans (serve_node_of_ne _ _ hu.1)

/-- `stop_waiters` empties the queue, wakes all who were in it and notifies every shard if there was one. -/
lemma Queued.stopWaiters (h : Queued p q) :
    Queued p.stopWaiters.1 [] ∧ Woken q { p with mbStopping := true } p.stopWaiters.1 ∧
      (q ≠ [] → ∀ shard, shard ∈ p.stopWaiters.2) := by
  have hw : Woken q { p with mbStopping := true } (stopLoop q.length { p with mbStopping := true }) :=
    stopLoop_spec h.linked.chain h.linked.nodup
  have hc := h.count
  have hhead := h.linked.head_eq
  have e : p.stopWaiters.1 = { stopLoop q.length { p with mbStopping := true } with
      mpWaitTail := none, muWaitCount := 0 } := by
    unfold Pool.stopWaiters
    rw [hc]
  rw [e]
  refine ⟨⟨⟨hw.head, .nil, rfl⟩, rfl, nofun, fun hn => absurd rfl hn, ?_, fun _ => rfl⟩,
    ⟨hw.head, hw.served, hw.marked, hw.others, hw.free, ?_, hw.stopping⟩, fun hn shard => ?_⟩
  · have hs := hw.served
    have ha := hw.stock.arrived
    simp only at hs ha ⊢
    rw [ha, hs, List.append_nil, List.map_append, h.order, List.map_map]
    exact congrArg (p.served.map (·.1) ++ ·) (List.map_id q).symm
  · exact SameStock.trans hw.stock ⟨rfl, rfl, rfl, rfl, rfl⟩
  · have hwoke : p.mpWaitHead.isSome = true := by
      rw [hhead]
      cases q with
      | nil => exact absurd rfl hn
      | cons t q => rfl
    simp only [Pool.stopWaiters, hwoke, if_true]
    exact List.mem_finRange shard

end P8.Pool
