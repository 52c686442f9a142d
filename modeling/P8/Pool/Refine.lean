import P8.Lib.System
import P8.Pool.Stock
import P8.Pool.Teardown

/-!
# The pool is a stock

The pool as the core uses it, a stock with a queue of waiters and no nodes, whose operations are single steps, and
the proof that the code of `cp8_buffer_pool` (`engine/p8_buffer_pool.cpp`), with its mutex, its linked nodes and its
condition variables, is nothing else for the threads that call it (`pool_refines_stock`).

`StockEvent` is what a thread sees of an operation; `seenSystem` is the pool of `Pool/Teardown.lean` with its steps
labelled by that, or by nothing where a step is only seen inside. Buffers have addresses in the pool and numbers in
the stock, in the order in which they were allocated (`num`).

`Holds` relates the data of a pool and a stock, `Refines` adds the threads: who waits, who was handed a buffer and
who has it. There is a lemma for each operation on both sides (`Holds.acquire`, `Holds.park`, `Holds.giveAll`,
`Holds.stop`) and one for each step of a thread; `refines_simulation` collects them into a `Lib.Simulation`. The
condition `Sound` is that allocations succeed and that the stock is only given what is its own.
-/

namespace P8
open P8.Lib

variable {τ β : Type}

/-! ## The stock as a system -/

/-- What the threads see of a stock. -/
inductive StockEvent (τ : Type) where
  | acquired (t : τ) (r : Option Nat)
  | parked (t : τ)
  | returned (t : τ) (r : Option Nat)
  | given (bs : List Nat)
  | stopped

namespace Stock

/-- The thread does not wait. -/
def Out (s : Stock τ) (t : τ) : Prop := t ∉ s.queue ∧ s.handed t = none

/-- A stock of `n` buffers that no one waits for. -/
def start (mzBufferSize : Nat) (mpBudget : Option Budget) (n : Nat) : Stock τ where
  mzBufferSize := mzBufferSize
  mpBudget := mpBudget
  free := List.range n
  queue := []
  handed := fun _ => none
  next := n
  stopping := false

variable [DecidableEq τ]

/-- The steps of a stock. -/
inductive Step : Stock τ → StockEvent τ → Stock τ → Prop
  | acquire {s t} (alloc : Bool) : s.Out t → Step s (.acquired t (s.acquire alloc).2) (s.acquire alloc).1
  | refuse {s t alloc} : s.Out t → (s.acquire alloc).2 = none → s.stopping = true → Step s (.acquired t none) s
  | park {s t alloc} : s.Out t → (s.acquire alloc).2 = none → s.stopping = false → Step s (.parked t) (s.park t)
  | leave {s t r} : s.handed t = some r → Step s (.returned t r) (s.leave t)
  | give {s} (bs : List Nat) : Step s (.given bs) (s.giveAll bs)
  | stop {s} : Step s .stopped s.stop

/-- A stock and the threads that use it. -/
def system (τ : Type) [DecidableEq τ] : System (Stock τ) (StockEvent τ) where
  start s := ∃ mzBufferSize mpBudget n, s = .start mzBufferSize mpBudget n
  step := Step

end Stock

/-! ## The pool as a system -/

/-- The number of a buffer: how many were allocated before it. -/
def Pool.num [DecidableEq β] (p : Pool τ β) (b : β) : Nat := p.moAll.idxOf b

namespace Teardown

/-- The result that a waiter has read on its way out. -/
def Pc.result : Pc β → Option (Option β)
  | .served r | .unlocks r | .unlocked r => some r
  | .idle | .enters _ | .inside _ | .looks | .asleep | .awake | .reads | .left _ | .exits _ | .returned _ => none

/-- The call is queued, or was and has not returned. -/
def Pc.waits (c : Pc β) : Bool := c.stage = .waiting ∨ c.stage = .leaving

/-- An allocation gives a buffer that the pool does not have, and only its own buffers are recycled. -/
def Op.Sound (p : Pool τ β) : Op β → Prop
  | .acquireNoLock new | .acquireWait new => ∀ b, new = some b → b ∉ p.moAll
  | .recycle b => ∀ x, b = some x → x ∈ p.moAll
  | .recycleList bs => ∀ x ∈ bs.reduceOption, x ∈ p.moAll
  | .stopWaiters => True

/-- A step of a call, which is sound when it runs its operation. -/
def Sound (s : Sys τ β) : Actor τ → Prop
  | .call t => ∀ op, s.pc t = .inside op → op.Sound s.pool
  | .destructor => False

variable [DecidableEq β]

/-- What the threads see of an operation, by where its call is behind it. -/
def Op.see (t : τ) (p : Pool τ β) : Op β → Pc β → Option (StockEvent τ)
  | .acquireNoLock _, .exits r | .acquireWait _, .exits r => some (.acquired t (r.map p.num))
  | .acquireWait _, .looks => some (.parked t)
  | .recycle b, _ => some (.given (b.toList.map p.num))
  | .recycleList bs, _ => some (.given (bs.reduceOption.map p.num))
  | .stopWaiters, _ => some .stopped
  | _, _ => none

/-- What the threads see of a step: an operation, and what a waiter returns with. -/
def see (s : Sys τ β) (a : Actor τ) (s' : Sys τ β) : Option (StockEvent τ) :=
  match a with
  | .destructor => none
  | .call t =>
    match s.pc t with
    | .inside op => op.see t s'.pool (s'.pc t)
    | .unlocked r => some (.returned t (r.map s.pool.num))
    | _ => none

/-- The calls on a pool before its destructor, as the threads see them; `init` gets different buffers. -/
def seenSystem (τ β : Type) [DecidableEq τ] [DecidableEq β] : System (Sys τ β) (Option (StockEvent τ)) where
  start s := ∃ (izBufferSize : Nat) (ipBudget : Option Budget) (news : List (Option β)), news.reduceOption.Nodup ∧
    s = ⟨(Pool.ctor izBufferSize ipBudget).init news, none, fun _ => .idle, .alive⟩
  step s x s' := ∃ a, Step s a s' ∧ Sound s a ∧ see s a s' = x

end Teardown

/-! ## The operations on both -/

open Teardown

variable [DecidableEq β]

namespace Pool

/-- The numbers of a pool's buffers stay when it gets more. -/
lemma num_append {p p' : Pool τ β} {bs : List β} {b : β} (h : p'.moAll = p.moAll ++ bs) (hb : b ∈ p.moAll) :
    p'.num b = p.num b := by
  unfold num
  rw [h]
  exact List.idxOf_append_of_mem hb

/-- The numbers of all buffers, in the order of their allocation. -/
lemma map_num {p : Pool τ β} (h : p.moAll.Nodup) : p.moAll.map p.num = List.range p.moAll.length := by
  refine List.ext_getElem (by rw [List.length_map, List.length_range]) fun i hi _ => ?_
  rw [List.length_map] at hi
  rw [List.getElem_map, List.getElem_range]
  exact h.idxOf_getElem i hi

omit [DecidableEq β] in
/-- A reservation that is given back. -/
lemma release_tryReserve {p q : Pool τ β} (h : p.tryReserve = (q, true)) : q.release = p := by
  unfold tryReserve at h
  cases hb : p.mpBudget with
  | none =>
    rw [hb] at h
    cases h
    unfold release
    rw [hb, Option.map_none, ← hb]
  | some b =>
    rw [hb] at h
    simp only [Budget.tryReserve, Prod.mk.injEq] at h
    obtain ⟨rfl, h⟩ := h
    split at h
    · cases h
    · rename_i hc
      simp only [release, Option.map_some, Budget.release, if_neg hc, Nat.add_sub_cancel]
      rw [← hb]

end Pool

/-- A pool is held by a stock: the free buffers and the waiters of the stock are those of the pool, and a call that
waits, as `W` has it, was handed what its node says once it is marked done. -/
structure Holds (W : τ → Bool) (p : Pool τ β) (r : Stock τ) : Prop where
  size : r.mzBufferSize = p.mzBufferSize
  budget : r.mpBudget = p.mpBudget
  next : r.next = p.moAll.length
  stopping : r.stopping = p.mbStopping
  nodup : p.moAll.Nodup
  free : r.free = p.moFree.map p.num
  owned : ∀ b ∈ p.moFree, b ∈ p.moAll
  queued : (dry p).Queued r.queue
  waits : ∀ t ∈ r.queue, W t = true
  handed : ∀ t, r.handed t = if W t = true ∧ (p.node t).mbDone = true then some ((p.node t).mpBuf.map p.num) else none
  given : ∀ t b, W t = true → (p.node t).mbDone = true → (p.node t).mpBuf = some b → b ∈ p.moAll

namespace Holds

variable {W W' : τ → Bool} {p p' : Pool τ β} {r r' : Stock τ} {t : τ} {b : β} {new : Option β}

/-- Who is queued was handed nothing. -/
lemma handed_of_mem (h : Holds W p r) (ht : t ∈ r.queue) : r.handed t = none := by
  have hd := (h.queued.waits t ht).1
  rw [h.handed, if_neg]
  rintro ⟨-, hd'⟩
  cases hd.symm.trans hd'

/-- Who does not wait is out. -/
lemma out (h : Holds W p r) (ht : W t = false) : r.Out t := by
  refine ⟨fun hm => ?_, ?_⟩
  · cases ht.symm.trans (h.waits t hm)
  · rw [h.handed, if_neg]
    rintro ⟨hw, -⟩
    cases ht.symm.trans hw

/-- The same calls wait. -/
lemma congr (h : Holds W p r) (hW : ∀ t, W' t = W t) : Holds W' p r := by
  obtain rfl : W' = W := funext hW
  exact h

/-- The stock has room when the pool has. -/
lemma tryReserve (h : Holds W p r) : r.tryReserve = (p.tryReserve.1.mpBudget, p.tryReserve.2) := by
  unfold Stock.tryReserve Pool.tryReserve
  rw [h.budget, h.size]
  cases hb : p.mpBudget with
  | none => simp only [hb]
  | some b => rfl

/-- The buffers change, the waiters do not. -/
lemma restock (h : Holds W p r) {bs : List β} (hd : dry p' = dry p) (hs : p'.mzBufferSize = p.mzBufferSize)
    (ha : p'.moAll = p.moAll ++ bs) (hn : p'.moAll.Nodup) (ho : ∀ b ∈ p'.moFree, b ∈ p'.moAll) {free : List Nat}
    (hf : free = p'.moFree.map p'.num) :
    Holds W p' { r with mpBudget := p'.mpBudget, free := free, next := p'.moAll.length } := by
  obtain ⟨hnode, -, -, hst⟩ := dry_eq hd
  refine ⟨h.size.trans hs.symm, rfl, rfl, h.stopping.trans hst.symm, hn, hf, ho, ?_, h.waits, fun t => ?_, ?_⟩
  · rw [hd]
    exact h.queued
  · rw [hnode]
    refine (h.handed t).trans ?_
    split
    · rename_i hw
      cases hb : (p.node t).mpBuf with
      | none => rfl
      | some b => rw [Option.map_some, Option.map_some, Pool.num_append ha (h.given t b hw.1 hw.2 hb)]
    · rfl
  · intro t b hw hdone hb
    rw [hnode] at hdone hb
    rw [ha]
    exact List.mem_append_left _ (h.given t b hw hdone hb)

/-- What an acquisition gives the stock gives, too; a try that fails changes nothing. -/
lemma acquire (h : Holds W p r) (hn : ∀ b, new = some b → b ∉ p.moAll) :
    Holds W (p.acquireNoLock new).1 (r.acquire new.isSome).1 ∧
      (r.acquire new.isSome).2 = (p.acquireNoLock new).2.map (p.acquireNoLock new).1.num ∧
      (∃ bs, (p.acquireNoLock new).1.moAll = p.moAll ++ bs) ∧
      (∀ b, (p.acquireNoLock new).2 = some b → b ∈ (p.acquireNoLock new).1.moAll) ∧
      ((p.acquireNoLock new).2 = none → (p.acquireNoLock new).1 = p) := by
  have hd := dry_acquireNoLock new p
  cases hf : p.moFree with
  | cons b free =>
    have hp : p.acquireNoLock new = ({ p with moFree := free }, some b) := by
      unfold Pool.acquireNoLock
      rw [hf]
    have hr : r.acquire new.isSome = ({ r with free := free.map p.num }, some (p.num b)) := by
      unfold Stock.acquire
      rw [h.free, hf, List.map_cons]
    rw [hp] at hd ⊢
    rw [hr]
    refine ⟨?_, rfl, ⟨[], (List.append_nil _).symm⟩, ?_, nofun⟩
    · have hk : Holds W { p with moFree := free }
          { r with mpBudget := p.mpBudget, free := free.map p.num, next := p.moAll.length } :=
        h.restock hd rfl (List.append_nil _).symm h.nodup (fun c hc => h.owned c (hf ▸ List.mem_cons_of_mem _ hc)) rfl
      have e : ({ r with free := free.map p.num } : Stock τ) =
          { r with mpBudget := p.mpBudget, free := free.map p.num, next := p.moAll.length } := by
        rw [← h.budget, ← h.next]
      show Holds W { p with moFree := free } { r with free := free.map p.num }
      rw [e]
      exact hk
    · rintro _ ⟨⟩
      exact h.owned b (hf ▸ List.mem_cons_self)
  | nil =>
    have hrf : r.free = [] := by rw [h.free, hf, List.map_nil]
    have ht := h.tryReserve
    cases hres : p.tryReserve with
    | mk q ok =>
      rw [hres] at ht
      have hq : q = { p with mpBudget := q.mpBudget } := by
        have hfields := Pool.tryReserve_fields (p := p)
        rw [hres] at hfields
        exact hfields
      cases ok with
      | false =>
        have hp : p.acquireNoLock new = (q, none) := by
          unfold Pool.acquireNoLock
          rw [hf, hres]
        have hr : r.acquire new.isSome = (r, none) := by
          unfold Stock.acquire
          rw [hrf, ht]
        have hqp : q = p := by
          have hfalse := Pool.tryReserve_false (p := p) (by rw [hres])
          rw [hres] at hfalse
          exact congrArg Prod.fst hfalse
        rw [hp, hr, hqp]
        exact ⟨h, rfl, ⟨[], (List.append_nil _).symm⟩, nofun, fun _ => rfl⟩
      | true =>
        have hback := Pool.release_tryReserve hres
        cases new with
        | none =>
          have hp : p.acquireNoLock none = (p, none) := by
            unfold Pool.acquireNoLock
            rw [hf, hres]
            exact congrArg (·, none) hback
          have hbudget : q.mpBudget.map (·.release r.mzBufferSize) = r.mpBudget := by
            have hb := congrArg Pool.mpBudget hback
            rw [h.budget, h.size, ← hb]
            unfold Pool.release
            rw [congrArg Pool.mzBufferSize hq]
          have hr : r.acquire false = (r, none) := by
            unfold Stock.acquire
            rw [hrf, ht]
            simp only [Bool.false_eq_true, if_false, hbudget]
            rw [← hrf]
          rw [hp, Option.isSome_none, hr]
          exact ⟨h, rfl, ⟨[], (List.append_nil _).symm⟩, nofun, fun _ => rfl⟩
        | some b =>
          have hnew := hn b rfl
          have hp : p.acquireNoLock (some b) = ({ q with moAll := q.moAll ++ [b] }, some b) := by
            unfold Pool.acquireNoLock
            rw [hf, hres]
          have hall : q.moAll = p.moAll := by rw [hq]
          have hfree : q.moFree = [] := by rw [hq, hf]
          have hsize : q.mzBufferSize = p.mzBufferSize := by rw [hq]
          have hr : r.acquire true = ({ r with mpBudget := q.mpBudget, next := r.next + 1 }, some r.next) := by
            unfold Stock.acquire
            rw [hrf, ht]
            rfl
          rw [hp] at hd ⊢
          rw [Option.isSome_some, hr]
          refine ⟨?_, ?_, ⟨[b], congrArg (· ++ [b]) hall⟩, ?_, nofun⟩
          · have hk : Holds W { q with moAll := q.moAll ++ [b] }
                { r with mpBudget := q.mpBudget, free := r.free, next := (q.moAll ++ [b]).length } :=
              h.restock hd hsize (congrArg (· ++ [b]) hall)
                (by rw [hall]; exact List.nodup_append.mpr ⟨h.nodup, List.nodup_singleton b, fun x hx y hy e =>
                  hnew (List.mem_singleton.mp hy ▸ e ▸ hx)⟩)
                (by rw [hfree]; exact fun c hc => absurd hc List.not_mem_nil)
                (by rw [hrf, hfree, List.map_nil])
            have hlen : (q.moAll ++ [b]).length = r.next + 1 := by
              rw [h.next, ← hall]
              exact List.length_append
            rw [hlen] at hk
            exact hk
          · rw [h.next, ← hall]
            refine congrArg some ?_
            show q.moAll.length = (q.moAll ++ [b]).idxOf b
            rw [List.idxOf_append_of_notMem (hall ▸ hnew), List.idxOf_cons_self, Nat.add_zero]
          · rintro _ ⟨⟩
            exact List.mem_append_right _ (List.mem_singleton_self _)

/-- Another stock of the same buffers, and other waiters. -/
lemma requeue (h : Holds W p r) (hs : p'.mzBufferSize = p.mzBufferSize) (hb : p'.mpBudget = p.mpBudget)
    (ha : p'.moAll = p.moAll) (hst : r'.stopping = p'.mbStopping) (hf : r'.free = p'.moFree.map p.num)
    (ho : ∀ b ∈ p'.moFree, b ∈ p.moAll) (hsame : r'.mzBufferSize = r.mzBufferSize ∧ r'.mpBudget = r.mpBudget ∧
      r'.next = r.next) (hq : (dry p').Queued r'.queue) (hw : ∀ t ∈ r'.queue, W' t = true)
    (hh : ∀ t, r'.handed t =
      if W' t = true ∧ (p'.node t).mbDone = true then some ((p'.node t).mpBuf.map p.num) else none)
    (hg : ∀ t b, W' t = true → (p'.node t).mbDone = true → (p'.node t).mpBuf = some b → b ∈ p.moAll) :
    Holds W' p' r' := by
  have hnum : p'.num = p.num := by
    unfold Pool.num
    rw [ha]
  obtain ⟨hsize, hbudget, hnext⟩ := hsame
  refine ⟨(hsize.trans h.size).trans hs.symm, (hbudget.trans h.budget).trans hb.symm, ?_, hst, ha ▸ h.nodup, ?_, ?_, hq,
    hw, ?_, ?_⟩
  · rw [hnext, ha]
    exact h.next
  · rw [hnum]
    exact hf
  · rw [ha]
    exact ho
  · rw [hnum]
    exact hh
  · rw [ha]
    exact hg

variable [DecidableEq τ]

omit [DecidableEq β] in
/-- Queueing leaves the buffers. -/
lemma enqueue_stock (p : Pool τ β) (t : τ) : (p.enqueue t).mzBufferSize = p.mzBufferSize ∧
    (p.enqueue t).mpBudget = p.mpBudget ∧ (p.enqueue t).moAll = p.moAll ∧ (p.enqueue t).moFree = p.moFree := by
  unfold Pool.enqueue
  rw [(Pool.link_spec (p.setNode t ⟨none, none, false, some p.nextShard⟩) t).2]
  exact ⟨rfl, rfl, rfl, rfl⟩

/-- A call that queues is parked behind the others. -/
lemma park (h : Holds W p r) (ht : W t = false) (hs : p.mbStopping = false) :
    Holds (Function.update W t true) (p.enqueue t) (r.park t) := by
  have hnot := (h.out ht).1
  obtain ⟨hq, hself, hother⟩ := h.queued.enqueue hnot rfl (dry_room p) hs
  rw [← dry_enqueue] at hq hself
  obtain ⟨hsize, hbudget, hall, hfree⟩ := enqueue_stock p t
  have hnode : ∀ u, u ≠ t → ((p.enqueue t).node u).mbDone = (p.node u).mbDone ∧
      ((p.enqueue t).node u).mpBuf = (p.node u).mpBuf := by
    intro u hu
    have hm := hother u hu
    rw [← dry_enqueue] at hm
    exact ⟨hm.2.1, hm.1⟩
  have hdone : ((p.enqueue t).node t).mbDone = false := by
    have hm := hself.2.1
    rw [Pool.setNode_self] at hm
    exact hm
  refine h.requeue hsize hbudget hall ?_ ?_ ?_ ⟨rfl, rfl, rfl⟩ hq ?_ (fun u => ?_) (fun u b hW hd hb => ?_)
  · rw [(Pool.enqueue_fields p t).1]
    exact h.stopping
  · rw [hfree]
    exact h.free
  · rw [hfree]
    exact h.owned
  · intro u hu
    obtain rfl | hne := eq_or_ne u t
    · exact Function.update_self _ _ _
    · rw [Function.update_of_ne hne]
      exact h.waits u ((List.mem_append.mp hu).resolve_right fun hm => hne (List.mem_singleton.mp hm))
  · show Function.update r.handed t none u = _
    obtain rfl | hne := eq_or_ne u t
    · rw [Function.update_self, hdone, if_neg fun hf => Bool.false_ne_true hf.2]
    · rw [Function.update_of_ne hne, Function.update_of_ne hne, (hnode u hne).1, (hnode u hne).2]
      exact h.handed u
  · obtain rfl | hne := eq_or_ne u t
    · cases hdone.symm.trans hd
    · rw [Function.update_of_ne hne] at hW
      rw [(hnode u hne).1] at hd
      rw [(hnode u hne).2] at hb
      exact h.given u b hW hd hb

/-- A buffer that is recycled is given to the oldest waiter, or is free. -/
lemma give (h : Holds W p r) (hb : b ∈ p.moAll) :
    ∃ p' shards, p.recycleNoLock b = some (p', shards) ∧ p'.moAll = p.moAll ∧ Holds W p' (r.give (p.num b)) := by
  have hcount : p.muWaitCount = r.queue.length := h.queued.count
  cases hq : r.queue with
  | nil =>
    have hzero : p.muWaitCount = 0 := by rw [hcount, hq, List.length_nil]
    refine ⟨{ p with moFree := p.moFree ++ [b] }, [], ?_, rfl, ?_⟩
    · simp only [Pool.recycleNoLock, Pool.tryHandoffNoLock, hzero, if_true]
    · rw [Stock.give_nil hq]
      refine h.requeue rfl rfl rfl h.stopping ?_ ?_ ⟨rfl, rfl, rfl⟩ h.queued h.waits h.handed h.given
      · rw [h.free, List.map_append, List.map_singleton]
      · exact List.forall_mem_append.mpr ⟨h.owned, List.forall_mem_singleton.mpr hb⟩
  | cons t q =>
    have hqueued := h.queued
    rw [hq] at hqueued
    obtain ⟨hrest, shard, hcv, -⟩ := hqueued.handOff b
    have hnotin : t ∉ q := (List.nodup_cons.mp hqueued.linked.nodup).1
    have hhead : p.mpWaitHead = some t := hqueued.linked.head_eq
    have hne : p.muWaitCount ≠ 0 := by
      rw [hcount, hq]
      exact Nat.succ_ne_zero _
    have hcv' : ((p.dequeue t).node t).mpCv = some shard := hcv
    refine ⟨(p.dequeue t).serve t (some b), [shard], ?_, rfl, ?_⟩
    · simp only [Pool.recycleNoLock, Pool.tryHandoffNoLock, if_neg hne, hhead, Pool.serve_node_self, hcv']
    · rw [Stock.give_cons hq]
      refine h.requeue rfl rfl rfl h.stopping h.free h.owned ⟨rfl, rfl, rfl⟩ hrest ?_ (fun u => ?_)
        (fun u c hW hd hc => ?_)
      · exact fun u hu => h.waits u (hq ▸ List.mem_cons_of_mem _ hu)
      · show Function.update r.handed t (some (some (p.num b))) u = _
        obtain rfl | hu := eq_or_ne u t
        · rw [Function.update_self, Pool.serve_node_self, if_pos ⟨h.waits u (hq ▸ List.mem_cons_self), rfl⟩]
          rfl
        · rw [Function.update_of_ne hu, Pool.serve_node_of_ne _ _ hu]
          exact h.handed u
      · obtain rfl | hu := eq_or_ne u t
        · rw [Pool.serve_node_self] at hc
          cases hc
          exact hb
        · rw [Pool.serve_node_of_ne _ _ hu] at hd hc
          exact h.given u c hW hd hc

/-- Buffers that are recycled in one go are given one after the other. -/
lemma giveAll (h : Holds W p r) (bs : List (Option β)) (hb : ∀ x ∈ bs.reduceOption, x ∈ p.moAll) :
    ∃ p' shards, p.recycleList bs = some (p', shards) ∧ p'.moAll = p.moAll ∧
      Holds W p' (r.giveAll (bs.reduceOption.map p.num)) := by
  induction bs generalizing p r with
  | nil => exact ⟨p, [], rfl, rfl, h⟩
  | cons x bs ih =>
    cases x with
    | none =>
      rw [List.reduceOption_cons_of_none] at hb ⊢
      exact ih h hb
    | some b =>
      rw [List.reduceOption_cons_of_some] at hb ⊢
      obtain ⟨p₁, shards₁, e₁, ha, h₁⟩ := h.give (hb b List.mem_cons_self)
      have hnum : p₁.num = p.num := by
        unfold Pool.num
        rw [ha]
      obtain ⟨p', shards, e, ha', h'⟩ := ih h₁ fun x hx => ha ▸ hb x (List.mem_cons_of_mem _ hx)
      refine ⟨p', shards₁ ++ shards, ?_, ha'.trans ha, ?_⟩
      · simp only [Pool.recycleList, e₁, e, Option.map_some]
      · rw [hnum] at h'
        exact h'

omit [DecidableEq β] in
/-- Waking all waiters leaves the buffers. -/
lemma stopWaiters_stock (p : Pool τ β) : p.stopWaiters.1.mzBufferSize = p.mzBufferSize ∧
    p.stopWaiters.1.mpBudget = p.mpBudget ∧ p.stopWaiters.1.moAll = p.moAll ∧ p.stopWaiters.1.moFree = p.moFree := by
  have hloop : ∀ (fuel : Nat) (p : Pool τ β), (Pool.stopLoop fuel p).mzBufferSize = p.mzBufferSize ∧
      (Pool.stopLoop fuel p).mpBudget = p.mpBudget ∧ (Pool.stopLoop fuel p).moAll = p.moAll ∧
      (Pool.stopLoop fuel p).moFree = p.moFree := by
    intro fuel
    induction fuel with
    | zero => exact fun p => ⟨rfl, rfl, rfl, rfl⟩
    | succ fuel ih =>
      intro p
      cases hh : p.mpWaitHead with
      | none =>
        have e : Pool.stopLoop (fuel + 1) p = p := by simp only [Pool.stopLoop, hh]
        rw [e]
        exact ⟨rfl, rfl, rfl, rfl⟩
      | some t =>
        simp only [Pool.stopLoop, hh]
        exact ih _
  exact hloop p.muWaitCount { p with mbStopping := true }

/-- Stopping hands no buffer to all waiters. -/
lemma stop (h : Holds W p r) : Holds W p.stopWaiters.1 r.stop := by
  obtain ⟨hq, hw, -⟩ := h.queued.stopWaiters
  have hdry : dry p.stopWaiters.1 = (dry p).stopWaiters.1 := (dry_stopWaiters p).1
  have hnode : p.stopWaiters.1.node = (dry p).stopWaiters.1.node :=
    show (dry p.stopWaiters.1).node = _ from congrArg Pool.node hdry
  have hst : (dry p.stopWaiters.1).mbStopping = true := (congrArg Pool.mbStopping hdry).trans hw.stopping
  obtain ⟨hsize, hbudget, hall, hfree⟩ := stopWaiters_stock p
  refine h.requeue hsize hbudget hall hst.symm ?_ ?_ ⟨rfl, rfl, rfl⟩ ?_ nofun (fun t => ?_) (fun t b hW hd hb => ?_)
  · rw [hfree]
    exact h.free
  · rw [hfree]
    exact h.owned
  · rw [hdry]
    exact hq
  · show (if t ∈ r.queue then some none else r.handed t) = _
    rw [hnode]
    by_cases ht : t ∈ r.queue
    · rw [if_pos ht, (hw.marked t ht).1, (hw.marked t ht).2, if_pos ⟨h.waits t ht, rfl⟩]
      rfl
    · rw [if_neg ht, hw.others t ht]
      exact h.handed t
  · rw [hnode] at hd hb
    by_cases ht : t ∈ r.queue
    · rw [(hw.marked t ht).1] at hb
      cases hb
    · rw [hw.others t ht] at hd hb
      exact h.given t b hW hd hb

/-- A waiter that was handed something leaves. -/
lemma leave (h : Holds W p r) (n : Nat) (ht : t ∉ r.queue) :
    Holds (Function.update W t false) { p with muInflight := n } (r.leave t) := by
  refine h.requeue rfl rfl rfl h.stopping h.free h.owned ⟨rfl, rfl, rfl⟩ ?_ ?_ (fun u => ?_) (fun u b hW hd hb => ?_)
  · exact ⟨h.queued.linked, h.queued.count, h.queued.waits, h.queued.empty, h.queued.order, h.queued.stopped⟩
  · intro u hu
    have hne : u ≠ t := fun e => ht (e ▸ hu)
    rw [Function.update_of_ne hne]
    exact h.waits u hu
  · show Function.update r.handed t none u = _
    obtain rfl | hne := eq_or_ne u t
    · rw [Function.update_self, Function.update_self, if_neg fun hf => Bool.false_ne_true hf.1]
    · rw [Function.update_of_ne hne, Function.update_of_ne hne]
      exact h.handed u
  · obtain rfl | hne := eq_or_ne u t
    · rw [Function.update_self] at hW
      cases hW
    · rw [Function.update_of_ne hne] at hW
      exact h.given u b hW hd hb

end Holds

namespace Stock

variable [DecidableEq τ] {r : Stock τ} {t : τ}

/-- Who is not queued is handed nothing by a buffer that is given. -/
lemma handed_give (h : t ∉ r.queue) (b : Nat) : (r.give b).handed t = r.handed t ∧ t ∉ (r.give b).queue := by
  cases hq : r.queue with
  | nil =>
    rw [give_nil hq]
    exact ⟨rfl, h⟩
  | cons u q =>
    rw [hq, List.mem_cons, not_or] at h
    rw [give_cons hq]
    exact ⟨Function.update_of_ne h.1 _ _, h.2⟩

/-- Buffers that are recycled do not reach a thread outside the queue. -/
lemma handed_giveAll (h : t ∉ r.queue) (bs : List Nat) : (r.giveAll bs).handed t = r.handed t := by
  induction bs generalizing r with
  | nil => rfl
  | cons b bs ih =>
    obtain ⟨e, h'⟩ := handed_give h b
    exact (ih h').trans e

end Stock

namespace Teardown

variable {s s' : Sys τ β} {r r' : Stock τ} {t : τ} {c c' : Pc β}

/-- A pool with the calls on it is a stock for them: it holds the pool, a waiter that is about to read was handed
something, and what it has read is what it was handed. -/
structure Refines (s : Sys τ β) (r : Stock τ) : Prop where
  pool : Holds (fun t => (s.pc t).waits) s.pool r
  reads : ∀ t, s.pc t = .reads → r.handed t ≠ none
  result : ∀ t x, (s.pc t).result = some x → r.handed t = some (x.map s.pool.num) ∧ ∀ b, x = some b → b ∈ s.pool.moAll

variable [DecidableEq τ]

/-- A call goes on without touching the pool. -/
lemma Refines.go (h : Refines s r) (hc : s.pc t = c) (hw : c'.waits = c.waits) (hd : c' = .reads → r.handed t ≠ none)
    (hr : ∀ x, c'.result = some x → r.handed t = some (x.map s.pool.num) ∧ ∀ b, x = some b → b ∈ s.pool.moAll)
    (m : Option (Actor τ)) : Refines ({ s with moMutex := m }.go t c') r := by
  refine ⟨h.pool.congr fun u => ?_, fun u hu => ?_, fun u x hx => ?_⟩
  · simp only [Sys.go]
    obtain rfl | hne := eq_or_ne u t
    · rw [Function.update_self, hw, hc]
    · rw [Function.update_of_ne hne]
  · simp only [Sys.go] at hu
    obtain rfl | hne := eq_or_ne u t
    · rw [Function.update_self] at hu
      exact hd hu
    · rw [Function.update_of_ne hne] at hu
      exact h.reads u hu
  · simp only [Sys.go] at hx
    obtain rfl | hne := eq_or_ne u t
    · rw [Function.update_self] at hx
      exact hr x hx
    · rw [Function.update_of_ne hne] at hx
      exact h.result u x hx

omit [DecidableEq β] [DecidableEq τ] in
/-- A notification wakes calls: they wait as before. -/
lemma notify_waits (shards : List Shard) (p : Pool τ β) (pc : τ → Pc β) (u : τ) :
    (notify shards p pc u).waits = (pc u).waits ∧ (notify shards p pc u).result = (pc u).result ∧
      (notify shards p pc u = .reads → pc u = .reads) := by
  unfold notify
  split
  · rename_i h
    rw [h]
    split
    · exact ⟨rfl, rfl, nofun⟩
    · exact ⟨rfl, rfl, nofun⟩
  · exact ⟨rfl, rfl, id⟩

omit [DecidableEq τ] in
/-- Who was handed something is not queued. -/
lemma Refines.not_mem (h : Refines s r) (hn : r.handed t ≠ none) : t ∉ r.queue :=
  fun hm => hn (h.pool.handed_of_mem hm)

omit [DecidableEq τ] in
/-- Who has read a result was handed it. -/
lemma Refines.handed_ne (h : Refines s r) {x : Option β} (hx : (s.pc t).result = some x) : r.handed t ≠ none := by
  rw [(h.result t x hx).1]
  exact Option.some_ne_none _

/-- A call runs its operation. -/
lemma Refines.operate (h : Refines s r) {op : Op β} (hc : s.pc t = .inside op) {p : Pool τ β} {shards : List Shard}
    (hp : Holds (Function.update (fun u => (s.pc u).waits) t c.waits) p r')
    (hh : ∀ u, u ≠ t → u ∉ r.queue → r'.handed u = r.handed u) (ha : ∃ bs, p.moAll = s.pool.moAll ++ bs)
    (hr : c.result = none) (hl : c ≠ .reads) :
    Refines ({ s with pool := p, pc := notify shards s.pool s.pc }.go t c) r' := by
  obtain ⟨bs, ha⟩ := ha
  refine ⟨hp.congr fun u => ?_, fun u hu => ?_, fun u x hx => ?_⟩
  · simp only [Sys.go]
    obtain rfl | hne := eq_or_ne u t
    · rw [Function.update_self, Function.update_self]
    · rw [Function.update_of_ne hne, Function.update_of_ne hne, (notify_waits shards s.pool s.pc u).1]
  · simp only [Sys.go] at hu
    obtain rfl | hne := eq_or_ne u t
    · rw [Function.update_self] at hu
      exact absurd hu hl
    · rw [Function.update_of_ne hne] at hu
      have hd := h.reads u ((notify_waits shards s.pool s.pc u).2.2 hu)
      rwa [hh u hne (h.not_mem hd)]
  · simp only [Sys.go] at hx ⊢
    obtain rfl | hne := eq_or_ne u t
    · rw [Function.update_self, hr] at hx
      cases hx
    · rw [Function.update_of_ne hne, (notify_waits shards s.pool s.pc u).2.1] at hx
      obtain ⟨hhand, hmem⟩ := h.result u x hx
      rw [hh u hne (h.not_mem (h.handed_ne hx)), hhand]
      refine ⟨?_, fun b hb => ?_⟩
      · cases x with
        | none => rfl
        | some b => rw [Option.map_some, Option.map_some, Pool.num_append ha (hmem b rfl)]
      · rw [ha]
        exact List.mem_append_left _ (hmem b hb)

/-- What a call does with the mutex held is one step of the stock. -/
lemma Refines.run (h : Refines s r) {op : Op β} (hc : s.pc t = .inside op) (hs : op.Sound s.pool) {p : Pool τ β}
    {shards : List Shard} (he : op.run t s.pool = some (p, shards, c)) :
    ∃ e r', op.see t p c = some e ∧ Stock.Step r e r' ∧
      Refines ({ s with pool := p, pc := notify shards s.pool s.pc }.go t c) r' := by
  have hin : (s.pc t).waits = false := by
    rw [hc]
    rfl
  have hout := h.pool.out hin
  -- the call does not wait before or behind the operation
  have hsame : Function.update (fun u => (s.pc u).waits) t false = fun u => (s.pc u).waits := by
    rw [← hin]
    exact Function.update_eq_self t _
  cases op with
  | acquireNoLock new =>
    cases he
    obtain ⟨hp, hr, ha, -, -⟩ := h.pool.acquire hs
    refine ⟨_, _, rfl, ?_, h.operate hc (hsame.symm ▸ hp) (fun u _ _ => ?_) ha rfl (by simp)⟩
    · rw [← hr]
      exact .acquire new.isSome hout
    · rw [(r.acquire_waiters new.isSome).2]
  | acquireWait new =>
    obtain ⟨hp, hr, ha, -, hnone⟩ := h.pool.acquire hs
    simp only [Op.run, Pool.acquireWait] at he
    cases hacq : s.pool.acquireNoLock new with
    | mk q x =>
      rw [hacq] at he hp hr ha hnone
      cases x with
      | some b =>
        cases he
        refine ⟨_, _, rfl, ?_, h.operate hc (hsame.symm ▸ hp) (fun u _ _ => ?_) ha rfl (by simp)⟩
        · rw [← hr]
          exact .acquire new.isSome hout
        · rw [(r.acquire_waiters new.isSome).2]
      | none =>
        have hq : q = s.pool := hnone rfl
        subst hq
        cases hst : s.pool.mbStopping with
        | true =>
          simp only [hst, if_true] at he
          cases he
          refine ⟨_, r, rfl, .refuse hout hr (h.pool.stopping.trans hst), ?_⟩
          exact h.operate hc (hsame.symm ▸ h.pool) (fun _ _ _ => rfl) ⟨[], (List.append_nil _).symm⟩ rfl (by simp)
        | false =>
          simp only [hst, Bool.false_eq_true, if_false] at he
          cases he
          have hpark := h.pool.park hin hst
          refine ⟨_, r.park t, rfl, .park hout hr (h.pool.stopping.trans hst), ?_⟩
          refine h.operate hc hpark (fun u hu _ => Function.update_of_ne hu _ _) ⟨[], ?_⟩ rfl (by simp)
          rw [(Holds.enqueue_stock s.pool t).2.2.1, List.append_nil]
  | recycle b =>
    obtain ⟨p', shards', e, ha, hp⟩ := h.pool.giveAll [b] (by cases b with
      | none => exact fun x hx => absurd hx List.not_mem_nil
      | some b => exact List.forall_mem_singleton.mpr (hs b rfl))
    simp only [Op.run, recycle_eq, e, Option.map_some] at he
    cases he
    have hred : [b].reduceOption = b.toList := List.reduceOption_singleton b
    rw [hred] at hp
    have hnum : p.num = s.pool.num := by
      unfold Pool.num
      rw [ha]
    refine ⟨_, r.giveAll (b.toList.map p.num), rfl, .give _, ?_⟩
    · rw [hnum]
      exact h.operate hc (hsame.symm ▸ hp) (fun u _ hu => Stock.handed_giveAll hu _)
        ⟨[], ha.trans (List.append_nil _).symm⟩ rfl (by simp)
  | recycleList bs =>
    obtain ⟨p', shards', e, ha, hp⟩ := h.pool.giveAll bs hs
    simp only [Op.run, e, Option.map_some] at he
    cases he
    have hnum : p.num = s.pool.num := by
      unfold Pool.num
      rw [ha]
    refine ⟨_, r.giveAll (bs.reduceOption.map p.num), rfl, .give _, ?_⟩
    · rw [hnum]
      exact h.operate hc (hsame.symm ▸ hp) (fun u _ hu => Stock.handed_giveAll hu _)
        ⟨[], ha.trans (List.append_nil _).symm⟩ rfl (by simp)
  | stopWaiters =>
    cases he
    obtain ⟨-, -, ha, -⟩ := Holds.stopWaiters_stock s.pool
    refine ⟨_, _, rfl, .stop, h.operate hc (hsame.symm ▸ h.pool.stop) (fun u _ hu => if_neg hu) ?_ rfl (by simp)⟩
    exact ⟨[], ha.trans (List.append_nil _).symm⟩

omit [DecidableEq τ] in
/-- A waiter whose node is marked done was handed what is there. -/
lemma Refines.handed_of_done (h : Refines s r) (hw : (s.pc t).waits = true) (hd : (s.pool.node t).mbDone = true) :
    r.handed t = some ((s.pool.node t).mpBuf.map s.pool.num) ∧ ∀ b, (s.pool.node t).mpBuf = some b → b ∈ s.pool.moAll :=
  ⟨(h.pool.handed t).trans (if_pos ⟨hw, hd⟩), fun b hb => h.pool.given t b hw hd hb⟩

omit [DecidableEq β] [DecidableEq τ] in
/-- `init` puts all that it allocates into the free list. -/
lemma init_stock (news : List (Option β)) (p : Pool τ β) (hf : p.moFree = p.moAll)
    (hn : (p.moAll ++ news.reduceOption).Nodup) :
    (p.init news).moFree = (p.init news).moAll ∧ (p.init news).moAll.Nodup ∧
      (p.init news).mzBufferSize = p.mzBufferSize := by
  induction news generalizing p with
  | nil =>
    rw [List.reduceOption_nil, List.append_nil] at hn
    exact ⟨hf, hn, rfl⟩
  | cons new news ih =>
    have hp := Pool.tryReserve_fields (p := p)
    have hnodup : p.moAll.Nodup := hn.of_append_left
    rw [Pool.init]
    split
    · rename_i q e
      rw [e] at hp
      simp only at hp ⊢
      rw [hp]
      exact ⟨hf, hnodup, rfl⟩
    · rename_i q e
      rw [e] at hp
      simp only at hp
      have hall : q.moAll = p.moAll := by rw [hp]
      have hfree : q.moFree = p.moFree := by rw [hp]
      have hsize : q.mzBufferSize = p.mzBufferSize := by rw [hp]
      cases new with
      | none => exact ⟨hfree.trans (hf.trans hall.symm), hall.symm ▸ hnodup, hsize⟩
      | some b =>
        rw [List.reduceOption_cons_of_some] at hn
        have hi := ih { q with moAll := q.moAll ++ [b], moFree := q.moFree ++ [b] }
          (by rw [hfree, hf, hall]) (by rwa [hall, List.append_assoc])
        exact ⟨hi.1, hi.2.1, hi.2.2.trans hsize⟩

/-- The pool with its calls simulates the stock. -/
lemma refines_simulation : Simulation (seenSystem τ β) (Stock.system τ) Refines where
  start := by
    rintro s ⟨size, budget, news, hnews, rfl⟩
    obtain ⟨hf, hn, hs⟩ := init_stock news (Pool.ctor (τ := τ) size budget) rfl hnews
    have hd := dry_init news (Pool.ctor (τ := τ) size budget)
    obtain ⟨-, -, -, hst⟩ := dry_eq hd
    have hq : (dry (Pool.ctor (τ := τ) (β := β) size budget)).Queued [] :=
      ⟨.nil, rfl, nofun, fun _ => ⟨rfl, rfl⟩, rfl, fun _ => rfl⟩
    generalize (Pool.ctor (τ := τ) size budget).init news = p at hf hn hs hd hst
    refine ⟨.start p.mzBufferSize p.mpBudget p.moAll.length, ⟨_, _, _, rfl⟩, ?_, fun _ => nofun, fun _ _ => nofun⟩
    refine ⟨rfl, rfl, rfl, hst.symm, hn, ?_, ?_, hd ▸ hq, nofun, fun t => (if_neg ?_).symm, fun t b hw => ?_⟩
    · rw [hf, Pool.map_num hn]
      rfl
    · rw [hf]
      exact fun _ => id
    · exact fun hw => Bool.false_ne_true hw.1
    · exact absurd hw Bool.false_ne_true
  internal := by
    rintro s r s' h ⟨a, hs, hsound, hsee⟩
    cases hs with
    | enter hc => exact h.go hc (by rfl) (by exact nofun) (by exact nofun) s.moMutex
    | lock hc hm => exact h.go hc (by rfl) (by exact nofun) (by exact nofun) _
    | unlock hc => exact h.go hc (by rfl) (by exact nofun) (by exact nofun) _
    | sleep hc => exact h.go hc (by rfl) (by exact nofun) (by exact nofun) _
    | wake hc => exact h.go hc (by rfl) (by exact nofun) (by exact nofun) s.moMutex
    | relock hc => exact h.go hc (by rfl) (by exact nofun) (by exact nofun) _
    | @done t hc hd =>
      have hh := (h.handed_of_done (by rw [hc]; rfl) hd).1
      exact h.go hc (by rfl) (fun _ => by rw [hh]; exact Option.some_ne_none _) (by exact nofun) s.moMutex
    | @read t hc =>
      have hw : (s.pc t).waits = true := by rw [hc]; rfl
      have hd : (s.pool.node t).mbDone = true := by
        by_contra hd
        refine h.reads t hc ?_
        rw [h.pool.handed, if_neg fun hf => hd hf.2]
      refine h.go hc (by rfl) (by exact nofun) ?_ s.moMutex
      rintro x ⟨⟩
      exact h.handed_of_done hw hd
    | release hc =>
      refine h.go hc (by rfl) (by exact nofun) ?_ _
      rintro x ⟨⟩
      exact h.result _ _ (by rw [hc]; rfl)
    | unlocked hc =>
      refine h.go hc (by rfl) (by exact nofun) ?_ s.moMutex
      rintro x ⟨⟩
      exact h.result _ _ (by rw [hc]; rfl)
    | decrement hc =>
      simp only [see, hc] at hsee
      cases hsee
    | run hc he =>
      obtain ⟨e, r', hop, -, -⟩ := h.run hc (hsound _ hc) he
      simp only [see, hc, Sys.go, Function.update_self] at hsee
      cases hop.symm.trans hsee
    | _ => exact hsound.elim
  visible := by
    rintro s r x s' h ⟨a, hs, hsound, hsee⟩
    cases hs with
    | run hc he =>
      obtain ⟨e, r', hop, hstep, hr⟩ := h.run hc (hsound _ hc) he
      simp only [see, hc, Sys.go, Function.update_self] at hsee
      cases hop.symm.trans hsee
      exact ⟨r', hstep, hr⟩
    | @decrement t y hc =>
      simp only [see, hc] at hsee
      cases hsee
      obtain ⟨hh, -⟩ := h.result t y (by rw [hc]; rfl)
      have hnot := h.not_mem (h.handed_ne (show (s.pc t).result = some y by rw [hc]; rfl))
      have hother : ∀ u, u ≠ t → (r.leave t).handed u = r.handed u := fun u hu => Function.update_of_ne hu _ _
      refine ⟨r.leave t, .leave hh, (h.pool.leave _ hnot).congr fun u => ?_, fun u hu => ?_, fun u x hx => ?_⟩
      · simp only [Sys.go]
        obtain rfl | hne := eq_or_ne u t
        · rw [Function.update_self, Function.update_self]
          rfl
        · rw [Function.update_of_ne hne, Function.update_of_ne hne]
      · simp only [Sys.go] at hu
        obtain rfl | hne := eq_or_ne u t
        · rw [Function.update_self] at hu
          cases hu
        · rw [Function.update_of_ne hne] at hu
          rw [hother u hne]
          exact h.reads u hu
      · simp only [Sys.go] at hx ⊢
        obtain rfl | hne := eq_or_ne u t
        · rw [Function.update_self] at hx
          cases hx
        · rw [Function.update_of_ne hne] at hx
          rw [hother u hne]
          exact h.result u x hx
    | enter hc | lock hc hm | unlock hc | sleep hc | wake hc | relock hc | done hc | read hc | release hc
    | unlocked hc =>
      simp only [see, hc] at hsee
      cases hsee
    | _ => exact hsound.elim

/-- To the threads that call it a pool is a stock: what they see of any run of any of its calls, with the mutex, the
linked nodes and the wakeups behind it, they could have seen of a stock whose operations are single steps, and pool and
stock have the same buffers, budget and waiters in the end. -/
theorem pool_refines_stock {l : List (Option (StockEvent τ))} (h : (seenSystem τ β).Run l s) :
    ∃ r, (Stock.system τ).Run l.reduceOption r ∧ Refines s r := by
  exact refines_simulation.run h

/-- A call takes the only buffer and another one parks; a third one gives the buffer back, and the second returns
with it. -/
lemma handed_run : ∃ (l : List (Option (StockEvent Nat))) (s : Sys Nat Nat), (seenSystem Nat Nat).Run l s ∧
    l.reduceOption = [.acquired 0 (some 0), .parked 1, .given [0], .returned 1 (some 0)] ∧
    s.pc 1 = .left (some 7) := by
  have h := System.Run.start (S := seenSystem Nat Nat) ⟨1024, some ⟨1024, 0⟩, [some 7], List.nodup_singleton 7, rfl⟩
  -- the call 0
  have h := h.step ⟨.call 0, show Step _ _ (Sys.go _ 0 (.enters (.acquireNoLock none))) from .enter rfl, nofun, rfl⟩
  have h := h.step ⟨.call 0, .lock (t := 0) rfl rfl, nofun, rfl⟩
  have h := h.step ⟨.call 0, .run (t := 0) rfl rfl, by rintro _ ⟨⟩ _ ⟨⟩, rfl⟩
  have h := h.step ⟨.call 0, .unlock (t := 0) rfl, nofun, rfl⟩
  -- the call 1
  have h := h.step ⟨.call 1, show Step _ _ (Sys.go _ 1 (.enters (.acquireWait none))) from .enter rfl, nofun, rfl⟩
  have h := h.step ⟨.call 1, .lock (t := 1) rfl rfl, nofun, rfl⟩
  have h := h.step ⟨.call 1, .run (t := 1) rfl rfl, by rintro _ ⟨⟩ _ ⟨⟩, rfl⟩
  have h := h.step ⟨.call 1, .sleep (t := 1) rfl rfl, nofun, rfl⟩
  -- the call 2
  have h := h.step ⟨.call 2, show Step _ _ (Sys.go _ 2 (.enters (.recycle (some 7)))) from .enter rfl, nofun, rfl⟩
  have h := h.step ⟨.call 2, .lock (t := 2) rfl rfl, nofun, rfl⟩
  have h := h.step ⟨.call 2, .run (t := 2) rfl rfl, by rintro _ ⟨⟩ _ ⟨⟩; exact List.mem_singleton_self _, rfl⟩
  have h := h.step ⟨.call 2, .unlock (t := 2) rfl, nofun, rfl⟩
  -- the call 1 leaves
  have h := h.step ⟨.call 1, .relock (t := 1) rfl rfl, nofun, rfl⟩
  have h := h.step ⟨.call 1, .done (t := 1) rfl rfl, nofun, rfl⟩
  have h := h.step ⟨.call 1, .read (t := 1) rfl, nofun, rfl⟩
  have h := h.step ⟨.call 1, .release (t := 1) rfl, nofun, rfl⟩
  have h := h.step ⟨.call 1, .unlocked (t := 1) rfl, nofun, rfl⟩
  have h := h.step ⟨.call 1, .decrement (t := 1) rfl, nofun, rfl⟩
  exact ⟨_, _, h, rfl, rfl⟩

/-- One thread has the only buffer, another one is parked and handed it. -/
theorem pool_refines_stock_handed : ∃ (l : List (Option (StockEvent Nat))) (s : Sys Nat Nat),
    l.reduceOption = [.acquired 0 (some 0), .parked 1, .given [0], .returned 1 (some 0)] ∧
    s.pc 1 = .left (some 7) ∧ ∃ r, (Stock.system Nat).Run l.reduceOption r ∧ Refines s r := by
  obtain ⟨l, s, h, hl, hc⟩ := handed_run
  exact ⟨l, s, hl, hc, pool_refines_stock h⟩

end Teardown

end P8
