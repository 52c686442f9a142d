import P8.Pool.Budget
import P8.Pool.Config

/-!
# Parked threads

The pool of one core, set up by `init_buffer_pool`, and the threads that park in its `acquire_wait`: whether a
buffer is out that its holder can recycle to them (`parked_served`).

`coreSystem` is the pool with its budget for one core, an instance of `Pool/Shared.lean`; `fedSystem` is the same
where every allocation succeeds. `Starves` is the condition on the configuration, that the maximum has no room for a
single buffer. `Served` says of a state that a parked thread has somebody who holds a buffer.

`Fed` is the invariant of a core that does not starve: a pool that refused somebody has all the buffers its budget
allows, and at least one (`all_of_refused`); while somebody waits none is free, so one is lent (`lent_ne_nil`).
`Lone` is the other direction, a core that starves: no buffer is ever allocated, and the thread that parks is not
served (`parked_unserved`).
-/

namespace P8.Shared
open P8.Lib P8.Config

variable {τ β : Type} [DecidableEq τ] [DecidableEq β] {s s' : Sys Unit τ β} {l : List Event} {e : Event}
  {cfg : PoolConfig}

/-- The buffer size is a `size_t`. -/
lemma toNat_mzDataBufferSize : (UInt64.ofNat mzDataBufferSize).toNat = mzDataBufferSize :=
  UInt64.toNat_ofNat_of_lt' (by decide)

/-- The pool is made and a thread is about to allocate its first buffers. -/
abbrev coreStart (cfg : PoolConfig) (t : τ) : Sys Unit τ β :=
  ⟨cfg.lzMaxMemorySize, 0, {()}, fun _ => ⟨UInt64.ofNat mzDataBufferSize, [], [], [], [], false⟩, fun _ => some t,
    Function.update (fun _ => .out) t (.init () cfg.izInitialCount)⟩

/-- A core makes its pool once. -/
def coreSystem (cfg : PoolConfig) : System (Sys Unit τ β) Event where
  start s := ∃ t, s = coreStart cfg t
  step s e s' := Step s e s' ∧ s'.live ⊆ s.live

omit [DecidableEq τ] [DecidableEq β] in
/-- In this step the allocation of an `acquire_wait` fails while the pool has no buffer. -/
def Starves (s s' : Sys Unit τ β) : Prop :=
  (s.pool ()).moAll = [] ∧ ∃ t, s.pc t = .alloc () (.acquire true) ∧ s'.pc t = .giveBack () (.acquire true)

/-- The core in which that does not happen. -/
def fedSystem (cfg : PoolConfig) : System (Sys Unit τ β) Event where
  start s := ∃ t, s = coreStart cfg t
  step s e s' := (coreSystem cfg).step s e s' ∧ ¬Starves s s'

/-- While a thread is parked, a buffer of the pool is allocated and not free. -/
def Served (s : Sys Unit τ β) : Prop := ∀ t, s.pc t = .parked () → ∃ b ∈ (s.pool ()).moAll, b ∉ (s.pool ()).moFree

/-! ## The pool of a core -/

/-- The buffer is for a call of `acquire_no_lock`. -/
def Use.isAcquire : Use → Bool
  | .init _ => false
  | .acquire _ => true

/-- The buffer is for a call of `acquire_wait`. -/
def Use.waits : Use → Bool
  | .init _ => false
  | .acquire wait => wait

/-- A thread found the free list empty and has not got a buffer. -/
def Pc.growing : Pc Unit β → Bool
  | .load _ use | .test _ use _ | .alloc _ use | .giveBack _ use | .failed _ use => use.isAcquire
  | .out | .init _ _ | .acquire _ _ | .parked _ | .handed _ _ | .destroyed _ => false

/-- A thread has got no buffer and will park. -/
def Pc.parking : Pc Unit β → Bool
  | .giveBack _ use | .failed _ use => use.waits
  | .out | .init _ _ | .acquire _ _ | .load _ _ | .test _ _ _ | .alloc _ _ | .parked _ | .handed _ _
  | .destroyed _ => false

/-- A call of `acquire_wait` is one of `acquire_no_lock`. -/
lemma Use.eq_of_waits {use : Use} (h : use.waits = true) : use = .acquire true := by
  cases use with
  | init n => cases h
  | acquire wait => exact congrArg Use.acquire h

omit [DecidableEq β] in
/-- A thread that will park found the free list empty. -/
lemma Pc.growing_of_parking {c : Pc Unit β} (h : c.parking = true) : c.growing = true := by
  cases c with
  | giveBack p use => exact congrArg Use.isAcquire (Use.eq_of_waits h)
  | failed p use => exact congrArg Use.isAcquire (Use.eq_of_waits h)
  | _ => cases h

omit [DecidableEq β] in
/-- A thread that found the free list empty holds the mutex. -/
lemma Pc.locks_of_growing {c : Pc Unit β} (h : c.growing = true) : c.locks = some () := by
  cases c <;> first | rfl | cases h

omit [DecidableEq β] in
/-- A thread that found the free list empty is in the pool's code. -/
lemma Pc.pool_of_growing {c : Pc Unit β} (h : c.growing = true) : c.pool = some () := by
  cases c <;> first | rfl | cases h

/-- The one pool of a core whose budget has room for a buffer. -/
structure Fed (s : Sys Unit τ β) : Prop where
  room : mzDataBufferSize ≤ s.mzMax.toNat
  size : () ∈ s.live → (s.pool ()).mzBufferSize = UInt64.ofNat mzDataBufferSize
  alive : () ∈ s.live → ∀ t n, s.pc t ≠ .destroyed n
  cur : ∀ t use lzCurrent, s.pc t = .test () use lzCurrent → lzCurrent = s.muUsed
  empty : ∀ t, (s.pc t).growing = true → (s.pool ()).moFree = []
  queued : ∀ t, s.pc t = .parked () → t ∈ (s.pool ()).queue
  parking : ∀ t, (s.pc t).parking = true → (s.pool ()).lent ≠ []
  lent : (s.pool ()).queue ≠ [] → (s.pool ()).lent ≠ []

namespace Fed

omit [DecidableEq τ] [DecidableEq β] in
/-- While a thread looks at the budget, it is what the pool has. -/
lemma used_eq (hl : Locked s) (hb : Budget s) (hi : Fed s) {t : τ} {use : Use} {cur : UInt64}
    (ht : s.pc t = .test () use cur) : s.muUsed.toNat = (s.pool ()).moAll.length * mzDataBufferSize := by
  have hlive : () ∈ s.live := hl.live t () (by rw [ht]; rfl)
  have hlock : s.lock () = some t := (hl.lock t ()).mp (by rw [ht]; rfl)
  have hout : ∀ x ∉ ({()} : Finset Unit).map Function.Embedding.inl, account s x = 0 := by
    intro x hx
    cases x with
    | inl p => exact absurd (Finset.mem_map_of_mem Function.Embedding.inl (Finset.mem_singleton_self ())) hx
    | inr u =>
      show (s.pc u).inFlight s.pool = 0
      obtain rfl | hn := eq_or_ne u t
      · rw [ht]
        rfl
      · -- another thread does not hold the mutex
        have hu : (s.pc u).locks ≠ some () := fun h => hn (Option.some.inj (((hl.lock u ()).mp h).symm.trans hlock))
        cases hc : s.pc u with
        | alloc p use => exact absurd (congrArg Pc.locks hc) hu
        | giveBack p use => exact absurd (congrArg Pc.locks hc) hu
        | destroyed n => exact absurd hc (hi.alive hlive u n)
        | _ => rfl
  rw [hb.sum.eq_sum hout, Finset.sum_map, Finset.sum_singleton]
  show (if () ∈ s.live then reserved s () else 0) = _
  rw [if_pos hlive, reserved, hi.size hlive, toNat_mzDataBufferSize]

omit [DecidableEq τ] [DecidableEq β] in
/-- The buffers of a pool with an empty free list are out. -/
lemma lent_ne_nil (hk : Stocked s) (hlive : () ∈ s.live) (hfree : (s.pool ()).moFree = [])
    (hall : (s.pool ()).moAll ≠ []) : (s.pool ()).lent ≠ [] := by
  intro hlent
  have hp := (hk () hlive).perm
  rw [hfree, hlent] at hp
  exact hall hp.symm.eq_nil

omit [DecidableEq τ] [DecidableEq β] in
/-- A request is refused only when the pool has a buffer. -/
lemma all_of_refused (hl : Locked s) (hb : Budget s) (hi : Fed s) {t : τ} {use : Use} {cur : UInt64}
    (ht : s.pc t = .test () use cur) (hf : ¬Fits s cur (s.pool ()).mzBufferSize) : (s.pool ()).moAll ≠ [] := by
  intro hall
  have hlive : () ∈ s.live := hl.live t () (by rw [ht]; rfl)
  have hu : s.muUsed.toNat = 0 := by
    rw [hi.used_eq hl hb ht, hall]
    exact Nat.zero_mul _
  have hsize : (s.pool ()).mzBufferSize.toNat = mzDataBufferSize := by
    rw [hi.size hlive, toNat_mzDataBufferSize]
  have hroom := hi.room
  apply hf
  rw [hi.cur t use cur ht, fits_iff s _ hb.le]
  omega

/-- One buffer of `recycle`, the mutex free before. -/
lemma recycleOne (hl : Locked s) (hi : Fed s) (hlive : () ∈ s.live) (hk : s.lock () = none) (b : β) :
    Fed (s.recycle () b) := by
  obtain ⟨room, size, alive, cur, empty, queued, parking, lent⟩ := hi
  -- nobody holds the mutex
  have hno : ∀ t, (s.pc t).growing = false := fun t => Bool.eq_false_iff.mpr fun hg => by
    have ht := (hl.lock t ()).mp (Pc.locks_of_growing hg)
    rw [hk] at ht
    cases ht
  unfold Sys.recycle
  split
  case h_1 u q hq =>
    have hu : s.pc u = .parked () := hl.queue () hlive u (hq ▸ List.mem_cons_self)
    constructor <;> grind [Pc.growing, Pc.parking]
  case h_2 hq => constructor <;> grind [Pc.growing_of_parking]

/-- `recycle` of a list. -/
lemma recycleAll (bs : List β) (hl : Locked s) (hi : Fed s) (hlive : () ∈ s.live) (hk : s.lock () = none) :
    Fed (bs.foldl (fun s b => s.recycle () b) s) := by
  induction bs generalizing s with
  | nil => exact hi
  | cons b bs ih =>
    have hs : (s.recycle () b).live = s.live ∧ (s.recycle () b).lock = s.lock := by
      unfold Sys.recycle
      split <;> exact ⟨rfl, rfl⟩
    exact ih (hl.recycleOne hlive b) (hi.recycleOne hl hlive hk b) (hs.1 ▸ hlive) (hs.2 ▸ hk)

section
variable (hl : Locked s) (hk : Stocked s) (hb : Budget s) (hi : Fed s) (hs : Step s e s') (hlive : s'.live ⊆ s.live)
include hl hi hs hlive

/-- The sizes stay, and a live pool was not destroyed. -/
lemma step_size : mzDataBufferSize ≤ s'.mzMax.toNat ∧
    (() ∈ s'.live → (s'.pool ()).mzBufferSize = UInt64.ofNat mzDataBufferSize) ∧
    (() ∈ s'.live → ∀ t n, s'.pc t ≠ .destroyed n) := by
  have room := hi.room
  have size := hi.size
  have alive := hi.alive
  cases hs
  case recycle t p bs ht hp hlk hbs hm =>
    have h := hi.recycleAll bs hl hp hlk
    exact ⟨h.room, h.size, h.alive⟩
  all_goals grind

/-- What a thread read is what `mu_used` is. -/
lemma step_cur : ∀ t use cur, s'.pc t = .test () use cur → cur = s'.muUsed := by
  have lock := hl.lock
  have live := hl.live
  have alive := hi.alive
  have cur := hi.cur
  cases hs
  case recycle t p bs ht hp hlk hbs hm => exact (hi.recycleAll bs hl hp hlk).cur
  all_goals grind [Pc.locks, Pc.pool]

/-- A thread that has not got a buffer still finds the free list empty. -/
lemma step_empty : ∀ t, (s'.pc t).growing = true → (s'.pool ()).moFree = [] := by
  have hgrow : ∀ u, (s.pc u).growing = true → s.lock () = some u :=
    fun u hu => (hl.lock u ()).mp (Pc.locks_of_growing hu)
  have hlock := hl.lock
  have halloc : ∀ t p use, s.pc t = .alloc p use → s.lock () = some t :=
    fun t p use ht => (hl.lock t ()).mp (by rw [ht]; rfl)
  have empty := hi.empty
  cases hs
  case recycle t p bs ht hp hlk hbs hm => exact (hi.recycleAll bs hl hp hlk).empty
  all_goals
    intro u hu
    grind [Pc.growing, Pc.locks, Use.isAcquire]

/-- The waiters of the pool are the threads parked in it. -/
lemma step_queued : ∀ t, s'.pc t = .parked () → t ∈ (s'.pool ()).queue := by
  have hlock := hl.lock
  have queued := hi.queued
  cases hs
  case recycle t p bs ht hp hlk hbs hm => exact (hi.recycleAll bs hl hp hlk).queued
  all_goals grind [Pc.pool]

include hk hb in
/-- A thread that will park has seen the pool's buffers go out. -/
lemma step_parking (hn : ¬Starves s s') : ∀ t, (s'.pc t).parking = true → (s'.pool ()).lent ≠ [] := by
  have hlent : () ∈ s.live → (s.pool ()).moFree = [] → (s.pool ()).moAll ≠ [] → (s.pool ()).lent ≠ [] :=
    fun hp hf => lent_ne_nil hk hp hf
  have hall := fun t use cur => @all_of_refused _ _ _ hl hb hi t use cur
  have hlock := hl.lock
  have hpool : ∀ u, (s.pc u).growing = true → (s.pc u).pool = some () := fun u hu => Pc.pool_of_growing hu
  have hunit : ∀ p : Unit, p = () := fun _ => rfl
  have hlive := hl.live
  have hgrow : ∀ u, (s.pc u).growing = true → s.lock () = some u :=
    fun u hu => (hl.lock u ()).mp (Pc.locks_of_growing hu)
  have empty := hi.empty
  have parking := hi.parking
  unfold Starves at hn
  cases hs
  case recycle t p bs ht hp hlk hbs hm => exact (hi.recycleAll bs hl hp hlk).parking
  all_goals
    intro u hu
    grind [Pc.growing_of_parking, Pc.growing, Pc.parking, Pc.locks, Pc.pool, Use.isAcquire, Use.waits, Use.eq_of_waits]

/-- While a waiter is queued, a buffer is out. -/
lemma step_lent : (s'.pool ()).queue ≠ [] → (s'.pool ()).lent ≠ [] := by
  have parking := hi.parking
  have lent := hi.lent
  cases hs
  case recycle t p bs ht hp hlk hbs hm => exact (hi.recycleAll bs hl hp hlk).lent
  all_goals grind [Pc.parking, Use.waits]

end

/-- Every step of a core in which no `acquire_wait` starves keeps it. -/
lemma step (hl : Locked s) (hk : Stocked s) (hb : Budget s) (hi : Fed s) (hs : Step s e s') (hlive : s'.live ⊆ s.live)
    (hn : ¬Starves s s') : Fed s' := by
  obtain ⟨room, size, alive⟩ := step_size hl hi hs hlive
  exact ⟨room, size, alive, step_cur hl hi hs hlive, step_empty hl hi hs hlive, step_queued hl hi hs hlive,
    step_parking hl hk hb hi hs hlive hn, step_lent hl hi hs hlive⟩

end Fed

/-! ## Runs of a core -/

omit [DecidableEq β] in
/-- A core starts with what holds of any pools. -/
lemma core_start (cfg : PoolConfig) (t : τ) :
    Locked (coreStart cfg t : Sys Unit τ β) ∧ Stocked (coreStart cfg t : Sys Unit τ β) ∧
      Budget (coreStart cfg t : Sys Unit τ β) := by
  refine ⟨?_, fun p _ => ⟨List.nodup_nil, List.Perm.refl _⟩, Nat.zero_le _, ?_⟩
  · constructor <;> grind [Pc.locks, Pc.pool]
  · have ha : account (coreStart cfg t : Sys Unit τ β) = fun _ => 0 := by
      funext x
      cases x <;> grind [account, reserved, Pc.inFlight]
    rw [ha]
    exact AddsUp.zero

/-- What holds of any pools holds over the runs of a core. -/
lemma core_run {s : Sys Unit τ β} (h : (coreSystem cfg).Run l s) : Locked s ∧ Stocked s ∧ Budget s := by
  apply h.holds
  · rintro s ⟨t, rfl⟩
    exact core_start cfg t
  · rintro s e s' ⟨hl, hk, hb⟩ ⟨hs, -⟩
    exact ⟨hl.step hs, hk.step hl hs, (hb.step hl hs).1⟩

/-- A run in which no `acquire_wait` starves is a run. -/
lemma core_of_fed {s : Sys Unit τ β} (h : (fedSystem cfg).Run l s) : (coreSystem cfg).Run l s := by
  induction h with
  | start h => exact .start h
  | step h hs ih => exact ih.step hs.1

/-- The pool of a core whose budget has room for a buffer, over the runs in which no `acquire_wait` starves. -/
lemma fed_run {s : Sys Unit τ β} (hc : mzDataBufferSize ≤ cfg.lzMaxMemorySize.toNat) (h : (fedSystem cfg).Run l s) :
    Fed s := by
  refine h.invariant (I := fun _ s => Fed s) ?_ fun l s e s' hr hi hs => ?_
  · rintro s ⟨t, rfl⟩
    constructor <;> grind [Pc.growing, Pc.parking]
  · obtain ⟨hl, hk, hb⟩ := core_run (core_of_fed hr)
    exact hi.step hl hk hb hs.1.1 hs.1.2 hs.2

omit [DecidableEq τ] [DecidableEq β] in
/-- A buffer that is out is one of the pool's and not free. -/
lemma Fed.served (hl : Locked s) (hk : Stocked s) (hi : Fed s) : Served s := by
  intro t ht
  have hp := hk () (hl.live t () (by rw [ht]; rfl))
  obtain ⟨b, hb⟩ := List.exists_mem_of_ne_nil _ (hi.lent (List.ne_nil_of_mem (hi.queued t ht)))
  refine ⟨b, hp.perm.subset (List.mem_append_right _ hb), fun hf => ?_⟩
  exact List.disjoint_of_nodup_append (hp.perm.nodup_iff.mpr hp.nodup) hf hb

/-- The pool of a core has no buffer, and no thread but one does anything. -/
structure Lone (cfg : PoolConfig) (t : τ) (lock : Option τ) (c : Pc Unit β) (s : Sys Unit τ β) : Prop where
  mzMax : s.mzMax = cfg.lzMaxMemorySize
  muUsed : s.muUsed = 0
  live : s.live = {()}
  pool : s.pool () = ⟨UInt64.ofNat mzDataBufferSize, [], [], [], [], false⟩
  lock : s.lock () = lock
  pc : s.pc = Function.update (fun _ => .out) t c

namespace Lone

variable {t : τ} {o : Option τ} {c c' : Pc Unit β}

omit [DecidableEq β] in
/-- Where the thread is. -/
lemma pc_self (h : Lone cfg t o c s) : s.pc t = c := by
  rw [h.pc, Function.update_self]

omit [DecidableEq β] in
/-- The thread goes on. -/
lemma go (h : Lone cfg t o c s) (c' : Pc Unit β) : Lone cfg t o c' (s.go t c') := by
  refine ⟨h.mzMax, h.muUsed, h.live, h.pool, h.lock, ?_⟩
  show Function.update s.pc t c' = _
  rw [h.pc, Function.update_idem]

omit [DecidableEq β] in
/-- The thread takes or leaves the mutex. -/
lemma setLock (h : Lone cfg t o c s) (o' : Option τ) : Lone cfg t o' c (s.setLock () o') := by
  refine ⟨h.mzMax, h.muUsed, h.live, h.pool, ?_, h.pc⟩
  show Function.update s.lock () o' () = o'
  rw [Function.update_self]

/-- A step of the thread that is no failed allocation is one of a run. -/
lemma run (h : ∃ l s, (fedSystem cfg).Run l s ∧ Lone cfg t o c s) {o' : Option τ}
    (hs : ∀ s, Lone cfg t o c s → ∃ e s', Step s e s' ∧ Lone cfg t o' c' s') (hc : c' ≠ .giveBack () (.acquire true)) :
    ∃ l s, (fedSystem cfg).Run l s ∧ Lone cfg t o' c' s := by
  obtain ⟨l, s, h, hl⟩ := h
  obtain ⟨e, s', hs, hl'⟩ := hs s hl
  refine ⟨_, s', h.step ⟨⟨hs, by rw [hl.live, hl'.live]⟩, ?_⟩, hl'⟩
  rintro ⟨-, u, -, hu⟩
  rw [hl'.pc] at hu
  obtain rfl | hn := eq_or_ne u t
  · rw [Function.update_self] at hu
    exact hc hu
  · rw [Function.update_of_ne hn] at hu
    cases hu

end Lone

/-- A budget with no room for a buffer lets a thread park with no buffer allocated. -/
lemma parked_of_lt {strCasecmp : List UInt8 → List UInt8 → Bool} {lsMaxMem lsInitMem : List UInt8}
    (h : poolConfig strCasecmp lsMaxMem lsInitMem = some cfg) (hc : cfg.lzMaxMemorySize.toNat < mzDataBufferSize)
    (t : τ) : ∃ l, ∃ s : Sys Unit τ β, (fedSystem cfg).Run l s ∧ ¬Served s := by
  have hcount : cfg.izInitialCount = 0 := by
    have hle := initialCount_le h
    by_contra hn
    have hone : mzDataBufferSize ≤ cfg.izInitialCount * mzDataBufferSize :=
      Nat.le_mul_of_pos_left _ (Nat.pos_of_ne_zero hn)
    omega
  have hstart : ∃ l, ∃ s : Sys Unit τ β, (fedSystem cfg).Run l s ∧ Lone cfg t (some t) (.init () 0) s :=
    ⟨_, _, .start ⟨t, rfl⟩, rfl, rfl, rfl, rfl, rfl, hcount ▸ rfl⟩
  have hout := Lone.run hstart (fun s hs => ⟨_, _, .initDone hs.pc_self, (hs.setLock none).go .out⟩) (by simp)
  have hacquire := Lone.run hout (fun s hs => ⟨_, _, @Step.acquire _ _ _ _ _ _ _ _ () true hs.pc_self
    (hs.live ▸ Finset.mem_singleton_self ()) hs.lock, (hs.setLock (some t)).go _⟩) (by simp)
  have hload := Lone.run hacquire (fun s hs => ⟨_, _, .grow hs.pc_self (by rw [hs.pool]), hs.go _⟩) (by simp)
  have htest : ∃ l, ∃ s : Sys Unit τ β, (fedSystem cfg).Run l s ∧ Lone cfg t (some t) (.test () (.acquire true) 0) s :=
    Lone.run hload (fun s hs => ⟨_, _, .load hs.pc_self, by rw [hs.muUsed]; exact hs.go _⟩) (by simp)
  have hfits : ∀ s : Sys Unit τ β, Lone cfg t (some t) (.test () (.acquire true) 0) s →
      ¬Fits s 0 (s.pool ()).mzBufferSize := by
    intro s hs hf
    rw [← hs.muUsed, fits_iff s _ (by rw [hs.muUsed]; exact Nat.zero_le _), hs.muUsed, hs.mzMax, hs.pool,
      UInt64.toNat_zero, Nat.zero_add, toNat_mzDataBufferSize] at hf
    exact Nat.not_le.mpr hc hf
  obtain ⟨l, s, hr, hs⟩ := Lone.run htest
    (fun s hs => ⟨_, _, .refuse hs.pc_self (hfits s hs), hs.go _⟩) (by simp)
  refine ⟨_, _, hr.step ⟨⟨.park hs.pc_self (by rw [hs.pool]), subset_rfl⟩, ?_⟩, fun hv => ?_⟩
  · rintro ⟨-, u, hu, -⟩
    rw [hs.pc] at hu
    grind
  · obtain ⟨b, hb, -⟩ := hv t (Function.update_self _ _ _)
    grind [hs.pool]

/-- A core in which an `acquire_wait` starves lets it park with no buffer allocated. -/
lemma parked_of_starves {s : Sys Unit τ β} (h : (coreSystem cfg).Run l s) (hs : (coreSystem cfg).step s e s')
    (hn : Starves s s') (hm : (s.pool ()).mbStopping = false) :
    ∃ l, ∃ s : Sys Unit τ β, (coreSystem cfg).Run l s ∧ ¬Served s := by
  obtain ⟨hall, t, ht, ht'⟩ := hn
  have hlock : s.lock () = some t := ((core_run h).1.lock t ()).mp (by rw [ht]; rfl)
  have hgo : s' = s.go t (.giveBack () (.acquire true)) := by
    obtain ⟨hs, -⟩ := hs
    cases hs <;> grind
  subst hgo
  have h1 := h.step hs
  have ht1 : (s.go t (.giveBack () (.acquire true))).pc t = .giveBack () (.acquire true) := ht'
  have h2 := h1.step ⟨.giveBack ht1, subset_rfl⟩
  have h3 := h2.step ⟨.park (p := ()) (t := t) (Function.update_self ..) hm, subset_rfl⟩
  refine ⟨_, _, h3, fun hv => ?_⟩
  obtain ⟨b, hb, -⟩ := hv t (Function.update_self _ _ _)
  grind

/-- A parked thread can be served in every run in which no `acquire_wait` starves if and only if the configured maximum
has room for a buffer; and an `acquire_wait` that starves before the shutdown can park with no buffer allocated. -/
theorem parked_served [Inhabited τ] {strCasecmp : List UInt8 → List UInt8 → Bool} {lsMaxMem lsInitMem : List UInt8}
    (h : poolConfig strCasecmp lsMaxMem lsInitMem = some cfg) :
    ((∀ l, ∀ s : Sys Unit τ β, (fedSystem cfg).Run l s → Served s) ↔ mzDataBufferSize ≤ cfg.lzMaxMemorySize.toNat) ∧
      ∀ l e, ∀ s s' : Sys Unit τ β, (coreSystem cfg).Run l s → (coreSystem cfg).step s e s' → Starves s s' →
        (s.pool ()).mbStopping = false → ∃ l, ∃ s : Sys Unit τ β, (coreSystem cfg).Run l s ∧ ¬Served s := by
  refine ⟨⟨fun hv => ?_, fun hc l s hr => ?_⟩, fun l e s s' hr hs hn hm => parked_of_starves hr hs hn hm⟩
  · by_contra hc
    obtain ⟨l, s, hr, hn⟩ := parked_of_lt (τ := τ) (β := β) h (Nat.not_le.mp hc) default
    exact hn (hv l s hr)
  · obtain ⟨hl, hk, -⟩ := core_run (core_of_fed hr)
    exact (fed_run hc hr).served hl hk

/-- `str_casecmp` of ASCII strings. -/
def asciiCasecmp (a b : List UInt8) : Bool :=
  let lower := List.map fun c : UInt8 => if 65 ≤ c ∧ c ≤ 90 then c + 32 else c
  lower a == lower b

/-- One buffer, one thread that has it and another that is parked. -/
theorem parked_served_one : ∃ s : Sys Unit Bool Nat, s.pc true = .parked () ∧ Served s := by
  have hc : poolConfig asciiCasecmp (ascii "8 Ki") [] = some ⟨8192, 1⟩ := rfl
  have hn : ∀ s s' : Sys Unit Bool Nat, (∀ t, s'.pc t ≠ .giveBack () (.acquire true)) → ¬Starves s s' :=
    fun s s' hn ⟨_, t, _, ht⟩ => hn t ht
  have h : (fedSystem (τ := Bool) (β := Nat) ⟨8192, 1⟩).Run _ (coreStart ⟨8192, 1⟩ false) := .start ⟨false, rfl⟩
  have h := h.step ⟨⟨.initNext (t := false) rfl, subset_rfl⟩, hn _ _ fun t ht => by cases t <;> cases ht⟩
  have h := h.step ⟨⟨.load (t := false) rfl, subset_rfl⟩, hn _ _ fun t ht => by cases t <;> cases ht⟩
  have h := h.step ⟨⟨.swap (t := false) rfl (show ¬((0 : UInt64) > 8192 ∨ (8192 : UInt64) - 0 < 8192) by decide),
    subset_rfl⟩, hn _ _ fun t ht => by cases t <;> cases ht⟩
  have h := h.step ⟨⟨.allocInit (t := false) (b := 0) rfl fun _ _ => List.not_mem_nil, subset_rfl⟩,
    hn _ _ fun t ht => by cases t <;> cases ht⟩
  have h := h.step ⟨⟨.initDone (t := false) rfl, subset_rfl⟩, hn _ _ fun t ht => by cases t <;> cases ht⟩
  have h := h.step ⟨⟨@Step.acquire _ _ _ _ _ _ _ false () true rfl (Finset.mem_singleton_self ()) rfl, subset_rfl⟩,
    hn _ _ fun t ht => by cases t <;> cases ht⟩
  have h := h.step ⟨⟨.take (t := false) rfl rfl, subset_rfl⟩, hn _ _ fun t ht => by cases t <;> cases ht⟩
  have h := h.step ⟨⟨@Step.acquire _ _ _ _ _ _ _ true () true rfl (Finset.mem_singleton_self ()) rfl, subset_rfl⟩,
    hn _ _ fun t ht => by cases t <;> cases ht⟩
  have h := h.step ⟨⟨.grow (t := true) rfl rfl, subset_rfl⟩, hn _ _ fun t ht => by cases t <;> cases ht⟩
  have h := h.step ⟨⟨.load (t := true) rfl, subset_rfl⟩, hn _ _ fun t ht => by cases t <;> cases ht⟩
  have h := h.step ⟨⟨.refuse (t := true) rfl
      (show ¬¬((8192 : UInt64) > 8192 ∨ (8192 : UInt64) - 8192 < 8192) by decide), subset_rfl⟩,
    hn _ _ fun t ht => by cases t <;> cases ht⟩
  have h := h.step ⟨⟨.park (t := true) rfl rfl, subset_rfl⟩, hn _ _ fun t ht => by cases t <;> cases ht⟩
  exact ⟨_, rfl, ((parked_served hc).1.mpr (by decide)) _ _ h⟩

/-- A maximum of 4096 bytes is accepted, and then the first thread that waits for a buffer parks with none allocated. -/
theorem parked_unserved : ∃ cfg, poolConfig asciiCasecmp (ascii "4096") [] = some cfg ∧
    ∃ l, ∃ s : Sys Unit Unit Nat, (coreSystem cfg).Run l s ∧ ¬Served s := by
  refine ⟨⟨4096, 0⟩, rfl, ?_⟩
  have h : (coreSystem (τ := Unit) (β := Nat) ⟨4096, 0⟩).Run _ (coreStart ⟨4096, 0⟩ ()) := .start ⟨(), rfl⟩
  have h := h.step ⟨.initDone (t := ()) rfl, subset_rfl⟩
  have h := h.step ⟨@Step.acquire _ _ _ _ _ _ _ () () true rfl (Finset.mem_singleton_self ()) rfl, subset_rfl⟩
  have h := h.step ⟨.grow (t := ()) rfl rfl, subset_rfl⟩
  have h := h.step ⟨.load (t := ()) rfl, subset_rfl⟩
  have h := h.step ⟨.refuse (t := ()) rfl (show ¬¬((0 : UInt64) > 4096 ∨ (4096 : UInt64) - 0 < 8192) by decide),
    subset_rfl⟩
  have h := h.step ⟨.park (t := ()) rfl rfl, subset_rfl⟩
  refine ⟨_, _, h, fun hv => ?_⟩
  obtain ⟨b, hb, -⟩ := hv () rfl
  cases hb

end P8.Shared
