import P8.Pool.Shared

/-!
# The shared budget

What holds over the runs of any number of pools on one budget: who holds the mutexes, which buffers a pool has, and
that `mu_used` is what the live pools took and what threads are about to give to a pool or back (`shared_budget`).

There are three invariants, one after the other, each with lemmas for what a step does to a pool and a step lemma:
`Locked` for the mutexes and the lists of waiters, `Stocked` for the buffers (every buffer of a pool is free or
lent, and is in one pool), and `Exact` for the account. The account is an `AddsUp` over pools and threads: what a
pool has is its buffers' bytes, what a thread has is `Pc.inFlight`; so a step moves an amount from one holder to
another, or changes the counter with one.

That the counter never wraps is part of `Exact`: a reservation is made by an exchange of the value that was compared
with the maximum (`fits_iff`), so in the step that raises it the sum is below the maximum.
-/

namespace P8.Shared
open P8.Lib

variable {π τ β : Type}

/-! ## The buffers of a pool -/

/-- A pool's free list and what it gave out are its buffers, each once. -/
structure Pool.Stocked (q : Pool τ β) : Prop where
  nodup : q.moAll.Nodup
  perm : (q.moFree ++ q.lent).Perm q.moAll

namespace Pool.Stocked

variable {q : Pool τ β} {b : β} {bs : List β}

/-- A new buffer goes to the list of all and to the free list. -/
lemma grow (hq : q.Stocked) (hb : b ∉ q.moAll) :
    ({ q with moAll := q.moAll ++ [b], moFree := q.moFree ++ [b] } : Pool τ β).Stocked := by
  constructor
  · exact hq.nodup.append (List.nodup_singleton b) (List.disjoint_singleton.mpr hb)
  · show (q.moFree ++ [b] ++ q.lent).Perm (q.moAll ++ [b])
    rw [List.append_assoc]
    exact (List.perm_middle.trans (hq.perm.cons b)).trans (List.perm_append_singleton b q.moAll).symm

/-- The first free buffer is given out. -/
lemma take (hq : q.Stocked) (hf : q.moFree = b :: bs) :
    ({ q with moFree := bs, lent := b :: q.lent } : Pool τ β).Stocked := by
  refine ⟨hq.nodup, List.Perm.trans List.perm_middle ?_⟩
  have hp := hq.perm
  rw [hf] at hp
  exact hp

/-- A buffer that was given out is free again. -/
lemma free [DecidableEq β] (hq : q.Stocked) (hb : b ∈ q.lent) :
    ({ q with moFree := q.moFree ++ [b], lent := q.lent.erase b } : Pool τ β).Stocked := by
  refine ⟨hq.nodup, List.Perm.trans ?_ hq.perm⟩
  show (q.moFree ++ [b] ++ q.lent.erase b).Perm (q.moFree ++ q.lent)
  rw [List.append_assoc]
  exact (List.perm_cons_erase hb).symm.append_left q.moFree

/-- The free list has no buffer twice and only buffers of the pool. -/
lemma free_subset (hq : q.Stocked) : q.moFree.Nodup ∧ q.moFree ⊆ q.moAll :=
  ⟨(List.nodup_append.mp (hq.perm.nodup_iff.mpr hq.nodup)).1,
    fun _ hb => hq.perm.subset (List.mem_append_left q.lent hb)⟩

end Pool.Stocked

variable [DecidableEq π] [DecidableEq τ] [DecidableEq β] {s s' : Sys π τ β} {l : List Event} {e : Event}

/-! ## Mutexes and waiters -/

/-- A thread in a pool's code is in a live pool, it holds the mutex where the code does, and the waiters of a live pool
are parked in it, each once. -/
structure Locked (s : Sys π τ β) : Prop where
  lock : ∀ t p, (s.pc t).locks = some p ↔ s.lock p = some t
  live : ∀ t p, (s.pc t).pool = some p → p ∈ s.live
  queue : ∀ p ∈ s.live, ∀ t ∈ (s.pool p).queue, s.pc t = .parked p
  nodup : ∀ p ∈ s.live, (s.pool p).queue.Nodup

namespace Locked

/-- One buffer of `recycle` keeps who holds which mutex. -/
lemma recycleOne (hi : Locked s) {p : π} (hp : p ∈ s.live) (b : β) : Locked (s.recycle p b) := by
  obtain ⟨lock, live, queue, nodup⟩ := hi
  unfold Sys.recycle
  split
  case h_1 u q hq =>
    have hu : s.pc u = .parked p := queue p hp u (hq ▸ List.mem_cons_self)
    have hn : u ∉ q ∧ q.Nodup := List.nodup_cons.mp (hq ▸ nodup p hp)
    constructor <;> grind [Pc.locks, Pc.pool]
  case h_2 hq => constructor <;> grind

/-- `recycle` of a list keeps who holds which mutex, and the pools that live. -/
lemma recycleAll {p : π} (bs : List β) (hi : Locked s) (hp : p ∈ s.live) :
    Locked (bs.foldl (fun s b => s.recycle p b) s) := by
  induction bs generalizing s with
  | nil => exact hi
  | cons b bs ih =>
    apply ih (hi.recycleOne hp b)
    unfold Sys.recycle
    split <;> exact hp

/-- Every step keeps who holds which mutex. -/
lemma step (hi : Locked s) (hs : Step s e s') : Locked s' := by
  cases hs
  case recycle p bs ht hp hl hb hm => exact hi.recycleAll bs hp
  all_goals
    obtain ⟨lock, live, queue, nodup⟩ := hi
    constructor <;> grind [Pc.locks, Pc.pool]

/-- Who holds which mutex holds in every run. -/
lemma run (h : system.Run l s) : Locked s := by
  apply h.holds
  · rintro s ⟨-, hl, hk, ht⟩
    constructor <;> grind [Pc.locks, Pc.pool]
  · exact fun s e s' hi hs => hi.step hs

end Locked

/-! ## The buffers of the live pools -/

/-- Every live pool is stocked. -/
def Stocked (s : Sys π τ β) : Prop := ∀ p ∈ s.live, (s.pool p).Stocked

namespace Stocked

omit [DecidableEq τ] [DecidableEq β] in
/-- One pool changes and may come to life or be gone. -/
lemma update (hi : Stocked s) {p : π} {q : Pool τ β} {live : Finset π} (hl : ∀ r ≠ p, r ∈ live → r ∈ s.live)
    (hq : p ∈ live → q.Stocked) : ∀ r ∈ live, (Function.update s.pool p q r).Stocked :=
  (Function.forall_update_iff s.pool fun r q => r ∈ live → q.Stocked).mpr ⟨hq, fun r hn hr => hi r (hl r hn hr)⟩

omit [DecidableEq τ] [DecidableEq β] in
/-- A live pool may change to one that is stocked. -/
lemma setPool (hi : Stocked s) {p : π} {q : Pool τ β} (hq : q.Stocked) : Stocked (s.setPool p q) :=
  hi.update (fun _ _ hr => hr) fun _ => hq

/-- `recycle` of a list of buffers that were given out, each once. -/
lemma recycleAll {p : π} {bs : List β} (hi : Stocked s) (hp : p ∈ s.live) (hb : bs.Nodup)
    (hm : ∀ b ∈ bs, b ∈ (s.pool p).lent) : Stocked (bs.foldl (fun s b => s.recycle p b) s) := by
  induction bs generalizing s with
  | nil => exact hi
  | cons b bs ih =>
    obtain ⟨hn, hb⟩ := List.nodup_cons.mp hb
    have hbl := hm b List.mem_cons_self
    have hm' : ∀ c ∈ bs, c ∈ (s.pool p).lent := fun c hc => hm c (List.mem_cons_of_mem b hc)
    show Stocked (bs.foldl (fun s b => s.recycle p b) (s.recycle p b))
    unfold Sys.recycle
    split
    case h_1 u q hq =>
      refine ih (s := (s.setPool p { s.pool p with queue := q }).go u (.handed p (some b))) ?_ hp hb ?_
      · exact setPool hi ⟨(hi p hp).nodup, (hi p hp).perm⟩
      · intro c hc
        show c ∈ (Function.update s.pool p { s.pool p with queue := q } p).lent
        rw [Function.update_self]
        exact hm' c hc
    case h_2 hq =>
      refine ih (setPool hi ((hi p hp).free hbl)) hp hb fun c hc => ?_
      show c ∈ (Function.update s.pool p _ p).lent
      rw [Function.update_self]
      refine (List.mem_erase_of_ne ?_).mpr (hm' c hc)
      rintro rfl
      exact hn hc

/-- Every step keeps the live pools stocked. -/
lemma step (hl : Locked s) (hi : Stocked s) (hs : Step s e s') : Stocked s' := by
  cases hs
  case construct p n ht hp =>
    exact hi.update (fun r hn hr => Finset.mem_of_mem_insert_of_ne hr hn)
      fun _ => ⟨List.nodup_nil, List.Perm.refl _⟩
  case take t p wait b bs hc hf => exact setPool hi ((hi p (hl.live t p (by rw [hc]; rfl))).take hf)
  case allocInit t p n b hc hb =>
    have hp : p ∈ s.live := hl.live t p (by rw [hc]; rfl)
    exact setPool hi ((hi p hp).grow (hb p hp))
  case allocAcquire t p wait b hc hb =>
    have hp : p ∈ s.live := hl.live t p (by rw [hc]; rfl)
    exact setPool hi ((hi p hp).grow (hb p hp))
  case park t p hc hm =>
    have hq := hi p (hl.live t p (by rw [hc]; rfl))
    exact setPool hi ⟨hq.nodup, hq.perm⟩
  case recycle t p bs ht hp hk hb hm => exact hi.recycleAll hp hb hm
  case stop t p ht hp hk => exact setPool hi ⟨(hi p hp).nodup, (hi p hp).perm⟩
  case destroy t p ht hp hu =>
    exact hi.update (fun r _ hr => Finset.mem_of_mem_erase hr) fun hr => absurd hr (Finset.notMem_erase p s.live)
  all_goals exact hi

/-- The live pools are stocked in every run. -/
lemma run (h : system.Run l s) : Stocked s := by
  refine h.invariant (I := fun _ s => Stocked s) ?_ fun l s e s' hr hi hs => hi.step (Locked.run hr) hs
  rintro s ⟨-, hl, -⟩ p hp
  rw [hl] at hp
  exact absurd hp (Finset.notMem_empty p)

end Stocked

/-! ## The account -/

/-- What a thread took from the budget and has not given to a pool or back. -/
def Pc.inFlight (pool : π → Pool τ β) : Pc π β → Nat
  | .alloc p _ | .giveBack p _ => (pool p).mzBufferSize.toNat
  | .destroyed lzReserved => lzReserved.toNat
  | .out | .init _ _ | .acquire _ _ | .load _ _ | .test _ _ _ | .failed _ _ | .parked _ | .handed _ _ => 0

/-- Who holds how much of the budget: the live pools and the threads. -/
def account (s : Sys π τ β) : π ⊕ τ → Nat
  | .inl p => if p ∈ s.live then reserved s p else 0
  | .inr t => (s.pc t).inFlight s.pool

/-- `mu_used` is what the live pools and the threads hold, and at most `mz_max`. -/
structure Budget (s : Sys π τ β) : Prop where
  le : s.muUsed.toNat ≤ s.mzMax.toNat
  sum : AddsUp (account s) s.muUsed.toNat

/-- What a step does to `mu_used` does not wrap, and a refusal leaves it. -/
def Exact (s : Sys π τ β) : Event → Sys π τ β → Prop
  | .add n, s' => s'.muUsed.toNat = s.muUsed.toNat + n.toNat
  | .sub n, s' => s'.muUsed.toNat + n.toNat = s.muUsed.toNat
  | .refused, s' | .other, s' => s'.muUsed = s.muUsed

omit [DecidableEq π] [DecidableEq τ] [DecidableEq β] in
/-- What a thread holds depends on the buffer sizes of the live pools only. -/
lemma Locked.inFlight_eq (hl : Locked s) (t : τ) {pool : π → Pool τ β}
    (hp : ∀ p ∈ s.live, (pool p).mzBufferSize = (s.pool p).mzBufferSize) :
    (s.pc t).inFlight pool = (s.pc t).inFlight s.pool := by
  have hlive := hl.live t
  revert hlive
  cases s.pc t <;> intro hlive <;> first | rfl | exact congrArg UInt64.toNat (hp _ (hlive _ rfl))

omit [DecidableEq π] [DecidableEq τ] [DecidableEq β] in
/-- A request that fits can be added to `mu_used`. -/
lemma fits_iff (s : Sys π τ β) (n : UInt64) (hu : s.muUsed.toNat ≤ s.mzMax.toNat) :
    Fits s s.muUsed n ↔ s.muUsed.toNat + n.toNat ≤ s.mzMax.toNat := by
  have hs : (s.mzMax - s.muUsed).toNat = s.mzMax.toNat - s.muUsed.toNat :=
    UInt64.toNat_sub_of_le _ _ (UInt64.le_iff_toNat_le.mpr hu)
  unfold Fits
  rw [gt_iff_lt, UInt64.lt_iff_toNat_lt, UInt64.lt_iff_toNat_lt, hs]
  omega

/-- `recycle` changes nobody's share. -/
lemma account_recycle {p : π} (bs : List β) (hl : Locked s) (hp : p ∈ s.live) :
    account (bs.foldl (fun s b => s.recycle p b) s) = account s ∧
      (bs.foldl (fun s b => s.recycle p b) s).muUsed = s.muUsed ∧
      (bs.foldl (fun s b => s.recycle p b) s).mzMax = s.mzMax := by
  induction bs generalizing s with
  | nil => exact ⟨rfl, rfl, rfl⟩
  | cons b bs ih =>
    have hone : account (s.recycle p b) = account s ∧ (s.recycle p b).muUsed = s.muUsed ∧
        (s.recycle p b).mzMax = s.mzMax ∧ (s.recycle p b).live = s.live := by
      unfold Sys.recycle
      split
      case h_1 u q hq =>
        have hu := hl.queue p hp u (hq ▸ List.mem_cons_self)
        refine ⟨funext fun x => ?_, rfl, rfl, rfl⟩
        cases x with
        | inl r => grind [account, reserved]
        | inr v => grind [account, Pc.inFlight, hl.inFlight_eq v]
      case h_2 hq =>
        refine ⟨funext fun x => ?_, rfl, rfl, rfl⟩
        cases x with
        | inl r => grind [account, reserved]
        | inr v => grind [account, hl.inFlight_eq v]
    obtain ⟨ha, hu, hm, hlive⟩ := hone
    obtain ⟨iha, ihu, ihm⟩ := ih (hl.recycleOne hp b) (hlive ▸ hp)
    exact ⟨iha.trans ha, ihu.trans hu, ihm.trans hm⟩

omit [DecidableEq π] [DecidableEq τ] [DecidableEq β] in
/-- What a live pool took is part of `mu_used`. -/
lemma Budget.reserved_le [DecidableEq π] (hi : Budget s) {p : π} (hp : p ∈ s.live) :
    reserved s p ≤ s.muUsed.toNat := by
  have h := hi.sum.le (.inl p)
  rwa [account, if_pos hp] at h

omit [DecidableEq π] [DecidableEq τ] [DecidableEq β] in
/-- The product the destructor computes does not wrap. -/
lemma Budget.toNat_reserved [DecidableEq π] (hi : Budget s) {p : π} (hp : p ∈ s.live) :
    (UInt64.ofNat (s.pool p).moAll.length * (s.pool p).mzBufferSize).toNat = reserved s p := by
  rw [UInt64.toNat_mul, UInt64.toNat_ofNat', Nat.mod_mul_mod]
  exact Nat.mod_eq_of_lt ((hi.reserved_le hp).trans_lt s.muUsed.toNat_lt)

omit [DecidableEq β] in
/-- A new buffer: what its thread took is the pool's. -/
lemma account_grow (hl : Locked s) (hi : Budget s) {t : τ} {p : π} {use : Use} {c : Pc π β} {b : β}
    (ht : s.pc t = .alloc p use) (hc : ∀ pool : π → Pool τ β, c.inFlight pool = 0) :
    AddsUp (account ((s.setPool p { s.pool p with
      moAll := (s.pool p).moAll ++ [b], moFree := (s.pool p).moFree ++ [b] }).go t c)) s.muUsed.toNat := by
  have hp : p ∈ s.live := hl.live t p (by rw [ht]; rfl)
  have hn : (s.pool p).mzBufferSize.toNat ≤ account s (.inr t) := by simp only [account, ht, Pc.inFlight, le_refl]
  refine cast (congrArg (AddsUp · s.muUsed.toNat) (funext fun x => ?_)) (hi.sum.move (j := .inl p) Sum.inr_ne_inl hn)
  cases x with
  | inl r => grind [account, reserved]
  | inr v => grind [account, Pc.inFlight, hl.inFlight_eq v]

/-- A step that is no addition and no subtraction changes nobody's share, or moves a share from one to another. -/
lemma account_other (hl : Locked s) (hi : Budget s) (hs : Step s .other s') : AddsUp (account s') s.muUsed.toNat := by
  cases hs
  case recycle t p bs ht hp hk hb hm => exact (account_recycle bs hl hp).1 ▸ hi.sum
  case allocInit t p n b hc hb => exact account_grow hl hi hc fun _ => rfl
  case allocAcquire t p wait b hc hb => exact account_grow hl hi hc fun _ => rfl
  case destroy t p ht hp hu =>
    -- the thread takes over what the pool had
    have hn : reserved s p ≤ account s (.inl p) := by simp only [account, if_pos hp, le_refl]
    refine cast (congrArg (AddsUp · s.muUsed.toNat) (funext fun x => ?_)) (hi.sum.move (j := .inr t) Sum.inl_ne_inr hn)
    have hr := hi.toNat_reserved hp
    cases x with
    | inl r => grind [account, reserved]
    | inr v => grind [account, Pc.inFlight, hl.inFlight_eq v]
  all_goals
    refine cast (congrArg (AddsUp · s.muUsed.toNat) (funext fun x => ?_)) hi.sum
    have hq := hl.queue
    cases x with
    | inl r => grind [account, reserved]
    | inr v => grind [account, Pc.inFlight, hl.inFlight_eq v]

namespace Budget

/-- An addition is of a request that fits, and its thread holds it. -/
lemma step_add (hi : Budget s) {n : UInt64} (hs : Step s (.add n) s') : Budget s' ∧ Exact s (.add n) s' := by
  cases hs with
  | @swap t p use ht hf =>
    have hle := (fits_iff s (s.pool p).mzBufferSize hi.le).mp hf
    have hu : (s.muUsed + (s.pool p).mzBufferSize).toNat = s.muUsed.toNat + (s.pool p).mzBufferSize.toNat := by
      rw [UInt64.toNat_add]
      exact Nat.mod_eq_of_lt (hle.trans_lt s.mzMax.toNat_lt)
    refine ⟨⟨?_, ?_⟩, hu⟩
    · show (s.muUsed + (s.pool p).mzBufferSize).toNat ≤ s.mzMax.toNat
      rw [hu]
      exact hle
    · show AddsUp _ (s.muUsed + (s.pool p).mzBufferSize).toNat
      rw [hu]
      refine cast (congrArg (AddsUp · _) (funext fun x => ?_)) (hi.sum.add (.inr t) (s.pool p).mzBufferSize.toNat)
      cases x <;> grind [account, reserved, Pc.inFlight]

omit [DecidableEq β] in
/-- A thread gives back what it holds. -/
lemma giveUp (hi : Budget s) {t : τ} {c : Pc π β} {n : UInt64} (ht : account s (.inr t) = n.toNat)
    (hc : c.inFlight s.pool = 0) :
    Budget ({ s with muUsed := s.muUsed - n }.go t c) ∧ (s.muUsed - n).toNat + n.toNat = s.muUsed.toNat := by
  have hn : n.toNat ≤ s.muUsed.toNat := ht ▸ hi.sum.le (.inr t)
  have hu : (s.muUsed - n).toNat = s.muUsed.toNat - n.toNat :=
    UInt64.toNat_sub_of_le _ _ (UInt64.le_iff_toNat_le.mpr hn)
  refine ⟨⟨?_, ?_⟩, ?_⟩
  · show (s.muUsed - n).toNat ≤ s.mzMax.toNat
    rw [hu]
    exact (Nat.sub_le _ _).trans hi.le
  · show AddsUp _ (s.muUsed - n).toNat
    rw [hu]
    refine cast (congrArg (AddsUp · _) (funext fun x => ?_)) (hi.sum.sub ht.ge)
    cases x <;> grind [account, reserved]
  · rw [hu]
    exact Nat.sub_add_cancel hn

/-- Every step keeps the account, and what it does to `mu_used` is exact. -/
lemma step (hl : Locked s) (hi : Budget s) (hs : Step s e s') : Budget s' ∧ Exact s e s' := by
  cases e with
  | other =>
    have hu : s'.muUsed = s.muUsed ∧ s'.mzMax = s.mzMax := by
      cases hs
      case recycle t p bs ht hp hk hb hm => exact (account_recycle bs hl hp).2
      all_goals exact ⟨rfl, rfl⟩
    refine ⟨⟨?_, ?_⟩, hu.1⟩
    · rw [hu.1, hu.2]
      exact hi.le
    · rw [hu.1]
      exact account_other hl hi hs
  | refused =>
    cases hs with
    | @refuse t p use cur ht hf =>
      refine ⟨⟨hi.le, cast (congrArg (AddsUp · s.muUsed.toNat) (funext fun x => ?_)) hi.sum⟩, rfl⟩
      cases x <;> grind [account, reserved, Pc.inFlight]
  | add n => exact hi.step_add hs
  | sub n =>
    cases hs with
    | @giveBack t p use ht => exact hi.giveUp (by rw [account, ht]; rfl) rfl
    | @release t n ht hn => exact hi.giveUp (by rw [account, ht]; rfl) rfl

/-- The account holds in every run. -/
lemma run (h : system.Run l s) : Budget s := by
  refine h.invariant (I := fun _ s => Budget s) ?_ fun l s e s' hr hi hs => (hi.step (Locked.run hr) hs).1
  rintro s ⟨hu, hl, -, ht⟩
  have ha : account s = fun _ => 0 := by
    funext x
    cases x <;> grind [account, Pc.inFlight]
  constructor
  · rw [hu]
    exact Nat.zero_le _
  · rw [ha, hu]
    exact AddsUp.zero

end Budget

/-! ## The budget over runs -/

/-- In every state of every run `mu_used` is at most `mz_max`, the next step does not wrap it, it is the sum of what the
live pools have when no thread is at it, and no free list has a buffer twice or one that is not the pool's. -/
theorem shared_budget (h : system.Run l s) :
    s.muUsed ≤ s.mzMax ∧ (∀ e s', Step s e s' → Exact s e s') ∧
      ((∀ t, (s.pc t).quiet = true) → s.muUsed.toNat = ∑ p ∈ s.live, reserved s p) ∧
      ∀ p ∈ s.live, (s.pool p).moFree.Nodup ∧ (s.pool p).moFree ⊆ (s.pool p).moAll := by
  have hb := Budget.run h
  refine ⟨UInt64.le_iff_toNat_le.mpr hb.le, fun e s' hs => (hb.step (Locked.run h) hs).2, fun hq => ?_,
    fun p hp => (Stocked.run h p hp).free_subset⟩
  have hout : ∀ x ∉ s.live.map Function.Embedding.inl, account s x = 0 := by
    intro x hx
    cases x with
    | inl p => exact if_neg fun hp => hx (Finset.mem_map_of_mem Function.Embedding.inl hp)
    | inr t =>
      have ht := hq t
      show (s.pc t).inFlight s.pool = 0
      cases hc : s.pc t <;> rw [hc] at ht <;> first | rfl | cases ht
  rw [hb.sum.eq_sum hout, Finset.sum_map]
  exact Finset.sum_congr rfl fun p hp => if_pos hp

/-- A pool starts with one buffer and has no room for a second. -/
theorem shared_budget_one : ∃ s : Sys Unit Unit Nat, s.live = {()} ∧ s.muUsed = 8192 ∧
    (∀ t, (s.pc t).quiet = true) ∧ s.muUsed.toNat = ∑ p ∈ s.live, reserved s p := by
  have h : (system (π := Unit) (τ := Unit) (β := Nat)).Run _ ⟨10000, 0, ∅, fun _ => ⟨0, [], [], [], [], false⟩,
    fun _ => none, fun _ => .out⟩ := .start ⟨rfl, rfl, fun _ => rfl, fun _ => rfl⟩
  have h := h.step (@Step.construct _ _ _ _ _ _ _ () () 8192 rfl (Finset.notMem_empty ()))
  have h := h.step (.init (t := ()) (n := 2) rfl (Finset.mem_insert_self () ∅) rfl)
  have h := h.step (.initNext (t := ()) rfl)
  have h := h.step (.load (t := ()) rfl)
  have h := h.step (.swap (t := ()) rfl (show ¬((0 : UInt64) > 10000 ∨ (10000 : UInt64) - 0 < 8192) by decide))
  have h := h.step (.allocInit (t := ()) (b := 0) rfl fun _ _ => List.not_mem_nil)
  have h := h.step (.initNext (t := ()) rfl)
  have h := h.step (.load (t := ()) rfl)
  have h := h.step (.refuse (t := ()) rfl (show ¬¬((8192 : UInt64) > 10000 ∨ (10000 : UInt64) - 8192 < 8192) by decide))
  have h := h.step (.none (t := ()) rfl fun hu => by cases hu)
  exact ⟨_, rfl, rfl, fun _ => rfl, (shared_budget h).2.2.1 fun _ => rfl⟩

end P8.Shared
