import Mathlib.Data.Finsupp.Weight
import Mathlib.Data.Nat.ModEq
import Mathlib.Tactic.Lemma

/-!
# Amounts that add up

Holders with amounts, all but finitely many zero, and their total (`AddsUp`). What one holder gets more or less
changes the total by as much (`AddsUp.add`, `AddsUp.sub`); what one gives another does not change it
(`AddsUp.move`). The number of holders is not bounded, so a sum over threads that may still come is stated without a
list of them.

`Tally` is about amounts in registers of `m` values that together count up to a total and wrap: their sum is
congruent to the total and at most it, so it is the total as long as that one is below `m` (`Tally.eq`). A register
that goes up keeps the tally when the total goes up (`Tally.raise`) and when it wraps (`Tally.wrap`).

`exists_sum_rest` gives the sum over a list by one of its entries, for both: what is left stays when the entry
changes or is taken out.
-/

namespace P8.Lib

variable {ι : Type*} {f g : ι → Nat} {total n : Nat} {i j : ι}

/-- The amounts `f` add up to `total`. -/
def AddsUp (f : ι → Nat) (total : Nat) : Prop := ∃ h : ι →₀ Nat, ⇑h = f ∧ h.degree = total

namespace AddsUp

/-- Nobody has anything. -/
lemma zero : AddsUp (fun _ : ι => 0) 0 := ⟨0, rfl, map_zero _⟩

/-- No amount is more than the total. -/
lemma le (h : AddsUp f total) (i : ι) : f i ≤ total := by
  obtain ⟨h, rfl, rfl⟩ := h
  exact Finsupp.le_degree i h

/-- The total is the sum over any finite set outside which the amounts are zero. -/
lemma eq_sum (h : AddsUp f total) {s : Finset ι} (hs : ∀ i ∉ s, f i = 0) : total = ∑ i ∈ s, f i := by
  obtain ⟨h, rfl, rfl⟩ := h
  refine Finset.sum_subset (fun i hi => ?_) fun i _ hi => Finsupp.notMem_support_iff.mp hi
  by_contra hn
  exact Finsupp.mem_support_iff.mp hi (hs i hn)

variable [DecidableEq ι]

/-- One holder gets more. -/
lemma add (h : AddsUp f total) (i : ι) (n : Nat) : AddsUp (Function.update f i (f i + n)) (total + n) := by
  obtain ⟨h, rfl, rfl⟩ := h
  refine ⟨h + Finsupp.single i n, funext fun j => ?_, by rw [map_add, Finsupp.degree_single]⟩
  rw [Finsupp.add_apply, Finsupp.single_apply, Function.update_apply]
  obtain rfl | hn := eq_or_ne j i
  · rw [if_pos rfl, if_pos rfl]
  · rw [if_neg hn.symm, if_neg hn, Nat.add_zero]

/-- One holder gets less. -/
lemma sub (h : AddsUp f total) (hn : n ≤ f i) : AddsUp (Function.update f i (f i - n)) (total - n) := by
  obtain ⟨h, rfl, rfl⟩ := h
  refine ⟨h - Finsupp.single i n, funext fun j => ?_, ?_⟩
  · rw [Finsupp.tsub_apply, Finsupp.single_apply, Function.update_apply]
    obtain rfl | hj := eq_or_ne j i
    · rw [if_pos rfl, if_pos rfl]
    · rw [if_neg hj.symm, if_neg hj, Nat.sub_zero]
  · have hd : (h - Finsupp.single i n).degree + n = h.degree := by
      conv_rhs => rw [← tsub_add_cancel_of_le (Finsupp.single_le_iff.mpr hn), map_add, Finsupp.degree_single]
    omega

/-- One holder gives another. -/
lemma move (h : AddsUp f total) (hij : i ≠ j) (hn : n ≤ f i) :
    AddsUp (Function.update (Function.update f i (f i - n)) j (f j + n)) total := by
  have hs := (h.sub hn).add j n
  rw [Function.update_of_ne hij.symm, Nat.sub_add_cancel (hn.trans (h.le i))] at hs
  exact hs

/-- Some holders change: the total changes as much as theirs. -/
lemma change (h : AddsUp f n) {l : List ι} {m : Nat} (hl : l.Nodup) (off : ∀ i ∉ l, g i = f i)
    (hsum : (l.map g).sum + n = (l.map f).sum + m) : AddsUp g m := by
  induction l generalizing f n with
  | nil =>
    have e : g = f := funext fun i => off i List.not_mem_nil
    rw [e]
    rw [List.map_nil, List.map_nil, List.sum_nil, Nat.zero_add, Nat.zero_add] at hsum
    exact hsum ▸ h
  | cons i l ih =>
    rw [List.nodup_cons] at hl
    have hle := h.le i
    have h' := (h.sub (Nat.le_refl (f i))).add i (g i)
    rw [Function.update_idem, Function.update_self, Nat.sub_self, Nat.zero_add] at h'
    refine ih h' hl.2 (fun j hj => ?_) ?_
    · obtain rfl | hne := eq_or_ne j i
      · rw [Function.update_self]
      · rw [Function.update_of_ne hne]
        exact off j fun hm => (List.mem_cons.mp hm).elim hne hj
    · have hrest : l.map (Function.update f i (g i)) = l.map f :=
        List.map_congr_left fun j hj => Function.update_of_ne (ne_of_mem_of_not_mem hj hl.1) _ _
      rw [List.map_cons, List.map_cons, List.sum_cons, List.sum_cons] at hsum
      rw [hrest]
      omega

/-- A total of one is one holder's. -/
lemma eq_one (h : AddsUp f 1) : ∃ i, f i = 1 ∧ ∀ j, j ≠ i → f j = 0 := by
  have hpos : ∃ i, f i ≠ 0 := by
    by_contra hn
    have hz : ∀ i, f i = 0 := fun i => not_not.mp (not_exists.mp hn i)
    have hs := h.eq_sum (s := ∅) fun i _ => hz i
    rw [Finset.sum_empty] at hs
    cases hs
  obtain ⟨i, hi⟩ := hpos
  have hone : f i = 1 := Nat.le_antisymm (h.le i) (Nat.one_le_iff_ne_zero.mpr hi)
  refine ⟨i, hone, fun j hj => ?_⟩
  have hrest := (h.sub (Nat.le_refl (f i))).le j
  rw [Function.update_of_ne hj, hone] at hrest
  exact Nat.le_zero.mp hrest

end AddsUp

/-! ## Bounded registers -/

/-- The sum `n` of what is in registers of `m` values stands for `t`. -/
structure Tally (m n t : Nat) : Prop where
  mod : n ≡ t [MOD m]
  le : n ≤ t

namespace Tally
variable {m n t x : Nat}

/-- Empty registers. -/
lemma zero (m : Nat) : Tally m 0 0 := ⟨.refl _, Nat.le_refl _⟩

/-- One register and the total go up. -/
lemma raise (h : Tally m n t) (d : Nat) : Tally m (n + d) (t + d) :=
  ⟨h.mod.add_right d, Nat.add_le_add_right h.le d⟩

/-- A register wraps. -/
lemma wrap (h : Tally m (n + x) t) : Tally m (n + x % m) t :=
  ⟨((Nat.mod_modEq x m).add_left n).trans h.mod, (Nat.add_le_add_left (Nat.mod_le x m) n).trans h.le⟩

/-- The registers hold the total while it is one of their values. -/
lemma eq (h : Tally m n t) (ht : t < m) : n = t :=
  h.mod.eq_of_lt_of_lt (h.le.trans_lt ht) ht

end Tally

/-- A sum over a list by one of its entries: what is left stays when the entry changes or is taken out. -/
lemma exists_sum_rest {α : Type*} (f : α → Nat) {l : List α} {i : Nat} {a : α} (h : l[i]? = some a) :
    ∃ rest, (l.map f).sum = f a + rest ∧ (∀ b, ((l.set i b).map f).sum = f b + rest) ∧
      ((l.eraseIdx i).map f).sum = rest := by
  induction l generalizing i with
  | nil => cases h
  | cons x l ih =>
    cases i with
    | zero =>
      cases h
      exact ⟨(l.map f).sum, rfl, fun b => rfl, rfl⟩
    | succ i =>
      obtain ⟨rest, h1, h2, h3⟩ := ih h
      refine ⟨f x + rest, ?_, fun b => ?_, ?_⟩
      · rw [List.map_cons, List.sum_cons, h1, Nat.add_left_comm]
      · rw [List.set_cons_succ, List.map_cons, List.sum_cons, h2, Nat.add_left_comm]
      · rw [List.eraseIdx_cons_succ, List.map_cons, List.sum_cons, h3]

end P8.Lib
