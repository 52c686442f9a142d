import Mathlib.Algebra.Group.Hom.Defs
import Mathlib.Algebra.Group.Nat.Hom
import Mathlib.Tactic.Lemma

/-!
# Amounts kept or lost

A ledger with an amount kept, an amount lost and the store the kept amount is in. The store is of unbounded size, but
the two amounts are counted in any commutative monoid: `count` says how a number shows in a counter, so a counter may
wrap.

A posting (`Ledger.Posted`) brings an amount, part of which is kept and the rest lost; its mark says that nothing was
lost. The part is existential in the definition and is not a field of the ledger, so that postings compose without
cancellation in the monoid: `Posted.trans` adds the parts. `Balanced` is what a history of postings leaves behind
(`Posted.balance`), and it gives the two sums a user of the ledger wants (`Balanced.sum`).
-/

namespace P8.Lib

/-- What was kept, what was lost and what the store holds. -/
structure Ledger (R : Type*) where
  kept : R
  lost : R
  stored : Nat

namespace Ledger
variable {R : Type*} [AddCommMonoid R] (count : ℕ →+ R)

/-- Between two states of a ledger the amount `n` came in; `ok` says whether all of it was kept. -/
def Posted (a b : Ledger R) (n : Nat) (ok : Bool) : Prop :=
  ∃ k ≤ n, b = ⟨a.kept + count k, a.lost + count (n - k), a.stored + k⟩ ∧ (ok = true ↔ k = n)

/-- Of the amount `t` that came in, the store holds what was kept, and the rest was lost. -/
structure Balanced (a : Ledger R) (t : Nat) : Prop where
  le : a.stored ≤ t
  kept : a.kept = count a.stored
  lost : a.lost = count (t - a.stored)

variable {count} {a b c : Ledger R} {m n : Nat} {p q : Bool}

/-- Part of the amount is stored, and the mark says whether that is all of it. -/
lemma Posted.part (a : Ledger R) {k : Nat} (h : k ≤ n) (hp : p = true ↔ k = n) :
    Posted count a ⟨a.kept + count k, a.lost + count (n - k), a.stored + k⟩ n p :=
  ⟨k, h, rfl, hp⟩

/-- An amount that no counter shows is lost unseen. -/
lemma Posted.unseen (a : Ledger R) (h : count n = 0) : Posted count a a n (decide (n = 0)) := by
  refine ⟨0, Nat.zero_le n, ?_, ?_⟩
  · rw [Nat.sub_zero, h, map_zero, add_zero, add_zero, Nat.add_zero]
  · rw [decide_eq_true_eq, eq_comm]

/-- Nothing comes in. -/
lemma Posted.refl (a : Ledger R) : Posted count a a 0 true := Posted.unseen a (map_zero count)

/-- A posting after a posting. -/
lemma Posted.trans (h : Posted count a b m p) (h' : Posted count b c n q) : Posted count a c (m + n) (p && q) := by
  obtain ⟨k, hk, rfl, hp⟩ := h
  obtain ⟨l, hl, rfl, hq⟩ := h'
  refine ⟨k + l, Nat.add_le_add hk hl, ?_, ?_⟩
  · rw [map_add, ← add_assoc, show m + n - (k + l) = (m - k) + (n - l) by omega, map_add, ← add_assoc, ← add_assoc]
  · rw [Bool.and_eq_true, hp, hq]
    omega

/-- All of the amount is lost. -/
lemma Posted.none (a : Ledger R) (hp : p = true ↔ n = 0) :
    Posted count a { a with lost := a.lost + count n } n p := by
  refine ⟨0, Nat.zero_le n, ?_, hp.trans eq_comm⟩
  rw [Nat.sub_zero, map_zero, add_zero, Nat.add_zero]

/-- Another store beside the one the amounts go to. -/
lemma Posted.beside (h : Posted count a b n p) (k : Nat) :
    Posted count { a with stored := a.stored + k } { b with stored := b.stored + k } n p := by
  obtain ⟨l, hl, rfl, hp⟩ := h
  exact ⟨l, hl, by rw [Nat.add_right_comm], hp⟩

/-- The mark says whether the store got all of the amount. -/
lemma Posted.told (h : Posted count a b n p) : p = true ↔ b.stored = a.stored + n := by
  obtain ⟨k, -, rfl, hp⟩ := h
  rw [hp]
  exact Nat.add_left_cancel_iff.symm

/-- When the counter of losses shows every loss, its change says the same. -/
lemma Posted.told_lost (h : Posted count a b n p) (hc : ∀ k ≤ n, a.lost + count k = a.lost → k = 0) :
    p = true ↔ b.lost = a.lost := by
  obtain ⟨k, hk, rfl, hp⟩ := h
  rw [hp]
  constructor
  · rintro rfl
    rw [Nat.sub_self, map_zero, add_zero]
  · intro hl
    have := hc (n - k) (Nat.sub_le n k) hl
    omega

/-- The ledger after a posting balances as before. -/
lemma Posted.balance {t : Nat} (h : Posted count a b n p) (ha : Balanced count a t) : Balanced count b (t + n) := by
  obtain ⟨k, hk, rfl, -⟩ := h
  have hle := ha.le
  refine ⟨Nat.add_le_add hle hk, ?_, ?_⟩
  · show a.kept + count k = count (a.stored + k)
    rw [ha.kept, map_add]
  · show a.lost + count (n - k) = count (t + n - (a.stored + k))
    rw [ha.lost, ← map_add]
    congr 1
    omega

/-- What was kept and what was lost make up all that came in. -/
lemma Balanced.sum {t : Nat} (h : Balanced count a t) : a.kept + a.lost = count t := by
  rw [h.kept, h.lost, ← map_add, Nat.add_sub_cancel' h.le]

end Ledger

end P8.Lib
