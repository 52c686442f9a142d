import Mathlib.Algebra.Order.Ring.Nat
import Mathlib.Data.List.Nodup
import Mathlib.Tactic.Lemma
import Mathlib.Tactic.TypeStar

/-!
# Numbers handed out in blocks

A counter from which holders reserve blocks of numbers, and numbers taken from the blocks one by one. Whatever the
order of reservations, the numbers taken differ.

`Blocks` has the counter, the block of each holder and, as a ghost, the numbers taken. A holder reserves a block
(`reserve`), takes its first number (`take`), passes over it (`skip`) or gives the block up (`leave`). `Valid` is
the invariant: every number below the counter is in at most one of these places, unused in one block or taken once.

Each operation has one lemma (`Valid.reserve`, `Valid.take`, `Valid.skip`, `Valid.leave`). The last two rest on
`Valid.shrink`, that a block with fewer unused numbers keeps the invariant; only `Valid.reserve` has to say why a
new block meets none that is there.
-/

namespace P8.Lib

/-- A counter, the blocks `[lo, hi)` of its holders, and the numbers taken. -/
@[ext]
structure Blocks (τ : Type*) where
  top : Nat
  block : τ → Nat × Nat
  used : List Nat

namespace Blocks

variable {τ : Type*} {s : Blocks τ} {t u : τ} {base i n : Nat}

/-- A number of a holder's block that it has not taken. -/
def Unused (s : Blocks τ) (t : τ) (i : Nat) : Prop := (s.block t).1 ≤ i ∧ i < (s.block t).2

/-- The numbers from `base` on are in one place each: not reserved, unused in one block, taken or lost. -/
structure Valid (base : Nat) (s : Blocks τ) : Prop where
  base_le : base ≤ s.top
  ordered : ∀ t, (s.block t).1 ≤ (s.block t).2
  unused : ∀ t i, s.Unused t i → base ≤ i ∧ i < s.top
  used : ∀ i ∈ s.used, base ≤ i ∧ i < s.top
  apart : ∀ t u i, s.Unused t i → s.Unused u i → t = u
  fresh : ∀ t i, s.Unused t i → i ∉ s.used
  nodup : s.used.Nodup

variable [DecidableEq τ]

/-- A holder gives up its block for the next `n` numbers. -/
def reserve (s : Blocks τ) (t : τ) (n : Nat) : Blocks τ :=
  { s with top := s.top + n, block := Function.update s.block t (s.top, s.top + n) }

/-- A holder loses the first number of its block. -/
def skip (s : Blocks τ) (t : τ) : Blocks τ :=
  { s with block := Function.update s.block t ((s.block t).1 + 1, (s.block t).2) }

/-- A holder takes the first number of its block. -/
def take (s : Blocks τ) (t : τ) : Blocks τ := { s.skip t with used := s.used ++ [(s.block t).1] }

/-- A holder gives up its block. -/
def leave (s : Blocks τ) (t : τ) : Blocks τ := { s with block := Function.update s.block t (0, 0) }

/-- The numbers that are left when one block changes. -/
lemma unused_update {b : Nat × Nat} :
    Unused { s with block := Function.update s.block t b } u i ↔
      if u = t then b.1 ≤ i ∧ i < b.2 else s.Unused u i := by
  unfold Unused
  simp only [Function.update_apply]
  split <;> rfl

/-- Fewer unused numbers are still in one place each. -/
lemma Valid.shrink (h : Valid base s) {b : Nat × Nat} (hle : b.1 ≤ b.2)
    (hb : ∀ i, b.1 ≤ i ∧ i < b.2 → s.Unused t i) :
    Valid base { s with block := Function.update s.block t b } := by
  have hu : ∀ u i, Unused { s with block := Function.update s.block t b } u i → s.Unused u i := by
    intro u i hi
    rw [unused_update] at hi
    split at hi
    · rename_i e
      exact e ▸ hb i hi
    · exact hi
  refine ⟨h.base_le, fun u => ?_, fun u i hi => h.unused u i (hu u i hi), h.used,
    fun u v i hi hj => h.apart u v i (hu u i hi) (hu v i hj), fun u i hi => h.fresh u i (hu u i hi), h.nodup⟩
  simp only [Function.update_apply]
  split
  · exact hle
  · exact h.ordered u

/-- A number is used up. -/
lemma Valid.skip (h : Valid base s) (t : τ) (hb : (s.block t).1 < (s.block t).2) : Valid base (s.skip t) :=
  h.shrink hb fun _ hi => ⟨Nat.le_of_succ_le hi.1, hi.2⟩

/-- A block is given up with what is left of it. -/
lemma Valid.leave (h : Valid base s) (t : τ) : Valid base (s.leave t) :=
  h.shrink (Nat.le_refl _) fun _ hi => absurd hi.2 (Nat.not_lt_zero _)

/-- The block that is reserved is in no other block and was not taken. -/
lemma Valid.reserve (h : Valid base s) (t : τ) (n : Nat) : Valid base (s.reserve t n) := by
  have hu : ∀ u i, (s.reserve t n).Unused u i → (u = t ∧ s.top ≤ i ∧ i < s.top + n) ∨ (u ≠ t ∧ s.Unused u i) := by
    intro u i hi
    have hi := unused_update.mp hi
    split at hi
    · exact .inl ⟨‹_›, hi⟩
    · exact .inr ⟨‹_›, hi⟩
  refine ⟨Nat.le_add_right_of_le h.base_le, fun u => ?_, fun u i hi => ?_, fun i hi => ?_, fun u v i hi hj => ?_,
    fun u i hi hm => ?_, h.nodup⟩
  · simp only [Blocks.reserve, Function.update_apply]
    split
    · exact Nat.le_add_right _ _
    · exact h.ordered u
  · obtain ⟨-, hl, hr⟩ | ⟨-, hi⟩ := hu u i hi
    · exact ⟨Nat.le_trans h.base_le hl, hr⟩
    · exact ⟨(h.unused u i hi).1, Nat.lt_add_right n (h.unused u i hi).2⟩
  · exact ⟨(h.used i hi).1, Nat.lt_add_right n (h.used i hi).2⟩
  · obtain ⟨eu, hl, -⟩ | ⟨-, hi⟩ := hu u i hi <;> obtain ⟨ev, hl', -⟩ | ⟨-, hj⟩ := hu v i hj
    · rw [eu, ev]
    · exact absurd (h.unused v i hj).2 (Nat.not_lt.mpr hl)
    · exact absurd (h.unused u i hi).2 (Nat.not_lt.mpr hl')
    · exact h.apart u v i hi hj
  · obtain ⟨-, hl, -⟩ | ⟨-, hi⟩ := hu u i hi
    · exact absurd (h.used i hm).2 (Nat.not_lt.mpr hl)
    · exact h.fresh u i hi hm

/-- The number that is taken was taken by no one before. -/
lemma Valid.take (h : Valid base s) (t : τ) (hb : (s.block t).1 < (s.block t).2) : Valid base (s.take t) := by
  have hlo : s.Unused t (s.block t).1 := ⟨Nat.le_refl _, hb⟩
  have hs := h.skip t hb
  have hne : ∀ u i, (s.skip t).Unused u i → i ≠ (s.block t).1 := by
    rintro u i hi rfl
    have hi := unused_update.mp hi
    split at hi
    · exact absurd hi.1 (Nat.not_succ_le_self _)
    · exact absurd (h.apart u t _ hi hlo) ‹_›
  refine ⟨hs.base_le, hs.ordered, hs.unused, fun i hi => ?_, hs.apart, fun u i hi hm => ?_, ?_⟩
  · rw [Blocks.take, List.mem_append, List.mem_singleton] at hi
    obtain hi | rfl := hi
    · exact h.used i hi
    · exact h.unused t _ hlo
  · rw [Blocks.take, List.mem_append, List.mem_singleton] at hm
    exact hm.elim (hs.fresh u i hi) (hne u i hi)
  · refine List.nodup_append.mpr ⟨h.nodup, (List.pairwise_singleton _ _), fun i hi j hj => ?_⟩
    rw [List.mem_singleton.mp hj]
    exact ne_of_mem_of_not_mem hi (h.fresh t _ hlo)

end Blocks

end P8.Lib
