import Mathlib.Data.Nat.Basic
import Mathlib.Tactic.Lemma

/-!
# Products in machine words

What is left of a quotient when its dividend was computed modulo `w`, as in a machine word: when the quotient is
exact, and when a test whether a part of a whole is less than a share of it still comes out right.

`mod_div_eq_iff` is the first: a quotient by a divisor of at most `w` is exact precisely when its dividend is below
`w`. `mod_div_eq_or_iff` asks for it only where the true quotient is itself a word, and `share_lt_iff` is the
second, for a test against at least half of the shares. All are equivalences, so that the conditions under which
such code is right are theirs. What they rest on is that a dividend that was cut gives a smaller quotient
(`mod_div_lt`).
-/

namespace P8.Lib

variable {w : Nat}

/-- A dividend that was cut gives another quotient. -/
lemma mod_div_lt {x n : Nat} (hn : 0 < n) (hw : n ≤ w) (hx : w ≤ x) : x % w / n < x / n := by
  have hpos : 0 < w := Nat.lt_of_lt_of_le hn hw
  have hcut : x % w + n ≤ x := by
    calc x % w + n ≤ x % w + w * (x / w) :=
          Nat.add_le_add_left (Nat.le_trans hw (Nat.le_mul_of_pos_right w (Nat.div_pos hx hpos))) _
      _ = x := Nat.mod_add_div x w
  calc x % w / n < x % w / n + 1 := Nat.lt_succ_self _
    _ = (x % w + n) / n := (Nat.add_div_right _ hn).symm
    _ ≤ x / n := Nat.div_le_div_right hcut

/-- A quotient is exact just when its dividend was not cut. -/
lemma mod_div_eq_iff {x n : Nat} (hn : 0 < n) (hw : n ≤ w) : x % w / n = x / n ↔ x < w := by
  constructor
  · intro h
    by_contra hx
    exact Nat.ne_of_lt (mod_div_lt hn hw (Nat.not_lt.mp hx)) h
  · intro h
    rw [Nat.mod_eq_of_lt h]

/-- A quotient that need not be exact where it does not fit is right just when its dividend was not cut or it does not
fit. -/
lemma mod_div_eq_or_iff {x n : Nat} (hn : 0 < n) (hw : n ≤ w) :
    (x / n < w → x % w / n = x / n) ↔ x < w ∨ w ≤ x / n := by
  rw [mod_div_eq_iff hn hw, imp_iff_or_not, Nat.not_lt]

/-- Whether the part `f` of `m` is below `t` of `k` shares, at least half of them, is tested right just when the
product was not cut or the part is below. -/
lemma share_lt_iff {f m k t : Nat} (hm : 0 < m) (hw : m ≤ w) (hf : f ≤ m) (hkt : k ≤ t + t) :
    (f * k % w / m < t ↔ f * k / m < t) ↔ f * k < w ∨ f * k / m < t := by
  constructor
  · intro h
    by_contra hn
    obtain ⟨hcut, hge⟩ := not_or.mp hn
    have hlow : t * m ≤ f * k % w := (Nat.le_div_iff_mul_le hm).mp (Nat.not_lt.mp fun hl => hge (h.mp hl))
    have hpos : 0 < w := Nat.lt_of_lt_of_le hm hw
    have hsum : w + f * k % w ≤ f * k := by
      calc w + f * k % w ≤ w * (f * k / w) + f * k % w :=
            Nat.add_le_add_right (Nat.le_mul_of_pos_right w (Nat.div_pos (Nat.not_lt.mp hcut) hpos)) _
        _ = f * k := Nat.div_add_mod _ _
    have hall : f * k ≤ t * m + t * m := by
      calc f * k ≤ m * (t + t) := Nat.mul_le_mul hf hkt
        _ = t * m + t * m := by rw [Nat.mul_comm, Nat.add_mul]
    -- what is left is at least `t * m` and below `w`, but `w` and it are at most twice `t * m`
    have hlt : f * k % w < w := Nat.mod_lt _ hpos
    omega
  · rintro (hlt | hlt)
    · rw [Nat.mod_eq_of_lt hlt]
    · exact ⟨fun _ => hlt, fun _ => Nat.lt_of_le_of_lt (Nat.div_le_div_right (Nat.mod_le _ _)) hlt⟩

end P8.Lib
