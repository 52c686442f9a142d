import Mathlib.Data.List.Nodup
import Mathlib.Tactic.Lemma
import Mathlib.Tactic.TypeStar

/-!
# Indexes

A table that gives names the numbers of their places, as it grows with every new name. `Index` relates the names in
the order they came to the entries of the table, the last one first. How a place becomes a number is a parameter, so
that a table may give ids of a bounded type.

It is an inductive relation with a rule for each new name, and its lemmas are inductions on it: the names differ
(`Index.nodup`), a lookup finds exactly the place of a name (`Index.lookup_iff`), and a name that is not found is in
no place (`Index.not_mem_of_lookup`). `Index.push_of_lookup` is the way it grows in the programs that use it: a
lookup failed, and the name gets the next number.
-/

namespace P8.Lib

variable {κ ι : Type*} {num : Nat → ι} {names : List κ} {map : List (κ × ι)} {k : κ} {v : ι}

/-- `map` gives each of `names` the number of its place. -/
inductive Index (num : Nat → ι) : List κ → List (κ × ι) → Prop
  | nil : Index num [] []
  | push {names : List κ} {map : List (κ × ι)} {k : κ} : Index num names map → k ∉ names →
      Index num (names ++ [k]) ((k, num names.length) :: map)

namespace Index

/-- No name comes twice. -/
lemma nodup (h : Index num names map) : names.Nodup := by
  induction h with
  | nil => exact List.nodup_nil
  | push _ hk ih =>
    apply ih.append (List.nodup_singleton _)
    intro x hx hx'
    rw [List.mem_singleton.mp hx'] at hx
    exact hk hx

variable [DecidableEq κ]

/-- A name is found with the number of its place. -/
lemma lookup_iff (h : Index num names map) : map.lookup k = some v ↔ ∃ i, names[i]? = some k ∧ v = num i := by
  induction h with
  | nil => exact ⟨nofun, fun ⟨_, hi, _⟩ => by cases hi⟩
  | @push names map k' _ hk ih =>
    by_cases e : k = k'
    · subst e
      rw [List.lookup_cons_self]
      constructor
      · intro hv
        exact ⟨names.length, List.getElem?_concat_length, (Option.some.inj hv).symm⟩
      · rintro ⟨i, hi, rfl⟩
        obtain hlt | rfl | hgt := Nat.lt_trichotomy i names.length
        · rw [List.getElem?_append_left hlt] at hi
          exact absurd (List.mem_of_getElem? hi) hk
        · rfl
        · rw [List.getElem?_eq_none (by rw [List.length_append, List.length_singleton]; omega)] at hi
          cases hi
    · rw [List.lookup_cons, beq_false_of_ne e]
      refine ih.trans ⟨?_, ?_⟩
      · rintro ⟨i, hi, rfl⟩
        exact ⟨i, List.getElem?_append_left (List.getElem?_eq_some_iff.mp hi).1 ▸ hi, rfl⟩
      · rintro ⟨i, hi, rfl⟩
        refine ⟨i, ?_, rfl⟩
        rw [List.getElem?_append] at hi
        split at hi
        case isTrue => exact hi
        case isFalse =>
          rw [List.getElem?_singleton] at hi
          split at hi
          · exact absurd (Option.some.inj hi).symm e
          · cases hi

/-- A name that is not found is none of the names. -/
lemma not_mem_of_lookup (h : Index num names map) (hk : map.lookup k = none) : k ∉ names := by
  intro hmem
  obtain ⟨i, hi⟩ := List.mem_iff_getElem?.mp hmem
  rw [h.lookup_iff.mpr ⟨i, hi, rfl⟩] at hk
  cases hk

/-- A name that is not found is added. -/
lemma push_of_lookup (h : Index num names map) (hk : map.lookup k = none) :
    Index num (names ++ [k]) ((k, num names.length) :: map) :=
  h.push (h.not_mem_of_lookup hk)

end Index

end P8.Lib
