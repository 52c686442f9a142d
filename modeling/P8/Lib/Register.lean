import Mathlib.Data.List.Nodup
import Mathlib.Data.List.Range
import Mathlib.Tactic.Lemma
import Mathlib.Tactic.TypeStar

/-!
# Registers

A register numbers its entries in the order they come; the number of an entry is its key. Each entry is told to the
outside once it is in, and a key is handed out when its entry was told. `Register` relates the entries, those told,
and the keys handed out; only the last entry may be waiting to be told (`pending`). How a number becomes a key is a
parameter `f`, so that ids of any width are keys as long as it is injective below the bound.

The operations are `Register.push` (a new entry, which waits), `Register.tell` (it is told), `Register.hand` and
`Register.handOption` (a key goes out, for an entry that was told before as well). What a user of the register gets
is `Register.told_of_mem`, that a key that is in the register belongs to an entry that was told, and
`Register.filter_told`, that it was told once.
-/

namespace P8.Lib

variable {α κ : Type*} {f : Nat → κ} {bound : Nat} {key : α → κ} {all told : List α} {pending : Bool}
  {handed : List κ} {a : α} {k : κ}

/-- The keys of `all` are numbered by `f` within its bound; `told` is all, or all but the last while that is
`pending`; and every key handed out is the key of an entry told. -/
structure Register (f : Nat → κ) (bound : Nat) (key : α → κ) (all told : List α) (pending : Bool)
    (handed : List κ) : Prop where
  keys : all.map key = (List.range all.length).map f
  length_le : all.length ≤ bound
  told_eq : told = if pending then all.dropLast else all
  nonempty : pending = true → all ≠ []
  handed : ∀ k ∈ handed, ∃ a ∈ told, key a = k

namespace Register

/-- An empty register. -/
lemma empty : Register f bound key [] [] false [] :=
  ⟨rfl, Nat.zero_le _, rfl, nofun, nofun⟩

/-- A new entry comes in, with the next number as its key. -/
lemma push (h : Register f bound key all told false handed) (hlen : all.length < bound)
    (hkey : key a = f all.length) : Register f bound key (all ++ [a]) told true handed where
  keys := by
    rw [List.map_append, h.keys, List.length_append, List.length_singleton, List.range_succ, List.map_append,
      List.map_singleton, List.map_singleton, hkey]
  length_le := by
    rw [List.length_append]
    exact hlen
  told_eq := by
    rw [h.told_eq, if_pos rfl, List.dropLast_concat]
    rfl
  nonempty _ := List.append_ne_nil_of_right_ne_nil _ (List.cons_ne_nil _ _)
  handed := h.handed

/-- The entry that waits is told. -/
lemma tell (h : Register f bound key (all ++ [a]) told true handed) :
    Register f bound key (all ++ [a]) (told ++ [a]) false handed where
  keys := h.keys
  length_le := h.length_le
  told_eq := by
    rw [h.told_eq, if_pos rfl, List.dropLast_concat]
    rfl
  nonempty := nofun
  handed k hk := by
    obtain ⟨b, hb, e⟩ := h.handed k hk
    exact ⟨b, List.mem_append_left _ hb, e⟩

/-- The key of an entry told is handed out. -/
lemma hand (h : Register f bound key all told pending handed) (ha : a ∈ told) :
    Register f bound key all told pending (handed ++ [key a]) where
  keys := h.keys
  length_le := h.length_le
  told_eq := h.told_eq
  nonempty := h.nonempty
  handed k hk := by
    cases List.mem_append.mp hk with
    | inl hk => exact h.handed k hk
    | inr hk => exact ⟨a, ha, (List.mem_singleton.mp hk).symm⟩

/-- Perhaps the key of an entry told is handed out. -/
lemma handOption (h : Register f bound key all told pending handed) {o : Option κ}
    (ho : ∀ k, o = some k → ∃ a ∈ told, key a = k) :
    Register f bound key all told pending (handed ++ o.toList) := by
  cases o with
  | none => rwa [Option.toList_none, List.append_nil]
  | some k =>
    obtain ⟨a, ha, rfl⟩ := ho k rfl
    exact h.hand ha

/-- While no entry waits, every entry is told. -/
lemma told_of_mem (h : Register f bound key all told false handed) (ha : a ∈ all) : a ∈ told := by
  rw [h.told_eq]
  exact ha

/-- What was told is registered. -/
lemma mem_of_told (h : Register f bound key all told pending handed) (ha : a ∈ told) : a ∈ all := by
  rw [h.told_eq] at ha
  split at ha
  · exact List.dropLast_subset _ ha
  · exact ha

/-- No two entries have one key. -/
lemma nodup (h : Register f bound key all told pending handed)
    (hf : ∀ i j, i < bound → j < bound → f i = f j → i = j) : (all.map key).Nodup := by
  rw [h.keys]
  apply List.Nodup.map_on _ List.nodup_range
  intro i hi j hj
  exact hf i j (Nat.lt_of_lt_of_le (List.mem_range.mp hi) h.length_le)
    (Nat.lt_of_lt_of_le (List.mem_range.mp hj) h.length_le)

/-- Exactly one entry told has a key that was handed out. -/
lemma filter_told [DecidableEq κ] (h : Register f bound key all told pending handed)
    (hf : ∀ i j, i < bound → j < bound → f i = f j → i = j) (hk : k ∈ handed) :
    ∃ a ∈ all, key a = k ∧ told.filter (key · = k) = [a] := by
  obtain ⟨a, ha, rfl⟩ := h.handed k hk
  refine ⟨a, h.mem_of_told ha, rfl, ?_⟩
  have hnodup : (told.map key).Nodup := by
    apply List.Nodup.sublist _ (h.nodup hf)
    apply List.Sublist.map
    rw [h.told_eq]
    split
    · exact List.dropLast_sublist _
    · exact List.Sublist.refl _
  clear h
  induction told with
  | nil => cases ha
  | cons b told ih =>
    rw [List.map_cons, List.nodup_cons] at hnodup
    cases ha with
    | head =>
      rw [List.filter_cons_of_pos (by simp), List.filter_eq_nil_iff.mpr]
      intro c hc
      rw [decide_eq_true_eq]
      intro e
      exact hnodup.1 (e ▸ List.mem_map_of_mem hc)
    | tail _ ha =>
      rw [List.filter_cons_of_neg, ih ha hnodup.2]
      rw [decide_eq_true_eq]
      intro e
      exact hnodup.1 (e ▸ List.mem_map_of_mem ha)

end Register

end P8.Lib
