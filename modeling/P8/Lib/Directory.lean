import Mathlib.Data.List.Nodup
import Mathlib.Logic.Function.Basic
import P8.Lib.System

/-!
# Directories

A directory gives each name a handle and each handle a value that is read and written in single steps; one more
value belongs to no handle. `Consistent` says of a history that every answer in it is the one that the events before
it give: a handle is that of its name alone, a name is found once it was registered, and what is read was stored
last.

* `DirEvent` are the operations with their answers, and `lastStored` is the value that a history stores last for a
  handle or for none.
* `Directory` is the abstract object, with a step for each operation (`Directory.Step`).
* `Told` is the invariant of its runs, and `consistent_run` the result: every history of the object is consistent.

The proof has one lemma for the events that store nothing and register nothing (`Told.keep`), one for those that
store (`Told.store`) and one for a new name (`Told.new`); `Told.step` assembles them. A program refines the
directory by a simulation, and its own histories are then consistent without a further induction.
-/

namespace P8.Lib

/-- What is done to a directory and what it answers; `none` is the value without a handle. -/
inductive DirEvent (κ V : Type*) where
  /-- `k` is registered with the value `v`, and `h` is its handle -/
  | registered (h : Nat) (k : κ) (v : V)
  | found (k : κ) (h : Option Nat)
  | stored (h : Option Nat) (v : V)
  | loaded (h : Option Nat) (v : V)
  /-- whether the value passes a test -/
  | asked (h : Option Nat) (test : V → Bool) (answer : Bool)

variable {κ V : Type*} {dflt v : V} {h : Option Nat} {l : List (DirEvent κ V)} {e : DirEvent κ V}

namespace DirEvent

/-- The value that an event stores at a handle. -/
def stores (h : Option Nat) : DirEvent κ V → Option V
  | registered i _ v => if some i = h then some v else none
  | stored j v => if j = h then some v else none
  | _ => none

/-- The value stored last at a handle; `dflt` is there from the start. -/
def lastStored (dflt : V) (h : Option Nat) (l : List (DirEvent κ V)) : Option V :=
  (l.filterMap (stores h)).getLast?.or (if h = none then some dflt else none)

/-- An event answers as the events before it say. -/
def Right (dflt : V) (l : List (DirEvent κ V)) : DirEvent κ V → Prop
  | registered h k _ => ∀ i k' v, registered i k' v ∈ l → (i = h ↔ k' = k)
  | found k (some h) => ∃ v, registered h k v ∈ l
  | found k none => ∀ i v, registered i k v ∉ l
  | stored _ _ => True
  | loaded h v => lastStored dflt h l = some v
  | asked h test answer => (lastStored dflt h l).map test = some answer

/-- Every event of a history answers as those before it say. -/
def Consistent (dflt : V) (l : List (DirEvent κ V)) : Prop := ∀ l₁ e l₂, l = l₁ ++ e :: l₂ → Right dflt l₁ e

/-- Nobody has asked. -/
lemma Consistent.nil : Consistent dflt ([] : List (DirEvent κ V)) :=
  fun _ _ _ he => absurd he.symm (List.append_ne_nil_of_right_ne_nil _ (List.cons_ne_nil _ _))

/-- A history goes on with an event that answers as it says. -/
lemma Consistent.concat (hl : Consistent dflt l) (he : Right dflt l e) : Consistent dflt (l ++ [e]) := by
  intro l₁ e' l₂ heq
  rcases List.eq_nil_or_concat l₂ with rfl | ⟨l₂, e₂, rfl⟩
  · have hparts := List.append_inj' heq rfl
    cases hparts.1
    cases hparts.2
    exact he
  · rw [List.concat_eq_append, ← List.cons_append, ← List.append_assoc] at heq
    exact hl _ _ _ (List.append_inj' heq rfl).1

/-- An event that stores nothing at a handle leaves what was stored there. -/
lemma lastStored_of_none (he : stores h e = none) : lastStored dflt h (l ++ [e]) = lastStored dflt h l := by
  rw [lastStored, List.filterMap_append, List.filterMap_cons_none he, List.filterMap_nil, List.append_nil]
  rfl

/-- What an event stores at a handle is there. -/
lemma lastStored_of_some (he : stores h e = some v) : lastStored dflt h (l ++ [e]) = some v := by
  rw [lastStored, List.filterMap_append, List.filterMap_cons_some he, List.filterMap_nil, List.getLast?_concat]
  rfl

end DirEvent

open DirEvent

/-- A directory: the names of its handles, the first one first, and the values. -/
structure Directory (κ V : Type*) where
  names : List κ
  value : Option Nat → V

namespace Directory

/-- A handle of the directory, or none. -/
def Valid (d : Directory κ V) (h : Option Nat) : Prop := ∀ i, h = some i → i < d.names.length

/-- The steps. -/
inductive Step : Directory κ V → DirEvent κ V → Directory κ V → Prop
  | new {d k v} : k ∉ d.names →
    Step d (.registered d.names.length k v) ⟨d.names ++ [k], Function.update d.value (some d.names.length) v⟩
  | known {d i k v} : d.names[i]? = some k →
    Step d (.registered i k v) { d with value := Function.update d.value (some i) v }
  | found {d k h} : (∀ i, h = some i ↔ d.names[i]? = some k) → Step d (.found k h) d
  | stored {d h v} : d.Valid h → Step d (.stored h v) { d with value := Function.update d.value h v }
  | loaded {d h} : d.Valid h → Step d (.loaded h (d.value h)) d
  | asked {d h test} : d.Valid h → Step d (.asked h test (test (d.value h))) d

/-- The directories with a value that belongs to no handle. -/
def system (κ : Type*) {V : Type*} (dflt : V) : System (Directory κ V) (DirEvent κ V) where
  start d := d.names = [] ∧ d.value none = dflt
  step := Step

variable {d d' : Directory κ V} {k : κ}

/-- What a history says of a directory. -/
structure Told (dflt : V) (l : List (DirEvent κ V)) (d : Directory κ V) : Prop where
  nodup : d.names.Nodup
  names : ∀ i k, d.names[i]? = some k ↔ ∃ v, registered i k v ∈ l
  values : ∀ h, d.Valid h → lastStored dflt h l = some (d.value h)
  consistent : Consistent dflt l

namespace Told

/-- A new directory. -/
lemma start (hd : (system κ dflt).start d) : Told dflt [] d := by
  obtain ⟨hnames, hvalue⟩ := hd
  refine ⟨hnames ▸ List.nodup_nil, fun i k => ?_, fun h hv => ?_, .nil⟩
  · rw [hnames]
    exact ⟨nofun, fun ⟨_, hm⟩ => absurd hm List.not_mem_nil⟩
  · cases h with
    | none => exact congrArg some hvalue.symm
    | some i =>
      have hlt := hv i rfl
      rw [hnames] at hlt
      exact absurd hlt (Nat.not_lt_zero i)

/-- A name has one handle. -/
lemma index_inj (ht : Told dflt l d) {i j : Nat} (hi : d.names[i]? = some k) (hj : d.names[j]? = some k) : i = j := by
  exact (List.getElem?_inj (List.getElem?_eq_some_iff.mp hi).1 ht.nodup).mp (hi.trans hj.symm)

/-- An event that neither registers nor stores answers by the state it is in. -/
lemma keep (ht : Told dflt l d) (hnone : ∀ h, stores h e = none) (hnew : ∀ i k v, e ≠ registered i k v)
    (hright : Right dflt l e) : Told dflt (l ++ [e]) d := by
  refine ⟨ht.nodup, fun i k => (ht.names i k).trans ?_, fun h hv => ?_, ht.consistent.concat hright⟩
  · constructor
    · rintro ⟨v, hm⟩
      exact ⟨v, List.mem_append_left _ hm⟩
    · rintro ⟨v, hm⟩
      rcases List.mem_append.mp hm with hm | hm
      · exact ⟨v, hm⟩
      · exact absurd (List.mem_singleton.mp hm).symm (hnew i k v)
  · rw [lastStored_of_none (hnone h)]
    exact ht.values h hv

/-- A value is stored at a handle. -/
lemma store (ht : Told dflt l d) (hj : ∀ h', stores h' e = if h = h' then some v else none)
    (hnew : ∀ i k w, e = registered i k w → d.names[i]? = some k) (hright : Right dflt l e) :
    Told dflt (l ++ [e]) { d with value := Function.update d.value h v } := by
  refine ⟨ht.nodup, fun i k => (ht.names i k).trans ?_, fun h' hv => ?_, ht.consistent.concat hright⟩
  · constructor
    · rintro ⟨v, hm⟩
      exact ⟨v, List.mem_append_left _ hm⟩
    · rintro ⟨w, hm⟩
      rcases List.mem_append.mp hm with hm | hm
      · exact ⟨w, hm⟩
      · exact (ht.names i k).mp (hnew i k w (List.mem_singleton.mp hm).symm)
  · by_cases e' : h = h'
    · subst e'
      rw [lastStored_of_some ((hj h).trans (if_pos rfl))]
      exact congrArg some (Function.update_self _ v d.value).symm
    · rw [lastStored_of_none ((hj h').trans (if_neg e')), ht.values h' hv]
      exact congrArg some (Function.update_of_ne (Ne.symm e') _ _).symm

/-- A name that is new gets the next handle. -/
lemma new (ht : Told dflt l d) (hk : k ∉ d.names) :
    Told dflt (l ++ [registered d.names.length k v])
      ⟨d.names ++ [k], Function.update d.value (some d.names.length) v⟩ := by
  have hold : ∀ {i k'} {w : V}, registered i k' w ∈ l → i < d.names.length ∧ k' ∈ d.names := fun hm => by
    have hi := (ht.names _ _).mpr ⟨_, hm⟩
    exact ⟨(List.getElem?_eq_some_iff.mp hi).1, List.mem_of_getElem? hi⟩
  refine ⟨?_, fun i k' => ?_, fun h hv => ?_, ht.consistent.concat fun i k' w hm => ?_⟩
  · exact ht.nodup.append (List.nodup_singleton k) (List.disjoint_singleton.mpr hk)
  · constructor
    · intro hi
      rcases Nat.lt_or_ge i d.names.length with hlt | hge
      · rw [List.getElem?_append_left hlt] at hi
        obtain ⟨w, hm⟩ := (ht.names i k').mp hi
        exact ⟨w, List.mem_append_left _ hm⟩
      · obtain ⟨hlt, -⟩ := List.getElem?_eq_some_iff.mp hi
        rw [List.length_append, List.length_singleton] at hlt
        obtain rfl : i = d.names.length := Nat.le_antisymm (Nat.lt_succ_iff.mp hlt) hge
        rw [List.getElem?_concat_length] at hi
        cases hi
        exact ⟨v, List.mem_append_right _ (List.mem_singleton_self _)⟩
    · rintro ⟨w, hm⟩
      rcases List.mem_append.mp hm with hm | hm
      · rw [List.getElem?_append_left (hold hm).1]
        exact (ht.names i k').mpr ⟨w, hm⟩
      · cases List.mem_singleton.mp hm
        exact List.getElem?_concat_length
  · have hstores : stores h (registered d.names.length k v) = if some d.names.length = h then some v else none := rfl
    by_cases e : some d.names.length = h
    · rw [lastStored_of_some (hstores.trans (if_pos e)), ← e]
      exact congrArg some (Function.update_self _ v d.value).symm
    · have hvold : d.Valid h := fun i hi => by
        have hlt := hv i hi
        rw [List.length_append, List.length_singleton] at hlt
        exact Nat.lt_of_le_of_ne (Nat.lt_succ_iff.mp hlt) fun hne => e (hne ▸ hi.symm)
      rw [lastStored_of_none (hstores.trans (if_neg e)), ht.values h hvold]
      exact congrArg some (Function.update_of_ne (Ne.symm e) _ _).symm
  · obtain ⟨hlt, hmem⟩ := hold hm
    exact iff_of_false (Nat.ne_of_lt hlt) fun e => hk (e ▸ hmem)

/-- A step keeps what the history says. -/
lemma step (ht : Told dflt l d) (hs : Step d e d') : Told dflt (l ++ [e]) d' := by
  cases hs with
  | new hk => exact ht.new hk
  | @known i k v hi =>
    refine ht.store (h := some i) (fun h' => rfl) (fun i' k' w e => ?_) fun i' k' w hm => ?_
    · cases e
      exact hi
    · have hi' := (ht.names i' k').mpr ⟨w, hm⟩
      constructor
      · rintro rfl
        exact Option.some.inj (hi'.symm.trans hi)
      · rintro rfl
        exact ht.index_inj hi' hi
  | @found k h hf =>
    refine ht.keep (fun _ => rfl) nofun ?_
    cases h with
    | none =>
      intro i v hm
      exact absurd ((hf i).mpr ((ht.names i k).mpr ⟨v, hm⟩)) (by simp)
    | some i => exact (ht.names i k).mp ((hf i).mp rfl)
  | @stored h v _ => exact ht.store (fun h' => rfl) nofun trivial
  | loaded hv => exact ht.keep (fun _ => rfl) nofun (ht.values _ hv)
  | asked hv => exact ht.keep (fun _ => rfl) nofun (congrArg (Option.map _) (ht.values _ hv))

end Told

/-- The history of every directory is consistent. -/
lemma consistent_run (hr : (system κ dflt).Run l d) : Consistent dflt l := by
  have ht : Told dflt l d := hr.invariant (I := Told dflt) (fun _ hd => .start hd) fun _ _ _ _ _ ht hs => ht.step hs
  exact ht.consistent

end Directory

end P8.Lib
