import Mathlib.Algebra.Order.Ring.Nat
import Mathlib.Data.List.ReduceOption
import Mathlib.Tactic.Lemma
import Mathlib.Tactic.TypeStar

/-!
# Transition systems

Systems that take labelled steps (`System`), their runs (`System.Run`), and the rule by which what every step keeps
holds at the end of every run. All machines of the development are systems in this sense: the calls of one writer,
the critical sections of a mutex, the steps of all threads of a core.

* `System.Run.invariant` is the rule for a property of the labels and the state together, `System.Run.holds` the one
  for a property of the state.
* `System.Path` also records the state in front of each step, for statements about every state on the way;
  `System.Path.always_iff` turns "in all of them" into a condition on the steps alone.
* `System.restrict` leaves the steps that meet a condition, which is how the conditions under which a defect stays
  away are stated.

A `Simulation` relates a system whose steps are visible or internal to one that makes the visible steps alone.
`Simulation.run` is its one induction: who sees the visible steps cannot tell the two systems apart.
-/

namespace P8.Lib

/-- A system: the states it starts in and the steps it takes, each with a label. -/
structure System (σ α : Type*) where
  start : σ → Prop
  step : σ → α → σ → Prop

variable {σ α : Type*} {S : System σ α}

/-- The runs of a system: the labels of the steps taken and the state reached. -/
inductive System.Run (S : System σ α) : List α → σ → Prop
  | start {s : σ} : S.start s → S.Run [] s
  | step {l : List α} {s s' : σ} {a : α} : S.Run l s → S.step s a s' → S.Run (l ++ [a]) s'

/-- What holds at the start and is kept by every step of a run holds at its end. -/
lemma System.Run.invariant {I : List α → σ → Prop} {l : List α} {s : σ} (h : S.Run l s)
    (start : ∀ s, S.start s → I [] s)
    (step : ∀ l s a s', S.Run l s → I l s → S.step s a s' → I (l ++ [a]) s') : I l s := by
  induction h with
  | start h => exact start _ h
  | step h hs ih => exact step _ _ _ _ h ih hs

/-- The same for a property of the state alone. -/
lemma System.Run.holds {I : σ → Prop} {l : List α} {s : σ} (h : S.Run l s) (start : ∀ s, S.start s → I s)
    (step : ∀ s a s', I s → S.step s a s' → I s') : I s :=
  h.invariant (I := fun _ => I) start fun _ s a s' _ => step s a s'

/-- The runs of a system with the states they go through: each step with the state it is taken in, and the state
reached. -/
inductive System.Path (S : System σ α) : List (σ × α) → σ → Prop
  | start {s : σ} : S.start s → S.Path [] s
  | step {l : List (σ × α)} {s s' : σ} {a : α} : S.Path l s → S.step s a s' → S.Path (l ++ [(s, a)]) s'

/-- A property of all states a run goes through. -/
def System.Always (P : σ → Prop) (l : List (σ × α)) (s : σ) : Prop := (∀ x ∈ l, P x.1) ∧ P s

/-- A condition on all steps of a run. -/
def System.Each (Q : σ → α → Prop) (l : List (σ × α)) : Prop := ∀ x ∈ l, Q x.1 x.2

/-- What is asked of the steps of a path is asked of its last one. -/
lemma System.Each.of_concat {Q : σ → α → Prop} {l : List (σ × α)} {s : σ} {a : α} (h : System.Each Q (l ++ [(s, a)])) :
    System.Each Q l ∧ Q s a :=
  ⟨fun x hx => h x (List.mem_append_left _ hx), h (s, a) (List.mem_append_right _ (List.mem_singleton_self _))⟩

/-- One more step that meets it. -/
lemma System.Each.concat {Q : σ → α → Prop} {l : List (σ × α)} {s : σ} {a : α} (h : System.Each Q l) (ha : Q s a) :
    System.Each Q (l ++ [(s, a)]) := by
  intro x hx
  rcases List.mem_append.mp hx with hx | hx
  · exact h x hx
  · cases List.mem_singleton.mp hx
    exact ha

/-- A property holds in all states of a run exactly when all its steps meet a condition: it comes with an invariant at
the start, and in the states of the invariant each step keeps both when it meets the condition and breaks the property
when it does not. -/
lemma System.Path.always_iff {P I : σ → Prop} {Q : σ → α → Prop} {l : List (σ × α)} {s : σ} (h : S.Path l s)
    (start : ∀ s, S.start s → I s) (holds : ∀ s, I s → P s)
    (keeps : ∀ s a s', I s → S.step s a s' → Q s a → I s')
    (breaks : ∀ s a s', I s → S.step s a s' → ¬Q s a → ¬P s') :
    System.Always P l s ↔ System.Each Q l := by
  have inv {l : List (σ × α)} {s : σ} (h : S.Path l s) (hl : System.Each Q l) : I s := by
    induction h with
    | start h => exact start _ h
    | step h hs ih => exact keeps _ _ _ (ih hl.of_concat.1) hs hl.of_concat.2
  induction h with
  | start h => exact iff_of_true ⟨nofun, holds _ (start _ h)⟩ nofun
  | @step l s s' a h hs ih =>
    constructor
    · rintro ⟨hl, hp⟩
      have hl' : System.Each Q l := by
        apply ih.mp
        exact ⟨fun x hx => hl x (List.mem_append_left _ hx),
          hl (s, a) (List.mem_append_right _ (List.mem_singleton_self _))⟩
      by_contra hq
      exact breaks _ _ _ (inv h hl') hs (fun ha => hq (hl'.concat ha)) hp
    · intro hl
      obtain ⟨hl', ha⟩ := hl.of_concat
      obtain ⟨hp, hs'⟩ := ih.mpr hl'
      refine ⟨fun x hx => ?_, holds _ (keeps _ _ _ (inv h hl') hs ha)⟩
      rcases List.mem_append.mp hx with hx | hx
      · exact hp x hx
      · cases List.mem_singleton.mp hx
        exact hs'

/-- A system of which only the steps that meet a condition are taken. -/
def System.restrict (S : System σ α) (P : σ → α → Prop) : System σ α where
  start := S.start
  step s a s' := S.step s a s' ∧ P s a

/-- A run of which all steps meet a condition is a run. -/
lemma System.Run.of_restrict {P : σ → α → Prop} {l : List α} {s : σ} (h : (S.restrict P).Run l s) : S.Run l s := by
  induction h with
  | start h => exact .start h
  | step _ hs ih => exact ih.step hs.1

section Simulation
variable {σ ρ γ : Type*} {C : System σ (Option γ)} {A : System ρ γ} {R : σ → ρ → Prop}

/-- A relation by which `A` makes the visible steps of `C`. -/
structure Simulation (C : System σ (Option γ)) (A : System ρ γ) (R : σ → ρ → Prop) : Prop where
  start : ∀ s, C.start s → ∃ r, A.start r ∧ R s r
  internal : ∀ s r s', R s r → C.step s none s' → R s' r
  visible : ∀ s r x s', R s r → C.step s (some x) s' → ∃ r', A.step r x r' ∧ R s' r'

/-- Every run of `C` is a run of `A` for those who see the visible steps. -/
lemma Simulation.run {l : List (Option γ)} {s : σ} (h : Simulation C A R) (hr : C.Run l s) :
    ∃ r, A.Run l.reduceOption r ∧ R s r := by
  induction hr with
  | start hs =>
    obtain ⟨r, hr, hR⟩ := h.start _ hs
    exact ⟨r, .start hr, hR⟩
  | @step l s s' x _ hs ih =>
    obtain ⟨r, hr, hR⟩ := ih
    cases x with
    | none =>
      refine ⟨r, ?_, h.internal _ _ _ hR hs⟩
      rwa [List.reduceOption_append, List.reduceOption_singleton, Option.toList_none, List.append_nil]
    | some x =>
      obtain ⟨r', hs', hR'⟩ := h.visible _ _ _ _ hR hs
      refine ⟨r', ?_, hR'⟩
      rw [List.reduceOption_append, List.reduceOption_singleton, Option.toList_some]
      exact hr.step hs'

end Simulation

end P8.Lib
