import Mathlib.Data.List.Nodup
import Mathlib.Logic.Function.Basic
import Mathlib.Logic.Relation
import Mathlib.Tactic.Lemma
import Mathlib.Tactic.TypeStar

/-!
# Queues linked through their nodes

A first-in first-out queue kept as a head and a tail pointer with a `next` pointer in each node, and the list of
nodes it stands for.

`Chain` says that the pointers from one place on run through a list to null, `Reaches` what is met on the way, and
`Linked` is a chain from the head whose last node is the tail. The pointers are a function from nodes to nodes, so
that the same lemmas serve nodes that are in the stack frames of the threads that wait.

* `Linked.enqueue_first` and `Linked.enqueue_last` put a node behind an empty queue and behind a last node.
* `Linked.dequeue` takes the first one.
* `Chain.reaches_iff` identifies what is reached with what is in the list, for those who hold a pointer into it.
-/

namespace P8.Lib

variable {τ : Type*} {next : τ → Option τ} {q : List τ}

/-- Following `next` from a pointer meets just the nodes of a list and ends behind them. -/
def Chain (next : τ → Option τ) : Option τ → List τ → Prop
  | p, [] => p = none
  | p, t :: q => p = some t ∧ Chain next (next t) q

/-- A chain depends on the links of its own nodes alone. -/
lemma Chain.congr {next' : τ → Option τ} {p : Option τ} (h : Chain next p q)
    (e : ∀ t ∈ q, next' t = next t) : Chain next' p q := by
  induction q generalizing p with
  | nil => exact h
  | cons t q ih =>
    refine ⟨h.1, ?_⟩
    rw [e t List.mem_cons_self]
    exact ih h.2 fun u hu => e u (List.mem_cons_of_mem _ hu)

/-- A chain starts with a node of its list. -/
lemma Chain.head {p : Option τ} (h : Chain next p q) : p = q.head? := by
  cases q with
  | nil => exact h
  | cons t q => exact h.1

/-- The last node of a chain gets a node behind it. -/
lemma Chain.append [DecidableEq τ] {p : Option τ} {t u : τ} (h : Chain next p (q ++ [u]))
    (hq : (q ++ [u]).Nodup) (e : t ≠ u) (ht : next t = none) :
    Chain (Function.update next u (some t)) p (q ++ [u, t]) := by
  induction q generalizing p with
  | nil =>
    refine ⟨h.1, ?_⟩
    rw [Function.update_self]
    refine ⟨rfl, ?_⟩
    rw [Function.update_of_ne e]
    exact ht
  | cons v q ih =>
    rw [List.cons_append, List.nodup_cons] at hq
    have hv : v ≠ u := by
      rintro rfl
      exact hq.1 (List.mem_append_right _ List.mem_cons_self)
    refine ⟨h.1, ?_⟩
    rw [Function.update_of_ne hv]
    exact ih h.2 hq.2

/-- A node is met on the way from a pointer along the links. -/
def Reaches (next : τ → Option τ) (p : Option τ) (t : τ) : Prop :=
  ∃ u, p = some u ∧ Relation.ReflTransGen (fun a b => next a = some b) u t

/-- From a null pointer nothing is reached. -/
lemma not_reaches_none (t : τ) : ¬Reaches next none t := by
  rintro ⟨u, hu, -⟩
  cases hu

/-- The first node is met, and what is met behind it. -/
lemma reaches_some {t u : τ} : Reaches next (some u) t ↔ t = u ∨ Reaches next (next u) t := by
  constructor
  · rintro ⟨v, hv, h⟩
    cases hv
    rcases h.cases_head with e | ⟨w, hw, h⟩
    · exact .inl e.symm
    · exact .inr ⟨w, hw, h⟩
  · rintro (rfl | ⟨w, hw, h⟩)
    · exact ⟨t, rfl, .refl⟩
    · exact ⟨u, rfl, .head hw h⟩

/-- From a chain's pointer its own nodes are met and no other. -/
lemma Chain.reaches_iff {p : Option τ} {t : τ} (h : Chain next p q) : Reaches next p t ↔ t ∈ q := by
  induction q generalizing p with
  | nil =>
    rw [show p = none from h]
    exact iff_of_false (not_reaches_none t) nofun
  | cons u q ih =>
    rw [h.1, reaches_some, List.mem_cons, ih h.2]

/-- A head and a tail pointer stand for a list of nodes. -/
structure Linked (next : τ → Option τ) (head tail : Option τ) (q : List τ) : Prop where
  chain : Chain next head q
  nodup : q.Nodup
  last : tail = q.getLast?

variable {head tail : Option τ}

/-- No node: both pointers are null. -/
lemma Linked.nil : Linked next none none [] := ⟨rfl, .nil, rfl⟩

/-- The links of others have no part in a queue. -/
lemma Linked.congr {next' : τ → Option τ} (h : Linked next head tail q) (e : ∀ t ∈ q, next' t = next t) :
    Linked next' head tail q := ⟨h.chain.congr e, h.nodup, h.last⟩

/-- The head is null exactly when there is no node. -/
lemma Linked.head_eq (h : Linked next head tail q) : head = q.head? := h.chain.head

/-- A null tail: there is no node. -/
lemma Linked.eq_nil (h : Linked next head none q) : q = [] := by
  rcases List.eq_nil_or_concat q with e | ⟨l, u, e⟩
  · exact e
  · have hl := h.last
    rw [e, List.concat_eq_append, List.getLast?_concat] at hl
    cases hl

/-- The first node. -/
lemma Linked.enqueue_first (h : Linked next head none q) {t : τ} (hn : next t = none) :
    Linked next (some t) (some t) (q ++ [t]) := by
  rw [h.eq_nil]
  exact ⟨⟨rfl, hn⟩, List.nodup_singleton t, rfl⟩

/-- A further node, linked behind the tail. -/
lemma Linked.enqueue_last [DecidableEq τ] {u t : τ} (h : Linked next head (some u) q) (ht : t ∉ q)
    (hn : next t = none) : Linked (Function.update next u (some t)) head (some t) (q ++ [t]) := by
  have hlast := h.last
  rcases List.eq_nil_or_concat q with e | ⟨l, v, e⟩
  · rw [e] at hlast
    cases hlast
  · rw [e, List.concat_eq_append] at h ht hlast ⊢
    rw [List.getLast?_concat, Option.some.injEq] at hlast
    subst hlast
    have hne : t ≠ u := by
      rintro rfl
      exact ht (List.mem_append_right _ List.mem_cons_self)
    have hnodup : (l ++ [u] ++ [t]).Nodup := by
      rw [List.nodup_append]
      refine ⟨h.nodup, List.nodup_singleton t, fun a ha b hb => ?_⟩
      rw [List.mem_singleton] at hb
      rintro rfl
      exact ht (hb ▸ ha)
    refine ⟨?_, hnodup, List.getLast?_concat.symm⟩
    rw [List.append_assoc]
    exact h.chain.append h.nodup hne hn

/-- The head is taken; the tail goes with the last node. -/
lemma Linked.dequeue {t : τ} (h : Linked next head tail (t :: q)) :
    Linked next (next t) (if next t = none then none else tail) q := by
  have hc := h.chain.2
  have hh := hc.head
  refine ⟨hc, (List.nodup_cons.mp h.nodup).2, ?_⟩
  cases q with
  | nil =>
    have e : next t = none := hh
    rw [if_pos e]
    rfl
  | cons u q =>
    have e : next t ≠ none := by
      rw [hh]
      exact Option.some_ne_none u
    rw [if_neg e, h.last, List.getLast?_cons_cons]

end P8.Lib
