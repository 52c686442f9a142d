import P8.Lib.LinkedQueue

/-!
# Doubly linked lists

A list kept as a head pointer with a `next` and a `prev` pointer in each node, both null at its ends. A node is put
in front or taken out from anywhere by patching the pointers of its neighbours.

`Doubly` relates the pointers to the list of nodes; it says of every way to cut the list in two around a node what
both pointers of the node are, and that the nodes differ. So a chain in either direction (`Doubly.chain`) and the
inverse links (`Doubly.next_prev`, `Doubly.prev_next`) are read off it without an induction.

`Doubly.push` and `Doubly.remove` are the two operations. Their hypotheses give the pointers afterwards, as
functions of those before, and name no program: what a caller shows is that its patches are these functions.
-/

namespace P8.Lib

variable {τ : Type*} {next prev next' prev' : τ → Option τ} {head : Option τ} {q : List τ}

/-- A node of two lists in a row is in the second or in the first one. -/
lemma append_eq_middle {a b c d : List τ} {t : τ} (e : a ++ b = c ++ t :: d) :
    (∃ m, c = a ++ m ∧ b = m ++ t :: d) ∨ ∃ m, a = c ++ t :: m ∧ d = m ++ b := by
  rcases List.append_eq_append_iff.mp e with h | ⟨m, ha, hd⟩
  · exact .inl h
  · cases m with
    | nil => exact .inl ⟨[], by rw [ha, List.append_nil, List.append_nil], hd.symm⟩
    | cons u m =>
      obtain ⟨rfl, rfl⟩ := List.cons.inj hd
      exact .inr ⟨m, ha, rfl⟩

/-- The pointers stand for a list of nodes: each points to the one behind it and to the one before it. -/
structure Doubly (next prev : τ → Option τ) (head : Option τ) (q : List τ) : Prop where
  head : head = q.head?
  links : ∀ a t b, q = a ++ t :: b → next t = b.head? ∧ prev t = a.getLast?
  nodup : q.Nodup

namespace Doubly

/-- The empty list. -/
lemma nil (next prev : τ → Option τ) : Doubly next prev none [] := by
  refine ⟨rfl, fun a t b e => ?_, .nil⟩
  cases a <;> cases e

/-- Following `next` from the head meets just the nodes and ends behind them. -/
lemma chain (h : Doubly next prev head q) : Chain next head q := by
  have suffix {a b : List τ} (e : q = a ++ b) : Chain next b.head? b := by
    induction b generalizing a with
    | nil => rfl
    | cons t b ih =>
      refine ⟨rfl, ?_⟩
      rw [(h.links a t b e).1]
      exact ih (a := a ++ [t]) (by rw [e, List.append_assoc, List.singleton_append])
  rw [h.head]
  exact suffix (a := []) rfl

/-- A node points only to nodes, and these point back. -/
lemma next_prev (h : Doubly next prev head q) {t u : τ} (ht : t ∈ q) (e : next t = some u) :
    u ∈ q ∧ prev u = some t := by
  obtain ⟨a, b, hq⟩ := List.append_of_mem ht
  rw [(h.links a t b hq).1] at e
  obtain ⟨b', rfl⟩ := List.head?_eq_some_iff.mp e
  have hq' : q = (a ++ [t]) ++ u :: b' := by rw [hq, List.append_assoc, List.singleton_append]
  refine ⟨hq ▸ List.mem_append_right _ (List.mem_cons_of_mem _ List.mem_cons_self), ?_⟩
  rw [(h.links (a ++ [t]) u b' hq').2, List.getLast?_concat]

/-- And the other way around. -/
lemma prev_next (h : Doubly next prev head q) {t u : τ} (hu : u ∈ q) (e : prev u = some t) :
    t ∈ q ∧ next t = some u := by
  obtain ⟨a, b, hq⟩ := List.append_of_mem hu
  rw [(h.links a u b hq).2] at e
  obtain ⟨a', rfl⟩ := List.getLast?_eq_some_iff.mp e
  have hq' : q = a' ++ t :: u :: b := by rw [hq, List.append_assoc, List.singleton_append]
  refine ⟨hq' ▸ List.mem_append_right _ List.mem_cons_self, ?_⟩
  rw [(h.links a' t (u :: b) hq').1, List.head?_cons]

/-- Where all other nodes have null pointers, `prev` is the inverse of `next`. -/
lemma inverse (h : Doubly next prev head q) (hout : ∀ t, t ∉ q → next t = none ∧ prev t = none) (t u : τ) :
    next t = some u ↔ prev u = some t := by
  constructor
  · intro e
    by_cases ht : t ∈ q
    · exact (h.next_prev ht e).2
    · rw [(hout t ht).1] at e
      cases e
  · intro e
    by_cases hu : u ∈ q
    · exact (h.prev_next hu e).2
    · rw [(hout u hu).2] at e
      cases e

/-- A new node is put in front: it points to the head, which points back to it. -/
lemma push {t : τ} (h : Doubly next prev head q) (ht : t ∉ q) (hnew : next' t = head ∧ prev' t = none)
    (hnext : ∀ u ∈ q, next' u = next u) (hhead : ∀ u, head = some u → prev' u = some t)
    (hprev : ∀ u ∈ q, head ≠ some u → prev' u = prev u) : Doubly next' prev' (some t) (t :: q) := by
  refine ⟨rfl, fun a u b e => ?_, List.nodup_cons.mpr ⟨ht, h.nodup⟩⟩
  cases a with
  | nil =>
    cases e
    exact ⟨hnew.1.trans h.head, hnew.2⟩
  | cons v a =>
    obtain ⟨rfl, hq⟩ := List.cons.inj e
    have hu : u ∈ q := hq ▸ List.mem_append_right _ List.mem_cons_self
    obtain ⟨hn, hp⟩ := h.links a u b hq
    refine ⟨(hnext u hu).trans hn, ?_⟩
    cases a with
    | nil =>
      apply hhead
      rw [h.head, hq]
      rfl
    | cons w a =>
      have hne : head ≠ some u := by
        rw [h.head, hq]
        intro hw
        have hnodup := h.nodup
        rw [hq, ← Option.some.inj hw] at hnodup
        exact (List.nodup_cons.mp hnodup).1 (List.mem_append_right _ List.mem_cons_self)
      rw [hprev u hu hne, hp, List.getLast?_cons_cons]

/-- A node is taken out: the one before it, or the head, points to the one behind it, which points back. -/
lemma remove {a b : List τ} {t : τ} (h : Doubly next prev head (a ++ t :: b))
    (hskip : ∀ u, prev t = some u → next' u = next t) (hnext : ∀ u, u ≠ t → prev t ≠ some u → next' u = next u)
    (hback : ∀ u, next t = some u → prev' u = prev t) (hprev : ∀ u, u ≠ t → next t ≠ some u → prev' u = prev u) :
    Doubly next' prev' (match prev t with | none => next t | some _ => head) (a ++ b) := by
  obtain ⟨htab, hab⟩ := List.nodup_cons.mp (List.nodup_middle.mp h.nodup)
  obtain ⟨hn, hp⟩ := h.links a t b rfl
  rw [hp] at hskip hnext hback ⊢
  rw [hn] at hskip hback hprev ⊢
  refine ⟨?_, fun c u d e => ?_, hab⟩
  · rw [h.head]
    cases a with
    | nil => rfl
    | cons v a =>
      cases ha : (v :: a).getLast? with
      | none => simp at ha
      | some w => rfl
  · have hu : u ≠ t := by
      rintro rfl
      exact htab (e ▸ List.mem_append_right _ List.mem_cons_self)
    -- the node stands behind the one taken out or before it
    rcases append_eq_middle e with ⟨m, rfl, rfl⟩ | ⟨m, rfl, rfl⟩
    · obtain ⟨hn', hp'⟩ := h.links (a ++ t :: m) u d (by rw [List.append_assoc, List.cons_append])
      have hpred : a.getLast? ≠ some u := fun hl =>
        (List.nodup_append.mp hab).2.2 u (List.mem_of_getLast? hl) u (List.mem_append_right _ List.mem_cons_self) rfl
      refine ⟨(hnext u hu hpred).trans hn', ?_⟩
      cases m with
      | nil => rw [hback u rfl, List.append_nil]
      | cons v m =>
        have hne : v ≠ u := by
          rintro rfl
          have hb := (List.nodup_append.mp hab).2.1
          exact (List.nodup_cons.mp hb).1 (List.mem_append_right _ List.mem_cons_self)
        rw [hprev u hu fun hv => hne (Option.some.inj hv), hp']
        simp [List.getLast?_append, List.getLast?_cons]
    · obtain ⟨hn', hp'⟩ := h.links c u (m ++ t :: b) (by rw [List.append_assoc, List.cons_append])
      have hsucc : b.head? ≠ some u := fun hl =>
        (List.nodup_append.mp hab).2.2 u (List.mem_append_right _ List.mem_cons_self) u (List.mem_of_head? hl) rfl
      refine ⟨?_, (hprev u hu hsucc).trans hp'⟩
      rcases List.eq_nil_or_concat m with rfl | ⟨m, v, rfl⟩
      · rw [hskip u (by rw [List.getLast?_concat])]
        rfl
      · have hl : (c ++ u :: (m.concat v)).getLast? = some v := by
          rw [List.concat_eq_append, ← List.cons_append, ← List.append_assoc, List.getLast?_concat]
        have hne : v ≠ u := by
          rintro rfl
          have ha := (List.nodup_append.mp hab).1
          rw [List.concat_eq_append, List.nodup_append] at ha
          exact (List.nodup_cons.mp ha.2.1).1 (List.mem_append_right _ List.mem_cons_self)
        rw [hnext u hu fun hv => hne (Option.some.inj (hl.symm.trans hv)), hn']
        simp [List.head?_append]

end Doubly

end P8.Lib
