import Mathlib.Algebra.Order.Ring.Nat
import Mathlib.Tactic.Lemma
import Mathlib.Tactic.TypeStar
import Mathlib.Tactic.ByContra

/-!
# Items laid over cells

A run of items (`Item`) is written without gaps into a run of cells (`Cell`) of bounded size, so that an item may
begin in one cell and end in a later one. `Laid` says where the cells' boundaries fall: a cell is marked `more`
exactly when an item goes on over its end, no head is split, every item starts aligned and no padding crosses a
boundary. The two ways such a layout grows are `Laid.openCell` and `Laid.extend`.

Where a thing stands in a run is said once, by `place`: the list of all things, each with its offset. Its lemmas
come first (`place_append`, `place_bounds`, `exists_place`), over any list and any size function, and both the cells
and the items are then placed by it, so that a boundary and an item are compared as two offsets in one run.

`Laid.extend` is the lemma all writers rest on: a record that ends in some later cell, over full cells in between,
leaves a layout again. Its hypotheses are what a writer knows at that point, and its proof splits on whether the
boundary asked about is in front of the record, inside it, or behind it.
-/

namespace P8.Lib

section Place
variable {α : Type*} (size : α → Nat)

/-- The bytes a run of things takes. -/
def total (l : List α) : Nat := (l.map size).sum

/-- The things of a run, each with the offset it starts at. -/
def place : Nat → List α → List (Nat × α)
  | _, [] => []
  | o, a :: l => (o, a) :: place (o + size a) l

/-- Nothing takes no bytes. -/
@[simp] lemma total_nil : total size [] = 0 := rfl

/-- One thing more takes its own bytes more. -/
@[simp] lemma total_cons (a : α) (l : List α) : total size (a :: l) = size a + total size l := by
  simp [total]

/-- Two runs of things. -/
@[simp] lemma total_append (l m : List α) : total size (l ++ m) = total size l + total size m := by
  simp [total]

/-- The places in two runs, one behind the other. -/
@[simp] lemma place_append (o : Nat) (l m : List α) :
    place size o (l ++ m) = place size o l ++ place size (o + total size l) m := by
  induction l generalizing o with
  | nil => rfl
  | cons a l ih => simp [place, ih, Nat.add_assoc]

variable {size}

/-- A thing lies within its run. -/
lemma place_bounds {o : Nat} {l : List α} {x : Nat × α} (h : x ∈ place size o l) :
    o ≤ x.1 ∧ x.1 + size x.2 ≤ o + total size l := by
  induction l generalizing o with
  | nil => cases h
  | cons a l ih =>
    rw [total_cons]
    cases h with
    | head =>
      refine ⟨Nat.le_refl _, ?_⟩
      simp only
      omega
    | tail _ h =>
      have ih := ih h
      omega

/-- A thing of a run starts behind those before it. -/
lemma mem_place {o : Nat} {l : List α} {x : Nat × α} (h : x ∈ place size o l) :
    ∃ front back, l = front ++ x.2 :: back ∧ x.1 = o + total size front := by
  induction l generalizing o with
  | nil => cases h
  | cons a l ih =>
    cases h with
    | head => exact ⟨[], l, rfl, rfl⟩
    | tail _ h =>
      obtain ⟨front, back, rfl, e⟩ := ih h
      refine ⟨a :: front, back, rfl, ?_⟩
      rw [e, total_cons, Nat.add_assoc]

/-- Every thing of a run has its place. -/
lemma exists_place {o : Nat} {l : List α} {a : α} (h : a ∈ l) : ∃ x ∈ place size o l, x.2 = a := by
  induction l generalizing o with
  | nil => cases h
  | cons b l ih =>
    cases h with
    | head => exact ⟨_, .head _, rfl⟩
    | tail _ h =>
      obtain ⟨x, hx, e⟩ := ih h
      exact ⟨x, .tail _ hx, e⟩

/-- What has a place is in the run. -/
lemma mem_of_mem_place {o : Nat} {l : List α} {x : Nat × α} (h : x ∈ place size o l) : x.2 ∈ l := by
  induction l generalizing o with
  | nil => cases h
  | cons a l ih =>
    cases h with
    | head => exact .head _
    | tail _ h => exact .tail _ (ih h)

end Place

/-- A cell: how much of it is used, and whether the item at its end goes on in the next cell. -/
structure Cell where
  size : Nat
  more : Bool
  deriving DecidableEq, Repr

/-- An item: its size, how much of its front must stay in one piece, and how much of its end is padding. -/
structure Item where
  len : Nat
  head : Nat
  pad : Nat
  deriving DecidableEq, Repr

/-- `items` lie without gaps in `cells`, which are `full` where an item goes on over their end. -/
structure Laid (full align : Nat) (cells : List Cell) (items : List Item) : Prop where
  total_eq : total Cell.size cells = total Item.len items
  more_iff : ∀ x ∈ place Cell.size 0 cells, x.2.more = true ↔
    ∃ y ∈ place Item.len 0 items, y.1 < x.1 + x.2.size ∧ x.1 + x.2.size < y.1 + y.2.len
  full_eq : ∀ c ∈ cells, c.more = true → c.size = full
  start : ∀ y ∈ place Item.len 0 items, ∃ x ∈ place Cell.size 0 cells,
    x.1 ≤ y.1 ∧ y.1 + y.2.head ≤ x.1 + x.2.size ∧ (y.1 - x.1) % align = 0
  pad : ∀ y ∈ place Item.len 0 items, ∃ x ∈ place Cell.size 0 cells,
    x.1 ≤ y.1 + (y.2.len - y.2.pad) ∧ y.1 + y.2.len ≤ x.1 + x.2.size

namespace Laid
variable {full align : Nat} {cells mids : List Cell} {items : List Item} {last : Cell} {it : Item} {s : Nat}

/-- Nothing is laid over no cells. -/
lemma nil : Laid full align [] [] :=
  ⟨rfl, nofun, nofun, nofun, nofun⟩

/-- No item goes on over the end of the last cell. -/
lemma last_more (h : Laid full align (cells ++ [last]) items) : last.more = false := by
  by_contra hm
  rw [Bool.not_eq_false] at hm
  have hx : (0 + total Cell.size cells, last) ∈ place Cell.size 0 (cells ++ [last]) := by simp [place]
  obtain ⟨y, hy, _, hlt⟩ := (h.more_iff _ hx).mp hm
  have hb := place_bounds hy
  have ht := h.total_eq
  simp only [total_append, total_cons, total_nil] at ht hlt hb
  omega

/-- A cell taken into use has nothing in it yet. -/
lemma openCell (h : Laid full align cells items) : Laid full align (cells ++ [⟨0, false⟩]) items where
  total_eq := by simp [h.total_eq]
  more_iff x hx := by
    rw [place_append, List.mem_append] at hx
    cases hx with
    | inl hx => exact h.more_iff x hx
    | inr hx =>
      simp only [place, List.mem_singleton] at hx
      subst hx
      simp only [Bool.false_eq_true, false_iff]
      rintro ⟨y, hy, _, hlt⟩
      have hb := place_bounds hy
      have ht := h.total_eq
      omega
  full_eq c hc hm := by
    rw [List.mem_append] at hc
    cases hc with
    | inl hc => exact h.full_eq c hc hm
    | inr hc =>
      rw [List.mem_singleton.mp hc] at hm
      cases hm
  start y hy := by
    obtain ⟨x, hx, e⟩ := h.start y hy
    exact ⟨x, by rw [place_append]; exact List.mem_append_left _ hx, e⟩
  pad y hy := by
    obtain ⟨x, hx, e⟩ := h.pad y hy
    exact ⟨x, by rw [place_append]; exact List.mem_append_left _ hx, e⟩

/-- What the last cell of a layout held is also within the cell that takes its place, when that one holds
at least as much. -/
lemma exists_cell_of_le {c c' : Cell} {tail : List Cell} {lo hi : Nat} (hc : c.size ≤ c'.size)
    {x : Nat × Cell} (hx : x ∈ place Cell.size 0 (cells ++ [c])) (h1 : x.1 ≤ lo)
    (h2 : hi ≤ x.1 + x.2.size) :
    ∃ x' ∈ place Cell.size 0 (cells ++ c' :: tail), x'.1 = x.1 ∧ x'.1 ≤ lo ∧ hi ≤ x'.1 + x'.2.size := by
  rw [place_append, List.mem_append] at hx
  cases hx with
  | inl hx => exact ⟨x, by rw [place_append]; exact List.mem_append_left _ hx, rfl, h1, h2⟩
  | inr hx =>
    simp only [place, List.mem_singleton] at hx
    subst hx
    refine ⟨(0 + total Cell.size cells, c'), ?_, rfl, h1, Nat.le_trans h2 (Nat.add_le_add_left hc _)⟩
    rw [place_append]
    exact List.mem_append_right _ (.head _)

/-- Cells that an item fills end inside it. -/
lemma mids_inside {o e : Nat} (hmids : ∀ c ∈ mids, c.size = full)
    (he : o + total Cell.size mids < e) {x : Nat × Cell} (hx : x ∈ place Cell.size o mids) :
    o + full ≤ x.1 + x.2.size ∧ x.1 + x.2.size < e := by
  have hb := place_bounds hx
  have hs := hmids _ (mem_of_mem_place hx)
  omega

/-- The next item begins in the last cell, fills `mids` and ends in `last`. -/
lemma extend (h : Laid full align (cells ++ [⟨s, false⟩]) items) (hlast : last.more = false)
    (hmids : ∀ c ∈ mids, c.more = true ∧ c.size = full)
    (hlen : total Cell.size (mids ++ [last]) = s + it.len) (hhead : 0 < it.head)
    (hfit : s + it.head ≤ full) (hpad : it.head + it.pad ≤ it.len) (hs : s % align = 0)
    (htail : mids ≠ [] → it.pad < last.size) :
    Laid full align (cells ++ (mids ++ [last])) (items ++ [it]) := by
  have ht := h.total_eq
  have hplace : ∀ y, y ∈ place Item.len 0 (items ++ [it]) ↔
      y ∈ place Item.len 0 items ∨ y = (total Item.len items, it) := by
    intro y
    simp [place]
  simp only [total_append, total_cons, total_nil, Nat.add_zero] at ht hlen
  -- the first of the new cells takes the place of the one the item began in
  have hgrow : ∃ c tail, mids ++ [last] = c :: tail ∧ s + it.head ≤ c.size := by
    cases mids with
    | nil =>
      refine ⟨last, [], rfl, ?_⟩
      simp only [total_nil, Nat.zero_add] at hlen
      omega
    | cons m ms => exact ⟨m, ms ++ [last], rfl, by rw [(hmids m (.head _)).2]; exact hfit⟩
  obtain ⟨c, tail, hc, hcs⟩ := hgrow
  have hfirst : (0 + total Cell.size cells, c) ∈ place Cell.size 0 (cells ++ (mids ++ [last])) := by
    rw [hc, place_append]
    exact List.mem_append_right _ (.head _)
  refine ⟨by simp only [total_append, total_cons, total_nil]; omega, ?_, ?_, ?_, ?_⟩
  · intro x hx
    simp only [hplace]
    rw [place_append, place_append, List.mem_append, List.mem_append] at hx
    rcases hx with hx | hx | hx
    · -- an earlier cell ends before the new item
      have hb := place_bounds hx
      have hold := h.more_iff x (by rw [place_append]; exact List.mem_append_left _ hx)
      rw [hold]
      constructor
      · rintro ⟨y, hy, e⟩
        exact ⟨y, .inl hy, e⟩
      · rintro ⟨y, hy | rfl, e⟩
        · exact ⟨y, hy, e⟩
        · simp only at e
          omega
    · -- a filled cell ends inside the new item
      have hm := hmids _ (mem_of_mem_place hx)
      have hne : mids ≠ [] := by
        rintro rfl
        cases hx
      have hb := mids_inside (e := total Item.len items + it.len) (fun c hc => (hmids c hc).2)
        (by have := htail hne; omega) hx
      simp only [hm.1, true_iff]
      exact ⟨_, .inr rfl, by simp only; omega⟩
    · -- the last cell ends where all items end
      simp only [place, List.mem_singleton] at hx
      subst hx
      simp only [hlast, Bool.false_eq_true, false_iff]
      rintro ⟨y, hy | rfl, e⟩
      · have hb := place_bounds hy
        omega
      · simp only at e
        omega
  · intro d hd hm
    rw [List.mem_append, List.mem_append] at hd
    rcases hd with hd | hd | hd
    · exact h.full_eq d (List.mem_append_left _ hd) hm
    · exact (hmids d hd).2
    · rw [List.mem_singleton.mp hd, hlast] at hm
      cases hm
  · intro y hy
    rw [hplace] at hy
    cases hy with
    | inl hy =>
      obtain ⟨x, hx, e1, e2, e3⟩ := h.start y hy
      obtain ⟨x', hx', e0, e1, e2⟩ := exists_cell_of_le (Nat.le_trans (Nat.le_add_right _ _) hcs) hx e1 e2
      rw [hc]
      exact ⟨x', hx', e1, e2, by rw [e0]; exact e3⟩
    | inr hy =>
      subst hy
      refine ⟨_, hfirst, by simp only; omega, by simp only; omega, ?_⟩
      rw [← ht, Nat.zero_add, Nat.add_sub_cancel_left]
      exact hs
  · intro y hy
    rw [hplace] at hy
    cases hy with
    | inl hy =>
      obtain ⟨x, hx, e1, e2⟩ := h.pad y hy
      obtain ⟨x', hx', _, e1, e2⟩ := exists_cell_of_le (Nat.le_trans (Nat.le_add_right _ _) hcs) hx e1 e2
      rw [hc]
      exact ⟨x', hx', e1, e2⟩
    | inr hy =>
      subst hy
      refine ⟨(0 + total Cell.size (cells ++ mids), last), ?_, ?_, ?_⟩
      · rw [← List.append_assoc, place_append]
        exact List.mem_append_right _ (.head _)
      · cases mids with
        | nil =>
          simp only [total_append, total_nil] at hlen ⊢
          omega
        | cons m ms =>
          have := htail (List.cons_ne_nil _ _)
          rw [total_append]
          simp only
          omega
      · rw [total_append]
        simp only
        omega

end Laid

end P8.Lib
