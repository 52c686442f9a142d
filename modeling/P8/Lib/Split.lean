import Mathlib.Data.List.Basic
import P8.Lib.Layout

/-!
# Layouts cut between cells

Where a cell of a layout (`Laid`) is not marked, the items before its end and those behind it lie in different cells
(`Laid.front`); where no item may be split at all, this is so behind every cell (`Laid.parts`). Both are used by
readers, who get some of the cells first.

The lemmas on places come first: an offset in a run is where a thing starts, within one, or at the end
(`exists_cut`), and a run can be cut in parts of given sizes when no boundary falls into a thing (`exists_parts`). A
boundary that is not marked meets none, by the definition of a layout.

The second part is about memories of parts that say at their front how long they are (`Sized`). `splitSized` walks
from size to size and refuses a part that is empty, cut off or shorter than the least one; on joined parts it gives
the parts back (`splitSized_flatten`). It recurses on what is left of the memory, so it ends on every input.
-/

namespace P8.Lib

section Place
variable {α : Type*} {size : α → Nat}

/-- An offset in a run is where a thing starts, or within one, or at the end. -/
lemma exists_cut (l : List α) (o n : Nat) (h : n ≤ total size l) :
    (∃ l₁ l₂, l = l₁ ++ l₂ ∧ total size l₁ = n) ∨
      ∃ y ∈ place size o l, y.1 < o + n ∧ o + n < y.1 + size y.2 := by
  induction l generalizing o n with
  | nil =>
    rw [total_nil] at h
    exact .inl ⟨[], [], rfl, (Nat.le_zero.mp h).symm⟩
  | cons a l ih =>
    rw [total_cons] at h
    cases n with
    | zero => exact .inl ⟨[], a :: l, rfl, rfl⟩
    | succ n =>
      by_cases ha : size a ≤ n + 1
      · rcases ih (o + size a) (n + 1 - size a) (by omega) with ⟨l₁, l₂, rfl, e⟩ | ⟨y, hy, h1, h2⟩
        · refine .inl ⟨a :: l₁, l₂, rfl, ?_⟩
          rw [total_cons, e]
          omega
        · exact .inr ⟨y, .tail _ hy, by omega, by omega⟩
      · refine .inr ⟨(o, a), .head _, Nat.lt_add_of_pos_right (Nat.succ_pos n), ?_⟩
        exact Nat.add_lt_add_left (Nat.not_le.mp ha) o

/-- Two things of a run, the first of which does not end before the second begins, are in that order or the same. -/
lemma place_order {o : Nat} {l : List α} {x y : Nat × α} (hx : x ∈ place size o l) (hy : y ∈ place size o l)
    (h : x.1 < y.1 + size y.2) : x = y ∨ x.1 + size x.2 ≤ y.1 := by
  induction l generalizing o with
  | nil => cases hx
  | cons a l ih =>
    cases hx with
    | head =>
      cases hy with
      | head => exact .inl rfl
      | tail _ hy => exact .inr (place_bounds hy).1
    | tail _ hx =>
      cases hy with
      | head =>
        have hb := (place_bounds hx).1
        exact absurd h (Nat.not_lt.mpr hb)
      | tail _ hy => exact ih hx hy

/-- The places of a run that is mapped. -/
lemma place_map {β : Type*} {f : β → α} (o : Nat) (l : List β) :
    place size o (l.map f) = (place (size ∘ f) o l).map fun x => (x.1, f x.2) := by
  induction l generalizing o with
  | nil => rfl
  | cons b l ih => exact congrArg (_ :: ·) (ih _)

/-- A run of things of some size that is nowhere within one of them where it is cut falls into parts. -/
lemma exists_parts {sizes : List Nat} {l : List α} (o : Nat) (htotal : total size l = sizes.sum)
    (hpos : ∀ a ∈ l, 0 < size a)
    (hcut : ∀ pre post, sizes = pre ++ post → ∀ y ∈ place size o l,
      ¬(y.1 < o + pre.sum ∧ o + pre.sum < y.1 + size y.2)) :
    ∃ parts : List (List α), parts.flatten = l ∧ parts.map (total size) = sizes := by
  induction sizes generalizing l o with
  | nil =>
    cases l with
    | nil => exact ⟨[], rfl, rfl⟩
    | cons a l =>
      have ha := hpos a (.head _)
      rw [total_cons, List.sum_nil] at htotal
      omega
  | cons n sizes ih =>
    rw [List.sum_cons] at htotal
    have hn : n ≤ total size l := by omega
    rcases exists_cut l o n hn with ⟨l₁, l₂, rfl, e⟩ | ⟨y, hy, hlt⟩
    · rw [total_append, e] at htotal
      obtain ⟨parts, rfl, hp⟩ := ih (o + n) (l := l₂) (by omega)
        (fun a ha => hpos a (List.mem_append_right _ ha)) fun pre post hs y hy hlt => by
          refine hcut (n :: pre) post (congrArg (n :: ·) hs) y ?_ ?_
          · rw [place_append, e]
            exact List.mem_append_right _ hy
          · rw [List.sum_cons, ← Nat.add_assoc]
            exact hlt
      exact ⟨l₁ :: parts, rfl, by rw [List.map_cons, e, hp]⟩
    · refine absurd ?_ (hcut [n] sizes rfl y hy)
      rw [List.sum_singleton]
      exact hlt

end Place

namespace Laid
variable {full align : Nat} {cells cells' : List Cell} {items : List Item}

/-- No item goes on over the end of a cell that is not marked. -/
lemma not_over (h : Laid full align (cells ++ cells') items)
    (hlast : ∀ c, cells.getLast? = some c → c.more = false) :
    ∀ y ∈ place Item.len 0 items,
      ¬(y.1 < 0 + total Cell.size cells ∧ 0 + total Cell.size cells < y.1 + y.2.len) := by
  intro y hy hlt
  rcases List.eq_nil_or_concat' cells with rfl | ⟨bs, c, rfl⟩
  · exact absurd hlt.1 (Nat.not_lt_zero _)
  · have hmem : (0 + total Cell.size bs, c) ∈ place Cell.size 0 ((bs ++ [c]) ++ cells') := by
      rw [place_append, place_append]
      exact List.mem_append_left _ (List.mem_append_right _ (.head _))
    have hm := (h.more_iff _ hmem).mpr ⟨y, hy, by
      simpa only [total_append, total_cons, total_nil, Nat.add_zero, Nat.add_assoc] using hlt⟩
    cases hm.symm.trans (hlast c List.getLast?_concat)

/-- The front of a layout that no item goes on over is a layout of its own. -/
lemma of_append {items' : List Item} (h : Laid full align (cells ++ cells') (items ++ items'))
    (htotal : total Item.len items = total Cell.size cells) (hpos : ∀ it ∈ items, 0 < it.len) :
    Laid full align cells items where
  total_eq := htotal.symm
  more_iff x hx := by
    have hb := (place_bounds hx).2
    rw [h.more_iff x (by rw [place_append]; exact List.mem_append_left _ hx)]
    constructor
    · rintro ⟨y, hy, h1, h2⟩
      rw [place_append, List.mem_append] at hy
      rcases hy with hy | hy
      · exact ⟨y, hy, h1, h2⟩
      · have hy := (place_bounds hy).1
        omega
    · rintro ⟨y, hy, hlt⟩
      exact ⟨y, by rw [place_append]; exact List.mem_append_left _ hy, hlt⟩
  full_eq c hc := h.full_eq c (List.mem_append_left _ hc)
  start y hy := by
    have hb := (place_bounds hy).2
    have hlen := hpos y.2 (mem_of_mem_place hy)
    obtain ⟨x, hx, h1, h2, h3⟩ := h.start y (by rw [place_append]; exact List.mem_append_left _ hy)
    rw [place_append, List.mem_append] at hx
    rcases hx with hx | hx
    · exact ⟨x, hx, h1, h2, h3⟩
    · have hx := (place_bounds hx).1
      omega
  pad y hy := by
    have hb := place_bounds hy
    have hlen := hpos y.2 (mem_of_mem_place hy)
    obtain ⟨x, hx, h1, h2⟩ := h.pad y (by rw [place_append]; exact List.mem_append_left _ hy)
    rw [place_append, List.mem_append] at hx
    rcases hx with hx | hx
    · exact ⟨x, hx, h1, h2⟩
    · -- an item without padding at the end of the front ends in the last cell there
      have hx := (place_bounds hx).1
      rcases List.eq_nil_or_concat' cells with rfl | ⟨bs, c, rfl⟩
      · rw [total_nil] at htotal
        omega
      · rw [total_append, total_cons, total_nil] at htotal hx
        refine ⟨(0 + total Cell.size bs, c), ?_, ?_, ?_⟩
        · rw [place_append]
          exact List.mem_append_right _ (.head _)
        · show 0 + total Cell.size bs ≤ _
          omega
        · show _ ≤ 0 + total Cell.size bs + c.size
          omega

/-- Behind a cell that is not marked the layout falls into two. -/
lemma front (h : Laid full align (cells ++ cells') items) (hlast : ∀ c, cells.getLast? = some c → c.more = false)
    (hpos : ∀ it ∈ items, 0 < it.len) :
    ∃ items₁ items₂, items = items₁ ++ items₂ ∧ Laid full align cells items₁ := by
  have hle : total Cell.size cells ≤ total Item.len items := by
    rw [← h.total_eq, total_append]
    exact Nat.le_add_right _ _
  rcases exists_cut items 0 (total Cell.size cells) hle with ⟨items₁, items₂, rfl, ht⟩ | ⟨y, hy, hlt⟩
  · exact ⟨items₁, items₂, rfl, h.of_append ht fun it hit => hpos it (List.mem_append_left _ hit)⟩
  · exact absurd hlt (h.not_over hlast y hy)

/-- Items that may not be split at all go on over the end of no cell. -/
lemma unmarked (h : Laid full align cells items) (hhead : ∀ it ∈ items, it.head = it.len) :
    ∀ c ∈ cells, c.more = false := by
  intro c hc
  have hx : ∃ x ∈ place Cell.size 0 cells, x.2 = c := exists_place hc
  obtain ⟨x, hx, rfl⟩ := hx
  by_contra hm
  rw [Bool.not_eq_false] at hm
  obtain ⟨y, hy, h1, h2⟩ := (h.more_iff x hx).mp hm
  obtain ⟨x', hx', h3, h4, -⟩ := h.start y hy
  rw [hhead _ (mem_of_mem_place hy)] at h4
  -- the cell of the item would have to end behind `x` and begin before its end
  rcases place_order hx' hx (by omega) with rfl | h5 <;> omega

/-- Where no cell is marked each has its own items. -/
lemma parts {α : Type*} {f : α → Item} {l : List α} (h : Laid full align cells (l.map f))
    (hmore : ∀ c ∈ cells, c.more = false) (hpos : ∀ a ∈ l, 0 < (f a).len) :
    ∃ parts : List (List α), parts.flatten = l ∧
      parts.map (total fun a => (f a).len) = cells.map Cell.size := by
  refine exists_parts 0 ?_ hpos fun pre post he y hy => ?_
  · have ht := h.total_eq
    rw [total, total, List.map_map] at ht
    exact ht.symm
  · obtain ⟨front, back, rfl, rfl, -⟩ := List.map_eq_append_iff.mp he
    refine h.not_over (fun c hc => hmore c (List.mem_append_left _ (List.mem_of_mem_getLast? hc))) (y.1, f y.2) ?_
    rw [place_map]
    exact List.mem_map_of_mem hy

end Laid

section Sized
variable {α : Type*} {least : Nat} {sizeAt : List α → Nat}

/-- The parts of a memory; one that is shorter than `least`, empty or cut off ends the walk. -/
def splitSized (least : Nat) (sizeAt : List α → Nat) : List α → Option (List (List α))
  | [] => some []
  | a :: as =>
    let n := sizeAt (a :: as)
    if _h : n = 0 ∨ n < least ∨ (a :: as).length < n then none
    else (splitSized least sizeAt ((a :: as).drop n)).map ((a :: as).take n :: ·)
termination_by l => l.length
decreasing_by
  rw [not_or, not_or, Nat.not_lt, Nat.not_lt] at _h
  rw [List.length_drop]
  exact Nat.sub_lt (Nat.succ_pos _) (Nat.pos_of_ne_zero _h.1)

/-- A part says how long it is, whatever is behind it. -/
structure Sized (least : Nat) (sizeAt : List α → Nat) (part : List α) : Prop where
  pos : 0 < part.length
  le : least ≤ part.length
  size : ∀ rest, sizeAt (part ++ rest) = part.length

/-- A walk goes over a part. -/
lemma splitSized_append {part : List α} (h : Sized least sizeAt part) (rest : List α) :
    splitSized least sizeAt (part ++ rest) = (splitSized least sizeAt rest).map (part :: ·) := by
  have hsize := h.size rest
  obtain ⟨a, as, rfl⟩ := List.exists_cons_of_length_pos h.pos
  have hle : (a :: as).length ≤ (a :: as ++ rest).length := by
    rw [List.length_append]
    exact Nat.le_add_right _ _
  have hgo : ¬((a :: as).length = 0 ∨ (a :: as).length < least ∨ (a :: as ++ rest).length < (a :: as).length) := by
    rintro (e | e | e)
    · exact absurd e (Nat.ne_of_gt h.pos)
    · exact absurd h.le (Nat.not_le.mpr e)
    · exact absurd hle (Nat.not_le.mpr e)
  rw [List.cons_append] at hsize hgo ⊢
  rw [splitSized]
  simp only [hsize, dif_neg hgo]
  rw [← List.cons_append, List.take_left, List.drop_left]

/-- A memory of sized parts is split into them. -/
lemma splitSized_flatten {parts : List (List α)} (h : ∀ p ∈ parts, Sized least sizeAt p) :
    splitSized least sizeAt parts.flatten = some parts := by
  induction parts with
  | nil => rw [List.flatten_nil, splitSized]
  | cons p parts ih =>
    rw [List.flatten_cons, splitSized_append (h p (.head _)), ih fun q hq => h q (.tail _ hq)]
    rfl

end Sized

end P8.Lib
