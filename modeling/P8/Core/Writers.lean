import Mathlib.Algebra.Order.Ring.Nat
import Mathlib.Data.List.Nodup
import P8.Lib.DoublyLinked

/-!
# The list of writers

`register_writer` and `unregister_writer` of `cp8_core` (`engine/p8_core.cpp`) and the loop in which `drain_writers`
and `poll_dropped_stats` go through the writers. The list is linked through the writers, `ω`, each registered once
and then unregistered once, in any order.

The functions are those of the source on its pointers: `unregisterWriter` is `patchBefore`, `patchBehind` and the
reset of the writer's own links, and `visit` is the loop. `Links` has the pointers of a writer, and they are not
assumed to form a list.

`Inv` is what every call keeps: the pointers are a doubly linked list of the live writers in the sense of
`Lib/DoublyLinked.lean`, newest first, the pointers of all others are null, and a writer's id is the number of its
registration. It is shown for each of the two calls from what the call does to the pointers, by the lemmas of that
library about a list with one element more or less.

`writer_list` reads from it, for every proper sequence of calls, what the loop comes to, that the pointers are
inverse, the number of the writers and their ids. `writer_list_middle` is three writers of which the middle one
goes.
-/

namespace P8.WriterList
open P8.Lib

variable {ω : Type}

/-- What a writer has of the list (`cp8_tls_writer`). -/
structure Links (ω : Type) where
  muWriterId : UInt32
  mpNextWriter : Option ω
  mpPrevWriter : Option ω

/-- What the core has of the list, and its writers. -/
structure Core (ω : Type) where
  mpWritersHead : Option ω
  mzWritersCount : Nat
  muWritersSeq : UInt32
  writer : ω → Links ω

/-- A core without writers. -/
def Core.start : Core ω where
  mpWritersHead := none
  mzWritersCount := 0
  muWritersSeq := 0
  writer := fun _ => ⟨0, none, none⟩

/-- A call of the core. -/
inductive Call (ω : Type) where
  | register (w : ω)
  | unregister (w : ω)
  deriving DecidableEq

namespace Core

/-- The loop over the writers from the pointer `p`, in at most `fuel` turns: the writers it comes to, or `none` when it
has not come to an end by then. -/
def visit (s : Core ω) : Nat → Option ω → Option (List ω)
  | _, none => some []
  | 0, some _ => none
  | fuel + 1, some w => (s.visit fuel (s.writer w).mpNextWriter).map (w :: ·)

/-- The `next` pointers of all writers. -/
def next (s : Core ω) (w : ω) : Option ω := (s.writer w).mpNextWriter

/-- The `prev` pointers of all writers. -/
def prev (s : Core ω) (w : ω) : Option ω := (s.writer w).mpPrevWriter

section
variable [DecidableEq ω]

/-- A write to the fields of a writer. -/
def set (s : Core ω) (w : ω) (l : Links ω) : Core ω := { s with writer := Function.update s.writer w l }

/-- `register_writer`. -/
def registerWriter (s : Core ω) (w : ω) : Core ω :=
  let s := { s with muWritersSeq := s.muWritersSeq + 1 }
  let s := s.set w ⟨s.muWritersSeq, s.mpWritersHead, none⟩
  let s :=
    match s.mpWritersHead with
    | some h => s.set h { s.writer h with mpPrevWriter := some w }
    | none => s
  { s with mpWritersHead := some w, mzWritersCount := s.mzWritersCount + 1 }

/-- What points to a writer from the front, the writer before it or the head, points to the one behind it. -/
def patchBefore (s : Core ω) (w : ω) : Core ω :=
  match (s.writer w).mpPrevWriter with
  | some p => s.set p { s.writer p with mpNextWriter := (s.writer w).mpNextWriter }
  | none => { s with mpWritersHead := (s.writer w).mpNextWriter }

/-- The writer behind a writer points to the one before it. -/
def patchBehind (s : Core ω) (w : ω) : Core ω :=
  match (s.writer w).mpNextWriter with
  | some n => s.set n { s.writer n with mpPrevWriter := (s.writer w).mpPrevWriter }
  | none => s

/-- `unregister_writer`. -/
def unregisterWriter (s : Core ω) (w : ω) : Core ω :=
  let s := s.patchBefore w
  let s := s.patchBehind w
  let s := s.set w { s.writer w with mpNextWriter := none, mpPrevWriter := none }
  { s with mzWritersCount := s.mzWritersCount - 1 }

/-- One call. -/
def call (s : Core ω) : Call ω → Core ω
  | .register w => s.registerWriter w
  | .unregister w => s.unregisterWriter w

/-- A sequence of calls. -/
def run (calls : List (Call ω)) (s : Core ω) : Core ω := calls.foldl call s

end
end Core

namespace Call

/-- The writer that a call registers. -/
def registers : Call ω → Option ω
  | .register w => some w
  | .unregister _ => none

end Call

/-- The writers registered, oldest first. -/
def registered (calls : List (Call ω)) : List ω := calls.filterMap Call.registers

/-- Each writer is registered once, and unregistered once after that; the last calls may be missing. -/
inductive Proper : List (Call ω) → Prop
  | nil : Proper []
  | register {calls : List (Call ω)} {w : ω} : Proper calls → .register w ∉ calls → Proper (calls ++ [.register w])
  | unregister {calls : List (Call ω)} {w : ω} : Proper calls → .register w ∈ calls → .unregister w ∉ calls →
    Proper (calls ++ [.unregister w])

/-- A writer is registered by a call of its own. -/
lemma mem_registered {calls : List (Call ω)} {w : ω} : w ∈ registered calls ↔ .register w ∈ calls := by
  unfold registered
  rw [List.mem_filterMap]
  constructor
  · rintro ⟨c, hc, e⟩
    cases c with
    | register v =>
      cases e
      exact hc
    | unregister v => cases e
  · exact fun h => ⟨_, h, rfl⟩

/-- A writer is unregistered after it was registered. -/
lemma Proper.registered_of_unregistered {calls : List (Call ω)} {w : ω} (h : Proper calls)
    (hw : .unregister w ∈ calls) : .register w ∈ calls := by
  induction h with
  | nil => cases hw
  | register _ _ ih =>
    rcases List.mem_append.mp hw with hw | hw
    · exact List.mem_append_left _ (ih hw)
    · cases List.mem_singleton.mp hw
  | unregister _ hr _ ih =>
    rcases List.mem_append.mp hw with hw | hw
    · exact List.mem_append_left _ (ih hw)
    · cases List.mem_singleton.mp hw
      exact List.mem_append_left _ hr

/-- A further call of `register_writer`. -/
lemma registered_register (calls : List (Call ω)) (w : ω) :
    registered (calls ++ [.register w]) = registered calls ++ [w] :=
  List.filterMap_append

/-- A call of `unregister_writer` registers nothing. -/
lemma registered_unregister (calls : List (Call ω)) (w : ω) :
    registered (calls ++ [.unregister w]) = registered calls :=
  List.filterMap_append.trans (List.append_nil _)

/-- Each writer is registered once. -/
lemma Proper.nodup {calls : List (Call ω)} (h : Proper calls) : (registered calls).Nodup := by
  induction h with
  | nil => exact .nil
  | @register calls w _ hw ih =>
    rw [registered_register]
    exact List.nodup_append.mpr ⟨ih, List.nodup_singleton w, fun a ha b hb => by
      rw [List.mem_singleton.mp hb]
      rintro rfl
      exact hw (mem_registered.mp ha)⟩
  | unregister _ _ _ ih =>
    rw [registered_unregister]
    exact ih

/-- The loop goes through a chain and ends. -/
lemma visit_chain {s : Core ω} {q : List ω} {p : Option ω} (h : Chain s.next p q) {fuel : Nat} (hf : q.length ≤ fuel) :
    s.visit fuel p = some q := by
  induction q generalizing p fuel with
  | nil =>
    rw [show p = none from h]
    cases fuel <;> rfl
  | cons w q ih =>
    cases fuel with
    | zero => cases hf
    | succ fuel =>
      rw [h.1]
      have ih := ih h.2 (Nat.le_of_succ_le_succ hf)
      exact congrArg (Option.map (w :: ·)) ih

section
variable [DecidableEq ω]

/-- The writers registered and not unregistered, newest first. -/
def live (calls : List (Call ω)) : List ω := ((registered calls).filter (.unregister · ∉ calls)).reverse

/-- What holds of the list after the calls `calls`. -/
structure Holds (calls : List (Call ω)) (s : Core ω) : Prop where
  /-- The loop comes to just the live writers, newest first, each once, and ends. -/
  visits : ∀ fuel, (live calls).length ≤ fuel → s.visit fuel s.mpWritersHead = some (live calls)
  once : (live calls).Nodup
  inverse : ∀ v w, (s.writer v).mpNextWriter = some w ↔ (s.writer w).mpPrevWriter = some v
  count : s.mzWritersCount = (live calls).length
  unlinked : ∀ w, .unregister w ∈ calls → (s.writer w).mpNextWriter = none ∧ (s.writer w).mpPrevWriter = none
  /-- Live writers are told apart by their ids. -/
  ids : (registered calls).length < 2 ^ 32 → ∀ v ∈ live calls, (s.writer v).muWriterId ≠ 0 ∧
    ∀ w ∈ live calls, (s.writer v).muWriterId = (s.writer w).muWriterId → v = w

/-- What every call keeps: the pointers are those of the live writers, the others are null, and a writer has the number
of its registration as its id. -/
structure Inv (calls : List (Call ω)) (s : Core ω) : Prop where
  doubly : Doubly s.next s.prev s.mpWritersHead (live calls)
  out : ∀ w, w ∉ live calls → s.next w = none ∧ s.prev w = none
  count : s.mzWritersCount = (live calls).length
  seq : s.muWritersSeq = UInt32.ofNat (registered calls).length
  ids : ∀ a w b, registered calls = a ++ w :: b → (s.writer w).muWriterId = UInt32.ofNat (a.length + 1)

variable {s : Core ω} {calls : List (Call ω)} {w : ω}

/-! ## What the calls do to the pointers -/

namespace Core

/-- The links that were written. -/
lemma set_self (s : Core ω) (w : ω) (l : Links ω) : (s.set w l).writer w = l :=
  Function.update_self (β := fun _ => Links ω) w l s.writer

/-- The links of other writers stay. -/
lemma set_of_ne {u : ω} (s : Core ω) (l : Links ω) (h : u ≠ w) : (s.set w l).writer u = s.writer u :=
  Function.update_of_ne (β := fun _ => Links ω) h l s.writer

/-- A writer put in front of the list: its own pointers and the head's. -/
lemma registerWriter_spec (hw : s.mpWritersHead ≠ some w) :
    (s.registerWriter w).writer w = ⟨s.muWritersSeq + 1, s.mpWritersHead, none⟩ ∧
      ∀ u, u ≠ w → (s.registerWriter w).writer u =
        ⟨(s.writer u).muWriterId, s.next u, if s.mpWritersHead = some u then some w else s.prev u⟩ := by
  unfold registerWriter
  simp only
  have hh : (({ s with muWritersSeq := s.muWritersSeq + 1 } : Core ω).set w
      ⟨s.muWritersSeq + 1, s.mpWritersHead, none⟩).mpWritersHead = s.mpWritersHead := rfl
  rw [hh]
  cases e : s.mpWritersHead with
  | none =>
    refine ⟨set_self _ _ _, fun u hu => ?_⟩
    rw [if_neg (Option.some_ne_none u).symm]
    exact set_of_ne _ _ hu
  | some h =>
    have hne : h ≠ w := by
      rintro rfl
      exact hw e
    refine ⟨(set_of_ne _ _ hne.symm).trans (set_self _ _ _), fun u hu => ?_⟩
    by_cases huh : h = u
    · subst huh
      rw [if_pos rfl]
      show (set _ _ _).writer _ = _
      rw [set_self, set_of_ne _ _ hne]
      rfl
    · rw [if_neg fun he => huh (Option.some.inj he)]
      exact (set_of_ne _ _ (Ne.symm huh)).trans (set_of_ne _ _ hu)

/-- The counts and the head after a registration. -/
lemma registerWriter_fields (s : Core ω) (w : ω) :
    (s.registerWriter w).mpWritersHead = some w ∧ (s.registerWriter w).mzWritersCount = s.mzWritersCount + 1 ∧
      (s.registerWriter w).muWritersSeq = s.muWritersSeq + 1 := by
  refine ⟨rfl, ?_, ?_⟩
  all_goals
    unfold registerWriter
    simp only
    split <;> rfl

/-- The writer before the one that is taken out points to the one behind it. -/
lemma patchBefore_spec (s : Core ω) (w u : ω) :
    (s.patchBefore w).writer u =
      ⟨(s.writer u).muWriterId, if s.prev w = some u then s.next w else s.next u, s.prev u⟩ := by
  unfold patchBefore next prev
  cases e : (s.writer w).mpPrevWriter with
  | none =>
    rw [if_neg (Option.some_ne_none u).symm]
  | some p =>
    by_cases hu : p = u
    · subst hu
      rw [if_pos rfl]
      exact set_self _ _ _
    · rw [if_neg fun he => hu (Option.some.inj he)]
      exact set_of_ne _ _ (Ne.symm hu)

/-- The writer behind it points back to the one before it. -/
lemma patchBehind_spec (s : Core ω) (w u : ω) :
    (s.patchBehind w).writer u =
      ⟨(s.writer u).muWriterId, s.next u, if s.next w = some u then s.prev w else s.prev u⟩ := by
  unfold patchBehind next prev
  cases e : (s.writer w).mpNextWriter with
  | none =>
    rw [if_neg (Option.some_ne_none u).symm]
  | some n =>
    by_cases hu : n = u
    · subst hu
      rw [if_pos rfl]
      exact set_self _ _ _
    · rw [if_neg fun he => hu (Option.some.inj he)]
      exact set_of_ne _ _ (Ne.symm hu)

/-- A writer taken out of the list: its pointers are null, and its neighbours point to each other. -/
lemma unregisterWriter_spec (hp : s.prev w ≠ some w) (s' : Core ω) (hs : s' = s.unregisterWriter w) :
    s'.writer w = ⟨(s.writer w).muWriterId, none, none⟩ ∧
      ∀ u, u ≠ w → s'.writer u =
        ⟨(s.writer u).muWriterId, if s.prev w = some u then s.next w else s.next u,
          if s.next w = some u then s.prev w else s.prev u⟩ := by
  have hb := patchBefore_spec s w
  have hn : (s.patchBefore w).next w = s.next w := by
    rw [next, hb, if_neg hp]
  have hpw : (s.patchBefore w).prev w = s.prev w := by rw [prev, hb]
  have hbb := patchBehind_spec (s.patchBefore w) w
  rw [hn, hpw] at hbb
  have he : ∀ u, s'.writer u = (((s.patchBefore w).patchBehind w).set w
      { ((s.patchBefore w).patchBehind w).writer w with mpNextWriter := none, mpPrevWriter := none }).writer u := by
    intro u
    rw [hs]
    rfl
  constructor
  · rw [he, set_self, hbb, hb]
  · intro u hu
    rw [he, set_of_ne _ _ hu, hbb]
    show Links.mk _ ((s.patchBefore w).writer u).mpNextWriter
      (if s.next w = some u then s.prev w else ((s.patchBefore w).writer u).mpPrevWriter) = _
    rw [hb]

/-- The counts and the head after a writer is unregistered. -/
lemma unregisterWriter_fields (s : Core ω) (w : ω) :
    (s.unregisterWriter w).mpWritersHead = (match s.prev w with | none => s.next w | some _ => s.mpWritersHead) ∧
      (s.unregisterWriter w).mzWritersCount = s.mzWritersCount - 1 ∧
      (s.unregisterWriter w).muWritersSeq = s.muWritersSeq := by
  unfold unregisterWriter patchBehind patchBefore prev next
  simp only
  cases (s.writer w).mpPrevWriter with
  | none => split <;> refine ⟨?_, ?_, ?_⟩ <;> rfl
  | some p => split <;> refine ⟨?_, ?_, ?_⟩ <;> rfl

end Core

/-! ## The live writers -/

/-- A writer is live between its two calls. -/
lemma mem_live : w ∈ live calls ↔ .register w ∈ calls ∧ .unregister w ∉ calls := by
  unfold live
  rw [List.mem_reverse, List.mem_filter, mem_registered, decide_eq_true_eq]

/-- The newest writer is the first one. -/
lemma live_register (h : Proper calls) (hw : .register w ∉ calls) :
    live (calls ++ [.register w]) = w :: live calls := by
  have hnew : (.unregister w : Call ω) ∉ calls := fun hu => hw (h.registered_of_unregistered hu)
  have hkeep : ∀ v, (.unregister v ∉ calls ++ [.register w]) ↔ (.unregister v : Call ω) ∉ calls := by
    intro v
    rw [List.mem_append, List.mem_singleton, not_or]
    exact ⟨And.left, fun hv => ⟨hv, nofun⟩⟩
  unfold live
  rw [registered_register, List.filter_append, List.reverse_append, List.filter_singleton]
  simp only [hkeep, hnew, not_false_eq_true, decide_true, cond_true, List.reverse_singleton, List.singleton_append]

/-- A writer that goes leaves the others in their order. -/
lemma live_unregister (calls : List (Call ω)) (w : ω) :
    live (calls ++ [.unregister w]) = (live calls).filter (· ≠ w) := by
  unfold live
  rw [registered_unregister, List.filter_reverse, List.filter_filter]
  congr 1
  apply List.filter_congr
  intro v _
  simp [List.mem_append, and_comm]

/-- A live writer between the others, which are left when it goes. -/
lemma live_split (h : Proper calls) (hw : w ∈ live calls) :
    ∃ a b, live calls = a ++ w :: b ∧ live (calls ++ [.unregister w]) = a ++ b ∧ w ∉ a ∧ w ∉ b := by
  obtain ⟨a, b, e⟩ := List.append_of_mem hw
  have hnodup : (live calls).Nodup := List.nodup_reverse.mpr (h.nodup.filter _)
  rw [e] at hnodup
  have hnot := (List.nodup_cons.mp (List.nodup_middle.mp hnodup)).1
  rw [List.mem_append, not_or] at hnot
  have hkeep {l : List ω} (hl : w ∉ l) : l.filter (· ≠ w) = l := by
    rw [List.filter_eq_self]
    intro v hv
    rw [decide_eq_true_eq]
    rintro rfl
    exact hl hv
  refine ⟨a, b, e, ?_, hnot⟩
  rw [live_unregister, e, List.filter_append, List.filter_cons_of_neg (by simp), hkeep hnot.1, hkeep hnot.2]

/-! ## Every call keeps the list -/

namespace Inv

/-- The list before the first call. -/
lemma start : Inv ([] : List (Call ω)) Core.start where
  doubly := .nil _ _
  out _ _ := ⟨rfl, rfl⟩
  count := rfl
  seq := rfl
  ids a w b e := by cases a <;> cases e

/-- `register_writer` puts its writer in front of the list. -/
lemma register (h : Inv calls s) (hp : Proper calls) (hw : .register w ∉ calls) :
    Inv (calls ++ [.register w]) (s.registerWriter w) := by
  have hlive : w ∉ live calls := fun hl => hw (mem_live.mp hl).1
  have hne {u : ω} (hu : u ∈ live calls) : u ≠ w := by
    rintro rfl
    exact hlive hu
  have hhead : s.mpWritersHead ≠ some w := by
    rw [h.doubly.head]
    exact fun e => hlive (List.mem_of_head? e)
  obtain ⟨hself, hother⟩ := Core.registerWriter_spec hhead
  obtain ⟨hhead', hcount, hseq⟩ := Core.registerWriter_fields s w
  refine ⟨?_, fun u hu => ?_, ?_, ?_, fun a u b e => ?_⟩
  · rw [hhead', live_register hp hw]
    refine h.doubly.push hlive ⟨congrArg Links.mpNextWriter hself, congrArg Links.mpPrevWriter hself⟩ (fun u hu => ?_)
      (fun u hu => ?_) fun u hu hn => ?_
    · exact (congrArg Links.mpNextWriter (hother u (hne hu))).trans rfl
    · have hm : u ∈ live calls := List.mem_of_head? (h.doubly.head.symm.trans hu)
      exact (congrArg Links.mpPrevWriter (hother u (hne hm))).trans (if_pos hu)
    · exact (congrArg Links.mpPrevWriter (hother u (hne hu))).trans (if_neg hn)
  · rw [live_register hp hw, List.mem_cons, not_or] at hu
    have hn : s.mpWritersHead ≠ some u := by
      rw [h.doubly.head]
      exact fun e => hu.2 (List.mem_of_head? e)
    obtain ⟨e1, e2⟩ := h.out u hu.2
    exact ⟨(congrArg Links.mpNextWriter (hother u hu.1)).trans e1,
      (congrArg Links.mpPrevWriter (hother u hu.1)).trans ((if_neg hn).trans e2)⟩
  · rw [hcount, live_register hp hw, List.length_cons, h.count]
  · rw [hseq, registered_register, List.length_append, List.length_singleton, UInt32.ofNat_add, h.seq]
    rfl
  · rw [registered_register] at e
    rcases append_eq_middle e with ⟨m, rfl, hm⟩ | ⟨m, hm, -⟩
    · obtain ⟨rfl, rfl, rfl⟩ : m = [] ∧ u = w ∧ b = [] := by
        cases m with
        | nil => cases hm; exact ⟨rfl, rfl, rfl⟩
        | cons v m => cases m <;> cases hm
      rw [congrArg Links.muWriterId hself, List.append_nil, UInt32.ofNat_add, h.seq]
      rfl
    · have hu : u ≠ w := by
        rintro rfl
        exact hw (mem_registered.mp (hm ▸ List.mem_append_right _ List.mem_cons_self))
      exact (congrArg Links.muWriterId (hother u hu)).trans (h.ids a u m hm)

/-- `unregister_writer` takes its writer out of the list. -/
lemma unregister (h : Inv calls s) (hp : Proper calls) (hr : .register w ∈ calls) (hu : .unregister w ∉ calls) :
    Inv (calls ++ [.unregister w]) (s.unregisterWriter w) := by
  obtain ⟨a, b, hlive, hlive', ha, hb⟩ := live_split hp (mem_live.mpr ⟨hr, hu⟩)
  have hd := h.doubly
  rw [hlive] at hd
  obtain ⟨hnext, hprev⟩ := hd.links a w b rfl
  have hpw : s.prev w ≠ some w := by
    rw [hprev]
    exact fun e => ha (List.mem_of_getLast? e)
  obtain ⟨hself, hother⟩ := Core.unregisterWriter_spec hpw _ rfl
  obtain ⟨hhead', hcount, hseq⟩ := Core.unregisterWriter_fields s w
  have hn (u : ω) (he : u ≠ w) := congrArg Links.mpNextWriter (hother u he)
  have hb' (u : ω) (he : u ≠ w) := congrArg Links.mpPrevWriter (hother u he)
  refine ⟨?_, fun u hu => ?_, ?_, ?_, fun c u d e => ?_⟩
  · rw [hhead', hlive']
    refine hd.remove (fun u hu => ?_) (fun u hu he => ?_) (fun u hu => ?_) fun u hu he => ?_
    · have hm : u ≠ w := by
        rintro rfl
        exact hpw hu
      exact (hn u hm).trans (if_pos hu)
    · exact (hn u hu).trans (if_neg he)
    · have hm : u ≠ w := by
        rintro rfl
        rw [hnext] at hu
        exact hb (List.mem_of_head? hu)
      exact (hb' u hm).trans (if_pos hu)
    · exact (hb' u hu).trans (if_neg he)
  · by_cases he : u = w
    · subst he
      exact ⟨congrArg Links.mpNextWriter hself, congrArg Links.mpPrevWriter hself⟩
    · have hnot : u ∉ live calls := by
        rw [hlive, List.mem_append, List.mem_cons]
        rw [hlive', List.mem_append, not_or] at hu
        exact not_or.mpr ⟨hu.1, not_or.mpr ⟨he, hu.2⟩⟩
      obtain ⟨e1, e2⟩ := h.out u hnot
      have hnp : s.prev w ≠ some u := by
        rw [hprev]
        exact fun e => hu (hlive' ▸ List.mem_append_left _ (List.mem_of_getLast? e))
      have hnn : s.next w ≠ some u := by
        rw [hnext]
        exact fun e => hu (hlive' ▸ List.mem_append_right _ (List.mem_of_head? e))
      exact ⟨(hn u he).trans ((if_neg hnp).trans e1), (hb' u he).trans ((if_neg hnn).trans e2)⟩
  · rw [hcount, h.count, hlive, hlive', List.length_append, List.length_append, List.length_cons]
    omega
  · rw [hseq, registered_unregister, h.seq]
  · rw [registered_unregister] at e
    rw [← h.ids c u d e]
    by_cases he : u = w
    · subst he
      exact (congrArg Links.muWriterId hself).trans rfl
    · exact (congrArg Links.muWriterId (hother u he)).trans rfl

/-- The invariant holds after all calls. -/
lemma run (h : Proper calls) : Inv calls (Core.start.run calls) := by
  induction h with
  | nil => exact start
  | register hp hw ih =>
    unfold Core.run
    rw [List.foldl_append]
    exact ih.register hp hw
  | unregister hp hr hu ih =>
    unfold Core.run
    rw [List.foldl_append]
    exact ih.unregister hp hr hu

end Inv

/-- The list of the writers after any calls in which each writer is registered once and unregistered once. -/
theorem writer_list {calls : List (Call ω)} (h : Proper calls) : Holds calls (Core.start.run calls) := by
  have hi := Inv.run h
  have hid {v : ω} (hv : v ∈ live calls) : ∃ a b, registered calls = a ++ v :: b :=
    List.append_of_mem (mem_registered.mpr (mem_live.mp hv).1)
  refine ⟨fun fuel hf => visit_chain hi.doubly.chain hf, hi.doubly.nodup, hi.doubly.inverse hi.out, hi.count,
    fun w hw => hi.out w fun hl => (mem_live.mp hl).2 hw, fun hlt v hv => ?_⟩
  obtain ⟨a, b, e⟩ := hid hv
  have hnum {c d : List ω} {u : ω} (hc : registered calls = c ++ u :: d) :
      (UInt32.ofNat (c.length + 1)).toNat = c.length + 1 := by
    rw [hc, List.length_append, List.length_cons] at hlt
    rw [UInt32.toNat_ofNat']
    omega
  rw [hi.ids a v b e]
  constructor
  · intro hz
    have hz := congrArg UInt32.toNat hz
    rw [hnum e] at hz
    cases hz
  · intro w hw hvw
    obtain ⟨c, d, e'⟩ := hid hw
    rw [hi.ids c w d e'] at hvw
    have hlen := congrArg UInt32.toNat hvw
    rw [hnum e, hnum e'] at hlen
    obtain ⟨-, hcons⟩ := List.append_inj (e.symm.trans e') (Nat.succ.inj hlen)
    exact (List.cons.inj hcons).1

/-- Three writers, of which the middle one goes. -/
theorem writer_list_middle :
    Holds [.register 1, .register 2, .register 3, .unregister 2]
      ((Core.start : Core Nat).run [.register 1, .register 2, .register 3, .unregister 2]) := by
  have h1 : Proper ([] ++ [Call.register 1]) := .register .nil (by decide)
  have h2 : Proper ([.register 1] ++ [.register 2]) := .register h1 (by decide)
  have h3 : Proper ([.register 1, .register 2] ++ [.register 3]) := .register h2 (by decide)
  exact writer_list (h3.unregister (w := 2) (by decide) (by decide))

end

end P8.WriterList
