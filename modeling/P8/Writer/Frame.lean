import P8.Writer.Rule
import P8.Writer.Stream

/-!
# What writing leaves alone

The functions that write a record change the buffers and the attribute cache of their writer only, found or not
found a buffer. The drop counters among the rest change where a call gives up its record and nowhere else.

`Leaves pen w` says of the end of a step, a value or a pen that is stuck, that the owner and the counts of `w` are
still those (`SameOwner`). It is the case of the rule for the functions that write in which both `I` and `E` are
this frame (`sameOwner_rule`), so only a copy, a rotation and the cache are looked at one by one; the rest follows
by `leaves_of_endsIn`. The other steps of a writer, from opening a buffer to `discard`, have a lemma each.
-/

namespace P8
open P8.Lib

/-- The rest of the writer `w` is left alone by a step of a record that ends in a value with a pen `pen`, or in the
pen with which it found no buffer. -/
def Leaves {α : Type} (pen : α → Pen) (w : Writer) : Except Pen α → Prop
  | .ok a => SameOwner w (pen a).w
  | .error q => SameOwner w q.w

/-- What comes before leaves the rest of the writer alone, too. -/
lemma Leaves.of_sameOwner {α : Type} {pen : α → Pen} {w w' : Writer} {r : Except Pen α} (h : Leaves pen w' r)
    (ho : SameOwner w w') : Leaves pen w r := by
  cases r with
  | ok a => exact ho.trans h
  | error q => exact ho.trans h

namespace SameOwner

/-- Parking leaves the owner and the counts. -/
lemma park (w : Writer) : SameOwner w w.park := ⟨rfl, rfl, rfl, rfl, rfl, rfl⟩

/-- So does a buffer that is opened. -/
lemma openBuffer (w : Writer) (ty : UInt8) (m : Mem) : SameOwner w (w.openBuffer ty m) :=
  ⟨rfl, rfl, rfl, rfl, rfl, rfl⟩

/-- So does the size in its header. -/
lemma setUsed (w : Writer) (n : Nat) : SameOwner w (w.setUsed n) := ⟨rfl, rfl, rfl, rfl, rfl, rfl⟩

/-- So do bytes in it. -/
lemma put (p : Pen) (bs : List UInt8) : SameOwner p.w (p.put bs).w := ⟨rfl, rfl, rfl, rfl, rfl, rfl⟩

/-- So does the wait for a buffer. -/
lemma waitBuffer (pulled : Bool) (waited : Option Mem) (ty : UInt8) (w : Writer) :
    SameOwner w (P8.waitBuffer pulled waited ty w).1 := by
  have hp : SameOwner w (if pulled then P8.pull w else (w, [])).1 := by
    cases pulled with
    | false => exact .refl w
    | true => exact .pull w
  unfold P8.waitBuffer
  cases waited with
  | none => exact hp
  | some m => exact hp.trans (.openBuffer _ ty m)

/-- So does the search for a buffer to begin in. -/
lemma currentBuffer (pulled : Bool) (waited : Option Mem) (ty : UInt8) (w : Writer) :
    SameOwner w (P8.currentBuffer pulled waited ty w).1 := by
  unfold P8.currentBuffer
  cases w.mpBuffer with
  | none => exact .waitBuffer pulled waited ty w
  | some b => exact .refl w

/-- Giving buffers back leaves the rest of the writer alone. -/
lemma discard (w : Writer) (lzFragCommit off : Nat) : SameOwner w (P8.discard w lzFragCommit off).1 := by
  unfold P8.discard
  simp only
  split
  · exact ⟨rfl, rfl, rfl, rfl, rfl, rfl⟩
  · split <;> exact ⟨rfl, rfl, rfl, rfl, rfl, rfl⟩

end SameOwner

/-- A rotation leaves the rest of the writer alone. -/
lemma leaves_rotateFragmentBuffer (p : Pen) : Leaves id p.w (rotateFragmentBuffer p) := by
  unfold rotateFragmentBuffer
  split
  · exact .refl _
  · simp only
    split <;> exact ⟨rfl, rfl, rfl, rfl, rfl, rfl⟩

/-- So does the way to the next buffer. -/
lemma leaves_nextBuffer (p : Pen) : Leaves id p.w p.nextBuffer := by
  have h := (leaves_rotateFragmentBuffer { p with w := { p.w with mzBufUsed := p.dst } }).of_sameOwner (w := p.w)
    ⟨rfl, rfl, rfl, rfl, rfl, rfl⟩
  unfold Pen.nextBuffer
  generalize rotateFragmentBuffer { p with w := { p.w with mzBufUsed := p.dst } } = r at h ⊢
  cases r with
  | ok q => exact h
  | error q => exact h

/-- The rest of the writer is left alone however much is written. -/
lemma sameOwner_rule (w : Writer) : WriteRule (fun q => SameOwner w q.w) fun q => SameOwner w q.w where
  put p bs h := h.trans (.put p bs)
  next p h := by
    have hn := (leaves_nextBuffer p).of_sameOwner h
    cases e : p.nextBuffer with
    | ok q =>
      rw [e] at hn
      exact hn
    | error q =>
      rw [e] at hn
      exact hn

/-- What a rule says of the owner at the end of a step. -/
lemma leaves_of_endsIn {α : Type} {pen : α → Pen} {w : Writer} {r : Except Pen α}
    (h : EndsIn (fun q => SameOwner w q.w) (fun q => SameOwner w q.w) pen r) : Leaves pen w r := by
  cases r with
  | ok a => exact h
  | error q => exact h

/-- `serializeAttrs` leaves the rest of the writer alone. -/
lemma SameOwner.serializeAttrs (reg : List AttrType) (izRecord : Nat) (attrs : List AttrVal) (p : Pen)
    (r : AttrsResult) : SameOwner p.w (P8.serializeAttrs reg izRecord attrs p r).1.w := by
  have hcache : ∀ (q : Pen) c, SameOwner p.w q.w → SameOwner p.w { q.w with moAttrCache := c } := fun q c h =>
    ⟨h.core, h.thread, h.writer, h.logs, h.metrics, h.traces⟩
  rcases (sameOwner_rule p.w).serializeAttrs hcache reg izRecord attrs (.refl _) r with ⟨h, _⟩ | ⟨h, _⟩
  · exact h
  · exact h

end P8
