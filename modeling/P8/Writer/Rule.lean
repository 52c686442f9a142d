import P8.Writer.Tls

/-!
# A rule for the functions that write

The functions that write a record change their pen by copies into the current buffer, by rotations to the next one
and by what they learn of the attributes. What these keep, `I`, is kept by all of them, and what holds when a
rotation finds no buffer, `E`, holds of the pen they fail with.

`WriteRule I E` asks for the two primitive steps, `put` and `nextBuffer`; the attribute cache is a third one, asked
for where attributes are written. The lemmas go up through the functions of the source, one for each
(`WriteRule.copyFragmented`, `writePiece`, `copyPieces`, `writeAttr`, `serializeAttrs`), by the induction of the
function. A property of all that a record does to its writer is then shown for three steps: the owner of a writer,
the number of its buffers, the stamps in their headers.
-/

namespace P8

/-- What a step of a record ends in: `I` holds of the pen `pen` of its value, or `E` of the pen with which it found no
buffer. -/
def EndsIn (I E : Pen → Prop) {α : Type} (pen : α → Pen) : Except Pen α → Prop
  | .ok a => I (pen a)
  | .error q => E q

/-- `I` is kept by copies and by rotations, and a rotation that finds no buffer leaves `E`. -/
structure WriteRule (I E : Pen → Prop) : Prop where
  put : ∀ p bs, I p → I (p.put bs)
  next : ∀ p, I p → EndsIn I E id p.nextBuffer

/-- What a record learns of the attributes changes the writer's cache only. -/
lemma attrType_cacheOnly (reg : List AttrType) (w : Writer) (id : Int32) :
    ∃ c, (attrType reg w id).1 = { w with moAttrCache := c } := by
  unfold attrType syncAttrCache
  split
  · exact ⟨_, rfl⟩
  · simp only
    split
    · split
      · exact ⟨_, rfl⟩
      · exact ⟨_, rfl⟩
    · exact ⟨_, rfl⟩

namespace WriteRule
variable {I E : Pen → Prop}

/-- `copyFragmented`, whatever it has to split. -/
lemma copyFragmented (h : WriteRule I E) {p : Pen} (hp : I p) (src : List UInt8) (n : Nat) :
    EndsIn I E Prod.fst (copyFragmented p src n) := by
  fun_induction P8.copyFragmented p src n with
  | case1 p src n _ => exact hp
  | case2 p src n _ _ q hq =>
    have hn := h.next p hp
    rw [hq] at hn
    exact hn
  | case3 p src n _ _ q hq lzCopy ih =>
    have hn := h.next p hp
    rw [hq] at hn
    exact ih (h.put q _ hn)
  | case4 p src n _ _ lzCopy ih => exact ih (h.put p _ hp)

/-- A piece that fits is copied at once, another one over the ends of buffers. -/
lemma writePiece (h : WriteRule I E) {p : Pen} (hp : I p) (src : List UInt8) (n : Nat) :
    EndsIn I E Prod.fst (writePiece p src n) := by
  unfold P8.writePiece
  split
  · exact h.put p src hp
  · exact h.copyFragmented hp src n

/-- Pieces are copied one behind the other. -/
lemma copyPieces (h : WriteRule I E) {p : Pen} (hp : I p) (pieces : List (List UInt8)) :
    EndsIn I E id (copyPieces p pieces) := by
  induction pieces generalizing p with
  | nil => exact hp
  | cons s ss ih =>
    have hs := h.copyFragmented hp s 0
    unfold P8.copyPieces
    cases e : P8.copyFragmented p s 0 with
    | error q =>
      rw [e] at hs
      exact hs
    | ok r =>
      rw [e] at hs
      exact ih hs

/-- An attribute is copied at once when it fits, and piece by piece otherwise. -/
lemma writeAttr (h : WriteRule I E) {p : Pen} (hp : I p) (pieces : List (List UInt8)) :
    EndsIn I E id (writeAttr p pieces) := by
  unfold P8.writeAttr
  split
  · exact h.put p _ hp
  · exact h.copyPieces hp pieces

/-- `serializeAttrs` ends with `I`, or is not done and ends with `E`. -/
lemma serializeAttrs (h : WriteRule I E)
    (hcache : ∀ (p : Pen) c, I p → I { p with w := { p.w with moAttrCache := c } }) (reg : List AttrType)
    (izRecord : Nat) (attrs : List AttrVal) {p : Pen} (hp : I p) (r : AttrsResult) :
    let q := serializeAttrs reg izRecord attrs p r
    I q.1 ∧ q.2.mbDone = r.mbDone ∨ E q.1 ∧ q.2.mbDone = false := by
  induction attrs generalizing p r with
  | nil => exact .inl ⟨hp, rfl⟩
  | cons a as ih =>
    unfold P8.serializeAttrs
    split
    · obtain ⟨c, hc⟩ := attrType_cacheOnly reg p.w a.mId
      simp only
      generalize attrType reg p.w a.mId = q at hc ⊢
      obtain ⟨w, ty⟩ := q
      cases hc
      have hp := hcache p c hp
      simp only
      split
      · exact ih hp r
      · rename_i pieces _
        have ha := h.writeAttr hp pieces
        cases e : P8.writeAttr { p with w := { p.w with moAttrCache := c } } pieces with
        | error q =>
          rw [e] at ha
          exact .inr ⟨ha, rfl⟩
        | ok q =>
          rw [e] at ha
          exact ih ha { r with muCount := r.muCount + 1, mzBytes := r.mzBytes + pieces.flatten.length }
    · exact .inl ⟨hp, rfl⟩

end WriteRule

end P8
