import P8.Writer.Tls

/-!
# Writing one record

What a call that writes a record can do to its writer. `Writing` relates the writer as the record began to the
locals in the middle of it: the buffers the record has filled, the one it is in, and the bytes written so far.
`Stuck` is the state after a rotation found no buffer, `discard` undoes it.

The record began in the buffer `b` of the writer `w` (`Begins`). The buffers it filled since are continuations of
that one: their headers are its own but for their number (`tailHdr`), and all but the last are full. `Wrote w b
bytes p` says that there are such buffers, `Lost w b p` that the pen is stuck; `PieceEnds` and `RecordEnds` are what
a copy ends in, one of the two.

There is a lemma for each function that writes, with what is written appended (`Wrote.put`, `Wrote.copyFragmented`,
`Wrote.copyPieces`, `Wrote.writeAttr`), whether it goes the short way within a buffer or the long way over its end;
`Wrote.poke` is for a header that is finished through a pointer into a buffer that is already parked. `Lost.discard`
closes the module: the writer has the buffers it had before, and the first one its bytes.
-/

namespace P8
open P8.Lib

/-- A copy within a buffer. -/
lemma Mem.write_bytes {m : Mem} {o : Nat} {bs : List UInt8} (h : o + bs.length ≤ bodySize) :
    (m.write o bs).bytes = splice m.bytes o bs := by
  simp [Mem.write, h]

/-- Header of the `i`-th buffer of a record that began in a buffer with header `h`, once it is full. -/
def fullHdr (h : DataBufHdr) (i : Nat) : DataBufHdr :=
  { h with muFlags := dataFlagFragment, muSize := UInt16.ofNat mzDataBufferSize,
           muBufSeq := h.muBufSeq + UInt32.ofNat i }

/-- Header of the `i`-th buffer of such a record while it is written to. -/
def tailHdr (h : DataBufHdr) : Nat → DataBufHdr
  | 0 => h
  | i + 1 => { h with muSize := UInt16.ofNat sizeofDataBufHdr,
                      muBufSeq := h.muBufSeq + UInt32.ofNat (i + 1) }

/-- A record can begin in `b`, the current buffer of `w`. -/
structure Begins (w : Writer) (b : DataBuf) : Prop where
  buffer : w.mpBuffer = some b
  used : b.used = w.mzBufUsed
  lo : sizeofDataBufHdr ≤ b.used
  hi : b.used ≤ mzDataBufferSize
  flags : b.hdr.muFlags = 0
  thread : b.hdr.muThreadId = w.muThreadId
  writer : b.hdr.muWriterId = w.muWriterId
  seq : w.muBufSeq = b.hdr.muBufSeq + 1

/-- A record that began in `b` has written `bytes`: it filled `mids` and is in `cur`. -/
structure Writing (w : Writer) (b : DataBuf) (mids : List DataBuf) (cur : DataBuf)
    (bytes : List UInt8) (p : Pen) : Prop where
  frame : p.w = { w with moFragments := w.moFragments ++ mids, mpBuffer := some cur,
                         mzBufUsed := p.w.mzBufUsed,
                         muBufSeq := b.hdr.muBufSeq + UInt32.ofNat (mids.length + 1) }
  mids_hdr : mids.map (·.hdr) = (List.range mids.length).map (fullHdr b.hdr)
  cur_hdr : cur.hdr = tailHdr b.hdr mids.length
  content : mids.flatMap (·.body.bytes) ++ cur.body.bytes.take (p.dst - sizeofDataBufHdr)
    = b.payload ++ bytes
  lo : sizeofDataBufHdr ≤ p.dst
  hi : p.dst ≤ mzDataBufferSize

/-- A record that began in `b` filled `mids` and found no buffer to continue in. -/
structure Stuck (w : Writer) (b : DataBuf) (mids : List DataBuf) (q : Pen) : Prop where
  frame : q.w = { w with moFragments := w.moFragments ++ mids, mpBuffer := none,
                         mzBufUsed := q.w.mzBufUsed,
                         muBufSeq := b.hdr.muBufSeq + UInt32.ofNat mids.length }
  mids_hdr : mids.map (·.hdr) = (List.range mids.length).map (fullHdr b.hdr)
  nonempty : mids ≠ []
  content : (mids.flatMap (·.body.bytes)).take b.payload.length = b.payload

/-- The payload of a buffer is what is behind its header. -/
lemma length_payload {b : DataBuf} (h : b.used ≤ mzDataBufferSize) :
    b.payload.length = b.used - sizeofDataBufHdr := by
  simp only [DataBuf.payload, List.length_take, b.body.len, bodySize]
  omega

/-- Full buffers have the bytes of their bodies. -/
lemma length_bodies (mids : List DataBuf) :
    (mids.flatMap (·.body.bytes)).length = bodySize * mids.length := by
  induction mids with
  | nil => rfl
  | cons b mids ih =>
    simp only [List.flatMap_cons, List.length_append, ih, b.body.len, List.length_cons, Nat.mul_succ]
    omega

/-- The locals of a record that has written nothing yet. -/
lemma Begins.writing {w b} (h : Begins w b) (taken : List (Option Mem)) :
    Writing w b [] b [] ⟨w, w.mzBufUsed, taken⟩ where
  frame := by
    have e1 := h.buffer
    have e2 := h.seq
    cases w
    simp only at e1 e2
    simp [e1, e2]
  mids_hdr := rfl
  cur_hdr := rfl
  content := by simp [DataBuf.payload, ← h.used]
  lo := by rw [← h.used]; exact h.lo
  hi := by rw [← h.used]; exact h.hi

namespace Writing
variable {w : Writer} {b : DataBuf} {mids : List DataBuf} {cur : DataBuf} {bytes : List UInt8} {p : Pen}

/-- In the middle of a record the current buffer is the last one. -/
lemma buffer (h : Writing w b mids cur bytes p) : p.w.mpBuffer = some cur := by
  rw [h.frame]

/-- The write pointer by the number of bytes written. -/
lemma dst_eq (h : Writing w b mids cur bytes p) (hb : b.used ≤ mzDataBufferSize) :
    bodySize * mids.length + (p.dst - sizeofDataBufHdr)
      = (b.used - sizeofDataBufHdr) + bytes.length := by
  have e := congrArg List.length h.content
  have hi := h.hi
  simp only [List.length_append, length_bodies, length_payload hb, List.length_take, cur.body.len,
    bodySize] at e ⊢
  omega

/-- The attribute cache is no part of what a record writes. -/
lemma cache (h : Writing w b mids cur bytes p) (c : List AttrType) :
    Writing { w with moAttrCache := c } b mids cur bytes
      { p with w := { p.w with moAttrCache := c } } where
  frame := by rw [h.frame]
  mids_hdr := h.mids_hdr
  cur_hdr := h.cur_hdr
  content := h.content
  lo := h.lo
  hi := h.hi

/-- A piece that fits the buffer. -/
lemma put (h : Writing w b mids cur bytes p) {bs : List UInt8} (hs : bs.length ≤ p.space) :
    Writing w b mids (cur.write p.dst bs) (bytes ++ bs) (p.put bs) := by
  have lo := h.lo
  have hi := h.hi
  simp only [Pen.space] at hs
  have hw : p.dst - sizeofDataBufHdr + bs.length ≤ bodySize := by
    simp only [bodySize, mzDataBufferSize, sizeofDataBufHdr] at *
    omega
  have hp : p.dst + bs.length - sizeofDataBufHdr = p.dst - sizeofDataBufHdr + bs.length := by omega
  refine ⟨?_, h.mids_hdr, h.cur_hdr, ?_, ?_, ?_⟩
  · rw [Pen.put, h.frame]
    simp
  · rw [Pen.put, DataBuf.write, Mem.write_bytes hw, hp,
      take_splice (by rw [cur.body.len]; exact hw), ← List.append_assoc, h.content, List.append_assoc]
  · simp only [Pen.put]
    omega
  · simp only [Pen.put]
    omega

end Writing

/-- A continuation has the flags of the buffer in which the record begins. -/
lemma tailHdr_flags (h : DataBufHdr) (i : Nat) : (tailHdr h i).muFlags = h.muFlags := by
  cases i <;> rfl

/-- A buffer that is full as the record continues. -/
lemma markFragment_hdr {h : DataBufHdr} {c : DataBuf} {i : Nat} (hf : h.muFlags = 0)
    (hc : c.hdr = tailHdr h i) : (c.markFragment mzDataBufferSize).hdr = fullHdr h i := by
  cases i with
  | zero => simp [DataBuf.markFragment, hc, tailHdr, fullHdr, hf]
  | succ i => simp [DataBuf.markFragment, hc, tailHdr, fullHdr, hf]

/-- The buffers of a record after its current one is full. -/
lemma map_hdr_snoc {h : DataBufHdr} {mids : List DataBuf} {c : DataBuf}
    (hm : mids.map (·.hdr) = (List.range mids.length).map (fullHdr h))
    (hc : c.hdr = fullHdr h mids.length) :
    (mids ++ [c]).map (·.hdr) = (List.range (mids ++ [c]).length).map (fullHdr h) := by
  simp only [List.map_append, hm, List.map_cons, hc, List.map_nil, List.length_append,
    List.length_singleton, List.range_succ]

namespace Writing
variable {w : Writer} {b : DataBuf} {mids : List DataBuf} {cur : DataBuf} {bytes : List UInt8} {p q : Pen}

/-- The whole memory of a full buffer is payload. -/
lemma content_full (h : Writing w b mids cur bytes p) (hs : p.space = 0) :
    (mids ++ [cur]).flatMap (·.body.bytes) = b.payload ++ bytes := by
  have hi := h.hi
  have e := h.content
  simp only [Pen.space] at hs
  have hd : p.dst = mzDataBufferSize := by omega
  rw [List.take_of_length_le (by rw [cur.body.len, hd]; exact Nat.le_refl _)] at e
  simpa using e

/-- Going on in the next buffer. -/
lemma nextBuffer_ok (h : Writing w b mids cur bytes p) (hb : Begins w b) (hs : p.space = 0)
    (hq : p.nextBuffer = .ok q) :
    ∃ full cur', Writing w b (mids ++ [full]) cur' bytes q ∧ q.dst = sizeofDataBufHdr := by
  have hd : p.dst = mzDataBufferSize := by
    have := h.hi
    simp only [Pen.space] at hs
    omega
  have hdst := Pen.nextBuffer_dst hq
  have hc := h.content_full hs
  unfold Pen.nextBuffer rotateFragmentBuffer at hq
  simp only [h.buffer] at hq
  cases ht : p.taken with
  | nil => simp [ht] at hq
  | cons m ms =>
    cases m with
    | none => simp [ht] at hq
    | some m =>
      simp only [ht, Except.ok.injEq] at hq
      refine ⟨cur.markFragment p.dst, p.w.openBuf cur.hdr.muPacketType m, ⟨?_, ?_, ?_, ?_, ?_, ?_⟩, hdst⟩
      · rw [← hq]
        simp only [Writer.openBuffer]
        rw [h.frame]
        simp only [List.append_assoc, List.length_append, List.length_singleton]
        congr 1
        rw [UInt32.add_assoc, UInt32.ofNat_add (mids.length + 1) 1]
        rfl
      · refine map_hdr_snoc h.mids_hdr ?_
        rw [hd]
        exact markFragment_hdr hb.flags h.cur_hdr
      · simp only [Writer.openBuf, h.cur_hdr, List.length_append, List.length_singleton]
        rw [h.frame]
        simp only [tailHdr, hb.flags, ← hb.thread, ← hb.writer]
        cases mids.length <;> rfl
      · rw [hdst]
        simpa [DataBuf.markFragment] using hc
      · exact Nat.le_of_eq hdst.symm
      · rw [hdst]
        decide

/-- Finding no next buffer. -/
lemma nextBuffer_error (h : Writing w b mids cur bytes p) (hb : Begins w b) (hs : p.space = 0)
    (hq : p.nextBuffer = .error q) : ∃ full, Stuck w b (mids ++ [full]) q := by
  have hd : p.dst = mzDataBufferSize := by
    have := h.hi
    simp only [Pen.space] at hs
    omega
  have hc := h.content_full hs
  have key : q.w = { w with moFragments := w.moFragments ++ (mids ++ [cur.markFragment p.dst]),
                            mpBuffer := none, mzBufUsed := q.w.mzBufUsed,
                            muBufSeq := b.hdr.muBufSeq + UInt32.ofNat (mids.length + 1) } := by
    unfold Pen.nextBuffer rotateFragmentBuffer at hq
    simp only [h.buffer] at hq
    cases ht : p.taken with
    | nil =>
      simp only [ht, Except.error.injEq] at hq
      subst hq
      rw [h.frame]
      simp
    | cons m ms =>
      cases m with
      | some m => simp [ht] at hq
      | none =>
        simp only [ht, Except.error.injEq] at hq
        subst hq
        rw [h.frame]
        simp
  refine ⟨cur.markFragment p.dst, ⟨?_, map_hdr_snoc h.mids_hdr ?_, by simp, ?_⟩⟩
  · rw [key]
    simp
  · rw [hd]
    exact markFragment_hdr hb.flags h.cur_hdr
  · have e : (mids ++ [cur.markFragment p.dst]).flatMap (·.body.bytes)
        = (mids ++ [cur]).flatMap (·.body.bytes) := by simp [DataBuf.markFragment]
    rw [e, hc, List.take_left]

end Writing

/-- A record that began in `b` has written `bytes` so far; when it went on in another buffer, some of them
are there. -/
def Wrote (w : Writer) (b : DataBuf) (bytes : List UInt8) (p : Pen) : Prop :=
  ∃ mids cur, Writing w b mids cur bytes p ∧ (mids ≠ [] → sizeofDataBufHdr < p.dst)

/-- A record that began in `b` found no buffer to continue in. -/
def Lost (w : Writer) (b : DataBuf) (q : Pen) : Prop :=
  ∃ mids, Stuck w b mids q

/-- What writing a piece of a record ends in, where `n` is what the caller's counter then has. -/
def PieceEnds (w : Writer) (b : DataBuf) (bytes : List UInt8) (n : Nat) : Except Pen (Pen × Nat) → Prop
  | .ok (q, k) => Wrote w b bytes q ∧ k = n
  | .error q => Lost w b q

/-- The attributes a writer knows of have no part in what was written. -/
lemma Wrote.cache {w b bytes p} (h : Wrote w b bytes p) (c : List AttrType) :
    Wrote { w with moAttrCache := c } b bytes { p with w := { p.w with moAttrCache := c } } := by
  obtain ⟨mids, cur, h, hi⟩ := h
  exact ⟨mids, cur, h.cache c, hi⟩

/-- Writing a record teaches the writer no attributes. -/
lemma Wrote.cache_eq {w b bytes p} (h : Wrote w b bytes p) : p.w.moAttrCache = w.moAttrCache := by
  obtain ⟨mids, cur, h, _⟩ := h
  rw [h.frame]

/-- A copy within the current buffer. -/
lemma Wrote.put {w b bytes p} (h : Wrote w b bytes p) {bs : List UInt8} (hs : bs.length ≤ p.space) :
    Wrote w b (bytes ++ bs) (p.put bs) := by
  obtain ⟨mids, cur, h, hi⟩ := h
  exact ⟨mids, _, h.put hs, fun e => Nat.lt_of_lt_of_le (hi e) (Nat.le_add_right _ _)⟩

/-- `copyFragmented` appends its piece, whatever the buffer boundaries, or finds no buffer. -/
lemma Wrote.copyFragmented {w b bytes p} (h : Wrote w b bytes p) (hb : Begins w b) (src : List UInt8)
    (n : Nat) : PieceEnds w b (bytes ++ src) (n + src.length) (copyFragmented p src n) := by
  fun_induction P8.copyFragmented p src n generalizing bytes with
  | case1 p src n e =>
    have e := List.length_eq_zero_iff.mp e
    subst e
    exact ⟨by simpa using h, rfl⟩
  | case2 p src n _ hs q hq =>
    obtain ⟨mids, cur, h, _⟩ := h
    obtain ⟨full, h⟩ := h.nextBuffer_error hb hs hq
    exact ⟨_, h⟩
  | case3 p src n _ hs q hq lzCopy =>
    rename_i ih
    obtain ⟨mids, cur, h, _⟩ := h
    obtain ⟨full, cur', h, hd⟩ := h.nextBuffer_ok hb hs hq
    have hsp : 0 < q.space := by
      rw [Pen.space, hd]
      decide
    have hgo : sizeofDataBufHdr < (q.put (src.take lzCopy)).dst := by
      simp only [Pen.put, List.length_take, hd]
      omega
    have ih := ih ⟨_, _, h.put (by rw [List.length_take]; omega), fun _ => hgo⟩
    rwa [List.append_assoc, List.take_append_drop, List.length_drop, Nat.add_assoc,
      Nat.add_sub_cancel' (Nat.min_le_left _ _)] at ih
  | case4 p src n _ _ lzCopy =>
    rename_i ih
    have ih := ih (h.put (by rw [List.length_take]; omega))
    rwa [List.append_assoc, List.take_append_drop, List.length_drop, Nat.add_assoc,
      Nat.add_sub_cancel' (Nat.min_le_left _ _)] at ih

/-- `writePiece` appends its piece or finds no buffer. -/
lemma Wrote.writePiece {w b bytes p} (h : Wrote w b bytes p) (hb : Begins w b) (src : List UInt8)
    (n : Nat) : PieceEnds w b (bytes ++ src) (n + src.length) (writePiece p src n) := by
  unfold P8.writePiece
  split
  · exact ⟨h.put (by simp only [Pen.space]; omega), rfl⟩
  · exact h.copyFragmented hb src n

/-- What writing several pieces ends in. -/
def RecordEnds (w : Writer) (b : DataBuf) (bytes : List UInt8) : Except Pen Pen → Prop
  | .ok q => Wrote w b bytes q
  | .error q => Lost w b q

/-- Pieces that are copied one behind the other. -/
lemma Wrote.copyPieces {w b bytes p} (h : Wrote w b bytes p) (hb : Begins w b)
    (pieces : List (List UInt8)) : RecordEnds w b (bytes ++ pieces.flatten) (copyPieces p pieces) := by
  induction pieces generalizing bytes p with
  | nil => simpa [P8.copyPieces, RecordEnds] using h
  | cons s ss ih =>
    have hs := h.copyFragmented hb s 0
    unfold P8.copyPieces
    cases e : P8.copyFragmented p s 0 with
    | error q =>
      rw [e] at hs
      exact hs
    | ok r =>
      rw [e] at hs
      have ih := ih hs.1
      rwa [List.append_assoc] at ih

/-- `writeAttr` appends its pieces, split or not, or finds no buffer. -/
lemma Wrote.writeAttr {w b bytes p} (h : Wrote w b bytes p) (hb : Begins w b)
    (pieces : List (List UInt8)) : RecordEnds w b (bytes ++ pieces.flatten) (writeAttr p pieces) := by
  unfold P8.writeAttr
  split
  · rename_i hs
    exact h.put hs
  · exact h.copyPieces hb pieces

/-- The header of a record, `hdr`, is changed in place by `f` after `data` was written behind it, also when
its buffer was parked meanwhile. -/
lemma Wrote.poke {w b p} {hdr data : List UInt8} {f : List UInt8 → List UInt8}
    (h : Wrote w b (hdr ++ data) p) (hb : Begins w b) (hf : (f hdr).length = hdr.length)
    (hr : b.used + hdr.length ≤ mzDataBufferSize) :
    Wrote w b (f hdr ++ data)
      { p with w := p.w.poke w.moFragments.length b.used hdr.length f } := by
  obtain ⟨mids, cur, h, hi⟩ := h
  have hlo := hb.lo
  have hlen := length_payload hb.hi
  have hroom : b.used - sizeofDataBufHdr + hdr.length ≤ bodySize := by
    simp only [bodySize]
    omega
  have hover : splice (b.payload ++ (hdr ++ data)) (b.used - sizeofDataBufHdr) (f hdr)
      = b.payload ++ (f hdr ++ data) := by
    rw [← hlen, ← List.append_assoc, splice_over hf.symm, List.append_assoc]
  have hread : ((b.payload ++ (hdr ++ data)).drop (b.used - sizeofDataBufHdr)).take hdr.length = hdr := by
    rw [← hlen, List.drop_left, List.take_left]
  cases mids with
  | nil =>
    have hd := h.dst_eq hb.hi
    simp only [List.length_append, List.length_nil, Nat.mul_zero, Nat.zero_add] at hd
    have e := h.content
    simp only [List.flatMap_nil, List.nil_append] at e
    have hc : p.dst - sizeofDataBufHdr ≤ cur.body.bytes.length := by
      rw [cur.body.len, bodySize]
      have := h.hi
      omega
    have hx : (cur.body.bytes.drop (b.used - sizeofDataBufHdr)).take hdr.length = hdr := by
      rw [← e, List.drop_take, List.take_take, Nat.min_eq_left (by omega)] at hread
      exact hread
    refine ⟨[], cur.poke b.used hdr.length f, ⟨?_, h.mids_hdr, h.cur_hdr, ?_, h.lo, h.hi⟩, nofun⟩
    · rw [Writer.poke, h.frame]
      simp
    · simp only [List.flatMap_nil, List.nil_append, DataBuf.poke, DataBuf.write, hx]
      rw [Mem.write_bytes (by rw [hf]; exact hroom), take_splice_comm (by rw [hf]; omega) hc, e, hover]
  | cons m ms =>
    have e := h.content
    simp only [List.flatMap_cons, List.append_assoc] at e
    have hx : (m.body.bytes.drop (b.used - sizeofDataBufHdr)).take hdr.length = hdr := by
      rw [← e, List.drop_append_of_le_length (by rw [m.body.len]; omega),
        List.take_append_of_le_length (by rw [List.length_drop, m.body.len]; omega)] at hread
      exact hread
    refine ⟨m.poke b.used hdr.length f :: ms, cur, ⟨?_, ?_, h.cur_hdr, ?_, h.lo, h.hi⟩,
      fun _ => hi (List.cons_ne_nil _ _)⟩
    · rw [Writer.poke, h.frame]
      simp [List.modify_eq_take_cons_drop]
    · simpa [DataBuf.poke, DataBuf.write] using h.mids_hdr
    · simp only [List.flatMap_cons, List.append_assoc, DataBuf.poke, DataBuf.write, hx]
      rw [Mem.write_bytes (by rw [hf]; exact hroom),
        ← splice_append (by rw [hf, m.body.len]; exact hroom), e, hover]

/-- A dropped record leaves the writer as it found it: a buffer taken for this record alone is given back,
another one keeps its earlier records. -/
lemma Lost.discard {w b q} (h : Lost w b q) (hb : Begins w b) :
    let r := (discard q.w w.moFragments.length b.used).1
    if b.used = sizeofDataBufHdr then
      r = { w with mpBuffer := none, mzBufUsed := 0, muBufSeq := w.muBufSeq - 1 }
    else
      ∃ b', r = { w with mpBuffer := some b' } ∧ b'.hdr = b.hdr ∧ b'.payload = b.payload := by
  obtain ⟨mids, h⟩ := h
  obtain ⟨m, ms, rfl⟩ := List.exists_cons_of_ne_nil h.nonempty
  have hm : m.hdr = fullHdr b.hdr 0 := by
    have e := congrArg List.head? h.mids_hdr
    simpa [List.range_succ_eq_map] using e
  have hpay : m.body.bytes.take b.payload.length = b.payload := by
    have e := h.content
    rwa [List.flatMap_cons, List.take_append_of_le_length] at e
    rw [length_payload hb.hi, m.body.len, bodySize]
    have := hb.hi
    omega
  have hseq : b.hdr.muBufSeq + UInt32.ofNat (ms.length + 1) - UInt32.ofNat ms.length = w.muBufSeq := by
    rw [hb.seq, UInt32.ofNat_add]
    grind
  have e1 : (w.moFragments ++ m :: ms).take (w.moFragments.length + 1) = w.moFragments ++ [m] := by
    rw [List.take_length_add_append]
    rfl
  have e2 : (w.moFragments ++ m :: ms).drop (w.moFragments.length + 1) = ms := by
    rw [List.drop_length_add_append]
    rfl
  have hsize : UInt16.ofNat b.used = b.hdr.muSize := by simp [DataBuf.used]
  rw [h.frame]
  simp only [P8.discard, e1, e2, List.length_cons, hseq, List.getLast?_concat, List.dropLast_concat]
  split
  · rfl
  · refine ⟨{ m with hdr := { m.hdr with muFlags := m.hdr.muFlags &&& ~~~dataFlagFragment,
                                         muSize := UInt16.ofNat b.used } }, ?_, ?_, ?_⟩
    · rw [hb.used]
    · have hflags : dataFlagFragment &&& ~~~dataFlagFragment = b.hdr.muFlags := by rw [hb.flags]; rfl
      simp [hm, fullHdr, hflags, hsize]
    · rw [length_payload hb.hi] at hpay
      simp only [DataBuf.payload, DataBuf.used] at hpay hsize ⊢
      rw [hsize]
      exact hpay

end P8
