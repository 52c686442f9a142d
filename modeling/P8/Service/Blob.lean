import P8.Service.Decode
import P8.Writer.Stream

/-!
# The two attribute encoders

`serializeAttrs` writes the attributes of a record into the buffers of its writer, `encodeAttrBlob` those of a
descriptor into one block. `Pen.stream` is what the buffers of a writer hold up to the write pointer: as long as the
record has room for every attribute, the first appends there what the second gives.

`Pen.Supplied` asks that the next acquisitions succeed for as many bytes as are to be written; a copy of `n` bytes
then takes `n` of the room, wherever it has to change buffers. The lemmas under it go along the calls of the writer,
from `put` and `nextBuffer` to `writeAttr`, and `Wrote.stream_eq` says of each what it appends to the stream.

On the side of the block `blobAttrs` is what `encode_attr_blob` makes of a list, and `blobValue_whole` says that a
value that fits is not cut. `attr_encoders_agree` compares the two for any list of attributes, and
`attr_encoders_agree_split` is an attribute that is split between two buffers.
-/

namespace P8
open P8.Lib P8.Service

/-- The payload in the buffers of a writer, up to the write pointer of the record in progress. -/
def Pen.stream (p : Pen) : List UInt8 :=
  p.w.moFragments.flatMap (·.payload) ++
    ((p.w.mpBuffer.map fun b => b.body.bytes.take (p.dst - sizeofDataBufHdr)).getD [])

/-- The next acquisitions succeed, and together with the current buffer there is room for `n` bytes. -/
def Pen.Supplied (p : Pen) (n : Nat) : Prop :=
  ∃ (ms : List Mem) (rest : List (Option Mem)),
    p.taken = ms.map some ++ rest ∧ n ≤ p.space + bodySize * ms.length

/-- The stream in the middle of a record: what the writer held as it began, and the bytes written since. -/
lemma Wrote.stream_eq {w b bytes p} (h : Wrote w b bytes p) :
    p.stream = w.moFragments.flatMap (·.payload) ++ b.payload ++ bytes := by
  obtain ⟨mids, cur, h, _⟩ := h
  have hm := flatMap_payload_full fun m hm => (mids_full h.mids_hdr m hm).1
  have hf : p.w.moFragments = w.moFragments ++ mids := by rw [h.frame]
  rw [Pen.stream, h.buffer, hf, List.flatMap_append, hm, Option.map_some, Option.getD_some,
    List.append_assoc, h.content, List.append_assoc]

namespace Pen.Supplied
variable {p : Pen} {n : Nat}

/-- The attributes a writer knows of have no part in it. -/
lemma cache (h : p.Supplied n) (c : List AttrType) :
    Pen.Supplied { p with w := { p.w with moAttrCache := c } } n := h

/-- A copy within the current buffer. -/
lemma put (h : p.Supplied n) {bs : List UInt8} (hs : bs.length ≤ p.space) :
    (p.put bs).Supplied (n - bs.length) := by
  obtain ⟨ms, rest, ht, hn⟩ := h
  refine ⟨ms, rest, ht, ?_⟩
  simp only [Pen.put, Pen.space] at hs hn ⊢
  omega

/-- A full buffer is followed by the next one. -/
lemma nextBuffer (h : p.Supplied n) (hb : p.w.mpBuffer.isSome = true) (hs : p.space = 0) (hn : 0 < n) :
    ∃ q, p.nextBuffer = .ok q ∧ q.w.mpBuffer.isSome = true ∧ q.Supplied n := by
  obtain ⟨ms, rest, ht, hle⟩ := h
  obtain ⟨b, hb⟩ := Option.isSome_iff_exists.mp hb
  cases ms with
  | nil =>
    simp only [List.length_nil] at hle
    omega
  | cons m ms =>
    rw [List.map_cons, List.cons_append] at ht
    simp only [Pen.nextBuffer, rotateFragmentBuffer, hb, ht]
    refine ⟨_, rfl, rfl, ms, rest, rfl, ?_⟩
    simp only [Pen.space, Writer.openBuffer, List.length_cons, bodySize, mzDataBufferSize,
      sizeofDataBufHdr] at hs hle ⊢
    omega

/-- A run of bytes that has its buffers is copied as a whole. -/
lemma copyFragmented {p : Pen} {n : Nat} (h : p.Supplied n) (hb : p.w.mpBuffer.isSome = true)
    (src : List UInt8) (k : Nat) (hs : src.length ≤ n) :
    ∃ q j, copyFragmented p src k = .ok (q, j) ∧ q.w.mpBuffer.isSome = true
      ∧ q.Supplied (n - src.length) := by
  fun_induction P8.copyFragmented p src k generalizing n with
  | case1 p src k e =>
    rw [e]
    exact ⟨p, k, rfl, hb, h⟩
  | case2 p src k e hsp q hq =>
    obtain ⟨q', hq', _⟩ := h.nextBuffer hb hsp (by omega)
    rw [hq] at hq'
    cases hq'
  | case3 p src k e hsp q hq lzCopy =>
    rename_i ih
    obtain ⟨q', hq', hb, h⟩ := h.nextBuffer hb hsp (by omega)
    rw [hq] at hq'
    cases hq'
    have hl : (src.take lzCopy).length = lzCopy := by
      rw [List.length_take]
      omega
    have h := h.put (show (src.take lzCopy).length ≤ q.space by omega)
    rw [hl] at h
    obtain ⟨r, j, hr, hb, h⟩ := ih h (by rwa [Pen.put, Option.isSome_map]) (by rw [List.length_drop]; omega)
    rw [List.length_drop, show n - lzCopy - (src.length - lzCopy) = n - src.length by omega] at h
    exact ⟨r, j, hr, hb, h⟩
  | case4 p src k e hsp lzCopy =>
    rename_i ih
    have hl : (src.take lzCopy).length = lzCopy := by
      rw [List.length_take]
      omega
    have h := h.put (show (src.take lzCopy).length ≤ p.space by omega)
    rw [hl] at h
    obtain ⟨r, j, hr, hb, h⟩ := ih h (by rwa [Pen.put, Option.isSome_map]) (by rw [List.length_drop]; omega)
    rw [List.length_drop, show n - lzCopy - (src.length - lzCopy) = n - src.length by omega] at h
    exact ⟨r, j, hr, hb, h⟩

/-- Pieces that find room in the buffers that are there. -/
lemma copyPieces {p : Pen} {n : Nat} (h : p.Supplied n) (hb : p.w.mpBuffer.isSome = true)
    (pieces : List (List UInt8)) (hs : pieces.flatten.length ≤ n) :
    ∃ q, copyPieces p pieces = .ok q ∧ q.Supplied (n - pieces.flatten.length) := by
  induction pieces generalizing p n with
  | nil => exact ⟨p, rfl, h⟩
  | cons s ss ih =>
    rw [List.flatten_cons, List.length_append] at hs ⊢
    obtain ⟨q, j, hq, hb, h⟩ := h.copyFragmented hb s 0 (by omega)
    obtain ⟨r, hr, h⟩ := ih h hb (by omega)
    refine ⟨r, ?_, ?_⟩
    · simp only [P8.copyPieces, hq, hr]
    · rwa [Nat.sub_sub] at h

/-- An attribute that has its buffers is written, split or not. -/
lemma writeAttr (h : p.Supplied n) (hb : p.w.mpBuffer.isSome = true) (pieces : List (List UInt8))
    (hs : pieces.flatten.length ≤ n) :
    ∃ q, writeAttr p pieces = .ok q ∧ q.Supplied (n - pieces.flatten.length) := by
  unfold P8.writeAttr
  split
  · rename_i hfit
    exact ⟨_, rfl, h.put hfit⟩
  · exact h.copyPieces hb pieces hs

end Pen.Supplied

/-- Within a record there is a current buffer. -/
lemma Wrote.buffer {w b bytes p} (h : Wrote w b bytes p) : p.w.mpBuffer.isSome = true := by
  obtain ⟨mids, cur, h, _⟩ := h
  rw [h.buffer]
  rfl

/-- Attributes that have their buffers are written to the end. -/
lemma Wrote.serializeAttrs_done {reg : List AttrType} {w b bytes p} (izRecord : Nat) (as : List AttrVal)
    (r : AttrsResult) (h : Wrote w b bytes p) (hb : Begins w b) (hc : w.moAttrCache <+: reg)
    (hr : r.mbDone = true)
    (hs : p.Supplied ((keptAttrs reg as r.muCount (izRecord + r.mzBytes)).flatMap (·.encode)).length) :
    (P8.serializeAttrs reg izRecord as p r).2.mbDone = true := by
  induction as generalizing w bytes p r with
  | nil => exact hr
  | cons a as ih =>
    unfold keptAttrs at hs
    unfold P8.serializeAttrs
    split
    · rename_i hcount
      rw [if_pos hcount] at hs
      obtain ⟨c, hpre, e⟩ := attrType_eq (h.cache_eq ▸ hc) a.mId
      have h := h.cache c
      have hb := hb.cache c
      simp only [e, bind_attrPieces, ← attrRoom.eq_def]
      cases hd : (regType reg a.mId).bind (attrKept · (attrRoom (izRecord + r.mzBytes)) a) with
      | none =>
        rw [hd] at hs
        exact ih (w := { w with moAttrCache := c }) r h hb hpre hr (hs.cache c)
      | some d =>
        rw [hd, List.flatMap_cons, List.length_append] at hs
        simp only [Option.map_some]
        obtain ⟨q, hq, hs⟩ := (hs.cache c).writeAttr h.buffer d.pieces (Nat.le_add_right _ _)
        have h := h.writeAttr hb d.pieces
        rw [hq] at h ⊢
        rw [AttrDat.encode, Nat.add_sub_cancel_left, Nat.add_assoc] at hs
        exact ih (w := { w with moAttrCache := c })
          { r with muCount := r.muCount + 1, mzBytes := r.mzBytes + d.pieces.flatten.length } h hb hpre hr hs
    · exact hr

/-- When there is room for the attributes a record can count, it takes just these, and takes them whole. -/
lemma keptAttrs_take (reg : List AttrType) (as : List AttrVal) {count used : Nat} (hc : count ≤ 255)
    (hu : used + (((registered reg as).take (255 - count)).flatMap (·.encode)).length ≤ maxRecordSize) :
    keptAttrs reg as count used = (registered reg as).take (255 - count) := by
  induction as generalizing count used with
  | nil => simp [keptAttrs, registered]
  | cons a as ih =>
    rw [registered_cons] at hu ⊢
    unfold keptAttrs
    cases hty : regType reg a.mId with
    | none =>
      rw [hty] at hu
      simp only [Option.map_none, Option.toList_none, List.nil_append] at hu ⊢
      split
      · exact ih hc hu
      · rw [show 255 - count = 0 by omega, List.take_zero]
    | some ty =>
      rw [hty] at hu
      simp only [Option.map_some, Option.toList_some, List.singleton_append] at hu ⊢
      split
      · rename_i hlt
        rw [show 255 - count = (255 - (count + 1)) + 1 by omega, List.take_succ_cons] at hu ⊢
        rw [List.flatMap_cons, List.length_append] at hu
        have hk : attrKept ty (attrRoom used) a = some ⟨a.mId, a.whole ty⟩ := by
          apply attrKept_whole
          have hpos := (AttrDat.mk a.mId (a.whole ty)).encode_pos
          unfold attrRoom
          split <;> omega
        rw [Option.bind_some, hk]
        simp only
        rw [ih (by omega) (by omega)]
      · rw [show 255 - count = 0 by omega, List.take_zero]

/-- A value of at most 65535 bytes is whole in a block. -/
lemma blobValue_whole {ty : AttrType} {a : AttrVal}
    (h : (AttrDat.mk a.mId (a.whole ty)).encode.length ≤ 65535) : blobValue ty a = a.whole ty := by
  rw [AttrDat.length_encode] at h
  cases ty with
  | str =>
    simp only [AttrVal.whole] at h ⊢
    rw [blobValue, if_pos rfl, List.take_of_length_le (by omega)]
  | _ => rfl

/-- A block holds the attributes it can count, whole when none is too long. -/
lemma blobAttrs_take {reg : List AttrType} {as : List AttrVal} {n : Nat}
    (h : ∀ d ∈ (registered reg as).take n, d.encode.length ≤ 65535) :
    (blobAttrs reg as).take n = (registered reg as).take n := by
  induction as generalizing n with
  | nil => rfl
  | cons a as ih =>
    cases hty : regType reg a.mId with
    | none =>
      have e1 : blobAttrs reg (a :: as) = blobAttrs reg as := by simp [blobAttrs, hty]
      have e2 : registered reg (a :: as) = registered reg as := by simp [registered, hty]
      rw [e2] at h ⊢
      rw [e1]
      exact ih h
    | some ty =>
      have e1 : blobAttrs reg (a :: as) = ⟨a.mId, blobValue ty a⟩ :: blobAttrs reg as := by
        simp [blobAttrs, hty]
      have e2 : registered reg (a :: as) = ⟨a.mId, a.whole ty⟩ :: registered reg as := by
        simp [registered, hty]
      rw [e2] at h ⊢
      rw [e1]
      cases n with
      | zero => rfl
      | succ n =>
        rw [List.take_succ_cons] at h ⊢
        rw [List.take_succ_cons, ih fun d hd => h d (.tail _ hd), blobValue_whole (h _ (.head _))]

/-- An attribute is no longer than a list of which it is one. -/
lemma length_encode_le_of_mem {d : AttrDat} {ds : List AttrDat} (h : d ∈ ds) :
    d.encode.length ≤ (ds.flatMap (·.encode)).length := by
  rw [List.flatMap_def]
  exact (List.sublist_flatten_of_mem (List.mem_map_of_mem h)).length_le

/-- The attributes of a record whose full encoding fits: with buffers for them every attribute is written, and
when no rotation fails the stream grows by the block of the same list, with its count and its size, whatever
the record had before, wherever its write pointer was and however long the writer's cache was. -/
theorem attr_encoders_agree {reg : List AttrType} {w b bytes p} (izRecord : Nat) (as : List AttrVal)
    (h : Wrote w b bytes p) (hb : Begins w b) (hc : w.moAttrCache <+: reg)
    (hfit : izRecord + (((registered reg as).take 255).flatMap (·.encode)).length ≤ maxRecordSize) :
    let r := serializeAttrs reg izRecord as p ⟨true, 0, 0⟩
    let e := encodeAttrBlob reg as
    (p.Supplied e.1.length → r.2.mbDone = true) ∧
    (r.2.mbDone = true →
      r.1.stream = p.stream ++ e.1 ∧ r.2.muCount = e.2.toNat ∧ r.2.mzBytes = e.1.length) := by
  intro r e
  have hkept : keptAttrs reg as 0 izRecord = (registered reg as).take 255 :=
    keptAttrs_take reg as (Nat.zero_le _) hfit
  have hshort : ∀ d ∈ (registered reg as).take 255, d.encode.length ≤ 65535 := by
    intro d hd
    have := length_encode_le_of_mem hd
    unfold maxRecordSize at hfit
    omega
  have hblob : e = (((registered reg as).take 255).flatMap (·.encode),
      .ofNat ((registered reg as).take 255).length) := by
    rw [← blobAttrs_take hshort]
    exact encodeAttrBlob_eq reg as
  constructor
  · intro hs
    rw [hblob] at hs
    exact h.serializeAttrs_done izRecord as ⟨true, 0, 0⟩ hb hc rfl (hkept ▸ hs)
  · intro hdone
    obtain ⟨c, -, hend⟩ := h.serializeAttrs izRecord as ⟨true, 0, 0⟩ hb hc rfl
    rw [if_pos hdone] at hend
    obtain ⟨hw, hcount, hbytes⟩ := hend
    rw [Nat.add_zero, hkept] at hw hbytes hcount
    refine ⟨?_, ?_, ?_⟩
    · rw [hw.stream_eq, h.stream_eq, hblob, List.append_assoc, List.append_assoc, List.append_assoc]
    · have hle := List.length_take_le 255 (registered reg as)
      rw [hcount, hblob, UInt8.toNat_ofNat', Nat.zero_add, Nat.mod_eq_of_lt (by omega)]
    · rw [hbytes, hblob, Nat.zero_add]

/-- A writer in the middle of a buffer of which all but `n` bytes are used, with one more buffer to come. -/
def nearlyFull (m : Mem) (n : Nat) : Pen :=
  let used := mzDataBufferSize - n
  ⟨((Writer.start 1 2).openBuffer 0 m).setUsed used, used, [some m]⟩

/-- The string attribute `AB` of an id that the writer has not heard of, five bytes before the end of a buffer. -/
theorem attr_encoders_agree_split :
    let p := nearlyFull ⟨List.replicate bodySize 0, List.length_replicate⟩ 5
    let r := serializeAttrs [.str] 24 [⟨0, 0, some [65, 66]⟩] p ⟨true, 0, 0⟩
    r.1.stream = p.stream ++ [0, 0, 0, 0, 2, 0, 65, 66] ∧ r.2.muCount = 1 ∧ r.2.mzBytes = 8 := by
  intro p r
  have hb : Begins p.w ((p.w.mpBuffer).get rfl) :=
    ⟨rfl, rfl, by decide, by decide, rfl, rfl, rfl, rfl⟩
  have hw : Wrote p.w ((p.w.mpBuffer).get rfl) [] p :=
    ⟨[], _, hb.writing [some ⟨List.replicate bodySize 0, List.length_replicate⟩], nofun⟩
  obtain ⟨hdone, hagree⟩ := @attr_encoders_agree [.str] _ _ _ _ 24 [⟨0, 0, some [65, 66]⟩] hw hb
    (List.nil_prefix) (by decide)
  have hs : p.Supplied (encodeAttrBlob [.str] [⟨0, 0, some [65, 66]⟩]).1.length :=
    ⟨[⟨List.replicate bodySize 0, List.length_replicate⟩], [], rfl, by decide⟩
  exact hagree (hdone hs)

end P8
