import Mathlib.Data.List.Basic
import Mathlib.Tactic.Lemma

/-!
# Cuts of UTF-8

Where valid UTF-8 may be cut: in front of a byte that is no continuation byte, of which there is one among any four
in a row. Validity is that of Lean's own strings (`Utf8`).

`Utf8.first_iff` tells the first bytes of characters by the mask that programs test. `Utf8.take_iff` says that a
proper front of a valid string is valid exactly when it ends in front of such a byte, and `Utf8.near` that there is
such an end at most three bytes back. `Utf8.longest` puts them together: the longest valid front within a bound
(`LongestPrefix`) is where a program arrives that goes back from the bound over continuation bytes. `Utf8.whole` is
the case of a string that fits.

The proofs go through the characters of the string (`utf8_iff`), by induction on them; the bytes of one character
are those of `String.utf8EncodeChar`, whose cases are split once, in `first_or_continuation`.
-/

namespace P8.Lib

/-- Valid UTF-8. -/
def Utf8 (s : List UInt8) : Prop := s.toByteArray.IsValidUTF8

/-- `k` bytes are the longest valid prefix of `s` that has no more than `limit`. -/
structure LongestPrefix (s : List UInt8) (limit k : Nat) : Prop where
  le : k ≤ limit
  inside : k ≤ s.length
  valid : Utf8 (s.take k)
  longest : ∀ j ≤ limit, j ≤ s.length → Utf8 (s.take j) → j ≤ k

variable {s : List UInt8} {k n : Nat}

/-- Valid UTF-8 is some characters, encoded one behind the other. -/
lemma utf8_iff : Utf8 s ↔ ∃ cs : List Char, s = cs.flatMap String.utf8EncodeChar := by
  constructor
  · rintro ⟨cs, h⟩
    refine ⟨cs, ?_⟩
    have h := congrArg (fun b => b.data.toList) h
    simpa [List.utf8Encode] using h
  · rintro ⟨cs, rfl⟩
    exact ⟨cs, rfl⟩

/-- A byte of a character begins it or goes on with it. -/
lemma first_or_continuation {c : Char} {b : UInt8} (h : b ∈ String.utf8EncodeChar c) :
    b.IsUTF8FirstByte ↔ b &&& 0xC0 ≠ 0x80 := by
  have hlt : b.toNat < 248 := by
    unfold String.utf8EncodeChar at h
    simp only at h
    split at h
    · rw [List.mem_singleton.mp h, UInt8.toNat_ofNat']
      omega
    split at h
    · simp only [List.mem_cons, List.not_mem_nil, or_false] at h
      rcases h with rfl | rfl <;> rw [UInt8.toNat_ofNat'] <;> omega
    split at h
    · simp only [List.mem_cons, List.not_mem_nil, or_false] at h
      rcases h with rfl | rfl | rfl <;> rw [UInt8.toNat_ofNat'] <;> omega
    · simp only [List.mem_cons, List.not_mem_nil, or_false] at h
      rcases h with rfl | rfl | rfl | rfl <;> rw [UInt8.toNat_ofNat'] <;> omega
  have key : ∀ v : BitVec 8, v.toNat < 248 →
      ((UInt8.ofBitVec v).IsUTF8FirstByte ↔ UInt8.ofBitVec v &&& 0xC0 ≠ 0x80) := by
    decide
  exact key b.toBitVec hlt

/-- A byte of valid UTF-8 begins a character or goes on with it. -/
lemma Utf8.first_iff (h : Utf8 s) {b : UInt8} (hb : b ∈ s) : b.IsUTF8FirstByte ↔ b &&& 0xC0 ≠ 0x80 := by
  obtain ⟨cs, rfl⟩ := utf8_iff.mp h
  obtain ⟨c, -, hc⟩ := List.mem_flatMap.mp hb
  exact first_or_continuation hc

/-- A prefix of valid UTF-8 is valid if and only if no continuation byte follows it. -/
lemma Utf8.take_iff (h : Utf8 s) (hk : k < s.length) : Utf8 (s.take k) ↔ s[k] &&& 0xC0 ≠ 0x80 := by
  let str : String := .ofByteArray s.toByteArray h
  have hsize : s.toByteArray.size = s.length := List.size_toByteArray
  have hlt : (⟨k⟩ : String.Pos.Raw) < str.rawEndPos := by
    show k < s.toByteArray.size
    rw [hsize]
    exact hk
  have hbyte : str.getUTF8Byte ⟨k⟩ hlt = s[k] := by
    have hk : k < s.toByteArray.size := hsize ▸ hk
    show s.toByteArray[k] = _
    exact List.getElem_toByteArray
  have hpos : (⟨k⟩ : String.Pos.Raw).IsValid str ↔ s[k].IsUTF8FirstByte := by
    rw [String.Pos.Raw.isValid_iff_isUTF8FirstByte, ← hbyte]
    constructor
    · rintro (e | ⟨_, hf⟩)
      · have e : k = s.toByteArray.size := congrArg String.Pos.Raw.byteIdx e
        omega
      · exact hf
    · exact fun hf => .inr ⟨hlt, hf⟩
  have hext : s.toByteArray.extract 0 k = (s.take k).toByteArray := by
    apply ByteArray.ext
    simp
  rw [← h.first_iff (List.getElem_mem hk), ← hpos, String.Pos.Raw.isValid_iff_isValidUTF8_extract_zero]
  show Utf8 (s.take k) ↔ _ ∧ (s.toByteArray.extract 0 k).IsValidUTF8
  rw [hext]
  exact ⟨fun hv => ⟨String.Pos.Raw.le_of_lt hlt, hv⟩, fun hv => hv.2⟩

/-- Among any four bytes in a row of valid UTF-8 one begins a character. -/
lemma Utf8.near (h : Utf8 s) (hn : n < s.length) :
    ∃ p, ∃ hp : p < s.length, p ≤ n ∧ n ≤ p + 3 ∧ s[p] &&& 0xC0 ≠ 0x80 := by
  obtain ⟨cs, rfl⟩ := utf8_iff.mp h
  clear h
  induction cs generalizing n with
  | nil => exact absurd hn (Nat.not_lt_zero _)
  | cons c cs ih =>
    simp only [List.flatMap_cons] at hn ⊢
    have hsize : (String.utf8EncodeChar c).length = c.utf8Size := String.length_utf8EncodeChar c
    have hpos := c.utf8Size_pos
    have hfour := c.utf8Size_le_four
    by_cases hin : n < (String.utf8EncodeChar c).length
    · -- in the first character
      refine ⟨0, by omega, by omega, by omega, ?_⟩
      rw [List.getElem_append_left (by omega), ← first_or_continuation (List.getElem_mem _)]
      exact UInt8.isUTF8FirstByte_getElem_utf8EncodeChar.mpr rfl
    · rw [List.length_append] at hn
      obtain ⟨p, hp, hle, hge, hb⟩ := ih (n := n - (String.utf8EncodeChar c).length) (by omega)
      refine ⟨(String.utf8EncodeChar c).length + p, by rw [List.length_append]; omega, by omega, by omega, ?_⟩
      rw [List.getElem_append_right (by omega)]
      simpa using hb

/-- Where only continuation bytes lie between a cut and its limit, and none right behind the cut, the cut is the longest
valid prefix, and leaves out at most three bytes of the limit. -/
lemma Utf8.longest (h : Utf8 s) (hn : n < s.length) (hk : k ≤ n) (hstop : k = 0 ∨ s.getD k 0 &&& 0xC0 ≠ 0x80)
    (hinside : ∀ i, k < i → i ≤ n → s.getD i 0 &&& 0xC0 = 0x80) : LongestPrefix s n k ∧ n ≤ k + 3 := by
  have hget : ∀ i (hi : i < s.length), s.getD i 0 = s[i] := fun i hi => by
    rw [List.getD_eq_getElem?_getD, List.getElem?_eq_getElem hi, Option.getD_some]
  refine ⟨⟨hk, by omega, ?_, ?_⟩, ?_⟩
  · rcases hstop with rfl | hstop
    · exact utf8_iff.mpr ⟨[], rfl⟩
    · rw [h.take_iff (by omega), ← hget]
      exact hstop
  · intro j hj hjs hv
    by_contra hlt
    rw [h.take_iff (by omega), ← hget] at hv
    exact hv (hinside j (by omega) hj)
  · obtain ⟨p, hp, hle, hge, hb⟩ := h.near hn
    by_contra hlt
    rw [← hget] at hb
    exact hb (hinside p (by omega) hle)

/-- A whole string is its longest prefix within any limit it fits. -/
lemma Utf8.whole (h : Utf8 s) (hn : s.length ≤ n) : LongestPrefix s n s.length where
  le := hn
  inside := Nat.le_refl _
  valid := by rwa [List.take_length]
  longest _ _ hj _ := hj

end P8.Lib
