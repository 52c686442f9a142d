import P8.Lib.Utf8
import P8.Service.Entry

/-!
# Cut strings

`p8_cut_utf8` on valid UTF-8, and its two callers: the strings of service entries and of attributes.

`cutUtf8At` is the function with every byte that it reads looked up in the string, and none where it would read
beyond; `cutUtf8At_eq` says that it is the function the model uses, so no read leaves the string.

What a cut of valid UTF-8 is comes from `Lib/Utf8.lean`: the last boundary within a limit ends the longest valid
prefix, and it is at most three bytes before the limit. `utf8_cuts` states it of the function and of both callers,
with the limits they compute.
-/

namespace P8.Service
open P8.Lib

/-- `p8_cut_utf8`, where every byte it reads is looked up in the string. -/
def cutUtf8At (ipStr : List UInt8) : Nat → Option Nat
  | 0 => some 0
  | izLen + 1 => ipStr[izLen + 1]?.bind fun b => if b &&& 0xC0 = 0x80 then cutUtf8At ipStr izLen else some (izLen + 1)

/-- From an index inside the string, only bytes inside of it are read. -/
lemma cutUtf8At_eq {s : List UInt8} {n : Nat} (hn : n < s.length) : cutUtf8At s n = some (cutUtf8 s n) := by
  induction n with
  | zero => rfl
  | succ n ih =>
    rw [cutUtf8At, cutUtf8, List.getElem?_eq_getElem hn, Option.bind_some, List.getD_eq_getElem?_getD,
      List.getElem?_eq_getElem hn, Option.getD_some, ih (Nat.lt_of_succ_lt hn)]
    split <;> rfl

/-- A cut is the longest valid prefix, and leaves out at most three bytes. -/
lemma cutUtf8_longest {s : List UInt8} {n : Nat} (h : Utf8 s) (hn : n < s.length) :
    LongestPrefix s n (cutUtf8 s n) ∧ n ≤ cutUtf8 s n + 3 :=
  h.longest hn (cutUtf8_le s n) (cutUtf8_boundary s n) (cutUtf8_inside s n)

/-- A string that is cut only where it is longer than the limit. -/
lemma cut_longest {s : List UInt8} {n k : Nat} (h : Utf8 s)
    (hk : k = if s.length > n then cutUtf8 s n else s.length) :
    LongestPrefix s n k ∧ (n < s.length → cutUtf8At s n = some k) := by
  by_cases hn : s.length > n
  · rw [if_pos hn] at hk
    subst hk
    exact ⟨(cutUtf8_longest h hn).1, fun hn => cutUtf8At_eq hn⟩
  · rw [if_neg hn] at hk
    subst hk
    exact ⟨h.whole (Nat.not_lt.mp hn), fun h => absurd h hn⟩

/-- For every valid string: a cut within it is the longest valid prefix within its limit and leaves out at most three
bytes; so is what is sent of a service string and of an attribute, whose limits are computed without an underflow, and
where they cut they read inside the string only. -/
theorem utf8_cuts :
    (∀ s n, Utf8 s → n < s.length →
      LongestPrefix s n (cutUtf8 s n) ∧ n ≤ cutUtf8 s n + 3 ∧ cutUtf8At s n = some (cutUtf8 s n)) ∧
    (∀ ipStr, Utf8 (strBytes ipStr) →
      LongestPrefix (strBytes ipStr) svcStrMaxLen (getSvcStrLen ipStr) ∧
      (svcStrMaxLen < (strBytes ipStr).length → cutUtf8At (strBytes ipStr) svcStrMaxLen = some (getSvcStrLen ipStr))) ∧
    ∀ used a pieces, Utf8 (a.mpStr.getD []) → attrPieces .str (attrRoom used) a = some pieces →
      used + 6 ≤ maxRecordSize ∧ ∃ k,
        pieces = [toBytes 4 a.mId.toUInt32.toNat, toBytes 2 k, (a.mpStr.getD []).take k] ∧
        LongestPrefix (a.mpStr.getD []) (maxRecordSize - used - 6) k ∧
        (maxRecordSize - used - 6 < (a.mpStr.getD []).length →
          cutUtf8At (a.mpStr.getD []) (maxRecordSize - used - 6) = some k) := by
  refine ⟨fun s n h hn => ?_, fun ipStr h => cut_longest h rfl, fun used a pieces h hp => ?_⟩
  · obtain ⟨h1, h2⟩ := cutUtf8_longest h hn
    exact ⟨h1, h2, cutUtf8At_eq hn⟩
  · unfold attrPieces at hp
    simp only at hp
    split at hp
    case isTrue => cases hp
    case isFalse hroom =>
      have hused : used + 6 ≤ maxRecordSize := by
        unfold attrRoom at hroom
        split at hroom <;> omega
      have hlimit : attrRoom used - 6 = maxRecordSize - used - 6 := by
        rw [attrRoom, if_pos (by omega)]
      rw [hlimit] at hp
      obtain ⟨hlong, hat⟩ := cut_longest (n := maxRecordSize - used - 6) h rfl
      refine ⟨hused, _, ?_, hlong, hat⟩
      rw [← Option.some.inj hp]
      have hsmall := hlong.le
      have hmax : maxRecordSize < 65536 := by decide
      rw [UInt16.toNat_ofNat', Nat.mod_eq_of_lt (by omega)]

/-- Of `aé` two bytes leave `a`. -/
theorem utf8_cuts_two : LongestPrefix [0x61, 0xC3, 0xA9] 2 1 :=
  (utf8_cuts.1 [0x61, 0xC3, 0xA9] 2 (utf8_iff.mpr ⟨['a', 'é'], by decide⟩) (by decide)).1

end P8.Service
