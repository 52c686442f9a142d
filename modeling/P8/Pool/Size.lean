import P8.Pool.Served
import Mathlib.Data.List.TakeWhile

/-!
# Memory sizes

`parse_size` of `engine/p8_core.cpp` against what a size text says: digits and a unit, or `infinite`. The buffer of
128 bytes, `strtoull` and two multiplications stand between the two; `Misread` lists the texts for which they
matter.

`Spells` is the syntax of sizes and `Means` what they stand for, a number without a bound; neither mentions how the
text is read. `Misread` has a rule for each way to misread one: a text that `strtoull` accepts in front (white
space, signs), a number or a product that does not fit 64 bits, and a text longer than the buffer whose front has
another meaning.

The sections go along the code: digits and units, `strtoull` on what is in the buffer (`strtoull_lead`,
`strtoull_some`), and `parse_size` on the parts of a text (`parseSize_spells`, `spells_of_parseSize`). `Exact` is
the property, that a size is accepted with its meaning and anything else refused; there is one lemma for each rule
of `Misread` that the property fails then, and `parseSize_exact` puts them together.
-/

namespace P8.Config

/-- A letter in lower case. -/
def toLower (c : UInt8) : UInt8 := if 65 ≤ c ∧ c ≤ 90 then c + 32 else c

/-- A text in lower case. -/
def lower (s : List UInt8) : List UInt8 := s.map toLower

/-- The loop of `parse_size`: the string without its spaces and tabs, while `la_buf` has room. -/
def copyText : List UInt8 → Nat → List UInt8
  | [], _ => []
  | _, 0 => []
  | c :: ipStr, room + 1 => if c ≠ 32 ∧ c ≠ 9 then c :: copyText ipStr room else copyText ipStr (room + 1)

section
variable (strCasecmp : List UInt8 → List UInt8 → Bool)

/-- `parse_size`: its result, and what it leaves in `oz_result`. -/
def parseSizeInto (ipStr : List UInt8) (ozResult : UInt64) : Bool × UInt64 :=
  let laBuf := copyText ipStr (128 - 1)
  if strCasecmp laBuf (ascii "infinite") then (true, UInt64.ofNat (UInt64.size - 1))
  else
    match strtoull laBuf with
    | none => (false, ozResult)
    | some (luVal, []) => (true, luVal)
    | some (luVal, lpEnd) =>
      if strCasecmp lpEnd (ascii "KB") || strCasecmp lpEnd (ascii "Ki") then (true, luVal * 1024)
      else if strCasecmp lpEnd (ascii "MB") || strCasecmp lpEnd (ascii "Mi") then (true, luVal * 1024 * 1024)
      else (false, ozResult)

end

/-- The string without spaces and tabs. -/
def text (ipStr : List UInt8) : List UInt8 := ipStr.filter fun c => c ≠ 32 ∧ c ≠ 9

/-- The factor of a unit, its letters of either case. -/
def unitOf (s : List UInt8) : Option Nat :=
  if s = [] then some 1
  else if lower s = ascii "kb" ∨ lower s = ascii "ki" then some 1024
  else if lower s = ascii "mb" ∨ lower s = ascii "mi" then some (1024 * 1024)
  else none

/-- A text of digits that write `n` and a unit of factor `u`. -/
inductive Spells : List UInt8 → Nat → Nat → Prop
  | mk {digits unit : List UInt8} {u : Nat} : digits ≠ [] → (∀ c ∈ digits, isDigit c = true) → unitOf unit = some u →
      Spells (digits ++ unit) (ofDigits digits) u

/-- The size a string stands for. -/
inductive Means (ipStr : List UInt8) : Nat → Prop
  | infinite : lower (text ipStr) = ascii "infinite" → Means ipStr (UInt64.size - 1)
  | size {n u : Nat} : Spells (text ipStr) n u → n * u < UInt64.size → Means ipStr (n * u)

/-- White space and a sign, which `strtoull` takes before the digits, and whether the sign is a minus. -/
inductive Lead : List UInt8 → Bool → Prop
  | none {ws : List UInt8} : (∀ c ∈ ws, isSpace c = true) → Lead ws false
  | plus {ws : List UInt8} : (∀ c ∈ ws, isSpace c = true) → Lead (ws ++ [43]) false
  | minus {ws : List UInt8} : (∀ c ∈ ws, isSpace c = true) → Lead (ws ++ [45]) true

/-- The texts that `parse_size` misreads. -/
inductive Misread : List UInt8 → Prop
  /-- White space other than a space or a tab, or a sign, before a number. -/
  | lead {t lead rest : List UInt8} {isNegative : Bool} {n u : Nat} : Lead lead isNegative → lead ≠ [] →
      Spells rest n u → t.take 127 = lead ++ rest → Misread t
  /-- A size of more than 64 bits. -/
  | overflow {t : List UInt8} {n u : Nat} : t.length ≤ 127 → Spells t n u → UInt64.size ≤ n * u → Misread t
  /-- A text cut after a size, unless it is a zero in more than 127 bytes. -/
  | cutNumber {t : List UInt8} {n u : Nat} : 127 < t.length → Spells (t.take 127) n u → (∀ u, ¬Spells t 0 u) → Misread t
  /-- A size in 128 bytes whose unit loses its last letter. -/
  | cutUnit {digits unit : List UInt8} {u : Nat} : digits.length = 126 → (∀ c ∈ digits, isDigit c = true) → unit ≠ [] →
      unitOf unit = some u → ofDigits digits * u < UInt64.size → Misread (digits ++ unit)

/-! ## Digits and units -/

/-- The loop copies the first bytes of the text. -/
lemma copyText_eq (s : List UInt8) (room : Nat) : copyText s room = (text s).take room := by
  induction s generalizing room with
  | nil => cases room <;> rfl
  | cons c s ih =>
    cases room with
    | zero => rfl
    | succ room =>
      show (if c ≠ 32 ∧ c ≠ 9 then c :: copyText s room else copyText s (room + 1)) = _
      rw [text, List.filter_cons]
      by_cases hc : c ≠ 32 ∧ c ≠ 9
      · rw [if_pos hc, if_pos (by simpa using hc), ih]
        rfl
      · rw [if_neg hc, if_neg (by simpa using hc), ih]
        rfl

/-- A letter is no digit. -/
lemma isDigit_eq_false {c k : UInt8} (h : toLower c = k) (hk : 97 ≤ k) : isDigit c = false := by
  subst h
  simp only [toLower, isDigit, Bool.and_eq_false_iff, decide_eq_false_iff_not, UInt8.le_iff_toNat_le] at hk ⊢
  split at hk
  case isTrue h =>
    have := h.1
    right
    intro hc
    change 65 ≤ c.toNat at this
    change c.toNat ≤ 57 at hc
    omega
  case isFalse =>
    right
    intro hc
    change 97 ≤ c.toNat at hk
    change c.toNat ≤ 57 at hc
    omega

/-- `infinite` has no digit. -/
lemma infinite_notDigit {s : List UInt8} (h : lower s = ascii "infinite") : ∀ c ∈ s, isDigit c = false := by
  have hk : (ascii "infinite").all (97 ≤ ·) = true := by decide
  intro c hc
  exact isDigit_eq_false rfl (of_decide_eq_true (List.all_eq_true.mp hk _ (h ▸ List.mem_map_of_mem hc)))

/-- `infinite` fits `la_buf`. -/
lemma infinite_take {t : List UInt8} (h : lower (t.take 127) = ascii "infinite") : t.take 127 = t := by
  apply List.take_of_length_le
  have hl : (t.take 127).length = 8 := by
    have := congrArg List.length h
    simpa [lower, ascii] using this
  rw [List.length_take] at hl
  omega

/-- A unit is empty or two letters. -/
lemma unitOf_cases {s : List UInt8} {u : Nat} (h : unitOf s = some u) :
    (s = [] ∧ u = 1) ∨ ∃ c d, s = [c, d] ∧ isDigit c = false ∧ 1024 ≤ u := by
  have two : ∀ {k l : UInt8}, 97 ≤ k → lower s = [k, l] → ∃ c d, s = [c, d] ∧ isDigit c = false := by
    intro k l hk hs
    match s, hs with
    | [c, d], hs =>
      have hc : toLower c = k := (List.cons.inj hs).1
      exact ⟨c, d, rfl, isDigit_eq_false hc hk⟩
  unfold unitOf at h
  split at h
  case isTrue hs => exact .inl ⟨hs, (Option.some.inj h).symm⟩
  case isFalse =>
    right
    split at h
    case isTrue hs =>
      cases Option.some.inj h
      obtain ⟨c, d, hs, hc⟩ := hs.elim (two (by decide)) (two (by decide))
      exact ⟨c, d, hs, hc, by decide⟩
    case isFalse =>
      split at h
      case isTrue hs =>
        cases Option.some.inj h
        obtain ⟨c, d, hs, hc⟩ := hs.elim (two (by decide)) (two (by decide))
        exact ⟨c, d, hs, hc, by decide⟩
      case isFalse => cases h

/-- A factor is positive. -/
lemma one_le_unitOf {s : List UInt8} {u : Nat} (h : unitOf s = some u) : 1 ≤ u := by
  rcases unitOf_cases h with ⟨-, hu⟩ | ⟨_, _, -, -, hu⟩ <;> omega

/-- Digits end where a unit begins. -/
lemma takeWhile_unit {digits unit : List UInt8} {u : Nat} (hd : ∀ c ∈ digits, isDigit c = true)
    (hu : unitOf unit = some u) : (digits ++ unit).takeWhile isDigit = digits := by
  rw [List.takeWhile_append_of_pos hd]
  rcases unitOf_cases hu with ⟨rfl, -⟩ | ⟨c, d, rfl, hc, -⟩
  · simp
  · simp [hc]

/-- What a text spells is told by the text. -/
lemma Spells.digits {t : List UInt8} {n u : Nat} (h : Spells t n u) :
    n = ofDigits (t.takeWhile isDigit) ∧ t.takeWhile isDigit ≠ [] ∧ unitOf (t.dropWhile isDigit) = some u := by
  obtain ⟨hn, hd, hu⟩ := h
  have hw := takeWhile_unit hd hu
  have hr : ∀ {digits unit : List UInt8}, (digits ++ unit).takeWhile isDigit = digits →
      (digits ++ unit).dropWhile isDigit = unit := by
    intro digits unit hw
    have := List.takeWhile_append_dropWhile (p := isDigit) (l := digits ++ unit)
    rw [hw] at this
    exact List.append_cancel_left this
  rw [hr hw, hw]
  exact ⟨rfl, hn, hu⟩

/-- A text spells one size. -/
lemma Spells.unique {t : List UInt8} {n u n' u' : Nat} (h : Spells t n u) (h' : Spells t n' u') : n = n' ∧ u = u' := by
  obtain ⟨hn, -, hu⟩ := h.digits
  obtain ⟨hn', -, hu'⟩ := h'.digits
  exact ⟨hn.trans hn'.symm, Option.some.inj (hu.symm.trans hu')⟩

/-- More digits write no less, and each one more ten times as much. -/
lemma ofDigits_append (a b : List UInt8) : ofDigits (a ++ b) = ofDigits a * 10 ^ b.length + ofDigits b := by
  induction b using List.reverseRecOn with
  | nil => simp [ofDigits]
  | append_singleton b c ih =>
    have snoc : ∀ a : List UInt8, ofDigits (a ++ [c]) = 10 * ofDigits a + (c - 48).toNat := by
      intro a
      simp [ofDigits]
    rw [← List.append_assoc, snoc, snoc, ih, List.length_append, List.length_singleton, pow_succ]
    ring

/-- A text that spells a size begins with a digit. -/
lemma Spells.head {t : List UInt8} {n u : Nat} (h : Spells t n u) : ∃ c r, t = c :: r ∧ isDigit c = true := by
  obtain ⟨hn, hd, -⟩ := h
  cases hs : (_ : List UInt8) with
  | nil => exact absurd hs hn
  | cons c r =>
    subst hs
    exact ⟨c, _, rfl, hd c (List.mem_cons_self ..)⟩

/-! ## strtoull -/

/-- The number `strtoull` makes of a sign and digits. -/
def scanned (isNegative : Bool) (n : Nat) : UInt64 :=
  if UInt64.size ≤ n then UInt64.ofNat (UInt64.size - 1)
  else if isNegative then -UInt64.ofNat n else UInt64.ofNat n

/-- Nothing before the digits is a digit. -/
lemma Lead.notDigit {lead : List UInt8} {isNegative : Bool} (h : Lead lead isNegative) :
    ∀ c ∈ lead, isDigit c = false ∧ toLower c ≠ 105 := by
  have space : ∀ c, isSpace c = true → isDigit c = false ∧ toLower c ≠ 105 := by
    intro c hc
    rcases Bool.or_eq_true_iff.mp hc with h | h
    · rw [beq_iff_eq] at h
      subst h
      decide
    · have h := (Bool.and_eq_true_iff.mp h).2
      have h : c.toNat ≤ 13 := UInt8.le_iff_toNat_le.mp (of_decide_eq_true h)
      have hl : ¬(65 ≤ c ∧ c ≤ 90) := fun ⟨h', _⟩ => by
        have h' : 65 ≤ c.toNat := UInt8.le_iff_toNat_le.mp h'
        omega
      rw [toLower, if_neg hl]
      constructor
      · rw [isDigit, Bool.and_eq_false_iff]
        left
        refine decide_eq_false fun h' => ?_
        have h' : 48 ≤ c.toNat := UInt8.le_iff_toNat_le.mp h'
        omega
      · rintro rfl
        revert h
        decide
  intro c hc
  cases h with
  | none hs => exact space c (hs c hc)
  | plus hs =>
    rcases List.mem_append.mp hc with hc | hc
    · exact space c (hs c hc)
    · rw [List.mem_singleton.mp hc]
      decide
  | minus hs =>
    rcases List.mem_append.mp hc with hc | hc
    · exact space c (hs c hc)
    · rw [List.mem_singleton.mp hc]
      decide

/-- A digit is no white space and no sign. -/
lemma isDigit_plain {c : UInt8} (h : isDigit c = true) : isSpace c = false ∧ c ≠ 45 ∧ c ≠ 43 := by
  obtain ⟨h, -⟩ := Bool.and_eq_true_iff.mp h
  have h : 48 ≤ c.toNat := UInt8.le_iff_toNat_le.mp (of_decide_eq_true h)
  refine ⟨?_, ?_, ?_⟩
  · rw [isSpace, Bool.or_eq_false_iff, Bool.and_eq_false_iff]
    refine ⟨beq_false_of_ne ?_, .inr (decide_eq_false fun h' => ?_)⟩
    · rintro rfl
      revert h
      decide
    · have h' : c.toNat ≤ 13 := UInt8.le_iff_toNat_le.mp h'
      omega
  · rintro rfl
    revert h
    decide
  · rintro rfl
    revert h
    decide

/-- `strtoull` past the white space and the sign. -/
lemma strtoull_lead {lead digits rest : List UInt8} {isNegative : Bool} (hl : Lead lead isNegative) (hn : digits ≠ [])
    (hd : ∀ c ∈ digits, isDigit c = true) (hr : (digits ++ rest).takeWhile isDigit = digits) :
    strtoull (lead ++ (digits ++ rest)) = some (scanned isNegative (ofDigits digits), rest) := by
  obtain ⟨c, r, rfl⟩ := List.exists_cons_of_ne_nil hn
  obtain ⟨hc, hm, hp⟩ := isDigit_plain (hd c (List.mem_cons_self ..))
  have hw : (c :: r ++ rest).dropWhile isDigit = rest := by
    have := List.takeWhile_append_dropWhile (p := isDigit) (l := c :: r ++ rest)
    rw [hr] at this
    exact List.append_cancel_left this
  unfold strtoull scanned
  cases hl with
  | none hs =>
    rw [List.dropWhile_append_of_pos hs]
    have hb : (c :: r ++ rest).dropWhile isSpace = c :: r ++ rest := by
      rw [List.cons_append, List.dropWhile_cons_of_neg (by simp [hc])]
    have hm' : ((c :: r ++ rest).head? == some 45) = false := by simpa using hm
    have hp' : ((c :: r ++ rest).head? == some 43) = false := by simpa using hp
    simp only [hb, hm', hp', Bool.or_self, Bool.false_eq_true, if_false, hr, hw, if_neg hn]
    split <;> rfl
  | plus hs =>
    rw [List.append_assoc, List.dropWhile_append_of_pos hs]
    have hb : ([43] ++ (c :: r ++ rest)).dropWhile isSpace = [43] ++ (c :: r ++ rest) := rfl
    have ht : ([43] ++ (c :: r ++ rest)).tail = c :: r ++ rest := rfl
    have hm' : (([43] ++ (c :: r ++ rest)).head? == some 45) = false := rfl
    have hp' : (([43] ++ (c :: r ++ rest)).head? == some 43) = true := rfl
    simp only [hb, hm', hp', Bool.false_or, Bool.false_eq_true, if_true, if_false, ht, hr, hw, if_neg hn]
    split <;> rfl
  | minus hs =>
    rw [List.append_assoc, List.dropWhile_append_of_pos hs]
    have hb : ([45] ++ (c :: r ++ rest)).dropWhile isSpace = [45] ++ (c :: r ++ rest) := rfl
    have ht : ([45] ++ (c :: r ++ rest)).tail = c :: r ++ rest := rfl
    have hm' : (([45] ++ (c :: r ++ rest)).head? == some 45) = true := rfl
    simp only [hb, hm', Bool.true_or, if_true, ht, hr, hw, if_neg hn]
    split <;> rfl

/-- What a text is of which `strtoull` reads a number. -/
lemma strtoull_some {s rest : List UInt8} {v : UInt64} (h : strtoull s = some (v, rest)) :
    ∃ lead digits isNegative, s = lead ++ (digits ++ rest) ∧ Lead lead isNegative ∧ digits ≠ [] ∧
      (∀ c ∈ digits, isDigit c = true) ∧ v = scanned isNegative (ofDigits digits) := by
  have hs : ∀ c ∈ s.takeWhile isSpace, isSpace c = true := fun c hc => List.mem_takeWhile_imp hc
  -- whatever the sign, the digits are the ones after it
  have key : ∀ lead body isNegative, s = lead ++ body → Lead lead isNegative →
      (if body.takeWhile isDigit = [] then none
        else if UInt64.size ≤ ofDigits (body.takeWhile isDigit)
        then some (UInt64.ofNat (UInt64.size - 1), body.dropWhile isDigit)
        else some (if isNegative then -UInt64.ofNat (ofDigits (body.takeWhile isDigit))
          else UInt64.ofNat (ofDigits (body.takeWhile isDigit)), body.dropWhile isDigit)) = some (v, rest) →
      ∃ lead digits isNegative, s = lead ++ (digits ++ rest) ∧ Lead lead isNegative ∧ digits ≠ [] ∧
        (∀ c ∈ digits, isDigit c = true) ∧ v = scanned isNegative (ofDigits digits) := by
    intro lead body isNegative he hl hv
    by_cases hd : body.takeWhile isDigit = []
    · rw [if_pos hd] at hv
      cases hv
    rw [if_neg hd] at hv
    have hb := List.takeWhile_append_dropWhile (p := isDigit) (l := body)
    refine ⟨lead, body.takeWhile isDigit, isNegative, ?_, hl, hd, fun c hc => List.mem_takeWhile_imp hc, ?_⟩
    · split at hv <;> · cases hv; rw [hb, he]
    · unfold scanned
      split at hv
      case isTrue hlt => cases hv; rw [if_pos hlt]
      case isFalse hlt => cases hv; rw [if_neg hlt]
  have hb := (List.takeWhile_append_dropWhile (p := isSpace) (l := s)).symm
  unfold strtoull at h
  cases hbody : s.dropWhile isSpace with
  | nil =>
    rw [hbody] at h
    cases h
  | cons c body =>
    rw [hbody] at h hb
    by_cases hm : c = 45
    · subst hm
      exact key (s.takeWhile isSpace ++ [45]) body true (by rw [List.append_assoc]; exact hb) (.minus hs) h
    by_cases hp : c = 43
    · subst hp
      exact key (s.takeWhile isSpace ++ [43]) body false (by rw [List.append_assoc]; exact hb) (.plus hs) h
    refine key (s.takeWhile isSpace) (c :: body) false hb (.none hs) ?_
    have hm' : ((c :: body).head? == some 45) = false := by simpa using hm
    have hp' : ((c :: body).head? == some 43) = false := by simpa using hp
    simpa only [hm', hp', Bool.or_self, Bool.false_eq_true, if_false] using h

/-! ## parse_size -/

section
variable {strCasecmp : List UInt8 → List UInt8 → Bool}

/-- `parse_size` reads the text as far as `la_buf` holds it. -/
lemma parseSize_text (ipStr : List UInt8) : parseSize strCasecmp ipStr =
    if strCasecmp ((text ipStr).take 127) (ascii "infinite") then some (UInt64.ofNat (UInt64.size - 1))
    else
      match strtoull ((text ipStr).take 127) with
      | none => none
      | some (luVal, []) => some luVal
      | some (luVal, lpEnd) =>
        if strCasecmp lpEnd (ascii "KB") || strCasecmp lpEnd (ascii "Ki") then some (luVal * 1024)
        else if strCasecmp lpEnd (ascii "MB") || strCasecmp lpEnd (ascii "Mi") then some (luVal * 1024 * 1024)
        else none := rfl

/-- `parse_size` writes `oz_result` where it succeeds only. -/
lemma parseSizeInto_eq (ipStr : List UInt8) (ozResult : UInt64) :
    parseSizeInto strCasecmp ipStr ozResult =
      ((parseSize strCasecmp ipStr).isSome, (parseSize strCasecmp ipStr).getD ozResult) := by
  rw [parseSize_text]
  simp only [parseSizeInto, copyText_eq, Nat.add_one_sub_one]
  generalize (text ipStr).take 127 = laBuf
  split
  case isTrue => rfl
  case isFalse =>
    cases strtoull laBuf with
    | none => rfl
    | some r =>
      obtain ⟨luVal, lpEnd⟩ := r
      cases lpEnd with
      | nil => rfl
      | cons c lpEnd =>
        simp only []
        split
        case isTrue => rfl
        case isFalse => split <;> rfl

variable (hc : ∀ a b, strCasecmp a b = true ↔ lower a = lower b)
include hc

/-- `parse_size` asks for the unit. -/
lemma unit_asked (lpEnd : List UInt8) (luVal : UInt64) :
    (match lpEnd with
      | [] => some luVal
      | lpEnd =>
        if strCasecmp lpEnd (ascii "KB") || strCasecmp lpEnd (ascii "Ki") then some (luVal * 1024)
        else if strCasecmp lpEnd (ascii "MB") || strCasecmp lpEnd (ascii "Mi") then some (luVal * 1024 * 1024)
        else none) = (unitOf lpEnd).map fun u => luVal * UInt64.ofNat u := by
  have he : ∀ b, strCasecmp lpEnd b = decide (lower lpEnd = lower b) := by
    intro b
    rw [Bool.eq_iff_iff, hc, decide_eq_true_iff]
  have hk : lower (ascii "KB") = ascii "kb" ∧ lower (ascii "Ki") = ascii "ki" := by decide
  have hm : lower (ascii "MB") = ascii "mb" ∧ lower (ascii "Mi") = ascii "mi" := by decide
  cases lpEnd with
  | nil => simp [unitOf]
  | cons c r =>
    simp only [he, hk.1, hk.2, hm.1, hm.2, unitOf, if_neg (List.cons_ne_nil c r), ← Bool.decide_or, decide_eq_true_eq]
    split
    case isTrue => rfl
    case isFalse =>
      split
      case isTrue =>
        rw [UInt64.mul_assoc]
        rfl
      case isFalse => rfl

/-- What `parse_size` accepts, and what it makes of it. -/
lemma parseSize_eq_some {ipStr : List UInt8} {v : UInt64} : parseSize strCasecmp ipStr = some v ↔
    (lower ((text ipStr).take 127) = ascii "infinite" ∧ v = UInt64.ofNat (UInt64.size - 1)) ∨
      ∃ lead digits unit isNegative u, (text ipStr).take 127 = lead ++ (digits ++ unit) ∧ Lead lead isNegative ∧
        digits ≠ [] ∧ (∀ c ∈ digits, isDigit c = true) ∧ unitOf unit = some u ∧
        v = scanned isNegative (ofDigits digits) * UInt64.ofNat u := by
  have hi : lower (ascii "infinite") = ascii "infinite" := by decide
  have hp : parseSize strCasecmp ipStr =
      if strCasecmp ((text ipStr).take 127) (ascii "infinite") then some (UInt64.ofNat (UInt64.size - 1))
      else (strtoull ((text ipStr).take 127)).bind fun r => (unitOf r.2).map fun u => r.1 * UInt64.ofNat u := by
    rw [parseSize_text]
    congr 1
    cases strtoull ((text ipStr).take 127) with
    | none => rfl
    | some r =>
      obtain ⟨luVal, lpEnd⟩ := r
      refine Eq.trans ?_ (unit_asked hc lpEnd luVal)
      cases lpEnd <;> rfl
  rw [hp]
  constructor
  · intro h
    split at h
    case isTrue hs =>
      exact .inl ⟨((hc _ _).mp hs).trans hi, (Option.some.inj h).symm⟩
    case isFalse hs =>
      right
      obtain ⟨⟨luVal, lpEnd⟩, hr, h⟩ := Option.bind_eq_some_iff.mp h
      obtain ⟨u, hu, rfl⟩ := Option.map_eq_some_iff.mp h
      obtain ⟨lead, digits, isNegative, he, hl, hn, hd, rfl⟩ := strtoull_some hr
      exact ⟨lead, digits, lpEnd, isNegative, u, he, hl, hn, hd, hu, rfl⟩
  · rintro (⟨h, rfl⟩ | ⟨lead, digits, unit, isNegative, u, he, hl, hn, hd, hu, rfl⟩)
    · rw [if_pos ((hc _ _).mpr (h.trans hi.symm))]
    · rw [if_neg, he, strtoull_lead hl hn hd (takeWhile_unit hd hu)]
      · simp [hu]
      · intro hs
        have hs := ((hc _ _).mp hs).trans hi
        obtain ⟨c, r, rfl⟩ := List.exists_cons_of_ne_nil hn
        have hm : c ∈ (text ipStr).take 127 := by
          rw [he]
          simp
        have := infinite_notDigit hs c hm
        rw [hd c (List.mem_cons_self ..)] at this
        cases this

end

/-! ## What is misread -/

/-- A string stands for one size. -/
lemma Means.unique {ipStr : List UInt8} {v v' : Nat} (h : Means ipStr v) (h' : Means ipStr v') : v = v' := by
  have excl : ∀ {n u}, lower (text ipStr) = ascii "infinite" → ¬Spells (text ipStr) n u := by
    intro n u hi hs
    obtain ⟨c, r, ht, hd⟩ := hs.head
    have := infinite_notDigit hi c (by rw [ht]; exact List.mem_cons_self ..)
    rw [hd] at this
    cases this
  cases h with
  | infinite hi =>
    cases h' with
    | infinite => rfl
    | size hs => exact absurd hs (excl hi)
  | size hs =>
    cases h' with
    | infinite hi => exact absurd hs (excl hi)
    | size hs' =>
      obtain ⟨rfl, rfl⟩ := hs.unique hs'
      rfl

/-- What `strtoull` and the multiplication make of a number and a factor. -/
lemma toNat_scanned (n u : Nat) : (scanned false n * UInt64.ofNat u).toNat =
    (if UInt64.size ≤ n then UInt64.size - 1 else n) * u % UInt64.size := by
  rw [UInt64.toNat_mul, UInt64.toNat_ofNat', ← Nat.mul_mod_mod _ u]
  congr 2
  unfold scanned
  split
  case isTrue => rfl
  case isFalse h => exact Nat.mod_eq_of_lt (Nat.not_le.mp h)

/-- A size of 64 bits is computed exactly. -/
lemma toNat_scanned_of_lt {n u : Nat} (hu : 1 ≤ u) (h : n * u < UInt64.size) :
    (scanned false n * UInt64.ofNat u).toNat = n * u := by
  have hn : n ≤ n * u := Nat.le_mul_of_pos_right n hu
  rw [toNat_scanned, if_neg (by omega), Nat.mod_eq_of_lt h]

/-- A unit that loses a letter is none. -/
lemma not_spells_cut {digits unit : List UInt8} {u : Nat} (hl : digits.length = 126)
    (hd : ∀ c ∈ digits, isDigit c = true) (hne : unit ≠ []) (hu : unitOf unit = some u) (m v : Nat) :
    ¬Spells ((digits ++ unit).take 127) m v := by
  intro hs
  rcases unitOf_cases hu with ⟨h0, -⟩ | ⟨c, d, rfl, hc, -⟩
  · exact hne h0
  have hb : (digits ++ [c, d]).take 127 = digits ++ [c] := by
    rw [List.take_append, hl, List.take_of_length_le (by omega)]
    rfl
  rw [hb] at hs
  have hw : (digits ++ [c]).takeWhile isDigit = digits := by
    rw [List.takeWhile_append_of_pos hd]
    simp [hc]
  have hr := List.takeWhile_append_dropWhile (p := isDigit) (l := digits ++ [c])
  rw [hw] at hr
  have hu' := hs.digits.2.2
  rw [List.append_cancel_left hr] at hu'
  rcases unitOf_cases hu' with ⟨h0, -⟩ | ⟨_, _, h0, -⟩ <;> cases h0

/-- A text of more than 127 bytes that spells a size is cut in its digits, after them, or between the letters. -/
lemma Spells.cut {t : List UInt8} {n u : Nat} (h : Spells t n u) (ht : 127 < t.length) :
    (∃ m, Spells (t.take 127) m 1 ∧ 10 * m ≤ n * u) ∨
      ∃ digits unit, t = digits ++ unit ∧ digits.length = 126 ∧ (∀ c ∈ digits, isDigit c = true) ∧ unit ≠ [] ∧
        unitOf unit = some u ∧ n = ofDigits digits := by
  obtain @⟨digits, unit, u, hn, hd, hu⟩ := h
  rw [List.length_append] at ht
  by_cases hl : 127 ≤ digits.length
  · left
    rw [List.take_append_of_le_length hl]
    refine ⟨ofDigits (digits.take 127), ?_, ?_⟩
    · have hs := @Spells.mk (digits.take 127) [] 1
      rw [List.append_nil] at hs
      apply hs
      · intro h0
        have := congrArg List.length h0
        rw [List.length_take, List.length_nil] at this
        omega
      · exact fun c hc => hd c (List.mem_of_mem_take hc)
      · rfl
    · have hm : ofDigits digits = ofDigits (digits.take 127) * 10 ^ (digits.drop 127).length +
          ofDigits (digits.drop 127) := by
        rw [← ofDigits_append, List.take_append_drop]
      rw [hm, Nat.mul_comm 10]
      rcases unitOf_cases hu with ⟨rfl, rfl⟩ | ⟨c, d, rfl, -, hk⟩
      · -- there is one more digit
        rw [Nat.mul_one]
        refine Nat.le_trans (Nat.mul_le_mul_left _ ?_) (Nat.le_add_right _ _)
        refine Nat.le_self_pow ?_ 10
        rw [List.length_drop]
        simp only [List.length_nil] at ht
        omega
      · refine Nat.mul_le_mul ?_ (Nat.le_trans (by decide) hk)
        exact Nat.le_trans (Nat.le_mul_of_pos_right _ (Nat.pow_pos (by decide))) (Nat.le_add_right _ _)
  · right
    rcases unitOf_cases hu with ⟨rfl, rfl⟩ | ⟨c, d, rfl, -⟩
    · simp only [List.length_nil] at ht
      omega
    simp only [List.length_cons, List.length_nil] at ht
    exact ⟨digits, [c, d], rfl, by omega, hd, List.cons_ne_nil _ _, hu, rfl⟩

section
variable {strCasecmp : List UInt8 → List UInt8 → Bool}

/-- `parse_size` does what it is for on a string: it succeeds if and only if the string stands for a size, with this
size, and leaves `oz_result` as it was otherwise. -/
def Exact (strCasecmp : List UInt8 → List UInt8 → Bool) (ipStr : List UInt8) : Prop :=
  ∀ ozResult, ((parseSizeInto strCasecmp ipStr ozResult).1 = true ↔ ∃ v, Means ipStr v) ∧
    (∀ v, Means ipStr v → (parseSizeInto strCasecmp ipStr ozResult).2.toNat = v) ∧
    ((parseSizeInto strCasecmp ipStr ozResult).1 = false → (parseSizeInto strCasecmp ipStr ozResult).2 = ozResult)

/-- The same of the result alone. -/
lemma exact_iff {ipStr : List UInt8} : Exact strCasecmp ipStr ↔
    (∀ v, parseSize strCasecmp ipStr = some v → Means ipStr v.toNat) ∧
      (parseSize strCasecmp ipStr = none → ∀ v, ¬Means ipStr v) := by
  unfold Exact
  simp only [parseSizeInto_eq]
  constructor
  · intro h
    obtain ⟨hs, hv, -⟩ := h 0
    constructor
    · intro v hp
      rw [hp] at hs hv
      obtain ⟨w, hw⟩ := hs.mp rfl
      rw [← hv w hw] at hw
      exact hw
    · intro hp v hm
      rw [hp] at hs
      cases hs.mpr ⟨v, hm⟩
  · rintro ⟨hs, hn⟩ ozResult
    cases hp : parseSize strCasecmp ipStr with
    | none => exact ⟨⟨nofun, fun ⟨v, hv⟩ => absurd hv (hn hp v)⟩, fun v hv => absurd hv (hn hp v), fun _ => rfl⟩
    | some v => exact ⟨⟨fun _ => ⟨_, hs v hp⟩, fun _ => rfl⟩, fun w hw => (hs v hp).unique hw, nofun⟩

variable (hc : ∀ a b, strCasecmp a b = true ↔ lower a = lower b)
include hc

/-- A text cut to one that spells a size is accepted. -/
lemma parseSize_spells {ipStr : List UInt8} {n u : Nat} (h : Spells ((text ipStr).take 127) n u) :
    parseSize strCasecmp ipStr = some (scanned false n * UInt64.ofNat u) := by
  generalize hb : (text ipStr).take 127 = b at h
  obtain ⟨hn, hd, hu⟩ := h
  exact (parseSize_eq_some hc).mpr
    (.inr ⟨[], _, _, false, u, hb, .none (fun c h => absurd h List.not_mem_nil), hn, hd, hu, rfl⟩)

/-- Where a digit comes first, an accepted text is one cut to a text that spells a size. -/
lemma spells_of_parseSize {ipStr : List UInt8} {v : UInt64} {c : UInt8} {r : List UInt8}
    (h : parseSize strCasecmp ipStr = some v) (ht : (text ipStr).take 127 = c :: r) (hd : isDigit c = true) :
    ∃ n u, Spells ((text ipStr).take 127) n u := by
  have notDigit : ∀ {c' : UInt8} {r' : List UInt8}, c :: r = c' :: r' → isDigit c' ≠ false := by
    intro c' r' h
    rw [← (List.cons.inj h).1, hd]
    decide
  rcases (parseSize_eq_some hc).mp h with ⟨hi, -⟩ | ⟨lead, digits, unit, neg, u, hb, hl, hn, hdd, hu, -⟩
  · rw [ht] at hi
    exact absurd (infinite_notDigit hi c (List.mem_cons_self ..)) (notDigit rfl)
  · cases lead with
    | nil =>
      have hs : Spells (digits ++ unit) (ofDigits digits) u := .mk hn hdd hu
      exact ⟨_, u, by rw [hb]; exact hs⟩
    | cons c' lead => exact absurd (hl.notDigit c' (List.mem_cons_self ..)).1 (notDigit (ht.symm.trans hb))

omit hc in
/-- Where a digit comes first, what a string stands for is spelled. -/
lemma Means.spells {ipStr : List UInt8} {v : Nat} {c : UInt8} {r : List UInt8} (h : Means ipStr v)
    (ht : text ipStr = c :: r) (hd : isDigit c = true) :
    ∃ n u, Spells (text ipStr) n u ∧ v = n * u ∧ v < UInt64.size := by
  cases h with
  | infinite hi =>
    have := infinite_notDigit hi c (by rw [ht]; exact List.mem_cons_self ..)
    rw [hd] at this
    cases this
  | size hs hlt => exact ⟨_, _, hs, rfl, hlt⟩

omit hc in
/-- The first byte of a cut text is that of the text. -/
lemma head_of_take {t r : List UInt8} {n : Nat} {c : UInt8} (h : t.take n = c :: r) : ∃ r, t = c :: r := by
  cases t with
  | nil =>
    rw [List.take_nil] at h
    cases h
  | cons c' t =>
    cases n with
    | zero => cases h
    | succ n => exact ⟨t, by rw [(List.cons.inj h).1]⟩

/-- White space or a sign before a number is accepted, and no size begins so. -/
lemma lead_misread {ipStr lead rest : List UInt8} {isNegative : Bool} {n u : Nat} (hl : Lead lead isNegative)
    (hne : lead ≠ []) (hs : Spells rest n u) (hb : (text ipStr).take 127 = lead ++ rest) :
    ¬Exact strCasecmp ipStr := by
  intro he
  obtain ⟨hd, hdd, hu⟩ := hs
  have hm := (exact_iff.mp he).1 _ ((parseSize_eq_some hc).mpr (.inr ⟨_, _, _, _, _, hb, hl, hd, hdd, hu, rfl⟩))
  obtain ⟨c, r, rfl⟩ := List.exists_cons_of_ne_nil hne
  obtain ⟨hcd, hci⟩ := hl.notDigit c (List.mem_cons_self ..)
  obtain ⟨r, ht⟩ := head_of_take hb
  generalize (_ : UInt64).toNat = v at hm
  cases hm with
  | infinite hi =>
    rw [ht] at hi
    exact hci (List.cons.inj hi).1
  | size hs' =>
    obtain ⟨c', r', ht', hd'⟩ := hs'.head
    rw [ht] at ht'
    cases ht'
    rw [hcd] at hd'
    cases hd'

/-- A size of more than 64 bits is accepted. -/
lemma overflow_misread {ipStr : List UInt8} {n u : Nat} (hl : (text ipStr).length ≤ 127) (hs : Spells (text ipStr) n u)
    (ho : UInt64.size ≤ n * u) : ¬Exact strCasecmp ipStr := by
  intro he
  have hcut : Spells ((text ipStr).take 127) n u := (List.take_of_length_le hl).symm ▸ hs
  have hp := parseSize_spells hc hcut
  obtain ⟨c, r, ht, hd⟩ := hs.head
  obtain ⟨n', u', hs', hv, hlt⟩ := ((exact_iff.mp he).1 _ hp).spells ht hd
  obtain ⟨rfl, rfl⟩ := hs'.unique hs
  omega

/-- What is cut after a size is accepted with another size. -/
lemma cutNumber_misread {ipStr : List UInt8} {n u : Nat} (hl : 127 < (text ipStr).length)
    (hs : Spells ((text ipStr).take 127) n u) (hz : ∀ u, ¬Spells (text ipStr) 0 u) : ¬Exact strCasecmp ipStr := by
  intro he
  obtain ⟨c, r, hb, hd⟩ := hs.head
  obtain ⟨r, ht⟩ := head_of_take hb
  obtain ⟨n', u', hs', hv, hlt⟩ := ((exact_iff.mp he).1 _ (parseSize_spells hc hs)).spells ht hd
  rcases hs'.cut hl with ⟨m, hm, hle⟩ | ⟨digits, unit, ht', h126, hdd, hne, hu, -⟩
  · obtain ⟨rfl, rfl⟩ := hs.unique hm
    rw [toNat_scanned, Nat.mul_one] at hv
    -- the number that was cut is no larger, so the size is zero
    have h0 : n' * u' = 0 := by
      have hle' := Nat.mod_le (if UInt64.size ≤ n then UInt64.size - 1 else n) UInt64.size
      rw [hv] at hle'
      split at hle' <;> omega
    rcases Nat.mul_eq_zero.mp h0 with h0 | h0
    · exact hz u' (h0 ▸ hs')
    · have := one_le_unitOf hs'.digits.2.2
      omega
  · rw [ht'] at hs
    exact not_spells_cut h126 hdd hne hu n u hs

/-- A size whose unit loses its last letter is refused. -/
lemma cutUnit_misread {ipStr digits unit : List UInt8} {u : Nat} (hl : digits.length = 126)
    (hd : ∀ c ∈ digits, isDigit c = true) (hne : unit ≠ []) (hu : unitOf unit = some u)
    (hlt : ofDigits digits * u < UInt64.size) (ht : text ipStr = digits ++ unit) : ¬Exact strCasecmp ipStr := by
  intro he
  have hn : digits ≠ [] := by
    rintro rfl
    cases hl
  have hs : Spells (text ipStr) (ofDigits digits) u := ht ▸ .mk hn hd hu
  cases hp : parseSize strCasecmp ipStr with
  | none => exact (exact_iff.mp he).2 hp _ (.size hs hlt)
  | some v =>
    obtain ⟨c, r, hh, hdc⟩ := hs.head
    have hb : (text ipStr).take 127 = c :: r.take 126 := by
      rw [hh]
      rfl
    obtain ⟨n, u', hs'⟩ := spells_of_parseSize hc hp hb hdc
    rw [ht] at hs'
    exact not_spells_cut hl hd hne hu n u' hs'

omit hc in
/-- What is accepted without white space and a sign is the size, unless the text is misread. -/
lemma means_of_spells {ipStr : List UInt8} {n u : Nat} (hm : ¬Misread (text ipStr))
    (hs : Spells ((text ipStr).take 127) n u) : Means ipStr (scanned false n * UInt64.ofNat u).toNat := by
  have hu := one_le_unitOf hs.digits.2.2
  by_cases hl : (text ipStr).length ≤ 127
  · rw [List.take_of_length_le hl] at hs
    have hlt : n * u < UInt64.size := Nat.not_le.mp fun h => hm (.overflow hl hs h)
    rw [toNat_scanned_of_lt hu hlt]
    exact .size hs hlt
  · have hl := Nat.not_le.mp hl
    obtain ⟨u', hs'⟩ : ∃ u', Spells (text ipStr) 0 u' := by
      by_contra hz
      exact hm (.cutNumber hl hs fun u' h => hz ⟨u', h⟩)
    -- a zero is cut to a zero
    have hn : n = 0 := by
      rcases hs'.cut hl with ⟨m, hm, hle⟩ | ⟨digits, unit, ht, h126, hd, hne, hu', -⟩
      · rw [(hs.unique hm).1]
        omega
      · rw [ht] at hs
        exact absurd hs (not_spells_cut h126 hd hne hu' n u)
    subst hn
    have hv : (scanned false 0 * UInt64.ofNat u).toNat = 0 * u' := by
      rw [toNat_scanned_of_lt hu (by rw [Nat.zero_mul]; decide), Nat.zero_mul, Nat.zero_mul]
    rw [hv]
    exact .size hs' (by rw [Nat.zero_mul]; decide)

/-- What is refused is no size, unless the text is misread. -/
lemma not_means_of_none {ipStr : List UInt8} (hm : ¬Misread (text ipStr)) (hp : parseSize strCasecmp ipStr = none)
    (v : Nat) : ¬Means ipStr v := by
  have refused : ∀ v, parseSize strCasecmp ipStr ≠ some v := fun v h => by rw [hp] at h; cases h
  intro hv
  cases hv with
  | infinite hi =>
    have ht : (text ipStr).take 127 = text ipStr := by
      apply List.take_of_length_le
      have := congrArg List.length hi
      rw [lower, List.length_map] at this
      have h8 : (ascii "infinite").length = 8 := by decide
      omega
    exact refused _ ((parseSize_eq_some hc).mpr (.inl ⟨ht.symm ▸ hi, rfl⟩))
  | @size n u hs hlt =>
    by_cases hl : (text ipStr).length ≤ 127
    · exact refused _ (parseSize_spells hc ((List.take_of_length_le hl).symm ▸ hs))
    · rcases hs.cut (Nat.not_le.mp hl) with ⟨m, hs', -⟩ | ⟨digits, unit, ht, h126, hd, hne, hu, rfl⟩
      · exact refused _ (parseSize_spells hc hs')
      · exact hm (ht ▸ .cutUnit h126 hd hne hu hlt)

/-- `parse_size` reads a string exactly unless its text is one of those it misreads. -/
theorem parseSize_exact (ipStr : List UInt8) : Exact strCasecmp ipStr ↔ ¬Misread (text ipStr) := by
  constructor
  · intro he hm
    generalize ht : text ipStr = t at hm
    cases hm with
    | lead hl hne hs hb => exact lead_misread hc hl hne hs (ht ▸ hb) he
    | overflow hl hs ho => exact overflow_misread hc (ht ▸ hl) (ht ▸ hs) ho he
    | cutNumber hl hs hz => exact cutNumber_misread hc (ht ▸ hl) (ht ▸ hs) (ht ▸ hz) he
    | cutUnit hl hd hne hu hlt => exact cutUnit_misread hc hl hd hne hu hlt ht he
  · intro hm
    refine exact_iff.mpr ⟨fun v hp => ?_, fun hp => not_means_of_none hc hm hp⟩
    rcases (parseSize_eq_some hc).mp hp with ⟨hi, rfl⟩ | ⟨lead, digits, unit, neg, u, hb, hl, hn, hd, hu, rfl⟩
    · exact .infinite (infinite_take hi ▸ hi)
    · have hs : Spells (digits ++ unit) (ofDigits digits) u := .mk hn hd hu
      cases lead with
      | cons c lead => exact absurd (.lead hl (List.cons_ne_nil c lead) hs hb) hm
      | nil =>
        have hneg : neg = false := by
          generalize hlead : ([] : List UInt8) = lead at hl
          cases hl with
          | none => rfl
          | plus => rfl
          | minus => simp at hlead
        subst hneg
        exact means_of_spells hm (by rw [hb]; exact hs)

end

/-- `-1` is no size, and is accepted as the largest. -/
theorem parseSize_minus : ¬Exact Shared.asciiCasecmp (ascii "-1") ∧
    parseSizeInto Shared.asciiCasecmp (ascii "-1") 0 = (true, UInt64.ofNat (UInt64.size - 1)) := by
  refine ⟨fun h => ?_, by decide⟩
  obtain ⟨v, hv⟩ := (h 0).1.mp (by decide)
  cases hv with
  | infinite hi => revert hi; decide
  | size hs =>
    obtain ⟨c, r, ht, hd⟩ := hs.head
    have ht' : text (ascii "-1") = [45, 49] := by decide
    rw [ht'] at ht
    cases ht
    revert hd
    decide

/-- A size of 64 bits in 127 bytes is not misread. -/
lemma not_misread {t : List UInt8} {n u : Nat} (hl : t.length ≤ 127) (hs : Spells t n u) (hlt : n * u < UInt64.size) :
    ¬Misread t := by
  intro h
  cases h with
  | @lead _ lead _ isNegative _ _ hle hne _ hb =>
    obtain ⟨c, r, rfl⟩ := List.exists_cons_of_ne_nil hne
    obtain ⟨c', r', ht, hd⟩ := hs.head
    rw [List.take_of_length_le hl, ht] at hb
    have := (hle.notDigit c (List.mem_cons_self ..)).1
    rw [← (List.cons.inj hb).1, hd] at this
    cases this
  | overflow _ hs' ho =>
    obtain ⟨rfl, rfl⟩ := hs.unique hs'
    omega
  | cutNumber hg => omega
  | cutUnit h126 _ hne hu =>
    rw [List.length_append, h126] at hl
    rcases unitOf_cases hu with ⟨h0, -⟩ | ⟨_, _, rfl, -⟩
    · exact hne h0
    · simp at hl

/-- `16 mb` is read exactly. -/
theorem parseSize_exact_plain : Exact Shared.asciiCasecmp (ascii "16 mb") ∧
    parseSizeInto Shared.asciiCasecmp (ascii "16 mb") 0 = (true, 16777216) := by
  refine ⟨(parseSize_exact (fun a b => beq_iff_eq) _).mpr ?_, by decide⟩
  have ht : text (ascii "16 mb") = [49, 54] ++ [109, 98] := by decide
  rw [ht]
  have hd : ([49, 54] : List UInt8).all isDigit = true := by decide
  exact not_misread (by decide) (.mk (by decide) (List.all_eq_true.mp hd)
    (show unitOf [109, 98] = some (1024 * 1024) by decide)) (by decide)

end P8.Config
