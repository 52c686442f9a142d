import P8.Wire

/-!
# Log formats

`cp8_log::parse_format_string` (`engine/p8_log.cpp`) on a 64-bit target other than Windows: the arguments a
printf-style format reads from its `va_list`, each with the type and size that go to its descriptor. The scan is one
recursion over the format; the characters of a length prefix behind its first are counted in `skip`.

`FmtState` are the locals of the loop in the source, `FmtState.turn` one turn of it, and `scanFormat` the recursion
that takes a turn for each character. The tables of the source are functions here: `findPrefix` for the length
prefixes, and `intArg`, `strArg`, `floatArg` and `charArg` for the conversions, put together in `convArg`. What C
says of formats is not used in these definitions; the formats that C defines are in `Log/Grammar.lean`, to be
compared with them.

`LogVarg.Parsed` says which entries there can be at all. It holds of every entry, as a turn adds an entry of
`convArg` or nothing (`FmtState.turn_cases`), and there are never more than `logMaxArgs` of them
(`parseFormatString_length`).
-/

namespace P8

/-- 8-bit character (`P8_LOG_ARG_TYPE_CHAR`). -/
def logArgTypeChar : UInt8 := 0x01
/-- 8-bit integer (`P8_LOG_ARG_TYPE_INT8`). -/
def logArgTypeInt8 : UInt8 := 0x01
/-- 16-bit integer (`P8_LOG_ARG_TYPE_INT16`). -/
def logArgTypeInt16 : UInt8 := 0x03
/-- 32-bit integer (`P8_LOG_ARG_TYPE_INT32`). -/
def logArgTypeInt32 : UInt8 := 0x04
/-- 64-bit integer (`P8_LOG_ARG_TYPE_INT64`). -/
def logArgTypeInt64 : UInt8 := 0x05
/-- Double (`P8_LOG_ARG_TYPE_DOUBLE`). -/
def logArgTypeDouble : UInt8 := 0x06
/-- Pointer (`P8_LOG_ARG_TYPE_PVOID`). -/
def logArgTypePvoid : UInt8 := 0x07
/-- UTF-16 string (`P8_LOG_ARG_TYPE_USTR16`). -/
def logArgTypeUstr16 : UInt8 := 0x08
/-- 8-bit string (`P8_LOG_ARG_TYPE_STRA`). -/
def logArgTypeStra : UInt8 := 0x09
/-- UTF-8 string (`P8_LOG_ARG_TYPE_USTR8`). -/
def logArgTypeUstr8 : UInt8 := 0x0A
/-- UTF-32 string (`P8_LOG_ARG_TYPE_USTR32`). -/
def logArgTypeUstr32 : UInt8 := 0x0B
/-- 32-bit character (`P8_LOG_ARG_TYPE_CHAR32`). -/
def logArgTypeChar32 : UInt8 := 0x0C
/-- Largest integer (`P8_LOG_ARG_TYPE_INTMAX`). -/
def logArgTypeIntmax : UInt8 := 0x0D
/-- Long double (`P8_LOG_ARG_TYPE_LDOUBLE`). -/
def logArgTypeLdouble : UInt8 := 0x0E

/-- The most arguments of a format (`P8_LOG_MAX_ARGS`). -/
def logMaxArgs : Nat := 32

/-- `P8_SIZE_OF_ARG` of a type of `n` bytes. -/
def sizeOfArg (n : Nat) : UInt8 := UInt8.ofNat ((n + 7) / 8 * 8)

/-- An argument of a format (`s_p8_log_varg`). -/
structure LogVarg where
  muType : UInt8
  muSize : UInt8
  deriving DecidableEq, Repr

/-- Length prefixes (`e_prefix_type`). -/
inductive PrefixType where
  | i64
  | i32
  | ll
  | l
  | hh
  | h
  | i
  | w
  | j
  | upperL
  | unknown
  deriving DecidableEq, Repr

/-- The prefixes with their texts, the longest first (`gs_prefixes`). -/
def gsPrefixes : List (List Char × PrefixType) :=
  [(['I', '6', '4'], .i64), (['I', '3', '2'], .i32), (['l', 'l'], .ll), (['h', 'h'], .hh), (['h'], .h),
    (['l'], .l), (['L'], .upperL), (['I'], .i), (['z'], .i), (['t'], .i), (['w'], .w), (['j'], .j)]

/-- The prefix at the front of a text (`find_prefix`). -/
def findPrefix (cs : List Char) : Option (List Char × PrefixType) :=
  gsPrefixes.find? fun x => x.1.isPrefixOf cs

/-- The argument of `d i o u x X b B`. -/
def intArg : PrefixType → LogVarg
  | .unknown => ⟨logArgTypeInt32, sizeOfArg 4⟩
  | .ll => ⟨logArgTypeInt64, sizeOfArg 8⟩
  | .i64 => ⟨logArgTypeInt64, sizeOfArg 8⟩
  | .h => ⟨logArgTypeInt16, sizeOfArg 2⟩
  | .hh => ⟨logArgTypeInt8, sizeOfArg 1⟩
  | .l => ⟨logArgTypeInt64, sizeOfArg 8⟩
  | .i32 => ⟨logArgTypeInt32, sizeOfArg 4⟩
  | .i => ⟨logArgTypeInt64, sizeOfArg 8⟩
  | .j => ⟨logArgTypeIntmax, sizeOfArg 8⟩
  | _ => ⟨logArgTypeInt32, sizeOfArg 4⟩

/-- The argument of `s S`; its size field says whether a width was given. -/
def strArg (pfx : PrefixType) (hasWidth : UInt8) (c : Char) : LogVarg :=
  if pfx = .h then ⟨logArgTypeStra, hasWidth⟩
  else if c = 'S' then ⟨logArgTypeUstr32, hasWidth⟩
  else if pfx = .l then ⟨logArgTypeUstr32, hasWidth⟩
  else ⟨logArgTypeUstr8, hasWidth⟩

/-- The argument of `e E f F g G a A`. -/
def floatArg (pfx : PrefixType) : LogVarg :=
  if pfx = .upperL then ⟨logArgTypeLdouble, sizeOfArg 16⟩ else ⟨logArgTypeDouble, sizeOfArg 8⟩

/-- The argument of `c C`. -/
def charArg (pfx : PrefixType) : LogVarg :=
  if pfx = .h then ⟨logArgTypeChar, sizeOfArg 1⟩
  else if pfx = .l then ⟨logArgTypeChar32, sizeOfArg 4⟩
  else ⟨logArgTypeChar, sizeOfArg 1⟩

/-- The argument a conversion reads. -/
def convArg (pfx : PrefixType) (hasWidth : UInt8) (c : Char) : Option LogVarg :=
  if c ∈ ['d', 'i', 'o', 'u', 'x', 'X', 'b', 'B'] then some (intArg pfx)
  else if c ∈ ['s', 'S'] then some (strArg pfx hasWidth c)
  else if c = 'p' then some ⟨logArgTypePvoid, sizeOfArg 8⟩
  else if c ∈ ['e', 'E', 'f', 'F', 'g', 'G', 'a', 'A'] then some (floatArg pfx)
  else if c ∈ ['c', 'C'] then some (charArg pfx)
  else none

/-- The locals of the scan. -/
structure FmtState where
  opArgs : List LogVarg
  lbPercent : Bool
  lePrefix : PrefixType
  luHasWidth : UInt8
  skip : Nat

namespace FmtState

/-- The check for a width digit at the end of each turn inside a conversion. -/
def digit (s : FmtState) (c : Char) : FmtState :=
  if s.lbPercent ∧ '0' ≤ c ∧ c ≤ '9' then { s with luHasWidth := 1 } else s

/-- One character of the format, with what follows it; `none` ends the scan as all arguments are taken. -/
def turn (s : FmtState) (max : Nat) (c : Char) (cs : List Char) : Option FmtState :=
  if s.skip > 0 then
    let s := { s with skip := s.skip - 1 }
    if s.skip = 0 then some (s.digit c) else some s
  else if s.lbPercent = false then
    if c = '%' then some { s with lbPercent := true, lePrefix := .unknown, luHasWidth := 0 } else some s
  else if c = '*' then
    if s.opArgs.length ≥ max then none
    else some { s with opArgs := s.opArgs ++ [⟨logArgTypeInt32, sizeOfArg 4⟩], luHasWidth := 1 }
  else if c ∈ ['I', 'l', 'h', 'w', 'z', 'j', 't', 'L'] then
    match findPrefix (c :: cs) with
    | none => some s
    | some (text, pfx) => some { s with lePrefix := pfx, skip := text.length - 1 }
  else
    match convArg s.lePrefix s.luHasWidth c with
    | some a =>
      if s.opArgs.length ≥ max then none else some { s with opArgs := s.opArgs ++ [a], lbPercent := false }
    | none => if c = '%' then some { s with lbPercent := false } else some (s.digit c)

end FmtState

/-- The scan of the format from some locals on. -/
def scanFormat (max : Nat) : List Char → FmtState → List LogVarg
  | [], s => s.opArgs
  | c :: cs, s =>
    match s.turn max c cs with
    | none => s.opArgs
    | some s => scanFormat max cs s

/-- The arguments of a format, at most `max` (`parse_format_string`). -/
def parseFormatString (max : Nat) (format : List Char) : List LogVarg :=
  scanFormat max format ⟨[], false, .unknown, 0, 0⟩

/-- The check for a width digit keeps the arguments found. -/
lemma FmtState.digit_opArgs (s : FmtState) (c : Char) : (s.digit c).opArgs = s.opArgs := by
  unfold FmtState.digit
  split <;> rfl

/-- An argument of a `*` or of a conversion. -/
def LogVarg.Parsed (a : LogVarg) : Prop :=
  a = ⟨logArgTypeInt32, sizeOfArg 4⟩ ∨ ∃ pfx hasWidth c, convArg pfx hasWidth c = some a

/-- One character adds no argument, or one where there is room. -/
lemma FmtState.turn_cases {s s' : FmtState} {max : Nat} {c : Char} {cs : List Char} (h : s.turn max c cs = some s') :
    s'.opArgs = s.opArgs ∨ s.opArgs.length < max ∧ ∃ a : LogVarg, a.Parsed ∧ s'.opArgs = s.opArgs ++ [a] := by
  unfold FmtState.turn at h
  split at h
  · -- inside a length prefix
    simp only at h
    split at h
    case isTrue =>
      cases h
      exact .inl (FmtState.digit_opArgs _ _)
    case isFalse =>
      cases h
      exact .inl rfl
  · split at h
    · split at h
      all_goals
        cases h
        exact .inl rfl
    · split at h
      · split at h
        case isTrue => cases h
        case isFalse hroom =>
          cases h
          exact .inr ⟨Nat.not_le.mp hroom, _, .inl rfl, rfl⟩
      · split at h
        · split at h
          all_goals
            cases h
            exact .inl rfl
        · split at h
          case h_1 hconv =>
            split at h
            case isTrue => cases h
            case isFalse hroom =>
              cases h
              exact .inr ⟨Nat.not_le.mp hroom, _, .inr ⟨_, _, _, hconv⟩, rfl⟩
          case h_2 =>
            split at h
            case isTrue =>
              cases h
              exact .inl rfl
            case isFalse =>
              cases h
              exact .inl (FmtState.digit_opArgs _ _)

/-- One character adds at most one argument, and none when there are `max`. -/
lemma FmtState.turn_length {s s' : FmtState} {max : Nat} {c : Char} {cs : List Char}
    (h : s.opArgs.length ≤ max) (ht : s.turn max c cs = some s') : s'.opArgs.length ≤ max := by
  obtain heq | ⟨hlt, a, -, heq⟩ := FmtState.turn_cases ht
  · rw [heq]
    exact h
  · rw [heq, List.length_append]
    exact hlt

/-- A format has at most `max` arguments. -/
lemma parseFormatString_length (max : Nat) (format : List Char) :
    (parseFormatString max format).length ≤ max := by
  have key : ∀ s : FmtState, s.opArgs.length ≤ max → (scanFormat max format s).length ≤ max := by
    induction format with
    | nil => exact fun s h => h
    | cons c cs ih =>
      intro s h
      unfold scanFormat
      split
      · exact h
      · rename_i ht
        exact ih _ (FmtState.turn_length h ht)
  exact key _ (Nat.zero_le _)

/-- The arguments of a format are those of its `*` and conversions. -/
lemma parsed_of_mem {max : Nat} {format : List Char} {a : LogVarg} (h : a ∈ parseFormatString max format) :
    a.Parsed := by
  have key : ∀ s : FmtState, (∀ a ∈ s.opArgs, a.Parsed) → ∀ a ∈ scanFormat max format s, a.Parsed := by
    clear h
    induction format with
    | nil => exact fun s hs => hs
    | cons c cs ih =>
      intro s hs
      rw [scanFormat]
      split
      case h_1 => exact hs
      case h_2 ht =>
        apply ih
        obtain heq | ⟨-, b, hb, heq⟩ := FmtState.turn_cases ht
        · rw [heq]
          exact hs
        · intro a ha
          rw [heq, List.mem_append, List.mem_singleton] at ha
          rcases ha with ha | rfl
          · exact hs a ha
          · exact hb
  exact key _ (fun _ hb => by cases hb) a h

example : parseFormatString logMaxArgs "%s: %-8lld (%5.2f) %%%c".toList
    = [⟨logArgTypeUstr8, 0⟩, ⟨logArgTypeInt64, 8⟩, ⟨logArgTypeDouble, 8⟩, ⟨logArgTypeChar, 8⟩] := by decide

end P8
