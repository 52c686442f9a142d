import P8.Log.Format

/-!
# The grammar of formats

printf formats as their parts: literal text, `%%` and conversion specifications, with the text of each and the
arguments it reads. `cp8_log::parse_format_string` finds the arguments of every such format, up to its limit
(`parse_format_grammar`).

A `Spec` is a specification with flags, a width, a precision, a length and a conversion; lengths and conversions are
joined in `Directive`, which has just the pairs that C defines. `Spec.text` is how it is written and `Spec.entries`
what it reads, both by recursion on the data, so that no specification needs a check of its well-formedness.

The scan of the source has one state for everything behind a `%`. Its lemmas go along the text of a part: the head
with flags and digits (`scanFormat_head`), where a turn changes only what `FmtState.read` says, the length prefix
(`scanFormat_length`, `scanFormat_skip`) and the conversion (`scanFormat_directive`). `scanFormat_piece` is one part
in front of any text, and `scanFormat_text` the induction on the parts. The limit comes in at the end: the scan with
a limit gives the front of what the scan without one gives (`scanFormat_take`).
-/

namespace P8

/-! ## The limit -/

/-- One character keeps the arguments found. -/
lemma FmtState.turn_prefix {s s' : FmtState} {max : Nat} {c : Char} {cs : List Char} (h : s.turn max c cs = some s') :
    s.opArgs <+: s'.opArgs := by
  obtain heq | ⟨-, a, -, heq⟩ := FmtState.turn_cases h
  · exact heq ▸ List.prefix_refl _
  · exact heq ▸ List.prefix_append _ _

/-- With all arguments taken the scan would end; with room for more it goes on the same. -/
lemma FmtState.turn_room {s : FmtState} {max n : Nat} {c : Char} {cs : List Char} (h : max ≤ n) :
    s.turn max c cs = s.turn n c cs ∨ s.turn max c cs = none ∧ max ≤ s.opArgs.length := by
  by_cases hfull : s.opArgs.length ≥ max
  case neg =>
    have hroom : ¬s.opArgs.length ≥ n := fun hn => hfull (Nat.le_trans h hn)
    left
    simp only [FmtState.turn, if_neg hfull, if_neg hroom]
  case pos =>
    rw [and_iff_left hfull]
    by_cases hroom : s.opArgs.length ≥ n
    · left
      simp only [FmtState.turn, if_pos hfull, if_pos hroom]
    · -- the two differ only where an argument is taken
      simp only [FmtState.turn, if_pos hfull, if_neg hroom]
      repeat' split
      all_goals first | exact .inl rfl | exact .inr rfl

/-- The scan keeps the arguments found. -/
lemma scanFormat_prefix (max : Nat) (format : List Char) (s : FmtState) : s.opArgs <+: scanFormat max format s := by
  induction format generalizing s with
  | nil => exact List.prefix_refl _
  | cons c cs ih =>
    rw [scanFormat]
    cases ht : s.turn max c cs with
    | none => exact List.prefix_refl _
    | some s' => exact (FmtState.turn_prefix ht).trans (ih s')

/-- A lower limit cuts the result. -/
lemma scanFormat_take {max n : Nat} (hn : max ≤ n) (format : List Char) {s : FmtState} (hs : s.opArgs.length ≤ max) :
    scanFormat max format s = (scanFormat n format s).take max := by
  induction format generalizing s with
  | nil => exact (List.take_of_length_le hs).symm
  | cons c cs ih =>
    obtain heq | ⟨hnone, hfull⟩ := @FmtState.turn_room s max n c cs hn
    · rw [scanFormat, scanFormat, ← heq]
      cases ht : s.turn max c cs with
      | none => exact (List.take_of_length_le hs).symm
      | some s' => exact ih (FmtState.turn_length hs ht)
    · obtain ⟨more, hmore⟩ := scanFormat_prefix n (c :: cs) s
      have hlen : s.opArgs.length = max := Nat.le_antisymm hs hfull
      rw [← hmore, ← hlen, List.take_left, scanFormat, hlen, hnone]

/-! ## Formats by their parts -/

/-- Length modifiers of integer conversions. -/
inductive IntLength where
  | none
  | hh
  | h
  | l
  | ll
  | j
  | z
  | t
  | upperI
  | i32
  | i64
  deriving DecidableEq

/-- Integer conversions. -/
inductive IntConv where
  | d
  | i
  | o
  | u
  | x
  | upperX
  | b
  | upperB

/-- Length modifiers of floating-point conversions. -/
inductive FloatLength where
  | none
  | l
  | upperL
  deriving DecidableEq

/-- Floating-point conversions. -/
inductive FloatConv where
  | e
  | upperE
  | f
  | upperF
  | g
  | upperG
  | a
  | upperA

/-- Length modifiers of string and character conversions. -/
inductive TextLength where
  | none
  | h
  | l
  deriving DecidableEq

/-- A length modifier with its conversion. -/
inductive Directive where
  | int (length : IntLength) (conv : IntConv)
  | float (length : FloatLength) (conv : FloatConv)
  | str (length : TextLength) (upper : Bool)
  | char (length : TextLength) (upper : Bool)
  | ptr

/-- Flags. -/
inductive Flag where
  | minus
  | plus
  | space
  | hash
  | zero

/-- A width, or what follows the point of a precision. -/
inductive Field where
  | absent
  | digits (ds : List (Fin 10))
  | star

/-- A conversion specification. -/
structure Spec where
  flags : List Flag
  width : Field
  precision : Option Field
  directive : Directive

/-- A part of a format. -/
inductive Piece where
  | literal (s : List Char) (h : '%' ∉ s)
  | percent
  | spec (s : Spec)

/-! ### The text of a part -/

def IntLength.text : IntLength → List Char
  | .none => []
  | .hh => ['h', 'h']
  | .h => ['h']
  | .l => ['l']
  | .ll => ['l', 'l']
  | .j => ['j']
  | .z => ['z']
  | .t => ['t']
  | .upperI => ['I']
  | .i32 => ['I', '3', '2']
  | .i64 => ['I', '6', '4']

def IntConv.char : IntConv → Char
  | .d => 'd'
  | .i => 'i'
  | .o => 'o'
  | .u => 'u'
  | .x => 'x'
  | .upperX => 'X'
  | .b => 'b'
  | .upperB => 'B'

def FloatLength.text : FloatLength → List Char
  | .none => []
  | .l => ['l']
  | .upperL => ['L']

def FloatConv.char : FloatConv → Char
  | .e => 'e'
  | .upperE => 'E'
  | .f => 'f'
  | .upperF => 'F'
  | .g => 'g'
  | .upperG => 'G'
  | .a => 'a'
  | .upperA => 'A'

def TextLength.text : TextLength → List Char
  | .none => []
  | .h => ['h']
  | .l => ['l']

/-- The length modifier of a directive. -/
def Directive.length : Directive → List Char
  | .int length _ => length.text
  | .float length _ => length.text
  | .str length _ => length.text
  | .char length _ => length.text
  | .ptr => []

/-- The conversion of a directive. -/
def Directive.conv : Directive → Char
  | .int _ conv => conv.char
  | .float _ conv => conv.char
  | .str _ upper => if upper then 'S' else 's'
  | .char _ upper => if upper then 'C' else 'c'
  | .ptr => 'p'

def Flag.char : Flag → Char
  | .minus => '-'
  | .plus => '+'
  | .space => ' '
  | .hash => '#'
  | .zero => '0'

/-- A decimal digit. -/
def digitChar (d : Fin 10) : Char := Char.ofNat ('0'.toNat + d)

def Field.text : Field → List Char
  | .absent => []
  | .digits ds => ds.map digitChar
  | .star => ['*']

/-- What a specification has between `%` and its length modifier. -/
def Spec.head (s : Spec) : List Char :=
  s.flags.map Flag.char ++ s.width.text ++ (s.precision.elim [] fun f => '.' :: f.text)

def Spec.text (s : Spec) : List Char := '%' :: s.head ++ s.directive.length ++ [s.directive.conv]

def Piece.text : Piece → List Char
  | .literal s _ => s
  | .percent => ['%', '%']
  | .spec s => s.text

/-- The format with the given parts. -/
def formatText (ps : List Piece) : List Char := ps.flatMap Piece.text

/-! ### The arguments of a part -/

/-- The argument of an integer conversion on a 64-bit target other than Windows. -/
def IntLength.entry : IntLength → LogVarg
  | .none => ⟨logArgTypeInt32, 8⟩
  | .hh => ⟨logArgTypeInt8, 8⟩
  | .h => ⟨logArgTypeInt16, 8⟩
  | .l => ⟨logArgTypeInt64, 8⟩
  | .ll => ⟨logArgTypeInt64, 8⟩
  | .j => ⟨logArgTypeIntmax, 8⟩
  | .z => ⟨logArgTypeInt64, 8⟩
  | .t => ⟨logArgTypeInt64, 8⟩
  | .upperI => ⟨logArgTypeInt64, 8⟩
  | .i32 => ⟨logArgTypeInt32, 8⟩
  | .i64 => ⟨logArgTypeInt64, 8⟩

def FloatLength.entry : FloatLength → LogVarg
  | .none => ⟨logArgTypeDouble, 8⟩
  | .l => ⟨logArgTypeDouble, 8⟩
  | .upperL => ⟨logArgTypeLdouble, 16⟩

/-- The type of a string, by its length modifier and whether the conversion is `S`. -/
def strType : TextLength → Bool → UInt8
  | .none, false => logArgTypeUstr8
  | .none, true => logArgTypeUstr32
  | .h, _ => logArgTypeStra
  | .l, _ => logArgTypeUstr32

def charEntry : TextLength → LogVarg
  | .none => ⟨logArgTypeChar, 8⟩
  | .h => ⟨logArgTypeChar, 8⟩
  | .l => ⟨logArgTypeChar32, 8⟩

/-- The argument of a directive behind a head with or without a digit or `*`. -/
def Directive.entry (hasWidth : Bool) : Directive → LogVarg
  | .int length _ => length.entry
  | .float length _ => length.entry
  | .str length upper => ⟨strType length upper, if hasWidth then 1 else 0⟩
  | .char length _ => charEntry length
  | .ptr => ⟨logArgTypePvoid, 8⟩

/-- The argument of a `*`. -/
def starEntry : LogVarg := ⟨logArgTypeInt32, 8⟩

/-- A digit or `*` precedes the length modifier. -/
def hasWidth (head : List Char) : Bool := head.any fun c => c.isDigit || c == '*'

/-- The arguments of a specification: an integer for each `*`, then its own. -/
def Spec.entries (s : Spec) : List LogVarg :=
  List.replicate (s.head.count '*') starEntry ++ [s.directive.entry (hasWidth s.head)]

def Piece.entries : Piece → List LogVarg
  | .literal _ _ => []
  | .percent => []
  | .spec s => s.entries

/-! ## The scan of a part -/

/-- The scan goes on behind a character that does not end it. -/
lemma scanFormat_cons {max : Nat} {s s' : FmtState} {c : Char} {cs : List Char} (h : s.turn max c cs = some s') :
    scanFormat max (c :: cs) s = scanFormat max cs s' := by
  rw [scanFormat, h]

/-- Literal text leaves no trace. -/
lemma scanFormat_literal {max : Nat} {l rest : List Char} {s : FmtState} (hl : '%' ∉ l) (hs : s.lbPercent = false)
    (hskip : s.skip = 0) : scanFormat max (l ++ rest) s = scanFormat max rest s := by
  induction l with
  | nil => rfl
  | cons c cs ih =>
    obtain ⟨hc, hcs⟩ := not_or.mp fun h => hl (List.mem_cons.mpr h)
    have hturn : s.turn max c (cs ++ rest) = some s := by
      unfold FmtState.turn
      rw [if_neg (by rw [hskip]; decide), if_pos hs, if_neg (Ne.symm hc)]
    rw [List.cons_append, scanFormat_cons hturn]
    exact ih hcs

/-! ### Flags, width and precision -/

/-- The characters of flags, widths and precisions. -/
def headChars : List Char := ['-', '+', ' ', '#', '.', '*', '0', '1', '2', '3', '4', '5', '6', '7', '8', '9']

/-- What the scan does with such a character. -/
def FmtState.read (s : FmtState) (c : Char) : FmtState :=
  { s with
    opArgs := if c = '*' then s.opArgs ++ [starEntry] else s.opArgs
    luHasWidth := if c.isDigit || c == '*' then 1 else s.luHasWidth }

/-- What it does with several. -/
def FmtState.readAll (s : FmtState) (head : List Char) : FmtState :=
  { s with
    opArgs := s.opArgs ++ List.replicate (head.count '*') starEntry
    luHasWidth := if hasWidth head then 1 else s.luHasWidth }

/-- Reading several characters is reading the first and then the others. -/
lemma FmtState.readAll_cons (s : FmtState) (c : Char) (cs : List Char) :
    s.readAll (c :: cs) = (s.read c).readAll cs := by
  have hargs : s.opArgs ++ List.replicate ((c :: cs).count '*') starEntry
      = (s.read c).opArgs ++ List.replicate (cs.count '*') starEntry := by
    by_cases hstar : c = '*'
    · rw [hstar, List.count_cons_self, List.replicate_succ, FmtState.read, if_pos rfl, List.append_assoc]
      rfl
    · rw [List.count_cons_of_ne hstar, FmtState.read, if_neg hstar]
  have hwidth : (if hasWidth (c :: cs) then 1 else s.luHasWidth) =
      if hasWidth cs then 1 else (s.read c).luHasWidth := by
    rw [hasWidth, List.any_cons, FmtState.read]
    show (if (_ || hasWidth cs) = true then _ else _) = _
    cases hasWidth cs
    · rw [Bool.or_false]
      rfl
    · rw [Bool.or_true]
      rfl
  rw [FmtState.readAll, FmtState.readAll, hargs, hwidth]
  rfl

/-- A character of the head is no length modifier, no conversion and no `%`. -/
lemma headChars_plain {c : Char} (hc : c ∈ headChars) :
    c ∉ ['I', 'l', 'h', 'w', 'z', 'j', 't', 'L'] ∧ c ≠ '%' ∧ ∀ pfx w, convArg pfx w c = none := by
  have hall : c ∉ ['I', 'l', 'h', 'w', 'z', 'j', 't', 'L'] ∧ c ≠ '%' ∧
      c ∉ ['d', 'i', 'o', 'u', 'x', 'X', 'b', 'B'] ∧ c ∉ ['s', 'S'] ∧ c ≠ 'p' ∧
      c ∉ ['e', 'E', 'f', 'F', 'g', 'G', 'a', 'A'] ∧ c ∉ ['c', 'C'] := by
    simp only [headChars, List.mem_cons, List.not_mem_nil, or_false] at hc
    rcases hc with rfl | rfl | rfl | rfl | rfl | rfl | rfl | rfl | rfl | rfl | rfl | rfl | rfl | rfl | rfl | rfl <;>
      decide
  obtain ⟨hpfx, hpercent, hint, hstr, hptr, hfloat, hchar⟩ := hall
  refine ⟨hpfx, hpercent, fun pfx w => ?_⟩
  rw [convArg, if_neg hint, if_neg hstr, if_neg hptr, if_neg hfloat, if_neg hchar]

/-- Inside a specification a character of the head is read. -/
lemma FmtState.turn_head {s : FmtState} {max : Nat} {c : Char} {cs : List Char} (hc : c ∈ headChars)
    (hs : s.lbPercent = true) (hskip : s.skip = 0) (hroom : c = '*' → s.opArgs.length < max) :
    s.turn max c cs = some (s.read c) := by
  obtain ⟨hpfx, hpercent, hconv⟩ := headChars_plain hc
  have hopen : s.lbPercent ≠ false := by rw [hs]; decide
  unfold FmtState.turn
  rw [if_neg (by rw [hskip]; decide), if_neg hopen]
  by_cases hstar : c = '*'
  · rw [if_pos hstar, if_neg (Nat.not_le.mpr (hroom hstar))]
    subst hstar
    rfl
  · rw [if_neg hstar, if_neg hpfx, hconv]
    show (if c = '%' then _ else some (s.digit c)) = _
    rw [if_neg hpercent, FmtState.digit, FmtState.read, if_neg hstar]
    have hread : (c.isDigit || c == '*') = true ↔ s.lbPercent = true ∧ '0' ≤ c ∧ c ≤ '9' := by
      rw [beq_eq_false_iff_ne.mpr hstar, Bool.or_false, and_iff_right hs]
      exact Bool.and_eq_true_iff.trans (and_congr decide_eq_true_iff decide_eq_true_iff)
    by_cases hd : s.lbPercent = true ∧ '0' ≤ c ∧ c ≤ '9'
    · rw [if_pos hd, if_pos (hread.mpr hd)]
    · rw [if_neg hd, if_neg fun h => hd (hread.mp h)]

/-- The scan of flags, width and precision. -/
lemma scanFormat_head {max : Nat} {head rest : List Char} {s : FmtState} (hh : head ⊆ headChars)
    (hs : s.lbPercent = true) (hskip : s.skip = 0) (hroom : s.opArgs.length + head.count '*' ≤ max) :
    scanFormat max (head ++ rest) s = scanFormat max rest (s.readAll head) := by
  induction head generalizing s with
  | nil =>
    rw [FmtState.readAll, List.count_nil, List.replicate_zero, List.append_nil]
    rfl
  | cons c cs ih =>
    have hone : s.opArgs.length + (c :: cs).count '*' = (s.read c).opArgs.length + cs.count '*' := by
      have h := congrArg (fun r : FmtState => r.opArgs.length) (s.readAll_cons c cs)
      simpa only [FmtState.readAll, List.length_append, List.length_replicate] using h
    have hturn : s.turn max c (cs ++ rest) = some (s.read c) := by
      refine FmtState.turn_head (hh List.mem_cons_self) hs hskip fun hstar => ?_
      rw [hstar, List.count_cons_self] at hroom
      omega
    rw [List.cons_append, scanFormat_cons hturn, FmtState.readAll_cons]
    exact ih (List.subset_of_cons_subset hh) hs hskip (hone ▸ hroom)

/-- What stands between `%` and the length modifier are such characters. -/
lemma Spec.head_chars (s : Spec) : s.head ⊆ headChars := by
  have hflag (f : Flag) : f.char ∈ headChars := by cases f <;> decide
  have hdigit : ∀ d : Fin 10, digitChar d ∈ headChars := by decide
  have hfield (f : Field) : f.text ⊆ headChars := by
    cases f with
    | absent => exact List.nil_subset _
    | digits ds =>
      intro c hc
      obtain ⟨d, -, rfl⟩ := List.mem_map.mp hc
      exact hdigit d
    | star => decide
  refine List.append_subset.mpr ⟨List.append_subset.mpr ⟨?_, hfield s.width⟩, ?_⟩
  · intro c hc
    obtain ⟨f, -, rfl⟩ := List.mem_map.mp hc
    exact hflag f
  · cases s.precision with
    | none => exact List.nil_subset _
    | some f => exact List.cons_subset.mpr ⟨by decide, hfield f⟩

/-! ### Length modifiers -/

/-- The first prefix that fits is the length modifier that was written, before a character that continues none. -/
lemma findPrefix_text {text rest : List Char} {pfx : PrefixType} {c : Char} (h : (text, pfx) ∈ gsPrefixes)
    (hc : c ∉ ['l', 'h', '3', '6']) : findPrefix (text ++ c :: rest) = some (text, pfx) := by
  simp only [List.mem_cons, List.not_mem_nil, or_false, not_or] at hc
  obtain ⟨hl, hh, h3, h6⟩ := hc
  have hne : ∀ x, c ≠ x → (x == c) = false := fun x hx => beq_eq_false_iff_ne.mpr hx.symm
  simp only [gsPrefixes, List.mem_cons, List.not_mem_nil, or_false, Prod.mk.injEq] at h
  rcases h with ⟨rfl, rfl⟩ | ⟨rfl, rfl⟩ | ⟨rfl, rfl⟩ | ⟨rfl, rfl⟩ | ⟨rfl, rfl⟩ | ⟨rfl, rfl⟩ | ⟨rfl, rfl⟩ | ⟨rfl, rfl⟩ |
    ⟨rfl, rfl⟩ | ⟨rfl, rfl⟩ | ⟨rfl, rfl⟩ | ⟨rfl, rfl⟩
  all_goals simp [findPrefix, gsPrefixes, List.find?, List.isPrefixOf, hne _ hl, hne _ hh, hne _ h3, hne _ h6]

/-- The check for a width digit changes the width flag only, and that at a digit. -/
lemma FmtState.digit_eq (s : FmtState) (c : Char) :
    ∃ w, (c.isDigit = false → w = s.luHasWidth) ∧ s.digit c = { s with luHasWidth := w } := by
  by_cases hc : s.lbPercent = true ∧ '0' ≤ c ∧ c ≤ '9'
  · refine ⟨1, fun hno => ?_, if_pos hc⟩
    have hyes : c.isDigit = true := Bool.and_eq_true_iff.mpr ⟨decide_eq_true hc.2.1, decide_eq_true hc.2.2⟩
    rw [hno] at hyes
    cases hyes
  · exact ⟨s.luHasWidth, fun _ => rfl, if_neg hc⟩

/-- The characters behind the first of a length modifier are skipped; a digit among them is taken for a width. -/
lemma scanFormat_skip {max : Nat} (more rest : List Char) {s : FmtState} (hskip : s.skip = more.length) :
    ∃ w, (more.any Char.isDigit = false → w = s.luHasWidth) ∧
      scanFormat max (more ++ rest) s = scanFormat max rest { s with skip := 0, luHasWidth := w } := by
  induction more generalizing s with
  | nil =>
    obtain ⟨args, percent, pfx, w, skip⟩ := s
    cases hskip
    exact ⟨w, fun _ => rfl, rfl⟩
  | cons c cs ih =>
    have hpos : s.skip > 0 := by rw [hskip]; exact Nat.succ_pos _
    have hone : s.skip - 1 = cs.length := by rw [hskip]; exact Nat.add_sub_cancel _ _
    have hturn : ∃ w, (c.isDigit = false → w = s.luHasWidth) ∧
        s.turn max c (cs ++ rest) = some { s with skip := cs.length, luHasWidth := w } := by
      unfold FmtState.turn
      rw [if_pos hpos, hone]
      by_cases hzero : cs.length = 0
      · obtain ⟨w, hw, hdigit⟩ := FmtState.digit_eq { s with skip := cs.length } c
        exact ⟨w, hw, (if_pos hzero).trans (congrArg some hdigit)⟩
      · exact ⟨s.luHasWidth, fun _ => rfl, if_neg hzero⟩
    obtain ⟨w, hw, hturn⟩ := hturn
    obtain ⟨w', hw', hscan⟩ := ih (s := { s with skip := cs.length, luHasWidth := w }) rfl
    refine ⟨w', fun hno => ?_, (scanFormat_cons hturn).trans hscan⟩
    rw [List.any_cons, Bool.or_eq_false_iff] at hno
    exact (hw' hno.2).trans (hw hno.1)

/-- The scan of a length modifier. -/
lemma scanFormat_length {max : Nat} {text rest : List Char} {pfx : PrefixType} {c : Char} {s : FmtState}
    (h : (text, pfx) ∈ gsPrefixes) (hc : c ∉ ['l', 'h', '3', '6']) (hs : s.lbPercent = true) (hskip : s.skip = 0) :
    ∃ w, (text.any Char.isDigit = false → w = s.luHasWidth) ∧
      scanFormat max (text ++ c :: rest) s =
        scanFormat max (c :: rest) { s with lePrefix := pfx, luHasWidth := w } := by
  have hfind : findPrefix (text ++ c :: rest) = some (text, pfx) := findPrefix_text h hc
  have hletter : ∀ x ∈ gsPrefixes,
      ∃ a more, x.1 = a :: more ∧ a ∈ ['I', 'l', 'h', 'w', 'z', 'j', 't', 'L'] ∧ a ≠ '*' := by
    simp [gsPrefixes]
  obtain ⟨a, more, htext, ha, hstar⟩ := hletter _ h
  cases htext
  have hopen : s.lbPercent ≠ false := by rw [hs]; decide
  have hturn : s.turn max a (more ++ c :: rest) = some { s with lePrefix := pfx, skip := more.length } := by
    unfold FmtState.turn
    rw [if_neg (by rw [hskip]; decide), if_neg hopen, if_neg hstar, if_pos ha]
    rw [List.cons_append] at hfind
    rw [hfind]
    rfl
  obtain ⟨w, hw, hscan⟩ := scanFormat_skip more (c :: rest) (s := { s with lePrefix := pfx, skip := more.length }) rfl
  refine ⟨w, fun hno => ?_, ?_⟩
  · rw [List.any_cons, Bool.or_eq_false_iff] at hno
    exact hw hno.2
  · have hsame : ({ s with lePrefix := pfx, skip := 0, luHasWidth := w } : FmtState)
        = { s with lePrefix := pfx, luHasWidth := w } := by rw [← hskip]
    exact (scanFormat_cons hturn).trans (hscan.trans (congrArg _ hsame))

/-- The prefix a length modifier is found as. -/
def IntLength.pfx : IntLength → PrefixType
  | .none => .unknown
  | .hh => .hh
  | .h => .h
  | .l => .l
  | .ll => .ll
  | .j => .j
  | .z => .i
  | .t => .i
  | .upperI => .i
  | .i32 => .i32
  | .i64 => .i64

def FloatLength.pfx : FloatLength → PrefixType
  | .none => .unknown
  | .l => .l
  | .upperL => .upperL

def TextLength.pfx : TextLength → PrefixType
  | .none => .unknown
  | .h => .h
  | .l => .l

def Directive.pfx : Directive → PrefixType
  | .int length _ => length.pfx
  | .float length _ => length.pfx
  | .str length _ => length.pfx
  | .char length _ => length.pfx
  | .ptr => .unknown

/-- A directive has no length modifier, or one that the scan knows. -/
lemma Directive.length_pfx (d : Directive) :
    d.length = [] ∧ d.pfx = .unknown ∨ (d.length, d.pfx) ∈ gsPrefixes := by
  have hint (len : IntLength) : len.text = [] ∧ len.pfx = .unknown ∨ (len.text, len.pfx) ∈ gsPrefixes := by
    cases len <;> decide
  have hfloat (len : FloatLength) : len.text = [] ∧ len.pfx = .unknown ∨ (len.text, len.pfx) ∈ gsPrefixes := by
    cases len <;> decide
  have htext (len : TextLength) : len.text = [] ∧ len.pfx = .unknown ∨ (len.text, len.pfx) ∈ gsPrefixes := by
    cases len <;> decide
  cases d with
  | int length conv => exact hint length
  | float length conv => exact hfloat length
  | str length upper => exact htext length
  | char length upper => exact htext length
  | ptr => exact .inl ⟨rfl, rfl⟩

/-- A character that is no `*` and no length modifier and does not continue one. -/
def EndsLength (c : Char) : Prop :=
  c ∉ ['l', 'h', '3', '6'] ∧ c ≠ '*' ∧ c ∉ ['I', 'l', 'h', 'w', 'z', 'j', 't', 'L']

instance (c : Char) : Decidable (EndsLength c) := inferInstanceAs (Decidable (_ ∧ _))

/-- A conversion ends the length modifier. -/
lemma Directive.conv_endsLength (d : Directive) : EndsLength d.conv := by
  have hint (c : IntConv) : EndsLength c.char := by cases c <;> decide
  have hfloat (c : FloatConv) : EndsLength c.char := by cases c <;> decide
  have hstr (upper : Bool) : EndsLength (if upper then 'S' else 's') := by cases upper <;> decide
  have hchar (upper : Bool) : EndsLength (if upper then 'C' else 'c') := by cases upper <;> decide
  cases d with
  | int _ conv => exact hint conv
  | float _ conv => exact hfloat conv
  | str _ upper => exact hstr upper
  | char _ upper => exact hchar upper
  | ptr => decide

/-- The argument the switch gives a directive. -/
lemma Directive.convArg_eq {d : Directive} {hw : Bool} {w : UInt8}
    (h : d.length.any Char.isDigit = false → w = if hw then 1 else 0) :
    convArg d.pfx w d.conv = some (d.entry hw) := by
  cases d with
  | ptr => rfl
  | int length conv => cases length <;> cases conv <;> rfl
  | float length conv => cases length <;> cases conv <;> rfl
  | str length upper =>
    have hw : w = if hw then 1 else 0 := h (by cases length <;> rfl)
    subst hw
    cases length <;> cases upper <;> rfl
  | char length upper => cases length <;> cases upper <;> rfl

/-- The scan of a length modifier and its conversion. -/
lemma scanFormat_directive {max : Nat} (d : Directive) (rest : List Char) {s : FmtState} {width : Bool}
    (hs : s.lbPercent = true) (hskip : s.skip = 0) (hpfx : s.lePrefix = .unknown)
    (hwidth : s.luHasWidth = if width then 1 else 0) (hroom : s.opArgs.length < max) :
    ∃ s' : FmtState, s'.lbPercent = false ∧ s'.skip = 0 ∧ s'.opArgs = s.opArgs ++ [d.entry width] ∧
      scanFormat max (d.length ++ d.conv :: rest) s = scanFormat max rest s' := by
  obtain ⟨hplain, hstar, hletter⟩ := d.conv_endsLength
  -- the state before the conversion
  have hlength : ∃ w, (d.length.any Char.isDigit = false → w = if width then 1 else 0) ∧
      scanFormat max (d.length ++ d.conv :: rest) s
        = scanFormat max (d.conv :: rest) { s with lePrefix := d.pfx, luHasWidth := w } := by
    obtain ⟨hnil, hunknown⟩ | hmem := d.length_pfx
    · refine ⟨s.luHasWidth, fun _ => hwidth, ?_⟩
      rw [hnil, hunknown, ← hpfx]
      rfl
    · rw [← hwidth]
      exact scanFormat_length hmem hplain hs hskip
  obtain ⟨w, hw, hscan⟩ := hlength
  let s' : FmtState :=
    { s with opArgs := s.opArgs ++ [d.entry width], lbPercent := false, lePrefix := d.pfx, luHasWidth := w }
  have hturn : ({ s with lePrefix := d.pfx, luHasWidth := w } : FmtState).turn max d.conv rest = some s' := by
    unfold FmtState.turn
    rw [if_neg (Nat.not_lt.mpr (Nat.le_of_eq hskip)), if_neg (by show ¬s.lbPercent = false; rw [hs]; decide),
      if_neg hstar, if_neg hletter, Directive.convArg_eq hw]
    exact if_neg (Nat.not_le.mpr hroom)
  exact ⟨s', rfl, hskip, rfl, hscan.trans (scanFormat_cons hturn)⟩

/-! ## The arguments of a format -/

/-- The locals at the beginning of a specification. -/
def FmtState.opened (s : FmtState) : FmtState := { s with lbPercent := true, lePrefix := .unknown, luHasWidth := 0 }

/-- A `%` outside a specification begins one. -/
lemma FmtState.turn_percent {s : FmtState} {max : Nat} {cs : List Char} (hs : s.lbPercent = false)
    (hskip : s.skip = 0) :
    s.turn max '%' cs = some s.opened := by
  unfold FmtState.turn
  rw [if_neg (Nat.not_lt.mpr (Nat.le_of_eq hskip)), if_pos hs, if_pos rfl]
  rfl

/-- The scan of a part with room for its arguments. -/
lemma scanFormat_piece {max : Nat} (p : Piece) (rest : List Char) {s : FmtState} (hs : s.lbPercent = false)
    (hskip : s.skip = 0) (hroom : s.opArgs.length + p.entries.length ≤ max) :
    ∃ s' : FmtState, s'.lbPercent = false ∧ s'.skip = 0 ∧ s'.opArgs = s.opArgs ++ p.entries ∧
      scanFormat max (p.text ++ rest) s = scanFormat max rest s' := by
  cases p with
  | literal l hl => exact ⟨s, hs, hskip, (List.append_nil _).symm, scanFormat_literal hl hs hskip⟩
  | percent =>
    have hclose : s.opened.turn max '%' rest = some { s.opened with lbPercent := false } := by
      have hskip' : s.opened.skip = 0 := hskip
      have hopen : ¬s.opened.lbPercent = false := Bool.true_eq_false.mp
      unfold FmtState.turn
      rw [if_neg (Nat.not_lt.mpr (Nat.le_of_eq hskip')), if_neg hopen, if_neg (by decide), if_neg (by decide)]
      rfl
    exact ⟨{ s.opened with lbPercent := false }, rfl, hskip, (List.append_nil _).symm,
      (scanFormat_cons (FmtState.turn_percent hs hskip)).trans (scanFormat_cons hclose)⟩
  | spec p =>
    have hlen : p.entries.length = p.head.count '*' + 1 := by
      rw [Spec.entries, List.length_append, List.length_replicate, List.length_singleton]
    have hroom : s.opArgs.length + (p.head.count '*' + 1) ≤ max := hlen ▸ hroom
    have hread : (s.opened.readAll p.head).opArgs.length < max := by
      rw [FmtState.readAll, List.length_append, List.length_replicate]
      exact Nat.lt_of_succ_le hroom
    have hhead : s.opened.opArgs.length + p.head.count '*' ≤ max := Nat.le_of_succ_le hroom
    obtain ⟨s', hs', hskip', hargs, hscan⟩ := scanFormat_directive p.directive rest
      (s := s.opened.readAll p.head) rfl hskip rfl rfl hread
    refine ⟨s', hs', hskip', ?_, ?_⟩
    · rw [hargs]
      exact List.append_assoc _ _ _
    · have htext : p.text ++ rest = '%' :: (p.head ++ (p.directive.length ++ p.directive.conv :: rest)) := by
        simp [Spec.text]
      rw [Piece.text, htext, scanFormat_cons (FmtState.turn_percent hs hskip)]
      exact (scanFormat_head (s := s.opened) p.head_chars rfl hskip hhead).trans hscan

/-- The scan of a format with room for its arguments. -/
lemma scanFormat_text {max : Nat} (ps : List Piece) {s : FmtState} (hs : s.lbPercent = false)
    (hskip : s.skip = 0) (hroom : s.opArgs.length + (ps.flatMap Piece.entries).length ≤ max) :
    scanFormat max (formatText ps) s = s.opArgs ++ ps.flatMap Piece.entries := by
  induction ps generalizing s with
  | nil => exact (List.append_nil _).symm
  | cons p ps ih =>
    rw [List.flatMap_cons, List.length_append] at hroom
    obtain ⟨s', hs', hskip', hargs, hscan⟩ := scanFormat_piece p (formatText ps) hs hskip
      (show s.opArgs.length + p.entries.length ≤ max by omega)
    rw [formatText, List.flatMap_cons, List.flatMap_cons, ← List.append_assoc, ← hargs]
    refine hscan.trans (ih hs' hskip' ?_)
    rw [hargs, List.length_append]
    omega

/-- The parser finds the arguments of the specifications in order, cut to the limit; and those of two formats written
one behind the other are those of the first followed by those of the second. -/
theorem parse_format_grammar (max : Nat) (ps qs : List Piece) :
    parseFormatString max (formatText ps) = (ps.flatMap Piece.entries).take max ∧
      parseFormatString max (formatText ps ++ formatText qs)
        = (parseFormatString max (formatText ps) ++ parseFormatString max (formatText qs)).take max := by
  have hparse (ps : List Piece) : parseFormatString max (formatText ps) = (ps.flatMap Piece.entries).take max := by
    have hroom := scanFormat_text ps (s := ⟨[], false, .unknown, 0, 0⟩) rfl rfl
      (Nat.le_max_right max ([].length + (ps.flatMap Piece.entries).length))
    rw [parseFormatString, scanFormat_take (Nat.le_max_left _ _) _ (Nat.zero_le _), hroom]
    rfl
  have htext : formatText ps ++ formatText qs = formatText (ps ++ qs) := List.flatMap_append.symm
  refine ⟨hparse ps, ?_⟩
  have hrest : max - (ps.flatMap Piece.entries).length = min (max - min max (ps.flatMap Piece.entries).length) max := by
    omega
  rw [htext, hparse, hparse, hparse, List.flatMap_append, List.take_append, List.take_append, List.take_take,
    Nat.min_self, List.length_take, List.take_take, hrest]

end P8
