import P8.Log.Args
import P8.Log.Grammar

/-!
# Precisions

What `cp8_log::send` (`engine/p8_log.cpp`) reads of a string argument. In memory a string is the characters that can
be read from its address on, with a terminator among them or not; its length is found by `strlen`, `wcslen` or a
loop of `send` that does the same, whatever precision the format has.

The three loops are one function over the type of a character (`strlen`), with the number of characters it looks at
beside it (`strlenReads`). `strlen_bounded_iff` is the fact about it: where a precision `p` allows `p` characters or
a string that ends before, the loop stays within them just when the string does end there.

`LogArg.load` and `LogArg.reads` are the argument as `send` finds it and what it reads for that, and `argTrace` both
for all arguments of a call. `precisions` gives each argument of a format its precision, by the parts of the format
and with the `int` that a `*` takes. So `PrecisionKept` says what the standard asks for, and `precision_bounds` when
it is met.
-/

namespace P8
open P8.Lib

section Strlen
variable {α : Type} [DecidableEq α] (zero : α)

/-- The loop that looks for the terminator: the number of characters before it, or none when it leaves the memory that
can be read. -/
def strlen : List α → Option Nat
  | [] => none
  | c :: cs => if c = zero then some 0 else (strlen cs).map (· + 1)

/-- How many characters, from the first on, the loop looks at. -/
def strlenReads : List α → Nat
  | [] => 1
  | c :: cs => if c = zero then 1 else strlenReads cs + 1

/-- The characters a conversion with the precision `p` is to print. -/
def firstChars (p : Nat) (s : List α) : List α := (s.take p).takeWhile (· ≠ zero)

variable {zero} {s : List α}

/-- The loop finds the first terminator, if there is one. -/
lemma strlen_eq (s : List α) : strlen zero s = if zero ∈ s then some (s.takeWhile (· ≠ zero)).length else none := by
  induction s with
  | nil => rfl
  | cons c cs ih =>
    by_cases hc : c = zero
    · rw [strlen, if_pos hc, if_pos (hc ▸ List.mem_cons_self), List.takeWhile_cons_of_neg (by simpa using hc)]
      rfl
    · have hmem : zero ∈ c :: cs ↔ zero ∈ cs := by
        rw [List.mem_cons, or_iff_right (Ne.symm hc)]
      rw [strlen, if_neg hc, ih, List.takeWhile_cons_of_pos (by simpa using hc), List.length_cons]
      simp only [hmem]
      split <;> rfl

omit [DecidableEq α] in
/-- Behind a character that is no terminator the terminator is searched in the rest. -/
lemma mem_take_cons {c : α} {p : Nat} (hc : c ≠ zero) : zero ∈ (c :: s).take (p + 1) ↔ zero ∈ s.take p := by
  rw [List.take_succ_cons, List.mem_cons, or_iff_right hc.symm]

/-- Where there are `p` characters or a terminator among them, the loop stays within the first `p` just when the
terminator is among them. -/
lemma strlenReads_le_iff {p : Nat} (h : p ≤ s.length ∨ zero ∈ s.take p) :
    strlenReads zero s ≤ p ↔ zero ∈ s.take p := by
  induction s generalizing p with
  | nil =>
    rw [List.take_nil, or_iff_left List.not_mem_nil] at h
    rw [List.take_nil, strlenReads]
    exact iff_of_false (Nat.not_le.mpr (Nat.lt_succ_of_le h)) List.not_mem_nil
  | cons c cs ih =>
    cases p with
    | zero => exact iff_of_false (by rw [strlenReads]; split <;> exact Nat.not_succ_le_zero _) List.not_mem_nil
    | succ p =>
      by_cases hc : c = zero
      · rw [strlenReads, if_pos hc, List.take_succ_cons]
        exact iff_of_true (Nat.succ_pos p) (hc ▸ List.mem_cons_self)
      · rw [mem_take_cons hc, List.length_cons, Nat.succ_le_succ_iff] at h
        rw [strlenReads, if_neg hc, Nat.succ_le_succ_iff, mem_take_cons hc]
        exact ih h

/-- With a terminator among the first `p` characters those before it are to be printed. -/
lemma firstChars_eq {p : Nat} (h : zero ∈ s.take p) : firstChars zero p s = s.takeWhile (· ≠ zero) := by
  induction s generalizing p with
  | nil => exact absurd (List.take_nil ▸ h) List.not_mem_nil
  | cons c cs ih =>
    cases p with
    | zero => exact absurd h List.not_mem_nil
    | succ p =>
      rw [firstChars, List.take_succ_cons]
      by_cases hc : c = zero
      · rw [List.takeWhile_cons_of_neg (by simpa using hc), List.takeWhile_cons_of_neg (by simpa using hc)]
      · rw [List.takeWhile_cons_of_pos (by simpa using hc), List.takeWhile_cons_of_pos (by simpa using hc)]
        exact congrArg _ (ih ((mem_take_cons hc).mp h))

/-- The bytes of the characters found by the loop, at most 65535 of them, are those to be printed within the first `p`
and the loop stays within these, just when the terminator is among them and what is before it has at most 65535
bytes. -/
lemma strlen_bounded_iff {p : Nat} (enc : α → List UInt8) (h : p ≤ s.length ∨ zero ∈ s.take p) :
    (strlenReads zero s ≤ p ∧
      (strlen zero s).map (fun n => ((s.take n).flatMap enc).take 65535) = some ((firstChars zero p s).flatMap enc)) ↔
    zero ∈ s.take p ∧ ((firstChars zero p s).flatMap enc).length ≤ 65535 := by
  rw [strlenReads_le_iff h]
  refine and_congr_right fun hmem => ?_
  have hfound : s.take (s.takeWhile (· ≠ zero)).length = s.takeWhile (· ≠ zero) :=
    List.prefix_iff_eq_take.mp (List.takeWhile_prefix _) |>.symm
  rw [strlen_eq, if_pos (List.mem_of_mem_take hmem), Option.map_some, hfound, ← firstChars_eq hmem, Option.some.injEq]
  exact ⟨fun heq => heq ▸ List.length_take_le _ _, List.take_of_length_le⟩

end Strlen

/-! ## Arguments in memory

The strings of a `LogArg` are what can be read from their address on, here. -/

namespace LogArg

/-- The argument as `send` finds it; none when it leaves the memory that can be read. -/
def load : LogArg → Option LogArg
  | .str8 (some s) => (strlen 0 s).map fun n => .str8 (some (s.take n))
  | .str16 (some s) => (strlen 0 s).map fun n => .str16 (some (s.take n))
  | .str32 (some s) => (strlen 0 s).map fun n => .str32 (some (s.take n))
  | arg => some arg

/-- How many characters of the argument `send` looks at. -/
def reads : LogArg → Nat
  | .str8 (some s) => strlenReads 0 s
  | .str16 (some s) => strlenReads 0 s
  | .str32 (some s) => strlenReads 0 s
  | _ => 0

/-- The bytes of the characters to be printed with the precision `p`. -/
def first (p : Nat) : LogArg → List UInt8
  | .str8 (some s) => firstChars 0 p s
  | .str16 (some s) => (firstChars 0 p s).flatMap fun c => toBytes 2 c.toNat
  | .str32 (some s) => (firstChars 0 p s).flatMap fun c => toBytes 4 c.toNat
  | _ => []

/-- A terminator is among the first `p` characters. -/
def Ends (p : Nat) : LogArg → Prop
  | .str8 (some s) => 0 ∈ s.take p
  | .str16 (some s) => 0 ∈ s.take p
  | .str32 (some s) => 0 ∈ s.take p
  | _ => False

/-- The memory holds `p` characters that can be read or a terminator within them. -/
def Holds (p : Nat) : LogArg → Prop
  | .str8 (some s) => p ≤ s.length ∨ 0 ∈ s.take p
  | .str16 (some s) => p ≤ s.length ∨ 0 ∈ s.take p
  | .str32 (some s) => p ≤ s.length ∨ 0 ∈ s.take p
  | _ => False

/-- `send` looks at the first `p` characters at most, and writes those before the terminator. -/
def Bounded (p : Nat) (arg : LogArg) : Prop := arg.reads ≤ p ∧ arg.load.map dat = some (arg.first p)

/-- A string is read within its precision and written whole just when it ends within it and has at most 65535 bytes. -/
lemma bounded_iff {p : Nat} {arg : LogArg} (h : arg.Holds p) :
    arg.Bounded p ↔ arg.Ends p ∧ (arg.first p).length ≤ 65535 := by
  cases arg with
  | word v => exact h.elim
  | double bits => exact h.elim
  | ldouble lo hi => exact h.elim
  | str8 s =>
    cases s with
    | none => exact h.elim
    | some s =>
      have hiff := strlen_bounded_iff (fun c => [c]) h
      rw [Bounded, load, Option.map_map]
      simp only [List.flatMap_singleton'] at hiff
      exact hiff
  | str16 s =>
    cases s with
    | none => exact h.elim
    | some s =>
      rw [Bounded, load, Option.map_map]
      exact strlen_bounded_iff _ h
  | str32 s =>
    cases s with
    | none => exact h.elim
    | some s =>
      rw [Bounded, load, Option.map_map]
      exact strlen_bounded_iff _ h

end LogArg

/-! ## The arguments of a call -/

/-- What `send` does with the arguments of a call one after another: how many characters of each it looks at, and the
bytes it writes of it. -/
def argTrace (as : List LogVarg) (args : List LogArg) : List (Nat × Option (List UInt8)) :=
  List.zipWith (fun _ arg => (arg.reads, arg.load.map LogArg.dat)) as args

/-- An argument that is found has the type it had. -/
lemma LogArg.Fits.load {a : LogVarg} {arg v : LogArg} (hf : arg.Fits a) (h : arg.load = some v) : v.Fits a := by
  cases arg with
  | word x =>
    cases h
    exact hf
  | double bits =>
    cases h
    exact hf
  | ldouble lo hi =>
    cases h
    exact hf
  | str8 s =>
    cases s with
    | none =>
      cases h
      exact hf
    | some s =>
      obtain ⟨n, -, rfl⟩ := Option.map_eq_some_iff.mp h
      exact hf
  | str16 s =>
    cases s with
    | none =>
      cases h
      exact hf
    | some s =>
      obtain ⟨n, -, rfl⟩ := Option.map_eq_some_iff.mp h
      exact hf
  | str32 s =>
    cases s with
    | none =>
      cases h
      exact hf
    | some s =>
      obtain ⟨n, -, rfl⟩ := Option.map_eq_some_iff.mp h
      exact hf

/-- When all strings end in memory that can be read, the bytes are those that a reader gets from the record. -/
lemma argTrace_read {as : List LogVarg} {args vs : List LogArg} (hp : ∀ a ∈ as, a.Parsed)
    (hf : List.Forall₂ (fun a arg => LogArg.Fits a arg) as args) (hload : args.map LogArg.load = vs.map some) :
    (argTrace as args).map Prod.snd = (vs.map LogArg.dat).map some ∧
      readVargs as (argsBytes as (vs.map LogArg.va)) = some (vs.map LogArg.dat, []) := by
  have hboth : (argTrace as args).map Prod.snd = (vs.map LogArg.dat).map some ∧
      List.Forall₂ (fun a arg => LogArg.Fits a arg) as vs := by
    clear hp
    induction hf generalizing vs with
    | nil =>
      cases vs with
      | nil => exact ⟨rfl, .nil⟩
      | cons v vs => cases hload
    | @cons a arg as args ha _ ih =>
      cases vs with
      | nil => cases hload
      | cons v vs =>
        obtain ⟨hv, hvs⟩ := List.cons.inj hload
        obtain ⟨htrace, hfits⟩ := ih hvs
        refine ⟨?_, .cons (ha.load hv) hfits⟩
        rw [argTrace, List.zipWith_cons_cons, List.map_cons, List.map_cons, List.map_cons, hv]
        exact congrArg _ htrace
  refine ⟨hboth.1, ?_⟩
  have hread := readVargs_argsBytes hp hboth.2 []
  rwa [List.append_nil] at hread

/-- The precision of a `*`: the `int` before, none where it is negative. -/
def starPrecision : LogArg → Option Nat
  | .word v => if v.toUInt32.toInt32 < 0 then none else some v.toUInt32.toNat
  | _ => none

/-- The precision of a specification, if it is one of a string. -/
def Spec.precisionOf (s : Spec) (args : List LogArg) : Option Nat :=
  match s.directive, s.precision with
  | .str _ _, some .absent => some 0
  | .str _ _, some (.digits ds) => some (ds.foldl (fun n d => 10 * n + d.val) 0)
  | .str _ _, some .star => starPrecision (args.getD (s.head.count '*' - 1) (.word 0))
  | _, _ => none

/-- For each argument of a format the precision it is printed with, if it is a string with one. -/
def precisions : List Piece → List LogArg → List (Option Nat)
  | [], _ => []
  | .literal _ _ :: ps, args => precisions ps args
  | .percent :: ps, args => precisions ps args
  | .spec s :: ps, args =>
    List.replicate (s.head.count '*') none ++ s.precisionOf args :: precisions ps (args.drop (s.head.count '*' + 1))

/-- An argument of a call is a string printed with a precision. -/
def HasPrecision (ps : List Piece) (args : List LogArg) (i p : Nat) (arg : LogArg) : Prop :=
  (precisions ps args)[i]? = some (some p) ∧ args[i]? = some arg

/-- Every string with a precision is read within it and written up to it. -/
def PrecisionKept (ps : List Piece) (args : List LogArg) : Prop :=
  ∀ i p arg, HasPrecision ps args i p arg →
    ∃ n, (argTrace (parseFormatString logMaxArgs (formatText ps)) args)[i]? = some (n, some (arg.first p)) ∧ n ≤ p

/-- The precisions of a call bound what `send` reads and writes if and only if every string with a precision has its
terminator within it and at most 65535 bytes before that. What it writes is what a reader gets from the record. -/
theorem precision_bounds {ps : List Piece} {args : List LogArg}
    (hfits : List.Forall₂ (fun a arg => LogArg.Fits a arg) (parseFormatString logMaxArgs (formatText ps)) args)
    (hmem : ∀ i p arg, HasPrecision ps args i p arg → arg.Holds p) :
    (PrecisionKept ps args ↔ ∀ i p arg, HasPrecision ps args i p arg → arg.Ends p ∧ (arg.first p).length ≤ 65535) ∧
      ∀ vs : List LogArg, args.map LogArg.load = vs.map some →
        (argTrace (parseFormatString logMaxArgs (formatText ps)) args).map Prod.snd = (vs.map LogArg.dat).map some ∧
        readVargs (parseFormatString logMaxArgs (formatText ps))
          (argsBytes (parseFormatString logMaxArgs (formatText ps)) (vs.map LogArg.va)) =
            some (vs.map LogArg.dat, []) := by
  refine ⟨?_, fun vs hload => argTrace_read (fun a ha => parsed_of_mem ha) hfits hload⟩
  have htrace : ∀ (i : Nat) (arg : LogArg), args[i]? = some arg →
      (argTrace (parseFormatString logMaxArgs (formatText ps)) args)[i]? =
        some (arg.reads, arg.load.map LogArg.dat) := by
    intro i arg ha
    have hi : i < (parseFormatString logMaxArgs (formatText ps)).length := by
      rw [hfits.length_eq]
      exact (List.getElem?_eq_some_iff.mp ha).1
    rw [argTrace, List.getElem?_zipWith, List.getElem?_eq_getElem hi, ha]
  refine forall_congr' fun i => forall_congr' fun p => forall_congr' fun arg => forall_congr' fun h => ?_
  rw [← LogArg.bounded_iff (hmem i p arg h), htrace i arg h.2]
  constructor
  · rintro ⟨n, heq, hn⟩
    obtain ⟨rfl, hdat⟩ := Prod.mk.inj (Option.some.inj heq)
    exact ⟨hn, hdat⟩
  · rintro ⟨hn, hdat⟩
    exact ⟨_, congrArg some (Prod.ext rfl hdat), hn⟩

/-- The format "%.3s". -/
def precision3 : List Piece := [.spec ⟨[], .absent, some (.digits [3]), .str .none false⟩]

/-- The string "ab" is read within a precision of 3. -/
theorem precision_bounds_ab : PrecisionKept precision3 [.str8 (some [97, 98, 0])] := by
  have hparse : parseFormatString logMaxArgs (formatText precision3) = [⟨logArgTypeUstr8, 1⟩] := by decide
  have hone : ∀ i p arg, HasPrecision precision3 [.str8 (some [97, 98, 0])] i p arg →
      p = 3 ∧ arg = .str8 (some [97, 98, 0]) := by
    rintro i p arg ⟨hp, harg⟩
    cases i with
    | zero =>
      cases hp
      cases harg
      exact ⟨rfl, rfl⟩
    | succ i => cases harg
  refine ((precision_bounds (hparse ▸ .cons (.inl rfl) .nil) fun i p arg h => ?_).1).mpr fun i p arg h => ?_
  · obtain ⟨rfl, rfl⟩ := hone i p arg h
    exact .inl (by decide)
  · obtain ⟨rfl, rfl⟩ := hone i p arg h
    exact ⟨show (0 : UInt8) ∈ [97, 98, 0] by decide, by decide⟩

/-- Of three characters without a terminator, printed with a precision of 3, `send` reads a fourth. -/
theorem precision_unterminated :
    formatText precision3 = ['%', '.', '3', 's'] ∧
      List.Forall₂ (fun a arg => LogArg.Fits a arg) (parseFormatString logMaxArgs (formatText precision3))
        [.str8 (some [97, 98, 99])] ∧
      HasPrecision precision3 [.str8 (some [97, 98, 99])] 0 3 (.str8 (some [97, 98, 99])) ∧
      LogArg.Holds 3 (.str8 (some [97, 98, 99])) ∧ ¬PrecisionKept precision3 [.str8 (some [97, 98, 99])] := by
  have hparse : parseFormatString logMaxArgs (formatText precision3) = [⟨logArgTypeUstr8, 1⟩] := by decide
  refine ⟨by decide, hparse ▸ .cons (.inl rfl) .nil, ⟨rfl, rfl⟩, .inl (by decide), fun h => ?_⟩
  obtain ⟨n, heq, -⟩ := h 0 3 _ ⟨rfl, rfl⟩
  rw [hparse] at heq
  cases heq

end P8
