import Mathlib.Data.List.TakeDrop
import Mathlib.Tactic.Lemma

/-!
# JSON values

A JSON value as a program reads it by keys: a lookup never fails on a value that is not an object (`Json.find?`),
and reading a string throws on a value that is not one (`Json.readString`, in which `none` stands for the
exception).

The parser is not modelled; a program that has one takes it as a parameter that gives a value or none. What it then
reads is said twice: by `Json.readString`, as the code does it, and by `Json.stringAt`, the string that is there or
empty. They agree exactly on values whose entry is a string or missing (`StringOrAbsent`, `readString_eq_none_iff`).
`cStr` is the front of a string that C code sees, up to its first zero byte.
-/

namespace P8.Lib

/-- A JSON value; strings and keys are bytes, a float is its bits. -/
inductive Json where
  | null
  | boolean (b : Bool)
  | numberInteger (i : Int)
  | numberUnsigned (n : Nat)
  | numberFloat (bits : UInt64)
  | string (s : List UInt8)
  | array (items : List Json)
  | object (members : List (List UInt8 × Json))

namespace Json
variable {j v : Json} {key s : List UInt8}

/-- The member of an object under a key. -/
def find? (j : Json) (key : List UInt8) : Option Json :=
  match j with
  | .object members => (members.find? (·.1 == key)).map (·.2)
  | _ => none

/-- `contains`: the value is an object with the key. -/
def contains (j : Json) (key : List UInt8) : Bool := (j.find? key).isSome

/-- The string a value is; none is a throw. -/
def getString : Json → Option (List UInt8)
  | .string s => some s
  | _ => none

/-- The string under a key, empty when the key is missing; none is a throw. -/
def readString (j : Json) (key : List UInt8) : Option (List UInt8) :=
  match j.find? key with
  | none => some []
  | some v => v.getString

/-- The string under a key, empty when there is none. -/
def stringAt (j : Json) (key : List UInt8) : List UInt8 := (j.readString key).getD []

/-- What is under a key, if anything, is a string. -/
def StringOrAbsent (j : Json) (key : List UInt8) : Prop := ∀ v, j.find? key = some v → ∃ s, v = .string s

/-- Reading a key throws exactly when something else than a string is there. -/
lemma readString_eq_none_iff : j.readString key = none ↔ ¬j.StringOrAbsent key := by
  unfold readString StringOrAbsent
  cases j.find? key with
  | none => exact iff_of_false nofun (not_not_intro nofun)
  | some v =>
    cases v with
    | string s => exact iff_of_false nofun (not_not_intro fun v e => ⟨s, (Option.some.inj e).symm⟩)
    | _ =>
      refine iff_of_true rfl fun hs => ?_
      obtain ⟨s, e⟩ := hs _ rfl
      cases e

/-- What is read of a key that has a string or nothing. -/
lemma StringOrAbsent.readString (h : j.StringOrAbsent key) : j.readString key = some (j.stringAt key) := by
  have hr := mt readString_eq_none_iff.mp (not_not_intro h)
  unfold stringAt
  cases e : j.readString key with
  | none => exact absurd e hr
  | some s => rfl

end Json

/-- The bytes a C function sees of a string: those before the first NUL. -/
def cStr (s : List UInt8) : List UInt8 := s.takeWhile (· ≠ 0)

end P8.Lib
