import Mathlib.Algebra.Order.Ring.Nat
import Mathlib.Data.List.Forall2
import Mathlib.Tactic.Lemma

/-!
# Bytes in memory

Numbers in host order (`toBytes`, `ofBytes`), a copy into the middle of a block of memory (`splice`), writes that
take only a part of each chunk (`takeEach`), byte patterns that leave some positions free (`Pattern`, `Matches`) and
C structures without holes (`putFields`, `getFields`). Nothing here names the program: the buffer and record models
instantiate it.

A number is read back modulo 256 to the number of its bytes (`ofBytes_toBytes`), so that a field that cuts a value
and one that keeps it are one lemma. The lemmas about `splice` say what a copy does to the part in front of it
(`take_splice`), to a later copy (`take_splice_comm`) and to bytes it goes over (`splice_over`). A pattern is a list
with an optional byte for each position; records that begin with bytes the compiler adds match theirs, and patterns
that fix every position determine the memory (`Matches.eq_of_exactly`).

Fields are pairs of a width and a value. `getFields` knows the widths alone, and `getFields_putFields` is the
one lemma from which every header of the wire format is read back. The simp set brings lengths, `take` and `drop` of
such runs down to arithmetic.
-/

namespace P8.Lib

/-- The low `n` bytes of a number, least significant first. -/
def toBytes : Nat → Nat → List UInt8
  | 0, _ => []
  | n + 1, v => UInt8.ofNat v :: toBytes n (v / 256)

/-- The number stored in a run of bytes. -/
def ofBytes : List UInt8 → Nat
  | [] => 0
  | b :: bs => b.toNat + 256 * ofBytes bs

/-- A number of `n` bytes. -/
@[simp] lemma length_toBytes (n v : Nat) : (toBytes n v).length = n := by
  induction n generalizing v with
  | zero => rfl
  | succ n ih => simp [toBytes, ih]

/-- The front of a memory that begins with a number. -/
@[simp] lemma take_toBytes (n v : Nat) (rest : List UInt8) :
    (toBytes n v ++ rest).take n = toBytes n v :=
  List.take_left' (length_toBytes n v)

/-- What is behind a number. -/
@[simp] lemma drop_toBytes (n v : Nat) (rest : List UInt8) : (toBytes n v ++ rest).drop n = rest :=
  List.drop_left' (length_toBytes n v)

/-- Reading back a number gives it modulo its width. -/
lemma ofBytes_toBytes (n v : Nat) : ofBytes (toBytes n v) = v % 256 ^ n := by
  induction n generalizing v with
  | zero => simp [toBytes, ofBytes, Nat.mod_one]
  | succ n ih =>
    have e : v % 256 ^ (n + 1) = v % 256 + 256 * (v / 256 % 256 ^ n) := by
      rw [Nat.pow_succ', Nat.mod_mul]
    simp only [toBytes, ofBytes, ih, e]
    simp

/-- A number that fits its width is read back whole. -/
lemma ofBytes_toBytes_of_lt {n v : Nat} (h : v < 256 ^ n) : ofBytes (toBytes n v) = v := by
  rw [ofBytes_toBytes, Nat.mod_eq_of_lt h]

/-- A 32-bit number is read back from its four bytes. -/
@[simp] lemma ofBytes_u32 (v : UInt32) : UInt32.ofNat (ofBytes (toBytes 4 v.toNat)) = v := by
  rw [ofBytes_toBytes_of_lt (by have := v.toNat_lt; omega)]
  simp

/-- A 64-bit number is read back from its eight bytes. -/
@[simp] lemma ofBytes_u64 (v : UInt64) : UInt64.ofNat (ofBytes (toBytes 8 v.toNat)) = v := by
  rw [ofBytes_toBytes_of_lt (by have := v.toNat_lt; omega)]
  simp

section Splice
variable {α : Type*}

/-- `memcpy` of `bs` to offset `o` of the memory `l`. -/
def splice (l : List α) (o : Nat) (bs : List α) : List α :=
  l.take o ++ bs ++ l.drop (o + bs.length)

/-- A copy within a memory leaves its length. -/
lemma length_splice {l : List α} {o : Nat} {bs : List α} (h : o + bs.length ≤ l.length) :
    (splice l o bs).length = l.length := by
  simp only [splice, List.length_append, List.length_take, List.length_drop]
  omega

/-- The memory up to the end of the copy. -/
lemma take_splice {l : List α} {o : Nat} {bs : List α} (h : o + bs.length ≤ l.length) :
    (splice l o bs).take (o + bs.length) = l.take o ++ bs := by
  have e : (l.take o ++ bs).length = o + bs.length := by
    simp only [List.length_append, List.length_take]
    omega
  rw [splice, ← e, List.take_left]

/-- A copy into the used part of a memory is a copy into what is read of it. -/
lemma take_splice_comm {l : List α} {o n : Nat} {bs : List α} (hn : o + bs.length ≤ n)
    (h : n ≤ l.length) : (splice l o bs).take n = splice (l.take n) o bs := by
  have e1 : (l.take o ++ bs).length = o + bs.length := by
    simp only [List.length_append, List.length_take]
    omega
  have e2 : (l.take n).take o = l.take o := by
    rw [List.take_take, show min o n = o by omega]
  rw [splice, splice, e2, List.take_append, e1, List.take_of_length_le (by omega), List.drop_take]

/-- A copy that stays in the front part leaves the rest. -/
lemma splice_append {l m : List α} {o : Nat} {bs : List α} (h : o + bs.length ≤ l.length) :
    splice (l ++ m) o bs = splice l o bs ++ m := by
  simp only [splice, List.append_assoc]
  rw [List.take_append_of_le_length (by omega), List.drop_append_of_le_length h]

/-- A copy over a run of bytes replaces it. -/
lemma splice_over {l m bs cs : List α} (h : bs.length = cs.length) :
    splice (l ++ bs ++ m) l.length cs = l ++ cs ++ m := by
  simp only [splice, List.append_assoc, List.take_left]
  rw [← h, ← List.length_append, ← List.append_assoc l bs m, List.drop_left]

end Splice

section Prefixes
variable {α : Type*} (takes : Nat → Nat)

/-- A prefix of each block, of `takes i` elements at most of the `i`-th one, joined. -/
def takeEach : Nat → List (List α) → List α
  | _, [] => []
  | i, d :: ds => d.take (takes i) ++ takeEach (i + 1) ds

/-- What is taken of the chunks is at most all of them. -/
lemma length_takeEach_le (i : Nat) (ds : List (List α)) :
    (takeEach takes i ds).length ≤ ds.flatten.length := by
  induction ds generalizing i with
  | nil => exact Nat.le_refl _
  | cons d ds ih =>
    have ih := ih (i + 1)
    rw [takeEach, List.flatten_cons, List.length_append, List.length_append, List.length_take]
    omega

/-- Nothing is missing exactly when every block is taken whole. -/
lemma takeEach_eq_flatten_iff (i : Nat) (ds : List (List α)) :
    takeEach takes i ds = ds.flatten ↔ ∀ x ∈ ds.zipIdx i, x.1.length ≤ takes x.2 := by
  induction ds generalizing i with
  | nil => simp [takeEach]
  | cons d ds ih =>
    have hle := length_takeEach_le takes (i + 1) ds
    rw [takeEach, List.flatten_cons, List.zipIdx_cons, List.forall_mem_cons, ← ih]
    constructor
    · intro h
      have hl := congrArg List.length h
      rw [List.length_append, List.length_append, List.length_take] at hl
      have hd : d.length ≤ takes i := by omega
      rw [List.take_of_length_le hd] at h
      exact ⟨hd, List.append_cancel_left h⟩
    · rintro ⟨hd, h⟩
      rw [List.take_of_length_le hd, h]

/-- Everything is missing exactly when nothing is taken of any block. -/
lemma takeEach_eq_nil_iff (i : Nat) (ds : List (List α)) :
    takeEach takes i ds = [] ↔ ∀ x ∈ ds.zipIdx i, x.1.take (takes x.2) = [] := by
  induction ds generalizing i with
  | nil => simp [takeEach]
  | cons d ds ih =>
    rw [takeEach, List.append_eq_nil_iff, List.zipIdx_cons, List.forall_mem_cons, ← ih]

end Prefixes

/-- A byte sequence where `none` may be any byte. -/
abbrev Pattern := List (Option UInt8)

/-- `bs` has the length of the pattern and agrees with it where it names a byte. -/
def Matches (p : Pattern) (bs : List UInt8) : Prop :=
  List.Forall₂ (fun x b => ∀ y, x = some y → b = y) p bs

/-- A pattern that names every byte. -/
def exactly (bs : List UInt8) : Pattern := bs.map some

/-- A pattern of `n` free bytes. -/
def anyBytes (n : Nat) : Pattern := List.replicate n none

/-- A pattern of fixed bytes has their length. -/
@[simp] lemma length_exactly (bs : List UInt8) : (exactly bs).length = bs.length := by
  simp [exactly]

/-- A pattern of `n` free bytes has the length `n`. -/
@[simp] lemma length_anyBytes (n : Nat) : (anyBytes n).length = n := by
  simp [anyBytes]

/-- A memory that matches is as long as its pattern. -/
lemma Matches.length {p bs} (h : Matches p bs) : p.length = bs.length :=
  List.Forall₂.length_eq h

/-- Two patterns one behind the other. -/
lemma Matches.append {p q bs cs} (h1 : Matches p bs) (h2 : Matches q cs) :
    Matches (p ++ q) (bs ++ cs) :=
  List.rel_append h1 h2

/-- A memory matches its own bytes. -/
lemma matches_exactly (bs : List UInt8) : Matches (exactly bs) bs := by
  induction bs with
  | nil => exact .nil
  | cons b bs ih =>
    refine .cons ?_ ih
    intro y e
    exact Option.some.inj e

/-- Any memory matches as many free bytes. -/
lemma matches_anyBytes (bs : List UInt8) : Matches (anyBytes bs.length) bs := by
  induction bs with
  | nil => exact .nil
  | cons b bs ih => exact .cons (fun _ e => nomatch e) ih

/-- A match of two patterns is a match of each. -/
lemma Matches.of_append {p q : Pattern} {bs} (h : Matches (p ++ q) bs) :
    ∃ as cs, bs = as ++ cs ∧ Matches p as ∧ Matches q cs := by
  induction p generalizing bs with
  | nil => exact ⟨[], bs, rfl, .nil, h⟩
  | cons x p ih =>
    cases h with
    | cons hx h =>
      obtain ⟨as, cs, rfl, h1, h2⟩ := ih h
      exact ⟨_ :: as, cs, rfl, .cons hx h1, h2⟩

/-- An exact pattern has one match. -/
lemma Matches.eq_of_exactly {bs cs} (h : Matches (exactly bs) cs) : cs = bs := by
  induction bs generalizing cs with
  | nil => cases h; rfl
  | cons b bs ih =>
    cases h with
    | cons e h => rw [e b rfl, ih h]

/-! ## Structures in memory -/

/-- The bytes of a run of fields, each a width and a value. -/
def putFields : List (Nat × Nat) → List UInt8
  | [] => []
  | (n, v) :: fs => toBytes n v ++ putFields fs

/-- The values of fields of the given widths at the front of a memory. -/
def getFields : List Nat → List UInt8 → List Nat
  | [], _ => []
  | n :: ns, bs => ofBytes (bs.take n) :: getFields ns (bs.drop n)

/-- Fields take as many bytes as their widths add up to. -/
lemma length_putFields (fs : List (Nat × Nat)) : (putFields fs).length = (fs.map Prod.fst).sum := by
  induction fs with
  | nil => rfl
  | cons f fs ih => simp [putFields, ih]

/-- Fields one behind the other. -/
lemma putFields_append (fs gs : List (Nat × Nat)) : putFields (fs ++ gs) = putFields fs ++ putFields gs := by
  induction fs with
  | nil => rfl
  | cons f fs ih =>
    obtain ⟨n, v⟩ := f
    simp only [List.cons_append, putFields, ih, List.append_assoc]

/-- Fields are read back by their widths, each modulo its width. -/
lemma getFields_putFields (fs : List (Nat × Nat)) (rest : List UInt8) :
    getFields (fs.map Prod.fst) (putFields fs ++ rest) = fs.map fun f => f.2 % 256 ^ f.1 := by
  induction fs with
  | nil => rfl
  | cons f fs ih =>
    simp only [putFields, List.map_cons, getFields, List.append_assoc, take_toBytes, drop_toBytes, ih,
      ofBytes_toBytes]

end P8.Lib
