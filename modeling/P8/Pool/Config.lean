import P8.Writer.Tls

/-!
# The pool's configuration

`parse_size` and `init_buffer_pool` of `engine/p8_core.cpp`, and how its constructor calls the latter: the maximum
of the budget and how many buffers the pool allocates at once. A string is its bytes up to the NUL. `str_casecmp` is
kit's and a parameter: whether two strings are equal but for their case.

`strtoull` follows the documentation of the C function, with white space, a sign, digits, and saturation. The
arithmetic of `parseSize` is that of 64-bit words. `initBufferPool` gives the configuration of the pool or none
where the source refuses it. Whatever it gives, the pool never starts with more buffers than the budget allows
(`initialCount_le`).
-/

namespace P8.Config

/-- The bytes of a string of ASCII characters. -/
def ascii (s : String) : List UInt8 := s.toList.map Char.toUInt8

/-- C's `isspace`. -/
def isSpace (c : UInt8) : Bool := c == 32 || (9 ≤ c && c ≤ 13)

/-- C's `isdigit`. -/
def isDigit (c : UInt8) : Bool := 48 ≤ c && c ≤ 57

/-- The number some digits write. -/
def ofDigits (s : List UInt8) : Nat := s.foldl (fun n c => 10 * n + (c - 48).toNat) 0

/-- C's `strtoull` with base 10: the number and where it ends, or none where no number begins. A number too large is
`ULLONG_MAX`, a minus sign negates. -/
def strtoull (s : List UInt8) : Option (UInt64 × List UInt8) :=
  let body := s.dropWhile isSpace
  let isNegative := body.head? == some 45
  let digits := if isNegative || body.head? == some 43 then body.tail else body
  let n := ofDigits (digits.takeWhile isDigit)
  if digits.takeWhile isDigit = [] then none
  else if UInt64.size ≤ n then some (UInt64.ofNat (UInt64.size - 1), digits.dropWhile isDigit)
  else some (if isNegative then -UInt64.ofNat n else UInt64.ofNat n, digits.dropWhile isDigit)

section
variable (strCasecmp : List UInt8 → List UInt8 → Bool)

/-- `parse_size`. -/
def parseSize (ipStr : List UInt8) : Option UInt64 :=
  -- la_buf has 128 bytes with its NUL
  let laBuf := (ipStr.filter fun c => c ≠ 32 ∧ c ≠ 9).take 127
  if strCasecmp laBuf (ascii "infinite") then some (UInt64.ofNat (UInt64.size - 1))
  else
    match strtoull laBuf with
    | none => none
    | some (luVal, []) => some luVal
    | some (luVal, lpEnd) =>
      if strCasecmp lpEnd (ascii "KB") || strCasecmp lpEnd (ascii "Ki") then some (luVal * 1024)
      else if strCasecmp lpEnd (ascii "MB") || strCasecmp lpEnd (ascii "Mi") then some (luVal * 1024 * 1024)
      else none

/-- What `init_buffer_pool` sets up: the maximum of the budget and the argument of `init`. -/
structure PoolConfig where
  lzMaxMemorySize : UInt64
  izInitialCount : Nat

/-- `init_buffer_pool`; a null string keeps the default. -/
def initBufferPool (ipMaxMemorySize ipInitialMemorySize : Option (List UInt8)) : Option PoolConfig := do
  let lzInitialDefault : UInt64 := 1024 * 1024
  let lzMaxMemorySize ← ipMaxMemorySize.elim (some (16 * lzInitialDefault)) (parseSize strCasecmp)
  let lzInitial ← ipInitialMemorySize.elim (some lzInitialDefault) (parseSize strCasecmp)
  let lzInitialMemorySize := if lzInitial > lzMaxMemorySize then lzMaxMemorySize else lzInitial
  if mzDataBufferSize > 2 <<< 16 then none
  else some ⟨lzMaxMemorySize, lzInitialMemorySize.toNat / mzDataBufferSize⟩

/-- The constructor of `cp8_core`: a key that is missing or has an empty string is a null string. -/
def poolConfig (lsMaxMem lsInitMem : List UInt8) : Option PoolConfig :=
  initBufferPool strCasecmp (if lsMaxMem = [] then none else some lsMaxMem)
    (if lsInitMem = [] then none else some lsInitMem)

end

/-- The pool never starts with more than the budget allows. -/
lemma initialCount_le {strCasecmp : List UInt8 → List UInt8 → Bool} {lsMaxMem lsInitMem : List UInt8} {cfg : PoolConfig}
    (h : poolConfig strCasecmp lsMaxMem lsInitMem = some cfg) :
    cfg.izInitialCount * mzDataBufferSize ≤ cfg.lzMaxMemorySize.toNat := by
  simp only [poolConfig, initBufferPool, Option.bind_eq_bind, Option.bind_eq_some_iff] at h
  obtain ⟨lzMax, -, lzInitial, -, h⟩ := h
  rw [if_neg (by decide)] at h
  cases h
  refine Nat.le_trans (Nat.div_mul_le_self _ _) ?_
  split
  case isTrue => exact Nat.le_refl _
  case isFalse hn => exact UInt64.le_iff_toNat_le.mp (UInt64.not_lt.mp hn)

end P8.Config
