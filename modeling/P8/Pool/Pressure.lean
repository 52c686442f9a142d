import P8.Lib.Word
import P8.Pool.Served

/-!
# Pressure

What `cp8_core::acquire_buffer` (`engine/p8_core.cpp`) reads from the pool's `stat` when it gets a buffer, and
whether it then calls `notify_pressure`. A call that waits has called it before.

`Sys.stat` is what the pool reports, `Stat.notifies` the comparison of the source, in 64-bit words, and `Sys.Low`
what it is to tell: fewer free bytes than the share `coreFreeMemPercent` of the bytes that the budget allows.
`pressure_exact` says for every acquisition of every run when the two agree.

The invariants of `Pool/Budget.lean` give what the words stand for (`bytes_le`, `stat_free`), so what is left is a
fact on products that are cut, `Lib.share_lt_iff`, through `notifies_iff`. With a budget without a limit the product
is cut at the first acquisition (`pressure_infinite`).
-/

namespace P8.Shared
open P8.Lib P8.Config

variable {τ β : Type} [DecidableEq τ] [DecidableEq β] {s s' : Sys Unit τ β} {l : List Event} {cfg : PoolConfig}

/-- `P8_CORE_FREE_MEM_PERCENT` -/
def coreFreeMemPercent : UInt64 := 75

/-- `cp8_buffer_pool::s_stat` -/
structure Stat where
  mzBufferSize : UInt64
  mzMaxSize : UInt64
  mzFreeSize : UInt64

omit [DecidableEq τ] [DecidableEq β] in
/-- `cp8_buffer_pool::stat` of a pool with a budget. -/
def Sys.stat (s : Sys Unit τ β) : Stat :=
  let lzOutstanding := (UInt64.ofNat (s.pool ()).moAll.length - UInt64.ofNat (s.pool ()).moFree.length)
    * (s.pool ()).mzBufferSize
  { mzBufferSize := (s.pool ()).mzBufferSize
    mzMaxSize := s.mzMax
    mzFreeSize := if s.mzMax > lzOutstanding then s.mzMax - lzOutstanding else 0 }

/-- The condition under which `acquire_buffer` calls `notify_pressure`. -/
def Stat.notifies (lsStat : Stat) : Bool :=
  lsStat.mzMaxSize > 0 && lsStat.mzFreeSize * 100 / lsStat.mzMaxSize < coreFreeMemPercent

/-- A thread that `acquire_buffer` sent into `acquire_no_lock` gets a buffer; `stat` is read in the same section. -/
def Acquires (s s' : Sys Unit τ β) : Prop :=
  ∃ t b bs, s.pc t = .acquire () false ∧ (s.pool ()).moFree = b :: bs ∧
    s' = (s.setPool () { s.pool () with moFree := bs, lent := b :: (s.pool ()).lent }).leave () t .out

/-- The bytes of `n` buffers. -/
def Sys.bytes (s : Sys Unit τ β) (n : Nat) : Nat := n * (s.pool ()).mzBufferSize.toNat

/-- The maximum less the bytes of the buffers that are out. -/
def Sys.freeBytes (s : Sys Unit τ β) : Nat := s.mzMax.toNat - s.bytes (s.pool ()).lent.length

/-- The free bytes are less than 75 percent of the maximum. -/
def Sys.Low (s : Sys Unit τ β) : Prop := s.freeBytes * 100 < 75 * s.mzMax.toNat

/-- An acquisition is a step of the core, and one more buffer is out. -/
lemma Acquires.next (h : (coreSystem cfg).Run l s) (ha : Acquires s s') :
    (coreSystem cfg).Run (l ++ [.other]) s' ∧ () ∈ s'.live ∧ s'.mzMax = s.mzMax ∧
      s'.bytes (s'.pool ()).lent.length = s.bytes ((s.pool ()).lent.length + 1) := by
  obtain ⟨t, b, bs, ht, hf, rfl⟩ := ha
  have hlive : () ∈ s.live := (core_run h).1.live t () (by rw [ht]; rfl)
  refine ⟨h.step ⟨.take ht hf, subset_rfl⟩, hlive, rfl, ?_⟩
  simp only [Sys.bytes, Function.update_self, List.length_cons]

/-- The buffers that are out are within the maximum. -/
lemma bytes_le (h : (coreSystem cfg).Run l s) (hlive : () ∈ s.live) :
    (s.pool ()).moAll.length = (s.pool ()).moFree.length + (s.pool ()).lent.length ∧
      s.bytes (s.pool ()).lent.length ≤ s.mzMax.toNat := by
  obtain ⟨-, hk, hb⟩ := core_run h
  have hall : (s.pool ()).moAll.length = (s.pool ()).moFree.length + (s.pool ()).lent.length := by
    rw [← (hk () hlive).perm.length_eq, List.length_append]
  refine ⟨hall, Nat.le_trans (Nat.mul_le_mul_right _ ?_) (Nat.le_trans (hb.reserved_le hlive) hb.le)⟩
  rw [hall]
  exact Nat.le_add_left _ _

/-- `stat` gives the free bytes. -/
lemma stat_free (h : (coreSystem cfg).Run l s) (hlive : () ∈ s.live) : s.stat.mzFreeSize.toNat = s.freeBytes := by
  obtain ⟨hall, hle⟩ := bytes_le h hlive
  have hcount : UInt64.ofNat (s.pool ()).moAll.length - UInt64.ofNat (s.pool ()).moFree.length
      = UInt64.ofNat (s.pool ()).lent.length := by
    rw [← UInt64.ofNat_sub (hall ▸ Nat.le_add_right _ _), hall, Nat.add_sub_cancel_left]
  have hbytes : (UInt64.ofNat (s.pool ()).lent.length * (s.pool ()).mzBufferSize).toNat
      = s.bytes (s.pool ()).lent.length := by
    rw [UInt64.toNat_mul, UInt64.toNat_ofNat', Nat.mod_mul_mod]
    exact Nat.mod_eq_of_lt (Nat.lt_of_le_of_lt hle (UInt64.toNat_lt _))
  show (if s.mzMax > _ then s.mzMax - _ else 0).toNat = _
  rw [hcount, Sys.freeBytes, ← hbytes]
  split
  case isTrue hgt => exact UInt64.toNat_sub_of_le _ _ (UInt64.le_of_lt hgt)
  case isFalse hngt =>
    rw [Nat.sub_eq_zero_of_le (UInt64.le_iff_toNat_le.mp (UInt64.not_lt.mp hngt))]
    rfl

/-- The percentage computed is below 75 just when what is left of the product in 64 bits gives one below it. -/
lemma notifies_iff (h : (coreSystem cfg).Run l s) (hlive : () ∈ s.live) :
    s.stat.notifies = true ↔ 0 < s.mzMax.toNat ∧ s.freeBytes * 100 % 2 ^ 64 / s.mzMax.toNat < 75 := by
  have hmax : s.stat.mzMaxSize = s.mzMax := rfl
  rw [Stat.notifies, Bool.and_eq_true, decide_eq_true_iff, decide_eq_true_iff, hmax, gt_iff_lt, UInt64.lt_iff_toNat_lt,
    UInt64.lt_iff_toNat_lt, UInt64.toNat_div, UInt64.toNat_mul, stat_free h hlive]
  rfl

/-- After every acquisition in every run of a core `notify_pressure` is called just when the free bytes are less than 75
percent of the maximum, if and only if 100 times the free bytes fit in 64 bits or more than a quarter of the maximum
is out. -/
theorem pressure_exact (h : (coreSystem cfg).Run l s) (ha : Acquires s s') :
    (s'.stat.notifies = true ↔ s'.Low) ↔
      (s.mzMax.toNat - s.bytes ((s.pool ()).lent.length + 1)) * 100 < 2 ^ 64 ∨
        s.mzMax.toNat < 4 * s.bytes ((s.pool ()).lent.length + 1) := by
  obtain ⟨h', hlive, hmax, hbytes⟩ := ha.next h
  obtain ⟨-, hle⟩ := bytes_le h' hlive
  rw [← hmax, ← hbytes]
  have hquarter : s'.Low ↔ s'.mzMax.toNat < 4 * s'.bytes (s'.pool ()).lent.length := by
    unfold Sys.Low Sys.freeBytes
    omega
  obtain hzero | hpos := Nat.eq_zero_or_pos s'.mzMax.toNat
  · have hoff : ¬s'.stat.notifies = true := fun hn => absurd ((notifies_iff h' hlive).mp hn).1 (hzero ▸ Nat.lt_irrefl 0)
    have hlow : ¬s'.Low := fun hl => Nat.not_lt_zero _ (hzero ▸ hl : s'.freeBytes * 100 < 75 * 0)
    refine iff_of_true (iff_of_false hoff hlow) (.inl ?_)
    rw [hzero, Nat.zero_sub]
    decide
  · have hlow : s'.Low ↔ s'.freeBytes * 100 / s'.mzMax.toNat < 75 := (Nat.div_lt_iff_lt_mul hpos).symm
    rw [← hquarter, notifies_iff h' hlive, and_iff_right hpos, hlow]
    exact share_lt_iff hpos (Nat.le_of_lt (UInt64.toNat_lt _)) (Nat.sub_le _ _) (by decide)

/-- A pool of one buffer, which is taken. -/
theorem pressure_exact_one : ∃ s s' : Sys Unit Unit Nat, Acquires s s' ∧ (s'.stat.notifies = true ↔ s'.Low) := by
  have h : (coreSystem (τ := Unit) (β := Nat) ⟨8192, 1⟩).Run _ (coreStart ⟨8192, 1⟩ ()) := .start ⟨(), rfl⟩
  have h := h.step ⟨.initNext (t := ()) rfl, subset_rfl⟩
  have h := h.step ⟨.load (t := ()) rfl, subset_rfl⟩
  have h := h.step ⟨.swap (t := ()) rfl (show ¬((0 : UInt64) > 8192 ∨ (8192 : UInt64) - 0 < 8192) by decide),
    subset_rfl⟩
  have h := h.step ⟨.allocInit (t := ()) (b := 0) rfl fun _ _ => List.not_mem_nil, subset_rfl⟩
  have h := h.step ⟨.initDone (t := ()) rfl, subset_rfl⟩
  have h := h.step ⟨@Step.acquire _ _ _ _ _ _ _ () () false rfl (Finset.mem_singleton_self ()) rfl, subset_rfl⟩
  exact ⟨_, _, ⟨(), 0, [], rfl, rfl, rfl⟩, (pressure_exact h ⟨(), 0, [], rfl, rfl, rfl⟩).mpr (.inl (by decide))⟩

/-- With a maximum of `infinite` the first buffer taken is pressure. -/
theorem pressure_infinite : ∃ cfg, poolConfig asciiCasecmp (ascii "infinite") (ascii "0") = some cfg ∧
    ∃ l, ∃ s s' : Sys Unit Unit Nat, (coreSystem cfg).Run l s ∧ Acquires s s' ∧
      ¬(s'.stat.notifies = true ↔ s'.Low) := by
  refine ⟨⟨18446744073709551615, 0⟩, rfl, ?_⟩
  have h : (coreSystem (τ := Unit) (β := Nat) ⟨18446744073709551615, 0⟩).Run _
    (coreStart ⟨18446744073709551615, 0⟩ ()) := .start ⟨(), rfl⟩
  have h := h.step ⟨.initDone (t := ()) rfl, subset_rfl⟩
  have h := h.step ⟨@Step.acquire _ _ _ _ _ _ _ () () false rfl (Finset.mem_singleton_self ()) rfl, subset_rfl⟩
  have h := h.step ⟨.grow (t := ()) rfl rfl, subset_rfl⟩
  have h := h.step ⟨.load (t := ()) rfl, subset_rfl⟩
  have h := h.step ⟨.swap (t := ()) rfl
    (show ¬((0 : UInt64) > 18446744073709551615 ∨ (18446744073709551615 : UInt64) - 0 < 8192) by decide), subset_rfl⟩
  have h := h.step ⟨.allocAcquire (t := ()) (b := 0) rfl fun _ _ => List.not_mem_nil, subset_rfl⟩
  refine ⟨_, _, _, h, ⟨(), 0, [], rfl, rfl, rfl⟩, fun hn => ?_⟩
  exact absurd (hn.mp (by decide)) (by unfold Sys.Low; decide)

end P8.Shared
