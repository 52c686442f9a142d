import Mathlib.Algebra.Order.Ring.Nat
import P8.Lib.Word

/-!
# The clock

The clock of a core and the intervals of its batches in ticks of it: `init_clock` and the part of the constructor
behind it (`engine/p8_core.cpp`). The frequency of the system clock (kit's `get_hires_ticks_freq`) is a parameter.

The source computes each interval as `time * denom / numer` in 64 bits, where the product may wrap before the
division. `ClockConfig.ticks` is the same number without the wrap. `Exact` asks for that number wherever it fits in
64 bits, and `Fits` is the condition on the configuration under which it is what the source computes:
`exactTicks_iff` says so of one interval, by the lemmas on words of `Lib/Word.lean`, and `tick_thresholds_exact` of
the three.

A clock of 2.5 GHz, given by its ticks in a second, has exact intervals. With one of 4 GHz the five seconds between
empty batches are 0.4 seconds (`tick_thresholds_4_ghz`).
-/

namespace P8
open P8.Lib

/-- `P8_CORE_BATCH_MARGIN_US` -/
def coreBatchMarginUs : UInt64 := 10

/-- `P8_CORE_THREAD_TIMEOUT_MS` -/
def coreThreadTimeoutMs : UInt64 := 50

/-- `P8_CORE_IDLE_BATCH_INTERVAL_MS` -/
def coreIdleBatchIntervalMs : UInt64 := 5000

/-- The fields of `s_p8_config` that `init_clock` reads; of the callback, whether it is given. -/
structure ClockConfig where
  mlTimerValue : Bool
  muTimerNumer : UInt64
  muTimerDenom : UInt64

/-- The ratio of a clock: nanoseconds = ticks * `muClockNumer` / `muClockDenom`. -/
structure Clock where
  muClockNumer : UInt64
  muClockDenom : UInt64

/-- The user's clock is taken. -/
def ClockConfig.Accepted (cfg : ClockConfig) : Prop :=
  cfg.mlTimerValue = true ∧ 0 ≠ cfg.muTimerNumer ∧ 0 ≠ cfg.muTimerDenom

instance (cfg : ClockConfig) : Decidable cfg.Accepted := inferInstanceAs (Decidable (_ ∧ _))

/-- `init_clock`, for the ratio of the system clock. -/
def initClock (hires : Clock) (cfg : ClockConfig) : Clock :=
  if cfg.Accepted then ⟨cfg.muTimerNumer, cfg.muTimerDenom⟩ else hires

/-- The intervals of the batches in ticks. -/
structure BatchTicks where
  muBatchMarginTicks : UInt64
  muBatchTailTicks : UInt64
  muBatchIdleTicks : UInt64
  deriving DecidableEq

/-- The part of the constructor of `cp8_core` that sets them. -/
def batchTicks (c : Clock) : BatchTicks :=
  if c.muClockNumer ≠ 0 then
    { muBatchMarginTicks := coreBatchMarginUs * 1000 * c.muClockDenom / c.muClockNumer
      muBatchTailTicks := coreThreadTimeoutMs * 1000000 * c.muClockDenom / c.muClockNumer
      muBatchIdleTicks := coreIdleBatchIntervalMs * 1000000 * c.muClockDenom / c.muClockNumer }
  else ⟨0, 0, 0⟩

/-- The margin of a batch's timestamp in nanoseconds. -/
def batchMarginNs : Nat := 10000

/-- The time to an empty batch behind one with data in nanoseconds. -/
def batchTailNs : Nat := 50000000

/-- The time between empty batches in nanoseconds. -/
def batchIdleNs : Nat := 5000000000

namespace ClockConfig

variable (cfg : ClockConfig)

/-- The ticks of a time in nanoseconds, rounded down. -/
def ticks (ns : Nat) : Nat := ns * cfg.muTimerDenom.toNat / cfg.muTimerNumer.toNat

/-- A number of ticks is exact wherever the exact one fits in 64 bits. -/
def ExactTicks (ns : Nat) (t : UInt64) : Prop := cfg.ticks ns < 2 ^ 64 → t.toNat = cfg.ticks ns

/-- The three intervals are exact. -/
def Exact (t : BatchTicks) : Prop :=
  cfg.ExactTicks batchMarginNs t.muBatchMarginTicks ∧ cfg.ExactTicks batchTailNs t.muBatchTailTicks ∧
    cfg.ExactTicks batchIdleNs t.muBatchIdleTicks

/-- The product of a time and the denominator fits in 64 bits, or the ticks do not. -/
def Fits (ns : Nat) : Prop := ns * cfg.muTimerDenom.toNat < 2 ^ 64 ∨ 2 ^ 64 ≤ cfg.ticks ns

instance (ns : Nat) : Decidable (cfg.Fits ns) := inferInstanceAs (Decidable (_ ∨ _))

variable {cfg}

/-- The constructor computes the ticks of a time exactly just when its product fits or the ticks do not. -/
lemma exactTicks_iff (h : cfg.Accepted) {ns : UInt64} :
    cfg.ExactTicks ns.toNat (ns * cfg.muTimerDenom / cfg.muTimerNumer) ↔ cfg.Fits ns.toNat := by
  have hnumer : 0 < cfg.muTimerNumer.toNat := UInt64.lt_iff_toNat_lt.mp (UInt64.pos_iff_ne_zero.mpr h.2.1.symm)
  have hword : cfg.muTimerNumer.toNat ≤ 2 ^ 64 := Nat.le_of_lt (UInt64.toNat_lt _)
  have hticks : (ns * cfg.muTimerDenom / cfg.muTimerNumer).toNat
      = ns.toNat * cfg.muTimerDenom.toNat % 2 ^ 64 / cfg.muTimerNumer.toNat := by
    rw [UInt64.toNat_div, UInt64.toNat_mul]
  rw [ExactTicks, hticks]
  exact mod_div_eq_or_iff hnumer hword

end ClockConfig

/-- The three intervals of an accepted clock are exact just when for each of them the product with the denominator fits
in 64 bits or the number of ticks does not. -/
theorem tick_thresholds_exact {hires : Clock} {cfg : ClockConfig} (h : cfg.Accepted) :
    cfg.Exact (batchTicks (initClock hires cfg)) ↔
      cfg.Fits batchMarginNs ∧ cfg.Fits batchTailNs ∧ cfg.Fits batchIdleNs := by
  have hclock : batchTicks (initClock hires cfg)
      = { muBatchMarginTicks := coreBatchMarginUs * 1000 * cfg.muTimerDenom / cfg.muTimerNumer
          muBatchTailTicks := coreThreadTimeoutMs * 1000000 * cfg.muTimerDenom / cfg.muTimerNumer
          muBatchIdleTicks := coreIdleBatchIntervalMs * 1000000 * cfg.muTimerDenom / cfg.muTimerNumer } := by
    rw [initClock, if_pos h]
    exact if_pos h.2.1.symm
  rw [hclock]
  refine and_congr ?_ (and_congr ?_ ?_)
  · exact @ClockConfig.exactTicks_iff cfg h (coreBatchMarginUs * 1000)
  · exact @ClockConfig.exactTicks_iff cfg h (coreThreadTimeoutMs * 1000000)
  · exact @ClockConfig.exactTicks_iff cfg h (coreIdleBatchIntervalMs * 1000000)

/-- A clock of 2.5 GHz, given by its ticks in a second. -/
theorem tick_thresholds_exact_2500_mhz :
    (⟨true, 1000000000, 2500000000⟩ : ClockConfig).Exact
      (batchTicks (initClock ⟨1, 1⟩ ⟨true, 1000000000, 2500000000⟩)) :=
  (@tick_thresholds_exact _ ⟨true, 1000000000, 2500000000⟩ (by decide)).mpr
    ⟨.inl (by decide), .inl (by decide), .inl (by decide)⟩

/-- With a clock of 4 GHz the time between empty batches is 0.4 seconds and not 5. -/
theorem tick_thresholds_4_ghz :
    (⟨true, 1000000000, 4000000000⟩ : ClockConfig).Accepted ∧ ¬(⟨true, 1000000000, 4000000000⟩ : ClockConfig).Exact
      (batchTicks (initClock ⟨1, 1⟩ ⟨true, 1000000000, 4000000000⟩)) := by
  refine ⟨by decide, fun h => ?_⟩
  have hticks : (batchTicks (initClock ⟨1, 1⟩ ⟨true, 1000000000, 4000000000⟩)).muBatchIdleTicks = 1553255926 := by
    decide
  have hidle := h.2.2
  rw [hticks] at hidle
  exact absurd (hidle (by decide)) (by decide)

end P8
