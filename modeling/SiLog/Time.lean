import Mathlib.Algebra.Group.Int.Defs
import Mathlib.Algebra.Group.Nat.Defs

/-! # The clocks (`silog_time.c`)

    `SilogGetNowMs` and `SilogGetMonoMs` read a clock of the system and give
    milliseconds.  Both divide the nanoseconds by `NS_PER_US * US_PER_SEC`,
    which is the number of nanoseconds in a second, so the part below a second
    is lost and the result is a multiple of 1000.
-/

namespace SiLog.Time

/-! ## Section 1: The conversion -/

/-- `struct timespec` -/
structure Timespec where
  tvSec  : Int64
  tvNsec : Int64

/-- `MS_PER_SEC` -/
def msPerSec : UInt64 := 1000

/-- `US_PER_SEC` -/
def usPerSec : UInt64 := 1000000

/-- `NS_PER_US` -/
def nsPerUs : UInt64 := 1000

/-- What both functions make of a reading; `none` is a failure of `clock_gettime`. -/
def clockMs : Option Timespec → UInt64
  | none => 0
  | some ts => ts.tvSec.toUInt64 * msPerSec + ts.tvNsec.toUInt64 / (nsPerUs * usPerSec)

/-- `SilogGetNowMs`; `realtime` is the reading of `CLOCK_REALTIME`. -/
def silogGetNowMs (realtime : Option Timespec) : UInt64 := clockMs realtime

/-- `SilogGetMonoMs`; `monotonic` is the reading of `CLOCK_MONOTONIC`. -/
def silogGetMonoMs (monotonic : Option Timespec) : UInt64 := clockMs monotonic

/-! ## Section 2: What is lost -/

/-- The readings of a clock before the year 285 000 000. -/
structure Timespec.Valid (ts : Timespec) : Prop where
  sec_nonneg  : 0 ≤ ts.tvSec.toInt
  sec_lt      : ts.tvSec.toInt < 2 ^ 53
  nsec_nonneg : 0 ≤ ts.tvNsec.toInt
  nsec_lt     : ts.tvNsec.toInt < 10 ^ 9

/-- The reading in nanoseconds. -/
def Timespec.nanos (ts : Timespec) : ℤ := ts.tvSec.toInt * 10 ^ 9 + ts.tvNsec.toInt

/-- The result for a reading is its whole milliseconds. -/
def ExactMs (read : Option Timespec → UInt64) (ts : Timespec) : Prop :=
  ((read (some ts)).toNat : ℤ) = ts.nanos / 10 ^ 6

/-- The results tell two readings apart, and their difference is the time between them to a
    millisecond. -/
structure TellsApart (read : Option Timespec → UInt64) (ts ts' : Timespec) : Prop where
  differ : read (some ts) ≠ read (some ts')
  lower  : ts'.nanos - ts.nanos - 10 ^ 6 < (read (some ts') - read (some ts)).toNat * 10 ^ 6
  upper  : (read (some ts') - read (some ts)).toNat * 10 ^ 6 < ts'.nanos - ts.nanos + 10 ^ 6

theorem toNat_toUInt64 {x : Int64} (hx : 0 ≤ x.toInt) : (x.toUInt64.toNat : ℤ) = x.toInt := by
  have hle : 0 ≤ x := Int64.le_iff_toInt_le.mpr hx
  rw [Int64.toNat_toUInt64_of_le hle, Int64.cast_toNatClampNeg x hle]

section reading
variable {ts ts' : Timespec}

/-- The result is the seconds times 1000, and nothing of the nanoseconds. -/
theorem clockMs_eq (hts : ts.Valid) : ((clockMs (some ts)).toNat : ℤ) = ts.tvSec.toInt * 1000 := by
  have hsec := toNat_toUInt64 hts.sec_nonneg
  have hnsec := toNat_toUInt64 hts.nsec_nonneg
  have hlt := hts.sec_lt
  have hnlt := hts.nsec_lt
  have hzero : ts.tvNsec.toUInt64.toNat / 1000000000 = 0 := Nat.div_eq_of_lt (by omega)
  unfold clockMs
  rw [UInt64.toNat_add, UInt64.toNat_mul, UInt64.toNat_div]
  show (((ts.tvSec.toUInt64.toNat * 1000 % 2 ^ 64 + ts.tvNsec.toUInt64.toNat / 1000000000) % 2 ^ 64 : ℕ) : ℤ) = _
  rw [hzero]
  omega

theorem exactMs_iff (hts : ts.Valid) : ExactMs clockMs ts ↔ ts.tvNsec.toInt < 10 ^ 6 := by
  have hnonneg := hts.nsec_nonneg
  unfold ExactMs Timespec.nanos
  rw [clockMs_eq hts]
  omega

theorem tellsApart (hts : ts.Valid) (hts' : ts'.Valid) (hlow : ts.tvNsec.toInt < 10 ^ 6)
    (hlow' : ts'.tvNsec.toInt < 10 ^ 6) (hapart : ts.nanos + 10 ^ 6 ≤ ts'.nanos) :
    TellsApart clockMs ts ts' := by
  have hms := clockMs_eq hts
  have hms' := clockMs_eq hts'
  have hnonneg := hts.nsec_nonneg
  have hnonneg' := hts'.nsec_nonneg
  unfold Timespec.nanos at hapart
  have hlt : (clockMs (some ts)).toNat < (clockMs (some ts')).toNat := by omega
  have hsub : (clockMs (some ts') - clockMs (some ts)).toNat =
      (clockMs (some ts')).toNat - (clockMs (some ts)).toNat :=
    UInt64.toNat_sub_of_le _ _ (UInt64.le_iff_toNat_le.mpr (Nat.le_of_lt hlt))
  constructor
  · intro heq
    rw [heq] at hlt
    exact Nat.lt_irrefl _ hlt
  · unfold Timespec.nanos
    rw [hsub]
    omega
  · unfold Timespec.nanos
    rw [hsub]
    omega

/-- **Resolution.** Both functions return the whole milliseconds of a reading exactly if the reading is
    less than a millisecond behind a full second.  Two such readings that are at least a
    millisecond apart give different results, and the time between them is exact to a
    millisecond. -/
theorem clockMs_resolution_iff (hts : ts.Valid) :
    (ExactMs silogGetNowMs ts ∧ ExactMs silogGetMonoMs ts ↔ ts.tvNsec.toInt < 10 ^ 6) ∧
    (ts.tvNsec.toInt < 10 ^ 6 → ∀ ts' : Timespec, ts'.Valid → ts'.tvNsec.toInt < 10 ^ 6 →
      ts.nanos + 10 ^ 6 ≤ ts'.nanos →
        TellsApart silogGetNowMs ts ts' ∧ TellsApart silogGetMonoMs ts ts') := by
  constructor
  · constructor
    · intro hexact
      exact (exactMs_iff hts).mp hexact.1
    · intro hlow
      have hexact := (exactMs_iff hts).mpr hlow
      exact ⟨hexact, hexact⟩
  · intro hlow ts' hts' hlow' hapart
    have htells := tellsApart hts hts' hlow hlow' hapart
    exact ⟨htells, htells⟩

end reading

theorem clockMs_resolution_iff_second :
    Timespec.Valid ⟨1700000000, 999999⟩ ∧
    ExactMs silogGetNowMs ⟨1700000000, 999999⟩ ∧
    TellsApart silogGetMonoMs ⟨1700000000, 999999⟩ ⟨1700000001, 0⟩ := by
  have hvalid : Timespec.Valid ⟨1700000000, 999999⟩ := by
    constructor <;> decide
  have hvalid' : Timespec.Valid ⟨1700000001, 0⟩ := by
    constructor <;> decide
  obtain ⟨hiff, happly⟩ := clockMs_resolution_iff hvalid
  exact ⟨hvalid, (hiff.mpr (by decide)).1, (happly (by decide) _ hvalid' (by decide) (by decide)).2⟩

/-- Half a second and nine tenths of a second behind a full second: both results are the full
    second. -/
theorem clockMs_loses_milliseconds :
    Timespec.Valid ⟨1700000000, 500000000⟩ ∧ Timespec.Valid ⟨1700000000, 900000000⟩ ∧
    silogGetNowMs (some ⟨1700000000, 500000000⟩) = 1700000000000 ∧
    Timespec.nanos ⟨1700000000, 500000000⟩ / 10 ^ 6 = 1700000000500 ∧
    silogGetMonoMs (some ⟨1700000000, 500000000⟩) = silogGetMonoMs (some ⟨1700000000, 900000000⟩) ∧
    ¬ ExactMs silogGetNowMs ⟨1700000000, 500000000⟩ ∧ ¬ ExactMs silogGetMonoMs ⟨1700000000, 500000000⟩ := by
  refine ⟨?_, ?_, by decide, by decide, by decide, ?_, ?_⟩
  · constructor <;> decide
  · constructor <;> decide
  · unfold ExactMs
    decide
  · unfold ExactMs
    decide

end SiLog.Time
