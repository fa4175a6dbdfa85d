import Mathlib
import ContainerFS.Lib.MachineInt

/-!
The timekeeping parameters of the calibrated clocks (`pkg/sentry/time/parameters.go`).
A clock reads the cycle counter and turns it into nanoseconds with `ComputeTime`; when new
parameters are measured, `errorAdjust` does not switch to them at once but picks parameters
that keep the current time and meet the new clock one update interval later.

`muldiv64` is an assembly routine; it is modelled by its documented contract. Counter values
and times are `int64` and every sum and difference wraps, as in the Go code. With a negative
base cycle count `now - BaseCycles` can wrap, and then the adjusted clock jumps
(`errorAdjust_clock_jumps`); with non-negative counter values and a next update time that fits
in an `int64`, the adjusted parameters do what the comment of `errorAdjust` promises
(`errorAdjust_corrects`), and one nanosecond later they no longer do (`errorAdjust_past_room`).
-/

namespace ContainerFS.Time

open MachineInt

/-- `TSCValue`: a reading of the cycle counter. -/
abbrev TSCValue := Int64

/-- `ReferenceNS`: a reference clock time in nanoseconds. -/
abbrev ReferenceNS := Int64

/-- `ApproxUpdateInterval` (one second), in nanoseconds. -/
def approxUpdateInterval : Int64 := 1000000000

def nsPerSec : UInt64 := 1000000000

structure Parameters where
  baseCycles : TSCValue
  baseRef : ReferenceNS
  frequency : UInt64
  deriving DecidableEq, Repr

/-- `muldiv64` by its contract: `value * multiplier / divisor` rounded down, computed without
overflow of the product, and not `ok` when `divisor` is zero or the quotient needs more than
64 bits (the result is then zero, as the amd64 routine returns). -/
def muldiv64 (value multiplier divisor : UInt64) : UInt64 × Bool :=
  if divisor = 0 then (0, false)
  else if value.toNat * multiplier.toNat / divisor.toNat < 2 ^ 64 then
    (UInt64.ofNat (value.toNat * multiplier.toNat / divisor.toNat), true)
  else (0, false)

/-- `Parameters.ComputeTime`: `BaseRef + (now - BaseCycles) / Frequency`, with a counter
behind the base read as the base. -/
def Parameters.computeTime (p : Parameters) (nowCycles : TSCValue) : Int64 × Bool :=
  let diffCycles := nowCycles - p.baseCycles
  let diffCycles := if diffCycles < 0 then 0 else diffCycles
  let diffNS := muldiv64 diffCycles.toUInt64 nsPerSec p.frequency
  ((p.baseRef.toUInt64 + diffNS.1).toInt64, diffNS.2)

/-- The errors of `errorAdjust`, one for each `fmt.Errorf` of the source. -/
inductive AdjustError where
  /-- "TSC went backwards in updated clock params" -/
  | tscWentBackwards
  /-- "parameters contain base cycles later than now" -/
  | baseCyclesLaterThanNow
  /-- "old now time computation overflowed" -/
  | oldNowOverflowed
  /-- "unable to correct error in single period", the next update before `BaseRef` -/
  | nextBeforeBaseRef
  /-- "%v * (%v - %v) / %v overflows", the counter value of the next update -/
  | nextCyclesOverflow
  /-- "unable to correct error in single period", the next update before `now` -/
  | nextBeforeNow
  /-- "(%v - %v) * %v / %v overflows", the adjusted frequency -/
  | frequencyOverflow
  /-- "(%v - %v) * %v / %v overflows", the adjusted base reference -/
  | baseRefOverflow
  /-- "new now time computation overflowed" -/
  | newNowOverflowed
  deriving DecidableEq, Repr

/-- `errorAdjust`: the adjusted parameters and the current clock error. -/
def errorAdjust (prevParams newParams : Parameters) (now : TSCValue) :
    Except AdjustError (Parameters × ReferenceNS) :=
  if newParams.baseCycles < prevParams.baseCycles then .error .tscWentBackwards
  else if newParams.baseCycles > now then .error .baseCyclesLaterThanNow
  else
    let oldNowNS := prevParams.computeTime now
    if !oldNowNS.2 then .error .oldNowOverflowed
    else
      let nextNS := oldNowNS.1 + approxUpdateInterval
      if nextNS ≤ newParams.baseRef then .error .nextBeforeBaseRef
      else
        let c := muldiv64 newParams.frequency (nextNS - newParams.baseRef).toUInt64 nsPerSec
        if !c.2 then .error .nextCyclesOverflow
        else
          let next := c.1.toInt64 + newParams.baseCycles
          if next ≤ now then .error .nextBeforeNow
          else
            let frequency := muldiv64 (next - now).toUInt64 nsPerSec approxUpdateInterval.toUInt64
            if !frequency.2 then .error .frequencyOverflow
            else
              let diffNS := muldiv64 (now - newParams.baseCycles).toUInt64 nsPerSec frequency.1
              if !diffNS.2 then .error .baseRefOverflow
              else
                let newNowNS := newParams.computeTime now
                if !newNowNS.2 then .error .newNowOverflowed
                else
                  .ok (⟨newParams.baseCycles, oldNowNS.1 - diffNS.1.toInt64, frequency.1⟩,
                    oldNowNS.1 - newNowNS.1)

/-- The counter value at which the new parameters reach the next update time: `next` of the
source's comment, `BaseCycles + Frequency * (nextNS - BaseRef) / 1e9`, on `ℤ`. -/
def nextUpdateCycles (prev new : Parameters) (now : TSCValue) : ℤ :=
  new.baseCycles.toInt + new.frequency.toNat *
    ((prev.computeTime now).1.toInt + 1000000000 - new.baseRef.toInt) / 1000000000

/-- What the comment of `errorAdjust` promises of its result: the adjusted frequency is the
cycles left until the next update, the time at `now` is kept, the time at the next update is one
interval later and as close to the new clock as rounding allows, and the error is the old time
less the new one. -/
structure Corrects (prev new : Parameters) (now : TSCValue) (adjusted : Parameters)
    (errorNS : ReferenceNS) : Prop where
  frequency_eq : (adjusted.frequency.toNat : ℤ) = nextUpdateCycles prev new now - now.toInt
  frequency_pos : now.toInt < nextUpdateCycles prev new now
  continuous : adjusted.computeTime now = prev.computeTime now
  meets : (adjusted.computeTime (.ofInt (nextUpdateCycles prev new now))).2 = true →
    (adjusted.computeTime (.ofInt (nextUpdateCycles prev new now))).1.toInt =
      (prev.computeTime now).1.toInt + 1000000000
  close : (adjusted.computeTime (.ofInt (nextUpdateCycles prev new now))).2 = true →
    (new.computeTime (.ofInt (nextUpdateCycles prev new now))).2 = true ∧
      |((adjusted.computeTime (.ofInt (nextUpdateCycles prev new now))).1.toInt -
          (new.computeTime (.ofInt (nextUpdateCycles prev new now))).1.toInt : ℚ)| <
        1000000000 / new.frequency.toNat + 1
  error_eq : -2 ^ 63 ≤ (prev.computeTime now).1.toInt - (new.computeTime now).1.toInt →
    (prev.computeTime now).1.toInt - (new.computeTime now).1.toInt < 2 ^ 63 →
    errorNS.toInt = (prev.computeTime now).1.toInt - (new.computeTime now).1.toInt

theorem muldiv64_ok_iff (value multiplier divisor : UInt64) :
    (muldiv64 value multiplier divisor).2 = true ↔
      divisor ≠ 0 ∧ value.toNat * multiplier.toNat / divisor.toNat < 2 ^ 64 := by
  unfold muldiv64
  split_ifs with hd hlt <;> simp_all

theorem toNat_muldiv64 {value multiplier divisor : UInt64}
    (h : (muldiv64 value multiplier divisor).2 = true) :
    (muldiv64 value multiplier divisor).1.toNat =
      value.toNat * multiplier.toNat / divisor.toNat := by
  obtain ⟨hd, hlt⟩ := (muldiv64_ok_iff _ _ _).mp h
  rw [muldiv64, if_neg hd, if_pos hlt]
  exact UInt64.toNat_ofNat_of_lt' hlt

theorem toNat_muldiv64_of_eq {value multiplier divisor q : UInt64}
    (h : muldiv64 value multiplier divisor = (q, true)) :
    q.toNat = value.toNat * multiplier.toNat / divisor.toNat := by
  have hok : (muldiv64 value multiplier divisor).2 = true := by rw [h]
  simpa [h] using toNat_muldiv64 hok

/-- With the counter at or past the base, `ComputeTime` is the base reference plus the
converted difference. -/
theorem computeTime_of_not_lt {p : Parameters} {now : TSCValue} (h : ¬now - p.baseCycles < 0) :
    p.computeTime now =
      ((p.baseRef.toUInt64 +
          (muldiv64 (now - p.baseCycles).toUInt64 nsPerSec p.frequency).1).toInt64,
        (muldiv64 (now - p.baseCycles).toUInt64 nsPerSec p.frequency).2) := by
  simp only [Parameters.computeTime, if_neg h]

/-- Everything a successful `errorAdjust` has checked and computed. -/
theorem errorAdjust_eq_ok {prev new adjusted : Parameters} {now : TSCValue}
    {errorNS : ReferenceNS} (h : errorAdjust prev new now = .ok (adjusted, errorNS)) :
    ∃ c frequency diffNS : UInt64,
      prev.baseCycles ≤ new.baseCycles ∧ new.baseCycles ≤ now ∧
      (prev.computeTime now).2 = true ∧
      new.baseRef < (prev.computeTime now).1 + approxUpdateInterval ∧
      muldiv64 new.frequency
          ((prev.computeTime now).1 + approxUpdateInterval - new.baseRef).toUInt64 nsPerSec =
        (c, true) ∧
      now < c.toInt64 + new.baseCycles ∧
      muldiv64 (c.toInt64 + new.baseCycles - now).toUInt64 nsPerSec
          approxUpdateInterval.toUInt64 = (frequency, true) ∧
      muldiv64 (now - new.baseCycles).toUInt64 nsPerSec frequency = (diffNS, true) ∧
      (new.computeTime now).2 = true ∧
      adjusted = ⟨new.baseCycles, (prev.computeTime now).1 - diffNS.toInt64, frequency⟩ ∧
      errorNS = (prev.computeTime now).1 - (new.computeTime now).1 := by
  dsimp only [errorAdjust] at h
  generalize hold : prev.computeTime now = old at h
  generalize hc : muldiv64 new.frequency (old.1 + approxUpdateInterval - new.baseRef).toUInt64
    nsPerSec = c at h
  generalize hf : muldiv64 (c.1.toInt64 + new.baseCycles - now).toUInt64 nsPerSec
    approxUpdateInterval.toUInt64 = f at h
  generalize hd : muldiv64 (now - new.baseCycles).toUInt64 nsPerSec f.1 = d at h
  generalize hnew : new.computeTime now = newNow at h
  obtain ⟨oldNowNS, okOld⟩ := old
  obtain ⟨c, okC⟩ := c
  obtain ⟨f, okF⟩ := f
  obtain ⟨d, okD⟩ := d
  obtain ⟨newNowNS, okNew⟩ := newNow
  -- each check of the source: its error branch contradicts `h`
  by_cases h1 : new.baseCycles < prev.baseCycles
  · rw [if_pos h1] at h; cases h
  rw [if_neg h1] at h
  by_cases h2 : new.baseCycles > now
  · rw [if_pos h2] at h; cases h
  rw [if_neg h2] at h
  cases okOld
  · cases h
  by_cases h4 : oldNowNS + approxUpdateInterval ≤ new.baseRef
  · rw [if_pos h4] at h; cases h
  rw [if_neg h4] at h
  cases okC
  · cases h
  by_cases h6 : c.toInt64 + new.baseCycles ≤ now
  · rw [if_pos h6] at h; cases h
  rw [if_neg h6] at h
  cases okF
  · cases h
  cases okD
  · cases h
  cases okNew
  · cases h
  cases h
  exact ⟨c, f, d, Int64.not_lt.mp h1, Int64.not_lt.mp h2, rfl, Int64.not_le.mp h4, rfl,
    Int64.not_le.mp h6, hf, hd, rfl, rfl, rfl⟩

theorem add_mul_div_self {F d n : ℕ} (hF : 0 < F) : (F + d) * n / F = n + d * n / F := by
  rw [Nat.add_mul, Nat.add_comm, Nat.add_mul_div_left _ _ hF, Nat.add_comm]

/-- Nanoseconds turned into cycles and back, each time rounded down, come back at most
`n / F + 1` short and never over. -/
theorem div_mul_div_bounds {F D n : ℕ} (hF : 0 < F) (hn : 0 < n) :
    F * D / n * n / F ≤ D ∧ ((D : ℚ) - (F * D / n * n / F : ℕ)) < n / F + 1 := by
  set c := F * D / n
  set v := c * n / F
  have hc : c * n ≤ F * D := Nat.div_mul_le_self _ _
  have hc' : F * D < c * n + n := Nat.lt_div_mul_add hn
  have hv : v * F ≤ c * n := Nat.div_mul_le_self _ _
  have hv' : c * n < v * F + F := Nat.lt_div_mul_add hF
  have hle : v ≤ D := by
    by_contra hlt
    have : (D + 1) * F ≤ v * F := Nat.mul_le_mul_right F (by omega)
    nlinarith
  refine ⟨hle, ?_⟩
  have hgap : (F * D : ℚ) < v * F + F + n := by
    exact_mod_cast (show F * D < v * F + F + n by omega)
  have hFq : (0 : ℚ) < F := by exact_mod_cast hF
  rw [← sub_lt_iff_lt_add, lt_div_iff₀ hFq]
  linarith

/-- `ComputeTime` at a counter value at or past a non-negative base. -/
theorem computeTime_of_le {p : Parameters} {x : TSCValue} (hbase : 0 ≤ p.baseCycles.toInt)
    (hle : p.baseCycles.toInt ≤ x.toInt) :
    p.computeTime x =
      ((p.baseRef.toUInt64 + (muldiv64 (x - p.baseCycles).toUInt64 nsPerSec p.frequency).1).toInt64,
        (muldiv64 (x - p.baseCycles).toUInt64 nsPerSec p.frequency).2) := by
  apply computeTime_of_not_lt
  rw [Int64.lt_iff_toInt_lt, toInt_sub_of_nonneg hbase hle]
  simp only [Int64.toInt_zero]
  omega

/-- Parameters whose base reference is `a` less the conversion of `x - BaseCycles` read `a`
at `x`: the clock does not jump at the switch. -/
theorem computeTime_rebased {base x a : Int64} {frequency d : UInt64} (hbase : 0 ≤ base.toInt)
    (hle : base.toInt ≤ x.toInt)
    (hd : muldiv64 (x - base).toUInt64 nsPerSec frequency = (d, true)) :
    (⟨base, a - d.toInt64, frequency⟩ : Parameters).computeTime x = (a, true) := by
  rw [computeTime_of_le (p := ⟨base, a - d.toInt64, frequency⟩) hbase hle]
  simp only [hd, toInt64_toUInt64_sub_add, sub_self, UInt64.toInt64_ofNat, Int64.add_zero]

/-- `ComputeTime` at `c` cycles past the base, for `c` below `2^63`. -/
theorem computeTime_add_cycles (p : Parameters) {c : UInt64} (hc : c.toNat < 2 ^ 63) :
    p.computeTime (c.toInt64 + p.baseCycles) =
      ((p.baseRef.toUInt64 + (muldiv64 c nsPerSec p.frequency).1).toInt64,
        (muldiv64 c nsPerSec p.frequency).2) := by
  have hsub : c.toInt64 + p.baseCycles - p.baseCycles = c.toInt64 := Int64.add_sub_cancel _ _
  have hnn : ¬c.toInt64 < 0 := by
    rw [Int64.lt_iff_toInt_lt, toInt_toInt64, if_pos hc]
    simp
  rw [computeTime_of_not_lt (by rwa [hsub]), hsub, UInt64.toUInt64_toInt64]

/-- Rebased parameters whose frequency is the cycles from `x` to `c + BaseCycles` read one
update interval more there than at `x`. -/
theorem computeTime_rebased_next {base x a : Int64} {frequency c d : UInt64}
    (hc : c.toNat < 2 ^ 63) (hcycles : c.toNat = frequency.toNat + (x - base).toUInt64.toNat)
    (hd : muldiv64 (x - base).toUInt64 nsPerSec frequency = (d, true))
    (hok : ((⟨base, a - d.toInt64, frequency⟩ : Parameters).computeTime
      (c.toInt64 + base)).2 = true) :
    ((⟨base, a - d.toInt64, frequency⟩ : Parameters).computeTime (c.toInt64 + base)).1 =
      a + approxUpdateInterval := by
  have hcomp := computeTime_add_cycles ⟨base, a - d.toInt64, frequency⟩ hc
  simp only at hcomp
  rw [hcomp] at hok ⊢
  have hF : frequency ≠ 0 := ((muldiv64_ok_iff _ _ _).mp (by rw [hd])).1
  have hFpos : 0 < frequency.toNat := by
    rw [Nat.pos_iff_ne_zero, ne_eq, ← UInt64.toNat_zero, UInt64.toNat_inj]
    exact hF
  have hv := toNat_muldiv64 hok
  have hdN := toNat_muldiv64_of_eq hd
  have hns : nsPerSec.toNat = 1000000000 := rfl
  have hstep : (muldiv64 c nsPerSec frequency).1.toNat = d.toNat + 1000000000 := by
    rw [hv, hdN, hcycles, add_mul_div_self hFpos, hns]
    omega
  have hsub : (muldiv64 c nsPerSec frequency).1 - d = 1000000000 := by
    apply UInt64.toNat_inj.mp
    rw [UInt64.toNat_sub_of_le _ _ (UInt64.le_iff_toNat_le.mpr (by omega)), hstep,
      Nat.add_sub_cancel_left]
    rfl
  simp only [toInt64_toUInt64_sub_add, hsub]
  rfl

/-- Parameters read at `c + BaseCycles`, where `c` is `D` nanoseconds converted to cycles and
rounded down, give at most `BaseRef + D` and less by under `1e9 / Frequency + 1`. -/
theorem computeTime_cycles_bounds {p : Parameters} {c : UInt64} {D : ℕ}
    (hc : c.toNat = p.frequency.toNat * D / 1000000000) (hc63 : c.toNat < 2 ^ 63)
    (hF : 0 < p.frequency.toNat) (hroom : p.baseRef.toInt + D < 2 ^ 63) :
    (p.computeTime (c.toInt64 + p.baseCycles)).2 = true ∧
      (p.computeTime (c.toInt64 + p.baseCycles)).1.toInt ≤ p.baseRef.toInt + D ∧
      ((p.baseRef.toInt + D : ℤ) - (p.computeTime (c.toInt64 + p.baseCycles)).1.toInt : ℚ) <
        1000000000 / p.frequency.toNat + 1 := by
  obtain ⟨hle, hlt⟩ := div_mul_div_bounds (D := D) hF (by norm_num : 0 < 1000000000)
  have hns : nsPerSec.toNat = 1000000000 := rfl
  have hlo := p.baseRef.le_toInt
  have hok : (muldiv64 c nsPerSec p.frequency).2 = true := by
    rw [muldiv64_ok_iff, hns, hc]
    refine ⟨?_, by omega⟩
    rw [ne_eq, ← UInt64.toNat_inj, UInt64.toNat_zero]
    omega
  have hv := toNat_muldiv64 hok
  rw [hns, hc] at hv
  rw [computeTime_add_cycles p hc63]
  refine ⟨hok, ?_, ?_⟩
  · rw [toInt_toInt64_toUInt64_add (by omega), hv]
    omega
  · rw [toInt_toInt64_toUInt64_add (by omega), hv]
    simp only [Int.cast_add, Int.cast_natCast]
    linarith

/-- On non-negative counter values, with a next update time that fits in an `int64`, a
successful `errorAdjust` corrects the clock as its comment says. -/
theorem errorAdjust_corrects {prev new adjusted : Parameters} {now : TSCValue}
    {errorNS : ReferenceNS} (h : errorAdjust prev new now = .ok (adjusted, errorNS))
    (hbase : 0 ≤ prev.baseCycles)
    (hroom : (prev.computeTime now).1.toInt + 1000000000 < 2 ^ 63) :
    Corrects prev new now adjusted errorNS := by
  obtain ⟨c, f, d, hprev, hnow, hold, hnextNS, hc, hnext, hf, hd, hnew, rfl, rfl⟩ :=
    errorAdjust_eq_ok h
  set t0 := (prev.computeTime now).1 with ht0
  have hB : 0 ≤ new.baseCycles.toInt :=
    le_trans (by simpa [Int64.le_iff_toInt_le] using hbase) (Int64.le_iff_toInt_le.mp hprev)
  have hBnow : new.baseCycles.toInt ≤ now.toInt := Int64.le_iff_toInt_le.mp hnow
  have hns : nsPerSec.toNat = 1000000000 := rfl
  have hnextNSv : (t0 + approxUpdateInterval).toInt = t0.toInt + 1000000000 := by
    have := t0.le_toInt
    have hI : approxUpdateInterval.toInt = 1000000000 := by decide
    rw [toInt_add_of_range (by omega) (by omega), hI]
  have hD : ((t0 + approxUpdateInterval - new.baseRef).toUInt64.toNat : ℤ) =
      t0.toInt + 1000000000 - new.baseRef.toInt := by
    have := Int64.lt_iff_toInt_lt.mp hnextNS
    rw [toNat_toUInt64_sub_of_le (by omega), hnextNSv]
  have hcN := toNat_muldiv64_of_eq hc
  rw [hns] at hcN
  have hnextZ := Int64.lt_iff_toInt_lt.mp hnext
  obtain ⟨hc63, hnextv⟩ := toInt_toInt64_add_of_lt hB hBnow hnextZ
  have hnextU : nextUpdateCycles prev new now = c.toNat + new.baseCycles.toInt := by
    rw [nextUpdateCycles, ← ht0, ← hD, hcN]
    push_cast
    ring
  have hofInt : Int64.ofInt (nextUpdateCycles prev new now) = c.toInt64 + new.baseCycles := by
    rw [hnextU, ← hnextv, Int64.ofInt_toInt]
  have hfreq : (f.toNat : ℤ) = nextUpdateCycles prev new now - now.toInt := by
    have hfN := toNat_muldiv64_of_eq hf
    have hI : approxUpdateInterval.toUInt64.toNat = 1000000000 := by decide
    rw [hns, hI, Nat.mul_div_cancel _ (by norm_num)] at hfN
    rw [hfN, toNat_toUInt64_sub_of_le (by omega), hnextv, hnextU]
  have hcycles : c.toNat = f.toNat + (now - new.baseCycles).toUInt64.toNat := by
    have := toNat_toUInt64_sub_of_le hBnow
    omega
  have hmeets : ((⟨new.baseCycles, t0 - d.toInt64, f⟩ : Parameters).computeTime
      (c.toInt64 + new.baseCycles)).2 = true →
      ((⟨new.baseCycles, t0 - d.toInt64, f⟩ : Parameters).computeTime
        (c.toInt64 + new.baseCycles)).1.toInt = t0.toInt + 1000000000 := by
    intro hok
    rw [computeTime_rebased_next hc63 hcycles hd hok, hnextNSv]
  refine ⟨hfreq, by omega, ?_, ?_, ?_, ?_⟩
  · rw [computeTime_rebased hB hBnow hd]
    exact Prod.ext rfl hold.symm
  · rw [hofInt]
    exact hmeets
  · rw [hofInt]
    intro hok
    have hFpos : 0 < new.frequency.toNat := by
      rcases Nat.eq_zero_or_pos new.frequency.toNat with hF | hF
      · rw [hF, Nat.zero_mul, Nat.zero_div] at hcN
        omega
      · exact hF
    obtain ⟨hnewok, hle, hlt⟩ := computeTime_cycles_bounds (p := new) hcN hc63 hFpos (by omega)
    refine ⟨hnewok, abs_lt.mpr ⟨?_, ?_⟩⟩
    · rw [hmeets hok]
      have hle' : ((new.computeTime (c.toInt64 + new.baseCycles)).1.toInt : ℚ) ≤
          t0.toInt + 1000000000 := by exact_mod_cast (by omega)
      have : (0 : ℚ) < 1000000000 / new.frequency.toNat + 1 := by positivity
      push_cast
      linarith
    · rw [hmeets hok]
      rw [hD] at hlt
      push_cast at hlt ⊢
      linarith
  · intro hlo hhi
    exact toInt_sub_of_range hlo hhi

/-- A switch from 3 GHz parameters to 2 GHz ones a million cycles in. -/
theorem errorAdjust_corrects_threeToTwoGHz :
    errorAdjust ⟨100, 0, 3000000000⟩ ⟨400, -7, 2000000000⟩ 1000000 =
        .ok (⟨400, -166583, 1999667014⟩, -166493) ∧
      (0 : Int64) ≤ 100 ∧
      (Parameters.computeTime ⟨100, 0, 3000000000⟩ 1000000).1.toInt + 1000000000 < 2 ^ 63 ∧
      Corrects ⟨100, 0, 3000000000⟩ ⟨400, -7, 2000000000⟩ 1000000
        ⟨400, -166583, 1999667014⟩ (-166493) := by
  have h : errorAdjust ⟨100, 0, 3000000000⟩ ⟨400, -7, 2000000000⟩ 1000000 =
      .ok (⟨400, -166583, 1999667014⟩, -166493) := by decide
  have hbase : (0 : Int64) ≤ 100 := by decide
  have hroom : (Parameters.computeTime ⟨100, 0, 3000000000⟩ 1000000).1.toInt + 1000000000 <
      2 ^ 63 := by decide
  exact ⟨h, hbase, hroom, errorAdjust_corrects h hbase hroom⟩

/-- The bound on the next update time is needed: one nanosecond past it, `t0 + ApproxUpdateInterval`
wraps to just above `MinInt64`, `errorAdjust` still succeeds against a new base reference of
`MinInt64`, and the adjusted frequency is one cycle per interval, not the `2^65 + 1` cycles the
new parameters take to reach the next update. -/
theorem errorAdjust_past_room :
    errorAdjust ⟨0, 9223372035854775808, 1000000000⟩ ⟨0, -9223372036854775808, 2000000000⟩ 1 =
        .ok (⟨0, 9223372034854775809, 1⟩, -999999999) ∧
      (0 : Int64) ≤ 0 ∧
      (Parameters.computeTime ⟨0, 9223372035854775808, 1000000000⟩ 1).1.toInt + 1000000000 =
        2 ^ 63 + 1 ∧
      ¬ Corrects ⟨0, 9223372035854775808, 1000000000⟩ ⟨0, -9223372036854775808, 2000000000⟩ 1
        ⟨0, 9223372034854775809, 1⟩ (-999999999) := by
  refine ⟨by decide, by decide, by decide, fun hc => ?_⟩
  have hfreq := hc.frequency_eq
  revert hfreq
  decide

/-- With the base cycles at the bottom of the `int64` range, `now - BaseCycles` wraps to a
negative value: `ComputeTime` reads it as zero cycles, while `errorAdjust` converts it as `2^63`
cycles into the base reference, and the adjusted clock jumps back by `2^62` ns at the switch. -/
theorem errorAdjust_clock_jumps :
    Int64.minValue ≤ (0 : Int64) ∧
      errorAdjust ⟨Int64.minValue, 0, 2000000000⟩
          ⟨Int64.minValue, -4611686018427387904, 2000000000⟩ 0 =
        .ok (⟨Int64.minValue, -4611686018427387904, 2000000000⟩, 4611686018427387904) ∧
      Parameters.computeTime ⟨Int64.minValue, 0, 2000000000⟩ 0 = (0, true) ∧
      Parameters.computeTime ⟨Int64.minValue, -4611686018427387904, 2000000000⟩ 0 =
        (-4611686018427387904, true) := by
  decide

end ContainerFS.Time
