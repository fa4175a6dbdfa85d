import ContainerFS.Lib.MachineInt

/-!
Timer settings of the sentry's clocks (`pkg/sentry/kernel/time`). A `Time` is
an `int64` count of nanoseconds. `Add` saturates at `MinTime` and `MaxTime`,
and `Sub` at the extreme durations, so each is the exact result clamped to
`int64` (`Time.toInt_add`, `Time.toInt_sub`).

`Setting.At` counts the expirations of a periodic timer up to `now` and moves
`Next` past `now`. Over unbounded integers the count is `dueCount`, and two
readings compose into one (`dueCount_add`). `At` computes it exactly, saturating
`Next` at `MaxTime`, while `Period` times the count fits in `int64`
(`at_periodic`). The product is formed in `uint64` and reinterpreted as a
`time.Duration`, so a product of `2^63` or more moves `Next` backwards. While
the next expiration after `now` fits in `int64`, readings at increasing times
compose (`at_at`), and so do the ticks of a timer (`tickAll_eq_at`).
-/

namespace ContainerFS.Ktime

open ContainerFS.MachineInt

/-- The errors of the conversions to a `Setting`. -/
inductive Errno where
  | einval
  deriving DecidableEq, Repr

/-- `Time`: nanoseconds after the zero of a clock's domain. -/
@[ext]
structure Time where
  ns : Int64
  deriving DecidableEq, Repr

def MinTime : Time := ⟨Int64.minValue⟩

def MaxTime : Time := ⟨Int64.maxValue⟩

def ZeroTime : Time := ⟨0⟩

/-- `time.Duration`, an `int64` count of nanoseconds. -/
abbrev Duration := Int64

def MinDuration : Duration := Int64.minValue

def MaxDuration : Duration := Int64.maxValue

/-- The exact value clamped into `int64`: what the saturating operations compute. -/
def saturate (z : ℤ) : ℤ := max (-2 ^ 63) (min (2 ^ 63 - 1) z)

section Due

variable {next p now now' k : ℤ}

/-- The expirations, over unbounded integers, of a timer first due at `next`
and every `period` after it, up to and including `now`. -/
def dueCount (next period now : ℤ) : ℤ := if now < next then 0 else (now - next) / period + 1

theorem dueCount_of_lt (h : now < next) : dueCount next p now = 0 := if_pos h

theorem dueCount_of_le (h : next ≤ now) : dueCount next p now = (now - next) / p + 1 :=
  if_neg (not_lt.mpr h)

theorem dueCount_nonneg (next now : ℤ) (hp : 0 < p) : 0 ≤ dueCount next p now := by
  unfold dueCount
  split_ifs with h
  · exact le_refl 0
  · have := Int.ediv_nonneg (a := now - next) (by omega) hp.le
    omega

/-- The expirations counted are due by `now`, and the next one is not. -/
theorem dueCount_bounds (hp : 0 < p) (h : next ≤ now) :
    next + (dueCount next p now - 1) * p ≤ now ∧ now < next + dueCount next p now * p := by
  rw [dueCount_of_le h]
  have hlo := Int.ediv_mul_le (now - next) hp.ne'
  have hhi := Int.lt_ediv_add_one_mul_self (now - next) hp
  constructor <;> linarith

/-- The count is the one `k` whose expirations straddle `now`. -/
theorem dueCount_eq_of_bounds (hp : 0 < p) (h : next ≤ now)
    (hlo : next + (k - 1) * p ≤ now) (hhi : now < next + k * p) : dueCount next p now = k := by
  obtain ⟨hlo', hhi'⟩ := dueCount_bounds hp h
  have h1 : k - 1 < dueCount next p now :=
    Int.lt_of_mul_lt_mul_right (a := p) (by linarith) hp.le
  have h2 : dueCount next p now - 1 < k :=
    Int.lt_of_mul_lt_mul_right (a := p) (by linarith) hp.le
  omega

/-- Counting up to `now`, then from the first expiration after it up to a
later `now'`, counts what counting up to `now'` does. -/
theorem dueCount_add (next : ℤ) (hp : 0 < p) (h : now ≤ now') :
    dueCount next p now + dueCount (next + dueCount next p now * p) p now' =
      dueCount next p now' := by
  rcases lt_or_ge now next with hlt | hle
  · rw [dueCount_of_lt hlt]
    simp
  obtain ⟨hlo, hhi⟩ := dueCount_bounds hp hle
  set c := dueCount next p now
  rcases lt_or_ge now' (next + c * p) with hlt' | hle'
  · -- the next expiration is still ahead at `now'`
    rw [dueCount_of_lt hlt', add_zero]
    exact (dueCount_eq_of_bounds hp (by omega) (by linarith) hlt').symm
  · obtain ⟨hlo', hhi'⟩ := dueCount_bounds hp hle'
    refine (dueCount_eq_of_bounds hp (by omega) ?_ ?_).symm <;> linarith

/-- Later readings count at least as many expirations. -/
theorem dueCount_mono (next : ℤ) (hp : 0 < p) (h : now ≤ now') :
    dueCount next p now ≤ dueCount next p now' := by
  have hsum := dueCount_add next hp h
  have hrest := dueCount_nonneg (next + dueCount next p now * p) now' hp
  omega

end Due

namespace Time

/-- `Time.Add`: the sum, or `MaxTime` or `MinTime` where it would leave `int64`. -/
def add (t : Time) (d : Duration) : Time :=
  if 0 < t.ns ∧ Int64.maxValue - t.ns < d then MaxTime
  else if t.ns < 0 ∧ d < Int64.minValue - t.ns then MinTime
  else ⟨t.ns + d⟩

def equal (t u : Time) : Bool := t.ns == u.ns

def before (t u : Time) : Bool := t.ns < u.ns

def after (t u : Time) : Bool := t.ns > u.ns

/-- `Time.Sub`: the wrapped difference if adding it back to `u` gives `t`, else
the extreme duration on `t`'s side of `u`. -/
def sub (t u : Time) : Duration :=
  -- the source multiplies by `time.Nanosecond`, which is one
  let dur := t.ns - u.ns
  if (u.add dur).equal t then dur
  else if t.before u then MinDuration
  else MaxDuration

section Arith

variable (t u : Time) (d : Duration)

/-- `Add` is the sum clamped into `int64`: `MaxInt64 - t` and `MinInt64 - t` do
not wrap on the side of zero where `Add` forms them. -/
theorem toInt_add : (t.add d).ns.toInt = saturate (t.ns.toInt + d.toInt) := by
  have ht := t.ns.le_toInt
  have ht' := t.ns.toInt_lt
  have hd := d.le_toInt
  have hd' := d.toInt_lt
  have hmax : 0 < t.ns.toInt → (Int64.maxValue - t.ns).toInt = 2 ^ 63 - 1 - t.ns.toInt := by
    intro hpos
    rw [toInt_sub_of_range] <;> rw [Int64.toInt_maxValue] <;> omega
  have hmin : t.ns.toInt < 0 → (Int64.minValue - t.ns).toInt = -2 ^ 63 - t.ns.toInt := by
    intro hneg
    rw [toInt_sub_of_range] <;> rw [Int64.toInt_minValue] <;> omega
  unfold add saturate
  simp only [Int64.lt_iff_toInt_lt, Int64.toInt_zero]
  split_ifs with hhi hlo
  · have := hmax hhi.1
    rw [MaxTime, Int64.toInt_maxValue]
    omega
  · have := hmin hlo.1
    rw [MinTime, Int64.toInt_minValue]
    omega
  · -- neither bound is crossed, so the sum is in range
    have hin : -2 ^ 63 ≤ t.ns.toInt + d.toInt ∧ t.ns.toInt + d.toInt < 2 ^ 63 := by
      rcases lt_trichotomy t.ns.toInt 0 with hneg | hzero | hpos
      · have := hmin hneg
        omega
      · omega
      · have := hmax hpos
        omega
    rw [toInt_add_of_range hin.1 hin.2]
    omega

/-- `Sub` is the difference clamped into `int64`: adding a wrapped difference
back to `u` saturates on the other side of `t`. -/
theorem toInt_sub : (t.sub u).toInt = saturate (t.ns.toInt - u.ns.toInt) := by
  have ht := t.ns.le_toInt
  have ht' := t.ns.toInt_lt
  have hu := u.ns.le_toInt
  have hu' := u.ns.toInt_lt
  have hdur := toInt_sub_int64 t.ns u.ns
  have hback := toInt_add u (t.ns - u.ns)
  have hequal : (u.add (t.ns - u.ns)).equal t = true ↔
      (u.add (t.ns - u.ns)).ns.toInt = t.ns.toInt := by
    rw [equal, beq_iff_eq, Int64.toInt_inj]
  unfold sub
  simp only [before, decide_eq_true_eq, Int64.lt_iff_toInt_lt]
  unfold saturate at hback ⊢
  split_ifs at hdur with hlo hhi <;> split_ifs with heq hlt <;>
    simp only [hequal, MinDuration, MaxDuration, Int64.toInt_minValue, Int64.toInt_maxValue]
      at heq ⊢ <;> omega

end Arith

end Time

/-- `Setting`, the user-controlled part of a timer. -/
@[ext]
structure Setting where
  enabled : Bool
  next : Time
  period : Duration
  deriving DecidableEq, Repr

/-- `SettingFromSpecAt`: `value` is relative to `now`, and zero disarms. -/
def settingFromSpecAt (value interval : Duration) (now : Time) : Except Errno Setting :=
  if value < 0 then .error .einval
  else if value = 0 then .ok ⟨false, ZeroTime, interval⟩
  else .ok ⟨true, now.add value, interval⟩

/-- `SettingFromAbsSpec`: `value` is an absolute time, and zero disarms. -/
def settingFromAbsSpec (value : Time) (interval : Duration) : Except Errno Setting :=
  if value.before ZeroTime then .error .einval
  else if value = ZeroTime then .ok ⟨false, ZeroTime, interval⟩
  else .ok ⟨true, value, interval⟩

/-- `Setting.At`: the setting once the clock reads `now`, and the number of
expirations up to `now`. -/
def Setting.at (s : Setting) (now : Time) : Setting × UInt64 :=
  if !s.enabled then (s, 0)
  else if s.next.after now then (s, 0)
  else if s.period = 0 then ({ s with enabled := false }, 1)
  else
    let exp := 1 + (now.sub s.next).toUInt64 / s.period.toUInt64
    ({ s with next := s.next.add (s.period.toUInt64 * exp).toInt64 }, exp)

/-- What `At` assumes of a setting: `Next ≥ ZeroTime`, and `Period ≥ 0` as
`Setting` documents. -/
structure Setting.Valid (s : Setting) : Prop where
  next_nonneg : 0 ≤ s.next.ns.toInt
  period_nonneg : 0 ≤ s.period.toInt

/-- The first expiration after `now` is an `int64`: every `At` up to `now` is
then exact. -/
def Setting.Fits (s : Setting) (now : Time) : Prop :=
  s.next.ns.toInt + dueCount s.next.ns.toInt s.period.toInt now.ns.toInt * s.period.toInt < 2 ^ 63

section At

variable {s : Setting} {now : Time}

theorem at_of_disabled (h : s.enabled = false) : s.at now = (s, 0) := by
  simp [Setting.at, h]

theorem at_of_lt (h : now.ns.toInt < s.next.ns.toInt) : s.at now = (s, 0) := by
  have hafter : s.next.after now = true := by
    simpa [Time.after, Int64.lt_iff_toInt_lt] using h
  by_cases hen : s.enabled <;> simp [Setting.at, hen, hafter]

theorem at_oneShot (hen : s.enabled = true) (hdue : s.next.ns.toInt ≤ now.ns.toInt)
    (hp : s.period = 0) : s.at now = ({ s with enabled := false }, 1) := by
  have hafter : s.next.after now = false := by
    simpa [Time.after, Int64.lt_iff_toInt_lt] using hdue
  simp [Setting.at, hen, hafter, hp]

theorem at_period : (s.at now).1.period = s.period := by
  unfold Setting.at
  split_ifs <;> rfl

/-- A due periodic timer: `exp = 1 + (now - Next) / Period` is `dueCount`, and
the product `Period * exp`, while it fits in `int64`, moves `Next` to the
first expiration after `now`, saturated at `MaxTime`. -/
theorem at_periodic (hen : s.enabled = true) (hnext : 0 ≤ s.next.ns.toInt)
    (hdue : s.next.ns.toInt ≤ now.ns.toInt) (hp : 0 < s.period.toInt)
    (hfit : s.period.toInt * dueCount s.next.ns.toInt s.period.toInt now.ns.toInt < 2 ^ 63) :
    ((s.at now).2.toNat : ℤ) = dueCount s.next.ns.toInt s.period.toInt now.ns.toInt ∧
      (s.at now).1.next.ns.toInt = min (2 ^ 63 - 1)
        (s.next.ns.toInt + dueCount s.next.ns.toInt s.period.toInt now.ns.toInt * s.period.toInt) ∧
      (s.at now).1.enabled = true := by
  have hnow := now.ns.toInt_lt
  have hafter : s.next.after now = false := by
    simpa [Time.after, Int64.lt_iff_toInt_lt] using hdue
  have hp0 : s.period ≠ 0 := by
    rintro h
    rw [h, Int64.toInt_zero] at hp
    exact lt_irrefl 0 hp
  -- `Sub` is exact here: `0 ≤ now - Next < 2^63`
  have hsub : ((now.sub s.next).toUInt64.toNat : ℤ) = now.ns.toInt - s.next.ns.toInt := by
    rw [toNat_toUInt64, Time.toInt_sub]
    unfold saturate
    split_ifs <;> omega
  have hper : (s.period.toUInt64.toNat : ℤ) = s.period.toInt := by
    rw [toNat_toUInt64, if_pos hp.le]
  set k := dueCount s.next.ns.toInt s.period.toInt now.ns.toInt
  have hk : k = (now.ns.toInt - s.next.ns.toInt) / s.period.toInt + 1 := dueCount_of_le hdue
  -- the count, formed in `uint64`, does not wrap
  have hexp : ((1 + (now.sub s.next).toUInt64 / s.period.toUInt64).toNat : ℤ) = k := by
    have hle := Nat.div_le_self (now.sub s.next).toUInt64.toNat s.period.toUInt64.toNat
    rw [UInt64.toNat_add, UInt64.toNat_div, UInt64.toNat_one, Nat.mod_eq_of_lt (by omega)]
    push_cast
    rw [hsub, hper, hk, Int.add_comm]
  -- nor does the product, which `hfit` keeps below `2^63`
  have hprod : ((s.period.toUInt64 * (1 + (now.sub s.next).toUInt64 /
      s.period.toUInt64)).toInt64.toInt) = s.period.toInt * k := by
    have hcast : ((s.period.toUInt64.toNat * (1 + (now.sub s.next).toUInt64 /
        s.period.toUInt64).toNat : ℕ) : ℤ) = s.period.toInt * k := by
      push_cast
      rw [hper, hexp]
    rw [toInt_toInt64, UInt64.toNat_mul, Nat.mod_eq_of_lt (by omega), if_pos (by omega)]
    exact hcast
  have hk0 : 0 ≤ k := dueCount_nonneg _ _ hp
  have hkp : 0 ≤ s.period.toInt * k := mul_nonneg hp.le hk0
  simp only [Setting.at, hen, hafter, hp0, Bool.not_true, Bool.false_eq_true, if_false]
  refine ⟨hexp, ?_, trivial⟩
  rw [Time.toInt_add, hprod]
  unfold saturate
  rw [mul_comm k]
  omega

/-- Past the product bound of `at_periodic`, with `Period = 2^62`, `Next = 1`,
and a reading at `MaxTime`: `exp = 2` and `Period * exp = 2^63` wraps to
`MinDuration`, so `Next` moves back to `-2^63 + 1`. And past the bound of
`at_at`: a reading at `MaxInt64 - 1` saturates `Next` at `MaxTime`, and a
second reading at `MaxTime` fires once more than one reading there. -/
theorem at_wraps_next :
    ((⟨true, ⟨1⟩, 4611686018427387904⟩ : Setting).at MaxTime).2 = 2 ∧
      ((⟨true, ⟨1⟩, 4611686018427387904⟩ : Setting).at MaxTime).1.next.ns.toInt = -2 ^ 63 + 1 ∧
      (let s : Setting := ⟨true, ⟨9223372036854775806⟩, 2⟩
       (s.at ⟨9223372036854775806⟩).2 + ((s.at ⟨9223372036854775806⟩).1.at MaxTime).2 = 2 ∧
         (s.at MaxTime).2 = 1) := by
  decide

/-- While the first expiration after `now` fits, `At` of a periodic timer is
exact, whether or not it is due. -/
theorem at_of_fits (hen : s.enabled = true) (hv : s.Valid) (hp : 0 < s.period.toInt)
    (hfit : s.Fits now) :
    ((s.at now).2.toNat : ℤ) = dueCount s.next.ns.toInt s.period.toInt now.ns.toInt ∧
      (s.at now).1.enabled = true ∧ (s.at now).1.next.ns.toInt =
        s.next.ns.toInt + dueCount s.next.ns.toInt s.period.toInt now.ns.toInt * s.period.toInt := by
  rcases lt_or_ge now.ns.toInt s.next.ns.toInt with hlt | hdue
  · rw [at_of_lt hlt, dueCount_of_lt hlt]
    simp [hen]
  have hk0 := dueCount_nonneg s.next.ns.toInt now.ns.toInt hp
  have hprod : s.period.toInt * dueCount s.next.ns.toInt s.period.toInt now.ns.toInt < 2 ^ 63 := by
    rw [mul_comm]
    unfold Setting.Fits at hfit
    linarith [hv.next_nonneg]
  obtain ⟨hcount, hnext, hen'⟩ := at_periodic hen hv.next_nonneg hdue hp hprod
  refine ⟨hcount, hen', ?_⟩
  rw [hnext]
  unfold Setting.Fits at hfit
  omega

/-- At a due reading the new `Next` is the first expiration after `now`:
`Next' - Period ≤ now < Next'`, and `Next'` is not below `Next`. -/
theorem at_next_bounds (hen : s.enabled = true) (hv : s.Valid) (hp : 0 < s.period.toInt)
    (hfit : s.Fits now) (hdue : s.next.ns.toInt ≤ now.ns.toInt) :
    (s.at now).1.next.ns.toInt - s.period.toInt ≤ now.ns.toInt ∧
      now.ns.toInt < (s.at now).1.next.ns.toInt ∧ s.next.ns.toInt ≤ (s.at now).1.next.ns.toInt := by
  obtain ⟨-, -, hnext⟩ := at_of_fits hen hv hp hfit
  obtain ⟨hlo, hhi⟩ := dueCount_bounds hp hdue
  have hk0 := dueCount_nonneg s.next.ns.toInt now.ns.toInt hp
  have hkp := mul_nonneg hk0 hp.le
  rw [hnext]
  refine ⟨?_, hhi, by linarith⟩
  linarith

/-- A setting that fits at `now'` fits at every earlier reading. -/
theorem fits_mono {now' : Time} (hv : s.Valid) (hfit : s.Fits now')
    (hle : now.ns.toInt ≤ now'.ns.toInt) : s.Fits now := by
  unfold Setting.Fits at hfit ⊢
  rcases lt_or_eq_of_le hv.period_nonneg with hp | hp
  · have hmono := mul_le_mul_of_nonneg_right
      (dueCount_mono s.next.ns.toInt hp hle) hp.le
    linarith
  · rw [← hp, mul_zero, add_zero] at hfit ⊢
    exact hfit

/-- A valid setting that fits at `now'` is still valid, and still fits, after
a reading at an earlier `now`. -/
theorem at_valid_fits {now' : Time} (hv : s.Valid) (hfit : s.Fits now')
    (hle : now.ns.toInt ≤ now'.ns.toInt) : (s.at now).1.Valid ∧ (s.at now).1.Fits now' := by
  cases hen : s.enabled
  · rw [at_of_disabled hen]
    exact ⟨hv, hfit⟩
  rcases lt_or_ge now.ns.toInt s.next.ns.toInt with hlt | hdue
  · rw [at_of_lt hlt]
    exact ⟨hv, hfit⟩
  rcases lt_or_eq_of_le hv.period_nonneg with hp | hp
  · -- a periodic timer: the reading at `now` is exact and counts part of what fits
    have hsum := dueCount_add s.next.ns.toInt hp hle
    have hk1 := dueCount_nonneg s.next.ns.toInt now.ns.toInt hp
    obtain ⟨-, -, hnext⟩ := at_of_fits hen hv hp (fits_mono hv hfit hle)
    have hkp := mul_nonneg hk1 hp.le
    refine ⟨⟨by rw [hnext]; linarith [hv.next_nonneg], by rw [at_period]; exact hv.2⟩, ?_⟩
    -- from the new `Next`, the reading at `now'` counts the rest of the expirations
    unfold Setting.Fits at hfit ⊢
    rw [hnext, at_period, show dueCount (s.next.ns.toInt + dueCount s.next.ns.toInt
      s.period.toInt now.ns.toInt * s.period.toInt) s.period.toInt now'.ns.toInt =
        dueCount s.next.ns.toInt s.period.toInt now'.ns.toInt -
          dueCount s.next.ns.toInt s.period.toInt now.ns.toInt by omega, sub_mul]
    linarith
  · -- a one-shot timer keeps `Next` and `Period`
    have hp0 : s.period = 0 := Int64.toInt_inj.mp (by rw [← hp, Int64.toInt_zero])
    rw [at_oneShot hen hdue hp0]
    exact ⟨⟨hv.1, hv.2⟩, hfit⟩

/-- Two readings, at `now` and then at a later `now'`, leave the setting and
count the expirations that one reading at `now'` does, while the first
expiration after `now'` fits in `int64`. -/
theorem at_at {now' : Time} (hv : s.Valid) (hfit : s.Fits now')
    (hle : now.ns.toInt ≤ now'.ns.toInt) :
    ((s.at now).1.at now').1 = (s.at now').1 ∧
      (s.at now).2.toNat + ((s.at now).1.at now').2.toNat = (s.at now').2.toNat := by
  cases hen : s.enabled
  · simp [at_of_disabled hen]
  rcases lt_or_ge now.ns.toInt s.next.ns.toInt with hlt | hdue
  · simp [at_of_lt hlt]
  rcases lt_or_eq_of_le hv.period_nonneg with hp | hp
  · -- each reading is exact; the counts add up by `dueCount_add`
    obtain ⟨hv1, hfit1⟩ := at_valid_fits hv hfit hle
    obtain ⟨hc1, hen1, hn1⟩ := at_of_fits hen hv hp (fits_mono hv hfit hle)
    have hp1 : 0 < (s.at now).1.period.toInt := by
      rw [at_period]
      exact hp
    obtain ⟨hc2, hen2, hn2⟩ := at_of_fits hen1 hv1 hp1 hfit1
    obtain ⟨hc, hen', hn⟩ := at_of_fits hen hv hp hfit
    have hsum := dueCount_add s.next.ns.toInt hp hle
    rw [hn1, at_period] at hc2 hn2
    constructor
    · ext : 1
      · rw [hen2, hen']
      · apply Time.ext
        apply Int64.toInt_inj.mp
        rw [hn2, hn, ← hsum, add_mul]
        omega
      · rw [at_period, at_period, at_period]
    · omega
  · -- a one-shot timer fires once, at the first reading
    have hp0 : s.period = 0 := Int64.toInt_inj.mp (by rw [← hp, Int64.toInt_zero])
    rw [at_oneShot hen hdue hp0, at_oneShot hen (le_trans hdue hle) hp0, at_of_disabled rfl]
    simp

end At

/-- The part of a `Timer` that `Tick` reads and writes. -/
structure Timer where
  setting : Setting
  paused : Bool
  deriving DecidableEq, Repr

/-- `Timer.Tick` at the clock reading `now`: the timer after it, and the count
handed to `Notify` (zero for none). -/
def Timer.tick (t : Timer) (now : Time) : Timer × UInt64 :=
  if t.paused then (t, 0)
  else
    let (s, exp) := t.setting.at now
    ({ t with setting := s }, exp)

/-- Ticks at the clock readings `nows`, in order, with the total count notified. -/
def Timer.tickAll (t : Timer) : List Time → Timer × ℕ
  | [] => (t, 0)
  | now :: nows =>
    let r := t.tick now
    let rs := r.1.tickAll nows
    (rs.1, r.2.toNat + rs.2)

/-- Ticks of a running timer at clock readings that never go backwards leave it
as one tick at the last reading does, and notify as many expirations in all,
while the first expiration after the last reading fits in `int64`. -/
theorem tickAll_eq_at (nows : List Time) (last : Time) (t : Timer) (hpaused : t.paused = false)
    (hv : t.setting.Valid) (hfit : t.setting.Fits last)
    (hsorted : (nows ++ [last]).Pairwise fun a b => a.ns.toInt ≤ b.ns.toInt) :
    t.tickAll (nows ++ [last]) =
      ({ t with setting := (t.setting.at last).1 }, (t.setting.at last).2.toNat) := by
  have htick : ∀ (u : Timer) (now : Time), u.paused = false →
      u.tick now = ({ u with setting := (u.setting.at now).1 }, (u.setting.at now).2) := by
    intro u now hu
    simp [Timer.tick, hu]
  -- induction on the readings before the last; each tick keeps `Valid` and `Fits`
  induction nows generalizing t with
  | nil => simp [Timer.tickAll, htick t last hpaused]
  | cons now nows ih =>
    rw [List.cons_append, List.pairwise_cons] at hsorted
    have hle : now.ns.toInt ≤ last.ns.toInt := hsorted.1 last (by simp)
    obtain ⟨hv1, hfit1⟩ := at_valid_fits hv hfit hle
    obtain ⟨hs, hc⟩ := at_at hv hfit hle
    simp only [List.cons_append, Timer.tickAll, htick t now hpaused]
    rw [ih { t with setting := (t.setting.at now).1 } hpaused hv1 hfit1 hsorted.2]
    simp only [hs, ← hc]

theorem tickAll_eq_at_threeTicks :
    (⟨⟨true, ⟨3⟩, 4⟩, false⟩ : Timer).tickAll [⟨5⟩, ⟨11⟩, ⟨20⟩] =
      (⟨(Setting.at ⟨true, ⟨3⟩, 4⟩ ⟨20⟩).1, false⟩, (Setting.at ⟨true, ⟨3⟩, 4⟩ ⟨20⟩).2.toNat) :=
  tickAll_eq_at [⟨5⟩, ⟨11⟩] ⟨20⟩ _ rfl ⟨by decide, by decide⟩ (by unfold Setting.Fits; decide)
    (by decide)

end ContainerFS.Ktime
