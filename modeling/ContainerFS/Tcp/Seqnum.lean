import Mathlib.Data.UInt

/-!
TCP sequence numbers (`tcpip/seqnum`): 32-bit values compared across the wrap,
`v` before `w` when `int32(v - w)` is negative. A `Size` is a 32-bit count and
`Add` is the wrapping sum, so both are `UInt32` here.
-/

namespace ContainerFS.Tcp.Seqnum

/-- `Value.LessThan`: `int32(v - w) < 0`. -/
def lessThan (v w : UInt32) : Bool := decide (2 ^ 31 ≤ (v - w).toNat)

def lessThanEq (v w : UInt32) : Bool := v == w || lessThan v w

/-- `Value.InRange`: `v - a < b - a`. -/
def inRange (v a b : UInt32) : Bool := decide (v - a < b - a)

def inWindow (v first size : UInt32) : Bool := inRange v first (first + size)

def overlap (a b x y : UInt32) : Bool := lessThan a (x + y) && lessThan x (a + b)

/-- `Value.Size`: from `v` up to `w`. -/
def size (v w : UInt32) : UInt32 := w - v

/-- No value is before itself. -/
@[simp]
theorem lessThan_self (v : UInt32) : lessThan v v = false := by
  simp [lessThan]

/-! ### Comparisons near a base

Seen from a base `r`, each value lies some distance `ahead r v` past it. For
values less than half the sequence space past `r`, `LessThan` and
`LessThanEq` are the order of these distances, and `InRange` is an interval
of them; this is how a receiver's sequence numbers, all within its window of
`rcvNxt`, behave as numbers. -/

/-- How far `v` lies past `r`, as a number: `Size(r, v)`. -/
def ahead (r v : UInt32) : ℕ := (size r v).toNat

@[simp]
theorem ahead_self (r : UInt32) : ahead r r = 0 := by
  simp [ahead, size]

theorem ahead_lt (r v : UInt32) : ahead r v < 2 ^ 32 := (size r v).toNat_lt

theorem size_sub_size (r a b : UInt32) : size r a - size r b = a - b := by
  simp only [size]
  exact sub_sub_sub_cancel_right a b r

theorem lessThan_iff_ahead {r a b : UInt32} (ha : ahead r a < 2 ^ 31) (hb : ahead r b < 2 ^ 31) :
    lessThan a b = true ↔ ahead r a < ahead r b := by
  have hsub := UInt32.toNat_sub (size r a) (size r b)
  rw [size_sub_size] at hsub
  simp only [ahead] at ha hb ⊢
  simp only [lessThan, decide_eq_true_eq, hsub]
  omega

theorem lessThanEq_iff_ahead {r a b : UInt32} (ha : ahead r a < 2 ^ 31)
    (hb : ahead r b < 2 ^ 31) : lessThanEq a b = true ↔ ahead r a ≤ ahead r b := by
  have heq : a = b ↔ ahead r a = ahead r b := by
    simp only [ahead, UInt32.toNat_inj]
    simp [size]
  simp only [lessThanEq, Bool.or_eq_true, beq_iff_eq, lessThan_iff_ahead ha hb, heq]
  omega

/-- `InRange` is an interval of distances, from any base. -/
theorem inRange_iff_ahead {r v a b : UInt32} (hab : ahead r a ≤ ahead r b) :
    inRange v a b = true ↔ ahead r a ≤ ahead r v ∧ ahead r v < ahead r b := by
  have h1 := UInt32.toNat_sub (size r v) (size r a)
  have h2 := UInt32.toNat_sub (size r b) (size r a)
  rw [size_sub_size] at h1 h2
  have hv := ahead_lt r v
  have hb := ahead_lt r b
  simp only [ahead] at hab hv hb ⊢
  simp only [inRange, decide_eq_true_eq, UInt32.lt_iff_toNat_lt, h1, h2]
  omega

/-- Moving the base forward by `ahead r r'` moves the values past it back by
as much. -/
theorem ahead_of_le {r r' v : UInt32} (h : ahead r r' ≤ ahead r v) :
    ahead r' v = ahead r v - ahead r r' := by
  have hsub : size r' v = size r v - size r r' := by
    simp only [size]
    exact (sub_sub_sub_cancel_right v r' r).symm
  simp only [ahead] at h ⊢
  rw [hsub, UInt32.toNat_sub_of_le _ _ (UInt32.le_iff_toNat_le.mpr h)]

end ContainerFS.Tcp.Seqnum
