import Mathlib

/-!
Two's-complement `int64` arithmetic read on `ℤ`. Core states a wrapped sum
through `Int.bmod`; here the wrap is the explicit shift by `2^64` of a value
that left `[-2^63, 2^63)` (`bmod_two_pow_64`), so a proof can split on the
ranges and hand each case to `omega`. The conversions between `int64` and
`uint64` are stated the same way.
-/

namespace ContainerFS.MachineInt

/-- `bmod 2^64` of a value at most one turn out of `[-2^63, 2^63)`. -/
theorem bmod_two_pow_64 {z : ℤ} (hlo : -2 ^ 64 ≤ z) (hhi : z < 2 ^ 64) :
    z.bmod (2 ^ 64) = if z < -2 ^ 63 then z + 2 ^ 64
      else if 2 ^ 63 ≤ z then z - 2 ^ 64 else z := by
  rw [Int.bmod_def]
  split_ifs <;> omega

/-- A wrapped `int64` sum is the exact sum shifted by `2^64` where it leaves
the type's range. -/
theorem toInt_add_int64 (x y : Int64) :
    (x + y).toInt = if x.toInt + y.toInt < -2 ^ 63 then x.toInt + y.toInt + 2 ^ 64
      else if 2 ^ 63 ≤ x.toInt + y.toInt then x.toInt + y.toInt - 2 ^ 64
      else x.toInt + y.toInt := by
  have hx := x.le_toInt
  have hx' := x.toInt_lt
  have hy := y.le_toInt
  have hy' := y.toInt_lt
  rw [Int64.toInt_add, bmod_two_pow_64 (by omega) (by omega)]

/-- A wrapped `int64` difference, likewise. -/
theorem toInt_sub_int64 (x y : Int64) :
    (x - y).toInt = if x.toInt - y.toInt < -2 ^ 63 then x.toInt - y.toInt + 2 ^ 64
      else if 2 ^ 63 ≤ x.toInt - y.toInt then x.toInt - y.toInt - 2 ^ 64
      else x.toInt - y.toInt := by
  have hx := x.le_toInt
  have hx' := x.toInt_lt
  have hy := y.le_toInt
  have hy' := y.toInt_lt
  rw [Int64.toInt_sub, bmod_two_pow_64 (by omega) (by omega)]

/-- An `int64` sum that stays in range is exact. -/
theorem toInt_add_of_range {x y : Int64} (hlo : -2 ^ 63 ≤ x.toInt + y.toInt)
    (hhi : x.toInt + y.toInt < 2 ^ 63) : (x + y).toInt = x.toInt + y.toInt := by
  rw [toInt_add_int64]
  split_ifs <;> omega

/-- An `int64` difference that stays in range is exact. -/
theorem toInt_sub_of_range {x y : Int64} (hlo : -2 ^ 63 ≤ x.toInt - y.toInt)
    (hhi : x.toInt - y.toInt < 2 ^ 63) : (x - y).toInt = x.toInt - y.toInt := by
  rw [toInt_sub_int64]
  split_ifs <;> omega

/-- The `uint64` conversion of an `int64` adds `2^64` to a negative value. -/
theorem toNat_toUInt64 (x : Int64) :
    (x.toUInt64.toNat : ℤ) = if 0 ≤ x.toInt then x.toInt else x.toInt + 2 ^ 64 := by
  have hbits := BitVec.toInt_eq_toNat_bmod x.toBitVec
  have hlt := x.toBitVec.isLt
  rw [Int64.toNat_toBitVec] at hbits hlt
  change x.toInt = _ at hbits
  rw [Int.bmod_def] at hbits
  split_ifs at hbits ⊢ <;> omega

/-- A non-negative `int64` keeps its value as a `uint64`. -/
theorem toNat_toUInt64_of_nonneg {x : Int64} (h : 0 ≤ x) : x.toUInt64.toNat = x.toInt.toNat := by
  have hx := toNat_toUInt64 x
  rw [if_pos (by simpa [Int64.le_iff_toInt_le] using h)] at hx
  omega

/-- The `int64` conversion of a `uint64` subtracts `2^64` from a value of
`2^63` or more. -/
theorem toInt_toInt64 (u : UInt64) :
    u.toInt64.toInt = if u.toNat < 2 ^ 63 then (u.toNat : ℤ) else u.toNat - 2 ^ 64 := by
  have hbits := BitVec.toInt_eq_toNat_bmod u.toInt64.toBitVec
  have hlt := u.toNat_lt
  rw [UInt64.toBitVec_toInt64, UInt64.toNat_toBitVec] at hbits
  change u.toInt64.toInt = _ at hbits
  rw [hbits, Int.bmod_def]
  split_ifs <;> omega

/-- Subtracting `b` as an `int64` and then adding `d` as a `uint64` adds `d - b`: the
conversions between the two types only reinterpret the bits. -/
theorem toInt64_toUInt64_sub_add (a : Int64) (b d : UInt64) :
    ((a - b.toInt64).toUInt64 + d).toInt64 = a + (d - b).toInt64 := by
  apply Int64.toBitVec_inj.mp
  simp
  bv_omega

/-- An `int64` plus a `uint64` that stays below `2^63` does not wrap. -/
theorem toInt_toInt64_toUInt64_add {a : Int64} {v : UInt64} (h : a.toInt + v.toNat < 2 ^ 63) :
    (a.toUInt64 + v).toInt64.toInt = a.toInt + v.toNat := by
  have hv := toInt_toInt64 v
  have hs := toInt_add_int64 a v.toInt64
  have hcast : (a.toUInt64 + v).toInt64 = a + v.toInt64 := by
    apply Int64.toBitVec_inj.mp
    simp
  have := a.le_toInt
  rw [hcast]
  split_ifs at hv hs <;> omega

/-- The difference `a - b` of two values `0 ≤ b ≤ a` does not wrap. -/
theorem toInt_sub_of_nonneg {a b : Int64} (hb : 0 ≤ b.toInt) (hab : b.toInt ≤ a.toInt) :
    (a - b).toInt = a.toInt - b.toInt := by
  have := a.toInt_lt
  exact toInt_sub_of_range (by omega) (by omega)

/-- A difference `a - b ≥ 0` read as a `uint64` is exact, even where the `int64` wraps. -/
theorem toNat_toUInt64_sub_of_le {a b : Int64} (h : b.toInt ≤ a.toInt) :
    ((a - b).toUInt64.toNat : ℤ) = a.toInt - b.toInt := by
  have hu := toNat_toUInt64 (a - b)
  have hs := toInt_sub_int64 a b
  have := a.toInt_lt
  have := b.le_toInt
  split_ifs at hu hs <;> omega

/-- A sum of a `uint64` read as an `int64` and a value `0 ≤ base ≤ now` that lies above `now`
has not wrapped, and the `uint64` was below `2^63`. -/
theorem toInt_toInt64_add_of_lt {c : UInt64} {base now : Int64} (hbase : 0 ≤ base.toInt)
    (hle : base.toInt ≤ now.toInt) (hlt : now.toInt < (c.toInt64 + base).toInt) :
    c.toNat < 2 ^ 63 ∧ (c.toInt64 + base).toInt = c.toNat + base.toInt := by
  have hc := toInt_toInt64 c
  have hs := toInt_add_int64 c.toInt64 base
  have := now.toInt_lt
  have := base.toInt_lt
  have := c.toNat_lt
  split_ifs at hc hs <;> omega

/-- `x - 1` on `int32` is exact except at the minimum, where it wraps to the maximum. -/
theorem toInt_sub_one_int32 (x : Int32) :
    (x - 1).toInt = x.toInt - 1 ∨ x.toInt = -2 ^ 31 ∧ (x - 1).toInt = 2 ^ 31 - 1 := by
  have := x.le_toInt
  have := x.toInt_lt
  have hone : (1 : Int32).toInt = 1 := rfl
  rw [Int32.toInt_sub, hone, Int.bmod_def]
  split_ifs <;> omega

end ContainerFS.MachineInt
