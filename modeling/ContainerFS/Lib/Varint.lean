import Mathlib.Data.Nat.Bitwise
import Mathlib.Tactic.Ring

/-!
Variable-length integers as Go's `encoding/binary` writes and reads them:
seven bits per byte, the least significant group first, the high bit of every
byte but the last set. A signed value is first mapped to an unsigned one by
zig-zag encoding. `readVarint_putVarint` shows that reading the bytes of
`putVarint x`, followed by anything, gives `x` back for every 64-bit `x`.
-/

namespace ContainerFS.Varint

def maxVarintLen64 : ℕ := 10

/-- `PutUvarint`: the bytes it writes for `x`. -/
def putUvarint (x : ℕ) : List UInt8 :=
  if x < 0x80 then [x.toUInt8] else (x % 0x80 + 0x80).toUInt8 :: putUvarint (x / 0x80)
termination_by x
decreasing_by omega

/-- The zig-zag encoding of `PutVarint`: `uint64(x) << 1`, complemented for a
negative `x`. -/
def zigzag (x : ℤ) : ℕ := if 0 ≤ x then (2 * x).toNat else (-(2 * x) - 1).toNat

/-- `ReadVarint`'s inverse step: `int64(ux >> 1)`, complemented when bit 0
is set. -/
def unzigzag (ux : ℕ) : ℤ := if ux % 2 = 0 then (ux / 2 : ℕ) else -((ux / 2 : ℕ) : ℤ) - 1

def putVarint (x : ℤ) : List UInt8 := putUvarint (zigzag x)

inductive ReadError where
  /-- `io.EOF` from the byte reader. -/
  | eof
  /-- "binary: varint overflows a 64-bit integer" -/
  | overflow
  deriving DecidableEq, Repr

/-- The loop of `ReadUvarint` at its `i`-th byte, with the bits `x` read so
far and the shift `s` of the next group. -/
def readUvarintFrom : ℕ → ℕ → ℕ → List UInt8 → Except ReadError ℕ
  | _, _, _, [] => .error .eof
  | i, x, s, b :: rest =>
    if b < 0x80 then
      if 9 < i ∨ (i = 9 ∧ 1 < b) then .error .overflow else .ok (x ||| b.toNat <<< s)
    else readUvarintFrom (i + 1) (x ||| (b &&& 0x7f).toNat <<< s) (s + 7) rest

/-- `ReadUvarint` on the bytes a `bytes.Reader` holds. -/
def readUvarint (bs : List UInt8) : Except ReadError ℕ := readUvarintFrom 0 0 0 bs

def readVarint (bs : List UInt8) : Except ReadError ℤ := unzigzag <$> readUvarint bs

/-! ### Round trip -/

theorem putUvarint_of_lt {x : ℕ} (hx : x < 0x80) : putUvarint x = [x.toUInt8] := by
  rw [putUvarint, if_pos hx]

theorem putUvarint_of_le {x : ℕ} (hx : 0x80 ≤ x) :
    putUvarint x = (x % 0x80 + 0x80).toUInt8 :: putUvarint (x / 0x80) := by
  rw [putUvarint, if_neg (by omega)]

theorem putUvarint_length_le (n x : ℕ) (hx : x < 2 ^ (7 * (n + 1))) :
    (putUvarint x).length ≤ n + 1 := by
  induction n generalizing x with
  | zero =>
    rw [putUvarint_of_lt (by simpa using hx)]
    simp
  | succ n ih =>
    by_cases hlt : x < 0x80
    · rw [putUvarint_of_lt hlt]
      simp
    · have hdiv : x / 0x80 < 2 ^ (7 * (n + 1)) := by
        rw [Nat.div_lt_iff_lt_mul (by decide)]
        calc x < 2 ^ (7 * (n + 1 + 1)) := hx
          _ = 2 ^ (7 * (n + 1)) * 0x80 := by rw [Nat.mul_add, Nat.pow_add]
      rw [putUvarint_of_le (by omega), List.length_cons]
      have := ih (x / 0x80) hdiv
      omega

/-- The bits already read lie below the next group, so adding that group is
an addition. -/
theorem or_shiftLeft_eq_add {acc y s : ℕ} (hacc : acc < 2 ^ s) :
    acc ||| y <<< s = acc + y * 2 ^ s := by
  rw [Nat.or_comm, ← Nat.shiftLeft_add_eq_or_of_lt hacc, Nat.shiftLeft_eq, Nat.add_comm]

/-- Reading the bytes of `putUvarint y` at byte `i`: the groups of `y` land
above the `7 * i` bits read so far. -/
theorem readUvarintFrom_putUvarint (rest : List UInt8) :
    ∀ y i acc, i ≤ 9 → y < 2 ^ (64 - 7 * i) → acc < 2 ^ (7 * i) →
      readUvarintFrom i acc (7 * i) (putUvarint y ++ rest) = .ok (acc + y * 2 ^ (7 * i)) := by
  intro y
  induction y using Nat.strongRecOn with
  | ind y ih =>
    intro i acc hi hy hacc
    by_cases hlt : y < 0x80
    · have hbyte : (y.toUInt8).toNat = y := by simp; omega
      have hsmall : i = 9 → y ≤ 1 := by
        rintro rfl
        simp at hy
        omega
      rw [putUvarint_of_lt hlt, List.singleton_append, readUvarintFrom,
        if_pos (by simpa [UInt8.lt_iff_toNat_lt, hbyte] using hlt),
        if_neg (by simp only [UInt8.lt_iff_toNat_lt, hbyte, UInt8.reduceToNat]; omega), hbyte,
        or_shiftLeft_eq_add hacc]
    · have hbyte : ((y % 0x80 + 0x80).toUInt8).toNat = y % 0x80 + 0x80 := by
        simp; omega
      have hlow : ((y % 0x80 + 0x80).toUInt8 &&& 0x7f).toNat = y % 0x80 := by
        rw [UInt8.toNat_and, show (0x7f : UInt8).toNat = 2 ^ 7 - 1 from rfl,
          Nat.and_two_pow_sub_one_eq_mod]
        simp
      have hi' : i + 1 ≤ 9 := by
        by_contra hcon
        have : 2 ^ (64 - 7 * i) ≤ 2 ^ 7 := Nat.pow_le_pow_right (by decide) (by omega)
        omega
      have hacc' : acc + y % 0x80 * 2 ^ (7 * i) < 2 ^ (7 * (i + 1)) := by
        have : 2 ^ (7 * (i + 1)) = 2 ^ (7 * i) * 0x80 := by rw [Nat.mul_add, Nat.pow_add]
        have : y % 0x80 * 2 ^ (7 * i) ≤ 0x7f * 2 ^ (7 * i) :=
          Nat.mul_le_mul_right _ (by omega)
        omega
      have hy' : y / 0x80 < 2 ^ (64 - 7 * (i + 1)) := by
        rw [Nat.div_lt_iff_lt_mul (by decide)]
        calc y < 2 ^ (64 - 7 * i) := hy
          _ = 2 ^ (64 - 7 * (i + 1)) * 0x80 := by
            rw [show 64 - 7 * i = 64 - 7 * (i + 1) + 7 by omega, Nat.pow_add]
      rw [putUvarint_of_le (by omega), List.cons_append, readUvarintFrom,
        if_neg (by simp only [UInt8.lt_iff_toNat_lt, UInt8.toNat_ofNat]; simp; omega),
        hlow, or_shiftLeft_eq_add hacc, show 7 * i + 7 = 7 * (i + 1) by omega,
        ih (y / 0x80) (by omega) (i + 1) _ hi' hy' hacc']
      have hsplit : y = y % 0x80 + 0x80 * (y / 0x80) := (Nat.mod_add_div y 0x80).symm
      have hpow : 2 ^ (7 * (i + 1)) = 0x80 * 2 ^ (7 * i) := by
        rw [Nat.mul_add, Nat.pow_add, Nat.mul_comm]
      congr 1
      conv_rhs => rw [hsplit]
      rw [hpow]
      ring

theorem readUvarint_putUvarint {y : ℕ} (hy : y < 2 ^ 64) (rest : List UInt8) :
    readUvarint (putUvarint y ++ rest) = .ok y := by
  have h := readUvarintFrom_putUvarint rest y 0 0 (by decide) (by simpa using hy) (by simp)
  rw [readUvarint]
  simpa using h

theorem unzigzag_zigzag (x : ℤ) : unzigzag (zigzag x) = x := by
  unfold zigzag unzigzag
  split_ifs with hx heven heven <;> omega

theorem zigzag_lt {x : ℤ} (hlo : -2 ^ 63 ≤ x) (hhi : x < 2 ^ 63) : zigzag x < 2 ^ 64 := by
  unfold zigzag
  split_ifs <;> omega

/-- `ReadVarint` inverts `PutVarint` on every `int64`, whatever follows. -/
theorem readVarint_putVarint {x : ℤ} (hlo : -2 ^ 63 ≤ x) (hhi : x < 2 ^ 63)
    (rest : List UInt8) : readVarint (putVarint x ++ rest) = .ok x := by
  rw [readVarint, putVarint, readUvarint_putUvarint (zigzag_lt hlo hhi)]
  exact congrArg Except.ok (unzigzag_zigzag x)

theorem putVarint_length_le {x : ℤ} (hlo : -2 ^ 63 ≤ x) (hhi : x < 2 ^ 63) :
    (putVarint x).length ≤ maxVarintLen64 :=
  putUvarint_length_le 9 _ (lt_of_lt_of_le (zigzag_lt hlo hhi) (by decide))

end ContainerFS.Varint
