import Mathlib.Data.Nat.ModEq
import Mathlib.Tactic.Ring

/-!
Ones' complement sums in base `b` (RFC 1071 takes `b = 2^16`). A sum is
accumulated in a wider integer and folded back into one digit with end-around
carries: the digit below `b` plus what is carried out of it, until the value
fits (`foldCarries`). Each carry keeps the value modulo `b - 1` and keeps it
nonzero, so the folded value has a closed form, `reduce`: zero for zero, else
the representative of `x` modulo `b - 1` in `1 .. b - 1`. From it, folding a
partial sum before adding more changes nothing (`reduce_reduce_add`), and a
value below `b * b` is folded by two carries and a truncation
(`carry_add_div_mod`).
-/

namespace ContainerFS.OnesComplement

variable {b x y : ℕ}

/-- One end-around carry: the low digit plus the digits above it. -/
def carry (b x : ℕ) : ℕ := x % b + x / b

/-- A carry takes `(b - 1) * (x / b)` off `x`. -/
theorem carry_add_mul (b x : ℕ) : x = carry b x + (b - 1) * (x / b) := by
  rcases Nat.eq_zero_or_pos b with rfl | hb
  · simp [carry]
  · obtain ⟨c, rfl⟩ : ∃ c, b = c + 1 := ⟨b - 1, by omega⟩
    have hsplit := Nat.mod_add_div x (c + 1)
    simp only [carry, Nat.add_sub_cancel]
    calc x = x % (c + 1) + (c + 1) * (x / (c + 1)) := hsplit.symm
      _ = x % (c + 1) + x / (c + 1) + c * (x / (c + 1)) := by ring

theorem carry_modEq (b x : ℕ) : carry b x ≡ x [MOD b - 1] := by
  have hx := carry_add_mul b x
  unfold Nat.ModEq
  conv_rhs => rw [hx]
  rw [Nat.add_mul_mod_self_left]

theorem carry_eq_zero_iff : carry b x = 0 ↔ x = 0 := by
  constructor
  · intro h
    have hsplit := Nat.mod_add_div x b
    simp only [carry, Nat.add_eq_zero_iff] at h
    rw [← hsplit, h.1, h.2, Nat.mul_zero]
  · rintro rfl
    simp [carry]

theorem carry_lt (hb : 2 ≤ b) (hx : b ≤ x) : carry b x < x := by
  have hsplit := carry_add_mul b x
  have hcarried : 0 < (b - 1) * (x / b) :=
    Nat.mul_pos (by omega) (Nat.div_pos hx (by omega))
  omega

/-- RFC 1071's fold of a wide sum: add the carries back in until the value
fits one digit. -/
def foldCarries (b x : ℕ) : ℕ :=
  if _h : 2 ≤ b ∧ b ≤ x then foldCarries b (carry b x) else x
termination_by x
decreasing_by exact carry_lt _h.1 _h.2

/-- The value of `x` in ones' complement: `0` for `0`, otherwise the
representative of `x` modulo `b - 1` in `1 .. b - 1`. -/
def reduce (b x : ℕ) : ℕ := if x = 0 then 0 else (x - 1) % (b - 1) + 1

@[simp]
theorem reduce_zero : reduce b 0 = 0 := rfl

theorem reduce_eq_zero_iff : reduce b x = 0 ↔ x = 0 := by
  unfold reduce
  split_ifs with hx <;> simp [hx]

theorem reduce_modEq (b x : ℕ) : reduce b x ≡ x [MOD b - 1] := by
  unfold reduce
  split_ifs with hx
  · rw [hx]
  · have hx' : x - 1 + 1 = x := by omega
    calc (x - 1) % (b - 1) + 1 ≡ x - 1 + 1 [MOD b - 1] := (Nat.mod_modEq _ _).add_right 1
      _ = x := hx'

/-- `reduce` sees only the residue and whether the value is zero. -/
theorem reduce_congr (h : x ≡ y [MOD b - 1]) (hzero : x = 0 ↔ y = 0) :
    reduce b x = reduce b y := by
  unfold reduce
  by_cases hx : x = 0
  · rw [if_pos hx, if_pos (hzero.mp hx)]
  · have hy : y ≠ 0 := fun hy => hx (hzero.mpr hy)
    rw [if_neg hx, if_neg hy]
    have hpred : x - 1 ≡ y - 1 [MOD b - 1] := by
      apply Nat.ModEq.add_right_cancel' 1
      rwa [Nat.sub_add_cancel (by omega), Nat.sub_add_cancel (by omega)]
    rw [hpred]

theorem reduce_carry (b x : ℕ) : reduce b (carry b x) = reduce b x :=
  reduce_congr (carry_modEq b x) carry_eq_zero_iff

theorem reduce_of_lt (hx : x < b) : reduce b x = x := by
  unfold reduce
  split_ifs with hx0
  · exact hx0.symm
  · rw [Nat.mod_eq_of_lt (by omega)]
    omega

/-- The fold ends at the closed form. -/
theorem foldCarries_eq_reduce (hb : 2 ≤ b) (x : ℕ) : foldCarries b x = reduce b x := by
  fun_induction foldCarries b x with
  | case1 x _ ih => rw [ih, reduce_carry]
  | case2 x hfits =>
    -- the value already fits one digit
    have hx : x < b := by omega
    exact (reduce_of_lt hx).symm

/-- A partial sum may be folded before the rest is added. -/
theorem reduce_reduce_add (b x y : ℕ) : reduce b (reduce b x + y) = reduce b (x + y) := by
  apply reduce_congr ((reduce_modEq b x).add_right y)
  simp only [Nat.add_eq_zero_iff, reduce_eq_zero_iff]

/-- Below `b * b` one carry leaves at most `2 * b - 2`, and a second carry
added and truncated to a digit finishes the fold. -/
theorem carry_add_div_mod (hb : 2 ≤ b) (hx : x < b * b) :
    (carry b x + carry b x / b) % b = reduce b x := by
  have hlow : x % b < b := Nat.mod_lt x (by omega)
  have hhigh : x / b < b := Nat.div_lt_of_lt_mul hx
  rw [← reduce_carry b x]
  set s := carry b x with hs
  have hsle : s ≤ 2 * b - 2 := by
    simp only [hs, carry]
    omega
  by_cases hsb : s < b
  · rw [Nat.div_eq_of_lt hsb, Nat.add_zero, Nat.mod_eq_of_lt hsb, reduce_of_lt hsb]
  · -- one more carry: `s / b = 1`
    have hdiv : s / b = 1 := Nat.div_eq_of_lt_le (by omega) (by omega)
    have hwrap : (s + 1) % b = s + 1 - b := by
      rw [Nat.mod_eq_sub_mod (by omega), Nat.mod_eq_of_lt (by omega)]
    have hred : (s - 1) % (b - 1) = s - b := by
      rw [Nat.mod_eq_sub_mod (by omega), Nat.mod_eq_of_lt (by omega)]
      omega
    rw [hdiv, hwrap]
    unfold reduce
    rw [if_neg (by omega), hred]
    omega

end ContainerFS.OnesComplement
