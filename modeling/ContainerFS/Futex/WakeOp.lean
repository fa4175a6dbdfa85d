import ContainerFS.Futex.Manager

/-!
`atomicOp` of `FUTEX_WAKE_OP` against the operation it emulates, Linux's
`futex_atomic_op_inuser` with the `arch_futex_atomic_op_inuser` it calls.
Linux reads `oparg` and `cmparg` as 12-bit two's-complement fields
(`sign_extend32(…, 11)`), reduces an out-of-range shift amount mod 32, and
compares the old value with `cmparg` as signed `int`s. `atomicOp` reads both
fields unsigned, shifts by the raw amount (a `uint32` shift of 32 or more gives
zero), and compares unsigned.

The operations are compared on the decoded fields: they agree on fields below
`0x800`, shift amounts below 32, and comparisons that are equalities or see an
old value below `2^31`; an old value with its top bit set turns `CMP_LT` around
and a shift amount of 32 or more gives `0` where Linux gives a power of two.
-/

namespace ContainerFS.Futex

/-- `sign_extend32(value, 11)`: the 12-bit field as a 32-bit `int`. -/
def signExtend12 (x : UInt32) : BitVec 32 := (x.toBitVec.setWidth 12).signExtend 32

/-- The shift operand of Linux: an amount outside `[0, 31]` is reduced mod 32. -/
def linuxShiftArg (oparg : BitVec 32) : BitVec 32 :=
  let oparg := if oparg.slt 0 || (31 : BitVec 32).slt oparg then oparg &&& 31 else oparg
  (1 : BitVec 32) <<< oparg

/-- `arch_futex_atomic_op_inuser`'s new value for the operation `op`, or `ENOSYS`
before any store. -/
def linuxApplyOp (op : UInt32) (oparg oldval : BitVec 32) : Except Errno (BitVec 32) :=
  if op = 0 then .ok oparg
  else if op = 1 then .ok (oldval + oparg)
  else if op = 2 then .ok (oldval ||| oparg)
  else if op = 3 then .ok (oldval &&& ~~~oparg)
  else if op = 4 then .ok (oldval ^^^ oparg)
  else .error .enosys

/-- The comparison of `futex_atomic_op_inuser`, on signed `int`s. -/
def linuxCompareOp (cmp : UInt32) (oldval cmparg : BitVec 32) : Except Errno Bool :=
  if cmp = 0 then .ok (oldval == cmparg)
  else if cmp = 1 then .ok (oldval != cmparg)
  else if cmp = 2 then .ok (oldval.slt cmparg)
  else if cmp = 3 then .ok (oldval.sle cmparg)
  else if cmp = 4 then .ok (cmparg.slt oldval)
  else if cmp = 5 then .ok (cmparg.sle oldval)
  else .error .enosys

/-- `futex_atomic_op_inuser` on the word at `addr`. -/
def linuxAtomicOp (s : State) (addr : UInt64) (encoded : UInt32) : State × Except Errno Bool :=
  let op := (encoded &&& 0x70000000) >>> 28
  let cmp := (encoded &&& 0x0f000000) >>> 24
  let oparg := signExtend12 ((encoded &&& 0x00fff000) >>> 12)
  let cmparg := signExtend12 (encoded &&& 0x00000fff)
  let oparg := if encoded &&& ((8 : UInt32) <<< 28) ≠ 0 then linuxShiftArg oparg else oparg
  match s.loadUint32 addr with
  | .error e => (s, .error e)
  | .ok oldval =>
    match linuxApplyOp op oparg oldval.toBitVec with
    | .error e => (s, .error e)
    | .ok newval => (s.store addr (UInt32.ofBitVec newval), linuxCompareOp cmp oldval.toBitVec cmparg)

section Fields

/-- A field below `0x800` has its sign bit clear and reads the same either way. -/
theorem signExtend12_of_lt {x : UInt32} (hx : x < 0x800) : signExtend12 x = x.toBitVec := by
  have hlt : x.toNat < 2048 := by
    rw [UInt32.lt_iff_toNat_lt] at hx
    simpa using hx
  have hmsb : (x.toBitVec.setWidth 12).msb = false := by
    rw [BitVec.msb_eq_decide, BitVec.toNat_setWidth, UInt32.toNat_toBitVec,
      Nat.mod_eq_of_lt (by omega)]
    simp only [show 2 ^ (12 - 1) = 2048 by decide, decide_eq_false_iff_not]
    omega
  rw [signExtend12, BitVec.signExtend_eq_setWidth_of_msb_false hmsb]
  apply BitVec.eq_of_toNat_eq
  rw [BitVec.toNat_setWidth, BitVec.toNat_setWidth, UInt32.toNat_toBitVec]
  omega

theorem msb_toBitVec_of_lt {x : UInt32} (hx : x < 0x80000000) : x.toBitVec.msb = false := by
  rw [BitVec.msb_eq_decide, UInt32.toNat_toBitVec]
  rw [UInt32.lt_iff_toNat_lt] at hx
  simp only [decide_eq_false_iff_not]
  simpa using hx

theorem msb_toBitVec_of_le {x : UInt32} (hx : 0x80000000 ≤ x) : x.toBitVec.msb = true := by
  rw [BitVec.msb_eq_decide, UInt32.toNat_toBitVec]
  rw [UInt32.le_iff_toNat_le] at hx
  simp only [decide_eq_true_eq]
  simpa using hx

end Fields

section Agree

/-- The comparisons agree on a `cmparg` below `0x800` when the comparison is an
equality or the old value is below `2^31`: both operands then have the same
sign bit, and signed and unsigned order coincide. -/
theorem compareOp_eq_linuxCompareOp (cmp oldVal cmpArg : UInt32) (hk : cmpArg < 0x800)
    (hv : cmp = 0 ∨ cmp = 1 ∨ oldVal < 0x80000000) :
    compareOp cmp oldVal cmpArg = linuxCompareOp cmp oldVal.toBitVec (signExtend12 cmpArg) := by
  rw [signExtend12_of_lt hk]
  unfold compareOp linuxCompareOp
  have hbeq : (oldVal == cmpArg) = (oldVal.toBitVec == cmpArg.toBitVec) := by
    rw [Bool.eq_iff_iff, beq_iff_eq, beq_iff_eq, UInt32.toBitVec_inj]
  by_cases h0 : cmp = 0
  · simp only [h0, if_true, hbeq]
  by_cases h1 : cmp = 1
  · simp only [h1, if_true, bne, hbeq]
  -- an order comparison: both sign bits are clear
  have hvlt : oldVal < 0x80000000 := by
    rcases hv with hv | hv | hv
    · exact absurd hv h0
    · exact absurd hv h1
    · exact hv
  have hklt : cmpArg < 0x80000000 := by
    rw [UInt32.lt_iff_toNat_lt] at hk ⊢
    simp only [UInt32.reduceToNat] at hk ⊢
    omega
  have hmsb : oldVal.toBitVec.msb = cmpArg.toBitVec.msb := by
    rw [msb_toBitVec_of_lt hvlt, msb_toBitVec_of_lt hklt]
  simp only [h0, h1, if_false, BitVec.sle_eq_not_slt, BitVec.slt_eq_ult_of_msb_eq hmsb,
    BitVec.slt_eq_ult_of_msb_eq hmsb.symm, BitVec.ult, UInt32.lt_iff_toNat_lt,
    UInt32.le_iff_toNat_le, GT.gt, GE.ge, UInt32.toNat_toBitVec]
  split_ifs <;> simp [← decide_not]

/-- Past `SET`, the operations agree on an `oparg` that both read alike. -/
theorem applyOp_eq_linuxApplyOp (op opArg oldVal : UInt32) :
    (applyOp op opArg oldVal).map UInt32.toBitVec =
      linuxApplyOp op opArg.toBitVec oldVal.toBitVec ∨ op = 0 := by
  by_cases h0 : op = 0
  · exact .inr h0
  left
  unfold applyOp linuxApplyOp
  split_ifs <;> simp [Except.map]

theorem toInt_thirtyOne : (31 : BitVec 32).toInt = 31 := by decide

theorem toInt_zero32 : (0 : BitVec 32).toInt = 0 := by decide

/-- A shift amount below 32 is in range for both. -/
theorem shiftOne_eq_linuxShiftArg {x : UInt32} (hx : x < 32) :
    (shiftOne x).toBitVec = linuxShiftArg (signExtend12 x) := by
  have hxn : x.toNat < 32 := by
    rw [UInt32.lt_iff_toNat_lt] at hx
    simpa using hx
  have hsmall : x < 0x800 := by
    rw [UInt32.lt_iff_toNat_lt]
    simp only [UInt32.reduceToNat]
    omega
  have hsign : x < 0x80000000 := by
    rw [UInt32.lt_iff_toNat_lt]
    simp only [UInt32.reduceToNat]
    omega
  have hint : x.toBitVec.toInt = x.toNat := by
    rw [BitVec.toInt_eq_toNat_of_msb (msb_toBitVec_of_lt hsign), UInt32.toNat_toBitVec]
  have hrange : (x.toBitVec.slt 0 || (31 : BitVec 32).slt x.toBitVec) = false := by
    simp only [BitVec.slt, Bool.or_eq_false_iff, decide_eq_false_iff_not, not_lt, hint,
      toInt_thirtyOne, toInt_zero32]
    omega
  rw [signExtend12_of_lt hsmall]
  simp only [shiftOne, hx, if_true, linuxShiftArg, hrange, Bool.false_eq_true, if_false,
    UInt32.toBitVec_shiftLeft]
  congr 1
  apply BitVec.eq_of_toNat_eq
  simp only [BitVec.toNat_umod, UInt32.toNat_toBitVec]
  simp
  omega

/-- Linux's shift operand is never zero: the amount it shifts `1` by ends below 32
on both branches. -/
theorem linuxShiftArg_ne_zero (oparg : BitVec 32) : linuxShiftArg oparg ≠ 0 := by
  unfold linuxShiftArg
  generalize hamt : (if (oparg.slt 0 || (31 : BitVec 32).slt oparg) = true then oparg &&& 31
    else oparg) = amt
  have hlt : amt.toNat < 32 := by
    rw [← hamt]
    split_ifs with hc
    · rw [BitVec.toNat_and]
      exact lt_of_le_of_lt Nat.and_le_right (by simp)
    · simp only [Bool.or_eq_true, BitVec.slt, decide_eq_true_eq, not_or, not_lt,
        toInt_thirtyOne, toInt_zero32] at hc
      rw [BitVec.toInt_eq_toNat_cond] at hc
      split_ifs at hc <;> omega
  intro h0
  have hnat := congrArg BitVec.toNat h0
  rw [BitVec.shiftLeft_eq', BitVec.toNat_shiftLeft] at hnat
  have hpow : 2 ^ amt.toNat < 2 ^ 32 := Nat.pow_lt_pow_right (by decide) hlt
  simp only [show (1 : BitVec 32).toNat = 1 from rfl, show (0 : BitVec 32).toNat = 0 from rfl,
    Nat.one_shiftLeft, Nat.mod_eq_of_lt hpow] at hnat
  exact absurd hnat (Nat.pos_iff_ne_zero.mp (Nat.pow_pos (by decide)))

/-- A shift amount of 32 or more gives `0` to `atomicOp` and a power of two to
Linux. -/
theorem shiftOne_ne_linuxShiftArg {x : UInt32} (hx : 32 ≤ x) :
    shiftOne x = 0 ∧ linuxShiftArg (signExtend12 x) ≠ 0 := by
  have hge : ¬ x < 32 := by
    rw [UInt32.lt_iff_toNat_lt]
    rw [UInt32.le_iff_toNat_le] at hx
    simp only [UInt32.reduceToNat] at hx ⊢
    omega
  exact ⟨by simp [shiftOne, hge], linuxShiftArg_ne_zero _⟩

/-- An old value with its top bit set is negative to Linux and large to
`atomicOp`: against a `cmparg` below `0x800`, `CMP_LT` holds for Linux and
fails for `atomicOp`. -/
theorem compareOp_lt_ne_linuxCompareOp {oldVal cmpArg : UInt32} (hv : 0x80000000 ≤ oldVal)
    (hk : cmpArg < 0x800) :
    compareOp 2 oldVal cmpArg = .ok false ∧
      linuxCompareOp 2 oldVal.toBitVec (signExtend12 cmpArg) = .ok true := by
  have hkn : cmpArg.toNat < 2048 := by
    rw [UInt32.lt_iff_toNat_lt] at hk
    simpa using hk
  have hvn : 2147483648 ≤ oldVal.toNat := by
    rw [UInt32.le_iff_toNat_le] at hv
    simpa using hv
  have hmsb : oldVal.toBitVec.msb ≠ cmpArg.toBitVec.msb := by
    rw [msb_toBitVec_of_le hv, msb_toBitVec_of_lt (by rw [UInt32.lt_iff_toNat_lt]; simp; omega)]
    decide
  constructor
  · simp only [compareOp, show (2 : UInt32) ≠ 0 by decide, show (2 : UInt32) ≠ 1 by decide,
      if_false, if_true, UInt32.lt_iff_toNat_lt, Except.ok.injEq, decide_eq_false_iff_not]
    omega
  · rw [signExtend12_of_lt hk]
    simp only [linuxCompareOp, show (2 : UInt32) ≠ 0 by decide, show (2 : UInt32) ≠ 1 by decide,
      if_false, if_true, BitVec.slt_eq_not_ult_of_msb_neq hmsb, BitVec.ult,
      UInt32.toNat_toBitVec, Except.ok.injEq]
    simp only [Bool.not_eq_true', decide_eq_false_iff_not, not_lt]
    omega

end Agree

/-- A word at address 0 that holds `0xffffffff`, `-1` as an `int`. -/
def minusOneWord : State :=
  ⟨fun _ => [], fun _ => none, [], fun a => if a = 0 then some 0xffffffff else none⟩

/-- `FUTEX_OP_ADD` with `oparg = 0xfff` and `FUTEX_OP_CMP_LT` with `cmparg = 0`
on a word holding `-1`: Linux adds `-1`, stores `-2` and finds `-1 < 0`, where
`atomicOp` adds `4095`, stores `4094` and finds `0xffffffff < 0` false. -/
theorem atomicOp_ne_linuxAtomicOp :
    (atomicOp minusOneWord 0 0x12fff000).2 = .ok false ∧
      (atomicOp minusOneWord 0 0x12fff000).1.loadUint32 0 = .ok 0xffe ∧
      (linuxAtomicOp minusOneWord 0 0x12fff000).2 = .ok true ∧
      (linuxAtomicOp minusOneWord 0 0x12fff000).1.loadUint32 0 = .ok 0xfffffffe := by
  decide

end ContainerFS.Futex
