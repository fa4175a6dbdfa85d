import ContainerFS.Bpf.Safety

/-!
The classic BPF machine of Linux, as a reference for `Exec`. An opcode is
looked up in the table of classic opcodes and decoded into an instruction
kind; each kind has its meaning over A, X and the scratch words M, with ALU
operations in arithmetic modulo 2^32, loads through the `Input` and jumps
relative to the next instruction. `TAX` copies A into X and `TXA` copies X
into A, as in Linux and in the package's own decoder (`decodeMisc`).

`Exec` computes this machine on every compiled program once the opcodes of
`TAX` and `TXA` are exchanged (`exec_eq_classicExec`); it differs from the
machine itself on a program that uses them (`taxProgram`).
-/

namespace ContainerFS.Bpf

/-- `BPF_W`, `BPF_H`, `BPF_B`: the width of a load. -/
inductive Size where
  | w
  | h
  | b
  deriving DecidableEq, Repr

/-- `BPF_K` or `BPF_X`: the second operand of an ALU operation or a jump. -/
inductive Src where
  | k
  | x
  deriving DecidableEq, Repr

inductive AluOp where
  | add
  | sub
  | mul
  | div
  | or
  | and
  | lsh
  | rsh
  | mod
  | xor
  deriving DecidableEq, Repr

inductive JmpOp where
  | jeq
  | jgt
  | jge
  | jset
  deriving DecidableEq, Repr

/-- The classic instructions. A scratch word is named by its index, checked
when the instruction is decoded. -/
inductive Insn where
  | ldImm
  | ldAbs (s : Size)
  | ldInd (s : Size)
  | ldMem (r : Fin scratchMemRegisters)
  | ldLen
  | ldxImm
  | ldxMem (r : Fin scratchMemRegisters)
  | ldxLen
  | ldxMsh
  | st (r : Fin scratchMemRegisters)
  | stx (r : Fin scratchMemRegisters)
  | alu (op : AluOp) (src : Src)
  | neg
  | ja
  | jmp (op : JmpOp) (src : Src)
  | retK
  | retA
  | tax
  | txa
  deriving DecidableEq, Repr

/-- An instruction on the scratch word `K`, which must exist. -/
def scratchIndex (i : BPFInstruction) (f : Fin scratchMemRegisters → Insn) : Option Insn :=
  if hk : i.k.toNat < scratchMemRegisters then some (f ⟨i.k.toNat, hk⟩) else none

/-- The table of classic opcodes, by their numeric values. -/
def decode (i : BPFInstruction) : Option Insn :=
  let n := i.opCode.toNat
  if n = 0x00 then some .ldImm
  else if n = 0x20 then some (.ldAbs .w)
  else if n = 0x28 then some (.ldAbs .h)
  else if n = 0x30 then some (.ldAbs .b)
  else if n = 0x40 then some (.ldInd .w)
  else if n = 0x48 then some (.ldInd .h)
  else if n = 0x50 then some (.ldInd .b)
  else if n = 0x60 then scratchIndex i .ldMem
  else if n = 0x80 then some .ldLen
  else if n = 0x01 then some .ldxImm
  else if n = 0x61 then scratchIndex i .ldxMem
  else if n = 0x81 then some .ldxLen
  else if n = 0xb1 then some .ldxMsh
  else if n = 0x02 then scratchIndex i .st
  else if n = 0x03 then scratchIndex i .stx
  else if n = 0x04 then some (.alu .add .k)
  else if n = 0x0c then some (.alu .add .x)
  else if n = 0x14 then some (.alu .sub .k)
  else if n = 0x1c then some (.alu .sub .x)
  else if n = 0x24 then some (.alu .mul .k)
  else if n = 0x2c then some (.alu .mul .x)
  else if n = 0x34 then some (.alu .div .k)
  else if n = 0x3c then some (.alu .div .x)
  else if n = 0x44 then some (.alu .or .k)
  else if n = 0x4c then some (.alu .or .x)
  else if n = 0x54 then some (.alu .and .k)
  else if n = 0x5c then some (.alu .and .x)
  else if n = 0x64 then some (.alu .lsh .k)
  else if n = 0x6c then some (.alu .lsh .x)
  else if n = 0x74 then some (.alu .rsh .k)
  else if n = 0x7c then some (.alu .rsh .x)
  else if n = 0x84 then some .neg
  else if n = 0x94 then some (.alu .mod .k)
  else if n = 0x9c then some (.alu .mod .x)
  else if n = 0xa4 then some (.alu .xor .k)
  else if n = 0xac then some (.alu .xor .x)
  else if n = 0x05 then some .ja
  else if n = 0x15 then some (.jmp .jeq .k)
  else if n = 0x1d then some (.jmp .jeq .x)
  else if n = 0x25 then some (.jmp .jgt .k)
  else if n = 0x2d then some (.jmp .jgt .x)
  else if n = 0x35 then some (.jmp .jge .k)
  else if n = 0x3d then some (.jmp .jge .x)
  else if n = 0x45 then some (.jmp .jset .k)
  else if n = 0x4d then some (.jmp .jset .x)
  else if n = 0x06 then some .retK
  else if n = 0x16 then some .retA
  else if n = 0x07 then some .tax
  else if n = 0x87 then some .txa
  else none

/-! ### The meaning of an instruction -/

/-- An ALU operation on 32-bit values read as natural numbers, modulo 2^32;
`none` for a division by zero, which aborts the program. -/
def AluOp.eval : AluOp → ℕ → ℕ → Option ℕ
  | .add, a, b => some ((a + b) % 2 ^ 32)
  | .sub, a, b => some ((2 ^ 32 + a - b) % 2 ^ 32)
  | .mul, a, b => some (a * b % 2 ^ 32)
  | .div, a, b => if b = 0 then none else some (a / b)
  | .or, a, b => some (a ||| b)
  | .and, a, b => some (a &&& b)
  | .lsh, a, b => some (a * 2 ^ b % 2 ^ 32)
  | .rsh, a, b => some (a / 2 ^ b)
  | .mod, a, b => if b = 0 then none else some (a % b)
  | .xor, a, b => some (a ^^^ b)

/-- The condition of a jump, on unsigned values. -/
def JmpOp.eval : JmpOp → ℕ → ℕ → Bool
  | .jeq, a, b => decide (a = b)
  | .jgt, a, b => decide (b < a)
  | .jge, a, b => decide (b ≤ a)
  | .jset, a, b => decide (a &&& b ≠ 0)

/-- A load of the given width, zero-extended to 32 bits. -/
def Size.load (input : Input) (off : UInt32) : Size → Option UInt32
  | .w => input.load32 off
  | .h => (input.load16 off).map UInt16.toUInt32
  | .b => (input.load8 off).map UInt8.toUInt32

def Src.value (m : Machine) (i : BPFInstruction) : Src → UInt32
  | .k => i.k
  | .x => m.x

def Machine.setA (m : Machine) (v : ℕ) : Machine := { m with a := UInt32.ofNat v }

def Machine.setX (m : Machine) (v : ℕ) : Machine := { m with x := UInt32.ofNat v }

/-- One instruction of the classic machine at `pc`, with the operands `K`, `jt`
and `jf` of the encoded instruction. -/
def Insn.run (input : Input) (pc : ℕ) (m : Machine) (i : BPFInstruction) : Insn → Step
  | .ldImm => .next 0 { m with a := i.k }
  | .ldAbs s => withLoad pc (s.load input i.k) fun v => { m with a := v }
  | .ldInd s => withLoad pc (s.load input (m.x + i.k)) fun v => { m with a := v }
  | .ldMem r => .next 0 { m with a := m.m.get r }
  | .ldLen => .next 0 { m with a := input.length }
  | .ldxImm => .next 0 { m with x := i.k }
  | .ldxMem r => .next 0 { m with x := m.m.get r }
  | .ldxLen => .next 0 { m with x := input.length }
  | .ldxMsh => withLoad pc (Size.b.load input i.k) fun v => m.setX (4 * (v.toNat % 16))
  | .st r => .next 0 { m with m := m.m.set r.val m.a r.isLt }
  | .stx r => .next 0 { m with m := m.m.set r.val m.x r.isLt }
  | .alu op src =>
    match op.eval m.a.toNat (src.value m i).toNat with
    | none => .done (.error ⟨.divisionByZero, pc⟩)
    | some v => .next 0 (m.setA v)
  | .neg => .next 0 (m.setA ((2 ^ 32 - m.a.toNat) % 2 ^ 32))
  | .ja => .next i.k.toNat m
  | .jmp op src =>
    .next (if op.eval m.a.toNat (src.value m i).toNat then i.jumpIfTrue.toNat
      else i.jumpIfFalse.toNat) m
  | .retK => .done (.ok i.k)
  | .retA => .done (.ok m.a)
  | .tax => .next 0 { m with x := m.a }
  | .txa => .next 0 { m with a := m.x }

def classicStep (input : Input) (pc : ℕ) (m : Machine) (i : BPFInstruction) : Step :=
  match decode i with
  | none => .done (.error ⟨.invalidOpcode, pc⟩)
  | some insn => insn.run input pc m i

/-- The classic machine from `pc`, for at most `fuel` instructions. -/
def classicFrom (input : Input) (insns : List BPFInstruction) : ℕ → ℕ → Machine → Outcome
  | 0, pc, _ => .error ⟨.invalidEndOfProgram, pc⟩
  | fuel + 1, pc, m =>
    match insns[pc]? with
    | none => .error ⟨.invalidEndOfProgram, pc⟩
    | some i =>
      match classicStep input pc m i with
      | .next skip m' => classicFrom input insns fuel (pc + skip + 1) m'
      | .done o => o

def classicExec (insns : List BPFInstruction) (input : Input) : Outcome :=
  classicFrom input insns insns.length 0 Machine.init

/-- The instruction with the opcodes of `TAX` and `TXA` exchanged. -/
def exchangeTaxTxa (i : BPFInstruction) : BPFInstruction :=
  if i.opCode = misc ||| tax then { i with opCode := misc ||| txa }
  else if i.opCode = misc ||| txa then { i with opCode := misc ||| tax }
  else i

/-! ### The reference operations on machine words

`AluOp.word` and `JmpOp.word` are the operations as `Exec` writes them; the
reference's arithmetic agrees with them on every pair of words. -/

def AluOp.word : AluOp → UInt32 → UInt32 → Option UInt32
  | .add, a, b => some (a + b)
  | .sub, a, b => some (a - b)
  | .mul, a, b => some (a * b)
  | .div, a, b => if b = 0 then none else some (a / b)
  | .or, a, b => some (a ||| b)
  | .and, a, b => some (a &&& b)
  | .lsh, a, b => some (shiftLeft a b)
  | .rsh, a, b => some (shiftRight a b)
  | .mod, a, b => if b = 0 then none else some (a % b)
  | .xor, a, b => some (a ^^^ b)

def JmpOp.word : JmpOp → UInt32 → UInt32 → Bool
  | .jeq, a, b => a == b
  | .jgt, a, b => decide (a > b)
  | .jge, a, b => decide (a ≥ b)
  | .jset, a, b => a &&& b != 0

theorem toNat_shiftLeft (a b : UInt32) : (shiftLeft a b).toNat = a.toNat * 2 ^ b.toNat % 2 ^ 32 := by
  unfold shiftLeft
  split_ifs with hb
  · have hb' : b.toNat < 32 := UInt32.lt_iff_toNat_lt.mp hb
    rw [UInt32.toNat_shiftLeft, Nat.shiftLeft_eq, Nat.mod_eq_of_lt hb']
  · have hb' : 32 ≤ b.toNat := by simpa [UInt32.lt_iff_toNat_lt] using hb
    have hdvd : 2 ^ 32 ∣ a.toNat * 2 ^ b.toNat :=
      Dvd.dvd.mul_left (Nat.pow_dvd_pow 2 hb') _
    rw [Nat.mod_eq_zero_of_dvd hdvd]
    rfl

theorem toNat_shiftRight (a b : UInt32) : (shiftRight a b).toNat = a.toNat / 2 ^ b.toNat := by
  unfold shiftRight
  split_ifs with hb
  · have hb' : b.toNat < 32 := UInt32.lt_iff_toNat_lt.mp hb
    rw [UInt32.toNat_shiftRight, Nat.shiftRight_eq_div_pow, Nat.mod_eq_of_lt hb']
  · have hb' : 32 ≤ b.toNat := by simpa [UInt32.lt_iff_toNat_lt] using hb
    have hlt : a.toNat < 2 ^ b.toNat :=
      lt_of_lt_of_le a.toNat_lt (Nat.pow_le_pow_right (by decide) hb')
    simp [Nat.div_eq_of_lt hlt]

theorem AluOp.eval_toNat (op : AluOp) (a b : UInt32) :
    op.eval a.toNat b.toNat = (op.word a b).map UInt32.toNat := by
  have ha := a.toNat_lt
  have hb := b.toNat_lt
  cases op with
  | add => simp [eval, word, UInt32.toNat_add]
  | sub =>
    simp only [eval, word, Option.map_some, UInt32.toNat_sub, Option.some.injEq]
    congr 1
    omega
  | mul => simp [eval, word, UInt32.toNat_mul]
  | div => simp [eval, word, ← UInt32.toNat_inj, UInt32.toNat_div, apply_ite]
  | or => simp [eval, word, UInt32.toNat_or]
  | and => simp [eval, word, UInt32.toNat_and]
  | lsh => simp [eval, word, toNat_shiftLeft]
  | rsh => simp [eval, word, toNat_shiftRight]
  | mod => simp [eval, word, ← UInt32.toNat_inj, UInt32.toNat_mod, apply_ite]
  | xor => simp [eval, word, UInt32.toNat_xor]

theorem JmpOp.eval_toNat (op : JmpOp) (a b : UInt32) :
    op.eval a.toNat b.toNat = op.word a b := by
  cases op with
  | jeq =>
    rw [eval, word, Bool.eq_iff_iff]
    simp [UInt32.toNat_inj]
  | jgt => simp [eval, word, UInt32.lt_iff_toNat_lt]
  | jge => simp [eval, word, UInt32.le_iff_toNat_le]
  | jset =>
    rw [eval, word, Bool.eq_iff_iff]
    simp [← UInt32.toNat_inj, UInt32.toNat_and]

theorem neg_toNat (a : UInt32) : (2 ^ 32 - a.toNat) % 2 ^ 32 = (0 - a).toNat := by
  simp

theorem msh_toNat (v : UInt8) : 4 * (v.toUInt32.toNat % 16) = (4 * (v &&& 0xf).toUInt32).toNat := by
  have hv := v.toNat_lt
  have hand : (v &&& 0xf).toNat = v.toNat % 16 :=
    (UInt8.toNat_and v 0xf).trans (Nat.and_two_pow_sub_one_eq_mod v.toNat 4)
  simp only [UInt32.toNat_mul, UInt8.toNat_toUInt32, hand, UInt32.reduceToNat]
  omega

@[simp] theorem Machine.setA_toNat (m : Machine) (v : UInt32) :
    m.setA v.toNat = { m with a := v } := by
  simp [Machine.setA]

@[simp] theorem Machine.setX_toNat (m : Machine) (v : UInt32) :
    m.setX v.toNat = { m with x := v } := by
  simp [Machine.setX]

/-! ### One instruction -/

theorem dispatchedOpcodes_toNat : dispatchedOpcodes.map UInt16.toNat =
    [0x00, 0x20, 0x28, 0x30, 0x40, 0x48, 0x50, 0x60, 0x80, 0x01, 0x61, 0x81, 0xb1, 0x02, 0x03,
      0x04, 0x0c, 0x14, 0x1c, 0x24, 0x2c, 0x34, 0x3c, 0x44, 0x4c, 0x54, 0x5c, 0x64, 0x6c, 0x74,
      0x7c, 0x84, 0x94, 0x9c, 0xa4, 0xac, 0x05, 0x15, 0x1d, 0x25, 0x2d, 0x35, 0x3d, 0x45, 0x4d,
      0x06, 0x16, 0x07, 0x87] := by
  decide

theorem toNat_misc_tax : (misc ||| tax).toNat = 0x07 := rfl

theorem toNat_misc_txa : (misc ||| txa).toNat = 0x87 := rfl

/-- Compile's checks of the operands, at the numeric opcodes. -/
theorem Checked.scratch {len pc : ℕ} {i : BPFInstruction} (hc : Checked len pc i)
    (hop : i.opCode.toNat ∈ [0x60, 0x61, 0x02, 0x03]) : i.k.toNat < scratchMemRegisters := by
  apply hc.register
  simp only [List.mem_cons, List.not_mem_nil, or_false] at hop
  rcases hop with h | h | h | h <;> simp +decide [← UInt16.toNat_inj, h]

theorem Checked.constDivisor {len pc : ℕ} {i : BPFInstruction} (hc : Checked len pc i)
    (hop : i.opCode.toNat ∈ [0x34, 0x94]) : i.k ≠ 0 := by
  apply hc.divisor
  simp only [List.mem_cons, List.not_mem_nil, or_false] at hop
  rcases hop with h | h <;> simp +decide [← UInt16.toNat_inj, h]

/-- The opcodes of `Exec`'s switch, by what the comparison needs: a scratch
word, a constant divisor, a divisor in X, or nothing. -/
theorem dispatched_cases {op : UInt16} (hd : op ∈ dispatchedOpcodes) :
    op.toNat ∈ [0x60, 0x61, 0x02, 0x03] ∨ op.toNat ∈ [0x34, 0x94] ∨
      op.toNat ∈ [0x3c, 0x9c] ∨
      op.toNat ∈ [0x00, 0x20, 0x28, 0x30, 0x40, 0x48, 0x50, 0x80, 0x01, 0x81, 0xb1, 0x04, 0x0c,
        0x14, 0x1c, 0x24, 0x2c, 0x44, 0x4c, 0x54, 0x5c, 0x64, 0x6c, 0x74, 0x7c, 0x84, 0xa4, 0xac,
        0x05, 0x15, 0x1d, 0x25, 0x2d, 0x35, 0x3d, 0x45, 0x4d, 0x06, 0x16, 0x07, 0x87] := by
  rw [mem_dispatchedOpcodes, dispatchedOpcodes_toNat] at hd
  revert hd
  generalize op.toNat = n
  revert n
  decide

/-- One instruction of a compiled program: `Exec`'s switch computes the
classic machine on the instruction with `TAX` and `TXA` exchanged. -/
theorem execInstruction_eq_classicStep {input : Input} {len pc : ℕ} {m : Machine}
    {i : BPFInstruction} (hc : Checked len pc i) :
    execInstruction input pc m i = classicStep input pc m (exchangeTaxTxa i) := by
  rcases dispatched_cases hc.dispatched with hmem | hdiv | hdivx | hplain
  · have hk := hc.scratch hmem
    have hget : ∀ r : Fin scratchMemRegisters, m.m.get r = m.m[r.val] := fun _ => rfl
    simp only [List.mem_cons, List.not_mem_nil, or_false] at hmem
    rcases hmem with hn | hn | hn | hn <;>
      simp +decide only [execInstruction, classicStep, exchangeTaxTxa, decode, scratchIndex,
        withReg, storeReg, ← UInt16.toNat_inj, hn, hk, if_true, if_false, dite_true, Insn.run, hget]
  · have hk := hc.constDivisor hdiv
    simp only [List.mem_cons, List.not_mem_nil, or_false] at hdiv
    rcases hdiv with hn | hn <;>
      simp +decide only [execInstruction, classicStep, exchangeTaxTxa, decode, withDivisor,
        ← UInt16.toNat_inj, hn, hk, if_true, if_false, Insn.run, AluOp.eval_toNat, AluOp.word,
        Src.value, Option.map_some, Machine.setA_toNat]
  · simp only [List.mem_cons, List.not_mem_nil, or_false] at hdivx
    -- Exec tests X before Go's division could panic.
    rcases hdivx with hn | hn <;> by_cases hx : m.x = 0 <;>
      simp +decide only [execInstruction, classicStep, exchangeTaxTxa, decode, withDivisor,
        ← UInt16.toNat_inj, hn, hx, if_true, if_false, Insn.run, AluOp.eval_toNat, AluOp.word,
        Src.value, Option.map_some, Option.map_none, Machine.setA_toNat]
  · simp only [List.mem_cons, List.not_mem_nil, or_false] at hplain
    rcases hplain with hn | hn | hn | hn | hn | hn | hn | hn | hn | hn | hn | hn | hn | hn
      | hn | hn | hn | hn | hn | hn | hn | hn | hn | hn | hn | hn | hn | hn | hn |
      hn | hn | hn | hn | hn | hn | hn | hn | hn | hn | hn | hn
    all_goals
      simp +decide only [execInstruction, ← UInt16.toNat_inj, hn, if_true, if_false]
      simp +decide only [classicStep, exchangeTaxTxa, decode, ← UInt16.toNat_inj, hn,
        toNat_misc_tax, toNat_misc_txa, if_true, if_false]
      simp only [Insn.run, Size.load, Src.value, withLoad_map, AluOp.eval_toNat,
        JmpOp.eval_toNat, AluOp.word, JmpOp.word, Option.map_some, Machine.setA_toNat,
        Machine.setX_toNat, conditionalJumpOffset, msh_toNat, neg_toNat]

/-! ### The whole run -/

/-- On a validated program, the loop of `Exec` is the classic machine on the
program with `TAX` and `TXA` exchanged, iteration by iteration. -/
theorem execFrom_eq_classicFrom {input : Input} {insns : List BPFInstruction}
    (hv : Validated insns) (fuel : ℕ) :
    ∀ pc m, execFrom input insns fuel pc m =
      classicFrom input (insns.map exchangeTaxTxa) fuel pc m := by
  induction fuel with
  | zero => intro pc m; rfl
  | succ fuel ih =>
    intro pc m
    simp only [execFrom, classicFrom, List.getElem?_map]
    cases hget : insns[pc]? with
    | none => rfl
    | some i =>
      obtain ⟨hpc, rfl⟩ := List.getElem?_eq_some_iff.mp hget
      simp only [Option.map_some, ← execInstruction_eq_classicStep (hv.checked pc hpc)]
      cases execInstruction input pc m insns[pc] with
      | next skip m' => exact ih _ _
      | done o => rfl

theorem exec_eq_classicExec (insns : List BPFInstruction) (p : Program)
    (hp : compile insns = .ok p) (input : Input) :
    exec p input = classicExec (p.instructions.map exchangeTaxTxa) input := by
  obtain ⟨hins, hv⟩ := compile_validated hp
  rw [exec, classicExec, List.length_map, hins]
  exact execFrom_eq_classicFrom hv _ _ _

/-- A program that loads 42 into X and then runs the opcode named `Tax`. -/
def taxProgram : List BPFInstruction :=
  [stmt (ldx ||| imm ||| w) 42, stmt (misc ||| tax) 0, stmt (ret ||| a) 0]

theorem exec_eq_classicExec_taxProgram :
    compile taxProgram = .ok ⟨taxProgram⟩ ∧
      exec ⟨taxProgram⟩ (inputBytes [] .littleEndian) =
        classicExec (taxProgram.map exchangeTaxTxa) (inputBytes [] .littleEndian) :=
  ⟨by decide, exec_eq_classicExec taxProgram ⟨taxProgram⟩ (by decide) _⟩

/-- `Exec` copies X into A at the opcode of `TAX`, where the classic machine
copies A into X: the program returns 42 under `Exec` and 0 on the classic
machine, whatever the input. -/
theorem exec_taxProgram (input : Input) :
    compile taxProgram = .ok ⟨taxProgram⟩ ∧ exec ⟨taxProgram⟩ input = .ok 42 ∧
      classicExec taxProgram input = .ok 0 :=
  ⟨by decide, rfl, rfl⟩

end ContainerFS.Bpf
