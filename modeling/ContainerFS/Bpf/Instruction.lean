import ContainerFS.Lib.BitField
import Mathlib.Tactic.Linarith

/-!
Classic BPF instructions as `pkg/bpf` encodes them, and `Compile`, the
validation every program passes before it may run. Opcodes are `UInt16` with
the class in bits 0-2 and the size, mode, operation and source operand in the
higher bits; Compile inspects these fields class by class with masks.
-/

namespace ContainerFS.Bpf

structure BPFInstruction where
  opCode : UInt16
  jumpIfTrue : UInt8
  jumpIfFalse : UInt8
  k : UInt32
  deriving DecidableEq, Repr

def maxInstructions : ℕ := 4096

def scratchMemRegisters : ℕ := 16

/-! Parts of an opcode, with the values of `bpf.go`. -/

def ld : UInt16 := 0x00
def ldx : UInt16 := 0x01
def st : UInt16 := 0x02
def stx : UInt16 := 0x03
def alu : UInt16 := 0x04
def jmp : UInt16 := 0x05
def ret : UInt16 := 0x06
def misc : UInt16 := 0x07
def instructionClassMask : UInt16 := 0x07

def w : UInt16 := 0x00
def h : UInt16 := 0x08
def b : UInt16 := 0x10
def loadSizeMask : UInt16 := 0x18

def imm : UInt16 := 0x00
def abs : UInt16 := 0x20
def ind : UInt16 := 0x40
def mem : UInt16 := 0x60
def len : UInt16 := 0x80
def msh : UInt16 := 0xa0
def loadModeMask : UInt16 := 0xe0

def k : UInt16 := 0x00
def x : UInt16 := 0x08
def a : UInt16 := 0x10
def srcAluJmpMask : UInt16 := 0x08
def srcRetMask : UInt16 := 0x18

def add : UInt16 := 0x00
def sub : UInt16 := 0x10
def mul : UInt16 := 0x20
def div : UInt16 := 0x30
def or : UInt16 := 0x40
def and : UInt16 := 0x50
def lsh : UInt16 := 0x60
def rsh : UInt16 := 0x70
def neg : UInt16 := 0x80
def mod : UInt16 := 0x90
def xor : UInt16 := 0xa0
def aluMask : UInt16 := 0xf0

def ja : UInt16 := 0x00
def jeq : UInt16 := 0x10
def jgt : UInt16 := 0x20
def jge : UInt16 := 0x30
def jset : UInt16 := 0x40
def jmpMask : UInt16 := 0xf0

/-- The source names `Tax` "A = X" and `Txa` "X = A"; see `Bpf.Classic`. -/
def tax : UInt16 := 0x00
def txa : UInt16 := 0x80
def miscMask : UInt16 := 0xf8

def unusedBitsMask : UInt16 := 0xff00
def storeUnusedBitsMask : UInt16 := 0xf8
def retUnusedBitsMask : UInt16 := 0xe0

/-! Every mask selects a contiguous field of the opcode, so a masked test is
arithmetic on `op.toNat`. -/

theorem toNat_and_mask (op mask : UInt16) (lo width : ℕ)
    (hmask : mask.toNat = (2 ^ width - 1) * 2 ^ lo) :
    (op &&& mask).toNat = op.toNat / 2 ^ lo % 2 ^ width * 2 ^ lo := by
  rw [UInt16.toNat_and, hmask, BitField.land_mask]

@[simp] theorem toNat_and_instructionClassMask (op : UInt16) :
    (op &&& instructionClassMask).toNat = op.toNat % 8 := by
  simpa using toNat_and_mask op instructionClassMask 0 3 rfl

@[simp] theorem toNat_and_loadSizeMask (op : UInt16) :
    (op &&& loadSizeMask).toNat = op.toNat / 8 % 4 * 8 :=
  toNat_and_mask op loadSizeMask 3 2 rfl

@[simp] theorem toNat_and_loadModeMask (op : UInt16) :
    (op &&& loadModeMask).toNat = op.toNat / 32 % 8 * 32 :=
  toNat_and_mask op loadModeMask 5 3 rfl

@[simp] theorem toNat_and_srcAluJmpMask (op : UInt16) :
    (op &&& srcAluJmpMask).toNat = op.toNat / 8 % 2 * 8 :=
  toNat_and_mask op srcAluJmpMask 3 1 rfl

@[simp] theorem toNat_and_srcRetMask (op : UInt16) :
    (op &&& srcRetMask).toNat = op.toNat / 8 % 4 * 8 :=
  toNat_and_mask op srcRetMask 3 2 rfl

@[simp] theorem toNat_and_aluMask (op : UInt16) :
    (op &&& aluMask).toNat = op.toNat / 16 % 16 * 16 :=
  toNat_and_mask op aluMask 4 4 rfl

@[simp] theorem toNat_and_jmpMask (op : UInt16) :
    (op &&& jmpMask).toNat = op.toNat / 16 % 16 * 16 :=
  toNat_and_mask op jmpMask 4 4 rfl

@[simp] theorem toNat_and_miscMask (op : UInt16) :
    (op &&& miscMask).toNat = op.toNat / 8 % 32 * 8 :=
  toNat_and_mask op miscMask 3 5 rfl

@[simp] theorem toNat_and_unusedBitsMask (op : UInt16) :
    (op &&& unusedBitsMask).toNat = op.toNat / 256 % 256 * 256 :=
  toNat_and_mask op unusedBitsMask 8 8 rfl

@[simp] theorem toNat_and_storeUnusedBitsMask (op : UInt16) :
    (op &&& storeUnusedBitsMask).toNat = op.toNat / 8 % 32 * 8 :=
  toNat_and_mask op storeUnusedBitsMask 3 5 rfl

@[simp] theorem toNat_and_retUnusedBitsMask (op : UInt16) :
    (op &&& retUnusedBitsMask).toNat = op.toNat / 32 % 8 * 32 :=
  toNat_and_mask op retUnusedBitsMask 5 3 rfl

/-- `Stmt`: a non-jump instruction. -/
def stmt (code : UInt16) (kk : UInt32) : BPFInstruction :=
  { opCode := code, jumpIfTrue := 0, jumpIfFalse := 0, k := kk }

/-- `Jump`: a jump instruction. -/
def jump (code : UInt16) (kk : UInt32) (jt jf : UInt8) : BPFInstruction :=
  { opCode := code, jumpIfTrue := jt, jumpIfFalse := jf, k := kk }

/-- The possible values of `Error.Code`, in the order of their `iota`. -/
inductive ErrorCode where
  | divisionByZero
  | invalidEndOfProgram
  | invalidInstructionCount
  | invalidJumpTarget
  | invalidLoad
  | invalidOpcode
  | invalidRegister
  deriving DecidableEq, Repr

structure Error where
  code : ErrorCode
  pc : ℕ
  deriving DecidableEq, Repr

/-- A program that has been validated by `compile`. -/
structure Program where
  instructions : List BPFInstruction
  deriving DecidableEq, Repr

def Program.length (p : Program) : ℕ := p.instructions.length

/-! The body of Compile's loop, one `case` of its class switch at a time. -/

def checkLoad (pc : ℕ) (i : BPFInstruction) : Except Error Unit :=
  let mode := i.opCode &&& loadModeMask
  let size := i.opCode &&& loadSizeMask
  if size = w then
    if mode ≠ imm ∧ mode ≠ abs ∧ mode ≠ ind ∧ mode ≠ mem ∧ mode ≠ len then
      .error ⟨.invalidOpcode, pc⟩
    else if mode = mem ∧ scratchMemRegisters ≤ i.k.toNat then
      .error ⟨.invalidRegister, pc⟩
    else .ok ()
  else if size = h ∨ size = b then
    if mode ≠ abs ∧ mode ≠ ind then .error ⟨.invalidOpcode, pc⟩ else .ok ()
  else .error ⟨.invalidOpcode, pc⟩

def checkLoadX (pc : ℕ) (i : BPFInstruction) : Except Error Unit :=
  let mode := i.opCode &&& loadModeMask
  let size := i.opCode &&& loadSizeMask
  if size = w then
    if mode ≠ imm ∧ mode ≠ mem ∧ mode ≠ len then .error ⟨.invalidOpcode, pc⟩
    else if mode = mem ∧ scratchMemRegisters ≤ i.k.toNat then
      .error ⟨.invalidRegister, pc⟩
    else .ok ()
  else if size = b then
    if mode ≠ msh then .error ⟨.invalidOpcode, pc⟩ else .ok ()
  else .error ⟨.invalidOpcode, pc⟩

def checkStore (pc : ℕ) (i : BPFInstruction) : Except Error Unit :=
  if i.opCode &&& storeUnusedBitsMask ≠ 0 then .error ⟨.invalidOpcode, pc⟩
  else if scratchMemRegisters ≤ i.k.toNat then .error ⟨.invalidRegister, pc⟩
  else .ok ()

def checkAlu (pc : ℕ) (i : BPFInstruction) : Except Error Unit :=
  let op := i.opCode &&& aluMask
  if op = add ∨ op = sub ∨ op = mul ∨ op = or ∨ op = and ∨ op = lsh ∨ op = rsh ∨
      op = xor then .ok ()
  else if op = div ∨ op = mod then
    if i.opCode &&& srcAluJmpMask = k ∧ i.k = 0 then .error ⟨.divisionByZero, pc⟩
    else .ok ()
  -- Negation doesn't take a source operand.
  else if op = neg then
    if i.opCode &&& srcAluJmpMask ≠ 0 then .error ⟨.invalidOpcode, pc⟩ else .ok ()
  else .error ⟨.invalidOpcode, pc⟩

/-- Jump targets are compared in unbounded arithmetic, as the source's 64-bit
comparison of `pc + K + 1` cannot overflow. -/
def checkJump (len pc : ℕ) (i : BPFInstruction) : Except Error Unit :=
  let op := i.opCode &&& jmpMask
  if op = ja then
    if i.opCode &&& srcAluJmpMask ≠ 0 then .error ⟨.invalidOpcode, pc⟩
    else if len ≤ pc + i.k.toNat + 1 then .error ⟨.invalidJumpTarget, pc⟩
    else .ok ()
  else if op = jeq ∨ op = jgt ∨ op = jge ∨ op = jset then
    if len ≤ pc + i.jumpIfTrue.toNat + 1 then .error ⟨.invalidJumpTarget, pc⟩
    else if len ≤ pc + i.jumpIfFalse.toNat + 1 then .error ⟨.invalidJumpTarget, pc⟩
    else .ok ()
  else .error ⟨.invalidOpcode, pc⟩

def checkReturn (pc : ℕ) (i : BPFInstruction) : Except Error Unit :=
  if i.opCode &&& retUnusedBitsMask ≠ 0 then .error ⟨.invalidOpcode, pc⟩
  else if i.opCode &&& srcRetMask ≠ k ∧ i.opCode &&& srcRetMask ≠ a then
    .error ⟨.invalidOpcode, pc⟩
  else .ok ()

def checkMisc (pc : ℕ) (i : BPFInstruction) : Except Error Unit :=
  if i.opCode &&& miscMask ≠ tax ∧ i.opCode &&& miscMask ≠ txa then
    .error ⟨.invalidOpcode, pc⟩
  else .ok ()

/-- One iteration of the validation loop of `Compile`. -/
def checkInstruction (len pc : ℕ) (i : BPFInstruction) : Except Error Unit :=
  if i.opCode &&& unusedBitsMask ≠ 0 then .error ⟨.invalidOpcode, pc⟩
  else
    let cls := i.opCode &&& instructionClassMask
    if cls = ld then checkLoad pc i
    else if cls = ldx then checkLoadX pc i
    else if cls = st ∨ cls = stx then checkStore pc i
    else if cls = alu then checkAlu pc i
    else if cls = jmp then checkJump len pc i
    else if cls = ret then checkReturn pc i
    else checkMisc pc i

/-- `for pc, i := range insns`, stopping at the first error. -/
def checkInstructions (len : ℕ) : ℕ → List BPFInstruction → Except Error Unit
  | _, [] => .ok ()
  | pc, i :: rest =>
    match checkInstruction len pc i with
    | .error e => .error e
    | .ok () => checkInstructions len (pc + 1) rest

def compile (insns : List BPFInstruction) : Except Error Program :=
  if insns.length = 0 ∨ maxInstructions < insns.length then
    .error ⟨.invalidInstructionCount, insns.length⟩
  else
    match insns.getLast? with
    -- Unreachable: the program is not empty.
    | none => .error ⟨.invalidInstructionCount, insns.length⟩
    | some last =>
      if last.opCode ≠ ret ||| k ∧ last.opCode ≠ ret ||| a then
        .error ⟨.invalidEndOfProgram, insns.length - 1⟩
      else
        match checkInstructions insns.length 0 insns with
        | .error e => .error e
        | .ok () => .ok ⟨insns⟩

end ContainerFS.Bpf
