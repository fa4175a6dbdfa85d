import ContainerFS.Bpf.Instruction

/-!
`Exec`, the interpreter of `pkg/bpf`. The machine holds A, X and sixteen
scratch words M; the loop runs the instruction at `pc` and then increments
`pc`, after a jump has added its offset. Every offset is non-negative, so each
turn moves `pc` forward and `fuel = len` turns reach the end of the program.
Go runtime panics (an index of M out of range, an
integer division by zero) are an outcome of their own.
-/

namespace ContainerFS.Bpf

/-- The `Input` interface. A load returns `none` where the Go method returns
`false`. -/
structure Input where
  load32 : UInt32 → Option UInt32
  load16 : UInt32 → Option UInt16
  load8 : UInt32 → Option UInt8
  length : UInt32

/-- `binary.ByteOrder`, for the two orders of the standard library. -/
inductive ByteOrder where
  | littleEndian
  | bigEndian
  deriving DecidableEq, Repr

def ByteOrder.uint16 : ByteOrder → List UInt8 → UInt16
  | .littleEndian, bs => (bs.getD 0 0).toUInt16 ||| (bs.getD 1 0).toUInt16 <<< 8
  | .bigEndian, bs => (bs.getD 1 0).toUInt16 ||| (bs.getD 0 0).toUInt16 <<< 8

def ByteOrder.uint32 : ByteOrder → List UInt8 → UInt32
  | .littleEndian, bs => (bs.getD 0 0).toUInt32 ||| (bs.getD 1 0).toUInt32 <<< 8 |||
      (bs.getD 2 0).toUInt32 <<< 16 ||| (bs.getD 3 0).toUInt32 <<< 24
  | .bigEndian, bs => (bs.getD 3 0).toUInt32 ||| (bs.getD 2 0).toUInt32 <<< 8 |||
      (bs.getD 1 0).toUInt32 <<< 16 ||| (bs.getD 0 0).toUInt32 <<< 24

/-- `InputBytes`: loads from a byte slice; unaligned loads are supported. -/
def inputBytes (data : List UInt8) (order : ByteOrder) : Input where
  load32 off := if data.length < off.toNat + 4 then none
    else some (order.uint32 (data.drop off.toNat))
  load16 off := if data.length < off.toNat + 2 then none
    else some (order.uint16 (data.drop off.toNat))
  load8 off := if data.length < off.toNat + 1 then none
    else some (data.getD off.toNat 0)
  length := data.length.toUInt32

structure Machine where
  a : UInt32
  x : UInt32
  m : Vector UInt32 scratchMemRegisters

/-- `var m machine`: every register starts at zero. -/
def Machine.init : Machine := ⟨0, 0, Vector.replicate scratchMemRegisters 0⟩

/-- How a run of `Exec` ends: its two return values, or a Go runtime panic. -/
inductive Outcome where
  | ok (v : UInt32)
  | error (e : Error)
  | panic
  deriving DecidableEq, Repr

/-- The effect of one iteration of the loop: continue `skip + 1` instructions
further on, or leave `Exec`. -/
inductive Step where
  | next (skip : ℕ) (m : Machine)
  | done (o : Outcome)

/-- Go's `<<` on `uint32`: a count of 32 or more shifts every bit out. -/
def shiftLeft (v s : UInt32) : UInt32 := if s < 32 then v <<< s else 0

/-- Go's `>>` on `uint32`. -/
def shiftRight (v s : UInt32) : UInt32 := if s < 32 then v >>> s else 0

def conditionalJumpOffset (i : BPFInstruction) (cond : Bool) : ℕ :=
  if cond then i.jumpIfTrue.toNat else i.jumpIfFalse.toNat

/-- A load through the `Input`: a refused load ends the run with `InvalidLoad`. -/
def withLoad {α : Type} (pc : ℕ) (v : Option α) (f : α → Machine) : Step :=
  match v with
  | none => .done (.error ⟨.invalidLoad, pc⟩)
  | some v => .next 0 (f v)

@[simp] theorem withLoad_map {α β : Type} (pc : ℕ) (v : Option α) (g : α → β)
    (f : β → Machine) : withLoad pc (v.map g) f = withLoad pc v fun x => f (g x) := by
  cases v <;> rfl

/-- `m.M[int(i.K)]` as an operand: out of range it is a Go panic. -/
def withReg (m : Machine) (i : BPFInstruction) (f : UInt32 → Machine) : Step :=
  if hk : i.k.toNat < scratchMemRegisters then .next 0 (f m.m[i.k.toNat])
  else .done .panic

/-- `m.M[int(i.K)] = v`: out of range it is a Go panic. -/
def storeReg (m : Machine) (i : BPFInstruction) (v : UInt32) : Step :=
  if hk : i.k.toNat < scratchMemRegisters then .next 0 { m with m := m.m.set i.k.toNat v }
  else .done .panic

/-- Go's integer division and remainder panic on a zero divisor. -/
def withDivisor (m : Machine) (d : UInt32) (f : UInt32 → UInt32) : Step :=
  if d = 0 then .done .panic else .next 0 { m with a := f d }

/-- The body of the loop in `Exec`: its switch over the whole opcode. -/
def execInstruction (input : Input) (pc : ℕ) (m : Machine) (i : BPFInstruction) : Step :=
  let op := i.opCode
  if op = ld ||| imm ||| w then .next 0 { m with a := i.k }
  else if op = ld ||| abs ||| w then withLoad pc (input.load32 i.k) fun v => { m with a := v }
  else if op = ld ||| abs ||| h then
    withLoad pc (input.load16 i.k) fun v => { m with a := v.toUInt32 }
  else if op = ld ||| abs ||| b then
    withLoad pc (input.load8 i.k) fun v => { m with a := v.toUInt32 }
  else if op = ld ||| ind ||| w then
    withLoad pc (input.load32 (m.x + i.k)) fun v => { m with a := v }
  else if op = ld ||| ind ||| h then
    withLoad pc (input.load16 (m.x + i.k)) fun v => { m with a := v.toUInt32 }
  else if op = ld ||| ind ||| b then
    withLoad pc (input.load8 (m.x + i.k)) fun v => { m with a := v.toUInt32 }
  else if op = ld ||| mem ||| w then withReg m i fun v => { m with a := v }
  else if op = ld ||| len ||| w then .next 0 { m with a := input.length }
  else if op = ldx ||| imm ||| w then .next 0 { m with x := i.k }
  else if op = ldx ||| mem ||| w then withReg m i fun v => { m with x := v }
  else if op = ldx ||| len ||| w then .next 0 { m with x := input.length }
  else if op = ldx ||| msh ||| b then
    withLoad pc (input.load8 i.k) fun v => { m with x := 4 * (v &&& 0xf).toUInt32 }
  else if op = st then storeReg m i m.a
  else if op = stx then storeReg m i m.x
  else if op = alu ||| add ||| k then .next 0 { m with a := m.a + i.k }
  else if op = alu ||| add ||| x then .next 0 { m with a := m.a + m.x }
  else if op = alu ||| sub ||| k then .next 0 { m with a := m.a - i.k }
  else if op = alu ||| sub ||| x then .next 0 { m with a := m.a - m.x }
  else if op = alu ||| mul ||| k then .next 0 { m with a := m.a * i.k }
  else if op = alu ||| mul ||| x then .next 0 { m with a := m.a * m.x }
  -- K != 0 already checked by Compile.
  else if op = alu ||| div ||| k then withDivisor m i.k (m.a / ·)
  else if op = alu ||| div ||| x then
    if m.x = 0 then .done (.error ⟨.divisionByZero, pc⟩) else withDivisor m m.x (m.a / ·)
  else if op = alu ||| or ||| k then .next 0 { m with a := m.a ||| i.k }
  else if op = alu ||| or ||| x then .next 0 { m with a := m.a ||| m.x }
  else if op = alu ||| and ||| k then .next 0 { m with a := m.a &&& i.k }
  else if op = alu ||| and ||| x then .next 0 { m with a := m.a &&& m.x }
  else if op = alu ||| lsh ||| k then .next 0 { m with a := shiftLeft m.a i.k }
  else if op = alu ||| lsh ||| x then .next 0 { m with a := shiftLeft m.a m.x }
  else if op = alu ||| rsh ||| k then .next 0 { m with a := shiftRight m.a i.k }
  else if op = alu ||| rsh ||| x then .next 0 { m with a := shiftRight m.a m.x }
  else if op = alu ||| neg then .next 0 { m with a := 0 - m.a }
  else if op = alu ||| mod ||| k then withDivisor m i.k (m.a % ·)
  else if op = alu ||| mod ||| x then
    if m.x = 0 then .done (.error ⟨.divisionByZero, pc⟩) else withDivisor m m.x (m.a % ·)
  else if op = alu ||| xor ||| k then .next 0 { m with a := m.a ^^^ i.k }
  else if op = alu ||| xor ||| x then .next 0 { m with a := m.a ^^^ m.x }
  else if op = jmp ||| ja then .next i.k.toNat m
  else if op = jmp ||| jeq ||| k then .next (conditionalJumpOffset i (m.a == i.k)) m
  else if op = jmp ||| jeq ||| x then .next (conditionalJumpOffset i (m.a == m.x)) m
  else if op = jmp ||| jgt ||| k then .next (conditionalJumpOffset i (decide (m.a > i.k))) m
  else if op = jmp ||| jgt ||| x then .next (conditionalJumpOffset i (decide (m.a > m.x))) m
  else if op = jmp ||| jge ||| k then .next (conditionalJumpOffset i (decide (m.a ≥ i.k))) m
  else if op = jmp ||| jge ||| x then .next (conditionalJumpOffset i (decide (m.a ≥ m.x))) m
  else if op = jmp ||| jset ||| k then
    .next (conditionalJumpOffset i (m.a &&& i.k != 0)) m
  else if op = jmp ||| jset ||| x then
    .next (conditionalJumpOffset i (m.a &&& m.x != 0)) m
  else if op = ret ||| k then .done (.ok i.k)
  else if op = ret ||| a then .done (.ok m.a)
  else if op = misc ||| tax then .next 0 { m with a := m.x }
  else if op = misc ||| txa then .next 0 { m with x := m.a }
  else .done (.error ⟨.invalidOpcode, pc⟩)

/-- The loop of `Exec` from `pc`, for at most `fuel` iterations. Leaving the
loop because `pc` has passed the end is `InvalidEndOfProgram`. -/
def execFrom (input : Input) (insns : List BPFInstruction) : ℕ → ℕ → Machine → Outcome
  | 0, pc, _ => .error ⟨.invalidEndOfProgram, pc⟩
  | fuel + 1, pc, m =>
    match insns[pc]? with
    | none => .error ⟨.invalidEndOfProgram, pc⟩
    | some i =>
      match execInstruction input pc m i with
      | .next skip m' => execFrom input insns fuel (pc + skip + 1) m'
      | .done o => o

def exec (p : Program) (input : Input) : Outcome :=
  execFrom input p.instructions p.instructions.length 0 Machine.init

end ContainerFS.Bpf
