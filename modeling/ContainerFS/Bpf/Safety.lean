import ContainerFS.Bpf.Interpreter
import Mathlib.Data.List.Basic

/-!
Programs accepted by `compile` run safely. Compile validates opcodes by
masking their fields class by class, while `Exec` switches on complete
opcodes; `dispatched_of_checkInstruction` shows that every accepted opcode is
one the switch names, so the default branch is unreachable. With the operand
checks (M indices, constant divisors, jump targets) every iteration either
returns, fails with `InvalidLoad` or `DivisionByZero`, or moves forward to an
instruction of the program.
-/

namespace ContainerFS.Bpf

/-- The opcodes named by the switch of `Exec`, in its order. -/
def dispatchedOpcodes : List UInt16 :=
  [ld ||| imm ||| w, ld ||| abs ||| w, ld ||| abs ||| h, ld ||| abs ||| b,
    ld ||| ind ||| w, ld ||| ind ||| h, ld ||| ind ||| b, ld ||| mem ||| w, ld ||| len ||| w,
    ldx ||| imm ||| w, ldx ||| mem ||| w, ldx ||| len ||| w, ldx ||| msh ||| b, st, stx,
    alu ||| add ||| k, alu ||| add ||| x, alu ||| sub ||| k, alu ||| sub ||| x,
    alu ||| mul ||| k, alu ||| mul ||| x, alu ||| div ||| k, alu ||| div ||| x,
    alu ||| or ||| k, alu ||| or ||| x, alu ||| and ||| k, alu ||| and ||| x,
    alu ||| lsh ||| k, alu ||| lsh ||| x, alu ||| rsh ||| k, alu ||| rsh ||| x, alu ||| neg,
    alu ||| mod ||| k, alu ||| mod ||| x, alu ||| xor ||| k, alu ||| xor ||| x,
    jmp ||| ja, jmp ||| jeq ||| k, jmp ||| jeq ||| x, jmp ||| jgt ||| k, jmp ||| jgt ||| x,
    jmp ||| jge ||| k, jmp ||| jge ||| x, jmp ||| jset ||| k, jmp ||| jset ||| x,
    ret ||| k, ret ||| a, misc ||| tax, misc ||| txa]

theorem mem_dispatchedOpcodes {op : UInt16} :
    op ∈ dispatchedOpcodes ↔ op.toNat ∈ dispatchedOpcodes.map UInt16.toNat :=
  (List.mem_map_of_injective fun _ _ => UInt16.toNat_inj.mp).symm

/-! ### Compile's opcode checks, one instruction class at a time

Each class check is turned into arithmetic on the opcode's fields. -/

theorem opcode_of_checkLoad {pc : ℕ} {i : BPFInstruction}
    (hop : i.opCode.toNat < 256) (hcls : i.opCode.toNat % 8 = 0)
    (hchk : checkLoad pc i = .ok ()) :
    i.opCode.toNat ∈ [0x00, 0x20, 0x28, 0x30, 0x40, 0x48, 0x50, 0x60, 0x80] := by
  dsimp only [checkLoad] at hchk
  split_ifs at hchk
  all_goals
    simp only [ne_eq, ← UInt16.toNat_inj, toNat_and_loadSizeMask, toNat_and_loadModeMask, w, h, b,
      imm, abs, ind, mem, len, UInt16.reduceToNat, List.mem_cons, List.not_mem_nil, or_false] at *
    omega

theorem opcode_of_checkLoadX {pc : ℕ} {i : BPFInstruction}
    (hop : i.opCode.toNat < 256) (hcls : i.opCode.toNat % 8 = 1)
    (hchk : checkLoadX pc i = .ok ()) : i.opCode.toNat ∈ [0x01, 0x61, 0x81, 0xb1] := by
  dsimp only [checkLoadX] at hchk
  split_ifs at hchk
  all_goals
    simp only [ne_eq, ← UInt16.toNat_inj, toNat_and_loadSizeMask, toNat_and_loadModeMask, w, b,
      imm, mem, len, msh, UInt16.reduceToNat, List.mem_cons, List.not_mem_nil, or_false] at *
    omega

theorem opcode_of_checkStore {pc : ℕ} {i : BPFInstruction}
    (hop : i.opCode.toNat < 256) (hcls : i.opCode.toNat % 8 = 2 ∨ i.opCode.toNat % 8 = 3)
    (hchk : checkStore pc i = .ok ()) : i.opCode.toNat ∈ [0x02, 0x03] := by
  dsimp only [checkStore] at hchk
  split_ifs at hchk with hbits
  simp only [ne_eq, ← UInt16.toNat_inj, toNat_and_storeUnusedBitsMask, UInt16.reduceToNat,
    List.mem_cons, List.not_mem_nil, or_false, not_not] at *
  omega

theorem opcode_of_checkAlu {pc : ℕ} {i : BPFInstruction}
    (hop : i.opCode.toNat < 256) (hcls : i.opCode.toNat % 8 = 4)
    (hchk : checkAlu pc i = .ok ()) :
    i.opCode.toNat ∈ [0x04, 0x0c, 0x14, 0x1c, 0x24, 0x2c, 0x34, 0x3c, 0x44, 0x4c, 0x54, 0x5c,
      0x64, 0x6c, 0x74, 0x7c, 0x84, 0x94, 0x9c, 0xa4, 0xac] := by
  dsimp only [checkAlu] at hchk
  split_ifs at hchk
  all_goals
    simp only [ne_eq, ← UInt16.toNat_inj, toNat_and_aluMask, toNat_and_srcAluJmpMask, add, sub,
      mul, div, or, and, lsh, rsh, neg, mod, xor, k, UInt16.reduceToNat, List.mem_cons,
      List.not_mem_nil, or_false] at *
    omega

theorem opcode_of_checkJump {len pc : ℕ} {i : BPFInstruction}
    (hop : i.opCode.toNat < 256) (hcls : i.opCode.toNat % 8 = 5)
    (hchk : checkJump len pc i = .ok ()) :
    i.opCode.toNat ∈ [0x05, 0x15, 0x1d, 0x25, 0x2d, 0x35, 0x3d, 0x45, 0x4d] := by
  dsimp only [checkJump] at hchk
  split_ifs at hchk
  all_goals
    simp only [ne_eq, ← UInt16.toNat_inj, toNat_and_jmpMask, toNat_and_srcAluJmpMask, ja, jeq,
      jgt, jge, jset, UInt16.reduceToNat, List.mem_cons, List.not_mem_nil, or_false] at *
    omega

theorem opcode_of_checkReturn {pc : ℕ} {i : BPFInstruction}
    (hop : i.opCode.toNat < 256) (hcls : i.opCode.toNat % 8 = 6)
    (hchk : checkReturn pc i = .ok ()) : i.opCode.toNat ∈ [0x06, 0x16] := by
  dsimp only [checkReturn] at hchk
  split_ifs at hchk
  simp only [ne_eq, ← UInt16.toNat_inj, toNat_and_retUnusedBitsMask, toNat_and_srcRetMask, k, a,
    UInt16.reduceToNat, List.mem_cons, List.not_mem_nil, or_false, not_not, not_and] at *
  omega

theorem opcode_of_checkMisc {pc : ℕ} {i : BPFInstruction}
    (hop : i.opCode.toNat < 256) (hcls : i.opCode.toNat % 8 = 7)
    (hchk : checkMisc pc i = .ok ()) : i.opCode.toNat ∈ [0x07, 0x87] := by
  dsimp only [checkMisc] at hchk
  split_ifs at hchk
  simp only [ne_eq, ← UInt16.toNat_inj, toNat_and_miscMask, tax, txa, UInt16.reduceToNat,
    List.mem_cons, List.not_mem_nil, or_false, not_and, not_not] at *
  omega

/-- Compile's accepted opcodes are among those the switch of `Exec` names. -/
theorem dispatched_of_checkInstruction {len pc : ℕ} {i : BPFInstruction}
    (hchk : checkInstruction len pc i = .ok ()) : i.opCode ∈ dispatchedOpcodes := by
  have hlt := i.opCode.toNat_lt
  rw [mem_dispatchedOpcodes]
  dsimp only [checkInstruction] at hchk
  -- The switch over the instruction class; its last case is `Misc`.
  split_ifs at hchk with hunused hld hldx hst halu hjmp hret
  all_goals
    simp only [ne_eq, not_not, not_or, ← UInt16.toNat_inj, toNat_and_unusedBitsMask,
      toNat_and_instructionClassMask, ld, ldx, st, stx, alu, jmp, ret, UInt16.reduceToNat] at *
    have hop : i.opCode.toNat < 256 := by omega
  · exact (by decide : [0x00, 0x20, 0x28, 0x30, 0x40, 0x48, 0x50, 0x60, 0x80] ⊆ _)
      (opcode_of_checkLoad hop hld hchk)
  · exact (by decide : [0x01, 0x61, 0x81, 0xb1] ⊆ _) (opcode_of_checkLoadX hop hldx hchk)
  · exact (by decide : [0x02, 0x03] ⊆ _) (opcode_of_checkStore hop hst hchk)
  · exact (by decide : [0x04, 0x0c, 0x14, 0x1c, 0x24, 0x2c, 0x34, 0x3c, 0x44, 0x4c, 0x54, 0x5c,
      0x64, 0x6c, 0x74, 0x7c, 0x84, 0x94, 0x9c, 0xa4, 0xac] ⊆ _) (opcode_of_checkAlu hop halu hchk)
  · exact (by decide : [0x05, 0x15, 0x1d, 0x25, 0x2d, 0x35, 0x3d, 0x45, 0x4d] ⊆ _)
      (opcode_of_checkJump hop hjmp hchk)
  · exact (by decide : [0x06, 0x16] ⊆ _) (opcode_of_checkReturn hop hret hchk)
  · exact (by decide : [0x07, 0x87] ⊆ _) (opcode_of_checkMisc hop (by omega) hchk)

/-- Conversely, Compile accepts every opcode of the switch, with the operands
`K = 1` and `jt = jf = 0` in a program of three instructions. -/
theorem checkInstruction_of_dispatched :
    ∀ op ∈ dispatchedOpcodes, checkInstruction 3 0 ⟨op, 0, 0, 1⟩ = .ok () := by
  -- one evaluation over the whole list, as a Boolean
  have hall : dispatchedOpcodes.all (fun op => (checkInstruction 3 0 ⟨op, 0, 0, 1⟩).toBool) = true := by
    decide
  intro op hop
  have hok := List.all_eq_true.mp hall op hop
  cases h : checkInstruction 3 0 ⟨op, 0, 0, 1⟩ with
  | error e => rw [h] at hok; cases hok
  | ok u => rfl

/-- The opcodes Compile accepts are exactly those `Exec` dispatches. -/
theorem accepted_iff_dispatched (op : UInt16) :
    (∃ len pc i, i.opCode = op ∧ checkInstruction len pc i = .ok ()) ↔
      op ∈ dispatchedOpcodes := by
  constructor
  · rintro ⟨len, pc, i, rfl, hchk⟩
    exact dispatched_of_checkInstruction hchk
  · intro hop
    exact ⟨3, 0, ⟨op, 0, 0, 1⟩, rfl, checkInstruction_of_dispatched op hop⟩

/-! ### Compile's operand checks, at the opcodes that need them -/

theorem register_of_checkInstruction {len pc : ℕ} {i : BPFInstruction}
    (hchk : checkInstruction len pc i = .ok ())
    (hop : i.opCode ∈ [ld ||| mem ||| w, ldx ||| mem ||| w, st, stx]) :
    i.k.toNat < scratchMemRegisters := by
  simp only [List.mem_cons, List.not_mem_nil, or_false] at hop
  rcases hop with hop | hop | hop | hop <;>
    simp +decide [checkInstruction, checkLoad, checkLoadX, checkStore, hop] at hchk <;> omega

theorem divisor_of_checkInstruction {len pc : ℕ} {i : BPFInstruction}
    (hchk : checkInstruction len pc i = .ok ())
    (hop : i.opCode ∈ [alu ||| div ||| k, alu ||| mod ||| k]) : i.k ≠ 0 := by
  simp only [List.mem_cons, List.not_mem_nil, or_false] at hop
  rcases hop with hop | hop <;> simpa +decide [checkInstruction, checkAlu, hop] using hchk

theorem target_of_checkInstruction {len pc : ℕ} {i : BPFInstruction}
    (hchk : checkInstruction len pc i = .ok ()) (hop : i.opCode = jmp ||| ja) :
    pc + i.k.toNat + 1 < len := by
  simp +decide [checkInstruction, checkJump, hop] at hchk
  omega

theorem targets_of_checkInstruction {len pc : ℕ} {i : BPFInstruction}
    (hchk : checkInstruction len pc i = .ok ())
    (hop : i.opCode ∈ [jmp ||| jeq ||| k, jmp ||| jeq ||| x, jmp ||| jgt ||| k,
      jmp ||| jgt ||| x, jmp ||| jge ||| k, jmp ||| jge ||| x, jmp ||| jset ||| k,
      jmp ||| jset ||| x]) :
    pc + i.jumpIfTrue.toNat + 1 < len ∧ pc + i.jumpIfFalse.toNat + 1 < len := by
  simp only [List.mem_cons, List.not_mem_nil, or_false] at hop
  rcases hop with hop | hop | hop | hop | hop | hop | hop | hop <;>
    simp +decide [checkInstruction, checkJump, hop, ite_eq_iff] at hchk <;> omega

/-- What the loop of Compile establishes for the instruction at `pc` of a
program of `len` instructions. -/
structure Checked (len pc : ℕ) (i : BPFInstruction) : Prop where
  dispatched : i.opCode ∈ dispatchedOpcodes
  register : i.opCode ∈ [ld ||| mem ||| w, ldx ||| mem ||| w, st, stx] →
    i.k.toNat < scratchMemRegisters
  divisor : i.opCode ∈ [alu ||| div ||| k, alu ||| mod ||| k] → i.k ≠ 0
  target : i.opCode = jmp ||| ja → pc + i.k.toNat + 1 < len
  targets : i.opCode ∈ [jmp ||| jeq ||| k, jmp ||| jeq ||| x, jmp ||| jgt ||| k,
      jmp ||| jgt ||| x, jmp ||| jge ||| k, jmp ||| jge ||| x, jmp ||| jset ||| k,
      jmp ||| jset ||| x] →
    pc + i.jumpIfTrue.toNat + 1 < len ∧ pc + i.jumpIfFalse.toNat + 1 < len

theorem checked_of_checkInstruction {len pc : ℕ} {i : BPFInstruction}
    (hchk : checkInstruction len pc i = .ok ()) : Checked len pc i :=
  ⟨dispatched_of_checkInstruction hchk, register_of_checkInstruction hchk,
    divisor_of_checkInstruction hchk, target_of_checkInstruction hchk,
    targets_of_checkInstruction hchk⟩

/-! ### One iteration of the loop -/

/-- What a validated program may do at `pc` in one iteration: return, fail
with one of the two errors Compile cannot rule out, or move on to an
instruction of the program. -/
def StepSafe (len pc : ℕ) : Step → Prop
  | .next skip _ => pc + skip + 1 < len
  | .done (.ok _) => True
  | .done (.error e) => e.code = .invalidLoad ∨ e.code = .divisionByZero
  | .done .panic => False

theorem stepSafe_withLoad {α : Type} {len pc : ℕ} (v : Option α) (f : α → Machine)
    (hnext : pc + 1 < len) : StepSafe len pc (withLoad pc v f) := by
  cases v <;> simp [withLoad, StepSafe, hnext]

theorem stepSafe_withReg {len pc : ℕ} {m : Machine} {i : BPFInstruction} (f : UInt32 → Machine)
    (hk : i.k.toNat < scratchMemRegisters) (hnext : pc + 1 < len) :
    StepSafe len pc (withReg m i f) := by
  simp [withReg, hk, StepSafe, hnext]

theorem stepSafe_storeReg {len pc : ℕ} {m : Machine} {i : BPFInstruction} (v : UInt32)
    (hk : i.k.toNat < scratchMemRegisters) (hnext : pc + 1 < len) :
    StepSafe len pc (storeReg m i v) := by
  simp [storeReg, hk, StepSafe, hnext]

theorem stepSafe_withDivisor {len pc : ℕ} {m : Machine} {d : UInt32} (f : UInt32 → UInt32)
    (hd : d ≠ 0) (hnext : pc + 1 < len) : StepSafe len pc (withDivisor m d f) := by
  simp [withDivisor, hd, StepSafe, hnext]

/-- The `X` forms of Div and Mod: a zero divisor is the `DivisionByZero` error. -/
theorem stepSafe_divideByX {len pc : ℕ} {m : Machine} (f : UInt32 → UInt32)
    (hnext : pc + 1 < len) :
    StepSafe len pc (if m.x = 0 then .done (.error ⟨.divisionByZero, pc⟩)
      else withDivisor m m.x f) := by
  split_ifs with hx
  · simp [StepSafe]
  · exact stepSafe_withDivisor f hx hnext

theorem stepSafe_conditional {len pc : ℕ} {m : Machine} {i : BPFInstruction} (cond : Bool)
    (ht : pc + i.jumpIfTrue.toNat + 1 < len ∧ pc + i.jumpIfFalse.toNat + 1 < len) :
    StepSafe len pc (.next (conditionalJumpOffset i cond) m) := by
  cases cond <;> simp [StepSafe, conditionalJumpOffset, ht.1, ht.2]

/-- One iteration at `pc` of a validated program is safe. `hnext` says that
only a return may stand last. -/
theorem execInstruction_safe {input : Input} {len pc : ℕ} {m : Machine} {i : BPFInstruction}
    (hc : Checked len pc i)
    (hnext : i.opCode ≠ ret ||| k → i.opCode ≠ ret ||| a → pc + 1 < len) :
    StepSafe len pc (execInstruction input pc m i) := by
  have next : ∀ {c : UInt16}, i.opCode = c → c ≠ ret ||| k ∧ c ≠ ret ||| a → pc + 0 + 1 < len :=
    fun hop hc => hnext (hop ▸ hc.1) (hop ▸ hc.2)
  have hd := hc.dispatched
  simp only [dispatchedOpcodes, List.mem_cons, List.not_mem_nil, or_false] at hd
  -- One case per opcode of the switch, in its order.
  rcases hd with heq | heq | heq | heq | heq | heq | heq | heq | heq | heq | heq | heq | heq | heq
    | heq | heq | heq | heq | heq | heq | heq | heq | heq | heq | heq | heq | heq | heq | heq |
    heq | heq | heq | heq | heq | heq | heq | heq | heq | heq | heq | heq | heq | heq | heq | heq
    | heq | heq | heq | heq
  all_goals simp +decide only [execInstruction, heq, if_true, if_false]
  · exact (next heq (by decide))
  · exact stepSafe_withLoad _ _ (next heq (by decide))
  · exact stepSafe_withLoad _ _ (next heq (by decide))
  · exact stepSafe_withLoad _ _ (next heq (by decide))
  · exact stepSafe_withLoad _ _ (next heq (by decide))
  · exact stepSafe_withLoad _ _ (next heq (by decide))
  · exact stepSafe_withLoad _ _ (next heq (by decide))
  · exact stepSafe_withReg _ (hc.register (by simp [heq])) (next heq (by decide))
  · exact (next heq (by decide))
  · exact (next heq (by decide))
  · exact stepSafe_withReg _ (hc.register (by simp [heq])) (next heq (by decide))
  · exact (next heq (by decide))
  · exact stepSafe_withLoad _ _ (next heq (by decide))
  · exact stepSafe_storeReg _ (hc.register (by simp [heq])) (next heq (by decide))
  · exact stepSafe_storeReg _ (hc.register (by simp [heq])) (next heq (by decide))
  · exact (next heq (by decide))
  · exact (next heq (by decide))
  · exact (next heq (by decide))
  · exact (next heq (by decide))
  · exact (next heq (by decide))
  · exact (next heq (by decide))
  · exact stepSafe_withDivisor _ (hc.divisor (by simp [heq])) (next heq (by decide))
  · exact stepSafe_divideByX _ (next heq (by decide))
  · exact (next heq (by decide))
  · exact (next heq (by decide))
  · exact (next heq (by decide))
  · exact (next heq (by decide))
  · exact (next heq (by decide))
  · exact (next heq (by decide))
  · exact (next heq (by decide))
  · exact (next heq (by decide))
  · exact (next heq (by decide))
  · exact stepSafe_withDivisor _ (hc.divisor (by simp [heq])) (next heq (by decide))
  · exact stepSafe_divideByX _ (next heq (by decide))
  · exact (next heq (by decide))
  · exact (next heq (by decide))
  · exact hc.target heq
  · exact stepSafe_conditional _ (hc.targets (by simp [heq]))
  · exact stepSafe_conditional _ (hc.targets (by simp [heq]))
  · exact stepSafe_conditional _ (hc.targets (by simp [heq]))
  · exact stepSafe_conditional _ (hc.targets (by simp [heq]))
  · exact stepSafe_conditional _ (hc.targets (by simp [heq]))
  · exact stepSafe_conditional _ (hc.targets (by simp [heq]))
  · exact stepSafe_conditional _ (hc.targets (by simp [heq]))
  · exact stepSafe_conditional _ (hc.targets (by simp [heq]))
  · trivial
  · trivial
  · exact (next heq (by decide))
  · exact (next heq (by decide))

/-! ### Compile and the whole run -/

/-- What `compile` establishes about the instruction list it accepts. -/
structure Validated (insns : List BPFInstruction) : Prop where
  nonempty : 0 < insns.length
  checked : ∀ pc (hpc : pc < insns.length), Checked insns.length pc insns[pc]
  lastRet : ∀ pc (hpc : pc < insns.length), pc + 1 = insns.length →
    insns[pc].opCode = ret ||| k ∨ insns[pc].opCode = ret ||| a

theorem checkInstructions_ok {len : ℕ} :
    ∀ {pc : ℕ} {insns : List BPFInstruction}, checkInstructions len pc insns = .ok () →
      ∀ j (hj : j < insns.length), checkInstruction len (pc + j) insns[j] = .ok ()
  | _, [], _, _, hj => absurd hj (Nat.not_lt_zero _)
  | pc, i :: rest, h, j, hj => by
    simp only [checkInstructions] at h
    split at h
    · cases h
    · rename_i hi
      cases j with
      | zero => simpa using hi
      | succ j =>
        have := checkInstructions_ok h j (by simpa using hj)
        simpa [Nat.add_right_comm, Nat.add_assoc] using this

theorem compile_validated {insns : List BPFInstruction} {p : Program}
    (h : compile insns = .ok p) : p.instructions = insns ∧ Validated insns := by
  unfold compile at h
  split_ifs at h with hcount
  split at h
  · cases h
  · rename_i last hlast
    split_ifs at h with hret
    split at h
    · cases h
    · rename_i hchk
      cases h
      refine ⟨rfl, by omega, fun pc hpc => ?_, fun pc hpc hend => ?_⟩
      · simpa using checked_of_checkInstruction (checkInstructions_ok hchk pc hpc)
      · rw [List.getLast?_eq_getElem?, ← hend, Nat.add_sub_cancel,
          List.getElem?_eq_getElem hpc, Option.some.injEq] at hlast
        subst hlast
        by_contra hne
        exact hret (not_or.mp hne)

/-- How a run of a validated program may end. -/
def RunSafe : Outcome → Prop
  | .ok _ => True
  | .error e => e.code = .invalidLoad ∨ e.code = .divisionByZero
  | .panic => False

theorem runSafe_of_stepSafe {len pc : ℕ} {o : Outcome} (h : StepSafe len pc (.done o)) :
    RunSafe o := by
  cases o <;> exact h

section Run

variable {insns : List BPFInstruction} (hv : Validated insns) (input : Input)
include hv

theorem execInstruction_safe_at (pc : ℕ) (hpc : pc < insns.length) (m : Machine) :
    StepSafe insns.length pc (execInstruction input pc m insns[pc]) := by
  apply execInstruction_safe (hv.checked pc hpc)
  intro hk ha
  by_contra hend
  rcases hv.lastRet pc hpc (by omega) with h | h
  · exact hk h
  · exact ha h

/-- The run lemma: from any instruction, with the fuel `Exec` gives it, the
loop ends in a safe outcome. The induction is on the fuel, the invariant
`len ≤ pc + fuel` that makes it sufficient. -/
theorem execFrom_safe :
    ∀ (fuel pc : ℕ) (m : Machine), pc < insns.length → insns.length ≤ pc + fuel →
      RunSafe (execFrom input insns fuel pc m)
  | 0, _, _, hpc, hfuel => absurd hfuel (by omega)
  | fuel + 1, pc, m, hpc, hfuel => by
    have hstep := execInstruction_safe_at hv input pc hpc m
    simp only [execFrom, List.getElem?_eq_getElem hpc]
    split
    · rename_i skip m' hnext
      rw [hnext] at hstep
      exact execFrom_safe fuel _ m' hstep (by omega)
    · rename_i o hdone
      rw [hdone] at hstep
      exact runSafe_of_stepSafe hstep

/-- The instructions `execFrom` executes, in order: the loop of `Exec`
recording its `pc` at each iteration. -/
def trace (input : Input) (insns : List BPFInstruction) : ℕ → ℕ → Machine → List ℕ
  | 0, _, _ => []
  | fuel + 1, pc, m =>
    match insns[pc]? with
    | none => []
    | some i =>
      match execInstruction input pc m i with
      | .next skip m' => pc :: trace input insns fuel (pc + skip + 1) m'
      | .done _ => [pc]

/-- Every executed `pc` lies in `[pc, len)`, they strictly increase, and there
are at most `len - pc` of them. -/
theorem trace_bounds :
    ∀ (fuel pc : ℕ) (m : Machine),
      (∀ q ∈ trace input insns fuel pc m, pc ≤ q ∧ q < insns.length) ∧
      (trace input insns fuel pc m).Pairwise (· < ·) ∧
      (trace input insns fuel pc m).length ≤ insns.length - pc
  | 0, _, _ => by simp [trace]
  | fuel + 1, pc, m => by
    by_cases hpc : pc < insns.length
    · have hstep := execInstruction_safe_at hv input pc hpc m
      simp only [trace, List.getElem?_eq_getElem hpc]
      split
      · rename_i skip m' hnext
        rw [hnext] at hstep
        obtain ⟨hmem, hpw, hlen⟩ := trace_bounds fuel (pc + skip + 1) m'
        refine ⟨?_, ?_, ?_⟩
        · intro q hq
          rcases List.mem_cons.mp hq with rfl | hq
          · exact ⟨le_rfl, hpc⟩
          · have := hmem q hq
            omega
        · exact List.pairwise_cons.mpr ⟨fun q hq => by have := hmem q hq; omega, hpw⟩
        · simp only [List.length_cons]
          change (trace input insns fuel (pc + skip + 1) m').length ≤ _ at hlen
          have hstep' : pc + skip + 1 < insns.length := hstep
          omega
      · simp
        omega
    · simp [trace, List.getElem?_eq_none (Nat.le_of_not_lt hpc)]

end Run

/-- Validated BPF programs run safely and terminate: `Exec` ends with a
return value, an `InvalidLoad` or a `DivisionByZero`, never with another
error or a panic, after executing at most `Length()` instructions whose `pc`s
strictly increase and lie in the program. -/
theorem exec_safe (insns : List BPFInstruction) (p : Program) (hp : compile insns = .ok p)
    (input : Input) :
    ((∃ v, exec p input = .ok v) ∨
      (∃ pc, exec p input = .error ⟨.invalidLoad, pc⟩) ∨
      (∃ pc, exec p input = .error ⟨.divisionByZero, pc⟩)) ∧
    (∀ q ∈ trace input p.instructions p.length 0 Machine.init, q < p.length) ∧
    (trace input p.instructions p.length 0 Machine.init).Pairwise (· < ·) ∧
    (trace input p.instructions p.length 0 Machine.init).length ≤ p.length := by
  obtain ⟨rfl, hv⟩ := compile_validated hp
  have hrun : RunSafe (exec p input) :=
    execFrom_safe hv input _ 0 _ hv.nonempty (by simp)
  obtain ⟨hmem, hpw, hlen⟩ := trace_bounds hv input p.length 0 Machine.init
  refine ⟨?_, fun q hq => (hmem q hq).2, hpw, by simpa [Program.length] using hlen⟩
  rcases hexec : exec p input with v | ⟨code, pc⟩ | _ <;> rw [hexec] at hrun
  · exact .inl ⟨v, rfl⟩
  · rcases hrun with rfl | rfl
    · exact .inr (.inl ⟨pc, rfl⟩)
    · exact .inr (.inr ⟨pc, rfl⟩)
  · exact hrun.elim

/-- A program that loads the syscall number, tests it and returns. -/
def exampleFilter : List BPFInstruction :=
  [stmt (ld ||| abs ||| w) 0, jump (jmp ||| jeq ||| k) 39 0 1, stmt (ret ||| k) 0,
    stmt (ret ||| k) 0x7fff0000]

theorem exec_safe_exampleFilter :
    compile exampleFilter = .ok ⟨exampleFilter⟩ ∧
    (let input := inputBytes [39, 0, 0, 0] .littleEndian
     ((∃ v, exec ⟨exampleFilter⟩ input = .ok v) ∨
      (∃ pc, exec ⟨exampleFilter⟩ input = .error ⟨.invalidLoad, pc⟩) ∨
      (∃ pc, exec ⟨exampleFilter⟩ input = .error ⟨.divisionByZero, pc⟩)) ∧
     (∀ q ∈ trace input exampleFilter 4 0 Machine.init, q < 4) ∧
     (trace input exampleFilter 4 0 Machine.init).Pairwise (· < ·) ∧
     (trace input exampleFilter 4 0 Machine.init).length ≤ 4) :=
  have hp : compile exampleFilter = .ok ⟨exampleFilter⟩ := by decide
  ⟨hp, exec_safe exampleFilter ⟨exampleFilter⟩ hp _⟩

end ContainerFS.Bpf
