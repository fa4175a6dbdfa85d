import ContainerFS.Bpf.Classic
import ContainerFS.Bpf.ProgramBuilder
import Mathlib.Data.List.Sort
import Mathlib.Data.List.Dedup

/-!
`BuildProgram` of `pkg/seccomp`, which compiles rule sets into a classic BPF
filter over `seccomp_data`. The filter checks the architecture, loads the
syscall number and searches a balanced binary tree of the syscall numbers the
rule sets name; at a match it tries the rule sets in order, each guarded by
an optional check of the instruction pointer (`Vsyscall`) and by argument
checks, and falls back to the default action.

The decision a filter is meant to take is `decision`: the action of the first
rule set that names the syscall, whose `Vsyscall` condition holds and one of
whose rules matches the arguments.
-/

namespace ContainerFS.Seccomp

open ContainerFS.Bpf

/-- A slot of a `Rule`, an `interface{}`: nil, `AllowAny`, `AllowValue`, or a
value of another dynamic type. -/
inductive ArgMatcher where
  | nil
  | allowAny
  | allowValue (v : UInt64)
  | other (typeName : String)
  deriving DecidableEq, Repr

/-- `Rule`, a `[6]interface{}`: one matcher per syscall argument. -/
abbrev Rule := Vector ArgMatcher 6

/-- `SyscallRules`, a map from syscall numbers; its keys are distinct. -/
abbrev SyscallRules := List (ℕ × List Rule)

structure RuleSet where
  rules : SyscallRules
  action : UInt32
  vsyscall : Bool
  deriving DecidableEq, Repr

/-- The label names of `BuildProgram`, one constructor per format string. -/
inductive LabelName where
  /-- `defaultLabel`, "default_action" -/
  | defaultAction
  /-- "index_%v" -/
  | index (sysno : ℕ)
  /-- "checkArgs_%v" -/
  | checkArgs (sysno : ℕ)
  /-- "vsyscallViolation_%v_%v" -/
  | vsyscallViolation (ruleSetIdx sysno : ℕ)
  /-- "ruleViolation_%v_%v_%v" -/
  | ruleViolation (ruleSetIdx sysno ruleIdx : ℕ)
  deriving DecidableEq, Repr

inductive BuildError where
  | builder (e : BuilderError LabelName)
  /-- "unreachable action for %v: 0x%x (rule set %d)" -/
  | unreachableAction (sysno : ℕ) (action : UInt32) (ruleSetIdx : ℕ)
  /-- "unknown syscall rule type: %v" -/
  | unknownRuleType (typeName : String)
  /-- `createBST` indexes an empty slice when no rule set names a syscall: a
  Go runtime panic. -/
  | emptyIndex
  deriving DecidableEq, Repr

def seccompDataOffsetNR : UInt32 := 0
def seccompDataOffsetArch : UInt32 := 4
def seccompDataOffsetIPLow : UInt32 := 8
def seccompDataOffsetIPHigh : UInt32 := 12
def seccompDataOffsetArgs : UInt32 := 16

def seccompDataOffsetArgLow (i : ℕ) : UInt32 := seccompDataOffsetArgs + (i * 8).toUInt32

def seccompDataOffsetArgHigh (i : ℕ) : UInt32 := seccompDataOffsetArgLow i + 4

def skipOneInst : UInt8 := 1

def auditArchX86_64 : UInt32 := 0xc000003e

def seccompRetKillProcess : UInt32 := 0x80000000
def seccompRetTrap : UInt32 := 0x00030000
def seccompRetErrno : UInt32 := 0x00050000
def seccompRetAllow : UInt32 := 0x7fff0000

/-! ### The balanced search tree -/

/-- `node`, with a nil pointer as `nil`. -/
inductive Node where
  | nil
  | node (value : ℕ) (left right : Node)
  deriving DecidableEq, Repr

def Node.label : Node → LabelName
  | .nil => .defaultAction
  | .node v _ _ => .index v

/-- `createBST` on a non-empty sorted slice, with `fuel` bounding the depth of
the recursion; the slice's length is enough. -/
def createBST : ℕ → List ℕ → Node
  | 0, _ => .nil
  | fuel + 1, syscalls =>
    let i := syscalls.length / 2
    .node (syscalls.getD i 0)
      (if 0 < i then createBST fuel (syscalls.take i) else .nil)
      (if i + 1 < syscalls.length then createBST fuel (syscalls.drop (i + 1)) else .nil)

/-! ### Emitting the program -/

/-- The builder of `BuildProgram`, with its errors. -/
abbrev Build := StateT (ProgramBuilder LabelName) (Except BuildError)

def emit (f : ProgramBuilder LabelName → ProgramBuilder LabelName) : Build Unit :=
  modify f

def addLabel (name : LabelName) : Build Unit := do
  match (← get).addLabel name with
  | .ok b => set b
  | .error e => throw (.builder e)

/-- The argument checks of one rule, from slot `i` on; the result says
whether a check jumps to the rule's violation label. -/
def addArgChecks (ruleSetIdx sysno ruleIdx : ℕ) : ℕ → List ArgMatcher → Build Bool
  | _, [] => pure false
  | i, arg :: rest => do
    let labelled ← match arg with
      | .nil | .allowAny => pure false
      | .allowValue a => do
        let high := (a >>> 32).toUInt32
        let low := a.toUInt32
        emit (·.addStmt (ld ||| abs ||| w) (seccompDataOffsetArgLow i))
        emit (·.addJumpFalseLabel (jmp ||| jeq ||| k) low 0
          (.ruleViolation ruleSetIdx sysno ruleIdx))
        emit (·.addStmt (ld ||| abs ||| w) (seccompDataOffsetArgHigh i))
        emit (·.addJumpFalseLabel (jmp ||| jeq ||| k) high 0
          (.ruleViolation ruleSetIdx sysno ruleIdx))
        pure true
      | .other t => throw (.unknownRuleType t)
    let labelledRest ← addArgChecks ruleSetIdx sysno ruleIdx (i + 1) rest
    pure (labelled || labelledRest)

def addRuleChecks (action : UInt32) (ruleSetIdx sysno : ℕ) : ℕ → List Rule → Build Unit
  | _, [] => pure ()
  | ruleIdx, rule :: rest => do
    let labelled ← addArgChecks ruleSetIdx sysno ruleIdx 0 rule.toList
    -- Matched, emit the given action.
    emit (·.addStmt (ret ||| k) action)
    if labelled then addLabel (.ruleViolation ruleSetIdx sysno ruleIdx)
    addRuleChecks action ruleSetIdx sysno (ruleIdx + 1) rest

def addSyscallArgsCheck (rules : List Rule) (action : UInt32) (ruleSetIdx sysno : ℕ) :
    Build Unit :=
  addRuleChecks action ruleSetIdx sysno 0 rules

/-- The loop of `buildBSTProgram` over the rule sets at `sysno`; `emitted`
records that a rule set without rules has returned its action. -/
def addRuleSets (sysno : ℕ) : Bool → ℕ → List RuleSet → Build Bool
  | emitted, _, [] => pure emitted
  | emitted, ruleSetIdx, rs :: rest => do
    match rs.rules.lookup sysno with
    | none => addRuleSets sysno emitted (ruleSetIdx + 1) rest
    | some rules =>
      if emitted then throw (.unreachableAction sysno rs.action ruleSetIdx)
      if rs.vsyscall then
        emit (·.addStmt (ld ||| abs ||| w) seccompDataOffsetIPHigh)
        emit (·.addJumpFalseLabel (jmp ||| jset ||| k) 0x80000000 0
          (.vsyscallViolation ruleSetIdx sysno))
      let blanket := rules.isEmpty
      if blanket then emit (·.addStmt (ret ||| k) rs.action)
      else addSyscallArgsCheck rules rs.action ruleSetIdx sysno
      if rs.vsyscall then addLabel (.vsyscallViolation ruleSetIdx sysno)
      addRuleSets sysno (emitted || blanket) (ruleSetIdx + 1) rest

/-- `buildBSTProgram` at a node with value `sysno`; `isRoot` is `n.root`. -/
def buildBSTProgram (isRoot : Bool) (sysno : ℕ) (left right : Node) (rules : List RuleSet) :
    Build Unit := do
  if !isRoot then addLabel (.index sysno)
  emit (·.addJumpTrueLabel (jmp ||| jeq ||| k) sysno.toUInt32 (.checkArgs sysno) 0)
  if left = .nil ∧ right = .nil then emit (·.addDirectJumpLabel .defaultAction)
  else
    emit (·.addJump (jmp ||| jgt ||| k) sysno.toUInt32 0 skipOneInst)
    emit (·.addDirectJumpLabel right.label)
    emit (·.addDirectJumpLabel left.label)
  addLabel (.checkArgs sysno)
  let emitted ← addRuleSets sysno false 0 rules
  if !emitted then emit (·.addDirectJumpLabel .defaultAction)

/-- `(*node).traverse` with `buildBSTProgram`: the tree in pre-order. -/
def traverse (rules : List RuleSet) : Bool → Node → Build Unit
  | _, .nil => pure ()
  | isRoot, .node v l r => do
    buildBSTProgram isRoot v l r rules
    traverse rules false l
    traverse rules false r

/-- The syscall numbers the rule sets name, without repetition, in increasing
order. -/
def requiredSyscalls (rules : List RuleSet) : List ℕ :=
  ((rules.flatMap fun rs => rs.rules.map Prod.fst).dedup).insertionSort (· ≤ ·)

def buildIndex (rules : List RuleSet) : Build Unit := do
  let syscalls := requiredSyscalls rules
  if syscalls = [] then throw .emptyIndex
  let root := createBST syscalls.length syscalls
  emit (·.addStmt (ld ||| abs ||| w) seccompDataOffsetNR)
  traverse rules true root

def buildProgram (rules : List RuleSet) (defaultAction : UInt32) :
    Except BuildError (List BPFInstruction) := do
  let body : Build Unit := do
    emit (·.addStmt (ld ||| abs ||| w) seccompDataOffsetArch)
    emit (·.addJump (jmp ||| jeq ||| k) auditArchX86_64 skipOneInst 0)
    emit (·.addDirectJumpLabel .defaultAction)
    buildIndex rules
    addLabel .defaultAction
    emit (·.addStmt (ret ||| k) defaultAction)
  let ((), b) ← body.run ProgramBuilder.new
  match b.resolvedInstructions with
  | .ok insns => pure insns
  | .error e => throw (.builder e)

/-! ### What the filter is meant to decide -/

/-- `seccomp_data`: the syscall number, the architecture, the instruction
pointer and the six arguments. -/
structure SeccompData where
  nr : UInt32
  arch : UInt32
  instructionPointer : UInt64
  args : Vector UInt64 6
  deriving DecidableEq, Repr

def le32 (v : UInt32) : List UInt8 :=
  [v.toUInt8, (v >>> 8).toUInt8, (v >>> 16).toUInt8, (v >>> 24).toUInt8]

def le64 (v : UInt64) : List UInt8 := le32 v.toUInt32 ++ le32 (v >>> 32).toUInt32

/-- The 64 bytes of `seccomp_data` in little-endian order. -/
def SeccompData.bytes (d : SeccompData) : List UInt8 :=
  le32 d.nr ++ le32 d.arch ++ le64 d.instructionPointer ++ d.args.toList.flatMap le64

def SeccompData.asInput (d : SeccompData) : Input := inputBytes d.bytes .littleEndian

/-- A rule matches when each of its `AllowValue` slots equals its argument. -/
def ruleMatches (args : Vector UInt64 6) (r : Rule) : Bool :=
  (List.finRange 6).all fun i =>
    match r[i] with
    | .allowValue v => args[i] == v
    | _ => true

/-- A rule set takes the call when it names the syscall, the call comes from
the vsyscall page (bit 63 of the instruction pointer) if it asks for that,
and it has no rules or one of them matches. -/
def RuleSet.qualifies (d : SeccompData) (rs : RuleSet) : Bool :=
  match rs.rules.lookup d.nr.toNat with
  | none => false
  | some rules =>
    (!rs.vsyscall || d.instructionPointer >>> 63 == 1) &&
      (rules.isEmpty || rules.any (ruleMatches d.args))

def decision (rules : List RuleSet) (defaultAction : UInt32) (d : SeccompData) : UInt32 :=
  if d.arch ≠ auditArchX86_64 then defaultAction
  else
    match rules.find? (·.qualifies d) with
    | some rs => rs.action
    | none => defaultAction

/-- Syscall 1 is allowed from the vsyscall page only, syscall 0 always. -/
def vsyscallRules : List RuleSet :=
  [⟨[(1, [])], seccompRetAllow, true⟩, ⟨[(0, [])], seccompRetAllow, false⟩]

/-- Syscall 1 made with instruction pointer 0, outside the vsyscall page. -/
def plainCall : SeccompData := ⟨1, auditArchX86_64, 0, Vector.replicate 6 0⟩

/-- When the vsyscall check of a rule set without rules fails, no jump to the
default action follows it: control falls into the code of the next node of
the tree with A holding the instruction pointer's high word (0), which the
node for syscall 0 takes for its own syscall number. -/
theorem buildProgram_vsyscallRules :
    ∃ insns, buildProgram vsyscallRules seccompRetKillProcess = .ok insns ∧
      compile insns = .ok ⟨insns⟩ ∧
      exec ⟨insns⟩ plainCall.asInput = .ok seccompRetAllow ∧
      decision vsyscallRules seccompRetKillProcess plainCall = seccompRetKillProcess := by
  refine ⟨_, rfl, ?_, ?_, ?_⟩ <;> decide

end ContainerFS.Seccomp
