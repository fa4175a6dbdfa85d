import ContainerFS.Bpf.Instruction

/-!
`ProgramBuilder`, which assembles a BPF program whose jumps name labels. A
jump to a label is emitted with a placeholder in its offset field
(`labelTarget` in `jt` or `jf`, `labelDirectTarget` in the `K` of a `Ja`) and
recorded as a source of the label; `AddLabel` places the label at the current
end of the program, and `Instructions` patches every source with the forward
offset to its label.

Label names are any type with decidable equality. The Go map from names to
labels is an association list in order of first use; on success the patched
program does not depend on the order in which `resolveLabels` visits the map.
On an error the Go method also returns the partly patched instructions; the
model returns the error only.
-/

namespace ContainerFS.Bpf

/-- `math.MaxUint8`: the placeholder of a conditional jump's offset. -/
def labelTarget : UInt8 := 255

/-- `math.MaxUint32`: the placeholder of a direct jump's offset. -/
def labelDirectTarget : UInt32 := 0xffffffff

/-- Which field of the jump at a source line holds the label's offset. -/
inductive JmpType where
  | jDirect
  | jTrue
  | jFalse
  deriving DecidableEq, Repr

structure Source where
  line : ℕ
  jt : JmpType
  deriving DecidableEq, Repr

/-- `label`; the target `-1` of a label not yet placed is `none`. -/
structure Label where
  sources : List Source
  target : Option ℕ
  deriving DecidableEq, Repr

structure ProgramBuilder (α : Type) where
  labels : List (α × Label)
  instructions : List BPFInstruction

/-- The errors of `AddLabel` and `Instructions`, with the data their messages
print. -/
inductive BuilderError (α : Type) where
  /-- "Adding a label that hasn't been used is not allowed: %v" -/
  | labelNotUsed (name : α)
  /-- "label %q target already set: %v" -/
  | targetAlreadySet (name : α) (target : ℕ)
  /-- "label target not set: %v" -/
  | targetNotSet (name : α)
  /-- "target is beyond end of ProgramBuilder" -/
  | targetBeyondEnd
  /-- "cannot jump backwards" -/
  | jumpBackwards
  /-- "jump offset to label '%v' is too large: %v, inst: %v, lineno: %v" -/
  | offsetTooLarge (name : α) (offset : ℕ) (inst : BPFInstruction) (line : ℕ)
  /-- "jump target is not a label" -/
  | notALabel
  /-- The Go index expression `b.instructions[s.line]` out of range, a
  runtime panic. -/
  | lineOutOfRange
  deriving DecidableEq, Repr

namespace ProgramBuilder

variable {α : Type} [DecidableEq α]

def new : ProgramBuilder α := ⟨[], []⟩

def addStmt (b : ProgramBuilder α) (code : UInt16) (k : UInt32) : ProgramBuilder α :=
  { b with instructions := b.instructions ++ [stmt code k] }

def addJump (b : ProgramBuilder α) (code : UInt16) (k : UInt32) (jt jf : UInt8) :
    ProgramBuilder α :=
  { b with instructions := b.instructions ++ [jump code k jt jf] }

/-- The labels with the entry of `name` replaced. -/
def setLabel (labels : List (α × Label)) (name : α) (l : Label) : List (α × Label) :=
  labels.map fun e => if e.1 = name then (name, l) else e

/-- Records that the jump about to be emitted refers to `name`. -/
def addLabelSource (b : ProgramBuilder α) (name : α) (t : JmpType) : ProgramBuilder α :=
  let src : Source := ⟨b.instructions.length, t⟩
  match b.labels.lookup name with
  | none => { b with labels := b.labels ++ [(name, ⟨[src], none⟩)] }
  | some l => { b with labels := setLabel b.labels name { l with sources := l.sources ++ [src] } }

def addDirectJumpLabel (b : ProgramBuilder α) (name : α) : ProgramBuilder α :=
  (b.addLabelSource name .jDirect).addJump (jmp ||| ja) labelDirectTarget 0 0

def addJumpTrueLabel (b : ProgramBuilder α) (code : UInt16) (k : UInt32) (jtLabel : α)
    (jf : UInt8) : ProgramBuilder α :=
  (b.addLabelSource jtLabel .jTrue).addJump code k labelTarget jf

def addJumpFalseLabel (b : ProgramBuilder α) (code : UInt16) (k : UInt32) (jt : UInt8)
    (jfLabel : α) : ProgramBuilder α :=
  (b.addLabelSource jfLabel .jFalse).addJump code k jt labelTarget

def addJumpLabels (b : ProgramBuilder α) (code : UInt16) (k : UInt32) (jtLabel jfLabel : α) :
    ProgramBuilder α :=
  ((b.addLabelSource jtLabel .jTrue).addLabelSource jfLabel .jFalse).addJump code k
    labelTarget labelTarget

/-- `AddLabel`: places `name` at the next instruction. -/
def addLabel (b : ProgramBuilder α) (name : α) : Except (BuilderError α) (ProgramBuilder α) :=
  match b.labels.lookup name with
  | none => .error (.labelNotUsed name)
  | some l =>
    match l.target with
    | some t => .error (.targetAlreadySet name t)
    | none =>
      .ok { b with labels := setLabel b.labels name { l with target := some b.instructions.length } }

omit [DecidableEq α] in
@[simp]
theorem instructions_addStmt (b : ProgramBuilder α) (code : UInt16) (k : UInt32) :
    (b.addStmt code k).instructions = b.instructions ++ [stmt code k] := rfl

omit [DecidableEq α] in
@[simp]
theorem instructions_addJump (b : ProgramBuilder α) (code : UInt16) (k : UInt32) (jt jf : UInt8) :
    (b.addJump code k jt jf).instructions = b.instructions ++ [jump code k jt jf] := rfl

omit [DecidableEq α] in
@[simp]
theorem labels_addStmt (b : ProgramBuilder α) (code : UInt16) (k : UInt32) :
    (b.addStmt code k).labels = b.labels := rfl

omit [DecidableEq α] in
@[simp]
theorem labels_addJump (b : ProgramBuilder α) (code : UInt16) (k : UInt32) (jt jf : UInt8) :
    (b.addJump code k jt jf).labels = b.labels := rfl

@[simp]
theorem instructions_addLabelSource (b : ProgramBuilder α) (name : α) (t : JmpType) :
    (b.addLabelSource name t).instructions = b.instructions := by
  unfold addLabelSource
  cases b.labels.lookup name <;> rfl

theorem instructions_of_addLabel {b b' : ProgramBuilder α} {name : α}
    (h : b.addLabel name = .ok b') : b'.instructions = b.instructions := by
  unfold addLabel at h
  cases hl : b.labels.lookup name with
  | none => simp only [hl] at h; cases h
  | some l =>
    simp only [hl] at h
    cases htarget : l.target with
    | some t => simp only [htarget] at h; cases h
    | none => simp only [htarget] at h; cases h; rfl

/-- The body of the loop over a label's sources: patch the jump at `s.line`
with the offset from it to `target`. -/
def resolveSource (name : α) (target : ℕ) (insns : List BPFInstruction) (s : Source) :
    Except (BuilderError α) (List BPFInstruction) :=
  match insns[s.line]? with
  | none => .error .lineOutOfRange
  | some inst =>
    if target ≤ s.line then .error .jumpBackwards
    else
      let offset := target - s.line - 1
      match s.jt with
      | .jDirect =>
        if labelDirectTarget.toNat < offset then .error (.offsetTooLarge name offset inst s.line)
        else if inst.k ≠ labelDirectTarget then .error .notALabel
        else .ok (insns.set s.line { inst with k := offset.toUInt32 })
      | .jTrue =>
        if labelTarget.toNat < offset then .error (.offsetTooLarge name offset inst s.line)
        else if inst.jumpIfTrue ≠ labelTarget then .error .notALabel
        else .ok (insns.set s.line { inst with jumpIfTrue := offset.toUInt8 })
      | .jFalse =>
        if labelTarget.toNat < offset then .error (.offsetTooLarge name offset inst s.line)
        else if inst.jumpIfFalse ≠ labelTarget then .error .notALabel
        else .ok (insns.set s.line { inst with jumpIfFalse := offset.toUInt8 })

def resolveSources (name : α) (target : ℕ) :
    List BPFInstruction → List Source → Except (BuilderError α) (List BPFInstruction)
  | insns, [] => .ok insns
  | insns, s :: rest => do
    let insns' ← resolveSource name target insns s
    resolveSources name target insns' rest

/-- The loop of `resolveLabels` over the labels. -/
def resolveLabelList :
    List BPFInstruction → List (α × Label) → Except (BuilderError α) (List BPFInstruction)
  | insns, [] => .ok insns
  | insns, (name, l) :: rest =>
    match l.target with
    | none => .error (.targetNotSet name)
    | some target =>
      if insns.length ≤ target then .error .targetBeyondEnd
      else do
        let insns' ← resolveSources name target insns l.sources
        resolveLabelList insns' rest

def resolveLabels (b : ProgramBuilder α) : Except (BuilderError α) (List BPFInstruction) :=
  resolveLabelList b.instructions b.labels

/-- `Instructions`: the program with every label resolved. -/
def resolvedInstructions (b : ProgramBuilder α) : Except (BuilderError α) (List BPFInstruction) :=
  b.resolveLabels

end ProgramBuilder

/-- A call a client makes on a `ProgramBuilder` before `Instructions`. -/
inductive Call (α : Type) where
  | addStmt (code : UInt16) (k : UInt32)
  | addJump (code : UInt16) (k : UInt32) (jt jf : UInt8)
  | addDirectJumpLabel (name : α)
  | addJumpTrueLabel (code : UInt16) (k : UInt32) (jtLabel : α) (jf : UInt8)
  | addJumpFalseLabel (code : UInt16) (k : UInt32) (jt : UInt8) (jfLabel : α)
  | addJumpLabels (code : UInt16) (k : UInt32) (jtLabel jfLabel : α)
  | addLabel (name : α)
  deriving DecidableEq, Repr

namespace ProgramBuilder

variable {α : Type} [DecidableEq α]

/-- One call. `AddLabel` hands its error to the caller and leaves the builder
as it was. -/
def call (b : ProgramBuilder α) : Call α → ProgramBuilder α
  | .addStmt code k => b.addStmt code k
  | .addJump code k jt jf => b.addJump code k jt jf
  | .addDirectJumpLabel name => b.addDirectJumpLabel name
  | .addJumpTrueLabel code k jtLabel jf => b.addJumpTrueLabel code k jtLabel jf
  | .addJumpFalseLabel code k jt jfLabel => b.addJumpFalseLabel code k jt jfLabel
  | .addJumpLabels code k jtLabel jfLabel => b.addJumpLabels code k jtLabel jfLabel
  | .addLabel name =>
    match b.addLabel name with
    | .ok b' => b'
    | .error _ => b

/-- The builder after a sequence of calls on `NewProgramBuilder()`. -/
def build (calls : List (Call α)) : ProgramBuilder α := calls.foldl call new

end ProgramBuilder

end ContainerFS.Bpf
