import ContainerFS.Bpf.ProgramBuilder
import Mathlib.Data.List.Induction
import Mathlib.Data.List.Nodup

/-!
What `Instructions` computes from the calls made on a `ProgramBuilder`.

The calls describe a program directly: every call but `AddLabel` emits one
instruction, each label reference names a field of that instruction, and a
label is placed by the first `AddLabel` of its name that follows a reference
to it (an `AddLabel` before any reference, or a second one, fails and changes
nothing). `resolvedProgram` is that program with every reference replaced by
the forward offset `target - line - 1` to its label, and `Resolvable` says
when the builder can produce it: every referenced label is placed after all
of its references and before the end of the program, and every offset fits
its field, 8 bits for a conditional jump and 32 bits for a direct one.

`resolvedInstructions_build` shows that `Instructions` succeeds exactly on resolvable
calls and then returns `resolvedProgram`, in whatever order the label map is
visited. Two invariants carry it. While the calls are made, the builder's
label map holds, for each referenced name, its references in order and its
placement (`represents_build`), and its instructions are the resolved program
with every referenced field still at its placeholder. While the labels are
resolved, the instructions are the resolved program with the references not
yet visited masked back to their placeholders (`maskAll`); no two references
name the same field of the same line, so each patch meets its placeholder.
-/

namespace ContainerFS.Bpf

open ProgramBuilder

/-! ### Reference fields -/

namespace JmpType

/-- The largest offset the field of a reference holds; also its placeholder. -/
def bound : JmpType → ℕ
  | .jDirect => labelDirectTarget.toNat
  | .jTrue | .jFalse => labelTarget.toNat

/-- Writes an offset into the field a reference of this type patches. -/
def setField : JmpType → ℕ → BPFInstruction → BPFInstruction
  | .jDirect, n, inst => { inst with k := n.toUInt32 }
  | .jTrue, n, inst => { inst with jumpIfTrue := n.toUInt8 }
  | .jFalse, n, inst => { inst with jumpIfFalse := n.toUInt8 }

end JmpType

/-! ### The program the calls describe -/

namespace Call

variable {α : Type}

/-- The number of instructions a call emits. -/
def width : Call α → ℕ
  | .addLabel _ => 0
  | _ => 1

/-- The label references of a call made when the program has `line`
instructions, in the order the builder records them. -/
def refsAt (line : ℕ) : Call α → List (α × Source)
  | .addDirectJumpLabel name => [(name, ⟨line, .jDirect⟩)]
  | .addJumpTrueLabel _ _ jtLabel _ => [(jtLabel, ⟨line, .jTrue⟩)]
  | .addJumpFalseLabel _ _ _ jfLabel => [(jfLabel, ⟨line, .jFalse⟩)]
  | .addJumpLabels _ _ jtLabel jfLabel => [(jtLabel, ⟨line, .jTrue⟩), (jfLabel, ⟨line, .jFalse⟩)]
  | _ => []

/-- The instructions of a call at `line` in the resolved program: each label
reference holds the offset from the next line to where `place` puts its label. -/
def resolve (place : α → ℕ) (line : ℕ) : Call α → List BPFInstruction
  | .addStmt code k => [stmt code k]
  | .addJump code k jt jf => [jump code k jt jf]
  | .addDirectJumpLabel name => [jump (jmp ||| ja) (place name - line - 1).toUInt32 0 0]
  | .addJumpTrueLabel code k jtLabel jf => [jump code k (place jtLabel - line - 1).toUInt8 jf]
  | .addJumpFalseLabel code k jt jfLabel => [jump code k jt (place jfLabel - line - 1).toUInt8]
  | .addJumpLabels code k jtLabel jfLabel =>
    [jump code k (place jtLabel - line - 1).toUInt8 (place jfLabel - line - 1).toUInt8]
  | .addLabel _ => []

end Call

section Program

variable {α : Type}

/-- The number of instructions the calls emit. -/
def programLength (calls : List (Call α)) : ℕ := (calls.map Call.width).sum

/-- The references of the calls, the first made at `line`. -/
def refsFrom (line : ℕ) : List (Call α) → List (α × Source)
  | [] => []
  | c :: cs => c.refsAt line ++ refsFrom (line + c.width) cs

/-- The instructions of the calls, the first at `line`. -/
def programFrom (place : α → ℕ) (line : ℕ) : List (Call α) → List BPFInstruction
  | [] => []
  | c :: cs => c.resolve place line ++ programFrom place (line + c.width) cs

/-- Every label reference of the calls, with its line and field. -/
def refs (calls : List (Call α)) : List (α × Source) := refsFrom 0 calls

/-- A reference from `s.line` can jump to a label at `target` in a program of
`n` instructions. -/
def Source.Fits (s : Source) (target n : ℕ) : Prop :=
  s.line < target ∧ target < n ∧ target - s.line - 1 ≤ s.jt.bound

instance (s : Source) (target n : ℕ) : Decidable (s.Fits target n) :=
  inferInstanceAs (Decidable (_ ∧ _ ∧ _))

/-! ### Calls one after another -/

theorem Call.length_resolve (place : α → ℕ) (line : ℕ) (c : Call α) :
    (c.resolve place line).length = c.width := by
  cases c <;> rfl

/-- A call's references sit at its own line, and only a call that emits an
instruction has any. -/
theorem Call.mem_refsAt {line : ℕ} {c : Call α} {r : α × Source} (hr : r ∈ c.refsAt line) :
    r.2.line = line ∧ c.width = 1 := by
  cases c <;> simp only [refsAt, List.mem_cons, List.not_mem_nil, or_false] at hr <;>
    rcases hr with rfl | rfl <;> exact ⟨rfl, rfl⟩

@[simp]
theorem programLength_nil : programLength ([] : List (Call α)) = 0 := rfl

@[simp]
theorem programLength_cons (c : Call α) (cs : List (Call α)) :
    programLength (c :: cs) = c.width + programLength cs := by
  simp [programLength]

@[simp]
theorem programLength_append (cs ds : List (Call α)) :
    programLength (cs ++ ds) = programLength cs + programLength ds := by
  simp [programLength]

theorem length_programFrom (place : α → ℕ) (line : ℕ) (cs : List (Call α)) :
    (programFrom place line cs).length = programLength cs := by
  induction cs generalizing line with
  | nil => rfl
  | cons c cs ih => simp [programFrom, ih, Call.length_resolve]

theorem refsFrom_append (line : ℕ) (cs ds : List (Call α)) :
    refsFrom line (cs ++ ds) = refsFrom line cs ++ refsFrom (line + programLength cs) ds := by
  induction cs generalizing line with
  | nil => simp [refsFrom]
  | cons c cs ih => simp [refsFrom, ih, Nat.add_assoc]

theorem programFrom_append (place : α → ℕ) (line : ℕ) (cs ds : List (Call α)) :
    programFrom place line (cs ++ ds) =
      programFrom place line cs ++ programFrom place (line + programLength cs) ds := by
  induction cs generalizing line with
  | nil => simp [programFrom]
  | cons c cs ih => simp [programFrom, ih, Nat.add_assoc]

theorem line_mem_refsFrom {line : ℕ} {cs : List (Call α)} {r : α × Source}
    (hr : r ∈ refsFrom line cs) : line ≤ r.2.line ∧ r.2.line < line + programLength cs := by
  induction cs generalizing line with
  | nil => simp [refsFrom] at hr
  | cons c cs ih =>
    simp only [refsFrom, List.mem_append] at hr
    rcases hr with hc | hrest
    · obtain ⟨hline, hwidth⟩ := Call.mem_refsAt hc
      simp only [programLength_cons, hwidth]
      omega
    · have := ih hrest
      simp only [programLength_cons]
      omega

/-- No two references name the same field of the same line. -/
theorem nodup_refsFrom (line : ℕ) (cs : List (Call α)) :
    ((refsFrom line cs).map Prod.snd).Nodup := by
  induction cs generalizing line with
  | nil => exact List.nodup_nil
  | cons c cs ih =>
    rw [refsFrom, List.map_append, List.nodup_append]
    refine ⟨?_, ih _, ?_⟩
    · -- the two references of `AddJumpLabels` name different fields
      cases c <;> simp [Call.refsAt]
    · intro s hs s' hs' hss'
      obtain ⟨r, hr, rfl⟩ := List.mem_map.mp hs
      obtain ⟨r', hr', rfl⟩ := List.mem_map.mp hs'
      obtain ⟨hline, hwidth⟩ := Call.mem_refsAt hr
      have hlater := (line_mem_refsFrom hr').1
      rw [← hss', hline, hwidth] at hlater
      omega

/-- Each reference's field in the program holds the offset to where `place`
puts its label. -/
theorem Call.resolve_field (place : α → ℕ) {line : ℕ} {c : Call α} {r : α × Source}
    (hr : r ∈ c.refsAt line) :
    ∃ e, c.resolve place line = [e] ∧ r.2.jt.setField (place r.1 - line - 1) e = e := by
  cases c <;> simp only [refsAt, List.mem_cons, List.not_mem_nil, or_false] at hr <;>
    rcases hr with rfl | rfl <;> exact ⟨_, rfl, rfl⟩

theorem programFrom_field (place : α → ℕ) {line : ℕ} {cs : List (Call α)} {r : α × Source}
    (hr : r ∈ refsFrom line cs) :
    ∃ e, (programFrom place line cs)[r.2.line - line]? = some e ∧
      r.2.jt.setField (place r.1 - r.2.line - 1) e = e := by
  induction cs generalizing line with
  | nil => simp [refsFrom] at hr
  | cons c cs ih =>
    simp only [refsFrom, List.mem_append] at hr
    rcases hr with hc | hrest
    · obtain ⟨e, hres, he⟩ := Call.resolve_field place hc
      rw [(Call.mem_refsAt hc).1, Nat.sub_self]
      exact ⟨e, by simp [programFrom, hres], he⟩
    · obtain ⟨e, he, hfield⟩ := ih hrest
      have hlater := (line_mem_refsFrom hrest).1
      have hidx : r.2.line - line = (c.resolve place line).length + (r.2.line - (line + c.width)) := by
        rw [Call.length_resolve]
        omega
      refine ⟨e, ?_, hfield⟩
      rw [programFrom, hidx, List.getElem?_append_right (Nat.le_add_right _ _), Nat.add_sub_cancel_left]
      exact he

end Program

/-! ### Where labels are placed -/

section Placement

variable {α : Type} [DecidableEq α]

/-- The line at which the calls place `name`: that of the first `AddLabel name`
made after a reference to `name`; `seen` says whether one was made before. -/
def placeFrom (name : α) (line : ℕ) (seen : Bool) : List (Call α) → Option ℕ
  | [] => none
  | c :: cs =>
    if c = .addLabel name ∧ seen then some line
    else placeFrom name (line + c.width) (seen || (c.refsAt line).any (·.1 == name)) cs

/-- Where the calls place each label. -/
def placeOf (calls : List (Call α)) (name : α) : Option ℕ := placeFrom name 0 false calls

/-- The program the calls describe, every label reference resolved. -/
def resolvedProgram (calls : List (Call α)) : List BPFInstruction :=
  programFrom (fun name => (placeOf calls name).getD 0) 0 calls

/-- Every reference's label is placed where the reference can jump to it. -/
def Resolvable (calls : List (Call α)) : Prop :=
  ∀ r ∈ refs calls, ∃ target ∈ placeOf calls r.1, r.2.Fits target (programLength calls)

instance (calls : List (Call α)) : Decidable (Resolvable calls) :=
  inferInstanceAs (Decidable (∀ r ∈ refs calls, _))

/-- A placement among the first calls stands; otherwise the rest of the calls
decide, knowing whether the first ones referenced the label. -/
theorem placeFrom_append (name : α) (line : ℕ) (seen : Bool) (cs ds : List (Call α)) :
    placeFrom name line seen (cs ++ ds) =
      (placeFrom name line seen cs).or
        (placeFrom name (line + programLength cs)
          (seen || (refsFrom line cs).any (·.1 == name)) ds) := by
  induction cs generalizing line seen with
  | nil => simp [placeFrom, refsFrom]
  | cons c cs ih =>
    simp only [List.cons_append, placeFrom]
    by_cases hplace : c = .addLabel name ∧ seen = true
    · rw [if_pos hplace, if_pos hplace, Option.some_or]
    · rw [if_neg hplace, if_neg hplace, ih]
      simp [refsFrom, Bool.or_assoc, Nat.add_assoc]

end Placement

/-! ### Resolving the labels -/

section Resolution

variable {α : Type} {name : α} {target : ℕ}

/-- `e` with each field that a reference in `P` names at line `i` set back to
its placeholder. -/
def mask (P : List Source) (i : ℕ) (e : BPFInstruction) : BPFInstruction where
  opCode := e.opCode
  jumpIfTrue := if ⟨i, .jTrue⟩ ∈ P then labelTarget else e.jumpIfTrue
  jumpIfFalse := if ⟨i, .jFalse⟩ ∈ P then labelTarget else e.jumpIfFalse
  k := if ⟨i, .jDirect⟩ ∈ P then labelDirectTarget else e.k

/-- The program `E` with the references in `P` masked. -/
def maskAll (P : List Source) (E : List BPFInstruction) : List BPFInstruction :=
  E.mapIdx (mask P)

theorem mask_congr {P Q : List Source} {i : ℕ} (h : ∀ t, (⟨i, t⟩ : Source) ∈ P ↔ ⟨i, t⟩ ∈ Q)
    (e : BPFInstruction) : mask P i e = mask Q i e := by
  simp only [mask, h]

/-- The mask sees only which references are in `P`. -/
theorem maskAll_congr {P Q : List Source} (h : ∀ s, s ∈ P ↔ s ∈ Q) (E : List BPFInstruction) :
    maskAll P E = maskAll Q E := by
  unfold maskAll
  congr 1
  funext i e
  exact mask_congr (fun t => h ⟨i, t⟩) e

@[simp]
theorem length_maskAll (P : List Source) (E : List BPFInstruction) :
    (maskAll P E).length = E.length := List.length_mapIdx

@[simp]
theorem maskAll_nil (E : List BPFInstruction) : maskAll [] E = E := by
  apply List.ext_getElem (length_maskAll [] E)
  intro i _ _
  simp [maskAll, mask]

/-- References before line `E.length` mask only `E`, those at it only what
follows. -/
theorem maskAll_append {P Q : List Source} {E F : List BPFInstruction}
    (hP : ∀ s ∈ P, s.line < E.length) (hQ : ∀ s ∈ Q, s.line = E.length) (hF : F.length ≤ 1) :
    maskAll (P ++ Q) (E ++ F) = maskAll P E ++ F.map (mask Q E.length) := by
  apply List.ext_getElem (by simp)
  intro i h₁ h₂
  simp only [maskAll, List.getElem_mapIdx, List.getElem_append, List.getElem_map,
    List.length_mapIdx]
  split
  · -- a line of `E`: the references at the new line do not reach it
    refine mask_congr (fun t => ?_) _
    have hne : ∀ s ∈ Q, s ≠ ⟨i, t⟩ := fun s hs h => by
      have := hQ s hs
      rw [h] at this
      dsimp only at this
      omega
    simp only [List.mem_append, or_iff_left_iff_imp]
    exact fun hq => absurd rfl (hne _ hq)
  · -- the new line: the references of `E` end before it
    have hi : i = E.length := by simp at h₁; omega
    subst hi
    simp only [Nat.sub_self]
    refine mask_congr (fun t => ?_) _
    have hne : (⟨E.length, t⟩ : Source) ∉ P := fun h => by
      have := hP _ h
      dsimp only at this
      omega
    simp [hne]

/-- A masked field holds the placeholder that `resolveLabels` checks. -/
theorem setField_bound_mask {s : Source} {P : List Source} (hs : s ∈ P) (e : BPFInstruction) :
    s.jt.setField s.jt.bound (mask P s.line e) = mask P s.line e := by
  obtain ⟨i, t⟩ := s
  cases t <;> simp [JmpType.setField, JmpType.bound, mask, hs]

/-- Patching a masked reference with the offset the program holds there
takes the reference off the mask. -/
theorem setField_mask {s : Source} {P : List Source} {n : ℕ} {e : BPFInstruction} (hs : s ∉ P)
    (hn : s.jt.setField n e = e) : s.jt.setField n (mask (s :: P) s.line e) = mask P s.line e := by
  obtain ⟨i, t⟩ := s
  cases t
  · have hk : n.toUInt32 = e.k := congrArg BPFInstruction.k hn
    simp [JmpType.setField, mask, hs, hk]
  · have hjt : n.toUInt8 = e.jumpIfTrue := congrArg BPFInstruction.jumpIfTrue hn
    simp [JmpType.setField, mask, hs, hjt]
  · have hjf : n.toUInt8 = e.jumpIfFalse := congrArg BPFInstruction.jumpIfFalse hn
    simp [JmpType.setField, mask, hs, hjf]

/-- What a successful patch has checked. -/
theorem resolveSource_ok {insns out : List BPFInstruction} {s : Source}
    (h : resolveSource name target insns s = .ok out) :
    s.line < target ∧ target - s.line - 1 ≤ s.jt.bound ∧ out.length = insns.length := by
  unfold resolveSource at h
  cases hget : insns[s.line]? with
  | none => simp [hget] at h
  | some inst =>
    simp only [hget] at h
    by_cases hback : target ≤ s.line
    · simp [hback] at h
    · rw [if_neg hback] at h
      have hlt : s.line < target := Nat.lt_of_not_le hback
      obtain ⟨line, jt⟩ := s
      cases jt <;> dsimp only at h <;> split_ifs at h with hbig hlabel <;> cases h <;>
        exact ⟨hlt, Nat.le_of_not_lt hbig, List.length_set⟩

/-- A reference in range, before its label, within its field's bound and at a
placeholder is patched with its offset. -/
theorem resolveSource_eq_ok {insns : List BPFInstruction} {s : Source} {inst : BPFInstruction}
    (hget : insns[s.line]? = some inst) (hlt : s.line < target)
    (hfit : target - s.line - 1 ≤ s.jt.bound) (hplace : s.jt.setField s.jt.bound inst = inst) :
    resolveSource name target insns s =
      .ok (insns.set s.line (s.jt.setField (target - s.line - 1) inst)) := by
  unfold resolveSource
  simp only [hget]
  rw [if_neg (Nat.not_le_of_lt hlt)]
  obtain ⟨line, jt⟩ := s
  cases jt <;> dsimp only [JmpType.bound] at hfit
  · have hk : inst.k = labelDirectTarget := (congrArg BPFInstruction.k hplace).symm
    simp only [if_neg (Nat.not_lt_of_le hfit), hk, ne_eq, not_true_eq_false, if_false]
    rfl
  · have hjt : inst.jumpIfTrue = labelTarget := (congrArg BPFInstruction.jumpIfTrue hplace).symm
    simp only [if_neg (Nat.not_lt_of_le hfit), hjt, ne_eq, not_true_eq_false, if_false]
    rfl
  · have hjf : inst.jumpIfFalse = labelTarget := (congrArg BPFInstruction.jumpIfFalse hplace).symm
    simp only [if_neg (Nat.not_lt_of_le hfit), hjf, ne_eq, not_true_eq_false, if_false]
    rfl

/-- The offset the program `E` holds at a reference to a label at `target`. -/
def HoldsOffset (E : List BPFInstruction) (s : Source) (target : ℕ) : Prop :=
  ∃ e, E[s.line]? = some e ∧ s.jt.setField (target - s.line - 1) e = e

/-- One patch takes the first pending reference off the mask. -/
theorem resolveSource_maskAll {E : List BPFInstruction} {s : Source} {P : List Source}
    (hs : s ∉ P) (hlt : s.line < target) (hfit : target - s.line - 1 ≤ s.jt.bound)
    (hE : HoldsOffset E s target) :
    resolveSource name target (maskAll (s :: P) E) s = .ok (maskAll P E) := by
  obtain ⟨e, he, hfield⟩ := hE
  have hget : (maskAll (s :: P) E)[s.line]? = some (mask (s :: P) s.line e) := by
    simp [maskAll, List.getElem?_mapIdx, he]
  rw [resolveSource_eq_ok hget hlt hfit (setField_bound_mask List.mem_cons_self e)]
  congr 1
  apply List.ext_getElem (by simp)
  intro j hj _
  rw [List.getElem_set]
  by_cases hj' : s.line = j
  · subst hj'
    obtain ⟨_, heq⟩ := List.getElem?_eq_some_iff.mp he
    simp [maskAll, heq, setField_mask hs hfield]
  · rw [if_neg hj']
    -- every other line has no reference `s`
    simp only [maskAll, List.getElem_mapIdx]
    refine mask_congr (fun t => ?_) _
    have hne : (⟨j, t⟩ : Source) ≠ s := fun h => hj' (by rw [← h])
    simp [hne]

/-- Patching a label's references in turn takes them all off the mask. -/
theorem resolveSources_maskAll {E : List BPFInstruction} :
    ∀ (ss rest : List Source), (ss ++ rest).Nodup →
      (∀ s ∈ ss, s.line < target ∧ target - s.line - 1 ≤ s.jt.bound ∧ HoldsOffset E s target) →
      resolveSources name target (maskAll (ss ++ rest) E) ss = .ok (maskAll rest E)
  | [], _, _, _ => rfl
  | s :: ss, rest, hnd, hfits => by
    rw [List.cons_append] at hnd ⊢
    obtain ⟨hs, hnd'⟩ := List.nodup_cons.mp hnd
    obtain ⟨hlt, hfit, hE⟩ := hfits s List.mem_cons_self
    rw [resolveSources, resolveSource_maskAll hs hlt hfit hE]
    exact resolveSources_maskAll ss rest hnd' fun s' hs' => hfits s' (List.mem_cons_of_mem _ hs')

/-- The sources of the labels, in the order `resolveLabels` visits them. -/
def allSources (L : List (α × Label)) : List Source := L.flatMap (·.2.sources)

/-- Resolving labels whose references all fit, each field holding the
program's offset, unmasks the whole program. -/
theorem resolveLabelList_maskAll (E : List BPFInstruction) :
    ∀ L : List (α × Label), (allSources L).Nodup →
      (∀ e ∈ L, ∃ target ∈ e.2.target, target < E.length ∧
        ∀ s ∈ e.2.sources, s.line < target ∧ target - s.line - 1 ≤ s.jt.bound ∧
          HoldsOffset E s target) →
      resolveLabelList (maskAll (allSources L) E) L = .ok E
  | [], _, _ => by simp [allSources, resolveLabelList]
  | (name, l) :: L, hnd, hL => by
    obtain ⟨target, htarget, hlen, hsrc⟩ := hL (name, l) List.mem_cons_self
    have hnd' : (l.sources ++ allSources L).Nodup := by simpa [allSources] using hnd
    have hall : allSources ((name, l) :: L) = l.sources ++ allSources L := by simp [allSources]
    rw [hall, resolveLabelList, Option.mem_def.mp htarget]
    dsimp only
    rw [if_neg (by simpa using hlen), resolveSources_maskAll l.sources _ hnd' hsrc]
    exact resolveLabelList_maskAll E L (List.nodup_append.mp hnd').2.1
      fun e he => hL e (List.mem_cons_of_mem _ he)

/-- What a run of patches has checked; the program keeps its length. -/
theorem resolveSources_ok :
    ∀ {insns out : List BPFInstruction} {ss : List Source},
      resolveSources name target insns ss = .ok out →
      (∀ s ∈ ss, s.line < target ∧ target - s.line - 1 ≤ s.jt.bound) ∧ out.length = insns.length
  | insns, out, [], h => by
    cases h
    exact ⟨fun _ h => absurd h List.not_mem_nil, rfl⟩
  | insns, out, s :: ss, h => by
    rw [resolveSources] at h
    cases hs : resolveSource name target insns s with
    | error e => rw [hs] at h; cases h
    | ok insns' =>
      rw [hs] at h
      obtain ⟨hlt, hfit, hlen⟩ := resolveSource_ok hs
      obtain ⟨hrest, hlen'⟩ := resolveSources_ok h
      refine ⟨fun s' hs' => ?_, hlen'.trans hlen⟩
      rcases List.mem_cons.mp hs' with rfl | hs'
      · exact ⟨hlt, hfit⟩
      · exact hrest s' hs'

/-- What `resolveLabels` has checked when it succeeds: every label is placed
before the end and after each of its references, at an offset that fits. -/
theorem resolveLabelList_ok :
    ∀ {insns out : List BPFInstruction} {L : List (α × Label)},
      resolveLabelList insns L = .ok out →
      ∀ e ∈ L, ∃ target ∈ e.2.target, target < insns.length ∧
        ∀ s ∈ e.2.sources, s.line < target ∧ target - s.line - 1 ≤ s.jt.bound
  | _, _, [], _ => fun _ he => absurd he List.not_mem_nil
  | insns, out, (name, l) :: L, h => by
    rw [resolveLabelList] at h
    cases htarget : l.target with
    | none => rw [htarget] at h; cases h
    | some target =>
      rw [htarget] at h
      dsimp only at h
      by_cases hbeyond : insns.length ≤ target
      · rw [if_pos hbeyond] at h; cases h
      · rw [if_neg hbeyond] at h
        cases hs : resolveSources name target insns l.sources with
        | error e => rw [hs] at h; cases h
        | ok insns' =>
          rw [hs] at h
          obtain ⟨hfits, hlen⟩ := resolveSources_ok hs
          intro e he
          rcases List.mem_cons.mp he with rfl | he
          · exact ⟨target, htarget, Nat.lt_of_not_le hbeyond, hfits⟩
          · obtain ⟨t, ht, htlen, htfits⟩ := resolveLabelList_ok h e he
            exact ⟨t, ht, hlen ▸ htlen, htfits⟩

end Resolution

/-! ### The label map while the calls are made -/

section Builder

variable {α : Type} [DecidableEq α]

/-- The references in `R` to `name`, in order. -/
def sourcesIn (R : List (α × Source)) (name : α) : List Source :=
  (R.filter (·.1 == name)).map Prod.snd

theorem mem_sourcesIn {R : List (α × Source)} {name : α} {s : Source} :
    s ∈ sourcesIn R name ↔ (name, s) ∈ R := by
  simp only [sourcesIn, List.mem_map, List.mem_filter, beq_iff_eq]
  constructor
  · rintro ⟨⟨n, s'⟩, ⟨hmem, rfl⟩, rfl⟩
    exact hmem
  · intro h
    exact ⟨(name, s), ⟨h, rfl⟩, rfl⟩

theorem sourcesIn_append_singleton (R : List (α × Source)) (name n : α) (s : Source) :
    sourcesIn (R ++ [(name, s)]) n = if name = n then sourcesIn R n ++ [s] else sourcesIn R n := by
  by_cases h : name = n <;> simp [sourcesIn, h]

theorem lookup_cons_eq_ite {β : Type} (k n : α) (v : β) (es : List (α × β)) :
    ((k, v) :: es).lookup n = if n = k then some v else es.lookup n := by
  rw [List.lookup_cons]
  split <;> simp_all

theorem map_fst_setLabel (labels : List (α × Label)) (name : α) (l : Label) :
    (setLabel labels name l).map Prod.fst = labels.map Prod.fst := by
  simp only [setLabel, List.map_map]
  apply List.map_congr_left
  intro e _
  by_cases h : e.1 = name <;> simp [h]

theorem lookup_setLabel (labels : List (α × Label)) (name n : α) (l : Label) :
    (setLabel labels name l).lookup n =
      if n = name then (labels.lookup name).map fun _ => l else labels.lookup n := by
  induction labels with
  | nil => by_cases h : n = name <;> simp [setLabel, h]
  | cons e labels ih =>
    obtain ⟨m, lm⟩ := e
    simp only [setLabel] at ih
    by_cases hm : m = name
    · subst hm
      by_cases hn : n = m <;> simp [setLabel, lookup_cons_eq_ite, hn, ih]
    · by_cases hn : n = m
      · subst hn
        simp [setLabel, hm]
      · simp [setLabel, lookup_cons_eq_ite, hm, hn, Ne.symm hm, ih]

theorem lookup_of_mem {L : List (α × Label)} (hnd : (L.map Prod.fst).Nodup) {e : α × Label}
    (he : e ∈ L) : L.lookup e.1 = some e.2 := by
  induction L with
  | nil => cases he
  | cons e' L ih =>
    obtain ⟨m, lm⟩ := e'
    rw [List.map_cons, List.nodup_cons] at hnd
    rcases List.mem_cons.mp he with rfl | he
    · simp
    · have hmem : e.1 ∈ L.map Prod.fst := List.mem_map_of_mem he
      have hne : e.1 ≠ m := fun h => hnd.1 (h ▸ hmem)
      simp [lookup_cons_eq_ite, hne, ih hnd.2 he]

theorem mem_of_lookup {L : List (α × Label)} {n : α} {l : Label} (h : L.lookup n = some l) :
    (n, l) ∈ L := by
  obtain ⟨l₁, l₂, rfl, _⟩ := List.lookup_eq_some_iff.mp h
  simp

/-- A label map records the references `R` and the placements `place`: one
entry per referenced name, holding its references in the order they were made
and where it is placed; a name nothing references is placed nowhere. -/
structure Represents (labels : List (α × Label)) (R : List (α × Source))
    (place : α → Option ℕ) : Prop where
  nodup : (labels.map Prod.fst).Nodup
  lookup_eq : ∀ n, labels.lookup n =
    if n ∈ R.map Prod.fst then some ⟨sourcesIn R n, place n⟩ else none
  unplaced : ∀ n, n ∉ R.map Prod.fst → place n = none

namespace Represents

variable {labels : List (α × Label)} {R : List (α × Source)} {place : α → Option ℕ}

theorem entry (h : Represents labels R place) {e : α × Label} (he : e ∈ labels) :
    e.1 ∈ R.map Prod.fst ∧ e.2 = ⟨sourcesIn R e.1, place e.1⟩ := by
  have hlookup := (lookup_of_mem h.nodup he).symm.trans (h.lookup_eq e.1)
  by_cases hn : e.1 ∈ R.map Prod.fst
  · rw [if_pos hn] at hlookup
    exact ⟨hn, Option.some.inj hlookup⟩
  · rw [if_neg hn] at hlookup
    cases hlookup

theorem mem (h : Represents labels R place) {r : α × Source} (hr : r ∈ R) :
    (r.1, (⟨sourcesIn R r.1, place r.1⟩ : Label)) ∈ labels := by
  apply mem_of_lookup
  rw [h.lookup_eq, if_pos (List.mem_map_of_mem hr)]

theorem mem_allSources (h : Represents labels R place) (s : Source) :
    s ∈ allSources labels ↔ s ∈ R.map Prod.snd := by
  simp only [allSources, List.mem_flatMap, List.mem_map]
  constructor
  · rintro ⟨e, he, hs⟩
    rw [(h.entry he).2, mem_sourcesIn] at hs
    exact ⟨(e.1, s), hs, rfl⟩
  · rintro ⟨r, hr, rfl⟩
    exact ⟨_, h.mem hr, mem_sourcesIn.mpr hr⟩

/-- Distinct names have disjoint references, so no field is patched twice. -/
theorem nodup_allSources (h : Represents labels R place) (hR : (R.map Prod.snd).Nodup) :
    (allSources labels).Nodup := by
  have hkeys : labels.Pairwise fun a b => a.1 ≠ b.1 := List.pairwise_map.mp h.nodup
  rw [allSources, List.nodup_flatMap]
  constructor
  · intro e he
    rw [(h.entry he).2]
    exact hR.sublist ((List.filter_sublist).map _)
  · refine hkeys.imp_of_mem fun ha hb hab s hsa hsb => hab ?_
    dsimp only at hsa hsb
    rw [(h.entry ha).2, mem_sourcesIn] at hsa
    rw [(h.entry hb).2, mem_sourcesIn] at hsb
    exact (Prod.mk.inj (List.inj_on_of_nodup_map hR hsa hsb rfl)).1

/-- A new reference to `name` from the next line. -/
theorem addLabelSource (h : Represents labels R place) (b : ProgramBuilder α)
    (hb : b.labels = labels) (name : α) (t : JmpType) :
    Represents (b.addLabelSource name t).labels
      (R ++ [(name, ⟨b.instructions.length, t⟩)]) place := by
  have hkeys : ∀ n, n ∈ (R ++ [(name, (⟨b.instructions.length, t⟩ : Source))]).map Prod.fst ↔
      n ∈ R.map Prod.fst ∨ n = name := by
    simp
  have hunplaced : ∀ n, n ∉ (R ++ [(name, (⟨b.instructions.length, t⟩ : Source))]).map Prod.fst →
      place n = none := fun n hn => h.unplaced n fun hR => hn ((hkeys n).mpr (.inl hR))
  unfold ProgramBuilder.addLabelSource
  rw [hb]
  cases hl : labels.lookup name with
  | none =>
    -- a first reference: a new entry at the end of the map
    have hname : name ∉ R.map Prod.fst := by
      intro hR
      rw [h.lookup_eq, if_pos hR] at hl
      cases hl
    have hempty : sourcesIn R name = [] := by
      rw [List.eq_nil_iff_forall_not_mem]
      intro s hs
      exact hname (List.mem_map_of_mem (f := Prod.fst) (mem_sourcesIn.mp hs))
    have hnot : name ∉ labels.map Prod.fst := by
      intro hmem
      obtain ⟨e, he, hname'⟩ := List.mem_map.mp hmem
      have hne := List.lookup_eq_none_iff.mp hl e he
      simp [hname'] at hne
    refine ⟨?_, fun n => ?_, hunplaced⟩
    · rw [List.map_append, List.nodup_append]
      refine ⟨h.nodup, List.nodup_singleton _, fun a ha c hc hac => hnot ?_⟩
      rw [List.map_cons, List.map_nil, List.mem_singleton] at hc
      rw [hac, hc] at ha
      exact ha
    · rw [List.lookup_append, h.lookup_eq, sourcesIn_append_singleton, lookup_cons_eq_ite,
        List.lookup_nil]
      simp only [hkeys]
      by_cases hn : n = name
      · subst hn
        simp [hname, hempty, h.unplaced n hname]
      · by_cases hR : n ∈ R.map Prod.fst <;> simp [hR, hn, Ne.symm hn]
  | some l =>
    -- a later reference: appended to the entry's sources
    have hname : name ∈ R.map Prod.fst := by
      by_contra hR
      rw [h.lookup_eq, if_neg hR] at hl
      cases hl
    have hl' : l = ⟨sourcesIn R name, place name⟩ := by
      rw [h.lookup_eq, if_pos hname] at hl
      exact (Option.some.inj hl).symm
    refine ⟨by rw [map_fst_setLabel]; exact h.nodup, fun n => ?_, hunplaced⟩
    rw [lookup_setLabel, sourcesIn_append_singleton]
    by_cases hn : n = name
    · subst hn
      simp [hl, hl', hname]
    · by_cases hR : n ∈ R.map Prod.fst <;> simp [hR, hn, Ne.symm hn, h.lookup_eq]

/-- `AddLabel name` when it succeeds: `name` is placed at the next line. -/
theorem addLabel (h : Represents labels R place) (b b' : ProgramBuilder α) (hb : b.labels = labels)
    (name : α) (hok : b.addLabel name = .ok b') :
    name ∈ R.map Prod.fst ∧ place name = none ∧
      Represents b'.labels R
        (fun n => if n = name then some b.instructions.length else place n) := by
  unfold ProgramBuilder.addLabel at hok
  rw [hb] at hok
  cases hl : labels.lookup name with
  | none => simp only [hl] at hok; cases hok
  | some l =>
    simp only [hl] at hok
    cases htarget : l.target with
    | some t => simp only [htarget] at hok; cases hok
    | none =>
      simp only [htarget] at hok
      cases hok
      have hname : name ∈ R.map Prod.fst := by
        by_contra hR
        rw [h.lookup_eq, if_neg hR] at hl
        cases hl
      have hl' : l = ⟨sourcesIn R name, place name⟩ := by
        rw [h.lookup_eq, if_pos hname] at hl
        exact (Option.some.inj hl).symm
      have hplace : place name = none := by rw [← htarget, hl']
      refine ⟨hname, hplace, by rw [map_fst_setLabel]; exact h.nodup, fun n => ?_, fun n hn => ?_⟩
      · rw [lookup_setLabel]
        by_cases hn : n = name
        · subst hn
          simp [hl, hl', hname]
        · simp [hn, h.lookup_eq]
      · have hne : n ≠ name := fun hn' => hn (hn' ▸ hname)
        simp [hne, h.unplaced n hn]

/-- `AddLabel name` when it fails: `name` is unreferenced or already placed. -/
theorem addLabel_error (h : Represents labels R place) (b : ProgramBuilder α)
    (hb : b.labels = labels) (name : α) {err : BuilderError α} (herr : b.addLabel name = .error err) :
    name ∉ R.map Prod.fst ∨ (place name).isSome := by
  unfold ProgramBuilder.addLabel at herr
  rw [hb] at herr
  by_cases hname : name ∈ R.map Prod.fst
  · simp only [h.lookup_eq, if_pos hname] at herr
    cases hplace : place name with
    | none => simp only [hplace] at herr; cases herr
    | some t => exact .inr rfl
  · exact .inl hname

end Represents

end Builder

/-! ### The builder after a sequence of calls -/

section Run

variable {α : Type} [DecidableEq α]

omit [DecidableEq α] in
theorem refs_append_singleton (cs : List (Call α)) (c : Call α) :
    refs (cs ++ [c]) = refs cs ++ c.refsAt (programLength cs) := by
  simp [refs, refsFrom_append, refsFrom]

/-- One more call places `n` if it is an `AddLabel n` after a reference to `n`
and `n` is not placed yet. -/
theorem placeOf_append_singleton (cs : List (Call α)) (c : Call α) (n : α) :
    placeOf (cs ++ [c]) n = (placeOf cs n).or
      (if c = .addLabel n ∧ n ∈ (refs cs).map Prod.fst then some (programLength cs) else none) := by
  have hseen : ((refsFrom 0 cs).any (·.1 == n) = true) ↔ n ∈ (refs cs).map Prod.fst := by
    simp [refs]
  rw [placeOf, placeFrom_append, placeOf]
  by_cases hc : c = .addLabel n ∧ n ∈ (refs cs).map Prod.fst
  · simp [placeFrom, hc.1, hseen.mpr hc.2, if_pos hc]
  · rw [if_neg hc]
    simp only [placeFrom, Bool.false_or, Nat.zero_add]
    rw [if_neg fun h => hc ⟨h.1, hseen.mp h.2⟩]

theorem build_append_singleton (cs : List (Call α)) (c : Call α) :
    build (cs ++ [c]) = (build cs).call c := by
  simp [build, List.foldl_append]

/-- Each call appends its instructions with their label fields at the
placeholders, whatever the labels' placement. -/
theorem instructions_call (b : ProgramBuilder α) (place : α → ℕ) (c : Call α) :
    (b.call c).instructions = b.instructions ++
      (c.resolve place b.instructions.length).map
        (mask ((c.refsAt b.instructions.length).map Prod.snd) b.instructions.length) := by
  cases c with
  | addLabel name =>
    -- `AddLabel` changes only the labels, whether it succeeds or not
    simp only [ProgramBuilder.call, Call.resolve, List.map_nil, List.append_nil]
    cases hok : b.addLabel name with
    | error e => rfl
    | ok b' => exact instructions_of_addLabel hok
  | _ =>
    simp [ProgramBuilder.call, Call.resolve, Call.refsAt, mask, ProgramBuilder.addDirectJumpLabel,
      ProgramBuilder.addJumpTrueLabel, ProgramBuilder.addJumpFalseLabel,
      ProgramBuilder.addJumpLabels, stmt, jump]

theorem length_build (cs : List (Call α)) :
    (build cs).instructions.length = programLength cs := by
  induction cs using List.reverseRecOn with
  | nil => rfl
  | append_singleton cs c ih =>
    rw [build_append_singleton, instructions_call (build cs) (fun _ => 0) c, List.length_append,
      List.length_map, Call.length_resolve, ih, programLength_append]
    simp

/-- The instructions emitted so far are the resolved program with every
reference at its placeholder. -/
theorem instructions_build (place : α → ℕ) (cs : List (Call α)) :
    (build cs).instructions = maskAll ((refs cs).map Prod.snd) (programFrom place 0 cs) := by
  induction cs using List.reverseRecOn with
  | nil => rfl
  | append_singleton cs c ih =>
    have hlen : (programFrom place 0 cs).length = programLength cs := length_programFrom place 0 cs
    rw [build_append_singleton, instructions_call (build cs) place c, length_build, ih,
      refs_append_singleton, programFrom_append, List.map_append, maskAll_append]
    · simp [programFrom, hlen]
    · intro s hs
      obtain ⟨r, hr, rfl⟩ := List.mem_map.mp hs
      have := (line_mem_refsFrom hr).2
      omega
    · intro s hs
      obtain ⟨r, hr, rfl⟩ := List.mem_map.mp hs
      rw [(Call.mem_refsAt hr).1, hlen]
    · simp only [programFrom, List.append_nil, Call.length_resolve]
      cases c <;> simp [Call.width]

/-- One call keeps the label map in step with the references and placements
of the calls. -/
theorem Represents.call {b : ProgramBuilder α} {R : List (α × Source)} {place : α → Option ℕ}
    (h : Represents b.labels R place) (c : Call α) :
    Represents (b.call c).labels (R ++ c.refsAt b.instructions.length)
      (fun n => (place n).or
        (if c = .addLabel n ∧ n ∈ R.map Prod.fst then some b.instructions.length else none)) := by
  cases c with
  | addStmt code k => simpa [ProgramBuilder.call, Call.refsAt] using h
  | addJump code k jt jf => simpa [ProgramBuilder.call, Call.refsAt] using h
  | addDirectJumpLabel name =>
    simpa [ProgramBuilder.call, ProgramBuilder.addDirectJumpLabel, Call.refsAt] using
      h.addLabelSource b rfl name .jDirect
  | addJumpTrueLabel code k jtLabel jf =>
    simpa [ProgramBuilder.call, ProgramBuilder.addJumpTrueLabel, Call.refsAt] using
      h.addLabelSource b rfl jtLabel .jTrue
  | addJumpFalseLabel code k jt jfLabel =>
    simpa [ProgramBuilder.call, ProgramBuilder.addJumpFalseLabel, Call.refsAt] using
      h.addLabelSource b rfl jfLabel .jFalse
  | addJumpLabels code k jtLabel jfLabel =>
    -- two references from the same line, one per field
    have h₁ := h.addLabelSource b rfl jtLabel .jTrue
    have h₂ := h₁.addLabelSource (b.addLabelSource jtLabel .jTrue) rfl jfLabel .jFalse
    simpa [ProgramBuilder.call, ProgramBuilder.addJumpLabels, Call.refsAt] using h₂
  | addLabel name =>
    cases hok : b.addLabel name with
    | ok b' =>
      obtain ⟨hname, hnone, h'⟩ := h.addLabel b b' rfl name hok
      have hplace : (fun n => (place n).or (if Call.addLabel name = .addLabel n ∧
          n ∈ R.map Prod.fst then some b.instructions.length else none)) =
          fun n => if n = name then some b.instructions.length else place n := by
        funext n
        by_cases hn : n = name
        · subst hn
          simp [hnone, hname]
        · simp [hn, Ne.symm hn]
      simpa [ProgramBuilder.call, hok, Call.refsAt, hplace] using h'
    | error err =>
      have hplace : (fun n => (place n).or (if Call.addLabel name = .addLabel n ∧
          n ∈ R.map Prod.fst then some b.instructions.length else none)) = place := by
        funext n
        by_cases hn : n = name
        · subst hn
          rcases h.addLabel_error b rfl n hok with hR | hsome
          · simp [hR]
          · obtain ⟨t, ht⟩ := Option.isSome_iff_exists.mp hsome
            simp [ht]
        · simp [Ne.symm hn]
      simpa [ProgramBuilder.call, hok, Call.refsAt, hplace] using h

/-- The label map of the builder records the references and placements of the
calls made on it. -/
theorem represents_build (cs : List (Call α)) :
    Represents (build cs).labels (refs cs) (placeOf cs) := by
  induction cs using List.reverseRecOn with
  | nil => exact ⟨List.nodup_nil, fun n => by simp [build, ProgramBuilder.new, refs, refsFrom],
      fun _ _ => rfl⟩
  | append_singleton cs c ih =>
    have hplace : placeOf (cs ++ [c]) = fun n => (placeOf cs n).or
        (if c = .addLabel n ∧ n ∈ (refs cs).map Prod.fst then some (build cs).instructions.length
          else none) := by
      funext n
      rw [placeOf_append_singleton, length_build]
    rw [build_append_singleton, refs_append_singleton, ← length_build, hplace]
    exact ih.call c

end Run

/-! ### `Instructions` -/

section Instructions

variable {α : Type} [DecidableEq α]

/-- On resolvable calls the loop of `resolveLabels` returns the resolved program, in whatever
order it visits the label map. -/
theorem resolveLabelList_of_resolvable {calls : List (Call α)} (h : Resolvable calls)
    {order : List (α × Label)} (horder : order.Perm (build calls).labels) :
    resolveLabelList (build calls).instructions order = .ok (resolvedProgram calls) := by
  have hrep := represents_build calls
  have hsrc : (allSources order).Perm (allSources (build calls).labels) :=
    horder.flatMap_right _
  let place := fun n => (placeOf calls n).getD 0
  rw [instructions_build place calls,
    maskAll_congr (fun s => (hsrc.mem_iff.trans (hrep.mem_allSources s)).symm)]
  apply resolveLabelList_maskAll _ _
    (hsrc.nodup_iff.mpr (hrep.nodup_allSources (nodup_refsFrom 0 calls)))
  intro e he
  obtain ⟨hkey, hentry⟩ := hrep.entry (horder.mem_iff.mp he)
  obtain ⟨r, hr, hr1⟩ := List.mem_map.mp hkey
  obtain ⟨t, ht, hfits⟩ := h r hr
  rw [hr1] at ht
  refine ⟨t, by rw [hentry]; exact ht, by rw [length_programFrom]; exact hfits.2.1, ?_⟩
  intro s hs
  rw [hentry, mem_sourcesIn] at hs
  -- every reference to the label sees the same placement
  obtain ⟨t', ht', hfits'⟩ := h _ hs
  have htt : t' = t := Option.some.inj (ht'.symm.trans ht)
  subst htt
  have hplace : place e.1 = t' := by simp [place, Option.mem_def.mp ht']
  obtain ⟨x, hx, hfield⟩ := programFrom_field place hs
  rw [hplace] at hfield
  exact ⟨hfits'.1, hfits'.2.2, x, by simpa using hx, hfield⟩

/-- When the loop of `resolveLabels` succeeds, in any order of the label map, the calls were
resolvable. -/
theorem resolvable_of_resolveLabelList {calls : List (Call α)} {out : List BPFInstruction}
    {order : List (α × Label)} (horder : order.Perm (build calls).labels)
    (h : resolveLabelList (build calls).instructions order = .ok out) : Resolvable calls := by
  have hrep := represents_build calls
  have hchecked := resolveLabelList_ok h
  rintro ⟨n, s⟩ hr
  obtain ⟨t, ht, hlen, hsrc⟩ := hchecked _ (horder.mem_iff.mpr (hrep.mem hr))
  obtain ⟨hlt, hfit⟩ := hsrc s (mem_sourcesIn.mpr hr)
  exact ⟨t, ht, hlt, length_build calls ▸ hlen, hfit⟩

/-- The loop of `resolveLabels`, visiting the label map in any order (Go's `range` over a map
fixes none), succeeds exactly on resolvable calls and then returns the program the calls
describe with every label reference resolved. -/
theorem resolveLabelList_build_iff (calls : List (Call α)) (out : List BPFInstruction)
    {order : List (α × Label)} (horder : order.Perm (build calls).labels) :
    resolveLabelList (build calls).instructions order = .ok out ↔
      Resolvable calls ∧ out = resolvedProgram calls := by
  constructor
  · intro h
    have hres := resolvable_of_resolveLabelList horder h
    exact ⟨hres,
      (Except.ok.inj ((resolveLabelList_of_resolvable hres horder).symm.trans h)).symm⟩
  · rintro ⟨h, rfl⟩
    exact resolveLabelList_of_resolvable h horder

/-- `Instructions` succeeds exactly on resolvable calls, and then returns the program the calls
describe with every label reference resolved; so does its loop over the label map in every
order the map may be visited in. -/
theorem resolvedInstructions_build (calls : List (Call α)) (out : List BPFInstruction) :
    ((build calls).resolvedInstructions = .ok out ↔
        Resolvable calls ∧ out = resolvedProgram calls) ∧
      ∀ order : List (α × Label), order.Perm (build calls).labels →
        (resolveLabelList (build calls).instructions order = .ok out ↔
          Resolvable calls ∧ out = resolvedProgram calls) :=
  ⟨resolveLabelList_build_iff calls out (List.Perm.refl _),
    fun _ horder => resolveLabelList_build_iff calls out horder⟩

/-- A conditional jump to two labels placed one after the other. -/
def allowDeny : List (Call String) :=
  [.addJumpLabels (jmp ||| jeq ||| k) 7 "allow" "deny", .addLabel "allow",
    .addStmt (ret ||| k) 0x7fff0000, .addLabel "deny", .addStmt (ret ||| k) 0]

theorem resolvedInstructions_build_allowDeny :
    (build allowDeny).resolvedInstructions =
      .ok [jump (jmp ||| jeq ||| k) 7 0 1, stmt (ret ||| k) 0x7fff0000, stmt (ret ||| k) 0] :=
  (resolvedInstructions_build _ _).1.mpr ⟨by decide, by decide⟩

end Instructions

/-! ### A direct jump past 32 bits -/

section FarJump

/-- A direct jump over `n` statements to a label placed right after them, and
one more statement. -/
def farDirectJump (n : ℕ) : List (Call Unit) :=
  .addDirectJumpLabel () ::
    (List.replicate n (.addStmt (ret ||| k) 0) ++ [.addLabel (), .addStmt (ret ||| k) 0])

variable {α : Type} [DecidableEq α]

omit [DecidableEq α] in
theorem refsFrom_replicate_addStmt (line n : ℕ) (code : UInt16) (kk : UInt32) :
    refsFrom line (List.replicate n (Call.addStmt code kk : Call α)) = [] := by
  induction n generalizing line with
  | zero => rfl
  | succ n ih => simp [List.replicate_succ, refsFrom, Call.refsAt, ih]

theorem placeFrom_replicate_addStmt (name : α) (line : ℕ) (seen : Bool) (n : ℕ) (code : UInt16)
    (kk : UInt32) : placeFrom name line seen (List.replicate n (.addStmt code kk)) = none := by
  induction n generalizing line with
  | zero => rfl
  | succ n ih => simp [List.replicate_succ, placeFrom, Call.refsAt, ih]

omit [DecidableEq α] in
theorem programLength_replicate_addStmt (n : ℕ) (code : UInt16) (kk : UInt32) :
    programLength (List.replicate n (Call.addStmt code kk : Call α)) = n := by
  simp [programLength, Call.width]

theorem foldl_call_replicate_addStmt (b : ProgramBuilder α) (n : ℕ) (code : UInt16) (kk : UInt32) :
    (List.replicate n (.addStmt code kk)).foldl ProgramBuilder.call b =
      ⟨b.labels, b.instructions ++ List.replicate n (stmt code kk)⟩ := by
  induction n generalizing b with
  | zero => simp
  | succ n ih =>
    rw [List.replicate_succ, List.foldl_cons, ih]
    simp only [ProgramBuilder.call, labels_addStmt, instructions_addStmt, List.append_assoc,
      List.singleton_append, List.replicate_succ]

theorem refs_farDirectJump (n : ℕ) : refs (farDirectJump n) = [((), ⟨0, .jDirect⟩)] := by
  simp [farDirectJump, refs, refsFrom, refsFrom_append, refsFrom_replicate_addStmt, Call.refsAt]

theorem placeOf_farDirectJump (n : ℕ) : placeOf (farDirectJump n) () = some (n + 1) := by
  simp [farDirectJump, placeOf, placeFrom, placeFrom_append, placeFrom_replicate_addStmt,
    programLength_replicate_addStmt, Call.refsAt, Call.width, Nat.add_comm]

theorem programLength_farDirectJump (n : ℕ) : programLength (farDirectJump n) = n + 2 := by
  simp [farDirectJump, programLength_replicate_addStmt, Call.width]
  omega

theorem build_farDirectJump (n : ℕ) :
    build (farDirectJump n) =
      ⟨[((), ⟨[⟨0, .jDirect⟩], some (n + 1)⟩)],
        jump (jmp ||| ja) labelDirectTarget 0 0 ::
          (List.replicate n (stmt (ret ||| k) 0) ++ [stmt (ret ||| k) 0])⟩ := by
  simp [build, farDirectJump, List.foldl_append, foldl_call_replicate_addStmt,
    ProgramBuilder.call, ProgramBuilder.new, ProgramBuilder.addDirectJumpLabel,
    ProgramBuilder.addLabelSource, ProgramBuilder.addLabel, setLabel, ProgramBuilder.addStmt,
    ProgramBuilder.addJump]

/-- The check that `resolveLabels` makes of a direct jump's offset: past
`2^32 - 1` the jump is refused. -/
theorem resolvedInstructions_farDirectJump (n : ℕ) (hn : labelDirectTarget.toNat < n) :
    (build (farDirectJump n)).resolvedInstructions =
      .error (.offsetTooLarge () n (jump (jmp ||| ja) labelDirectTarget 0 0) 0) := by
  rw [build_farDirectJump]
  simp [ProgramBuilder.resolvedInstructions, ProgramBuilder.resolveLabels, resolveLabelList,
    resolveSources, resolveSource, hn]
  rfl

/-- The only reference of these calls is a direct jump from line `0`, its
label is placed after it and before the end of the program, and no jump is
conditional; `Instructions` still fails, since the offset `2^32` does not fit
the 32-bit `K`. -/
theorem farDirectJump_rejected :
    refs (farDirectJump (2 ^ 32)) = [((), ⟨0, .jDirect⟩)] ∧
      placeOf (farDirectJump (2 ^ 32)) () = some (2 ^ 32 + 1) ∧
      programLength (farDirectJump (2 ^ 32)) = 2 ^ 32 + 2 ∧
      (build (farDirectJump (2 ^ 32))).resolvedInstructions =
        .error (.offsetTooLarge () (2 ^ 32) (jump (jmp ||| ja) labelDirectTarget 0 0) 0) :=
  ⟨refs_farDirectJump _, placeOf_farDirectJump _, programLength_farDirectJump _,
    resolvedInstructions_farDirectJump _ (by decide)⟩

end FarJump

end ContainerFS.Bpf
