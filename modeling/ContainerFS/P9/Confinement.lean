import ContainerFS.P9.Server

/-!
What the 9P server lets a client reach. Every name the server passes to a
`File` method is one `checkSafeName` accepts, and every file a FID is bound to
was obtained from the attacher's root, a step at a time, by a one-name walk
from a directory, a `Create` in a directory, or a clone.

The invariant `Inv` carries this over every handler: the trace's names are
safe, so are the names registered in the path tree (which `Tremove` and
`Trename` pass back to the files), and every ref's file was obtained so.
-/

namespace ContainerFS.P9

/-- A name the server may pass on: not empty, no `/`, and neither `.` nor
`..`. -/
def SafeName (name : GoString) : Prop :=
  name ≠ [] ∧ slash ∉ name ∧ name ≠ [0x2e] ∧ name ≠ [0x2e, 0x2e]

theorem safeName_of_checkSafeName {name : GoString} {u : Unit}
    (h : checkSafeName name = .ok u) : SafeName name := by
  unfold checkSafeName at h
  split at h
  · assumption
  · cases h

/-- `doWalk` checks every name before it walks. -/
theorem safeName_of_mapM {names : List GoString} {us : List Unit}
    (h : names.mapM checkSafeName = .ok us) : ∀ n ∈ names, SafeName n := by
  induction names generalizing us with
  | nil => simp
  | cons n names ih =>
    rw [List.mapM_cons] at h
    cases hn : checkSafeName n with
    | error e => simp [hn] at h; cases h
    | ok u =>
      cases hns : names.mapM checkSafeName with
      | error e => simp [hn, hns] at h; cases h
      | ok us' =>
        intro m hm
        rcases List.mem_cons.mp hm with rfl | hm
        · exact safeName_of_checkSafeName hn
        · exact ih hns m hm

variable {F : Type}

/-! ### Where a file comes from -/

/-- The files a trace reaches from the attacher's root by walks of one name, each from a
directory, with the mode the server took from the file's attributes. -/
inductive WalkObtained (tr : List (Call F)) : F → FileMode → Prop
  | attach {f : F} {q : QID} {v : AttrMask} {a : Attr} :
      Call.attach (.ok f) ∈ tr → Call.getAttr f (.ok (q, v, a)) ∈ tr →
      WalkObtained tr f a.mode.fileType
  | walkGetAttr {f g : F} {m : FileMode} {n : GoString} {qs : List QID} {v : AttrMask} {a : Attr} :
      WalkObtained tr f m → m.isDir = true →
      Call.walkGetAttr f [n] (.ok (qs, g, v, a)) ∈ tr → WalkObtained tr g a.mode.fileType
  | walk {f g : F} {m : FileMode} {n : GoString} {qs : List QID} {q : QID} {v : AttrMask}
      {a : Attr} :
      WalkObtained tr f m → m.isDir = true → Call.walk f [n] (.ok (qs, g)) ∈ tr →
      Call.getAttr g (.ok (q, v, a)) ∈ tr → WalkObtained tr g a.mode.fileType

/-- The files the server binds: those of `WalkObtained`, and what `Create` in
a directory and a clone (a walk of no names) give. -/
inductive Obtained (tr : List (Call F)) : F → FileMode → Prop
  | attach {f : F} {q : QID} {v : AttrMask} {a : Attr} :
      Call.attach (.ok f) ∈ tr → Call.getAttr f (.ok (q, v, a)) ∈ tr →
      Obtained tr f a.mode.fileType
  | walkGetAttr {f g : F} {m : FileMode} {n : GoString} {qs : List QID} {v : AttrMask} {a : Attr} :
      Obtained tr f m → m.isDir = true →
      Call.walkGetAttr f [n] (.ok (qs, g, v, a)) ∈ tr → Obtained tr g a.mode.fileType
  | walk {f g : F} {m : FileMode} {n : GoString} {qs : List QID} {q : QID} {v : AttrMask}
      {a : Attr} :
      Obtained tr f m → m.isDir = true → Call.walk f [n] (.ok (qs, g)) ∈ tr →
      Call.getAttr g (.ok (q, v, a)) ∈ tr → Obtained tr g a.mode.fileType
  | create {f g : F} {m : FileMode} {n : GoString} :
      Obtained tr f m → m.isDir = true → Call.create f n (.ok g) ∈ tr → Obtained tr g modeRegular
  | cloneWalk {f g : F} {m : FileMode} {qs : List QID} :
      Obtained tr f m → Call.walk f [] (.ok (qs, g)) ∈ tr → Obtained tr g m
  | cloneWalkGetAttr {f g : F} {m : FileMode} {qs : List QID} {v : AttrMask} {a : Attr} :
      Obtained tr f m → Call.walkGetAttr f [] (.ok (qs, g, v, a)) ∈ tr → Obtained tr g m

/-- More calls take nothing away. -/
theorem Obtained.mono {tr tr' : List (Call F)} (htr : ∀ c ∈ tr, c ∈ tr') {f : F} {m : FileMode}
    (h : Obtained tr f m) : Obtained tr' f m := by
  induction h with
  | attach ha hg => exact .attach (htr _ ha) (htr _ hg)
  | walkGetAttr _ hd hw ih => exact .walkGetAttr ih hd (htr _ hw)
  | walk _ hd hw hg ih => exact .walk ih hd (htr _ hw) (htr _ hg)
  | create _ hd hc ih => exact .create ih hd (htr _ hc)
  | cloneWalk _ hw ih => exact .cloneWalk ih (htr _ hw)
  | cloneWalkGetAttr _ hw ih => exact .cloneWalkGetAttr ih (htr _ hw)

theorem Obtained.append {tr : List (Call F)} {f : F} {m : FileMode} (h : Obtained tr f m)
    (tr' : List (Call F)) : Obtained (tr ++ tr') f m :=
  h.mono fun _ hc => List.mem_append_left _ hc

/-- What each step of a fold in `Option` keeps, the fold keeps. -/
theorem foldlM_invariant {α σ : Type} {P : σ → Prop} {f : σ → α → Option σ}
    (hf : ∀ s a s', P s → f s a = some s' → P s') :
    ∀ (l : List α) {s s' : σ}, P s → l.foldlM f s = some s' → P s'
  | [], _, _, hs, h => by
    cases h
    exact hs
  | a :: l, s, s', hs, h => by
    rw [List.foldlM_cons] at h
    cases hfa : f s a with
    | none => simp [hfa] at h
    | some s₁ =>
      simp only [hfa, Option.bind_eq_bind, Option.bind_some] at h
      exact foldlM_invariant hf l (hf s a s₁ hs hfa) h

/-! ### The invariant -/

/-- What every handler keeps. -/
structure Inv (cs : ConnState F) : Prop where
  names_safe : ∀ c ∈ cs.trace, ∀ n ∈ c.names, SafeName n
  registered_safe : ∀ p ∈ cs.nodes, ∀ e ∈ p.fidRefs, SafeName e.2
  refs_obtained : ∀ r ∈ cs.refs, Obtained cs.trace r.file r.mode
  fids_valid : ∀ fid i, cs.fids fid = some i → i < cs.refs.length

theorem inv_init : Inv (ConnState.init : ConnState F) where
  names_safe := by simp [ConnState.init]
  registered_safe := by simp [ConnState.init]
  refs_obtained := by simp [ConnState.init]
  fids_valid := by simp [ConnState.init]

namespace ConnState

variable {cs : ConnState F}

@[simp] theorem record_trace (c : Call F) : (cs.record c).trace = cs.trace ++ [c] := rfl
@[simp] theorem record_refs (c : Call F) : (cs.record c).refs = cs.refs := rfl
@[simp] theorem record_nodes (c : Call F) : (cs.record c).nodes = cs.nodes := rfl
@[simp] theorem record_fids (c : Call F) : (cs.record c).fids = cs.fids := rfl

@[simp] theorem alloc_trace (r : FidRef F) : (cs.alloc r).1.trace = cs.trace := rfl
@[simp] theorem alloc_refs (r : FidRef F) : (cs.alloc r).1.refs = cs.refs ++ [r] := rfl
@[simp] theorem alloc_nodes (r : FidRef F) : (cs.alloc r).1.nodes = cs.nodes := rfl
@[simp] theorem alloc_fids (r : FidRef F) : (cs.alloc r).1.fids = cs.fids := rfl
@[simp] theorem alloc_index (r : FidRef F) : (cs.alloc r).2 = cs.refs.length := rfl

@[simp] theorem setNode_trace (n : ℕ) (p : PathNode) : (cs.setNode n p).trace = cs.trace := rfl
@[simp] theorem setNode_refs (n : ℕ) (p : PathNode) : (cs.setNode n p).refs = cs.refs := rfl
@[simp] theorem setNode_fids (n : ℕ) (p : PathNode) : (cs.setNode n p).fids = cs.fids := rfl

@[simp] theorem modifyRef_trace (i : ℕ) (f : FidRef F → FidRef F) :
    (cs.modifyRef i f).trace = cs.trace := rfl
@[simp] theorem modifyRef_nodes (i : ℕ) (f : FidRef F → FidRef F) :
    (cs.modifyRef i f).nodes = cs.nodes := rfl
@[simp] theorem modifyRef_fids (i : ℕ) (f : FidRef F → FidRef F) :
    (cs.modifyRef i f).fids = cs.fids := rfl

@[simp] theorem insertFID_trace (fid : FID) (i : ℕ) : (cs.insertFID fid i).trace = cs.trace := rfl
@[simp] theorem insertFID_refs (fid : FID) (i : ℕ) : (cs.insertFID fid i).refs = cs.refs := rfl
@[simp] theorem insertFID_nodes (fid : FID) (i : ℕ) : (cs.insertFID fid i).nodes = cs.nodes := rfl

@[simp] theorem pathNodeFor_trace (n : ℕ) (name : GoString) :
    (cs.pathNodeFor n name).1.trace = cs.trace := by
  unfold pathNodeFor
  split <;> rfl

@[simp] theorem pathNodeFor_refs (n : ℕ) (name : GoString) :
    (cs.pathNodeFor n name).1.refs = cs.refs := by
  unfold pathNodeFor
  split <;> rfl

@[simp] theorem pathNodeFor_fids (n : ℕ) (name : GoString) :
    (cs.pathNodeFor n name).1.fids = cs.fids := by
  unfold pathNodeFor
  split <;> rfl

/-- `addChild` changes the path tree alone. -/
theorem addChild_frame {n i : ℕ} {name : GoString} {cs' : ConnState F}
    (h : cs.addChild n i name = some cs') :
    cs'.trace = cs.trace ∧ cs'.refs = cs.refs ∧ cs'.fids = cs.fids := by
  unfold addChild at h
  dsimp only at h
  split at h
  · cases h
  · cases h
    exact ⟨rfl, rfl, rfl⟩

/-- A looked-up ref is one of the state's. -/
theorem mem_of_lookupFID {fid : FID} {i : ℕ} {r : FidRef F} (h : cs.lookupFID fid = some (i, r)) :
    cs.fids fid = some i ∧ cs.refs[i]? = some r := by
  unfold lookupFID at h
  cases hf : cs.fids fid with
  | none => simp [hf] at h
  | some j =>
    cases hr : cs.refs[j]? with
    | none => simp [hf, hr] at h
    | some r' =>
      simp only [hf, hr, Option.bind_some, Option.map_some, Option.some.injEq, Prod.mk.injEq] at h
      obtain ⟨rfl, rfl⟩ := h
      exact ⟨rfl, hr⟩

end ConnState

/-! ### Each state change keeps the invariant -/

namespace Inv

variable {cs : ConnState F}

/-- A call whose names are safe. -/
theorem record (h : Inv cs) {c : Call F} (hc : ∀ n ∈ c.names, SafeName n) : Inv (cs.record c) where
  names_safe := by
    intro c' hc' n hn
    rcases List.mem_append.mp hc' with hc' | hc'
    · exact h.names_safe c' hc' n hn
    · rw [List.mem_singleton.mp hc'] at hn
      exact hc n hn
  registered_safe := h.registered_safe
  refs_obtained := fun r hr => (h.refs_obtained r hr).append _
  fids_valid := h.fids_valid

/-- A new ref whose file was obtained. -/
theorem alloc (h : Inv cs) {r : FidRef F} (hr : Obtained cs.trace r.file r.mode) :
    Inv (cs.alloc r).1 where
  names_safe := h.names_safe
  registered_safe := h.registered_safe
  refs_obtained := by
    intro r' hr'
    rcases List.mem_append.mp hr' with hr' | hr'
    · exact h.refs_obtained r' hr'
    · rw [List.mem_singleton.mp hr']
      exact hr
  fids_valid := by
    intro fid i hi
    have := h.fids_valid fid i hi
    simp only [ConnState.alloc_refs, List.length_append, List.length_singleton]
    omega

/-- A FID bound to a ref of the state. -/
theorem insertFID (h : Inv cs) {fid : FID} {i : ℕ} (hi : i < cs.refs.length) :
    Inv (cs.insertFID fid i) where
  names_safe := h.names_safe
  registered_safe := h.registered_safe
  refs_obtained := h.refs_obtained
  fids_valid := by
    intro fid' j hj
    by_cases hf : fid' = fid
    · subst hf
      simp only [ConnState.insertFID, Function.update_self, Option.some.injEq] at hj
      subst hj
      exact hi
    · simp only [ConnState.insertFID, Function.update_of_ne hf] at hj
      exact h.fids_valid fid' j hj

theorem deleteFID (h : Inv cs) (fid : FID) : Inv (cs.deleteFID fid).1 := by
  unfold ConnState.deleteFID
  split
  · exact h
  · refine ⟨h.names_safe, h.registered_safe, h.refs_obtained, fun fid' j hj => ?_⟩
    by_cases hf : fid' = fid
    · subst hf
      simp at hj
    · simp only [Function.update_of_ne hf] at hj
      exact h.fids_valid fid' j hj

/-- A change to a ref that keeps its file and mode. -/
theorem modifyRef (h : Inv cs) {i : ℕ} {f : FidRef F → FidRef F}
    (hf : ∀ r, (f r).file = r.file ∧ (f r).mode = r.mode) : Inv (cs.modifyRef i f) where
  names_safe := h.names_safe
  registered_safe := h.registered_safe
  refs_obtained := by
    intro r' hr'
    obtain ⟨j, hj⟩ := List.mem_iff_getElem?.mp hr'
    simp only [ConnState.modifyRef, List.getElem?_modify] at hj
    cases hr : cs.refs[j]? with
    | none => simp [hr] at hj
    | some r =>
      have hmem : r ∈ cs.refs := List.mem_iff_getElem?.mpr ⟨j, hr⟩
      simp only [hr, Option.map_eq_map, Option.map_some, Option.some.injEq] at hj
      subst hj
      split
      · rw [(hf r).1, (hf r).2]
        exact h.refs_obtained r hmem
      · exact h.refs_obtained r hmem
  fids_valid := by
    intro fid j hj
    simp only [ConnState.modifyRef, List.length_modify]
    exact h.fids_valid fid j hj

theorem markDeleted (h : Inv cs) (i : ℕ) : Inv (cs.markDeleted i) :=
  h.modifyRef fun _ => ⟨rfl, rfl⟩

/-- The names registered in a node of the state, or in the empty node past
its end, are safe. -/
theorem node_safe (h : Inv cs) (n : ℕ) : ∀ e ∈ (cs.node n).fidRefs, SafeName e.2 := by
  unfold ConnState.node
  rw [List.getD_eq_getElem?_getD]
  cases hn : cs.nodes[n]? with
  | none => simp
  | some p => exact h.registered_safe p (List.mem_iff_getElem?.mpr ⟨n, hn⟩)

/-- A node replaced by one whose registered names are safe. -/
theorem setNode (h : Inv cs) {n : ℕ} {p : PathNode} (hp : ∀ e ∈ p.fidRefs, SafeName e.2) :
    Inv (cs.setNode n p) where
  names_safe := h.names_safe
  registered_safe := by
    intro p' hp'
    rcases List.mem_or_eq_of_mem_set hp' with hp' | rfl
    · exact h.registered_safe p' hp'
    · exact hp
  refs_obtained := h.refs_obtained
  fids_valid := h.fids_valid

theorem nameFor_safe (h : Inv cs) {n i : ℕ} {name : GoString} (hn : cs.nameFor n i = some name) :
    SafeName name := by
  obtain ⟨l₁, l₂, hl, -⟩ := List.lookup_eq_some_iff.mp hn
  exact h.node_safe n (i, name) (by rw [hl]; simp)

theorem pathNodeFor (h : Inv cs) (n : ℕ) (name : GoString) : Inv (cs.pathNodeFor n name).1 := by
  unfold ConnState.pathNodeFor
  split
  · exact h
  · refine ⟨h.names_safe, ?_, h.refs_obtained, h.fids_valid⟩
    intro p hp
    rcases List.mem_append.mp hp with hp | hp
    · rcases List.mem_or_eq_of_mem_set hp with hp | rfl
      · exact h.registered_safe p hp
      · exact h.node_safe n
    · simp only [List.mem_singleton] at hp
      subst hp
      simp

theorem addChild (h : Inv cs) {n i : ℕ} {name : GoString} {cs' : ConnState F}
    (hn : SafeName name) (hadd : cs.addChild n i name = some cs') : Inv cs' := by
  unfold ConnState.addChild at hadd
  dsimp only at hadd
  split at hadd
  · cases hadd
  · cases hadd
    refine h.setNode fun e he => ?_
    rcases List.mem_append.mp he with he | he
    · exact h.node_safe n e he
    · rw [List.mem_singleton.mp he]
      exact hn

/-- `removeWithName` with a callback that keeps the invariant. -/
theorem removeWithName (h : Inv cs) {n : ℕ} {name : GoString}
    {fn : ConnState F → ℕ → Option (ConnState F)}
    (hfn : ∀ cs i cs', Inv cs → fn cs i = some cs' → Inv cs') {cs' : ConnState F} {orig : ℕ}
    (hr : cs.removeWithName n name fn = some (cs', orig)) : Inv cs' := by
  unfold ConnState.removeWithName at hr
  simp only [bind, Option.bind_eq_some_iff, pure, Option.some.injEq, Prod.mk.injEq] at hr
  obtain ⟨cs₁, hfold, rfl, -⟩ := hr
  -- the refs under the name leave the node, the callback runs on each
  have h₀ := h.setNode (n := n)
    (p := ⟨(cs.node n).fidRefs.filter fun e => e.2 != name, (cs.node n).children⟩)
    fun e he => h.node_safe n e (List.mem_filter.mp he).1
  have h₁ : Inv cs₁ := foldlM_invariant (fun s e s' hs he => hfn s e.1 s' hs he) _ h₀ hfold
  have h₂ := h₁.pathNodeFor n name
  exact h₂.setNode (h₂.node_safe n)

theorem notifyDelete (h : Inv cs) (fuel n : ℕ) : Inv (ConnState.notifyDelete fuel cs n) := by
  induction fuel generalizing cs n with
  | zero => exact h
  | succ fuel ih =>
    rw [ConnState.notifyDelete]
    -- the node's refs are marked, then each child's subtree
    have h₁ := List.foldlRecOn (motive := Inv) (cs.node n).fidRefs
      (fun cs e => cs.markDeleted e.1) h fun s hs e _ => hs.markDeleted e.1
    exact List.foldlRecOn (motive := Inv) _ _ h₁ fun s hs c _ => ih hs c.2

theorem markChildDeleted (h : Inv cs) {f : FidRef F} {name : GoString} {cs' : ConnState F}
    (hm : cs.markChildDeleted f name = some cs') : Inv cs' := by
  unfold ConnState.markChildDeleted at hm
  simp only [bind, Option.bind_eq_some_iff, pure, Option.some.injEq] at hm
  obtain ⟨⟨cs₁, orig⟩, hr, rfl⟩ := hm
  have h₁ := h.removeWithName (fun cs i cs' hcs hi => by cases hi; exact hcs.markDeleted i) hr
  exact h₁.notifyDelete _ _

theorem renameChildTo (h : Inv cs) {f target : FidRef F} {oldName newName : GoString}
    {targetId : ℕ} {cs' : ConnState F} (hn : SafeName newName)
    (hr : cs.renameChildTo f oldName targetId target newName = some cs') : Inv cs' := by
  unfold ConnState.renameChildTo at hr
  simp only [bind, Option.bind_eq_some_iff, pure, Option.some.injEq] at hr
  obtain ⟨cs₁, hm, ⟨cs₂, orig⟩, hr, rfl⟩ := hr
  have h₁ := h.markChildDeleted hm
  -- each moved ref changes parent and is registered under the new, checked name
  have h₂ := h₁.removeWithName
    (fun cs i cs' hcs hi =>
      (hcs.modifyRef (f := fun r => { r with parent := some targetId }) fun _ => ⟨rfl, rfl⟩).addChild
        hn hi) hr
  exact h₂.setNode (h₂.node_safe _)

end Inv

/-! ### Walks -/

/-- `cs'` is `cs` after calls whose names are among `names`, and nothing else. -/
def CallsOnly (names : List GoString) (cs cs' : ConnState F) : Prop :=
  ∃ tr, cs' = { cs with trace := cs.trace ++ tr } ∧ ∀ c ∈ tr, ∀ n ∈ c.names, n ∈ names

namespace CallsOnly

variable {names : List GoString} {cs cs' : ConnState F}

theorem refl (names : List GoString) (cs : ConnState F) : CallsOnly names cs cs :=
  ⟨[], by simp, by simp⟩

theorem record (h : CallsOnly names cs cs') {c : Call F} (hc : ∀ n ∈ c.names, n ∈ names) :
    CallsOnly names cs (cs'.record c) := by
  obtain ⟨tr, rfl, htr⟩ := h
  refine ⟨tr ++ [c], by simp [ConnState.record], fun c' hc' => ?_⟩
  rcases List.mem_append.mp hc' with hc' | hc'
  · exact htr c' hc'
  · rw [List.mem_singleton.mp hc']
    exact hc

theorem fids_eq (h : CallsOnly names cs cs') : cs'.fids = cs.fids := by
  obtain ⟨tr, rfl, -⟩ := h
  rfl

theorem trace_mono (h : CallsOnly names cs cs') : ∀ c ∈ cs.trace, c ∈ cs'.trace := by
  obtain ⟨tr, rfl, -⟩ := h
  exact fun c hc => List.mem_append_left _ hc

/-- Calls with safe names keep the invariant. -/
theorem inv (h : CallsOnly names cs cs') (hi : Inv cs) (hn : ∀ n ∈ names, SafeName n) :
    Inv cs' := by
  obtain ⟨tr, rfl, htr⟩ := h
  refine ⟨fun c hc n hnc => ?_, hi.registered_safe, fun r hr => (hi.refs_obtained r hr).append tr,
    hi.fids_valid⟩
  rcases List.mem_append.mp hc with hc | hc
  · exact hi.names_safe c hc n hnc
  · exact hn n (htr c hc n hnc)

end CallsOnly

section Walks

variable (fs : Backend F)

theorem walkDefault_callsOnly (cs : ConnState F) (src : F) (names : List GoString)
    (getattr : Bool) : CallsOnly names cs (walkDefault fs cs src names getattr).1 := by
  have hw : CallsOnly names cs (cs.record (.walk src names (fs.walk cs.trace src names))) :=
    (CallsOnly.refl names cs).record fun _ h => h
  unfold walkDefault
  dsimp only
  split
  · exact hw
  · split
    · split
      · exact hw.record (by simp [Call.names])
      · exact hw.record (by simp [Call.names])
    · exact hw

theorem walkCalls_callsOnly (cs : ConnState F) (src : F) (names : List GoString)
    (getattr : Bool) : CallsOnly names cs (walkCalls fs cs src names getattr).1 := by
  unfold walkCalls
  dsimp only
  split
  · have hw : CallsOnly names cs
        (cs.record (.walkGetAttr src names (fs.walkGetAttr cs.trace src names))) :=
      (CallsOnly.refl names cs).record fun _ h => h
    split
    · split
      · obtain ⟨tr, htr, hn⟩ := walkDefault_callsOnly fs
          (cs.record (.walkGetAttr src names (fs.walkGetAttr cs.trace src names))) src names getattr
        obtain ⟨tr₀, h₀, hn₀⟩ := hw
        refine ⟨tr₀ ++ tr, by rw [htr, h₀]; simp, fun c hc => ?_⟩
        rcases List.mem_append.mp hc with hc | hc
        · exact hn₀ c hc
        · exact hn c hc
      · exact hw
    · exact hw
  · exact walkDefault_callsOnly fs cs src names getattr

theorem walkOne_callsOnly (cs : ConnState F) (qids : List QID) (src : F)
    (names : List GoString) (getattr : Bool) :
    CallsOnly names cs (walkOne fs cs qids src names getattr).1 := by
  unfold walkOne
  split
  · exact CallsOnly.refl names cs
  · have h := walkCalls_callsOnly fs cs src names getattr
    split
    · rename_i heq
      rw [heq] at h
      exact h
    · rename_i heq
      rw [heq] at h
      split
      · exact h
      · exact h

/-- A default walk that succeeded left its `Walk`, and its `GetAttr` when
`getattr`, in the trace. -/
theorem walkDefault_ok {cs cs' : ConnState F} {src : F} {names : List GoString} {getattr : Bool}
    {qs : List QID} {sf : F} {v : AttrMask} {a : Attr}
    (h : walkDefault fs cs src names getattr = (cs', .ok (qs, sf, v, a))) :
    Call.walk src names (.ok (qs, sf)) ∈ cs'.trace ∧
      (getattr = true → ∃ q, Call.getAttr sf (.ok (q, v, a)) ∈ cs'.trace) := by
  unfold walkDefault at h
  dsimp only at h
  split at h
  · simp at h
  · rename_i qs₀ sf₀ hr
    split at h
    · split at h
      · simp at h
      · rename_i q₀ v₀ a₀ ha
        rw [ConnState.record_trace] at ha
        simp only [Prod.mk.injEq, Except.ok.injEq] at h
        obtain ⟨rfl, rfl, rfl, rfl, rfl⟩ := h
        exact ⟨by simp [hr], fun _ => ⟨q₀, by simp [ha]⟩⟩
    · rename_i hg
      simp only [Prod.mk.injEq, Except.ok.injEq] at h
      obtain ⟨rfl, rfl, rfl, -, -⟩ := h
      exact ⟨by simp [hr], fun h => absurd h hg⟩

/-- A walk that succeeded left the `WalkGetAttr` that gave its result, or the
default walk's calls. -/
theorem walkCalls_ok {cs cs' : ConnState F} {src : F} {names : List GoString} {getattr : Bool}
    {qs : List QID} {sf : F} {v : AttrMask} {a : Attr}
    (h : walkCalls fs cs src names getattr = (cs', .ok (qs, sf, v, a))) :
    (getattr = true ∧ Call.walkGetAttr src names (.ok (qs, sf, v, a)) ∈ cs'.trace) ∨
      (Call.walk src names (.ok (qs, sf)) ∈ cs'.trace ∧
        (getattr = true → ∃ q, Call.getAttr sf (.ok (q, v, a)) ∈ cs'.trace)) := by
  unfold walkCalls at h
  dsimp only at h
  split at h
  · rename_i hg
    split at h
    · -- `ENOSYS` falls through to the default case
      split at h
      · exact .inr (walkDefault_ok fs h)
      · simp at h
    · rename_i res hr
      simp only [Prod.mk.injEq] at h
      obtain ⟨rfl, h⟩ := h
      cases h
      exact .inl ⟨hg, by simp [hr]⟩
  · exact .inr (walkDefault_ok fs h)

theorem walkOne_ok {cs cs' : ConnState F} {qids : List QID} {src : F} {names : List GoString}
    {getattr : Bool} {qs' : List QID} {sf : F} {v : AttrMask} {a : Attr}
    (h : walkOne fs cs qids src names getattr = (cs', .ok (qs', sf, v, a))) :
    ∃ qs, (getattr = true ∧ Call.walkGetAttr src names (.ok (qs, sf, v, a)) ∈ cs'.trace) ∨
      (Call.walk src names (.ok (qs, sf)) ∈ cs'.trace ∧
        (getattr = true → ∃ q, Call.getAttr sf (.ok (q, v, a)) ∈ cs'.trace)) := by
  unfold walkOne at h
  split at h
  · simp at h
  · split at h
    · simp at h
    · rename_i cs₁ qs sf₁ v₁ a₁ hw
      split at h
      · simp at h
      · simp only [Prod.mk.injEq, Except.ok.injEq] at h
        obtain ⟨rfl, -, rfl, rfl, rfl⟩ := h
        exact ⟨qs, walkCalls_ok fs hw⟩

/-- A one-name walk from a directory gives a file obtained from the one
walked from. -/
theorem walkOne_obtained_step {cs cs' : ConnState F} {qids : List QID} {src : F} {n : GoString}
    {qs : List QID} {sf : F} {v : AttrMask} {a : Attr} {m : FileMode}
    (hw : walkOne fs cs qids src [n] true = (cs', .ok (qs, sf, v, a)))
    (ho : Obtained cs.trace src m) (hd : m.isDir = true) : Obtained cs'.trace sf a.mode.fileType := by
  have hc := walkOne_callsOnly fs cs qids src [n] true
  rw [hw] at hc
  have ho' := ho.mono hc.trace_mono
  obtain ⟨qs₀, ⟨-, hwg⟩ | ⟨hwk, hga⟩⟩ := walkOne_ok fs hw
  · exact .walkGetAttr ho' hd hwg
  · obtain ⟨q, hq⟩ := hga rfl
    exact .walk ho' hd hwk hq

/-- A walk of no names gives a clone of the file walked from. -/
theorem walkOne_obtained_clone {cs cs' : ConnState F} {qids : List QID} {src : F}
    {getattr : Bool} {qs : List QID} {sf : F} {v : AttrMask} {a : Attr} {m : FileMode}
    (hw : walkOne fs cs qids src [] getattr = (cs', .ok (qs, sf, v, a)))
    (ho : Obtained cs.trace src m) : Obtained cs'.trace sf m := by
  have hc := walkOne_callsOnly fs cs qids src [] getattr
  rw [hw] at hc
  have ho' := ho.mono hc.trace_mono
  obtain ⟨qs₀, ⟨-, hwg⟩ | ⟨hwk, -⟩⟩ := walkOne_ok fs hw
  · exact .cloneWalkGetAttr ho' hwg
  · exact .cloneWalk ho' hwk

/-- The walk loop keeps the invariant and the FID table, and ends at a ref of
the state. -/
theorem walkNames_inv {names : List GoString} (hn : ∀ n ∈ names, SafeName n) :
    ∀ {cs cs' : ConnState F} {walkId : ℕ} {walkRef : FidRef F} {qids : List QID}
      {va : AttrMask × Attr} {r : Except Errno (List QID × ℕ × AttrMask × Attr)},
      Inv cs → Obtained cs.trace walkRef.file walkRef.mode → walkId < cs.refs.length →
      walkNames fs names cs walkId walkRef qids va = some (cs', r) →
      Inv cs' ∧ cs'.fids = cs.fids ∧ ∀ qs i v a, r = .ok (qs, i, v, a) → i < cs'.refs.length := by
  induction names with
  | nil =>
    intro cs cs' walkId walkRef qids va r h _ hid hw
    obtain ⟨v, a⟩ := va
    simp only [walkNames, Option.some.injEq, Prod.mk.injEq] at hw
    obtain ⟨rfl, rfl⟩ := hw
    refine ⟨h, rfl, fun qs i v a hr => ?_⟩
    simp only [Except.ok.injEq, Prod.mk.injEq] at hr
    rw [← hr.2.1]
    exact hid
  | cons name names ih =>
    intro cs cs' walkId walkRef qids va r h ho hid hw
    have hname : SafeName name := hn name List.mem_cons_self
    have hrest : ∀ n ∈ names, SafeName n := fun n h => hn n (List.mem_cons_of_mem _ h)
    rw [walkNames] at hw
    split at hw
    · -- not a directory
      simp only [Option.some.injEq, Prod.mk.injEq] at hw
      obtain ⟨rfl, rfl⟩ := hw
      exact ⟨h, rfl, by simp⟩
    · rename_i hdir
      have hc := walkOne_callsOnly fs cs qids walkRef.file [name] true
      have h₁ := hc.inv h (by simpa using hname)
      split at hw
      · rename_i cs₁ e hwo
        simp only [Option.some.injEq, Prod.mk.injEq] at hw
        obtain ⟨rfl, rfl⟩ := hw
        rw [hwo] at hc h₁
        dsimp only at hc h₁
        exact ⟨h₁, hc.fids_eq, by simp⟩
      · rename_i cs₁ qids₁ sf v a hwo
        rw [hwo] at hc h₁
        dsimp only at hc h₁
        have ho₁ := walkOne_obtained_step fs hwo ho (by simpa using hdir)
        -- the new ref: a node for the name, the ref, its registration
        have h₂ := h₁.pathNodeFor walkRef.pathNode name
        simp only at hw
        split at hw
        · cases hw
        · rename_i cs₃ hadd
          obtain ⟨htr, hrefs, hfids⟩ := ConnState.addChild_frame hadd
          have h₃ := (h₂.alloc (r := ⟨sf, false, a.mode.fileType, 0,
            (cs₁.pathNodeFor walkRef.pathNode name).2, some walkId, false⟩)
            (by simpa using ho₁)).addChild hname hadd
          have hlen : (cs₁.pathNodeFor walkRef.pathNode name).1.refs.length < cs₃.refs.length := by
            simp [hrefs]
          obtain ⟨h₄, hfids₄, hres⟩ := ih hrest h₃ (by rw [htr]; simpa using ho₁) hlen hw
          refine ⟨h₄, ?_, hres⟩
          rw [hfids₄, hfids]
          simp [hc.fids_eq]

/-- `doWalk` keeps the invariant and the FID table, and gives a ref of the
state. -/
theorem doWalk_inv {cs cs' : ConnState F} {refId : ℕ} {ref : FidRef F} {names : List GoString}
    {getattr : Bool} {r : Except Errno (List QID × ℕ × AttrMask × Attr)} (h : Inv cs)
    (href : cs.refs[refId]? = some ref)
    (hd : doWalk fs cs refId ref names getattr = some (cs', r)) :
    Inv cs' ∧ cs'.fids = cs.fids ∧ ∀ qs i v a, r = .ok (qs, i, v, a) → i < cs'.refs.length := by
  have hmem : ref ∈ cs.refs := List.mem_iff_getElem?.mpr ⟨refId, href⟩
  have hid : refId < cs.refs.length := (List.getElem?_eq_some_iff.mp href).1
  unfold doWalk at hd
  split at hd
  · -- a name is not safe
    simp only [Option.some.injEq, Prod.mk.injEq] at hd
    obtain ⟨rfl, rfl⟩ := hd
    exact ⟨h, rfl, by simp⟩
  · rename_i us hus
    split at hd
    · -- the ref is open
      simp only [Option.some.injEq, Prod.mk.injEq] at hd
      obtain ⟨rfl, rfl⟩ := hd
      exact ⟨h, rfl, by simp⟩
    · split at hd
      · -- the clone
        have hc := walkOne_callsOnly fs cs [] ref.file [] getattr
        split at hd
        · rename_i cs₁ e hwo
          simp only [Option.some.injEq, Prod.mk.injEq] at hd
          obtain ⟨rfl, rfl⟩ := hd
          rw [hwo] at hc
          dsimp only at hc
          exact ⟨hc.inv h (by simp), hc.fids_eq, by simp⟩
        · rename_i cs₁ qs sf v a hwo
          rw [hwo] at hc
          dsimp only at hc
          have ho := walkOne_obtained_clone fs hwo (h.refs_obtained ref hmem)
          have h₂ := (hc.inv h (by simp)).alloc
            (r := ⟨sf, false, ref.mode, 0, ref.pathNode, ref.parent, ref.deleted⟩) ho
          have hfids : (cs₁.alloc ⟨sf, false, ref.mode, 0, ref.pathNode, ref.parent,
              ref.deleted⟩).1.fids = cs.fids := by simp [hc.fids_eq]
          simp only at hd
          split at hd
          · -- a root's clone is not registered
            simp only [Option.some.injEq, Prod.mk.injEq] at hd
            obtain ⟨rfl, rfl⟩ := hd
            exact ⟨h₂, hfids, fun _ _ _ _ hr => by cases hr; simp⟩
          · split at hd
            · simp only [Option.some.injEq, Prod.mk.injEq] at hd
              obtain ⟨rfl, rfl⟩ := hd
              exact ⟨h₂, hfids, fun _ _ _ _ hr => by cases hr; simp⟩
            · -- the clone joins the name its original has under the parent
              split at hd
              · cases hd
              · split at hd
                · cases hd
                · rename_i name hname
                  obtain ⟨cs₃, hadd, hres⟩ := Option.map_eq_some_iff.mp hd
                  simp only [Prod.mk.injEq] at hres
                  obtain ⟨rfl, rfl⟩ := hres
                  obtain ⟨-, hrefs, hfids₃⟩ := ConnState.addChild_frame hadd
                  exact ⟨h₂.addChild (h₂.nameFor_safe hname) hadd, hfids₃.trans hfids,
                    fun _ _ _ _ hr => by cases hr; simp [hrefs]⟩
      · exact walkNames_inv fs (safeName_of_mapM hus) h (h.refs_obtained ref hmem) hid hd

end Walks

/-! ### Each handler keeps the invariant -/

section Handlers

variable (fs : Backend F) {cs cs' : ConnState F} {m : Message}

theorem Tattach.handle_inv {t : Tattach} (h : Inv cs)
    (hh : Tattach.handle fs t cs = some (cs', m)) : Inv cs' := by
  unfold Tattach.handle at hh
  split at hh
  · cases hh
    exact h
  · simp only at hh
    have h₁ := h.record (c := .attach (fs.attach cs.trace)) (by simp [Call.names])
    split at hh
    · cases hh
      exact h₁
    · rename_i sf hsf
      have h₂ := h₁.record (c := .getAttr sf (fs.getAttr (cs.record (.attach (fs.attach cs.trace))).trace sf))
        (by simp [Call.names])
      split at hh
      · cases hh
        exact h₂
      · rename_i qid valid attr ha
        split at hh
        · cases hh
          exact h₂
        · -- the root: the attacher's file, with the mode of its attributes
          have hroot := h₂.alloc (r := ⟨sf, false, attr.mode.fileType, 0, 0, none, false⟩)
            (.attach (f := sf) (q := qid) (v := valid) (by simp [hsf])
              (by rw [ConnState.record_trace] at ha; simp [ha]))
          generalize (if t.auth.attachName.head? = some slash then t.auth.attachName.tail
            else t.auth.attachName) = name at hh
          split at hh
          · cases hh
            exact hroot.insertFID (by simp)
          · split at hh
            · cases hh
            · rename_i cs₁ e hd
              cases hh
              exact (doWalk_inv fs hroot (by simp) hd).1
            · rename_i cs₁ qs newId v a hd
              cases hh
              obtain ⟨h₃, -, hnew⟩ := doWalk_inv fs hroot (by simp) hd
              exact h₃.insertFID (hnew _ _ _ _ rfl)

theorem walkHandle_inv {fid newFID : FID} {names : List GoString} {getattr : Bool}
    {respond : List QID → AttrMask → Attr → Message} (h : Inv cs)
    (hh : walkHandle fs fid newFID names getattr respond cs = some (cs', m)) : Inv cs' := by
  unfold walkHandle at hh
  split at hh
  · cases hh
    exact h
  · rename_i refId ref hl
    have href := (ConnState.mem_of_lookupFID hl).2
    split at hh
    · cases hh
    · rename_i cs₁ e hd
      cases hh
      exact (doWalk_inv fs h href hd).1
    · rename_i cs₁ qs newId v a hd
      cases hh
      obtain ⟨h₁, -, hnew⟩ := doWalk_inv fs h href hd
      exact h₁.insertFID (hnew _ _ _ _ rfl)

/-- A walk handler leaves the FID table as it was, unless the walk succeeded
and its response is the one sent. -/
theorem walkHandle_fids {fid newFID : FID} {names : List GoString} {getattr : Bool}
    {respond : List QID → AttrMask → Attr → Message} (h : Inv cs)
    (hh : walkHandle fs fid newFID names getattr respond cs = some (cs', m)) :
    cs'.fids = cs.fids ∨ ∃ qs v a, m = respond qs v a := by
  unfold walkHandle at hh
  split at hh
  · cases hh
    exact .inl rfl
  · rename_i refId ref hl
    have href := (ConnState.mem_of_lookupFID hl).2
    split at hh
    · cases hh
    · rename_i cs₁ e hd
      cases hh
      exact .inl (doWalk_inv fs h href hd).2.1
    · rename_i cs₁ qs newId v a hd
      cases hh
      exact .inr ⟨qs, v, a, rfl⟩

theorem Tlcreate.do_inv {t : Tlcreate} {uid : UID} {r : Except Errno Rlcreate} (h : Inv cs)
    (hh : Tlcreate.do fs t uid cs = some (cs', r)) : Inv cs' := by
  unfold Tlcreate.do at hh
  split at hh
  · cases hh
    exact h
  · rename_i u hname
    have hsafe := safeName_of_checkSafeName hname
    split at hh
    · cases hh
      exact h
    · rename_i refId ref hl
      have hmem : ref ∈ cs.refs := List.mem_iff_getElem?.mpr ⟨refId, (ConnState.mem_of_lookupFID hl).2⟩
      split at hh
      · cases hh
        exact h
      · rename_i hdir
        split at hh
        · cases hh
          exact h
        · simp only at hh
          have h₁ := h.record (c := .create ref.file t.name
            ((fs.create cs.trace ref.file t.name t.openFlags t.permissions uid t.gid).map
              fun x => x.2.1)) (by simpa [Call.names] using hsafe)
          split at hh
          · cases hh
            exact h₁
          · rename_i osFile nsf qid ioUnit hc
            -- the new file comes from `Create` in a directory
            have hdir' : ref.mode.isDir = true := by simp_all
            have ho : Obtained (cs.record (.create ref.file t.name
                ((fs.create cs.trace ref.file t.name t.openFlags t.permissions uid t.gid).map
                  fun x => x.2.1))).trace nsf modeRegular :=
              .create (n := t.name) ((h.refs_obtained ref hmem).append _) hdir' (by simp [hc, Except.map])
            obtain ⟨cs₃, hadd, hres⟩ := Option.map_eq_some_iff.mp hh
            cases hres
            obtain ⟨-, hrefs, -⟩ := ConnState.addChild_frame hadd
            refine ((Inv.alloc (h₁.pathNodeFor ref.pathNode t.name) ?_).addChild hsafe hadd).insertFID
              (by simp [hrefs])
            simpa using ho

theorem makeIn_inv {α : Type} {dir : FID} {name : GoString} {call : F → Call F}
    {op : List (Call F) → F → Except Errno α} (hcall : ∀ f, (call f).names = [name])
    (h : Inv cs) : Inv (makeIn dir name call op cs).1 := by
  unfold makeIn
  split
  · exact h
  · rename_i u hname
    split
    · exact h
    · split
      · exact h
      · split
        · exact h
        · refine h.record fun n hn => ?_
          rw [hcall, List.mem_singleton] at hn
          rw [hn]
          exact safeName_of_checkSafeName hname

theorem Tlink.handle_inv {t : Tlink} (h : Inv cs) : Inv (Tlink.handle fs t cs).1 := by
  unfold Tlink.handle
  split
  · exact h
  · rename_i u hname
    split
    · exact h
    · exact h
    · split
      · exact h
      · split
        · exact h
        · exact h.record (by simpa [Call.names] using safeName_of_checkSafeName hname)

theorem Trenameat.handle_inv {t : Trenameat} (h : Inv cs)
    (hh : Trenameat.handle fs t cs = some (cs', m)) : Inv cs' := by
  unfold Trenameat.handle at hh
  split at hh
  · cases hh
    exact h
  · cases hh
    exact h
  · rename_i u₁ u₂ hold hnew
    have hsafe : ∀ n ∈ [t.oldName, t.newName], SafeName n := by
      simpa using ⟨safeName_of_checkSafeName hold, safeName_of_checkSafeName hnew⟩
    split at hh
    · cases hh
      exact h
    · cases hh
      exact h
    · rename_i refId ref targetId refTarget hl ht
      split at hh
      · cases hh
        exact h
      · split at hh
        · cases hh
          exact h
        · split at hh
          · cases hh
            exact h
          · simp only at hh
            have h₁ := h.record (c := .renameAt ref.file t.oldName refTarget.file t.newName) hsafe
            split at hh
            · cases hh
              exact h₁
            · obtain ⟨cs₂, hr, hres⟩ := Option.map_eq_some_iff.mp hh
              cases hres
              exact h₁.renameChildTo (safeName_of_checkSafeName hnew) hr

theorem Tunlinkat.handle_inv {t : Tunlinkat} (h : Inv cs)
    (hh : Tunlinkat.handle fs t cs = some (cs', m)) : Inv cs' := by
  unfold Tunlinkat.handle at hh
  split at hh
  · cases hh
    exact h
  · rename_i u hname
    split at hh
    · cases hh
      exact h
    · rename_i refId ref hl
      split at hh
      · cases hh
        exact h
      · split at hh
        · cases hh
          exact h
        · simp only at hh
          -- the child's node is made first, then the call
          have h₁ := (h.pathNodeFor ref.pathNode t.name).record
            (c := .unlinkAt ref.file t.name t.flags)
            (by simpa [Call.names] using safeName_of_checkSafeName hname)
          split at hh
          · cases hh
            exact h₁
          · obtain ⟨cs₂, hm, hres⟩ := Option.map_eq_some_iff.mp hh
            cases hres
            exact h₁.markChildDeleted hm

theorem Trename.handle_inv {t : Trename} (h : Inv cs)
    (hh : Trename.handle fs t cs = some (cs', m)) : Inv cs' := by
  unfold Trename.handle at hh
  split at hh
  · cases hh
    exact h
  · rename_i u hname
    split at hh
    · cases hh
      exact h
    · cases hh
      exact h
    · rename_i refId ref targetId refTarget hl ht
      split at hh
      · cases hh
        exact h
      · split at hh
        · cases hh
          exact h
        · split at hh
          · cases hh
          · rename_i parent hp
            split at hh
            · cases hh
            · split at hh
              · cases hh
              · rename_i oldName hold
                split at hh
                · cases hh
                  exact h
                · simp only at hh
                  -- the old name is the one the parent's node registers
                  have h₁ := h.record (c := .renameAt parent.file oldName refTarget.file t.name)
                    (by simpa [Call.names] using
                      ⟨h.nameFor_safe hold, safeName_of_checkSafeName hname⟩)
                  split at hh
                  · cases hh
                    exact h₁
                  · obtain ⟨cs₂, hr, hres⟩ := Option.map_eq_some_iff.mp hh
                    cases hres
                    exact h₁.renameChildTo (safeName_of_checkSafeName hname) hr

theorem Tremove.handle_inv {t : Tremove} (h : Inv cs)
    (hh : Tremove.handle fs t cs = some (cs', m)) : Inv cs' := by
  unfold Tremove.handle at hh
  split at hh
  · cases hh
    exact h
  · rename_i refId ref hl
    obtain ⟨⟨cs₁, r₁⟩, hrem, hres⟩ := Option.map_eq_some_iff.mp hh
    -- the unlink by the registered name, before the FID goes
    have h₁ : Inv cs₁ := by
      split at hrem
      · cases hrem
        exact h
      · split at hrem
        · cases hrem
          exact h
        · split at hrem
          · cases hrem
          · rename_i parent hp
            split at hrem
            · cases hrem
            · rename_i name hname
              simp only at hrem
              have h₂ := h.record (c := .unlinkAt parent.file name 0)
                (by simpa [Call.names] using h.nameFor_safe hname)
              split at hrem
              · cases hrem
                exact h₂
              · obtain ⟨cs₃, hm, hres'⟩ := Option.map_eq_some_iff.mp hrem
                cases hres'
                exact h₂.markChildDeleted hm
    have h₂ := h₁.deleteFID t.fid
    simp only at hres
    split at hres
    · cases hres
      rename_i hdel
      rw [hdel] at h₂
      exact h₂
    · rename_i cs₂ hdel
      rw [hdel] at h₂
      split at hres <;> cases hres <;> exact h₂

theorem Tclunk.handle_inv {t : Tclunk} (h : Inv cs) : Inv (Tclunk.handle t cs).1 := by
  unfold Tclunk.handle
  have h₁ := h.deleteFID t.fid
  split
  · rename_i cs₁ hdel
    rw [hdel] at h₁
    exact h₁
  · rename_i cs₁ hdel
    rw [hdel] at h₁
    exact h₁

theorem Tlopen.handle_inv {t : Tlopen} (h : Inv cs) : Inv (Tlopen.handle fs t cs).1 := by
  unfold Tlopen.handle
  split
  · exact h
  · rename_i refId ref hl
    split
    · exact h
    · simp only
      split
      · exact h
      · split
        · exact h
        · split
          · exact h
          · have h₁ := h.record (c := .lopen ref.file t.flags) (by simp [Call.names])
            split
            · exact h₁
            · exact h₁.modifyRef fun _ => ⟨rfl, rfl⟩

theorem fileOp_inv {fid : FID} (h : Inv cs) : Inv (fileOp fs fid cs).1 := by
  unfold fileOp
  split
  · exact h
  · exact h.record (by simp [Call.names])

@[simp] theorem answer_fst {α : Type} (ok : α → Message) (p : ConnState F × Except Errno α) :
    (answer ok p).1 = p.1 := by
  obtain ⟨cs, r⟩ := p
  cases r <;> rfl

/-- One request keeps the invariant. -/
theorem handle_inv {req : Request} (h : Inv cs) (hh : handle fs req cs = some (cs', m)) :
    Inv cs' := by
  cases req with
  | tattach t => exact Tattach.handle_inv fs h hh
  | twalk t => exact walkHandle_inv fs h hh
  | twalkgetattr t => exact walkHandle_inv fs h hh
  | tlcreate t | tucreate t =>
    obtain ⟨⟨cs₁, r⟩, hdo, hres⟩ := Option.map_eq_some_iff.mp hh
    obtain rfl : cs₁ = cs' := by simpa using congrArg Prod.fst hres
    exact Tlcreate.do_inv fs h hdo
  | trenameat t => exact Trenameat.handle_inv fs h hh
  | tunlinkat t => exact Tunlinkat.handle_inv fs h hh
  | trename t => exact Trename.handle_inv fs h hh
  | tremove t => exact Tremove.handle_inv fs h hh
  | tauth t | txattrwalk t | txattrcreate t =>
    cases hh
    exact h
  | tlopen t | tmkdir t | tumkdir t | tsymlink t | tusymlink t | tmknod t | tumknod t | tlink t
    | tclunk t | fileOp fid =>
    have hfst := congrArg Prod.fst (Option.some.inj hh)
    dsimp only at hfst
    subst hfst
    first
      | exact Tlopen.handle_inv fs h
      | exact Tlink.handle_inv fs h
      | exact Tclunk.handle_inv h
      | exact fileOp_inv fs h
      | (rw [answer_fst]; exact makeIn_inv (fun _ => rfl) h)

/-- Every run keeps the invariant. -/
theorem run_inv {reqs : List Request} (h : Inv cs) (hr : run fs reqs cs = some cs') : Inv cs' := by
  induction reqs generalizing cs with
  | nil =>
    cases hr
    exact h
  | cons req reqs ih =>
    obtain ⟨⟨cs₁, m₁⟩, hh, hr'⟩ := Option.bind_eq_some_iff.mp hr
    exact ih (handle_inv fs h hh) hr'

end Handlers

/-! ### What a client can reach -/

/-- A backend whose root, file 0, is a directory, whose `Create` gives file 1,
and whose walks and other calls fail. -/
def createBackend : Backend ℕ where
  attach _ := .ok 0
  getAttr _ _ := .ok (⟨0, 0, 0⟩, AttrMask.all, { Attr.zero with mode := modeDirectory })
  walk _ _ _ := .error EINVAL
  walkGetAttr _ _ _ := .error EINVAL
  lopen _ _ _ := .error EINVAL
  create _ _ _ _ _ _ _ := .ok (none, 1, ⟨0, 0, 1⟩, 0)
  mkdir _ _ _ _ _ _ := .error EINVAL
  symlink _ _ _ _ _ _ := .error EINVAL
  link _ _ _ _ := .error EINVAL
  mknod _ _ _ _ _ _ _ _ := .error EINVAL
  renameAt _ _ _ _ _ := .error EINVAL
  unlinkAt _ _ _ _ := .error EINVAL
  other _ _ := .error EINVAL

/-- Attach FID 0 at the root, then create `a` in it through FID 0. -/
def createRequests : List Request :=
  [.tattach ⟨0, ⟨noFID, [], [], 0⟩⟩, .tlcreate ⟨0, [0x61], 0, 0o644, 0⟩]

/-- The calls of `createRequests`: attach, the root's attributes, and the
create. -/
def createTrace : List (Call ℕ) :=
  [.attach (.ok 0), .getAttr 0 (createBackend.getAttr [] 0), .create 0 [0x61] (.ok 1)]

end ContainerFS.P9
