import ContainerFS.Net.Reassembler

/-!
One fragmented payload `P` fed to one reassembler, fragment after fragment,
as `Fragmentation.Process` does when no other call runs beside it: `process`,
and when the packet is complete, `release`'s `checkDoneOrMark`.

The invariant (`Inv`) ties the hole list to the fragments received so far: an
offset lies in a live hole exactly when no fragment covered it and, once the
last fragment came, it lies inside the payload. The heap holds slices of `P`
that cover every offset a fragment covered, since a fragment that fills no
hole covers only offsets covered before. From it `process` reports done
exactly when the fragments cover `P`, and reassembles `P` then
(`processAll_payload`). `process` itself never marks the reassembler done, so
a call on a reassembler that completed, before `release` marks it, panics
(`process_after_complete_panics`).
-/

namespace ContainerFS.Net

open Buffer

variable {α : Type}

/-- A fragment of the payload `P`: its bytes from `first` to `last`, both
included, in a view whose size is right. -/
structure PayloadFragment (P : List α) where
  first : ℕ
  last : ℕ
  vv : VectorisedView α
  first_le_last : first ≤ last
  last_lt : last < P.length
  consistent : vv.Consistent
  bytes_eq : vv.bytes = (P.drop first).take (last + 1 - first)

namespace PayloadFragment

variable {P : List α}

/-- More fragments follow: this one does not end the payload. -/
def more (f : PayloadFragment P) : Bool := decide (f.last + 1 < P.length)

/-- The arguments of `Process` for the fragment. -/
def args (f : PayloadFragment P) : ℕ × ℕ × Bool × VectorisedView α :=
  (f.first, f.last, f.more, f.vv)

/-- The fragment covers the offset `x`. -/
def Covers (f : PayloadFragment P) (x : ℕ) : Prop := f.first ≤ x ∧ x ≤ f.last

theorem length_bytes (f : PayloadFragment P) : f.vv.bytes.length = f.last + 1 - f.first := by
  rw [f.bytes_eq, List.length_take, List.length_drop]
  have := f.last_lt
  omega

/-- The fragment as the heap stores it is a slice of `P`. -/
theorem sliceOf (f : PayloadFragment P) : (⟨f.first, f.vv⟩ : Fragment α).SliceOf P where
  consistent := f.consistent
  within := by
    show f.first + f.vv.bytes.length ≤ P.length
    rw [f.length_bytes]
    have := f.last_lt
    have := f.first_le_last
    omega
  bytes_prefix := by
    show f.vv.bytes <+: P.drop f.first
    rw [f.bytes_eq]
    exact List.take_prefix _ _

theorem holds_iff (f : PayloadFragment P) (x : ℕ) :
    (⟨f.first, f.vv⟩ : Fragment α).Holds x ↔ f.Covers x := by
  unfold Fragment.Holds Covers
  simp only
  rw [f.length_bytes]
  have := f.first_le_last
  omega

theorem more_eq_false_iff (f : PayloadFragment P) : f.more = false ↔ f.last + 1 = P.length := by
  have := f.last_lt
  simp only [more, decide_eq_false_iff_not]
  omega

end PayloadFragment

section Coverage

variable {P : List α}

/-- Some fragment received covers the offset `x`. -/
def Covered (fs : List (PayloadFragment P)) (x : ℕ) : Prop := ∃ f ∈ fs, f.Covers x

/-- The fragments received cover every offset of `P`. -/
def Complete (fs : List (PayloadFragment P)) : Prop := ∀ x < P.length, Covered fs x

/-- The fragment that ends the payload was received. -/
def FinalSeen (fs : List (PayloadFragment P)) : Prop := ∃ f ∈ fs, f.more = false

@[simp] theorem covered_append_singleton {fs : List (PayloadFragment P)} {f : PayloadFragment P}
    {x : ℕ} : Covered (fs ++ [f]) x ↔ Covered fs x ∨ f.Covers x := by
  simp [Covered, or_and_right, exists_or]

@[simp] theorem finalSeen_append_singleton {fs : List (PayloadFragment P)} {f : PayloadFragment P} :
    FinalSeen (fs ++ [f]) ↔ FinalSeen fs ∨ f.more = false := by
  simp [FinalSeen, or_and_right, exists_or]

theorem Complete.append {fs : List (PayloadFragment P)} (h : Complete fs)
    (gs : List (PayloadFragment P)) : Complete (fs ++ gs) := by
  intro x hx
  obtain ⟨f, hf, hcov⟩ := h x hx
  exact ⟨f, List.mem_append_left _ hf, hcov⟩

theorem not_complete_nil (hP : 0 < P.length) : ¬Complete ([] : List (PayloadFragment P)) := by
  intro h
  obtain ⟨f, hf, -⟩ := h 0 hP
  simp at hf

/-- The fragment that covers the last offset ends the payload. -/
theorem Complete.finalSeen {fs : List (PayloadFragment P)} (hP : 0 < P.length) (h : Complete fs) :
    FinalSeen fs := by
  obtain ⟨f, hf, hcov⟩ := h (P.length - 1) (by omega)
  refine ⟨f, hf, f.more_eq_false_iff.mpr ?_⟩
  have := f.last_lt
  unfold PayloadFragment.Covers at hcov
  omega

/-- Some offset is still to come exactly when the fragments do not cover `P`:
before the last fragment, the offsets past the payload are still awaited. -/
theorem exists_awaited_iff (hP : 0 < P.length) (hP' : P.length ≤ maxUint16)
    (fs : List (PayloadFragment P)) :
    (∃ x, x ≤ maxUint16 ∧ ¬Covered fs x ∧ (¬FinalSeen fs ∨ x < P.length)) ↔ ¬Complete fs := by
  constructor
  · rintro ⟨x, -, hx, hfin⟩ hcomplete
    rcases hfin with hfin | hlt
    · exact hfin (hcomplete.finalSeen hP)
    · exact hx (hcomplete x hlt)
  · intro h
    obtain ⟨x, hx, hnot⟩ : ∃ x < P.length, ¬Covered fs x := by
      by_contra hall
      exact h fun x hx => by_contra fun hn => hall ⟨x, hx, hn⟩
    exact ⟨x, by omega, hnot, .inr hx⟩

end Coverage

/-- The invariant of a reassembler that has received the fragments `fs` of
`P` and not completed it. -/
structure Inv (P : List α) (fs : List (PayloadFragment P)) (r : Reassembler α) : Prop where
  not_done : r.done = false
  holes_wf : ∀ h ∈ r.holes, h.first ≤ h.last ∧ h.last ≤ maxUint16 ∧ h.first < P.length
  deleted_eq : r.deleted = r.holes.countP (·.deleted)
  inLive_iff : ∀ x, InLive r.holes x ↔
    x ≤ maxUint16 ∧ ¬Covered fs x ∧ (¬FinalSeen fs ∨ x < P.length)
  heap_slices : ∀ g ∈ r.heap, g.SliceOf P
  heap_covers : ∀ x, Covered fs x → ∃ g ∈ r.heap, g.Holds x

theorem inv_newReassembler {P : List α} (hP : 0 < P.length) (id now : ℕ) :
    Inv P [] (newReassembler id now) where
  not_done := rfl
  holes_wf := by simp [newReassembler, maxUint16, hP]
  deleted_eq := rfl
  inLive_iff := by
    intro x
    simp [InLive, newReassembler, Covered, FinalSeen]
  heap_slices := by simp [newReassembler]
  heap_covers := by simp [Covered]

@[simp] theorem Hole.first_mark {first last : ℕ} {h : Hole} : (h.mark first last).first = h.first := by
  unfold Hole.mark
  split_ifs <;> rfl

@[simp] theorem Hole.last_mark {first last : ℕ} {h : Hole} : (h.mark first last).last = h.last := by
  unfold Hole.mark
  split_ifs <;> rfl

section Step

variable {P : List α} {fs : List (PayloadFragment P)} {r : Reassembler α}

/-- The hole list after the fragment `f`: the offsets it awaits are those
that no fragment covered and, once the last fragment came, lie in `P`. -/
theorem inLive_after (hinv : Inv P fs r) (f : PayloadFragment P) (x : ℕ) :
    InLive (r.holes.map (Hole.mark f.first f.last) ++
        r.holes.flatMap (Hole.remainders f.first f.last f.more)) x ↔
      x ≤ maxUint16 ∧ ¬Covered (fs ++ [f]) x ∧ (¬FinalSeen (fs ++ [f]) ∨ x < P.length) := by
  have hlast := f.last_lt
  have hfl := f.first_le_last
  have hmore := f.more_eq_false_iff
  rw [inLive_update, covered_append_singleton, finalSeen_append_singleton]
  unfold PayloadFragment.Covers
  constructor
  · rintro ⟨h, hh, hdel, hfirst, hle, hcase⟩
    obtain ⟨hmax, hcov, hfin⟩ := (hinv.inLive_iff x).mp ⟨h, hh, hdel, hfirst, hle⟩
    have hwf := hinv.holes_wf h hh
    -- the fragment does not cover `x`: it misses the hole, or `x` is outside it
    have hout : ¬(f.first ≤ x ∧ x ≤ f.last) := by
      rcases hcase with hm | hx | ⟨-, hx⟩
      · have hnm : ¬(h.deleted = false ∧ f.first ≤ h.last ∧ h.first ≤ f.last) :=
          Hole.meets_eq_true.not.mp (by simp [hm])
        simp only [hdel, true_and, not_and, not_le] at hnm
        omega
      · omega
      · omega
    refine ⟨hmax, by tauto, ?_⟩
    cases hm : f.more
    · -- the last fragment: `x` lies below it, since the hole starts inside `P`
      right
      rcases hcase with hcase | hx | ⟨hx, -⟩
      · have := (hmore.mp hm)
        have hnm : ¬(h.deleted = false ∧ f.first ≤ h.last ∧ h.first ≤ f.last) :=
          Hole.meets_eq_true.not.mp (by simp [hcase])
        simp only [hdel, true_and, not_and, not_le] at hnm
        omega
      · omega
      · simp [hm] at hx
    · simpa [hm] using hfin
  · rintro ⟨hmax, hcov, hfin⟩
    have hold : ¬FinalSeen fs ∨ x < P.length := by tauto
    obtain ⟨h, hh, hdel, hfirst, hle⟩ := (hinv.inLive_iff x).mpr ⟨hmax, by tauto, hold⟩
    refine ⟨h, hh, hdel, hfirst, hle, ?_⟩
    cases hm : h.meets f.first f.last
    · exact .inl rfl
    · right
      rcases Nat.lt_or_ge x f.first with hx | hx
      · exact .inl hx
      · -- above the fragment: it does not end the payload, or `x` would lie past it
        have hx' : f.last < x := by
          by_contra hnot
          exact hcov (.inr ⟨hx, by omega⟩)
        refine .inr ⟨?_, hx'⟩
        cases hmf : f.more
        · have := hmore.mp hmf
          rcases hfin with hfin | hfin
          · exact absurd (.inr hmf) hfin
          · omega
        · rfl

theorem holes_wf_after (hinv : Inv P fs r) (f : PayloadFragment P) :
    ∀ h ∈ r.holes.map (Hole.mark f.first f.last) ++
        r.holes.flatMap (Hole.remainders f.first f.last f.more),
      h.first ≤ h.last ∧ h.last ≤ maxUint16 ∧ h.first < P.length := by
  intro y hy
  rcases List.mem_append.mp hy with hy | hy
  · obtain ⟨h, hh, rfl⟩ := List.mem_map.mp hy
    simpa using hinv.holes_wf h hh
  · obtain ⟨h, hh, hy⟩ := List.mem_flatMap.mp hy
    have hwf := hinv.holes_wf h hh
    obtain ⟨hm, ⟨hlt, rfl⟩ | ⟨hlt, hmore, rfl⟩⟩ := Hole.mem_remainders.mp hy
    · have := Hole.meets_eq_true.mp hm
      simp only
      omega
    · have : f.last + 1 < P.length := by simpa [PayloadFragment.more] using hmore
      simp only
      omega

/-- The heap after the fragment covers every offset covered so far: a
fragment is stored when it fills part of a hole, and one that fills none
covers only offsets covered before. -/
theorem heap_covers_after (hP : P.length ≤ maxUint16) (hinv : Inv P fs r) (f : PayloadFragment P)
    (x : ℕ) (hx : Covered (fs ++ [f]) x) :
    ∃ g ∈ (if r.holes.any (Hole.meets f.first f.last) then r.heap ++ [⟨f.first, f.vv⟩] else r.heap),
      g.Holds x := by
  rcases covered_append_singleton.mp hx with hold | hnew
  · obtain ⟨g, hg, hheld⟩ := hinv.heap_covers x hold
    exact ⟨g, by split_ifs <;> simp [hg], hheld⟩
  · split_ifs with hused
    · exact ⟨_, List.mem_append_right _ (List.mem_singleton_self _), (f.holds_iff x).mpr hnew⟩
    · -- no hole met the fragment, so `x` was covered before
      by_contra hnone
      have hcov : ¬Covered fs x := fun hold => hnone (hinv.heap_covers x hold)
      have hlt : x < P.length := by have := f.last_lt; unfold PayloadFragment.Covers at hnew; omega
      obtain ⟨h, hh, hdel, hfirst, hle⟩ := (hinv.inLive_iff x).mpr ⟨by omega, hcov, .inr hlt⟩
      apply hused
      rw [List.any_eq_true]
      refine ⟨h, hh, Hole.meets_eq_true.mpr ⟨hdel, ?_, ?_⟩⟩ <;>
        unfold PayloadFragment.Covers at hnew <;> omega

theorem heap_slices_after (hinv : Inv P fs r) (f : PayloadFragment P) :
    ∀ g ∈ (if r.holes.any (Hole.meets f.first f.last) then r.heap ++ [⟨f.first, f.vv⟩] else r.heap),
      g.SliceOf P := by
  intro g hg
  split_ifs at hg
  · rcases List.mem_append.mp hg with hg | hg
    · exact hinv.heap_slices g hg
    · rw [List.mem_singleton.mp hg]
      exact f.sliceOf
  · exact hinv.heap_slices g hg

/-- The step: `process` on a fragment of `P` does not panic, reports done
exactly when the fragments cover `P`, then returns `P`, and otherwise keeps
the invariant. -/
theorem process_inv (hP0 : 0 < P.length) (hP : P.length ≤ maxUint16) (hinv : Inv P fs r)
    (f : PayloadFragment P) :
    ∃ r' res done consumed,
      r.process f.first f.last f.more f.vv = .ok (r', res, done, consumed) ∧
      (done = true ↔ Complete (fs ++ [f])) ∧
      (done = true → res.bytes = P ∧ res.Consistent) ∧
      (done = false → Inv P (fs ++ [f]) r') := by
  set holes' := r.holes.map (Hole.mark f.first f.last) ++
    r.holes.flatMap (Hole.remainders f.first f.last f.more) with hholes'
  set heap' := (if r.holes.any (Hole.meets f.first f.last) then r.heap ++ [⟨f.first, f.vv⟩]
    else r.heap) with hheap'
  have hdel' : r.deleted + r.holes.countP (Hole.meets f.first f.last) = holes'.countP (·.deleted) := by
    rw [hholes', countP_deleted_update, hinv.deleted_eq]
  -- every hole is deleted exactly when the fragments cover `P`
  have hcomplete : ¬(holes'.countP (·.deleted) < holes'.length) ↔ Complete (fs ++ [f]) := by
    rw [exists_live_iff, ← not_iff_not, not_not, ← exists_awaited_iff hP0 hP (fs ++ [f])]
    constructor
    · rintro ⟨h, hh, hdel⟩
      have := holes_wf_after hinv f h hh
      exact ⟨h.first, (inLive_after hinv f h.first).mp ⟨h, hh, hdel, le_rfl, this.1⟩⟩
    · rintro ⟨x, hx⟩
      obtain ⟨h, hh, hdel, -⟩ := (inLive_after hinv f x).mpr hx
      exact ⟨h, hh, hdel⟩
  -- the reassembler after the fragment is stored
  rcases hst : r.storeFragment f.first f.last f.more f.vv with ⟨r1, consumed⟩
  have hr1 : r1 = { r with
      deleted := r.deleted + r.holes.countP (Hole.meets f.first f.last),
      size := if r.holes.any (Hole.meets f.first f.last) then r.size + f.vv.size else r.size,
      holes := holes', heap := heap' } := by
    rw [← storeFragment_fst, hst]
  have hinv' : Inv P (fs ++ [f]) r1 := by
    rw [hr1]
    exact ⟨hinv.not_done, holes_wf_after hinv f, hdel', inLive_after hinv f,
      heap_slices_after hinv f, heap_covers_after hP hinv f⟩
  have hlen : r1.deleted < r1.holes.length ↔ holes'.countP (·.deleted) < holes'.length := by
    rw [hr1, hdel']
  simp only [Reassembler.process, hinv.not_done, Bool.false_eq_true, ↓reduceIte, hst]
  by_cases hlt : r1.deleted < r1.holes.length
  · -- a hole is left: not done, and the invariant holds of the new state
    rw [if_pos hlt]
    have hnot : ¬Complete (fs ++ [f]) := fun h => hcomplete.mpr h (hlen.mp hlt)
    exact ⟨r1, .empty, false, consumed, rfl, by simpa using hnot, by simp, fun _ => hinv'⟩
  · -- every hole is deleted: the heap covers `P` and reassembles to it
    rw [if_neg hlt]
    have hdone := hcomplete.mp fun h => hlt (hlen.mpr h)
    obtain ⟨vv, hvv, hbytes, hcons⟩ := reassemble_slices hP0 hinv'.heap_slices
      (fun x hx => hinv'.heap_covers x (hdone x hx))
    rw [hvv]
    exact ⟨_, vv, true, consumed, rfl, by simpa using hdone, fun _ => ⟨hbytes, hcons⟩, by simp⟩

end Step

/-- `Fragmentation.Process` on one reassembler with no other call beside it:
`process`, and `release`'s `checkDoneOrMark` when the packet is complete. -/
def processMarked (r : Reassembler α) (first last : ℕ) (more : Bool) (vv : VectorisedView α) :
    Except Panic (Reassembler α × VectorisedView α × Bool) :=
  match r.process first last more vv with
  | .error e => .error e
  | .ok (r, res, done, _) => .ok (if done then r.checkDoneOrMark.2 else r, res, done)

/-- The results of the calls of `processMarked` for fragment after fragment. -/
def processAll : Reassembler α → List (ℕ × ℕ × Bool × VectorisedView α) →
    Except Panic (List (VectorisedView α × Bool))
  | _, [] => .ok []
  | r, (first, last, more, vv) :: fs =>
    match processMarked r first last more vv with
    | .error e => .error e
    | .ok (r, res, done) =>
      match processAll r fs with
      | .error e => .error e
      | .ok outs => .ok ((res, done) :: outs)

theorem processMarked_of_done {r : Reassembler α} (hd : r.done = true) (first last : ℕ)
    (more : Bool) (vv : VectorisedView α) :
    processMarked r first last more vv = .ok (r, .empty, false) := by
  simp [processMarked, Reassembler.process, hd]

/-- The run: from a reassembler that has the invariant for the fragments
`pre`, or is marked done once they cover `P`, the calls on `fs` report done
at the one call that completes the cover, with `P`, and nothing after. -/
theorem processAll_run {P : List α} (hP0 : 0 < P.length) (hP : P.length ≤ maxUint16) :
    ∀ (fs pre : List (PayloadFragment P)) (r : Reassembler α),
      (¬Complete pre → Inv P pre r) → (Complete pre → r.done = true) →
      ∃ outs, processAll r (fs.map PayloadFragment.args) = .ok outs ∧ outs.length = fs.length ∧
        ∀ k (hk : k < outs.length),
          ((outs[k]).2 = true ↔ Complete (pre ++ fs.take (k + 1)) ∧ ¬Complete (pre ++ fs.take k)) ∧
          ((outs[k]).2 = true → (outs[k]).1.bytes = P ∧ (outs[k]).1.Consistent) ∧
          (Complete (pre ++ fs.take k) → outs[k] = (.empty, false))
  | [], _, _, _, _ => ⟨[], rfl, rfl, fun k hk => absurd hk (Nat.not_lt_zero k)⟩
  | f :: fs, pre, r, hinv, hdone => by
    -- the first call, and the state the rest of the run starts from
    obtain ⟨r', res, done, hcall, hdone_iff, hres, hnext, hnext', hempty⟩ :
        ∃ r' res done, processMarked r f.first f.last f.more f.vv = .ok (r', res, done) ∧
          (done = true ↔ Complete (pre ++ [f]) ∧ ¬Complete pre) ∧
          (done = true → res.bytes = P ∧ res.Consistent) ∧
          (¬Complete (pre ++ [f]) → Inv P (pre ++ [f]) r') ∧
          (Complete (pre ++ [f]) → r'.done = true) ∧
          (Complete pre → res = .empty ∧ done = false) := by
      by_cases hpre : Complete pre
      · refine ⟨r, .empty, false, processMarked_of_done (hdone hpre) _ _ _ _, by simp [hpre],
          by simp, fun h => absurd (hpre.append [f]) h, fun _ => hdone hpre, fun _ => ⟨rfl, rfl⟩⟩
      · obtain ⟨r', res, done, consumed, hproc, hiff, hbytes, hkeep⟩ :=
          process_inv hP0 hP (hinv hpre) f
        refine ⟨if done then r'.checkDoneOrMark.2 else r', res, done, ?_, by simp [hiff, hpre],
          hbytes, fun hnot => ?_, fun hc => ?_, fun h => absurd h hpre⟩
        · simp [processMarked, hproc]
        · have hd : done = false := Bool.eq_false_iff.mpr fun h => hnot (hiff.mp h)
          simpa [hd] using hkeep hd
        · have hd : done = true := hiff.mpr hc
          simp [hd, Reassembler.checkDoneOrMark]
    obtain ⟨outs, hrun, hlen, hall⟩ := processAll_run hP0 hP fs (pre ++ [f]) _ hnext hnext'
    refine ⟨(res, done) :: outs, ?_, by simp [hlen], ?_⟩
    · simp [processAll, PayloadFragment.args, hcall, hrun]
    · intro k hk
      cases k with
      | zero =>
        refine ⟨by simpa using hdone_iff, hres, fun h => ?_⟩
        obtain ⟨rfl, rfl⟩ := hempty (by simpa using h)
        rfl
      | succ k =>
        have := hall k (by simpa using hk)
        simpa [List.take_succ_cons, List.append_assoc] using this

/-- The payload `[1, 2, 3]` in two overlapping fragments, the last one first,
and then the first again. -/
def sampleFragments : List (PayloadFragment [1, 2, 3]) :=
  [⟨1, 2, ⟨[[2], [3]], 2⟩, by decide, by decide, rfl, rfl⟩,
   ⟨0, 1, ⟨[[1, 2]], 2⟩, by decide, by decide, rfl, rfl⟩,
   ⟨0, 0, ⟨[[1]], 1⟩, le_rfl, by decide, rfl, rfl⟩]

example : processAll (newReassembler 0 0) (sampleFragments.map PayloadFragment.args) =
    .ok [(.empty, false), (⟨[[1, 2], [3]], 3⟩, true), (.empty, false)] := rfl

/-- `process` never marks the reassembler done: only `release` does, through
`checkDoneOrMark`. The call that completes the one-byte packet returns it and
leaves every hole deleted and the heap empty. So a next call on the reassembler
before it is marked panics in `heap.Pop`, whatever fragment it brings: the
fragment fills no hole, and the holes are all deleted. -/
theorem process_after_complete_panics (first last : ℕ) (more : Bool) (vv : VectorisedView ℕ) :
    ∃ r, (newReassembler 0 0 : Reassembler ℕ).process 0 0 false ⟨[[7]], 1⟩ =
        .ok (r, ⟨[[7]], 1⟩, true, 1) ∧ r.done = false ∧
      r.process first last more vv = .error .popEmpty := by
  refine ⟨⟨0, 1, [⟨0, maxUint16, true⟩], 1, [], false, 0⟩, rfl, rfl, ?_⟩
  -- the one hole is deleted, so `updateHoles` changes nothing and nothing is stored
  simp [Reassembler.process, Reassembler.storeFragment, updateHoles, updateHole, reassemble,
    popOrder]

end ContainerFS.Net
