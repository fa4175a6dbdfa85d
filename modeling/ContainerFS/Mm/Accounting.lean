import ContainerFS.Mm.Syscalls
import ContainerFS.Segment.Span

/-!
The address-space accounting of a `MemoryManager`. Every mapping call keeps `usageAS` equal to
the span of the vmas and `lockedAS` equal to the span of the memory-locked ones, with the vmas
sorted, nonempty and below the top of the address space (`Accounted`).

The counters are `uint64`s that the calls move by hand: `createVMALocked` and
`removeVMAsLocked` add and subtract the length of what they insert and remove, `MRemap` adds
and subtracts both ranges when it moves a vma, and `MLock` and `MLockAll` count only the vmas
whose mode changes between locked and unlocked. The vmas themselves are cut by `Isolate` and
joined again by the merges. Each operation of the segment set moves the spans as
`Segment.Span` says, and the vma functions keep the mode across a split and merge only vmas of
one mode (`splitKeeps_locked`, `mergeKeeps_locked`). So the invariant is one lemma per
function, each one citing the lemmas of the functions it calls, and `step_accounted` puts them
together for a call.
-/

namespace ContainerFS.Mm

open Segment Segment.Set Usermem

/-- The vmas that `lockedAS` counts. -/
def Vma.locked (v : Vma) : Bool := decide (v.mlockMode ≠ .none)

theorem splitKeeps_locked : SplitKeeps vmaSetFunctions Vma.locked := by
  intro r v x
  simp only [vmaSetFunctions]
  split <;> simp [Vma.locked]

theorem mergeKeeps_locked : MergeKeeps vmaSetFunctions Vma.locked := by
  intro r1 v1 r2 v2 m h
  simp only [vmaSetFunctions] at h
  split_ifs at h with hne
  cases h
  -- the vmas merge only when every field agrees, the mode among them
  have hmode : v1.mlockMode = v2.mlockMode := by
    by_contra hm
    exact hne (.inr (.inr (.inr (.inr (.inr (.inr (.inl hm)))))))
  simp [Vma.locked, hmode]

theorem vmaSetFunctions_maxKey : vmaSetFunctions.maxKey = 2 ^ 64 - 1 := rfl

/-- What a call returns after a `map` of what the call it makes returns. -/
theorem exists_of_map_eq_ok {ε α β : Type} {f : α → β} {e : Except ε α} {y : β}
    (h : e.map f = .ok y) : ∃ x, e = .ok x ∧ f x = y := by
  cases e with
  | error => cases h
  | ok x =>
    cases h
    exact ⟨x, rfl, rfl⟩

namespace MemoryManager

variable {mm mm' : MemoryManager} {ctx : Ctx}

/-- The counters of the memory manager are the spans of its vmas, and the vmas are a set as
its operations keep it. -/
structure Accounted (mm : MemoryManager) : Prop where
  wf : Wf vmaSetFunctions mm.vmas
  usage : mm.usageAS.toNat = span mm.vmas
  locked : mm.lockedAS.toNat = spanWhere Vma.locked mm.vmas

/-- A memory manager with no vmas and zero counters, as `NewMemoryManager` makes it. -/
theorem accounted_of_empty (hv : mm.vmas = []) (hu : mm.usageAS = 0) (hl : mm.lockedAS = 0) :
    mm.Accounted :=
  ⟨by rw [hv]; exact ⟨⟨List.Pairwise.nil, by simp⟩, by simp⟩, by simp [hv, hu, span],
    by simp [hv, hl]⟩

/-- The vmas of a set as its operations keep it hold fewer than `2^64` bytes, so a `uint64`
counts them. -/
theorem span_lt_of_wf {vmas : VmaSet} (hw : Wf vmaSetFunctions vmas) : span vmas < 2 ^ 64 := by
  have := hw.spanWhere_le (p := fun _ => true)
  rw [vmaSetFunctions_maxKey, ← span_eq_spanWhere] at this
  omega

theorem Accounted.span_lt (h : mm.Accounted) : span mm.vmas < 2 ^ 64 := span_lt_of_wf h.wf

/-- The invariant reads the vmas and the counters only. -/
theorem Accounted.frame (h : mm.Accounted) (hv : mm'.vmas = mm.vmas)
    (hu : mm'.usageAS = mm.usageAS) (hl : mm'.lockedAS = mm.lockedAS) : mm'.Accounted :=
  ⟨hv ▸ h.wf, hu ▸ hv ▸ h.usage, hl ▸ hv ▸ h.locked⟩

/-- Moving the brk leaves the counters as they are. -/
theorem Accounted.setBrk (h : mm.Accounted) (b : Range) : Accounted { mm with brk := b } :=
  h.frame rfl rfl rfl

/-- The spans of a list of vmas that the counters follow. -/
theorem weight_true (seg : Range × Vma) : weight (fun _ => true) seg = seg.1.length := rfl

/-- `vmas'` holds the keys of `vmas`, the locked ones among them, and is a set as its operations
keep it: what cutting, merging and changing values other than the mode leave. -/
structure Rearranged (vmas vmas' : VmaSet) : Prop where
  wf : Wf vmaSetFunctions vmas'
  span : span vmas' = span vmas
  locked : spanWhere Vma.locked vmas' = spanWhere Vma.locked vmas

theorem Rearranged.refl {vmas : VmaSet} (hw : Wf vmaSetFunctions vmas) : Rearranged vmas vmas :=
  ⟨hw, rfl, rfl⟩

theorem Rearranged.trans {a b c : VmaSet} (h1 : Rearranged a b) (h2 : Rearranged b c) :
    Rearranged a c :=
  ⟨h2.wf, h2.span.trans h1.span, h2.locked.trans h1.locked⟩

theorem rearranged_isolate {vmas : VmaSet} (hw : Wf vmaSetFunctions vmas) (i : ℕ) (r : Range) :
    Rearranged vmas (isolate vmaSetFunctions vmas i r).1 := by
  obtain ⟨hw', hu⟩ := isolate_spec splitKeeps_true hw i r
  rw [← span_eq_spanWhere, ← span_eq_spanWhere] at hu
  exact ⟨hw', hu, (isolate_spec splitKeeps_locked hw i r).2⟩

/-- A change of the value at one index that keeps its range and its mode. -/
theorem rearranged_modify {vmas : VmaSet} (hw : Wf vmaSetFunctions vmas)
    {f : Range × Vma → Range × Vma}
    (hf : ∀ seg, (f seg).1 = seg.1 ∧ (f seg).2.mlockMode = seg.2.mlockMode) (i : ℕ) :
    Rearranged vmas (vmas.modify i f) := by
  refine ⟨hw.modify (fun seg => (hf seg).1) i, ?_, ?_⟩
  · rw [span_eq_spanWhere, span_eq_spanWhere]
    exact spanWhere_modify (fun seg => by simp [weight, (hf seg).1]) _ _
  · exact spanWhere_modify (fun seg => by simp [weight, Vma.locked, hf seg]) _ _

/-- `MergeRange` then `MergeAdjacent` over `ar`, as `MProtect` and `MLock` leave the vmas. -/
theorem rearranged_merges {vmas : VmaSet} (hw : Wf vmaSetFunctions vmas) (ar : Range) :
    Rearranged vmas
      (mergeAdjacent vmaSetFunctions (mergeRange vmaSetFunctions vmas ar) ar) := by
  obtain ⟨hw1, hu1⟩ := mergeRange_spec mergeKeeps_true hw ar
  obtain ⟨hw2, hu2⟩ := mergeAdjacent_spec mergeKeeps_true hw1 ar
  have hl1 := (mergeRange_spec mergeKeeps_locked hw ar).2
  have hl2 := (mergeAdjacent_spec mergeKeeps_locked hw1 ar).2
  refine ⟨hw2, ?_, hl2.trans hl1⟩
  rw [span_eq_spanWhere, span_eq_spanWhere, hu2, hu1]

/-- Vmas that hold the same keys, locked and unlocked, as the memory manager's, in place of
them. -/
theorem Accounted.rearrange (h : mm.Accounted) {vmas : VmaSet} (hre : Rearranged mm.vmas vmas) :
    Accounted { mm with vmas } :=
  ⟨hre.wf, h.usage.trans hre.span.symm, h.locked.trans hre.locked.symm⟩

/-- The vma `j` of a rearrangement of the vmas removed, and its length taken off the
counters, as `removeVMAsLocked` does. -/
theorem Accounted.removeVma (h : mm.Accounted) {vmas : VmaSet} (hre : Rearranged mm.vmas vmas)
    {j : ℕ} {vmaAR : Range} {vma : Vma} (hj : vmas[j]? = some (vmaAR, vma)) :
    Accounted { mm with
      vmas := remove vmas j
      usageAS := mm.usageAS - UInt64.ofNat vmaAR.length
      lockedAS :=
        if vma.mlockMode ≠ .none then mm.lockedAS - UInt64.ofNat vmaAR.length else mm.lockedAS } := by
  have hlt := h.span_lt
  have husage := h.usage
  have hlocked := h.locked
  have hu := hre.span
  have hl := hre.locked
  have hu' := spanWhere_eraseIdx (p := fun _ => true) hj
  have hl' := spanWhere_eraseIdx (p := Vma.locked) hj
  dsimp only [weight_true] at hu'
  rw [← span_eq_spanWhere, ← span_eq_spanWhere] at hu'
  refine ⟨hre.wf.eraseIdx j, ?_, ?_⟩
  · simp only [remove, UInt64.toNat_sub, UInt64.toNat_ofNat']
    omega
  · simp only [remove]
    by_cases hm : vma.mlockMode = .none
    · simp only [weight, Vma.locked, hm, ne_eq, not_true_eq_false, decide_false,
        Bool.false_eq_true, if_false] at hl' ⊢
      omega
    · have hle := spanWhere_le_span (p := Vma.locked) mm.vmas
      simp only [weight, Vma.locked, hm, ne_eq, not_false_eq_true, decide_true, if_true] at hl' ⊢
      simp only [UInt64.toNat_sub, UInt64.toNat_ofNat']
      omega

/-- A vma inserted into a gap of the set, and its length added to the counters, as
`createVMALocked` and the copy and move of `MRemap` do. `n` is the length as the caller has it,
which the nonempty range it gives holds modulo `2^64`. -/
theorem Accounted.insertVma (h : mm.Accounted) {g : ℕ} (hg : g ≤ mm.vmas.length) {ar : Range}
    (har : ar.stop < 2 ^ 64) {n : ℕ} (hn : ar.length = n % 2 ^ 64) {vma : Vma} {vmas : VmaSet}
    {i : ℕ} (hins : Segment.Set.insert vmaSetFunctions mm.vmas g ar vma = .ok (vmas, i)) :
    Accounted { mm with
      vmas
      usageAS := mm.usageAS + UInt64.ofNat n
      lockedAS :=
        if vma.mlockMode ≠ .none then mm.lockedAS + UInt64.ofNat n else mm.lockedAS } := by
  have hw : Wf vmaSetFunctions vmas := h.wf.insert hg (by rw [vmaSetFunctions_maxKey]; omega) hins
  have hlt := span_lt_of_wf hw
  have hle := spanWhere_le_span (p := Vma.locked) vmas
  have husage := h.usage
  have hlocked := h.locked
  have hu := spanWhere_insert (p := fun _ => true) mergeKeeps_true h.wf.sorted hg hins
  have hl := spanWhere_insert (p := Vma.locked) mergeKeeps_locked h.wf.sorted hg hins
  dsimp only [weight_true] at hu hl
  rw [← span_eq_spanWhere, ← span_eq_spanWhere] at hu
  refine ⟨hw, ?_, ?_⟩
  · simp only [UInt64.toNat_add, UInt64.toNat_ofNat']
    omega
  · by_cases hm : vma.mlockMode = .none
    · simp only [weight, Vma.locked, hm, ne_eq, not_true_eq_false, decide_false,
        Bool.false_eq_true, if_false] at hl ⊢
      omega
    · simp only [weight, Vma.locked, hm, ne_eq, not_false_eq_true, decide_true, if_true] at hl ⊢
      simp only [UInt64.toNat_add, UInt64.toNat_ofNat']
      omega

/-- Each round of `removeVMAsLocked` takes one vma, cut to `ar`, off the vmas and the counters;
the gap it leaves stays a gap of the set. -/
theorem removeFrom_accounted (ar : Range) : ∀ (fuel : ℕ) (mm : MemoryManager) (i gap : ℕ)
    {mm' : MemoryManager} {gap' : ℕ}, mm.Accounted → gap ≤ mm.vmas.length →
    removeFrom ar fuel mm i gap = .ok (mm', gap') → mm'.Accounted ∧ gap' ≤ mm'.vmas.length
  | 0, _, _, _, _, _, _, _, h => by cases h
  | fuel + 1, mm, i, gap, mm', gap', hacc, hgap, h => by
    unfold removeFrom at h
    split at h
    · split_ifs at h
      · split at h
        rename_i vmas j hiso
        split at h
        · rename_i vmaAR vma hj
          have hre := rearranged_isolate hacc.wf i ar
          rw [hiso] at hre
          refine removeFrom_accounted ar fuel _ j j (hacc.removeVma hre hj) ?_ h
          have hj' := (List.getElem?_eq_some_iff.mp hj).1
          simp only [remove, List.length_eraseIdx_of_lt hj']
          omega
        · cases h
      · cases h
        exact ⟨hacc, hgap⟩
    · cases h
      exact ⟨hacc, hgap⟩

/-- `removeVMAsLocked` keeps the counters exact, and returns a gap of the set. -/
theorem removeVMAs_accounted {ar : Range} {gap : ℕ} (hacc : mm.Accounted)
    (h : mm.removeVMAs ar = .ok (mm', gap)) : mm'.Accounted ∧ gap ≤ mm'.vmas.length := by
  unfold removeVMAs at h
  split at h
  · rename_i i hi
    obtain ⟨seg, hseg, -⟩ := find_eq_segment hi
    exact removeFrom_accounted ar _ mm i i hacc
      (List.getElem?_eq_some_iff.mp hseg).1.le h
  · rename_i g hg
    exact removeFrom_accounted ar _ mm g g hacc (find_eq_gap hg).1 h

/-- `createVMALocked` keeps the counters exact: its checks return the memory manager as it
was, `Unmap` removes the vmas of the range through `unmapLocked`, and the new vma goes into the
gap at its start with its length added to the counters. -/
theorem createVMA_accounted (hacc : mm.Accounted) {opts : MMapOpts}
    {res : Except Errno (ℕ × Range)} (h : mm.createVMA ctx opts = .ok (mm', res)) :
    mm'.Accounted := by
  unfold createVMA at h
  rcases ite_eq_iff.mp h with ⟨-, h⟩ | ⟨-, h⟩
  · cases h
  cases hfind : mm.findAvailable opts.length ⟨opts.addr, opts.fixed, opts.unmap, opts.map32Bit⟩ with
  | error p =>
    rw [hfind] at h
    cases h
  | ok found =>
    rw [hfind] at h
    cases found with
    | error e =>
      cases h
      exact hacc
    | ok addr =>
      dsimp only at h
      -- the checks against `RLIMIT_AS` and `RLIMIT_MEMLOCK` leave the memory manager as it was
      rcases ite_eq_iff.mp h with ⟨-, h⟩ | ⟨-, h⟩
      · cases h
        exact hacc
      split at h
      · cases h
        exact hacc
      generalize hrem : (if opts.unmap then (mm.removeVMAs (toRange addr opts.length).1).map
          (fun res => (res.1, some res.2))
        else .ok (mm, findGap mm.vmas (toRange addr opts.length).1.start) :
          Except Panic (MemoryManager × Option ℕ)) = removed at h
      cases removed with
      | error p => cases h
      | ok removed =>
        obtain ⟨mm1, vgap⟩ := removed
        -- what `unmapLocked` left, or the memory manager and the gap at the address
        have hacc1 : mm1.Accounted ∧ ∀ g, vgap = some g → g ≤ mm1.vmas.length := by
          split at hrem
          · cases hr : mm.removeVMAs (toRange addr opts.length).1 with
            | error p => simp [hr, Except.map] at hrem
            | ok r =>
              simp only [hr, Except.map, Except.ok.injEq, Prod.mk.injEq] at hrem
              obtain ⟨rfl, rfl⟩ := hrem
              obtain ⟨hacc1, hgap⟩ := removeVMAs_accounted hacc hr
              exact ⟨hacc1, fun g hg => by cases hg; exact hgap⟩
          · cases hrem
            exact ⟨hacc, fun g hg => findGap_le hg⟩
        dsimp only at h
        rcases ite_eq_iff.mp h with ⟨-, h⟩ | ⟨-, h⟩
        · -- `AddMapping` failed after the unmapping
          cases h
          exact hacc1.1
        cases vgap with
        | none => cases h
        | some g =>
          dsimp only at h
          split at h
          · cases h
          · rename_i vmas i hins
            cases h
            have hne := insert_length_ne_zero hins
            exact hacc1.1.insertVma (hacc1.2 g rfl) (toRange_stop_lt _ _)
              (toRange_length_of_ne_zero hne) hins

/-- A call behind a `map` that keeps the memory manager it returns. -/
theorem accounted_of_map {α β : Type} {e : Except Panic (MemoryManager × β)}
    {f : MemoryManager × β → MemoryManager × α}
    (he : ∀ mm1 b, e = .ok (mm1, b) → mm1.Accounted) {r : α} (h : e.map f = .ok (mm', r))
    (hf : ∀ res, (f res).1 = res.1) : mm'.Accounted := by
  obtain ⟨⟨mm1, b⟩, hres, hfres⟩ := exists_of_map_eq_ok h
  have := congrArg Prod.fst hfres
  rw [hf] at this
  subst this
  exact he mm1 b hres

/-- `MMap` keeps the counters exact: its checks and the new shared anonymous mappable change no
vma, and `createVMALocked` does the rest. -/
theorem mmap_accounted (hacc : mm.Accounted) {opts : MMapOpts} {r : Except Errno ℕ}
    (h : mm.mmap ctx opts = .ok (mm', r)) : mm'.Accounted := by
  unfold mmap at h
  dsimp only at h
  -- the length is checked and rounded up
  split at h
  · cases h
    exact hacc
  split at h
  · cases h
    exact hacc
  split at h
  · cases h
    exact hacc
  rename_i mm1 opts1 hprep
  -- a new shared anonymous mappable takes the next identity and changes no vma
  have hacc1 : mm1.Accounted := by
    split at hprep
    · split_ifs at hprep
      cases hprep
      exact hacc
    · split_ifs at hprep
      · cases hprep
        exact hacc.frame rfl rfl rfl
      · cases hprep
        exact hacc
  split at h
  · cases h
    exact hacc1
  split_ifs at h
  -- the checks of the permissions and flags return the memory manager as it was
  any_goals (cases h; exact hacc1)
  -- with the lock mode raised to the default or not, `createVMALocked` does the rest
  all_goals
    split at h
    · cases h
    · cases h
      exact createVMA_accounted hacc1 ‹_›
    · cases h
      exact createVMA_accounted hacc1 ‹_›

/-- `MUnmap` keeps the counters exact. -/
theorem munmap_accounted (hacc : mm.Accounted) {addr length : ℕ} {r : Except Errno Unit}
    (h : mm.munmap addr length = .ok (mm', r)) : mm'.Accounted := by
  unfold munmap at h
  dsimp only at h
  split_ifs at h
  -- every check returns the memory manager as it was
  any_goals (cases h; exact hacc)
  exact accounted_of_map (fun _ _ he => (removeVMAs_accounted hacc he).1) h fun _ => rfl

/-- `MRemap`'s copy and move of the vma `i` keep the counters exact, when that vma starts at or
before `oldAddr` and the range to move is nonempty: the vma is cut to `[oldAddr, oldEnd)`,
which the counters lose, and inserted at `newAR`, which they gain. -/
theorem remapTo_accounted (hacc : mm.Accounted) {i oldAddr oldEnd oldSize : ℕ} {newAR : Range}
    (hstart : ∀ vr v, mm.vmas[i]? = some (vr, v) → vr.start ≤ oldAddr)
    (hold : oldSize ≠ 0 → oldAddr < oldEnd) (hnew : newAR.stop < 2 ^ 64) {r : Except Errno ℕ}
    (h : mm.remapTo ctx i oldAddr oldEnd oldSize newAR = .ok (mm', r)) : mm'.Accounted := by
  have hn : newAR.length = newAR.length % 2 ^ 64 := by
    unfold Range.length
    omega
  unfold remapTo at h
  split at h
  · cases h
  rename_i vr vma hi
  dsimp only at h
  -- the checks return the memory manager as it was
  split at h
  · cases h
    exact hacc
  rename_i hend
  split at h
  · cases h
    exact hacc
  split at h
  · cases h
    exact hacc
  split at h
  · cases h
    exact hacc
  split at h
  · -- a copy: the vma, its offset advanced to `oldAddr`, inserted at `newAR`
    generalize hcopy : (if vma.mappable.isSome = true then
      { vma with off := (vma.off + (oldAddr - vr.start)) % 2 ^ 64 } else vma) = copy at h
    split at h
    · cases h
    rename_i g hg
    split at h
    · cases h
    rename_i vmas j hins
    cases h
    exact hacc.insertVma (findGap_le hg) hnew hn hins
  · -- a move: the vma cut to `[oldAddr, oldEnd)`, removed, and inserted at `newAR`
    rename_i hsize
    split at h
    · cases h
    rename_i oldAR' moved hj
    have hlt := hold hsize
    have hvr : vr.start < vr.stop := hacc.wf.sorted.2 _ (List.mem_of_getElem? hi)
    have hle := hstart vr vma hi
    obtain ⟨v', hiso⟩ := isolate_getElem? vmaSetFunctions hi hvr (a := ⟨oldAddr, oldEnd⟩) hlt
      ⟨by simp only at hend ⊢; omega, by simp only; omega⟩
    have hcut : vr.intersect ⟨oldAddr, oldEnd⟩ = ⟨oldAddr, oldEnd⟩ :=
      Range.intersect_eq_right hle (by simp only at hend ⊢; omega) hlt.le
    rw [hcut] at hiso
    rw [hiso] at hj
    obtain ⟨rfl, rfl⟩ := Prod.mk.inj (Option.some.inj hj)
    have hacc2 := hacc.removeVma (rearranged_isolate hacc.wf i ⟨oldAddr, oldEnd⟩) hiso
    split at h
    · cases h
    rename_i g hg
    split at h
    · cases h
    rename_i vmas j hins
    cases h
    have hacc3 := hacc2.insertVma (findGap_le hg) hnew hn hins
    -- the counters moved by both lengths at once
    by_cases hm : v'.mlockMode = .none
    · simpa [hm] using hacc3
    · simpa [hm] using hacc3

/-- Without `Unmap`, a `createVMALocked` that returns an error leaves the memory manager as it
was, so `MRemap` can fall back to a move from the same vmas. -/
theorem createVMA_eq_of_error {opts : MMapOpts} (hu : opts.unmap = false) {e : Errno}
    (h : mm.createVMA ctx opts = .ok (mm', .error e)) : mm' = mm := by
  unfold createVMA at h
  rcases ite_eq_iff.mp h with ⟨-, h⟩ | ⟨-, h⟩
  · cases h
  cases hfind : mm.findAvailable opts.length ⟨opts.addr, opts.fixed, opts.unmap, opts.map32Bit⟩ with
  | error p =>
    rw [hfind] at h
    cases h
  | ok found =>
    rw [hfind] at h
    cases found with
    | error e =>
      cases h
      rfl
    | ok addr =>
      simp only [hu, Bool.false_eq_true, ↓reduceIte] at h
      rcases ite_eq_iff.mp h with ⟨-, h⟩ | ⟨-, h⟩
      · cases h
        rfl
      split at h
      · cases h
        rfl
      rcases ite_eq_iff.mp h with ⟨-, h⟩ | ⟨-, h⟩
      · cases h
        rfl
      -- past the checks `createVMALocked` inserts the vma or panics
      split at h
      · cases h
      split at h
      · cases h
      · cases h

/-- Where `MRemap` moves a mapping when it does not stay in place: a range `findAvailableLocked`
chose, or `NewAddr` once the destination and the shrunk tail of the source are unmapped. -/
theorem mremapRelocate_accounted (hacc : mm.Accounted) {i oldAddr oldEnd oldSize newSize : ℕ}
    {opts : MRemapOpts} (hstart : ∀ vr v, mm.vmas[i]? = some (vr, v) → vr.start ≤ oldAddr)
    (hold : oldSize ≠ 0 → oldAddr < oldEnd) (hpos : newSize ≠ 0) {r : Except Errno ℕ}
    (h : mm.mremapRelocate ctx i oldAddr oldEnd oldSize newSize opts = .ok (mm', r)) :
    mm'.Accounted := by
  unfold mremapRelocate at h
  split at h
  · -- `MRemapMayMove`
    split at h
    · cases h
    · cases h
      exact hacc
    · exact remapTo_accounted hacc hstart hold (toRange_stop_lt _ _) h
  · -- `MRemapMustMove`
    dsimp only at h
    split at h
    · cases h
      exact hacc
    split at h
    · cases h
      exact hacc
    split at h
    · cases h
      exact hacc
    split at h
    · cases h
    rename_i mm1 gap1 hrem1
    have hacc1 := (removeVMAs_accounted hacc hrem1).1
    generalize hshrunk : (if newSize < oldSize then
        (mm1.removeVMAs ⟨oldAddr + newSize, oldEnd⟩).map fun res => (res.1, oldAddr + newSize)
      else .ok (mm1, oldEnd) : Except Panic (MemoryManager × ℕ)) = shrunk at h
    cases shrunk with
    | error p => cases h
    | ok shrunk =>
      obtain ⟨mm2, oldEnd2⟩ := shrunk
      -- the shrunk tail of the source unmapped, the source now ending at `oldAddr + newSize`
      have hacc2 : mm2.Accounted ∧ (oldSize ≠ 0 → oldAddr < oldEnd2) := by
        split at hshrunk
        · obtain ⟨res, hres, hfres⟩ := exists_of_map_eq_ok hshrunk
          obtain ⟨rfl, rfl⟩ := Prod.mk.inj hfres
          exact ⟨(removeVMAs_accounted hacc1 hres).1, fun _ => by omega⟩
        · cases hshrunk
          exact ⟨hacc1, hold⟩
      dsimp only at h
      split at h
      · cases h
      rename_i i2 hi2
      -- the vma at `oldAddr` looked up again
      obtain ⟨seg, hseg, hc⟩ := findSegmentIndex_contains hi2
      refine remapTo_accounted hacc2.1 (fun vr v hv => ?_) hacc2.2 (toRange_stop_lt _ _) h
      rw [hseg, Option.some.injEq] at hv
      subst hv
      exact ((contains_iff _ _).mp hc).1
  · -- `MRemapNoMove` does not get here
    exact remapTo_accounted hacc hstart hold (by simp) h

/-- `MRemap` keeps the counters exact, in every move mode and for every relation of the sizes:
shrinking in place unmaps the tail, growing in place creates a vma after the old one, and
else the mapping is copied or moved. -/
theorem mremap_accounted (hacc : mm.Accounted) {oldAddr oldSize newSize : ℕ} {opts : MRemapOpts}
    {r : Except Errno ℕ} (h : mm.mremap ctx oldAddr oldSize newSize opts = .ok (mm', r)) :
    mm'.Accounted := by
  unfold mremap at h
  dsimp only at h
  split at h
  · cases h
    exact hacc
  split at h
  · cases h
    exact hacc
  rename_i hnew
  split at h
  · cases h
    exact hacc
  rename_i hend
  split at h
  · cases h
    exact hacc
  rename_i i hi
  split at h
  · cases h
  rename_i vr vma hvr
  -- the vma at `oldAddr` starts at or before it, and a nonempty source ends after it
  have hstart : ∀ vr' v, mm.vmas[i]? = some (vr', v) → vr'.start ≤ oldAddr := by
    intro vr' v hv
    obtain ⟨seg, hseg, hc⟩ := findSegmentIndex_contains hi
    rw [hseg, Option.some.injEq] at hv
    subst hv
    exact ((contains_iff _ _).mp hc).1
  have hold : (roundUp oldSize).1 ≠ 0 →
      oldAddr < (addLength oldAddr (roundUp oldSize).1).1 := by
    intro hne
    simp only [Bool.not_eq_true', Bool.not_eq_false] at hend
    rw [addLength_of_ok (by simpa using hend)]
    omega
  have hpos : (roundUp newSize).1 ≠ 0 := by
    simp only [Bool.not_eq_eq_eq_not, Bool.not_true, not_or] at hnew
    exact hnew.2
  split at h
  · cases h
    exact hacc
  split at h
  · split at h
    · split at h
      · exact accounted_of_map (fun _ _ he => (removeVMAs_accounted hacc he).1) h fun _ => rfl
      · cases h
        exact hacc
    · split at h
      · cases h
        exact hacc
      split at h
      · cases h
      · cases h
        exact createVMA_accounted hacc ‹_›
      · -- growing in place failed and left the vmas as they were
        rename_i mm1 e hcreate
        obtain rfl := createVMA_eq_of_error rfl hcreate
        split at h
        · cases h
          exact hacc
        · exact mremapRelocate_accounted hacc hstart hold hpos h
  · exact mremapRelocate_accounted hacc hstart hold hpos h

/-- Each round of `MProtect` cuts a vma to the range and changes its permissions, which are not
what the counters count. -/
theorem protectFrom_rearranged (ar : Range) (realPerms effectivePerms : AccessType) :
    ∀ (fuel : ℕ) (vmas : VmaSet) (i : ℕ) {vmas' : VmaSet} {r : Except Errno Unit},
      Wf vmaSetFunctions vmas →
      protectFrom ar realPerms effectivePerms fuel vmas i = .ok (vmas', r) → Rearranged vmas vmas'
  | 0, _, _, _, _, _, h => by cases h
  | fuel + 1, vmas, i, vmas', r, hw, h => by
    unfold protectFrom at h
    split at h
    · cases h
    split at h
    · cases h
      exact .refl hw
    dsimp only at h
    -- the vma cut to `ar`, with the new permissions and its mode as it was
    have hre := rearranged_isolate hw i ar
    have hre' : Rearranged vmas ((isolate vmaSetFunctions vmas i ar).1.modify
        (isolate vmaSetFunctions vmas i ar).2
        fun seg => (seg.1, { seg.2 with realPerms, effectivePerms })) :=
      hre.trans (rearranged_modify hre.wf (by intro; exact ⟨rfl, rfl⟩) _)
    split at h
    · cases h
    split at h
    · cases h
      exact hre'
    split at h
    · exact hre'.trans (protectFrom_rearranged ar realPerms effectivePerms fuel _ _ hre'.wf h)
    · cases h
      exact hre'

/-- `MProtect` keeps the counters exact. -/
theorem mprotect_accounted (hacc : mm.Accounted) {addr length : ℕ} {realPerms : AccessType}
    {growsDown : Bool} {r : Except Errno Unit}
    (h : mm.mprotect addr length realPerms growsDown = .ok (mm', r)) : mm'.Accounted := by
  unfold mprotect at h
  dsimp only at h
  repeat' split at h
  all_goals cases h
  -- every check returns the memory manager as it was; past them every vma of the range is
  -- protected, and the vmas of the range are merged back
  all_goals first
    | exact hacc
    | exact hacc.rearrange ((protectFrom_rearranged _ _ _ _ _ _ hacc.wf ‹_›).trans
        (rearranged_merges (protectFrom_rearranged _ _ _ _ _ _ hacc.wf ‹_›).wf _))

/-- The vma `j` of a rearrangement of the vmas given the mode `mode`, `lockedAS` following it
between locked and unlocked, as `MLock` does. -/
theorem Accounted.setMode (h : mm.Accounted) {vmas : VmaSet} (hre : Rearranged mm.vmas vmas)
    {j : ℕ} {vr : Range} {v : Vma} (hj : vmas[j]? = some (vr, v)) (mode : MLockMode) :
    Accounted { mm with
      vmas := vmas.set j (vr, { v with mlockMode := mode })
      lockedAS :=
        if mode ≠ .none ∧ v.mlockMode = .none then mm.lockedAS + UInt64.ofNat vr.length
        else if mode = .none ∧ v.mlockMode ≠ .none then mm.lockedAS - UInt64.ofNat vr.length
        else mm.lockedAS } := by
  have hw : Wf vmaSetFunctions (vmas.set j (vr, { v with mlockMode := mode })) := hre.wf.set hj rfl
  have hlt := span_lt_of_wf hw
  have hle := spanWhere_le_span (p := Vma.locked) (vmas.set j (vr, { v with mlockMode := mode }))
  have husage := h.usage
  have hlocked := h.locked
  have hu := hre.span
  have hl := hre.locked
  have hu' := spanWhere_set (p := fun _ => true) hj (vr, { v with mlockMode := mode })
  have hl' := spanWhere_set (p := Vma.locked) hj (vr, { v with mlockMode := mode })
  dsimp only [weight_true] at hu'
  rw [← span_eq_spanWhere, ← span_eq_spanWhere] at hu'
  refine ⟨hw, by simp only; omega, ?_⟩
  -- the four ways the mode can change between locked and unlocked
  simp only [weight, Vma.locked] at hl'
  by_cases hm : mode = .none
  · subst hm
    by_cases hv : v.mlockMode = .none <;>
      simp only [hv, ne_eq, not_true_eq_false, not_false_eq_true, decide_false, decide_true,
        Bool.false_eq_true, if_false, if_true, and_true, and_false,
        UInt64.toNat_sub, UInt64.toNat_ofNat'] at hl' ⊢ <;>
      omega
  · by_cases hv : v.mlockMode = .none <;>
      simp only [hm, hv, ne_eq, not_true_eq_false, not_false_eq_true, decide_false, decide_true,
        Bool.false_eq_true, if_false, if_true, and_true, and_false,
        UInt64.toNat_add, UInt64.toNat_ofNat'] at hl' ⊢ <;>
      omega

/-- Each round of `MLock` cuts a vma to the range and gives it the mode. -/
theorem mlockFrom_accounted (ar : Range) (mode : MLockMode) :
    ∀ (fuel : ℕ) (mm : MemoryManager) (i : Option ℕ) {mm' : MemoryManager} {unmapped : Bool},
      mm.Accounted → mlockFrom ar mode fuel mm i = .ok (mm', unmapped) → mm'.Accounted
  | 0, _, _, _, _, _, h => by cases h
  | fuel + 1, mm, none, mm', unmapped, hacc, h => by
    cases h
    exact hacc
  | fuel + 1, mm, some i, mm', unmapped, hacc, h => by
    unfold mlockFrom at h
    dsimp only at h
    split at h
    · cases h
    rename_i vr v hj
    have hacc1 := hacc.setMode (rearranged_isolate hacc.wf i ar) hj mode
    split at h
    · cases h
      exact hacc1
    · exact mlockFrom_accounted ar mode fuel _ _ hacc1 h

/-- `MLock` keeps the counters exact, also when it stops at a gap of the range. -/
theorem mlock_accounted (hacc : mm.Accounted) {addr length : ℕ} {mode : MLockMode}
    {r : Except Errno Unit} (h : mm.mlock ctx addr length mode = .ok (mm', r)) :
    mm'.Accounted := by
  unfold mlock at h
  dsimp only at h
  repeat' split at h
  all_goals cases h
  -- every check returns the memory manager as it was; past them the vmas of the range take
  -- the mode and are merged back
  all_goals first
    | exact hacc
    | exact (mlockFrom_accounted _ _ _ _ _ hacc ‹_›).rearrange
        (rearranged_merges (mlockFrom_accounted _ _ _ _ _ hacc ‹_›).wf _)

theorem mlockAllFrom_fst (mode : MLockMode) :
    ∀ (vmas : VmaSet) (lockedAS : UInt64),
      (mlockAllFrom mode vmas lockedAS).1 = vmas.map fun seg => (seg.1, { seg.2 with mlockMode := mode })
  | [], _ => rfl
  | (r, v) :: rest, lockedAS => by
    simp only [mlockAllFrom, List.map_cons]
    rw [← mlockAllFrom_fst mode rest]

/-- The loop of `MLockAll` keeps `lockedAS` equal to `c` plus the locked span of what it
returns, when it starts so and the sums stay below `2^64`. -/
theorem mlockAllFrom_locked (mode : MLockMode) :
    ∀ (vmas : VmaSet) (lockedAS : UInt64) (c : ℕ),
      lockedAS.toNat = c + spanWhere Vma.locked vmas → c + span vmas < 2 ^ 64 →
      (mlockAllFrom mode vmas lockedAS).2.toNat =
        c + spanWhere Vma.locked (mlockAllFrom mode vmas lockedAS).1
  | [], _, _, hl, _ => by simpa [mlockAllFrom] using hl
  | (r, v) :: rest, lockedAS, c, hl, hlt => by
    simp only [mlockAllFrom]
    have hw := weight_le (p := Vma.locked) (r, { v with mlockMode := mode })
    have hrest := spanWhere_le_span (p := Vma.locked) rest
    simp only [span_cons, spanWhere_cons] at hl hlt hw ⊢
    -- the first vma's change of mode moves `lockedAS` into `c`
    refine (mlockAllFrom_locked mode rest _ (c + weight Vma.locked (r, { v with mlockMode := mode }))
      ?_ (by omega)).trans (by omega)
    simp only [weight, Vma.locked] at hl ⊢
    by_cases hm : mode = .none
    · subst hm
      by_cases hv : v.mlockMode = .none <;>
        simp only [hv, ne_eq, not_true_eq_false, not_false_eq_true, decide_false, decide_true,
          Bool.false_eq_true, if_false, if_true, and_true, and_false,
          UInt64.toNat_sub, UInt64.toNat_ofNat'] at hl ⊢ <;>
        omega
    · by_cases hv : v.mlockMode = .none <;>
        simp only [hm, hv, ne_eq, not_true_eq_false, not_false_eq_true, decide_false, decide_true,
          Bool.false_eq_true, if_false, if_true, and_true, and_false,
          UInt64.toNat_add, UInt64.toNat_ofNat'] at hl ⊢ <;>
        omega

/-- The vmas and `lockedAS` that the loop of `MLockAll` leaves. -/
theorem Accounted.mlockAllLoop (h : mm.Accounted) (mode : MLockMode) :
    Accounted { mm with
      vmas := (mlockAllFrom mode mm.vmas mm.lockedAS).1
      lockedAS := (mlockAllFrom mode mm.vmas mm.lockedAS).2 } := by
  refine ⟨?_, ?_, ?_⟩
  · rw [mlockAllFrom_fst]
    exact h.wf.map_values fun v => { v with mlockMode := mode }
  · show mm.usageAS.toNat = span (mlockAllFrom mode mm.vmas mm.lockedAS).1
    rw [mlockAllFrom_fst]
    -- the `have` that the structure update leaves in the map blocks `rw`, not `exact`
    exact h.usage.trans (span_map_values mm.vmas fun v : Vma => { v with mlockMode := mode }).symm
  · simpa using mlockAllFrom_locked mode mm.vmas mm.lockedAS 0 (by simpa using h.locked)
      (by simpa using h.span_lt)

/-- `MLockAll` keeps the counters exact. -/
theorem mlockAll_accounted (hacc : mm.Accounted) {opts : MLockAllOpts} {r : Except Errno Unit}
    (h : mm.mlockAll ctx opts = .ok (mm', r)) : mm'.Accounted := by
  unfold mlockAll at h
  dsimp only at h
  repeat' split at h
  all_goals cases h
  -- the current vmas take the mode, and future mappings take it as the default
  all_goals first
    | exact hacc.frame rfl rfl rfl
    | exact (hacc.mlockAllLoop opts.mode).frame rfl rfl rfl

/-- `BrkSetup` keeps the counters exact: the old heap is unmapped through `removeVMAs`. -/
theorem brkSetup_accounted (hacc : mm.Accounted) {addr : ℕ} (h : mm.brkSetup addr = .ok mm') :
    mm'.Accounted := by
  unfold brkSetup at h
  obtain ⟨mm1, hmm1, rfl⟩ := exists_of_map_eq_ok h
  have hacc1 : mm1.Accounted := by
    split at hmm1
    · obtain ⟨⟨mm2, gap⟩, hrem, rfl⟩ := exists_of_map_eq_ok hmm1
      exact (removeVMAs_accounted hacc hrem).1
    · cases hmm1
      exact hacc
  exact hacc1.setBrk _

/-- The part of `Brk` under `mappingMu` keeps the counters exact: the heap grows by
`createVMA` and shrinks by `removeVMAs`. -/
theorem brkLocked_accounted (hacc : mm.Accounted) {addr : ℕ} {r : Option (ℕ × Errno)}
    (h : mm.brkLocked ctx addr = .ok (mm', r)) : mm'.Accounted := by
  unfold brkLocked at h
  dsimp only at h
  repeat' split at h
  -- the checks return `mm` itself; a change comes from `removeVMAs` or `createVMA`
  all_goals first
    | (cases h; exact hacc)
    | exact accounted_of_map (fun _ _ he => (removeVMAs_accounted hacc he).1) h fun _ => rfl
    | exact accounted_of_map (fun _ _ he => createVMA_accounted hacc he) h fun _ => rfl

/-- `Brk` keeps the counters exact: the store of the new end changes no vma. -/
theorem brkCall_accounted (hacc : mm.Accounted) {addr : ℕ} {r : ℕ × Option Errno}
    (h : mm.brkCall ctx addr = .ok (mm', r)) : mm'.Accounted := by
  obtain ⟨⟨mm1, r1⟩, hlocked, hres⟩ := exists_of_map_eq_ok h
  have hacc1 := brkLocked_accounted hacc hlocked
  rcases r1 with _ | ⟨brkEnd, e⟩ <;> cases hres
  · exact hacc1.setBrk _
  · exact hacc1

/-- A call whose new state is the first component of its result keeps the counters exact if
every result it can return has them exact. -/
theorem accounted_of_map_fst {β : Type} {e : Except Panic (MemoryManager × β)}
    (he : ∀ mm1 b, e = .ok (mm1, b) → mm1.Accounted) (h : e.map Prod.fst = .ok mm') :
    mm'.Accounted := by
  obtain ⟨⟨mm1, b⟩, hres, rfl⟩ := exists_of_map_eq_ok h
  exact he mm1 b hres

end MemoryManager

open MemoryManager in
/-- Every mapping call keeps the counters exact, whatever it returns. -/
theorem step_accounted {mm mm' : MemoryManager} {ctx : Ctx} (hacc : mm.Accounted) {op : Op}
    (h : step ctx mm op = .ok mm') : mm'.Accounted := by
  cases op with
  | mmap opts => exact accounted_of_map_fst (fun _ _ => mmap_accounted hacc) h
  | munmap addr length => exact accounted_of_map_fst (fun _ _ => munmap_accounted hacc) h
  | mremap oldAddr oldSize newSize opts =>
    exact accounted_of_map_fst (fun _ _ => mremap_accounted hacc) h
  | mprotect addr length realPerms growsDown =>
    exact accounted_of_map_fst (fun _ _ => mprotect_accounted hacc) h
  | brkSetup addr => exact brkSetup_accounted hacc h
  | brk addr => exact accounted_of_map_fst (fun _ _ => brkCall_accounted hacc) h
  | mlock addr length mode => exact accounted_of_map_fst (fun _ _ => mlock_accounted hacc) h
  | mlockAll opts => exact accounted_of_map_fst (fun _ _ => mlockAll_accounted hacc) h

theorem MemoryManager.accounted_new (layout : MmapLayout) : (MemoryManager.new layout).Accounted :=
  MemoryManager.accounted_of_empty rfl rfl rfl

/-- The run lemma: the counters are exact in every reachable memory manager. -/
theorem Reachable.accounted {mm : MemoryManager} (h : Reachable mm) : mm.Accounted := by
  induction h with
  | new layout => exact MemoryManager.accounted_new layout
  | step ctx op _ hstep ih => exact step_accounted ih hstep

/-- In every reachable memory manager the vmas are non-empty, in address order without
overlap and below `2^64`; `usageAS` is their total length, and `lockedAS` the total length of
those whose `mlockMode` is not `MLockNone`. -/
theorem reachable_accounting_exact {mm : MemoryManager} (h : Reachable mm) :
    (mm.vmas.Pairwise fun a b => a.1.stop ≤ b.1.start) ∧
    (∀ seg ∈ mm.vmas, seg.1.start < seg.1.stop ∧ seg.1.stop < 2 ^ 64) ∧
    mm.usageAS.toNat = (mm.vmas.map fun seg => seg.1.length).sum ∧
    mm.lockedAS.toNat =
      ((mm.vmas.filter fun seg => seg.2.mlockMode ≠ .none).map fun seg => seg.1.length).sum := by
  have hacc := h.accounted
  refine ⟨hacc.wf.sorted.1, fun seg hseg => ⟨hacc.wf.sorted.2 seg hseg, ?_⟩, hacc.usage, ?_⟩
  · have := hacc.wf.bounded seg hseg
    rw [vmaSetFunctions_maxKey] at this
    omega
  · rw [hacc.locked, spanWhere_eq_sum_filter]
    rfl

/-- After `BrkSetup(0x10000)` and `Brk(0x10001)` the heap is the one page `[0x10000, 0x11000)`,
which `usageAS` counts. -/
theorem reachable_accounting_exact_heap :
    ∃ mm : MemoryManager, Reachable mm ∧ mm.vmas.map Prod.fst = [⟨0x10000, 0x11000⟩] ∧
      mm.usageAS.toNat = (mm.vmas.map fun seg => seg.1.length).sum := by
  let ctx : Ctx := ⟨UInt64.ofNat (2 ^ 64 - 1), 0, UInt64.ofNat (2 ^ 64 - 1), false, false, false⟩
  have h : Reachable _ := .step ctx (.brk 0x10001)
    (.step ctx (.brkSetup 0x10000) (.new ⟨0x1000, 2 ^ 47, 0x1000, 2 ^ 46, .bottomUp⟩) rfl) rfl
  exact ⟨_, h, rfl, (reachable_accounting_exact h).2.2.1⟩

/-- A second `BrkSetup` unmaps the old brk as it stands, unrounded. After `BrkSetup(0x10000)`
and `Brk(0x10001)` map the heap page `[0x10000, 0x11000)`, `BrkSetup(0)` unmaps only
`[0x10000, 0x10001)` and leaves the vma `[0x10001, 0x11000)`, which is not page-aligned. -/
theorem brkSetup_leaves_unaligned_vma :
    ∃ mm : MemoryManager, Reachable mm ∧
      ∃ seg ∈ mm.vmas, seg.1 = ⟨0x10001, 0x11000⟩ ∧ Usermem.Range.isPageAligned seg.1 = false := by
  let ctx : Ctx := ⟨UInt64.ofNat (2 ^ 64 - 1), 0, UInt64.ofNat (2 ^ 64 - 1), false, false, false⟩
  refine ⟨_, .step ctx (.brkSetup 0) (.step ctx (.brk 0x10001)
    (.step ctx (.brkSetup 0x10000) (.new ⟨0x1000, 2 ^ 47, 0x1000, 2 ^ 46, .bottomUp⟩) rfl) rfl) rfl,
    ?_⟩
  decide

end ContainerFS.Mm
