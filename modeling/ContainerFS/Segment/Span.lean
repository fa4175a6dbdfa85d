import ContainerFS.Segment.Denote
import ContainerFS.Segment.Lookup

/-!
How many keys a segment set holds, and what its editing operations do to that count and to the
set's shape. `spanWhere p` is the total length of the segments whose value satisfies `p`, so
`Span` is `spanWhere` of the predicate that always holds. A set as its operations keep it is
sorted, with every segment ending at or below the greatest key (`Wf`).

`SplitUnchecked` and `Isolate` cut segments without changing the keys they hold. `SetValue`
changes no range. `MergeUnchecked`, `MergeRange` and `MergeAdjacent` join adjacent segments.
`Remove` takes away the keys of one segment, and `Insert` adds those of its range. Suppose the
`Functions` split and merge values without changing whether they satisfy `p` (`SplitKeeps`,
`MergeKeeps`). Then each operation moves `spanWhere p` by exactly the keys it adds or removes,
and each one keeps the set `Wf`.
-/

namespace ContainerFS.Segment.Set

open ContainerFS.Segment.Tree (Sorted)

variable {V : Type}

section Defs

variable (fns : Functions V) (p : V → Bool)

/-- The keys of a segment that count towards `spanWhere p`. -/
def weight (seg : Range × V) : ℕ := if p seg.2 then seg.1.length else 0

/-- The total length of the segments whose value satisfies `p`. -/
def spanWhere (s : List (Range × V)) : ℕ := (s.map (weight p)).sum

/-- Splitting a value keeps, in both halves, whether it satisfies `p`. -/
def SplitKeeps : Prop := ∀ r v x, p (fns.split r v x).1 = p v ∧ p (fns.split r v x).2 = p v

/-- Two values merge only when they agree on `p`, and the merged value agrees with them. -/
def MergeKeeps : Prop :=
  ∀ r1 v1 r2 v2 m, fns.merge r1 v1 r2 v2 = some m → p m = p v1 ∧ p v2 = p v1

/-- A set as its operations keep it: sorted, and below the greatest key. -/
structure Wf (s : List (Range × V)) : Prop where
  sorted : Sorted s
  bounded : ∀ seg ∈ s, seg.1.stop ≤ fns.maxKey

end Defs

section Arith

variable {p : V → Bool}

@[simp] theorem spanWhere_nil : spanWhere p ([] : List (Range × V)) = 0 := rfl

@[simp] theorem spanWhere_cons (seg : Range × V) (s : List (Range × V)) :
    spanWhere p (seg :: s) = weight p seg + spanWhere p s := by
  simp [spanWhere]

@[simp] theorem spanWhere_append (A B : List (Range × V)) :
    spanWhere p (A ++ B) = spanWhere p A + spanWhere p B := by
  simp [spanWhere]

@[simp] theorem span_cons (seg : Range × V) (s : List (Range × V)) :
    span (seg :: s) = seg.1.length + span s := by
  simp [span]

/-- `spanWhere p` sums the lengths of the segments whose value satisfies `p`. -/
theorem spanWhere_eq_sum_filter (s : List (Range × V)) :
    spanWhere p s = ((s.filter fun seg => p seg.2).map fun seg => seg.1.length).sum := by
  induction s with
  | nil => rfl
  | cons seg s ih =>
    rw [spanWhere_cons, ih, weight]
    by_cases hp : p seg.2 <;> simp [hp]

theorem span_eq_spanWhere (s : List (Range × V)) : span s = spanWhere (fun _ => true) s := by
  unfold span spanWhere
  congr 1

theorem weight_le (seg : Range × V) : weight p seg ≤ seg.1.length := by
  unfold weight
  split <;> omega

theorem spanWhere_le_span (s : List (Range × V)) : spanWhere p s ≤ span s := by
  induction s with
  | nil => simp [span]
  | cons seg s ih =>
    have := weight_le (p := p) seg
    simp only [spanWhere_cons, span, List.map_cons, List.sum_cons] at *
    omega

/-- The segments of a sorted list between `lo` and `hi` hold at most `hi - lo` keys. -/
theorem spanWhere_le_of_sorted {s : List (Range × V)} (hs : Sorted s) {lo hi : ℕ}
    (hlo : ∀ seg ∈ s, lo ≤ seg.1.start) (hhi : ∀ seg ∈ s, seg.1.stop ≤ hi) :
    spanWhere p s ≤ hi - lo := by
  induction s generalizing lo with
  | nil => simp
  | cons seg s ih =>
    obtain ⟨hseg, hafter, hs'⟩ := sorted_cons.mp hs
    -- the rest lies between the end of the first segment and `hi`
    have hrest := ih hs' hafter (fun b hb => hhi b (List.mem_cons_of_mem _ hb))
    have hw := weight_le (p := p) seg
    have hlo' := hlo seg List.mem_cons_self
    have hhi' := hhi seg List.mem_cons_self
    simp only [spanWhere_cons, Range.length] at *
    omega

theorem Wf.spanWhere_le {fns : Functions V} {s : List (Range × V)} (hw : Wf fns s) :
    spanWhere p s ≤ fns.maxKey := by
  simpa using spanWhere_le_of_sorted (p := p) hw.sorted (fun _ _ => Nat.zero_le _) hw.bounded

end Arith

/-! ### Edits at an index -/

section Index

variable {s : List (Range × V)} {i : ℕ} {x : Range × V}

/-- The list cut around its element `i`. -/
theorem eq_take_cons_drop (h : s[i]? = some x) : s = s.take i ++ x :: s.drop (i + 1) := by
  obtain ⟨hi, rfl⟩ := List.getElem?_eq_some_iff.mp h
  rw [← List.drop_eq_getElem_cons hi, List.take_append_drop]

theorem length_take_of_getElem? (h : s[i]? = some x) : (s.take i).length = i := by
  have hi := (List.getElem?_eq_some_iff.mp h).1
  simp only [List.length_take]
  omega

/-- An index that holds an element is the length of what comes before it. -/
theorem exists_cut (h : s[i]? = some x) :
    ∃ A B : List (Range × V), s = A ++ x :: B ∧ A.length = i :=
  ⟨_, _, eq_take_cons_drop h, length_take_of_getElem? h⟩

variable {p : V → Bool}

theorem spanWhere_eraseIdx (h : s[i]? = some x) :
    spanWhere p (s.eraseIdx i) + weight p x = spanWhere p s := by
  obtain ⟨A, B, rfl, rfl⟩ := exists_cut h
  rw [List.eraseIdx_append_of_length_le le_rfl]
  simp only [Nat.sub_self, List.eraseIdx_cons_zero, spanWhere_append, spanWhere_cons]
  omega

theorem spanWhere_set (h : s[i]? = some x) (y : Range × V) :
    spanWhere p (s.set i y) + weight p x = spanWhere p s + weight p y := by
  obtain ⟨A, B, rfl, rfl⟩ := exists_cut h
  rw [set_length_append]
  simp only [spanWhere_append, spanWhere_cons]
  omega

variable {fns : Functions V}

theorem Wf.eraseIdx (hw : Wf fns s) (i : ℕ) : Wf fns (s.eraseIdx i) :=
  ⟨Tree.Sorted.sublist hw.sorted (List.eraseIdx_sublist s i),
    fun seg hseg => hw.bounded seg (List.mem_of_mem_eraseIdx hseg)⟩

/-- Changing the value of a segment keeps the set as it was shaped. -/
theorem Wf.set (hw : Wf fns s) (h : s[i]? = some x) {y : Range × V} (hy : y.1 = x.1) :
    Wf fns (s.set i y) := by
  obtain ⟨A, B, rfl, rfl⟩ := exists_cut h
  rw [set_length_append]
  obtain ⟨hA, hB, hx, hAx, hxB, hAB⟩ := sorted_middle.mp hw.sorted
  refine ⟨sorted_middle.mpr ⟨hA, hB, hy ▸ hx, hy ▸ hAx, hy ▸ hxB, hAB⟩, ?_⟩
  intro seg hseg
  rcases List.mem_append.mp hseg with hseg | hseg
  · exact hw.bounded seg (by simp [hseg])
  rcases List.mem_cons.mp hseg with rfl | hseg
  · rw [hy]
    exact hw.bounded x (by simp)
  · exact hw.bounded seg (by simp [hseg])

/-- A change of values at one index that keeps every range. -/
theorem Wf.modify (hw : Wf fns s) {f : Range × V → Range × V} (hf : ∀ seg, (f seg).1 = seg.1)
    (i : ℕ) : Wf fns (s.modify i f) := by
  by_cases hi : i < s.length
  · obtain ⟨A, a, B, rfl, rfl, hmod⟩ := List.exists_of_modify f hi
    rw [hmod, ← set_length_append A B a (f a)]
    exact hw.set (by simp) (hf a)
  · rw [List.modify_eq_self (by omega)]
    exact hw

theorem spanWhere_modify {f : Range × V → Range × V} (hf : ∀ seg, weight p (f seg) = weight p seg)
    (s : List (Range × V)) (i : ℕ) : spanWhere p (s.modify i f) = spanWhere p s := by
  by_cases hi : i < s.length
  · obtain ⟨A, a, B, rfl, rfl, hmod⟩ := List.exists_of_modify f hi
    simp [hmod, hf]
  · rw [List.modify_eq_self (by omega)]

/-- New values for every segment, each range kept. -/
theorem Wf.map_values (hw : Wf fns s) (f : V → V) : Wf fns (s.map fun seg => (seg.1, f seg.2)) := by
  refine ⟨⟨?_, ?_⟩, ?_⟩
  · exact List.pairwise_map.mpr (hw.sorted.1.imp id)
  · simp only [List.mem_map]
    rintro _ ⟨seg, hseg, rfl⟩
    exact hw.sorted.2 seg hseg
  · simp only [List.mem_map]
    rintro _ ⟨seg, hseg, rfl⟩
    exact hw.bounded seg hseg

theorem span_map_values (s : List (Range × V)) (f : V → V) :
    span (s.map fun seg => (seg.1, f seg.2)) = span s := by
  simp [span, Function.comp_def]

end Index

/-! ### `SplitUnchecked` and `Isolate` -/

section Split

variable (fns : Functions V) {s : List (Range × V)} {i : ℕ} {r : Range} {v : V}

theorem splitUnchecked_eq (h : s[i]? = some (r, v)) (x : ℕ) :
    splitUnchecked fns s i x =
      s.take i ++ (⟨r.start, x⟩, (fns.split r v x).1) :: (⟨x, r.stop⟩, (fns.split r v x).2) ::
        s.drop (i + 1) := by
  obtain ⟨A, B, hs, hA⟩ := exists_cut h
  subst hs hA
  have hins := insertIdx_length_append (A ++ [(⟨r.start, x⟩, (fns.split r v x).1)]) B
    (⟨x, r.stop⟩, (fns.split r v x).2)
  simp only [List.length_append, List.length_singleton, List.append_assoc, List.singleton_append]
    at hins
  simp only [splitUnchecked, h, set_length_append, hins]
  simp

variable {fns} {p : V → Bool}

theorem spanWhere_splitUnchecked (hk : SplitKeeps fns p) (h : s[i]? = some (r, v)) {x : ℕ}
    (hx : r.start ≤ x ∧ x ≤ r.stop) : spanWhere p (splitUnchecked fns s i x) = spanWhere p s := by
  rw [splitUnchecked_eq fns h, eq_take_cons_drop h]
  obtain ⟨h1, h2⟩ := hk r v x
  simp only [spanWhere_append, spanWhere_cons, weight, h1, h2, Range.length]
  rw [← eq_take_cons_drop h]
  split <;> omega

theorem Wf.splitUnchecked (hw : Wf fns s) (h : s[i]? = some (r, v)) {x : ℕ}
    (hx : r.canSplitAt x = true) : Wf fns (Set.splitUnchecked fns s i x) := by
  have hx' : r.start < x ∧ x < r.stop := by
    simp only [Range.canSplitAt, Range.contains, Bool.and_eq_true, decide_eq_true_eq] at hx
    omega
  have hcut := eq_take_cons_drop h
  have hsorted := hw.sorted
  rw [hcut] at hsorted
  obtain ⟨hA, hB, -, hAx, hxB, hAB⟩ := sorted_middle.mp hsorted
  rw [splitUnchecked_eq fns h]
  constructor
  · refine sorted_middle.mpr ⟨hA, ?_, hx'.1, hAx, ?_, ?_⟩
    · exact sorted_cons.mpr ⟨hx'.2, hxB, hB⟩
    · simp only [List.mem_cons, forall_eq_or_imp]
      exact ⟨le_rfl, fun b hb => hx'.2.le.trans (hxB b hb)⟩
    · simp only [List.mem_cons, forall_eq_or_imp]
      exact fun a ha => ⟨(hAx a ha).trans hx'.1.le, hAB a ha⟩
  · have hb := hw.bounded
    rw [hcut] at hb
    simp only [List.mem_append, List.mem_cons] at hb ⊢
    rintro seg (hseg | rfl | rfl | hseg)
    · exact hb seg (.inl hseg)
    · exact hx'.2.le.trans (hb (r, v) (.inr (.inl rfl)))
    · exact hb (r, v) (.inr (.inl rfl))
    · exact hb seg (.inr (.inr hseg))

/-- A cut of `Isolate`: the segment split at a key strictly inside it. -/
theorem splitUnchecked_spec (hk : SplitKeeps fns p) (hw : Wf fns s) (h : s[i]? = some (r, v))
    {x : ℕ} (hx : r.canSplitAt x = true) :
    Wf fns (splitUnchecked fns s i x) ∧ spanWhere p (splitUnchecked fns s i x) = spanWhere p s := by
  refine ⟨hw.splitUnchecked h hx, spanWhere_splitUnchecked hk h ?_⟩
  simp only [Range.canSplitAt, Range.contains, Bool.and_eq_true, decide_eq_true_eq] at hx
  omega

/-- `Isolate` cuts the segment at most twice, each time strictly inside it: so it keeps a
property that every such cut keeps. -/
theorem isolate_induct (Q : List (Range × V) → Prop)
    (hQ : ∀ s i r v x, Wf fns s → Q s → s[i]? = some (r, v) → r.canSplitAt x = true →
      Q (splitUnchecked fns s i x))
    (hw : Wf fns s) (hs : Q s) (i : ℕ) (a : Range) :
    Wf fns (isolate fns s i a).1 ∧ Q (isolate fns s i a).1 := by
  unfold isolate
  split
  rename_i s1 i1 hfirst
  -- the cut at the start of `a`
  have h1 : Wf fns s1 ∧ Q s1 := by
    split at hfirst
    · split at hfirst <;> cases hfirst
      · exact ⟨hw.splitUnchecked ‹_› ‹_›, hQ _ _ _ _ _ hw hs ‹_› ‹_›⟩
      · exact ⟨hw, hs⟩
    · cases hfirst
      exact ⟨hw, hs⟩
  -- the cut at its end
  split
  · split
    · exact ⟨h1.1.splitUnchecked ‹_› ‹_›, hQ _ _ _ _ _ h1.1 h1.2 ‹_› ‹_›⟩
    · exact h1
  · exact h1

theorem isolate_spec (hk : SplitKeeps fns p) (hw : Wf fns s) (i : ℕ) (r : Range) :
    Wf fns (isolate fns s i r).1 ∧ spanWhere p (isolate fns s i r).1 = spanWhere p s :=
  isolate_induct (fun t => spanWhere p t = spanWhere p s)
    (fun _ _ _ _ _ hw ht h hx => ((splitUnchecked_spec hk hw h hx).2).trans ht) hw rfl i r

theorem splitKeeps_true : SplitKeeps fns fun _ => true := fun _ _ _ => ⟨rfl, rfl⟩

theorem mergeKeeps_true : MergeKeeps fns fun _ => true := fun _ _ _ _ _ _ => ⟨rfl, rfl⟩

theorem Wf.isolate (hw : Wf fns s) (i : ℕ) (r : Range) : Wf fns (Set.isolate fns s i r).1 :=
  (isolate_spec splitKeeps_true hw i r).1

/-- The segment that `Isolate` returns is the part of the segment `i` inside `r`, when the two
overlap. -/
theorem isolate_getElem? (fns : Functions V) (h : s[i]? = some (r, v)) (hr : r.start < r.stop) {a : Range}
    (ha : a.start < a.stop) (hov : a.start < r.stop ∧ r.start < a.stop) :
    ∃ v', (Set.isolate fns s i a).1[(Set.isolate fns s i a).2]? = some (r.intersect a, v') := by
  have hcut := eq_take_cons_drop h
  have hlen := length_take_of_getElem? h
  by_cases h1 : r.canSplitAt a.start
  · -- the second half `[a.start, r.stop)` is the segment `i + 1`
    have h1' : r.start < a.start := by
      simp only [Range.canSplitAt, Range.contains, Bool.and_eq_true, decide_eq_true_eq] at h1
      omega
    have hget : (splitUnchecked fns s i a.start)[i + 1]? =
        some (⟨a.start, r.stop⟩, (fns.split r v a.start).2) := by
      rw [splitUnchecked_eq fns h]
      simp [hlen]
    by_cases h2 : (⟨a.start, r.stop⟩ : Range).canSplitAt a.stop
    · refine ⟨(fns.split ⟨a.start, r.stop⟩ (fns.split r v a.start).2 a.stop).1, ?_⟩
      have h2' : a.stop < r.stop := by
        simp only [Range.canSplitAt, Range.contains, Bool.and_eq_true, decide_eq_true_eq] at h2
        omega
      simp only [isolate, h, h1, if_true, hget, h2]
      rw [splitUnchecked_eq fns hget]
      have hlen' : ((splitUnchecked fns s i a.start).take (i + 1)).length = i + 1 :=
        length_take_of_getElem? hget
      simp only [List.getElem?_append_right (le_of_eq hlen'), hlen', Nat.sub_self,
        List.getElem?_cons_zero, Option.some.injEq, Prod.mk.injEq, and_true]
      simp only [Range.intersect, Range.mk.injEq]
      split_ifs <;> omega
    · refine ⟨(fns.split r v a.start).2, ?_⟩
      have h2' : r.stop ≤ a.stop := by
        simp only [Range.canSplitAt, Range.contains, Bool.and_eq_true, decide_eq_true_eq,
          not_and, not_lt] at h2
        omega
      simp only [isolate, h, h1, if_true, hget, h2, Bool.false_eq_true, if_false,
        Option.some.injEq, Prod.mk.injEq, and_true]
      simp only [Range.intersect, Range.mk.injEq]
      split_ifs <;> omega
  · -- the segment starts inside `a`, so only its end may be cut
    have h1' : a.start ≤ r.start := by
      simp only [Range.canSplitAt, Range.contains, Bool.and_eq_true, decide_eq_true_eq,
        not_and, not_lt] at h1
      omega
    by_cases h2 : r.canSplitAt a.stop
    · refine ⟨(fns.split r v a.stop).1, ?_⟩
      have h2' : a.stop < r.stop := by
        simp only [Range.canSplitAt, Range.contains, Bool.and_eq_true, decide_eq_true_eq] at h2
        omega
      simp only [isolate, h, h1, h2, Bool.false_eq_true, if_true, if_false]
      rw [splitUnchecked_eq fns h]
      simp only [List.getElem?_append_right (le_of_eq hlen), hlen, Nat.sub_self,
        List.getElem?_cons_zero, Option.some.injEq, Prod.mk.injEq, and_true]
      simp only [Range.intersect, Range.mk.injEq]
      split_ifs <;> omega
    · refine ⟨v, ?_⟩
      have h2' : r.stop ≤ a.stop := by
        simp only [Range.canSplitAt, Range.contains, Bool.and_eq_true, decide_eq_true_eq,
          not_and, not_lt] at h2
        omega
      simp only [isolate, h, h1, h2, Bool.false_eq_true, if_false, Option.some.injEq,
        Prod.mk.injEq, and_true]
      show (⟨r.start, r.stop⟩ : Range) = _
      simp only [Range.intersect, Range.mk.injEq]
      split_ifs <;> omega

end Split

/-! ### `Insert` -/

section Insert

variable {fns : Functions V} {s : List (Range × V)} {g : ℕ} {r : Range} {val : V}

/-- The checks of a successful `Insert` into a gap of a sorted set place `r` between the
segments before the gap and those after it. -/
theorem fitsBetween_of_insert (hs : Sorted s) (hg : g ≤ s.length) {res : List (Range × V) × ℕ}
    (h : insert fns s g r val = .ok res) : FitsBetween (s.take g) (s.drop g) r := by
  unfold insert at h
  split_ifs at h with hlen hpred hsucc
  have hcut := List.take_append_drop g s
  refine ⟨by rw [hcut]; exact hs, ?_, ?_, ?_⟩
  · simp only [Range.length] at hlen
    omega
  · -- every segment before the gap ends by the end of the segment just before it
    intro P hP
    cases g with
    | zero => simp at hP
    | succ q =>
      have hq : q < s.length := by omega
      have hlast : s[q]? = some s[q] := List.getElem?_eq_getElem hq
      simp only [hlast, Option.any_some, gt_iff_lt, decide_eq_true_eq, not_lt] at hpred
      obtain ⟨k, hk, rfl⟩ := List.getElem_of_mem hP
      have hk' : k ≤ q := by simp only [List.length_take] at hk; omega
      have hle : (s.take (q + 1))[k].1.stop ≤ s[q].1.stop := by
        rcases Nat.lt_or_eq_of_le hk' with hlt | rfl
        · exact Tree.Sorted.stop_le_start hs (by simp) hlast hlt
            |>.trans (hs.2 _ (List.getElem_mem hq)).le
        · simp
      exact hle.trans hpred
  · -- every segment after the gap starts at or after the start of the one just after it
    intro N hN
    cases hnext : s[g]? with
    | none =>
      have : s.drop g = [] := by
        simp only [List.drop_eq_nil_iff]
        exact (List.getElem?_eq_none_iff.mp hnext)
      simp [this] at hN
    | some N0 =>
      simp only [hnext, Option.any_some, decide_eq_true_eq, not_lt] at hsucc
      obtain ⟨hd, hsd⟩ := sorted_drop_eq_cons hs
        (by rw [List.drop_eq_getElem_cons (List.getElem?_eq_some_iff.mp hnext).1,
          (List.getElem?_eq_some_iff.mp hnext).2])
      rw [List.drop_eq_getElem_cons (List.getElem?_eq_some_iff.mp hnext).1,
        (List.getElem?_eq_some_iff.mp hnext).2] at hN
      exact hsucc.trans (sorted_start_of_head hsd hN)

theorem insert_eq_shape (hg : g ≤ s.length) {res : List (Range × V) × ℕ}
    (h : insert fns s g r val = .ok res) :
    InsertShape fns (s.take g) (s.drop g) r val res.1 := by
  unfold insert at h
  split_ifs at h
  cases h
  have hshape := insertMerging_shape fns (s.take g) (s.drop g) r val
  rwa [List.take_append_drop, List.length_take_of_le hg] at hshape

variable {p : V → Bool}

/-- The gap `FindGap` returns is a gap of the set. -/
theorem findGap_le {key : ℕ} (h : findGap s key = some g) : g ≤ s.length := by
  unfold findGap at h
  split at h
  · cases h
  · rename_i g' hg
    cases h
    exact (find_eq_gap hg).1

/-- The segment `FindSegment` finds holds the key. -/
theorem findSegmentIndex_contains {key : ℕ} (h : findSegmentIndex s key = some g) :
    ∃ seg, s[g]? = some seg ∧ seg.1.contains key = true := by
  unfold findSegmentIndex at h
  split at h
  · rename_i g' hg
    cases h
    obtain ⟨seg, hseg, hc, -⟩ := find_eq_segment hg
    exact ⟨seg, hseg, hc⟩
  · cases h

/-- What `Insert` builds holds the keys of the set and those of `r`. -/
theorem InsertShape.spanWhere_eq {L R : List (Range × V)} {s' : List (Range × V)}
    (hk : MergeKeeps fns p) (hf : FitsBetween L R r) (h : InsertShape fns L R r val s') :
    spanWhere p s' = spanWhere p (L ++ R) + weight p (r, val) := by
  obtain ⟨hL, hR, -⟩ := sorted_append.mp hf.sorted
  have hr := hf.nonempty
  cases h with
  | alone => simp only [spanWhere_append, spanWhere_cons]; omega
  | prev L' P m hL' hadj hm =>
    subst hL'
    have hP := (sorted_concat hL).2.1
    obtain ⟨hmP, hvP⟩ := hk _ _ _ _ _ hm
    simp only [spanWhere_append, spanWhere_cons, spanWhere_nil, weight, hmP, hvP, Range.length]
    split <;> omega
  | both L' R' P N m m' hL' hR' hadj hadj' hm hm' =>
    subst hL' hR'
    have hP := (sorted_concat hL).2.1
    have hN := (sorted_cons.mp hR).1
    obtain ⟨hmP, hvP⟩ := hk _ _ _ _ _ hm
    obtain ⟨hmN, hvN⟩ := hk _ _ _ _ _ hm'
    simp only [spanWhere_append, spanWhere_cons, spanWhere_nil, weight, hmP, hvP, hmN, hvN,
      Range.length] at *
    split <;> omega
  | next R' N m hR' hadj hm =>
    subst hR'
    have hN := (sorted_cons.mp hR).1
    obtain ⟨hmN, hvN⟩ := hk _ _ _ _ _ hm
    simp only [spanWhere_append, spanWhere_cons, weight, hmN, hvN, Range.length]
    split <;> omega

/-- Every segment of what `Insert` builds ends at the end of `r` or of a segment of the set. -/
theorem InsertShape.stop_mem {L R : List (Range × V)} {s' : List (Range × V)}
    (h : InsertShape fns L R r val s') :
    ∀ seg ∈ s', seg.1.stop = r.stop ∨ ∃ b ∈ L ++ R, seg.1.stop = b.1.stop := by
  cases h with
  | alone =>
    simp only [List.mem_append, List.mem_cons]
    rintro seg (hseg | rfl | hseg)
    · exact .inr ⟨seg, by simp [hseg], rfl⟩
    · exact .inl rfl
    · exact .inr ⟨seg, by simp [hseg], rfl⟩
  | prev L' P m hL' =>
    subst hL'
    simp only [List.mem_append, List.mem_cons]
    rintro seg (hseg | rfl | hseg)
    · exact .inr ⟨seg, by simp [hseg], rfl⟩
    · exact .inl rfl
    · exact .inr ⟨seg, by simp [hseg], rfl⟩
  | both L' R' P N m m' hL' hR' =>
    subst hL' hR'
    simp only [List.mem_append, List.mem_cons]
    rintro seg (hseg | rfl | hseg)
    · exact .inr ⟨seg, by simp [hseg], rfl⟩
    · exact .inr ⟨N, by simp, rfl⟩
    · exact .inr ⟨seg, by simp [hseg], rfl⟩
  | next R' N m hR' =>
    subst hR'
    simp only [List.mem_append, List.mem_cons]
    rintro seg (hseg | rfl | hseg)
    · exact .inr ⟨seg, by simp [hseg], rfl⟩
    · exact .inr ⟨N, by simp, rfl⟩
    · exact .inr ⟨seg, by simp [hseg], rfl⟩

theorem Wf.insert (hw : Wf fns s) (hg : g ≤ s.length) (hr : r.stop ≤ fns.maxKey)
    {res : List (Range × V) × ℕ} (h : Set.insert fns s g r val = .ok res) : Wf fns res.1 := by
  have hf := fitsBetween_of_insert hw.sorted hg h
  have hshape := insert_eq_shape hg h
  refine ⟨hshape.sorted hf, fun seg hseg => ?_⟩
  rcases hshape.stop_mem seg hseg with heq | ⟨b, hb, heq⟩
  · exact heq ▸ hr
  · rw [List.take_append_drop] at hb
    exact heq ▸ hw.bounded b hb

theorem spanWhere_insert (hk : MergeKeeps fns p) (hs : Sorted s) (hg : g ≤ s.length)
    {res : List (Range × V) × ℕ} (h : insert fns s g r val = .ok res) :
    spanWhere p res.1 = spanWhere p s + weight p (r, val) := by
  have hshape := (insert_eq_shape hg h).spanWhere_eq hk (fitsBetween_of_insert hs hg h)
  rwa [List.take_append_drop] at hshape

/-- `Insert` only succeeds with a nonempty range. -/
theorem insert_length_ne_zero {res : List (Range × V) × ℕ} (h : insert fns s g r val = .ok res) :
    r.length ≠ 0 := by
  unfold insert at h
  split_ifs at h with hlen
  exact hlen

end Insert

/-! ### Merges -/

section Merge

variable {fns : Functions V} {s s' : List (Range × V)} {i : ℕ}

/-- What `MergeUnchecked` does: two adjacent segments replaced by one over both ranges. -/
theorem mergeUnchecked_eq (h : mergeUnchecked fns s i = some s') :
    ∃ A B r1 v1 r2 v2 m, s = A ++ (r1, v1) :: (r2, v2) :: B ∧ A.length = i ∧
      r1.stop = r2.start ∧ fns.merge r1 v1 r2 v2 = some m ∧
      s' = A ++ (⟨r1.start, r2.stop⟩, m) :: B := by
  unfold mergeUnchecked at h
  split at h
  · rename_i r1 v1 r2 v2 h1 h2
    split_ifs at h with hadj
    cases hm : fns.merge r1 v1 r2 v2 with
    | none => simp [hm] at h
    | some m =>
      simp only [hm, Option.some.injEq] at h
      subst h
      obtain ⟨A, B', hs, hA⟩ := exists_cut h1
      subst hs hA
      have h2' : B'[0]? = some (r2, v2) := by
        simpa [List.getElem?_append_right] using h2
      obtain ⟨B, rfl⟩ : ∃ B, B' = (r2, v2) :: B := by
        cases B' with
        | nil => simp at h2'
        | cons b B => exact ⟨B, by simpa using h2'⟩
      refine ⟨A, B, r1, v1, r2, v2, m, rfl, rfl, hadj, hm, ?_⟩
      rw [set_length_append, eraseIdx_length_append]
  · simp at h

variable {p : V → Bool}

theorem Wf.mergeUnchecked (hw : Wf fns s) (h : Set.mergeUnchecked fns s i = some s') :
    Wf fns s' := by
  obtain ⟨A, B, r1, v1, r2, v2, m, rfl, -, hadj, -, rfl⟩ := mergeUnchecked_eq h
  obtain ⟨hA, hB', hr1, hA1, h1B, hAB⟩ := sorted_middle.mp hw.sorted
  obtain ⟨hr2, h2B, hB⟩ := sorted_cons.mp hB'
  constructor
  · refine sorted_middle.mpr ⟨hA, hB, ?_, hA1, h2B, fun a ha b hb => hAB a ha b (by simp [hb])⟩
    have hr1' : r1.start < r1.stop := hr1
    have hr2' : r2.start < r2.stop := hr2
    show r1.start < r2.stop
    omega
  · simp only [List.mem_append, List.mem_cons]
    rintro seg (hseg | rfl | hseg)
    · exact hw.bounded seg (by simp [hseg])
    · exact hw.bounded (r2, v2) (by simp)
    · exact hw.bounded seg (by simp [hseg])

theorem spanWhere_mergeUnchecked (hk : MergeKeeps fns p) (hs : Sorted s)
    (h : mergeUnchecked fns s i = some s') : spanWhere p s' = spanWhere p s := by
  obtain ⟨A, B, r1, v1, r2, v2, m, rfl, -, hadj, hm, rfl⟩ := mergeUnchecked_eq h
  obtain ⟨-, hB', hr1, -⟩ := sorted_middle.mp hs
  have hr1' : r1.start < r1.stop := hr1
  have hr2 : r2.start < r2.stop := (sorted_cons.mp hB').1
  obtain ⟨hm1, hv2⟩ := hk _ _ _ _ _ hm
  simp only [spanWhere_append, spanWhere_cons, weight, hm1, hv2, Range.length] at *
  split <;> omega

section Induct

variable (Q : List (Range × V) → Prop)
  (hQ : ∀ s i s', Wf fns s → Q s → mergeUnchecked fns s i = some s' → Q s')
include hQ

/-- `MergeUnchecked`, or the set unchanged when the segments do not merge. -/
theorem mergeUnchecked_getD_induct (hw : Wf fns s) (hs : Q s) (i : ℕ) :
    Wf fns ((mergeUnchecked fns s i).getD s) ∧ Q ((mergeUnchecked fns s i).getD s) := by
  cases h : mergeUnchecked fns s i with
  | none => exact ⟨hw, hs⟩
  | some s' => exact ⟨hw.mergeUnchecked h, hQ _ _ _ hw hs h⟩

/-- Each round of `MergeRange` merges or moves on: so it keeps a property that every merge
keeps. -/
theorem mergeRangeFrom_induct (r : Range) :
    ∀ (fuel : ℕ) (s : List (Range × V)) (i : ℕ), Wf fns s → Q s →
      Wf fns (mergeRangeFrom fns r fuel s i) ∧ Q (mergeRangeFrom fns r fuel s i)
  | 0, _, _, hw, hs => ⟨hw, hs⟩
  | fuel + 1, s, i, hw, hs => by
    unfold mergeRangeFrom
    split
    · split
      · split
        · rename_i s' hm
          exact mergeRangeFrom_induct r fuel s' i (hw.mergeUnchecked hm) (hQ _ _ _ hw hs hm)
        · exact mergeRangeFrom_induct r fuel s (i + 1) hw hs
      · exact ⟨hw, hs⟩
    · exact ⟨hw, hs⟩

theorem mergeRange_induct (hw : Wf fns s) (hs : Q s) (r : Range) :
    Wf fns (mergeRange fns s r) ∧ Q (mergeRange fns s r) := by
  unfold mergeRange
  split
  · exact mergeRangeFrom_induct Q hQ r _ s _ hw hs
  · exact ⟨hw, hs⟩

theorem mergeAdjacent_induct (hw : Wf fns s) (hs : Q s) (r : Range) :
    Wf fns (mergeAdjacent fns s r) ∧ Q (mergeAdjacent fns s r) := by
  unfold mergeAdjacent
  -- the merge at the start of `r`, then the one at its end
  split
  all_goals
    dsimp only
    split
  · rename_i _ i _ _ j _
    have h1 := mergeUnchecked_getD_induct Q hQ hw hs i
    exact mergeUnchecked_getD_induct Q hQ h1.1 h1.2 j
  · exact mergeUnchecked_getD_induct Q hQ hw hs _
  · exact mergeUnchecked_getD_induct Q hQ hw hs _
  · exact ⟨hw, hs⟩

end Induct

/-- Merges keep the span of the values that satisfy `p`. -/
theorem spanWhere_merges (hk : MergeKeeps fns p) (s : List (Range × V)) :
    ∀ t i t', Wf fns t → spanWhere p t = spanWhere p s → mergeUnchecked fns t i = some t' →
      spanWhere p t' = spanWhere p s :=
  fun _ _ _ hw ht hm => (spanWhere_mergeUnchecked hk hw.sorted hm).trans ht

theorem mergeRange_spec (hk : MergeKeeps fns p) (hw : Wf fns s) (r : Range) :
    Wf fns (mergeRange fns s r) ∧ spanWhere p (mergeRange fns s r) = spanWhere p s :=
  mergeRange_induct _ (spanWhere_merges hk s) hw rfl r

theorem mergeAdjacent_spec (hk : MergeKeeps fns p) (hw : Wf fns s) (r : Range) :
    Wf fns (mergeAdjacent fns s r) ∧ spanWhere p (mergeAdjacent fns s r) = spanWhere p s :=
  mergeAdjacent_induct _ (spanWhere_merges hk s) hw rfl r

end Merge

end ContainerFS.Segment.Set
