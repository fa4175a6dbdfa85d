import Mathlib.Data.Finset.Card
import Mathlib.Order.Interval.Finset.Nat
import ContainerFS.Segment.BTree

/-!
What a segment set means. A set whose segments are sorted is a partial function on keys: a key
held by a segment gets the value `den` reads at that key of the segment, and a key in a gap gets
nothing (`denote`). `FindSegment` finds the segment `denote` reads (`findSegment_eq`), and
`SpanRange` counts the keys of a range that the set holds (`spanRange_eq_length_iff`).

`Add` puts a range into the gap that holds its start. What `Insert` then builds is one of four
shapes (`InsertShape`): the new segment on its own, or merged into its neighbour before, after,
or on both sides. When the `Functions` merge only values that read the same across the joint
(`MergeCoherent`), every shape denotes the old set updated on the new range (`add_denote`).
-/

namespace ContainerFS.Segment.Set

open ContainerFS.Segment.Tree (Sorted)

variable {V W : Type}

/-- The segment that holds `x`. -/
def segmentAt (s : List (Range × V)) (x : ℕ) : Option (Range × V) :=
  s.find? fun seg => seg.1.contains x

/-- What the set gives the key `x`: `den` read at `x` on the segment that holds it. -/
def denote (den : Range → V → ℕ → W) (s : List (Range × V)) (x : ℕ) : Option W :=
  (segmentAt s x).map fun seg => den seg.1 seg.2 x

/-- The `Functions` merge two adjacent segments only into a value that reads, on each of the two
ranges, what that range's own value read. -/
def MergeCoherent (fns : Functions V) (den : Range → V → ℕ → W) : Prop :=
  ∀ r1 v1 r2 v2 m, fns.merge r1 v1 r2 v2 = some m → r1.start ≤ r1.stop → r1.stop = r2.start →
    (∀ x, r1.contains x = true → den ⟨r1.start, r2.stop⟩ m x = den r1 v1 x) ∧
    (∀ x, r2.contains x = true → den ⟨r1.start, r2.stop⟩ m x = den r2 v2 x)

theorem contains_iff (r : Range) (x : ℕ) : r.contains x = true ↔ r.start ≤ x ∧ x < r.stop := by
  simp [Range.contains]

theorem contains_eq_false_iff (r : Range) (x : ℕ) :
    r.contains x = false ↔ x < r.start ∨ r.stop ≤ x := by
  simp only [Range.contains, Bool.and_eq_false_iff, decide_eq_false_iff_not]
  omega

/-! ### Sorted lists -/

section Sorted

theorem sorted_cons {seg : Range × V} {s : List (Range × V)} :
    Sorted (seg :: s) ↔
      seg.1.start < seg.1.stop ∧ (∀ b ∈ s, seg.1.stop ≤ b.1.start) ∧ Sorted s := by
  simp only [Sorted, List.pairwise_cons, List.mem_cons, forall_eq_or_imp]
  tauto

theorem sorted_append {A B : List (Range × V)} :
    Sorted (A ++ B) ↔ Sorted A ∧ Sorted B ∧ ∀ a ∈ A, ∀ b ∈ B, a.1.stop ≤ b.1.start := by
  simp only [Sorted, List.pairwise_append, List.mem_append]
  constructor
  · rintro ⟨⟨hA, hB, hAB⟩, hlen⟩
    exact ⟨⟨hA, fun a ha => hlen a (.inl ha)⟩, ⟨hB, fun b hb => hlen b (.inr hb)⟩, hAB⟩
  · rintro ⟨⟨hA, hlA⟩, ⟨hB, hlB⟩, hAB⟩
    exact ⟨⟨hA, hB, hAB⟩, fun a ha => ha.elim (hlA a) (hlB a)⟩

/-- In a sorted list every segment starts at or after the end of the first one. -/
theorem sorted_start_of_head {seg : Range × V} {s : List (Range × V)} (hs : Sorted (seg :: s))
    {b : Range × V} (hb : b ∈ seg :: s) : seg.1.start ≤ b.1.start := by
  obtain ⟨hlt, hafter, -⟩ := sorted_cons.mp hs
  rcases List.mem_cons.mp hb with rfl | hb
  · exact le_rfl
  · exact (hlt.trans_le (hafter b hb)).le

end Sorted

/-! ### `Find` -/

section Find

/-- `Find` lands on the segment `i` only when it holds the key, past segments that end at or
before the key. -/
theorem find_eq_segment {s : List (Range × V)} {key i : ℕ} (h : find s key = .segment i) :
    ∃ seg, s[i]? = some seg ∧ seg.1.contains key = true ∧ ∀ b ∈ s.take i, b.1.stop ≤ key := by
  induction s generalizing i with
  | nil => simp [find] at h
  | cons seg rest ih =>
    by_cases hk : key < seg.1.stop
    · by_cases hs : seg.1.start ≤ key
      · have hi : i = 0 := by simpa [find, hk, hs] using h.symm
        subst hi
        exact ⟨seg, rfl, (contains_iff _ _).mpr ⟨hs, hk⟩, by simp⟩
      · simp [find, hk, hs] at h
    · cases hrest : find rest key with
      | segment j =>
        have hi : i = j + 1 := by simpa [find, hk, hrest] using h.symm
        subst hi
        obtain ⟨b, hb, hc, htake⟩ := ih hrest
        refine ⟨b, hb, hc, ?_⟩
        simp only [List.take_succ_cons, List.mem_cons, forall_eq_or_imp]
        exact ⟨by omega, htake⟩
      | gap g => simp [find, hk, hrest] at h

/-- `Find` lands in the gap `g` past segments that end at or before the key, and before a
segment that starts after it. -/
theorem find_eq_gap {s : List (Range × V)} {key g : ℕ} (h : find s key = .gap g) :
    g ≤ s.length ∧ (∀ b ∈ s.take g, b.1.stop ≤ key) ∧ ∀ b ∈ s[g]?, key < b.1.start := by
  induction s generalizing g with
  | nil =>
    have hg : g = 0 := by simpa [find] using h.symm
    simp [hg]
  | cons seg rest ih =>
    by_cases hk : key < seg.1.stop
    · by_cases hs : seg.1.start ≤ key
      · simp [find, hk, hs] at h
      · have hg : g = 0 := by simpa [find, hk, hs] using h.symm
        subst hg
        simp only [List.length_cons, List.take_zero, List.getElem?_cons_zero, Option.mem_def,
          Option.some.injEq]
        exact ⟨by omega, by simp, fun b hb => hb ▸ by omega⟩
    · cases hrest : find rest key with
      | segment j => simp [find, hk, hrest] at h
      | gap j =>
        have hg : g = j + 1 := by simpa [find, hk, hrest] using h.symm
        subst hg
        obtain ⟨hlen, htake, hnext⟩ := ih hrest
        refine ⟨by simpa using hlen, ?_, by simpa using hnext⟩
        simp only [List.take_succ_cons, List.mem_cons, forall_eq_or_imp]
        exact ⟨by omega, htake⟩

/-- The segments of a sorted list from the index `i` on: the one at `i`, then the sorted rest. -/
theorem sorted_drop_eq_cons {s : List (Range × V)} (hs : Sorted s) {i : ℕ} {seg : Range × V}
    {rest : List (Range × V)} (hd : s.drop i = seg :: rest) :
    s[i]? = some seg ∧ Sorted (seg :: rest) := by
  refine ⟨by rw [← List.head?_drop, hd]; rfl, ?_⟩
  rw [← hd]
  exact (sorted_append.mp (by rw [List.take_append_drop]; exact hs)).2.1

/-- In a sorted list, the segments from the one at `g` on start no earlier than it does. -/
theorem sorted_start_of_drop {s : List (Range × V)} (hs : Sorted s) {k g : ℕ}
    (hnext : ∀ b ∈ s[g]?, k ≤ b.1.start) : ∀ b ∈ s.drop g, k ≤ b.1.start := by
  intro b hb
  cases hd : s.drop g with
  | nil => simp [hd] at hb
  | cons seg rest =>
    obtain ⟨hseg, hsd⟩ := sorted_drop_eq_cons hs hd
    rw [hd] at hb
    exact (hnext seg hseg).trans (sorted_start_of_head hsd hb)

theorem segmentAt_eq_none {s : List (Range × V)} {x : ℕ} :
    segmentAt s x = none ↔ ∀ b ∈ s, b.1.contains x = false := by
  simp [segmentAt, List.find?_eq_none]

theorem segmentAt_isSome_iff {s : List (Range × V)} {x : ℕ} :
    (segmentAt s x).isSome ↔ ∃ b ∈ s, b.1.contains x = true := by
  simp [segmentAt, List.find?_isSome]

/-- In a sorted list, `FindSegment` finds the segment that holds the key. -/
theorem findSegment_eq {s : List (Range × V)} (hs : Sorted s) (key : ℕ) :
    findSegment s key = segmentAt s key := by
  cases h : find s key with
  | segment i =>
    obtain ⟨seg, hseg, hc, htake⟩ := find_eq_segment h
    obtain ⟨hi, hget⟩ := List.getElem?_eq_some_iff.mp hseg
    have hnone : segmentAt (s.take i) key = none := by
      rw [segmentAt_eq_none]
      exact fun b hb => (contains_eq_false_iff _ _).mpr (.inr (htake b hb))
    simp only [findSegment, h]
    rw [hseg, segmentAt, ← List.take_append_drop i s, List.find?_append, ← segmentAt, hnone,
      List.drop_eq_getElem_cons hi, hget]
    simp [hc]
  | gap g =>
    obtain ⟨-, htake, hnext⟩ := find_eq_gap h
    have hdrop := sorted_start_of_drop hs (k := key + 1) hnext
    symm
    simp only [findSegment, h]
    rw [segmentAt_eq_none, ← List.take_append_drop g s]
    intro b hb
    rcases List.mem_append.mp hb with hb | hb
    · exact (contains_eq_false_iff _ _).mpr (.inr (htake b hb))
    · exact (contains_eq_false_iff _ _).mpr (.inl (hdrop b hb))

end Find

/-! ### What a list denotes -/

section Denote

variable (den : Range → V → ℕ → W)

@[simp] theorem denote_nil (x : ℕ) : denote den ([] : List (Range × V)) x = none := rfl

theorem denote_cons (seg : Range × V) (s : List (Range × V)) (x : ℕ) :
    denote den (seg :: s) x =
      if seg.1.contains x then some (den seg.1 seg.2 x) else denote den s x := by
  by_cases h : seg.1.contains x <;> simp [denote, segmentAt, h]

theorem denote_append (A B : List (Range × V)) (x : ℕ) :
    denote den (A ++ B) x = (denote den A x).or (denote den B x) := by
  simp [denote, segmentAt, List.find?_append, Option.map_or]

/-- A list none of whose segments holds `x` gives it nothing. -/
theorem denote_eq_none {A : List (Range × V)} {x : ℕ} (h : ∀ a ∈ A, a.1.contains x = false) :
    denote den A x = none := by
  rw [denote, segmentAt_eq_none.mpr h, Option.map_none]

/-- In a sorted list at most one segment holds a key. -/
theorem sorted_eq_of_contains {s : List (Range × V)} (hs : Sorted s) {a b : Range × V}
    (ha : a ∈ s) (hb : b ∈ s) {x : ℕ} (hax : a.1.contains x = true)
    (hbx : b.1.contains x = true) : a = b := by
  induction s with
  | nil => simp at ha
  | cons c t ih =>
    obtain ⟨-, hafter, ht⟩ := sorted_cons.mp hs
    have hxa := (contains_iff _ _).mp hax
    have hxb := (contains_iff _ _).mp hbx
    rcases List.mem_cons.mp ha with rfl | ha' <;> rcases List.mem_cons.mp hb with rfl | hb'
    · rfl
    · have := hafter b hb'
      omega
    · have := hafter a ha'
      omega
    · exact ih ht ha' hb'

/-- What a sorted list gives `x` is what the segment of it that holds `x` reads there. -/
theorem denote_eq_some_iff {s : List (Range × V)} (hs : Sorted s) {x : ℕ} {w : W} :
    denote den s x = some w ↔ ∃ seg ∈ s, seg.1.contains x = true ∧ den seg.1 seg.2 x = w := by
  constructor
  · intro h
    obtain ⟨seg, hseg, rfl⟩ := Option.map_eq_some_iff.mp h
    unfold segmentAt at hseg
    exact ⟨seg, List.mem_of_find?_eq_some hseg,
      List.find?_some (p := fun b : Range × V => b.1.contains x) hseg, rfl⟩
  · rintro ⟨seg, hmem, hc, rfl⟩
    obtain ⟨seg', hseg'⟩ := Option.isSome_iff_exists.mp
      (segmentAt_isSome_iff.mpr ⟨seg, hmem, hc⟩)
    unfold segmentAt at hseg'
    have heq := sorted_eq_of_contains hs (List.mem_of_find?_eq_some hseg') hmem
      (List.find?_some (p := fun b : Range × V => b.1.contains x) hseg') hc
    rw [denote, segmentAt, hseg', heq]
    rfl

/-- A segment merged from two adjacent ones denotes what the two did. -/
theorem denote_merged {fns : Functions V} (hc : MergeCoherent fns den) {P Q : Range × V} {m : V}
    (hPQ : P.1.stop = Q.1.start) (hP : P.1.start ≤ P.1.stop) (hQ : Q.1.start ≤ Q.1.stop)
    (hm : fns.merge P.1 P.2 Q.1 Q.2 = some m) (B : List (Range × V)) (x : ℕ) :
    denote den ((⟨P.1.start, Q.1.stop⟩, m) :: B) x = denote den (P :: Q :: B) x := by
  obtain ⟨hfirst, hsecond⟩ := hc _ _ _ _ _ hm hP hPQ
  simp only [denote_cons]
  by_cases hxP : P.1.contains x
  · have hx : Range.contains ⟨P.1.start, Q.1.stop⟩ x = true := by
      rw [contains_iff] at hxP ⊢
      exact ⟨hxP.1, by simp only; omega⟩
    rw [if_pos hx, if_pos hxP, hfirst x hxP]
  · by_cases hxQ : Q.1.contains x
    · have hx : Range.contains ⟨P.1.start, Q.1.stop⟩ x = true := by
        rw [contains_iff] at hxQ ⊢
        exact ⟨by simp only; omega, hxQ.2⟩
      rw [if_pos hx, if_neg hxP, if_pos hxQ, hsecond x hxQ]
    · have hx : Range.contains ⟨P.1.start, Q.1.stop⟩ x = false := by
        rw [contains_iff] at hxP hxQ
        simp only [Range.contains, Bool.and_eq_false_iff, decide_eq_false_iff_not]
        omega
      rw [if_neg (by simp [hx]), if_neg hxP, if_neg hxQ]

end Denote

/-! ### `Insert` and `Add` -/

section Insert

variable (fns : Functions V)

theorem insertIdx_length_append (L R : List (Range × V)) (x : Range × V) :
    (L ++ R).insertIdx L.length x = L ++ x :: R := by
  induction L with
  | nil => cases R <;> simp
  | cons a L ih => simp [ih]

theorem set_length_append (L R : List (Range × V)) (y x : Range × V) :
    (L ++ y :: R).set L.length x = L ++ x :: R := by
  rw [List.set_append]
  simp

theorem eraseIdx_length_append (L R : List (Range × V)) (y x : Range × V) :
    (L ++ y :: x :: R).eraseIdx (L.length + 1) = L ++ y :: R := by
  rw [List.eraseIdx_append_of_length_le (by omega)]
  simp

/-- What `Insert` into the gap between `L` and `R` leaves: `r` on its own, or merged into the
segment before the gap, the one after it, or both. The conditions of each shape are those under
which `Insert` builds it. -/
inductive InsertShape (L R : List (Range × V)) (r : Range) (val : V) :
    List (Range × V) → Prop
  | alone :
      (∀ P ∈ L.getLast?, P.1.stop = r.start → fns.merge P.1 P.2 r val = none) →
      (∀ N ∈ R.head?, N.1.start = r.stop → fns.merge r val N.1 N.2 = none) →
      InsertShape L R r val (L ++ (r, val) :: R)
  | prev (L' : List (Range × V)) (P : Range × V) (m : V) :
      L = L' ++ [P] → P.1.stop = r.start → fns.merge P.1 P.2 r val = some m →
      (∀ N ∈ R.head?, N.1.start = r.stop → fns.merge ⟨P.1.start, r.stop⟩ m N.1 N.2 = none) →
      InsertShape L R r val (L' ++ (⟨P.1.start, r.stop⟩, m) :: R)
  | both (L' R' : List (Range × V)) (P N : Range × V) (m m' : V) :
      L = L' ++ [P] → R = N :: R' → P.1.stop = r.start → N.1.start = r.stop →
      fns.merge P.1 P.2 r val = some m → fns.merge ⟨P.1.start, r.stop⟩ m N.1 N.2 = some m' →
      InsertShape L R r val (L' ++ (⟨P.1.start, N.1.stop⟩, m') :: R')
  | next (R' : List (Range × V)) (N : Range × V) (m : V) :
      R = N :: R' → N.1.start = r.stop → fns.merge r val N.1 N.2 = some m →
      (∀ P ∈ L.getLast?, P.1.stop = r.start → fns.merge P.1 P.2 r val = none) →
      InsertShape L R r val (L ++ (⟨r.start, N.1.stop⟩, m) :: R')

/-- The end of `Insert`, once the segment before the gap has not taken `r`. -/
theorem insertMergingNext_shape (L R : List (Range × V)) (r : Range) (val : V)
    (hprev : ∀ P ∈ L.getLast?, P.1.stop = r.start → fns.merge P.1 P.2 r val = none) :
    InsertShape fns L R r val (insertMergingNext fns (L ++ R) L.length r val).1 := by
  cases R with
  | nil =>
    have hnone : (L ++ [])[L.length]? = none := by simp
    simp only [insertMergingNext, hnone, insertWithoutMergingUnchecked]
    rw [insertIdx_length_append]
    exact .alone hprev (by simp)
  | cons N R' =>
    obtain ⟨nr, nv⟩ := N
    have hN : (L ++ (nr, nv) :: R')[L.length]? = some (nr, nv) := by simp
    by_cases hadj : nr.start = r.stop
    · cases hm : fns.merge r val nr nv with
      | some m =>
        simp only [insertMergingNext, hN, hadj, if_true, hm, set_length_append]
        exact .next R' (nr, nv) m rfl hadj hm hprev
      | none =>
        simp only [insertMergingNext, hN, hadj, if_true, hm, insertWithoutMergingUnchecked]
        rw [insertIdx_length_append]
        exact .alone hprev (by simp [hm])
    · simp only [insertMergingNext, hN, hadj, if_false, insertWithoutMergingUnchecked]
      rw [insertIdx_length_append]
      exact .alone hprev (by simp [hadj])

/-- `Insert` into the gap between `L` and `R` builds one of the four shapes. -/
theorem insertMerging_shape (L R : List (Range × V)) (r : Range) (val : V) :
    InsertShape fns L R r val (insertMerging fns (L ++ R) L.length r val).1 := by
  rcases List.eq_nil_or_concat L with rfl | ⟨L', ⟨pr, pv⟩, rfl⟩
  · exact insertMergingNext_shape fns [] R r val (by simp)
  rw [List.concat_eq_append]
  have hlen : (L' ++ [(pr, pv)]).length = L'.length + 1 := by simp
  have hP : (L' ++ [(pr, pv)] ++ R)[L'.length]? = some (pr, pv) := by simp
  -- the segment before the gap does not take `r`: the end of `Insert` decides
  have hnext (hprev : fns.merge pr pv r val = none ∨ pr.stop ≠ r.start) :
      InsertShape fns (L' ++ [(pr, pv)]) R r val
        (insertMergingNext fns (L' ++ [(pr, pv)] ++ R) (L'.length + 1) r val).1 := by
    rw [← hlen]
    refine insertMergingNext_shape fns _ R r val ?_
    simp only [List.getLast?_concat, Option.mem_def, Option.some.injEq, forall_eq']
    intro hadj
    exact hprev.resolve_right (not_not.mpr hadj)
  rw [hlen]
  simp only [insertMerging, hP]
  by_cases hadj : pr.stop = r.start
  · cases hm : fns.merge pr pv r val with
    | none => simpa [hadj, hm] using hnext (.inl hm)
    | some m =>
      simp only [hadj, if_true]
      have hset : (L' ++ [(pr, pv)] ++ R).set L'.length (⟨pr.start, r.stop⟩, m) =
          L' ++ (⟨pr.start, r.stop⟩, m) :: R := by
        rw [List.append_assoc, List.singleton_append, set_length_append]
      cases R with
      | nil =>
        have hnone : (L' ++ [(pr, pv)] ++ [])[L'.length + 1]? = none := by simp
        simp only [hnone, hset]
        exact .prev L' (pr, pv) m rfl hadj hm (by simp)
      | cons N R' =>
        obtain ⟨nr, nv⟩ := N
        have hN : (L' ++ [(pr, pv)] ++ (nr, nv) :: R')[L'.length + 1]? = some (nr, nv) := by
          simp
        simp only [hN]
        by_cases hadj' : nr.start = r.stop
        · cases hm' : fns.merge ⟨pr.start, r.stop⟩ m nr nv with
          | none =>
            simp only [hadj', if_true, hset]
            exact .prev L' (pr, pv) m rfl hadj hm (by simp [hm'])
          | some m' =>
            simp only [hadj', if_true]
            rw [List.append_assoc, List.singleton_append, set_length_append,
              eraseIdx_length_append]
            exact .both L' R' (pr, pv) (nr, nv) m m' rfl rfl hadj hadj' hm hm'
        · simp only [hadj', if_false, hset]
          exact .prev L' (pr, pv) m rfl hadj hm (by simp [hadj'])
  · simpa [hadj] using hnext (.inr hadj)

/-- The gap between `L` and `R` of a sorted list holds the nonempty range `r`. -/
structure FitsBetween (L R : List (Range × V)) (r : Range) : Prop where
  sorted : Sorted (L ++ R)
  nonempty : r.start < r.stop
  before : ∀ P ∈ L, P.1.stop ≤ r.start
  after : ∀ N ∈ R, r.stop ≤ N.1.start

theorem sorted_middle {A B : List (Range × V)} {x : Range × V} :
    Sorted (A ++ x :: B) ↔ Sorted A ∧ Sorted B ∧ x.1.start < x.1.stop ∧
      (∀ a ∈ A, a.1.stop ≤ x.1.start) ∧ (∀ b ∈ B, x.1.stop ≤ b.1.start) ∧
      ∀ a ∈ A, ∀ b ∈ B, a.1.stop ≤ b.1.start := by
  simp only [sorted_append, sorted_cons, List.mem_cons, forall_eq_or_imp]
  constructor
  · rintro ⟨hA, ⟨hx, hxB, hB⟩, hAxB⟩
    exact ⟨hA, hB, hx, fun a ha => (hAxB a ha).1, hxB, fun a ha => (hAxB a ha).2⟩
  · rintro ⟨hA, hB, hx, hAx, hxB, hAB⟩
    exact ⟨hA, ⟨hx, hxB, hB⟩, fun a ha => ⟨hAx a ha, hAB a ha⟩⟩

section Fits

variable {L R : List (Range × V)} {r : Range}

/-- What a sorted `L ++ [P]` says of its last segment. -/
theorem sorted_concat {L' : List (Range × V)} {P : Range × V} (h : Sorted (L' ++ [P])) :
    Sorted L' ∧ P.1.start < P.1.stop ∧ ∀ a ∈ L', a.1.stop ≤ P.1.start := by
  have h' := sorted_middle.mp h
  exact ⟨h'.1, h'.2.2.1, h'.2.2.2.1⟩

theorem FitsBetween.sorted_insert (hf : FitsBetween L R r) (val : V) :
    Sorted (L ++ (r, val) :: R) := by
  obtain ⟨hL, hR, hLR⟩ := sorted_append.mp hf.sorted
  exact sorted_middle.mpr ⟨hL, hR, hf.nonempty, hf.before, hf.after, hLR⟩

/-- Every shape `Insert` builds is sorted. -/
theorem InsertShape.sorted {fns : Functions V} {val : V} {s' : List (Range × V)}
    (hf : FitsBetween L R r) (h : InsertShape fns L R r val s') : Sorted s' := by
  obtain ⟨hL, hR, hLR⟩ := sorted_append.mp hf.sorted
  cases h with
  | alone => exact hf.sorted_insert val
  | prev L' P m hL' hadj =>
    subst hL'
    obtain ⟨hL'', hP, hL'P⟩ := sorted_concat hL
    refine sorted_middle.mpr ⟨hL'', hR, ?_, hL'P, hf.after, ?_⟩
    · have := hf.nonempty
      simp only
      omega
    · exact fun a ha b hb => hLR a (by simp [ha]) b hb
  | both L' R' P N m m' hL' hR' hadj hadj' =>
    subst hL' hR'
    obtain ⟨hL'', hP, hL'P⟩ := sorted_concat hL
    obtain ⟨hN, hNR', hR''⟩ := sorted_cons.mp hR
    refine sorted_middle.mpr ⟨hL'', hR'', ?_, hL'P, hNR', ?_⟩
    · have := hf.nonempty
      simp only
      omega
    · exact fun a ha b hb => hLR a (by simp [ha]) b (by simp [hb])
  | next R' N m hR' hadj =>
    subst hR'
    obtain ⟨hN, hNR', hR''⟩ := sorted_cons.mp hR
    refine sorted_middle.mpr ⟨hL, hR'', ?_, hf.before, hNR', ?_⟩
    · have := hf.nonempty
      simp only
      omega
    · exact fun a ha b hb => hLR a ha b (by simp [hb])

variable (den : Range → V → ℕ → W)

theorem denote_append_congr (A : List (Range × V)) {B B' : List (Range × V)} {x : ℕ}
    (h : denote den B x = denote den B' x) : denote den (A ++ B) x = denote den (A ++ B') x := by
  rw [denote_append, denote_append, h]

/-- The segment `r` inserted on its own gives its keys their value under `r`, and leaves the
others to the segments around it. -/
theorem denote_insert (hf : FitsBetween L R r) (val : V) (x : ℕ) :
    denote den (L ++ (r, val) :: R) x =
      if r.contains x then some (den r val x) else denote den (L ++ R) x := by
  rw [denote_append, denote_cons, denote_append]
  by_cases hx : r.contains x
  · have hL : denote den L x = none := by
      refine denote_eq_none den fun a ha => (contains_eq_false_iff _ _).mpr (.inr ?_)
      exact (hf.before a ha).trans ((contains_iff _ _).mp hx).1
    simp [hx, hL]
  · simp [hx]

/-- Every shape `Insert` builds denotes what `r` inserted on its own does, when merges keep
what their parts denote. -/
theorem InsertShape.denote_eq {fns : Functions V} (hc : MergeCoherent fns den) {val : V}
    {s' : List (Range × V)} (hf : FitsBetween L R r) (h : InsertShape fns L R r val s') (x : ℕ) :
    denote den s' x = denote den (L ++ (r, val) :: R) x := by
  obtain ⟨hL, hR, -⟩ := sorted_append.mp hf.sorted
  have hr := hf.nonempty.le
  cases h with
  | alone => rfl
  | prev L' P m hL' hadj hm =>
    subst hL'
    obtain ⟨-, hP, -⟩ := sorted_concat hL
    rw [List.append_assoc, List.singleton_append]
    exact denote_append_congr den L' (denote_merged den hc (Q := (r, val)) hadj hP.le hr hm R x)
  | both L' R' P N m m' hL' hR' hadj hadj' hm hm' =>
    subst hL' hR'
    obtain ⟨-, hP, -⟩ := sorted_concat hL
    obtain ⟨hN, -, -⟩ := sorted_cons.mp hR
    rw [List.append_assoc, List.singleton_append]
    refine denote_append_congr den L' ?_
    have hPr : P.1.start ≤ r.stop := by omega
    rw [denote_merged den hc (P := (⟨P.1.start, r.stop⟩, m)) (Q := N) hadj'.symm hPr hN.le hm' R' x]
    exact denote_merged den hc (Q := (r, val)) hadj hP.le hr hm (N :: R') x
  | next R' N m hR' hadj hm =>
    subst hR'
    obtain ⟨hN, -, -⟩ := sorted_cons.mp hR
    exact denote_append_congr den L
      (denote_merged den hc (P := (r, val)) (Q := N) hadj.symm hr hN.le hm R' x)

end Fits

/-- `Insert` whose range fits in the gap passes its checks. -/
theorem insert_of_fits {s : List (Range × V)} {g : ℕ} {r : Range} (val : V)
    (hr : r.start < r.stop) (hbefore : ∀ P ∈ s.take g, P.1.stop ≤ r.start)
    (hafter : ∀ N ∈ s[g]?, r.stop ≤ N.1.start) :
    insert fns s g r val = .ok (insertMerging fns s g r val) := by
  have hlen : r.length ≠ 0 := by
    simp only [Range.length]
    omega
  have hprev (p : ℕ) (hp : p < g) : (s[p]?).any (fun (seg : Range × V) => seg.1.stop > r.start) =
      false := by
    cases hP : s[p]? with
    | none => rfl
    | some P =>
      have hmem : P ∈ s.take g := by
        rw [List.mem_iff_getElem?]
        exact ⟨p, by simp [hp, hP]⟩
      simpa using hbefore P hmem
  have hnext : (s[g]?).any (fun (seg : Range × V) => seg.1.start < r.stop) = false := by
    cases hN : s[g]? with
    | none => rfl
    | some N => simpa using hafter N hN
  unfold ContainerFS.Segment.Set.insert
  cases g with
  | zero => simp [hlen, hnext]
  | succ p => simp [hlen, hnext, hprev p (by omega)]

/-- A range whose start lies in the gap `g` and whose end does not pass the gap's end fits
between the segments around the gap. -/
theorem fits_of_gap {s : List (Range × V)} {r : Range} {g : ℕ} (hf : find s r.start = .gap g)
    (hstop : ¬r.stop > (gapRange fns s g).stop) :
    (∀ P ∈ s.take g, P.1.stop ≤ r.start) ∧ ∀ N ∈ s[g]?, r.stop ≤ N.1.start := by
  refine ⟨(find_eq_gap hf).2.1, fun N hN => ?_⟩
  simp only [gapRange, Option.mem_def.mp hN] at hstop
  omega

theorem length_ne_zero_of_lt {r : Range} (hr : r.start < r.stop) : r.length ≠ 0 := by
  simp only [Range.length]
  omega

/-- `Add` of a range that fits in the gap holding its start is `Insert` there. -/
theorem add_of_gap {s : List (Range × V)} {r : Range} {g : ℕ} (val : V) (hr : r.start < r.stop)
    (hf : find s r.start = .gap g) (hstop : ¬r.stop > (gapRange fns s g).stop) :
    add fns s r val = .ok (some (insertMerging fns s g r val).1) := by
  obtain ⟨hbefore, hafter⟩ := fits_of_gap fns hf hstop
  simp only [add, if_neg (length_ne_zero_of_lt hr), hf, if_neg hstop,
    insert_of_fits fns val hr hbefore hafter]
  rfl

/-- `Add` of a nonempty range never panics. -/
theorem add_ne_error {s : List (Range × V)} {r : Range} (val : V) (hr : r.start < r.stop)
    (p : SetPanic) : add fns s r val ≠ .error p := by
  cases hf : find s r.start with
  | segment i => simp [add, length_ne_zero_of_lt hr, hf]
  | gap g =>
    by_cases hstop : r.stop > (gapRange fns s g).stop
    · simp [add, length_ne_zero_of_lt hr, hf, hstop]
    · simp [add_of_gap fns val hr hf hstop]

/-- A successful `Add` inserts `r` into a gap of the set that holds it. -/
theorem add_eq_some {s s' : List (Range × V)} {r : Range} {val : V} (hs : Sorted s)
    (h : add fns s r val = .ok (some s')) :
    ∃ L R, s = L ++ R ∧ FitsBetween L R r ∧ InsertShape fns L R r val s' := by
  have hr : r.start < r.stop := by
    by_contra hr
    rw [add, if_pos (by simp only [Range.length]; omega)] at h
    cases h
  cases hf : find s r.start with
  | segment i => simp [add, length_ne_zero_of_lt hr, hf] at h
  | gap g =>
    by_cases hstop : r.stop > (gapRange fns s g).stop
    · simp [add, length_ne_zero_of_lt hr, hf, hstop] at h
    obtain ⟨hbefore, hafter⟩ := fits_of_gap fns hf hstop
    rw [add_of_gap fns val hr hf hstop, Except.ok.injEq, Option.some.injEq] at h
    have hL : (s.take g).length = g := List.length_take_of_le (find_eq_gap hf).1
    have hshape := insertMerging_shape fns (s.take g) (s.drop g) r val
    rw [List.take_append_drop, hL, h] at hshape
    exact ⟨s.take g, s.drop g, (List.take_append_drop g s).symm,
      ⟨by rwa [List.take_append_drop], hr, hbefore, sorted_start_of_drop hs hafter⟩, hshape⟩

section Add

variable {fns} {s s' : List (Range × V)} {r : Range} {val : V}

/-- A successful `Add` leaves the set sorted. -/
theorem add_sorted (hs : Sorted s) (h : add fns s r val = .ok (some s')) : Sorted s' := by
  obtain ⟨L, R, -, hf, hshape⟩ := add_eq_some fns hs h
  exact hshape.sorted hf

/-- A successful `Add` went into keys that no segment held. -/
theorem add_free (hs : Sorted s) (h : add fns s r val = .ok (some s')) (x : ℕ)
    (hx : r.contains x = true) : segmentAt s x = none := by
  obtain ⟨L, R, rfl, hf, -⟩ := add_eq_some fns hs h
  rw [segmentAt_eq_none]
  obtain ⟨hxs, hxt⟩ := (contains_iff _ _).mp hx
  intro b hb
  rw [contains_eq_false_iff]
  rcases List.mem_append.mp hb with hb | hb
  · exact .inr ((hf.before b hb).trans hxs)
  · exact .inl (hxt.trans_le (hf.after b hb))

/-- A successful `Add` gives the keys of `r` their value under `r`, and every other key what it
had. -/
theorem add_denote (den : Range → V → ℕ → W) (hc : MergeCoherent fns den) (hs : Sorted s)
    (h : add fns s r val = .ok (some s')) (x : ℕ) :
    denote den s' x = if r.contains x then some (den r val x) else denote den s x := by
  obtain ⟨L, R, rfl, hf, hshape⟩ := add_eq_some fns hs h
  rw [hshape.denote_eq den hc hf, denote_insert den hf]

end Add

end Insert

/-! ### `SpanRange` -/

section Span

/-- The keys of `r` that a segment of `s` holds. -/
def heldIn (s : List (Range × V)) (r : Range) : Finset ℕ :=
  (Finset.Ico r.start r.stop).filter fun x => (segmentAt s x).isSome

theorem segmentAt_cons_isSome (seg : Range × V) (s : List (Range × V)) (x : ℕ) :
    (segmentAt (seg :: s) x).isSome = (seg.1.contains x || (segmentAt s x).isSome) := by
  by_cases h : seg.1.contains x <;> simp [segmentAt, h]

/-- In a sorted list, the segments from the one at `i` on end after a key that one ends after. -/
theorem sorted_stop_of_drop {s : List (Range × V)} (hs : Sorted s) {k i : ℕ}
    (hnext : ∀ b ∈ s[i]?, k < b.1.stop) : ∀ b ∈ s.drop i, k < b.1.stop := by
  intro b hb
  cases hd : s.drop i with
  | nil => simp [hd] at hb
  | cons seg rest =>
    obtain ⟨hseg, hsd⟩ := sorted_drop_eq_cons hs hd
    obtain ⟨-, hafter, hrest⟩ := sorted_cons.mp hsd
    rw [hd] at hb
    rcases List.mem_cons.mp hb with rfl | hb
    · exact hnext b hseg
    · exact (hnext seg hseg).trans_le ((hafter b hb).trans (hrest.2 b hb).le)

/-- Segments that end before `r` starts hold none of its keys. -/
theorem heldIn_append_of_before {A B : List (Range × V)} {r : Range}
    (h : ∀ b ∈ A, b.1.stop ≤ r.start) : heldIn (A ++ B) r = heldIn B r := by
  ext x
  simp only [heldIn, Finset.mem_filter, Finset.mem_Ico, and_congr_right_iff]
  intro hx
  have hA : segmentAt A x = none :=
    segmentAt_eq_none.mpr fun b hb => (contains_eq_false_iff _ _).mpr (.inr ((h b hb).trans hx.1))
  rw [segmentAt, List.find?_append, ← segmentAt, hA, Option.none_or, ← segmentAt]

/-- The keys of `r` in one segment form the range `Intersect` computes. -/
theorem card_filter_contains (seg r : Range) :
    ((Finset.Ico r.start r.stop).filter fun x => seg.contains x = true).card =
      (seg.intersect r).length := by
  have h : ((Finset.Ico r.start r.stop).filter fun x => seg.contains x = true) =
      Finset.Ico (max r.start seg.start) (min r.stop seg.stop) := by
    ext x
    simp only [Finset.mem_filter, Finset.mem_Ico, contains_iff]
    omega
  rw [h, Nat.card_Ico]
  simp only [Range.intersect, Range.length]
  split_ifs <;> omega

/-- The loop of `SpanRange`, over segments that end after `r` starts, counts the keys of `r`
they hold. -/
theorem spanFrom_eq_card {l : List (Range × V)} {r : Range} (hl : Sorted l)
    (hend : ∀ b ∈ l, r.start < b.1.stop) : spanFrom r l = (heldIn l r).card := by
  induction l with
  | nil => simp [spanFrom, heldIn, segmentAt]
  | cons seg rest ih =>
    obtain ⟨hseg, hafter, hrest⟩ := sorted_cons.mp hl
    by_cases hs : seg.1.start < r.stop
    · -- the keys `seg` holds, then those the later segments hold, all at or past `seg.1.stop`
      have hsplit : heldIn (seg :: rest) r =
          ((Finset.Ico r.start r.stop).filter fun x => seg.1.contains x = true) ∪
            heldIn rest r := by
        simp only [heldIn, segmentAt_cons_isSome, Bool.or_eq_true]
        exact Finset.filter_or _ _ _
      have hdisj : Disjoint ((Finset.Ico r.start r.stop).filter fun x => seg.1.contains x = true)
          (heldIn rest r) := by
        rw [Finset.disjoint_left]
        intro x hx hx'
        simp only [heldIn, Finset.mem_filter, segmentAt_isSome_iff] at hx hx'
        obtain ⟨b, hb, hbx⟩ := hx'.2
        have h1 := ((contains_iff _ _).mp hx.2).2
        have h2 := ((contains_iff _ _).mp hbx).1
        have h3 := hafter b hb
        omega
      rw [spanFrom, if_pos hs, hsplit, Finset.card_union_of_disjoint hdisj, card_filter_contains,
        ih hrest fun b hb => hend b (List.mem_cons_of_mem _ hb)]
    · -- every segment from `seg` on starts at or past the end of `r`
      have hempty : heldIn (seg :: rest) r = ∅ := by
        rw [Finset.eq_empty_iff_forall_notMem]
        intro x hx
        simp only [heldIn, Finset.mem_filter, Finset.mem_Ico, segmentAt_isSome_iff] at hx
        obtain ⟨⟨-, hxr⟩, b, hb, hbx⟩ := hx
        have h1 := sorted_start_of_head hl hb
        have h2 := ((contains_iff _ _).mp hbx).1
        omega
      rw [spanFrom, if_neg hs, hempty, Finset.card_empty]

/-- `SpanRange` on a sorted set counts the keys of `r` the set holds. -/
theorem spanRange_eq_card {s : List (Range × V)} (hs : Sorted s) (r : Range) :
    spanRange s r = (heldIn s r).card := by
  unfold spanRange
  by_cases hlen : r.length = 0
  · have hempty : heldIn s r = ∅ := by
      simp only [Range.length] at hlen
      simp [heldIn, Finset.Ico_eq_empty_of_le (by omega : r.stop ≤ r.start)]
    rw [if_pos hlen, hempty, Finset.card_empty]
  rw [if_neg hlen]
  -- the segments before the lower bound end at or before `r.start`, those from it on after it
  have hfrom (i : ℕ) (hbefore : ∀ b ∈ s.take i, b.1.stop ≤ r.start)
      (hafter : ∀ b ∈ s.drop i, r.start < b.1.stop) :
      spanFrom r (s.drop i) = (heldIn s r).card := by
    rw [← List.take_append_drop i s, heldIn_append_of_before hbefore, List.take_append_drop]
    exact spanFrom_eq_card (sorted_append.mp (by rwa [List.take_append_drop])).2.1 hafter
  cases hf : find s r.start with
  | segment i =>
    obtain ⟨seg, hseg, hc, hbefore⟩ := find_eq_segment hf
    simp only [lowerBoundSegment, hf]
    refine hfrom i hbefore (sorted_stop_of_drop hs fun b hb => ?_)
    rw [Option.mem_def, hseg, Option.some.injEq] at hb
    exact hb ▸ ((contains_iff _ _).mp hc).2
  | gap g =>
    obtain ⟨hg, hbefore, hnext⟩ := find_eq_gap hf
    simp only [lowerBoundSegment, hf, segment?]
    by_cases hgl : g < s.length
    · simp only [hgl, if_true]
      refine hfrom g hbefore (sorted_stop_of_drop hs fun b hb => ?_)
      exact (hnext b hb).trans (hs.2 b (List.mem_of_getElem? hb))
    · simp only [hgl, if_false]
      have hall : s.take g = s := List.take_of_length_le (by omega)
      have hempty : heldIn s r = ∅ := by
        rw [← List.append_nil s, ← hall, heldIn_append_of_before hbefore]
        simp [heldIn, segmentAt]
      rw [hempty, Finset.card_empty]

/-- `SpanRange` on a sorted set gives the length of `r` exactly when the set holds every key
of `r`: what `allIDsMapped` asks. -/
theorem spanRange_eq_length_iff {s : List (Range × V)} (hs : Sorted s) (r : Range) :
    spanRange s r = r.length ↔ ∀ x, r.contains x = true → (segmentAt s x).isSome := by
  have hcard : (Finset.Ico r.start r.stop).card = r.length := by
    rw [Nat.card_Ico, Range.length]
  rw [spanRange_eq_card hs, heldIn, ← hcard]
  constructor
  · intro h x hx
    exact Finset.filter_card_eq h x (by simpa [contains_iff] using hx)
  · intro h
    rw [Finset.filter_true_of_mem]
    intro x hx
    exact h x (by simpa [contains_iff] using hx)

end Span

end ContainerFS.Segment.Set
