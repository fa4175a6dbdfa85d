import Mathlib
import ContainerFS.Segment.BTree

/-!
`Find` and the iterators' moves on a valid set, read on the list of its
segments in key order. `Find` lands on the segment that holds the key, or on
the gap of a leaf where the key falls; the moves go one position on or back;
and from these follows what `LowerBoundSegment`, `UpperBoundSegment`,
`IsEmptyRange` and `SpanRange` return.
-/

namespace ContainerFS.Segment

variable {V : Type}

namespace Tree.Sorted

variable {l l' : List (Range × V)}

theorem sublist (hs : Sorted l) (h : l'.Sublist l) : Sorted l' :=
  ⟨hs.1.sublist h, fun a ha => hs.2 a (h.subset ha)⟩

theorem stop_le_start (hs : Sorted l) {t u : ℕ} {x y : Range × V} (hx : l[t]? = some x)
    (hy : l[u]? = some y) (htu : t < u) : x.1.stop ≤ y.1.start := by
  obtain ⟨ht, rfl⟩ := List.getElem?_eq_some_iff.mp hx
  obtain ⟨hu, rfl⟩ := List.getElem?_eq_some_iff.mp hy
  exact List.pairwise_iff_getElem.mp hs.1 t u ht hu htu

/-- No segment of a sorted list ends after its last one. -/
theorem stop_le_of_getLast? (hs : Sorted l) {x : Range × V} (h : l.getLast? = some x) :
    ∀ y ∈ l, y.1.stop ≤ x.1.stop := by
  obtain ⟨L, rfl⟩ := List.getLast?_eq_some_iff.mp h
  intro y hy
  rcases List.mem_append.mp hy with hy | hy
  · have hyx := (List.pairwise_append.mp hs.1).2.2 y hy x (by simp)
    have := hs.2 x (by simp)
    omega
  · obtain rfl : y = x := by simpa using hy
    exact le_rfl

/-- No segment of a sorted list starts before its first one. -/
theorem start_le_of_head? (hs : Sorted l) {x : Range × V} (h : l.head? = some x) :
    ∀ y ∈ l, x.1.start ≤ y.1.start := by
  obtain ⟨R, rfl⟩ : ∃ R, l = x :: R := by
    cases l with
    | nil => simp at h
    | cons a R => exact ⟨R, by simpa using h⟩
  intro y hy
  rcases List.mem_cons.mp hy with rfl | hy
  · exact le_rfl
  · have hxy := (List.pairwise_cons.mp hs.1).1 y hy
    have := hs.2 x (by simp)
    omega

/-- A sorted list splits at each of its segments: those before it end at or
below its start, and those after it start at or above its end. -/
theorem split_of_getElem? (hs : Sorted l) {i : ℕ} {x : Range × V} (h : l[i]? = some x) :
    ∃ A B, l = A ++ x :: B ∧ (∀ y ∈ A, y.1.stop ≤ x.1.start) ∧ ∀ y ∈ B, x.1.stop ≤ y.1.start := by
  obtain ⟨hi, rfl⟩ := List.getElem?_eq_some_iff.mp h
  have hl : l = l.take i ++ l[i] :: l.drop (i + 1) := by
    rw [← List.drop_eq_getElem_cons hi, List.take_append_drop]
  have hpw := hs.1
  rw [hl, List.pairwise_append, List.pairwise_cons] at hpw
  exact ⟨_, _, hl, fun y hy => hpw.2.2 y hy l[i] List.mem_cons_self, hpw.2.1.1⟩

end Tree.Sorted

namespace Node

/-- The segments of a node stand in its subtree in their order. -/
theorem segs_sublist_inorder : ∀ (segs : List (Range × V)) (cs : List (Node V)),
    segs.Sublist (inorderList segs cs)
  | segs, [] => by simp [inorderList]
  | [], _ :: _ => List.nil_sublist _
  | s :: segs, c :: cs => by
    rw [inorderList]
    exact (segs_sublist_inorder segs cs).cons_cons s |>.trans (List.sublist_append_right _ _)

/-- The invariant of the binary search of `Find`: the index sought lies in
`[lower, upper]`, every segment before `lower` ends at or below `key`, and
every segment from `upper` on starts above it. -/
def SearchInv (segs : List (Range × V)) (key lower upper : ℕ) : Prop :=
  lower ≤ upper ∧ upper ≤ segs.length ∧
    (∀ t x, segs[t]? = some x → t < lower → x.1.stop ≤ key) ∧
    (∀ t x, segs[t]? = some x → upper ≤ t → key < x.1.start)

theorem searchInv_init (segs : List (Range × V)) (key : ℕ) :
    SearchInv segs key 0 segs.length := by
  refine ⟨Nat.zero_le _, le_rfl, fun t x _ ht => absurd ht (Nat.not_lt_zero t), ?_⟩
  intro t x hx ht
  have := (List.getElem?_eq_some_iff.mp hx).1
  omega

section Search

variable {segs : List (Range × V)} {key lower upper i : ℕ} {x : Range × V}

/-- The key is below the segment at `i`: the search goes on in `[lower, i]`. -/
theorem SearchInv.left (hs : Tree.Sorted segs) (h : SearchInv segs key lower upper)
    (hx : segs[i]? = some x) (hkey : key < x.1.start) (hi : lower ≤ i) :
    SearchInv segs key lower i := by
  obtain ⟨-, hup, hlo, -⟩ := h
  have hlt := (List.getElem?_eq_some_iff.mp hx).1
  refine ⟨hi, by omega, hlo, fun t y hy ht => ?_⟩
  rcases Nat.lt_or_eq_of_le ht with ht | rfl
  · have := hs.stop_le_start hx hy ht
    have := hs.2 x (List.mem_of_getElem? hx)
    omega
  · obtain rfl : y = x := Option.some.inj (hy.symm.trans hx)
    exact hkey

/-- The segment at `i` ends at or below the key: the search goes on in
`[i + 1, upper]`. -/
theorem SearchInv.right (hs : Tree.Sorted segs) (h : SearchInv segs key lower upper)
    (hx : segs[i]? = some x) (hkey : x.1.stop ≤ key) (hi : i < upper) :
    SearchInv segs key (i + 1) upper := by
  obtain ⟨-, hup, -, hhi⟩ := h
  refine ⟨hi, hup, fun t y hy ht => ?_, hhi⟩
  rcases Nat.lt_succ_iff_lt_or_eq.mp ht with ht | rfl
  · have := hs.stop_le_start hy hx ht
    have := hs.2 x (List.mem_of_getElem? hx)
    omega
  · obtain rfl : y = x := Option.some.inj (hy.symm.trans hx)
    exact hkey

/-- The binary search finds the segment that holds the key, or stops at the
gap before the first segment that starts above it. -/
theorem searchKeys_spec (hs : Tree.Sorted segs) (h : SearchInv segs key lower upper) :
    match searchKeys segs key lower upper with
    | .segment i => ∃ x, segs[i]? = some x ∧ x.1.contains key = true
    | .gap i => SearchInv segs key i i := by
  fun_induction searchKeys segs key lower upper with
  | case1 lower upper hlt mid r v hx hstop hstart =>
    exact ⟨_, hx, by simp [Range.contains, hstop, hstart]⟩
  | case2 lower upper hlt mid r v hx hstop hstart ih =>
    exact ih (h.left hs hx (by simpa using hstart) (by omega))
  | case3 lower upper hlt mid r v hx hstop ih =>
    exact ih (h.right hs hx (by simpa using hstop) (by omega))
  | case4 lower upper hlt mid hx =>
    -- the midpoint is below `upper`, so below the number of segments
    have := h.2.1
    simp at hx
    omega
  | case5 lower upper hge =>
    obtain rfl : lower = upper := by have := h.1; omega
    exact h

end Search

theorem segs_sublist (n : Node V) : n.segs.Sublist n.inorder := by
  obtain ⟨segs, cs⟩ := n
  simpa using segs_sublist_inorder segs cs

/-- `Find` at a leaf whose search stops at a gap returns that gap. -/
theorem find_of_leaf {key i : ℕ} {n : Node V} {up : Place V}
    (hi : searchKeys n.segs key 0 n.nrSegments = .gap i) (hleaf : n.hasChildren = false) :
    n.find key up = (none, some ⟨n, i, up⟩) := by
  rw [find, hi]
  simp [hleaf]

end Node

section Find

variable {root : Node V} {key : ℕ}

/-- The descent of `Find` at `n`: the place of `n` leads to it from `root`,
the segments of the tree before its subtree end at or below `key`, and those
after it start above `key`. -/
def Descent (root : Node V) (key : ℕ) (n : Node V) (up : Place V) : Prop :=
  up.Leads n root ∧ ∃ A B, root.inorder = A ++ n.inorder ++ B ∧ A.length = up.offset ∧
    (∀ x ∈ A, x.1.stop ≤ key) ∧ ∀ x ∈ B, key < x.1.start

theorem descent_root (root : Node V) (key : ℕ) : Descent root key root [] :=
  ⟨rfl, [], [], by simp, rfl, by simp, by simp⟩

/-- The segments of a node on the descent are sorted. -/
theorem Descent.sorted_segs {n : Node V} {up : Place V} (hsort : Tree.Sorted root.inorder)
    (h : Descent root key n up) : Tree.Sorted n.segs := by
  obtain ⟨-, A, B, heq, -⟩ := h
  have hinfix : n.inorder <:+: root.inorder := ⟨A, B, heq.symm⟩
  exact (hsort.sublist hinfix.sublist).sublist n.segs_sublist

/-- The search inside a node on the descent. -/
theorem Descent.search {n : Node V} {up : Place V} (hsort : Tree.Sorted root.inorder)
    (h : Descent root key n up) :
    match Node.searchKeys n.segs key 0 n.nrSegments with
    | .segment i => ∃ x, n.segs[i]? = some x ∧ x.1.contains key = true
    | .gap i => Node.SearchInv n.segs key i i :=
  Node.searchKeys_spec (h.sorted_segs hsort) (Node.searchInv_init n.segs key)

/-- `Find` goes down into the child at the gap the search stops at. -/
theorem Descent.child {n c : Node V} {up : Place V} {i : ℕ} (hv : root.shaped = true)
    (hsort : Tree.Sorted root.inorder) (h : Descent root key n up)
    (hi : Node.SearchInv n.segs key i i) (hc : n.children[i]? = some c) :
    Descent root key c ((n, i) :: up) := by
  obtain ⟨hlead, A, B, heq, hA, hAk, hBk⟩ := h
  obtain ⟨L, R, hsplit, hL, hlast, hhead⟩ := Node.inorder_split (hlead.shaped hv) hc
  have hroot : root.inorder = A ++ L ++ c.inorder ++ (R ++ B) := by simp [heq, hsplit]
  have hsL : Tree.Sorted L := hsort.sublist (List.IsInfix.sublist ⟨A, c.inorder ++ (R ++ B),
    by simp [hroot]⟩)
  have hsR : Tree.Sorted R := hsort.sublist (List.IsInfix.sublist ⟨A ++ L ++ c.inorder, B,
    by simp [hroot]⟩)
  refine ⟨⟨hc, hlead⟩, A ++ L, R ++ B, by simp [hroot], by simp [Place.offset, hA, hL],
    ?_, ?_⟩
  · -- what the child has before it ends with the segment `i - 1`, below the key
    intro x hx
    rcases List.mem_append.mp hx with hx | hx
    · exact hAk x hx
    · cases hy : L.getLast? with
      | none => simp only [List.getLast?_eq_none_iff] at hy; simp [hy] at hx
      | some y =>
        have hseg : n.segs[i - 1]? = some y ∧ i ≠ 0 := by
          by_cases h0 : i = 0
          · simp [h0, hy] at hlast
          · simp only [h0, if_false, hy] at hlast
            exact ⟨hlast.symm, h0⟩
        have hykey := hi.2.2.1 (i - 1) y hseg.1 (by omega)
        exact (hsL.stop_le_of_getLast? hy x hx).trans hykey
  · -- what the child has after it starts with the segment `i`, above the key
    intro x hx
    rcases List.mem_append.mp hx with hx | hx
    · cases hy : R.head? with
      | none => simp only [List.head?_eq_none_iff] at hy; simp [hy] at hx
      | some y =>
        have hykey := hi.2.2.2 i y (hhead.symm.trans hy) le_rfl
        exact hykey.trans_le (hsR.start_le_of_head? hy x hx)
    · exact hBk x hx

/-- What `Find` returns for `key` in the tree under `root`: the segment that
holds the key and no gap; or no segment and the gap of a leaf, every segment
before the gap ending at or below the key and every one after it starting
above it. -/
def FindSpec (root : Node V) (key : ℕ) : Option (Iterator V) × Option (GapIterator V) → Prop
  | (some seg, none) => seg.InTree root ∧ ∃ x, seg.get? = some x ∧ x.1.contains key = true
  | (none, some gap) =>
    gap.up.Leads gap.node root ∧ gap.node.children = [] ∧ gap.index ≤ gap.node.nrSegments ∧
      ∃ A B, root.inorder = A ++ B ∧ A.length = gap.pos ∧
        (∀ x ∈ A, x.1.stop ≤ key) ∧ ∀ x ∈ B, key < x.1.start
  | _ => False

/-- `Find` from any node on the descent returns what `FindSpec` says; the
induction follows the turns of the loop. -/
theorem find_spec (hv : root.shaped = true) (hsort : Tree.Sorted root.inorder) {n : Node V}
    {up : Place V} (h : Descent root key n up) : FindSpec root key (n.find key up) := by
  fun_induction Node.find key n up with
  | case1 n up i hi =>
    obtain ⟨x, hx, hkey⟩ : ∃ x, n.segs[i]? = some x ∧ x.1.contains key = true := by
      simpa [hi] using h.search hsort
    exact ⟨⟨h.1, (List.getElem?_eq_some_iff.mp hx).1⟩, x, hx, hkey⟩
  | case2 n up i hi hch hnone =>
    -- an internal node has a child at each of its gaps
    have hinv : Node.SearchInv n.segs key i i := by simpa [hi] using h.search hsort
    have hlen := Node.length_children (h.1.shaped hv) hch
    have := hinv.2.1
    simp only [List.getElem?_eq_none_iff, hlen, Node.nrSegments] at hnone
    omega
  | case3 n up i hi hch c hc ih =>
    have hinv : Node.SearchInv n.segs key i i := by simpa [hi] using h.search hsort
    exact ih (h.child hv hsort hinv hc)
  | case4 n up i hi hleaf =>
    have hinv : Node.SearchInv n.segs key i i := by simpa [hi] using h.search hsort
    have hchildren : n.children = [] := by simpa [Node.hasChildren] using hleaf
    obtain ⟨hlead, A, B, heq, hA, hAk, hBk⟩ := h
    refine ⟨hlead, hchildren, hinv.2.1, A ++ n.segs.take i, n.segs.drop i ++ B, ?_, ?_, ?_, ?_⟩
    · rw [heq, Node.inorder_of_leaf hchildren, List.append_assoc A, List.append_assoc A,
        ← List.append_assoc (n.segs.take i), List.take_append_drop]
    · simp [GapIterator.pos, hA, Node.before_of_leaf hchildren, hinv.2.1]
    · intro x hx
      rcases List.mem_append.mp hx with hx | hx
      · exact hAk x hx
      · obtain ⟨t, ht⟩ := List.mem_iff_getElem?.mp hx
        rw [List.getElem?_take] at ht
        split_ifs at ht with hti
        exact hinv.2.2.1 t x ht hti
    · intro x hx
      rcases List.mem_append.mp hx with hx | hx
      · obtain ⟨t, ht⟩ := List.mem_iff_getElem?.mp hx
        rw [List.getElem?_drop] at ht
        exact hinv.2.2.2 (i + t) x ht (Nat.le_add_right i t)
      · exact hBk x hx

end Find

section Moves

variable {root : Node V}

/-- The segment after the position `i` of `n` stands at the next position of
the tree; the walk climbs while `i` is past the node's last segment, and finds
nothing past the tree's last. -/
theorem segmentAfterPosition_spec (hv : root.shaped = true) {n : Node V} {i : ℕ}
    {up : Place V} (hl : up.Leads n root) (hi : i ≤ n.nrSegments) :
    match segmentAfterPosition n i up with
    | some seg => seg.InTree root ∧ seg.pos = up.offset + n.segPos i
    | none => up.offset + n.segPos i = root.size := by
  fun_induction segmentAfterPosition n i up with
  | case1 n =>
    obtain rfl : n = root := hl
    simp [Place.offset, Node.size_eq_segPos hv]
  | case2 n p j up ih =>
    have hn := hl.shaped hv
    obtain ⟨hc, hl'⟩ := hl
    -- past the last segment of `n` is where the parent's segment `j` stands
    have hpos : Place.offset up + p.segPos j =
        Place.offset ((p, j) :: up) + n.segPos n.nrSegments := by
      rw [Place.Leads.segPos_parent hc hn, Place.offset]
      omega
    rw [← hpos]
    exact ih hl' (Place.Leads.index_le (hl'.shaped hv) hc)
  | case3 n i up hne =>
    exact ⟨⟨hl, Nat.lt_of_le_of_ne hi hne⟩, rfl⟩

/-- The segment before the position `i` of `n` stands just before it in the
tree; the walk climbs while `i` is the node's first position, and finds
nothing before the tree's first. -/
theorem segmentBeforePosition_spec (hv : root.shaped = true) {n : Node V} {i : ℕ}
    {up : Place V} (hl : up.Leads n root) (hi : i ≤ n.nrSegments) :
    match segmentBeforePosition n i up with
    | some seg => seg.InTree root ∧ seg.pos + 1 = up.offset + n.before i
    | none => up.offset + n.before i = 0 := by
  fun_induction segmentBeforePosition n i up with
  | case1 n => simp [Place.offset]
  | case2 n p j up ih =>
    obtain ⟨hc, hl'⟩ := hl
    have hpos : Place.offset up + p.before j = Place.offset ((p, j) :: up) + n.before 0 := by
      simp [Place.offset]
    rw [← hpos]
    exact ih hl' (Place.Leads.index_le (hl'.shaped hv) hc)
  | case3 n i up hne =>
    refine ⟨⟨hl, show i - 1 < n.nrSegments by omega⟩, ?_⟩
    have hsucc := n.before_succ (i - 1)
    rw [Nat.sub_add_cancel (Nat.pos_of_ne_zero hne)] at hsucc
    simp only [Iterator.pos, hsucc]
    omega

theorem Iterator.InTree.exists_get? {seg : Iterator V} (h : seg.InTree root) :
    ∃ x, seg.get? = some x :=
  ⟨_, List.getElem?_eq_getElem h.2⟩

theorem Iterator.range_of_get? {seg : Iterator V} {x : Range × V} (h : seg.get? = some x) :
    seg.range = x.1 := by
  simp [Iterator.range, h]

variable {A B : List (Range × V)} {gap : GapIterator V}

/-- The next segment of a gap of a leaf is the first segment after it. -/
theorem GapIterator.nextSegment_get? (hv : root.shaped = true)
    (hl : gap.up.Leads gap.node root) (hleaf : gap.node.children = [])
    (hi : gap.index ≤ gap.node.nrSegments) (hsplit : root.inorder = A ++ B)
    (hA : A.length = gap.pos) : gap.nextSegment.map Iterator.get? = B.head?.map some := by
  have hspec := segmentAfterPosition_spec hv hl hi
  -- in a leaf the gap `i` and the segment `i` stand at the same position
  have hgap : gap.pos = gap.up.offset + gap.node.segPos gap.index := by
    rw [GapIterator.pos, Node.segPos_of_leaf hleaf, Node.before_of_leaf hleaf]
  rw [GapIterator.nextSegment]
  cases hnext : segmentAfterPosition gap.node gap.index gap.up with
  | none =>
    -- past the tree's last segment: nothing follows the gap
    rw [hnext] at hspec
    have hB : B = [] := by
      have hlen := congrArg List.length hsplit
      rw [List.length_append] at hlen
      rw [Node.size] at hspec
      exact List.eq_nil_of_length_eq_zero (by omega)
    simp [hB]
  | some seg =>
    rw [hnext] at hspec
    obtain ⟨hin, hpos⟩ := hspec
    obtain ⟨x, hx⟩ := hin.exists_get?
    have hget := hin.getElem? hv
    rw [hsplit, hpos, ← hgap, ← hA, List.getElem?_append_right le_rfl, Nat.sub_self,
      ← List.head?_eq_getElem?] at hget
    simp [hget, hx]

/-- The previous segment of a gap is the last segment before it. -/
theorem GapIterator.prevSegment_get? (hv : root.shaped = true)
    (hl : gap.up.Leads gap.node root) (hi : gap.index ≤ gap.node.nrSegments)
    (hsplit : root.inorder = A ++ B) (hA : A.length = gap.pos) :
    gap.prevSegment.map Iterator.get? = A.getLast?.map some := by
  have hspec := segmentBeforePosition_spec hv hl hi
  rw [GapIterator.prevSegment]
  cases hprev : segmentBeforePosition gap.node gap.index gap.up with
  | none =>
    -- before the tree's first segment: nothing precedes the gap
    rw [hprev] at hspec
    have hA0 : A = [] := List.eq_nil_of_length_eq_zero (by rw [hA, GapIterator.pos]; omega)
    simp [hA0]
  | some seg =>
    rw [hprev] at hspec
    obtain ⟨hin, hpos⟩ := hspec
    obtain ⟨x, hx⟩ := hin.exists_get?
    have hget := hin.getElem? hv
    have hlt : seg.pos < A.length := by rw [hA, GapIterator.pos]; omega
    rw [hsplit, List.getElem?_append_left hlt] at hget
    have hlast : A.getLast? = A[seg.pos]? := by
      rw [List.getLast?_eq_getElem?]
      congr 1
      rw [hA, GapIterator.pos]
      omega
    simp [hlast, hget, hx]

end Moves

namespace Tree

variable {s : Tree V} {key : ℕ}

theorem find_valid (hv : s.Valid) (key : ℕ) : FindSpec s.root key (s.find key) :=
  find_spec hv.1 hv.2 (descent_root s.root key)

/-- Where `Find` lands on a segment, the set's list splits at it. -/
theorem split_of_found (hv : s.Valid) {seg : Iterator V} (hin : seg.InTree s.root)
    {x : Range × V} (hx : seg.get? = some x) :
    ∃ A B, s.root.inorder = A ++ x :: B ∧ (∀ y ∈ A, y.1.stop ≤ x.1.start) ∧
      ∀ y ∈ B, x.1.stop ≤ y.1.start :=
  hv.2.split_of_getElem? ((hin.getElem? hv.1).trans hx)

/-- `Find` lands on a segment exactly when one holds the key, and then on it. -/
theorem find_fst_get? (hv : s.Valid) (key : ℕ) :
    (s.find key).1.map Iterator.get? =
      (s.root.inorder.find? fun x => x.1.contains key).map some := by
  have hspec := find_valid hv key
  generalize s.find key = res at hspec
  match res, hspec with
  | (some seg, none), ⟨hin, x, hx, hkey⟩ =>
    obtain ⟨A, B, hl, hA, -⟩ := split_of_found hv hin hx
    have hxk : x.1.start ≤ key := by simp [Range.contains] at hkey; exact hkey.1
    -- the segments before it end at or below its start, so none holds the key
    have hnone : A.find? (fun x => x.1.contains key) = none := by
      rw [List.find?_eq_none]
      intro y hy
      have := hA y hy
      simp [Range.contains]
      omega
    have hfind : s.root.inorder.find? (fun x => x.1.contains key) = some x := by
      simp [hl, List.find?_append, hnone, hkey]
    simp [hfind, hx]
  | (none, some gap), ⟨_, _, _, A, B, hl, _, hA, hB⟩ =>
    have hfind : s.root.inorder.find? (fun x => x.1.contains key) = none := by
      rw [List.find?_eq_none]
      intro y hy
      rw [hl] at hy
      rcases List.mem_append.mp hy with hy | hy
      · simp [Range.contains]; have := hA y hy; omega
      · simp [Range.contains]; have := hB y hy; omega
    simp [hfind]

/-- `LowerBoundSegment` is the first segment that ends above `min`. -/
theorem lowerBoundSegment_get? (hv : s.Valid) (min : ℕ) :
    (s.lowerBoundSegment min).map Iterator.get? =
      ((s.root.inorder.filter fun x => min < x.1.stop).head?).map some := by
  have hspec := find_valid hv min
  rw [lowerBoundSegment]
  generalize s.find min = res at hspec ⊢
  match res, hspec with
  | (some seg, none), ⟨hin, x, hx, hkey⟩ =>
    obtain ⟨A, B, hl, hA, -⟩ := split_of_found hv hin hx
    simp only [Range.contains, Bool.and_eq_true, decide_eq_true_eq] at hkey
    -- the segments before it end at or below its start, so at or below `min`
    have hAf : A.filter (fun x => min < x.1.stop) = [] := by
      rw [List.filter_eq_nil_iff]
      intro y hy
      have := hA y hy
      simp only [decide_eq_true_eq]
      omega
    simp [hl, hAf, hkey.2, hx]
  | (none, some gap), ⟨hl, hleaf, hi, A, B, hsplit, hA, hAk, hBk⟩ =>
    -- the segments before the gap end at or below `min`, those after it start above
    have hAf : A.filter (fun x => min < x.1.stop) = [] := by
      rw [List.filter_eq_nil_iff]
      intro y hy
      simpa using hAk y hy
    have hBf : B.filter (fun x => min < x.1.stop) = B := by
      rw [List.filter_eq_self]
      intro y hy
      have := hBk y hy
      have := hv.2.2 y (by rw [hsplit]; exact List.mem_append_right A hy)
      simp only [decide_eq_true_eq]
      omega
    simp only
    rw [GapIterator.nextSegment_get? hv.1 hl hleaf hi hsplit hA, hsplit, List.filter_append,
      hAf, hBf, List.nil_append]
  | (some _, some _), h => exact h.elim
  | (none, none), h => exact h.elim

/-- `UpperBoundSegment` is the last segment that starts at or below `max`. -/
theorem upperBoundSegment_get? (hv : s.Valid) (max : ℕ) :
    (s.upperBoundSegment max).map Iterator.get? =
      ((s.root.inorder.filter fun x => x.1.start ≤ max).getLast?).map some := by
  have hspec := find_valid hv max
  have hwf := hv.2.2
  rw [upperBoundSegment]
  generalize s.find max = res at hspec ⊢
  match res, hspec with
  | (some seg, none), ⟨hin, x, hx, hkey⟩ =>
    obtain ⟨A, B, hl, hA, hB⟩ := split_of_found hv hin hx
    simp only [Range.contains, Bool.and_eq_true, decide_eq_true_eq] at hkey
    -- the segments before it start below it, those after it at or above its end
    have hAf : A.filter (fun x => x.1.start ≤ max) = A := by
      rw [List.filter_eq_self]
      intro y hy
      have := hA y hy
      have := hwf y (by rw [hl]; exact List.mem_append_left _ hy)
      simp only [decide_eq_true_eq]
      omega
    have hBf : B.filter (fun x => x.1.start ≤ max) = [] := by
      rw [List.filter_eq_nil_iff]
      intro y hy
      have := hB y hy
      simp only [decide_eq_true_eq]
      omega
    simp [hl, hAf, hBf, hkey.1, hx]
  | (none, some gap), ⟨hl, _, hi, A, B, hsplit, hA, hAk, hBk⟩ =>
    have hAf : A.filter (fun x => x.1.start ≤ max) = A := by
      rw [List.filter_eq_self]
      intro y hy
      have := hAk y hy
      have := hwf y (by rw [hsplit]; exact List.mem_append_left B hy)
      simp only [decide_eq_true_eq]
      omega
    have hBf : B.filter (fun x => x.1.start ≤ max) = [] := by
      rw [List.filter_eq_nil_iff]
      intro y hy
      simpa using hBk y hy
    simp only
    rw [GapIterator.prevSegment_get? hv.1 hl hi hsplit hA, hsplit, List.filter_append,
      hAf, hBf, List.append_nil]
  | (some _, some _), h => exact h.elim
  | (none, none), h => exact h.elim

/-- The gap of a result of `Find`: terminal beside a segment, and otherwise one
whose range holds the key when the key is one of the key space. -/
def GapRangeSpec (fns : Functions V) (key : ℕ) :
    Option (Iterator V) × Option (GapIterator V) → Prop
  | (some _, gap) => gap = none
  | (none, some gap) =>
    fns.minKey ≤ key → key < fns.maxKey → (gap.range fns).contains key = true
  | (none, none) => False

theorem find_gap_range (fns : Functions V) (hv : s.Valid) (key : ℕ) :
    GapRangeSpec fns key (s.find key) := by
  have hspec := find_valid hv key
  generalize s.find key = res at hspec ⊢
  match res, hspec with
  | (some _, none), _ => rfl
  | (none, some gap), ⟨hl, hleaf, hi, A, B, hsplit, hA, hAk, hBk⟩ =>
    intro hmin hmax
    have hstart : gap.start fns ≤ key := by
      rw [GapIterator.start]
      cases hps : gap.prevSegment with
      | none => exact hmin
      | some ps =>
        -- the segment before the gap is the last of those that end at or below the key
        have hprev := GapIterator.prevSegment_get? hv.1 hl hi hsplit hA
        rw [hps] at hprev
        obtain ⟨y, hyA, hy⟩ := Option.map_eq_some_iff.mp hprev.symm
        show ps.range.stop ≤ key
        rw [Iterator.range_of_get? hy.symm]
        exact hAk y (List.mem_of_getLast? hyA)
    have hstop : key < gap.stop fns := by
      rw [GapIterator.stop]
      cases hns : gap.nextSegment with
      | none => exact hmax
      | some ns =>
        have hnext := GapIterator.nextSegment_get? hv.1 hl hleaf hi hsplit hA
        rw [hns] at hnext
        obtain ⟨y, hyB, hy⟩ := Option.map_eq_some_iff.mp hnext.symm
        show key < ns.range.start
        rw [Iterator.range_of_get? hy.symm]
        exact hBk y (List.mem_of_head? hyB)
    simp [GapIterator.range, Range.contains, hstart, hstop]
  | (some _, some _), h => exact h.elim
  | (none, none), h => exact h.elim

theorem spanFrom_none (r : Range) (fuel : ℕ) : spanFrom r fuel (none : Option (Iterator V)) = 0 := by
  cases fuel <;> rfl

/-- The first turn of `SpanRange`'s loop decides whether the sum is zero: its
segment ends above the range's start, so it overlaps the range exactly when it
starts below the range's end, and adds a positive length then. -/
theorem spanFrom_eq_zero_iff {r : Range} (hr : r.start < r.stop) {seg : Iterator V}
    {x : Range × V} (hx : seg.get? = some x) (hxv : x.1.start < x.1.stop)
    (hlow : r.start < x.1.stop) (fuel : ℕ) :
    spanFrom r (fuel + 1) (some seg) = 0 ↔ r.stop ≤ x.1.start := by
  rw [spanFrom, Iterator.range_of_get? hx]
  split_ifs with h
  · have hpos : 0 < (x.1.intersect r).length := by
      simp only [Range.intersect, Range.length]
      split_ifs <;> omega
    constructor
    · intro h0
      omega
    · intro hle
      omega
  · simp only [true_iff]
    omega

/-- `IsEmptyRange` agrees with `SpanRange`'s sum on every well-formed range
that ends within the key space; there the unsigned `Length` is `length`. -/
theorem isEmptyRange_iff (fns : Functions V) (hv : s.Valid) (r : Range) (hwf : r.start ≤ r.stop)
    (hr : r.stop ≤ fns.maxKey) : s.isEmptyRange fns r = true ↔ s.spanRange fns r = 0 := by
  have hkey : r.keyLength fns.keys = r.length :=
    Range.keyLength_of_le hwf (by unfold Functions.keys; omega)
  rw [isEmptyRange, spanRange, hkey]
  split_ifs with hlen
  · simp
  have hr' : r.start < r.stop := by
    simp only [Range.length] at hlen
    omega
  have hspec := find_valid hv r.start
  rw [lowerBoundSegment]
  generalize s.find r.start = res at hspec ⊢
  match res, hspec with
  | (some seg, none), ⟨hin, x, hx, hkey⟩ =>
    -- the range starts inside a segment, and the sum counts it
    have hmem := List.mem_of_getElem? ((hin.getElem? hv.1).trans hx)
    obtain ⟨fuel, hfuel⟩ : ∃ fuel, s.root.inorder.length = fuel + 1 :=
      ⟨_, (Nat.succ_pred_eq_of_pos (List.length_pos_of_mem hmem)).symm⟩
    simp only [Range.contains, Bool.and_eq_true, decide_eq_true_eq] at hkey
    rw [hfuel, spanFrom_eq_zero_iff hr' hx (hv.2.2 x hmem) hkey.2]
    simp only [Bool.false_eq_true, false_iff]
    omega
  | (none, some gap), ⟨hl, hleaf, hi, A, B, hsplit, hA, hAk, hBk⟩ =>
    have hnext := GapIterator.nextSegment_get? hv.1 hl hleaf hi hsplit hA
    dsimp only
    cases hns : gap.nextSegment with
    | none =>
      have hstop : gap.stop fns = fns.maxKey := by rw [GapIterator.stop, hns]
      simp [hstop, spanFrom_none, hr]
    | some seg =>
      -- the sum starts from the first segment after the gap, which starts above `r.start`
      rw [hns] at hnext
      obtain ⟨y, hyB, hy⟩ := Option.map_eq_some_iff.mp hnext.symm
      have hstop : gap.stop fns = y.1.start := by
        rw [GapIterator.stop, hns]
        exact congrArg Range.start (Iterator.range_of_get? hy.symm)
      have hmem : y ∈ s.root.inorder := by
        rw [hsplit]
        exact List.mem_append_right A (List.mem_of_head? hyB)
      have hyk := hBk y (List.mem_of_head? hyB)
      have hyv := hv.2.2 y hmem
      obtain ⟨fuel, hfuel⟩ : ∃ fuel, s.root.inorder.length = fuel + 1 :=
        ⟨_, (Nat.succ_pred_eq_of_pos (List.length_pos_of_mem hmem)).symm⟩
      rw [hfuel, spanFrom_eq_zero_iff hr' hy.symm hyv (by omega), hstop]
      simp
  | (some _, some _), h => exact h.elim
  | (none, none), h => exact h.elim

/-- The lookups of a valid set, read on its list of segments: `Find` lands on
the segment that holds the key, and otherwise in a gap whose range holds the
key when the key is one of the key space; `LowerBoundSegment` is the first
segment that ends above its bound and `UpperBoundSegment` the last that starts
at or below it; and `IsEmptyRange` agrees with `SpanRange` on every well-formed
range that ends within the key space. -/
theorem find_bounds_isEmptyRange (fns : Functions V) {s : Tree V} (hv : s.Valid) :
    (∀ key, (s.find key).1.map Iterator.get? =
        (s.root.inorder.find? fun x => x.1.contains key).map some) ∧
    (∀ key, GapRangeSpec fns key (s.find key)) ∧
    (∀ min, (s.lowerBoundSegment min).map Iterator.get? =
        ((s.root.inorder.filter fun x => min < x.1.stop).head?).map some) ∧
    (∀ max, (s.upperBoundSegment max).map Iterator.get? =
        ((s.root.inorder.filter fun x => x.1.start ≤ max).getLast?).map some) ∧
    ∀ r : Range, r.start ≤ r.stop → r.stop ≤ fns.maxKey →
      (s.isEmptyRange fns r = true ↔ s.spanRange fns r = 0) :=
  ⟨find_fst_get? hv, find_gap_range fns hv, lowerBoundSegment_get? hv,
    upperBoundSegment_get? hv, isEmptyRange_iff fns hv⟩

/-- A set of three segments on two levels: `[10, 20)` at the root, `[0, 5)`
and `[30, 40)` in its leaves. -/
def sampleSet : Tree ℕ :=
  ⟨.mk [(⟨10, 20⟩, 1)] [.mk [(⟨0, 5⟩, 0)] [], .mk [(⟨30, 40⟩, 2)] []]⟩

/-- Keys in `[0, 100)`, values that never merge. -/
def sampleFunctions : Functions ℕ := ⟨0, 100, fun _ _ _ _ => none, fun _ v _ => (v, v)⟩

theorem find_bounds_isEmptyRange_sampleSet :
    sampleSet.Valid ∧
    (∀ key, (sampleSet.find key).1.map Iterator.get? =
        (sampleSet.root.inorder.find? fun x => x.1.contains key).map some) ∧
    (∀ key, GapRangeSpec sampleFunctions key (sampleSet.find key)) ∧
    (∀ min, (sampleSet.lowerBoundSegment min).map Iterator.get? =
        ((sampleSet.root.inorder.filter fun x => min < x.1.stop).head?).map some) ∧
    (∀ max, (sampleSet.upperBoundSegment max).map Iterator.get? =
        ((sampleSet.root.inorder.filter fun x => x.1.start ≤ max).getLast?).map some) ∧
    ∀ r : Range, r.start ≤ r.stop → r.stop ≤ sampleFunctions.maxKey →
      (sampleSet.isEmptyRange sampleFunctions r = true ↔
        sampleSet.spanRange sampleFunctions r = 0) :=
  ⟨by decide, find_bounds_isEmptyRange sampleFunctions (s := sampleSet) (by decide)⟩

/-- On the empty set, `Find` of the key `MaxKey` lands in the gap
`[MinKey, MaxKey)`, which does not hold it. -/
theorem find_maxKey_outside_gap :
    let s : Tree ℕ := ⟨.mk [] []⟩
    s.Valid ∧ ∃ gap, s.find sampleFunctions.maxKey = (none, some gap) ∧
      gap.range sampleFunctions = ⟨0, 100⟩ ∧
      (gap.range sampleFunctions).contains sampleFunctions.maxKey = false := by
  have hsearch : Node.searchKeys ([] : List (Range × ℕ)) 100 0 0 = .gap 0 := by
    rw [Node.searchKeys]
    rfl
  refine ⟨by decide, ⟨.mk [] [], 0, []⟩, ?_, by decide, by decide⟩
  exact Node.find_of_leaf hsearch rfl

end Tree

end ContainerFS.Segment
