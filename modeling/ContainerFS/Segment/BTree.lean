import Mathlib
import ContainerFS.Segment.Set

/-!
The B-tree under the segment sets of `pkg/segment` (`set.go`), for the
operations that read it: `Find`, the iterators' moves to the next or previous
segment, `LowerBoundSegment`, `UpperBoundSegment`, `IsEmptyRange` and
`SpanRange`.

A node holds its segments (`keys` and `values`) and, when it has children,
`nrSegments + 1` of them, the child `i` holding the keys between segments
`i - 1` and `i`. The parent pointers of the source are kept as a node's place:
its parent and its index there, then the parent's place, up to the root. An
`Iterator` or `GapIterator` is a node, an index and the node's place; the
terminal iterators are `none`.

The abstract value of a set is the list of its segments in key order
(`Node.inorder`), the list on which `ContainerFS.Segment.Set` states the
operations. An iterator names the segment at its position in that list
(`Iterator.pos`), and the results of `Find` and of the moves are read as
positions.
-/

namespace ContainerFS.Segment

/-- `node`: its segments, and its children when it has any. -/
inductive Node (V : Type) where
  | mk (segs : List (Range × V)) (children : List (Node V))

namespace Node

variable {V : Type}

/-- The segments of a node, its `keys` and `values`. -/
def segs : Node V → List (Range × V)
  | mk s _ => s

/-- The children of a node. -/
def children : Node V → List (Node V)
  | mk _ c => c

def nrSegments (n : Node V) : ℕ := n.segs.length

def hasChildren (n : Node V) : Bool := !n.children.isEmpty

mutual

/-- The segments of the subtree in key order: each child, then the segment
after it. -/
def inorder : Node V → List (Range × V)
  | mk segs children => inorderList segs children

/-- The segments of the subtree of a node with these segments and children. -/
def inorderList : List (Range × V) → List (Node V) → List (Range × V)
  | segs, [] => segs
  | [], c :: _ => inorder c
  | s :: segs, c :: cs => inorder c ++ s :: inorderList segs cs

end

mutual

/-- The shape `Find` and the iterators rely on: a leaf, or `nrSegments + 1`
children, each holding a segment and shaped so in turn. -/
def shaped : Node V → Bool
  | mk _ [] => true
  | mk segs (c :: cs) => (c :: cs).length == segs.length + 1 && shapedList (c :: cs)

/-- Every node of the list holds a segment and is shaped. -/
def shapedList : List (Node V) → Bool
  | [] => true
  | c :: cs => !c.segs.isEmpty && c.shaped && shapedList cs

end

end Node

/-- Where a node sits: its `parent` and `parentIndex`, then the parent's own
place, up to the root, whose place is `[]`. -/
abbrev Place (V : Type) := List (Node V × ℕ)

/-- A non-terminal `Iterator`: the segment `index` of `node`. -/
structure Iterator (V : Type) where
  node : Node V
  index : ℕ
  up : Place V

/-- A non-terminal `GapIterator`: the gap `index` of `node`, where its child
`index` would be. -/
structure GapIterator (V : Type) where
  node : Node V
  index : ℕ
  up : Place V

namespace Node

variable {V : Type}

/-- `firstSegment` of the subtree of `n`, at the place `up`. -/
def firstSegment : Node V → Place V → Iterator V
  | mk segs [], up => ⟨mk segs [], 0, up⟩
  | mk segs (c :: cs), up => firstSegment c ((mk segs (c :: cs), 0) :: up)

/-- `lastSegment` of the subtree of `n`, at the place `up`. -/
def lastSegment (n : Node V) (up : Place V) : Iterator V :=
  match h : n.children[n.nrSegments]? with
  | none => ⟨n, n.nrSegments - 1, up⟩
  | some c => lastSegment c ((n, n.nrSegments) :: up)
termination_by sizeOf n
decreasing_by
  have hm := List.mem_of_getElem? h
  cases n with
  | mk s cs =>
    simp only [children] at hm
    have := List.sizeOf_lt_of_mem hm
    simp only [mk.sizeOf_spec]
    omega

/-- The binary search of `Find` in the segments of a node, with the
invariant that the index sought lies in `[lower, upper]`. -/
def searchKeys (segs : List (Range × V)) (key : ℕ) (lower upper : ℕ) : Position :=
  if lower < upper then
    let i := lower + (upper - lower) / 2
    match segs[i]? with
    | some (r, _) =>
      if key < r.stop then
        if key ≥ r.start then .segment i else searchKeys segs key lower i
      else searchKeys segs key (i + 1) upper
    | none => .gap lower
  else .gap lower
termination_by upper - lower

/-- The loop of `Find` from the node `n` at the place `up`. -/
def find (key : ℕ) (n : Node V) (up : Place V) : Option (Iterator V) × Option (GapIterator V) :=
  match searchKeys n.segs key 0 n.nrSegments with
  | .segment i => (some ⟨n, i, up⟩, none)
  | .gap i =>
    if n.hasChildren then
      -- an internal node has a child at every gap
      match _hc : n.children[i]? with
      | none => (none, none)
      | some c => find key c ((n, i) :: up)
    else (none, some ⟨n, i, up⟩)
termination_by sizeOf n
decreasing_by
  have hm := List.mem_of_getElem? _hc
  cases n with
  | mk s cs =>
    simp only [children] at hm
    have := List.sizeOf_lt_of_mem hm
    simp only [mk.sizeOf_spec]
    omega

end Node

/-- `segmentBeforePosition`: the segment before the position `i` of `n`. -/
def segmentBeforePosition {V : Type} : Node V → ℕ → Place V → Option (Iterator V)
  | n, i, up =>
    if i = 0 then
      match up with
      | [] => none
      | (p, j) :: up => segmentBeforePosition p j up
    else some ⟨n, i - 1, up⟩

/-- `segmentAfterPosition`: the segment after the position `i` of `n`. -/
def segmentAfterPosition {V : Type} : Node V → ℕ → Place V → Option (Iterator V)
  | n, i, up =>
    if i = n.nrSegments then
      match up with
      | [] => none
      | (p, j) :: up => segmentAfterPosition p j up
    else some ⟨n, i, up⟩

namespace Iterator

variable {V : Type}

/-- The segment the iterator names, `node.keys[index]` and its value. -/
def get? (seg : Iterator V) : Option (Range × V) := seg.node.segs[seg.index]?

def range (seg : Iterator V) : Range := ((seg.get?).map Prod.fst).getD ⟨0, 0⟩

def prevSegment (seg : Iterator V) : Option (Iterator V) :=
  if seg.node.hasChildren then
    (seg.node.children[seg.index]?).map fun c => c.lastSegment ((seg.node, seg.index) :: seg.up)
  else if seg.index > 0 then some ⟨seg.node, seg.index - 1, seg.up⟩
  else
    match seg.up with
    | [] => none
    | (p, j) :: up => segmentBeforePosition p j up

def nextSegment (seg : Iterator V) : Option (Iterator V) :=
  if seg.node.hasChildren then
    (seg.node.children[seg.index + 1]?).map fun c =>
      c.firstSegment ((seg.node, seg.index + 1) :: seg.up)
  else if seg.index + 1 < seg.node.nrSegments then some ⟨seg.node, seg.index + 1, seg.up⟩
  else
    match seg.up with
    | [] => none
    | (p, j) :: up => segmentAfterPosition p j up

end Iterator

namespace GapIterator

variable {V : Type}

def prevSegment (gap : GapIterator V) : Option (Iterator V) :=
  segmentBeforePosition gap.node gap.index gap.up

def nextSegment (gap : GapIterator V) : Option (Iterator V) :=
  segmentAfterPosition gap.node gap.index gap.up

/-- `Start`: the end of the segment before the gap, or the least key. -/
def start (fns : Functions V) (gap : GapIterator V) : ℕ :=
  match gap.prevSegment with
  | some ps => ps.range.stop
  | none => fns.minKey

/-- `End`: the start of the segment after the gap, or the greatest key. -/
def stop (fns : Functions V) (gap : GapIterator V) : ℕ :=
  match gap.nextSegment with
  | some ns => ns.range.start
  | none => fns.maxKey

def range (fns : Functions V) (gap : GapIterator V) : Range := ⟨gap.start fns, gap.stop fns⟩

end GapIterator

/-- `Set`: the root of the B-tree. -/
structure Tree (V : Type) where
  root : Node V

namespace Tree

variable {V : Type}

def find (s : Tree V) (key : ℕ) : Option (Iterator V) × Option (GapIterator V) :=
  s.root.find key []

def lowerBoundSegment (s : Tree V) (min : ℕ) : Option (Iterator V) :=
  match s.find min with
  | (some seg, _) => some seg
  | (none, some gap) => gap.nextSegment
  | (none, none) => none

def upperBoundSegment (s : Tree V) (max : ℕ) : Option (Iterator V) :=
  match s.find max with
  | (some seg, _) => some seg
  | (none, some gap) => gap.prevSegment
  | (none, none) => none

/-- `IsEmptyRange`: `Range.Length` is unsigned, so the first case never
panics, and only an empty range has length 0. -/
def isEmptyRange (fns : Functions V) (s : Tree V) (r : Range) : Bool :=
  if r.keyLength fns.keys = 0 then true
  else
    match (s.find r.start).2 with
    | none => false
    | some gap => r.stop ≤ gap.stop fns

/-- The loop of `SpanRange` from `seg`; each turn moves to the next segment,
so the number of segments bounds it. `Intersect` never returns an inverted
range, so its `Length` is `length`; the sum stays below `MaxKey` on a set
whose segments lie in the key space, so its wrap is left out. -/
def spanFrom (r : Range) : ℕ → Option (Iterator V) → ℕ
  | 0, _ => 0
  | _ + 1, none => 0
  | fuel + 1, some seg =>
    if seg.range.start < r.stop then (seg.range.intersect r).length + spanFrom r fuel seg.nextSegment
    else 0

def spanRange (fns : Functions V) (s : Tree V) (r : Range) : ℕ :=
  if r.keyLength fns.keys = 0 then 0
  else spanFrom r s.root.inorder.length (s.lowerBoundSegment r.start)

/-- Segments in key order, each nonempty, none overlapping the next. -/
def Sorted (l : List (Range × V)) : Prop :=
  l.Pairwise (fun a b => a.1.stop ≤ b.1.start) ∧ ∀ a ∈ l, a.1.start < a.1.stop

/-- A set as the operations leave it: a shaped B-tree whose segments are in
key order. -/
def Valid (s : Tree V) : Prop := s.root.shaped = true ∧ Sorted s.root.inorder

instance (l : List (Range × V)) : Decidable (Sorted l) := inferInstanceAs (Decidable (_ ∧ _))

instance (s : Tree V) : Decidable s.Valid := inferInstanceAs (Decidable (_ ∧ _))

end Tree

/-! ### Positions

The segment an iterator names is read as a position in `Node.inorder` of the
root: `Node.before` counts what a node's subtree holds before its child `j`,
`Node.segPos` where its segment `i` stands, and `Place.offset` what the tree
holds before the subtree of the node a place leads to. -/

namespace Node

variable {V : Type}

@[simp]
theorem segs_mk (segs : List (Range × V)) (cs : List (Node V)) : (mk segs cs).segs = segs := rfl

@[simp]
theorem children_mk (segs : List (Range × V)) (cs : List (Node V)) :
    (mk segs cs).children = cs := rfl

@[simp]
theorem inorder_mk (segs : List (Range × V)) (cs : List (Node V)) :
    (mk segs cs).inorder = inorderList segs cs := by
  simp [inorder]

/-- The number of segments in the subtree of `n`. -/
def size (n : Node V) : ℕ := n.inorder.length

/-- The number of segments of the subtree of `n` before its child `j`: the
children before it and the segments between them. -/
def before (n : Node V) (j : ℕ) : ℕ := ((n.children.take j).map size).sum + j

/-- Where the segment `i` of `n` stands in the subtree of `n`: after the
child `i`, when there is one. -/
def segPos (n : Node V) (i : ℕ) : ℕ := n.before i + ((n.children[i]?).map size).getD 0

@[simp]
theorem before_zero (n : Node V) : n.before 0 = 0 := by
  simp [before]

theorem before_succ (n : Node V) (j : ℕ) : n.before (j + 1) = n.segPos j + 1 := by
  simp only [before, segPos, List.take_add_one, List.map_append, List.sum_append]
  cases n.children[j]? <;> simp <;> omega

theorem before_of_leaf {n : Node V} (h : n.children = []) (j : ℕ) : n.before j = j := by
  simp [before, h]

theorem segPos_of_leaf {n : Node V} (h : n.children = []) (i : ℕ) : n.segPos i = i := by
  simp [segPos, before_of_leaf h, h]

theorem inorder_of_leaf {n : Node V} (h : n.children = []) : n.inorder = n.segs := by
  cases n with
  | mk segs cs =>
    subst h
    simp [inorderList]

theorem shapedList_iff (cs : List (Node V)) :
    shapedList cs = true ↔ ∀ c ∈ cs, c.segs ≠ [] ∧ c.shaped = true := by
  induction cs with
  | nil => simp [shapedList]
  | cons c cs ih => simp [shapedList, ih]

/-- A shaped node is a leaf, or has a child at each of its gaps, each child
holding a segment and shaped in turn. -/
theorem shaped_iff (n : Node V) :
    n.shaped = true ↔ (n.children = [] ∨ n.children.length = n.nrSegments + 1) ∧
      ∀ c ∈ n.children, c.segs ≠ [] ∧ c.shaped = true := by
  obtain ⟨segs, _ | ⟨c, cs⟩⟩ := n
  · simp [shaped]
  · rw [shaped, Bool.and_eq_true, shapedList_iff, beq_iff_eq]
    simp [nrSegments]

theorem length_children {n : Node V} (hs : n.shaped = true) (hc : n.hasChildren = true) :
    n.children.length = n.nrSegments + 1 := by
  rcases ((shaped_iff n).mp hs).1 with h | h
  · simp [hasChildren, h] at hc
  · exact h

theorem shaped_of_child {n c : Node V} {j : ℕ} (hs : n.shaped = true)
    (hc : n.children[j]? = some c) : c.segs ≠ [] ∧ c.shaped = true :=
  ((shaped_iff n).mp hs).2 c (List.mem_of_getElem? hc)

theorem hasChildren_of_child {n c : Node V} {j : ℕ} (hc : n.children[j]? = some c) :
    n.hasChildren = true := by
  cases h : n.children with
  | nil => simp [h] at hc
  | cons _ _ => simp [hasChildren, h]

/-- The in-order list splits at the child `j`: what comes before it ends with
the segment `j - 1`, and what comes after starts with the segment `j`. -/
theorem inorderList_split :
    ∀ (j : ℕ) (segs : List (Range × V)) (cs : List (Node V)) (c : Node V),
      cs.length = segs.length + 1 → cs[j]? = some c →
      ∃ L R, inorderList segs cs = L ++ c.inorder ++ R ∧
        L.length = ((cs.take j).map size).sum + j ∧
        L.getLast? = (if j = 0 then none else segs[j - 1]?) ∧ R.head? = segs[j]?
  | 0, [], [c'], c, _, hc => by
    obtain rfl : c' = c := by simpa using hc
    exact ⟨[], [], by simp [inorderList], by simp, by simp, by simp⟩
  | 0, s :: segs, c' :: cs, c, _, hc => by
    obtain rfl : c' = c := by simpa using hc
    exact ⟨[], s :: inorderList segs cs, by simp [inorderList], by simp, by simp, by simp⟩
  | j + 1, s :: segs, c0 :: cs, c, hlen, hc => by
    simp only [List.length_cons, Nat.add_right_cancel_iff] at hlen
    simp only [List.getElem?_cons_succ] at hc
    obtain ⟨L, R, heq, hL, hlast, hR⟩ := inorderList_split j segs cs c hlen hc
    -- the segment `j` of the tail is there, since the tail has a child after it
    have hj : j < cs.length := (List.getElem?_eq_some_iff.mp hc).1
    refine ⟨c0.inorder ++ s :: L, R, by simp [inorderList, heq], ?_, ?_, by simpa using hR⟩
    · simp only [List.length_append, List.length_cons, hL, List.take_succ_cons,
        List.map_cons, List.sum_cons, size]
      omega
    · rw [List.getLast?_append, List.getLast?_cons, hlast]
      cases j with
      | zero => simp
      | succ t =>
        obtain ⟨x, hx⟩ : ∃ x, segs[t]? = some x :=
          ⟨segs[t], List.getElem?_eq_getElem (by omega)⟩
        simp [hx]
  -- the child lists of other lengths, or without a child `j`
  | 0, [], [], _, _, hc => by simp at hc
  | 0, [], _ :: _ :: _, _, hlen, _ => by simp at hlen
  | 0, _ :: _, [], _, hlen, _ => by simp at hlen
  | _ + 1, [], _, _, hlen, hc => by
    have := (List.getElem?_eq_some_iff.mp hc).1
    simp only [List.length_nil] at hlen
    omega
  | _ + 1, _ :: _, [], _, _, hc => by simp at hc

/-- The subtree of a shaped node splits at each child in the same way. -/
theorem inorder_split {n c : Node V} {j : ℕ} (hs : n.shaped = true)
    (hc : n.children[j]? = some c) :
    ∃ L R, n.inorder = L ++ c.inorder ++ R ∧ L.length = n.before j ∧
      L.getLast? = (if j = 0 then none else n.segs[j - 1]?) ∧ R.head? = n.segs[j]? := by
  obtain ⟨segs, cs⟩ := n
  have hlen := length_children hs (hasChildren_of_child hc)
  exact inorderList_split j segs cs c hlen hc

/-- A subtree holds its children's segments and its own. -/
theorem size_eq_segPos {n : Node V} (hs : n.shaped = true) : n.size = n.segPos n.nrSegments := by
  cases hch : n.hasChildren
  · have hleaf : n.children = [] := by simpa [hasChildren] using hch
    rw [segPos_of_leaf hleaf, size, inorder_of_leaf hleaf, nrSegments]
  · -- the last child ends the subtree: nothing follows it
    obtain ⟨c, hc⟩ : ∃ c, n.children[n.nrSegments]? = some c :=
      ⟨_, List.getElem?_eq_getElem (by rw [length_children hs hch]; omega)⟩
    obtain ⟨L, R, heq, hL, -, hR⟩ := inorder_split hs hc
    have hR' : R = [] := by simpa [nrSegments] using hR
    simp [size, heq, hR', hL, segPos, hc]

/-- The segment `i` of a shaped node stands at `segPos i` of its subtree. -/
theorem getElem?_inorder_segPos {n : Node V} (hs : n.shaped = true) {i : ℕ}
    (hi : i < n.nrSegments) : n.inorder[n.segPos i]? = n.segs[i]? := by
  cases hch : n.hasChildren
  · have hleaf : n.children = [] := by simpa [hasChildren] using hch
    rw [segPos_of_leaf hleaf, inorder_of_leaf hleaf]
  · obtain ⟨c, hc⟩ : ∃ c, n.children[i]? = some c :=
      ⟨_, List.getElem?_eq_getElem (by rw [length_children hs hch]; omega)⟩
    obtain ⟨L, R, heq, hL, -, hR⟩ := inorder_split hs hc
    obtain ⟨x, R', rfl⟩ : ∃ x R', R = x :: R' := by
      cases R with
      | nil => simp [List.getElem?_eq_getElem hi] at hR
      | cons x R' => exact ⟨x, R', rfl⟩
    have hpos : n.segPos i = (L ++ c.inorder).length := by simp [segPos, hc, hL, size]
    rw [heq, hpos, List.append_assoc, ← List.append_assoc L, List.getElem?_append_right le_rfl]
    simpa using hR

end Node

/-- What the tree holds before the subtree that the place leads to. -/
def Place.offset {V : Type} : Place V → ℕ
  | [] => 0
  | (p, j) :: up => Place.offset up + p.before j

/-- `up` is the place of `n` in the tree under `root`: each frame names the
parent and the index of the child the path goes through. -/
def Place.Leads {V : Type} : Place V → Node V → Node V → Prop
  | [], n, root => n = root
  | (p, j) :: up, n, root => p.children[j]? = some n ∧ Place.Leads up p root

namespace Place.Leads

variable {V : Type} {root : Node V}

/-- The segment of the parent at the child's index follows the child's subtree. -/
theorem segPos_parent {p n : Node V} {j : ℕ} (hc : p.children[j]? = some n)
    (hs : n.shaped = true) : p.segPos j = p.before j + n.segPos n.nrSegments := by
  rw [Node.segPos, hc, ← Node.size_eq_segPos hs]
  rfl

/-- The parent has a child at the index a place names, so a gap there. -/
theorem index_le {p n : Node V} {j : ℕ} (hs : p.shaped = true) (hc : p.children[j]? = some n) :
    j ≤ p.nrSegments := by
  have hlt := (List.getElem?_eq_some_iff.mp hc).1
  rw [Node.length_children hs (Node.hasChildren_of_child hc)] at hlt
  omega

theorem shaped : ∀ {up : Place V} {n : Node V}, up.Leads n root → root.shaped = true →
    n.shaped = true
  | [], _, h, hs => h ▸ hs
  | (_, _) :: _, _, ⟨hc, h⟩, hs => (Node.shaped_of_child (shaped h hs) hc).2

/-- The subtree a place leads to is a stretch of the root's, after
`up.offset` segments. -/
theorem split : ∀ {up : Place V} {n : Node V}, up.Leads n root → root.shaped = true →
    ∃ A B, root.inorder = A ++ n.inorder ++ B ∧ A.length = up.offset
  | [], n, h, _ => by
    obtain rfl : n = root := h
    exact ⟨[], [], by simp, rfl⟩
  | (p, j) :: up, n, ⟨hc, h⟩, hs => by
    obtain ⟨A, B, heq, hA⟩ := split h hs
    obtain ⟨L, R, hp, hL, -, -⟩ := Node.inorder_split (shaped h hs) hc
    refine ⟨A ++ L, R ++ B, by simp [heq, hp], ?_⟩
    simp [Place.offset, hA, hL]

end Place.Leads

/-- The position of the segment the iterator names. -/
def Iterator.pos {V : Type} (seg : Iterator V) : ℕ := seg.up.offset + seg.node.segPos seg.index

/-- The position of the gap, the number of segments before it. -/
def GapIterator.pos {V : Type} (gap : GapIterator V) : ℕ :=
  gap.up.offset + gap.node.before gap.index

/-- A non-terminal iterator of the set under `root`: its place leads to its
node, which has a segment at its index. -/
def Iterator.InTree {V : Type} (root : Node V) (seg : Iterator V) : Prop :=
  seg.up.Leads seg.node root ∧ seg.index < seg.node.nrSegments

/-- An iterator of a shaped tree names the segment at its position. -/
theorem Iterator.InTree.getElem? {V : Type} {root : Node V} {seg : Iterator V}
    (h : seg.InTree root) (hs : root.shaped = true) : root.inorder[seg.pos]? = seg.get? := by
  obtain ⟨A, B, heq, hA⟩ := h.1.split hs
  have hseg := Node.getElem?_inorder_segPos (h.1.shaped hs) h.2
  have hlt : seg.node.segPos seg.index < seg.node.inorder.length := by
    have := List.getElem?_eq_getElem h.2
    exact (List.getElem?_eq_some_iff.mp (hseg.trans this)).1
  rw [heq, Iterator.pos, ← hA, List.append_assoc, List.getElem?_append_right (by omega),
    Nat.add_sub_cancel_left, List.getElem?_append_left hlt, hseg, Iterator.get?]

end ContainerFS.Segment
