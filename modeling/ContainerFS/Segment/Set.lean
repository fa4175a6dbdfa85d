import Mathlib

/-!
The segment sets of `pkg/segment` (`Set`), as the list of their segments in
key order. The set is a B-tree whose in-order traversal is that list; an
`Iterator` is the index of a segment in it, and a `GapIterator` the index of a
gap, gap `g` lying between the segments `g - 1` and `g`. The operations that
the lock set uses (`Find`, `LowerBoundSegment`, `Insert` with its merges,
`SplitUnchecked`, `Isolate`, `Remove`), and those of the ID maps (`FindSegment`,
`Add`, `SpanRange`) and the page cache (`LowerBoundGap`), are given on the list,
with the panics of their precondition checks as errors.
-/

namespace ContainerFS.Segment

/-- `Range`: the keys from `start` up to `stop`, the Go fields `Start` and
`End`. -/
structure Range where
  start : ℕ
  stop : ℕ
  deriving DecidableEq, Repr

namespace Range

/-- The number of keys of a well-formed range; an inverted range holds none. -/
def length (r : Range) : ℕ := r.stop - r.start

/-- `Length` as the code computes it, in an unsigned key type of `m` values:
`End - Start` wraps modulo `m`, so only an empty range has length 0 and an
inverted one has a large length. -/
def keyLength (m : ℕ) (r : Range) : ℕ := (r.stop + m - r.start) % m

theorem keyLength_of_le {m : ℕ} {r : Range} (h : r.start ≤ r.stop) (hm : r.stop < m) :
    r.keyLength m = r.length := by
  unfold keyLength length
  rw [show r.stop + m - r.start = r.stop - r.start + m by omega, Nat.add_mod_right,
    Nat.mod_eq_of_lt (by omega)]

def contains (r : Range) (x : ℕ) : Bool := r.start ≤ x && x < r.stop

def canSplitAt (r : Range) (x : ℕ) : Bool := r.contains x && r.start < x

def intersect (r r2 : Range) : Range :=
  let start := if r.start < r2.start then r2.start else r.start
  let stop := if r.stop > r2.stop then r2.stop else r.stop
  ⟨start, if stop < start then start else stop⟩

/-- A range within `r` is its own intersection with `r`. -/
theorem intersect_eq_right {r r2 : Range} (h1 : r.start ≤ r2.start) (h2 : r2.stop ≤ r.stop)
    (h : r2.start ≤ r2.stop) : r.intersect r2 = r2 := by
  obtain ⟨a, b⟩ := r2
  simp only [intersect, mk.injEq] at *
  constructor <;> split_ifs <;> omega

end Range

/-- The `Functions` a set is instantiated with: its key bounds, and how its
values merge and split. -/
structure Functions (V : Type) where
  minKey : ℕ
  maxKey : ℕ
  merge : Range → V → Range → V → Option V
  split : Range → V → ℕ → V × V

/-- The number of values of the key type: every set of the source outside its tests keys on an
unsigned type and has that type's largest value as `MaxKey`. -/
def Functions.keys {V : Type} (fns : Functions V) : ℕ := fns.maxKey + 1

inductive SetPanic where
  /-- "invalid segment range %v" -/
  | invalidSegmentRange
  /-- "new segment %v overlaps predecessor %v" -/
  | overlapsPredecessor
  /-- "new segment %v overlaps successor %v" -/
  | overlapsSuccessor
  /-- "can't split %v at %v" -/
  | cannotSplit
  deriving DecidableEq, Repr

/-- Where `Find` lands: on a segment, or in a gap. -/
inductive Position where
  | segment (i : ℕ)
  | gap (g : ℕ)
  deriving DecidableEq, Repr

namespace Set

variable {V : Type} (fns : Functions V)

/-- `Find`: the segment that contains `key`, or else the gap that does. -/
def find : List (Range × V) → ℕ → Position
  | [], _ => .gap 0
  | (r, _) :: rest, key =>
    if key < r.stop then (if r.start ≤ key then .segment 0 else .gap 0)
    else
      match find rest key with
      | .segment i => .segment (i + 1)
      | .gap g => .gap (g + 1)

/-- `GapIterator.NextSegment` and `Iterator.NextSegment` as indices: the
segment `i` if there is one. -/
def segment? (s : List (Range × V)) (i : ℕ) : Option ℕ :=
  if i < s.length then some i else none

/-- `LowerBoundSegment`: the first segment that holds a key at or above
`min`. -/
def lowerBoundSegment (s : List (Range × V)) (min : ℕ) : Option ℕ :=
  match find s min with
  | .segment i => some i
  | .gap g => segment? s g

/-- `LowerBoundGap`: the gap that holds `min`, or else the gap after the segment that does. -/
def lowerBoundGap (s : List (Range × V)) (min : ℕ) : ℕ :=
  match find s min with
  | .segment i => i + 1
  | .gap g => g

/-- `GapIterator.Range`: from the end of the segment before the gap, or the
least key, up to the start of the one after it, or the greatest key. -/
def gapRange (s : List (Range × V)) (g : ℕ) : Range :=
  ⟨match g with
    | 0 => fns.minKey
    | g + 1 => match s[g]? with
      | some (r, _) => r.stop
      | none => fns.minKey,
   match s[g]? with
    | some (r, _) => r.start
    | none => fns.maxKey⟩

/-- `InsertWithoutMergingUnchecked` into the gap `g`: the new segment is the
segment `g`. -/
def insertWithoutMergingUnchecked (s : List (Range × V)) (g : ℕ) (r : Range) (val : V) :
    List (Range × V) × ℕ :=
  (s.insertIdx g (r, val), g)

/-- The end of `Insert`: merged into the segment `g` after the gap when it
starts where `r` ends and the values merge, inserted on its own otherwise. -/
def insertMergingNext (s : List (Range × V)) (g : ℕ) (r : Range) (val : V) :
    List (Range × V) × ℕ :=
  match s[g]? with
  | some (nr, nv) =>
    if nr.start = r.stop then
      match fns.merge r val nr nv with
      | some mval => (s.set g (⟨r.start, nr.stop⟩, mval), g)
      | none => insertWithoutMergingUnchecked s g r val
    else insertWithoutMergingUnchecked s g r val
  | none => insertWithoutMergingUnchecked s g r val

/-- `Insert` into the gap `g` once its checks pass: merged into the segment
before the gap when it ends where `r` starts and the values merge, and then
into the segment after it too when that one also merges; the segment that
holds `r` is returned. -/
def insertMerging (s : List (Range × V)) (g : ℕ) (r : Range) (val : V) :
    List (Range × V) × ℕ :=
  match g with
  | 0 => insertMergingNext fns s 0 r val
  | p + 1 =>
    match s[p]? with
    | some (pr, pv) =>
      if pr.stop = r.start then
        match fns.merge pr pv r val with
        | some mval =>
          let merged : Range := ⟨pr.start, r.stop⟩
          let extended := s.set p (merged, mval)
          match s[p + 1]? with
          | some (nr, nv) =>
            if nr.start = r.stop then
              match fns.merge merged mval nr nv with
              | some mval' => ((s.set p (⟨pr.start, nr.stop⟩, mval')).eraseIdx (p + 1), p)
              | none => (extended, p)
            else (extended, p)
          | none => (extended, p)
        | none => insertMergingNext fns s (p + 1) r val
      else insertMergingNext fns s (p + 1) r val
    | none => insertMergingNext fns s (p + 1) r val

/-- `Insert`: the range must be nonempty and fit in the gap. The check `r.Length() <= 0` is read
on the number of keys, as for a well-formed range: an inverted range stops here with the panic,
where the unsigned `Length` of the code is nonzero and `Insert` goes on. -/
def insert (s : List (Range × V)) (g : ℕ) (r : Range) (val : V) :
    Except SetPanic (List (Range × V) × ℕ) :=
  if r.length = 0 then .error .invalidSegmentRange
  else if (match g with
      | 0 => false
      | p + 1 => (s[p]?).any fun (seg : Range × V) => seg.1.stop > r.start) then .error .overlapsPredecessor
  else if (s[g]?).any (fun (seg : Range × V) => seg.1.start < r.stop) then .error .overlapsSuccessor
  else .ok (insertMerging fns s g r val)

/-- `SplitUnchecked` of the segment `i` at `split`: the first half keeps the
index, the second is the segment `i + 1`. -/
def splitUnchecked (s : List (Range × V)) (i : ℕ) (split : ℕ) : List (Range × V) :=
  match s[i]? with
  | some (r, v) =>
    let (v1, v2) := fns.split r v split
    (s.set i (⟨r.start, split⟩, v1)).insertIdx (i + 1) (⟨split, r.stop⟩, v2)
  | none => s

/-- `Split`: `SplitUnchecked` where the segment holds `split` past its start. -/
def split (s : List (Range × V)) (i : ℕ) (split : ℕ) : Except SetPanic (List (Range × V)) :=
  match s[i]? with
  | some (r, _) => if r.canSplitAt split then .ok (splitUnchecked fns s i split) else .error .cannotSplit
  | none => .error .cannotSplit

/-- `Isolate`: the segment `i` cut at the ends of `r` where they fall inside
it; the index of the part inside `r` is returned. -/
def isolate (s : List (Range × V)) (i : ℕ) (r : Range) : List (Range × V) × ℕ :=
  let (s, i) :=
    match s[i]? with
    | some (sr, _) => if sr.canSplitAt r.start then (splitUnchecked fns s i r.start, i + 1) else (s, i)
    | none => (s, i)
  match s[i]? with
  | some (sr, _) => if sr.canSplitAt r.stop then (splitUnchecked fns s i r.stop, i) else (s, i)
  | none => (s, i)

/-- `Remove` of the segment `i`: the gap it leaves is the gap `i`. -/
def remove (s : List (Range × V)) (i : ℕ) : List (Range × V) := s.eraseIdx i

/-- `SetValue` on the segment `i`. -/
def setValue (s : List (Range × V)) (i : ℕ) (val : V) : List (Range × V) :=
  s.modify i fun seg => (seg.1, val)

/-- `FindSegment`: the segment that holds `key`, if there is one (the iterator is only read
through its segment). -/
def findSegment (s : List (Range × V)) (key : ℕ) : Option (Range × V) :=
  match find s key with
  | .segment i => s[i]?
  | .gap _ => none

/-- The one gap of the empty set holds every key. -/
theorem gapRange_nil : gapRange fns [] 0 = ⟨fns.minKey, fns.maxKey⟩ := rfl

/-- `Insert` into the empty set makes the new segment the only one. -/
theorem insert_nil {r : Range} {val : V} (h : r.length ≠ 0) :
    insert fns [] 0 r val = .ok ([(r, val)], 0) := by
  simp [insert, insertMerging, insertMergingNext, insertWithoutMergingUnchecked, h]

/-- `Add`: `Insert` into the gap that holds `r.start`, when `r` fits in it. `none` is Go's
`false`, with the set left as it was. Its check `r.Length() <= 0` is read as in `insert`. -/
def add (s : List (Range × V)) (r : Range) (val : V) :
    Except SetPanic (Option (List (Range × V))) :=
  if r.length = 0 then .error .invalidSegmentRange
  else
    match find s r.start with
    | .segment _ => .ok none
    | .gap g =>
      if r.stop > (gapRange fns s g).stop then .ok none
      else (insert fns s g r val).map fun res => some res.1

/-- The loop of `SpanRange` from a segment on: the part of each segment that lies in `r`, up
to the first segment that starts at or past the end of `r`. -/
def spanFrom (r : Range) : List (Range × V) → ℕ
  | [] => 0
  | seg :: rest =>
    if seg.1.start < r.stop then (seg.1.intersect r).length + spanFrom r rest else 0

/-- `SpanRange`: `Range.Length` is unsigned, so the first case never panics. An inverted range
gives 0 either way, as every intersection with it is empty. -/
def spanRange (s : List (Range × V)) (r : Range) : ℕ :=
  if r.length = 0 then 0
  else
    match lowerBoundSegment s r.start with
    | some i => spanFrom r (s.drop i)
    | none => 0

/-- `Span`: the total length of the segments. -/
def span (s : List (Range × V)) : ℕ := (s.map fun seg => seg.1.length).sum

/-- `FindGap`: the gap that holds `key`, if no segment does. -/
def findGap (s : List (Range × V)) (key : ℕ) : Option ℕ :=
  match find s key with
  | .segment _ => none
  | .gap g => some g

/-- `UpperBoundGap`: the gap that holds `max`, or else the gap before the segment that does. -/
def upperBoundGap (s : List (Range × V)) (max : ℕ) : ℕ :=
  match find s max with
  | .segment i => i
  | .gap g => g

/-- `Iterator.NextNonEmpty` of the segment `i`: the next segment when no key lies between the
two, or else the gap after `i`. -/
def nextNonEmpty (s : List (Range × V)) (i : ℕ) : Option ℕ × Option ℕ :=
  if (gapRange fns s (i + 1)).length ≠ 0 then (none, some (i + 1))
  else (segment? s (i + 1), none)

/-- `MergeUnchecked` of the segment `i` and the next: when the first ends where the second
starts and the values merge, the merged segment replaces them as the segment `i`. -/
def mergeUnchecked (s : List (Range × V)) (i : ℕ) : Option (List (Range × V)) :=
  match s[i]?, s[i + 1]? with
  | some (r1, v1), some (r2, v2) =>
    if r1.stop = r2.start then
      match fns.merge r1 v1 r2 v2 with
      | some mval => some ((s.set i (⟨r1.start, r2.stop⟩, mval)).eraseIdx (i + 1))
      | none => none
    else none
  | _, _ => none

/-- The loop of `MergeRange` from the segment `i`: merged into the next while the next starts
before the end of `r`, or else moved on to the next. -/
def mergeRangeFrom (r : Range) : ℕ → List (Range × V) → ℕ → List (Range × V)
  | 0, s, _ => s
  | fuel + 1, s, i =>
    match s[i + 1]? with
    | some (nr, _) =>
      if nr.start < r.stop then
        match mergeUnchecked fns s i with
        | some s => mergeRangeFrom r fuel s i
        | none => mergeRangeFrom r fuel s (i + 1)
      else s
    | none => s

/-- `MergeRange`: each loop round merges a segment away or moves past one, so a round for each
segment is enough. -/
def mergeRange (s : List (Range × V)) (r : Range) : List (Range × V) :=
  match lowerBoundSegment s r.start with
  | some i => mergeRangeFrom fns r s.length s i
  | none => s

/-- The index of the segment that holds `key`, as `FindSegment` gives it. -/
def findSegmentIndex (s : List (Range × V)) (key : ℕ) : Option ℕ :=
  match find s key with
  | .segment i => some i
  | .gap _ => none

/-- `MergeAdjacent`: the segment that holds `r.Start` merged with the one before it, then the
one that holds `r.End - 1` with the one after it (the callers' ranges are nonempty). -/
def mergeAdjacent (s : List (Range × V)) (r : Range) : List (Range × V) :=
  let s :=
    match findSegmentIndex s r.start with
    | some (i + 1) => (mergeUnchecked fns s i).getD s
    | _ => s
  match findSegmentIndex s (r.stop - 1) with
  | some j => (mergeUnchecked fns s j).getD s
  | none => s

end Set

end ContainerFS.Segment
