import ContainerFS.Tcp.Seqnum

/-!
The SACK scoreboard (`transport/tcp/sack_scoreboard.go`, `header/tcp.go`).

The scoreboard keeps its blocks in a B-tree ordered by `SACKBlock.Less`, the
order of their starts; here it is the list of its blocks in that order, and
`AscendGreaterOrEqual` and `DescendLessOrEqual` are the blocks from the pivot
up, and from the pivot down. `Insert`'s two walks only collect the blocks to
delete; the tree changes after them.
-/

namespace ContainerFS.Tcp

open Seqnum

/-- `header.SACKBlock`: the sequence numbers from `start` up to `stop`, the Go
fields `Start` and `End`. -/
structure SACKBlock where
  start : UInt32
  stop : UInt32
  deriving DecidableEq, Repr

namespace SACKBlock

/-- `Less`: by start. -/
def less (r b : SACKBlock) : Bool := lessThan r.start b.start

/-- `Contains`: `b` lies inside `r`. -/
def contains (r b : SACKBlock) : Bool := lessThanEq r.start b.start && lessThanEq b.stop r.stop

/-- Two blocks are the same item of the B-tree: neither is less. -/
def sameKey (a b : SACKBlock) : Bool := !a.less b && !b.less a

end SACKBlock

def maxSACKBlocks : ℕ := 100

/-- `SACKScoreboard`: the blocks in the B-tree's order. -/
structure SACKScoreboard where
  smss : ℕ
  maxSACKED : UInt32
  sacked : UInt32
  ranges : List SACKBlock
  deriving DecidableEq, Repr

def newSACKScoreboard (smss : ℕ) (iss : UInt32) : SACKScoreboard := ⟨smss, iss, 0, []⟩

namespace SACKScoreboard

/-- `AscendGreaterOrEqual`'s items: the blocks not less than the pivot, in
order. -/
def ascendFrom (ranges : List SACKBlock) (pivot : SACKBlock) : List SACKBlock :=
  ranges.filter fun i => !i.less pivot

/-- `DescendLessOrEqual`'s items: the blocks the pivot is not less than, from
the last down. -/
def descendFrom (ranges : List SACKBlock) (pivot : SACKBlock) : List SACKBlock :=
  (ranges.filter fun i => !pivot.less i).reverse

/-- The callback of `Insert`'s walk up from the new block `r`: the blocks to
delete so far, and `r` as it grows. The walk stops when `r` ends before it
starts, which a block with `Start < End` never does. -/
def ascendMerge : List SACKBlock → SACKBlock × List SACKBlock → SACKBlock × List SACKBlock
  | [], acc => acc
  | i :: rest, (r, toDelete) =>
    if i = r then ascendMerge rest (r, toDelete)
    else if lessThan r.stop r.start then (r, toDelete)
    else if lessThan i.stop r.stop then ascendMerge rest (r, toDelete ++ [i])
    else ascendMerge rest ({ r with stop := i.stop }, toDelete ++ [i])

/-- The callback of `Insert`'s walk down: a block that reaches `r` is merged
into it; the walk stops at the first that ends before `r` starts. -/
def descendMerge : List SACKBlock → SACKBlock × List SACKBlock → SACKBlock × List SACKBlock
  | [], acc => acc
  | i :: rest, (r, toDelete) =>
    if i = r then descendMerge rest (r, toDelete)
    else if lessThan i.stop r.start then (r, toDelete)
    else
      let r := { r with start := i.start }
      let r := if lessThan r.stop i.stop then { r with stop := i.stop } else r
      descendMerge rest (r, toDelete ++ [i])

/-- `BTree.Delete`: the item with the same key removed, and returned. -/
def deleteItem (ranges : List SACKBlock) (i : SACKBlock) : List SACKBlock × Option SACKBlock :=
  match ranges.find? (·.sameKey i) with
  | some found => (ranges.erase found, some found)
  | none => (ranges, none)

/-- `BTree.ReplaceOrInsert`: the item with the same key replaced, and
returned, or the new item put in its place in the order. -/
def replaceOrInsert (ranges : List SACKBlock) (r : SACKBlock) : List SACKBlock × Option SACKBlock :=
  match ranges.find? (·.sameKey r) with
  | some found => (ranges.map fun i => if i = found then r else i, some found)
  | none => ((ranges.filter fun i => i.less r) ++ [r] ++ ranges.filter fun i => !i.less r, none)

/-- `Insert`: the new block merged with the blocks it reaches, these deleted,
and the count of sacked sequence numbers kept up. -/
def insert (s : SACKScoreboard) (r : SACKBlock) : SACKScoreboard :=
  if s.ranges.length ≥ maxSACKBlocks then s
  else
    let maxSACKED := if lessThan s.maxSACKED (r.stop - 1) then r.stop - 1 else s.maxSACKED
    let (r, toDelete) := ascendMerge (ascendFrom s.ranges r) (r, [])
    let (r, toDelete) := descendMerge (descendFrom s.ranges r) (r, toDelete)
    let (ranges, sacked) := toDelete.foldl (fun (acc : List SACKBlock × UInt32) i =>
      match deleteItem acc.1 i with
      | (ranges, some _) => (ranges, acc.2 - size i.start i.stop)
      | (ranges, none) => (ranges, acc.2)) (s.ranges, s.sacked)
    match replaceOrInsert ranges r with
    | (ranges, none) => { s with maxSACKED := maxSACKED, ranges := ranges, sacked := sacked + size r.start r.stop }
    | (ranges, some _) => { s with maxSACKED := maxSACKED, ranges := ranges, sacked := sacked }

/-- The walk of `IsSACKED` down from `r`: found when a block contains `r`,
given up at the first block that ends before `r` starts. -/
def containsFrom (r : SACKBlock) : List SACKBlock → Bool
  | [] => false
  | sacked :: rest =>
    if lessThan sacked.stop r.start then false
    else if sacked.contains r then true
    else containsFrom r rest

def isSACKED (s : SACKScoreboard) (r : SACKBlock) : Bool := containsFrom r (descendFrom s.ranges r)

end SACKScoreboard

/-- A block inserted before a block already stored, with a gap between them:
`Insert`'s walk up never stops, so it merges the two over the gap. The
scoreboard then reports 30 sequence numbers sacked and `[20, 30)` sacked,
though neither block holds 25. -/
theorem insert_merges_across_gap :
    ((newSACKScoreboard 1460 0).insert ⟨30, 40⟩).insert ⟨10, 20⟩ =
      ⟨1460, 39, 30, [⟨10, 40⟩]⟩ ∧
    (((newSACKScoreboard 1460 0).insert ⟨30, 40⟩).insert ⟨10, 20⟩).isSACKED ⟨20, 30⟩ = true ∧
    ∀ b ∈ [(⟨30, 40⟩ : SACKBlock), ⟨10, 20⟩], ¬(b.start ≤ 25 ∧ 25 < b.stop) := by
  refine ⟨rfl, rfl, ?_⟩
  decide

end ContainerFS.Tcp
