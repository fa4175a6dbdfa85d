import Mathlib.Data.List.Sort
import ContainerFS.Net.Buffer

/-!
The reassembly of one fragmented packet (`network/fragmentation`,
`reassembler.go` and `frag_heap.go`). A reassembler keeps the RFC 815 hole
list, the offsets not received yet, and a heap of the fragments that filled
some hole. `updateHoles` deletes every hole a fragment meets and appends what
is left of it below the fragment and, when more fragments follow, above it;
when every hole is deleted, `fragHeap.reassemble` pops the fragments by offset,
trimming what overlaps the bytes already assembled.

Offsets are `uint16` in the code and natural numbers here: the loop only
subtracts one from `first` when it is above a hole's first offset, and adds one
to `last` when it is below a hole's last, so nothing wraps. The heap is the
list of its fragments: `heap.Pop` hands them out by offset (`popOrder`), and
the proofs about the loop hold for every order by offset, whatever order the
heap gives to fragments with one offset.
-/

namespace ContainerFS.Net

open Buffer

variable {α : Type}

/-- `math.MaxUint16`, the last offset of the first hole. -/
def maxUint16 : ℕ := 2 ^ 16 - 1

/-- `hole`: the offsets `first..last`, both included. -/
structure Hole where
  first : ℕ
  last : ℕ
  deleted : Bool
  deriving DecidableEq, Repr

/-- `fragment`: the view of a stored fragment and its offset. -/
structure Fragment (α : Type) where
  offset : ℕ
  vv : VectorisedView α
  deriving DecidableEq, Repr

/-- `reassembler`, without its mutex and list links: `size` counts the bytes
its stored fragments hold, `deleted` the holes marked deleted. -/
structure Reassembler (α : Type) where
  id : ℕ
  size : ℕ
  holes : List Hole
  deleted : ℕ
  heap : List (Fragment α)
  done : Bool
  creationTime : ℕ
  deriving DecidableEq, Repr

/-- `newReassembler`: one hole over every offset. -/
def newReassembler (id now : ℕ) : Reassembler α :=
  ⟨id, 0, [⟨0, maxUint16, false⟩], 0, [], false, now⟩

/-- One round of the loop of `updateHoles`, on the hole `i`: a hole that is
not deleted and meets `first..last` is deleted, and what is left of it below
`first`, and above `last` when `more`, is appended. The state is the holes,
the count of deleted holes and `used`. -/
def updateHole (first last : ℕ) (more : Bool) (s : List Hole × ℕ × Bool) (i : ℕ) :
    List Hole × ℕ × Bool :=
  match s.1[i]? with
  | none => s
  | some h =>
    if h.deleted || first > h.last || last < h.first then s
    else
      let holes := s.1.set i { h with deleted := true }
      let holes := if first > h.first then holes ++ [⟨h.first, first - 1, false⟩] else holes
      let holes := if last < h.last && more then holes ++ [⟨last + 1, h.last, false⟩] else holes
      (holes, s.2.1 + 1, true)

/-- `updateHoles`: the loop over the holes there are when it starts (`range`
takes the length once); the new holes, the new count of deleted holes, and
whether the fragment filled part of a hole. -/
def updateHoles (holes : List Hole) (deleted first last : ℕ) (more : Bool) :
    List Hole × ℕ × Bool :=
  (List.range holes.length).foldl (updateHole first last more) (holes, deleted, false)

/-- The errors `fragHeap.reassemble` returns. -/
inductive ReassembleError where
  /-- "offset of the first packet is != 0 (%d)" -/
  | firstOffset (offset : ℕ)
  /-- "packet has a hole, expected offset %d, got %d" -/
  | hole (expected got : ℕ)
  deriving DecidableEq, Repr

/-- The panics of `reassembler.process`. -/
inductive Panic where
  /-- "reassemble failed with: %v. There is probably a bug in the code handling
  the holes." -/
  | reassembleFailed (e : ReassembleError)
  /-- `heap.Pop` on an empty heap: the index out of range in `Swap(0, -1)`. -/
  | popEmpty
  deriving DecidableEq, Repr

/-- The heap's order, `Less` with equal offsets allowed. -/
def Fragment.OffsetLE (a b : Fragment α) : Prop := a.offset ≤ b.offset

instance : DecidableRel (Fragment.OffsetLE (α := α)) := fun a b =>
  inferInstanceAs (Decidable (a.offset ≤ b.offset))

/-- The order in which `heap.Pop` hands out the fragments: by offset. -/
def popOrder (h : List (Fragment α)) : List (Fragment α) :=
  h.insertionSort Fragment.OffsetLE

/-- The loop of `reassemble` over the fragments after the first, with the
views and the size so far: a fragment that starts inside what is assembled is
trimmed to what follows, one that starts past it is a hole. -/
def reassembleLoop : List (Fragment α) → List (View α) → ℕ →
    Except ReassembleError (VectorisedView α)
  | [], views, size => .ok ⟨views, size⟩
  | curr :: rest, views, size =>
    if curr.offset < size then
      let vv := curr.vv.trimFront (size - curr.offset)
      reassembleLoop rest (views ++ vv.views) (size + vv.size)
    else if curr.offset > size then .error (.hole size curr.offset)
    else reassembleLoop rest (views ++ curr.vv.views) (size + curr.vv.size)

/-- `fragHeap.reassemble`; its errors are the panics of `process`. -/
def reassemble (h : List (Fragment α)) : Except Panic (VectorisedView α) :=
  match popOrder h with
  | [] => .error .popEmpty
  | curr :: rest =>
    if curr.offset ≠ 0 then .error (.reassembleFailed (.firstOffset curr.offset))
    else (reassembleLoop rest curr.vv.views curr.vv.size).mapError .reassembleFailed

namespace Reassembler

/-- The first part of `process`: `updateHoles`, and the fragment pushed on the
heap only if it filled part of a hole; the reassembler after it and the bytes
stored. -/
def storeFragment (r : Reassembler α) (first last : ℕ) (more : Bool) (vv : VectorisedView α) :
    Reassembler α × ℕ :=
  let (holes, deleted, used) := updateHoles r.holes r.deleted first last more
  let r := { r with holes := holes, deleted := deleted }
  if used then ({ r with heap := r.heap ++ [⟨first, vv⟩], size := r.size + vv.size }, vv.size)
  else (r, 0)

/-- `reassembler.process`: the reassembler after the call, the reassembled
packet, whether it is done, and the bytes the call stored. -/
def process (r : Reassembler α) (first last : ℕ) (more : Bool) (vv : VectorisedView α) :
    Except Panic (Reassembler α × VectorisedView α × Bool × ℕ) :=
  if r.done then .ok (r, .empty, false, 0)
  else
    let (r, consumed) := r.storeFragment first last more vv
    -- every hole deleted: the packet is complete
    if r.deleted < r.holes.length then .ok (r, .empty, false, consumed)
    else
      match reassemble r.heap with
      | .error e => .error e
      | .ok res => .ok ({ r with heap := [] }, res, true, consumed)

/-- `checkDoneOrMark`: whether the reassembler was already marked done, and the
reassembler marked. -/
def checkDoneOrMark (r : Reassembler α) : Bool × Reassembler α :=
  (r.done, { r with done := true })

end Reassembler

/-! ### The hole list -/

namespace Hole

/-- The hole is not deleted and meets `first..last`: the round on it deletes
it. -/
def meets (first last : ℕ) (h : Hole) : Bool := !(h.deleted || first > h.last || last < h.first)

/-- The hole after the round on it. -/
def mark (first last : ℕ) (h : Hole) : Hole :=
  if h.meets first last then { h with deleted := true } else h

/-- The holes the round on `h` appends. -/
def remainders (first last : ℕ) (more : Bool) (h : Hole) : List Hole :=
  if h.meets first last then
    (if first > h.first then [⟨h.first, first - 1, false⟩] else []) ++
    (if last < h.last && more then [⟨last + 1, h.last, false⟩] else [])
  else []

theorem meets_eq_true {first last : ℕ} {h : Hole} :
    h.meets first last = true ↔ h.deleted = false ∧ first ≤ h.last ∧ h.first ≤ last := by
  simp [meets, and_assoc]

theorem mem_remainders {first last : ℕ} {more : Bool} {h y : Hole} :
    y ∈ h.remainders first last more ↔ h.meets first last = true ∧
      ((h.first < first ∧ y = ⟨h.first, first - 1, false⟩) ∨
        (last < h.last ∧ more = true ∧ y = ⟨last + 1, h.last, false⟩)) := by
  unfold remainders
  cases hm : h.meets first last
  · simp
  · by_cases h1 : h.first < first <;> by_cases h2 : last < h.last <;> cases more <;> simp [h1, h2]

@[simp] theorem deleted_mark {first last : ℕ} {h : Hole} :
    (h.mark first last).deleted = (h.deleted || h.meets first last) := by
  unfold mark
  split_ifs with hm <;> simp_all

end Hole

/-- The offset `x` lies in a hole that is not deleted. -/
def InLive (holes : List Hole) (x : ℕ) : Prop :=
  ∃ h ∈ holes, h.deleted = false ∧ h.first ≤ x ∧ x ≤ h.last

/-- After `k` rounds of the loop of `updateHoles`: the first `k` holes marked,
the rest as they were, and the remainders of the first `k` appended. -/
theorem foldl_updateHole (first last : ℕ) (more : Bool) (holes : List Hole) (deleted : ℕ)
    (used : Bool) : ∀ k, k ≤ holes.length →
    (List.range k).foldl (updateHole first last more) (holes, deleted, used) =
      ((holes.take k).map (Hole.mark first last) ++ holes.drop k ++
          (holes.take k).flatMap (Hole.remainders first last more),
        deleted + ((holes.take k).filter (Hole.meets first last)).length,
        used || (holes.take k).any (Hole.meets first last))
  | 0, _ => by simp
  | k + 1, hk => by
    have hlt : k < holes.length := by omega
    rw [List.range_succ, List.foldl_append,
      foldl_updateHole first last more holes deleted used k (by omega)]
    have hdrop : holes.drop k = holes[k] :: holes.drop (k + 1) := List.drop_eq_getElem_cons hlt
    have hlen : ((holes.take k).map (Hole.mark first last)).length = k := by simp; omega
    -- the round on `k` reads the hole `k` of the list at the start
    have hget : ((holes.take k).map (Hole.mark first last) ++ holes.drop k ++
        (holes.take k).flatMap (Hole.remainders first last more))[k]? = some holes[k] := by
      rw [List.append_assoc, List.getElem?_append_right (by omega), hlen, Nat.sub_self, hdrop]
      rfl
    rw [List.take_add_one, List.getElem?_eq_getElem hlt]
    simp only [List.foldl_cons, List.foldl_nil, updateHole, hget]
    rw [hdrop]
    have hset : ((holes.take k).map (Hole.mark first last) ++ holes[k] :: holes.drop (k + 1) ++
        (holes.take k).flatMap (Hole.remainders first last more)).set k
          { holes[k] with deleted := true } =
        (holes.take k).map (Hole.mark first last) ++ { holes[k] with deleted := true } ::
          holes.drop (k + 1) ++ (holes.take k).flatMap (Hole.remainders first last more) := by
      rw [List.append_assoc, List.set_append_right _ _ (by omega), hlen, Nat.sub_self,
        List.cons_append, List.set_cons_zero, List.append_assoc, List.cons_append]
    cases hc : (holes[k].deleted || decide (first > holes[k].last) || decide (last < holes[k].first))
    · -- the hole meets the fragment: it is deleted and its remainders appended
      have hm : holes[k].meets first last = true := by simp [Hole.meets, hc]
      simp only [Bool.false_eq_true, ↓reduceIte, hset]
      simp only [Option.toList_some, List.map_append, List.map_singleton, List.flatMap_append,
        List.flatMap_singleton, List.filter_append, List.any_append, Hole.mark, Hole.remainders, hm,
        ↓reduceIte]
      split_ifs <;> simp [hm, Nat.add_assoc]
    · -- the hole is skipped
      have hm : holes[k].meets first last = false := by simp [Hole.meets, hc]
      simp only [↓reduceIte, Option.toList_some, List.map_append, List.map_singleton,
        List.flatMap_append, List.flatMap_singleton, List.filter_append, List.any_append, Hole.mark,
        Hole.remainders, hm]
      simp [hm]

/-- `updateHoles` marks the holes the fragment meets and appends their
remainders. -/
theorem updateHoles_eq (holes : List Hole) (deleted first last : ℕ) (more : Bool) :
    updateHoles holes deleted first last more =
      (holes.map (Hole.mark first last) ++ holes.flatMap (Hole.remainders first last more),
        deleted + holes.countP (Hole.meets first last), holes.any (Hole.meets first last)) := by
  have h := foldl_updateHole first last more holes deleted false holes.length le_rfl
  simpa [updateHoles, List.countP_eq_length_filter] using h

/-- The reassembler after `storeFragment`. -/
theorem storeFragment_fst (r : Reassembler α) (first last : ℕ) (more : Bool)
    (vv : VectorisedView α) :
    (r.storeFragment first last more vv).1 = { r with
      deleted := r.deleted + r.holes.countP (Hole.meets first last),
      size := if r.holes.any (Hole.meets first last) then r.size + vv.size else r.size,
      holes := r.holes.map (Hole.mark first last) ++ r.holes.flatMap (Hole.remainders first last more),
      heap := if r.holes.any (Hole.meets first last) then r.heap ++ [⟨first, vv⟩] else r.heap } := by
  simp only [Reassembler.storeFragment, updateHoles_eq]
  split_ifs <;> rfl

/-- The step of the hole list: an offset stays in a live hole unless the
fragment covers it, or it lies above the fragment in a hole the fragment meets
and no more fragments follow. -/
theorem inLive_update {holes : List Hole} {first last x : ℕ} {more : Bool} :
    InLive (holes.map (Hole.mark first last) ++ holes.flatMap (Hole.remainders first last more)) x ↔
      ∃ h ∈ holes, h.deleted = false ∧ h.first ≤ x ∧ x ≤ h.last ∧
        (h.meets first last = false ∨ x < first ∨ (more = true ∧ last < x)) := by
  constructor
  · rintro ⟨y, hy, hdel, hfirst, hlast⟩
    rcases List.mem_append.mp hy with hy | hy
    · -- a hole of the list at the start, kept live: the fragment does not meet it
      obtain ⟨h, hh, rfl⟩ := List.mem_map.mp hy
      simp only [Hole.deleted_mark, Bool.or_eq_false_iff] at hdel
      refine ⟨h, hh, hdel.1, ?_, ?_, .inl hdel.2⟩ <;> simp_all [Hole.mark]
    · -- a remainder, below or above the fragment
      obtain ⟨h, hh, hy⟩ := List.mem_flatMap.mp hy
      obtain ⟨hm, ⟨hlt, rfl⟩ | ⟨hlt, hmore, rfl⟩⟩ := Hole.mem_remainders.mp hy
      · have := Hole.meets_eq_true.mp hm
        exact ⟨h, hh, this.1, hfirst, by simp at hlast; omega, .inr (.inl (by simp at hlast; omega))⟩
      · have := Hole.meets_eq_true.mp hm
        exact ⟨h, hh, this.1, by simp at hfirst; omega, hlast, .inr (.inr ⟨hmore, by simp at hfirst; omega⟩)⟩
  · rintro ⟨h, hh, hdel, hfirst, hlast, hcase⟩
    cases hm : h.meets first last
    · -- the fragment does not meet the hole: it stays as it was
      refine ⟨h.mark first last, List.mem_append_left _ (List.mem_map_of_mem hh), ?_⟩
      simp [Hole.mark, hm, hdel, hfirst, hlast]
    · rcases hcase with hcase | hx | ⟨hmore, hx⟩
      · simp [hm] at hcase
      · -- below the fragment: the lower remainder holds `x`
        refine ⟨⟨h.first, first - 1, false⟩, List.mem_append_right _ (List.mem_flatMap.mpr
          ⟨h, hh, Hole.mem_remainders.mpr ⟨hm, .inl ⟨by omega, rfl⟩⟩⟩), rfl, hfirst, ?_⟩
        show x ≤ first - 1
        omega
      · -- above the fragment, with more to come: the upper remainder holds `x`
        refine ⟨⟨last + 1, h.last, false⟩, List.mem_append_right _ (List.mem_flatMap.mpr
          ⟨h, hh, Hole.mem_remainders.mpr ⟨hm, .inr ⟨by omega, hmore, rfl⟩⟩⟩), rfl, ?_, hlast⟩
        show last + 1 ≤ x
        omega

/-- The count of deleted holes grows by the holes the fragment meets. -/
theorem countP_deleted_update (holes : List Hole) (first last : ℕ) (more : Bool) :
    (holes.map (Hole.mark first last) ++ holes.flatMap (Hole.remainders first last more)).countP
        (·.deleted) =
      holes.countP (·.deleted) + holes.countP (Hole.meets first last) := by
  induction holes with
  | nil => simp
  | cons h hs ih =>
    have hrem : (h.remainders first last more).countP (·.deleted) = 0 := by
      rw [List.countP_eq_zero]
      intro y hy
      obtain ⟨-, ⟨-, rfl⟩ | ⟨-, -, rfl⟩⟩ := Hole.mem_remainders.mp hy <;> simp
    simp only [List.countP_append, List.countP_map, List.flatMap_cons] at ih ⊢
    rw [List.countP_cons, List.countP_cons, List.countP_cons, hrem]
    -- a hole the fragment meets was not deleted before
    have hmd : h.meets first last = true → h.deleted = false := fun hm => (Hole.meets_eq_true.mp hm).1
    simp only [Function.comp_apply, Hole.deleted_mark]
    cases hm : h.meets first last
    · cases h.deleted <;> simp <;> omega
    · rw [hmd hm]
      simp
      omega

/-- A list of holes has one that is not deleted exactly when fewer than all
are deleted. -/
theorem exists_live_iff (holes : List Hole) :
    holes.countP (·.deleted) < holes.length ↔ ∃ h ∈ holes, h.deleted = false := by
  rw [Nat.lt_iff_le_and_ne, and_iff_right List.countP_le_length, Ne, List.countP_eq_length]
  simp

/-! ### Reassembly -/

/-- The fragment holds bytes of `P` from its offset on, in a view whose size
is right. -/
structure Fragment.SliceOf (P : List α) (g : Fragment α) : Prop where
  consistent : g.vv.Consistent
  within : g.offset + g.vv.bytes.length ≤ P.length
  bytes_prefix : g.vv.bytes <+: P.drop g.offset

/-- The fragment holds the offset `x`. -/
def Fragment.Holds (g : Fragment α) (x : ℕ) : Prop :=
  g.offset ≤ x ∧ x < g.offset + g.vv.bytes.length

instance : Std.Total (Fragment.OffsetLE (α := α)) := ⟨fun a b => le_total a.offset b.offset⟩

instance : IsTrans (Fragment α) Fragment.OffsetLE := ⟨fun _ _ _ => Nat.le_trans⟩

/-- What a slice adds past the bytes assembled so far: the first `size` bytes
of `P` and the slice from `offset` on make the first `size + (len - (size -
offset))` bytes. -/
theorem take_append_drop_slice {P bytes : List α} {offset size : ℕ}
    (hpre : bytes <+: P.drop offset) (hle : offset ≤ size) :
    P.take size ++ bytes.drop (size - offset) =
      P.take (size + (bytes.length - (size - offset))) := by
  have hb : bytes = (P.drop offset).take bytes.length := List.prefix_iff_eq_take.mp hpre
  conv_lhs => rw [hb]
  rw [List.drop_take, List.drop_drop, Nat.add_sub_cancel' hle, ← List.take_add]

/-- The loop of `reassemble` over fragments sorted by offset that cover what
is not assembled yet gives all of `P`. -/
theorem reassembleLoop_slices (P : List α) :
    ∀ (rest : List (Fragment α)) (views : List (View α)) (size : ℕ),
      rest.Pairwise Fragment.OffsetLE → (∀ g ∈ rest, g.SliceOf P) →
      views.flatten = P.take size → size ≤ P.length →
      (∀ x < P.length, size ≤ x → ∃ g ∈ rest, g.Holds x) →
      ∃ views', reassembleLoop rest views size = .ok ⟨views', P.length⟩ ∧ views'.flatten = P
  | [], views, size, _, _, hviews, hsize, hcover => by
    -- nothing is left to cover the offset `size`: all of `P` is assembled
    have hsz : size = P.length := by
      by_contra hne
      obtain ⟨g, hg, -⟩ := hcover size (by omega) le_rfl
      simp at hg
    refine ⟨views, by rw [reassembleLoop, hsz], ?_⟩
    rw [hviews, hsz, List.take_length]
  | g :: rest, views, size, hsorted, hslice, hviews, hsize, hcover => by
    obtain ⟨hfirst, hrest⟩ := List.pairwise_cons.mp hsorted
    have hg := hslice g List.mem_cons_self
    -- the next fragment starts inside what is assembled, or right after it
    have hle : g.offset ≤ size := by
      rcases Nat.lt_or_ge size P.length with hlt | hge
      · obtain ⟨g', hg', hheld, -⟩ := hcover size hlt le_rfl
        rcases List.mem_cons.mp hg' with rfl | hg'
        · exact hheld
        · exact Nat.le_trans (hfirst g' hg') hheld
      · have := hg.within
        omega
    -- the bytes it adds, and the size after it
    obtain ⟨vv, hvv, hbytes, hvsize⟩ : ∃ vv : VectorisedView α,
        reassembleLoop (g :: rest) views size = reassembleLoop rest (views ++ vv.views) (size + vv.size) ∧
        vv.bytes = g.vv.bytes.drop (size - g.offset) ∧
        vv.size = g.vv.bytes.length - (size - g.offset) := by
      rcases Nat.lt_or_eq_of_le hle with hlt | heq
      · refine ⟨g.vv.trimFront (size - g.offset), by simp [reassembleLoop, hlt], by simp, ?_⟩
        rw [hg.consistent.trimFront (size - g.offset), VectorisedView.bytes_trimFront, List.length_drop]
      · refine ⟨g.vv, by simp [reassembleLoop, heq], by simp [heq], ?_⟩
        rw [hg.consistent, heq, Nat.sub_self, Nat.sub_zero]
    have hviews' : (views ++ vv.views).flatten = P.take (size + vv.size) := by
      rw [List.flatten_append, hviews, ← VectorisedView.bytes, hbytes, hvsize,
        take_append_drop_slice hg.bytes_prefix hle]
    rw [hvv]
    refine reassembleLoop_slices P rest _ _ hrest (fun g' hg' => hslice g' (List.mem_cons_of_mem _ hg'))
      hviews' (by have := hg.within; omega) ?_
    intro x hx hsx
    obtain ⟨g', hg', hheld⟩ := hcover x hx (by omega)
    rcases List.mem_cons.mp hg' with rfl | hg'
    · exfalso
      unfold Fragment.Holds at hheld
      omega
    · exact ⟨g', hg', hheld⟩

/-- `reassemble` of fragments of `P` that cover it gives `P`. -/
theorem reassemble_slices {P : List α} {h : List (Fragment α)} (hP : 0 < P.length)
    (hslice : ∀ g ∈ h, g.SliceOf P) (hcover : ∀ x < P.length, ∃ g ∈ h, g.Holds x) :
    ∃ vv, reassemble h = .ok vv ∧ vv.bytes = P ∧ vv.Consistent := by
  have hperm : ∀ g, g ∈ popOrder h ↔ g ∈ h := fun _ => List.mem_insertionSort _
  have hsorted : (popOrder h).Pairwise Fragment.OffsetLE := List.pairwise_insertionSort _ _
  unfold reassemble
  cases hpop : popOrder h with
  | nil =>
    obtain ⟨g, hg, -⟩ := hcover 0 hP
    rw [← hperm, hpop] at hg
    simp at hg
  | cons c rest =>
    rw [hpop] at hsorted hperm
    obtain ⟨hfirst, hrest⟩ := List.pairwise_cons.mp hsorted
    have hc := hslice c ((hperm c).mp List.mem_cons_self)
    -- the first fragment popped starts at offset 0, where some fragment starts
    have hzero : c.offset = 0 := by
      obtain ⟨g, hg, hheld, -⟩ := hcover 0 hP
      rcases List.mem_cons.mp ((hperm g).mpr hg) with rfl | hg
      · omega
      · have := hfirst g hg
        unfold Fragment.OffsetLE at this
        omega
    have hviews : c.vv.views.flatten = P.take c.vv.size := by
      have := List.prefix_iff_eq_take.mp hc.bytes_prefix
      rw [hzero, List.drop_zero] at this
      rw [← VectorisedView.bytes, hc.consistent]
      exact this
    obtain ⟨views', hloop, hflat⟩ := reassembleLoop_slices P rest c.vv.views c.vv.size hrest
      (fun g hg => hslice g ((hperm g).mp (List.mem_cons_of_mem _ hg))) hviews
      (by have := hc.within; rw [hc.consistent]; omega) (by
        intro x hx hsx
        obtain ⟨g, hg, hheld⟩ := hcover x hx
        rcases List.mem_cons.mp ((hperm g).mpr hg) with rfl | hg
        · exfalso
          unfold Fragment.Holds at hheld
          rw [hc.consistent] at hsx
          omega
        · exact ⟨g, hg, hheld⟩)
    refine ⟨⟨views', P.length⟩, ?_, hflat, ?_⟩
    · simp [hzero, hloop, Except.mapError]
    · show P.length = views'.flatten.length
      rw [hflat]

end ContainerFS.Net
