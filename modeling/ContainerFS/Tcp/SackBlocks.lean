import ContainerFS.Tcp.Sack

/-!
The receiver's SACK blocks (`transport/tcp/sack.go`): the ranges of
out-of-order data a receiver reports back (RFC 2018).

`UpdateSACKBlocks` drops the blocks that are empty or not past `rcvNxt`,
merges into the new segment every block that overlaps or touches it, and
puts the merged block first, dropping the last block when the list is full;
`TrimSACKBlockList` drops the blocks that end by `rcvNxt` and shrinks the one
that starts before it. Sequence numbers wrap, and the code compares them with
`seqnum`'s `LessThan`; within half the sequence space past `rcvNxt` these are
comparisons of distances (`Seqnum.ahead`), and the invariant `Valid` is
stated on these distances.

`updateSACKBlocks_empty_segment` shows that an empty segment, which the
receiver reports for a FIN that arrives out of order, is stored as an empty
block. For non-empty segments within the window, `valid_runSACK` shows that
the blocks stay fewer than `MaxSACKBlocks`, non-empty, past `rcvNxt`, apart
from each other, and inside the segments reported, and the merged block comes
first.
-/

namespace ContainerFS.Tcp

open Seqnum

/-- `MaxSACKBlocks`: how many blocks a receiver keeps. -/
def MaxSACKBlocks : ℕ := 6

/-- `SACKInfo`: the blocks in use, `Blocks[:NumBlocks]`; the array has room
for `MaxSACKBlocks` of them. -/
structure SACKInfo where
  blocks : List SACKBlock
  length_le : blocks.length ≤ MaxSACKBlocks

/-- The loop of `UpdateSACKBlocks` over the stored blocks: empty blocks and
blocks not past `rcvNxt` are dropped, a block that overlaps or touches the
new block is merged into it, and the others are kept in order. -/
def mergeSACKBlocks (rcvNxt : UInt32) : List SACKBlock → SACKBlock → List SACKBlock →
    SACKBlock × List SACKBlock
  | [], newSB, kept => (newSB, kept)
  | b :: rest, newSB, kept =>
    if lessThanEq b.stop b.start || lessThanEq b.start rcvNxt then
      mergeSACKBlocks rcvNxt rest newSB kept
    else if lessThanEq newSB.start b.stop && lessThanEq b.start newSB.stop then
      let newSB := if lessThan b.start newSB.start then { newSB with start := b.start } else newSB
      let newSB := if lessThan newSB.stop b.stop then { newSB with stop := b.stop } else newSB
      mergeSACKBlocks rcvNxt rest newSB kept
    else mergeSACKBlocks rcvNxt rest newSB (kept ++ [b])

theorem length_mergeSACKBlocks_le (rcvNxt : UInt32) (bs : List SACKBlock) (newSB : SACKBlock)
    (kept : List SACKBlock) :
    (mergeSACKBlocks rcvNxt bs newSB kept).2.length ≤ kept.length + bs.length := by
  fun_induction mergeSACKBlocks rcvNxt bs newSB kept with
  | case1 newSB kept => simp
  | case2 b rest newSB kept _ ih =>
    simp only [List.length_cons]
    omega
  | case3 b rest newSB kept _ _ newSB' newSB'' ih =>
    simp only [List.length_cons]
    omega
  | case4 b rest newSB kept _ _ ih =>
    simp only [List.length_append, List.length_cons, List.length_nil] at ih ⊢
    omega

/-- Room at the front of the list: a full list loses its last block. -/
def makeRoom (kept : List SACKBlock) : List SACKBlock :=
  if kept.length = MaxSACKBlocks then kept.dropLast else kept

theorem length_makeRoom_lt {kept : List SACKBlock} (h : kept.length ≤ MaxSACKBlocks) :
    (makeRoom kept).length < MaxSACKBlocks := by
  unfold makeRoom
  split_ifs with hfull
  · rw [List.length_dropLast, hfull]
    decide
  · omega

/-- `UpdateSACKBlocks`: the segment `[segStart, segEnd)` has arrived out of
order. -/
def updateSACKBlocks (sack : SACKInfo) (segStart segEnd rcvNxt : UInt32) : SACKInfo :=
  let newSB : SACKBlock := ⟨segStart, segEnd⟩
  if sack.blocks.length = 0 then ⟨[newSB], show 1 ≤ MaxSACKBlocks by decide⟩
  else
    let merged := mergeSACKBlocks rcvNxt sack.blocks newSB []
    have hkept : merged.2.length ≤ MaxSACKBlocks :=
      (length_mergeSACKBlocks_le rcvNxt sack.blocks newSB []).trans
        ((Nat.zero_add _).symm ▸ sack.length_le)
    -- an out-of-order segment's block goes first
    if lessThan rcvNxt merged.1.start then
      ⟨merged.1 :: makeRoom merged.2, Nat.succ_le_of_lt (length_makeRoom_lt hkept)⟩
    else ⟨merged.2, hkept⟩

/-- The body of `TrimSACKBlockList`'s loop: a block that ends by `rcvNxt` is
dropped, one that starts before it is shrunk to start there. -/
def trimBlock (rcvNxt : UInt32) (b : SACKBlock) : Option SACKBlock :=
  if lessThanEq b.stop rcvNxt then none
  else if lessThan b.start rcvNxt then some { b with start := rcvNxt }
  else some b

/-- `TrimSACKBlockList`: the data up to `rcvNxt` has been received in order. -/
def trimSACKBlockList (sack : SACKInfo) (rcvNxt : UInt32) : SACKInfo :=
  ⟨sack.blocks.filterMap (trimBlock rcvNxt),
    (List.length_filterMap_le _ _).trans sack.length_le⟩

/-- A FIN that arrives out of order is a segment of length zero, and
`handleRcvdSegment` reports it to `UpdateSACKBlocks`: the receiver then holds
the empty block `[5, 5)`. -/
theorem updateSACKBlocks_empty_segment :
    lessThan 0 5 = true ∧ lessThanEq 5 5 = true ∧
      (updateSACKBlocks ⟨[], Nat.zero_le _⟩ 5 5 0).blocks = [⟨5, 5⟩] ∧
      lessThan 5 5 = false := by
  decide

/-! ### Blocks seen from `rcvNxt` -/

/-- A block seen from `r`: not empty, and ending less than half the sequence
space past `r`. -/
def Inside (r : UInt32) (b : SACKBlock) : Prop :=
  ahead r b.start < ahead r b.stop ∧ ahead r b.stop < 2 ^ 31

/-- Two blocks seen from `r` are apart: one ends before the other starts, with
a gap between them. -/
def Apart (r : UInt32) (a b : SACKBlock) : Prop :=
  ahead r a.stop < ahead r b.start ∨ ahead r b.stop < ahead r a.start

/-- Every sequence number of `b` lies in one of the segments `segs`. -/
def Covered (segs : List SACKBlock) (b : SACKBlock) : Prop :=
  ∀ v, inRange v b.start b.stop = true → ∃ s ∈ segs, inRange v s.start s.stop = true

/-- The invariant of a receiver's blocks, seen from `rcvNxt`, with `segs` the
segments reported to `UpdateSACKBlocks`. -/
structure Valid (r : UInt32) (segs blocks : List SACKBlock) : Prop where
  inside : ∀ b ∈ blocks, Inside r b
  apart : blocks.Pairwise (Apart r)
  covered : ∀ b ∈ blocks, Covered segs b

section Seen

variable {r r' : UInt32} {a b : SACKBlock}

theorem Apart.symm (h : Apart r a b) : Apart r b a := Or.symm h

/-- The sequence numbers of a block are an interval of distances. -/
theorem inRange_block_iff (hb : ahead r b.start ≤ ahead r b.stop) (v : UInt32) :
    inRange v b.start b.stop = true ↔ ahead r b.start ≤ ahead r v ∧ ahead r v < ahead r b.stop :=
  inRange_iff_ahead hb

/-- A block inside another, seen from any base, is covered whenever the other is. -/
theorem Covered.of_sub {segs : List SACKBlock} (hb : Covered segs b)
    (ha : ahead r a.start ≤ ahead r a.stop) (hbb : ahead r b.start ≤ ahead r b.stop)
    (hstart : ahead r b.start ≤ ahead r a.start) (hstop : ahead r a.stop ≤ ahead r b.stop) :
    Covered segs a := by
  intro v hv
  apply hb v
  rw [inRange_block_iff hbb] at ⊢
  rw [inRange_block_iff ha] at hv
  omega

theorem Covered.mono {segs segs' : List SACKBlock} (h : Covered segs b) (hsub : segs ⊆ segs') :
    Covered segs' b := by
  intro v hv
  obtain ⟨s, hs, hvs⟩ := h v hv
  exact ⟨s, hsub hs, hvs⟩

/-- A block past the new base `r'` is seen from it moved back by `ahead r r'`. -/
theorem Inside.shift (hb : Inside r b) (hpast : ahead r r' < ahead r b.start) :
    Inside r' b ∧ 0 < ahead r' b.start ∧ ahead r' b.start = ahead r b.start - ahead r r' ∧
      ahead r' b.stop = ahead r b.stop - ahead r r' := by
  have hstart := ahead_of_le (Nat.le_of_lt hpast)
  have hstop := ahead_of_le (Nat.le_of_lt (hpast.trans hb.1))
  refine ⟨⟨?_, ?_⟩, ?_, hstart, hstop⟩ <;> have := hb.2 <;> have := hb.1 <;> omega

theorem Apart.shift (h : Apart r a b) (ha : Inside r a) (hb : Inside r b)
    (hpa : ahead r r' < ahead r a.start) (hpb : ahead r r' < ahead r b.start) : Apart r' a b := by
  obtain ⟨-, -, has, hae⟩ := ha.shift hpa
  obtain ⟨-, -, hbs, hbe⟩ := hb.shift hpb
  unfold Apart at h ⊢
  rw [has, hae, hbs, hbe]
  have := ha.1
  have := hb.1
  omega

end Seen

/-! ### `TrimSACKBlockList` -/

section Trim

variable {r r' : UInt32} {b b' : SACKBlock}

/-- What `trimBlock` leaves of a block: it ends past `r'`, at the same place,
and starts at `r'` or later. -/
theorem trimBlock_spec (hb : Inside r b) (hd : ahead r r' < 2 ^ 31) (h : trimBlock r' b = some b') :
    ahead r r' < ahead r b.stop ∧ b'.stop = b.stop ∧
      ahead r b'.start = max (ahead r b.start) (ahead r r') := by
  have hstart : ahead r b.start < 2 ^ 31 := hb.1.trans hb.2
  unfold trimBlock at h
  by_cases hend : lessThanEq b.stop r' = true
  · rw [if_pos hend] at h
    cases h
  · rw [if_neg hend] at h
    have hpast : ahead r r' < ahead r b.stop := by
      rw [lessThanEq_iff_ahead hb.2 hd] at hend
      omega
    refine ⟨hpast, ?_, ?_⟩ <;> by_cases hbefore : lessThan b.start r' = true
    · rw [if_pos hbefore] at h
      cases h
      rfl
    · rw [if_neg hbefore] at h
      cases h
      rfl
    · rw [if_pos hbefore] at h
      cases h
      rw [lessThan_iff_ahead hstart hd] at hbefore
      simp only
      omega
    · rw [if_neg hbefore] at h
      cases h
      rw [lessThan_iff_ahead hstart hd] at hbefore
      omega

theorem trimBlock_shift (hb : Inside r b) (hd : ahead r r' < 2 ^ 31) (h : trimBlock r' b = some b') :
    Inside r' b' ∧ ahead r' b'.start = max (ahead r b.start) (ahead r r') - ahead r r' ∧
      ahead r' b'.stop = ahead r b.stop - ahead r r' := by
  obtain ⟨hpast, hstop, hstart⟩ := trimBlock_spec hb hd h
  have hs : ahead r' b'.start = ahead r b'.start - ahead r r' := ahead_of_le (by omega)
  have he : ahead r' b'.stop = ahead r b.stop - ahead r r' := by
    rw [← hstop]
    exact ahead_of_le (by rw [hstop]; omega)
  rw [hstart] at hs
  refine ⟨⟨?_, ?_⟩, hs, he⟩
  · rw [hs, he]
    have := hb.1
    omega
  · rw [he]
    have := hb.2
    omega

/-- Trimming keeps the invariant, seen from the new `rcvNxt`. -/
theorem valid_trim {segs blocks : List SACKBlock} (hv : Valid r segs blocks)
    (hd : ahead r r' < 2 ^ 31) : Valid r' segs (blocks.filterMap (trimBlock r')) := by
  refine ⟨?_, ?_, ?_⟩
  · intro b' hb'
    obtain ⟨b, hb, htrim⟩ := List.mem_filterMap.mp hb'
    exact (trimBlock_shift (hv.inside b hb) hd htrim).1
  · -- a trimmed block only shrinks, and both move back by the same distance
    have hpw : blocks.Pairwise fun a b => Inside r a ∧ Inside r b ∧ Apart r a b :=
      hv.apart.imp_of_mem fun ha hb hab => ⟨hv.inside _ ha, hv.inside _ hb, hab⟩
    refine hpw.filterMap _ fun a c ⟨ha, hc, hac⟩ a' ha' c' hc' => ?_
    obtain ⟨-, has, hae⟩ := trimBlock_shift ha hd ha'
    obtain ⟨-, hcs, hce⟩ := trimBlock_shift hc hd hc'
    obtain ⟨hpa, -, -⟩ := trimBlock_spec ha hd ha'
    obtain ⟨hpc, -, -⟩ := trimBlock_spec hc hd hc'
    unfold Apart at hac ⊢
    rw [has, hae, hcs, hce]
    have := ha.1
    have := hc.1
    omega
  · intro b' hb'
    obtain ⟨b, hb, htrim⟩ := List.mem_filterMap.mp hb'
    obtain ⟨hpast, hstop, hstart⟩ := trimBlock_spec (hv.inside b hb) hd htrim
    have hin := (hv.inside b hb).1
    -- the trimmed block is the old one with its start moved up to `rcvNxt`
    apply (hv.covered b hb).of_sub (r := r)
    · rw [hstart, hstop]
      omega
    · exact Nat.le_of_lt hin
    · rw [hstart]
      omega
    · rw [hstop]

end Trim

/-! ### `UpdateSACKBlocks` -/

section Update

variable {r r' : UInt32} {segs : List SACKBlock} {seg : SACKBlock}

/-- The two assignments of a merge, seen from `q`: the new block reaches from
the lower start to the higher end. -/
theorem ahead_merge {q : UInt32} {n b : SACKBlock} (hn : Inside q n) (hb : Inside q b) :
    let n₁ := if lessThan b.start n.start then { n with start := b.start } else n
    let n₂ := if lessThan n₁.stop b.stop then { n₁ with stop := b.stop } else n₁
    ahead q n₂.start = min (ahead q n.start) (ahead q b.start) ∧
      ahead q n₂.stop = max (ahead q n.stop) (ahead q b.stop) := by
  have hns : ahead q n.start < 2 ^ 31 := hn.1.trans hn.2
  have hbs : ahead q b.start < 2 ^ 31 := hb.1.trans hb.2
  intro n₁ n₂
  have h₁e : n₁.stop = n.stop := by
    simp only [n₁]
    split <;> rfl
  have h₁s : ahead q n₁.start = min (ahead q n.start) (ahead q b.start) := by
    by_cases hlt : lessThan b.start n.start = true
    · simp only [n₁, if_pos hlt]
      rw [lessThan_iff_ahead hbs hns] at hlt
      omega
    · simp only [n₁, if_neg hlt]
      rw [lessThan_iff_ahead hbs hns] at hlt
      omega
  have hne : ahead q n₁.stop < 2 ^ 31 := by rw [h₁e]; exact hn.2
  by_cases hlt : lessThan n₁.stop b.stop = true
  · simp only [n₂, if_pos hlt]
    rw [lessThan_iff_ahead hne hb.2, h₁e] at hlt
    exact ⟨h₁s, by omega⟩
  · simp only [n₂, if_neg hlt]
    rw [lessThan_iff_ahead hne hb.2, h₁e] at hlt
    exact ⟨h₁s, by rw [h₁e]; omega⟩

/-- What the loop of `UpdateSACKBlocks` keeps true, from the old `rcvNxt` `r`
to the new one `r'`: the new block is past `r'`, holds the segment `seg` and
lies in the segments reported; the kept blocks are past `r'`; the kept blocks
and those still to come are reported and apart from each other, and the kept
ones are apart from the new block. -/
structure MergeInv (r r' : UInt32) (segs : List SACKBlock) (seg : SACKBlock)
    (rest : List SACKBlock) (newSB : SACKBlock) (kept : List SACKBlock) : Prop where
  new_pos : 0 < ahead r' newSB.start
  new_inside : Inside r' newSB
  new_start : ahead r' newSB.start ≤ ahead r' seg.start
  new_stop : ahead r' seg.stop ≤ ahead r' newSB.stop
  new_covered : Covered (segs ++ [seg]) newSB
  inside : ∀ b ∈ kept ++ rest, Inside r b
  covered : ∀ b ∈ kept ++ rest, Covered segs b
  past : ∀ b ∈ kept, ahead r r' < ahead r b.start
  apart : (kept ++ rest).Pairwise (Apart r)
  apart_new : ∀ b ∈ kept, Apart r' b newSB

namespace MergeInv

variable {b newSB : SACKBlock} {rest kept : List SACKBlock}

theorem sublist_rest : List.Sublist (kept ++ rest) (kept ++ b :: rest) :=
  (List.sublist_cons_self b rest).append_left kept

theorem mem_rest {c : SACKBlock} (hc : c ∈ kept ++ rest) : c ∈ kept ++ b :: rest :=
  sublist_rest.subset hc

/-- A block dropped by the loop leaves the invariant as it was. -/
theorem drop (h : MergeInv r r' segs seg (b :: rest) newSB kept) :
    MergeInv r r' segs seg rest newSB kept :=
  { h with
    inside := fun c hc => h.inside c (mem_rest hc)
    covered := fun c hc => h.covered c (mem_rest hc)
    apart := h.apart.sublist sublist_rest }

/-- A block kept by the loop is apart from the new block. -/
theorem keep (h : MergeInv r r' segs seg (b :: rest) newSB kept)
    (hpast : ahead r r' < ahead r b.start) (hsep : Apart r' b newSB) :
    MergeInv r r' segs seg rest newSB (kept ++ [b]) := by
  have hlist : kept ++ [b] ++ rest = kept ++ b :: rest := by simp
  refine { h with inside := ?_, covered := ?_, past := ?_, apart := ?_, apart_new := ?_ }
  · rw [hlist]
    exact h.inside
  · rw [hlist]
    exact h.covered
  · intro c hc
    rcases List.mem_append.mp hc with hc | hc
    · exact h.past c hc
    · rw [List.mem_singleton.mp hc]
      exact hpast
  · rw [hlist]
    exact h.apart
  · intro c hc
    rcases List.mem_append.mp hc with hc | hc
    · exact h.apart_new c hc
    · rw [List.mem_singleton.mp hc]
      exact hsep

/-- A block merged by the loop: the new block grows to the hull of the two,
which the segments still cover and every kept block is still apart from. -/
theorem merge (h : MergeInv r r' segs seg (b :: rest) newSB kept)
    (hpast : ahead r r' < ahead r b.start)
    (htouch : ahead r' newSB.start ≤ ahead r' b.stop ∧ ahead r' b.start ≤ ahead r' newSB.stop)
    {m : SACKBlock} (hms : ahead r' m.start = min (ahead r' newSB.start) (ahead r' b.start))
    (hme : ahead r' m.stop = max (ahead r' newSB.stop) (ahead r' b.stop)) :
    MergeInv r r' segs seg rest m kept := by
  have hbmem : b ∈ kept ++ b :: rest := by simp
  obtain ⟨hb, hbpos, -, -⟩ := (h.inside b hbmem).shift hpast
  have hn := h.new_inside
  have hb1 := hb.1
  have hn1 := hn.1
  have hb2 := hb.2
  have hn2 := hn.2
  have hnew_pos := h.new_pos
  have hnew_start := h.new_start
  have hnew_stop := h.new_stop
  refine ⟨?_, ⟨?_, ?_⟩, ?_, ?_, ?_, fun c hc => h.inside c (mem_rest hc),
    fun c hc => h.covered c (mem_rest hc), h.past, h.apart.sublist sublist_rest, ?_⟩
  · omega
  · omega
  · omega
  · omega
  · omega
  · -- the hull of two touching blocks is their union
    intro v hv
    rw [inRange_block_iff (r := r') (by omega)] at hv
    by_cases hvn : ahead r' newSB.start ≤ ahead r' v ∧ ahead r' v < ahead r' newSB.stop
    · exact h.new_covered v ((inRange_block_iff (Nat.le_of_lt hn1) v).mpr hvn)
    · have hvb : inRange v b.start b.stop = true := (inRange_block_iff (Nat.le_of_lt hb1) v).mpr (by omega)
      exact (h.covered b hbmem).mono (List.subset_append_left _ _) v hvb
  · intro c hc
    have hcn := h.apart_new c hc
    have hcb : Apart r' c b :=
      Apart.shift ((List.pairwise_append.mp h.apart).2.2 c hc b List.mem_cons_self)
        (h.inside c (by simp [hc])) (h.inside b hbmem) (h.past c hc) hpast
    have hc := (h.inside c (by simp [hc])).shift (h.past c hc)
    have hc1 := hc.1.1
    unfold Apart at hcn hcb ⊢
    rw [hms, hme]
    omega

end MergeInv

/-- A block the loop does not drop lies past the new `rcvNxt`. -/
theorem past_of_not_dropped {b : SACKBlock} (hb : Inside r b) (hd : ahead r r' < 2 ^ 31)
    (h : ¬(lessThanEq b.stop b.start || lessThanEq b.start r') = true) :
    ahead r r' < ahead r b.start := by
  have hstart : ahead r b.start < 2 ^ 31 := hb.1.trans hb.2
  simp only [Bool.or_eq_true, not_or] at h
  rw [lessThanEq_iff_ahead hstart hd] at h
  omega

/-- The loop's test that a block overlaps or touches the new block. -/
theorem touch_iff {n b : SACKBlock} (hn : Inside r' n) (hb : Inside r' b) :
    (lessThanEq n.start b.stop && lessThanEq b.start n.stop) = true ↔
      ahead r' n.start ≤ ahead r' b.stop ∧ ahead r' b.start ≤ ahead r' n.stop := by
  rw [Bool.and_eq_true, lessThanEq_iff_ahead (hn.1.trans hn.2) hb.2,
    lessThanEq_iff_ahead (hb.1.trans hb.2) hn.2]

/-- The loop keeps the invariant to its end. -/
theorem mergeInv_mergeSACKBlocks (hd : ahead r r' < 2 ^ 31) {rest kept : List SACKBlock}
    {newSB : SACKBlock} (h : MergeInv r r' segs seg rest newSB kept) :
    MergeInv r r' segs seg [] (mergeSACKBlocks r' rest newSB kept).1
      (mergeSACKBlocks r' rest newSB kept).2 := by
  fun_induction mergeSACKBlocks r' rest newSB kept with
  | case1 newSB kept => exact h
  | case2 b rest newSB kept _ ih => exact ih h.drop
  | case3 b rest newSB kept hkeep htouch newSB₁ newSB₂ ih =>
    have hpast := past_of_not_dropped (h.inside b (by simp)) hd hkeep
    obtain ⟨hb, -, -, -⟩ := (h.inside b (by simp)).shift hpast
    obtain ⟨hms, hme⟩ := ahead_merge h.new_inside hb
    exact ih (h.merge hpast ((touch_iff h.new_inside hb).mp htouch) hms hme)
  | case4 b rest newSB kept hkeep hapart ih =>
    have hpast := past_of_not_dropped (h.inside b (by simp)) hd hkeep
    obtain ⟨hb, -, -, -⟩ := (h.inside b (by simp)).shift hpast
    rw [touch_iff h.new_inside hb] at hapart
    exact ih (h.keep hpast (by unfold Apart; omega))

theorem makeRoom_sublist (kept : List SACKBlock) : List.Sublist (makeRoom kept) kept := by
  unfold makeRoom
  split_ifs
  · exact List.dropLast_sublist kept
  · exact List.Sublist.refl kept

/-- At the end of the loop the merged block goes first; it holds the segment,
and the blocks are valid seen from the new `rcvNxt`. -/
theorem MergeInv.finish {newSB : SACKBlock} {kept : List SACKBlock}
    (h : MergeInv r r' segs seg [] newSB kept) (hseg : ahead r' seg.start < ahead r' seg.stop) :
    lessThan r' newSB.start = true ∧ Valid r' (segs ++ [seg]) (newSB :: makeRoom kept) ∧
      newSB.contains seg = true := by
  have hn := h.new_inside
  have hkept : ∀ k ∈ kept, Inside r k ∧ ahead r r' < ahead r k.start := fun k hk =>
    ⟨h.inside k (by simp [hk]), h.past k hk⟩
  have hsub := makeRoom_sublist kept
  refine ⟨?_, ⟨?_, ?_, ?_⟩, ?_⟩
  · rw [lessThan_iff_ahead (by simp) (hn.1.trans hn.2), ahead_self]
    exact h.new_pos
  · intro b hb
    rcases List.mem_cons.mp hb with rfl | hb
    · exact hn
    · obtain ⟨hin, hpast⟩ := hkept b (hsub.subset hb)
      exact (hin.shift hpast).1
  · -- the kept blocks stay apart, now seen from `r'`
    have hapart : kept.Pairwise (Apart r) := by simpa using h.apart
    refine List.Pairwise.cons (fun b hb => (h.apart_new b (hsub.subset hb)).symm) ?_
    refine (hapart.sublist hsub).imp_of_mem fun ha hb hab => ?_
    obtain ⟨hina, hpa⟩ := hkept _ (hsub.subset ha)
    obtain ⟨hinb, hpb⟩ := hkept _ (hsub.subset hb)
    exact hab.shift hina hinb hpa hpb
  · intro b hb
    rcases List.mem_cons.mp hb with rfl | hb
    · exact h.new_covered
    · exact (h.covered b (by simp [hsub.subset hb])).mono (List.subset_append_left _ _)
  · have := h.new_start
    have := h.new_stop
    have hn2 := hn.2
    rw [SACKBlock.contains, Bool.and_eq_true,
      lessThanEq_iff_ahead (hn.1.trans hn.2) (by omega),
      lessThanEq_iff_ahead (by omega) hn.2]
    omega

/-- `UpdateSACKBlocks` of a non-empty segment past the new `rcvNxt` keeps the
invariant, and puts first a block that holds the segment. -/
theorem valid_update {sack : SACKInfo} (hv : Valid r segs sack.blocks) (hd : ahead r r' < 2 ^ 31)
    {segStart segEnd : UInt32} (hpos : 0 < ahead r' segStart)
    (hseg : ahead r' segStart < ahead r' segEnd) (hend : ahead r' segEnd < 2 ^ 31) :
    Valid r' (segs ++ [⟨segStart, segEnd⟩]) (updateSACKBlocks sack segStart segEnd r').blocks ∧
      ∃ first, (updateSACKBlocks sack segStart segEnd r').blocks.head? = some first ∧
        first.contains ⟨segStart, segEnd⟩ = true := by
  have hinit : MergeInv r r' segs ⟨segStart, segEnd⟩ sack.blocks ⟨segStart, segEnd⟩ [] :=
    { new_pos := hpos
      new_inside := ⟨hseg, hend⟩
      new_start := le_refl _
      new_stop := le_refl _
      new_covered := fun v hv => ⟨⟨segStart, segEnd⟩, by simp, hv⟩
      inside := by simpa using hv.inside
      covered := by simpa using hv.covered
      past := by simp
      apart := by simpa using hv.apart
      apart_new := by simp }
  unfold updateSACKBlocks
  by_cases hempty : sack.blocks.length = 0
  · -- the first block: the segment itself
    rw [if_pos hempty]
    have hnil : sack.blocks = [] := List.eq_nil_of_length_eq_zero hempty
    rw [hnil] at hinit
    obtain ⟨-, hvalid, hcontains⟩ := hinit.finish hseg
    exact ⟨hvalid, _, rfl, hcontains⟩
  · rw [if_neg hempty]
    obtain ⟨hfirst, hvalid, hcontains⟩ := (mergeInv_mergeSACKBlocks hd hinit).finish hseg
    simp only [if_pos hfirst]
    exact ⟨hvalid, _, rfl, hcontains⟩

end Update

/-! ### The receiver's calls -/

/-- What the receiver does with its SACK blocks: `UpdateSACKBlocks` for a
segment that arrived out of order, `TrimSACKBlockList` when `rcvNxt` has
moved. -/
inductive SACKOp where
  | update (segStart segEnd rcvNxt : UInt32)
  | trim (rcvNxt : UInt32)
  deriving DecidableEq, Repr

namespace SACKOp

def rcvNxt : SACKOp → UInt32
  | update _ _ rcvNxt => rcvNxt
  | trim rcvNxt => rcvNxt

/-- The segment a call reports. -/
def segments : SACKOp → List SACKBlock
  | update segStart segEnd _ => [⟨segStart, segEnd⟩]
  | trim _ => []

/-- A call made when the last `rcvNxt` was `r`: `rcvNxt` moves forward by
less than half the sequence space, and an updated segment is not empty and
lies past `rcvNxt`, within half the sequence space. -/
def Fits (r : UInt32) : SACKOp → Prop
  | update segStart segEnd rcvNxt =>
    ahead r rcvNxt < 2 ^ 31 ∧ 0 < ahead rcvNxt segStart ∧
      ahead rcvNxt segStart < ahead rcvNxt segEnd ∧ ahead rcvNxt segEnd < 2 ^ 31
  | trim rcvNxt => ahead r rcvNxt < 2 ^ 31

instance (r : UInt32) : (op : SACKOp) → Decidable (op.Fits r)
  | update _ _ _ => inferInstanceAs (Decidable (_ ∧ _ ∧ _ ∧ _))
  | trim _ => inferInstanceAs (Decidable (_ < _))

end SACKOp

/-- One call on the blocks. -/
def SACKInfo.apply (sack : SACKInfo) : SACKOp → SACKInfo
  | .update segStart segEnd rcvNxt => updateSACKBlocks sack segStart segEnd rcvNxt
  | .trim rcvNxt => trimSACKBlockList sack rcvNxt

/-- The calls in turn. -/
def runSACK (sack : SACKInfo) (ops : List SACKOp) : SACKInfo := ops.foldl SACKInfo.apply sack

/-- The `rcvNxt` of the last call, `r` if there is none. -/
def lastRcvNxt (r : UInt32) (ops : List SACKOp) : UInt32 := ops.foldl (fun _ op => op.rcvNxt) r

/-- The segments the calls report. -/
def reported (ops : List SACKOp) : List SACKBlock := ops.flatMap SACKOp.segments

/-- Each call fits the `rcvNxt` of the call before it, the first fits `r`. -/
def FitsFrom : UInt32 → List SACKOp → Prop
  | _, [] => True
  | r, op :: ops => op.Fits r ∧ FitsFrom op.rcvNxt ops

instance decidableFitsFrom : (r : UInt32) → (ops : List SACKOp) → Decidable (FitsFrom r ops)
  | _, [] => isTrue trivial
  | r, op :: ops =>
    have := decidableFitsFrom op.rcvNxt ops
    inferInstanceAs (Decidable (op.Fits r ∧ FitsFrom op.rcvNxt ops))

/-! ### Runs -/

section Run

variable {r : UInt32} {segs : List SACKBlock}

/-- One call keeps the invariant, seen from its `rcvNxt`. -/
theorem valid_apply {sack : SACKInfo} (hv : Valid r segs sack.blocks) {op : SACKOp}
    (hop : op.Fits r) : Valid op.rcvNxt (segs ++ op.segments) (sack.apply op).blocks := by
  cases op with
  | update segStart segEnd rcvNxt =>
    obtain ⟨hd, hpos, hseg, hend⟩ := hop
    exact (valid_update hv hd hpos hseg hend).1
  | trim rcvNxt =>
    simpa [SACKInfo.apply, trimSACKBlockList, SACKOp.segments, SACKOp.rcvNxt] using
      valid_trim hv hop

/-- Every run of fitting calls keeps the invariant, seen from the last
`rcvNxt`. -/
theorem valid_runSACK {sack : SACKInfo} (hv : Valid r segs sack.blocks) {ops : List SACKOp}
    (hops : FitsFrom r ops) :
    Valid (lastRcvNxt r ops) (segs ++ reported ops) (runSACK sack ops).blocks := by
  induction ops generalizing r segs sack with
  | nil => simpa [lastRcvNxt, reported, runSACK] using hv
  | cons op ops ih =>
    obtain ⟨hop, hrest⟩ := hops
    have := ih (valid_apply hv hop) hrest
    simpa [lastRcvNxt, reported, runSACK, List.append_assoc] using this

theorem fitsFrom_append {xs ys : List SACKOp} :
    FitsFrom r (xs ++ ys) ↔ FitsFrom r xs ∧ FitsFrom (lastRcvNxt r xs) ys := by
  induction xs generalizing r with
  | nil => simp [FitsFrom, lastRcvNxt]
  | cons op xs ih => simp [FitsFrom, ih, lastRcvNxt, and_assoc]

theorem runSACK_append_singleton (sack : SACKInfo) (ops : List SACKOp) (op : SACKOp) :
    runSACK sack (ops ++ [op]) = (runSACK sack ops).apply op := by
  simp [runSACK]

/-- Seen from `r`, a block inside it starts at or after `r` and is not empty,
in `seqnum`'s order. -/
theorem Inside.seqnum {b : SACKBlock} (hb : Inside r b) :
    lessThanEq r b.start = true ∧ lessThan b.start b.stop = true := by
  have hstart : ahead r b.start < 2 ^ 31 := hb.1.trans hb.2
  refine ⟨(lessThanEq_iff_ahead (by simp) hstart).mpr (by simp), ?_⟩
  exact (lessThan_iff_ahead hstart hb.2).mpr hb.1

/-- Two blocks apart are disjoint and not adjacent, in `seqnum`'s order. -/
theorem Apart.seqnum {a b : SACKBlock} (ha : Inside r a) (hb : Inside r b) (h : Apart r a b) :
    lessThan a.stop b.start = true ∨ lessThan b.stop a.start = true := by
  rw [lessThan_iff_ahead ha.2 (hb.1.trans hb.2), lessThan_iff_ahead hb.2 (ha.1.trans ha.2)]
  exact h

/-- The receiver's SACK blocks, after any run of `UpdateSACKBlocks` calls for
non-empty segments past `rcvNxt` and `TrimSACKBlockList` calls, with `rcvNxt`
moving forward by less than half the sequence space from call to call: there
are at most `MaxSACKBlocks` blocks, each starts at or after the last `rcvNxt`
and before its end, any two are disjoint and not adjacent, every sequence
number of a block was in a reported segment, and after an update the first
block contains the segment. -/
theorem runSACK_blocks (r : UInt32) (ops : List SACKOp) (hops : FitsFrom r ops) :
    (runSACK ⟨[], Nat.zero_le _⟩ ops).blocks.length ≤ MaxSACKBlocks ∧
      (∀ b ∈ (runSACK ⟨[], Nat.zero_le _⟩ ops).blocks,
        lessThanEq (lastRcvNxt r ops) b.start = true ∧ lessThan b.start b.stop = true) ∧
      (runSACK ⟨[], Nat.zero_le _⟩ ops).blocks.Pairwise
        (fun a b => lessThan a.stop b.start = true ∨ lessThan b.stop a.start = true) ∧
      (∀ b ∈ (runSACK ⟨[], Nat.zero_le _⟩ ops).blocks, ∀ v, inRange v b.start b.stop = true →
        ∃ s ∈ reported ops, inRange v s.start s.stop = true) ∧
      (∀ segStart segEnd rcvNxt, ops.getLast? = some (.update segStart segEnd rcvNxt) →
        ∃ first, (runSACK ⟨[], Nat.zero_le _⟩ ops).blocks.head? = some first ∧
          first.contains ⟨segStart, segEnd⟩ = true) := by
  have hempty : Valid r [] (⟨[], Nat.zero_le _⟩ : SACKInfo).blocks :=
    ⟨by simp, List.Pairwise.nil, by simp⟩
  have hv := valid_runSACK hempty hops
  rw [List.nil_append] at hv
  refine ⟨(runSACK _ ops).length_le, fun b hb => (hv.inside b hb).seqnum, ?_, hv.covered, ?_⟩
  · exact hv.apart.imp_of_mem fun ha hb hab => hab.seqnum (hv.inside _ ha) (hv.inside _ hb)
  · -- the last call is an update, made on the blocks of the calls before it
    intro segStart segEnd rcvNxt hlast
    obtain ⟨pre, hpre⟩ : ∃ pre, ops = pre ++ [.update segStart segEnd rcvNxt] :=
      ⟨ops.dropLast, (List.dropLast_append_getLast? _ hlast).symm⟩
    rw [hpre, fitsFrom_append] at hops
    obtain ⟨hpreFits, ⟨hd, hpos, hseg, hend⟩, -⟩ := hops
    have hvpre := valid_runSACK hempty hpreFits
    rw [hpre, runSACK_append_singleton]
    exact (valid_update hvpre hd hpos hseg hend).2

/-- Two segments out of order, then the gap before the first filled and the
blocks trimmed. -/
def sampleSACKOps : List SACKOp :=
  [.update 30 40 10, .update 15 20 10, .trim 20, .update 41 45 20]

theorem runSACK_blocks_sample :
    FitsFrom 10 sampleSACKOps ∧
      (runSACK ⟨[], Nat.zero_le _⟩ sampleSACKOps).blocks = [⟨41, 45⟩, ⟨30, 40⟩] ∧
      ((runSACK ⟨[], Nat.zero_le _⟩ sampleSACKOps).blocks.length ≤ MaxSACKBlocks) :=
  ⟨by decide, by decide, (runSACK_blocks 10 sampleSACKOps (by decide)).1⟩

end Run

end ContainerFS.Tcp
