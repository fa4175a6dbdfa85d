import Mathlib

/-!
Sequences of memory blocks (`pkg/sentry/safemem`, `block_unsafe.go` and
`seq_unsafe.go`). A `BlockSeq` is empty, one block stored inline (length `-1`,
or `-2` when it needs safecopy), or an array of blocks read from `offset` bytes
into the first and limited to `limit` bytes. The documented invariant is that
every block the sequence stands for is non-empty: `BlockSeqFromSlice` skips
empty blocks and `Tail` skips them as it goes.

`BlockSeqOf` does not: the inline sequence of an empty block is not empty,
its `Head` is that empty block, and `NumBlocks` is one while `NumBytes` is
zero (`blockSeqOf_empty_block`). Every sequence `BlockSeqFromSlice` builds
does keep the invariant: iterating `Head` and `Tail` lists the slice's
non-empty blocks (`blocks_blockSeqFromSlice`).

Addresses are `ℕ`; a block's length is a Go `int` that is never negative,
so it is a natural number below `2^63`. Panics are errors.
-/

namespace ContainerFS.Safemem

/-- The panics of the sequence's operations. -/
inductive Panic where
  /-- "empty BlockSeq" -/
  | emptySeq
  /-- "BlockSeq length overflows uint64" -/
  | lengthOverflows
  /-- the array read through a nil `data` -/
  | nilDeref
  deriving DecidableEq, Repr

/-- `Block`: `length` bytes from address `start`. -/
structure Block where
  start : ℕ
  length : ℕ
  needSafecopy : Bool
  length_lt : length < 2 ^ 63
  deriving DecidableEq

namespace Block

/-- `Block{}`. -/
def empty : Block := ⟨0, 0, false, by decide⟩

def dropFirst64 (b : Block) (n : UInt64) : Block :=
  if n.toNat ≥ b.length then empty
  else ⟨b.start + n.toNat, b.length - n.toNat, b.needSafecopy,
    Nat.lt_of_le_of_lt (Nat.sub_le _ _) b.length_lt⟩

/-- `DropFirst`, on the non-negative `int`s it is called with. -/
def dropFirst (b : Block) (n : ℕ) : Block := b.dropFirst64 (UInt64.ofNat n)

def takeFirst64 (b : Block) (n : UInt64) : Block :=
  if n = 0 then empty
  else if h : n.toNat ≥ b.length then b
  else ⟨b.start, n.toNat, b.needSafecopy, Nat.lt_trans (Nat.lt_of_not_le h) b.length_lt⟩

end Block

/-- `BlockSeq`. Go keeps one pointer `data`: the inline block's start when
`length < 0`, the array when `length ≥ 2`; here they are `start` and `data`. -/
structure BlockSeq where
  data : List Block
  start : ℕ
  length : ℤ
  offset : ℕ
  limit : UInt64
  deriving DecidableEq

namespace BlockSeq

/-- `BlockSeq{}`. -/
def empty : BlockSeq := ⟨[], 0, 0, 0, 0⟩

end BlockSeq

open BlockSeq

def blockSeqOf (b : Block) : BlockSeq :=
  let bs : BlockSeq := ⟨[], b.start, -1, 0, UInt64.ofNat b.length⟩
  if b.needSafecopy then { bs with length := -2 } else bs

/-- `skipEmpty`: the slice from its first non-empty block. -/
def skipEmpty : List Block → List Block
  | [] => []
  | b :: bs => if b.length ≠ 0 then b :: bs else skipEmpty bs

def blockSeqFromSliceLimited (slice : List Block) (limit : UInt64) : BlockSeq :=
  match slice with
  | [] => empty
  | [b] => blockSeqOf (b.takeFirst64 limit)
  | b1 :: b2 :: bs =>
    { data := b1 :: b2 :: bs, start := 0, length := bs.length + 2, offset := 0, limit := limit }

/-- The loop of `BlockSeqFromSlice`: the total length as a `uint64`, with its
overflow panic. -/
def sumLengths (limit : UInt64) : List Block → Except Panic UInt64
  | [] => .ok limit
  | b :: bs =>
    let sum := limit + UInt64.ofNat b.length
    if sum < limit then .error .lengthOverflows else sumLengths sum bs

def blockSeqFromSlice (slice : List Block) : Except Panic BlockSeq :=
  let slice := skipEmpty slice
  (sumLengths 0 slice).map (blockSeqFromSliceLimited slice)

namespace BlockSeq

def isEmpty (bs : BlockSeq) : Bool := bs.length = 0

def numBytes (bs : BlockSeq) : UInt64 := bs.limit

/-- `internalBlock`: the inline block. -/
def internalBlock (bs : BlockSeq) : Block :=
  if h : bs.limit.toNat < 2 ^ 63 then ⟨bs.start, bs.limit.toNat, bs.length = -2, h⟩
  else Block.empty

def head (bs : BlockSeq) : Except Panic Block :=
  if bs.length = 0 then .error .emptySeq
  else if bs.length < 0 then .ok bs.internalBlock
  else .ok (((bs.data.headD Block.empty).dropFirst bs.offset).takeFirst64 bs.limit)

/-- `Tail`: past the head, empty blocks are skipped. -/
def tail (bs : BlockSeq) : Except Panic BlockSeq :=
  if bs.length = 0 then .error .emptySeq
  else if bs.length < 0 then .ok empty
  else
    let head := (bs.data.headD Block.empty).dropFirst bs.offset
    let headLen := UInt64.ofNat head.length
    -- the head block exhausts the limit, so the tail is empty
    if headLen ≥ bs.limit then .ok empty
    else .ok (blockSeqFromSliceLimited (skipEmpty bs.data.tail) (bs.limit - headLen))

/-- The loop of `DropFirst64`, with `fuel` turns. -/
def dropLoop : ℕ → BlockSeq → UInt64 → Except Panic BlockSeq
  | 0, bs, _ => .ok bs
  | fuel + 1, bs, n =>
    if bs.length = 0 then .error .nilDeref
    else
      let headLen := if bs.length < 0 then bs.limit
        else UInt64.ofInt ((bs.data.headD Block.empty).length - bs.offset)
      if n < headLen then
        -- dropping ends partway through the head block
        if bs.length < 0 then .ok (blockSeqOf (bs.internalBlock.dropFirst64 n))
        else .ok { bs with offset := bs.offset + n.toNat, limit := bs.limit - n }
      else
        match bs.tail with
        | .error e => .error e
        | .ok t => dropLoop fuel t (n - headLen)

/-- `DropFirst64`. The loop takes a block a turn and is given a turn for each
block of the array and one more. -/
def dropFirst64 (bs : BlockSeq) (n : UInt64) : Except Panic BlockSeq :=
  if n ≥ bs.limit then .ok empty else dropLoop (bs.data.length + 1) bs n

def takeFirst64 (bs : BlockSeq) (n : UInt64) : BlockSeq :=
  if n = 0 then empty
  else if bs.limit > n then { bs with limit := n } else bs

/-- The blocks that iterating `Head` and `Tail` lists (the loop of `String`),
with `fuel` turns. -/
def blocksFrom : ℕ → BlockSeq → List Block
  | 0, _ => []
  | fuel + 1, bs =>
    if bs.isEmpty then []
    else
      match bs.head, bs.tail with
      | .ok b, .ok t => b :: blocksFrom fuel t
      | _, _ => []

/-- The blocks a sequence iterates: a turn for each block of the array and one
more. -/
def blocks (bs : BlockSeq) : List Block := blocksFrom (bs.data.length + 1) bs

/-- The loop of `NumBlocks`, with `fuel` turns. -/
def numBlocksFrom : ℕ → BlockSeq → ℕ
  | 0, _ => 0
  | fuel + 1, bs =>
    if bs.isEmpty then 0
    else
      match bs.tail with
      | .ok t => numBlocksFrom fuel t + 1
      | .error _ => 0

def numBlocks (bs : BlockSeq) : ℕ := numBlocksFrom (bs.data.length + 1) bs

end BlockSeq

/-- `BlockSeqOf` of an empty block, at any address and with either safecopy
flag, is not empty: its one block is the empty block, so `NumBlocks` is one
while `NumBytes` is zero. -/
theorem blockSeqOf_empty_block (start : ℕ) (needSafecopy : Bool) :
    (blockSeqOf ⟨start, 0, needSafecopy, by decide⟩).isEmpty = false ∧
      (blockSeqOf ⟨start, 0, needSafecopy, by decide⟩).head =
        .ok ⟨start, 0, needSafecopy, by decide⟩ ∧
      (blockSeqOf ⟨start, 0, needSafecopy, by decide⟩).numBytes = 0 ∧
      (blockSeqOf ⟨start, 0, needSafecopy, by decide⟩).numBlocks = 1 ∧
      (blockSeqOf ⟨start, 0, needSafecopy, by decide⟩).blocks =
        [⟨start, 0, needSafecopy, by decide⟩] := by
  cases needSafecopy <;> exact ⟨rfl, rfl, rfl, rfl, rfl⟩

/-! ### What `BlockSeqFromSlice` builds -/

/-- The bytes the blocks hold. -/
def totalLength (l : List Block) : ℕ := (l.map Block.length).sum

section Slices

variable {l : List Block}

@[simp] theorem totalLength_nil : totalLength [] = 0 := rfl

@[simp] theorem totalLength_cons (b : Block) (l : List Block) :
    totalLength (b :: l) = b.length + totalLength l := by
  simp [totalLength]

/-- Blocks that hold no bytes are all empty. -/
theorem filter_of_totalLength_eq_zero (h : totalLength l = 0) :
    l.filter (·.length ≠ 0) = [] := by
  induction l with
  | nil => rfl
  | cons b l ih =>
    rw [totalLength_cons] at h
    simp only [List.filter_cons, show b.length = 0 by omega, ne_eq, not_true_eq_false,
      decide_false, Bool.false_eq_true, if_false]
    exact ih (by omega)

theorem skipEmpty_cases (l : List Block) :
    skipEmpty l = [] ∨ ∃ b rest, skipEmpty l = b :: rest ∧ b.length ≠ 0 := by
  induction l with
  | nil => exact Or.inl rfl
  | cons b l ih =>
    by_cases hb : b.length ≠ 0
    · exact Or.inr ⟨b, l, by rw [skipEmpty, if_pos hb], hb⟩
    · rw [skipEmpty, if_neg hb]
      exact ih

/-- `skipEmpty` drops empty blocks only. -/
theorem skipEmpty_spec (l : List Block) :
    (skipEmpty l).filter (·.length ≠ 0) = l.filter (·.length ≠ 0) ∧
      totalLength (skipEmpty l) = totalLength l ∧ (skipEmpty l).length ≤ l.length := by
  induction l with
  | nil => exact ⟨rfl, rfl, le_rfl⟩
  | cons b l ih =>
    by_cases hb : b.length ≠ 0
    · rw [skipEmpty, if_pos hb]
      exact ⟨rfl, rfl, le_rfl⟩
    · have hb0 : b.length = 0 := by omega
      rw [skipEmpty, if_neg hb, totalLength_cons, hb0, Nat.zero_add, List.length_cons]
      simp only [List.filter_cons, hb0, ne_eq, not_true_eq_false, decide_false,
        Bool.false_eq_true, if_false]
      exact ⟨ih.1, ih.2.1, Nat.le_succ_of_le ih.2.2⟩

end Slices

theorem toNat_ofNat_length (b : Block) : (UInt64.ofNat b.length).toNat = b.length :=
  UInt64.toNat_ofNat_of_lt' (Nat.lt_trans b.length_lt (by decide))

/-- One turn of `BlockSeqFromSlice`'s sum, on `ℕ`. -/
theorem toNat_add_length (limit : UInt64) (b : Block) :
    (limit + UInt64.ofNat b.length).toNat =
      if limit.toNat + b.length < 2 ^ 64 then limit.toNat + b.length
      else limit.toNat + b.length - 2 ^ 64 := by
  have hlen := b.length_lt
  have hlim := limit.toNat_lt
  rw [UInt64.toNat_add, toNat_ofNat_length]
  split_ifs with h
  · exact Nat.mod_eq_of_lt h
  · rw [Nat.mod_eq_sub_mod (by omega), Nat.mod_eq_of_lt (by omega)]

theorem sumLengths_ok {l : List Block} :
    ∀ {limit s : UInt64}, sumLengths limit l = .ok s → s.toNat = limit.toNat + totalLength l := by
  induction l with
  | nil =>
    intro limit s h
    cases h
    simp
  | cons b l ih =>
    intro limit s h
    have hsum := toNat_add_length limit b
    have hlen := b.length_lt
    rw [sumLengths] at h
    split_ifs at h with hlt
    rw [ih h, totalLength_cons]
    rw [UInt64.lt_iff_toNat_lt] at hlt
    split_ifs at hsum <;> omega

theorem sumLengths_error {l : List Block} :
    ∀ {limit : UInt64} {e : Panic}, sumLengths limit l = .error e →
      2 ^ 64 ≤ limit.toNat + totalLength l := by
  induction l with
  | nil =>
    intro limit e h
    cases h
  | cons b l ih =>
    intro limit e h
    have hsum := toNat_add_length limit b
    have hlen := b.length_lt
    rw [sumLengths] at h
    rw [totalLength_cons]
    split_ifs at h with hlt
    · rw [UInt64.lt_iff_toNat_lt] at hlt
      split_ifs at hsum <;> omega
    · have := ih h
      split_ifs at hsum <;> omega

namespace Block

variable {b : Block}

theorem dropFirst_zero (hb : b.length ≠ 0) : b.dropFirst 0 = b := by
  have hzero : (UInt64.ofNat 0).toNat = 0 := rfl
  unfold dropFirst dropFirst64
  split_ifs with h
  · omega
  · obtain ⟨start, length, needSafecopy, hlt⟩ := b
    simp only [hzero, Nat.add_zero, Nat.sub_zero]

theorem takeFirst64_of_le {n : UInt64} (hn : n ≠ 0) (h : b.length ≤ n.toNat) :
    b.takeFirst64 n = b := by
  rw [takeFirst64, if_neg hn, dif_pos h]

end Block

namespace BlockSeq

@[simp] theorem blocksFrom_empty (fuel : ℕ) : blocksFrom fuel empty = [] := by
  cases fuel <;> rfl

theorem limit_blockSeqOf (b : Block) : (blockSeqOf b).limit = UInt64.ofNat b.length := by
  unfold blockSeqOf
  split_ifs <;> rfl

/-- The inline sequence of a non-empty block iterates that block. -/
theorem blockSeqOf_spec {b : Block} (hb : b.length ≠ 0) :
    (blockSeqOf b).isEmpty = false ∧ (blockSeqOf b).head = .ok b ∧
      (blockSeqOf b).tail = .ok empty ∧ (blockSeqOf b).numBytes.toNat = b.length := by
  have hinternal : (blockSeqOf b).internalBlock = b := by
    obtain ⟨start, length, needSafecopy, hlt⟩ := b
    have hlen := toNat_ofNat_length ⟨start, length, needSafecopy, hlt⟩
    have hlt' : length < 9223372036854775808 := hlt
    cases needSafecopy <;> simp [blockSeqOf, internalBlock, hlen, hlt']
  have hlength : (blockSeqOf b).length < 0 := by
    unfold blockSeqOf
    split_ifs <;> simp
  refine ⟨by simp [isEmpty, Int.ne_of_lt hlength], ?_, ?_, ?_⟩
  · rw [head, if_neg (Int.ne_of_lt hlength), if_pos hlength, hinternal]
  · rw [tail, if_neg (Int.ne_of_lt hlength), if_pos hlength]
  · rw [numBytes, limit_blockSeqOf, toNat_ofNat_length]

/-- A slice whose first block is not empty, limited to exactly its bytes,
iterates its non-empty blocks. The induction is on the turns, with the slice
generalised: `Tail` hands on the rest of the array past its empty blocks. -/
theorem blocksFrom_blockSeqFromSliceLimited {fuel : ℕ} :
    ∀ {s : List Block} {L : UInt64}, s.length ≤ fuel → (∀ b ∈ s.head?, b.length ≠ 0) →
      L.toNat = totalLength s →
      blocksFrom fuel (blockSeqFromSliceLimited s L) = s.filter (·.length ≠ 0) := by
  induction fuel with
  | zero =>
    intro s L hs _ _
    rw [List.length_eq_zero_iff.mp (Nat.le_zero.mp hs)]
    rfl
  | succ fuel ih =>
    intro s L hs hhead hL
    rcases s with _ | ⟨b1, _ | ⟨b2, rest⟩⟩
    · rfl
    · -- one block goes inline
      have hb1 := hhead b1 rfl
      rw [totalLength_cons, totalLength_nil, Nat.add_zero] at hL
      have hL0 : L ≠ 0 := fun h => hb1 (by rw [← hL, h]; rfl)
      obtain ⟨hne, hh, ht, -⟩ := blockSeqOf_spec hb1
      rw [blockSeqFromSliceLimited, Block.takeFirst64_of_le hL0 (Nat.le_of_eq hL.symm),
        blocksFrom, hne, if_neg Bool.false_ne_true, hh, ht]
      simp [hb1]
    · have hb1 := hhead b1 rfl
      rw [totalLength_cons] at hL
      have hL0 : L ≠ 0 := fun h => hb1 (by rw [h] at hL; simp at hL; omega)
      have hlen1 := toNat_ofNat_length b1
      -- the array: read from its start, limited to all its bytes
      set bs := blockSeqFromSliceLimited (b1 :: b2 :: rest) L with hbs
      have hlen : bs.length = rest.length + 2 := rfl
      have hdata : bs.data = b1 :: b2 :: rest := rfl
      have hoff : bs.offset = 0 := rfl
      have hlim : bs.limit = L := rfl
      have h0 : bs.length ≠ 0 := by rw [hlen]; omega
      have hneg : ¬bs.length < 0 := by rw [hlen]; omega
      have hhd : bs.head = .ok b1 := by
        rw [head, if_neg h0, if_neg hneg, hdata, hoff, hlim, List.headD_cons,
          Block.dropFirst_zero hb1, Block.takeFirst64_of_le hL0 (by omega)]
      have hne : bs.isEmpty = false := by
        simp only [isEmpty, decide_eq_false_iff_not]
        exact h0
      have hfilter : (b1 :: b2 :: rest).filter (·.length ≠ 0) =
          b1 :: (b2 :: rest).filter (·.length ≠ 0) := by
        simp [List.filter_cons, hb1]
      have htail : bs.tail = if UInt64.ofNat b1.length ≥ L then .ok empty
          else .ok (blockSeqFromSliceLimited (skipEmpty (b2 :: rest)) (L - UInt64.ofNat b1.length)) := by
        rw [tail, if_neg h0, if_neg hneg]
        dsimp only
        rw [hdata, hoff, hlim, List.headD_cons, Block.dropFirst_zero hb1, List.tail_cons]
      rw [blocksFrom, hne, if_neg Bool.false_ne_true, hhd, hfilter, htail]
      by_cases hrest : totalLength (b2 :: rest) = 0
      · -- the first block holds the whole limit: the rest is empty blocks
        have hge : UInt64.ofNat b1.length ≥ L := by
          rw [ge_iff_le, UInt64.le_iff_toNat_le, hlen1]
          omega
        rw [if_pos hge, filter_of_totalLength_eq_zero hrest]
        simp
      · -- the tail is the rest from its first non-empty block
        obtain ⟨hfilt, htot, hlenSkip⟩ := skipEmpty_spec (b2 :: rest)
        have hlt : ¬UInt64.ofNat b1.length ≥ L := by
          rw [ge_iff_le, UInt64.le_iff_toNat_le, hlen1]
          omega
        have hL' : (L - UInt64.ofNat b1.length).toNat = totalLength (skipEmpty (b2 :: rest)) := by
          rw [UInt64.toNat_sub_of_le _ _ (UInt64.le_of_lt (UInt64.not_le.mp hlt)), hlen1, htot]
          omega
        have hhead' : ∀ b ∈ (skipEmpty (b2 :: rest)).head?, b.length ≠ 0 := by
          rcases skipEmpty_cases (b2 :: rest) with h | ⟨b, r, h, hb⟩
          · simp [h]
          · simp [h, hb]
        rw [if_neg hlt]
        dsimp only
        have hfuel : (skipEmpty (b2 :: rest)).length ≤ fuel := by
          simp only [List.length_cons] at hs hlenSkip
          omega
        rw [ih hfuel hhead' hL', hfilt]

theorem length_le_data_length (s : List Block) (L : UInt64) :
    s.length ≤ (blockSeqFromSliceLimited s L).data.length + 1 := by
  rcases s with _ | ⟨b1, _ | ⟨b2, rest⟩⟩
  · exact Nat.zero_le _
  · exact Nat.le_add_left 1 _
  · simp [blockSeqFromSliceLimited]

/-- A slice whose first block is not empty, limited to exactly its bytes,
counts them in `NumBytes`. -/
theorem numBytes_blockSeqFromSliceLimited {s : List Block} {L : UInt64}
    (hhead : ∀ b ∈ s.head?, b.length ≠ 0) (hL : L.toNat = totalLength s) :
    (blockSeqFromSliceLimited s L).numBytes.toNat = L.toNat := by
  rcases s with _ | ⟨b1, _ | ⟨b2, rest⟩⟩
  · rw [hL]
    rfl
  · -- the inline block is the slice's one block, cut to the limit
    have hb1 := hhead b1 rfl
    rw [totalLength_cons, totalLength_nil, Nat.add_zero] at hL
    have hL0 : L ≠ 0 := fun h => hb1 (by rw [← hL, h]; rfl)
    rw [blockSeqFromSliceLimited, Block.takeFirst64_of_le hL0 (Nat.le_of_eq hL.symm), numBytes,
      limit_blockSeqOf, toNat_ofNat_length, hL]
  · rfl

/-- `BlockSeqFromSlice` panics exactly when the slice holds `2^64` bytes or
more. -/
theorem blockSeqFromSlice_ok_iff (slice : List Block) :
    (∃ bs, blockSeqFromSlice slice = .ok bs) ↔ totalLength slice < 2 ^ 64 := by
  have htot := (skipEmpty_spec slice).2.1
  rw [blockSeqFromSlice]
  cases hs : sumLengths 0 (skipEmpty slice) with
  | error e =>
    have hsum := sumLengths_error hs
    refine ⟨fun ⟨_, h⟩ => ?_, fun h => absurd hsum (by simp; omega)⟩
    cases h
  | ok s =>
    have hsum := sumLengths_ok hs
    have hs64 := s.toNat_lt
    exact ⟨fun _ => by simp at hsum; omega, fun _ => ⟨_, rfl⟩⟩

/-- `BlockSeqFromSlice` panics exactly on a slice of `2^64` bytes or more, and every sequence it
builds iterates the slice's non-empty blocks, with `NumBytes` counting their bytes. -/
theorem blocks_blockSeqFromSlice {slice : List Block} {bs : BlockSeq}
    (h : blockSeqFromSlice slice = .ok bs) :
    (∀ slice' : List Block,
        (∃ bs', blockSeqFromSlice slice' = .ok bs') ↔ totalLength slice' < 2 ^ 64) ∧
      bs.blocks = slice.filter (·.length ≠ 0) ∧ bs.numBytes.toNat = totalLength slice := by
  refine ⟨blockSeqFromSlice_ok_iff, ?_⟩
  obtain ⟨hfilt, htot, -⟩ := skipEmpty_spec slice
  rw [blockSeqFromSlice] at h
  cases hs : sumLengths 0 (skipEmpty slice) with
  | error e =>
    rw [hs] at h
    cases h
  | ok L =>
    rw [hs] at h
    cases h
    have hL := sumLengths_ok hs
    simp only [UInt64.toNat_zero, Nat.zero_add] at hL
    have hhead : ∀ b ∈ (skipEmpty slice).head?, b.length ≠ 0 := by
      rcases skipEmpty_cases slice with h | ⟨b, r, h, hb⟩
      · simp [h]
      · simp [h, hb]
    refine ⟨?_, ?_⟩
    · rw [blocks, blocksFrom_blockSeqFromSliceLimited (length_le_data_length _ _) hhead hL, hfilt]
    · rw [numBytes_blockSeqFromSliceLimited hhead hL, hL, htot]

theorem blocks_blockSeqFromSlice_threeBlocks :
    ∃ bs, blockSeqFromSlice [⟨0, 0, false, by decide⟩, ⟨16, 3, false, by decide⟩,
        ⟨32, 0, true, by decide⟩] = .ok bs ∧
      (∀ slice' : List Block,
        (∃ bs', blockSeqFromSlice slice' = .ok bs') ↔ totalLength slice' < 2 ^ 64) ∧
      bs.blocks = [⟨0, 0, false, by decide⟩, ⟨16, 3, false, by decide⟩,
        ⟨32, 0, true, by decide⟩].filter (·.length ≠ 0) ∧
      bs.numBytes.toNat = totalLength [⟨0, 0, false, by decide⟩, ⟨16, 3, false, by decide⟩,
        ⟨32, 0, true, by decide⟩] :=
  ⟨_, rfl, blocks_blockSeqFromSlice rfl⟩

end BlockSeq

end ContainerFS.Safemem
