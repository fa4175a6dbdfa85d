import Mathlib
import ContainerFS.Lib.MachineInt

/-!
Sequences of address ranges (`pkg/sentry/usermem`, `addr_range_seq_unsafe.go`).
An `AddrRangeSeq` is empty, one inline range, or an array of ranges read from
`offset` bytes into the first and limited to `limit` bytes; ranges past the
limit are still iterated, cut to length zero. Zero-length ranges are kept,
since memory-manager bounds checks see them.

The list a sequence stands for is `view`: the array with its head cut by
`offset`, then truncated to `limit` bytes (`takeBytes`). `Head` and `Tail`
refine `view`'s head and tail (`head_view`, `tail_spec`), so iterating them
lists `view` (`ranges_eq_view`), and `TakeFirst64` truncates it
(`takeFirst64_spec`). On a sequence holding its whole limit (`Exact`, as the
constructors build it), `DropFirst64` drops the first range when it is empty,
and then `n` bytes (`dropFirst64_spec`): a range the drop ends on is removed
only while bytes remain to drop, so empty ranges there stay. `NumBytes` is the
limit read as an `int64`, negative from `2^63` bytes on.

Panics are errors. `DropFirst64`'s loop takes a range per turn and is given a
turn for each range and one more, which `dropLoop_spec` shows is enough.
-/

namespace ContainerFS.Usermem

abbrev Addr := UInt64

/-- `AddrRange`: the addresses from `start` up to `stop`, the Go fields `Start`
and `End`. -/
structure AddrRange where
  start : Addr
  stop : Addr
  deriving DecidableEq, Repr

namespace AddrRange

def length (r : AddrRange) : Addr := r.stop - r.start

/-- The range without its first `k` bytes. -/
def skip (r : AddrRange) (k : Addr) : AddrRange := ⟨r.start + k, r.stop⟩

/-- The range cut to its first `k` bytes, as `Head` cuts it: unchanged when it
has no more. -/
def keep (r : AddrRange) (k : Addr) : AddrRange :=
  if r.length > k then ⟨r.start, r.start + k⟩ else r

end AddrRange

/-- The panics of the sequence's operations. -/
inductive Panic where
  /-- "empty AddrRangeSeq" -/
  | emptySeq
  /-- "invalid n: %d" -/
  | invalidN
  /-- "Length of AddrRange %v overflows int64" -/
  | lengthOverflows
  /-- "Total length of AddrRanges %v overflows int64" -/
  | totalOverflows
  /-- the array read through a nil `data` -/
  | nilDeref
  deriving DecidableEq, Repr

/-- `AddrRangeSeq`. `data` is the array of `length` ranges at the Go field
`data` when `length ≥ 2`, and empty otherwise. -/
structure AddrRangeSeq where
  data : List AddrRange
  length : ℕ
  offset : Addr
  limit : Addr
  data_length : 2 ≤ length → data.length = length

namespace AddrRangeSeq

/-- `AddrRangeSeq{}`. -/
def empty : AddrRangeSeq := ⟨[], 0, 0, 0, fun h => absurd h (by decide)⟩

/-- `*(*AddrRange)(ars.data)`, read when `length ≥ 2`. -/
def rawHead (ars : AddrRangeSeq) : AddrRange := ars.data.headD ⟨0, 0⟩

end AddrRangeSeq

open AddrRangeSeq

def addrRangeSeqOf (ar : AddrRange) : AddrRangeSeq :=
  ⟨[], 1, ar.start, ar.length, fun h => absurd h (by decide)⟩

def addrRangeSeqFromSliceLimited (slice : List AddrRange) (limit : Int64) : AddrRangeSeq :=
  match slice with
  | [] => empty
  | [r] => ⟨[], 1, r.start, limit.toUInt64, fun h => absurd h (by decide)⟩
  | r1 :: r2 :: rs => ⟨r1 :: r2 :: rs, rs.length + 2, 0, limit.toUInt64, fun _ => rfl⟩

/-- The loop of `AddrRangeSeqFromSlice`: the total length as an `int64`, with
its two overflow panics. -/
def sumLengths (limit : Int64) : List AddrRange → Except Panic Int64
  | [] => .ok limit
  | ar :: ars =>
    let len64 := ar.length.toInt64
    if len64 < 0 then .error .lengthOverflows
    else
      let sum := limit + len64
      if sum < limit then .error .totalOverflows else sumLengths sum ars

def addrRangeSeqFromSlice (slice : List AddrRange) : Except Panic AddrRangeSeq :=
  (sumLengths 0 slice).map (addrRangeSeqFromSliceLimited slice)

namespace AddrRangeSeq

def isEmpty (ars : AddrRangeSeq) : Bool := ars.length = 0

def numRanges (ars : AddrRangeSeq) : ℕ := ars.length

def numBytes (ars : AddrRangeSeq) : Int64 := ars.limit.toInt64

def head (ars : AddrRangeSeq) : Except Panic AddrRange :=
  if ars.length = 0 then .error .emptySeq
  else if ars.length = 1 then .ok ⟨ars.offset, ars.offset + ars.limit⟩
  else .ok ((ars.rawHead.skip ars.offset).keep ars.limit)

/-- `externalTail`: the array past its head, limited to what the head leaves. -/
def externalTail (ars : AddrRangeSeq) : AddrRangeSeq :=
  let headLen := ars.rawHead.length - ars.offset
  let tailLimit : Int64 := if ars.limit > headLen then (ars.limit - headLen).toInt64 else 0
  addrRangeSeqFromSliceLimited ars.data.tail tailLimit

def tail (ars : AddrRangeSeq) : Except Panic AddrRangeSeq :=
  if ars.length = 0 then .error .emptySeq
  else if ars.length = 1 then .ok empty
  else .ok ars.externalTail

/-- The loop of `DropFirst64`, with `fuel` turns. -/
def dropLoop : ℕ → AddrRangeSeq → Int64 → Except Panic AddrRangeSeq
  | 0, ars, _ => .ok ars
  | fuel + 1, ars, n =>
    if n = 0 then .ok ars
    else if ars.length = 0 then .error .nilDeref
    else
      let headLen := if ars.length = 1 then ars.limit else ars.rawHead.length - ars.offset
      if n.toUInt64 < headLen then
        -- dropping ends partway through the head
        .ok { ars with offset := ars.offset + n.toUInt64, limit := ars.limit - n.toUInt64 }
      else
        match ars.tail with
        | .error e => .error e
        | .ok t => dropLoop fuel t (n - headLen.toInt64)

/-- `DropFirst64`: an initial empty range is dropped even when `n = 0`. -/
def dropFirst64 (ars : AddrRangeSeq) (n : Int64) : Except Panic AddrRangeSeq :=
  if n < 0 then .error .invalidN
  else if n.toUInt64 > ars.limit then .ok empty
  else if ars.length = 0 then .ok empty
  else if ars.length = 1 ∧ ars.limit = 0 then .ok empty
  else
    let ars := if ars.length ≠ 1 ∧ ars.rawHead.length = ars.offset then ars.externalTail else ars
    dropLoop (ars.length + 1) ars n

def takeFirst64 (ars : AddrRangeSeq) (n : Int64) : Except Panic AddrRangeSeq :=
  if n < 0 then .error .invalidN
  else .ok (if ars.limit > n.toUInt64 then { ars with limit := n.toUInt64 } else ars)

/-- The ranges that iterating `Head` and `Tail` lists, with `fuel` turns. -/
def rangesFrom : ℕ → AddrRangeSeq → List AddrRange
  | 0, _ => []
  | fuel + 1, ars =>
    if ars.isEmpty then []
    else
      match ars.head, ars.tail with
      | .ok h, .ok t => h :: rangesFrom fuel t
      | _, _ => []

/-- The ranges a sequence iterates: `Tail` shortens it by one range a turn. -/
def ranges (ars : AddrRangeSeq) : List AddrRange := rangesFrom ars.length ars

end AddrRangeSeq

/-! ### Ranges on `ℕ`

Lengths are differences of `uint64`s, so these hold of every range, also of
one whose `End` lies below its `Start`. -/

namespace AddrRange

variable {r : AddrRange}

theorem toNat_ofNat_of_lt {k : ℕ} (hk : k < 2 ^ 64) : (UInt64.ofNat k).toNat = k :=
  UInt64.toNat_ofNat_of_lt' hk

theorem length_mk_add (a l : Addr) : (AddrRange.mk a (a + l)).length = l := by
  simp only [length]
  grind

/-- The first `k` bytes of a range, for `k` within it. -/
theorem length_prefix {k : ℕ} (hk : k ≤ r.length.toNat) :
    (AddrRange.mk r.start (r.start + UInt64.ofNat k)).length.toNat = k := by
  rw [length_mk_add, toNat_ofNat_of_lt (by have := r.length.toNat_lt; omega)]

theorem mk_start_add_length : AddrRange.mk r.start (r.start + r.length) = r := by
  rw [length]
  cases r
  simp only [mk.injEq, true_and]
  grind

/-- A range is its own prefix of its whole length. -/
theorem prefix_length : AddrRange.mk r.start (r.start + UInt64.ofNat r.length.toNat) = r := by
  rw [UInt64.ofNat_toNat, mk_start_add_length]

theorem length_skip_eq (k : Addr) : (r.skip k).length = r.length - k := by
  simp only [skip, length]
  grind

theorem length_skip {k : Addr} (hk : k ≤ r.length) :
    (r.skip k).length.toNat = r.length.toNat - k.toNat := by
  rw [length_skip_eq, UInt64.toNat_sub_of_le _ _ hk]

theorem skip_skip (a b : Addr) : (r.skip a).skip b = r.skip (a + b) := by
  simp only [skip, UInt64.add_assoc]

/-- `Head`'s cut of a range is the first range `takeBytes` leaves. -/
theorem keep_eq (k : Addr) :
    r.keep k = if k.toNat < r.length.toNat then ⟨r.start, r.start + UInt64.ofNat k.toNat⟩
      else r := by
  simp only [keep, GT.gt, UInt64.lt_iff_toNat_lt, UInt64.ofNat_toNat]

end AddrRange

/-! ### The lists of ranges a sequence stands for -/

/-- The bytes the ranges cover, counted on `ℕ`. -/
def totalBytes (rs : List AddrRange) : ℕ := (rs.map fun r => r.length.toNat).sum

/-- The ranges with every byte after the first `n` removed and every range
kept, cut to length zero past them. -/
def takeBytes : ℕ → List AddrRange → List AddrRange
  | _, [] => []
  | n, r :: rs =>
    (if n < r.length.toNat then ⟨r.start, r.start + UInt64.ofNat n⟩ else r) ::
      takeBytes (n - r.length.toNat) rs

/-- The ranges with their first `n` bytes removed: a range is removed when the
bytes to remove reach its end, while some remain to remove. -/
def dropBytes : ℕ → List AddrRange → List AddrRange
  | _, [] => []
  | n, r :: rs =>
    if n = 0 then r :: rs
    else if n < r.length.toNat then r.skip (UInt64.ofNat n) :: rs
    else dropBytes (n - r.length.toNat) rs

/-- The ranges without the first, when it is empty. -/
def dropEmptyHead : List AddrRange → List AddrRange
  | [] => []
  | r :: rs => if r.length = 0 then rs else r :: rs

/-- What `DropFirst64` is to do with `n` bytes: nothing is left past the end,
and otherwise an empty first range goes, then `n` bytes. -/
def dropSpec (n : ℕ) (rs : List AddrRange) : List AddrRange :=
  if totalBytes rs < n then [] else dropBytes n (dropEmptyHead rs)

section Bytes

variable {rs : List AddrRange}

@[simp] theorem totalBytes_nil : totalBytes [] = 0 := rfl

@[simp] theorem totalBytes_cons (r : AddrRange) (rs : List AddrRange) :
    totalBytes (r :: rs) = r.length.toNat + totalBytes rs := by
  simp [totalBytes]

@[simp] theorem takeBytes_nil (n : ℕ) : takeBytes n [] = [] := rfl

@[simp] theorem dropBytes_nil (n : ℕ) : dropBytes n [] = [] := rfl

@[simp] theorem dropBytes_zero : dropBytes 0 rs = rs := by
  cases rs <;> simp [dropBytes]

theorem dropBytes_cons (n : ℕ) (r : AddrRange) (rs : List AddrRange) :
    dropBytes n (r :: rs) =
      if n = 0 then r :: rs
      else if n < r.length.toNat then r.skip (UInt64.ofNat n) :: rs
      else dropBytes (n - r.length.toNat) rs := rfl

theorem totalBytes_dropEmptyHead : totalBytes (dropEmptyHead rs) = totalBytes rs := by
  cases rs with
  | nil => rfl
  | cons r rs =>
    by_cases h : r.length = 0
    · simp [dropEmptyHead, h]
    · simp [dropEmptyHead, h]

/-- The first range `takeBytes` leaves, and the ones after it. -/
theorem takeBytes_cons (n : ℕ) (r : AddrRange) (rs : List AddrRange) :
    takeBytes n (r :: rs) =
      (if n < r.length.toNat then ⟨r.start, r.start + UInt64.ofNat n⟩ else r) ::
        takeBytes (n - r.length.toNat) rs := rfl

@[simp] theorem length_takeBytes (n : ℕ) : (takeBytes n rs).length = rs.length := by
  induction rs generalizing n with
  | nil => rfl
  | cons r rs ih => simp [takeBytes_cons, ih]

/-- Nothing is cut from ranges that hold at most `n` bytes. -/
theorem takeBytes_of_totalBytes_le {n : ℕ} (h : totalBytes rs ≤ n) : takeBytes n rs = rs := by
  induction rs generalizing n with
  | nil => rfl
  | cons r rs ih =>
    rw [totalBytes_cons] at h
    rw [takeBytes_cons, if_neg (by omega), ih (by omega)]

/-- Two cuts are the shorter one. -/
theorem takeBytes_takeBytes (a b : ℕ) : takeBytes a (takeBytes b rs) = takeBytes (min a b) rs := by
  induction rs generalizing a b with
  | nil => rfl
  | cons r rs ih =>
    rw [takeBytes_cons, takeBytes_cons, takeBytes_cons, ih]
    by_cases hb : b < r.length.toNat
    · -- the first cut ends in `r`: what follows is cut to nothing by both
      have hpre := AddrRange.length_prefix (r := r) (Nat.le_of_lt hb)
      have hmin : min a b < r.length.toNat := by omega
      rw [if_pos hb, hpre, if_pos hmin]
      by_cases hab : a < b
      · rw [if_pos hab, Nat.min_eq_left (Nat.le_of_lt hab)]
        congr 2
        omega
      · rw [if_neg hab, Nat.min_eq_right (show b ≤ a by omega)]
        congr 2
        omega
    · rw [if_neg hb]
      by_cases ha : a < r.length.toNat
      · have hmin : min a b < r.length.toNat := by omega
        rw [if_pos ha, if_pos hmin, Nat.min_eq_left (show a ≤ b by omega)]
        congr 2
        omega
      · have hmin : ¬min a b < r.length.toNat := by omega
        rw [if_neg ha, if_neg hmin]
        congr 2
        omega

end Bytes

namespace AddrRangeSeq

/-- The ranges a sequence holds before its limit: the array with its head cut
by `offset`, or the one inline range. -/
def rawRanges (ars : AddrRangeSeq) : List AddrRange :=
  if ars.length = 0 then []
  else if ars.length = 1 then [⟨ars.offset, ars.offset + ars.limit⟩]
  else ars.rawHead.skip ars.offset :: ars.data.tail

/-- The ranges a sequence stands for: its raw ranges within the limit. -/
def view (ars : AddrRangeSeq) : List AddrRange := takeBytes ars.limit.toNat ars.rawRanges

/-- The representation invariant: an offset within the array's head, and a
limit within the bytes held. -/
structure Valid (ars : AddrRangeSeq) : Prop where
  offset_le : 2 ≤ ars.length → ars.offset ≤ ars.rawHead.length
  limit_le : ars.limit.toNat ≤ totalBytes ars.rawRanges

/-- A sequence limited to all the bytes it holds, as the constructors build it. -/
def Exact (ars : AddrRangeSeq) : Prop := ars.limit.toNat = totalBytes ars.rawRanges

variable {ars : AddrRangeSeq}

theorem rawRanges_of_zero (h : ars.length = 0) : ars.rawRanges = [] := by
  rw [rawRanges, if_pos h]

theorem rawRanges_of_one (h : ars.length = 1) :
    ars.rawRanges = [⟨ars.offset, ars.offset + ars.limit⟩] := by
  rw [rawRanges, if_neg (by omega), if_pos h]

theorem rawRanges_of_two_le (h : 2 ≤ ars.length) :
    ars.rawRanges = ars.rawHead.skip ars.offset :: ars.data.tail := by
  rw [rawRanges, if_neg (by omega), if_neg (by omega)]

theorem view_of_exact (hx : ars.Exact) : ars.view = ars.rawRanges :=
  takeBytes_of_totalBytes_le (Nat.le_of_eq hx.symm)

/-- A single inline range holds exactly its limit. -/
theorem exact_of_one (h : ars.length = 1) : ars.Exact := by
  rw [Exact, rawRanges_of_one h, totalBytes_cons, totalBytes_nil, AddrRange.length_mk_add]
  rfl

theorem valid_of_one (h : ars.length = 1) : ars.Valid :=
  ⟨fun h2 => absurd h2 (by omega), Nat.le_of_eq (exact_of_one h)⟩

theorem view_of_zero (h : ars.length = 0) : ars.view = [] := by
  rw [view, rawRanges_of_zero h]
  rfl

theorem empty_valid : empty.Valid := ⟨fun h => absurd h (by decide), by decide⟩

theorem empty_exact : empty.Exact := rfl

/-- `Head` is the first range of the view. -/
theorem head_view (h : ars.length ≠ 0) :
    ∃ r, ars.head = .ok r ∧ ars.view = r :: ars.view.tail := by
  by_cases h1 : ars.length = 1
  · refine ⟨⟨ars.offset, ars.offset + ars.limit⟩, by rw [head, if_neg h, if_pos h1], ?_⟩
    rw [view, rawRanges_of_one h1, takeBytes_cons, AddrRange.length_mk_add,
      if_neg (Nat.lt_irrefl _)]
    rfl
  · refine ⟨(ars.rawHead.skip ars.offset).keep ars.limit, by rw [head, if_neg h, if_neg h1], ?_⟩
    rw [view, rawRanges_of_two_le (by omega), takeBytes_cons, AddrRange.keep_eq]
    rfl

end AddrRangeSeq

/-! ### The constructors and `Tail` -/

section Build

open AddrRangeSeq

variable {slice : List AddrRange} {L : Int64}

theorem length_addrRangeSeqFromSliceLimited :
    (addrRangeSeqFromSliceLimited slice L).length = slice.length := by
  rcases slice with _ | ⟨r1, _ | ⟨r2, rs⟩⟩ <;> rfl

/-- An array of two or more ranges is held from its start. -/
theorem rawRanges_addrRangeSeqFromSliceLimited (r1 r2 : AddrRange) (rs : List AddrRange) :
    (addrRangeSeqFromSliceLimited (r1 :: r2 :: rs) L).rawRanges = r1 :: r2 :: rs := by
  simp [addrRangeSeqFromSliceLimited, rawRanges, rawHead, AddrRange.skip]

/-- A slice limited to at most its bytes stands for the slice cut there. -/
theorem view_addrRangeSeqFromSliceLimited (hL : L.toUInt64.toNat ≤ totalBytes slice) :
    (addrRangeSeqFromSliceLimited slice L).Valid ∧
      (addrRangeSeqFromSliceLimited slice L).view = takeBytes L.toUInt64.toNat slice := by
  rcases slice with _ | ⟨r, _ | ⟨r2, rs⟩⟩
  · exact ⟨empty_valid, rfl⟩
  · -- one range goes inline, already cut to the limit
    refine ⟨valid_of_one rfl, ?_⟩
    rw [totalBytes_cons, totalBytes_nil] at hL
    rw [view, rawRanges_of_one rfl]
    simp only [addrRangeSeqFromSliceLimited, takeBytes_cons, AddrRange.length_mk_add,
      Nat.lt_irrefl, if_false, takeBytes_nil]
    by_cases hlt : L.toUInt64.toNat < r.length.toNat
    · rw [if_pos hlt, UInt64.ofNat_toNat]
    · rw [if_neg hlt, show L.toUInt64 = r.length from
        UInt64.toNat_inj.mp (by omega), ← UInt64.ofNat_toNat (x := r.length),
        AddrRange.prefix_length]
  · have hraw := rawRanges_addrRangeSeqFromSliceLimited r r2 rs (L := L)
    refine ⟨⟨fun _ => UInt64.zero_le, by rw [hraw]; exact hL⟩, ?_⟩
    rw [view, hraw]
    rfl

/-- A slice limited to exactly its bytes stands for the slice. -/
theorem exact_addrRangeSeqFromSliceLimited (hL : L.toUInt64.toNat = totalBytes slice) :
    (addrRangeSeqFromSliceLimited slice L).Exact ∧
      (addrRangeSeqFromSliceLimited slice L).view = slice := by
  refine ⟨?_, ?_⟩
  · rcases slice with _ | ⟨r, _ | ⟨r2, rs⟩⟩
    · exact empty_exact
    · exact exact_of_one rfl
    · rw [Exact, rawRanges_addrRangeSeqFromSliceLimited]
      exact hL
  · rw [(view_addrRangeSeqFromSliceLimited (Nat.le_of_eq hL)).2, hL,
      takeBytes_of_totalBytes_le (Nat.le_refl _)]

end Build

/-- `externalTail`'s limit: what the limit leaves past the head, or nothing. -/
theorem toNat_tailLimit (a b : Addr) :
    (if a > b then (a - b).toInt64 else (0 : Int64)).toUInt64.toNat = a.toNat - b.toNat := by
  by_cases hab : a > b
  · rw [if_pos hab, UInt64.toUInt64_toInt64, UInt64.toNat_sub_of_le _ _ (UInt64.le_of_lt hab)]
  · have hzero : (0 : Int64).toUInt64.toNat = 0 := rfl
    rw [if_neg hab, hzero]
    have := UInt64.le_iff_toNat_le.mp (UInt64.not_lt.mp hab)
    omega

namespace AddrRangeSeq

variable {ars : AddrRangeSeq}

/-- The array past its head, limited to what the head leaves of the limit. -/
theorem externalTail_spec (hv : ars.Valid) (h2 : 2 ≤ ars.length) :
    ars.externalTail.Valid ∧ ars.externalTail.length + 1 = ars.length ∧
      ars.externalTail.view =
        takeBytes (ars.limit.toNat - (ars.rawHead.skip ars.offset).length.toNat) ars.data.tail ∧
      (ars.Exact → ars.externalTail.Exact) := by
  have hhead : (ars.rawHead.skip ars.offset).length = ars.rawHead.length - ars.offset :=
    AddrRange.length_skip_eq _
  have hlimit := hv.limit_le
  rw [rawRanges_of_two_le h2, totalBytes_cons] at hlimit
  have hL : (if ars.limit > ars.rawHead.length - ars.offset then
      (ars.limit - (ars.rawHead.length - ars.offset)).toInt64 else (0 : Int64)).toUInt64.toNat =
        ars.limit.toNat - (ars.rawHead.skip ars.offset).length.toNat := by
    rw [toNat_tailLimit, hhead]
  have hdata : ars.data.tail.length + 1 = ars.length := by
    rw [List.length_tail, ars.data_length h2]
    omega
  obtain ⟨hv', hview⟩ := view_addrRangeSeqFromSliceLimited
    (Nat.le_trans (Nat.le_of_eq hL) (show _ ≤ totalBytes ars.data.tail by omega))
  refine ⟨hv', by rw [externalTail, length_addrRangeSeqFromSliceLimited, hdata], ?_, ?_⟩
  · rw [externalTail, hview, hL]
  · intro hx
    rw [Exact, rawRanges_of_two_le h2, totalBytes_cons] at hx
    exact (exact_addrRangeSeqFromSliceLimited (hL.trans (show _ = totalBytes ars.data.tail by omega))).1

/-- `Tail` is the rest of the view. -/
theorem tail_spec (hv : ars.Valid) (h : ars.length ≠ 0) :
    ∃ t, ars.tail = .ok t ∧ t.Valid ∧ t.length + 1 = ars.length ∧ t.view = ars.view.tail ∧
      (ars.Exact → t.Exact) := by
  by_cases h1 : ars.length = 1
  · refine ⟨empty, by rw [tail, if_neg h, if_pos h1], empty_valid, by rw [h1]; rfl, ?_,
      fun _ => empty_exact⟩
    rw [view_of_zero rfl, view, rawRanges_of_one h1]
    rfl
  · obtain ⟨hv', hlen, hview, hx⟩ := externalTail_spec hv (by omega)
    refine ⟨ars.externalTail, by rw [tail, if_neg h, if_neg h1], hv', hlen, ?_, hx⟩
    rw [hview, view, rawRanges_of_two_le (by omega), takeBytes_cons]
    rfl

/-- Iterating `Head` and `Tail` lists the view. -/
theorem rangesFrom_eq_view {k : ℕ} :
    ∀ {ars : AddrRangeSeq}, ars.Valid → ars.length = k → rangesFrom k ars = ars.view := by
  induction k with
  | zero =>
    intro ars _ h
    rw [view_of_zero h]
    rfl
  | succ k ih =>
    intro ars hv h
    obtain ⟨r, hhead, hcons⟩ := head_view (show ars.length ≠ 0 by omega)
    obtain ⟨t, htail, hv', hlen, hview, -⟩ := tail_spec hv (by omega)
    have hne : ars.isEmpty = false := by simp [isEmpty, h]
    rw [rangesFrom, hne, if_neg Bool.false_ne_true, hhead, htail]
    dsimp only
    rw [ih hv' (by omega), hview, ← hcons]

theorem ranges_eq_view (hv : ars.Valid) : ars.ranges = ars.view :=
  rangesFrom_eq_view hv rfl

theorem limit_eq_totalBytes (hx : ars.Exact) : ars.limit.toNat = totalBytes ars.view := by
  rw [view_of_exact hx]
  exact hx

/-- Lowering the limit cuts the view. -/
theorem view_withLimit (hv : ars.Valid) {l : Addr} (hl : l ≤ ars.limit) :
    { ars with limit := l }.Valid ∧ { ars with limit := l }.view = takeBytes l.toNat ars.view := by
  have hl' := UInt64.le_iff_toNat_le.mp hl
  set t := { ars with limit := l } with ht
  by_cases h1 : ars.length = 1
  · -- the inline range is rebuilt from the limit
    have ht1 : t.length = 1 := h1
    refine ⟨valid_of_one ht1, ?_⟩
    rw [view_of_exact (exact_of_one ht1), view_of_exact (exact_of_one h1),
      rawRanges_of_one ht1, rawRanges_of_one h1, takeBytes_cons, AddrRange.length_mk_add]
    by_cases hlt : l.toNat < ars.limit.toNat
    · rw [if_pos hlt, UInt64.ofNat_toNat]
      rfl
    · obtain rfl : l = ars.limit := UInt64.toNat_inj.mp (by omega)
      rw [if_neg hlt]
      rfl
  · have hraw : t.rawRanges = ars.rawRanges := by
      simp only [ht, rawRanges, h1, if_false, rawHead]
    refine ⟨⟨hv.offset_le, ?_⟩, ?_⟩
    · rw [hraw]
      exact Nat.le_trans hl' hv.limit_le
    · rw [view, view, hraw, takeBytes_takeBytes, Nat.min_eq_left hl']

/-- `TakeFirst64` cuts the view to its first `n` bytes. -/
theorem takeFirst64_spec {n : Int64} (hv : ars.Valid) (hn : 0 ≤ n) :
    ∃ t, ars.takeFirst64 n = .ok t ∧ t.Valid ∧ t.view = takeBytes n.toInt.toNat ars.view := by
  have hnn := MachineInt.toNat_toUInt64_of_nonneg hn
  rw [takeFirst64, if_neg (Int64.not_lt.mpr hn)]
  by_cases hgt : ars.limit > n.toUInt64
  · rw [if_pos hgt, ← hnn]
    exact ⟨_, rfl, view_withLimit hv (UInt64.le_of_lt hgt)⟩
  · -- the limit is already within `n` bytes
    have hle := UInt64.le_iff_toNat_le.mp (UInt64.not_lt.mp hgt)
    rw [if_neg hgt, view, takeBytes_takeBytes, Nat.min_eq_right (by omega)]
    exact ⟨ars, rfl, hv, rfl⟩

/-- The head's length as `DropFirst64` reads it, on a sequence holding its
whole limit. -/
theorem headLen_eq (hx : ars.Exact) {r : AddrRange} {rs : List AddrRange}
    (hview : ars.view = r :: rs) :
    (if ars.length = 1 then ars.limit else ars.rawHead.length - ars.offset) = r.length := by
  rw [view_of_exact hx] at hview
  rcases Nat.lt_trichotomy ars.length 1 with h0 | h1 | h2
  · rw [rawRanges_of_zero (by omega)] at hview
    exact absurd hview.symm (List.cons_ne_nil _ _)
  · rw [rawRanges_of_one h1, List.cons.injEq] at hview
    rw [if_pos h1, ← hview.1, AddrRange.length_mk_add]
  · rw [rawRanges_of_two_le h2, List.cons.injEq] at hview
    rw [if_neg (by omega), ← hview.1, AddrRange.length_skip_eq]

/-- Dropping `k` bytes that end inside the head moves the offset past them. -/
theorem advance_spec (hv : ars.Valid) (hx : ars.Exact) {r : AddrRange} {rs : List AddrRange}
    (hview : ars.view = r :: rs) {k : Addr} (hk : k < r.length) :
    { ars with offset := ars.offset + k, limit := ars.limit - k }.Valid ∧
      { ars with offset := ars.offset + k, limit := ars.limit - k }.Exact ∧
      { ars with offset := ars.offset + k, limit := ars.limit - k }.view = r.skip k :: rs := by
  set d := { ars with offset := ars.offset + k, limit := ars.limit - k } with hd
  have hlimit := limit_eq_totalBytes hx
  rw [hview, totalBytes_cons] at hlimit
  have hk' := UInt64.lt_iff_toNat_lt.mp hk
  have hsub : (ars.limit - k).toNat = ars.limit.toNat - k.toNat :=
    UInt64.toNat_sub_of_le _ _ (UInt64.le_iff_toNat_le.mpr (by omega))
  rw [view_of_exact hx] at hview
  rcases Nat.lt_trichotomy ars.length 1 with h0 | h1 | h2
  · rw [rawRanges_of_zero (by omega)] at hview
    exact absurd hview.symm (List.cons_ne_nil _ _)
  · -- the inline range starts `k` bytes later and ends where it did
    rw [rawRanges_of_one h1, List.cons.injEq] at hview
    obtain ⟨rfl, rfl⟩ := hview
    have hd1 : d.length = 1 := h1
    refine ⟨valid_of_one hd1, exact_of_one hd1, ?_⟩
    rw [view_of_exact (exact_of_one hd1), rawRanges_of_one hd1]
    simp only [hd, AddrRange.skip, List.cons.injEq, AddrRange.mk.injEq, and_true, true_and]
    grind
  · rw [rawRanges_of_two_le h2, List.cons.injEq] at hview
    obtain ⟨rfl, rfl⟩ := hview
    have hhead : (ars.rawHead.skip ars.offset).length.toNat =
        ars.rawHead.length.toNat - ars.offset.toNat := by
      rw [AddrRange.length_skip_eq, UInt64.toNat_sub_of_le _ _ (hv.offset_le h2)]
    have hoff := UInt64.le_iff_toNat_le.mp (hv.offset_le h2)
    have hd2 : 2 ≤ d.length := h2
    have hraw : d.rawRanges = (ars.rawHead.skip ars.offset).skip k :: ars.data.tail := by
      rw [rawRanges_of_two_le hd2, AddrRange.skip_skip]
      rfl
    have hx' : d.Exact := by
      rw [Exact, hraw, totalBytes_cons, AddrRange.length_skip (UInt64.le_of_lt hk), hsub]
      omega
    refine ⟨⟨fun _ => ?_, Nat.le_of_eq hx'⟩, hx', by rw [view_of_exact hx', hraw]⟩
    have hlen := ars.rawHead.length.toNat_lt
    rw [UInt64.le_iff_toNat_le, UInt64.toNat_add, Nat.mod_eq_of_lt (by omega)]
    show ars.offset.toNat + k.toNat ≤ ars.rawHead.length.toNat
    omega

/-- A non-negative `int64` that is not zero counts some bytes. -/
theorem toNat_pos_of_ne {n : Int64} (hn : 0 ≤ n) (hn0 : n ≠ 0) : 0 < n.toInt.toNat := by
  have h0 := Int64.le_iff_toInt_le.mp hn
  have hne : n.toInt ≠ 0 := fun h => hn0 (Int64.toInt_inj.mp (h.trans Int64.toInt_zero.symm))
  rw [Int64.toInt_zero] at h0
  omega

/-- `DropFirst64`'s loop drops `n` bytes off the view of a sequence holding its
whole limit; a turn per range and one more suffice. The induction is on the
turns, with the sequence and the bytes still to drop generalised. -/
theorem dropLoop_spec {fuel : ℕ} :
    ∀ {ars : AddrRangeSeq} {n : Int64}, ars.Valid → ars.Exact → 0 ≤ n →
      n.toInt.toNat ≤ ars.limit.toNat → ars.length < fuel →
      ∃ d, dropLoop fuel ars n = .ok d ∧ d.Valid ∧ d.Exact ∧
        d.view = dropBytes n.toInt.toNat ars.view := by
  induction fuel with
  | zero => intro _ _ _ _ _ _ h; omega
  | succ fuel ih =>
    intro ars n hv hx hn hle hfuel
    have hlimit := limit_eq_totalBytes hx
    by_cases hn0 : n = 0
    · subst hn0
      exact ⟨ars, by rw [dropLoop, if_pos rfl], hv, hx, by simp⟩
    have hpos := toNat_pos_of_ne hn hn0
    by_cases hl0 : ars.length = 0
    · -- an empty sequence holds no bytes to drop
      rw [view_of_zero hl0] at hlimit
      simp at hlimit
      omega
    obtain ⟨r, -, hview⟩ := head_view hl0
    rw [dropLoop, if_neg hn0, if_neg hl0]
    dsimp only
    rw [headLen_eq hx hview]
    have hnn := MachineInt.toNat_toUInt64_of_nonneg hn
    rw [hview, totalBytes_cons] at hlimit
    rw [hview, dropBytes_cons, if_neg (show n.toInt.toNat ≠ 0 by omega)]
    by_cases hk : n.toUInt64 < r.length
    · -- the drop ends inside the head
      have hk' := UInt64.lt_iff_toNat_lt.mp hk
      rw [if_pos hk, if_pos (show n.toInt.toNat < r.length.toNat by omega), ← hnn,
        UInt64.ofNat_toNat]
      exact ⟨_, rfl, advance_spec hv hx hview hk⟩
    · -- the head is dropped whole and the loop goes on past it
      have hk' := UInt64.le_iff_toNat_le.mp (UInt64.not_lt.mp hk)
      rw [if_neg hk, if_neg (show ¬n.toInt.toNat < r.length.toNat by omega)]
      obtain ⟨t, htail, hvt, hlen, hviewt, hxt⟩ := tail_spec hv hl0
      rw [htail]
      dsimp only
      have hn63 := n.toInt_lt
      have hlenInt : r.length.toInt64.toInt = r.length.toNat := by
        rw [MachineInt.toInt_toInt64, if_pos (by omega)]
      have hsub : (n - r.length.toInt64).toInt = n.toInt - r.length.toNat := by
        rw [MachineInt.toInt_sub_of_range] <;> omega
      have hlimt := limit_eq_totalBytes (hxt hx)
      rw [hviewt, hview, List.tail_cons] at hlimt
      obtain ⟨d, hd, hvd, hxd, hviewd⟩ := ih hvt (hxt hx)
        (Int64.le_iff_toInt_le.mpr (by rw [hsub, Int64.toInt_zero]; omega))
        (by rw [hsub, hlimt]; omega) (by omega)
      refine ⟨d, hd, hvd, hxd, ?_⟩
      rw [hviewd, hviewt, hview, List.tail_cons, hsub]
      congr 1
      omega

/-- `DropFirst64` on a sequence holding its whole limit: an empty first range
goes, then `n` bytes, and nothing is left past the end. -/
theorem dropFirst64_spec {n : Int64} (hv : ars.Valid) (hx : ars.Exact) (hn : 0 ≤ n) :
    ∃ d, ars.dropFirst64 n = .ok d ∧ d.Valid ∧ d.view = dropSpec n.toInt.toNat ars.view := by
  have hnn := MachineInt.toNat_toUInt64_of_nonneg hn
  have hlimit := limit_eq_totalBytes hx
  rw [dropFirst64, if_neg (Int64.not_lt.mpr hn)]
  by_cases hgt : n.toUInt64 > ars.limit
  · -- past the end nothing is left
    have hgt' := UInt64.lt_iff_toNat_lt.mp hgt
    rw [if_pos hgt, dropSpec, if_pos (show totalBytes ars.view < n.toInt.toNat by omega)]
    exact ⟨empty, rfl, empty_valid, rfl⟩
  have hle := UInt64.le_iff_toNat_le.mp (UInt64.not_lt.mp hgt)
  rw [if_neg hgt, dropSpec, if_neg (show ¬totalBytes ars.view < n.toInt.toNat by omega)]
  by_cases hl0 : ars.length = 0
  · rw [if_pos hl0, view_of_zero hl0]
    exact ⟨empty, rfl, empty_valid, rfl⟩
  rw [if_neg hl0]
  obtain ⟨r, -, hview⟩ := head_view hl0
  by_cases h10 : ars.length = 1 ∧ ars.limit = 0
  · -- one inline range of no bytes: `n` is zero and the range goes
    rw [if_pos h10, hview]
    have hr : r.length = 0 := by
      rw [← headLen_eq hx hview, if_pos h10.1, h10.2]
    have htail : ars.view.tail = [] := by
      rw [view, rawRanges_of_one h10.1]
      rfl
    have hn0 : n.toInt.toNat = 0 := by
      rw [h10.2] at hle
      simp only [UInt64.toNat_zero, Nat.le_zero] at hle
      omega
    rw [dropEmptyHead, if_pos hr, htail, hn0]
    exact ⟨empty, rfl, empty_valid, rfl⟩
  rw [if_neg h10]
  dsimp only
  by_cases hused : ars.length ≠ 1 ∧ ars.rawHead.length = ars.offset
  · -- the array's head is used up: the loop starts at its second range
    rw [if_pos hused]
    have hr : r.length = 0 := by
      rw [← headLen_eq hx hview, if_neg hused.1, hused.2]
      simp
    obtain ⟨hv', hlen, hview', hx'⟩ := externalTail_spec hv (by omega)
    have hviewt : ars.externalTail.view = dropEmptyHead ars.view := by
      obtain ⟨t, htail, -, -, hviewt, -⟩ := tail_spec hv hl0
      rw [tail, if_neg hl0, if_neg hused.1] at htail
      cases htail
      rw [hviewt, hview, dropEmptyHead, if_pos hr, List.tail_cons]
    have hlimt := limit_eq_totalBytes (hx' hx)
    rw [hviewt, totalBytes_dropEmptyHead] at hlimt
    obtain ⟨d, hd, hvd, -, hviewd⟩ := dropLoop_spec hv' (hx' hx) hn (by omega) (Nat.lt_succ_self _)
    exact ⟨d, hd, hvd, by rw [hviewd, hviewt]⟩
  · -- the head holds bytes: the loop starts at it
    rw [if_neg hused]
    have hr : r.length ≠ 0 := by
      rw [← headLen_eq hx hview]
      by_cases h1 : ars.length = 1
      · rw [if_pos h1]
        exact fun h => h10 ⟨h1, h⟩
      · rw [if_neg h1]
        intro h
        exact hused ⟨h1, sub_eq_zero.mp h⟩
    obtain ⟨d, hd, hvd, -, hviewd⟩ := dropLoop_spec hv hx hn (by omega) (Nat.lt_succ_self _)
    refine ⟨d, hd, hvd, ?_⟩
    rw [hviewd, hview, dropEmptyHead, if_neg hr]

/-- `NumBytes` is the view's total while that fits an `int64`. -/
theorem numBytes_of_exact (hx : ars.Exact) (h : totalBytes ars.view < 2 ^ 63) :
    ars.numBytes.toInt = totalBytes ars.view := by
  rw [← limit_eq_totalBytes hx] at h ⊢
  rw [numBytes, MachineInt.toInt_toInt64, if_pos h]

end AddrRangeSeq

/-! ### What the constructors build -/

section Constructors

open AddrRangeSeq

theorem addrRangeSeqOf_spec (ar : AddrRange) :
    (addrRangeSeqOf ar).Valid ∧ (addrRangeSeqOf ar).Exact ∧ (addrRangeSeqOf ar).view = [ar] := by
  have hx : (addrRangeSeqOf ar).Exact := exact_of_one rfl
  refine ⟨valid_of_one rfl, hx, ?_⟩
  rw [view_of_exact hx, rawRanges_of_one rfl]
  exact congrArg (· :: []) AddrRange.mk_start_add_length

/-- One turn of `AddrRangeSeqFromSlice`'s sum: it panics exactly when the
total leaves `int64`, a length alone or the sum. -/
theorem sumLengths_cons {limit : Int64} (h0 : 0 ≤ limit.toInt) (ar : AddrRange)
    (ars : List AddrRange) :
    (2 ^ 63 ≤ limit.toInt + ar.length.toNat ∧ ∃ e, sumLengths limit (ar :: ars) = .error e) ∨
      (limit.toInt + ar.length.toNat < 2 ^ 63 ∧ ∃ s : Int64,
        s.toInt = limit.toInt + ar.length.toNat ∧ sumLengths limit (ar :: ars) = sumLengths s ars) := by
  have hlen := MachineInt.toInt_toInt64 ar.length
  have hlt := ar.length.toNat_lt
  by_cases hbig : 2 ^ 63 ≤ ar.length.toNat
  · -- the length alone overflows
    left
    have hneg : ar.length.toInt64 < 0 := by
      rw [Int64.lt_iff_toInt_lt, Int64.toInt_zero, hlen, if_neg (by omega)]
      omega
    exact ⟨by omega, .lengthOverflows, by rw [sumLengths, if_pos hneg]⟩
  have hlen' : ar.length.toInt64.toInt = ar.length.toNat := by
    rw [hlen, if_pos (by omega)]
  have hneg : ¬ar.length.toInt64 < 0 := by
    rw [Int64.lt_iff_toInt_lt, Int64.toInt_zero, hlen']
    omega
  have hsum := MachineInt.toInt_add_int64 limit ar.length.toInt64
  rw [hlen'] at hsum
  by_cases hover : 2 ^ 63 ≤ limit.toInt + ar.length.toNat
  · -- the sum wraps below the running total
    left
    have hwrap : limit + ar.length.toInt64 < limit := by
      rw [Int64.lt_iff_toInt_lt, hsum, if_neg (by omega), if_pos hover]
      omega
    refine ⟨hover, .totalOverflows, ?_⟩
    rw [sumLengths, if_neg hneg]
    dsimp only
    rw [if_pos hwrap]
  · right
    have hexact : (limit + ar.length.toInt64).toInt = limit.toInt + ar.length.toNat := by
      rw [hsum, if_neg (by omega), if_neg hover]
    have hnowrap : ¬limit + ar.length.toInt64 < limit := by
      rw [Int64.lt_iff_toInt_lt, hexact]
      omega
    refine ⟨by omega, _, hexact, ?_⟩
    rw [sumLengths, if_neg hneg]
    dsimp only
    rw [if_neg hnowrap]

theorem sumLengths_ok {slice : List AddrRange} :
    ∀ {limit s : Int64}, 0 ≤ limit.toInt → sumLengths limit slice = .ok s →
      s.toInt = limit.toInt + totalBytes slice := by
  induction slice with
  | nil =>
    intro limit s _ h
    cases h
    simp
  | cons ar ars ih =>
    intro limit s h0 h
    rcases sumLengths_cons h0 ar ars with ⟨-, e, he⟩ | ⟨-, s', hs', heq⟩
    · rw [he] at h
      cases h
    · rw [heq] at h
      rw [ih (by omega) h, hs', totalBytes_cons]
      push_cast
      omega

theorem sumLengths_error {slice : List AddrRange} :
    ∀ {limit : Int64} {e : Panic}, 0 ≤ limit.toInt → sumLengths limit slice = .error e →
      2 ^ 63 ≤ limit.toInt + totalBytes slice := by
  induction slice with
  | nil =>
    intro limit e _ h
    cases h
  | cons ar ars ih =>
    intro limit e h0 h
    rw [totalBytes_cons]
    push_cast
    rcases sumLengths_cons h0 ar ars with ⟨hover, -⟩ | ⟨-, s', hs', heq⟩
    · omega
    · rw [heq] at h
      have := ih (by omega) h
      omega

/-- `AddrRangeSeqFromSlice` panics exactly when the slice holds `2^63` bytes
or more. -/
theorem addrRangeSeqFromSlice_ok_iff (slice : List AddrRange) :
    (∃ ars, addrRangeSeqFromSlice slice = .ok ars) ↔ totalBytes slice < 2 ^ 63 := by
  rw [addrRangeSeqFromSlice]
  cases hs : sumLengths 0 slice with
  | error e =>
    have hsum := sumLengths_error (by simp) hs
    rw [Int64.toInt_zero, zero_add] at hsum
    refine ⟨fun ⟨_, h⟩ => ?_, fun h => absurd hsum (by omega)⟩
    cases h
  | ok s =>
    have hsum := sumLengths_ok (by simp) hs
    rw [Int64.toInt_zero, zero_add] at hsum
    have hs63 := s.toInt_lt
    exact ⟨fun _ => by omega, fun _ => ⟨_, rfl⟩⟩

/-- A sequence built from a slice stands for the slice and holds its whole limit. -/
theorem addrRangeSeqFromSlice_spec {slice : List AddrRange} {ars : AddrRangeSeq}
    (h : addrRangeSeqFromSlice slice = .ok ars) :
    ars.Valid ∧ ars.Exact ∧ ars.view = slice := by
  rw [addrRangeSeqFromSlice] at h
  cases hs : sumLengths 0 slice with
  | error e =>
    rw [hs] at h
    cases h
  | ok s =>
    rw [hs] at h
    cases h
    have hsum := sumLengths_ok (by simp) hs
    rw [Int64.toInt_zero, zero_add] at hsum
    have hs0 : 0 ≤ s := Int64.le_iff_toInt_le.mpr (by rw [Int64.toInt_zero, hsum]; omega)
    have hL : s.toUInt64.toNat = totalBytes slice := by
      rw [MachineInt.toNat_toUInt64_of_nonneg hs0, hsum, Int.toNat_natCast]
    obtain ⟨hx, hview⟩ := exact_addrRangeSeqFromSliceLimited hL
    exact ⟨(view_addrRangeSeqFromSliceLimited (Nat.le_of_eq hL)).1, hx, hview⟩

end Constructors

/-! ### The sequence operations against the list of ranges -/

open AddrRangeSeq in
/-- `AddrRangeSeqFromSlice` panics exactly on a slice of `2^63` bytes or more. For every sequence
`AddrRangeSeqOf` or `AddrRangeSeqFromSlice` builds, the ranges that `Head`/`Tail` iterate have
`NumBytes` bytes while that fits an `int64`, `TakeFirst64` cuts them to `n` bytes, and
`DropFirst64` drops an empty first range and then `n` bytes, leaving nothing past the end. -/
theorem addrRangeSeq_ops_refine {ars : AddrRangeSeq}
    (hbuilt : (∃ ar, addrRangeSeqOf ar = ars) ∨ ∃ slice, addrRangeSeqFromSlice slice = .ok ars)
    {n : Int64} (hn : 0 ≤ n) :
    (∀ slice : List AddrRange,
        (∃ ars', addrRangeSeqFromSlice slice = .ok ars') ↔ totalBytes slice < 2 ^ 63) ∧
      (totalBytes ars.ranges < 2 ^ 63 → ars.numBytes.toInt = totalBytes ars.ranges) ∧
      (∃ t, ars.takeFirst64 n = .ok t ∧ t.ranges = takeBytes n.toInt.toNat ars.ranges) ∧
      ∃ d, ars.dropFirst64 n = .ok d ∧ d.ranges = dropSpec n.toInt.toNat ars.ranges := by
  have hbase : ars.Valid ∧ ars.Exact := by
    rcases hbuilt with ⟨ar, rfl⟩ | ⟨slice, h⟩
    · exact ⟨(addrRangeSeqOf_spec ar).1, (addrRangeSeqOf_spec ar).2.1⟩
    · exact ⟨(addrRangeSeqFromSlice_spec h).1, (addrRangeSeqFromSlice_spec h).2.1⟩
  obtain ⟨hv, hx⟩ := hbase
  rw [ranges_eq_view hv]
  obtain ⟨t, ht, hvt, hviewt⟩ := takeFirst64_spec hv hn
  obtain ⟨d, hd, hvd, hviewd⟩ := dropFirst64_spec hv hx hn
  exact ⟨addrRangeSeqFromSlice_ok_iff, numBytes_of_exact hx,
    ⟨t, ht, by rw [ranges_eq_view hvt, hviewt]⟩, ⟨d, hd, by rw [ranges_eq_view hvd, hviewd]⟩⟩

open AddrRangeSeq in
/-- The refinement on the single range `[0, 5)` and on a slice whose first range is empty. -/
theorem addrRangeSeq_ops_refine_samples :
    ((0 : Int64) ≤ 2 ∧
      (∀ slice : List AddrRange,
        (∃ ars', addrRangeSeqFromSlice slice = .ok ars') ↔ totalBytes slice < 2 ^ 63) ∧
      (totalBytes (addrRangeSeqOf ⟨0, 5⟩).ranges < 2 ^ 63 →
        (addrRangeSeqOf ⟨0, 5⟩).numBytes.toInt = totalBytes (addrRangeSeqOf ⟨0, 5⟩).ranges) ∧
      (∃ t, (addrRangeSeqOf ⟨0, 5⟩).takeFirst64 2 = .ok t ∧
        t.ranges = takeBytes (2 : Int64).toInt.toNat (addrRangeSeqOf ⟨0, 5⟩).ranges) ∧
      ∃ d, (addrRangeSeqOf ⟨0, 5⟩).dropFirst64 2 = .ok d ∧
        d.ranges = dropSpec (2 : Int64).toInt.toNat (addrRangeSeqOf ⟨0, 5⟩).ranges) ∧
    ∃ ars, addrRangeSeqFromSlice [⟨0, 0⟩, ⟨5, 8⟩] = .ok ars ∧ (0 : Int64) ≤ 0 ∧
      (∀ slice : List AddrRange,
        (∃ ars', addrRangeSeqFromSlice slice = .ok ars') ↔ totalBytes slice < 2 ^ 63) ∧
      (totalBytes ars.ranges < 2 ^ 63 → ars.numBytes.toInt = totalBytes ars.ranges) ∧
      (∃ t, ars.takeFirst64 0 = .ok t ∧ t.ranges = takeBytes (0 : Int64).toInt.toNat ars.ranges) ∧
      ∃ d, ars.dropFirst64 0 = .ok d ∧ d.ranges = dropSpec (0 : Int64).toInt.toNat ars.ranges :=
  ⟨⟨by decide, addrRangeSeq_ops_refine (Or.inl ⟨_, rfl⟩) (by decide)⟩,
    ⟨_, rfl, by decide, addrRangeSeq_ops_refine (Or.inr ⟨[⟨0, 0⟩, ⟨5, 8⟩], rfl⟩) (by decide)⟩⟩

open AddrRangeSeq in
/-- `NumBytes` of one range of `2^63` bytes is negative; `DropFirst64` drops
only the first of two empty ranges, and keeps an empty range that the dropped
bytes reach. -/
theorem addrRangeSeq_ops_counterexample :
    (addrRangeSeqOf ⟨0, 9223372036854775808⟩).numBytes.toInt = -2 ^ 63 ∧
      totalBytes (addrRangeSeqOf ⟨0, 9223372036854775808⟩).ranges = 2 ^ 63 ∧
      ((addrRangeSeqFromSlice [⟨0, 0⟩, ⟨0, 0⟩, ⟨5, 8⟩]).bind (·.dropFirst64 0)).map ranges =
        .ok [⟨0, 0⟩, ⟨5, 8⟩] ∧
      ((addrRangeSeqFromSlice [⟨0, 5⟩, ⟨10, 10⟩, ⟨20, 23⟩]).bind (·.dropFirst64 5)).map ranges =
        .ok [⟨10, 10⟩, ⟨20, 23⟩] := by
  decide

end ContainerFS.Usermem
