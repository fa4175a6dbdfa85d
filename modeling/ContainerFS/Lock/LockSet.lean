import Mathlib
import ContainerFS.Segment.Set
import ContainerFS.Lib.MachineInt

/-!
POSIX byte-range locks (`pkg/sentry/fs/lock`). A `LockSet` is a segment set
over file offsets whose values are `Lock`s, a set of readers or one writer.
`LockSet.lock` first checks every segment that meets the range (`canLock`),
then fills the gaps of the range with new locks through `Insert`, splits the
segments at the range's ends and takes the lock on each segment in place;
`LockSet.unlock` isolates each segment the holder has in the range and drops
the holder from it.

The loops of `lock` and `unlock` go from segment to segment, each round
moving past one, and are modelled with fuel: one round for each segment of
the set and one more. `Lock.lock`'s panics, and those of the set's
operations, are errors.
-/

namespace ContainerFS.RangeLock

open ContainerFS.Segment ContainerFS.MachineInt

/-- `UniqueID`, the holder of a lock. -/
abbrev UniqueID := ℕ

inductive LockType where
  | readLock
  | writeLock
  deriving DecidableEq, Repr

/-- `LockEOF`, `math.MaxUint64`. -/
def lockEOF : ℕ := 2 ^ 64 - 1

/-- `Lock`: the keys of the map `Readers`, and the writer when `hasWriter`. -/
structure Lock where
  readers : Finset UniqueID
  hasWriter : Bool
  writer : UniqueID
  deriving DecidableEq

inductive LockPanic where
  /-- "lock: cannot downgrade write lock to read lock for uid %d, writer is %d" -/
  | cannotDowngrade
  /-- "lock: cannot upgrade read lock to write lock for uid %d, too many readers %v" -/
  | tooManyReaders
  /-- "lock: cannot upgrade read lock to write lock for uid %d, conflicting reader %v" -/
  | conflictingReader
  /-- "lock: r.Start %d > r.End %d" and "unlock: r.Start %d > r.End %d" -/
  | startAfterEnd
  /-- A panic of the segment set. -/
  | segment (e : SetPanic)
  /-- The loop ran out of rounds, which the code never does. -/
  | outOfFuel
  deriving DecidableEq

/-- `makeLock`: `uid` as the only reader or the only writer. -/
def makeLock (uid : UniqueID) : LockType → Lock
  | .readLock => ⟨{uid}, false, 0⟩
  | .writeLock => ⟨∅, true, uid⟩

namespace Lock

/-- The lock that a key outside every segment has: no holder. -/
def empty : Lock := ⟨∅, false, 0⟩

def isHeld (l : Lock) (uid : UniqueID) : Bool :=
  (l.hasWriter && l.writer == uid) || decide (uid ∈ l.readers)

/-- `Lock.lock`: `uid` made a holder of a lock of type `t`, a reader taking
the place of its own write lock and a writer that of its own read lock. -/
def lock (l : Lock) (uid : UniqueID) : LockType → Except LockPanic Lock
  | .readLock =>
    if uid ∈ l.readers then .ok l
    else if l.hasWriter then
      if l.writer ≠ uid then .error .cannotDowngrade
      -- the write lock is dropped, `Writer` keeps its stale value
      else .ok ⟨{uid}, false, l.writer⟩
    else .ok { l with readers := insert uid l.readers }
  | .writeLock =>
    if l.hasWriter ∧ l.writer = uid then .ok l
    else if 0 < l.readers.card ∧ l.readers.card ≠ 1 then .error .tooManyReaders
    else if 0 < l.readers.card ∧ uid ∉ l.readers then .error .conflictingReader
    else .ok ⟨∅, true, uid⟩

end Lock

/-- `lockSetFunctions`: keys from 0 to `math.MaxUint64`; two locks merge when
they have the same readers and the same writer, if any; a split copies the
lock. -/
def lockSetFunctions : Functions Lock where
  minKey := 0
  maxKey := 2 ^ 64 - 1
  merge _ val1 _ val2 :=
    if val1.readers.card ≠ val2.readers.card then none
    else if ¬ ∀ k ∈ val1.readers, k ∈ val2.readers then none
    else if val1.hasWriter ≠ val2.hasWriter then none
    else if val1.hasWriter ∧ val1.writer ≠ val2.writer then none
    else some val1
  split _ val _ := (val, val)

/-- `LockSet`: the segments of the set, in key order. -/
abbrev LockSet := List (Range × Lock)

namespace LockSet

open Segment.Set

/-- The loop of `lockable` over the segments from the first it checks on,
while they start before the end of `r`. -/
def lockableFrom (r : Range) (check : Lock → Bool) : LockSet → Bool
  | [] => true
  | (sr, value) :: rest => if sr.start < r.stop then check value && lockableFrom r check rest else true

/-- `lockable`: `check` holds of every segment from `LowerBoundSegment(r.Start)`
on that starts before the end of `r`. -/
def lockable (s : LockSet) (r : Range) (check : Lock → Bool) : Bool :=
  match lowerBoundSegment s r.start with
  | some i => lockableFrom r check (s.drop i)
  | none => true

/-- `canLock`: a reader needs no writer but `uid`; a writer needs either to be
`uid`'s own write lock or `uid` as the only reader. -/
def canLock (s : LockSet) (uid : UniqueID) (t : LockType) (r : Range) : Bool :=
  match t with
  | .readLock => s.lockable r fun value => !value.hasWriter || value.writer == uid
  | .writeLock => s.lockable r fun value =>
    if !value.hasWriter then value.readers.card == 1 && decide (uid ∈ value.readers)
    else value.writer == uid

/-- The loop of `lock` from the segment `i`: split the segment at the end of
`r` if it runs past it, take the lock on it, and fill the gap after it within
`r` with a new lock, going on past the segment that `Insert` returns. -/
def lockLoop (uid : UniqueID) (t : LockType) (r : Range) : ℕ → LockSet → ℕ → Except LockPanic LockSet
  | 0, _, _ => .error .outOfFuel
  | fuel + 1, s, i =>
    match s[i]? with
    | none => .ok s
    | some (sr, _) =>
      if sr.start < r.stop then
        let s := if sr.stop > r.stop then splitUnchecked lockSetFunctions s i r.stop else s
        match s[i]? with
        | none => .ok s
        | some (sr, value) =>
          match value.lock uid t with
          | .error e => .error e
          | .ok value =>
            let s := s.set i (sr, value)
            let gr := (gapRange lockSetFunctions s (i + 1)).intersect r
            if gr.length > 0 then
              match insert lockSetFunctions s (i + 1) gr (makeLock uid t) with
              | .error e => .error (.segment e)
              | .ok (s, j) => lockLoop uid t r fuel s (j + 1)
            else lockLoop uid t r fuel s (i + 1)
      else .ok s

/-- `LockSet.lock`: whether `uid` took a lock of type `t` on all of `r`, and
the set after it. -/
def lock (s : LockSet) (uid : UniqueID) (t : LockType) (r : Range) :
    Except LockPanic (Bool × LockSet) :=
  if r.start > r.stop then .error .startAfterEnd
  else if r.length = 0 then .ok (true, s)
  else if !s.canLock uid t r then .ok (false, s)
  else
    -- the starting point: the gap at `r.Start` filled, or the segment there
    -- split at `r.Start`
    let start : Except LockPanic (LockSet × ℕ) :=
      match find s r.start with
      | .gap g =>
        match insert lockSetFunctions s g ((gapRange lockSetFunctions s g).intersect r) (makeLock uid t) with
        | .error e => .error (.segment e)
        | .ok (s, j) => .ok (s, j + 1)
      | .segment i =>
        match s[i]? with
        | some (sr, _) =>
          if sr.start < r.start then
            match split lockSetFunctions s i r.start with
            | .error e => .error (.segment e)
            | .ok s => .ok (s, i + 1)
          else .ok (s, i)
        | none => .ok (s, i)
    match start with
    | .error e => .error e
    | .ok (s, i) =>
      match lockLoop uid t r (s.length + 1) s i with
      | .error e => .error e
      | .ok s => .ok (true, s)

/-- The loop of `unlock` from the segment `i`: a segment that `uid` holds is
isolated within `r`, then removed if `uid` was its writer or last reader, or
else left with the other readers. -/
def unlockLoop (uid : UniqueID) (r : Range) : ℕ → LockSet → ℕ → Except LockPanic LockSet
  | 0, _, _ => .error .outOfFuel
  | fuel + 1, s, i =>
    match s[i]? with
    | none => .ok s
    | some (sr, value) =>
      if sr.start < r.stop then
        if !value.isHeld uid then unlockLoop uid r fuel s (i + 1)
        else
          let (s, i) := isolate lockSetFunctions s i r
          match s[i]? with
          | none => .ok s
          | some (_, value) =>
            if (value.hasWriter ∧ value.writer = uid) ∨ (uid ∈ value.readers ∧ value.readers.card = 1) then
              unlockLoop uid r fuel (remove s i) i
            else if uid ∈ value.readers then
              unlockLoop uid r fuel (setValue s i ⟨value.readers.erase uid, false, 0⟩) (i + 1)
            else unlockLoop uid r fuel s (i + 1)
      else .ok s

/-- `LockSet.unlock`: `uid` drops its locks on `r`. -/
def unlock (s : LockSet) (uid : UniqueID) (r : Range) : Except LockPanic LockSet :=
  if r.start > r.stop then .error .startAfterEnd
  else if r.length = 0 then .ok s
  else
    match lowerBoundSegment s r.start with
    | none => .ok s
    | some i => unlockLoop uid r (s.length + 1) s i

/-- The lock that the key `k` has: that of the segment holding it, or none. -/
def lockAt (s : LockSet) (k : ℕ) : Lock :=
  match s.find? fun seg => seg.1.contains k with
  | some (_, value) => value
  | none => Lock.empty

end LockSet

/-- The write locks of uid 1 on [10, 20) and [30, 40), and then on [0, 100):
the last `lock` reports success, but the offsets [20, 30) stay unlocked. The
new lock on [0, 10) merges into the segment [10, 20), `Insert` returns that
segment, and `NextSegment` steps over the gap after it. -/
theorem lock_skips_gap :
    LockSet.lock [] 1 .writeLock ⟨10, 20⟩ = .ok (true, [(⟨10, 20⟩, makeLock 1 .writeLock)]) ∧
    LockSet.lock [(⟨10, 20⟩, makeLock 1 .writeLock)] 1 .writeLock ⟨30, 40⟩ =
      .ok (true, [(⟨10, 20⟩, makeLock 1 .writeLock), (⟨30, 40⟩, makeLock 1 .writeLock)]) ∧
    LockSet.lock [(⟨10, 20⟩, makeLock 1 .writeLock), (⟨30, 40⟩, makeLock 1 .writeLock)] 1 .writeLock
        ⟨0, 100⟩ =
      .ok (true, [(⟨0, 20⟩, makeLock 1 .writeLock), (⟨30, 100⟩, makeLock 1 .writeLock)]) ∧
    (LockSet.lockAt [(⟨0, 20⟩, makeLock 1 .writeLock), (⟨30, 100⟩, makeLock 1 .writeLock)] 25).isHeld 1 =
      false :=
  ⟨rfl, rfl, rfl, rfl⟩

/-! ### The range of an `fcntl` lock -/

/-- The errors `ComputeRange` returns. -/
inductive RangeErrno where
  | einval
  | eoverflow
  deriving DecidableEq, Repr

/-- `ComputeRange`: the range of an `fcntl` lock of `length` bytes from
`start`, taken relative to the file offset `offset`, in the source's wrapping
`int64` arithmetic; a `uint64` conversion reads the two's complement bits. -/
def computeRange (start length offset : Int64) : Except RangeErrno Range :=
  let offset := offset + start
  if offset < 0 then .error .einval
  else if length > 0 then .ok ⟨offset.toUInt64.toNat, (offset + length).toUInt64.toNat⟩
  else if length < 0 then
    let signedEnd := offset
    let offset := offset + length
    if offset < 0 then .error .einval
    else if signedEnd < offset then .error .eoverflow
    else .ok ⟨offset.toUInt64.toNat, signedEnd.toUInt64.toNat⟩
  else .ok ⟨offset.toUInt64.toNat, lockEOF⟩

/-- The interval `fcntl(2)` describes at the absolute offset `o` with
`l_len = length`, in exact arithmetic. -/
def fcntlInterval (o length : ℤ) : Range :=
  if 0 < length then ⟨o.toNat, (o + length).toNat⟩
  else if length = 0 then ⟨o.toNat, lockEOF⟩
  else ⟨(o + length).toNat, o.toNat⟩

/-- The locks `fcntl(2)` accepts: the absolute offset is a non-negative
`off_t`, and a negative length does not reach below offset zero. -/
def FcntlAccepts (o length : ℤ) : Prop := 0 ≤ o ∧ o < 2 ^ 63 ∧ (length < 0 → 0 ≤ o + length)

instance (o length : ℤ) : Decidable (FcntlAccepts o length) :=
  inferInstanceAs (Decidable (_ ∧ _))

/-- What `ComputeRange` is meant to return for the absolute offset `o`: the
`fcntl(2)` interval, never empty, exactly when `fcntl(2)` accepts the lock. -/
def RangeSpec (o length : ℤ) : Except RangeErrno Range → Prop
  | .ok r => FcntlAccepts o length ∧ r = fcntlInterval o length ∧ r.start < r.stop
  | .error _ => ¬FcntlAccepts o length

/-- `ComputeRange` returns the `fcntl(2)` interval, with `Start < End`, exactly
when `fcntl(2)` accepts the lock, for every non-negative file offset: the
wrapped sums it makes never change the answer. -/
theorem computeRange_spec (start length offset : Int64) (hoff : 0 ≤ offset.toInt) :
    RangeSpec (offset.toInt + start.toInt) length.toInt (computeRange start length offset) := by
  have hs := start.le_toInt
  have hs' := start.toInt_lt
  have hl := length.le_toInt
  have hl' := length.toInt_lt
  have ho' := offset.toInt_lt
  have hsum := toInt_add_int64 offset start
  have hlock : (2 : ℤ) ^ 63 < lockEOF := by simp [lockEOF]
  simp only [computeRange, Int64.lt_iff_toInt_lt, gt_iff_lt, Int64.toInt_zero]
  split_ifs with hneg hpos hnegl hneg' hover
  · -- the absolute offset is negative, or past `2^63 - 1` and wrapped
    simp only [RangeSpec, FcntlAccepts]
    split_ifs at hsum <;> omega
  · -- a positive length: the end is exact even where the `int64` sum wraps
    have hend := toNat_toUInt64 (offset + start + length)
    have hstart := toNat_toUInt64 (offset + start)
    have hsum2 := toInt_add_int64 (offset + start) length
    simp only [RangeSpec, FcntlAccepts, fcntlInterval, if_pos hpos, Range.mk.injEq]
    split_ifs at hsum hsum2 hend hstart <;> omega
  · -- a negative length reaching below offset zero
    have hsum2 := toInt_add_int64 (offset + start) length
    simp only [RangeSpec, FcntlAccepts]
    split_ifs at hsum hsum2 <;> omega
  · -- `signedEnd` is never below the lowered offset
    have hsum2 := toInt_add_int64 (offset + start) length
    split_ifs at hsum hsum2 <;> omega
  · have hend := toNat_toUInt64 (offset + start)
    have hstart := toNat_toUInt64 (offset + start + length)
    have hsum2 := toInt_add_int64 (offset + start) length
    simp only [RangeSpec, FcntlAccepts, fcntlInterval, if_neg hpos, if_neg (Int.ne_of_lt hnegl),
      Range.mk.injEq]
    split_ifs at hsum hsum2 hend hstart <;> omega
  · -- a zero length locks through `LockEOF`
    have hstart := toNat_toUInt64 (offset + start)
    have hzero : length.toInt = 0 := by omega
    have hinterval : fcntlInterval (offset.toInt + start.toInt) 0 =
        ⟨(offset.toInt + start.toInt).toNat, lockEOF⟩ := by
      simp [fcntlInterval]
    simp only [RangeSpec, FcntlAccepts, hzero, hinterval, Range.mk.injEq, and_true,
      lt_self_iff_false, false_implies]
    split_ifs at hsum hstart <;> omega

theorem computeRange_spec_seekEnd :
    0 ≤ (4096 : Int64).toInt ∧
      RangeSpec ((4096 : Int64).toInt + (-100 : Int64).toInt) (-50 : Int64).toInt
        (computeRange (-100) (-50) 4096) :=
  ⟨by decide, computeRange_spec (-100) (-50) 4096 (by decide)⟩

end ContainerFS.RangeLock
