import ContainerFS.Usermem.Page

/-!
The page cache fill of `pkg/sentry/fs/fsutil` (`file_range_set.go`). A `FileRangeSet` maps
offsets of a file to the offsets of the memory file that caches them; `Fill` caches the gaps
of a range, allocating memory with `MemoryFile.AllocateAndFill` (`pgalloc.go`) and reading the
file into it through `readAt`, called by a reader that `safemem.ReadFullToBlocks` drives.

A `readAt` call is a function of the file offset and of the destination's length, giving how
many bytes it copied and its error; the bytes it copies are the file's. The destination
`BlockSeq` is the one window of the memory file that `MapInternal` returns for the new range.
The memory file hands out fresh zeroed pages past what it ever allocated, and the pages that
`AllocateAndFill` gives back are not used again. The loops run on fuel, a run out of fuel
being an error that enough fuel rules out; the panics of the set and of `Allocate` are errors.

At end of file, `Fill`'s reader means to zero the rest of the page and to report success when
nothing else is left to read. It discards the `BlockSeq` that `DropFirst64` returns, so the
destination never looks empty there, and for a file whose size is not a multiple of the page
size `Fill` returns `io.EOF` for a range that it caches in full (`fill_eof_in_last_page`).
-/

namespace ContainerFS.Fsutil

open Segment Segment.Set Usermem

/-- The errors of `readAt`: `io.EOF`, or any other. -/
inductive ReadError where
  | eof
  | other
  deriving DecidableEq, Repr

/-- A `readAt` callback of `Fill`. -/
structure ReadAt where
  /-- How many bytes a call at file offset `off` copies into `len` bytes of destination, and
  its error. -/
  call : ℕ → ℕ → ℕ × Option ReadError
  /-- The file's bytes, which the calls copy. -/
  bytes : ℕ → UInt8

/-- The errors `Fill` returns: those of `readAt`, and `Allocate`'s `ENOMEM`. -/
inductive FillError where
  | read (e : ReadError)
  | enomem
  deriving DecidableEq, Repr

inductive FillPanic where
  /-- "invalid allocation length: %#x" -/
  | invalidAllocationLength
  /-- A panic of the segment set. -/
  | segment (p : SetPanic)
  /-- A loop ran out of rounds: `readAt` made no progress. -/
  | outOfFuel
  deriving DecidableEq, Repr

/-- `fileRangeSetFunctions`: two segments merge when the second's memory follows the first's. -/
def fileRangeSetFunctions : Functions ℕ where
  minKey := 0
  maxKey := 2 ^ 64 - 1
  merge mr1 frstart1 _ frstart2 := if frstart1 + mr1.length ≠ frstart2 then none else some frstart1
  split mr frstart split := (frstart, frstart + (split - mr.start))

/-- `FileRangeSet`: each segment holds the memory file offset of its first byte. -/
abbrev FileRangeSet := List (Range × ℕ)

/-- The part of a `MemoryFile` that `AllocateAndFill` uses: where fresh pages begin, and the
bytes. -/
structure MemoryFile where
  next : ℕ
  data : ℕ → UInt8

/-- `MemoryFile.Allocate`: `length` zeroed bytes at the end of what was allocated. -/
def MemoryFile.allocate (mf : MemoryFile) (length : ℕ) :
    Except FillPanic (Option (MemoryFile × Range)) :=
  if length = 0 ∨ length % pageSize ≠ 0 then .error .invalidAllocationLength
  else
    let start := mf.next
    let stop := start + length
    -- `end < start || int64(end) <= 0`
    if 2 ^ 63 ≤ stop then .ok none
    else .ok (some (⟨stop, fun a => if start ≤ a ∧ a < stop then 0 else mf.data a⟩, ⟨start, stop⟩))

/-- A destination `BlockSeq`: `length` bytes of the memory file from `start`. -/
structure Window where
  start : ℕ
  length : ℕ

def Window.dropFirst (w : Window) (n : ℕ) : Window := ⟨w.start + n, w.length - n⟩

/-- The memory file's bytes after a `readAt` call at file offset `off` copied `n` bytes
into `w`. -/
def copyIn (data : ℕ → UInt8) (w : Window) (r : ReadAt) (off n : ℕ) : ℕ → UInt8 :=
  fun a => if w.start ≤ a ∧ a < w.start + min n w.length then r.bytes (off + (a - w.start)) else data a

/-- A `safemem.Reader` over the memory file: the bytes after it, how many it read and its
error, or `none` when it did not return. -/
abbrev Reader := (ℕ → UInt8) → Window → Option ((ℕ → UInt8) × ℕ × Option ReadError)

/-- `safemem.ReadFullToBlocks`: the reader called until the destination is full or it fails. -/
def readFullToBlocks (read : Reader) :
    ℕ → (ℕ → UInt8) → Window → ℕ → Option ((ℕ → UInt8) × ℕ × Option ReadError)
  | 0, _, _, _ => none
  | fuel + 1, data, dsts, done =>
    if dsts.length = 0 then some (data, done, none)
    else
      match read data dsts with
      | none => none
      | some (data, n, err) =>
        match err with
        | some e => some (data, done + n, some e)
        | none => readFullToBlocks read fuel data (dsts.dropFirst n) (done + n)

/-- `MemoryFile.AllocateAndFill`: the memory filled, cut down to whole pages, and the reader's
error; the memory past the pages read goes back to the file. -/
def allocateAndFill (mf : MemoryFile) (length : ℕ) (read : Reader) :
    Except FillPanic (MemoryFile × Range × Option FillError) :=
  match mf.allocate length with
  | .error p => .error p
  | .ok none => .ok (mf, ⟨0, 0⟩, some .enomem)
  | .ok (some (mf, fr)) =>
    match readFullToBlocks read (length + 1) mf.data ⟨fr.start, length⟩ 0 with
    | none => .error .outOfFuel
    | some (data, n, err) =>
      let un := roundDown n
      let fr : Range := if un < length then ⟨fr.start, fr.start + un⟩ else fr
      .ok ({ mf with data }, fr, err.map .read)

/-- The reader `Fill` passes to `AllocateAndFill`, looping over its destination `dsts` with
`readAt` from the file offset `grStart + done`. -/
def fillReader (r : ReadAt) (grStart : ℕ) :
    ℕ → (ℕ → UInt8) → Window → ℕ → Option ((ℕ → UInt8) × ℕ × Option ReadError)
  | 0, _, _, _ => none
  | fuel + 1, data, dsts, done =>
    if dsts.length = 0 then some (data, done, none)
    else
      let (n, err) := r.call (grStart + done) dsts.length
      let data := copyIn data dsts r (grStart + done) n
      let done := done + n
      let dsts := dsts.dropFirst n
      match err with
      | none => fillReader r grStart fuel data dsts done
      | some e =>
        let (donepg, ok) := roundUp done
        if e = .eof ∧ ok = true ∧ donepg ≠ done then
          -- `dsts.DropFirst64(donepg - done)` is discarded: `dsts` is as it was
          if dsts.length = 0 then some (data, donepg, none) else some (data, donepg, some e)
        else some (data, done, some e)

/-- The loop of `Fill` from the gap `g`: each nonempty gap that starts before the end of
`required` is filled within `optional`, what was read is stored, and the loop goes on past it
unless the fill failed. -/
def fillLoop (required optional : Range) (r : ReadAt) :
    ℕ → FileRangeSet → MemoryFile → ℕ → Except FillPanic (FileRangeSet × MemoryFile × Option FillError)
  | 0, _, _, _ => .error .outOfFuel
  | fuel + 1, frs, mf, g =>
    let gap := gapRange fileRangeSetFunctions frs g
    if ¬(g ≤ frs.length ∧ gap.start < required.stop) then .ok (frs, mf, none)
    else if gap.length = 0 then fillLoop required optional r fuel frs mf (g + 1)
    else
      let gr := gap.intersect optional
      let read : Reader := fun data dsts => fillReader r gr.start (dsts.length + 1) data dsts 0
      match allocateAndFill mf gr.length read with
      | .error p => .error p
      | .ok (mf, fr, err) =>
        let stored : Except FillPanic (FileRangeSet × ℕ) :=
          if fr.length ≠ 0 then
            match insert fileRangeSetFunctions frs g ⟨gr.start, gr.start + fr.length⟩ fr.start with
            | .ok (frs, j) => .ok (frs, j + 1)
            | .error p => .error (.segment p)
          else .ok (frs, g)
        match stored with
        | .error p => .error p
        | .ok (frs, g) =>
          match err with
          | some e => .ok (frs, mf, some e)
          | none => fillLoop required optional r fuel frs mf g

/-- `FileRangeSet.Fill`: the set and memory file after it, and the error it returns. Each round
of the loop starts at a gap further on, so a round for each key below `required.stop` and one
more are enough. -/
def fill (frs : FileRangeSet) (required optional : Range) (mf : MemoryFile) (r : ReadAt) :
    Except FillPanic (FileRangeSet × MemoryFile × Option FillError) :=
  fillLoop required optional r (required.stop + 1) frs mf (lowerBoundGap frs required.start)

/-- `Allocate` of a nonzero whole number of pages hands out the pages from `next` on, zeroed. -/
theorem allocate_eq {mf : MemoryFile} {length : ℕ} (hl : length ≠ 0) (ha : length % pageSize = 0)
    (h : mf.next + length < 2 ^ 63) :
    mf.allocate length = .ok (some (⟨mf.next + length,
      fun a => if mf.next ≤ a ∧ a < mf.next + length then 0 else mf.data a⟩,
      ⟨mf.next, mf.next + length⟩)) := by
  simp only [MemoryFile.allocate, hl, ha, ne_eq, not_true_eq_false, or_self, ↓reduceIte,
    not_le.mpr h]

/-- A reader that fails on its first call ends `ReadFullToBlocks` there. -/
theorem readFullToBlocks_of_error {read : Reader} {fuel : ℕ} {data data' : ℕ → UInt8}
    {dsts : Window} {done n : ℕ} {e : ReadError} (hd : dsts.length ≠ 0)
    (hr : read data dsts = some (data', n, some e)) :
    readFullToBlocks read (fuel + 1) data dsts done = some (data', done + n, some e) := by
  simp only [readFullToBlocks, hd, ↓reduceIte, hr]

/-! ### Readers that behave as a file -/

/-- A `readAt` that behaves as a file of `size` bytes: a call copies no more than the
destination holds and nothing past the end of the file, copies something while there is
something to copy, reports `io.EOF` once the end is reached and no other error. -/
structure BehavesAsFile (r : ReadAt) (size : ℕ) : Prop where
  le_len : ∀ off len, (r.call off len).1 ≤ len
  le_size : ∀ off len, off ≤ size → off + (r.call off len).1 ≤ size
  progress : ∀ off len, off < size → 0 < len → 0 < (r.call off len).1
  eof_past_end : ∀ off len, size ≤ off → 0 < len → (r.call off len).2 = some .eof
  eof_at_end : ∀ off len, (r.call off len).2 = some .eof → size ≤ off + (r.call off len).1
  no_other : ∀ off len, (r.call off len).2 ≠ some .other

/-- The `readAt` of a file of `size` bytes that copies all the destination holds, or all that
is left, reporting `io.EOF` with a read that the end of the file cut short. -/
def fileOfSize (size : ℕ) (bytes : ℕ → UInt8) : ReadAt where
  call off len := (min len (size - off), if min len (size - off) < len then some .eof else none)
  bytes := bytes

theorem fileOfSize_behavesAsFile (size : ℕ) (bytes : ℕ → UInt8) :
    BehavesAsFile (fileOfSize size bytes) size where
  le_len off len := Nat.min_le_left _ _
  le_size off len h := by simp only [fileOfSize]; omega
  progress off len h hlen := by simp only [fileOfSize]; omega
  eof_past_end off len h hlen := by
    simp only [fileOfSize]
    rw [if_pos (by omega)]
  eof_at_end off len h := by
    simp only [fileOfSize] at h ⊢
    split_ifs at h with hlt
    · omega
  no_other off len := by simp only [fileOfSize]; split_ifs <;> simp

/-! ### The last page of a file -/

section LastPage

variable (size : ℕ) (bytes : ℕ → UInt8) (mf : MemoryFile)

/-- The page of a file that holds its end, when the size is not a multiple of the page. -/
def lastPage : Range := ⟨roundDown size, roundDown size + pageSize⟩

@[simp] theorem lastPage_start : (lastPage size).start = roundDown size := rfl

/-- On the last page of the file, `Fill`'s reader copies the bytes to the end of the file, and
rounding up to the page leaves its destination nonempty, so it reports `io.EOF`. -/
theorem fillReader_lastPage (hs : size % pageSize ≠ 0) (data : ℕ → UInt8) (start : ℕ) :
    fillReader (fileOfSize size bytes) (roundDown size) (pageSize + 1) data ⟨start, pageSize⟩ 0 =
      some (copyIn data ⟨start, pageSize⟩ (fileOfSize size bytes) (roundDown size) (size % pageSize),
        pageSize, some .eof) := by
  have hread : size - roundDown size = size % pageSize := by
    unfold roundDown; have := Nat.mod_add_div size pageSize; rw [Nat.mul_comm] at this; omega
  have hlt : size % pageSize < pageSize := Nat.mod_lt _ (by decide)
  have hup : roundUp (size % pageSize) = (pageSize, true) := by
    rw [roundUp_of_le (by unfold pageSize at hlt ⊢; omega)]
    congr 1
    unfold pageCeil
    unfold pageSize at hs hlt ⊢
    omega
  simp only [fillReader, fileOfSize, Nat.add_zero, hread, Nat.min_eq_right hlt.le, if_pos hlt,
    Window.dropFirst, zero_add, hup]
  simp only [show pageSize ≠ 0 from by decide, ↓reduceIte, true_and, Ne, hlt.ne', not_false_eq_true,
    Nat.sub_eq_zero_iff_le, not_le.mpr hlt]

/-- `AllocateAndFill` of the last page: the whole page is kept, with `io.EOF`. -/
theorem allocateAndFill_lastPage (hs : size % pageSize ≠ 0) (hmf : mf.next + pageSize < 2 ^ 63) :
    ∃ mf', allocateAndFill mf pageSize
      (fun data dsts => fillReader (fileOfSize size bytes) (roundDown size) (dsts.length + 1)
        data dsts 0) =
      .ok (mf', ⟨mf.next, mf.next + pageSize⟩, some (.read .eof)) := by
  apply Exists.intro
  unfold allocateAndFill
  rw [@allocate_eq mf pageSize (by decide) (Nat.mod_self _) hmf]
  dsimp only
  rw [readFullToBlocks_of_error (show pageSize ≠ 0 by decide)
    (fillReader_lastPage size bytes hs _ _)]
  simp only [Nat.zero_add, roundDown_of_aligned (Nat.mod_self pageSize), lt_self_iff_false,
    ↓reduceIte, Option.map_some]
  rfl

/-- With the last page of a file of `size` bytes, `size` not a multiple of the page, as both
the required and the optional range of an empty cache, `Fill` caches the whole page and yet
returns `io.EOF`, although the page lies below `roundUp(size)` and `readAt` reports no error
but `io.EOF`: the reader's `DropFirst64` is discarded, so it never sees an empty destination
and returns the error with the page it rounded up to. -/
theorem fill_eof_in_last_page (hs : size % pageSize ≠ 0) (hsize : size < 2 ^ 62)
    (hmf : mf.next < 2 ^ 62) :
    BehavesAsFile (fileOfSize size bytes) size ∧
      (lastPage size).stop = (roundUp size).1 ∧
      ∃ mf', fill [] (lastPage size) (lastPage size) mf (fileOfSize size bytes) =
        .ok ([(lastPage size, mf.next)], mf', some (.read .eof)) := by
  refine ⟨fileOfSize_behavesAsFile size bytes, ?_, ?_⟩
  · rw [roundUp_of_le (by unfold pageSize; omega)]
    simp only [lastPage, pageCeil, roundDown]
    unfold pageSize at hs ⊢
    omega
  -- the empty set's one gap holds the page, which `Fill` reads as a whole
  have hgap : (gapRange fileRangeSetFunctions [] 0).start < (lastPage size).stop ∧
      (gapRange fileRangeSetFunctions [] 0).length ≠ 0 := by
    simp [gapRange_nil, fileRangeSetFunctions, Range.length, lastPage, pageSize]
  have hgr : (gapRange fileRangeSetFunctions [] 0).intersect (lastPage size) = lastPage size := by
    apply Range.intersect_eq_right <;>
      simp only [gapRange_nil, fileRangeSetFunctions, lastPage, roundDown, pageSize] <;> omega
  have hlen : (lastPage size).length = pageSize := by simp [lastPage, Range.length]
  obtain ⟨mf', hfilled⟩ := allocateAndFill_lastPage size bytes mf hs (by unfold pageSize; omega)
  have hfr : (⟨mf.next, mf.next + pageSize⟩ : Range).length = pageSize := by simp [Range.length]
  have hpage : (⟨roundDown size, roundDown size + pageSize⟩ : Range) = lastPage size := rfl
  simp only [fill, lowerBoundGap, find, fillLoop, hgr, hlen, lastPage_start, hfilled, hgap, hfr,
    hpage, insert_nil _ (hlen ▸ show pageSize ≠ 0 by decide)]
  exact ⟨mf', rfl⟩

/-- The last page of a file of 100 bytes, cached from an empty memory file. -/
theorem fill_eof_in_last_page_hundred :
    (100 % pageSize ≠ 0 ∧ 100 < 2 ^ 62 ∧ (⟨0, fun _ => 0⟩ : MemoryFile).next < 2 ^ 62) ∧
      (BehavesAsFile (fileOfSize 100 fun _ => 7) 100 ∧
        (lastPage 100).stop = (roundUp 100).1 ∧
        ∃ mf', fill [] (lastPage 100) (lastPage 100) ⟨0, fun _ => 0⟩ (fileOfSize 100 fun _ => 7) =
          .ok ([(lastPage 100, 0)], mf', some (.read .eof))) :=
  ⟨⟨by decide, by omega, Nat.two_pow_pos 62⟩,
    fill_eof_in_last_page 100 (fun _ => 7) ⟨0, fun _ => 0⟩ (by decide) (by omega)
      (Nat.two_pow_pos 62)⟩

end LastPage

end ContainerFS.Fsutil
