import ContainerFS.Imgfs.Mount

/-!
The regular files of `imgfs`. An inode holds the whole mapped image as its
`mapArea` and the file's range `[offsetBegin, offsetEnd)` in it; its size is
the length of that range. A read at `offset` copies from the slice
`mapArea[offsetBegin + offset : offsetEnd]` into the destination, after
`fs.ReadEndOffset` has checked that the read is not empty.

Go's `int64` arithmetic is modelled on `ℤ`, with `toInt64` where a value can
wrap. The destination of a read is its length: `CopyOutFrom` calls
`ReadToBlocks` at most once, on all of it, and `CopySeq` fills it in order.
-/

namespace ContainerFS.Imgfs

/-- Go's conversion to `int64`: the integer modulo 2^64, in [-2^63, 2^63). -/
def toInt64 (x : ℤ) : ℤ := x.bmod (2 ^ 64)

/-- `fs.ReadEndOffset`: the end of a read of `length` bytes at `offset`, kept
from overflowing an `int64` and from passing `size`. -/
def readEndOffset (offset length size : ℤ) : ℤ :=
  if offset ≥ size then offset
  else
    let end_ := toInt64 (offset + length)
    if end_ < offset ∨ end_ > size then size else end_

/-- `fileInodeOperations`, with the fields that reads and mappings use. -/
structure FileInode where
  mapArea : List UInt8
  offsetBegin : ℤ
  offsetEnd : ℤ
  deriving DecidableEq, Repr

/-- `newInode` on the mapped image and a regular file's offsets. -/
def newInode (m : List UInt8) (offsets : ℤ × ℤ) : FileInode := ⟨m, offsets.1, offsets.2⟩

inductive IOError where
  /-- `io.EOF` -/
  | eof
  /-- A slice of `mapArea` out of its bounds, a Go runtime panic. -/
  | sliceOutOfRange
  deriving DecidableEq, Repr

/-- The Go slice expression `m[lo:hi]`. -/
def slice (m : List UInt8) (lo hi : ℤ) : Except IOError (List UInt8) :=
  if 0 ≤ lo ∧ lo ≤ hi ∧ hi ≤ m.length then .ok ((m.drop lo.toNat).take (hi - lo).toNat)
  else .error .sliceOutOfRange

/-- `safemem.CopySeq` from `src` into a destination of `dst` bytes: the bytes
it copies. -/
def copySeq (dst : ℕ) (src : List UInt8) : List UInt8 := src.take dst

namespace FileInode

/-- `attr.Size`, which `unstableAttr` sets to `offsetEnd - offsetBegin`. -/
def size (f : FileInode) : ℤ := f.offsetEnd - f.offsetBegin

/-- `ImgReader.ReadToBlocks` at `offset` into a destination of `dst` bytes:
the bytes it copies. -/
def readToBlocks (f : FileInode) (offset : ℤ) (dst : UInt64) : Except IOError (List UInt8) :=
  if offset ≥ f.size then .error .eof
  else if readEndOffset offset (toInt64 dst.toNat) f.size = offset then .ok []
  else (slice f.mapArea (f.offsetBegin + offset) f.offsetEnd).map (copySeq dst.toNat)

/-- `read` at `offset` into a destination of `dst` bytes: the bytes copied,
whose number is what `read` reports. -/
def read (f : FileInode) (dst : UInt64) (offset : ℤ) : Except IOError (List UInt8) :=
  if dst = 0 then .ok []
  else if offset ≥ f.size then .error .eof
  else f.readToBlocks offset dst

/-- The inode's range lies within its image. -/
structure Within (f : FileInode) : Prop where
  begin_nonneg : 0 ≤ f.offsetBegin
  begin_le_end : f.offsetBegin ≤ f.offsetEnd
  end_le_length : f.offsetEnd ≤ f.mapArea.length

end FileInode

/-- `platform.FileRange` and `memmap.MappableRange`: the `uint64` offsets
from `Start` up to `End`. -/
structure Range where
  start : ℕ
  stop : ℕ
  deriving DecidableEq, Repr

def Range.WellFormed (r : Range) : Prop := r.start ≤ r.stop

instance (r : Range) : Decidable r.WellFormed := inferInstanceAs (Decidable (r.start ≤ r.stop))

def Range.length (r : Range) : ℕ := r.stop - r.start

structure AccessType where
  read : Bool
  write : Bool
  execute : Bool
  deriving DecidableEq, Repr

/-- `memmap.Translation`: the mappable range `source` is backed by `file` from
`offset` on. -/
structure Translation where
  source : Range
  file : FileInode
  offset : ℕ
  deriving DecidableEq, Repr

inductive MapError where
  /-- `EACCES` -/
  | eacces
  /-- The panic "invalid range: %v". -/
  | invalidRange
  /-- The panic "invalid file offset, don't mmap directory inode". -/
  | invalidFileOffset
  /-- A slice of `mapArea` out of its bounds, a Go runtime panic. -/
  | sliceOutOfRange
  deriving DecidableEq, Repr

def pageSize : ℕ := 4096

namespace FileInode

/-- `MapInternal`: the bytes of `mapArea` it maps for the file range `fr`,
cut at the page boundary after `offsetEnd`. Sums of `uint64`s wrap. -/
def mapInternal (f : FileInode) (fr : Range) (access : AccessType) :
    Except MapError (List UInt8) :=
  if ¬ fr.WellFormed ∨ fr.length = 0 then .error .invalidRange
  else if access.execute then .error .eacces
  else if f.offsetBegin < 0 ∨ f.offsetEnd < 0 then .error .invalidFileOffset
  else
    let unsafeBegin : ℕ := (f.offsetBegin.toNat + fr.start) % 2 ^ 64
    let unsafeEnd : ℕ := (f.offsetBegin.toNat + fr.stop) % 2 ^ 64
    let boundary : ℕ := (f.offsetEnd.toNat / pageSize * pageSize + pageSize) % 2 ^ 64
    if unsafeBegin > boundary then .error .eacces
    else
      let unsafeEnd := if unsafeEnd > boundary then boundary else unsafeEnd
      match slice f.mapArea unsafeBegin unsafeEnd with
      | .ok bytes => .ok bytes
      | .error _ => .error .sliceOutOfRange

/-- `Translate`: the whole optional range, backed by the inode from the
range's own start. -/
def translate (f : FileInode) (_required optional : Range) (_access : AccessType) :
    List Translation :=
  [⟨optional, f, optional.start⟩]

/-- The bytes `AddressSpace.MapFile` maps for the file range `fr`: those of
the host file `FD()` names, from offset `fr.Start` (the ptrace platform's
`mmap` of the descriptor). `FD()` is `packageFD`, the image, whose bytes are
`mapArea`. -/
def mapFileBytes (f : FileInode) (fr : Range) : List UInt8 :=
  (f.mapArea.drop fr.start).take fr.length

end FileInode

/-! ### Reads -/

/-- A read of a nonempty destination inside the file is never empty: the
`int64` sum of the offset and the length moves off the offset. -/
theorem readEndOffset_ne {offset size : ℤ} {l : ℕ} (hlt : offset < size) (hl : 0 < l)
    (hl64 : l < 2 ^ 64) :
    readEndOffset offset (toInt64 l) size ≠ offset := by
  have hlt' : ¬ offset ≥ size := by omega
  rw [readEndOffset, if_neg hlt']
  simp only
  split_ifs with hclamp
  · omega
  · intro heq
    -- the sum wraps back onto `offset` only if the length is 0 modulo 2^64
    have hsum : (offset + toInt64 l) % ((2 ^ 64 : ℕ) : ℤ) = offset % ((2 ^ 64 : ℕ) : ℤ) := by
      rw [← Int.bmod_emod]
      exact congrArg (· % ((2 ^ 64 : ℕ) : ℤ)) heq
    have hlen : toInt64 l % ((2 ^ 64 : ℕ) : ℤ) = (l : ℤ) % ((2 ^ 64 : ℕ) : ℤ) := Int.bmod_emod
    push_cast at hsum hlen
    omega

theorem slice_eq {m : List UInt8} {lo hi : ℤ} (hlo : 0 ≤ lo) (hle : lo ≤ hi) (hhi : hi ≤ m.length) :
    slice m lo hi = .ok ((m.drop lo.toNat).take (hi - lo).toNat) := by
  rw [slice, if_pos ⟨hlo, hle, hhi⟩]

/-- The bytes of the file from `o` on are the image from `offsetBegin + o`
up to `offsetEnd`. -/
theorem drop_inodeBytes (m : List UInt8) {b e o : ℤ} (hb : 0 ≤ b) (ho : 0 ≤ o) (hoe : b + o ≤ e) :
    (inodeBytes m (b, e)).drop o.toNat = (m.drop (b + o).toNat).take (e - (b + o)).toNat := by
  rw [inodeBytes, List.drop_take, List.drop_drop]
  congr 2 <;> omega

namespace FileInode

/-- A read inside an inode that lies within its image: end of file at or
past the size, and otherwise the file's bytes from the offset on, as many as
the destination holds. The result depends on the image only through the
file's own bytes. -/
theorem read_eq {f : FileInode} (hf : f.Within) {o : ℤ} (ho : 0 ≤ o) {dst : UInt64}
    (hdst : dst ≠ 0) :
    f.read dst o =
      if f.size ≤ o then .error .eof
      else .ok (((inodeBytes f.mapArea (f.offsetBegin, f.offsetEnd)).drop o.toNat).take dst.toNat) := by
  obtain ⟨hb, hbe, he⟩ := hf
  rw [read, if_neg hdst]
  by_cases hsize : f.size ≤ o
  · rw [if_pos (ge_iff_le.mpr hsize), if_pos hsize]
  · rw [if_neg (by simpa using hsize), if_neg hsize, readToBlocks, if_neg (by simpa using hsize)]
    have hsz : f.size = f.offsetEnd - f.offsetBegin := rfl
    have hl : 0 < dst.toNat := by
      have : dst.toNat ≠ 0 := fun h => hdst (UInt64.toNat_inj.mp h)
      omega
    rw [if_neg (readEndOffset_ne (by omega) hl dst.toNat_lt),
      slice_eq (by omega) (by omega) he, drop_inodeBytes _ hb ho (by omega)]
    rfl

end FileInode

end ContainerFS.Imgfs
