import Mathlib
import ContainerFS.Lib.Wire

/-!
The ELF loader (`pkg/sentry/loader/elf.go`): `parseHeader` reads and checks
the header and the program headers, `loadParsedELF` lays the `PT_LOAD`
segments out, reserves a region for a shared object and maps each segment
with `mapSegment`.

The file and the memory manager are given by what their calls return: a read
of `n` bytes at an offset (what `readFull` returns), and the results of
`ConfigureMMap`, `MMap`, `MUnmap` and `ZeroOut`. A load is a computation that
records these calls, can fail with an error, and can panic.

After the reservation, the entry point is moved by the load offset; when that
sum overflows, `loadParsedELF` returns the `err` of the reservation, which is
`nil` there: the load succeeds with an empty result and maps no segment. The
sums for the start and the end panic instead.
-/

namespace ContainerFS.Loader

open ContainerFS.Wire

/-- The errors of the loader: `ENOEXEC`, `EACCES`, `ELIBBAD`; `eof` is
`io.EOF` or `io.ErrUnexpectedEOF` from a read; `other` an error of the file
or the memory manager, returned as it is. -/
inductive Errno where
  | enoexec
  | eacces
  | elibbad
  | eof
  | other (code : ℕ)
  deriving DecidableEq, Repr

def pageSize : UInt64 := 4096

/-- `maxTotalPhdrSize`, one page. -/
def maxTotalPhdrSize : ℕ := 4096

/-- `header64Size`, the size of `elf.Header64`. -/
def header64Size : ℕ := 64

/-- `prog64Size`, the size of `elf.Prog64`. -/
def prog64Size : ℕ := 56

def pathMax : UInt64 := 4096

def ptLoad : UInt32 := 1

def ptInterp : UInt32 := 3

/-! ### Addresses -/

/-- `Addr.AddLength`: the sum, and whether it did not wrap. -/
def addLength (v length : UInt64) : UInt64 × Bool := (v + length, v + length ≥ v)

/-- `Addr.RoundUp`: `v` rounded up to a page, and whether that did not wrap. -/
def roundUp (v : UInt64) : UInt64 × Bool :=
  let addr := (v + pageSize - 1) &&& ~~~(pageSize - 1)
  (addr, addr ≥ v)

def pageOffset (v : UInt64) : UInt64 := v &&& (pageSize - 1)

/-! ### The file and the memory manager -/

/-- A file as the loader reads it: `readFull` of `n` bytes at an offset. -/
abbrev File := ℤ → ℕ → Except Errno (List UInt8)

/-- A regular file holding `data`: a read inside it gets its bytes, and one
that reaches past the end gets `io.ErrUnexpectedEOF` or `io.EOF`. -/
def fileOf (data : List UInt8) : File := fun off n =>
  if 0 ≤ off ∧ off.toNat + n ≤ data.length then .ok ((data.drop off.toNat).take n) else .error .eof

structure AccessType where
  read : Bool
  write : Bool
  execute : Bool
  deriving DecidableEq, Repr

/-- `memmap.MMapOpts`, the fields the loader sets; `MaxPerms` is always
`AnyAccess` and is left out. -/
structure MMapOpts where
  length : UInt64
  offset : UInt64
  addr : UInt64
  fixed : Bool
  unmap : Bool
  isPrivate : Bool
  perms : AccessType
  deriving DecidableEq, Repr

/-- A call of the loader on the memory manager or the file. -/
inductive Call where
  | configureMMap (opts : MMapOpts)
  | mmap (opts : MMapOpts)
  | munmap (addr length : UInt64)
  | zeroOut (addr : UInt64) (size : Int64)
  deriving DecidableEq, Repr

/-- What the memory manager and the file's `ConfigureMMap` return. -/
structure MM where
  configureMMap : MMapOpts → Except Errno Unit
  mmap : MMapOpts → Except Errno UInt64
  munmap : UInt64 → UInt64 → Except Errno Unit
  zeroOut : UInt64 → Int64 → Except Errno Unit

/-- A computation of the loader: it records its calls, may return an error,
and may panic (`none`). -/
abbrev LoadM := ExceptT Errno (StateT (List Call) Option)

def panic {α : Type} : LoadM α := ExceptT.lift (StateT.lift none)

/-- A call on the memory manager with what it returns. -/
def perform {α : Type} (c : Call) (r : Except Errno α) : LoadM α := do
  modify (· ++ [c])
  liftExcept r

/-! ### `parseHeader` -/

structure ProgHeader where
  type : UInt32
  flags : UInt32
  off : UInt64
  vaddr : UInt64
  paddr : UInt64
  filesz : UInt64
  memsz : UInt64
  align : UInt64
  deriving DecidableEq, Repr

/-- `elfInfo`; the OS and the architecture are always Linux and AMD64. -/
structure ElfInfo where
  entry : UInt64
  phdrs : List ProgHeader
  phdrSize : ℕ
  phdrOff : UInt64
  sharedObject : Bool
  deriving DecidableEq, Repr

/-- The bytes `[i, i + n)`. -/
def field (bs : List UInt8) (i n : ℕ) : List UInt8 := (bs.drop i).take n

/-- `binary.Unmarshal` of an `elf.Prog64`. -/
def prog64 (bs : List UInt8) : ProgHeader :=
  ⟨uint32 (field bs 0 4), uint32 (field bs 4 4), uint64 (field bs 8 8), uint64 (field bs 16 8),
    uint64 (field bs 24 8), uint64 (field bs 32 8), uint64 (field bs 40 8), uint64 (field bs 48 8)⟩

/-- The program headers, one per `prog64Size` bytes. -/
def progHeaders (bs : List UInt8) : ℕ → List ProgHeader
  | 0 => []
  | n + 1 => prog64 (bs.take prog64Size) :: progHeaders (bs.drop prog64Size) n

/-- A failed read: the end of the file means the file is not an executable. -/
def readError (e : Errno) : Errno := if e = .eof then .enoexec else e

def parseHeader (f : File) : Except Errno ElfInfo := do
  let ident ← (f 0 16).mapError readError
  if field ident 0 4 ≠ [0x7f, 0x45, 0x4c, 0x46] then throw .enoexec
  -- 64-bit little endian, of the current version
  if ident.getD 4 0 ≠ 2 then throw .enoexec
  if ident.getD 5 0 ≠ 1 then throw .enoexec
  if ident.getD 6 0 ≠ 1 then throw .enoexec
  let hdr ← (f 0 header64Size).mapError readError
  -- amd64
  if uint16 (field hdr 18 2) ≠ 62 then throw .enoexec
  let type := uint16 (field hdr 16 2)
  let sharedObject ← if type = 2 then pure false
    else if type = 3 then pure true
    else throw .enoexec
  if (uint16 (field hdr 54 2)).toNat ≠ prog64Size then throw .enoexec
  let phnum := (uint16 (field hdr 56 2)).toNat
  let totalPhdrSize := prog64Size * phnum
  if totalPhdrSize < prog64Size then throw .enoexec
  if totalPhdrSize > maxTotalPhdrSize then throw .enoexec
  let phoff := uint64 (field hdr 32 8)
  let phdrBuf ← (f phoff.toInt64.toInt totalPhdrSize).mapError readError
  pure ⟨uint64 (field hdr 24 8), progHeaders phdrBuf phnum, prog64Size, phoff, sharedObject⟩

/-! ### `mapSegment` -/

def progFlagsAsPerms (f : UInt32) : AccessType :=
  ⟨f &&& 4 = 4, f &&& 2 = 2, f &&& 1 = 1⟩

/-- `mapSegment`: map `phdr` at `offset + phdr.Vaddr`. -/
def mapSegment (mm : MM) (phdr : ProgHeader) (offset : UInt64) : LoadM Unit := do
  -- the offsets of the address and of the file in their page must match
  let adjust := pageOffset phdr.vaddr
  if adjust ≠ pageOffset phdr.off then throw .enoexec
  let (addr, ok) := addLength offset phdr.vaddr
  if !ok then throw .enoexec
  let addr := addr - adjust
  let fileOffset := phdr.off - adjust
  let fileSize := phdr.filesz + adjust
  if fileSize < phdr.filesz then throw .enoexec
  let memSize := phdr.memsz + adjust
  if memSize < phdr.memsz then throw .enoexec
  let (mapSize, ok) := roundUp fileSize
  if !ok then throw .enoexec
  let prot := progFlagsAsPerms phdr.flags
  let mopts : MMapOpts := ⟨mapSize, fileOffset, addr, true, true, true, prot⟩
  perform (.configureMMap mopts) (mm.configureMMap mopts)
  let _ ← perform (.mmap mopts) (mm.mmap mopts)
  -- the end of the last page beyond the file's bytes is cleared
  if mapSize > fileSize then
    let (zeroAddr, ok) := addLength addr fileSize
    if !ok then panic
    let zeroSize := (mapSize - fileSize).toInt64
    if zeroSize < 0 then panic
    perform (.zeroOut zeroAddr zeroSize) (mm.zeroOut zeroAddr zeroSize)
  -- the rest of the segment is anonymous memory
  if mapSize < memSize then
    let (anonAddr, ok) := addLength addr mapSize
    if !ok then panic
    let (anonSize, ok) := roundUp (memSize - mapSize)
    if !ok then throw .enoexec
    let aopts : MMapOpts := ⟨anonSize, 0, anonAddr, true, false, true, prot⟩
    let _ ← perform (.mmap aopts) (mm.mmap aopts)

/-! ### `loadParsedELF` -/

/-- `loadedELF`, without the auxiliary vector that `loadELF` adds. -/
structure LoadedELF where
  entry : UInt64
  start : UInt64
  stop : UInt64
  interpreter : List UInt8
  phdrAddr : UInt64
  phdrSize : ℕ
  phdrNum : ℕ
  deriving DecidableEq, Repr, Inhabited

/-- The layout the first loop of `loadParsedELF` collects: whether it has met a
`PT_LOAD` segment, `start`, `end` and the interpreter. -/
structure Layout where
  first : Bool
  start : UInt64
  stop : UInt64
  interpreter : List UInt8
  deriving DecidableEq, Repr

/-- One program header in the first loop of `loadParsedELF`. -/
def layoutStep (f : File) (l : Layout) (phdr : ProgHeader) : Except Errno Layout :=
  if phdr.type = ptLoad then do
    let vaddr := phdr.vaddr
    let l := if l.first then { l with first := false, start := vaddr } else l
    -- the segments must come in order
    if vaddr < l.stop then throw .enoexec
    let (stop, ok) := addLength vaddr phdr.memsz
    if !ok then throw .enoexec
    pure { l with stop := stop }
  else if phdr.type = ptInterp then do
    if phdr.filesz < 2 then throw .enoexec
    if phdr.filesz > pathMax then throw .enoexec
    let path ← (f phdr.off.toInt64.toInt phdr.filesz.toNat).mapError fun _ => .enoexec
    if path.getLastD 0 ≠ 0 then throw .enoexec
    let interpreter := path.takeWhile (· ≠ 0)
    if interpreter = [] then throw .eacces
    pure { l with interpreter := interpreter }
  else pure l

def loadParsedELF (mm : MM) (f : File) (info : ElfInfo) (sharedLoadOffset : UInt64) :
    LoadM LoadedELF := do
  let l ← liftExcept (info.phdrs.foldlM (layoutStep f) ⟨true, 0, 0, []⟩)
  let mut start := l.start
  let mut stop := l.stop
  let mut entry := info.entry
  let mut offset : UInt64 := 0
  if info.sharedObject then
    -- a region for all the segments, reserved and released again
    let (totalSize, ok) := roundUp (stop - start)
    if !ok then throw .enoexec
    let ropts : MMapOpts := ⟨totalSize, 0, sharedLoadOffset, false, false, true, ⟨false, false, false⟩⟩
    offset ← perform (.mmap ropts) (mm.mmap ropts)
    match mm.munmap offset totalSize with
    | .error _ => panic
    | .ok () => modify (· ++ [.munmap offset totalSize])
    let (s, ok) := addLength start offset
    if !ok then panic
    start := s
    let (e, ok) := addLength stop offset
    if !ok then panic
    stop := e
    let (en, ok) := addLength entry offset
    -- `return loadedELF{}, err`, where `err` is the reservation's, which is nil
    if !ok then return default
    entry := en
  for phdr in info.phdrs do
    if phdr.type = ptLoad ∧ phdr.memsz ≠ 0 then mapSegment mm phdr offset
  let (phdrAddr, ok) := addLength start info.phdrOff
  pure ⟨entry, start, stop, l.interpreter, if ok then phdrAddr else 0, info.phdrSize,
    info.phdrs.length⟩

/-- `loadInitialELF`, from the PIE load address of the layout that
`SetMmapLayout` made (or its error). -/
def loadInitialELF (mm : MM) (f : File) (pieLoadAddress : Except Errno UInt64) :
    LoadM LoadedELF := do
  let info ← liftExcept (parseHeader f)
  let base ← liftExcept pieLoadAddress
  loadParsedELF mm f info base

/-- `loadInterpreterELF`; the OS and the architecture are those of every ELF
that `parseHeader` accepts. -/
def loadInterpreterELF (mm : MM) (f : File) : LoadM LoadedELF := do
  let info ← liftExcept ((parseHeader f).mapError fun e => if e = .enoexec then .elibbad else e)
  loadParsedELF mm f info 0

/-! ### The load offset of a shared object -/

/-- The reservation `loadParsedELF` makes for a shared object whose segments
span `size` bytes. -/
def reservation (size base : UInt64) : MMapOpts :=
  ⟨(roundUp size).1, 0, base, false, false, true, ⟨false, false, false⟩⟩

section Offset

variable {mm : MM} {f : File} {info : ElfInfo} {base : UInt64} {l : Layout} {offset : UInt64}

/-- When the entry point overflows with the load offset, `loadParsedELF`
returns the empty result with no error, having reserved and released the
region and mapped no segment. -/
theorem loadParsedELF_entry_overflow
    (hl : info.phdrs.foldlM (layoutStep f) ⟨true, 0, 0, []⟩ = .ok l)
    (hshared : info.sharedObject = true) (hround : (roundUp (l.stop - l.start)).2 = true)
    (hmmap : mm.mmap (reservation (l.stop - l.start) base) = .ok offset)
    (hunmap : mm.munmap offset (roundUp (l.stop - l.start)).1 = .ok ())
    (hstart : (addLength l.start offset).2 = true) (hstop : (addLength l.stop offset).2 = true)
    (hentry : (addLength info.entry offset).2 = false) :
    (loadParsedELF mm f info base).run.run [] =
      some (.ok default, [.mmap (reservation (l.stop - l.start) base),
        .munmap offset (roundUp (l.stop - l.start)).1]) := by
  simp only [reservation] at hmmap
  simp [loadParsedELF, hl, hshared, hround, hmmap, hunmap, hstart, hstop, hentry, perform,
    liftExcept]
  rfl

/-- When the start of the segments overflows with the load offset,
`loadParsedELF` panics. -/
theorem loadParsedELF_start_overflow
    (hl : info.phdrs.foldlM (layoutStep f) ⟨true, 0, 0, []⟩ = .ok l)
    (hshared : info.sharedObject = true) (hround : (roundUp (l.stop - l.start)).2 = true)
    (hmmap : mm.mmap (reservation (l.stop - l.start) base) = .ok offset)
    (hunmap : mm.munmap offset (roundUp (l.stop - l.start)).1 = .ok ())
    (hstart : (addLength l.start offset).2 = false) :
    (loadParsedELF mm f info base).run.run [] = none := by
  simp only [reservation] at hmmap
  simp [loadParsedELF, hl, hshared, hround, hmmap, hunmap, hstart, perform, liftExcept, panic]
  -- what is left runs from the state after the reservation is recorded
  rintro a b ⟨⟩
  rfl

end Offset

/-- A memory manager that places every mapping at the address asked for and
lets every call succeed. -/
def acceptAll : MM := ⟨fun _ => .ok (), fun o => .ok o.addr, fun _ _ => .ok (), fun _ _ => .ok ()⟩

/-- A shared object for amd64 with one `PT_LOAD` segment of its first 120
bytes at address 0, read and executable, whose entry point is `2 ^ 64 - 1`;
with `vaddr` for the segment's address and `entry` for the entry point. -/
def sharedObjectELF (vaddr entry : UInt64) : List UInt8 :=
  [0x7f, 0x45, 0x4c, 0x46, 2, 1, 1] ++ List.replicate 9 0 ++
    putUint16 3 ++ putUint16 62 ++ putUint32 1 ++ putUint64 entry ++ putUint64 64 ++
    putUint64 0 ++ putUint32 0 ++ putUint16 64 ++ putUint16 56 ++ putUint16 1 ++ putUint16 0 ++
    putUint16 0 ++ putUint16 0 ++
    putUint32 1 ++ putUint32 5 ++ putUint64 0 ++ putUint64 vaddr ++ putUint64 0 ++ putUint64 120 ++
    putUint64 120 ++ putUint64 4096

/-- Loaded at the usual PIE base by a memory manager that grants every call:
the shared object whose entry point is `2 ^ 64 - 1` loads without an error,
as the empty `loadedELF`, having only reserved and released a page and mapped
none of its segment; the one whose segment lies in the last two pages of the
address space panics. -/
theorem loadInitialELF_overflows :
    (loadInitialELF acceptAll (fileOf (sharedObjectELF 0 0xffffffffffffffff))
        (.ok 0x555555554000)).run.run [] =
      some (.ok default, [.mmap ⟨4096, 0, 0x555555554000, false, false, true, ⟨false, false, false⟩⟩,
        .munmap 0x555555554000 4096]) ∧
    (loadInitialELF acceptAll (fileOf (sharedObjectELF 0xffffffffffffe000 0))
        (.ok 0x555555554000)).run.run [] = none :=
  ⟨by decide +kernel, by decide +kernel⟩

end ContainerFS.Loader
