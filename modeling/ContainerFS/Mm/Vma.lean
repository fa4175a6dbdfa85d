import ContainerFS.Segment.Slices
import ContainerFS.Usermem.Page

/-!
The virtual memory areas of a `MemoryManager` (`pkg/sentry/mm`, `vma.go`): the segment set of
vmas, the counters `usageAS` and `lockedAS` kept beside it, and the functions that every
mapping call goes through: `findAvailableLocked` with its first-fit and last-fit scans over
the gaps, `createVMALocked`, `removeVMAsLocked` (what `unmapLocked` leaves of the vmas, since
pmas and `AddressSpace` mappings are not modelled) and `mlockedBytesRangeLocked`.

A `Mappable` and a `MappingIdentity` are their identities, natural numbers; reference counts
are not modelled. What a call reads from its context is a `Ctx`: the rlimits, whether the
caller has `CAP_IPC_LOCK` in the root user namespace, and whether the mappable's
`AddMapping` and `CopyMapping` fail. Counters are `uint64`s; addresses are natural numbers
below `2^64`, with Go's wrap written out where a sum can pass it. Panics, and loops that run
out of rounds, are errors of type `Panic`.
-/

namespace ContainerFS.Mm

open Segment Segment.Set Usermem

structure AccessType where
  read : Bool
  write : Bool
  execute : Bool
  deriving DecidableEq, Repr

namespace AccessType

def any (a : AccessType) : Bool := a.read || a.write || a.execute

def supersetOf (a other : AccessType) : Bool :=
  !(!a.read && other.read) && !(!a.write && other.write) && !(!a.execute && other.execute)

/-- `Effective`: write and execute access imply read access. -/
def effective (a : AccessType) : AccessType :=
  if a.write || a.execute then { a with read := true } else a

def readWrite : AccessType := ⟨true, true, false⟩

def anyAccess : AccessType := ⟨true, true, true⟩

end AccessType

/-- `memmap.MLockMode`, in the order of its values. -/
inductive MLockMode where
  | none
  | eager
  | lazy
  deriving DecidableEq, Repr

/-- The value of an `MLockMode`, which `MMap` compares. -/
def MLockMode.toNat : MLockMode → ℕ
  | .none => 0
  | .eager => 1
  | .lazy => 2

/-- `vma`; `mappable` and `id` are the identities of the `Mappable` and the
`MappingIdentity`, when there is one. -/
structure Vma where
  mappable : Option ℕ
  off : ℕ
  realPerms : AccessType
  effectivePerms : AccessType
  maxPerms : AccessType
  /-- `private` -/
  isPrivate : Bool
  growsDown : Bool
  mlockMode : MLockMode
  id : Option ℕ
  hint : String
  deriving DecidableEq

/-- `vmaSetFunctions`: two vmas merge when every field agrees, the offset of a file mapping
continuing the first; a split advances the offset of the second half of a file mapping. -/
def vmaSetFunctions : Functions Vma where
  minKey := 0
  maxKey := 2 ^ 64 - 1
  merge ar1 vma1 _ vma2 :=
    if vma1.mappable ≠ vma2.mappable ∨
        (vma1.mappable.isSome ∧ (vma1.off + ar1.length) % 2 ^ 64 ≠ vma2.off) ∨
        vma1.realPerms ≠ vma2.realPerms ∨
        vma1.maxPerms ≠ vma2.maxPerms ∨
        vma1.isPrivate ≠ vma2.isPrivate ∨
        vma1.growsDown ≠ vma2.growsDown ∨
        vma1.mlockMode ≠ vma2.mlockMode ∨
        vma1.id ≠ vma2.id ∨
        vma1.hint ≠ vma2.hint then none
    else some vma1
  split ar v split :=
    (v, if v.mappable.isSome then { v with off := (v.off + (split - ar.start)) % 2 ^ 64 } else v)

/-- `vmaSet`: the vmas in address order. -/
abbrev VmaSet := List (Range × Vma)

inductive MmapDirection where
  | bottomUp
  | topDown
  deriving DecidableEq, Repr

/-- `arch.MmapLayout`, without `MaxStackRand`, which only `MapStack` reads. -/
structure MmapLayout where
  minAddr : ℕ
  maxAddr : ℕ
  bottomUpBase : ℕ
  topDownBase : ℕ
  defaultDirection : MmapDirection
  deriving DecidableEq, Repr

/-- The part of a `MemoryManager` that the mapping calls read and write. `nextID` is the
identity the next shared anonymous mappable gets. -/
structure MemoryManager where
  layout : MmapLayout
  vmas : VmaSet
  brk : Range
  usageAS : UInt64
  lockedAS : UInt64
  defMLockMode : MLockMode
  nextID : ℕ

/-- What a call reads from its context, and what the mappable it maps answers. -/
structure Ctx where
  /-- `RLIMIT_AS` -/
  limitAS : UInt64
  /-- `RLIMIT_MEMLOCK` -/
  limitMemoryLocked : UInt64
  /-- `RLIMIT_DATA` -/
  limitData : UInt64
  /-- whether the caller has `CAP_IPC_LOCK` in the root user namespace -/
  capIPCLock : Bool
  /-- whether `Mappable.AddMapping` and `Mappable.CopyMapping` return an error -/
  mappingFails : Bool
  /-- whether allocating the memory of a new shared anonymous mapping fails -/
  allocFails : Bool

/-- The errors the mapping calls return. -/
inductive Errno where
  | einval
  | enomem
  | eacces
  | efault
  | eperm
  | eagain
  /-- the error of a mappable's `AddMapping` or `CopyMapping` -/
  | mapping
  deriving DecidableEq, Repr

inductive Panic where
  /-- "Non-effective MaxPerms %s cannot be enforced" -/
  | nonEffectiveMaxPerms
  /-- a panic of the segment set, or an iterator used past the end -/
  | segment (p : SetPanic)
  /-- a loop ran out of rounds -/
  | outOfFuel
  deriving DecidableEq, Repr

def map32Start : ℕ := 0x40000000

def map32End : ℕ := 0x80000000

def guardBytes : ℕ := 256 * pageSize

structure FindAvailableOpts where
  addr : ℕ
  fixed : Bool
  unmap : Bool
  map32Bit : Bool

/-- `vmaGapIterator.availableRange` of the gap `g`: without the guard pages below a vma that
grows down. -/
def availableRange (vmas : VmaSet) (g : ℕ) : Range :=
  let ar := gapRange vmaSetFunctions vmas g
  match vmas[g]? with
  | some (_, next) =>
    if !next.growsDown then ar
    else if ar.length < guardBytes then ⟨ar.start, ar.start⟩
    else ⟨ar.start, ar.stop - guardBytes⟩
  | none => ar

/-- The loop of `findLowestAvailableLocked` from the gap `g`: the first gap, going up, whose
available part within `bounds` holds `length` bytes, shifted up to the alignment when there
is room. -/
def findLowestFrom (vmas : VmaSet) (length alignment : ℕ) (bounds : Range) :
    ℕ → ℕ → Except Panic (Except Errno ℕ)
  | 0, _ => .error .outOfFuel
  | fuel + 1, g =>
    if g ≤ vmas.length ∧ (gapRange vmaSetFunctions vmas g).start < bounds.stop then
      let gr := (availableRange vmas g).intersect bounds
      if gr.length ≥ length then
        let offset := gr.start % alignment
        if offset ≠ 0 ∧ gr.length ≥ (length + alignment - offset) % 2 ^ 64 then
          .ok (.ok ((gr.start + (alignment - offset)) % 2 ^ 64))
        else .ok (.ok gr.start)
      else findLowestFrom vmas length alignment bounds fuel (g + 1)
    else .ok (.error .enomem)

def findLowestAvailable (vmas : VmaSet) (length alignment : ℕ) (bounds : Range) :
    Except Panic (Except Errno ℕ) :=
  findLowestFrom vmas length alignment bounds (vmas.length + 2) (lowerBoundGap vmas bounds.start)

/-- The loop of `findHighestAvailableLocked` from the gap `g`: the first gap, going down,
whose available part within `bounds` holds `length` bytes, placed at its top and shifted down
to the alignment when there is room. -/
def findHighestFrom (vmas : VmaSet) (length alignment : ℕ) (bounds : Range) :
    ℕ → ℕ → Except Panic (Except Errno ℕ)
  | 0, _ => .error .outOfFuel
  | fuel + 1, g =>
    if (gapRange vmaSetFunctions vmas g).stop > bounds.start then
      let gr := (availableRange vmas g).intersect bounds
      if gr.length ≥ length then
        let start := (gr.stop + 2 ^ 64 - length) % 2 ^ 64
        let offset := start % alignment
        if offset ≠ 0 ∧ gr.start ≤ start - offset then .ok (.ok (start - offset))
        else .ok (.ok start)
      else
        match g with
        | 0 => .ok (.error .enomem)
        | g + 1 => findHighestFrom vmas length alignment bounds fuel g
    else .ok (.error .enomem)

def findHighestAvailable (vmas : VmaSet) (length alignment : ℕ) (bounds : Range) :
    Except Panic (Except Errno ℕ) :=
  findHighestFrom vmas length alignment bounds (vmas.length + 2) (upperBoundGap vmas bounds.stop)

namespace MemoryManager

variable (mm : MemoryManager)

def applicationAddrRange : Range := ⟨mm.layout.minAddr, mm.layout.maxAddr⟩

/-- `findAvailableLocked`: the hint when it fits (anywhere, with `Unmap`), the hint only for a
fixed mapping, else a first-fit or last-fit search aligned to huge pages for huge lengths. -/
def findAvailable (length : ℕ) (opts : FindAvailableOpts) : Except Panic (Except Errno ℕ) :=
  let map32Bit := opts.map32Bit && !opts.fixed
  let allowedAR :=
    if map32Bit then mm.applicationAddrRange.intersect ⟨map32Start, map32End⟩
    else mm.applicationAddrRange
  let (ar, ok) := toRange opts.addr length
  let hint : Bool :=
    ok && allowedAR.isSupersetOf ar &&
      (opts.unmap ||
        match findGap mm.vmas ar.start with
        | some g => (availableRange mm.vmas g).isSupersetOf ar
        | none => false)
  if hint then .ok (.ok ar.start)
  else if opts.fixed then .ok (.error .enomem)
  else
    let alignment := if length ≥ hugePageSize then hugePageSize else pageSize
    if map32Bit then findLowestAvailable mm.vmas length alignment allowedAR
    else if mm.layout.defaultDirection = .bottomUp then
      findLowestAvailable mm.vmas length alignment ⟨mm.layout.bottomUpBase, mm.layout.maxAddr⟩
    else findHighestAvailable mm.vmas length alignment ⟨mm.layout.minAddr, mm.layout.topDownBase⟩

/-- The loop of `mlockedBytesRangeLocked` over the segments from the first it counts. -/
def mlockedBytesFrom (ar : Range) : VmaSet → UInt64
  | [] => 0
  | (r, v) :: rest =>
    if r.start < ar.stop then
      (if v.mlockMode ≠ .none then UInt64.ofNat (r.intersect ar).length else 0) +
        mlockedBytesFrom ar rest
    else 0

/-- `mlockedBytesRangeLocked`: the bytes of `ar` in vmas that are memory-locked. -/
def mlockedBytesRange (ar : Range) : UInt64 :=
  match lowerBoundSegment mm.vmas ar.start with
  | some i => mlockedBytesFrom ar (mm.vmas.drop i)
  | none => 0

/-- The loop of `removeVMAsLocked` from the segment `i`: each vma that starts before the end of
`ar` is cut to `ar`, taken off the counters and removed; the gap left is returned. -/
def removeFrom (ar : Range) : ℕ → MemoryManager → ℕ → ℕ → Except Panic (MemoryManager × ℕ)
  | 0, _, _, _ => .error .outOfFuel
  | fuel + 1, mm, i, gap =>
    match mm.vmas[i]? with
    | some (r, _) =>
      if r.start < ar.stop then
        let (vmas, i) := isolate vmaSetFunctions mm.vmas i ar
        match vmas[i]? with
        | some (vmaAR, vma) =>
          let usageAS := mm.usageAS - UInt64.ofNat vmaAR.length
          let lockedAS :=
            if vma.mlockMode ≠ .none then mm.lockedAS - UInt64.ofNat vmaAR.length else mm.lockedAS
          removeFrom ar fuel { mm with vmas := remove vmas i, usageAS, lockedAS } i i
        | none => .error (.segment .cannotSplit)
      else .ok (mm, gap)
    | none => .ok (mm, gap)

/-- `removeVMAsLocked`, and so `unmapLocked`: the vmas of `ar` removed, and the gap they
leave. -/
def removeVMAs (ar : Range) : Except Panic (MemoryManager × ℕ) :=
  match find mm.vmas ar.start with
  | .segment i => removeFrom ar (mm.vmas.length + 1) mm i i
  | .gap g => removeFrom ar (mm.vmas.length + 1) mm g g

end MemoryManager

/-- `memmap.MMapOpts`; `mappingIdentity` and `mappable` are identities. -/
structure MMapOpts where
  length : ℕ
  mappingIdentity : Option ℕ
  mappable : Option ℕ
  offset : ℕ
  addr : ℕ
  fixed : Bool
  unmap : Bool
  map32Bit : Bool
  perms : AccessType
  maxPerms : AccessType
  isPrivate : Bool
  growsDown : Bool
  precommit : Bool
  mlockMode : MLockMode
  hint : String

namespace MemoryManager

variable (mm : MemoryManager)

/-- The `RLIMIT_MEMLOCK` check of `createVMALocked`, which a locked mapping by a caller without
`CAP_IPC_LOCK` must pass: the error it returns, if any. -/
def mlockLimitError (ctx : Ctx) (opts : MMapOpts) (ar : Range) : Option Errno :=
  if opts.mlockMode ≠ .none ∧ !ctx.capIPCLock then
    if ctx.limitMemoryLocked = 0 then some .eperm
    else
      let newLockedAS := mm.lockedAS + UInt64.ofNat opts.length
      let newLockedAS := if opts.unmap then newLockedAS - mm.mlockedBytesRange ar else newLockedAS
      if newLockedAS > ctx.limitMemoryLocked then some .eagain else none
  else none

/-- `createVMALocked`: the vma `opts` describe, placed by `findAvailableLocked` within the
rlimits and inserted into the gap (after unmapping what it replaces with `Unmap`), with the
counters raised by its length; the memory manager after it and the segment and range of the
new vma. -/
def createVMA (ctx : Ctx) (opts : MMapOpts) :
    Except Panic (MemoryManager × Except Errno (ℕ × Range)) :=
  if opts.maxPerms ≠ opts.maxPerms.effective then .error .nonEffectiveMaxPerms
  else
    match mm.findAvailable opts.length ⟨opts.addr, opts.fixed, opts.unmap, opts.map32Bit⟩ with
    | .error p => .error p
    | .ok (.error e) => .ok (mm, .error e)
    | .ok (.ok addr) =>
      let ar := (toRange addr opts.length).1
      let newUsageAS := mm.usageAS + UInt64.ofNat opts.length
      let newUsageAS :=
        if opts.unmap then newUsageAS - UInt64.ofNat (spanRange mm.vmas ar) else newUsageAS
      if newUsageAS > ctx.limitAS then .ok (mm, .error .enomem)
      else
        match mm.mlockLimitError ctx opts ar with
        | some e => .ok (mm, .error e)
        | none =>
          let removed : Except Panic (MemoryManager × Option ℕ) :=
            if opts.unmap then (mm.removeVMAs ar).map fun res => (res.1, some res.2)
            else .ok (mm, findGap mm.vmas ar.start)
          match removed with
          | .error p => .error p
          | .ok (mm, vgap) =>
            if opts.mappable.isSome ∧ ctx.mappingFails then .ok (mm, .error .mapping)
            else
              match vgap with
              | none => .error (.segment .overlapsSuccessor)
              | some g =>
                let vma : Vma := ⟨opts.mappable, opts.offset, opts.perms, opts.perms.effective,
                  opts.maxPerms, opts.isPrivate, opts.growsDown, opts.mlockMode,
                  opts.mappingIdentity, opts.hint⟩
                match insert vmaSetFunctions mm.vmas g ar vma with
                | .error p => .error (.segment p)
                | .ok (vmas, i) =>
                  let usageAS := mm.usageAS + UInt64.ofNat opts.length
                  let lockedAS :=
                    if opts.mlockMode ≠ .none then mm.lockedAS + UInt64.ofNat opts.length
                    else mm.lockedAS
                  .ok ({ mm with vmas, usageAS, lockedAS }, .ok (i, ar))

end MemoryManager

end ContainerFS.Mm
