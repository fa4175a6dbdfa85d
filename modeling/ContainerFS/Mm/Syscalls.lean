import ContainerFS.Mm.Vma

/-!
The mapping system calls of a `MemoryManager` (`pkg/sentry/mm`, `syscalls.go`): `MMap`,
`MUnmap`, `MRemap` with its three move modes, `MProtect`, `BrkSetup` and `Brk`, `MLock` and
`MLockAll`, each from its argument checks to the vmas and counters it leaves, under
`mappingMu`. Populating pmas and mapping them into the `AddressSpace` changes no vma and is
left out, except where it decides the error returned from the vmas alone (`MLock` with
`MLockEager` on an inaccessible vma). A call is one step of the memory manager (`Op`,
`step`), the caller's context given with it.
-/

namespace ContainerFS.Mm

open Segment Segment.Set Usermem

def Range.overlaps (r r2 : Range) : Bool := r.start < r2.stop && r2.start < r.stop

namespace MemoryManager

variable (mm : MemoryManager) (ctx : Ctx)

/-- `MMap`: the checks of the options, a new shared anonymous mappable for a shared mapping
without one, the mapping's lock mode raised to the default, and `createVMALocked`; the start
of the new mapping. -/
def mmap (opts : MMapOpts) : Except Panic (MemoryManager × Except Errno ℕ) :=
  if opts.length = 0 then .ok (mm, .error .einval)
  else
    let (length, ok) := roundUp opts.length
    if !ok then .ok (mm, .error .enomem)
    else
      let opts := { opts with length }
      let prepared : Except Errno (MemoryManager × MMapOpts) :=
        if opts.mappable.isSome then
          if roundDown opts.offset ≠ opts.offset then .error .einval
          else if (opts.offset + opts.length) % 2 ^ 64 < opts.offset then .error .enomem
          else .ok (mm, opts)
        else
          let opts := { opts with offset := 0 }
          if !opts.isPrivate then
            if opts.mappingIdentity.isSome then .error .einval
            -- `NewSharedAnonMappable`
            else if ctx.allocFails then .error .enomem
            else .ok ({ mm with nextID := mm.nextID + 1 },
              { opts with mappingIdentity := some mm.nextID, mappable := some mm.nextID })
          else .ok (mm, opts)
      match prepared with
      | .error e => .ok (mm, .error e)
      | .ok (mm, opts) =>
        let addrCheck : Except Errno MMapOpts :=
          if roundDown opts.addr ≠ opts.addr then
            if opts.fixed then .error .einval else .ok { opts with addr := roundDown opts.addr }
          else .ok opts
        match addrCheck with
        | .error e => .ok (mm, .error e)
        | .ok opts =>
          if !opts.maxPerms.supersetOf opts.perms then .ok (mm, .error .eacces)
          else if opts.unmap ∧ !opts.fixed then .ok (mm, .error .einval)
          else if opts.growsDown ∧ opts.mappable.isSome then .ok (mm, .error .einval)
          else
            let opts :=
              if opts.mlockMode.toNat < mm.defMLockMode.toNat then
                { opts with mlockMode := mm.defMLockMode }
              else opts
            match mm.createVMA ctx opts with
            | .error p => .error p
            | .ok (mm, .error e) => .ok (mm, .error e)
            | .ok (mm, .ok (_, ar)) => .ok (mm, .ok ar.start)

def munmap (addr length : ℕ) : Except Panic (MemoryManager × Except Errno Unit) :=
  if addr ≠ roundDown addr then .ok (mm, .error .einval)
  else if length = 0 then .ok (mm, .error .einval)
  else
    let (la, ok) := roundUp length
    if !ok then .ok (mm, .error .einval)
    else
      let (ar, ok) := toRange addr la
      if !ok then .ok (mm, .error .einval)
      else (mm.removeVMAs ar).map fun res => (res.1, .ok ())

inductive MRemapMoveMode where
  | noMove
  | mayMove
  | mustMove
  deriving DecidableEq, Repr

structure MRemapOpts where
  move : MRemapMoveMode
  newAddr : ℕ

/-- The end of `MRemap` once the new range is chosen: the vma at `oldAddr` must reach
`oldEnd`, and within `RLIMIT_AS` it is copied to `newAR` (when `oldSize` is 0) or moved
there, the counters following. -/
def remapTo (i : ℕ) (oldAddr oldEnd oldSize : ℕ) (newAR : Range) :
    Except Panic (MemoryManager × Except Errno ℕ) :=
  match mm.vmas[i]? with
  | none => .error (.segment .cannotSplit)
  | some (vr, vma) =>
    let oldAR : Range := ⟨oldAddr, oldEnd⟩
    if vr.stop < oldEnd then .ok (mm, .error .efault)
    else
      let newUsageAS := mm.usageAS - UInt64.ofNat oldAR.length + UInt64.ofNat newAR.length
      if newUsageAS > ctx.limitAS then .ok (mm, .error .enomem)
      else if vma.mappable.isSome ∧ (vma.off + newAR.length) % 2 ^ 64 < vma.off then
        .ok (mm, .error .einval)
      else if vma.mappable.isSome ∧ ctx.mappingFails then .ok (mm, .error .mapping)
      else if oldSize = 0 then
        -- a copy of the vma, its offset advanced to `oldAR.Start`
        let vma :=
          if vma.mappable.isSome then { vma with off := (vma.off + (oldAR.start - vr.start)) % 2 ^ 64 }
          else vma
        match findGap mm.vmas newAR.start with
        | none => .error (.segment .overlapsSuccessor)
        | some g =>
          match insert vmaSetFunctions mm.vmas g newAR vma with
          | .error p => .error (.segment p)
          | .ok (vmas, _) =>
            let usageAS := mm.usageAS + UInt64.ofNat newAR.length
            let lockedAS :=
              if vma.mlockMode ≠ .none then mm.lockedAS + UInt64.ofNat newAR.length
              else mm.lockedAS
            .ok ({ mm with vmas, usageAS, lockedAS }, .ok newAR.start)
      else
        -- the vma cut to `oldAR`, removed, and inserted at `newAR` with the same value
        let (vmas, i) := isolate vmaSetFunctions mm.vmas i oldAR
        match vmas[i]? with
        | none => .error (.segment .cannotSplit)
        | some (_, vma) =>
          let vmas := remove vmas i
          match findGap vmas newAR.start with
          | none => .error (.segment .overlapsSuccessor)
          | some g =>
            match insert vmaSetFunctions vmas g newAR vma with
            | .error p => .error (.segment p)
            | .ok (vmas, _) =>
              let usageAS := mm.usageAS - UInt64.ofNat oldAR.length + UInt64.ofNat newAR.length
              let lockedAS :=
                if vma.mlockMode ≠ .none then
                  mm.lockedAS - UInt64.ofNat oldAR.length + UInt64.ofNat newAR.length
                else mm.lockedAS
              .ok ({ mm with vmas, usageAS, lockedAS }, .ok newAR.start)

/-- The part of `MRemap` that chooses where the mapping goes when it does not stay in place: a
range found by `findAvailableLocked`, or `opts.NewAddr` after unmapping it and the shrunk tail
of the source. -/
def mremapRelocate (i oldAddr oldEnd oldSize newSize : ℕ) (opts : MRemapOpts) :
    Except Panic (MemoryManager × Except Errno ℕ) :=
  match opts.move with
  | .mayMove =>
    match mm.findAvailable newSize ⟨0, false, false, false⟩ with
    | .error p => .error p
    | .ok (.error e) => .ok (mm, .error e)
    | .ok (.ok newAddr) => mm.remapTo ctx i oldAddr oldEnd oldSize (toRange newAddr newSize).1
  | .mustMove =>
    let newAddr := opts.newAddr
    if roundDown newAddr ≠ newAddr then .ok (mm, .error .einval)
    else
      let (newAR, ok) := toRange newAddr newSize
      if !ok then .ok (mm, .error .einval)
      else if Range.overlaps ⟨oldAddr, oldEnd⟩ newAR then .ok (mm, .error .einval)
      else
        match mm.removeVMAs newAR with
        | .error p => .error p
        | .ok (mm, _) =>
          -- unmapping before the checks that follow is what Linux does too
          let shrunk : Except Panic (MemoryManager × ℕ) :=
            if newSize < oldSize then
              (mm.removeVMAs ⟨oldAddr + newSize, oldEnd⟩).map fun res => (res.1, oldAddr + newSize)
            else .ok (mm, oldEnd)
          match shrunk with
          | .error p => .error p
          | .ok (mm, oldEnd) =>
            match findSegmentIndex mm.vmas oldAddr with
            | none => .error (.segment .cannotSplit)
            | some i => mm.remapTo ctx i oldAddr oldEnd oldSize newAR
  -- not reached: `MRemapNoMove` returns before
  | .noMove => mm.remapTo ctx i oldAddr oldEnd oldSize ⟨0, 0⟩

/-- `MRemap`: shrinking in place and no-ops unless the mapping must move; growing in place by a
mergeable vma after it, falling back to a move with `MRemapMayMove`; and else a move, or a copy
from an `oldSize` of 0. -/
def mremap (oldAddr oldSize newSize : ℕ) (opts : MRemapOpts) :
    Except Panic (MemoryManager × Except Errno ℕ) :=
  if roundDown oldAddr ≠ oldAddr then .ok (mm, .error .einval)
  else
    -- an `old_size` that rounds up to 0 is 0
    let oldSize := (roundUp oldSize).1
    let (newSizeAddr, ok) := roundUp newSize
    if !ok ∨ newSizeAddr = 0 then .ok (mm, .error .einval)
    else
      let newSize := newSizeAddr
      let (oldEnd, ok) := addLength oldAddr oldSize
      if !ok then .ok (mm, .error .einval)
      else
        match findSegmentIndex mm.vmas oldAddr with
        | none => .ok (mm, .error .efault)
        | some i =>
          match mm.vmas[i]? with
          | none => .error (.segment .cannotSplit)
          | some (vr, vma) =>
            if newSize > oldSize ∧ vma.mlockMode ≠ .none ∧ !ctx.capIPCLock ∧
                mm.lockedAS - UInt64.ofNat oldSize + UInt64.ofNat newSize >
                  ctx.limitMemoryLocked then
              .ok (mm, .error .eagain)
            else if opts.move ≠ .mustMove then
              if newSize ≤ oldSize then
                if newSize < oldSize then
                  (mm.removeVMAs ⟨oldAddr + newSize, oldEnd⟩).map fun res => (res.1, .ok oldAddr)
                else .ok (mm, .ok oldAddr)
              else if vr.stop < oldEnd then .ok (mm, .error .efault)
              else
                -- "grow" the vma by creating a new mergeable one after it
                let newOffset := if vma.mappable.isSome then (vma.off + vr.length) % 2 ^ 64 else 0
                match mm.createVMA ctx ⟨newSize - oldSize, vma.id, vma.mappable, newOffset, oldEnd,
                    true, false, false, vma.realPerms, vma.maxPerms, vma.isPrivate, vma.growsDown,
                    false, vma.mlockMode, vma.hint⟩ with
                | .error p => .error p
                | .ok (mm, .ok _) => .ok (mm, .ok oldAddr)
                | .ok (mm, .error e) =>
                  if opts.move = .noMove then .ok (mm, .error e)
                  else mm.mremapRelocate ctx i oldAddr oldEnd oldSize newSize opts
            else mm.mremapRelocate ctx i oldAddr oldEnd oldSize newSize opts

/-- The loop of `MProtect` from the segment `i`: each vma must allow the new permissions, is cut
to `ar` and takes them, until the end of `ar` or a gap. -/
def protectFrom (ar : Range) (realPerms effectivePerms : AccessType) :
    ℕ → VmaSet → ℕ → Except Panic (VmaSet × Except Errno Unit)
  | 0, _, _ => .error .outOfFuel
  | fuel + 1, vmas, i =>
    match vmas[i]? with
    | none => .error (.segment .cannotSplit)
    | some (_, v) =>
      if !v.maxPerms.supersetOf effectivePerms then .ok (vmas, .error .eacces)
      else
        let (vmas, i) := isolate vmaSetFunctions vmas i ar
        let vmas := vmas.modify i fun seg => (seg.1, { seg.2 with realPerms, effectivePerms })
        match vmas[i]? with
        | none => .error (.segment .cannotSplit)
        | some (vr, _) =>
          if ar.stop ≤ vr.stop then .ok (vmas, .ok ())
          else
            match (nextNonEmpty vmaSetFunctions vmas i).1 with
            | some j => protectFrom ar realPerms effectivePerms fuel vmas j
            | none => .ok (vmas, .error .enomem)

/-- `MProtect`: from the first vma at or after `addr` (which must hold `addr`, or grow down
towards it), every vma of the range takes the new permissions; the vmas of the range are
merged back on every return past the checks. -/
def mprotect (addr length : ℕ) (realPerms : AccessType) (growsDown : Bool) :
    Except Panic (MemoryManager × Except Errno Unit) :=
  if roundDown addr ≠ addr then .ok (mm, .error .einval)
  else if length = 0 then .ok (mm, .ok ())
  else
    let (rlength, ok) := roundUp length
    if !ok then .ok (mm, .error .enomem)
    else
      let (ar, ok) := toRange addr rlength
      if !ok then .ok (mm, .error .enomem)
      else
        let effectivePerms := realPerms.effective
        match lowerBoundSegment mm.vmas ar.start with
        | none => .ok (mm, .error .enomem)
        | some i =>
          match mm.vmas[i]? with
          | none => .error (.segment .cannotSplit)
          | some (vr, v) =>
            let checked : Except Errno Range :=
              if growsDown then
                if !v.growsDown then .error .einval
                else if ar.stop ≤ vr.start then .error .enomem
                else .ok ⟨vr.start, ar.stop⟩
              else if ar.start < vr.start then .error .enomem
              else .ok ar
            match checked with
            | .error e => .ok (mm, .error e)
            | .ok ar =>
              match protectFrom ar realPerms effectivePerms (mm.vmas.length + 1) mm.vmas i with
              | .error p => .error p
              | .ok (vmas, res) =>
                let vmas := mergeAdjacent vmaSetFunctions (mergeRange vmaSetFunctions vmas ar) ar
                .ok ({ mm with vmas }, res)

/-- `BrkSetup`: the current brk unmapped, and an empty brk at `addr`. -/
def brkSetup (addr : ℕ) : Except Panic MemoryManager :=
  let unmapped : Except Panic MemoryManager :=
    if mm.brk.length ≠ 0 then (mm.removeVMAs mm.brk).map Prod.fst else .ok mm
  unmapped.map fun mm => { mm with brk := ⟨addr, addr⟩ }

/-- The part of `Brk` made under `mappingMu`: the checks, then the heap grown by a new `[heap]`
vma or shrunk by unmapping, page-rounded. With an error, the brk's end (read under the lock)
and the error that `Brk` returns. -/
def brkLocked (addr : ℕ) : Except Panic (MemoryManager × Option (ℕ × Errno)) :=
  if addr < mm.brk.start then .ok (mm, some (mm.brk.stop, .einval))
  else if UInt64.ofNat (addr - mm.brk.start) > ctx.limitData then
    .ok (mm, some (mm.brk.stop, .enomem))
  else
    let oldbrkpg := (roundUp mm.brk.stop).1
    let (newbrkpg, ok) := roundUp addr
    if !ok then .ok (mm, some (mm.brk.stop, .efault))
    else if newbrkpg < oldbrkpg then
      (mm.removeVMAs ⟨newbrkpg, oldbrkpg⟩).map fun res => (res.1, none)
    else if oldbrkpg < newbrkpg then
      (mm.createVMA ctx ⟨newbrkpg - oldbrkpg, none, none, 0, oldbrkpg, true, false, false,
        .readWrite, .anyAccess, true, false, false, mm.defMLockMode, "[heap]"⟩).map
        fun res => (res.1, match res.2 with | .ok _ => none | .error e => some (res.1.brk.stop, e))
    else .ok (mm, none)

/-- `mm.brk.End = addr`, which `Brk` stores after releasing `mappingMu`. -/
def setBrkEnd (addr : ℕ) : MemoryManager := { mm with brk := { mm.brk with stop := addr } }

/-- `Brk` (named apart from the field `brk`): `brkLocked`, then the brk's end moved to `addr`;
with an error, the brk's end is what is returned. -/
def brkCall (addr : ℕ) : Except Panic (MemoryManager × ℕ × Option Errno) :=
  (mm.brkLocked ctx addr).map fun res =>
    match res.2 with
    | some (brkEnd, e) => (res.1, brkEnd, some e)
    | none => (res.1.setBrkEnd addr, addr, none)

/-- The loop of `MLock` from the segment `i`: each vma of the range is cut to `ar` and takes
the mode, `lockedAS` following the vmas that change between locked and unlocked, until the
end of `ar` or a gap, which is reported as unmapped. -/
def mlockFrom (ar : Range) (mode : MLockMode) :
    ℕ → MemoryManager → Option ℕ → Except Panic (MemoryManager × Bool)
  | 0, _, _ => .error .outOfFuel
  | _, mm, none => .ok (mm, true)
  | fuel + 1, mm, some i =>
    let (vmas, i) := isolate vmaSetFunctions mm.vmas i ar
    match vmas[i]? with
    | none => .error (.segment .cannotSplit)
    | some (vr, v) =>
      let prevMode := v.mlockMode
      let vmas := vmas.set i (vr, { v with mlockMode := mode })
      let lockedAS :=
        if mode ≠ .none ∧ prevMode = .none then mm.lockedAS + UInt64.ofNat vr.length
        else if mode = .none ∧ prevMode ≠ .none then mm.lockedAS - UInt64.ofNat vr.length
        else mm.lockedAS
      let mm := { mm with vmas, lockedAS }
      if ar.stop ≤ vr.stop then .ok (mm, false)
      else mlockFrom ar mode fuel mm (nextNonEmpty vmaSetFunctions vmas i).1

/-- Whether a vma of `ar` is inaccessible, which makes `MLockEager` fail with `ENOMEM`. -/
def inaccessibleIn (ar : Range) : VmaSet → Bool
  | [] => false
  | (r, v) :: rest => if r.start < ar.stop then !v.effectivePerms.any || inaccessibleIn ar rest else false

/-- `MLock`: within `RLIMIT_MEMLOCK`, the vmas of the page-rounded range take the mode up to the
first gap, are merged back, and a gap makes it `ENOMEM`. -/
def mlock (addr length : ℕ) (mode : MLockMode) : Except Panic (MemoryManager × Except Errno Unit) :=
  -- Linux allows this to overflow.
  let la := (roundUp ((length + pageOffset addr) % 2 ^ 64)).1
  let (ar, ok) := toRange (roundDown addr) la
  if !ok then .ok (mm, .error .einval)
  else if mode ≠ .none ∧ !ctx.capIPCLock ∧ ctx.limitMemoryLocked = 0 then .ok (mm, .error .eperm)
  else if mode ≠ .none ∧ !ctx.capIPCLock ∧
      mm.lockedAS + UInt64.ofNat ar.length - mm.mlockedBytesRange ar > ctx.limitMemoryLocked then
    .ok (mm, .error .enomem)
  else if ar.length = 0 then .ok (mm, .ok ())
  else
    match mlockFrom ar mode (mm.vmas.length + 1) mm (findSegmentIndex mm.vmas ar.start) with
    | .error p => .error p
    | .ok (mm, unmapped) =>
      let mm := { mm with vmas := mergeAdjacent vmaSetFunctions (mergeRange vmaSetFunctions mm.vmas ar) ar }
      if unmapped then .ok (mm, .error .enomem)
      else if mode = .eager ∧
          inaccessibleIn ar (mm.vmas.drop ((findSegmentIndex mm.vmas ar.start).getD 0)) then
        .ok (mm, .error .enomem)
      else .ok (mm, .ok ())

structure MLockAllOpts where
  current : Bool
  future : Bool
  mode : MLockMode

/-- The loop of `MLockAll` over every vma. -/
def mlockAllFrom (mode : MLockMode) : VmaSet → UInt64 → VmaSet × UInt64
  | [], lockedAS => ([], lockedAS)
  | (r, v) :: rest, lockedAS =>
    let lockedAS :=
      if mode ≠ .none ∧ v.mlockMode = .none then lockedAS + UInt64.ofNat r.length
      else if mode = .none ∧ v.mlockMode ≠ .none then lockedAS - UInt64.ofNat r.length
      else lockedAS
    let (rest, lockedAS) := mlockAllFrom mode rest lockedAS
    ((r, { v with mlockMode := mode }) :: rest, lockedAS)

/-- `MLockAll`: every vma takes the mode (within `RLIMIT_MEMLOCK` for a locking mode), and
future mappings take it as the default. -/
def mlockAll (opts : MLockAllOpts) : Except Panic (MemoryManager × Except Errno Unit) :=
  if !opts.current ∧ !opts.future then .ok (mm, .error .einval)
  else if opts.current ∧ opts.mode ≠ .none ∧ !ctx.capIPCLock ∧ ctx.limitMemoryLocked = 0 then
    .ok (mm, .error .eperm)
  else if opts.current ∧ opts.mode ≠ .none ∧ !ctx.capIPCLock ∧
      UInt64.ofNat (span mm.vmas) > ctx.limitMemoryLocked then
    .ok (mm, .error .enomem)
  else
    let mm :=
      if opts.current then
        let (vmas, lockedAS) := mlockAllFrom opts.mode mm.vmas mm.lockedAS
        { mm with vmas, lockedAS }
      else mm
    let mm := if opts.future then { mm with defMLockMode := opts.mode } else mm
    .ok (mm, .ok ())

end MemoryManager

/-- A mapping call on a memory manager. -/
inductive Op where
  | mmap (opts : MMapOpts)
  | munmap (addr length : ℕ)
  | mremap (oldAddr oldSize newSize : ℕ) (opts : MemoryManager.MRemapOpts)
  | mprotect (addr length : ℕ) (realPerms : AccessType) (growsDown : Bool)
  | brkSetup (addr : ℕ)
  | brk (addr : ℕ)
  | mlock (addr length : ℕ) (mode : MLockMode)
  | mlockAll (opts : MemoryManager.MLockAllOpts)

/-- The memory manager after a call, whatever it returns. -/
def step (ctx : Ctx) (mm : MemoryManager) : Op → Except Panic MemoryManager
  | .mmap opts => (mm.mmap ctx opts).map Prod.fst
  | .munmap addr length => (mm.munmap addr length).map Prod.fst
  | .mremap oldAddr oldSize newSize opts => (mm.mremap ctx oldAddr oldSize newSize opts).map Prod.fst
  | .mprotect addr length realPerms growsDown => (mm.mprotect addr length realPerms growsDown).map Prod.fst
  | .brkSetup addr => mm.brkSetup addr
  | .brk addr => (mm.brkCall ctx addr).map Prod.fst
  | .mlock addr length mode => (mm.mlock ctx addr length mode).map Prod.fst
  | .mlockAll opts => (mm.mlockAll ctx opts).map Prod.fst

/-- `NewMemoryManager` followed by `SetMmapLayout`: no vmas, an empty brk and zero counters. -/
def MemoryManager.new (layout : MmapLayout) : MemoryManager :=
  { layout, vmas := [], brk := ⟨0, 0⟩, usageAS := 0, lockedAS := 0, defMLockMode := .none,
    nextID := 0 }

/-- The memory managers a process reaches from a new one by mapping calls, each made under any
context and whatever it returns; a call that panics ends the run. -/
inductive Reachable : MemoryManager → Prop
  | new (layout : MmapLayout) : Reachable (.new layout)
  | step {mm mm' : MemoryManager} (ctx : Ctx) (op : Op) :
      Reachable mm → step ctx mm op = .ok mm' → Reachable mm'

end ContainerFS.Mm
