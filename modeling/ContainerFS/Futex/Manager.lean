import Mathlib
import ContainerFS.Lib.Queues

/-!
The futex manager (`pkg/sentry/kernel/futex/futex.go`). Waiters queue in
buckets: each manager has `bucketCount` private buckets, chosen by a hash of
the address, and a family of managers made by `Fork` shares one bucket for
the futexes of shared mappings. A bucket's list holds the waiters of every
futex that lands in it, and every scan of it filters by `Key.matches`.

A waiter is a record with an identity (its pointer). The state holds the
bucket lists, each waiter's `bucket` pointer, the sends on the waiters'
channels in order, and the 32-bit words of memory that the checks read. The
scans of `wakeLocked` and `requeueLocked` keep their cursor as an index into
the bucket list: after the waiter at index `j` is taken out, the cursor
`w.Next()` is the waiter now at `j`, or nil when the taken waiter was the
last. `requeueLocked` pushes onto the back of the bucket `to`, which can be
the bucket it is scanning.

There are no other threads here: a compare-and-swap after a load sees the
loaded value and succeeds, so the retry loops run once.
-/

namespace ContainerFS.Futex

open ContainerFS.Queues

inductive KeyKind where
  | kindPrivate
  | kindSharedPrivate
  | kindSharedMappable
  deriving DecidableEq, Repr

/-- `Key`: a `Mappable` is named by a number, nil by `none`. The
`MappingIdentity` only counts references and is left out. -/
structure Key where
  kind : KeyKind
  mappable : Option ℕ
  offset : UInt64
  deriving DecidableEq, Repr

def Key.matches (k k2 : Key) : Bool :=
  k.kind == k2.kind && k.mappable == k2.mappable && k.offset == k2.offset

@[simp]
theorem Key.matches_iff {k k2 : Key} : k.matches k2 = true ↔ k = k2 := by
  cases k
  cases k2
  simp [Key.matches, and_assoc]

/-- The errors of the manager and of its memory accesses (`EFAULT`). -/
inductive Errno where
  | einval
  | eagain
  | enosys
  | edeadlk
  | eperm
  | efault
  deriving DecidableEq, Repr

/-- `Waiter`: its identity, the key it waits on, its bitmask and its thread
ID. Its channel `C` and its `bucket` pointer are kept in the state. -/
structure Waiter where
  id : ℕ
  key : Key
  bitmask : UInt32
  tid : UInt32
  deriving DecidableEq, Repr

def bucketCountBits : ℕ := 10

def bucketCount : ℕ := 2 ^ bucketCountBits

/-- A bucket: one of the `privateBuckets` of the `m`-th manager of a family
made by `Fork`, or the family's `sharedBucket`. -/
inductive BucketId where
  | priv (m : ℕ) (i : Fin bucketCount)
  | shared
  deriving DecidableEq, Repr

/-- The state of a family of managers and of the memory they read. -/
structure State where
  /-- `bucket.waiters` of every bucket. -/
  buckets : BucketId → List Waiter
  /-- `Waiter.bucket` of every waiter: `none` for nil. -/
  bucket : ℕ → Option BucketId
  /-- The sends on the waiters' channels, in order. -/
  woken : List ℕ
  /-- The 32-bit words of memory; `none` where an access faults. -/
  mem : UInt64 → Option UInt32

def futexTidMask : UInt32 := 0x3fffffff

def futexWaiters : UInt32 := 0x80000000

def futexOwnerDied : UInt32 := 0x40000000

/-! ### Keys and buckets -/

def bucketIndexForAddr (addr : UInt64) : Fin bucketCount :=
  let h1 := (addr >>> 2) + (addr >>> 12) + (addr >>> 22)
  let h2 := (addr >>> 32) + (addr >>> 42)
  ⟨(h1 + h2).toNat % bucketCount, Nat.mod_lt _ (Nat.two_pow_pos bucketCountBits)⟩

section Target

-- `Target.GetSharedKey`, which the memory manager answers
variable (getSharedKey : UInt64 → Except Errno Key)

def getKey (addr : UInt64) (isPrivate : Bool) : Except Errno Key :=
  if addr &&& 3 ≠ 0 then .error .einval
  else if isPrivate then .ok ⟨.kindPrivate, none, addr⟩
  else getSharedKey addr

end Target

/-- `Manager.lockBucket` of the `m`-th manager: the bucket it locks. -/
def lockBucket (m : ℕ) (k : Key) : BucketId :=
  if k.kind = .kindSharedMappable then .shared else .priv m (bucketIndexForAddr k.offset)

/-- `Manager.lockBuckets`: the two buckets it locks, in the order it
returns them. -/
def lockBuckets (m : ℕ) (k1 k2 : Key) : BucketId × BucketId :=
  if k1.kind ≠ .kindSharedMappable ∧ k2.kind ≠ .kindSharedMappable then
    (.priv m (bucketIndexForAddr k1.offset), .priv m (bucketIndexForAddr k2.offset))
  else if k1.kind ≠ .kindSharedMappable then (lockBucket m k1, .shared)
  else if k2.kind ≠ .kindSharedMappable then (.shared, lockBucket m k2)
  else (.shared, .shared)

/-- Whatever the kinds, `lockBuckets` returns the buckets of its two keys. -/
theorem lockBuckets_eq (m : ℕ) (k1 k2 : Key) :
    lockBuckets m k1 k2 = (lockBucket m k1, lockBucket m k2) := by
  unfold lockBuckets lockBucket
  by_cases h1 : k1.kind = .kindSharedMappable <;> by_cases h2 : k2.kind = .kindSharedMappable <;>
    simp [h1, h2]

/-! ### Memory -/

namespace State

def loadUint32 (s : State) (addr : UInt64) : Except Errno UInt32 :=
  match s.mem addr with
  | some v => .ok v
  | none => .error .efault

/-- A store of `v` at `addr`. -/
def store (s : State) (addr : UInt64) (v : UInt32) : State :=
  { s with mem := Function.update s.mem addr (some v) }

def check (s : State) (addr : UInt64) (val : UInt32) : Except Errno Unit := do
  let cur ← s.loadUint32 addr
  if cur ≠ val then throw .eagain

end State

/-- `1 << opArg` of a `uint32`: zero from a shift of 32 on. -/
def shiftOne (opArg : UInt32) : UInt32 := if opArg < 32 then 1 <<< opArg else 0

/-- The new value of `atomicOp`'s loop for the operation `opType`, or
`ENOSYS`. -/
def applyOp (opType opArg oldVal : UInt32) : Except Errno UInt32 :=
  if opType = 1 then .ok (oldVal + opArg)
  else if opType = 2 then .ok (oldVal ||| opArg)
  else if opType = 3 then .ok (oldVal &&& ~~~opArg)
  else if opType = 4 then .ok (oldVal ^^^ opArg)
  else .error .enosys

/-- The comparison at the end of `atomicOp`. -/
def compareOp (cmp oldVal cmpArg : UInt32) : Except Errno Bool :=
  if cmp = 0 then .ok (oldVal == cmpArg)
  else if cmp = 1 then .ok (oldVal != cmpArg)
  else if cmp = 2 then .ok (decide (oldVal < cmpArg))
  else if cmp = 3 then .ok (decide (oldVal ≤ cmpArg))
  else if cmp = 4 then .ok (decide (oldVal > cmpArg))
  else if cmp = 5 then .ok (decide (oldVal ≥ cmpArg))
  else .error .enosys

/-- `atomicOp`: the operation is applied to memory before the comparison is
decoded, so an unknown comparison returns `ENOSYS` after the store. -/
def atomicOp (s : State) (addr : UInt64) (opIn : UInt32) : State × Except Errno Bool :=
  let opType := (opIn >>> 28) &&& 0xf
  let cmp := (opIn >>> 24) &&& 0xf
  let opArg := (opIn >>> 12) &&& 0xfff
  let cmpArg := opIn &&& 0xfff
  let (opType, opArg) :=
    if opType &&& 8 ≠ 0 then (opType &&& ~~~8, shiftOne opArg) else (opType, opArg)
  match s.loadUint32 addr with
  | .error e => (s, .error e)
  | .ok oldVal =>
    if opType = 0 then (s.store addr opArg, compareOp cmp oldVal cmpArg)
    else
      match applyOp opType opArg oldVal with
      | .error e => (s, .error e)
      | .ok newVal => (s.store addr newVal, compareOp cmp oldVal cmpArg)

/-! ### Buckets -/

namespace State

/-- `bucket.waiters.PushBack(w)` and `w.bucket.Store(b)`. -/
def pushBack (s : State) (b : BucketId) (w : Waiter) : State :=
  { s with
    buckets := Function.update s.buckets b (s.buckets b ++ [w])
    bucket := Function.update s.bucket w.id (some b) }

/-- `bucket.wakeWaiterLocked` of the waiter `w`, at index `j` of bucket `b`. -/
def wakeWaiterLocked (s : State) (b : BucketId) (j : ℕ) (w : Waiter) : State :=
  { s with
    buckets := Function.update s.buckets b ((s.buckets b).eraseIdx j)
    woken := s.woken ++ [w.id]
    bucket := Function.update s.bucket w.id none }

/-- The waiter `w` at index `j` of bucket `b` leaves it and, with the key
`nkey`, joins the back of bucket `toBucket` (the source's `to`). -/
def moveWaiter (s : State) (b toBucket : BucketId) (j : ℕ) (w : Waiter) (nkey : Key) : State :=
  ({ s with buckets := Function.update s.buckets b ((s.buckets b).eraseIdx j) } : State).pushBack
    toBucket { w with key := nkey }

end State

/-- The waiters `wakeLocked` wakes: a matching key and a bitmask that meets
`bitmask`. -/
def wakes (key : Key) (bitmask : UInt32) (w : Waiter) : Bool :=
  w.key.matches key && w.bitmask &&& bitmask != 0

namespace State

/-- The loop of `bucket.wakeLocked` with `n` more waiters to wake and its
cursor at index `i`. -/
def wakeFrom (b : BucketId) (key : Key) (bitmask : UInt32) : ℕ → ℕ → State → State × ℕ
  | 0, _, s => (s, 0)
  | n + 1, i, s =>
    match findFrom (wakes key bitmask) (s.buckets b) i with
    | none => (s, 0)
    | some (j, w) =>
      -- `w.Next()` is taken first: nil when `w` is the last waiter
      if j + 1 = (s.buckets b).length then (s.wakeWaiterLocked b j w, 1)
      else
        let r := wakeFrom b key bitmask n j (s.wakeWaiterLocked b j w)
        (r.1, r.2 + 1)

/-- `bucket.wakeLocked`: up to `n` waiters from the front. -/
def wakeLocked (s : State) (b : BucketId) (key : Key) (bitmask : UInt32) (n : ℤ) : State × ℕ :=
  wakeFrom b key bitmask n.toNat 0 s

/-- The loop of `bucket.requeueLocked` with `n` more waiters to move and its
cursor at index `i`. -/
def requeueFrom (b toBucket : BucketId) (key nkey : Key) : ℕ → ℕ → State → State × ℕ
  | 0, _, s => (s, 0)
  | n + 1, i, s =>
    match findFrom (fun w => w.key.matches key) (s.buckets b) i with
    | none => (s, 0)
    | some (j, w) =>
      -- `w.Next()` is taken before `w` moves: nil when `w` is the last waiter
      if j + 1 = (s.buckets b).length then (s.moveWaiter b toBucket j w nkey, 1)
      else
        let r := requeueFrom b toBucket key nkey n j (s.moveWaiter b toBucket j w nkey)
        (r.1, r.2 + 1)

/-- `bucket.requeueLocked`: up to `n` waiters from the front of `b` move to
`toBucket` with the key `nkey`. -/
def requeueLocked (s : State) (b toBucket : BucketId) (key nkey : Key) (n : ℤ) : State × ℕ :=
  requeueFrom b toBucket key nkey n.toNat 0 s

end State

/-! ### The manager -/

section Manager

variable (getSharedKey : UInt64 → Except Errno Key)

namespace State

/-- `Manager.Wake` on the `m`-th manager. -/
def wake (s : State) (m : ℕ) (addr : UInt64) (isPrivate : Bool) (bitmask : UInt32) (n : ℤ) :
    State × Except Errno ℕ :=
  match getKey getSharedKey addr isPrivate with
  | .error e => (s, .error e)
  | .ok k =>
    let r := s.wakeLocked (lockBucket m k) k bitmask n
    (r.1, .ok r.2)

/-- `Manager.doRequeue`: wake up to `nwake` waiters on `addr`, then move up
to `nreq` of them to `naddr`; it returns the number woken. -/
def doRequeue (s : State) (m : ℕ) (addr naddr : UInt64) (isPrivate checkval : Bool)
    (val : UInt32) (nwake nreq : ℤ) : State × Except Errno ℕ :=
  match getKey getSharedKey addr isPrivate, getKey getSharedKey naddr isPrivate with
  | .error e, _ => (s, .error e)
  | .ok _, .error e => (s, .error e)
  | .ok k1, .ok k2 =>
    let bs := lockBuckets m k1 k2
    match (if checkval then s.check addr val else .ok ()) with
    | .error e => (s, .error e)
    | .ok () =>
      let r := s.wakeLocked bs.1 k1 0xffffffff nwake
      ((r.1.requeueLocked bs.1 bs.2 k1 k2 nreq).1, .ok r.2)

def requeue (s : State) (m : ℕ) (addr naddr : UInt64) (isPrivate : Bool) (nwake nreq : ℤ) :
    State × Except Errno ℕ :=
  s.doRequeue getSharedKey m addr naddr isPrivate false 0 nwake nreq

def requeueCmp (s : State) (m : ℕ) (addr naddr : UInt64) (isPrivate : Bool) (val : UInt32)
    (nwake nreq : ℤ) : State × Except Errno ℕ :=
  s.doRequeue getSharedKey m addr naddr isPrivate true val nwake nreq

def wakeOp (s : State) (m : ℕ) (addr1 addr2 : UInt64) (isPrivate : Bool) (nwake1 nwake2 : ℤ)
    (op : UInt32) : State × Except Errno ℕ :=
  match getKey getSharedKey addr1 isPrivate, getKey getSharedKey addr2 isPrivate with
  | .error e, _ => (s, .error e)
  | .ok _, .error e => (s, .error e)
  | .ok k1, .ok k2 =>
    let bs := lockBuckets m k1 k2
    match atomicOp s addr2 op with
    | (s, .error e) => (s, .error e)
    | (s, .ok cond) =>
      let r1 := s.wakeLocked bs.1 k1 0xffffffff nwake1
      if cond then
        let r2 := r1.1.wakeLocked bs.2 k2 0xffffffff nwake2
        (r2.1, .ok (r1.2 + r2.2))
      else (r1.1, .ok r1.2)

/-- `Manager.WaitPrepare` of the waiter `w`. -/
def waitPrepare (s : State) (m : ℕ) (w : Waiter) (addr : UInt64) (isPrivate : Bool)
    (val bitmask : UInt32) : State × Except Errno Unit :=
  match getKey getSharedKey addr isPrivate with
  | .error e => (s, .error e)
  | .ok k =>
    let w := { w with key := k, bitmask := bitmask }
    match s.check addr val with
    | .error e => (s, .error e)
    | .ok () => (s.pushBack (lockBucket m k) w, .ok ())

/-- `Manager.WaitComplete`: `w` leaves the bucket its pointer names. -/
def waitComplete (s : State) (w : Waiter) : State :=
  match s.bucket w.id with
  | none => s
  | some b =>
    { s with
      buckets := Function.update s.buckets b ((s.buckets b).eraseP (·.id == w.id))
      bucket := Function.update s.bucket w.id none }

def lockPILocked (s : State) (w : Waiter) (addr : UInt64) (tid : UInt32) (b : BucketId)
    (tryLock : Bool) : State × Except Errno Bool :=
  match s.loadUint32 addr with
  | .error e => (s, .error e)
  | .ok cur =>
    if cur &&& futexTidMask = tid then (s, .error .edeadlk)
    else if cur &&& futexTidMask = 0 then
      -- no owner: the word becomes `tid`, keeping the owner-died bit
      (s.store addr (tid ||| (cur &&& futexOwnerDied)), .ok true)
    else if tryLock then (s, .ok false)
    else
      let s := if cur &&& futexWaiters = 0 then s.store addr (cur ||| futexWaiters) else s
      (s.pushBack b w, .ok false)

/-- `Manager.LockPI` of the waiter `w`; `tryLock` is the source's `try`. -/
def lockPI (s : State) (m : ℕ) (w : Waiter) (addr : UInt64) (tid : UInt32)
    (isPrivate tryLock : Bool) : State × Except Errno Bool :=
  match getKey getSharedKey addr isPrivate with
  | .error e => (s, .error e)
  | .ok k => s.lockPILocked { w with key := k, tid := tid } addr tid (lockBucket m k) tryLock

/-- `Manager.unlockPILocked`: the next owner is the waiter at the front of the
bucket. -/
def unlockPILocked (s : State) (addr : UInt64) (tid : UInt32) (b : BucketId) :
    State × Except Errno Unit :=
  match s.loadUint32 addr with
  | .error e => (s, .error e)
  | .ok cur =>
    if cur &&& futexTidMask ≠ tid then (s, .error .eperm)
    else
      match s.buckets b with
      | [] => (s.store addr 0, .ok ())
      | next :: rest =>
        let val := if rest = [] then next.tid else next.tid ||| futexWaiters
        ((s.store addr val).wakeWaiterLocked b 0 next, .ok ())

def unlockPI (s : State) (m : ℕ) (addr : UInt64) (tid : UInt32) (isPrivate : Bool) :
    State × Except Errno Unit :=
  match getKey getSharedKey addr isPrivate with
  | .error e => (s, .error e)
  | .ok k => s.unlockPILocked addr tid (lockBucket m k)

end State

end Manager

end ContainerFS.Futex
