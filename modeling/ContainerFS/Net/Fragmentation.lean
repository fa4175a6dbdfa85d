import ContainerFS.Net.Reassembly

/-!
`Fragmentation` (`network/fragmentation/fragmentation.go`): the reassemblers
by fragment id, the list that orders them for eviction, and the count of the
bytes they hold. `Process` runs in three sections under two mutexes: the
lookup of the reassembler under `f.mu`, its `process` under `r.mu`, and the
accounting, release and eviction under `f.mu` again.

The reassemblers are objects that several calls share, so they live in a
store and the map and the list hold references to them. A call of `Process`
is a `Call` that takes its three sections as three steps (`Call.step`), and a
run of several calls is a schedule of steps (`runSchedule`). Time is the
input `now`, in nanoseconds.
-/

namespace ContainerFS.Net

open Buffer

variable {α : Type}

/-- A reassembler as the map and the list refer to it: its place in the
store. -/
abbrev Ref := ℕ

/-- `DefaultReassembleTimeout`: thirty seconds. -/
def defaultReassembleTimeout : ℕ := 30 * 10 ^ 9

/-- `HighFragThreshold`: 4 MB. -/
def highFragThreshold : ℤ := 4 * 2 ^ 20

/-- `LowFragThreshold`: 3 MB. -/
def lowFragThreshold : ℤ := 3 * 2 ^ 20

/-- `Fragmentation`, without its mutex: the map `reassemblers` as a list of
entries, `rList` from front to back, the store of reassembler objects, and the
values `release` logs as "memory counter < 0". -/
structure Fragmentation (α : Type) where
  highLimit : ℤ
  lowLimit : ℤ
  reassemblers : List (ℕ × Ref)
  rList : List Ref
  size : ℤ
  timeout : ℕ
  store : List (Reassembler α)
  log : List ℤ
  deriving DecidableEq, Repr

/-- `NewFragmentation`: the low limit at most the high one, and not negative. -/
def newFragmentation (highMemoryLimit lowMemoryLimit : ℤ) (reassemblingTimeout : ℕ) :
    Fragmentation α :=
  let lowMemoryLimit := if lowMemoryLimit ≥ highMemoryLimit then highMemoryLimit else lowMemoryLimit
  let lowMemoryLimit := if lowMemoryLimit < 0 then 0 else lowMemoryLimit
  ⟨highMemoryLimit, lowMemoryLimit, [], [], 0, reassemblingTimeout, [], []⟩

/-- `tooOld`: created more than `timeout` before `now`. -/
def Reassembler.tooOld (r : Reassembler α) (now timeout : ℕ) : Bool :=
  decide (now - r.creationTime > timeout)

namespace Fragmentation

/-- `release`: a reassembler not yet marked done is marked, dropped from the
map and the list, and its bytes taken off the count, which is set back to
zero, and logged, if it goes below. -/
def release (f : Fragmentation α) (ref : Ref) : Fragmentation α :=
  match f.store[ref]? with
  | none => f
  | some r =>
    let (prev, r) := r.checkDoneOrMark
    let f := { f with store := f.store.set ref r }
    if prev then f
    else
      let f := { f with
        reassemblers := f.reassemblers.filter (·.1 ≠ r.id)
        rList := f.rList.erase ref
        size := f.size - r.size }
      if f.size < 0 then { f with log := f.log ++ [f.size], size := 0 } else f

/-- The eviction loop, over the list from its back: `tail.Prev()` of a
released reassembler is the one before it when it was removed, since
`Remove` leaves the removed element's links as they were. -/
def evict (f : Fragmentation α) : List Ref → Fragmentation α
  | [] => f
  | tail :: rest => if f.size > f.lowLimit then evict (f.release tail) rest else f

/-- The first section of `Process`: the reassembler for `id`, released and
replaced by a new one at the front of the list when it is too old. -/
def lookup (f : Fragmentation α) (id now : ℕ) : Fragmentation α × Ref :=
  let (f, found) : Fragmentation α × Option Ref :=
    match f.reassemblers.lookup id with
    | some ref =>
      if ((f.store[ref]?).map fun r => r.tooOld now f.timeout) = some true then (f.release ref, none)
      else (f, some ref)
    | none => (f, none)
  match found with
  | some ref => (f, ref)
  | none =>
    let ref := f.store.length
    ({ f with
        store := f.store ++ [newReassembler id now]
        reassemblers := (id, ref) :: f.reassemblers.filter (·.1 ≠ id)
        rList := ref :: f.rList }, ref)

/-- The second section: `process` on the reassembler, under its own mutex. -/
def processAt (f : Fragmentation α) (ref : Ref) (first last : ℕ) (more : Bool)
    (vv : VectorisedView α) : Except Panic (Fragmentation α × VectorisedView α × Bool × ℕ) :=
  match f.store[ref]? with
  | none => .ok (f, .empty, false, 0)
  | some r =>
    match r.process first last more vv with
    | .error e => .error e
    | .ok (r, res, done, consumed) => .ok ({ f with store := f.store.set ref r }, res, done, consumed)

/-- The third section: the bytes stored are counted, a complete packet's
reassembler released, and reassemblers evicted from the back while the count
is above the high limit, until it is down to the low one. -/
def account (f : Fragmentation α) (ref : Ref) (done : Bool) (consumed : ℕ) : Fragmentation α :=
  let f := { f with size := f.size + consumed }
  let f := if done then f.release ref else f
  if f.size > f.highLimit then f.evict f.rList.reverse else f

/-- `Process` with no other call beside it: the three sections in a row. -/
def process (f : Fragmentation α) (id first last : ℕ) (more : Bool) (vv : VectorisedView α)
    (now : ℕ) : Except Panic (Fragmentation α × VectorisedView α × Bool) :=
  let (f, ref) := f.lookup id now
  match f.processAt ref first last more vv with
  | .error e => .error e
  | .ok (f, res, done, consumed) => .ok (f.account ref done consumed, res, done)

end Fragmentation

/-- How far a call of `Process` has got. -/
inductive Stage (α : Type) where
  | start
  | lookedUp (ref : Ref)
  | processed (ref : Ref) (res : VectorisedView α) (done : Bool) (consumed : ℕ)
  | returned (res : VectorisedView α) (done : Bool)
  | panicked (e : Panic)
  deriving DecidableEq, Repr

/-- A call of `Process`: its arguments, the time it runs at, and its stage. -/
structure Call (α : Type) where
  id : ℕ
  first : ℕ
  last : ℕ
  more : Bool
  vv : VectorisedView α
  now : ℕ
  stage : Stage α
  deriving DecidableEq, Repr

/-- The next section of a call, run atomically. -/
def Call.step (f : Fragmentation α) (c : Call α) : Fragmentation α × Call α :=
  match c.stage with
  | .start =>
    let (f, ref) := f.lookup c.id c.now
    (f, { c with stage := .lookedUp ref })
  | .lookedUp ref =>
    match f.processAt ref c.first c.last c.more c.vv with
    | .error e => (f, { c with stage := .panicked e })
    | .ok (f, res, done, consumed) => (f, { c with stage := .processed ref res done consumed })
  | .processed ref res done consumed => (f.account ref done consumed, { c with stage := .returned res done })
  | _ => (f, c)

/-- One step of the call `i`, if there is one. -/
def stepCall (s : Fragmentation α × List (Call α)) (i : ℕ) : Fragmentation α × List (Call α) :=
  match s.2[i]? with
  | none => s
  | some c =>
    let (f, c) := c.step s.1
    (f, s.2.set i c)

/-- A run of calls: the steps of the schedule, each naming the call that
takes it. -/
def runSchedule (s : Fragmentation α × List (Call α)) (schedule : List ℕ) :
    Fragmentation α × List (Call α) :=
  schedule.foldl stepCall s

/-- A fresh call of `Process` at time 0 for the first `len` bytes of the
packet `id`, more to follow. -/
def firstFragmentCall (id len : ℕ) : Call ℕ :=
  ⟨id, 0, len - 1, true, ⟨[List.replicate len 0], len⟩, 0, .start⟩

/-- The call for 20 bytes of the packet 1 looks up its reassembler and stores
them; the call for 12 bytes of the packet 2 does the same and counts its bytes,
over the high limit 10, so it evicts the back of the list, the first call's
reassembler, whose 20 bytes were not counted yet; then the first call counts
them and evicts the second's. -/
def driftRun : Fragmentation ℕ × List (Call ℕ) :=
  runSchedule (newFragmentation 10 5 defaultReassembleTimeout,
    [firstFragmentCall 1 20, firstFragmentCall 2 12]) [0, 0, 1, 1, 1, 0]

/-- After `driftRun` no reassembler is left, yet the count is 8, and the
first eviction took the count below zero and logged it. -/
theorem driftRun_size :
    driftRun.1.reassemblers = [] ∧ driftRun.1.rList = [] ∧ driftRun.1.size = 8 ∧
      driftRun.1.log = [-8] :=
  ⟨rfl, rfl, rfl, rfl⟩

end ContainerFS.Net
