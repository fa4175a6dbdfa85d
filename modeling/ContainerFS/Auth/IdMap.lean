import ContainerFS.Segment.Set

/-!
User namespaces and their ID maps (`pkg/sentry/kernel/auth`: `id_map.go`,
`id_map_functions.go`, `user_namespace.go`, `credentials.go`).

A namespace maps the user and group IDs of its parent to its own and back through two
segment sets per kind of ID, `...MapFromParent` and `...MapToParent`; a segment `[start, end)`
with value `v` maps `start + d` to `v + d`. The namespaces a translation walks form a chain:
a namespace is given with its ancestors, nearest first, and the root has none. In a chain of
namespaces, a namespace is named by its index, the innermost first, so that the parent of the
namespace at `i` is the one at `i + 1`; a writer's namespace is such an index, or `none` for a
namespace off the chain.

`SetUIDMap` and `SetGIDMap` differ only in the maps they write, the capability they ask
for and the effective ID of the writer they compare; they are `setIDMap` at an `IdKind`, and
so are the translations and the other functions of the two kinds. Both compare the writer's
effective user ID with the namespace's owner, as the source does.
-/

namespace ContainerFS.Auth

open Segment Segment.Set

/-- `NoID`: `uint32(-1)`, the ID that maps nowhere. -/
def noID : UInt32 := 0xFFFFFFFF

/-- `IDMapEntry`: `length` IDs from `firstID` map to as many from `firstParentID` in the
parent. -/
structure IDMapEntry where
  firstID : UInt32
  firstParentID : UInt32
  length : UInt32
  deriving DecidableEq, Repr

/-- `idMapSet`: segments of IDs, each valued by the first ID of its image. -/
abbrev IdMapSet := List (Range × UInt32)

/-- `idMapFunctions`: two adjacent segments merge when their images are adjacent too. -/
def idMapFunctions : Functions UInt32 where
  minKey := 0
  maxKey := noID.toNat
  merge r1 val1 _ val2 := if val1 + UInt32.ofNat r1.length ≠ val2 then none else some val1
  split r val split := (val, val + UInt32.ofNat (split - r.start))

/-- The errors of `SetUIDMap` and `SetGIDMap`. -/
inductive Errno where
  | eperm
  | einval
  deriving DecidableEq, Repr

/-- What panics under `SetUIDMap`: the segment set's checks, and `HasCapabilityIn` on the
root's nil parent (reached only if the root's maps were empty). -/
inductive Panic where
  | segment (p : SetPanic)
  | nilParent
  deriving DecidableEq, Repr

/-- User IDs or group IDs. -/
inductive IdKind where
  | uid
  | gid
  deriving DecidableEq, Repr

def capSetGID : ℕ := 6

def capSetUID : ℕ := 7

/-- The capability that writing the map of a kind asks for. -/
def IdKind.cap : IdKind → ℕ
  | .uid => capSetUID
  | .gid => capSetGID

/-- `UserNamespace`, without its mutex; its parent is the next namespace of the chain. -/
structure UserNamespace where
  owner : UInt32
  uidMapFromParent : IdMapSet
  uidMapToParent : IdMapSet
  gidMapFromParent : IdMapSet
  gidMapToParent : IdMapSet
  deriving DecidableEq, Repr

/-- The part of `Credentials` that writing an ID map reads. -/
structure Credentials where
  effectiveKUID : UInt32
  effectiveKGID : UInt32
  effectiveCaps : UInt64
  /-- `UserNamespace`, as the index of a namespace of the chain. -/
  userNamespace : Option ℕ
  deriving DecidableEq, Repr

/-- The writer's effective ID of a kind. -/
def Credentials.effectiveID (c : Credentials) : IdKind → UInt32
  | .uid => c.effectiveKUID
  | .gid => c.effectiveKGID

namespace UserNamespace

/-- `uidMapFromParent` or `gidMapFromParent`. -/
def mapFromParent (ns : UserNamespace) : IdKind → IdMapSet
  | .uid => ns.uidMapFromParent
  | .gid => ns.gidMapFromParent

/-- `uidMapToParent` or `gidMapToParent`. -/
def mapToParent (ns : UserNamespace) : IdKind → IdMapSet
  | .uid => ns.uidMapToParent
  | .gid => ns.gidMapToParent

def setMapFromParent (ns : UserNamespace) : IdKind → IdMapSet → UserNamespace
  | .uid, m => { ns with uidMapFromParent := m }
  | .gid, m => { ns with gidMapFromParent := m }

def setMapToParent (ns : UserNamespace) : IdKind → IdMapSet → UserNamespace
  | .uid, m => { ns with uidMapToParent := m }
  | .gid, m => { ns with gidMapToParent := m }

/-- `RemoveAll` on both maps of a kind. -/
def removeAll (ns : UserNamespace) (k : IdKind) : UserNamespace :=
  (ns.setMapFromParent k []).setMapToParent k []

section Fields

variable (ns : UserNamespace) (k k' : IdKind) (m : IdMapSet)

@[simp] theorem mapFromParent_setMapFromParent :
    (ns.setMapFromParent k m).mapFromParent k' = if k' = k then m else ns.mapFromParent k' := by
  cases k <;> cases k' <;> rfl

@[simp] theorem mapToParent_setMapFromParent :
    (ns.setMapFromParent k m).mapToParent k' = ns.mapToParent k' := by
  cases k <;> cases k' <;> rfl

@[simp] theorem mapFromParent_setMapToParent :
    (ns.setMapToParent k m).mapFromParent k' = ns.mapFromParent k' := by
  cases k <;> cases k' <;> rfl

@[simp] theorem mapToParent_setMapToParent :
    (ns.setMapToParent k m).mapToParent k' = if k' = k then m else ns.mapToParent k' := by
  cases k <;> cases k' <;> rfl

@[simp] theorem owner_setMapFromParent : (ns.setMapFromParent k m).owner = ns.owner := by
  cases k <;> rfl

@[simp] theorem owner_setMapToParent : (ns.setMapToParent k m).owner = ns.owner := by
  cases k <;> rfl

end Fields

end UserNamespace

/-! ### Translation -/

/-- `mapID`: the image of `id` under the segment that holds it. -/
def mapID (m : IdMapSet) (id : UInt32) : UInt32 :=
  if id = noID then noID
  else
    match findSegment m id.toNat with
    | some seg => seg.2 + (id - UInt32.ofNat seg.1.start)
    | none => noID

/-- `allIDsMapped`: the set holds every ID of `[start, stop)`. -/
def allIDsMapped (m : IdMapSet) (start stop : UInt32) : Bool :=
  spanRange m ⟨start.toNat, stop.toNat⟩ == (stop - start).toNat

/-- `MapToKUID` and `MapToKGID` from the namespace `ns` with its ancestors. -/
def mapToKID (k : IdKind) : UserNamespace → List UserNamespace → UInt32 → UInt32
  | _, [], id => id
  | ns, parent :: ancestors, id => mapToKID k parent ancestors (mapID (ns.mapToParent k) id)

/-- `MapFromKUID` and `MapFromKGID` into the namespace `ns` with its ancestors. -/
def mapFromKID (k : IdKind) : UserNamespace → List UserNamespace → UInt32 → UInt32
  | _, [], kid => kid
  | ns, parent :: ancestors, kid => mapID (ns.mapFromParent k) (mapFromKID k parent ancestors kid)

def mapToKUID (ns : UserNamespace) (ancestors : List UserNamespace) (uid : UInt32) : UInt32 :=
  mapToKID .uid ns ancestors uid

def mapToKGID (ns : UserNamespace) (ancestors : List UserNamespace) (gid : UInt32) : UInt32 :=
  mapToKID .gid ns ancestors gid

def mapFromKUID (ns : UserNamespace) (ancestors : List UserNamespace) (kuid : UInt32) : UInt32 :=
  mapFromKID .uid ns ancestors kuid

def mapFromKGID (ns : UserNamespace) (ancestors : List UserNamespace) (kgid : UInt32) : UInt32 :=
  mapFromKID .gid ns ancestors kgid

/-! ### Writing a map -/

def capabilitySetOf (cp : ℕ) : UInt64 := 1 <<< cp.toUInt64

/-- `HasCapabilityIn`: the loop climbs from the namespace at index `i`, followed by its
ancestors in `view`. An empty `view` is a nil namespace. -/
def hasCapabilityIn (c : Credentials) (cp : ℕ) : ℕ → List UserNamespace → Bool
  | _, [] => false
  | i, ns :: ancestors =>
    if c.userNamespace = some i then c.effectiveCaps &&& capabilitySetOf cp != 0
    else if ancestors ≠ [] ∧ c.userNamespace = some (i + 1) ∧ c.effectiveKUID = ns.owner then
      true
    else hasCapabilityIn c cp (i + 1) ancestors

/-- The one entry a writer without the capability in the parent may write: of length one, from
its own effective ID in the parent, into a namespace it owns. -/
def ownEntryOnly (k : IdKind) (c : Credentials) (ns parent : UserNamespace)
    (ancestors : List UserNamespace) : List IDMapEntry → Bool
  | [e] =>
    mapToKID k parent ancestors e.firstParentID == c.effectiveID k && e.length == 1 &&
      c.effectiveKUID == ns.owner
  | _ => false

/-- `trySetUIDMap` and `trySetGIDMap`: each entry is checked and added to the map from the
parent, then to the map to it; the first failure ends the loop with the maps as they are. -/
def trySetIDMap (k : IdKind) (parent : UserNamespace) :
    UserNamespace → List IDMapEntry → Except SetPanic (UserNamespace × Except Errno Unit)
  | ns, [] => .ok (ns, .ok ())
  | ns, e :: entries =>
    let lastID := e.firstID + e.length
    if lastID ≤ e.firstID then .ok (ns, .error .einval)
    else
      let lastParentID := e.firstParentID + e.length
      if lastParentID ≤ e.firstParentID then .ok (ns, .error .einval)
      else if !allIDsMapped (parent.mapToParent k) e.firstParentID lastParentID then
        .ok (ns, .error .eperm)
      else
        match add idMapFunctions (ns.mapFromParent k)
            ⟨e.firstParentID.toNat, lastParentID.toNat⟩ e.firstID with
        | .error p => .error p
        | .ok none => .ok (ns, .error .einval)
        | .ok (some fromParent) =>
          let ns := ns.setMapFromParent k fromParent
          match add idMapFunctions (ns.mapToParent k) ⟨e.firstID.toNat, lastID.toNat⟩
              e.firstParentID with
          | .error p => .error p
          | .ok none => .ok (ns, .error .einval)
          | .ok (some toParent) => trySetIDMap k parent (ns.setMapToParent k toParent) entries

/-- `SetUIDMap` and `SetGIDMap` on the namespace `ns` at index `i` of the chain, with its
ancestors, by a writer with credentials `c`. A failure of the loop removes all of both maps. -/
def setIDMap (k : IdKind) (c : Credentials) (i : ℕ) (ns : UserNamespace)
    (ancestors : List UserNamespace) (entries : List IDMapEntry) :
    Except Panic (UserNamespace × Except Errno Unit) :=
  if ns.mapFromParent k ≠ [] then .ok (ns, .error .eperm)
  else if entries = [] then .ok (ns, .error .einval)
  else if !hasCapabilityIn c k.cap i (ns :: ancestors) then .ok (ns, .error .eperm)
  else if c.userNamespace ≠ some i ∧ (ancestors = [] ∨ c.userNamespace ≠ some (i + 1)) then
    .ok (ns, .error .eperm)
  else
    match ancestors with
    | [] => .error .nilParent
    | parent :: rest =>
      if !hasCapabilityIn c k.cap (i + 1) ancestors &&
          !ownEntryOnly k c ns parent rest entries then
        .ok (ns, .error .eperm)
      else
        match trySetIDMap k parent ns entries with
        | .error p => .error (.segment p)
        | .ok (ns', .error e) => .ok (ns'.removeAll k, .error e)
        | .ok (ns', .ok ()) => .ok (ns', .ok ())

def setUIDMap (c : Credentials) (i : ℕ) (ns : UserNamespace) (ancestors : List UserNamespace)
    (entries : List IDMapEntry) : Except Panic (UserNamespace × Except Errno Unit) :=
  setIDMap .uid c i ns ancestors entries

def setGIDMap (c : Credentials) (i : ℕ) (ns : UserNamespace) (ancestors : List UserNamespace)
    (entries : List IDMapEntry) : Except Panic (UserNamespace × Except Errno Unit) :=
  setIDMap .gid c i ns ancestors entries

/-- `getIDMap`: the segments of a map to the parent, in key order, as entries. -/
def getIDMap (m : IdMapSet) : List IDMapEntry :=
  m.map fun seg => ⟨UInt32.ofNat seg.1.start, seg.2, UInt32.ofNat seg.1.length⟩

def uidMap (ns : UserNamespace) : List IDMapEntry := getIDMap ns.uidMapToParent

def gidMap (ns : UserNamespace) : List IDMapEntry := getIDMap ns.gidMapToParent

/-! ### Chains of namespaces -/

/-- The map the root has in each of its four places: all IDs but `NoID` to themselves. -/
def rootMap : IdMapSet := [(⟨0, noID.toNat⟩, 0)]

def newRootUserNamespace : UserNamespace := ⟨0, rootMap, rootMap, rootMap, rootMap⟩

/-- The namespace `NewChildUserNamespace` creates for a writer with effective user ID `owner`:
no maps yet. -/
def newChild (owner : UInt32) : UserNamespace := ⟨owner, [], [], [], []⟩

/-- A chain as it is created: namespaces with the given owners, the innermost first, above a
new root. -/
def initChain (owners : List UInt32) : List UserNamespace :=
  owners.map newChild ++ [newRootUserNamespace]

/-- A call of `SetUIDMap` or `SetGIDMap` on the namespace at index `i` that returns. -/
inductive Step : List UserNamespace → List UserNamespace → Prop
  | setIDMap {chain : List UserNamespace} (k : IdKind) (c : Credentials) (i : ℕ)
      (entries : List IDMapEntry) (ns ns' : UserNamespace) (ancestors : List UserNamespace)
      (err : Except Errno Unit) :
      chain.drop i = ns :: ancestors → setIDMap k c i ns ancestors entries = .ok (ns', err) →
      Step chain (chain.set i ns')

/-- The chains reachable from a new one by calls that return. -/
inductive Reachable : List UserNamespace → Prop
  | init (owners : List UInt32) : Reachable (initChain owners)
  | step {chain chain' : List UserNamespace} : Reachable chain → Step chain chain' →
      Reachable chain'

end ContainerFS.Auth
