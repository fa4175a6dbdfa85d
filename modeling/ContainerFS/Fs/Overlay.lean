import ContainerFS.Imgfs.Mount

/-!
The container's root file system as `mountExpFS` stacks it: each layer image
mounted by `imgfs`, and each layer laid over the stack below it with
`fs.NewOverlayRoot`, so that the last layer is on top. A lookup in an overlay
inode (`overlayLookup`) takes the upper layer's child when there is one, hides
the lower's behind a whiteout of the upper, and keeps the lower's below an
upper child only when their types match, and then only for a directory.
`readdirEntries` lists the upper's names and those of the lower that the upper
neither whites out nor holds.

Each layer's inodes are `Node`s, the stack's `Inode`s; the lookups and
listings of an overlay inode take the lookup or listing of its lower as
given, so that the definitions follow the lower's recursion.
-/

namespace ContainerFS.Fs

open ContainerFS.Imgfs

/-- The errors of lookups and listings in the stack. -/
inductive Errno where
  | enoent
  | enotdir
  deriving DecidableEq, Repr

/-- `fs.InodeType`, for the inodes the layers hold. -/
inductive InodeType where
  | regularFile
  | directory
  | symlink
  deriving DecidableEq, Repr

/-- An inode of one mounted layer: an `imgfs` regular file, a symbolic link,
or a `ramfs` directory with its children and the names it whites out. -/
inductive Node (β : Type) where
  | file (inode : β) (modTime : ℤ)
  | symlink (target : String)
  | dir (contents : Contents β) (whiteouts : List String)
  deriving DecidableEq, Repr

end ContainerFS.Fs

namespace ContainerFS.Imgfs.Contents

open ContainerFS.Fs

variable {β : Type}

/-- The inode the `ramfs` map `children` holds for `x`. -/
def child? (x : String) : Contents β → Option (Node β)
  | .nil => none
  | .file name inode modTime rest => if name = x then some (.file inode modTime) else rest.child? x
  | .symlink name target rest => if name = x then some (.symlink target) else rest.child? x
  | .dir name contents whiteouts rest =>
    if name = x then some (.dir contents whiteouts) else rest.child? x

/-- The keys of the map, as `dentryMap` holds them. -/
def names : Contents β → List String
  | .nil => []
  | .file name _ _ rest | .symlink name _ rest | .dir name _ _ rest => name :: rest.names

theorem mem_names {c : Contents β} {x : String} : x ∈ c.names ↔ (c.child? x).isSome := by
  induction c with
  | nil => simp [names, child?]
  | file name _ _ rest ih | symlink name _ rest ih | dir name _ _ rest _ ih =>
    by_cases h : name = x
    · simp [names, child?, h]
    · simp [names, child?, h, ih, Ne.symm h]

end ContainerFS.Imgfs.Contents

namespace ContainerFS.Fs

open ContainerFS.Imgfs

variable {β : Type}

namespace Node

/-- The type in the inode's `StableAttr`. -/
def type : Node β → InodeType
  | .file .. => .regularFile
  | .symlink _ => .symlink
  | .dir .. => .directory

/-- `Inode.Lookup` on a layer's inode: `ramfs`'s `Dir.Lookup`, which fails
with ENOENT on a name its map lacks; files and links are `InodeNotDirectory`. -/
def lookup (x : String) : Node β → Except Errno (Node β)
  | .dir contents _ =>
    match contents.child? x with
    | some n => .ok n
    | none => .error .enoent
  | _ => .error .enotdir

/-- `overlayHasWhiteout`: the extended attribute that `MountImgRecursive` sets
to "y" on a directory for each whiteout entry. -/
def hasWhiteout (x : String) : Node β → Bool
  | .dir _ whiteouts => whiteouts.contains x
  | _ => false

/-- `readdirOne` on a layer's inode: the names of a `ramfs` directory but "."
and ".."; no other inode can be listed. -/
def readdir : Node β → Except Errno (List String)
  | .dir contents _ => .ok (contents.names.filter fun n => n != "." && n != "..")
  | _ => .error .enotdir

/-- The inode that `GetFile` reads from. -/
def file? : Node β → Option β
  | .file inode _ => some inode
  | _ => none

def readlink? : Node β → Option String
  | .symlink target => some target
  | _ => none

@[simp] theorem type_dir (c : Contents β) (w : List String) : (Node.dir c w).type = .directory := rfl

@[simp] theorem lookup_dir (x : String) (c : Contents β) (w : List String) :
    (Node.dir c w).lookup x = match c.child? x with
      | some n => .ok n
      | none => .error .enoent := rfl

theorem lookup_of_type_ne {n : Node β} (h : n.type ≠ .directory) (x : String) :
    n.lookup x = .error .enotdir := by
  cases n with
  | dir => exact absurd rfl h
  | file | symlink => rfl

@[simp] theorem hasWhiteout_dir (x : String) (c : Contents β) (w : List String) :
    (Node.dir c w).hasWhiteout x = w.contains x := rfl

end Node

/-- An inode of the stacked file system: a layer's own inode, or an overlay
inode over an `overlayEntry` whose upper is a layer's inode and whose lower is
an inode of the stack below, either or both (`newOverlayEntry` panics on
neither). -/
inductive Inode (β : Type) where
  | layer (n : Node β)
  | upper (u : Node β)
  | lower (l : Inode β)
  | both (u : Node β) (l : Inode β)
  deriving DecidableEq, Repr

/-- An optional child lookup, with ENOENT read as no child, as
`overlayLookup` reads the lookups of both layers. -/
def foundOrEnoent {α : Type} : Option (Except Errno α) → Except Errno (Option α)
  | some (.ok a) => .ok (some a)
  | some (.error .enotdir) => .error .enotdir
  | some (.error .enoent) | none => .ok none

namespace Inode

/-- The type in the `StableAttr`: an overlay inode takes the upper's when it
has one (`newOverlayInode`); stealing the lower's keeps the type. -/
def type : Inode β → InodeType
  | .layer n | .upper n | .both n _ => n.type
  | .lower l => l.type

/-- The end of `overlayLookup`: ENOENT when neither layer has the child, and
otherwise `newOverlayEntry` on those found, the lower dropped below an upper
child that is not a directory. -/
def newEntry : Option (Node β) → Option (Inode β) → Except Errno (Inode β)
  | none, none => .error .enoent
  | some u, some l => .ok (if u.type = .directory then .both u l else .upper u)
  | some u, none => .ok (.upper u)
  | none, some l => .ok (.lower l)

/-- `overlayLookup` of `x` in an overlay inode, given its upper and the result
of the lookup of `x` in its lower. -/
def overlayLookup (x : String) (upper : Option (Node β))
    (lowerChild : Option (Except Errno (Inode β))) : Except Errno (Inode β) :=
  match foundOrEnoent (upper.map (Node.lookup x)) with
  | .error e => .error e
  | .ok upperInode =>
    if upper.any (Node.hasWhiteout x) then
      match upperInode with
      | some u => .ok (.upper u)
      | none => .error .enoent
    else
      match foundOrEnoent lowerChild with
      | .error e => .error e
      | .ok lowerFound =>
        -- with only directories in the layers, `IsDir` on both types adds
        -- nothing to the types being equal
        newEntry upperInode (match upperInode with
          | none => lowerFound
          | some u => lowerFound.filter fun l => l.type == u.type)

/-- `Inode.Lookup`: a layer's own lookup, or `overlayLookup` on an overlay
inode. -/
def lookup (x : String) : Inode β → Except Errno (Inode β)
  | .layer n => (n.lookup x).map .layer
  | .upper u => overlayLookup x (some u) none
  | .lower l => overlayLookup x none (some (l.lookup x))
  | .both u l => overlayLookup x (some u) (some (l.lookup x))

/-- `Inode.Lookup` of the components of a path, one after another. -/
def lookupPath : Inode β → List String → Except Errno (Inode β)
  | i, [] => .ok i
  | i, x :: p => (i.lookup x).bind fun c => c.lookupPath p

/-- The inode that reads go to: an overlay's upper when it has one, and its
lower otherwise (`overlayGetFile`). -/
def file? : Inode β → Option β
  | .layer n | .upper n | .both n _ => n.file?
  | .lower l => l.file?

/-- `Readlink`, from the upper when there is one (`overlayReadlink`). -/
def readlink? : Inode β → Option String
  | .layer n | .upper n | .both n _ => n.readlink?
  | .lower l => l.readlink?

/-- `readdirOne`: for an overlay inode `readdirEntries`, the upper's names and
then those of the lower that the upper neither whites out nor holds. -/
def readdir : Inode β → Except Errno (List String)
  | .layer n | .upper n => n.readdir
  | .lower l => l.readdir
  | .both u l =>
    match u.readdir, l.readdir with
    | .ok upperNames, .ok lowerNames =>
      .ok (upperNames ++ lowerNames.filter fun n => !u.hasWhiteout n && !upperNames.contains n)
    | .error e, _ | .ok _, .error e => .error e

end Inode

inductive OverlayError where
  /-- "upper Inode is a %v, not a directory" -/
  | upperNotDirectory (t : InodeType)
  /-- "lower Inode is a %v, not a directory" -/
  | lowerNotDirectory (t : InodeType)
  deriving DecidableEq, Repr

/-- `fs.NewOverlayRoot`. The upper is a layer's inode, never an overlay, so
the check against nesting cannot fail. -/
def newOverlayRoot (upper : Node β) (lower : Inode β) : Except OverlayError (Inode β) :=
  if upper.type ≠ .directory then .error (.upperNotDirectory upper.type)
  else if lower.type ≠ .directory then .error (.lowerNotDirectory lower.type)
  else .ok (.both upper lower)

inductive MountExpError where
  /-- "mounting imgfs layer %v, layerFD %v, err: %v" -/
  | mountingLayer (index : ℕ) (e : MountError)
  /-- "creating imgfs overlay: %v" -/
  | creatingOverlay (e : OverlayError)
  /-- "container fs: currentNode is nil" -/
  | currentNodeNil
  deriving DecidableEq, Repr

/-- The loop of `mountExpFS` from the layer `index` on, over each layer's
`imgFS.Mount` result, with `currentNode` the stack so far. -/
def mountLayers : ℕ → Option (Inode β) → List (Except MountError (Node β)) →
    Except MountExpError (Inode β)
  | _, none, [] => .error .currentNodeNil
  | _, some current, [] => .ok current
  | index, _, .error e :: _ => .error (.mountingLayer index e)
  | index, none, .ok n :: rest => mountLayers (index + 1) (some (.layer n)) rest
  | index, some current, .ok n :: rest =>
    match newOverlayRoot n current with
    | .ok current => mountLayers (index + 1) (some current) rest
    | .error e => .error (.creatingOverlay e)

/-- `mountExpFS` on the layers' `imgFS.Mount` results, bottom first, over the
`ramfs` directory tree of the submounts when there are any. -/
def mountExpFS (mountTree : Option (Contents β)) (layers : List (Except MountError (Node β))) :
    Except MountExpError (Inode β) :=
  mountLayers 0 (mountTree.map fun tree => .layer (.dir tree [])) layers

end ContainerFS.Fs
