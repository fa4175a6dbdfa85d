import ContainerFS.P9.Codec

/-!
The 9P server's handlers (`p9/handlers.go`) over one connection: the FID
table (`connState.fids`), the `fidRef`s it points to, and the path tree
(`p9/path_tree.go`) that names them under their parents.

The attacher and its files are an oracle: each `File` method answers as a
function of the calls made before it, which the server's trace records with
what came back, so that every backend is one instance of the model. Files are
values of an arbitrary type.

A handler runs as one step, as it does under the server's locks. Reference
counts and `Close` are not modelled: a ref whose count falls to zero is one no
FID reaches any more. A Go panic (`nameFor` of an unregistered ref, `addChild`
of a registered one) is `none`.
-/

namespace ContainerFS.P9

/-! ### Errors, modes and names -/

abbrev Errno := UInt32

def EBADF : Errno := 9
def EBUSY : Errno := 16
def EINVAL : Errno := 22
def ENOSYS : Errno := 38
def ENODATA : Errno := 61

def noFID : FID := 0xffffffff

def noUID : UID := 0xffffffff

def fileModeMask : FileMode := 0o170000
def modeSocket : FileMode := 0o140000
def modeSymlink : FileMode := 0o120000
def modeRegular : FileMode := 0o100000
def modeBlockDevice : FileMode := 0o60000
def modeDirectory : FileMode := 0o40000
def modeCharacterDevice : FileMode := 0o20000
def modeNamedPipe : FileMode := 0o10000

def FileMode.fileType (m : FileMode) : FileMode := m &&& fileModeMask

def FileMode.isDir (m : FileMode) : Bool := m &&& fileModeMask == modeDirectory

/-- `CanOpen`: every type but symlinks and sockets. -/
def canOpen (m : FileMode) : Bool :=
  [modeRegular, modeDirectory, modeNamedPipe, modeBlockDevice, modeCharacterDevice].contains
    (m &&& fileModeMask)

def readOnly : OpenFlags := 0
def openFlagsModeMask : OpenFlags := 3

/-- `OpenFlagsIgnoreMask`: `O_DIRECTORY | O_NOATIME | O_LARGEFILE`. -/
def openFlagsIgnoreMask : OpenFlags := 0o200000 ||| 0o1000000 ||| 0o100000

def AttrMask.all : AttrMask :=
  ⟨true, true, true, true, true, true, true, true, true, true, true, true, true, true⟩

/-- The zero `AttrMask`. -/
def AttrMask.zero : AttrMask :=
  ⟨false, false, false, false, false, false, false, false, false, false, false, false, false,
    false⟩

/-- The zero `Attr`. -/
def Attr.zero : Attr := ⟨0, 0, 0, 0, 0, 0, 0, 0, 0, 0, 0, 0, 0, 0, 0, 0, 0, 0⟩

/-- The byte `/`. -/
def slash : UInt8 := 0x2f

/-- `checkSafeName`: not empty, no `/`, and neither `.` nor `..`. -/
def checkSafeName (name : GoString) : Except Errno Unit :=
  if name ≠ [] ∧ slash ∉ name ∧ name ≠ [0x2e] ∧ name ≠ [0x2e, 0x2e] then .ok () else .error EINVAL

/-! ### The files' side -/

/-- A call the server makes on the attacher or a `File`, with what it passes
and, where the server goes on with it, what came back. -/
inductive Call (F : Type) where
  | attach (result : Except Errno F)
  | getAttr (file : F) (result : Except Errno (QID × AttrMask × Attr))
  | walk (file : F) (names : List GoString) (result : Except Errno (List QID × F))
  | walkGetAttr (file : F) (names : List GoString)
      (result : Except Errno (List QID × F × AttrMask × Attr))
  | lopen (file : F) (flags : OpenFlags)
  | create (file : F) (name : GoString) (result : Except Errno F)
  | mkdir (file : F) (name : GoString)
  | symlink (file : F) (target name : GoString)
  | link (file target : F) (name : GoString)
  | mknod (file : F) (name : GoString)
  | renameAt (file : F) (oldName : GoString) (newDir : F) (newName : GoString)
  | unlinkAt (file : F) (name : GoString) (flags : UInt32)
  | other (file : F)

/-- The names a call passes: the path components, not a symlink's target. -/
def Call.names {F : Type} : Call F → List GoString
  | .walk _ names _ => names
  | .walkGetAttr _ names _ => names
  | .create _ name _ => [name]
  | .mkdir _ name => [name]
  | .symlink _ _ name => [name]
  | .link _ _ name => [name]
  | .mknod _ name => [name]
  | .renameAt _ oldName _ newName => [oldName, newName]
  | .unlinkAt _ name _ => [name]
  | _ => []

/-- `Attacher.Attach` and the `File` methods the handlers call, each answering
as a function of the calls before it. `other` is the one call that the
handlers of `Tgetattr`, `Tsetattr`, `Treaddir`, `Tread`, `Twrite`, `Tfsync`,
`Tstatfs`, `Tflushf`, `Treadlink` and `Tlconnect` make, with no name, and its
answer is their response. -/
structure Backend (F : Type) where
  attach : List (Call F) → Except Errno F
  getAttr : List (Call F) → F → Except Errno (QID × AttrMask × Attr)
  walk : List (Call F) → F → List GoString → Except Errno (List QID × F)
  walkGetAttr : List (Call F) → F → List GoString → Except Errno (List QID × F × AttrMask × Attr)
  lopen : List (Call F) → F → OpenFlags → Except Errno (Option FD × QID × UInt32)
  create : List (Call F) → F → GoString → OpenFlags → FileMode → UID → GID →
    Except Errno (Option FD × F × QID × UInt32)
  mkdir : List (Call F) → F → GoString → FileMode → UID → GID → Except Errno QID
  symlink : List (Call F) → F → GoString → GoString → UID → GID → Except Errno QID
  link : List (Call F) → F → F → GoString → Except Errno Unit
  mknod : List (Call F) → F → GoString → FileMode → UInt32 → UInt32 → UID → GID →
    Except Errno QID
  renameAt : List (Call F) → F → GoString → F → GoString → Except Errno Unit
  unlinkAt : List (Call F) → F → GoString → UInt32 → Except Errno Unit
  other : List (Call F) → F → Except Errno Message

/-! ### The connection's state -/

/-- `fidRef`. `pathNode` and `parent` name a node and a ref of the state. -/
structure FidRef (F : Type) where
  file : F
  opened : Bool
  mode : FileMode
  openFlags : OpenFlags
  pathNode : ℕ
  parent : Option ℕ
  deleted : Bool

/-- `pathNode`: the refs registered under it with their names, and its
children by name. -/
structure PathNode where
  fidRefs : List (ℕ × GoString)
  children : List (GoString × ℕ)

/-- `connState` with the server's path tree: refs and nodes are named by their
index, and node 0 is `server.pathTree`. -/
structure ConnState (F : Type) where
  fids : FID → Option ℕ
  refs : List (FidRef F)
  nodes : List PathNode
  trace : List (Call F)

variable {F : Type}

/-- A new connection: no FIDs, no refs, the empty path tree, no calls. -/
def ConnState.init : ConnState F := ⟨fun _ => none, [], [⟨[], []⟩], []⟩

namespace ConnState

/-- The call `c` made. -/
def record (cs : ConnState F) (c : Call F) : ConnState F := { cs with trace := cs.trace ++ [c] }

/-- `LookupFID`: the ref a FID points to, with its index. -/
def lookupFID (cs : ConnState F) (fid : FID) : Option (ℕ × FidRef F) :=
  (cs.fids fid).bind fun i => cs.refs[i]?.map fun r => (i, r)

def insertFID (cs : ConnState F) (fid : FID) (i : ℕ) : ConnState F :=
  { cs with fids := Function.update cs.fids fid (some i) }

/-- `DeleteFID`: whether the FID was there. -/
def deleteFID (cs : ConnState F) (fid : FID) : ConnState F × Bool :=
  match cs.fids fid with
  | none => (cs, false)
  | some _ => ({ cs with fids := Function.update cs.fids fid none }, true)

/-- A new ref, and its index. -/
def alloc (cs : ConnState F) (r : FidRef F) : ConnState F × ℕ :=
  ({ cs with refs := cs.refs ++ [r] }, cs.refs.length)

/-- A change to the ref at `i`. -/
def modifyRef (cs : ConnState F) (i : ℕ) (f : FidRef F → FidRef F) : ConnState F :=
  { cs with refs := cs.refs.modify i f }

def markDeleted (cs : ConnState F) (i : ℕ) : ConnState F :=
  cs.modifyRef i fun r => { r with deleted := true }

def node (cs : ConnState F) (n : ℕ) : PathNode := cs.nodes.getD n ⟨[], []⟩

def setNode (cs : ConnState F) (n : ℕ) (p : PathNode) : ConnState F :=
  { cs with nodes := cs.nodes.set n p }

/-- `pathNodeFor`: the child of `n` with the name, or a new one. -/
def pathNodeFor (cs : ConnState F) (n : ℕ) (name : GoString) : ConnState F × ℕ :=
  match (cs.node n).children.lookup name with
  | some c => (cs, c)
  | none =>
    let c := cs.nodes.length
    let p := cs.node n
    ({ cs with nodes := cs.nodes.set n { p with children := p.children ++ [(name, c)] } ++ [⟨[], []⟩] },
      c)

/-- `nameFor`: the name a ref is registered under; `none` panics. -/
def nameFor (cs : ConnState F) (n i : ℕ) : Option GoString := (cs.node n).fidRefs.lookup i

/-- `addChild`: the ref registered under the name; a ref registered already
panics. -/
def addChild (cs : ConnState F) (n i : ℕ) (name : GoString) : Option (ConnState F) :=
  let p := cs.node n
  if (p.fidRefs.lookup i).isSome then none
  else some (cs.setNode n { p with fidRefs := p.fidRefs ++ [(i, name)] })

/-- `removeWithName`: the refs under the name leave the node and `fn` runs on
each; then the child of that name leaves it, and is returned. -/
def removeWithName (cs : ConnState F) (n : ℕ) (name : GoString)
    (fn : ConnState F → ℕ → Option (ConnState F)) : Option (ConnState F × ℕ) := do
  let p := cs.node n
  let cs := cs.setNode n { p with fidRefs := p.fidRefs.filter fun e => e.2 != name }
  let cs ← (p.fidRefs.filter fun e => e.2 == name).foldlM (fun cs e => fn cs e.1) cs
  let (cs, orig) := cs.pathNodeFor n name
  let p := cs.node n
  pure (cs.setNode n { p with children := p.children.filter fun c => c.1 != name }, orig)

/-- `notifyDelete`: every ref under the node and its subtree is marked
deleted. The tree has fewer levels than nodes, so that many rounds reach
its leaves. -/
def notifyDelete : ℕ → ConnState F → ℕ → ConnState F
  | 0, cs, _ => cs
  | fuel + 1, cs, n =>
    let cs := (cs.node n).fidRefs.foldl (fun cs e => cs.markDeleted e.1) cs
    (cs.node n).children.foldl (fun cs c => notifyDelete fuel cs c.2) cs

def markChildDeleted (cs : ConnState F) (f : FidRef F) (name : GoString) :
    Option (ConnState F) := do
  let (cs, orig) ← cs.removeWithName f.pathNode name fun cs i => some (cs.markDeleted i)
  pure (notifyDelete cs.nodes.length cs orig)

/-- `renameChildTo`: the refs under the old name move to the target under the
new one, and the subtree's node is stored back under the new name. -/
def renameChildTo (cs : ConnState F) (f : FidRef F) (oldName : GoString) (targetId : ℕ)
    (target : FidRef F) (newName : GoString) : Option (ConnState F) := do
  let cs ← cs.markChildDeleted target newName
  let (cs, orig) ← cs.removeWithName f.pathNode oldName fun cs i =>
    (cs.modifyRef i fun r => { r with parent := some targetId }).addChild target.pathNode i newName
  let p := cs.node f.pathNode
  pure (cs.setNode f.pathNode
    { p with children := (p.children.filter fun c => c.1 != newName) ++ [(newName, orig)] })

end ConnState

/-! ### Walks -/

section Handlers

variable (fs : Backend F)

open ConnState

/-- The `default` case of `walkOne`'s `switch`: `Walk`, then `GetAttr` of the
new file when `getattr`, and zero attributes otherwise. -/
def walkDefault (cs : ConnState F) (src : F) (names : List GoString) (getattr : Bool) :
    ConnState F × Except Errno (List QID × F × AttrMask × Attr) :=
  let r := fs.walk cs.trace src names
  let cs := cs.record (.walk src names r)
  match r with
  | .error e => (cs, .error e)
  | .ok (qs, sf) =>
    if getattr then
      let a := fs.getAttr cs.trace sf
      let cs := cs.record (.getAttr sf a)
      match a with
      | .error e => (cs, .error e)
      | .ok (_, valid, attr) => (cs, .ok (qs, sf, valid, attr))
    else (cs, .ok (qs, sf, AttrMask.zero, Attr.zero))

/-- The `switch` of `walkOne`: `WalkGetAttr` when `getattr`, falling through to
the default case when it answers `ENOSYS`. -/
def walkCalls (cs : ConnState F) (src : F) (names : List GoString) (getattr : Bool) :
    ConnState F × Except Errno (List QID × F × AttrMask × Attr) :=
  if getattr then
    let r := fs.walkGetAttr cs.trace src names
    let cs := cs.record (.walkGetAttr src names r)
    match r with
    | .error e => if e = ENOSYS then walkDefault fs cs src names getattr else (cs, .error e)
    | .ok res => (cs, .ok res)
  else walkDefault fs cs src names getattr

/-- `walkOne`: zero or one names walked from `src`; the walk must give one
QID. -/
def walkOne (cs : ConnState F) (qids : List QID) (src : F) (names : List GoString)
    (getattr : Bool) : ConnState F × Except Errno (List QID × F × AttrMask × Attr) :=
  if names.length > 1 then (cs, .error EINVAL)
  else
    match walkCalls fs cs src names getattr with
    | (cs, .error e) => (cs, .error e)
    | (cs, .ok (qs, sf, valid, attr)) =>
      if qs.length ≠ 1 then (cs, .error EINVAL) else (cs, .ok (qids ++ qs, sf, valid, attr))

/-- The loop of `doWalk`: each name walked from a directory, its new ref
registered under the name in the directory's node. -/
def walkNames : List GoString → ConnState F → ℕ → FidRef F → List QID → AttrMask × Attr →
    Option (ConnState F × Except Errno (List QID × ℕ × AttrMask × Attr))
  | [], cs, walkId, _, qids, (valid, attr) => some (cs, .ok (qids, walkId, valid, attr))
  | name :: names, cs, walkId, walkRef, qids, _ =>
    -- no walking past anything but a directory
    if !walkRef.mode.isDir then some (cs, .error EINVAL)
    else
      match walkOne fs cs qids walkRef.file [name] true with
      | (cs, .error e) => some (cs, .error e)
      | (cs, .ok (qids, sf, valid, attr)) =>
        let (cs, pn) := cs.pathNodeFor walkRef.pathNode name
        let newRef : FidRef F := ⟨sf, false, attr.mode.fileType, 0, pn, some walkId, false⟩
        let (cs, newId) := cs.alloc newRef
        match cs.addChild walkRef.pathNode newId name with
        | none => none
        | some cs => walkNames names cs newId newRef qids (valid, attr)

/-- `doWalk`: the names checked, then a clone for no names, and otherwise the
walk one name at a time. The new ref's index is returned. -/
def doWalk (cs : ConnState F) (refId : ℕ) (ref : FidRef F) (names : List GoString)
    (getattr : Bool) : Option (ConnState F × Except Errno (List QID × ℕ × AttrMask × Attr)) :=
  match names.mapM checkSafeName with
  | .error e => some (cs, .error e)
  | .ok _ =>
    if ref.opened then some (cs, .error EBUSY)
    else if names = [] then
      match walkOne fs cs [] ref.file [] getattr with
      | (cs, .error e) => some (cs, .error e)
      | (cs, .ok (_, sf, valid, attr)) =>
        let newRef : FidRef F := ⟨sf, false, ref.mode, 0, ref.pathNode, ref.parent, ref.deleted⟩
        let (cs, newId) := cs.alloc newRef
        -- a clone of a ref that is not a root joins its name under the parent
        match ref.parent with
        | none => some (cs, .ok ([], newId, valid, attr))
        | some parentId =>
          if newRef.deleted then some (cs, .ok ([], newId, valid, attr))
          else
            match cs.refs[parentId]? with
            | none => none
            | some parent =>
              match cs.nameFor parent.pathNode refId with
              | none => none
              | some name =>
                (cs.addChild parent.pathNode newId name).map fun cs =>
                  (cs, .ok ([], newId, valid, attr))
    else walkNames fs names cs refId ref [] (AttrMask.zero, Attr.zero)

/-! ### The handlers -/

/-- The response to a handler that failed: `newErr`. -/
def newErr (e : Errno) : Message := .rlerror ⟨e⟩

/-- `Tattach.handle`: a leading `/` is dropped, the attacher's root is taken,
and a non-empty attach name is split on `/` and walked from it. -/
def Tattach.handle (t : Tattach) (cs : ConnState F) : Option (ConnState F × Message) :=
  if t.auth.authenticationFID ≠ noFID then some (cs, newErr EINVAL)
  else
    let name := if t.auth.attachName.head? = some slash then t.auth.attachName.tail
      else t.auth.attachName
    let r := fs.attach cs.trace
    let cs := cs.record (.attach r)
    match r with
    | .error e => some (cs, newErr e)
    | .ok sf =>
      let a := fs.getAttr cs.trace sf
      let cs := cs.record (.getAttr sf a)
      match a with
      | .error e => some (cs, newErr e)
      | .ok (qid, valid, attr) =>
        if !valid.mode then some (cs, newErr EINVAL)
        else
          let root : FidRef F := ⟨sf, false, attr.mode.fileType, 0, 0, none, false⟩
          let (cs, rootId) := cs.alloc root
          if name = [] then some (cs.insertFID t.fid rootId, .rattach ⟨qid⟩)
          else
            match doWalk fs cs rootId root (name.splitOn slash) false with
            | none => none
            | some (cs, .error e) => some (cs, newErr e)
            | some (cs, .ok (_, newId, _, _)) => some (cs.insertFID t.fid newId, .rattach ⟨qid⟩)

/-- What `Twalk.handle` and `Twalkgetattr.handle` share: the FID looked up,
the walk, and the new FID installed with the walk's result as the response. -/
def walkHandle (fid newFID : FID) (names : List GoString) (getattr : Bool)
    (respond : List QID → AttrMask → Attr → Message) (cs : ConnState F) :
    Option (ConnState F × Message) :=
  match cs.lookupFID fid with
  | none => some (cs, newErr EBADF)
  | some (refId, ref) =>
    match doWalk fs cs refId ref names getattr with
    | none => none
    | some (cs, .error e) => some (cs, newErr e)
    | some (cs, .ok (qids, newId, valid, attr)) =>
      some (cs.insertFID newFID newId, respond qids valid attr)

def Twalk.handle (t : Twalk) : ConnState F → Option (ConnState F × Message) :=
  walkHandle fs t.fid t.newFID t.names false fun qids _ _ => .rwalk ⟨qids⟩

def Twalkgetattr.handle (t : Twalkgetattr) : ConnState F → Option (ConnState F × Message) :=
  walkHandle fs t.fid t.newFID t.names true fun qids valid attr => .rwalkgetattr ⟨valid, attr, qids⟩

/-- `Tlcreate.do`: the FID moves to the new file, opened. -/
def Tlcreate.do (t : Tlcreate) (uid : UID) (cs : ConnState F) :
    Option (ConnState F × Except Errno Rlcreate) :=
  match checkSafeName t.name with
  | .error e => some (cs, .error e)
  | .ok () =>
    match cs.lookupFID t.fid with
    | none => some (cs, .error EBADF)
    | some (refId, ref) =>
      if ref.deleted || !ref.mode.isDir then some (cs, .error EINVAL)
      else if ref.opened then some (cs, .error EINVAL)
      else
        let r := fs.create cs.trace ref.file t.name t.openFlags t.permissions uid t.gid
        let cs := cs.record (.create ref.file t.name (r.map fun x => x.2.1))
        match r with
        | .error e => some (cs, .error e)
        | .ok (osFile, nsf, qid, ioUnit) =>
          let (cs, pn) := cs.pathNodeFor ref.pathNode t.name
          let newRef : FidRef F := ⟨nsf, true, modeRegular, t.openFlags, pn, some refId, false⟩
          let (cs, newId) := cs.alloc newRef
          (cs.addChild ref.pathNode newId t.name).map fun cs =>
            (cs.insertFID t.fid newId, .ok ⟨⟨qid, ioUnit, osFile⟩⟩)

/-- What `Tmkdir.do`, `Tsymlink.do` and `Tmknod.do` share: the name checked,
the directory looked up, and the call made in it if it is a directory that is
neither deleted nor open. -/
def makeIn {α : Type} (dir : FID) (name : GoString) (call : F → Call F)
    (op : List (Call F) → F → Except Errno α) (cs : ConnState F) :
    ConnState F × Except Errno α :=
  match checkSafeName name with
  | .error e => (cs, .error e)
  | .ok () =>
    match cs.lookupFID dir with
    | none => (cs, .error EBADF)
    | some (_, ref) =>
      if ref.deleted || !ref.mode.isDir then (cs, .error EINVAL)
      else if ref.opened then (cs, .error EINVAL)
      else (cs.record (call ref.file), op cs.trace ref.file)

def Tmkdir.do (t : Tmkdir) (uid : UID) : ConnState F → ConnState F × Except Errno QID :=
  makeIn t.directory t.name (fun f => .mkdir f t.name)
    (fun tr f => fs.mkdir tr f t.name t.permissions uid t.gid)

def Tsymlink.do (t : Tsymlink) (uid : UID) : ConnState F → ConnState F × Except Errno QID :=
  makeIn t.directory t.name (fun f => .symlink f t.target t.name)
    (fun tr f => fs.symlink tr f t.target t.name uid t.gid)

def Tmknod.do (t : Tmknod) (uid : UID) : ConnState F → ConnState F × Except Errno QID :=
  makeIn t.directory t.name (fun f => .mknod f t.name)
    (fun tr f => fs.mknod tr f t.name t.permissions t.major t.minor uid t.gid)

/-- `Tlink.handle`: both FIDs are looked up before the directory is checked. -/
def Tlink.handle (t : Tlink) (cs : ConnState F) : ConnState F × Message :=
  match checkSafeName t.name with
  | .error e => (cs, newErr e)
  | .ok () =>
    match cs.lookupFID t.directory, cs.lookupFID t.target with
    | none, _ => (cs, newErr EBADF)
    | some _, none => (cs, newErr EBADF)
    | some (_, ref), some (_, refTarget) =>
      if ref.deleted || !ref.mode.isDir then (cs, newErr EINVAL)
      else if ref.opened then (cs, newErr EINVAL)
      else
        let r := fs.link cs.trace ref.file refTarget.file t.name
        (cs.record (.link ref.file refTarget.file t.name),
          match r with
          | .error e => newErr e
          | .ok () => .rlink)

def Trenameat.handle (t : Trenameat) (cs : ConnState F) : Option (ConnState F × Message) :=
  match checkSafeName t.oldName, checkSafeName t.newName with
  | .error e, _ => some (cs, newErr e)
  | .ok (), .error e => some (cs, newErr e)
  | .ok (), .ok () =>
    match cs.lookupFID t.oldDirectory, cs.lookupFID t.newDirectory with
    | none, _ => some (cs, newErr EBADF)
    | some _, none => some (cs, newErr EBADF)
    | some (_, ref), some (targetId, refTarget) =>
      if ref.deleted || !ref.mode.isDir || refTarget.deleted || !refTarget.mode.isDir then
        some (cs, newErr EINVAL)
      else if ref.opened then some (cs, newErr EINVAL)
      else if ref.pathNode = refTarget.pathNode ∧ t.oldName = t.newName then some (cs, .rrenameat)
      else
        let r := fs.renameAt cs.trace ref.file t.oldName refTarget.file t.newName
        let cs := cs.record (.renameAt ref.file t.oldName refTarget.file t.newName)
        match r with
        | .error e => some (cs, newErr e)
        | .ok () =>
          (cs.renameChildTo ref t.oldName targetId refTarget t.newName).map fun cs =>
            (cs, .rrenameat)

/-- `Tunlinkat.handle`: the child's node is taken (made if need be) before the
unlink, and on success every ref under the name is marked deleted. -/
def Tunlinkat.handle (t : Tunlinkat) (cs : ConnState F) : Option (ConnState F × Message) :=
  match checkSafeName t.name with
  | .error e => some (cs, newErr e)
  | .ok () =>
    match cs.lookupFID t.directory with
    | none => some (cs, newErr EBADF)
    | some (_, ref) =>
      if ref.deleted || !ref.mode.isDir then some (cs, newErr EINVAL)
      else if ref.opened then some (cs, newErr EINVAL)
      else
        let (cs, _) := cs.pathNodeFor ref.pathNode t.name
        let r := fs.unlinkAt cs.trace ref.file t.name t.flags
        let cs := cs.record (.unlinkAt ref.file t.name t.flags)
        match r with
        | .error e => some (cs, newErr e)
        | .ok () => (cs.markChildDeleted ref t.name).map fun cs => (cs, .runlinkat)

/-- `Trename.handle`: the ref's own name comes from its parent's node. -/
def Trename.handle (t : Trename) (cs : ConnState F) : Option (ConnState F × Message) :=
  match checkSafeName t.name with
  | .error e => some (cs, newErr e)
  | .ok () =>
    match cs.lookupFID t.fid, cs.lookupFID t.directory with
    | none, _ => some (cs, newErr EBADF)
    | some _, none => some (cs, newErr EBADF)
    | some (refId, ref), some (targetId, refTarget) =>
      match ref.parent with
      | none => some (cs, newErr EINVAL)
      | some parentId =>
        if ref.deleted || refTarget.deleted || !refTarget.mode.isDir then some (cs, newErr EINVAL)
        else
          match cs.refs[parentId]? with
          | none => none
          | some parent =>
            -- a live ref under a deleted parent is a panic
            if parent.deleted then none
            else
              match cs.nameFor parent.pathNode refId with
              | none => none
              | some oldName =>
                if parent.pathNode = refTarget.pathNode ∧ oldName = t.name then
                  some (cs, .rrename)
                else
                  let r := fs.renameAt cs.trace parent.file oldName refTarget.file t.name
                  let cs := cs.record (.renameAt parent.file oldName refTarget.file t.name)
                  match r with
                  | .error e => some (cs, newErr e)
                  | .ok () =>
                    (cs.renameChildTo parent oldName targetId refTarget t.name).map fun cs =>
                      (cs, .rrename)

/-- `Tremove.handle`: the file is unlinked from its parent by its own name,
and the FID is clunked whether or not that succeeds. -/
def Tremove.handle (t : Tremove) (cs : ConnState F) : Option (ConnState F × Message) :=
  match cs.lookupFID t.fid with
  | none => some (cs, newErr EBADF)
  | some (refId, ref) =>
    let removed : Option (ConnState F × Except Errno Unit) :=
      match ref.parent with
      | none => some (cs, .error EINVAL)
      | some parentId =>
        if ref.deleted then some (cs, .error EINVAL)
        else
          match cs.refs[parentId]? with
          | none => none
          | some parent =>
            match cs.nameFor parent.pathNode refId with
            | none => none
            | some name =>
              let r := fs.unlinkAt cs.trace parent.file name 0
              let cs := cs.record (.unlinkAt parent.file name 0)
              match r with
              | .error e => some (cs, .error e)
              | .ok () => (cs.markChildDeleted parent name).map fun cs => (cs, .ok ())
    removed.map fun (cs, r) =>
      match cs.deleteFID t.fid with
      | (cs, false) => (cs, newErr EBADF)
      | (cs, true) =>
        match r with
        | .error e => (cs, newErr e)
        | .ok () => (cs, .rremove)

def Tclunk.handle (t : Tclunk) (cs : ConnState F) : ConnState F × Message :=
  match cs.deleteFID t.fid with
  | (cs, false) => (cs, newErr EBADF)
  | (cs, true) => (cs, .rclunk)

def Tlopen.handle (t : Tlopen) (cs : ConnState F) : ConnState F × Message :=
  match cs.lookupFID t.fid with
  | none => (cs, newErr EBADF)
  | some (refId, ref) =>
    if ref.opened || !canOpen ref.mode then (cs, newErr EINVAL)
    else
      let flags := t.flags &&& ~~~openFlagsIgnoreMask
      if flags &&& ~~~openFlagsModeMask ≠ 0 then (cs, newErr EINVAL)
      else if ref.mode.isDir && flags != readOnly then (cs, newErr EINVAL)
      else if ref.deleted then (cs, newErr EINVAL)
      else
        let r := fs.lopen cs.trace ref.file t.flags
        let cs := cs.record (.lopen ref.file t.flags)
        match r with
        | .error e => (cs, newErr e)
        | .ok (osFile, qid, ioUnit) =>
          (cs.modifyRef refId fun r => { r with opened := true, openFlags := t.flags },
            .rlopen ⟨qid, ioUnit, osFile⟩)

/-- The handlers that look a FID up and make one call with no name. -/
def fileOp (fid : FID) (cs : ConnState F) : ConnState F × Message :=
  match cs.lookupFID fid with
  | none => (cs, newErr EBADF)
  | some (_, ref) =>
    let r := fs.other cs.trace ref.file
    (cs.record (.other ref.file),
      match r with
      | .error e => newErr e
      | .ok m => m)

end Handlers

/-! ### Requests and runs -/

/-- A decoded client request, by its handler. `fileOp` stands for the
handlers of `Tgetattr`, `Tsetattr`, `Treaddir`, `Tread`, `Twrite`, `Tfsync`,
`Tstatfs`, `Tflushf`, `Treadlink` and `Tlconnect` on their FID. -/
inductive Request where
  | tattach (t : Tattach)
  | tauth (t : Tauth)
  | twalk (t : Twalk)
  | twalkgetattr (t : Twalkgetattr)
  | tlopen (t : Tlopen)
  | tlcreate (t : Tlcreate)
  | tucreate (t : Tucreate)
  | tmkdir (t : Tmkdir)
  | tumkdir (t : Tumkdir)
  | tsymlink (t : Tsymlink)
  | tusymlink (t : Tusymlink)
  | tmknod (t : Tmknod)
  | tumknod (t : Tumknod)
  | tlink (t : Tlink)
  | trenameat (t : Trenameat)
  | tunlinkat (t : Tunlinkat)
  | trename (t : Trename)
  | tremove (t : Tremove)
  | tclunk (t : Tclunk)
  | txattrwalk (t : Txattrwalk)
  | txattrcreate (t : Txattrcreate)
  | fileOp (fid : FID)

/-- A `do` result as its handler answers it. -/
def answer {α : Type} (ok : α → Message) : ConnState F × Except Errno α → ConnState F × Message
  | (cs, .error e) => (cs, newErr e)
  | (cs, .ok r) => (cs, ok r)

/-- One request handled (`handleRequest`); `none` is a panic. -/
def handle (fs : Backend F) (req : Request) (cs : ConnState F) : Option (ConnState F × Message) :=
  match req with
  | .tattach t => Tattach.handle fs t cs
  | .tauth _ => some (cs, newErr ENOSYS)
  | .twalk t => Twalk.handle fs t cs
  | .twalkgetattr t => Twalkgetattr.handle fs t cs
  | .tlopen t => some (Tlopen.handle fs t cs)
  | .tlcreate t => (Tlcreate.do fs t noUID cs).map (answer .rlcreate)
  | .tucreate t => (Tlcreate.do fs t.tlcreate t.uid cs).map (answer fun r => .rucreate ⟨r⟩)
  | .tmkdir t => some (answer (fun q => .rmkdir ⟨q⟩) (Tmkdir.do fs t noUID cs))
  | .tumkdir t =>
    some (answer (fun q => .rumkdir ⟨⟨q⟩⟩) (Tmkdir.do fs t.tmkdir t.uid cs))
  | .tsymlink t => some (answer (fun q => .rsymlink ⟨q⟩) (Tsymlink.do fs t noUID cs))
  | .tusymlink t =>
    some (answer (fun q => .rusymlink ⟨⟨q⟩⟩) (Tsymlink.do fs t.tsymlink t.uid cs))
  | .tmknod t => some (answer (fun q => .rmknod ⟨q⟩) (Tmknod.do fs t noUID cs))
  | .tumknod t => some (answer (fun q => .rumknod ⟨⟨q⟩⟩) (Tmknod.do fs t.tmknod t.uid cs))
  | .tlink t => some (Tlink.handle fs t cs)
  | .trenameat t => Trenameat.handle fs t cs
  | .tunlinkat t => Tunlinkat.handle fs t cs
  | .trename t => Trename.handle fs t cs
  | .tremove t => Tremove.handle fs t cs
  | .tclunk t => some (Tclunk.handle t cs)
  | .txattrwalk t =>
    some (cs, if (cs.lookupFID t.fid).isSome then newErr ENODATA else newErr EBADF)
  | .txattrcreate t =>
    some (cs, if (cs.lookupFID t.fid).isSome then newErr ENOSYS else newErr EBADF)
  | .fileOp fid => some (fileOp fs fid cs)

/-- The requests handled one after another; `none` if one panics. -/
def run (fs : Backend F) : List Request → ConnState F → Option (ConnState F)
  | [], cs => some cs
  | req :: reqs, cs => (handle fs req cs).bind fun (cs, _) => run fs reqs cs

end ContainerFS.P9
