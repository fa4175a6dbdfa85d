import ContainerFS.P9.Attrs

/-!
The 9P messages (`p9/messages.go`): for each registered message type its
fields, its `Decode` and its `Encode`, in the order the source reads and
writes them. Messages without fields (`Rflush`, `Rclunk` and the others) have
no bytes and are constructors of `Message` alone.
-/

namespace ContainerFS.P9

open Wire

/-! ### Messages of fixed fields -/

structure Tversion where
  mSize : UInt32
  version : GoString
  deriving DecidableEq, Repr

def Tversion.decode : Reader Tversion := do
  let mSize ← read32
  let version ← readString
  pure ⟨mSize, version⟩

def Tversion.encode (t : Tversion) : List UInt8 := write32 t.mSize ++ writeString t.version

structure Rversion where
  mSize : UInt32
  version : GoString
  deriving DecidableEq, Repr

def Rversion.decode : Reader Rversion := do
  let mSize ← read32
  let version ← readString
  pure ⟨mSize, version⟩

def Rversion.encode (r : Rversion) : List UInt8 := write32 r.mSize ++ writeString r.version

structure Tflush where
  oldTag : Tag
  deriving DecidableEq, Repr

def Tflush.decode : Reader Tflush := do
  let oldTag ← readTag
  pure ⟨oldTag⟩

def Tflush.encode (t : Tflush) : List UInt8 := writeTag t.oldTag

structure Tclunk where
  fid : FID
  deriving DecidableEq, Repr

def Tclunk.decode : Reader Tclunk := do
  let fid ← readFID
  pure ⟨fid⟩

def Tclunk.encode (t : Tclunk) : List UInt8 := writeFID t.fid

structure Tremove where
  fid : FID
  deriving DecidableEq, Repr

def Tremove.decode : Reader Tremove := do
  let fid ← readFID
  pure ⟨fid⟩

def Tremove.encode (t : Tremove) : List UInt8 := writeFID t.fid

structure Rlerror where
  error : UInt32
  deriving DecidableEq, Repr

def Rlerror.decode : Reader Rlerror := do
  let error ← read32
  pure ⟨error⟩

def Rlerror.encode (r : Rlerror) : List UInt8 := write32 r.error

structure Tauth where
  authenticationFID : FID
  userName : GoString
  attachName : GoString
  uid : UID
  deriving DecidableEq, Repr

def Tauth.decode : Reader Tauth := do
  let authenticationFID ← readFID
  let userName ← readString
  let attachName ← readString
  let uid ← readUID
  pure ⟨authenticationFID, userName, attachName, uid⟩

def Tauth.encode (t : Tauth) : List UInt8 :=
  writeFID t.authenticationFID ++ writeString t.userName ++ writeString t.attachName ++
    writeUID t.uid

structure Rauth where
  qid : QID
  deriving DecidableEq, Repr

def Rauth.decode : Reader Rauth := do
  let qid ← QID.decode
  pure ⟨qid⟩

def Rauth.encode (r : Rauth) : List UInt8 := r.qid.encode

structure Tattach where
  fid : FID
  auth : Tauth
  deriving DecidableEq, Repr

def Tattach.decode : Reader Tattach := do
  let fid ← readFID
  let auth ← Tauth.decode
  pure ⟨fid, auth⟩

def Tattach.encode (t : Tattach) : List UInt8 := writeFID t.fid ++ t.auth.encode

structure Rattach where
  qid : QID
  deriving DecidableEq, Repr

def Rattach.decode : Reader Rattach := do
  let qid ← QID.decode
  pure ⟨qid⟩

def Rattach.encode (r : Rattach) : List UInt8 := r.qid.encode

structure Tlopen where
  fid : FID
  flags : OpenFlags
  deriving DecidableEq, Repr

def Tlopen.decode : Reader Tlopen := do
  let fid ← readFID
  let flags ← readOpenFlags
  pure ⟨fid, flags⟩

def Tlopen.encode (t : Tlopen) : List UInt8 := writeFID t.fid ++ writeOpenFlags t.flags

structure Tlcreate where
  fid : FID
  name : GoString
  openFlags : OpenFlags
  permissions : FileMode
  gid : GID
  deriving DecidableEq, Repr

def Tlcreate.decode : Reader Tlcreate := do
  let fid ← readFID
  let name ← readString
  let openFlags ← readOpenFlags
  let permissions ← readPermissions
  let gid ← readGID
  pure ⟨fid, name, openFlags, permissions, gid⟩

def Tlcreate.encode (t : Tlcreate) : List UInt8 :=
  writeFID t.fid ++ writeString t.name ++ writeOpenFlags t.openFlags ++
    writePermissions t.permissions ++ writeGID t.gid

structure Tsymlink where
  directory : FID
  name : GoString
  target : GoString
  gid : GID
  deriving DecidableEq, Repr

def Tsymlink.decode : Reader Tsymlink := do
  let directory ← readFID
  let name ← readString
  let target ← readString
  let gid ← readGID
  pure ⟨directory, name, target, gid⟩

def Tsymlink.encode (t : Tsymlink) : List UInt8 :=
  writeFID t.directory ++ writeString t.name ++ writeString t.target ++ writeGID t.gid

structure Rsymlink where
  qid : QID
  deriving DecidableEq, Repr

def Rsymlink.decode : Reader Rsymlink := do
  let qid ← QID.decode
  pure ⟨qid⟩

def Rsymlink.encode (r : Rsymlink) : List UInt8 := r.qid.encode

structure Tlink where
  directory : FID
  target : FID
  name : GoString
  deriving DecidableEq, Repr

def Tlink.decode : Reader Tlink := do
  let directory ← readFID
  let target ← readFID
  let name ← readString
  pure ⟨directory, target, name⟩

def Tlink.encode (t : Tlink) : List UInt8 :=
  writeFID t.directory ++ writeFID t.target ++ writeString t.name

structure Trenameat where
  oldDirectory : FID
  oldName : GoString
  newDirectory : FID
  newName : GoString
  deriving DecidableEq, Repr

def Trenameat.decode : Reader Trenameat := do
  let oldDirectory ← readFID
  let oldName ← readString
  let newDirectory ← readFID
  let newName ← readString
  pure ⟨oldDirectory, oldName, newDirectory, newName⟩

def Trenameat.encode (t : Trenameat) : List UInt8 :=
  writeFID t.oldDirectory ++ writeString t.oldName ++ writeFID t.newDirectory ++
    writeString t.newName

structure Tunlinkat where
  directory : FID
  name : GoString
  flags : UInt32
  deriving DecidableEq, Repr

def Tunlinkat.decode : Reader Tunlinkat := do
  let directory ← readFID
  let name ← readString
  let flags ← read32
  pure ⟨directory, name, flags⟩

def Tunlinkat.encode (t : Tunlinkat) : List UInt8 :=
  writeFID t.directory ++ writeString t.name ++ write32 t.flags

structure Trename where
  fid : FID
  directory : FID
  name : GoString
  deriving DecidableEq, Repr

def Trename.decode : Reader Trename := do
  let fid ← readFID
  let directory ← readFID
  let name ← readString
  pure ⟨fid, directory, name⟩

def Trename.encode (t : Trename) : List UInt8 :=
  writeFID t.fid ++ writeFID t.directory ++ writeString t.name

structure Treadlink where
  fid : FID
  deriving DecidableEq, Repr

def Treadlink.decode : Reader Treadlink := do
  let fid ← readFID
  pure ⟨fid⟩

def Treadlink.encode (t : Treadlink) : List UInt8 := writeFID t.fid

structure Rreadlink where
  target : GoString
  deriving DecidableEq, Repr

def Rreadlink.decode : Reader Rreadlink := do
  let target ← readString
  pure ⟨target⟩

def Rreadlink.encode (r : Rreadlink) : List UInt8 := writeString r.target

structure Tread where
  fid : FID
  offset : UInt64
  count : UInt32
  deriving DecidableEq, Repr

def Tread.decode : Reader Tread := do
  let fid ← readFID
  let offset ← read64
  let count ← read32
  pure ⟨fid, offset, count⟩

def Tread.encode (t : Tread) : List UInt8 := writeFID t.fid ++ write64 t.offset ++ write32 t.count

structure Rwrite where
  count : UInt32
  deriving DecidableEq, Repr

def Rwrite.decode : Reader Rwrite := do
  let count ← read32
  pure ⟨count⟩

def Rwrite.encode (r : Rwrite) : List UInt8 := write32 r.count

structure Tmknod where
  directory : FID
  name : GoString
  permissions : FileMode
  major : UInt32
  minor : UInt32
  gid : GID
  deriving DecidableEq, Repr

def Tmknod.decode : Reader Tmknod := do
  let directory ← readFID
  let name ← readString
  let permissions ← readPermissions
  let major ← read32
  let minor ← read32
  let gid ← readGID
  pure ⟨directory, name, permissions, major, minor, gid⟩

def Tmknod.encode (t : Tmknod) : List UInt8 :=
  writeFID t.directory ++ writeString t.name ++ writePermissions t.permissions ++
    write32 t.major ++ write32 t.minor ++ writeGID t.gid

structure Rmknod where
  qid : QID
  deriving DecidableEq, Repr

def Rmknod.decode : Reader Rmknod := do
  let qid ← QID.decode
  pure ⟨qid⟩

def Rmknod.encode (r : Rmknod) : List UInt8 := r.qid.encode

structure Tmkdir where
  directory : FID
  name : GoString
  permissions : FileMode
  gid : GID
  deriving DecidableEq, Repr

def Tmkdir.decode : Reader Tmkdir := do
  let directory ← readFID
  let name ← readString
  let permissions ← readPermissions
  let gid ← readGID
  pure ⟨directory, name, permissions, gid⟩

def Tmkdir.encode (t : Tmkdir) : List UInt8 :=
  writeFID t.directory ++ writeString t.name ++ writePermissions t.permissions ++ writeGID t.gid

structure Rmkdir where
  qid : QID
  deriving DecidableEq, Repr

def Rmkdir.decode : Reader Rmkdir := do
  let qid ← QID.decode
  pure ⟨qid⟩

def Rmkdir.encode (r : Rmkdir) : List UInt8 := r.qid.encode

structure Tgetattr where
  fid : FID
  attrMask : AttrMask
  deriving DecidableEq, Repr

def Tgetattr.decode : Reader Tgetattr := do
  let fid ← readFID
  let attrMask ← AttrMask.decode
  pure ⟨fid, attrMask⟩

def Tgetattr.encode (t : Tgetattr) : List UInt8 := writeFID t.fid ++ t.attrMask.encode

structure Rgetattr where
  valid : AttrMask
  qid : QID
  attr : Attr
  deriving DecidableEq, Repr

def Rgetattr.decode : Reader Rgetattr := do
  let valid ← AttrMask.decode
  let qid ← QID.decode
  let attr ← Attr.decode
  pure ⟨valid, qid, attr⟩

def Rgetattr.encode (r : Rgetattr) : List UInt8 := r.valid.encode ++ r.qid.encode ++ r.attr.encode

structure Tsetattr where
  fid : FID
  valid : SetAttrMask
  setAttr : SetAttr
  deriving DecidableEq, Repr

def Tsetattr.decode : Reader Tsetattr := do
  let fid ← readFID
  let valid ← SetAttrMask.decode
  let setAttr ← SetAttr.decode
  pure ⟨fid, valid, setAttr⟩

def Tsetattr.encode (t : Tsetattr) : List UInt8 :=
  writeFID t.fid ++ t.valid.encode ++ t.setAttr.encode

structure Txattrwalk where
  fid : FID
  newFID : FID
  name : GoString
  deriving DecidableEq, Repr

def Txattrwalk.decode : Reader Txattrwalk := do
  let fid ← readFID
  let newFID ← readFID
  let name ← readString
  pure ⟨fid, newFID, name⟩

def Txattrwalk.encode (t : Txattrwalk) : List UInt8 :=
  writeFID t.fid ++ writeFID t.newFID ++ writeString t.name

structure Rxattrwalk where
  size : UInt64
  deriving DecidableEq, Repr

def Rxattrwalk.decode : Reader Rxattrwalk := do
  let size ← read64
  pure ⟨size⟩

def Rxattrwalk.encode (r : Rxattrwalk) : List UInt8 := write64 r.size

structure Txattrcreate where
  fid : FID
  name : GoString
  attrSize : UInt64
  flags : UInt32
  deriving DecidableEq, Repr

def Txattrcreate.decode : Reader Txattrcreate := do
  let fid ← readFID
  let name ← readString
  let attrSize ← read64
  let flags ← read32
  pure ⟨fid, name, attrSize, flags⟩

def Txattrcreate.encode (t : Txattrcreate) : List UInt8 :=
  writeFID t.fid ++ writeString t.name ++ write64 t.attrSize ++ write32 t.flags

structure Treaddir where
  directory : FID
  offset : UInt64
  count : UInt32
  deriving DecidableEq, Repr

def Treaddir.decode : Reader Treaddir := do
  let directory ← readFID
  let offset ← read64
  let count ← read32
  pure ⟨directory, offset, count⟩

def Treaddir.encode (t : Treaddir) : List UInt8 :=
  writeFID t.directory ++ write64 t.offset ++ write32 t.count

structure Tfsync where
  fid : FID
  deriving DecidableEq, Repr

def Tfsync.decode : Reader Tfsync := do
  let fid ← readFID
  pure ⟨fid⟩

def Tfsync.encode (t : Tfsync) : List UInt8 := writeFID t.fid

structure Tstatfs where
  fid : FID
  deriving DecidableEq, Repr

def Tstatfs.decode : Reader Tstatfs := do
  let fid ← readFID
  pure ⟨fid⟩

def Tstatfs.encode (t : Tstatfs) : List UInt8 := writeFID t.fid

structure Rstatfs where
  fsStat : FSStat
  deriving DecidableEq, Repr

def Rstatfs.decode : Reader Rstatfs := do
  let fsStat ← FSStat.decode
  pure ⟨fsStat⟩

def Rstatfs.encode (r : Rstatfs) : List UInt8 := r.fsStat.encode

structure Tflushf where
  fid : FID
  deriving DecidableEq, Repr

def Tflushf.decode : Reader Tflushf := do
  let fid ← readFID
  pure ⟨fid⟩

def Tflushf.encode (t : Tflushf) : List UInt8 := writeFID t.fid

structure Tlconnect where
  fid : FID
  flags : ConnectFlags
  deriving DecidableEq, Repr

def Tlconnect.decode : Reader Tlconnect := do
  let fid ← readFID
  let flags ← readConnectFlags
  pure ⟨fid, flags⟩

def Tlconnect.encode (t : Tlconnect) : List UInt8 := writeFID t.fid ++ writeConnectFlags t.flags

/-! ### Walks -/

structure Twalk where
  fid : FID
  newFID : FID
  names : List GoString
  deriving DecidableEq, Repr

def Twalk.decode : Reader Twalk := do
  let fid ← readFID
  let newFID ← readFID
  let n ← read16
  let names ← readMany n.toNat readString
  pure ⟨fid, newFID, names⟩

def Twalk.encode (t : Twalk) : List UInt8 :=
  writeFID t.fid ++ writeFID t.newFID ++ write16 t.names.length.toUInt16 ++
    t.names.flatMap writeString

structure Rwalk where
  qids : List QID
  deriving DecidableEq, Repr

def Rwalk.decode : Reader Rwalk := do
  let n ← read16
  let qids ← readMany n.toNat QID.decode
  pure ⟨qids⟩

def Rwalk.encode (r : Rwalk) : List UInt8 :=
  write16 r.qids.length.toUInt16 ++ r.qids.flatMap QID.encode

structure Twalkgetattr where
  fid : FID
  newFID : FID
  names : List GoString
  deriving DecidableEq, Repr

def Twalkgetattr.decode : Reader Twalkgetattr := do
  let fid ← readFID
  let newFID ← readFID
  let n ← read16
  let names ← readMany n.toNat readString
  pure ⟨fid, newFID, names⟩

def Twalkgetattr.encode (t : Twalkgetattr) : List UInt8 :=
  writeFID t.fid ++ writeFID t.newFID ++ write16 t.names.length.toUInt16 ++
    t.names.flatMap writeString

structure Rwalkgetattr where
  valid : AttrMask
  attr : Attr
  qids : List QID
  deriving DecidableEq, Repr

def Rwalkgetattr.decode : Reader Rwalkgetattr := do
  let valid ← AttrMask.decode
  let attr ← Attr.decode
  let n ← read16
  let qids ← readMany n.toNat QID.decode
  pure ⟨valid, attr, qids⟩

def Rwalkgetattr.encode (r : Rwalkgetattr) : List UInt8 :=
  r.valid.encode ++ r.attr.encode ++ write16 r.qids.length.toUInt16 ++ r.qids.flatMap QID.encode

/-! The walks are the messages with counted lists: their round trip needs the
count to fit its 16 bits. -/

section WalkRoundTrip

variable {β : Type} (rest : List UInt8) (o : Bool)

theorem Twalk.decode_bind (t : Twalk) (hn : t.names.length < 2 ^ 16)
    (hs : ∀ s ∈ t.names, s.length < 2 ^ 16) (k : Twalk → Reader β) :
    (Twalk.decode >>= k).run ⟨t.encode ++ rest, o⟩ = (k t).run ⟨rest, o⟩ := by
  simp only [Twalk.decode, Twalk.encode, readFID, writeFID, bind_assoc, List.append_assoc,
    read32_bind, read16_bind, toNat_toUInt16 hn, readStrings_bind _ _ hs, pure_bind]

theorem Rwalk.decode_bind (r : Rwalk) (hn : r.qids.length < 2 ^ 16) (k : Rwalk → Reader β) :
    (Rwalk.decode >>= k).run ⟨r.encode ++ rest, o⟩ = (k r).run ⟨rest, o⟩ := by
  simp only [Rwalk.decode, Rwalk.encode, bind_assoc, List.append_assoc, read16_bind,
    toNat_toUInt16 hn, readQIDs_bind, pure_bind]

theorem Twalkgetattr.decode_bind (t : Twalkgetattr) (hn : t.names.length < 2 ^ 16)
    (hs : ∀ s ∈ t.names, s.length < 2 ^ 16) (k : Twalkgetattr → Reader β) :
    (Twalkgetattr.decode >>= k).run ⟨t.encode ++ rest, o⟩ = (k t).run ⟨rest, o⟩ := by
  simp only [Twalkgetattr.decode, Twalkgetattr.encode, readFID, writeFID, bind_assoc,
    List.append_assoc, read32_bind, read16_bind, toNat_toUInt16 hn, readStrings_bind _ _ hs,
    pure_bind]

theorem Rwalkgetattr.decode_bind (r : Rwalkgetattr) (hn : r.qids.length < 2 ^ 16)
    (k : Rwalkgetattr → Reader β) :
    (Rwalkgetattr.decode >>= k).run ⟨r.encode ++ rest, o⟩ = (k r).run ⟨rest, o⟩ := by
  simp only [Rwalkgetattr.decode, Rwalkgetattr.encode, bind_assoc, List.append_assoc,
    AttrMask.decode_bind, Attr.decode_bind, read16_bind, toNat_toUInt16 hn, readQIDs_bind,
    pure_bind]

end WalkRoundTrip

/-! ### Messages with a file

The file travels beside the message: `Decode` leaves it as the fresh value
has it, and `SetFilePayload` sets it. -/

/-- `fd.FD`: a host file descriptor. -/
structure FD where
  fd : ℤ
  deriving DecidableEq, Repr

structure Rlopen where
  qid : QID
  ioUnit : UInt32
  file : Option FD
  deriving DecidableEq, Repr

def Rlopen.decode : Reader Rlopen := do
  let qid ← QID.decode
  let ioUnit ← read32
  pure ⟨qid, ioUnit, none⟩

def Rlopen.encode (r : Rlopen) : List UInt8 := r.qid.encode ++ write32 r.ioUnit

structure Rlcreate where
  rlopen : Rlopen
  deriving DecidableEq, Repr

def Rlcreate.decode : Reader Rlcreate := do
  let rlopen ← Rlopen.decode
  pure ⟨rlopen⟩

def Rlcreate.encode (r : Rlcreate) : List UInt8 := r.rlopen.encode

structure Rlconnect where
  file : Option FD
  deriving DecidableEq, Repr

def Rlconnect.decode : Reader Rlconnect := pure ⟨none⟩

def Rlconnect.encode (_ : Rlconnect) : List UInt8 := []

/-! ### Messages with a payload

The data travels after the fixed part: `Payload` gives it to the sender, and
`SetPayload` gives it to the fresh value before `Decode`, which checks the
count the fixed part carries against it. -/

structure Rread where
  data : List UInt8
  deriving DecidableEq, Repr

def Rread.decode (data : List UInt8) : Reader Rread := do
  let count ← read32
  if count ≠ data.length.toUInt32 then markOverrun
  pure ⟨data⟩

def Rread.encode (r : Rread) : List UInt8 := write32 r.data.length.toUInt32

structure Twrite where
  fid : FID
  offset : UInt64
  data : List UInt8
  deriving DecidableEq, Repr

def Twrite.decode (data : List UInt8) : Reader Twrite := do
  let fid ← readFID
  let offset ← read64
  let count ← read32
  if count ≠ data.length.toUInt32 then markOverrun
  pure ⟨fid, offset, data⟩

def Twrite.encode (t : Twrite) : List UInt8 :=
  writeFID t.fid ++ write64 t.offset ++ write32 t.data.length.toUInt32

structure Rreaddir where
  count : UInt32
  entries : List Dirent
  deriving DecidableEq, Repr

/-- The loop of `Rreaddir.Decode` over the payload: entries until one
overruns. -/
def readDirents : ℕ → Reader (List Dirent)
  | 0 => pure []
  | fuel + 1 => do
    let d ← Dirent.decode
    if (← get).overflow then pure []
    else
      let ds ← readDirents fuel
      pure (d :: ds)

/-- `Rreaddir.Decode`: the count, then the entries of the payload, from a
buffer of their own. Every entry that does not overrun takes at least one
byte, so one round more than the payload has bytes is enough. -/
def Rreaddir.decode (payload : List UInt8) : Reader Rreaddir := do
  let count ← read32
  let entries := (readDirents (payload.length + 1)).run' ⟨payload, false⟩
  pure ⟨count, entries⟩

/-- The loop of `Rreaddir.Encode`: entries are appended until the bytes reach
`count`. -/
def encodeDirents (count : ℕ) : List UInt8 → List Dirent → List UInt8
  | data, [] => data
  | data, d :: ds =>
    let data := data ++ d.encode
    if data.length ≥ count then data else encodeDirents count data ds

/-- `Rreaddir.Encode`, with the payload it leaves for `Payload`: all the
entries, with the count cut down to their size, when they fall short of
`count`, and else their first `count` bytes. -/
def Rreaddir.encode (r : Rreaddir) : List UInt8 × List UInt8 :=
  let data := encodeDirents r.count.toNat [] r.entries
  let (count, payload) :=
    if data.length < r.count.toNat then (data.length.toUInt32, data)
    else (r.count, data.take r.count.toNat)
  (write32 count, payload)

/-! ### Messages that extend another with a user -/

structure Tucreate where
  tlcreate : Tlcreate
  uid : UID
  deriving DecidableEq, Repr

def Tucreate.decode : Reader Tucreate := do
  let tlcreate ← Tlcreate.decode
  let uid ← readUID
  pure ⟨tlcreate, uid⟩

def Tucreate.encode (t : Tucreate) : List UInt8 := t.tlcreate.encode ++ writeUID t.uid

structure Rucreate where
  rlcreate : Rlcreate
  deriving DecidableEq, Repr

def Rucreate.decode : Reader Rucreate := do
  let rlcreate ← Rlcreate.decode
  pure ⟨rlcreate⟩

def Rucreate.encode (r : Rucreate) : List UInt8 := r.rlcreate.encode

structure Tumkdir where
  tmkdir : Tmkdir
  uid : UID
  deriving DecidableEq, Repr

def Tumkdir.decode : Reader Tumkdir := do
  let tmkdir ← Tmkdir.decode
  let uid ← readUID
  pure ⟨tmkdir, uid⟩

def Tumkdir.encode (t : Tumkdir) : List UInt8 := t.tmkdir.encode ++ writeUID t.uid

structure Rumkdir where
  rmkdir : Rmkdir
  deriving DecidableEq, Repr

def Rumkdir.decode : Reader Rumkdir := do
  let rmkdir ← Rmkdir.decode
  pure ⟨rmkdir⟩

def Rumkdir.encode (r : Rumkdir) : List UInt8 := r.rmkdir.encode

structure Tumknod where
  tmknod : Tmknod
  uid : UID
  deriving DecidableEq, Repr

def Tumknod.decode : Reader Tumknod := do
  let tmknod ← Tmknod.decode
  let uid ← readUID
  pure ⟨tmknod, uid⟩

def Tumknod.encode (t : Tumknod) : List UInt8 := t.tmknod.encode ++ writeUID t.uid

structure Rumknod where
  rmknod : Rmknod
  deriving DecidableEq, Repr

def Rumknod.decode : Reader Rumknod := do
  let rmknod ← Rmknod.decode
  pure ⟨rmknod⟩

def Rumknod.encode (r : Rumknod) : List UInt8 := r.rmknod.encode

structure Tusymlink where
  tsymlink : Tsymlink
  uid : UID
  deriving DecidableEq, Repr

def Tusymlink.decode : Reader Tusymlink := do
  let tsymlink ← Tsymlink.decode
  let uid ← readUID
  pure ⟨tsymlink, uid⟩

def Tusymlink.encode (t : Tusymlink) : List UInt8 := t.tsymlink.encode ++ writeUID t.uid

structure Rusymlink where
  rsymlink : Rsymlink
  deriving DecidableEq, Repr

def Rusymlink.decode : Reader Rusymlink := do
  let rsymlink ← Rsymlink.decode
  pure ⟨rsymlink⟩

def Rusymlink.encode (r : Rusymlink) : List UInt8 := r.rsymlink.encode

end ContainerFS.P9
