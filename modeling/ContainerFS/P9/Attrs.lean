import ContainerFS.P9.Buffer

/-!
The structures that 9P messages carry (`p9/p9.go`): `QID`, `FSStat`, the
attribute masks, whose flags travel as the bits of one word, `Attr`,
`SetAttr` and `Dirent`, each with its `Decode` and `Encode` and the rule by
which the first takes back what the second wrote.
-/

namespace ContainerFS.P9

open Wire

structure QID where
  type : QIDType
  version : UInt32
  path : UInt64
  deriving DecidableEq, Repr

def QID.decode : Reader QID := do
  let type ← readQIDType
  let version ← read32
  let path ← read64
  pure ⟨type, version, path⟩

def QID.encode (q : QID) : List UInt8 := writeQIDType q.type ++ write32 q.version ++ write64 q.path

structure FSStat where
  type : UInt32
  blockSize : UInt32
  blocks : UInt64
  blocksFree : UInt64
  blocksAvailable : UInt64
  files : UInt64
  filesFree : UInt64
  fsid : UInt64
  nameLength : UInt32
  deriving DecidableEq, Repr

def FSStat.decode : Reader FSStat := do
  let type ← read32
  let blockSize ← read32
  let blocks ← read64
  let blocksFree ← read64
  let blocksAvailable ← read64
  let files ← read64
  let filesFree ← read64
  let fsid ← read64
  let nameLength ← read32
  pure ⟨type, blockSize, blocks, blocksFree, blocksAvailable, files, filesFree, fsid,
    nameLength⟩

def FSStat.encode (f : FSStat) : List UInt8 :=
  write32 f.type ++ write32 f.blockSize ++ write64 f.blocks ++ write64 f.blocksFree ++
    write64 f.blocksAvailable ++ write64 f.files ++ write64 f.filesFree ++ write64 f.fsid ++
    write32 f.nameLength

structure AttrMask where
  mode : Bool
  nLink : Bool
  uid : Bool
  gid : Bool
  rDev : Bool
  aTime : Bool
  mTime : Bool
  cTime : Bool
  iNo : Bool
  size : Bool
  blocks : Bool
  bTime : Bool
  gen : Bool
  dataVersion : Bool
  deriving DecidableEq, Repr

def AttrMask.decode : Reader AttrMask := do
  let mask ← read64
  pure {
    mode := mask &&& 0x00000001 != 0
    nLink := mask &&& 0x00000002 != 0
    uid := mask &&& 0x00000004 != 0
    gid := mask &&& 0x00000008 != 0
    rDev := mask &&& 0x00000010 != 0
    aTime := mask &&& 0x00000020 != 0
    mTime := mask &&& 0x00000040 != 0
    cTime := mask &&& 0x00000080 != 0
    iNo := mask &&& 0x00000100 != 0
    size := mask &&& 0x00000200 != 0
    blocks := mask &&& 0x00000400 != 0
    bTime := mask &&& 0x00000800 != 0
    gen := mask &&& 0x00001000 != 0
    dataVersion := mask &&& 0x00002000 != 0 }

/-- The word `Encode` builds, one bit a flag. -/
def AttrMask.mask (a : AttrMask) : UInt64 :=
  (0 : UInt64)
    |> UInt64.orIf a.mode 0x00000001
    |> UInt64.orIf a.nLink 0x00000002
    |> UInt64.orIf a.uid 0x00000004
    |> UInt64.orIf a.gid 0x00000008
    |> UInt64.orIf a.rDev 0x00000010
    |> UInt64.orIf a.aTime 0x00000020
    |> UInt64.orIf a.mTime 0x00000040
    |> UInt64.orIf a.cTime 0x00000080
    |> UInt64.orIf a.iNo 0x00000100
    |> UInt64.orIf a.size 0x00000200
    |> UInt64.orIf a.blocks 0x00000400
    |> UInt64.orIf a.bTime 0x00000800
    |> UInt64.orIf a.gen 0x00001000
    |> UInt64.orIf a.dataVersion 0x00002000

def AttrMask.encode (a : AttrMask) : List UInt8 := write64 a.mask

structure Attr where
  mode : FileMode
  uid : UID
  gid : GID
  nLink : UInt64
  rDev : UInt64
  size : UInt64
  blockSize : UInt64
  blocks : UInt64
  aTimeSeconds : UInt64
  aTimeNanoSeconds : UInt64
  mTimeSeconds : UInt64
  mTimeNanoSeconds : UInt64
  cTimeSeconds : UInt64
  cTimeNanoSeconds : UInt64
  bTimeSeconds : UInt64
  bTimeNanoSeconds : UInt64
  gen : UInt64
  dataVersion : UInt64
  deriving DecidableEq, Repr

def Attr.encode (a : Attr) : List UInt8 :=
  writeFileMode a.mode ++ writeUID a.uid ++ writeGID a.gid ++ write64 a.nLink ++
    write64 a.rDev ++ write64 a.size ++ write64 a.blockSize ++ write64 a.blocks ++
    write64 a.aTimeSeconds ++ write64 a.aTimeNanoSeconds ++ write64 a.mTimeSeconds ++
    write64 a.mTimeNanoSeconds ++ write64 a.cTimeSeconds ++ write64 a.cTimeNanoSeconds ++
    write64 a.bTimeSeconds ++ write64 a.bTimeNanoSeconds ++ write64 a.gen ++
    write64 a.dataVersion

def Attr.decode : Reader Attr := do
  let mode ← readFileMode
  let uid ← readUID
  let gid ← readGID
  let nLink ← read64
  let rDev ← read64
  let size ← read64
  let blockSize ← read64
  let blocks ← read64
  let aTimeSeconds ← read64
  let aTimeNanoSeconds ← read64
  let mTimeSeconds ← read64
  let mTimeNanoSeconds ← read64
  let cTimeSeconds ← read64
  let cTimeNanoSeconds ← read64
  let bTimeSeconds ← read64
  let bTimeNanoSeconds ← read64
  let gen ← read64
  let dataVersion ← read64
  pure ⟨mode, uid, gid, nLink, rDev, size, blockSize, blocks, aTimeSeconds, aTimeNanoSeconds,
    mTimeSeconds, mTimeNanoSeconds, cTimeSeconds, cTimeNanoSeconds, bTimeSeconds,
    bTimeNanoSeconds, gen, dataVersion⟩

structure SetAttrMask where
  permissions : Bool
  uid : Bool
  gid : Bool
  size : Bool
  aTime : Bool
  mTime : Bool
  cTime : Bool
  aTimeNotSystemTime : Bool
  mTimeNotSystemTime : Bool
  deriving DecidableEq, Repr

def SetAttrMask.decode : Reader SetAttrMask := do
  let mask ← read32
  pure {
    permissions := mask &&& 0x00000001 != 0
    uid := mask &&& 0x00000002 != 0
    gid := mask &&& 0x00000004 != 0
    size := mask &&& 0x00000008 != 0
    aTime := mask &&& 0x00000010 != 0
    mTime := mask &&& 0x00000020 != 0
    cTime := mask &&& 0x00000040 != 0
    aTimeNotSystemTime := mask &&& 0x00000080 != 0
    mTimeNotSystemTime := mask &&& 0x00000100 != 0 }

def SetAttrMask.bitmask (s : SetAttrMask) : UInt32 :=
  (0 : UInt32)
    |> UInt32.orIf s.permissions 0x00000001
    |> UInt32.orIf s.uid 0x00000002
    |> UInt32.orIf s.gid 0x00000004
    |> UInt32.orIf s.size 0x00000008
    |> UInt32.orIf s.aTime 0x00000010
    |> UInt32.orIf s.mTime 0x00000020
    |> UInt32.orIf s.cTime 0x00000040
    |> UInt32.orIf s.aTimeNotSystemTime 0x00000080
    |> UInt32.orIf s.mTimeNotSystemTime 0x00000100

def SetAttrMask.encode (s : SetAttrMask) : List UInt8 := write32 s.bitmask

structure SetAttr where
  permissions : FileMode
  uid : UID
  gid : GID
  size : UInt64
  aTimeSeconds : UInt64
  aTimeNanoSeconds : UInt64
  mTimeSeconds : UInt64
  mTimeNanoSeconds : UInt64
  deriving DecidableEq, Repr

def SetAttr.decode : Reader SetAttr := do
  let permissions ← readPermissions
  let uid ← readUID
  let gid ← readGID
  let size ← read64
  let aTimeSeconds ← read64
  let aTimeNanoSeconds ← read64
  let mTimeSeconds ← read64
  let mTimeNanoSeconds ← read64
  pure ⟨permissions, uid, gid, size, aTimeSeconds, aTimeNanoSeconds, mTimeSeconds,
    mTimeNanoSeconds⟩

def SetAttr.encode (s : SetAttr) : List UInt8 :=
  writePermissions s.permissions ++ writeUID s.uid ++ writeGID s.gid ++ write64 s.size ++
    write64 s.aTimeSeconds ++ write64 s.aTimeNanoSeconds ++ write64 s.mTimeSeconds ++
    write64 s.mTimeNanoSeconds

/-- The permissions as they come back: masked. -/
def SetAttr.masked (s : SetAttr) : SetAttr :=
  { s with permissions := s.permissions &&& permissionsMask }

structure Dirent where
  qid : QID
  offset : UInt64
  type : QIDType
  name : GoString
  deriving DecidableEq, Repr

def Dirent.decode : Reader Dirent := do
  let qid ← QID.decode
  let offset ← read64
  let type ← readQIDType
  let name ← readString
  pure ⟨qid, offset, type, name⟩

def Dirent.encode (d : Dirent) : List UInt8 :=
  d.qid.encode ++ write64 d.offset ++ writeQIDType d.type ++ writeString d.name

/-! ### Reading back what was written -/

section RoundTrip

variable {β : Type} (rest : List UInt8) (o : Bool)

@[simp]
theorem QID.decode_bind (q : QID) (k : QID → Reader β) :
    (QID.decode >>= k).run ⟨q.encode ++ rest, o⟩ = (k q).run ⟨rest, o⟩ := by
  simp only [QID.decode, QID.encode, readQIDType, writeQIDType, bind_assoc, List.append_assoc,
    read8_bind, read32_bind, read64_bind, pure_bind]

/-- A list of QIDs read back, given its count. -/
@[simp]
theorem readQIDs_bind (qs : List QID) (k : List QID → Reader β) :
    (readMany qs.length QID.decode >>= k).run ⟨qs.flatMap QID.encode ++ rest, o⟩ =
      (k qs).run ⟨rest, o⟩ := by
  have hq : ∀ q : QID, ∀ rest o, QID.decode.run ⟨q.encode ++ rest, o⟩ = (q, ⟨rest, o⟩) := by
    intro q rest o
    have h := QID.decode_bind rest o q pure
    rw [bind_pure] at h
    exact h
  rw [run_bind_of_run (readMany_flatMap QID.encode QID.decode id (fun _ => True)
    (fun q _ => hq q) qs (fun _ _ => trivial) rest o), List.map_id]

@[simp]
theorem FSStat.decode_bind (f : FSStat) (k : FSStat → Reader β) :
    (FSStat.decode >>= k).run ⟨f.encode ++ rest, o⟩ = (k f).run ⟨rest, o⟩ := by
  simp only [FSStat.decode, FSStat.encode, bind_assoc, List.append_assoc, read32_bind,
    read64_bind, pure_bind]

/-- Each flag reads back its own bit of the word. -/
theorem AttrMask.decode_mask (a : AttrMask) :
    (AttrMask.decode.run ⟨write64 a.mask ++ rest, o⟩) = (a, ⟨rest, o⟩) := by
  obtain ⟨b0, b1, b2, b3, b4, b5, b6, b7, b8, b9, b10, b11, b12, b13⟩ := a
  simp (disch := decide) only [AttrMask.decode, AttrMask.mask, read64_bind,
    UInt64.orIf_and_of_disjoint, UInt64.orIf_and_self, UInt64.zero_and, UInt64.flag_ne_zero,
    StateT.run_pure, id_pure]

@[simp]
theorem AttrMask.decode_bind (a : AttrMask) (k : AttrMask → Reader β) :
    (AttrMask.decode >>= k).run ⟨a.encode ++ rest, o⟩ = (k a).run ⟨rest, o⟩ :=
  run_bind_of_run (AttrMask.decode_mask rest o a) k

@[simp]
theorem Attr.decode_bind (a : Attr) (k : Attr → Reader β) :
    (Attr.decode >>= k).run ⟨a.encode ++ rest, o⟩ = (k a).run ⟨rest, o⟩ := by
  simp only [Attr.decode, Attr.encode, readFileMode, writeFileMode, readUID, writeUID, readGID,
    writeGID, bind_assoc, List.append_assoc, read32_bind, read64_bind, pure_bind]

theorem SetAttrMask.decode_bitmask (s : SetAttrMask) :
    (SetAttrMask.decode.run ⟨write32 s.bitmask ++ rest, o⟩) = (s, ⟨rest, o⟩) := by
  obtain ⟨b0, b1, b2, b3, b4, b5, b6, b7, b8⟩ := s
  simp (disch := decide) only [SetAttrMask.decode, SetAttrMask.bitmask, read32_bind,
    UInt32.orIf_and_of_disjoint, UInt32.orIf_and_self, UInt32.zero_and, UInt32.flag_ne_zero,
    StateT.run_pure, id_pure]

@[simp]
theorem SetAttrMask.decode_bind (s : SetAttrMask) (k : SetAttrMask → Reader β) :
    (SetAttrMask.decode >>= k).run ⟨s.encode ++ rest, o⟩ = (k s).run ⟨rest, o⟩ :=
  run_bind_of_run (SetAttrMask.decode_bitmask rest o s) k

/-- `SetAttr` comes back with its permissions masked. -/
@[simp]
theorem SetAttr.decode_bind (s : SetAttr) (k : SetAttr → Reader β) :
    (SetAttr.decode >>= k).run ⟨s.encode ++ rest, o⟩ = (k s.masked).run ⟨rest, o⟩ := by
  simp only [SetAttr.decode, SetAttr.encode, SetAttr.masked, readUID, writeUID, readGID, writeGID,
    bind_assoc, List.append_assoc, readPermissions_bind, read32_bind, read64_bind, pure_bind]

@[simp]
theorem Dirent.decode_bind {d : Dirent} (hd : d.name.length < 2 ^ 16) (k : Dirent → Reader β) :
    (Dirent.decode >>= k).run ⟨d.encode ++ rest, o⟩ = (k d).run ⟨rest, o⟩ := by
  simp only [Dirent.decode, Dirent.encode, readQIDType, writeQIDType, bind_assoc, List.append_assoc,
    QID.decode_bind, read8_bind, read64_bind, readString_bind _ _ hd, pure_bind]

end RoundTrip

/-! ### An entry cut short

`Rreaddir` cuts its payload at `Count` bytes, which can fall inside an
entry; reading such an entry overruns. -/

theorem readsFixed_QID_decode : ReadsFixed QID.decode 13 :=
  readsFixed_read8.bind fun _ => readsFixed_read32.bind fun _ =>
    readsFixed_read64.bind (m := 0) fun _ => readsFixed_pure _

/-- The fields of an entry before its name. -/
def Dirent.decodeFixed : Reader (QID × UInt64 × QIDType) := do
  let qid ← QID.decode
  let offset ← read64
  let type ← readQIDType
  pure (qid, offset, type)

theorem readsFixed_Dirent_decodeFixed : ReadsFixed Dirent.decodeFixed 22 :=
  readsFixed_QID_decode.bind fun _ => readsFixed_read64.bind fun _ =>
    readsFixed_read8.bind (m := 0) fun _ => readsFixed_pure _

theorem Dirent.decode_eq : Dirent.decode =
    (Dirent.decodeFixed >>= fun f => readString >>= fun name => pure ⟨f.1, f.2.1, f.2.2, name⟩) := by
  simp only [Dirent.decode, Dirent.decodeFixed, bind_assoc, pure_bind]

theorem Dirent.encode_eq (d : Dirent) :
    d.encode = (d.qid.encode ++ write64 d.offset ++ writeQIDType d.type) ++ writeString d.name := rfl

theorem Dirent.length_encode_fixed (d : Dirent) :
    (d.qid.encode ++ write64 d.offset ++ writeQIDType d.type).length = 22 := by
  simp [QID.encode, writeQIDType, write8, write32, write64]

theorem Dirent.decode_overruns {d : Dirent} (hd : d.name.length < 2 ^ 16) {q : List UInt8}
    (hq : q <+: d.encode) (hlt : q.length < d.encode.length) (o : Bool) :
    (Dirent.decode.run ⟨q, o⟩).2.overflow = true := by
  rw [Dirent.decode_eq]
  by_cases h22 : 22 ≤ q.length
  · -- the fixed fields are whole; the name is cut
    rw [readsFixed_Dirent_decodeFixed.fits_bind _ h22, run_bind]
    have hname : q.drop 22 <+: writeString d.name := by
      rw [List.prefix_iff_eq_take.mp hq, Dirent.encode_eq, List.drop_take,
        List.drop_left' (Dirent.length_encode_fixed d)]
      exact List.take_prefix _ _
    have hlen : (q.drop 22).length < (writeString d.name).length := by
      rw [Dirent.encode_eq, List.length_append, Dirent.length_encode_fixed] at hlt
      simp only [List.length_drop]
      omega
    exact sticky_pure _ _ (readString_overruns hd hname hlen o)
  · exact readsFixed_Dirent_decodeFixed.short_bind
      (fun _ => sticky_readString.bind fun _ => sticky_pure _) (by omega) o

end ContainerFS.P9
