import ContainerFS.P9.Messages

/-!
The registry of 9P messages (`messageByType`, `init` in `p9/messages.go`)
and the round trip of the codec: a message encoded by its `Encode`, with its
payload and file carried beside, is decoded by a fresh value of its type into
the same message, but for the changes the source documents, and the decoder
takes exactly the bytes written.
-/

namespace ContainerFS.P9

open Wire

/-- A registered 9P message. -/
inductive Message where
  | rlerror (m : Rlerror)
  | tstatfs (m : Tstatfs)
  | rstatfs (m : Rstatfs)
  | tlopen (m : Tlopen)
  | rlopen (m : Rlopen)
  | tlcreate (m : Tlcreate)
  | rlcreate (m : Rlcreate)
  | tsymlink (m : Tsymlink)
  | rsymlink (m : Rsymlink)
  | tmknod (m : Tmknod)
  | rmknod (m : Rmknod)
  | trename (m : Trename)
  | rrename
  | treadlink (m : Treadlink)
  | rreadlink (m : Rreadlink)
  | tgetattr (m : Tgetattr)
  | rgetattr (m : Rgetattr)
  | tsetattr (m : Tsetattr)
  | rsetattr
  | txattrwalk (m : Txattrwalk)
  | rxattrwalk (m : Rxattrwalk)
  | txattrcreate (m : Txattrcreate)
  | rxattrcreate
  | treaddir (m : Treaddir)
  | rreaddir (m : Rreaddir)
  | tfsync (m : Tfsync)
  | rfsync
  | tlink (m : Tlink)
  | rlink
  | tmkdir (m : Tmkdir)
  | rmkdir (m : Rmkdir)
  | trenameat (m : Trenameat)
  | rrenameat
  | tunlinkat (m : Tunlinkat)
  | runlinkat
  | tversion (m : Tversion)
  | rversion (m : Rversion)
  | tauth (m : Tauth)
  | rauth (m : Rauth)
  | tattach (m : Tattach)
  | rattach (m : Rattach)
  | tflush (m : Tflush)
  | rflush
  | twalk (m : Twalk)
  | rwalk (m : Rwalk)
  | tread (m : Tread)
  | rread (m : Rread)
  | twrite (m : Twrite)
  | rwrite (m : Rwrite)
  | tclunk (m : Tclunk)
  | rclunk
  | tremove (m : Tremove)
  | rremove
  | tflushf (m : Tflushf)
  | rflushf
  | twalkgetattr (m : Twalkgetattr)
  | rwalkgetattr (m : Rwalkgetattr)
  | tucreate (m : Tucreate)
  | rucreate (m : Rucreate)
  | tumkdir (m : Tumkdir)
  | rumkdir (m : Rumkdir)
  | tumknod (m : Tumknod)
  | rumknod (m : Rumknod)
  | tusymlink (m : Tusymlink)
  | rusymlink (m : Rusymlink)
  | tlconnect (m : Tlconnect)
  | rlconnect (m : Rlconnect)
  deriving DecidableEq, Repr

/-- The registered message types, as `messageByType` creates them. -/
inductive MessageKind where
  | rlerror | tstatfs | rstatfs | tlopen | rlopen | tlcreate | rlcreate | tsymlink | rsymlink
  | tmknod | rmknod | trename | rrename | treadlink | rreadlink | tgetattr | rgetattr | tsetattr
  | rsetattr | txattrwalk | rxattrwalk | txattrcreate | rxattrcreate | treaddir | rreaddir
  | tfsync | rfsync | tlink | rlink | tmkdir | rmkdir | trenameat | rrenameat | tunlinkat
  | runlinkat | tversion | rversion | tauth | rauth | tattach | rattach | tflush | rflush | twalk
  | rwalk | tread | rread | twrite | rwrite | tclunk | rclunk | tremove | rremove | tflushf
  | rflushf | twalkgetattr | rwalkgetattr | tucreate | rucreate | tumkdir | rumkdir | tumknod
  | rumknod | tusymlink | rusymlink | tlconnect | rlconnect
  deriving DecidableEq, Repr

/-- `Type`: the message type numbers of `p9.go`. -/
def MessageKind.type : MessageKind → MsgType
  | .rlerror => 7
  | .tstatfs => 8
  | .rstatfs => 9
  | .tlopen => 12
  | .rlopen => 13
  | .tlcreate => 14
  | .rlcreate => 15
  | .tsymlink => 16
  | .rsymlink => 17
  | .tmknod => 18
  | .rmknod => 19
  | .trename => 20
  | .rrename => 21
  | .treadlink => 22
  | .rreadlink => 23
  | .tgetattr => 24
  | .rgetattr => 25
  | .tsetattr => 26
  | .rsetattr => 27
  | .txattrwalk => 30
  | .rxattrwalk => 31
  | .txattrcreate => 32
  | .rxattrcreate => 33
  | .treaddir => 40
  | .rreaddir => 41
  | .tfsync => 50
  | .rfsync => 51
  | .tlink => 70
  | .rlink => 71
  | .tmkdir => 72
  | .rmkdir => 73
  | .trenameat => 74
  | .rrenameat => 75
  | .tunlinkat => 76
  | .runlinkat => 77
  | .tversion => 100
  | .rversion => 101
  | .tauth => 102
  | .rauth => 103
  | .tattach => 104
  | .rattach => 105
  | .tflush => 108
  | .rflush => 109
  | .twalk => 110
  | .rwalk => 111
  | .tread => 116
  | .rread => 117
  | .twrite => 118
  | .rwrite => 119
  | .tclunk => 120
  | .rclunk => 121
  | .tremove => 122
  | .rremove => 123
  | .tflushf => 124
  | .rflushf => 125
  | .twalkgetattr => 126
  | .rwalkgetattr => 127
  | .tucreate => 128
  | .rucreate => 129
  | .tumkdir => 130
  | .rumkdir => 131
  | .tumknod => 132
  | .rumknod => 133
  | .tusymlink => 134
  | .rusymlink => 135
  | .tlconnect => 136
  | .rlconnect => 137

/-- The registrations of `init`, in order. -/
def registered : List MessageKind :=
  [.rlerror, .tstatfs, .rstatfs, .tlopen, .rlopen, .tlcreate, .rlcreate, .tsymlink, .rsymlink,
    .tmknod, .rmknod, .trename, .rrename, .treadlink, .rreadlink, .tgetattr, .rgetattr,
    .tsetattr, .rsetattr, .txattrwalk, .rxattrwalk, .txattrcreate, .rxattrcreate, .treaddir,
    .rreaddir, .tfsync, .rfsync, .tlink, .rlink, .tmkdir, .rmkdir, .trenameat, .rrenameat,
    .tunlinkat, .runlinkat, .tversion, .rversion, .tauth, .rauth, .tattach, .rattach, .tflush,
    .rflush, .twalk, .rwalk, .tread, .rread, .twrite, .rwrite, .tclunk, .rclunk, .tremove,
    .rremove, .tflushf, .rflushf, .twalkgetattr, .rwalkgetattr, .tucreate, .rucreate, .tumkdir,
    .rumkdir, .tumknod, .rumknod, .tusymlink, .rusymlink, .tlconnect, .rlconnect]

def Message.kind : Message → MessageKind
  | .rlerror _ => .rlerror
  | .tstatfs _ => .tstatfs
  | .rstatfs _ => .rstatfs
  | .tlopen _ => .tlopen
  | .rlopen _ => .rlopen
  | .tlcreate _ => .tlcreate
  | .rlcreate _ => .rlcreate
  | .tsymlink _ => .tsymlink
  | .rsymlink _ => .rsymlink
  | .tmknod _ => .tmknod
  | .rmknod _ => .rmknod
  | .trename _ => .trename
  | .rrename => .rrename
  | .treadlink _ => .treadlink
  | .rreadlink _ => .rreadlink
  | .tgetattr _ => .tgetattr
  | .rgetattr _ => .rgetattr
  | .tsetattr _ => .tsetattr
  | .rsetattr => .rsetattr
  | .txattrwalk _ => .txattrwalk
  | .rxattrwalk _ => .rxattrwalk
  | .txattrcreate _ => .txattrcreate
  | .rxattrcreate => .rxattrcreate
  | .treaddir _ => .treaddir
  | .rreaddir _ => .rreaddir
  | .tfsync _ => .tfsync
  | .rfsync => .rfsync
  | .tlink _ => .tlink
  | .rlink => .rlink
  | .tmkdir _ => .tmkdir
  | .rmkdir _ => .rmkdir
  | .trenameat _ => .trenameat
  | .rrenameat => .rrenameat
  | .tunlinkat _ => .tunlinkat
  | .runlinkat => .runlinkat
  | .tversion _ => .tversion
  | .rversion _ => .rversion
  | .tauth _ => .tauth
  | .rauth _ => .rauth
  | .tattach _ => .tattach
  | .rattach _ => .rattach
  | .tflush _ => .tflush
  | .rflush => .rflush
  | .twalk _ => .twalk
  | .rwalk _ => .rwalk
  | .tread _ => .tread
  | .rread _ => .rread
  | .twrite _ => .twrite
  | .rwrite _ => .rwrite
  | .tclunk _ => .tclunk
  | .rclunk => .rclunk
  | .tremove _ => .tremove
  | .rremove => .rremove
  | .tflushf _ => .tflushf
  | .rflushf => .rflushf
  | .twalkgetattr _ => .twalkgetattr
  | .rwalkgetattr _ => .rwalkgetattr
  | .tucreate _ => .tucreate
  | .rucreate _ => .rucreate
  | .tumkdir _ => .tumkdir
  | .rumkdir _ => .rumkdir
  | .tumknod _ => .tumknod
  | .rumknod _ => .rumknod
  | .tusymlink _ => .tusymlink
  | .rusymlink _ => .rusymlink
  | .tlconnect _ => .tlconnect
  | .rlconnect _ => .rlconnect

/-- `Decode` on a fresh value of the kind, given the payload `SetPayload` has
set. -/
def MessageKind.decode (payload : List UInt8) : MessageKind → Reader Message
  | .rlerror => Rlerror.decode >>= fun m => pure (.rlerror m)
  | .tstatfs => Tstatfs.decode >>= fun m => pure (.tstatfs m)
  | .rstatfs => Rstatfs.decode >>= fun m => pure (.rstatfs m)
  | .tlopen => Tlopen.decode >>= fun m => pure (.tlopen m)
  | .rlopen => Rlopen.decode >>= fun m => pure (.rlopen m)
  | .tlcreate => Tlcreate.decode >>= fun m => pure (.tlcreate m)
  | .rlcreate => Rlcreate.decode >>= fun m => pure (.rlcreate m)
  | .tsymlink => Tsymlink.decode >>= fun m => pure (.tsymlink m)
  | .rsymlink => Rsymlink.decode >>= fun m => pure (.rsymlink m)
  | .tmknod => Tmknod.decode >>= fun m => pure (.tmknod m)
  | .rmknod => Rmknod.decode >>= fun m => pure (.rmknod m)
  | .trename => Trename.decode >>= fun m => pure (.trename m)
  | .rrename => pure .rrename
  | .treadlink => Treadlink.decode >>= fun m => pure (.treadlink m)
  | .rreadlink => Rreadlink.decode >>= fun m => pure (.rreadlink m)
  | .tgetattr => Tgetattr.decode >>= fun m => pure (.tgetattr m)
  | .rgetattr => Rgetattr.decode >>= fun m => pure (.rgetattr m)
  | .tsetattr => Tsetattr.decode >>= fun m => pure (.tsetattr m)
  | .rsetattr => pure .rsetattr
  | .txattrwalk => Txattrwalk.decode >>= fun m => pure (.txattrwalk m)
  | .rxattrwalk => Rxattrwalk.decode >>= fun m => pure (.rxattrwalk m)
  | .txattrcreate => Txattrcreate.decode >>= fun m => pure (.txattrcreate m)
  | .rxattrcreate => pure .rxattrcreate
  | .treaddir => Treaddir.decode >>= fun m => pure (.treaddir m)
  | .rreaddir => Rreaddir.decode payload >>= fun m => pure (.rreaddir m)
  | .tfsync => Tfsync.decode >>= fun m => pure (.tfsync m)
  | .rfsync => pure .rfsync
  | .tlink => Tlink.decode >>= fun m => pure (.tlink m)
  | .rlink => pure .rlink
  | .tmkdir => Tmkdir.decode >>= fun m => pure (.tmkdir m)
  | .rmkdir => Rmkdir.decode >>= fun m => pure (.rmkdir m)
  | .trenameat => Trenameat.decode >>= fun m => pure (.trenameat m)
  | .rrenameat => pure .rrenameat
  | .tunlinkat => Tunlinkat.decode >>= fun m => pure (.tunlinkat m)
  | .runlinkat => pure .runlinkat
  | .tversion => Tversion.decode >>= fun m => pure (.tversion m)
  | .rversion => Rversion.decode >>= fun m => pure (.rversion m)
  | .tauth => Tauth.decode >>= fun m => pure (.tauth m)
  | .rauth => Rauth.decode >>= fun m => pure (.rauth m)
  | .tattach => Tattach.decode >>= fun m => pure (.tattach m)
  | .rattach => Rattach.decode >>= fun m => pure (.rattach m)
  | .tflush => Tflush.decode >>= fun m => pure (.tflush m)
  | .rflush => pure .rflush
  | .twalk => Twalk.decode >>= fun m => pure (.twalk m)
  | .rwalk => Rwalk.decode >>= fun m => pure (.rwalk m)
  | .tread => Tread.decode >>= fun m => pure (.tread m)
  | .rread => Rread.decode payload >>= fun m => pure (.rread m)
  | .twrite => Twrite.decode payload >>= fun m => pure (.twrite m)
  | .rwrite => Rwrite.decode >>= fun m => pure (.rwrite m)
  | .tclunk => Tclunk.decode >>= fun m => pure (.tclunk m)
  | .rclunk => pure .rclunk
  | .tremove => Tremove.decode >>= fun m => pure (.tremove m)
  | .rremove => pure .rremove
  | .tflushf => Tflushf.decode >>= fun m => pure (.tflushf m)
  | .rflushf => pure .rflushf
  | .twalkgetattr => Twalkgetattr.decode >>= fun m => pure (.twalkgetattr m)
  | .rwalkgetattr => Rwalkgetattr.decode >>= fun m => pure (.rwalkgetattr m)
  | .tucreate => Tucreate.decode >>= fun m => pure (.tucreate m)
  | .rucreate => Rucreate.decode >>= fun m => pure (.rucreate m)
  | .tumkdir => Tumkdir.decode >>= fun m => pure (.tumkdir m)
  | .rumkdir => Rumkdir.decode >>= fun m => pure (.rumkdir m)
  | .tumknod => Tumknod.decode >>= fun m => pure (.tumknod m)
  | .rumknod => Rumknod.decode >>= fun m => pure (.rumknod m)
  | .tusymlink => Tusymlink.decode >>= fun m => pure (.tusymlink m)
  | .rusymlink => Rusymlink.decode >>= fun m => pure (.rusymlink m)
  | .tlconnect => Tlconnect.decode >>= fun m => pure (.tlconnect m)
  | .rlconnect => Rlconnect.decode >>= fun m => pure (.rlconnect m)

/-- `Encode`, and the payload `Payload` then gives. -/
def Message.encode : Message → List UInt8 × List UInt8
  | .rlerror m => (m.encode, [])
  | .tstatfs m => (m.encode, [])
  | .rstatfs m => (m.encode, [])
  | .tlopen m => (m.encode, [])
  | .rlopen m => (m.encode, [])
  | .tlcreate m => (m.encode, [])
  | .rlcreate m => (m.encode, [])
  | .tsymlink m => (m.encode, [])
  | .rsymlink m => (m.encode, [])
  | .tmknod m => (m.encode, [])
  | .rmknod m => (m.encode, [])
  | .trename m => (m.encode, [])
  | .rrename => ([], [])
  | .treadlink m => (m.encode, [])
  | .rreadlink m => (m.encode, [])
  | .tgetattr m => (m.encode, [])
  | .rgetattr m => (m.encode, [])
  | .tsetattr m => (m.encode, [])
  | .rsetattr => ([], [])
  | .txattrwalk m => (m.encode, [])
  | .rxattrwalk m => (m.encode, [])
  | .txattrcreate m => (m.encode, [])
  | .rxattrcreate => ([], [])
  | .treaddir m => (m.encode, [])
  | .rreaddir m => m.encode
  | .tfsync m => (m.encode, [])
  | .rfsync => ([], [])
  | .tlink m => (m.encode, [])
  | .rlink => ([], [])
  | .tmkdir m => (m.encode, [])
  | .rmkdir m => (m.encode, [])
  | .trenameat m => (m.encode, [])
  | .rrenameat => ([], [])
  | .tunlinkat m => (m.encode, [])
  | .runlinkat => ([], [])
  | .tversion m => (m.encode, [])
  | .rversion m => (m.encode, [])
  | .tauth m => (m.encode, [])
  | .rauth m => (m.encode, [])
  | .tattach m => (m.encode, [])
  | .rattach m => (m.encode, [])
  | .tflush m => (m.encode, [])
  | .rflush => ([], [])
  | .twalk m => (m.encode, [])
  | .rwalk m => (m.encode, [])
  | .tread m => (m.encode, [])
  | .rread m => (m.encode, m.data)
  | .twrite m => (m.encode, m.data)
  | .rwrite m => (m.encode, [])
  | .tclunk m => (m.encode, [])
  | .rclunk => ([], [])
  | .tremove m => (m.encode, [])
  | .rremove => ([], [])
  | .tflushf m => (m.encode, [])
  | .rflushf => ([], [])
  | .twalkgetattr m => (m.encode, [])
  | .rwalkgetattr m => (m.encode, [])
  | .tucreate m => (m.encode, [])
  | .rucreate m => (m.encode, [])
  | .tumkdir m => (m.encode, [])
  | .rumkdir m => (m.encode, [])
  | .tumknod m => (m.encode, [])
  | .rumknod m => (m.encode, [])
  | .tusymlink m => (m.encode, [])
  | .rusymlink m => (m.encode, [])
  | .tlconnect m => (m.encode, [])
  | .rlconnect m => (m.encode, [])
/-- `FilePayload`: the file of a message that carries one. -/
def Message.filePayload : Message → Option FD
  | .rlopen m => m.file
  | .rlcreate m => m.rlopen.file
  | .rucreate m => m.rlcreate.rlopen.file
  | .rlconnect m => m.file
  | _ => none

/-- `SetFilePayload`, on the messages that carry a file. -/
def Message.setFilePayload (file : Option FD) : Message → Message
  | .rlopen m => .rlopen { m with file := file }
  | .rlcreate m => .rlcreate ⟨{ m.rlopen with file := file }⟩
  | .rucreate m => .rucreate ⟨⟨{ m.rlcreate.rlopen with file := file }⟩⟩
  | .rlconnect _ => .rlconnect ⟨file⟩
  | m => m

def Message.type (m : Message) : MsgType := m.kind.type

/-- `messageByType`: the registration of a type number, if there is one. -/
def messageByType (t : MsgType) : Option MessageKind := registered.find? (·.type == t)

/-- A fresh message of kind `k` decoded as `recv` and the codec test decode it:
the payload set before `Decode`, the file set after. -/
def MessageKind.receive (k : MessageKind) (payload : List UInt8) (file : Option FD) :
    Reader Message := do
  let m ← k.decode payload
  pure (m.setFilePayload file)

/-! ### What the codec keeps

A string travels with a 16-bit length and a list of names or QIDs with a
16-bit count, so the round trip holds of messages whose strings and lists fit
them. Two fields come back changed, as the source documents: permissions are
masked, and a directory listing keeps the entries that fit its count. -/

/-- A length that a 16-bit field carries. -/
def fits16 (n : ℕ) : Bool := decide (n < 2 ^ 16)

/-- The strings and counted lists of the message fit their lengths. -/
def Message.wellSized : Message → Bool
  | .tversion m => fits16 m.version.length
  | .rversion m => fits16 m.version.length
  | .tauth m => fits16 m.userName.length && fits16 m.attachName.length
  | .tattach m => fits16 m.auth.userName.length && fits16 m.auth.attachName.length
  | .tlcreate m => fits16 m.name.length
  | .tsymlink m => fits16 m.name.length && fits16 m.target.length
  | .tlink m => fits16 m.name.length
  | .trenameat m => fits16 m.oldName.length && fits16 m.newName.length
  | .tunlinkat m => fits16 m.name.length
  | .trename m => fits16 m.name.length
  | .rreadlink m => fits16 m.target.length
  | .tmknod m => fits16 m.name.length
  | .tmkdir m => fits16 m.name.length
  | .txattrwalk m => fits16 m.name.length
  | .txattrcreate m => fits16 m.name.length
  | .rreaddir m => m.entries.all fun d => fits16 d.name.length
  | .twalk m => fits16 m.names.length && m.names.all fun s => fits16 s.length
  | .rwalk m => fits16 m.qids.length
  | .twalkgetattr m => fits16 m.names.length && m.names.all fun s => fits16 s.length
  | .rwalkgetattr m => fits16 m.qids.length
  | .tucreate m => fits16 m.tlcreate.name.length
  | .tumkdir m => fits16 m.tmkdir.name.length
  | .tumknod m => fits16 m.tmknod.name.length
  | .tusymlink m => fits16 m.tsymlink.name.length && fits16 m.tsymlink.target.length
  | _ => true

/-- The entries of a listing that fit in `budget` bytes: the longest prefix
whose encoding is no longer. -/
def fittingPrefix : ℕ → List Dirent → List Dirent
  | _, [] => []
  | budget, d :: ds =>
    if d.encode.length ≤ budget then d :: fittingPrefix (budget - d.encode.length) ds else []

/-- A listing as it arrives: the entries that fit its count, and the count
set to the bytes sent. -/
def Rreaddir.sent (r : Rreaddir) : Rreaddir :=
  ⟨(min r.count.toNat (r.entries.flatMap Dirent.encode).length).toUInt32,
    fittingPrefix r.count.toNat r.entries⟩

def Tlcreate.masked (t : Tlcreate) : Tlcreate :=
  { t with permissions := t.permissions &&& permissionsMask }

def Tmknod.masked (t : Tmknod) : Tmknod :=
  { t with permissions := t.permissions &&& permissionsMask }

def Tmkdir.masked (t : Tmkdir) : Tmkdir :=
  { t with permissions := t.permissions &&& permissionsMask }

/-- The message as the codec gives it back. -/
def Message.normalize : Message → Message
  | .tlcreate m => .tlcreate m.masked
  | .tmknod m => .tmknod m.masked
  | .tmkdir m => .tmkdir m.masked
  | .tsetattr m => .tsetattr { m with setAttr := m.setAttr.masked }
  | .tucreate m => .tucreate { m with tlcreate := m.tlcreate.masked }
  | .tumkdir m => .tumkdir { m with tmkdir := m.tmkdir.masked }
  | .tumknod m => .tumknod { m with tmknod := m.tmknod.masked }
  | .rreaddir m => .rreaddir m.sent
  | m => m

/-! ### A directory listing cut at its count -/

section Readdir

/-- `Encode`'s loop stops once the bytes reach `count`: what it leaves, cut
at `count`, is the whole listing cut at `count`. -/
theorem take_encodeDirents (c : ℕ) (acc : List UInt8) (ds : List Dirent) :
    (encodeDirents c acc ds).take c = (acc ++ ds.flatMap Dirent.encode).take c := by
  induction ds generalizing acc with
  | nil => simp [encodeDirents]
  | cons d ds ih =>
    rw [encodeDirents, List.flatMap_cons, ← List.append_assoc]
    split
    · rename_i hc
      rw [List.take_append_of_le_length hc]
    · exact ih _

/-- Short of `count`, the loop has run through the whole listing. -/
theorem encodeDirents_of_lt {c : ℕ} {acc : List UInt8} {ds : List Dirent}
    (h : (encodeDirents c acc ds).length < c) :
    encodeDirents c acc ds = acc ++ ds.flatMap Dirent.encode := by
  induction ds generalizing acc with
  | nil => simp [encodeDirents]
  | cons d ds ih =>
    rw [encodeDirents] at h ⊢
    rw [List.flatMap_cons, ← List.append_assoc]
    split at h
    · omega
    · rename_i hc
      rw [if_neg hc]
      exact ih h

/-- `Encode` sends the listing cut at `count`, and the count of the bytes it
sends. -/
theorem Rreaddir.encode_eq (r : Rreaddir) :
    r.encode = (write32 (min r.count.toNat (r.entries.flatMap Dirent.encode).length).toUInt32,
      (r.entries.flatMap Dirent.encode).take r.count.toNat) := by
  have htake := take_encodeDirents r.count.toNat [] r.entries
  rw [List.nil_append] at htake
  rw [Rreaddir.encode]
  by_cases hlt : (encodeDirents r.count.toNat [] r.entries).length < r.count.toNat
  · have hall := encodeDirents_of_lt hlt
    rw [List.nil_append] at hall
    rw [if_pos hlt]
    rw [hall] at hlt ⊢
    rw [Nat.min_eq_right hlt.le, List.take_of_length_le hlt.le]
  · have hlen : r.count.toNat ≤ (r.entries.flatMap Dirent.encode).length := by
      have := congrArg List.length htake
      simp only [List.length_take] at this
      omega
    rw [if_neg hlt, htake, Nat.min_eq_left hlen]
    simp only [Nat.toUInt32, UInt32.ofNat_toNat]

theorem length_encode_pos (d : Dirent) : 0 < d.encode.length := by
  rw [Dirent.encode_eq, List.length_append, Dirent.length_encode_fixed]
  omega

/-- `Decode`'s loop over a listing cut at `c` takes back the entries that fit. -/
theorem readDirents_take (ds : List Dirent) (hds : ∀ d ∈ ds, d.name.length < 2 ^ 16) (c : ℕ)
    (fuel : ℕ) (hfuel : ((ds.flatMap Dirent.encode).take c).length < fuel) :
    ((readDirents fuel).run ⟨(ds.flatMap Dirent.encode).take c, false⟩).1 = fittingPrefix c ds := by
  obtain ⟨fuel, rfl⟩ : ∃ f, fuel = f + 1 := ⟨fuel - 1, by omega⟩
  induction ds generalizing c fuel with
  | nil =>
    have hover := readsFixed_Dirent_decodeFixed.short_bind
      (fun f => sticky_readString.bind fun name => sticky_pure (Dirent.mk f.1 f.2.1 f.2.2 name))
      (by simp : ([] : List UInt8).length < 22) false
    rw [← Dirent.decode_eq] at hover
    simp only [List.flatMap_nil, List.take_nil, readDirents, run_bind, fittingPrefix]
    simp [hover]
  | cons d ds ih =>
    have hd : d.name.length < 2 ^ 16 := hds d List.mem_cons_self
    rw [List.flatMap_cons, List.take_append, fittingPrefix]
    by_cases hfit : d.encode.length ≤ c
    · -- the entry is whole: it is read, and the loop goes on with the rest
      rw [List.take_of_length_le hfit, if_pos hfit, readDirents, Dirent.decode_bind _ false hd]
      rw [List.flatMap_cons, List.take_append, List.take_of_length_le hfit,
        List.length_append] at hfuel
      obtain ⟨f, rfl⟩ : ∃ f, fuel = f + 1 :=
        ⟨fuel - 1, by have := length_encode_pos d; omega⟩
      have hrest := ih (fun d h => hds d (List.mem_cons_of_mem _ h)) (c - d.encode.length) f
        (by have := length_encode_pos d; omega)
      simp only [run_bind, StateT.run_get, id_pure, Bool.false_eq_true, ↓reduceIte]
      simp [hrest]
    · -- the cut falls inside the entry: reading it overruns
      have hover := Dirent.decode_overruns hd (List.take_prefix c d.encode)
        (by simp only [List.length_take]; omega) false
      have hnil : (ds.flatMap Dirent.encode).take (c - d.encode.length) = [] := by
        rw [Nat.sub_eq_zero_of_le (by omega), List.take_zero]
      rw [hnil, List.append_nil, if_neg hfit, readDirents]
      simp only [run_bind, StateT.run_get]
      simp [hover]

/-- `Decode` takes back the listing as it was sent. -/
theorem Rreaddir.decode_bind {β : Type} (r : Rreaddir)
    (hr : ∀ d ∈ r.entries, d.name.length < 2 ^ 16) (rest : List UInt8) (o : Bool)
    (k : Rreaddir → Reader β) :
    (Rreaddir.decode r.encode.2 >>= k).run ⟨r.encode.1 ++ rest, o⟩ = (k r.sent).run ⟨rest, o⟩ := by
  have hentries := readDirents_take r.entries hr r.count.toNat _ (Nat.lt_add_one _)
  rw [Rreaddir.encode_eq, Rreaddir.decode, bind_assoc, read32_bind, pure_bind]
  dsimp only
  rw [run'_eq, hentries]
  rfl

end Readdir

/-! ### The round trip -/

/-- Every kind is registered under its own type number. -/
theorem messageByType_type (k : MessageKind) : messageByType k.type = some k := by
  cases k <;> rfl

/-! The file travels beside the bytes: `Decode` leaves it unset, and the
codec keeps what `SetFilePayload` gives it. -/

@[simp]
theorem Message.filePayload_normalize (m : Message) : m.normalize.filePayload = m.filePayload := by
  cases m <;> rfl

@[simp]
theorem Message.setFilePayload_setFilePayload (m : Message) (f g : Option FD) :
    (m.setFilePayload f).setFilePayload g = m.setFilePayload g := by
  cases m <;> rfl

@[simp]
theorem Message.setFilePayload_filePayload (m : Message) : m.setFilePayload m.filePayload = m := by
  cases m <;> rfl

/-- The decoder's half of the round trip: a fresh message of the kind, given
the payload, decodes the encoded fixed part into the message as the codec
keeps it, with no file yet; it takes the encoded bytes and no more, and leaves
the overrun mark as it found it. -/
theorem decode_encode (m : Message) (hm : m.wellSized = true) (rest : List UInt8) (o : Bool) :
    (m.kind.decode m.encode.2).run ⟨m.encode.1 ++ rest, o⟩ =
      (m.normalize.setFilePayload none, ⟨rest, o⟩) := by
  -- one case for each message: its own decoder on its own encoding
  cases m <;> simp only [Message.kind, MessageKind.decode, Message.encode, Message.setFilePayload,
    Message.normalize] <;>
    simp only [Message.wellSized, fits16, Bool.and_eq_true, decide_eq_true_eq,
      List.all_eq_true] at hm
  -- the counted lists, and the listing cut at its count
  case twalk t => rw [Twalk.decode_bind rest o t hm.1 hm.2]; rfl
  case rwalk r => rw [Rwalk.decode_bind rest o r hm]; rfl
  case twalkgetattr t => rw [Twalkgetattr.decode_bind rest o t hm.1 hm.2]; rfl
  case rwalkgetattr r => rw [Rwalkgetattr.decode_bind rest o r hm]; rfl
  case rreaddir r => rw [Rreaddir.decode_bind r hm rest o]; rfl
  -- the other messages read their fields one after another; the payload
  -- messages find their count equal to the payload's length
  all_goals simp only [Tversion.decode, Tversion.encode, Rversion.decode, Rversion.encode, Tflush.decode,
      Tflush.encode, Tclunk.decode, Tclunk.encode, Tremove.decode, Tremove.encode,
      Rlerror.decode, Rlerror.encode, Tauth.decode, Tauth.encode, Rauth.decode, Rauth.encode,
      Tattach.decode, Tattach.encode, Rattach.decode, Rattach.encode, Tlopen.decode,
      Tlopen.encode, Tlcreate.decode, Tlcreate.encode, Tsymlink.decode, Tsymlink.encode,
      Rsymlink.decode, Rsymlink.encode, Tlink.decode, Tlink.encode, Trenameat.decode,
      Trenameat.encode, Tunlinkat.decode, Tunlinkat.encode, Trename.decode, Trename.encode,
      Treadlink.decode, Treadlink.encode, Rreadlink.decode, Rreadlink.encode, Tread.decode,
      Tread.encode, Rwrite.decode, Rwrite.encode, Tmknod.decode, Tmknod.encode, Rmknod.decode,
      Rmknod.encode, Tmkdir.decode, Tmkdir.encode, Rmkdir.decode, Rmkdir.encode,
      Tgetattr.decode, Tgetattr.encode, Rgetattr.decode, Rgetattr.encode, Tsetattr.decode,
      Tsetattr.encode, Txattrwalk.decode, Txattrwalk.encode, Rxattrwalk.decode,
      Rxattrwalk.encode, Txattrcreate.decode, Txattrcreate.encode, Treaddir.decode,
      Treaddir.encode, Tfsync.decode, Tfsync.encode, Tstatfs.decode, Tstatfs.encode,
      Rstatfs.decode, Rstatfs.encode, Tflushf.decode, Tflushf.encode, Tlconnect.decode,
      Tlconnect.encode, Rlopen.decode, Rlopen.encode, Rlcreate.decode, Rlcreate.encode,
      Rlconnect.decode, Rlconnect.encode, Rread.decode, Rread.encode, Twrite.decode,
      Twrite.encode, Tucreate.decode, Tucreate.encode, Rucreate.decode, Rucreate.encode,
      Tumkdir.decode, Tumkdir.encode, Rumkdir.decode, Rumkdir.encode, Tumknod.decode,
      Tumknod.encode, Rumknod.decode, Rumknod.encode, Tusymlink.decode, Tusymlink.encode,
      Rusymlink.decode, Rusymlink.encode,
      List.append_assoc, bind_assoc, pure_bind, read16_bind, read32_bind, read64_bind,
      readString_bind, readPermissions_bind, QID.decode_bind, FSStat.decode_bind,
      AttrMask.decode_bind, Attr.decode_bind, SetAttrMask.decode_bind, SetAttr.decode_bind,
      readFID, writeFID, readUID, writeUID, readGID, writeGID, readTag, writeTag, readOpenFlags,
      writeOpenFlags, readConnectFlags, writeConnectFlags, hm, List.nil_append,
      Tlcreate.masked, Tmknod.masked, Tmkdir.masked, ne_eq, not_true_eq_false, ↓reduceIte]
  all_goals rfl

/-- The codec round trip. A message whose strings and lists fit their lengths
is registered under its type, and a fresh message of that type, given the
payload and file carried beside, decodes its encoding into the message as the
codec keeps it; it takes the encoded bytes and no more, and leaves the overrun
mark as it found it. -/
theorem receive_encode (m : Message) (hm : m.wellSized = true) (rest : List UInt8) (o : Bool) :
    messageByType m.type = some m.kind ∧
      (m.kind.receive m.encode.2 m.filePayload).run ⟨m.encode.1 ++ rest, o⟩ =
        (m.normalize, ⟨rest, o⟩) := by
  refine ⟨messageByType_type m.kind, ?_⟩
  rw [MessageKind.receive, run_bind, decode_encode m hm]
  -- the file set after decoding is the one the message had
  show ((m.normalize.setFilePayload none).setFilePayload m.filePayload, _) = _
  rw [Message.setFilePayload_setFilePayload, ← Message.filePayload_normalize,
    Message.setFilePayload_filePayload]


/-- A listing of two entries, `a` and `b`, of 25 bytes each, with a count
of 30: the cut falls inside `b`. -/
def listingSample : Message :=
  .rreaddir ⟨30, [⟨⟨0, 0, 1⟩, 1, 0, [0x61]⟩, ⟨⟨0, 0, 2⟩, 2, 0, [0x62]⟩]⟩

/-- The listing arrives as its first entry, with the count of 30 bytes sent. -/
example : listingSample.normalize = .rreaddir ⟨30, [⟨⟨0, 0, 1⟩, 1, 0, [0x61]⟩]⟩ := by decide

theorem receive_encode_listingSample :
    listingSample.wellSized = true ∧
      messageByType listingSample.type = some listingSample.kind ∧
        (listingSample.kind.receive listingSample.encode.2 listingSample.filePayload).run
          ⟨listingSample.encode.1 ++ [], false⟩ = (listingSample.normalize, ⟨[], false⟩) :=
  ⟨rfl, receive_encode listingSample rfl [] false⟩

end ContainerFS.P9
