import ContainerFS.Lib.Wire

/-!
The 9P byte buffer (`p9/buffer.go`): fixed-width little-endian reads and
writes, strings with a 16-bit length, and the typed wrappers. A Go string is
its bytes. Writers return the bytes they append; readers run over a
`Wire.Buffer` and return zero, with the buffer marked overrun, when the bytes
are not there.
-/

namespace ContainerFS.P9

open Wire

/-- A Go string: its bytes. -/
abbrev GoString := List UInt8

abbrev FID := UInt32
abbrev UID := UInt32
abbrev GID := UInt32
abbrev Tag := UInt16
abbrev QIDType := UInt8
abbrev FileMode := UInt32
abbrev OpenFlags := UInt32
abbrev ConnectFlags := UInt32
abbrev MsgType := UInt8

/-- `permissionsMask`: `01777`. -/
def permissionsMask : FileMode := 0o1777

/-! ### Readers -/

def read8 : Reader UInt8 := do
  match ← consume 1 with
  | none => pure 0
  | some v => pure (v.headD 0)

def read16 : Reader UInt16 := do
  match ← consume 2 with
  | none => pure 0
  | some v => pure (uint16 v)

def read32 : Reader UInt32 := do
  match ← consume 4 with
  | none => pure 0
  | some v => pure (uint32 v)

def read64 : Reader UInt64 := do
  match ← consume 8 with
  | none => pure 0
  | some v => pure (uint64 v)

def readQIDType : Reader QIDType := read8
def readTag : Reader Tag := read16
def readFID : Reader FID := read32
def readUID : Reader UID := read32
def readGID : Reader GID := read32
def readFileMode : Reader FileMode := read32

/-- `ReadPermissions`: a file mode with the permissions mask applied. -/
def readPermissions : Reader FileMode := do
  let m ← readFileMode
  pure (m &&& permissionsMask)

def readOpenFlags : Reader OpenFlags := read32
def readConnectFlags : Reader ConnectFlags := read32
def readMsgType : Reader MsgType := read8

/-- `ReadString`: the length, then that many bytes; a length past the end
marks the buffer overrun and gives the empty string. -/
def readString : Reader GoString := do
  let l ← read16
  if !(← has l.toNat) then
    markOverrun
    pure []
  else readMany l.toNat read8

/-! ### Writers -/

def write8 (v : UInt8) : List UInt8 := [v]
def write16 (v : UInt16) : List UInt8 := putUint16 v
def write32 (v : UInt32) : List UInt8 := putUint32 v
def write64 (v : UInt64) : List UInt8 := putUint64 v

def writeQIDType (t : QIDType) : List UInt8 := write8 t
def writeTag (t : Tag) : List UInt8 := write16 t
def writeFID (f : FID) : List UInt8 := write32 f
def writeUID (u : UID) : List UInt8 := write32 u
def writeGID (g : GID) : List UInt8 := write32 g
def writeFileMode (m : FileMode) : List UInt8 := write32 m

/-- `WritePermissions`: the mode with the permissions mask applied. -/
def writePermissions (perm : FileMode) : List UInt8 := writeFileMode (perm &&& permissionsMask)

def writeOpenFlags (f : OpenFlags) : List UInt8 := write32 f
def writeConnectFlags (f : ConnectFlags) : List UInt8 := write32 f
def writeMsgType (t : MsgType) : List UInt8 := write8 t

/-- `WriteString`: the length in 16 bits, then the bytes. -/
def writeString (s : GoString) : List UInt8 := write16 s.length.toUInt16 ++ s.flatMap write8

/-! ### Reading back what was written

Each reader takes back what its writer wrote, from a buffer that holds it in
front of anything. The `_bind` forms are the simp set that takes a decoder
apart field by field. -/

/-- The bytes of a string, written one by one, are the string. -/
@[simp]
theorem flatMap_write8 (s : GoString) : s.flatMap write8 = s := by
  induction s with
  | nil => rfl
  | cons c s ih => simp [write8, ih]

section RoundTrip

variable {β : Type} (rest : List UInt8) (o : Bool)

theorem read8_run (v : UInt8) : read8.run ⟨write8 v ++ rest, o⟩ = (v, ⟨rest, o⟩) := by
  rw [read8, write8, ← List.length_singleton (a := v), run_bind_of_run (consume_append _ rest o)]
  simp

theorem read16_run (v : UInt16) : read16.run ⟨write16 v ++ rest, o⟩ = (v, ⟨rest, o⟩) := by
  rw [read16, write16, ← length_putUint16 v, run_bind_of_run (consume_append _ rest o)]
  simp

theorem read32_run (v : UInt32) : read32.run ⟨write32 v ++ rest, o⟩ = (v, ⟨rest, o⟩) := by
  rw [read32, write32, ← length_putUint32 v, run_bind_of_run (consume_append _ rest o)]
  simp

theorem read64_run (v : UInt64) : read64.run ⟨write64 v ++ rest, o⟩ = (v, ⟨rest, o⟩) := by
  rw [read64, write64, ← length_putUint64 v, run_bind_of_run (consume_append _ rest o)]
  simp

theorem readString_run {s : GoString} (hs : s.length < 2 ^ 16) :
    readString.run ⟨writeString s ++ rest, o⟩ = (s, ⟨rest, o⟩) := by
  have hl : (s.length.toUInt16).toNat = s.length := by
    simp only [Nat.toUInt16, UInt16.toNat_ofNat']
    omega
  rw [readString, writeString, List.append_assoc, run_bind_of_run (read16_run _ _ _), hl,
    flatMap_write8, run_bind_of_run (has_append (by simp) o)]
  simpa using readMany_flatMap write8 read8 id (fun _ => True) (fun a _ r o => read8_run r o a) s
    (fun _ _ => trivial) rest o

@[simp]
theorem read8_bind (v : UInt8) (k : UInt8 → Reader β) :
    (read8 >>= k).run ⟨write8 v ++ rest, o⟩ = (k v).run ⟨rest, o⟩ :=
  run_bind_of_run (read8_run rest o v) k

@[simp]
theorem read16_bind (v : UInt16) (k : UInt16 → Reader β) :
    (read16 >>= k).run ⟨write16 v ++ rest, o⟩ = (k v).run ⟨rest, o⟩ :=
  run_bind_of_run (read16_run rest o v) k

@[simp]
theorem read32_bind (v : UInt32) (k : UInt32 → Reader β) :
    (read32 >>= k).run ⟨write32 v ++ rest, o⟩ = (k v).run ⟨rest, o⟩ :=
  run_bind_of_run (read32_run rest o v) k

@[simp]
theorem read64_bind (v : UInt64) (k : UInt64 → Reader β) :
    (read64 >>= k).run ⟨write64 v ++ rest, o⟩ = (k v).run ⟨rest, o⟩ :=
  run_bind_of_run (read64_run rest o v) k

@[simp]
theorem readString_bind {s : GoString} (hs : s.length < 2 ^ 16) (k : GoString → Reader β) :
    (readString >>= k).run ⟨writeString s ++ rest, o⟩ = (k s).run ⟨rest, o⟩ :=
  run_bind_of_run (readString_run rest o hs) k

/-- Permissions come back masked. -/
@[simp]
theorem readPermissions_bind (perm : FileMode) (k : FileMode → Reader β) :
    (readPermissions >>= k).run ⟨writePermissions perm ++ rest, o⟩ =
      (k (perm &&& permissionsMask)).run ⟨rest, o⟩ := by
  rw [readPermissions, writePermissions, readFileMode, writeFileMode, bind_assoc, read32_bind]
  simp [UInt32.and_assoc]

@[simp]
theorem toNat_toUInt16 {n : ℕ} (h : n < 2 ^ 16) : n.toUInt16.toNat = n := by
  simp only [Nat.toUInt16, UInt16.toNat_ofNat']
  omega

@[simp]
theorem toNat_toUInt32 {n : ℕ} (h : n < 2 ^ 32) : n.toUInt32.toNat = n := by
  simp only [Nat.toUInt32, UInt32.toNat_ofNat']
  omega

/-- A list of strings read back, given its count. -/
@[simp]
theorem readStrings_bind {ss : List GoString} (hs : ∀ s ∈ ss, s.length < 2 ^ 16)
    (k : List GoString → Reader β) :
    (readMany ss.length readString >>= k).run ⟨ss.flatMap writeString ++ rest, o⟩ =
      (k ss).run ⟨rest, o⟩ := by
  rw [run_bind_of_run (readMany_flatMap writeString readString id (fun s => s.length < 2 ^ 16)
    (fun _ h r o => readString_run r o h) ss hs rest o), List.map_id]

end RoundTrip

/-! ### Fixed lengths and the overrun mark -/

theorem readsFixed_read8 : ReadsFixed read8 1 :=
  (readsFixed_consume 1).bind (m := 0) fun v => by cases v <;> exact readsFixed_pure _

theorem readsFixed_read16 : ReadsFixed read16 2 :=
  (readsFixed_consume 2).bind (m := 0) fun v => by cases v <;> exact readsFixed_pure _

theorem readsFixed_read32 : ReadsFixed read32 4 :=
  (readsFixed_consume 4).bind (m := 0) fun v => by cases v <;> exact readsFixed_pure _

theorem readsFixed_read64 : ReadsFixed read64 8 :=
  (readsFixed_consume 8).bind (m := 0) fun v => by cases v <;> exact readsFixed_pure _

/-- What `ReadString` does once it has the length. -/
theorem sticky_readString_body (l : UInt16) :
    Sticky (do
      if !(← has l.toNat) then
        markOverrun
        pure []
      else readMany l.toNat read8 : Reader GoString) := by
  refine (sticky_has _).bind fun h => ?_
  cases h
  · exact sticky_markOverrun.bind fun _ => sticky_pure _
  · exact readsFixed_read8.sticky.readMany _

theorem sticky_readString : Sticky readString :=
  readsFixed_read16.sticky.bind sticky_readString_body

/-- A string cut short overruns: either its length is cut, or its bytes
are fewer than the length says. -/
theorem readString_overruns {s q : GoString} (hs : s.length < 2 ^ 16) (hq : q <+: writeString s)
    (hlt : q.length < (writeString s).length) (o : Bool) :
    (readString.run ⟨q, o⟩).2.overflow = true := by
  have hlen : (writeString s).length = 2 + s.length := by simp [writeString, write16]
  by_cases h2 : 2 ≤ q.length
  · -- the length is all there, and reads back as the string's
    have hfront : q.take 2 = write16 s.length.toUInt16 := by
      rw [List.prefix_iff_eq_take.mp hq, List.take_take, Nat.min_eq_left h2, writeString,
        List.take_left' (by simp [write16])]
    obtain ⟨t, rfl⟩ : ∃ t, q = write16 s.length.toUInt16 ++ t :=
      ⟨q.drop 2, by rw [← hfront, List.take_append_drop]⟩
    have hshort : ¬s.length ≤ t.length := by
      simp only [List.length_append, write16, length_putUint16] at hlt
      omega
    have hhas : (has s.length).run ⟨t, o⟩ = (false, ⟨t, o⟩) := by
      simp [has, StateT.run, hshort]
    rw [readString, run_bind_of_run (read16_run _ o _), toNat_toUInt16 hs, run_bind_of_run hhas]
    rfl
  · rw [readString, run_bind]
    exact sticky_readString_body _ _ (readsFixed_read16.short q o (by omega))

end ContainerFS.P9
