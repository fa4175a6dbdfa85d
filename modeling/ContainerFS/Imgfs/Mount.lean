import ContainerFS.Zar.Writer

/-!
Mounting a zar image in `imgfs`. `Mount` reads the varint in the last ten
bytes of the image, decodes the metadata list that starts at that offset and
ends ten bytes before the end of the image, and hands it to
`MountImgRecursive`. That function walks the list from the shared index `i`:
a regular file becomes an inode over its range of the image, a symbolic link
a link inode, a directory entry a recursive call that returns at the matching
".." entry, and a whiteout a name to mark on the directory.

The recursion follows the index returned by the nested call, so the model
takes fuel; `mountFrom` gives the loop enough fuel for the rest of the list,
and its unfolding lemmas are the loop's own steps.
-/

namespace ContainerFS.Imgfs

open ContainerFS.Varint ContainerFS.Zar

/-- The `fileType` values `imgfs` reads. -/
def imgFSRegularFile : ℤ := 0
def imgFSDirectory : ℤ := 1
def imgFSSymlink : ℤ := 2
def imgFSWhiteoutFile : ℤ := 3

/-- The map `contents` of a directory inode, most recent assignment first, so
that the first entry of a name is the inode the map holds for it. A regular
file's inode is `β`: its offsets into the image when mounted. -/
inductive Contents (β : Type) where
  | nil
  | file (name : String) (inode : β) (modTime : ℤ) (rest : Contents β)
  | symlink (name : String) (target : String) (rest : Contents β)
  | dir (name : String) (contents : Contents β) (whiteouts : List String) (rest : Contents β)
  deriving DecidableEq, Repr

namespace Contents

variable {β γ : Type}

def map (f : β → γ) : Contents β → Contents γ
  | .nil => .nil
  | .file name inode modTime rest => .file name (f inode) modTime (rest.map f)
  | .symlink name target rest => .symlink name target (rest.map f)
  | .dir name contents whiteouts rest => .dir name (contents.map f) whiteouts (rest.map f)

/-- What the path `p` names below a directory whose files hold their bytes. -/
def lookup : Contents (List UInt8) → List String → Option Entry
  | _, [] => some .dir
  | .nil, _ :: _ => none
  | .file name data modTime rest, x :: p =>
    if name = x then (if p = [] then some (.file data modTime) else none)
    else rest.lookup (x :: p)
  | .symlink name target rest, x :: p =>
    if name = x then (if p = [] then some (.symlink target) else none)
    else rest.lookup (x :: p)
  | .dir name contents _ rest, x :: p =>
    if name = x then contents.lookup p else rest.lookup (x :: p)

/-- The inodes of the regular files of a directory and of all directories
below it. -/
def inodes : Contents β → List β
  | .nil => []
  | .file _ inode _ rest => inode :: rest.inodes
  | .symlink _ _ rest => rest.inodes
  | .dir _ contents _ rest => contents.inodes ++ rest.inodes

end Contents

/-- The bytes of a regular file's inode: `mapArea[offsetBegin:offsetEnd]`. -/
def inodeBytes (mapArea : List UInt8) (offsets : ℤ × ℤ) : List UInt8 :=
  (mapArea.drop offsets.1.toNat).take (offsets.2.toNat - offsets.1.toNat)

inductive MountError where
  /-- "the image file size shouldn't be zero" -/
  | emptyImage
  /-- A slice of the image out of its bounds, a Go runtime panic. -/
  | sliceOutOfRange
  /-- "can't read header location, err: %v" -/
  | headerLocation (e : ReadError)
  /-- "can't decode metadata data, err: %v" -/
  | decodeMetadata
  /-- "unknown file type %v (type: %v)" -/
  | unknownFileType (name : String) (type : ℤ)
  /-- "can't create recursive folder %v, err: %v" -/
  | recursiveFolder (name : String) (e : MountError)
  /-- The model's loop ran out of fuel. -/
  | outOfFuel
  deriving DecidableEq, Repr

/-- A mounted directory: its contents, its whiteouts, and the index after the
last entry read. -/
abbrev Mounted := Contents (ℤ × ℤ) × List String × ℕ

/-- `MountImgRecursive` from index `i` with the directory's map and whiteouts
built so far; `length` is the length of `metadata`, so the loop guard is
`metadata[i]?`. -/
def mountImgRecursive (metadata : List FileMetadata) :
    ℕ → ℕ → Contents (ℤ × ℤ) → List String → Except MountError Mounted
  | 0, _, _, _ => .error .outOfFuel
  | fuel + 1, i, contents, whiteouts =>
    match metadata[i]? with
    | none => .ok (contents, whiteouts, i)
    | some md =>
      if md.type = imgFSRegularFile then
        mountImgRecursive metadata fuel (i + 1)
          (.file md.name (md.offsetBegin, md.offsetEnd) md.modTime contents) whiteouts
      else if md.type = imgFSDirectory then
        if md.name ≠ ".." then
          match mountImgRecursive metadata fuel (i + 1) .nil [] with
          | .error e => .error (.recursiveFolder md.name e)
          | .ok (sub, subWhiteouts, j) =>
            mountImgRecursive metadata fuel j (.dir md.name sub subWhiteouts contents) whiteouts
        else .ok (contents, whiteouts, i + 1)
      else if md.type = imgFSSymlink then
        mountImgRecursive metadata fuel (i + 1) (.symlink md.name md.link contents) whiteouts
      else if md.type = imgFSWhiteoutFile then
        mountImgRecursive metadata fuel (i + 1) contents (whiteouts ++ [md.name])
      else .error (.unknownFileType md.name md.type)

/-- `Filesystem.Mount` on the mapped image `mmap`, with the gob decoder of
`[]fileMetadata` as `decode`. Returns the root directory and the final value
of the index. -/
def mount (decode : List UInt8 → Option (List FileMetadata)) (mmap : List UInt8) :
    Except MountError Mounted :=
  let length := mmap.length
  if length = 0 then .error .emptyImage
  else if length < 10 then .error .sliceOutOfRange
  else
    match readVarint (mmap.drop (length - 10)) with
    | .error e => .error (.headerLocation e)
    | .ok n =>
      if n < 0 ∨ ((length - 10 : ℕ) : ℤ) < n then .error .sliceOutOfRange
      else
        match decode ((mmap.take (length - 10)).drop n.toNat) with
        | none => .error .decodeMetadata
        | some metadata => mountImgRecursive metadata (metadata.length + 1) 0 .nil []

/-! ### Fuel -/

section Fuel

variable {metadata : List FileMetadata}

theorem mountImgRecursive_of_length_le {fuel i : ℕ} {c : Contents (ℤ × ℤ)} {w : List String}
    (hi : metadata.length ≤ i) :
    mountImgRecursive metadata (fuel + 1) i c w = .ok (c, w, i) := by
  rw [mountImgRecursive, List.getElem?_eq_none hi]

/-- The index only moves forward. -/
theorem le_of_mountImgRecursive :
    ∀ {fuel i : ℕ} {c c' : Contents (ℤ × ℤ)} {w w' : List String} {j : ℕ},
      mountImgRecursive metadata fuel i c w = .ok (c', w', j) → i ≤ j := by
  intro fuel
  induction fuel with
  | zero => intro i c c' w w' j h; simp [mountImgRecursive] at h
  | succ fuel ih =>
    intro i c c' w w' j h
    rw [mountImgRecursive] at h
    cases hmd : metadata[i]? with
    | none =>
      rw [hmd] at h
      cases h
      exact le_refl i
    | some md =>
      rw [hmd] at h
      simp only at h
      split_ifs at h
      · exact Nat.le_of_succ_le (ih h)
      · cases hsub : mountImgRecursive metadata fuel (i + 1) .nil [] with
        | error e => rw [hsub] at h; cases h
        | ok r =>
          obtain ⟨sub, subWhiteouts, k⟩ := r
          rw [hsub] at h
          exact Nat.le_trans (Nat.le_of_succ_le (ih hsub)) (ih h)
      · cases h
        exact Nat.le_succ i
      · exact Nat.le_of_succ_le (ih h)
      · exact Nat.le_of_succ_le (ih h)

/-- One more unit of fuel changes nothing once the fuel covers the rest of
the list. -/
theorem mountImgRecursive_succ_fuel :
    ∀ {fuel i : ℕ} (c : Contents (ℤ × ℤ)) (w : List String), metadata.length - i < fuel →
      mountImgRecursive metadata (fuel + 1) i c w = mountImgRecursive metadata fuel i c w := by
  intro fuel
  induction fuel with
  | zero => intro i c w h; omega
  | succ fuel ih =>
    intro i c w hfuel
    cases hmd : metadata[i]? with
    | none => simp only [mountImgRecursive, hmd]
    | some md =>
      have hi : i < metadata.length := by
        by_contra hle
        rw [List.getElem?_eq_none (by omega)] at hmd
        cases hmd
      have hnext : metadata.length - (i + 1) < fuel := by omega
      conv_lhs => rw [mountImgRecursive, hmd]
      conv_rhs => rw [mountImgRecursive, hmd]
      simp only
      rw [ih _ _ hnext, ih _ _ hnext, ih _ _ hnext, ih _ _ hnext]
      cases hsub : mountImgRecursive metadata fuel (i + 1) .nil [] with
      | error e => rfl
      | ok r =>
        obtain ⟨sub, subWhiteouts, k⟩ := r
        have hk : i + 1 ≤ k := le_of_mountImgRecursive hsub
        simp only
        rw [ih _ _ (by omega)]

theorem mountImgRecursive_add_fuel {fuel i : ℕ} (c : Contents (ℤ × ℤ)) (w : List String)
    (hfuel : metadata.length - i < fuel) (d : ℕ) :
    mountImgRecursive metadata (fuel + d) i c w = mountImgRecursive metadata fuel i c w := by
  induction d with
  | zero => rfl
  | succ d ih => rw [← Nat.add_assoc, mountImgRecursive_succ_fuel c w (by omega), ih]

/-- Every inode the reader builds comes from a regular file's entry: what
holds of the offsets of all those entries, and of the inodes already in the
map, holds of every inode in the result. -/
theorem inodes_mountImgRecursive (P : ℤ × ℤ → Prop)
    (hP : ∀ md ∈ metadata, md.type = imgFSRegularFile → P (md.offsetBegin, md.offsetEnd)) :
    ∀ {fuel i : ℕ} {c c' : Contents (ℤ × ℤ)} {w w' : List String} {j : ℕ},
      mountImgRecursive metadata fuel i c w = .ok (c', w', j) →
        (∀ x ∈ c.inodes, P x) → ∀ x ∈ c'.inodes, P x := by
  intro fuel
  induction fuel with
  | zero => intro i c c' w w' j h; simp [mountImgRecursive] at h
  | succ fuel ih =>
    intro i c c' w w' j h hc
    rw [mountImgRecursive] at h
    cases hmd : metadata[i]? with
    | none =>
      rw [hmd] at h
      cases h
      exact hc
    | some md =>
      rw [hmd] at h
      have hmem : md ∈ metadata := List.mem_of_getElem? hmd
      simp only at h
      split_ifs at h with hfile hdir hname hlink hwhite
      · -- a regular file: its inode joins the map
        refine ih h ?_
        intro x hx
        rcases List.mem_cons.mp hx with rfl | hx
        · exact hP md hmem hfile
        · exact hc x hx
      · -- a subdirectory: its inodes come from the nested call
        cases hsub : mountImgRecursive metadata fuel (i + 1) .nil [] with
        | error e => rw [hsub] at h; cases h
        | ok r =>
          obtain ⟨sub, subWhiteouts, k⟩ := r
          rw [hsub] at h
          have hs := ih hsub (fun x hx => absurd hx List.not_mem_nil)
          refine ih h ?_
          intro x hx
          rcases List.mem_append.mp hx with hx | hx
          · exact hs x hx
          · exact hc x hx
      · cases h
        exact hc
      · exact ih h hc
      · exact ih h hc

end Fuel

/-- `MountImgRecursive` from index `i` with fuel for the rest of the list. -/
def mountFrom (metadata : List FileMetadata) (i : ℕ) (c : Contents (ℤ × ℤ))
    (w : List String) : Except MountError Mounted :=
  mountImgRecursive metadata (metadata.length - i + 1) i c w

section MountFrom

variable {metadata : List FileMetadata}

theorem mountImgRecursive_eq_mountFrom {fuel i : ℕ} (c : Contents (ℤ × ℤ)) (w : List String)
    (hfuel : metadata.length - i < fuel) :
    mountImgRecursive metadata fuel i c w = mountFrom metadata i c w := by
  obtain ⟨d, rfl⟩ : ∃ d, fuel = metadata.length - i + 1 + d :=
    ⟨fuel - (metadata.length - i + 1), by omega⟩
  exact mountImgRecursive_add_fuel c w (by omega) d

theorem mountFrom_of_length_le {i : ℕ} (c : Contents (ℤ × ℤ)) (w : List String)
    (hi : metadata.length ≤ i) : mountFrom metadata i c w = .ok (c, w, i) :=
  mountImgRecursive_of_length_le hi

theorem mountFrom_regularFile {i : ℕ} {md : FileMetadata} (c : Contents (ℤ × ℤ))
    (w : List String) (hmd : metadata[i]? = some md) (htype : md.type = imgFSRegularFile) :
    mountFrom metadata i c w =
      mountFrom metadata (i + 1)
        (.file md.name (md.offsetBegin, md.offsetEnd) md.modTime c) w := by
  have hi : i < metadata.length := (List.getElem?_eq_some_iff.mp hmd).1
  rw [mountFrom, mountImgRecursive, hmd]
  simp only [htype, if_true]
  exact mountImgRecursive_eq_mountFrom _ _ (by omega)

theorem mountFrom_symlink {i : ℕ} {md : FileMetadata} (c : Contents (ℤ × ℤ))
    (w : List String) (hmd : metadata[i]? = some md) (htype : md.type = imgFSSymlink) :
    mountFrom metadata i c w =
      mountFrom metadata (i + 1) (.symlink md.name md.link c) w := by
  have hi : i < metadata.length := (List.getElem?_eq_some_iff.mp hmd).1
  rw [mountFrom, mountImgRecursive, hmd]
  simp only [htype, imgFSSymlink, imgFSRegularFile, imgFSDirectory]
  simp only [show ¬ (2 : ℤ) = 0 by decide, show ¬ (2 : ℤ) = 1 by decide, if_true, if_false]
  exact mountImgRecursive_eq_mountFrom _ _ (by omega)

/-- A directory's begin entry: the nested call reads the directory up to its
".." entry, and the loop goes on after it. -/
theorem mountFrom_folderBegin {i : ℕ} {md : FileMetadata} (c : Contents (ℤ × ℤ))
    (w : List String) (hmd : metadata[i]? = some md) (htype : md.type = imgFSDirectory)
    (hname : md.name ≠ "..") :
    mountFrom metadata i c w =
      match mountFrom metadata (i + 1) .nil [] with
      | .error e => .error (.recursiveFolder md.name e)
      | .ok (sub, subWhiteouts, j) =>
        mountFrom metadata j (.dir md.name sub subWhiteouts c) w := by
  have hi : i < metadata.length := (List.getElem?_eq_some_iff.mp hmd).1
  rw [mountFrom, mountImgRecursive, hmd]
  simp only [htype, imgFSRegularFile, imgFSDirectory, ne_eq, hname, not_false_eq_true,
    show ¬ (1 : ℤ) = 0 by decide, ↓reduceIte]
  rw [mountImgRecursive_eq_mountFrom _ _ (by omega)]
  cases hsub : mountFrom metadata (i + 1) .nil [] with
  | error e => rfl
  | ok r =>
    obtain ⟨sub, subWhiteouts, j⟩ := r
    have hj : i + 1 ≤ j := le_of_mountImgRecursive hsub
    exact mountImgRecursive_eq_mountFrom _ _ (by omega)

theorem mountFrom_folderEnd {i : ℕ} {md : FileMetadata} (c : Contents (ℤ × ℤ))
    (w : List String) (hmd : metadata[i]? = some md) (htype : md.type = imgFSDirectory)
    (hname : md.name = "..") :
    mountFrom metadata i c w = .ok (c, w, i + 1) := by
  rw [mountFrom, mountImgRecursive, hmd]
  simp [htype, imgFSRegularFile, imgFSDirectory, hname]

end MountFrom

end ContainerFS.Imgfs
