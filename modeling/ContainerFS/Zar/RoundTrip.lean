import ContainerFS.Imgfs.Inode

/-!
The zar round trip: `imgfs` mounts the image that `zar` writes for a
directory tree as that tree. The reader builds each directory in two passes,
as the writer laid it out: first the files and links of the listing, then
its subdirectories, each read by a nested call up to its ".." entry.
`Tree.mounted` is that directory, and `lookup_mounted` shows that it names
what the listing names, path by path.

`mountFrom_includeFiles` and `mountFrom_walkSubdirs` are the two passes read
against the two loops of `WalkDir`: reading the entries one loop appended
moves the reader to the end of them and builds what the pass describes.
-/

namespace ContainerFS.Zar

open ContainerFS.Varint ContainerFS.Imgfs ZarManager

namespace Tree

/-- The map after the reader has put the files and links of `t` onto `acc`,
one by one. -/
def readFiles : Tree → Contents (List UInt8) → Contents (List UInt8)
  | .nil, acc => acc
  | .file name data modTime rest, acc => rest.readFiles (.file name data modTime acc)
  | .symlink name target _ rest, acc => rest.readFiles (.symlink name target acc)
  | .dir _ _ _ rest, acc => rest.readFiles acc

/-- The map after the reader has put the subdirectories of `t` onto `acc`,
each mounted with no whiteouts. -/
def readDirs : Tree → Contents (List UInt8) → Contents (List UInt8)
  | .nil, acc => acc
  | .dir name children _ rest, acc =>
    rest.readDirs (.dir name (children.readDirs (children.readFiles .nil)) [] acc)
  | .file _ _ _ rest, acc => rest.readDirs acc
  | .symlink _ _ _ rest, acc => rest.readDirs acc

/-- The directory the reader builds for the listing `t`. -/
def mounted (t : Tree) : Contents (List UInt8) := t.readDirs (t.readFiles .nil)

def fileNames : Tree → List String
  | .nil => []
  | .file name _ _ rest | .symlink name _ _ rest => name :: rest.fileNames
  | .dir _ _ _ rest => rest.fileNames

def dirNames : Tree → List String
  | .nil => []
  | .dir name _ _ rest => name :: rest.dirNames
  | .file _ _ _ rest | .symlink _ _ _ rest => rest.dirNames

theorem mem_names {t : Tree} {x : String} :
    x ∈ t.names ↔ x ∈ t.fileNames ∨ x ∈ t.dirNames := by
  induction t with
  | nil => simp [names, fileNames, dirNames]
  | file name _ _ rest ih | symlink name _ _ rest ih =>
    simp only [names, fileNames, dirNames, List.mem_cons, ih, or_assoc]
  | dir name _ _ rest _ ih =>
    simp only [names, fileNames, dirNames, List.mem_cons, ih]
    tauto

/-! ### Lookups in what the reader builds -/

section Lookup

variable {x : String} {p : List String}

theorem lookup_of_not_mem {t : Tree} (hf : x ∉ t.fileNames) (hd : x ∉ t.dirNames) :
    t.lookup (x :: p) = none := by
  induction t with
  | nil => rfl
  | file name _ _ rest ih | symlink name _ _ rest ih =>
    simp only [fileNames, List.mem_cons, not_or] at hf
    have hname : name ≠ x := fun h => hf.1 h.symm
    rw [lookup, if_neg hname]
    exact ih hf.2 hd
  | dir name _ _ rest _ ih =>
    simp only [dirNames, List.mem_cons, not_or] at hd
    have hname : name ≠ x := fun h => hd.1 h.symm
    rw [lookup, if_neg hname]
    exact ih hf hd.2

theorem lookup_readFiles_of_not_mem {t : Tree} (hx : x ∉ t.fileNames) :
    ∀ acc, (t.readFiles acc).lookup (x :: p) = acc.lookup (x :: p) := by
  induction t with
  | nil => intro acc; rfl
  | file name _ _ rest ih | symlink name _ _ rest ih =>
    intro acc
    simp only [fileNames, List.mem_cons, not_or] at hx
    have hname : name ≠ x := fun h => hx.1 h.symm
    rw [readFiles, ih hx.2, Contents.lookup, if_neg hname]
  | dir name _ _ rest _ ih =>
    intro acc
    exact ih hx acc

theorem lookup_readDirs_of_not_mem {t : Tree} (hx : x ∉ t.dirNames) :
    ∀ acc, (t.readDirs acc).lookup (x :: p) = acc.lookup (x :: p) := by
  induction t with
  | nil => intro acc; rfl
  | file name _ _ rest ih | symlink name _ _ rest ih =>
    intro acc
    exact ih hx acc
  | dir name _ _ rest _ ih =>
    intro acc
    simp only [dirNames, List.mem_cons, not_or] at hx
    have hname : name ≠ x := fun h => hx.1 h.symm
    rw [readDirs, ih hx.2, Contents.lookup, if_neg hname]

/-- The files pass puts each file and link of a well-formed listing where
the listing has it. -/
theorem lookup_readFiles {t : Tree} (hwf : t.WellFormed) (hx : x ∈ t.fileNames) :
    ∀ acc, (t.readFiles acc).lookup (x :: p) = t.lookup (x :: p) := by
  induction t with
  | nil => cases hx
  | file name _ _ rest ih | symlink name _ _ rest ih =>
    intro acc
    obtain ⟨hfresh, hwr⟩ := hwf
    rw [readFiles, lookup]
    by_cases hname : name = x
    · subst hname
      have hnot : name ∉ rest.fileNames := fun h => hfresh (mem_names.2 (.inl h))
      rw [lookup_readFiles_of_not_mem hnot, Contents.lookup, if_pos rfl, if_pos rfl]
    · have hx' : x ∈ rest.fileNames := by
        simpa [fileNames, Ne.symm hname] using hx
      rw [ih hwr hx', if_neg hname]
  | dir name _ _ rest _ ih =>
    intro acc
    obtain ⟨-, hfresh, -, hwr⟩ := hwf
    have hname : name ≠ x := by
      rintro rfl
      exact hfresh (mem_names.2 (.inl hx))
    rw [readFiles, lookup, if_neg hname]
    exact ih hwr hx acc

/-- A listing's mounted directory names what the listing names, once the
subdirectories pass is known to. -/
theorem lookup_mounted_of {t : Tree} (hwf : t.WellFormed)
    (hdirs : ∀ acc y q, y ∈ t.dirNames → (t.readDirs acc).lookup (y :: q) = t.lookup (y :: q)) :
    ∀ p, t.mounted.lookup p = t.lookup p := by
  intro p
  cases p with
  | nil => rw [Contents.lookup, lookup]
  | cons y q =>
    rw [mounted]
    by_cases hd : y ∈ t.dirNames
    · exact hdirs _ y q hd
    · rw [lookup_readDirs_of_not_mem hd]
      by_cases hf : y ∈ t.fileNames
      · exact lookup_readFiles hwf hf _
      · rw [lookup_readFiles_of_not_mem hf, lookup_of_not_mem hf hd]
        rfl

/-- The subdirectories pass puts each subdirectory where the listing has it,
mounted. -/
theorem lookup_readDirs {t : Tree} (hwf : t.WellFormed) :
    ∀ acc y q, y ∈ t.dirNames → (t.readDirs acc).lookup (y :: q) = t.lookup (y :: q) := by
  induction t with
  | nil => intro acc y q hy; cases hy
  | file name _ _ rest ih | symlink name _ _ rest ih =>
    intro acc y q hy
    obtain ⟨hfresh, hwr⟩ := hwf
    have hname : name ≠ y := by
      rintro rfl
      exact hfresh (mem_names.2 (.inr hy))
    rw [readDirs, lookup, if_neg hname]
    exact ih hwr acc y q hy
  | dir name children _ rest ihc ihr =>
    intro acc y q hy
    obtain ⟨-, hfresh, hwc, hwr⟩ := hwf
    rw [readDirs, lookup]
    by_cases hname : name = y
    · subst hname
      have hnot : name ∉ rest.dirNames := fun h => hfresh (mem_names.2 (.inr h))
      rw [lookup_readDirs_of_not_mem hnot, Contents.lookup, if_pos rfl, if_pos rfl]
      exact lookup_mounted_of hwc (ihc hwc) q
    · have hy' : y ∈ rest.dirNames := by
        simpa [dirNames, Ne.symm hname] using hy
      rw [ihr hwr _ y q hy', if_neg hname]

theorem lookup_mounted {t : Tree} (hwf : t.WellFormed) (p : List String) :
    t.mounted.lookup p = t.lookup p :=
  lookup_mounted_of hwf (lookup_readDirs hwf) p

end Lookup

end Tree

/-! ### The two passes against the two loops of `WalkDir` -/

theorem getElem?_of_isPrefix {α : Type} {l M : List α} {a : α} (h : l ++ [a] <+: M) :
    M[l.length]? = some a := by
  obtain ⟨r, rfl⟩ := h
  simp

theorem inodeBytes_of_isPrefix {img out data pad : List UInt8} (h : out ++ data ++ pad <+: img) :
    inodeBytes img (out.length, out.length + data.length) = data := by
  obtain ⟨r, rfl⟩ := h
  rw [inodeBytes, ← Nat.cast_add, Int.toNat_natCast, Int.toNat_natCast, Nat.add_sub_cancel_left,
    List.append_assoc, List.append_assoc, List.drop_left, List.take_left']
  rfl

section Passes

variable {M : List FileMetadata} {img : List UInt8}

/-- The files pass: reading the entries that the first loop of `WalkDir`
appended builds `readFiles` of the listing. `M` and `img` are the metadata
and the bytes of any later state of the walk. -/
theorem mountFrom_includeFiles (t : Tree) :
    ∀ (z : ZarManager) (c : Contents (ℤ × ℤ)) (w : List String), z.Counted →
      (z.includeFiles t).metadata <+: M → (z.includeFiles t).writer.out <+: img →
      ∃ c', mountFrom M z.metadata.length c w =
          mountFrom M (z.includeFiles t).metadata.length c' w ∧
        c'.map (inodeBytes img) = t.readFiles (c.map (inodeBytes img)) := by
  induction t with
  | nil => intro z c w _ _ _; exact ⟨c, rfl, rfl⟩
  | file name data modTime rest ih =>
    intro z c w hz hM hout
    have hext := extends_includeFiles rest (z.includeFile name data modTime)
    have hmd := getElem?_of_isPrefix
      ((includeFile_metadata z name modTime data) ▸ hext.metadata_grows.trans hM)
    have hbytes : inodeBytes img (z.writer.count, z.writer.count + data.length) = data := by
      rw [hz]
      exact inodeBytes_of_isPrefix ((includeFile_out z name modTime data) ▸ hext.out_grows.trans hout)
    obtain ⟨c', hrun, hmap⟩ := ih _ (.file name (z.writer.count, z.writer.count + data.length)
      modTime c) w (counted_includeFile z name modTime data hz) hM hout
    have hlen : z.metadata.length + 1 = (z.includeFile name data modTime).metadata.length := by
      simp
    refine ⟨c', ?_, ?_⟩
    · rw [mountFrom_regularFile c w hmd rfl, hlen]
      exact hrun
    · rw [hmap, Contents.map, hbytes]
      rfl
  | symlink name target modTime rest ih =>
    intro z c w hz hM hout
    have hext := extends_includeFiles rest (z.includeSymlink name target modTime)
    have hmd := getElem?_of_isPrefix
      ((includeSymlink_metadata z name modTime target) ▸ hext.metadata_grows.trans hM)
    obtain ⟨c', hrun, hmap⟩ := ih (z.includeSymlink name target modTime) (.symlink name target c)
      w hz hM hout
    have hlen : z.metadata.length + 1 = (z.includeSymlink name target modTime).metadata.length := by
      simp
    refine ⟨c', ?_, ?_⟩
    · rw [mountFrom_symlink c w hmd rfl, hlen]
      exact hrun
    · rw [hmap]
      rfl
  | dir name children modTime rest _ ih =>
    intro z c w hz hM hout
    exact ih z c w hz hM hout

/-- The subdirectories pass: reading the entries that the second loop of
`WalkDir` appended builds `readDirs` of the listing. Each subdirectory is a
begin entry, its own two passes, and its ".." entry. -/
theorem mountFrom_walkSubdirs (t : Tree) (hwf : t.WellFormed) :
    ∀ (z : ZarManager) (c : Contents (ℤ × ℤ)) (w : List String), z.Counted →
      (z.walkSubdirs t).metadata <+: M → (z.walkSubdirs t).writer.out <+: img →
      ∃ c', mountFrom M z.metadata.length c w =
          mountFrom M (z.walkSubdirs t).metadata.length c' w ∧
        c'.map (inodeBytes img) = t.readDirs (c.map (inodeBytes img)) := by
  induction t with
  | nil => intro z c w _ _ _; exact ⟨c, rfl, rfl⟩
  | file name _ _ rest ih | symlink name _ _ rest ih =>
    intro z c w hz hM hout
    exact ih hwf.2 z c w hz hM hout
  | dir name children modTime rest ihc ihr =>
    intro z c w hz hM hout
    obtain ⟨hdots, -, hwc, hwr⟩ := hwf
    -- the states of the walk around this subdirectory
    let zB := z.includeFolderBegin name modTime
    let z1 := zB.includeFiles children
    let z2 := z1.walkSubdirs children
    let z3 := z2.includeFolderEnd
    have h3 : Extends z3 (z3.walkSubdirs rest) := extends_walkSubdirs rest z3
    have h2 : Extends z1 z3 := (extends_walkSubdirs children z1).trans (extends_includeFolderEnd z2)
    have hB : Extends zB z3 := (extends_includeFiles children zB).trans h2
    have hM3 : z3.metadata <+: M := h3.metadata_grows.trans hM
    have hout3 : z3.writer.out <+: img := h3.out_grows.trans hout
    have hbegin := getElem?_of_isPrefix
      ((includeFolderBegin_metadata z name modTime) ▸ hB.metadata_grows.trans hM3)
    have hend := getElem?_of_isPrefix ((includeFolderEnd_metadata z2) ▸ hM3)
    have hz1 : z1.Counted := counted_includeFiles children zB hz
    have hz2 : z2.Counted := counted_walkSubdirs children z1 hz1
    obtain ⟨c1, hrun1, hmap1⟩ := mountFrom_includeFiles children zB .nil [] hz
      (h2.metadata_grows.trans hM3) (h2.out_grows.trans hout3)
    obtain ⟨c2, hrun2, hmap2⟩ := ihc hwc z1 c1 [] hz1
      ((extends_includeFolderEnd z2).metadata_grows.trans hM3)
      ((extends_includeFolderEnd z2).out_grows.trans hout3)
    obtain ⟨c', hrun, hmap⟩ := ihr hwr z3 (.dir name c2 [] c) w hz2 hM hout
    refine ⟨c', ?_, ?_⟩
    · have hlenB : z.metadata.length + 1 = zB.metadata.length := by simp [zB]
      have hlen3 : z2.metadata.length + 1 = z3.metadata.length := by simp [z3]
      rw [mountFrom_folderBegin c w hbegin rfl hdots, hlenB, hrun1, hrun2,
        mountFrom_folderEnd c2 [] hend rfl rfl]
      simp only
      rw [hlen3]
      exact hrun
    · rw [hmap, Contents.map, hmap2, hmap1]
      rfl

end Passes

/-! ### The header -/

/-- `Mount` finds the metadata behind the bytes `out`: the header's offset
is `out`'s length, written as `WriteInt64` writes it. -/
theorem mount_header {decode : List UInt8 → Option (List FileMetadata)}
    {out enc : List UInt8} {ms : List FileMetadata} (hdec : decode enc = some ms)
    (hout : out.length < 2 ^ 63) :
    mount decode (out ++ enc ++
        (putVarint out.length ++ List.replicate maxVarintLen64 0).take maxVarintLen64) =
      mountImgRecursive ms (ms.length + 1) 0 .nil [] := by
  have hlo : -2 ^ 63 ≤ (out.length : ℤ) := by omega
  have hhi : (out.length : ℤ) < 2 ^ 63 := by exact_mod_cast hout
  have hpv := putVarint_length_le hlo hhi
  -- the ten bytes are the varint and zeros
  have hbuf : (putVarint out.length ++ List.replicate maxVarintLen64 0).take maxVarintLen64 =
      putVarint out.length ++ List.replicate (maxVarintLen64 - (putVarint out.length).length) 0 := by
    rw [List.take_append, List.take_of_length_le hpv, List.take_replicate, Nat.min_def, if_pos]
    omega
  have hbuflen : (putVarint out.length ++
      List.replicate (maxVarintLen64 - (putVarint out.length).length) 0).length = 10 := by
    simp only [List.length_append, List.length_replicate, maxVarintLen64] at hpv ⊢
    omega
  rw [hbuf]
  have hread := readVarint_putVarint hlo hhi
    (List.replicate (maxVarintLen64 - (putVarint out.length).length) 0)
  generalize putVarint (out.length : ℤ) ++
    List.replicate (maxVarintLen64 - (putVarint out.length).length) 0 = buf at hread hbuflen
  have hlen : (out ++ enc ++ buf).length = (out ++ enc).length + 10 := by
    rw [List.length_append, hbuflen]
  have hne : ¬ (out ++ enc).length + 10 = 0 := by omega
  have hge : ¬ (out ++ enc).length + 10 < 10 := by omega
  have hn : ¬ ((out.length : ℤ) < 0 ∨ (((out ++ enc).length : ℕ) : ℤ) < out.length) := by
    simp only [List.length_append]
    omega
  rw [mount]
  simp only [hlen, hne, hge, if_false, Nat.add_sub_cancel, List.drop_left, hread, hn,
    List.take_left, Int.toNat_natCast, hdec]

/-! ### The round trip -/

/-- `Mount` on the image reads the walk's metadata with fuel for all of it. -/
theorem mount_writeImage_eq (encode : List FileMetadata → List UInt8)
    (decode : List UInt8 → Option (List FileMetadata)) (pageAlign : Bool) (T : Tree)
    (hgob : decode (encode (walkImage pageAlign T).metadata) =
      some (walkImage pageAlign T).metadata)
    (hsize : (writeImage encode pageAlign T).length < 2 ^ 63) :
    mount decode (writeImage encode pageAlign T) =
      mountImgRecursive (walkImage pageAlign T).metadata
        ((walkImage pageAlign T).metadata.length + 1) 0 .nil [] := by
  have hcnt : (walkImage pageAlign T).Counted := (filesWithin_walkImage pageAlign T).1
  have hout : (walkImage pageAlign T).writer.out.length < 2 ^ 63 := by
    rw [length_writeImage] at hsize
    omega
  rw [writeImage_eq, hcnt, mount_header hgob hout]

/-- `MountImgRecursive` over the walk's metadata reads all of it and builds
the mounted tree, over any image that starts with the walk's bytes. -/
theorem mountImgRecursive_walkImage {img : List UInt8} (pageAlign : Bool) (T : Tree)
    (hwf : T.WellFormed) (himg : (walkImage pageAlign T).writer.out <+: img) :
    ∃ root, mountImgRecursive (walkImage pageAlign T).metadata
        ((walkImage pageAlign T).metadata.length + 1) 0 .nil [] =
        .ok (root, [], (walkImage pageAlign T).metadata.length) ∧
      root.map (inodeBytes img) = T.mounted := by
  let z0 : ZarManager := ⟨pageAlign, ⟨[], 0⟩, []⟩
  have hwalk : walkImage pageAlign T = (z0.includeFiles T).walkSubdirs T := rfl
  have hz1 : (z0.includeFiles T).Counted := counted_includeFiles T z0 rfl
  have hext := extends_walkSubdirs T (z0.includeFiles T)
  have hM1 : (z0.includeFiles T).metadata <+: (walkImage pageAlign T).metadata :=
    hext.metadata_grows
  have hM2 : ((z0.includeFiles T).walkSubdirs T).metadata <+: (walkImage pageAlign T).metadata :=
    List.prefix_refl _
  obtain ⟨c1, hrun1, hmap1⟩ := mountFrom_includeFiles T z0 .nil [] rfl hM1
    (hext.out_grows.trans himg)
  obtain ⟨c2, hrun2, hmap2⟩ := mountFrom_walkSubdirs T hwf (z0.includeFiles T) c1 [] hz1 hM2
    himg
  refine ⟨c2, ?_, ?_⟩
  · show mountFrom _ z0.metadata.length .nil [] = _
    rw [hrun1, hrun2, ← hwalk]
    exact mountFrom_of_length_le _ _ (le_refl _)
  · rw [hmap2, hmap1]
    rfl

theorem walkImage_out_isPrefix_writeImage (encode : List FileMetadata → List UInt8) (pageAlign : Bool)
    (T : Tree) : (walkImage pageAlign T).writer.out <+: writeImage encode pageAlign T := by
  rw [writeImage_eq, List.append_assoc]
  exact List.prefix_append _ _

/-- Mounting the image of a well-formed tree reads the whole metadata list
and gives a root with no whiteouts in which every path names what it names
in the tree: the same names in every directory, the same kind, the same link
targets, and for every regular file the bytes of the file. The gob codec is
assumed to decode what it encoded. -/
theorem mount_writeImage (encode : List FileMetadata → List UInt8)
    (decode : List UInt8 → Option (List FileMetadata)) (pageAlign : Bool) (T : Tree)
    (hwf : T.WellFormed)
    (hgob : decode (encode (walkImage pageAlign T).metadata) =
      some (walkImage pageAlign T).metadata)
    (hsize : (writeImage encode pageAlign T).length < 2 ^ 63) :
    ∃ root, mount decode (writeImage encode pageAlign T) =
        .ok (root, [], (walkImage pageAlign T).metadata.length) ∧
      ∀ p, (root.map (inodeBytes (writeImage encode pageAlign T))).lookup p = T.lookup p := by
  obtain ⟨root, hrun, hmap⟩ :=
    mountImgRecursive_walkImage pageAlign T hwf (walkImage_out_isPrefix_writeImage encode pageAlign T)
  refine ⟨root, ?_, ?_⟩
  · rw [mount_writeImage_eq encode decode pageAlign T hgob hsize]
    exact hrun
  · intro p
    rw [hmap]
    exact Tree.lookup_mounted hwf p

/-- A root with a file, a link to it, and a directory holding one file. -/
def sampleTree : Tree :=
  .file "a" [1, 2, 3] 7 (.symlink "l" "a" 8 (.dir "d" (.file "b" [4] 9 .nil) 10 .nil))

theorem mount_writeImage_sampleTree :
    sampleTree.WellFormed ∧
      ∃ root, mount (fun _ => some (walkImage false sampleTree).metadata)
          (writeImage (fun _ => []) false sampleTree) =
          .ok (root, [], (walkImage false sampleTree).metadata.length) ∧
        ∀ p, (root.map (inodeBytes (writeImage (fun _ => []) false sampleTree))).lookup p =
          sampleTree.lookup p :=
  ⟨by decide, mount_writeImage (fun _ => []) _ false sampleTree (by decide) rfl
    (by rw [length_writeImage]; decide)⟩

/-! ### Reads of the mounted files -/

theorem length_inodeBytes {m : List UInt8} {b e : ℤ} (hb : 0 ≤ b) (hbe : b ≤ e)
    (he : e ≤ m.length) : ((inodeBytes m (b, e)).length : ℤ) = e - b := by
  simp only [inodeBytes, List.length_take, List.length_drop]
  omega

/-- The regular files the reader builds from the walk's metadata lie within
any image that starts with the walk's bytes. -/
theorem within_of_mem_inodes {img : List UInt8} {pageAlign : Bool} {T : Tree}
    {root : Contents (ℤ × ℤ)} {j : ℕ} (himg : (walkImage pageAlign T).writer.out <+: img)
    (hrun : mountImgRecursive (walkImage pageAlign T).metadata
      ((walkImage pageAlign T).metadata.length + 1) 0 .nil [] = .ok (root, [], j)) :
    ∀ inode ∈ root.inodes, (newInode img inode).Within := by
  have hfiles := (filesWithin_walkImage pageAlign T).2
  have hlen : ((walkImage pageAlign T).writer.out.length : ℤ) ≤ img.length := by
    exact_mod_cast himg.length_le
  intro inode hinode
  have hbounds := inodes_mountImgRecursive
    (fun x => 0 ≤ x.1 ∧ x.1 ≤ x.2 ∧ x.2 ≤ img.length)
    (fun md hmd htype => by
      obtain ⟨hb, hbe, he⟩ := hfiles md hmd htype
      exact ⟨hb, hbe, he.trans hlen⟩)
    hrun (fun x hx => absurd hx List.not_mem_nil) inode hinode
  exact ⟨hbounds.1, hbounds.2.1, hbounds.2.2⟩

/-- Every regular file of the mounted image of a well-formed tree reads as
its bytes `mapArea[offsetBegin:offsetEnd]`: at an offset `o ≥ 0` into a
nonempty destination, end of file with nothing copied when `o` is at or past
the file's length, and otherwise the bytes from `o` on, as many as the
destination holds. Nothing else of the image is read. -/
theorem read_writeImage (encode : List FileMetadata → List UInt8)
    (decode : List UInt8 → Option (List FileMetadata)) (pageAlign : Bool) (T : Tree)
    (hwf : T.WellFormed)
    (hgob : decode (encode (walkImage pageAlign T).metadata) =
      some (walkImage pageAlign T).metadata)
    (hsize : (writeImage encode pageAlign T).length < 2 ^ 63) :
    ∃ root, mount decode (writeImage encode pageAlign T) =
        .ok (root, [], (walkImage pageAlign T).metadata.length) ∧
      ∀ inode ∈ root.inodes, ∀ (o : ℤ) (dst : UInt64), 0 ≤ o → dst ≠ 0 →
        (newInode (writeImage encode pageAlign T) inode).read dst o =
          if ((inodeBytes (writeImage encode pageAlign T) inode).length : ℤ) ≤ o then
            .error .eof
          else .ok (((inodeBytes (writeImage encode pageAlign T) inode).drop o.toNat).take
            dst.toNat) := by
  have himg := walkImage_out_isPrefix_writeImage encode pageAlign T
  obtain ⟨root, hrun, -⟩ := mountImgRecursive_walkImage pageAlign T hwf himg
  refine ⟨root, ?_, ?_⟩
  · rw [mount_writeImage_eq encode decode pageAlign T hgob hsize]
    exact hrun
  · intro inode hinode o dst ho hdst
    have hwithin := within_of_mem_inodes himg hrun inode hinode
    have hsize' : (newInode (writeImage encode pageAlign T) inode).size =
        ((inodeBytes (writeImage encode pageAlign T) inode).length : ℤ) :=
      (length_inodeBytes hwithin.begin_nonneg hwithin.begin_le_end hwithin.end_le_length).symm
    rw [FileInode.read_eq hwithin ho hdst, hsize']
    rfl

theorem read_writeImage_sampleTree :
    sampleTree.WellFormed ∧
      ∃ root, mount (fun _ => some (walkImage true sampleTree).metadata)
          (writeImage (fun _ => []) true sampleTree) =
          .ok (root, [], (walkImage true sampleTree).metadata.length) ∧
        ∀ inode ∈ root.inodes, ∀ (o : ℤ) (dst : UInt64), 0 ≤ o → dst ≠ 0 →
          (newInode (writeImage (fun _ => []) true sampleTree) inode).read dst o =
            if ((inodeBytes (writeImage (fun _ => []) true sampleTree) inode).length : ℤ) ≤ o
            then .error .eof
            else .ok (((inodeBytes (writeImage (fun _ => []) true sampleTree) inode).drop
              o.toNat).take dst.toNat) :=
  ⟨by decide, read_writeImage (fun _ => []) _ true sampleTree (by decide) rfl (by
    -- two files, each padded to a page
    have hcount : (walkImage true sampleTree).writer.count = 8192 := by decide
    have hcnt := (filesWithin_walkImage true sampleTree).1
    rw [length_writeImage]
    simp only [ZarManager.Counted, hcount] at hcnt
    simp only [List.length_nil, maxVarintLen64]
    omega)⟩

/-! ### Mappings of the mounted files -/

/-- Two one-byte files, "a" and then "b". -/
def twoFiles : Tree := .file "a" [65] 0 (.file "b" [66] 0 .nil)

/-- The image `zar` writes for `twoFiles` without page alignment, with the
gob encoding left abstract. -/
def twoFilesImage : List UInt8 := writeImage (fun _ => []) false twoFiles

theorem twoFilesImage_eq : twoFilesImage = [65, 66, 4, 0, 0, 0, 0, 0, 0, 0, 0, 0] := by
  have hcount : (walkImage false twoFiles).writer.count = 2 := by decide
  have hout : (walkImage false twoFiles).writer.out = [65, 66] := by decide
  have hpv : putVarint 2 = [4] := by
    rw [putVarint, show zigzag 2 = 4 by decide]
    exact putUvarint_of_lt (by decide)
  rw [twoFilesImage, writeImage_eq, hcount, hout, hpv]
  rfl

/-- The inode of "b" lies at `[1, 2)` of the image. `Translate` backs the
mappable range `[0, 4096)` by the inode from file offset 0, where the file's
bytes are "B" and then zeros; mapping `FD()`, the whole image, at that
offset shows the image's first byte "A" instead, and `MapInternal` slices
the image up to the page boundary 4096 and panics. -/
theorem mapFile_twoFiles :
    mount (fun _ => some (walkImage false twoFiles).metadata) twoFilesImage =
        .ok (.file "b" (1, 2) 0 (.file "a" (0, 1) 0 .nil), [], 2) ∧
      inodeBytes twoFilesImage (1, 2) = [66] ∧
      (newInode twoFilesImage (1, 2)).translate ⟨0, 4096⟩ ⟨0, 4096⟩ ⟨true, false, false⟩ =
        [⟨⟨0, 4096⟩, newInode twoFilesImage (1, 2), 0⟩] ∧
      ((newInode twoFilesImage (1, 2)).mapFileBytes ⟨0, 4096⟩).head? = some 65 ∧
      (newInode twoFilesImage (1, 2)).mapInternal ⟨0, 4096⟩ ⟨true, false, false⟩ =
        .error .sliceOutOfRange := by
  rw [twoFilesImage_eq]
  decide

end ContainerFS.Zar
