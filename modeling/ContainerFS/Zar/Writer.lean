import ContainerFS.Lib.Varint

/-!
The zar image writer of `imgGen`. `ZarManager.WalkDir` walks a directory tree
depth first: in each directory it first writes the regular files (their bytes
to the image, padded to a page when `PageAlign` is set) and records the
symbolic links, and then descends into the subdirectories, bracketing each
with a begin entry and an end entry named "..". `WriteHeader` appends the
gob encoding of the metadata list and, in a ten-byte buffer, the varint of
the offset where that encoding starts.

The directory tree is given as `ioutil.ReadDir` lists it, entry by entry;
reading a file or a link cannot fail in the model.
-/

namespace ContainerFS.Zar

open ContainerFS.Varint

/-- `FileMetadata`; `imgfs` decodes it into its `fileMetadata`, which has the
same fields. -/
structure FileMetadata where
  offsetBegin : ℤ
  offsetEnd : ℤ
  name : String
  link : String
  modTime : ℤ
  type : ℤ
  deriving DecidableEq, Repr

/-- The values of `fileType`. -/
def FileType.regularFile : ℤ := 0
def FileType.directory : ℤ := 1
def FileType.symlink : ℤ := 2

theorem FileType.directory_ne_regularFile : FileType.directory ≠ FileType.regularFile := by decide
theorem FileType.symlink_ne_regularFile : FileType.symlink ≠ FileType.regularFile := by decide

/-- A directory as `ioutil.ReadDir` lists it; a subdirectory carries its own
listing. -/
inductive Tree where
  | nil
  | file (name : String) (data : List UInt8) (modTime : ℤ) (rest : Tree)
  | symlink (name : String) (target : String) (modTime : ℤ) (rest : Tree)
  | dir (name : String) (children : Tree) (modTime : ℤ) (rest : Tree)
  deriving DecidableEq, Repr

/-- What a path of a directory tree names. -/
inductive Entry where
  | file (data : List UInt8) (modTime : ℤ)
  | symlink (target : String)
  | dir
  deriving DecidableEq, Repr

namespace Tree

def names : Tree → List String
  | .nil => []
  | .file name _ _ rest | .symlink name _ _ rest | .dir name _ _ rest => name :: rest.names

/-- Names are unique in every directory, and no directory is named "..", the
name of the entry that ends a directory in the image. -/
def WellFormed : Tree → Prop
  | .nil => True
  | .file name _ _ rest | .symlink name _ _ rest => name ∉ rest.names ∧ rest.WellFormed
  | .dir name children _ rest =>
    name ≠ ".." ∧ name ∉ rest.names ∧ children.WellFormed ∧ rest.WellFormed

instance decidableWellFormed : (t : Tree) → Decidable t.WellFormed
  | .nil => isTrue trivial
  | .file name _ _ rest | .symlink name _ _ rest =>
    haveI := decidableWellFormed rest
    inferInstanceAs (Decidable (name ∉ rest.names ∧ rest.WellFormed))
  | .dir name children _ rest =>
    haveI := decidableWellFormed children
    haveI := decidableWellFormed rest
    inferInstanceAs (Decidable (name ≠ ".." ∧ name ∉ rest.names ∧ children.WellFormed ∧
      rest.WellFormed))

/-- What the path `p` names in the directory with listing `t`; of two entries
with one name the first counts. -/
def lookup : Tree → List String → Option Entry
  | _, [] => some .dir
  | .nil, _ :: _ => none
  | .file name data modTime rest, x :: p =>
    if name = x then (if p = [] then some (.file data modTime) else none)
    else rest.lookup (x :: p)
  | .symlink name target _ rest, x :: p =>
    if name = x then (if p = [] then some (.symlink target) else none)
    else rest.lookup (x :: p)
  | .dir name children _ rest, x :: p =>
    if name = x then children.lookup p else rest.lookup (x :: p)

end Tree

/-- `FileWriter`: the bytes written through `W` so far, and `Count`. -/
structure FileWriter where
  out : List UInt8
  count : ℤ
  deriving DecidableEq, Repr

def pageBoundary : ℕ := 4096

/-- The zeros `Write` adds after `n` bytes. -/
def padding (pageAlign : Bool) (n : ℕ) : ℕ :=
  if pageAlign then (pageBoundary - n % pageBoundary) % pageBoundary else 0

/-- `Write`: the data, then zeros up to the next page when `pageAlign` is
set. Returns the offset just past the data. -/
def FileWriter.write (w : FileWriter) (data : List UInt8) (pageAlign : Bool) :
    ℤ × FileWriter :=
  let n := data.length
  let pad := padding pageAlign n
  (w.count + n, ⟨w.out ++ data ++ List.replicate pad 0, w.count + (n + pad : ℕ)⟩)

/-- `WriteInt64`: `PutVarint` into a zeroed buffer of `MaxVarintLen64`
bytes, all of which are written. -/
def FileWriter.writeInt64 (w : FileWriter) (v : ℤ) : FileWriter :=
  (w.write ((putVarint v ++ List.replicate maxVarintLen64 0).take maxVarintLen64) false).2

structure ZarManager where
  pageAlign : Bool
  writer : FileWriter
  metadata : List FileMetadata
  deriving DecidableEq, Repr

namespace ZarManager

def includeFolderBegin (z : ZarManager) (name : String) (modTime : ℤ) : ZarManager :=
  { z with metadata := z.metadata ++ [⟨-1, -1, name, "", modTime, FileType.directory⟩] }

def includeFolderEnd (z : ZarManager) : ZarManager :=
  { z with metadata := z.metadata ++ [⟨-1, -1, "..", "", 0, FileType.directory⟩] }

def includeSymlink (z : ZarManager) (name link : String) (modTime : ℤ) : ZarManager :=
  { z with metadata := z.metadata ++ [⟨-1, -1, name, link, modTime, FileType.symlink⟩] }

/-- `IncludeFile` with the contents `ioutil.ReadFile` returns. -/
def includeFile (z : ZarManager) (name : String) (data : List UInt8) (modTime : ℤ) :
    ZarManager :=
  let oldCounter := z.writer.count
  let (realEnd, w) := z.writer.write data z.pageAlign
  { z with writer := w,
           metadata := z.metadata ++ [⟨oldCounter, realEnd, name, "", modTime,
             FileType.regularFile⟩] }

/-- The first loop of `WalkDir`: regular files and links, in order. -/
def includeFiles (z : ZarManager) : Tree → ZarManager
  | .nil => z
  | .file name data modTime rest => (z.includeFile name data modTime).includeFiles rest
  | .symlink name target modTime rest =>
    (z.includeSymlink name target modTime).includeFiles rest
  | .dir _ _ _ rest => z.includeFiles rest

/-- The second loop of `WalkDir`: `WalkDir(path, name, modTime, false)` on each
subdirectory, in order. -/
def walkSubdirs (z : ZarManager) : Tree → ZarManager
  | .nil => z
  | .dir name children modTime rest =>
    ((((z.includeFolderBegin name modTime).includeFiles children).walkSubdirs
      children).includeFolderEnd).walkSubdirs rest
  | .file _ _ _ rest => z.walkSubdirs rest
  | .symlink _ _ _ rest => z.walkSubdirs rest

/-- `WalkDir` on a directory with listing `t`. -/
def walkDir (z : ZarManager) (foldername : String) (modTime : ℤ) (root : Bool) (t : Tree) :
    ZarManager :=
  let z := if root then z else z.includeFolderBegin foldername modTime
  let z := (z.includeFiles t).walkSubdirs t
  if root then z else z.includeFolderEnd

/-- `WriteHeader`: the gob encoding is written to `W` without counting it,
then the varint of its offset. -/
def writeHeader (z : ZarManager) (encode : List FileMetadata → List UInt8) : FileWriter :=
  let headerLoc := z.writer.count
  let w : FileWriter := { z.writer with out := z.writer.out ++ encode z.metadata }
  w.writeInt64 headerLoc

section Fields

variable (z : ZarManager) (name : String) (modTime : ℤ)

@[simp] theorem includeFolderBegin_metadata :
    (z.includeFolderBegin name modTime).metadata =
      z.metadata ++ [⟨-1, -1, name, "", modTime, FileType.directory⟩] := rfl

@[simp] theorem includeFolderEnd_metadata :
    z.includeFolderEnd.metadata = z.metadata ++ [⟨-1, -1, "..", "", 0, FileType.directory⟩] :=
  rfl

@[simp] theorem includeSymlink_metadata (link : String) :
    (z.includeSymlink name link modTime).metadata =
      z.metadata ++ [⟨-1, -1, name, link, modTime, FileType.symlink⟩] := rfl

@[simp] theorem includeFile_metadata (data : List UInt8) :
    (z.includeFile name data modTime).metadata =
      z.metadata ++ [⟨z.writer.count, z.writer.count + data.length, name, "", modTime,
        FileType.regularFile⟩] := rfl

@[simp] theorem includeFile_out (data : List UInt8) :
    (z.includeFile name data modTime).writer.out =
      z.writer.out ++ data ++ List.replicate (padding z.pageAlign data.length) 0 := rfl

end Fields

/-! ### What the walk preserves -/

/-- `Count` is the number of bytes written through `W`. -/
def Counted (z : ZarManager) : Prop := z.writer.count = z.writer.out.length

/-- `z'` is `z` after more of the walk: the same setting, and the metadata and
the bytes of `z` at the start of those of `z'`. -/
structure Extends (z z' : ZarManager) : Prop where
  pageAlign_eq : z'.pageAlign = z.pageAlign
  metadata_grows : z.metadata <+: z'.metadata
  out_grows : z.writer.out <+: z'.writer.out

theorem Extends.refl (z : ZarManager) : Extends z z :=
  ⟨rfl, List.prefix_refl _, List.prefix_refl _⟩

theorem Extends.trans {z₁ z₂ z₃ : ZarManager} (h₁ : Extends z₁ z₂) (h₂ : Extends z₂ z₃) :
    Extends z₁ z₃ :=
  ⟨h₂.pageAlign_eq.trans h₁.pageAlign_eq, h₁.metadata_grows.trans h₂.metadata_grows,
    h₁.out_grows.trans h₂.out_grows⟩

/-- Every regular file's entry lies within the bytes written. -/
def FilesWithin (z : ZarManager) : Prop :=
  ∀ md ∈ z.metadata, md.type = FileType.regularFile →
    0 ≤ md.offsetBegin ∧ md.offsetBegin ≤ md.offsetEnd ∧ md.offsetEnd ≤ z.writer.out.length

/-- A property of managers that each step of the walk keeps; the two loops
of `WalkDir` then keep it too. -/
structure StepInvariant (P : ZarManager → Prop) : Prop where
  includeFile : ∀ z name data modTime, P z → P (z.includeFile name data modTime)
  includeSymlink : ∀ z name link modTime, P z → P (z.includeSymlink name link modTime)
  includeFolderBegin : ∀ z name modTime, P z → P (z.includeFolderBegin name modTime)
  includeFolderEnd : ∀ z, P z → P z.includeFolderEnd

namespace StepInvariant

variable {P : ZarManager → Prop}

theorem includeFiles (hP : StepInvariant P) (t : Tree) :
    ∀ z : ZarManager, P z → P (z.includeFiles t) := by
  induction t with
  | nil => intro z h; exact h
  | file name data modTime rest ih =>
    intro z h
    exact ih _ (hP.includeFile z name data modTime h)
  | symlink name target modTime rest ih =>
    intro z h
    exact ih _ (hP.includeSymlink z name target modTime h)
  | dir _ _ _ rest _ ih => exact ih

theorem walkSubdirs (hP : StepInvariant P) (t : Tree) :
    ∀ z : ZarManager, P z → P (z.walkSubdirs t) := by
  induction t with
  | nil => intro z h; exact h
  | dir name children modTime rest ihc ihr =>
    intro z h
    apply ihr
    apply hP.includeFolderEnd
    apply ihc
    exact hP.includeFiles children _ (hP.includeFolderBegin z name modTime h)
  | file _ _ _ rest ih | symlink _ _ _ rest ih => exact ih

end StepInvariant

section Steps

variable (z : ZarManager) (name : String) (modTime : ℤ)

theorem extends_includeFile (data : List UInt8) : Extends z (z.includeFile name data modTime) := by
  refine ⟨rfl, List.prefix_append _ _, ?_⟩
  rw [includeFile_out, List.append_assoc]
  exact List.prefix_append _ _

theorem counted_includeFile (data : List UInt8) (h : z.Counted) :
    (z.includeFile name data modTime).Counted := by
  simp only [Counted, includeFile, FileWriter.write, List.length_append, List.length_replicate]
  rw [h]
  push_cast
  ring

theorem filesWithin_includeFile (data : List UInt8) (hc : z.Counted) (h : z.FilesWithin) :
    (z.includeFile name data modTime).FilesWithin := by
  intro md hmd htype
  rw [includeFile_metadata, List.mem_append, List.mem_singleton] at hmd
  have hlen : (z.writer.out.length : ℤ) ≤ (z.includeFile name data modTime).writer.out.length := by
    simp only [includeFile_out, List.length_append]
    omega
  rcases hmd with hold | rfl
  · obtain ⟨hb, hbe, he⟩ := h md hold htype
    exact ⟨hb, hbe, he.trans hlen⟩
  · simp only [includeFile_out, List.length_append, List.length_replicate]
    rw [hc]
    omega

/-- A step that appends an entry of another type and writes nothing keeps
every regular file within the bytes written. -/
theorem filesWithin_of_append {z' : ZarManager} {md : FileMetadata} (h : z.FilesWithin)
    (hmd : z'.metadata = z.metadata ++ [md]) (hout : z'.writer.out = z.writer.out)
    (htype : md.type ≠ FileType.regularFile) : z'.FilesWithin := by
  intro md' hmem htype'
  rw [hmd, List.mem_append, List.mem_singleton] at hmem
  rcases hmem with hold | rfl
  · rw [hout]
    exact h md' hold htype'
  · exact absurd htype' htype

end Steps

theorem stepInvariant_extends (z₀ : ZarManager) : StepInvariant (Extends z₀) where
  includeFile z name data modTime h := h.trans (extends_includeFile z name modTime data)
  includeSymlink _ _ _ _ h := h.trans ⟨rfl, List.prefix_append _ _, List.prefix_refl _⟩
  includeFolderBegin _ _ _ h := h.trans ⟨rfl, List.prefix_append _ _, List.prefix_refl _⟩
  includeFolderEnd _ h := h.trans ⟨rfl, List.prefix_append _ _, List.prefix_refl _⟩

theorem stepInvariant_counted : StepInvariant Counted where
  includeFile z name data modTime h := counted_includeFile z name modTime data h
  includeSymlink _ _ _ _ h := h
  includeFolderBegin _ _ _ h := h
  includeFolderEnd _ h := h

/-- `Count` stays the number of bytes written, and every regular file's entry
within them. -/
theorem stepInvariant_filesWithin : StepInvariant fun z => z.Counted ∧ z.FilesWithin where
  includeFile z name data modTime h :=
    ⟨counted_includeFile z name modTime data h.1, filesWithin_includeFile z name modTime data h.1 h.2⟩
  includeSymlink z name link modTime h :=
    ⟨h.1, filesWithin_of_append z h.2 (includeSymlink_metadata z name modTime link) rfl
      FileType.symlink_ne_regularFile⟩
  includeFolderBegin z name modTime h :=
    ⟨h.1, filesWithin_of_append z h.2 (includeFolderBegin_metadata z name modTime) rfl
      FileType.directory_ne_regularFile⟩
  includeFolderEnd z h :=
    ⟨h.1, filesWithin_of_append z h.2 (includeFolderEnd_metadata z) rfl
      FileType.directory_ne_regularFile⟩

theorem extends_includeFiles (t : Tree) (z : ZarManager) : Extends z (z.includeFiles t) :=
  (stepInvariant_extends z).includeFiles t z (Extends.refl z)

theorem extends_walkSubdirs (t : Tree) (z : ZarManager) : Extends z (z.walkSubdirs t) :=
  (stepInvariant_extends z).walkSubdirs t z (Extends.refl z)

theorem extends_includeFolderEnd (z : ZarManager) : Extends z z.includeFolderEnd :=
  (stepInvariant_extends z).includeFolderEnd z (Extends.refl z)

theorem counted_includeFiles (t : Tree) (z : ZarManager) (h : z.Counted) :
    (z.includeFiles t).Counted :=
  stepInvariant_counted.includeFiles t z h

theorem counted_walkSubdirs (t : Tree) (z : ZarManager) (h : z.Counted) :
    (z.walkSubdirs t).Counted :=
  stepInvariant_counted.walkSubdirs t z h

end ZarManager

/-- The manager of `writeImage` after `z.WalkDir(dir, dir, 0, true)`: a new
manager with `PageAlign` set as asked and a writer whose `Count` is 0. -/
def walkImage (pageAlign : Bool) (t : Tree) : ZarManager :=
  (⟨pageAlign, ⟨[], 0⟩, []⟩ : ZarManager).walkDir "" 0 true t

/-- `writeImage` of `zar`: the bytes of the image of the tree `t`. -/
def writeImage (encode : List FileMetadata → List UInt8) (pageAlign : Bool) (t : Tree) :
    List UInt8 :=
  ((walkImage pageAlign t).writeHeader encode).out

/-- The image is the walk's bytes, the encoded metadata, and the ten-byte
buffer of the header's offset. -/
theorem writeImage_eq (encode : List FileMetadata → List UInt8) (pageAlign : Bool) (t : Tree) :
    writeImage encode pageAlign t =
      (walkImage pageAlign t).writer.out ++ encode (walkImage pageAlign t).metadata ++
        (putVarint (walkImage pageAlign t).writer.count ++
          List.replicate maxVarintLen64 0).take maxVarintLen64 := by
  simp [writeImage, ZarManager.writeHeader, FileWriter.writeInt64, FileWriter.write, padding]

theorem filesWithin_walkImage (pageAlign : Bool) (t : Tree) :
    (walkImage pageAlign t).Counted ∧ (walkImage pageAlign t).FilesWithin :=
  ZarManager.stepInvariant_filesWithin.walkSubdirs t _
    (ZarManager.stepInvariant_filesWithin.includeFiles t _
      ⟨rfl, fun _ hmd => absurd hmd List.not_mem_nil⟩)

theorem length_writeImage (encode : List FileMetadata → List UInt8) (pageAlign : Bool)
    (t : Tree) :
    (writeImage encode pageAlign t).length =
      (walkImage pageAlign t).writer.out.length +
        (encode (walkImage pageAlign t).metadata).length + maxVarintLen64 := by
  rw [writeImage_eq]
  simp only [List.length_append, List.length_take, List.length_replicate]
  omega

end ContainerFS.Zar
