import ContainerFS.Fs.Overlay

/-!
What the stack of layers is for: it shows the union `V` of the layers. `V` is
the merge of the top layer over the union of those below it, in which a child
of the upper directory hides the lower's unless both are directories and the
upper does not white the name out, when the two merge, and a whiteout of the
upper hides the lower's child. A directory of `V` is the list of the layer
directories it merges, top first (`View.dir`).

`Inode.view` maps each inode of the stack to the node of `V` it stands for.
One lookup maps onto the child in `V` (`lookup_view`, one case per kind of
inode), and so a path does (`lookupPath_view`, by induction on the path);
the root that `mountExpFS` builds stands for `V` itself, and its listings
name the children of `V`.
-/

namespace ContainerFS.Fs

open ContainerFS.Imgfs

variable {β : Type}

/-- A node of the union `V`: a file, a link, or a directory given by the
layer directories it merges, top first. -/
inductive View (β : Type) where
  | file (inode : β) (modTime : ℤ)
  | symlink (target : String)
  | dir (layers : List (Contents β × List String))
  deriving DecidableEq, Repr

namespace View

/-- A layer's own node, as a node of `V` merging nothing below it. -/
def ofNode : Node β → View β
  | .file inode modTime => .file inode modTime
  | .symlink target => .symlink target
  | .dir contents whiteouts => .dir [(contents, whiteouts)]

def type : View β → InodeType
  | .file .. => .regularFile
  | .symlink _ => .symlink
  | .dir _ => .directory

@[simp] theorem type_ofNode (n : Node β) : (ofNode n).type = n.type := by
  cases n <;> rfl

@[simp] theorem type_dir (ds : List (Contents β × List String)) :
    (View.dir ds).type = .directory := rfl

theorem eq_dir_of_type {v : View β} (h : v.type = .directory) : ∃ ds, v = .dir ds := by
  cases v with
  | dir ds => exact ⟨ds, rfl⟩
  | file | symlink => cases h

end View

theorem Node.eq_dir_of_type {n : Node β} (h : n.type = .directory) :
    ∃ c w, n = .dir c w := by
  cases n with
  | dir c w => exact ⟨c, w, rfl⟩
  | file | symlink => cases h

/-- merge(U, W) at a name: U's child `upper`, whether U whites the name out,
and the child `lower` of the union W below. U's child hides W's unless both
are directories and the name is not whited out, when the two merge. -/
def mergeAt : Option (Node β) → Bool → Option (View β) → Option (View β)
  | some (.dir contents whiteouts), false, some (.dir ds) => some (.dir ((contents, whiteouts) :: ds))
  | some n, _, _ => some (.ofNode n)
  | none, true, _ => none
  | none, false, lower => lower

/-- The child `x` of the union of the directories `ds`, top first. -/
def mergeChild (x : String) : List (Contents β × List String) → Option (View β)
  | [] => none
  | (contents, whiteouts) :: ds => mergeAt (contents.child? x) (whiteouts.contains x) (mergeChild x ds)

/-- A child that may be missing, ENOENT when it is. -/
def orEnoent {α : Type} : Option α → Except Errno α
  | some a => .ok a
  | none => .error .enoent

namespace View

/-- The child `x` of a node of `V`: ENOENT where a directory has none, ENOTDIR
below anything else. -/
def child (x : String) : View β → Except Errno (View β)
  | .dir ds => orEnoent (mergeChild x ds)
  | _ => .error .enotdir

/-- The node of `V` at a path. -/
def walk : View β → List String → Except Errno (View β)
  | v, [] => .ok v
  | v, x :: p => (v.child x).bind fun c => c.walk p

end View

/-- The union `V` of the layers, given bottom first, over the submounts' tree. -/
def unionView (mountTree : Option (Contents β)) (layers : List (Contents β × List String)) :
    View β :=
  .dir (layers.reverse ++ match mountTree with
    | none => []
    | some tree => [(tree, [])])

/-- What the operations on a node show of it: its type, the inode its reads
go to, and its link target. -/
structure Observed (β : Type) where
  type : InodeType
  file? : Option β
  readlink? : Option String
  deriving DecidableEq, Repr

def View.observe : View β → Observed β
  | .file inode _ => ⟨.regularFile, some inode, none⟩
  | .symlink target => ⟨.symlink, none, some target⟩
  | .dir _ => ⟨.directory, none, none⟩

def Inode.observe (i : Inode β) : Observed β := ⟨i.type, i.file?, i.readlink?⟩

/-! ### The merge at one name -/

@[simp] theorem mergeAt_none_lower (u : Option (Node β)) (b : Bool) :
    mergeAt u b none = u.map View.ofNode := by
  rcases u with _ | (_ | _ | _) <;> cases b <;> rfl

theorem mergeAt_of_type_ne {n : Node β} (h : n.type ≠ .directory) (b : Bool)
    (lower : Option (View β)) : mergeAt (some n) b lower = some (.ofNode n) := by
  cases n with
  | dir => exact absurd rfl h
  | file | symlink => rfl

theorem mergeAt_dir_of_type_ne {c : Contents β} {w : List String} (b : Bool) {v : View β}
    (h : v.type ≠ .directory) : mergeAt (some (.dir c w)) b (some v) = some (.dir [(c, w)]) := by
  cases v with
  | dir => exact absurd rfl h
  | file | symlink => cases b <;> rfl

theorem isSome_mergeAt (u : Option (Node β)) (b : Bool) (lower : Option (View β)) :
    (mergeAt u b lower).isSome ↔ u.isSome ∨ (b = false ∧ lower.isSome) := by
  rcases u with _ | (_ | _ | _) <;> rcases lower with _ | (_ | _ | _) <;> cases b <;> simp [mergeAt]

theorem mergeChild_singleton (x : String) (c : Contents β) (w : List String) :
    mergeChild x [(c, w)] = (c.child? x).map View.ofNode := by
  rw [mergeChild, mergeChild, mergeAt_none_lower]

/-! ### Inodes of the stack as nodes of the union -/

namespace Inode

/-- The node of `V` that an inode of the stack stands for. -/
def view : Inode β → View β
  | .layer n | .upper n => .ofNode n
  | .lower l => l.view
  | .both u l =>
    match u, l.view with
    | .dir contents whiteouts, .dir ds => .dir ((contents, whiteouts) :: ds)
    | u, _ => .ofNode u

/-- The inodes that `NewOverlayRoot` and lookups build: an overlay with both
an upper and a lower has two directories. -/
def Good : Inode β → Prop
  | .layer _ | .upper _ => True
  | .lower l => l.Good
  | .both u l => u.type = .directory ∧ l.type = .directory ∧ l.Good

theorem view_type {i : Inode β} (hi : i.Good) : i.view.type = i.type := by
  induction i with
  | layer n | upper n => exact View.type_ofNode n
  | lower l ih => exact ih hi
  | both u l ih =>
    obtain ⟨hu, hl, hl'⟩ := hi
    obtain ⟨c, w, rfl⟩ := Node.eq_dir_of_type hu
    obtain ⟨ds, hds⟩ := View.eq_dir_of_type ((ih hl').trans hl)
    simp only [view, hds, type, View.type_dir, Node.type_dir]

/-- The view of an overlay of two directories lays the upper's directory
over those the lower merges. -/
theorem view_both {c : Contents β} {w : List String} {l : Inode β}
    {ds : List (Contents β × List String)} (hl : l.view = .dir ds) :
    (both (.dir c w) l).view = .dir ((c, w) :: ds) := by
  simp only [view, hl]

theorem view_eq_dir_of_type {l : Inode β} (hl : l.Good) (ht : l.type = .directory) :
    ∃ ds, l.view = .dir ds :=
  View.eq_dir_of_type ((view_type hl).trans ht)

/-! ### One lookup -/

theorem foundOrEnoent_lookup_dir (x : String) (c : Contents β) (w : List String) :
    foundOrEnoent ((some (Node.dir c w)).map (Node.lookup x)) = .ok (c.child? x) := by
  simp only [Option.map_some, Node.lookup_dir]
  cases c.child? x <;> rfl

/-- A lower lookup that stands for a child of `V`, as `overlayLookup` reads
it: never ENOTDIR. -/
theorem foundOrEnoent_of_view {r : Except Errno (Inode β)} {L : Option (View β)}
    (h : r.map view = orEnoent L) :
    ∃ lf : Option (Inode β), foundOrEnoent (some r) = .ok lf ∧ lf.map view = L ∧
      ∀ c, lf = some c → r = .ok c := by
  rcases r with e | c <;> rcases L with _ | v
  · obtain rfl : e = .enoent := by cases h; rfl
    exact ⟨none, rfl, rfl, fun _ h => by cases h⟩
  · cases h
  · cases h
  · cases h
    exact ⟨some c, rfl, rfl, fun _ h => by cases h; rfl⟩

/-- `overlayLookup` below an upper directory is the merge at the name, with the
lower's child found as `lf`. -/
theorem overlayLookup_dir {x : String} {c : Contents β} {w : List String}
    {lowerChild : Option (Except Errno (Inode β))} {lf : Option (Inode β)}
    (hlow : foundOrEnoent lowerChild = .ok lf) (hgood : ∀ l, lf = some l → l.Good) :
    (overlayLookup x (some (.dir c w)) lowerChild).map view =
        orEnoent (mergeAt (c.child? x) (w.contains x) (lf.map view)) ∧
      ∀ i, overlayLookup x (some (.dir c w)) lowerChild = .ok i → i.Good := by
  have hany : (some (Node.dir c w)).any (Node.hasWhiteout x) = w.contains x := rfl
  rw [overlayLookup, foundOrEnoent_lookup_dir]
  by_cases hw : w.contains x = true
  · -- a whiteout leaves the upper's child alone
    simp only [hany, hw, ↓reduceIte]
    cases c.child? x with
    | none => exact ⟨rfl, fun _ h => by cases h⟩
    | some n => exact ⟨by cases n <;> rfl, fun _ h => by cases h; trivial⟩
  · simp only [hany, Bool.eq_false_iff.mpr hw, Bool.false_eq_true, ↓reduceIte, hlow]
    cases hn : c.child? x with
    | none =>
      cases lf with
      | none => exact ⟨rfl, fun _ h => by cases h⟩
      | some l => exact ⟨rfl, fun _ h => by cases h; exact hgood l rfl⟩
    | some n =>
      cases lf with
      | none => exact ⟨by cases n <;> rfl, fun _ h => by cases h; trivial⟩
      | some l =>
        have hl := hgood l rfl
        by_cases ht : l.type = n.type
        · have hfilter : (some l).filter (fun l => l.type == n.type) = some l := by simp [ht]
          simp only [hfilter]
          by_cases hd : n.type = .directory
          · -- two directories merge
            obtain ⟨c', w', rfl⟩ := Node.eq_dir_of_type hd
            obtain ⟨ds, hds⟩ := view_eq_dir_of_type hl (ht.trans hd)
            refine ⟨?_, fun i hi => ?_⟩
            · simp only [newEntry, Node.type_dir, ↓reduceIte, Except.map, view_both hds,
                Option.map_some, hds, mergeAt, orEnoent]
            · cases hi
              exact ⟨rfl, ht, hl⟩
          · -- below a file or a link the lower is dropped
            refine ⟨?_, fun i hi => ?_⟩
            · simp only [newEntry, hd, ↓reduceIte, mergeAt_of_type_ne hd, orEnoent, Except.map, view]
            · simp only [newEntry, hd, ↓reduceIte, Except.ok.injEq] at hi
              subst hi
              trivial
        · have hfilter : (some l).filter (fun l => l.type == n.type) = none := by simp [ht]
          simp only [hfilter]
          refine ⟨?_, fun i hi => by cases hi; trivial⟩
          -- types differ: the upper's child alone
          cases n with
          | dir c' w' =>
            have hvt : l.view.type ≠ .directory := by rwa [view_type hl]
            rw [Option.map_some, mergeAt_dir_of_type_ne false hvt]
            rfl
          | file | symlink => rfl

/-- A lookup in a layer's own node is the child of its node of `V`. -/
theorem lookup_ofNode (x : String) (n : Node β) :
    (n.lookup x).map View.ofNode = (View.ofNode n).child x := by
  cases n with
  | dir c w =>
    simp only [Node.lookup_dir, View.ofNode, View.child, mergeChild_singleton]
    cases c.child? x <;> rfl
  | file | symlink => rfl

/-- One lookup in the stack: the child of the inode's node of `V`, and an
inode of the same shape. By cases on the inode; an overlay with a lower
reads the lower's lookup, which the lower's own case has settled. -/
theorem lookup_view {i : Inode β} (hi : i.Good) (x : String) :
    (i.lookup x).map view = i.view.child x ∧ ∀ c, i.lookup x = .ok c → c.Good := by
  induction i with
  | layer n =>
    refine ⟨?_, fun c h => ?_⟩
    · rw [lookup, view, ← lookup_ofNode]
      cases n.lookup x <;> rfl
    · cases hn : n.lookup x <;> rw [lookup, hn] at h <;> cases h
      trivial
  | upper n =>
    by_cases hd : n.type = .directory
    · obtain ⟨c, w, rfl⟩ := Node.eq_dir_of_type hd
      have hnone : foundOrEnoent (none : Option (Except Errno (Inode β))) = .ok none := rfl
      obtain ⟨hview, hgood⟩ := overlayLookup_dir (x := x) (c := c) (w := w) hnone fun _ h => by cases h
      refine ⟨?_, hgood⟩
      rw [lookup, hview]
      rfl
    · -- the upper cannot look up: ENOTDIR
      have hup : foundOrEnoent ((some n).map (Node.lookup x)) = .error .enotdir := by
        rw [Option.map_some, Node.lookup_of_type_ne hd]
        rfl
      refine ⟨?_, fun c h => ?_⟩
      · rw [lookup, overlayLookup, hup]
        cases n with
        | dir => exact absurd rfl hd
        | file | symlink => rfl
      · rw [lookup, overlayLookup, hup] at h
        cases h
  | lower l ih =>
    obtain ⟨hview, hgood⟩ := ih hi
    refine ⟨?_, fun c h => ?_⟩
    · -- the lower's lookup, ENOENT and ENOTDIR kept
      rw [view, ← hview, lookup]
      rcases hl : l.lookup x with (_ | _) | c <;> rfl
    · rcases hl : l.lookup x with (_ | _) | c <;> rw [lookup, hl] at h <;> cases h
      exact hgood c hl
  | both u l ih =>
    obtain ⟨hu, hlt, hl⟩ := hi
    obtain ⟨c, w, rfl⟩ := Node.eq_dir_of_type hu
    obtain ⟨ds, hds⟩ := view_eq_dir_of_type hl hlt
    obtain ⟨hview, hgood⟩ := ih hl
    rw [hds] at hview
    obtain ⟨lf, hlow, hlf, hsome⟩ := foundOrEnoent_of_view hview
    obtain ⟨hview', hgood'⟩ :=
      overlayLookup_dir (x := x) (c := c) (w := w) hlow fun l' h => hgood l' (hsome l' h)
    refine ⟨?_, hgood'⟩
    rw [lookup, hview', view_both hds, hlf]
    rfl

/-- A path looked up in the stack: the node of `V` at the path, by induction
on the path with the shape of the inodes as the invariant. -/
theorem lookupPath_view {i : Inode β} (hi : i.Good) (p : List String) :
    (i.lookupPath p).map view = i.view.walk p ∧ ∀ c, i.lookupPath p = .ok c → c.Good := by
  induction p generalizing i with
  | nil => exact ⟨rfl, fun c h => by cases h; exact hi⟩
  | cons x p ih =>
    obtain ⟨hview, hgood⟩ := lookup_view hi x
    rw [lookupPath, View.walk, ← hview]
    rcases h : i.lookup x with e | c
    · exact ⟨rfl, fun _ h' => by cases h'⟩
    · exact ih (hgood c h)

/-- What the operations show of an inode is what `V` shows of its node. -/
theorem observe_view {i : Inode β} (hi : i.Good) : i.observe = i.view.observe := by
  induction i with
  | layer n | upper n => cases n <;> rfl
  | lower l ih => exact ih hi
  | both u l _ =>
    obtain ⟨hu, hlt, hl⟩ := hi
    obtain ⟨c, w, rfl⟩ := Node.eq_dir_of_type hu
    obtain ⟨ds, hds⟩ := view_eq_dir_of_type hl hlt
    rw [view_both hds]
    rfl

/-! ### Listings -/

theorem mem_readdir_dir {c : Contents β} {x : String} :
    x ∈ c.names.filter (fun n => n != "." && n != "..") ↔ x ≠ "." ∧ x ≠ ".." ∧ (c.child? x).isSome := by
  simp only [List.mem_filter, Contents.mem_names, Bool.and_eq_true, bne_iff_ne, ne_eq]
  tauto

/-- The names an inode lists, "." and ".." aside, are the children of its
directory of `V`. By cases on the inode: an overlay of two directories lists
the upper's names and the lower's that the upper neither whites out nor
holds, which is what the merge keeps. -/
theorem readdir_view {i : Inode β} (hi : i.Good) {ds : List (Contents β × List String)}
    (hd : i.view = .dir ds) :
    ∃ names, i.readdir = .ok names ∧
      ∀ x, x ∈ names ↔ x ≠ "." ∧ x ≠ ".." ∧ (mergeChild x ds).isSome := by
  induction i generalizing ds with
  | layer n | upper n =>
    obtain ⟨c, w, rfl⟩ : ∃ c w, n = .dir c w := by
      cases n with
      | dir c w => exact ⟨c, w, rfl⟩
      | file | symlink => cases hd
    cases hd
    refine ⟨_, rfl, fun x => ?_⟩
    rw [mem_readdir_dir, mergeChild_singleton, Option.isSome_map]
  | lower l ih => exact ih hi hd
  | both u l ih =>
    obtain ⟨hu, hlt, hl⟩ := hi
    obtain ⟨c, w, rfl⟩ := Node.eq_dir_of_type hu
    obtain ⟨ds', hds'⟩ := view_eq_dir_of_type hl hlt
    rw [view_both hds'] at hd
    cases hd
    obtain ⟨lowerNames, hlr, hlower⟩ := ih hl hds'
    refine ⟨_, by rw [readdir, hlr]; rfl, fun x => ?_⟩
    rw [List.mem_append, mem_readdir_dir, List.mem_filter, hlower, mergeChild, isSome_mergeAt]
    simp only [Node.hasWhiteout_dir, Bool.and_eq_true, Bool.not_eq_true', List.contains_eq_mem,
      decide_eq_false_iff_not, mem_readdir_dir]
    tauto

/-! ### The root of the stack -/

/-- The loop of `mountExpFS` over layers that mount: every `NewOverlayRoot`
succeeds, and the stack stands for the layers laid over the directories
`ds` of the stack so far. By induction on the layers. -/
theorem mountLayers_view (layers : List (Contents β × List String)) (index : ℕ)
    {current : Inode β} {ds : List (Contents β × List String)} (hc : current.Good)
    (hd : current.view = .dir ds) :
    ∃ root, mountLayers index (some current) (layers.map fun l => .ok (.dir l.1 l.2)) = .ok root ∧
      root.Good ∧ root.view = .dir (layers.reverse ++ ds) := by
  induction layers generalizing index current ds with
  | nil => exact ⟨current, rfl, hc, hd⟩
  | cons l rest ih =>
    obtain ⟨c, w⟩ := l
    have htype : current.type = .directory := by rw [← view_type hc, hd]; rfl
    have hroot : newOverlayRoot (.dir c w) current = .ok (.both (.dir c w) current) := by
      simp [newOverlayRoot, htype]
    obtain ⟨root, hrun, hgood, hview⟩ :=
      ih (index + 1) (show (both (.dir c w) current).Good from ⟨rfl, htype, hc⟩) (view_both hd)
    refine ⟨root, ?_, hgood, ?_⟩
    · rw [List.map_cons, mountLayers, hroot]
      exact hrun
    · rw [hview, List.reverse_cons, List.append_assoc]
      rfl

/-- `mountExpFS` on layers that mount builds a root that stands for the
union of the layers. -/
theorem mountExpFS_view (mountTree : Option (Contents β)) (layers : List (Contents β × List String))
    (hne : layers ≠ []) :
    ∃ root, mountExpFS mountTree (layers.map fun l => .ok (.dir l.1 l.2)) = .ok root ∧
      root.Good ∧ root.view = unionView mountTree layers := by
  cases mountTree with
  | some tree => exact mountLayers_view layers 0 (show (layer (.dir tree [])).Good from trivial) rfl
  | none =>
    obtain ⟨⟨c, w⟩, rest, rfl⟩ := List.exists_cons_of_ne_nil hne
    obtain ⟨root, hrun, hgood, hview⟩ :=
      mountLayers_view rest 1 (show (layer (.dir c w)).Good from trivial) rfl
    refine ⟨root, hrun, hgood, ?_⟩
    rw [hview, unionView, List.reverse_cons, List.append_nil]

end Inode

open Inode

/-- The stack that `mountExpFS` builds over layers that mount shows the union
`V` of the layers: the lookup of any path fails exactly where `V` has no
entry, with ENOTDIR where the path goes on below a file or a link of `V` and
ENOENT otherwise; it finds an inode of the type, link target and file that
`V` has there; and a directory lists the names of the children of its
directory in `V`, "." and ".." aside. -/
theorem mountExpFS_union (mountTree : Option (Contents β))
    (layers : List (Contents β × List String)) (hne : layers ≠ []) :
    ∃ root, mountExpFS mountTree (layers.map fun l => .ok (.dir l.1 l.2)) = .ok root ∧
      ∀ p, (root.lookupPath p).map Inode.observe = ((unionView mountTree layers).walk p).map View.observe ∧
        ∀ ds, (unionView mountTree layers).walk p = .ok (.dir ds) →
          ∃ names, (root.lookupPath p).bind Inode.readdir = .ok names ∧
            ∀ x, x ∈ names ↔ x ≠ "." ∧ x ≠ ".." ∧ (mergeChild x ds).isSome := by
  obtain ⟨root, hmount, hgood, hview⟩ := mountExpFS_view mountTree layers hne
  refine ⟨root, hmount, fun p => ?_⟩
  obtain ⟨hwalk, hpath⟩ := lookupPath_view hgood p
  rw [← hview, ← hwalk]
  rcases h : root.lookupPath p with e | i
  · exact ⟨rfl, fun _ hd => by cases hd⟩
  · refine ⟨congrArg Except.ok (observe_view (hpath i h)), fun ds hd => ?_⟩
    have hi : i.view = .dir ds := by injection hd
    exact readdir_view (hpath i h) hi

/-- Two layers: the upper whites out the lower's file `a` and adds a file `c`
to the lower's directory `d`. -/
def whiteoutLayers : List (Contents ℕ × List String) :=
  [(.file "a" 0 0 (.dir "d" (.file "b" 1 0 .nil) [] .nil), []),
   (.dir "d" (.file "c" 2 0 .nil) [] .nil, ["a"])]

theorem mountExpFS_union_whiteoutLayers :
    whiteoutLayers ≠ [] ∧
    ∃ root, mountExpFS none (whiteoutLayers.map fun l => .ok (.dir l.1 l.2)) = .ok root ∧
      ∀ p, (root.lookupPath p).map Inode.observe = ((unionView none whiteoutLayers).walk p).map View.observe ∧
        ∀ ds, (unionView none whiteoutLayers).walk p = .ok (.dir ds) →
          ∃ names, (root.lookupPath p).bind Inode.readdir = .ok names ∧
            ∀ x, x ∈ names ↔ x ≠ "." ∧ x ≠ ".." ∧ (mergeChild x ds).isSome :=
  ⟨List.cons_ne_nil _ _, mountExpFS_union none whiteoutLayers (List.cons_ne_nil _ _)⟩

example : ∃ root, mountExpFS none (whiteoutLayers.map fun l => .ok (.dir l.1 l.2)) = .ok root ∧
    root.lookupPath ["a"] = .error .enoent ∧
    (root.lookupPath ["d"]).bind Inode.readdir = .ok ["c", "b"] :=
  ⟨_, rfl, rfl, rfl⟩

/-- One layer holding a regular file `f`: the lookup of `f/x` fails with
ENOTDIR, not ENOENT, where `V` has no entry. -/
theorem lookupPath_below_file :
    mountExpFS none [.ok (.dir (.file "f" 0 0 .nil : Contents ℕ) [])] =
        .ok (.layer (.dir (.file "f" 0 0 .nil) [])) ∧
      (Inode.layer (.dir (.file "f" (0 : ℕ) 0 .nil) [])).lookupPath ["f", "x"] = .error .enotdir ∧
      (unionView none [((.file "f" (0 : ℕ) 0 .nil : Contents ℕ), [])]).walk ["f", "x"] =
        .error .enotdir :=
  ⟨rfl, rfl, rfl⟩

end ContainerFS.Fs
