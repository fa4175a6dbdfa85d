import ContainerFS.Segment.Denote
import ContainerFS.Auth.IdMap

/-!
ID maps as the functions they denote, and what writing them keeps.

An ID map denotes a partial function on IDs (`lookup`): a segment `[start, end)` valued `v`
sends `x` to `v + (x - start)`, the sum `mapID` computes. `idMapFunctions` merges two segments
only when the second's value continues the first's (`idMapFunctions_coherent`), so `Add` of an
entry's range extends the function by the entry (`add_entry`), and a successful
`trySetIDMap` leaves the maps of its kind denoting the entries, one way and back
(`LoopResult`).

A namespace below the root keeps, for each kind, `MapsInv`: its two maps are sorted, inverse to
each other, hold no `NoID`, and map only into IDs its parent's map holds. From it, along a chain
to the root, `MapToKUID` and `MapFromKUID` are inverse (`mapFromKID_mapToKID`,
`mapToKID_mapFromKID`), and a call of `SetUIDMap` or `SetGIDMap` keeps it (`ChainInv.step`).
-/

namespace ContainerFS.Auth

open Segment Segment.Set
open ContainerFS.Segment.Tree (Sorted)

/-! ### ID maps as partial functions -/

/-- What the segment `r` valued `v` gives the ID `x` it holds: `mapID`'s sum. -/
def idDen (r : Range) (v : UInt32) (x : ℕ) : UInt32 := v + (UInt32.ofNat x - UInt32.ofNat r.start)

/-- The ID the map `m` sends `id` to. -/
def lookup (m : IdMapSet) (id : UInt32) : Option UInt32 := denote idDen m id.toNat

theorem noID_toNat : noID.toNat = 2 ^ 32 - 1 := rfl

theorem idMapFunctions_merge {r1 r2 : Range} {v1 v2 m : UInt32} :
    idMapFunctions.merge r1 v1 r2 v2 = some m ↔ v1 + UInt32.ofNat r1.length = v2 ∧ m = v1 := by
  simp only [idMapFunctions]
  by_cases h : v1 + UInt32.ofNat r1.length = v2
  · simp [h, eq_comm]
  · simp [h]

/-- Merging two ID segments keeps what each maps its IDs to. -/
theorem idMapFunctions_coherent : MergeCoherent idMapFunctions idDen := by
  intro r1 v1 r2 v2 m hm hle hadj
  obtain ⟨hv, rfl⟩ := idMapFunctions_merge.mp hm
  refine ⟨fun x _ => rfl, fun x _ => ?_⟩
  -- the merged segment counts from `r1.start`, which is `r1.length` before `r2.start`
  have hlen : UInt32.ofNat r1.length = UInt32.ofNat r2.start - UInt32.ofNat r1.start := by
    rw [Range.length, hadj, UInt32.ofNat_sub (hadj ▸ hle)]
  simp only [idDen]
  rw [← hv, hlen]
  grind

theorem lookup_eq_some_iff {m : IdMapSet} (hs : Sorted m) {u p : UInt32} :
    lookup m u = some p ↔ ∃ seg ∈ m, seg.1.contains u.toNat = true ∧ idDen seg.1 seg.2 u.toNat = p :=
  denote_eq_some_iff idDen hs

/-- `mapID` on a sorted map reads `lookup`. -/
theorem mapID_eq {m : IdMapSet} (hs : Sorted m) (id : UInt32) :
    mapID m id = if id = noID then noID else (lookup m id).getD noID := by
  unfold mapID lookup denote
  rw [findSegment_eq hs]
  split_ifs
  · rfl
  · cases segmentAt m id.toNat <;> simp [idDen, UInt32.ofNat_toNat]

@[simp] theorem mapID_noID (m : IdMapSet) : mapID m noID = noID := by
  simp [mapID]

theorem mapID_of_lookup {m : IdMapSet} (hs : Sorted m) {u p : UInt32} (hu : u ≠ noID)
    (h : lookup m u = some p) : mapID m u = p := by
  rw [mapID_eq hs, if_neg hu, h, Option.getD_some]

theorem mapID_of_lookup_none {m : IdMapSet} (hs : Sorted m) {u : UInt32}
    (h : lookup m u = none) : mapID m u = noID := by
  rw [mapID_eq hs, h, Option.getD_none, ite_self]

/-! ### Entries -/

namespace IDMapEntry

/-- The entry maps the ID `x` to `p`: `x` is one of its IDs, and `p` lies as far from
`firstParentID` as `x` does from `firstID`. -/
def Maps (e : IDMapEntry) (x : ℕ) (p : UInt32) : Prop :=
  e.firstID.toNat ≤ x ∧ x < e.firstID.toNat + e.length.toNat ∧
    p = e.firstParentID + (UInt32.ofNat x - e.firstID)

/-- The entry read from the parent's side. -/
def swap (e : IDMapEntry) : IDMapEntry := ⟨e.firstParentID, e.firstID, e.length⟩

@[simp] theorem swap_firstID (e : IDMapEntry) : e.swap.firstID = e.firstParentID := rfl

@[simp] theorem swap_firstParentID (e : IDMapEntry) : e.swap.firstParentID = e.firstID := rfl

@[simp] theorem swap_length (e : IDMapEntry) : e.swap.length = e.length := rfl

/-- The entry's ranges are nonempty and wrap in neither ID space: what `trySetIDMap`'s two
overflow checks let through. -/
structure NoWrap (e : IDMapEntry) : Prop where
  pos : 0 < e.length.toNat
  id : e.firstID.toNat + e.length.toNat ≤ noID.toNat
  parent : e.firstParentID.toNat + e.length.toNat ≤ noID.toNat

theorem toNat_add_of_lt {a b : UInt32} (h : a.toNat + b.toNat < 2 ^ 32) :
    (a + b).toNat = a.toNat + b.toNat := by
  rw [UInt32.toNat_add, Nat.mod_eq_of_lt h]

/-- The sum `a + b` is past `a` exactly when `b` is positive and the sum does not wrap. -/
theorem not_add_le_iff {a b : UInt32} :
    ¬a + b ≤ a ↔ 0 < b.toNat ∧ a.toNat + b.toNat ≤ noID.toNat := by
  have ha := a.toNat_lt
  have hb := b.toNat_lt
  rw [UInt32.le_iff_toNat_le, UInt32.toNat_add, noID_toNat]
  by_cases hw : a.toNat + b.toNat < 2 ^ 32
  · rw [Nat.mod_eq_of_lt hw]
    omega
  · have : (a.toNat + b.toNat) % 2 ^ 32 = a.toNat + b.toNat - 2 ^ 32 := by
      rw [Nat.mod_eq_sub_mod (by omega), Nat.mod_eq_of_lt (by omega)]
    omega

/-- The checks of `trySetIDMap` on an entry are its `NoWrap`. -/
theorem noWrap_iff (e : IDMapEntry) :
    (¬e.firstID + e.length ≤ e.firstID ∧ ¬e.firstParentID + e.length ≤ e.firstParentID) ↔
      e.NoWrap := by
  rw [not_add_le_iff, not_add_le_iff]
  constructor
  · rintro ⟨⟨h0, h1⟩, -, h2⟩
    exact ⟨h0, h1, h2⟩
  · rintro ⟨h0, h1, h2⟩
    exact ⟨⟨h0, h1⟩, h0, h2⟩

theorem NoWrap.swap {e : IDMapEntry} (hw : e.NoWrap) : e.swap.NoWrap := ⟨hw.pos, hw.parent, hw.id⟩

theorem NoWrap.last {e : IDMapEntry} (hw : e.NoWrap) :
    (e.firstID + e.length).toNat = e.firstID.toNat + e.length.toNat :=
  toNat_add_of_lt (by have := hw.id; rw [noID_toNat] at this; omega)

theorem NoWrap.start_lt_last {e : IDMapEntry} (hw : e.NoWrap) :
    e.firstID.toNat < (e.firstID + e.length).toNat := by
  rw [hw.last]
  exact Nat.lt_add_of_pos_right hw.pos

/-- `b` moved by the offset of `x` from `a`, when that does not wrap. -/
theorem toNat_add_sub {a b x : UInt32} (hax : a.toNat ≤ x.toNat)
    (hlt : b.toNat + (x.toNat - a.toNat) < 2 ^ 32) :
    (b + (x - a)).toNat = b.toNat + (x.toNat - a.toNat) := by
  have hsub : (x - a).toNat = x.toNat - a.toNat :=
    UInt32.toNat_sub_of_le _ _ (UInt32.le_iff_toNat_le.mpr hax)
  rw [toNat_add_of_lt (by rw [hsub]; exact hlt), hsub]

/-- An entry maps `u` to `p` exactly when, read from the parent's side, it maps `p` back to
`u`. -/
theorem NoWrap.maps_swap {e : IDMapEntry} (hw : e.NoWrap) (u p : UInt32) :
    e.Maps u.toNat p ↔ e.swap.Maps p.toNat u := by
  have hid := hw.id
  have hpar := hw.parent
  rw [noID_toNat] at hid hpar
  simp only [Maps, swap_firstID, swap_firstParentID, swap_length, UInt32.ofNat_toNat]
  constructor
  · rintro ⟨h1, h2, rfl⟩
    have hp := toNat_add_sub (b := e.firstParentID) h1 (by omega)
    refine ⟨by omega, by omega, ?_⟩
    rw [← UInt32.toNat_inj, toNat_add_sub (by omega) (by omega), hp]
    omega
  · rintro ⟨h1, h2, rfl⟩
    have hu := toNat_add_sub (b := e.firstID) h1 (by omega)
    refine ⟨by omega, by omega, ?_⟩
    rw [← UInt32.toNat_inj, toNat_add_sub (by omega) (by omega), hu]
    omega

end IDMapEntry

/-! ### Adding an entry -/

/-- `Add` of an entry's range, valued by its first parent ID, extends the map by the entry. -/
theorem add_entry {m m' : IdMapSet} {e : IDMapEntry} (hs : Sorted m) (hw : e.NoWrap)
    (h : add idMapFunctions m ⟨e.firstID.toNat, (e.firstID + e.length).toNat⟩ e.firstParentID =
      .ok (some m')) :
    Sorted m' ∧ ∀ x p, denote idDen m' x = some p ↔ e.Maps x p ∨ denote idDen m x = some p := by
  refine ⟨add_sorted hs h, fun x p => ?_⟩
  rw [add_denote idDen idMapFunctions_coherent hs h]
  have hcont : Range.contains ⟨e.firstID.toNat, (e.firstID + e.length).toNat⟩ x = true ↔
      e.firstID.toNat ≤ x ∧ x < e.firstID.toNat + e.length.toNat := by
    rw [contains_iff, hw.last]
  by_cases hx : Range.contains ⟨e.firstID.toNat, (e.firstID + e.length).toNat⟩ x = true
  · -- the keys of the entry were free, so only the entry gives them a value
    have hfree : denote idDen m x = none := by
      rw [denote, add_free hs h x hx, Option.map_none]
    obtain ⟨h1, h2⟩ := hcont.mp hx
    rw [if_pos hx, hfree, IDMapEntry.Maps]
    simp [h1, h2, idDen, UInt32.ofNat_toNat, eq_comm]
  · rw [if_neg hx, IDMapEntry.Maps]
    constructor
    · exact Or.inr
    · rintro (⟨h1, h2, -⟩ | h)
      · exact absurd (hcont.mpr ⟨h1, h2⟩) hx
      · exact h

/-! ### Merged neighbours -/

/-- Two segments `Insert` merges: adjacent, with the second's first parent ID where the first's
range ends. -/
def Contiguous (a b : Range × UInt32) : Prop :=
  a.1.stop = b.1.start ∧ a.2 + UInt32.ofNat a.1.length = b.2

/-- No two neighbouring segments of the map are contiguous: `Insert` merged all it could. -/
def Coalesced (m : IdMapSet) : Prop := m.IsChain fun a b => ¬Contiguous a b

theorem merge_eq_none_iff {a b : Range × UInt32} :
    idMapFunctions.merge a.1 a.2 b.1 b.2 = none ↔ a.2 + UInt32.ofNat a.1.length ≠ b.2 := by
  simp only [idMapFunctions]
  by_cases h : a.2 + UInt32.ofNat a.1.length = b.2 <;> simp [h]

/-- A segment merged from `a` and `b` is contiguous with what `b` was contiguous with. -/
theorem contiguous_merged_iff {a b c : Range × UInt32} (hab : a.1.stop = b.1.start)
    (ha : a.1.start ≤ a.1.stop) (hb : b.1.start ≤ b.1.stop)
    (hv : a.2 + UInt32.ofNat a.1.length = b.2) :
    Contiguous (⟨a.1.start, b.1.stop⟩, a.2) c ↔ Contiguous b c := by
  have hlen : Range.length ⟨a.1.start, b.1.stop⟩ = a.1.length + b.1.length := by
    simp only [Range.length]
    omega
  simp only [Contiguous, hlen, UInt32.ofNat_add, ← hv, add_assoc]

/-- The neighbour condition of a shape, read off `Insert`'s failed merges. -/
theorem not_contiguous_of_merge {a b : Range × UInt32}
    (h : a.1.stop = b.1.start → idMapFunctions.merge a.1 a.2 b.1 b.2 = none) :
    ¬Contiguous a b := by
  rintro ⟨hab, hv⟩
  exact merge_eq_none_iff.mp (h hab) hv

/-- `Insert` into a coalesced ID map leaves it coalesced. -/
theorem coalesced_of_shape {L R : List (Range × UInt32)} {r : Range} {val : UInt32}
    {s' : IdMapSet} (hf : FitsBetween L R r) (h : InsertShape idMapFunctions L R r val s')
    (hc : Coalesced (L ++ R)) : Coalesced s' := by
  obtain ⟨hL, hR, -⟩ := sorted_append.mp hf.sorted
  have hc' := List.isChain_append.mp hc
  -- the new segment, first in what follows `L`, is the only one whose left neighbour changed
  have hhead {X : Range × UInt32} {rest : List (Range × UInt32)} {A : List (Range × UInt32)}
      (hX : ∀ a ∈ A.getLast?, ¬Contiguous a X) :
      ∀ a ∈ A.getLast?, ∀ y ∈ (X :: rest).head?, ¬Contiguous a y := by
    intro a ha y hy
    simp only [List.head?_cons, Option.mem_def, Option.some.injEq] at hy
    exact hy ▸ hX a ha
  cases h with
  | alone hprev hnext =>
    refine List.isChain_append.mpr ⟨hc'.1, List.isChain_cons.mpr ⟨?_, hc'.2.1⟩, hhead ?_⟩
    · exact fun N hN => not_contiguous_of_merge (a := (r, val)) fun h => hnext N hN h.symm
    · exact fun P hP => not_contiguous_of_merge (hprev P hP)
  | prev L' P m hL' hadj hm hnext =>
    subst hL'
    obtain ⟨-, rfl⟩ := idMapFunctions_merge.mp hm
    have hL'c := List.isChain_append.mp hc'.1
    refine List.isChain_append.mpr ⟨hL'c.1, List.isChain_cons.mpr ⟨?_, hc'.2.1⟩, hhead ?_⟩
    · exact fun N hN => not_contiguous_of_merge (a := (⟨P.1.start, r.stop⟩, P.2))
        fun h => hnext N hN h.symm
    · -- the merged segment starts where `P` did, with its value
      exact fun a ha => hL'c.2.2 a ha P rfl
  | both L' R' P N m m' hL' hR' hadj hadj' hm hm' =>
    subst hL' hR'
    obtain ⟨hv, rfl⟩ := idMapFunctions_merge.mp hm
    obtain ⟨hv', rfl⟩ := idMapFunctions_merge.mp hm'
    have hL'c := List.isChain_append.mp hc'.1
    have hRc := List.isChain_cons.mp hc'.2.1
    obtain ⟨hP, -⟩ := (sorted_concat hL).2
    obtain ⟨hN, -, -⟩ := sorted_cons.mp hR
    have hPr : P.1.start ≤ r.stop := by
      have := hf.nonempty
      omega
    refine List.isChain_append.mpr ⟨hL'c.1, List.isChain_cons.mpr ⟨fun y hy => ?_, hRc.2⟩,
      hhead fun a ha => hL'c.2.2 a ha P rfl⟩
    -- the merged segment ends where `N` did, with its end value
    rw [contiguous_merged_iff (a := (⟨P.1.start, r.stop⟩, P.2)) hadj'.symm hPr hN.le hv']
    exact hRc.1 y hy
  | next R' N m hR' hadj hm hprev =>
    subst hR'
    obtain ⟨hv, rfl⟩ := idMapFunctions_merge.mp hm
    have hRc := List.isChain_cons.mp hc'.2.1
    obtain ⟨hN, -, -⟩ := sorted_cons.mp hR
    refine List.isChain_append.mpr ⟨hc'.1, List.isChain_cons.mpr ⟨fun y hy => ?_, hRc.2⟩,
      hhead fun P hP => not_contiguous_of_merge (hprev P hP)⟩
    rw [contiguous_merged_iff (a := (r, _)) hadj.symm hf.nonempty.le hN.le hv]
    exact hRc.1 y hy

/-- A successful `Add` into a coalesced ID map leaves it coalesced. -/
theorem coalesced_add {m m' : IdMapSet} {r : Range} {val : UInt32} (hs : Sorted m)
    (hc : Coalesced m) (h : add idMapFunctions m r val = .ok (some m')) : Coalesced m' := by
  obtain ⟨L, R, rfl, hf, hshape⟩ := add_eq_some idMapFunctions hs h
  exact coalesced_of_shape hf hshape hc

/-- A successful `trySetIDMap` on a first entry: the entry passed its checks, both `Add`s
succeeded, and the loop went on with the rest. -/
theorem trySetIDMap_cons_ok {k : IdKind} {parent ns ns' : UserNamespace} {e : IDMapEntry}
    {entries : List IDMapEntry}
    (h : trySetIDMap k parent ns (e :: entries) = .ok (ns', .ok ())) :
    e.NoWrap ∧
      allIDsMapped (parent.mapToParent k) e.firstParentID (e.firstParentID + e.length) = true ∧
      ∃ F T,
        add idMapFunctions (ns.mapFromParent k)
          ⟨e.firstParentID.toNat, (e.firstParentID + e.length).toNat⟩ e.firstID = .ok (some F) ∧
        add idMapFunctions (ns.mapToParent k) ⟨e.firstID.toNat, (e.firstID + e.length).toNat⟩
          e.firstParentID = .ok (some T) ∧
        trySetIDMap k parent ((ns.setMapFromParent k F).setMapToParent k T) entries =
          .ok (ns', .ok ()) := by
  simp only [trySetIDMap] at h
  by_cases hid : e.firstID + e.length ≤ e.firstID
  · simp [hid] at h
  by_cases hpar : e.firstParentID + e.length ≤ e.firstParentID
  · simp [hid, hpar] at h
  by_cases hmapped : allIDsMapped (parent.mapToParent k) e.firstParentID
      (e.firstParentID + e.length) = true
  swap
  · simp [hid, hpar, hmapped] at h
  simp only [hid, hpar, hmapped, if_false, Bool.not_true, Bool.false_eq_true] at h
  refine ⟨(IDMapEntry.noWrap_iff e).mp ⟨hid, hpar⟩, hmapped, ?_⟩
  generalize hF : add idMapFunctions (ns.mapFromParent k)
    ⟨e.firstParentID.toNat, (e.firstParentID + e.length).toNat⟩ e.firstID = rF at h
  rcases rF with p | _ | F
  · cases h
  · cases h
  simp only [UserNamespace.mapToParent_setMapFromParent] at h
  generalize hT : add idMapFunctions (ns.mapToParent k)
    ⟨e.firstID.toNat, (e.firstID + e.length).toNat⟩ e.firstParentID = rT at h
  rcases rT with p | _ | T
  · cases h
  · cases h
  exact ⟨F, T, rfl, rfl, h⟩

theorem lookup_isSome_iff (m : IdMapSet) (p : UInt32) :
    (lookup m p).isSome = (segmentAt m p.toNat).isSome := by
  simp [lookup, denote]

/-- `allIDsMapped` on a sorted map: it holds every ID of the range. -/
theorem allIDsMapped_iff {m : IdMapSet} (hs : Sorted m) {start stop : UInt32}
    (hle : start.toNat ≤ stop.toNat) :
    allIDsMapped m start stop = true ↔
      ∀ x, start.toNat ≤ x → x < stop.toNat → (segmentAt m x).isSome := by
  have hlen : (stop - start).toNat = Range.length ⟨start.toNat, stop.toNat⟩ :=
    UInt32.toNat_sub_of_le _ _ (UInt32.le_iff_toNat_le.mpr hle)
  rw [allIDsMapped, beq_iff_eq, hlen, spanRange_eq_length_iff hs]
  simp only [contains_iff]
  exact ⟨fun h x h1 h2 => h x ⟨h1, h2⟩, fun h x hx => h x hx.1 hx.2⟩

/-! ### The loop of `trySetIDMap` -/

/-- What a successful `trySetIDMap` over `entries` made of the maps of kind `k`, from `ns`:
nothing else changed, and the two maps gained the entries, one way and back. Every entry
passed its checks. -/
structure LoopResult (k : IdKind) (parent ns ns' : UserNamespace)
    (entries : List IDMapEntry) : Prop where
  owner : ns'.owner = ns.owner
  other : ∀ k', k' ≠ k →
    ns'.mapFromParent k' = ns.mapFromParent k' ∧ ns'.mapToParent k' = ns.mapToParent k'
  sorted_to : Sorted (ns'.mapToParent k)
  sorted_from : Sorted (ns'.mapFromParent k)
  toParent : ∀ x p, denote idDen (ns'.mapToParent k) x = some p ↔
    denote idDen (ns.mapToParent k) x = some p ∨ ∃ e ∈ entries, e.Maps x p
  fromParent : ∀ y u, denote idDen (ns'.mapFromParent k) y = some u ↔
    denote idDen (ns.mapFromParent k) y = some u ∨ ∃ e ∈ entries, e.swap.Maps y u
  checked : ∀ e ∈ entries, e.NoWrap ∧ ∀ p : UInt32, e.firstParentID.toNat ≤ p.toNat →
    p.toNat < e.firstParentID.toNat + e.length.toNat → (lookup (parent.mapToParent k) p).isSome
  coalesced : Coalesced (ns.mapToParent k) → Coalesced (ns'.mapToParent k)

/-- A successful `trySetIDMap`, from sorted maps, under a parent whose map is sorted. -/
theorem trySetIDMap_ok {k : IdKind} {parent : UserNamespace}
    (hp : Sorted (parent.mapToParent k)) :
    ∀ {entries : List IDMapEntry} {ns ns' : UserNamespace}, Sorted (ns.mapToParent k) →
      Sorted (ns.mapFromParent k) → trySetIDMap k parent ns entries = .ok (ns', .ok ()) →
      LoopResult k parent ns ns' entries := by
  intro entries
  induction entries with
  | nil =>
    intro ns ns' hT hF h
    simp only [trySetIDMap, Except.ok.injEq, Prod.mk.injEq] at h
    obtain ⟨rfl, -⟩ := h
    exact ⟨rfl, fun _ _ => ⟨rfl, rfl⟩, hT, hF, by simp, by simp, by simp, id⟩
  | cons e entries ih =>
    intro ns ns' hT hF h
    obtain ⟨hw, hmapped, F, T, hFadd, hTadd, hrest⟩ := trySetIDMap_cons_ok h
    obtain ⟨hF', hFden⟩ := add_entry (e := e.swap) hF hw.swap hFadd
    obtain ⟨hT', hTden⟩ := add_entry hT hw hTadd
    have r := ih (by simpa using hT') (by simpa using hF') hrest
    -- the entry's parent IDs are all held by the parent's map
    have hcov : ∀ p : UInt32, e.firstParentID.toNat ≤ p.toNat →
        p.toNat < e.firstParentID.toNat + e.length.toNat →
        (lookup (parent.mapToParent k) p).isSome := by
      have hlast := hw.swap.last
      simp only [IDMapEntry.swap_firstID, IDMapEntry.swap_length] at hlast
      intro p h1 h2
      rw [lookup_isSome_iff]
      exact (allIDsMapped_iff hp (by omega)).mp hmapped p.toNat h1 (by omega)
    refine ⟨by simpa using r.owner, fun k' hk' => ?_, r.sorted_to, r.sorted_from,
      fun x p => ?_, fun y u => ?_, ?_, fun hc => r.coalesced (by simpa using coalesced_add hT hc hTadd)⟩
    · have := r.other k' hk'
      simpa [hk'] using this
    · rw [r.toParent]
      simp only [UserNamespace.mapToParent_setMapToParent, if_true, hTden, List.mem_cons,
        exists_eq_or_imp]
      tauto
    · rw [r.fromParent]
      simp only [UserNamespace.mapFromParent_setMapToParent,
        UserNamespace.mapFromParent_setMapFromParent, if_true, hFden, List.mem_cons,
        exists_eq_or_imp]
      tauto
    · simp only [List.mem_cons, forall_eq_or_imp]
      exact ⟨⟨hw, hcov⟩, r.checked⟩

/-- `trySetIDMap` changes only the maps of its kind. -/
theorem trySetIDMap_frame {k : IdKind} {parent : UserNamespace} :
    ∀ {entries : List IDMapEntry} {ns ns' : UserNamespace} {r : Except Errno Unit},
      trySetIDMap k parent ns entries = .ok (ns', r) →
      ns'.owner = ns.owner ∧ ∀ k', k' ≠ k →
        ns'.mapFromParent k' = ns.mapFromParent k' ∧ ns'.mapToParent k' = ns.mapToParent k' := by
  intro entries
  induction entries with
  | nil =>
    intro ns ns' r h
    simp only [trySetIDMap, Except.ok.injEq, Prod.mk.injEq] at h
    obtain ⟨rfl, -⟩ := h
    exact ⟨rfl, fun _ _ => ⟨rfl, rfl⟩⟩
  | cons e entries ih =>
    intro ns ns' r h
    simp only [trySetIDMap] at h
    split_ifs at h
    · cases h
      exact ⟨rfl, fun _ _ => ⟨rfl, rfl⟩⟩
    · cases h
      exact ⟨rfl, fun _ _ => ⟨rfl, rfl⟩⟩
    · cases h
      exact ⟨rfl, fun _ _ => ⟨rfl, rfl⟩⟩
    · generalize add idMapFunctions (ns.mapFromParent k) _ e.firstID = rF at h
      rcases rF with q | _ | F <;> dsimp only at h
      · cases h
      · cases h
        exact ⟨rfl, fun _ _ => ⟨rfl, rfl⟩⟩
      generalize add idMapFunctions _ _ e.firstParentID = rT at h
      rcases rT with q | _ | T <;> dsimp only at h
      · cases h
      · cases h
        exact ⟨by simp, fun k' hk' => by simp [hk']⟩
      obtain ⟨howner, hother⟩ := ih h
      exact ⟨by simpa using howner, fun k' hk' => by simpa [hk'] using hother k' hk'⟩

/-- `trySetIDMap` never panics: each `Add` it makes is of a range its checks found nonempty. -/
theorem trySetIDMap_ne_error {k : IdKind} {parent : UserNamespace} :
    ∀ {entries : List IDMapEntry} {ns : UserNamespace} (p : SetPanic),
      trySetIDMap k parent ns entries ≠ .error p := by
  intro entries
  induction entries with
  | nil => intro ns p h; cases h
  | cons e entries ih =>
    intro ns p h
    simp only [trySetIDMap] at h
    split_ifs at h with hid hpar
    have hw := (IDMapEntry.noWrap_iff e).mp ⟨hid, hpar⟩
    generalize hF : add idMapFunctions (ns.mapFromParent k) _ e.firstID = rF at h
    rcases rF with q | _ | F <;> dsimp only at h
    · exact add_ne_error idMapFunctions e.firstID hw.swap.start_lt_last q hF
    · cases h
    generalize hT : add idMapFunctions _ _ e.firstParentID = rT at h
    rcases rT with q | _ | T <;> dsimp only at h
    · exact add_ne_error idMapFunctions e.firstParentID hw.start_lt_last q hT
    · cases h
    exact ih p h

/-! ### What a namespace below the root keeps -/

/-- The maps of one kind of a namespace below the root, `T` to the parent and `F` from it,
under a parent whose map to its own parent is `parentT`: sorted, holding IDs below `NoID`,
both empty or neither, inverse to each other, and mapping into IDs the parent maps on. -/
structure MapsInv (T F parentT : IdMapSet) : Prop where
  sorted_to : Sorted T
  sorted_from : Sorted F
  keys_to : ∀ x p, denote idDen T x = some p → x < noID.toNat
  keys_from : ∀ y u, denote idDen F y = some u → y < noID.toNat
  empty : F = [] → T = []
  inverse : ∀ u p, lookup T u = some p ↔ lookup F p = some u
  covered : ∀ u p, lookup T u = some p → (lookup parentT p).isSome

theorem ne_noID_of_lt {u : UInt32} (h : u.toNat < noID.toNat) : u ≠ noID := by
  rintro rfl
  exact lt_irrefl _ h

namespace MapsInv

variable {T F parentT : IdMapSet}

/-- Neither side of a pair the maps relate is `NoID`. -/
theorem ne_noID (hm : MapsInv T F parentT) {u p : UInt32} (h : lookup T u = some p) :
    u ≠ noID ∧ p ≠ noID :=
  ⟨ne_noID_of_lt (hm.keys_to _ _ h), ne_noID_of_lt (hm.keys_from _ _ ((hm.inverse u p).mp h))⟩

/-- A parent whose map holds more keeps the namespace's maps covered. -/
theorem mono_parent (hm : MapsInv T F parentT) {parentT' : IdMapSet}
    (hmono : ∀ u p, lookup parentT u = some p → lookup parentT' u = some p) :
    MapsInv T F parentT' := by
  refine { hm with covered := fun u p h => ?_ }
  obtain ⟨q, hq⟩ := Option.isSome_iff_exists.mp (hm.covered u p h)
  rw [hmono p q hq]
  rfl

end MapsInv

/-- A namespace without maps yet keeps `MapsInv` under any parent. -/
theorem mapsInv_nil (parentT : IdMapSet) : MapsInv [] [] parentT where
  sorted_to := by decide
  sorted_from := by decide
  keys_to := by simp
  keys_from := by simp
  empty := fun _ => rfl
  inverse := by simp [lookup]
  covered := by simp [lookup]

theorem rootMap_sorted : Sorted rootMap := by decide

/-- The namespaces of a namespace's chain each keep `MapsInv` with their parent, for the kind
`k`, and the last is the root as `NewRootUserNamespace` made it. -/
def ViewInv (k : IdKind) : UserNamespace → List UserNamespace → Prop
  | ns, [] => ns = newRootUserNamespace
  | ns, parent :: rest =>
    MapsInv (ns.mapToParent k) (ns.mapFromParent k) (parent.mapToParent k) ∧ ViewInv k parent rest

/-- The IDs a namespace maps on: those its map to the parent holds; at the root, all but
`NoID`. -/
def Mapped (k : IdKind) (ns : UserNamespace) : List UserNamespace → UInt32 → Prop
  | [], u => u ≠ noID
  | _ :: _, u => (lookup (ns.mapToParent k) u).isSome

theorem mapToParent_root (k : IdKind) : newRootUserNamespace.mapToParent k = rootMap := by
  cases k <;> rfl

theorem mapFromParent_root (k : IdKind) : newRootUserNamespace.mapFromParent k = rootMap := by
  cases k <;> rfl

/-- A parent's map holds every ID it maps on. -/
theorem ViewInv.mapped_parent {k : IdKind} {parent : UserNamespace} {rest : List UserNamespace}
    (hv : ViewInv k parent rest) {p : UInt32} (hp : (lookup (parent.mapToParent k) p).isSome)
    (hne : p ≠ noID) : Mapped k parent rest p := by
  cases rest with
  | nil => exact hne
  | cons _ _ => exact hp

section Translate

variable {k : IdKind}

@[simp] theorem mapToKID_noID :
    ∀ (ns : UserNamespace) (ancestors : List UserNamespace), mapToKID k ns ancestors noID = noID
  | _, [] => rfl
  | ns, parent :: rest => by
    rw [mapToKID, mapID_noID, mapToKID_noID parent rest]

/-- A namespace translates an ID its map holds through the ID it maps it to. -/
theorem mapToKID_of_lookup {ns parent : UserNamespace} {rest : List UserNamespace}
    (hv : ViewInv k ns (parent :: rest)) {u p : UInt32}
    (h : lookup (ns.mapToParent k) u = some p) :
    mapToKID k ns (parent :: rest) u = mapToKID k parent rest p := by
  rw [mapToKID, mapID_of_lookup hv.1.sorted_to (hv.1.ne_noID h).1 h]

/-- Along a chain that keeps `ViewInv`, an ID translates to the root exactly when the
namespace maps it on. -/
theorem mapToKID_ne_noID_iff :
    ∀ {ns : UserNamespace} {ancestors : List UserNamespace}, ViewInv k ns ancestors →
      ∀ u, mapToKID k ns ancestors u ≠ noID ↔ Mapped k ns ancestors u
  | _, [], _, _ => Iff.rfl
  | ns, parent :: rest, hv, u => by
    cases hl : lookup (ns.mapToParent k) u with
    | none =>
      rw [mapToKID, mapID_of_lookup_none hv.1.sorted_to hl, mapToKID_noID]
      simp [Mapped, hl]
    | some p =>
      rw [mapToKID_of_lookup hv hl, mapToKID_ne_noID_iff hv.2 p]
      simp only [Mapped, hl, Option.isSome_some, iff_true]
      exact hv.2.mapped_parent (hv.1.covered u p hl) (hv.1.ne_noID hl).2

/-- `MapFromKUID` undoes `MapToKUID` on every ID that translates. -/
theorem mapFromKID_mapToKID :
    ∀ {ns : UserNamespace} {ancestors : List UserNamespace}, ViewInv k ns ancestors →
      ∀ u, mapToKID k ns ancestors u ≠ noID →
        mapFromKID k ns ancestors (mapToKID k ns ancestors u) = u
  | _, [], _, _, _ => rfl
  | ns, parent :: rest, hv, u, hu => by
    have hmapped := (mapToKID_ne_noID_iff hv u).mp hu
    obtain ⟨p, hp⟩ := Option.isSome_iff_exists.mp hmapped
    rw [mapToKID_of_lookup hv hp] at hu ⊢
    rw [mapFromKID, mapFromKID_mapToKID hv.2 p hu]
    exact mapID_of_lookup hv.1.sorted_from (hv.1.ne_noID hp).2 ((hv.1.inverse u p).mp hp)

/-- A sorted map that sends `u` somewhere other than `NoID` holds `u`. -/
theorem lookup_of_mapID {m : IdMapSet} (hs : Sorted m) {u : UInt32} (h : mapID m u ≠ noID) :
    u ≠ noID ∧ lookup m u = some (mapID m u) := by
  rw [mapID_eq hs] at h ⊢
  by_cases hu : u = noID
  · simp [hu] at h
  rw [if_neg hu] at h ⊢
  cases hl : lookup m u with
  | none => simp [hl] at h
  | some v => exact ⟨hu, rfl⟩

/-- `MapToKUID` undoes `MapFromKUID` on every root ID that translates. -/
theorem mapToKID_mapFromKID :
    ∀ {ns : UserNamespace} {ancestors : List UserNamespace}, ViewInv k ns ancestors →
      ∀ kid, mapFromKID k ns ancestors kid ≠ noID →
        mapToKID k ns ancestors (mapFromKID k ns ancestors kid) = kid
  | _, [], _, _, _ => rfl
  | ns, parent :: rest, hv, kid, hk => by
    rw [mapFromKID] at hk ⊢
    -- the parent's translation `q` of `kid` is what the namespace's map holds
    obtain ⟨hq, hlq⟩ := lookup_of_mapID hv.1.sorted_from hk
    have hback := (hv.1.inverse _ _).mpr hlq
    rw [mapToKID_of_lookup hv hback]
    exact mapToKID_mapFromKID hv.2 kid hq

end Translate

/-! ### A call of `SetUIDMap` or `SetGIDMap` -/

/-- What a call that returns did: nothing, with an error; run the loop from an empty map and
failed, removing all of both maps; or run it and succeeded. -/
theorem setIDMap_cases {k : IdKind} {c : Credentials} {i : ℕ} {ns ns' : UserNamespace}
    {ancestors : List UserNamespace} {entries : List IDMapEntry} {err : Except Errno Unit}
    (h : setIDMap k c i ns ancestors entries = .ok (ns', err)) :
    (ns' = ns ∧ err ≠ .ok ()) ∨
    ∃ parent rest, ancestors = parent :: rest ∧ ns.mapFromParent k = [] ∧ entries ≠ [] ∧
      ((∃ ns'' e, trySetIDMap k parent ns entries = .ok (ns'', .error e) ∧
          ns' = ns''.removeAll k ∧ err = .error e) ∨
        (trySetIDMap k parent ns entries = .ok (ns', .ok ()) ∧ err = .ok ())) := by
  unfold setIDMap at h
  split_ifs at h with hF hE hcap hwho
  · exact .inl (by cases h; exact ⟨rfl, nofun⟩)
  · exact .inl (by cases h; exact ⟨rfl, nofun⟩)
  · exact .inl (by cases h; exact ⟨rfl, nofun⟩)
  · exact .inl (by cases h; exact ⟨rfl, nofun⟩)
  rcases ancestors with _ | ⟨parent, rest⟩
  · cases h
  dsimp only at h
  split_ifs at h with hpriv
  · exact .inl (by cases h; exact ⟨rfl, nofun⟩)
  refine .inr ⟨parent, rest, rfl, not_not.mp hF, hE, ?_⟩
  generalize htry : trySetIDMap k parent ns entries = r at h
  rcases r with q | ⟨ns'', _ | _⟩ <;> dsimp only at h
  · cases h
  · cases h
    exact .inl ⟨ns'', _, rfl, rfl, rfl⟩
  · cases h
    exact .inr ⟨rfl, rfl⟩

theorem UserNamespace.ext_maps {ns ns' : UserNamespace} (ho : ns.owner = ns'.owner)
    (hm : ∀ k, ns.mapFromParent k = ns'.mapFromParent k ∧ ns.mapToParent k = ns'.mapToParent k) :
    ns = ns' := by
  obtain ⟨hu1, hu2⟩ := hm .uid
  obtain ⟨hg1, hg2⟩ := hm .gid
  cases ns
  cases ns'
  simp_all [UserNamespace.mapFromParent, UserNamespace.mapToParent]

/-- A call that returns an error leaves the namespace as it was: a failed loop removes all of
maps that were empty before it. -/
theorem setIDMap_error_eq {k : IdKind} {c : Credentials} {i : ℕ} {ns ns' : UserNamespace}
    {ancestors : List UserNamespace} {entries : List IDMapEntry} {e : Errno}
    (hv : ViewInv k ns ancestors) (h : setIDMap k c i ns ancestors entries = .ok (ns', .error e)) :
    ns' = ns := by
  rcases setIDMap_cases h with ⟨rfl, -⟩ | ⟨parent, rest, rfl, hF, -, hloop⟩
  · rfl
  rcases hloop with ⟨ns'', e', htry, rfl, -⟩ | ⟨-, herr⟩
  · obtain ⟨howner, hother⟩ := trySetIDMap_frame htry
    have hT : ns.mapToParent k = [] := hv.1.empty hF
    refine UserNamespace.ext_maps (by simpa [UserNamespace.removeAll] using howner) fun k' => ?_
    by_cases hk : k' = k
    · subst hk
      simp [UserNamespace.removeAll, hF, hT]
    · simpa [UserNamespace.removeAll, hk] using hother k' hk
  · cases herr

namespace LoopResult

variable {k : IdKind} {parent ns ns' : UserNamespace} {entries : List IDMapEntry}

/-- From an empty map, the map to the parent holds what the entries map. -/
theorem lookup_to (r : LoopResult k parent ns ns' entries) (hT : ns.mapToParent k = [])
    (u p : UInt32) : lookup (ns'.mapToParent k) u = some p ↔ ∃ e ∈ entries, e.Maps u.toNat p := by
  rw [lookup, r.toParent, hT]
  simp

/-- From an empty map, the map from the parent holds what the entries map back. -/
theorem lookup_from (r : LoopResult k parent ns ns' entries) (hF : ns.mapFromParent k = [])
    (u p : UInt32) :
    lookup (ns'.mapFromParent k) p = some u ↔ ∃ e ∈ entries, e.swap.Maps p.toNat u := by
  rw [lookup, r.fromParent, hF]
  simp

/-- A loop that succeeded from empty maps leaves them keeping `MapsInv`. -/
theorem mapsInv (r : LoopResult k parent ns ns' entries) (hT : ns.mapToParent k = [])
    (hF : ns.mapFromParent k = []) (hne : entries ≠ []) :
    MapsInv (ns'.mapToParent k) (ns'.mapFromParent k) (parent.mapToParent k) := by
  have hmaps (u p : UInt32) :
      lookup (ns'.mapToParent k) u = some p ↔ lookup (ns'.mapFromParent k) p = some u := by
    rw [r.lookup_to hT, r.lookup_from hF]
    constructor
    · rintro ⟨e, he, hm⟩
      exact ⟨e, he, ((r.checked e he).1.maps_swap u p).mp hm⟩
    · rintro ⟨e, he, hm⟩
      exact ⟨e, he, ((r.checked e he).1.maps_swap u p).mpr hm⟩
  refine ⟨r.sorted_to, r.sorted_from, fun x p hx => ?_, fun y u hy => ?_, fun hF' => ?_, hmaps,
    fun u p hup => ?_⟩
  · rw [r.toParent, hT] at hx
    obtain ⟨e, he, h1, h2, -⟩ := hx.resolve_left (by simp)
    have := (r.checked e he).1.id
    omega
  · rw [r.fromParent, hF] at hy
    obtain ⟨e, he, h1, h2, -⟩ := hy.resolve_left (by simp)
    have := (r.checked e he).1.parent
    simp only [IDMapEntry.swap_firstID, IDMapEntry.swap_length] at h2
    omega
  · -- the first entry maps its first parent ID back, so the map from the parent is not empty
    obtain ⟨e, he⟩ := List.exists_mem_of_ne_nil entries hne
    have hback : denote idDen (ns'.mapFromParent k) e.firstParentID.toNat = some e.firstID := by
      rw [r.fromParent]
      refine .inr ⟨e, he, ?_⟩
      simp [IDMapEntry.Maps, UInt32.ofNat_toNat, (r.checked e he).1.pos]
    rw [hF'] at hback
    cases hback
  · obtain ⟨e, he, hm⟩ := (r.lookup_to hT u p).mp hup
    obtain ⟨h1, h2, -⟩ := ((r.checked e he).1.maps_swap u p).mp hm
    exact (r.checked e he).2 p h1 h2

end LoopResult

theorem ViewInv.sorted_to {k : IdKind} :
    ∀ {ns : UserNamespace} {ancestors : List UserNamespace}, ViewInv k ns ancestors →
      Sorted (ns.mapToParent k)
  | _, [], hv => by
    rw [show _ = _ from hv, mapToParent_root]
    exact rootMap_sorted
  | _, _ :: _, hv => hv.1.sorted_to

/-- A call that returns keeps `ViewInv` of every kind for the namespace it wrote, and what the
namespace's map to its parent holds only grows. -/
theorem setIDMap_preserves {k : IdKind} {c : Credentials} {i : ℕ} {ns ns' : UserNamespace}
    {ancestors : List UserNamespace} {entries : List IDMapEntry} {err : Except Errno Unit}
    (hv : ∀ k', ViewInv k' ns ancestors) (h : setIDMap k c i ns ancestors entries = .ok (ns', err))
    (k' : IdKind) :
    ViewInv k' ns' ancestors ∧
      ∀ u p, lookup (ns.mapToParent k') u = some p → lookup (ns'.mapToParent k') u = some p := by
  rcases err with e | _
  · rw [setIDMap_error_eq (hv k) h]
    exact ⟨hv k', fun _ _ => id⟩
  rcases setIDMap_cases h with ⟨-, hne⟩ | ⟨parent, rest, rfl, hF, hE, hloop⟩
  · exact absurd rfl hne
  obtain ⟨htry, -⟩ := hloop.resolve_left (by rintro ⟨_, _, _, _, h⟩; cases h)
  have hT : ns.mapToParent k = [] := (hv k).1.empty hF
  have r := trySetIDMap_ok (hv k).2.sorted_to (hv k).1.sorted_to (hv k).1.sorted_from htry
  by_cases hk : k' = k
  · subst hk
    refine ⟨⟨r.mapsInv hT hF hE, (hv k').2⟩, fun u p hup => ?_⟩
    rw [hT] at hup
    simp [lookup] at hup
  · obtain ⟨hF', hT'⟩ := r.other k' hk
    refine ⟨?_, fun u p hup => by rwa [hT']⟩
    rw [ViewInv, hF', hT']
    exact hv k'

/-- Every namespace of the chain keeps `ViewInv k` with its ancestors. -/
def ChainInv (k : IdKind) : List UserNamespace → Prop
  | [] => False
  | ns :: rest => ViewInv k ns rest

theorem ChainInv.drop {k : IdKind} :
    ∀ {chain : List UserNamespace} {i : ℕ} {ns : UserNamespace} {ancestors : List UserNamespace},
      ChainInv k chain → chain.drop i = ns :: ancestors → ViewInv k ns ancestors
  | [], _, _, _, h, _ => h.elim
  | _ :: _, 0, _, _, h, hd => by
    obtain ⟨rfl, rfl⟩ := List.cons_eq_cons.mp hd
    exact h
  | [_], _ + 1, _, _, _, hd => by simp at hd
  | _ :: p :: rest, i + 1, _, _, h, hd => by
    have hp : ChainInv k (p :: rest) := h.2
    exact ChainInv.drop hp (by simpa using hd)

/-- Writing the namespace at `i` keeps `ChainInv` when the namespace keeps `ViewInv` and its
map to the parent only grows, so that its child stays covered. -/
theorem ChainInv.set {k : IdKind} {ns ns' : UserNamespace} {ancestors : List UserNamespace}
    (hv' : ViewInv k ns' ancestors)
    (hmono : ∀ u p, lookup (ns.mapToParent k) u = some p → lookup (ns'.mapToParent k) u = some p) :
    ∀ {chain : List UserNamespace} {i : ℕ}, ChainInv k chain → chain.drop i = ns :: ancestors →
      ChainInv k (chain.set i ns')
  | [], _, h, _ => h.elim
  | _ :: _, 0, _, hd => by
    obtain ⟨rfl, rfl⟩ := List.cons_eq_cons.mp hd
    exact hv'
  | [_], _ + 1, _, hd => by simp at hd
  | _ :: _ :: _, 1, h, hd => by
    obtain ⟨rfl, rfl⟩ := List.cons_eq_cons.mp (by simpa using hd)
    exact ⟨h.1.mono_parent hmono, hv'⟩
  | _ :: p :: rest, i + 2, h, hd => by
    have hp : ChainInv k (p :: rest) := h.2
    exact ⟨h.1, ChainInv.set hv' hmono (i := i + 1) hp (by simpa using hd)⟩

theorem newChild_mapToParent (owner : UInt32) (k : IdKind) :
    (newChild owner).mapToParent k = [] := by
  cases k <;> rfl

theorem newChild_mapFromParent (owner : UInt32) (k : IdKind) :
    (newChild owner).mapFromParent k = [] := by
  cases k <;> rfl

/-- A new chain keeps `ChainInv`: its namespaces below the root have no maps yet. -/
theorem chainInv_initChain (k : IdKind) (owners : List UInt32) : ChainInv k (initChain owners) := by
  induction owners with
  | nil => rfl
  | cons o os ih =>
    rw [initChain, List.map_cons, List.cons_append, ← initChain]
    cases h : initChain os with
    | nil => simp [initChain] at h
    | cons ns rest =>
      rw [h] at ih
      refine ⟨?_, ih⟩
      rw [newChild_mapToParent, newChild_mapFromParent]
      exact mapsInv_nil _

/-- Every reachable chain keeps `ChainInv` for both kinds. -/
theorem Reachable.chainInv {chain : List UserNamespace} (hr : Reachable chain) (k : IdKind) :
    ChainInv k chain := by
  induction hr generalizing k with
  | init owners => exact chainInv_initChain k owners
  | step _ hstep ih =>
    obtain ⟨k', c, i, entries, ns, ns', ancestors, err, hd, h⟩ := hstep
    have hv (k'' : IdKind) : ViewInv k'' ns ancestors := (ih k'').drop hd
    obtain ⟨hv', hmono⟩ := setIDMap_preserves hv h k
    exact (ih k).set hv' hmono hd

/-! ### `UIDMap` and `GIDMap` -/

/-- A map keeping `MapsInv` holds no ID past `NoID`. -/
theorem MapsInv.stop_le {T F parentT : IdMapSet} (hm : MapsInv T F parentT)
    {seg : Range × UInt32} (h : seg ∈ T) : seg.1.stop ≤ noID.toNat := by
  have hlt := hm.sorted_to.2 seg h
  have hheld : denote idDen T (seg.1.stop - 1) = some (idDen seg.1 seg.2 (seg.1.stop - 1)) :=
    (denote_eq_some_iff idDen hm.sorted_to).mpr
      ⟨seg, h, (contains_iff _ _).mpr ⟨by omega, by omega⟩, rfl⟩
  have := hm.keys_to _ _ hheld
  omega

section GetIDMap

variable {m : IdMapSet} (hs : Sorted m) (hstop : ∀ seg ∈ m, seg.1.stop ≤ noID.toNat)
include hs hstop

/-- The entries `getIDMap` lists map as the map does. -/
theorem getIDMap_maps (x : ℕ) (p : UInt32) :
    (∃ e ∈ getIDMap m, e.Maps x p) ↔ denote idDen m x = some p := by
  rw [denote_eq_some_iff idDen hs, getIDMap]
  simp only [List.mem_map, exists_exists_and_eq_and]
  refine exists_congr fun seg => and_congr_right fun hseg => ?_
  have hlt := hs.2 seg hseg
  have hle := hstop seg hseg
  rw [noID_toNat] at hle
  have hstart : (UInt32.ofNat seg.1.start).toNat = seg.1.start :=
    UInt32.toNat_ofNat_of_lt' (by simp [UInt32.size]; omega)
  have hlen : (UInt32.ofNat seg.1.length).toNat = seg.1.length :=
    UInt32.toNat_ofNat_of_lt' (by simp [UInt32.size, Range.length]; omega)
  show (UInt32.ofNat seg.1.start).toNat ≤ x ∧
      x < (UInt32.ofNat seg.1.start).toNat + (UInt32.ofNat seg.1.length).toNat ∧
      p = seg.2 + (UInt32.ofNat x - UInt32.ofNat seg.1.start) ↔
    seg.1.contains x = true ∧ idDen seg.1 seg.2 x = p
  rw [hstart, hlen, contains_iff, Range.length, idDen, eq_comm (a := p)]
  constructor
  · rintro ⟨h1, h2, h3⟩
    exact ⟨⟨h1, by omega⟩, h3⟩
  · rintro ⟨⟨h1, h2⟩, h3⟩
    exact ⟨h1, by omega, h3⟩

/-- `getIDMap` lists nonempty entries in order, each ending at or before the next starts. -/
theorem getIDMap_sorted :
    (getIDMap m).Pairwise (fun e1 e2 => e1.firstID.toNat + e1.length.toNat ≤ e2.firstID.toNat) ∧
      ∀ e ∈ getIDMap m, 0 < e.length.toNat := by
  have htoNat (seg : Range × UInt32) (hseg : seg ∈ m) :
      (UInt32.ofNat seg.1.start).toNat = seg.1.start ∧
        (UInt32.ofNat seg.1.length).toNat = seg.1.length := by
    have := hstop seg hseg
    have := hs.2 seg hseg
    rw [noID_toNat] at *
    exact ⟨UInt32.toNat_ofNat_of_lt' (by simp [UInt32.size]; omega),
      UInt32.toNat_ofNat_of_lt' (by simp [UInt32.size, Range.length]; omega)⟩
  constructor
  · rw [getIDMap, List.pairwise_map]
    refine hs.1.imp_of_mem fun {a b} ha hb hab => ?_
    rw [(htoNat a ha).1, (htoNat a ha).2, (htoNat b hb).1, Range.length]
    have := hs.2 a ha
    omega
  · intro e he
    obtain ⟨seg, hseg, rfl⟩ := List.mem_map.mp he
    rw [(htoNat seg hseg).2, Range.length]
    have := hs.2 seg hseg
    omega

/-- In a coalesced map, no two entries `getIDMap` lists next to each other are contiguous in
both ID spaces. -/
theorem getIDMap_coalesced (hc : Coalesced m) :
    (getIDMap m).IsChain fun e1 e2 =>
      ¬(e1.firstID + e1.length = e2.firstID ∧ e1.firstParentID + e1.length = e2.firstParentID) := by
  rw [getIDMap, List.isChain_map]
  refine hc.imp_of_mem_imp fun a b ha hb hab => ?_
  rintro ⟨hid, hpar⟩
  apply hab
  refine ⟨?_, hpar⟩
  -- the sum of `start` and `length` is `stop`, and no key reaches `2 ^ 32`
  have hla := hs.2 a ha
  have hsa := hstop a ha
  have hsb := hstop b hb
  have hlb := hs.2 b hb
  rw [noID_toNat] at hsa hsb
  rw [← UInt32.ofNat_add, Range.length, Nat.add_sub_cancel' hla.le] at hid
  have := congrArg UInt32.toNat hid
  rwa [UInt32.toNat_ofNat_of_lt' (by simp [UInt32.size]; omega),
    UInt32.toNat_ofNat_of_lt' (by simp [UInt32.size]; omega)] at this

end GetIDMap

/-! ### The calls of a chain -/

/-- A call panics only on the root, through its nil parent, or in the loop's segment set. -/
theorem setIDMap_error_cases {k : IdKind} {c : Credentials} {i : ℕ} {ns : UserNamespace}
    {ancestors : List UserNamespace} {entries : List IDMapEntry} {p : Panic}
    (h : setIDMap k c i ns ancestors entries = .error p) :
    (ancestors = [] ∧ ns.mapFromParent k = []) ∨
      ∃ parent rest q, ancestors = parent :: rest ∧ trySetIDMap k parent ns entries = .error q := by
  unfold setIDMap at h
  split_ifs at h with hF
  rcases ancestors with _ | ⟨parent, rest⟩
  · exact .inl ⟨rfl, not_not.mp hF⟩
  dsimp only at h
  split_ifs at h
  generalize htry : trySetIDMap k parent ns entries = r at h
  rcases r with q | ⟨ns'', _ | _⟩ <;> dsimp only at h
  · exact .inr ⟨parent, rest, q, rfl, htry⟩
  · cases h
  · cases h

/-- On a chain keeping `ViewInv`, every call returns: the root's maps are never empty, and the
loop never panics. -/
theorem setIDMap_returns {k : IdKind} {ns : UserNamespace} {ancestors : List UserNamespace}
    (hv : ViewInv k ns ancestors) (c : Credentials) (i : ℕ) (entries : List IDMapEntry) :
    ∃ r, setIDMap k c i ns ancestors entries = .ok r := by
  cases h : setIDMap k c i ns ancestors entries with
  | ok r => exact ⟨r, rfl⟩
  | error p =>
    exfalso
    rcases setIDMap_error_cases h with ⟨rfl, hF⟩ | ⟨parent, rest, q, -, htry⟩
    · rw [show ns = newRootUserNamespace from hv, mapFromParent_root] at hF
      cases hF
    · exact trySetIDMap_ne_error q htry

/-- A successful call ran the loop, from the empty maps of a namespace below the root, over
entries it had. -/
theorem setIDMap_success {k : IdKind} {c : Credentials} {i : ℕ} {ns ns' : UserNamespace}
    {ancestors : List UserNamespace} {entries : List IDMapEntry} (hv : ViewInv k ns ancestors)
    (h : setIDMap k c i ns ancestors entries = .ok (ns', .ok ())) :
    ∃ parent rest, ancestors = parent :: rest ∧ ns.mapToParent k = [] ∧
      ns.mapFromParent k = [] ∧ entries ≠ [] ∧ LoopResult k parent ns ns' entries := by
  rcases setIDMap_cases h with ⟨-, hne⟩ | ⟨parent, rest, rfl, hF, hE, hloop⟩
  · exact absurd rfl hne
  obtain ⟨htry, -⟩ := hloop.resolve_left (by rintro ⟨_, _, _, _, h⟩; cases h)
  exact ⟨parent, rest, rfl, hv.1.empty hF, hF, hE,
    trySetIDMap_ok hv.2.sorted_to hv.1.sorted_to hv.1.sorted_from htry⟩

theorem maps_iff {e : IDMapEntry} {u : UInt32} :
    (∃ p, e.Maps u.toNat p) ↔ e.firstID.toNat ≤ u.toNat ∧ u.toNat < e.firstID.toNat + e.length.toNat := by
  simp [IDMapEntry.Maps]

/-- After a successful call, the namespace translates exactly the IDs of the entries, each
through the parent ID its entry gives it. -/
theorem setIDMap_translates {k : IdKind} {c : Credentials} {i : ℕ} {ns ns' : UserNamespace}
    {ancestors : List UserNamespace} {entries : List IDMapEntry} (hv : ViewInv k ns ancestors)
    (h : setIDMap k c i ns ancestors entries = .ok (ns', .ok ())) :
    ∃ parent rest, ancestors = parent :: rest ∧
      (∀ u, mapToKID k ns' ancestors u ≠ noID ↔
        ∃ e ∈ entries, e.firstID.toNat ≤ u.toNat ∧ u.toNat < e.firstID.toNat + e.length.toNat) ∧
      ∀ e ∈ entries, ∀ u, e.firstID.toNat ≤ u.toNat → u.toNat < e.firstID.toNat + e.length.toNat →
        mapToKID k ns' ancestors u = mapToKID k parent rest (e.firstParentID + (u - e.firstID)) ∧
        mapToKID k ns' ancestors u ≠ noID := by
  obtain ⟨parent, rest, rfl, hT, hF, hne, r⟩ := setIDMap_success hv h
  have hv' : ViewInv k ns' (parent :: rest) := ⟨r.mapsInv hT hF hne, hv.2⟩
  have hmapped (u : UInt32) : mapToKID k ns' (parent :: rest) u ≠ noID ↔
      ∃ e ∈ entries, e.firstID.toNat ≤ u.toNat ∧ u.toNat < e.firstID.toNat + e.length.toNat := by
    rw [mapToKID_ne_noID_iff hv' u, Mapped, Option.isSome_iff_exists]
    simp only [r.lookup_to hT, ← maps_iff]
    exact ⟨fun ⟨p, e, he, hm⟩ => ⟨e, he, p, hm⟩, fun ⟨e, he, p, hm⟩ => ⟨p, e, he, hm⟩⟩
  refine ⟨parent, rest, rfl, hmapped, fun e he u h1 h2 => ⟨?_, (hmapped u).mpr ⟨e, he, h1, h2⟩⟩⟩
  have hl : lookup (ns'.mapToParent k) u = some (e.firstParentID + (u - e.firstID)) :=
    (r.lookup_to hT u _).mpr ⟨e, he, h1, h2, by rw [UInt32.ofNat_toNat]⟩
  exact mapToKID_of_lookup hv' hl

/-- After a successful call, `getIDMap` of the namespace's map lists sorted, nonempty entries
that map as the call's entries do, no two neighbours contiguous in both ID spaces. -/
theorem setIDMap_getIDMap {k : IdKind} {c : Credentials} {i : ℕ} {ns ns' : UserNamespace}
    {ancestors : List UserNamespace} {entries : List IDMapEntry} (hv : ViewInv k ns ancestors)
    (h : setIDMap k c i ns ancestors entries = .ok (ns', .ok ())) :
    (getIDMap (ns'.mapToParent k)).Pairwise
        (fun e1 e2 => e1.firstID.toNat + e1.length.toNat ≤ e2.firstID.toNat) ∧
      (∀ e ∈ getIDMap (ns'.mapToParent k), 0 < e.length.toNat) ∧
      (∀ x p, (∃ e ∈ getIDMap (ns'.mapToParent k), e.Maps x p) ↔ ∃ e ∈ entries, e.Maps x p) ∧
      (getIDMap (ns'.mapToParent k)).IsChain fun e1 e2 =>
        ¬(e1.firstID + e1.length = e2.firstID ∧
          e1.firstParentID + e1.length = e2.firstParentID) := by
  obtain ⟨parent, rest, rfl, hT, hF, hne, r⟩ := setIDMap_success hv h
  have hm := r.mapsInv hT hF hne
  have hstop : ∀ seg ∈ ns'.mapToParent k, seg.1.stop ≤ noID.toNat := fun _ h => hm.stop_le h
  refine ⟨(getIDMap_sorted hm.sorted_to hstop).1, (getIDMap_sorted hm.sorted_to hstop).2,
    fun x p => ?_, getIDMap_coalesced hm.sorted_to hstop (r.coalesced (by rw [hT]; exact .nil))⟩
  rw [getIDMap_maps hm.sorted_to hstop, r.toParent, hT]
  simp

/-- What the ID maps of a chain of namespaces satisfy, for user and group IDs alike: every call
returns; a call that fails leaves its namespace as it was; after a successful call the
namespace translates the IDs of the entries, through their parent IDs, and lists them back,
merged; and in every namespace `MapFromKUID` and `MapToKUID` undo each other. -/
structure IdMapsCorrect (chain : List UserNamespace) : Prop where
  returns : ∀ (k : IdKind) (c : Credentials) (i : ℕ) (entries : List IDMapEntry)
    (ns : UserNamespace) (ancestors : List UserNamespace), chain.drop i = ns :: ancestors →
    ∃ r, setIDMap k c i ns ancestors entries = .ok r
  error_unchanged : ∀ (k : IdKind) (c : Credentials) (i : ℕ) (entries : List IDMapEntry)
    (ns : UserNamespace) (ancestors : List UserNamespace) (ns' : UserNamespace) (e : Errno),
    chain.drop i = ns :: ancestors → setIDMap k c i ns ancestors entries = .ok (ns', .error e) →
    ns' = ns
  translates : ∀ (k : IdKind) (c : Credentials) (i : ℕ) (entries : List IDMapEntry)
    (ns : UserNamespace) (ancestors : List UserNamespace) (ns' : UserNamespace),
    chain.drop i = ns :: ancestors → setIDMap k c i ns ancestors entries = .ok (ns', .ok ()) →
    ∃ parent rest, ancestors = parent :: rest ∧
      (∀ u, mapToKID k ns' ancestors u ≠ noID ↔
        ∃ e ∈ entries, e.firstID.toNat ≤ u.toNat ∧ u.toNat < e.firstID.toNat + e.length.toNat) ∧
      ∀ e ∈ entries, ∀ u, e.firstID.toNat ≤ u.toNat →
        u.toNat < e.firstID.toNat + e.length.toNat →
        mapToKID k ns' ancestors u = mapToKID k parent rest (e.firstParentID + (u - e.firstID)) ∧
        mapToKID k ns' ancestors u ≠ noID
  idMap : ∀ (k : IdKind) (c : Credentials) (i : ℕ) (entries : List IDMapEntry)
    (ns : UserNamespace) (ancestors : List UserNamespace) (ns' : UserNamespace),
    chain.drop i = ns :: ancestors → setIDMap k c i ns ancestors entries = .ok (ns', .ok ()) →
    (getIDMap (ns'.mapToParent k)).Pairwise
        (fun e1 e2 => e1.firstID.toNat + e1.length.toNat ≤ e2.firstID.toNat) ∧
      (∀ e ∈ getIDMap (ns'.mapToParent k), 0 < e.length.toNat) ∧
      (∀ x p, (∃ e ∈ getIDMap (ns'.mapToParent k), e.Maps x p) ↔ ∃ e ∈ entries, e.Maps x p) ∧
      (getIDMap (ns'.mapToParent k)).IsChain fun e1 e2 =>
        ¬(e1.firstID + e1.length = e2.firstID ∧
          e1.firstParentID + e1.length = e2.firstParentID)
  inverse : ∀ (k : IdKind) (i : ℕ) (ns : UserNamespace) (ancestors : List UserNamespace),
    chain.drop i = ns :: ancestors →
    (∀ u, mapToKID k ns ancestors u ≠ noID →
      mapFromKID k ns ancestors (mapToKID k ns ancestors u) = u) ∧
    ∀ kid, mapFromKID k ns ancestors kid ≠ noID →
      mapToKID k ns ancestors (mapFromKID k ns ancestors kid) = kid

theorem idMaps_correct {chain : List UserNamespace} (hr : Reachable chain) :
    IdMapsCorrect chain := by
  have hv (k : IdKind) {i : ℕ} {ns : UserNamespace} {ancestors : List UserNamespace}
      (hd : chain.drop i = ns :: ancestors) : ViewInv k ns ancestors :=
    (hr.chainInv k).drop hd
  refine ⟨fun k c i entries ns ancestors hd => setIDMap_returns (hv k hd) c i entries,
    fun k c i entries ns ancestors ns' e hd h => setIDMap_error_eq (hv k hd) h,
    fun k c i entries ns ancestors ns' hd h => setIDMap_translates (hv k hd) h,
    fun k c i entries ns ancestors ns' hd h => setIDMap_getIDMap (hv k hd) h,
    fun k i ns ancestors hd => ⟨mapFromKID_mapToKID (hv k hd), mapToKID_mapFromKID (hv k hd)⟩⟩

theorem idMaps_correct_newChain :
    Reachable (initChain [1000, 1000]) ∧ IdMapsCorrect (initChain [1000, 1000]) :=
  ⟨.init _, idMaps_correct (.init _)⟩

end ContainerFS.Auth
