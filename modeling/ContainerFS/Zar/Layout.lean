import Mathlib.Data.List.Chain
import ContainerFS.Zar.Writer

/-!
Where `IncludeFile` puts each file in the image. A file's entry spans exactly
its contents. Without page alignment the next file starts where the last one
ends; with it every file starts on a page, the first page boundary at or after
the last one's end. The entries are ordered, do not overlap, and all lie below
the offset that `WriteHeader` records in the trailer.
-/

namespace ContainerFS.Zar

open ContainerFS.Varint

/-- Where `Count` stands after a file that ends at `e`: `e`, or with page
alignment `e` rounded up to a page. -/
def nextBegin (pageAlign : Bool) (e : ℤ) : ℤ :=
  if pageAlign then (e + 4095) / 4096 * 4096 else e

namespace ZarManager

/-- `IncludeFile` on each file in turn. -/
def includeAll (z : ZarManager) : List (String × List UInt8 × ℤ) → ZarManager
  | [] => z
  | (name, data, modTime) :: files => (z.includeFile name data modTime).includeAll files

/-- The layout of the entries written so far: each within the bytes counted,
in order and apart, each starting where the last one leaves `Count`, the first
at 0, and on pages when they are asked for. -/
structure Layout (z : ZarManager) : Prop where
  within : ∀ md ∈ z.metadata, md.offsetBegin ≤ md.offsetEnd ∧ md.offsetEnd ≤ z.writer.count
  ordered : z.metadata.Pairwise fun a b => a.offsetEnd ≤ b.offsetBegin
  first : ∀ md ∈ z.metadata.head?, md.offsetBegin = 0
  chain : z.metadata.IsChain fun a b => b.offsetBegin = nextBegin z.pageAlign a.offsetEnd
  count : z.writer.count =
    (z.metadata.getLast?.map fun md => nextBegin z.pageAlign md.offsetEnd).getD 0
  aligned : z.pageAlign = true → 4096 ∣ z.writer.count ∧ ∀ md ∈ z.metadata, 4096 ∣ md.offsetBegin

theorem layout_fresh (pageAlign : Bool) : Layout ⟨pageAlign, ⟨[], 0⟩, []⟩ where
  within := by simp
  ordered := List.Pairwise.nil
  first := by simp
  chain := List.IsChain.nil
  count := rfl
  aligned := by simp

/-- `Write` leaves `Count` where the next file starts after this one: the
padding rounds a page-aligned `Count` up to the next page. -/
theorem count_write (c : ℤ) (n : ℕ) (pageAlign : Bool) (hc : pageAlign = true → 4096 ∣ c) :
    c + ((n + padding pageAlign n : ℕ) : ℤ) = nextBegin pageAlign (c + n) := by
  cases pageAlign with
  | false => simp [padding, nextBegin]
  | true =>
    have hdvd := hc rfl
    simp only [padding, nextBegin, pageBoundary, if_true]
    push_cast
    omega

/-- One `IncludeFile` keeps the layout: the new entry starts at `Count` and
spans the contents, and `Count` moves past its padding. -/
theorem Layout.includeFile {z : ZarManager} (h : z.Layout) (name : String) (data : List UInt8)
    (modTime : ℤ) : (z.includeFile name data modTime).Layout := by
  -- the new entry, and where `Count` goes
  have hcount := count_write z.writer.count data.length z.pageAlign fun hp => (h.aligned hp).1
  have hnonneg : ∀ md ∈ z.metadata, md.offsetEnd ≤ z.writer.count := fun md hmd =>
    (h.within md hmd).2
  simp only [ZarManager.includeFile, FileWriter.write]
  constructor
  · -- every entry lies within the bytes counted
    intro md hmd
    rw [List.mem_append, List.mem_singleton] at hmd
    rcases hmd with hold | rfl
    · have := h.within md hold
      dsimp only
      omega
    · dsimp only
      omega
  · -- the new entry comes after all the others
    refine List.pairwise_append.mpr ⟨h.ordered, List.pairwise_singleton _ _, ?_⟩
    intro a ha b hb
    rw [List.mem_singleton] at hb
    subst hb
    exact hnonneg a ha
  · -- the first entry still starts at 0
    intro md hmd
    cases hm : z.metadata with
    | nil =>
      have h0 : z.writer.count = 0 := by rw [h.count, hm]; rfl
      rw [hm] at hmd
      simp only [List.nil_append, List.head?_cons, Option.mem_def, Option.some.injEq] at hmd
      rw [← hmd, h0]
    | cons a as =>
      rw [hm] at hmd
      exact h.first md (by simpa [hm] using hmd)
  · -- the new entry starts where the last one left `Count`
    refine List.isChain_append.mpr ⟨h.chain, List.IsChain.singleton _, ?_⟩
    intro a ha b hb
    rw [List.head?_cons, Option.mem_def, Option.some.injEq] at hb
    subst hb
    rw [h.count, Option.mem_def.mp ha]
    rfl
  · -- `Count` stands after the new entry
    simp only [List.getLast?_append, List.getLast?_singleton, Option.some_or, Option.map_some,
      Option.getD_some]
    exact hcount
  · -- with page alignment, `Count` and the new entry are on pages
    intro hp
    have hdvd := (h.aligned hp).1
    refine ⟨?_, ?_⟩
    · rw [hcount, hp, nextBegin, if_pos rfl]
      exact Int.dvd_mul_left _ _
    · intro md hmd
      rw [List.mem_append, List.mem_singleton] at hmd
      rcases hmd with hold | rfl
      · exact (h.aligned hp).2 md hold
      · exact hdvd

/-- A run of `IncludeFile` calls keeps the layout. -/
theorem Layout.includeAll {z : ZarManager} (h : z.Layout) (files : List (String × List UInt8 × ℤ)) :
    (z.includeAll files).Layout := by
  induction files generalizing z with
  | nil => exact h
  | cons f files ih =>
    obtain ⟨name, data, modTime⟩ := f
    exact ih (h.includeFile name data modTime)

theorem pageAlign_includeAll (z : ZarManager) (files : List (String × List UInt8 × ℤ)) :
    (z.includeAll files).pageAlign = z.pageAlign := by
  induction files generalizing z with
  | nil => rfl
  | cons f files ih =>
    obtain ⟨name, data, modTime⟩ := f
    exact ih _

/-- Each call adds one entry that spans its contents. -/
theorem spans_includeAll (z : ZarManager) (files : List (String × List UInt8 × ℤ)) :
    (z.includeAll files).metadata.map (fun md => md.offsetEnd - md.offsetBegin) =
      z.metadata.map (fun md => md.offsetEnd - md.offsetBegin) ++
        files.map fun f => (f.2.1.length : ℤ) := by
  induction files generalizing z with
  | nil => simp [includeAll]
  | cons f files ih =>
    obtain ⟨name, data, modTime⟩ := f
    rw [includeAll, ih, includeFile_metadata]
    simp

end ZarManager

/-- The layout of the files of an image. On a fresh writer, after `IncludeFile`
on each file in turn: each entry spans exactly its file's contents; the first
starts at 0; each next one starts at the end of the last, or with page
alignment at that end rounded up to a page, so that every file starts on a
page; the entries are in order and apart; and all lie below the offset that
`WriteHeader` records in the ten-byte trailer. -/
theorem includeAll_layout (pageAlign : Bool) (files : List (String × List UInt8 × ℤ))
    (encode : List FileMetadata → List UInt8) :
    let z := (⟨pageAlign, ⟨[], 0⟩, []⟩ : ZarManager).includeAll files
    z.metadata.map (fun md => md.offsetEnd - md.offsetBegin) =
        files.map (fun f => (f.2.1.length : ℤ)) ∧
      (∀ md ∈ z.metadata.head?, md.offsetBegin = 0) ∧
      z.metadata.IsChain (fun a b => b.offsetBegin =
        if pageAlign then (a.offsetEnd + 4095) / 4096 * 4096 else a.offsetEnd) ∧
      (pageAlign = true → ∀ md ∈ z.metadata, 4096 ∣ md.offsetBegin) ∧
      (∀ md ∈ z.metadata, md.offsetBegin ≤ md.offsetEnd) ∧
      z.metadata.Pairwise (fun a b => a.offsetEnd ≤ b.offsetBegin) ∧
      (z.writeHeader encode).out = z.writer.out ++ encode z.metadata ++
        (putVarint z.writer.count ++ List.replicate maxVarintLen64 0).take maxVarintLen64 ∧
      ∀ md ∈ z.metadata, md.offsetEnd ≤ z.writer.count := by
  intro z
  have h : z.Layout := (ZarManager.layout_fresh pageAlign).includeAll files
  have hp : z.pageAlign = pageAlign := ZarManager.pageAlign_includeAll _ files
  have hspans := ZarManager.spans_includeAll ⟨pageAlign, ⟨[], 0⟩, []⟩ files
  rw [List.map_nil, List.nil_append] at hspans
  refine ⟨hspans, h.first, ?_,
    fun hpa => (h.aligned (hp.trans hpa)).2, fun md hmd => (h.within md hmd).1, h.ordered, ?_,
    fun md hmd => (h.within md hmd).2⟩
  · have hchain := h.chain
    rw [hp] at hchain
    exact hchain
  · simp [ZarManager.writeHeader, FileWriter.writeInt64, FileWriter.write, padding]

end ContainerFS.Zar
