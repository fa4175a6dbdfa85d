import Mathlib.Data.List.Basic
import Mathlib.Algebra.BigOperators.Group.List.Basic

/-!
The packet buffers of `pkg/tcpip/buffer`. A `View` is a slice of bytes and a
`VectorisedView` a list of views with a `size` field that the code keeps equal
to their total length. The bytes are a type parameter: nothing here looks at
them. `TrimFront` and `CapLength` walk the views one by one; their bytes are
`drop` and `take` of the whole (`bytes_trimFront` for the first), and they
keep `size` right (`Consistent`).
-/

namespace ContainerFS.Buffer

variable {α : Type}

/-- `View`: a slice of bytes. -/
abbrev View (α : Type) := List α

/-- `VectorisedView`: the views in order, and the Go field `size`. -/
structure VectorisedView (α : Type) where
  views : List (View α)
  size : ℕ
  deriving DecidableEq, Repr

namespace VectorisedView

/-- The bytes the views hold, in order. -/
def bytes (vv : VectorisedView α) : List α := vv.views.flatten

/-- `size` is the total length of the views, as `NewVectorisedView`'s callers
give it and every operation keeps it. -/
def Consistent (vv : VectorisedView α) : Prop := vv.size = vv.bytes.length

instance (vv : VectorisedView α) : Decidable vv.Consistent :=
  inferInstanceAs (Decidable (vv.size = vv.bytes.length))

/-- The zero value, `buffer.VectorisedView{}`. -/
def empty : VectorisedView α := ⟨[], 0⟩

/-- The loop of `TrimFront` over the views, with the size so far: a view
shorter than what is left to trim is removed whole (`RemoveFirst`), the next
one is cut. -/
def trimFrontViews : List (View α) → ℕ → ℕ → VectorisedView α
  | [], size, _ => ⟨[], size⟩
  | v :: vs, size, count =>
    if count = 0 then ⟨v :: vs, size⟩
    else if count < v.length then ⟨v.drop count :: vs, size - count⟩
    else trimFrontViews vs (size - v.length) (count - v.length)

/-- `TrimFront`: the first `count` bytes removed. -/
def trimFront (vv : VectorisedView α) (count : ℕ) : VectorisedView α :=
  trimFrontViews vv.views vv.size count

/-- The loop of `CapLength` over the views: the view that reaches `length`
is cut there and the views after it dropped. -/
def capViews : List (View α) → ℕ → List (View α)
  | [], _ => []
  | v :: vs, length =>
    if length ≤ v.length then (if length = 0 then [] else [v.take length])
    else v :: capViews vs (length - v.length)

/-- `CapLength` of a length that is not negative: nothing changes when the
view is already shorter. -/
def capLength (vv : VectorisedView α) (length : ℕ) : VectorisedView α :=
  if vv.size < length then vv else ⟨capViews vv.views length, length⟩

/-- `First`: the first view, or `nil`. -/
def first (vv : VectorisedView α) : View α := vv.views.headD []

@[simp] theorem bytes_mk (views : List (View α)) (size : ℕ) :
    (⟨views, size⟩ : VectorisedView α).bytes = views.flatten := rfl

@[simp] theorem bytes_empty : (empty : VectorisedView α).bytes = [] := rfl

theorem bytes_trimFrontViews (views : List (View α)) (size count : ℕ) :
    (trimFrontViews views size count).bytes = views.flatten.drop count := by
  induction views generalizing size count with
  | nil => simp [trimFrontViews]
  | cons v vs ih =>
    simp only [trimFrontViews]
    split_ifs with h0 hlt
    · simp [h0]
    · simp [List.drop_append, Nat.sub_eq_zero_of_le (Nat.le_of_lt hlt)]
    · have hle : v.length ≤ count := by omega
      rw [ih, List.flatten_cons, List.drop_append, List.drop_eq_nil_of_le hle, List.nil_append]

theorem size_trimFrontViews (views : List (View α)) (count : ℕ) :
    (trimFrontViews views views.flatten.length count).size = views.flatten.length - count := by
  induction views generalizing count with
  | nil => simp [trimFrontViews]
  | cons v vs ih =>
    simp only [trimFrontViews, List.flatten_cons, List.length_append]
    split_ifs with h0 hlt
    · simp [h0]
    · rfl
    · rw [Nat.add_sub_cancel_left, ih]
      omega

@[simp] theorem bytes_trimFront (vv : VectorisedView α) (count : ℕ) :
    (vv.trimFront count).bytes = vv.bytes.drop count :=
  bytes_trimFrontViews vv.views vv.size count

theorem Consistent.trimFront {vv : VectorisedView α} (h : vv.Consistent) (count : ℕ) :
    (vv.trimFront count).Consistent := by
  obtain ⟨views, size⟩ := vv
  simp only [Consistent, bytes_mk] at h
  subst h
  simp only [Consistent, VectorisedView.trimFront, bytes_trimFrontViews, List.length_drop]
  exact size_trimFrontViews views count

theorem bytes_capViews (views : List (View α)) (length : ℕ) :
    (capViews views length).flatten = views.flatten.take length := by
  induction views generalizing length with
  | nil => simp [capViews]
  | cons v vs ih =>
    simp only [capViews, List.flatten_cons]
    split_ifs with hle h0
    · simp [h0]
    · simp [List.take_append, Nat.sub_eq_zero_of_le hle]
    · rw [List.flatten_cons, ih, List.take_append, List.take_of_length_le (l := v) (by omega)]

theorem Consistent.capLength {vv : VectorisedView α} (h : vv.Consistent) (length : ℕ) :
    (vv.capLength length).Consistent := by
  unfold VectorisedView.capLength
  split_ifs with hlt
  · exact h
  · show length = (capViews vv.views length).flatten.length
    rw [bytes_capViews, List.length_take]
    rw [Consistent, bytes] at h
    omega

end VectorisedView

end ContainerFS.Buffer
