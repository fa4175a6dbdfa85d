import Mathlib.Data.List.Nodup
import Mathlib.Logic.Function.Basic

/-!
Scatter and gather transfers over a list of vectors, as `readv`, `writev`,
`sendmsg` and `recvmsg` make them. A transfer moves a prefix of the vectors'
concatenation; its caller then consumes the vectors the transfer covered and
cuts the one it stopped inside. A vector is a list of cells: the bytes
themselves for a write, the places the bytes go to for a read. Consuming
drops exactly what was moved from the concatenation, and the bytes a read
stores land at the places of the vectors in order.
-/

namespace ContainerFS.Iovec

variable {α β : Type*}

/-- The consumption loop after a transfer of `left` cells: the vectors the
transfer covered are dropped and the one it stopped inside is cut. -/
def consume : ℕ → List (List α) → List (List α)
  | 0, vecs => vecs
  | _ + 1, [] => []
  | left + 1, v :: vs =>
    if v.length ≤ left + 1 then consume (left + 1 - v.length) vs else v.drop (left + 1) :: vs

/-- Consuming a transfer drops what it moved from the concatenation. -/
theorem flatten_consume (left : ℕ) (vecs : List (List α)) :
    (consume left vecs).flatten = vecs.flatten.drop left := by
  fun_induction consume left vecs with
  | case1 vecs => simp
  | case2 left => simp
  | case3 left v vs hle ih =>
    rw [ih, List.flatten_cons, List.drop_append, List.drop_eq_nil_of_le hle, List.nil_append]
  | case4 left v vs hlt =>
    have hlt : left + 1 < v.length := by omega
    rw [List.flatten_cons, List.flatten_cons, List.drop_append,
      Nat.sub_eq_zero_of_le (Nat.le_of_lt hlt), List.drop_zero]

/-- The cells that `consume` leaves: as many as were there, less the transfer. -/
theorem length_flatten_consume (left : ℕ) (vecs : List (List α)) :
    (consume left vecs).flatten.length = vecs.flatten.length - left := by
  rw [flatten_consume, List.length_drop]

/-- A buffer as vectors: one vector, or none when it is empty (a caller
appends only buffers that hold something). -/
def single (v : List α) : List (List α) := if v.isEmpty then [] else [v]

@[simp]
theorem flatten_single (v : List α) : (single v).flatten = v := by
  cases v <;> simp [single]

/-! ### Where a read's bytes land -/

variable [DecidableEq α]

/-- The values `bs` stored at the places `as`, one by one in order, over the
memory `mem`; the shorter list decides how many are stored. -/
def scatter : List α → List β → (α → β) → α → β
  | a :: as, b :: bs, mem => scatter as bs (Function.update mem a b)
  | _, _, mem => mem

@[simp]
theorem scatter_nil_left (bs : List β) (mem : α → β) : scatter [] bs mem = mem := rfl

@[simp]
theorem scatter_nil_right (as : List α) (mem : α → β) : scatter as ([] : List β) mem = mem := by
  cases as <;> rfl

/-- Storing in two goes: what the first values do not reach, the rest fill
from where they stopped. -/
theorem scatter_append (as : List α) (bs₁ bs₂ : List β) (mem : α → β) :
    scatter as (bs₁ ++ bs₂) mem = scatter (as.drop bs₁.length) bs₂ (scatter as bs₁ mem) := by
  induction as generalizing bs₁ mem with
  | nil => simp
  | cons a as ih =>
    cases bs₁ with
    | nil => simp
    | cons b bs₁ => exact ih bs₁ (Function.update mem a b)

/-- A place the values do not reach keeps what it held. -/
theorem scatter_of_not_mem {as : List α} {a : α} (ha : a ∉ as) (bs : List β) (mem : α → β) :
    scatter as bs mem a = mem a := by
  induction as generalizing bs mem with
  | nil => rfl
  | cons a' as ih =>
    have hne : a ≠ a' := fun h => ha (h ▸ List.mem_cons_self)
    have has : a ∉ as := fun h => ha (List.mem_cons_of_mem _ h)
    cases bs with
    | nil => rfl
    | cons b bs => rw [scatter, ih has, Function.update_of_ne hne]

/-- Distinct places read back the values stored at them. -/
theorem map_scatter {as : List α} (hnd : as.Nodup) {bs : List β} (hlen : as.length = bs.length)
    (mem : α → β) : as.map (scatter as bs mem) = bs := by
  induction as generalizing bs mem with
  | nil => simpa using hlen.symm
  | cons a as ih =>
    obtain ⟨ha, hnd⟩ := List.nodup_cons.mp hnd
    cases bs with
    | nil => simp at hlen
    | cons b bs =>
      have hlen : as.length = bs.length := by simpa using hlen
      rw [List.map_cons, scatter, scatter_of_not_mem ha, Function.update_self, ih hnd hlen]

end ContainerFS.Iovec
