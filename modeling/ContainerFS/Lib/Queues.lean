import Mathlib.Data.List.Rotate
import Mathlib.Logic.Function.Basic

/-!
FIFO queues kept in one list. Several queues share a list, each element
belonging to the queue its key names; a queue is read off the list by
filtering. A wake-up takes out the first `n` elements of a queue that satisfy
a predicate (`pickFirst`); a scan over the shared list finds them with a cursor
that stays where the removed element was (`findFrom`), as a scan over a linked
list that removes the node it stands on does.

`QueueMap` is the abstract side: a map from names to FIFO queues, with the
operations `wake` and `requeue` that a wait queue is meant to have.
-/

namespace ContainerFS.Queues

section Pick

variable {α : Type} (p : α → Bool)

/-- The first `n` elements of `l` that satisfy `p`, taken out of `l`: the
elements left, in their order, and those taken, in theirs. -/
def pickFirst : ℕ → List α → List α × List α
  | 0, l => (l, [])
  | _ + 1, [] => ([], [])
  | n + 1, a :: l =>
    if p a then ((pickFirst n l).1, a :: (pickFirst n l).2)
    else (a :: (pickFirst (n + 1) l).1, (pickFirst (n + 1) l).2)

@[simp]
theorem pickFirst_zero (l : List α) : pickFirst p 0 l = (l, []) := by
  cases l <;> rfl

@[simp]
theorem pickFirst_nil (n : ℕ) : pickFirst p n ([] : List α) = ([], []) := by
  cases n <;> rfl

theorem pickFirst_cons_of_pos {a : α} (h : p a = true) (n : ℕ) (l : List α) :
    pickFirst p (n + 1) (a :: l) = ((pickFirst p n l).1, a :: (pickFirst p n l).2) := by
  simp [pickFirst, h]

theorem pickFirst_cons_of_neg {a : α} (h : p a = false) (n : ℕ) (l : List α) :
    pickFirst p n (a :: l) = (a :: (pickFirst p n l).1, (pickFirst p n l).2) := by
  cases n with
  | zero => simp
  | succ n => simp [pickFirst, h]

/-- What is taken is the first `n` elements that satisfy `p`. -/
theorem pickFirst_snd (n : ℕ) (l : List α) : (pickFirst p n l).2 = (l.filter p).take n := by
  induction l generalizing n with
  | nil => simp
  | cons a l ih =>
    cases n with
    | zero => simp
    | succ n =>
      cases ha : p a
      · rw [pickFirst_cons_of_neg p ha, ih, List.filter_cons_of_neg (by simp [ha])]
      · rw [pickFirst_cons_of_pos p ha, ih, List.filter_cons_of_pos ha, List.take_succ_cons]

/-- At most `n` elements are taken, fewer only when fewer satisfy `p`. -/
theorem length_pickFirst_snd (n : ℕ) (l : List α) :
    (pickFirst p n l).2.length = min n (l.countP p) := by
  rw [pickFirst_snd, List.length_take, List.countP_eq_length_filter, Nat.min_comm]

/-- Elements that do not satisfy `p` in front of a list are passed over. -/
theorem pickFirst_append_of_forall {mid : List α} (hmid : ∀ x ∈ mid, p x = false) (n : ℕ)
    (l : List α) :
    pickFirst p n (mid ++ l) = (mid ++ (pickFirst p n l).1, (pickFirst p n l).2) := by
  induction mid with
  | nil => rfl
  | cons a mid ih =>
    have ha : p a = false := hmid a (by simp)
    rw [List.cons_append, pickFirst_cons_of_neg p ha,
      ih (fun x hx => hmid x (List.mem_cons_of_mem a hx))]
    rfl

/-- Where nothing satisfies `p`, nothing is taken. -/
theorem pickFirst_of_forall {l : List α} (hl : ∀ x ∈ l, p x = false) (n : ℕ) :
    pickFirst p n l = (l, []) := by
  simpa using pickFirst_append_of_forall p hl n []

variable {p}

/-- The queue `q` read off what is left, when the taken elements are those of
`q` that satisfy `r`: the same as taking from `q` alone. -/
theorem filter_pickFirst_and (q r : α → Bool) (n : ℕ) (l : List α) :
    (pickFirst (fun a => q a && r a) n l).1.filter q = (pickFirst r n (l.filter q)).1 ∧
      (pickFirst (fun a => q a && r a) n l).2 = (pickFirst r n (l.filter q)).2 := by
  induction l generalizing n with
  | nil => simp
  | cons a l ih =>
    cases n with
    | zero => simp
    | succ n =>
      cases hq : q a
      · -- an element of another queue stays where it is and is filtered out
        rw [pickFirst_cons_of_neg _ (by simp [hq])]
        simp only [List.filter_cons, hq]
        exact ih (n + 1)
      · cases hr : r a
        · rw [pickFirst_cons_of_neg _ (by simp [hr])]
          simp only [List.filter_cons, hq, if_true, pickFirst_cons_of_neg r hr]
          exact ⟨congrArg (a :: ·) (ih (n + 1)).1, (ih (n + 1)).2⟩
        · rw [pickFirst_cons_of_pos _ (by simp [hq, hr])]
          simp only [List.filter_cons, hq, if_true, pickFirst_cons_of_pos r hr]
          exact ⟨(ih n).1, congrArg (a :: ·) (ih n).2⟩

/-- Another queue, none of whose elements satisfy `p`, is left as it was. -/
theorem filter_pickFirst_of_disjoint {q : α → Bool} (h : ∀ a, p a = true → q a = false)
    (n : ℕ) (l : List α) : (pickFirst p n l).1.filter q = l.filter q := by
  induction l generalizing n with
  | nil => simp
  | cons a l ih =>
    cases n with
    | zero => simp
    | succ n =>
      cases ha : p a
      · rw [pickFirst_cons_of_neg p ha]
        simp only [List.filter_cons, ih]
      · rw [pickFirst_cons_of_pos p ha, ih, List.filter_cons_of_neg (by simp [h a ha])]

/-- Taking every element that satisfies `p`, when all do, is `take` and `drop`. -/
theorem pickFirst_of_forall_pos {l : List α} (hl : ∀ x ∈ l, p x = true) (n : ℕ) :
    pickFirst p n l = (l.drop n, l.take n) := by
  induction l generalizing n with
  | nil => simp
  | cons a l ih =>
    cases n with
    | zero => simp
    | succ n =>
      rw [pickFirst_cons_of_pos p (hl a (by simp)),
        ih (fun x hx => hl x (List.mem_cons_of_mem a hx))]
      rfl

end Pick

section Find

variable {α : Type} (p : α → Bool)

/-- The first element of `l` that satisfies `p`, with its index in `l` plus `j`. -/
def findAt : ℕ → List α → Option (ℕ × α)
  | _, [] => none
  | j, a :: l => if p a then some (j, a) else findAt (j + 1) l

/-- The first element from index `i` on that satisfies `p`, with its index:
the next stop of a scan whose cursor is at `i`. -/
def findFrom (l : List α) (i : ℕ) : Option (ℕ × α) := findAt p i (l.drop i)

theorem findAt_append_cons {mid : List α} (hmid : ∀ x ∈ mid, p x = false) {a : α}
    (ha : p a = true) (j : ℕ) (l : List α) :
    findAt p j (mid ++ a :: l) = some (j + mid.length, a) := by
  induction mid generalizing j with
  | nil => simp [findAt, ha]
  | cons b mid ih =>
    have hb : p b = false := hmid b (by simp)
    rw [List.cons_append, findAt, if_neg (by simp [hb]),
      ih (fun x hx => hmid x (List.mem_cons_of_mem b hx))]
    simp only [List.length_cons]
    congr 2
    omega

theorem findAt_of_forall {l : List α} (hl : ∀ x ∈ l, p x = false) (j : ℕ) :
    findAt p j l = none := by
  induction l generalizing j with
  | nil => rfl
  | cons a l ih =>
    rw [findAt, if_neg (by simp [hl a (by simp)])]
    exact ih (fun x hx => hl x (List.mem_cons_of_mem a hx)) (j + 1)

/-- A list either has no element that satisfies `p`, or splits at its first. -/
theorem forall_or_split (l : List α) :
    (∀ x ∈ l, p x = false) ∨
      ∃ mid a suf, l = mid ++ a :: suf ∧ (∀ x ∈ mid, p x = false) ∧ p a = true := by
  induction l with
  | nil => exact .inl (by simp)
  | cons b l ih =>
    cases hb : p b
    · rcases ih with hall | ⟨mid, a, suf, rfl, hmid, ha⟩
      · exact .inl (List.forall_mem_cons.mpr ⟨hb, hall⟩)
      · exact .inr ⟨b :: mid, a, suf, rfl, List.forall_mem_cons.mpr ⟨hb, hmid⟩, ha⟩
    · exact .inr ⟨[], b, l, rfl, by simp, hb⟩

/-- The scan from the end of `pre` stops at the first element of `l` that
satisfies `p`. -/
theorem findFrom_append_cons (pre : List α) {mid : List α} (hmid : ∀ x ∈ mid, p x = false)
    {a : α} (ha : p a = true) (l : List α) :
    findFrom p (pre ++ mid ++ a :: l) pre.length = some (pre.length + mid.length, a) := by
  rw [findFrom, List.append_assoc, List.drop_left, findAt_append_cons p hmid ha]

theorem findFrom_of_forall (pre : List α) {l : List α} (hl : ∀ x ∈ l, p x = false) :
    findFrom p (pre ++ l) pre.length = none := by
  rw [findFrom, List.drop_left, findAt_of_forall p hl]

variable {p}

/-- The element at the cursor, taken out of its list. -/
theorem eraseIdx_at_cursor (pre mid : List α) (a : α) (suf : List α) :
    (pre ++ mid ++ a :: suf).eraseIdx (pre.length + mid.length) = pre ++ mid ++ suf := by
  rw [← List.length_append, List.eraseIdx_append_of_length_le (Nat.le_refl _)]
  simp

/-- The element at the cursor is the last one only when nothing follows it. -/
theorem eq_nil_of_cursor_last {pre mid suf : List α} {a : α}
    (h : pre.length + mid.length + 1 = (pre ++ mid ++ a :: suf).length) : suf = [] := by
  simp only [List.length_append, List.length_cons] at h
  exact List.eq_nil_of_length_eq_zero (by omega)

end Find

/-- A map from names to FIFO queues. -/
abbrev QueueMap (F α : Type) := F → List α

namespace QueueMap

variable {F α : Type} [DecidableEq F]

/-- Up to `n` elements of the queue `f` that satisfy `p` are woken, the first
ones; what is woken, in order, comes second. -/
def wake (Q : QueueMap F α) (f : F) (p : α → Bool) (n : ℕ) : QueueMap F α × List α :=
  (Function.update Q f (pickFirst p n (Q f)).1, (pickFirst p n (Q f)).2)

/-- The first `n` elements of the queue `f` move, in order and changed by `g`,
to the tail of the queue `f'`. -/
def requeue (Q : QueueMap F α) (f f' : F) (g : α → α) (n : ℕ) : QueueMap F α :=
  let Q' := Function.update Q f ((Q f).drop n)
  Function.update Q' f' (Q' f' ++ ((Q f).take n).map g)

end QueueMap

end ContainerFS.Queues
