import Mathlib
import ContainerFS.Lib.MachineInt

/-!
`tmutex.Mutex` (`pkg/tmutex/tmutex.go`), with `n` goroutines interleaving `Lock`, `TryLock`
and `Unlock`. The mutex is an `int32` `v` (1 free, 0 held, negative held with waiters) and a
channel of one slot that `Unlock` fills to wake a waiter. Each step of a goroutine is one
atomic operation of the source or one operation on the channel, so every interleaving of the
source is a sequence of `step`s.

The invariant `Inv` counts goroutines by where they are: at most one holds the mutex; `v` is 1
exactly when none does; `v` is at least minus one less the goroutines inside `Lock`'s loop;
and a goroutine blocked on the channel while the channel is empty has someone who will fill
it. The bound on `v` is where the number of goroutines enters: `Lock`'s first
`AddInt32(&m.v, -1)` cannot wrap with at most `2^31` goroutines (`step_inv`), and it does
with `2^32 + 1` of them, letting two goroutines hold the mutex (`two_holders`).
-/

namespace ContainerFS.Tmutex

open MachineInt

/-- Where a goroutine is in the mutex's code. -/
inductive Pc where
  /-- Outside the mutex's methods, not holding it. -/
  | idle
  /-- In `Lock`'s loop, before `atomic.LoadInt32(&m.v)`. -/
  | lockLoad
  /-- In `Lock`'s loop after loading `v >= 0`, before `atomic.SwapInt32(&m.v, -1)`. -/
  | lockSwap
  /-- In `Lock`'s loop, at `<-m.ch`. -/
  | lockWait
  /-- In `TryLock` after loading `v > 0`, before `atomic.CompareAndSwapInt32(&m.v, 1, 0)`. -/
  | tryCas
  /-- Holding the mutex. -/
  | holds
  /-- In `Unlock` after its swap saw waiters, before the `select` that sends on `m.ch`. -/
  | unlockWake
  deriving DecidableEq, Repr

namespace Pc

/-- Inside `Lock`'s loop. -/
def inLock : Pc → Bool
  | lockLoad | lockSwap | lockWait => true
  | _ => false

/-- About to take a step that cannot block: load or swap in `Lock`, or the send of
`Unlock`. -/
def active : Pc → Bool
  | lockLoad | lockSwap | unlockWake => true
  | _ => false

end Pc

/-- A mutex shared by `n` goroutines: `m.v`, whether the one-slot buffer of `m.ch` is full,
and where each goroutine is. -/
structure Mutex (n : ℕ) where
  v : Int32
  token : Bool
  pc : Fin n → Pc

variable {n : ℕ}

/-- `Init`: `v = 1`, an empty channel, and no goroutine in the mutex's code. -/
def init (n : ℕ) : Mutex n := ⟨1, false, fun _ => .idle⟩

/-- What a goroutine does: call `Lock`, `TryLock` or `Unlock`, or take the next step of the
call it is in. -/
inductive Op where
  | lock
  | tryLock
  | unlock
  | next
  deriving DecidableEq, Repr

/-- What a step tells its goroutine: the call goes on, or it returned holding the mutex
(`Lock`, or `TryLock` with `true`), or `TryLock` returned `false`, or `Unlock` returned. -/
inductive Outcome where
  | continues
  | acquired
  | tryLockFailed
  | released
  deriving DecidableEq, Repr

/-- Move goroutine `g` to `p`. -/
def Mutex.setPc (m : Mutex n) (g : Fin n) (p : Pc) : Mutex n :=
  { m with pc := Function.update m.pc g p }

@[simp] theorem Mutex.setPc_v (m : Mutex n) (g : Fin n) (p : Pc) : (m.setPc g p).v = m.v := rfl

@[simp] theorem Mutex.setPc_token (m : Mutex n) (g : Fin n) (p : Pc) :
    (m.setPc g p).token = m.token := rfl

@[simp] theorem Mutex.setPc_pc (m : Mutex n) (g : Fin n) (p : Pc) :
    (m.setPc g p).pc = Function.update m.pc g p := rfl

/-- One step of goroutine `g`; `none` where `g` cannot take it (a call it is not at, or the
receive on an empty channel). -/
def step (m : Mutex n) (g : Fin n) : Op → Option (Mutex n × Outcome)
  | .lock =>
    if m.pc g = .idle then
      -- `atomic.AddInt32(&m.v, -1) == 0`
      let v := m.v - 1
      if v = 0 then some ({ m with v := v }.setPc g .holds, .acquired)
      else some ({ m with v := v }.setPc g .lockLoad, .continues)
    else none
  | .tryLock =>
    if m.pc g = .idle then
      if m.v ≤ 0 then some (m, .tryLockFailed)
      else some (m.setPc g .tryCas, .continues)
    else none
  | .unlock =>
    if m.pc g = .holds then
      -- `atomic.SwapInt32(&m.v, 1) == 0`
      if m.v = 0 then some ({ m with v := 1 }.setPc g .idle, .released)
      else some ({ m with v := 1 }.setPc g .unlockWake, .continues)
    else none
  | .next =>
    match m.pc g with
    | .lockLoad =>
      if 0 ≤ m.v then some (m.setPc g .lockSwap, .continues)
      else some (m.setPc g .lockWait, .continues)
    | .lockSwap =>
      if m.v = 1 then some ({ m with v := -1 }.setPc g .holds, .acquired)
      else some ({ m with v := -1 }.setPc g .lockWait, .continues)
    | .lockWait =>
      if m.token then some ({ m with token := false }.setPc g .lockLoad, .continues) else none
    | .tryCas =>
      if m.v = 1 then some ({ m with v := 0 }.setPc g .holds, .acquired)
      else some (m.setPc g .idle, .tryLockFailed)
    | .unlockWake =>
      -- `select { case m.ch <- struct{}{}: default: }` leaves the slot full either way
      some ({ m with token := true }.setPc g .idle, .released)
    | _ => none

/-- The states some interleaving reaches from `Init`. -/
inductive Reachable : Mutex n → Prop
  | init : Reachable (init n)
  | step {m m' : Mutex n} {g : Fin n} {op : Op} {o : Outcome} :
      Reachable m → step m g op = some (m', o) → Reachable m'

/-- The number of goroutines at a place satisfying `P`. -/
def countAt (pc : Fin n → Pc) (P : Pc → Bool) : ℕ :=
  (Finset.univ.filter fun g => P (pc g)).card

theorem countAt_update_int (pc : Fin n → Pc) (g : Fin n) (p : Pc) (P : Pc → Bool) :
    (countAt (Function.update pc g p) P : ℤ) = countAt pc P - (P (pc g)).toNat + (P p).toNat := by
  have hsplit : ∀ f : Fin n → Pc, (countAt f P : ℤ) =
      (P (f g)).toNat + ∑ h ∈ Finset.univ.erase g, ((P (f h)).toNat : ℤ) := by
    intro f
    rw [countAt, Finset.card_filter, ← Finset.add_sum_erase _ _ (Finset.mem_univ g)]
    push_cast
    congr 1
    · cases P (f g) <;> rfl
    · exact Finset.sum_congr rfl fun h _ => by cases P (f h) <;> rfl
  have hrest : ∑ h ∈ Finset.univ.erase g, ((P (Function.update pc g p h)).toNat : ℤ) =
      ∑ h ∈ Finset.univ.erase g, ((P (pc h)).toNat : ℤ) :=
    Finset.sum_congr rfl fun h hh => by rw [Function.update_of_ne (Finset.ne_of_mem_erase hh)]
  rw [hsplit, hsplit pc, hrest, Function.update_self]
  ring

theorem countAt_pos_iff (pc : Fin n → Pc) (P : Pc → Bool) :
    0 < countAt pc P ↔ ∃ g, P (pc g) = true := by
  simp [countAt, Finset.card_pos, Finset.filter_nonempty_iff]

/-- Moving one goroutine changes a count by what the move takes away and what it adds. -/
theorem countAt_update (pc : Fin n → Pc) (g : Fin n) (p : Pc) (P : Pc → Bool) :
    countAt (Function.update pc g p) P + (P (pc g)).toNat = countAt pc P + (P p).toNat := by
  have := countAt_update_int pc g p P
  omega

namespace Pc

/-- Holding the mutex. -/
def isHolds : Pc → Bool
  | holds => true
  | _ => false

/-- Blocked on the channel. -/
def isWait : Pc → Bool
  | lockWait => true
  | _ => false

end Pc

/-- The invariant of every reachable state (module doc). -/
structure Inv (m : Mutex n) : Prop where
  holders_le : countAt m.pc Pc.isHolds ≤ 1
  free : countAt m.pc Pc.isHolds = 0 → m.v.toInt = 1
  held : 0 < countAt m.pc Pc.isHolds → m.v.toInt ≤ 0
  bound : -1 - (countAt m.pc Pc.inLock : ℤ) ≤ m.v.toInt
  wake : 0 < countAt m.pc Pc.isWait → m.token = false →
    m.v.toInt < 0 ∨ 0 < countAt m.pc Pc.active

/-- `Inv` after goroutine `g` moves to `p` with `v` and the channel set to `v'` and `t'`, from
what the fields say of the counts after the move. -/
theorem inv_setPc {m : Mutex n} (g : Fin n) (p : Pc) (v' : Int32) (t' : Bool)
    (h : ∀ H L W A : ℕ,
      H + (m.pc g).isHolds.toNat = countAt m.pc Pc.isHolds + p.isHolds.toNat →
      L + (m.pc g).inLock.toNat = countAt m.pc Pc.inLock + p.inLock.toNat →
      W + (m.pc g).isWait.toNat = countAt m.pc Pc.isWait + p.isWait.toNat →
      A + (m.pc g).active.toNat = countAt m.pc Pc.active + p.active.toNat →
      H ≤ 1 ∧ (H = 0 → v'.toInt = 1) ∧ (0 < H → v'.toInt ≤ 0) ∧
        -1 - (L : ℤ) ≤ v'.toInt ∧
        (0 < W → t'.toNat = 0 → v'.toInt < 0 ∨ 0 < A)) :
    Inv ({ m with v := v', token := t' }.setPc g p) := by
  obtain ⟨h1, h2, h3, h4, h5⟩ := h _ _ _ _ (countAt_update m.pc g p _)
    (countAt_update m.pc g p _) (countAt_update m.pc g p _) (countAt_update m.pc g p _)
  exact ⟨h1, h2, h3, h4, fun hw ht => h5 hw (by simp at ht; simp [ht])⟩

/-- `Init` has no goroutine anywhere and `v = 1`. -/
theorem inv_init : Inv (init n) := by
  have hzero : ∀ P : Pc → Bool, P .idle = false → countAt (init n).pc P = 0 := by
    intro P hP
    simp [countAt, init, hP]
  have hv : (init n).v.toInt = 1 := rfl
  refine ⟨by rw [hzero _ rfl]; omega, fun _ => hv, fun h => ?_, ?_, fun h => ?_⟩
  · rw [hzero _ rfl] at h
    omega
  · rw [hzero _ rfl, hv]
    omega
  · rw [hzero _ rfl] at h
    omega

/-- An idle goroutine is neither in `Lock`'s loop nor holding the mutex, so those two
together are fewer than all goroutines. -/
theorem countAt_inLock_add_holds_lt {pc : Fin n → Pc} {g : Fin n} (hg : pc g = .idle) :
    countAt pc Pc.inLock + countAt pc Pc.isHolds < n := by
  have hdisj : Disjoint (Finset.univ.filter fun h => (pc h).inLock = true)
      (Finset.univ.filter fun h => (pc h).isHolds = true) := by
    rw [Finset.disjoint_filter]
    intro h _ hl
    cases hp : pc h <;> simp_all [Pc.inLock, Pc.isHolds]
  have hsub : (Finset.univ.filter fun h => (pc h).inLock = true) ∪
      (Finset.univ.filter fun h => (pc h).isHolds = true) ⊆ Finset.univ.erase g := by
    intro h hh
    refine Finset.mem_erase.mpr ⟨?_, Finset.mem_univ h⟩
    rintro rfl
    rw [Finset.mem_union, Finset.mem_filter, Finset.mem_filter, hg] at hh
    simp [Pc.inLock, Pc.isHolds] at hh
  have hcard := Finset.card_le_card hsub
  rw [Finset.card_union_of_disjoint hdisj, Finset.card_erase_of_mem (Finset.mem_univ g),
    Finset.card_univ, Fintype.card_fin] at hcard
  have := g.pos
  unfold countAt
  omega

section Steps

variable {m m' : Mutex n} {g : Fin n} {op : Op} {o : Outcome}

/-- One step keeps `Inv` while at most `2^31` goroutines share the mutex. -/
theorem step_inv (hn : n ≤ 2 ^ 31) (hi : Inv m) (h : step m g op = some (m', o)) : Inv m' := by
  obtain ⟨h1, h2, h3, h4, h5⟩ := hi
  have h5' : 0 < countAt m.pc Pc.isWait → m.token.toNat = 0 →
      m.v.toInt < 0 ∨ 0 < countAt m.pc Pc.active := fun hw ht => h5 hw (by simpa using ht)
  have hv0 : (0 : Int32).toInt = 0 := rfl
  have hv1 : (1 : Int32).toInt = 1 := rfl
  have hvm : (-1 : Int32).toInt = -1 := rfl
  have hdec := toInt_sub_one_int32 m.v
  cases op with
  | lock =>
    simp only [step] at h
    split_ifs at h with hpc hv <;> cases h <;>
      refine inv_setPc g _ _ m.token fun H L W A e1 e2 e3 e4 => ?_ <;>
      simp [hpc, Pc.isHolds, Pc.inLock, Pc.isWait, Pc.active] at e1 e2 e3 e4
    · rw [← Int32.toInt_inj] at hv
      omega
    -- the decrement does not wrap: `v ≥ -1 - L` and `L + H < n ≤ 2^31` with a holder
    · rw [← Int32.toInt_inj] at hv
      have := countAt_inLock_add_holds_lt hpc
      omega
  | tryLock =>
    simp only [step] at h
    split_ifs at h with hpc hv <;> cases h
    -- the failed `TryLock` changes nothing
    · exact ⟨h1, h2, h3, h4, h5⟩
    · refine inv_setPc g _ m.v m.token fun H L W A e1 e2 e3 e4 => ?_
      simp [hpc, Pc.isHolds, Pc.inLock, Pc.isWait, Pc.active] at e1 e2 e3 e4
      omega
  | unlock =>
    simp only [step] at h
    split_ifs at h with hpc hv <;> cases h <;>
      refine inv_setPc g _ _ m.token fun H L W A e1 e2 e3 e4 => ?_ <;>
      simp [hpc, Pc.isHolds, Pc.inLock, Pc.isWait, Pc.active] at e1 e2 e3 e4 <;>
      rw [← Int32.toInt_inj] at hv <;>
      omega
  | next =>
    simp only [step] at h
    split at h
    next hpc =>
      split_ifs at h with hv <;> cases h <;>
        refine inv_setPc g _ m.v m.token fun H L W A e1 e2 e3 e4 => ?_ <;>
        simp [hpc, Pc.isHolds, Pc.inLock, Pc.isWait, Pc.active] at e1 e2 e3 e4 <;>
        rw [Int32.le_iff_toInt_le] at hv <;> omega
    next hpc =>
      split_ifs at h with hv <;> cases h <;>
        refine inv_setPc g _ _ m.token fun H L W A e1 e2 e3 e4 => ?_ <;>
        simp [hpc, Pc.isHolds, Pc.inLock, Pc.isWait, Pc.active] at e1 e2 e3 e4 <;>
        rw [← Int32.toInt_inj] at hv <;> omega
    next hpc =>
      split_ifs at h with ht
      cases h
      refine inv_setPc g _ m.v false fun H L W A e1 e2 e3 e4 => ?_
      simp [hpc, Pc.isHolds, Pc.inLock, Pc.isWait, Pc.active] at e1 e2 e3 e4
      omega
    next hpc =>
      split_ifs at h with hv <;> cases h <;>
        refine inv_setPc g _ _ m.token fun H L W A e1 e2 e3 e4 => ?_ <;>
        simp [hpc, Pc.isHolds, Pc.inLock, Pc.isWait, Pc.active] at e1 e2 e3 e4 <;>
        rw [← Int32.toInt_inj] at hv <;> omega
    next hpc =>
      cases h
      refine inv_setPc g _ m.v true fun H L W A e1 e2 e3 e4 => ?_
      simp [hpc, Pc.isHolds, Pc.inLock, Pc.isWait, Pc.active] at e1 e2 e3 e4
      simp only [Bool.toNat_true]
      omega
    next => cases h

/-- `Inv` holds in every state that an interleaving of at most `2^31` goroutines reaches. -/
theorem Reachable.inv (hn : n ≤ 2 ^ 31) (hr : Reachable m) : Inv m := by
  induction hr with
  | init => exact inv_init
  | step _ hs ih => exact step_inv hn ih hs

/-- The holders are the goroutines that `countAt` counts, so there is at most one. -/
theorem Inv.eq_of_holds (hi : Inv m) {g h : Fin n} (hg : m.pc g = .holds)
    (hh : m.pc h = .holds) : g = h := by
  have hle := hi.holders_le
  rw [countAt, Finset.card_le_one] at hle
  exact hle g (Finset.mem_filter.mpr ⟨Finset.mem_univ g, by rw [hg]; rfl⟩) h
    (Finset.mem_filter.mpr ⟨Finset.mem_univ h, by rw [hh]; rfl⟩)

/-- A `v` other than 1 means some goroutine holds the mutex. -/
theorem Inv.exists_holds (hi : Inv m) (hv : m.v.toInt ≠ 1) : ∃ h, m.pc h = .holds := by
  have hpos : 0 < countAt m.pc Pc.isHolds := by
    by_contra h0
    exact hv (hi.free (by omega))
  obtain ⟨h, hh⟩ := (countAt_pos_iff _ _).mp hpos
  refine ⟨h, ?_⟩
  cases hp : m.pc h <;> simp_all [Pc.isHolds]

/-- A step that returns holding the mutex leaves its goroutine holding it. -/
theorem step_acquired (h : step m g op = some (m', .acquired)) : m'.pc g = .holds := by
  cases op <;> simp only [step] at h
  case next =>
    split at h <;> (try split_ifs at h) <;> cases h <;> simp
  all_goals split_ifs at h <;> cases h <;> simp

/-- A step moves no goroutine but its own. -/
theorem step_pc_of_ne (h : step m g op = some (m', o)) {g' : Fin n} (hne : g' ≠ g) :
    m'.pc g' = m.pc g' := by
  cases op <;> simp only [step] at h
  case next =>
    split at h <;> (try split_ifs at h) <;> cases h <;> simp [Function.update_of_ne hne]
  all_goals split_ifs at h <;> cases h <;> simp [Function.update_of_ne hne]

/-- Only `next` moves a goroutine that is inside a call: `Lock`, `TryLock` and `Unlock` start
from a goroutine that is idle or holds the mutex. -/
theorem step_pc_of_ne_next (h : step m g op = some (m', o)) (hop : op ≠ .next) :
    m.pc g = .idle ∨ m.pc g = .holds := by
  cases op <;> simp only [step] at h
  case next => exact absurd rfl hop
  all_goals split_ifs at h with hpc <;> simp [hpc]

/-- `TryLock` returns `false` only while another goroutine holds the mutex. -/
theorem Inv.exists_holds_of_tryLockFailed (hi : Inv m)
    (h : step m g op = some (m', .tryLockFailed)) :
    ∃ g', g' ≠ g ∧ m.pc g' = .holds := by
  -- both ways to fail saw `v ≠ 1`, with `g` idle or at the `CompareAndSwap`
  have hfree : m.v.toInt ≠ 1 → m.pc g ≠ .holds → ∃ g', g' ≠ g ∧ m.pc g' = .holds := by
    intro hv hg
    obtain ⟨g', hg'⟩ := hi.exists_holds hv
    exact ⟨g', fun e => hg (e ▸ hg'), hg'⟩
  cases op <;> simp only [step] at h
  case tryLock =>
    split_ifs at h with hpc hv <;> cases h
    rw [Int32.le_iff_toInt_le] at hv
    exact hfree (by have : (0 : Int32).toInt = 0 := rfl; omega) (by simp [hpc])
  case next =>
    split at h <;> (try split_ifs at h) <;> cases h
    rename_i hpc hv
    exact hfree (fun h1 => hv (Int32.toInt_inj.mp h1)) (by simp [hpc])
  all_goals split_ifs at h <;> cases h

/-- A goroutine inside a call stays where it is until it takes its own `next`. -/
theorem step_pc_of_busy (h : step m g op = some (m', o)) {g' : Fin n}
    (hidle : m.pc g' ≠ .idle) (hholds : m.pc g' ≠ .holds) (hact : (g, op) ≠ (g', .next)) :
    m'.pc g' = m.pc g' := by
  by_cases hg : g' = g
  · subst hg
    have hop : op ≠ .next := fun e => hact (by rw [e])
    rcases step_pc_of_ne_next h hop with e | e
    · exact absurd e hidle
    · exact absurd e hholds
  · exact step_pc_of_ne h hg

/-- A step that ends with its goroutine holding the mutex, which it did not hold before,
returns `acquired`. -/
theorem step_outcome_of_holds (h : step m g op = some (m', o)) (hpc : m.pc g ≠ .holds)
    (hpc' : m'.pc g = .holds) : o = .acquired := by
  cases op <;> simp only [step] at h
  case next =>
    split at h <;> (try split_ifs at h) <;> cases h <;> simp_all
  all_goals split_ifs at h <;> cases h <;> simp_all

/-- An acquiring step starts from a goroutine that does not hold the mutex. -/
theorem step_acquired_not_holds (h : step m g op = some (m', .acquired)) : m.pc g ≠ .holds := by
  cases op <;> simp only [step] at h
  case next =>
    split at h <;> (try split_ifs at h) <;> cases h <;> simp_all
  all_goals split_ifs at h <;> cases h <;> simp_all

/-- The swap of a `Lock` that loaded `v >= 0` finds the mutex free and takes it. -/
theorem step_next_lockSwap (h : step m g .next = some (m', o)) (hpc : m.pc g = .lockSwap)
    (hv : m.v.toInt = 1) : m'.pc g = .holds := by
  have hv1 : m.v = 1 := Int32.toInt_inj.mp hv
  simp only [step, hpc, hv1, if_pos] at h
  cases h
  simp

/-- A `Lock` that loads a free mutex goes on to its swap. -/
theorem step_next_lockLoad (h : step m g .next = some (m', o)) (hpc : m.pc g = .lockLoad)
    (hv : 0 ≤ m.v.toInt) : m'.pc g = .lockSwap := by
  have hv0 : (0 : Int32) ≤ m.v := Int32.le_iff_toInt_le.mpr hv
  simp only [step, hpc, hv0, if_pos] at h
  cases h
  simp

/-- A waiter's receive takes the token and goes back to the load. -/
theorem step_next_lockWait (h : step m g .next = some (m', o)) (hpc : m.pc g = .lockWait) :
    m.token = true ∧ m'.pc g = .lockLoad := by
  simp only [step, hpc] at h
  split_ifs at h with ht
  cases h
  exact ⟨ht, by simp⟩

/-- `Unlock`'s send leaves the token in the channel. -/
theorem step_next_unlockWake (h : step m g .next = some (m', o)) (hpc : m.pc g = .unlockWake) :
    m'.token = true := by
  simp only [step, hpc] at h
  cases h
  rfl

/-- The token goes only to a waiter, which then loads `v` again. -/
theorem step_token_taken (h : step m g op = some (m', o)) (ht : m.token = true)
    (ht' : m'.token = false) : m'.pc g = .lockLoad := by
  cases op <;> simp only [step] at h
  case next =>
    split at h <;> (try split_ifs at h) <;> cases h <;> simp_all
  all_goals split_ifs at h <;> cases h <;> simp_all

/-- A waiter stays blocked on the channel or leaves it for the load. -/
theorem step_lockWait (h : step m g op = some (m', o)) {g' : Fin n} (hpc : m.pc g' = .lockWait) :
    m'.pc g' = .lockWait ∨ m'.pc g' = .lockLoad := by
  by_cases hact : (g, op) = (g', .next)
  · obtain ⟨rfl, rfl⟩ := Prod.mk.inj hact
    exact .inr (step_next_lockWait h hpc).2
  · rw [step_pc_of_busy h (by simp [hpc]) (by simp [hpc]) hact]
    exact .inl hpc

/-- The steps that cannot block are always enabled, and so is the receive once the token is
in the channel. -/
theorem isSome_step_next (hpc : m.pc g = .lockLoad ∨ m.pc g = .lockSwap ∨
    m.pc g = .unlockWake ∨ m.pc g = .lockWait ∧ m.token = true) : (step m g .next).isSome := by
  rcases hpc with hpc | hpc | hpc | ⟨hpc, ht⟩ <;> simp only [step, hpc]
  · split <;> rfl
  · split <;> rfl
  · rfl
  · simp [ht]

end Steps

/-- With `2^32 + 1` goroutines: goroutine 0 holds the mutex and goroutines `1, …, k` have
entered `Lock`'s loop, each after its `AddInt32(&m.v, -1)`. -/
def crowd (k : ℕ) : Mutex (2 ^ 32 + 1) :=
  ⟨-Int32.ofNat k, false, fun g => if g.val = 0 then .holds else if g.val ≤ k then .lockLoad
    else .idle⟩

/-- The lockers reach `crowd k` one `Lock` each, while `-k` is not 0 as an `int32`. -/
theorem reachable_crowd (k : ℕ) (hk : k < 2 ^ 32) : Reachable (crowd k) := by
  induction k with
  | zero =>
    have hs : step (init (2 ^ 32 + 1)) 0 .lock = some (crowd 0, .acquired) := by
      have hidle : (init (2 ^ 32 + 1)).pc 0 = .idle := rfl
      have hv : (init (2 ^ 32 + 1)).v - 1 = 0 := by decide
      rw [step, if_pos hidle, hv, if_pos rfl]
      simp only [Mutex.setPc, crowd, init, Option.some.injEq, Prod.mk.injEq, Mutex.mk.injEq,
        and_true]
      refine ⟨by decide, trivial, funext fun g => ?_⟩
      by_cases hg : g = 0
      · subst hg
        simp
      · rw [Function.update_of_ne hg]
        have : g.val ≠ 0 := fun e => hg (Fin.ext e)
        simp [this]
    exact .step .init hs
  | succ k ih =>
    have hs : step (crowd k) ⟨k + 1, by omega⟩ .lock = some (crowd (k + 1), .continues) := by
      have hidle : (crowd k).pc ⟨k + 1, by omega⟩ = .idle := by simp [crowd]
      have hv : (crowd k).v - 1 = -Int32.ofNat (k + 1) := by
        apply Int32.toBitVec_inj.mp
        simp [crowd]
        bv_omega
      have hne : -Int32.ofNat (k + 1) ≠ 0 := by
        intro h0
        have := congrArg Int32.toBitVec h0
        simp at this
        bv_omega
      rw [step, if_pos hidle, hv, if_neg hne]
      simp only [Mutex.setPc, crowd, Option.some.injEq, Prod.mk.injEq, Mutex.mk.injEq,
        and_true, true_and]
      -- only goroutine `k + 1` moves, from idle into `Lock`'s loop
      funext g
      by_cases hg : g.val = k + 1
      · rw [show g = ⟨k + 1, by omega⟩ from Fin.ext hg]
        simp
      · rw [Function.update_of_ne fun e => hg (by rw [e])]
        simp only [show g.val ≤ k ↔ g.val ≤ k + 1 by omega]
    exact .step (ih (by omega)) hs

/-- With `2^32 + 1` goroutines the `2^32 - 1` decrements of the waiters bring `v` back to 1,
and the next `Lock` takes the mutex from its holder. -/
theorem two_holders : ∃ m : Mutex (2 ^ 32 + 1), Reachable m ∧ m.pc 0 = .holds ∧
    m.pc (Fin.last _) = .holds := by
  have hidle : (crowd (2 ^ 32 - 1)).pc (Fin.last _) = .idle := by simp [crowd]
  have hv : (crowd (2 ^ 32 - 1)).v - 1 = 0 := by decide
  have hs : step (crowd (2 ^ 32 - 1)) (Fin.last _) .lock =
      some ({ crowd (2 ^ 32 - 1) with v := 0 }.setPc (Fin.last _) .holds, .acquired) := by
    rw [step, if_pos hidle, hv, if_pos rfl]
  refine ⟨_, .step (reachable_crowd _ (by decide)) hs, ?_, by simp⟩
  rw [Mutex.setPc_pc, Function.update_of_ne (by decide)]
  simp [crowd]

end ContainerFS.Tmutex
