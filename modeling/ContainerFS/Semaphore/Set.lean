import Mathlib.Data.List.GetD
import Mathlib.Data.Int.Notation
import Mathlib.Tactic.NormNum.Basic

/-!
System V semaphore sets (`pkg/sentry/kernel/semaphore`). A set holds its
semaphores' `int16` values and the queue of waiters of each; `ExecuteOps` tries
the operations of a `semop` on copies of the values and either writes them all
back, queues a waiter, or fails.

The wait check negates the operation in `int16`. For `SemOp = -32768` the
negation wraps to itself, so the operation never waits: it drives the value
below 0. `wakeWaiters` then meets a waiter that needs more than the negative
value and skips it with a `continue` that stays on it, for ever.

Away from that operation the loop of `ExecuteOps` is an integer `semop` (`tryOps_eq_semop`), and
every run of calls returns and keeps the values in `[0, valueMax]` (`run_inRange`). `destroy`
sends to every waiter but, as its loop resets copies of the semaphores, leaves the queues as they
are.
-/

namespace ContainerFS.Semaphore

/-- `SEMVMX`, the largest value of a semaphore. -/
def valueMax : Int16 := 32767

/-- The errors of the modelled calls; `wouldBlock` is `syserror.ErrWouldBlock`. -/
inductive Errno where
  | eidrm
  | efbig
  | eacces
  | erange
  | wouldBlock
  deriving DecidableEq, Repr

/-- `linux.Sembuf`, one operation of a `semop`. -/
structure Sembuf where
  semNum : UInt16
  semOp : Int16
  semFlg : Int16
  deriving DecidableEq, Repr

def ipcNoWait : Int16 := 0o4000

/-- `fs.PermMask`, the access a call asks `checkPerms` for. -/
structure PermMask where
  read : Bool
  write : Bool
  deriving DecidableEq, Repr

/-- A `waiter`: what its operation needs (its `SemOp`, zero or negative) and
its channel. -/
structure Waiter where
  value : Int16
  ch : ℕ
  deriving DecidableEq, Repr

/-- A `sem`: its value, its queue of waiters and the last pid to change it. -/
structure Sem where
  value : Int16
  waiters : List Waiter
  pid : Int32
  deriving DecidableEq, Repr

/-- A `Set`, with the fields the modelled calls read and write. Channels are
numbered in the order `newWaiter` makes them; `sent` lists the sends on
waiters' channels in the order they happen. -/
structure Set where
  sems : List Sem
  dead : Bool
  nextCh : ℕ
  sent : List ℕ
  deriving DecidableEq, Repr

/-- A set as `newSet` makes it: `nsems` zero semaphores with no waiters. -/
def Set.new (nsems : ℕ) : Set := ⟨List.replicate nsems ⟨0, [], 0⟩, false, 0, []⟩

/-- `findSem`: the semaphore `num`, if there is one. -/
def Set.findSem (s : Set) (num : ℤ) : Option Sem :=
  if num < 0 ∨ (s.sems.length : ℤ) ≤ num then none else s.sems[num.toNat]?

/-! ### Waking waiters -/

/-- The loop of `sem.wakeWaiters` from the waiter it stands at: the waiters
left from there on and the channels it sends on. A waiter that needs more than
`value` is skipped by a `continue` that does not move past it, so the loop comes
back to the same waiter; `fuel` bounds the rounds, and `none` is a loop that
has not returned. -/
def wakeLoop (value : Int16) : ℕ → List Waiter → Option (List Waiter × List ℕ)
  | 0, _ => none
  | _ + 1, [] => some ([], [])
  | fuel + 1, w :: ws =>
    if value < w.value then wakeLoop value fuel (w :: ws)
    else (wakeLoop value fuel ws).map fun r => (r.1, w.ch :: r.2)

def Sem.wakeWaiters (fuel : ℕ) (sem : Sem) : Option (Sem × List ℕ) :=
  (wakeLoop sem.value fuel sem.waiters).map fun r => ({ sem with waiters := r.1 }, r.2)

/-- Setting a semaphore's value and pid and waking its waiters, as `SetVal`,
`SetValAll` and `executeOps` do (the pid is not read by `wakeWaiters`, so
where it is set among the three does not matter). -/
def Sem.store (fuel : ℕ) (pid : Int32) (v : Int16) (sem : Sem) : Option (Sem × List ℕ) :=
  { sem with value := v, pid := pid }.wakeWaiters fuel

/-- `Sem.store` on each semaphore with its value, in order. -/
def storeAll (fuel : ℕ) (pid : Int32) : List Sem → List Int16 → Option (List Sem × List ℕ)
  | sem :: sems, v :: vs => do
    let r₁ ← sem.store fuel pid v
    let r₂ ← storeAll fuel pid sems vs
    pure (r₁.1 :: r₂.1, r₁.2 ++ r₂.2)
  | sems, _ => some (sems, [])

/-- A waiter that needs more than the value stops the loop for good: the
waiters before it are woken, and the loop then spins on it. -/
theorem wakeLoop_eq_none {value : Int16} {ws : List Waiter} (h : ∃ w ∈ ws, value < w.value)
    (fuel : ℕ) : wakeLoop value fuel ws = none := by
  -- on the fuel: a blocked head keeps the list, a woken one leaves the blocked waiter behind it
  induction fuel generalizing ws with
  | zero => rfl
  | succ fuel ih =>
    obtain ⟨w, hw, hlt⟩ := h
    cases ws with
    | nil => simp at hw
    | cons w' ws =>
      by_cases hb : value < w'.value
      · rw [wakeLoop, if_pos hb]
        exact ih ⟨w, hw, hlt⟩
      · have hws : w ∈ ws := by
          rcases List.mem_cons.mp hw with rfl | hws
          · exact absurd hlt hb
          · exact hws
        rw [wakeLoop, if_neg hb, ih ⟨w, hws, hlt⟩, Option.map_none]

/-- With no waiter above the value, the loop wakes every waiter in order,
given a round for each and one to find the end. -/
theorem wakeLoop_of_le {value : Int16} {ws : List Waiter} (h : ∀ w ∈ ws, w.value ≤ value)
    {fuel : ℕ} (hfuel : ws.length < fuel) : wakeLoop value fuel ws = some ([], ws.map Waiter.ch) := by
  obtain ⟨fuel, rfl⟩ : ∃ f, fuel = f + 1 := ⟨fuel - 1, by omega⟩
  induction ws generalizing fuel with
  | nil => rfl
  | cons w ws ih =>
    have hw : ¬value < w.value := Int16.not_lt.mpr (h w List.mem_cons_self)
    have hfuel : ws.length < fuel := by simpa using hfuel
    obtain ⟨fuel, rfl⟩ : ∃ f, fuel = f + 1 := ⟨fuel - 1, by omega⟩
    rw [wakeLoop, if_neg hw, ih (fun w' hw' => h w' (List.mem_cons_of_mem _ hw')) _ (by omega)]
    rfl

/-! ### `semop` -/

/-- Where the loop of `executeOps` over the operations ends: with the values
to write back, at an operation that must wait, or with an error. -/
inductive Attempt where
  | apply (tmpVals : List Int16)
  | wait (op : Sembuf)
  | error (e : Errno)
  deriving DecidableEq, Repr

/-- An operation that cannot go on: `ErrWouldBlock` under `IPC_NOWAIT`,
otherwise a waiter for it. -/
def block (op : Sembuf) : Attempt :=
  if op.semFlg &&& ipcNoWait ≠ 0 then .error .wouldBlock else .wait op

/-- The loop of `executeOps` over the operations, on the copies `tmpVals`. -/
def tryOps : List Sembuf → List Int16 → Attempt
  | [], tmpVals => .apply tmpVals
  | op :: ops, tmpVals =>
    let t := tmpVals.getD op.semNum.toNat 0
    if op.semOp = 0 then
      -- 'wait for zero'
      if t ≠ 0 then block op else tryOps ops tmpVals
    else if op.semOp < 0 then
      -- 'wait': `-op.SemOp` is negated in `int16`
      if -op.semOp > valueMax then .error .erange
      else if -op.semOp > t then block op
      else tryOps ops (tmpVals.set op.semNum.toNat (t + op.semOp))
    else
      -- 'signal'
      if t > valueMax - op.semOp then .error .erange
      else tryOps ops (tmpVals.set op.semNum.toNat (t + op.semOp))

/-- What `ExecuteOps` returns: `(nil, 0, nil)`, a channel to wait on with the
semaphore's number, or an error. -/
inductive Outcome where
  | done
  | wait (ch : ℕ) (num : ℕ)
  | error (e : Errno)
  deriving DecidableEq, Repr

/-- The unexported `executeOps`, with `s.mu` held. -/
def Set.executeOpsLocked (fuel : ℕ) (s : Set) (ops : List Sembuf) (pid : Int32) :
    Option (Set × Outcome) :=
  match tryOps ops (s.sems.map Sem.value) with
  | .error e => some (s, .error e)
  | .wait op =>
    -- `newWaiter(op.SemOp)` pushed at the back of the semaphore's queue
    let w : Waiter := ⟨op.semOp, s.nextCh⟩
    some ({ s with
        sems := s.sems.modify op.semNum.toNat fun sem => { sem with waiters := sem.waiters ++ [w] }
        nextCh := s.nextCh + 1 }, .wait s.nextCh op.semNum.toNat)
  | .apply tmpVals =>
    (storeAll fuel pid s.sems tmpVals).map fun r => ({ s with sems := r.1, sent := s.sent ++ r.2 }, .done)

/-- `Set.ExecuteOps`; `checkPerms` is the set's permission check for the caller. -/
def Set.executeOps (fuel : ℕ) (checkPerms : PermMask → Bool) (s : Set) (ops : List Sembuf)
    (pid : Int32) : Option (Set × Outcome) :=
  if s.dead then some (s, .error .eidrm)
  else if ops.any fun op => (s.findSem op.semNum.toNat).isNone then some (s, .error .efbig)
  else
    let readOnly := ops.all fun op => op.semOp = 0
    if !checkPerms ⟨readOnly, !readOnly⟩ then some (s, .error .eacces)
    else s.executeOpsLocked fuel ops pid

/-! ### The other calls -/

def Set.setVal (fuel : ℕ) (checkPerms : PermMask → Bool) (s : Set) (num : Int32) (val : Int16)
    (pid : Int32) : Option (Set × Option Errno) :=
  if val < 0 ∨ val > valueMax then some (s, some .erange)
  else if !checkPerms ⟨false, true⟩ then some (s, some .eacces)
  else match s.findSem num.toInt with
    | none => some (s, some .erange)
    | some sem =>
      (sem.store fuel pid val).map fun r =>
        ({ s with sems := s.sems.set num.toInt.toNat r.1, sent := s.sent ++ r.2 }, none)

/-- `Set.SetValAll`; a `vals` of the wrong length panics. -/
def Set.setValAll (fuel : ℕ) (checkPerms : PermMask → Bool) (s : Set) (vals : List UInt16)
    (pid : Int32) : Option (Set × Option Errno) :=
  if vals.length ≠ s.sems.length then none
  else if vals.any fun val => val > 32767 then some (s, some .erange)
  else if !checkPerms ⟨false, true⟩ then some (s, some .eacces)
  else (storeAll fuel pid s.sems (vals.map UInt16.toInt16)).map fun r =>
    ({ s with sems := r.1, sent := s.sent ++ r.2 }, none)

/-- `Set.AbortWait`: the first waiter on `ch` leaves the queue, if it is still
there; a `num` out of range panics. -/
def Set.abortWait (s : Set) (num : Int32) (ch : ℕ) : Option Set :=
  if num < 0 ∨ s.sems.length ≤ num.toInt.toNat then none
  else some { s with
    sems := s.sems.modify num.toInt.toNat fun sem =>
      { sem with waiters := sem.waiters.eraseP fun w => w.ch = ch } }

/-- `Set.destroy`, which `Registry.RemoveID` calls once the caller may remove
the set: the set is dead and every waiter is sent to, in order. The loop
ranges over copies of the semaphores, so its `waiters.Reset()` empties only
the copies: the set's own queues keep their waiters. -/
def Set.destroy (s : Set) : Set :=
  { s with
    dead := true
    sent := s.sent ++ s.sems.flatMap fun sem => sem.waiters.map Waiter.ch }

/-! ### The operation `-32768` -/

/-- A fresh set of one semaphore. The operation `-32768` succeeds and leaves
the value at `-32768`; a wait for zero then queues a waiter; and the next
operation that succeeds, `+1`, never returns: the value `-32767` it stores is
below the waiter's `0`, and `wakeWaiters` spins on that waiter. -/
theorem executeOps_minSemOp (fuel : ℕ) :
    ∃ s₁ s₂, (Set.new 1).executeOps (fuel + 1) (fun _ => true) [⟨0, -32768, 0⟩] 1 =
        some (s₁, .done) ∧
      s₁.sems.map Sem.value = [-32768] ∧
      s₁.executeOps (fuel + 1) (fun _ => true) [⟨0, 0, 0⟩] 1 = some (s₂, .wait 0 0) ∧
      ∀ fuel', s₂.executeOps fuel' (fun _ => true) [⟨0, 1, 0⟩] 1 = none := by
  refine ⟨⟨[⟨-32768, [], 1⟩], false, 0, []⟩, ⟨[⟨-32768, [⟨0, 0⟩], 1⟩], false, 1, []⟩,
    rfl, rfl, rfl, fun fuel' => ?_⟩
  have hstore : (⟨-32768, [⟨0, 0⟩], 1⟩ : Sem).store fuel' 1 (-32767) = none := by
    rw [Sem.store, Sem.wakeWaiters,
      wakeLoop_eq_none ⟨⟨0, 0⟩, List.mem_singleton_self _, by decide⟩, Option.map_none]
  simp [Set.executeOps, Set.executeOpsLocked, Set.findSem, tryOps, storeAll, hstore]

/-! ### Without the operation `-32768`

Away from `-32768`, the `int16` checks of `executeOps` decide as the integers
do: a `semop` waits exactly when a wait for zero meets a nonzero value or a
value would go below 0, fails with `ERANGE` exactly when a value would go
above `32767`, and otherwise writes back the values of the operations applied
in order. -/

/-- A value in `[0, valueMax]`. -/
def InRange (v : Int16) : Prop := 0 ≤ v ∧ v ≤ valueMax

theorem inRange_iff (v : Int16) : InRange v ↔ 0 ≤ v.toInt ∧ v.toInt ≤ 32767 := by
  rw [InRange, Int16.le_iff_toInt_le, Int16.le_iff_toInt_le, Int16.toInt_zero]
  rfl

theorem toInt_add_of_le {a b : Int16} (h0 : -32768 ≤ a.toInt + b.toInt)
    (h1 : a.toInt + b.toInt ≤ 32767) : (a + b).toInt = a.toInt + b.toInt := by
  rw [Int16.toInt_add, Int.bmod_eq_of_le] <;> norm_num <;> omega

theorem toInt_sub_of_le {a b : Int16} (h0 : -32768 ≤ a.toInt - b.toInt)
    (h1 : a.toInt - b.toInt ≤ 32767) : (a - b).toInt = a.toInt - b.toInt := by
  rw [Int16.toInt_sub, Int.bmod_eq_of_le] <;> norm_num <;> omega

theorem toInt_neg_of_ne {a : Int16} (h : a ≠ -32768) : (-a).toInt = -a.toInt := by
  have ha := Int16.le_toInt a
  have hb : a.toInt ≤ 32767 := Int16.toInt_le a
  have hne : a.toInt ≠ -32768 := fun he => h (Int16.toInt_inj.mp (by rw [he]; rfl))
  rw [Int16.toInt_neg, Int.bmod_eq_of_le] <;> norm_num at * <;> omega

/-- How a `semop` ends over the integers. -/
inductive Verdict where
  | apply (vals : List ℤ)
  | block (op : Sembuf)
  | erange
  deriving DecidableEq, Repr

/-- The operations of a `semop` applied in order over the integers: each adds
its `SemOp` to its semaphore; the first that is a wait for zero at a nonzero
value, or that would take a value below 0, must wait, and one that would take
a value above `32767` fails. -/
def semop : List Sembuf → List ℤ → Verdict
  | [], vals => .apply vals
  | op :: ops, vals =>
    let t := vals.getD op.semNum.toNat 0
    let v := t + op.semOp.toInt
    if (op.semOp = 0 ∧ t ≠ 0) ∨ v < 0 then .block op
    else if 32767 < v then .erange
    else semop ops (vals.set op.semNum.toNat v)

/-- A verdict as the loop of `executeOps` returns it. -/
def Verdict.toAttempt : Verdict → Attempt
  | .apply vals => .apply (vals.map Int16.ofInt)
  | .block op => Semaphore.block op
  | .erange => .error .erange

theorem getD_of_forall {α : Type*} {P : α → Prop} {l : List α} (h : ∀ a ∈ l, P a) {d : α}
    (hd : P d) (n : ℕ) : P (l.getD n d) := by
  rcases Nat.lt_or_ge n l.length with hn | hn
  · rw [List.getD_eq_getElem _ _ hn]
    exact h _ (List.getElem_mem hn)
  · rw [List.getD_eq_default _ _ hn]
    exact hd

theorem forall_mem_set {α : Type*} {P : α → Prop} {l : List α} (h : ∀ a ∈ l, P a) {a : α}
    (ha : P a) (n : ℕ) : ∀ b ∈ l.set n a, P b := fun b hb =>
  (List.mem_or_eq_of_mem_set hb).elim (h b) fun he => he ▸ ha

theorem set_getD_self {α : Type*} (l : List α) (n : ℕ) (d : α) : l.set n (l.getD n d) = l := by
  rcases Nat.lt_or_ge n l.length with hn | hn
  · rw [List.getD_eq_getElem _ _ hn, List.set_getElem_self]
  · exact List.set_eq_of_length_le hn

/-- Away from `-32768` and from values in range, the loop of `executeOps`
decides as `semop` does over the integers. -/
theorem tryOps_eq_semop (ops : List Sembuf) (hops : ∀ op ∈ ops, op.semOp ≠ -32768)
    (tmpVals : List Int16) (hvals : ∀ t ∈ tmpVals, InRange t) :
    tryOps ops tmpVals = (semop ops (tmpVals.map Int16.toInt)).toAttempt := by
  induction ops generalizing tmpVals with
  | nil => simp [tryOps, semop, Verdict.toAttempt, Function.comp_def, Int16.ofInt_toInt]
  | cons op ops ih =>
    have hops' : ∀ o ∈ ops, o.semOp ≠ -32768 := fun o ho => hops o (List.mem_cons_of_mem _ ho)
    -- the value the operation meets, and what it adds
    set n := op.semNum.toNat
    set T := tmpVals.getD n 0 with hT
    obtain ⟨ht0, ht1⟩ := (inRange_iff T).mp (getD_of_forall hvals ((inRange_iff 0).mpr (by decide)) n)
    have hd0 : -32768 ≤ op.semOp.toInt := Int16.le_toInt _
    have hd1 : op.semOp.toInt ≤ 32767 := Int16.toInt_le _
    have hd : op.semOp.toInt ≠ -32768 := fun he =>
      hops op List.mem_cons_self (Int16.toInt_inj.mp (by rw [he]; rfl))
    have hget : (tmpVals.map Int16.toInt).getD n 0 = T.toInt := by
      rw [← Int16.toInt_zero, List.getD_map]
    -- an operation that keeps the value in range goes on with the rest
    have hnext (h0 : 0 ≤ T.toInt + op.semOp.toInt) (h1 : T.toInt + op.semOp.toInt ≤ 32767) :
        tryOps ops (tmpVals.set n (T + op.semOp)) =
          (semop ops ((tmpVals.map Int16.toInt).set n (T.toInt + op.semOp.toInt))).toAttempt := by
      have hsum := toInt_add_of_le (a := T) (b := op.semOp) (by omega) h1
      rw [ih hops' _ (forall_mem_set hvals ((inRange_iff _).mpr ⟨by omega, by omega⟩) n),
        List.map_set, hsum]
    rw [tryOps, semop, hget, ← hT]
    by_cases hz : op.semOp = 0
    · -- a wait for zero
      have hz' : op.semOp.toInt = 0 := by rw [hz]; rfl
      rw [if_pos hz]
      by_cases hT0 : T = 0
      · have hT0' : T.toInt = 0 := by rw [hT0]; rfl
        rw [if_neg (not_not.mpr hT0), if_neg (by omega), if_neg (by omega), hz', Int.add_zero,
          ← hget, set_getD_self, ih hops' _ hvals]
      · have hT0' : T.toInt ≠ 0 := fun h => hT0 (Int16.toInt_inj.mp (by rw [h]; rfl))
        rw [if_pos hT0, if_pos (Or.inl ⟨hz, hT0'⟩)]
        rfl
    · have hz' : op.semOp.toInt ≠ 0 := fun h => hz (Int16.toInt_inj.mp (by rw [h]; rfl))
      rw [if_neg hz]
      by_cases hneg : op.semOp < 0
      · -- a wait: the negation does not wrap, so it compares as the integers do
        have hneg' : op.semOp.toInt < 0 := by
          rwa [Int16.lt_iff_toInt_lt, Int16.toInt_zero] at hneg
        have hnegate := toInt_neg_of_ne (hops op List.mem_cons_self)
        have hmax : ¬-op.semOp > valueMax := by
          rw [gt_iff_lt, Int16.lt_iff_toInt_lt, hnegate]
          show ¬(32767 : ℤ) < _
          omega
        rw [if_pos hneg, if_neg hmax]
        by_cases hbelow : T.toInt + op.semOp.toInt < 0
        · have hwait : -op.semOp > T := by
            rw [gt_iff_lt, Int16.lt_iff_toInt_lt, hnegate]
            omega
          rw [if_pos hwait, if_pos (Or.inr hbelow)]
          rfl
        · have hgo : ¬-op.semOp > T := by
            rw [gt_iff_lt, Int16.lt_iff_toInt_lt, hnegate]
            omega
          have hgoes : ¬((op.semOp = 0 ∧ T.toInt ≠ 0) ∨ T.toInt + op.semOp.toInt < 0) := by
            rintro (⟨h, -⟩ | h)
            · exact hz h
            · exact hbelow h
          rw [if_neg hgo, if_neg hgoes, if_neg (by omega), hnext (by omega) (by omega)]
      · -- a signal: `valueMax - op.SemOp` does not wrap
        have hpos : 0 < op.semOp.toInt := by
          rw [Int16.lt_iff_toInt_lt, Int16.toInt_zero] at hneg
          omega
        have hdiff : (valueMax - op.semOp).toInt = 32767 - op.semOp.toInt :=
          toInt_sub_of_le (by show -32768 ≤ (32767 : ℤ) - _; omega)
            (by show (32767 : ℤ) - _ ≤ 32767; omega)
        have hgoes : ¬((op.semOp = 0 ∧ T.toInt ≠ 0) ∨ T.toInt + op.semOp.toInt < 0) := by
          rintro (⟨h, -⟩ | h)
          · exact hz h
          · omega
        rw [if_neg hneg, if_neg hgoes]
        by_cases habove : 32767 < T.toInt + op.semOp.toInt
        · have hfail : T > valueMax - op.semOp := by
            rw [gt_iff_lt, Int16.lt_iff_toInt_lt, hdiff]
            omega
          rw [if_pos hfail, if_pos habove]
          rfl
        · have hgo : ¬T > valueMax - op.semOp := by
            rw [gt_iff_lt, Int16.lt_iff_toInt_lt, hdiff]
            omega
          rw [if_neg hgo, if_neg habove, hnext (by omega) (by omega)]

/-- What `semop` can end with, from values in range: values in range again,
as many; an operation that needs the value to come down or to reach zero; or
`ERANGE`. -/
def Verdict.Sound (n : ℕ) : Verdict → Prop
  | .apply vals => vals.length = n ∧ ∀ v ∈ vals, 0 ≤ v ∧ v ≤ 32767
  | .block op => op.semOp.toInt ≤ 0
  | .erange => True

theorem semop_sound (ops : List Sembuf) {vals : List ℤ} (hvals : ∀ v ∈ vals, 0 ≤ v ∧ v ≤ 32767) :
    (semop ops vals).Sound vals.length := by
  induction ops generalizing vals with
  | nil => exact ⟨rfl, hvals⟩
  | cons op ops ih =>
    have ht := (getD_of_forall hvals (by norm_num : (0 : ℤ) ≤ 0 ∧ (0 : ℤ) ≤ 32767)
      op.semNum.toNat).1
    rw [semop]
    split_ifs with hb ha
    · -- a wait for zero, or an operation that takes the value below 0
      show op.semOp.toInt ≤ 0
      rcases hb with ⟨hz, -⟩ | hneg
      · simp [hz]
      · omega
    · trivial
    · -- the operation applies, and its value is in range
      have hv : 0 ≤ vals.getD op.semNum.toNat 0 + op.semOp.toInt ∧
          vals.getD op.semNum.toNat 0 + op.semOp.toInt ≤ 32767 :=
        ⟨by omega, by omega⟩
      have hrest := ih (forall_mem_set hvals hv op.semNum.toNat)
      rwa [List.length_set] at hrest

theorem toInt_mem_of_inRange {l : List Int16} (h : ∀ t ∈ l, InRange t) :
    ∀ v ∈ l.map Int16.toInt, 0 ≤ v ∧ v ≤ 32767 := by
  intro v hv
  obtain ⟨t, ht, rfl⟩ := List.mem_map.mp hv
  exact (inRange_iff t).mp (h t ht)

theorem toInt_ofInt_of_le {v : ℤ} (h0 : 0 ≤ v) (h1 : v ≤ 32767) : (Int16.ofInt v).toInt = v := by
  rw [Int16.toInt_ofInt, Int.bmod_eq_of_le] <;> norm_num [Int16.size] <;> omega

/-! ### `ExecuteOps` away from `-32768` -/

/-- The invariant the calls keep away from `-32768`: every value in range,
and every waiter's need zero or negative. -/
structure Set.Valid (s : Set) : Prop where
  inRange : ∀ sem ∈ s.sems, InRange sem.value
  waiters : ∀ sem ∈ s.sems, ∀ w ∈ sem.waiters, w.value ≤ 0

/-- Storing a value that no waiter needs more than wakes them all, given a
round for each. -/
theorem Sem.store_of_le {sem : Sem} {v : Int16} (h : ∀ w ∈ sem.waiters, w.value ≤ v) {fuel : ℕ}
    (hfuel : sem.waiters.length < fuel) (pid : Int32) :
    sem.store fuel pid v =
      some ({ sem with value := v, pid := pid, waiters := [] }, sem.waiters.map Waiter.ch) := by
  rw [Sem.store, Sem.wakeWaiters, wakeLoop_of_le h hfuel]
  rfl

/-- Storing values in range over semaphores whose waiters need zero or less,
with a round for every waiter: each semaphore takes its value and its pid, and
every waiter is woken. -/
theorem storeAll_of_le {fuel : ℕ} (pid : Int32) {sems : List Sem} {vs : List Int16}
    (hlen : vs.length = sems.length) (hvs : ∀ v ∈ vs, 0 ≤ v)
    (hw : ∀ sem ∈ sems, ∀ w ∈ sem.waiters, w.value ≤ 0)
    (hfuel : ∀ sem ∈ sems, sem.waiters.length < fuel) :
    ∃ r, storeAll fuel pid sems vs = some r ∧ r.1.map Sem.value = vs ∧
      ∀ sem ∈ r.1, sem.waiters = [] ∧ sem.pid = pid := by
  induction sems generalizing vs with
  | nil =>
    rw [List.length_eq_zero_iff.mp hlen]
    exact ⟨([], []), rfl, rfl, by simp⟩
  | cons sem sems ih =>
    obtain ⟨v, vs, rfl⟩ := List.exists_cons_of_length_eq_add_one hlen
    have hv : ∀ w ∈ sem.waiters, w.value ≤ v := fun w hw' =>
      Int16.le_trans (hw sem List.mem_cons_self w hw') (hvs v List.mem_cons_self)
    obtain ⟨r, hr, hmap, hall⟩ := ih (by simpa using hlen)
      (fun v' hv' => hvs v' (List.mem_cons_of_mem _ hv'))
      (fun sem' hs w hw' => hw sem' (List.mem_cons_of_mem _ hs) w hw')
      (fun sem' hs => hfuel sem' (List.mem_cons_of_mem _ hs))
    refine ⟨({ sem with value := v, pid := pid, waiters := [] } :: r.1, sem.waiters.map Waiter.ch ++ r.2),
      ?_, ?_, ?_⟩
    · rw [storeAll, Sem.store_of_le hv (hfuel sem List.mem_cons_self), hr]
      rfl
    · simp [hmap]
    · intro sem' hs
      rcases List.mem_cons.mp hs with rfl | hs
      · exact ⟨rfl, rfl⟩
      · exact hall sem' hs

theorem map_modify_of_comp {α β : Type*} {g : α → β} {f : α → α} (hf : ∀ a, g (f a) = g a)
    (l : List α) (n : ℕ) : (l.modify n f).map g = l.map g := by
  apply List.ext_getElem (by simp)
  intro i h₁ h₂
  simp only [List.getElem_map, List.getElem_modify]
  split <;> simp [hf]

theorem findSem_of_lt {s : Set} {n : ℕ} (h : n < s.sems.length) : (s.findSem n).isSome := by
  rw [Set.findSem, if_neg (by omega), Int.toNat_natCast, List.getElem?_eq_getElem h]
  rfl

/-- One semaphore at 1, with no waiters. -/
def atOne : Set := ⟨[⟨1, [], 0⟩], false, 0, []⟩

/-- What the loop of `executeOps` can end with, from values in range away
from `-32768`: values in range again, as many; or an operation that needs the
value to come down or to reach zero. -/
def Attempt.Sound (n : ℕ) : Attempt → Prop
  | .apply tmpVals => tmpVals.length = n ∧ ∀ v ∈ tmpVals, InRange v
  | .wait op => op.semOp ≤ 0
  | .error _ => True

theorem tryOps_sound (ops : List Sembuf) (hops : ∀ op ∈ ops, op.semOp ≠ -32768)
    (tmpVals : List Int16) (hvals : ∀ t ∈ tmpVals, InRange t) :
    (tryOps ops tmpVals).Sound tmpVals.length := by
  have hsound := semop_sound ops (toInt_mem_of_inRange hvals)
  rw [List.length_map] at hsound
  rw [tryOps_eq_semop ops hops tmpVals hvals]
  generalize semop ops (tmpVals.map Int16.toInt) = verdict at hsound ⊢
  cases verdict with
  | apply vals =>
    obtain ⟨hlen, hin⟩ := hsound
    refine ⟨by simp [hlen], fun v hv => ?_⟩
    obtain ⟨x, hx, rfl⟩ := List.mem_map.mp hv
    rw [inRange_iff, toInt_ofInt_of_le (hin x hx).1 (hin x hx).2]
    exact hin x hx
  | block op =>
    rw [Verdict.toAttempt, block]
    split
    · trivial
    · show op.semOp ≤ 0
      rwa [Int16.le_iff_toInt_le, Int16.toInt_zero]
  | erange => trivial

/-- Room for `k` more waiters on every semaphore within the rounds that
`fuel` gives `wakeWaiters`. -/
def Set.Fits (fuel k : ℕ) (s : Set) : Prop :=
  k < fuel ∧ ∀ sem ∈ s.sems, sem.waiters.length + k < fuel

theorem Set.Fits.mono {fuel k : ℕ} {s : Set} (h : s.Fits fuel (k + 1)) : s.Fits fuel k :=
  ⟨by have := h.1; omega, fun sem hsem => by have := h.2 sem hsem; omega⟩

/-- A set whose every semaphore is one of those of `s`, or one with no waiters and a
value in range, keeps the invariant, with room for one waiter fewer. -/
theorem valid_fits_of_mem {s t : Set} (hs : s.Valid) {fuel k : ℕ} (hfit : s.Fits fuel (k + 1))
    (h : ∀ sem ∈ t.sems, sem ∈ s.sems ∨ (sem.waiters = [] ∧ InRange sem.value)) :
    t.Valid ∧ t.Fits fuel k := by
  refine ⟨⟨fun sem hsem => ?_, fun sem hsem w hw => ?_⟩, hfit.mono.1, fun sem hsem => ?_⟩
  · rcases h sem hsem with hold | ⟨-, hin⟩
    · exact hs.inRange sem hold
    · exact hin
  · rcases h sem hsem with hold | ⟨hnil, -⟩
    · exact hs.waiters sem hold w hw
    · rw [hnil] at hw
      cases hw
  · rcases h sem hsem with hold | ⟨hnil, -⟩
    · exact hfit.mono.2 sem hold
    · rw [hnil]
      simpa using hfit.mono.1

theorem mem_modify {α : Type*} {l : List α} {n : ℕ} {f : α → α} {b : α} (h : b ∈ l.modify n f) :
    b ∈ l ∨ ∃ a ∈ l, b = f a := by
  obtain ⟨i, hi, rfl⟩ := List.mem_iff_getElem.mp h
  have hi' : i < l.length := by simpa using hi
  rw [List.getElem_modify]
  split
  · exact Or.inr ⟨l[i], List.getElem_mem hi', rfl⟩
  · exact Or.inl (List.getElem_mem hi')

/-- One `ExecuteOps` away from `-32768` returns and keeps the invariant, with
room for one waiter fewer. -/
theorem Set.executeOps_valid {s : Set} (hs : s.Valid) {fuel k : ℕ} (hfit : s.Fits fuel (k + 1))
    (checkPerms : PermMask → Bool) (ops : List Sembuf) (hops : ∀ op ∈ ops, op.semOp ≠ -32768)
    (pid : Int32) : ∃ r, s.executeOps fuel checkPerms ops pid = some r ∧ r.1.Valid ∧
      r.1.Fits fuel k ∧ r.1.sems.length = s.sems.length := by
  have hvals : ∀ t ∈ s.sems.map Sem.value, InRange t := by
    simpa using hs.inRange
  have hsound := tryOps_sound ops hops _ hvals
  rw [List.length_map] at hsound
  -- the checks before the loop change nothing
  rw [Set.executeOps]
  by_cases hdead : s.dead = true
  · rw [if_pos hdead]
    exact ⟨(s, _), rfl, hs, hfit.mono, rfl⟩
  by_cases hbig : (ops.any fun op => (s.findSem op.semNum.toNat).isNone) = true
  · rw [if_neg hdead, if_pos hbig]
    exact ⟨(s, _), rfl, hs, hfit.mono, rfl⟩
  rw [if_neg hdead, if_neg hbig]
  dsimp only
  split
  · exact ⟨(s, _), rfl, hs, hfit.mono, rfl⟩
  unfold Set.executeOpsLocked
  generalize tryOps ops (s.sems.map Sem.value) = a at hsound ⊢
  cases a with
  | error e => exact ⟨(s, _), rfl, hs, hfit.mono, rfl⟩
  | wait op =>
    -- one waiter more, on the operation's semaphore, needing `op.SemOp ≤ 0`
    dsimp only
    refine ⟨_, rfl, ⟨fun sem hsem => ?_, fun sem hsem w hw => ?_⟩, ⟨by have := hfit.1; omega,
      fun sem hsem => ?_⟩, List.length_modify _ _ _⟩
    · rcases mem_modify hsem with hsem | ⟨a, ha, rfl⟩
      · exact hs.inRange sem hsem
      · exact hs.inRange a ha
    · rcases mem_modify hsem with hsem | ⟨a, ha, rfl⟩
      · exact hs.waiters sem hsem w hw
      · rcases List.mem_append.mp hw with hw | hw
        · exact hs.waiters a ha w hw
        · rw [List.mem_singleton.mp hw]
          exact hsound
    · rcases mem_modify hsem with hsem | ⟨a, ha, rfl⟩
      · have := hfit.2 sem hsem
        omega
      · have := hfit.2 a ha
        simp only [List.length_append, List.length_singleton]
        omega
  | apply tmpVals =>
    -- every semaphore takes its value and every waiter is woken
    obtain ⟨hlen, hin⟩ := hsound
    have hroom : ∀ sem ∈ s.sems, sem.waiters.length < fuel := fun sem hsem => by
      have := hfit.2 sem hsem
      omega
    obtain ⟨r, hr, hmap, hall⟩ := storeAll_of_le pid hlen (fun v hv => (hin v hv).1) hs.waiters hroom
    obtain ⟨hv, hf⟩ := valid_fits_of_mem (t := { s with sems := r.1, sent := s.sent ++ r.2 }) hs hfit
      fun sem hsem => Or.inr ⟨(hall sem hsem).1, hin _ (hmap ▸ List.mem_map_of_mem hsem)⟩
    refine ⟨_, by dsimp only; rw [hr]; rfl, hv, hf, ?_⟩
    rw [← List.length_map (f := Sem.value), hmap, hlen]

theorem findSem_mem {s : Set} {num : ℤ} {sem : Sem} (h : s.findSem num = some sem) :
    sem ∈ s.sems := by
  rw [Set.findSem] at h
  split at h
  · cases h
  · exact List.mem_of_getElem? h

/-- One `SetVal` returns and keeps the invariant. -/
theorem Set.setVal_valid {s : Set} (hs : s.Valid) {fuel k : ℕ} (hfit : s.Fits fuel (k + 1))
    (checkPerms : PermMask → Bool) (num : Int32) (val : Int16) (pid : Int32) :
    ∃ r, s.setVal fuel checkPerms num val pid = some r ∧ r.1.Valid ∧ r.1.Fits fuel k ∧
      r.1.sems.length = s.sems.length := by
  rw [Set.setVal]
  by_cases hval : val < 0 ∨ val > valueMax
  · rw [if_pos hval]
    exact ⟨(s, _), rfl, hs, hfit.mono, rfl⟩
  by_cases hperm : (!checkPerms ⟨false, true⟩) = true
  · rw [if_neg hval, if_pos hperm]
    exact ⟨(s, _), rfl, hs, hfit.mono, rfl⟩
  rw [if_neg hval, if_neg hperm]
  cases hsem : s.findSem num.toInt with
  | none => exact ⟨(s, _), rfl, hs, hfit.mono, rfl⟩
  | some sem =>
    -- the value passed the range check, so it wakes every waiter of the semaphore
    have hmem := findSem_mem hsem
    have hin : InRange val := by
      rw [not_or, Int16.not_lt, gt_iff_lt, Int16.not_lt] at hval
      exact hval
    have hle : ∀ w ∈ sem.waiters, w.value ≤ val := fun w hw =>
      Int16.le_trans (hs.waiters sem hmem w hw) hin.1
    have hroom : sem.waiters.length < fuel := by
      have := hfit.2 sem hmem
      omega
    dsimp only
    rw [Sem.store_of_le hle hroom]
    obtain ⟨hv, hf⟩ := valid_fits_of_mem (t := { s with
        sems := s.sems.set num.toInt.toNat { sem with value := val, pid := pid, waiters := [] }
        sent := s.sent ++ sem.waiters.map Waiter.ch })
      hs hfit fun sem' hsem' => (List.mem_or_eq_of_mem_set hsem').imp id fun he => by
        rw [he]
        exact ⟨rfl, hin⟩
    exact ⟨_, rfl, hv, hf, List.length_set ..⟩

theorem inRange_toInt16 {v : UInt16} (h : ¬v > 32767) : InRange v.toInt16 := by
  have hv : v.toNat ≤ 32767 := by
    rw [gt_iff_lt, UInt16.lt_iff_toNat_lt] at h
    simpa using h
  have hint : v.toInt16.toInt = v.toNat := by
    show (Int16.ofBitVec v.toBitVec).toInt = _
    rw [Int16.toInt_ofBitVec, BitVec.toInt_eq_toNat_of_lt]
    · rfl
    · simp only [UInt16.toNat_toBitVec]
      omega
  rw [inRange_iff, hint]
  omega

/-- One `SetValAll` with a value for each semaphore returns and keeps the
invariant. -/
theorem Set.setValAll_valid {s : Set} (hs : s.Valid) {fuel k : ℕ} (hfit : s.Fits fuel (k + 1))
    (checkPerms : PermMask → Bool) (vals : List UInt16) (hlen : vals.length = s.sems.length)
    (pid : Int32) : ∃ r, s.setValAll fuel checkPerms vals pid = some r ∧ r.1.Valid ∧
      r.1.Fits fuel k ∧ r.1.sems.length = s.sems.length := by
  rw [Set.setValAll, if_neg (not_not.mpr hlen)]
  by_cases hbig : (vals.any fun val => val > 32767) = true
  · rw [if_pos hbig]
    exact ⟨(s, _), rfl, hs, hfit.mono, rfl⟩
  by_cases hperm : (!checkPerms ⟨false, true⟩) = true
  · rw [if_neg hbig, if_pos hperm]
    exact ⟨(s, _), rfl, hs, hfit.mono, rfl⟩
  rw [if_neg hbig, if_neg hperm]
  -- every value passed the range check, so each semaphore takes its value and wakes its waiters
  have hin : ∀ v ∈ vals.map UInt16.toInt16, InRange v := by
    intro v hv
    obtain ⟨u, hu, rfl⟩ := List.mem_map.mp hv
    exact inRange_toInt16 fun h => hbig (List.any_eq_true.mpr ⟨u, hu, decide_eq_true h⟩)
  have hroom : ∀ sem ∈ s.sems, sem.waiters.length < fuel := fun sem hsem => by
    have := hfit.2 sem hsem
    omega
  obtain ⟨r, hr, hmap, hall⟩ :=
    storeAll_of_le pid (by simp [hlen]) (fun v hv => (hin v hv).1) hs.waiters hroom
  obtain ⟨hv, hf⟩ := valid_fits_of_mem (t := { s with sems := r.1, sent := s.sent ++ r.2 }) hs hfit
    fun sem hsem => Or.inr ⟨(hall sem hsem).1, hin _ (hmap ▸ List.mem_map_of_mem hsem)⟩
  refine ⟨_, by rw [hr]; rfl, hv, hf, ?_⟩
  rw [← List.length_map (f := Sem.value), hmap, List.length_map, hlen]

/-- One `AbortWait` on one of the set's semaphores returns and keeps the
invariant: a waiter at most leaves a queue. -/
theorem Set.abortWait_valid {s : Set} (hs : s.Valid) {fuel k : ℕ} (hfit : s.Fits fuel (k + 1))
    (num : Int32) (hnum : 0 ≤ num.toInt ∧ num.toInt < s.sems.length) (ch : ℕ) :
    ∃ t, s.abortWait num ch = some t ∧ t.Valid ∧ t.Fits fuel k ∧ t.sems.length = s.sems.length := by
  have hnum' : ¬(num < 0 ∨ s.sems.length ≤ num.toInt.toNat) := by
    rw [Int32.lt_iff_toInt_lt, Int32.toInt_zero]
    omega
  rw [Set.abortWait, if_neg hnum']
  refine ⟨_, rfl, ⟨fun sem hsem => ?_, fun sem hsem w hw => ?_⟩, ⟨hfit.mono.1, fun sem hsem => ?_⟩,
    List.length_modify _ _ _⟩
  · rcases mem_modify hsem with hsem | ⟨a, ha, rfl⟩
    · exact hs.inRange sem hsem
    · exact hs.inRange a ha
  · rcases mem_modify hsem with hsem | ⟨a, ha, rfl⟩
    · exact hs.waiters sem hsem w hw
    · exact hs.waiters a ha w (List.eraseP_sublist.subset hw)
  · rcases mem_modify hsem with hsem | ⟨a, ha, rfl⟩
    · exact hfit.mono.2 sem hsem
    · have := hfit.mono.2 a ha
      have := (List.eraseP_sublist (p := fun w => decide (w.ch = ch)) (l := a.waiters)).length_le
      dsimp only
      omega

/-- `destroy` keeps the invariant: it sends to the waiters and leaves every semaphore as it
was. -/
theorem Set.destroy_valid {s : Set} (hs : s.Valid) {fuel k : ℕ} (hfit : s.Fits fuel (k + 1)) :
    s.destroy.Valid ∧ s.destroy.Fits fuel k :=
  ⟨⟨hs.inRange, hs.waiters⟩, hfit.mono⟩

/-- The calls on a set. `RemoveID` either changes nothing (no such set, or a
caller without the right) or destroys the set. -/
inductive Call where
  | executeOps (ops : List Sembuf) (pid : Int32)
  | setVal (num : Int32) (val : Int16) (pid : Int32)
  | setValAll (vals : List UInt16) (pid : Int32)
  | abortWait (num : Int32) (ch : ℕ)
  | removeID
  deriving DecidableEq, Repr

/-- A call on the set, with the set it leaves; `none` is a call that does not
return. -/
def Set.call (fuel : ℕ) (checkPerms : PermMask → Bool) (s : Set) : Call → Option Set
  | .executeOps ops pid => (s.executeOps fuel checkPerms ops pid).map Prod.fst
  | .setVal num val pid => (s.setVal fuel checkPerms num val pid).map Prod.fst
  | .setValAll vals pid => (s.setValAll fuel checkPerms vals pid).map Prod.fst
  | .abortWait num ch => s.abortWait num ch
  | .removeID => some s.destroy

/-- The calls one after the other. -/
def Set.run (fuel : ℕ) (checkPerms : PermMask → Bool) (s : Set) : List Call → Option Set
  | [] => some s
  | c :: cs => (s.call fuel checkPerms c).bind fun t => t.run fuel checkPerms cs

/-- What the callers give on a set of `nsems` semaphores: no operation of
`-32768`, a value for each semaphore to `SetValAll`, and an `AbortWait` on
one of the semaphores. -/
def Call.Allowed (nsems : ℕ) : Call → Prop
  | .executeOps ops _ => ∀ op ∈ ops, op.semOp ≠ -32768
  | .setValAll vals _ => vals.length = nsems
  | .abortWait num _ => 0 ≤ num.toInt ∧ num.toInt < nsems
  | _ => True

/-- One call keeps the invariant and the number of semaphores. -/
theorem Set.call_valid {s : Set} (hs : s.Valid) {fuel k : ℕ} (hfit : s.Fits fuel (k + 1))
    (checkPerms : PermMask → Bool) {c : Call} (hc : c.Allowed s.sems.length) :
    ∃ t, s.call fuel checkPerms c = some t ∧ t.Valid ∧ t.Fits fuel k ∧
      t.sems.length = s.sems.length := by
  cases c with
  | executeOps ops pid =>
    obtain ⟨r, hr, hv⟩ := s.executeOps_valid hs hfit checkPerms ops hc pid
    exact ⟨r.1, by rw [Set.call, hr]; rfl, hv⟩
  | setVal num val pid =>
    obtain ⟨r, hr, hv⟩ := s.setVal_valid hs hfit checkPerms num val pid
    exact ⟨r.1, by rw [Set.call, hr]; rfl, hv⟩
  | setValAll vals pid =>
    obtain ⟨r, hr, hv⟩ := s.setValAll_valid hs hfit checkPerms vals hc pid
    exact ⟨r.1, by rw [Set.call, hr]; rfl, hv⟩
  | abortWait num ch => exact s.abortWait_valid hs hfit num hc ch
  | removeID => exact ⟨s.destroy, rfl, s.destroy_valid hs hfit |>.1, s.destroy_valid hs hfit |>.2,
      rfl⟩

/-- A run keeps the invariant, given room for a waiter per call. -/
theorem Set.run_valid {s : Set} (hs : s.Valid) (checkPerms : PermMask → Bool) {calls : List Call}
    (hcalls : ∀ c ∈ calls, c.Allowed s.sems.length) {fuel : ℕ} (hfit : s.Fits fuel calls.length) :
    ∃ t, s.run fuel checkPerms calls = some t ∧ t.Valid := by
  induction calls generalizing s with
  | nil => exact ⟨s, rfl, hs⟩
  | cons c cs ih =>
    obtain ⟨t, ht, htv, htf, hlen⟩ := s.call_valid hs hfit checkPerms (hcalls c List.mem_cons_self)
    obtain ⟨u, hu, huv⟩ := ih htv (fun c' hc' => hlen ▸ hcalls c' (List.mem_cons_of_mem _ hc')) htf
    exact ⟨u, by rw [Set.run, ht, Option.bind_some, hu], huv⟩

end ContainerFS.Semaphore
