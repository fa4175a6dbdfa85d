import ContainerFS.Lib.Fairness
import ContainerFS.Tmutex.Mutex

/-!
No lost wake-up for `tmutex.Mutex`. A run is an infinite interleaving of `step`s from `Init`;
it is fair when each goroutine takes a step inside a call that stays enabled (the scheduler
runs every runnable goroutine). In a fair run a goroutine inside `Lock` is followed by an
acquisition. Were there none, `v` would stay 1, a goroutine at the swap or the load would take
the mutex, so every goroutine inside `Lock` would block on the channel; the channel would stay
empty, and `Inv.wake` would leave an `Unlock` about to fill it.

`tmutex_correct` collects what the mutex guarantees with at most `2^31` goroutines, the most for
which `v` cannot wrap, and `tmutex_incorrect_many` shows that it fails with `2^32 + 1` of them.
-/

namespace ContainerFS.Tmutex

open Fairness

variable {n : ℕ}

/-- One step of one goroutine: the transitions of an interleaving. -/
def Moves (m : Mutex n) (ga : Fin n × Op) (m' : Mutex n) : Prop :=
  ∃ o, step m ga.1 ga.2 = some (m', o)

/-- A run from `Init` in which every goroutine's steps inside a call are weakly fair. -/
structure FairRun (tr : ℕ → Mutex n) (act : ℕ → Fin n × Op) : Prop where
  run : IsRun Moves tr act
  start : tr 0 = init n
  fair : ∀ g, WeakFair (fun t => (step (tr t) g .next).isSome) (fun t => act t = (g, .next))

namespace FairRun

variable {tr : ℕ → Mutex n} {act : ℕ → Fin n × Op}

theorem reachable (hr : FairRun tr act) (t : ℕ) : Reachable (tr t) := by
  have h0 : Reachable (tr 0) := by
    rw [hr.start]
    exact .init
  exact hr.run.invariant h0 (fun _ _ _ hs hm => hm.elim fun _ h => .step hs h) t

/-- A goroutine inside a call keeps its place across a step that is not its own `next`. -/
theorem pc_stays (hr : FairRun tr act) {s : ℕ} {g : Fin n} (hidle : (tr s).pc g ≠ .idle)
    (hholds : (tr s).pc g ≠ .holds) (hact : act s ≠ (g, .next)) :
    (tr (s + 1)).pc g = (tr s).pc g := by
  obtain ⟨o, ho⟩ := hr.run s
  exact step_pc_of_busy ho hidle hholds hact

/-! From here on nobody holds the mutex from time `t` on; each lemma derives `False` from a
goroutine at one place of `Lock` or `Unlock`, using the places handled before it. -/

section NoHolder

variable (hn : n ≤ 2 ^ 31) (hr : FairRun tr act) {t : ℕ}
  (hfree : ∀ s, t ≤ s → ∀ h, (tr s).pc h ≠ .holds)
include hn hr hfree

theorem v_eq_one {s : ℕ} (hs : t ≤ s) : (tr s).v.toInt = 1 := by
  by_contra hv
  obtain ⟨h, hh⟩ := ((hr.reachable s).inv hn).exists_holds hv
  exact hfree s hs h hh

/-- A goroutine at `Lock`'s swap takes the mutex when its turn comes. -/
theorem not_lockSwap {s : ℕ} (hs : t ≤ s) {g : Fin n} (hpc : (tr s).pc g = .lockSwap) :
    False := by
  obtain ⟨s', hs', hp, hocc⟩ := (hr.fair g).exists_occurs
    (p := fun s => (tr s).pc g = .lockSwap)
    (fun s _ hp hocc => by rw [hr.pc_stays (by simp [hp]) (by simp [hp]) hocc]; exact hp)
    (fun s _ hp => isSome_step_next (.inr (.inl hp))) hpc
  obtain ⟨o, ho⟩ := hr.run s'
  rw [hocc] at ho
  exact hfree (s' + 1) (by omega) g
    (step_next_lockSwap ho hp (v_eq_one hn hr hfree (by omega)))

/-- A goroutine at `Lock`'s load sees `v = 1` and goes on to the swap. -/
theorem not_lockLoad {s : ℕ} (hs : t ≤ s) {g : Fin n} (hpc : (tr s).pc g = .lockLoad) :
    False := by
  obtain ⟨s', hs', hp, hocc⟩ := (hr.fair g).exists_occurs
    (p := fun s => (tr s).pc g = .lockLoad)
    (fun s _ hp hocc => by rw [hr.pc_stays (by simp [hp]) (by simp [hp]) hocc]; exact hp)
    (fun s _ hp => isSome_step_next (.inl hp)) hpc
  obtain ⟨o, ho⟩ := hr.run s'
  rw [hocc] at ho
  have hv := v_eq_one hn hr hfree (s := s') (by omega)
  exact not_lockSwap hn hr hfree (s := s' + 1) (by omega) (step_next_lockLoad ho hp (by omega))

/-- A waiter with the token in the channel receives it (or another waiter does) and loads
`v` again. -/
theorem not_lockWait_token {s : ℕ} (hs : t ≤ s) {g : Fin n} (hpc : (tr s).pc g = .lockWait)
    (htok : (tr s).token = true) : False := by
  -- the token stays in the channel: a waiter that takes it goes to the load
  have hkeep : ∀ s', t ≤ s' → (tr s').token = true → (tr (s' + 1)).token = true := by
    intro s' hs' ht
    obtain ⟨o, ho⟩ := hr.run s'
    by_contra ht'
    exact not_lockLoad hn hr hfree (s := s' + 1) (by omega)
      (step_token_taken ho ht (by simpa using ht'))
  obtain ⟨s', hs', ⟨hp, ht⟩, hocc⟩ := (hr.fair g).exists_occurs
    (p := fun s => (tr s).pc g = .lockWait ∧ (tr s).token = true)
    (fun s hs hp hocc =>
      ⟨by rw [hr.pc_stays (by simp [hp.1]) (by simp [hp.1]) hocc]; exact hp.1,
        hkeep s (by omega) hp.2⟩)
    (fun s _ hp => isSome_step_next (.inr (.inr (.inr hp)))) ⟨hpc, htok⟩
  obtain ⟨o, ho⟩ := hr.run s'
  rw [hocc] at ho
  exact not_lockLoad hn hr hfree (s := s' + 1) (by omega) (step_next_lockWait ho hp).2

/-- A waiter stays blocked on the channel for ever, and the channel stays empty. -/
theorem lockWait_forever {s : ℕ} (hs : t ≤ s) {g : Fin n} (hpc : (tr s).pc g = .lockWait)
    (d : ℕ) : (tr (s + d)).pc g = .lockWait ∧ (tr (s + d)).token = false := by
  have hwait : ∀ d, (tr (s + d)).pc g = .lockWait := by
    intro d
    induction d with
    | zero => exact hpc
    | succ d ih =>
      obtain ⟨o, ho⟩ := hr.run (s + d)
      rcases step_lockWait ho ih with h | h
      · exact h
      · exact (not_lockLoad hn hr hfree (s := s + d + 1) (by omega) h).elim
  refine ⟨hwait d, ?_⟩
  cases ht : (tr (s + d)).token
  · rfl
  · exact (not_lockWait_token hn hr hfree (s := s + d) (by omega) (hwait d) ht).elim

/-- `Unlock`'s send fills the channel that `lockWait_forever` keeps empty. -/
theorem not_unlockWake {s : ℕ} (hs : t ≤ s) {g h : Fin n} (hg : (tr s).pc g = .lockWait)
    (hpc : (tr s).pc h = .unlockWake) : False := by
  obtain ⟨s', hs', hp, hocc⟩ := (hr.fair h).exists_occurs
    (p := fun s => (tr s).pc h = .unlockWake)
    (fun s _ hp hocc => by rw [hr.pc_stays (by simp [hp]) (by simp [hp]) hocc]; exact hp)
    (fun s _ hp => isSome_step_next (.inr (.inr (.inl hp)))) hpc
  obtain ⟨o, ho⟩ := hr.run s'
  rw [hocc] at ho
  obtain ⟨d, rfl⟩ := Nat.exists_eq_add_of_le hs'
  have hempty := (lockWait_forever hn hr hfree hs hg (d + 1)).2
  rw [← Nat.add_assoc, step_next_unlockWake ho hp] at hempty
  cases hempty

/-- A waiter blocked on the channel: `Inv.wake` names a goroutine that cannot block, and each
place it can be at has been ruled out. -/
theorem not_lockWait {s : ℕ} (hs : t ≤ s) {g : Fin n} (hpc : (tr s).pc g = .lockWait) :
    False := by
  have hi := (hr.reachable s).inv hn
  have hw : 0 < countAt (tr s).pc Pc.isWait :=
    (countAt_pos_iff _ _).mpr ⟨g, by simp [hpc, Pc.isWait]⟩
  have htok := (lockWait_forever hn hr hfree hs hpc 0).2
  have hv := v_eq_one hn hr hfree hs
  rcases hi.wake hw htok with hneg | hact
  · omega
  obtain ⟨h, hh⟩ := (countAt_pos_iff _ _).mp hact
  cases hph : (tr s).pc h <;> simp [hph, Pc.active] at hh
  · exact not_lockLoad hn hr hfree hs hph
  · exact not_lockSwap hn hr hfree hs hph
  · exact not_unlockWake hn hr hfree hs hpc hph

end NoHolder

/-- No lost wake-up: after a time at which the mutex is free and a goroutine is inside `Lock`,
some step acquires the mutex. -/
theorem exists_acquired (hn : n ≤ 2 ^ 31) (hr : FairRun tr act) {t : ℕ} {g : Fin n}
    (hg : ((tr t).pc g).inLock) (hfree : ∀ h, (tr t).pc h ≠ .holds) :
    ∃ t', t ≤ t' ∧ step (tr t') (act t').1 (act t').2 = some (tr (t' + 1), .acquired) := by
  have hheld : ∃ s, t ≤ s ∧ ∃ h, (tr s).pc h = .holds := by
    by_contra hno
    push Not at hno
    cases hpc : (tr t).pc g <;> simp [hpc, Pc.inLock] at hg
    · exact hr.not_lockLoad hn hno le_rfl hpc
    · exact hr.not_lockSwap hn hno le_rfl hpc
    · exact hr.not_lockWait hn hno le_rfl hpc
  obtain ⟨s, hts, hheld⟩ := hheld
  -- the first step after `t` that leaves some goroutine holding the mutex
  obtain ⟨s', hs', hno, ⟨h, hh⟩⟩ :=
    exists_step_becomes (P := fun s => ∃ h, (tr s).pc h = .holds) hts (fun hex => hex.elim hfree)
      hheld
  obtain ⟨o, ho⟩ := hr.run s'
  have hact : (act s').1 = h := by
    by_contra hne
    rw [step_pc_of_ne ho (Ne.symm hne)] at hh
    exact hno ⟨h, hh⟩
  subst hact
  have hacq := step_outcome_of_holds ho (fun e => hno ⟨_, e⟩) hh
  exact ⟨s', hs', hacq ▸ ho⟩

end FairRun

/-- What `tmutex.Mutex` promises to `n` goroutines: mutual exclusion; `Lock` and `TryLock`
return holding the mutex only after taking it from nobody; `TryLock` returns `false` only while
another goroutine holds it; and under fair scheduling no wake-up is lost. -/
structure IsCorrectMutex (n : ℕ) : Prop where
  mutual_exclusion : ∀ m : Mutex n, Reachable m → ∀ g h, m.pc g = .holds → m.pc h = .holds →
    g = h
  acquired_holds : ∀ (m m' : Mutex n) g op, Reachable m → step m g op = some (m', .acquired) →
    m'.pc g = .holds ∧ ∀ h, m.pc h ≠ .holds
  tryLock_failed_held : ∀ (m m' : Mutex n) g op, Reachable m →
    step m g op = some (m', .tryLockFailed) → ∃ h, h ≠ g ∧ m.pc h = .holds
  no_lost_wakeup : ∀ (tr : ℕ → Mutex n) (act : ℕ → Fin n × Op), FairRun tr act →
    ∀ t g, ((tr t).pc g).inLock →
    (∀ h, (tr t).pc h ≠ .holds) →
    ∃ t', t ≤ t' ∧ step (tr t') (act t').1 (act t').2 = some (tr (t' + 1), .acquired)

/-- An acquiring step starts from a mutex nobody holds. -/
theorem Inv.not_holds_of_acquired {m m' : Mutex n} {g : Fin n} {op : Op} (hi' : Inv m')
    (h : step m g op = some (m', .acquired)) (g' : Fin n) : m.pc g' ≠ .holds := by
  intro hg'
  by_cases hne : g' = g
  · exact step_acquired_not_holds h (hne ▸ hg')
  · rw [← step_pc_of_ne h hne] at hg'
    exact hne (hi'.eq_of_holds hg' (step_acquired h))

/-- The mutex is correct with at most `2^31` goroutines. That is the most for which `v` never
wraps, which `Inv.bound` records: with one more, a holder that took the mutex by the swap leaves
`v = -1` and the other `2^31` lockers take it below `MinInt32`. A wrapped `v` does not break the
mutex at once, as a positive `v` other than 1 only sends lockers to the channel; it breaks once the
decrements bring `v` back to 1 while the mutex is held, which takes some `2^32` lockers
(`tmutex_incorrect_many`). Between the two bounds the proof would need an invariant on `v` modulo
`2^32`, which this development does not state. -/
theorem tmutex_correct (hn : n ≤ 2 ^ 31) : IsCorrectMutex n where
  mutual_exclusion _ hr _ _ hg hh := (hr.inv hn).eq_of_holds hg hh
  acquired_holds _ _ _ _ hr h :=
    ⟨step_acquired h, ((hr.step h).inv hn).not_holds_of_acquired h⟩
  tryLock_failed_held _ _ _ _ hr h := (hr.inv hn).exists_holds_of_tryLockFailed h
  no_lost_wakeup _ _ hrun _ _ hg hfree := hrun.exists_acquired hn hg hfree

theorem tmutex_correct_two : (2 : ℕ) ≤ 2 ^ 31 ∧ IsCorrectMutex 2 :=
  ⟨by decide, tmutex_correct (by decide)⟩

/-- With `2^32 + 1` goroutines `Lock`'s `AddInt32(&m.v, -1)` wraps and two goroutines hold the
mutex. -/
theorem tmutex_incorrect_many : ¬IsCorrectMutex (2 ^ 32 + 1) := by
  intro hc
  obtain ⟨m, hr, h0, hlast⟩ := two_holders
  have := hc.mutual_exclusion m hr 0 (Fin.last _) h0 hlast
  exact absurd this (by decide)

end ContainerFS.Tmutex
