import Mathlib.Order.Basic
import Mathlib.Tactic.Push

/-!
Infinite runs of a labelled transition system and weak fairness. A run is a sequence of
states and labels with each consecutive pair related by one transition. An action is weakly
fair when it cannot stay enabled from some time on without occurring.

The rule the liveness proofs need is `WeakFair.exists_occurs`: a condition that keeps a fair
action enabled, and that nothing but the action ends, is still true at some time the action
occurs. `exists_step_becomes` finds the step at which a property of the run first turns true.
-/

namespace ContainerFS.Fairness

variable {σ α : Type}

/-- A run of `step` through the states `tr` by the labels `act`. -/
def IsRun (step : σ → α → σ → Prop) (tr : ℕ → σ) (act : ℕ → α) : Prop :=
  ∀ t, step (tr t) (act t) (tr (t + 1))

/-- Weak fairness: an action enabled at every time from `start` on occurs at some time from
`start` on. -/
def WeakFair (enabled occurs : ℕ → Prop) : Prop :=
  ∀ start, (∀ t, start ≤ t → enabled t) → ∃ t, start ≤ t ∧ occurs t

/-- A property of the initial state that every transition keeps holds along a run. -/
theorem IsRun.invariant {step : σ → α → σ → Prop} {tr : ℕ → σ} {act : ℕ → α}
    (hrun : IsRun step tr act) {inv : σ → Prop} (h0 : inv (tr 0))
    (hstep : ∀ s a s', inv s → step s a s' → inv s') (t : ℕ) : inv (tr t) := by
  induction t with
  | zero => exact h0
  | succ t ih => exact hstep _ _ _ ih (hrun t)

/-- A condition that keeps a weakly fair action enabled, and that only the action can end,
holds at a time the action occurs. -/
theorem WeakFair.exists_occurs {p enabled occurs : ℕ → Prop} {start : ℕ}
    (fair : WeakFair enabled occurs)
    (stay : ∀ t, start ≤ t → p t → ¬occurs t → p (t + 1))
    (enable : ∀ t, start ≤ t → p t → enabled t) (hp : p start) :
    ∃ t, start ≤ t ∧ p t ∧ occurs t := by
  by_contra hnone
  push Not at hnone
  -- without an occurrence the condition lasts for ever, so the action stays enabled
  have hlast : ∀ d, p (start + d) := by
    intro d
    induction d with
    | zero => exact hp
    | succ d ih =>
      exact stay _ (Nat.le_add_right _ _) ih (hnone _ (Nat.le_add_right _ _) ih)
  have hall : ∀ t, start ≤ t → p t := by
    intro t ht
    obtain ⟨d, rfl⟩ := Nat.exists_eq_add_of_le ht
    exact hlast d
  obtain ⟨t, ht, hocc⟩ := fair start fun t ht => enable t ht (hall t ht)
  exact hnone t ht (hall t ht) hocc

/-- A property false at `t` and true at `t'` becomes true across one step in between. -/
theorem exists_step_becomes {P : ℕ → Prop} {t t' : ℕ} (hle : t ≤ t') (h0 : ¬P t)
    (h1 : P t') : ∃ s, t ≤ s ∧ ¬P s ∧ P (s + 1) := by
  induction hle with
  | refl => exact absurd h1 h0
  | @step k hk ih =>
    by_cases hPk : P k
    · exact ih hPk
    · exact ⟨k, hk, hPk, h1⟩

end ContainerFS.Fairness
