import Mathlib.Data.Option.Basic

/-!
# Transition systems

A machine has an initial state and steps that are functions of a label: the
label carries every choice that is not the machine's own (which thread runs,
what a call into another component does), and a label that cannot be taken
in a state has no successor. `Reach ok` is every state of a run whose steps
all meet `ok`, a condition on the label and on the state before the step;
`Reachable` drops the condition. Invariants are proved once and for all by
`Reach.inv` (an inductive invariant) and `Reach.inv_of` (one that needs
another already proved). `run` executes a list of labels, and
`reach_of_run` turns such an execution into a state reached.
-/

namespace SqlDb

/-- A deterministic labelled transition system. -/
structure Machine (σ ι : Type*) where
  init : σ
  step : ι → σ → Option σ

namespace Machine

variable {σ ι : Type*} {M : Machine σ ι} {ok : ι → σ → Prop}

/-- The states of the runs whose steps all meet `ok`. -/
inductive Reach (M : Machine σ ι) (ok : ι → σ → Prop) : σ → Prop
  | init : Reach M ok M.init
  | step {a : ι} {s s' : σ} : Reach M ok s → ok a s → M.step a s = some s' → Reach M ok s'

/-- The states of all runs. -/
abbrev Reachable (M : Machine σ ι) : σ → Prop := M.Reach fun _ _ => True

theorem Reach.inv {I : σ → Prop} (h₀ : I M.init)
    (h₁ : ∀ a s s', I s → ok a s → M.step a s = some s' → I s') {s : σ} (h : M.Reach ok s) : I s := by
  induction h with
  | init => exact h₀
  | step _ ha hs ih => exact h₁ _ _ _ ih ha hs

/-- An invariant `I` whose steps may use another invariant `J`. -/
theorem Reach.inv_of {I J : σ → Prop} (hJ : ∀ s, M.Reach ok s → J s) (h₀ : I M.init)
    (h₁ : ∀ a s s', J s → I s → ok a s → M.step a s = some s' → I s') {s : σ}
    (h : M.Reach ok s) : I s := by
  induction h with
  | init => exact h₀
  | step hr ha hs ih => exact h₁ _ _ _ (hJ _ hr) ih ha hs

/-- Runs a list of labels, whose steps must all meet `ok`. -/
def run (M : Machine σ ι) (ok : ι → σ → Prop) [∀ a s, Decidable (ok a s)] : List ι → σ → Option σ
  | [], s => some s
  | a :: as, s => if ok a s then (M.step a s).bind (M.run ok as) else none

variable [∀ a s, Decidable (ok a s)]

theorem run_cons_eq_some {a : ι} {as : List ι} {s s' : σ} :
    M.run ok (a :: as) s = some s' ↔ ok a s ∧ ∃ s₁, M.step a s = some s₁ ∧ M.run ok as s₁ = some s' := by
  simp [run, Option.bind_eq_some_iff]

theorem reach_of_run_from {as : List ι} {s s' : σ} (hs : M.Reach ok s)
    (h : M.run ok as s = some s') : M.Reach ok s' := by
  induction as generalizing s with
  | nil => cases h; exact hs
  | cons a as ih =>
    obtain ⟨ha, s₁, h₁, h₂⟩ := run_cons_eq_some.mp h
    exact ih (.step hs ha h₁) h₂

variable (ok) in
/-- A state that satisfies a decidable property after the labels `as` is reached. -/
theorem reach_of_run {p : σ → Bool} (as : List ι) (h : (M.run ok as M.init).any p = true) :
    ∃ s, M.Reach ok s ∧ p s = true := by
  cases hr : M.run ok as M.init with
  | none => simp [hr] at h
  | some s => exact ⟨s, reach_of_run_from .init hr, by simpa [hr] using h⟩

end Machine

end SqlDb
