import Mathlib.Tactic.Common
import Mathlib.Tactic.Push
import Mathlib.Order.Nat
import SqlDbPlugin.Lib.Machine

/-!
# Endless runs and what fairness makes of them

A `Behaviour` is an endless run of a machine; it may stutter, so a run that
has come to rest is one too (`Behaviour.ofRun`). A thread is a set of
labels. A behaviour is weakly fair to a thread that is not kept waiting
although it could always go on, and strongly fair to one that is not kept
waiting although it could go on again and again.

`LeadsTo P Q` says that whenever `P` holds, `Q` does, then or later. It is
proved from what single steps do: `LeadsTo.of_stronglyFair` for one thread
and a rank that its steps lower and no other step raises, and
`LeadsTo.of_weaklyFair` for a thread that is not held up.
-/

namespace SqlDb.Machine

variable {σ ι : Type*} {M : Machine σ ι} {ok ok' : ι → σ → Prop}

theorem Reach.mono (hok : ∀ a s, ok a s → ok' a s) {s : σ} (h : M.Reach ok s) : M.Reach ok' s := by
  induction h with
  | init => exact .init
  | step _ ha hs ih => exact .step ih (hok _ _ ha) hs

/-- An endless run whose steps all meet `ok`. Where the label is `none`, nothing happens. -/
structure Behaviour (M : Machine σ ι) (ok : ι → σ → Prop) where
  state : Nat → σ
  label : Nat → Option ι
  init : state 0 = M.init
  stutter : ∀ n, label n = none → state (n + 1) = state n
  step : ∀ n a, label n = some a → ok a (state n) ∧ M.step a (state n) = some (state (n + 1))

/-- A step of the thread `T` can be taken. -/
def Enabled (M : Machine σ ι) (ok : ι → σ → Prop) (T : ι → Prop) (s : σ) : Prop :=
  ∃ a s', T a ∧ ok a s ∧ M.step a s = some s'

namespace Behaviour

variable (ρ : M.Behaviour ok)

/-- The step at `n` is one of the thread `T`. -/
def Takes (T : ι → Prop) (n : Nat) : Prop := ∃ a, T a ∧ ρ.label n = some a

/-- A thread that can always go on from some time on does so. -/
def WeaklyFair (T : ι → Prop) : Prop :=
  ∀ n, (∀ m ≥ n, M.Enabled ok T (ρ.state m)) → ∃ m ≥ n, ρ.Takes T m

/-- A thread that can go on again and again does so. -/
def StronglyFair (T : ι → Prop) : Prop :=
  ∀ n, (∀ k ≥ n, ∃ m ≥ k, M.Enabled ok T (ρ.state m)) → ∃ m ≥ n, ρ.Takes T m

/-- Whenever `P` holds, `Q` holds then or later. -/
def LeadsTo (P Q : σ → Prop) : Prop := ∀ n, P (ρ.state n) → ∃ m ≥ n, Q (ρ.state m)

variable {ρ} {T : ι → Prop} {P P' Q Q' R : σ → Prop}

theorem StronglyFair.weaklyFair (h : ρ.StronglyFair T) : ρ.WeaklyFair T :=
  fun n hn => h n fun k hk => ⟨k, Nat.le_refl k, hn k hk⟩

theorem reach (n : Nat) : M.Reach ok (ρ.state n) := by
  induction n with
  | zero => rw [ρ.init]; exact .init
  | succ n ih =>
    cases hl : ρ.label n with
    | none => rw [ρ.stutter n hl]; exact ih
    | some a =>
      obtain ⟨ha, hs⟩ := ρ.step n a hl
      exact .step ih ha hs

/-- What every step keeps, the behaviour keeps. -/
theorem keeps {n : Nat} (h : P (ρ.state n))
    (hstep : ∀ m ≥ n, ∀ a, P (ρ.state m) → ok a (ρ.state m) →
      M.step a (ρ.state m) = some (ρ.state (m + 1)) → P (ρ.state (m + 1))) :
    ∀ m ≥ n, P (ρ.state m) := by
  intro m hm
  induction m, hm using Nat.le_induction with
  | base => exact h
  | succ m hm ih =>
    cases hl : ρ.label m with
    | none => rw [ρ.stutter m hl]; exact ih
    | some a =>
      obtain ⟨ha, hs⟩ := ρ.step m a hl
      exact hstep m hm a ih ha hs

namespace LeadsTo

theorem mono (h : ρ.LeadsTo P Q) (hP : ∀ n, P' (ρ.state n) → P (ρ.state n))
    (hQ : ∀ n, Q (ρ.state n) → Q' (ρ.state n)) : ρ.LeadsTo P' Q' := by
  intro n hn
  obtain ⟨m, hm, hq⟩ := h n (hP n hn)
  exact ⟨m, hm, hQ m hq⟩

theorem trans (h : ρ.LeadsTo P Q) (h' : ρ.LeadsTo Q R) : ρ.LeadsTo P R := by
  intro n hn
  obtain ⟨m, hm, hq⟩ := h n hn
  obtain ⟨k, hk, hr⟩ := h' m hq
  exact ⟨k, Nat.le_trans hm hk, hr⟩

/-- A rank that is lowered as long as `Q` does not hold. -/
theorem rank (r : σ → Nat)
    (h : ∀ k, ρ.LeadsTo (fun s => P s ∧ r s = k) fun s => Q s ∨ P s ∧ r s < k) : ρ.LeadsTo P Q := by
  have hrank : ∀ k n, r (ρ.state n) = k → P (ρ.state n) → ∃ m ≥ n, Q (ρ.state m) := by
    intro k
    induction k using Nat.strong_induction_on with
    | h k ih =>
      intro n hk hn
      obtain ⟨m, hm, hq | ⟨hp, hr⟩⟩ := h k n ⟨hn, hk⟩
      · exact ⟨m, hm, hq⟩
      · obtain ⟨m', hm', hq⟩ := ih _ hr m rfl hp
        exact ⟨m', Nat.le_trans hm hm', hq⟩
  exact fun n hn => hrank _ n rfl hn

/-- A thread that takes a step again and again as long as `P` holds and `Q`
does not, whose steps lower a rank that no step raises. -/
theorem of_takes (r : σ → Nat)
    (hstep : ∀ a s s', M.Reach ok s → P s → ¬ Q s → ok a s → M.step a s = some s' →
      Q s' ∨ P s' ∧ r s' ≤ r s ∧ (T a → r s' < r s))
    (ht : ∀ n, (∀ m ≥ n, P (ρ.state m) ∧ ¬ Q (ρ.state m)) → ∃ m ≥ n, ρ.Takes T m) : ρ.LeadsTo P Q := by
  refine rank r fun k n hn => ?_
  by_contra hnot
  push Not at hnot
  have hne (m : Nat) (hm : m ≥ n) : ¬ Q (ρ.state m) := fun hq => (hnot m hm).1 hq
  have hkeep : ∀ m ≥ n, P (ρ.state m) ∧ r (ρ.state m) = k := by
    refine keeps (P := fun s => P s ∧ r s = k) hn fun m hm a hp ha hs => ?_
    obtain hq | ⟨hp', hle, -⟩ := hstep a _ _ (reach m) hp.1 (hne m hm) ha hs
    · exact absurd hq (hne (m + 1) (Nat.le_succ_of_le hm))
    · exact ⟨hp', Nat.le_antisymm (hp.2 ▸ hle) ((hnot (m + 1) (Nat.le_succ_of_le hm)).2 hp')⟩
  obtain ⟨m, hm, a, hT, hl⟩ := ht n fun m hm => ⟨(hkeep m hm).1, hne m hm⟩
  obtain ⟨ha, hs⟩ := ρ.step m a hl
  obtain hq | ⟨-, -, hlt⟩ := hstep a _ _ (reach m) (hkeep m hm).1 (hne m hm) ha hs
  · exact hne (m + 1) (Nat.le_succ_of_le hm) hq
  · have hlow := hlt hT
    rw [(hkeep m hm).2, (hkeep (m + 1) (Nat.le_succ_of_le hm)).2] at hlow
    exact Nat.lt_irrefl k hlow

/-- A strongly fair thread that can go on again and again as long as `P` holds and `Q` does not. -/
theorem of_stronglyFair (hf : ρ.StronglyFair T) (r : σ → Nat)
    (hstep : ∀ a s s', M.Reach ok s → P s → ¬ Q s → ok a s → M.step a s = some s' →
      Q s' ∨ P s' ∧ r s' ≤ r s ∧ (T a → r s' < r s))
    (hen : ρ.LeadsTo P fun s => Q s ∨ M.Enabled ok T s) : ρ.LeadsTo P Q := by
  refine of_takes r hstep fun n hn => hf n fun k hk => ?_
  obtain ⟨m, hm, hq | he⟩ := hen k (hn k hk).1
  · exact absurd hq (hn m (Nat.le_trans hk hm)).2
  · exact ⟨m, hm, he⟩

/-- A weakly fair thread that can go on as long as `P` holds and `Q` does not. -/
theorem of_weaklyFair (hf : ρ.WeaklyFair T) (r : σ → Nat)
    (hstep : ∀ a s s', M.Reach ok s → P s → ¬ Q s → ok a s → M.step a s = some s' →
      Q s' ∨ P s' ∧ r s' ≤ r s ∧ (T a → r s' < r s))
    (hen : ∀ s, M.Reach ok s → P s → ¬ Q s → M.Enabled ok T s) : ρ.LeadsTo P Q :=
  of_takes r hstep fun n hn => hf n fun m hm => hen _ (reach m) (hn m hm).1 (hn m hm).2

end LeadsTo

end Behaviour

/-! ## Runs that come to rest -/

variable [∀ a s, Decidable (ok a s)]

theorem run_append (as bs : List ι) (s : σ) :
    M.run ok (as ++ bs) s = (M.run ok as s).bind (M.run ok bs) := by
  induction as generalizing s with
  | nil => rfl
  | cons a as ih =>
    simp only [List.cons_append, run]
    split
    · cases M.step a s with
      | none => rfl
      | some s₁ => exact ih s₁
    · rfl

theorem run_take {as : List ι} {s : σ} (h : M.run ok as M.init = some s) (n : Nat) :
    ∃ s', M.run ok (as.take n) M.init = some s' := by
  rw [← List.take_append_drop n as, run_append] at h
  obtain ⟨s', hs', -⟩ := Option.bind_eq_some_iff.mp h
  exact ⟨s', hs'⟩

/-- The behaviour that takes the steps `as` and then rests in `s`. -/
def Behaviour.ofRun (as : List ι) {s : σ} (h : M.run ok as M.init = some s) : M.Behaviour ok where
  state n := (M.run ok (as.take n) M.init).getD s
  label n := as[n]?
  init := rfl
  stutter n hn := by
    have hlen : as.length ≤ n := List.getElem?_eq_none_iff.mp hn
    rw [List.take_of_length_le hlen, List.take_of_length_le (Nat.le_succ_of_le hlen)]
  step n a hn := by
    obtain ⟨s₁, h₁⟩ := run_take h n
    obtain ⟨s₂, h₂⟩ := run_take h (n + 1)
    obtain ⟨hlt, rfl⟩ := List.getElem?_eq_some_iff.mp hn
    have hstep := h₂
    rw [List.take_succ_eq_append_getElem hlt, run_append, h₁, Option.bind_some, run_cons_eq_some] at hstep
    obtain ⟨ha, s', hs', hr⟩ := hstep
    cases hr
    simp only [h₁, h₂, Option.getD_some]
    exact ⟨ha, hs'⟩

namespace Behaviour

variable {as : List ι} {s : σ} (h : M.run ok as M.init = some s)

theorem ofRun_state {n : Nat} (hn : as.length ≤ n) : (ofRun as h).state n = s := by
  simp [ofRun, List.take_of_length_le hn, h]

theorem ofRun_state_left (as : List ι) {bs : List ι} (h : M.run ok (as ++ bs) M.init = some s) {s₁ : σ}
    (h₁ : M.run ok as M.init = some s₁) : (ofRun (as ++ bs) h).state as.length = s₁ := by
  simp [ofRun, h₁]

/-- A behaviour is fair to a thread that cannot go on where it rests. -/
theorem ofRun_stronglyFair {T : ι → Prop} (hT : ¬ M.Enabled ok T s) : (ofRun as h).StronglyFair T := by
  intro n hn
  obtain ⟨m, hm, he⟩ := hn (max n as.length) (Nat.le_max_left ..)
  rw [ofRun_state h (Nat.le_trans (Nat.le_max_right ..) hm)] at he
  exact absurd he hT

end Behaviour

end SqlDb.Machine
