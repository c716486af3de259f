import SqlDbPlugin.Lib.Temporal

/-!
# Refinement of machines

`Refines` is refinement by an abstraction function: each step of a machine
is a step of the abstract one, whose label `obs` tells, or leaves the
abstract state as it is. What holds of every state the abstract machine
reaches holds of the states of the refined one (`Refines.reach`), and its
endless runs are endless runs of the abstract machine
(`Refines.behaviour`), with the fairness they have
(`Refines.stronglyFair`): a thread may take steps that are not seen as steps
of the abstract one, as long as they come to an end.
-/

namespace SqlDb.Machine

variable {σ ι τ κ : Type*} {M : Machine σ ι} {A : Machine τ κ} {ok : ι → σ → Prop} {okA : κ → τ → Prop}
  {abs : σ → τ} {obs : ι → σ → Option κ}

/-- The runs of `M` whose steps meet `ok` are, seen through `abs`, runs of `A` whose steps meet `okA`. -/
structure Refines (M : Machine σ ι) (ok : ι → σ → Prop) (A : Machine τ κ) (okA : κ → τ → Prop)
    (abs : σ → τ) (obs : ι → σ → Option κ) : Prop where
  init : abs M.init = A.init
  stutter {a : ι} {s s' : σ} : M.Reach ok s → ok a s → M.step a s = some s' → obs a s = none →
    abs s' = abs s
  step {a : ι} {s s' : σ} {b : κ} : M.Reach ok s → ok a s → M.step a s = some s' → obs a s = some b →
    okA b (abs s) ∧ A.step b (abs s) = some (abs s')

namespace Refines

variable (h : M.Refines ok A okA abs obs)
include h

theorem reach {s : σ} (hs : M.Reach ok s) : A.Reach okA (abs s) := by
  induction hs with
  | init => rw [h.init]; exact .init
  | @step a s s' hr ha hs ih =>
    cases ho : obs a s with
    | none => rw [h.stutter hr ha hs ho]; exact ih
    | some b =>
      obtain ⟨hb, hs'⟩ := h.step hr ha hs ho
      exact .step ih hb hs'

/-- The abstract behaviour of a behaviour. -/
def behaviour (ρ : M.Behaviour ok) : A.Behaviour okA where
  state n := abs (ρ.state n)
  label n := (ρ.label n).bind fun a => obs a (ρ.state n)
  init := by rw [ρ.init, h.init]
  stutter n hn := by
    cases hl : ρ.label n with
    | none => rw [ρ.stutter n hl]
    | some a =>
      obtain ⟨ha, hs⟩ := ρ.step n a hl
      rw [hl, Option.bind_some] at hn
      exact h.stutter (ρ.reach n) ha hs hn
  step n b hn := by
    obtain ⟨a, hl, ho⟩ := Option.bind_eq_some_iff.mp hn
    obtain ⟨ha, hs⟩ := ρ.step n a hl
    exact h.step (ρ.reach n) ha hs ho

variable {ρ : M.Behaviour ok} {T : ι → Prop} {T' : κ → Prop}

theorem takes {n : Nat} {a : ι} (hl : ρ.label n = some a) {b : κ} (ho : obs a (ρ.state n) = some b) (hb : T' b) :
    (h.behaviour ρ).Takes T' n :=
  ⟨b, hb, by simp only [behaviour, hl, Option.bind_some, ho]⟩

/-- Fairness to a thread is fairness to the thread it is seen as, if it can
go on wherever the other can, and if its steps that are not seen as steps of
the other lower a rank, which only those that are may raise. -/
theorem stronglyFair (rank : σ → Nat)
    (hstep : ∀ a s s', M.Reach ok s → ok a s → M.step a s = some s' →
      (∃ b, obs a s = some b ∧ T' b) ∨ rank s' ≤ rank s ∧ (T a → rank s' < rank s))
    (hen : ∀ s, M.Reach ok s → A.Enabled okA T' (abs s) → M.Enabled ok T s) (hf : ρ.StronglyFair T) :
    (h.behaviour ρ).StronglyFair T' := by
  intro n hn
  by_contra hno
  have hlow (m : Nat) (hm : m ≥ n) : rank (ρ.state (m + 1)) ≤ rank (ρ.state m) ∧
      (ρ.Takes T m → rank (ρ.state (m + 1)) < rank (ρ.state m)) := by
    cases hl : ρ.label m with
    | none =>
      rw [ρ.stutter m hl]
      refine ⟨Nat.le_refl _, ?_⟩
      rintro ⟨a, -, ha⟩
      cases hl.symm.trans ha
    | some a =>
      obtain ⟨ha, hs⟩ := ρ.step m a hl
      obtain ⟨b, ho, hb⟩ | ⟨hle, hlt⟩ := hstep a _ _ (ρ.reach m) ha hs
      · exact absurd ⟨m, hm, h.takes hl ho hb⟩ hno
      · refine ⟨hle, ?_⟩
        rintro ⟨a', hT, ha'⟩
        cases hl.symm.trans ha'
        exact hlt hT
  have hmono (k m : Nat) (hk : k ≥ n) (hm : m ≥ k) : rank (ρ.state m) ≤ rank (ρ.state k) := by
    induction m, hm using Nat.le_induction with
    | base => exact Nat.le_refl _
    | succ m hm ih => exact Nat.le_trans (hlow m (Nat.le_trans hk hm)).1 ih
  -- each step of the thread lowers the rank, and there is always one more
  have hend : ∀ r k, k ≥ n → rank (ρ.state k) = r → False := by
    intro r
    induction r using Nat.strong_induction_on with
    | h r ih =>
      intro k hk hr
      obtain ⟨m, hm, ht⟩ := hf k fun j hj => by
        obtain ⟨m, hm, he⟩ := hn j (Nat.le_trans hk hj)
        exact ⟨m, hm, hen _ (ρ.reach m) he⟩
      have hlt := Nat.lt_of_lt_of_le ((hlow m (Nat.le_trans hk hm)).2 ht) (hmono k m hk hm)
      exact ih _ (hr ▸ hlt) (m + 1) (Nat.le_succ_of_le (Nat.le_trans hk hm)) rfl
  exact hend _ n (Nat.le_refl n) rfl

end Refines

end SqlDb.Machine
