import Mathlib.Tactic.Common
import Mathlib.Data.List.Basic

/-!
# Programs over captured variables

The callbacks handed to a walk over some rows change the variables they
capture, and throw. What they have changed by then stays changed, so these
programs too are exceptions over state (`Captured`). `walk` calls a callback
on one row after the other until it returns false, and `declare` runs a
program with one more variable.

`Computes x s Q r` says that a run of `x` from `s` throws what `r` throws, or
returns what `Q` relates to the result of `r`, with a rule for each way to
build a program; `Computes.walk` takes an invariant of the captured
variables, and what the callback adds to a list among them. So a walk comes
down to `collect`, which has no variables, and returns if and only if the
callback does on each row it is called on (`collect_eq_ok_iff`).
-/

namespace SqlDb

variable {ε σ τ α β ρ : Type}

/-- Programs that change variables `σ` and may throw an `ε`. -/
abbrev Captured (ε σ : Type) := ExceptT ε (StateM σ)

namespace Captured

def run (x : Captured ε σ α) (s : σ) : Except ε α × σ := x s

@[simp] theorem run_pure (a : α) (s : σ) : run (pure a : Captured ε σ α) s = (.ok a, s) := rfl

theorem run_bind (x : Captured ε σ α) (f : α → Captured ε σ β) (s : σ) :
    run (x >>= f) s = match x.run s with
      | (.ok a, s') => (f a).run s'
      | (.error e, s') => (.error e, s') := by
  show (ExceptT.bindCont f (x s).1) (x s).2 = _
  unfold run
  rcases x s with ⟨_ | _, _⟩ <;> rfl

theorem run_bind_ok {x : Captured ε σ α} {f : α → Captured ε σ β} {s s' : σ} {a : α}
    (h : x.run s = (.ok a, s')) : run (x >>= f) s = (f a).run s' := by
  rw [run_bind, h]

theorem ok_bind (a : α) (f : α → Except ε β) : (Except.ok a >>= f) = f a := rfl

theorem bind_eq_ok {x : Except ε α} {f : α → Except ε β} {b : β} (h : x >>= f = .ok b) :
    ∃ a, x = .ok a ∧ f a = .ok b := by
  rcases x with e | a
  · cases h
  · exact ⟨a, rfl, h⟩

theorem map_eq_ok_iff {x : Except ε α} {f : α → β} {b : β} : x.map f = .ok b ↔ ∃ a, x = .ok a ∧ f a = b := by
  rcases x with e | a
  · exact ⟨fun h => (by cases h), fun ⟨_, h, _⟩ => (by cases h)⟩
  · simp only [Except.map, Except.ok.injEq, exists_eq_left']

theorem exists_ok_iff {x : Except ε α} : (∃ a, x = .ok a) ↔ ¬∃ e, x = .error e := by
  rcases x with e | a
  · exact ⟨fun ⟨_, h⟩ => (by cases h), fun h => absurd ⟨e, rfl⟩ h⟩
  · exact ⟨fun _ ⟨_, h⟩ => (by cases h), fun _ => ⟨a, rfl⟩⟩

theorem mem_toOption_toList {x : Except ε α} {a : α} : a ∈ x.toOption.toList ↔ x = .ok a := by
  rcases x with e | b
  · exact ⟨nofun, nofun⟩
  · rw [Option.mem_toList, Except.ok.injEq]
    exact Option.some_inj

theorem mem_toOption_getD {x : Except ε (List α)} {a : α} (h : a ∈ x.toOption.getD []) :
    ∃ as, x = .ok as ∧ a ∈ as := by
  rcases x with e | as
  · cases h
  · exact ⟨as, rfl, h⟩

/-- If `f` returns on every element, it has returned the results in their order. -/
theorem forall₂_of_mapM {f : α → Except ε β} {as : List α} {bs : List β} (h : as.mapM f = .ok bs) :
    List.Forall₂ (fun a b => f a = .ok b) as bs := by
  induction as generalizing bs with
  | nil =>
    cases h
    exact .nil
  | cons a as ih =>
    rw [List.mapM_cons] at h
    obtain ⟨b, hb, h⟩ := bind_eq_ok h
    obtain ⟨bs', hbs, h⟩ := bind_eq_ok h
    cases h
    exact .cons hb (ih hbs)

/-- Code that only computes, or throws. -/
def lift (x : Except ε α) : Captured ε σ α := fun s => (x, s)

@[simp] theorem run_lift (x : Except ε α) (s : σ) : run (lift x : Captured ε σ α) s = (x, s) := rfl

/-- An assignment to the variables. -/
def assign (f : σ → σ) : Captured ε σ Unit := fun s => (.ok (), f s)

/-- The values of the variables. -/
def read (f : σ → α) : Captured ε σ α := fun s => (.ok (f s), s)

/-- Runs `x`; a handler catches and logs whatever it throws. -/
def guarded (x : Captured ε σ Unit) : Captured ε σ Unit := fun s => (.ok (), (x.run s).2)

@[simp] theorem run_guarded (x : Captured ε σ Unit) (s : σ) :
    run (guarded x) s = (.ok (), (x.run s).2) := rfl

/-- Runs `x` with a further variable, which is `a` at first. -/
def declare (a : τ) (x : Captured ε (τ × σ) α) : Captured ε σ α := fun s =>
  ((x.run (a, s)).1, (x.run (a, s)).2.2)

theorem run_declare (a : τ) (x : Captured ε (τ × σ) α) (s : σ) :
    run (declare a x) s = ((x.run (a, s)).1, (x.run (a, s)).2.2) := rfl

/-- What a program that starts with the variables `s` leaves in them, if it returns. -/
def result (x : Captured ε σ α) (s : σ) : Except ε σ := (x.run s).1.map fun _ => (x.run s).2

/-! ## Loops -/

/-- Calls `f` on each element of a list, until a call throws. -/
def each (f : α → Captured ε σ Unit) : List α → Captured ε σ Unit
  | [] => pure ()
  | a :: as => do
    f a
    each f as

/-- Calls `f` on the rows until a call returns false. -/
def walk (f : ρ → Captured ε σ Bool) : List ρ → Captured ε σ Unit
  | [] => pure ()
  | row :: rows => do
    if ← f row then
      walk f rows

/-- The rows a walk calls its callback on, if that returns what `p` says. -/
def walked (p : ρ → Bool) : List ρ → List ρ
  | [] => []
  | row :: rows => row :: if p row then walked p rows else []

theorem mem_of_mem_walked {p : ρ → Bool} {row : ρ} {rows : List ρ} (h : row ∈ walked p rows) : row ∈ rows := by
  induction rows with
  | nil => exact h
  | cons r rows ih =>
    rw [walked] at h
    rcases List.mem_cons.mp h with rfl | h
    · exact List.mem_cons_self
    · split at h
      · exact List.mem_cons_of_mem r (ih h)
      · cases h

/-- A walk stops behind one row at most. -/
theorem eq_of_mem_walked {p : ρ → Bool} {a b : ρ} {rows : List ρ} (ha : a ∈ walked p rows)
    (hb : b ∈ walked p rows) (hpa : p a = false) (hpb : p b = false) : a = b := by
  induction rows with
  | nil => cases ha
  | cons row rows ih =>
    rw [walked] at ha hb
    by_cases hp : p row = true
    · rw [if_pos hp] at ha hb
      have hne {c : ρ} (hc : p c = false) : c ≠ row := fun h => by rw [h, hp] at hc; cases hc
      exact ih ((List.mem_cons.mp ha).resolve_left (hne hpa)) ((List.mem_cons.mp hb).resolve_left (hne hpb))
    · rw [if_neg hp] at ha hb
      rw [List.mem_singleton.mp ha, List.mem_singleton.mp hb]

theorem walked_of_true {p : ρ → Bool} {rows : List ρ} (h : ∀ row ∈ rows, p row = true) :
    walked p rows = rows := by
  induction rows with
  | nil => rfl
  | cons row rows ih =>
    rw [walked, if_pos (h row List.mem_cons_self), ih fun r hr => h r (List.mem_cons_of_mem row hr)]

/-- A walk stops at the only row for which it has something to add. -/
theorem flatMap_walked {p : ρ → Bool} {f : ρ → List α} (h : ∀ row, p row = true → f row = [])
    {rows : List ρ} (hone : rows.Pairwise fun a b => p a = true ∨ p b = true) :
    (walked p rows).flatMap f = rows.flatMap f := by
  induction rows with
  | nil => rfl
  | cons row rows ih =>
    obtain ⟨hrow, hone⟩ := List.pairwise_cons.mp hone
    rw [walked, List.flatMap_cons, List.flatMap_cons]
    by_cases hp : p row = true
    · rw [if_pos hp, ih hone]
    · have hrest : rows.flatMap f = [] :=
        List.flatMap_eq_nil_iff.mpr fun r hr => h r ((hrow r hr).resolve_left hp)
      rw [if_neg hp, hrest, List.flatMap_nil]

/-- If a call of `f` appends to the list, whatever is in it, and does not throw, so does a loop. -/
theorem run_each_append {f : α → Captured ε (List τ) Unit} {g : α → List τ} {as : List α}
    (h : ∀ a ∈ as, ∀ s, (f a).run s = (.ok (), s ++ g a)) (s : List τ) :
    (each f as).run s = (.ok (), s ++ as.flatMap g) := by
  induction as generalizing s with
  | nil => simp [each]
  | cons a as ih =>
    rw [each, run_bind_ok (h a List.mem_cons_self s),
      ih fun b hb => h b (List.mem_cons_of_mem a hb)]
    simp

/-! ## Logging calls -/

/-- `x`, which also adds to a log how it went. -/
def logged {ι : Type} (entry : Except ε α → ι) (x : Captured ε σ α) : Captured ε (σ × List ι) α := fun s =>
  ((x.run s.1).1, (x.run s.1).2, s.2 ++ [entry (x.run s.1).1])

theorem run_logged {ι : Type} (entry : Except ε α → ι) (x : Captured ε σ α) (s : σ) (log : List ι) :
    run (logged entry x) (s, log) = ((x.run s).1, (x.run s).2, log ++ [entry (x.run s).1]) := rfl

/-- The calls a walk makes of its callback, each with the row and how it went. -/
def trail (f : ρ → Captured ε σ Bool) : List ρ → σ → List (ρ × Except ε Bool)
  | [], _ => []
  | row :: rows, s =>
    (row, ((f row).run s).1) ::
      match (f row).run s with
      | (.ok true, s') => trail f rows s'
      | _ => []

/-- A walk logs its trail, and otherwise runs as it does without the log. -/
theorem run_walk_logged {ι : Type} (entry : ρ → Except ε Bool → ι) (f : ρ → Captured ε σ Bool)
    (rows : List ρ) (s : σ) (log : List ι) :
    run (walk (fun row => logged (entry row) (f row)) rows) (s, log) =
      (((walk f rows).run s).1, ((walk f rows).run s).2,
        log ++ (trail f rows s).map fun c => entry c.1 c.2) := by
  induction rows generalizing s log with
  | nil => simp [walk, trail]
  | cons row rows ih =>
    have hrow := run_logged (entry row) (f row) s log
    rw [walk, walk, run_bind, run_bind, hrow, trail]
    rcases (f row).run s with ⟨_ | _ | _, s'⟩
    · rfl
    · rfl
    · simp [ih]

/-- The calls are made on the first rows. A call that another one follows has
returned true, and if all have, there is no row left. -/
theorem trail_rows (f : ρ → Captured ε σ Bool) (rows : List ρ) (s : σ) :
    (trail f rows s).map Prod.fst <+: rows ∧ ((trail f rows s).Pairwise fun c _ => c.2 = .ok true) ∧
      ((∀ c ∈ trail f rows s, c.2 = .ok true) → (trail f rows s).map Prod.fst = rows) := by
  induction rows generalizing s with
  | nil => exact ⟨List.prefix_rfl, .nil, fun _ => rfl⟩
  | cons row rows ih =>
    have hstop {r : Except ε Bool} (hr : r ≠ .ok true) :
        [row] <+: row :: rows ∧ ([(row, r)].Pairwise fun c _ => c.2 = .ok true) ∧
          ((∀ c ∈ [(row, r)], c.2 = .ok true) → [row] = row :: rows) :=
      ⟨List.prefix_append [row] rows, List.pairwise_singleton _ _, fun h => absurd (h _ List.mem_cons_self) hr⟩
    rw [trail]
    rcases (f row).run s with ⟨e | _ | _, s'⟩
    · exact hstop (by simp)
    · exact hstop (by simp)
    · obtain ⟨hfirst, hbefore, hall⟩ := ih s'
      refine ⟨(List.prefix_cons_inj row).mpr hfirst, List.pairwise_cons.mpr ⟨fun _ _ => rfl, hbefore⟩, fun h => ?_⟩
      exact congrArg (row :: ·) (hall fun c hc => h c (List.mem_cons_of_mem _ hc))

/-! ## What a program computes -/

/-- A run of `x` from `s` computes a result: it throws the same error, or
returns where `Q` holds of what it returns, the result and the variables. -/
inductive Computes (x : Captured ε σ α) (s : σ) (Q : α → β → σ → Prop) : Except ε β → Prop
  | error {e : ε} : (x.run s).1 = .error e → Computes x s Q (.error e)
  | ok {a : α} {b : β} {s' : σ} : x.run s = (.ok a, s') → Q a b s' → Computes x s Q (.ok b)

/-- What a walk computes whose callback computes whether to go on, and what to add. -/
def collect (g : ρ → Except ε (Bool × List τ)) : List ρ → Except ε (List τ)
  | [] => .ok []
  | row :: rows => do
    let (more, added) ← g row
    if more then (collect g rows).map (added ++ ·) else return added

namespace Computes

variable {s : σ} {Q : α → β → σ → Prop}

theorem pure {a : α} {b : β} (h : Q a b s) : Computes (Pure.pure a : Captured ε σ α) s Q (.ok b) :=
  .ok rfl h

theorem throw (e : ε) : Computes (MonadExcept.throw e : Captured ε σ α) s Q (.error e) := .error rfl

theorem assign {f : σ → σ} {b : β} {Q : Unit → β → σ → Prop} (h : Q () b (f s)) :
    Computes (Captured.assign f : Captured ε σ Unit) s Q (.ok b) :=
  .ok rfl h

/-- An assignment in front of other code. -/
theorem assign_bind {f : σ → σ} {g : Unit → Captured ε σ α} {r : Except ε β}
    (h : Computes (g ()) (f s) Q r) : Computes (Captured.assign f >>= g) s Q r := by
  cases h with
  | error hr => exact .error hr
  | ok hr hq => exact .ok hr hq

theorem mono {x : Captured ε σ α} {Q' : α → β → σ → Prop} {r : Except ε β} (hx : Computes x s Q r)
    (h : ∀ a b s', Q a b s' → Q' a b s') : Computes x s Q' r := by
  cases hx with
  | error hr => exact .error hr
  | ok hr hq => exact .ok hr (h _ _ _ hq)

variable {γ δ : Type}

theorem map {x : Captured ε σ α} {P : α → δ → σ → Prop} {r : Except ε δ} {f : δ → β}
    (hx : Computes x s P r) (h : ∀ a d s', P a d s' → Q a (f d) s') : Computes x s Q (r.map f) := by
  cases hx with
  | error hr => exact .error hr
  | ok hr hp => exact .ok hr (h _ _ _ hp)

theorem bind {x : Captured ε σ γ} {f : γ → Captured ε σ α} {P : γ → δ → σ → Prop} {r : Except ε δ}
    {g : δ → Except ε β} (hx : Computes x s P r)
    (h : ∀ c d s', P c d s' → Computes (f c) s' Q (g d)) : Computes (x >>= f) s Q (r >>= g) := by
  cases hx with
  | error hr =>
    refine .error ?_
    rw [run_bind]
    rcases hx : x.run s with ⟨_ | _, _⟩ <;> rw [hx] at hr <;> cases hr
    rfl
  | @ok c d s' hr hp =>
    have hf := h c d s' hp
    have hrun : run (x >>= f) s = (f c).run s' := run_bind_ok hr
    rw [ok_bind]
    generalize g d = r at hf
    cases hf with
    | error he => exact .error (by rw [hrun, he])
    | ok ho hq => exact .ok (hrun.trans ho) hq

/-- Code that only computes, in front of other code. -/
theorem lift {x : Except ε γ} {f : γ → Captured ε σ α} {g : γ → Except ε β}
    (h : ∀ c, x = .ok c → Computes (f c) s Q (g c)) : Computes (Captured.lift x >>= f) s Q (x >>= g) := by
  rcases x with e | c
  · exact .error rfl
  · exact h c rfl

theorem declare {x : Captured ε (τ × σ) α} {a : τ} {r : Except ε β}
    (h : Computes x (a, s) (fun c b t => Q c b t.2) r) : Computes (Captured.declare a x) s Q r := by
  cases h with
  | error hr => exact .error hr
  | ok hr hq => exact .ok (by rw [run_declare, hr]) hq

/-- What the variables are in the end, if the result says so. -/
theorem result {x : Captured ε σ α} {f : β → σ} {r : Except ε β}
    (h : Computes x s (fun _ b s' => s' = f b) r) : x.result s = r.map f := by
  rw [Captured.result]
  cases h with
  | error hr => rw [hr]; rfl
  | ok hr hq => rw [hr, hq]; rfl

/-- A list that starts empty is what is added to it. -/
theorem result_nil {x : Captured ε (List τ) α} {r : Except ε (List τ)}
    (h : Computes x [] (fun _ added s' => s' = [] ++ added) r) : x.result [] = r := by
  rw [h.result]
  rcases r with _ | added <;> rfl

/-- A walk adds to a list among the variables what its callback does. `I` is
what the callback finds in them, and leaves in them unless it stops. -/
theorem walk {f : ρ → Captured ε σ Bool} {g : ρ → Except ε (Bool × List τ)} {I : σ → Prop}
    {μ : σ → List τ} {rows : List ρ}
    (h : ∀ row ∈ rows, ∀ s, I s → Computes (f row) s (fun more r s' =>
      more = r.1 ∧ μ s' = μ s ++ r.2 ∧ (more = true → I s')) (g row)) {s : σ} (hs : I s) :
    Computes (Captured.walk f rows) s (fun _ added s' => μ s' = μ s ++ added) (collect g rows) := by
  induction rows generalizing s with
  | nil => exact .pure (List.append_nil _).symm
  | cons row rows ih =>
    refine .bind (h row List.mem_cons_self s hs) fun more r s₁ hr => ?_
    obtain ⟨more', added⟩ := r
    obtain ⟨rfl, h₁, hI⟩ := hr
    cases more with
    | true =>
      have hrest := ih (fun r hr => h r (List.mem_cons_of_mem row hr)) (hI rfl)
      exact hrest.map fun _ rest s₂ h₂ => by rw [h₂, h₁, List.append_assoc]
    | false => exact .pure h₁

theorem each {f : α → Captured ε (List τ) Unit} {g : α → Except ε (List τ)} {as : List α}
    (h : ∀ a ∈ as, ∀ s, Computes (f a) s (fun _ added s' => s' = s ++ added) (g a)) (s : List τ) :
    Computes (Captured.each f as) s (fun _ added s' => s' = s ++ added)
      (collect (fun a => (g a).map (Prod.mk true)) as) := by
  induction as generalizing s with
  | nil => exact .pure (List.append_nil _).symm
  | cons a as ih =>
    have hcollect : collect (fun a => (g a).map (Prod.mk true)) (a :: as) =
        g a >>= fun added => (collect (fun a => (g a).map (Prod.mk true)) as).map (added ++ ·) := by
      rw [collect]
      rcases g a with _ | _ <;> rfl
    rw [hcollect]
    refine .bind (h a List.mem_cons_self s) fun _ added s₁ h₁ => ?_
    refine (ih (fun b hb => h b (List.mem_cons_of_mem a hb)) s₁).map fun _ rest s₂ h₂ => ?_
    rw [h₂, h₁, List.append_assoc]

end Computes

/-- A walk whose callback always goes on, and sets the variables to what `g`
makes of the row, leaves what the last row makes; it returns if and only if
`g` does on every row. -/
theorem walk_result_eq_ok_iff {f : ρ → Captured ε σ Bool} {g : ρ → Except ε σ}
    (h : ∀ row s, Computes (f row) s (fun more x s' => more = true ∧ s' = x) (g row)) {rows : List ρ} {s r : σ} :
    (walk f rows).result s = .ok r ↔
      (∀ row ∈ rows, ∃ x, g row = .ok x) ∧ rows.getLast?.elim (r = s) fun row => g row = .ok r := by
  induction rows generalizing s with
  | nil =>
    have hrun : (walk f []).result s = .ok s := rfl
    simp [hrun, eq_comm]
  | cons row rows ih =>
    have hrow := h row s
    generalize hg : g row = x at hrow
    cases hrow with
    | @error e he =>
      have hrun : ((walk f (row :: rows)).run s).1 = .error e := by
        rw [walk, run_bind]
        rcases hf : (f row).run s with ⟨_ | _, s'⟩ <;> rw [hf] at he <;> cases he
        rfl
      rw [result, hrun]
      refine ⟨fun h => (by cases h), fun h => ?_⟩
      obtain ⟨x, hx⟩ := h.1 row List.mem_cons_self
      rw [hg] at hx
      cases hx
    | @ok more x s' hf hq =>
      obtain ⟨hmore, hs⟩ := hq
      have hrun : (walk f (row :: rows)).result s = (walk f rows).result x := by
        rw [result, result, walk, run_bind_ok hf, if_pos hmore, hs]
      rw [hrun, ih, List.forall_mem_cons, List.getLast?_cons]
      rcases hlast : rows.getLast? with _ | last
      · simp [hg, eq_comm]
      · simp [hg]

/-- A collection returns if and only if the callback does on each row it is
called on, and returns what that adds. -/
theorem collect_eq_ok_iff {g : ρ → Except ε (Bool × List τ)} {p : ρ → Bool} {f : ρ → List τ} {rows : List ρ}
    (h : ∀ row ∈ rows, ∀ r, g row = .ok r → r = (p row, f row)) {l : List τ} :
    collect g rows = .ok l ↔
      l = (walked p rows).flatMap f ∧ ∀ row ∈ walked p rows, ∃ r, g row = .ok r := by
  induction rows generalizing l with
  | nil => exact ⟨fun hl => ⟨(Except.ok.inj hl).symm, List.forall_mem_nil _⟩, fun hl => congrArg _ hl.1.symm⟩
  | cons row rows ih =>
    rw [collect, walked, List.forall_mem_cons, List.flatMap_cons]
    rcases hg : g row with e | r
    · exact ⟨fun hl => (by cases hl), fun hl => (by obtain ⟨r, hr⟩ := hl.2.1; cases hr)⟩
    · obtain rfl := h row List.mem_cons_self r hg
      have ih := @ih fun r hr => h r (List.mem_cons_of_mem row hr)
      rw [ok_bind]
      dsimp only
      by_cases hp : p row = true
      · rw [if_pos hp, if_pos hp, map_eq_ok_iff]
        constructor
        · rintro ⟨rest, hrest, rfl⟩
          obtain ⟨rfl, hall⟩ := ih.mp hrest
          exact ⟨rfl, ⟨_, rfl⟩, hall⟩
        · rintro ⟨rfl, -, hall⟩
          exact ⟨_, ih.mpr ⟨rfl, hall⟩, rfl⟩
      · rw [if_neg hp, if_neg hp]
        constructor
        · intro hl
          cases hl
          exact ⟨(List.append_nil _).symm, ⟨_, rfl⟩, List.forall_mem_nil _⟩
        · rintro ⟨rfl, -, -⟩
          exact congrArg Except.ok (List.append_nil _).symm

end Captured

end SqlDb
