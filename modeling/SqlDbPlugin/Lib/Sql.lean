import Mathlib.Tactic.Common

/-!
# Programs of SQL statements

A program runs one statement after another on a database `δ`. It may throw
an exception, and what it has done by then stays done: the state survives
exceptions (`Sql` is exceptions over state). Whether a statement fails is
not the program's choice: a `World` is the database together with how the
next statements go. A failed statement leaves the database alone.

`run_…` compute a program's run. `each` is the loop that calls a function on
every element of a list until one call throws, and `trail` lists the calls
it makes, each with the world before and after it. The calls any other
program makes are found by giving it a function that logs them (`logged`);
`run_each_logged` says that `trail` is that log for a loop.

`Within R x` states what `x` cannot do, however its statements go: a run of
`x` takes the database only to where `R` allows. It has a rule for each way
to build a program.
-/

namespace SqlDb

variable {ε δ α β : Type}

/-- A database, and how the statements to come go: `some e` fails with `e`,
and beyond the end of the list none fails. -/
structure World (ε δ : Type) where
  db : δ
  faults : List (Option ε) := []

/-- How the next statement fails, if it does. -/
def World.next (w : World ε δ) : Option ε := w.faults.head?.join

/-- The world when a statement has been executed that leaves the database `d`. -/
def World.after (w : World ε δ) (d : δ) : World ε δ := ⟨d, w.faults.tail⟩

/-- How the statement fails that `n` others come before, if it does. -/
def World.fault (w : World ε δ) (n : Nat) : Option ε := (w.faults[n]?).join

/-- The world when `n` statements have been executed that write nothing. -/
def World.skip (w : World ε δ) (n : Nat) : World ε δ := ⟨w.db, w.faults.drop n⟩

theorem World.next_skip (w : World ε δ) (n : Nat) : (w.skip n).next = w.fault n := by
  rw [next, skip, List.head?_drop, fault]

theorem World.after_skip (w : World ε δ) (n : Nat) : (w.skip n).after w.db = w.skip (n + 1) := by
  rw [after, skip, skip, List.tail_drop]

theorem World.skip_skip (w : World ε δ) (n m : Nat) : (w.skip n).skip m = w.skip (n + m) := by
  rw [skip, skip, skip, List.drop_drop]

/-- Programs that run statements on a database `δ` and may throw an `ε`. -/
abbrev Sql (ε δ : Type) := ExceptT ε (StateM (World ε δ))

namespace Sql

def run (x : Sql ε δ α) (w : World ε δ) : Except ε α × World ε δ := x w

@[simp] theorem run_pure (a : α) (w : World ε δ) : run (pure a) w = (.ok a, w) := rfl

@[simp] theorem run_throw (e : ε) (w : World ε δ) :
    run (throw e : Sql ε δ α) w = (.error e, w) := rfl

theorem run_bind (x : Sql ε δ α) (f : α → Sql ε δ β) (w : World ε δ) :
    run (x >>= f) w = match x.run w with
      | (.ok a, w') => (f a).run w'
      | (.error e, w') => (.error e, w') := by
  show (ExceptT.bindCont f (x w).1) (x w).2 = _
  unfold run
  rcases x w with ⟨_ | _, _⟩ <;> rfl

theorem run_eq_of_ok {x : Sql ε δ α} {w : World ε δ} {a : α} (h : (x.run w).1 = .ok a) :
    x.run w = (.ok a, (x.run w).2) := by
  rw [← h]

theorem run_bind_ok {x : Sql ε δ α} {f : α → Sql ε δ β} {w w' : World ε δ} {a : α}
    (h : x.run w = (.ok a, w')) : run (x >>= f) w = (f a).run w' := by
  rw [run_bind, h]

theorem run_bind_error {x : Sql ε δ α} {f : α → Sql ε δ β} {w w' : World ε δ} {e : ε}
    (h : x.run w = (.error e, w')) : run (x >>= f) w = (.error e, w') := by
  rw [run_bind, h]

theorem run_bind_eq_ok {x : Sql ε δ α} {f : α → Sql ε δ β} {w w' : World ε δ} {b : β}
    (h : run (x >>= f) w = (.ok b, w')) : ∃ a w₁, x.run w = (.ok a, w₁) ∧ (f a).run w₁ = (.ok b, w') := by
  rcases hx : x.run w with ⟨e | a, w₁⟩
  · rw [run_bind_error hx] at h
    cases h
  · exact ⟨a, w₁, rfl, by rw [← run_bind_ok hx, h]⟩

/-- A program that returns has gone through its first part. -/
theorem of_run_bind {x : Sql ε δ α} {f : α → Sql ε δ β} {w : World ε δ} {b : β}
    (h : (run (x >>= f) w).1 = .ok b) :
    ∃ a w', x.run w = (.ok a, w') ∧ run (x >>= f) w = (f a).run w' := by
  obtain ⟨a, w', hx, -⟩ := run_bind_eq_ok (run_eq_of_ok h)
  exact ⟨a, w', hx, run_bind_ok hx⟩

theorem run_tryCatch (x : Sql ε δ α) (h : ε → Sql ε δ α) (w : World ε δ) :
    run (tryCatch x h) w = match x.run w with
      | (.ok a, w') => (.ok a, w')
      | (.error e, w') => (h e).run w' := by
  unfold run
  simp only [tryCatch, tryCatchThe, MonadExceptOf.tryCatch, ExceptT.tryCatch, ExceptT.mk, bind,
    StateT.bind]
  rcases x w with ⟨_ | _, _⟩ <;> rfl

/-- A handler that only returns something leaves the world to what it guards. -/
theorem run_tryCatch_pure (x : Sql ε δ α) (a : α) (w : World ε δ) :
    (run (tryCatch x fun _ => pure a) w).2 = (x.run w).2 := by
  rw [run_tryCatch]
  rcases x.run w with ⟨_ | _, _⟩ <;> rfl

/-- Code that only computes, or throws. -/
def lift (x : Except ε α) : Sql ε δ α := fun w => (x, w)

@[simp] theorem run_lift (x : Except ε α) (w : World ε δ) : run (lift x) w = (x, w) := rfl

/-- Runs `x`; a handler catches and logs whatever it throws. -/
def guarded (x : Sql ε δ Unit) : Sql ε δ Unit := tryCatch x fun _ => pure ()

@[simp] theorem run_guarded (x : Sql ε δ Unit) (w : World ε δ) :
    run (guarded x) w = (.ok (), (x.run w).2) := by
  rw [guarded, run_tryCatch]
  rcases x.run w with ⟨_ | _, _⟩ <;> rfl

/-! ## Statements -/

/-- Executes one statement: it fails as the world says, or as `f` says, and
then leaves the database alone. -/
def statement (f : δ → Except ε (α × δ)) : Sql ε δ α := fun w =>
  match w.faults with
  | some e :: fs => (.error e, { w with faults := fs })
  | none :: fs =>
    match f w.db with
    | .ok (a, d) => (.ok a, ⟨d, fs⟩)
    | .error e => (.error e, { w with faults := fs })
  | [] =>
    match f w.db with
    | .ok (a, d) => (.ok a, ⟨d, []⟩)
    | .error e => (.error e, w)

/-- A statement that reads. -/
def query (f : δ → α) : Sql ε δ α := statement fun d => .ok (f d, d)

/-- A statement that writes, and cannot fail by itself. -/
def update (f : δ → δ) : Sql ε δ Unit := statement fun d => .ok ((), f d)

@[simp] theorem run_query (f : δ → α) (d : δ) :
    run (query f : Sql ε δ α) ⟨d, []⟩ = (.ok (f d), ⟨d, []⟩) := rfl

@[simp] theorem run_update (f : δ → δ) (d : δ) :
    run (update f : Sql ε δ Unit) ⟨d, []⟩ = (.ok (), ⟨f d, []⟩) := rfl

theorem run_statement_next (f : δ → Except ε (α × δ)) (w : World ε δ) :
    run (statement f) w = match w.next with
      | some e => (.error e, w.after w.db)
      | none => match f w.db with
        | .ok (a, d) => (.ok a, w.after d)
        | .error e => (.error e, w.after w.db) := by
  rcases w with ⟨d, _ | ⟨_ | _, fs⟩⟩
  · rcases hf : f d with _ | _ <;> simp only [run, statement, hf] <;> rfl
  · rcases hf : f d with _ | _ <;> simp only [run, statement, hf] <;> rfl
  · rfl

/-- However it goes, a read leaves the database alone. -/
theorem run_query_db (f : δ → α) (w : World ε δ) : (run (query f) w).2.db = w.db := by
  rcases w with ⟨d, _ | ⟨_ | _, fs⟩⟩ <;> rfl

/-- A write is done, or leaves the database alone. -/
theorem run_update_db (f : δ → δ) (w : World ε δ) :
    (run (update f) w).2.db = w.db ∨ (run (update f) w).2.db = f w.db := by
  rcases w with ⟨d, _ | ⟨_ | _, fs⟩⟩
  · exact .inr rfl
  · exact .inr rfl
  · exact .inl rfl

theorem run_query_next (f : δ → α) (w : World ε δ) :
    run (query f) w = (w.next.elim (.ok (f w.db)) .error, w.after w.db) := by
  rcases w with ⟨d, _ | ⟨_ | _, fs⟩⟩ <;> rfl

theorem run_query_skip (f : δ → α) (w : World ε δ) (n : Nat) :
    run (query f) (w.skip n) = ((w.fault n).elim (.ok (f w.db)) .error, w.skip (n + 1)) := by
  have hrun := run_query_next f (w.skip n)
  rwa [World.next_skip, show (w.skip n).db = w.db from rfl, World.after_skip] at hrun

theorem run_query_skip_ok {f : δ → α} {w w' : World ε δ} {n : Nat} {a : α}
    (h : run (query f) (w.skip n) = (.ok a, w')) : w.fault n = none ∧ a = f w.db ∧ w' = w.skip (n + 1) := by
  rw [run_query_skip] at h
  rcases hn : w.fault n with _ | e <;> rw [hn] at h <;> cases h
  exact ⟨rfl, rfl, rfl⟩

/-- A program that reads first goes on with what it has read, if the read does not fail. -/
theorem run_query_bind {w : World ε δ} (h : w.next = none) (f : δ → α) (g : α → Sql ε δ β) :
    run (query f >>= g) w = run (g (f w.db)) (w.after w.db) := by
  rw [run_bind, run_query_next, h]
  rfl

theorem run_query_bind_error {w : World ε δ} {e : ε} (h : w.next = some e) (f : δ → α)
    (g : α → Sql ε δ β) : run (query f >>= g) w = (.error e, w.after w.db) := by
  rw [run_bind, run_query_next, h]
  rfl

/-- A program that reads first, and returns, has read the database. -/
theorem of_run_query_bind {f : δ → α} {g : α → Sql ε δ β} {w : World ε δ} {b : β}
    (h : (run (query f >>= g) w).1 = .ok b) : (run (g (f w.db)) (w.after w.db)).1 = .ok b := by
  rcases hw : w.next with _ | e
  · rw [run_query_bind hw] at h
    exact h
  · rw [run_query_bind_error hw] at h
    cases h

theorem run_update_next (f : δ → δ) (w : World ε δ) :
    run (update f) w = w.next.elim (.ok (), w.after (f w.db)) fun e => (.error e, w.after w.db) := by
  rcases w with ⟨d, _ | ⟨_ | _, fs⟩⟩ <;> rfl

/-! ## Loops and their calls -/

/-- Calls `f` on each element of a list, until a call throws. -/
def each (f : α → Sql ε δ β) : List α → Sql ε δ Unit
  | [] => pure ()
  | a :: as => do
    let _ ← f a
    each f as

theorem run_each_append (f : α → Sql ε δ β) (as bs : List α) (w : World ε δ) :
    run (each f (as ++ bs)) w = match (each f as).run w with
      | (.ok _, w') => (each f bs).run w'
      | (.error e, w') => (.error e, w') := by
  induction as generalizing w with
  | nil => rfl
  | cons a as ih =>
    simp only [List.cons_append, each, run_bind]
    rcases (f a).run w with ⟨_ | _, w'⟩
    · rfl
    · exact ih w'

theorem each_append (f : α → Sql ε δ β) (as bs : List α) :
    each f (as ++ bs) = each f as >>= fun _ => each f bs := by
  funext w
  show run _ w = run _ w
  rw [run_each_append, run_bind]
  rcases (each f as).run w with ⟨_ | _, _⟩ <;> rfl

theorem each_map {γ : Type} (f : α → Sql ε δ β) (g : γ → α) (as : List γ) :
    each f (as.map g) = each (fun a => f (g a)) as := by
  induction as with
  | nil => rfl
  | cons a as ih => rw [List.map_cons, each, each, ih]

/-- A loop of reads that returns has written nothing. -/
theorem run_each_query_ok {f : α → δ → β} {as : List α} {w w' : World ε δ}
    (h : run (each (fun a => query (f a)) as) w = (.ok (), w')) : w' = w.skip as.length := by
  induction as generalizing w with
  | nil =>
    cases h
    rfl
  | cons a as ih =>
    rcases hw : w.next with _ | e
    · rw [each, run_query_bind hw] at h
      rw [ih h, List.length_cons, Nat.add_comm, ← World.skip_skip]
      rw [show w.after w.db = w.skip 1 from congrArg (World.mk w.db) List.drop_one.symm]
    · rw [each, run_query_bind_error hw] at h
      cases h

/-- How many of the next `n` statements are executed, if the first that fails is the last. -/
def succeeded : List (Option ε) → Nat → Nat
  | _, 0 => 0
  | [], n + 1 => n + 1
  | none :: fs, n + 1 => succeeded fs n + 1
  | some _ :: _, _ + 1 => 0

theorem succeeded_next (w : World ε δ) (n : Nat) :
    succeeded w.faults (n + 1) = w.next.elim (succeeded w.faults.tail n + 1) fun _ => 0 := by
  rcases w with ⟨d, _ | ⟨_ | _, fs⟩⟩
  · cases n <;> rfl
  · rfl
  · rfl

/-- A loop of writes has done those before the first that fails. -/
theorem run_each_update_db (f : α → δ → δ) (as : List α) (w : World ε δ) :
    (run (each (fun a => update (f a)) as) w).2.db =
      (as.take (succeeded w.faults as.length)).foldl (fun d a => f a d) w.db := by
  induction as generalizing w with
  | nil => rw [List.take_nil]; rfl
  | cons a as ih =>
    have hrun := run_update_next (f a) w
    rw [List.length_cons, succeeded_next]
    rcases hn : w.next with _ | e
    · rw [hn] at hrun
      rw [each, run_bind_ok hrun, ih]
      rfl
    · rw [hn] at hrun
      rw [each, run_bind_error hrun]
      rfl

/-- A call: the world before it, its argument, its result and the world after it. -/
structure Call (ε δ α β : Type) where
  before : World ε δ
  arg : α
  result : Except ε β
  after : World ε δ

/-- The calls `each f as` makes: all of them, or those up to the first that throws. -/
def trail (f : α → Sql ε δ β) : List α → World ε δ → List (Call ε δ α β)
  | [], _ => []
  | a :: as, w =>
    ⟨w, a, ((f a).run w).1, ((f a).run w).2⟩ ::
      match (f a).run w with
      | (.ok _, w') => trail f as w'
      | (.error _, _) => []

theorem trail_cons_ok {f : α → Sql ε δ β} {a : α} {as : List α} {w w' : World ε δ} {b : β}
    (h : (f a).run w = (.ok b, w')) : trail f (a :: as) w = ⟨w, a, .ok b, w'⟩ :: trail f as w' := by
  simp only [trail, h]

theorem trail_cons_error {f : α → Sql ε δ β} {a : α} {as : List α} {w w' : World ε δ} {e : ε}
    (h : (f a).run w = (.error e, w')) : trail f (a :: as) w = [⟨w, a, .error e, w'⟩] := by
  simp only [trail, h]

theorem trail_append (f : α → Sql ε δ β) (as bs : List α) (w : World ε δ) :
    trail f (as ++ bs) w = trail f as w ++ match (each f as).run w with
      | (.ok _, w') => trail f bs w'
      | (.error _, _) => [] := by
  induction as generalizing w with
  | nil => rfl
  | cons a as ih =>
    rw [List.cons_append]
    cases h : (f a).run w with
    | mk r w' =>
      cases r with
      | ok b => rw [trail_cons_ok h, trail_cons_ok h, each, run_bind_ok h, ih]; rfl
      | error e => rw [trail_cons_error h, trail_cons_error h, each, run_bind_error h]; rfl

theorem trail_append_ok {f : α → Sql ε δ β} {as : List α} {w w' : World ε δ}
    (h : (each f as).run w = (.ok (), w')) (bs : List α) :
    trail f (as ++ bs) w = trail f as w ++ trail f bs w' := by
  rw [trail_append, h]

/-- Every call in the trail is a call of `f`. -/
theorem run_of_mem_trail {f : α → Sql ε δ β} {as : List α} {w : World ε δ} {c : Call ε δ α β}
    (h : c ∈ trail f as w) : c.arg ∈ as ∧ (f c.arg).run c.before = (c.result, c.after) := by
  induction as generalizing w with
  | nil => cases h
  | cons a as ih =>
    simp only [trail, List.mem_cons] at h
    obtain rfl | h := h
    · exact ⟨List.mem_cons_self, rfl⟩
    · split at h
      · exact (ih h).imp_left (List.mem_cons_of_mem _)
      · cases h

/-- A loop that returns has called `f` on every element, and every call has returned. -/
theorem trail_of_ok {f : α → Sql ε δ β} {as : List α} {w w' : World ε δ}
    (h : (each f as).run w = (.ok (), w')) :
    (trail f as w).map Call.arg = as ∧ ∀ c ∈ trail f as w, ∃ b, c.result = .ok b := by
  induction as generalizing w with
  | nil => exact ⟨rfl, nofun⟩
  | cons a as ih =>
    obtain ⟨b, w₁, ha, h⟩ := run_bind_eq_ok h
    obtain ⟨hargs, hok⟩ := ih h
    rw [trail_cons_ok ha]
    refine ⟨by rw [List.map_cons, hargs], fun c hc => ?_⟩
    obtain rfl | hc := List.mem_cons.mp hc
    · exact ⟨b, rfl⟩
    · exact hok c hc

/-- A number that no call lowers is the same behind a loop if and only if it
is the same behind every call. -/
theorem run_each_keeps_iff {f : α → Sql ε δ β} {μ : δ → Nat}
    (hmono : ∀ a w, μ w.db ≤ μ ((f a).run w).2.db) (as : List α) (w : World ε δ) :
    μ ((each f as).run w).2.db = μ w.db ↔ ∀ c ∈ trail f as w, μ c.after.db = μ c.before.db := by
  have hloop (as : List α) (w : World ε δ) : μ w.db ≤ μ ((each f as).run w).2.db := by
    induction as generalizing w with
    | nil => exact Nat.le_refl _
    | cons a as ih =>
      have ha := hmono a w
      rcases h : (f a).run w with ⟨e | b, w₁⟩ <;> rw [h] at ha
      · rw [each, run_bind_error h]; exact ha
      · rw [each, run_bind_ok h]; exact Nat.le_trans ha (ih w₁)
  induction as generalizing w with
  | nil => exact ⟨fun _ => nofun, fun _ => rfl⟩
  | cons a as ih =>
    have ha := hmono a w
    rcases h : (f a).run w with ⟨e | b, w₁⟩ <;> rw [h] at ha
    · rw [each, run_bind_error h, trail_cons_error h, List.forall_mem_singleton]
    · have has := hloop as w₁
      have ih := ih w₁
      rw [each, run_bind_ok h, trail_cons_ok h, List.forall_mem_cons]
      dsimp only at ha ⊢
      constructor
      · intro he
        exact ⟨by omega, ih.mp (by omega)⟩
      · rintro ⟨hb, hrest⟩
        exact (ih.mpr hrest).trans hb

/-- If no call of a loop throws, the loop returns. -/
theorem run_each_of_trail_ok {f : α → Sql ε δ β} {as : List α} {w : World ε δ}
    (h : ∀ c ∈ trail f as w, ∃ b, c.result = .ok b) : ∃ w', (each f as).run w = (.ok (), w') := by
  induction as generalizing w with
  | nil => exact ⟨w, rfl⟩
  | cons a as ih =>
    rcases ha : (f a).run w with ⟨e | b, w₁⟩
    · rw [trail_cons_error ha] at h
      obtain ⟨b, hb⟩ := h _ List.mem_cons_self
      cases hb
    · rw [trail_cons_ok ha] at h
      rw [each, run_bind_ok ha]
      exact ih fun c hc => h c (List.mem_cons_of_mem _ hc)

/-- A database together with a log of calls. -/
abbrev Logged (ε δ α β : Type) := δ × List (Call ε δ α β)

def withLog (w : World ε δ) (log : List (Call ε δ α β)) : World ε (Logged ε δ α β) :=
  ⟨(w.db, log), w.faults⟩

/-- `f`, with its calls logged. -/
def logged (f : α → Sql ε δ β) (a : α) : Sql ε (Logged ε δ α β) β := fun w =>
  let before : World ε δ := ⟨w.db.1, w.faults⟩
  let r := (f a).run before
  (r.1, withLog r.2 (w.db.2 ++ [⟨before, a, r.1, r.2⟩]))

/-- The log a program leaves that starts with an empty one. -/
def callsOf {γ : Type} (x : Sql ε (Logged ε δ α β) γ) (w : World ε δ) : List (Call ε δ α β) :=
  (x.run (withLog w [])).2.db.2

theorem run_logged (f : α → Sql ε δ β) (a : α) (w : World ε δ) (log : List (Call ε δ α β)) :
    run (logged f a) (withLog w log) =
      (((f a).run w).1, withLog ((f a).run w).2 (log ++ [⟨w, a, ((f a).run w).1, ((f a).run w).2⟩])) :=
  rfl

/-- A loop logs its trail, and otherwise runs as it does without the log. -/
theorem run_each_logged (f : α → Sql ε δ β) (as : List α) (w : World ε δ)
    (log : List (Call ε δ α β)) :
    run (each (logged f) as) (withLog w log) =
      (((each f as).run w).1, withLog ((each f as).run w).2 (log ++ trail f as w)) := by
  induction as generalizing w log with
  | nil => simp [each, trail]
  | cons a as ih =>
    have hl := run_logged f a w log
    rcases h : (f a).run w with ⟨_ | b, w'⟩
    · rw [h] at hl
      rw [each, each, run_bind_error hl, run_bind_error h, trail_cons_error h]
    · rw [h] at hl
      rw [each, each, run_bind_ok hl, run_bind_ok h, trail_cons_ok h, ih]
      simp

/-! ## What a program cannot do -/

/-- Every run of `x` ends in a database that `R` relates to the one it starts in. -/
def Within (R : δ → δ → Prop) (x : Sql ε δ α) : Prop :=
  ∀ w, R w.db (x.run w).2.db

namespace Within

variable {R : δ → δ → Prop}

theorem lift [Std.Refl R] (x : Except ε α) : Within R (Sql.lift x : Sql ε δ α) :=
  fun w => Std.Refl.refl w.db

theorem pure [Std.Refl R] (a : α) : Within R (Pure.pure a : Sql ε δ α) := fun w => Std.Refl.refl w.db

theorem throw [Std.Refl R] (e : ε) : Within R (MonadExcept.throw e : Sql ε δ α) :=
  fun w => Std.Refl.refl w.db

theorem query [Std.Refl R] (f : δ → α) : Within R (Sql.query f : Sql ε δ α) := fun w => by
  rw [run_query_db]; exact Std.Refl.refl _

theorem update [Std.Refl R] {f : δ → δ} (h : ∀ d, R d (f d)) : Within R (Sql.update f : Sql ε δ Unit) :=
  fun w => by
    obtain h' | h' := run_update_db f w <;> rw [h']
    · exact Std.Refl.refl _
    · exact h _

theorem statement [Std.Refl R] {f : δ → Except ε (α × δ)} (h : ∀ d a d', f d = .ok (a, d') → R d d') :
    Within R (Sql.statement f) := fun w => by
  rcases w with ⟨d, _ | ⟨_ | _, fs⟩⟩
  · rcases hf : f d with e | ⟨a, d'⟩
    · simpa only [Sql.run, Sql.statement, hf] using Std.Refl.refl d
    · simpa only [Sql.run, Sql.statement, hf] using h d a d' hf
  · rcases hf : f d with e | ⟨a, d'⟩
    · simpa only [Sql.run, Sql.statement, hf] using Std.Refl.refl d
    · simpa only [Sql.run, Sql.statement, hf] using h d a d' hf
  · exact Std.Refl.refl d

theorem bind [IsTrans δ R] {x : Sql ε δ α} {f : α → Sql ε δ β} (hx : Within R x)
    (hf : ∀ a, Within R (f a)) : Within R (x >>= f) := fun w => by
  have hx := hx w
  rw [run_bind]
  rcases h : x.run w with ⟨_ | a, w'⟩ <;> rw [h] at hx
  · exact hx
  · exact IsTrans.trans _ _ _ hx (hf a w')

theorem tryCatch [IsTrans δ R] {x : Sql ε δ α} {f : ε → Sql ε δ α} (hx : Within R x)
    (hf : ∀ e, Within R (f e)) : Within R (MonadExcept.tryCatch x f) := fun w => by
  have hx := hx w
  rw [run_tryCatch]
  rcases h : x.run w with ⟨e | _, w'⟩ <;> rw [h] at hx
  · exact IsTrans.trans _ _ _ hx (hf e w')
  · exact hx

theorem guarded {x : Sql ε δ Unit} (hx : Within R x) : Within R (Sql.guarded x) := fun w => by
  rw [run_guarded]; exact hx w

theorem each [Std.Refl R] [IsTrans δ R] {f : α → Sql ε δ β} {as : List α}
    (hf : ∀ a ∈ as, Within R (f a)) : Within R (Sql.each f as) := by
  induction as with
  | nil => exact pure ()
  | cons a as ih =>
    have ha : Within R (f a) := hf a List.mem_cons_self
    exact ha.bind fun _ => ih fun b hb => hf b (List.mem_cons_of_mem a hb)

theorem mono {R' : δ → δ → Prop} (h : ∀ d d', R d d' → R' d d') {x : Sql ε δ α} (hx : Within R x) :
    Within R' x := fun w => h _ _ (hx w)

end Within

end Sql

end SqlDb
