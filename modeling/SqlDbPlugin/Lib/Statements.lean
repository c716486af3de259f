import SqlDbPlugin.Lib.Sql

/-!
# Programs, statement by statement

A program of `Sql` is a function from worlds to worlds: it says what has
become of the database at its end, and not what others can see of it on the
way. `Statements` is a program as the statements that it executes, one after
the other, and `execute` is one of them. A `Stepwise` program is known in
this form, and there is an instance for each way to build a program, so what
the instances find is the program itself (`Stepwise.run_statements`).

`after n` is where a program is behind its first `n` statements. What it
goes on to do from there is what it does from the start (`run_after`), and
the database there is the one that the program leaves when the other
statements fail (`exists_faults`).
-/

namespace SqlDb

variable {ε δ α β : Type}

/-- A program: it is done, or it executes a statement, which writes unless
it fails, and goes on as `rest` says, which is told how the statement has
failed, if it has, and the database that it found. -/
inductive Statements (ε δ α : Type)
  | done (r : Except ε α)
  | next (write : δ → δ) (rest : Option ε → δ → Statements ε δ α)

namespace Statements

/-- All of the statements. -/
def run : Statements ε δ α → World ε δ → Except ε α × World ε δ
  | done r, w => (r, w)
  | next write rest, w =>
    match w.next with
    | some e => (rest (some e) w.db).run (w.after w.db)
    | none => (rest none w.db).run (w.after (write w.db))

/-- The next statement, if there is one. -/
def execute : Statements ε δ α → World ε δ → Statements ε δ α × World ε δ
  | done r, w => (done r, w)
  | next write rest, w =>
    match w.next with
    | some e => (rest (some e) w.db, w.after w.db)
    | none => (rest none w.db, w.after (write w.db))

/-- What the program has returned or thrown, if it is done. -/
def result : Statements ε δ α → Option (Except ε α)
  | done r => some r
  | next _ _ => none

/-- How many statements are left to execute. -/
def left : Statements ε δ α → World ε δ → Nat
  | done _, _ => 0
  | next write rest, w =>
    match w.next with
    | some e => (rest (some e) w.db).left (w.after w.db) + 1
    | none => (rest none w.db).left (w.after (write w.db)) + 1

/-- The program, and the world, behind the first `n` statements. -/
def after : Nat → Statements ε δ α → World ε δ → Statements ε δ α × World ε δ
  | 0, p, w => (p, w)
  | n + 1, p, w => (after n p w).1.execute (after n p w).2

theorem run_execute (p : Statements ε δ α) (w : World ε δ) : (p.execute w).1.run (p.execute w).2 = p.run w := by
  cases p with
  | done r => rfl
  | next write rest =>
    rw [execute, run]
    rcases w.next with _ | e <;> rfl

/-- Behind its first statements a program goes on to what it does from the start. -/
theorem run_after (n : Nat) (p : Statements ε δ α) (w : World ε δ) : (after n p w).1.run (after n p w).2 = p.run w := by
  induction n with
  | zero => rfl
  | succ n ih => rw [after, run_execute, ih]

theorem run_of_result {p : Statements ε δ α} {r : Except ε α} (h : p.result = some r) (w : World ε δ) :
    p.run w = (r, w) := by
  cases p with
  | done r' =>
    cases h
    rfl
  | next write rest => cases h

/-- Each statement leaves one less. -/
theorem left_execute {p : Statements ε δ α} (h : p.result = none) (w : World ε δ) :
    (p.execute w).1.left (p.execute w).2 < p.left w := by
  cases p with
  | done r => cases h
  | next write rest =>
    rw [execute, left]
    rcases w.next with _ | e <;> exact Nat.lt_succ_self _

theorem after_succ (n : Nat) (p : Statements ε δ α) (w : World ε δ) :
    after (n + 1) p w = after n (p.execute w).1 (p.execute w).2 := by
  induction n with
  | zero => rfl
  | succ n ih => rw [after, ih, after]

/-- When all statements fail, nothing is written. -/
theorem exists_silent (e : ε) (p : Statements ε δ α) (d : δ) : ∃ faults, (p.run ⟨d, faults⟩).2.db = d := by
  induction p with
  | done r => exact ⟨[], rfl⟩
  | next write rest ih =>
    obtain ⟨faults, h⟩ := ih (some e) d
    exact ⟨some e :: faults, h⟩

/-- The database behind the first statements is the one that the program
leaves when these go as they do and the others fail. -/
theorem exists_faults (e : ε) (n : Nat) (p : Statements ε δ α) (w : World ε δ) :
    ∃ faults, (p.run ⟨w.db, faults⟩).2.db = (after n p w).2.db := by
  induction n generalizing p w with
  | zero => exact exists_silent e p w.db
  | succ n ih =>
    rw [after_succ]
    obtain ⟨faults, h⟩ := ih (p.execute w).1 (p.execute w).2
    rw [← h]
    cases p with
    | done r => exact ⟨[], rfl⟩
    | next write rest =>
      rw [execute]
      rcases w.next with _ | e'
      · exact ⟨none :: faults, rfl⟩
      · exact ⟨some e' :: faults, rfl⟩

/-! ## Building programs -/

/-- First `p`, and then what `f` makes of its result. -/
def bind : Statements ε δ α → (α → Statements ε δ β) → Statements ε δ β
  | done (.ok a), f => f a
  | done (.error e), _ => done (.error e)
  | next write rest, f => next write fun o d => (rest o d).bind f

/-- `p`, and where it throws, the handler. -/
def catchWith : Statements ε δ α → (ε → Statements ε δ α) → Statements ε δ α
  | done (.ok a), _ => done (.ok a)
  | done (.error e), h => h e
  | next write rest, h => next write fun o d => (rest o d).catchWith h

theorem run_bind (p : Statements ε δ α) (f : α → Statements ε δ β) (w : World ε δ) :
    (p.bind f).run w = match p.run w with
      | (.ok a, w') => (f a).run w'
      | (.error e, w') => (.error e, w') := by
  induction p generalizing w with
  | done r => rcases r with e | a <;> rfl
  | next write rest ih =>
    rw [bind, run, run]
    rcases w.next with _ | e
    · exact ih none w.db _
    · exact ih (some e) w.db _

theorem run_catchWith (p : Statements ε δ α) (h : ε → Statements ε δ α) (w : World ε δ) :
    (p.catchWith h).run w = match p.run w with
      | (.ok a, w') => (.ok a, w')
      | (.error e, w') => (h e).run w' := by
  induction p generalizing w with
  | done r => rcases r with e | a <;> rfl
  | next write rest ih =>
    rw [catchWith, run, run]
    rcases w.next with _ | e
    · exact ih none w.db _
    · exact ih (some e) w.db _

end Statements

/-- The program `x` as its statements. -/
class Stepwise (x : Sql ε δ α) where
  statements : Statements ε δ α
  run_statements (w : World ε δ) : statements.run w = x.run w

namespace Stepwise

instance (x : Except ε α) : Stepwise (Sql.lift x : Sql ε δ α) := ⟨.done x, fun _ => rfl⟩

instance (a : α) : Stepwise (pure a : Sql ε δ α) := ⟨.done (.ok a), fun _ => rfl⟩

instance (e : ε) : Stepwise (throw e : Sql ε δ α) := ⟨.done (.error e), fun _ => rfl⟩

/-- A statement that fails by itself writes nothing either. -/
instance (f : δ → Except ε (α × δ)) : Stepwise (Sql.statement f) where
  statements := .next (fun d => ((f d).map Prod.snd).toOption.getD d) fun o d =>
    .done (o.elim ((f d).map Prod.fst) .error)
  run_statements w := by
    rw [Sql.run_statement_next, Statements.run]
    rcases w.next with _ | e
    · rcases f w.db with e | ⟨a, d⟩ <;> rfl
    · rfl

instance (f : δ → α) : Stepwise (Sql.query f : Sql ε δ α) := inferInstanceAs (Stepwise (Sql.statement _))

instance (f : δ → δ) : Stepwise (Sql.update f : Sql ε δ Unit) := inferInstanceAs (Stepwise (Sql.statement _))

instance bind {x : Sql ε δ α} {f : α → Sql ε δ β} [Stepwise x] [∀ a, Stepwise (f a)] : Stepwise (x >>= f) where
  statements := (statements x).bind fun a => statements (f a)
  run_statements w := by
    rw [Statements.run_bind, run_statements, Sql.run_bind]
    rcases x.run w with ⟨e | a, w'⟩
    · rfl
    · exact run_statements w'

instance catchWith {x : Sql ε δ α} {h : ε → Sql ε δ α} [Stepwise x] [∀ e, Stepwise (h e)] :
    Stepwise (tryCatch x h) where
  statements := (statements x).catchWith fun e => statements (h e)
  run_statements w := by
    rw [Statements.run_catchWith, run_statements, Sql.run_tryCatch]
    rcases x.run w with ⟨e | a, w'⟩
    · exact run_statements w'
    · rfl

instance {x : Sql ε δ Unit} [Stepwise x] : Stepwise (Sql.guarded x) :=
  inferInstanceAs (Stepwise (tryCatch x fun _ => pure ()))

instance {c : Prop} [Decidable c] {x y : Sql ε δ α} [Stepwise x] [Stepwise y] :
    Stepwise (if c then x else y) where
  statements := if c then statements x else statements y
  run_statements w := by
    split
    · exact run_statements w
    · exact run_statements w

/-- A loop, call by call. -/
instance each (f : α → Sql ε δ β) [∀ a, Stepwise (f a)] : ∀ as, Stepwise (Sql.each f as)
  | [] => inferInstanceAs (Stepwise (pure ()))
  | a :: as =>
    have : Stepwise (Sql.each f as) := each f as
    inferInstanceAs (Stepwise (f a >>= fun _ => Sql.each f as))

end Stepwise

end SqlDb
