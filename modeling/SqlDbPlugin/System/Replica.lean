import SqlDbPlugin.Database.Stepwise
import SqlDbPlugin.Lib.Temporal
import SqlDbPlugin.Plugin

/-!
# A replica that lags behind

What the plugin is for, with no thread and no queue: a database that follows
the signals of the chain at a distance. A signal is emitted and, if it is
accepted, waits; the statements for the first one that waits are executed,
one after the other, and then it has been applied; and the last one may get
lost. The signals applied and those that wait are some of the accepted ones,
in their order (`Replica.thinned`), and without losses all of them
(`Replica.lagging`), so that the database is at all times that of the first
few signals and of the first few statements of the next one.
-/

namespace SqlDb

open SqlDatabase

/-- A call of `consume_transaction_trace` that is under way: what is left of
it to execute, and how these statements go. -/
structure Underway where
  rest : Statements Exn Db Unit
  faults : List (Option Exn)

variable (L : ChainLib) (my : SqlDbPluginImpl)

/-- What consuming a trace executes. -/
def consumption (s : Signal) : Statements Exn Db Unit :=
  Stepwise.statements (consumeTransactionTrace (my.db.add L) s.trace)

namespace Underway

/-- The call for the signal, at its beginning. -/
def ofSignal (s : Signal) : Underway := ⟨consumption L my s, s.faults⟩

/-- Its next statement, on the database `d`. -/
def execute (u : Underway) (d : Db) : Underway × Db :=
  match u.rest.execute ⟨d, u.faults⟩ with
  | (rest, w) => (⟨rest, w.faults⟩, w.db)

end Underway

/-- The database `d` behind the first `k` statements for the first of the signals, if there is one. -/
def consumeFirst (k : Nat) (d : Db) : List Signal → Db
  | [] => d
  | s :: _ => ((consumption L my s).after k ⟨d, s.faults⟩).2.db

/-- The signals emitted, those applied, those that wait, the database, and
the call for the first signal that waits, if it is under way. -/
structure Replica where
  emitted : List Signal := []
  applied : List Signal := []
  waiting : List Signal := []
  db : Db
  underway : Option Underway := none

inductive ReplicaAct
  | emit (s : Signal)  -- the chain emits a signal, which waits if it is accepted
  | lose               -- the last signal that waits is lost, if its call is not under way
  | statement          -- a statement for the first signal that waits is executed
  | apply              -- the first signal that waits has been applied to the database

def replicaStep : ReplicaAct → Replica → Option Replica
  | .emit s, r =>
    some { r with emitted := r.emitted ++ [s], waiting := r.waiting ++ accepted my [s] }
  | .lose, r =>
    if r.waiting = [] ∨ r.underway.isSome ∧ r.waiting.dropLast = [] then none
    else some { r with waiting := r.waiting.dropLast }
  | .statement, r =>
    match r.waiting with
    | [] => none
    | s :: _ =>
      let u := r.underway.getD (.ofSignal L my s)
      if u.rest.result.isNone then
        some { r with db := (u.execute r.db).2, underway := some (u.execute r.db).1 }
      else none
  | .apply, r =>
    match r.waiting with
    | [] => none
    | s :: waiting =>
      if (r.underway.getD (.ofSignal L my s)).rest.result.isSome then
        some { r with applied := r.applied ++ [s], waiting, underway := none }
      else none

/-- The replica that starts from the database `d₀`. -/
def replica (d₀ : Db) : Machine Replica ReplicaAct where
  init := { db := d₀ }
  step := replicaStep L my

/-- No signal is lost. -/
def Lossless : ReplicaAct → Replica → Prop
  | .lose, _ => False
  | _, _ => True

variable {L my}

theorem accepted_append (xs ys : List Signal) :
    accepted my (xs ++ ys) = accepted my xs ++ accepted my ys :=
  List.filter_append ..

theorem consumeAll_append (d : Db) (xs ys : List Signal) :
    consumeAll L my d (xs ++ ys) = consumeAll L my (consumeAll L my d xs) ys :=
  List.foldl_append ..

theorem mirror_append (d : Db) (xs ys : List Signal) :
    mirror L my d (xs ++ ys) = mirror L my (mirror L my d xs) ys := by
  rw [mirror, accepted_append, consumeAll_append, mirror, mirror]

theorem consume_eq (d : Db) (s : Signal) : consume L my d s = ((consumption L my s).run ⟨d, s.faults⟩).2.db := by
  rw [consumption, Stepwise.run_statements, consume]

/-- What the first statements for a signal leave is what consuming its trace leaves when the others fail. -/
theorem consumeFirst_eq (k : Nat) (d : Db) (waiting : List Signal) :
    ∃ cut : List Signal, (∀ s ∈ cut, ∃ s' ∈ waiting, s.trace = s'.trace) ∧
      consumeFirst L my k d waiting = consumeAll L my d cut := by
  cases waiting with
  | nil => exact ⟨[], by simp, rfl⟩
  | cons s waiting =>
    obtain ⟨faults, h⟩ := Statements.exists_faults .std k (consumption L my s) ⟨d, s.faults⟩
    have hcut := @consume_eq L my d { s with faults }
    refine ⟨[{ s with faults }], fun s' hs => ⟨s, List.mem_cons_self, ?_⟩, h.symm.trans hcut.symm⟩
    rw [List.mem_singleton.mp hs]

namespace Replica

variable {d₀ : Db} {r r' : Replica}

/-- What a step of the replica does. -/
theorem step_cases {a : ReplicaAct} (h : replicaStep L my a r = some r') :
    (∃ s, a = .emit s ∧ r' = { r with emitted := r.emitted ++ [s], waiting := r.waiting ++ accepted my [s] }) ∨
    (a = .lose ∧ (r.underway.isSome → r.waiting.dropLast ≠ []) ∧
      r' = { r with waiting := r.waiting.dropLast }) ∨
    ∃ s waiting u, r.waiting = s :: waiting ∧ u = r.underway.getD (.ofSignal L my s) ∧
      ((a = .statement ∧ r' = { r with db := (u.execute r.db).2, underway := some (u.execute r.db).1 }) ∨
        ∃ result, a = .apply ∧ u.rest.result = some result ∧
          r' = { r with applied := r.applied ++ [s], waiting, underway := none }) := by
  cases a with
  | emit s => exact .inl ⟨s, rfl, (Option.some.inj h).symm⟩
  | lose =>
    simp only [replicaStep] at h
    split at h <;> cases h
    rename_i hno
    exact .inr (.inl ⟨rfl, fun hu hnil => hno (.inr ⟨hu, hnil⟩), rfl⟩)
  | statement =>
    simp only [replicaStep] at h
    split at h
    · cases h
    · rename_i s waiting hw
      split at h <;> cases h
      exact .inr (.inr ⟨s, waiting, _, hw, rfl, .inl ⟨rfl, rfl⟩⟩)
  | apply =>
    simp only [replicaStep] at h
    split at h
    · cases h
    · rename_i s waiting hw
      split at h <;> cases h
      rename_i hdone
      obtain ⟨result, hresult⟩ := Option.isSome_iff_exists.mp hdone
      exact .inr (.inr ⟨s, waiting, _, hw, rfl, .inr ⟨result, rfl, hresult, rfl⟩⟩)

/-- Where the replica is: between two signals, or behind the first `k`
statements for the first one that waits. -/
structure CallInv (L : ChainLib) (my : SqlDbPluginImpl) (d₀ : Db) (r : Replica) : Prop where
  between : r.underway = none → r.db = consumeAll L my d₀ r.applied
  within {u : Underway} : r.underway = some u → ∃ k s waiting, r.waiting = s :: waiting ∧
    (u.rest, ⟨r.db, u.faults⟩) = (consumption L my s).after k ⟨consumeAll L my d₀ r.applied, s.faults⟩

/-- The call for the first signal that waits, which is under way or about to begin. -/
theorem CallInv.call (h : r.CallInv L my d₀) {s : Signal} {waiting : List Signal} (hw : r.waiting = s :: waiting) :
    ∃ k, ((r.underway.getD (.ofSignal L my s)).rest, ⟨r.db, (r.underway.getD (.ofSignal L my s)).faults⟩) =
      (consumption L my s).after k ⟨consumeAll L my d₀ r.applied, s.faults⟩ := by
  cases hu : r.underway with
  | none =>
    rw [h.between hu]
    exact ⟨0, rfl⟩
  | some u =>
    obtain ⟨k, s', waiting', hw', hk⟩ := h.within hu
    cases hw.symm.trans hw'
    exact ⟨k, hk⟩

theorem callInv_step {a : ReplicaAct} (h : r.CallInv L my d₀) (hs : replicaStep L my a r = some r') :
    r'.CallInv L my d₀ := by
  obtain ⟨s, -, rfl⟩ | ⟨-, hmore, rfl⟩ | ⟨s, waiting, u, hw, rfl, ⟨-, rfl⟩ | ⟨result, -, hresult, rfl⟩⟩ :=
    step_cases hs
  · refine ⟨h.between, fun hu => ?_⟩
    obtain ⟨k, s', waiting, hw, hk⟩ := h.within hu
    exact ⟨k, s', waiting ++ accepted my [s], congrArg (· ++ _) hw, hk⟩
  · refine ⟨h.between, fun {u} hu => ?_⟩
    obtain ⟨k, s, waiting, hw, hk⟩ := h.within hu
    have hu : r.underway = some u := hu
    have hne : r.waiting.dropLast ≠ [] := hmore (by rw [hu]; rfl)
    rw [hw] at hne
    cases waiting with
    | nil => exact absurd rfl hne
    | cons s' waiting => exact ⟨k, s, _, congrArg List.dropLast hw, hk⟩
  · obtain ⟨k, hk⟩ := h.call hw
    refine ⟨fun hu => (by cases hu), fun hu => ⟨k + 1, s, waiting, hw, ?_⟩⟩
    cases hu
    rw [Statements.after, ← hk]
    rfl
  · refine ⟨fun _ => ?_, fun hu => (by cases hu)⟩
    obtain ⟨k, hk⟩ := h.call hw
    have hrun := Statements.run_after k (consumption L my s) ⟨consumeAll L my d₀ r.applied, s.faults⟩
    rw [← hk, Statements.run_of_result hresult] at hrun
    show r.db = _
    rw [consumeAll_append, consumeAll, List.foldl_cons, List.foldl_nil, consume_eq, ← hrun]

theorem callInv (h : (replica L my d₀).Reachable r) : r.CallInv L my d₀ :=
  h.inv (I := CallInv L my d₀) ⟨fun _ => rfl, fun hu => (by cases hu)⟩ fun _ _ _ hI _ hs => callInv_step hI hs

/-- The database is that of the signals applied, and of the first few
statements for the first one that waits. -/
theorem db_eq (h : (replica L my d₀).Reachable r) :
    (∃ k, r.db = consumeFirst L my k (consumeAll L my d₀ r.applied) r.waiting) ∧
      (r.underway = none → r.db = consumeAll L my d₀ r.applied) := by
  have hI := callInv h
  refine ⟨?_, hI.between⟩
  cases hu : r.underway with
  | none =>
    refine ⟨0, (hI.between hu).trans ?_⟩
    cases r.waiting <;> rfl
  | some u =>
    obtain ⟨k, s, waiting, hw, hk⟩ := hI.within hu
    refine ⟨k, ?_⟩
    rw [hw, consumeFirst, ← hk]

/-- The signals applied and those that wait are some of the accepted ones, in their order. -/
theorem thinned (h : (replica L my d₀).Reachable r) :
    (r.applied ++ r.waiting).Sublist (accepted my r.emitted) := by
  refine h.inv (I := fun r => (r.applied ++ r.waiting).Sublist (accepted my r.emitted))
    (List.Sublist.refl _) fun a r r' hI _ hs => ?_
  obtain ⟨s, -, rfl⟩ | ⟨-, -, rfl⟩ | ⟨s, waiting, u, hw, -, ⟨-, rfl⟩ | ⟨-, -, -, rfl⟩⟩ := step_cases hs
  · rw [accepted_append, ← List.append_assoc]
    exact hI.append (List.Sublist.refl _)
  · exact ((List.dropLast_sublist _).append_left r.applied).trans hI
  · exact hI
  · simpa [hw] using hI

/-- Without losses they are all of them. -/
theorem lagging (h : (replica L my d₀).Reach Lossless r) :
    r.applied ++ r.waiting = accepted my r.emitted := by
  refine h.inv (I := fun r => r.applied ++ r.waiting = accepted my r.emitted) rfl
    fun a r r' hI ha hs => ?_
  obtain ⟨s, -, rfl⟩ | ⟨rfl, -⟩ | ⟨s, waiting, u, hw, -, ⟨-, rfl⟩ | ⟨-, -, -, rfl⟩⟩ := step_cases hs
  · rw [accepted_append, ← List.append_assoc, hI]
  · cases ha
  · exact hI
  · simpa [hw] using hI

/-- Without losses the database is that of the first few signals and of the
first few statements for the next accepted one, and the accepted ones of the
others wait. -/
theorem lagging_db (h : (replica L my d₀).Reach Lossless r) :
    ∃ done rest, r.emitted = done ++ rest ∧ r.applied = accepted my done ∧ r.waiting = accepted my rest ∧
      (∃ k, r.db = consumeFirst L my k (mirror L my d₀ done) (accepted my rest)) ∧
      (r.underway = none → r.db = mirror L my d₀ done) := by
  obtain ⟨done, rest, hem, hdone, hrest⟩ := List.filter_eq_append_iff.mp (lagging h).symm
  have hdb := db_eq (h.mono fun _ _ _ => trivial)
  rw [← hdone, ← hrest] at hdb
  exact ⟨done, rest, hem, hdone.symm, hrest.symm, hdb⟩

/-- What is applied changes where a call comes to its end. -/
theorem applied_step {a : ReplicaAct} (h : replicaStep L my a r = some r') :
    r'.applied = r.applied ∨ r'.underway = none := by
  obtain ⟨s, -, rfl⟩ | ⟨-, -, rfl⟩ | ⟨s, waiting, u, -, -, ⟨-, rfl⟩ | ⟨-, -, -, rfl⟩⟩ := step_cases h
  · exact .inl rfl
  · exact .inl rfl
  · exact .inl rfl
  · exact .inr rfl

/-- When all that has been accepted by some moment has been applied, no call
has been under way at some moment since. -/
theorem applied_between {ρ : (replica L my d₀).Behaviour Lossless} {n m : Nat} (hm : m ≥ n)
    (h : (accepted my (ρ.state n).emitted).length ≤ (ρ.state m).applied.length) :
    ∃ j ≥ n, (accepted my (ρ.state n).emitted).length ≤ (ρ.state j).applied.length ∧
      (ρ.state j).underway = none := by
  induction m, hm using Nat.le_induction with
  | base =>
    refine ⟨n, Nat.le_refl n, h, ?_⟩
    have hall := lagging (ρ.reach n)
    have hI := callInv ((ρ.reach n).mono fun _ _ _ => trivial)
    cases hu : (ρ.state n).underway with
    | none => rfl
    | some u =>
      -- its signal would wait
      obtain ⟨k, s, waiting, hw, -⟩ := hI.within hu
      rw [← hall, hw, List.length_append, List.length_cons] at h
      omega
  | succ m hm ih =>
    cases hl : ρ.label m with
    | none =>
      rw [ρ.stutter m hl] at h
      exact ih h
    | some a =>
      obtain ⟨-, hs⟩ := ρ.step m a hl
      obtain he | hu := applied_step hs
      · rw [he] at h
        exact ih h
      · exact ⟨m + 1, Nat.le_succ_of_le hm, h, hu⟩

end Replica

end SqlDb
