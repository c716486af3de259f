import SqlDbPlugin.Mirror.Omissions
import SqlDbPlugin.System.Node

/-!
# What the database holds

The contents of the tables as a function of the signals, without the
database: `reference` is the list of the actions that are recorded, trace by
trace and in pre-order, each with the abi in force for its account, which is
that of the last `setabi` before it. A payload that is no
`system_contract_arg` ends its trace. From this list the rows of every
table are read off (`Tried.changes`).

`mirror_reference`: these are the rows in the database when no statement
fails. With `node_lags` the rows at any moment of any interleaving are those
of the first few signals and of the first few statements for the next one
(`node_reference`).
-/

namespace SqlDb

open Machine
open Sql (each query)
open ActionsTable
open ActionTrace (nodeAt visits visited)

/-- A call of `add` for an action whose name is in the filter, and the abi
in force for the account of the action. -/
structure Tried where
  args : AddArgs
  abi : Option JsonText

section Reference

variable (L : ChainLib) (my : SqlDbPluginImpl)

namespace Tried

def dataJson (t : Tried) : Except Exn SystemContractArg :=
  contractArg L (payload L t.abi t.args.action)

/-- What it changes: the abi of a `setabi`, and if the payload is a
`system_contract_arg`, the row and what `parse_actions` writes. -/
def changes (t : Tried) : Changes :=
  (setabiOf L t.args.action).elim {} .ofAbi ++
    match t.dataJson L with
    | .ok dataJson =>
      { actions := [actionRow L t.args.action t.args.transactionId t.args.blockTime
          (payload L t.abi t.args.action) dataJson] } ++
        (writeOf L t.abi t.args.action).elim {} Write.changes
    | .error _ => {}

end Tried

/-- What all of them change. -/
def changesOf (ts : List Tried) : Changes := .join (ts.map (·.changes L))

/-- The calls for a trace, up to the first that throws. -/
def triedFrom (abis : String → Option JsonText) : List AddArgs → List Tried
  | [] => []
  | a :: as =>
    let t : Tried := { args := a, abi := abis a.action.account.str }
    t :: match t.dataJson L with
      | .ok _ => triedFrom (lastWrite abis (t.changes L).abis) as
      | .error _ => []

/-- What `add` is called with for the actions recorded of a trace. -/
def recordedArgs (filter : List String) (tc : TransactionTrace) : List AddArgs :=
  (recordedPositions filter tc.actionTraces).filterMap fun p =>
    (nodeAt tc.actionTraces p).map fun t => ⟨t.act, tc.id, tc.blockTime⟩

/-- The calls for the traces pushed, where `abis` are the abis stored before. -/
def reference (abis : String → Option JsonText) : List Signal → List Tried
  | [] => []
  | s :: pushed =>
    let ts := triedFrom L abis (recordedArgs my.db.mActionFilterOn s.trace)
    ts ++ reference (lastWrite abis (changesOf L ts).abis) pushed

end Reference

variable {L : ChainLib} {my : SqlDbPluginImpl}

/-! ## One call -/

theorem made_afterData (action : Action) (d : Db) :
    ((setabiOf L action).elim {} .ofAbi : Changes).Made d (afterData L action d) := by
  rw [afterData]
  rcases setabiOf L action with _ | s
  · exact .refl d
  · exact Changes.made_upsertAbi d s.1 s.2

theorem made_afterParse {abi : Option JsonText} {action : Action} {d : Db}
    (h : writeOf L (d.abiOf action.account.str) action = writeOf L abi action) :
    ((writeOf L abi action).elim {} Write.changes).Made d (afterParse L action d) := by
  rw [afterParse, h]
  rcases writeOf L abi action with _ | r
  · exact .refl d
  · exact Changes.made_apply r d

/-- What is stored for the account of an action that writes is the same before and behind its own `setabi`. -/
theorem writeOf_afterData (action : Action) (d : Db) :
    writeOf L ((afterData L action d).abiOf action.account.str) action =
      writeOf L (d.abiOf action.account.str) action := by
  rcases hs : setabiOf L action with _ | s
  · rw [afterData, hs]
    rfl
  · rw [writeOf_of_setabiOf hs, writeOf_of_setabiOf hs]

theorem added_made {filter : List String} {a : AddArgs} (hf : a.action.name.str ∈ filter) (d : Db) :
    (Tried.changes L { args := a, abi := d.abiOf a.action.account.str }).Made d (added L filter d a) := by
  have hdata := made_afterData (L := L) a.action d
  rw [added, run_add_of_mem hf, Tried.changes, Tried.dataJson]
  rcases contractArg L (payload L (d.abiOf a.action.account.str) a.action) with e | dataJson
  · exact hdata.append (.refl _)
  · refine hdata.append (Changes.Made.append (Changes.made_insertAction _ _) (made_afterParse ?_))
    exact writeOf_afterData a.action d

/-! ## Runs -/

theorem changesOf_append (ts ts' : List Tried) : changesOf L (ts ++ ts') = changesOf L ts ++ changesOf L ts' := by
  rw [changesOf, List.map_append, Changes.join_append]
  rfl

/-- The actions whose names are not in the filter do nothing. -/
theorem run_each_filter (filter : List String) (as : List AddArgs) (w : World Exn Db) :
    (each (ActionsTable.add L filter) as).run w =
      (each (ActionsTable.add L filter) (as.filter fun a => a.action.name.str ∈ filter)).run w := by
  induction as generalizing w with
  | nil => rfl
  | cons a as ih =>
    by_cases hf : a.action.name.str ∈ filter
    · rw [List.filter_cons_of_pos (by simpa using hf), each, each, Sql.run_bind, Sql.run_bind]
      rcases (ActionsTable.add L filter a).run w with ⟨e | b, w'⟩
      · rfl
      · exact ih w'
    · rw [List.filter_cons_of_neg (by simpa using hf), each,
        Sql.run_bind_ok (run_add_of_not_mem hf w), ih]

theorem each_made {filter : List String} {as : List AddArgs} (hf : ∀ a ∈ as, a.action.name.str ∈ filter)
    (d : Db) : (changesOf L (triedFrom L d.abiOf as)).Made d
      ((each (ActionsTable.add L filter) as).run ⟨d, []⟩).2.db := by
  induction as generalizing d with
  | nil => exact .refl d
  | cons a as ih =>
    have ha : a.action.name.str ∈ filter := hf a List.mem_cons_self
    have hmade := added_made (L := L) ha d
    have habis : (added L filter d a).abiOf = lastWrite d.abiOf
        (Tried.changes L { args := a, abi := d.abiOf a.action.account.str }).abis := funext hmade.abis
    have hrun := run_add_of_mem (L := L) ha d
    rw [triedFrom, Tried.dataJson, each]
    rcases hc : contractArg L (payload L (d.abiOf a.action.account.str) a.action) with e | dataJson <;>
      rw [hc] at hrun <;> rw [added, hrun] at hmade habis
    · rw [Sql.run_bind_error hrun]
      exact hmade.append (.refl _)
    · rw [Sql.run_bind_ok hrun]
      refine Changes.Made.append hmade ?_
      rw [← habis]
      exact ih (fun a' h => hf a' (List.mem_cons_of_mem a h)) _

/-- The calls of `add` that record are those for the actions recorded. -/
theorem recordedArgs_eq (filter : List String) (tc : TransactionTrace) :
    recordedArgs filter tc = (traceArgs filter tc).filter fun a => a.action.name.str ∈ filter := by
  have hnodes : (recordedPositions filter tc.actionTraces).filterMap
      (fun p => (nodeAt tc.actionTraces p).map (·.act)) =
        (visited filter tc.actionTraces).filter fun a => a.name.str ∈ filter := by
    have hid := List.filterMap_map (f := fun p => (nodeAt tc.actionTraces p).map (·.act)) (g := id)
      (l := recordedPositions filter tc.actionTraces)
    rw [map_recordedPositions, List.filterMap_map] at hid
    exact hid.symm.trans (by simp)
  rw [traceArgs, List.filter_map, recordedArgs]
  refine Eq.trans ?_ (congrArg (List.map _) hnodes)
  rw [List.map_filterMap]
  exact List.filterMap_congr fun p _ => by rw [Option.map_map]; rfl

theorem consume_made {s : Signal} (hs : s.faults = []) (d : Db) :
    (changesOf L (triedFrom L d.abiOf (recordedArgs my.db.mActionFilterOn s.trace))).Made d
      (consume L my d s) := by
  have hrecorded : ∀ a ∈ recordedArgs my.db.mActionFilterOn s.trace,
      a.action.name.str ∈ my.db.mActionFilterOn := by
    rw [recordedArgs_eq]
    intro a ha
    simpa using List.of_mem_filter ha
  have hsession : (SqlDatabase.getSession : SqlM Unit).run ⟨d, []⟩ = (.ok (), ⟨d, []⟩) := rfl
  have hadd : my.db.add L = ActionsTable.add L my.db.mActionFilterOn := rfl
  rw [consume, consumeTransactionTrace_eq (answers_dbAdd L my.db), hs,
    Sql.run_bind_ok hsession, hadd, run_each_filter, ← recordedArgs_eq]
  exact each_made hrecorded d

theorem consumeAll_made {pushed : List Signal} (hs : ∀ s ∈ pushed, s.faults = []) (d : Db) :
    (changesOf L (reference L my d.abiOf pushed)).Made d (consumeAll L my d pushed) := by
  induction pushed generalizing d with
  | nil => exact .refl d
  | cons s pushed ih =>
    have hmade := @consume_made L my s (hs s List.mem_cons_self) d
    have habis := funext hmade.abis
    rw [reference, changesOf_append, ← habis]
    exact hmade.append (ih (fun s' h => hs s' (List.mem_cons_of_mem s h)) _)

/-- When no statement fails, the database is the one at the start with the
changes made of the actions that the traversals record, trace by trace and
in pre-order, up to the first of a trace whose payload is no
`system_contract_arg`. -/
theorem mirror_reference {signals : List Signal} (hs : ∀ s ∈ signals, s.faults = []) (d : Db) :
    (changesOf L (reference L my d.abiOf (accepted my signals))).Made d (mirror L my d signals) :=
  consumeAll_made (fun s h => hs s (List.mem_of_mem_filter h)) d

/-- Of two issues one row each is recorded. -/
theorem mirror_reference_issues :
    (changesOf .sample (reference .sample tokenPlugin ({} : Db).abiOf
      (accepted tokenPlugin [⟨issueTrace, []⟩, ⟨issueTrace, []⟩]))).actions.length = 2 ∧
    (changesOf .sample (reference .sample tokenPlugin ({} : Db).abiOf
      (accepted tokenPlugin [⟨issueTrace, []⟩, ⟨issueTrace, []⟩]))).Made {}
        (mirror .sample tokenPlugin {} [⟨issueTrace, []⟩, ⟨issueTrace, []⟩]) :=
  ⟨by decide +kernel, mirror_reference (by simp) {}⟩

/-! ## The node -/

/-- No append runs out of memory, and no statement fails. -/
def Undisturbed : NodeAct → Node → Prop
  | .emit s, _ => s.faults = []
  | a, n => InMemory a n

instance : ∀ (a : NodeAct) (n : Node), Decidable (Undisturbed a n)
  | .emit s, _ => inferInstanceAs (Decidable (s.faults = []))
  | .act a, n => inferInstanceAs (Decidable (InMemory (.act a) n))

theorem Undisturbed.inMemory {a : NodeAct} {n : Node} (h : Undisturbed a n) : InMemory a n := by
  cases a with
  | emit s => trivial
  | act a => exact h

variable {d₀ : Db} {n : Node}

theorem faults_of_undisturbed (h : (node L my d₀).Reach Undisturbed n) : ∀ s ∈ n.emitted, s.faults = [] := by
  refine h.inv (I := fun n => ∀ s ∈ n.emitted, s.faults = []) (by simp [node]) fun a n n' hI ha hs => ?_
  cases a with
  | emit s =>
    intro s' hs'
    rw [(Node.emit_eq_some (L := L) hs).2.1] at hs'
    obtain hs' | hs' := List.mem_append.mp hs'
    · exact hI s' hs'
    · rw [List.mem_singleton.mp hs']
      exact ha
  | act a => rwa [Node.emitted_act (L := L) hs]

/-- The database that the first few signals make is the one the reference computes from them. -/
theorem made_of_emitted (h : (node L my d₀).Reach Undisturbed n) {done rest : List Signal}
    (hem : n.emitted = done ++ rest) :
    (changesOf L (reference L my d₀.abiOf (accepted my done))).Made d₀ (mirror L my d₀ done) := by
  refine consumeAll_made (fun s hs => faults_of_undisturbed h s ?_) d₀
  rw [hem]
  exact List.mem_append_left rest (List.mem_of_mem_filter hs)

/-- In every interleaving of the chain's thread with the workers and their
statements, when there is memory and no statement fails: the rows of the
database are at every moment those of the first few signals emitted, and
what the first few statements for the next accepted one make of them, and
the accepted ones of the others wait. Where no call is under way, they are
just those of the first few signals. -/
theorem node_reference (h : (node L my d₀).Reach Undisturbed n) :
    ∃ done rest d k, n.emitted = done ++ rest ∧ waitingIn n.consumer = accepted my rest ∧
      (changesOf L (reference L my d₀.abiOf (accepted my done))).Made d₀ d ∧
      n.db = consumeFirst L my k d (accepted my rest) ∧ (n.Resting → n.db = d) := by
  obtain ⟨done, rest, hem, hw, ⟨k, hk⟩, hrest⟩ := lagging_db (h.mono fun _ _ => Undisturbed.inMemory)
  exact ⟨done, rest, _, k, hem, hw, made_of_emitted h hem, hk, hrest⟩

/-- Two issues are emitted; of the first one the row is there, and its call has statements left. -/
theorem node_reference_run : ∃ n, (node .sample tokenPlugin {}).Reach Undisturbed n ∧
    (n.emitted.length = 2 ∧ n.db.actions.length = 1) ∧
    ∃ done rest d k, n.emitted = done ++ rest ∧ waitingIn n.consumer = accepted tokenPlugin rest ∧
      (changesOf .sample (reference .sample tokenPlugin ({} : Db).abiOf (accepted tokenPlugin done))).Made {} d ∧
      n.db = consumeFirst .sample tokenPlugin k d (accepted tokenPlugin rest) ∧ (n.Resting → n.db = d) := by
  obtain ⟨n, hn, hp⟩ := Machine.reach_of_run (M := node .sample tokenPlugin {}) Undisturbed
    (p := fun n => n.emitted.length == 2 && n.db.actions.length == 1)
    (emitAndPush ++ workTraces 11 ++ emitAndPush) (by decide +kernel)
  simp only [Bool.and_eq_true, beq_iff_eq] at hp
  exact ⟨n, hn, hp, node_reference hn⟩

end SqlDb
