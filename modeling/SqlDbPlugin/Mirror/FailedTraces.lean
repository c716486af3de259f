import SqlDbPlugin.Database.Effects
import SqlDbPlugin.Mirror.Recorded

/-!
# Failed transactions

The signal is emitted for failed transactions as well, and neither the
handler nor what consumes a trace reads `receipt` or `except`. So a run
makes the same of the database whatever the transactions' statuses are, and
only the failed traces with nothing to record leave it alone
(`status_ignored`). `failed_transaction_recorded` is a run with a failed
issue.
-/

namespace SqlDb

open Sql (Within)
open ActionTrace (nodeAt Matches Reaches visited forall_visited)
open ActionsTable (AddArgs)
open SqlDatabase

variable {L : ChainLib} {my : SqlDbPluginImpl}

/-- The signal of a transaction that went another way: with another receipt and exception. -/
def Signal.withStatus (s : Signal) (receipt : Option TransactionStatus) (except : Option String) :
    Signal :=
  { s with trace := { s.trace with receipt, except } }

theorem accepted_withStatus (receipt : Signal → Option TransactionStatus)
    (except : Signal → Option String) (signals : List Signal) :
    accepted my (signals.map fun s => s.withStatus (receipt s) (except s)) =
      (accepted my signals).map fun s => s.withStatus (receipt s) (except s) := by
  rw [accepted, List.filter_map]
  rfl

/-- The traversal of the trace meets no action that matches. -/
def MeetsNoMatch (my : SqlDbPluginImpl) (tc : TransactionTrace) : Prop :=
  ∀ p t, nodeAt tc.actionTraces p = some t → Reaches my.db.mActionFilterOn tc.actionTraces p →
    ¬ t.Matches my.db.mActionFilterOn

theorem meetsNoMatch_iff {tc : TransactionTrace} :
    MeetsNoMatch my tc ↔
      ∀ a ∈ visited my.db.mActionFilterOn tc.actionTraces, a.name.str ∉ my.db.mActionFilterOn := by
  rw [forall_visited]
  exact ⟨fun h p t ht hr hR hf => h p t ht hR ⟨hr, hf⟩, fun h p t ht hR hm => h p t ht hm.1 hR hm.2⟩

instance (my : SqlDbPluginImpl) (tc : TransactionTrace) : Decidable (MeetsNoMatch my tc) :=
  decidable_of_iff' _ meetsNoMatch_iff

instance (tt : TransactionTrace) : Decidable tt.failed := inferInstanceAs (Decidable (_ ∨ _))

/-- Such a trace leaves the database alone, however its statements go. -/
theorem consume_of_meetsNoMatch {s : Signal} (h : MeetsNoMatch my s.trace) (d : Db) :
    consume L my d s = d := by
  refine (consume_within (R := Eq) (fun a ha => ?_) d).symm
  obtain ⟨act, hact, rfl⟩ := List.mem_map.mp ha
  intro w
  rw [SqlDatabase.add, ActionsTable.run_add_of_not_mem (meetsNoMatch_iff.mp h act hact)]

/-- The failed traces with nothing to record can be left out of a run. -/
theorem consumeAll_filter (pushed : List Signal) (d : Db) :
    consumeAll L my d (pushed.filter fun s => ¬ (s.trace.failed ∧ MeetsNoMatch my s.trace)) =
      consumeAll L my d pushed := by
  induction pushed generalizing d with
  | nil => rfl
  | cons s pushed ih =>
    by_cases h : s.trace.failed ∧ MeetsNoMatch my s.trace
    · rw [List.filter_cons, if_neg (by simpa using h), ih]
      show _ = consumeAll L my (consume L my d s) pushed
      rw [consume_of_meetsNoMatch h.2]
    · rw [List.filter_cons, if_pos (decide_eq_true h)]
      exact ih (consume L my d s)

/-- The database after a run is that of the run in which every transaction
went any other way, and that of the run without the failed traces whose
traversals meet no action that matches. -/
theorem status_ignored (L : ChainLib) (my : SqlDbPluginImpl) (d : Db) (signals : List Signal) :
    (∀ (receipt : Signal → Option TransactionStatus) (except : Signal → Option String),
      mirror L my d (signals.map fun s => s.withStatus (receipt s) (except s)) = mirror L my d signals) ∧
    mirror L my d (signals.filter fun s => ¬ (s.trace.failed ∧ MeetsNoMatch my s.trace)) =
      mirror L my d signals := by
  constructor
  · intro receipt except
    rw [mirror, accepted_withStatus, consumeAll, List.foldl_map]
    rfl
  · rw [mirror, mirror, ← consumeAll_filter (accepted my signals)]
    congr 1
    exact List.filter_comm ..

/-- An issue whose transaction failed when it was billed. -/
def failedTrace : TransactionTrace :=
  { issueTrace with
    receipt := none
    except := some "billed CPU time is greater than the maximum" }

/-- The failed issue is recorded, as an issue that was executed is. -/
theorem failed_transaction_recorded :
    failedTrace.failed ∧
    mirror .sample tokenPlugin {} [⟨failedTrace, []⟩] ≠
      mirror .sample tokenPlugin {}
        ([⟨failedTrace, []⟩].filter fun s : Signal => ¬ s.trace.failed) := by
  refine ⟨by decide, fun h => ?_⟩
  have hrows : (mirror .sample tokenPlugin {} [⟨failedTrace, []⟩]).actions.length = 1 := rfl
  rw [h] at hrows
  cases hrows

end SqlDb
