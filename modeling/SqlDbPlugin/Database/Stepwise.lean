import SqlDbPlugin.Database.Traversal
import SqlDbPlugin.Lib.Statements

/-!
# What consuming a trace executes

`consume_transaction_trace` and the functions it calls, statement by
statement. There is no `BEGIN` around them, so what each statement writes is
there for others to read when it has been executed.
-/

namespace SqlDb

open Sql (lift guarded query update each)
open ActionsTable
open SqlDatabase

variable (L : ChainLib) (action : Action)

namespace ActionsTable

instance (name : Name) : Stepwise (selectAbi name) := inferInstanceAs (Stepwise (query _))

instance : Stepwise (storeAbi L action) := by
  unfold storeAbi
  have (e : Exn) : Stepwise (match e with
      | .fc => pure none
      | e => throw e : SqlM (Option JsonText)) := by
    cases e <;> infer_instance
  infer_instance

instance : Stepwise (storedData L action) := by
  unfold storedData
  infer_instance

instance : Stepwise (addData L action) := by
  unfold addData
  have (stored : Option JsonText) : Stepwise (match stored with
      | some json => pure json
      | none => storedData L action) := by
    cases stored <;> infer_instance
  infer_instance

instance (account : Name) (permission : String) (keys : List String) : Stepwise (insertKeys account permission keys) :=
  inferInstanceAs (Stepwise (each _ keys))

instance : Stepwise (parseNewaccount L action) := by
  unfold parseNewaccount
  infer_instance

variable (v : Variant)

instance : Stepwise (parseVoteproducer L v) := by
  unfold parseVoteproducer
  infer_instance

instance : Stepwise (parsePropose L v) := by
  unfold parsePropose
  infer_instance

instance : Stepwise (parseCancelExec L v) := by
  unfold parseCancelExec
  infer_instance

instance : Stepwise (parseCreate L action v) := by
  unfold parseCreate
  infer_instance

instance : Stepwise (parseData L action v) := by
  unfold parseData
  infer_instance

instance : Stepwise (parseActions L action) := by
  unfold parseActions
  infer_instance

instance (filter : List String) (a : AddArgs) : Stepwise (add L filter a) := by
  unfold add
  infer_instance

end ActionsTable

namespace SqlDatabase

instance : Stepwise (getSession : SqlM Unit) := inferInstanceAs (Stepwise (query _))

instance (db : SqlDatabase) (a : AddArgs) : Stepwise (db.add L a) :=
  inferInstanceAs (Stepwise (ActionsTable.add L db.mActionFilterOn a))

mutual

instance stepwiseTraces (add : AddArgs → SqlM Bool) [∀ a, Stepwise (add a)] (transactionId : String)
    (blockTime : BlockTimestamp) : ∀ ts, Stepwise (dfsInlineTraces add transactionId blockTime ts)
  | [] => by
    unfold dfsInlineTraces
    infer_instance
  | t :: ts => by
    have := stepwiseTrace add transactionId blockTime t
    have := stepwiseTraces add transactionId blockTime ts
    unfold dfsInlineTraces
    infer_instance

instance stepwiseTrace (add : AddArgs → SqlM Bool) [∀ a, Stepwise (add a)] (transactionId : String)
    (blockTime : BlockTimestamp) : ∀ t, Stepwise (dfsInlineTrace add transactionId blockTime t)
  | ⟨receiver, act, inlineTraces⟩ => by
    have := stepwiseTraces add transactionId blockTime inlineTraces
    unfold dfsInlineTrace
    infer_instance

end

instance (add : AddArgs → SqlM Bool) [∀ a, Stepwise (add a)] (tc : TransactionTrace) :
    Stepwise (consumeTransactionTrace add tc) := by
  unfold consumeTransactionTrace
  infer_instance

end SqlDatabase

end SqlDb
