import SqlDbPlugin.Consumer.Fifo
import SqlDbPlugin.Database.Traversal

/-!
# The plugin

`plugin_initialize`, the handler of the `applied_transaction` signal, and
what a run of the plugin makes of the database. A run is the list of the
signals, each with the way the statements go that its trace causes
(`Signal`); `mirror` is the database when all are consumed. The consumer
stands between the two: whatever its threads have done so far, the database
is that of the first few signals, and of all of them once its queues are
empty (`consumed_prefix`, `consumed_all`).
-/

namespace SqlDb

open Sql (each query trail)
open ActionsTable (AddArgs)
open SqlDatabase

/-- The program options the plugin reads. -/
structure Options where
  queueSize : UInt32 := 5000
  blockStart : UInt32 := 0
  uri : Option String := none
  actionFilterOn : Option String := none
  contractFilterOut : Option String := none

/-- `boost::replace_all(fo, " ", "")`, and `boost::split` at the commas. -/
def splitList (fo : String) : List String :=
  ((fo.toList.filter (· ≠ ' ')).splitOn ',').map String.ofList

/-- What the signal handler and the consumer keep. `db` is the consumer's
`sql_database`, `blockNumStart` is captured by the handler. -/
structure SqlDbPluginImpl where
  contractFilterOut : List String
  blockNumStart : UInt32
  queueSize : UInt32
  db : SqlDatabase

namespace SqlDbPluginImpl

def filterOutContract (my : SqlDbPluginImpl) (contract : String) : Bool :=
  my.contractFilterOut.contains contract

/-- Whether `applied_transaction` pushes the trace. -/
def appliedTransaction (tc : TransactionTrace) : Bool :=
  !isOnblock (tc.actionTraces.map (·.act.name))

/-- Whether the handler connected to the signal leads to a push. -/
def onAppliedTransaction (my : SqlDbPluginImpl) (tt : TransactionTrace) : Bool :=
  if tt.blockNum < my.blockNumStart then false else appliedTransaction tt

end SqlDbPluginImpl

/-- `soci_session_pool(pool_size, uri)`: opens the sessions. -/
def openPool (poolSize : Nat) : SqlM Unit := each (fun _ => query fun _ => ()) (List.range poolSize)

/-- `plugin_initialize`; `amount` is what `exist` finds in its local. It
returns nothing if the plugin is disabled. -/
def pluginInitialize (L : ChainLib) (amount : Int) (options : Options) : SqlM (Option SqlDbPluginImpl) := do
  let actionFilterOn := (options.actionFilterOn.map splitList).getD []
  let contractFilterOut := (options.contractFilterOut.map splitList).getD []
  match options.uri with
  | none => throw .std
  | some uri =>
    if uri = "" then
      return none
    else
      openPool 1
      openPool 5
      let db : SqlDatabase := {
        mBlockNumStart := options.blockStart
        mActionFilterOn := actionFilterOn
        mContractFilterOut := contractFilterOut }
      if !(← db.isStarted amount) then
        if options.blockStart = 0 then
          db.wipe L
      return some {
        contractFilterOut
        blockNumStart := options.blockStart
        queueSize := options.queueSize
        db }

/-! ## Runs -/

/-- An emission of `applied_transaction`, and how the statements go that
consuming its trace executes. -/
structure Signal where
  trace : TransactionTrace
  faults : List (Option Exn) := []

variable (L : ChainLib) (my : SqlDbPluginImpl)

/-- The database when the worker has consumed a trace; it logs what consuming throws. -/
def consume (d : Db) (s : Signal) : Db :=
  ((consumeTransactionTrace (my.db.add L) s.trace).run ⟨d, s.faults⟩).2.db

/-- The database when the worker has consumed the traces pushed. -/
def consumeAll (d : Db) (pushed : List Signal) : Db := pushed.foldl (consume L my) d

/-- The signals whose traces are pushed. -/
def accepted (signals : List Signal) : List Signal :=
  signals.filter fun s => my.onAppliedTransaction s.trace

/-- The database when the signals are handled and the queue is drained. -/
def mirror (d : Db) (signals : List Signal) : Db := consumeAll L my d (accepted my signals)

/-- The calls of `add` in the run that starts in the database `d`. -/
def callsMade (d : Db) : List Signal → List (Sql.Call Exn Db AddArgs Bool)
  | [] => []
  | s :: signals => traceCalls (my.db.add L) s.trace ⟨d, s.faults⟩ ++ callsMade (consume L my d s) signals

variable {L my}

/-- What each call of `add` stays within, consuming a trace stays within. -/
theorem consume_within {R : Db → Db → Prop} [Std.Refl R] [IsTrans Db R] {s : Signal}
    (h : ∀ a ∈ traceArgs my.db.mActionFilterOn s.trace, Sql.Within R (my.db.add L a)) (d : Db) :
    R d (consume L my d s) := by
  have hconsume : Sql.Within R (consumeTransactionTrace (my.db.add L) s.trace) := by
    rw [consumeTransactionTrace_eq (answers_dbAdd L my.db)]
    exact (Sql.Within.query _).bind fun _ => .each h
  exact hconsume ⟨d, s.faults⟩

theorem consumeAll_within {R : Db → Db → Prop} [Std.Refl R] [IsTrans Db R] {pushed : List Signal}
    (h : ∀ s ∈ pushed, ∀ a ∈ traceArgs my.db.mActionFilterOn s.trace, Sql.Within R (my.db.add L a))
    (d : Db) : R d (consumeAll L my d pushed) := by
  induction pushed generalizing d with
  | nil => exact Std.Refl.refl d
  | cons s pushed ih =>
    have hstep : R d (consume L my d s) := consume_within (h s List.mem_cons_self) d
    exact IsTrans.trans _ _ _ hstep (ih (fun s' hs => h s' (List.mem_cons_of_mem s hs)) _)

/-- The calls of a run are calls of `add` on what the traversals visit. -/
theorem mem_callsMade {pushed : List Signal} {d : Db} {c : Sql.Call Exn Db AddArgs Bool}
    (hc : c ∈ callsMade L my d pushed) :
    (∃ s ∈ pushed, c.arg ∈ traceArgs my.db.mActionFilterOn s.trace) ∧
      (my.db.add L c.arg).run c.before = (c.result, c.after) := by
  induction pushed generalizing d with
  | nil => cases hc
  | cons s pushed ih =>
    obtain hc | hc := List.mem_append.mp hc
    · obtain ⟨ha, hr⟩ := mem_traceCalls (answers_dbAdd L my.db) hc
      exact ⟨⟨s, List.mem_cons_self, ha⟩, hr⟩
    · obtain ⟨⟨s', hs, ha⟩, hr⟩ := ih hc
      exact ⟨⟨s', List.mem_cons_of_mem s hs, ha⟩, hr⟩

section Consumer

variable {P : Type} [DecidableEq P] {queueSize : Nat} {s : Consumer.State P Signal}

/-- When the traces of the signals have been pushed, in any interleaving of
the threads, the traces handed to `consume_transaction_trace` are those of
the first few signals, so the database is theirs. -/
theorem consumed_prefix (h : (Consumer.consumer P Signal queueSize).Reachable s) {signals : List Signal}
    (ha : (s.chan .traces).appended = accepted my signals) (d : Db) :
    ∃ n, consumeAll L my d (s.chan .traces).handed = mirror L my d (signals.take n) := by
  have hp : (s.chan .traces).handed <+: accepted my signals := by
    rw [← ha]
    exact (List.prefix_append _ _).trans (Consumer.fifoInv h .traces).prefix_appended
  obtain ⟨first, hfirst, he⟩ := List.prefix_filter_iff.mp hp
  refine ⟨first.length, ?_⟩
  rw [mirror, ← List.prefix_iff_eq_take.mp hfirst, accepted, ← he]

/-- Once nothing waits in the two queues, the database is that of all signals. -/
theorem consumed_all (h : (Consumer.consumer P Signal queueSize).Reachable s) {signals : List Signal}
    (ha : (s.chan .traces).appended = accepted my signals) (hq : (s.chan .traces).queue = [])
    (hp : (s.chan .traces).pending = []) (d : Db) :
    consumeAll L my d (s.chan .traces).handed = mirror L my d signals := by
  have hall := (Consumer.fifoInv h .traces).eq_appended hq
  rw [hp, List.append_nil, ha] at hall
  rw [hall, mirror]

end Consumer

end SqlDb
