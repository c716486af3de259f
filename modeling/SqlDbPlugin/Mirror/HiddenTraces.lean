import SqlDbPlugin.Mirror.FailedStatements

/-!
# Traces kept from the queue

The handler drops a trace whose only top-level action is named `onblock`. It
looks at the name alone, so a trace of another account can be dropped as
well (`IsForeignOnblock`), with all that its action has sent inline: which
rows are recorded below an action that is itself outside the filter depends
on the action's name. `hidden_iff` says when it does not.
-/

namespace SqlDb

open Sql (each trail)
open ActionTrace (visited map_visit visited_cons)
open ActionsTable (AddArgs addData addData_ok addData_actions contractArg)
open SqlDatabase

variable {L : ChainLib} {my : SqlDbPluginImpl} {filter : List String} {a : AddArgs} {w : World Exn Db}
  {tt : TransactionTrace} {t : ActionTrace} {d : Db} {n : Name}

/-! ## Rows -/

/-- A call of `add` in the world `w` that inserts a row: the name is in the
filter, the payload converts, and the `INSERT` does not fail. -/
structure Stores (L : ChainLib) (filter : List String) (w : World Exn Db) (action : Action) : Prop where
  name : action.name.str ∈ filter
  converts : ¬ Undecodable L w action
  insertOk : InsertOk L w action

/-- A call of `add` leaves `actions` alone unless it inserts its row. -/
theorem run_add_length_iff (L : ChainLib) (filter : List String) (a : AddArgs) (w : World Exn Db) :
    ((ActionsTable.add L filter a).run w).2.db.actions.length = w.db.actions.length ↔
      ¬ Stores L filter w a.action := by
  by_cases hf : a.action.name.str ∈ filter
  · by_cases hu : Undecodable L w a.action
    · have hkeep : ((ActionsTable.add L filter a).run w).2.db.actions = w.db.actions := by
        obtain ⟨json, w', e, hdata, hconv⟩ := hu
        have hactions := addData_actions L a.action w
        rw [hdata] at hactions
        rw [ActionsTable.add, if_pos hf, Sql.run_bind_ok hdata, hconv]
        exact hactions
      exact iff_of_true (by rw [hkeep]) fun h => h.converts hu
    · obtain ⟨w', hadd⟩ := run_add_of_decodable hf hu
      obtain ⟨json, dataJson, hactions⟩ := add_actions hf hadd
      rw [hadd, hactions]
      by_cases hi : InsertOk L w a.action
      · exact iff_of_false (by simp [hi]) (not_not.mpr ⟨hf, hu, hi⟩)
      · exact iff_of_true (by simp [hi]) fun h => hi h.insertOk
  · rw [ActionsTable.run_add_of_not_mem hf]
    exact iff_of_true rfl fun h => hf h.name

theorem run_add_length_le (L : ChainLib) (filter : List String) (a : AddArgs) (w : World Exn Db) :
    w.db.actions.length ≤ ((ActionsTable.add L filter a).run w).2.db.actions.length := by
  obtain ⟨rows, h, -⟩ := ActionsTable.add_appends L filter a w
  rw [h, List.length_append]
  exact Nat.le_add_right _ _

/-! ## The two names -/

/-- The only action is `onblock` of the system account. -/
def IsSystemOnblock (tt : TransactionTrace) : Prop :=
  ∃ t, tt.actionTraces = [t] ∧ t.act.name = .onblock ∧ t.act.account = .systemAccountName

/-- The only top-level action is named `onblock`, and is of another account. -/
def IsForeignOnblock (tt : TransactionTrace) : Prop :=
  ∃ t, tt.actionTraces = [t] ∧ t.act.name = .onblock ∧ t.act.account ≠ .systemAccountName

/-- The node with another name of its action. -/
def ActionTrace.named (t : ActionTrace) (n : Name) : ActionTrace :=
  ⟨t.receiver, { t.act with name := n }, t.inlineTraces⟩

/-- The signal of a trace whose only top-level action is named `n`. -/
def namedSignal (tt : TransactionTrace) (t : ActionTrace) (faults : List (Option Exn)) (n : Name) :
    Signal :=
  ⟨{ tt with actionTraces := [t.named n] }, faults⟩

/-- What `add` is called with below the top-level action. -/
def inlineArgs (filter : List String) (tt : TransactionTrace) (t : ActionTrace) : List AddArgs :=
  if t.receiver = t.act.account then (visited filter t.inlineTraces).map (⟨·, tt.id, tt.blockTime⟩)
  else []

/-- The database when what is below the top-level action has been consumed. -/
def afterInline (L : ChainLib) (my : SqlDbPluginImpl) (tt : TransactionTrace) (t : ActionTrace)
    (faults : List (Option Exn)) (d : Db) : Db :=
  ((getSession >>= fun _ => each (my.db.add L) (inlineArgs my.db.mActionFilterOn tt t)).run
    ⟨d, faults⟩).2.db

/-- Below the top-level action no row would be inserted: no call of `add` of
the traversal, in the world it finds, inserts one. -/
def NoneStored (L : ChainLib) (my : SqlDbPluginImpl) (tt : TransactionTrace) (t : ActionTrace)
    (faults : List (Option Exn)) (d : Db) : Prop :=
  ∀ w, getSession.run ⟨d, faults⟩ = (.ok (), w) →
    ∀ c ∈ trail (my.db.add L) (inlineArgs my.db.mActionFilterOn tt t) w,
      ¬ Stores L my.db.mActionFilterOn c.before c.arg.action

theorem isOnblock_singleton (n : Name) : isOnblock [n] = decide (n = .onblock) := by
  have h : n.str = "onblock" ↔ n = .onblock := by
    rw [Name.mk.injEq]
    rfl
  rw [isOnblock, ← decide_eq_decide.mpr h]
  rfl

/-- The handler drops a trace if and only if its only top-level action is named `onblock`. -/
theorem appliedTransaction_eq_false :
    SqlDbPluginImpl.appliedTransaction tt = false ↔
      ∃ t, tt.actionTraces = [t] ∧ t.act.name = .onblock := by
  rw [SqlDbPluginImpl.appliedTransaction, Bool.not_eq_false']
  rcases tt.actionTraces with _ | ⟨t, _ | ⟨t', ts⟩⟩
  · simp [isOnblock]
  · rw [List.map_singleton, isOnblock_singleton]
    simp
  · simp [isOnblock]

/-- What the traversal does with the trace does not depend on the name, as
long as it is outside the filter. -/
theorem consume_namedSignal {faults : List (Option Exn)} (hn : n.str ∉ my.db.mActionFilterOn) :
    consume L my d (namedSignal tt t faults n) = afterInline L my tt t faults d := by
  have hargs : traceArgs my.db.mActionFilterOn (namedSignal tt t faults n).trace =
      (if t.receiver = t.act.account then [⟨{ t.act with name := n }, tt.id, tt.blockTime⟩] else []) ++
        inlineArgs my.db.mActionFilterOn tt t := by
    rw [traceArgs, inlineArgs]
    show (visited _ [t.named n]).map _ = _
    rw [visited_cons, ActionTrace.named, map_visit]
    by_cases hr : t.receiver = t.act.account
    · rw [if_pos hr, if_pos hr, if_pos hr, if_neg hn]
      exact congrArg (List.map _) (List.append_nil _)
    · rw [if_neg hr, if_neg hr, if_neg hr]
      rfl
  have hskip (w : World Exn Db) :
      (my.db.add L ⟨{ t.act with name := n }, tt.id, tt.blockTime⟩).run w = (.ok false, w) :=
    ActionsTable.run_add_of_not_mem hn w
  have hfaults : (namedSignal tt t faults n).faults = faults := rfl
  rw [consume, afterInline, consumeTransactionTrace_eq (answers_dbAdd L my.db), hargs, hfaults]
  rcases hs : Sql.run getSession ⟨d, faults⟩ with ⟨e | _, w⟩
  · rw [Sql.run_bind_error hs, Sql.run_bind_error hs]
  · rw [Sql.run_bind_ok hs, Sql.run_bind_ok hs]
    split
    · rw [List.singleton_append, each, Sql.run_bind_ok (hskip w)]
    · rfl

/-- The signal's trace is dropped if the name is `onblock`, and consumed otherwise. -/
theorem mirror_namedSignal {faults : List (Option Exn)} (hb : ¬ tt.blockNum < my.blockNumStart)
    (hn : n.str ∉ my.db.mActionFilterOn) :
    mirror L my d [namedSignal tt t faults n] =
      if n = .onblock then d else afterInline L my tt t faults d := by
  have hpush : my.onAppliedTransaction (namedSignal tt t faults n).trace = !decide (n = .onblock) := by
    rw [SqlDbPluginImpl.onAppliedTransaction, ← isOnblock_singleton]
    exact if_neg hb
  rw [mirror, accepted, List.filter_singleton, hpush]
  by_cases h : n = .onblock
  · simp only [h, decide_true, Bool.not_true, if_true]
    rfl
  · simp only [h, decide_false, Bool.not_false, if_false]
    exact consume_namedSignal hn

/-- No row is inserted below the top-level action if and only if no call would insert one. -/
theorem afterInline_actions_iff {faults : List (Option Exn)} :
    (afterInline L my tt t faults d).actions = d.actions ↔ NoneStored L my tt t faults d := by
  have happends : Sql.Within (ActionsTable.Appends fun _ => True)
      (getSession >>= fun _ => each (my.db.add L) (inlineArgs my.db.mActionFilterOn tt t)) := by
    refine (Sql.Within.query _).bind fun _ => .each fun a _ => ?_
    exact (ActionsTable.add_appends L _ a).mono fun _ _ ⟨rows, h, _⟩ => ⟨rows, h, fun _ _ => trivial⟩
  obtain ⟨rows, hrows, -⟩ := happends ⟨d, faults⟩
  have hlength : (afterInline L my tt t faults d).actions = d.actions ↔
      (afterInline L my tt t faults d).actions.length = d.actions.length := by
    rw [show (afterInline L my tt t faults d).actions = d.actions ++ rows from hrows]
    simp
  rw [hlength, afterInline, NoneStored]
  have hdb : (Sql.run getSession (⟨d, faults⟩ : World Exn Db)).2.db = d := Sql.run_query_db _ _
  rcases hs : Sql.run getSession (⟨d, faults⟩ : World Exn Db) with ⟨e | _, w⟩ <;> rw [hs] at hdb
  · rw [Sql.run_bind_error hs]
    exact iff_of_true (congrArg (·.actions.length) hdb) (by simp)
  · rw [Sql.run_bind_ok hs]
    have hdb : w.db = d := hdb
    simp only [Prod.mk.injEq, true_and, forall_eq', ← hdb]
    rw [Sql.run_each_keeps_iff (f := my.db.add L) (μ := fun d => d.actions.length)
      fun a w => run_add_length_le L _ a w]
    refine forall₂_congr fun c hc => ?_
    obtain ⟨-, hcall⟩ := Sql.run_of_mem_trail hc
    have hiff := run_add_length_iff L my.db.mActionFilterOn c.arg c.before
    rw [show (ActionsTable.add L my.db.mActionFilterOn c.arg).run c.before = _ from hcall] at hiff
    exact hiff

/-- From `block_num_start` on, a trace is kept from the queue only if it is
the system account's `onblock`, unless its only top-level action is an
`onblock` of another account. And with two names, both outside the filter, of
the only top-level action, the same rows are recorded below it if and only
if both are `onblock` or neither is, or no row would be inserted anyway. -/
theorem hidden_iff (L : ChainLib) (my : SqlDbPluginImpl) :
    (∀ tt, ¬ tt.blockNum < my.blockNumStart →
      ((my.onAppliedTransaction tt = false → IsSystemOnblock tt) ↔ ¬ IsForeignOnblock tt)) ∧
    (∀ tt t faults d (n₁ n₂ : Name), ¬ tt.blockNum < my.blockNumStart →
      n₁.str ∉ my.db.mActionFilterOn → n₂.str ∉ my.db.mActionFilterOn →
      ((mirror L my d [namedSignal tt t faults n₁]).actions =
          (mirror L my d [namedSignal tt t faults n₂]).actions ↔
        ((n₁ = .onblock ↔ n₂ = .onblock) ∨ NoneStored L my tt t faults d))) := by
  constructor
  · intro tt hb
    rw [SqlDbPluginImpl.onAppliedTransaction, if_neg hb, appliedTransaction_eq_false]
    constructor
    · rintro h ⟨t, ht, hname, hacc⟩
      obtain ⟨t', ht', -, hacc'⟩ := h ⟨t, ht, hname⟩
      rw [ht, List.cons.injEq] at ht'
      rw [← ht'.1] at hacc'
      exact hacc hacc'
    · rintro h ⟨t, ht, hname⟩
      by_contra hsys
      exact h ⟨t, ht, hname, fun hacc => hsys ⟨t, ht, hname, hacc⟩⟩
  · intro tt t faults d n₁ n₂ hb hn₁ hn₂
    rw [mirror_namedSignal hb hn₁, mirror_namedSignal hb hn₂, ← afterInline_actions_iff]
    by_cases h₁ : n₁ = .onblock
    · by_cases h₂ : n₂ = .onblock
      · simp [h₁, h₂]
      · simp [h₁, h₂, eq_comm]
    · by_cases h₂ : n₂ = .onblock
      · simp [h₁, h₂]
      · simp [h₁, h₂]

/-! ## An `onblock` of a contract -/

/-- An action of `bank` that sends a transfer inline. -/
def bankNode (n : Name) : ActionTrace :=
  ⟨bank, ⟨bank, n, [], []⟩, [inlinedTransfer]⟩

/-- Named `onblock`, the action of `bank` hides the transfer below it, which
is recorded if the action is named `batch`. -/
theorem transfer_hidden_below_onblock :
    tokenPlugin.onAppliedTransaction { batchTrace with actionTraces := [bankNode .onblock] } = false ∧
    ¬ IsSystemOnblock { batchTrace with actionTraces := [bankNode .onblock] } ∧
    (mirror .sample tokenPlugin {} [namedSignal batchTrace (bankNode batch) [] .onblock]).actions = [] ∧
    (mirror .sample tokenPlugin {} [namedSignal batchTrace (bankNode batch) [] batch]).actions.length =
      1 := by
  refine ⟨rfl, ?_, rfl, rfl⟩
  rintro ⟨t, ht, -, hacc⟩
  rw [List.cons.injEq] at ht
  rw [← ht.1] at hacc
  exact absurd hacc (by decide)

/-- The `batch` of `bank` is not dropped, and the transfer below it is
recorded as it is if the action is named `settle`. -/
theorem hidden_iff_settle :
    (tokenPlugin.onAppliedTransaction batchTrace = false → IsSystemOnblock batchTrace) ∧
    (mirror .sample tokenPlugin {} [namedSignal batchTrace (bankNode batch) [] batch]).actions =
      (mirror .sample tokenPlugin {}
        [namedSignal batchTrace (bankNode batch) [] ⟨"settle", by decide⟩]).actions := by
  obtain ⟨htrace, hnames⟩ := hidden_iff .sample tokenPlugin
  constructor
  · refine (htrace batchTrace (by decide)).mpr ?_
    rintro ⟨t, ht, hname, -⟩
    rw [batchTrace, List.cons.injEq] at ht
    rw [← ht.1] at hname
    exact absurd hname (by decide)
  · exact (hnames batchTrace (bankNode batch) [] {} batch ⟨"settle", by decide⟩ (by decide) (by decide)
      (by decide)).mpr (.inl (iff_of_false (by decide) (by decide)))

end SqlDb
