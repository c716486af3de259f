import SqlDbPlugin.Mirror.Recorded

/-!
# Blocks and traces

A transaction comes to the plugin twice: packed in a block, whose consumer
calls `add` on each of its actions, and as a trace, whose consumer goes
through the actions sent inline as well. `paths_agree`: the block's calls
return true for the actions for which the trace's do at the top level, which
are all of them if the names of the transaction's actions are in the filter.
-/

namespace SqlDb

open Sql (each trail logged callsOf)
open ActionTrace (nodeAt Matches Reaches visit visits mem_visits mem_visits_iff)
open ActionsTable (AddArgs)
open SqlDatabase

variable {L : ChainLib} {db : SqlDatabase} {w w₁ w₂ : World Exn Db} {filter : List String}
  {ts : List ActionTrace} {trx : Transaction} {tc : TransactionTrace}

/-- A trace of a transaction without context-free actions: at its top level
are the transaction's actions, each executed for its own account. -/
structure IsTraceOf (trx : Transaction) (tc : TransactionTrace) : Prop where
  acts : tc.actionTraces.map (·.act) = trx.actions
  own : ∀ t ∈ tc.actionTraces, t.receiver = t.act.account

/-- The actions of the calls that returned true. -/
def recordedActions {δ : Type} (calls : List (Sql.Call Exn δ AddArgs Bool)) : List Action :=
  (calls.filter isSuccess).map (·.arg.action)

/-- The calls of `add` for the receipt `r` when the block's receipts in front
of it, `pre`, have been consumed from the world `w` on. -/
def receiptCalls {δ : Type} (L : ChainLib) (add : AddArgs → Sql Exn δ Bool) (timestamp : BlockTimestamp)
    (pre : List TransactionReceipt) (r : TransactionReceipt) (w : World Exn δ) :
    List (Sql.Call Exn δ AddArgs Bool) :=
  callsOf (consumeReceipt L (logged add) timestamp r) ((each (consumeReceipt L add timestamp) pre).run w).2

/-- The calls of `add` for a trace that `applied_transaction` is given. -/
def appliedCalls (L : ChainLib) (db : SqlDatabase) (tc : TransactionTrace) (w : World Exn Db) :
    List (Sql.Call Exn Db AddArgs Bool) :=
  if SqlDbPluginImpl.appliedTransaction tc then traceCalls (db.add L) tc w else []

/-! ## The top level of a trace -/

theorem visit_filter_root (t : ActionTrace) :
    (visit filter t).filter (fun v => v.1 = []) =
      if t.receiver = t.act.account then [([], t.act)] else [] := by
  rcases t with ⟨r, act, ts⟩
  rw [visit, ActionTrace.receiver, ActionTrace.act]
  have hbelow : (visits filter 0 ts).filter (fun v => v.1 = []) = [] := by
    refine List.filter_eq_nil_iff.mpr fun v hv => ?_
    obtain ⟨i, q, t, -, -, hp⟩ := mem_visits.mp hv
    simp [hp]
  split
  · split <;> simp [hbelow]
  · rfl

/-- Of the actions visited, those at the top level are those of the trees
executed for their own account. -/
theorem visits_filter_top (k : Nat) (ts : List ActionTrace) :
    ((visits filter k ts).filter fun v => v.1.length = 1).map Prod.snd =
      (ts.filter fun t => t.receiver = t.act.account).map (·.act) := by
  induction ts generalizing k with
  | nil => rw [visits]; rfl
  | cons t ts ih =>
    have hroot : (fun v : Position × Action => decide (v.1.length = 1)) ∘
        (fun v : Position × Action => (k :: v.1, v.2)) = fun v => decide (v.1 = []) := by
      funext v
      simp
    rw [visits, List.filter_append, List.map_append, ih, List.filter_map, hroot, visit_filter_root,
      List.filter_cons]
    by_cases hr : t.receiver = t.act.account
    · simp [hr]
    · simp [hr]

/-- What is at the top-level positions recorded. -/
theorem map_recordedPositions_top (filter : List String) (ts : List ActionTrace) :
    ((recordedPositions filter ts).filter fun p => p.length = 1).map (fun p => (nodeAt ts p).map (·.act)) =
      (((ts.filter fun t => t.receiver = t.act.account).map (·.act)).filter
        fun a => a.name.str ∈ filter).map some := by
  rw [← visits_filter_top 0, List.filter_map, recordedPositions, List.filter_map, List.filter_filter,
    List.filter_filter, map_nodeAt fun v hv => List.mem_of_mem_filter hv]
  congr 2
  exact List.filter_congr fun v _ => Bool.and_comm ..

/-- If the names of all top-level actions are in the filter, nothing below them is recorded. -/
theorem recordedPositions_filter_top (h : ∀ t ∈ ts, t.act.name.str ∈ filter) :
    ((recordedPositions filter ts).filter fun p => p.length = 1) = recordedPositions filter ts := by
  refine List.filter_eq_self.mpr fun p hp => decide_eq_true ?_
  obtain ⟨t, ht, -, hR⟩ := mem_recordedPositions.mp hp
  rcases p with _ | ⟨i, _ | ⟨j, q⟩⟩
  · cases ht
  · rfl
  · obtain ⟨root, hroot, -⟩ := Option.bind_eq_some_iff.mp ht
    have henters := ((ActionTrace.reaches_cons hroot).mp hR).1
    exact absurd (h root (List.mem_of_getElem? hroot)) henters.2

namespace IsTraceOf

/-- The handler drops the traces of the transactions the block's loop skips. -/
theorem appliedTransaction (h : IsTraceOf trx tc) :
    SqlDbPluginImpl.appliedTransaction tc = !isOnblock (trx.actions.map Action.name) := by
  rw [SqlDbPluginImpl.appliedTransaction, ← h.acts, List.map_map]
  rfl

/-- What is recorded at the top level are the transaction's actions with names in the filter. -/
theorem map_top (h : IsTraceOf trx tc) (filter : List String) :
    ((recordedPositions filter tc.actionTraces).filter fun p => p.length = 1).map
        (fun p => (nodeAt tc.actionTraces p).map (·.act)) =
      (trx.actions.filter fun a => a.name.str ∈ filter).map some := by
  have hown : (tc.actionTraces.filter fun t => t.receiver = t.act.account) = tc.actionTraces :=
    List.filter_eq_self.mpr fun t ht => decide_eq_true (h.own t ht)
  rw [map_recordedPositions_top, hown, h.acts]

theorem roots_mem (h : IsTraceOf trx tc) (hall : ∀ a ∈ trx.actions, a.name.str ∈ filter) :
    ∀ t ∈ tc.actionTraces, t.act.name.str ∈ filter := by
  intro t ht
  refine hall t.act ?_
  rw [← h.acts]
  exact List.mem_map_of_mem ht

end IsTraceOf

/-! ## The calls of a block for a transaction -/

section

variable {δ : Type} {add : AddArgs → Sql Exn δ Bool} {w w₁ : World Exn δ} {time : BlockTimestamp}
  {pre post : List TransactionReceipt} {r : TransactionReceipt} {as : List AddArgs}

/-- If the transactions in front unpack, their calls are followed by those for the others. -/
theorem receiptsArgs_append (h : (receiptsArgs L time pre).2 = .ok ()) (post : List TransactionReceipt) :
    (receiptsArgs L time (pre ++ post)).1 = (receiptsArgs L time pre).1 ++ (receiptsArgs L time post).1 := by
  induction pre with
  | nil => rfl
  | cons r pre ih =>
    rw [receiptsArgs] at h
    rw [List.cons_append, receiptsArgs, receiptsArgs]
    rcases hr : receiptArgs L time r with e | as <;> rw [hr] at h
    · cases h
    · show as ++ _ = as ++ _ ++ _
      rw [ih h, List.append_assoc]

theorem receiptsArgs_of_unpack (h : ∀ raw, .packed raw ∈ pre → ∃ trx, L.unpackTransaction raw = .ok trx) :
    (receiptsArgs L time pre).2 = .ok () := by
  induction pre with
  | nil => rfl
  | cons r pre ih =>
    have hrest := ih fun raw hraw => h raw (List.mem_cons_of_mem r hraw)
    rw [receiptsArgs]
    rcases r with id | raw
    · exact hrest
    · obtain ⟨trx, htrx⟩ := h raw List.mem_cons_self
      rw [receiptArgs, htrx]
      exact hrest

/-- Behind receipts that have been consumed, the calls for one are those of a loop. -/
theorem receiptCalls_eq (hpre : (receiptsArgs L time pre).2 = .ok ())
    (hrun : (each add (receiptsArgs L time pre).1).run w = (.ok (), w₁))
    (hr : receiptArgs L time r = .ok as) : receiptCalls L add time pre r w = trail add as w₁ := by
  have hfront : (each (consumeReceipt L add time) pre).run w = (.ok (), w₁) := by
    show (consumeBlockState L add ⟨time, pre⟩).run w = _
    rw [consumeBlockState_eq, blockArgs, Sql.run_bind_ok hrun, hpre]
    rfl
  rw [receiptCalls, hfront, callsOf, consumeReceipt_eq, hr]
  show (Sql.run (each (logged add) as) _).2.db.2 = _
  rw [Sql.run_each_logged]
  rfl

/-- When no call throws, those for a receipt stand in a block's calls behind
those for the receipts in front of it. -/
theorem blockCalls_eq_append {bs : BlockState} (hbs : bs.transactions = pre ++ r :: post)
    (hpre : ∀ raw, .packed raw ∈ pre → ∃ trx, L.unpackTransaction raw = .ok trx)
    (hr : receiptArgs L bs.timestamp r = .ok as)
    (h : ∀ c ∈ blockCalls L add bs w, ∃ b, c.result = .ok b) :
    (∃ rest, blockCalls L add bs w =
      blockCalls L add { bs with transactions := pre } w ++ receiptCalls L add bs.timestamp pre r w ++ rest) ∧
    ∃ w₁ w₂, receiptCalls L add bs.timestamp pre r w = trail add as w₁ ∧ (each add as).run w₁ = (.ok (), w₂) := by
  have hpre : (receiptsArgs L bs.timestamp pre).2 = .ok () := receiptsArgs_of_unpack hpre
  have hargs : blockArgs L bs = (receiptsArgs L bs.timestamp pre).1 ++
      (as ++ (receiptsArgs L bs.timestamp post).1) := by
    rw [blockArgs, hbs, receiptsArgs_append hpre, receiptsArgs, hr]
  rw [blockCalls_eq, hargs] at h
  obtain ⟨w₁, hrun⟩ : ∃ w₁, (each add (receiptsArgs L bs.timestamp pre).1).run w = (.ok (), w₁) := by
    refine Sql.run_each_of_trail_ok fun c hc => h c ?_
    rw [Sql.trail_append]
    exact List.mem_append_left _ hc
  rw [Sql.trail_append_ok hrun, Sql.trail_append] at h
  obtain ⟨w₂, hrun'⟩ : ∃ w₂, (each add as).run w₁ = (.ok (), w₂) :=
    Sql.run_each_of_trail_ok fun c hc =>
      h c (List.mem_append_right _ (List.mem_append_left _ hc))
  have hcalls := receiptCalls_eq hpre hrun hr
  refine ⟨⟨trail add (receiptsArgs L bs.timestamp post).1 w₂, ?_⟩, w₁, w₂, hcalls, hrun'⟩
  rw [blockCalls_eq, blockCalls_eq, hargs, hcalls, Sql.trail_append_ok hrun, Sql.trail_append_ok hrun',
    List.append_assoc]
  rfl

/-- In a loop over actions that returns, `add` returns true for those with a name in the filter. -/
theorem recordedActions_trail (ha : Answers filter add) {acts : List Action} {id : String}
    (hrun : (each add (acts.map (⟨·, id, time⟩))).run w = (.ok (), w₁)) :
    recordedActions (trail add (acts.map (⟨·, id, time⟩)) w) = acts.filter fun a => a.name.str ∈ filter := by
  have hargs := congrArg (List.map AddArgs.action) (recorded_args ha hrun)
  rw [List.map_map, List.filter_map, List.map_map] at hargs
  exact hargs.trans (List.map_id _)

end

/-! ## The two paths -/

/-- The actions of a trace for which `add` returns true are at the positions recorded. -/
theorem recordedActions_traceCalls (hsession : getSession.run w = (.ok (), w₁))
    (h : ∀ c ∈ traceCalls (db.add L) tc w, ∃ b, c.result = .ok b) :
    (recordedActions (traceCalls (db.add L) tc w)).map some =
      (recordedPositions db.mActionFilterOn tc.actionTraces).map fun p =>
        (nodeAt tc.actionTraces p).map (·.act) := by
  have ha := answers_dbAdd L db
  rw [traceCalls_eq ha hsession] at h ⊢
  obtain ⟨w₂, hrun⟩ := Sql.run_each_of_trail_ok h
  rw [map_recordedPositions]
  exact congrArg (List.map some) (recordedActions_trail ha hrun)

/-- When no call of `add` throws, a block records (`add` returns true) of a
transaction, in the same order, what is recorded of its trace at the top
level: of the positions recorded, which come in pre-order, those of length
one. If the names of its actions are in the filter, the same actions are
recorded of both. -/
theorem paths_agree {bs : BlockState} {pre post : List TransactionReceipt} {raw : Bytes}
    (hbs : bs.transactions = pre ++ .packed raw :: post)
    (hpre : ∀ raw, .packed raw ∈ pre → ∃ trx, L.unpackTransaction raw = .ok trx)
    (hraw : L.unpackTransaction raw = .ok trx) (htrace : IsTraceOf trx tc)
    (hblock : ∀ c ∈ blockCalls L (db.addWithSession L) bs w, ∃ b, c.result = .ok b)
    (hsession : getSession.run w₁ = (.ok (), w₂))
    (happlied : ∀ c ∈ appliedCalls L db tc w₁, ∃ b, c.result = .ok b) :
    (∃ rest, blockCalls L (db.addWithSession L) bs w =
      blockCalls L (db.addWithSession L) { bs with transactions := pre } w ++
        receiptCalls L (db.addWithSession L) bs.timestamp pre (.packed raw) w ++ rest) ∧
    (∃ ps : List Position, ps.Pairwise (· < ·) ∧
      (∀ p, p ∈ ps ↔ SqlDbPluginImpl.appliedTransaction tc = true ∧
        ∃ t, nodeAt tc.actionTraces p = some t ∧ t.Matches db.mActionFilterOn ∧
          Reaches db.mActionFilterOn tc.actionTraces p) ∧
      (recordedActions (appliedCalls L db tc w₁)).map some =
        ps.map (fun p => (nodeAt tc.actionTraces p).map (·.act)) ∧
      (recordedActions (receiptCalls L (db.addWithSession L) bs.timestamp pre (.packed raw) w)).map some =
        (ps.filter fun p => p.length = 1).map fun p => (nodeAt tc.actionTraces p).map (·.act)) ∧
    ((∀ a ∈ trx.actions, a.name.str ∈ db.mActionFilterOn) →
      recordedActions (receiptCalls L (db.addWithSession L) bs.timestamp pre (.packed raw) w) =
        recordedActions (appliedCalls L db tc w₁)) := by
  have hpushed := htrace.appliedTransaction
  have hargs : receiptArgs L bs.timestamp (.packed raw) = .ok
      (if isOnblock (trx.actions.map Action.name) then []
        else trx.actions.map (⟨·, trx.id, bs.timestamp⟩)) := by
    rw [receiptArgs, hraw]
    rfl
  obtain ⟨hsplit, w₃, w₄, hcalls, hrun⟩ := blockCalls_eq_append hbs hpre hargs hblock
  refine ⟨hsplit, ?_⟩
  cases hon : isOnblock (trx.actions.map Action.name) with
  | true =>
    -- Both copies of the test hold: neither path calls `add`.
    rw [hon, Bool.not_true] at hpushed
    rw [hcalls, hon, appliedCalls, hpushed]
    exact ⟨⟨[], .nil, by simp, rfl, rfl⟩, fun _ => rfl⟩
  | false =>
    rw [hon, Bool.not_false] at hpushed
    rw [hon] at hrun hcalls
    rw [appliedCalls, if_pos hpushed] at happlied ⊢
    have hrecorded := recordedActions_traceCalls hsession happlied
    have htop : recordedActions
        (receiptCalls L (db.addWithSession L) bs.timestamp pre (.packed raw) w) =
          trx.actions.filter fun a => a.name.str ∈ db.mActionFilterOn := by
      rw [hcalls]
      exact recordedActions_trail (answers_addWithSession L db) hrun
    rw [htop]
    refine ⟨⟨recordedPositions db.mActionFilterOn tc.actionTraces, recordedPositions_sorted _ _,
      fun p => ?_, hrecorded, (htrace.map_top _).symm⟩, fun hall => ?_⟩
    · rw [mem_recordedPositions]
      simp [hpushed]
    · refine List.map_injective_iff.mpr (Option.some_injective _) ?_
      rw [hrecorded, ← htrace.map_top, recordedPositions_filter_top (htrace.roots_mem hall)]

/-- A database that records pings and transfers. -/
def pingerDb : SqlDatabase := { tokenPlugin.db with mActionFilterOn := ["ping", "transfer"] }

/-- A block of a transaction known by its id, and the ping. -/
def pingerBlock : BlockState := ⟨⟨0⟩, [.id "2e", .packed packedPing]⟩

/-- A trace of the ping, which sends a transfer inline. -/
def pingerTrace : TransactionTrace :=
  { issueTrace with
    id := pingTransaction.id
    actionTraces := [⟨pinger, badPing, [inlinedTransfer]⟩] }

/-- Of the block and of the trace `add` returns true for the ping, and for no transfer. -/
theorem paths_agree_ping :
    recordedActions (appliedCalls .sample pingerDb pingerTrace ⟨{}, []⟩) = [badPing] ∧
    recordedActions (receiptCalls .sample (pingerDb.addWithSession .sample) ⟨0⟩ [.id "2e"] (.packed packedPing)
      ⟨{}, []⟩) = recordedActions (appliedCalls .sample pingerDb pingerTrace ⟨{}, []⟩) := by
  have hbs : pingerBlock.transactions = [.id "2e"] ++ .packed packedPing :: [] := rfl
  have hpre (raw : Bytes) (h : .packed raw ∈ [TransactionReceipt.id "2e"]) :
      ∃ trx, ChainLib.sample.unpackTransaction raw = .ok trx := by
    simp at h
  have htrace : IsTraceOf pingTransaction pingerTrace := ⟨rfl, by decide⟩
  have hblock : ∀ c ∈ blockCalls .sample (pingerDb.addWithSession .sample) pingerBlock ⟨{}, []⟩,
      ∃ b, c.result = .ok b := by decide
  have happlied : ∀ c ∈ appliedCalls .sample pingerDb pingerTrace ⟨{}, []⟩, ∃ b, c.result = .ok b := by
    decide
  exact ⟨by decide, (paths_agree hbs hpre rfl htrace hblock rfl happlied).2.2 (by decide)⟩

end SqlDb
