import SqlDbPlugin.Plugin

/-!
# Which actions of a trace are recorded

Here and behind, an action is recorded when `add` returns true for it;
whether its row is then stored is for `success_recorded_iff`.
`recorded_positions`: the calls of `add` that return true are, one each,
those for the nodes that match and all of whose ancestors the traversal
enters. What is below a recorded action or a notification is not recorded;
`inlined_transfer_missed` is an issue with the transfer it sends inline.
`recorded_preorder` is the same for a forest, with the order in which the
actions are recorded.
-/

namespace SqlDb

open Sql (each trail)
open ActionTrace (nodeAt Matches Reaches visits visited mem_visits_iff nodup_positions visits_sorted)
open ActionsTable (AddArgs)
open SqlDatabase

variable {L : ChainLib} {db : SqlDatabase} {tc : TransactionTrace} {w w' : World Exn Db}

/-- The positions of the nodes that match among those visited. -/
def recordedPositions (filter : List String) (ts : List ActionTrace) : List Position :=
  ((visits filter 0 ts).filter fun v => v.2.name.str ∈ filter).map Prod.fst

theorem mem_recordedPositions {filter : List String} {ts : List ActionTrace} {p : Position} :
    p ∈ recordedPositions filter ts ↔
      ∃ t, nodeAt ts p = some t ∧ t.Matches filter ∧ Reaches filter ts p := by
  simp only [recordedPositions, List.mem_map, List.mem_filter, decide_eq_true_eq, Prod.exists,
    exists_and_right, exists_eq_right, mem_visits_iff, Matches]
  constructor
  · rintro ⟨a, ⟨t, ht, hr, rfl, hR⟩, ha⟩
    exact ⟨t, ht, ⟨hr, ha⟩, hR⟩
  · rintro ⟨t, ht, ⟨hr, ha⟩, hR⟩
    exact ⟨t.act, ⟨t, ht, hr, rfl, hR⟩, ha⟩

/-- What is at the positions of some of the actions visited. -/
theorem map_nodeAt {filter : List String} {ts : List ActionTrace} {vs : List (Position × Action)}
    (h : ∀ v ∈ vs, v ∈ visits filter 0 ts) :
    (vs.map Prod.fst).map (fun p => (nodeAt ts p).map (·.act)) = (vs.map Prod.snd).map some := by
  rw [List.map_map, List.map_map]
  refine List.map_congr_left fun v hv => ?_
  obtain ⟨t, ht, -, ha, -⟩ := mem_visits_iff.mp (h v hv)
  rw [Function.comp_apply, Function.comp_apply, ht, Option.map_some, ha]

/-- What is at the positions recorded. -/
theorem map_recordedPositions (filter : List String) (ts : List ActionTrace) :
    (recordedPositions filter ts).map (fun p => (nodeAt ts p).map (·.act)) =
      ((visited filter ts).filter fun a => a.name.str ∈ filter).map some := by
  rw [recordedPositions, visited, List.filter_map, map_nodeAt fun v hv => List.mem_of_mem_filter hv]
  rfl

/-- In a loop over the actions visited `add` returns true for those at the positions recorded, in this order. -/
theorem recorded_trail {ts : List ActionTrace} {id : String} {time : BlockTimestamp}
    (h : (each (db.add L) ((visited db.mActionFilterOn ts).map (⟨·, id, time⟩))).run w = (.ok (), w')) :
    ((trail (db.add L) ((visited db.mActionFilterOn ts).map (⟨·, id, time⟩)) w).filter isSuccess).map
        (fun c => some c.arg) =
      (recordedPositions db.mActionFilterOn ts).map fun p =>
        (nodeAt ts p).map fun t => ⟨t.act, id, time⟩ := by
  have hmatch := map_recordedPositions db.mActionFilterOn ts
  have hargs := recorded_args (answers_dbAdd L db) h
  let call (a : Action) : AddArgs := ⟨a, id, time⟩
  let visited := visited db.mActionFilterOn ts
  calc ((trail (db.add L) (visited.map call) w).filter isSuccess).map (fun c => some c.arg)
      = ((visited.map call).filter fun a => a.action.name.str ∈ db.mActionFilterOn).map some := by
        rw [← hargs, List.map_map]
        rfl
    _ = ((visited.filter fun a => a.name.str ∈ db.mActionFilterOn).map some).map
          (Option.map call) := by
        rw [List.filter_map, List.map_map, List.map_map]
        rfl
    _ = (recordedPositions db.mActionFilterOn ts).map fun p =>
          (nodeAt ts p).map fun t => call t.act := by
        rw [← hmatch, List.map_map]
        exact List.map_congr_left fun p _ => Option.map_map ..

/-- When consuming a trace returns, the actions for which `add` has returned
true are those of the nodes that match and all of whose ancestors the
traversal enters, each passed to one such call. -/
theorem recorded_positions (h : (consumeTransactionTrace (db.add L) tc).run w = (.ok (), w')) :
    ∃ ps : List Position, ps.Nodup ∧
      (∀ p, p ∈ ps ↔ ∃ t, nodeAt tc.actionTraces p = some t ∧ t.Matches db.mActionFilterOn ∧
        Reaches db.mActionFilterOn tc.actionTraces p) ∧
      ((traceCalls (db.add L) tc w).filter isSuccess).map (fun c => some c.arg) =
        ps.map fun p => (nodeAt tc.actionTraces p).map fun t => ⟨t.act, tc.id, tc.blockTime⟩ := by
  have ha := answers_dbAdd L db
  refine ⟨recordedPositions db.mActionFilterOn tc.actionTraces,
    (nodup_positions _).sublist ((List.filter_sublist).map _), fun p => mem_recordedPositions, ?_⟩
  rw [consumeTransactionTrace_eq ha] at h
  obtain ⟨⟨⟩, w₁, hs, hrun⟩ := Sql.run_bind_eq_ok h
  rw [traceCalls_eq ha hs]
  exact recorded_trail hrun

/-! ## The traversal of a forest -/

/-- The positions recorded come in pre-order. -/
theorem recordedPositions_sorted (filter : List String) (ts : List ActionTrace) :
    (recordedPositions filter ts).Pairwise (· < ·) :=
  List.pairwise_map.mpr ((visits_sorted 0 ts).sublist List.filter_sublist)

/-- Below a node recorded none is. -/
theorem eq_of_prefix_recorded {filter : List String} {ts : List ActionTrace} {p q : Position}
    (hp : p ∈ recordedPositions filter ts) (hq : q ∈ recordedPositions filter ts) (h : p <+: q) :
    p = q := by
  obtain ⟨t, ht, hm, -⟩ := mem_recordedPositions.mp hp
  obtain ⟨-, -, -, hR⟩ := mem_recordedPositions.mp hq
  by_contra hne
  exact (hR p t h hne ht).2 hm.2

/-- When no call of `add` throws, the actions for which the traversal of a
forest gets true from `add` are, in pre-order, those of the nodes that match
and all of whose ancestors are entered: none twice, and none below another. -/
theorem recorded_preorder {ts : List ActionTrace} {id : String} {time : BlockTimestamp}
    (h : ∀ c ∈ dfsCalls (db.add L) id time ts w, ∃ b, c.result = .ok b) :
    ∃ ps : List Position, ps.Pairwise (· < ·) ∧
      (∀ p, p ∈ ps ↔ ∃ t, nodeAt ts p = some t ∧ t.Matches db.mActionFilterOn ∧
        Reaches db.mActionFilterOn ts p) ∧
      ((dfsCalls (db.add L) id time ts w).filter isSuccess).map (fun c => some c.arg) =
        (ps.map fun p => (nodeAt ts p).map fun t => ⟨t.act, id, time⟩) ∧
      ps.Nodup ∧ ∀ p ∈ ps, ∀ q ∈ ps, p <+: q → p = q := by
  rw [dfsCalls_eq (answers_dbAdd L db)] at h ⊢
  obtain ⟨w', hrun⟩ := Sql.run_each_of_trail_ok h
  have hsorted := recordedPositions_sorted db.mActionFilterOn ts
  refine ⟨recordedPositions db.mActionFilterOn ts, hsorted, fun p => mem_recordedPositions,
    recorded_trail hrun, hsorted.imp fun hlt he => ?_, fun p hp q hq => eq_of_prefix_recorded hp hq⟩
  rw [he] at hlt
  exact List.lt_irrefl _ hlt

/-! ## An inlined transfer -/

/-- An action of a token contract. -/
def tokenAction (name : Name) : Action := ⟨.eosioToken, name, [], [0]⟩

def issue : Name := ⟨"issue", by decide⟩
def bank : Name := ⟨"bank", by decide⟩
def batch : Name := ⟨"batch", by decide⟩

/-- The transfer an issue sends inline. -/
def inlinedTransfer : ActionTrace := ⟨.eosioToken, tokenAction transfer, []⟩

/-- A transaction of one issue. -/
def issueTrace : TransactionTrace where
  id := "2e"
  blockNum := 7
  blockTime := ⟨0⟩
  receipt := some .executed
  except := none
  actionTraces := [⟨.eosioToken, tokenAction issue, [inlinedTransfer]⟩]

/-- A plugin that records issues and transfers. -/
def tokenPlugin : SqlDbPluginImpl where
  contractFilterOut := []
  blockNumStart := 0
  queueSize := 5000
  db := { mBlockNumStart := 0, mActionFilterOn := ["issue", "transfer"] }

/-- A transaction of an action outside the filter, which sends a transfer inline. -/
def batchTrace : TransactionTrace :=
  { issueTrace with
    actionTraces := [⟨bank, ⟨bank, batch, [], []⟩, [inlinedTransfer]⟩] }

/-- For the transfer below the `batch` `add` returns true. -/
theorem recorded_positions_batch :
    ∃ ps : List Position, ps.Nodup ∧
      (∀ p, p ∈ ps ↔ ∃ t, nodeAt batchTrace.actionTraces p = some t ∧
        t.Matches tokenPlugin.db.mActionFilterOn ∧
        Reaches tokenPlugin.db.mActionFilterOn batchTrace.actionTraces p) ∧
      ((traceCalls (tokenPlugin.db.add .sample) batchTrace ⟨{}, []⟩).filter isSuccess).map
          (fun c => some c.arg) =
        ps.map fun p => (nodeAt batchTrace.actionTraces p).map fun t =>
          ⟨t.act, batchTrace.id, batchTrace.blockTime⟩ :=
  recorded_positions rfl

/-- `add` returns true for the issue, so the transfer below it is not passed
to `add`, though it matches and no call has thrown. -/
theorem inlined_transfer_missed :
    tokenPlugin.onAppliedTransaction issueTrace = true ∧
    ((consumeTransactionTrace (tokenPlugin.db.add .sample) issueTrace).run ⟨{}, []⟩).1 = .ok () ∧
    nodeAt issueTrace.actionTraces [0, 0] = some inlinedTransfer ∧
    inlinedTransfer.Matches tokenPlugin.db.mActionFilterOn ∧
    ∀ c ∈ traceCalls (tokenPlugin.db.add .sample) issueTrace ⟨{}, []⟩, c.arg.action ≠ inlinedTransfer.act := by
  refine ⟨rfl, rfl, rfl, by decide, ?_⟩
  decide

/-- Of an issue and a `batch`, each with a transfer below it, the issue and
the transfer below the `batch` are recorded. -/
theorem recorded_preorder_issues :
    ∃ ps : List Position, ps.Pairwise (· < ·) ∧
      (∀ p, p ∈ ps ↔ ∃ t, nodeAt (issueTrace.actionTraces ++ batchTrace.actionTraces) p = some t ∧
        t.Matches tokenPlugin.db.mActionFilterOn ∧
        Reaches tokenPlugin.db.mActionFilterOn (issueTrace.actionTraces ++ batchTrace.actionTraces) p) ∧
      ((dfsCalls (tokenPlugin.db.add .sample) "2e" ⟨0⟩ (issueTrace.actionTraces ++ batchTrace.actionTraces)
          ⟨{}, []⟩).filter isSuccess).map (fun c => some c.arg) =
        (ps.map fun p => (nodeAt (issueTrace.actionTraces ++ batchTrace.actionTraces) p).map fun t =>
          ⟨t.act, "2e", ⟨0⟩⟩) ∧
      ps.Nodup ∧ ∀ p ∈ ps, ∀ q ∈ ps, p <+: q → p = q :=
  recorded_preorder (by decide)

end SqlDb
