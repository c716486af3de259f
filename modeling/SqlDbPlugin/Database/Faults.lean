import SqlDbPlugin.Database.Effects
import SqlDbPlugin.Database.Frame

/-!
# What `add` does when statements fail

`add_data` executes a number of statements that depends on the action alone
(`dataStatements`), so which of the statements to come is the `INSERT` of
the row, and which are those of `parse_actions`, is known beforehand.
`add_ok` takes a call that returns apart into these three.
-/

namespace SqlDb.ActionsTable

open Sql (lift guarded query update)

variable {L : ChainLib} {filterOut : List String} {a : AddArgs} {action : Action} {v : Variant}
  {w w' : World Exn Db}

/-! ## `add_data` -/

/-- How many statements `add_data` executes. -/
def dataStatements (L : ChainLib) (action : Action) : Nat :=
  if action.data.length = 0 then 0
  else if IsSetabi action then
    match L.unpackSetabi action.data with
    | .ok setabi =>
      match L.unpackAbiDef setabi.abi with
      | .ok _ => 1
      | .error .fc => 1
      | .error _ => 0
    | .error _ => 0
  else 1

theorem run_storedData_world (L : ChainLib) (action : Action) (w : World Exn Db) :
    ((storedData L action).run w).2 = w.after w.db := by
  rw [storedData, selectAbi]
  rcases hw : w.next with _ | e
  · rw [Sql.run_query_bind hw]
    split
    · rw [Sql.run_tryCatch_pure]
      simp only [Sql.run_bind, Sql.run_lift]
      rcases abiFromJson L _ with _ | abi
      · rfl
      · simp only
        rcases decode L abi action with _ | _ <;> rfl
    · rfl
  · rw [Sql.run_query_bind_error hw]

/-- The branch of `add_data` for `eosio::setabi`, in the worlds of its one statement. -/
theorem run_storeAbi_world {setabi : SetAbi} (hs : L.unpackSetabi action.data = .ok setabi)
    (w : World Exn Db) :
    ∃ d, (storeAbi L action).run w =
      match L.unpackAbiDef setabi.abi with
      | .ok abiDef => (.ok (some (L.toJson (L.abiDefVariant abiDef))), w.after d)
      | .error .fc => (.ok none, w)
      | .error e => (.error e, w) := by
  simp only [storeAbi, hs, Sql.run_bind, Sql.run_lift, Sql.run_tryCatch]
  rcases L.unpackAbiDef setabi.abi with e | abiDef
  · refine ⟨w.db, ?_⟩
    rcases e <;> rfl
  · simp only [Sql.run_guarded, Sql.run_pure, Sql.run_update_next]
    rcases w.next with _ | e
    · exact ⟨_, rfl⟩
    · exact ⟨_, rfl⟩

theorem addData_faults (L : ChainLib) (action : Action) (w : World Exn Db) :
    ((addData L action).run w).2.faults = w.faults.drop (dataStatements L action) := by
  rw [addData, dataStatements]
  split
  · rfl
  · rename_i hd
    rw [Sql.run_tryCatch_pure]
    by_cases hs : IsSetabi action
    · rw [if_pos hs.2, if_pos hs, Sql.run_bind]
      rcases hu : L.unpackSetabi action.data with e | setabi
      · rw [storeAbi, hu]
        rfl
      · obtain ⟨d, hrun⟩ := run_storeAbi_world hu w
        rw [hrun]
        simp only
        rcases L.unpackAbiDef setabi.abi with e | abiDef
        · rcases e
          · simp only [run_storedData_world, World.after, List.drop_one]
          all_goals rfl
        · exact List.drop_one.symm
    · rw [if_neg (fun h => hs ⟨hd, h⟩), if_neg hs, run_storedData_world, World.after, List.drop_one]

/-- Only an `eosio::setabi` makes `add_data` write. -/
theorem addData_db (hs : ¬ IsSetabi action) (w : World Exn Db) :
    ((addData L action).run w).2.db = w.db := by
  rw [addData]
  split
  · rfl
  · rename_i hd
    rw [Sql.run_tryCatch_pure, if_neg (fun h => hs ⟨hd, h⟩), run_storedData_world, World.after]

/-! ## `parse_actions` -/

/-- With the `SELECT` done, `parse_actions` goes on with the decoded payload. -/
theorem parseActions_of_next (hv : interpreted L (w.db.abiOf action.account.str) action = some v)
    (hw : w.next = none) :
    (parseActions L action).run w = (parseData L action v).run (w.after w.db) := by
  rw [parseActions, selectAbi, Sql.run_query_bind hw]
  rcases ha : w.db.abiOf action.account.str with _ | ⟨text, htext⟩
  · rw [ha, interpreted] at hv
    split at hv
    · rename_i hacc
      rw [if_neg (by simp), if_pos hacc]
      rcases hd : decode L L.eosioContractAbi action with e | v'
      · rw [hd] at hv
        cases hv
      · rw [hd] at hv
        cases hv
        rfl
    · cases hv
  · rw [ha, interpreted] at hv
    rw [if_pos (by simpa using htext)]
    simp only [Option.map_some, Option.getD_some]
    rcases habi : abiFromJson L text with e | abi
    · rw [habi] at hv
      cases hv
    · rw [habi] at hv
      rw [Sql.run_bind_ok (Sql.run_lift _ _)]
      rcases hd : decode L abi action with e | v'
      · have hv : (decode L abi action).toOption = some v := hv
        rw [hd] at hv
        cases hv
      · have hv : (decode L abi action).toOption = some v := hv
        rw [hd] at hv
        cases hv
        rfl

/-! ## The rows of `actions` -/

theorem actions_of_appends {d d' : Db} (h : Appends (fun _ => False) d d') : d'.actions = d.actions := by
  obtain ⟨rows, hrows, hnone⟩ := h
  rw [hrows, List.eq_nil_iff_forall_not_mem.mpr hnone, List.append_nil]

theorem addData_actions (L : ChainLib) (action : Action) (w : World Exn Db) :
    ((addData L action).run w).2.db.actions = w.db.actions :=
  actions_of_appends (addData_within L action (fun _ _ _ => appends_of_eq rfl) w)

theorem parseActions_actions (L : ChainLib) (action : Action) (w : World Exn Db) :
    ((parseActions L action).run w).2.db.actions = w.db.actions :=
  actions_of_appends (parseActions_within L action
    ⟨fun _ _ => appends_of_eq rfl, fun _ _ => appends_of_eq rfl, fun _ _ => appends_of_eq rfl,
      fun _ _ => appends_of_eq rfl, fun _ _ _ => appends_of_eq rfl, fun _ _ => appends_of_eq rfl⟩ w)

/-! ## `add` -/

/-- The `INSERT` of a row: done, or logged. -/
def inserted (row : ActionRow) (w : World Exn Db) : World Exn Db :=
  w.after (w.next.elim (w.db.insertAction row) fun _ => w.db)

/-- A call that returns, for an action whose name is in the filter: the
payload, the conversion of its JSON, the `INSERT`, and `parse_actions`. -/
theorem add_ok {b : Bool} (hf : a.action.name.str ∈ filterOut)
    (hr : (add L filterOut a).run w = (.ok b, w')) :
    b = true ∧ ∃ json w₁ dataJson, (addData L a.action).run w = (.ok json, w₁) ∧
      contractArg L json = .ok dataJson ∧
      w' = ((parseActions L a.action).run
        (inserted (actionRow L a.action a.transactionId a.blockTime json dataJson) w₁)).2 := by
  obtain ⟨json, w₁, hdata⟩ := addData_ok L a.action w
  rw [add, if_pos hf, Sql.run_bind_ok hdata] at hr
  rcases hc : contractArg L json with e | dataJson
  · rw [hc] at hr
    cases hr
  · rw [hc] at hr
    simp only [Sql.run_bind, Sql.run_lift, Sql.run_guarded, Sql.run_pure, Prod.mk.injEq,
      Except.ok.injEq] at hr
    refine ⟨hr.1.symm, json, w₁, dataJson, hdata, hc, ?_⟩
    rw [← hr.2, Sql.run_update_next, inserted]
    rcases w₁.next with _ | e <;> rfl

end SqlDb.ActionsTable
