import SqlDbPlugin.Mirror.Changes
import SqlDbPlugin.Mirror.FailedStatements

/-!
# What failing statements leave out

A statement that fails is logged somewhere: by the handler around it, by
that of `add_data` or of `add`, or by the worker when the trace is given up.
`faults_omit`: whichever statements fail, a run makes changes to the
database one call of `add` after the other, and each call changes what its
action says (`Omits`), or leaves some of it out. Nothing is ever changed
that no action says. So a table stays as it is as long as the filter has no
name of an action that is about it (`unfiltered_untouched`).
-/

namespace SqlDb

open Sql (lift guarded query update each)
open ActionsTable
open SqlDatabase

variable {L : ChainLib} {my : SqlDbPluginImpl} {action : Action} {w w' : World Exn Db}

/-! ## `add_data` -/

theorem storedData_of_next (L : ChainLib) (action : Action) (hw : w.next = none) :
    (storedData L action).run w =
      (.ok (decoded L (w.db.abiOf action.account.str) action), w.after w.db) := by
  rw [storedData, selectAbi, Sql.run_query_bind hw]
  rcases w.db.abiOf action.account.str with _ | ⟨text, h⟩
  · rfl
  · rw [if_pos (by simpa using h), Sql.run_tryCatch]
    simp only [Sql.run_bind, Sql.run_lift, decoded, Option.map_some, Option.getD_some, Option.bind_some]
    rcases abiFromJson L text with _ | abi
    · rfl
    · show _ = (Except.ok (((decode L abi action).toOption.map L.toJson).getD .emptyObject), _)
      simp only
      rcases decode L abi action with _ | v <;> rfl

/-- With its `SELECT` failed, the payload is `{}`. -/
theorem storedData_run (L : ChainLib) (action : Action) (w : World Exn Db) :
    ((storedData L action).run w).2.db = w.db ∧ ∀ json, ((storedData L action).run w).1 = .ok json →
      json = decoded L (w.db.abiOf action.account.str) action := by
  rcases hw : w.next with _ | e
  · rw [storedData_of_next L action hw]
    exact ⟨rfl, fun json h => (Except.ok.inj h).symm⟩
  · rw [storedData, selectAbi, Sql.run_query_bind_error hw]
    exact ⟨rfl, fun json h => by cases h⟩

/-- The branch for `eosio::setabi` stores the abi, or its statement fails. -/
theorem storeAbi_run {setabi : SetAbi} (hs : L.unpackSetabi action.data = .ok setabi) (w : World Exn Db) :
    match L.unpackAbiDef setabi.abi with
    | .ok abiDef => ((storeAbi L action).run w).1 = .ok (some (L.toJson (L.abiDefVariant abiDef))) ∧
        (((storeAbi L action).run w).2.db = w.db ∨ ((storeAbi L action).run w).2.db =
          w.db.upsertAbi setabi.account.str (L.toJson (L.abiDefVariant abiDef)))
    | .error .fc => (storeAbi L action).run w = (.ok none, w)
    | .error e => (storeAbi L action).run w = (.error e, w) := by
  simp only [storeAbi, hs, Sql.run_bind, Sql.run_lift, Sql.run_tryCatch]
  rcases L.unpackAbiDef setabi.abi with e | abiDef
  · rcases e <;> rfl
  · simp only [Sql.run_guarded, Sql.run_pure, Sql.run_update_next]
    rcases w.next with _ | e
    · exact ⟨trivial, .inr rfl⟩
    · exact ⟨trivial, .inl rfl⟩

/-- From the world `w`, `x` returns the payload of the action, if it returns,
and stores the abi of a `setabi`, if it writes. -/
def DataRun (L : ChainLib) (action : Action) (w : World Exn Db) (x : SqlM JsonText) : Prop :=
  (∀ json, (x.run w).1 = .ok json → json = payload L (w.db.abiOf action.account.str) action) ∧
    ((x.run w).2.db = w.db ∨
      ∃ s, setabiOf L action = some s ∧ (x.run w).2.db = w.db.upsertAbi s.1 s.2)

theorem dataRun_storedData (hp : payload L (w.db.abiOf action.account.str) action =
    decoded L (w.db.abiOf action.account.str) action) : DataRun L action w (storedData L action) := by
  obtain ⟨hdb, hjson⟩ := storedData_run L action w
  exact ⟨fun json h => (hjson json h).trans hp.symm, .inl hdb⟩

theorem dataRun_setabi (hs : IsSetabi action) (w : World Exn Db) :
    DataRun L action w (do
      match ← storeAbi L action with
      | some json => return json
      | none => storedData L action) := by
  have hd := hs.1
  rcases hu : L.unpackSetabi action.data with e | setabi
  · have hrun : (storeAbi L action).run w = (.error e, w) := by rw [storeAbi, hu]; rfl
    rw [DataRun, Sql.run_bind_error hrun]
    exact ⟨fun json h => (by cases h), .inl rfl⟩
  · have hrun := storeAbi_run hu w
    rcases ha : L.unpackAbiDef setabi.abi with e | abiDef
    · simp only [ha] at hrun
      rcases e
      · have hp : payload L (w.db.abiOf action.account.str) action =
            decoded L (w.db.abiOf action.account.str) action := by
          simp only [payload, if_neg hd, if_pos hs, hu, ha]
        rw [DataRun, Sql.run_bind_ok hrun]
        exact dataRun_storedData hp
      all_goals
        rw [DataRun, Sql.run_bind_error hrun]
        exact ⟨fun json h => (by cases h), .inl rfl⟩
    · simp only [ha] at hrun
      have hset : setabiOf L action =
          some (setabi.account.str, L.toJson (L.abiDefVariant abiDef)) := by
        simp only [setabiOf, if_pos hs, hu, ha]
        rfl
      rw [DataRun, Sql.run_bind_ok (Prod.ext hrun.1 rfl), payload_setabiOf hset]
      exact ⟨fun json h => (Except.ok.inj h).symm, hrun.2.imp id fun h => ⟨_, hset, h⟩⟩

/-- `add_data` returns `{}` instead of the payload, and leaves the abi of a
`setabi` out, where a statement fails. -/
theorem addData_run (L : ChainLib) (action : Action) (w : World Exn Db) :
    ∃ json w₁, (addData L action).run w = (.ok json, w₁) ∧
      (json = payload L (w.db.abiOf action.account.str) action ∨ json = .emptyObject) ∧
      (w₁.db = w.db ∨ ∃ s, setabiOf L action = some s ∧ w₁.db = w.db.upsertAbi s.1 s.2) := by
  have hcatch {x : SqlM JsonText} (hx : DataRun L action w x) :
      ∃ json w₁, Sql.run (tryCatch x fun _ => pure .emptyObject) w = (.ok json, w₁) ∧
        (json = payload L (w.db.abiOf action.account.str) action ∨ json = .emptyObject) ∧
        (w₁.db = w.db ∨ ∃ s, setabiOf L action = some s ∧ w₁.db = w.db.upsertAbi s.1 s.2) := by
    obtain ⟨hjson, hdb⟩ := hx
    rw [Sql.run_tryCatch]
    rcases hrun : x.run w with ⟨e | json, w₁⟩ <;> rw [hrun] at hjson hdb
    · exact ⟨_, _, rfl, .inr rfl, hdb⟩
    · exact ⟨_, _, rfl, .inl (hjson json rfl), hdb⟩
  rw [addData]
  split
  · exact ⟨_, _, rfl, .inr rfl, .inl rfl⟩
  · rename_i hd
    by_cases hs : IsSetabi action
    · rw [if_pos hs.2]
      exact hcatch (dataRun_setabi hs w)
    · rw [if_neg fun h => hs ⟨hd, h⟩]
      exact hcatch (dataRun_storedData (by rw [payload, if_neg hd, if_neg hs]))

/-! ## `parse_actions` -/

/-- What is left of a write when only the first `n` keys of the account are inserted. -/
def ActionsTable.Write.cut (wr : Write) (n : Nat) : Changes :=
  { wr.changes with accountsKeys := wr.changes.accountsKeys.take n }

/-- A write is left out, or done up to some of the keys. -/
def Cut (wr : Option Write) (d d' : Db) : Prop :=
  d' = d ∨ ∃ r n, wr = some r ∧ (r.cut n).Made d d'

theorem cut_guarded (r : Write) (hr : r.changes.accountsKeys = []) (w : World Exn Db) :
    Cut (some r) w.db (Sql.run (guarded (update r.apply)) w).2.db := by
  have hrun : (Sql.run (guarded (update r.apply)) w).2.db = w.next.elim (r.apply w.db) fun _ => w.db := by
    rw [Sql.run_guarded, Sql.run_update_next]
    rcases w.next with _ | e <;> rfl
  have hcut : r.cut 0 = r.changes := by rw [Write.cut, List.take_zero, ← hr]
  rw [hrun]
  rcases w.next with _ | e
  · exact .inr ⟨r, 0, rfl, hcut ▸ Changes.made_apply r w.db⟩
  · exact .inl rfl

theorem cut_of_guarded {α : Type} (x : Except Exn α) (r : α → Write)
    (hr : ∀ a, (r a).changes.accountsKeys = []) (w : World Exn Db) :
    Cut (x.toOption.map r) w.db (Sql.run (lift x >>= fun a => guarded (update (r a).apply)) w).2.db := by
  rcases x with e | a
  · exact .inl rfl
  · exact cut_guarded (r a) (hr a) w

theorem cut_newaccount (L : ChainLib) (action : Action) (w : World Exn Db) :
    Cut ((L.unpackNewaccount action.data).toOption.map .account) w.db
      ((parseNewaccount L action).run w).2.db := by
  rcases hn : L.unpackNewaccount action.data with e | a
  · rw [parseNewaccount, hn]
    exact .inl rfl
  · rw [parseNewaccount_eq hn]
    have hupdate := Sql.run_update_next (Db.upsertAccount a.name.str) w
    rcases hw : w.next with _ | e
    · rw [hw] at hupdate
      rw [Sql.run_bind_ok hupdate, Sql.run_each_update_db, foldl_insertKey]
      exact .inr ⟨.account a, _, rfl,
        (Changes.made_upsertAccount w.db a.name.str).append (Changes.made_insertKeys _ _)⟩
    · rw [hw] at hupdate
      rw [Sql.run_bind_error hupdate]
      exact .inl rfl

theorem cut_parseData (L : ChainLib) (action : Action) (v : Variant) (w : World Exn Db) :
    Cut (dataWrite L action v) w.db ((parseData L action v).run w).2.db := by
  unfold parseData dataWrite
  split
  · split
    · exact cut_newaccount L action w
    · split
      · rw [parseVoteproducer_eq]
        exact cut_of_guarded _ .vote (fun _ => rfl) w
      · exact .inl rfl
  · split
    · split
      · rw [parsePropose_eq]
        exact cut_of_guarded _ .propose (fun _ => rfl) w
      · split
        · rw [parseCancelExec_eq]
          exact cut_of_guarded (proposalKeyOf L v) (fun k => .unpropose k.1 k.2) (fun _ => rfl) w
        · exact .inl rfl
    · split
      · rw [parseCreate_eq]
        rcases assetOf L action v with e | _ | row
        · exact .inl rfl
        · exact .inl rfl
        · exact cut_guarded (.asset row) rfl w
      · exact .inl rfl

theorem parseActions_of_not_interpreted (hv : interpreted L (w.db.abiOf action.account.str) action = none) :
    ((parseActions L action).run w).2.db = w.db := by
  rcases hw : w.next with _ | e
  · rw [parseActions, selectAbi, Sql.run_query_bind hw]
    rcases ha : w.db.abiOf action.account.str with _ | ⟨text, htext⟩
    · rw [ha, interpreted] at hv
      rw [if_neg (by simp)]
      split
      · rename_i hacc
        rw [if_pos hacc] at hv
        rcases hd : decode L L.eosioContractAbi action with e | v
        · rfl
        · rw [hd] at hv
          cases hv
      · rfl
    · rw [ha, interpreted] at hv
      rw [if_pos (by simpa using htext)]
      simp only [Option.map_some, Option.getD_some]
      rcases habi : abiFromJson L text with e | abi
      · rfl
      · rw [habi] at hv
        rw [Sql.run_bind_ok (Sql.run_lift _ _)]
        have hv : (decode L abi action).toOption = none := hv
        rcases hd : decode L abi action with e | v
        · rfl
        · rw [hd] at hv
          cases hv
  · rw [parseActions, selectAbi, Sql.run_query_bind_error hw]
    rfl

theorem cut_parseActions (L : ChainLib) (action : Action) (w : World Exn Db) :
    Cut (writeOf L (w.db.abiOf action.account.str) action) w.db ((parseActions L action).run w).2.db := by
  rcases hw : w.next with _ | e
  · rcases hv : interpreted L (w.db.abiOf action.account.str) action with _ | v
    · exact .inl (parseActions_of_not_interpreted hv)
    · rw [parseActions_of_next hv hw, writeOf, hv, Option.bind_some]
      exact cut_parseData L action v (w.after w.db)
  · rw [parseActions, selectAbi, Sql.run_query_bind_error hw]
    exact .inl rfl

/-! ## `add` -/

/-- What a call of `add` can change, where `abi` is what is stored for the
account of its action: the abi of a `setabi`, the row, whose data is `{}` if
the payload was not read, and what `parse_actions` writes, of a new account
perhaps the first keys alone; and each of the three may be left out. -/
def Omits (L : ChainLib) (a : AddArgs) (abi : Option JsonText) (c : Changes) : Prop :=
  ∃ stored row write : Changes, c = stored ++ (row ++ write) ∧
    (stored = {} ∨ ∃ s, setabiOf L a.action = some s ∧ stored = .ofAbi s) ∧
    (row = {} ∨ ∃ json dataJson, (json = payload L abi a.action ∨ json = .emptyObject) ∧
      contractArg L json = .ok dataJson ∧
      row = { actions := [actionRow L a.action a.transactionId a.blockTime json dataJson] }) ∧
    (write = {} ∨ ∃ r n, writeOf L abi a.action = some r ∧ write = r.cut n)

/-- An `eosio::setabi` writes nothing else. -/
theorem writeOf_of_setabiOf {s : String × JsonText} (h : setabiOf L action = some s) (abi : Option JsonText) :
    writeOf L abi action = none := by
  have hs : IsSetabi action := by
    unfold setabiOf at h
    split at h
    · assumption
    · cases h
  have hdata (v : Variant) : dataWrite L action v = none := by
    rw [dataWrite, if_pos hs.2.1, hs.2.2, if_neg (by decide), if_neg (by decide)]
  rw [writeOf]
  rcases interpreted L abi action with _ | v
  · rfl
  · exact hdata v

theorem inserted_made (row : ActionRow) (w : World Exn Db) :
    ∃ c : Changes, (c = {} ∨ c = { actions := [row] }) ∧ c.Made w.db (inserted row w).db := by
  rw [inserted, World.after]
  rcases w.next with _ | e
  · exact ⟨_, .inr rfl, Changes.made_insertAction w.db row⟩
  · exact ⟨_, .inl rfl, .refl w.db⟩

theorem inserted_abiOf (row : ActionRow) (w : World Exn Db) (n : String) :
    (inserted row w).db.abiOf n = w.db.abiOf n := by
  rw [inserted, World.after]
  rcases w.next with _ | e <;> rfl

theorem add_omits {filter : List String} {a : AddArgs} (hf : a.action.name.str ∈ filter) (w : World Exn Db) :
    ∃ c, Omits L a (w.db.abiOf a.action.account.str) c ∧ c.Made w.db ((ActionsTable.add L filter a).run w).2.db := by
  obtain ⟨json, w₁, hdata, hjson, hw₁⟩ := addData_run L a.action w
  obtain ⟨stored, hstored, hmade⟩ : ∃ stored : Changes,
      (stored = {} ∨ ∃ s, setabiOf L a.action = some s ∧ stored = .ofAbi s) ∧ stored.Made w.db w₁.db := by
    obtain h | ⟨s, hs, h⟩ := hw₁
    · exact ⟨_, .inl rfl, h ▸ .refl w.db⟩
    · exact ⟨_, .inr ⟨s, hs, rfl⟩, h ▸ Changes.made_upsertAbi w.db s.1 s.2⟩
  rw [ActionsTable.add, if_pos hf, Sql.run_bind_ok hdata]
  rcases hc : contractArg L json with e | dataJson
  · refine ⟨stored ++ ({} ++ {}), ⟨stored, {}, {}, rfl, hstored, .inl rfl, .inl rfl⟩, ?_⟩
    exact hmade.append ((Changes.Made.refl _).append (.refl _))
  · have hrun : (Sql.run (do
        let dataJson ← lift (.ok dataJson)
        guarded (update (Db.insertAction (actionRow L a.action a.transactionId a.blockTime json dataJson)))
        guarded (parseActions L a.action)
        return true) w₁).2.db = ((parseActions L a.action).run
          (inserted (actionRow L a.action a.transactionId a.blockTime json dataJson) w₁)).2.db := by
      simp only [Sql.run_bind, Sql.run_lift, Sql.run_guarded, Sql.run_pure, Sql.run_update_next, inserted]
      rcases w₁.next with _ | e <;> rfl
    rw [hrun]
    obtain ⟨row, hrow, hins⟩ := inserted_made
      (actionRow L a.action a.transactionId a.blockTime json dataJson) w₁
    have hparse := cut_parseActions L a.action
      (inserted (actionRow L a.action a.transactionId a.blockTime json dataJson) w₁)
    have hwrite : writeOf L ((inserted (actionRow L a.action a.transactionId a.blockTime json dataJson)
        w₁).db.abiOf a.action.account.str) a.action =
          writeOf L (w.db.abiOf a.action.account.str) a.action := by
      rw [inserted_abiOf]
      obtain h | ⟨s, hs, -⟩ := hw₁
      · rw [h]
      · rw [writeOf_of_setabiOf hs, writeOf_of_setabiOf hs]
    rw [hwrite] at hparse
    have hrow' : row = {} ∨ ∃ json dataJson, (json = payload L (w.db.abiOf a.action.account.str) a.action ∨
        json = .emptyObject) ∧ contractArg L json = .ok dataJson ∧
        row = { actions := [actionRow L a.action a.transactionId a.blockTime json dataJson] } :=
      hrow.imp id fun h => ⟨json, dataJson, hjson, hc, h⟩
    obtain h | ⟨r, n, hr, h⟩ := hparse
    · rw [h]
      exact ⟨stored ++ (row ++ {}), ⟨stored, row, {}, rfl, hstored, hrow', .inl rfl⟩,
        hmade.append (hins.append (.refl _))⟩
    · exact ⟨stored ++ (row ++ r.cut n), ⟨stored, row, r.cut n, rfl, hstored, hrow', .inr ⟨r, n, hr, rfl⟩⟩,
        hmade.append (hins.append h)⟩

/-! ## Runs -/

/-- The calls of the run for actions whose names are in the filter. -/
def attempts (L : ChainLib) (my : SqlDbPluginImpl) (d : Db) (pushed : List Signal) :
    List (Sql.Call Exn Db AddArgs Bool) :=
  (callsMade L my d pushed).filter fun c => c.arg.action.name.str ∈ my.db.mActionFilterOn

/-- What a call of `add` changes in the database it is made in. -/
def CallOmits (L : ChainLib) (c : Sql.Call Exn Db AddArgs Bool) (changes : Changes) : Prop :=
  Omits L c.arg (c.before.db.abiOf c.arg.action.account.str) changes

theorem each_omits (L : ChainLib) (filter : List String) (as : List AddArgs) (w : World Exn Db) :
    ∃ cs, List.Forall₂ (CallOmits L) ((Sql.trail (ActionsTable.add L filter) as w).filter fun c =>
        c.arg.action.name.str ∈ filter) cs ∧
      (Changes.join cs).Made w.db ((each (ActionsTable.add L filter) as).run w).2.db := by
  induction as generalizing w with
  | nil => exact ⟨[], .nil, .refl _⟩
  | cons a as ih =>
    by_cases hf : a.action.name.str ∈ filter
    · obtain ⟨c, hc, hmade⟩ := add_omits hf w
      rcases hrun : (ActionsTable.add L filter a).run w with ⟨e | b, w'⟩
      · rw [hrun] at hmade
        rw [Sql.trail_cons_error hrun, each, Sql.run_bind_error hrun,
          List.filter_cons_of_pos (by simpa using hf)]
        exact ⟨[c], .cons hc .nil, hmade.append (.refl _)⟩
      · rw [hrun] at hmade
        rw [Sql.trail_cons_ok hrun, each, Sql.run_bind_ok hrun,
          List.filter_cons_of_pos (by simpa using hf)]
        obtain ⟨cs, hcs, hrest⟩ := ih w'
        exact ⟨c :: cs, .cons hc hcs, hmade.append hrest⟩
    · have hrun := ActionsTable.run_add_of_not_mem (L := L) hf w
      rw [Sql.trail_cons_ok hrun, each, Sql.run_bind_ok hrun,
        List.filter_cons_of_neg (by simpa using hf)]
      exact ih w

theorem consume_omits (L : ChainLib) (my : SqlDbPluginImpl) (d : Db) (s : Signal) :
    ∃ cs, List.Forall₂ (CallOmits L) ((traceCalls (my.db.add L) s.trace ⟨d, s.faults⟩).filter fun c =>
        c.arg.action.name.str ∈ my.db.mActionFilterOn) cs ∧
      (Changes.join cs).Made d (consume L my d s) := by
  have ha := answers_dbAdd L my.db
  rw [consume, consumeTransactionTrace_eq ha]
  have hdb : (Sql.run getSession ⟨d, s.faults⟩ : _ × World Exn Db).2.db = d := Sql.run_query_db _ _
  rcases hs : Sql.run getSession ⟨d, s.faults⟩ with ⟨e | _, w₁⟩ <;> rw [hs] at hdb
  · have hlog := run_getSession_withLog ⟨d, s.faults⟩ ([] : List (Sql.Call Exn Db AddArgs Bool))
    rw [hs] at hlog
    rw [traceCalls, Sql.callsOf, consumeTransactionTrace, Sql.run_bind_error hlog, Sql.run_bind_error hs]
    exact ⟨[], .nil, hdb ▸ .refl w₁.db⟩
  · obtain ⟨cs, hcs, hmade⟩ := each_omits L my.db.mActionFilterOn
      (traceArgs my.db.mActionFilterOn s.trace) w₁
    rw [traceCalls_eq ha hs, Sql.run_bind_ok hs]
    exact ⟨cs, hcs, hdb ▸ hmade⟩

theorem changes_of_run (L : ChainLib) (my : SqlDbPluginImpl) (d : Db) (pushed : List Signal) :
    ∃ cs, List.Forall₂ (CallOmits L) (attempts L my d pushed) cs ∧
      (Changes.join cs).Made d (consumeAll L my d pushed) := by
  induction pushed generalizing d with
  | nil => exact ⟨[], .nil, .refl d⟩
  | cons s pushed ih =>
    obtain ⟨cs, hcs, hmade⟩ := consume_omits L my d s
    obtain ⟨cs', hcs', hmade'⟩ := ih (consume L my d s)
    refine ⟨cs ++ cs', ?_, ?_⟩
    · rw [attempts, callsMade, List.filter_append]
      exact List.rel_append hcs hcs'
    · rw [Changes.join_append]
      exact hmade.append hmade'

/-- Whichever statements of a run fail, the database it leaves is the one it
starts from with changes made to it, those of one call of `add` after
those of another; and each call changes what it would change if no
statement failed, up to what `Omits` lets it leave out. -/
theorem faults_omit (d : Db) (pushed : List Signal) :
    ∃ cs, List.Forall₂ (CallOmits L) (attempts L my d pushed) cs ∧
      (Changes.join cs).Made d (consumeAll L my d pushed) :=
  changes_of_run L my d pushed

/-! ## Which tables the filter lets change -/

/-- What `c` changes is what actions named as `P` says are about. -/
structure About (P : Name → Prop) (c : Changes) : Prop where
  abis : c.abis ≠ [] → P .setabi
  accounts : c.accounts ≠ [] → P .setabi ∨ P .newaccount
  accountsKeys : c.accountsKeys ≠ [] → P .newaccount
  actions : ∀ r ∈ c.actions, ∃ n, P n ∧ r.name = n.str
  assets : c.assets ≠ [] → P .create
  votes : c.votes ≠ [] → P .voteproducer
  proposal : c.proposal ≠ [] → P .propose ∨ P .cancel ∨ P .exec

section About

variable {P Q : Name → Prop} {c c' : Changes}

theorem about_empty (P : Name → Prop) : About P {} :=
  ⟨fun h => absurd rfl h, fun h => absurd rfl h, fun h => absurd rfl h, by simp, fun h => absurd rfl h,
    fun h => absurd rfl h, fun h => absurd rfl h⟩

theorem About.append (h : About P c) (h' : About P c') : About P (c ++ c') := by
  have hor {α : Type} {xs ys : List α} {p : Prop} (hx : xs ≠ [] → p) (hy : ys ≠ [] → p)
      (hxy : xs ++ ys ≠ []) : p := by
    by_cases hn : xs = []
    · subst hn
      exact hy hxy
    · exact hx hn
  exact ⟨hor h.abis h'.abis, hor h.accounts h'.accounts, hor h.accountsKeys h'.accountsKeys,
    fun r hr => (List.mem_append.mp hr).elim (h.actions r) (h'.actions r), hor h.assets h'.assets,
    hor h.votes h'.votes, hor h.proposal h'.proposal⟩

theorem about_join {cs : List Changes} (h : ∀ c ∈ cs, About P c) : About P (Changes.join cs) := by
  induction cs with
  | nil => exact about_empty P
  | cons c cs ih =>
    have hc : About P c := h c List.mem_cons_self
    exact hc.append (ih fun c' hc' => h c' (List.mem_cons_of_mem c hc'))

theorem about_dataWrite {action : Action} {v : Variant} {r : Write} (hP : P action.name)
    (h : dataWrite L action v = some r) : About P r.changes := by
  unfold dataWrite at h
  split at h
  · split at h
    · rename_i hn
      obtain ⟨a, -, rfl⟩ := Option.map_eq_some_iff.mp h
      rw [hn] at hP
      exact { about_empty P with accounts := fun _ => .inr hP, accountsKeys := fun _ => hP }
    · split at h
      · rename_i hn
        obtain ⟨row, -, rfl⟩ := Option.map_eq_some_iff.mp h
        rw [hn] at hP
        exact { about_empty P with votes := fun _ => hP }
      · cases h
  · split at h
    · split at h
      · rename_i hn
        obtain ⟨row, -, rfl⟩ := Option.map_eq_some_iff.mp h
        rw [hn] at hP
        exact { about_empty P with proposal := fun _ => .inl hP }
      · split at h
        · rename_i hn
          obtain ⟨k, -, rfl⟩ := Option.map_eq_some_iff.mp h
          have hP : P .cancel ∨ P .exec := by
            obtain hn | hn := hn <;> rw [hn] at hP
            · exact .inl hP
            · exact .inr hP
          exact { about_empty P with proposal := fun _ => .inr hP }
        · cases h
    · split at h
      · rename_i hn
        obtain ⟨row, -, rfl⟩ := Option.map_eq_some_iff.mp h
        rw [hn] at hP
        exact { about_empty P with assets := fun _ => hP }
      · cases h

theorem Omits.about {a : AddArgs} {abi : Option JsonText} (h : Omits L a abi c) (hP : P a.action.name) :
    About P c := by
  obtain ⟨stored, row, write, rfl, hstored, hrow, hwrite⟩ := h
  have h₁ : About P stored := by
    obtain rfl | ⟨s, hs, rfl⟩ := hstored
    · exact about_empty P
    · rw [name_of_setabiOf hs] at hP
      exact { about_empty P with abis := fun _ => hP, accounts := fun _ => .inl hP }
  have h₂ : About P row := by
    obtain rfl | ⟨json, dataJson, -, -, rfl⟩ := hrow
    · exact about_empty P
    · exact { about_empty P with
        actions := fun r hr => ⟨a.action.name, hP, by rw [List.mem_singleton.mp hr]; rfl⟩ }
  have h₃ : About P write := by
    obtain rfl | ⟨r, n, hr, rfl⟩ := hwrite
    · exact about_empty P
    · obtain ⟨v, -, hv⟩ := Option.bind_eq_some_iff.mp hr
      have hr := about_dataWrite hP hv
      refine { hr with accountsKeys := fun hk => hr.accountsKeys fun hnil => hk ?_ }
      show r.changes.accountsKeys.take n = []
      rw [hnil, List.take_nil]
  exact h₁.append (h₂.append h₃)

theorem about_calls {calls : List (Sql.Call Exn Db AddArgs Bool)} {cs : List Changes}
    (h : List.Forall₂ (CallOmits L) calls cs) (hP : ∀ call ∈ calls, P call.arg.action.name) :
    ∀ c ∈ cs, About P c := by
  induction h with
  | nil => simp
  | @cons call c calls cs hc _ ih =>
    intro c' hc'
    obtain rfl | hmem := List.mem_cons.mp hc'
    · exact hc.about (hP call List.mem_cons_self)
    · exact ih (fun call' h => hP call' (List.mem_cons_of_mem call h)) c' hmem

end About

/-- Two tables of accounts with rows of the same names and with the same abis have the same rows. -/
theorem find?_accounts {d d' : Db} {n : String}
    (hs : (d'.accounts.find? n).isSome ↔ (d.accounts.find? n).isSome) (habi : d'.abiOf n = d.abiOf n) :
    d'.accounts.find? n = d.accounts.find? n := by
  rw [Db.abiOf, Db.abiOf] at habi
  rcases h : d.accounts.find? n with _ | r <;> rcases h' : d'.accounts.find? n with _ | r' <;>
    rw [h, h'] at hs habi
  · simp at hs
  · simp at hs
  · have hname := (Table.key_of_find? h').trans (Table.key_of_find? h).symm
    rcases r with ⟨name, abi⟩
    rcases r' with ⟨name', abi'⟩
    cases hname
    cases habi
    rfl

/-- Whatever is emitted, and whichever statements fail: a table whose
actions have no name in the filter stays as it is, at each of its keys, and
the rows appended to `actions` have names in the filter. -/
theorem unfiltered_untouched (d : Db) (pushed : List Signal) :
    (Name.setabi.str ∉ my.db.mActionFilterOn → ∀ n, (consumeAll L my d pushed).abiOf n = d.abiOf n) ∧
    (Name.setabi.str ∉ my.db.mActionFilterOn → Name.newaccount.str ∉ my.db.mActionFilterOn →
      ∀ n, (consumeAll L my d pushed).accounts.find? n = d.accounts.find? n) ∧
    (Name.newaccount.str ∉ my.db.mActionFilterOn →
      (consumeAll L my d pushed).accountsKeys = d.accountsKeys) ∧
    (∃ rows, (consumeAll L my d pushed).actions = d.actions ++ rows ∧
      ∀ r ∈ rows, r.name ∈ my.db.mActionFilterOn) ∧
    (Name.create.str ∉ my.db.mActionFilterOn →
      ∀ k, (consumeAll L my d pushed).assets.find? k = d.assets.find? k) ∧
    (Name.voteproducer.str ∉ my.db.mActionFilterOn →
      ∀ k, (consumeAll L my d pushed).votes.find? k = d.votes.find? k) ∧
    (Name.propose.str ∉ my.db.mActionFilterOn → Name.cancel.str ∉ my.db.mActionFilterOn →
      Name.exec.str ∉ my.db.mActionFilterOn →
      ∀ k, (consumeAll L my d pushed).proposal.find? k = d.proposal.find? k) := by
  obtain ⟨cs, hcs, hmade⟩ := changes_of_run L my d pushed
  have habout : About (·.str ∈ my.db.mActionFilterOn) (Changes.join cs) :=
    about_join (about_calls hcs fun call hcall => by simpa using List.of_mem_filter hcall)
  generalize Changes.join cs = c at hmade habout
  have habis (h : Name.setabi.str ∉ my.db.mActionFilterOn) (n : String) :
      (consumeAll L my d pushed).abiOf n = d.abiOf n := by
    have hnil : c.abis = [] := by_contra fun hn => h (habout.abis hn)
    rw [hmade.abis, hnil, lastWrite_nil]
  refine ⟨habis, fun h h' n => ?_, fun h => ?_, ⟨c.actions, hmade.actions, fun r hr => ?_⟩,
    fun h k => ?_, fun h k => ?_, fun h h' h'' k => ?_⟩
  · have hnil : c.accounts = [] := by_contra fun hn => (habout.accounts hn).elim h h'
    refine find?_accounts ?_ (habis h n)
    rw [hmade.accounts, hnil]
    simp
  · have hnil : c.accountsKeys = [] := by_contra fun hn => h (habout.accountsKeys hn)
    rw [hmade.accountsKeys, hnil, List.append_nil]
  · obtain ⟨n, hn, he⟩ := habout.actions r hr
    exact he ▸ hn
  · have hnil : c.assets = [] := by_contra fun hn => h (habout.assets hn)
    rw [hmade.assets, hnil, lastWrite_nil]
  · have hnil : c.votes = [] := by_contra fun hn => h (habout.votes hn)
    rw [hmade.votes, hnil, lastWrite_nil]
  · have hnil : c.proposal = [] := by_contra fun hn => (habout.proposal hn).elim h (·.elim h' h'')
    rw [hmade.proposal, hnil, lastWrite_nil]

/-- A transaction in which `alice` votes for `bob`. -/
def voteTrace : TransactionTrace :=
  { issueTrace with
    actionTraces := [⟨.systemAccountName, ⟨.systemAccountName, .voteproducer, [],
      packedAlice ++ List.replicate 8 0 ++ 1 :: packedBob⟩, []⟩] }

def issueAndVote : List Signal := [⟨issueTrace, []⟩, ⟨voteTrace, []⟩]

/-- A database with the abi of the votes, and an earlier vote of `alice`. -/
def earlierVote : Db := (({} : Db).upsertAbi "eosio" SampleAbi.vote.json).upsertVote ⟨"alice", "proxy1", .emptyArray⟩

/-- With issues and transfers in the filter, the issue is recorded and the vote changes nothing. -/
theorem unfiltered_untouched_vote :
    (consumeAll .sample tokenPlugin earlierVote issueAndVote).votes.find? "alice" =
      some ⟨"alice", "proxy1", .emptyArray⟩ ∧
    ∃ rows, (consumeAll .sample tokenPlugin earlierVote issueAndVote).actions = earlierVote.actions ++ rows ∧
      rows.map (·.name) = ["issue"] ∧ ∀ r ∈ rows, r.name ∈ tokenPlugin.db.mActionFilterOn := by
  obtain ⟨-, -, -, ⟨rows, hrows, hnames⟩, -, hvotes, -⟩ :=
    @unfiltered_untouched .sample tokenPlugin earlierVote issueAndVote
  refine ⟨(hvotes (by decide) "alice").trans rfl, rows, hrows, ?_, hnames⟩
  have hall : (consumeAll .sample tokenPlugin earlierVote issueAndVote).actions = rows := hrows
  rw [← hall]
  decide +kernel

end SqlDb
