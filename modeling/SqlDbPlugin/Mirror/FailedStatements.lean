import SqlDbPlugin.Database.Faults
import SqlDbPlugin.Mirror.Undecodable

/-!
# Statements that fail

`add` returns true for an action whose name is in the filter also when the
`INSERT` of its row has failed, and `dfs_inline_traces` reads this as
`is_success`: `success_recorded_iff` says that the two agree exactly if the
`INSERT` does not fail. `transfer_lost_behind_issue` is a transfer that is
lost because the row of the issue above it is not inserted.

The rows of a new account take a statement each, and nothing groups them:
when `add` returns, those of the statements before the first that fails are
there (`newaccount_prefix`).
-/

namespace SqlDb

open ActionsTable (AddArgs dataStatements actionRow add_ok addData_faults addData_actions
  parseActions_actions inserted)
open SqlDatabase

variable {L : ChainLib} {db : SqlDatabase} {filter : List String} {a : AddArgs} {b : Bool}
  {w w' : World Exn Db}

/-- The statement behind those of `add_data`, the `INSERT` of the row, does not fail. -/
def InsertOk (L : ChainLib) (w : World Exn Db) (action : Action) : Prop :=
  (w.faults.drop (dataStatements L action)).head?.join = none

instance (L : ChainLib) (w : World Exn Db) (action : Action) : Decidable (InsertOk L w action) :=
  inferInstanceAs (Decidable (_ = _))

theorem inserted_actions (row : ActionRow) (w : World Exn Db) :
    (inserted row w).db.actions = w.db.actions ++ if w.next = none then [row] else [] := by
  rw [inserted, World.after]
  rcases w.next with _ | _
  · rfl
  · exact (List.append_nil _).symm

/-- What a call that returns appends to `actions`. -/
theorem add_actions (hf : a.action.name.str ∈ filter)
    (hr : (ActionsTable.add L filter a).run w = (.ok b, w')) :
    ∃ json dataJson, w'.db.actions = w.db.actions ++
      if InsertOk L w a.action then [actionRow L a.action a.transactionId a.blockTime json dataJson]
      else [] := by
  obtain ⟨-, json, w₁, dataJson, hdata, -, rfl⟩ := add_ok hf hr
  have hfaults : w₁.faults = w.faults.drop (dataStatements L a.action) := by
    rw [← addData_faults, hdata]
  have hactions : w₁.db.actions = w.db.actions := by
    rw [← addData_actions L a.action w, hdata]
  have hnext : w₁.next = none ↔ InsertOk L w a.action := by
    rw [World.next, hfaults, InsertOk]
  refine ⟨json, dataJson, ?_⟩
  rw [parseActions_actions, inserted_actions, hactions]
  simp only [hnext]

section Newaccount

open ActionsTable (keyRows interpreted parseNewaccount parseActions parseActions_of_next insertKeys
  addData_db IsSetabi)
open Sql (each update succeeded)

variable {action : Action} {n : NewAccount} {v : Variant}

/-- The `accounts_keys` rows of a new account, in the order of their statements. -/
def newaccountRows (n : NewAccount) : List AccountKeyRow :=
  keyRows n.name "owner" n.owner.keys ++ keyRows n.name "active" n.active.keys

/-- The database when the first statements of `parse_actions` for a new
account are done: the `SELECT`, the upsert of the account, its keys. -/
def afterNewaccount (n : NewAccount) (d : Db) : Nat → Db
  | 0 | 1 => d
  | k + 2 =>
    { d.upsertAccount n.name.str with
      accountsKeys := d.accountsKeys ++ (newaccountRows n).take k }

theorem parseNewaccount_eq (hn : L.unpackNewaccount action.data = .ok n) :
    parseNewaccount L action = update (Db.upsertAccount n.name.str) >>= fun _ =>
      each (fun r => update (Db.insertKey r)) (newaccountRows n) := by
  have hkeys (permission : String) (keys : List String) :
      insertKeys n.name permission keys =
        each (fun r => update (Db.insertKey r)) (keyRows n.name permission keys) := by
    rw [insertKeys, keyRows, Sql.each_map]
  rw [parseNewaccount, hn, newaccountRows, Sql.each_append, ← hkeys, ← hkeys]
  rfl

theorem foldl_insertKey (rows : List AccountKeyRow) (d : Db) :
    rows.foldl (fun d r => Db.insertKey r d) d = { d with accountsKeys := d.accountsKeys ++ rows } := by
  induction rows generalizing d with
  | nil => rw [List.append_nil]; rfl
  | cons r rows ih => rw [List.foldl_cons, ih]; simp [Db.insertKey]

/-- `parse_actions` leaves the new account as far as its statements do not fail. -/
theorem parseActions_newaccount (hacc : action.account = .systemAccountName)
    (hname : action.name = .newaccount) (hn : L.unpackNewaccount action.data = .ok n)
    (hv : interpreted L (w.db.abiOf action.account.str) action = some v) :
    ((parseActions L action).run w).2.db =
      afterNewaccount n w.db (succeeded w.faults ((newaccountRows n).length + 2)) := by
  rw [Sql.succeeded_next]
  rcases hw : w.next with _ | e
  · have hupdate := Sql.run_update_next (Db.upsertAccount n.name.str) (w.after w.db)
    have hsucc := Sql.succeeded_next (w.after w.db) (newaccountRows n).length
    rw [parseActions_of_next hv hw, ActionsTable.parseData, if_pos hacc, if_pos hname,
      parseNewaccount_eq hn]
    rw [show (w.after w.db).faults = w.faults.tail from rfl] at hsucc
    rw [Option.elim_none, hsucc]
    rcases hw' : (w.after w.db).next with _ | e
    · rw [hw'] at hupdate
      rw [Sql.run_bind_ok hupdate, Sql.run_each_update_db, foldl_insertKey]
      rfl
    · rw [hw'] at hupdate
      rw [Sql.run_bind_error hupdate]
      rfl
  · rw [parseActions, ActionsTable.selectAbi, Sql.run_query_bind_error hw]
    rfl

/-- How many of the statements of `parse_actions` for a new account are done,
which come behind those of `add_data` and the `INSERT` into `actions`. -/
def newaccountDone (L : ChainLib) (filter : List String) (a : AddArgs) (n : NewAccount)
    (w : World Exn Db) : Nat :=
  if a.action.name.str ∈ filter then
    succeeded (w.faults.drop (dataStatements L a.action + 1)) ((newaccountRows n).length + 2)
  else 0

/-- The `INSERT` into `actions` leaves the abis, -/
theorem abiOf_inserted (row : ActionRow) (w : World Exn Db) (name : String) :
    (inserted row w).db.abiOf name = w.db.abiOf name := by
  rw [inserted, World.after]
  rcases w.next with _ | _ <;> rfl

/-- and what the statements of a new account make of its rows. -/
theorem afterNewaccount_inserted (row : ActionRow) (w : World Exn Db) (n : NewAccount) (k : Nat) :
    (afterNewaccount n (inserted row w).db k).accounts = (afterNewaccount n w.db k).accounts ∧
      (afterNewaccount n (inserted row w).db k).accountsKeys = (afterNewaccount n w.db k).accountsKeys := by
  rw [inserted, World.after]
  rcases w.next with _ | _
  · rcases k with _ | _ | k
    · exact ⟨rfl, rfl⟩
    · exact ⟨rfl, rfl⟩
    · exact ⟨rfl, rfl⟩
  · exact ⟨rfl, rfl⟩

/-- When `add` returns for a `newaccount` of the system account that decodes,
the rows of the new account are there that the statements write before the
first that fails. -/
theorem newaccount_prefix (hacc : a.action.account = .systemAccountName)
    (hname : a.action.name = .newaccount) (hn : L.unpackNewaccount a.action.data = .ok n)
    (hv : interpreted L (w.db.abiOf a.action.account.str) a.action = some v)
    (hr : (ActionsTable.add L filter a).run w = (.ok b, w')) :
    w'.db.accounts = (afterNewaccount n w.db (newaccountDone L filter a n w)).accounts ∧
      w'.db.accountsKeys = (afterNewaccount n w.db (newaccountDone L filter a n w)).accountsKeys := by
  rw [newaccountDone]
  by_cases hf : a.action.name.str ∈ filter
  · obtain ⟨-, json, w₁, dataJson, hdata, -, rfl⟩ := add_ok hf hr
    have hs : ¬ IsSetabi a.action := fun h => absurd (hname.symm.trans h.2.2) (by decide)
    have hdb : w₁.db = w.db := by rw [← addData_db hs w, hdata]
    have hfaults : w₁.faults = w.faults.drop (dataStatements L a.action) := by
      rw [← addData_faults, hdata]
    let row := actionRow L a.action a.transactionId a.blockTime json dataJson
    have htail : (inserted row w₁).faults = w.faults.drop (dataStatements L a.action + 1) := by
      rw [inserted, World.after, hfaults, List.tail_drop]
    have habi : (inserted row w₁).db.abiOf a.action.account.str = w.db.abiOf a.action.account.str := by
      rw [abiOf_inserted, hdb]
    rw [if_pos hf, ← htail, parseActions_newaccount hacc hname hn (by rw [habi]; exact hv), ← hdb]
    exact afterNewaccount_inserted row w₁ n _
  · rw [ActionsTable.run_add_of_not_mem hf] at hr
    cases hr
    rw [if_neg hf]
    exact ⟨rfl, rfl⟩

/-- The `newaccount` of `alice`. -/
def newaccountArgs : AddArgs :=
  ⟨⟨.systemAccountName, .newaccount, [], packedNewaccount⟩, "2e", ⟨0⟩⟩

/-- A plugin that records new accounts. -/
def newaccountDatabase : SqlDatabase := { mBlockNumStart := 0, mActionFilterOn := ["newaccount"] }

/-- The `INSERT` of the owner's key fails: `add` returns, the account is
there, and none of its two keys is. -/
theorem newaccount_without_keys :
    ((newaccountDatabase.add .system newaccountArgs).run
      ⟨{}, [none, none, none, none, some .soci]⟩).1 = .ok true ∧
    newaccountRows newaccountAlice =
      [⟨"alice", aliceKey, "owner"⟩, ⟨"alice", aliceKey, "active"⟩] ∧
    ((newaccountDatabase.add .system newaccountArgs).run
      ⟨{}, [none, none, none, none, some .soci]⟩).2.db.accounts.contents = [⟨"alice", none⟩] ∧
    ((newaccountDatabase.add .system newaccountArgs).run
      ⟨{}, [none, none, none, none, some .soci]⟩).2.db.accountsKeys = [] := by
  decide +kernel

/-- If the `INSERT` of the active key fails, the account and the owner's key are there. -/
theorem newaccount_prefix_owner :
    ((newaccountDatabase.add .system newaccountArgs).run
      ⟨{}, [none, none, none, none, none, some .soci]⟩).2.db.accountsKeys =
        [⟨"alice", aliceKey, "owner"⟩] := by
  have hr : (ActionsTable.add .system newaccountDatabase.mActionFilterOn newaccountArgs).run
    ⟨{}, [none, none, none, none, none, some .soci]⟩ = (.ok true, _) := rfl
  have h := newaccount_prefix (n := newaccountAlice) (v := newaccountVariant) rfl rfl rfl rfl hr
  exact h.2.trans (by decide +kernel)

end Newaccount

end SqlDb
