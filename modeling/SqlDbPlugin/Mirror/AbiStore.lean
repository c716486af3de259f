import Mathlib.Data.List.Induction
import SqlDbPlugin.Database.Effects
import SqlDbPlugin.Lib.LastWrite

/-!
# The abi store

The abis in `accounts` are a history-dependent decoder: which abi decodes
the payload of an action was stored by an earlier one. `abi_store`: after
any calls of `add`, the abi stored for an account is that of its last
`eosio::setabi` whose abi bytes unpack, whatever else was processed, and the
next payload is decoded by just that abi. The exception is an
`eosio::setabi` that `add_data` gives up on (`GivesUp`): the stored abi is
not tried on it. `setabi_not_tried` has one that it would decode.
-/

namespace SqlDb

open ActionsTable (AddArgs add addData setabiOf payload decoded afterData afterParse afterAdd IsSetabi
  GivesUp Write writeOf)

variable {L : ChainLib} {filter : List String} {d : Db}

/-- The database after a call of `add` whose statements all succeed, whether it returns or throws. -/
def added (L : ChainLib) (filter : List String) (d : Db) (a : AddArgs) : Db :=
  ((add L filter a).run ⟨d, []⟩).2.db

/-- The database after a sequence of calls. -/
def addAll (L : ChainLib) (filter : List String) (d : Db) (as : List AddArgs) : Db :=
  as.foldl (added L filter) d

/-- The abis that a sequence of actions stores: of each `eosio::setabi`
whose abi bytes unpack, the account and the abi. -/
def setabis (L : ChainLib) (as : List AddArgs) : List (String × Option JsonText) :=
  as.filterMap fun a => (setabiOf L a.action).map fun s => (s.1, some s.2)

/-! ## One call -/

theorem abiOf_upsertAbi (name : String) (abi : JsonText) (d : Db) (n : String) :
    (d.upsertAbi name abi).abiOf n = if n = name then some abi else d.abiOf n := by
  rw [Db.abiOf, Db.find?_upsertAbi]
  split
  · rfl
  · rfl

/-- A new account has no abi, and an account created once more keeps its own. -/
theorem abiOf_upsertAccount (name : String) (d : Db) (n : String) :
    (d.upsertAccount name).abiOf n = d.abiOf n := by
  rw [Db.abiOf, Db.upsertAccount, Table.find?_upsert]
  split
  · rename_i hn
    subst hn
    rw [Db.abiOf]
    rcases h : d.accounts.find? n with _ | row
    · rfl
    · rfl
  · rfl

/-- `parse_actions` changes no abi. -/
theorem abiOf_apply (w : Write) (d : Db) (n : String) : (w.apply d).abiOf n = d.abiOf n := by
  cases w with
  | account a => exact abiOf_upsertAccount a.name.str d n
  | _ => rfl

theorem abiOf_afterParse (action : Action) (d : Db) (n : String) :
    (afterParse L action d).abiOf n = d.abiOf n := by
  rw [afterParse]
  rcases writeOf L (d.abiOf action.account.str) action with _ | w
  · rfl
  · exact abiOf_apply w d n

theorem abiOf_afterData (action : Action) (d : Db) (n : String) :
    (afterData L action d).abiOf n =
      (setabiOf L action).elim (d.abiOf n) fun s => if n = s.1 then some s.2 else d.abiOf n := by
  rw [afterData]
  rcases setabiOf L action with _ | s
  · rfl
  · exact abiOf_upsertAbi s.1 s.2 d n

/-- Only an `eosio::setabi` has an abi to store. -/
theorem name_of_setabiOf {action : Action} {s : String × JsonText} (h : setabiOf L action = some s) :
    action.name = .setabi := by
  unfold setabiOf at h
  split at h
  · rename_i hs
    exact hs.2.2
  · cases h

/-- A call stores the abi of a `setabi`, whether it returns or throws, and changes no other. -/
theorem abiOf_added (hf : Name.setabi.str ∈ filter) (a : AddArgs) (d : Db) (n : String) :
    (added L filter d a).abiOf n =
      (setabiOf L a.action).elim (d.abiOf n) fun s => if n = s.1 then some s.2 else d.abiOf n := by
  by_cases ha : a.action.name.str ∈ filter
  · rw [added, ActionsTable.run_add_of_mem ha, ← abiOf_afterData]
    split
    · rw [afterAdd, abiOf_afterParse]
      rfl
    · rfl
  · rw [added, ActionsTable.run_add_of_not_mem ha]
    rcases hs : setabiOf L a.action with _ | s
    · rfl
    · rw [name_of_setabiOf hs] at ha
      exact absurd hf ha

/-! ## Sequences of calls -/

theorem abiOf_addAll (hf : Name.setabi.str ∈ filter) (as : List AddArgs) (d : Db) (n : String) :
    (addAll L filter d as).abiOf n = lastWrite d.abiOf (setabis L as) n := by
  induction as using List.reverseRecOn with
  | nil => rfl
  | append_singleton as a ih =>
    have hlast : addAll L filter d (as ++ [a]) = added L filter (addAll L filter d as) a := by
      rw [addAll, List.foldl_append]
      rfl
    have hwrites : setabis L (as ++ [a]) =
        setabis L as ++ ((setabiOf L a.action).map fun s => (s.1, some s.2)).toList :=
      filterMap_concat _ as a
    rw [hlast, abiOf_added hf, ih, hwrites]
    rcases setabiOf L a.action with _ | s
    · show _ = lastWrite d.abiOf (setabis L as ++ []) n
      rw [List.append_nil]
      rfl
    · exact (lastWrite_concat (s.1, some s.2) n).symm

/-- The payload of an action that stores no abi is decoded by the abi in
force, unless `add_data` gives up on it. -/
theorem payload_of_not_setabi {action : Action} (hd : action.data.length ≠ 0)
    (hs : setabiOf L action = none) (abi : Option JsonText) :
    (GivesUp L action → payload L abi action = .emptyObject) ∧
    (¬ GivesUp L action → payload L abi action = decoded L abi action) := by
  rw [payload, if_neg hd]
  by_cases hi : IsSetabi action
  · rw [if_pos hi]
    rw [setabiOf, if_pos hi] at hs
    simp only [GivesUp, hi, true_and]
    revert hs
    rcases L.unpackSetabi action.data with e | setabi
    · exact fun _ => ⟨fun _ => rfl, fun h => absurd trivial h⟩
    · simp only
      rcases L.unpackAbiDef setabi.abi with e | abiDef
      · intro _
        rcases e
        · refine ⟨?_, fun _ => rfl⟩
          rintro ⟨e, hne, he⟩
          cases he
          exact absurd rfl hne
        all_goals exact ⟨fun _ => rfl, fun h => absurd ⟨_, by decide, rfl⟩ h⟩
      · intro hs
        cases hs
  · rw [if_neg hi]
    exact ⟨fun h => absurd h.1 hi, fun _ => rfl⟩

/-- After any calls of `add` with `setabi` in the filter, in any database:
the abi stored for an account is that of its last `eosio::setabi` whose abi
bytes unpack, or the one stored before; there are no two rows of one name;
and the data recorded for an action that follows and stores no abi itself is
its decoding by the abi stored for its account, or `{}` if there is none or
it does not decode, or if `add_data` gives up on it. -/
theorem abi_store (hf : Name.setabi.str ∈ filter) (d : Db) (as : List AddArgs) :
    (∀ n, (addAll L filter d as).abiOf n = lastWrite d.abiOf (setabis L as) n) ∧
    ((addAll L filter d as).accounts.contents.map AccountRow.name).Nodup ∧
    ∀ a w, (add L filter a).run ⟨addAll L filter d as, []⟩ = (.ok true, w) →
      a.action.data.length ≠ 0 → setabiOf L a.action = none →
      ∃ row, w.db.actions = (addAll L filter d as).actions ++ [row] ∧
        (GivesUp L a.action → row.data = .emptyObject) ∧
        (¬ GivesUp L a.action → row.data =
          decoded L (lastWrite d.abiOf (setabis L as) a.action.account.str) a.action) := by
  refine ⟨abiOf_addAll hf as d, Table.nodup_keys _, fun a w hrun hd hs => ?_⟩
  by_cases ha : a.action.name.str ∈ filter
  · rw [ActionsTable.run_add_of_mem ha] at hrun
    split at hrun
    · obtain ⟨-, rfl⟩ := Prod.mk.inj hrun
      refine ⟨_, ActionsTable.afterAdd_actions _ _, ?_⟩
      rw [← abiOf_addAll (L := L) hf as d]
      exact payload_of_not_setabi hd hs _
    · cases hrun
  · rw [ActionsTable.run_add_of_not_mem ha] at hrun
    cases hrun

/-! ## `setabi` -/

def setabiFilter : List String := ["setabi", "newaccount"]

/-- The `setabi` of the empty abi for `eosio`. -/
def setabiCall : AddArgs where
  action := ⟨.systemAccountName, .setabi, [], [0, 0, 0, 0, 0, 0xea, 0x30, 0x55, 8] ++ List.replicate 8 0⟩
  transactionId := "5a"
  blockTime := ⟨0⟩

/-- It replaces the abi stored before. -/
theorem abi_store_setabi :
    (addAll .sample setabiFilter (({} : Db).upsertAbi "eosio" SampleAbi.vote.json) [setabiCall]).abiOf
      "eosio" = some SampleAbi.empty.json :=
  ((abi_store (by decide) _ [setabiCall]).1 "eosio").trans (by decide +kernel)

/-- A `setabi` of two bytes. -/
def shortSetabi : AddArgs := { setabiCall with action := { setabiCall.action with data := [1, 63] } }

/-- The abis of a chain on which the system contract's `setabi` is a text. -/
def setabiAccounts : Db := ({} : Db).upsertAbi "eosio" SampleAbi.setabi.json

/-- The abi stored for `eosio` decodes the short `setabi`, but it is recorded as `{}`. -/
theorem setabi_not_tried :
    shortSetabi.action.data.length ≠ 0 ∧ setabiOf .sample shortSetabi.action = none ∧
    (added .sample setabiFilter setabiAccounts shortSetabi).actions.map (·.data.text) = ["\x7b\x7d"] ∧
    (decoded .sample (setabiAccounts.abiOf "eosio") shortSetabi.action).text = "\"?\"" := by
  refine ⟨by decide, rfl, by decide +kernel, by decide +kernel⟩

end SqlDb
