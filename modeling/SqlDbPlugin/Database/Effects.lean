import SqlDbPlugin.Database.ActionsTable

/-!
# What `add` does when every statement succeeds

`run_addData`, `run_parseActions` and `run_add` give the result and the
database of a call as functions of the database before it and of the action.
The database enters only by the abi stored for the account of the action
(`Db.abiOf`). `parse_actions` amounts to at most one `Write`, which
`writeOf` names.

`add_data` never throws, whichever statements fail (`addData_ok`), so `add`
throws exactly if the payload's JSON is no `system_contract_arg`.
-/

namespace SqlDb.ActionsTable

open Sql (lift guarded query update each)

variable {L : ChainLib}

/-! ## `add_data` -/

/-- The payload by a stored abi, or `{}`. -/
def decoded (L : ChainLib) (abi : Option JsonText) (action : Action) : JsonText :=
  ((abi.bind fun json => (abiFromJson L json.text >>= (decode L · action)).toOption).map
    L.toJson).getD .emptyObject

/-- Whether the branch of `add_data` for `eosio::setabi` is taken. -/
def IsSetabi (action : Action) : Prop :=
  action.data.length ≠ 0 ∧ action.account = .systemAccountName ∧ action.name = .setabi

instance (action : Action) : Decidable (IsSetabi action) := inferInstanceAs (Decidable (_ ∧ _))

/-- The account and the abi of an `eosio::setabi` whose abi bytes unpack. -/
def setabiOf (L : ChainLib) (action : Action) : Option (String × JsonText) :=
  if IsSetabi action then
    match L.unpackSetabi action.data with
    | .ok setabi =>
      (L.unpackAbiDef setabi.abi).toOption.map fun abiDef =>
        (setabi.account.str, L.toJson (L.abiDefVariant abiDef))
    | .error _ => none
  else none

/-- An `eosio::setabi` that `add_data` gives up on: its data does not
unpack, or its abi bytes make the library throw something other than an
`fc::exception`. -/
def GivesUp (L : ChainLib) (action : Action) : Prop :=
  IsSetabi action ∧
    match L.unpackSetabi action.data with
    | .ok setabi => ∃ e, e ≠ .fc ∧ L.unpackAbiDef setabi.abi = .error e
    | .error _ => True

/-- The JSON `add_data` returns, where `abi` is what is stored for the account of the action. -/
def payload (L : ChainLib) (abi : Option JsonText) (action : Action) : JsonText :=
  if action.data.length = 0 then .emptyObject
  else if IsSetabi action then
    match L.unpackSetabi action.data with
    | .ok setabi =>
      match L.unpackAbiDef setabi.abi with
      | .ok abiDef => L.toJson (L.abiDefVariant abiDef)
      | .error .fc => decoded L abi action
      | .error _ => .emptyObject
    | .error _ => .emptyObject
  else decoded L abi action

/-- The database `add_data` leaves. -/
def afterData (L : ChainLib) (action : Action) (d : Db) : Db :=
  (setabiOf L action).elim d fun s => d.upsertAbi s.1 s.2

theorem payload_setabiOf {abi : Option JsonText} {action : Action} {s : String × JsonText}
    (h : setabiOf L action = some s) : payload L abi action = s.2 := by
  unfold setabiOf at h
  split at h
  · rename_i hs
    rw [payload, if_neg hs.1, if_pos hs]
    split at h
    · obtain ⟨abiDef, ha, rfl⟩ := Option.map_eq_some_iff.mp h
      rcases hu : L.unpackAbiDef _ with _ | _ <;> rw [hu] at ha <;> cases ha
      rfl
    · cases h
  · cases h

theorem run_selectAbi (name : Name) (d : Db) :
    (selectAbi name).run ⟨d, []⟩ = (.ok (((d.abiOf name.str).map JsonText.text).getD ""), ⟨d, []⟩) :=
  rfl

theorem run_storedData (action : Action) (d : Db) :
    (storedData L action).run ⟨d, []⟩ = (.ok (decoded L (d.abiOf action.account.str) action), ⟨d, []⟩) := by
  rw [storedData, Sql.run_bind_ok (run_selectAbi action.account d)]
  rcases d.abiOf action.account.str with _ | ⟨text, h⟩
  · rfl
  · rw [if_pos (by simpa using h), Sql.run_tryCatch]
    simp only [Sql.run_bind, Sql.run_lift, decoded, Option.map_some, Option.getD_some,
      Option.bind_some]
    rcases abiFromJson L text with _ | abi
    · rfl
    · show _ = (Except.ok (((decode L abi action).toOption.map L.toJson).getD .emptyObject), _)
      simp only
      rcases decode L abi action with _ | v <;> rfl

theorem run_storeAbi_ok {action : Action} {setabi : SetAbi} (hs : L.unpackSetabi action.data = .ok setabi)
    (d : Db) :
    (storeAbi L action).run ⟨d, []⟩ =
      match L.unpackAbiDef setabi.abi with
      | .ok abiDef =>
        (.ok (some (L.toJson (L.abiDefVariant abiDef))),
          ⟨d.upsertAbi setabi.account.str (L.toJson (L.abiDefVariant abiDef)), []⟩)
      | .error .fc => (.ok none, ⟨d, []⟩)
      | .error e => (.error e, ⟨d, []⟩) := by
  simp only [storeAbi, hs, Sql.run_bind, Sql.run_lift, Sql.run_tryCatch]
  rcases L.unpackAbiDef setabi.abi with e | abiDef
  · rcases e <;> rfl
  · simp only [Sql.run_guarded, Sql.run_update, Sql.run_pure]

theorem run_addData (action : Action) (d : Db) :
    (addData L action).run ⟨d, []⟩ =
      (.ok (payload L (d.abiOf action.account.str) action), ⟨afterData L action d, []⟩) := by
  rw [addData, payload, afterData, setabiOf]
  by_cases hd : action.data.length = 0
  · have hs : ¬ IsSetabi action := fun h => h.1 hd
    simp [hd, hs]
  · rw [if_neg hd, if_neg hd, Sql.run_tryCatch]
    by_cases hs : IsSetabi action
    · rw [if_pos hs.2, if_pos hs, if_pos hs, Sql.run_bind]
      rcases hu : L.unpackSetabi action.data with e | setabi
      · rw [storeAbi, hu]
        rfl
      · rw [run_storeAbi_ok hu]
        simp only
        rcases L.unpackAbiDef setabi.abi with e | abiDef
        · rcases e
          · simp only [run_storedData]
            rfl
          all_goals rfl
        · rfl
    · rw [if_neg (fun h => hs ⟨hd, h⟩), if_neg hs, if_neg hs, run_storedData]
      rfl

/-- `add_data` returns, however its statements go. -/
theorem addData_ok (L : ChainLib) (action : Action) (w : World Exn Db) :
    ∃ json w', (addData L action).run w = (.ok json, w') := by
  rw [addData]
  split
  · exact ⟨_, _, rfl⟩
  · rw [Sql.run_tryCatch]
    split
    · exact ⟨_, _, rfl⟩
    · exact ⟨_, _, rfl⟩

/-! ## `parse_actions` -/

/-- What one call of `parse_actions` writes. -/
inductive Write
  | account (newaccount : NewAccount)
  | vote (row : VoteRow)
  | propose (row : ProposalRow)
  | unpropose (proposer proposalName : String)
  | asset (row : AssetRow)

/-- The `accounts_keys` rows of one permission. -/
def keyRows (account : Name) (permission : String) (keys : List String) : List AccountKeyRow :=
  keys.map fun key => ⟨account.str, key, permission⟩

def Write.apply : Write → Db → Db
  | .account a, d =>
    { d.upsertAccount a.name.str with
      accountsKeys := d.accountsKeys ++
        (keyRows a.name "owner" a.owner.keys ++ keyRows a.name "active" a.active.keys) }
  | .vote row, d => d.upsertVote row
  | .propose row, d => d.upsertProposal row
  | .unpropose proposer proposalName, d => d.deleteProposal proposer proposalName
  | .asset row, d => d.replaceAsset row

/-- The payload as `parse_actions` decodes it: by the stored abi, or for the
system account by the library's. -/
def interpreted (L : ChainLib) (abi : Option JsonText) (action : Action) : Option Variant :=
  match abi with
  | some json => (abiFromJson L json.text >>= (decode L · action)).toOption
  | none =>
    if action.account = .systemAccountName then (decode L L.eosioContractAbi action).toOption else none

theorem interpreted_eq {L : ChainLib} {json : JsonText} {action : Action} {abi : L.AbiDef} {v : Variant}
    (habi : abiFromJson L json.text = .ok abi) (hv : decode L abi action = .ok v) :
    interpreted L (some json) action = some v := by
  rw [interpreted, habi]
  show (decode L abi action).toOption = some v
  rw [hv]
  rfl

def voteOf (L : ChainLib) (v : Variant) : Except Exn VoteRow := do
  let voter ← v.get "voter" >>= L.asName
  let proxy ← v.get "proxy" >>= L.asName
  let producers ← v.get "producers"
  return ⟨voter.str, proxy.str, L.toJson producers⟩

def proposalOf (L : ChainLib) (v : Variant) : Except Exn ProposalRow := do
  let proposer ← v.get "proposer" >>= L.asName
  let proposalName ← v.get "proposal_name" >>= L.asName
  let requested ← v.get "requested"
  return ⟨proposer.str, proposalName.str, (L.toJson requested).text⟩

def proposalKeyOf (L : ChainLib) (v : Variant) : Except Exn (String × String) := do
  let proposer ← v.get "proposer" >>= L.asName
  let proposalName ← v.get "proposal_name" >>= L.asName
  return (proposer.str, proposalName.str)

/-- The asset a `create` makes, unless the guard rejects it. -/
def assetOf (L : ChainLib) (action : Action) (v : Variant) : Except Exn (Option AssetRow) := do
  let issuer ← v.get "issuer" >>= L.asName
  let maximumSupply ← v.get "maximum_supply" >>= L.asAsset
  return if issuer.str = "" ∨ maximumSupply.amount ≤ 0 then none else some {
    supply := 0
    maxSupply := maximumSupply.amount.toInt
    symbolPrecision := maximumSupply.precision.toNat
    symbol := maximumSupply.symbolName
    issuer := issuer.str
    contractOwner := action.account.str }

/-- What `parse_actions` writes for the decoded payload `v`. -/
def dataWrite (L : ChainLib) (action : Action) (v : Variant) : Option Write :=
  if action.account = .systemAccountName then
    if action.name = .newaccount then (L.unpackNewaccount action.data).toOption.map .account
    else if action.name = .voteproducer then (voteOf L v).toOption.map .vote
    else none
  else if action.account = .eosioMsig then
    if action.name = .propose then (proposalOf L v).toOption.map .propose
    else if action.name = .cancel ∨ action.name = .exec then
      (proposalKeyOf L v).toOption.map fun k => .unpropose k.1 k.2
    else none
  else if action.name = .create then ((assetOf L action v).toOption.bind id).map .asset
  else none

/-- What `parse_actions` writes, where `abi` is what is stored for the account of the action. -/
def writeOf (L : ChainLib) (abi : Option JsonText) (action : Action) : Option Write :=
  (interpreted L abi action).bind (dataWrite L action)

/-- The database `parse_actions` leaves. -/
def afterParse (L : ChainLib) (action : Action) (d : Db) : Db :=
  (writeOf L (d.abiOf action.account.str) action).elim d fun w => w.apply d

theorem run_insertKeys (account : Name) (permission : String) (keys : List String) (d : Db) :
    (insertKeys account permission keys).run ⟨d, []⟩ =
      (.ok (), ⟨{ d with accountsKeys := d.accountsKeys ++ keyRows account permission keys }, []⟩) := by
  unfold insertKeys keyRows
  induction keys generalizing d with
  | nil => simp [each]
  | cons key keys ih =>
    rw [each, Sql.run_bind_ok (Sql.run_update _ d), ih]
    simp [Db.insertKey]

theorem run_parseNewaccount (action : Action) (d : Db) :
    ((parseNewaccount L action).run ⟨d, []⟩).2 =
      ⟨((L.unpackNewaccount action.data).toOption.map Write.account).elim d fun w => w.apply d, []⟩ := by
  rw [parseNewaccount, Sql.run_bind, Sql.run_lift]
  rcases L.unpackNewaccount action.data with e | a
  · rfl
  · simp only [Sql.run_bind, Sql.run_update, run_insertKeys]
    simp [Write.apply, Db.upsertAccount, Except.toOption]

theorem parseVoteproducer_eq (v : Variant) :
    parseVoteproducer L v = lift (voteOf L v) >>= fun row => guarded (update (Db.upsertVote row)) := by
  funext w
  show Sql.run _ w = Sql.run _ w
  simp only [voteOf, Sql.run_bind, Sql.run_lift]
  rcases v.get "voter" >>= L.asName with _ | _
  · rfl
  · rcases v.get "proxy" >>= L.asName with _ | _
    · rfl
    · rcases v.get "producers" with _ | _ <;> rfl

theorem parsePropose_eq (v : Variant) :
    parsePropose L v =
      lift (proposalOf L v) >>= fun row => guarded (update (Db.upsertProposal row)) := by
  funext w
  show Sql.run _ w = Sql.run _ w
  simp only [proposalOf, Sql.run_bind, Sql.run_lift]
  rcases v.get "proposer" >>= L.asName with _ | _
  · rfl
  · rcases v.get "proposal_name" >>= L.asName with _ | _
    · rfl
    · rcases v.get "requested" with _ | _ <;> rfl

theorem parseCancelExec_eq (v : Variant) :
    parseCancelExec L v =
      lift (proposalKeyOf L v) >>= fun k => guarded (update (Db.deleteProposal k.1 k.2)) := by
  funext w
  show Sql.run _ w = Sql.run _ w
  simp only [proposalKeyOf, Sql.run_bind, Sql.run_lift]
  rcases v.get "proposer" >>= L.asName with _ | _
  · rfl
  · rcases v.get "proposal_name" >>= L.asName with _ | _ <;> rfl

theorem parseCreate_eq (action : Action) (v : Variant) :
    parseCreate L action v =
      lift (assetOf L action v) >>= fun row =>
        row.elim (pure ()) fun row => guarded (update (Db.replaceAsset row)) := by
  funext w
  show Sql.run _ w = Sql.run _ w
  simp only [assetOf, Sql.run_bind, Sql.run_lift]
  rcases v.get "issuer" >>= L.asName with _ | issuer
  · rfl
  · rcases v.get "maximum_supply" >>= L.asAsset with _ | maximumSupply
    · rfl
    · show Sql.run (if issuer.str = "" ∨ maximumSupply.amount ≤ 0 then _ else _) w =
        Sql.run (Option.elim (if issuer.str = "" ∨ maximumSupply.amount ≤ 0 then _ else _) _ _) w
      split <;> rfl

theorem run_lift_guarded {α : Type} (x : Except Exn α) (f : α → Db → Db) (d : Db) :
    (Sql.run (lift x >>= fun a => guarded (update (f a))) ⟨d, []⟩).2 =
      ⟨x.toOption.elim d (f · d), []⟩ := by
  rcases x with _ | a <;> rfl

theorem run_parseData (action : Action) (v : Variant) (d : Db) :
    ((parseData L action v).run ⟨d, []⟩).2 =
      ⟨(dataWrite L action v).elim d fun w => w.apply d, []⟩ := by
  unfold parseData dataWrite
  split
  · split
    · exact run_parseNewaccount action d
    · split
      · rw [parseVoteproducer_eq, run_lift_guarded]
        rcases voteOf L v with _ | _ <;> rfl
      · rfl
  · split
    · split
      · rw [parsePropose_eq, run_lift_guarded]
        rcases proposalOf L v with _ | _ <;> rfl
      · split
        · rw [parseCancelExec_eq, run_lift_guarded]
          rcases proposalKeyOf L v with _ | _ <;> rfl
        · rfl
    · split
      · rw [parseCreate_eq]
        rcases assetOf L action v with _ | _ | _ <;> rfl
      · rfl

theorem run_parseActions (action : Action) (d : Db) :
    ((parseActions L action).run ⟨d, []⟩).2 = ⟨afterParse L action d, []⟩ := by
  rw [parseActions, Sql.run_bind_ok (run_selectAbi action.account d), afterParse, writeOf]
  rcases d.abiOf action.account.str with _ | ⟨text, h⟩
  · rw [if_neg (by simp), interpreted]
    split
    · rcases decode L L.eosioContractAbi action with _ | v
      · rfl
      · exact run_parseData action v d
    · rfl
  · rw [if_pos (by simpa using h), interpreted]
    simp only [Option.map_some, Option.getD_some]
    rcases abiFromJson L text with _ | abi
    · rfl
    · rw [Sql.run_bind_ok (Sql.run_lift _ _)]
      show _ = (⟨((decode L abi action).toOption.bind _).elim _ _, []⟩ : World Exn Db)
      rcases decode L abi action with _ | v
      · rfl
      · exact run_parseData action v d

/-! ## `add` -/

variable {filterOut : List String} {a : AddArgs}

theorem run_add_of_not_mem (h : a.action.name.str ∉ filterOut) (w : World Exn Db) :
    (add L filterOut a).run w = (.ok false, w) := by
  rw [add, if_neg h]
  rfl

/-- The database behind `add`, once the payload's JSON is converted. -/
def afterAdd (L : ChainLib) (a : AddArgs) (dataJson : SystemContractArg) (d : Db) : Db :=
  afterParse L a.action ((afterData L a.action d).insertAction
    (actionRow L a.action a.transactionId a.blockTime (payload L (d.abiOf a.action.account.str) a.action)
      dataJson))

theorem afterData_actions (action : Action) (d : Db) : (afterData L action d).actions = d.actions := by
  rw [afterData]
  rcases setabiOf L action with _ | _ <;> rfl

theorem afterParse_actions (action : Action) (d : Db) : (afterParse L action d).actions = d.actions := by
  rw [afterParse]
  rcases writeOf L (d.abiOf action.account.str) action with _ | w
  · rfl
  · rcases w <;> rfl

/-- `add` appends its row to `actions`. -/
theorem afterAdd_actions (dataJson : SystemContractArg) (d : Db) :
    (afterAdd L a dataJson d).actions = d.actions ++
      [actionRow L a.action a.transactionId a.blockTime
        (payload L (d.abiOf a.action.account.str) a.action) dataJson] := by
  rw [afterAdd, afterParse_actions, Db.insertAction, afterData_actions]

theorem run_add_of_mem (h : a.action.name.str ∈ filterOut) (d : Db) :
    (add L filterOut a).run ⟨d, []⟩ =
      match contractArg L (payload L (d.abiOf a.action.account.str) a.action) with
      | .ok dataJson => (.ok true, ⟨afterAdd L a dataJson d, []⟩)
      | .error e => (.error e, ⟨afterData L a.action d, []⟩) := by
  rw [add, if_pos h, Sql.run_bind_ok (run_addData a.action d), Sql.run_bind, Sql.run_lift]
  rcases contractArg L _ with e | dataJson
  · rfl
  · simp only [Sql.run_bind, Sql.run_guarded, Sql.run_update, run_parseActions]
    rfl

end SqlDb.ActionsTable
