import SqlDbPlugin.Database.Schema

/-!
# `actions_table`

`add`, `add_data` and `parse_actions` of `actions_table.cpp`, statement by
statement. A handler that logs and goes on is `Sql.guarded`.
-/

namespace SqlDb

open Sql (lift guarded query update each)

/-- The columns `add` extracts from the payload (`to` and `from` are Lean's own words). -/
structure SystemContractArg where
  to' : Name := .empty
  from' : Name := .empty
  receiver : Name := .empty
  payer : Name := .empty
  name : Name := .empty
  account : Name := .empty
  deriving DecidableEq

namespace SystemContractArg

/-- A reflected member is left at its default if the object does not have it. -/
def member (L : ChainLib) (fields : List (String × Variant)) (key : String) : Except Exn Name :=
  match fields.lookup key with
  | some v => L.asName v
  | none => .ok .empty

/-- `as<system_contract_arg>()` -/
def ofVariant (L : ChainLib) : Variant → Except Exn SystemContractArg
  | .object fields => do
    let to' ← member L fields "to"
    let from' ← member L fields "from"
    let receiver ← member L fields "receiver"
    let payer ← member L fields "payer"
    let name ← member L fields "name"
    let account ← member L fields "account"
    return { to', from', receiver, payer, name, account }
  | _ => .error .fc

end SystemContractArg

namespace ActionsTable

/-- `SELECT abi FROM accounts WHERE name = :name`, into a string that stays
empty if there is no row or its abi is null. -/
def selectAbi (name : Name) : SqlM String :=
  query fun d => ((d.abiOf name.str).map JsonText.text).getD ""

/-- `from_string(text).as<abi_def>()` -/
def abiFromJson (L : ChainLib) (text : String) : Except Exn L.AbiDef := L.fromString text >>= L.asAbiDef

/-- `set_abi`, then `binary_to_variant` of the type of the action. -/
def decode (L : ChainLib) (abi : L.AbiDef) (action : Action) : Except Exn Variant := do
  let abis ← L.setAbi abi
  L.binaryToVariant abis (L.getActionType abis action.name) action.data

/-! ## `add_data` -/

/-- The branch for `eosio::setabi`: stores the abi, and returns its JSON. It
goes on behind the branch, with no result, if the abi does not unpack. -/
def storeAbi (L : ChainLib) (action : Action) : SqlM (Option JsonText) := do
  let setabi ← lift (L.unpackSetabi action.data)
  tryCatch (do
    let abiDef ← lift (L.unpackAbiDef setabi.abi)
    let json := L.toJson (L.abiDefVariant abiDef)
    guarded (update (Db.upsertAbi setabi.account.str json))
    return some json)
    fun
    | .fc => pure none
    | e => throw e

/-- The payload by the abi stored for the action's account. -/
def storedData (L : ChainLib) (action : Action) : SqlM JsonText := do
  let abiDefAccount ← selectAbi action.account
  if abiDefAccount ≠ "" then
    tryCatch (do
      let abi ← lift (abiFromJson L abiDefAccount)
      let binaryData ← lift (decode L abi action)
      return L.toJson binaryData)
      fun _ => pure .emptyObject
  else
    return .emptyObject

def addData (L : ChainLib) (action : Action) : SqlM JsonText :=
  if action.data.length = 0 then
    return .emptyObject
  else
    tryCatch (do
      if action.account = .systemAccountName ∧ action.name = .setabi then
        match ← storeAbi L action with
        | some json => return json
        | none => storedData L action
      else
        storedData L action)
      fun _ => pure .emptyObject

/-! ## `parse_actions` -/

/-- `accounts_keys` rows of one permission, a statement for each key. -/
def insertKeys (account : Name) (permission : String) (keys : List String) : SqlM Unit :=
  each (fun key => update (Db.insertKey ⟨account.str, key, permission⟩)) keys

def parseNewaccount (L : ChainLib) (action : Action) : SqlM Unit := do
  let actionData ← lift (L.unpackNewaccount action.data)
  update (Db.upsertAccount actionData.name.str)
  insertKeys actionData.name "owner" actionData.owner.keys
  insertKeys actionData.name "active" actionData.active.keys

def parseVoteproducer (L : ChainLib) (abiData : Variant) : SqlM Unit := do
  let voter ← lift (abiData.get "voter" >>= L.asName)
  let proxy ← lift (abiData.get "proxy" >>= L.asName)
  let producers ← lift (abiData.get "producers")
  guarded (update (Db.upsertVote ⟨voter.str, proxy.str, L.toJson producers⟩))

def parsePropose (L : ChainLib) (abiData : Variant) : SqlM Unit := do
  let proposer ← lift (abiData.get "proposer" >>= L.asName)
  let proposalName ← lift (abiData.get "proposal_name" >>= L.asName)
  let requested ← lift (abiData.get "requested")
  guarded (update (Db.upsertProposal ⟨proposer.str, proposalName.str, (L.toJson requested).text⟩))

def parseCancelExec (L : ChainLib) (abiData : Variant) : SqlM Unit := do
  let proposer ← lift (abiData.get "proposer" >>= L.asName)
  let proposalName ← lift (abiData.get "proposal_name" >>= L.asName)
  guarded (update (Db.deleteProposal proposer.str proposalName.str))

def parseCreate (L : ChainLib) (action : Action) (abiData : Variant) : SqlM Unit := do
  let issuer ← lift (abiData.get "issuer" >>= L.asName)
  let maximumSupply ← lift (abiData.get "maximum_supply" >>= L.asAsset)
  if issuer.str = "" ∨ maximumSupply.amount ≤ 0 then
    return ()
  else
    guarded (update (Db.replaceAsset {
      supply := 0
      maxSupply := maximumSupply.amount.toInt
      symbolPrecision := maximumSupply.precision.toNat
      symbol := maximumSupply.symbolName
      issuer := issuer.str
      contractOwner := action.account.str }))

/-- What `parse_actions` does with the decoded payload. -/
def parseData (L : ChainLib) (action : Action) (abiData : Variant) : SqlM Unit :=
  if action.account = .systemAccountName then
    if action.name = .newaccount then parseNewaccount L action
    else if action.name = .voteproducer then parseVoteproducer L abiData
    else return ()
  else if action.account = .eosioMsig then
    if action.name = .propose then parsePropose L abiData
    else if action.name = .cancel ∨ action.name = .exec then parseCancelExec L abiData
    else return ()
  else if action.name = .create then parseCreate L action abiData
  else return ()

def parseActions (L : ChainLib) (action : Action) : SqlM Unit := do
  let abiDefAccount ← selectAbi action.account
  if abiDefAccount ≠ "" then
    let abi ← lift (abiFromJson L abiDefAccount)
    let abiData ← lift (decode L abi action)
    parseData L action abiData
  else if action.account = .systemAccountName then
    let abiData ← lift (decode L L.eosioContractAbi action)
    parseData L action abiData
  else
    return ()

/-! ## `add` -/

/-- The row `add` inserts. -/
def actionRow (L : ChainLib) (action : Action) (transactionId : String) (blockTime : BlockTimestamp)
    (json : JsonText) (dataJson : SystemContractArg) : ActionRow where
  account := action.account.str
  createdAt := L.secSinceEpoch blockTime
  name := action.name.str
  data := json
  authorization := L.toJson (.array (action.authorization.map PermissionLevel.toVariant))
  transactionId
  eosto := dataJson.to'.str
  eosfrom := dataJson.from'.str
  receiver := dataJson.receiver.str
  payer := dataJson.payer.str
  newaccount := dataJson.name.str
  sellramAccount := dataJson.account.str

/-- `as<system_contract_arg>()` of the payload's JSON. -/
def contractArg (L : ChainLib) (json : JsonText) : Except Exn SystemContractArg :=
  L.fromString json.text >>= SystemContractArg.ofVariant L

/-- What `add` is called with, besides the session and the filter. -/
structure AddArgs where
  action : Action
  transactionId : String
  blockTime : BlockTimestamp

/-- `actions_table::add`. The parameter the source calls `filter_out` is
given the filter of the actions to record. -/
def add (L : ChainLib) (filterOut : List String) (a : AddArgs) : SqlM Bool :=
  if a.action.name.str ∈ filterOut then do
    let json ← addData L a.action
    let dataJson ← lift (contractArg L json)
    guarded (update (Db.insertAction (actionRow L a.action a.transactionId a.blockTime json dataJson)))
    guarded (parseActions L a.action)
    return true
  else
    return false

end ActionsTable

end SqlDb
