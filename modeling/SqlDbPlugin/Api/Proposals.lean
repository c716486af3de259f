import SqlDbPlugin.Api.Controller
import SqlDbPlugin.Database.SqlDatabase

/-!
# The multisig endpoints

`get_pending_proposals`, `get_pending_proposal` and `get_my_proposals` of the
read-only api, and the query of `proposal` they use. Each walks the
`approvals` table of a proposer, and for its rows the `proposal` table. The
record `pro` is declared once in two of them, and for each row of the
database in the third; its status is not initialised (`uninit`).
-/

namespace SqlDb

open Captured (lift assign read declare each)
open SqlDatabase (getSession)

/-! ## The query -/

namespace ActionsTable

/-- `LIKE`: `%` is any text, `_` any character, and `\` takes the next character literally. -/
def like (same : Char → Char → Bool) : List Char → List Char → Bool
  | [], text => text.isEmpty
  | '%' :: pattern, text => text.tails.any (like same pattern)
  | '_' :: pattern, text =>
    match text with
    | [] => false
    | _ :: text => like same pattern text
  | '\\' :: c :: pattern, text =>
    match text with
    | [] => false
    | c' :: text => same c c' && like same pattern text
  | c :: pattern, text =>
    match text with
    | [] => false
    | c' :: text => same c c' && like same pattern text

/-- `select ... from proposal where requested_approvals like ... order by id` -/
def getProposal (L : ApiLib) (account : String) : SqlM (List ProposalRow) :=
  let acc := "\"actor\":\"" ++ account ++ "\""
  Sql.query fun d => d.proposal.contents.filter fun r =>
    like L.sameChar ("%" ++ acc ++ "%").toList r.requestedApprovals.toList

end ActionsTable

/-! ## The callbacks -/

structure Proposal where
  proposer : Name
  proposalName : Name
  transaction : String
  requestedApprovals : String
  providedApprovals : String
  status : UInt8
  deriving DecidableEq

/-- `proposal pro;`, whose status holds anything. -/
def Proposal.uninit (status : UInt8) : Proposal := ⟨.empty, .empty, "", "", "", status⟩

/-- What the callbacks do, to `pro` and the proposals of the result. -/
abbrev ProposalM := Captured Exn (Proposal × List Proposal)

variable (L : ApiLib) (db : Controller) (abis : L.Serializer)

def setPro (f : Proposal → Proposal) : ProposalM Unit := assign fun (pro, proposals) => (f pro, proposals)

/-- The assignments to `pro` from a row of `approvals`. -/
def setApprovals (proposer : Name) (row : Variant) : ProposalM Unit := do
  let proposer ← lift (Name.ofString proposer.str)
  setPro ({ · with proposer })
  let proposalName ← lift (row.get "proposal_name" >>= L.asName)
  setPro ({ · with proposalName, transaction := "" })
  let requested ← lift (row.get "requested_approvals")
  setPro ({ · with requestedApprovals := (L.toJson requested).text })
  let provided ← lift (row.get "provided_approvals")
  setPro ({ · with providedApprovals := (L.toJson provided).text })

/-- Whether the levels provided authorize the transaction; only an `authorization_exception` is caught. -/
def setStatus (row : Variant) (trx : ProposedTransaction) : ProposalM Unit := do
  setPro ({ · with status := 0 })
  let provided ← lift (row.get "provided_approvals" >>= L.asPermissionLevels)
  match db.checkAuthorization trx.actions provided trx.delaySec with
  | .ok () => setPro ({ · with status := 1 })
  | .error .authorization => return ()
  | .error (.exn e) => throw e

/-- The callback for the rows of `proposal`, with the comparison of the name
that differs between the endpoints. -/
def proposalRow (row : Variant) (same : String → ProposalM Bool) (obj : KeyValueObject) :
    ProposalM Bool := do
  let row2 ← lift (L.binaryToVariant abis (L.getTableType abis .proposal) obj.value)
  let proposalName ← lift (row2.get "proposal_name" >>= L.asString)
  if ← same proposalName then
    let trxHex ← lift (row2.get "packed_transaction" >>= L.asString)
    let trxBlob ← lift (L.fromHex trxHex)
    let trx ← lift (L.unpackProposed trxBlob)
    let prettyOutput ← lift (L.toVariant (makeResolver L db) trx)
    setPro ({ · with transaction := (L.toJson prettyOutput).text })
    setStatus L db row trx
    assign fun (pro, proposals) => (pro, proposals ++ [pro])
    return false
  else
    return true

/-- `row2["proposal_name"].as<string>() == proposal_name.to_string()` -/
def sameText (proposalName : Name) (text : String) : ProposalM Bool := pure (text = proposalName.str)

/-- `row2["proposal_name"].as<string>() == pro.proposal_name`, which compares names. -/
def sameName (text : String) : ProposalM Bool := do
  let name ← lift (Name.ofString text)
  let proposalName ← read (·.1.proposalName)
  return name = proposalName

/-! ## The endpoints -/

/-- The callback of `get_pending_proposals` for the rows of `approvals`. -/
def pendingProposalsRow (proposer proposalName : Name) (obj : KeyValueObject) : ProposalM Bool := do
  let row ← lift (L.binaryToVariant abis (L.getTableType abis .approvals) obj.value)
  let text ← lift (row.get "proposal_name" >>= L.asString)
  if text = proposalName.str then
    setApprovals L proposer row
    walkKeyValueTable db .eosioMsig proposer .proposal
      (proposalRow L db abis row (sameText proposalName)) (return ())
    return false
  else
    return true

def getPendingProposals (uninit : ProposalRow → UInt8) (account : Name) : SqlM (List Proposal) := do
  getSession
  let proposals ← ActionsTable.getProposal L account.str
  Sql.lift do
    let abi ← getAbi L db .eosioMsig
    let abis ← L.setAbi abi
    (each (fun it => declare (Proposal.uninit (uninit it)) <|
        walkKeyValueTable db .eosioMsig (L.stringToName it.proposer) .approvals
          (pendingProposalsRow L db abis (L.stringToName it.proposer) (L.stringToName it.proposalName))
          (return ())) proposals).result []

/-- The callback of `get_pending_proposal`. -/
def pendingProposalRow (proposer proposalName : Name) (obj : KeyValueObject) : ProposalM Bool := do
  let row ← lift (L.binaryToVariant abis (L.getTableType abis .approvals) obj.value)
  let name ← lift (row.get "proposal_name" >>= L.asName)
  if proposalName ≠ name then
    return true
  else
    setApprovals L proposer row
    walkKeyValueTable db .eosioMsig proposer .proposal (proposalRow L db abis row sameName) (return ())
    return true

def getPendingProposal (uninit : UInt8) (proposer proposalName : Name) : Except Exn (List Proposal) := do
  let abi ← getAbi L db .eosioMsig
  let abis ← L.setAbi abi
  (declare (Proposal.uninit uninit) <|
    walkKeyValueTable db .eosioMsig proposer .approvals
      (pendingProposalRow L db abis proposer proposalName) (return ())).result []

/-- The callback of `get_my_proposals`. -/
def myProposalsRow (proposer : Name) (obj : KeyValueObject) : ProposalM Bool := do
  let row ← lift (L.binaryToVariant abis (L.getTableType abis .approvals) obj.value)
  setApprovals L proposer row
  walkKeyValueTable db .eosioMsig proposer .proposal (proposalRow L db abis row sameName) (return ())
  return true

def getMyProposals (uninit : UInt8) (account : Name) : Except Exn (List Proposal) := do
  let abi ← getAbi L db .eosioMsig
  let abis ← L.setAbi abi
  (declare (Proposal.uninit uninit) <|
    walkKeyValueTable db .eosioMsig account .approvals (myProposalsRow L db abis account)
      (return ())).result []

end SqlDb
