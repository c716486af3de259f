import SqlDbPlugin.Api.BrokenProposals
import SqlDbPlugin.Mirror.Multisig

/-!
# Proposals that wait for an account

`get_pending_proposals` finds the proposals by the levels in the mirror, and
shows the approvals on the chain. The mirror has the levels that are
requested and those that are provided, so the result has the proposals that
the account has approved too: each entry waits for the account if no
`approve` has taken its last level, and behind one that does the proposal is
still found (`pending_proposals`).
-/

namespace SqlDb

variable {L : ApiLib} {db : Controller}

/-- The rows of `approvals` are those of the proposals on the chain. -/
def Shows (L : ApiLib) (db : Controller) (c : OnChain) : Prop :=
  ∀ abis, makeResolver L db .eosioMsig = .ok abis → ∀ proposer, ∀ obj ∈ approvalsOf db proposer,
    ∃ row proposalName p, L.binaryToVariant abis (L.getTableType abis .approvals) obj.value = .ok row ∧
      c proposer proposalName = some p ∧ row.get "proposal_name" >>= L.asName = .ok proposalName ∧
      row.get "requested_approvals" = .ok (.array (p.requested.map (·.toVariant))) ∧
      row.get "provided_approvals" = .ok (.array (p.provided.map (·.toVariant)))

/-- The entry shows the levels that are requested on the chain, and the account is an actor of one. -/
def Pending (L : ApiLib) (c : OnChain) (account : Name) (pro : Proposal) : Prop :=
  ∃ p, c pro.proposer pro.proposalName = some p ∧
    pro.requestedApprovals = (L.toJson (.array (p.requested.map (·.toVariant)))).text ∧
    NamesActor account p.requested

/-! ## The search -/

/-- A proposal is found if the account is an actor of a level that is requested or provided. -/
theorem found_iff (hjson : CompactLevels L) (hsame : PlainCollation L) {account : Name} {w : World Exn Db}
    {matched : List ProposalRow} (h : ((ActionsTable.getProposal L account.str).run w).1 = .ok matched)
    {p : Approvals} {row : ProposalRow} (hrow : row ∈ w.db.proposal.contents)
    (hp : Records L.toChainLib p row) : row ∈ matched ↔ NamesActor account (p.requested ++ p.provided) := by
  obtain ⟨levels, hlevels, hjsonLevels⟩ := hp
  rw [mem_getProposal hjson hsame h hrow hjsonLevels]
  exact exists_congr fun level => and_congr_left fun _ => hlevels.mem_iff

/-- The entries found for a row of the mirror are those of its proposal. -/
theorem of_mem_searchedEntries (hasName : ∀ v n, L.asName v = .ok n → L.asString v = .ok n.str)
    {abis : L.Serializer} {proposer proposalName : Name} {pro : Proposal}
    (h : pro ∈ searchedEntries L db abis proposer proposalName) :
    pro.proposer = proposer ∧ pro.proposalName = proposalName ∧
      ∃ obj ∈ approvalsOf db proposer, pro ∈ approvalsEntries L db abis proposer obj := by
  obtain ⟨obj, hobj, hpro⟩ := List.mem_flatMap.mp h
  split at hpro
  · rename_i hnamed
    have hname := (named_iff hasName (name_of_mem_approvalsEntries hpro)).mp hnamed
    obtain ⟨row, pro₀, transaction, status, -, hrecorded, rfl⟩ := of_mem_approvalsEntries hpro
    exact ⟨(of_recorded hrecorded).1, hname, obj, Captured.mem_of_mem_walked hobj, hpro⟩
  · cases hpro

/-- What an entry shows is requested on the chain. -/
theorem Shows.requested {c : OnChain} (hshows : Shows L db c) {abis : L.Serializer}
    (habis : makeResolver L db .eosioMsig = .ok abis) {proposer : Name} {obj : KeyValueObject}
    (hobj : obj ∈ approvalsOf db proposer) {pro : Proposal}
    (hpro : pro ∈ approvalsEntries L db abis proposer obj) :
    ∃ p, c pro.proposer pro.proposalName = some p ∧
      pro.requestedApprovals = (L.toJson (.array (p.requested.map (·.toVariant)))).text := by
  obtain ⟨row, proposalName, p, hrow, hp, hname, hrequested, -⟩ := hshows abis habis proposer obj hobj
  obtain ⟨row', pro₀, transaction, status, hrow', hrecorded, rfl⟩ := of_mem_approvalsEntries hpro
  cases hrow.symm.trans hrow'
  obtain ⟨hproposer, hname', requested, hrequested', hshown⟩ := of_recorded hrecorded
  cases hname.symm.trans hname'
  cases hrequested.symm.trans hrequested'
  refine ⟨p, ?_, hshown⟩
  show c pro₀.proposer pro₀.proposalName = some p
  rw [hproposer]
  exact hp

/-! ## Histories -/

/-- The row with the texts of the names is searched for under the names. -/
theorem stringToName_key (hname : ∀ n : Name, L.stringToName n.str = n) {row : ProposalRow}
    {proposer proposalName : Name} (h : row.key = (proposer.str, proposalName.str)) :
    L.stringToName row.proposer = proposer ∧ L.stringToName row.proposalName = proposalName := by
  obtain ⟨hproposer, hproposalName⟩ := Prod.mk.inj h
  rw [hproposer, hproposalName]
  exact ⟨hname proposer, hname proposalName⟩

section Histories

variable (hasName : ∀ v n, L.asName v = .ok n → L.asString v = .ok n.str)
  (hname : ∀ n : Name, L.stringToName n.str = n) (hjson : CompactLevels L) (hsame : PlainCollation L)
  {account : Name} {s : MsigState} {uninit : ProposalRow → UInt8} {faults : List (Option Exn)}
  {all : List Proposal}

include hasName

/-- An entry of a proposal that requests no level of the account does not wait for it. -/
theorem not_pending {c : OnChain} {abis : L.Serializer} {proposer proposalName : Name} {p : Approvals}
    (hp : c proposer proposalName = some p) (hnone : ¬ NamesActor account p.requested) {pro : Proposal}
    (hpro : pro ∈ searchedEntries L db abis proposer proposalName) : ¬ Pending L c account pro := by
  obtain ⟨rfl, rfl, -⟩ := of_mem_searchedEntries hasName hpro
  rintro ⟨q, hq, -, hrequested⟩
  cases hp.symm.trans hq
  exact hnone hrequested

include hname hjson hsame

/-- The entries wait for an account that has provided no level without another one being requested. -/
theorem pending_of_waiting (hs : Mirrored L.toChainLib s) (hwaiting : Waiting account s.onChain)
    (hshows : Shows L db s.onChain)
    (hall : ((getPendingProposals L db uninit account).run ⟨s.db, faults⟩).1 = .ok all) :
    ∀ pro ∈ all, Pending L s.onChain account pro := by
  intro pro hpro
  obtain ⟨matched, hmatched⟩ : ∃ matched,
    ((ActionsTable.getProposal L account.str).run ⟨s.db, []⟩).1 = .ok matched := ⟨_, rfl⟩
  obtain ⟨abis, habis, rfl⟩ := getPendingProposals_ok hasName hmatched hall
  obtain ⟨row, hfound, hpro⟩ := List.mem_flatMap.mp hpro
  have hrow : row ∈ s.db.proposal.contents := by
    rw [getProposal_ok hmatched] at hfound
    exact List.mem_of_mem_filter hfound
  obtain ⟨proposer, proposalName, p, hkey, hp, hrec⟩ := hs.proposal hrow
  obtain ⟨hproposer, hproposalName⟩ := stringToName_key hname hkey
  rw [hproposer, hproposalName] at hpro
  obtain ⟨rfl, rfl, obj, hobj, hpro⟩ := of_mem_searchedEntries hasName hpro
  obtain ⟨p', hp', hshown⟩ := hshows.requested habis hobj hpro
  cases hp.symm.trans hp'
  refine ⟨p, hp, hshown, ?_⟩
  obtain ⟨level, hlevel, hactor⟩ := (found_iff hjson hsame hmatched hrow hrec).mp hfound
  rcases List.mem_append.mp hlevel with hlevel | hlevel
  · exact ⟨level, hlevel, hactor⟩
  · exact hwaiting _ _ p hp ⟨level, hlevel, hactor⟩

/-- The entries of a proposal are returned for an account that has provided a level of it. -/
theorem returned_of_provided (hs : Mirrored L.toChainLib s) {proposer proposalName : Name} {p : Approvals}
    (hp : s.onChain proposer proposalName = some p) (hprovided : NamesActor account p.provided)
    {abis : L.Serializer} (habis : makeResolver L db .eosioMsig = .ok abis)
    (hall : ((getPendingProposals L db uninit account).run ⟨s.db, faults⟩).1 = .ok all) :
    ∀ pro ∈ searchedEntries L db abis proposer proposalName, pro ∈ all := by
  intro pro hpro
  obtain ⟨row, hrow, hkey, hrec⟩ := hs.row hp
  obtain ⟨matched, hmatched⟩ : ∃ matched,
    ((ActionsTable.getProposal L account.str).run ⟨s.db, []⟩).1 = .ok matched := ⟨_, rfl⟩
  obtain ⟨abis', habis', rfl⟩ := getPendingProposals_ok hasName hmatched hall
  cases habis.symm.trans habis'
  obtain ⟨hproposer, hproposalName⟩ := stringToName_key hname hkey
  obtain ⟨level, hlevel, hactor⟩ := hprovided
  have hfound : row ∈ matched := (found_iff hjson hsame hmatched hrow hrec).mpr
    ⟨level, List.mem_append_right _ hlevel, hactor⟩
  rw [← hproposer, ← hproposalName] at hpro
  exact List.mem_flatMap.mpr ⟨row, hfound, hpro⟩

end Histories

/-- In every history in which no `approve` takes the last level of an
account, the entries returned wait for the account; behind one that does,
those of its proposal are still returned. -/
theorem pending_proposals (L : ApiLib) (hasName : ∀ v n, L.asName v = .ok n → L.asString v = .ok n.str)
    (hname : ∀ n : Name, L.stringToName n.str = n) (hjson : CompactLevels L) (hsame : PlainCollation L)
    (account : Name) :
    (∀ s, MsigHistory L.toChainLib (LeavesLevel account) s → ∀ db, Shows L db s.onChain →
      ∀ (uninit : ProposalRow → UInt8) (faults : List (Option Exn)) (all : List Proposal),
        ((getPendingProposals L db uninit account).run ⟨s.db, faults⟩).1 = .ok all →
        ∀ pro ∈ all, Pending L s.onChain account pro) ∧
    (∀ s a e c, MsigHistory L.toChainLib (fun _ _ => True) s → a.execute s.onChain = some c →
      e.db.proposal = s.db.proposal → a.Encoded L.toChainLib e → ¬ LeavesLevel account a s.onChain →
      ∀ db abis, makeResolver L db .eosioMsig = .ok abis →
      ∀ (uninit : ProposalRow → UInt8) (faults : List (Option Exn)) (all : List Proposal),
        ((getPendingProposals L db uninit account).run ⟨e.parsed L.toChainLib, faults⟩).1 = .ok all →
        ∀ pro ∈ searchedEntries L db abis a.proposer a.proposalName,
          pro ∈ all ∧ ¬ Pending L c account pro) := by
  constructor
  · intro s hs db hshows uninit faults all hall
    exact pending_of_waiting hasName hname hjson hsame (mirrored_of_history hs) (waiting_of_history hs) hshows hall
  · intro s a e c hs hc hdb he hleaves db abis habis uninit faults all hall pro hpro
    have hmirrored : Mirrored L.toChainLib ⟨c, e.parsed L.toChainLib⟩ :=
      mirrored_of_history (.step hs trivial hc hdb he)
    obtain ⟨p, hp, hnone, hprovided⟩ := provided_of_not_leavesLevel hleaves hc
    constructor
    · exact returned_of_provided hasName hname hjson hsame hmirrored hp hprovided habis hall pro hpro
    · exact not_pending hasName hp hnone hpro

/-! ## A proposal that its proposer approves -/

/-- The types in the abi of `eosio.msig`, with their fields. -/
def msigStructs : List (String × List (String × String)) :=
  [("permission_level", [("actor", "name"), ("permission", "name")]),
    ("propose", [("proposer", "name"), ("proposal_name", "name"), ("requested", "permission_level[]")]),
    ("approve", [("proposer", "name"), ("proposal_name", "name"), ("level", "permission_level")]),
    ("proposal", [("proposal_name", "name"), ("packed_transaction", "bytes")]),
    ("approvals_info", [("proposal_name", "name"), ("requested_approvals", "permission_level[]"),
      ("provided_approvals", "permission_level[]")])]

def structVariant (type : String × List (String × String)) : Variant :=
  .object [("name", .string type.1), ("base", .string ""),
    ("fields", .array (type.2.map fun (name, type) => fieldVariant name type))]

def structJson (type : String × List (String × String)) : String :=
  "\x7b\"name\":\"" ++ type.1 ++ "\",\"base\":\"\",\"fields\":" ++
    (arrayJson (type.2.map fun (name, type) => fieldVariant name type)).text ++ "\x7d"

def packedStruct (type : String × List (String × String)) : Bytes :=
  packedString type.1 ++ packedString "" ++
    .ofNat type.2.length :: type.2.flatMap fun (name, type) => packedString name ++ packedString type

/-- The abi, of which the action types and the tables have the names of their types. -/
def msigAbi : Variant :=
  .object [("version", .string "eosio::abi/1.0"), ("structs", .array (msigStructs.map structVariant)),
    ("actions", .array (["propose", "approve"].map fun type =>
      .object [("name", .string type), ("type", .string type)])),
    ("tables", .array ([("proposal", "proposal"), ("approvals", "approvals_info")].map fun (name, type) =>
      .object [("name", .string name), ("index_type", .string "i64"), ("type", .string type)]))]

def msigJson : JsonText :=
  ⟨"\x7b\"version\":\"eosio::abi/1.0\",\"structs\":[" ++ ",".intercalate (msigStructs.map structJson) ++
      "],\"actions\":[\x7b\"name\":\"propose\",\"type\":\"propose\"\x7d,\x7b\"name\":\"approve\",\"type\":\"approve\"\x7d],\"tables\":[\x7b\"name\":\"proposal\",\"index_type\":\"i64\",\"type\":\"proposal\"\x7d,\x7b\"name\":\"approvals\",\"index_type\":\"i64\",\"type\":\"approvals_info\"\x7d]\x7d",
    by simp⟩

/-- It, packed. -/
def packedMsigAbi : Bytes :=
  packedString "eosio::abi/1.0" ++ [0, 5] ++ msigStructs.flatMap packedStruct ++
    [2, 0, 0, 0, 0x40, 0x61, 0x5a, 0xe9, 0xad] ++ packedString "propose" ++ packedString "" ++
    [0, 0, 0, 0x40, 0x6d, 0x7a, 0x6b, 0x35] ++ packedString "approve" ++ packedString "" ++
    [2, 0, 0, 0, 0xd1, 0x60, 0x5a, 0xe9, 0xad] ++ packedString "i64" ++ [0, 0] ++ packedString "proposal" ++
    [0, 0, 0xc0, 0xd1, 0x6c, 0x7a, 0x6b, 0x35] ++ packedString "i64" ++ [0, 0] ++
    packedString "approvals_info" ++ [0, 0, 0]

def packedAliceActive : Bytes := packedAlice ++ [0, 0, 0, 0, 0xa8, 0xed, 0x32, 0x32]

/-- `propose` of the empty transaction as `pay`, which `aliceActive` is requested to approve. -/
def packedPropose : Bytes := packedAlice ++ packedPay ++ 1 :: packedAliceActive ++ List.replicate 16 0

def packedApprove : Bytes := packedAlice ++ packedPay ++ packedAliceActive

/-- The approvals of `pay` when `aliceActive` has given hers. -/
def packedApproved : Bytes := packedPay ++ 0 :: 1 :: packedAliceActive

def proposeVariant : Variant :=
  .object [("proposer", .string "alice"), ("proposal_name", .string "pay"),
    ("requested", .array [aliceActive.toVariant])]

def approveVariant : Variant :=
  .object [("proposer", .string "alice"), ("proposal_name", .string "pay"), ("level", aliceActive.toVariant)]

/-- The library of the examples on the actions of `eosio.msig`. -/
def ApiLib.msig : ApiLib :=
  { ApiLib.pending with
    fromString := fun text => if text = msigJson.text then .ok msigAbi else .error .fc
    asAbiDef := fun
      | .object [_, _, ("actions", .array [_, _]), _] => .ok .msig
      | _ => .error .fc
    getActionType := fun _ name => if name = .propose ∨ name = .approve then name.str else ""
    toAbi := fun data =>
      if data.length ≤ 4 then .ok none
      else if data = packedMsigAbi then .ok (some .msig)
      else .error .fc
    binaryToVariant := fun abis type data =>
      if type = "propose" ∧ data = packedPropose then .ok proposeVariant
      else if type = "approve" ∧ data = packedApprove then .ok approveVariant
      else if type = "approvals_info" ∧ data = packedApproved then .ok (approvalsVariant pay [] [aliceActive])
      else ApiLib.pending.binaryToVariant abis type data }

/-- `alice` has proposed `pay`, with a row of approvals. -/
def Controller.payRow (approvals : Bytes) : Controller :=
  { Controller.sample with
    accounts := [⟨.eosioMsig, packedMsigAbi⟩]
    keyValues := [⟨2, 12230650688031424512, packedPay ++ 16 :: List.replicate 16 0⟩,
      ⟨3, 12230650688031424512, approvals⟩]
    uniqueAccounts := by decide
    sorted := by simp [KeyValueObject.before] }

/-- The chain with the proposal `pay` of `alice`. -/
def payOnChain (p : Approvals) : OnChain := fun proposer proposalName =>
  if proposer = alice ∧ proposalName = pay then some p else none

def proposePay : MsigAction := ⟨alice, pay, .propose [aliceActive]⟩

def approvePay : MsigAction := ⟨alice, pay, .approve aliceActive⟩

def proposeEntry : Entry where
  db := ({} : Db).upsertAbi "eosio.msig" msigJson
  action := ⟨.eosioMsig, .propose, [aliceActive], packedPropose⟩

/-- The mirror of `pay`. -/
def payMirror : Db := proposeEntry.db.upsertProposal ⟨"alice", "pay", payShown.requestedApprovals⟩

def approveEntry : Entry where
  db := payMirror
  action := ⟨.eosioMsig, .approve, [aliceActive], packedApprove⟩

def proposed : MsigState := ⟨payOnChain ⟨[aliceActive], []⟩, payMirror⟩

def approved : MsigState := ⟨payOnChain ⟨[], [aliceActive]⟩, payMirror⟩

/-- What is still returned for `alice`. -/
def approvedShown : Proposal :=
  { payShown with requestedApprovals := "[]", providedApprovals := payShown.requestedApprovals }

theorem toAbi_msigAbi {data : Bytes} (hshort : ¬ data.length ≤ 4) (h : data = packedMsigAbi) :
    ApiLib.msig.toAbi data = .ok (some ApiAbi.msig) :=
  (if_neg hshort).trans (if_pos h)

theorem makeResolver_msig (approvals : Bytes) :
    makeResolver .msig (.payRow approvals) .eosioMsig = .ok ApiAbi.msig :=
  makeResolver_eq ⟨.eosioMsig, packedMsigAbi⟩ rfl (toAbi_msigAbi (by decide +kernel) rfl)

theorem fromString_msigJson {text : String} (h : text = msigJson.text) :
    ApiLib.msig.fromString text = .ok msigAbi :=
  if_pos h

theorem abiFromJson_msig :
    ActionsTable.abiFromJson ApiLib.msig.toChainLib msigJson.text = .ok ApiAbi.msig := by
  rw [ActionsTable.abiFromJson, fromString_msigJson rfl]
  rfl

theorem binaryToVariant_propose {type : String} {data : Bytes} (htype : type = "propose")
    (hdata : data = packedPropose) : ApiLib.msig.binaryToVariant ApiAbi.msig type data = .ok proposeVariant :=
  if_pos ⟨htype, hdata⟩

theorem binaryToVariant_approve {type : String} {data : Bytes} (htype : type = "approve")
    (hdata : data = packedApprove) : ApiLib.msig.binaryToVariant ApiAbi.msig type data = .ok approveVariant := by
  have hpropose : type ≠ "propose" := by rw [htype]; decide
  exact (if_neg fun h => hpropose h.1).trans (if_pos ⟨htype, hdata⟩)

/-- By the stored abi, an action is decoded as the type of its name. -/
theorem data_msig {e : Entry} (habi : e.db.abiOf e.action.account.str = some msigJson)
    (hname : e.action.name = .propose ∨ e.action.name = .approve) {v : Variant}
    (hv : ApiLib.msig.binaryToVariant ApiAbi.msig e.action.name.str e.action.data = .ok v) :
    e.data ApiLib.msig.toChainLib = some v := by
  have htype : ApiLib.msig.getActionType ApiAbi.msig e.action.name = e.action.name.str := if_pos hname
  rw [Entry.data, habi]
  refine ActionsTable.interpreted_eq abiFromJson_msig ?_
  show ApiLib.msig.binaryToVariant ApiAbi.msig (ApiLib.msig.getActionType ApiAbi.msig e.action.name) _ = _
  rw [htype, hv]

theorem data_proposeEntry : proposeEntry.data ApiLib.msig.toChainLib = some proposeVariant :=
  data_msig rfl (.inl rfl) (binaryToVariant_propose rfl rfl)

theorem data_approveEntry : approveEntry.data ApiLib.msig.toChainLib = some approveVariant :=
  data_msig rfl (.inr rfl) (binaryToVariant_approve rfl rfl)

theorem proposePay_encoded : proposePay.Encoded ApiLib.msig.toChainLib proposeEntry where
  account := rfl
  name := rfl
  data := by
    refine ⟨proposeVariant, data_proposeEntry, rfl, rfl, ?_⟩
    rintro requested h
    cases h
    rfl

theorem approvePay_encoded : approvePay.Encoded ApiLib.msig.toChainLib approveEntry where
  account := rfl
  name := rfl
  data := by
    refine ⟨approveVariant, data_approveEntry, rfl, rfl, ?_⟩
    rintro requested h
    cases h

theorem parsed_proposeEntry : proposeEntry.parsed ApiLib.msig.toChainLib = payMirror := by
  rw [Entry.parsed_of_data data_proposeEntry]
  rfl

theorem parsed_approveEntry : approveEntry.parsed ApiLib.msig.toChainLib = payMirror := by
  rw [Entry.parsed_of_data data_approveEntry]
  rfl

theorem history_proposed {ok : MsigAction → OnChain → Prop} (h : ok proposePay fun _ _ => none) :
    MsigHistory ApiLib.msig.toChainLib ok proposed := by
  have hstep : MsigHistory ApiLib.msig.toChainLib ok
      ⟨proposed.onChain, proposeEntry.parsed ApiLib.msig.toChainLib⟩ :=
    .step (.start (d := proposeEntry.db) rfl) h rfl rfl proposePay_encoded
  rw [parsed_proposeEntry] at hstep
  exact hstep

theorem execute_approvePay : approvePay.execute proposed.onChain = some approved.onChain := by
  refine congrArg some (funext fun proposer => funext fun proposalName => ?_)
  by_cases h : proposer = alice ∧ proposalName = pay
  · exact (if_pos h).trans (if_pos h).symm
  · exact (if_neg h).trans ((if_neg h).trans (if_neg h).symm)

theorem shows_payRow {approvals : Bytes} {p : Approvals}
    (h : ApiLib.msig.binaryToVariant ApiAbi.msig "approvals_info" approvals =
      .ok (approvalsVariant pay p.requested p.provided)) :
    Shows .msig (.payRow approvals) (payOnChain p) := by
  intro abis habis proposer obj hobj
  cases (makeResolver_msig approvals).symm.trans habis
  have hscope : ∀ t ∈ (Controller.payRow approvals).tableIds, t.scope = alice := by
    show ∀ t ∈ Controller.sample.tableIds, t.scope = alice
    decide
  by_cases hproposer : proposer = alice
  · subst hproposer
    obtain rfl := List.mem_singleton.mp hobj
    exact ⟨_, pay, p, h, if_pos ⟨rfl, rfl⟩, rfl, rfl, rfl⟩
  · have hnone : (Controller.payRow approvals).findTable .eosioMsig proposer .approvals = none :=
      List.find?_eq_none.mpr fun t ht heq =>
        hproposer ((of_decide_eq_true heq).2.1.symm.trans (hscope t ht))
    rw [approvalsOf, Controller.rows, hnone] at hobj
    cases hobj

theorem history_approved : MsigHistory ApiLib.msig.toChainLib (fun _ _ => True) approved := by
  have hstep : MsigHistory ApiLib.msig.toChainLib (fun _ _ => True)
      ⟨approved.onChain, approveEntry.parsed ApiLib.msig.toChainLib⟩ :=
    .step (history_proposed trivial) trivial execute_approvePay rfl approvePay_encoded
  rw [parsed_approveEntry] at hstep
  exact hstep

theorem getPendingProposals_approved :
    ((getPendingProposals .msig (.payRow packedApproved) (fun _ => 7) alice).run ⟨payMirror, []⟩).1 =
      .ok [approvedShown] := by
  rw [run_getPendingProposals rfl, searchProposals, makeResolver_msig]
  decide +kernel

/-- `alice` has approved `pay`, and it is still returned for her. -/
theorem approved_still_pending :
    MsigHistory ApiLib.msig.toChainLib (fun _ _ => True) approved ∧
    Shows .msig (.payRow packedApproved) approved.onChain ∧
    ((getPendingProposals .msig (.payRow packedApproved) (fun _ => 7) alice).run ⟨approved.db, []⟩).1 =
      .ok [approvedShown] ∧
    approved.onChain alice pay = some ⟨[], [aliceActive]⟩ ∧
    ¬ Pending .msig approved.onChain alice approvedShown := by
  refine ⟨history_approved, shows_payRow rfl, getPendingProposals_approved, rfl, ?_⟩
  rintro ⟨p, hp, -, level, hlevel, -⟩
  cases hp
  cases hlevel

/-- Before, it waits for her, and behind her `approve` it is returned but does not. -/
theorem pending_proposals_pay :
    Pending .msig proposed.onChain alice payShown ∧
    approvedShown ∈ [approvedShown] ∧ ¬ Pending .msig approved.onChain alice approvedShown := by
  have hpending := pending_proposals .msig ApiLib.sample_asString (fun n => dif_pos n.isText) ApiLib.levels_compact
    ApiLib.levels_plain alice
  constructor
  · have hall : ((getPendingProposals .msig (.payRow packedApprovals) (fun _ => 7) alice).run
        ⟨payMirror, []⟩).1 = .ok [payShown] := by
      rw [run_getPendingProposals rfl, searchProposals, makeResolver_msig]
      decide +kernel
    have hleaves : LeavesLevel alice proposePay fun _ _ => none := by
      rintro level p h
      cases h
    exact hpending.1 proposed (history_proposed hleaves) (.payRow packedApprovals) (shows_payRow rfl) (fun _ => 7)
      [] [payShown] hall payShown (List.mem_singleton_self _)
  · have hentry : approvedShown ∈ searchedEntries .msig (.payRow packedApproved) ApiAbi.msig alice pay := by
      decide +kernel
    have hleaves : ¬ LeavesLevel alice approvePay proposed.onChain := by
      intro h
      obtain ⟨level, hlevel, -⟩ := h aliceActive _ rfl rfl rfl
      cases hlevel
    have hall := getPendingProposals_approved
    rw [← parsed_approveEntry] at hall
    exact hpending.2 proposed approvePay approveEntry approved.onChain (history_proposed trivial)
      execute_approvePay rfl approvePay_encoded hleaves (.payRow packedApproved) ApiAbi.msig
      (makeResolver_msig packedApproved) (fun _ => 7) [] [approvedShown] hall approvedShown hentry

end SqlDb
