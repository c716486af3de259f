import SqlDbPlugin.Database.Effects
import SqlDbPlugin.Lib.LastWrite

/-!
# The tables derived from the actions

`votes`, `proposal` and `assets` as functions of the history of the actions
that `parse_actions` has processed: each is, at each of its keys, the last
change the history has for that key (`derived_tables`). What an action
changes is said by `voteChange`, `proposalChange` and `assetChange` alone.
An entry of the history is an action and the database in which it was
processed, whose `accounts` say how its payload decodes; between two
actions the other tables may change in any way (`History`).
-/

namespace SqlDb

open Sql (guarded)
open ActionsTable (interpreted voteOf proposalOf proposalKeyOf assetOf dataWrite writeOf afterParse Write
  parseActions)

variable {L : ChainLib}

/-- An action, and the database in which it is processed. -/
structure Entry where
  db : Db
  action : Action

/-- The payload of the action, decoded, or nothing if it does not decode. -/
def Entry.data (L : ChainLib) (e : Entry) : Option Variant :=
  interpreted L (e.db.abiOf e.action.account.str) e.action

/-- A decodable `eosio::voteproducer` sets its voter's row. -/
def voteChange (L : ChainLib) (e : Entry) : Option (String × Option VoteRow) :=
  if e.action.account = .systemAccountName ∧ e.action.name = .voteproducer then
    ((e.data L).bind fun v => (voteOf L v).toOption).map fun row => (row.voter, some row)
  else none

/-- Of `eosio.msig`, a `propose` sets the row of its proposer and name, and
a `cancel` or `exec` removes it. -/
def proposalChange (L : ChainLib) (e : Entry) : Option ((String × String) × Option ProposalRow) :=
  if e.action.account = .eosioMsig ∧ e.action.name = .propose then
    ((e.data L).bind fun v => (proposalOf L v).toOption).map fun row => (row.key, some row)
  else if e.action.account = .eosioMsig ∧ (e.action.name = .cancel ∨ e.action.name = .exec) then
    ((e.data L).bind fun v => (proposalKeyOf L v).toOption).map fun k => (k, none)
  else none

/-- A `create` of another account, with an issuer and a positive maximum
supply, sets the row of its symbol and contract. -/
def assetChange (L : ChainLib) (e : Entry) : Option ((String × String) × Option AssetRow) :=
  if e.action.account ≠ .systemAccountName ∧ e.action.account ≠ .eosioMsig ∧ e.action.name = .create then
    ((e.data L).bind fun v => (assetOf L e.action v).toOption.bind id).map fun row => (row.key, some row)
  else none

/-- The database when `parse_actions` has processed the entry and every
statement has succeeded; `add` logs what it throws. -/
def Entry.parsed (L : ChainLib) (e : Entry) : Db := ((guarded (parseActions L e.action)).run ⟨e.db, []⟩).2.db

/-- The databases that processing the actions of a history from empty tables
leads to; between two actions the three tables stay as they are. -/
inductive History (L : ChainLib) : List Entry → Db → Prop
  | start {d : Db} : d.votes.contents = [] → d.proposal.contents = [] → d.assets.contents = [] →
      History L [] d
  | parse {h : List Entry} {d : Db} {e : Entry} : History L h d → e.db.votes = d.votes →
      e.db.proposal = d.proposal → e.db.assets = d.assets → History L (h ++ [e]) (e.parsed L)

/-- The history of the actions `as`, processed one after the other from a database on. -/
def entries (L : ChainLib) : Db → List Action → List Entry
  | _, [] => []
  | d, a :: as => ⟨d, a⟩ :: entries L (Entry.parsed L ⟨d, a⟩) as

/-- The database behind them. -/
def processed (L : ChainLib) (d : Db) (as : List Action) : Db := as.foldl (fun d a => Entry.parsed L ⟨d, a⟩) d

theorem History.append {h : List Entry} {d : Db} (hd : History L h d) (as : List Action) :
    History L (h ++ entries L d as) (processed L d as) := by
  induction as generalizing h d with
  | nil => rw [entries, List.append_nil]; exact hd
  | cons a as ih =>
    have hstep : History L (h ++ [⟨d, a⟩]) (Entry.parsed L ⟨d, a⟩) := .parse hd rfl rfl rfl
    rw [entries, List.append_cons]
    exact ih hstep

/-! ## One action -/

namespace ActionsTable.Write

/-- What a write changes in `votes`. -/
def vote? : Write → Option (String × Option VoteRow)
  | vote row => some (row.voter, some row)
  | _ => none

/-- What a write changes in `proposal`. -/
def proposal? : Write → Option ((String × String) × Option ProposalRow)
  | propose row => some (row.key, some row)
  | unpropose proposer proposalName => some ((proposer, proposalName), none)
  | _ => none

/-- What a write changes in `assets`. -/
def asset? : Write → Option ((String × String) × Option AssetRow)
  | asset row => some (row.key, some row)
  | _ => none

end ActionsTable.Write

open ActionsTable.Write (vote? proposal? asset?)

/-- What `parse_actions` writes for an entry. -/
def Entry.write (L : ChainLib) (e : Entry) : Option Write :=
  writeOf L (e.db.abiOf e.action.account.str) e.action

theorem Entry.parsed_eq (e : Entry) : e.parsed L = (e.write L).elim e.db fun w => w.apply e.db := by
  rw [parsed, Sql.run_guarded, ActionsTable.run_parseActions]
  rfl

/-- An entry whose payload decodes writes what its payload says. -/
theorem Entry.parsed_of_data {e : Entry} {v : Variant} (h : e.data L = some v) :
    e.parsed L = (dataWrite L e.action v).elim e.db fun w => w.apply e.db := by
  rw [data] at h
  rw [parsed_eq, write, writeOf, h, Option.bind_some]

theorem voteChange_eq (e : Entry) : voteChange L e = (e.write L).bind vote? := by
  rw [voteChange, Entry.write, writeOf, Entry.data]
  rcases interpreted L (e.db.abiOf e.action.account.str) e.action with _ | v
  · simp
  · rw [Option.bind_some, Option.bind_some, dataWrite]
    by_cases ha : e.action.account = .systemAccountName
    · by_cases hn : e.action.name = .newaccount
      · have hv : e.action.name ≠ .voteproducer := by rw [hn]; decide
        rw [if_neg fun h => hv h.2, if_pos ha, if_pos hn]
        rcases L.unpackNewaccount e.action.data with _ | _ <;> rfl
      · rw [if_pos ha, if_neg hn]
        by_cases hv : e.action.name = .voteproducer
        · rw [if_pos ⟨ha, hv⟩, if_pos hv]
          rcases voteOf L v with _ | _ <;> rfl
        · rw [if_neg fun h => hv h.2, if_neg hv]
          rfl
    · rw [if_neg fun h => ha h.1, if_neg ha]
      split
      · split
        · rcases proposalOf L v with _ | _ <;> rfl
        · split
          · rcases proposalKeyOf L v with _ | _ <;> rfl
          · rfl
      · split
        · rcases assetOf L e.action v with _ | _ | _ <;> rfl
        · rfl

theorem msig_ne_system : Name.eosioMsig ≠ Name.systemAccountName := by decide

theorem proposalChange_eq (e : Entry) : proposalChange L e = (e.write L).bind proposal? := by
  rw [proposalChange, Entry.write, writeOf, Entry.data]
  rcases interpreted L (e.db.abiOf e.action.account.str) e.action with _ | v
  · simp
  · rw [Option.bind_some, Option.bind_some, Option.bind_some, dataWrite]
    by_cases ha : e.action.account = .eosioMsig
    · have hs : e.action.account ≠ .systemAccountName := by rw [ha]; exact msig_ne_system
      rw [if_neg hs, if_pos ha]
      by_cases hp : e.action.name = .propose
      · rw [if_pos ⟨ha, hp⟩, if_pos hp]
        rcases proposalOf L v with _ | _ <;> rfl
      · rw [if_neg fun h => hp h.2, if_neg hp]
        by_cases hc : e.action.name = .cancel ∨ e.action.name = .exec
        · rw [if_pos ⟨ha, hc⟩, if_pos hc]
          rcases proposalKeyOf L v with _ | _ <;> rfl
        · rw [if_neg fun h => hc h.2, if_neg hc]
          rfl
    · rw [if_neg fun h => ha h.1, if_neg fun h => ha h.1, if_neg ha]
      split
      · split
        · rcases L.unpackNewaccount e.action.data with _ | _ <;> rfl
        · split
          · rcases voteOf L v with _ | _ <;> rfl
          · rfl
      · split
        · rcases assetOf L e.action v with _ | _ | _ <;> rfl
        · rfl

theorem assetChange_eq (e : Entry) : assetChange L e = (e.write L).bind asset? := by
  rw [assetChange, Entry.write, writeOf, Entry.data]
  rcases interpreted L (e.db.abiOf e.action.account.str) e.action with _ | v
  · simp
  · rw [Option.bind_some, Option.bind_some, dataWrite]
    by_cases hs : e.action.account = .systemAccountName
    · rw [if_neg fun h => h.1 hs, if_pos hs]
      split
      · rcases L.unpackNewaccount e.action.data with _ | _ <;> rfl
      · split
        · rcases voteOf L v with _ | _ <;> rfl
        · rfl
    · rw [if_neg hs]
      by_cases hm : e.action.account = .eosioMsig
      · rw [if_neg fun h => h.2.1 hm, if_pos hm]
        split
        · rcases proposalOf L v with _ | _ <;> rfl
        · split
          · rcases proposalKeyOf L v with _ | _ <;> rfl
          · rfl
      · rw [if_neg hm]
        by_cases hc : e.action.name = .create
        · rw [if_pos ⟨hs, hm, hc⟩, if_pos hc]
          rcases assetOf L e.action v with _ | _ | _ <;> rfl
        · rw [if_neg fun h => hc h.2.2, if_neg hc]
          rfl

/-! ## Writes to the tables -/

section Apply

variable {d : Db}

theorem reflects_votes {writes : List (String × Option VoteRow)} (h : d.votes.Reflects writes)
    (w : Write) : (w.apply d).votes.Reflects (writes ++ (vote? w).toList) := by
  cases w with
  | vote row =>
    refine Table.reflects_upsert h _ fun y hy => ?_
    rw [hy]
  | _ =>
    show d.votes.Reflects (writes ++ [])
    rw [List.append_nil]
    exact h

theorem reflects_proposal {writes : List ((String × String) × Option ProposalRow)}
    (h : d.proposal.Reflects writes) (w : Write) :
    (w.apply d).proposal.Reflects (writes ++ (proposal? w).toList) := by
  cases w with
  | propose row => exact Table.reflects_upsert h _ fun _ _ => rfl
  | unpropose proposer proposalName => exact Table.reflects_erase h (proposer, proposalName)
  | _ =>
    show d.proposal.Reflects (writes ++ [])
    rw [List.append_nil]
    exact h

theorem reflects_assets {writes : List ((String × String) × Option AssetRow)}
    (h : d.assets.Reflects writes) (w : Write) :
    (w.apply d).assets.Reflects (writes ++ (asset? w).toList) := by
  cases w with
  | asset row => exact Table.reflects_replace h row
  | _ =>
    show d.assets.Reflects (writes ++ [])
    rw [List.append_nil]
    exact h

end Apply

/-! ## Histories -/

/-- The tables are what the changes of the history leave of empty tables. -/
structure Mirrors (L : ChainLib) (h : List Entry) (d : Db) : Prop where
  votes : d.votes.Reflects (h.filterMap (voteChange L))
  proposal : d.proposal.Reflects (h.filterMap (proposalChange L))
  assets : d.assets.Reflects (h.filterMap (assetChange L))

/-- One more action. -/
theorem Mirrors.parsed {h : List Entry} {e : Entry} (hm : Mirrors L h e.db) :
    Mirrors L (h ++ [e]) (e.parsed L) := by
  rw [Entry.parsed_eq]
  constructor
  · rw [filterMap_concat, voteChange_eq]
    rcases e.write L with _ | w
    · simpa using hm.votes
    · exact reflects_votes hm.votes w
  · rw [filterMap_concat, proposalChange_eq]
    rcases e.write L with _ | w
    · simpa using hm.proposal
    · exact reflects_proposal hm.proposal w
  · rw [filterMap_concat, assetChange_eq]
    rcases e.write L with _ | w
    · simpa using hm.assets
    · exact reflects_assets hm.assets w

theorem mirrors_of_history {h : List Entry} {d : Db} (hd : History L h d) : Mirrors L h d := by
  induction hd with
  | start hv hp ha => exact ⟨Table.reflects_nil hv, Table.reflects_nil hp, Table.reflects_nil ha⟩
  | parse _ hv hp ha ih =>
    refine Mirrors.parsed ⟨?_, ?_, ?_⟩
    · rw [hv]; exact ih.votes
    · rw [hp]; exact ih.proposal
    · rw [ha]; exact ih.assets

/-- An action that has no change for a table leaves it as it is. -/
theorem unchanged_of_no_change (e : Entry) :
    (voteChange L e = none → (e.parsed L).votes = e.db.votes) ∧
    (proposalChange L e = none → (e.parsed L).proposal = e.db.proposal) ∧
    (assetChange L e = none → (e.parsed L).assets = e.db.assets) := by
  rw [Entry.parsed_eq, voteChange_eq, proposalChange_eq, assetChange_eq]
  rcases e.write L with _ | w
  · exact ⟨fun _ => rfl, fun _ => rfl, fun _ => rfl⟩
  · refine ⟨fun h => ?_, fun h => ?_, fun h => ?_⟩
    · cases w <;> first | rfl | cases h
    · cases w <;> first | rfl | cases h
    · cases w <;> first | rfl | cases h

/-- After any history, a table has one row at most for each of its keys, and
the rows are those the last change for their key sets; an action without a
change for a table leaves it as it is. -/
theorem derived_tables {h : List Entry} {d : Db} (hd : History L h d) :
    ((d.votes.contents.map VoteRow.voter).Nodup ∧ ∀ row, row ∈ d.votes.contents ↔
      lastWrite (fun _ => none) (h.filterMap (voteChange L)) row.voter = some row) ∧
    ((d.proposal.contents.map ProposalRow.key).Nodup ∧ ∀ row, row ∈ d.proposal.contents ↔
      lastWrite (fun _ => none) (h.filterMap (proposalChange L)) row.key = some row) ∧
    ((d.assets.contents.map AssetRow.key).Nodup ∧ ∀ row, row ∈ d.assets.contents ↔
      lastWrite (fun _ => none) (h.filterMap (assetChange L)) row.key = some row) ∧
    ∀ e : Entry,
      (voteChange L e = none → (e.parsed L).votes = e.db.votes) ∧
      (proposalChange L e = none → (e.parsed L).proposal = e.db.proposal) ∧
      (assetChange L e = none → (e.parsed L).assets = e.db.assets) := by
  have hm := mirrors_of_history hd
  exact ⟨⟨d.votes.nodup_keys, Table.mem_iff_of_reflects hm.votes⟩,
    ⟨d.proposal.nodup_keys, Table.mem_iff_of_reflects hm.proposal⟩,
    ⟨d.assets.nodup_keys, Table.mem_iff_of_reflects hm.assets⟩, unchanged_of_no_change⟩

/-! ## Two votes, a proposal made again and two creates -/

/-- The abi of a token, with `create`. -/
def createAbiVariant : Variant :=
  abiVariant [.object [("name", .string "create"), ("base", .string ""), ("fields", .array
    [fieldVariant "issuer" "name", fieldVariant "maximum_supply" "asset"])]]
    "create" "create"

def createAbiJson : JsonText :=
  ⟨"\x7b\"version\":\"eosio::abi/1.0\",\"structs\":[\x7b\"name\":\"create\",\"base\":\"\",\"fields\":[\x7b\"name\":\"issuer\",\"type\":\"name\"\x7d,\x7b\"name\":\"maximum_supply\",\"type\":\"asset\"\x7d]\x7d],\"actions\":[\x7b\"name\":\"create\",\"type\":\"create\",\"ricardian_contract\":\"\"\x7d]\x7d",
    by simp⟩

/-- `create` of 10000000000.0000 EOS with the issuer `eosio`, packed. -/
def packedCreate : Bytes :=
  [0, 0, 0, 0, 0, 0xea, 0x30, 0x55, 0, 0x40, 0x7a, 0x10, 0xf3, 0x5a, 0, 0, 4, 0x45, 0x4f, 0x53, 0, 0, 0, 0]

/-- An abi of `eosio.msig` with `propose` and `cancel`. -/
def proposalAbiVariant : Variant :=
  .object [("version", .string "eosio::abi/1.0"), ("structs", .array
    [.object [("name", .string "permission_level"), ("base", .string ""), ("fields", .array
      [fieldVariant "actor" "name", fieldVariant "permission" "name"])],
    .object [("name", .string "propose"), ("base", .string ""), ("fields", .array
      [fieldVariant "proposer" "name", fieldVariant "proposal_name" "name",
        fieldVariant "requested" "permission_level[]"])],
    .object [("name", .string "cancel"), ("base", .string ""), ("fields", .array
      [fieldVariant "proposer" "name", fieldVariant "proposal_name" "name",
        fieldVariant "canceler" "name"])]]), ("actions", .array
    [.object [("name", .string "propose"), ("type", .string "propose"), ("ricardian_contract", .string "")],
      .object [("name", .string "cancel"), ("type", .string "cancel"), ("ricardian_contract", .string "")]])]

def proposalAbiJson : JsonText :=
  ⟨"\x7b\"version\":\"eosio::abi/1.0\",\"structs\":[\x7b\"name\":\"permission_level\",\"base\":\"\",\"fields\":[\x7b\"name\":\"actor\",\"type\":\"name\"\x7d,\x7b\"name\":\"permission\",\"type\":\"name\"\x7d]\x7d,\x7b\"name\":\"propose\",\"base\":\"\",\"fields\":[\x7b\"name\":\"proposer\",\"type\":\"name\"\x7d,\x7b\"name\":\"proposal_name\",\"type\":\"name\"\x7d,\x7b\"name\":\"requested\",\"type\":\"permission_level[]\"\x7d]\x7d,\x7b\"name\":\"cancel\",\"base\":\"\",\"fields\":[\x7b\"name\":\"proposer\",\"type\":\"name\"\x7d,\x7b\"name\":\"proposal_name\",\"type\":\"name\"\x7d,\x7b\"name\":\"canceler\",\"type\":\"name\"\x7d]\x7d],\"actions\":[\x7b\"name\":\"propose\",\"type\":\"propose\",\"ricardian_contract\":\"\"\x7d,\x7b\"name\":\"cancel\",\"type\":\"cancel\",\"ricardian_contract\":\"\"\x7d]\x7d",
    by simp⟩

def packedProxy : Bytes := [0, 0, 0, 0, 4, 0xdf, 0xe9, 0xad]

/-- `alice` votes for `bob`. -/
def voteBob : Action :=
  ⟨.systemAccountName, .voteproducer, [], packedAlice ++ List.replicate 8 0 ++ 1 :: packedBob⟩

/-- `alice` leaves her vote to `proxy1`. -/
def voteProxy : Action := ⟨.systemAccountName, .voteproducer, [], packedAlice ++ packedProxy ++ [0]⟩

/-- `alice` proposes `pay`, to be approved by herself. -/
def proposeAlice : Action :=
  ⟨.eosioMsig, .propose, [], packedAlice ++ packedPay ++ 1 :: (packedAlice ++ packedActive)⟩

/-- She proposes `pay`, to be approved by `bob` as well. -/
def proposeBoth : Action :=
  ⟨.eosioMsig, .propose, [], packedAlice ++ packedPay ++
    2 :: (packedAlice ++ packedActive ++ packedBob ++ packedActive)⟩

def proposeSend : Action :=
  ⟨.eosioMsig, .propose, [], packedAlice ++ packedSend ++ 1 :: (packedAlice ++ packedActive)⟩

def cancelPay : Action := ⟨.eosioMsig, .cancel, [], packedCancel⟩
def cancelSend : Action := ⟨.eosioMsig, .cancel, [], packedAlice ++ packedSend ++ packedAlice⟩

/-- `bob` creates 1.0000 EOS. -/
def createOne : Action :=
  ⟨.eosioToken, .create, [], packedBob ++ [0x10, 0x27, 0, 0, 0, 0, 0, 0, 4, 0x45, 0x4f, 0x53, 0, 0, 0, 0]⟩

def createEos : Action := ⟨.eosioToken, .create, [], packedCreate⟩

def levelVariant (actor : String) : Variant := .object [("actor", .string actor), ("permission", .string "active")]

def bobProducer : JsonText := ⟨"[\"bob\"]", by decide⟩

/-- The JSON of the level `active` of `alice`, and of those of `alice` and `bob`. -/
def aliceLevel : JsonText := ⟨"[\x7b\"actor\":\"alice\",\"permission\":\"active\"\x7d]", by simp⟩

def bothLevels : JsonText :=
  ⟨"[\x7b\"actor\":\"alice\",\"permission\":\"active\"\x7d,\x7b\"actor\":\"bob\",\"permission\":\"active\"\x7d]",
    by simp⟩

/-- The actions of the history, with what their payloads decode to. -/
def historyActions : List (Action × Variant) :=
  [(voteBob, .object [("voter", .string "alice"), ("proxy", .string ""), ("producers", .array [.string "bob"])]),
    (proposeAlice, .object [("proposer", .string "alice"), ("proposal_name", .string "pay"),
      ("requested", .array [levelVariant "alice"])]),
    (createOne, .object [("issuer", .string "bob"), ("maximum_supply", .string "1.0000 EOS")]),
    (cancelPay, cancelVariant),
    (voteProxy, .object [("voter", .string "alice"), ("proxy", .string "proxy1"), ("producers", .array [])]),
    (proposeSend, .object [("proposer", .string "alice"), ("proposal_name", .string "send"),
      ("requested", .array [levelVariant "alice"])]),
    (proposeBoth, .object [("proposer", .string "alice"), ("proposal_name", .string "pay"),
      ("requested", .array [levelVariant "alice", levelVariant "bob"])]),
    (cancelSend, .object [("proposer", .string "alice"), ("proposal_name", .string "send"),
      ("canceler", .string "alice")]),
    (createEos, .object [("issuer", .string "eosio"), ("maximum_supply", .string "10000000000.0000 EOS")])]

inductive HistoryAbi
  | eosio
  | msig
  | token

def HistoryAbi.actions : HistoryAbi → List Name
  | eosio => [.voteproducer]
  | msig => [.propose, .cancel]
  | token => [.create]

/-- The abi of each contract. -/
def HistoryAbi.of (account : Name) : HistoryAbi :=
  if account = .systemAccountName then eosio else if account = .eosioMsig then msig else token

/-- The library on these payloads. -/
def ChainLib.history : ChainLib where
  AbiDef := HistoryAbi
  Serializer := HistoryAbi
  fromString text :=
    if text = SampleAbi.vote.text then .ok SampleAbi.vote.variant
    else if text = proposalAbiJson.text then .ok proposalAbiVariant
    else if text = createAbiJson.text then .ok createAbiVariant
    else .error .fc
  toJson
    | .object [] => .emptyObject
    | .array [] => .emptyArray
    | .array [.string _] => bobProducer
    | .array [_] => aliceLevel
    | .array _ => bothLevels
    | _ => .null
  asName
    | .string s => if h : isNameText s.toList = true then .ok ⟨s, h⟩ else .error .fc
    | _ => .error .fc
  asAsset
    | .string "1.0000 EOS" => .ok ⟨10000, 4, "EOS"⟩
    | .string "10000000000.0000 EOS" => .ok ⟨100000000000000, 4, "EOS"⟩
    | _ => .error .fc
  asAbiDef
    | .object [_, _, ("actions", .array [_, _])] => .ok .msig
    | .object [_, _, ("actions", .array [.object (("name", .string "create") :: _)])] => .ok .token
    | .object [_, _, ("actions", .array [_])] => .ok .eosio
    | _ => .error .fc
  abiDefVariant
    | .eosio => SampleAbi.vote.variant
    | .msig => proposalAbiVariant
    | .token => createAbiVariant
  eosioContractAbi := .eosio
  setAbi := .ok
  getActionType abi name := if name ∈ abi.actions then name.str else ""
  binaryToVariant _ type data :=
    match historyActions.find? fun p => p.1.name.str = type ∧ p.1.data = data with
    | some p => .ok p.2
    | none => .error .fc
  unpackNewaccount _ := .error .fc
  unpackSetabi _ := .error .fc
  unpackAbiDef _ := .error .fc
  unpackTransaction _ := .error .fc
  secSinceEpoch time := time.slot / 2 + 946684800

/-- The accounts with the abis of the three contracts. -/
def historyAccounts : Db :=
  ((({} : Db).upsertAbi "eosio" SampleAbi.vote.json).upsertAbi "eosio.msig" proposalAbiJson).upsertAbi
    "eosio.token" createAbiJson

theorem abiFromJson_vote : ActionsTable.abiFromJson .history SampleAbi.vote.text = .ok HistoryAbi.eosio := by
  have h : ChainLib.history.fromString SampleAbi.vote.text = .ok SampleAbi.vote.variant := by
    simp only [ChainLib.history, if_true]
  rw [ActionsTable.abiFromJson, h]
  rfl

theorem abiFromJson_proposal : ActionsTable.abiFromJson .history proposalAbiJson.text = .ok HistoryAbi.msig := by
  have hne : proposalAbiJson.text ≠ SampleAbi.vote.text := by simp [proposalAbiJson, SampleAbi.text]
  have h : ChainLib.history.fromString proposalAbiJson.text = .ok proposalAbiVariant := by
    simp only [ChainLib.history, if_neg hne, if_true]
  rw [ActionsTable.abiFromJson, h]
  rfl

theorem abiFromJson_create : ActionsTable.abiFromJson .history createAbiJson.text = .ok HistoryAbi.token := by
  have hvote : createAbiJson.text ≠ SampleAbi.vote.text := by simp [createAbiJson, SampleAbi.text]
  have hproposal : createAbiJson.text ≠ proposalAbiJson.text := by simp [createAbiJson, proposalAbiJson]
  have h : ChainLib.history.fromString createAbiJson.text = .ok createAbiVariant := by
    simp only [ChainLib.history, if_neg hvote, if_neg hproposal, if_true]
  rw [ActionsTable.abiFromJson, h]
  rfl

set_option maxRecDepth 2000 in
theorem decode_history :
    ∀ p ∈ historyActions, ActionsTable.decode .history (HistoryAbi.of p.1.account) p.1 = .ok p.2 := by
  simp only [historyActions, List.forall_mem_cons]
  exact ⟨rfl, rfl, rfl, rfl, rfl, rfl, rfl, rfl, rfl, List.forall_mem_nil _⟩

/-- While the accounts are the same, the payloads decode. -/
theorem data_history {d : Db} {p : Action × Variant} (hd : d.accounts = historyAccounts.accounts)
    (hp : p ∈ historyActions) : Entry.data .history ⟨d, p.1⟩ = some p.2 := by
  have haccount : ∀ p ∈ historyActions, p.1.account = .systemAccountName ∨ p.1.account = .eosioMsig ∨
      p.1.account = .eosioToken := by decide
  have hdecode := decode_history p hp
  rw [Entry.data]
  obtain h | h | h := haccount p hp
  · rw [h] at hdecode
    have habi : d.abiOf p.1.account.str = some SampleAbi.vote.json := by rw [h, Db.abiOf, hd]; rfl
    rw [habi]
    exact ActionsTable.interpreted_eq abiFromJson_vote hdecode
  · rw [h] at hdecode
    have habi : d.abiOf p.1.account.str = some proposalAbiJson := by rw [h, Db.abiOf, hd]; rfl
    rw [habi]
    exact ActionsTable.interpreted_eq abiFromJson_proposal hdecode
  · rw [h] at hdecode
    have habi : d.abiOf p.1.account.str = some createAbiJson := by rw [h, Db.abiOf, hd]; rfl
    rw [habi]
    exact ActionsTable.interpreted_eq abiFromJson_create hdecode

/-- A write that leaves `accounts` as it is. -/
def ActionsTable.Write.sparesAccounts : Write → Bool
  | .account _ => false
  | _ => true

/-- What one of them writes, which is nothing in `accounts`. -/
theorem write_history {d : Db} {p : Action × Variant} (hd : d.accounts = historyAccounts.accounts)
    (hp : p ∈ historyActions) : Entry.write .history ⟨d, p.1⟩ = dataWrite .history p.1 p.2 ∧
      (Entry.parsed .history ⟨d, p.1⟩).accounts = historyAccounts.accounts := by
  have hwrite : Entry.write .history ⟨d, p.1⟩ = dataWrite .history p.1 p.2 := by
    have hdata := data_history hd hp
    rw [Entry.data] at hdata
    rw [Entry.write, writeOf, hdata, Option.bind_some]
  have hother : ∀ p ∈ historyActions, (dataWrite .history p.1 p.2).all ActionsTable.Write.sparesAccounts = true := by
    decide +kernel
  have hother := hother p hp
  refine ⟨hwrite, ?_⟩
  rw [Entry.parsed_eq, hwrite]
  rcases hw : dataWrite .history p.1 p.2 with _ | w
  · exact hd
  · rw [hw] at hother
    cases w with
    | account n => cases hother
    | _ => exact hd

/-- What the history changes in a table, said by what each action writes. -/
theorem filterMap_entries_history {κ ρ : Type} {change : Entry → Option (κ × Option ρ)}
    {f : Write → Option (κ × Option ρ)} (hf : ∀ e, change e = (e.write .history).bind f)
    {ps : List (Action × Variant)} (hps : ps ⊆ historyActions) {d : Db}
    (hd : d.accounts = historyAccounts.accounts) :
    (entries .history d (ps.map Prod.fst)).filterMap change =
      ps.filterMap fun p => (dataWrite .history p.1 p.2).bind f := by
  induction ps generalizing d with
  | nil => rfl
  | cons p ps ih =>
    obtain ⟨hwrite, haccounts⟩ := write_history hd (hps List.mem_cons_self)
    rw [List.map_cons, entries, List.filterMap_cons, List.filterMap_cons, hf, hwrite,
      ih (List.subset_of_cons_subset hps) haccounts]

/-- The second vote counts, `pay` is there as it was proposed again, `send`
is not, and `EOS` is that of the second `create`. -/
theorem derived_tables_actions :
    (∀ row, row ∈ (processed .history historyAccounts (historyActions.map Prod.fst)).votes.contents ↔
      row = ⟨"alice", "proxy1", .emptyArray⟩) ∧
    (∀ row, row ∈ (processed .history historyAccounts (historyActions.map Prod.fst)).proposal.contents ↔
      row = ⟨"alice", "pay", bothLevels.text⟩) ∧
    (∀ row, row ∈ (processed .history historyAccounts (historyActions.map Prod.fst)).assets.contents ↔
      row = ⟨0, 100000000000000, 4, "EOS", "eosio", "eosio.token", ""⟩) := by
  have hd : History .history (entries .history historyAccounts (historyActions.map Prod.fst))
      (processed .history historyAccounts (historyActions.map Prod.fst)) :=
    (History.start rfl rfl rfl : History .history [] historyAccounts).append (historyActions.map Prod.fst)
  obtain ⟨⟨-, hvotes⟩, ⟨-, hproposal⟩, ⟨-, hassets⟩, -⟩ := derived_tables hd
  rw [filterMap_entries_history voteChange_eq (List.Subset.refl _) rfl] at hvotes
  rw [filterMap_entries_history proposalChange_eq (List.Subset.refl _) rfl] at hproposal
  rw [filterMap_entries_history assetChange_eq (List.Subset.refl _) rfl] at hassets
  have hv : (historyActions.filterMap fun p => (dataWrite .history p.1 p.2).bind vote?) =
      [("alice", some ⟨"alice", "", bobProducer⟩), ("alice", some ⟨"alice", "proxy1", .emptyArray⟩)] := by
    decide +kernel
  have hp : (historyActions.filterMap fun p => (dataWrite .history p.1 p.2).bind proposal?) =
      [(("alice", "pay"), some ⟨"alice", "pay", aliceLevel.text⟩), (("alice", "pay"), none),
        (("alice", "send"), some ⟨"alice", "send", aliceLevel.text⟩),
        (("alice", "pay"), some ⟨"alice", "pay", bothLevels.text⟩), (("alice", "send"), none)] := by
    decide +kernel
  have ha : (historyActions.filterMap fun p => (dataWrite .history p.1 p.2).bind asset?) =
      [(("EOS", "eosio.token"), some ⟨0, 10000, 4, "EOS", "bob", "eosio.token", ""⟩),
        (("EOS", "eosio.token"), some ⟨0, 100000000000000, 4, "EOS", "eosio", "eosio.token", ""⟩)] := by
    decide +kernel
  rw [hv] at hvotes
  rw [hp] at hproposal
  rw [ha] at hassets
  refine ⟨fun row => (hvotes row).trans ⟨fun h => ?_, ?_⟩, fun row => (hproposal row).trans ⟨fun h => ?_, ?_⟩,
    fun row => (hassets row).trans ⟨fun h => ?_, ?_⟩⟩
  · have hk : row.voter = "alice" := by simpa using mem_of_lastWrite h
    rw [hk] at h
    exact (Option.some.inj h).symm
  · rintro rfl
    rfl
  · have hk : row.key = ("alice", "pay") ∨ row.key = ("alice", "send") := by
      have hmem := mem_of_lastWrite h
      simp only [List.map_cons, List.map_nil, List.mem_cons, List.not_mem_nil, or_false] at hmem
      tauto
    obtain hk | hk := hk
    · rw [hk] at h
      exact (Option.some.inj h).symm
    · rw [hk] at h
      cases h
  · rintro rfl
    rfl
  · have hk : row.key = ("EOS", "eosio.token") := by simpa using mem_of_lastWrite h
    rw [hk] at h
    exact (Option.some.inj h).symm
  · rintro rfl
    rfl

end SqlDb
