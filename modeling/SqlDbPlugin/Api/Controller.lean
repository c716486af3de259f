import Mathlib.Data.Nat.Basic
import SqlDbPlugin.Chain
import SqlDbPlugin.Lib.Captured
import SqlDbPlugin.Lib.OrderedIndex

/-!
# What the read-only api uses of the chain

`ApiLib` has the library functions the api's calls use besides those of
`ChainLib`, and `Controller` the part of the chain state they read: the abis
of the accounts, and the contract tables, as the index of all their rows in
the order of table id and primary key. `walkKeyValueTable` is
`walk_key_value_table`; it walks the rows of one table
(`walkKeyValueTable_eq`). `ApiLib.sample` and `Controller.sample` are a
library and a chain state to run the api with.
-/

namespace SqlDb

open Captured (lift walk)

/-! ## The library -/

/-- A transaction with its `delay_sec`. -/
structure ProposedTransaction extends Transaction where
  delaySec : UInt32

/-- How `check_authorization` fails: with an `authorization_exception`, or another exception. -/
inductive CheckExn
  | authorization
  | exn (e : Exn)
  deriving DecidableEq, Repr

/-- `name(const string&)`: throws unless the text is the one the name prints as. -/
def Name.ofString (s : String) : Except Exn Name :=
  if h : isNameText s.toList = true then .ok ⟨s, h⟩ else .error .fc

@[simp] theorem Name.ofString_str (n : Name) : Name.ofString n.str = .ok n := dif_pos n.isText

theorem Name.str_of_ofString {s : String} {n : Name} (h : Name.ofString s = .ok n) : n.str = s := by
  unfold Name.ofString at h
  split at h
  · cases h
    rfl
  · cases h

/-- The library functions the api calls. -/
structure ApiLib extends ChainLib where
  /-- `as<string>()`, `as_string()` and `as<flat_set<permission_level>>()` -/
  asString : Variant → Except Exn String
  asPermissionLevels : Variant → Except Exn (List PermissionLevel)
  /-- `abi_serializer::to_abi`; nothing if the account has no abi -/
  toAbi : Bytes → Except Exn (Option AbiDef)
  /-- `abi_def()` -/
  emptyAbi : AbiDef
  /-- `abi_def::tables`, each as its name and index type -/
  abiTables : AbiDef → List (Name × String)
  /-- `abi_serializer::get_table_type` -/
  getTableType : Serializer → Name → String
  /-- `fc::raw::unpack` -/
  unpackAsset : Bytes → Except Exn Asset
  unpackProposed : Bytes → Except Exn ProposedTransaction
  /-- `get_symbol().valid()` and `precision()` of an asset -/
  symbolValid : Asset → Bool
  precision : Asset → Int64
  /-- `asset(0, symbol(string_to_symbol(precision, name)))` -/
  zeroAsset : UInt8 → String → Except Exn Asset
  /-- `string_to_name` -/
  stringToName : String → Name
  /-- `fc::from_hex` into a vector of half as many bytes -/
  fromHex : String → Except Exn Bytes
  /-- `abi_serializer::to_variant` with a resolver of abis -/
  toVariant : (Name → Except Exn Serializer) → ProposedTransaction → Except Exn Variant
  /-- Whether the collation of the text columns takes two characters for the same. -/
  sameChar : Char → Char → Bool

/-! ## The chain state -/

/-- `account_object` -/
structure AccountObject where
  name : Name
  abi : Bytes
  deriving DecidableEq

/-- `table_id_object` -/
structure TableIdObject where
  id : Nat
  code : Name
  scope : Name
  table : Name
  deriving DecidableEq

/-- `key_value_object` -/
structure KeyValueObject where
  tId : Nat
  primaryKey : UInt64
  value : Bytes
  deriving DecidableEq

/-- The order of the index `by_scope_primary`. -/
def KeyValueObject.before (a b : KeyValueObject) : Prop :=
  a.tId < b.tId ∨ a.tId = b.tId ∧ a.primaryKey < b.primaryKey

instance (a b : KeyValueObject) : Decidable (a.before b) := inferInstanceAs (Decidable (_ ∨ _))

/-- The chain state the api reads. -/
structure Controller where
  accounts : List AccountObject
  tableIds : List TableIdObject
  keyValues : List KeyValueObject
  /-- `get_authorization_manager().check_authorization` of actions, provided levels and delay -/
  checkAuthorization : List Action → List PermissionLevel → UInt32 → Except CheckExn Unit
  uniqueAccounts : accounts.Pairwise fun a b => a.name ≠ b.name
  uniqueIds : tableIds.Pairwise fun a b => a.id ≠ b.id
  uniqueTables : tableIds.Pairwise fun a b => (a.code, a.scope, a.table) ≠ (b.code, b.scope, b.table)
  sorted : keyValues.Pairwise KeyValueObject.before

variable (L : ApiLib) (db : Controller)

/-! ## Abis -/

def getAbi (account : Name) : Except Exn L.AbiDef :=
  match db.accounts.find? fun a => a.name = account with
  | none => .error .fc
  | some codeAccnt => do
    let abi ← L.toAbi codeAccnt.abi
    return abi.getD L.emptyAbi

def getTableType (abi : L.AbiDef) (tableName : Name) : Except Exn String :=
  match (L.abiTables abi).find? fun t => t.1 = tableName with
  | some t => .ok t.2
  | none => .error .fc

def makeResolver (account : Name) : Except Exn L.Serializer := do
  let abi ← getAbi L db account
  L.setAbi abi

variable {L db} in
theorem makeResolver_eq {account : Name} (codeAccnt : AccountObject) {abi : L.AbiDef}
    (hfind : db.accounts.find? (fun a => a.name = account) = some codeAccnt)
    (habi : L.toAbi codeAccnt.abi = .ok (some abi)) : makeResolver L db account = L.setAbi abi := by
  rw [makeResolver, getAbi, hfind]
  show (L.toAbi codeAccnt.abi >>= fun abi => .ok (abi.getD L.emptyAbi)) >>= L.setAbi = _
  rw [habi]
  rfl

/-! ## Tables -/

variable {σ : Type}

/-- `d.find<table_id_object, by_code_scope_table>` -/
def Controller.findTable (code scope table : Name) : Option TableIdObject :=
  db.tableIds.find? fun t => t.code = code ∧ t.scope = scope ∧ t.table = table

/-- Calls `f` on the rows of a table until it returns false, or `f2` if there is no such table. -/
def walkKeyValueTable (code scope table : Name) (f : KeyValueObject → Captured Exn σ Bool)
    (f2 : Captured Exn σ Unit) : Captured Exn σ Unit :=
  match db.findTable code scope table with
  | some tId => walk f (OrderedIndex.range (·.tId) tId.id (tId.id + 1) db.keyValues)
  | none => f2

/-- The rows of a table, if it exists. -/
def Controller.rows (code scope table : Name) : Option (List KeyValueObject) :=
  (db.findTable code scope table).map fun t => db.keyValues.filter fun r => r.tId = t.id

/-- The walk is one over the rows of the table. -/
theorem walkKeyValueTable_eq (code scope table : Name) (f : KeyValueObject → Captured Exn σ Bool)
    (f2 : Captured Exn σ Unit) :
    walkKeyValueTable db code scope table f f2 = (db.rows code scope table).elim f2 (walk f) := by
  rw [walkKeyValueTable, Controller.rows]
  rcases db.findTable code scope table with _ | t
  · rfl
  · have hs : db.keyValues.Pairwise fun a b => a.tId ≤ b.tId := db.sorted.imp fun h => by
      obtain h | h := h
      · exact Nat.le_of_lt h
      · exact Nat.le_of_eq h.1
    have hfilter : (fun r : KeyValueObject => decide (t.id ≤ r.tId ∧ r.tId < t.id + 1)) =
        fun r => decide (r.tId = t.id) := by
      funext r
      exact decide_eq_decide.mpr (by omega)
    rw [Option.map_some, Option.elim_some]
    simp only [OrderedIndex.range_eq_filter hs (Nat.le_succ t.id), hfilter]

/-- A missing table is walked like an empty one if there is nothing to do for it. -/
theorem walkKeyValueTable_pure (code scope table : Name) (f : KeyValueObject → Captured Exn σ Bool) :
    walkKeyValueTable db code scope table f (pure ()) = walk f ((db.rows code scope table).getD []) := by
  rw [walkKeyValueTable_eq]
  rcases db.rows code scope table with _ | _ <;> rfl

/-! ## The tables -/

namespace Name

def accounts : Name := ⟨"accounts", by decide⟩
def approvals : Name := ⟨"approvals", by decide⟩
def proposal : Name := ⟨"proposal", by decide⟩

end Name

/-! ## A library to run the api with -/

/-- The abis of the examples: of a token, of `eosio.msig`, and `abi_def()`. -/
inductive ApiAbi
  | token
  | msig
  | empty
  deriving DecidableEq

/-- A short text, packed. -/
def packedString (s : String) : Bytes :=
  .ofNat s.length :: s.toList.map fun c => .ofNat c.toNat

namespace ApiAbi

/-- The abi with the table `accounts`, packed. -/
def packedToken : Bytes :=
  packedString "eosio::abi/1.0" ++ [0, 1] ++ packedString "account" ++ packedString "" ++
    [1] ++ packedString "balance" ++ packedString "asset" ++
    [0, 1, 0, 0, 0, 0x38, 0x4f, 0x4d, 0x11, 0x32] ++ packedString "i64" ++ [0, 0] ++
    packedString "account" ++ [0, 0, 0]

/-- The abi with the tables `proposal` and `approvals`, packed. -/
def packedMsig : Bytes :=
  packedString "eosio::abi/1.0" ++ [0, 3] ++ packedString "permission_level" ++ packedString "" ++
    [2] ++ packedString "actor" ++ packedString "name" ++ packedString "permission" ++
    packedString "name" ++ packedString "proposal" ++ packedString "" ++
    [2] ++ packedString "proposal_name" ++ packedString "name" ++ packedString "packed_transaction" ++
    packedString "bytes" ++ packedString "approvals_info" ++ packedString "" ++
    [3] ++ packedString "proposal_name" ++ packedString "name" ++
    packedString "requested_approvals" ++ packedString "permission_level[]" ++
    packedString "provided_approvals" ++ packedString "permission_level[]" ++
    [0, 2, 0, 0, 0, 0xd1, 0x60, 0x5a, 0xe9, 0xad] ++ packedString "i64" ++ [0, 0] ++
    packedString "proposal" ++
    [0, 0, 0xc0, 0xd1, 0x6c, 0x7a, 0x6b, 0x35] ++ packedString "i64" ++ [0, 0] ++
    packedString "approvals_info" ++ [0, 0, 0]

/-- Its tables, each with its index type and its type. -/
def tables : ApiAbi → List (Name × String × String)
  | token => [(.accounts, "i64", "account")]
  | msig => [(.proposal, "i64", "proposal"),
      (.approvals, "i64", "approvals_info")]
  | empty => []

end ApiAbi

/-- The number with the bytes, the lowest first. -/
def ofBytes (bytes : Bytes) : Nat := bytes.foldr (fun b n => b.toNat + 256 * n) 0

def pay : Name := ⟨"pay", by decide⟩

/-- The permission `active` of `alice`. -/
def aliceActive : PermissionLevel := ⟨alice, ⟨"active", by decide⟩⟩

/-- The approvals of `pay`, which `aliceActive` is requested to give. -/
def packedApprovals : Bytes :=
  packedPay ++ [1, 0, 0, 0, 0, 0, 0x85, 0x5c, 0x34, 0, 0, 0, 0, 0xa8, 0xed, 0x32, 0x32, 0]

/-- The transaction without actions, which packs as 16 zeros. -/
def emptyTransaction : ProposedTransaction :=
  ⟨⟨"374708fff7719dd5979ec875d56cd2286f6d3cf7ec317a3b25632aab28ec37bb", []⟩, 0⟩

def emptyTransactionVariant : Variant :=
  .object [("expiration", .string "1970-01-01T00:00:00"), ("ref_block_num", .uint64 0),
    ("ref_block_prefix", .uint64 0), ("max_net_usage_words", .uint64 0),
    ("max_cpu_usage_ms", .uint64 0), ("delay_sec", .uint64 0), ("context_free_actions", .array []),
    ("actions", .array []), ("transaction_extensions", .array [])]

def emptyTransactionJson : JsonText :=
  ⟨"\x7b\"expiration\":\"1970-01-01T00:00:00\",\"ref_block_num\":0,\"ref_block_prefix\":0,\"max_net_usage_words\":0,\"max_cpu_usage_ms\":0,\"delay_sec\":0,\"context_free_actions\":[],\"actions\":[],\"transaction_extensions\":[]\x7d",
    by simp⟩

/-- The library on the inputs of the examples. -/
def ApiLib.sample : ApiLib where
  AbiDef := ApiAbi
  Serializer := ApiAbi
  fromString _ := .error .fc
  toJson
    | .array [] => .emptyArray
    | .array _ => ⟨"[\x7b\"actor\":\"alice\",\"permission\":\"active\"\x7d]", by decide⟩
    | .object _ => emptyTransactionJson
    | _ => .null
  asName
    | .string s => Name.ofString s
    | _ => .error .fc
  asAsset _ := .error .fc
  asAbiDef _ := .error .fc
  abiDefVariant _ := .null
  eosioContractAbi := .empty
  setAbi := .ok
  getActionType _ _ := ""
  binaryToVariant _ type data :=
    if type = "approvals_info" ∧ data = packedApprovals then
      .ok (.object [("proposal_name", .string "pay"),
        ("requested_approvals", .array [aliceActive.toVariant]), ("provided_approvals", .array [])])
    else if type = "proposal" ∧ data = packedPay ++ 16 :: List.replicate 16 0 then
      .ok (.object [("proposal_name", .string "pay"),
        ("packed_transaction", .string "00000000000000000000000000000000")])
    else .error .fc
  unpackNewaccount _ := .error .fc
  unpackSetabi _ := .error .fc
  unpackAbiDef _ := .error .fc
  unpackTransaction _ := .error .fc
  secSinceEpoch time := time.slot / 2 + 946684800
  asString
    | .string s => .ok s
    | _ => .error .fc
  asPermissionLevels
    | .array [] => .ok []
    | _ => .error .fc
  toAbi data :=
    if data.length ≤ 4 then .ok none
    else if data = ApiAbi.packedToken then .ok (some .token)
    else if data = ApiAbi.packedMsig then .ok (some .msig)
    else .error .fc
  emptyAbi := .empty
  abiTables abi := abi.tables.map fun (name, indexType, _) => (name, indexType)
  getTableType abi name := ((abi.tables.lookup name).map (·.2)).getD ""
  unpackAsset data :=
    if data.length < 16 then .error .fc
    else .ok ⟨(UInt64.ofNat (ofBytes (data.take 8))).toInt64, data.getD 8 0,
      .ofList (((data.drop 9).take 7).takeWhile (· ≠ 0) |>.map fun b => .ofNat b.toNat)⟩
  unpackProposed data :=
    if data = List.replicate 16 0 then .ok emptyTransaction else .error .fc
  symbolValid cursor := cursor.precision ≤ 18 && cursor.symbolName.toList.all (·.isUpper)
  precision cursor := .ofNat (Nat.pow 10 cursor.precision.toNat)
  zeroAsset precision name :=
    if precision ≤ 18 ∧ name ≠ "" ∧ name.toList.all (·.isUpper) then .ok ⟨0, precision, name⟩
    else .error .fc
  stringToName s := if h : isNameText s.toList = true then ⟨s, h⟩ else .empty
  fromHex s :=
    if s = "00000000000000000000000000000000" then .ok (List.replicate 16 0) else .error .fc
  toVariant _ trx := if trx.actions = [] then .ok emptyTransactionVariant else .error .fc
  sameChar := (· = ·)

def objectJson : Variant → String
  | .object [(key, .string s), (key', .string s')] =>
    "\x7b\"" ++ key ++ "\":\"" ++ s ++ "\",\"" ++ key' ++ "\":\"" ++ s' ++ "\"\x7d"
  | _ => "null"

def arrayJson : List Variant → JsonText
  | [] => .emptyArray
  | v :: vs => ⟨"[" ++ objectJson v ++ String.join (vs.map fun v => "," ++ objectJson v) ++ "]", by simp⟩

/-- The library of the examples, which prints any levels. -/
def ApiLib.levels : ApiLib :=
  { ApiLib.sample with
    toJson := fun
      | .array vs => arrayJson vs
      | v => ApiLib.sample.toJson v }

/-- `alice` has 1.0000 EOS, and has proposed the empty transaction as `pay`. -/
def Controller.sample : Controller where
  accounts := [⟨.eosioToken, ApiAbi.packedToken⟩, ⟨.eosioMsig, ApiAbi.packedMsig⟩]
  tableIds := [⟨1, .eosioToken, alice, .accounts⟩,
    ⟨2, .eosioMsig, alice, .proposal⟩,
    ⟨3, .eosioMsig, alice, .approvals⟩]
  keyValues := [⟨1, 5459781, [0x10, 0x27, 0, 0, 0, 0, 0, 0, 4, 0x45, 0x4f, 0x53, 0, 0, 0, 0]⟩,
    ⟨2, 12230650688031424512, packedPay ++ 16 :: List.replicate 16 0⟩,
    ⟨3, 12230650688031424512, packedApprovals⟩]
  checkAuthorization actions _ _ := if actions = [] then .ok () else .error .authorization
  uniqueAccounts := by decide
  uniqueIds := by decide
  uniqueTables := by decide
  sorted := by decide

end SqlDb
