import Mathlib.Tactic.Common

/-!
# What the plugin uses of the chain library and of fc

The plugin is compiled against nodeos, so the types its signals carry are
given here by the fields the plugin reads, and the library functions it
calls are the fields of `ChainLib`: every theorem holds for any such
functions. The serializer's time limit is one of the reasons for which they
may throw. A name is the text it prints as, which is one to one with its
64-bit value. An exception is one of the four kinds the plugin's handlers
tell apart.
-/

namespace SqlDb

/-- What a handler can be for: an `fc::exception`, a `soci::mysql_soci_error`,
another `std::exception`, or anything else. -/
inductive Exn
  | fc
  | soci
  | std
  | other
  deriving DecidableEq, Repr

/-! ## Names -/

def nameAlphabet : List Char := ".12345abcdefghijklmnopqrstuvwxyz".toList

/-- The texts names print as: at most 13 characters, no dot at the end, and
as thirteenth character one of the first 16 (it has four bits). -/
def isNameText (s : List Char) : Bool :=
  s.length ≤ 13 && s.all (nameAlphabet.contains ·) && s.getLast? != some '.' &&
    (s.drop 12).all ((nameAlphabet.take 16).contains ·)

/-- `chain::name`. -/
structure Name where
  str : String
  isText : isNameText str.toList = true
  deriving DecidableEq

theorem Name.str_inj {n n' : Name} : n.str = n'.str ↔ n = n' := by
  rw [Name.mk.injEq]

namespace Name

/-- The name of value 0. -/
def empty : Name := ⟨"", by decide⟩

/-- `chain::config::system_account_name` -/
def systemAccountName : Name := ⟨"eosio", by decide⟩

def eosioMsig : Name := ⟨"eosio.msig", by decide⟩
def eosioToken : Name := ⟨"eosio.token", by decide⟩
def newaccount : Name := ⟨"newaccount", by decide⟩
def setabi : Name := ⟨"setabi", by decide⟩
def voteproducer : Name := ⟨"voteproducer", by decide⟩
def propose : Name := ⟨"propose", by decide⟩
def cancel : Name := ⟨"cancel", by decide⟩
def exec : Name := ⟨"exec", by decide⟩
def create : Name := ⟨"create", by decide⟩
def onblock : Name := ⟨"onblock", by decide⟩

end Name

/-! ## JSON -/

/-- `fc::variant`; a floating point number is its printed form. -/
inductive Variant
  | null
  | int64 (i : Int64)
  | uint64 (n : UInt64)
  | double (text : String)
  | bool (b : Bool)
  | string (s : String)
  | array (xs : List Variant)
  | object (fields : List (String × Variant))

/-- `v[key]`: throws if `v` is not an object or has no such member. -/
def Variant.get : Variant → String → Except Exn Variant
  | .object fields, key =>
    match fields.lookup key with
    | some v => .ok v
    | none => .error .fc
  | _, _ => .error .fc

/-- The text of a JSON value, which is never empty. -/
structure JsonText where
  text : String
  nonempty : text ≠ ""
  deriving DecidableEq

/-- The initial value of `json_str`. -/
def JsonText.emptyObject : JsonText := ⟨"{}", by decide⟩

def JsonText.emptyArray : JsonText := ⟨"[]", by decide⟩
def JsonText.null : JsonText := ⟨"null", by decide⟩

/-! ## Actions, traces and blocks -/

abbrev Bytes := List UInt8

structure PermissionLevel where
  actor : Name
  permission : Name
  deriving DecidableEq

def PermissionLevel.toVariant (p : PermissionLevel) : Variant :=
  .object [("actor", .string p.actor.str), ("permission", .string p.permission.str)]

structure Action where
  account : Name
  name : Name
  authorization : List PermissionLevel
  data : Bytes
  deriving DecidableEq

/-- An action as it was executed for `receiver`, with the actions it sent inline. -/
inductive ActionTrace
  | mk (receiver : Name) (act : Action) (inlineTraces : List ActionTrace)

namespace ActionTrace

def receiver : ActionTrace → Name
  | ⟨r, _, _⟩ => r

def act : ActionTrace → Action
  | ⟨_, a, _⟩ => a

def inlineTraces : ActionTrace → List ActionTrace
  | ⟨_, _, ts⟩ => ts

end ActionTrace

/-- A block time, as its number of half seconds. -/
structure BlockTimestamp where
  slot : Nat
  deriving DecidableEq

inductive TransactionStatus
  | executed
  | softFail
  | hardFail
  | delayed
  | expired
  deriving DecidableEq, Repr

/-- A transaction trace. The signal is emitted for failed transactions as
well: then `except` is set, or the receipt is missing or has another status
than `executed`. -/
structure TransactionTrace where
  id : String
  blockNum : UInt32
  blockTime : BlockTimestamp
  receipt : Option TransactionStatus
  except : Option String
  actionTraces : List ActionTrace

def TransactionTrace.failed (tt : TransactionTrace) : Prop :=
  tt.except ≠ none ∨ tt.receipt ≠ some .executed

structure Transaction where
  id : String
  actions : List Action

/-- What a block has of a transaction: its id, or the packed transaction. -/
inductive TransactionReceipt
  | id (id : String)
  | packed (raw : Bytes)

structure BlockState where
  timestamp : BlockTimestamp
  transactions : List TransactionReceipt

/-! ## Unpacked actions -/

/-- The texts of an authority's keys. -/
structure Authority where
  keys : List String

structure NewAccount where
  name : Name
  owner : Authority
  active : Authority

structure SetAbi where
  account : Name
  abi : Bytes

structure Asset where
  amount : Int64
  precision : UInt8
  symbolName : String
  deriving DecidableEq

/-- The library functions the plugin calls. -/
structure ChainLib where
  AbiDef : Type
  Serializer : Type
  /-- `fc::json::from_string` -/
  fromString : String → Except Exn Variant
  /-- `fc::json::to_string` -/
  toJson : Variant → JsonText
  /-- `as<chain::name>()`, `as<chain::asset>()` and `as<chain::abi_def>()` -/
  asName : Variant → Except Exn Name
  asAsset : Variant → Except Exn Asset
  asAbiDef : Variant → Except Exn AbiDef
  abiDefVariant : AbiDef → Variant
  /-- `chain::eosio_contract_abi` of an empty `abi_def` -/
  eosioContractAbi : AbiDef
  /-- `abi_serializer::set_abi`, `get_action_type` and `binary_to_variant` -/
  setAbi : AbiDef → Except Exn Serializer
  getActionType : Serializer → Name → String
  binaryToVariant : Serializer → String → Bytes → Except Exn Variant
  /-- `fc::raw::unpack` -/
  unpackNewaccount : Bytes → Except Exn NewAccount
  unpackSetabi : Bytes → Except Exn SetAbi
  unpackAbiDef : Bytes → Except Exn AbiDef
  unpackTransaction : Bytes → Except Exn Transaction
  secSinceEpoch : BlockTimestamp → Nat

/-! ## A library to run the model with -/

/-- The abis of the examples: of a contract whose `ping` is a text, one in
which `setabi` is a text, one with `voteproducer`, and one with nothing in
it, not even a version. -/
inductive SampleAbi
  | ping
  | setabi
  | vote
  | empty

/-- An abi with one action. -/
def abiVariant (structs : List Variant) (name type : String) : Variant :=
  .object [("version", .string "eosio::abi/1.0"), ("structs", .array structs), ("actions", .array
    [.object [("name", .string name), ("type", .string type), ("ricardian_contract", .string "")]])]

def fieldVariant (name type : String) : Variant := .object [("name", .string name), ("type", .string type)]

namespace SampleAbi

def variant : SampleAbi → Variant
  | ping => abiVariant [] "ping" "string"
  | setabi => abiVariant [] "setabi" "string"
  | vote =>
    abiVariant [.object [("name", .string "voteproducer"), ("base", .string ""), ("fields", .array
      [fieldVariant "voter" "name", fieldVariant "proxy" "name", fieldVariant "producers" "name[]"])]]
      "voteproducer" "voteproducer"
  | empty => .object [("version", .string ""), ("types", .array []), ("structs", .array []),
    ("actions", .array []), ("tables", .array []), ("ricardian_clauses", .array []),
    ("error_messages", .array []), ("abi_extensions", .array [])]

/-- Its JSON, in which a brace is written by its code. -/
def text : SampleAbi → String
  | ping => "\x7b\"version\":\"eosio::abi/1.0\",\"structs\":[],\"actions\":[\x7b\"name\":\"ping\",\"type\":\"string\",\"ricardian_contract\":\"\"\x7d]\x7d"
  | setabi => "\x7b\"version\":\"eosio::abi/1.0\",\"structs\":[],\"actions\":[\x7b\"name\":\"setabi\",\"type\":\"string\",\"ricardian_contract\":\"\"\x7d]\x7d"
  | vote => "\x7b\"version\":\"eosio::abi/1.0\",\"structs\":[\x7b\"name\":\"voteproducer\",\"base\":\"\",\"fields\":[\x7b\"name\":\"voter\",\"type\":\"name\"\x7d,\x7b\"name\":\"proxy\",\"type\":\"name\"\x7d,\x7b\"name\":\"producers\",\"type\":\"name[]\"\x7d]\x7d],\"actions\":[\x7b\"name\":\"voteproducer\",\"type\":\"voteproducer\",\"ricardian_contract\":\"\"\x7d]\x7d"
  | empty => "\x7b\"version\":\"\",\"types\":[],\"structs\":[],\"actions\":[],\"tables\":[],\"ricardian_clauses\":[],\"error_messages\":[],\"abi_extensions\":[]\x7d"

/-- The abi with the JSON. -/
def ofText? (s : String) : Option SampleAbi :=
  [ping, setabi, vote, empty].find? fun abi => abi.text = s

def ofVariant? : Variant → Option SampleAbi
  | .object [_, _, ("actions", .array [.object [("name", .string n), _, _]])] =>
    if n = "ping" then some ping else if n = "setabi" then some setabi
    else if n = "voteproducer" then some vote else none
  | .object (("version", .string "") :: _) => some empty
  | _ => none

def json (abi : SampleAbi) : JsonText := ⟨abi.text, by cases abi <;> simp [text]⟩

/-- The type of an action, or the empty text. -/
def actionType : SampleAbi → Name → String
  | ping, n => if n.str = "ping" then "string" else ""
  | setabi, n => if n.str = "setabi" then "string" else ""
  | vote, n => if n.str = "voteproducer" then "voteproducer" else ""
  | empty, _ => ""

end SampleAbi

def pinger : Name := ⟨"pinger", by decide⟩

/-- A `ping` with the text `?`. -/
def badPing : Action := ⟨pinger, ⟨"ping", by decide⟩, [], [1, 63]⟩

/-- A transaction of `badPing`. -/
def pingTransaction : Transaction :=
  ⟨"fefd4ed3a278ef2443cf58434164677fa67d48366c0e7aefd2b58a9e2551d50c", [badPing]⟩

/-- `pingTransaction`, packed. -/
def packedPing : Bytes :=
  List.replicate 14 0 ++ [1, 0, 0, 0, 0, 0x5c, 0xc5, 0xa6, 0xab, 0, 0, 0, 0, 0, 0xc0, 0xa6, 0xab, 0,
    2, 1, 63, 0]

def transfer : Name := ⟨"transfer", by decide⟩

/-- A transaction of a `transfer` with a byte that is no payload. -/
def transferTransaction : Transaction :=
  ⟨"d390778f05316e26bffdc5665added1b79961667bf164743dfa8c83f61233587",
    [⟨.eosioToken, transfer, [], [0]⟩]⟩

/-- `transferTransaction`, packed. -/
def packedTransfer : Bytes :=
  List.replicate 14 0 ++ [1, 0, 0xa6, 0x82, 0x34, 3, 0xea, 0x30, 0x55, 0, 0, 0, 0x57, 0x2d, 0x3c, 0xcd,
    0xcd, 0, 1, 0, 0]

/-- The library on the inputs of the examples. -/
def ChainLib.sample : ChainLib where
  AbiDef := SampleAbi
  Serializer := SampleAbi
  fromString text :=
    if text = "\x7b\x7d" then .ok (.object [])
    else if text = "\"?\"" then .ok (.string "?")
    else match SampleAbi.ofText? text with
      | some abi => .ok abi.variant
      | none => .error .fc
  toJson
    | .object [] => .emptyObject
    | .string "?" => ⟨"\"?\"", by decide⟩
    | .array _ => ⟨"[]", by decide⟩
    | v => ((SampleAbi.ofVariant? v).map SampleAbi.json).getD ⟨"null", by decide⟩
  asName
    | .string s => if h : isNameText s.toList = true then .ok ⟨s, h⟩ else .error .fc
    | _ => .error .fc
  asAsset _ := .error .fc
  asAbiDef v :=
    match SampleAbi.ofVariant? v with
    | some abi => .ok abi
    | none => .error .fc
  abiDefVariant := SampleAbi.variant
  eosioContractAbi := .empty
  setAbi := .ok
  getActionType := SampleAbi.actionType
  binaryToVariant _ type data :=
    if type = "string" ∧ data = [1, 63] then .ok (.string "?") else .error .fc
  unpackNewaccount _ := .error .fc
  -- `setabi` of the empty abi for `eosio`
  unpackSetabi data :=
    if data = [0, 0, 0, 0, 0, 0xea, 0x30, 0x55, 8] ++ List.replicate 8 0 then
      .ok ⟨.systemAccountName, List.replicate 8 0⟩
    else .error .fc
  unpackAbiDef data := if data = List.replicate 8 0 then .ok .empty else .error .fc
  unpackTransaction raw :=
    if raw = packedPing then .ok pingTransaction
    else if raw = packedTransfer then .ok transferTransaction
    else .error .fc
  secSinceEpoch time := time.slot / 2 + 946684800

/-! ## A library with the abi of the system contract -/

/-- The abi `eosio_contract_abi`, of which only `newaccount` is needed, and
an abi of `eosio.msig` with `cancel`. -/
inductive SystemAbi
  | eosio
  | msig

def alice : Name := ⟨"alice", by decide⟩

def aliceKey : String := "EOS6MRyAjQq8ud7hVNYcfnVPJqcVpscN5So8BhtHuGYqET5GDW5CV"

/-- An authority of one key, packed. -/
def packedAuthority : Bytes :=
  [1, 0, 0, 0, 1, 0, 0x02, 0xc0, 0xde, 0xd2, 0xbc, 0x1f, 0x13, 0x05, 0xfb, 0x0f, 0xaa, 0xc5, 0xe6,
    0xc0, 0x3e, 0xe3, 0xa1, 0x92, 0x42, 0x34, 0x98, 0x54, 0x27, 0xb6, 0x16, 0x7c, 0xa5, 0x69, 0xd1,
    0x3d, 0xf4, 0x35, 0xcf, 1, 0, 0, 0]

/-- `newaccount` of `alice` by `eosio`, with the same key for both permissions. -/
def packedNewaccount : Bytes :=
  [0, 0, 0, 0, 0, 0xea, 0x30, 0x55, 0, 0, 0, 0, 0, 0x85, 0x5c, 0x34] ++
    (packedAuthority ++ packedAuthority)

def newaccountAlice : NewAccount := ⟨alice, ⟨[aliceKey]⟩, ⟨[aliceKey]⟩⟩

def authorityVariant : Variant :=
  .object [("threshold", .uint64 1), ("keys", .array
    [.object [("key", .string aliceKey), ("weight", .uint64 1)]]), ("accounts", .array []),
    ("waits", .array [])]

def newaccountVariant : Variant :=
  .object [("creator", .string "eosio"), ("name", .string "alice"), ("owner", authorityVariant),
    ("active", authorityVariant)]

def newaccountJson : JsonText :=
  ⟨"\x7b\"creator\":\"eosio\",\"name\":\"alice\",\"owner\":\x7b\"threshold\":1,\"keys\":[\x7b\"key\":\"EOS6MRyAjQq8ud7hVNYcfnVPJqcVpscN5So8BhtHuGYqET5GDW5CV\",\"weight\":1\x7d],\"accounts\":[],\"waits\":[]\x7d,\"active\":\x7b\"threshold\":1,\"keys\":[\x7b\"key\":\"EOS6MRyAjQq8ud7hVNYcfnVPJqcVpscN5So8BhtHuGYqET5GDW5CV\",\"weight\":1\x7d],\"accounts\":[],\"waits\":[]\x7d\x7d",
    by simp⟩

/-- `cancel` of the proposal `pay` of `alice` by herself. -/
def cancelVariant : Variant :=
  .object [("proposer", .string "alice"), ("proposal_name", .string "pay"), ("canceler", .string "alice")]

def cancelJson : JsonText :=
  ⟨"\x7b\"proposer\":\"alice\",\"proposal_name\":\"pay\",\"canceler\":\"alice\"\x7d", by simp⟩

def packedAlice : Bytes := [0, 0, 0, 0, 0, 0x85, 0x5c, 0x34]
def packedBob : Bytes := [0, 0, 0, 0, 0, 0, 0x0e, 0x3d]
def packedActive : Bytes := [0, 0, 0, 0, 0xa8, 0xed, 0x32, 0x32]
def packedPay : Bytes := [0, 0, 0, 0, 0, 0, 0xbc, 0xa9]
def packedSend : Bytes := [0, 0, 0, 0, 0, 0x90, 0xa6, 0xc2]

def packedCancel : Bytes := packedAlice ++ packedPay ++ packedAlice

namespace SystemAbi

def variant : SystemAbi → Variant
  | eosio => .object [("version", .string "eosio::abi/1.0")]
  | msig =>
    abiVariant [.object [("name", .string "cancel"), ("base", .string ""), ("fields", .array
      [fieldVariant "proposer" "name", fieldVariant "proposal_name" "name",
        fieldVariant "canceler" "name"])]]
      "cancel" "cancel"

def json : SystemAbi → JsonText
  | eosio => ⟨"\x7b\"version\":\"eosio::abi/1.0\"\x7d", by simp⟩
  | msig =>
    ⟨"\x7b\"version\":\"eosio::abi/1.0\",\"structs\":[\x7b\"name\":\"cancel\",\"base\":\"\",\"fields\":[\x7b\"name\":\"proposer\",\"type\":\"name\"\x7d,\x7b\"name\":\"proposal_name\",\"type\":\"name\"\x7d,\x7b\"name\":\"canceler\",\"type\":\"name\"\x7d]\x7d],\"actions\":[\x7b\"name\":\"cancel\",\"type\":\"cancel\",\"ricardian_contract\":\"\"\x7d]\x7d",
      by simp⟩

def actionType : SystemAbi → Name → String
  | eosio, n => if n.str = "newaccount" then "newaccount" else ""
  | msig, n => if n.str = "cancel" then "cancel" else ""

end SystemAbi

/-- The library on `newaccountAlice` and on `cancelVariant`. -/
def ChainLib.system : ChainLib where
  AbiDef := SystemAbi
  Serializer := SystemAbi
  fromString text :=
    if text = "\x7b\x7d" then .ok (.object [])
    else if text = SystemAbi.msig.json.text then .ok SystemAbi.msig.variant
    else if text = SystemAbi.eosio.json.text then .ok SystemAbi.eosio.variant
    else if text = newaccountJson.text then .ok newaccountVariant
    else if text = cancelJson.text then .ok cancelVariant
    else .error .fc
  toJson
    | .object [] => .emptyObject
    | .object (("creator", _) :: _) => newaccountJson
    | .object (("proposer", _) :: _) => cancelJson
    | .object [_] => SystemAbi.eosio.json
    | .object _ => SystemAbi.msig.json
    | .array _ => ⟨"[]", by decide⟩
    | _ => ⟨"null", by decide⟩
  asName
    | .string s => if h : isNameText s.toList = true then .ok ⟨s, h⟩ else .error .fc
    | _ => .error .fc
  asAsset _ := .error .fc
  asAbiDef
    | .object [_] => .ok .eosio
    | .object [_, _, _] => .ok .msig
    | _ => .error .fc
  abiDefVariant := SystemAbi.variant
  eosioContractAbi := .eosio
  setAbi := .ok
  getActionType := SystemAbi.actionType
  binaryToVariant _ type data :=
    if type = "newaccount" ∧ data = packedNewaccount then .ok newaccountVariant
    else if type = "cancel" ∧ data = packedCancel then .ok cancelVariant
    else .error .fc
  unpackNewaccount data := if data = packedNewaccount then .ok newaccountAlice else .error .fc
  unpackSetabi _ := .error .fc
  unpackAbiDef _ := .error .fc
  unpackTransaction _ := .error .fc
  secSinceEpoch time := time.slot / 2 + 946684800

end SqlDb
