import SqlDbPlugin.Database.ActionsTable

/-!
# `sql_database`

`database.cpp` and the two functions of `accounts_table.cpp` it uses. What
consumes a trace or a block is given the call of `actions_table::add` it
makes, over any database `δ`: `SqlDatabase.add` is the plugin's, and
`Sql.logged` makes one whose calls are logged. The block's call obtains its
session as one of its arguments (`SqlDatabase.addWithSession`), the trace's
is handed the one obtained at the start.
-/

namespace SqlDb

open Sql (lift guarded query statement each)
open ActionsTable (AddArgs)

namespace AccountsTable

/-- `accounts_table::exist`. `amount` is what its uninitialised local holds,
which only the handler for `soci::mysql_soci_error` leaves there. -/
def exist (amount : Int) (name : String) : SqlM Bool :=
  tryCatch (do
    let count ← query fun d => (d.accounts.contents.filter fun r => r.name = name).length
    return decide (count > 0))
    fun
    | .soci => pure (decide (amount > 0))
    | .std => pure false
    | e => throw e

/-- `INSERT INTO accounts (name, abi)`: an error if there is such a row. -/
def addEosio (name : String) (abi : JsonText) : SqlM Unit :=
  guarded <| statement fun d =>
    match d.accounts.insert { name, abi := some abi } with
    | some accounts => .ok ((), { d with accounts })
    | none => .error .soci

end AccountsTable

/-- The members of `sql_database` besides its tables and the session pool. -/
structure SqlDatabase where
  mBlockNumStart : UInt32
  systemAccount : String := Name.systemAccountName.str
  mActionFilterOn : List String := []
  mContractFilterOut : List String := []

namespace SqlDatabase

variable {δ : Type}

/-- `m_session_pool->get_session()`, which may fail, and writes nothing. -/
def getSession : Sql Exn δ Unit := query fun _ => ()

def wipe (L : ChainLib) (db : SqlDatabase) : SqlM Unit := do
  getSession
  AccountsTable.addEosio db.systemAccount (L.toJson (L.abiDefVariant L.eosioContractAbi))

def isStarted (db : SqlDatabase) (amount : Int) : SqlM Bool := do
  getSession
  AccountsTable.exist amount db.systemAccount

/-! ## Traces -/

mutual

def dfsInlineTraces (add : AddArgs → Sql Exn δ Bool) (transactionId : String)
    (blockTime : BlockTimestamp) : List ActionTrace → Sql Exn δ Unit
  | [] => pure ()
  | atc :: trace => do
    dfsInlineTrace add transactionId blockTime atc
    dfsInlineTraces add transactionId blockTime trace

/-- The body of the loop of `dfs_inline_traces`. -/
def dfsInlineTrace (add : AddArgs → Sql Exn δ Bool) (transactionId : String)
    (blockTime : BlockTimestamp) : ActionTrace → Sql Exn δ Unit
  | ⟨receiver, act, inlineTraces⟩ =>
    if receiver = act.account then do
      let isSuccess ← add ⟨act, transactionId, blockTime⟩
      if !isSuccess ∧ inlineTraces.length ≠ 0 then
        dfsInlineTraces add transactionId blockTime inlineTraces
    else
      pure ()

end

def consumeTransactionTrace (add : AddArgs → Sql Exn δ Bool) (tc : TransactionTrace) :
    Sql Exn δ Unit := do
  getSession
  dfsInlineTraces add tc.id tc.blockTime tc.actionTraces

/-! ## Blocks -/

/-- `trx.actions.size() == 1 && trx.actions[0].name.to_string() == "onblock"` -/
def isOnblock : List Name → Bool
  | [name] => name.str == "onblock"
  | _ => false

/-- The body of the loop over the receipts of a block. -/
def consumeReceipt (L : ChainLib) (add : AddArgs → Sql Exn δ Bool) (timestamp : BlockTimestamp) :
    TransactionReceipt → Sql Exn δ Unit
  | .id _ => pure ()
  | .packed raw => do
    let trx ← lift (L.unpackTransaction raw)
    if isOnblock (trx.actions.map Action.name) then
      return ()
    else
      each (fun action => add ⟨action, trx.id, timestamp⟩) trx.actions

def consumeBlockState (L : ChainLib) (add : AddArgs → Sql Exn δ Bool) (bs : BlockState) :
    Sql Exn δ Unit :=
  each (consumeReceipt L add bs.timestamp) bs.transactions

/-! ## The calls of `actions_table::add` -/

/-- `m_actions_table->add(session, ..., m_action_filter_on)` -/
def add (L : ChainLib) (db : SqlDatabase) (a : AddArgs) : SqlM Bool :=
  ActionsTable.add L db.mActionFilterOn a

/-- `m_actions_table->add(m_session_pool->get_session(), ..., m_action_filter_on)` -/
def addWithSession (L : ChainLib) (db : SqlDatabase) (a : AddArgs) : SqlM Bool := do
  getSession
  add L db a

end SqlDatabase

end SqlDb
