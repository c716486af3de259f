import SqlDbPlugin.Chain
import SqlDbPlugin.Lib.Sql
import SqlDbPlugin.Lib.Table

/-!
# The tables of `eos.sql` and the statements on them

The tables the plugin writes while it runs, with the columns its statements
set and the unique keys `eos.sql` declares: `accounts` (`name`), `assets`
(`symbol`, `contract_owner`), `votes` (`voter`) and `proposal` (`proposer`,
`proposal_name`). `actions` and `accounts_keys` have no key but their
auto-increment id, and rows are only ever appended to them, so they are
lists. The columns `created_at` and `updated_at` that default to the time of
the statement are left out.

The keys are names and asset symbols, on whose texts the collation of the
columns is equality.
-/

namespace SqlDb

structure AccountRow where
  name : String
  abi : Option JsonText := none
  deriving DecidableEq

structure AccountKeyRow where
  account : String
  publicKey : String
  permission : String
  deriving DecidableEq

structure ActionRow where
  account : String
  createdAt : Nat
  name : String
  data : JsonText
  authorization : JsonText
  transactionId : String
  eosto : String
  eosfrom : String
  receiver : String
  payer : String
  newaccount : String
  sellramAccount : String
  deriving DecidableEq

structure AssetRow where
  supply : Int
  maxSupply : Int
  symbolPrecision : Nat
  symbol : String
  issuer : String
  contractOwner : String
  logoUrl : String := ""
  deriving DecidableEq

/-- `idx_symbol_owner` -/
def AssetRow.key (r : AssetRow) : String × String := (r.symbol, r.contractOwner)

structure VoteRow where
  voter : String
  proxy : String
  producers : JsonText
  deriving DecidableEq

structure ProposalRow where
  proposer : String
  proposalName : String
  requestedApprovals : String
  deriving DecidableEq

/-- `idx_proposer_proposal_name` -/
def ProposalRow.key (r : ProposalRow) : String × String := (r.proposer, r.proposalName)

structure Db where
  accounts : Table AccountRow AccountRow.name := .empty
  accountsKeys : List AccountKeyRow := []
  actions : List ActionRow := []
  assets : Table AssetRow AssetRow.key := .empty
  votes : Table VoteRow VoteRow.voter := .empty
  proposal : Table ProposalRow ProposalRow.key := .empty

abbrev SqlM := Sql Exn Db

namespace Db

/-- The abi stored for `name`, if any. -/
def abiOf (d : Db) (name : String) : Option JsonText := (d.accounts.find? name).bind (·.abi)

/-- `INSERT INTO accounts (name, abi) ... ON DUPLICATE KEY UPDATE abi = :abi` -/
def upsertAbi (name : String) (abi : JsonText) (d : Db) : Db :=
  { d with
    accounts := d.accounts.upsert { name, abi := some abi } ({ · with abi := some abi }) fun _ => id }

/-- `INSERT INTO accounts (name) ... ON DUPLICATE KEY UPDATE name = :name` -/
def upsertAccount (name : String) (d : Db) : Db :=
  { d with
    accounts := d.accounts.upsert { name } ({ · with name }) fun _ _ => rfl }

/-- `INSERT INTO accounts_keys` -/
def insertKey (r : AccountKeyRow) (d : Db) : Db := { d with accountsKeys := d.accountsKeys ++ [r] }

/-- `INSERT INTO actions` -/
def insertAction (r : ActionRow) (d : Db) : Db := { d with actions := d.actions ++ [r] }

/-- `INSERT INTO votes ... ON DUPLICATE KEY UPDATE proxy = :pro, producers = :pd` -/
def upsertVote (r : VoteRow) (d : Db) : Db :=
  { d with
    votes := d.votes.upsert r ({ · with proxy := r.proxy, producers := r.producers }) fun _ => id }

/-- `INSERT INTO proposal ... ON DUPLICATE KEY UPDATE` of all three columns -/
def upsertProposal (r : ProposalRow) (d : Db) : Db :=
  { d with
    proposal := d.proposal.upsert r (fun _ => r) fun _ _ => rfl }

/-- `DELETE FROM proposal WHERE proposer = :pro and proposal_name = :proname` -/
def deleteProposal (proposer proposalName : String) (d : Db) : Db :=
  { d with proposal := d.proposal.erase (proposer, proposalName) }

/-- `REPLACE INTO assets` -/
def replaceAsset (r : AssetRow) (d : Db) : Db := { d with assets := d.assets.replace r }

/-- The same rows in each table, up to their ids and their order. -/
structure SameContents (d d' : Db) : Prop where
  accounts : d.accounts.contents.Perm d'.accounts.contents
  accountsKeys : d.accountsKeys.Perm d'.accountsKeys
  actions : d.actions.Perm d'.actions
  assets : d.assets.contents.Perm d'.assets.contents
  votes : d.votes.contents.Perm d'.votes.contents
  proposal : d.proposal.contents.Perm d'.proposal.contents

theorem SameContents.refl (d : Db) : SameContents d d := ⟨.refl _, .refl _, .refl _, .refl _, .refl _, .refl _⟩

theorem find?_upsertAbi (n : String) (abi : JsonText) (d : Db) (k : String) :
    (d.upsertAbi n abi).accounts.find? k = if k = n then some ⟨n, some abi⟩ else d.accounts.find? k := by
  rw [upsertAbi, Table.find?_upsert]
  by_cases hk : k = n
  · rw [if_pos hk, if_pos hk]
    rcases h : d.accounts.find? n with _ | r
    · rfl
    · rw [Option.elim_some, ← Table.key_of_find? h]
  · rw [if_neg hk, if_neg hk]

/-- Storing an abi once more changes no contents. -/
theorem upsertAbi_upsertAbi (n : String) (abi : JsonText) (d : Db) :
    SameContents (d.upsertAbi n abi) ((d.upsertAbi n abi).upsertAbi n abi) where
  accounts := Table.contents_perm_iff.mpr fun k => by
    rw [find?_upsertAbi n abi (d.upsertAbi n abi), find?_upsertAbi]
    split
    · rfl
    · rfl
  accountsKeys := .refl _
  actions := .refl _
  assets := .refl _
  votes := .refl _
  proposal := .refl _

end Db

end SqlDb
