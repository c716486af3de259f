import SqlDbPlugin.Lib.Listing
import SqlDbPlugin.Mirror.AbiStore

/-!
# Changes

What statements change in the tables, as data: the abis they store, the
accounts they name, the rows they append to `accounts_keys` and `actions`,
and what they write at the keys of the other tables. `Changes.Made` says
that one database is another with changes made to it, and `Made.append`
that changes are made one after another. Each statement makes its own
(`made_upsertAbi` and so on), and so does each `Write` of `parse_actions`
(`made_apply`).
-/

namespace SqlDb

open ActionsTable (Write keyRows)

structure Changes where
  abis : List (String × Option JsonText) := []
  accounts : List String := []
  accountsKeys : List AccountKeyRow := []
  actions : List ActionRow := []
  assets : List ((String × String) × Option AssetRow) := []
  votes : List (String × Option VoteRow) := []
  proposal : List ((String × String) × Option ProposalRow) := []

namespace Changes

/-- First `c`, then `c'`. -/
def append (c c' : Changes) : Changes where
  abis := c.abis ++ c'.abis
  accounts := c.accounts ++ c'.accounts
  accountsKeys := c.accountsKeys ++ c'.accountsKeys
  actions := c.actions ++ c'.actions
  assets := c.assets ++ c'.assets
  votes := c.votes ++ c'.votes
  proposal := c.proposal ++ c'.proposal

instance : Append Changes := ⟨append⟩

/-- One after another. -/
def join (cs : List Changes) : Changes := cs.foldr (· ++ ·) {}

theorem empty_append (c : Changes) : ({} : Changes) ++ c = c := rfl

theorem append_assoc (a b c : Changes) : a ++ b ++ c = a ++ (b ++ c) := by
  show append (append a b) c = append a (append b c)
  simp [append]

theorem join_append (xs ys : List Changes) : join (xs ++ ys) = join xs ++ join ys := by
  induction xs with
  | nil => exact (empty_append _).symm
  | cons c xs ih =>
    show c ++ join (xs ++ ys) = c ++ join xs ++ join ys
    rw [ih, append_assoc]

/-- The database `d'` is `d` with the changes made: an account has a row if
it had one or is named, and the abi last stored; rows are appended; at each
key of the other tables stands what was last written there, and `assets` and
`proposal` list their rows as the writes, one after the other, leave them. -/
structure Made (c : Changes) (d d' : Db) : Prop where
  abis (n : String) : d'.abiOf n = lastWrite d.abiOf c.abis n
  accounts (n : String) : (d'.accounts.find? n).isSome ↔ (d.accounts.find? n).isSome ∨ n ∈ c.accounts
  accountsKeys : d'.accountsKeys = d.accountsKeys ++ c.accountsKeys
  actions : d'.actions = d.actions ++ c.actions
  assets (k : String × String) : d'.assets.find? k = lastWrite d.assets.find? c.assets k
  votes (k : String) : d'.votes.find? k = lastWrite d.votes.find? c.votes k
  proposal (k : String × String) : d'.proposal.find? k = lastWrite d.proposal.find? c.proposal k
  assetsListed : d'.assets.contents = c.assets.foldl (replaceWrite AssetRow.key) d.assets.contents
  proposalListed : d'.proposal.contents = c.proposal.foldl (upsertWrite ProposalRow.key) d.proposal.contents

namespace Made

variable {c c' : Changes} {d d' d'' : Db}

theorem refl (d : Db) : Made {} d d where
  abis _ := rfl
  accounts _ := by simp
  accountsKeys := (List.append_nil _).symm
  actions := (List.append_nil _).symm
  assets _ := rfl
  votes _ := rfl
  proposal _ := rfl
  assetsListed := rfl
  proposalListed := rfl

theorem append (h : c.Made d d') (h' : c'.Made d' d'') : (c ++ c').Made d d'' where
  abis n := by
    show _ = lastWrite d.abiOf (c.abis ++ c'.abis) n
    rw [h'.abis, funext h.abis, lastWrite_append]
  accounts n := by
    show _ ↔ _ ∨ n ∈ c.accounts ++ c'.accounts
    rw [h'.accounts, h.accounts, List.mem_append, or_assoc]
  accountsKeys := by rw [h'.accountsKeys, h.accountsKeys, List.append_assoc]; rfl
  actions := by rw [h'.actions, h.actions, List.append_assoc]; rfl
  assets k := by
    show _ = lastWrite d.assets.find? (c.assets ++ c'.assets) k
    rw [h'.assets, funext h.assets, lastWrite_append]
  votes k := by
    show _ = lastWrite d.votes.find? (c.votes ++ c'.votes) k
    rw [h'.votes, funext h.votes, lastWrite_append]
  proposal k := by
    show _ = lastWrite d.proposal.find? (c.proposal ++ c'.proposal) k
    rw [h'.proposal, funext h.proposal, lastWrite_append]
  assetsListed := by
    show _ = (c.assets ++ c'.assets).foldl (replaceWrite AssetRow.key) d.assets.contents
    rw [h'.assetsListed, h.assetsListed, List.foldl_append]
  proposalListed := by
    show _ = (c.proposal ++ c'.proposal).foldl (upsertWrite ProposalRow.key) d.proposal.contents
    rw [h'.proposalListed, h.proposalListed, List.foldl_append]

end Made

/-! ## Statements -/

/-- The changes of a statement that stores an abi. -/
def ofAbi (s : String × JsonText) : Changes := { abis := [(s.1, some s.2)], accounts := [s.1] }

variable (d : Db)

theorem made_upsertAbi (name : String) (abi : JsonText) :
    (ofAbi (name, abi)).Made d (d.upsertAbi name abi) where
  abis n := by rw [abiOf_upsertAbi]; exact (lastWrite_singleton _ (name, some abi) n).symm
  accounts n := by
    rw [Db.find?_upsertAbi]
    by_cases hn : n = name <;> simp [ofAbi, hn]
  accountsKeys := (List.append_nil _).symm
  actions := (List.append_nil _).symm
  assets _ := rfl
  votes _ := rfl
  proposal _ := rfl
  assetsListed := rfl
  proposalListed := rfl

theorem made_upsertAccount (name : String) :
    ({ accounts := [name] } : Changes).Made d (d.upsertAccount name) where
  abis n := abiOf_upsertAccount name d n
  accounts n := by
    rw [Db.upsertAccount, Table.find?_upsert]
    by_cases hn : n = name <;> simp [hn]
  accountsKeys := (List.append_nil _).symm
  actions := (List.append_nil _).symm
  assets _ := rfl
  votes _ := rfl
  proposal _ := rfl
  assetsListed := rfl
  proposalListed := rfl

theorem made_insertAction (row : ActionRow) :
    ({ actions := [row] } : Changes).Made d (d.insertAction row) :=
  { Made.refl d with actions := rfl }

/-- The `INSERT`s of the keys of an account. -/
theorem made_insertKeys (rows : List AccountKeyRow) :
    ({ accountsKeys := rows } : Changes).Made d { d with accountsKeys := d.accountsKeys ++ rows } :=
  { Made.refl d with accountsKeys := rfl }

theorem made_upsertVote (row : VoteRow) :
    ({ votes := [(row.voter, some row)] } : Changes).Made d (d.upsertVote row) :=
  { Made.refl d with
    votes := fun k => by
      rw [lastWrite_singleton]
      show (d.votes.upsert ..).find? k = _
      rw [Table.find?_upsert]
      rcases h : d.votes.find? row.voter with _ | r
      · rfl
      · rw [Option.elim_some, Table.key_of_find? h] }

theorem made_upsertProposal (row : ProposalRow) :
    ({ proposal := [(row.key, some row)] } : Changes).Made d (d.upsertProposal row) :=
  { Made.refl d with
    proposal := fun k => by
      rw [lastWrite_singleton]
      show (d.proposal.upsert ..).find? k = _
      rw [Table.find?_upsert]
      rcases d.proposal.find? row.key with _ | r <;> rfl
    proposalListed := Table.contents_upsert d.proposal row fun _ _ => rfl }

theorem made_deleteProposal (proposer proposalName : String) :
    ({ proposal := [((proposer, proposalName), none)] } : Changes).Made d
      (d.deleteProposal proposer proposalName) :=
  { Made.refl d with
    proposal := fun k => by
      rw [lastWrite_singleton]
      exact Table.find?_erase d.proposal (proposer, proposalName) k
    proposalListed := Table.contents_erase d.proposal (proposer, proposalName) }

theorem made_replaceAsset (row : AssetRow) :
    ({ assets := [(row.key, some row)] } : Changes).Made d (d.replaceAsset row) :=
  { Made.refl d with
    assets := fun k => by
      rw [lastWrite_singleton]
      exact Table.find?_replace d.assets row k
    assetsListed := Table.contents_replace d.assets row }

end Changes

/-- What a write of `parse_actions` changes. -/
def ActionsTable.Write.changes : Write → Changes
  | .account a =>
    { accounts := [a.name.str]
      accountsKeys := keyRows a.name "owner" a.owner.keys ++ keyRows a.name "active" a.active.keys }
  | .vote row => { votes := [(row.voter, some row)] }
  | .propose row => { proposal := [(row.key, some row)] }
  | .unpropose proposer proposalName => { proposal := [((proposer, proposalName), none)] }
  | .asset row => { assets := [(row.key, some row)] }

theorem Changes.made_apply (w : Write) (d : Db) : w.changes.Made d (w.apply d) := by
  cases w with
  | account a => exact (made_upsertAccount d a.name.str).append (made_insertKeys _ _)
  | vote row => exact made_upsertVote d row
  | propose row => exact made_upsertProposal d row
  | unpropose proposer proposalName => exact made_deleteProposal d proposer proposalName
  | asset row => exact made_replaceAsset d row

end SqlDb
