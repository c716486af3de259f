import SqlDbPlugin.Api.Tokens
import SqlDbPlugin.Database.Faults
import SqlDbPlugin.Mirror.DerivedTables

/-!
# Assets that are created again

`parse_actions` records a `create` by `REPLACE`, which deletes the row of
the asset and inserts one: with a new id, behind all others, and without a
logo. So a known asset keeps its row only if the `SELECT` or the `REPLACE`
fails, and its place only then or if it is the last (`recreated_asset`).
-/

namespace SqlDb

open Sql (guarded)
open ActionsTable (interpreted assetOf parseActions parseCreate_eq)

variable {L : ChainLib}

/-- A `create` that is processed, of an account other than `eosio` and
`eosio.msig`, with an issuer and a positive maximum supply, whose asset has
a row already; and how the statements go. -/
structure Recreate (L : ChainLib) where
  before : World Exn Db
  action : Action
  row : AssetRow
  change : assetChange L ⟨before.db, action⟩ = some (row.key, some row)
  known : row.key ∈ before.db.assets.contents.map AssetRow.key

namespace Recreate

/-- The database when `parse_actions` has processed the action; `add` logs what it throws. -/
def after (c : Recreate L) : Db := ((guarded (parseActions L c.action)).run c.before).2.db

/-- The `SELECT` of the abi and the `REPLACE` succeed. -/
def Executed (c : Recreate L) : Prop := c.before.fault 0 = none ∧ c.before.fault 1 = none

instance (c : Recreate L) : Decidable c.Executed := inferInstanceAs (Decidable (_ ∧ _))

end Recreate

/-- The row of `k` has kept its id and its logo, and the others are as they were. -/
structure KeepsIdentity (t t' : Table AssetRow AssetRow.key) (k : String × String) : Prop where
  row : ∀ r ∈ t.rows, r.2.key = k → ∃ row, (r.1, row) ∈ t'.rows ∧ row.key = k ∧ row.logoUrl = r.2.logoUrl
  others : ∀ r : Nat × AssetRow, r.2.key ≠ k → (r ∈ t.rows ↔ r ∈ t'.rows)

/-- The assets that `get_assets` lists. -/
def listed (d : Db) : Except Exn (List (String × String)) :=
  ((ActionsTable.getAssets.run ⟨d, []⟩).1).map (List.map AssetRow.key)

/-- The assets on a page. -/
def listedPage (d : Db) (startNum pageSize : Int) : Except Exn (List (String × String)) :=
  (((ActionsTable.getAssetsPage startNum pageSize).run ⟨d, []⟩).1).map (List.map AssetRow.key)

/-! ## One action -/

/-- What `assetChange` says of the action and its payload. -/
theorem of_assetChange {d : Db} {action : Action} {row : AssetRow}
    (h : assetChange L ⟨d, action⟩ = some (row.key, some row)) :
    (action.account ≠ .systemAccountName ∧ action.account ≠ .eosioMsig ∧ action.name = .create) ∧
      ∃ v, interpreted L (d.abiOf action.account.str) action = some v ∧
        assetOf L action v = .ok (some row) := by
  rw [assetChange] at h
  split at h
  · rename_i hc
    obtain ⟨row', hrow, heq⟩ := Option.map_eq_some_iff.mp h
    obtain ⟨v, hv, hrow⟩ := Option.bind_eq_some_iff.mp hrow
    obtain rfl : row' = row := Option.some.inj (congrArg Prod.snd heq)
    refine ⟨hc, v, hv, ?_⟩
    rcases ha : assetOf L action v with e | r <;> rw [ha] at hrow
    · cases hrow
    · exact congrArg Except.ok hrow
  · cases h

theorem Recreate.after_assets (c : Recreate L) :
    c.after.assets = if c.Executed then c.before.db.assets.replace c.row else c.before.db.assets := by
  obtain ⟨⟨hsystem, hmsig, hname⟩, v, hv, hasset⟩ := of_assetChange c.change
  have hnext : c.before.next = c.before.fault 0 := World.next_skip c.before 0
  have hnext' : (c.before.after c.before.db).next = c.before.fault 1 := by
    rw [show c.before.after c.before.db = c.before.skip 1 from World.after_skip c.before 0, World.next_skip]
  rw [after, Sql.run_guarded]
  rcases h₀ : c.before.fault 0 with _ | e
  · rw [ActionsTable.parseActions_of_next hv (hnext.trans h₀), ActionsTable.parseData, if_neg hsystem,
      if_neg hmsig, if_pos hname, parseCreate_eq, hasset, Sql.run_bind, Sql.run_lift]
    dsimp only [Option.elim_some]
    rw [Sql.run_guarded, Sql.run_update_next, hnext']
    rcases h₁ : c.before.fault 1 with _ | e
    · rw [if_pos ⟨h₀, h₁⟩]
      rfl
    · rw [if_neg fun h => by rw [h.2] at h₁; cases h₁]
      rfl
  · rw [parseActions, ActionsTable.selectAbi, Sql.run_query_bind_error (hnext.trans h₀),
      if_neg fun h => by rw [h.1] at h₀; cases h₀]
    rfl

/-- The row is kept if and only if nothing is written. -/
theorem keepsIdentity_iff (c : Recreate L) :
    KeepsIdentity c.before.db.assets c.after.assets c.row.key ↔ ¬ c.Executed := by
  rw [c.after_assets]
  by_cases h : c.Executed
  · rw [if_pos h]
    refine ⟨fun hkeeps => ?_, fun hn => absurd h hn⟩
    obtain ⟨row, hrow, hkey⟩ := List.mem_map.mp c.known
    obtain ⟨r, hr, rfl⟩ := List.mem_map.mp hrow
    obtain ⟨new, hnew, hk, -⟩ := hkeeps.row r hr hkey
    exact absurd hnew (Table.id_replace hr hk)
  · rw [if_neg h]
    exact ⟨fun _ => h, fun _ => ⟨fun r hr hkey => ⟨r.2, hr, hkey, rfl⟩, fun _ _ => Iff.rfl⟩⟩

/-- The asset is the last that `get_assets` lists. -/
def Recreate.IsLast (c : Recreate L) : Prop :=
  (c.before.db.assets.contents.map AssetRow.key).getLast? = some c.row.key

instance (c : Recreate L) : Decidable c.IsLast := inferInstanceAs (Decidable (_ = _))

theorem keepsOrder_iff (c : Recreate L) :
    listed c.after = listed c.before.db ↔ ¬ c.Executed ∨ c.IsLast := by
  have hlisted (d : Db) : listed d = .ok (d.assets.contents.map AssetRow.key) := rfl
  rw [hlisted, hlisted, Except.ok.injEq, c.after_assets]
  by_cases h : c.Executed
  · rw [if_pos h, or_iff_right (not_not.mpr h), Recreate.IsLast]
    exact Table.keys_replace_iff
  · rw [if_neg h]
    exact ⟨fun _ => .inl h, fun _ => rfl⟩

/-! ## Any number of them -/

/-- The databases that assets created again lead to, where each of them meets
`ok`; between two of them `assets` stays as it is. -/
inductive Recreates (L : ChainLib) (ok : Recreate L → Prop) : Db → Db → Prop
  | start (d : Db) : Recreates L ok d d
  | step {d d' : Db} (c : Recreate L) : Recreates L ok d d' → c.before.db.assets = d'.assets → ok c →
      Recreates L ok d c.after

theorem listed_congr {d d' : Db} (h : d.assets = d'.assets) : listed d = listed d' :=
  congrArg (fun t : Table AssetRow AssetRow.key => Except.ok (t.contents.map AssetRow.key)) h

/-- The pages are cut out of the list. -/
theorem listedPage_eq (d : Db) (startNum pageSize : Int) :
    listedPage d startNum pageSize =
      (listed d).map fun keys => (keys.drop startNum.toNat).take pageSize.toNat := by
  show Except.ok (List.map AssetRow.key _) = Except.ok _
  rw [List.map_take, List.map_drop]

theorem listed_recreates {d d' : Db} (h : Recreates L (fun c => ¬ c.Executed ∨ c.IsLast) d d') :
    listed d' = listed d := by
  induction h with
  | start => rfl
  | step c _ hd ok ih => rw [(keepsOrder_iff c).mpr ok, listed_congr hd, ih]

/-- A known asset that is created again keeps its id and its logo, and the
others their rows, if and only if the `SELECT` or the `REPLACE` fails. The
assets keep their order if and only if one of them fails or the asset is the
last; if that is so for each of any number of creates, the lists and all
their pages stay the same. -/
theorem recreated_asset (L : ChainLib) :
    (∀ c : Recreate L, KeepsIdentity c.before.db.assets c.after.assets c.row.key ↔ ¬ c.Executed) ∧
    (∀ c : Recreate L, listed c.after = listed c.before.db ↔ ¬ c.Executed ∨ c.IsLast) ∧
    ∀ d d', Recreates L (fun c => ¬ c.Executed ∨ c.IsLast) d d' → listed d' = listed d ∧
      ∀ startNum pageSize, listedPage d' startNum pageSize = listedPage d startNum pageSize := by
  refine ⟨keepsIdentity_iff, keepsOrder_iff, fun d d' h => ⟨listed_recreates h, fun startNum pageSize => ?_⟩⟩
  rw [listedPage_eq, listedPage_eq, listed_recreates h]

/-! ## `EOS`, created again -/

/-- The library on `packedCreate`. -/
def ChainLib.create : ChainLib where
  AbiDef := Unit
  Serializer := Unit
  fromString text := if text = createAbiJson.text then .ok createAbiVariant else .error .fc
  toJson
    | .object [] => .emptyObject
    | .object _ => createAbiJson
    | .array _ => .emptyArray
    | _ => .null
  asName
    | .string s => Name.ofString s
    | _ => .error .fc
  asAsset
    | .string "10000000000.0000 EOS" => .ok ⟨100000000000000, 4, "EOS"⟩
    | _ => .error .fc
  asAbiDef
    | .object [_, _, _] => .ok ()
    | _ => .error .fc
  abiDefVariant _ := createAbiVariant
  eosioContractAbi := ()
  setAbi := .ok
  getActionType _ name := if name.str = "create" then "create" else ""
  binaryToVariant _ type data :=
    if type = "create" ∧ data = packedCreate then
      .ok (.object [("issuer", .string "eosio"), ("maximum_supply", .string "10000000000.0000 EOS")])
    else .error .fc
  unpackNewaccount _ := .error .fc
  unpackSetabi _ := .error .fc
  unpackAbiDef _ := .error .fc
  unpackTransaction _ := .error .fc
  secSinceEpoch time := time.slot / 2 + 946684800

def createdRow : AssetRow := ⟨0, 100000000000000, 4, "EOS", "eosio", "eosio.token", ""⟩

/-- `EOS`, with a logo, and another asset of the same contract. -/
def twoAssets : Db :=
  ((({} : Db).upsertAbi "eosio.token" createAbiJson).replaceAsset
    { createdRow with logoUrl := "eos.png" }).replaceAsset
    ⟨0, 1000000, 2, "SYS", "eosio", "eosio.token", ""⟩

theorem assetChange_eos :
    assetChange .create ⟨twoAssets, createEos⟩ = some (createdRow.key, some createdRow) := by
  decide +kernel

/-- `EOS` is created again in it. -/
def recreateEos (faults : List (Option Exn)) : Recreate .create where
  before := ⟨twoAssets, faults⟩
  action := createEos
  row := createdRow
  change := assetChange_eos
  known := List.mem_cons_self

/-- It gets a new id, loses its logo and moves to the end of the list. -/
theorem recreated_asset_moves :
    (recreateEos []).before.db.assets.rows.map (fun r => (r.1, r.2.symbol, r.2.logoUrl)) =
      [(1, "EOS", "eos.png"), (2, "SYS", "")] ∧
    (recreateEos []).after.assets.rows.map (fun r => (r.1, r.2.symbol, r.2.logoUrl)) =
      [(2, "SYS", ""), (3, "EOS", "")] ∧
    ¬ KeepsIdentity (recreateEos []).before.db.assets (recreateEos []).after.assets createdRow.key ∧
    listed (recreateEos []).after ≠ listed (recreateEos []).before.db := by
  have hexecuted : (recreateEos []).Executed := by decide
  have hlast : ¬ (recreateEos []).IsLast := by decide
  refine ⟨by decide, by decide +kernel, fun h => (keepsIdentity_iff _).mp h hexecuted, fun h => ?_⟩
  exact ((keepsOrder_iff _).mp h).elim (absurd hexecuted) hlast

/-- Where the `REPLACE` fails each time, the lists stay the same. -/
theorem recreated_asset_fails :
    listed (recreateEos [none, some .soci]).after = listed twoAssets :=
  ((recreated_asset .create).2.2 _ _
    (.step (recreateEos [none, some .soci]) (.start twoAssets) rfl (.inl (by decide)))).1

end SqlDb
