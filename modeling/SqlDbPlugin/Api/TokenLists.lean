import SqlDbPlugin.Api.Tokens

/-!
# The lists of the token endpoints

Whatever goes wrong in an item is caught there, so each endpoint returns the
items' tokens one after the other (`getTokens_eq`, `getAllTokens_eq`,
`getHoldTokens_eq`). The three agree (`token_endpoints_agree`): they differ
only where the contract has no `accounts` table in the scope of the account.
-/

namespace SqlDb

open SqlDatabase (getSession)

variable {L : ApiLib} {db : Controller}

theorem getTokens_eq (uninit : TokenParams → UInt8) (p : GetTokensParams) :
    getTokens L db uninit p = .ok (p.tokens.flatMap fun t =>
      tokensOf t.contract t.symbol (lookUp L db p.account t.contract t.symbol (missingParam L t))) := by
  have h := Captured.run_each_append
    (fun t (_ : t ∈ p.tokens) s => run_getTokensItem (L := L) db p.account (uninit t) t s) []
  rw [getTokens, Captured.result, h]
  rfl

/-- The tokens `get_all_tokens` and `get_hold_tokens` show for a list of
assets, where `missing` is what they show if there is no table. -/
def assetsTokens (L : ApiLib) (db : Controller) (account : Name)
    (missing : AssetRow → Except Exn (Option (String × UInt8))) (assets : List AssetRow) : List Token :=
  assets.flatMap fun it => assetTokens L db account it (missing it)

/-- The zero balance of an asset. -/
def missingAsset (L : ApiLib) (it : AssetRow) : Except Exn (Option (String × UInt8)) :=
  zeroShown L (.ofNat it.symbolPrecision) it.symbol

theorem getAllTokens_eq {p : GetAllTokensParams} (h : ¬ (p.startNum < 0 ∨ p.pageSize < 0))
    (uninit : AssetRow → UInt8) :
    getAllTokens L db uninit p = getSession >>= fun _ =>
      ActionsTable.getAssetsPage p.startNum p.pageSize >>= fun assets =>
        pure (assetsTokens L db p.account (missingAsset L) assets) := by
  rw [getAllTokens, if_neg h]
  refine bind_congr fun _ => bind_congr fun assets => ?_
  have hitems := Captured.run_each_append
    (fun it (_ : it ∈ assets) s => run_getAllTokensItem (L := L) db p.account (uninit it) it s) []
  rw [Captured.result, hitems]
  rfl

/-- A page, if the session and the query are obtained. -/
theorem getAllTokens_page {startNum pageSize : Int} (hs : 0 ≤ startNum) (hp : 0 ≤ pageSize)
    (uninit : AssetRow → UInt8) (account : Name) (d : Db) :
    ((getAllTokens L db uninit ⟨account, startNum, pageSize⟩).run ⟨d, []⟩).1 =
      .ok (assetsTokens L db account (missingAsset L)
        ((d.assets.contents.drop startNum.toNat).take pageSize.toNat)) := by
  have hneg : ¬ (startNum < 0 ∨ pageSize < 0) := by omega
  rw [getAllTokens_eq hneg]
  rfl

theorem getHoldTokens_eq (account : Name) (uninit : AssetRow → UInt8) :
    getHoldTokens L db uninit account = getSession >>= fun _ => ActionsTable.getAssets >>= fun assets =>
      pure (assetsTokens L db account (fun _ => .ok none) assets) := by
  rw [getHoldTokens]
  refine bind_congr fun _ => bind_congr fun assets => ?_
  have hitems := Captured.run_each_append
    (fun it (_ : it ∈ assets) s => run_getHoldTokensItem (L := L) db account (uninit it) it s) []
  rw [Captured.result, hitems]
  rfl

/-! ## Missing tables -/

/-- Whether the contract of the token has a table of balances for the account. -/
def HasTable (db : Controller) (account : Name) (tk : Token) : Prop :=
  (db.findTable tk.contract account .accounts).isSome

instance (db : Controller) (account : Name) (tk : Token) : Decidable (HasTable db account tk) :=
  inferInstanceAs (Decidable (_ = true))

theorem contract_of_mem_tokensOf {contract : Name} {symbol : String}
    {found : Except Exn (Option (String × UInt8))} {tk : Token} (h : tk ∈ tokensOf contract symbol found) :
    tk.contract = contract := by
  obtain ⟨q, -, rfl⟩ := Option.map_eq_some_iff.mp (Option.mem_toList.mp h)
  rfl

/-- Where there is a table, what would be shown without one does not matter. -/
theorem lookUp_of_rows {account contract : Name} {symbol : String} {rows : List KeyValueObject}
    (h : db.rows contract account .accounts = some rows)
    (missing missing' : Except Exn (Option (String × UInt8))) :
    lookUp L db account contract symbol missing = lookUp L db account contract symbol missing' := by
  rw [lookUp, lookUp, h]

/-- Where there is none, nothing is shown but that. -/
theorem tokensOf_lookUp_none {account contract : Name} {symbol : String}
    (h : db.rows contract account .accounts = none) :
    tokensOf contract symbol (lookUp L db account contract symbol (.ok none)) = [] := by
  rw [lookUp, h]
  rcases getAbi L db contract with _ | abi
  · rfl
  · rw [Captured.ok_bind]
    rcases getTableType L abi .accounts with _ | _ <;> rfl

theorem filter_assetTokens (account : Name) (it : AssetRow)
    (missing : Except Exn (Option (String × UInt8))) :
    (assetTokens L db account it missing).filter (HasTable db account) =
      assetTokens L db account it (.ok none) := by
  rw [assetTokens, assetTokens]
  rcases Name.ofString it.contractOwner with _ | contract
  · rfl
  · dsimp only
    have htable (tk : Token) (htk : tk ∈ tokensOf contract it.symbol
        (lookUp L db account contract it.symbol missing)) :
        HasTable db account tk ↔ (db.rows contract account .accounts).isSome := by
      rw [HasTable, contract_of_mem_tokensOf htk, Controller.rows, Option.isSome_map]
    rcases hrows : db.rows contract account .accounts with _ | rows
    · rw [tokensOf_lookUp_none hrows]
      refine List.filter_eq_nil_iff.mpr fun tk htk => ?_
      simp [htable tk htk, hrows]
    · rw [lookUp_of_rows hrows missing (.ok none)] at htable ⊢
      refine List.filter_eq_self.mpr fun tk htk => ?_
      simp [htable tk htk, hrows]

theorem filter_assetsTokens (account : Name) (assets : List AssetRow) :
    (assetsTokens L db account (missingAsset L) assets).filter (HasTable db account) =
      assetsTokens L db account (fun _ => .ok none) assets := by
  rw [assetsTokens, List.filter_flatMap]
  exact congrArg (List.flatMap · assets) (funext fun it => filter_assetTokens account it _)

/-! ## The three endpoints -/

/-- The contract, symbol and precision of each asset, in order. -/
def assetParams (assets : List AssetRow) : List TokenParams :=
  assets.filterMap fun it => (Name.ofString it.contractOwner).toOption.map fun contract =>
    ⟨contract, it.symbol, .ofNat it.symbolPrecision⟩

/-- The tokens for the assets with a contract are those of the assets: the others show nothing. -/
theorem flatMap_assetParams (account : Name) (assets : List AssetRow) :
    ((assetParams assets).flatMap fun t => tokensOf t.contract t.symbol
        (lookUp L db account t.contract t.symbol (zeroShown L t.precision t.symbol))) =
      assetsTokens L db account (missingAsset L) assets := by
  induction assets with
  | nil => rfl
  | cons it assets ih =>
    rw [assetsTokens, List.flatMap_cons, ← assetsTokens, ← ih, assetParams, List.filterMap_cons,
      assetTokens, missingAsset]
    rcases Name.ofString it.contractOwner with _ | contract
    · rfl
    · rfl

/-- A precision above 18 shows nothing, whether it is thrown out or returned from. -/
theorem tokensOf_missingParam (hprec : ∀ p s, 18 < p → ∃ e, L.zeroAsset p s = .error e)
    (account : Name) (t : TokenParams) :
    tokensOf t.contract t.symbol (lookUp L db account t.contract t.symbol (missingParam L t)) =
      tokensOf t.contract t.symbol
        (lookUp L db account t.contract t.symbol (zeroShown L t.precision t.symbol)) := by
  rw [missingParam]
  split
  · rename_i h
    obtain ⟨e, he⟩ := hprec t.precision t.symbol h
    rcases hrows : db.rows t.contract account .accounts with _ | rows
    · rw [tokensOf_lookUp_none hrows, zeroShown, he, lookUp, hrows]
      rcases getAbi L db t.contract with _ | abi
      · rfl
      · rw [Captured.ok_bind]
        rcases getTableType L abi .accounts with _ | _ <;> rfl
    · rw [lookUp_of_rows hrows]
  · rfl

/-- `get_hold_tokens` is `get_all_tokens` of all assets, restricted to those
whose contract has a table of balances for the account; and a page of
`get_all_tokens` is `get_tokens` of the page's tokens. -/
theorem token_endpoints_agree (L : ApiLib) (db : Controller)
    (hprec : ∀ p s, 18 < p → ∃ e, L.zeroAsset p s = .error e) (uninit₁ uninit₂ : AssetRow → UInt8)
    (uninit₃ : TokenParams → UInt8) (account : Name) :
    (∀ (w : World Exn Db) (n : Int), w.db.assets.contents.length ≤ n →
      ((getHoldTokens L db uninit₁ account).run w).1 =
        ((getAllTokens L db uninit₂ ⟨account, 0, n⟩).run w).1.map (List.filter (HasTable db account))) ∧
    (∀ (d : Db) (startNum pageSize : Int), 0 ≤ startNum → 0 ≤ pageSize →
      ((getAllTokens L db uninit₂ ⟨account, startNum, pageSize⟩).run ⟨d, []⟩).1 =
        getTokens L db uninit₃ ⟨account,
          assetParams ((d.assets.contents.drop startNum.toNat).take pageSize.toNat)⟩) := by
  constructor
  · intro w n hn
    have hn' : ¬ ((0 : Int) < 0 ∨ n < 0) := by omega
    have hpage : (w.db.assets.contents.drop (0 : Int).toNat).take n.toNat = w.db.assets.contents := by
      refine List.take_of_length_le ?_
      rw [Int.toNat_zero, List.drop_zero]
      omega
    rw [getHoldTokens_eq, getAllTokens_eq hn', getSession]
    rcases hw : w.next with _ | e
    · rw [Sql.run_query_bind hw, Sql.run_query_bind hw, ActionsTable.getAssets,
        ActionsTable.getAssetsPage]
      rcases hw' : (w.after w.db).next with _ | e
      · rw [Sql.run_query_bind hw', Sql.run_query_bind hw', World.after, hpage]
        exact congrArg Except.ok (filter_assetsTokens account _).symm
      · rw [Sql.run_query_bind_error hw', Sql.run_query_bind_error hw']
        rfl
    · rw [Sql.run_query_bind_error hw, Sql.run_query_bind_error hw]
      rfl
  · intro d startNum pageSize hs hp
    rw [getAllTokens_page hs hp, getTokens_eq]
    simp only [tokensOf_missingParam hprec, flatMap_assetParams]

theorem ApiLib.sample_zeroAsset (p : UInt8) (s : String) (h : 18 < p) :
    ∃ e, ApiLib.sample.zeroAsset p s = .error e :=
  ⟨.fc, if_neg fun hp => absurd hp.1 (UInt8.not_le.mpr h)⟩

/-- A chain on which `alice` has a token contract as well, in which she has no table. -/
def Controller.aliceContract : Controller :=
  { Controller.sample with
    accounts := ⟨alice, ApiAbi.packedToken⟩ :: Controller.sample.accounts
    uniqueAccounts := by decide }

/-- `EOS`, an asset of the contract of `alice`, one of an account without
the table of a token, and one whose precision is too large. -/
def fourAssets : Db :=
  ((((({} : Db).replaceAsset ⟨0, 10000000000000, 4, "EOS", "eosio", "eosio.token", ""⟩).replaceAsset
    ⟨0, 1000000, 2, "SYS", "alice", "alice", ""⟩).replaceAsset
    ⟨0, 1000000, 4, "BAD", "alice", "eosio.msig", ""⟩).replaceAsset
    ⟨0, 1000000, 19, "BIG", "alice", "alice", ""⟩)

/-- `EOS` is shown by all, the second asset by all but `get_hold_tokens`, the others by none. -/
theorem token_endpoints_agree_alice :
    (((getHoldTokens ApiLib.sample .aliceContract (fun _ => 0) alice).run ⟨fourAssets, []⟩).1 =
        ((getAllTokens ApiLib.sample .aliceContract (fun _ => 1) ⟨alice, 0, 4⟩).run ⟨fourAssets, []⟩).1.map
          (List.filter (HasTable .aliceContract alice)) ∧
      ((getHoldTokens ApiLib.sample .aliceContract (fun _ => 0) alice).run ⟨fourAssets, []⟩).1 =
        .ok [⟨.eosioToken, "1.0000", "EOS", 4⟩]) ∧
    ((getAllTokens ApiLib.sample .aliceContract (fun _ => 1) ⟨alice, 0, 4⟩).run ⟨fourAssets, []⟩).1 =
        getTokens ApiLib.sample .aliceContract (fun _ => 2)
          ⟨alice, assetParams ((fourAssets.assets.contents.drop 0).take 4)⟩ ∧
      getTokens ApiLib.sample .aliceContract (fun _ => 2)
          ⟨alice, assetParams ((fourAssets.assets.contents.drop 0).take 4)⟩ =
        .ok [⟨.eosioToken, "1.0000", "EOS", 4⟩, ⟨alice, "0.00", "SYS", 2⟩] := by
  have hagree := token_endpoints_agree ApiLib.sample .aliceContract ApiLib.sample_zeroAsset
    (fun _ => 0) (fun _ => 1) (fun _ => 2) alice
  refine ⟨⟨hagree.1 ⟨fourAssets, []⟩ 4 (by decide), ?_⟩,
    hagree.2 fourAssets 0 4 (by decide) (by decide), ?_⟩
  · decide +kernel
  · decide +kernel

end SqlDb
