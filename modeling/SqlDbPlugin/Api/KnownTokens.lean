import SqlDbPlugin.Api.TokenLists

/-!
# The entries of known tokens

What `get_tokens` and `get_all_tokens` return for a token whose contract and
rows are in order (`KnownToken`). The fallback with the zero balance is
called only if the contract has no `accounts` table in the scope of the
account; if it has one and no row in it has the symbol, nothing is returned
for the token. So a known token has its entry if and only if there is no
table, or a row with its symbol (`known_token_entry`).
-/

namespace SqlDb

variable {L : ApiLib} {db : Controller} {account contract : Name} {symbol : String} {precision : UInt8}

/-- The assets in the rows of the contract's table in the scope of the account. -/
def balancesOf (L : ApiLib) (db : Controller) (account contract : Name) : List Asset :=
  ((db.rows contract account .accounts).getD []).filterMap fun obj => (balanceIn L obj).toOption

/-- The contract exists, its abi has a table `accounts`, the symbol is valid
with a precision of at most 18, and the rows in the scope of the account are
valid assets with different symbols. -/
structure KnownToken (L : ApiLib) (db : Controller) (account contract : Name) (symbol : String)
    (precision : UInt8) : Prop where
  table : ∃ abi, getAbi L db contract = .ok abi ∧ ∃ type, getTableType L abi .accounts = .ok type
  named : symbol ≠ ""
  valid : L.symbolValid ⟨0, precision, symbol⟩ = true
  decimals : precision ≤ 18
  rows : ∀ obj ∈ (db.rows contract account .accounts).getD [], ∃ cursor, balanceIn L obj = .ok cursor
  distinct : (balancesOf L db account contract).Pairwise fun a b => a.symbolName ≠ b.symbolName

/-- The balance in the row with the symbol, and zero if there is none. -/
def entryOfToken (L : ApiLib) (db : Controller) (account contract : Name) (symbol : String)
    (precision : UInt8) : Token :=
  let cursor := ((balancesOf L db account contract).find? (·.symbolName = symbol)).getD ⟨0, precision, symbol⟩
  ⟨contract, assetAmountToString L cursor, symbol, cursor.precision⟩

/-- There is no table in the scope of the account, or a row in it with the symbol. -/
def NoTableOrRow (L : ApiLib) (db : Controller) (account contract : Name) (symbol : String) : Prop :=
  db.findTable contract account .accounts = none ∨
    ∃ cursor ∈ balancesOf L db account contract, cursor.symbolName = symbol

instance : Decidable (NoTableOrRow L db account contract symbol) :=
  inferInstanceAs (Decidable (_ ∨ ∃ _ ∈ _, _))

/-! ## One token -/

/-- If no row is bad, the search finds the first with the symbol. -/
theorem findBalance_eq {rows : List KeyValueObject}
    (h : ∀ obj ∈ rows, ∃ cursor, balanceIn L obj = .ok cursor) :
    findBalance L symbol rows =
      .ok ((rows.filterMap fun obj => (balanceIn L obj).toOption).find? (·.symbolName = symbol)) := by
  induction rows with
  | nil => rfl
  | cons obj rows ih =>
    obtain ⟨⟨cursor, hcursor⟩, hrows⟩ := List.forall_mem_cons.mp h
    rw [findBalance_cons hcursor, ih hrows, List.filterMap_cons, hcursor]
    dsimp only [Except.toOption]
    by_cases hs : cursor.symbolName = symbol
    · rw [if_pos hs, List.find?_cons_of_pos (by simpa using hs)]
    · rw [if_neg hs, List.find?_cons_of_neg (by simpa using hs)]

theorem lookUp_known (h : KnownToken L db account contract symbol precision)
    (missing : Except Exn (Option (String × UInt8))) :
    lookUp L db account contract symbol missing =
      if db.findTable contract account .accounts = none then missing
      else .ok (((balancesOf L db account contract).find? (·.symbolName = symbol)).map (shown L)) := by
  obtain ⟨abi, habi, type, htype⟩ := h.table
  have hrows := h.rows
  rw [lookUp, habi, Captured.ok_bind, htype, Captured.ok_bind, balancesOf]
  rw [Controller.rows] at hrows ⊢
  rcases ht : db.findTable contract account .accounts with _ | t
  · rfl
  · rw [ht] at hrows
    simp only [Option.map_some, Option.getD_some] at hrows ⊢
    rw [if_neg (Option.some_ne_none t), findBalance_eq hrows]
    rfl

/-- What is returned for a known token, if `missing` is its zero balance. -/
theorem tokensOf_known (h : KnownToken L db account contract symbol precision) :
    tokensOf contract symbol (lookUp L db account contract symbol
        (.ok (some (shown L ⟨0, precision, symbol⟩)))) =
      if NoTableOrRow L db account contract symbol then
        [entryOfToken L db account contract symbol precision]
      else [] := by
  rw [lookUp_known h, entryOfToken]
  by_cases ht : db.findTable contract account .accounts = none
  · have hnone : balancesOf L db account contract = [] := by
      rw [balancesOf, Controller.rows, ht]
      rfl
    rw [if_pos ht, if_pos (.inl ht), hnone]
    rfl
  · rw [if_neg ht]
    rcases hf : (balancesOf L db account contract).find? (·.symbolName = symbol) with _ | cursor
    · rw [if_neg, hf]
      · rfl
      · rintro (hn | ⟨cursor, hc, hs⟩)
        · exact ht hn
        · exact List.find?_eq_none.mp hf cursor hc (decide_eq_true hs)
    · rw [if_pos (.inr ⟨cursor, List.mem_of_find?_eq_some hf, by simpa using List.find?_some hf⟩), hf]
      rfl

/-! ## The endpoints -/

/-- For a known token among those requested, and for a known asset on a page,
there is the entry of the token, or else nothing, between those of the
others; there is one if and only if the contract has no table in the scope
of the account, or a row in it with the symbol. -/
theorem known_token_entry (L : ApiLib) (db : Controller)
    (hzero : ∀ p s, s ≠ "" → L.symbolValid ⟨0, p, s⟩ = true → L.zeroAsset p s = .ok ⟨0, p, s⟩)
    (account : Name) :
    (∀ (uninit : TokenParams → UInt8) (xs ys : List TokenParams) (t : TokenParams),
      KnownToken L db account t.contract t.symbol t.precision →
      ∃ before entries behind, getTokens L db uninit ⟨account, xs⟩ = .ok before ∧
        getTokens L db uninit ⟨account, ys⟩ = .ok behind ∧
        getTokens L db uninit ⟨account, xs ++ t :: ys⟩ = .ok (before ++ entries ++ behind) ∧
        (entries = [entryOfToken L db account t.contract t.symbol t.precision] ↔
          NoTableOrRow L db account t.contract t.symbol) ∧
        (¬ NoTableOrRow L db account t.contract t.symbol → entries = [])) ∧
    ∀ (uninit : AssetRow → UInt8) (d : Db) (startNum pageSize : Int) (xs ys : List AssetRow)
      (it : AssetRow) (contract : Name), 0 ≤ startNum → 0 ≤ pageSize →
      (d.assets.contents.drop startNum.toNat).take pageSize.toNat = xs ++ it :: ys →
      Name.ofString it.contractOwner = .ok contract →
      KnownToken L db account contract it.symbol (.ofNat it.symbolPrecision) →
      ∃ entries, ((getAllTokens L db uninit ⟨account, startNum, pageSize⟩).run ⟨d, []⟩).1 =
          .ok (assetsTokens L db account (missingAsset L) xs ++ entries ++
            assetsTokens L db account (missingAsset L) ys) ∧
        (entries = [entryOfToken L db account contract it.symbol (.ofNat it.symbolPrecision)] ↔
          NoTableOrRow L db account contract it.symbol) ∧
        (¬ NoTableOrRow L db account contract it.symbol → entries = []) := by
  have hshown {contract : Name} {symbol : String} {precision : UInt8}
      (h : KnownToken L db account contract symbol precision) :
      zeroShown L precision symbol = .ok (some (shown L ⟨0, precision, symbol⟩)) := by
    rw [zeroShown, hzero precision symbol h.named h.valid]
    rfl
  have hentries {P : Prop} [Decidable P] {entry : Token} :
      ((if P then [entry] else []) = [entry] ↔ P) ∧ (¬ P → (if P then [entry] else []) = []) := by
    by_cases hP : P <;> simp [hP]
  constructor
  · intro uninit xs ys t h
    refine ⟨_, _, _, getTokens_eq uninit _, getTokens_eq uninit _, ?_, hentries⟩
    have hmissing : missingParam L t = .ok (some (shown L ⟨0, t.precision, t.symbol⟩)) := by
      rw [missingParam, if_neg (UInt8.not_lt.mpr h.decimals), hshown h]
    rw [getTokens_eq, List.flatMap_append, List.flatMap_cons, hmissing, tokensOf_known h, List.append_assoc]
  · intro uninit d startNum pageSize xs ys it contract hs hp hpage hcontract h
    refine ⟨_, ?_, hentries⟩
    rw [getAllTokens_page hs hp, hpage, assetsTokens, List.flatMap_append, List.flatMap_cons, assetTokens, hcontract,
      missingAsset, hshown h]
    dsimp only
    rw [tokensOf_known h, List.append_assoc]
    rfl

/-- `alice` has 5.00 SYS, and no EOS. -/
def Controller.noEos : Controller :=
  { Controller.sample with
    keyValues := [⟨1, 5462355, [0xf4, 1, 0, 0, 0, 0, 0, 0, 2, 0x53, 0x59, 0x53, 0, 0, 0, 0]⟩]
    sorted := by decide }

/-- `EOS` is known if the account has one row of that contract, with an asset in it. -/
theorem known_eos {db : Controller} (haccounts : db.accounts = Controller.sample.accounts)
    {obj : KeyValueObject} {cursor : Asset} (hrows : db.rows .eosioToken alice .accounts = some [obj])
    (hcursor : balanceIn .sample obj = .ok cursor) :
    KnownToken .sample db alice .eosioToken "EOS" 4 where
  table := by
    refine ⟨.token, ?_, "i64", rfl⟩
    rw [getAbi, haccounts]
    rfl
  named := by decide
  valid := by decide
  decimals := by decide
  rows := by
    rw [hrows]
    exact List.forall_mem_singleton.mpr ⟨cursor, hcursor⟩
  distinct := by
    rw [balancesOf, hrows, Option.getD_some, List.filterMap_cons, hcursor]
    exact List.pairwise_singleton _ _

/-- An assets table with `EOS` only. -/
def eosAssets : Db := ({} : Db).replaceAsset ⟨0, 10000000000000, 4, "EOS", "eosio", "eosio.token", ""⟩

/-- The row of the other token is in order, and for EOS there is no entry with a zero balance. -/
theorem known_token_missing :
    KnownToken .sample .noEos alice .eosioToken "EOS" 4 ∧
    entryOfToken .sample .noEos alice .eosioToken "EOS" 4 = ⟨.eosioToken, "0.0000", "EOS", 4⟩ ∧
    getTokens .sample .noEos (fun _ => 0) ⟨alice, [⟨.eosioToken, "EOS", 4⟩]⟩ = .ok [] ∧
    ((getAllTokens .sample .noEos (fun _ => 0) ⟨alice, 0, 1⟩).run ⟨eosAssets, []⟩).1 = .ok [] :=
  ⟨known_eos rfl rfl rfl, by decide +kernel, by decide +kernel, by decide +kernel⟩

theorem ApiLib.sample_zeroAsset_eq (p : UInt8) (s : String) (hs : s ≠ "")
    (h : ApiLib.sample.symbolValid ⟨0, p, s⟩ = true) : ApiLib.sample.zeroAsset p s = .ok ⟨0, p, s⟩ := by
  obtain ⟨hp, hupper⟩ := Bool.and_eq_true_iff.mp h
  exact if_pos ⟨of_decide_eq_true hp, hs, hupper⟩

/-- Where there is a row with EOS, both endpoints return its balance. -/
theorem known_token_entry_eos :
    (∃ entries, getTokens .sample .sample (fun _ => 0) ⟨alice, [⟨.eosioToken, "EOS", 4⟩]⟩ =
        .ok entries ∧ entries = [⟨.eosioToken, "1.0000", "EOS", 4⟩]) ∧
    ∃ entries, ((getAllTokens .sample .sample (fun _ => 0) ⟨alice, 0, 1⟩).run ⟨eosAssets, []⟩).1 =
        .ok ([] ++ entries ++ []) ∧ entries = [⟨.eosioToken, "1.0000", "EOS", 4⟩] := by
  have hknown : KnownToken .sample .sample alice .eosioToken "EOS" 4 := known_eos rfl rfl rfl
  have hrow : NoTableOrRow .sample .sample alice .eosioToken "EOS" := by decide +kernel
  have hentry : entryOfToken .sample .sample alice .eosioToken "EOS" 4 =
      ⟨.eosioToken, "1.0000", "EOS", 4⟩ := by
    decide +kernel
  have hentries := known_token_entry .sample .sample ApiLib.sample_zeroAsset_eq alice
  obtain ⟨before, entries, behind, hbefore, hbehind, htokens, hiff, -⟩ :=
    hentries.1 (fun _ => 0) [] [] ⟨.eosioToken, "EOS", 4⟩ hknown
  obtain ⟨entries', hall, hiff', -⟩ := hentries.2 (fun _ => 0) eosAssets 0 1 [] []
    ⟨0, 10000000000000, 4, "EOS", "eosio", "eosio.token", ""⟩ .eosioToken (by decide) (by decide) rfl rfl hknown
  cases hbefore
  cases hbehind
  refine ⟨⟨_, htokens, ?_⟩, entries', hall, ?_⟩
  · rw [hiff.mpr hrow, hentry]
    rfl
  · rw [hiff'.mpr hrow]
    exact congrArg (fun t => [t]) hentry

end SqlDb
