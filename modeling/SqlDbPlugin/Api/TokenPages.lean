import SqlDbPlugin.Api.TokenLists

/-!
# Pages and requests

No variable of an item is left over for the next, so the tokens of a list
are those of its parts, one behind the other: of the pages of `assets`, of
the parts of a request, and of the items before and behind one that throws
(`pages_compose`).
-/

namespace SqlDb

variable {L : ApiLib} {db : Controller} {account : Name}

/-- A page of `get_all_tokens`. -/
def tokensPage (L : ApiLib) (db : Controller) (uninit : AssetRow → UInt8) (account : Name) (d : Db)
    (startNum pageSize : Int) : Except Exn (List Token) :=
  ((getAllTokens L db uninit ⟨account, startNum, pageSize⟩).run ⟨d, []⟩).1

/-! ## Pages -/

/-- The slices of `k` elements, one behind the other. -/
theorem flatten_slices {α : Type} (as : List α) (k m : Nat) :
    ((List.range m).map fun i => (as.drop (i * k)).take k).flatten = as.take (m * k) := by
  induction m with
  | zero => rw [List.range_zero, Nat.zero_mul, List.take_zero]; rfl
  | succ m ih =>
    rw [List.range_succ, List.map_append, List.flatten_append, ih, Nat.succ_mul, List.take_add,
      List.map_singleton, List.flatten_singleton]

theorem tokensPage_eq (uninit : AssetRow → UInt8) (d : Db) (i k : Nat) :
    tokensPage L db uninit account d (i * k : Nat) k =
      .ok (assetsTokens L db account (missingAsset L) ((d.assets.contents.drop (i * k)).take k)) :=
  getAllTokens_page (Int.natCast_nonneg _) (Int.natCast_nonneg _) uninit account d

/-- The tokens of assets one behind the other. -/
theorem assetsTokens_flatten (missing : AssetRow → Except Exn (Option (String × UInt8)))
    (pages : List (List AssetRow)) :
    (pages.map (assetsTokens L db account missing)).flatten =
      assetsTokens L db account missing pages.flatten := by
  rw [assetsTokens, List.flatMap_def, List.map_flatten, List.flatten_flatten, List.map_map]
  rfl

/-- The pages of `k` assets up to the `m`-th are one page of their size. -/
theorem pages_eq (uninit : Nat → AssetRow → UInt8) (d : Db) (k m : Nat) :
    ((List.range m).mapM fun i => tokensPage L db (uninit i) account d (i * k : Nat) k).map List.flatten =
      .ok (assetsTokens L db account (missingAsset L) (d.assets.contents.take (m * k))) := by
  have hpages : ((List.range m).mapM fun i => tokensPage L db (uninit i) account d (i * k : Nat) k) =
      .ok ((List.range m).map fun i =>
        assetsTokens L db account (missingAsset L) ((d.assets.contents.drop (i * k)).take k)) := by
    simp only [tokensPage_eq]
    exact List.mapM_pure
  rw [hpages, ← flatten_slices, ← assetsTokens_flatten, List.map_map]
  rfl

/-! ## Items that throw -/

/-- What a request that has a token in its middle returns, if the look-up of that token throws. -/
theorem getTokens_throwing {uninit : TokenParams → UInt8} {xs ys : List TokenParams} {t : TokenParams}
    {s : List Token} {e : Exn} (h : ((getTokensBody L db account (uninit t) t).run s).1 = .error e) :
    getTokens L db uninit ⟨account, xs ++ t :: ys⟩ = getTokens L db uninit ⟨account, xs ++ ys⟩ := by
  rw [run_getTokensBody] at h
  have herror : lookUp L db account t.contract t.symbol (missingParam L t) = .error e := by
    rcases hl : lookUp L db account t.contract t.symbol (missingParam L t) with e' | q <;> rw [hl] at h
    · cases h
      rfl
    · cases h
  rw [getTokens_eq, getTokens_eq, List.flatMap_append, List.flatMap_append, List.flatMap_cons, herror]
  rfl

theorem assetsTokens_throwing {uninit : UInt8} {xs ys : List AssetRow} {it : AssetRow} {s : List Token}
    {e : Exn} (h : ((getAllTokensBody L db account uninit it).run s).1 = .error e) :
    assetsTokens L db account (missingAsset L) (xs ++ it :: ys) =
      assetsTokens L db account (missingAsset L) (xs ++ ys) := by
  rw [getAllTokensBody, run_assetBody (emits_zero _ _)] at h
  have herror : assetLookUp L db account it (missingAsset L it) = .error e := by
    rw [missingAsset]
    rcases hl : assetLookUp L db account it (zeroShown L (.ofNat it.symbolPrecision) it.symbol) with e' | q <;>
      rw [hl] at h
    · cases h
      rfl
    · cases h
  rw [assetsTokens, assetsTokens, List.flatMap_append, List.flatMap_append, List.flatMap_cons,
    assetTokens_error herror]
  rfl

/-! ## The endpoints -/

/-- The pages of `get_all_tokens`, up to one behind which there are no
assets, are the page of all assets; the tokens of a request are those of its
parts; and an item whose look-up throws adds nothing and changes nothing
else, on a page or in a request. -/
theorem pages_compose (L : ApiLib) (db : Controller) (account : Name) :
    (∀ (uninit : Nat → AssetRow → UInt8) (uninit' : AssetRow → UInt8) (d : Db) (k m : Nat),
      d.assets.contents.length ≤ m * k →
      ((List.range m).mapM fun i => tokensPage L db (uninit i) account d (i * k : Nat) k).map List.flatten =
        tokensPage L db uninit' account d 0 d.assets.contents.length) ∧
    (∀ (uninit : TokenParams → UInt8) (xs ys : List TokenParams),
      getTokens L db uninit ⟨account, xs ++ ys⟩ = do
        let tokens ← getTokens L db uninit ⟨account, xs⟩
        let tokens' ← getTokens L db uninit ⟨account, ys⟩
        return tokens ++ tokens') ∧
    (∀ (uninit : AssetRow → UInt8) (d : Db) (startNum pageSize : Int) (xs ys : List AssetRow)
      (it : AssetRow) (s : List Token) (e : Exn), 0 ≤ startNum → 0 ≤ pageSize →
      (d.assets.contents.drop startNum.toNat).take pageSize.toNat = xs ++ it :: ys →
      ((getAllTokensBody L db account (uninit it) it).run s).1 = .error e →
      tokensPage L db uninit account d startNum pageSize =
        .ok (assetsTokens L db account (missingAsset L) (xs ++ ys))) ∧
    ∀ (uninit : TokenParams → UInt8) (xs ys : List TokenParams) (t : TokenParams) (s : List Token) (e : Exn),
      ((getTokensBody L db account (uninit t) t).run s).1 = .error e →
      getTokens L db uninit ⟨account, xs ++ t :: ys⟩ = getTokens L db uninit ⟨account, xs ++ ys⟩ := by
  refine ⟨fun uninit uninit' d k m hm => ?_, fun uninit xs ys => ?_, ?_, ?_⟩
  · have hall : tokensPage L db uninit' account d (0 * d.assets.contents.length : Nat) _ = _ :=
      tokensPage_eq uninit' d 0 d.assets.contents.length
    rw [Nat.zero_mul, List.drop_zero, List.take_length] at hall
    rw [pages_eq, List.take_of_length_le hm]
    exact hall.symm
  · rw [getTokens_eq, getTokens_eq, getTokens_eq, List.flatMap_append]
    rfl
  · intro uninit d startNum pageSize xs ys it s e hs hp hpage h
    rw [tokensPage, getAllTokens_page hs hp, hpage, assetsTokens_throwing h]
  · intro uninit xs ys t s e h
    exact getTokens_throwing h

/-- An assets table with `EOS` and, in front of it, an asset of an account without a contract. -/
def strayAssets : Db :=
  (({} : Db).replaceAsset ⟨0, 1000, 4, "STRAY", "alice", "alice", ""⟩).replaceAsset
    ⟨0, 10000000000000, 4, "EOS", "eosio", "eosio.token", ""⟩

/-- The asset in front throws, and pages of one asset are the page of both: the balance of `EOS`. -/
theorem pages_compose_stray :
    ((List.range 2).mapM fun i => tokensPage .sample .sample (fun _ => 0) alice strayAssets (i * 1 : Nat) 1).map
        List.flatten = tokensPage .sample .sample (fun _ => 1) alice strayAssets 0 2 ∧
    tokensPage .sample .sample (fun _ => 1) alice strayAssets 0 2 =
      .ok (assetsTokens .sample .sample alice (missingAsset .sample)
        ([] ++ [⟨0, 10000000000000, 4, "EOS", "eosio", "eosio.token", ""⟩])) ∧
    getTokens .sample .sample (fun _ => 0) ⟨alice, [] ++ ⟨alice, "STRAY", 4⟩ :: [⟨.eosioToken, "EOS", 4⟩]⟩ =
      getTokens .sample .sample (fun _ => 0) ⟨alice, [] ++ [⟨.eosioToken, "EOS", 4⟩]⟩ := by
  have hcompose := pages_compose .sample .sample alice
  refine ⟨hcompose.1 (fun _ _ => 0) (fun _ => 1) strayAssets 1 2 (by decide), ?_, ?_⟩
  · exact hcompose.2.2.1 (fun _ => 1) strayAssets 0 2 [] _ ⟨0, 1000, 4, "STRAY", "alice", "alice", ""⟩ [] .fc
      (by decide) (by decide) rfl rfl
  · exact hcompose.2.2.2 (fun _ => 0) [] _ ⟨alice, "STRAY", 4⟩ [] .fc rfl

end SqlDb
