import SqlDbPlugin.Api.Controller
import SqlDbPlugin.Database.SqlDatabase

/-!
# The token endpoints

`get_tokens`, `get_all_tokens` and `get_hold_tokens` of the read-only api,
and the two queries of `assets`. All three look a token's balance up in the
contract's `accounts` table in the scope of the account, with the same
callback (`tokenRow`), and differ in what they do if there is no such table.
Each item is guarded: `run_getTokensItem` and its like say what it appends
to the result, in terms of `lookUp`, which only computes.
-/

namespace SqlDb

open Captured (lift assign read declare guarded each walk walked)
open SqlDatabase (getSession)

/-! ## Amounts -/

/-- `asset_amount_to_string`, in 64-bit arithmetic. -/
def assetAmountToString (L : ApiLib) (cursor : Asset) : String :=
  let sign := if cursor.amount < 0 then "-" else ""
  let absAmount := cursor.amount.abs
  let result := toString (absAmount / L.precision cursor).toInt
  let fract := absAmount % L.precision cursor
  -- `erase(0, 1)` takes the leading digit of the sum away
  let digits := String.ofList ((toString (L.precision cursor + fract).toInt).toList.drop 1)
  sign ++ if cursor.precision ≠ 0 then result ++ ("." ++ digits) else result

/-! ## The queries -/

namespace ActionsTable

/-- `select ... from assets order by id limit :st,:pt` -/
def getAssetsPage (startNum pageSize : Int) : SqlM (List AssetRow) :=
  Sql.query fun d => (d.assets.contents.drop startNum.toNat).take pageSize.toNat

/-- `select ... from assets order by id` -/
def getAssets : SqlM (List AssetRow) := Sql.query fun d => d.assets.contents

end ActionsTable

/-! ## The endpoints -/

structure Token where
  contract : Name
  quantity : String
  symbol : String
  precision : UInt8
  deriving DecidableEq

structure TokenParams where
  contract : Name
  symbol : String
  precision : UInt8 := 255
  deriving DecidableEq

structure GetTokensParams where
  account : Name
  tokens : List TokenParams

structure GetAllTokensParams where
  account : Name
  startNum : Int := 0
  pageSize : Int := 10

/-- The bytes of an `asset`. -/
def sizeofAsset : Nat := 16

variable (L : ApiLib) (db : Controller)

/-- Sets the quantity and the precision of the token, and appends a copy of it to the result. -/
def emplaceBack (quantity : String) (precision : UInt8) : Captured Exn (Token × List Token) Unit :=
  assign fun (tk, tokens) =>
    ({ tk with quantity, precision }, tokens ++ [{ tk with quantity, precision }])

/-- The callback for the rows of the table: looks for the one with the symbol. -/
def tokenRow (symbol : String) (obj : KeyValueObject) : Captured Exn (Token × List Token) Bool :=
  if obj.value.length < sizeofAsset then throw .fc
  else do
    let cursor ← lift (L.unpackAsset obj.value)
    if L.symbolValid cursor = false then throw .fc
    else do
      if cursor.symbolName = symbol then
        emplaceBack (assetAmountToString L cursor) cursor.precision
      return !decide (cursor.symbolName = symbol)

/-- The body of the loop of `get_tokens`; `uninit` is what an uninitialised precision holds. -/
def getTokensItem (account : Name) (uninit : UInt8) (t : TokenParams) : Captured Exn (List Token) Unit :=
  guarded do
    let abi ← lift (getAbi L db t.contract)
    let _ ← lift (getTableType L abi .accounts)
    declare (Token.mk t.contract "" t.symbol uninit) <|
      walkKeyValueTable db t.contract account .accounts (tokenRow L t.symbol) <|
        if t.precision > 18 then return ()
        else do
          let cursor ← lift (L.zeroAsset t.precision t.symbol)
          emplaceBack (assetAmountToString L cursor) t.precision

def getTokens (uninit : TokenParams → UInt8) (p : GetTokensParams) : Except Exn (List Token) :=
  (each (fun t => getTokensItem L db p.account (uninit t) t) p.tokens).result []

/-- The body of the loop of `get_all_tokens`. -/
def getAllTokensItem (account : Name) (uninit : UInt8) (it : AssetRow) : Captured Exn (List Token) Unit :=
  guarded <| declare (Token.mk .empty "" "" uninit) do
    let contract ← lift (Name.ofString it.contractOwner)
    assign fun (t, tokens) => ({ t with contract, symbol := it.symbol }, tokens)
    let abi ← lift (getAbi L db contract)
    let _ ← lift (getTableType L abi .accounts)
    walkKeyValueTable db contract account .accounts (tokenRow L it.symbol) do
      let cursor ← lift (L.zeroAsset (.ofNat it.symbolPrecision) it.symbol)
      emplaceBack (assetAmountToString L cursor) (.ofNat it.symbolPrecision)

def getAllTokens (uninit : AssetRow → UInt8) (p : GetAllTokensParams) : SqlM (List Token) :=
  if p.startNum < 0 ∨ p.pageSize < 0 then return []
  else do
    getSession
    let assets ← ActionsTable.getAssetsPage p.startNum p.pageSize
    Sql.lift ((each (fun it => getAllTokensItem L db p.account (uninit it) it) assets).result [])

/-- The body of the loop of `get_hold_tokens`. -/
def getHoldTokensItem (account : Name) (uninit : UInt8) (it : AssetRow) : Captured Exn (List Token) Unit :=
  guarded <| declare (Token.mk .empty "" "" uninit) do
    let contract ← lift (Name.ofString it.contractOwner)
    assign fun (t, tokens) => ({ t with contract, symbol := it.symbol }, tokens)
    let abi ← lift (getAbi L db contract)
    let _ ← lift (getTableType L abi .accounts)
    walkKeyValueTable db contract account .accounts (tokenRow L it.symbol) (return ())

def getHoldTokens (uninit : AssetRow → UInt8) (account : Name) : SqlM (List Token) := do
  getSession
  let assets ← ActionsTable.getAssets
  Sql.lift ((each (fun it => getHoldTokensItem L db account (uninit it) it) assets).result [])

/-! ## What an item appends -/

variable {L} {db}

/-- The asset in a row, unless the row is bad. -/
def balanceIn (L : ApiLib) (obj : KeyValueObject) : Except Exn Asset :=
  if obj.value.length < sizeofAsset then .error .fc
  else do
    let cursor ← L.unpackAsset obj.value
    if L.symbolValid cursor = false then .error .fc else .ok cursor

/-- The asset of the first row with the symbol, if no row up to it is bad. -/
def findBalance (L : ApiLib) (symbol : String) : List KeyValueObject → Except Exn (Option Asset)
  | [] => .ok none
  | obj :: rows => do
    let cursor ← balanceIn L obj
    if cursor.symbolName = symbol then return some cursor else findBalance L symbol rows

theorem findBalance_cons {symbol : String} {obj : KeyValueObject} {rows : List KeyValueObject}
    {cursor : Asset} (h : balanceIn L obj = .ok cursor) :
    findBalance L symbol (obj :: rows) =
      if cursor.symbolName = symbol then .ok (some cursor) else findBalance L symbol rows := by
  rw [findBalance, h]
  rfl

/-- The quantity and the precision of a balance. -/
def shown (L : ApiLib) (cursor : Asset) : String × UInt8 := (assetAmountToString L cursor, cursor.precision)

/-- What the look-up of a token finds, where `missing` is what there is to
show if the contract has no such table. -/
def lookUp (L : ApiLib) (db : Controller) (account contract : Name) (symbol : String)
    (missing : Except Exn (Option (String × UInt8))) : Except Exn (Option (String × UInt8)) := do
  let abi ← getAbi L db contract
  let _ ← getTableType L abi .accounts
  match db.rows contract account .accounts with
  | some rows => do
    let cursor ← findBalance L symbol rows
    return cursor.map (shown L)
  | none => missing

/-- The zero balance in the precision given. -/
def zeroShown (L : ApiLib) (precision : UInt8) (symbol : String) : Except Exn (Option (String × UInt8)) := do
  let cursor ← L.zeroAsset precision symbol
  return some (assetAmountToString L cursor, precision)

/-- The tokens appended for a look-up: one, or none. -/
def tokensOf (contract : Name) (symbol : String) (found : Except Exn (Option (String × UInt8))) :
    List Token :=
  (found.toOption.join.map fun q => Token.mk contract q.1 symbol q.2).toList

/-- What a program over the token and the result does that looks up `found`:
it throws, or sets the token's quantity and precision and appends it. -/
def Emits (x : Captured Exn (Token × List Token) Unit) (found : Except Exn (Option (String × UInt8))) :
    Prop :=
  ∀ tk tokens, ((x.run (tk, tokens)).1 = found.map fun _ => ()) ∧
    (x.run (tk, tokens)).2.2 = tokens ++ tokensOf tk.contract tk.symbol found

theorem emits_emplaceBack (quantity : String) (precision : UInt8) :
    Emits (emplaceBack quantity precision) (.ok (some (quantity, precision))) :=
  fun _ _ => ⟨rfl, rfl⟩

theorem emits_pure : Emits (pure ()) (.ok none) := fun _ _ => ⟨rfl, (List.append_nil _).symm⟩

theorem Emits.lift_bind {α : Type} {x : Except Exn α} {f : α → Captured Exn (Token × List Token) Unit}
    {g : α → Except Exn (Option (String × UInt8))} (h : ∀ a, x = .ok a → Emits (f a) (g a)) :
    Emits (lift x >>= f) (x >>= g) := by
  intro tk tokens
  rcases hx : x with e | a
  · exact ⟨rfl, (List.append_nil _).symm⟩
  · exact h a hx tk tokens

theorem run_tokenRow (symbol : String) (obj : KeyValueObject) (tk : Token) (tokens : List Token) :
    (tokenRow L symbol obj).run (tk, tokens) =
      match balanceIn L obj with
      | .error e => (.error e, (tk, tokens))
      | .ok cursor =>
        if cursor.symbolName = symbol then
          (.ok false, ((emplaceBack (assetAmountToString L cursor) cursor.precision).run (tk, tokens)).2)
        else (.ok true, (tk, tokens)) := by
  rw [tokenRow, balanceIn]
  by_cases hlen : obj.value.length < sizeofAsset
  · rw [if_pos hlen, if_pos hlen]
    rfl
  · rw [if_neg hlen, if_neg hlen, Captured.run_bind, Captured.run_lift]
    rcases L.unpackAsset obj.value with e | cursor
    · rfl
    · rw [Captured.ok_bind]
      dsimp only
      by_cases hv : L.symbolValid cursor = false
      · rw [if_pos hv, if_pos hv]
        rfl
      · rw [if_neg hv, if_neg hv]
        by_cases hs : cursor.symbolName = symbol
        · simp only [hs, if_true, decide_true]
          rfl
        · simp only [hs, if_false, decide_false]
          rfl

/-- The walk emits the balance in the first row with the symbol. -/
theorem emits_walk (symbol : String) (rows : List KeyValueObject) :
    Emits (walk (tokenRow L symbol) rows) (findBalance L symbol rows >>= fun cursor =>
      return cursor.map (shown L)) := by
  induction rows with
  | nil => exact emits_pure
  | cons obj rows ih =>
    intro tk tokens
    rw [walk, Captured.run_bind, run_tokenRow]
    rcases hb : balanceIn L obj with e | cursor
    · rw [findBalance, hb]
      exact ⟨rfl, (List.append_nil _).symm⟩
    · by_cases hs : cursor.symbolName = symbol
      · rw [findBalance_cons hb, if_pos hs]
        dsimp only
        rw [if_pos hs]
        exact ⟨rfl, rfl⟩
      · rw [findBalance_cons hb, if_neg hs]
        dsimp only
        rw [if_neg hs]
        exact ih tk tokens

theorem emits_walkTable (db : Controller) (contract account : Name) (symbol : String)
    {f2 : Captured Exn (Token × List Token) Unit} {missing : Except Exn (Option (String × UInt8))}
    (h : Emits f2 missing) :
    Emits (walkKeyValueTable db contract account .accounts (tokenRow L symbol) f2)
      (match db.rows contract account .accounts with
      | some rows => findBalance L symbol rows >>= fun cursor => return cursor.map (shown L)
      | none => missing) := by
  rw [walkKeyValueTable_eq]
  rcases db.rows contract account .accounts with _ | rows
  · exact h
  · exact emits_walk symbol rows

/-- What the body of an item does once it knows the contract. -/
theorem emits_lookUp (db : Controller) (contract account : Name) (symbol : String)
    {f2 : Captured Exn (Token × List Token) Unit} {missing : Except Exn (Option (String × UInt8))}
    (h : Emits f2 missing) :
    Emits (lift (getAbi L db contract) >>= fun abi => lift (getTableType L abi .accounts) >>= fun _ =>
        walkKeyValueTable db contract account .accounts (tokenRow L symbol) f2)
      (lookUp L db account contract symbol missing) :=
  .lift_bind fun _ _ => .lift_bind fun _ _ => emits_walkTable db contract account symbol h

theorem emits_zero (precision : UInt8) (symbol : String) :
    Emits (lift (L.zeroAsset precision symbol) >>= fun cursor =>
      emplaceBack (assetAmountToString L cursor) precision) (zeroShown L precision symbol) :=
  .lift_bind fun _ _ => emits_emplaceBack _ _

/-- What `get_tokens` shows of a token whose table is missing. -/
def missingParam (L : ApiLib) (t : TokenParams) : Except Exn (Option (String × UInt8)) :=
  if t.precision > 18 then .ok none else zeroShown L t.precision t.symbol

/-- What an item of `get_tokens` guards. -/
def getTokensBody (L : ApiLib) (db : Controller) (account : Name) (uninit : UInt8) (t : TokenParams) :
    Captured Exn (List Token) Unit := do
  let abi ← lift (getAbi L db t.contract)
  let _ ← lift (getTableType L abi .accounts)
  declare (Token.mk t.contract "" t.symbol uninit) <|
    walkKeyValueTable db t.contract account .accounts (tokenRow L t.symbol) <|
      if t.precision > 18 then return ()
      else do
        let cursor ← lift (L.zeroAsset t.precision t.symbol)
        emplaceBack (assetAmountToString L cursor) t.precision

theorem run_getTokensBody (db : Controller) (account : Name) (uninit : UInt8) (t : TokenParams)
    (s : List Token) :
    (getTokensBody L db account uninit t).run s =
      ((lookUp L db account t.contract t.symbol (missingParam L t)).map fun _ => (),
        s ++ tokensOf t.contract t.symbol
          (lookUp L db account t.contract t.symbol (missingParam L t))) := by
  have hmissing : Emits (if t.precision > 18 then return () else
      lift (L.zeroAsset t.precision t.symbol) >>= fun cursor =>
        emplaceBack (assetAmountToString L cursor) t.precision) (missingParam L t) := by
    rw [missingParam]
    split
    · exact emits_pure
    · exact emits_zero _ _
  have hwalk := emits_walkTable (L := L) db t.contract account t.symbol hmissing
    ⟨t.contract, "", t.symbol, uninit⟩ s
  rw [getTokensBody, lookUp, Captured.run_bind, Captured.run_lift]
  rcases getAbi L db t.contract with e | abi
  · exact congrArg (Prod.mk _) (List.append_nil s).symm
  · dsimp only
    rw [Captured.ok_bind, Captured.run_bind, Captured.run_lift]
    rcases getTableType L abi .accounts with e | type
    · exact congrArg (Prod.mk _) (List.append_nil s).symm
    · exact Prod.ext hwalk.1 hwalk.2

theorem getTokensItem_eq (db : Controller) (account : Name) (uninit : UInt8) (t : TokenParams) :
    getTokensItem L db account uninit t = guarded (getTokensBody L db account uninit t) := rfl

theorem run_getTokensItem (db : Controller) (account : Name) (uninit : UInt8) (t : TokenParams)
    (s : List Token) :
    (getTokensItem L db account uninit t).run s =
      (.ok (), s ++ tokensOf t.contract t.symbol
        (lookUp L db account t.contract t.symbol (missingParam L t))) := by
  rw [getTokensItem_eq, Captured.run_guarded, run_getTokensBody]

/-- What the items over `assets` append for a row. -/
def assetTokens (L : ApiLib) (db : Controller) (account : Name) (it : AssetRow)
    (missing : Except Exn (Option (String × UInt8))) : List Token :=
  match Name.ofString it.contractOwner with
  | .ok contract => tokensOf contract it.symbol (lookUp L db account contract it.symbol missing)
  | .error _ => []

/-- What an item over `assets` guards, where `f2` is the fallback. -/
def assetBody (L : ApiLib) (db : Controller) (account : Name) (it : AssetRow) (t : Token)
    (f2 : Captured Exn (Token × List Token) Unit) : Captured Exn (List Token) Unit :=
  declare t do
    let contract ← lift (Name.ofString it.contractOwner)
    assign fun (t, tokens) => ({ t with contract, symbol := it.symbol }, tokens)
    let abi ← lift (getAbi L db contract)
    let _ ← lift (getTableType L abi .accounts)
    walkKeyValueTable db contract account .accounts (tokenRow L it.symbol) f2

/-- What the look-up for an asset finds. -/
def assetLookUp (L : ApiLib) (db : Controller) (account : Name) (it : AssetRow)
    (missing : Except Exn (Option (String × UInt8))) : Except Exn (Option (String × UInt8)) := do
  let contract ← Name.ofString it.contractOwner
  lookUp L db account contract it.symbol missing

theorem run_assetBody {f2 : Captured Exn (Token × List Token) Unit}
    {missing : Except Exn (Option (String × UInt8))} (h : Emits f2 missing) (account : Name)
    (it : AssetRow) (t : Token) (s : List Token) :
    (assetBody L db account it t f2).run s =
      ((assetLookUp L db account it missing).map fun _ => (), s ++ assetTokens L db account it missing) := by
  rw [assetBody, assetTokens, assetLookUp, Captured.run_declare, Captured.run_bind, Captured.run_lift]
  rcases Name.ofString it.contractOwner with e | contract
  · exact congrArg (Prod.mk _) (List.append_nil s).symm
  · have hfound := emits_lookUp (L := L) db contract account it.symbol h
      { t with contract, symbol := it.symbol } s
    exact Prod.ext hfound.1 hfound.2

/-- An item whose look-up throws appends nothing. -/
theorem assetTokens_error {account : Name} {it : AssetRow} {e : Exn}
    {missing : Except Exn (Option (String × UInt8))} (h : assetLookUp L db account it missing = .error e) :
    assetTokens L db account it missing = [] := by
  rw [assetLookUp] at h
  rw [assetTokens]
  rcases hc : Name.ofString it.contractOwner with _ | contract
  · rfl
  · rw [hc, Captured.ok_bind] at h
    dsimp only
    rw [h]
    rfl

/-- An item over `assets` that looks its token up with `f2` as the fallback. -/
theorem run_assetItem {f2 : Captured Exn (Token × List Token) Unit}
    {missing : Except Exn (Option (String × UInt8))} (h : Emits f2 missing) (account : Name)
    (it : AssetRow) (t : Token) (s : List Token) :
    (guarded (assetBody L db account it t f2)).run s = (.ok (), s ++ assetTokens L db account it missing) := by
  rw [Captured.run_guarded, run_assetBody h]

/-- What an item of `get_all_tokens` guards. -/
def getAllTokensBody (L : ApiLib) (db : Controller) (account : Name) (uninit : UInt8) (it : AssetRow) :
    Captured Exn (List Token) Unit :=
  assetBody L db account it (Token.mk .empty "" "" uninit) do
    let cursor ← lift (L.zeroAsset (.ofNat it.symbolPrecision) it.symbol)
    emplaceBack (assetAmountToString L cursor) (.ofNat it.symbolPrecision)

theorem getAllTokensItem_eq (db : Controller) (account : Name) (uninit : UInt8) (it : AssetRow) :
    getAllTokensItem L db account uninit it = guarded (getAllTokensBody L db account uninit it) := rfl

theorem run_getAllTokensItem (db : Controller) (account : Name) (uninit : UInt8) (it : AssetRow)
    (s : List Token) :
    (getAllTokensItem L db account uninit it).run s =
      (.ok (), s ++ assetTokens L db account it (zeroShown L (.ofNat it.symbolPrecision) it.symbol)) := by
  rw [getAllTokensItem_eq]
  exact run_assetItem (emits_zero _ _) account it _ s

theorem run_getHoldTokensItem (db : Controller) (account : Name) (uninit : UInt8) (it : AssetRow)
    (s : List Token) :
    (getHoldTokensItem L db account uninit it).run s =
      (.ok (), s ++ assetTokens L db account it (.ok none)) :=
  run_assetItem emits_pure account it _ s

end SqlDb
