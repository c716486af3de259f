import SqlDbPlugin.Api.TableWalk

/-!
# The resource endpoints

`get_userresource` and `get_refund` read the system contract's tables
`userres` and `refunds` in the scope of the account. Both walk all rows of
the table and set the same result on each, field by field, and catch
nothing: they answer with what the row with the greatest key says, and only
if every row can be read (`resource_endpoints`). Both check the size of a
row against that of the result of `get_userresource`.
-/

namespace SqlDb

open Captured (lift assign walk Computes)

/-- What these two endpoints call besides the rest of the library. -/
structure ResourceLib extends ApiLib where
  /-- `as<int64_t>()` -/
  asInt64 : Variant → Except Exn Int64
  /-- `asset()` -/
  defaultAsset : Asset

namespace Name

def userres : Name := ⟨"userres", by decide⟩
def refunds : Name := ⟨"refunds", by decide⟩

end Name

structure GetUserresourceResult where
  netWeight : Asset
  cpuWeight : Asset
  ramBytes : Int64 := 0
  deriving DecidableEq

structure GetRefundResult where
  requestTime : String := ""
  netAmount : Asset
  cpuAmount : Asset
  deriving DecidableEq

/-- `sizeof(get_userresource_result)`: two assets and an `int64_t`. -/
def sizeofGetUserresourceResult : Nat := 40

section Endpoints

variable (L : ResourceLib) (db : Controller)

/-- `db.db().get<account_object, by_name>(name)`, which throws an `std::out_of_range`. -/
def Controller.getAccount (name : Name) : Except Exn AccountObject :=
  match db.accounts.find? fun a => a.name = name with
  | some account => .ok account
  | none => .error .std

/-- The callback of `get_userresource`. -/
def userresourceRow (abis : L.Serializer) (obj : KeyValueObject) :
    Captured Exn GetUserresourceResult Bool :=
  if obj.value.length < sizeofGetUserresourceResult then throw .fc
  else do
    let userr ← lift (L.binaryToVariant abis "user_resources" obj.value)
    let netWeight ← lift (userr.get "net_weight" >>= L.asAsset)
    assign ({ · with netWeight })
    let cpuWeight ← lift (userr.get "cpu_weight" >>= L.asAsset)
    assign ({ · with cpuWeight })
    let ramBytes ← lift (userr.get "ram_bytes" >>= L.asInt64)
    assign ({ · with ramBytes })
    return true

/-- The callback of `get_refund`. -/
def refundRow (abis : L.Serializer) (obj : KeyValueObject) : Captured Exn GetRefundResult Bool :=
  if obj.value.length < sizeofGetUserresourceResult then throw .fc
  else do
    let ref ← lift (L.binaryToVariant abis "refund_request" obj.value)
    let requestTime ← lift (ref.get "request_time" >>= L.asString)
    assign ({ · with requestTime })
    let netAmount ← lift (ref.get "net_amount" >>= L.asAsset)
    assign ({ · with netAmount })
    let cpuAmount ← lift (ref.get "cpu_amount" >>= L.asAsset)
    assign ({ · with cpuAmount })
    return true

/-- What the two endpoints share: the callback `row` sets their result on
each row of a table of the system contract. -/
def walkSystemTable {σ : Type} (table account : Name)
    (row : L.Serializer → KeyValueObject → Captured Exn σ Bool) (result : σ) : Except Exn σ :=
  (do
    let codeAccount ← lift (db.getAccount .systemAccountName)
    match ← lift (L.toAbi codeAccount.abi) with
    | some abi => do
      let abis ← lift (L.setAbi abi)
      walkKeyValueTable db .systemAccountName account table (row abis) (return ())
    | none => return () : Captured Exn σ Unit).result result

def getUserresource (account : Name) : Except Exn GetUserresourceResult :=
  walkSystemTable L db .userres account (userresourceRow L)
    { netWeight := L.defaultAsset, cpuWeight := L.defaultAsset }

def getRefund (account : Name) : Except Exn GetRefundResult :=
  walkSystemTable L db .refunds account (refundRow L)
    { netAmount := L.defaultAsset, cpuAmount := L.defaultAsset }

/-! ## Rows -/

/-- What a row of `userres` says. -/
def userresourceOf (abis : L.Serializer) (obj : KeyValueObject) : Except Exn GetUserresourceResult :=
  if obj.value.length < sizeofGetUserresourceResult then .error .fc
  else do
    let userr ← L.binaryToVariant abis "user_resources" obj.value
    let netWeight ← userr.get "net_weight" >>= L.asAsset
    let cpuWeight ← userr.get "cpu_weight" >>= L.asAsset
    let ramBytes ← userr.get "ram_bytes" >>= L.asInt64
    return { netWeight, cpuWeight, ramBytes }

/-- What a row of `refunds` says. -/
def refundOf (abis : L.Serializer) (obj : KeyValueObject) : Except Exn GetRefundResult :=
  if obj.value.length < sizeofGetUserresourceResult then .error .fc
  else do
    let ref ← L.binaryToVariant abis "refund_request" obj.value
    let requestTime ← ref.get "request_time" >>= L.asString
    let netAmount ← ref.get "net_amount" >>= L.asAsset
    let cpuAmount ← ref.get "cpu_amount" >>= L.asAsset
    return { requestTime, netAmount, cpuAmount }

end Endpoints

variable {L : ResourceLib} {db : Controller}

/-- The callback sets all of the result to what the row says, and goes on. -/
theorem computes_userresourceRow (abis : L.Serializer) (obj : KeyValueObject) (s : GetUserresourceResult) :
    Computes (userresourceRow L abis obj) s (fun more x s' => more = true ∧ s' = x)
      (userresourceOf L abis obj) := by
  unfold userresourceRow userresourceOf
  split
  · exact .throw Exn.fc
  · refine .lift fun userr _ => .lift fun netWeight _ => .assign_bind ?_
    refine .lift fun cpuWeight _ => .assign_bind ?_
    exact .lift fun ramBytes _ => .assign_bind (.pure ⟨rfl, rfl⟩)

theorem computes_refundRow (abis : L.Serializer) (obj : KeyValueObject) (s : GetRefundResult) :
    Computes (refundRow L abis obj) s (fun more x s' => more = true ∧ s' = x) (refundOf L abis obj) := by
  unfold refundRow refundOf
  split
  · exact .throw Exn.fc
  · refine .lift fun ref _ => .lift fun requestTime _ => .assign_bind ?_
    refine .lift fun netAmount _ => .assign_bind ?_
    exact .lift fun cpuAmount _ => .assign_bind (.pure ⟨rfl, rfl⟩)

/-! ## The answers -/

variable {σ : Type}

/-- Every row can be read, and `r` is what the one with the greatest key
says, or `result` if there is no row. -/
structure LastSays (read : KeyValueObject → Except Exn σ) (rows : List KeyValueObject) (result r : σ) : Prop where
  readable : ∀ obj ∈ rows, ∃ x, read obj = .ok x
  none : rows = [] → r = result
  last : ∀ obj ∈ rows, (∀ o ∈ rows, o.primaryKey ≤ obj.primaryKey) → read obj = .ok r

theorem Controller.getD_rows_sorted (db : Controller) (code scope table : Name) :
    ((db.rows code scope table).getD []).Pairwise fun a b => a.primaryKey < b.primaryKey := by
  rw [Controller.rows]
  rcases db.findTable code scope table with _ | t
  · exact .nil
  · exact db.rows_sorted t.id

theorem lastSays_iff {read : KeyValueObject → Except Exn σ} {rows : List KeyValueObject}
    (hs : rows.Pairwise fun a b => a.primaryKey < b.primaryKey) {result r : σ} :
    (∀ obj ∈ rows, ∃ x, read obj = .ok x) ∧
        rows.getLast?.elim (r = result) (fun obj => read obj = .ok r) ↔
      LastSays read rows result r := by
  rcases List.eq_nil_or_concat' rows with rfl | ⟨rest, last, rfl⟩
  · exact ⟨fun h => ⟨h.1, fun _ => h.2, by simp⟩, fun h => ⟨h.1, h.2 rfl⟩⟩
  · obtain ⟨-, -, hlt⟩ := List.pairwise_append.mp hs
    have hlt {obj : KeyValueObject} (h : obj ∈ rest) : obj.primaryKey < last.primaryKey :=
      hlt obj h last (List.mem_singleton_self last)
    have hlast : (rest ++ [last]).getLast?.elim (r = result) (fun obj => read obj = .ok r) ↔
        read last = .ok r := by rw [List.getLast?_concat, Option.elim_some]
    rw [hlast]
    constructor
    · intro h
      refine ⟨h.1, by simp, fun obj hobj hmax => ?_⟩
      obtain hobj | hobj := List.mem_append.mp hobj
      · have hle := hmax last (by simp)
        exact absurd (hlt hobj) (UInt64.not_lt.mpr hle)
      · rw [List.mem_singleton.mp hobj]
        exact h.2
    · intro h
      refine ⟨h.readable, h.last last (by simp) fun o ho => ?_⟩
      obtain ho | ho := List.mem_append.mp ho
      · exact UInt64.le_of_lt (hlt ho)
      · rw [List.mem_singleton.mp ho]
        exact UInt64.le_refl _

theorem walkSystemTable_eq (table account : Name) (row : L.Serializer → KeyValueObject → Captured Exn σ Bool)
    (result : σ) :
    walkSystemTable L db table account row result = do
      let codeAccount ← db.getAccount .systemAccountName
      match ← L.toAbi codeAccount.abi with
      | some abi => do
        let abis ← L.setAbi abi
        (walk (row abis) ((db.rows .systemAccountName account table).getD [])).result result
      | none => return result := by
  rw [walkSystemTable]
  rcases db.getAccount .systemAccountName with e | codeAccount
  · rfl
  · show Captured.result (lift (L.toAbi codeAccount.abi) >>= _) result = L.toAbi codeAccount.abi >>= _
    rcases L.toAbi codeAccount.abi with e | _ | abi
    · rfl
    · rfl
    · show Captured.result (lift (L.setAbi abi) >>= _) result = L.setAbi abi >>= _
      rcases L.setAbi abi with e | abis
      · rfl
      · exact congrArg (Captured.result · result) (walkKeyValueTable_pure db _ _ _ _)

/-- `walkSystemTable` answers if the system account exists, with the result
as it was if that account has no abi. -/
theorem walkSystemTable_eq_ok_iff {table account : Name} {result r : σ}
    {row : L.Serializer → KeyValueObject → Captured Exn σ Bool}
    {read : L.Serializer → KeyValueObject → Except Exn σ}
    (hrow : ∀ abis obj s, Computes (row abis obj) s (fun more x s' => more = true ∧ s' = x) (read abis obj)) :
    walkSystemTable L db table account row result = .ok r ↔
      ∃ codeAccount, db.getAccount .systemAccountName = .ok codeAccount ∧
        (L.toAbi codeAccount.abi = .ok none ∧ r = result ∨
          ∃ abi abis, L.toAbi codeAccount.abi = .ok (some abi) ∧ L.setAbi abi = .ok abis ∧
            LastSays (read abis) ((db.rows .systemAccountName account table).getD []) result r) := by
  have hsorted := db.getD_rows_sorted .systemAccountName account table
  rw [walkSystemTable_eq]
  constructor
  · intro h
    obtain ⟨codeAccount, ha, h⟩ := Captured.bind_eq_ok h
    obtain ⟨abi, ht, h⟩ := Captured.bind_eq_ok h
    refine ⟨codeAccount, ha, ?_⟩
    cases abi with
    | none =>
      cases h
      exact .inl ⟨ht, rfl⟩
    | some abi =>
      obtain ⟨abis, hs, h⟩ := Captured.bind_eq_ok h
      exact .inr ⟨abi, abis, ht, hs,
        (lastSays_iff hsorted).mp ((Captured.walk_result_eq_ok_iff (hrow abis)).mp h)⟩
  · rintro ⟨codeAccount, ha, ⟨ht, rfl⟩ | ⟨abi, abis, ht, hs, h⟩⟩
    · rw [ha, Captured.ok_bind, ht]
      rfl
    · have hwalk := (Captured.walk_result_eq_ok_iff (hrow abis)).mpr ((lastSays_iff hsorted).mpr h)
      rw [ha, Captured.ok_bind, ht, Captured.ok_bind]
      show L.setAbi abi >>= _ = _
      rw [hs]
      exact hwalk

/-- Both endpoints answer if and only if the system account exists and, unless
it has no abi, every row of the table of the account can be read: then with
what the row with the greatest key says, or with what a result is at first
if there is no row. One row that cannot be read makes them throw, wherever
it stands. -/
theorem resource_endpoints (L : ResourceLib) (db : Controller) (account : Name) :
    (∀ r, getUserresource L db account = .ok r ↔
      ∃ codeAccount, db.getAccount .systemAccountName = .ok codeAccount ∧
        (L.toAbi codeAccount.abi = .ok none ∧ r = ⟨L.defaultAsset, L.defaultAsset, 0⟩ ∨
          ∃ abi abis, L.toAbi codeAccount.abi = .ok (some abi) ∧ L.setAbi abi = .ok abis ∧
            LastSays (userresourceOf L abis) ((db.rows .systemAccountName account .userres).getD [])
              ⟨L.defaultAsset, L.defaultAsset, 0⟩ r)) ∧
    ∀ r, getRefund L db account = .ok r ↔
      ∃ codeAccount, db.getAccount .systemAccountName = .ok codeAccount ∧
        (L.toAbi codeAccount.abi = .ok none ∧ r = ⟨"", L.defaultAsset, L.defaultAsset⟩ ∨
          ∃ abi abis, L.toAbi codeAccount.abi = .ok (some abi) ∧ L.setAbi abi = .ok abis ∧
            LastSays (refundOf L abis) ((db.rows .systemAccountName account .refunds).getD [])
              ⟨"", L.defaultAsset, L.defaultAsset⟩ r) :=
  ⟨fun _ => walkSystemTable_eq_ok_iff (computes_userresourceRow (L := L)),
    fun _ => walkSystemTable_eq_ok_iff (computes_refundRow (L := L))⟩

end SqlDb
