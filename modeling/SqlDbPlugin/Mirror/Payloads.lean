import SqlDbPlugin.Lib.Captured
import SqlDbPlugin.Mirror.FailedStatements

/-!
# The payload recorded and the payload interpreted

`add_data` and `parse_actions` each look up the abi of the action's account.
Where none is stored, `parse_actions` decodes an action of the system
account by the library's abi, and `add_data` records `{}`:
`payloads_agree_iff`. The columns of `actions` are said in terms of the
value interpreted (`PayloadRow`), which the code has only as the JSON recorded.
-/

namespace SqlDb

open ActionsTable

variable {L : ChainLib} {filter : List String} {a : AddArgs} {action : Action} {b : Bool} {d : Db}
  {v : Variant} {wr : Write} {w' : World Exn Db}

/-! ## The columns of a payload -/

/-- `v` is an object, and its member `key` is the name with the text `text`,
which is empty if there is no such member. -/
def IsNameMember (L : ChainLib) (v : Variant) (key text : String) : Prop :=
  ∃ fields, v = .object fields ∧
    match fields.lookup key with
    | some m => ∃ n, L.asName m = .ok n ∧ n.str = text
    | none => text = ""

/-- The row in `actions` is of the action of the call, and what it has of
the payload is the JSON of `v` and, in the six columns, the names in `v`. -/
structure PayloadRow (L : ChainLib) (a : AddArgs) (v : Variant) (row : ActionRow) : Prop where
  account : row.account = a.action.account.str
  name : row.name = a.action.name.str
  transactionId : row.transactionId = a.transactionId
  data : row.data = L.toJson v
  eosto : IsNameMember L v "to" row.eosto
  eosfrom : IsNameMember L v "from" row.eosfrom
  receiver : IsNameMember L v "receiver" row.receiver
  payer : IsNameMember L v "payer" row.payer
  newaccount : IsNameMember L v "name" row.newaccount
  sellramAccount : IsNameMember L v "account" row.sellramAccount

/-- What is read from the JSON of `v` has the same names in it as `v`. It
may be another value: a number over 32 bits comes back as its text. -/
def ReadsBack (L : ChainLib) (v : Variant) : Prop :=
  ∃ v', L.fromString (L.toJson v).text = .ok v' ∧
    ∀ key text, IsNameMember L v' key text ↔ IsNameMember L v key text

theorem readsBack_of_eq (h : L.fromString (L.toJson v).text = .ok v) : ReadsBack L v :=
  ⟨v, h, fun _ _ => Iff.rfl⟩

theorem isNameMember_of_member {fields : List (String × Variant)} {key : String} {n : Name}
    (h : SystemContractArg.member L fields key = .ok n) : IsNameMember L (.object fields) key n.str := by
  refine ⟨fields, rfl, ?_⟩
  unfold SystemContractArg.member at h
  rcases hm : fields.lookup key with _ | m
  · rw [hm] at h
    cases h
    rfl
  · rw [hm] at h
    exact ⟨n, h, rfl⟩

/-- The columns extracted from a payload are its members. -/
theorem isNameMember_of_ofVariant {arg : SystemContractArg} (h : SystemContractArg.ofVariant L v = .ok arg) :
    IsNameMember L v "to" arg.to'.str ∧ IsNameMember L v "from" arg.from'.str ∧
      IsNameMember L v "receiver" arg.receiver.str ∧ IsNameMember L v "payer" arg.payer.str ∧
      IsNameMember L v "name" arg.name.str ∧ IsNameMember L v "account" arg.account.str := by
  cases v with
  | object fields =>
    obtain ⟨to', hto, h⟩ := Captured.bind_eq_ok h
    obtain ⟨from', hfrom, h⟩ := Captured.bind_eq_ok h
    obtain ⟨receiver, hreceiver, h⟩ := Captured.bind_eq_ok h
    obtain ⟨payer, hpayer, h⟩ := Captured.bind_eq_ok h
    obtain ⟨name, hname, h⟩ := Captured.bind_eq_ok h
    obtain ⟨account, haccount, h⟩ := Captured.bind_eq_ok h
    cases h
    exact ⟨isNameMember_of_member hto, isNameMember_of_member hfrom, isNameMember_of_member hreceiver,
      isNameMember_of_member hpayer, isNameMember_of_member hname, isNameMember_of_member haccount⟩
  | _ => cases h

/-- The row inserted with the JSON of `v` is the row of `v`. -/
theorem payloadRow_actionRow (hback : ReadsBack L v) {arg : SystemContractArg}
    (hc : contractArg L (L.toJson v) = .ok arg) :
    PayloadRow L a v (actionRow L a.action a.transactionId a.blockTime (L.toJson v) arg) := by
  obtain ⟨v', hv', hsame⟩ := hback
  obtain ⟨v'', hv'', harg⟩ := Captured.bind_eq_ok hc
  cases hv'.symm.trans hv''
  obtain ⟨hto, hfrom, hreceiver, hpayer, hname, haccount⟩ := isNameMember_of_ofVariant harg
  exact {
    account := rfl
    name := rfl
    transactionId := rfl
    data := rfl
    eosto := (hsame _ _).mp hto
    eosfrom := (hsame _ _).mp hfrom
    receiver := (hsame _ _).mp hreceiver
    payer := (hsame _ _).mp hpayer
    newaccount := (hsame _ _).mp hname
    sellramAccount := (hsame _ _).mp haccount }

/-! ## The two payloads -/

theorem setabiOf_of_not (h : ¬ IsSetabi action) : setabiOf L action = none := if_neg h

/-- The payload recorded is the JSON of what is interpreted, or it is `{}`
because no abi is stored. -/
theorem payload_of_interpreted (hd : action.data ≠ []) (hs : ¬ IsSetabi action) {abi : Option JsonText}
    (hv : interpreted L abi action = some v) :
    payload L abi action = if abi = none then .emptyObject else L.toJson v := by
  rw [payload, if_neg (fun h => hd (List.length_eq_zero_iff.mp h)), if_neg hs]
  rcases abi with _ | json
  · rfl
  · have hv : (abiFromJson L json.text >>= (decode L · action)).toOption = some v := hv
    rw [decoded, Option.bind_some, hv]
    rfl

theorem Write.apply_actions (wr : Write) (d : Db) : (wr.apply d).actions = d.actions := by
  cases wr <;> rfl

/-- The database behind a call of `add` that interprets its payload. -/
theorem run_add_of_interpreted (hf : a.action.name.str ∈ filter) (hd : a.action.data ≠ [])
    (hs : ¬ IsSetabi a.action) (hv : interpreted L (d.abiOf a.action.account.str) a.action = some v)
    (hw : dataWrite L a.action v = some wr)
    (hr : (add L filter a).run ⟨d, []⟩ = (.ok b, w')) :
    ∃ json arg, json = (if d.abiOf a.action.account.str = none then .emptyObject else L.toJson v) ∧
      contractArg L json = .ok arg ∧
      w'.db = wr.apply (d.insertAction (actionRow L a.action a.transactionId a.blockTime json arg)) := by
  rw [run_add_of_mem hf, payload_of_interpreted hd hs hv] at hr
  rcases hc : contractArg L (if d.abiOf a.action.account.str = none then .emptyObject else L.toJson v)
    with e | arg
  · rw [hc] at hr
    cases hr
  · rw [hc] at hr
    refine ⟨_, arg, rfl, hc, ?_⟩
    have hafter : w'.db = afterAdd L a arg d := by cases hr; rfl
    have hdata : afterData L a.action d = d := by rw [afterData, setabiOf_of_not hs]; rfl
    have habi (row : ActionRow) : (d.insertAction row).abiOf a.action.account.str =
      d.abiOf a.action.account.str := rfl
    rw [hafter, afterAdd, hdata, afterParse, habi, writeOf, hv, Option.bind_some, hw, Option.elim_some,
      payload_of_interpreted hd hs hv]

/-- When `parse_actions` writes a derived table from `v`, the row inserted is
that of `v` (its `data` is the JSON of `v`, and its columns are the names in
`v`) if and only if an abi is stored for the account of the action,
or the JSON of `v` is `{}` itself. -/
theorem payloads_agree_iff (hf : a.action.name.str ∈ filter) (hd : a.action.data ≠ [])
    (hs : ¬ IsSetabi a.action) (hv : interpreted L (d.abiOf a.action.account.str) a.action = some v)
    (hw : dataWrite L a.action v = some wr) (hback : ReadsBack L v)
    (hr : (add L filter a).run ⟨d, []⟩ = (.ok b, w')) :
    (∃ row, w'.db = wr.apply (d.insertAction row) ∧ PayloadRow L a v row) ↔
      d.abiOf a.action.account.str ≠ none ∨ L.toJson v = .emptyObject := by
  obtain ⟨json, arg, hjson, hc, hdb⟩ := run_add_of_interpreted hf hd hs hv hw hr
  constructor
  · rintro ⟨row, hdb', hrow⟩
    by_cases habi : d.abiOf a.action.account.str = none
    · refine .inr ?_
      have hactions := congrArg Db.actions (hdb.symm.trans hdb')
      rw [Write.apply_actions, Write.apply_actions, Db.insertAction, Db.insertAction,
        List.append_cancel_left_eq, List.singleton_inj] at hactions
      rw [if_pos habi] at hjson
      calc L.toJson v = row.data := hrow.data.symm
        _ = json := (congrArg ActionRow.data hactions).symm
        _ = .emptyObject := hjson
    · exact .inl habi
  · intro h
    have he : json = L.toJson v := by
      rw [hjson]
      split
      · rename_i habi
        exact (h.resolve_left (not_not.mpr habi)).symm
      · rfl
    rw [he] at hc hdb
    exact ⟨_, hdb, payloadRow_actionRow hback hc⟩

/-- With no abi stored for `eosio`, the new account is written to `accounts`
and `accounts_keys`, and its payload is recorded as `{}`, without the name. -/
theorem newaccount_payload_lost :
    interpreted .system none newaccountArgs.action = some newaccountVariant ∧
    dataWrite .system newaccountArgs.action newaccountVariant = some (.account newaccountAlice) ∧
    (ChainLib.toJson .system newaccountVariant).text ≠ "\x7b\x7d" ∧
    ((newaccountDatabase.add .system newaccountArgs).run ⟨{}, []⟩).1 = .ok true ∧
    ((newaccountDatabase.add .system newaccountArgs).run ⟨{}, []⟩).2.db.accounts.contents =
      [⟨"alice", none⟩] ∧
    ((newaccountDatabase.add .system newaccountArgs).run ⟨{}, []⟩).2.db.actions.map
      (fun r => (r.data.text, r.newaccount)) = [("\x7b\x7d", "")] := by
  refine ⟨rfl, rfl, ?_, rfl, ?_, ?_⟩
  · decide +kernel
  · decide +kernel
  · decide +kernel

/-- The accounts with the abi of the system contract. -/
def systemAccounts : Db := ({} : Db).upsertAbi "eosio" SystemAbi.eosio.json

theorem fromString_eosio :
    ChainLib.system.fromString SystemAbi.eosio.json.text = .ok SystemAbi.eosio.variant := by
  have hne : SystemAbi.eosio.json.text ≠ "\x7b\x7d" ∧
      SystemAbi.eosio.json.text ≠ SystemAbi.msig.json.text := by decide +kernel
  simp only [ChainLib.system]
  rw [if_neg hne.1, if_neg hne.2, if_pos trivial]

theorem readsBack_newaccount : ReadsBack .system newaccountVariant := by
  have hne : newaccountJson.text ≠ "\x7b\x7d" ∧ newaccountJson.text ≠ SystemAbi.msig.json.text ∧
      newaccountJson.text ≠ SystemAbi.eosio.json.text := by decide +kernel
  refine readsBack_of_eq ?_
  show ChainLib.system.fromString newaccountJson.text = _
  simp only [ChainLib.system]
  rw [if_neg hne.1, if_neg hne.2.1, if_neg hne.2.2, if_pos trivial]

/-- With the abi stored, the new account recorded is the one written to `accounts`. -/
theorem payloads_agree_iff_newaccount :
    ∃ row, ((add .system ["newaccount"] newaccountArgs).run ⟨systemAccounts, []⟩).2.db =
        (Write.account newaccountAlice).apply (systemAccounts.insertAction row) ∧
      PayloadRow .system newaccountArgs newaccountVariant row ∧ row.newaccount = "alice" := by
  have habi : systemAccounts.abiOf newaccountArgs.action.account.str = some SystemAbi.eosio.json := by
    decide +kernel
  have hv : interpreted .system (systemAccounts.abiOf newaccountArgs.action.account.str)
      newaccountArgs.action = some newaccountVariant := by
    simp only [habi, interpreted, abiFromJson, fromString_eosio]
    rfl
  have hok : ((add .system ["newaccount"] newaccountArgs).run ⟨systemAccounts, []⟩).1 = .ok true := by
    decide +kernel
  obtain ⟨row, hdb, hrow⟩ := (payloads_agree_iff (by decide) (by decide) (by decide) hv rfl readsBack_newaccount
    (Sql.run_eq_of_ok hok)).mpr (.inl (by rw [habi]; exact Option.some_ne_none _))
  refine ⟨row, hdb, hrow, ?_⟩
  obtain ⟨fields, hfields, hmember⟩ := hrow.newaccount
  cases hfields
  obtain ⟨n, hn, htext⟩ := hmember
  cases hn
  exact htext.symm

end SqlDb
