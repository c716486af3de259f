import SqlDbPlugin.Api.Proposals

/-!
# The lists of the multisig endpoints

`approvalsEntries` is what a row of `approvals` adds to a result: the record
of the row, with the transaction and the status of the first row of `proposal`
with the same name. Nothing in it was left over from another row, although
the record is reused: each endpoint collects what its rows add, and no other
variable is left (`getMyProposals_eq` and the equations behind it), whether
it returns or throws. `get_my_proposals` returns the entries of all rows of a
proposer (`getMyProposals_ok`), `get_pending_proposal` those of the rows with
a name, and `get_pending_proposals` those of the first row with each of the
names in the database; if names are unique, the three agree
(`proposal_endpoints_agree`).
-/

namespace SqlDb

open Captured (lift assign read declare each walk walked collect Computes)
open SqlDatabase (getSession)

variable {L : ApiLib} {db : Controller} {abis : L.Serializer}

/-! ## The entries of a row -/

/-- The record of a row of `approvals`, before its transaction and status are set. -/
def recorded (L : ApiLib) (proposer : Name) (row : Variant) : Except Exn Proposal := do
  let proposer ← Name.ofString proposer.str
  let proposalName ← row.get "proposal_name" >>= L.asName
  let requested ← row.get "requested_approvals"
  let provided ← row.get "provided_approvals"
  return ⟨proposer, proposalName, "", (L.toJson requested).text, (L.toJson provided).text, 0⟩

/-- Whether the levels provided authorize the transaction. -/
def statusOf (L : ApiLib) (db : Controller) (row : Variant) (trx : ProposedTransaction) :
    Except Exn UInt8 := do
  let provided ← row.get "provided_approvals" >>= L.asPermissionLevels
  match db.checkAuthorization trx.actions provided trx.delaySec with
  | .ok () => .ok 1
  | .error .authorization => .ok 0
  | .error (.exn e) => .error e

/-- The record with the transaction of a row of `proposal`, and its status. -/
def completed (L : ApiLib) (db : Controller) (row row2 : Variant) (pro : Proposal) :
    Except Exn Proposal := do
  let trxHex ← row2.get "packed_transaction" >>= L.asString
  let trxBlob ← L.fromHex trxHex
  let trx ← L.unpackProposed trxBlob
  let prettyOutput ← L.toVariant (makeResolver L db) trx
  let status ← statusOf L db row trx
  return { pro with transaction := (L.toJson prettyOutput).text, status }

/-- The name in a row of a table, as a text. -/
def textIn (L : ApiLib) (abis : L.Serializer) (table : Name) (obj : KeyValueObject) :
    Except Exn String := do
  let row ← L.binaryToVariant abis (L.getTableType abis table) obj.value
  row.get "proposal_name" >>= L.asString

/-- A row whose name is the text of `name`. -/
def Named (L : ApiLib) (abis : L.Serializer) (table name : Name) (obj : KeyValueObject) : Prop :=
  textIn L abis table obj = .ok name.str

instance (table name : Name) (obj : KeyValueObject) : Decidable (Named L abis table name obj) :=
  inferInstanceAs (Decidable (_ = _))

/-- The name in a row of `approvals`. -/
def nameIn (L : ApiLib) (abis : L.Serializer) (obj : KeyValueObject) : Except Exn Name := do
  let row ← L.binaryToVariant abis (L.getTableType abis .approvals) obj.value
  row.get "proposal_name" >>= L.asName

/-- The entry of a record and a row of `proposal`. -/
def entryOf (L : ApiLib) (db : Controller) (abis : L.Serializer) (row : Variant) (pro : Proposal)
    (obj : KeyValueObject) : Except Exn Proposal := do
  let row2 ← L.binaryToVariant abis (L.getTableType abis .proposal) obj.value
  completed L db row row2 pro

/-- What the rows of `proposal` add to a result for a record: the entry of the first row with its name. -/
def proposalEntries (L : ApiLib) (db : Controller) (abis : L.Serializer) (row : Variant)
    (pro : Proposal) (rows : List KeyValueObject) : List Proposal :=
  (walked (fun obj => !decide (Named L abis .proposal pro.proposalName obj)) rows).flatMap fun obj =>
    if Named L abis .proposal pro.proposalName obj then (entryOf L db abis row pro obj).toOption.toList
    else []

/-- What a row of `approvals` adds to a result. -/
def approvalsEntries (L : ApiLib) (db : Controller) (abis : L.Serializer) (proposer : Name)
    (obj : KeyValueObject) : List Proposal :=
  (do
    let row ← L.binaryToVariant abis (L.getTableType abis .approvals) obj.value
    let pro ← recorded L proposer row
    return proposalEntries L db abis row pro ((db.rows .eosioMsig proposer .proposal).getD [])
    : Except Exn (List Proposal)).toOption.getD []

/-- What a record has of its row. -/
theorem of_recorded {proposer : Name} {row : Variant} {pro : Proposal} (h : recorded L proposer row = .ok pro) :
    pro.proposer = proposer ∧ row.get "proposal_name" >>= L.asName = .ok pro.proposalName ∧
      ∃ requested, row.get "requested_approvals" = .ok requested ∧
        pro.requestedApprovals = (L.toJson requested).text := by
  obtain ⟨p, hp, h⟩ := Captured.bind_eq_ok h
  obtain ⟨n, hn, h⟩ := Captured.bind_eq_ok h
  obtain ⟨requested, hrequested, h⟩ := Captured.bind_eq_ok h
  obtain ⟨provided, -, h⟩ := Captured.bind_eq_ok h
  cases h
  exact ⟨Except.ok.inj (hp.symm.trans (Name.ofString_str proposer)), hn, requested, hrequested, rfl⟩

theorem name_of_recorded {proposer : Name} {row : Variant} {pro : Proposal}
    (h : recorded L proposer row = .ok pro) :
    row.get "proposal_name" >>= L.asName = .ok pro.proposalName :=
  (of_recorded h).2.1

/-- A row's name as a text is the text of its name. -/
theorem named_iff (hasName : ∀ v n, L.asName v = .ok n → L.asString v = .ok n.str)
    {obj : KeyValueObject} {n name : Name} (h : nameIn L abis obj = .ok n) :
    Named L abis .approvals name obj ↔ n = name := by
  obtain ⟨row, hrow, h⟩ := Captured.bind_eq_ok h
  obtain ⟨v, hv, h⟩ := Captured.bind_eq_ok h
  rw [Named, textIn, hrow, Captured.ok_bind, hv, Captured.ok_bind, hasName v n h, Except.ok.injEq]
  exact Name.str_inj

/-- An entry is the record with a transaction and a status. -/
theorem of_entryOf {row : Variant} {pro pro' : Proposal} {obj : KeyValueObject}
    (h : entryOf L db abis row pro obj = .ok pro') :
    ∃ transaction status, pro' = { pro with transaction, status } := by
  obtain ⟨row2, -, h⟩ := Captured.bind_eq_ok h
  obtain ⟨trxHex, -, h⟩ := Captured.bind_eq_ok h
  obtain ⟨trxBlob, -, h⟩ := Captured.bind_eq_ok h
  obtain ⟨trx, -, h⟩ := Captured.bind_eq_ok h
  obtain ⟨prettyOutput, -, h⟩ := Captured.bind_eq_ok h
  obtain ⟨status, -, h⟩ := Captured.bind_eq_ok h
  cases h
  exact ⟨_, _, rfl⟩

/-- The entries of a row are made of its record. -/
theorem of_mem_approvalsEntries {proposer : Name} {obj : KeyValueObject} {pro : Proposal}
    (h : pro ∈ approvalsEntries L db abis proposer obj) : ∃ row pro₀ transaction status,
      L.binaryToVariant abis (L.getTableType abis .approvals) obj.value = .ok row ∧
      recorded L proposer row = .ok pro₀ ∧ pro = { pro₀ with transaction, status } := by
  obtain ⟨entries, h, hentries⟩ := Captured.mem_toOption_getD h
  obtain ⟨row, hrow, h⟩ := Captured.bind_eq_ok h
  obtain ⟨pro₀, hpro, h⟩ := Captured.bind_eq_ok h
  cases h
  obtain ⟨obj', -, hentry⟩ := List.mem_flatMap.mp hentries
  split at hentry
  · obtain ⟨transaction, status, heq⟩ := of_entryOf (Captured.mem_toOption_toList.mp hentry)
    exact ⟨row, pro₀, transaction, status, hrow, hpro, heq⟩
  · cases hentry

/-- The entries of a row have its name. -/
theorem name_of_mem_approvalsEntries {proposer : Name} {obj : KeyValueObject} {pro : Proposal}
    (h : pro ∈ approvalsEntries L db abis proposer obj) : nameIn L abis obj = .ok pro.proposalName := by
  obtain ⟨row, pro₀, transaction, status, hrow, hpro, rfl⟩ := of_mem_approvalsEntries h
  have hname := name_of_recorded hpro
  rw [nameIn, hrow]
  exact hname

/-! ## What the callbacks compute -/

/-- The rows of the proposals of a proposer. -/
def proposalsOf (db : Controller) (proposer : Name) : List KeyValueObject :=
  (db.rows .eosioMsig proposer .proposal).getD []

/-- Whether to go on behind a row of `proposal`, and what it adds for a record. -/
def readProposal (L : ApiLib) (db : Controller) (abis : L.Serializer) (row : Variant) (pro : Proposal)
    (same : String → Except Exn Bool) (obj : KeyValueObject) : Except Exn (Bool × List Proposal) := do
  let row2 ← L.binaryToVariant abis (L.getTableType abis .proposal) obj.value
  let text ← row2.get "proposal_name" >>= L.asString
  if ← same text then (completed L db row row2 pro).map fun pro => (false, [pro])
  else return (true, [])

/-- What a row of `approvals` adds, once it is read. -/
def readApprovals (L : ApiLib) (db : Controller) (abis : L.Serializer) (proposer : Name) (row : Variant)
    (same : Name → String → Except Exn Bool) (more : Bool) : Except Exn (Bool × List Proposal) := do
  let pro ← recorded L proposer row
  let added ← collect (readProposal L db abis row pro (same pro.proposalName)) (proposalsOf db proposer)
  return (more, added)

/-- Compares texts. -/
def textSame (proposalName : Name) (text : String) : Except Exn Bool := .ok (text = proposalName.str)

/-- Compares names, and throws if the text is none. -/
def nameSame (proposalName : Name) (text : String) : Except Exn Bool := do
  let name ← Name.ofString text
  return name = proposalName

theorem computes_setApprovals (proposer : Name) (row : Variant) (s : Proposal × List Proposal) :
    Computes (setApprovals L proposer row) s
      (fun _ pro s' => s' = ({ pro with status := s.1.status }, s.2)) (recorded L proposer row) := by
  refine .lift fun p _ => .assign_bind (.lift fun n _ => .assign_bind (.lift fun requested _ =>
    .assign_bind (.lift fun provided _ => .assign ?_)))
  rfl

theorem computes_setStatus (row : Variant) (trx : ProposedTransaction) (s : Proposal × List Proposal) :
    Computes (setStatus L db row trx) s (fun _ status s' => s' = ({ s.1 with status }, s.2))
      (statusOf L db row trx) := by
  refine .assign_bind (.lift fun provided _ => ?_)
  rcases db.checkAuthorization trx.actions provided trx.delaySec with (_ | e) | _
  · exact .pure rfl
  · exact .throw e
  · exact .assign rfl

/-- The variables before the callback for `proposal` stops: no field of the
record has changed but its status, which may be left over. -/
def Holds (pro : Proposal) (s : Proposal × List Proposal) : Prop := ∃ status, s.1 = { pro with status }

/-- A comparison with the name in the record. -/
def Compares (same : String → ProposalM Bool) (same' : String → Except Exn Bool) (pro : Proposal) : Prop :=
  ∀ text s, Holds pro s → Computes (same text) s (fun b b' s' => b = b' ∧ s' = s) (same' text)

theorem compares_sameText (proposalName : Name) (pro : Proposal) :
    Compares (sameText proposalName) (textSame proposalName) pro :=
  fun _ _ _ => .pure ⟨rfl, rfl⟩

theorem compares_sameName (pro : Proposal) : Compares sameName (nameSame pro.proposalName) pro := by
  rintro text s ⟨status, hs⟩
  refine .lift fun name _ => .ok (a := decide (name = s.1.proposalName)) rfl ⟨?_, rfl⟩
  rw [hs]

theorem computes_proposalRow {same : String → ProposalM Bool} {same' : String → Except Exn Bool}
    {pro : Proposal} (h : Compares same same' pro) (row : Variant) (obj : KeyValueObject)
    (s : Proposal × List Proposal) (hs : Holds pro s) :
    Computes (proposalRow L db abis row same obj) s (fun more r s' =>
      more = r.1 ∧ s'.2 = s.2 ++ r.2 ∧ (more = true → Holds pro s')) (readProposal L db abis row pro same' obj) := by
  refine .lift fun row2 _ => .lift fun text _ => .bind (h text s hs) fun b b' s₁ hb => ?_
  obtain ⟨rfl, rfl⟩ := hb
  cases b with
  | false => exact .pure ⟨rfl, (List.append_nil _).symm, fun _ => hs⟩
  | true =>
    have hcompleted : Computes (do
        let trxHex ← lift (row2.get "packed_transaction" >>= L.asString)
        let trxBlob ← lift (L.fromHex trxHex)
        let trx ← lift (L.unpackProposed trxBlob)
        let prettyOutput ← lift (L.toVariant (makeResolver L db) trx)
        setPro ({ · with transaction := (L.toJson prettyOutput).text })
        setStatus L db row trx
        assign fun s => (s.1, s.2 ++ [s.1])
        return false) s₁ (fun more pro' s' => more = false ∧ s'.2 = s₁.2 ++ [pro'])
        (completed L db row row2 pro) := by
      refine .lift fun trxHex _ => .lift fun trxBlob _ => .lift fun trx _ => .lift fun prettyOutput _ =>
        .assign_bind (.bind (computes_setStatus row trx _) fun _ status s₂ h₂ => .assign_bind (.pure ⟨rfl, ?_⟩))
      obtain ⟨pro₁, proposals⟩ := s₁
      obtain ⟨status₁, rfl⟩ : ∃ status, pro₁ = { pro with status } := hs
      rw [h₂]
    refine hcompleted.map fun more pro' s' h => ?_
    obtain ⟨rfl, hs'⟩ := h
    exact ⟨rfl, hs', fun h => absurd h Bool.false_ne_true⟩

/-- What the callbacks have in common: they record the row, and look for its proposal. -/
theorem computes_record {same : String → ProposalM Bool} {same' : Name → String → Except Exn Bool}
    (h : ∀ pro, Compares same (same' pro.proposalName) pro) (proposer : Name) (row : Variant) (more : Bool)
    (s : Proposal × List Proposal) :
    Computes (do
        setApprovals L proposer row
        walkKeyValueTable db .eosioMsig proposer .proposal (proposalRow L db abis row same) (return ())
        return more) s (fun more' r s' => more' = r.1 ∧ s'.2 = s.2 ++ r.2)
      (readApprovals L db abis proposer row same' more) := by
  refine .bind (computes_setApprovals proposer row s) fun _ pro s₁ h₁ => ?_
  have hwalk : Computes (walkKeyValueTable db .eosioMsig proposer .proposal (proposalRow L db abis row same)
      (return ())) s₁ (fun _ added s' => s'.2 = s₁.2 ++ added)
      (collect (readProposal L db abis row pro (same' pro.proposalName)) (proposalsOf db proposer)) := by
    rw [walkKeyValueTable_pure]
    exact .walk (fun obj _ s hs => computes_proposalRow (h pro) row obj s hs) ⟨s.1.status, by rw [h₁]⟩
  exact .bind hwalk fun _ added s₂ h₂ => .pure ⟨rfl, by rw [h₂, h₁]⟩

/-- The row of `get_my_proposals`. -/
def readMine (L : ApiLib) (db : Controller) (abis : L.Serializer) (proposer : Name) (obj : KeyValueObject) :
    Except Exn (Bool × List Proposal) := do
  let row ← L.binaryToVariant abis (L.getTableType abis .approvals) obj.value
  readApprovals L db abis proposer row nameSame true

/-- The row of `get_pending_proposal`. -/
def readPending (L : ApiLib) (db : Controller) (abis : L.Serializer) (proposer proposalName : Name)
    (obj : KeyValueObject) : Except Exn (Bool × List Proposal) := do
  let row ← L.binaryToVariant abis (L.getTableType abis .approvals) obj.value
  let name ← row.get "proposal_name" >>= L.asName
  if proposalName ≠ name then return (true, [])
  else readApprovals L db abis proposer row nameSame true

/-- The row of `get_pending_proposals`. -/
def readSearched (L : ApiLib) (db : Controller) (abis : L.Serializer) (proposer proposalName : Name)
    (obj : KeyValueObject) : Except Exn (Bool × List Proposal) := do
  let row ← L.binaryToVariant abis (L.getTableType abis .approvals) obj.value
  let text ← row.get "proposal_name" >>= L.asString
  if text = proposalName.str then readApprovals L db abis proposer row (fun _ => textSame proposalName) false
  else return (true, [])

theorem computes_myProposalsRow (proposer : Name) (obj : KeyValueObject) (s : Proposal × List Proposal) :
    Computes (myProposalsRow L db abis proposer obj) s (fun more r s' => more = r.1 ∧ s'.2 = s.2 ++ r.2)
      (readMine L db abis proposer obj) :=
  .lift fun row _ => computes_record compares_sameName proposer row true s

theorem computes_pendingProposalRow (proposer proposalName : Name) (obj : KeyValueObject)
    (s : Proposal × List Proposal) :
    Computes (pendingProposalRow L db abis proposer proposalName obj) s
      (fun more r s' => more = r.1 ∧ s'.2 = s.2 ++ r.2) (readPending L db abis proposer proposalName obj) := by
  refine .lift fun row _ => .lift fun name _ => ?_
  split
  · exact .pure ⟨rfl, (List.append_nil _).symm⟩
  · exact computes_record compares_sameName proposer row true s

theorem computes_pendingProposalsRow (proposer proposalName : Name) (obj : KeyValueObject)
    (s : Proposal × List Proposal) :
    Computes (pendingProposalsRow L db abis proposer proposalName obj) s
      (fun more r s' => more = r.1 ∧ s'.2 = s.2 ++ r.2) (readSearched L db abis proposer proposalName obj) := by
  refine .lift fun row _ => .lift fun text _ => ?_
  split
  · exact computes_record (compares_sameText proposalName) proposer row false s
  · exact .pure ⟨rfl, (List.append_nil _).symm⟩

/-! ## The lists -/

/-- The rows of the approvals of a proposer. -/
def approvalsOf (db : Controller) (proposer : Name) : List KeyValueObject :=
  (db.rows .eosioMsig proposer .approvals).getD []

theorem computes_approvalsOf {f : KeyValueObject → ProposalM Bool}
    {g : KeyValueObject → Except Exn (Bool × List Proposal)}
    (h : ∀ obj s, Computes (f obj) s (fun more r s' => more = r.1 ∧ s'.2 = s.2 ++ r.2) (g obj))
    (proposer : Name) (pro : Proposal) (proposals : List Proposal) :
    Computes (declare pro (walkKeyValueTable db .eosioMsig proposer .approvals f (return ()))) proposals
      (fun _ added proposals' => proposals' = proposals ++ added) (collect g (approvalsOf db proposer)) := by
  rw [walkKeyValueTable_pure]
  refine .declare (.walk (I := fun _ => True) (fun obj _ s _ => ?_) trivial)
  refine (h obj s).mono fun more r s' hr => ?_
  exact ⟨hr.1, hr.2, fun _ => trivial⟩

theorem bind_makeResolver {α : Type} (f : L.Serializer → Except Exn α) :
    (getAbi L db .eosioMsig >>= fun abi => L.setAbi abi >>= f) = makeResolver L db .eosioMsig >>= f := by
  rw [makeResolver]
  rcases getAbi L db .eosioMsig with _ | _ <;> rfl

/-- `get_my_proposals` collects what the rows of the account add. -/
theorem getMyProposals_eq (uninit : UInt8) (account : Name) :
    getMyProposals L db uninit account = makeResolver L db .eosioMsig >>= fun abis =>
      collect (readMine L db abis account) (approvalsOf db account) := by
  rw [getMyProposals, bind_makeResolver]
  exact congrArg _ (funext fun abis =>
    (computes_approvalsOf (computes_myProposalsRow account) account _ []).result_nil)

theorem getPendingProposal_eq (uninit : UInt8) (proposer proposalName : Name) :
    getPendingProposal L db uninit proposer proposalName = makeResolver L db .eosioMsig >>= fun abis =>
      collect (readPending L db abis proposer proposalName) (approvalsOf db proposer) := by
  rw [getPendingProposal, bind_makeResolver]
  exact congrArg _ (funext fun abis =>
    (computes_approvalsOf (computes_pendingProposalRow proposer proposalName) proposer _ []).result_nil)

/-- What `get_pending_proposals` collects for the rows of the database that match. -/
def searchProposals (L : ApiLib) (db : Controller) (matched : List ProposalRow) : Except Exn (List Proposal) :=
  makeResolver L db .eosioMsig >>= fun abis =>
    collect (fun it => (collect (readSearched L db abis (L.stringToName it.proposer)
      (L.stringToName it.proposalName)) (approvalsOf db (L.stringToName it.proposer))).map (Prod.mk true)) matched

theorem getPendingProposals_eq (uninit : ProposalRow → UInt8) (account : Name) :
    getPendingProposals L db uninit account = (do
      getSession
      let matched ← ActionsTable.getProposal L account.str
      Sql.lift (searchProposals L db matched)) := by
  refine congrArg _ (funext fun _ => congrArg _ (funext fun matched => congrArg _ ?_))
  rw [bind_makeResolver]
  refine congrArg _ (funext fun abis => Computes.result_nil (.each (fun it _ proposals => ?_) []))
  exact computes_approvalsOf (computes_pendingProposalsRow _ _) _ _ proposals

/-- If no statement fails, the proposals found are searched for. -/
theorem run_getPendingProposals {uninit : ProposalRow → UInt8} {account : Name} {d : Db}
    {matched : List ProposalRow} (h : ((ActionsTable.getProposal L account.str).run ⟨d, []⟩).1 = .ok matched) :
    ((getPendingProposals L db uninit account).run ⟨d, []⟩).1 = searchProposals L db matched := by
  cases h
  rw [getPendingProposals_eq]
  rfl

/-! ## The entries -/

/-- The comparison, if it returns, says whether a text is the name's. -/
def Tells (same : String → Except Exn Bool) (name : Name) : Prop :=
  ∀ text b, same text = .ok b → b = decide (text = name.str)

theorem tells_textSame (name : Name) : Tells (textSame name) name := fun _ _ h => (Except.ok.inj h).symm

/-- The comparison of names throws if the text is none, so a text it takes for the name is the name's. -/
theorem tells_nameSame (name : Name) : Tells (nameSame name) name := by
  intro text b h
  obtain ⟨n, hn, h⟩ := Captured.bind_eq_ok h
  cases h
  rw [← Name.str_of_ofString hn]
  exact decide_eq_decide.mpr Name.str_inj.symm

theorem readProposal_ok {row : Variant} {pro : Proposal} {same : String → Except Exn Bool}
    (hsame : Tells same pro.proposalName) {obj : KeyValueObject} {r : Bool × List Proposal}
    (h : readProposal L db abis row pro same obj = .ok r) :
    r = (!decide (Named L abis .proposal pro.proposalName obj),
      if Named L abis .proposal pro.proposalName obj then (entryOf L db abis row pro obj).toOption.toList
      else []) := by
  obtain ⟨row2, hrow2, h⟩ := Captured.bind_eq_ok h
  obtain ⟨text, htext, h⟩ := Captured.bind_eq_ok h
  obtain ⟨b, hb, h⟩ := Captured.bind_eq_ok h
  have hnamed : Named L abis .proposal pro.proposalName obj ↔ text = pro.proposalName.str := by
    rw [Named, textIn, hrow2, Captured.ok_bind, htext, Except.ok.injEq]
  obtain rfl := hsame text b hb
  by_cases heq : text = pro.proposalName.str
  · rw [if_pos (decide_eq_true heq)] at h
    obtain ⟨pro', hpro', rfl⟩ := Captured.map_eq_ok_iff.mp h
    rw [if_pos (hnamed.mpr heq), decide_eq_true (hnamed.mpr heq), entryOf, hrow2, Captured.ok_bind, hpro']
    rfl
  · rw [if_neg (by simpa using heq)] at h
    cases h
    rw [if_neg (mt hnamed.mp heq), decide_eq_false (mt hnamed.mp heq)]
    rfl

theorem readApprovals_ok {proposer : Name} {obj : KeyValueObject} {row : Variant}
    (hrow : L.binaryToVariant abis (L.getTableType abis .approvals) obj.value = .ok row)
    {same : Name → String → Except Exn Bool}
    (hsame : ∀ name, nameIn L abis obj = .ok name → Tells (same name) name) {more : Bool}
    {r : Bool × List Proposal} (h : readApprovals L db abis proposer row same more = .ok r) :
    r = (more, approvalsEntries L db abis proposer obj) := by
  obtain ⟨pro, hpro, h⟩ := Captured.bind_eq_ok h
  obtain ⟨added, hadded, h⟩ := Captured.bind_eq_ok h
  cases h
  have hname : nameIn L abis obj = .ok pro.proposalName := by
    rw [nameIn, hrow]
    exact name_of_recorded hpro
  have hentries := ((Captured.collect_eq_ok_iff fun obj _ r hr =>
    readProposal_ok (hsame pro.proposalName hname) hr).mp hadded).1
  rw [hentries, approvalsEntries, hrow, Captured.ok_bind, hpro]
  rfl

theorem readMine_ok {proposer : Name} {obj : KeyValueObject} {r : Bool × List Proposal}
    (h : readMine L db abis proposer obj = .ok r) : r = (true, approvalsEntries L db abis proposer obj) := by
  obtain ⟨row, hrow, h⟩ := Captured.bind_eq_ok h
  exact readApprovals_ok hrow (fun name _ => tells_nameSame name) h

theorem readPending_ok {proposer proposalName : Name} {obj : KeyValueObject} {r : Bool × List Proposal}
    (h : readPending L db abis proposer proposalName obj = .ok r) :
    r = (true, if nameIn L abis obj = .ok proposalName then approvalsEntries L db abis proposer obj else []) ∧
      ∃ name, nameIn L abis obj = .ok name := by
  obtain ⟨row, hrow, h⟩ := Captured.bind_eq_ok h
  obtain ⟨name, hname, h⟩ := Captured.bind_eq_ok h
  have hin : nameIn L abis obj = .ok name := by
    rw [nameIn, hrow]
    exact hname
  refine ⟨?_, name, hin⟩
  by_cases heq : proposalName = name
  · rw [if_neg (not_not.mpr heq)] at h
    rw [if_pos (heq ▸ hin)]
    exact readApprovals_ok hrow (fun name _ => tells_nameSame name) h
  · rw [if_pos heq] at h
    cases h
    rw [if_neg fun h => heq (Except.ok.inj (h.symm.trans hin))]

theorem readSearched_ok (hasName : ∀ v n, L.asName v = .ok n → L.asString v = .ok n.str)
    {proposer proposalName : Name} {obj : KeyValueObject} {r : Bool × List Proposal}
    (h : readSearched L db abis proposer proposalName obj = .ok r) :
    r = (!decide (Named L abis .approvals proposalName obj),
      if Named L abis .approvals proposalName obj then approvalsEntries L db abis proposer obj else []) := by
  obtain ⟨row, hrow, h⟩ := Captured.bind_eq_ok h
  obtain ⟨text, htext, h⟩ := Captured.bind_eq_ok h
  have hnamed : Named L abis .approvals proposalName obj ↔ text = proposalName.str := by
    rw [Named, textIn, hrow, Captured.ok_bind, htext, Except.ok.injEq]
  by_cases heq : text = proposalName.str
  · rw [if_pos heq] at h
    rw [if_pos (hnamed.mpr heq), decide_eq_true (hnamed.mpr heq)]
    refine readApprovals_ok hrow (fun name hname => ?_) h
    rw [(named_iff hasName hname).mp (hnamed.mpr heq)]
    exact tells_textSame proposalName
  · rw [if_neg heq] at h
    cases h
    rw [if_neg (mt hnamed.mp heq), decide_eq_false (mt hnamed.mp heq)]
    rfl

theorem getMyProposals_ok {uninit : UInt8} {proposer : Name} {mine : List Proposal}
    (h : getMyProposals L db uninit proposer = .ok mine) :
    ∃ abis, makeResolver L db .eosioMsig = .ok abis ∧
      mine = (approvalsOf db proposer).flatMap (approvalsEntries L db abis proposer) := by
  rw [getMyProposals_eq] at h
  obtain ⟨abis, habis, h⟩ := Captured.bind_eq_ok h
  have hmine := ((Captured.collect_eq_ok_iff fun _ _ _ hr => readMine_ok hr).mp h).1
  rw [Captured.walked_of_true fun _ _ => rfl] at hmine
  exact ⟨abis, habis, hmine⟩

theorem getPendingProposal_ok {uninit : UInt8} {proposer proposalName : Name} {one : List Proposal}
    (h : getPendingProposal L db uninit proposer proposalName = .ok one) :
    ∃ abis, makeResolver L db .eosioMsig = .ok abis ∧
      one = ((approvalsOf db proposer).flatMap fun obj =>
        if nameIn L abis obj = .ok proposalName then approvalsEntries L db abis proposer obj else []) ∧
      ∀ obj ∈ approvalsOf db proposer, ∃ name, nameIn L abis obj = .ok name := by
  rw [getPendingProposal_eq] at h
  obtain ⟨abis, habis, h⟩ := Captured.bind_eq_ok h
  obtain ⟨hone, hrows⟩ := (Captured.collect_eq_ok_iff fun _ _ _ hr => (readPending_ok hr).1).mp h
  rw [Captured.walked_of_true fun _ _ => rfl] at hone hrows
  refine ⟨abis, habis, hone, fun obj hobj => ?_⟩
  obtain ⟨r, hr⟩ := hrows obj hobj
  exact (readPending_ok hr).2

/-- The rows a walk of `get_pending_proposals` calls its callback on. -/
def searched (L : ApiLib) (db : Controller) (abis : L.Serializer) (proposer proposalName : Name) :
    List KeyValueObject :=
  walked (fun obj => !decide (Named L abis .approvals proposalName obj)) (approvalsOf db proposer)

/-- What `get_pending_proposals` returns for a row of the database that matches. -/
def searchedEntries (L : ApiLib) (db : Controller) (abis : L.Serializer) (proposer proposalName : Name) :
    List Proposal :=
  (searched L db abis proposer proposalName).flatMap fun obj =>
    if Named L abis .approvals proposalName obj then approvalsEntries L db abis proposer obj else []

theorem collect_readSearched_ok (hasName : ∀ v n, L.asName v = .ok n → L.asString v = .ok n.str)
    {proposer proposalName : Name} {l : List Proposal} :
    collect (readSearched L db abis proposer proposalName) (approvalsOf db proposer) = .ok l ↔
      l = searchedEntries L db abis proposer proposalName ∧
        ∀ obj ∈ searched L db abis proposer proposalName,
          ∃ r, readSearched L db abis proposer proposalName obj = .ok r :=
  Captured.collect_eq_ok_iff fun _ _ _ hr => readSearched_ok hasName hr

theorem searchProposals_ok (hasName : ∀ v n, L.asName v = .ok n → L.asString v = .ok n.str)
    (habis : makeResolver L db .eosioMsig = .ok abis) {matched : List ProposalRow} {all : List Proposal} :
    searchProposals L db matched = .ok all ↔
      (all = matched.flatMap fun it =>
        searchedEntries L db abis (L.stringToName it.proposer) (L.stringToName it.proposalName)) ∧
      ∀ it ∈ matched, ∀ obj ∈ searched L db abis (L.stringToName it.proposer) (L.stringToName it.proposalName),
        ∃ r, readSearched L db abis (L.stringToName it.proposer) (L.stringToName it.proposalName) obj =
          .ok r := by
  rw [searchProposals, habis, Captured.ok_bind, Captured.collect_eq_ok_iff (p := fun _ => true)
    (f := fun it => searchedEntries L db abis (L.stringToName it.proposer) (L.stringToName it.proposalName))]
  · rw [Captured.walked_of_true fun _ _ => rfl]
    refine and_congr_right fun _ => forall₂_congr fun it _ => ?_
    constructor
    · rintro ⟨r, hr⟩
      obtain ⟨l, hl, -⟩ := Captured.map_eq_ok_iff.mp hr
      exact ((collect_readSearched_ok hasName).mp hl).2
    · intro hrows
      exact ⟨_, Captured.map_eq_ok_iff.mpr ⟨_, (collect_readSearched_ok hasName).mpr ⟨rfl, hrows⟩, rfl⟩⟩
  · intro it _ r hr
    obtain ⟨l, hl, rfl⟩ := Captured.map_eq_ok_iff.mp hr
    exact congrArg (Prod.mk true) ((collect_readSearched_ok hasName).mp hl).1

theorem getPendingProposals_ok (hasName : ∀ v n, L.asName v = .ok n → L.asString v = .ok n.str)
    {uninit : ProposalRow → UInt8} {account : Name} {w : World Exn Db} {matched : List ProposalRow}
    {all : List Proposal}
    (hmatched : ((ActionsTable.getProposal L account.str).run ⟨w.db, []⟩).1 = .ok matched)
    (h : ((getPendingProposals L db uninit account).run w).1 = .ok all) :
    ∃ abis, makeResolver L db .eosioMsig = .ok abis ∧
      all = matched.flatMap fun it =>
        searchedEntries L db abis (L.stringToName it.proposer) (L.stringToName it.proposalName) := by
  cases hmatched
  rw [getPendingProposals_eq, getSession] at h
  have h := Sql.of_run_query_bind h
  rw [ActionsTable.getProposal] at h
  have h := Sql.of_run_query_bind h
  obtain ⟨abis, habis, -⟩ := Captured.bind_eq_ok h
  exact ⟨abis, habis, ((searchProposals_ok hasName habis).mp h).1⟩

/-! ## The three endpoints -/

/-- The rows of the approvals of a proposer have different names. -/
def UniqueNames (L : ApiLib) (db : Controller) : Prop :=
  ∀ abis, makeResolver L db .eosioMsig = .ok abis → ∀ proposer,
    (approvalsOf db proposer).Pairwise fun a b =>
      ∀ name, nameIn L abis a = .ok name → nameIn L abis b ≠ .ok name

/-- Among the entries of all rows, those with a name are the entries of the rows with the name. -/
theorem filter_flatMap_entries {proposer : Name} (proposalName : Name) {rows : List KeyValueObject}
    (hnames : ∀ obj ∈ rows, ∃ name, nameIn L abis obj = .ok name) :
    (rows.flatMap (approvalsEntries L db abis proposer)).filter (·.proposalName = proposalName) =
      rows.flatMap fun obj =>
        if nameIn L abis obj = .ok proposalName then approvalsEntries L db abis proposer obj else [] := by
  rw [List.filter_flatMap]
  refine List.flatMap_congr fun obj hobj => ?_
  obtain ⟨name, hname⟩ := hnames obj hobj
  have hentries (pro : Proposal) (hpro : pro ∈ approvalsEntries L db abis proposer obj) :
      pro.proposalName = name :=
    Except.ok.inj ((name_of_mem_approvalsEntries hpro).symm.trans hname)
  by_cases heq : name = proposalName
  · rw [if_pos (heq ▸ hname)]
    exact List.filter_eq_self.mpr fun pro hpro => decide_eq_true ((hentries pro hpro).trans heq)
  · rw [if_neg fun h => heq (Except.ok.inj (hname.symm.trans h))]
    exact List.filter_eq_nil_iff.mpr fun pro hpro h =>
      heq ((hentries pro hpro).symm.trans (of_decide_eq_true h))

/-- The search that stops at the first row with the text of a name finds all
that the search through all rows does, if no other row has the name. -/
theorem flatMap_searched (hasName : ∀ v n, L.asName v = .ok n → L.asString v = .ok n.str)
    {proposer proposalName : Name}
    (hunique : (approvalsOf db proposer).Pairwise fun a b =>
      ∀ name, nameIn L abis a = .ok name → nameIn L abis b ≠ .ok name)
    (hnames : ∀ obj ∈ approvalsOf db proposer, ∃ name, nameIn L abis obj = .ok name) :
    searchedEntries L db abis proposer proposalName =
      (approvalsOf db proposer).flatMap fun obj =>
        if nameIn L abis obj = .ok proposalName then approvalsEntries L db abis proposer obj else [] := by
  have hnamed (obj : KeyValueObject) (hobj : obj ∈ approvalsOf db proposer) :
      Named L abis .approvals proposalName obj ↔ nameIn L abis obj = .ok proposalName := by
    obtain ⟨name, hname⟩ := hnames obj hobj
    rw [named_iff hasName hname, hname, Except.ok.injEq]
  have hone : (approvalsOf db proposer).Pairwise fun a b =>
      (!decide (Named L abis .approvals proposalName a)) = true ∨
        (!decide (Named L abis .approvals proposalName b)) = true := by
    refine hunique.imp_of_mem fun {a b} ha hb hab => ?_
    by_cases h : Named L abis .approvals proposalName a
    · have hb' := mt (hnamed b hb).mp (hab proposalName ((hnamed a ha).mp h))
      exact .inr (by rw [decide_eq_false hb']; rfl)
    · exact .inl (by rw [decide_eq_false h]; rfl)
  rw [searchedEntries, searched, Captured.flatMap_walked (fun obj hobj => if_neg (by simpa using hobj)) hone]
  refine List.flatMap_congr fun obj hobj => ?_
  simp only [hnamed obj hobj]

/-- The entries of `get_my_proposals` with a name are the list of
`get_pending_proposal`, and `get_pending_proposals` returns that list for
each row of the database that matches, one after the other. -/
theorem proposal_endpoints_agree (L : ApiLib) (db : Controller)
    (hasName : ∀ v n, L.asName v = .ok n → L.asString v = .ok n.str) (hunique : UniqueNames L db) :
    (∀ (uninit₁ uninit₂ : UInt8) (proposer proposalName : Name) (mine one : List Proposal),
      getMyProposals L db uninit₁ proposer = .ok mine →
      getPendingProposal L db uninit₂ proposer proposalName = .ok one →
      mine.filter (·.proposalName = proposalName) = one) ∧
    (∀ (uninit₁ uninit₂ : ProposalRow → UInt8) (w : World Exn Db) (account : Name)
      (matched : List ProposalRow) (all : List Proposal) (ones : List (List Proposal)),
      ((ActionsTable.getProposal L account.str).run ⟨w.db, []⟩).1 = .ok matched →
      ((getPendingProposals L db uninit₁ account).run w).1 = .ok all →
      matched.mapM (fun it => getPendingProposal L db (uninit₂ it) (L.stringToName it.proposer)
        (L.stringToName it.proposalName)) = .ok ones →
      all = ones.flatten) := by
  constructor
  · intro uninit₁ uninit₂ proposer proposalName mine one hmine hone
    obtain ⟨abis, habis, rfl⟩ := getMyProposals_ok hmine
    obtain ⟨abis', habis', rfl, hnames⟩ := getPendingProposal_ok hone
    cases habis.symm.trans habis'
    exact filter_flatMap_entries proposalName hnames
  · intro uninit₁ uninit₂ w account matched all ones hmatched hall hones
    obtain ⟨abis, habis, rfl⟩ := getPendingProposals_ok hasName hmatched hall
    clear hmatched hall
    replace hones := Captured.forall₂_of_mapM hones
    induction hones with
    | nil => rfl
    | cons hone _ ih =>
      obtain ⟨abis', habis', rfl, hnames⟩ := getPendingProposal_ok hone
      cases habis.symm.trans habis'
      rw [List.flatMap_cons, List.flatten_cons, flatMap_searched hasName (hunique abis habis _) hnames, ih]

theorem ApiLib.sample_asString (v : Variant) (n : Name) (h : ApiLib.sample.asName v = .ok n) :
    ApiLib.sample.asString v = .ok n.str := by
  cases v with
  | string s => exact congrArg Except.ok (Name.str_of_ofString h).symm
  | _ => cases h

/-- A database with the proposal of `alice` only. -/
def payProposals : Db :=
  ({} : Db).upsertProposal
    ⟨"alice", "pay", "[\x7b\"actor\":\"alice\",\"permission\":\"active\"\x7d]"⟩

/-- What the endpoints show of it. -/
def payShown : Proposal :=
  ⟨alice, pay, emptyTransactionJson.text,
    "[\x7b\"actor\":\"alice\",\"permission\":\"active\"\x7d]", "[]", 1⟩

theorem toAbi_msig {data : Bytes} (hshort : ¬ data.length ≤ 4) (htoken : data ≠ ApiAbi.packedToken)
    (hmsig : data = ApiAbi.packedMsig) : ApiLib.sample.toAbi data = .ok (some ApiAbi.msig) :=
  (if_neg hshort).trans ((if_neg htoken).trans (if_pos hmsig))

theorem makeResolver_sample {db : Controller} (h : db.accounts = Controller.sample.accounts) :
    makeResolver .sample db .eosioMsig = .ok ApiAbi.msig := by
  refine makeResolver_eq ⟨.eosioMsig, ApiAbi.packedMsig⟩ ?_ ?_
  · rw [h]
    rfl
  · exact toAbi_msig (by decide +kernel) (by decide +kernel) rfl

/-! ## Two proposals of `alice` -/

def send : Name := ⟨"send", by decide⟩

/-- The permission `old` of `bob`. -/
def bobOld : PermissionLevel := ⟨⟨"bob", by decide⟩, ⟨"old", by decide⟩⟩

def packedBobOld : Bytes := packedBob ++ [0, 0, 0, 0, 0, 0, 0x52, 0xa4]

/-- A transaction of a `ping` that `aliceActive` and `bobOld` are to authorize. -/
def sendTransaction : ProposedTransaction :=
  ⟨⟨"ca8311c8548cdb834f22e71fb8faec9ce7b29e8672c73b64694c64557642f21c",
    [{ badPing with authorization := [aliceActive, bobOld] }]⟩, 0⟩

def packedSendTransaction : Bytes :=
  List.replicate 14 0 ++ [1, 0, 0, 0, 0, 0x5c, 0xc5, 0xa6, 0xab, 0, 0, 0, 0, 0, 0xc0, 0xa6, 0xab, 2] ++
    packedAlice ++ packedActive ++ packedBobOld ++ [2, 1, 63, 0]

def sendHex : String :=
  "000000000000000000000000000001000000005cc5a6ab0000000000c0a6ab020000000000855c3400000000a8ed32320000000000000e3d00000000000052a402013f00"

def sendTransactionVariant : Variant :=
  .object [("expiration", .string "1970-01-01T00:00:00"), ("ref_block_num", .uint64 0),
    ("ref_block_prefix", .uint64 0), ("max_net_usage_words", .uint64 0),
    ("max_cpu_usage_ms", .uint64 0), ("delay_sec", .uint64 0), ("context_free_actions", .array []),
    ("actions", .array [.object [("account", .string "pinger"), ("name", .string "ping"),
      ("authorization", .array [aliceActive.toVariant, bobOld.toVariant]), ("data", .string "013f")]]),
    ("transaction_extensions", .array [])]

def sendTransactionJson : JsonText :=
  ⟨"\x7b\"expiration\":\"1970-01-01T00:00:00\",\"ref_block_num\":0,\"ref_block_prefix\":0,\"max_net_usage_words\":0,\"max_cpu_usage_ms\":0,\"delay_sec\":0,\"context_free_actions\":[],\"actions\":[\x7b\"account\":\"pinger\",\"name\":\"ping\",\"authorization\":[\x7b\"actor\":\"alice\",\"permission\":\"active\"\x7d,\x7b\"actor\":\"bob\",\"permission\":\"old\"\x7d],\"data\":\"013f\"\x7d],\"transaction_extensions\":[]\x7d",
    by simp⟩

/-- The approvals of `send`, which `aliceActive` is requested to give and `bobOld` has given. -/
def packedSendApprovals : Bytes :=
  packedSend ++ 1 :: (packedAlice ++ packedActive) ++ 1 :: packedBobOld

/-- A row of `approvals`, unpacked. -/
def approvalsVariant (proposalName : Name) (requested provided : List PermissionLevel) : Variant :=
  .object [("proposal_name", .string proposalName.str),
    ("requested_approvals", .array (requested.map (·.toVariant))),
    ("provided_approvals", .array (provided.map (·.toVariant)))]

/-- A row of `proposal`, unpacked. -/
def proposalVariant (proposalName : Name) (packedTransaction : String) : Variant :=
  .object [("proposal_name", .string proposalName.str), ("packed_transaction", .string packedTransaction)]

/-- The library of the examples on the rows of `pay` and `send`. -/
def ApiLib.pending : ApiLib :=
  { ApiLib.levels with
    binaryToVariant := fun _ type data =>
      if type = "approvals_info" ∧ data = packedApprovals then .ok (approvalsVariant pay [aliceActive] [])
      else if type = "approvals_info" ∧ data = packedSendApprovals then
        .ok (approvalsVariant send [aliceActive] [bobOld])
      else if type = "proposal" ∧ data = packedPay ++ 16 :: List.replicate 16 0 then
        .ok (proposalVariant pay "00000000000000000000000000000000")
      else if type = "proposal" ∧ data = packedSend ++ 68 :: packedSendTransaction then
        .ok (proposalVariant send sendHex)
      else .error .fc
    asPermissionLevels := fun
      | .array vs => vs.mapM fun v => do
        let actor ← v.get "actor" >>= ApiLib.sample.asName
        let permission ← v.get "permission" >>= ApiLib.sample.asName
        return ⟨actor, permission⟩
      | _ => .error .fc
    fromHex := fun s => if s = sendHex then .ok packedSendTransaction else ApiLib.sample.fromHex s
    unpackProposed := fun data =>
      if data = packedSendTransaction then .ok sendTransaction else ApiLib.sample.unpackProposed data
    toVariant := fun resolver trx =>
      if trx.id = sendTransaction.id then .ok sendTransactionVariant else ApiLib.sample.toVariant resolver trx
    toJson := fun
      | .object [_, _, _, _, _, _, _, ("actions", .array [_]), _] => sendTransactionJson
      | v => ApiLib.levels.toJson v }

/-- `check_authorization` on a chain with the permissions `existing`, each of
which is satisfied by being provided: the levels that the actions declare are
looked up first. -/
def checkDeclared (existing : List PermissionLevel) (actions : List Action) (provided : List PermissionLevel)
    (_ : UInt32) : Except CheckExn Unit :=
  let declared := actions.flatMap (·.authorization)
  if ∀ level ∈ declared, level ∈ existing then
    if ∀ level ∈ declared, level ∈ provided then .ok () else .error .authorization
  else .error (.exn .fc)

/-- `alice` has proposed the empty transaction as `pay`, and `sendTransaction` as `send`. -/
def Controller.paySend (existing : List PermissionLevel) : Controller :=
  { Controller.sample with
    keyValues := [⟨2, 12230650688031424512, packedPay ++ 16 :: List.replicate 16 0⟩,
      ⟨2, 14026056419166388224, packedSend ++ 68 :: packedSendTransaction⟩,
      ⟨3, 12230650688031424512, packedApprovals⟩,
      ⟨3, 14026056419166388224, packedSendApprovals⟩]
    checkAuthorization := checkDeclared existing
    sorted := by decide }

/-- The levels that `send` was proposed with, before `bobOld` gave its approval. -/
def sendRequested : String :=
  "[\x7b\"actor\":\"alice\",\"permission\":\"active\"\x7d,\x7b\"actor\":\"bob\",\"permission\":\"old\"\x7d]"

/-- A database with the proposals of `alice`. -/
def aliceProposals : Db := payProposals.upsertProposal ⟨"alice", "send", sendRequested⟩

/-- What the endpoints show of `send` while `bobOld` exists. -/
def sendShown : Proposal :=
  ⟨alice, send, sendTransactionJson.text, payShown.requestedApprovals,
    "[\x7b\"actor\":\"bob\",\"permission\":\"old\"\x7d]", 0⟩

theorem ApiLib.pending_asString (v : Variant) (n : Name) (h : ApiLib.pending.asName v = .ok n) :
    ApiLib.pending.asString v = .ok n.str := ApiLib.sample_asString v n h

theorem makeResolver_pending {db : Controller} (h : db.accounts = Controller.sample.accounts) :
    makeResolver .pending db .eosioMsig = .ok ApiAbi.msig :=
  makeResolver_sample h

theorem Controller.paySend_uniqueNames (existing : List PermissionLevel) :
    UniqueNames ApiLib.pending (.paySend existing) := by
  intro abis habis proposer
  cases (makeResolver_pending rfl).symm.trans habis
  have hid : ∀ t ∈ (Controller.paySend existing).tableIds, t.table = .approvals → t.id = 3 := by
    show ∀ t ∈ Controller.sample.tableIds, _
    decide
  rw [approvalsOf, Controller.rows]
  rcases hfind : (Controller.paySend existing).findTable .eosioMsig proposer .approvals with _ | t
  · exact .nil
  · have htable := List.find?_some hfind
    rw [decide_eq_true_eq] at htable
    have ht := hid t (List.mem_of_find?_eq_some hfind) htable.2.2
    rw [Option.map_some, Option.getD_some, ht]
    refine List.pairwise_pair.mpr fun name hpay hsend => ?_
    have hpay : pay = name := Except.ok.inj hpay
    have hsend : send = name := Except.ok.inj hsend
    exact absurd (hpay.trans hsend.symm) (by decide)

set_option maxRecDepth 8000 in
/-- The two proposals through the three endpoints. -/
theorem proposal_endpoints_agree_pay :
    (getMyProposals ApiLib.pending (.paySend [aliceActive, bobOld]) 7 alice = .ok [payShown, sendShown] ∧
      getPendingProposal ApiLib.pending (.paySend [aliceActive, bobOld]) 8 alice send = .ok [sendShown] ∧
      ((getPendingProposals ApiLib.pending (.paySend [aliceActive, bobOld]) (fun _ => 9) alice).run
        ⟨aliceProposals, []⟩).1 = .ok [payShown, sendShown]) ∧
    [payShown, sendShown].filter (·.proposalName = send) = [sendShown] ∧
    [payShown, sendShown] = [[payShown], [sendShown]].flatten := by
  have habis : makeResolver .pending (.paySend [aliceActive, bobOld]) .eosioMsig = .ok ApiAbi.msig :=
    makeResolver_pending rfl
  have hmine : getMyProposals ApiLib.pending (.paySend [aliceActive, bobOld]) 7 alice =
      .ok [payShown, sendShown] := by
    rw [getMyProposals_eq, habis]
    rfl
  have hpay : getPendingProposal ApiLib.pending (.paySend [aliceActive, bobOld]) 8 alice pay = .ok [payShown] := by
    rw [getPendingProposal_eq, habis]
    rfl
  have hsend : getPendingProposal ApiLib.pending (.paySend [aliceActive, bobOld]) 8 alice send = .ok [sendShown] := by
    rw [getPendingProposal_eq, habis]
    rfl
  have hall : ((getPendingProposals ApiLib.pending (.paySend [aliceActive, bobOld]) (fun _ => 9) alice).run
      ⟨aliceProposals, []⟩).1 = .ok [payShown, sendShown] := by
    rw [run_getPendingProposals rfl, searchProposals, habis]
    rfl
  have hones : aliceProposals.proposal.contents.mapM (fun it =>
      getPendingProposal ApiLib.pending (.paySend [aliceActive, bobOld]) 8 (ApiLib.pending.stringToName it.proposer)
        (ApiLib.pending.stringToName it.proposalName)) = .ok [[payShown], [sendShown]] := by
    have hcontents : aliceProposals.proposal.contents = [⟨"alice", "pay", payShown.requestedApprovals⟩,
      ⟨"alice", "send", sendRequested⟩] := rfl
    rw [hcontents, List.mapM_cons, List.mapM_cons, List.mapM_nil]
    have halice : ApiLib.pending.stringToName "alice" = alice := rfl
    have hnames : ApiLib.pending.stringToName "pay" = pay ∧ ApiLib.pending.stringToName "send" = send := ⟨rfl, rfl⟩
    simp only [halice, hnames.1, hnames.2, hpay, hsend]
    rfl
  have hagree := proposal_endpoints_agree ApiLib.pending (.paySend [aliceActive, bobOld]) ApiLib.pending_asString
    (Controller.paySend_uniqueNames _)
  refine ⟨⟨hmine, hsend, hall⟩, hagree.1 7 8 alice send _ _ hmine hsend, ?_⟩
  exact hagree.2 (fun _ => 9) (fun _ => 8) ⟨aliceProposals, []⟩ alice aliceProposals.proposal.contents _ _
    (by decide +kernel) hall hones

end SqlDb
