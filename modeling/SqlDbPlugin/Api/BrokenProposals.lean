import SqlDbPlugin.Api.ProposalLists
import SqlDbPlugin.Api.ProposalSearch

/-!
# Proposals that cannot be shown

A proposal is broken if its transaction is not rendered, or if the check of
its authorization throws anything but an `authorization_exception`. Nothing
catches that in `get_my_proposals` and `get_pending_proposals`: if everything
else can be read, they return the entries of the other proposals if and only
if they come across no broken one (`broken_proposal_iff`).
-/

namespace SqlDb

open Captured (walked collect)

variable {L : ApiLib} {db : Controller} {abis : L.Serializer}

/-- Everything but the transactions and their authorization can be read in
the tables of a proposer. -/
structure Readable (L : ApiLib) (db : Controller) (abis : L.Serializer) (proposer : Name) : Prop where
  approvals : ∀ obj ∈ approvalsOf db proposer, ∃ row pro,
    L.binaryToVariant abis (L.getTableType abis .approvals) obj.value = .ok row ∧
      recorded L proposer row = .ok pro
  proposals : ∀ obj ∈ proposalsOf db proposer, ∃ name, Named L abis .proposal name obj

/-- A row of `approvals` whose proposal is not rendered, or its authorization not checked. -/
def Broken (L : ApiLib) (db : Controller) (abis : L.Serializer) (proposer : Name) (obj : KeyValueObject) :
    Prop :=
  ∃ row pro, L.binaryToVariant abis (L.getTableType abis .approvals) obj.value = .ok row ∧
    recorded L proposer row = .ok pro ∧
    ∃ obj' ∈ walked (fun obj => !decide (Named L abis .proposal pro.proposalName obj)) (proposalsOf db proposer),
      Named L abis .proposal pro.proposalName obj' ∧ ∃ e, entryOf L db abis row pro obj' = .error e

/-! ## One proposal -/

/-- A comparison that returns on the texts of names. -/
def Total (same : String → Except Exn Bool) : Prop := ∀ name : Name, ∃ b, same name.str = .ok b

theorem total_textSame (name : Name) : Total (textSame name) := fun _ => ⟨_, rfl⟩

theorem total_nameSame (name : Name) : Total (nameSame name) := by
  intro n
  rw [nameSame, Name.ofString_str]
  exact ⟨_, rfl⟩

/-- A row of `proposal` is read unless it has the name and its entry is not made. -/
theorem readProposal_ok_iff {row : Variant} {pro : Proposal} {same : String → Except Exn Bool}
    (hsame : Tells same pro.proposalName) (htotal : Total same) {obj : KeyValueObject} {name : Name}
    (hname : Named L abis .proposal name obj) :
    (∃ r, readProposal L db abis row pro same obj = .ok r) ↔
      (Named L abis .proposal pro.proposalName obj → ∃ pro', entryOf L db abis row pro obj = .ok pro') := by
  obtain ⟨row2, hrow2, htext⟩ := Captured.bind_eq_ok hname
  obtain ⟨b, hb⟩ := htotal name
  have hnamed : Named L abis .proposal pro.proposalName obj ↔ name.str = pro.proposalName.str := by
    rw [Named, textIn, hrow2, Captured.ok_bind, htext, Except.ok.injEq]
  rw [readProposal, entryOf, hrow2, Captured.ok_bind, Captured.ok_bind, htext, Captured.ok_bind, hb,
    Captured.ok_bind, hnamed, hsame name.str b hb]
  by_cases heq : name.str = pro.proposalName.str
  · rw [if_pos (decide_eq_true heq)]
    simp only [Captured.map_eq_ok_iff, heq, true_imp_iff]
    constructor
    · rintro ⟨r, pro', h, -⟩
      exact ⟨pro', h⟩
    · rintro ⟨pro', h⟩
      exact ⟨_, pro', h, rfl⟩
  · rw [if_neg (by simpa using heq)]
    exact ⟨fun _ h => absurd h heq, fun _ => ⟨_, rfl⟩⟩

/-- A row of `approvals` is read unless it is broken. -/
theorem readApprovals_ok_iff {proposer : Name} (hreadable : Readable L db abis proposer)
    {obj : KeyValueObject} {row : Variant} {pro : Proposal}
    (hrow : L.binaryToVariant abis (L.getTableType abis .approvals) obj.value = .ok row)
    (hpro : recorded L proposer row = .ok pro) {same : Name → String → Except Exn Bool}
    (hsame : Tells (same pro.proposalName) pro.proposalName) (htotal : Total (same pro.proposalName))
    (more : Bool) :
    (∃ r, readApprovals L db abis proposer row same more = .ok r) ↔ ¬ Broken L db abis proposer obj := by
  have hread : (∃ r, readApprovals L db abis proposer row same more = .ok r) ↔
      ∃ added, collect (readProposal L db abis row pro (same pro.proposalName)) (proposalsOf db proposer) =
        .ok added := by
    rw [readApprovals, hpro, Captured.ok_bind]
    rcases collect (readProposal L db abis row pro (same pro.proposalName)) (proposalsOf db proposer) with e | l
    · exact ⟨fun ⟨_, h⟩ => (by cases h), fun ⟨_, h⟩ => (by cases h)⟩
    · exact ⟨fun _ => ⟨l, rfl⟩, fun _ => ⟨_, rfl⟩⟩
  have hbroken : Broken L db abis proposer obj ↔
      ∃ obj' ∈ walked (fun obj => !decide (Named L abis .proposal pro.proposalName obj)) (proposalsOf db proposer),
        Named L abis .proposal pro.proposalName obj' ∧ ∃ e, entryOf L db abis row pro obj' = .error e := by
    constructor
    · rintro ⟨row', pro', hrow', hpro', h⟩
      cases hrow.symm.trans hrow'
      cases hpro.symm.trans hpro'
      exact h
    · exact fun h => ⟨row, pro, hrow, hpro, h⟩
  rw [hread, hbroken]
  simp only [Captured.collect_eq_ok_iff fun _ _ _ hr => readProposal_ok hsame hr, exists_eq_left, not_exists, not_and]
  refine forall₂_congr fun obj' hobj' => ?_
  obtain ⟨name, hname⟩ := hreadable.proposals obj' (Captured.mem_of_mem_walked hobj')
  rw [readProposal_ok_iff hsame htotal hname, Captured.exists_ok_iff, not_exists]

/-! ## The endpoints -/

theorem readMine_ok_iff {proposer : Name} (hreadable : Readable L db abis proposer) {obj : KeyValueObject}
    (hobj : obj ∈ approvalsOf db proposer) :
    (∃ r, readMine L db abis proposer obj = .ok r) ↔ ¬ Broken L db abis proposer obj := by
  obtain ⟨row, pro, hrow, hpro⟩ := hreadable.approvals obj hobj
  rw [readMine, hrow, Captured.ok_bind]
  exact readApprovals_ok_iff hreadable hrow hpro (tells_nameSame _) (total_nameSame _) true

/-- `get_pending_proposals` reads a row unless it has the name and is broken. -/
theorem readSearched_ok_iff (hasName : ∀ v n, L.asName v = .ok n → L.asString v = .ok n.str)
    {proposer proposalName : Name} (hreadable : Readable L db abis proposer) {obj : KeyValueObject}
    (hobj : obj ∈ approvalsOf db proposer) :
    (∃ r, readSearched L db abis proposer proposalName obj = .ok r) ↔
      (Named L abis .approvals proposalName obj → ¬ Broken L db abis proposer obj) := by
  obtain ⟨row, pro, hrow, hpro⟩ := hreadable.approvals obj hobj
  have hname : nameIn L abis obj = .ok pro.proposalName := by
    rw [nameIn, hrow]
    exact name_of_recorded hpro
  obtain ⟨v, hv, hasn⟩ := Captured.bind_eq_ok (name_of_recorded hpro)
  rw [readSearched, hrow, Captured.ok_bind, hv, Captured.ok_bind, hasName v _ hasn, Captured.ok_bind,
    named_iff hasName hname]
  by_cases heq : pro.proposalName = proposalName
  · rw [if_pos (congrArg Name.str heq)]
    subst heq
    simp only [true_imp_iff]
    refine readApprovals_ok_iff hreadable hrow hpro ?_ ?_ false
    · exact tells_textSame _
    · exact total_textSame _
  · rw [if_neg (mt Name.str_inj.mp heq)]
    exact ⟨fun _ h => absurd h heq, fun _ => ⟨_, rfl⟩⟩

/-- A broken proposal has no entry. -/
theorem approvalsEntries_of_broken {proposer : Name} {obj : KeyValueObject}
    (h : Broken L db abis proposer obj) : approvalsEntries L db abis proposer obj = [] := by
  obtain ⟨row, pro, hrow, hpro, obj', hobj', hnamed', e, he⟩ := h
  rw [approvalsEntries, hrow, Captured.ok_bind, hpro]
  show proposalEntries L db abis row pro (proposalsOf db proposer) = []
  refine List.flatMap_eq_nil_iff.mpr fun obj'' hobj'' => ?_
  by_cases hnamed : Named L abis .proposal pro.proposalName obj''
  · have hsame : obj'' = obj' := Captured.eq_of_mem_walked hobj'' hobj' (by simpa using hnamed)
      (by simpa using hnamed')
    rw [if_pos hnamed, hsame, he]
    rfl
  · exact if_neg hnamed

/-- If everything else can be read, the calls return the entries of all
proposals that are not broken if and only if they come across none that is. -/
theorem broken_proposal_iff (L : ApiLib) (db : Controller)
    (hasName : ∀ v n, L.asName v = .ok n → L.asString v = .ok n.str) {abis : L.Serializer}
    (habis : makeResolver L db .eosioMsig = .ok abis) :
    (∀ (uninit : UInt8) (account : Name), Readable L db abis account →
      (getMyProposals L db uninit account =
          .ok ((approvalsOf db account).flatMap (approvalsEntries L db abis account)) ↔
        ∀ obj ∈ approvalsOf db account, ¬ Broken L db abis account obj)) ∧
    (∀ (uninit : ProposalRow → UInt8) (account : Name) (d : Db) (matched : List ProposalRow),
      ((ActionsTable.getProposal L account.str).run ⟨d, []⟩).1 = .ok matched →
      (∀ it ∈ matched, Readable L db abis (L.stringToName it.proposer)) →
      (((getPendingProposals L db uninit account).run ⟨d, []⟩).1 =
          .ok (matched.flatMap fun it =>
            searchedEntries L db abis (L.stringToName it.proposer) (L.stringToName it.proposalName)) ↔
        ∀ it ∈ matched, ∀ obj ∈ searched L db abis (L.stringToName it.proposer) (L.stringToName it.proposalName),
          Named L abis .approvals (L.stringToName it.proposalName) obj →
            ¬ Broken L db abis (L.stringToName it.proposer) obj)) ∧
    ∀ proposer obj, Broken L db abis proposer obj → approvalsEntries L db abis proposer obj = [] := by
  refine ⟨fun uninit account hreadable => ?_, fun uninit account d matched hmatched hreadable => ?_,
    fun _ _ => approvalsEntries_of_broken⟩
  · rw [getMyProposals_eq, habis, Captured.ok_bind, Captured.collect_eq_ok_iff fun _ _ _ hr => readMine_ok hr,
      Captured.walked_of_true fun _ _ => rfl]
    simp only [true_and]
    exact forall₂_congr fun obj hobj => readMine_ok_iff hreadable hobj
  · rw [run_getPendingProposals hmatched, searchProposals_ok hasName habis]
    simp only [true_and]
    refine forall₂_congr fun it hit => forall₂_congr fun obj hobj => ?_
    exact readSearched_ok_iff hasName (hreadable it hit) (Captured.mem_of_mem_walked hobj)

/-! ## A broken proposal of `alice` -/

theorem readable_paySend (existing : List PermissionLevel) :
    Readable .pending (.paySend existing) ApiAbi.msig alice where
  approvals := by
    refine List.forall_mem_cons.mpr ⟨⟨_, _, rfl, rfl⟩, List.forall_mem_singleton.mpr ⟨_, _, rfl, rfl⟩⟩
  proposals := by
    refine List.forall_mem_cons.mpr ⟨⟨pay, rfl⟩, List.forall_mem_singleton.mpr ⟨send, rfl⟩⟩

set_option maxRecDepth 8000 in
/-- `bobOld`, which the action of `send` declares, was deleted, so that
`send` is broken: the calls throw, and do not return the entry of `pay`. -/
theorem broken_proposal_hides :
    Readable .pending (.paySend [aliceActive]) ApiAbi.msig alice ∧
    (approvalsOf (.paySend [aliceActive]) alice).flatMap
      (approvalsEntries .pending (.paySend [aliceActive]) ApiAbi.msig alice) = [payShown] ∧
    getMyProposals .pending (.paySend [aliceActive]) 7 alice = .error .fc ∧
    ((getPendingProposals .pending (.paySend [aliceActive]) (fun _ => 7) alice).run ⟨aliceProposals, []⟩).1 =
      .error .fc := by
  have habis : makeResolver .pending (.paySend [aliceActive]) .eosioMsig = .ok ApiAbi.msig := makeResolver_pending rfl
  refine ⟨readable_paySend _, rfl, ?_, ?_⟩
  · rw [getMyProposals_eq, habis]
    rfl
  · rw [run_getPendingProposals rfl, searchProposals, habis]
    rfl

set_option maxRecDepth 8000 in
/-- While `bobOld` exists, the check of `send` throws an
`authorization_exception`, as `alice` has not approved it; that hides nothing. -/
theorem broken_proposal_iff_send :
    getMyProposals .pending (.paySend [aliceActive, bobOld]) 7 alice = .ok [payShown, sendShown] := by
  have hreadable := readable_paySend [aliceActive, bobOld]
  have habis : makeResolver .pending (.paySend [aliceActive, bobOld]) .eosioMsig = .ok ApiAbi.msig :=
    makeResolver_pending rfl
  have hread : (approvalsOf (.paySend [aliceActive, bobOld]) alice).all (fun obj =>
      (readMine .pending (.paySend [aliceActive, bobOld]) ApiAbi.msig alice obj).toOption.isSome) = true := by
    decide +kernel
  refine (((broken_proposal_iff .pending _ ApiLib.pending_asString habis).1 7 alice hreadable).mpr
    fun obj hobj => (readMine_ok_iff hreadable hobj).mp ?_).trans rfl
  obtain ⟨r, hr⟩ := Option.isSome_iff_exists.mp (List.all_eq_true.mp hread obj hobj)
  exact ⟨r, Captured.mem_toOption_toList.mp (Option.mem_toList.mpr hr)⟩

end SqlDb
