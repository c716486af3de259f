import SqlDbPlugin.Api.StillPending
import SqlDbPlugin.System.Replay

/-!
# From the contract to the answers

`eosio.msig` executes actions on the chain, their traces are emitted, the
worker records them behind a queue, and `get_pending_proposals` searches
what it has recorded. Put together (`pending_served`): wherever no call of
`consume_transaction_trace` is under way, `proposal` mirrors the approvals
on the chain behind the first few signals emitted (`mirrored_of_executes`),
so what an account is answered are the entries of the proposals there that
request a level of it, or that it has approved. What is relied on of the
contract is `MsigContract`.
-/

namespace SqlDb

open ActionsTable

variable {L : ChainLib} {my : SqlDbPluginImpl} {d₀ d d' : Db} {c c' : OnChain}

/-! ## The recorded actions on the chain -/

/-- What the contract `eosio.msig` does to the approvals with an action that
does not fail, as `execute` says: `propose` makes a new proposal, `approve`
and `unapprove` move a level from one list to the other, and `cancel` and
`exec` remove the proposal. -/
structure MsigContract (execute : MsigAction → OnChain → Option OnChain) : Prop where
  others {a : MsigAction} {c c' : OnChain} : execute a c = some c' → ∀ {proposer proposalName : Name},
    ¬ (proposer = a.proposer ∧ proposalName = a.proposalName) → c' proposer proposalName = c proposer proposalName
  propose {proposer proposalName : Name} {requested : List PermissionLevel} {c c' : OnChain} :
    execute ⟨proposer, proposalName, .propose requested⟩ c = some c' →
      c proposer proposalName = none ∧ c' proposer proposalName = some ⟨requested, []⟩
  approve {proposer proposalName : Name} {level : PermissionLevel} {c c' : OnChain} :
    execute ⟨proposer, proposalName, .approve level⟩ c = some c' →
      ∃ p, c proposer proposalName = some p ∧ level ∈ p.requested ∧
        c' proposer proposalName = some ⟨p.requested.erase level, p.provided ++ [level]⟩
  unapprove {proposer proposalName : Name} {level : PermissionLevel} {c c' : OnChain} :
    execute ⟨proposer, proposalName, .unapprove level⟩ c = some c' →
      ∃ p, c proposer proposalName = some p ∧ level ∈ p.provided ∧
        c' proposer proposalName = some ⟨p.requested ++ [level], p.provided.erase level⟩
  remove {a : MsigAction} {c c' : OnChain} : a.call = .cancel ∨ a.call = .exec → execute a c = some c' →
    (c a.proposer a.proposalName).isSome = true ∧ c' a.proposer a.proposalName = none

/-- The contract is the one of the histories. -/
theorem MsigContract.execute_eq {execute : MsigAction → OnChain → Option OnChain} (h : MsigContract execute)
    {a : MsigAction} (ha : execute a c = some c') : a.execute c = some c' := by
  have happly : a.call.apply (c a.proposer a.proposalName) = some (c' a.proposer a.proposalName) := by
    obtain ⟨proposer, proposalName, call⟩ := a
    cases call with
    | propose requested =>
      obtain ⟨hnone, hsome⟩ := h.propose ha
      rw [hnone, hsome]
      rfl
    | approve level =>
      obtain ⟨p, hp, hlevel, hp'⟩ := h.approve ha
      rw [hp, hp']
      exact if_pos hlevel
    | unapprove level =>
      obtain ⟨p, hp, hlevel, hp'⟩ := h.unapprove ha
      rw [hp, hp']
      exact if_pos hlevel
    | cancel =>
      obtain ⟨hsome, hnone⟩ := h.remove (.inl rfl) ha
      obtain ⟨p, hp⟩ := Option.isSome_iff_exists.mp hsome
      rw [hp, hnone]
      rfl
    | exec =>
      obtain ⟨hsome, hnone⟩ := h.remove (.inr rfl) ha
      obtain ⟨p, hp⟩ := Option.isSome_iff_exists.mp hsome
      rw [hp, hnone]
      rfl
  rw [MsigAction.execute, happly]
  refine congrArg some (funext fun proposer => funext fun proposalName => ?_)
  dsimp only
  split
  · rename_i hkey
    rw [hkey.1, hkey.2]
  · rename_i hkey
    exact (h.others ha hkey).symm

theorem apply_of_execute {a : MsigAction} (h : a.execute c = some c') :
    a.call.apply (c a.proposer a.proposalName) = some (c' a.proposer a.proposalName) := by
  obtain ⟨p, hp, hc⟩ := execute_eq_some h
  rw [hp, hc, if_pos ⟨rfl, rfl⟩]

/-- And that one is as it should be. -/
theorem msigContract_execute : MsigContract MsigAction.execute where
  others {a c c'} h {proposer proposalName} hkey := by
    obtain ⟨p, -, hc⟩ := execute_eq_some h
    rw [hc, if_neg hkey]
  propose {proposer proposalName requested c c'} h := by
    have h := apply_of_execute h
    rcases hp : c proposer proposalName with _ | p <;> simp only [hp, MsigCall.apply] at h
    · exact ⟨rfl, (Option.some.inj h).symm⟩
    · cases h
  approve {proposer proposalName level c c'} h := by
    have h := apply_of_execute h
    rcases hp : c proposer proposalName with _ | p <;> simp only [hp, MsigCall.apply] at h
    · cases h
    · split at h
      · rename_i hlevel
        exact ⟨p, rfl, hlevel, (Option.some.inj h).symm⟩
      · cases h
  unapprove {proposer proposalName level c c'} h := by
    have h := apply_of_execute h
    rcases hp : c proposer proposalName with _ | p <;> simp only [hp, MsigCall.apply] at h
    · cases h
    · split at h
      · rename_i hlevel
        exact ⟨p, rfl, hlevel, (Option.some.inj h).symm⟩
      · cases h
  remove {a c c'} ha h := by
    have h := apply_of_execute h
    rcases hp : c a.proposer a.proposalName with _ | p <;> obtain ha | ha := ha <;>
      simp only [hp, ha, MsigCall.apply] at h
    · cases h
    · cases h
    · exact ⟨rfl, (Option.some.inj h).symm⟩
    · exact ⟨rfl, (Option.some.inj h).symm⟩

/-- What the recorded actions do to the approvals: those of `eosio.msig` are
executed, as the abis of `d₀` encode them, and the others do nothing. -/
inductive Executes (L : ChainLib) (execute : MsigAction → OnChain → Option OnChain) (d₀ : Db) :
    List AddArgs → OnChain → OnChain → Prop
  | none (c : OnChain) : Executes L execute d₀ [] c c
  | call {a : AddArgs} {as : List AddArgs} {m : MsigAction} {c c₁ c' : OnChain}
      (hm : m.Encoded L ⟨d₀, a.action⟩) (hc : execute m c = some c₁) (h : Executes L execute d₀ as c₁ c') :
      Executes L execute d₀ (a :: as) c c'
  | other {a : AddArgs} {as : List AddArgs} {c c' : OnChain} (ha : a.action.account ≠ .eosioMsig)
      (h : Executes L execute d₀ as c c') : Executes L execute d₀ (a :: as) c c'

variable {execute : MsigAction → OnChain → Option OnChain}

theorem MsigAction.Encoded.congr {m : MsigAction} {action : Action} (h : m.Encoded L ⟨d, action⟩)
    (habis : d'.abiOf = d.abiOf) : m.Encoded L ⟨d', action⟩ where
  account := h.account
  name := h.name
  data := by
    have hdata := h.data
    rw [Entry.data] at hdata ⊢
    rwa [habis]

theorem Mirrored.congr (h : Mirrored L ⟨c, d⟩) (hrows : ∀ k, d'.proposal.find? k = d.proposal.find? k) :
    Mirrored L ⟨c, d'⟩ where
  keys k row hrow := h.keys k row ((hrows k).symm.trans hrow)
  rows proposer proposalName := by
    rw [hrows]
    exact h.rows proposer proposalName

/-- An action of another contract leaves the proposals as they are. -/
theorem find?_parsed_other {action : Action} (ha : action.account ≠ .eosioMsig) (k : String × String) :
    (Entry.parsed L ⟨d, action⟩).proposal.find? k = d.proposal.find? k := by
  rw [find?_parsed, proposalChange, if_neg fun h => ha h.1, if_neg fun h => ha h.1]
  rfl

theorem parsed_eq_afterParse (action : Action) (d : Db) : Entry.parsed L ⟨d, action⟩ = afterParse L action d :=
  Entry.parsed_eq ⟨d, action⟩

/-- What a call writes in `proposal` is what processing its action does. -/
theorem proposal_changes {a : AddArgs} {dataJson : SystemContractArg}
    (hok : contractArg L (payload L (d.abiOf a.action.account.str) a.action) = .ok dataJson) (k : String × String) :
    (Entry.parsed L ⟨d, a.action⟩).proposal.find? k =
      lastWrite d.proposal.find? (Tried.changes L { args := a, abi := d.abiOf a.action.account.str }).proposal k := by
  have hstored : ((setabiOf L a.action).elim {} .ofAbi : Changes).proposal = [] := by
    rcases setabiOf L a.action with _ | s <;> rfl
  have hwrites : (Tried.changes L { args := a, abi := d.abiOf a.action.account.str }).proposal =
      ((writeOf L (d.abiOf a.action.account.str) a.action).elim {} Write.changes : Changes).proposal := by
    rw [Tried.changes, Tried.dataJson, hok]
    show _ ++ ([] ++ _) = _
    rw [hstored]
    rfl
  have hmade : ((writeOf L (d.abiOf a.action.account.str) a.action).elim {} Write.changes : Changes).Made d
      (afterParse L a.action d) := made_afterParse rfl
  rw [hwrites, parsed_eq_afterParse, hmade.proposal]

/-- The calls for the actions, with the abis of `d₀`. -/
def triedWith (d₀ : Db) (as : List AddArgs) : List Tried :=
  as.map fun a => { args := a, abi := d₀.abiOf a.action.account.str }

/-- The first action is processed, and then the others. -/
theorem proposal_changes_cons {a : AddArgs} {as : List AddArgs}
    (hok : ∃ dataJson, contractArg L (payload L (d₀.abiOf a.action.account.str) a.action) = .ok dataJson)
    (habis : d.abiOf = d₀.abiOf) (k : String × String) :
    lastWrite d.proposal.find? (changesOf L (triedWith d₀ (a :: as))).proposal k =
      lastWrite (Entry.parsed L ⟨d, a.action⟩).proposal.find? (changesOf L (triedWith d₀ as)).proposal k := by
  obtain ⟨dataJson, hok⟩ := hok
  rw [← habis] at hok
  have hfirst := funext (proposal_changes hok)
  rw [habis] at hfirst
  rw [hfirst, ← lastWrite_append]
  rfl

/-- Where the recorded actions are what the chain executes, `proposal` mirrors its approvals behind them. -/
theorem mirrored_of_executes (hmsig : MsigContract execute) {as : List AddArgs}
    (hx : Executes L execute d₀ as c c')
    (hok : ∀ a ∈ as, ∃ dataJson, contractArg L (payload L (d₀.abiOf a.action.account.str) a.action) = .ok dataJson)
    (habis : d.abiOf = d₀.abiOf) (hm : Mirrored L ⟨c, d⟩)
    (hrows : ∀ k, d'.proposal.find? k =
      lastWrite d.proposal.find? (changesOf L (triedWith d₀ as)).proposal k) : Mirrored L ⟨c', d'⟩ := by
  have hparsed (action : Action) (d : Db) : (Entry.parsed L ⟨d, action⟩).abiOf = d.abiOf := by
    rw [parsed_eq_afterParse]
    exact funext (abiOf_afterParse action d)
  induction hx generalizing d with
  | none c => exact hm.congr hrows
  | @call a as m c c₁ c' he hc hx ih =>
    have hmirrored : Mirrored L ⟨c₁, Entry.parsed L ⟨d, a.action⟩⟩ :=
      mirrored_step hm (hmsig.execute_eq hc) rfl (he.congr habis)
    refine ih (fun a' h => hok a' (List.mem_cons_of_mem a h)) ((hparsed _ _).trans habis) hmirrored fun k => ?_
    rw [hrows, proposal_changes_cons (hok a List.mem_cons_self) habis]
  | @other a as c c' ha hx ih =>
    have hmirrored : Mirrored L ⟨c, Entry.parsed L ⟨d, a.action⟩⟩ := hm.congr (find?_parsed_other ha)
    refine ih (fun a' h => hok a' (List.mem_cons_of_mem a h)) ((hparsed _ _).trans habis) hmirrored fun k => ?_
    rw [hrows, proposal_changes_cons (hok a List.mem_cons_self) habis]

/-! ## The answers -/

section Answers

variable {A : ApiLib} (hasName : ∀ v n, A.asName v = .ok n → A.asString v = .ok n.str)
  (hname : ∀ n : Name, A.stringToName n.str = n) (hjson : CompactLevels A) (hsame : PlainCollation A)

include hasName hname hjson hsame

/-- The entries returned are those of the proposals on the chain that name the account. -/
theorem mem_pending_iff (hs : Mirrored A.toChainLib ⟨c, d⟩) {db : Controller} {abis : A.Serializer}
    (habis : makeResolver A db .eosioMsig = .ok abis) {account : Name} {uninit : ProposalRow → UInt8}
    {faults : List (Option Exn)} {all : List Proposal}
    (hall : ((getPendingProposals A db uninit account).run ⟨d, faults⟩).1 = .ok all) (pro : Proposal) :
    pro ∈ all ↔ ∃ proposer proposalName p, c proposer proposalName = some p ∧
      NamesActor account (p.requested ++ p.provided) ∧ pro ∈ searchedEntries A db abis proposer proposalName := by
  obtain ⟨matched, hmatched⟩ : ∃ matched,
    ((ActionsTable.getProposal A account.str).run ⟨d, []⟩).1 = .ok matched := ⟨_, rfl⟩
  obtain ⟨abis', habis', rfl⟩ := getPendingProposals_ok hasName hmatched hall
  cases habis.symm.trans habis'
  rw [List.mem_flatMap]
  constructor
  · rintro ⟨row, hfound, hpro⟩
    have hrow : row ∈ d.proposal.contents := by
      rw [getProposal_ok hmatched] at hfound
      exact List.mem_of_mem_filter hfound
    obtain ⟨proposer, proposalName, p, hkey, hp, hrec⟩ := hs.proposal hrow
    obtain ⟨hproposer, hproposalName⟩ := stringToName_key hname hkey
    rw [hproposer, hproposalName] at hpro
    exact ⟨proposer, proposalName, p, hp, (found_iff hjson hsame hmatched hrow hrec).mp hfound, hpro⟩
  · rintro ⟨proposer, proposalName, p, hp, hnames, hpro⟩
    obtain ⟨row, hrow, hkey, hrec⟩ := hs.row hp
    obtain ⟨hproposer, hproposalName⟩ := stringToName_key hname hkey
    rw [← hproposer, ← hproposalName] at hpro
    exact ⟨row, (found_iff hjson hsame hmatched hrow hrec).mpr hnames, hpro⟩

end Answers

/-- The actions recorded of the signals. -/
def recordedOf (my : SqlDbPluginImpl) (signals : List Signal) : List AddArgs :=
  signals.flatMap fun s => recordedArgs my.db.mActionFilterOn s.trace

theorem replayed_eq (signals : List Signal) :
    replayed my d₀.abiOf signals = triedWith d₀ (recordedOf my signals) := by
  rw [replayed, triedWith, recordedOf, List.map_flatMap]

/-- Wherever no call of `consume_transaction_trace` is under way in a run in
which there is memory and no statement fails, the recorded actions store no
abi, and their payloads can be read: behind the actions of the first few
signals emitted, as the contract executes them, `proposal` mirrors its
approvals, and `get_pending_proposals` returns the entries of the proposals
that request a level of the account, or that it has approved, and no others. -/
theorem pending_served (A : ApiLib) (hasName : ∀ v n, A.asName v = .ok n → A.asString v = .ok n.str)
    (hname : ∀ n : Name, A.stringToName n.str = n) (hjson : CompactLevels A) (hsame : PlainCollation A)
    (hmsig : MsigContract execute) {n : Node} (h : (node A.toChainLib my d₀).Reach Undisturbed n)
    (hrest : n.Resting) (hr : ∀ s ∈ accepted my n.emitted, Replayable A.toChainLib my d₀.abiOf s)
    {c₀ : OnChain} (hm : Mirrored A.toChainLib ⟨c₀, d₀⟩) :
    ∃ done rest, n.emitted = done ++ rest ∧ waitingIn n.consumer = accepted my rest ∧
      ∀ c, Executes A.toChainLib execute d₀ (recordedOf my (accepted my done)) c₀ c →
        Mirrored A.toChainLib ⟨c, n.db⟩ ∧
        ∀ db abis, makeResolver A db .eosioMsig = .ok abis →
        ∀ (account : Name) (uninit : ProposalRow → UInt8) (faults : List (Option Exn)) (all : List Proposal),
          ((getPendingProposals A db uninit account).run ⟨n.db, faults⟩).1 = .ok all →
          ∀ pro, pro ∈ all ↔ ∃ proposer proposalName p, c proposer proposalName = some p ∧
            NamesActor account (p.requested ++ p.provided) ∧
            pro ∈ searchedEntries A db abis proposer proposalName := by
  obtain ⟨done, rest, hem, hw, -, hdb⟩ := lagging_db (h.mono fun _ _ => Undisturbed.inMemory)
  refine ⟨done, rest, hem, hw, fun c hx => ?_⟩
  have hdone : ∀ s ∈ accepted my done, Replayable A.toChainLib my d₀.abiOf s := fun s hs => by
    refine hr s ?_
    rw [hem, accepted_append]
    exact List.mem_append_left _ hs
  have hmade := made_of_emitted h hem
  rw [← hdb hrest, reference_eq hdone, replayed_eq] at hmade
  have hok : ∀ a ∈ recordedOf my (accepted my done), ∃ dataJson,
      contractArg A.toChainLib (payload A.toChainLib (d₀.abiOf a.action.account.str) a.action) = .ok dataJson := by
    intro a ha
    obtain ⟨s, hs, hmem⟩ := List.mem_flatMap.mp ha
    exact (hdone s hs a hmem).2
  have hmirrored : Mirrored A.toChainLib ⟨c, n.db⟩ := mirrored_of_executes hmsig hx hok rfl hm hmade.proposal
  exact ⟨hmirrored, fun db abis habis account uninit faults all hall =>
    mem_pending_iff hasName hname hjson hsame hmirrored habis hall⟩

/-! ## The proposal of `alice` -/

def proposeJson : JsonText :=
  ⟨"\x7b\"proposer\":\"alice\",\"proposal_name\":\"pay\",\"requested\":" ++
    payShown.requestedApprovals ++ "\x7d", by simp⟩

/-- The library of the examples, which prints and reads the `propose` as well. -/
def ApiLib.recording : ApiLib :=
  { ApiLib.msig with
    fromString := fun text =>
      if text = proposeJson.text then .ok proposeVariant else ApiLib.msig.fromString text
    toJson := fun
      | .object (("proposer", _) :: _) => proposeJson
      | v => ApiLib.msig.toJson v }

def proposePlugin : SqlDbPluginImpl :=
  { tokenPlugin with db := { tokenPlugin.db with mActionFilterOn := ["propose"] } }

/-- The transaction of the `propose`. -/
def proposeTrace : TransactionTrace :=
  { issueTrace with actionTraces := [⟨.eosioMsig, proposeEntry.action, []⟩] }

theorem fromString_recording {text : String} (h : text ≠ proposeJson.text) :
    ApiLib.recording.fromString text = ApiLib.msig.fromString text :=
  if_neg h

theorem proposePay_recording : proposePay.Encoded ApiLib.recording.toChainLib proposeEntry where
  account := rfl
  name := rfl
  data := by
    have habi : ActionsTable.abiFromJson ApiLib.recording.toChainLib msigJson.text = .ok ApiAbi.msig := by
      have hne : msigJson.text ≠ proposeJson.text := by decide +kernel
      rw [ActionsTable.abiFromJson, fromString_recording hne, fromString_msigJson rfl]
      rfl
    have hdata : proposeEntry.data ApiLib.recording.toChainLib = some proposeVariant :=
      ActionsTable.interpreted_eq habi (binaryToVariant_propose rfl rfl)
    refine ⟨proposeVariant, hdata, rfl, rfl, ?_⟩
    rintro requested h
    cases h
    rfl

/-- What a step emits. -/
def NodeAct.emits : NodeAct → List Signal
  | .emit s => [s]
  | .act _ => []

theorem emitted_run {ok : NodeAct → Node → Prop} [∀ a n, Decidable (ok a n)] {as : List NodeAct} {n n' : Node}
    (h : (node L my d₀).run ok as n = some n') : n'.emitted = n.emitted ++ as.flatMap NodeAct.emits := by
  induction as generalizing n with
  | nil =>
    cases h
    exact (List.append_nil _).symm
  | cons a as ih =>
    obtain ⟨-, n₁, h₁, h⟩ := Machine.run_cons_eq_some.mp h
    have hstep : n₁.emitted = n.emitted ++ a.emits := by
      cases a with
      | emit s => exact (Node.emit_eq_some (L := L) h₁).2.1
      | act a => exact (Node.emitted_act (L := L) h₁).trans (List.append_nil _).symm
    rw [ih h, hstep, List.flatMap_cons, List.append_assoc]

def proposeRun : List NodeAct :=
  .emit ⟨proposeTrace, []⟩ :: List.replicate 5 (.act (.produce () .returns)) ++
    workTraces 14

theorem toAbi_recording {data : Bytes} (hshort : ¬ data.length ≤ 4) (h : data = packedMsigAbi) :
    ApiLib.recording.toAbi data = .ok (some ApiAbi.msig) :=
  toAbi_msigAbi hshort h

theorem makeResolver_recording :
    makeResolver .recording (.payRow packedApprovals) .eosioMsig = .ok ApiAbi.msig :=
  makeResolver_eq ⟨.eosioMsig, packedMsigAbi⟩ rfl (toAbi_recording (by decide +kernel) rfl)

theorem executes_propose : Executes ApiLib.recording.toChainLib MsigAction.execute proposeEntry.db
    (recordedOf proposePlugin (accepted proposePlugin [⟨proposeTrace, []⟩])) (fun _ _ => none)
    (payOnChain ⟨[aliceActive], []⟩) :=
  .call (a := ⟨proposeEntry.action, "2e", ⟨0⟩⟩) proposePay_recording rfl (.none _)

/-- The `propose` is recorded, and `pay` is returned for `alice`. -/
theorem pending_served_pay : ∃ n, (node ApiLib.recording.toChainLib proposePlugin proposeEntry.db).Reach Undisturbed n ∧
    n.db.proposal.contents.map (·.key) = [("alice", "pay")] ∧
    Mirrored ApiLib.recording.toChainLib ⟨payOnChain ⟨[aliceActive], []⟩, n.db⟩ ∧
    ∀ all, ((getPendingProposals .recording (.payRow packedApprovals) (fun _ => 7) alice).run ⟨n.db, []⟩).1 =
      .ok all → payShown ∈ all := by
  have hrun : (((node ApiLib.recording.toChainLib proposePlugin proposeEntry.db).run Undisturbed proposeRun
      { db := proposeEntry.db }).any fun n => n.db.proposal.contents.map (·.key) == [("alice", "pay")] &&
        ((waitingIn n.consumer).isEmpty && decide n.Resting)) = true := by
    decide +kernel
  obtain ⟨n, hn, hp⟩ := (Option.any_eq_true _ _).mp hrun
  simp only [Bool.and_eq_true, beq_iff_eq, List.isEmpty_iff, decide_eq_true_eq] at hp
  obtain ⟨hkeys, hempty, hrest⟩ := hp
  have hreach : (node ApiLib.recording.toChainLib proposePlugin proposeEntry.db).Reach Undisturbed n :=
    Machine.reach_of_run_from .init hn
  have hemitted : n.emitted = [⟨proposeTrace, []⟩] := emitted_run hn
  have hreplay : ∀ s ∈ accepted proposePlugin n.emitted,
      Replayable ApiLib.recording.toChainLib proposePlugin proposeEntry.db.abiOf s := by
    intro s hs
    have hmem := List.mem_of_mem_filter hs
    rw [hemitted, List.mem_singleton] at hmem
    subst hmem
    exact of_decide_eq_true (by decide +kernel)
  have hstart : MsigHistory ApiLib.recording.toChainLib (fun _ _ => True) ⟨fun _ _ => none, proposeEntry.db⟩ :=
    .start rfl
  obtain ⟨done, rest, hem, hw, hserved⟩ := pending_served .recording ApiLib.sample_asString
    (fun n => dif_pos n.isText) ApiLib.levels_compact ApiLib.levels_plain msigContract_execute hreach hrest hreplay
    (mirrored_of_history hstart)
  have hdone : done = [⟨proposeTrace, []⟩] := by
    obtain ⟨-, hnil⟩ | ⟨hdone, -⟩ := List.append_eq_singleton_iff.mp (hem.symm.trans hemitted)
    · rw [hempty, hnil] at hw
      cases hw
    · exact hdone
  obtain ⟨hmirrored, hanswers⟩ := hserved _ (hdone ▸ executes_propose)
  refine ⟨n, hreach, hkeys, hmirrored, fun all hall => ?_⟩
  refine (hanswers _ _ (makeResolver_recording) alice _ [] all hall payShown).mpr ?_
  exact ⟨alice, pay, _, if_pos ⟨rfl, rfl⟩, ⟨aliceActive, by decide, rfl⟩, by decide +kernel⟩

end SqlDb
