import SqlDbPlugin.Mirror.DerivedTables

/-!
# Proposals on the chain and in the mirror

A history of the actions of `eosio.msig` changes two stores. On the chain
(`MsigAction.execute`) a proposal has the levels that are still requested and
those that were provided: `approve` moves a level from the first to the
second list, and `unapprove` moves it back. In the mirror, `proposal` has a
row for each proposal on the chain, but no other action than `cancel` and
`exec` changes it: a row has the levels of both lists
(`mirrored_of_history`). So a level that it shows may be provided already;
an account of which one is provided still has one that is requested if no
`approve` has taken its last one (`waiting_of_history`).
-/

namespace SqlDb

open ActionsTable (proposalOf proposalKeyOf)

variable {L : ChainLib}

namespace Name

def approve : Name := ⟨"approve", by decide⟩
def unapprove : Name := ⟨"unapprove", by decide⟩

end Name

/-! ## The chain -/

/-- A row of `approvals`. -/
structure Approvals where
  requested : List PermissionLevel
  provided : List PermissionLevel

/-- The approvals of the proposals, by proposer and name. -/
abbrev OnChain := Name → Name → Option Approvals

/-- What an action of `eosio.msig` does to a proposal. -/
inductive MsigCall
  | propose (requested : List PermissionLevel)
  | approve (level : PermissionLevel)
  | unapprove (level : PermissionLevel)
  | cancel
  | exec

def MsigCall.name : MsigCall → Name
  | propose _ => .propose
  | approve _ => .approve
  | unapprove _ => .unapprove
  | cancel => .cancel
  | exec => .exec

/-- The approvals afterwards; an inner `none` if there is no such proposal any more, and an outer one
if the action fails. -/
def MsigCall.apply : MsigCall → Option Approvals → Option (Option Approvals)
  | propose requested, none => some (some ⟨requested, []⟩)
  | approve level, some p =>
    if level ∈ p.requested then some (some ⟨p.requested.erase level, p.provided ++ [level]⟩) else none
  | unapprove level, some p =>
    if level ∈ p.provided then some (some ⟨p.requested ++ [level], p.provided.erase level⟩) else none
  | cancel, some _ => some none
  | exec, some _ => some none
  | _, _ => none

/-- An action of `eosio.msig`. -/
structure MsigAction where
  proposer : Name
  proposalName : Name
  call : MsigCall

/-- The chain behind an action, unless it fails. -/
def MsigAction.execute (a : MsigAction) (c : OnChain) : Option OnChain :=
  (a.call.apply (c a.proposer a.proposalName)).map fun p proposer proposalName =>
    if proposer = a.proposer ∧ proposalName = a.proposalName then p else c proposer proposalName

/-! ## Histories -/

/-- The chain, and the database that mirrors it. -/
structure MsigState where
  onChain : OnChain
  db : Db

/-- The entry is the action, as its contract's abi encodes it. -/
structure MsigAction.Encoded (L : ChainLib) (a : MsigAction) (e : Entry) : Prop where
  account : e.action.account = .eosioMsig
  name : e.action.name = a.call.name
  data : ∃ v, e.data L = some v ∧ (v.get "proposer" >>= L.asName) = .ok a.proposer ∧
    (v.get "proposal_name" >>= L.asName) = .ok a.proposalName ∧
    ∀ requested, a.call = .propose requested → v.get "requested" = .ok (.array (requested.map (·.toVariant)))

/-- The states of the runs whose actions all meet `ok`: each action is
executed and then processed by `parse_actions`, and between two of them the
proposals of the database stay as they are. -/
inductive MsigHistory (L : ChainLib) (ok : MsigAction → OnChain → Prop) : MsigState → Prop
  | start {d : Db} : d.proposal.contents = [] → MsigHistory L ok ⟨fun _ _ => none, d⟩
  | step {s : MsigState} {a : MsigAction} {e : Entry} {c : OnChain} : MsigHistory L ok s → ok a s.onChain →
      a.execute s.onChain = some c → e.db.proposal = s.db.proposal → a.Encoded L e →
      MsigHistory L ok ⟨c, e.parsed L⟩

/-- The account is an actor of one of the levels. -/
def NamesActor (account : Name) (levels : List PermissionLevel) : Prop := ∃ level ∈ levels, level.actor = account

/-- An `approve` with a level of the account leaves another level of it requested. -/
def LeavesLevel (account : Name) (a : MsigAction) (c : OnChain) : Prop :=
  ∀ level p, a.call = .approve level → c a.proposer a.proposalName = some p → level.actor = account →
    NamesActor account (p.requested.erase level)

/-! ## One action -/

/-- What the action leaves of the row of its proposal. -/
def MsigAction.mirrored (L : ChainLib) (a : MsigAction) (row : Option ProposalRow) : Option ProposalRow :=
  match a.call with
  | .propose requested => some ⟨a.proposer.str, a.proposalName.str,
      (L.toJson (.array (requested.map (·.toVariant)))).text⟩
  | .approve _ | .unapprove _ => row
  | .cancel | .exec => none

/-- The proposal at a key behind an action. -/
theorem find?_parsed (e : Entry) (k : String × String) :
    (e.parsed L).proposal.find? k = (proposalChange L e).elim (e.db.proposal.find? k)
      fun change => if k = change.1 then change.2 else e.db.proposal.find? k := by
  rw [Entry.parsed_eq, proposalChange_eq]
  rcases e.write L with _ | w
  · rfl
  · cases w with
    | propose row =>
      have hrow : (e.db.proposal.find? row.key).elim row (fun _ => row) = row := by
        rcases e.db.proposal.find? row.key with _ | _ <;> rfl
      refine (Table.find?_upsert _ _ _ k).trans ?_
      rw [hrow]
      rfl
    | unpropose proposer proposalName => exact Table.find?_erase _ _ k
    | _ => rfl

/-- What an action of `eosio.msig` changes in `proposal`. -/
theorem proposalChange_encoded {a : MsigAction} {e : Entry} (h : a.Encoded L e) :
    proposalChange L e = match a.call with
      | .propose requested => some ((a.proposer.str, a.proposalName.str),
          some ⟨a.proposer.str, a.proposalName.str, (L.toJson (.array (requested.map (·.toVariant)))).text⟩)
      | .approve _ | .unapprove _ => none
      | .cancel | .exec => some ((a.proposer.str, a.proposalName.str), none) := by
  obtain ⟨v, hv, hproposer, hname, hrequested⟩ := h.data
  rw [proposalChange, hv, h.account, h.name]
  rcases hcall : a.call with requested | level | level | _ | _
  · have hrow : proposalOf L v = .ok ⟨a.proposer.str, a.proposalName.str,
        (L.toJson (.array (requested.map (·.toVariant)))).text⟩ := by
      rw [proposalOf, hproposer, hname, hrequested requested hcall]
      rfl
    rw [if_pos ⟨rfl, rfl⟩, Option.bind_some, hrow]
    rfl
  · rfl
  · rfl
  all_goals
    have hkey : proposalKeyOf L v = .ok (a.proposer.str, a.proposalName.str) := by
      rw [proposalKeyOf, hproposer, hname]
      rfl
    rw [if_neg (by decide), if_pos (by decide), Option.bind_some, hkey]
    rfl

/-- The row of an action's proposal is what the action leaves of it, and the others stay as they are. -/
theorem find?_encoded {a : MsigAction} {e : Entry} (h : a.Encoded L e) (k : String × String) :
    (e.parsed L).proposal.find? k =
      if k = (a.proposer.str, a.proposalName.str) then a.mirrored L (e.db.proposal.find? k)
      else e.db.proposal.find? k := by
  rw [find?_parsed, proposalChange_encoded h, MsigAction.mirrored]
  rcases a.call with requested | level | level | _ | _
  · rfl
  · exact (ite_self _).symm
  · exact (ite_self _).symm
  · rfl
  · rfl

theorem execute_eq_some {a : MsigAction} {c c' : OnChain} (h : a.execute c = some c') :
    ∃ p, a.call.apply (c a.proposer a.proposalName) = some p ∧ ∀ proposer proposalName,
      c' proposer proposalName =
        if proposer = a.proposer ∧ proposalName = a.proposalName then p else c proposer proposalName := by
  obtain ⟨p, hp, rfl⟩ := Option.map_eq_some_iff.mp h
  exact ⟨p, hp, fun _ _ => rfl⟩

/-! ## The mirror -/

/-- The row has the levels of the proposal that are requested or provided. -/
def Records (L : ChainLib) (p : Approvals) (row : ProposalRow) : Prop :=
  ∃ levels : List PermissionLevel, levels.Perm (p.requested ++ p.provided) ∧
    row.requestedApprovals = (L.toJson (.array (levels.map (·.toVariant)))).text

/-- `proposal` has just the rows of the proposals on the chain. -/
structure Mirrored (L : ChainLib) (s : MsigState) : Prop where
  keys : ∀ k row, s.db.proposal.find? k = some row →
    ∃ proposer proposalName : Name, k = (proposer.str, proposalName.str)
  rows : ∀ proposer proposalName : Name, Option.Rel (Records L) (s.onChain proposer proposalName)
    (s.db.proposal.find? (proposer.str, proposalName.str))

/-- A level that is moved from one list to the other stays one of the proposal's. -/
theorem perm_approve {requested provided : List PermissionLevel} {level : PermissionLevel}
    (h : level ∈ requested) : (requested ++ provided).Perm (requested.erase level ++ (provided ++ [level])) := by
  have hmove : (level :: provided).Perm (provided ++ [level]) := (List.perm_append_singleton level provided).symm
  calc
    (requested ++ provided).Perm ((level :: requested.erase level) ++ provided) :=
      (List.perm_cons_erase h).append_right provided
    List.Perm _ (requested.erase level ++ (level :: provided)) := List.perm_middle.symm
    List.Perm _ (requested.erase level ++ (provided ++ [level])) := hmove.append_left _

theorem perm_unapprove {requested provided : List PermissionLevel} {level : PermissionLevel}
    (h : level ∈ provided) : (requested ++ provided).Perm ((requested ++ [level]) ++ provided.erase level) := by
  rw [List.append_assoc]
  exact (List.perm_cons_erase h).append_left requested

/-- An action changes the row as it does the proposal. -/
theorem records_apply {a : MsigAction} {p p' : Option Approvals} {row : Option ProposalRow}
    (h : Option.Rel (Records L) p row) (hp : a.call.apply p = some p') :
    Option.Rel (Records L) p' (a.mirrored L row) := by
  rw [MsigAction.mirrored]
  rcases hcall : a.call with requested | level | level | _ | _ <;> rw [hcall] at hp <;>
    rcases h with ⟨levels, hlevels, hrow⟩ | _ <;> try cases hp
  · exact .some ⟨requested, by simp, rfl⟩
  · rw [MsigCall.apply] at hp
    split at hp <;> cases hp
    rename_i hlevel
    exact .some ⟨levels, hlevels.trans (perm_approve hlevel), hrow⟩
  · rw [MsigCall.apply] at hp
    split at hp <;> cases hp
    rename_i hlevel
    exact .some ⟨levels, hlevels.trans (perm_unapprove hlevel), hrow⟩
  · exact .none
  · exact .none

theorem mirrored_step {s : MsigState} {a : MsigAction} {e : Entry} {c : OnChain} (hs : Mirrored L s)
    (hc : a.execute s.onChain = some c) (hdb : e.db.proposal = s.db.proposal) (he : a.Encoded L e) :
    Mirrored L ⟨c, e.parsed L⟩ := by
  obtain ⟨p, hp, hc⟩ := execute_eq_some hc
  constructor
  · intro k row hrow
    rw [find?_encoded he, hdb] at hrow
    split at hrow
    · rename_i hk
      exact ⟨a.proposer, a.proposalName, hk⟩
    · exact hs.keys k row hrow
  · intro proposer proposalName
    have hkey : (proposer.str, proposalName.str) = (a.proposer.str, a.proposalName.str) ↔
        proposer = a.proposer ∧ proposalName = a.proposalName := by
      rw [Prod.mk.injEq, Name.str_inj, Name.str_inj]
    rw [find?_encoded he, hdb]
    show Option.Rel (Records L) (c proposer proposalName) _
    rw [hc]
    simp only [hkey]
    split
    · rename_i heq
      obtain ⟨rfl, rfl⟩ := heq
      exact records_apply (hs.rows _ _) hp
    · exact hs.rows proposer proposalName

theorem mirrored_of_history {ok : MsigAction → OnChain → Prop} {s : MsigState} (h : MsigHistory L ok s) :
    Mirrored L s := by
  induction h with
  | @start d hd =>
    have hnone (k : String × String) : d.proposal.find? k = none := by
      rw [Table.find?, hd]
      rfl
    exact ⟨fun k row hrow => Option.some_ne_none row (hrow.symm.trans (hnone k)) |>.elim,
      fun _ _ => by rw [hnone]; exact .none⟩
  | step _ _ hc hdb he ih => exact mirrored_step ih hc hdb he

/-- A row of the mirror is that of a proposal on the chain. -/
theorem Mirrored.proposal {s : MsigState} (h : Mirrored L s) {row : ProposalRow}
    (hrow : row ∈ s.db.proposal.contents) : ∃ proposer proposalName p,
      row.key = (proposer.str, proposalName.str) ∧ s.onChain proposer proposalName = some p ∧
        Records L p row := by
  have hfind : s.db.proposal.find? row.key = some row := Table.find?_eq_some_iff.mpr ⟨rfl, hrow⟩
  obtain ⟨proposer, proposalName, hkey⟩ := h.keys _ _ hfind
  have hrel := h.rows proposer proposalName
  rw [← hkey, hfind] at hrel
  rcases hp : s.onChain proposer proposalName with _ | p <;> rw [hp] at hrel <;> cases hrel
  rename_i hrec
  exact ⟨proposer, proposalName, p, hkey, hp, hrec⟩

/-- And a proposal on the chain has its row. -/
theorem Mirrored.row {s : MsigState} (h : Mirrored L s) {proposer proposalName : Name} {p : Approvals}
    (hp : s.onChain proposer proposalName = some p) : ∃ row ∈ s.db.proposal.contents,
      row.key = (proposer.str, proposalName.str) ∧ Records L p row := by
  have hrel := h.rows proposer proposalName
  rcases hrow : s.db.proposal.find? (proposer.str, proposalName.str) with _ | row <;> rw [hp, hrow] at hrel <;>
    cases hrel
  rename_i hrec
  obtain ⟨hkey, hmem⟩ := Table.find?_eq_some_iff.mp hrow
  exact ⟨row, hmem, hkey, hrec⟩

/-! ## The levels of an account -/

/-- An account that has provided a level has one that is requested. -/
def Waiting (account : Name) (c : OnChain) : Prop :=
  ∀ proposer proposalName p, c proposer proposalName = some p →
    NamesActor account p.provided → NamesActor account p.requested

/-- A level of the account is left if another one was taken, or a second one was there. -/
theorem namesActor_erase {account : Name} {levels : List PermissionLevel} {level : PermissionLevel}
    (h : NamesActor account levels)
    (hlevel : level.actor = account → NamesActor account (levels.erase level)) :
    NamesActor account (levels.erase level) := by
  obtain ⟨l, hl, hactor⟩ := h
  by_cases heq : l = level
  · exact hlevel (heq ▸ hactor)
  · exact ⟨l, (List.mem_erase_of_ne heq).mpr hl, hactor⟩

theorem waiting_step {account : Name} {a : MsigAction} {c c' : OnChain} (h : Waiting account c)
    (ok : LeavesLevel account a c) (hc : a.execute c = some c') : Waiting account c' := by
  obtain ⟨p', hp', hc'⟩ := execute_eq_some hc
  intro proposer proposalName q hq hprovided
  rw [hc'] at hq
  split at hq
  · subst hq
    rcases hp : c a.proposer a.proposalName with _ | p <;> rw [hp] at hp' <;>
      rcases hcall : a.call with requested | level | level | _ | _ <;> rw [hcall] at hp' <;> try cases hp'
    · -- `propose`: nothing is provided yet
      obtain ⟨l, hl, -⟩ := hprovided
      cases hl
    · rw [MsigCall.apply] at hp'
      split at hp' <;> cases hp'
      have hlevel := ok level p hcall hp
      obtain ⟨l, hl, hactor⟩ := hprovided
      rcases List.mem_append.mp hl with hl | hl
      · exact namesActor_erase (h _ _ p hp ⟨l, hl, hactor⟩) hlevel
      · exact hlevel (List.mem_singleton.mp hl ▸ hactor)
    · rw [MsigCall.apply] at hp'
      split at hp' <;> cases hp'
      obtain ⟨l, hl, hactor⟩ := hprovided
      obtain ⟨l', hl', hactor'⟩ := h _ _ p hp ⟨l, List.mem_of_mem_erase hl, hactor⟩
      exact ⟨l', List.mem_append_left _ hl', hactor'⟩
  · exact h _ _ q hq hprovided

theorem waiting_of_history {account : Name} {s : MsigState} (h : MsigHistory L (LeavesLevel account) s) :
    Waiting account s.onChain := by
  induction h with
  | start _ => exact fun _ _ _ h => Option.some_ne_none _ h.symm |>.elim
  | step _ ok hc _ _ ih => exact waiting_step ih ok hc

/-- An `approve` that takes the last level of an account has it provided. -/
theorem provided_of_not_leavesLevel {account : Name} {a : MsigAction} {c c' : OnChain}
    (h : ¬ LeavesLevel account a c) (hc : a.execute c = some c') :
    ∃ p, c' a.proposer a.proposalName = some p ∧ ¬ NamesActor account p.requested ∧
      NamesActor account p.provided := by
  simp only [LeavesLevel, not_forall] at h
  obtain ⟨level, p, hcall, hp, hactor, hnone⟩ := h
  obtain ⟨p', hp', hc'⟩ := execute_eq_some hc
  rw [hcall, hp, MsigCall.apply] at hp'
  split at hp' <;> cases hp'
  exact ⟨_, (hc' _ _).trans (if_pos ⟨rfl, rfl⟩), hnone, level, List.mem_append_right _ (List.mem_singleton_self _),
    hactor⟩

end SqlDb
