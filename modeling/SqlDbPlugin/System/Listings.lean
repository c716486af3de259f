import SqlDbPlugin.Api.StillPending
import SqlDbPlugin.Api.TokenLists
import SqlDbPlugin.Mirror.Payloads
import SqlDbPlugin.Mirror.Recreated
import SqlDbPlugin.System.Reference

/-!
# What the endpoints list

`get_hold_tokens` and `get_all_tokens` go through the assets, and
`get_pending_proposals` through the proposals, in the order of their ids.
The order is that of the signals (`assets_listed`, `proposals_listed`): an
asset stands where its last `create` was, behind all that were created
before, and a proposal where its first `propose` was behind the last
`cancel` or `exec` of one with its key.
-/

namespace SqlDb

open ActionsTable (setabiOf writeOf)

namespace Changes

/-! ## Keyed changes -/

/-- Assets and proposals are written at their own keys. -/
structure Keyed (c : Changes) : Prop where
  assets : WellKeyed AssetRow.key c.assets
  proposal : WellKeyed ProposalRow.key c.proposal

theorem keyed_empty : Keyed {} :=
  ⟨fun _ h => absurd h List.not_mem_nil, fun _ h => absurd h List.not_mem_nil⟩

theorem Keyed.append {c c' : Changes} (h : c.Keyed) (h' : c'.Keyed) : (c ++ c').Keyed where
  assets w hw := (List.mem_append.mp hw).elim (h.assets w) (h'.assets w)
  proposal w hw := (List.mem_append.mp hw).elim (h.proposal w) (h'.proposal w)

theorem keyed_join {cs : List Changes} (h : ∀ c ∈ cs, c.Keyed) : (join cs).Keyed := by
  induction cs with
  | nil => exact keyed_empty
  | cons c cs ih => exact (h c List.mem_cons_self).append (ih fun c' hc => h c' (List.mem_cons_of_mem c hc))

theorem keyed_write (r : ActionsTable.Write) : r.changes.Keyed := by
  have hassets (row : AssetRow) : WellKeyed AssetRow.key [(row.key, some row)] := by
    rintro w hw row' hrow
    obtain rfl := List.mem_singleton.mp hw
    exact congrArg AssetRow.key (Option.some.inj hrow).symm
  have hproposal (row : ProposalRow) : WellKeyed ProposalRow.key [(row.key, some row)] := by
    rintro w hw row' hrow
    obtain rfl := List.mem_singleton.mp hw
    exact congrArg ProposalRow.key (Option.some.inj hrow).symm
  have hremoval (k : String × String) : WellKeyed ProposalRow.key [(k, none)] := by
    rintro w hw row' hrow
    obtain rfl := List.mem_singleton.mp hw
    cases hrow
  cases r with
  | account a => exact ⟨keyed_empty.assets, keyed_empty.proposal⟩
  | vote row => exact ⟨keyed_empty.assets, keyed_empty.proposal⟩
  | propose row => exact ⟨keyed_empty.assets, hproposal row⟩
  | unpropose proposer proposalName => exact ⟨keyed_empty.assets, hremoval _⟩
  | asset row => exact ⟨hassets row, keyed_empty.proposal⟩

variable {L : ChainLib}

theorem keyed_tried (t : Tried) : (t.changes L).Keyed := by
  have hstored : ((setabiOf L t.args.action).elim {} .ofAbi : Changes).Keyed := by
    rcases setabiOf L t.args.action with _ | s
    · exact keyed_empty
    · exact ⟨keyed_empty.assets, keyed_empty.proposal⟩
  rw [Tried.changes]
  refine hstored.append ?_
  rcases t.dataJson L with e | dataJson
  · exact keyed_empty
  · refine Keyed.append ⟨keyed_empty.assets, keyed_empty.proposal⟩ ?_
    rcases writeOf L t.abi t.args.action with _ | r
    · exact keyed_empty
    · exact keyed_write r

theorem keyed_changesOf (ts : List Tried) : (changesOf L ts).Keyed :=
  keyed_join <| List.forall_mem_map.mpr fun t _ => keyed_tried t

/-! ## Lists -/

/-- The assets of `d` that are not created again, and then those created, in
the order of the last time. -/
def listedAssets (c : Changes) (d : Db) : List AssetRow := replacedRows AssetRow.key c.assets d.assets.contents

/-- The proposals of `d` that are not removed, and then those proposed, in
the order of the first time behind the last removal; each as it was last
proposed. -/
def listedProposals (c : Changes) (d : Db) : List ProposalRow :=
  (upsertedKeys c.proposal (d.proposal.contents.map ProposalRow.key)).filterMap
    (lastWrite d.proposal.find? c.proposal)

variable {c : Changes} {d d' : Db}

theorem Made.listedAssets_eq (h : c.Made d d') (hk : c.Keyed) : d'.assets.contents = c.listedAssets d :=
  h.assetsListed.trans (foldl_replaceWrite hk.assets _)

theorem Made.listedProposals_eq (h : c.Made d d') (hk : c.Keyed) : d'.proposal.contents = c.listedProposals d := by
  have hkeys : d'.proposal.contents.map ProposalRow.key =
      upsertedKeys c.proposal (d.proposal.contents.map ProposalRow.key) := by
    rw [h.proposalListed]
    exact keys_foldl_upsertWrite hk.proposal _
  rw [d'.proposal.contents_eq_filterMap, hkeys, listedProposals]
  exact congrArg (List.filterMap · _) (funext h.proposal)

end Changes

/-! ## The endpoints of the node -/

variable {L : ChainLib} {my : SqlDbPluginImpl} {d₀ : Db} {n : Node}

/-- Wherever no call of `consume_transaction_trace` is under way in a run in
which there is memory and no statement fails: the token endpoints show the
balances of the assets of the first few signals emitted, in the order of the
last `create` of each, behind those that were there at the start and have
not been created again. -/
theorem assets_listed (h : (node L my d₀).Reach Undisturbed n) (hrest : n.Resting) :
    ∃ done rest, n.emitted = done ++ rest ∧ waitingIn n.consumer = accepted my rest ∧
      ∀ (A : ApiLib) (db : Controller) (account : Name) (uninit : AssetRow → UInt8),
        ((getHoldTokens A db uninit account).run ⟨n.db, []⟩).1 = .ok (assetsTokens A db account (fun _ => .ok none)
          ((changesOf L (reference L my d₀.abiOf (accepted my done))).listedAssets d₀)) ∧
        ∀ startNum pageSize, 0 ≤ startNum → 0 ≤ pageSize →
          ((getAllTokens A db uninit ⟨account, startNum, pageSize⟩).run ⟨n.db, []⟩).1 =
            .ok (assetsTokens A db account (missingAsset A)
              ((((changesOf L (reference L my d₀.abiOf (accepted my done))).listedAssets d₀).drop
                startNum.toNat).take pageSize.toNat)) := by
  obtain ⟨done, rest, hem, hw, -, hdb⟩ := lagging_db (h.mono fun _ _ => Undisturbed.inMemory)
  have hmade := made_of_emitted h hem
  rw [← hdb hrest] at hmade
  have hlisted := hmade.listedAssets_eq (Changes.keyed_changesOf _)
  refine ⟨done, rest, hem, hw, fun A db account uninit => ⟨?_, fun startNum pageSize hs hp => ?_⟩⟩
  · rw [getHoldTokens_eq, ← hlisted]
    rfl
  · rw [getAllTokens_page hs hp, hlisted]

/-- A transaction that creates `EOS`, and a plugin that records such. -/
def createTrace : TransactionTrace := { issueTrace with actionTraces := [⟨.eosioToken, createEos, []⟩] }

def createPlugin : SqlDbPluginImpl :=
  { tokenPlugin with db := { tokenPlugin.db with mActionFilterOn := ["create"] } }

/-- `EOS`, created again, is on the second page. -/
theorem assets_listed_eos : ∃ n, (node .create createPlugin twoAssets).Reach Undisturbed n ∧
    n.db.assets.contents.map (·.symbol) = ["SYS", "EOS"] ∧
    ∃ done rest, n.emitted = done ++ rest ∧ waitingIn n.consumer = accepted createPlugin rest ∧
      ∀ uninit, ((getAllTokens .sample .sample uninit ⟨alice, 1, 1⟩).run ⟨n.db, []⟩).1 =
        .ok (assetsTokens .sample .sample alice (missingAsset .sample)
          ((((changesOf .create (reference .create createPlugin twoAssets.abiOf
            (accepted createPlugin done))).listedAssets twoAssets).drop 1).take 1)) := by
  obtain ⟨n, hn, hp⟩ := Machine.reach_of_run (M := node .create createPlugin twoAssets) Undisturbed
    (p := fun n => n.db.assets.contents.map (·.symbol) == ["SYS", "EOS"] && decide n.Resting)
    (.emit ⟨createTrace, []⟩ :: List.replicate 5 (.act (.produce () .returns)) ++ workTraces 14)
    (by decide +kernel)
  simp only [Bool.and_eq_true, beq_iff_eq, decide_eq_true_eq] at hp
  obtain ⟨done, rest, hem, hw, hlists⟩ := assets_listed hn hp.2
  exact ⟨n, hn, hp.1, done, rest, hem, hw, fun uninit =>
    (hlists .sample .sample alice uninit).2 1 1 (by decide) (by decide)⟩

/-- And `get_pending_proposals` searches the proposals of the first few
signals emitted, in the order of the first `propose` of each behind the last
`cancel` or `exec`, behind those that were there at the start and have not
been removed. -/
theorem proposals_listed (h : (node L my d₀).Reach Undisturbed n) (hrest : n.Resting) :
    ∃ done rest, n.emitted = done ++ rest ∧ waitingIn n.consumer = accepted my rest ∧
      ∀ (A : ApiLib) (db : Controller) (account : Name) (uninit : ProposalRow → UInt8),
        ((getPendingProposals A db uninit account).run ⟨n.db, []⟩).1 = searchProposals A db
          (((changesOf L (reference L my d₀.abiOf (accepted my done))).listedProposals d₀).filter fun row =>
            ActionsTable.like A.sameChar (proposalPattern account.str).toList row.requestedApprovals.toList) := by
  obtain ⟨done, rest, hem, hw, -, hdb⟩ := lagging_db (h.mono fun _ _ => Undisturbed.inMemory)
  have hmade := made_of_emitted h hem
  rw [← hdb hrest] at hmade
  have hlisted := hmade.listedProposals_eq (Changes.keyed_changesOf _)
  refine ⟨done, rest, hem, hw, fun A db account uninit => ?_⟩
  obtain ⟨matched, hmatched⟩ : ∃ matched,
    ((ActionsTable.getProposal A account.str).run ⟨n.db, []⟩).1 = .ok matched := ⟨_, rfl⟩
  rw [run_getPendingProposals hmatched, getProposal_ok hmatched, hlisted]

/-- The `cancel` of `pay`. -/
def cancelArgs : ActionsTable.AddArgs := ⟨⟨.eosioMsig, .cancel, [aliceActive], packedCancel⟩, "2e", ⟨0⟩⟩

/-- A transaction of it, and a plugin that records such. -/
def cancelTrace : TransactionTrace := { issueTrace with actionTraces := [⟨.eosioMsig, cancelArgs.action, []⟩] }

def cancelPlugin : SqlDbPluginImpl :=
  { tokenPlugin with db := { tokenPlugin.db with mActionFilterOn := ["cancel"] } }

/-- The accounts with an abi of `eosio.msig`. -/
def msigAccounts : Db := ({} : Db).upsertAbi "eosio.msig" SystemAbi.msig.json

/-- The JSON of `aliceActive` alone. -/
def alicesLevel : String := "[\x7b\"actor\":\"alice\",\"permission\":\"active\"\x7d]"

/-- The proposal that it cancels, and another of `alice`; both request her level. -/
def twoProposals : Db :=
  (msigAccounts.upsertProposal ⟨"alice", "pay", alicesLevel⟩).upsertProposal ⟨"alice", "send", alicesLevel⟩

/-- `send` is left. -/
theorem proposals_listed_cancel : ∃ n, (node .system cancelPlugin twoProposals).Reach Undisturbed n ∧
    n.db.proposal.contents.map (·.key) = [("alice", "send")] ∧
    ∃ done rest, n.emitted = done ++ rest ∧ waitingIn n.consumer = accepted cancelPlugin rest ∧
      ∀ uninit, ((getPendingProposals .sample .sample uninit alice).run ⟨n.db, []⟩).1 = searchProposals .sample .sample
        (((changesOf .system (reference .system cancelPlugin twoProposals.abiOf
          (accepted cancelPlugin done))).listedProposals twoProposals).filter fun row =>
            ActionsTable.like ApiLib.sample.sameChar (proposalPattern alice.str).toList
              row.requestedApprovals.toList) := by
  obtain ⟨n, hn, hp⟩ := Machine.reach_of_run (M := node .system cancelPlugin twoProposals) Undisturbed
    (p := fun n => n.db.proposal.contents.map (·.key) == [("alice", "send")] && decide n.Resting)
    (.emit ⟨cancelTrace, []⟩ :: List.replicate 5 (.act (.produce () .returns)) ++ workTraces 14)
    (by decide +kernel)
  simp only [Bool.and_eq_true, beq_iff_eq, decide_eq_true_eq] at hp
  obtain ⟨done, rest, hem, hw, hlists⟩ := proposals_listed hn hp.2
  exact ⟨n, hn, hp.1, done, rest, hem, hw, hlists .sample .sample alice⟩

end SqlDb
