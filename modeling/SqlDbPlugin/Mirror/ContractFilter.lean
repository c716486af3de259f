import SqlDbPlugin.Database.Effects
import SqlDbPlugin.Database.Frame
import SqlDbPlugin.Mirror.Recorded

/-!
# Excluded contracts

`contract_filter_out` reaches the plugin and its `sql_database`, and neither
asks it for an action. So a run keeps the excluded contracts out exactly as
far as the traversal meets none of their actions with a name in the action
filter: `excluded_never_recorded`, and `excluded_recorded` for a transfer of
an excluded token contract.
-/

namespace SqlDb

open Sql (Within)
open ActionTrace (nodeAt Matches Reaches visited forall_visited)
open ActionsTable (AddArgs)
open SqlDatabase

variable {L : ChainLib} {my : SqlDbPluginImpl}

/-- The traversal of the trace meets no action of an excluded contract that matches. -/
def MeetsNoExcluded (my : SqlDbPluginImpl) (tc : TransactionTrace) : Prop :=
  ∀ p t, nodeAt tc.actionTraces p = some t → t.Matches my.db.mActionFilterOn →
    Reaches my.db.mActionFilterOn tc.actionTraces p → my.filterOutContract t.act.account.str = false

theorem meetsNoExcluded_iff {tc : TransactionTrace} :
    MeetsNoExcluded my tc ↔
      ∀ a ∈ visited my.db.mActionFilterOn tc.actionTraces, a.name.str ∈ my.db.mActionFilterOn →
        my.filterOutContract a.account.str = false := by
  rw [forall_visited]
  exact ⟨fun h p t ht hr hR hf => h p t ht ⟨hr, hf⟩ hR, fun h p t ht hm hR => h p t ht hm.1 hR hm.2⟩

instance (my : SqlDbPluginImpl) (tc : TransactionTrace) : Decidable (MeetsNoExcluded my tc) :=
  decidable_of_iff' _ meetsNoExcluded_iff

theorem MeetsNoExcluded.of_mem {tc : TransactionTrace} (h : MeetsNoExcluded my tc) {a : AddArgs}
    (ha : a ∈ traceArgs my.db.mActionFilterOn tc) (hf : a.action.name.str ∈ my.db.mActionFilterOn) :
    my.filterOutContract a.action.account.str = false := by
  obtain ⟨act, hact, rfl⟩ := List.mem_map.mp ha
  exact meetsNoExcluded_iff.mp h act hact hf

/-- In a run whose traversals meet no action of an excluded contract that
matches, no row of an excluded contract is inserted into `actions`, and no
call of `add` for an excluded contract changes a table. -/
theorem excluded_never_recorded {signals : List Signal}
    (h : ∀ s ∈ signals, my.onAppliedTransaction s.trace = true → MeetsNoExcluded my s.trace) (d : Db) :
    (∃ rows, (mirror L my d signals).actions = d.actions ++ rows ∧
      ∀ r ∈ rows, my.filterOutContract r.account = false) ∧
    ∀ c ∈ callsMade L my d (accepted my signals),
      my.filterOutContract c.arg.action.account.str = true → c.after.db = c.before.db := by
  have hmeets : ∀ s ∈ accepted my signals, MeetsNoExcluded my s.trace := fun s hs =>
    h s (List.mem_of_mem_filter hs) (List.mem_filter.mp hs).2
  constructor
  · have hadd : ∀ s ∈ accepted my signals, ∀ a ∈ traceArgs my.db.mActionFilterOn s.trace,
        Within (ActionsTable.Appends fun r => my.filterOutContract r.account = false) (my.db.add L a) := by
      intro s hs a ha
      by_cases hf : a.action.name.str ∈ my.db.mActionFilterOn
      · refine (ActionsTable.add_appends L my.db.mActionFilterOn a).mono fun d d' => ?_
        rintro ⟨rows, hrows, hacc⟩
        have hout : my.filterOutContract a.action.account.str = false := (hmeets s hs).of_mem ha hf
        exact ⟨rows, hrows, fun r hr => (congrArg my.filterOutContract (hacc r hr)).trans hout⟩
      · intro w
        rw [SqlDatabase.add, ActionsTable.run_add_of_not_mem hf]
        exact Std.Refl.refl _
    exact consumeAll_within hadd d
  · intro c hc hex
    obtain ⟨⟨s, hs, ha⟩, hr⟩ := mem_callsMade hc
    have hf : c.arg.action.name.str ∉ my.db.mActionFilterOn := fun hf => by
      rw [(hmeets s hs).of_mem ha hf] at hex
      cases hex
    rw [SqlDatabase.add, ActionsTable.run_add_of_not_mem hf] at hr
    rw [← (Prod.mk.inj hr).2]

/-- The options of a plugin that is to record transfers, but not those of `eosio.token`. -/
def excludingOptions : Options where
  uri := some "mysql://db=EOS"
  actionFilterOn := some "transfer"
  contractFilterOut := some "eosio.token"

/-- The plugin they make. -/
def excludingPlugin : SqlDbPluginImpl where
  contractFilterOut := ["eosio.token"]
  blockNumStart := 0
  queueSize := 5000
  db := { mBlockNumStart := 0, mActionFilterOn := ["transfer"], mContractFilterOut := ["eosio.token"] }

/-- A transaction of one transfer of the token contract. -/
def transferTrace : TransactionTrace := { issueTrace with actionTraces := [inlinedTransfer] }

/-- A transfer of the excluded contract is recorded all the same. -/
theorem excluded_recorded :
    ((pluginInitialize .sample 0 excludingOptions).run ⟨{}, []⟩).1 = .ok (some excludingPlugin) ∧
    excludingPlugin.filterOutContract "eosio.token" = true ∧
    (mirror .sample excludingPlugin {} [⟨transferTrace, []⟩]).actions.map (·.account) =
      ["eosio.token"] := by
  refine ⟨rfl, rfl, rfl⟩

/-- A plugin that excludes another contract. -/
def excludingSpam : SqlDbPluginImpl :=
  { excludingPlugin with
    contractFilterOut := ["spam"]
    db := { excludingPlugin.db with mContractFilterOut := ["spam"] } }

def spam : Name := ⟨"spam", by decide⟩

/-- A transaction of an action of the excluded contract outside the action
filter, which sends a transfer of the token contract inline, and below which
`bank` is notified of a transfer of the excluded contract. -/
def spamTrace : TransactionTrace :=
  { issueTrace with
    actionTraces := [⟨spam, ⟨spam, ⟨"spin", by decide⟩, [], []⟩,
      [inlinedTransfer, ⟨bank, ⟨spam, transfer, [], []⟩, []⟩]⟩] }

/-- Of the two calls of `add`, the one for `spam` changes nothing, and the
only row inserted is of the token contract. -/
theorem excluded_never_recorded_transfer :
    (∃ rows, (mirror .sample excludingSpam {} [⟨spamTrace, []⟩]).actions = [] ++ rows ∧
      rows.map (·.account) = ["eosio.token"] ∧ ∀ r ∈ rows, excludingSpam.filterOutContract r.account = false) ∧
    (callsMade .sample excludingSpam {} (accepted excludingSpam [⟨spamTrace, []⟩])).map (·.arg.action.account) =
      [spam, .eosioToken] ∧
    ∀ c ∈ callsMade .sample excludingSpam {} (accepted excludingSpam [⟨spamTrace, []⟩]),
      excludingSpam.filterOutContract c.arg.action.account.str = true → c.after.db = c.before.db := by
  obtain ⟨⟨rows, hrows, hnone⟩, hcalls⟩ := @excluded_never_recorded .sample excludingSpam
    [⟨spamTrace, []⟩] (fun s hs _ => by rw [List.mem_singleton.mp hs]; decide) {}
  refine ⟨⟨rows, hrows, ?_, hnone⟩, by decide +kernel, hcalls⟩
  rw [show rows = (mirror .sample excludingSpam {} [⟨spamTrace, []⟩]).actions from hrows.symm]
  decide +kernel

end SqlDb
