import SqlDbPlugin.Database.Frame
import SqlDbPlugin.Lib.Machine
import SqlDbPlugin.Mirror.Startup

/-!
# Resyncs

Runs of the plugin one after the other on the same database (`pluginRuns`):
each starts up, and then mirrors its signals. A resync is a start-up with
block start 0 that announces the wipe and whose `INSERT` succeeds
(`Resyncs`). `wipe` deletes nothing, so what a resync leaves is an empty
mirror with the system account only if the database was empty before
(`resync_starts_empty`); it is, if earlier runs have recorded traces only
behind a start-up that put the system account there (`CleanRun`).
-/

namespace SqlDb

open Sql (Within)
open SqlDatabase (getSession isStarted wipe)
open SqlDbPluginImpl (ofOptions)

variable {L : ChainLib} {amount : Int} {options : Options} {w w' : World Exn Db} {d d' : Db}

/-! ## Runs one after the other -/

/-- A run of the plugin: the start-up, with how its statements go, and the signals. -/
structure PluginRun where
  amount : Int
  options : Options
  faults : List (Option Exn) := []
  signals : List Signal := []

/-- The database behind a run. -/
def PluginRun.after (L : ChainLib) (r : PluginRun) (d : Db) : Db :=
  let started := (pluginInitialize L r.amount r.options).run ⟨d, r.faults⟩
  match started.1 with
  | .ok (some my) => mirror L my started.2.db r.signals
  | _ => started.2.db

/-- The contents of the database over the runs of the plugin on it. -/
def pluginRuns (L : ChainLib) : Machine Db PluginRun where
  init := {}
  step r d := some (r.after L d)

/-- The tables but `accounts` are empty. -/
structure OthersEmpty (d : Db) : Prop where
  accountsKeys : d.accountsKeys = []
  actions : d.actions = []
  assets : d.assets.contents = []
  votes : d.votes.contents = []
  proposal : d.proposal.contents = []

/-- All tables are empty. -/
def Vacant (d : Db) : Prop := d.accounts.contents = [] ∧ OthersEmpty d

/-- `accounts` has one row, the system account with the system abi; the others are empty. -/
def SystemOnly (L : ChainLib) (d : Db) : Prop := d.accounts.contents = [systemRow L] ∧ OthersEmpty d

/-- A start-up with block start 0 that gets past the branch that announces
the wipe, and whose `INSERT` succeeds. -/
structure Resyncs (L : ChainLib) (amount : Int) (options : Options) (w : World Exn Db) : Prop where
  blockStart : options.blockStart = 0
  returns : ∃ my, ((pluginInitialize L amount options).run w).1 = .ok (some my)
  announces : Announces amount w
  inserts : ((insertEosio L).run (w.skip insertStatement)).1 = .ok ()

/-- A run that records traces only behind a start-up with block start 0
whose statements all succeed. -/
def CleanRun (r : PluginRun) (d : Db) : Prop :=
  r.signals = [] ∨
    r.options.blockStart = 0 ∧ ∀ n ≤ insertStatement, (World.mk d r.faults).fault n = none

/-! ## A resync -/

theorem insertEosio_ok {n : Nat} (h : ((insertEosio L).run (w.skip n)).1 = .ok ()) :
    ¬ SystemAccount w.db ∧ ∃ accounts, accounts.contents = w.db.accounts.contents ++ [systemRow L] ∧
      ((insertEosio L).run (w.skip n)).2.db = { w.db with accounts } := by
  rw [insertEosio, Sql.run_statement_next, World.next_skip] at h ⊢
  rcases hn : w.fault n with _ | e
  · rw [hn] at h
    obtain ⟨accounts, hinsert, hnew, hcontents⟩ | ⟨hinsert, -⟩ := insert_systemRow L w.db
    · simp only [show (w.skip n).db = w.db from rfl, hinsert]
      exact ⟨hnew, accounts, hcontents, rfl⟩
    · simp only [show (w.skip n).db = w.db from rfl, hinsert] at h
      cases h
  · rw [hn] at h
    cases h

/-- A resync adds the row of the system account, and that is all. -/
theorem Resyncs.db (h : Resyncs L amount options w) :
    ∃ accounts, accounts.contents = w.db.accounts.contents ++ [systemRow L] ∧
      ((pluginInitialize L amount options).run w).2.db = { w.db with accounts } := by
  obtain ⟨my, hrun⟩ := h.returns
  obtain ⟨started, hexist, hboot⟩ := pluginInitialize_some hrun
  have hstarted : started = false := by
    have hann := h.announces
    rw [Announces, hexist] at hann
    exact Except.ok.inj hann
  rw [bootstrap, if_pos ⟨hstarted, h.blockStart⟩] at hboot
  rw [wipe_ok hboot]
  exact (insertEosio_ok h.inserts).2

theorem Resyncs.not_system (h : Resyncs L amount options w) : ¬ SystemAccount w.db :=
  (insertEosio_ok h.inserts).1

theorem resync_iff (h : Resyncs L amount options w) :
    SystemOnly L ((pluginInitialize L amount options).run w).2.db ↔ Vacant w.db := by
  obtain ⟨accounts, hcontents, hdb⟩ := h.db
  rw [SystemOnly, Vacant, hdb, hcontents, List.append_left_eq_self]
  exact and_congr_right fun _ => ⟨fun ⟨hk, ha, hs, hv, hp⟩ => ⟨hk, ha, hs, hv, hp⟩,
    fun ⟨hk, ha, hs, hv, hp⟩ => ⟨hk, ha, hs, hv, hp⟩⟩

/-! ## Clean histories -/

/-- A start-up leaves the database as it is, or with the system account. -/
def Boots (d d' : Db) : Prop := d' = d ∨ SystemAccount d'

instance : Std.Refl Boots := ⟨fun _ => .inl rfl⟩

instance : IsTrans Db Boots where
  trans := by
    rintro d₁ d₂ d₃ h (rfl | h')
    · exact h
    · exact .inr h'

/-- Once the system account is there, it stays. -/
def Keeps (d d' : Db) : Prop := SystemAccount d → SystemAccount d'

instance : Std.Refl Keeps := ⟨fun _ => id⟩

instance : IsTrans Db Keeps := ⟨fun _ _ _ h h' => h' ∘ h⟩

theorem insertEosio_boots : Within Boots (insertEosio L) :=
  .statement fun d _ d' h => by
    obtain ⟨accounts, hinsert, -, hcontents⟩ | ⟨hinsert, -⟩ := insert_systemRow L d
    · rw [hinsert] at h
      cases h
      exact .inr ⟨systemRow L, hcontents ▸ List.mem_append_right _ List.mem_cons_self, rfl⟩
    · rw [hinsert] at h
      cases h

theorem pluginInitialize_boots (L : ChainLib) (amount : Int) (options : Options) :
    Within Boots (pluginInitialize L amount options) := by
  rcases huri : options.uri with _ | uri
  · simp only [pluginInitialize, huri]
    exact .throw _
  · by_cases hne : uri = ""
    · simp only [pluginInitialize, huri, if_pos hne]
      exact .pure _
    · have hpool (n : Nat) : Within Boots (openPool n) := .each fun _ _ => .query _
      have hexist (db : SqlDatabase) : Within Boots (isStarted db amount) := by
        refine (Within.query _).bind fun _ => .tryCatch ((Within.query _).bind fun _ => .pure _) ?_
        rintro (_ | _ | _ | _)
        · exact .throw _
        · exact .pure _
        · exact .pure _
        · exact .throw _
      have hboot (started : Bool) : Within Boots (bootstrap L options (ofOptions options).db started) := by
        rw [bootstrap]
        split
        · exact (Within.query _).bind fun _ => .guarded insertEosio_boots
        · exact .pure _
      rw [pluginInitialize_eq huri hne]
      exact (hpool 1).bind fun _ => (hpool 5).bind fun _ => (hexist _).bind fun started =>
        (hboot started).bind fun _ => .pure _

theorem system_iff_find (d : Db) :
    SystemAccount d ↔ d.accounts.find? Name.systemAccountName.str ≠ none := by
  rw [Ne, Table.find?_eq_none_iff, SystemAccount]
  push Not
  rfl

theorem upsertAbi_keeps (n : String) (abi : JsonText) (d : Db) : Keeps d (d.upsertAbi n abi) := by
  rw [Keeps, system_iff_find, system_iff_find, Db.find?_upsertAbi]
  split
  · exact fun _ => Option.some_ne_none _
  · exact id

theorem upsertAccount_keeps (n : String) (d : Db) : Keeps d (d.upsertAccount n) := by
  rw [Keeps, system_iff_find, system_iff_find, Db.upsertAccount, Table.find?_upsert]
  split
  · exact fun _ => Option.some_ne_none _
  · exact id

/-- What is mirrored leaves the system account there. -/
theorem mirror_keeps (my : SqlDbPluginImpl) (d : Db) (signals : List Signal) :
    Keeps d (mirror L my d signals) :=
  consumeAll_within (fun _ _ _ _ => ActionsTable.add_within L _ _ upsertAbi_keeps
    ⟨upsertAccount_keeps, fun _ _ => id, fun _ _ => id, fun _ _ => id, fun _ _ _ => id, fun _ _ => id⟩
    fun _ _ _ => id) d

/-- Behind a start-up with block start 0 whose statements succeed, the
system account is there, unless the plugin is not started. -/
theorem system_of_started {my : SqlDbPluginImpl} (hstart : options.blockStart = 0)
    (hfaults : ∀ n ≤ insertStatement, w.fault n = none)
    (hrun : ((pluginInitialize L amount options).run w).1 = .ok (some my)) :
    SystemAccount ((pluginInitialize L amount options).run w).2.db := by
  refine (system_account_iff hstart ⟨my, hrun⟩ fun _ => hfaults _ (Nat.le_refl _)).mpr (.inr (.inl ?_))
  rw [hfaults countStatement (by decide)]
  exact nofun

theorem cleanRun_step {r : PluginRun} (hd : Vacant d ∨ SystemAccount d) (ok : CleanRun r d) :
    Vacant (r.after L d) ∨ SystemAccount (r.after L d) := by
  have hboot := pluginInitialize_boots L r.amount r.options ⟨d, r.faults⟩
  have hdb : Vacant ((pluginInitialize L r.amount r.options).run ⟨d, r.faults⟩).2.db ∨
      SystemAccount ((pluginInitialize L r.amount r.options).run ⟨d, r.faults⟩).2.db := by
    obtain h | h := hboot
    · rw [h]; exact hd
    · exact .inr h
  rw [PluginRun.after]
  split
  · rename_i my hrun
    obtain h | ⟨hstart, hfaults⟩ := ok
    · rw [h]
      exact hdb
    · exact .inr (mirror_keeps my _ _ (system_of_started hstart hfaults hrun))
  · exact hdb

theorem vacant_or_system (h : (pluginRuns L).Reach CleanRun d) : Vacant d ∨ SystemAccount d := by
  refine h.inv (I := fun d => Vacant d ∨ SystemAccount d) (.inl ⟨rfl, rfl, rfl, rfl, rfl, rfl⟩) ?_
  intro r d d' hd ok hstep
  cases hstep
  exact cleanRun_step hd ok

/-- A resync leaves just the system account if and only if the database was
empty before. Where earlier runs have recorded traces only behind a start-up
with block start 0 whose statements succeeded, every resync does. -/
theorem resync_starts_empty (L : ChainLib) :
    (∀ {d : Db}, (pluginRuns L).Reachable d → ∀ amount options faults,
      Resyncs L amount options ⟨d, faults⟩ →
      (SystemOnly L ((pluginInitialize L amount options).run ⟨d, faults⟩).2.db ↔ Vacant d)) ∧
    ∀ {d : Db}, (pluginRuns L).Reach CleanRun d → ∀ amount options faults,
      Resyncs L amount options ⟨d, faults⟩ →
      SystemOnly L ((pluginInitialize L amount options).run ⟨d, faults⟩).2.db := by
  refine ⟨fun _ amount options faults h => resync_iff h, fun hd amount options faults h => ?_⟩
  exact (resync_iff h).mpr ((vacant_or_system hd).resolve_right h.not_system)

/-- A run from block 100 on that records a `ping`. -/
def lateRun : PluginRun where
  amount := 0
  options := { syncOptions with blockStart := 100, actionFilterOn := some "ping" }
  signals := [⟨⟨pingTransaction.id, 100, ⟨0⟩, some .executed, none, [⟨pinger, badPing, []⟩]⟩, []⟩]

/-- The database behind it. -/
def lateDb : Db := lateRun.after .sample {}

theorem resyncs_of_sample {d : Db} (h : ¬ SystemAccount d)
    (hinsert : ((insertEosio .sample).run ⟨d, []⟩).1 = .ok ())
    (hreturns : ∃ my, ((pluginInitialize .sample 0 syncOptions).run ⟨d, []⟩).1 = .ok (some my)) :
    Resyncs .sample 0 syncOptions ⟨d, []⟩ where
  blockStart := rfl
  returns := hreturns
  announces := by
    rw [Announces, run_exist]
    exact congrArg Except.ok (decide_eq_false h)
  inserts := hinsert

/-- A resync on it announces the wipe, and keeps the row of the `ping`. -/
theorem resync_keeps_rows :
    (pluginRuns .sample).Reachable lateDb ∧ Resyncs .sample 0 syncOptions ⟨lateDb, []⟩ ∧
    ((pluginInitialize .sample 0 syncOptions).run ⟨lateDb, []⟩).2.db.actions.length = 1 ∧
    ¬ SystemOnly .sample ((pluginInitialize .sample 0 syncOptions).run ⟨lateDb, []⟩).2.db := by
  have hlength : ((pluginInitialize .sample 0 syncOptions).run ⟨lateDb, []⟩).2.db.actions.length = 1 := by
    decide +kernel
  refine ⟨.step (a := lateRun) .init trivial rfl, ?_, hlength, fun h => ?_⟩
  · exact resyncs_of_sample (by decide +kernel) (by decide +kernel) ⟨_, rfl⟩
  · rw [h.2.actions] at hlength
    cases hlength

/-- Runs from block 100 on, one that is given the `ping` of an earlier block,
and one that is given nothing. -/
def skippingRun : PluginRun :=
  { lateRun with
    signals := [⟨⟨pingTransaction.id, 99, ⟨0⟩, some .executed, none, [⟨pinger, badPing, []⟩]⟩, []⟩] }

def idleRun : PluginRun := { lateRun with signals := [] }

/-- Behind each of them a resync leaves just the system account. -/
theorem resync_starts_empty_late :
    SystemOnly .sample ((pluginInitialize .sample 0 syncOptions).run ⟨skippingRun.after .sample {}, []⟩).2.db ∧
    SystemOnly .sample ((pluginInitialize .sample 0 syncOptions).run ⟨idleRun.after .sample {}, []⟩).2.db := by
  obtain ⟨hiff, hclean⟩ := resync_starts_empty .sample
  constructor
  · have hreach : (pluginRuns .sample).Reachable (skippingRun.after .sample {}) :=
      .step (a := skippingRun) .init trivial rfl
    have hvacant : Vacant (skippingRun.after .sample {}) := ⟨rfl, rfl, rfl, rfl, rfl, rfl⟩
    exact (hiff hreach 0 syncOptions [] (resyncs_of_sample (by decide +kernel) rfl ⟨_, rfl⟩)).mpr hvacant
  · have hreach : (pluginRuns .sample).Reach CleanRun (idleRun.after .sample {}) :=
      .step (a := idleRun) .init (.inl rfl) rfl
    exact hclean hreach 0 syncOptions [] (resyncs_of_sample (by decide +kernel) rfl ⟨_, rfl⟩)

end SqlDb
