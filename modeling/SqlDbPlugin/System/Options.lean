import SqlDbPlugin.Database.Effects
import SqlDbPlugin.Database.Frame
import SqlDbPlugin.Mirror.Startup
import SqlDbPlugin.System.Node

/-!
# From the options to the rows

The text of a filter option lists texts with commas between them, with
blanks anywhere (`Lists`). The plugin reads from it what was written: all of
the texts, in order, and nothing else (`splitList_eq_iff`). So a row of
`actions` that the running node adds has a name that its option lists, and
it is that of a node of an emitted trace, from the block start on, which ran
for its own account (`configured_rows`). A node whose option is left out
adds no row.
-/

namespace SqlDb

open Sql (Within)
open ActionTrace (nodeAt visited forall_visited)
open ActionsTable (AddArgs Appends actionRow add_within appends_of_eq)
open SqlDatabase
open SqlDbPluginImpl (ofOptions)

/-! ## The lists -/

def withoutBlanks (fo : String) : String := String.ofList (fo.toList.filter (· ≠ ' '))

/-- The text is a list, and `n` is on it. -/
def Lists (fo n : String) : Prop :=
  ∃ names : List String, n ∈ names ∧ (∀ m ∈ names, ',' ∉ m.toList) ∧ ",".intercalate names = withoutBlanks fo

theorem not_mem_of_mem_splitOn {α : Type*} [BEq α] [LawfulBEq α] {a : α} {xs l : List α} (h : l ∈ xs.splitOn a) :
    a ∉ l := by
  induction xs generalizing l with
  | nil =>
    rw [List.splitOn_nil, List.mem_singleton] at h
    rw [h]
    exact List.not_mem_nil
  | cons x xs ih =>
    rw [List.splitOn_cons_eq_if_modifyHead] at h
    obtain ⟨first, rest, hsplit⟩ := List.exists_cons_of_ne_nil (List.splitOn_ne_nil a xs)
    rw [hsplit] at h ih
    split at h
    · obtain rfl | h := List.mem_cons.mp h
      · exact List.not_mem_nil
      · exact ih h
    · rename_i hx
      have hne : a ≠ x := fun he => hx (beq_iff_eq.mpr he.symm)
      rw [List.modifyHead_cons] at h
      obtain rfl | h := List.mem_cons.mp h
      · exact List.not_mem_cons_of_ne_of_not_mem hne (ih List.mem_cons_self)
      · exact ih (List.mem_cons_of_mem first h)

/-- What is read from a text is what it is written as. -/
theorem splitList_eq_iff {fo : String} {names : List String} :
    splitList fo = names ↔
      names ≠ [] ∧ (∀ m ∈ names, ',' ∉ m.toList) ∧ ",".intercalate names = withoutBlanks fo := by
  have hlist : ",".intercalate names = withoutBlanks fo ↔
      [','].intercalate (names.map String.toList) = fo.toList.filter (· ≠ ' ') := by
    have hcomma : ",".toList = [','] := rfl
    rw [withoutBlanks, ← String.toList_inj, String.toList_intercalate, hcomma, String.toList_ofList]
  rw [hlist]
  constructor
  · rintro rfl
    have htexts : (splitList fo).map String.toList = (fo.toList.filter (· ≠ ' ')).splitOn ',' := by
      rw [splitList, List.map_map]
      exact List.map_id'' (fun _ => String.toList_ofList) _
    refine ⟨fun hnil => ?_, fun m hm => ?_, ?_⟩
    · rw [hnil] at htexts
      exact List.splitOn_ne_nil _ _ htexts.symm
    · have hmem : m.toList ∈ (fo.toList.filter (· ≠ ' ')).splitOn ',' := htexts ▸ List.mem_map_of_mem hm
      exact not_mem_of_mem_splitOn hmem
    · rw [htexts, List.intercalate_splitOn]
  · rintro ⟨hne, hcomma, hjoin⟩
    rw [splitList, ← hjoin, List.splitOn_intercalate]
    · rw [List.map_map]
      exact List.map_id'' (fun _ => String.ofList_toList) _
    · simpa using hcomma
    · simpa using hne

theorem lists_of_mem {fo n : String} (h : n ∈ splitList fo) : Lists fo n := by
  obtain ⟨-, hcomma, hjoin⟩ := splitList_eq_iff.mp (rfl : splitList fo = splitList fo)
  exact ⟨splitList fo, h, hcomma, hjoin⟩

/-! ## The rows -/

variable {L : ChainLib} {my : SqlDbPluginImpl} {amount : Int} {options : Options} {w : World Exn Db}

/-- The row of a node of the trace that ran for its own account. -/
def RowOf (L : ChainLib) (s : Signal) (r : ActionRow) : Prop :=
  ∃ p t json dataJson, nodeAt s.trace.actionTraces p = some t ∧ t.receiver = t.act.account ∧
    r = actionRow L t.act s.trace.id s.trace.blockTime json dataJson

/-- A plugin that is initialised is the one its options describe. -/
theorem eq_ofOptions (h : ((pluginInitialize L amount options).run w).1 = .ok (some my)) :
    my = ofOptions options := by
  obtain ⟨uri, huri, hne⟩ := uri_of_some h
  rw [pluginInitialize_eq huri hne] at h
  obtain ⟨_, _, -, hrun⟩ := Sql.of_run_bind h
  rw [hrun] at h
  obtain ⟨_, _, -, hrun⟩ := Sql.of_run_bind h
  rw [hrun] at h
  obtain ⟨_, _, -, hrun⟩ := Sql.of_run_bind h
  rw [hrun] at h
  obtain ⟨_, _, -, hrun⟩ := Sql.of_run_bind h
  rw [hrun, Sql.run_pure] at h
  cases h
  rfl

/-- A call of `add` appends rows of its action, and none if the filter has no name of it. -/
theorem add_appends_rows (a : AddArgs) :
    Within (Appends fun r => a.action.name.str ∈ my.db.mActionFilterOn ∧
      ∃ json dataJson, r = actionRow L a.action a.transactionId a.blockTime json dataJson) (my.db.add L a) := by
  by_cases hf : a.action.name.str ∈ my.db.mActionFilterOn
  · refine add_within L _ a (fun _ _ _ => appends_of_eq rfl) ?_ fun json dataJson d => ?_
    · exact ⟨fun _ _ => appends_of_eq rfl, fun _ _ => appends_of_eq rfl, fun _ _ => appends_of_eq rfl,
        fun _ _ => appends_of_eq rfl, fun _ _ _ => appends_of_eq rfl, fun _ _ => appends_of_eq rfl⟩
    · refine ⟨[_], rfl, fun r hr => ⟨hf, json, dataJson, ?_⟩⟩
      exact List.mem_singleton.mp hr
  · intro w
    rw [SqlDatabase.add, ActionsTable.run_add_of_not_mem hf]
    exact Std.Refl.refl _

/-- What consuming traces appends to `actions`. -/
theorem consumeAll_appends_rows (d : Db) (pushed : List Signal) :
    Appends (fun r => r.name ∈ my.db.mActionFilterOn ∧ ∃ s ∈ pushed, RowOf L s r) d
      (consumeAll L my d pushed) := by
  refine consumeAll_within (fun s hs a ha => ?_) d
  obtain ⟨act, hact, rfl⟩ := List.mem_map.mp ha
  have hnode : ∃ p t, nodeAt s.trace.actionTraces p = some t ∧ t.receiver = t.act.account ∧ t.act = act :=
    forall_visited (P := fun act => ∃ p t, nodeAt s.trace.actionTraces p = some t ∧
      t.receiver = t.act.account ∧ t.act = act) |>.mpr (fun p t ht hr _ => ⟨p, t, ht, hr, rfl⟩) act hact
  obtain ⟨p, t, ht, hr, rfl⟩ := hnode
  refine (add_appends_rows _).mono fun d d' => ?_
  rintro ⟨rows, hrows, hall⟩
  refine ⟨rows, hrows, fun r hmem => ?_⟩
  obtain ⟨hf, json, dataJson, he⟩ := hall r hmem
  refine ⟨?_, s, hs, p, t, json, dataJson, ht, hr, he⟩
  rw [he]
  exact hf

/-- In every interleaving of a node whose plugin was initialised with the
options, with any signals and whichever statements fail: the rows added to
`actions` have names that the filter option lists, and each is that of a
node of an emitted trace that ran for its own account, in a block from the
block start on, and not in an `onblock`. -/
theorem configured_rows (hmy : ((pluginInitialize L amount options).run w).1 = .ok (some my)) {d₀ : Db}
    {n : Node} (h : (node L my d₀).Reachable n) :
    ∃ rows, n.db.actions = d₀.actions ++ rows ∧ ∀ r ∈ rows,
      (∃ fo, options.actionFilterOn = some fo ∧ Lists fo r.name) ∧
      ∃ s ∈ n.emitted, options.blockStart ≤ s.trace.blockNum ∧
        isOnblock (s.trace.actionTraces.map (·.act.name)) = false ∧ RowOf L s r := by
  obtain ⟨pushed, hpushed, hdb⟩ := consumed_db h
  obtain ⟨rows, hrows, hall⟩ := @consumeAll_appends_rows L my d₀ pushed
  refine ⟨rows, hdb ▸ hrows, fun r hr => ?_⟩
  obtain ⟨hname, s', hs', hrow⟩ := hall r hr
  obtain ⟨s, haccepted, htrace⟩ := hpushed s' hs'
  rw [RowOf, htrace] at hrow
  obtain ⟨hemitted, hpush⟩ := List.mem_filter.mp haccepted
  rw [eq_ofOptions hmy] at hname hpush
  constructor
  · rcases hon : options.actionFilterOn with _ | fo
    · rw [show (ofOptions options).db.mActionFilterOn = [] by simp [ofOptions, hon]] at hname
      exact absurd hname List.not_mem_nil
    · rw [show (ofOptions options).db.mActionFilterOn = splitList fo by simp [ofOptions, hon]] at hname
      exact ⟨fo, rfl, lists_of_mem hname⟩
  · rw [SqlDbPluginImpl.onAppliedTransaction] at hpush
    split at hpush
    · cases hpush
    · rename_i hstart
      refine ⟨s, hemitted, UInt32.not_lt.mp hstart, ?_, hrow⟩
      rw [SqlDbPluginImpl.appliedTransaction, Bool.not_eq_true'] at hpush
      exact hpush

/-- The options of a plugin that is to record issues and transfers. -/
def tokenOptions : Options where
  uri := some "mysql://db=EOS"
  actionFilterOn := some "issue, transfer"

/-- An issue is emitted, and its row is there. -/
theorem configured_rows_run : ∃ n, (node .sample tokenPlugin {}).Reachable n ∧ n.db.actions.length = 1 ∧
    ∃ rows, n.db.actions = [] ++ rows ∧ ∀ r ∈ rows,
      (∃ fo, tokenOptions.actionFilterOn = some fo ∧ Lists fo r.name) ∧
      ∃ s ∈ n.emitted, tokenOptions.blockStart ≤ s.trace.blockNum ∧
        isOnblock (s.trace.actionTraces.map (·.act.name)) = false ∧ RowOf .sample s r := by
  obtain ⟨n, hn, hp⟩ := Machine.reach_of_run (M := node .sample tokenPlugin {}) (fun _ _ => True)
    (p := fun n => n.db.actions.length == 1)
    (emitAndPush ++ workTraces 13) (by decide +kernel)
  have hmy : ((pluginInitialize .sample 0 tokenOptions).run ⟨{}, []⟩).1 = .ok (some tokenPlugin) := rfl
  exact ⟨n, hn, by simpa using hp, configured_rows hmy hn⟩

end SqlDb
