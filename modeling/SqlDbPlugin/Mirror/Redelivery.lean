import SqlDbPlugin.Database.Effects
import SqlDbPlugin.Database.Frame
import SqlDbPlugin.Mirror.Recorded

/-!
# Redelivery

Consuming a trace once more changes nothing in the tables written by
upserts, but the rows of `actions` have no key, so the first action recorded
is recorded again. `redelivery_iff`: the second time leaves the contents as
they are only if it records nothing, that is, if the first action that
matches has a payload that does not convert, or no action matches.
-/

namespace SqlDb

open Sql (Within each)
open ActionTrace (visited)
open ActionsTable (AddArgs payload contractArg afterData setabiOf Appends)
open SqlDatabase

variable {L : ChainLib} {db : SqlDatabase} {tc : TransactionTrace} {d : Db}

/-- The database when the trace has been consumed in `d` and every statement has succeeded. -/
def consumed (L : ChainLib) (db : SqlDatabase) (tc : TransactionTrace) (d : Db) : Db :=
  ((consumeTransactionTrace (db.add L) tc).run ⟨d, []⟩).2.db

/-- The first action of the trace that the traversal meets and that matches. -/
def firstMatch (db : SqlDatabase) (tc : TransactionTrace) : Option Action :=
  (visited db.mActionFilterOn tc.actionTraces).find? fun a => a.name.str ∈ db.mActionFilterOn

/-- Whether the JSON of the payload, decoded in `d`, is a `system_contract_arg`. -/
def Converts (L : ChainLib) (d : Db) (action : Action) : Prop :=
  ∃ dataJson, contractArg L (payload L (d.abiOf action.account.str) action) = .ok dataJson

theorem consumed_eq : consumed L db tc d =
    ((each (db.add L) (traceArgs db.mActionFilterOn tc)).run ⟨d, []⟩).2.db := by
  rw [consumed, consumeTransactionTrace_eq (answers_dbAdd L db)]
  rfl

theorem run_each_of_not_mem {as : List AddArgs}
    (h : ∀ a ∈ as, a.action.name.str ∉ db.mActionFilterOn) (w : World Exn Db) :
    (each (db.add L) as).run w = (.ok (), w) := by
  induction as with
  | nil => rfl
  | cons a as ih =>
    have ha : (db.add L a).run w = (.ok false, w) :=
      ActionsTable.run_add_of_not_mem (h a List.mem_cons_self) w
    rw [each, Sql.run_bind_ok ha, ih fun b hb => h b (List.mem_cons_of_mem a hb)]

theorem consumed_of_firstMatch_none (h : firstMatch db tc = none) : consumed L db tc d = d := by
  rw [consumed_eq, run_each_of_not_mem]
  intro a ha
  obtain ⟨act, hact, rfl⟩ := List.mem_map.mp ha
  simpa using List.find?_eq_none.mp h act hact

/-- The actions before the first that matches do nothing. -/
theorem consumed_of_firstMatch {action : Action} (h : firstMatch db tc = some action) :
    action.name.str ∈ db.mActionFilterOn ∧
    ∃ post, consumed L db tc d =
      ((each (db.add L) (⟨action, tc.id, tc.blockTime⟩ :: post)).run ⟨d, []⟩).2.db := by
  obtain ⟨hmem, pre, post, hsplit, hpre⟩ := List.find?_eq_some_iff_append.mp h
  refine ⟨of_decide_eq_true hmem, post.map (⟨·, tc.id, tc.blockTime⟩), ?_⟩
  rw [consumed_eq, traceArgs, hsplit, List.map_append, Sql.run_each_append, run_each_of_not_mem]
  · rfl
  · intro a ha
    obtain ⟨act, hact, rfl⟩ := List.mem_map.mp ha
    simpa using hpre act hact

/-- If the first payload does not convert, consuming ends there. -/
theorem consumed_of_not_converts {action : Action} (h : firstMatch db tc = some action)
    (hc : ¬ Converts L d action) : consumed L db tc d = afterData L action d := by
  obtain ⟨hf, post, hpost⟩ := consumed_of_firstMatch (L := L) (d := d) h
  have hadd := ActionsTable.run_add_of_mem (L := L) (a := ⟨action, tc.id, tc.blockTime⟩) hf d
  rcases he : contractArg L (payload L (d.abiOf action.account.str) action) with e | dataJson
  · simp only [he] at hadd
    have hadd : (db.add L ⟨action, tc.id, tc.blockTime⟩).run ⟨d, []⟩ = _ := hadd
    rw [hpost, each, Sql.run_bind_error hadd]
  · exact absurd ⟨dataJson, he⟩ hc

/-- If it converts, a row is inserted. -/
theorem consumed_of_converts {action : Action} (h : firstMatch db tc = some action)
    (hc : Converts L d action) : d.actions.length < (consumed L db tc d).actions.length := by
  obtain ⟨dataJson, he⟩ := hc
  obtain ⟨hf, post, hpost⟩ := consumed_of_firstMatch (L := L) (d := d) h
  let a : AddArgs := ⟨action, tc.id, tc.blockTime⟩
  have hadd := ActionsTable.run_add_of_mem (L := L) (a := a) hf d
  simp only [a, he] at hadd
  have hadd : (db.add L a).run ⟨d, []⟩ = _ := hadd
  rw [hpost, each, Sql.run_bind_ok hadd]
  have hrest : Within (Appends fun _ => True) (each (db.add L) post) := .each fun b _ =>
    (ActionsTable.add_appends L db.mActionFilterOn b).mono fun _ _ h => ⟨h.choose, h.choose_spec.1, by simp⟩
  obtain ⟨rows, hrows, -⟩ := hrest ⟨ActionsTable.afterAdd L a dataJson d, []⟩
  rw [hrows, ActionsTable.afterAdd_actions, List.length_append, List.length_append, List.length_singleton]
  omega

/-- Consuming a trace a second time leaves the contents of the tables as
they are if and only if no action it meets matches, or the first that does
has a payload that does not convert. -/
theorem redelivery_iff (L : ChainLib) (db : SqlDatabase) (tc : TransactionTrace) (d : Db) :
    (consumed L db tc d).SameContents (consumed L db tc (consumed L db tc d)) ↔
      ∀ action, firstMatch db tc = some action → ¬ Converts L (consumed L db tc d) action := by
  constructor
  · intro h action ha hc
    have hlt := consumed_of_converts ha hc
    exact absurd h.actions.length_eq (by omega)
  · intro h
    rcases hm : firstMatch db tc with _ | action
    · rw [consumed_of_firstMatch_none hm, consumed_of_firstMatch_none hm]
      exact .refl d
    · have hnot := h action hm
      rw [consumed_of_not_converts hm hnot, afterData]
      rcases hs : setabiOf L action with _ | s
      · exact .refl _
      · -- the abi was stored the first time as well, and that payload did not convert either
        have hfirst : ¬ Converts L d action := by
          rintro ⟨dataJson, hd⟩
          refine hnot ⟨dataJson, ?_⟩
          rw [ActionsTable.payload_setabiOf hs] at hd ⊢
          exact hd
        rw [consumed_of_not_converts hm hfirst, afterData, hs]
        exact Db.upsertAbi_upsertAbi s.1 s.2 d

/-- An issue delivered twice is there twice. -/
theorem redelivery_duplicates :
    ¬ (consumed .sample tokenPlugin.db issueTrace {}).SameContents
      (consumed .sample tokenPlugin.db issueTrace (consumed .sample tokenPlugin.db issueTrace {})) := by
  intro h
  have hlen := h.actions.length_eq
  have h₁ : (consumed .sample tokenPlugin.db issueTrace {}).actions.length = 1 := rfl
  have h₂ : (consumed .sample tokenPlugin.db issueTrace
    (consumed .sample tokenPlugin.db issueTrace {})).actions.length = 2 := rfl
  omega

end SqlDb
