import SqlDbPlugin.Mirror.Recorded

/-!
# Adding names to the filter

The traversal does not go on below an action for which `add` returns true,
that is, below a recorded one, so a wider filter is not one under which more
is recorded. `wider_filter` says what becomes of a
trace: each action recorded before is still recorded or is now below one
that is, and what is newly recorded has a name that is new.
-/

namespace SqlDb

open ActionTrace (nodeAt Matches Enters Reaches)

variable {filter filter' : List String} {ts : List ActionTrace} {p q : Position} {t : ActionTrace}

/-- With a narrower filter the traversal enters more. -/
theorem reaches_narrower (hsub : ∀ n ∈ filter, n ∈ filter') (h : Reaches filter' ts p) :
    Reaches filter ts p := by
  intro q t hq hne ht
  have henter : t.Enters filter' := h q t hq hne ht
  exact ⟨henter.1, fun hn => henter.2 (hsub _ hn)⟩

/-- A node that matches the wider filter, above one that the traversal
reaches with the narrower: it is recorded with the wider, or one above it is. -/
theorem exists_recorded (hp : Reaches filter ts p) (hq : q <+: p) (ht : nodeAt ts q = some t)
    (hm : t.Matches filter') : ∃ q' ∈ recordedPositions filter' ts, q' <+: q := by
  -- on the length of `q`: the step is to an ancestor that matches
  induction hn : q.length using Nat.strongRecOn generalizing q t with
  | _ n ih =>
    by_cases hR : Reaches filter' ts q
    · exact ⟨q, mem_recordedPositions.mpr ⟨t, ht, hm, hR⟩, List.prefix_rfl⟩
    · simp only [Reaches, not_forall] at hR
      obtain ⟨q₁, t₁, hq₁, hne, ht₁, hnot⟩ := hR
      have hlt : q₁.length < q.length :=
        Nat.lt_of_le_of_ne hq₁.length_le fun he => hne (hq₁.eq_of_length he)
      have henter : t₁.Enters filter := by
        refine hp q₁ t₁ (hq₁.trans hq) (fun he => ?_) ht₁
        have hle : p.length ≤ q₁.length := Nat.le_of_eq (congrArg List.length he.symm)
        have hqp : q.length ≤ p.length := hq.length_le
        omega
      have hm₁ : t₁.Matches filter' := ⟨henter.1, by_contra fun hn => hnot ⟨henter.1, hn⟩⟩
      obtain ⟨q', hq', hpre⟩ := ih q₁.length (hn ▸ hlt) (hq₁.trans hq) ht₁ hm₁ rfl
      exact ⟨q', hq', hpre.trans hq₁⟩

section

variable (hsub : ∀ n ∈ filter, n ∈ filter')
include hsub

/-- What was recorded is below something that is. -/
theorem covered (hp : p ∈ recordedPositions filter ts) : ∃ q ∈ recordedPositions filter' ts, q <+: p := by
  obtain ⟨t, ht, hm, hR⟩ := mem_recordedPositions.mp hp
  exact exists_recorded hR List.prefix_rfl ht ⟨hm.1, hsub _ hm.2⟩

/-- It is still recorded unless something above it is. -/
theorem recorded_wider_iff (hp : p ∈ recordedPositions filter ts) :
    p ∈ recordedPositions filter' ts ↔ ∀ q ∈ recordedPositions filter' ts, q <+: p → q = p := by
  constructor
  · intro hp' q hq hpre
    exact eq_of_prefix_recorded hq hp' hpre
  · intro h
    obtain ⟨q, hq, hpre⟩ := covered hsub hp
    exact h q hq hpre ▸ hq

/-- What is recorded with a name that was in the filter was recorded before. -/
theorem recorded_narrower (hp : p ∈ recordedPositions filter' ts) (ht : nodeAt ts p = some t)
    (hn : t.act.name.str ∈ filter) : p ∈ recordedPositions filter ts := by
  obtain ⟨t', ht', hm, hR⟩ := mem_recordedPositions.mp hp
  cases ht.symm.trans ht'
  exact mem_recordedPositions.mpr ⟨t, ht, ⟨hm.1, hn⟩, reaches_narrower hsub hR⟩

end

/-! ## Consuming a trace -/

variable {L : ChainLib} {db db' : SqlDatabase} {tc : TransactionTrace} {w₁ w₁' w₂ w₂' : World Exn Db}

/-- When consuming a trace returns, the calls of `add` that return true are those at the positions recorded. -/
theorem recorded_calls (h : (SqlDatabase.consumeTransactionTrace (db.add L) tc).run w₁ = (.ok (), w₁')) :
    ((traceCalls (db.add L) tc w₁).filter isSuccess).map (fun c => some c.arg) =
      (recordedPositions db.mActionFilterOn tc.actionTraces).map fun p =>
        (nodeAt tc.actionTraces p).map fun t => ⟨t.act, tc.id, tc.blockTime⟩ := by
  have ha := answers_dbAdd L db
  rw [consumeTransactionTrace_eq ha] at h
  obtain ⟨⟨⟩, w, hs, hrun⟩ := Sql.run_bind_eq_ok h
  rw [traceCalls_eq ha hs]
  exact recorded_trail hrun

/-- A trace is consumed with a filter and with a wider one, in any two
databases, and both return. Then what is recorded (`add` returns true) with
the first filter is recorded with the second or below something that is, and
the former just if nothing above it is; and what is recorded with the second
under a name of the first is recorded with the first. -/
theorem wider_filter (hsub : ∀ n ∈ db.mActionFilterOn, n ∈ db'.mActionFilterOn)
    (h : (SqlDatabase.consumeTransactionTrace (db.add L) tc).run w₁ = (.ok (), w₁'))
    (h' : (SqlDatabase.consumeTransactionTrace (db'.add L) tc).run w₂ = (.ok (), w₂')) :
    ∃ ps ps' : List Position,
      ((traceCalls (db.add L) tc w₁).filter isSuccess).map (fun c => some c.arg) =
        (ps.map fun p => (nodeAt tc.actionTraces p).map fun t => ⟨t.act, tc.id, tc.blockTime⟩) ∧
      ((traceCalls (db'.add L) tc w₂).filter isSuccess).map (fun c => some c.arg) =
        (ps'.map fun p => (nodeAt tc.actionTraces p).map fun t => ⟨t.act, tc.id, tc.blockTime⟩) ∧
      (∀ p ∈ ps, ∃ q ∈ ps', q <+: p) ∧
      (∀ p ∈ ps, p ∈ ps' ↔ ∀ q ∈ ps', q <+: p → q = p) ∧
      ∀ p ∈ ps', ∀ t, nodeAt tc.actionTraces p = some t → t.act.name.str ∈ db.mActionFilterOn → p ∈ ps :=
  ⟨recordedPositions db.mActionFilterOn tc.actionTraces, recordedPositions db'.mActionFilterOn tc.actionTraces,
    recorded_calls h, recorded_calls h', fun _ => covered hsub, fun _ => recorded_wider_iff hsub,
    fun _ hp _ ht => recorded_narrower hsub hp ht⟩

/-- A plugin that records transfers alone. -/
def transferDatabase : SqlDatabase := { tokenPlugin.db with mActionFilterOn := ["transfer"] }

/-- With `issue` added to the filter, `add` returns true for an issue in place of the transfer below it. -/
theorem wider_filter_issue :
    ((traceCalls (transferDatabase.add .sample) issueTrace ⟨{}, []⟩).filter isSuccess).map
        (fun c => c.arg.action.name) = [transfer] ∧
    ((traceCalls (tokenPlugin.db.add .sample) issueTrace ⟨{}, []⟩).filter isSuccess).map
        (fun c => c.arg.action.name) = [issue] ∧
    ∃ ps ps' : List Position,
      ((traceCalls (transferDatabase.add .sample) issueTrace ⟨{}, []⟩).filter isSuccess).map
          (fun c => some c.arg) =
        (ps.map fun p => (nodeAt issueTrace.actionTraces p).map fun t =>
          ⟨t.act, issueTrace.id, issueTrace.blockTime⟩) ∧
      ((traceCalls (tokenPlugin.db.add .sample) issueTrace ⟨{}, []⟩).filter isSuccess).map
          (fun c => some c.arg) =
        (ps'.map fun p => (nodeAt issueTrace.actionTraces p).map fun t =>
          ⟨t.act, issueTrace.id, issueTrace.blockTime⟩) ∧
      (∀ p ∈ ps, ∃ q ∈ ps', q <+: p) ∧
      (∀ p ∈ ps, p ∈ ps' ↔ ∀ q ∈ ps', q <+: p → q = p) ∧
      ∀ p ∈ ps', ∀ t, nodeAt issueTrace.actionTraces p = some t →
        t.act.name.str ∈ transferDatabase.mActionFilterOn → p ∈ ps :=
  ⟨by decide +kernel, by decide +kernel, wider_filter (by decide) rfl rfl⟩

end SqlDb
