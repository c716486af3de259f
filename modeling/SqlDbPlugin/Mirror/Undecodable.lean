import SqlDbPlugin.Database.Effects
import SqlDbPlugin.Mirror.Recorded

/-!
# Payloads that do not convert

`add` converts the payload's JSON outside its handlers, so a payload that is
no `system_contract_arg` ends the traversal of the whole trace or block.
What the others of the trace or block are worth without the bad action they
are worth with it only if none of the later ones would have been recorded
anyway: `undecodable_costs_iff`, whose condition (`NextFails`) is that the
next action that matches cannot be recorded either, or that there is none.
-/

namespace SqlDb

open Sql (each trail)
open ActionTrace (nodeAt Matches Enters Reaches visited visited_cons visited_append map_visit
  reaches_cons)
open ActionsTable (AddArgs addData contractArg)
open SqlDatabase

/-! ## A trace without one of its nodes -/

namespace ActionTrace

/-- The forest without the node at a position and what is below it. -/
def eraseAt : List ActionTrace → Position → List ActionTrace
  | ts, [] => ts
  | ts, [i] => ts.eraseIdx i
  | ts, i :: j :: p => ts.modify i fun t => ⟨t.receiver, t.act, eraseAt t.inlineTraces (j :: p)⟩

/-- The actions passed to `add` before the node at a position. -/
def before (filter : List String) : List ActionTrace → Position → List Action
  | _, [] => []
  | ts, [i] => visited filter (ts.take i)
  | ts, i :: j :: p =>
    visited filter (ts.take i) ++
      (ts[i]?.elim [] fun t => t.act :: before filter t.inlineTraces (j :: p))

/-- The actions that would be passed to `add` after the node at a position,
if the traversal went on behind it. -/
def after (filter : List String) : List ActionTrace → Position → List Action
  | _, [] => []
  | ts, [i] => visited filter (ts.drop (i + 1))
  | ts, i :: j :: p =>
    (ts[i]?.elim [] fun t => after filter t.inlineTraces (j :: p)) ++ visited filter (ts.drop (i + 1))

variable {filter : List String}

theorem map_visit_of_matches {t : ActionTrace} (h : t.Matches filter) :
    (visit filter t).map Prod.snd = [t.act] := by
  rcases t with ⟨r, act, ts⟩
  obtain ⟨hr, hf⟩ : r = act.account ∧ act.name.str ∈ filter := h
  rw [map_visit, if_pos hr, if_pos hf]
  rfl

theorem map_visit_of_enters {t : ActionTrace} (h : t.Enters filter) :
    (visit filter t).map Prod.snd = t.act :: visited filter t.inlineTraces := by
  rcases t with ⟨r, act, ts⟩
  obtain ⟨hr, hf⟩ : r = act.account ∧ act.name.str ∉ filter := h
  rw [map_visit, if_pos hr, if_neg hf]
  rfl

theorem visited_split {ts : List ActionTrace} {i : Nat} {t : ActionTrace} (h : ts[i]? = some t) :
    visited filter ts = visited filter (ts.take i) ++
      ((visit filter t).map Prod.snd ++ visited filter (ts.drop (i + 1))) := by
  obtain ⟨hi, rfl⟩ := List.getElem?_eq_some_iff.mp h
  rw [← visited_cons, ← visited_append, List.getElem_cons_drop, List.take_append_drop]

/-- The traversal passes a node that matches to `add` between these two lists of actions ... -/
theorem visited_eq {ts : List ActionTrace} {p : Position} {t : ActionTrace}
    (hn : nodeAt ts p = some t) (hm : t.Matches filter) (hR : Reaches filter ts p) :
    visited filter ts = before filter ts p ++ t.act :: after filter ts p := by
  induction p generalizing ts with
  | nil => cases hn
  | cons i p ih =>
    rcases p with _ | ⟨j, p⟩
    · rw [visited_split hn, map_visit_of_matches hm]
      rfl
    · obtain ⟨u, hu, hn⟩ := Option.bind_eq_some_iff.mp hn
      obtain ⟨he, hR⟩ := (reaches_cons hu).mp hR
      rw [visited_split hu, map_visit_of_enters he, ih hn hR, before, after, hu]
      simp

/-- ... and without the node, these two lists are what it passes. -/
theorem visited_eraseAt {ts : List ActionTrace} {p : Position} {t : ActionTrace}
    (hn : nodeAt ts p = some t) (hR : Reaches filter ts p) :
    visited filter (eraseAt ts p) = before filter ts p ++ after filter ts p := by
  induction p generalizing ts with
  | nil => cases hn
  | cons i p ih =>
    rcases p with _ | ⟨j, p⟩
    · rw [eraseAt, List.eraseIdx_eq_take_drop_succ, visited_append]
      rfl
    · obtain ⟨u, hu, hn⟩ := Option.bind_eq_some_iff.mp hn
      obtain ⟨he, hR⟩ := (reaches_cons hu).mp hR
      obtain ⟨hi, rfl⟩ := List.getElem?_eq_some_iff.mp hu
      have hvisit : (visit filter
          ⟨ts[i].receiver, ts[i].act, eraseAt ts[i].inlineTraces (j :: p)⟩).map Prod.snd = _ :=
        map_visit_of_enters he
      rw [eraseAt, List.modify_eq_take_cons_drop hi, visited_append, visited_cons, hvisit,
        before, after, hu]
      show _ ++ (ts[i].act :: visited filter (eraseAt ts[i].inlineTraces (j :: p)) ++ _) = _
      rw [ih hn hR]
      simp

end ActionTrace

/-! ## The calls behind a bad one -/

variable {L : ChainLib} {db : SqlDatabase} {w w₁ : World Exn Db}

/-- The JSON of the payload, decoded in the world `w`, is no `system_contract_arg`. -/
def Undecodable (L : ChainLib) (w : World Exn Db) (action : Action) : Prop :=
  ∃ json w' e, (addData L action).run w = (.ok json, w') ∧ contractArg L json = .error e

/-- What the calls did that returned true: the call and the database before and after it. -/
def effects (calls : List (Sql.Call Exn Db AddArgs Bool)) : List (AddArgs × Db × Db) :=
  (calls.filter isSuccess).map fun c => (c.arg, c.before.db, c.after.db)

/-- The calls of `without` that returned true are among those of `calls`, in
their order and with the same effects. -/
def StillRecorded (without calls : List (Sql.Call Exn Db AddArgs Bool)) : Prop :=
  (effects without).Sublist (effects calls)

/-- The next call that would return true cannot: of the calls with
`args` that follow in the world `w`, the first with a name in the filter has
a payload that does not convert in the world it finds once the sessions up
to its own are obtained. -/
def NextFails (L : ChainLib) (filter : List String) (session : SqlM Unit) (args : List AddArgs)
    (w : World Exn Db) : Prop :=
  ∀ skipped next rest w', args = skipped ++ next :: rest →
    (∀ a ∈ skipped, a.action.name.str ∉ filter) → next.action.name.str ∈ filter →
    (each (fun _ => session) (skipped ++ [next])).run w = (.ok (), w') →
    Undecodable L w' next.action

theorem run_add_of_undecodable {filter : List String} {a : AddArgs}
    (hf : a.action.name.str ∈ filter) (h : Undecodable L w a.action) :
    ∃ e w', (ActionsTable.add L filter a).run w = (.error e, w') := by
  obtain ⟨json, w', e, hdata, hconv⟩ := h
  refine ⟨e, w', ?_⟩
  rw [ActionsTable.add, if_pos hf, Sql.run_bind_ok hdata, hconv]
  rfl

theorem run_add_of_decodable {filter : List String} {a : AddArgs}
    (hf : a.action.name.str ∈ filter) (h : ¬ Undecodable L w a.action) :
    ∃ w', (ActionsTable.add L filter a).run w = (.ok true, w') := by
  obtain ⟨json, w', hdata⟩ := ActionsTable.addData_ok L a.action w
  rcases hconv : contractArg L json with e | dataJson
  · exact absurd ⟨json, w', e, hdata, hconv⟩ h
  · rw [ActionsTable.add, if_pos hf, Sql.run_bind_ok hdata, hconv]
    simp only [Sql.run_bind, Sql.run_lift, Sql.run_guarded, Sql.run_pure]
    exact ⟨_, rfl⟩

section NextFails

variable {filter : List String} {session : SqlM Unit} {b : AddArgs} {bs : List AddArgs}

/-- Without a session nothing can be recorded. -/
theorem nextFails_of_error {e : Exn} (hs : session.run w = (.error e, w₁)) :
    NextFails L filter session (b :: bs) w := by
  intro skipped next rest w' _ _ _ hopen
  have hfail : (each (fun _ => session) (skipped ++ [next])).run w = (.error e, w₁) := by
    rcases skipped with _ | ⟨a, skipped⟩
    · exact Sql.run_bind_error hs
    · exact Sql.run_bind_error hs
  rw [hfail] at hopen
  cases hopen

theorem nextFails_of_mem (hs : session.run w = (.ok (), w₁)) (hb : b.action.name.str ∈ filter) :
    NextFails L filter session (b :: bs) w ↔ Undecodable L w₁ b.action := by
  constructor
  · intro h
    exact h [] b bs w₁ rfl nofun hb (Sql.run_bind_ok hs)
  · intro h skipped next rest w' hsplit hskip _ hopen
    rcases skipped with _ | ⟨a, skipped⟩
    · obtain ⟨rfl, -⟩ := List.cons.inj hsplit
      rw [List.nil_append, each, Sql.run_bind_ok hs] at hopen
      cases hopen
      exact h
    · obtain ⟨rfl, -⟩ := List.cons.inj hsplit
      exact absurd hb (hskip b List.mem_cons_self)

theorem nextFails_of_not_mem (hs : session.run w = (.ok (), w₁)) (hb : b.action.name.str ∉ filter) :
    NextFails L filter session (b :: bs) w ↔ NextFails L filter session bs w₁ := by
  constructor
  · intro h skipped next rest w' hsplit hskip hn hopen
    refine h (b :: skipped) next rest w' (by rw [hsplit]; rfl) ?_ hn ?_
    · exact List.forall_mem_cons.mpr ⟨hb, hskip⟩
    · rw [List.cons_append, each, Sql.run_bind_ok hs, hopen]
  · intro h skipped next rest w' hsplit hskip hn hopen
    rcases skipped with _ | ⟨a, skipped⟩
    · obtain ⟨rfl, -⟩ := List.cons.inj hsplit
      exact absurd hn hb
    · obtain ⟨rfl, htail⟩ := List.cons.inj hsplit
      rw [List.cons_append, each, Sql.run_bind_ok hs] at hopen
      exact h skipped next rest w' htail (fun a ha => hskip a (List.mem_cons_of_mem _ ha)) hn hopen

/-- No action is recorded from here on if and only if the next one that would be cannot. -/
theorem effects_eq_nil_iff {f : AddArgs → SqlM Bool}
    (hf : ∀ a, f a = session >>= fun _ => ActionsTable.add L filter a) (args : List AddArgs)
    (w : World Exn Db) : effects (trail f args w) = [] ↔ NextFails L filter session args w := by
  induction args generalizing w with
  | nil => exact ⟨fun _ skipped next rest _ h => by simp at h, fun _ => rfl⟩
  | cons b bs ih =>
    rcases hs : session.run w with ⟨e | _, w₁⟩
    · have hcall : (f b).run w = (.error e, w₁) := by rw [hf, Sql.run_bind_error hs]
      rw [Sql.trail_cons_error hcall]
      exact ⟨fun _ => nextFails_of_error hs, fun _ => rfl⟩
    · by_cases hb : b.action.name.str ∈ filter
      · rw [nextFails_of_mem hs hb]
        by_cases hu : Undecodable L w₁ b.action
        · obtain ⟨e, w₂, hadd⟩ := run_add_of_undecodable hb hu
          have hcall : (f b).run w = (.error e, w₂) := by rw [hf, Sql.run_bind_ok hs, hadd]
          rw [Sql.trail_cons_error hcall]
          exact ⟨fun _ => hu, fun _ => rfl⟩
        · obtain ⟨w₂, hadd⟩ := run_add_of_decodable hb hu
          have hcall : (f b).run w = (.ok true, w₂) := by rw [hf, Sql.run_bind_ok hs, hadd]
          rw [Sql.trail_cons_ok hcall]
          exact ⟨fun h => absurd h (List.cons_ne_nil _ _), fun h => absurd h hu⟩
      · have hcall : (f b).run w = (.ok false, w₁) := by
          rw [hf, Sql.run_bind_ok hs, ActionsTable.run_add_of_not_mem hb]
        rw [nextFails_of_not_mem hs hb, Sql.trail_cons_ok hcall]
        exact ih w₁

end NextFails

/-- Behind a call that throws, a loop makes no more calls; without it, it goes on. -/
theorem stillRecorded_iff {f : AddArgs → SqlM Bool} {pre post : List AddArgs} {bad : AddArgs} {e : Exn}
    {w₂ : World Exn Db} (hpre : (each f pre).run w = (.ok (), w₁))
    (hbad : (f bad).run w₁ = (.error e, w₂)) :
    StillRecorded (trail f (pre ++ post) w) (trail f (pre ++ bad :: post) w) ↔
      effects (trail f post w₁) = [] := by
  have hwith : effects (trail f (pre ++ bad :: post) w) = effects (trail f pre w) := by
    rw [Sql.trail_append_ok hpre, Sql.trail_cons_error hbad]
    simp [effects, isSuccess]
  have hwithout : effects (trail f (pre ++ post) w) =
      effects (trail f pre w) ++ effects (trail f post w₁) := by
    rw [Sql.trail_append_ok hpre]
    simp [effects]
  rw [StillRecorded, hwith, hwithout]
  constructor
  · intro h
    have hlen := h.length_le
    rw [List.length_append] at hlen
    exact List.eq_nil_of_length_eq_zero (by omega)
  · intro h
    rw [h, List.append_nil]

/-! ## Traces and blocks -/

/-- Consuming the trace in the world `w` gets, in the world `w₁`, to the node
`t` at `p`, which matches and whose payload does not convert. -/
structure TraceMeets (L : ChainLib) (db : SqlDatabase) (tc : TransactionTrace) (w : World Exn Db)
    (p : Position) (t : ActionTrace) (w₁ : World Exn Db) : Prop where
  node : nodeAt tc.actionTraces p = some t
  isMatch : t.Matches db.mActionFilterOn
  reaches : Reaches db.mActionFilterOn tc.actionTraces p
  run : (getSession >>= fun _ => each (db.add L) ((ActionTrace.before db.mActionFilterOn
    tc.actionTraces p).map (⟨·, tc.id, tc.blockTime⟩))).run w = (.ok (), w₁)
  undecodable : Undecodable L w₁ t.act

/-- Consuming the block in the world `w` gets, in the world `w₁`, to the call
for `bad` between those for `pre` and `post`, which obtains its session,
and whose payload matches and does not convert. -/
structure BlockMeets (L : ChainLib) (db : SqlDatabase) (bs : BlockState) (w : World Exn Db)
    (pre : List AddArgs) (bad : AddArgs) (post : List AddArgs) (w₁ w₂ : World Exn Db) : Prop where
  args : blockArgs L bs = pre ++ bad :: post
  isMatch : bad.action.name.str ∈ db.mActionFilterOn
  run : (each (db.addWithSession L) pre).run w = (.ok (), w₁)
  session : getSession.run w₁ = (.ok (), w₂)
  undecodable : Undecodable L w₂ bad.action

/-- The trace without the node at a position. -/
def TransactionTrace.eraseAt (tc : TransactionTrace) (p : Position) : TransactionTrace :=
  { tc with actionTraces := ActionTrace.eraseAt tc.actionTraces p }

theorem TraceMeets.stillRecorded_iff {db : SqlDatabase} {tc : TransactionTrace} {w w₁ : World Exn Db} {p : Position}
    {t : ActionTrace} (h : TraceMeets L db tc w p t w₁) :
    StillRecorded (traceCalls (db.add L) (tc.eraseAt p) w) (traceCalls (db.add L) tc w) ↔
      NextFails L db.mActionFilterOn (pure ())
        ((ActionTrace.after db.mActionFilterOn tc.actionTraces p).map (⟨·, tc.id, tc.blockTime⟩)) w₁ := by
  have ha := answers_dbAdd L db
  obtain ⟨e, w₂, hbad⟩ := run_add_of_undecodable (a := ⟨t.act, tc.id, tc.blockTime⟩) h.isMatch.2 h.undecodable
  have hbad : (db.add L ⟨t.act, tc.id, tc.blockTime⟩).run w₁ = _ := hbad
  obtain ⟨⟨⟩, w₀, hs, hrun⟩ := Sql.run_bind_eq_ok h.run
  have hwith : traceArgs db.mActionFilterOn tc = _ :=
    congrArg (List.map (AddArgs.mk · tc.id tc.blockTime)) (ActionTrace.visited_eq h.node h.isMatch h.reaches)
  have hwithout : traceArgs db.mActionFilterOn (tc.eraseAt p) = _ :=
    congrArg (List.map (AddArgs.mk · tc.id tc.blockTime)) (ActionTrace.visited_eraseAt h.node h.reaches)
  rw [traceCalls_eq ha hs, traceCalls_eq ha hs, hwith, hwithout, List.map_append, List.map_append, List.map_cons,
    SqlDb.stillRecorded_iff hrun hbad]
  have hadd (a : AddArgs) : db.add L a =
    (pure () : SqlM Unit) >>= fun _ => ActionsTable.add L db.mActionFilterOn a := rfl
  exact effects_eq_nil_iff hadd _ _

theorem BlockMeets.stillRecorded_iff {db : SqlDatabase} {bs bs' : BlockState} {w w₁ w₂ : World Exn Db}
    {pre post : List AddArgs} {bad : AddArgs} (h : BlockMeets L db bs w pre bad post w₁ w₂)
    (h' : blockArgs L bs' = pre ++ post) :
    StillRecorded (blockCalls L (db.addWithSession L) bs' w) (blockCalls L (db.addWithSession L) bs w) ↔
      NextFails L db.mActionFilterOn getSession post w₁ := by
  obtain ⟨e, w₃, hadd⟩ := run_add_of_undecodable h.isMatch h.undecodable
  have hbad : (db.addWithSession L bad).run w₁ = (.error e, w₃) := by
    rw [addWithSession, Sql.run_bind_ok h.session]
    exact hadd
  rw [blockCalls_eq, blockCalls_eq, h.args, h', SqlDb.stillRecorded_iff h.run hbad]
  exact effects_eq_nil_iff (fun _ => rfl) _ _

/-- When consuming a trace or a block gets to an action whose payload does
not convert, `add` still returns true for the other actions for which it
does so without it, and with the same effect, if and only if the next action
that matches cannot be recorded either. -/
theorem undecodable_costs_iff (L : ChainLib) (db : SqlDatabase) :
    (∀ tc w p t w₁, TraceMeets L db tc w p t w₁ →
      (StillRecorded (traceCalls (db.add L) (tc.eraseAt p) w) (traceCalls (db.add L) tc w) ↔
        NextFails L db.mActionFilterOn (pure ())
          ((ActionTrace.after db.mActionFilterOn tc.actionTraces p).map (⟨·, tc.id, tc.blockTime⟩)) w₁)) ∧
    (∀ bs w pre bad post w₁ w₂ bs', BlockMeets L db bs w pre bad post w₁ w₂ →
      blockArgs L bs' = pre ++ post →
      (StillRecorded (blockCalls L (db.addWithSession L) bs' w) (blockCalls L (db.addWithSession L) bs w) ↔
        NextFails L db.mActionFilterOn getSession post w₁)) :=
  ⟨fun _ _ _ _ _ h => h.stillRecorded_iff, fun _ _ _ _ _ _ _ _ h h' => h.stillRecorded_iff h'⟩

/-! ## A bad `ping` -/

/-- A plugin that records pings and transfers. -/
def pingDb : SqlDatabase := { mBlockNumStart := 0, mActionFilterOn := ["ping", "transfer"] }

/-- The accounts of the contract of the pings. -/
def pingAccounts : Db := ({} : Db).upsertAbi "pinger" SampleAbi.ping.json

def pingNode : ActionTrace := ⟨pinger, badPing, []⟩

/-- A transaction of a ping and a transfer. -/
def pingTrace : TransactionTrace := { issueTrace with actionTraces := [pingNode, inlinedTransfer] }

theorem undecodable_badPing : Undecodable .sample ⟨pingAccounts, []⟩ badPing :=
  ⟨_, _, .fc, rfl, rfl⟩

/-- The transfer behind the ping is lost. -/
theorem transfer_lost_behind_ping :
    TraceMeets .sample pingDb pingTrace ⟨pingAccounts, []⟩ [0] pingNode ⟨pingAccounts, []⟩ ∧
    ¬ StillRecorded (traceCalls (pingDb.add .sample) (pingTrace.eraseAt [0]) ⟨pingAccounts, []⟩)
      (traceCalls (pingDb.add .sample) pingTrace ⟨pingAccounts, []⟩) := by
  refine ⟨⟨rfl, by decide, ActionTrace.reaches_singleton _ 0, rfl, undecodable_badPing⟩, fun h => ?_⟩
  have hlen := h.length_le
  have hwithout : (effects (traceCalls (pingDb.add .sample) (pingTrace.eraseAt [0])
    ⟨pingAccounts, []⟩)).length = 1 := by decide +kernel
  have hwith : (effects (traceCalls (pingDb.add .sample) pingTrace ⟨pingAccounts, []⟩)).length = 0 := by
    decide +kernel
  omega

/-- A transaction of a transfer and a ping. -/
def pingLastTrace : TransactionTrace := { issueTrace with actionTraces := [inlinedTransfer, pingNode] }

/-- A ping behind which nothing matches costs nothing, in a trace and in a
block: the transfer in front of it is recorded. -/
theorem undecodable_costs_iff_ping :
    StillRecorded
      (traceCalls (pingDb.add .sample) (pingLastTrace.eraseAt [1]) ⟨pingAccounts, []⟩)
      (traceCalls (pingDb.add .sample) pingLastTrace ⟨pingAccounts, []⟩) ∧
    (effects (traceCalls (pingDb.add .sample) pingLastTrace ⟨pingAccounts, []⟩)).map (·.1.action) =
      [inlinedTransfer.act] ∧
    StillRecorded
      (blockCalls .sample (pingDb.addWithSession .sample) ⟨⟨0⟩, [.packed packedTransfer]⟩ ⟨pingAccounts, []⟩)
      (blockCalls .sample (pingDb.addWithSession .sample) ⟨⟨0⟩, [.packed packedTransfer, .packed packedPing]⟩
        ⟨pingAccounts, []⟩) ∧
    (effects (blockCalls .sample (pingDb.addWithSession .sample)
      ⟨⟨0⟩, [.packed packedTransfer, .packed packedPing]⟩ ⟨pingAccounts, []⟩)).map (·.1.action) =
        [inlinedTransfer.act] := by
  have hnone (session : SqlM Unit) (w : World Exn Db) :
      NextFails .sample pingDb.mActionFilterOn session [] w := by
    intro skipped next rest w' h
    simp at h
  obtain ⟨htrace, hblock⟩ := undecodable_costs_iff .sample pingDb
  refine ⟨(htrace _ _ [1] pingNode _ ⟨rfl, by decide, ?_, rfl, ⟨_, _, .fc, rfl, rfl⟩⟩).mpr (hnone _ _), ?_,
    (hblock _ ⟨pingAccounts, []⟩ [⟨inlinedTransfer.act, transferTransaction.id, ⟨0⟩⟩]
      ⟨badPing, pingTransaction.id, ⟨0⟩⟩ [] _ _ _ ⟨rfl, by decide, rfl, rfl, ⟨_, _, .fc, rfl, rfl⟩⟩ rfl).mpr (hnone _ _), ?_⟩
  · exact ActionTrace.reaches_singleton _ 1
  · decide +kernel
  · decide +kernel

end SqlDb
