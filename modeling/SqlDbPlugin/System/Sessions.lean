import SqlDbPlugin.Consumer.Shutdown
import SqlDbPlugin.Mirror.Resync
import SqlDbPlugin.System.Options

/-!
# Sessions

The plugin starts up, runs as a node, and is destroyed, again and again on
the same database. `Sessions` is what the sessions leave when they end
anywhere in their runs, which may be between two statements of a trace. They
leave what the same start-ups would with the signals mirrored one after the
other, except that each session may have come to some of its signals only
(`sessions_thinned`): to the first few, as long as no append runs out of
memory, and to the first few statements for the next one. If the workers are
where they should be when the destructor stops them, each session has
mirrored everything it was to (`sessions_complete`).
-/

namespace SqlDb

open Consumer (State Act CloseOk)

variable {L : ChainLib} {my : SqlDbPluginImpl} {d₀ : Db}

/-! ## The end of a session -/

/-- Once the destructor runs, no push is under way, and nothing is appended any more. -/
structure StopInv (s : State Unit Signal) : Prop where
  idle : s.closer ≠ .setExit → s.call () = none
  before : s.closer ≠ .setExit → s.beforeExit .traces = (s.chan .traces).appended

theorem appended_of_chanStep {s : State Unit Signal} {q : Consumer.Chan} {c : Consumer.Channel Unit Signal}
    (h : Consumer.ChanStep s q c) (hc : s.call () = none) : c.appended = (s.chan q).appended := by
  cases h with
  | append p d hcall => cases hc.symm.trans hcall
  | wake => unfold Consumer.Channel.wake; split <;> rfl
  | work o hw => exact Consumer.work_appended hw
  | _ => rfl

/-- Where no push is under way or begins, there is none behind the step either, and no append. -/
theorem step_idle {queueSize : Nat} {a : Act Unit Signal} {s s' : State Unit Signal}
    (h : Consumer.step queueSize a s = some s') (hc : s.call () = none) (ha : ∀ q e, a ≠ .push () q e) :
    s'.call () = none ∧ (s'.chan .traces).appended = (s.chan .traces).appended := by
  constructor
  · cases a with
    | push p q e => exact absurd rfl (ha q e)
    | produce p o =>
      obtain ⟨c, hcall, -⟩ := Option.bind_eq_some_iff.mp h
      cases hc.symm.trans hcall
    | work q o =>
      obtain ⟨-, -, -, hcall, -⟩ := Consumer.workStep_eq_some h
      rw [hcall, hc]
    | spurious q =>
      obtain ⟨-, rfl⟩ := Consumer.spurious_eq_some h
      exact hc
    | close => rw [(Consumer.closeStep_chan h .traces).1, hc]
  · exact appended_of_chanStep (Consumer.step_chan h .traces) hc

theorem stopInv_step {a : NodeAct} {n n' : Node} (hI : StopInv n.consumer) (h : Node.step L my a n = some n') :
    StopInv n'.consumer := by
  cases a with
  | emit s =>
    have hclose : n'.consumer.closer = .setExit := by
      simp only [Node.step] at h
      split at h
      · rename_i hidle
        split at h
        · obtain ⟨c, hc, rfl⟩ := Node.within_eq_some h
          obtain ⟨-, rfl⟩ := Consumer.push_eq_some hc
          exact hidle.2
        · cases h
          exact hidle.2
      · cases h
    exact ⟨fun hne => absurd hclose hne, fun hne => absurd hclose hne⟩
  | act a =>
    have hpush : ∀ q e, a ≠ .push () q e := by
      rintro q e rfl
      cases h
    obtain ⟨-, ⟨-, -, hkept⟩ | ⟨-, hs⟩⟩ := Node.act_cases h
    · rwa [hkept]
    obtain ⟨-, hbefore, hcloser⟩ | ⟨rfl, hclose⟩ := Consumer.step_exit hs
    · -- another thread
      constructor <;> intro hne <;> rw [hcloser] at hne
      · exact (step_idle hs (hI.idle hne) hpush).1
      · rw [hbefore, hI.before hne, (step_idle hs (hI.idle hne) hpush).2]
    · have hidle : n.consumer.call () = none := by
        simp only [Node.step] at h
        split at h
        · rename_i hidle
          exact Option.isNone_iff_eq_none.mp hidle
        · cases h
      have hkept := step_idle hs hidle hpush
      refine ⟨fun _ => hkept.1, fun _ => ?_⟩
      rw [hkept.2]
      obtain ⟨-, hn⟩ | ⟨hc, hn⟩ | ⟨hc, -, hn⟩ := Consumer.closeStep_cases hclose <;> rw [hn]
      · exact hI.before (by rw [hc]; decide)
      · exact hI.before (by rw [hc]; decide)

theorem stopInv {n : Node} (h : (node L my d₀).Reachable n) : StopInv n.consumer :=
  h.inv (I := fun n => StopInv n.consumer) ⟨fun h => absurd rfl h, fun h => absurd rfl h⟩
    fun _ _ _ hI _ hs => stopInv_step hI hs

/-- No append runs out of memory, and the destructor finds the workers where
it should (`CloseOk`). -/
def Orderly : NodeAct → Node → Prop
  | .act a, n => InMemory (.act a) n ∧ CloseOk a n.consumer
  | .emit _, _ => True

instance : ∀ (a : NodeAct) (n : Node), Decidable (Orderly a n)
  | .act a, n => inferInstanceAs (Decidable (InMemory (.act a) n ∧ CloseOk a n.consumer))
  | .emit _, _ => .isTrue trivial

theorem Orderly.inMemory {a : NodeAct} {n : Node} (h : Orderly a n) : InMemory a n := by
  cases a with
  | emit s => trivial
  | act a => exact h.1

/-- The destructor has returned. -/
def Destroyed (n : Node) : Prop := n.consumer.closer = .returned

/-- Then nothing waits. -/
theorem waiting_of_destroyed {n : Node} (h : (node L my d₀).Reach Orderly n) (hd : Destroyed n) :
    waitingIn n.consumer = [] := by
  have hrefines : (node L my d₀).Refines Orderly (Consumer.consumer Unit Signal my.queueSize.toNat) CloseOk
      Node.consumer (asConsumer L my) := by
    refine consumer_refined d₀ fun a n b ha hb => ?_
    unfold asConsumer at hb
    split at hb
    · split at hb <;> cases hb
      trivial
    · split at hb <;> cases hb
      exact ha.2
    · cases hb
      exact ha.2
  have hcons := hrefines.reach h
  have hne : n.consumer.closer ≠ .setExit := by
    rw [hd]
    decide
  have hstop := stopInv (h.mono fun _ _ _ => trivial)
  have hjoin := Consumer.joinInv hcons
  have hfifo := Consumer.fifoInv hcons .traces
  have hdone : (n.consumer.chan .traces).worker = .done := hjoin.joined hd .traces
  have hempty : (n.consumer.chan .traces).processQueue = [] := hfifo.idle (by rw [hdone]; rfl)
  have hqueue : (n.consumer.chan .traces).queue = [] := by
    have htaken := (hjoin.drain .traces).drain (hjoin.exit hne)
    rw [hdone, hstop.before hne] at htaken
    have hlength := (htaken.resolve_left (by decide)).length_le
    rw [← hfifo.fifo, List.length_append] at hlength
    exact List.length_eq_zero_iff.mp (by omega)
  rw [waitingIn, hqueue, hstop.idle hne]
  simp [Consumer.Channel.unconsumed, hdone, hempty, inFlight]

/-! ## Sessions one after the other -/

/-- The start-up of a run, on the database `d`. -/
def PluginRun.started (L : ChainLib) (r : PluginRun) (d : Db) :
    Except Exn (Option SqlDbPluginImpl) × World Exn Db :=
  (pluginInitialize L r.amount r.options).run ⟨d, r.faults⟩

/-- The database that sessions leave, where `r` has the signals that the node
of its session emitted. `ok` is a condition on the steps of the nodes, and
`ended` one on where they end. -/
inductive Sessions (L : ChainLib) (ok : NodeAct → Node → Prop) (ended : Node → Prop) : List PluginRun → Db → Prop
  | none : Sessions L ok ended [] {}
  /-- The start-up throws, or the plugin is disabled. -/
  | off {rs : List PluginRun} {d : Db} (r : PluginRun) (h : Sessions L ok ended rs d)
      (hoff : ∀ my, (r.started L d).1 ≠ .ok (some my)) : Sessions L ok ended (rs ++ [r]) (r.started L d).2.db
  | next {rs : List PluginRun} {d : Db} (r : PluginRun) {my : SqlDbPluginImpl} {n : Node}
      (h : Sessions L ok ended rs d) (hmy : (r.started L d).1 = .ok (some my))
      (hn : (node L my (r.started L d).2.db).Reach ok n) (hended : ended n) (hr : r.signals = n.emitted) :
      Sessions L ok ended (rs ++ [r]) n.db

/-- The database that the runs leave, one after the other. -/
def afterAll (L : ChainLib) (rs : List PluginRun) : Db := rs.foldl (fun d r => r.after L d) {}

/-- How far a session has come: the signals it has mirrored, those that wait,
and how many statements for the first accepted one of these are executed. -/
structure Progress where
  mirrored : List Signal
  waiting : List Signal := []
  executed : Nat := 0

/-- The database that a run leaves which has come so far. -/
def PluginRun.upTo (L : ChainLib) (r : PluginRun) (p : Progress) (d : Db) : Db :=
  match (r.started L d).1 with
  | .ok (some my) =>
    consumeFirst L my p.executed (mirror L my (r.started L d).2.db p.mirrored) (accepted my p.waiting)
  | _ => (r.started L d).2.db

/-- The database that runs leave which have come so far, one after the other. -/
def reached (L : ChainLib) (ps : List (PluginRun × Progress)) : Db := ps.foldl (fun d p => p.1.upTo L p.2 d) {}

variable {ok : NodeAct → Node → Prop} {ended : Node → Prop} {rs : List PluginRun} {d : Db}

theorem reached_concat (ps : List (PluginRun × Progress)) (r : PluginRun) (p : Progress) :
    reached L (ps ++ [(r, p)]) = r.upTo L p (reached L ps) := by
  rw [reached, List.foldl_append]
  rfl

/-- If the node of a session has come as far as `R` allows, then so have the sessions. -/
theorem sessions_reached {R : List Signal → Progress → Prop} (hR : ∀ signals, ∃ p, R signals p)
    (hn : ∀ {my d n}, (node L my d).Reach ok n → ended n → ∃ p, R n.emitted p ∧
      n.db = consumeFirst L my p.executed (mirror L my d p.mirrored) (accepted my p.waiting))
    (h : Sessions L ok ended rs d) :
    ∃ ps : List (PluginRun × Progress), ps.map Prod.fst = rs ∧ (∀ p ∈ ps, R p.1.signals p.2) ∧ d = reached L ps := by
  have hconcat {ps : List (PluginRun × Progress)} {r : PluginRun} {p : Progress}
      (hps : ∀ p' ∈ ps, R p'.1.signals p'.2) (hp : R r.signals p) :
      ∀ p' ∈ ps ++ [(r, p)], R p'.1.signals p'.2 := by
    intro p' h
    obtain h | h := List.mem_append.mp h
    · exact hps p' h
    · rw [List.mem_singleton.mp h]
      exact hp
  induction h with
  | none => exact ⟨[], rfl, fun p h => absurd h List.not_mem_nil, rfl⟩
  | @off rs d r h hoff ih =>
    obtain ⟨ps, rfl, hps, rfl⟩ := ih
    obtain ⟨p, hp⟩ := hR r.signals
    refine ⟨ps ++ [(r, p)], List.map_append, hconcat hps hp, ?_⟩
    rw [reached_concat, PluginRun.upTo]
    split
    · rename_i my hmy
      exact absurd hmy (hoff my)
    · rfl
  | @next rs d r my n h hmy hreach hended hr ih =>
    obtain ⟨ps, rfl, hps, rfl⟩ := ih
    obtain ⟨p, hp, hdb⟩ := hn hreach hended
    refine ⟨ps ++ [(r, p)], List.map_append, hconcat hps (hr ▸ hp), ?_⟩
    rw [reached_concat, PluginRun.upTo, hdb]
    split
    · rename_i my' hmy'
      cases hmy.symm.trans hmy'
      rfl
    · rename_i hno
      exact absurd hmy (hno my)

theorem accepted_of_sublist {xs signals : List Signal} (h : xs.Sublist (accepted my signals)) :
    accepted my xs = xs :=
  List.filter_eq_self.mpr fun _ hs => (List.mem_filter.mp (h.subset hs)).2

/-- Sessions that end anywhere leave what mirroring some of their signals
would, in their order and none of them twice, and of each session the first
few statements for one more; and if there was memory, the signals mirrored
are the first of each, and the one more is the next accepted one. -/
theorem sessions_thinned (h : Sessions L ok ended rs d) :
    (∃ ps : List (PluginRun × Progress), ps.map Prod.fst = rs ∧
      (∀ p ∈ ps, (p.2.mirrored ++ p.2.waiting).Sublist p.1.signals) ∧ d = reached L ps) ∧
    ((∀ a n, ok a n → InMemory a n) → ∃ ps : List (PluginRun × Progress), ps.map Prod.fst = rs ∧
      (∀ p ∈ ps, p.1.signals = p.2.mirrored ++ p.2.waiting) ∧ d = reached L ps) := by
  constructor
  · refine sessions_reached (R := fun signals p => (p.mirrored ++ p.waiting).Sublist signals)
      (fun signals => ⟨⟨signals, [], 0⟩, by simp⟩) (fun {my d n} hn _ => ?_) h
    obtain ⟨hsub, ⟨k, hk⟩, -⟩ := node_thinned (hn.mono fun _ _ _ => trivial)
    refine ⟨⟨(n.consumer.chan .traces).finished, waitingIn n.consumer, k⟩, hsub.trans List.filter_sublist, ?_⟩
    show n.db = consumeFirst L my k (mirror L my d _) _
    rw [mirror, accepted_of_sublist ((List.sublist_append_left _ _).trans hsub),
      accepted_of_sublist ((List.sublist_append_right _ _).trans hsub)]
    exact hk
  · refine fun hok => sessions_reached (R := fun signals p => signals = p.mirrored ++ p.waiting)
      (fun signals => ⟨⟨signals, [], 0⟩, (List.append_nil signals).symm⟩) (fun {my d n} hn _ => ?_) h
    obtain ⟨done, rest, hem, -, ⟨k, hk⟩, -⟩ := lagging_db (hn.mono hok)
    exact ⟨⟨done, rest, k⟩, hem, hk⟩

/-- A start-up without a uri, and one of a plugin that records issues and transfers. -/
def disabledRun : PluginRun := { amount := 0, options := { uri := some "" } }

def tokenRun : PluginRun := { amount := 0, options := tokenOptions }

/-- The first one, and then a node of the second. -/
def tokenSessions (n : Node) : List PluginRun := [disabledRun, { tokenRun with signals := n.emitted }]

theorem sessions_token {n : Node} (hn : (node .sample tokenPlugin (tokenRun.started .sample {}).2.db).Reach ok n)
    (hended : ended n) : Sessions .sample ok ended (tokenSessions n) n.db := by
  have hoff : Sessions .sample ok ended [disabledRun] {} := .off disabledRun .none fun my h => by cases h
  exact .next { tokenRun with signals := n.emitted } hoff rfl hn hended rfl

/-- Two issues are emitted in the second of two sessions, and it ends when
the row of the second one is there and its call has statements left. -/
theorem sessions_thinned_issue : ∃ rs d, Sessions .sample InMemory (fun n => ¬ n.Resting) rs d ∧
    (rs.map (·.signals.length) = [0, 2] ∧ d.actions.length = 2) ∧
    ∃ ps : List (PluginRun × Progress), ps.map Prod.fst = rs ∧
      (∀ p ∈ ps, p.1.signals = p.2.mirrored ++ p.2.waiting) ∧ d = reached .sample ps := by
  obtain ⟨n, hn, hp⟩ := Machine.reach_of_run
    (M := node .sample tokenPlugin (tokenRun.started .sample {}).2.db) InMemory
    (p := fun n => (n.emitted.length == 2 && n.db.actions.length == 2) && !decide n.Resting)
    (emitAndPush ++ emitAndPush ++ workTraces 18) (by decide +kernel)
  simp only [Bool.and_eq_true, beq_iff_eq, Bool.not_eq_true', decide_eq_false_iff_not] at hp
  obtain ⟨⟨hlength, hrows⟩, hended⟩ := hp
  have hs : Sessions .sample InMemory (fun n => ¬ n.Resting) (tokenSessions n) n.db := sessions_token hn hended
  refine ⟨_, _, hs, ⟨?_, hrows⟩, (sessions_thinned hs).2 fun _ _ => id⟩
  rw [tokenSessions, List.map_cons, List.map_singleton, hlength]
  rfl

/-- What has come to its end has come to where the run would. -/
theorem reached_eq {ps : List (PluginRun × Progress)}
    (h : ∀ p ∈ ps, p.2.mirrored = p.1.signals ∧ p.2.waiting = []) : reached L ps = afterAll L (ps.map Prod.fst) := by
  rw [reached, afterAll, List.foldl_map]
  refine List.foldl_ext _ _ _ fun d p hp => ?_
  obtain ⟨hmirrored, hwaiting⟩ := h p hp
  rw [PluginRun.upTo, hmirrored, hwaiting]
  rfl

/-- Sessions whose destructors find the workers where they should leave what
mirroring all their signals would, if there was memory. -/
theorem sessions_complete (h : Sessions L Orderly Destroyed rs d) : d = afterAll L rs := by
  obtain ⟨ps, rfl, hps, rfl⟩ := sessions_reached
    (R := fun signals p => p.mirrored = signals ∧ p.waiting = []) (fun signals => ⟨⟨signals, [], 0⟩, rfl, rfl⟩)
    (fun {my d n} hn hd => by
      obtain ⟨-, -, -, -, -, -, hall⟩ := node_lags (hn.mono fun _ _ => Orderly.inMemory)
      exact ⟨⟨n.emitted, [], 0⟩, ⟨rfl, rfl⟩, hall (waiting_of_destroyed hn hd)⟩) h
  exact reached_eq hps

/-- An issue is emitted, the worker takes it along, and the destructor waits for both workers. -/
def issueSession : List NodeAct :=
  workTraces 5 ++ emitAndPush ++ [.act (.work .blocks .returns), .act .close, .act .close] ++ workTraces 16 ++
    List.replicate 10 (.act (.work .blocks .returns)) ++ [.act .close]

/-- The issue is recorded. -/
theorem sessions_complete_issue : ∃ rs d, Sessions .sample Orderly Destroyed rs d ∧
    (rs.map (·.signals.length) = [0, 1] ∧ d.actions.length = 1) ∧ d = afterAll .sample rs := by
  obtain ⟨n, hn, hp⟩ := Machine.reach_of_run
    (M := node .sample tokenPlugin (tokenRun.started .sample {}).2.db) Orderly
    (p := fun n => n.consumer.closer == .returned && (n.emitted.length == 1 && n.db.actions.length == 1))
    issueSession (by decide +kernel)
  simp only [Bool.and_eq_true, beq_iff_eq] at hp
  obtain ⟨hd, hlength, hrow⟩ := hp
  have hs : Sessions .sample Orderly Destroyed (tokenSessions n) n.db := sessions_token hn hd
  refine ⟨_, _, hs, ⟨?_, hrow⟩, sessions_complete hs⟩
  rw [tokenSessions, List.map_cons, List.map_singleton, hlength]
  rfl

end SqlDb
