import SqlDbPlugin.Consumer.Capacity
import SqlDbPlugin.Consumer.Delivery
import SqlDbPlugin.Lib.Refinement
import SqlDbPlugin.Mirror.Recorded
import SqlDbPlugin.System.Replica

/-!
# The node

The plugin in its process. One thread, the chain's, emits
`applied_transaction`: the handler runs in it, and `push_transaction_trace`
to its end, before the next signal. It also destroys the plugin, and
nothing is emitted then. The two workers run beside it, and the worker of the traces
writes the database. `accepted_block` is not connected, so nothing is ever
pushed to the other queue.

`Node` puts the consumer and the database together. In
`consume_transaction_trace` the worker executes one statement after the
other, and the threads may take steps between any two of them: nothing
groups the statements of a trace, so others see what each of them writes.
When none is left the worker comes back from the call, and whether it has
returned or thrown is theirs to say.

Seen through `Node.abs` the node is the replica (`node_refines`): its queue,
the batch of its worker and the call under way are one line of signals that
wait. So whatever the threads do, the database lags behind the signals
(`node_lags`), and if they are scheduled fairly it comes to hold each of
them (`node_follows`).
-/

namespace SqlDb

open Machine SqlDatabase
open Consumer (Chan Channel Outcome State QueueCall Act)

/-- The signals emitted so far, the consumer, the database, and the call of
`consume_transaction_trace` that the worker is in, once it has begun. -/
structure Node where
  emitted : List Signal := []
  consumer : State Unit Signal := {}
  db : Db
  underway : Option Underway := none

/-- The steps: the chain's thread emits a signal, or a thread takes a step in
the consumer. A step of `run_traces` in `consume_transaction_trace` is a statement. -/
inductive NodeAct
  | emit (s : Signal)
  | act (a : Act Unit Signal)

variable (L : ChainLib) (my : SqlDbPluginImpl)

/-- Whether a call returns or throws. -/
def outcomeOf : Except Exn Unit → Outcome
  | .ok _ => .returns
  | .error _ => .throws

namespace Node

/-- A step in the consumer, which leaves the rest alone. -/
def within (n : Node) (a : Act Unit Signal) : Option Node :=
  (Consumer.step my.queueSize.toNat a n.consumer).map fun consumer => { n with consumer }

/-- The call of `consume_transaction_trace` that the worker is in or about to begin. -/
def call (n : Node) : Option Underway :=
  match (n.consumer.chan .traces).worker, (n.consumer.chan .traces).processQueue with
  | .consume, s :: _ => some (n.underway.getD (.ofSignal L my s))
  | _, _ => none

/-- A step of `run_traces`. -/
def work (n : Node) (o : Outcome) : Option Node :=
  match n.call L my with
  | none => n.within my (.work .traces o)
  | some u =>
    match u.rest.result with
    | none => some { n with db := (u.execute n.db).2, underway := some (u.execute n.db).1 }
    | some r =>
      if o = outcomeOf r then
        (n.within my (.work .traces o)).map fun n' => { n' with underway := none }
      else none

/-- The worker is in no call of `consume_transaction_trace`, or has executed nothing there yet. -/
def Resting (n : Node) : Prop := n.underway.isNone = true

instance (n : Node) : Decidable n.Resting := inferInstanceAs (Decidable (_ = _))

/-- The chain's thread is in no handler. -/
def Idle (n : Node) : Prop := (n.consumer.call ()).isNone = true

instance (n : Node) : Decidable n.Idle := inferInstanceAs (Decidable (_ = _))

def step : NodeAct → Node → Option Node
  | .emit s, n =>
    if n.Idle ∧ n.consumer.closer = .setExit then
      let n := { n with emitted := n.emitted ++ [s] }
      if my.onAppliedTransaction s.trace then n.within my (.push () .traces s) else some n
    else none
  | .act a, n =>
    match a with
    -- only the handler of the signal pushes
    | .push .. => none
    | .close => if n.Idle then n.within my .close else none
    | .work .traces o => n.work L my o
    | a => n.within my a

end Node

/-- The node with the plugin `my`, on the database `d₀`. -/
def node (d₀ : Db) : Machine Node NodeAct where
  init := { db := d₀ }
  step := Node.step L my

variable {L my}

/-! ## The steps -/

namespace Node

variable {n n' : Node}

theorem within_eq_some {a : Act Unit Signal} (h : n.within my a = some n') :
    ∃ c, Consumer.step my.queueSize.toNat a n.consumer = some c ∧ n' = { n with consumer := c } := by
  obtain ⟨c, hc, rfl⟩ := Option.map_eq_some_iff.mp h
  exact ⟨c, hc, rfl⟩

/-- What a step of `run_traces` is: one in the consumer outside of
`consume_transaction_trace`, a statement in there, or the way back. -/
theorem work_cases {o : Outcome} (h : n.work L my o = some n') :
    (n.call L my = none ∧ ∃ c, Consumer.workStep .traces o n.consumer = some c ∧ n' = { n with consumer := c }) ∨
    (∃ u, n.call L my = some u ∧ u.rest.result = none ∧
      n' = { n with db := (u.execute n.db).2, underway := some (u.execute n.db).1 }) ∨
    (∃ u r c, n.call L my = some u ∧ u.rest.result = some r ∧ Consumer.workStep .traces o n.consumer = some c ∧
      n' = { n with consumer := c, underway := none }) := by
  unfold work at h
  split at h
  · rename_i hcall
    obtain ⟨c, hc, rfl⟩ := within_eq_some h
    exact .inl ⟨hcall, c, hc, rfl⟩
  · rename_i u hcall
    split at h
    · rename_i hresult
      cases h
      exact .inr (.inl ⟨u, hcall, hresult, rfl⟩)
    · rename_i r hresult
      split at h
      · obtain ⟨n₁, h₁, rfl⟩ := Option.map_eq_some_iff.mp h
        obtain ⟨c, hc, rfl⟩ := within_eq_some h₁
        exact .inr (.inr ⟨u, r, c, hcall, hresult, hc, rfl⟩)
      · cases h

/-- The worker is in a call where it is about to consume a trace. -/
theorem call_eq_some {u : Underway} (h : n.call L my = some u) :
    (n.consumer.chan .traces).worker = .consume ∧ ∃ s rest,
      (n.consumer.chan .traces).processQueue = s :: rest ∧ u = n.underway.getD (.ofSignal L my s) := by
  unfold call at h
  split at h
  · rename_i s rest hw hp
    cases h
    exact ⟨hw, s, rest, hp, rfl⟩
  · cases h

theorem call_of_consume {s : Signal} {rest : List Signal} (hw : (n.consumer.chan .traces).worker = .consume)
    (hp : (n.consumer.chan .traces).processQueue = s :: rest) :
    n.call L my = some (n.underway.getD (.ofSignal L my s)) := by
  simp only [call, hw, hp]

/-- An emission: the trace is pushed if it is accepted. -/
theorem emit_eq_some {s : Signal} (h : Node.step L my (.emit s) n = some n') :
    n.consumer.call () = none ∧ n'.emitted = n.emitted ++ [s] ∧ n'.db = n.db ∧ n'.underway = n.underway ∧
      if my.onAppliedTransaction s.trace then
        n'.consumer = n.consumer.setCall () (some { chan := .traces, e := s })
      else n'.consumer = n.consumer := by
  simp only [Node.step] at h
  split at h
  · rename_i hidle
    have hcall : n.consumer.call () = none := Option.isNone_iff_eq_none.mp hidle.1
    split at h
    · obtain ⟨c, hc, rfl⟩ := within_eq_some h
      obtain ⟨-, rfl⟩ := Consumer.push_eq_some hc
      exact ⟨hcall, rfl, rfl, rfl, by simp [*]⟩
    · cases h
      exact ⟨hcall, rfl, rfl, rfl, by simp [*]⟩
  · cases h

variable (L my) in
/-- The worker is in `consume_transaction_trace`, with statements left to execute. -/
def Executing (n : Node) : Prop := (n.call L my).any (·.rest.result.isNone) = true

instance (n : Node) : Decidable (n.Executing L my) := inferInstanceAs (Decidable (_ = _))

/-- A step of a thread is a statement, or it is one in the consumer. -/
theorem act_cases {a : Act Unit Signal} (h : Node.step L my (.act a) n = some n') : n'.emitted = n.emitted ∧
    ((n.Executing L my ∧ (∃ o, a = .work .traces o) ∧ n'.consumer = n.consumer) ∨
      ((∃ o, a = .work .traces o) → ¬ n.Executing L my) ∧
        Consumer.step my.queueSize.toNat a n.consumer = some n'.consumer) := by
  have hwithin (ha : ∀ o, a ≠ .work .traces o) (hw : n.within my a = some n') : n'.emitted = n.emitted ∧
      ((n.Executing L my ∧ (∃ o, a = .work .traces o) ∧ n'.consumer = n.consumer) ∨
        ((∃ o, a = .work .traces o) → ¬ n.Executing L my) ∧
          Consumer.step my.queueSize.toNat a n.consumer = some n'.consumer) := by
    obtain ⟨c, hc, rfl⟩ := within_eq_some hw
    exact ⟨rfl, .inr ⟨fun ⟨o, ho⟩ => absurd ho (ha o), hc⟩⟩
  simp only [Node.step] at h
  split at h
  · cases h
  · split at h
    · exact hwithin (by simp) h
    · cases h
  · rename_i o
    obtain ⟨hcall, c, hc, rfl⟩ | ⟨u, hcall, hresult, rfl⟩ | ⟨u, r, c, hcall, hresult, hc, rfl⟩ := work_cases h
    · exact ⟨rfl, .inr ⟨fun _ => by simp [Executing, hcall], hc⟩⟩
    · exact ⟨rfl, .inl ⟨by simp [Executing, hcall, hresult], ⟨o, rfl⟩, rfl⟩⟩
    · exact ⟨rfl, .inr ⟨fun _ => by simp [Executing, hcall, hresult], hc⟩⟩
  · rename_i a _ _ hno
    exact hwithin (fun o ho => hno o ho) h

theorem emitted_act {a : Act Unit Signal} (h : Node.step L my (.act a) n = some n') : n'.emitted = n.emitted :=
  (act_cases h).1

/-- The other threads leave the worker of the traces in its call, or wake it,
and they leave the database alone. -/
theorem step_unworked {a : NodeAct} (h : Node.step L my a n = some n') (ha : ∀ o, a ≠ .act (.work .traces o)) :
    Consumer.Unworked (n.consumer.chan .traces) (n'.consumer.chan .traces) ∧ n'.db = n.db ∧
      n'.underway = n.underway := by
  have hwithin {b : Act Unit Signal} (hb : ¬ Consumer.works .traces b) (hw : n.within my b = some n') :
      Consumer.Unworked (n.consumer.chan .traces) (n'.consumer.chan .traces) ∧ n'.db = n.db ∧
        n'.underway = n.underway := by
    obtain ⟨c, hc, rfl⟩ := within_eq_some hw
    exact ⟨Consumer.step_unworked hc hb, rfl, rfl⟩
  cases a with
  | emit s =>
    obtain ⟨-, -, hdb, hu, hc⟩ := emit_eq_some h
    refine ⟨?_, hdb, hu⟩
    split at hc <;> rw [hc] <;> exact .refl _
  | act a =>
    have hworks : ¬ Consumer.works .traces a := fun hw => by
      obtain ⟨o, rfl⟩ := Consumer.works_iff.mp hw
      exact ha o rfl
    simp only [Node.step] at h
    split at h
    · cases h
    · split at h
      · exact hwithin hworks h
      · cases h
    · exact absurd rfl (ha _)
    · exact hwithin hworks h

theorem call_congr (hu : Consumer.Unworked (n.consumer.chan .traces) (n'.consumer.chan .traces))
    (he : n'.underway = n.underway) : n'.call L my = n.call L my := by
  obtain hw | ⟨hw, hw'⟩ := hu.worker
  · rw [call, call, hw, hu.processQueue, he]
  · rw [call, call, hw, hw']

end Node

/-! ## The node as a consumer -/

variable (L my) in
/-- What a step is to the consumer, to which a statement is none. -/
def asConsumer : NodeAct → Node → Option (Act Unit Signal)
  | .emit s, _ => if my.onAppliedTransaction s.trace then some (.push () .traces s) else none
  | .act (.work .traces o), n => if n.Executing L my then none else some (.work .traces o)
  | .act a, _ => some a

theorem asConsumer_act {a : Act Unit Signal} {n : Node} (h : (∃ o, a = .work .traces o) → ¬ n.Executing L my) :
    asConsumer L my (.act a) n = some a := by
  unfold asConsumer
  split
  · cases ‹NodeAct.act a = _›
  · rename_i o ha
    cases ha
    rw [if_neg (h ⟨_, rfl⟩)]
  · rename_i ha
    cases ha
    rfl

theorem consumer_refined (d₀ : Db) {ok : NodeAct → Node → Prop} {okA : Act Unit Signal → State Unit Signal → Prop}
    (hok : ∀ a n b, ok a n → asConsumer L my a n = some b → okA b n.consumer) :
    (node L my d₀).Refines ok (Consumer.consumer Unit Signal my.queueSize.toNat) okA Node.consumer
      (asConsumer L my) where
  init := rfl
  stutter {a n n'} _ _ hs ho := by
    cases a with
    | emit s =>
      obtain ⟨-, -, -, -, hc⟩ := Node.emit_eq_some (L := L) hs
      simp only [asConsumer] at ho
      split at ho
      · cases ho
      · simpa [*] using hc
    | act a =>
      obtain ⟨-, ⟨-, -, hc⟩ | ⟨hno, -⟩⟩ := Node.act_cases hs
      · exact hc
      · cases (asConsumer_act hno).symm.trans ho
  step {a n n' b} _ ha hs ho := by
    refine ⟨hok a n b ha ho, ?_⟩
    cases a with
    | emit s =>
      obtain ⟨hcall, -, -, -, hc⟩ := Node.emit_eq_some (L := L) hs
      simp only [asConsumer] at ho
      split at ho
      · cases ho
        rw [if_pos ‹_›] at hc
        simp [Consumer.consumer, Consumer.step, hcall, hc]
      · cases ho
    | act a =>
      obtain ⟨-, ⟨hexec, ⟨o, rfl⟩, -⟩ | ⟨hno, hc⟩⟩ := Node.act_cases hs
      · simp only [asConsumer, if_pos hexec] at ho
        cases ho
      · cases (asConsumer_act hno).symm.trans ho
        exact hc

/-! ## The node as a replica -/

/-- The batch of a worker, without the entry it has come back with. -/
def Consumer.Channel.unconsumed (c : Channel Unit Signal) : List Signal :=
  if c.worker = .pop then c.processQueue.tail else c.processQueue

/-- The entry of a call that has not come to its append. -/
def inFlight : Option (QueueCall Signal) → List Signal
  | some c => if c.chan = .traces ∧ c.pc.announcing = false then [c.e] else []
  | none => []

/-- The signals accepted and not yet consumed: those in the worker's batch,
those in the queue, and the one being pushed. -/
def waitingIn (s : State Unit Signal) : List Signal :=
  (s.chan .traces).unconsumed ++ (s.chan .traces).queue ++ inFlight (s.call ())

/-- The node, seen as a replica. -/
def Node.abs (n : Node) : Replica :=
  { emitted := n.emitted
    applied := (n.consumer.chan .traces).finished
    waiting := waitingIn n.consumer
    db := n.db
    underway := n.underway }

/-- A push whose append throws: there is no memory for its entry. -/
def NoMemory (o : Outcome) (c : QueueCall Signal) : Prop :=
  o = .throws ∧ c.chan = .traces ∧ c.pc = .append

instance (o : Outcome) (c : QueueCall Signal) : Decidable (NoMemory o c) :=
  inferInstanceAs (Decidable (_ ∧ _))

variable (L my) in
/-- What a step is to the replica: a signal is emitted, a statement for it is
executed, it is applied when the worker comes back with it, and lost when
there is no memory for it. -/
def asReplica : NodeAct → Node → Option ReplicaAct
  | .emit s, _ => some (.emit s)
  | .act (.work .traces _), n => (n.call L my).map fun u => if u.rest.result.isNone then .statement else .apply
  | .act (.produce () o), n => (n.consumer.call ()).bind fun c => if NoMemory o c then some .lose else none
  | .act _, _ => none

theorem Consumer.Unworked.unconsumed {c c' : Channel Unit Signal} (h : Consumer.Unworked c c') :
    c'.unconsumed = c.unconsumed := by
  unfold Channel.unconsumed
  obtain e | ⟨e, e'⟩ := h.worker
  · rw [e, h.processQueue]
  · rw [e, e', h.processQueue]; rfl

theorem Consumer.Unworked.finished {c c' : Channel Unit Signal} (h : Consumer.Unworked c c') :
    c'.finished = c.finished := by
  unfold Channel.finished
  obtain e | ⟨e, e'⟩ := h.worker
  · rw [e, h.handed]
  · rw [e, e', h.handed]; rfl

/-- A step that neither appends nor consumes leaves the line of the signals that wait as it is. -/
theorem waiting_kept {s s' : State Unit Signal} (hu : Consumer.Unworked (s.chan .traces) (s'.chan .traces))
    (hq : (s'.chan .traces).queue = (s.chan .traces).queue)
    (hc : inFlight (s'.call ()) = inFlight (s.call ())) : waitingIn s' = waitingIn s := by
  rw [waitingIn, waitingIn, hu.unconsumed, hq, hc]

theorem inFlight_goto {c c' : QueueCall Signal} (hn : c'.chan = c.chan) (he : c'.e = c.e)
    (hp : c'.pc.announcing = c.pc.announcing) : inFlight (some c') = inFlight (some c) := by
  simp only [inFlight, hn, he, hp]

theorem inFlight_announcing {c : QueueCall Signal} (hp : c.pc.announcing = true) :
    inFlight (some c) = [] := by
  simp [inFlight, hp]

/-- What a producer's step does to the line of the signals that wait. -/
theorem queueStep_waiting {queueSize : Nat} {s s' : State Unit Signal} {o : Outcome}
    {c : QueueCall Signal} (hc : s.call () = some c)
    (h : Consumer.queueStep queueSize () o c s = some s') :
    ¬ NoMemory o c ∧ waitingIn s' = waitingIn s ∨
      NoMemory o c ∧ waitingIn s ≠ [] ∧ waitingIn s' = (waitingIn s).dropLast := by
  have hu := Consumer.queueStep_unworked h .traces
  -- a step that only goes on
  have hgoto {s₁ : State Unit Signal} {c' : QueueCall Signal}
      (hu : Consumer.Unworked (s.chan .traces) (s₁.chan .traces))
      (hq : (s₁.chan .traces).queue = (s.chan .traces).queue) (hn : c'.chan = c.chan) (he : c'.e = c.e)
      (hp : c'.pc.announcing = c.pc.announcing) : waitingIn (s₁.setCall () (some c')) = waitingIn s :=
    waiting_kept hu hq (by rw [Consumer.setCall_self, hc, inFlight_goto hn he hp])
  have hpc {pc : Consumer.QueuePc} (e : c.pc = pc) (hne : pc ≠ .append) : ¬ NoMemory o c :=
    fun h => hne (e.symm.trans h.2.2)
  unfold Consumer.queueStep at h
  split at h
  all_goals rename_i e
  case h_1 | h_8 =>
    obtain ⟨-, rfl⟩ := Consumer.acquire_eq_some h
    exact .inl ⟨hpc e (by decide), hgoto hu (Consumer.setChan_queue (by rfl) _) rfl rfl (by rw [e]; rfl)⟩
  case h_2 => cases h; refine .inl ⟨hpc e (by decide), hgoto hu rfl rfl rfl ?_⟩; dsimp only; rw [e]; split <;> rfl
  case h_3 | h_10 =>
    cases h
    exact .inl ⟨hpc e (by decide), hgoto hu (Consumer.setChan_queue (by rfl) _) rfl rfl (by rw [e]; rfl)⟩
  case h_4 =>
    obtain ⟨s₁, h₁, rfl⟩ := Option.map_eq_some_iff.mp h
    refine .inl ⟨hpc e (by decide), hgoto hu ?_ rfl rfl (by rw [e]; rfl)⟩
    obtain rfl | ⟨q, rfl⟩ := Consumer.notifyOne_eq_some h₁
    · rfl
    · exact Consumer.setChan_queue (Consumer.wake_queue _) _
  case h_5 =>
    cases h
    have hm : (c.measure (s.chan c.chan).queue.length).chan = c.chan ∧
        (c.measure (s.chan c.chan).queue.length).e = c.e := by
      unfold QueueCall.measure
      repeat' split
      all_goals exact ⟨rfl, rfl⟩
    exact .inl ⟨hpc e (by decide), hgoto hu rfl hm.1 hm.2 (by rw [e]; rfl)⟩
  case h_6 | h_7 => cases h; exact .inl ⟨hpc e (by decide), hgoto hu rfl rfl rfl (by rw [e]; rfl)⟩
  case h_9 =>
    by_cases ht : c.chan = .traces
    · have hline : waitingIn s = (s.chan .traces).unconsumed ++ (s.chan .traces).queue ++ [c.e] := by
        simp [waitingIn, hc, inFlight, ht, e, Consumer.QueuePc.announcing]
      rw [hline]
      split at h <;> cases h
      · refine .inl ⟨(fun h => by cases h.1), ?_⟩
        rw [waitingIn, hu.unconsumed, Consumer.setCall_self, inFlight_announcing rfl]
        simp [ht]
      · refine .inr ⟨⟨rfl, ht, e⟩, by simp, ?_⟩
        rw [waitingIn, hu.unconsumed, Consumer.setCall_self]
        simp [inFlight, State.release, ht]
    · -- the other queue, in which nothing waits
      have hnone (c' : QueueCall Signal) (hn : c'.chan = c.chan) : inFlight (some c') = [] := by
        simp [inFlight, hn, ht]
      have hno (o : Outcome) : ¬ NoMemory o c := fun h => ht h.2.1
      split at h <;> cases h
      · refine .inl ⟨hno _, waiting_kept hu (by simp [Ne.symm ht]) ?_⟩
        rw [Consumer.setCall_self, hc, hnone c rfl]
        exact hnone _ rfl
      · refine .inl ⟨hno _, waiting_kept hu (by simp [State.release, Ne.symm ht]) ?_⟩
        rw [Consumer.setCall_self, hc, hnone c rfl]
        rfl
  case h_11 =>
    cases h
    refine .inl ⟨hpc e (by decide), waiting_kept hu (Consumer.wake_queue _) ?_⟩
    rw [Consumer.setCall_self, hc, inFlight_announcing (by rw [e]; rfl)]
    rfl

/-- What a step of `run_traces` does to the line: the worker takes the first
signal out of it where it comes back with it. -/
theorem work_unconsumed {exit : Bool} {o : Outcome} {c c' : Channel Unit Signal} (hf : Consumer.FifoInv c)
    (h : c.work exit o = some c') (hw : c.worker ≠ .consume) :
    c'.unconsumed ++ c'.queue = c.unconsumed ++ c.queue ∧ c'.finished = c.finished := by
  have hi := hf.idle
  unfold Channel.work at h
  split at h
  all_goals rename_i e
  all_goals simp only [e, Consumer.WorkerPc.idle, forall_const, Bool.false_eq_true, false_implies] at hi
  case h_9 n =>
    -- the whole queue becomes the batch, which was empty
    split at h <;> cases h <;> simp [Channel.unconsumed, Channel.finished, e, hi]
  case h_13 => exact absurd e hw
  all_goals (repeat' split at h) <;> cases h
  all_goals simp [Channel.unconsumed, Channel.finished, e]

theorem work_consumed {exit : Bool} {o : Outcome} {c c' : Channel Unit Signal} (hw : c.worker = .consume)
    (h : c.work exit o = some c') :
    c'.unconsumed = c.processQueue.tail ∧ c'.queue = c.queue ∧ c'.finished = c.handed := by
  simp only [Channel.work, hw] at h
  split at h <;> cases h <;> simp [Channel.unconsumed, Channel.finished]

variable {d₀ : Db}

theorem abs_congr {n n' : Node} (hem : n'.emitted = n.emitted) (hdb : n'.db = n.db)
    (hu : n'.underway = n.underway)
    (hf : (n'.consumer.chan .traces).finished = (n.consumer.chan .traces).finished)
    (hw : waitingIn n'.consumer = waitingIn n.consumer) : n'.abs = n.abs := by
  rw [Node.abs, Node.abs, hem, hdb, hu, hf, hw]

/-- A thread that only wakes others leaves everything as it is. -/
theorem abs_of_wake {n n' : Node} (hem : n'.emitted = n.emitted) (hdb : n'.db = n.db)
    (hun : n'.underway = n.underway) (hc : n'.consumer.call = n.consumer.call)
    (hq : n'.consumer.chan .traces = n.consumer.chan .traces ∨
      n'.consumer.chan .traces = (n.consumer.chan .traces).wake) : n'.abs = n.abs := by
  have hu : Consumer.Unworked (n.consumer.chan .traces) (n'.consumer.chan .traces) := by
    obtain e | e := hq <;> rw [e]
    · exact .refl _
    · exact .wake _
  have hqueue : (n'.consumer.chan .traces).queue = (n.consumer.chan .traces).queue := by
    obtain e | e := hq <;> rw [e]
    exact Consumer.wake_queue _
  exact abs_congr hem hdb hun hu.finished (waiting_kept hu hqueue (by rw [hc]))

/-- The worker that has begun a call is in it. -/
def Node.CallInv (n : Node) : Prop := n.underway.isSome = true → (n.consumer.chan .traces).worker = .consume

theorem callInv_step {n n' : Node} {a : NodeAct} (hf : Consumer.FifoInv (n.consumer.chan .traces)) (hI : n.CallInv)
    (h : Node.step L my a n = some n') : n'.CallInv := by
  by_cases ha : ∃ o, a = .act (.work .traces o)
  · obtain ⟨o, rfl⟩ := ha
    obtain ⟨hcall, c, -, rfl⟩ | ⟨u, hcall, -, rfl⟩ | ⟨u, r, c, -, -, -, rfl⟩ := Node.work_cases h
    · -- a call under way would be the worker's
      intro hu
      have hw := hI hu
      obtain ⟨s, rest, hp⟩ := List.exists_cons_of_ne_nil (hf.delivering (by rw [hw]; rfl))
      cases hcall.symm.trans (Node.call_of_consume hw hp)
    · exact fun _ => (Node.call_eq_some hcall).1
    · exact fun hu => by cases hu
  · obtain ⟨hu, -, he⟩ := Node.step_unworked h fun o ho => ha ⟨o, ho⟩
    intro hsome
    rw [he] at hsome
    obtain e | ⟨e, -⟩ := hu.worker
    · rw [e, hI hsome]
    · cases e.symm.trans (hI hsome)

/-- What a step of the node is to the replica it is seen as. -/
theorem step_abs {n n' : Node} {a : NodeAct} (hf : Consumer.FifoInv (n.consumer.chan .traces))
    (hfront : Consumer.FrontInv (n.consumer.chan .traces)) (hI : n.CallInv) (h : Node.step L my a n = some n') :
    (asReplica L my a n = none → n'.abs = n.abs) ∧
      ∀ b, asReplica L my a n = some b → replicaStep L my b n.abs = some n'.abs := by
  cases a with
  | emit s =>
    obtain ⟨hcall, hem, hdb, hu, hc⟩ := Node.emit_eq_some h
    refine ⟨by simp [asReplica], fun b hb => ?_⟩
    cases hb
    have hw : waitingIn n'.consumer = waitingIn n.consumer ++ accepted my [s] ∧
        (n'.consumer.chan .traces).finished = (n.consumer.chan .traces).finished := by
      split at hc <;> rename_i hacc <;> rw [hc]
      · simp [waitingIn, hcall, inFlight, accepted, hacc, Consumer.QueuePc.announcing]
      · simp [accepted, hacc]
    rw [Node.abs, Node.abs, hem, hdb, hu, hw.1, hw.2]
    rfl
  | act a =>
    cases a with
    | push p q e => cases h
    | produce p o =>
      obtain ⟨c', hs, rfl⟩ := Node.within_eq_some h
      obtain ⟨c, hc, hs⟩ := Option.bind_eq_some_iff.mp hs
      have hu := Consumer.queueStep_unworked hs .traces
      have hob : asReplica L my (.act (.produce p o)) n = if NoMemory o c then some .lose else none := by
        simp [asReplica, hc]
      rw [hob]
      obtain ⟨hno, hw⟩ | ⟨hno, hne, hw⟩ := queueStep_waiting hc hs
      · rw [if_neg hno]
        exact ⟨fun _ => abs_congr rfl rfl rfl hu.finished hw, by simp⟩
      · rw [if_pos hno]
        refine ⟨by simp, fun b hb => ?_⟩
        cases hb
        -- the call under way is for a signal of the batch, which is not the one that is lost
        have hkept : n.underway.isSome = true → waitingIn c' ≠ [] := by
          intro hsome
          have hw' := hI hsome
          have hp := hf.delivering (by rw [hw']; rfl)
          rw [waitingIn, hu.unconsumed, Channel.unconsumed, if_neg (by rw [hw']; decide)]
          simp [hp]
        rw [hw] at hkept
        simp only [replicaStep, Node.abs, hw, hu.finished]
        exact if_neg fun h => h.elim hne fun h => hkept h.1 h.2
    | work q o =>
      cases q with
      | blocks =>
        obtain ⟨c', hs, rfl⟩ := Node.within_eq_some h
        obtain ⟨-, -, -, hcall, hne⟩ := Consumer.workStep_eq_some hs
        exact ⟨fun _ => abs_of_wake rfl rfl rfl hcall (hne .traces (by decide)), by simp [asReplica]⟩
      | traces =>
        obtain ⟨hno, c', hs, rfl⟩ | ⟨u, hu, hresult, rfl⟩ | ⟨u, r, c', hu, hresult, hs, rfl⟩ := Node.work_cases h
        · obtain ⟨c, hc, he, hcall, -⟩ := Consumer.workStep_eq_some hs
          have hw : (n.consumer.chan .traces).worker ≠ .consume := fun hw => by
            obtain ⟨s, rest, hp⟩ := List.exists_cons_of_ne_nil (hf.delivering (by rw [hw]; rfl))
            cases hno.symm.trans (Node.call_of_consume hw hp)
          obtain ⟨hline, hfin⟩ := work_unconsumed hf hc hw
          simp only [asReplica, hno]
          refine ⟨fun _ => abs_congr rfl rfl rfl (by rw [he, hfin]) ?_, by simp⟩
          rw [waitingIn, waitingIn, he, hline, hcall]
        · obtain ⟨hw, s, rest, hp, hu'⟩ := Node.call_eq_some hu
          have hline : waitingIn n.consumer = s :: (rest ++ (n.consumer.chan .traces).queue ++
              inFlight (n.consumer.call ())) := by
            simp [waitingIn, Channel.unconsumed, hw, hp]
          simp only [asReplica, hu, Option.map_some, hresult]
          refine ⟨by simp, fun b hb => ?_⟩
          cases hb
          simp [replicaStep, Node.abs, hline, ← hu', hresult]
        · obtain ⟨hw, s, rest, hp, hu'⟩ := Node.call_eq_some hu
          obtain ⟨c, hc, he, hcall, -⟩ := Consumer.workStep_eq_some hs
          obtain ⟨hun, hq, hfin⟩ := work_consumed hw hc
          obtain ⟨finished, e, rest', hh, hp'⟩ := hfront hw
          cases hp.symm.trans hp'
          simp only [asReplica, hu, Option.map_some, hresult]
          refine ⟨by simp, fun b hb => ?_⟩
          cases hb
          have hline : waitingIn n.consumer = s :: waitingIn c' := by
            rw [waitingIn, waitingIn, he, hun, hq, hcall, hp]
            simp [Channel.unconsumed, hw, hp]
          have hfin' : (c'.chan .traces).finished = (n.consumer.chan .traces).finished ++ [s] := by
            rw [he, hfin, Channel.finished, if_pos hw, hh, List.dropLast_concat]
          simp [replicaStep, Node.abs, hline, hfin', ← hu', hresult]
    | spurious q =>
      obtain ⟨c', hs, rfl⟩ := Node.within_eq_some h
      obtain ⟨-, rfl⟩ := Consumer.spurious_eq_some hs
      have hu := (Consumer.Unworked.wake (n.consumer.chan q)).setChan .traces
      refine ⟨fun _ => abs_congr rfl rfl rfl hu.finished (waiting_kept hu ?_ rfl), by simp [asReplica]⟩
      exact Consumer.setChan_queue (Consumer.wake_queue _) _
    | close =>
      simp only [Node.step] at h
      split at h
      · obtain ⟨c', hs, rfl⟩ := Node.within_eq_some h
        obtain ⟨hcall, hq⟩ := Consumer.closeStep_chan hs .traces
        exact ⟨fun _ => abs_of_wake rfl rfl rfl hcall hq, by simp [asReplica]⟩
      · cases h

theorem reachable_consumer {ok : NodeAct → Node → Prop} {n : Node} (h : (node L my d₀).Reach ok n) :
    (Consumer.consumer Unit Signal my.queueSize.toNat).Reachable n.consumer :=
  (consumer_refined d₀ fun _ _ _ _ _ => trivial).reach h

theorem callInv {ok : NodeAct → Node → Prop} {n : Node} (h : (node L my d₀).Reach ok n) : n.CallInv :=
  h.inv_of (fun _ hr => Consumer.fifoInv (reachable_consumer hr) .traces) (fun hu => by cases hu)
    fun _ _ _ hf hI _ hs => callInv_step hf hI hs

/-- The node is a replica: its steps are the replica's, or change nothing it sees. -/
theorem node_refines {ok : NodeAct → Node → Prop} {okA : ReplicaAct → Replica → Prop}
    (hok : ∀ a n b, ok a n → asReplica L my a n = some b → okA b n.abs) :
    (node L my d₀).Refines ok (replica L my d₀) okA Node.abs (asReplica L my) := by
  have habs {a n n'} (hr : (node L my d₀).Reach ok n) (hs : (node L my d₀).step a n = some n') :=
    step_abs (L := L) (Consumer.fifoInv (reachable_consumer hr) .traces)
      (Consumer.frontInv (reachable_consumer hr) .traces) (callInv hr) hs
  exact {
    init := rfl
    stutter := fun hr _ hs ho => (habs hr hs).1 ho
    step := fun hr ha hs ho => ⟨hok _ _ _ ha ho, (habs hr hs).2 _ ho⟩ }

/-! ## Whatever the threads do -/

/-- No append runs out of memory. -/
def InMemory : NodeAct → Node → Prop
  | .act (.produce () .throws), _ => False
  | _, _ => True

instance : ∀ (a : NodeAct) (n : Node), Decidable (InMemory a n)
  | .act (.produce () .throws), _ => .isFalse id
  | .emit _, _ | .act (.push ..), _ | .act (.work ..), _ | .act (.spurious _), _ | .act .close, _ => .isTrue trivial
  | .act (.produce () .returns), _ | .act (.produce () (.wakes _)), _ => .isTrue trivial

theorem lossless_of_inMemory {a : NodeAct} {n : Node} {b : ReplicaAct} (ha : InMemory a n)
    (hb : asReplica L my a n = some b) : Lossless b n.abs := by
  cases b with
  | lose =>
    unfold asReplica at hb
    split at hb
    · cases hb
    · obtain ⟨u, -, hu⟩ := Option.map_eq_some_iff.mp hb
      split at hu <;> cases hu
    · obtain ⟨c, -, hc⟩ := Option.bind_eq_some_iff.mp hb
      split at hc
      · rename_i hno
        rw [hno.1] at ha
        cases ha
      · cases hc
    · cases hb
  | _ => trivial

theorem underway_of_resting {n : Node} (h : n.Resting) : n.abs.underway = none := Option.isNone_iff_eq_none.mp h

/-- The database is that of the first few signals and the first few
statements for the next one, and the accepted ones of the others wait. -/
theorem lagging_db {n : Node} (h : (node L my d₀).Reach InMemory n) :
    ∃ done rest, n.emitted = done ++ rest ∧ waitingIn n.consumer = accepted my rest ∧
      (∃ k, n.db = consumeFirst L my k (mirror L my d₀ done) (accepted my rest)) ∧
      (n.Resting → n.db = mirror L my d₀ done) := by
  have hreach := (node_refines fun a n b => lossless_of_inMemory).reach h
  obtain ⟨done, rest, hem, -, hw, hdb, hrest⟩ := Replica.lagging_db hreach
  exact ⟨done, rest, hem, hw, hdb, fun hr => hrest (underway_of_resting hr)⟩

/-- In every interleaving of the chain's thread with the workers and their
statements, spurious wake-ups and destruction included, with any signals,
and whichever of their statements fail: as long as there is memory for the
queue, the database is at every moment that of the first few signals emitted
and of the first few statements for the next accepted one, and the accepted
ones of the others wait; it is that of the first few signals where no call
is under way, and that of all when none waits. -/
theorem node_lags {n : Node} (h : (node L my d₀).Reach InMemory n) :
    ∃ done rest, n.emitted = done ++ rest ∧ waitingIn n.consumer = accepted my rest ∧
      (∃ k, n.db = consumeFirst L my k (mirror L my d₀ done) (accepted my rest)) ∧
      (n.Resting → n.db = mirror L my d₀ done) ∧
      (waitingIn n.consumer = [] → n.db = mirror L my d₀ n.emitted) := by
  obtain ⟨done, rest, hem, hw, hdb, hrest⟩ := lagging_db h
  refine ⟨done, rest, hem, hw, hdb, hrest, fun hnone => ?_⟩
  obtain ⟨k, hk⟩ := hdb
  have hdone : accepted my n.emitted = accepted my done := by
    rw [hem, accepted_append, ← hw, hnone, List.append_nil]
  rw [hk, ← hw, hnone, mirror, mirror, hdone]
  rfl

/-- An issue is emitted and its trace pushed. -/
def emitAndPush : List NodeAct := .emit ⟨issueTrace, []⟩ :: List.replicate 5 (.act (.produce () .returns))

/-- `run_traces` goes on by `k` steps, of which the first eight lead to the call. -/
def workTraces (k : Nat) : List NodeAct := List.replicate k (.act (.work .traces .returns))

/-- Two issues are emitted; the row of the first one is there, although its call has not come back. -/
theorem node_lags_run : ∃ n, (node .sample tokenPlugin {}).Reach InMemory n ∧
    ((n.emitted.length = 2 ∧ n.db.actions.length = 1) ∧ (waitingIn n.consumer).length = 2) ∧
    ∃ done rest, n.emitted = done ++ rest ∧ waitingIn n.consumer = accepted tokenPlugin rest ∧
      (∃ k, n.db = consumeFirst .sample tokenPlugin k (mirror .sample tokenPlugin {} done)
        (accepted tokenPlugin rest)) ∧
      (n.Resting → n.db = mirror .sample tokenPlugin {} done) ∧
      (waitingIn n.consumer = [] → n.db = mirror .sample tokenPlugin {} n.emitted) := by
  obtain ⟨n, hn, hp⟩ := Machine.reach_of_run (M := node .sample tokenPlugin {}) InMemory
    (p := fun n => (n.emitted.length == 2 && n.db.actions.length == 1) && (waitingIn n.consumer).length == 2)
    (emitAndPush ++ workTraces 11 ++ emitAndPush) (by decide +kernel)
  simp only [Bool.and_eq_true, beq_iff_eq] at hp
  exact ⟨n, hn, hp, node_lags hn⟩

/-- Also where there is no memory, in every interleaving, what has been
consumed and what waits are some of the accepted signals, in their order,
none of them twice, and the database is that of those consumed and of the
first few statements for the first one that waits. -/
theorem node_thinned {n : Node} (h : (node L my d₀).Reachable n) :
    ((n.consumer.chan .traces).finished ++ waitingIn n.consumer).Sublist (accepted my n.emitted) ∧
      (∃ k, n.db = consumeFirst L my k (consumeAll L my d₀ (n.consumer.chan .traces).finished)
        (waitingIn n.consumer)) ∧
      (n.Resting → n.db = consumeAll L my d₀ (n.consumer.chan .traces).finished) := by
  have hreach : (replica L my d₀).Reachable n.abs := (node_refines fun _ _ _ _ _ => trivial).reach h
  obtain ⟨hdb, hrest⟩ := Replica.db_eq hreach
  exact ⟨Replica.thinned hreach, hdb, fun hr => hrest (underway_of_resting hr)⟩

/-- The append of an issue throws; of the issue behind it the row is there. -/
theorem node_thinned_run : ∃ n, (node .sample tokenPlugin {}).Reachable n ∧
    (n.emitted.length = 2 ∧ n.db.actions.length = 1) ∧
    ((n.consumer.chan .traces).finished ++ waitingIn n.consumer).Sublist (accepted tokenPlugin n.emitted) ∧
      (∃ k, n.db = consumeFirst .sample tokenPlugin k
        (consumeAll .sample tokenPlugin {} (n.consumer.chan .traces).finished) (waitingIn n.consumer)) ∧
      (n.Resting → n.db = consumeAll .sample tokenPlugin {} (n.consumer.chan .traces).finished) := by
  obtain ⟨n, hn, hp⟩ := Machine.reach_of_run (M := node .sample tokenPlugin {}) (fun _ _ => True)
    (p := fun n => n.emitted.length == 2 && n.db.actions.length == 1)
    ([.emit ⟨issueTrace, []⟩, .act (.produce () .returns), .act (.produce () .returns),
      .act (.produce () .throws)] ++ emitAndPush ++ workTraces 11)
    (by decide +kernel)
  simp only [Bool.and_eq_true, beq_iff_eq] at hp
  exact ⟨n, hn, hp, node_thinned hn⟩

/-- The database is that of some of the accepted signals and of one more that
is cut off: all of its statements fail from one of them on. -/
theorem consumed_db {n : Node} (h : (node L my d₀).Reachable n) :
    ∃ pushed : List Signal, (∀ s ∈ pushed, ∃ s' ∈ accepted my n.emitted, s.trace = s'.trace) ∧
      n.db = consumeAll L my d₀ pushed := by
  obtain ⟨hsub, ⟨k, hk⟩, -⟩ := node_thinned h
  obtain ⟨cut, hcut, he⟩ := @consumeFirst_eq L my k
    (consumeAll L my d₀ (n.consumer.chan .traces).finished) (waitingIn n.consumer)
  refine ⟨(n.consumer.chan .traces).finished ++ cut, fun s hs => ?_, by rw [hk, he, consumeAll_append]⟩
  obtain hs | hs := List.mem_append.mp hs
  · exact ⟨s, hsub.subset (List.mem_append_left _ hs), rfl⟩
  · obtain ⟨s', hs', htrace⟩ := hcut s hs
    exact ⟨s', hsub.subset (List.mem_append_right _ hs'), htrace⟩

/-! ## When the threads are scheduled fairly -/

/-- Neither is the plugin destroyed nor does an append run out of memory. -/
def Serving : NodeAct → Node → Prop
  | .act .close, _ => False
  | .act (.produce () .throws), _ => False
  | _, _ => True

instance : ∀ (a : NodeAct) (n : Node), Decidable (Serving a n)
  | .act (.produce () .throws), _ | .act .close, _ => .isFalse id
  | .emit _, _ | .act (.push ..), _ | .act (.work ..), _ | .act (.spurious _), _ => .isTrue trivial
  | .act (.produce () .returns), _ | .act (.produce () (.wakes _)), _ => .isTrue trivial

theorem Serving.inMemory {a : NodeAct} {n : Node} (h : Serving a n) : InMemory a n := by
  unfold InMemory
  split
  · exact h
  · trivial

/-- The steps in the consumer that are steps of the thread `T`. -/
def inConsumer (T : Act Unit Signal → Prop) : NodeAct → Prop
  | .act a => T a
  | .emit _ => False

theorem running_of_serving {a : NodeAct} {n : Node} {b : Act Unit Signal} (ha : Serving a n)
    (hb : asConsumer L my a n = some b) : Consumer.Running b n.consumer := by
  unfold asConsumer at hb
  split at hb
  · split at hb <;> cases hb
    trivial
  · split at hb <;> cases hb
    trivial
  · cases hb
    cases b with
    | close => cases ha
    | _ => trivial

/-- The chain's thread can go on in the node where it can in the consumer. -/
theorem pushing_enabled {n : Node}
    (h : (Consumer.consumer Unit Signal my.queueSize.toNat).Enabled Consumer.Running
      (Consumer.produces ()) n.consumer) :
    (node L my d₀).Enabled Serving (inConsumer (Consumer.produces ())) n := by
  obtain ⟨a, s', hT, -, hs⟩ := h
  obtain ⟨o, rfl⟩ := Consumer.produces_iff.mp hT
  obtain ⟨c, hc, hs⟩ := Option.bind_eq_some_iff.mp hs
  have hgoes : ∃ o', o' ≠ .throws ∧
      (Consumer.queueStep my.queueSize.toNat () o' c n.consumer).isSome = true :=
    Consumer.queueStep_goes (Consumer.owner_of_queueStep hs)
  obtain ⟨o', ho', hsome⟩ := hgoes
  obtain ⟨s₁, hs₁⟩ := Option.isSome_iff_exists.mp hsome
  refine ⟨.act (.produce () o'), { n with consumer := s₁ }, rfl, ?_, ?_⟩
  · cases o' with
    | throws => exact absurd rfl ho'
    | _ => trivial
  · simp [node, Node.step, Node.within, Consumer.step, hc, hs₁]

/-- A worker can go on in the node where it can in the consumer. -/
theorem working_enabled {n : Node} {q : Chan}
    (h : (Consumer.consumer Unit Signal my.queueSize.toNat).Enabled Consumer.Running
      (Consumer.works q) n.consumer) :
    (node L my d₀).Enabled Serving (inConsumer (Consumer.works q)) n := by
  obtain ⟨a, s', hT, -, hs⟩ := h
  obtain ⟨o, rfl⟩ := Consumer.works_iff.mp hT
  have hwithin : n.within my (.work q o) = some { n with consumer := s' } :=
    Option.map_eq_some_iff.mpr ⟨s', hs, rfl⟩
  cases q with
  | blocks => exact ⟨.act (.work .blocks o), _, rfl, trivial, hwithin⟩
  | traces =>
    obtain ⟨o', hwork⟩ : ∃ o', (n.work L my o').isSome = true := by
      cases hcall : n.call L my with
      | none => exact ⟨o, by simp only [Node.work, hcall, hwithin]; rfl⟩
      | some u =>
        cases hresult : u.rest.result with
        | none => exact ⟨o, by simp only [Node.work, hcall, hresult]; rfl⟩
        | some r =>
          -- the call is over, and has ended as it says
          have hw := (Node.call_eq_some hcall).1
          have hback : ((n.consumer.chan .traces).work n.consumer.exit (outcomeOf r)).isSome = true := by
            rcases r with e | a <;> simp only [Channel.work, hw] <;> rfl
          refine ⟨outcomeOf r, ?_⟩
          simp only [Node.work, hcall, hresult, if_pos, Option.isSome_map, Node.within, Consumer.step,
            Consumer.workStep, hback]
    obtain ⟨n', hn'⟩ := Option.isSome_iff_exists.mp hwork
    exact ⟨.act (.work .traces o'), n', rfl, trivial, hn'⟩

theorem not_pushing_enabled {n : Node} (hc : n.consumer.call () = none) :
    ¬ (node L my d₀).Enabled Serving (inConsumer (Consumer.produces ())) n := by
  rintro ⟨a, n', hT, -, hs⟩
  cases a with
  | emit s => cases hT
  | act a =>
    have hT : Consumer.produces () a := hT
    have hs : Node.step L my (.act a) n = some n' := hs
    obtain ⟨-, ⟨-, ⟨o', rfl⟩, -⟩ | ⟨-, hstep⟩⟩ := Node.act_cases hs
    · cases hT
    · have hen : (Consumer.consumer Unit Signal my.queueSize.toNat).Enabled (fun _ _ => True)
          (Consumer.produces ()) n.consumer := ⟨a, n'.consumer, hT, trivial, hstep⟩
      exact Consumer.not_produces_enabled hc hen

theorem not_working_enabled {n : Node} {q : Chan} (hb : (n.consumer.chan q).worker = .blocked) :
    ¬ (node L my d₀).Enabled Serving (inConsumer (Consumer.works q)) n := by
  rintro ⟨a, n', hT, -, hs⟩
  cases a with
  | emit s => cases hT
  | act a =>
    have hT : Consumer.works q a := hT
    have hs : Node.step L my (.act a) n = some n' := hs
    obtain ⟨-, ⟨hexec, ⟨o, rfl⟩, -⟩ | ⟨-, hstep⟩⟩ := Node.act_cases hs
    · cases hT
      obtain ⟨u, hu, -⟩ := (Option.any_eq_true _ _).mp hexec
      cases hb.symm.trans (Node.call_eq_some hu).1
    · have hen : (Consumer.consumer Unit Signal my.queueSize.toNat).Enabled (fun _ _ => True)
          (Consumer.works q) n.consumer := ⟨a, n'.consumer, hT, trivial, hstep⟩
      exact Consumer.not_works_enabled hb hen

/-! A thread is scheduled in the consumer as it is in the node, once the
statements of a call are executed. -/

variable (L my) in
/-- How many statements are left in the call of the worker. -/
def Node.left (n : Node) : Nat := (n.call L my).elim 0 fun u => u.rest.left ⟨n.db, u.faults⟩

/-- A step of another thread than the worker of the traces is one in the consumer. -/
theorem seen_of_other {T : Act Unit Signal → Prop} (hT : ∀ o, ¬ T (.work .traces o)) {a : NodeAct} {n : Node}
    (ha : inConsumer T a) : ∃ b, asConsumer L my a n = some b ∧ T b := by
  cases a with
  | emit s => cases ha
  | act a => exact ⟨a, asConsumer_act fun ⟨o, ho⟩ => absurd (ho ▸ ha) (hT o), ha⟩

/-- A step of the worker of the traces is one in the consumer or leaves one
statement less, and the other threads leave as many as there are. -/
theorem seen_or_left {a : NodeAct} {n n' : Node} (h : Node.step L my a n = some n') :
    (∃ b, asConsumer L my a n = some b ∧ Consumer.works .traces b) ∨
      n'.left L my ≤ n.left L my ∧ (inConsumer (Consumer.works .traces) a → n'.left L my < n.left L my) := by
  by_cases ha : ∃ o, a = .act (.work .traces o)
  · obtain ⟨o, rfl⟩ := ha
    obtain ⟨hcall, -⟩ | ⟨u, hcall, hresult, rfl⟩ | ⟨u, r, c, hcall, hresult, -⟩ := Node.work_cases h
    · exact .inl ⟨_, asConsumer_act fun _ => by simp [Node.Executing, hcall], rfl⟩
    · obtain ⟨hw, s, rest, hp, -⟩ := Node.call_eq_some hcall
      have hlt := Statements.left_execute hresult ⟨n.db, u.faults⟩
      have hleft : Node.left L my { n with db := (u.execute n.db).2, underway := some (u.execute n.db).1 } <
          n.left L my := by
        have hcall' : Node.call L my { n with db := (u.execute n.db).2, underway := some (u.execute n.db).1 } =
            some (u.execute n.db).1 := Node.call_of_consume hw hp
        rw [Node.left, Node.left, hcall, hcall']
        exact hlt
      exact .inr ⟨Nat.le_of_lt hleft, fun _ => hleft⟩
    · exact .inl ⟨_, asConsumer_act fun _ => by simp [Node.Executing, hcall, hresult], rfl⟩
  · obtain ⟨hu, hdb, he⟩ := Node.step_unworked h fun o ho => ha ⟨o, ho⟩
    have hleft : n'.left L my = n.left L my := by rw [Node.left, Node.left, Node.call_congr hu he, hdb]
    refine .inr ⟨Nat.le_of_eq hleft, fun hT => ?_⟩
    cases a with
    | emit s => cases hT
    | act a =>
      obtain ⟨o, rfl⟩ := Consumer.works_iff.mp hT
      exact absurd ⟨o, rfl⟩ ha

/-- The endless run of the consumer in an endless run of the node. -/
def consumerRun (ρ : (node L my d₀).Behaviour Serving) :
    (Consumer.consumer Unit Signal my.queueSize.toNat).Behaviour Consumer.Running :=
  (consumer_refined d₀ fun _ _ _ => running_of_serving).behaviour ρ

/-- And that of the replica. -/
def replicaRun (ρ : (node L my d₀).Behaviour Serving) : (replica L my d₀).Behaviour Lossless :=
  (node_refines fun _ _ _ ha hb => lossless_of_inMemory (Serving.inMemory ha) hb).behaviour ρ

theorem pushing_fair {ρ : (node L my d₀).Behaviour Serving} (h : ρ.StronglyFair (inConsumer (Consumer.produces ()))) :
    (consumerRun ρ).StronglyFair (Consumer.produces ()) := by
  refine Refines.stronglyFair _ (fun _ => 0) (fun a n n' _ _ _ => ?_) (fun _ _ => pushing_enabled) h
  by_cases ha : inConsumer (Consumer.produces ()) a
  · exact .inl (seen_of_other (fun _ => id) ha)
  · exact .inr ⟨Nat.le_refl 0, fun hT => absurd hT ha⟩

theorem working_fair {ρ : (node L my d₀).Behaviour Serving} {q : Chan}
    (h : ρ.StronglyFair (inConsumer (Consumer.works q))) : (consumerRun ρ).StronglyFair (Consumer.works q) := by
  cases q with
  | blocks =>
    refine Refines.stronglyFair _ (fun _ => 0) (fun a n n' _ _ _ => ?_) (fun _ _ => working_enabled) h
    by_cases ha : inConsumer (Consumer.works .blocks) a
    · exact .inl (seen_of_other (fun _ => by simp [Consumer.works]) ha)
    · exact .inr ⟨Nat.le_refl 0, fun hT => absurd hT ha⟩
  | traces =>
    exact Refines.stronglyFair _ (Node.left L my) (fun _ _ _ _ _ => seen_or_left) (fun _ _ => working_enabled) h

section Fair

variable {ρ : (node L my d₀).Behaviour Serving}

theorem emitted_mono {n m : Nat} (h : m ≥ n) : (ρ.state n).emitted <+: (ρ.state m).emitted := by
  refine Behaviour.keeps (P := fun s : Node => (ρ.state n).emitted <+: s.emitted) List.prefix_rfl
    (fun k _ a hk _ hs => hk.trans ?_) m h
  cases a with
  | emit s => rw [(Node.emit_eq_some (L := L) hs).2.1]; exact List.prefix_append _ _
  | act a => exact (Node.emitted_act (L := L) hs).symm ▸ List.prefix_rfl

/-- What has been consumed and what waits, in terms of the queue. -/
theorem finished_unconsumed {c : Channel Unit Signal} (hfront : Consumer.FrontInv c) :
    c.finished ++ c.unconsumed = c.handed ++ c.pending := by
  by_cases hw : c.worker = .consume
  · obtain ⟨finished, e, rest, hh, hp⟩ := hfront hw
    simp [Channel.finished, Channel.unconsumed, Channel.pending, Consumer.WorkerPc.delivering, hw, hh, hp]
  · by_cases hpop : c.worker = .pop
    · simp [Channel.finished, Channel.unconsumed, Channel.pending, Consumer.WorkerPc.delivering, hpop]
    · have hd : c.worker.delivering = false := by
        unfold Consumer.WorkerPc.delivering
        split <;> first | rfl | contradiction
      simp [Channel.finished, Channel.unconsumed, Channel.pending, hw, hpop, hd]

/-- What the replica that the node is has seen so far. -/
theorem lagging_state (n : Nat) :
    ((ρ.state n).consumer.chan .traces).finished ++ waitingIn (ρ.state n).consumer =
      accepted my (ρ.state n).emitted :=
  Replica.lagging ((replicaRun ρ).reach n)

/-- When no push is under way, the accepted signals are those appended. -/
theorem appended_of_idle {n : Nat} (hc : (ρ.state n).consumer.call () = none) :
    ((ρ.state n).consumer.chan .traces).appended = accepted my (ρ.state n).emitted := by
  have hr : (Consumer.consumer Unit Signal my.queueSize.toNat).Reach Consumer.Running (ρ.state n).consumer :=
    (consumerRun ρ).reach n
  have hfu := finished_unconsumed (Consumer.frontInv hr .traces)
  rw [← lagging_state n, ← (Consumer.fifoInv hr .traces).fifo, waitingIn, hc, inFlight, List.append_nil,
    ← List.append_assoc]
  exact congrArg (· ++ _) hfu.symm

variable (L d₀) in
/-- A database that holds the first of two histories also holds the first
few signals of the longer one that end with it, if it has all it accepts. -/
theorem mirror_covers {done seen all : List Signal} (hd : done <+: all) (hs : seen <+: all)
    (hlen : (accepted my seen).length ≤ (accepted my done).length) :
    ∃ done', seen <+: done' ∧ done' <+: all ∧ mirror L my d₀ done' = mirror L my d₀ done := by
  obtain hle | ⟨tail, rfl⟩ := List.prefix_or_prefix_of_prefix hs hd
  · exact ⟨done, hle, hd, rfl⟩
  · rw [accepted_append, List.length_append] at hlen
    have htail : accepted my tail = [] := List.length_eq_zero_iff.mp (by omega)
    refine ⟨done ++ tail, List.prefix_rfl, hs, ?_⟩
    rw [mirror_append, mirror, htail]
    rfl

end Fair

/-- In every endless run that schedules the chain's thread and both workers
fairly, with any signals, and whichever of their statements fail: whatever
has been emitted is in the database some time later, which then is that of
the first few signals emitted and of these among them. -/
theorem node_follows (ρ : (node L my d₀).Behaviour Serving)
    (hp : ρ.StronglyFair (inConsumer (Consumer.produces ())))
    (hq : ∀ q, ρ.StronglyFair (inConsumer (Consumer.works q))) (n : Nat) :
    ∃ m ≥ n, ∃ done, (ρ.state n).emitted <+: done ∧ done <+: (ρ.state m).emitted ∧
      (ρ.state m).db = mirror L my d₀ done := by
  have hp' := pushing_fair hp
  have hq' (q : Chan) := working_fair (hq q)
  -- the push under way comes back
  obtain ⟨k, hk, hcall⟩ : ∃ k ≥ n, (ρ.state k).consumer.call () = none := by
    cases hc : (ρ.state n).consumer.call () with
    | none => exact ⟨n, Nat.le_refl n, hc⟩
    | some c =>
      exact Consumer.call_returns (fun _ _ h => h) (fun _ => hp'.weaklyFair) (fun q => (hq' q).weaklyFair)
        hp' n ⟨c, hc⟩
  -- what has been appended is consumed
  obtain ⟨m, hm, hfin⟩ := Consumer.finished_of_appended (fun _ => hp'.weaklyFair) (hq' .traces)
    ((ρ.state k).consumer.chan .traces).appended.length k (Nat.le_refl _)
  rw [appended_of_idle hcall] at hfin
  -- and where the last call for it has come back, the database is that of the first few signals
  obtain ⟨j, hj, hfin, hrest⟩ := Replica.applied_between (ρ := replicaRun ρ) hm hfin
  obtain ⟨done, rest, hem, happ, -, -, hdb⟩ := Replica.lagging_db ((replicaRun ρ).reach j)
  have hdone : done <+: (ρ.state j).emitted := ⟨rest, hem.symm⟩
  have hseen : (accepted my (ρ.state n).emitted).length ≤ (accepted my done).length := by
    have hnk : (accepted my (ρ.state n).emitted).length ≤ (accepted my (ρ.state k).emitted).length :=
      ((emitted_mono hk).filter _).length_le
    rw [← happ]
    exact Nat.le_trans hnk hfin
  obtain ⟨done', h₁, h₂, h₃⟩ := mirror_covers L d₀ hdone (emitted_mono (Nat.le_trans hk hj)) hseen
  exact ⟨j, Nat.le_trans hk hj, done', h₁, h₂, (hdb hrest).trans h₃.symm⟩

/-- An issue is emitted and recorded, and the workers go to sleep. -/
theorem node_follows_run : ∃ ρ : (node .sample tokenPlugin {}).Behaviour Serving,
    ((ρ.state 1).emitted.length = 1 ∧ (ρ.state 1).db.actions.length = 0) ∧
    ∃ m ≥ 1, ∃ done, (ρ.state 1).emitted <+: done ∧ done <+: (ρ.state m).emitted ∧
      (ρ.state m).db = mirror .sample tokenPlugin {} done := by
  have hrun : ((node .sample tokenPlugin {}).run Serving
      ([.emit ⟨issueTrace, []⟩] ++ (List.replicate 5 (.act (.produce () .returns)) ++
        (workTraces 21 ++ List.replicate 5 (.act (.work .blocks .returns)))))
      (node .sample tokenPlugin {}).init).any (fun n => (n.consumer.call ()).isNone &&
        ((n.consumer.chan .blocks).worker == .blocked && (n.consumer.chan .traces).worker == .blocked)) =
      true := by
    decide +kernel
  obtain ⟨n, h, hp⟩ := (Option.any_eq_true _ _).mp hrun
  simp only [Bool.and_eq_true, beq_iff_eq, Option.isNone_iff_eq_none] at hp
  obtain ⟨hc, hb, ht⟩ := hp
  have hidle := Behaviour.ofRun_stronglyFair h (not_pushing_enabled hc)
  have hasleep (q : Chan) := Behaviour.ofRun_stronglyFair h (T := inConsumer (Consumer.works q))
    (not_working_enabled (by cases q <;> assumption))
  have hstate := Behaviour.ofRun_state_left [_] h rfl
  exact ⟨Behaviour.ofRun _ h, ⟨congrArg (fun n => n.emitted.length) hstate,
    congrArg (fun n => n.db.actions.length) hstate⟩, node_follows _ hidle hasleep 1⟩

end SqlDb
