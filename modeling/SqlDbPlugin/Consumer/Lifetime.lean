import SqlDbPlugin.Consumer.Capacity
import SqlDbPlugin.Consumer.Shutdown

/-!
# The life of a consumer

The constructor initialises the members in the order of their declaration,
so the thread of `run_blocks` is started before the mutexes and the
condition variable are there, and that of `run_traces` before the last two.
The destructor joins one of the two threads and then destroys the members in
reverse order, under the other if that one is not through.

`lifetime` is the consumer with these steps around it. What a step does that
touches a member outside its life is undefined; here it goes on as usual,
and the question is whether such a step is taken. `LifeOk` is the condition
under which none is (`workers_touch_live`): a worker takes its mutex only
when the constructor has returned, and the destructor comes out of its join
when `run_traces` has left its loop. A worker that takes its mutex earlier
can go on to wait on a condition variable that is not there
(`early_worker_waits`), and one that is not through can outlive everything
(`late_worker_runs`).
-/

namespace SqlDb.Consumer

/-- The members of `consumer`, in the order of their declaration. -/
inductive Member
  | blockStateQueue
  | blockStateProcessQueue
  | transactionMetadataQueue
  | transactionMetadataProcessQueue
  | transactionTraceQueue
  | transactionTraceProcessQueue
  | db
  | queueSize
  | exit
  | consumeThreadRunBlocks
  | mtxBlocks
  | consumeThreadRunTraces
  | mtxTraces
  | condition
  deriving DecidableEq, Repr

/-- The number of members. -/
def Member.count : Nat := 14

theorem Member.ctorIdx_lt (m : Member) : m.ctorIdx < Member.count := by cases m <;> decide

namespace Chan

def queue : Chan → Member
  | blocks => .blockStateQueue
  | traces => .transactionTraceQueue

def processQueue : Chan → Member
  | blocks => .blockStateProcessQueue
  | traces => .transactionTraceProcessQueue

def mtx : Chan → Member
  | blocks => .mtxBlocks
  | traces => .mtxTraces

def thread : Chan → Member
  | blocks => .consumeThreadRunBlocks
  | traces => .consumeThreadRunTraces

end Chan

/-- The members the step of a worker touches. -/
def touched (q : Chan) : WorkerPc → List Member
  | .loop | .testExit => [.exit]
  | .lock | .unlock _ => [q.mtx]
  | .testEmpty | .size => [q.queue]
  | .wait | .woken => [.condition, q.mtx]
  | .move _ => [q.queue, q.processQueue]
  | .log _ => [.queueSize, .exit]
  | .drain => [q.processQueue, .db]
  | .consume => [.db]
  | .pop => [q.processQueue]
  | .notify => [.condition]
  | .blocked | .done => []

/-- A consumer and its members: those before number `alive` have been
constructed and not yet destroyed. `built` says that the constructor has
returned. -/
structure Life (P α : Type) where
  core : State P α := {}
  alive : Nat := 0
  built : Bool := false

variable {P α : Type} {queueSize : Nat}

namespace Life

def Live (s : Life P α) (m : Member) : Prop := m.ctorIdx < s.alive

instance (s : Life P α) (m : Member) : Decidable (s.Live m) := inferInstanceAs (Decidable (_ < _))

/-- The thread of a worker runs from the initialisation of its member on. -/
def Started (s : Life P α) (q : Chan) : Prop := s.built = true ∨ s.Live q.thread

instance (s : Life P α) (q : Chan) : Decidable (s.Started q) := inferInstanceAs (Decidable (_ ∨ _))

end Life

/-- The steps of a life: the constructor initialises the next member, the
destructor destroys the last one, or a thread takes a step. -/
inductive LifeAct (P α : Type)
  | construct
  | destroy
  | act (a : Act P α)
  deriving DecidableEq, Repr

/-- Whether the thread of a step is there: the others have the consumer when
its constructor has returned. -/
def Life.Enabled (s : Life P α) : Act P α → Prop
  | .work q _ | .spurious q => s.Started q
  | .push .. | .produce .. | .close => s.built = true

instance (s : Life P α) : ∀ a : Act P α, Decidable (s.Enabled a)
  | .work q _ | .spurious q => inferInstanceAs (Decidable (s.Started q))
  | .push .. | .produce .. | .close => inferInstanceAs (Decidable (_ = _))

def lifeStep [DecidableEq P] (queueSize : Nat) : LifeAct P α → Life P α → Option (Life P α)
  | .construct, s =>
    if s.built then none
    else some { s with alive := s.alive + 1, built := s.alive + 1 == Member.count }
  | .destroy, s =>
    if s.core.closer = .returned ∧ s.alive > 0 then some { s with alive := s.alive - 1 } else none
  | .act a, s => if s.Enabled a then (step queueSize a s.core).map ({ s with core := · }) else none

def lifetime (P α : Type) [DecidableEq P] (queueSize : Nat) : Machine (Life P α) (LifeAct P α) where
  init := {}
  step := lifeStep queueSize

/-- A worker takes its mutex when the constructor has returned, and the
destructor comes out of its join when `run_traces` has left its loop. -/
def LifeOk : LifeAct P α → Life P α → Prop
  | .act (.work q _), s => (s.core.chan q).worker = .lock → s.built = true
  | .act .close, s => s.core.closer = .join → (s.core.chan .traces).worker = .done
  | _, _ => True

/-- While the members are constructed the workers get as far as their mutex;
then all members are there until both workers have left their loops. -/
structure LifeInv (s : Life P α) : Prop where
  early : s.built = false → s.core.exit = false ∧ s.core.closer = .setExit ∧
    ∀ q, (s.core.chan q).worker = .loop ∨ (s.core.chan q).worker = .lock
  full : s.built = true → s.core.closer ≠ .returned → s.alive = Member.count
  done : s.core.closer = .returned → ∀ q, (s.core.chan q).worker = .done

/-- While `exit` is not set, a worker at the head of its loop goes on to its mutex. -/
theorem work_early {o : Outcome} {c c' : Channel P α} (h : c.work false o = some c')
    (hw : c.worker = .loop) : c'.worker = .lock := by
  simp only [Channel.work, hw, Bool.false_eq_true, ite_false, Option.some.injEq] at h
  rw [← h]

variable [DecidableEq P]

theorem construct_eq_some {s s' : Life P α} (h : lifeStep queueSize .construct s = some s') :
    s.built = false ∧ s' = { s with alive := s.alive + 1, built := s.alive + 1 == Member.count } := by
  simp only [lifeStep] at h
  split at h
  · cases h
  · exact ⟨Bool.eq_false_iff.mpr ‹_›, (Option.some.inj h).symm⟩

theorem destroy_eq_some {s s' : Life P α} (h : lifeStep queueSize .destroy s = some s') :
    s.core.closer = .returned ∧ s' = { s with alive := s.alive - 1 } := by
  simp only [lifeStep] at h
  split at h
  · rename_i hr
    exact ⟨hr.1, (Option.some.inj h).symm⟩
  · cases h

theorem lifeStep_act {a : Act P α} {s s' : Life P α} (h : lifeStep queueSize (.act a) s = some s') :
    s.Enabled a ∧ s'.alive = s.alive ∧ s'.built = s.built ∧ step queueSize a s.core = some s'.core := by
  simp only [lifeStep] at h
  split at h
  · rename_i he
    obtain ⟨c, hc, rfl⟩ := Option.map_eq_some_iff.mp h
    exact ⟨he, rfl, rfl, hc⟩
  · cases h

/-- A step of a worker while the members are constructed. -/
theorem LifeInv.early_step {s s' : Life P α} (h : LifeInv s) {a : Act P α} (ok : LifeOk (.act a) s)
    (hb : s.built = false) (he : s.Enabled a) (hs : step queueSize a s.core = some s'.core) :
    s'.core.exit = false ∧ s'.core.closer = .setExit ∧
      ∀ q, (s'.core.chan q).worker = .loop ∨ (s'.core.chan q).worker = .lock := by
  obtain ⟨hexit, hcloser, hworker⟩ := h.early hb
  have hrest : s'.core.exit = false ∧ s'.core.closer = .setExit := by
    obtain ⟨h₁, -, h₂⟩ | ⟨rfl, -⟩ := step_exit hs
    · exact ⟨h₁.trans hexit, h₂.trans hcloser⟩
    · cases hb.symm.trans he
  refine ⟨hrest.1, hrest.2, fun q' => ?_⟩
  cases a with
  | work q o =>
    obtain ⟨c, hw, hc, -, hne⟩ := workStep_eq_some hs
    have hl : (s.core.chan q).worker = .loop := (hworker q).resolve_right fun hl => by
      cases hb.symm.trans (ok hl)
    rw [hexit] at hw
    by_cases hq : q' = q
    · subst hq; rw [hc]; exact .inr (work_early hw hl)
    · obtain e | e := hne q' hq <;> rw [e]
      · exact hworker q'
      · rw [wake_of_ne (by obtain e | e := hworker q' <;> rw [e] <;> nofun)]
        exact hworker q'
  | spurious q =>
    obtain ⟨e, -⟩ := spurious_eq_some hs
    obtain e' | e' := hworker q <;> cases e.symm.trans e'
  | _ => cases hb.symm.trans he

theorem life_step {a : LifeAct P α} {s s' : Life P α} (h : LifeInv s) (ok : LifeOk a s)
    (hs : lifeStep queueSize a s = some s') : LifeInv s' := by
  cases a with
  | construct =>
    obtain ⟨hb, rfl⟩ := construct_eq_some hs
    have he := h.early hb
    exact ⟨fun _ => he, fun hn _ => by simpa using hn, fun hr => by cases he.2.1.symm.trans hr⟩
  | destroy =>
    obtain ⟨hr, rfl⟩ := destroy_eq_some hs
    exact ⟨h.early, fun _ hn => absurd hr hn, h.done⟩
  | act a =>
    obtain ⟨he, halive, hbuilt, hstep⟩ := lifeStep_act hs
    refine ⟨fun hb => h.early_step ok (hbuilt ▸ hb) he hstep, fun hb hn => ?_, fun hr q => ?_⟩
    · rw [halive]
      refine h.full (hbuilt ▸ hb) fun hr => hn ?_
      obtain ⟨-, -, hc⟩ | ⟨rfl, hcl⟩ := step_exit hstep
      · rw [hc, hr]
      · obtain ⟨e, -⟩ | ⟨e, -⟩ | ⟨e, -⟩ := closeStep_cases hcl <;> cases e.symm.trans hr
    · obtain ⟨-, -, hc⟩ | ⟨rfl, hcl⟩ := step_exit hstep
      · exact (step_chan hstep q).worker_done (h.done (hc ▸ hr) q)
      · obtain ⟨-, hcore⟩ | ⟨-, hcore⟩ | ⟨e, hj, hcore⟩ := closeStep_cases hcl
        · rw [hcore] at hr; cases hr
        · rw [hcore] at hr; cases hr
        · rw [hcore]
          cases q with
          | blocks => exact hj
          | traces => exact ok e

omit [DecidableEq P] in
theorem lifeInv_init : LifeInv ({} : Life P α) where
  early _ := ⟨rfl, rfl, fun _ => .inl rfl⟩
  full hb := by cases hb
  done hr := by cases hr

theorem lifeInv {s : Life P α} (h : (lifetime P α queueSize).Reach LifeOk s) : LifeInv s :=
  h.inv (I := LifeInv) lifeInv_init fun _ _ _ hI ok hs => life_step hI ok hs

omit [DecidableEq P] in
/-- `exit` is initialised before the threads are started. -/
theorem Life.Started.exit_live {s : Life P α} {q : Chan} (h : s.Started q)
    (hfull : s.built = true → s.alive = Member.count) : s.Live .exit := by
  obtain h | h := h
  · rw [Life.Live, hfull h]; decide
  · refine Nat.lt_trans ?_ h
    cases q <;> decide

/-- In every run in which a worker takes its mutex when the constructor has
returned, and the destructor comes out of its join when `run_traces` has
left its loop, every member that a worker's step touches is constructed and
not destroyed. -/
theorem workers_touch_live {s s' : Life P α} (h : (lifetime P α queueSize).Reach LifeOk s) {q : Chan}
    {o : Outcome} (ok : LifeOk (.act (.work q o)) s)
    (hs : lifeStep queueSize (.act (.work q o)) s = some s') :
    ∀ m ∈ touched q (s.core.chan q).worker, s.Live m := by
  intro m hm
  have hI := lifeInv h
  obtain ⟨he, -, -, hstep⟩ := lifeStep_act hs
  have hfull : s.built = true → s.alive = Member.count := fun hb => hI.full hb fun hr => by
    rw [hI.done hr q] at hm
    cases hm
  by_cases hb : s.built = true
  · rw [Life.Live, hfull hb]
    exact m.ctorIdx_lt
  · have hb : s.built = false := by simpa using hb
    obtain e | e := (hI.early hb).2.2 q
    · rw [e] at hm
      rw [List.mem_singleton.mp hm]
      exact he.exit_live hfull
    · cases hb.symm.trans (ok e)

/-! ## Outside the condition -/

/-- Before the constructor has returned nobody has pushed anything or set
`exit`, and the condition variable is not there. -/
structure UnbuiltInv (s : Life P α) : Prop where
  alive : s.built = false → s.alive < Member.count
  exit : s.built = false → s.core.exit = false
  queue : s.built = false → ∀ q, (s.core.chan q).queue = []

theorem unbuilt_step {a : LifeAct P α} {s s' : Life P α} (h : UnbuiltInv s)
    (hs : lifeStep queueSize a s = some s') : UnbuiltInv s' := by
  cases a with
  | construct =>
    obtain ⟨hb, rfl⟩ := construct_eq_some hs
    refine ⟨fun hn => ?_, fun _ => h.exit hb, fun _ => h.queue hb⟩
    have hne : s.alive + 1 ≠ Member.count := by simpa using hn
    have hlt := h.alive hb
    show s.alive + 1 < Member.count
    omega
  | destroy =>
    obtain ⟨-, rfl⟩ := destroy_eq_some hs
    exact ⟨fun hb => Nat.lt_of_le_of_lt (Nat.sub_le _ _) (h.alive hb), h.exit, h.queue⟩
  | act a =>
    obtain ⟨he, halive, hbuilt, hstep⟩ := lifeStep_act hs
    refine ⟨fun hb => ?_, fun hb => ?_, fun hb q => ?_⟩ <;> rw [hbuilt] at hb
    · rw [halive]; exact h.alive hb
    · obtain ⟨h₁, -, -⟩ | ⟨rfl, -⟩ := step_exit hstep
      · exact h₁.trans (h.exit hb)
      · cases hb.symm.trans he
    · have hq := h.queue hb q
      cases a with
      | work q' o =>
        obtain ⟨c, hw, hc, -, hne⟩ := workStep_eq_some hstep
        by_cases hqq : q = q'
        · subst hqq
          have hle := work_queue_le hw
          rw [hc]
          exact List.length_eq_zero_iff.mp (by rw [hq] at hle; exact Nat.le_zero.mp hle)
        · obtain e | e := hne q hqq <;> rw [e]
          · exact hq
          · rw [wake_queue]; exact hq
      | spurious q' =>
        rw [(spurious_eq_some hstep).2, setChan_queue (wake_queue _)]
        exact hq
      | _ => cases hb.symm.trans he

theorem unbuiltInv {s : Life P α} (h : (lifetime P α queueSize).Reachable s) : UnbuiltInv s :=
  h.inv (I := UnbuiltInv) ⟨fun _ => Nat.succ_pos 13, fun _ => rfl, fun _ _ => rfl⟩
    fun _ _ _ hI _ hs => unbuilt_step hI hs

/-- The next step of a worker, short of its `notify_all`. -/
theorem lifeStep_work {s : Life P α} {q : Chan} {o : Outcome} {c : Channel P α} (hq : s.Started q)
    (hw : (s.core.chan q).work s.core.exit o = some c) (hn : (s.core.chan q).worker ≠ .notify) :
    lifeStep queueSize (.act (.work q o)) s = some { s with core := s.core.setChan q c } := by
  rw [lifeStep, if_pos (show s.Enabled (.work q o) from hq), step, workStep, hw, Option.map_some,
    if_neg hn, Option.map_some]

theorem reachable_work {s : Life P α} (h : (lifetime P α queueSize).Reachable s) {q : Chan}
    {o : Outcome} {c : Channel P α} (hq : s.Started q)
    (hw : (s.core.chan q).work s.core.exit o = some c) (hn : (s.core.chan q).worker ≠ .notify) :
    (lifetime P α queueSize).Reachable { s with core := s.core.setChan q c } :=
  Machine.Reach.step (M := lifetime P α queueSize) (a := .act (.work q o)) h trivial
    (lifeStep_work hq hw hn)

/-- A worker that takes its mutex before the constructor has returned goes
on, in its next two steps, to its wait, on a condition variable that is not
there. -/
theorem early_worker_waits {s s₁ : Life P α} (h : (lifetime P α queueSize).Reachable s) {q : Chan}
    {o : Outcome} (hw : (s.core.chan q).worker = .lock) (hb : s.built = false)
    (hs : lifeStep queueSize (.act (.work q o)) s = some s₁) :
    ∃ s₃ s₄, (lifetime P α queueSize).Reachable s₃ ∧
      lifeStep queueSize (.act (.work q .returns)) s₃ = some s₄ ∧
      .condition ∈ touched q (s₃.core.chan q).worker ∧ ¬ s₃.Live .condition := by
  have hI := unbuiltInv h
  have hqueue := hI.queue hb q
  have hexit := hI.exit hb
  obtain ⟨hstarted, -, -, hstep⟩ := lifeStep_act hs
  obtain ⟨c, hc, -⟩ := workStep_eq_some hstep
  have h₁ := reachable_work h hstarted hc (by rw [hw]; nofun)
  simp only [Channel.work, hw] at hc
  split at hc <;> cases hc
  have h₂ := reachable_work (q := q) (o := .returns)
    (c := { s.core.chan q with owner := some .worker, worker := .testExit })
    h₁ hstarted (by simp [Channel.work, hqueue]) (by simp)
  have h₃ := reachable_work (q := q) (o := .returns)
    (c := { s.core.chan q with owner := some .worker, worker := .wait })
    h₂ hstarted (by simp [Channel.work, hexit, State.setChan]) (by simp)
  refine ⟨_, _, h₃, lifeStep_work (c := { s.core.chan q with owner := none, worker := .blocked })
    hstarted (by simp [Channel.work]) (by simp), by simp [touched], ?_⟩
  exact Nat.not_lt.mpr (Nat.le_of_lt_succ (hI.alive hb))

/-- Behind the destructor's body all members are destroyed, whatever the workers do. -/
theorem destroy_all {s : Life P α} (h : (lifetime P α queueSize).Reachable s)
    (hr : s.core.closer = .returned) :
    (lifetime P α queueSize).Reachable { s with alive := 0 } := by
  obtain ⟨core, n, built⟩ := s
  induction n with
  | zero => exact h
  | succ n ih =>
    have hs : lifeStep queueSize .destroy ⟨core, n + 1, built⟩ = some ⟨core, n, built⟩ := by
      rw [lifeStep, if_pos ⟨hr, Nat.succ_pos n⟩]
      rfl
    exact ih (Machine.Reach.step (M := lifetime P α queueSize) (a := .destroy) h trivial hs) hr

/-- A destructor that comes out of its join while `run_traces` is in its
loop destroys all members under it: the next step of that worker, or the
one behind a spurious wake-up, touches one of them. -/
theorem late_worker_runs {s s₁ : Life P α} (h : (lifetime P α queueSize).Reachable s)
    (hj : s.core.closer = .join) (hw : (s.core.chan .traces).worker ≠ .done)
    (hs : lifeStep queueSize (.act .close) s = some s₁) :
    ∃ s₂, (lifetime P α queueSize).Reachable s₂ ∧ touched .traces (s₂.core.chan .traces).worker ≠ [] ∧
      ∀ m, ¬ s₂.Live m := by
  have h₁ : (lifetime P α queueSize).Reachable s₁ :=
    Machine.Reach.step (M := lifetime P α queueSize) (a := .act .close) h trivial hs
  obtain ⟨hb, -, hbuilt, hstep⟩ := lifeStep_act hs
  simp only [step, closeStep, hj] at hstep
  split at hstep
  · have hcore := (Option.some.inj hstep).symm
    have h₂ := destroy_all h₁ (by rw [hcore])
    have hw₁ : (s₁.core.chan .traces).worker = (s.core.chan .traces).worker := by rw [hcore]
    by_cases hblocked : (s.core.chan .traces).worker = .blocked
    · have hspurious : lifeStep queueSize (.act (.spurious .traces)) { s₁ with alive := 0 } = some
          { s₁ with core := s₁.core.setChan .traces (s₁.core.chan .traces).wake, alive := 0 } := by
        have hstarted : Life.Enabled { s₁ with alive := 0 } (.spurious .traces) := .inl (hbuilt.trans hb)
        rw [lifeStep, if_pos hstarted, step, if_pos (hw₁.trans hblocked)]
        rfl
      refine ⟨_, Machine.Reach.step (M := lifetime P α queueSize) (a := .act (.spurious .traces)) h₂
        trivial hspurious, ?_, fun _ => Nat.not_lt_zero _⟩
      simp [Channel.wake, hw₁, hblocked, touched]
    · refine ⟨_, h₂, ?_, fun _ => Nat.not_lt_zero _⟩
      show touched .traces (s₁.core.chan .traces).worker ≠ []
      rw [hw₁]
      cases hp : (s.core.chan .traces).worker <;> simp_all [touched]
  · cases hstep

/-! ## A start and an end -/

/-- `run_blocks` locks its mutex when ten members are initialised, and that
is the eleventh; and `run_traces`, which has come to its lock before `exit`
is set, locks its mutex when that is destroyed. -/
theorem workers_touch_dead :
    (∃ s, (lifetime Unit Nat 5000).Reachable s ∧
      (lifeStep 5000 (.act (.work .blocks .returns)) s).isSome ∧
      (s.core.chan .blocks).worker = .lock ∧ s.built = false ∧ ¬ s.Live .mtxBlocks) ∧
    ∃ s, (lifetime Unit Nat 5000).Reachable s ∧
      (lifeStep 5000 (.act (.work .traces .returns)) s).isSome ∧
      (s.core.chan .traces).worker = .lock ∧ s.built = true ∧ ¬ s.Live .mtxTraces := by
  constructor
  · obtain ⟨s, hs, hp⟩ := Machine.reach_of_run (M := lifetime Unit Nat 5000) (fun _ _ => True)
      (p := fun s => (lifeStep 5000 (.act (.work .blocks .returns)) s).isSome &&
        ((s.core.chan .blocks).worker == .lock && (!s.built && !decide (s.Live .mtxBlocks))))
      (List.replicate 10 .construct ++ [.act (.work .blocks .returns)]) (by decide)
    simp only [Bool.and_eq_true, beq_iff_eq, Bool.not_eq_true', decide_eq_false_iff_not] at hp
    exact ⟨s, hs, hp⟩
  · obtain ⟨s, hs, hp⟩ := Machine.reach_of_run (M := lifetime Unit Nat 5000) (fun _ _ => True)
      (p := fun s => (lifeStep 5000 (.act (.work .traces .returns)) s).isSome &&
        ((s.core.chan .traces).worker == .lock && (s.built && !decide (s.Live .mtxTraces))))
      (List.replicate 14 .construct ++ [.act (.work .traces .returns), .act .close, .act .close,
        .act (.work .blocks .returns), .act .close, .destroy, .destroy]) (by decide)
    simp only [Bool.and_eq_true, beq_iff_eq, Bool.not_eq_true', decide_eq_false_iff_not] at hp
    exact ⟨s, hs, hp⟩

instance : ∀ (a : LifeAct P α) (s : Life P α), Decidable (LifeOk a s)
  | .act (.work _ _), _ | .act .close, _ => inferInstanceAs (Decidable (_ → _))
  | .act (.push ..), _ | .act (.produce ..), _ | .act (.spurious _), _ | .construct, _ | .destroy, _ =>
    inferInstanceAs (Decidable True)

/-- When the constructor has returned, `run_blocks` locks its mutex, which is there. -/
theorem workers_touch_live_run : ∃ s, (lifetime Unit Nat 5000).Reach LifeOk s ∧
    ((s.core.chan .blocks).worker = .lock ∧ s.built = true) ∧
    ∀ m ∈ touched .blocks (s.core.chan .blocks).worker, s.Live m := by
  obtain ⟨s, hs, hp⟩ := Machine.reach_of_run (M := lifetime Unit Nat 5000) LifeOk
    (p := fun s => (lifeStep 5000 (.act (.work .blocks .returns)) s).isSome &&
      ((s.core.chan .blocks).worker == .lock && s.built))
    (List.replicate 14 .construct ++ [.act (.work .blocks .returns)]) (by decide)
  simp only [Bool.and_eq_true, beq_iff_eq] at hp
  obtain ⟨s', hs'⟩ := Option.isSome_iff_exists.mp hp.1
  exact ⟨s, hs, hp.2, workers_touch_live hs (fun _ => hp.2.2) hs'⟩

end SqlDb.Consumer
