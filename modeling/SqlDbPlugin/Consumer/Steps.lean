import Mathlib.Tactic.Common
import SqlDbPlugin.Consumer.Model

/-!
# What a step of the consumer does to one channel

`ChanStep` lists everything a step can do to a channel, seen from the
channel alone (`step_chan`); `exit` and `beforeExit` change only when `exit`
is set (`step_exit`). `LockInv` is mutual exclusion: a producer owns a mutex
exactly while its call is between taking and releasing it, and so does a
worker (`lockInv`). The invariants of the other modules are proved from
these three.
-/

namespace SqlDb.Consumer

variable {P α : Type} {queueSize : Nat}

@[simp] theorem setChan_self (s : State P α) (q : Chan) (c : Channel P α) :
    (s.setChan q c).chan q = c := by
  simp [State.setChan]

@[simp] theorem setChan_of_ne (s : State P α) {q q' : Chan} (c : Channel P α) (h : q' ≠ q) :
    (s.setChan q c).chan q' = s.chan q' := by
  simp [State.setChan, h]

@[simp] theorem setChan_call (s : State P α) (q : Chan) (c : Channel P α) :
    (s.setChan q c).call = s.call := rfl

@[simp] theorem notifyAll_chan (s : State P α) (q : Chan) : s.notifyAll.chan q = (s.chan q).wake := rfl
@[simp] theorem notifyAll_call (s : State P α) : s.notifyAll.call = s.call := rfl

theorem wake_of_ne {c : Channel P α} (h : c.worker ≠ .blocked) : c.wake = c := if_neg h

@[simp] theorem wake_owner (c : Channel P α) : c.wake.owner = c.owner := by
  unfold Channel.wake; split <;> rfl

@[simp] theorem wake_queue (c : Channel P α) : c.wake.queue = c.queue := by
  unfold Channel.wake; split <;> rfl

/-- The positions of `consumer::queue` at which the mutex is held. -/
def QueuePc.holds : QueuePc → Bool
  | .test | .unlockFull | .append | .unlock => true
  | _ => false

/-- The positions of a worker at which the mutex is held. -/
def WorkerPc.holds : WorkerPc → Bool
  | .testEmpty | .testExit | .wait | .size | .move _ | .unlock _ => true
  | _ => false

@[simp] theorem wake_holds (c : Channel P α) : c.wake.worker.holds = c.worker.holds := by
  unfold Channel.wake
  split
  · rename_i h; rw [h]; rfl
  · rfl

/-- What a step from `s` can do to the channel `q`. -/
inductive ChanStep (s : State P α) (q : Chan) : Channel P α → Prop
  | same : ChanStep s q (s.chan q)
  | wake : ChanStep s q (s.chan q).wake
  | acquire (p : P) (h : (s.chan q).owner = none) :
    ChanStep s q { s.chan q with owner := some (.producer p) }
  | release (p : P) (c : QueueCall α) (h : s.call p = some c) (hq : c.chan = q)
      (hc : c.pc.holds = true) : ChanStep s q { s.chan q with owner := none }
  | append (p : P) (c : QueueCall α) (h : s.call p = some c) (hq : c.chan = q)
      (hc : c.pc = .append) :
    ChanStep s q { s.chan q with
      queue := (s.chan q).queue ++ [c.e], appended := (s.chan q).appended ++ [c.e] }
  | work (o : Outcome) {c : Channel P α} (h : (s.chan q).work s.exit o = some c) : ChanStep s q c

theorem ChanStep.setChan {s : State P α} {q : Chan} {c : Channel P α} (h : ChanStep s q c)
    (q' : Chan) : ChanStep s q' ((s.setChan q c).chan q') := by
  by_cases hq : q' = q
  · subst hq; rwa [setChan_self]
  · rw [setChan_of_ne _ _ hq]; exact .same

theorem notifyOne_eq_some {s s' : State P α} {o : Outcome} (h : s.notifyOne o = some s') :
    s' = s ∨ ∃ q, s' = s.setChan q (s.chan q).wake := by
  cases o with
  | returns =>
    simp only [State.notifyOne] at h
    split at h <;> cases h
    exact .inl rfl
  | wakes q =>
    simp only [State.notifyOne] at h
    split at h <;> cases h
    exact .inr ⟨q, rfl⟩
  | throws => cases h

theorem notifyOne_chan {s s' : State P α} {o : Outcome} (h : s.notifyOne o = some s') (q : Chan) :
    ChanStep s q (s'.chan q) := by
  obtain rfl | ⟨q', rfl⟩ := notifyOne_eq_some h
  · exact .same
  · exact ChanStep.wake.setChan q

/-- A worker's step, on its own channel and on the other one. -/
theorem workStep_eq_some {s s' : State P α} {q : Chan} {o : Outcome}
    (h : workStep q o s = some s') :
    ∃ c, (s.chan q).work s.exit o = some c ∧ s'.chan q = c ∧ s'.call = s.call ∧
      ∀ q', q' ≠ q → s'.chan q' = s.chan q' ∨ s'.chan q' = (s.chan q').wake := by
  obtain ⟨c, hc, rfl⟩ := Option.map_eq_some_iff.mp h
  refine ⟨c, hc, ?_⟩
  split
  · rename_i hn
    -- the worker that notifies is not blocked
    have hw : c.wake = c := wake_of_ne (by
      simp only [Channel.work, hn, Option.some.injEq] at hc
      simp [← hc])
    exact ⟨by rw [notifyAll_chan, setChan_self, hw], rfl, fun q' hq => .inr (by simp [hq])⟩
  · exact ⟨setChan_self _ _ _, rfl, fun q' hq => .inl (by simp [hq])⟩

theorem workStep_chan {s s' : State P α} {q : Chan} {o : Outcome} (h : workStep q o s = some s')
    (q' : Chan) : ChanStep s q' (s'.chan q') := by
  obtain ⟨c, hc, he, -, hne⟩ := workStep_eq_some h
  by_cases hq : q' = q
  · subst hq; rw [he]; exact .work o hc
  · obtain e | e := hne q' hq <;> rw [e]
    · exact .same
    · exact .wake

/-- What a step of the closing thread does. -/
theorem closeStep_cases {s s' : State P α} (h : closeStep s = some s') :
    (s.closer = .setExit ∧ s' =
      { s with exit := true, closer := .notifyAll, beforeExit := fun q => (s.chan q).appended }) ∨
    (s.closer = .notifyAll ∧ s' = { s.notifyAll with closer := .join }) ∨
    (s.closer = .join ∧ (s.chan .blocks).worker = .done ∧ s' = { s with closer := .returned }) := by
  unfold closeStep at h
  split at h
  · rename_i e
    exact .inl ⟨e, (Option.some.inj h).symm⟩
  · rename_i e
    exact .inr (.inl ⟨e, (Option.some.inj h).symm⟩)
  · rename_i e
    split at h
    · rename_i hj
      exact .inr (.inr ⟨e, hj, (Option.some.inj h).symm⟩)
    · cases h
  · cases h

theorem closeStep_chan {s s' : State P α} (h : closeStep s = some s') (q : Chan) :
    s'.call = s.call ∧ (s'.chan q = s.chan q ∨ s'.chan q = (s.chan q).wake) := by
  obtain ⟨-, rfl⟩ | ⟨-, rfl⟩ | ⟨-, -, rfl⟩ := closeStep_cases h
  · exact ⟨rfl, .inl rfl⟩
  · exact ⟨rfl, .inr rfl⟩
  · exact ⟨rfl, .inl rfl⟩

/-! ## Mutual exclusion -/

/-- The call of `p` is on the channel `q`, between taking its mutex and releasing it. -/
def State.Holds (s : State P α) (p : P) (q : Chan) : Prop :=
  ∃ c, s.call p = some c ∧ c.chan = q ∧ c.pc.holds = true

/-- A mutex has as its owner the one thread that is between taking and releasing it. -/
structure LockInv (s : State P α) : Prop where
  producer (p : P) (q : Chan) : s.Holds p q ↔ (s.chan q).owner = some (.producer p)
  worker (q : Chan) : (s.chan q).worker.holds = true ↔ (s.chan q).owner = some .worker

theorem holds_congr {s s' : State P α} {p : P} (h : s'.call p = s.call p) (q : Chan) :
    s'.Holds p q ↔ s.Holds p q := by
  simp only [State.Holds, h]

@[simp] theorem holds_setChan {s : State P α} {q' : Chan} {c : Channel P α} {p : P} {q : Chan} :
    (s.setChan q' c).Holds p q ↔ s.Holds p q := Iff.rfl

theorem holds_of_call {s : State P α} {p : P} {c : QueueCall α} (h : s.call p = some c) (q : Chan) :
    s.Holds p q ↔ c.chan = q ∧ c.pc.holds = true := by
  simp [State.Holds, h]

/-- A mutex nobody owns is held by nobody. -/
theorem LockInv.not_holds {s : State P α} (hI : LockInv s) {q : Chan}
    (h : (s.chan q).owner = none) (p : P) : ¬ s.Holds p q := by
  rw [hI.producer, h]; nofun

/-- Only one producer holds a mutex. -/
theorem LockInv.holds_unique {s : State P α} (hI : LockInv s) {p p' : P} {q : Chan}
    (h : s.Holds p q) (h' : s.Holds p' q) : p' = p := by
  rw [hI.producer] at h h'
  simpa using h'.symm.trans h

/-- A producer and the worker do not both hold a mutex. -/
theorem LockInv.worker_not_holds {s : State P α} (hI : LockInv s) {p : P} {q : Chan}
    (h : s.Holds p q) : (s.chan q).worker.holds = false := by
  rw [hI.producer] at h
  rw [← Bool.not_eq_true, hI.worker, h]; nofun

/-- A step that neither takes nor releases a mutex. -/
theorem LockInv.keep {s s' : State P α} (hI : LockInv s)
    (hq : ∀ q, (s'.chan q).owner = (s.chan q).owner ∧
      (s'.chan q).worker.holds = (s.chan q).worker.holds)
    (hc : ∀ p q, s'.Holds p q ↔ s.Holds p q) : LockInv s' where
  producer p q := by rw [hc, (hq q).1]; exact hI.producer p q
  worker q := by rw [(hq q).1, (hq q).2]; exact hI.worker q

/-- What a worker's step does to its mutex. -/
theorem work_lock {exit : Bool} {o : Outcome} {c c' : Channel P α} (h : c.work exit o = some c') :
    (c'.owner = c.owner ∧ c'.worker.holds = c.worker.holds) ∨
    (c.owner = none ∧ c'.owner = some .worker ∧ c'.worker.holds = true) ∨
    (c.worker.holds = true ∧ c'.owner = none ∧ c'.worker.holds = false) := by
  unfold Channel.work at h
  split at h
  case h_2 | h_3 =>
    split at h <;> cases h
    rename_i ho
    exact .inr (.inl ⟨ho, rfl, rfl⟩)
  case h_6 e | h_10 n e => cases h; exact .inr (.inr ⟨by rw [e]; rfl, rfl, rfl⟩)
  all_goals rename_i e
  all_goals (repeat' split at h) <;> cases h
  all_goals exact .inl ⟨rfl, by rw [e]; rfl⟩

theorem lockInv_workStep {s s' : State P α} (hI : LockInv s) {q : Chan} {o : Outcome}
    (h : workStep q o s = some s') : LockInv s' := by
  obtain ⟨c, hc, he, hs, hne⟩ := workStep_eq_some h
  have hh : ∀ p q', s'.Holds p q' ↔ s.Holds p q' := fun p q' => holds_congr (congrFun hs p) q'
  have hne' : ∀ q', q' ≠ q → (s'.chan q').owner = (s.chan q').owner ∧
      (s'.chan q').worker.holds = (s.chan q').worker.holds := fun q' hq => by
    obtain e | e := hne q' hq <;> simp [e]
  constructor
  · intro p q'
    rw [hh]
    by_cases hq : q' = q
    · subst hq
      rw [he]
      obtain ⟨ho, -⟩ | ⟨hn, ho, -⟩ | ⟨hw, ho, -⟩ := work_lock hc
      · rw [ho]; exact hI.producer p q'
      · simp [ho, hI.not_holds hn]
      · have := (hI.worker q').mp hw
        simp [ho, hI.producer, this]
    · rw [(hne' q' hq).1]; exact hI.producer p q'
  · intro q'
    by_cases hq : q' = q
    · subst hq
      rw [he]
      obtain ⟨ho, hw⟩ | ⟨-, ho, hw⟩ | ⟨-, ho, hw⟩ := work_lock hc
      · rw [ho, hw]; exact hI.worker q'
      · simp [ho, hw]
      · simp [ho, hw]
    · rw [(hne' q' hq).1, (hne' q' hq).2]; exact hI.worker q'

variable [DecidableEq P]

@[simp] theorem setCall_self (s : State P α) (p : P) (c : Option (QueueCall α)) :
    (s.setCall p c).call p = c := by
  simp [State.setCall]

@[simp] theorem setCall_of_ne (s : State P α) {p p' : P} (c : Option (QueueCall α)) (h : p' ≠ p) :
    (s.setCall p c).call p' = s.call p' := by
  simp [State.setCall, h]

@[simp] theorem setCall_chan (s : State P α) (p : P) (c : Option (QueueCall α)) :
    (s.setCall p c).chan = s.chan := rfl

theorem holds_setCall_of_ne {s : State P α} {p p' : P} (c : Option (QueueCall α)) (h : p' ≠ p)
    (q : Chan) : (s.setCall p c).Holds p' q ↔ s.Holds p' q :=
  holds_congr (setCall_of_ne _ _ h) q

theorem acquire_eq_some {s s' : State P α} {p : P} {c : QueueCall α} {pc : QueuePc}
    (h : s.acquire p c pc = some s') :
    (s.chan c.chan).owner = none ∧
      s' = (s.setChan c.chan { s.chan c.chan with owner := some (.producer p) }).setCall p
        (some { c with pc }) := by
  unfold State.acquire at h
  split at h <;> cases h
  exact ⟨‹_›, rfl⟩

theorem queueStep_chan {s s' : State P α} {p : P} {o : Outcome} {c : QueueCall α}
    (hc : s.call p = some c) (h : queueStep queueSize p o c s = some s') (q : Chan) :
    ChanStep s q (s'.chan q) := by
  unfold queueStep at h
  split at h
  case h_1 | h_8 =>
    obtain ⟨ho, rfl⟩ := acquire_eq_some h
    exact (ChanStep.acquire p ho).setChan q
  case h_2 | h_5 | h_6 | h_7 => cases h; exact .same
  case h_3 e | h_10 e => cases h; exact (ChanStep.release p c hc rfl (by rw [e]; rfl)).setChan q
  case h_4 =>
    obtain ⟨s₁, h₁, rfl⟩ := Option.map_eq_some_iff.mp h
    exact notifyOne_chan h₁ q
  case h_9 e =>
    split at h <;> cases h
    · exact (ChanStep.append p c hc rfl e).setChan q
    · exact (ChanStep.release p c hc rfl (by rw [e]; rfl)).setChan q
  case h_11 => cases h; exact .wake

theorem push_eq_some {p : P} {q : Chan} {e : α} {s s' : State P α}
    (h : step queueSize (.push p q e) s = some s') :
    s.call p = none ∧ s' = s.setCall p (some { chan := q, e }) := by
  simp only [step] at h
  split at h
  · exact ⟨‹_›, (Option.some.inj h).symm⟩
  · cases h

theorem spurious_eq_some {q : Chan} {s s' : State P α}
    (h : step queueSize (.spurious q) s = some s') :
    (s.chan q).worker = .blocked ∧ s' = s.setChan q (s.chan q).wake := by
  simp only [step] at h
  split at h
  · exact ⟨‹_›, (Option.some.inj h).symm⟩
  · cases h

/-- What a step does to a channel. -/
theorem step_chan {a : Act P α} {s s' : State P α} (h : step queueSize a s = some s') (q : Chan) :
    ChanStep s q (s'.chan q) := by
  cases a with
  | push p q' e =>
    obtain ⟨-, rfl⟩ := push_eq_some h
    exact .same
  | produce p o =>
    obtain ⟨c, hc, h⟩ := Option.bind_eq_some_iff.mp h
    exact queueStep_chan hc h q
  | work q' o => exact workStep_chan h q
  | spurious q' =>
    obtain ⟨-, rfl⟩ := spurious_eq_some h
    exact ChanStep.wake.setChan q
  | close =>
    obtain ⟨-, e | e⟩ := closeStep_chan h q <;> rw [e]
    · exact .same
    · exact .wake

/-- The producers and the workers leave `exit` and its history alone, and
the closing thread writes them once. -/
theorem step_exit {a : Act P α} {s s' : State P α} (h : step queueSize a s = some s') :
    (s'.exit = s.exit ∧ s'.beforeExit = s.beforeExit ∧ s'.closer = s.closer) ∨
    a = .close ∧ closeStep s = some s' := by
  cases a with
  | close => exact .inr ⟨rfl, h⟩
  | push p q e =>
    obtain ⟨-, rfl⟩ := push_eq_some h
    exact .inl ⟨rfl, rfl, rfl⟩
  | spurious q =>
    obtain ⟨-, rfl⟩ := spurious_eq_some h
    exact .inl ⟨rfl, rfl, rfl⟩
  | work q o =>
    obtain ⟨c, -, rfl⟩ := Option.map_eq_some_iff.mp h
    split <;> exact .inl ⟨rfl, rfl, rfl⟩
  | produce p o =>
    obtain ⟨c, -, h⟩ := Option.bind_eq_some_iff.mp h
    unfold queueStep at h
    left
    split at h
    case h_1 | h_8 => obtain ⟨-, rfl⟩ := acquire_eq_some h; exact ⟨rfl, rfl, rfl⟩
    case h_4 =>
      obtain ⟨s₁, h₁, rfl⟩ := Option.map_eq_some_iff.mp h
      obtain rfl | ⟨q, rfl⟩ := notifyOne_eq_some h₁ <;> exact ⟨rfl, rfl, rfl⟩
    case h_9 => split at h <;> cases h <;> exact ⟨rfl, rfl, rfl⟩
    all_goals cases h; exact ⟨rfl, rfl, rfl⟩

/-! ### Mutual exclusion is kept -/

theorem LockInv.take {s : State P α} (hI : LockInv s) {p : P} {c : QueueCall α} {pc : QueuePc}
    (hc : s.call p = some c) (hpc : pc.holds = true) (ho : (s.chan c.chan).owner = none) :
    LockInv ((s.setChan c.chan { s.chan c.chan with owner := some (.producer p) }).setCall p
      (some { c with pc })) where
  producer p' q := by
    by_cases hp : p' = p
    · subst hp
      rw [holds_of_call (setCall_self ..), setCall_chan]
      by_cases hq : q = c.chan
      · subst hq; simp [hpc]
      · have hn := (not_congr (hI.producer p' q)).mp (by simp [holds_of_call hc, Ne.symm hq])
        simp [hq, Ne.symm hq, hn]
    · rw [holds_setCall_of_ne _ hp, holds_setChan, setCall_chan]
      by_cases hq : q = c.chan
      · subst hq; simp [hI.not_holds ho, Ne.symm hp]
      · rw [setChan_of_ne _ _ hq]; exact hI.producer p' q
  worker q := by
    rw [setCall_chan]
    by_cases hq : q = c.chan
    · subst hq; rw [setChan_self, hI.worker, ho]; simp
    · rw [setChan_of_ne _ _ hq]; exact hI.worker q

theorem LockInv.drop {s : State P α} (hI : LockInv s) {p : P} {c : QueueCall α}
    (hc : s.call p = some c) (hpc : c.pc.holds = true) {d : Option (QueueCall α)}
    (hd : ∀ c', d = some c' → c'.pc.holds = false) :
    LockInv ((s.release c.chan).setCall p d) where
  producer p' q := by
    rw [setCall_chan, State.release]
    by_cases hp : p' = p
    · subst hp
      have hn : ¬ ((s.release c.chan).setCall p' d).Holds p' q := by
        rintro ⟨c', h₁, -, h₂⟩
        rw [setCall_self] at h₁
        rw [hd c' h₁] at h₂; cases h₂
      by_cases hq : q = c.chan
      · subst hq; simpa [State.release] using hn
      · have := (not_congr (hI.producer p' q)).mp (by simp [holds_of_call hc, Ne.symm hq])
        simpa [State.release, hq, this] using hn
    · rw [holds_setCall_of_ne _ hp, holds_setChan]
      by_cases hq : q = c.chan
      · subst hq
        have := fun h => hp (hI.holds_unique ((holds_of_call hc _).mpr ⟨rfl, hpc⟩) h)
        simpa using this
      · rw [setChan_of_ne _ _ hq]; exact hI.producer p' q
  worker q := by
    rw [setCall_chan, State.release]
    by_cases hq : q = c.chan
    · subst hq
      have := hI.worker_not_holds ((holds_of_call hc _).mpr ⟨rfl, hpc⟩)
      simp [this]
    · rw [setChan_of_ne _ _ hq]; exact hI.worker q

/-- A producer goes on without taking or releasing a mutex. -/
theorem LockInv.goto {s s₁ : State P α} (hI : LockInv s) {p : P} {c c' : QueueCall α}
    (hc : s.call p = some c) (hs : s₁.call = s.call)
    (hq : ∀ q, (s₁.chan q).owner = (s.chan q).owner ∧
      (s₁.chan q).worker.holds = (s.chan q).worker.holds)
    (hn : c'.chan = c.chan) (hh : c'.pc.holds = c.pc.holds) : LockInv (s₁.setCall p (some c')) := by
  refine hI.keep hq fun p' q => ?_
  by_cases hp : p' = p
  · subst hp; rw [holds_of_call (setCall_self ..), holds_of_call hc, hn, hh]
  · exact (holds_setCall_of_ne _ hp q).trans (holds_congr (congrFun hs p') q)

/-- A call that holds no mutex begins or ends. -/
theorem LockInv.replace {s s₁ : State P α} (hI : LockInv s) {p : P} {d : Option (QueueCall α)}
    (hc : ∀ c, s.call p = some c → c.pc.holds = false) (hd : ∀ c, d = some c → c.pc.holds = false)
    (hs : s₁.call = s.call)
    (hq : ∀ q, (s₁.chan q).owner = (s.chan q).owner ∧
      (s₁.chan q).worker.holds = (s.chan q).worker.holds) : LockInv (s₁.setCall p d) := by
  refine hI.keep hq fun p' q => ?_
  by_cases hp : p' = p
  · subst hp
    refine iff_of_false ?_ ?_
    · rintro ⟨c, h₁, -, h₂⟩
      rw [setCall_self] at h₁
      rw [hd c h₁] at h₂; cases h₂
    · rintro ⟨c, h₁, -, h₂⟩
      rw [hc c h₁] at h₂; cases h₂
  · exact (holds_setCall_of_ne _ hp q).trans (holds_congr (congrFun hs p') q)

theorem lockInv_queueStep {s s' : State P α} (hI : LockInv s) {p : P} {o : Outcome}
    {c : QueueCall α} (hc : s.call p = some c) (h : queueStep queueSize p o c s = some s') :
    LockInv s' := by
  unfold queueStep at h
  split at h
  case h_1 => obtain ⟨ho, rfl⟩ := acquire_eq_some h; exact hI.take hc rfl ho
  case h_8 => obtain ⟨ho, rfl⟩ := acquire_eq_some h; exact hI.take hc rfl ho
  case h_2 e =>
    cases h
    refine hI.goto hc rfl (fun _ => ⟨rfl, rfl⟩) rfl ?_
    rw [e]; dsimp only; split <;> rfl
  case h_3 e =>
    cases h
    exact hI.drop hc (by rw [e]; rfl) fun _ h => by cases h; rfl
  case h_4 e =>
    obtain ⟨s₁, h₁, rfl⟩ := Option.map_eq_some_iff.mp h
    have hs : s₁.call = s.call := by
      obtain rfl | ⟨q, rfl⟩ := notifyOne_eq_some h₁ <;> rfl
    refine hI.goto hc hs (fun q => ?_) rfl (by rw [e]; rfl)
    obtain rfl | ⟨q', rfl⟩ := notifyOne_eq_some h₁
    · exact ⟨rfl, rfl⟩
    · by_cases hq : q = q'
      · subst hq; simp
      · simp [hq]
  case h_5 e =>
    cases h
    refine hI.goto hc rfl (fun _ => ⟨rfl, rfl⟩) ?_ (by rw [e]; rfl)
    unfold QueueCall.measure
    split
    · rfl
    · split <;> rfl
  case h_6 e | h_7 e => cases h; exact hI.goto hc rfl (fun _ => ⟨rfl, rfl⟩) rfl (by rw [e]; rfl)
  case h_9 e =>
    split at h <;> cases h
    · refine hI.goto hc rfl (fun q => ?_) rfl (by rw [e]; rfl)
      by_cases hq : q = c.chan
      · subst hq; simp
      · simp [hq]
    · exact hI.drop hc (by rw [e]; rfl) nofun
  case h_10 e =>
    cases h
    exact hI.drop hc (by rw [e]; rfl) fun _ h => by cases h; rfl
  case h_11 e =>
    cases h
    refine hI.replace (p := p) (fun c' h => ?_) nofun rfl fun q => by simp
    cases hc.symm.trans h; rw [e]; rfl

theorem lockInv_step {a : Act P α} {s s' : State P α} (hI : LockInv s)
    (h : step queueSize a s = some s') : LockInv s' := by
  cases a with
  | push p q e =>
    obtain ⟨hn, rfl⟩ := push_eq_some h
    exact hI.replace (fun c h => by cases hn.symm.trans h) (fun c h => by cases h; rfl) rfl
      fun _ => ⟨rfl, rfl⟩
  | produce p o =>
    obtain ⟨c, hc, h⟩ := Option.bind_eq_some_iff.mp h
    exact lockInv_queueStep hI hc h
  | work q o => exact lockInv_workStep hI h
  | spurious q =>
    obtain ⟨-, rfl⟩ := spurious_eq_some h
    refine hI.keep (fun q' => ?_) fun _ _ => Iff.rfl
    by_cases hq : q' = q
    · subst hq; simp
    · simp [hq]
  | close =>
    refine hI.keep (fun q => ?_) fun p q => holds_congr (congrFun (closeStep_chan h q).1 p) q
    obtain ⟨-, e | e⟩ := closeStep_chan h q <;> simp [e]

theorem lockInv_init : LockInv (consumer P α queueSize).init :=
  ⟨fun p q => by simp [State.Holds, consumer], fun q => by simp [consumer, WorkerPc.holds]⟩

/-- Mutual exclusion, in every run. -/
theorem lockInv {ok : Act P α → State P α → Prop} {s : State P α}
    (h : (consumer P α queueSize).Reach ok s) : LockInv s :=
  h.inv (I := LockInv) lockInv_init fun _ _ _ hI _ hs => lockInv_step hI hs

end SqlDb.Consumer
