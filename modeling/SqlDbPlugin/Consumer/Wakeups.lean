import SqlDbPlugin.Consumer.Steps

/-!
# Wake-ups

A worker that goes to sleep has found its queue empty under the mutex it
gives up in `wait`, so whatever is in the queue later was appended after it
was blocked, and the `notify_all` that follows each append finds it there
(`push_announced`). The store of `exit` is made without a mutex: a worker
that has tested `exit` and is about to wait misses the `notify_all` of the
closing thread. `NotifyOk` is the condition that there is no such worker,
and `shutdown_wakes` is what the closing thread then achieves.
-/

namespace SqlDb.Consumer

variable {P α : Type} {queueSize : Nat}

/-! ## The queues -/

/-- The positions of `consumer::queue` between the append and its `notify_all`. -/
def QueuePc.announcing : QueuePc → Bool
  | .unlock | .notifyAll => true
  | _ => false

/-- A producer has appended to the channel and not yet issued the `notify_all` that follows. -/
def Announced (s : State P α) (q : Chan) : Prop :=
  ∃ p c, s.call p = some c ∧ c.chan = q ∧ c.pc.announcing = true

/-- The positions of a worker between its test of the queue, which was
empty, and the wait. -/
def WorkerPc.foundEmpty : WorkerPc → Bool
  | .testExit | .wait => true
  | _ => false

theorem WorkerPc.holds_of_foundEmpty {w : WorkerPc} (h : w.foundEmpty = true) : w.holds = true := by
  cases w <;> first | rfl | cases h

/-- A worker about to wait has an empty queue, and so has a blocked one,
unless a `notify_all` is on its way. -/
structure AwakeInv (s : State P α) : Prop where
  empty (q : Chan) : (s.chan q).worker.foundEmpty = true → (s.chan q).queue = []
  asleep (q : Chan) : (s.chan q).worker = .blocked → (s.chan q).queue ≠ [] → Announced s q

/-- A worker comes to its wait, and to be blocked in it, with an empty queue only. -/
theorem work_asleep {exit : Bool} {o : Outcome} {c c' : Channel P α}
    (hc : c.worker.foundEmpty = true → c.queue = []) (h : c.work exit o = some c') :
    (c'.worker.foundEmpty = true → c'.queue = []) ∧ (c'.worker = .blocked → c'.queue = []) := by
  unfold Channel.work at h
  split at h
  all_goals rename_i e
  all_goals simp only [e, WorkerPc.foundEmpty, Bool.false_eq_true, false_implies, forall_const] at hc
  case h_4 =>
    cases h
    by_cases hq : c.queue = []
    · exact ⟨fun _ => hq, fun _ => hq⟩
    · simp [hq, WorkerPc.foundEmpty]
  case h_5 | h_6 => cases h; exact ⟨fun _ => hc, fun _ => hc⟩
  all_goals (repeat' split at h) <;> cases h
  all_goals exact ⟨nofun, nofun⟩

/-- A step that keeps the queues, may wake workers, and keeps what is announced. -/
theorem AwakeInv.keep {s s' : State P α} (h : AwakeInv s)
    (hq : ∀ q, (s'.chan q).queue = (s.chan q).queue ∧
      ((s'.chan q).worker = (s.chan q).worker ∨ (s'.chan q).worker = .woken))
    (ha : ∀ q, Announced s q → Announced s' q) : AwakeInv s' where
  empty q hw := by
    rw [(hq q).1]
    obtain e | e := (hq q).2 <;> rw [e] at hw
    · exact h.empty q hw
    · cases hw
  asleep q hw hne := by
    rw [(hq q).1] at hne
    obtain e | e := (hq q).2 <;> rw [e] at hw
    · exact ha q (h.asleep q hw hne)
    · cases hw

theorem wake_worker (c : Channel P α) : c.wake.worker = c.worker ∨ c.wake.worker = .woken := by
  unfold Channel.wake
  split
  · exact .inr rfl
  · exact .inl rfl

theorem wake_not_blocked (c : Channel P α) : c.wake.worker ≠ .blocked := by
  unfold Channel.wake
  split
  · nofun
  · assumption

/-- After a `notify_all` nobody is blocked. -/
theorem AwakeInv.notifyAll {s s' : State P α} (h : AwakeInv s) (hc : s'.chan = s.notifyAll.chan) :
    AwakeInv s' where
  empty q hw := by
    rw [hc, notifyAll_chan, wake_queue]
    rw [hc, notifyAll_chan] at hw
    obtain e | e := wake_worker (s.chan q) <;> rw [e] at hw
    · exact h.empty q hw
    · cases hw
  asleep q hw := by
    rw [hc, notifyAll_chan] at hw
    exact absurd hw (wake_not_blocked _)

theorem setChan_keep {s : State P α} {q : Chan} {c : Channel P α} (hq : c.queue = (s.chan q).queue)
    (hw : c.worker = (s.chan q).worker ∨ c.worker = .woken) (q' : Chan) :
    ((s.setChan q c).chan q').queue = (s.chan q').queue ∧
      (((s.setChan q c).chan q').worker = (s.chan q').worker ∨ ((s.setChan q c).chan q').worker = .woken) := by
  by_cases h : q' = q
  · subst h; rw [setChan_self]; exact ⟨hq, hw⟩
  · rw [setChan_of_ne _ _ h]; exact ⟨rfl, .inl rfl⟩

variable [DecidableEq P]

/-- The call of `p` goes on or ends, and what it has announced stays announced. -/
theorem Announced.setCall {s s₁ : State P α} {p : P} {d : Option (QueueCall α)}
    (hs : s₁.call = s.call)
    (hd : ∀ c, s.call p = some c → c.pc.announcing = true →
      ∃ c', d = some c' ∧ c'.chan = c.chan ∧ c'.pc.announcing = true)
    (q : Chan) (h : Announced s q) : Announced (s₁.setCall p d) q := by
  obtain ⟨p', c, hc, hq, ha⟩ := h
  by_cases hp : p' = p
  · subst hp
    obtain ⟨c', rfl, hq', ha'⟩ := hd c hc ha
    exact ⟨p', c', setCall_self .., hq'.trans hq, ha'⟩
  · exact ⟨p', c, by rw [setCall_of_ne _ _ hp, hs, hc], hq, ha⟩

/-- A call that has announced nothing goes on. -/
theorem AwakeInv.goto {s s₁ : State P α} (h : AwakeInv s) {p : P} {c : QueueCall α}
    {d : Option (QueueCall α)} (hc : s.call p = some c) (hpc : c.pc.announcing = false)
    (hs : s₁.call = s.call)
    (hq : ∀ q, (s₁.chan q).queue = (s.chan q).queue ∧
      ((s₁.chan q).worker = (s.chan q).worker ∨ (s₁.chan q).worker = .woken)) :
    AwakeInv (s₁.setCall p d) := by
  refine h.keep hq (Announced.setCall hs fun c' hc' ha => ?_)
  cases hc.symm.trans hc'
  rw [hpc] at ha; cases ha

/-- A producer that appends holds the mutex, so the worker is not between
its test and the wait; if it is blocked, the append is announced. -/
theorem AwakeInv.append {s : State P α} (hl : LockInv s) (h : AwakeInv s) {p : P} {c d : QueueCall α}
    (hc : s.call p = some c) (hp : c.pc = .append) (hd : d.chan = c.chan) (ha : d.pc.announcing = true) :
    AwakeInv ((s.setChan c.chan { s.chan c.chan with
      queue := (s.chan c.chan).queue ++ [c.e],
      appended := (s.chan c.chan).appended ++ [c.e] }).setCall p (some d)) where
  empty q hw := by
    rw [setCall_chan] at hw ⊢
    by_cases hq : q = c.chan
    · subst hq
      rw [setChan_self] at hw
      have hh := hl.worker_not_holds ((holds_of_call hc c.chan).mpr ⟨rfl, by rw [hp]; rfl⟩)
      rw [WorkerPc.holds_of_foundEmpty hw] at hh
      cases hh
    · rw [setChan_of_ne _ _ hq] at hw ⊢; exact h.empty q hw
  asleep q hw hne := by
    rw [setCall_chan] at hw hne
    by_cases hq : q = c.chan
    · subst hq; exact ⟨p, d, setCall_self .., hd, ha⟩
    · rw [setChan_of_ne _ _ hq] at hw hne
      refine Announced.setCall rfl (fun c' hc' ha' => ?_) q (h.asleep q hw hne)
      cases hc.symm.trans hc'
      exact ⟨d, rfl, hd, ha⟩

theorem awake_queueStep {s s' : State P α} (hl : LockInv s) (h : AwakeInv s) {p : P} {o : Outcome}
    {c : QueueCall α} (hc : s.call p = some c) (hs : queueStep queueSize p o c s = some s') :
    AwakeInv s' := by
  have hsame (q : Chan) : (s.chan q).queue = (s.chan q).queue ∧
    ((s.chan q).worker = (s.chan q).worker ∨ (s.chan q).worker = .woken) := ⟨rfl, .inl rfl⟩
  unfold queueStep at hs
  split at hs
  all_goals rename_i e
  case h_1 | h_8 =>
    obtain ⟨-, rfl⟩ := acquire_eq_some hs
    exact h.goto hc (by rw [e]; rfl) rfl (setChan_keep rfl (.inl rfl))
  case h_3 => cases hs; exact h.goto hc (by rw [e]; rfl) rfl (setChan_keep rfl (.inl rfl))
  case h_4 =>
    obtain ⟨s₁, h₁, rfl⟩ := Option.map_eq_some_iff.mp hs
    obtain rfl | ⟨q, rfl⟩ := notifyOne_eq_some h₁
    · exact h.goto hc (by rw [e]; rfl) rfl hsame
    · exact h.goto hc (by rw [e]; rfl) rfl (setChan_keep (wake_queue _) (wake_worker _))
  case h_9 =>
    split at hs <;> cases hs
    · exact h.append hl hc e rfl rfl
    · exact h.goto hc (by rw [e]; rfl) rfl (setChan_keep rfl (.inl rfl))
  case h_10 =>
    -- the mutex is released with the `notify_all` still ahead
    cases hs
    refine h.keep (setChan_keep rfl (.inl rfl)) (Announced.setCall rfl fun c' hc' _ => ?_)
    cases hc.symm.trans hc'
    exact ⟨_, rfl, rfl, rfl⟩
  case h_11 => cases hs; exact h.notifyAll rfl
  all_goals cases hs; exact h.goto hc (by rw [e]; rfl) rfl hsame

theorem awake_step {a : Act P α} {s s' : State P α} (hl : LockInv s) (h : AwakeInv s)
    (hs : step queueSize a s = some s') : AwakeInv s' := by
  cases a with
  | push p q e =>
    obtain ⟨hn, rfl⟩ := push_eq_some hs
    refine h.keep (fun q => ⟨rfl, .inl rfl⟩) (Announced.setCall rfl fun c hc _ => ?_)
    cases hn.symm.trans hc
  | produce p o =>
    obtain ⟨c, hc, hs⟩ := Option.bind_eq_some_iff.mp hs
    exact awake_queueStep hl h hc hs
  | work q o =>
    obtain ⟨c, hw, he, hcall, hne⟩ := workStep_eq_some hs
    have hwork := work_asleep (h.empty q) hw
    have hann (q' : Chan) (ha : Announced s q') : Announced s' q' := by
      rwa [Announced, hcall]
    constructor
    · intro q' hq
      by_cases hqq : q' = q
      · subst hqq; rw [he] at hq ⊢; exact hwork.1 hq
      · obtain e | e := hne q' hqq <;> rw [e] at hq ⊢
        · exact h.empty q' hq
        · rw [wake_queue]
          obtain e' | e' := wake_worker (s.chan q') <;> rw [e'] at hq
          · exact h.empty q' hq
          · cases hq
    · intro q' hq hqe
      by_cases hqq : q' = q
      · subst hqq; rw [he] at hq hqe; exact absurd (hwork.2 hq) hqe
      · obtain e | e := hne q' hqq <;> rw [e] at hq hqe
        · exact hann q' (h.asleep q' hq hqe)
        · exact absurd hq (wake_not_blocked _)
  | spurious q =>
    obtain ⟨-, rfl⟩ := spurious_eq_some hs
    exact h.keep (setChan_keep (wake_queue _) (wake_worker _)) fun _ ha => ha
  | close =>
    refine h.keep (fun q => ?_) fun q ha => ?_
    · obtain ⟨-, e | e⟩ := closeStep_chan hs q <;> rw [e]
      · exact ⟨rfl, .inl rfl⟩
      · exact ⟨wake_queue _, wake_worker _⟩
    · rwa [Announced, (closeStep_chan hs q).1]

theorem awakeInv {ok : Act P α → State P α → Prop} {s : State P α}
    (h : (consumer P α queueSize).Reach ok s) : AwakeInv s :=
  h.inv_of (I := AwakeInv) (J := LockInv) (fun _ => lockInv)
    ⟨fun _ _ => rfl, fun _ h => by cases h⟩ fun _ _ _ hl hI _ hs => awake_step hl hI hs

/-- In every reachable state, for any producers, whichever worker each
notification has woken: if a worker is blocked and its queue is not empty,
a producer has appended to it and not yet issued the `notify_all` that
follows its append. -/
theorem push_announced {s : State P α} (h : (consumer P α queueSize).Reachable s) {q : Chan}
    (hb : (s.chan q).worker = .blocked) (hq : (s.chan q).queue ≠ []) :
    ∃ p c, s.call p = some c ∧ c.chan = q ∧ (c.pc = .unlock ∨ c.pc = .notifyAll) := by
  obtain ⟨p, c, hc, hcq, ha⟩ := (awakeInv h).asleep q hb hq
  refine ⟨p, c, hc, hcq, ?_⟩
  cases hp : c.pc <;> rw [hp] at ha <;> first | exact .inl rfl | exact .inr rfl | cases ha

/-- The steps of a worker with an empty queue from the head of its loop to its wait. -/
def toWait (q : Chan) : List (Act P α) := List.replicate 4 (.work q .returns)

/-- A trace is appended while `run_traces` is blocked: its producer still has to notify. -/
theorem push_announced_run : ∃ s, (consumer Unit Nat 5000).Reachable s ∧
    ((s.chan .traces).worker = .blocked ∧ (s.chan .traces).queue = [1]) ∧
    ∃ p c, s.call p = some c ∧ c.chan = .traces ∧ (c.pc = .unlock ∨ c.pc = .notifyAll) := by
  obtain ⟨s, hs, hp⟩ := Machine.reach_of_run (M := consumer Unit Nat 5000) (fun _ _ => True)
    (p := fun s => (s.chan .traces).worker == .blocked && (s.chan .traces).queue == [1])
    (toWait .traces ++ [.work .traces .returns, .push () .traces 1] ++
      List.replicate 3 (.produce () .returns)) (by decide)
  simp only [Bool.and_eq_true, beq_iff_eq] at hp
  exact ⟨s, hs, hp, push_announced hs hp.1 (by rw [hp.2]; nofun)⟩

/-! ## `exit` -/

/-- The closing thread issues its `notify_all` when no worker is between
its test of `exit` and the wait. -/
def NotifyOk : Act P α → State P α → Prop
  | .close, s => s.closer = .notifyAll → ∀ q, (s.chan q).worker ≠ .wait
  | _, _ => True

/-- The positions of a worker that will issue its `notify_all` in this turn
of its loop without being woken. -/
def WorkerPc.notifies : WorkerPc → Bool
  | .loop | .wait | .blocked | .done => false
  | _ => true

/-- `exit` is set and the `notify_all` of the closing thread issued, no
thread has another notification to issue, nor is one on its way to a worker,
and a worker is blocked. -/
structure Stranded (s : State P α) : Prop where
  exit : s.exit = true
  notified : s.closer = .join ∨ s.closer = .returned
  idle : ∀ p, s.call p = none
  quiet : ∀ q, (s.chan q).worker.notifies = false
  blocked : ∃ q, (s.chan q).worker = .blocked

/-- Behind the `notify_all` of the closing thread no worker is blocked or about to be. -/
structure ExitInv (s : State P α) : Prop where
  exit : s.closer ≠ .setExit → s.exit = true
  awake : s.closer = .join ∨ s.closer = .returned →
    ∀ q, (s.chan q).worker ≠ .wait ∧ (s.chan q).worker ≠ .blocked

omit [DecidableEq P] in
/-- A worker that reads `exit` set does not wait. -/
theorem work_exit {o : Outcome} {c c' : Channel P α} (h : c.work true o = some c')
    (hw : c.worker ≠ .wait) : c'.worker ≠ .wait ∧ c'.worker ≠ .blocked := by
  unfold Channel.work at h
  split at h
  case h_6 e => exact absurd e hw
  case h_4 => cases h; dsimp only; split <;> simp
  case h_5 => cases h; simp
  all_goals (repeat' split at h) <;> cases h
  all_goals simp

omit [DecidableEq P] in
theorem ChanStep.exit {s : State P α} {q : Chan} {c : Channel P α} (h : ChanStep s q c)
    (he : s.exit = true) (hw : (s.chan q).worker ≠ .wait ∧ (s.chan q).worker ≠ .blocked) :
    c.worker ≠ .wait ∧ c.worker ≠ .blocked := by
  cases h with
  | wake => rw [wake_of_ne hw.2]; exact hw
  | work o hc => rw [he] at hc; exact work_exit hc hw.1
  | _ => exact hw

theorem exit_step {a : Act P α} {s s' : State P α} (h : ExitInv s) (ok : NotifyOk a s)
    (hs : step queueSize a s = some s') : ExitInv s' := by
  obtain ⟨he, -, hc⟩ | ⟨rfl, hcl⟩ := step_exit hs
  · refine ⟨fun hn => ?_, fun hn q => ?_⟩
    · rw [he]; exact h.exit (hc ▸ hn)
    · rw [hc] at hn
      have hex := h.exit (by obtain e | e := hn <;> rw [e] <;> nofun)
      exact (step_chan hs q).exit hex (h.awake hn q)
  · obtain ⟨-, rfl⟩ | ⟨e, rfl⟩ | ⟨e, -, rfl⟩ := closeStep_cases hcl
    · exact ⟨fun _ => rfl, nofun⟩
    · refine ⟨fun _ => h.exit (by rw [e]; nofun), fun _ q => ⟨fun hw => ?_, wake_not_blocked _⟩⟩
      obtain e' | e' := wake_worker (s.chan q)
      · exact ok e q (e'.symm.trans hw)
      · cases e'.symm.trans hw
    · exact ⟨fun _ => h.exit (by rw [e]; nofun), fun _ => h.awake (.inl e)⟩

theorem exitInv {s : State P α} (h : (consumer P α queueSize).Reach NotifyOk s) : ExitInv s :=
  h.inv (I := ExitInv) ⟨fun h => absurd rfl h, fun h => by cases h <;> contradiction⟩
    fun _ _ _ hI ok hs => exit_step hI ok hs

/-- In every run in which the closing thread notifies when no worker is
between its test of `exit` and its wait, no worker is stranded: behind that
`notify_all` none is blocked, whoever else may still notify. -/
theorem shutdown_wakes {s : State P α} (h : (consumer P α queueSize).Reach NotifyOk s) :
    ¬ Stranded s := by
  intro hs
  obtain ⟨q, hq⟩ := hs.blocked
  exact ((exitInv h).awake hs.notified q).2 hq

/-- A worker at its wait does not see the `notify_all` of the closing thread: it blocks behind it. -/
theorem missed_notify {s s₁ s₂ : State P α} {q : Chan} {o : Outcome} (hc : s.closer = .notifyAll)
    (hw : (s.chan q).worker = .wait) (h₁ : step queueSize .close s = some s₁)
    (h₂ : step queueSize (.work q o) s₁ = some s₂) :
    s₂.closer = .join ∧ (s₂.chan q).worker = .blocked := by
  simp only [step, closeStep, hc, Option.some.injEq] at h₁
  subst h₁
  obtain ⟨-, -, hcl⟩ | ⟨h, -⟩ := step_exit h₂
  · refine ⟨hcl, ?_⟩
    obtain ⟨c, hwork, he, -⟩ := workStep_eq_some h₂
    simp only [notifyAll_chan, wake_of_ne (show (s.chan q).worker ≠ .blocked by simp [hw]),
      Channel.work, hw, Option.some.injEq] at hwork
    rw [he, ← hwork]
  · cases h

/-- `run_blocks` has found its queue empty and `exit` not set when `exit` is
set and notified: it waits, and `join` waits for it. -/
theorem shutdown_strands : ∃ s, (consumer Unit Nat 5000).Reachable s ∧ Stranded s ∧
    s.closer = .join ∧ (s.chan .blocks).worker = .blocked := by
  obtain ⟨s, hs, hp⟩ := Machine.reach_of_run (M := consumer Unit Nat 5000) (fun _ _ => True)
    (p := fun s => s.exit && (s.closer == .join && ((s.call ()).isNone &&
      ((s.chan .blocks).worker == .blocked && (s.chan .traces).worker == .loop))))
    (toWait .blocks ++ [.close, .close, .work .blocks .returns]) (by decide)
  simp only [Bool.and_eq_true, beq_iff_eq, Option.isNone_iff_eq_none] at hp
  obtain ⟨he, hj, hi, hb, ht⟩ := hp
  refine ⟨s, hs, ⟨he, .inl hj, fun _ => hi, fun q => ?_, .blocks, hb⟩, hj, hb⟩
  cases q with
  | blocks => rw [hb]; rfl
  | traces => rw [ht]; rfl

omit [DecidableEq P] in
theorem notifyOk_close (s : State P α) :
    (s.closer = .notifyAll → (s.chan .blocks).worker ≠ .wait ∧ (s.chan .traces).worker ≠ .wait) ↔
      NotifyOk .close s := by
  refine ⟨fun h hc q => ?_, fun h hc => ⟨h hc .blocks, h hc .traces⟩⟩
  cases q with
  | blocks => exact (h hc).1
  | traces => exact (h hc).2

instance : ∀ (a : Act P α) (s : State P α), Decidable (NotifyOk a s)
  | .close, s => decidable_of_iff _ (notifyOk_close s)
  | .push .., _ | .produce .., _ | .work .., _ | .spurious _, _ => .isTrue trivial

/-- The same, with `run_blocks` already blocked when `exit` is notified. -/
theorem shutdown_wakes_run : ∃ s, (consumer Unit Nat 5000).Reach NotifyOk s ∧
    (s.exit = true ∧ s.closer = .join) ∧ ¬ Stranded s := by
  obtain ⟨s, hs, hp⟩ := Machine.reach_of_run (M := consumer Unit Nat 5000) NotifyOk
    (p := fun s => s.exit && s.closer == .join)
    (toWait .blocks ++ [.work .blocks .returns, .close, .close]) (by decide)
  simp only [Bool.and_eq_true, beq_iff_eq] at hp
  exact ⟨s, hs, hp, shutdown_wakes hs⟩

end SqlDb.Consumer
