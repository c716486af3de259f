import SqlDbPlugin.Consumer.Shutdown
import SqlDbPlugin.Consumer.Wakeups
import SqlDbPlugin.Lib.Temporal

/-!
# Progress

What happens in an endless run whose threads are scheduled fairly. A mutex
comes free again and again (`mutex_freed`): whoever holds it has a few steps
to go and is never held up in between. So each call of `consumer::queue`
returns (`push_returns`).

Weak fairness is what a scheduler gives to a thread that is not blocked. A
thread that takes a mutex needs strong fairness: the mutex is free again and
again, but it need not stay free.
-/

namespace SqlDb.Consumer

open Machine

variable {P α : Type} {queueSize : Nat}

/-- The consumer is not closed. -/
def Running : Act P α → State P α → Prop
  | .close, _ => False
  | _, _ => True

instance : ∀ (a : Act P α) (s : State P α), Decidable (Running a s)
  | .close, _ => .isFalse id
  | .push .., _ | .produce .., _ | .work .., _ | .spurious _, _ => .isTrue trivial

/-- The thread of a producer, in its calls of `consumer::queue`. -/
def produces (p : P) : Act P α → Prop
  | .produce p' _ => p' = p
  | _ => False

/-- The thread of a worker. -/
def works (q : Chan) : Act P α → Prop
  | .work q' _ => q' = q
  | _ => False

theorem produces_iff {p : P} {a : Act P α} : produces p a ↔ ∃ o, a = .produce p o := by
  cases a <;> simp [produces]

theorem works_iff {q : Chan} {a : Act P α} : works q a ↔ ∃ o, a = .work q o := by
  cases a <;> simp [works]

/-- The steps a call of `consumer::queue` still has to take, at most. -/
def QueuePc.left : QueuePc → Nat
  | .lock => 11
  | .test => 10
  | .unlockFull => 9
  | .notifyOne => 8
  | .measure => 7
  | .remember => 6
  | .sleep => 5
  | .relock => 4
  | .append => 3
  | .unlock => 2
  | .notifyAll => 1

/-- A worker at the mutex: it is held up as long as somebody owns it. -/
def WorkerPc.locks : WorkerPc → Bool
  | .lock | .woken => true
  | _ => false

theorem WorkerPc.locks_of_holds {w : WorkerPc} (h : w.holds = true) : w.locks = false := by
  cases w <;> first | rfl | cases h

/-- The steps of a worker until it gives up the mutex, at most. -/
def WorkerPc.leftLocked : WorkerPc → Nat
  | .testEmpty => 5
  | .testExit => 4
  | .wait | .size => 3
  | .move _ => 2
  | .unlock _ => 1
  | _ => 0

/-! ## Who can go on -/

/-- `notify_one` comes back, having woken a worker if one is blocked. -/
theorem notifyOne_returns (s : State P α) : ∃ o, (s.notifyOne o).isSome = true := by
  by_cases hb : (s.chan .blocks).worker = .blocked
  · exact ⟨.wakes .blocks, by simp [State.notifyOne, hb]⟩
  by_cases ht : (s.chan .traces).worker = .blocked
  · exact ⟨.wakes .traces, by simp [State.notifyOne, ht]⟩
  · exact ⟨.returns, by simp [State.notifyOne, hb, ht]⟩

section Enabled

variable [DecidableEq P] {ok : Act P α → State P α → Prop} {s : State P α}

theorem works_enabled (hok : ∀ a s, Running a s → ok a s) {q : Chan} (hd : (s.chan q).worker ≠ .done)
    (hb : (s.chan q).worker ≠ .blocked)
    (hl : (s.chan q).worker.locks = true → (s.chan q).owner = none) :
    (consumer P α queueSize).Enabled ok (works q) s := by
  have hwork : ((s.chan q).work s.exit .returns).isSome = true := by
    unfold Channel.work
    split
    case h_7 e => exact absurd e hb
    case h_16 e => exact absurd e hd
    case h_2 e | h_3 e => rw [hl (by rw [e]; rfl)]; rfl
    case h_9 | h_12 => split <;> rfl
    all_goals rfl
  have hstep : (step queueSize (.work q .returns) s).isSome = true := by
    rw [step, workStep, Option.isSome_map, hwork]
  obtain ⟨s', hs⟩ := Option.isSome_iff_exists.mp hstep
  exact ⟨.work q .returns, s', rfl, hok _ _ trivial, hs⟩

/-- A producer that is not held up at its mutex can go on, without running out of memory. -/
theorem queueStep_goes {p : P} {c : QueueCall α}
    (hl : c.pc = .lock ∨ c.pc = .relock → (s.chan c.chan).owner = none) :
    ∃ o, o ≠ .throws ∧ (queueStep queueSize p o c s).isSome = true := by
  unfold queueStep
  split
  case h_1 e => exact ⟨.returns, nofun, by simp [State.acquire, hl (.inl e)]⟩
  case h_8 e => exact ⟨.returns, nofun, by simp [State.acquire, hl (.inr e)]⟩
  case h_4 =>
    obtain ⟨o, ho⟩ := notifyOne_returns s
    refine ⟨o, ?_, by rw [Option.isSome_map, ho]⟩
    rintro rfl
    cases ho
  all_goals exact ⟨.returns, nofun, rfl⟩

/-- A producer that goes on is not held up. -/
theorem owner_of_queueStep {s' : State P α} {p : P} {o : Outcome} {c : QueueCall α}
    (h : queueStep queueSize p o c s = some s') (hl : c.pc = .lock ∨ c.pc = .relock) :
    (s.chan c.chan).owner = none := by
  obtain e | e := hl <;> simp only [queueStep, e] at h <;> exact (acquire_eq_some h).1

theorem produces_enabled (hok : ∀ a s, Running a s → ok a s) {p : P} {c : QueueCall α}
    (hc : s.call p = some c)
    (hl : c.pc = .lock ∨ c.pc = .relock → (s.chan c.chan).owner = none) :
    (consumer P α queueSize).Enabled ok (produces p) s := by
  have hgoes : ∃ o, o ≠ .throws ∧ (queueStep queueSize p o c s).isSome = true := queueStep_goes hl
  obtain ⟨o, -, ho⟩ := hgoes
  obtain ⟨s', hs⟩ := Option.isSome_iff_exists.mp ho
  exact ⟨.produce p o, s', rfl, hok _ _ trivial, by simp [consumer, step, hc, hs]⟩

theorem not_produces_enabled {p : P} (hc : s.call p = none) :
    ¬ (consumer P α queueSize).Enabled ok (produces p) s := by
  rintro ⟨a, s', ha, -, hs⟩
  obtain ⟨o, rfl⟩ := produces_iff.mp ha
  simp [consumer, step, hc] at hs

theorem not_works_enabled {q : Chan} (hb : (s.chan q).worker = .blocked) :
    ¬ (consumer P α queueSize).Enabled ok (works q) s := by
  rintro ⟨a, s', ha, -, hs⟩
  obtain ⟨o, rfl⟩ := works_iff.mp ha
  simp [consumer, step, workStep, Channel.work, hb] at hs

end Enabled

/-! ## The steps of the others, and one's own -/

variable [DecidableEq P]

theorem queueStep_call {s s' : State P α} {p p' : P} {o : Outcome} {c : QueueCall α}
    (h : queueStep queueSize p o c s = some s') (hp : p' ≠ p) : s'.call p' = s.call p' := by
  unfold queueStep at h
  split at h
  case h_1 | h_8 => obtain ⟨-, rfl⟩ := acquire_eq_some h; exact setCall_of_ne _ _ hp
  case h_4 =>
    obtain ⟨s₁, h₁, rfl⟩ := Option.map_eq_some_iff.mp h
    obtain rfl | ⟨q, rfl⟩ := notifyOne_eq_some h₁ <;> exact setCall_of_ne _ _ hp
  case h_9 => split at h <;> cases h <;> exact setCall_of_ne _ _ hp
  all_goals cases h; exact setCall_of_ne _ _ hp

/-- The other threads leave a call where it is. -/
theorem step_call {a : Act P α} {s s' : State P α} (h : step queueSize a s = some s') {p : P}
    {c : QueueCall α} (hc : s.call p = some c) (ha : ¬ produces p a) : s'.call p = some c := by
  cases a with
  | push p' q e =>
    obtain ⟨hn, rfl⟩ := push_eq_some h
    have hp : p ≠ p' := by rintro rfl; cases hn.symm.trans hc
    rw [setCall_of_ne _ _ hp, hc]
  | produce p' o =>
    obtain ⟨c', -, h⟩ := Option.bind_eq_some_iff.mp h
    rw [queueStep_call h fun hp => ha hp.symm, hc]
  | work q o =>
    obtain ⟨-, -, -, hcall, -⟩ := workStep_eq_some h
    rw [hcall, hc]
  | spurious q =>
    obtain ⟨-, rfl⟩ := spurious_eq_some h
    exact hc
  | close => rw [(closeStep_chan h .blocks).1, hc]

/-- A producer's own step ends its call or takes it further. -/
theorem queueStep_left {s s' : State P α} {p : P} {o : Outcome} {c : QueueCall α}
    (h : queueStep queueSize p o c s = some s') :
    s'.call p = none ∨ ∃ c', s'.call p = some c' ∧ c'.chan = c.chan ∧ c'.pc.left < c.pc.left := by
  have hgoto {s₁ : State P α} {c' : QueueCall α} (hn : c'.chan = c.chan) (hl : c'.pc.left < c.pc.left) :
      (s₁.setCall p (some c')).call p = none ∨
        ∃ d, (s₁.setCall p (some c')).call p = some d ∧ d.chan = c.chan ∧ d.pc.left < c.pc.left :=
    .inr ⟨c', setCall_self .., hn, hl⟩
  unfold queueStep at h
  split at h
  all_goals rename_i e
  case h_1 | h_8 => obtain ⟨-, rfl⟩ := acquire_eq_some h; exact hgoto rfl (by simp [e, QueuePc.left])
  case h_2 => cases h; refine hgoto rfl ?_; dsimp only; rw [e]; split <;> decide
  case h_4 =>
    obtain ⟨s₁, -, rfl⟩ := Option.map_eq_some_iff.mp h
    exact hgoto rfl (by simp [e, QueuePc.left])
  case h_5 =>
    cases h
    refine hgoto ?_ (by simp [e, QueuePc.left])
    unfold QueueCall.measure
    repeat' split
    all_goals rfl
  case h_9 =>
    split at h <;> cases h
    · exact hgoto rfl (by simp [e, QueuePc.left])
    · exact .inl (setCall_self ..)
  case h_11 => cases h; exact .inl (setCall_self ..)
  all_goals cases h; exact hgoto rfl (by simp [e, QueuePc.left])

/-- A producer that holds a mutex gives it up or goes on. -/
theorem queueStep_holds {s s' : State P α} {p : P} {o : Outcome} {c : QueueCall α}
    (hc : c.pc.holds = true) (h : queueStep queueSize p o c s = some s') :
    (s'.chan c.chan).owner = none ∨
      ∃ c', s'.call p = some c' ∧ c'.chan = c.chan ∧ c'.pc.holds = true ∧ c'.pc.left < c.pc.left := by
  unfold queueStep at h
  split at h
  all_goals rename_i e
  case h_2 =>
    cases h
    refine .inr ⟨_, setCall_self .., rfl, ?_⟩
    dsimp only
    rw [e]
    split <;> decide
  case h_3 | h_10 => cases h; exact .inl (by simp [State.release])
  case h_9 =>
    split at h <;> cases h
    · exact .inr ⟨_, setCall_self .., rfl, by simp [e, QueuePc.left, QueuePc.holds]⟩
    · exact .inl (by simp [State.release])
  all_goals rw [e] at hc; cases hc

/-- The steps the call of a producer still has to take. -/
def State.left (s : State P α) (p : P) : Nat := ((s.call p).map fun c => c.pc.left).getD 0

omit [DecidableEq P] in
theorem left_of_call {s : State P α} {p : P} {c : QueueCall α} (h : s.call p = some c) :
    s.left p = c.pc.left := by
  simp [State.left, h]

/-- A channel before and after a step that is not its worker's: the worker may have been woken. -/
structure Unworked (c c' : Channel P α) : Prop where
  processQueue : c'.processQueue = c.processQueue
  handed : c'.handed = c.handed
  worker : c'.worker = c.worker ∨ c.worker = .blocked ∧ c'.worker = .woken

omit [DecidableEq P] in
theorem Unworked.refl (c : Channel P α) : Unworked c c := ⟨rfl, rfl, .inl rfl⟩

omit [DecidableEq P] in
theorem Unworked.wake (c : Channel P α) : Unworked c c.wake := by
  unfold Channel.wake
  split
  · rename_i h; exact ⟨rfl, rfl, .inr ⟨h, rfl⟩⟩
  · exact .refl c

omit [DecidableEq P] in
theorem Unworked.setChan {s : State P α} {q : Chan} {c : Channel P α} (h : Unworked (s.chan q) c)
    (q' : Chan) : Unworked (s.chan q') ((s.setChan q c).chan q') := by
  by_cases hq : q' = q
  · subst hq; rwa [setChan_self]
  · rw [setChan_of_ne _ _ hq]; exact .refl _

theorem queueStep_unworked {s s' : State P α} {p : P} {o : Outcome} {c : QueueCall α}
    (h : queueStep queueSize p o c s = some s') (q : Chan) : Unworked (s.chan q) (s'.chan q) := by
  have hkeep {d : Channel P α} (hp : d.processQueue = (s.chan c.chan).processQueue)
      (hh : d.handed = (s.chan c.chan).handed) (hw : d.worker = (s.chan c.chan).worker) :
      Unworked (s.chan q) ((s.setChan c.chan d).chan q) :=
    Unworked.setChan ⟨hp, hh, .inl hw⟩ q
  unfold queueStep at h
  split at h
  case h_1 | h_8 => obtain ⟨-, rfl⟩ := acquire_eq_some h; exact hkeep rfl rfl rfl
  case h_3 | h_10 => cases h; exact hkeep rfl rfl rfl
  case h_4 =>
    obtain ⟨s₁, h₁, rfl⟩ := Option.map_eq_some_iff.mp h
    obtain rfl | ⟨q', rfl⟩ := notifyOne_eq_some h₁
    · exact .refl _
    · exact (Unworked.wake (s.chan q')).setChan q
  case h_9 => split at h <;> cases h <;> exact hkeep rfl rfl rfl
  case h_11 => cases h; exact .wake _
  all_goals cases h; exact .refl _

/-- The other threads leave a worker where it is, or wake it. -/
theorem step_unworked {a : Act P α} {s s' : State P α} (h : step queueSize a s = some s') {q : Chan}
    (ha : ¬ works q a) : Unworked (s.chan q) (s'.chan q) := by
  cases a with
  | push p q' e =>
    obtain ⟨-, rfl⟩ := push_eq_some h
    exact .refl _
  | produce p o =>
    obtain ⟨c, -, h⟩ := Option.bind_eq_some_iff.mp h
    exact queueStep_unworked h q
  | work q' o =>
    obtain ⟨-, -, -, -, hne⟩ := workStep_eq_some h
    obtain e | e := hne q (fun hq => ha hq.symm) <;> rw [e]
    · exact .refl _
    · exact .wake _
  | spurious q' =>
    obtain ⟨-, rfl⟩ := spurious_eq_some h
    exact (Unworked.wake (s.chan q')).setChan q
  | close =>
    obtain ⟨-, e | e⟩ := closeStep_chan h q <;> rw [e]
    · exact .refl _
    · exact .wake _

omit [DecidableEq P] in
/-- A worker that holds its mutex gives it up or goes on. -/
theorem work_holds {exit : Bool} {o : Outcome} {c c' : Channel P α} (hc : c.worker.holds = true)
    (h : c.work exit o = some c') :
    c'.owner = none ∨ c'.worker.holds = true ∧ c'.worker.leftLocked < c.worker.leftLocked := by
  unfold Channel.work at h
  split at h
  all_goals rename_i e
  case h_4 | h_5 => cases h; dsimp only; rw [e]; split <;> exact .inr (by decide)
  case h_6 | h_10 => cases h; exact .inl rfl
  case h_8 => cases h; exact .inr ⟨rfl, by simp [e, WorkerPc.leftLocked]⟩
  case h_9 => split at h <;> cases h <;> exact .inr ⟨rfl, by simp [e, WorkerPc.leftLocked]⟩
  all_goals rw [e] at hc; cases hc

/-! ## The mutexes -/

section Mutex

variable {ok : Act P α → State P α → Prop} (hok : ∀ a s, Running a s → ok a s)
  {ρ : (consumer P α queueSize).Behaviour ok}

include hok

theorem producer_frees {p : P} (hp : ρ.WeaklyFair (produces p)) (q : Chan) :
    ρ.LeadsTo (fun s => s.Holds p q) fun s => (s.chan q).owner = none := by
  refine .of_weaklyFair hp (fun s => s.left p) ?_ ?_
  · rintro a s s' - ⟨c, hc, rfl, hh⟩ - - hs
    by_cases ha : produces p a
    · obtain ⟨o, rfl⟩ := produces_iff.mp ha
      obtain ⟨c', hc', hs⟩ := Option.bind_eq_some_iff.mp hs
      cases hc.symm.trans hc'
      obtain hn | ⟨d, hd, hdc, hdh, hlt⟩ := queueStep_holds hh hs
      · exact .inl hn
      · rw [← left_of_call hc, ← left_of_call hd] at hlt
        exact .inr ⟨⟨d, hd, hdc, hdh⟩, Nat.le_of_lt hlt, fun _ => hlt⟩
    · have hcall := step_call hs hc ha
      exact .inr ⟨⟨c, hcall, rfl, hh⟩, by rw [left_of_call hc, left_of_call hcall], fun h => absurd h ha⟩
  · rintro s - ⟨c, hc, rfl, hh⟩ -
    refine produces_enabled hok hc ?_
    rintro (e | e) <;> rw [e] at hh <;> cases hh

theorem worker_frees {q : Chan} (hq : ρ.WeaklyFair (works q)) :
    ρ.LeadsTo (fun s => (s.chan q).worker.holds = true) fun s => (s.chan q).owner = none := by
  refine .of_weaklyFair hq (fun s => (s.chan q).worker.leftLocked) ?_ ?_
  · intro a s s' _ hh _ _ hs
    by_cases ha : works q a
    · obtain ⟨o, rfl⟩ := works_iff.mp ha
      obtain ⟨c, hc, he, -⟩ := workStep_eq_some hs
      rw [he]
      exact (work_holds hh hc).imp id fun ⟨h, hlt⟩ => ⟨h, Nat.le_of_lt hlt, fun _ => hlt⟩
    · obtain e | ⟨e, -⟩ := (step_unworked hs ha).worker
      · exact .inr ⟨by rw [e]; exact hh, by rw [e], fun h => absurd h ha⟩
      · rw [e] at hh; cases hh
  · intro s _ hh _
    refine works_enabled hok ?_ ?_ ?_ <;> intro e
    · rw [e] at hh; cases hh
    · rw [e] at hh; cases hh
    · rw [WorkerPc.locks_of_holds hh] at e; cases e

/-- Each mutex comes free again and again. -/
theorem mutex_freed (hp : ∀ p, ρ.WeaklyFair (produces p)) {q : Chan} (hq : ρ.WeaklyFair (works q)) :
    ρ.LeadsTo (fun _ => True) fun s => (s.chan q).owner = none := by
  intro n _
  have hl := lockInv (ρ.reach n)
  cases ho : ((ρ.state n).chan q).owner with
  | none => exact ⟨n, Nat.le_refl n, ho⟩
  | some owner =>
    cases owner with
    | producer p => exact producer_frees hok (hp p) q n ((hl.producer p q).mpr ho)
    | worker => exact worker_frees hok hq n ((hl.worker q).mpr ho)

omit hok in
/-- A call stays where it is as long as its thread cannot go on. -/
theorem call_kept {p : P} {c : QueueCall α} {n : Nat} (hc : (ρ.state n).call p = some c)
    (hn : ∀ m ≥ n, ¬ (consumer P α queueSize).Enabled ok (produces p) (ρ.state m)) :
    ∀ m ≥ n, (ρ.state m).call p = some c :=
  Behaviour.keeps (P := fun s => s.call p = some c) hc fun m hm a hcm ha hs =>
    step_call hs hcm fun hT => hn m hm ⟨a, _, hT, ha, hs⟩

/-- A producer in its call can go on again and again. -/
theorem produces_again (hp : ∀ p, ρ.WeaklyFair (produces p)) (hq : ∀ q, ρ.WeaklyFair (works q)) (p : P) :
    ρ.LeadsTo (fun s => ∃ c, s.call p = some c) ((consumer P α queueSize).Enabled ok (produces p)) := by
  rintro n ⟨c, hc⟩
  by_contra hnot
  push Not at hnot
  obtain ⟨m, hm, ho⟩ := mutex_freed hok hp (hq c.chan) n trivial
  exact hnot m hm (produces_enabled hok (call_kept hc hnot m hm) fun _ => ho)

theorem call_returns (hp : ∀ p, ρ.WeaklyFair (produces p)) (hq : ∀ q, ρ.WeaklyFair (works q)) {p : P}
    (hs : ρ.StronglyFair (produces p)) :
    ρ.LeadsTo (fun s => ∃ c, s.call p = some c) fun s => s.call p = none := by
  refine .of_stronglyFair hs (fun s => s.left p) ?_
    ((produces_again hok hp hq p).mono (fun _ => id) fun _ => .inr)
  rintro a s s' - ⟨c, hc⟩ - - hs
  by_cases ha : produces p a
  · obtain ⟨o, rfl⟩ := produces_iff.mp ha
    obtain ⟨c', hc', hs⟩ := Option.bind_eq_some_iff.mp hs
    cases hc.symm.trans hc'
    obtain hn | ⟨d, hd, -, hlt⟩ := queueStep_left hs
    · exact .inl hn
    · rw [← left_of_call hc, ← left_of_call hd] at hlt
      exact .inr ⟨⟨d, hd⟩, Nat.le_of_lt hlt, fun _ => hlt⟩
  · have hcall := step_call hs hc ha
    exact .inr ⟨⟨c, hcall⟩, by rw [left_of_call hc, left_of_call hcall], fun h => absurd h ha⟩

end Mutex

/-- In every endless run, closed or not, whose producers and workers are
scheduled fairly, and which is strongly fair to the producer `p`, each call
of `consumer::queue` that `p` makes returns, however many other producers
push, and however long the queues are. -/
theorem push_returns (ρ : (consumer P α queueSize).Behaviour fun _ _ => True)
    (hp : ∀ p, ρ.WeaklyFair (produces p)) (hq : ∀ q, ρ.WeaklyFair (works q)) {p : P}
    (hs : ρ.StronglyFair (produces p)) {n : Nat} {c : QueueCall α} (hc : (ρ.state n).call p = some c) :
    ∃ m ≥ n, (ρ.state m).call p = none :=
  call_returns (fun _ _ _ => trivial) hp hq hs n ⟨c, hc⟩

/-- A trace is pushed, taken and handed over, and the workers go to sleep. -/
theorem push_returns_run : ∃ ρ : (consumer Unit Nat 5000).Behaviour fun _ _ => True,
    (∃ c, (ρ.state 1).call () = some c ∧ c.pc = .lock) ∧ ∃ m ≥ 1, (ρ.state m).call () = none := by
  have hrun : ((consumer Unit Nat 5000).run (fun _ _ => True)
      ([.push () .traces 1] ++ (List.replicate 5 (.produce () .returns) ++
        (List.replicate 17 (.work .traces .returns) ++ List.replicate 5 (.work .blocks .returns))))
      (consumer Unit Nat 5000).init).any (fun s => (s.call ()).isNone &&
        ((s.chan .blocks).worker == .blocked && (s.chan .traces).worker == .blocked)) = true := by
    decide
  obtain ⟨s, h, hp⟩ := (Option.any_eq_true _ _).mp hrun
  simp only [Bool.and_eq_true, beq_iff_eq, Option.isNone_iff_eq_none] at hp
  obtain ⟨hc, hb, ht⟩ := hp
  have hidle (p : Unit) := Behaviour.ofRun_stronglyFair h (not_produces_enabled (p := p) hc)
  have hasleep (q : Chan) := Behaviour.ofRun_stronglyFair h (T := works q)
    (not_works_enabled (by cases q <;> assumption))
  have hcall : ((Behaviour.ofRun _ h).state 1).call () = some { chan := .traces, e := 1 } :=
    congrArg (fun s => s.call ()) (Behaviour.ofRun_state_left [_] h rfl)
  exact ⟨_, ⟨_, hcall, rfl⟩, push_returns _ (fun p => (hidle p).weaklyFair)
    (fun q => (hasleep q).weaklyFair) (hidle ()) hcall⟩

end SqlDb.Consumer
