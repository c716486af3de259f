import SqlDbPlugin.Consumer.Fifo

/-!
# Who may touch a queue

A step writes a queue if it changes it, and accesses it if what the step
does depends on what is in the queue. `locked_access`: a thread that
accesses a queue owns its mutex, except where `consumer::queue` takes the
size of the queue after it has unlocked. So where two threads are about to
access one queue, and one of them is to write it, the other is a producer
that takes the size (`queue_race`).
-/

namespace SqlDb.Consumer

variable {P α : Type} {queueSize : Nat}

inductive Thread (P : Type)
  | producer (p : P)
  | worker (q : Chan)
  | closer
  deriving DecidableEq

/-- Whose step it is; a spurious wake-up is the woken worker's. -/
def Act.thread : Act P α → Thread P
  | .push p _ _ | .produce p _ => .producer p
  | .work q _ | .spurious q => .worker q
  | .close => .closer

/-- Another queue in place of that of `q`. -/
def State.withQueue (s : State P α) (q : Chan) (xs : List α) : State P α :=
  s.setChan q { s.chan q with queue := xs }

section

variable [DecidableEq P] (queueSize : Nat)

/-- The step `a` changes the queue. -/
def Writes (a : Act P α) (q : Chan) (s : State P α) : Prop :=
  ∃ s', step queueSize a s = some s' ∧ (s'.chan q).queue ≠ (s.chan q).queue

/-- The step `a` depends on the queue: with another queue there it does something else. -/
def Accesses (a : Act P α) (q : Chan) (s : State P α) : Prop :=
  ∃ xs, step queueSize a (s.withQueue q xs) ≠ (step queueSize a s).map (·.withQueue q xs)

end

/-! ## Steps that do not depend on a queue -/

theorem setChan_comm (s : State P α) {q q' : Chan} (c c' : Channel P α) (h : q ≠ q') :
    (s.setChan q c).setChan q' c' = (s.setChan q' c').setChan q c := by
  simp only [State.setChan, Function.update_comm h]

theorem setChan_setChan (s : State P α) (q : Chan) (c c' : Channel P α) :
    (s.setChan q c).setChan q c' = s.setChan q c' := by
  simp only [State.setChan, Function.update_idem]

variable {s s' : State P α} {q q' : Chan} {xs : List α}

theorem withQueue_chan (s : State P α) (q : Chan) (xs : List α) (q' : Chan) :
    (s.withQueue q xs).chan q' = if q' = q then { s.chan q with queue := xs } else s.chan q' := by
  by_cases h : q' = q
  · subst h
    rw [if_pos rfl, State.withQueue, setChan_self]
  · rw [if_neg h, State.withQueue, setChan_of_ne _ _ h]

@[simp] theorem withQueue_worker (s : State P α) (q : Chan) (xs : List α) (q' : Chan) :
    ((s.withQueue q xs).chan q').worker = (s.chan q').worker := by
  rw [withQueue_chan]
  split
  · rename_i h
    rw [h]
  · rfl

@[simp] theorem withQueue_owner (s : State P α) (q : Chan) (xs : List α) (q' : Chan) :
    ((s.withQueue q xs).chan q').owner = (s.chan q').owner := by
  rw [withQueue_chan]
  split
  · rename_i h
    rw [h]
  · rfl

/-- A change to a channel that leaves its queue alone can be made before the other queue is put there. -/
theorem setChan_withQueue (d : Channel P α → Channel P α)
    (hd : ∀ c : Channel P α, d { c with queue := xs } = { d c with queue := xs }) (s : State P α) (q q' : Chan) :
    (s.withQueue q xs).setChan q' (d ((s.withQueue q xs).chan q')) =
      (s.setChan q' (d (s.chan q'))).withQueue q xs := by
  by_cases h : q' = q
  · subst h
    rw [withQueue_chan, if_pos rfl, hd, State.withQueue, State.withQueue, setChan_setChan, setChan_setChan,
      setChan_self]
  · rw [withQueue_chan, if_neg h, State.withQueue, State.withQueue, setChan_comm _ _ _ (Ne.symm h),
      setChan_of_ne _ _ (Ne.symm h)]

theorem setChan_withQueue_of_ne (s : State P α) (c : Channel P α) (h : q' ≠ q) :
    (s.withQueue q xs).setChan q' c = (s.setChan q' c).withQueue q xs := by
  rw [State.withQueue, State.withQueue, setChan_comm _ _ _ (Ne.symm h), setChan_of_ne _ _ (Ne.symm h)]

theorem wake_withQueue (c : Channel P α) : Channel.wake { c with queue := xs } = { c.wake with queue := xs } := by
  unfold Channel.wake
  by_cases h : c.worker = .blocked <;> simp [h]

theorem notifyAll_withQueue (s : State P α) (q : Chan) (xs : List α) :
    (s.withQueue q xs).notifyAll = s.notifyAll.withQueue q xs := by
  have hchan : (s.withQueue q xs).notifyAll.chan = (s.notifyAll.withQueue q xs).chan := by
    funext q'
    rw [notifyAll_chan, withQueue_chan, withQueue_chan]
    split
    · exact wake_withQueue _
    · rfl
  exact congrArg (fun chan => { s with chan }) hchan

theorem notifyOne_withQueue (o : Outcome) (s : State P α) (q : Chan) (xs : List α) :
    (s.withQueue q xs).notifyOne o = (s.notifyOne o).map (·.withQueue q xs) := by
  cases o with
  | returns =>
    simp only [State.notifyOne, withQueue_worker]
    split <;> rfl
  | throws => rfl
  | wakes q' =>
    simp only [State.notifyOne, withQueue_worker]
    split
    · exact congrArg some (setChan_withQueue Channel.wake (fun _ => wake_withQueue _) s q q')
    · rfl

/-- The positions of a call at which its next step depends on the queue. -/
def QueuePc.accesses : QueuePc → Bool
  | .test | .measure | .remember | .append => true
  | _ => false

/-- The positions of a worker at which its next step depends on the queue. -/
def WorkerPc.accesses : WorkerPc → Bool
  | .testEmpty | .size | .move _ => true
  | _ => false

theorem work_withQueue {exit : Bool} {o : Outcome} {c : Channel P α} (h : c.worker.accesses = false) :
    Channel.work exit o { c with queue := xs } = (c.work exit o).map ({ · with queue := xs }) := by
  unfold Channel.work
  split
  all_goals rename_i e
  all_goals simp only at e
  all_goals simp only [e, WorkerPc.accesses, Bool.true_eq_false] at h ⊢
  all_goals first | rfl | (split <;> rfl)

theorem workStep_withQueue {o : Outcome} (h : q' = q → (s.chan q').worker.accesses = false) :
    workStep q' o (s.withQueue q xs) = (workStep q' o s).map (·.withQueue q xs) := by
  have hexit : (s.withQueue q xs).exit = s.exit := rfl
  have hset (c : Channel P α) : (s.withQueue q xs).setChan q' (if q' = q then { c with queue := xs } else c) =
      (s.setChan q' c).withQueue q xs := by
    by_cases hq : q' = q
    · subst hq
      rw [if_pos rfl, State.withQueue, State.withQueue, setChan_setChan, setChan_setChan, setChan_self]
    · rw [if_neg hq, setChan_withQueue_of_ne _ _ hq]
  have hwork : ((s.withQueue q xs).chan q').work s.exit o =
      ((s.chan q').work s.exit o).map fun c => if q' = q then { c with queue := xs } else c := by
    rw [withQueue_chan]
    by_cases hq : q' = q
    · subst hq
      simp only [if_pos]
      exact work_withQueue (h rfl)
    · simp only [if_neg hq, Option.map_id']
  rw [workStep, workStep, hexit, hwork, withQueue_worker, Option.map_map, Option.map_map]
  refine congrArg (Option.map · _) (funext fun c => ?_)
  simp only [Function.comp_apply, hset]
  split
  · exact notifyAll_withQueue _ q xs
  · rfl

theorem closeStep_withQueue (s : State P α) (q : Chan) (xs : List α) :
    closeStep (s.withQueue q xs) = (closeStep s).map (·.withQueue q xs) := by
  have happended : (fun q' => ((s.withQueue q xs).chan q').appended) = fun q' => (s.chan q').appended := by
    funext q'
    rw [withQueue_chan]
    split
    · rename_i h
      rw [h]
    · rfl
  have hcloser : (s.withQueue q xs).closer = s.closer := rfl
  unfold closeStep
  rw [hcloser, happended]
  split
  · rfl
  · exact congrArg (fun s : State P α => some { s with closer := .join }) (notifyAll_withQueue s q xs)
  · rw [withQueue_worker]
    split <;> rfl
  · rfl

variable [DecidableEq P]

theorem acquire_withQueue {p : P} {c : QueueCall α} {pc : QueuePc} :
    (s.withQueue q xs).acquire p c pc = (s.acquire p c pc).map (·.withQueue q xs) := by
  simp only [State.acquire, withQueue_owner]
  split
  · exact congrArg (fun s : State P α => some (s.setCall p (some { c with pc })))
      (setChan_withQueue (fun d => { d with owner := some (.producer p) }) (fun _ => rfl) s q c.chan)
  · rfl

theorem queueStep_withQueue {p : P} {o : Outcome} {c : QueueCall α} (h : c.chan = q → c.pc.accesses = false) :
    queueStep queueSize p o c (s.withQueue q xs) =
      (queueStep queueSize p o c s).map (·.withQueue q xs) := by
  have hother (hn : c.pc.accesses = true) : (s.withQueue q xs).chan c.chan = s.chan c.chan := by
    have hne : c.chan ≠ q := fun he => by rw [h he] at hn; cases hn
    rw [withQueue_chan, if_neg hne]
  have hrelease (d : Option (QueueCall α)) : ((s.withQueue q xs).release c.chan).setCall p d =
      ((s.release c.chan).setCall p d).withQueue q xs :=
    congrArg (fun s : State P α => s.setCall p d)
      (setChan_withQueue (fun d => { d with owner := none }) (fun _ => rfl) s q c.chan)
  unfold queueStep
  split
  all_goals rename_i e
  all_goals simp only [e, QueuePc.accesses, forall_const, Bool.false_eq_true, false_implies] at hother
  case h_1 | h_8 => exact acquire_withQueue
  case h_2 | h_5 | h_6 => rw [hother]; rfl
  case h_3 | h_10 => exact congrArg some (hrelease _)
  case h_4 =>
    rw [notifyOne_withQueue, Option.map_map, Option.map_map]
    rfl
  case h_7 => rfl
  case h_9 =>
    cases o with
    | returns =>
      have hne : c.chan ≠ q := fun he => by
        have hpc := h he
        rw [e] at hpc
        cases hpc
      simp only [hother, setChan_withQueue_of_ne _ _ hne]
      rfl
    | throws => exact congrArg some (hrelease _)
    | wakes _ => rfl
  case h_11 => exact congrArg (fun s : State P α => some (s.setCall p none)) (notifyAll_withQueue s q xs)

/-- The step `a` is at a position at which it depends on the queue. -/
def At (a : Act P α) (q : Chan) (s : State P α) : Prop :=
  match a with
  | .produce p _ => ∃ c, s.call p = some c ∧ c.chan = q ∧ c.pc.accesses = true
  | .work q' _ => q' = q ∧ (s.chan q').worker.accesses = true
  | _ => False

/-- A step that is nowhere near the queue does the same whatever is in it. -/
theorem step_withQueue {a : Act P α} (h : ¬ At a q s) :
    step queueSize a (s.withQueue q xs) = (step queueSize a s).map (·.withQueue q xs) := by
  cases a with
  | push p q' e =>
    have hcall : (s.withQueue q xs).call p = s.call p := rfl
    simp only [step, hcall]
    split <;> rfl
  | produce p o =>
    have hcall : (s.withQueue q xs).call p = s.call p := rfl
    simp only [step, hcall]
    cases hc : s.call p with
    | none => rfl
    | some c =>
      exact queueStep_withQueue fun he => Bool.not_eq_true _ ▸ fun ha => h ⟨c, hc, he, ha⟩
  | work q' o => exact workStep_withQueue fun he => Bool.not_eq_true _ ▸ fun ha => h ⟨he, ha⟩
  | spurious q' =>
    simp only [step, withQueue_worker]
    split
    · exact congrArg some (setChan_withQueue Channel.wake (fun _ => wake_withQueue _) s q q')
    · rfl
  | close => exact closeStep_withQueue s q xs

theorem at_of_accesses {a : Act P α} (h : Accesses queueSize a q s) : At a q s := by
  obtain ⟨xs, hne⟩ := h
  by_contra hat
  exact hne (step_withQueue hat)

/-- What writes a queue depends on it: with the queue it leaves there before, it would have to change it again. -/
theorem accesses_of_writes {a : Act P α} (h : Writes queueSize a q s) : Accesses queueSize a q s := by
  obtain ⟨s', hs, hne⟩ := h
  refine ⟨(s.chan q).queue, fun he => hne ?_⟩
  have hself : s.withQueue q (s.chan q).queue = s := by
    simp only [State.withQueue, State.setChan, Function.update_eq_self]
  rw [hself, hs, Option.map_some, Option.some.injEq] at he
  have hqueue := congrArg (fun s : State P α => (s.chan q).queue) he
  simpa only [withQueue_chan, if_pos] using hqueue

/-! ## Who owns the mutex -/

/-- A producer in the over-full branch that takes the size of the queue, without the mutex. -/
def Measuring (a : Act P α) (q : Chan) (s : State P α) : Prop :=
  ∃ p o c, a = .produce p o ∧ s.call p = some c ∧ c.chan = q ∧ (c.pc = .measure ∨ c.pc = .remember)

def Owner.thread (q : Chan) : Owner P → Thread P
  | .producer p => .producer p
  | .worker => .worker q

/-- What takes the size of a queue leaves the queue as it is. -/
theorem not_writes_of_measuring {a : Act P α} (h : Measuring a q s) : ¬ Writes queueSize a q s := by
  obtain ⟨p, o, c, rfl, hc, -, hpc⟩ := h
  rintro ⟨s', hs, hne⟩
  refine hne ?_
  simp only [step, hc, Option.bind_some, queueStep] at hs
  obtain e | e := hpc
  all_goals
    simp only [e, Option.some.injEq] at hs
    rw [← hs]
    rfl

/-- What accesses a queue takes its size, or does so with the mutex. -/
theorem locked_access {ok : Act P α → State P α → Prop} {a : Act P α}
    (hs : (consumer P α queueSize).Reach ok s) (h : Accesses queueSize a q s) :
    Measuring a q s ∨ (s.chan q).owner.map (·.thread q) = some a.thread := by
  have hI := lockInv hs
  have hat := at_of_accesses h
  cases a with
  | produce p o =>
    obtain ⟨c, hc, hq, hacc⟩ := hat
    by_cases hm : c.pc = .measure ∨ c.pc = .remember
    · exact .inl ⟨p, o, c, rfl, hc, hq, hm⟩
    · refine .inr ?_
      have hholds : c.pc.holds = true := by
        cases e : c.pc <;> simp_all [QueuePc.accesses, QueuePc.holds]
      rw [(hI.producer p q).mp ⟨c, hc, hq, hholds⟩]
      rfl
  | work q' o =>
    obtain ⟨rfl, hacc⟩ := hat
    refine .inr ?_
    have hholds : (s.chan q').worker.holds = true := by
      cases e : (s.chan q').worker <;> simp_all [WorkerPc.accesses, WorkerPc.holds]
    rw [(hI.worker q').mp hholds]
    rfl
  | push p q' e => exact hat.elim
  | spurious q' => exact hat.elim
  | close => exact hat.elim

/-- In every reachable state, of two threads that are about to access one queue of which one is to
write it, the other is a producer that takes the size of the queue after it has unlocked. So two
threads are never about to write one queue. -/
theorem queue_race {s : State P α} (hs : (consumer P α queueSize).Reachable s) {a b : Act P α} {q : Chan}
    (ha : Writes queueSize a q s) (hb : Accesses queueSize b q s) (hne : a.thread ≠ b.thread) :
    Measuring b q s ∧ ¬ Writes queueSize b q s := by
  have hown : (s.chan q).owner.map (·.thread q) = some a.thread :=
    (locked_access hs (accesses_of_writes ha)).resolve_left fun hm => not_writes_of_measuring hm ha
  obtain hm | hb := locked_access hs hb
  · exact ⟨hm, not_writes_of_measuring hm⟩
  · exact absurd (Option.some.inj (hown.symm.trans hb)) hne

/-- Such a state: the worker is about to take its batch, and a producer that has unlocked an
over-full queue is about to compare its size. -/
theorem queue_race_unlocked : ∃ s, (consumer Unit Nat 0).Reachable s ∧
    Writes 0 (.work .traces .returns) .traces s ∧ Accesses 0 (.produce () .returns) .traces s ∧
    Measuring (α := Nat) (.produce () .returns) .traces s := by
  obtain ⟨s, hs, hp⟩ := Machine.reach_of_run (M := consumer Unit Nat 0) (fun _ _ => True)
    (p := fun s => (step 0 (.work .traces .returns) s).any (fun s' => (s'.chan .traces).queue == []) &&
      (s.chan .traces).queue == [1] &&
      (step 0 (.produce () .returns) s).any (fun s' => (s'.call ()).any (·.sleepTime == 200)) &&
      (step 0 (.produce () .returns) (s.withQueue .traces [])).any (fun s' => (s'.call ()).any (·.sleepTime == 0)))
    (pushWithRoom () .traces 1 ++ .push () .traces 2 :: List.replicate 4 (.produce () .returns) ++
      List.replicate 4 (.work .traces .returns)) (by decide)
  simp only [Bool.and_eq_true, beq_iff_eq, Option.any_eq_true] at hp
  obtain ⟨⟨⟨⟨s₁, hs₁, hq₁⟩, hq⟩, s₂, hs₂, c₂, hc₂, ht₂⟩, s₃, hs₃, c₃, hc₃, ht₃⟩ := hp
  have hw : Writes 0 (.work .traces .returns) .traces s := ⟨s₁, hs₁, by rw [hq₁, hq]; decide⟩
  have ha : Accesses 0 (.produce () .returns) .traces s := by
    refine ⟨[], fun he => ?_⟩
    rw [hs₂, hs₃, Option.map_some, Option.some.injEq] at he
    have hcall : s₃.call () = s₂.call () := by rw [he]; rfl
    rw [hc₂, hc₃, Option.some.injEq] at hcall
    rw [hcall, ht₂] at ht₃
    cases ht₃
  exact ⟨s, hs, hw, ha, (queue_race hs hw ha (by decide)).1⟩
end SqlDb.Consumer
