import SqlDbPlugin.Consumer.Fifo

/-!
# The queue size option

`consumer::queue` tests the size under the mutex. In a queue with room the
append follows under the same lock, so it finds the queue the test saw. In
an over-full queue the mutex is released for one sleep, and the append that
follows does not test again. `RelockOk` is the condition that saves the
bound: whenever a producer takes the mutex again after its sleep, the worker
has left at most `queueSize` entries in the queue (`queue_bounded`). A step
that fails it takes the queue over the bound (`relock_append`).
-/

namespace SqlDb.Consumer

variable {P α : Type} {queueSize : Nat}

/-- A producer that takes the mutex of the trace queue again after its sleep
finds at most `queueSize` entries. -/
def RelockOk (queueSize : Nat) : Act P α → State P α → Prop
  | .produce p _, s => ∀ c, s.call p = some c → c.pc = .relock → c.chan = .traces →
    (s.chan .traces).queue.length ≤ queueSize
  | _, _ => True

/-- The trace queue is within its bound, with room for an append about to be made. -/
structure CapacityInv (queueSize : Nat) (s : State P α) : Prop where
  bound : (s.chan .traces).queue.length ≤ queueSize + 1
  room : ∀ p c, s.call p = some c → c.pc = .append → c.chan = .traces →
    (s.chan .traces).queue.length ≤ queueSize

/-- A worker never lengthens its queue. -/
theorem work_queue_le {exit : Bool} {o : Outcome} {c c' : Channel P α}
    (h : c.work exit o = some c') : c'.queue.length ≤ c.queue.length := by
  unfold Channel.work at h
  repeat' split at h
  all_goals cases h
  all_goals first | exact Nat.le_refl _ | exact Nat.zero_le _

/-- A step that does not lengthen the queue and brings no call to its append. -/
theorem CapacityInv.keep {s s' : State P α} (h : CapacityInv queueSize s)
    (hq : (s'.chan .traces).queue.length ≤ (s.chan .traces).queue.length)
    (hc : ∀ p c, s'.call p = some c → c.pc = .append → s.call p = some c) :
    CapacityInv queueSize s' where
  bound := Nat.le_trans hq h.bound
  room p c hp ha ht := Nat.le_trans hq (h.room p c (hc p c hp ha) ha ht)

theorem setChan_queue {s : State P α} {q : Chan} {c : Channel P α} (h : c.queue = (s.chan q).queue)
    (q' : Chan) : ((s.setChan q c).chan q').queue = (s.chan q').queue := by
  by_cases hq : q' = q
  · subst hq; rw [setChan_self, h]
  · rw [setChan_of_ne _ _ hq]

variable [DecidableEq P]

/-- The call of `p` goes on, and if it goes on to its append, in a queue with room. -/
theorem CapacityInv.goto {s s' : State P α} (h : CapacityInv queueSize s) {p : P}
    {d : Option (QueueCall α)} (hc : s'.call = Function.update s.call p d)
    (hq : ∀ q, (s'.chan q).queue = (s.chan q).queue)
    (hd : ∀ c, d = some c → c.pc = .append → c.chan = .traces →
      (s.chan .traces).queue.length ≤ queueSize) : CapacityInv queueSize s' where
  bound := by rw [hq]; exact h.bound
  room p' c hp ha ht := by
    rw [hq]
    rw [hc] at hp
    by_cases he : p' = p
    · subst he; rw [Function.update_self] at hp; exact hd c hp ha ht
    · rw [Function.update_of_ne he] at hp; exact h.room p' c hp ha ht

/-- The call of `p` goes on, but not to its append. -/
theorem CapacityInv.away {s s' : State P α} (h : CapacityInv queueSize s) {p : P}
    {d : Option (QueueCall α)} (hc : s'.call = Function.update s.call p d)
    (hq : ∀ q, (s'.chan q).queue = (s.chan q).queue)
    (hd : ∀ c, d = some c → c.pc ≠ .append) : CapacityInv queueSize s' :=
  h.goto hc hq fun c hc ha _ => absurd ha (hd c hc)

/-- The append itself: it fills the room there was, and its own mutex keeps
every other call away from the queue. -/
theorem CapacityInv.append {s : State P α} (hl : LockInv s) (h : CapacityInv queueSize s) {p : P}
    {c d : QueueCall α} (hc : s.call p = some c) (hp : c.pc = .append) (hd : d.pc ≠ .append) :
    CapacityInv queueSize ((s.setChan c.chan { s.chan c.chan with
      queue := (s.chan c.chan).queue ++ [c.e],
      appended := (s.chan c.chan).appended ++ [c.e] }).setCall p (some d)) := by
  by_cases ht : c.chan = .traces
  · refine ⟨?_, fun p' c' hp' ha ht' => ?_⟩
    · simpa [ht] using h.room p c hc hp ht
    · by_cases he : p' = p
      · subst he; rw [setCall_self] at hp'; cases hp'; exact absurd ha hd
      · rw [setCall_of_ne _ _ he] at hp'
        have h₁ := (holds_of_call hc .traces).mpr ⟨ht, by rw [hp]; rfl⟩
        have h₂ := (holds_of_call (s := s) hp' .traces).mpr ⟨ht', by rw [ha]; rfl⟩
        exact absurd (hl.holds_unique h₁ h₂) he
  · refine h.keep (by simp [Ne.symm ht]) fun p' c' hp' ha => ?_
    by_cases he : p' = p
    · subst he; rw [setCall_self] at hp'; cases hp'; exact absurd ha hd
    · rwa [setCall_of_ne _ _ he] at hp'

theorem capacity_queueStep {s s' : State P α} (hl : LockInv s) (h : CapacityInv queueSize s) {p : P}
    {o : Outcome} (ok : RelockOk queueSize (.produce p o) s) {c : QueueCall α}
    (hc : s.call p = some c) (hs : queueStep queueSize p o c s = some s') :
    CapacityInv queueSize s' := by
  unfold queueStep at hs
  split at hs
  case h_1 =>
    obtain ⟨-, rfl⟩ := acquire_eq_some hs
    exact h.away rfl (setChan_queue rfl) fun _ hd => by cases hd; nofun
  case h_8 e =>
    obtain ⟨-, rfl⟩ := acquire_eq_some hs
    exact h.goto rfl (setChan_queue rfl) fun _ hd _ ht => by cases hd; exact ok c hc e ht
  case h_2 e =>
    cases hs
    refine h.goto rfl (fun _ => rfl) fun d hd ha ht => ?_
    cases hd
    dsimp only at ha ht
    split at ha
    · cases ha
    · rename_i hn; rw [ht] at hn; exact Nat.le_of_not_lt hn
  case h_4 =>
    obtain ⟨s₁, h₁, rfl⟩ := Option.map_eq_some_iff.mp hs
    obtain rfl | ⟨q, rfl⟩ := notifyOne_eq_some h₁
    · exact h.away rfl (fun _ => rfl) fun _ hd => by cases hd; nofun
    · exact h.away rfl (setChan_queue (wake_queue _)) fun _ hd => by cases hd; nofun
  case h_9 e =>
    split at hs <;> cases hs
    · exact h.append hl hc e nofun
    · exact h.away rfl (setChan_queue rfl) nofun
  case h_11 => cases hs; exact h.away rfl (fun q => wake_queue _) nofun
  case h_3 | h_10 => cases hs; exact h.away rfl (setChan_queue rfl) fun _ hd => by cases hd; nofun
  all_goals cases hs; exact h.away rfl (fun _ => rfl) fun _ hd => by cases hd; nofun

theorem capacity_step {a : Act P α} {s s' : State P α} (hl : LockInv s)
    (h : CapacityInv queueSize s) (ok : RelockOk queueSize a s)
    (hs : step queueSize a s = some s') : CapacityInv queueSize s' := by
  cases a with
  | push p q e =>
    obtain ⟨-, rfl⟩ := push_eq_some hs
    exact h.away rfl (fun _ => rfl) fun _ hd => by cases hd; nofun
  | produce p o =>
    obtain ⟨c, hc, hs⟩ := Option.bind_eq_some_iff.mp hs
    exact capacity_queueStep hl h ok hc hs
  | work q o =>
    obtain ⟨c, hw, he, hcall, hne⟩ := workStep_eq_some hs
    refine h.keep ?_ fun p c hp _ => by rwa [hcall] at hp
    by_cases hq : .traces = q
    · subst hq; rw [he]; exact work_queue_le hw
    · obtain e | e := hne .traces hq <;> simp [e]
  | spurious q =>
    obtain ⟨-, rfl⟩ := spurious_eq_some hs
    exact h.keep (Nat.le_of_eq (by rw [setChan_queue (wake_queue _)])) fun _ _ hp _ => hp
  | close =>
    obtain ⟨hcall, -⟩ := closeStep_chan hs .traces
    refine h.keep ?_ fun p c hp _ => by rwa [hcall] at hp
    obtain ⟨-, e | e⟩ := closeStep_chan hs .traces <;> simp [e]

theorem capacityInv {s : State P α} (h : (consumer P α queueSize).Reach (RelockOk queueSize) s) :
    CapacityInv queueSize s :=
  h.inv_of (I := CapacityInv queueSize) (J := LockInv) (fun _ => lockInv)
    ⟨Nat.zero_le _, fun _ _ h => by cases h⟩ fun _ _ _ hl hI ok hs => capacity_step hl hI ok hs

/-- The append that follows a relock leaves one entry more than the relock found. -/
theorem relock_append {s s₁ s₂ : State P α} {p : P} {c : QueueCall α} (hc : s.call p = some c)
    (hp : c.pc = .relock) (h₁ : step queueSize (.produce p .returns) s = some s₁)
    (h₂ : step queueSize (.produce p .returns) s₁ = some s₂) :
    (s₂.chan c.chan).queue.length = (s.chan c.chan).queue.length + 1 := by
  simp only [step, hc, Option.bind_some, queueStep, hp] at h₁
  obtain ⟨-, rfl⟩ := acquire_eq_some h₁
  simp only [step, setCall_self, Option.bind_some, queueStep, Option.some.injEq] at h₂
  subst h₂
  simp

/-- In every run in which each relock after a back-off finds at most
`queueSize` entries, the trace queue never holds more than `queueSize + 1`;
and a relock that finds more is followed by an append that leaves more than
`queueSize + 1`. -/
theorem queue_bounded :
    (∀ s : State P α, (consumer P α queueSize).Reach (RelockOk queueSize) s →
      (s.chan .traces).queue.length ≤ queueSize + 1) ∧
    ∀ (s s₁ s₂ : State P α) (p : P) (c : QueueCall α), s.call p = some c → c.pc = .relock →
      c.chan = .traces → step queueSize (.produce p .returns) s = some s₁ →
      step queueSize (.produce p .returns) s₁ = some s₂ →
      ((s₂.chan .traces).queue.length ≤ queueSize + 1 ↔
        RelockOk queueSize (.produce p .returns) s) := by
  refine ⟨fun s h => (capacityInv h).bound, fun s s₁ s₂ p c hc hp ht h₁ h₂ => ?_⟩
  have hl := ht ▸ relock_append hc hp h₁ h₂
  rw [hl, Nat.add_le_add_iff_right]
  refine ⟨fun hle c' hc' _ _ => hle, fun ok => ok c hc hp ht⟩

/-- The steps of a push that finds its queue over-full, up to the end of its sleep. -/
def pushOverFull (p : P) (q : Chan) (e : α) : List (Act P α) :=
  .push p q e :: List.replicate 7 (.produce p .returns)

/-- With a slow database one producer fills the queue past the bound. -/
theorem queue_over_bound : ∃ s, (consumer Unit Nat 1).Reachable s ∧
    (s.chan .traces).queue.length = 1 + 2 := by
  obtain ⟨s, hs, hp⟩ := Machine.reach_of_run (M := consumer Unit Nat 1) (fun _ _ => True)
    (p := fun s => (s.chan .traces).queue.length == 3)
    (pushWithRoom () .traces 1 ++ pushWithRoom () .traces 2 ++ pushOverFull () .traces 3 ++
      List.replicate 2 (.produce () .returns)) (by decide)
  exact ⟨s, hs, by simpa using hp⟩

instance (n : Nat) : ∀ (a : Act P α) (s : State P α), Decidable (RelockOk n a s)
  | .produce p _, s =>
    match h : s.call p with
    | none => isTrue fun c hc => by cases h.symm.trans hc
    | some c => decidable_of_iff (c.pc = .relock → c.chan = .traces →
        (s.chan .traces).queue.length ≤ n)
      ⟨fun hn c' hc => by cases h.symm.trans hc; exact hn, fun hn => hn c h⟩
  | .push .., _ | .work .., _ | .spurious _, _ | .close, _ => isTrue trivial

/-- The same pushes, with a worker that takes its batch during the sleep. -/
theorem queue_bounded_run : ∃ s, (consumer Unit Nat 1).Reach (RelockOk 1) s ∧
    (s.chan .traces).appended = [1, 2, 3] ∧ (s.chan .traces).queue.length ≤ 1 + 1 := by
  obtain ⟨s, hs, hp⟩ := Machine.reach_of_run (M := consumer Unit Nat 1) (RelockOk 1)
    (p := fun s => (s.chan .traces).appended == [1, 2, 3])
    (pushWithRoom () .traces 1 ++ pushWithRoom () .traces 2 ++ pushOverFull () .traces 3 ++
      takeBatch .traces ++ List.replicate 2 (.produce () .returns)) (by decide)
  exact ⟨s, hs, by simpa using hp, queue_bounded.1 s hs⟩

end SqlDb.Consumer
