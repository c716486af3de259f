import SqlDbPlugin.Consumer.Progress

/-!
# Delivery

In an endless run that is fair to its threads and never closed, each entry
appended is handed to `consume_*` in the end, and the call comes back
(`eventually_consumed`). The worker's own steps take it around its loop to
the next entry (`Channel.turn`), and no other thread sets it back. It is held up in two
places: blocked in `wait`, where the producer that has appended since still
has its `notify_all` to issue, and at the mutex, which comes free.
-/

namespace SqlDb.Consumer

open Machine

variable {P α : Type} {queueSize : Nat}

/-- The steps of a worker until it hands over an entry, at most, if there is
one to hand over: around its loop, with or without a batch. -/
def Channel.turn (c : Channel P α) : Nat :=
  match c.worker with
  | .unlock _ => if c.processQueue = [] then 14 else 2
  | .log _ => if c.processQueue = [] then 13 else 1
  | .drain => if c.processQueue = [] then 12 else 0
  | .consume => 14
  | .pop => 13
  | .notify => 11
  | .loop => 10
  | .wait => 9
  | .blocked => 8
  | .lock | .woken => 7
  | .testEmpty => 6
  | .testExit => 5
  | .size => 4
  | .move _ => 3
  | .done => 0

/-- The entries `consume_*` has come back with. -/
def Channel.finished (c : Channel P α) : List α :=
  if c.worker = .consume then c.handed.dropLast else c.handed

/-- The entry in `consume_*` is the front of the batch. -/
def FrontInv (c : Channel P α) : Prop :=
  c.worker = .consume → ∃ finished e rest, c.handed = finished ++ [e] ∧ c.processQueue = e :: rest

theorem FrontInv.work {exit : Bool} {o : Outcome} {c c' : Channel P α} (h : c.work exit o = some c') :
    FrontInv c' := by
  unfold Channel.work at h
  split at h
  case h_12 =>
    split at h <;> cases h
    · exact fun hw => by cases hw
    · rename_i e rest hp
      exact fun _ => ⟨c.handed, e, rest, rfl, hp⟩
  all_goals (repeat' split at h) <;> cases h
  all_goals exact fun hw => by cases hw

theorem FrontInv.unworked {c c' : Channel P α} (h : FrontInv c) (hu : Unworked c c') : FrontInv c' := by
  intro hw
  obtain e | ⟨-, e⟩ := hu.worker
  · rw [hu.handed, hu.processQueue]
    exact h (e.symm.trans hw)
  · cases e.symm.trans hw

/-- A worker with no batch and entries not handed over has them in its queue. -/
theorem FifoInv.queue_ne_nil {c : Channel P α} (h : FifoInv c) (hi : c.worker.idle = true)
    (hn : c.handed.length < c.appended.length) : c.queue ≠ [] := by
  intro hq
  have hall := h.eq_appended hq
  rw [h.pending_idle hi, List.append_nil] at hall
  rw [hall] at hn
  exact Nat.lt_irrefl _ hn

/-- A step of a worker that has entries to hand over, not closed: it hands over one, or goes on. -/
theorem work_turn {o : Outcome} {c c' : Channel P α} (hf : FifoInv c)
    (hm : ∀ n, c.worker = .move n → n = c.queue.length)
    (he : c.worker.foundEmpty = true → c.queue = []) (hn : c.handed.length < c.appended.length)
    (h : c.work false o = some c') :
    c'.handed.length = c.handed.length + 1 ∧ c'.turn ≤ 14 ∨ c'.handed = c.handed ∧ c'.turn < c.turn := by
  have hq (hi : c.worker.idle = true) : c.queue ≠ [] := hf.queue_ne_nil hi hn
  unfold Channel.work at h
  split at h
  all_goals rename_i e
  case h_2 | h_3 => split at h <;> cases h; exact .inr ⟨rfl, by simp [Channel.turn, e]⟩
  case h_4 =>
    cases h
    exact .inr ⟨rfl, by simp [Channel.turn, e, hq (by rw [e]; rfl)]⟩
  case h_5 | h_6 => exact absurd (he (by rw [e]; rfl)) (hq (by rw [e]; rfl))
  case h_9 n =>
    -- the batch is the queue, and it is not empty
    have hpos : n > 0 := by
      rw [hm n e]
      exact List.length_pos_iff.mpr (hq (by rw [e]; rfl))
    rw [if_pos hpos] at h
    cases h
    exact .inr ⟨rfl, by simp [Channel.turn, e, hq (by rw [e]; rfl)]⟩
  case h_10 | h_11 => cases h; exact .inr ⟨rfl, by simp only [Channel.turn, e]; split <;> decide⟩
  case h_12 =>
    split at h <;> cases h
    · rename_i hp
      exact .inr ⟨rfl, by simp [Channel.turn, e, hp]⟩
    · exact .inl ⟨by simp, by simp [Channel.turn]⟩
  case h_13 => split at h <;> cases h <;> exact .inr ⟨rfl, by simp [Channel.turn, e]⟩
  case h_14 => cases h; refine .inr ⟨rfl, ?_⟩; simp only [Channel.turn, e]; split <;> decide
  case h_7 | h_16 => cases h
  all_goals cases h; exact .inr ⟨rfl, by simp [Channel.turn, e]⟩

/-- The other threads do not set a worker back. -/
theorem Unworked.turn {c c' : Channel P α} (h : Unworked c c') : c'.turn ≤ c.turn := by
  obtain e | ⟨e, e'⟩ := h.worker
  · simp [Channel.turn, e, h.processQueue]
  · simp [Channel.turn, e, e']

theorem finished_isPrefix (c : Channel P α) : c.finished <+: c.handed := by
  unfold Channel.finished
  split
  · exact List.dropLast_prefix _
  · exact List.prefix_rfl

/-- Only the entry in `consume_*` has been handed over and not come back. -/
theorem consuming_of_unfinished {c : Channel P α} {k : Nat} (hk : k ≤ c.handed.length)
    (hn : ¬ k ≤ c.finished.length) : c.worker = .consume := by
  by_contra hw
  rw [Channel.finished, if_neg hw] at hn
  exact hn hk

theorem work_comes_back {exit : Bool} {o : Outcome} {c c' : Channel P α} (hw : c.worker = .consume)
    (h : c.work exit o = some c') : c'.handed = c.handed ∧ c'.worker = .pop := by
  simp only [Channel.work, hw] at h
  split at h <;> cases h <;> exact ⟨rfl, rfl⟩

theorem work_appended {exit : Bool} {o : Outcome} {c c' : Channel P α} (h : c.work exit o = some c') :
    c'.appended = c.appended := by
  unfold Channel.work at h
  repeat' split at h
  all_goals cases h
  all_goals rfl

/-- Nothing is taken back from the history of a queue. -/
theorem ChanStep.appended {s : State P α} {q : Chan} {c : Channel P α} (h : ChanStep s q c) :
    (s.chan q).appended <+: c.appended := by
  cases h with
  | wake => unfold Channel.wake; split <;> exact List.prefix_rfl
  | append => exact List.prefix_append _ _
  | work o hw => exact (work_appended hw).symm ▸ List.prefix_rfl
  | _ => exact List.prefix_rfl

theorem Running.closeOk {a : Act P α} {s : State P α} (h : Running a s) : CloseOk a s := by
  cases a with
  | close => cases h
  | _ => trivial

/-- What holds of a channel in a run that is not closed. -/
structure OpenInv (c : Channel P α) : Prop where
  running : c.worker ≠ .done
  size (n : Nat) : c.worker = .move n → n = c.queue.length

variable [DecidableEq P]

theorem exit_of_running {s : State P α} (h : (consumer P α queueSize).Reach Running s) :
    s.exit = false := by
  refine h.inv (I := fun s => s.exit = false) rfl fun a s s' hI ha hs => ?_
  obtain ⟨e, -⟩ | ⟨rfl, -⟩ := step_exit hs
  · rw [e]; exact hI
  · cases ha

theorem openInv {s : State P α} (h : (consumer P α queueSize).Reach Running s) (q : Chan) :
    OpenInv (s.chan q) := by
  have hd := (joinInv (h.mono fun _ _ => Running.closeOk)).drain q
  refine ⟨fun hq => ?_, hd.size⟩
  have he := exit_of_running h
  rw [hd.done hq] at he; cases he

theorem frontInv {ok : Act P α → State P α → Prop} {s : State P α}
    (h : (consumer P α queueSize).Reach ok s) (q : Chan) : FrontInv (s.chan q) := by
  refine h.inv (I := fun s => FrontInv (s.chan q)) (fun hw => by cases hw) fun a s s' hI _ hs => ?_
  by_cases ha : works q a
  · obtain ⟨o, rfl⟩ := works_iff.mp ha
    obtain ⟨c, hc, he, -⟩ := workStep_eq_some hs
    rw [he]
    exact .work hc
  · exact hI.unworked (step_unworked hs ha)

/-- A producer that has appended goes on to its `notify_all`, behind which nobody is blocked. -/
theorem queueStep_announcing {s s' : State P α} {p : P} {o : Outcome} {c : QueueCall α}
    (hc : c.pc.announcing = true) (h : queueStep queueSize p o c s = some s') :
    (∀ q, (s'.chan q).worker ≠ .blocked) ∨
      ∃ c', s'.call p = some c' ∧ c'.chan = c.chan ∧ c'.pc.announcing = true ∧ c'.pc.left < c.pc.left := by
  unfold queueStep at h
  split at h
  all_goals rename_i e
  case h_10 => cases h; exact .inr ⟨_, setCall_self .., rfl, rfl, by simp [e, QueuePc.left]⟩
  case h_11 => cases h; exact .inl fun q => wake_not_blocked _
  all_goals rw [e] at hc; cases hc

section Fair

variable {ρ : (consumer P α queueSize).Behaviour Running} (hp : ∀ p, ρ.WeaklyFair (produces p))
include hp

theorem announced_wakes (p : P) (q : Chan) :
    ρ.LeadsTo (fun s => ∃ c, s.call p = some c ∧ c.chan = q ∧ c.pc.announcing = true)
      fun s => (s.chan q).worker ≠ .blocked := by
  refine .of_weaklyFair (hp p) (fun s => s.left p) ?_ ?_
  · rintro a s s' - ⟨c, hc, rfl, hh⟩ - - hs
    by_cases ha : produces p a
    · obtain ⟨o, rfl⟩ := produces_iff.mp ha
      obtain ⟨c', hc', hs⟩ := Option.bind_eq_some_iff.mp hs
      cases hc.symm.trans hc'
      obtain hn | ⟨d, hd, hdc, hdh, hlt⟩ := queueStep_announcing hh hs
      · exact .inl (hn _)
      · rw [← left_of_call hc, ← left_of_call hd] at hlt
        exact .inr ⟨⟨d, hd, hdc, hdh⟩, Nat.le_of_lt hlt, fun _ => hlt⟩
    · have hcall := step_call hs hc ha
      exact .inr ⟨⟨c, hcall, rfl, hh⟩, by rw [left_of_call hc, left_of_call hcall], fun h => absurd h ha⟩
  · rintro s - ⟨c, hc, rfl, hh⟩ -
    refine produces_enabled (fun _ _ h => h) hc ?_
    rintro (e | e) <;> rw [e] at hh <;> cases hh

/-- A worker that sleeps over a queue that is not empty is woken. -/
theorem sleeper_wakes (q : Chan) :
    ρ.LeadsTo (fun s => (s.chan q).worker = .blocked ∧ (s.chan q).queue ≠ [])
      fun s => (s.chan q).worker ≠ .blocked := by
  rintro n ⟨hb, hq⟩
  obtain ⟨p, hann⟩ := (awakeInv (ρ.reach n)).asleep q hb hq
  exact announced_wakes hp p q n hann

omit hp in
/-- A worker that cannot go on stays where it is, if it is not blocked. -/
theorem worker_kept {q : Chan} {w : WorkerPc} (hw : w ≠ .blocked) {n : Nat}
    (h : ((ρ.state n).chan q).worker = w)
    (hn : ∀ m ≥ n, ¬ (consumer P α queueSize).Enabled Running (works q) (ρ.state m)) :
    ∀ m ≥ n, ((ρ.state m).chan q).worker = w :=
  Behaviour.keeps (P := fun s : State P α => (s.chan q).worker = w) h fun m hm a hwm ha hs => by
    obtain e | ⟨e, -⟩ := (step_unworked hs fun hT => hn m hm ⟨a, _, hT, ha, hs⟩).worker
    · rw [e]; exact hwm
    · exact absurd (hwm.symm.trans e) hw

/-- A worker that has entries to hand over can go on again and again. -/
theorem works_again {q : Chan} (hq : ρ.WeaklyFair (works q)) :
    ρ.LeadsTo (fun s => (s.chan q).handed.length < (s.chan q).appended.length)
      ((consumer P α queueSize).Enabled Running (works q)) := by
  intro n hn
  by_contra hnot
  push Not at hnot
  -- it is awake from some time on
  obtain ⟨k, hk, hb⟩ : ∃ k ≥ n, ((ρ.state k).chan q).worker ≠ .blocked := by
    by_cases hb : ((ρ.state n).chan q).worker = .blocked
    · have hne := (fifoInv (ρ.reach n) q).queue_ne_nil (by rw [hb]; rfl) hn
      exact sleeper_wakes hp q n ⟨hb, hne⟩
    · exact ⟨n, Nat.le_refl n, hb⟩
  have hstuck (m : Nat) (hm : m ≥ k) := hnot m (Nat.le_trans hk hm)
  have hkept := worker_kept hb rfl hstuck
  -- and then at the mutex, which comes free
  obtain ⟨m, hm, ho⟩ := mutex_freed (fun _ _ h => h) hp hq k trivial
  exact hstuck m hm (works_enabled (fun _ _ h => h) (openInv (ρ.reach m) q).running
    (by rw [hkept m hm]; exact hb) fun _ => ho)

theorem handed_of_appended {q : Chan} (hq : ρ.StronglyFair (works q)) (k : Nat) :
    ρ.LeadsTo (fun s => k ≤ (s.chan q).appended.length) fun s => k ≤ (s.chan q).handed.length := by
  refine .of_stronglyFair hq
    (fun s : State P α => 15 * (k - (s.chan q).handed.length) + (s.chan q).turn) ?_ ?_
  · intro a s s' hr hk hn ha hs
    have hk' : k ≤ (s'.chan q).appended.length := Nat.le_trans hk (step_chan hs q).appended.length_le
    by_cases hT : works q a
    · obtain ⟨o, rfl⟩ := works_iff.mp hT
      obtain ⟨c, hc, he, -⟩ := workStep_eq_some hs
      rw [exit_of_running hr] at hc
      have hlt := work_turn (fifoInv hr q) (openInv hr q).size ((awakeInv hr).empty q) (by omega) hc
      rw [← he] at hlt
      refine .inr ⟨hk', ?_⟩
      obtain ⟨hh, ht⟩ | ⟨hh, ht⟩ := hlt
      · omega
      · rw [hh]; omega
    · have hw := step_unworked hs hT
      have ht := hw.turn
      refine .inr ⟨hk', ?_, fun h => absurd h hT⟩
      rw [hw.handed]; omega
  · intro n hn
    by_cases hh : k ≤ ((ρ.state n).chan q).handed.length
    · exact ⟨n, Nat.le_refl n, .inl hh⟩
    · obtain ⟨m, hm, he⟩ := works_again hp hq.weaklyFair n (by omega)
      exact ⟨m, hm, .inr he⟩

omit hp in
/-- A call of `consume_*` comes back. -/
theorem consume_returns {q : Chan} (hq : ρ.WeaklyFair (works q)) (k : Nat) :
    ρ.LeadsTo (fun s => k ≤ (s.chan q).handed.length) fun s => k ≤ (s.chan q).finished.length := by
  refine .of_weaklyFair hq (fun _ => 0) ?_ ?_
  · intro a s s' _ hk hn _ hs
    have hw := consuming_of_unfinished hk hn
    by_cases hT : works q a
    · obtain ⟨o, rfl⟩ := works_iff.mp hT
      obtain ⟨c, hc, he, -⟩ := workStep_eq_some hs
      obtain ⟨hh, hw'⟩ := work_comes_back hw hc
      rw [he, Channel.finished, if_neg (by rw [hw']; nofun), hh]
      exact .inl hk
    · exact .inr ⟨by rw [(step_unworked hs hT).handed]; exact hk, Nat.le_refl 0, fun h => absurd h hT⟩
  · intro s _ hk hn
    have hw := consuming_of_unfinished hk hn
    refine works_enabled (fun _ _ h => h) ?_ ?_ ?_ <;> rw [hw] <;> nofun

theorem finished_of_appended {q : Chan} (hq : ρ.StronglyFair (works q)) (k : Nat) :
    ρ.LeadsTo (fun s => k ≤ (s.chan q).appended.length) fun s => k ≤ (s.chan q).finished.length :=
  (handed_of_appended hp hq k).trans (consume_returns hq.weaklyFair k)

end Fair

/-- In every endless run that is not closed, that is weakly fair to each
producer and strongly fair to the worker of a queue, for any producers and
whichever entries make `consume_*` throw: what has been appended to the
queue is consumed in the end, in the order of the appends. -/
theorem eventually_consumed (ρ : (consumer P α queueSize).Behaviour Running)
    (hp : ∀ p, ρ.WeaklyFair (produces p)) {q : Chan} (hq : ρ.StronglyFair (works q)) (n : Nat) :
    ∃ m ≥ n, ((ρ.state n).chan q).appended <+: ((ρ.state m).chan q).finished := by
  obtain ⟨m, hm, hlen⟩ := finished_of_appended hp hq _ n (Nat.le_refl _)
  have happ : ((ρ.state n).chan q).appended <+: ((ρ.state m).chan q).appended :=
    Behaviour.keeps (P := fun s : State P α => ((ρ.state n).chan q).appended <+: (s.chan q).appended)
      List.prefix_rfl (fun k _ a hk _ hs => hk.trans (step_chan hs q).appended) m hm
  have hfin : ((ρ.state m).chan q).finished <+: ((ρ.state m).chan q).appended :=
    (finished_isPrefix _).trans ((List.prefix_append _ _).trans (fifoInv (ρ.reach m) q).prefix_appended)
  exact ⟨m, hm, List.prefix_of_prefix_length_le happ hfin hlen⟩

/-- A trace is appended while `run_traces` sleeps, which wakes, consumes it and sleeps again. -/
theorem eventually_consumed_run : ∃ ρ : (consumer Unit Nat 5000).Behaviour Running,
    (((ρ.state 9).chan .traces).appended = [1] ∧ ((ρ.state 9).chan .traces).worker = .blocked) ∧
      ∃ m ≥ 9, ((ρ.state 9).chan .traces).appended <+: ((ρ.state m).chan .traces).finished := by
  have hrun : ((consumer Unit Nat 5000).run Running
      ((toWait .traces ++ .work .traces .returns :: (pushWithRoom () .traces 1).take 4) ++
        (List.replicate 2 (.produce () .returns) ++ List.replicate 16 (.work .traces .returns)))
      (consumer Unit Nat 5000).init).any (fun s => (s.call ()).isNone &&
        (s.chan .traces).worker == .blocked) = true := by
    decide
  obtain ⟨s, h, hp⟩ := (Option.any_eq_true _ _).mp hrun
  simp only [Bool.and_eq_true, beq_iff_eq, Option.isNone_iff_eq_none] at hp
  obtain ⟨hc, ht⟩ := hp
  have hstate := Behaviour.ofRun_state_left _ h rfl
  refine ⟨Behaviour.ofRun _ h, ⟨congrArg (fun s => (s.chan .traces).appended) hstate,
    congrArg (fun s => (s.chan .traces).worker) hstate⟩, ?_⟩
  exact eventually_consumed _ (fun p => (Behaviour.ofRun_stronglyFair h (not_produces_enabled hc)).weaklyFair)
    (Behaviour.ofRun_stronglyFair h (not_works_enabled ht)) 9

end SqlDb.Consumer
