import SqlDbPlugin.Consumer.Fifo

/-!
# Shutdown

`consumer::shutdown` and the destructor set `exit`, notify and join one of
the two workers. A worker that finds `exit` set at the head of its loop
leaves without looking at its queue, so what shutdown promises depends on
where the workers are when `exit` is set: one that still has its move ahead
in this turn (`WorkerPc.takesMore`) will take its whole queue along, any
other leaves its queue behind. And `run_traces` is never joined.

`CloseOk` is the condition on the steps of the closing thread under which
neither happens, and `shutdown_drains` is what shutdown then guarantees.
-/

namespace SqlDb.Consumer

variable {P α : Type} {queueSize : Nat}

/-- The positions of a worker at which its move is still ahead, whatever `exit` is. -/
def WorkerPc.takesMore : WorkerPc → Bool
  | .lock | .testEmpty | .testExit | .wait | .blocked | .woken | .size | .move _ => true
  | _ => false

/-- `exit` is set when each worker either has its move ahead in this turn of
its loop or has an empty queue, and the closing call returns when
`run_traces` has left its loop. -/
def CloseOk : Act P α → State P α → Prop
  | .close, s =>
    (s.closer = .setExit → ∀ q, (s.chan q).worker.takesMore = true ∨ (s.chan q).queue = []) ∧
    (s.closer = .join → (s.chan .traces).worker = .done)
  | _, _ => True

instance (p : Chan → Prop) [DecidablePred p] : Decidable (∀ q, p q) :=
  decidable_of_iff (p .blocks ∧ p .traces)
    ⟨fun h q => match q with | .blocks => h.1 | .traces => h.2, fun h => ⟨h _, h _⟩⟩

instance : ∀ (a : Act P α) (s : State P α), Decidable (CloseOk a s)
  | .close, _ => inferInstanceAs (Decidable (_ ∧ _))
  | .push .., _ | .produce .., _ | .work .., _ | .spurious _, _ => inferInstanceAs (Decidable True)

/-- Once `exit` is set, a worker either has its move ahead, or has the
entries of before the store in its batch or behind it. -/
structure DrainInv (s : State P α) (q : Chan) (c : Channel P α) : Prop where
  before : s.exit = true → s.beforeExit q <+: c.appended
  drain : s.exit = true → c.worker.takesMore = true ∨ s.beforeExit q <+: c.handed ++ c.pending
  size : ∀ n, c.worker = .move n → n = c.queue.length
  done : c.worker = .done → s.exit = true

theorem DrainInv.wake {s : State P α} {q : Chan} {c : Channel P α} (h : DrainInv s q c) :
    DrainInv s q c.wake := by
  unfold Channel.wake
  split
  · exact ⟨h.before, fun _ => .inl rfl, nofun, nofun⟩
  · exact h

/-- For a worker that has not left its loop and is not about to move the queue. -/
theorem DrainInv.of_running {s : State P α} {q : Chan} {c : Channel P α}
    (hb : s.exit = true → s.beforeExit q <+: c.appended)
    (hd : s.exit = true → c.worker.takesMore = true ∨ s.beforeExit q <+: c.handed ++ c.pending)
    (hm : ∀ n, c.worker ≠ .move n) (hn : c.worker ≠ .done) : DrainInv s q c :=
  ⟨hb, hd, fun n h => absurd h (hm n), fun h => absurd h hn⟩

/-- A worker keeps the entries of before the store ahead of it or behind it. -/
theorem DrainInv.work {s : State P α} {q : Chan} {o : Outcome} {c c' : Channel P α}
    (hf : FifoInv c) (h : DrainInv s q c) (hw : c.work s.exit o = some c') : DrainInv s q c' := by
  have hf' := hf.work hw
  have hb := h.before
  have hd := h.drain
  unfold Channel.work at hw
  split at hw
  all_goals rename_i e
  all_goals simp only [e, WorkerPc.takesMore, Bool.false_eq_true, false_or, true_or,
    Channel.pending, WorkerPc.delivering, ite_false, ite_true] at hd
  case h_1 =>
    -- `exit` is read here: a worker that sees it leaves, with its batch behind it
    cases hw
    by_cases he : s.exit = true
    · simp only [he, ite_true]
      exact ⟨hb, fun _ => .inr (hd he), fun _ hn => absurd hn (by simp), fun _ => he⟩
    · simp only [he]
      exact .of_running hb (fun h => absurd h he) (by simp) (by simp)
  case h_8 => cases hw; exact ⟨hb, fun _ => .inl rfl, fun n hn => by cases hn; rfl, fun hn => absurd hn (by simp)⟩
  case h_9 n =>
    -- the move takes the whole queue, and none is left out if there was one to take
    have hn := h.size n e
    split at hw <;> cases hw
    · exact .of_running hb (fun he => .inr (by rw [hf'.eq_appended rfl]; exact hb he)) (by simp) (by simp)
    · rename_i h0
      have hq : c.queue = [] := List.length_eq_zero_iff.mp (by omega)
      exact .of_running hb (fun he => .inr (by rw [hf'.eq_appended hq]; exact hb he)) (by simp) (by simp)
  case h_12 =>
    split at hw <;> cases hw
    · exact .of_running hb (fun he => .inr (hd he)) (by simp) (by simp)
    · rename_i a t hp
      refine .of_running hb (fun he => .inr ?_) (by simp) (by simp)
      simpa [Channel.pending, WorkerPc.delivering, hp] using hd he
  case h_13 => split at hw <;> cases hw <;> exact .of_running hb (fun he => .inr (hd he)) (by simp) (by simp)
  case h_10 | h_11 | h_14 | h_15 => cases hw; exact .of_running hb (fun he => .inr (hd he)) (by simp) (by simp)
  all_goals (repeat' split at hw) <;> cases hw
  all_goals exact .of_running hb (fun _ => .inl rfl) (by simp) (by simp)

theorem DrainInv.step {s : State P α} {q : Chan} {c : Channel P α} (hl : LockInv s)
    (hf : FifoInv (s.chan q)) (h : DrainInv s q (s.chan q)) (hs : ChanStep s q c) :
    DrainInv s q c := by
  cases hs with
  | same => exact h
  | wake => exact h.wake
  | acquire p ho => exact ⟨h.before, h.drain, h.size, h.done⟩
  | release p d hd hq hh => exact ⟨h.before, h.drain, h.size, h.done⟩
  | append p d hd hq hc =>
    refine ⟨fun he => (h.before he).trans (List.prefix_append _ _), h.drain, fun n hn => ?_, h.done⟩
    -- a producer that appends holds the mutex, so the worker is not about to move the queue
    have hh := hl.worker_not_holds ((holds_of_call hd q).mpr ⟨hq, by rw [hc]; rfl⟩)
    dsimp only at hn
    rw [hn] at hh; cases hh
  | work o hw => exact DrainInv.work hf h hw

theorem DrainInv.congr {s s' : State P α} {q : Chan} {c : Channel P α} (h : DrainInv s q c)
    (he : s'.exit = s.exit) (hb : s'.beforeExit = s.beforeExit) : DrainInv s' q c :=
  ⟨by rw [he, hb]; exact h.before, by rw [he, hb]; exact h.drain, h.size, by rw [he]; exact h.done⟩

/-- `exit` is set while the worker has its move ahead, or an empty queue. -/
theorem DrainInv.setExit {s s' : State P α} {q : Chan} (hf : FifoInv (s.chan q))
    (h : DrainInv s q (s.chan q)) (he : s'.exit = true)
    (hb : s'.beforeExit q = (s.chan q).appended)
    (hq : (s.chan q).worker.takesMore = true ∨ (s.chan q).queue = []) :
    DrainInv s' q (s.chan q) := by
  refine ⟨fun _ => hb ▸ List.prefix_rfl, fun _ => hq.imp_right fun hn => ?_, h.size, fun _ => he⟩
  have he : s'.beforeExit q = (s.chan q).handed ++ (s.chan q).pending :=
    hb.trans (hf.eq_appended hn).symm
  exact he ▸ List.prefix_rfl

/-- A worker that has left its loop does nothing any more. -/
theorem ChanStep.worker_done {s : State P α} {q : Chan} {c : Channel P α} (h : ChanStep s q c)
    (hd : (s.chan q).worker = .done) : c.worker = .done := by
  cases h with
  | wake => rw [wake_of_ne (by rw [hd]; nofun)]; exact hd
  | work o hw => simp [Channel.work, hd] at hw
  | _ => exact hd

/-! ## Outside the condition -/

/-- Entries of before the store of `exit` that no later move will take. -/
def Lost (s : State P α) (q : Chan) (c : Channel P α) : Prop :=
  s.exit = true ∧ c.worker.takesMore = false ∧ ¬ s.beforeExit q <+: c.handed ++ c.pending

/-- Setting `exit` while a worker has its move behind it and entries in its
queue loses them. -/
theorem lost_of_setExit {s s' : State P α} {q : Chan} (hf : FifoInv (s.chan q))
    (hc : s.closer = .setExit) (hs : closeStep s = some s')
    (hw : (s.chan q).worker.takesMore = false) (hq : (s.chan q).queue ≠ []) :
    Lost s' q (s'.chan q) := by
  obtain ⟨-, rfl⟩ | ⟨e, -⟩ | ⟨e, -⟩ := closeStep_cases hs
  · refine ⟨rfl, hw, fun hp => hq ?_⟩
    have hl := hp.length_le
    simp only [← hf.fifo, List.length_append] at hl
    exact List.length_eq_zero_iff.mp (by omega)
  all_goals cases e.symm.trans hc

/-- Once `exit` is set, a worker behind its move hands over its batch and leaves. -/
theorem work_behind {o : Outcome} {c c' : Channel P α} (hw : c.worker.takesMore = false)
    (h : c.work true o = some c') :
    c'.worker.takesMore = false ∧ c'.handed ++ c'.pending = c.handed ++ c.pending := by
  unfold Channel.work at h
  split at h
  all_goals rename_i e
  all_goals simp only [e, WorkerPc.takesMore, Bool.true_eq_false] at hw
  case h_1 | h_10 | h_11 | h_14 | h_15 =>
    cases h; exact ⟨rfl, by simp [Channel.pending, e, WorkerPc.delivering]⟩
  case h_12 =>
    split at h <;> cases h
    · exact ⟨rfl, by simp [Channel.pending, e, WorkerPc.delivering]⟩
    · rename_i a t hp
      exact ⟨rfl, by simp [Channel.pending, e, WorkerPc.delivering, hp]⟩
  case h_13 =>
    split at h <;> cases h <;> exact ⟨rfl, by simp [Channel.pending, e, WorkerPc.delivering]⟩
  case h_16 => cases h

theorem Lost.step {s : State P α} {q : Chan} {c : Channel P α} (h : Lost s q (s.chan q))
    (hs : ChanStep s q c) : Lost s q c := by
  obtain ⟨he, hw, hn⟩ := h
  cases hs with
  | wake =>
    rw [wake_of_ne (by intro hb; rw [hb] at hw; cases hw)]
    exact ⟨he, hw, hn⟩
  | work o hc =>
    rw [he] at hc
    obtain ⟨hw', hp⟩ := work_behind hw hc
    exact ⟨he, hw', hp ▸ hn⟩
  | _ => exact ⟨he, hw, hn⟩

variable [DecidableEq P]

/-- Where the closing thread is says whether `exit` is set, and it has
returned only after both workers have left their loops. -/
structure JoinInv (s : State P α) : Prop where
  drain (q : Chan) : DrainInv s q (s.chan q)
  exit : s.closer ≠ .setExit → s.exit = true
  joined : s.closer = .returned → ∀ q, (s.chan q).worker = .done

theorem joinInv_step {a : Act P α} {s s' : State P α} (hl : LockInv s)
    (hf : ∀ q, FifoInv (s.chan q)) (h : JoinInv s) (ha : CloseOk a s)
    (hs : step queueSize a s = some s') : JoinInv s' := by
  have hd : ∀ q, DrainInv s q (s'.chan q) := fun q => (h.drain q).step hl (hf q) (step_chan hs q)
  obtain ⟨he, hb, hc⟩ | ⟨rfl, hcl⟩ := step_exit hs
  · refine ⟨fun q => (hd q).congr he hb, by rw [hc, he]; exact h.exit, fun hr q => ?_⟩
    exact (step_chan hs q).worker_done (h.joined (hc ▸ hr) q)
  · obtain ⟨e, rfl⟩ | ⟨e, rfl⟩ | ⟨e, hj, rfl⟩ := closeStep_cases hcl
    · exact ⟨fun q => DrainInv.setExit (s := s) (hf q) (h.drain q) rfl rfl (ha.1 e q), fun _ => rfl, nofun⟩
    · exact ⟨fun q => (hd q).congr rfl rfl, fun _ => h.exit (by rw [e]; nofun), nofun⟩
    · refine ⟨fun q => (hd q).congr rfl rfl, fun _ => h.exit (by rw [e]; nofun), fun _ q => ?_⟩
      cases q with
      | blocks => exact hj
      | traces => exact ha.2 e

theorem joinInv {s : State P α} (h : (consumer P α queueSize).Reach CloseOk s) : JoinInv s :=
  h.inv_of (I := JoinInv) (J := fun s => LockInv s ∧ ∀ q, FifoInv (s.chan q))
    (fun _ hr => ⟨lockInv hr, fifoInv hr⟩)
    ⟨fun _ => ⟨nofun, nofun, nofun, nofun⟩, fun h => absurd rfl h, nofun⟩
    fun _ _ _ hJ hI ha hs => joinInv_step hJ.1 hJ.2 hI ha hs

/-- In every run whose closing steps meet `CloseOk`, once `shutdown` (or the
destructor) has returned, every entry appended before `exit` was set has
been handed to `consume_*`, and both workers have left their loops. -/
theorem shutdown_drains {s : State P α} (h : (consumer P α queueSize).Reach CloseOk s)
    (hr : s.closer = .returned) (q : Chan) :
    s.beforeExit q <+: (s.chan q).handed ∧ (s.chan q).worker = .done := by
  have hJ := joinInv h
  have hd := hJ.joined hr q
  have he := hJ.exit (by rw [hr]; nofun)
  refine ⟨?_, hd⟩
  obtain ht | hp := (hJ.drain q).drain he
  · rw [hd] at ht; cases ht
  · rwa [(fifoInv h q).pending_idle (by rw [hd]; rfl), List.append_nil] at hp

/-- What is lost stays lost, whatever the threads do. -/
theorem lost_step {a : Act P α} {s s' : State P α} {q : Chan} (h : Lost s q (s.chan q))
    (hj : s.closer ≠ .setExit) (hs : step queueSize a s = some s') : Lost s' q (s'.chan q) := by
  obtain ⟨he, hw, hn⟩ := h.step (step_chan hs q)
  obtain ⟨h₁, h₂, -⟩ | ⟨rfl, hcl⟩ := step_exit hs
  · exact ⟨h₁.trans he, hw, h₂ ▸ hn⟩
  · obtain ⟨e, -⟩ | ⟨-, rfl⟩ | ⟨-, -, rfl⟩ := closeStep_cases hcl
    · exact absurd e hj
    · exact ⟨he, hw, hn⟩
    · exact ⟨he, hw, hn⟩

/-- A trace is pushed, and `exit` is set while both workers are at the head
of their loops: `shutdown` returns with `run_traces` still in its loop and
the trace not handed over. -/
theorem shutdown_returns_early : ∃ s, (consumer Unit Nat 5000).Reachable s ∧
    s.closer = .returned ∧ s.beforeExit .traces = [1] ∧ (s.chan .traces).handed = [] ∧
    (s.chan .traces).worker ≠ .done := by
  obtain ⟨s, hs, hp⟩ := Machine.reach_of_run (M := consumer Unit Nat 5000)
    (fun _ _ => True) (p := fun s => s.closer == .returned && (s.beforeExit .traces == [1] &&
      ((s.chan .traces).handed == [] && (s.chan .traces).worker != .done)))
    (pushWithRoom () .traces 1 ++ [.close, .close, .work .blocks .returns, .close]) (by decide)
  simp only [Bool.and_eq_true, beq_iff_eq, bne_iff_ne] at hp
  exact ⟨s, hs, hp⟩

/-- A run that meets the condition: `run_traces` is blocked when a trace is
pushed and `exit` is set, and it leaves its loop before the call returns. -/
theorem shutdown_drains_run : ∃ s, (consumer Unit Nat 5000).Reach CloseOk s ∧
    (s.closer = .returned ∧ s.beforeExit .traces = [1]) ∧
    (s.beforeExit .traces <+: (s.chan .traces).handed ∧ (s.chan .traces).worker = .done) := by
  obtain ⟨s, hs, hp⟩ := Machine.reach_of_run (M := consumer Unit Nat 5000) CloseOk
    (p := fun s => s.closer == .returned && s.beforeExit .traces == [1])
    (List.replicate 5 (.work .traces .returns) ++ pushWithRoom () .traces 1 ++
      [.work .blocks .returns, .close, .close] ++ List.replicate 12 (.work .traces .returns) ++
      List.replicate 10 (.work .blocks .returns) ++ [.close]) (by decide)
  simp only [Bool.and_eq_true, beq_iff_eq] at hp
  exact ⟨s, hs, hp, shutdown_drains hs hp.1 .traces⟩

end SqlDb.Consumer
