import SqlDbPlugin.Consumer.Steps

/-!
# Exactly-once, in-order delivery

In every reachable state a channel's history is in one piece
(`fifo_delivery`): the entries handed to `consume_*`, the entries of the
process queue still to be handed over, and the queue, in this order, are the
entries appended. The move of the queue into the process queue loses nothing
because the process queue is then empty: it is filled only there, and the
worker comes back only after it has drained it (`FifoInv`).
-/

namespace SqlDb.Consumer

variable {P α : Type} {queueSize : Nat}

/-- The positions of a worker at which it has no batch: from the test of
`exit` to the move, and behind the drain loop. -/
def WorkerPc.idle : WorkerPc → Bool
  | .unlock _ | .log _ | .drain | .consume | .pop => false
  | _ => true

/-- The positions at which the front of the process queue has been handed
over and not yet popped. -/
def WorkerPc.delivering : WorkerPc → Bool
  | .consume | .pop => true
  | _ => false

/-- The entries of the process queue not yet handed over. -/
def Channel.pending (c : Channel P α) : List α :=
  if c.worker.delivering then c.processQueue.tail else c.processQueue

/-- The history of a channel is in one piece, and the worker has a batch
only between the move and the end of the drain loop. -/
structure FifoInv (c : Channel P α) : Prop where
  fifo : c.handed ++ c.pending ++ c.queue = c.appended
  idle : c.worker.idle = true → c.processQueue = []
  delivering : c.worker.delivering = true → c.processQueue ≠ []

theorem FifoInv.pending_idle {c : Channel P α} (h : FifoInv c) (hi : c.worker.idle = true) :
    c.pending = [] := by
  simp [Channel.pending, h.idle hi]

theorem FifoInv.prefix_appended {c : Channel P α} (h : FifoInv c) :
    c.handed ++ c.pending <+: c.appended :=
  ⟨c.queue, h.fifo⟩

theorem FifoInv.eq_appended {c : Channel P α} (h : FifoInv c) (hq : c.queue = []) :
    c.handed ++ c.pending = c.appended := by
  rw [← h.fifo, hq, List.append_nil]

theorem FifoInv.wake {c : Channel P α} (h : FifoInv c) : FifoInv c.wake := by
  unfold Channel.wake
  split
  · rename_i hb
    have hf := h.fifo
    simp only [Channel.pending, hb] at hf
    exact ⟨hf, fun _ => h.idle (by rw [hb]; rfl), nofun⟩
  · exact h

/-- A worker keeps the history in one piece. -/
theorem FifoInv.work {exit : Bool} {o : Outcome} {c c' : Channel P α} (h : FifoInv c)
    (hw : c.work exit o = some c') : FifoInv c' := by
  have hf := h.fifo
  have hi := h.idle
  unfold Channel.work at hw
  split at hw
  all_goals rename_i e
  all_goals simp only [Channel.pending, e, WorkerPc.delivering, Bool.false_eq_true, ite_false,
    ite_true] at hf
  all_goals simp only [e, WorkerPc.idle, forall_const, Bool.false_eq_true, false_implies] at hi
  case h_9 n =>
    -- the move: the process queue is empty, so nothing is overwritten
    split at hw <;> cases hw
    · exact ⟨by simpa [hi, Channel.pending, WorkerPc.delivering] using hf, nofun, nofun⟩
    · exact ⟨hf, nofun, nofun⟩
  case h_10 n | h_11 n => cases hw; exact ⟨hf, nofun, nofun⟩
  case h_12 =>
    split at hw <;> cases hw
    · rename_i hp
      exact ⟨by simpa [hp, Channel.pending, WorkerPc.delivering] using hf, fun _ => hp, nofun⟩
    · rename_i a t hp
      exact ⟨by simpa [hp, Channel.pending, WorkerPc.delivering] using hf, nofun,
        fun _ => by simp [hp]⟩
  case h_13 =>
    have hd := h.delivering (by rw [e]; rfl)
    split at hw <;> cases hw <;> exact ⟨hf, nofun, fun _ => hd⟩
  case h_14 => cases hw; exact ⟨hf, nofun, nofun⟩
  all_goals (repeat' split at hw) <;> cases hw
  all_goals exact ⟨hf, fun _ => hi, nofun⟩

theorem FifoInv.step {s : State P α} {q : Chan} {c : Channel P α} (h : FifoInv (s.chan q))
    (hs : ChanStep s q c) : FifoInv c := by
  cases hs with
  | same => exact h
  | wake => exact h.wake
  | acquire p ho => exact ⟨h.fifo, h.idle, h.delivering⟩
  | release p d hd hq hh => exact ⟨h.fifo, h.idle, h.delivering⟩
  | append p d hd hq hc =>
    refine ⟨?_, h.idle, h.delivering⟩
    have hf := h.fifo
    simp only [Channel.pending] at hf ⊢
    rw [← hf, List.append_assoc _ _ [d.e]]
  | work o hw => exact h.work hw

variable [DecidableEq P]

theorem fifoInv {ok : Act P α → State P α → Prop} {s : State P α}
    (h : (consumer P α queueSize).Reach ok s) : ∀ q, FifoInv (s.chan q) :=
  h.inv (I := fun s => ∀ q, FifoInv (s.chan q)) (fun _ => ⟨rfl, fun _ => rfl, fun h => by cases h⟩)
    fun _ _ _ hI _ hs q => (hI q).step (step_chan hs q)

/-- For any producers, in every interleaving, and whichever entries make
`consume_*` throw, the entries handed to `consume_*`, those of the process
queue not yet handed over and those of the queue are, in this order, exactly
the entries appended. -/
theorem fifo_delivery {s : State P α} (h : (consumer P α queueSize).Reachable s) (q : Chan) :
    (s.chan q).handed ++ (s.chan q).pending ++ (s.chan q).queue = (s.chan q).appended :=
  (fifoInv h q).fifo

/-- The steps of a push that finds room in its queue. -/
def pushWithRoom (p : P) (q : Chan) (e : α) : List (Act P α) :=
  .push p q e :: List.replicate 5 (.produce p .returns)

/-- The steps of a worker from the test of `exit` into `consume_*`, when its queue is not empty. -/
def takeBatch (q : Chan) : List (Act P α) := List.replicate 8 (.work q .returns)

/-- Two producers push a trace each, the worker takes both and hands over
the first, which throws, and a third trace arrives. -/
theorem fifo_delivery_run : ∃ s, (consumer Bool Nat 5000).Reachable s ∧
    ((s.chan .traces).handed = [1] ∧ (s.chan .traces).pending = [2] ∧ (s.chan .traces).queue = [3]) ∧
    (s.chan .traces).handed ++ (s.chan .traces).pending ++ (s.chan .traces).queue =
      (s.chan .traces).appended := by
  obtain ⟨s, hs, hp⟩ := Machine.reach_of_run (M := consumer Bool Nat 5000)
    (fun _ _ => True) (p := fun s => (s.chan .traces).handed == [1] && ((s.chan .traces).pending == [2] &&
      (s.chan .traces).queue == [3]))
    (pushWithRoom true .traces 1 ++ pushWithRoom false .traces 2 ++ takeBatch .traces ++
      [.work .traces .throws] ++ pushWithRoom true .traces 3) (by decide)
  simp only [Bool.and_eq_true, beq_iff_eq] at hp
  exact ⟨s, hs, hp, fifo_delivery hs .traces⟩

end SqlDb.Consumer
