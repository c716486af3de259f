import SqlDbPlugin.Database.SqlDatabase

/-!
# What the traversal of a trace visits

`dfs_inline_traces` decides with each result of `add` whether it goes
further down. A result of `add` is whether the name of the action is in the
filter (`Answers`), so the calls are known beforehand: `visits` lists the
nodes they are made for, in order, each with its position in the forest.
`dfsInlineTraces_eq` is the traversal as a loop over that list, for every
`add` that answers like this, so also for one that logs its calls
(`traceCalls_eq`). `mem_visits_iff` says which positions are visited: those
of nodes executed for their own account, all of whose ancestors the
traversal enters (`Enters`). `blockArgs` does the same for a block.
-/

namespace SqlDb

open Sql (each logged callsOf trail withLog)
open ActionsTable (AddArgs)
open SqlDatabase

/-- Where a node is: the index of its tree in the forest, then the indices
of its ancestors and of itself among their siblings. -/
abbrev Position := List Nat

namespace ActionTrace

/-- The node at a position. -/
def nodeAt : List ActionTrace → Position → Option ActionTrace
  | _, [] => none
  | ts, [i] => ts[i]?
  | ts, i :: j :: p => ts[i]?.bind fun t => nodeAt t.inlineTraces (j :: p)

/-- A node whose action is to be recorded: it was executed for its own
account (no notification), and its name is in the filter. -/
def Matches (filter : List String) (t : ActionTrace) : Prop :=
  t.receiver = t.act.account ∧ t.act.name.str ∈ filter

/-- A node under which the traversal goes on: it was executed for its own
account, and its name is not in the filter. -/
def Enters (filter : List String) (t : ActionTrace) : Prop :=
  t.receiver = t.act.account ∧ t.act.name.str ∉ filter

instance (filter : List String) (t : ActionTrace) : Decidable (t.Matches filter) :=
  inferInstanceAs (Decidable (_ ∧ _))

instance (filter : List String) (t : ActionTrace) : Decidable (t.Enters filter) :=
  inferInstanceAs (Decidable (_ ∧ _))

mutual

/-- The nodes of a forest whose actions are passed to `add`, in order: each
one's position, the first index counted from `i`, and its action. -/
def visits (filter : List String) (i : Nat) : List ActionTrace → List (Position × Action)
  | [] => []
  | t :: ts => (visit filter t).map (fun v => (i :: v.1, v.2)) ++ visits filter (i + 1) ts

/-- The nodes of a tree whose actions are passed to `add`: each one's
position below the root, and its action. -/
def visit (filter : List String) : ActionTrace → List (Position × Action)
  | ⟨receiver, act, inlineTraces⟩ =>
    if receiver = act.account then
      ([], act) :: if act.name.str ∈ filter then [] else visits filter 0 inlineTraces
    else []

end

/-- The actions passed to `add`, in order. -/
def visited (filter : List String) (ts : List ActionTrace) : List Action :=
  (visits filter 0 ts).map Prod.snd

variable {filter : List String}

theorem visited_shift (i : Nat) (ts : List ActionTrace) :
    (visits filter i ts).map Prod.snd = visited filter ts := by
  induction ts generalizing i with
  | nil => rfl
  | cons t ts ih =>
    have h := (ih (i + 1)).trans (ih 1).symm
    simp only [visited, visits, List.map_append, List.map_map]
    exact congrArg₂ _ rfl h

theorem visited_cons (t : ActionTrace) (ts : List ActionTrace) :
    visited filter (t :: ts) = (visit filter t).map Prod.snd ++ visited filter ts := by
  rw [visited, visits, List.map_append, visited_shift, List.map_map]
  rfl

theorem visited_append (ts ts' : List ActionTrace) :
    visited filter (ts ++ ts') = visited filter ts ++ visited filter ts' := by
  induction ts with
  | nil => rfl
  | cons t ts ih => rw [List.cons_append, visited_cons, visited_cons, ih, List.append_assoc]

theorem map_visit (r : Name) (a : Action) (ts : List ActionTrace) :
    (visit filter ⟨r, a, ts⟩).map Prod.snd =
      if r = a.account then a :: if a.name.str ∈ filter then [] else visited filter ts else [] := by
  rw [visit]
  split
  · split
    · rfl
    · rfl
  · rfl

/-! ## Positions -/

theorem mem_visits {k : Nat} {ts : List ActionTrace} {v : Position × Action} :
    v ∈ visits filter k ts ↔
      ∃ i q t, ts[i]? = some t ∧ (q, v.2) ∈ visit filter t ∧ v.1 = (k + i) :: q := by
  induction ts generalizing k with
  | nil => simp [visits]
  | cons t ts ih =>
    rw [visits, List.mem_append, ih]
    constructor
    · rintro (h | ⟨i, q, t', ht, hv, hp⟩)
      · obtain ⟨⟨q, a⟩, hv, rfl⟩ := List.mem_map.mp h
        exact ⟨0, q, t, rfl, hv, rfl⟩
      · exact ⟨i + 1, q, t', ht, hv, by rw [hp, Nat.add_right_comm, Nat.add_assoc]⟩
    · rintro ⟨_ | i, q, t', ht, hv, hp⟩
      · cases ht
        exact .inl (List.mem_map.mpr ⟨(q, v.2), hv, Prod.ext hp.symm rfl⟩)
      · exact .inr ⟨i, q, t', ht, hv, by rw [hp, Nat.add_right_comm, Nat.add_assoc]⟩

theorem mem_visit_nil {t : ActionTrace} {a : Action} :
    ([], a) ∈ visit filter t ↔ t.receiver = t.act.account ∧ t.act = a := by
  rcases t with ⟨r, act, ts⟩
  have h : ([], a) ∉ visits filter 0 ts := by simp [mem_visits]
  rw [visit, receiver, ActionTrace.act]
  by_cases hr : r = act.account
  · by_cases hf : act.name.str ∈ filter
    · simp [hr, hf, eq_comm]
    · simp [hr, hf, h, eq_comm]
  · simp [hr]

theorem mem_visit_cons {t : ActionTrace} {i : Nat} {p : Position} {a : Action} :
    (i :: p, a) ∈ visit filter t ↔ t.Enters filter ∧ (i :: p, a) ∈ visits filter 0 t.inlineTraces := by
  rcases t with ⟨r, act, ts⟩
  rw [visit, Enters, receiver, ActionTrace.act, inlineTraces]
  by_cases hr : r = act.account
  · by_cases hf : act.name.str ∈ filter
    · simp [hf]
    · simp [hr, hf]
  · simp [hr]

/-- The traversal enters every proper ancestor of the position. -/
def Reaches (filter : List String) (ts : List ActionTrace) (p : Position) : Prop :=
  ∀ q t, q <+: p → q ≠ p → nodeAt ts q = some t → t.Enters filter

theorem reaches_singleton (ts : List ActionTrace) (i : Nat) : Reaches filter ts [i] := by
  intro q t hq hne ht
  obtain rfl | ⟨q', rfl, hq'⟩ := List.prefix_cons_iff.mp hq
  · cases ht
  · exact absurd (by rw [List.prefix_nil.mp hq']) hne

theorem reaches_cons {ts : List ActionTrace} {i j : Nat} {p : Position} {t : ActionTrace}
    (ht : ts[i]? = some t) :
    Reaches filter ts (i :: j :: p) ↔ t.Enters filter ∧ Reaches filter t.inlineTraces (j :: p) := by
  have hnode (k : Nat) (q : Position) : nodeAt ts (i :: k :: q) = nodeAt t.inlineTraces (k :: q) := by
    rw [nodeAt, ht, Option.bind_some]
  constructor
  · intro h
    refine ⟨h [i] t (List.prefix_append [i] (j :: p)) (by simp) ht, fun q t' hq hne ht' => ?_⟩
    rcases q with _ | ⟨k, q⟩
    · cases ht'
    · refine h (i :: k :: q) t' ?_ (fun he => hne (List.cons_inj_right i |>.mp he)) (by rw [hnode, ht'])
      exact List.prefix_cons_inj i |>.mpr hq
  · rintro ⟨he, h⟩ q t' hq hne ht'
    obtain rfl | ⟨q', rfl, hq'⟩ := List.prefix_cons_iff.mp hq
    · cases ht'
    · rcases q' with _ | ⟨k, q⟩
      · rw [nodeAt, ht] at ht'
        cases ht'
        exact he
      · exact h (k :: q) t' hq' (fun he => hne (by rw [he])) (by rw [← hnode, ht'])

/-- The positions visited are those of the nodes executed for their own
account, all of whose ancestors the traversal enters. -/
theorem mem_visits_iff {ts : List ActionTrace} {p : Position} {a : Action} :
    (p, a) ∈ visits filter 0 ts ↔
      ∃ t, nodeAt ts p = some t ∧ t.receiver = t.act.account ∧ t.act = a ∧ Reaches filter ts p := by
  induction p generalizing ts with
  | nil => simp [mem_visits, nodeAt]
  | cons i p ih =>
    have hi : (i :: p, a) ∈ visits filter 0 ts ↔ ∃ t, ts[i]? = some t ∧ (p, a) ∈ visit filter t := by
      simp [mem_visits]
    rw [hi]
    rcases p with _ | ⟨j, p⟩
    · simp only [mem_visit_nil, nodeAt]
      exact exists_congr fun t => and_congr_right fun _ =>
        ⟨fun h => ⟨h.1, h.2, reaches_singleton ts i⟩, fun h => ⟨h.1, h.2.1⟩⟩
    · simp only [mem_visit_cons, ih, nodeAt]
      constructor
      · rintro ⟨t, ht, he, t', hn, hr, ha, hR⟩
        exact ⟨t', by rw [ht]; exact hn, hr, ha, (reaches_cons ht).mpr ⟨he, hR⟩⟩
      · rintro ⟨t', hn, hr, ha, hR⟩
        obtain ⟨t, ht, hn⟩ := Option.bind_eq_some_iff.mp hn
        have h := (reaches_cons ht).mp hR
        exact ⟨t, ht, h.1, t', hn, hr, ha, h.2⟩

/-- What holds of the actions visited, in terms of the nodes. -/
theorem forall_visited {ts : List ActionTrace} {P : Action → Prop} :
    (∀ a ∈ visited filter ts, P a) ↔
      ∀ p t, nodeAt ts p = some t → t.receiver = t.act.account → Reaches filter ts p → P t.act := by
  constructor
  · intro h p t ht hr hR
    have hv := mem_visits_iff.mpr ⟨t, ht, hr, rfl, hR⟩
    exact h t.act (List.mem_map.mpr ⟨(p, t.act), hv, rfl⟩)
  · intro h a ha
    obtain ⟨v, hv, rfl⟩ := List.mem_map.mp ha
    obtain ⟨t, ht, hr, he, hR⟩ := mem_visits_iff.mp hv
    rw [← he]
    exact h v.1 t ht hr hR

mutual

/-- The positions visited come in pre-order. -/
theorem visits_sorted (k : Nat) :
    (ts : List ActionTrace) → (visits filter k ts).Pairwise fun v w => v.1 < w.1
  | [] => by rw [visits]; exact .nil
  | t :: ts => by
    rw [visits, List.pairwise_append]
    refine ⟨List.pairwise_map.mpr ((visit_sorted t).imp fun h => ?_), visits_sorted (k + 1) ts, ?_⟩
    · exact List.cons_lt_cons_iff.mpr (.inr ⟨rfl, h⟩)
    · intro v hv w hw
      obtain ⟨v, hv, rfl⟩ := List.mem_map.mp hv
      obtain ⟨i, q, t', ht, hv', hp⟩ := mem_visits.mp hw
      rw [hp]
      exact List.cons_lt_cons_iff.mpr (.inl (by omega))

theorem visit_sorted : (t : ActionTrace) → (visit filter t).Pairwise fun v w => v.1 < w.1
  | ⟨r, act, ts⟩ => by
    rw [visit]
    split
    · refine List.pairwise_cons.mpr ⟨fun w hw => ?_, ?_⟩
      · split at hw
        · cases hw
        · obtain ⟨i, q, t, ht, hv, hp⟩ := mem_visits.mp hw
          rw [hp]
          exact List.nil_lt_cons _ _
      · split
        · exact .nil
        · exact visits_sorted 0 ts
    · exact .nil

end

/-- No position is visited twice. -/
theorem nodup_positions (ts : List ActionTrace) : ((visits filter 0 ts).map Prod.fst).Nodup :=
  List.pairwise_map.mpr ((visits_sorted 0 ts).imp fun h he => by
    rw [he] at h
    exact List.lt_irrefl _ h)

end ActionTrace

open ActionTrace (visited visit visited_cons map_visit)

/-! ## The traversal as a loop -/

variable {δ : Type} {filter : List String} {add : AddArgs → Sql Exn δ Bool}

/-- When `add` returns, it returns whether the name of the action is in the filter. -/
def Answers (filter : List String) (add : AddArgs → Sql Exn δ Bool) : Prop :=
  ∀ a w b w', (add a).run w = (.ok b, w') → b = decide (a.action.name.str ∈ filter)

theorem answers_add (L : ChainLib) (filter : List String) :
    Answers filter (ActionsTable.add L filter) := by
  intro a w b w' hr
  rw [ActionsTable.add] at hr
  split at hr
  · rename_i hf
    obtain ⟨json, w₁, -, hr⟩ := Sql.run_bind_eq_ok hr
    obtain ⟨dataJson, w₂, -, hr⟩ := Sql.run_bind_eq_ok hr
    obtain ⟨-, w₃, -, hr⟩ := Sql.run_bind_eq_ok hr
    obtain ⟨-, w₄, -, hr⟩ := Sql.run_bind_eq_ok hr
    cases hr
    exact (decide_eq_true hf).symm
  · rename_i hf
    cases hr
    exact (decide_eq_false hf).symm

theorem answers_dbAdd (L : ChainLib) (db : SqlDatabase) : Answers db.mActionFilterOn (db.add L) :=
  answers_add L db.mActionFilterOn

theorem answers_addWithSession (L : ChainLib) (db : SqlDatabase) :
    Answers db.mActionFilterOn (db.addWithSession L) := by
  intro a w b w' hr
  obtain ⟨-, w₁, -, hadd⟩ := Sql.run_bind_eq_ok hr
  exact answers_dbAdd L db a w₁ b w' hadd

theorem Answers.logged (h : Answers filter add) : Answers filter (logged add) := by
  intro a w b w' hr
  have hr : (add a).run ⟨w.db.1, w.faults⟩ = (.ok b, ⟨w'.db.1, w'.faults⟩) := by
    simp only [Sql.run, Sql.logged, Prod.mk.injEq] at hr ⊢
    rw [← hr.1, ← hr.2]
    rfl
  exact h _ _ _ _ hr

/-- What the traversal does with the result of `add`, it can do without. -/
theorem Answers.bind (h : Answers filter add) {β : Type} (a : AddArgs) (f : Bool → Sql Exn δ β) :
    add a >>= f = add a >>= fun _ => f (decide (a.action.name.str ∈ filter)) := by
  funext w
  show Sql.run _ w = Sql.run _ w
  rw [Sql.run_bind, Sql.run_bind]
  rcases hr : (add a).run w with ⟨_ | b, w'⟩
  · rfl
  · rw [h _ _ _ _ hr]

mutual

/-- The traversal calls `add` on the actions visited, one after the other. -/
theorem dfsInlineTraces_eq (h : Answers filter add) (id : String) (time : BlockTimestamp) :
    (ts : List ActionTrace) →
      dfsInlineTraces add id time ts = each add ((visited filter ts).map (⟨·, id, time⟩))
  | [] => by rw [dfsInlineTraces]; rfl
  | t :: ts => by
    rw [dfsInlineTraces, visited_cons, List.map_append, Sql.each_append, dfsInlineTrace_eq h id time t,
      dfsInlineTraces_eq h id time ts]

theorem dfsInlineTrace_eq (h : Answers filter add) (id : String) (time : BlockTimestamp) :
    (t : ActionTrace) →
      dfsInlineTrace add id time t =
        each add (((visit filter t).map Prod.snd).map (⟨·, id, time⟩))
  | ⟨r, act, ts⟩ => by
    rw [dfsInlineTrace, map_visit]
    split
    · rw [h.bind, List.map_cons, each]
      refine bind_congr fun _ => ?_
      by_cases hf : act.name.str ∈ filter
      · simp only [hf, decide_true, ite_true]
        rfl
      · simp only [hf, decide_false, ite_false, Bool.not_false, true_and]
        rw [dfsInlineTraces_eq h id time ts]
        split
        · rfl
        · rename_i hn
          rw [List.length_eq_zero_iff.mp (not_not.mp hn)]
          rfl
    · rfl

end

/-- Whether a call of `add` returned true. It does so whatever becomes of the
`INSERT`, whose failure is only logged. -/
def isSuccess (c : Sql.Call Exn δ AddArgs Bool) : Bool :=
  match c.result with
  | .ok b => b
  | .error _ => false

/-- Of the calls of a loop that returns, those with a name in the filter return true. -/
theorem recorded_args (h : Answers filter add) {as : List AddArgs} {w w' : World Exn δ}
    (hr : (each add as).run w = (.ok (), w')) :
    ((trail add as w).filter isSuccess).map (·.arg) =
      as.filter fun a => a.action.name.str ∈ filter := by
  obtain ⟨hargs, hok⟩ := Sql.trail_of_ok hr
  have hrec : ∀ c ∈ trail add as w, isSuccess c = decide (c.arg.action.name.str ∈ filter) := by
    intro c hc
    obtain ⟨b, hb⟩ := hok c hc
    have hcall := (Sql.run_of_mem_trail hc).2
    rw [hb] at hcall
    rw [isSuccess, hb, h _ _ _ _ hcall]
  calc ((trail add as w).filter isSuccess).map (·.arg)
      = ((trail add as w).filter ((fun a => decide (a.action.name.str ∈ filter)) ∘ (·.arg))).map
          (·.arg) := by rw [List.filter_congr hrec]; rfl
    _ = as.filter fun a => a.action.name.str ∈ filter := by rw [← List.filter_map, hargs]

/-- The calls of `add` made by the traversal of a forest in the world `w`. -/
def dfsCalls (add : AddArgs → Sql Exn δ Bool) (id : String) (time : BlockTimestamp)
    (ts : List ActionTrace) (w : World Exn δ) : List (Sql.Call Exn δ AddArgs Bool) :=
  callsOf (dfsInlineTraces (logged add) id time ts) w

theorem dfsCalls_eq (h : Answers filter add) (id : String) (time : BlockTimestamp)
    (ts : List ActionTrace) (w : World Exn δ) :
    dfsCalls add id time ts w = trail add ((visited filter ts).map (⟨·, id, time⟩)) w := by
  rw [dfsCalls, callsOf, dfsInlineTraces_eq h.logged, Sql.run_each_logged]
  rfl

/-- The calls of `add` made by consuming a trace in the world `w`. -/
def traceCalls (add : AddArgs → Sql Exn δ Bool) (tc : TransactionTrace) (w : World Exn δ) :
    List (Sql.Call Exn δ AddArgs Bool) :=
  callsOf (consumeTransactionTrace (logged add) tc) w

/-- What `add` is called with when a trace is consumed. -/
def traceArgs (filter : List String) (tc : TransactionTrace) : List AddArgs :=
  (visited filter tc.actionTraces).map (⟨·, tc.id, tc.blockTime⟩)

theorem consumeTransactionTrace_eq (h : Answers filter add) (tc : TransactionTrace) :
    consumeTransactionTrace add tc = getSession >>= fun _ => each add (traceArgs filter tc) := by
  rw [consumeTransactionTrace, dfsInlineTraces_eq h]
  rfl

theorem run_getSession_withLog {α β : Type} (w : World Exn δ) (log : List (Sql.Call Exn δ α β)) :
    getSession.run (withLog w log) = ((getSession.run w).1, withLog (getSession.run w).2 log) := by
  rcases w with ⟨d, _ | ⟨_ | _, fs⟩⟩ <;> rfl

/-- Once it has a session, consuming a trace makes the calls of a loop over `traceArgs`. -/
theorem traceCalls_eq (h : Answers filter add) {tc : TransactionTrace} {w w' : World Exn δ}
    (hs : getSession.run w = (.ok (), w')) :
    traceCalls add tc w = trail add (traceArgs filter tc) w' := by
  have hl := run_getSession_withLog w ([] : List (Sql.Call Exn δ AddArgs Bool))
  rw [hs] at hl
  rw [traceCalls, callsOf, consumeTransactionTrace_eq h.logged, Sql.run_bind_ok hl,
    Sql.run_each_logged]
  rfl

/-- The calls made are calls of `add` on what the traversal visits. -/
theorem mem_traceCalls (h : Answers filter add) {tc : TransactionTrace} {w : World Exn δ}
    {c : Sql.Call Exn δ AddArgs Bool} (hc : c ∈ traceCalls add tc w) :
    c.arg ∈ traceArgs filter tc ∧ (add c.arg).run c.before = (c.result, c.after) := by
  rcases hs : Sql.run getSession w with ⟨e | _, w₁⟩
  · have hl := run_getSession_withLog w ([] : List (Sql.Call Exn δ AddArgs Bool))
    rw [hs] at hl
    rw [traceCalls, callsOf, consumeTransactionTrace, Sql.run_bind_error hl] at hc
    cases hc
  · rw [traceCalls_eq h hs] at hc
    exact Sql.run_of_mem_trail hc

/-! ## Blocks -/

variable {L : ChainLib}

/-- What `add` is called with for a receipt. -/
def receiptArgs (L : ChainLib) (timestamp : BlockTimestamp) :
    TransactionReceipt → Except Exn (List AddArgs)
  | .id _ => .ok []
  | .packed raw => do
    let trx ← L.unpackTransaction raw
    return if isOnblock (trx.actions.map Action.name) then []
      else trx.actions.map (⟨·, trx.id, timestamp⟩)

/-- What `add` is called with for the receipts of a block up to the first
that does not unpack, and how that one fails, if there is one. -/
def receiptsArgs (L : ChainLib) (timestamp : BlockTimestamp) :
    List TransactionReceipt → List AddArgs × Except Exn Unit
  | [] => ([], .ok ())
  | r :: rs =>
    match receiptArgs L timestamp r with
    | .ok as => (as ++ (receiptsArgs L timestamp rs).1, (receiptsArgs L timestamp rs).2)
    | .error e => ([], .error e)

/-- What `add` is called with when a block is consumed. -/
def blockArgs (L : ChainLib) (bs : BlockState) : List AddArgs :=
  (receiptsArgs L bs.timestamp bs.transactions).1

/-- The calls of `add` made by consuming a block in the world `w`. -/
def blockCalls (L : ChainLib) (add : AddArgs → Sql Exn δ Bool) (bs : BlockState) (w : World Exn δ) :
    List (Sql.Call Exn δ AddArgs Bool) :=
  callsOf (consumeBlockState L (logged add) bs) w

theorem consumeReceipt_eq (L : ChainLib) (add : AddArgs → Sql Exn δ Bool) (time : BlockTimestamp)
    (r : TransactionReceipt) :
    consumeReceipt L add time r = Sql.lift (receiptArgs L time r) >>= each add := by
  rcases r with _ | raw
  · rfl
  · funext w
    show Sql.run _ w = Sql.run _ w
    simp only [receiptArgs, Sql.run_bind, Sql.run_lift]
    rcases L.unpackTransaction raw with _ | trx
    · rfl
    · show Sql.run (if isOnblock (trx.actions.map Action.name) then _ else _) w =
        Sql.run (each add (if isOnblock (trx.actions.map Action.name) then _ else _)) w
      split
      · rfl
      · rw [Sql.each_map]

/-- A block is consumed by a loop over `blockArgs`, and an exception behind
it if the loop has ended at a transaction that does not unpack. -/
theorem consumeBlockState_eq (L : ChainLib) (add : AddArgs → Sql Exn δ Bool) (bs : BlockState) :
    consumeBlockState L add bs =
      each add (blockArgs L bs) >>= fun _ => Sql.lift (receiptsArgs L bs.timestamp bs.transactions).2 := by
  rw [consumeBlockState, blockArgs]
  induction bs.transactions with
  | nil => rfl
  | cons r rs ih =>
    rw [each, consumeReceipt_eq, receiptsArgs]
    rcases receiptArgs L bs.timestamp r with e | as
    · rfl
    · show each add as >>= (fun _ => each (consumeReceipt L add bs.timestamp) rs) = _
      rw [ih, Sql.each_append, bind_assoc]

/-- Consuming a block makes the calls of a loop over `blockArgs`. -/
theorem blockCalls_eq (L : ChainLib) (add : AddArgs → Sql Exn δ Bool) (bs : BlockState)
    (w : World Exn δ) : blockCalls L add bs w = trail add (blockArgs L bs) w := by
  rw [blockCalls, callsOf, consumeBlockState_eq, Sql.run_bind, Sql.run_each_logged]
  rcases ((each add (blockArgs L bs)).run w).1 with _ | _ <;> simp [withLog]

end SqlDb
