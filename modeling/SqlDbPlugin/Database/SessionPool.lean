import SqlDbPlugin.Database.SqlDatabase
import SqlDbPlugin.Lib.Leases
import SqlDbPlugin.Lib.Machine

/-!
# The session pool

`session_pool.hpp`. Either call for a session leases a slot of the pool, and
may then find its connection broken, and fail to repair it. `get_session()`
leases for a session it shares, which gives the slot back when it is
destroyed, also by an exception; `get_session(pos)` leases a position, which
its caller releases. `slots_accounted`: as many slots are leased as there
are handles, unless a `get_session(pos)` has failed; `slot_lost` is a pool
whose only slot is lost so. The programs on the database have of all this a
statement that may fail (`getSession_statement`).
-/

namespace SqlDb.SessionPool

open Sql (query)

/-- The pool, and what the next calls of `mysql_ping` return: beyond the end of the list, zero. -/
structure Server (π : Type) where
  pool : π
  pings : List Int32 := []

variable {π : Type} (P : SlotPool π)

/-! ## The calls behind their leases -/

/-- `sql << "select 1;"` -/
def probe : Sql Exn (Server π) Unit := query fun _ => ()

/-- `soci::session::reconnect` -/
def reopen : Sql Exn (Server π) Unit := query fun _ => ()

def mysqlPing : Sql Exn (Server π) Int32 := fun w =>
  (.ok (w.db.pings.headD 0), { w with db := { w.db with pings := w.db.pings.tail } })

def giveBack (pos : Nat) : Sql Exn (Server π) Unit := fun w =>
  (.ok (), { w with db := { w.db with pool := P.giveBack pos w.db.pool } })

/-- `reconnect(soci::session&)`; its two handlers do the same. -/
def reconnect : Sql Exn (Server π) Unit := tryCatch probe fun _ => reopen

/-- `get_session(size_t&)`, when it has leased `pos`. -/
def getSessionPos (pos : Nat) : Sql Exn (Server π) Nat := do
  reconnect
  return pos

def release (pos : Nat) : Sql Exn (Server π) Unit := giveBack P pos

/-- `reconnect(std::shared_ptr<soci::session>)` -/
def reconnectPtr : Sql Exn (Server π) Unit := do
  let i ← mysqlPing
  if i = 1 then reopen

/-- Runs `x` with a session in scope. What `x` throws destroys it, and it gives back its slot. -/
def withSession (slot : Nat) (x : Sql Exn (Server π) Nat) : Sql Exn (Server π) Nat :=
  tryCatch x fun e => do
    giveBack P slot
    throw e

/-- `get_session()`, when the session it makes has leased `slot`. The two handlers do the same again. -/
def getSession (slot : Nat) : Sql Exn (Server π) Nat :=
  withSession P slot do
    tryCatch reconnectPtr fun _ => reconnectPtr
    return slot

/-! ## Runs -/

/-- The pool and its handles: the slots of the shared sessions that are
alive, and the positions returned that are not yet released. -/
structure State (π : Type) where
  pool : π
  sessions : Multiset Nat
  held : Multiset Nat

def State.handles (s : State π) : Nat := s.sessions.card + s.held.card

/-- A call of the pool, with the way its pings and statements go, or the
destruction of a shared session. -/
inductive Op
  | getSession (pings : List Int32) (faults : List (Option Exn))
  | getSessionPos (faults : List (Option Exn))
  | release (pos : Nat)
  | destroy (slot : Nat)
  deriving DecidableEq

/-- What an operation throws, if it does, and the state behind it: nothing if
it waits for a slot, or would give back one that is not held. -/
def call : Op → State π → Option (Except Exn Unit × State π)
  | .getSession pings faults, s => (P.lease s.pool).map fun leased =>
    match (getSession P leased.1).run ⟨⟨leased.2, pings⟩, faults⟩ with
    | (.ok slot, w) => (.ok (), { s with pool := w.db.pool, sessions := slot ::ₘ s.sessions })
    | (.error e, w) => (.error e, { s with pool := w.db.pool })
  | .getSessionPos faults, s => (P.lease s.pool).map fun leased =>
    match (getSessionPos leased.1).run ⟨⟨leased.2, []⟩, faults⟩ with
    | (.ok pos, w) => (.ok (), { s with pool := w.db.pool, held := pos ::ₘ s.held })
    | (.error e, w) => (.error e, { s with pool := w.db.pool })
  | .release pos, s =>
    if pos ∈ s.held then
      let w := ((release P pos).run ⟨⟨s.pool, []⟩, []⟩).2
      some (.ok (), { s with pool := w.db.pool, held := s.held.erase pos })
    else none
  | .destroy slot, s =>
    if slot ∈ s.sessions then
      let w := ((giveBack P slot).run ⟨⟨s.pool, []⟩, []⟩).2
      some (.ok (), { s with pool := w.db.pool, sessions := s.sessions.erase slot })
    else none

def sessionPool : Machine (State π) Op where
  init := ⟨P.new, 0, 0⟩
  step op s := (call P op s).map Prod.snd

/-- If the operation is a `get_session(pos)`, its probe does not fail, or the reconnect behind it does not. -/
def Op.Survives : Op → Prop
  | .getSessionPos faults => (faults[0]?).join = none ∨ (faults[1]?).join = none
  | _ => True

instance : (op : Op) → Decidable op.Survives
  | .getSession _ _ => isTrue trivial
  | .getSessionPos _ => inferInstanceAs (Decidable (_ ∨ _))
  | .release _ => isTrue trivial
  | .destroy _ => isTrue trivial

/-! ## What an operation does -/

/-- All that an operation can do. -/
inductive Effect (s : State π) : Op → Except Exn Unit → State π → Prop
  | shared {pings : List Int32} {faults : List (Option Exn)} {slot : Nat} {pool : π} :
    P.lease s.pool = some (slot, pool) →
      Effect s (.getSession pings faults) (.ok ()) { s with pool, sessions := slot ::ₘ s.sessions }
  | unwound {pings : List Int32} {faults : List (Option Exn)} {slot : Nat} {pool : π} {e : Exn} :
    P.lease s.pool = some (slot, pool) →
      Effect s (.getSession pings faults) (.error e) { s with pool := P.giveBack slot pool }
  | returned {faults : List (Option Exn)} {pos : Nat} {pool : π} : P.lease s.pool = some (pos, pool) →
    (Op.getSessionPos faults).Survives →
      Effect s (.getSessionPos faults) (.ok ()) { s with pool, held := pos ::ₘ s.held }
  | lost {faults : List (Option Exn)} {pos : Nat} {pool : π} {e : Exn} : P.lease s.pool = some (pos, pool) →
    ¬ (Op.getSessionPos faults).Survives → Effect s (.getSessionPos faults) (.error e) { s with pool }
  | released {pos : Nat} : pos ∈ s.held →
    Effect s (.release pos) (.ok ()) { s with pool := P.giveBack pos s.pool, held := s.held.erase pos }
  | destroyed {slot : Nat} : slot ∈ s.sessions →
    Effect s (.destroy slot) (.ok ())
      { s with pool := P.giveBack slot s.pool, sessions := s.sessions.erase slot }

variable {P} {s s' : State π} {op : Op} {r : Except Exn Unit} {w : World Exn (Server π)}

/-- The probe, and a reconnect if it fails. -/
theorem run_reconnect (w : World Exn (Server π)) :
    reconnect.run w = match w.fault 0, w.fault 1 with
      | none, _ => (.ok (), w.skip 1)
      | some _, none => (.ok (), w.skip 2)
      | some _, some e => (.error e, w.skip 2) := by
  have hprobe : probe.run w = _ := Sql.run_query_skip (fun _ => ()) w 0
  have hreopen : reopen.run (w.skip 1) = _ := Sql.run_query_skip (fun _ => ()) w 1
  rw [reconnect, Sql.run_tryCatch, hprobe]
  rcases w.fault 0 with _ | e₀
  · rfl
  · show reopen.run (w.skip 1) = _
    rw [hreopen]
    rcases w.fault 1 with _ | e₁
    · rfl
    · rfl

theorem run_getSessionPos (pos : Nat) (w : World Exn (Server π)) :
    ∃ w' : World Exn (Server π), w'.db = w.db ∧
      if w.fault 0 = none ∨ w.fault 1 = none then (getSessionPos pos).run w = (.ok pos, w')
      else ∃ e, (getSessionPos pos).run w = (.error e, w') := by
  rw [getSessionPos, Sql.run_bind, run_reconnect]
  rcases w.fault 0 with _ | e₀
  · exact ⟨w.skip 1, rfl, rfl⟩
  · rcases w.fault 1 with _ | e₁
    · exact ⟨w.skip 2, rfl, rfl⟩
    · exact ⟨w.skip 2, rfl, e₁, rfl⟩

/-- The pool is the same. -/
def SamePool (d d' : Server π) : Prop := d'.pool = d.pool

instance : Std.Refl (SamePool (π := π)) := ⟨fun _ => rfl⟩

instance : IsTrans (Server π) SamePool := ⟨fun _ _ _ h h' => h'.trans h⟩

theorem reconnectPtr_samePool : Sql.Within SamePool (reconnectPtr : Sql Exn (Server π) Unit) := by
  have hping : Sql.Within SamePool (mysqlPing : Sql Exn (Server π) Int32) := fun _ => rfl
  refine hping.bind fun i => ?_
  split
  · exact .query _
  · exact .pure ()

/-- The session is returned, or what is thrown has destroyed it. -/
theorem run_getSession (P : SlotPool π) (slot : Nat) (w : World Exn (Server π)) :
    (∃ w', (getSession P slot).run w = (.ok slot, w') ∧ w'.db.pool = w.db.pool) ∨
      ∃ e w', (getSession P slot).run w = (.error e, w') ∧ w'.db.pool = P.giveBack slot w.db.pool := by
  have hkeep : Sql.Within SamePool (tryCatch reconnectPtr fun _ => reconnectPtr : Sql Exn (Server π) Unit) :=
    reconnectPtr_samePool.tryCatch fun _ => reconnectPtr_samePool
  have hpool := hkeep w
  rw [getSession, withSession, Sql.run_tryCatch, Sql.run_bind]
  rcases hrun : Sql.run (tryCatch reconnectPtr fun _ => reconnectPtr) w with ⟨e | _, w₁⟩ <;>
    rw [hrun] at hpool
  · exact .inr ⟨e, _, rfl, congrArg (P.giveBack slot) hpool⟩
  · exact .inl ⟨w₁, rfl, hpool⟩

/-- To a program on a database, it is a statement that returns, or fails with
what it throws, and writes nothing. -/
theorem getSession_statement {δ : Type} (P : SlotPool π) (slot : Nat) (w : World Exn (Server π)) (d : δ) :
    ∃ fault, SqlDatabase.getSession.run ⟨d, [fault]⟩ =
      (((getSession P slot).run w).1.map fun _ => (), ⟨d, []⟩) := by
  obtain ⟨w', hrun, -⟩ | ⟨e, w', hrun, -⟩ := run_getSession P slot w
  · exact ⟨none, by rw [hrun]; rfl⟩
  · exact ⟨some e, by rw [hrun]; rfl⟩

/-- An operation does nothing else. -/
theorem effect_of_call (h : call P op s = some (r, s')) : Effect P s op r s' := by
  cases op with
  | getSession pings faults =>
    obtain ⟨leased, hlease, hcall⟩ := Option.map_eq_some_iff.mp h
    obtain ⟨w, hrun, hpool⟩ | ⟨e, w, hrun, hpool⟩ := run_getSession P leased.1 ⟨⟨leased.2, pings⟩, faults⟩
    · rw [hrun] at hcall
      cases hcall
      rw [hpool]
      exact .shared hlease
    · rw [hrun] at hcall
      cases hcall
      rw [hpool]
      exact .unwound hlease
  | getSessionPos faults =>
    obtain ⟨leased, hlease, hcall⟩ := Option.map_eq_some_iff.mp h
    obtain ⟨w, hdb, hrun⟩ := run_getSessionPos leased.1 ⟨⟨leased.2, []⟩, faults⟩
    split at hrun
    · rename_i hsurvives
      rw [hrun] at hcall
      cases hcall
      rw [hdb]
      exact .returned hlease hsurvives
    · rename_i hsurvives
      obtain ⟨e, hrun⟩ := hrun
      rw [hrun] at hcall
      cases hcall
      rw [hdb]
      exact .lost hlease hsurvives
  | release pos =>
    rw [call] at h
    split at h
    · cases h
      exact .released ‹_›
    · cases h
  | destroy slot =>
    rw [call] at h
    split at h
    · cases h
      exact .destroyed ‹_›
    · cases h

/-! ## Who owns the leased slots -/

/-- The leased slots are those of the handles and those that are lost, and
an operation loses at most one, which it does if it does not survive. -/
theorem Effect.owned {lost : Multiset Nat} (h : Effect P s op r s')
    (ho : P.Owned s.pool (s.sessions + s.held + lost)) :
    ∃ lost', P.Owned s'.pool (s'.sessions + s'.held + lost') ∧
      lost'.card = lost.card + if op.Survives then 0 else 1 := by
  cases h with
  | @shared _ _ slot _ hlease =>
    refine ⟨lost, ?_, rfl⟩
    rw [Multiset.cons_add, Multiset.cons_add]
    exact ho.lease hlease
  | unwound hlease => exact ⟨lost, ho.congr (P.leased_giveBack_lease hlease), rfl⟩
  | @returned _ pos _ hlease hsurvives =>
    refine ⟨lost, ?_, by rw [if_pos hsurvives]; rfl⟩
    rw [Multiset.add_cons, Multiset.cons_add]
    exact ho.lease hlease
  | @lost _ pos _ e hlease hfails =>
    refine ⟨pos ::ₘ lost, ?_, by rw [if_neg hfails, Multiset.card_cons]⟩
    rw [Multiset.add_cons]
    exact ho.lease hlease
  | @released pos hmem =>
    refine ⟨lost, ?_, rfl⟩
    have herase := ho.giveBack pos
    rw [Multiset.erase_add_left_pos _ (Multiset.mem_add.mpr (.inr hmem)),
      Multiset.erase_add_right_pos _ hmem] at herase
    exact herase
  | @destroyed slot hmem =>
    refine ⟨lost, ?_, rfl⟩
    have herase := ho.giveBack slot
    rw [Multiset.erase_add_left_pos _ (Multiset.mem_add.mpr (.inl hmem)),
      Multiset.erase_add_left_pos _ hmem] at herase
    exact herase

theorem step_of_call (h : call P op s = some (r, s')) : (sessionPool P).step op s = some s' :=
  congrArg (Option.map Prod.snd) h

theorem effect_of_step (h : (sessionPool P).step op s = some s') : ∃ r, Effect P s op r s' := by
  obtain ⟨⟨r, s'⟩, hcall, rfl⟩ := Option.map_eq_some_iff.mp h
  exact ⟨r, effect_of_call hcall⟩

/-- A run loses a slot with each operation that does not survive. -/
theorem owned_run {ops : List Op} {lost : Multiset Nat}
    (hrun : (sessionPool P).run (fun _ _ => True) ops s = some s')
    (ho : P.Owned s.pool (s.sessions + s.held + lost)) :
    ∃ lost', P.Owned s'.pool (s'.sessions + s'.held + lost') ∧
      lost'.card = lost.card + ops.countP fun op => ¬ op.Survives := by
  induction ops generalizing s lost with
  | nil =>
    cases hrun
    exact ⟨lost, ho, rfl⟩
  | cons op ops ih =>
    obtain ⟨-, s₁, hstep, hrun⟩ := Machine.run_cons_eq_some.mp hrun
    obtain ⟨r, heffect⟩ := effect_of_step hstep
    obtain ⟨lost₁, ho₁, hcard₁⟩ := heffect.owned ho
    obtain ⟨lost₂, ho₂, hcard₂⟩ := ih hrun ho₁
    refine ⟨lost₂, ho₂, ?_⟩
    rw [hcard₂, hcard₁, List.countP_cons]
    by_cases hs : op.Survives
    · simp [hs]
    · simp [hs]
      omega

theorem owned_init : P.Owned (sessionPool P).init.pool (0 + 0 + 0) := SlotPool.Owned.new

/-- If every `get_session(pos)` of a run survives, as many slots are leased
in each state as there are handles, and otherwise more behind the first that
does not. An operation that throws leaves the handles alone, and the leased
slots if and only if it survives. -/
theorem slots_accounted (P : SlotPool π) :
    (∀ s, (sessionPool P).Reach (fun op _ => op.Survives) s → (P.leased s.pool).card = s.handles) ∧
    (∀ ops s, (sessionPool P).run (fun _ _ => True) ops (sessionPool P).init = some s →
      ((P.leased s.pool).card = s.handles ↔ ∀ op ∈ ops, op.Survives)) ∧
    (∀ op s e s', call P op s = some (.error e, s') →
      s'.handles = s.handles ∧ (P.leased s'.pool = P.leased s.pool ↔ op.Survives)) := by
  refine ⟨fun s hs => ?_, fun ops s hrun => ?_, fun op s e s' hcall => ?_⟩
  · have howned : P.Owned s.pool (s.sessions + s.held + 0) := by
      refine hs.inv (I := fun s => P.Owned s.pool (s.sessions + s.held + 0)) owned_init fun op s s' ho hop hstep => ?_
      obtain ⟨r, heffect⟩ := effect_of_step hstep
      obtain ⟨lost, howned, hcard⟩ := heffect.owned ho
      rw [if_pos hop] at hcard
      rwa [Multiset.card_eq_zero.mp hcard] at howned
    rw [howned.card, Multiset.card_add, Multiset.card_add]
    rfl
  · obtain ⟨lost, howned, hcard⟩ := owned_run hrun owned_init
    have hleased : (P.leased s.pool).card = s.handles + lost.card := by
      rw [howned.card, Multiset.card_add, Multiset.card_add]
      rfl
    rw [hleased, Nat.add_eq_left, hcard, Multiset.card_zero, Nat.zero_add, List.countP_eq_zero]
    simp
  · cases effect_of_call hcall with
    | unwound hlease => exact ⟨rfl, iff_of_true (P.leased_giveBack_lease hlease) trivial⟩
    | lost hlease hfails => exact ⟨rfl, iff_of_false (P.leased_lease_ne hlease) hfails⟩

/-! ## A server that is gone -/

/-- A call whose probe fails, and the reconnect behind it. -/
def serverGone : Op := .getSessionPos [some .soci, some .soci]

/-- When the server is gone, the slot of a position asked for stays leased,
with no handle left to give it back. If it was the only one, nothing more
can be done with the pool. -/
theorem slot_lost :
    ∃ s, call (.ofSize 1) serverGone (sessionPool (.ofSize 1)).init = some (.error .soci, s) ∧
      (sessionPool (.ofSize 1)).Reachable s ∧ ((SlotPool.ofSize 1).leased s.pool).card ≠ s.handles ∧
      ∀ op, (sessionPool (.ofSize 1)).step op s = none := by
  have hcall : call (.ofSize 1) serverGone (sessionPool (.ofSize 1)).init =
      some (.error .soci, ⟨{0}, 0, 0⟩) := rfl
  refine ⟨_, hcall, .step .init trivial (step_of_call hcall), by decide, fun op => ?_⟩
  cases op with
  | getSession pings faults => rfl
  | getSessionPos faults => rfl
  | release pos => simp [sessionPool, call]
  | destroy slot => simp [sessionPool, call]

/-- The server is gone when a session is asked for; it is back when another
is, and for a position the connection is repaired. -/
def recovery : List Op :=
  [.getSession [1, 1] [some .soci, some .soci], .getSession [0] [], .getSessionPos [some .soci, none],
    .destroy 0]

/-- Of the two slots, that of the position is leased in the end. -/
theorem slots_accounted_recovery :
    ∃ s, (sessionPool (.ofSize 2)).run (fun _ _ => True) recovery (sessionPool (.ofSize 2)).init = some s ∧
      s.handles = 1 ∧ ((SlotPool.ofSize 2).leased s.pool).card = 1 := by
  obtain ⟨-, hruns, -⟩ := slots_accounted (.ofSize 2)
  have hrun : (sessionPool (.ofSize 2)).run (fun _ _ => True) recovery (sessionPool (.ofSize 2)).init =
      some ⟨{1}, 0, {1}⟩ := rfl
  exact ⟨_, hrun, rfl, (hruns recovery _ hrun).mpr (by decide)⟩

end SqlDb.SessionPool
