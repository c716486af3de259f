import SqlDbPlugin.Database.SessionPool

/-!
# How many sessions there are

A pool of `n` connections has `n` slots. In every run its handles have
different slots, so no connection is used through two of them, and a call
for a session is served as long as the handles, and the slots that calls of
`get_session(pos)` have lost, are fewer than `n` (`sessions_exclusive`). A
call of `get_session()` that throws costs no slot, so it is only the other
one that uses the pool up (`sessions_exclusive_used_up`).
-/

namespace SqlDb.SessionPool

variable {π : Type} {P : SlotPool π} {s s' : State π} {op : Op} {n : Nat}

/-- The operations that lease a slot. -/
def Op.Asks : Op → Prop
  | .getSession _ _ | .getSessionPos _ => True
  | .release _ | .destroy _ => False

/-- As many slots as the operations lose. -/
def lost (ops : List Op) : Nat := ops.countP fun op => ¬ op.Survives

/-- A call for a session waits for nothing but a slot. -/
theorem call_isSome_iff (h : op.Asks) (s : State π) : (call P op s).isSome ↔ (P.lease s.pool).isSome := by
  cases op with
  | getSession pings faults => rw [call, Option.isSome_map]
  | getSessionPos faults => rw [call, Option.isSome_map]
  | release pos => exact h.elim
  | destroy slot => exact h.elim

/-- An operation leases the pool's own slots only. -/
theorem Effect.leased_lt {r : Except Exn Unit} (hP : P.HasSize n) (h : Effect P s op r s')
    (hs : ∀ slot ∈ P.leased s.pool, slot < n) : ∀ slot ∈ P.leased s'.pool, slot < n := by
  have hlease {slot : Nat} {pool : π} (hl : P.lease s.pool = some (slot, pool)) :
      ∀ x ∈ P.leased pool, x < n := by
    intro x hx
    rw [P.leased_lease hl, Finset.mem_insert] at hx
    obtain rfl | hx := hx
    · exact hP.lease_lt hl
    · exact hs x hx
  have hback (slot : Nat) : ∀ x ∈ P.leased (P.giveBack slot s.pool), x < n := by
    intro x hx
    rw [P.leased_giveBack] at hx
    exact hs x (Finset.mem_of_mem_erase hx)
  cases h with
  | shared hl => exact hlease hl
  | unwound hl =>
    rw [P.leased_giveBack_lease hl]
    exact hs
  | returned hl _ => exact hlease hl
  | lost hl _ => exact hlease hl
  | released _ => exact hback _
  | destroyed _ => exact hback _

theorem leased_lt {ok : Op → State π → Prop} (hP : P.HasSize n) (hs : (sessionPool P).Reach ok s) :
    ∀ slot ∈ P.leased s.pool, slot < n := by
  refine hs.inv (I := fun s => ∀ slot ∈ P.leased s.pool, slot < n) ?_ fun op s s' hI _ hstep => ?_
  · intro slot hslot
    have hnew : P.leased (sessionPool P).init.pool = ∅ := P.leased_new
    rw [hnew] at hslot
    exact absurd hslot (Finset.notMem_empty slot)
  · obtain ⟨r, heffect⟩ := effect_of_step hstep
    exact heffect.leased_lt hP hI

/-- In every run of a pool of `n` connections its handles have different slots, all below `n`. With
the lost ones they are at most `n`, and a call for a session is served if and only if they are fewer. -/
theorem sessions_exclusive (hP : P.HasSize n) {ops : List Op}
    (hrun : (sessionPool P).run (fun _ _ => True) ops (sessionPool P).init = some s) :
    (s.sessions + s.held).Nodup ∧ (∀ slot ∈ s.sessions + s.held, slot < n) ∧ s.handles + lost ops ≤ n ∧
      ∀ op : Op, op.Asks → ((call P op s).isSome ↔ s.handles + lost ops < n) := by
  obtain ⟨missing, howned, hmissing⟩ := owned_run hrun owned_init
  have hlt := leased_lt hP (Machine.reach_of_run_from .init hrun)
  have hcard : (P.leased s.pool).card = s.handles + lost ops := by
    rw [howned.card, Multiset.card_add, Multiset.card_add, hmissing, Multiset.card_zero, Nat.zero_add]
    rfl
  refine ⟨?_, fun slot hslot => ?_, ?_, fun op hop => ?_⟩
  · exact Multiset.nodup_of_le (Multiset.le_add_right _ _) howned.nodup
  · exact hlt slot (howned.mem_leased.mpr (Multiset.mem_add.mpr (.inl hslot)))
  · exact hcard ▸ SlotPool.HasSize.card_le hlt
  · rw [call_isSome_iff hop, hP.lease_iff hlt, hcard]

/-- Two calls for a position while the server is gone leave one of three slots. -/
theorem sessions_exclusive_used_up :
    ∃ s, (sessionPool (.ofSize 3)).run (fun _ _ => True)
        [serverGone, .getSession [1, 1] [some .soci, some .soci], serverGone, .getSession [0] []]
        (sessionPool (.ofSize 3)).init = some s ∧
      s.handles = 1 ∧ ∀ op : Op, op.Asks → call (.ofSize 3) op s = none := by
  have hrun : (sessionPool (.ofSize 3)).run (fun _ _ => True)
      [serverGone, .getSession [1, 1] [some .soci, some .soci], serverGone, .getSession [0] []]
      (sessionPool (.ofSize 3)).init = some ⟨{2, 1, 0}, {2}, 0⟩ := rfl
  refine ⟨_, hrun, rfl, fun op hop => ?_⟩
  obtain ⟨-, -, -, hserved⟩ := sessions_exclusive (SlotPool.hasSize_ofSize 3) hrun
  exact Option.not_isSome_iff_eq_none.mp fun h => absurd ((hserved op hop).mp h) (by decide)

end SqlDb.SessionPool
