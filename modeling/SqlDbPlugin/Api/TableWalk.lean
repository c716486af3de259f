import Mathlib.Data.List.Nodup
import SqlDbPlugin.Api.Controller

/-!
# What the table walk visits

The rows of all tables stand in one index, and `walk_key_value_table` cuts
those of one table out of it. `table_walk`: it calls its first function on
the rows of the table, in the order of their keys, up to the first for which
that does not return true, and its second if and only if there is no table.
The calls are found by logging them (`walkLogged`).
-/

namespace SqlDb

open Captured (logged trail walk)

/-- A call of one of the two functions a walk is given, and how it went. -/
inductive Called
  | row (obj : KeyValueObject) (result : Except Exn Bool)
  | missing (result : Except Exn Unit)

variable {σ : Type} {db : Controller} {code scope table : Name} {t : TableIdObject}

/-- The walk, with its calls logged. -/
def walkLogged (db : Controller) (code scope table : Name) (f : KeyValueObject → Captured Exn σ Bool)
    (f2 : Captured Exn σ Unit) : Captured Exn (σ × List Called) Unit :=
  walkKeyValueTable db code scope table (fun obj => logged (Called.row obj) (f obj)) (logged .missing f2)

/-- The table that is found is the one with the code, the scope and the name. -/
theorem Controller.findTable_eq_some_iff :
    db.findTable code scope table = some t ↔
      t ∈ db.tableIds ∧ t.code = code ∧ t.scope = scope ∧ t.table = table := by
  have hfound {t' : TableIdObject} (h : db.findTable code scope table = some t') :
      t' ∈ db.tableIds ∧ t'.code = code ∧ t'.scope = scope ∧ t'.table = table := by
    rw [Controller.findTable] at h
    exact ⟨List.mem_of_find?_eq_some h, by simpa using List.find?_some h⟩
  refine ⟨hfound, fun ⟨ht, hkey⟩ => ?_⟩
  rcases hfind : db.findTable code scope table with _ | t'
  · rw [Controller.findTable] at hfind
    exact absurd (decide_eq_true hkey) (List.find?_eq_none.mp hfind t ht)
  · obtain ⟨ht', hcode, hscope, htable⟩ := hfound hfind
    have hunique : (db.tableIds.map fun t => (t.code, t.scope, t.table)).Nodup :=
      List.pairwise_map.mpr db.uniqueTables
    have he := List.inj_on_of_nodup_map hunique ht' ht (by rw [hcode, hscope, htable, hkey.1, hkey.2.1, hkey.2.2])
    rw [he]

/-- The rows of a table come in the order of their keys. -/
theorem Controller.rows_sorted (db : Controller) (id : Nat) :
    (db.keyValues.filter fun r => r.tId = id).Pairwise fun a b => a.primaryKey < b.primaryKey := by
  refine (db.sorted.filter _).imp_of_mem fun {a b} ha hb h => ?_
  have ha : a.tId = id := of_decide_eq_true (List.mem_filter.mp ha).2
  have hb : b.tId = id := of_decide_eq_true (List.mem_filter.mp hb).2
  obtain h | ⟨-, h⟩ := h
  · omega
  · exact h

/-- How a walk runs that logs its calls: as it does otherwise, with the calls
of its callback on the rows of the table behind the log, or that of the
other function if there is no table. -/
theorem run_walkLogged (f : KeyValueObject → Captured Exn σ Bool) (f2 : Captured Exn σ Unit) (s : σ)
    (log : List Called) :
    (walkLogged db code scope table f f2).run (s, log) =
      (((walkKeyValueTable db code scope table f f2).run s).1,
        ((walkKeyValueTable db code scope table f f2).run s).2,
        log ++ (db.rows code scope table).elim [.missing (f2.run s).1] fun rows =>
          (trail f rows s).map fun c => .row c.1 c.2) := by
  rw [walkLogged, walkKeyValueTable_eq, walkKeyValueTable_eq]
  rcases db.rows code scope table with _ | rows
  · rfl
  · exact Captured.run_walk_logged Called.row f rows s log

/-- For every callback, with whatever variables, the walk calls it on the
rows of the table, in the order of their keys: on all of them, or up to and
including the first for which it does not return true. It does not call the
other function then, and calls that one, and nothing else, if there is no
such table. Logging the calls changes nothing. -/
theorem table_walk (db : Controller) (code scope table : Name) (f : KeyValueObject → Captured Exn σ Bool)
    (f2 : Captured Exn σ Unit) (s : σ) :
    (∀ t ∈ db.tableIds, t.code = code → t.scope = scope → t.table = table →
      ∃ (rows : List KeyValueObject) (calls : List (KeyValueObject × Except Exn Bool)),
        (∀ r, r ∈ rows ↔ r ∈ db.keyValues ∧ r.tId = t.id) ∧
        rows.Pairwise (fun a b => a.primaryKey < b.primaryKey) ∧
        ((walkLogged db code scope table f f2).run (s, [])).2.2 = calls.map (fun c => .row c.1 c.2) ∧
        calls.map Prod.fst <+: rows ∧ (calls.Pairwise fun c _ => c.2 = .ok true) ∧
        ((∀ c ∈ calls, c.2 = .ok true) → calls.map Prod.fst = rows)) ∧
    ((∀ t ∈ db.tableIds, ¬ (t.code = code ∧ t.scope = scope ∧ t.table = table)) →
      ((walkLogged db code scope table f f2).run (s, [])).2.2 = [.missing (f2.run s).1]) ∧
    ((walkLogged db code scope table f f2).run (s, [])).1 =
      ((walkKeyValueTable db code scope table f f2).run s).1 ∧
    ((walkLogged db code scope table f f2).run (s, [])).2.1 =
      ((walkKeyValueTable db code scope table f f2).run s).2 := by
  rw [run_walkLogged]
  refine ⟨fun t ht hcode hscope htable => ?_, fun hnone => ?_, rfl, rfl⟩
  · have hfind := Controller.findTable_eq_some_iff.mpr ⟨ht, hcode, hscope, htable⟩
    have hrows : db.rows code scope table = some (db.keyValues.filter fun r => r.tId = t.id) := by
      rw [Controller.rows, hfind]
      rfl
    refine ⟨db.keyValues.filter fun r => r.tId = t.id, trail f (db.keyValues.filter fun r => r.tId = t.id) s,
      fun r => by simp, db.rows_sorted t.id, ?_, Captured.trail_rows f _ s⟩
    rw [hrows]
    rfl
  · have hfind : db.findTable code scope table = none := by
      rcases h : db.findTable code scope table with _ | t
      · rfl
      · obtain ⟨ht, hkey⟩ := Controller.findTable_eq_some_iff.mp h
        exact absurd hkey (hnone t ht)
    rw [Controller.rows, hfind]
    rfl

/-- The balances of `alice`, none of `eosio`, and three of the account behind it. -/
def Controller.balances : Controller :=
  { Controller.sample with
    tableIds := [⟨1, .eosioToken, alice, .accounts⟩, ⟨2, .eosioToken, .systemAccountName, .accounts⟩,
      ⟨3, .eosioToken, pay, .accounts⟩]
    keyValues := [⟨1, 5, []⟩, ⟨3, 4, []⟩, ⟨3, 6, []⟩, ⟨3, 9, []⟩]
    uniqueIds := by decide
    uniqueTables := by decide
    sorted := by decide }

/-- A callback that counts its calls, and returns false on the key `6`. -/
def countUntilSix (obj : KeyValueObject) : Captured Exn Nat Bool := do
  Captured.assign (· + 1)
  return obj.primaryKey ≠ 6

/-- Of the table without rows none is visited, and of the one behind it the first two. -/
theorem table_walk_balances :
    ((walkLogged .balances .eosioToken .systemAccountName .accounts countUntilSix (pure ())).run (0, [])).2.2 = [] ∧
    (walkLogged .balances .eosioToken pay .accounts countUntilSix (pure ())).run (0, []) =
      (.ok (), 2, [.row ⟨3, 4, []⟩ (.ok true), .row ⟨3, 6, []⟩ (.ok false)]) := by
  have htable : (⟨2, .eosioToken, .systemAccountName, .accounts⟩ : TableIdObject) ∈ Controller.balances.tableIds :=
    .tail _ (.head _)
  obtain ⟨rows, calls, hmem, -, hlog, hfirst, -⟩ :=
    (table_walk .balances .eosioToken .systemAccountName .accounts countUntilSix (pure ()) 0).1 _ htable rfl rfl rfl
  have hrows : rows = [] := List.eq_nil_iff_forall_not_mem.mpr fun r hr => by
    obtain ⟨hr, hid⟩ := (hmem r).mp hr
    have hempty : ∀ r ∈ Controller.balances.keyValues, r.tId ≠ 2 := by decide
    exact hempty r hr hid
  rw [hrows, List.prefix_nil, List.map_eq_nil_iff] at hfirst
  rw [hlog, hfirst]
  exact ⟨rfl, rfl⟩

end SqlDb
