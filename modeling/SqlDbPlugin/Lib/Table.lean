import Mathlib.Data.List.Perm.Basic
import Mathlib.Data.List.Nodup

/-!
# Tables with an auto-increment id and a unique key

`Table ρ key` is a table whose rows `ρ` carry a unique key, in the order of
their auto-increment ids. The key's uniqueness and the order of the ids are
part of the type, so every statement (`insert`, `upsert`, `replace`,
`erase`) has them as its proof obligation and no later proof mentions them.

A table is its rows up to ids and order (`contents`), and that is the
partial function from keys to rows `find?` (`contents_perm_iff`). The
`find?_…` lemmas say what each statement does to that function, and are all
that is needed of the statements afterwards.
-/

namespace SqlDb

/-- A table with an auto-increment id and a unique key. -/
structure Table (ρ : Type) {κ : Type} (key : ρ → κ) where
  rows : List (Nat × ρ)
  nextId : Nat
  sorted : rows.Pairwise fun a b => a.1 < b.1
  fresh : ∀ r ∈ rows, r.1 < nextId
  unique : rows.Pairwise fun a b => key a.2 ≠ key b.2

namespace Table

variable {ρ κ : Type} {key : ρ → κ}

def empty : Table ρ key := ⟨[], 1, .nil, nofun, .nil⟩

/-- The rows without their ids. -/
def contents (t : Table ρ key) : List ρ := t.rows.map Prod.snd

/-- Appends a row whose key is new. -/
def push (t : Table ρ key) (x : ρ) (h : ∀ r ∈ t.rows, key r.2 ≠ key x) : Table ρ key where
  rows := t.rows ++ [(t.nextId, x)]
  nextId := t.nextId + 1
  sorted := List.pairwise_append.mpr ⟨t.sorted, List.pairwise_singleton _ _, fun a ha b hb => by
    rw [List.mem_singleton.mp hb]; exact t.fresh a ha⟩
  fresh r hr := by
    obtain hr | hr := List.mem_append.mp hr
    · exact Nat.lt_succ_of_lt (t.fresh r hr)
    · rw [List.mem_singleton.mp hr]; exact Nat.lt_succ_self _
  unique := List.pairwise_append.mpr ⟨t.unique, List.pairwise_singleton _ _, fun a ha b hb => by
    rw [List.mem_singleton.mp hb]; exact h a ha⟩

variable [DecidableEq κ]

/-- The row with the key `k`. -/
def find? (t : Table ρ key) (k : κ) : Option ρ :=
  t.contents.find? fun x => key x = k

/-- `INSERT`: an error if the key is taken. -/
def insert (t : Table ρ key) (x : ρ) : Option (Table ρ key) :=
  if h : ∀ r ∈ t.rows, key r.2 ≠ key x then some (t.push x h) else none

/-- `DELETE` of the row with the key `k`. -/
def erase (t : Table ρ key) (k : κ) : Table ρ key where
  rows := t.rows.filter fun r => key r.2 ≠ k
  nextId := t.nextId
  sorted := t.sorted.filter _
  fresh r hr := t.fresh r (List.mem_of_mem_filter hr)
  unique := t.unique.filter _

theorem erase_free (t : Table ρ key) (k : κ) : ∀ r ∈ (t.erase k).rows, key r.2 ≠ k :=
  fun _ hr => of_decide_eq_true (List.mem_filter.mp hr).2

/-- `REPLACE`: deletes the row with the same key, and inserts. -/
def replace (t : Table ρ key) (x : ρ) : Table ρ key :=
  (t.erase (key x)).push x (t.erase_free (key x))

/-- The row of `r`, updated by `f` if its key is `k`. -/
def updateAt (key : ρ → κ) (k : κ) (f : ρ → ρ) (r : Nat × ρ) : Nat × ρ :=
  if key r.2 = k then (r.1, f r.2) else r

theorem updateAt_fst (k : κ) (f : ρ → ρ) (r : Nat × ρ) : (updateAt key k f r).1 = r.1 := by
  unfold updateAt; split <;> rfl

theorem key_updateAt {k : κ} {f : ρ → ρ} (hf : ∀ x, key x = k → key (f x) = k) (r : Nat × ρ) :
    key (updateAt key k f r).2 = key r.2 := by
  unfold updateAt
  split
  · rename_i h; exact (hf _ h).trans h.symm
  · rfl

/-- `UPDATE` of the row with the key `k`, in place, by an `f` that keeps the key. -/
def modify (t : Table ρ key) (k : κ) (f : ρ → ρ) (hf : ∀ x, key x = k → key (f x) = k) :
    Table ρ key where
  rows := t.rows.map (updateAt key k f)
  -- the id an `INSERT ... ON DUPLICATE KEY UPDATE` has drawn is lost
  nextId := t.nextId + 1
  sorted := List.pairwise_map.mpr (by simpa only [updateAt_fst] using t.sorted)
  fresh r hr := by
    obtain ⟨r', hr', rfl⟩ := List.mem_map.mp hr
    rw [updateAt_fst]; exact Nat.lt_succ_of_lt (t.fresh r' hr')
  unique := List.pairwise_map.mpr (by simpa only [key_updateAt hf] using t.unique)

/-- `INSERT ... ON DUPLICATE KEY UPDATE`: inserts `x`, or updates the row that has its key by `f`. -/
def upsert (t : Table ρ key) (x : ρ) (f : ρ → ρ) (hf : ∀ y, key y = key x → key (f y) = key x) :
    Table ρ key :=
  if h : ∀ r ∈ t.rows, key r.2 ≠ key x then t.push x h else t.modify (key x) f hf

/-! ## Contents -/

omit [DecidableEq κ] in
theorem nodup_keys (t : Table ρ key) : (t.contents.map key).Nodup := by
  simp only [contents, List.map_map, List.Nodup, List.pairwise_map]
  exact t.unique

omit [DecidableEq κ] in
@[simp] theorem contents_empty : (empty : Table ρ key).contents = [] := rfl

omit [DecidableEq κ] in
@[simp] theorem contents_push (t : Table ρ key) (x : ρ) (h : ∀ r ∈ t.rows, key r.2 ≠ key x) :
    (t.push x h).contents = t.contents ++ [x] := by
  simp [contents, push]

@[simp] theorem contents_erase (t : Table ρ key) (k : κ) :
    (t.erase k).contents = t.contents.filter fun x => key x ≠ k := by
  simp [contents, erase, List.filter_map, Function.comp_def]

theorem rows_replace (t : Table ρ key) (x : ρ) :
    (t.replace x).rows = (t.rows.filter fun r => key r.2 ≠ key x) ++ [(t.nextId, x)] := rfl

@[simp] theorem contents_replace (t : Table ρ key) (x : ρ) :
    (t.replace x).contents = (t.contents.filter fun y => key y ≠ key x) ++ [x] := by
  rw [replace, contents_push, contents_erase]

/-- `REPLACE` of a row gives it a new id. -/
theorem id_replace {t : Table ρ key} {x : ρ} {r : Nat × ρ} (hr : r ∈ t.rows) {y : ρ}
    (hy : key y = key x) : (r.1, y) ∉ (t.replace x).rows := by
  rw [rows_replace, List.mem_append, List.mem_filter, List.mem_singleton]
  rintro (⟨-, hne⟩ | hnew)
  · simp only [hy, ne_eq, not_true_eq_false, decide_false, Bool.false_eq_true] at hne
  · exact absurd (t.fresh r hr) (by rw [(Prod.mk.injEq ..).mp hnew |>.1]; exact Nat.lt_irrefl _)

/-- `REPLACE` of a row keeps the order of the keys if and only if the row is the last. -/
theorem keys_replace_iff {t : Table ρ key} {x : ρ} :
    (t.replace x).contents.map key = t.contents.map key ↔ (t.contents.map key).getLast? = some (key x) := by
  have hkeys : (t.replace x).contents.map key = (t.contents.map key).filter (· ≠ key x) ++ [key x] := by
    rw [contents_replace, List.map_append, List.filter_map]
    rfl
  rw [hkeys]
  constructor
  · intro h
    rw [← h, List.getLast?_append]
    rfl
  · intro h
    obtain ⟨ks, hks⟩ := List.getLast?_eq_some_iff.mp h
    have hnodup := t.nodup_keys
    rw [hks, List.nodup_append] at hnodup
    have hnew : ∀ k ∈ ks, k ≠ key x := fun k hk => hnodup.2.2 k hk (key x) List.mem_cons_self
    rw [hks, List.filter_append, List.filter_eq_self.mpr fun k hk => decide_eq_true (hnew k hk)]
    simp

@[simp] theorem contents_modify (t : Table ρ key) (k : κ) (f : ρ → ρ)
    (hf : ∀ x, key x = k → key (f x) = k) :
    (t.modify k f hf).contents = t.contents.map fun x => if key x = k then f x else x := by
  simp only [contents, modify, List.map_map]
  refine List.map_congr_left fun r _ => ?_
  simp only [Function.comp_apply, updateAt]
  split <;> rfl

omit [DecidableEq κ] in
theorem forall_rows_iff (t : Table ρ key) (k : κ) :
    (∀ r ∈ t.rows, key r.2 ≠ k) ↔ ∀ x ∈ t.contents, key x ≠ k := by
  simp only [contents, List.forall_mem_map]

/-- `INSERT ... ON DUPLICATE KEY UPDATE` leaves the row where it is. -/
theorem contents_upsert (t : Table ρ key) (x : ρ) {f : ρ → ρ} (hf : ∀ y, key y = key x → key (f y) = key x) :
    (t.upsert x f hf).contents = if key x ∈ t.contents.map key then
      t.contents.map (fun y => if key y = key x then f y else y) else t.contents ++ [x] := by
  have hmem : key x ∈ t.contents.map key ↔ ¬ ∀ r ∈ t.rows, key r.2 ≠ key x := by
    rw [forall_rows_iff]
    simp [eq_comm]
  unfold upsert
  split
  · rename_i h
    rw [contents_push, if_neg fun hk => hmem.mp hk h]
  · rename_i h
    rw [contents_modify, if_pos (hmem.mpr h)]

/-! ## A table as a partial function -/

theorem find?_eq_some_iff {t : Table ρ key} {k : κ} {x : ρ} :
    t.find? k = some x ↔ key x = k ∧ x ∈ t.contents := by
  constructor
  · intro h
    exact ⟨by simpa using List.find?_some h, List.mem_of_find?_eq_some h⟩
  · rintro ⟨rfl, hx⟩
    cases hf : t.find? (key x) with
    | none => simpa using List.find?_eq_none.mp hf x hx
    | some y =>
      have hy : key y = key x := by simpa using List.find?_some hf
      rw [List.inj_on_of_nodup_map t.nodup_keys (List.mem_of_find?_eq_some hf) hx hy]

theorem find?_eq_none_iff {t : Table ρ key} {k : κ} :
    t.find? k = none ↔ ∀ x ∈ t.contents, key x ≠ k := by
  simp [find?]

theorem key_of_find? {t : Table ρ key} {k : κ} {x : ρ} (h : t.find? k = some x) : key x = k :=
  (find?_eq_some_iff.mp h).1

theorem mem_contents_iff {t : Table ρ key} {x : ρ} : x ∈ t.contents ↔ t.find? (key x) = some x := by
  simp [find?_eq_some_iff]

/-- A table is its keys in their order, with the row at each. -/
theorem contents_eq_filterMap (t : Table ρ key) : t.contents = (t.contents.map key).filterMap t.find? := by
  rw [List.filterMap_map]
  have hself : ∀ x ∈ t.contents, (t.find? ∘ key) x = some x := fun x hx => mem_contents_iff.mp hx
  rw [List.filterMap_congr hself, List.filterMap_some]

/-- Two tables have the same rows, up to ids and order, if they have the same row at each key. -/
theorem contents_perm_iff {t t' : Table ρ key} :
    t.contents.Perm t'.contents ↔ ∀ k, t.find? k = t'.find? k := by
  rw [List.perm_ext_iff_of_nodup t.nodup_keys.of_map t'.nodup_keys.of_map]
  constructor
  · intro h k
    refine Option.ext fun x => ?_
    rw [find?_eq_some_iff, find?_eq_some_iff, h]
  · intro h x
    rw [mem_contents_iff, mem_contents_iff, h]

@[simp] theorem find?_empty (k : κ) : (empty : Table ρ key).find? k = none := rfl

theorem find?_push {t : Table ρ key} {x : ρ} (h : ∀ r ∈ t.rows, key r.2 ≠ key x) (k : κ) :
    (t.push x h).find? k = if k = key x then some x else t.find? k := by
  have hn : t.find? (key x) = none := find?_eq_none_iff.mpr ((t.forall_rows_iff _).mp h)
  by_cases hk : k = key x
  · subst hk
    simp only [find?] at hn
    simp [find?, contents_push, List.find?_append, hn]
  · simp [find?, contents_push, List.find?_append, hk, Ne.symm hk]

@[simp] theorem find?_erase (t : Table ρ key) (k k' : κ) :
    (t.erase k).find? k' = if k' = k then none else t.find? k' := by
  by_cases hk : k' = k
  · subst hk
    rw [if_pos rfl, find?_eq_none_iff]
    intro x hx
    rw [contents_erase, List.mem_filter, decide_eq_true_eq] at hx
    exact hx.2
  · rw [if_neg hk]
    refine Option.ext fun x => ?_
    simp only [find?_eq_some_iff, contents_erase, List.mem_filter]
    refine and_congr_right fun hx => ?_
    simp [hx, hk]

@[simp] theorem find?_replace (t : Table ρ key) (x : ρ) (k : κ) :
    (t.replace x).find? k = if k = key x then some x else t.find? k := by
  rw [replace, find?_push]
  split
  · rfl
  · rename_i hk; rw [find?_erase, if_neg hk]

theorem find?_modify {t : Table ρ key} {k : κ} {f : ρ → ρ} (hf : ∀ x, key x = k → key (f x) = k)
    (k' : κ) : (t.modify k f hf).find? k' = if k' = k then (t.find? k).map f else t.find? k' := by
  refine Option.ext fun x => ?_
  by_cases hk : k' = k
  · subst hk
    simp only [find?_eq_some_iff, contents_modify, List.mem_map, ite_true, Option.map_eq_some_iff]
    constructor
    · rintro ⟨hx, y, hy, rfl⟩
      split at hx
      · rename_i hk; exact ⟨y, ⟨hk, hy⟩, (if_pos hk).symm⟩
      · rename_i hk; exact absurd hx hk
    · rintro ⟨y, ⟨hk, hy⟩, rfl⟩
      exact ⟨hf y hk, y, hy, if_pos hk⟩
  · simp only [find?_eq_some_iff, contents_modify, List.mem_map, hk, ite_false]
    refine and_congr_right fun hx => ⟨?_, fun hm => ⟨x, hm, if_neg (hx ▸ hk)⟩⟩
    rintro ⟨y, hy, rfl⟩
    split at hx
    · rename_i hy'; exact absurd (hx.symm.trans (hf y hy')) hk
    · rename_i hy'; rwa [if_neg hy']

/-- What `INSERT ... ON DUPLICATE KEY UPDATE` leaves at each key. -/
theorem find?_upsert (t : Table ρ key) (x : ρ) {f : ρ → ρ}
    (hf : ∀ y, key y = key x → key (f y) = key x) (k : κ) :
    (t.upsert x f hf).find? k =
      if k = key x then some ((t.find? (key x)).elim x f) else t.find? k := by
  unfold upsert
  split
  · rename_i h
    have hn : t.find? (key x) = none := find?_eq_none_iff.mpr ((t.forall_rows_iff _).mp h)
    rw [find?_push, hn]; rfl
  · rename_i h
    rw [find?_modify]
    split
    · cases hn : t.find? (key x) with
      | none => exact absurd ((t.forall_rows_iff _).mpr (find?_eq_none_iff.mp hn)) h
      | some y => rfl
    · rfl

end Table

end SqlDb
