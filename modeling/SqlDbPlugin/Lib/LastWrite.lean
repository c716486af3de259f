import SqlDbPlugin.Lib.Table

/-!
# Histories of writes to a keyed store

A write sets the value at a key, or removes it. `lastWrite` is the store a
history of writes leaves: at each key, what the last write to that key says,
and the initial value if there is none. `Table.Reflects` says that a table
is such a store; a statement on the table is a write to it (`reflects_…`).
-/

namespace SqlDb

variable {κ ρ : Type} [DecidableEq κ]

/-- What the last write to the key `k` says, or `init k` if there is none. -/
def lastWrite (init : κ → Option ρ) (writes : List (κ × Option ρ)) (k : κ) : Option ρ :=
  match writes.reverse.find? fun w => w.1 = k with
  | some w => w.2
  | none => init k

variable {init : κ → Option ρ} {writes : List (κ × Option ρ)}

@[simp] theorem lastWrite_nil (k : κ) : lastWrite init [] k = init k := rfl

/-- The last write decides at its key, and leaves the others alone. -/
theorem lastWrite_concat (w : κ × Option ρ) (k : κ) :
    lastWrite init (writes ++ [w]) k = if k = w.1 then w.2 else lastWrite init writes k := by
  rw [lastWrite, List.reverse_append, List.reverse_singleton, List.singleton_append]
  by_cases hk : k = w.1
  · rw [if_pos hk, List.find?_cons_of_pos (by simpa using hk.symm)]
  · rw [if_neg hk, List.find?_cons_of_neg (by simpa using Ne.symm hk), lastWrite]

/-- One history after another. -/
theorem lastWrite_append (init : κ → Option ρ) (xs ys : List (κ × Option ρ)) :
    lastWrite init (xs ++ ys) = lastWrite (lastWrite init xs) ys := by
  funext k
  simp only [lastWrite, List.reverse_append, List.find?_append]
  rcases ys.reverse.find? _ with _ | w <;> rfl

theorem lastWrite_singleton (init : κ → Option ρ) (w : κ × Option ρ) (k : κ) :
    lastWrite init [w] k = if k = w.1 then w.2 else init k := by
  rw [← List.nil_append [w], lastWrite_concat, lastWrite_nil]

/-- At the keys written to, it does not matter what was there before. -/
theorem lastWrite_of_mem (init' : κ → Option ρ) {k : κ} (h : k ∈ writes.map Prod.fst) :
    lastWrite init writes k = lastWrite init' writes k := by
  obtain ⟨w, hw, rfl⟩ := List.mem_map.mp h
  have hsome : (writes.reverse.find? fun w' => w'.1 = w.1).isSome :=
    List.find?_isSome.mpr ⟨w, List.mem_reverse.mpr hw, by simp⟩
  obtain ⟨w', hw'⟩ := Option.isSome_iff_exists.mp hsome
  rw [lastWrite, lastWrite, hw']

/-- At the others, what was there stays. -/
theorem lastWrite_of_not_mem {k : κ} (h : k ∉ writes.map Prod.fst) : lastWrite init writes k = init k := by
  have hnone : (writes.reverse.find? fun w => w.1 = k) = none := by
    rw [List.find?_eq_none]
    intro w hw he
    exact h (List.mem_map.mpr ⟨w, List.mem_reverse.mp hw, by simpa using he⟩)
  rw [lastWrite, hnone]

/-- What is there at a key that had nothing was written there. -/
theorem mem_of_lastWrite {k : κ} {r : ρ} (h : lastWrite (fun _ => none) writes k = some r) :
    k ∈ writes.map Prod.fst := by
  by_contra hk
  rw [lastWrite_of_not_mem hk] at h
  cases h

/-- Where one writes to two stores that are the same elsewhere, the stores become the same. -/
theorem lastWrite_congr {init' : κ → Option ρ} {k : κ}
    (h : k ∉ writes.map Prod.fst → init' k = init k) : lastWrite init' writes k = lastWrite init writes k := by
  by_cases hk : k ∈ writes.map Prod.fst
  · exact lastWrite_of_mem init hk
  · rw [lastWrite_of_not_mem hk, lastWrite_of_not_mem hk, h hk]

omit [DecidableEq κ] in
/-- The writes of a history of events, one event later. -/
theorem filterMap_concat {α : Type} (f : α → Option (κ × Option ρ)) (as : List α) (a : α) :
    (as ++ [a]).filterMap f = as.filterMap f ++ (f a).toList := by
  rw [List.filterMap_append, List.filterMap_cons]
  rcases f a with _ | _ <;> rfl

namespace Table

variable {key : ρ → κ} {t : Table ρ key}

/-- The rows of the table are what the writes leave of an empty one. -/
def Reflects (t : Table ρ key) (writes : List (κ × Option ρ)) : Prop :=
  ∀ k, t.find? k = lastWrite (fun _ => none) writes k

theorem reflects_nil (h : t.contents = []) : Reflects t [] := by
  intro k
  rw [lastWrite_nil, find?_eq_none_iff, h]
  exact nofun

/-- `INSERT ... ON DUPLICATE KEY UPDATE` of every column that is not in the key. -/
theorem reflects_upsert (ht : Reflects t writes) {x : ρ} {f : ρ → ρ}
    (hf : ∀ y, key y = key x → key (f y) = key x) (hx : ∀ y, key y = key x → f y = x) :
    Reflects (t.upsert x f hf) (writes ++ [(key x, some x)]) := by
  intro k
  rw [find?_upsert, lastWrite_concat, ← ht]
  rcases h : t.find? (key x) with _ | y
  · rfl
  · rw [Option.elim_some, hx y (key_of_find? h)]

theorem reflects_replace (ht : Reflects t writes) (x : ρ) :
    Reflects (t.replace x) (writes ++ [(key x, some x)]) := by
  intro k
  rw [find?_replace, lastWrite_concat, ← ht]

theorem reflects_erase (ht : Reflects t writes) (k : κ) :
    Reflects (t.erase k) (writes ++ [(k, none)]) := by
  intro k'
  rw [find?_erase, lastWrite_concat, ← ht]

/-- A row is in the table if it is the last one written with its key. -/
theorem mem_iff_of_reflects (ht : Reflects t writes) (x : ρ) :
    x ∈ t.contents ↔ lastWrite (fun _ => none) writes (key x) = some x := by
  rw [mem_contents_iff, ht]

end Table

end SqlDb
