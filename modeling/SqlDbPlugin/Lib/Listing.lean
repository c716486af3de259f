import SqlDbPlugin.Lib.LastWrite

/-!
# The order of a listing

A table lists its rows by their ids. `REPLACE` takes a row away and puts the
new one behind all others, `INSERT ... ON DUPLICATE KEY UPDATE` leaves a row
in its place, and `DELETE` takes it away. `replaceWrite` and `upsertWrite`
are what the writes of a history do to the listing. Behind a history of the
first kind the rows not written to come first, and then the others in the
order of the last writes to their keys (`foldl_replaceWrite`). Behind one of
the second kind the rows not removed come first, and then the others in the
order of the first writes to their keys behind the last removal
(`keys_foldl_upsertWrite`).
-/

namespace SqlDb

variable {κ ρ : Type} [DecidableEq κ]

section

variable (key : ρ → κ)

/-- A write by `REPLACE`. -/
def replaceWrite (rows : List ρ) (w : κ × Option ρ) : List ρ :=
  rows.filter (fun x => key x ≠ w.1) ++ w.2.toList

/-- A write by `INSERT ... ON DUPLICATE KEY UPDATE`, or by `DELETE`. -/
def upsertWrite (rows : List ρ) : κ × Option ρ → List ρ
  | (k, none) => rows.filter fun x => key x ≠ k
  | (k, some row) =>
    if k ∈ rows.map key then rows.map fun x => if key x = k then row else x else rows ++ [row]

omit [DecidableEq κ] in
/-- The rows are written at their own keys. -/
def WellKeyed (writes : List (κ × Option ρ)) : Prop := ∀ w ∈ writes, ∀ row ∈ w.2, key row = w.1

end

/-- The rows of the last writes to each key, in their order. -/
def lastRows : List (κ × Option ρ) → List ρ
  | [] => []
  | w :: writes => if w.1 ∈ writes.map Prod.fst then lastRows writes else w.2.toList ++ lastRows writes

/-- The keys of the rows that are removed. -/
def removals (writes : List (κ × Option ρ)) : List κ := (writes.filter (·.2.isNone)).map Prod.fst

/-- The keys of the first writes behind the last removal, in their order. -/
def standing : List (κ × Option ρ) → List κ
  | [] => []
  | w :: writes =>
    if w.2.isSome ∧ w.1 ∉ removals writes then w.1 :: (standing writes).filter (· ≠ w.1) else standing writes

/-- The rows that are listed behind writes by `REPLACE`. -/
def replacedRows (key : ρ → κ) (writes : List (κ × Option ρ)) (rows : List ρ) : List ρ :=
  rows.filter (fun x => key x ∉ writes.map Prod.fst) ++ lastRows writes

/-- The keys that are listed behind upserts and removals. -/
def upsertedKeys (writes : List (κ × Option ρ)) (ks : List κ) : List κ :=
  let kept := ks.filter (· ∉ removals writes)
  kept ++ (standing writes).filter (· ∉ kept)

variable {key : ρ → κ} {writes : List (κ × Option ρ)}

/-! ## `REPLACE` -/

theorem foldl_replaceWrite (h : WellKeyed key writes) (rows : List ρ) :
    writes.foldl (replaceWrite key) rows = replacedRows key writes rows := by
  unfold replacedRows
  induction writes generalizing rows with
  | nil => simp [lastRows]
  | cons w writes ih =>
    have hrest : WellKeyed key writes := fun w' hw => h w' (List.mem_cons_of_mem w hw)
    have hkey : ∀ row ∈ w.2.toList, key row = w.1 := fun row hrow =>
      h w List.mem_cons_self row (Option.mem_toList.mp hrow)
    rw [List.foldl_cons, ih hrest, replaceWrite, List.filter_append, List.filter_filter, lastRows, List.append_assoc]
    congr 1
    · refine List.filter_congr fun x _ => ?_
      by_cases hx : key x = w.1 <;> simp [hx]
    · by_cases hmem : w.1 ∈ writes.map Prod.fst
      · have hnil : w.2.toList.filter (fun x => decide (key x ∉ writes.map Prod.fst)) = [] :=
          List.filter_eq_nil_iff.mpr fun row hrow => by simpa [hkey row hrow] using hmem
        rw [if_pos hmem, hnil, List.nil_append]
      · have hself : w.2.toList.filter (fun x => decide (key x ∉ writes.map Prod.fst)) = w.2.toList :=
          List.filter_eq_self.mpr fun row hrow => by simpa [hkey row hrow] using hmem
        rw [if_neg hmem, hself]

/-! ## Upserts and removals -/

/-- What `upsertWrite` does to the keys. -/
def keyWrite (ks : List κ) : κ × Option ρ → List κ
  | (k, none) => ks.filter (· ≠ k)
  | (k, some _) => if k ∈ ks then ks else ks ++ [k]

theorem keys_upsertWrite {w : κ × Option ρ} (h : ∀ row ∈ w.2, key row = w.1) (rows : List ρ) :
    (upsertWrite key rows w).map key = keyWrite (rows.map key) w := by
  obtain ⟨k, _ | row⟩ := w
  · rw [upsertWrite, keyWrite, List.filter_map]
    rfl
  · have hrow : key row = k := h row rfl
    rw [upsertWrite, keyWrite]
    by_cases hk : k ∈ rows.map key
    · rw [if_pos hk, if_pos hk, List.map_map]
      refine List.map_congr_left fun x _ => ?_
      by_cases hx : key x = k <;> simp [hx, hrow]
    · rw [if_neg hk, if_neg hk, List.map_append, List.map_singleton, hrow]

theorem foldl_keyWrite (ks : List κ) : writes.foldl keyWrite ks = upsertedKeys writes ks := by
  unfold upsertedKeys
  dsimp only
  induction writes generalizing ks with
  | nil => simp [removals, standing]
  | cons w writes ih =>
    obtain ⟨k, _ | row⟩ := w
    · -- the key goes, and comes back where it is written next
      have hremovals : removals ((k, none) :: writes) = k :: removals writes := rfl
      have hstanding : standing ((k, none) :: writes) = standing writes := by simp [standing]
      have hkept : (ks.filter (· ≠ k)).filter (· ∉ removals writes) = ks.filter (· ∉ k :: removals writes) := by
        rw [List.filter_filter]
        refine List.filter_congr fun x _ => ?_
        by_cases hx : x = k <;> simp [hx]
      rw [List.foldl_cons, keyWrite, ih, hkept, hremovals, hstanding]
    · have hremovals : removals ((k, some row) :: writes) = removals writes := rfl
      rw [List.foldl_cons, ih, hremovals, keyWrite]
      by_cases hr : k ∈ removals writes
      · -- the write does not last
        have hstanding : standing ((k, some row) :: writes) = standing writes := by simp [standing, hr]
        have hkept : (if k ∈ ks then ks else ks ++ [k]).filter (· ∉ removals writes) =
            ks.filter (· ∉ removals writes) := by
          by_cases hk : k ∈ ks <;> simp [hk, hr]
        rw [hstanding, hkept]
      · have hstanding : standing ((k, some row) :: writes) = k :: (standing writes).filter (· ≠ k) := by
          simp [standing, hr]
        rw [hstanding]
        by_cases hk : k ∈ ks
        · -- the key is in its place already
          rw [if_pos hk, List.filter_cons_of_neg (by simp [hk, hr]), List.filter_filter]
          congr 1
          refine List.filter_congr fun x _ => ?_
          by_cases hx : x = k
          · subst hx
            simp [hk, hr]
          · simp [hx]
        · rw [if_neg hk, List.filter_append, List.filter_cons_of_pos (by simpa using hr), List.filter_nil,
            List.filter_cons_of_pos (by simp [hk]), List.append_assoc, List.singleton_append, List.filter_filter]
          congr 2
          refine List.filter_congr fun x _ => ?_
          by_cases hx : x = k <;> simp [hx]

theorem keys_foldl_upsertWrite (h : WellKeyed key writes) (rows : List ρ) :
    (writes.foldl (upsertWrite key) rows).map key = upsertedKeys writes (rows.map key) := by
  rw [← foldl_keyWrite]
  induction writes generalizing rows with
  | nil => rfl
  | cons w writes ih =>
    have hrest : WellKeyed key writes := fun w' hw => h w' (List.mem_cons_of_mem w hw)
    rw [List.foldl_cons, List.foldl_cons, ih hrest, keys_upsertWrite (h w List.mem_cons_self)]

end SqlDb
