import Mathlib.Order.Lattice
import Mathlib.Tactic.Common

/-!
# Ranges of an ordered index

An index is a list of rows in the order of a key. `lowerBound k` is the rest
of it from the first row on whose key is not less than `k`, and `range k k'`
what lies between two such iterators. On an index in order this is what a
filter would select (`range_eq_filter`).
-/

namespace SqlDb.OrderedIndex

variable {ρ κ : Type} [LinearOrder κ]

/-- `lower_bound`: the iterator at the first row whose key is not less than `k`. -/
def lowerBound (key : ρ → κ) (k : κ) (rows : List ρ) : List ρ := rows.dropWhile fun r => key r < k

/-- The rows from `lower_bound` of `k` up to, and without, that of `k'`. -/
def range (key : ρ → κ) (k k' : κ) (rows : List ρ) : List ρ :=
  (lowerBound key k rows).take ((lowerBound key k rows).length - (lowerBound key k' rows).length)

variable {key : ρ → κ} {k k' : κ} {rows : List ρ}

theorem lowerBound_of_le (h : ∀ r ∈ rows, k ≤ key r) : lowerBound key k rows = rows := by
  cases rows with
  | nil => rfl
  | cons r rows =>
    have hr : ¬ key r < k := not_lt.mpr (h r List.mem_cons_self)
    rw [lowerBound, List.dropWhile_cons, if_neg (by simpa using hr)]

/-- The iterator of the lower key is that of the higher one, with the rows between them in front. -/
theorem lowerBound_eq_append (hs : rows.Pairwise fun a b => key a ≤ key b) (hk : k ≤ k') :
    lowerBound key k rows = rows.filter (fun r => k ≤ key r ∧ key r < k') ++ lowerBound key k' rows := by
  induction rows with
  | nil => rfl
  | cons r rows ih =>
    obtain ⟨hr, hs⟩ := List.pairwise_cons.mp hs
    have ih := ih hs
    rw [List.filter_cons]
    by_cases h : key r < k
    · have h' : key r < k' := lt_of_lt_of_le h hk
      have hskip (j : κ) (hj : key r < j) : lowerBound key j (r :: rows) = lowerBound key j rows := by
        rw [lowerBound, List.dropWhile_cons, if_pos (by simpa using hj), lowerBound]
      rw [hskip k h, hskip k' h', if_neg (by simp [not_le.mpr h]), ih]
    · have hle : k ≤ key r := not_lt.mp h
      have hall : ∀ x ∈ r :: rows, k ≤ key x :=
        List.forall_mem_cons.mpr ⟨hle, fun x hx => hle.trans (hr x hx)⟩
      rw [lowerBound_of_le hall]
      by_cases h' : key r < k'
      · have hrest : lowerBound key k rows = rows :=
          lowerBound_of_le fun x hx => hall x (List.mem_cons_of_mem r hx)
        have hskip : lowerBound key k' (r :: rows) = lowerBound key k' rows := by
          rw [lowerBound, List.dropWhile_cons, if_pos (by simpa using h'), lowerBound]
        rw [if_pos (by simp [hle, h']), hskip, List.cons_append, ← ih, hrest]
      · have hle' : k' ≤ key r := not_lt.mp h'
        have hnone : rows.filter (fun x => k ≤ key x ∧ key x < k') = [] := by
          refine List.filter_eq_nil_iff.mpr fun x hx => ?_
          have : ¬ key x < k' := not_lt.mpr (hle'.trans (hr x hx))
          simp [this]
        have hall' : ∀ x ∈ r :: rows, k' ≤ key x :=
          List.forall_mem_cons.mpr ⟨hle', fun x hx => hle'.trans (hr x hx)⟩
        rw [if_neg (by simp [h']), hnone, lowerBound_of_le hall', List.nil_append]

/-- On an index in order, a range is the rows with keys in it. -/
theorem range_eq_filter (hs : rows.Pairwise fun a b => key a ≤ key b) (hk : k ≤ k') :
    range key k k' rows = rows.filter fun r => k ≤ key r ∧ key r < k' := by
  have h := lowerBound_eq_append hs hk
  rw [range, h, List.length_append, Nat.add_sub_cancel]
  exact List.take_left' rfl

end SqlDb.OrderedIndex
