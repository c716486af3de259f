import Mathlib.Data.List.Infix

/-!
# Searching a text for quoted values

A text in which some values stand between quotes is cut by its quotes into
pieces: what is in front of the first quote, a value or what lies between two
values for each quote, and what is behind the last one. A search for some
pieces with their quotes (`quoted ws ++ [q]`) finds them in the text just if
they are next to each other among its pieces (`quoted_infix_iff`), so that
no value is found in a part of a longer one.
-/

namespace SqlDb.Quoted

variable {α : Type} {q : α}

/-- Pieces, each with a quote in front. -/
def quoted (q : α) (pieces : List (List α)) : List α := pieces.flatMap (q :: ·)

theorem quoted_cons (p : List α) (pieces : List (List α)) :
    quoted q (p :: pieces) = q :: (p ++ quoted q pieces) := rfl

theorem quoted_append (ps ps' : List (List α)) : quoted q (ps ++ ps') = quoted q ps ++ quoted q ps' :=
  List.flatMap_append

theorem mem_quoted {c : α} {ps : List (List α)} (h : c ∈ quoted q ps) : c = q ∨ ∃ p ∈ ps, c ∈ p := by
  obtain ⟨p, hp, hc⟩ := List.mem_flatMap.mp h
  exact (List.mem_cons.mp hc).imp_right fun hc => ⟨p, hp, hc⟩

/-- A piece that ends with a quote is found in front of a text just if the text's first piece is the same. -/
theorem append_prefix_iff {x y u v : List α} (hx : q ∉ x) (hy : q ∉ y) :
    x ++ q :: u <+: y ++ q :: v ↔ x = y ∧ u <+: v := by
  induction x generalizing y with
  | nil =>
    rcases y with _ | ⟨c, y⟩
    · simp only [List.nil_append, List.cons_prefix_cons, true_and]
    · have hc : q ≠ c := (List.ne_and_not_mem_of_not_mem_cons hy).1
      simp only [List.nil_append, List.cons_append, List.cons_prefix_cons, hc, false_and, reduceCtorEq]
  | cons c x ih =>
    obtain ⟨hc, hx⟩ := List.ne_and_not_mem_of_not_mem_cons hx
    rcases y with _ | ⟨c', y⟩
    · simp only [List.nil_append, List.cons_append, List.cons_prefix_cons, hc.symm, false_and, reduceCtorEq]
    · simp only [List.cons_append, List.cons_prefix_cons, ih hx (List.ne_and_not_mem_of_not_mem_cons hy).2,
        List.cons.injEq, and_assoc]

/-- Nothing with a quote is found in a piece. -/
theorem not_isInfix {x y u : List α} (hy : q ∉ y) : ¬x ++ q :: u <:+: y := fun h =>
  hy (h.subset (List.mem_append_right x List.mem_cons_self))

variable {ws ps : List (List α)} {first last : List α}

/-- The first quote of some pieces and what is behind them. -/
theorem quoted_append_cons (q : α) (ps : List (List α)) (last : List α) :
    ∃ u, quoted q ps ++ q :: last = q :: u := by
  rcases ps with _ | ⟨p, ps⟩
  · exact ⟨last, rfl⟩
  · exact ⟨p ++ quoted q ps ++ q :: last, rfl⟩

theorem quoted_prefix_iff (hws : ∀ w ∈ ws, q ∉ w) (hps : ∀ p ∈ ps, q ∉ p) (hlast : q ∉ last) :
    quoted q ws ++ [q] <+: quoted q ps ++ q :: last ↔ ws <+: ps := by
  induction ws generalizing ps with
  | nil =>
    obtain ⟨u, hu⟩ := quoted_append_cons q ps last
    rw [hu]
    exact iff_of_true (List.cons_prefix_cons.mpr ⟨rfl, List.nil_prefix⟩) List.nil_prefix
  | cons w ws ih =>
    obtain ⟨hw, hws⟩ := List.forall_mem_cons.mp hws
    obtain ⟨u, hu⟩ := quoted_append_cons q ws []
    rw [quoted_cons, List.cons_append, List.append_assoc, hu]
    rcases ps with _ | ⟨p, ps⟩
    · refine iff_of_false (fun h => ?_) (by simp)
      exact not_isInfix hlast (List.cons_prefix_cons.mp h).2.isInfix
    · obtain ⟨hp, hps⟩ := List.forall_mem_cons.mp hps
      obtain ⟨v, hv⟩ := quoted_append_cons q ps last
      have ih := ih hws hps
      rw [hu, hv, List.cons_prefix_cons] at ih
      rw [quoted_cons, List.cons_append, List.append_assoc, hv, List.cons_prefix_cons,
        append_prefix_iff hw hp, List.cons_prefix_cons, ← ih]
      simp only [true_and]

/-- An occurrence that starts with a quote is not in front of the first one. -/
theorem infix_append_iff {x u v : List α} (hx : q ∉ x) : q :: u <:+: x ++ v ↔ q :: u <:+: v := by
  induction x with
  | nil => rfl
  | cons c x ih =>
    obtain ⟨hc, hx⟩ := List.ne_and_not_mem_of_not_mem_cons hx
    rw [List.cons_append, List.infix_cons_iff, List.cons_prefix_cons, ih hx]
    exact ⟨fun h => h.resolve_left fun h => hc h.1, .inr⟩

/-- The pieces searched for are found just if they are next to each other in the text. -/
theorem quoted_infix_iff (hws : ∀ w ∈ ws, q ∉ w) (hps : ∀ p ∈ ps, q ∉ p) (hfirst : q ∉ first)
    (hlast : q ∉ last) :
    quoted q ws ++ [q] <:+: first ++ (quoted q ps ++ q :: last) ↔ ws <:+: ps := by
  obtain ⟨u, hu⟩ := quoted_append_cons q ws []
  rw [hu, infix_append_iff hfirst]
  induction ps with
  | nil =>
    have hprefix : quoted q ws ++ [q] <+: quoted q [] ++ q :: last ↔ ws <+: [] :=
      quoted_prefix_iff hws hps hlast
    rw [hu] at hprefix
    rw [quoted, List.flatMap_nil, List.nil_append, List.infix_cons_iff, List.infix_nil, ← List.prefix_nil,
      ← hprefix]
    exact ⟨fun h => h.resolve_right (not_isInfix (x := []) hlast), .inl⟩
  | cons p ps ih =>
    have hprefix := quoted_prefix_iff hws hps hlast
    rw [hu] at hprefix
    obtain ⟨hp, hps⟩ := List.forall_mem_cons.mp hps
    have hcons : ws <:+: p :: ps ↔ ws <+: p :: ps ∨ ws <:+: ps := List.infix_cons_iff
    rw [hcons, ← hprefix, ← ih hps, quoted_cons, List.cons_append, List.append_assoc, List.infix_cons_iff,
      infix_append_iff hp]

end SqlDb.Quoted
