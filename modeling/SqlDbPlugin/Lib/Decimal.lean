import Mathlib.Algebra.Order.Field.Rat
import Mathlib.Tactic.NormNum

/-!
# Decimal numerals

A numeral with a fixed number of decimals (`Numeral d`) is a sign, digits
without a superfluous zero in front, and `d` digits behind the point; the
point is not written if `d` is 0. `value` reads any text as a decimal, and
`Numeral.value_text` says that it reads a numeral's text as its number.
`Numeral.ofScaled d a` is the numeral of `a / 10 ^ d`. Its fraction is
printed by printing the fraction's digits together with a 1 in front, which
keeps the zeros (`toDigits_pow_add`).
-/

namespace SqlDb.Decimal

/-! ## Digits -/

theorem ne_of_isDigit {c c' : Char} (hc : c.isDigit = true) (hc' : c'.isDigit = false) : c ≠ c' := by
  rintro rfl
  rw [hc] at hc'
  cases hc'

theorem isDigit_toDigits (n : Nat) : ∀ c ∈ Nat.toDigits 10 n, c.isDigit = true :=
  fun _ hc => Nat.isDigit_of_mem_toDigits (by decide) (by decide) hc

/-- The digits of a positive number do not start with a zero. -/
theorem head_toDigits {n : Nat} (h : 0 < n) : (Nat.toDigits 10 n).head? ≠ some '0' := by
  induction n using Nat.strongRecOn with
  | ind n ih =>
    by_cases hn : n < 10
    · have hlt : ∀ k < 10, 0 < k → [Nat.digitChar k].head? ≠ some '0' := by decide
      rw [Nat.toDigits_of_lt_base hn]
      exact hlt n hn h
    · have ih := ih (n / 10) (by omega) (by omega)
      rw [Nat.toDigits_of_base_le (by decide) (Nat.le_of_not_lt hn), List.head?_append]
      rcases hd : (Nat.toDigits 10 (n / 10)).head? with _ | c
      · exact absurd (List.head?_eq_none_iff.mp hd) Nat.toDigits_ne_nil
      · rw [hd] at ih
        exact ih

/-- A number below `10 ^ d` is printed with `d` digits behind a 1 if `10 ^ d` is added to it. -/
theorem toDigits_pow_add {d f : Nat} (h : f < 10 ^ d) :
    ∃ ds, Nat.toDigits 10 (10 ^ d + f) = '1' :: ds ∧ ds.length = d ∧ Nat.ofDigitChars 10 ds 0 = f := by
  induction d generalizing f with
  | zero =>
    obtain rfl : f = 0 := by omega
    exact ⟨[], by decide, rfl, rfl⟩
  | succ d ih =>
    have hpos : 0 < 10 ^ d := Nat.pow_pos (by decide)
    obtain ⟨ds, hds, hlength, hvalue⟩ := ih (f := f / 10) (by rw [Nat.pow_succ] at h; omega)
    refine ⟨ds ++ [Nat.digitChar (f % 10)], ?_, by rw [List.length_append, hlength]; rfl, ?_⟩
    · have hsplit : 10 ^ (d + 1) + f = 10 * (10 ^ d + f / 10) + f % 10 := by
        rw [Nat.pow_succ]
        omega
      rw [hsplit, ← Nat.toDigits_append_toDigits (by decide) (by omega) (Nat.mod_lt f (by decide)), hds,
        Nat.toDigits_of_lt_base (Nat.mod_lt f (by decide)), List.cons_append]
    · rw [Nat.ofDigitChars_append, hvalue, Nat.ofDigitChars_cons_digitChar_of_lt_ten (Nat.mod_lt f (by decide)),
        Nat.ofDigitChars_nil]
      omega

/-! ## Texts -/

/-- The number a text stands for, read as a decimal. -/
def value (text : List Char) : ℚ :=
  let digits := if text.head? = some '-' then text.tail else text
  let whole := digits.takeWhile (· ≠ '.')
  let fraction := (digits.dropWhile (· ≠ '.')).drop 1
  let number : ℚ := Nat.ofDigitChars 10 whole 0 + Nat.ofDigitChars 10 fraction 0 / 10 ^ fraction.length
  if text.head? = some '-' then -number else number

/-- What is behind the point of a text. -/
def behindPoint (text : List Char) : List Char := (text.dropWhile (· ≠ '.')).drop 1

/-- A numeral with `d` decimals. -/
structure Numeral (d : Nat) where
  negative : Bool
  whole : List Char
  fraction : List Char
  whole_digits : ∀ c ∈ whole, c.isDigit = true
  whole_ne_nil : whole ≠ []
  no_zero : whole.head? = some '0' → whole = ['0']
  fraction_digits : ∀ c ∈ fraction, c.isDigit = true
  fraction_length : fraction.length = d

namespace Numeral

variable {d : Nat}

/-- The text of a numeral. -/
def text (n : Numeral d) : List Char :=
  (if n.negative then ['-'] else []) ++ (n.whole ++ if d = 0 then [] else '.' :: n.fraction)

/-- The number of a numeral. -/
def value (n : Numeral d) : ℚ :=
  let number : ℚ := Nat.ofDigitChars 10 n.whole 0 + Nat.ofDigitChars 10 n.fraction 0 / 10 ^ d
  if n.negative then -number else number

/-- What is behind the sign. -/
def digits (n : Numeral d) : List Char := n.whole ++ if d = 0 then [] else '.' :: n.fraction

theorem takeWhile_digits (n : Numeral d) : n.digits.takeWhile (· ≠ '.') = n.whole := by
  have hwhole : ∀ c ∈ n.whole, decide (c ≠ '.') = true := fun c hc =>
    decide_eq_true (ne_of_isDigit (n.whole_digits c hc) (by decide))
  rw [digits, List.takeWhile_append_of_pos hwhole]
  split
  · exact List.append_nil _
  · rw [List.takeWhile_cons_of_neg (by decide), List.append_nil]

theorem drop_dropWhile_digits (n : Numeral d) : (n.digits.dropWhile (· ≠ '.')).drop 1 = n.fraction := by
  have hwhole : ∀ c ∈ n.whole, decide (c ≠ '.') = true := fun c hc =>
    decide_eq_true (ne_of_isDigit (n.whole_digits c hc) (by decide))
  rw [digits, List.dropWhile_append_of_pos hwhole]
  split
  · rename_i hd
    exact (List.length_eq_zero_iff.mp (n.fraction_length.trans hd)).symm
  · rw [List.dropWhile_cons_of_neg (by decide)]
    rfl

theorem behindPoint_text (n : Numeral d) : behindPoint n.text = n.fraction := by
  have htext : n.text = (if n.negative then ['-'] else []) ++ n.digits := rfl
  rw [behindPoint, htext]
  cases n.negative with
  | false => exact n.drop_dropWhile_digits
  | true =>
    rw [if_pos rfl, List.singleton_append, List.dropWhile_cons_of_pos (by decide)]
    exact n.drop_dropWhile_digits

/-- The text of a numeral is read as its number. -/
theorem value_text (n : Numeral d) : Decimal.value n.text = n.value := by
  have hhead : n.digits.head? ≠ some '-' := by
    obtain ⟨c, cs, hwhole⟩ := List.exists_cons_of_ne_nil n.whole_ne_nil
    have hc := n.whole_digits c (hwhole ▸ List.mem_cons_self)
    rw [digits, hwhole, List.cons_append, List.head?_cons, ne_eq, Option.some.injEq]
    exact ne_of_isDigit hc (by decide)
  have htext : n.text = (if n.negative then ['-'] else []) ++ n.digits := rfl
  rw [Decimal.value, value, htext]
  cases n.negative with
  | false =>
    simp only [Bool.false_eq_true, if_false, List.nil_append, hhead, n.takeWhile_digits,
      n.drop_dropWhile_digits, n.fraction_length]
  | true =>
    simp only [if_true, List.singleton_append, List.head?_cons, List.tail_cons, n.takeWhile_digits,
      n.drop_dropWhile_digits, n.fraction_length]

/-- The fraction of a number below `10 ^ d`: its digits with a 1 in front, without the 1. -/
def fractionDigits (d f : Nat) : List Char := (Nat.toDigits 10 (10 ^ d + f)).drop 1

theorem length_fractionDigits {f : Nat} (h : f < 10 ^ d) : (fractionDigits d f).length = d := by
  obtain ⟨ds, hds, hlength, -⟩ := toDigits_pow_add h
  rw [fractionDigits, hds]
  exact hlength

theorem ofDigitChars_fractionDigits {f : Nat} (h : f < 10 ^ d) :
    Nat.ofDigitChars 10 (fractionDigits d f) 0 = f := by
  obtain ⟨ds, hds, -, hvalue⟩ := toDigits_pow_add h
  rw [fractionDigits, hds]
  exact hvalue

/-- The numeral of `a / 10 ^ d`. -/
def ofScaled (d : Nat) (a : Int) : Numeral d where
  negative := decide (a < 0)
  whole := Nat.toDigits 10 (a.natAbs / 10 ^ d)
  fraction := fractionDigits d (a.natAbs % 10 ^ d)
  whole_digits := isDigit_toDigits _
  whole_ne_nil := Nat.toDigits_ne_nil
  no_zero h := by
    rcases Nat.eq_zero_or_pos (a.natAbs / 10 ^ d) with hz | hpos
    · rw [hz]
      decide
    · exact absurd h (head_toDigits hpos)
  fraction_digits c hc := isDigit_toDigits _ c (List.mem_of_mem_drop hc)
  fraction_length := length_fractionDigits (Nat.mod_lt _ (Nat.pow_pos (by decide)))

/-- Scaled by `10 ^ d`, its number is `a`. -/
theorem value_ofScaled (d : Nat) (a : Int) : (ofScaled d a).value * 10 ^ d = a := by
  have hmod : a.natAbs % 10 ^ d < 10 ^ d := Nat.mod_lt _ (Nat.pow_pos (by decide))
  have hpow : (10 : ℚ) ^ d ≠ 0 := pow_ne_zero d (by norm_num)
  have hnumber : ((a.natAbs / 10 ^ d : Nat) + (a.natAbs % 10 ^ d : Nat) / (10 : ℚ) ^ d) * 10 ^ d =
      a.natAbs := by
    rw [add_mul, div_mul_cancel₀ _ hpow]
    exact_mod_cast Nat.div_add_mod' a.natAbs (10 ^ d)
  simp only [value, ofScaled, Nat.ofDigitChars_ten_toDigits, ofDigitChars_fractionDigits hmod,
    decide_eq_true_eq]
  by_cases ha : a < 0
  · rw [if_pos ha, neg_mul, hnumber]
    have habs : (a.natAbs : Int) = -a := by omega
    rw [← Int.cast_natCast, habs, Int.cast_neg, neg_neg]
  · rw [if_neg ha, hnumber]
    have habs : (a.natAbs : Int) = a := by omega
    rw [← Int.cast_natCast, habs]

end Numeral

end SqlDb.Decimal
