import SqlDbPlugin.Api.Tokens
import SqlDbPlugin.Lib.Decimal

/-!
# Amounts

`asset_amount_to_string` prints the numeral of the amount with the symbol's
decimals, unless the amount is the least 64-bit integer, whose absolute
value is out of range (`toList_assetAmountToString`). So amounts are printed
exactly (`amount_text`), but the rows of a table may hold that integer too
(`row_formats_iff`).
-/

namespace SqlDb

open Decimal (Numeral)

variable {L : ApiLib} {cursor : Asset}

/-- `precision()` is the power of ten. -/
def PowerOfTen (L : ApiLib) : Prop :=
  ∀ cursor, cursor.precision ≤ 18 → (L.precision cursor).toInt = 10 ^ cursor.precision.toNat

/-! ## The operations -/

theorem abs_toInt {a : Int64} (h : a ≠ Int64.minValue) : a.abs.toInt = a.toInt.natAbs := by
  have hb : a.toBitVec ≠ BitVec.intMin 64 := fun hb => h (Int64.toBitVec.inj hb)
  exact BitVec.toInt_abs_eq_natAbs_of_ne_intMin hb

theorem pow_le {d : UInt8} (hd : d ≤ 18) : 10 ^ d.toNat ≤ 10 ^ 18 :=
  Nat.pow_le_pow_right (by decide) (UInt8.le_iff_toNat_le.mp hd)

theorem precision_toInt (hL : PowerOfTen L) (hd : cursor.precision ≤ 18) :
    (L.precision cursor).toInt = (10 ^ cursor.precision.toNat : Nat) := by
  rw [hL cursor hd, Int.natCast_pow]
  rfl

theorem precision_ne (hL : PowerOfTen L) (hd : cursor.precision ≤ 18) : L.precision cursor ≠ -1 := by
  intro h
  have hnonneg : 0 ≤ (L.precision cursor).toInt := precision_toInt hL hd ▸ Int.natCast_nonneg _
  rw [h] at hnonneg
  exact absurd hnonneg (by decide)

/-- The quotient, the remainder, and the sum with the remainder, none of which overflows. -/
theorem formatter_toInt (hL : PowerOfTen L) (hd : cursor.precision ≤ 18)
    (ha : cursor.amount ≠ Int64.minValue) :
    (cursor.amount.abs / L.precision cursor).toInt =
        (cursor.amount.toInt.natAbs / 10 ^ cursor.precision.toNat : Nat) ∧
      (cursor.amount.abs % L.precision cursor).toInt =
        (cursor.amount.toInt.natAbs % 10 ^ cursor.precision.toNat : Nat) ∧
      (L.precision cursor + cursor.amount.abs % L.precision cursor).toInt =
        (10 ^ cursor.precision.toNat + cursor.amount.toInt.natAbs % 10 ^ cursor.precision.toNat : Nat) := by
  have hp := precision_toInt hL hd
  have hpow := pow_le hd
  have hpos : 0 < 10 ^ cursor.precision.toNat := Nat.pow_pos (by decide)
  have hlt := Nat.mod_lt cursor.amount.toInt.natAbs hpos
  have hmod : (cursor.amount.abs % L.precision cursor).toInt =
      (cursor.amount.toInt.natAbs % 10 ^ cursor.precision.toNat : Nat) := by
    rw [Int64.toInt_mod, abs_toInt ha, hp, Int.ofNat_tmod]
  refine ⟨?_, hmod, ?_⟩
  · rw [Int64.toInt_div_of_ne_right _ _ (precision_ne hL hd), abs_toInt ha, hp, Int.ofNat_tdiv]
  · rw [Int64.toInt_add, hmod, hp, ← Int.natCast_add, Int.bmod_eq_of_le_mul_two]
    · omega
    · omega

theorem toList_toString_natCast (n : Nat) : (toString (n : Int)).toList = Nat.toDigits 10 n := by
  rw [show toString (n : Int) = n.repr from rfl, Nat.toList_repr]

/-- The text is that of the numeral. -/
theorem toList_assetAmountToString (hL : PowerOfTen L) (hd : cursor.precision ≤ 18)
    (ha : cursor.amount ≠ Int64.minValue) :
    (assetAmountToString L cursor).toList =
      (Numeral.ofScaled cursor.precision.toNat cursor.amount.toInt).text := by
  obtain ⟨hdiv, -, hsum⟩ := formatter_toInt hL hd ha
  have hsign : (if cursor.amount < 0 then "-" else "").toList =
      if decide (cursor.amount.toInt < 0) then ['-'] else [] := by
    have hneg : cursor.amount < 0 ↔ cursor.amount.toInt < 0 := Int64.lt_iff_toInt_lt
    simp only [hneg, decide_eq_true_eq]
    split <;> rfl
  have hdecimals : cursor.precision ≠ 0 ↔ ¬cursor.precision.toNat = 0 := not_congr UInt8.toNat_inj.symm
  rw [assetAmountToString, hdiv, hsum, String.toList_append, hsign, Numeral.text]
  refine congrArg _ ?_
  by_cases h0 : cursor.precision.toNat = 0
  · rw [if_neg (mt hdecimals.mp (not_not.mpr h0)), if_pos h0, List.append_nil, toList_toString_natCast]
    rfl
  · rw [if_pos (hdecimals.mpr h0), if_neg h0, String.toList_append, String.toList_append,
      toList_toString_natCast, toList_toString_natCast, String.toList_ofList, String.toList_ofList]
    rfl

/-- Read as a decimal, the text is the amount. -/
theorem value_assetAmountToString (hL : PowerOfTen L) (hd : cursor.precision ≤ 18)
    (ha : cursor.amount ≠ Int64.minValue) :
    Decimal.value (assetAmountToString L cursor).toList * 10 ^ cursor.precision.toNat =
      cursor.amount.toInt := by
  rw [toList_assetAmountToString hL hd ha, Numeral.value_text, Numeral.value_ofScaled]

theorem ne_minValue {a : Int64} (h : a.toInt.natAbs ≤ 2 ^ 62 - 1) : a ≠ Int64.minValue := by
  rintro rfl
  exact absurd h (by decide)

/-- The text is a numeral with the amount's sign and the symbol's decimals, which is read as the amount. -/
theorem amount_text (L : ApiLib) (hL : PowerOfTen L) :
    (∀ cursor, cursor.precision ≤ 18 → cursor.amount.toInt.natAbs ≤ 2 ^ 62 - 1 →
      ∃ n : Numeral cursor.precision.toNat,
        (assetAmountToString L cursor).toList = n.text ∧
        (n.negative = true ↔ cursor.amount < 0) ∧
        Decimal.value (assetAmountToString L cursor).toList * 10 ^ cursor.precision.toNat =
          cursor.amount.toInt) ∧
    ∀ cursor cursor', cursor.precision ≤ 18 → cursor.precision = cursor'.precision →
      cursor.amount.toInt.natAbs ≤ 2 ^ 62 - 1 → cursor'.amount.toInt.natAbs ≤ 2 ^ 62 - 1 →
      assetAmountToString L cursor = assetAmountToString L cursor' → cursor.amount = cursor'.amount := by
  refine ⟨fun cursor hd ha => ?_, fun cursor cursor' hd hsame ha ha' htext => ?_⟩
  · refine ⟨.ofScaled _ cursor.amount.toInt, toList_assetAmountToString hL hd (ne_minValue ha), ?_,
      value_assetAmountToString hL hd (ne_minValue ha)⟩
    rw [Int64.lt_iff_toInt_lt]
    exact decide_eq_true_iff
  · have h := value_assetAmountToString hL hd (ne_minValue ha)
    rw [htext, hsame, value_assetAmountToString hL (hsame ▸ hd) (ne_minValue ha')] at h
    exact Int64.toInt_inj.mp (Int.cast_injective h).symm

/-- `precision()` of the examples. -/
theorem ApiLib.sample_powerOfTen : PowerOfTen ApiLib.sample := by
  intro cursor hd
  have h : ∀ d : Fin 19, (Int64.ofNat (Nat.pow 10 d)).toInt = 10 ^ d.val := by decide
  exact h ⟨cursor.precision.toNat, Nat.lt_succ_of_le (UInt8.le_iff_toNat_le.mp hd)⟩

/-- An amount between -1 and 0. -/
theorem amount_text_small :
    assetAmountToString ApiLib.sample ⟨-50, 4, "EOS"⟩ = "-0.0050" ∧
      Decimal.value (assetAmountToString ApiLib.sample ⟨-50, 4, "EOS"⟩).toList * 10 ^ 4 = (-50 : Int) ∧
      assetAmountToString ApiLib.sample ⟨-50, 4, "EOS"⟩ ≠
        assetAmountToString ApiLib.sample ⟨50, 4, "EOS"⟩ := by
  have h := amount_text ApiLib.sample ApiLib.sample_powerOfTen
  obtain ⟨-, -, -, hvalue⟩ := h.1 ⟨-50, 4, "EOS"⟩ (by decide) (by decide)
  refine ⟨by decide, hvalue, fun htext => ?_⟩
  exact absurd (h.2 ⟨-50, 4, "EOS"⟩ ⟨50, 4, "EOS"⟩ (by decide) rfl (by decide) (by decide) htext)
    (by decide)

/-! ## The rows -/

/-- The operations on 64-bit integers, each as what it computes and the exact result. -/
def formatterSteps (L : ApiLib) (cursor : Asset) : List (Int64 × Int) :=
  let absAmount := cursor.amount.abs
  let precision := L.precision cursor
  let fract := absAmount % precision
  (absAmount, (cursor.amount.toInt.natAbs : Int)) ::
    (absAmount / precision, absAmount.toInt.tdiv precision.toInt) ::
    if cursor.precision ≠ 0 then
      [(fract, absAmount.toInt.tmod precision.toInt), (precision + fract, precision.toInt + fract.toInt)]
    else []

/-- A 64-bit result. -/
def InRange (n : Int) : Prop := Int64.minValue.toInt ≤ n ∧ n ≤ Int64.maxValue.toInt

/-- No operation overflows, and the fraction has the symbol's number of digits. -/
def Formats (L : ApiLib) (cursor : Asset) : Prop :=
  (∀ step ∈ formatterSteps L cursor, InRange step.2 ∧ step.1.toInt = step.2) ∧
    (Decimal.behindPoint (assetAmountToString L cursor).toList).length = cursor.precision.toNat

theorem inRange_toInt (a : Int64) : InRange a.toInt := ⟨a.minValue_le_toInt, a.toInt_le⟩

/-- No operation overflows unless the absolute value does. -/
theorem formatterSteps_exact (hL : PowerOfTen L) (hd : cursor.precision ≤ 18)
    (ha : cursor.amount ≠ Int64.minValue) :
    ∀ step ∈ formatterSteps L cursor, step.1.toInt = step.2 := by
  obtain ⟨-, hmod, hsum⟩ := formatter_toInt hL hd ha
  have hdecimals : ∀ step ∈ [(cursor.amount.abs % L.precision cursor,
      cursor.amount.abs.toInt.tmod (L.precision cursor).toInt),
      (L.precision cursor + cursor.amount.abs % L.precision cursor,
        (L.precision cursor).toInt + (cursor.amount.abs % L.precision cursor).toInt)],
      step.1.toInt = step.2 := by
    refine List.forall_mem_cons.mpr ⟨Int64.toInt_mod _ _, List.forall_mem_singleton.mpr ?_⟩
    rw [hsum, precision_toInt hL hd, hmod, Int.natCast_add]
  refine List.forall_mem_cons.mpr ⟨abs_toInt ha, List.forall_mem_cons.mpr
    ⟨Int64.toInt_div_of_ne_right _ _ (precision_ne hL hd), ?_⟩⟩
  split
  · exact hdecimals
  · exact List.forall_mem_nil _

theorem formats_of_ne (hL : PowerOfTen L) (hd : cursor.precision ≤ 18)
    (ha : cursor.amount ≠ Int64.minValue) : Formats L cursor := by
  refine ⟨fun step hstep => ?_, ?_⟩
  · have hexact := formatterSteps_exact hL hd ha step hstep
    exact ⟨hexact ▸ inRange_toInt step.1, hexact⟩
  · rw [toList_assetAmountToString hL hd ha, Numeral.behindPoint_text]
    exact (Numeral.ofScaled _ _).fraction_length

/-- The absolute value of the least integer is out of range. -/
theorem not_formats_minValue (h : cursor.amount = Int64.minValue) : ¬Formats L cursor := by
  intro hformats
  have hrange := (hformats.1 _ List.mem_cons_self).1.2
  rw [h] at hrange
  exact absurd hrange (by decide)

theorem valid_of_tokenRow {symbol : String} {obj : KeyValueObject} {s s' : Token × List Token} {b : Bool}
    (hrow : (tokenRow L symbol obj).run s = (.ok b, s')) (hcursor : L.unpackAsset obj.value = .ok cursor) :
    L.symbolValid cursor = true := by
  rw [run_tokenRow, balanceIn, hcursor, Captured.ok_bind] at hrow
  cases hvalid : L.symbolValid cursor with
  | true => rfl
  | false =>
    rw [hvalid, if_pos rfl, ite_self] at hrow
    cases hrow

/-- In a row that the callback accepts, the amount is formatted without an
overflow and with all decimals unless it is the least integer. -/
theorem row_formats_iff (L : ApiLib) (hL : PowerOfTen L)
    (hvalid : ∀ cursor, L.symbolValid cursor = true → cursor.precision ≤ 18) (symbol : String)
    (obj : KeyValueObject) (cursor : Asset) (s s' : Token × List Token) (b : Bool)
    (hrow : (tokenRow L symbol obj).run s = (.ok b, s')) (hcursor : L.unpackAsset obj.value = .ok cursor) :
    Formats L cursor ↔ cursor.amount ≠ Int64.minValue :=
  ⟨fun h ha => not_formats_minValue ha h,
    formats_of_ne hL (hvalid cursor (valid_of_tokenRow hrow hcursor))⟩

/-- A row of `accounts` with an amount, in the symbol `4,EOS`. -/
def rowOf (amount : List UInt8) : KeyValueObject :=
  ⟨1, 5459781, amount ++ [4, 0x45, 0x4f, 0x53, 0, 0, 0, 0]⟩

/-- The callback shows the least integer with a second sign, and a digit short. -/
theorem row_overflows :
    ((tokenRow ApiLib.sample "EOS" (rowOf [0, 0, 0, 0, 0, 0, 0, 0x80])).run
        (Token.mk .eosioToken "" "EOS" 0, [])).2.2 =
      [⟨.eosioToken, "--922337203685477.192", "EOS", 4⟩] ∧
    ¬∀ cursor, ApiLib.sample.unpackAsset (rowOf [0, 0, 0, 0, 0, 0, 0, 0x80]).value = .ok cursor →
      Formats ApiLib.sample cursor := by
  refine ⟨by decide +kernel, fun h => ?_⟩
  exact not_formats_minValue rfl (h ⟨Int64.minValue, 4, "EOS"⟩ (by decide +kernel))

theorem row_formats_iff_eos : Formats ApiLib.sample ⟨10000, 4, "EOS"⟩ := by
  refine (row_formats_iff ApiLib.sample ApiLib.sample_powerOfTen ?_ "EOS"
    (rowOf [0x10, 0x27, 0, 0, 0, 0, 0, 0]) ⟨10000, 4, "EOS"⟩ (Token.mk .eosioToken "" "EOS" 0, [])
    (Token.mk .eosioToken "1.0000" "EOS" 4, [⟨.eosioToken, "1.0000", "EOS", 4⟩]) false
    (by decide +kernel) (by decide +kernel)).mpr (by decide)
  intro cursor h
  exact of_decide_eq_true (Bool.and_eq_true_iff.mp h).1

end SqlDb
