/-
# Prices as text (`oq-book/src/depth.rs`, `oq-gateway/src/exec.rs`, `oq-live/src/belief.rs`)

`decimal` writes a fixed-point number as a venue expects it.  `parseFixed` reads a level of
a book and `parseScaled` a fill of a journal.  What each of them reads is said in terms of
plain numerals (`parseFixed_iff`, `parseScaled_iff`), and the two are compared there: they
read the same number, but where the digits beyond the places are zeros only the first
reads it at all.
-/
import OpenQuanter.Belief
import OpenQuanter.LiquidationPrice
import OpenQuanter.Numeral

/-! ## Writing -/

namespace Exec

/-- The digits of a number, with zeros before them up to a width. -/
def zeroPad (width n : Nat) : List Char :=
  List.replicate (width - (Decimal.digits n).length) '0' ++ Decimal.digits n

/-- A fixed-point number as text.  A power of ten that is no `u64` stops the process. -/
def decimal (value : Int64) (scale : UInt8) : Option String :=
  if scale = 0 then some (toString value.toInt)
  else if 2 ^ 64 ≤ 10 ^ scale.toNat then none
  else
    let sign := if value < 0 then "-" else ""
    let magnitude := value.toInt.natAbs
    let divisor := 10 ^ scale.toNat
    let whole := magnitude / divisor
    let frac := magnitude % divisor
    some (sign ++ toString whole ++ "." ++ String.ofList (zeroPad scale.toNat frac))

end Exec

/-! ## Reading -/

namespace Depth

/-- Why a number could not be read. -/
inductive ParseError where
  | badNumber (text : String)
  | tooPrecise (text : String) (scale : UInt32)
  deriving DecidableEq, Repr

/-- What leaves an `i64` is refused. -/
def checkedNarrow (v : Int) : Option Int := if FitsI64 v then some v else none

/-- The digits before the point; none are zero. -/
def parseWhole (int : List Char) : Option Int :=
  if int.isEmpty then some 0
  else
    match Decimal.parse int with
    | some v => checkedNarrow v
    | none => none

/-- One place more, and the digit there if there is one. -/
def place (frac : List Char) (value : Int) (i : Nat) : Option Int := do
  let value ← checkedNarrow (value * 10)
  match frac[i]? with
  | some d => checkedNarrow (value + (d.toNat - 48 : Nat))
  | none => some value

/-- The value of the digits, to some places. -/
def fixed (int frac : List Char) (scale : Nat) : Option Int := do
  let value ← parseWhole int
  (List.range scale).foldlM (place frac) value

/-- A decimal text as a fixed-point number; digits that would be lost are refused. -/
def parseFixed (text : String) (scale : UInt32) : Except ParseError Int64 :=
  let bad := .error (.badNumber text)
  let (negative, digits) := Decimal.stripMinus text.toList
  if digits.isEmpty then bad
  else
    let (int, frac) := Decimal.halves digits
    if int.isEmpty && frac.isEmpty then bad
    else if !int.all Char.isDigit || !frac.all Char.isDigit then bad
    else if scale.toNat < (Decimal.significant frac).length then .error (.tooPrecise text scale)
    else
      match fixed int frac scale.toNat with
      | none => bad
      | some value => .ok (if negative then -Int64.ofInt value else Int64.ofInt value)

example : parseFixed "63090.10" 2 = .ok 6309010 := by decide +kernel
example : parseFixed "1.500" 2 = .ok 150 := by decide +kernel
example : parseFixed "1.005" 2 = .error (.tooPrecise "1.005" 2) := by decide +kernel

end Depth

/-! ## What is read -/

open Decimal (Numeral Sign significant padTo)

theorem Depth.checkedNarrow_nat {m : Nat} (h : m < 2 ^ 63) : checkedNarrow m = some (m : Int) :=
  if_pos ⟨by omega, by omega⟩

theorem Depth.checkedNarrow_big {m : Nat} (h : ¬m < 2 ^ 63) : checkedNarrow m = none :=
  if_neg fun hfits => by
    have := hfits.2
    omega

/-- A signed 64-bit value, from a magnitude that fits. -/
theorem signed_iff {sign : Sign} (hplus : sign ≠ .plus) (m : Nat) (v : Int64) :
    (m < 2 ^ 63 ∧ (if sign = .minus then -Int64.ofInt m else Int64.ofInt m) = v) ↔
      (sign.apply m = v.toInt ∧ v ≠ Int64.minValue) := by
  have hmin : Int64.minValue.toInt = -2 ^ 63 := by decide
  have htoInt : m < 2 ^ 63 →
      (if sign = .minus then -Int64.ofInt m else Int64.ofInt m).toInt = sign.apply m := by
    intro hm
    have hfits : FitsI64 m := ⟨by omega, by omega⟩
    cases sign with
    | bare => exact hfits.toInt_ofInt
    | minus =>
      have hneg : FitsI64 (-(m : Int)) := ⟨by omega, by omega⟩
      show (-Int64.ofInt m).toInt = -(m : Int)
      rw [← Int64.ofInt_neg]
      exact hneg.toInt_ofInt
    | plus => exact absurd rfl hplus
  constructor
  · rintro ⟨hm, rfl⟩
    refine ⟨(htoInt hm).symm, fun heq => ?_⟩
    have habs := congrArg Int.natAbs ((htoInt hm).symm.trans (congrArg Int64.toInt heq))
    rw [Sign.natAbs_apply, hmin] at habs
    omega
  · rintro ⟨hv, hne⟩
    have hm : m < 2 ^ 63 := by
      have habs := congrArg Int.natAbs hv
      rw [Sign.natAbs_apply] at habs
      have hlow := Int64.le_toInt v
      have hhigh := Int64.toInt_lt v
      have : v.toInt ≠ -2 ^ 63 := fun h => hne (Int64.toInt_inj.mp (h.trans hmin.symm))
      omega
    exact ⟨hm, Int64.toInt_inj.mp ((htoInt hm).trans hv)⟩

namespace Depth

/-- One place more, if the value it gives fits. -/
theorem place_eq (frac : List Char) (m i : Nat) :
    place frac m i = checkedNarrow (10 * m + ((frac.getD i '0').toNat - 48) : Nat) := by
  have hten : place frac m i = (checkedNarrow (m * 10 : Nat)).bind fun value =>
      (frac[i]?).elim (some value) fun d => checkedNarrow (value + (d.toNat - 48 : Nat)) := by
    unfold place
    cases frac[i]? <;> simp only [Option.bind_eq_bind, Option.elim, Nat.cast_mul, Nat.cast_ofNat]
  rw [hten, List.getD_eq_getElem?_getD, mul_comm m 10]
  by_cases hfits : 10 * m < 2 ^ 63
  · rw [checkedNarrow_nat hfits, Option.bind_some]
    cases frac[i]? with
    | some d => rw [Option.elim_some, Option.getD_some, Nat.cast_add]
    | none =>
      -- a zero that is not there adds nothing
      have hzero : ((none : Option Char).getD '0').toNat - 48 = 0 := by decide
      rw [Option.elim_none, hzero, add_zero, checkedNarrow_nat hfits]
  · rw [checkedNarrow_big hfits, Option.bind_none, checkedNarrow_big (by omega)]

/-- Step: what did not fit before does not fit with a place more. -/
theorem place_next (frac : List Char) (m i : Nat) :
    (checkedNarrow m >>= fun value => place frac value i) =
      checkedNarrow (10 * m + ((frac.getD i '0').toNat - 48) : Nat) := by
  rw [Option.bind_eq_bind]
  by_cases hm : m < 2 ^ 63
  · rw [checkedNarrow_nat hm, Option.bind_some, place_eq]
  · rw [checkedNarrow_big hm, Option.bind_none, checkedNarrow_big (by omega)]

/-- What is read is what the digits say, if that fits: no value on the way is larger. -/
theorem fixed_eq {int : List Char} (hint : ∀ c ∈ int, c.isDigit = true) (frac : List Char)
    (scale : Nat) :
    fixed int frac scale = checkedNarrow (Nat.ofDigitChars 10 (int ++ padTo scale frac) 0) := by
  have hwhole : parseWhole int = checkedNarrow (Nat.ofDigitChars 10 int 0) := by
    cases int with
    | nil => rfl
    | cons c int =>
      have hparse : Decimal.parse (c :: int) = some (Nat.ofDigitChars 10 (c :: int) 0) :=
        if_pos (List.all_eq_true.mpr hint)
      unfold parseWhole
      rw [hparse, List.isEmpty_cons, if_neg Bool.false_ne_true]
  unfold fixed
  rw [hwhole]
  induction scale with
  | zero =>
    rw [padTo, List.range_zero, List.map_nil, List.append_nil]
    simp only [List.foldlM_nil, bind_pure]
  | succ scale ih =>
    rw [Decimal.padTo_succ, ← List.append_assoc, Decimal.ofDigitChars_concat, ← place_next, ← ih]
    simp only [List.range_succ, List.foldlM_append, List.foldlM_cons, List.foldlM_nil, bind_pure,
      bind_assoc]

/-- What is read of a numeral. -/
theorem parseFixed_numeral (n : Numeral) (hplus : n.sign ≠ .plus) {text : String}
    (htext : n.text = text.toList) (scale : UInt32) :
    parseFixed text scale =
      if scale.toNat < (significant n.behind).length then .error (.tooPrecise text scale)
      else if n.scaled scale.toNat < 2 ^ 63 then
        .ok (if n.sign = .minus then -Int64.ofInt (n.scaled scale.toNat)
          else Int64.ofInt (n.scaled scale.toNat))
      else .error (.badNumber text) := by
  have hfixed : fixed n.whole n.behind scale.toNat = checkedNarrow (n.scaled scale.toNat) :=
    fixed_eq (List.all_eq_true.mp n.all_whole) _ _
  unfold parseFixed
  rw [← htext, n.stripMinus_text hplus]
  simp only [List.isEmpty_eq_false_iff.mpr n.body_ne_nil, n.halves_body, n.some_digit, n.all_whole,
    n.all_behind, hfixed, Bool.false_eq_true, Bool.not_true, Bool.or_self, if_false,
    decide_eq_true_eq]
  refine if_congr Iff.rfl rfl ?_
  by_cases hfits : n.scaled scale.toNat < 2 ^ 63
  · rw [checkedNarrow_nat hfits, if_pos hfits]
  · rw [checkedNarrow_big hfits, if_neg hfits]

/-- Any other text is no number. -/
theorem parseFixed_other {text : String}
    (h : ¬∃ n : Numeral, n.sign ≠ .plus ∧ n.text = text.toList) (scale : UInt32) :
    parseFixed text scale = .error (.badNumber text) := by
  unfold parseFixed
  simp only
  split_ifs with hempty hnone hdigit
  · rfl
  · rfl
  · rfl
  all_goals
    refine absurd (Decimal.exists_numeral ?_ ?_) h
    · simpa using hdigit
    · simpa using hnone

/-- **What `parseFixed` accepts**: the numerals, with a minus sign or none, that are an
integer at the places, and one that has an `i64` for its opposite. -/
theorem parseFixed_iff (text : String) (scale : UInt32) (v : Int64) :
    parseFixed text scale = .ok v ↔
      ∃ n : Numeral, n.sign ≠ .plus ∧ n.text = text.toList ∧
        n.value * 10 ^ scale.toNat = v.toInt ∧ v ≠ Int64.minValue := by
  constructor
  · intro h
    by_cases hplain : ∃ n : Numeral, n.sign ≠ .plus ∧ n.text = text.toList
    · obtain ⟨n, hplus, htext⟩ := hplain
      rw [parseFixed_numeral n hplus htext] at h
      split at h
      · cases h
      rename_i hlong
      split at h
      · rename_i hfits
        obtain ⟨hv, hne⟩ := (signed_iff hplus _ _).mp ⟨hfits, Except.ok.inj h⟩
        exact ⟨n, hplus, htext, (n.value_mul_iff _ _).mpr ⟨not_lt.mp hlong, hv.symm⟩, hne⟩
      · cases h
    · rw [parseFixed_other hplain] at h
      cases h
  · rintro ⟨n, hplus, htext, hvalue, hne⟩
    obtain ⟨hshort, hv⟩ := (n.value_mul_iff _ _).mp hvalue
    obtain ⟨hfits, hsigned⟩ := (signed_iff hplus _ _).mpr ⟨hv.symm, hne⟩
    rw [parseFixed_numeral n hplus htext, if_neg (not_lt.mpr hshort), if_pos hfits, hsigned]

end Depth

namespace Live

theorem parseScaled_eq (text : String) (decimals : UInt8) :
    parseScaled text decimals =
      let (neg, text) := Decimal.stripMinus (OrderIds.trim text.toList)
      let (int, frac) := Decimal.halves text
      if int.isEmpty && frac.isEmpty then none
      else if !(int.all Char.isDigit && frac.all Char.isDigit) then none
      else if decimals.toNat < frac.length then none
      else
        match Decimal.parse (int ++ padTo decimals.toNat frac) with
        | some v =>
          if v < 2 ^ 63 then some (if neg then -Int64.ofNat v else Int64.ofNat v) else none
        | none => none := rfl

/-- What is read of a numeral. -/
theorem parseScaled_numeral (n : Numeral) (hplus : n.sign ≠ .plus) {text : String}
    (htext : n.text = OrderIds.trim text.toList) (decimals : UInt8) :
    parseScaled text decimals =
      if decimals.toNat < n.places then none
      else if n.scaled decimals.toNat < 2 ^ 63 then
        some (if n.sign = .minus then -Int64.ofInt (n.scaled decimals.toNat)
          else Int64.ofInt (n.scaled decimals.toNat))
      else none := by
  have hpadded : ∀ c ∈ padTo decimals.toNat n.behind, c.isDigit = true :=
    Decimal.isDigit_padTo _ (List.all_eq_true.mp n.all_behind)
  rw [parseScaled_eq, ← htext, n.stripMinus_text hplus]
  simp only [n.halves_body, n.some_digit, n.all_whole, n.all_behind, Bool.false_eq_true,
    Bool.not_true, Bool.and_self, if_false, decide_eq_true_eq]
  by_cases hlong : decimals.toNat < n.behind.length
  · rw [if_pos hlong]
    exact (if_pos hlong).symm
  have hne : n.whole ++ padTo decimals.toNat n.behind ≠ [] := by
    rw [Decimal.padTo_of_le (not_lt.mp hlong), ← List.append_assoc]
    exact List.append_ne_nil_of_left_ne_nil n.ne_nil _
  have hparse : Decimal.parse (n.whole ++ padTo decimals.toNat n.behind) =
      some (n.scaled decimals.toNat) := by
    unfold Decimal.parse
    rw [List.all_append, n.all_whole, List.all_eq_true.mpr hpadded,
      List.isEmpty_eq_false_iff.mpr hne]
    rfl
  rw [if_neg hlong, hparse]
  simp only [Int64.ofInt_eq_ofNat]
  exact (if_neg hlong).symm

theorem parseScaled_other {text : String}
    (h : ¬∃ n : Numeral, n.sign ≠ .plus ∧ n.text = OrderIds.trim text.toList) (decimals : UInt8) :
    parseScaled text decimals = none := by
  rw [parseScaled_eq]
  simp only
  split_ifs with hnone hdigit
  · rfl
  · rfl
  · rfl
  all_goals
    refine absurd (Decimal.exists_numeral ?_ ?_) h
    · simpa using hdigit
    · simpa using hnone

/-- **What `parseScaled` accepts**: numerals with no more digits than there are places. -/
theorem parseScaled_iff (text : String) (decimals : UInt8) (v : Int64) :
    parseScaled text decimals = some v ↔
      ∃ n : Numeral, n.sign ≠ .plus ∧ n.text = OrderIds.trim text.toList ∧
        n.places ≤ decimals.toNat ∧ n.value * 10 ^ decimals.toNat = v.toInt ∧
        v ≠ Int64.minValue := by
  constructor
  · intro h
    by_cases hplain : ∃ n : Numeral, n.sign ≠ .plus ∧ n.text = OrderIds.trim text.toList
    · obtain ⟨n, hplus, htext⟩ := hplain
      rw [parseScaled_numeral n hplus htext] at h
      split at h
      · cases h
      rename_i hlong
      split at h
      · rename_i hfits
        obtain ⟨hv, hne⟩ := (signed_iff hplus _ _).mp ⟨hfits, Option.some.inj h⟩
        refine ⟨n, hplus, htext, not_lt.mp hlong, (n.value_mul_iff _ _).mpr ⟨?_, hv.symm⟩, hne⟩
        exact n.significant_le_places.trans (not_lt.mp hlong)
      · cases h
    · rw [parseScaled_other hplain] at h
      cases h
  · rintro ⟨n, hplus, htext, hshort, hvalue, hne⟩
    obtain ⟨-, hv⟩ := (n.value_mul_iff _ _).mp hvalue
    obtain ⟨hfits, hsigned⟩ := (signed_iff hplus _ _).mpr ⟨hv.symm, hne⟩
    rw [parseScaled_numeral n hplus htext, if_neg (not_lt.mpr hshort), if_pos hfits, hsigned]

end Live

/-! ## What is written -/

namespace Exec

theorem length_zeroPad {width n : Nat} (hwidth : 0 < width) (h : n < 10 ^ width) :
    (zeroPad width n).length = width := by
  have hshort : (Decimal.digits n).length ≤ width :=
    (Nat.length_toDigits_le_iff (by decide) hwidth).mpr h
  rw [zeroPad, List.length_append, List.length_replicate]
  omega

theorem isDigit_zeroPad {width n : Nat} : ∀ c ∈ zeroPad width n, c.isDigit = true := by
  intro c hc
  rcases List.mem_append.mp hc with hzero | hdigit
  · rw [List.eq_of_mem_replicate hzero]
    decide
  · exact Decimal.isDigit_of_mem_digits hdigit

theorem ofDigitChars_zeroPad (width n init : Nat) :
    Nat.ofDigitChars 10 (zeroPad width n) init =
      10 ^ (zeroPad width n).length * init + n := by
  have hzero : Nat.ofDigitChars 10 (zeroPad width n) 0 = n := by
    rw [zeroPad, Nat.ofDigitChars_append, Nat.ofDigitChars_replicate_zero, mul_zero]
    exact Nat.ofDigitChars_ten_toDigits
  rw [Nat.ofDigitChars_eq_ofDigitChars_zero, hzero]

/-- The numeral that is written. -/
def numeral (value : Int64) (scale : UInt8) : Numeral where
  sign := if value < 0 then .minus else .bare
  whole := Decimal.digits (value.toInt.natAbs / 10 ^ scale.toNat)
  frac :=
    if scale = 0 then none
    else some (zeroPad scale.toNat (value.toInt.natAbs % 10 ^ scale.toNat))
  isDigit := by
    intro c hc
    rcases List.mem_append.mp hc with hwhole | hfrac
    · exact Decimal.isDigit_of_mem_digits hwhole
    · split at hfrac
      · exact absurd hfrac List.not_mem_nil
      · exact isDigit_zeroPad c hfrac
  ne_nil := List.append_ne_nil_of_left_ne_nil (Decimal.digits_ne_nil _) _

theorem apply_sign (v : Int64) :
    (if v < 0 then Sign.minus else .bare).apply v.toInt.natAbs = v.toInt := by
  split
  · rename_i hneg
    have : v.toInt < 0 := Int64.lt_iff_toInt_lt.mp hneg
    show -(v.toInt.natAbs : Int) = v.toInt
    omega
  · rename_i hpos
    have : ¬v.toInt < 0 := fun h => hpos (Int64.lt_iff_toInt_lt.mpr h)
    show (v.toInt.natAbs : Int) = v.toInt
    omega

theorem sign_numeral (v : Int64) (scale : UInt8) : (numeral v scale).sign ≠ .plus := by
  show (if v < 0 then Sign.minus else .bare) ≠ .plus
  split <;> exact Sign.noConfusion

/-- It has as many places as were asked for, and the number's digits. -/
theorem places_numeral (v : Int64) (scale : UInt8) :
    (numeral v scale).places = scale.toNat ∧
      (numeral v scale).magnitude = v.toInt.natAbs := by
  unfold Numeral.places Numeral.magnitude Numeral.behind numeral
  by_cases hscale : scale = 0
  · simp only [hscale, if_true, Option.getD_none, List.append_nil]
    refine ⟨rfl, ?_⟩
    rw [UInt8.toNat_zero, pow_zero, Nat.div_one]
    exact Nat.ofDigitChars_ten_toDigits
  · have hpos : 0 < scale.toNat :=
      Nat.pos_of_ne_zero fun h => hscale (UInt8.toNat_inj.mp h)
    have hlen := length_zeroPad hpos (Nat.mod_lt v.toInt.natAbs (by positivity))
    simp only [if_neg hscale, Option.getD_some]
    refine ⟨hlen, ?_⟩
    rw [Nat.ofDigitChars_append, ofDigitChars_zeroPad, hlen, Decimal.digits,
      Nat.ofDigitChars_ten_toDigits]
    exact Nat.div_add_mod _ _

/-- The text of an integer. -/
theorem toList_toString_int (v : Int64) :
    (toString v.toInt).toList =
      (if v < 0 then Sign.minus else .bare).text ++ Decimal.digits v.toInt.natAbs := by
  have hneg : v < 0 ↔ v.toInt < 0 := Int64.lt_iff_toInt_lt
  rw [Int.toString_eq_repr]
  cases hv : v.toInt with
  | ofNat m =>
    have : ¬v < 0 := by rw [hneg, hv]; exact Int.not_lt.mpr (Int.natCast_nonneg m)
    rw [if_neg this]
    exact Nat.toList_repr
  | negSucc m =>
    have : v < 0 := by rw [hneg, hv]; exact Int.negSucc_lt_zero m
    rw [if_pos this]
    show ("-" ++ Nat.repr (m + 1)).toList = _
    rw [String.toList_append, Nat.toList_repr]
    rfl

/-- **What is written**: the numeral of the number, where the power of ten is a `u64`. -/
theorem decimal_eq {scale : UInt8} (h : 10 ^ scale.toNat < 2 ^ 64) (v : Int64) :
    decimal v scale = some (String.ofList (numeral v scale).text) := by
  have hsign : (if v < 0 then "-" else "").toList =
      (if v < 0 then Sign.minus else .bare).text := by
    split <;> rfl
  unfold decimal
  by_cases hscale : scale = 0
  · rw [if_pos hscale]
    refine congrArg some (String.toList_inj.mp ?_)
    rw [toList_toString_int, String.toList_ofList]
    simp only [Numeral.text, Numeral.body, numeral, hscale, if_true, Option.elim_none,
      List.append_nil, UInt8.toNat_zero, pow_zero, Nat.div_one]
  · rw [if_neg hscale, if_neg (not_le.mpr h)]
    refine congrArg some (String.toList_inj.mp ?_)
    simp only [String.toList_append, String.toList_ofList, hsign, Decimal.toList_toString,
      Numeral.text, Numeral.body, numeral, if_neg hscale, Option.elim_some, List.append_assoc]
    rfl

theorem value_numeral (v : Int64) (scale : UInt8) :
    (numeral v scale).value * 10 ^ scale.toNat = v.toInt := by
  obtain ⟨hplaces, hmagnitude⟩ := places_numeral v scale
  rw [Numeral.value_mul_pow, hplaces, Numeral.mantissa, hmagnitude]
  exact congrArg (· * _) (apply_sign v)

end Exec

/-! ## The readers -/

/-- A numeral has no blank in it. -/
theorem Decimal.Numeral.not_blank (n : Numeral) :
    ∀ c ∈ n.text, OrderIds.isWhiteSpace c = false := by
  intro c hc
  rcases List.mem_append.mp hc with hsign | hbody
  · revert hsign
    cases n.sign <;> simp only [Sign.text, List.not_mem_nil, List.mem_singleton, false_imp_iff]
    · rintro rfl
      decide
    · rintro rfl
      decide
  · rcases n.mem_body hbody with hdigit | rfl
    · exact OrderIds.isWhiteSpace_of_isDigit hdigit
    · decide

theorem Decimal.Numeral.trim_text (n : Numeral) : OrderIds.trim n.text = n.text := by
  have hnil : ∀ c ∈ ([] : List Char), OrderIds.isWhiteSpace c = true :=
    fun _ hc => absurd hc List.not_mem_nil
  have htrim := OrderIds.trim_blanks hnil hnil
    (List.append_ne_nil_of_right_ne_nil n.sign.text n.body_ne_nil) n.not_blank
  rwa [List.append_nil, List.nil_append] at htrim

/-- What `decimal` writes is read back by both. -/
theorem Exec.decimal_read (scale : UInt8) (v : Int64) (hscale : scale ≤ 18)
    (hv : v ≠ Int64.minValue) :
    ∃ text, Exec.decimal v scale = some text ∧
      Depth.parseFixed text scale.toUInt32 = .ok v ∧ Live.parseScaled text scale = some v := by
  have hpow : 10 ^ scale.toNat < 2 ^ 64 :=
    lt_of_le_of_lt (Nat.pow_le_pow_right (by decide) (UInt8.le_iff_toNat_le.mp hscale))
      (by decide)
  refine ⟨_, Exec.decimal_eq hpow v, ?_, ?_⟩
  · refine (Depth.parseFixed_iff _ _ _).mpr ⟨Exec.numeral v scale, Exec.sign_numeral v scale,
      String.toList_ofList.symm, ?_, hv⟩
    rw [UInt8.toNat_toUInt32]
    exact Exec.value_numeral v scale
  · refine (Live.parseScaled_iff _ _ _).mpr ⟨Exec.numeral v scale, Exec.sign_numeral v scale, ?_,
      (Exec.places_numeral v scale).1.le, Exec.value_numeral v scale, hv⟩
    rw [String.toList_ofList, Numeral.trim_text]

/-- A text that both read is the same number to both: blanks aside, a text is one numeral. -/
theorem parsed_eq {text : String} {scale : UInt8} {v w : Int64}
    (hfixed : Depth.parseFixed text scale.toUInt32 = .ok v)
    (hscaled : Live.parseScaled text scale = some w) : v = w := by
  obtain ⟨n, hplus, htext, hvalue, -⟩ := (Depth.parseFixed_iff _ _ _).mp hfixed
  obtain ⟨m, hplus', htext', -, hvalue', -⟩ := (Live.parseScaled_iff _ _ _).mp hscaled
  rw [← htext, n.trim_text] at htext'
  rw [m.value_eq_of_text hplus' hplus htext'] at hvalue'
  rw [UInt8.toNat_toUInt32, hvalue'] at hvalue
  exact (Int64.toInt_inj.mp (by exact_mod_cast hvalue)).symm

/-- Of a numeral that is a number of units, the second reads no more than the places. -/
theorem Live.parseScaled_of_value {n : Numeral} {text : String} {scale : UInt8} {v : Int64}
    (hplus : n.sign ≠ .plus) (htext : n.text = text.toList)
    (hvalue : n.value * 10 ^ scale.toNat = v.toInt) (hv : v ≠ Int64.minValue) :
    Live.parseScaled text scale = if n.places ≤ scale.toNat then some v else none := by
  have htrim : n.text = OrderIds.trim text.toList := by rw [← htext, n.trim_text]
  split
  · rename_i hshort
    exact (Live.parseScaled_iff _ _ _).mpr ⟨n, hplus, htrim, hshort, hvalue, hv⟩
  · rename_i hlong
    rw [Live.parseScaled_numeral n hplus htrim, if_pos (not_le.mp hlong)]

/-- **The text of a number**, and what the readers make of a text.  What is written is
read back; a numeral is read where it is an integer at the places, and not the one that
has no opposite; the readers do not differ in what they read; and digits beyond the places,
zeros as they have to be, are read by one of them and refused by the other. -/
theorem readers_agree :
    (∀ (scale : UInt8) (v : Int64), scale ≤ 18 → v ≠ Int64.minValue →
      ∃ text, Exec.decimal v scale = some text ∧
        Depth.parseFixed text scale.toUInt32 = .ok v ∧ Live.parseScaled text scale = some v) ∧
    (∀ (text : String) (scale : UInt32) (v : Int64), Depth.parseFixed text scale = .ok v ↔
      ∃ n : Numeral, n.sign ≠ .plus ∧ n.text = text.toList ∧
        n.value * 10 ^ scale.toNat = v.toInt ∧ v ≠ Int64.minValue) ∧
    (∀ (text : String) (scale : UInt8) (v w : Int64),
      Depth.parseFixed text scale.toUInt32 = .ok v → Live.parseScaled text scale = some w →
        v = w) ∧
    ∀ (n : Numeral) (text : String) (scale : UInt8) (v : Int64),
      n.sign ≠ .plus → n.text = text.toList → n.value * 10 ^ scale.toNat = v.toInt →
        v ≠ Int64.minValue →
          Depth.parseFixed text scale.toUInt32 = .ok v ∧
            Live.parseScaled text scale =
              if n.places ≤ scale.toNat then some v else none := by
  refine ⟨Exec.decimal_read, Depth.parseFixed_iff, fun text scale v w => parsed_eq, ?_⟩
  intro n text scale v hplus htext hvalue hv
  refine ⟨(Depth.parseFixed_iff _ _ _).mpr ⟨n, hplus, htext, ?_, hv⟩,
    Live.parseScaled_of_value hplus htext hvalue hv⟩
  rwa [UInt8.toNat_toUInt32]

/-- A number that is written with three places and read back. -/
theorem readers_agree_thousandths :
    ∃ text, Exec.decimal (-1005) 3 = some text ∧
      Depth.parseFixed text (UInt8.toUInt32 3) = .ok (-1005) ∧
        Live.parseScaled text 3 = some (-1005) :=
  readers_agree.1 3 (-1005) (by decide) (by decide)

/-- A price with a zero more than there are places: a level of a book, and no fill. -/
theorem zero_beyond_places :
    ¬∀ (n : Numeral) (text : String) (scale : UInt8), n.sign ≠ .plus → n.text = text.toList →
      (∀ c ∈ n.behind.drop scale.toNat, c = '0') →
        (∃ v, Depth.parseFixed text scale.toUInt32 = .ok v) ∧
          ∃ v, Live.parseScaled text scale = some v := by
  intro h
  have hread := h
    ⟨.bare, ['1'], some ['5', '0', '0'], List.all_eq_true.mp rfl, List.cons_ne_nil _ _⟩ "1.500" 2
    (by decide) (by decide +kernel) fun c hc => List.mem_singleton.mp hc
  obtain ⟨v, hv⟩ := hread.2
  rw [show Live.parseScaled "1.500" 2 = none from by decide +kernel] at hv
  cases hv
