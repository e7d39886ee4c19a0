/-
# What a leg is charged (`oq-live/src/funding.rs`)

The rate and the mark are texts.  A plain one is read as its mantissa and its places
(`decimal_plain`), so the charge is a quotient of integers, and that quotient is the exact
amount without its fraction (`charge_eq`).  The product on the way is checked after every
factor.  With a factor of zero behind it a product that does not fit is refused though the
amount would be zero; otherwise what fits in the end fits all along (`charge_isSome_iff`).
-/
import OpenQuanter.DecimalText
import OpenQuanter.FundingWatch

open Decimal (Numeral Sign truncate)

/-! ## Plain texts -/

/-- A numeral, with blanks around it. -/
structure PlainText where
  before : List Char
  numeral : Numeral
  after : List Char
  before_blank : ∀ c ∈ before, OrderIds.isWhiteSpace c = true
  after_blank : ∀ c ∈ after, OrderIds.isWhiteSpace c = true

def PlainText.text (p : PlainText) : String :=
  String.ofList (p.before ++ (p.numeral.text ++ p.after))

namespace FundingWatch

theorem parseWide_digits (n : Numeral) :
    parseWide (n.whole ++ n.behind) =
      if n.magnitude < 2 ^ 127 then some (n.magnitude : Int) else none := by
  unfold parseWide
  rw [n.parse_all]

/-- No sign is before the digits when the one there was is off. -/
theorem stripped (n : Numeral) :
    (n.sign.text ++ n.whole).dropWhile (fun c => c = '-' || c = '+') = n.whole := by
  have hsign : ∀ c ∈ n.sign.text, (decide (c = '-') || decide (c = '+')) = true := by
    cases n.sign <;> simp [Sign.text]
  rw [List.dropWhile_append_of_pos hsign]
  cases hwhole : n.whole with
  | nil => rfl
  | cons c whole =>
    have hdigit := n.isDigit c (List.mem_append_left _ (hwhole ▸ List.mem_cons_self))
    refine List.dropWhile_cons_of_neg fun hc => ?_
    rcases Bool.or_eq_true_iff.mp hc with hc | hc <;> rw [of_decide_eq_true hc] at hdigit <;>
      exact absurd hdigit (by decide)

theorem head_minus (n : Numeral) :
    (n.sign.text ++ n.whole).head? = some '-' ↔ n.sign = .minus := by
  cases hsign : n.sign with
  | bare =>
    refine iff_of_false (fun hhead => ?_) Sign.noConfusion
    have hmem : '-' ∈ n.whole := List.mem_of_mem_head? hhead
    exact absurd (n.isDigit _ (List.mem_append_left _ hmem)) (by decide)
  | minus => exact iff_of_true rfl rfl
  | plus => exact iff_of_false (fun hhead => absurd hhead (by simp [Sign.text])) Sign.noConfusion

/-- **What is read of a plain text**: its mantissa and its places. -/
theorem decimal_plain (p : PlainText) :
    decimal p.text =
      if p.numeral.magnitude < 2 ^ 127 ∧ p.numeral.places < 2 ^ 32 then
        some (p.numeral.mantissa, p.numeral.places)
      else none := by
  have htrim : OrderIds.trim p.text.toList = p.numeral.text := by
    rw [PlainText.text, String.toList_ofList]
    exact OrderIds.trim_blanks p.before_blank p.after_blank
      (List.append_ne_nil_of_right_ne_nil _ p.numeral.body_ne_nil) p.numeral.not_blank
  generalize p.numeral = n at htrim
  -- the text is cut at the first point, and neither a sign nor a digit is one
  have hhalves : Decimal.halves n.text = (n.sign.text ++ n.whole, n.behind) := by
    unfold Numeral.text Numeral.body
    rw [← List.append_assoc]
    refine Decimal.halves_append (fun c hc => ?_) _
    rcases List.mem_append.mp hc with hsign | hwhole
    · revert hsign
      cases n.sign <;> simp [Sign.text] <;> rintro rfl <;> decide
    · exact Decimal.not_point_of_isDigit (n.isDigit c (List.mem_append_left _ hwhole))
  rw [Decimal.halves_eq] at hhalves
  obtain ⟨hwhole, hfrac⟩ := Prod.mk.inj hhalves
  have hdigits : (n.behind.any fun c => !c.isDigit) = false := by
    rw [List.any_eq_false]
    intro c hc
    simp [n.isDigit c (List.mem_append_right _ hc)]
  unfold decimal
  simp only [htrim, hwhole, hfrac, hdigits, stripped, head_minus, parseWide_digits,
    Bool.false_eq_true, if_false]
  by_cases hfits : n.magnitude < 2 ^ 127
  · by_cases hplaces : n.places < 2 ^ 32
    · rw [if_pos hfits, if_pos ⟨hfits, hplaces⟩]
      have hmantissa : (if n.sign = .minus then -(n.magnitude : Int) else n.magnitude) =
          n.mantissa := by
        unfold Numeral.mantissa
        cases n.sign <;> rfl
      simp only [Option.bind_eq_bind, Option.bind_some, hmantissa]
      exact if_pos hplaces
    · rw [if_pos hfits, if_neg fun h => hplaces h.2]
      simp only [Option.bind_eq_bind, Option.bind_some]
      exact if_neg hplaces
  · rw [if_neg hfits, if_neg fun h => hfits h.1]
    rfl

/-! ## The amount -/

section Amount

variable (i : Instrument) (lots : QtyLots) (rate mark : Numeral)

/-- A long pays a positive rate; cash has eight places. -/
def numerator : Int := -(lots.toInt * mark.mantissa * rate.mantissa * 100000000)

def denominatorPlaces : Nat := i.qtyScale.toNat + mark.places + rate.places

/-- What the leg is charged exactly, in units of `10 ^ -8`. -/
def exactCharge : ℚ :=
  -(lots.toInt / 10 ^ i.qtyScale.toNat * mark.value * rate.value) * 10 ^ 8

theorem exactCharge_eq :
    exactCharge i lots rate mark =
      numerator lots rate mark / (10 ^ denominatorPlaces i rate mark : Nat) := by
  have hqty : (10 : ℚ) ^ i.qtyScale.toNat ≠ 0 := by positivity
  have hmark : (10 : ℚ) ^ mark.places ≠ 0 := by positivity
  have hrate : (10 : ℚ) ^ rate.places ≠ 0 := by positivity
  unfold exactCharge numerator denominatorPlaces Numeral.value
  push_cast
  rw [pow_add, pow_add]
  field_simp
  norm_num

theorem truncate_exactCharge :
    truncate (exactCharge i lots rate mark) =
      (numerator lots rate mark).tdiv (10 ^ denominatorPlaces i rate mark) := by
  rw [exactCharge_eq, Decimal.truncate_div _ (by positivity)]
  push_cast
  rfl

/-- Every number on the way fits. -/
structure ChargeFits : Prop where
  rateRead : rate.magnitude < 2 ^ 127
  markRead : mark.magnitude < 2 ^ 127
  sized : FitsI128 (lots.toInt * mark.mantissa)
  product : FitsI128 (numerator lots rate mark)
  power : FitsI128 (10 ^ denominatorPlaces i rate mark)
  charged : FitsI64 (truncate (exactCharge i lots rate mark))

/-- An `i128` that is a power of ten has few zeros. -/
theorem places_lt {k : Nat} (h : FitsI128 (10 ^ k)) : k < 39 := by
  by_contra hk
  have hpow : 10 ^ 39 ≤ 10 ^ k := Nat.pow_le_pow_right (by decide) (not_lt.mp hk)
  have hlt : (10 : Int) ^ k < 2 ^ 127 := h.2
  have : (10 ^ k : Nat) < 2 ^ 127 := by exact_mod_cast hlt
  omega

/-- A product with a factor of ten to the eighth, and what it has before that. -/
theorem fits_product (x r : Int) (h : FitsI128 (-(x * r * 100000000))) :
    FitsI128 (x * r) ∧ FitsI128 (x * r * 100000000) := by
  unfold FitsI128 at *
  omega

variable {i lots}

/-- **What is charged**: the exact amount without its fraction, if all fits. -/
theorem charge_eq_some {rate mark : PlainText} (hlinear : i.contractSize.toInt = contractScale)
    {c : Cash} :
    charge i lots rate.text mark.text = some c ↔
      ChargeFits i lots rate.numeral mark.numeral ∧
        c.toInt = truncate (exactCharge i lots rate.numeral mark.numeral) := by
  have htrunc := truncate_exactCharge i lots rate.numeral mark.numeral
  unfold charge Instrument.checkedWide
  rw [if_neg (not_not.mpr hlinear), decimal_plain, decimal_plain]
  simp only [Option.bind_eq_bind, Option.bind_eq_some_iff, Option.ite_none_right_eq_some,
    Option.some.injEq]
  constructor
  · rintro ⟨_, ⟨⟨hrate, -⟩, rfl⟩, _, ⟨⟨hmark, -⟩, rfl⟩, _, ⟨hsized, rfl⟩, _, ⟨-, rfl⟩, _, ⟨-, rfl⟩,
      _, ⟨hnum, rfl⟩, _, ⟨hden, rfl⟩, hfits, rfl⟩
    have hcharged : FitsI64 (truncate (exactCharge i lots rate.numeral mark.numeral)) := by
      rw [htrunc]
      exact hfits
    exact ⟨⟨hrate, hmark, hsized, hnum, hden, hcharged⟩,
      (Int64.toInt_ofInt_of_le hfits.1 hfits.2).trans htrunc.symm⟩
  · rintro ⟨h, hc⟩
    have hplaces := places_lt h.power
    unfold denominatorPlaces at hplaces
    obtain ⟨hrated, hscaled⟩ := fits_product _ _ h.product
    refine ⟨_, ⟨⟨h.rateRead, by omega⟩, rfl⟩, _, ⟨⟨h.markRead, by omega⟩, rfl⟩, _,
      ⟨h.sized, rfl⟩, _, ⟨hrated, rfl⟩, _, ⟨hscaled, rfl⟩, _, ⟨h.product, rfl⟩, _,
      ⟨h.power, rfl⟩, ?_, ?_⟩
    · have hfits := h.charged
      rw [htrunc] at hfits
      exact hfits
    · rw [htrunc] at hc
      show Int64.ofInt (Int.tdiv (numerator lots rate.numeral mark.numeral) _) = c
      rw [← Int64.ofInt_toInt c, hc]
      rfl

/-- A product that is not zero is no less than what it is made of. -/
theorem chargeFits_iff (rate mark : Numeral) :
    ChargeFits i lots rate mark ↔
      FitsI128 (numerator lots rate mark) ∧ FitsI128 (10 ^ denominatorPlaces i rate mark) ∧
        FitsI64 (truncate (exactCharge i lots rate mark)) ∧
        (numerator lots rate mark = 0 → rate.magnitude < 2 ^ 127 ∧ mark.magnitude < 2 ^ 127 ∧
          FitsI128 (lots.toInt * mark.mantissa)) := by
  constructor
  · exact fun h => ⟨h.product, h.power, h.charged, fun _ => ⟨h.rateRead, h.markRead, h.sized⟩⟩
  rintro ⟨hproduct, hpower, hcharged, hzero⟩
  by_cases hnum : numerator lots rate mark = 0
  · obtain ⟨hrate, hmark, hsized⟩ := hzero hnum
    exact ⟨hrate, hmark, hsized, hproduct, hpower, hcharged⟩
  have habs : (numerator lots rate mark).natAbs =
      (lots.toInt * mark.mantissa).natAbs * rate.magnitude * 100000000 := by
    rw [numerator, Int.natAbs_neg, Int.natAbs_mul, Int.natAbs_mul (lots.toInt * mark.mantissa),
      rate.natAbs_mantissa]
    rfl
  have hsized : (lots.toInt * mark.mantissa).natAbs = lots.toInt.natAbs * mark.magnitude := by
    rw [Int.natAbs_mul, mark.natAbs_mantissa]
  have hpos : 0 < (lots.toInt * mark.mantissa).natAbs * rate.magnitude := by
    have := Int.natAbs_pos.mpr hnum
    omega
  have hle : (lots.toInt * mark.mantissa).natAbs * rate.magnitude * 100000000 ≤ 2 ^ 127 := by
    unfold FitsI128 at hproduct
    omega
  obtain ⟨hsizedpos, hratepos⟩ := CanonicallyOrderedAdd.mul_pos.mp hpos
  have hrate := Nat.le_mul_of_pos_left rate.magnitude hsizedpos
  have hle' := Nat.le_mul_of_pos_right (lots.toInt * mark.mantissa).natAbs hratepos
  have hmark : mark.magnitude ≤ (lots.toInt * mark.mantissa).natAbs := by
    rw [hsized] at hsizedpos ⊢
    exact Nat.le_mul_of_pos_left _ (CanonicallyOrderedAdd.mul_pos.mp hsizedpos).1
  refine ⟨by omega, by omega, ?_, hproduct, hpower, hcharged⟩
  unfold FitsI128
  omega

theorem charge_isSome_iff {rate mark : PlainText} (hlinear : i.contractSize.toInt = contractScale) :
    (charge i lots rate.text mark.text).isSome ↔ ChargeFits i lots rate.numeral mark.numeral := by
  rw [Option.isSome_iff_exists]
  constructor
  · rintro ⟨c, hc⟩
    exact ((charge_eq_some hlinear).mp hc).1
  · intro h
    have hc : (Int64.ofInt (truncate (exactCharge i lots rate.numeral mark.numeral))).toInt = _ :=
      Int64.toInt_ofInt_of_le h.charged.1 h.charged.2
    exact ⟨_, (charge_eq_some hlinear).mpr ⟨h, hc⟩⟩

/-! ## The other side -/

theorem toInt_neg_lots (h : lots ≠ Int64.minValue) : (-lots).toInt = -lots.toInt := by
  have hlow := Int64.le_toInt lots
  have hhigh := Int64.toInt_lt lots
  have hne : lots.toInt ≠ -2 ^ 63 := fun heq => h (Int64.toInt_inj.mp heq)
  rw [Int64.toInt_neg, Int.bmod_eq_of_le (by omega) (by omega)]

theorem numerator_neg (h : lots ≠ Int64.minValue) (rate mark : Numeral) :
    numerator (-lots) rate mark = -numerator lots rate mark := by
  unfold numerator
  rw [toInt_neg_lots h]
  ring

theorem exactCharge_neg (h : lots ≠ Int64.minValue) (rate mark : Numeral) :
    exactCharge i (-lots) rate mark = -exactCharge i lots rate mark := by
  rw [exactCharge_eq, exactCharge_eq, numerator_neg h]
  push_cast
  ring

/-- **The charge of the opposite leg** is the opposite charge, unless one of the two
numbers is the least there is. -/
theorem charge_neg {rate mark : PlainText} (hlinear : i.contractSize.toInt = contractScale)
    (hlots : lots ≠ Int64.minValue) {c : Cash} (h : charge i lots rate.text mark.text = some c) :
    charge i (-lots) rate.text mark.text =
      if c = Int64.minValue ∨ lots.toInt * mark.numeral.mantissa = -2 ^ 127 then none
      else some (-c) := by
  obtain ⟨hfits, hc⟩ := (charge_eq_some hlinear).mp h
  have hneg : (-lots).toInt * mark.numeral.mantissa = -(lots.toInt * mark.numeral.mantissa) := by
    rw [toInt_neg_lots hlots]
    ring
  have hamount : truncate (exactCharge i (-lots) rate.numeral mark.numeral) = -c.toInt := by
    rw [exactCharge_neg hlots, Decimal.truncate_neg, hc]
  have hmin : c = Int64.minValue ↔ c.toInt = -2 ^ 63 :=
    ⟨fun heq => heq ▸ rfl, fun heq => Int64.toInt_inj.mp heq⟩
  split
  · -- a charge of the opposite leg would have to fit, and at either end it does not
    rename_i hend
    refine Option.eq_none_iff_forall_ne_some.mpr fun c' hc' => ?_
    have hfits' := ((charge_eq_some hlinear).mp hc').1
    rcases hend with hcash | hsized
    · have hcharged := hfits'.charged.2
      rw [hamount, hmin.mp hcash] at hcharged
      omega
    · have hwide := hfits'.sized.2
      rw [hneg, hsized] at hwide
      omega
  · rename_i hinner
    rw [not_or, hmin] at hinner
    refine (charge_eq_some hlinear).mpr ⟨⟨hfits.rateRead, hfits.markRead, ?_, ?_, hfits.power, ?_⟩,
      ?_⟩
    · obtain ⟨hlow, hhigh⟩ := hfits.sized
      rw [hneg]
      constructor <;> omega
    · -- a multiple of ten is not the least number
      obtain ⟨hlow, hhigh⟩ := hfits.product
      rw [numerator_neg hlots]
      unfold numerator at hlow hhigh ⊢
      constructor <;> omega
    · obtain ⟨hlow, hhigh⟩ := fitsI64_toInt c
      rw [hamount]
      constructor <;> omega
    · rw [hamount]
      exact toInt_neg_lots fun heq => hinner.1 (hmin.mp heq)

end Amount

/-! ## Both legs -/

/-- What a leg is charged; one that is not held is charged nothing. -/
def legCharge (i : Instrument) (rate mark : String) (lots : QtyLots) : Option Cash :=
  if lots = 0 then some 0 else charge i lots rate mark

/-- The legs are charged one by one, and added. -/
theorem chargeLegs_eq (i : Instrument) (long short : QtyLots) (rate mark : String) :
    chargeLegs i (long, short) rate mark = (do
      let x ← legCharge i rate mark long
      let y ← legCharge i rate mark short
      some (Cash.add x y)) := by
  have hstep : ∀ total lots, addCharge i rate mark total lots =
      (legCharge i rate mark lots).map (Cash.add total) := by
    intro total lots
    unfold addCharge legCharge
    split
    · exact congrArg some (Cash.add_zero total).symm
    · rfl
  unfold chargeLegs
  simp only [List.foldlM_cons, List.foldlM_nil, hstep, bind_pure]
  cases legCharge i rate mark long with
  | none => rfl
  | some x =>
    cases legCharge i rate mark short with
    | none => rfl
    | some y =>
      simp only [Option.map_some, Option.bind_eq_bind, Option.bind_some, Cash.zero_add]

/-- **The live funding charge** of a linear contract is the exact amount without its
fraction.  There is one where the product, the power of ten and the amount fit, and, if the
product is zero, what it is made of fits too; that of the opposite leg is the opposite one;
and the legs are charged separately and added, as cash is added. -/
theorem charge_exact {i : Instrument} (hlinear : i.contractSize.toInt = contractScale)
    (lots : QtyLots) (rate mark : PlainText) :
    (∀ c, charge i lots rate.text mark.text = some c →
      c.toInt = truncate (exactCharge i lots rate.numeral mark.numeral)) ∧
    ((charge i lots rate.text mark.text).isSome ↔
      FitsI128 (numerator lots rate.numeral mark.numeral) ∧
        FitsI128 (10 ^ denominatorPlaces i rate.numeral mark.numeral) ∧
        FitsI64 (truncate (exactCharge i lots rate.numeral mark.numeral)) ∧
        (numerator lots rate.numeral mark.numeral = 0 →
          rate.numeral.magnitude < 2 ^ 127 ∧ mark.numeral.magnitude < 2 ^ 127 ∧
            FitsI128 (lots.toInt * mark.numeral.mantissa))) ∧
    (lots ≠ Int64.minValue → ∀ c, charge i lots rate.text mark.text = some c →
      charge i (-lots) rate.text mark.text =
        if c = Int64.minValue ∨ lots.toInt * mark.numeral.mantissa = -2 ^ 127 then none
        else some (-c)) ∧
    ∀ short : QtyLots, chargeLegs i (lots, short) rate.text mark.text = (do
      let x ← legCharge i rate.text mark.text lots
      let y ← legCharge i rate.text mark.text short
      some (Cash.add x y)) := by
  refine ⟨fun c hc => ((charge_eq_some hlinear).mp hc).2, ?_,
    fun hlots c hc => charge_neg hlinear hlots hc, fun short => chargeLegs_eq i lots short _ _⟩
  rw [charge_isSome_iff hlinear]
  exact chargeFits_iff _ _

/-- A numeral without blanks around it. -/
def plain (n : Numeral) : PlainText :=
  ⟨[], n, [], fun _ hc => absurd hc List.not_mem_nil, fun _ hc => absurd hc List.not_mem_nil⟩

/-- Eight lots short at a negative rate. -/
theorem charge_exact_short :
    ∃ rate mark : PlainText, rate.text = "-0.00008995" ∧ mark.text = "84374.02268116" ∧
      charge ⟨1, 3, 100_000_000⟩ (-8) rate.text mark.text = some (-6_071_554) ∧
        truncate (exactCharge ⟨1, 3, 100_000_000⟩ (-8) rate.numeral mark.numeral) =
          -6_071_554 := by
  obtain ⟨rate, hrate⟩ : ∃ p : PlainText, p.text = "-0.00008995" :=
    ⟨plain ⟨.minus, ['0'], some ['0', '0', '0', '0', '8', '9', '9', '5'],
      List.all_eq_true.mp rfl, List.cons_ne_nil _ _⟩, rfl⟩
  obtain ⟨mark, hmark⟩ : ∃ p : PlainText, p.text = "84374.02268116" :=
    ⟨plain ⟨.bare, ['8', '4', '3', '7', '4'], some ['0', '2', '2', '6', '8', '1', '1', '6'],
      List.all_eq_true.mp rfl, List.cons_ne_nil _ _⟩, rfl⟩
  have hcharge : charge ⟨1, 3, 100_000_000⟩ (-8) rate.text mark.text = some (-6_071_554) := by
    rw [hrate, hmark]
    decide +kernel
  have hlinear : (⟨1, 3, 100_000_000⟩ : Instrument).contractSize.toInt = contractScale := by decide
  exact ⟨rate, mark, hrate, hmark, hcharge,
    ((charge_exact hlinear (-8) rate mark).1 _ hcharge).symm⟩

/-- **Where there is no charge, or no sum**: a mark too large for the lots at a rate of
zero; the least amount there is, and its opposite; two legs charged more than fits. -/
theorem charge_ends :
    (∃ rate mark : PlainText,
      FitsI128 (numerator 10 rate.numeral mark.numeral) ∧
        FitsI128 (10 ^ denominatorPlaces ⟨0, 0, 100_000_000⟩ rate.numeral mark.numeral) ∧
        FitsI64 (truncate (exactCharge ⟨0, 0, 100_000_000⟩ 10 rate.numeral mark.numeral)) ∧
        charge ⟨0, 0, 100_000_000⟩ 10 rate.text mark.text = none) ∧
    (charge ⟨0, 0, 100_000_000⟩ 1 "92233720368.54775808" "1" = some Int64.minValue ∧
      charge ⟨0, 0, 100_000_000⟩ (-1) "92233720368.54775808" "1" = none) ∧
    (charge ⟨0, 0, 100_000_000⟩ 1 "60000000000" "1" = some (-6_000_000_000_000_000_000) ∧
      chargeLegs ⟨0, 0, 100_000_000⟩ (1, 1) "60000000000" "1" = some Int64.minValue) := by
  refine ⟨⟨plain ⟨.bare, ['0'], none, List.all_eq_true.mp rfl, List.cons_ne_nil _ _⟩,
    plain ⟨.bare, '1' :: List.replicate 38 '0', none, List.all_eq_true.mp rfl,
      List.cons_ne_nil _ _⟩, ?_, ?_, ?_, ?_⟩, ?_, ?_⟩
  · decide +kernel
  · decide +kernel
  · rw [truncate_exactCharge]
    decide +kernel
  · decide +kernel
  · decide +kernel
  · decide +kernel

end FundingWatch
