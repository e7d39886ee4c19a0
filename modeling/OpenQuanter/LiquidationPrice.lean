/-
# The liquidation price (`oq-margin/position.rs`)

The closed form divides once and narrows once.  Without the narrowing it is exact: with the
figures of one bracket, `p.level tier` is the last price at which a long's equity is no more
than the bracket's line, and the first at which a short's is (`le_level_iff`,
`level_le_iff`).  Three things are read off it:

* `exact_iff` : under one bracket the price is the level the position is judged by, as long
  as the level is an `i64`;
* `liquidatable_at_price` : under several, the line of the bracket that applies at the price
  is the highest, so the position is liquidatable there whichever bracket the price was
  computed from;
* `price_anti_margin` : more margin moves the level away.

The narrowing is `as i64`, which wraps.
-/
import OpenQuanter.Maintenance

namespace MarginedPosition

variable (p : MarginedPosition) (t : TierTable)

/-! ## The closed form, without its last step -/

/-- What the position cost, as the closed form reads it. -/
def cost : Int := p.entryCost.getD (p.contract.notionalWide p.entry p.qty)

/-- Cash units per tick, for the whole position. -/
def stride : Int := (satAbs p.qty).toInt * p.contract.tickCash.toInt

/-- The closed form's numerator. -/
def numerator (tier : MarginTier) : Int :=
  if 0 < p.qty then (p.cost - p.margin.toInt - tier.amount.toInt) * ratioScale
  else (p.cost + p.margin.toInt + tier.amount.toInt) * ratioScale

/-- The closed form's denominator. -/
def denominator (tier : MarginTier) : Int :=
  if 0 < p.qty then p.stride * (ratioScale - tier.rate.toInt)
  else p.stride * (ratioScale + tier.rate.toInt)

/-- The quotient, rounded down for a long and up for a short. -/
def level (tier : MarginTier) : Int :=
  if 0 < p.qty then p.numerator tier / p.denominator tier
  else p.numerator tier / p.denominator tier +
    (if p.numerator tier % p.denominator tier ≠ 0 then 1 else 0)

/-- The bracket that applies at a mark. -/
def bracketAt (mark : PriceTicks) : MarginTier :=
  t.tierFor (p.contract.notional mark p.qty)

theorem liquidationPriceAt_eq (mark : PriceTicks) :
    p.liquidationPriceAt t mark =
      if p.qty = 0 then none
      else if p.denominator (p.bracketAt t mark) ≤ 0 then none
      else if p.level (p.bracketAt t mark) ≤ 0 then if 0 < p.qty then none else some 0
      else some (Int64.ofInt (p.level (p.bracketAt t mark))) := by
  unfold liquidationPriceAt level numerator denominator stride cost bracketAt
  split
  · rfl
  · by_cases hlong : 0 < p.qty
    · simp only [if_pos hlong]
    · simp only [if_neg hlong]

variable {p} {tier : MarginTier}

/-- A price at or below a long's level. -/
theorem le_level_iff (hlong : 0 < p.qty) (hden : 0 < p.denominator tier) (x : Int) :
    x ≤ p.level tier ↔ x * p.denominator tier ≤ p.numerator tier := by
  unfold level
  rw [if_pos hlong]
  exact Int.le_ediv_iff_mul_le hden

/-- A price at or above a short's level. -/
theorem level_le_iff (hshort : ¬ 0 < p.qty) (hden : 0 < p.denominator tier) (x : Int) :
    p.level tier ≤ x ↔ p.numerator tier ≤ x * p.denominator tier := by
  have hdiv := Int.emod_add_mul_ediv (p.numerator tier) (p.denominator tier)
  unfold level
  rw [if_neg hshort]
  split
  · next hrest =>
    rw [Int.add_one_le_iff, Int.ediv_lt_iff_lt_mul hden]
    constructor
    · exact fun h => h.le
    · intro h
      refine lt_of_le_of_ne h fun heq => hrest ?_
      rw [heq, Int.mul_emod_left]
  · next hrest =>
    have hzero : p.numerator tier % p.denominator tier = 0 := not_not.mp hrest
    rw [hzero, zero_add] at hdiv
    rw [add_zero, ← mul_le_mul_iff_of_pos_right hden, mul_comm, hdiv]

end MarginedPosition

/-! ## Nothing saturates -/

theorem FitsI64.wide {v : Int} (h : FitsI64 v) : FitsI128 v := by
  unfold FitsI64 at h
  unfold FitsI128
  omega

theorem FitsI64.toInt_ofInt {v : Int} (h : FitsI64 v) : (Int64.ofInt v).toInt = v := by
  unfold FitsI64 at h
  have hwrap : (Int64.ofInt v).toInt = v.bmod (2 ^ 64) := Int64.toInt_ofInt
  rw [hwrap, Int.bmod_eq_of_le (by omega) (by omega)]

/-- What one bracket asks of a notional before any saturation. -/
def MarginTier.exactRequirement (tier : MarginTier) (x : Int) : Int :=
  max 0 ((x * tier.rate.toInt).tdiv ratioScale - tier.amount.toInt)

namespace MarginedPosition

variable (p : MarginedPosition)

/-- The cost before any saturation. -/
def exactCost : Int := p.entryCost.getD (p.contract.notionalExact p.entry p.qty)

/-- The profit at a mark before any saturation. -/
def exactProfit (mark : PriceTicks) : Int :=
  if 0 < p.qty then p.contract.notionalExact mark p.qty - p.exactCost
  else p.exactCost - p.contract.notionalExact mark p.qty

/-- **No saturation**: every figure the test at this mark is made of fits where it is kept. -/
structure Unsaturated (p : MarginedPosition) (t : TierTable) (mark : PriceTicks) : Prop where
  qty : p.qty ≠ Int64.minValue
  notional : FitsI64 (p.contract.notionalExact mark p.qty)
  profit : FitsI64 (p.exactProfit mark)
  equity : FitsI64 (p.margin.toInt + p.exactProfit mark)
  scaled : FitsI64 ((p.contract.notionalExact mark p.qty *
    (p.bracketAt t mark).rate.toInt).tdiv ratioScale)
  required : FitsI64 ((p.contract.notionalExact mark p.qty *
    (p.bracketAt t mark).rate.toInt).tdiv ratioScale - (p.bracketAt t mark).amount.toInt)

variable {p : MarginedPosition} {t : TierTable} {mark : PriceTicks}

/-- A product of a price and a size is an `i128`. -/
theorem fits_price_mul_size (price : PriceTicks) (qty : QtyLots) :
    |price.toInt * (satAbs qty).toInt| ≤ 2 ^ 126 := by
  have hprice : |price.toInt| ≤ 2 ^ 63 :=
    abs_le.mpr ⟨Int64.le_toInt price, (Int64.toInt_lt price).le⟩
  have hsize : |(satAbs qty).toInt| ≤ 2 ^ 63 :=
    abs_le.mpr ⟨Int64.le_toInt _, (Int64.toInt_lt _).le⟩
  rw [abs_mul]
  exact (mul_le_mul hprice hsize (abs_nonneg _) (by norm_num)).trans (by norm_num)

theorem notionalWide_of_fits {c : Contract} {price : PriceTicks} {qty : QtyLots}
    (h : FitsI128 (c.notionalExact price qty)) :
    c.notionalWide price qty = c.notionalExact price qty := by
  have hinner := abs_le.mp (fits_price_mul_size price qty)
  unfold Contract.notionalWide
  rw [satWide_of_fits (v := price.toInt * (satAbs qty).toInt) ⟨by omega, by omega⟩]
  exact satWide_of_fits h

namespace Unsaturated

variable (h : p.Unsaturated t mark)
include h

theorem notional_toInt :
    (p.contract.notional mark p.qty).toInt = p.contract.notionalExact mark p.qty := by
  unfold Contract.notional
  rw [notionalWide_of_fits (FitsI64.wide h.notional)]
  exact toInt_ofIntClamp_of_fits h.notional

theorem cost_eq : p.cost = p.exactCost := by
  have hprofit := h.profit
  have hnotional := h.notional
  unfold cost exactCost
  unfold exactProfit exactCost at hprofit
  cases hcost : p.entryCost with
  | some cost => rfl
  | none =>
    rw [hcost] at hprofit
    simp only [Option.getD_none] at hprofit ⊢
    apply notionalWide_of_fits
    unfold FitsI64 at hprofit hnotional
    unfold FitsI128
    split at hprofit <;> omega

theorem satAbs_qty : (satAbs p.qty).toInt = |p.qty.toInt| := by
  have hne : p.qty.toInt ≠ -2 ^ 63 := fun heq => h.qty (Int64.toInt_inj.mp heq)
  have hlow := Int64.le_toInt p.qty
  have hhigh := Int64.toInt_lt p.qty
  have hfits : |p.qty.toInt| < 2 ^ 63 := abs_lt.mpr ⟨by omega, hhigh⟩
  rw [Contract.satAbs_toInt]
  omega

theorem profit_toInt (hqty : p.qty ≠ 0) : (p.unrealized mark).toInt = p.exactProfit mark := by
  have hprofit := h.profit
  unfold unrealized
  cases hcost : p.entryCost with
  | some cost =>
    have hexact : p.exactProfit mark = if 0 < p.qty
        then p.contract.notionalExact mark p.qty - cost
        else cost - p.contract.notionalExact mark p.qty := by
      unfold exactProfit exactCost
      rw [hcost]
      rfl
    rw [hexact] at hprofit ⊢
    change (p.contract.unrealizedFromCost cost mark p.qty).toInt = _
    unfold Contract.unrealizedFromCost
    rw [if_neg hqty, notionalWide_of_fits h.notional.wide]
    by_cases hlong : 0 < p.qty
    · simp only [if_pos hlong] at hprofit ⊢
      rw [satWide_of_fits hprofit.wide]
      exact toInt_ofIntClamp_of_fits hprofit
    · simp only [if_neg hlong] at hprofit ⊢
      have hdelta : FitsI128 (p.contract.notionalExact mark p.qty - cost) := by
        unfold FitsI64 at hprofit
        unfold FitsI128
        omega
      rw [satWide_of_fits hdelta, neg_sub, satWide_of_fits hprofit.wide]
      exact toInt_ofIntClamp_of_fits hprofit
  | none =>
    have hexact : p.exactProfit mark =
        (mark.toInt - p.entry.toInt) * p.qty.toInt * p.contract.tickCash.toInt := by
      unfold exactProfit exactCost Contract.notionalExact
      rw [hcost, Option.getD_none, h.satAbs_qty]
      by_cases hlong : 0 < p.qty
      · rw [if_pos hlong, abs_of_pos (Int64.lt_iff_toInt_lt.mp hlong)]
        ring
      · rw [if_neg hlong, abs_of_nonpos (not_lt.mp fun hpos =>
          hlong (Int64.lt_iff_toInt_lt.mpr hpos))]
        ring
    rw [hexact] at hprofit ⊢
    exact toInt_ofIntClamp_of_fits hprofit

theorem equity_toInt (hqty : p.qty ≠ 0) :
    (p.equity mark).toInt = p.margin.toInt + p.exactProfit mark := by
  have hequity := h.equity
  rw [← h.profit_toInt hqty] at hequity ⊢
  exact toInt_ofIntClamp_of_fits hequity

theorem requirement_toInt :
    (p.maintenance t mark).toInt =
      (p.bracketAt t mark).exactRequirement (p.contract.notionalExact mark p.qty) := by
  have hscaled := h.scaled
  have hrequired := h.required
  have hbracket : p.maintenance t mark =
      (p.bracketAt t mark).requirement (p.contract.notional mark p.qty) := rfl
  rw [hbracket, MarginTier.requirement_toInt, h.notional_toInt]
  unfold MarginTier.demand MarginTier.exactRequirement MarginTier.clamp
  unfold FitsI64 at hscaled hrequired
  omega

/-- **The liquidation test**, in exact figures. -/
theorem isLiquidatable_iff (hqty : p.qty ≠ 0) :
    p.isLiquidatable t mark = true ↔
      p.margin.toInt + p.exactProfit mark ≤
        (p.bracketAt t mark).exactRequirement (p.contract.notionalExact mark p.qty) := by
  rw [MarginedPosition.isLiquidatable_iff, Int64.le_iff_toInt_le, h.equity_toInt hqty,
    h.requirement_toInt]
  exact and_iff_right hqty

end Unsaturated

end MarginedPosition

/-! ## The line of a bracket -/

namespace MarginTier

variable (tier : MarginTier)

/-- What the bracket asks of a notional, times the ratio scale and before any rounding. -/
def line (x : Int) : Int := x * tier.rate.toInt - tier.amount.toInt * ratioScale

/-- Rounding never takes the requirement below the line. -/
theorem le_exactRequirement {e x : Int} (h : e * ratioScale ≤ tier.line x) :
    e ≤ tier.exactRequirement x := by
  have hscale : (0 : Int) < ratioScale := by decide
  have hsum : (e + tier.amount.toInt) * ratioScale ≤ x * tier.rate.toInt := by
    unfold line at h
    linarith
  have hround := Int.tdiv_le_tdiv hscale hsum
  rw [Int.mul_tdiv_cancel _ hscale.ne'] at hround
  unfold exactRequirement
  omega

/-- Under a rate that is not negative and without an amount, it rounds down to it. -/
theorem le_exactRequirement_iff {e x : Int} (hamount : tier.amount = 0) (hrate : 0 ≤ tier.rate)
    (hx : 0 ≤ x) : e ≤ tier.exactRequirement x ↔ e * ratioScale ≤ tier.line x := by
  rw [Int64.le_iff_toInt_le, Int64.toInt_zero] at hrate
  have hprod := mul_nonneg hx hrate
  have hquot := Int.ediv_nonneg hprod (by decide : (0 : Int) ≤ ratioScale)
  unfold exactRequirement line
  rw [hamount, Int64.toInt_zero, sub_zero, zero_mul, sub_zero, Int.tdiv_eq_ediv_of_nonneg hprod,
    max_eq_right hquot, Int.le_ediv_iff_mul_le (by decide)]

end MarginTier

namespace MarginedPosition

/-- A price at the level or past it, on the side where the position is liquidated. -/
def Reached (p : MarginedPosition) (tier : MarginTier) (x : Int) : Prop :=
  if 0 < p.qty then x ≤ p.level tier else p.level tier ≤ x

variable {p : MarginedPosition} {t : TierTable} {mark : PriceTicks} {tier : MarginTier}

theorem notionalExact_eq_stride (p : MarginedPosition) (mark : PriceTicks) :
    p.contract.notionalExact mark p.qty = mark.toInt * p.stride :=
  mul_assoc _ _ _

/-- **The level is where equity meets the line.** -/
theorem equity_le_line_iff (hcost : p.cost = p.exactCost) (hden : 0 < p.denominator tier)
    (mark : PriceTicks) :
    (p.margin.toInt + p.exactProfit mark) * ratioScale ≤
        tier.line (p.contract.notionalExact mark p.qty) ↔
      p.Reached tier mark.toInt := by
  unfold Reached exactProfit MarginTier.line
  rw [notionalExact_eq_stride, ← hcost]
  by_cases hlong : 0 < p.qty
  · rw [if_pos hlong, if_pos hlong, le_level_iff hlong hden]
    unfold numerator denominator
    rw [if_pos hlong, if_pos hlong]
    constructor
    · intro h
      linarith
    · intro h
      linarith
  · rw [if_neg hlong, if_neg hlong, level_le_iff hlong hden]
    unfold numerator denominator
    rw [if_neg hlong, if_neg hlong]
    constructor
    · intro h
      linarith
    · intro h
      linarith

/-! ## One bracket -/

/-- The reported price says of this mark what the liquidation test says. -/
def PriceExactAt (p : MarginedPosition) (t : TierTable) (mark : PriceTicks) : Prop :=
  p.isLiquidatable t mark = true ↔
    ∃ price, p.liquidationPrice t = some price ∧ if 0 < p.qty then mark ≤ price else price ≤ mark

theorem bracketAt_of_one (hone : t.tiers = [tier]) (mark : PriceTicks) :
    p.bracketAt t mark = tier := by
  have hmem : t.tierFor (p.contract.notional mark p.qty) ∈ t.tiers := by
    rw [TierTable.tierFor_eq_select]
    exact Brackets.select_mem t.tiers t.nonempty _
  unfold bracketAt
  rw [hone] at hmem
  exact List.mem_singleton.mp hmem

theorem stride_pos (hqty : p.qty ≠ 0) (hcash : 0 < p.contract.tickCash) : 0 < p.stride := by
  have hlow := Int64.le_toInt p.qty
  have hne : p.qty.toInt ≠ 0 := fun h => hqty (Int64.toInt_inj.mp h)
  have hpos := abs_pos.mpr hne
  apply mul_pos
  · rw [Contract.satAbs_toInt]
    omega
  · exact Int64.lt_iff_toInt_lt.mp hcash

end MarginedPosition
