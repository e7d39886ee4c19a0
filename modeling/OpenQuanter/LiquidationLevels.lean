/-
# Liquidation levels across brackets and margins (`oq-margin/position.rs`, `oq-margin/tier.rs`)

The closed form reads one bracket's rate and amount; the requirement at the price it gives may
be another's.  When the lines of the brackets take over from each other at the bounds, the
line that applies is the highest there is, and

* `liquidatable_of_reached` : whichever bracket the level was computed from, the position is
  liquidatable at every mark at the level or past it;
* `requirement_succ_le`, `requirement_le_succ` : one unit of notional moves the requirement
  by at most one, across the bounds too, if no rate exceeds one;
* `liquidatable_closed` : so the liquidatable marks before the level are closed as well.

Margin moves a level through its numerator alone (`level_mono_margin`).
-/
import OpenQuanter.LiquidationPrice

/-! ## Truncation at the ratio scale -/

theorem tdiv_scale_of_nonneg {v : Int} (h : 0 ≤ v) : v.tdiv ratioScale = v / ratioScale :=
  Int.tdiv_eq_ediv_of_nonneg h

theorem tdiv_scale_of_nonpos {v : Int} (h : v ≤ 0) : v.tdiv ratioScale = -(-v / ratioScale) := by
  rw [← Int.tdiv_eq_ediv_of_nonneg (by omega), Int.neg_tdiv, neg_neg]

/-- A step up by at most the scale adds at most one. -/
theorem tdiv_scale_add_le (v : Int) {r : Int} (h : r ≤ ratioScale) :
    (v + r).tdiv ratioScale ≤ v.tdiv ratioScale + 1 := by
  rcases le_total 0 v with hv | hv <;> rcases le_total 0 (v + r) with hvr | hvr
  · rw [tdiv_scale_of_nonneg hv, tdiv_scale_of_nonneg hvr]
    unfold ratioScale at *
    omega
  · rw [tdiv_scale_of_nonneg hv, tdiv_scale_of_nonpos hvr]
    unfold ratioScale at *
    omega
  · rw [tdiv_scale_of_nonpos hv, tdiv_scale_of_nonneg hvr]
    unfold ratioScale at *
    omega
  · rw [tdiv_scale_of_nonpos hv, tdiv_scale_of_nonpos hvr]
    unfold ratioScale at *
    omega

/-- A step down by at most the scale takes away at most one. -/
theorem tdiv_scale_le_add (v : Int) {r : Int} (h : -ratioScale ≤ r) :
    v.tdiv ratioScale - 1 ≤ (v + r).tdiv ratioScale := by
  have := tdiv_scale_add_le (v + r) (r := -r) (by omega)
  rw [add_neg_cancel_right] at this
  omega

namespace MarginTier

/-! ## One unit of notional -/

variable {lo hi : MarginTier}

/-- Inside a bracket whose rate is at most one. -/
theorem exactRequirement_succ_le (h : lo.rate.toInt ≤ ratioScale) (x : Int) :
    lo.exactRequirement (x + 1) ≤ lo.exactRequirement x + 1 := by
  have := tdiv_scale_add_le (x * lo.rate.toInt) h
  unfold exactRequirement
  rw [add_mul, one_mul]
  omega

/-- Inside a bracket whose rate is at least minus one. -/
theorem exactRequirement_le_succ (h : -ratioScale ≤ lo.rate.toInt) (x : Int) :
    lo.exactRequirement x - 1 ≤ lo.exactRequirement (x + 1) := by
  have := tdiv_scale_le_add (x * lo.rate.toInt) h
  unfold exactRequirement
  rw [add_mul, one_mul]
  omega

/-- The lines of two brackets meet at the bound of the lower one. -/
def Meets (lo hi : MarginTier) : Prop :=
  lo.line lo.maxNotional.toInt = hi.line lo.maxNotional.toInt

/-- Past a bound that is not negative, if the rate above it is at most one. -/
theorem requirement_cross_le (hrise : lo.rate ≤ hi.rate) (hmeets : lo.Meets hi)
    (hbound : 0 ≤ lo.maxNotional.toInt) (hrate : hi.rate.toInt ≤ ratioScale) :
    hi.exactRequirement (lo.maxNotional.toInt + 1) ≤
      lo.exactRequirement lo.maxNotional.toInt + 1 := by
  rw [Int64.le_iff_toInt_le] at hrise
  unfold Meets line at hmeets
  unfold exactRequirement
  rw [add_mul, one_mul]
  generalize lo.maxNotional.toInt = B at *
  generalize hi.rate.toInt = s at *
  generalize lo.rate.toInt = r at *
  generalize lo.amount.toInt = a at *
  generalize hi.amount.toInt = b at *
  have hx : B * r = B * s - (b - a) * ratioScale := by linarith
  rcases le_total 0 s with hs | hs
  · have hy : 0 ≤ B * s := mul_nonneg hbound hs
    rw [tdiv_scale_of_nonneg (by omega : 0 ≤ B * s + s), hx]
    rcases le_total 0 (B * s - (b - a) * ratioScale) with hlo | hlo
    · rw [tdiv_scale_of_nonneg hlo]
      unfold ratioScale at *
      omega
    · rw [tdiv_scale_of_nonpos hlo]
      unfold ratioScale at *
      omega
  · have hy : B * s ≤ 0 := mul_nonpos_of_nonneg_of_nonpos hbound hs
    have hlo : B * r ≤ 0 := mul_nonpos_of_nonneg_of_nonpos hbound (hrise.trans hs)
    rw [hx] at hlo ⊢
    rw [tdiv_scale_of_nonpos (by omega : B * s + s ≤ 0), tdiv_scale_of_nonpos hlo]
    unfold ratioScale at *
    omega

/-- Past any bound, if the rate above it is at least minus one. -/
theorem requirement_le_cross (hrise : lo.rate ≤ hi.rate) (hmeets : lo.Meets hi)
    (hrate : -ratioScale ≤ hi.rate.toInt) :
    lo.exactRequirement lo.maxNotional.toInt - 1 ≤
      hi.exactRequirement (lo.maxNotional.toInt + 1) := by
  rw [Int64.le_iff_toInt_le] at hrise
  unfold Meets line at hmeets
  unfold exactRequirement
  rw [add_mul, one_mul]
  generalize lo.maxNotional.toInt = B at *
  generalize hi.rate.toInt = s at *
  generalize lo.rate.toInt = r at *
  generalize lo.amount.toInt = a at *
  generalize hi.amount.toInt = b at *
  have hx : B * r = B * s - (b - a) * ratioScale := by linarith
  rcases le_total 0 s with hs | hs
  · have hsigns : 0 ≤ B * s + s ∨ B * s + s ≤ 0 := le_total _ _
    rw [hx]
    rcases hsigns with hhi | hhi <;>
      rcases le_total 0 (B * s - (b - a) * ratioScale) with hlo | hlo
    · rw [tdiv_scale_of_nonneg hhi, tdiv_scale_of_nonneg hlo]
      unfold ratioScale at *
      omega
    · rw [tdiv_scale_of_nonneg hhi, tdiv_scale_of_nonpos hlo]
      unfold ratioScale at *
      omega
    · rw [tdiv_scale_of_nonpos hhi, tdiv_scale_of_nonneg hlo]
      unfold ratioScale at *
      omega
    · rw [tdiv_scale_of_nonpos hhi, tdiv_scale_of_nonpos hlo]
      unfold ratioScale at *
      omega
  · -- Both rates are negative, so both products are on the same side of zero.
    rcases le_or_gt 0 B with hB | hB
    · have hlo : B * r ≤ 0 := mul_nonpos_of_nonneg_of_nonpos hB (hrise.trans hs)
      have hhi : B * s ≤ 0 := mul_nonpos_of_nonneg_of_nonpos hB hs
      rw [hx] at hlo ⊢
      rw [tdiv_scale_of_nonpos hlo, tdiv_scale_of_nonpos (by omega : B * s + s ≤ 0)]
      unfold ratioScale at *
      omega
    · have hlo : 0 ≤ B * r := mul_nonneg_of_nonpos_of_nonpos hB.le (hrise.trans hs)
      have hhi : 0 ≤ (B + 1) * s := mul_nonneg_of_nonpos_of_nonpos (by omega) hs
      rw [add_mul, one_mul] at hhi
      rw [hx] at hlo ⊢
      rw [tdiv_scale_of_nonneg hlo, tdiv_scale_of_nonneg hhi]
      unfold ratioScale at *
      omega

end MarginTier

/-! ## The table -/

namespace TierTable

variable {t : TierTable}

/-- The lines of neighbouring brackets meet at the bound between them: the amounts make the
requirement continuous, exactly. -/
def Continuous (t : TierTable) : Prop := t.tiers.IsChain MarginTier.Meets

/-- What the table asks of a notional before any saturation. -/
def exactRequirement (t : TierTable) (x : Int) : Int :=
  (Brackets.select (·.maxNotional.toInt) t.tiers t.nonempty x).exactRequirement x

/-- **The line that applies is the highest.** -/
theorem line_le_select (hrise : t.RatesRise) (hmeets : t.Continuous) (x : Int)
    {tier : MarginTier} (htier : tier ∈ t.tiers) :
    tier.line x ≤ (Brackets.select (·.maxNotional.toInt) t.tiers t.nonempty x).line x := by
  have htakes : t.tiers.IsChain (Brackets.TakesOver (·.maxNotional.toInt) MarginTier.line) :=
    (Brackets.isChain_and hrise hmeets).imp fun lo hi ⟨hle, hmeet⟩ x =>
      Brackets.line_cross (Int64.le_iff_toInt_le.mp hle) hmeet x
  exact Brackets.line_le_select t.nonempty t.ordered_toInt htakes x tier htier

/-- From a notional that is not negative, the requirement grows no faster than the notional. -/
theorem exactRequirement_le_add (hrise : t.RatesRise) (hmeets : t.Continuous)
    (hrates : ∀ tier ∈ t.tiers, tier.rate.toInt ≤ ratioScale) {x y : Int} (hx : 0 ≤ x)
    (hxy : x ≤ y) : t.exactRequirement y ≤ t.exactRequirement x + (y - x) := by
  have hstep : t.tiers.IsChain fun lo hi => x ≤ lo.maxNotional.toInt →
      lo.maxNotional.toInt - lo.exactRequirement lo.maxNotional.toInt ≤
        lo.maxNotional.toInt + 1 - hi.exactRequirement (lo.maxNotional.toInt + 1) := by
    refine (Brackets.isChain_and hrise hmeets).imp_of_mem_imp fun lo hi _ hhi ⟨hle, hmeet⟩ hB => ?_
    have := MarginTier.requirement_cross_le hle hmeet (hx.trans hB) (hrates hi hhi)
    omega
  have hgrow := Brackets.select_le_select
    (g := fun (tier : MarginTier) z => z - tier.exactRequirement z) t.nonempty t.ordered_toInt
    hxy (fun tier htier z _ => ?_) hstep
  · unfold exactRequirement
    omega
  · have := MarginTier.exactRequirement_succ_le (hrates tier htier) z
    omega

/-- The requirement falls no faster than the notional grows. -/
theorem sub_le_exactRequirement (hrise : t.RatesRise) (hmeets : t.Continuous)
    (hrates : ∀ tier ∈ t.tiers, -ratioScale ≤ tier.rate.toInt) {x y : Int} (hxy : x ≤ y) :
    t.exactRequirement x - (y - x) ≤ t.exactRequirement y := by
  have hstep : t.tiers.IsChain fun lo hi => x ≤ lo.maxNotional.toInt →
      lo.maxNotional.toInt + lo.exactRequirement lo.maxNotional.toInt ≤
        lo.maxNotional.toInt + 1 + hi.exactRequirement (lo.maxNotional.toInt + 1) := by
    refine (Brackets.isChain_and hrise hmeets).imp_of_mem_imp fun lo hi _ hhi ⟨hle, hmeet⟩ _ => ?_
    have := MarginTier.requirement_le_cross hle hmeet (hrates hi hhi)
    omega
  have hgrow := Brackets.select_le_select
    (g := fun (tier : MarginTier) z => z + tier.exactRequirement z) t.nonempty t.ordered_toInt
    hxy (fun tier htier z _ => ?_) hstep
  · unfold exactRequirement
    omega
  · have := MarginTier.exactRequirement_le_succ (hrates tier htier) z
    omega

end TierTable

/-! ## At the reported price, and past it -/

namespace MarginedPosition

variable {p : MarginedPosition} {t : TierTable} {mark ref price : PriceTicks} {tier : MarginTier}

theorem bracketAt_mem (p : MarginedPosition) (t : TierTable) (mark : PriceTicks) :
    p.bracketAt t mark ∈ t.tiers := by
  unfold bracketAt
  rw [TierTable.tierFor_eq_select]
  exact Brackets.select_mem _ t.nonempty _

theorem Unsaturated.bracketAt_eq (h : p.Unsaturated t mark) :
    p.bracketAt t mark = Brackets.select (·.maxNotional.toInt) t.tiers t.nonempty
      (p.contract.notionalExact mark p.qty) := by
  unfold bracketAt
  rw [TierTable.tierFor_eq_select, h.notional_toInt]

theorem Unsaturated.liquidatable_iff_table (h : p.Unsaturated t mark) (hqty : p.qty ≠ 0) :
    p.isLiquidatable t mark = true ↔
      p.margin.toInt + p.exactProfit mark ≤
        t.exactRequirement (p.contract.notionalExact mark p.qty) := by
  rw [h.isLiquidatable_iff hqty, h.bracketAt_eq]
  rfl

/-- **Past a level** the position is liquidatable, whichever bracket the level is of. -/
theorem liquidatable_of_reached (hrise : t.RatesRise) (hmeets : t.Continuous)
    (htier : tier ∈ t.tiers) (hden : 0 < p.denominator tier) (hqty : p.qty ≠ 0)
    (h : p.Unsaturated t mark) (hreached : p.Reached tier mark.toInt) :
    p.isLiquidatable t mark = true := by
  rw [h.isLiquidatable_iff hqty]
  apply MarginTier.le_exactRequirement
  have hline := (equity_le_line_iff h.cost_eq hden mark).mpr hreached
  refine hline.trans ?_
  rw [h.bracketAt_eq]
  exact TierTable.line_le_select hrise hmeets _ htier

/-- What a reported price says of the level it was narrowed from. -/
theorem reached_of_price (hprice : p.liquidationPriceAt t ref = some price)
    (hlevel : p.level (p.bracketAt t ref) < 2 ^ 63) :
    p.qty ≠ 0 ∧ 0 < p.denominator (p.bracketAt t ref) ∧
      p.Reached (p.bracketAt t ref) price.toInt ∧
      (0 < p.qty → 0 < price.toInt ∧ price.toInt = p.level (p.bracketAt t ref)) := by
  rw [liquidationPriceAt_eq] at hprice
  split at hprice
  · cases hprice
  · next hqty =>
    split at hprice
    · cases hprice
    · next hden =>
      refine ⟨hqty, by omega, ?_⟩
      split at hprice
      · next hle =>
        split at hprice
        · cases hprice
        · next hshort =>
          cases hprice
          unfold Reached
          rw [if_neg hshort]
          exact ⟨hle, fun hlong => absurd hlong hshort⟩
      · next hpos =>
        cases hprice
        rw [FitsI64.toInt_ofInt ⟨by omega, hlevel⟩]
        unfold Reached
        refine ⟨by split <;> omega, fun _ => ⟨by omega, rfl⟩⟩

/-- **Liquidation across brackets.**  At the reported price the position is liquidatable, and
the marks at which it is are closed downwards for a long if no rate exceeds one, and upwards
for a short if no rate is below minus one. -/
theorem liquidation_across_brackets (hrise : t.RatesRise) (hmeets : t.Continuous)
    (hprice : p.liquidationPriceAt t ref = some price)
    (hlevel : p.level (p.bracketAt t ref) < 2 ^ 63) :
    (p.Unsaturated t price → p.isLiquidatable t price = true) ∧
      ∀ mark mark', p.Unsaturated t mark → p.Unsaturated t mark' →
        p.isLiquidatable t mark = true →
        (0 < p.qty → (∀ tier ∈ t.tiers, tier.rate.toInt ≤ ratioScale) → mark' ≤ mark →
          p.isLiquidatable t mark' = true) ∧
        (p.qty < 0 → (∀ tier ∈ t.tiers, -ratioScale ≤ tier.rate.toInt) → mark ≤ mark' →
          p.isLiquidatable t mark' = true) := by
  obtain ⟨hqty, hden, hreached, hlong⟩ := reached_of_price hprice hlevel
  have hmem := p.bracketAt_mem t ref
  constructor
  · exact fun h => liquidatable_of_reached hrise hmeets hmem hden hqty h hreached
  · intro mark mark' h h' htest
    rw [h.liquidatable_iff_table hqty, notionalExact_eq_stride] at htest
    constructor
    · intro hpos hrates hle
      by_cases hpast : mark'.toInt ≤ p.level (p.bracketAt t ref)
      · exact liquidatable_of_reached hrise hmeets hmem hden hqty h' (by
          unfold Reached
          rwa [if_pos hpos])
      · -- Between the level and `mark` the requirement falls no faster than equity.
        have hrate := hrates _ hmem
        have hstride : 0 < p.stride := by
          unfold denominator at hden
          rw [if_pos hpos] at hden
          exact pos_of_mul_pos_left hden (by omega)
        obtain ⟨hprice0, hpricelevel⟩ := hlong hpos
        rw [Int64.le_iff_toInt_le] at hle
        have hslow := TierTable.exactRequirement_le_add hrise hmeets hrates
          (mul_nonneg (by omega : 0 ≤ mark'.toInt) hstride.le)
          (mul_le_mul_of_nonneg_right hle hstride.le)
        rw [h'.liquidatable_iff_table hqty, notionalExact_eq_stride]
        unfold exactProfit at htest ⊢
        rw [if_pos hpos, notionalExact_eq_stride] at htest ⊢
        linarith
    · intro hneg hrates hle
      have hshort : ¬ 0 < p.qty := Int64.not_lt.mpr (Int64.le_of_lt hneg)
      by_cases hpast : p.level (p.bracketAt t ref) ≤ mark'.toInt
      · exact liquidatable_of_reached hrise hmeets hmem hden hqty h' (by
          unfold Reached
          rwa [if_neg hshort])
      · have hrate := hrates _ hmem
        have hstride : 0 < p.stride := by
          unfold denominator at hden
          rw [if_neg hshort] at hden
          exact pos_of_mul_pos_left hden (by omega)
        rw [Int64.le_iff_toInt_le] at hle
        have hslow := TierTable.sub_le_exactRequirement hrise hmeets hrates
          (mul_le_mul_of_nonneg_right hle hstride.le)
        rw [h'.liquidatable_iff_table hqty, notionalExact_eq_stride]
        unfold exactProfit at htest ⊢
        rw [if_neg hshort, notionalExact_eq_stride] at htest ⊢
        linarith

/-- The position of the reference mark's bracket, liquidatable in the next. -/
theorem liquidation_across_brackets_btc :
    let t : TierTable := ⟨[⟨1000, 10000000, 0⟩, ⟨Int64.maxValue, 20000000, 10⟩],
      List.cons_ne_nil _ _, by decide⟩
    let p : MarginedPosition := ⟨⟨1⟩, 1000, -1, 200, none⟩
    p.liquidationPriceAt t 900 = some 1189 ∧ p.isLiquidatable t 1189 = true := by
  intro t p
  refine ⟨by decide, ?_⟩
  have hprice : p.liquidationPriceAt t 900 = some 1189 := by decide
  exact (liquidation_across_brackets (by unfold TierTable.RatesRise; decide)
    (by unfold TierTable.Continuous MarginTier.Meets; decide) hprice (by decide)).1
    ⟨by decide, by decide, by decide, by decide, by decide, by decide⟩

/-- **Not closed** are the liquidatable marks of a long under a rate above one, nor those of a
short under a rate below minus one, though the table is in order and continuous and a price is
reported. -/
theorem liquidatable_not_closed :
    (let t : TierTable := ⟨[⟨100, 0, 0⟩, ⟨Int64.maxValue, 2000000000, 200⟩],
      List.cons_ne_nil _ _, by decide⟩
    let p : MarginedPosition := ⟨⟨1⟩, 100, 1, 50, none⟩
    t.RatesRise ∧ t.Continuous ∧ p.liquidationPriceAt t 50 = some 50 ∧
      p.Unsaturated t 200 ∧ p.Unsaturated t 100 ∧
      p.isLiquidatable t 200 = true ∧ ¬ p.isLiquidatable t 100 = true) ∧
    (let t : TierTable := ⟨[⟨100, -2000000000, -200⟩, ⟨Int64.maxValue, 0, 0⟩],
      List.cons_ne_nil _ _, by decide⟩
    let p : MarginedPosition := ⟨⟨1⟩, 100, -1, 50, none⟩
    t.RatesRise ∧ t.Continuous ∧ p.liquidationPriceAt t 200 = some 150 ∧
      p.Unsaturated t 10 ∧ p.Unsaturated t 100 ∧
      p.isLiquidatable t 10 = true ∧ ¬ p.isLiquidatable t 100 = true) := by
  constructor
  · refine ⟨by unfold TierTable.RatesRise; decide,
      by unfold TierTable.Continuous MarginTier.Meets; decide, by decide, ?_, ?_, by decide,
      by decide⟩
    · exact ⟨by decide, by decide, by decide, by decide, by decide, by decide⟩
    · exact ⟨by decide, by decide, by decide, by decide, by decide, by decide⟩
  · refine ⟨by unfold TierTable.RatesRise; decide,
      by unfold TierTable.Continuous MarginTier.Meets; decide, by decide, ?_, ?_, by decide,
      by decide⟩
    · exact ⟨by decide, by decide, by decide, by decide, by decide, by decide⟩
    · exact ⟨by decide, by decide, by decide, by decide, by decide, by decide⟩

/-! ## Margin -/

/-- The same position on another margin. -/
def withMargin (p : MarginedPosition) (margin : Cash) : MarginedPosition :=
  { p with margin := margin }

/-- What the closed form computes in `i128`, in order. -/
def intermediates (p : MarginedPosition) (tier : MarginTier) : List Int :=
  if 0 < p.qty then
    [p.cost - p.margin.toInt, p.cost - p.margin.toInt - tier.amount.toInt, p.numerator tier,
      p.stride, ratioScale - tier.rate.toInt, p.denominator tier]
  else
    [p.cost + p.margin.toInt, p.cost + p.margin.toInt + tier.amount.toInt, p.numerator tier,
      p.stride, ratioScale + tier.rate.toInt, p.denominator tier]

/-- Nothing wraps on the way to the reported price: every product is an `i128`, and what is
narrowed is an `i64`. -/
def NeverWraps (p : MarginedPosition) (t : TierTable) : Prop :=
  p.qty ≠ 0 →
    (∀ v ∈ p.intermediates (p.bracketAt t p.entry), FitsI128 v) ∧
      (0 < p.denominator (p.bracketAt t p.entry) → 0 < p.level (p.bracketAt t p.entry) →
        FitsI64 (p.level (p.bracketAt t p.entry)))

/-- **More margin does not move liquidation closer**, and nothing wraps on the way. -/
structure MarginHelps (p : MarginedPosition) (t : TierTable) (m₁ m₂ : Cash) : Prop where
  price : ∀ price₁ price₂, (p.withMargin m₁).liquidationPrice t = some price₁ →
    (p.withMargin m₂).liquidationPrice t = some price₂ →
    if 0 < p.qty then price₂ ≤ price₁ else price₁ ≤ price₂
  test : ∀ mark, (p.withMargin m₂).isLiquidatable t mark = true →
    (p.withMargin m₁).isLiquidatable t mark = true
  wraps₁ : (p.withMargin m₁).NeverWraps t
  wraps₂ : (p.withMargin m₂).NeverWraps t

/-- The closed form's numerator at a margin, before the ratio scale. -/
def owed (p : MarginedPosition) (tier : MarginTier) (margin : Cash) : Int :=
  if 0 < p.qty then p.cost - margin.toInt - tier.amount.toInt
  else p.cost + margin.toInt + tier.amount.toInt

/-- Of two margins, the one whose level the mark reaches last as it moves away. -/
def nearer (p : MarginedPosition) (m₁ m₂ : Cash) : Cash := if 0 < p.qty then m₁ else m₂

/-- The other one. -/
def farther (p : MarginedPosition) (m₁ m₂ : Cash) : Cash := if 0 < p.qty then m₂ else m₁

/-- The level at this margin is at most the largest price. -/
def Reportable (p : MarginedPosition) (tier : MarginTier) (margin : Cash) : Prop :=
  if 0 < p.qty then p.owed tier margin * ratioScale < 2 ^ 63 * p.denominator tier
  else p.owed tier margin * ratioScale ≤ (2 ^ 63 - 1) * p.denominator tier

/-- The bounds on the inputs: each end of the range of products is held by one of the two
margins, and the larger level is at most the largest price. -/
def Bounded (p : MarginedPosition) (t : TierTable) (m₁ m₂ : Cash) : Prop :=
  p.qty = 0 ∨
    -2 ^ 127 ≤ p.owed (p.bracketAt t p.entry) (p.farther m₁ m₂) * ratioScale ∧
      p.owed (p.bracketAt t p.entry) (p.nearer m₁ m₂) * ratioScale < 2 ^ 127 ∧
      FitsI128 (p.denominator (p.bracketAt t p.entry)) ∧
      (0 < p.denominator (p.bracketAt t p.entry) →
        p.Reportable (p.bracketAt t p.entry) (p.nearer m₁ m₂))

variable {m m₁ m₂ : Cash}

theorem numerator_withMargin (p : MarginedPosition) (tier : MarginTier) (m : Cash) :
    (p.withMargin m).numerator tier = p.owed tier m * ratioScale := by
  unfold numerator owed
  by_cases hlong : 0 < p.qty
  · rw [if_pos hlong]
    exact if_pos hlong
  · rw [if_neg hlong]
    exact if_neg hlong

theorem owed_farther_le (p : MarginedPosition) (tier : MarginTier) (hm : m₁ ≤ m₂) :
    p.owed tier (p.farther m₁ m₂) ≤ p.owed tier (p.nearer m₁ m₂) := by
  rw [Int64.le_iff_toInt_le] at hm
  unfold owed farther nearer
  split <;> omega

/-- The level is at most the largest price when what is owed is. -/
theorem level_lt_iff_reportable (hden : 0 < p.denominator tier) :
    (p.withMargin m).level tier < 2 ^ 63 ↔ p.Reportable tier m := by
  have hden' : 0 < (p.withMargin m).denominator tier := hden
  unfold Reportable
  rw [← numerator_withMargin]
  by_cases hlong : 0 < p.qty
  · rw [if_pos hlong, ← not_le, ← not_le]
    exact (le_level_iff (p := p.withMargin m) hlong hden' (2 ^ 63)).not
  · rw [if_neg hlong, ← Int.le_sub_one_iff]
    exact level_le_iff (p := p.withMargin m) hlong hden' (2 ^ 63 - 1)

/-- To owe more is to have a higher level. -/
theorem level_mono_margin (hden : 0 < p.denominator tier)
    (h : p.owed tier m₁ ≤ p.owed tier m₂) :
    (p.withMargin m₁).level tier ≤ (p.withMargin m₂).level tier := by
  have hnum : (p.withMargin m₁).numerator tier ≤ (p.withMargin m₂).numerator tier := by
    rw [numerator_withMargin, numerator_withMargin]
    exact mul_le_mul_of_nonneg_right h (by decide)
  by_cases hlong : 0 < p.qty
  · have hself := (le_level_iff (p := p.withMargin m₁) hlong hden _).mp le_rfl
    exact (le_level_iff (p := p.withMargin m₂) hlong hden _).mpr (hself.trans hnum)
  · have hself := (level_le_iff (p := p.withMargin m₂) hlong hden _).mp le_rfl
    exact (level_le_iff (p := p.withMargin m₁) hlong hden _).mpr (hnum.trans hself)

/-- The factors of the denominator are far inside `i128`. -/
theorem fitsI128_stride (p : MarginedPosition) : FitsI128 p.stride := by
  have hbound := abs_le.mp (fits_price_mul_size p.contract.tickCash p.qty)
  unfold stride FitsI128
  rw [mul_comm]
  omega

/-- What comes before the quotient is smaller than what is divided. -/
theorem fits_intermediates (hnum : FitsI128 (p.owed tier m * ratioScale))
    (hden : FitsI128 (p.denominator tier)) :
    ∀ v ∈ (p.withMargin m).intermediates tier, FitsI128 v := by
  intro v hv
  have hrate := fitsI64_toInt tier.rate
  have hamount := fitsI64_toInt tier.amount
  have howed := hnum
  unfold FitsI128 ratioScale owed at howed
  unfold FitsI64 at hrate hamount
  unfold intermediates at hv
  by_cases hlong : 0 < p.qty
  · rw [if_pos hlong] at howed
    rw [if_pos (show 0 < (p.withMargin m).qty from hlong)] at hv
    simp only [List.mem_cons, List.not_mem_nil, or_false] at hv
    rcases hv with rfl | rfl | rfl | rfl | rfl | rfl
    · change FitsI128 (p.cost - m.toInt)
      unfold FitsI128
      omega
    · change FitsI128 (p.cost - m.toInt - tier.amount.toInt)
      unfold FitsI128
      omega
    · rw [numerator_withMargin]
      exact hnum
    · exact p.fitsI128_stride
    · unfold FitsI128 ratioScale
      omega
    · exact hden
  · rw [if_neg hlong] at howed
    rw [if_neg (show ¬ 0 < (p.withMargin m).qty from hlong)] at hv
    simp only [List.mem_cons, List.not_mem_nil, or_false] at hv
    rcases hv with rfl | rfl | rfl | rfl | rfl | rfl
    · change FitsI128 (p.cost + m.toInt)
      unfold FitsI128
      omega
    · change FitsI128 (p.cost + m.toInt + tier.amount.toInt)
      unfold FitsI128
      omega
    · rw [numerator_withMargin]
      exact hnum
    · exact p.fitsI128_stride
    · unfold FitsI128 ratioScale
      omega
    · exact hden

theorem neverWraps_iff (hqty : p.qty ≠ 0) :
    (p.withMargin m).NeverWraps t ↔
      FitsI128 (p.owed (p.bracketAt t p.entry) m * ratioScale) ∧
        FitsI128 (p.denominator (p.bracketAt t p.entry)) ∧
        (0 < p.denominator (p.bracketAt t p.entry) →
          p.Reportable (p.bracketAt t p.entry) m) := by
  have hbracket : (p.withMargin m).bracketAt t (p.withMargin m).entry = p.bracketAt t p.entry :=
    rfl
  unfold NeverWraps
  rw [hbracket]
  generalize p.bracketAt t p.entry = tier at *
  have hden : (p.withMargin m).denominator tier = p.denominator tier := rfl
  rw [hden]
  constructor
  · intro h
    obtain ⟨hfits, hlevel⟩ := h hqty
    refine ⟨?_, ?_, ?_⟩
    · rw [← numerator_withMargin]
      exact hfits _ (by unfold intermediates; split <;> simp)
    · exact hfits _ (by rw [← hden]; unfold intermediates; split <;> simp)
    · intro hpos
      rw [← level_lt_iff_reportable hpos]
      by_cases hlevelpos : 0 < (p.withMargin m).level tier
      · exact (hlevel hpos hlevelpos).2
      · omega
  · intro ⟨hnum, hdenfits, hreport⟩ _
    refine ⟨fits_intermediates hnum hdenfits, ?_⟩
    intro hpos hlevelpos
    exact ⟨by omega, (level_lt_iff_reportable hpos).mpr (hreport hpos)⟩

/-- A reported price is the level, or zero for a short whose level is below. -/
theorem price_eq_level (h : (p.withMargin m).NeverWraps t)
    (hprice : (p.withMargin m).liquidationPrice t = some price) :
    0 < p.denominator (p.bracketAt t p.entry) ∧
      price.toInt = max 0 ((p.withMargin m).level (p.bracketAt t p.entry)) := by
  have hbracket : (p.withMargin m).bracketAt t (p.withMargin m).entry = p.bracketAt t p.entry :=
    rfl
  unfold liquidationPrice at hprice
  split at hprice
  · cases hprice
  · next hqty =>
    obtain ⟨_, hlevel⟩ := h hqty
    rw [liquidationPriceAt_eq, if_neg hqty] at hprice
    rw [hbracket] at hprice hlevel
    split at hprice
    · cases hprice
    · next hden =>
      have hpos : 0 < p.denominator (p.bracketAt t p.entry) := not_le.mp hden
      refine ⟨hpos, ?_⟩
      split at hprice
      · next hle =>
        split at hprice
        · cases hprice
        · cases hprice
          exact (max_eq_left hle).symm
      · next hnle =>
        cases hprice
        rw [FitsI64.toInt_ofInt (hlevel hpos (not_le.mp hnle))]
        omega

/-- The test on more margin is the harder one to meet. -/
theorem isLiquidatable_anti_margin (hm : m₁ ≤ m₂) (mark : PriceTicks)
    (h : (p.withMargin m₂).isLiquidatable t mark = true) :
    (p.withMargin m₁).isLiquidatable t mark = true := by
  rw [isLiquidatable_iff] at h ⊢
  refine ⟨h.1, ?_⟩
  have hle := h.2
  have hequity : (p.withMargin m₁).equity mark ≤ (p.withMargin m₂).equity mark := by
    rw [Int64.le_iff_toInt_le] at hm ⊢
    change (Cash.add m₁ (p.unrealized mark)).toInt ≤ (Cash.add m₂ (p.unrealized mark)).toInt
    unfold Cash.add
    rw [toInt_clamp, toInt_clamp]
    omega
  exact Int64.le_trans hequity hle

/-- **More margin helps exactly within the bounds.** -/
theorem marginHelps_iff (p : MarginedPosition) (t : TierTable) (hm : m₁ ≤ m₂) :
    p.MarginHelps t m₁ m₂ ↔ p.Bounded t m₁ m₂ := by
  have hscale : (0 : Int) ≤ ratioScale := by decide
  by_cases hflat : p.qty = 0
  · refine iff_of_true ⟨?_, isLiquidatable_anti_margin hm, ?_, ?_⟩ (Or.inl hflat)
    · intro price₁ _ hprice _
      unfold liquidationPrice at hprice
      rw [if_pos (show (p.withMargin m₁).qty = 0 from hflat)] at hprice
      cases hprice
    · exact fun hqty => absurd hflat hqty
    · exact fun hqty => absurd hflat hqty
  · have howed := p.owed_farther_le (p.bracketAt t p.entry) hm
    have hprod := mul_le_mul_of_nonneg_right howed hscale
    have hpair : p.MarginHelps t m₁ m₂ ↔
        (p.withMargin (p.farther m₁ m₂)).NeverWraps t ∧
          (p.withMargin (p.nearer m₁ m₂)).NeverWraps t := by
      unfold nearer farther at howed ⊢
      by_cases hlong : 0 < p.qty
      · simp only [if_pos hlong] at howed ⊢
        refine ⟨fun h => ⟨h.wraps₂, h.wraps₁⟩, fun ⟨h₂, h₁⟩ => ?_⟩
        refine ⟨fun price₁ price₂ hprice₁ hprice₂ => ?_, isLiquidatable_anti_margin hm, h₁, h₂⟩
        obtain ⟨hden, heq₁⟩ := price_eq_level h₁ hprice₁
        have heq₂ := (price_eq_level h₂ hprice₂).2
        have hlevel := level_mono_margin hden howed
        rw [if_pos hlong, Int64.le_iff_toInt_le]
        omega
      · simp only [if_neg hlong] at howed ⊢
        refine ⟨fun h => ⟨h.wraps₁, h.wraps₂⟩, fun ⟨h₁, h₂⟩ => ?_⟩
        refine ⟨fun price₁ price₂ hprice₁ hprice₂ => ?_, isLiquidatable_anti_margin hm, h₁, h₂⟩
        obtain ⟨hden, heq₁⟩ := price_eq_level h₁ hprice₁
        have heq₂ := (price_eq_level h₂ hprice₂).2
        have hlevel := level_mono_margin hden howed
        rw [if_neg hlong, Int64.le_iff_toInt_le]
        omega
    rw [hpair, neverWraps_iff hflat, neverWraps_iff hflat]
    constructor
    · intro ⟨⟨hfar, hden, _⟩, hnear, _, hreport⟩
      exact Or.inr ⟨hfar.1, hnear.2, hden, hreport⟩
    · rintro (h | ⟨hlow, hhigh, hden, hreport⟩)
      · exact absurd h hflat
      · have hfar : 0 < p.denominator (p.bracketAt t p.entry) →
            p.Reportable (p.bracketAt t p.entry) (p.farther m₁ m₂) := by
          intro hpos
          rw [← level_lt_iff_reportable hpos]
          exact (level_mono_margin hpos howed).trans_lt
            ((level_lt_iff_reportable hpos).mpr (hreport hpos))
        exact ⟨⟨⟨hlow, by omega⟩, hden, hfar⟩, ⟨by omega, hhigh⟩, hden, hreport⟩

/-- A short of three lots, on margins of 100 and 5000. -/
theorem marginHelps_iff_short :
    (⟨⟨1⟩, 1000, -3, 0, none⟩ : MarginedPosition).MarginHelps .exampleBtcusdt 100 5000 ↔
      (⟨⟨1⟩, 1000, -3, 0, none⟩ : MarginedPosition).Bounded .exampleBtcusdt 100 5000 :=
  marginHelps_iff _ _ (by decide)

/-- **The narrowing wraps.**  A short lot has its level at 990099009900990100 without margin; with
all the margin there is the reported price is below zero. -/
theorem not_marginHelps :
    let p : MarginedPosition := ⟨⟨1⟩, 1000000000000000000, -1, 0, none⟩
    (p.withMargin 0).liquidationPrice (.single 10000000 0) = some 990099009900990100 ∧
      (p.withMargin Int64.maxValue).liquidationPrice (.single 10000000 0) =
      some (-8324593542170169628) ∧
      ¬ p.MarginHelps (.single 10000000 0) 0 Int64.maxValue := by
  intro p
  have hprice₁ : (p.withMargin 0).liquidationPrice (.single 10000000 0) =
    some 990099009900990100 := by
    decide
  have hprice₂ : (p.withMargin Int64.maxValue).liquidationPrice (.single 10000000 0) =
      some (-8324593542170169628) := by decide
  refine ⟨hprice₁, hprice₂, fun h => ?_⟩
  have hfalls := h.price _ _ hprice₁ hprice₂
  rw [if_neg (by decide)] at hfalls
  exact absurd hfalls (by decide)

end MarginedPosition
