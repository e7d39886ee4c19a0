/-
# Maintenance over the whole table (`oq-margin/tier.rs`)

The requirement is one bracket's figure, and the bracket moves with the notional.  What the
table asks of a notional, as an integer, is `TierTable.demand`:

* `maintenance_toInt` : the requirement of a position is the demand on its notional;
* `demand_mono` : the demand grows with the notional, across the bounds and where the
  arithmetic saturates, if no rate is negative and no bound drops it;
* `notional_mono_price`, `notional_mono_qty` : the notional grows with the price, and with
  the size where the price is not negative.
-/
import OpenQuanter.Brackets
import OpenQuanter.Margin

/-! ## One bracket -/

namespace MarginTier

/-- What the bracket asks of a notional, never negative. -/
def requirement (tier : MarginTier) (notional : Cash) : Cash :=
  let required := Cash.sub (Cash.scaled notional tier.rate) tier.amount
  if required < 0 then 0 else required

/-- An integer held between the ends of `i64`. -/
def clamp (v : Int) : Int := max (-2 ^ 63) (min v (2 ^ 63 - 1))

theorem clamp_mono {v w : Int} (h : v ≤ w) : clamp v ≤ clamp w := by
  unfold clamp
  omega

/-- The requirement as arithmetic on integers. -/
def demand (tier : MarginTier) (x : Int) : Int :=
  max 0 (clamp (clamp ((x * tier.rate.toInt).tdiv ratioScale) - tier.amount.toInt))

theorem requirement_toInt (tier : MarginTier) (notional : Cash) :
    (tier.requirement notional).toInt = tier.demand notional.toInt := by
  have hsub : (Cash.sub (Cash.scaled notional tier.rate) tier.amount).toInt =
      clamp (clamp ((notional.toInt * tier.rate.toInt).tdiv ratioScale) - tier.amount.toInt) := by
    rw [Cash.sub, toInt_clamp, Cash.scaled, toInt_clamp]
    rfl
  unfold requirement demand
  rw [← hsub]
  dsimp only
  split
  · next hneg =>
    rw [Int64.lt_iff_toInt_lt, Int64.toInt_zero] at hneg
    rw [Int64.toInt_zero]
    omega
  · next hpos =>
    rw [Int64.lt_iff_toInt_lt, Int64.toInt_zero] at hpos
    omega

/-- At a rate that is not negative, a larger notional asks for no less. -/
theorem demand_mono (tier : MarginTier) (hrate : 0 ≤ tier.rate) {x y : Int} (hxy : x ≤ y) :
    tier.demand x ≤ tier.demand y := by
  rw [Int64.le_iff_toInt_le, Int64.toInt_zero] at hrate
  have hscaled := clamp_mono (Int.tdiv_le_tdiv (c := ratioScale) (by decide)
    (mul_le_mul_of_nonneg_right hxy hrate))
  have hless := clamp_mono (sub_le_sub_right hscaled tier.amount.toInt)
  unfold demand
  omega

end MarginTier

/-! ## The table -/

namespace TierTable

variable (t : TierTable)

/-- No bound drops the requirement: the first notional above it asks for no less. -/
def NeverDrops : Prop :=
  t.tiers.IsChain fun lo hi =>
    lo.requirement lo.maxNotional ≤ hi.requirement (lo.maxNotional + 1)

/-- What the table asks of a notional. -/
def demand (x : Int) : Int :=
  (Brackets.select (·.maxNotional.toInt) t.tiers t.nonempty x).demand x

theorem tierFor_eq_select (notional : Cash) :
    t.tierFor notional =
      Brackets.select (·.maxNotional.toInt) t.tiers t.nonempty notional.toInt := by
  unfold tierFor Brackets.select
  simp only [Int64.le_iff_toInt_le]

theorem maintenance_toInt (c : Contract) (price : PriceTicks) (qty : QtyLots) :
    (t.maintenance c price qty).toInt = t.demand (c.notional price qty).toInt := by
  unfold demand
  rw [← tierFor_eq_select, ← MarginTier.requirement_toInt]
  rfl

theorem ordered_toInt :
    t.tiers.IsChain fun a b => a.maxNotional.toInt < b.maxNotional.toInt :=
  t.ordered.imp fun _ _ h => Int64.lt_iff_toInt_lt.mp h

/-- Below a larger number, one more does not wrap. -/
theorem toInt_add_one {a b : Int64} (h : a < b) : (a + 1).toInt = a.toInt + 1 := by
  rw [Int64.lt_iff_toInt_lt] at h
  have hb := Int64.toInt_lt b
  have ha := Int64.le_toInt a
  rw [Int64.toInt_add, Int64.toInt_one, Int.bmod_eq_of_le (by omega) (by omega)]

/-- **The demand grows with the notional.** -/
theorem demand_mono (hrates : ∀ tier ∈ t.tiers, 0 ≤ tier.rate) (hdrops : t.NeverDrops)
    {x y : Int} (hxy : x ≤ y) : t.demand x ≤ t.demand y := by
  have hcross : t.tiers.IsChain fun lo hi =>
      lo.demand lo.maxNotional.toInt ≤ hi.demand (lo.maxNotional.toInt + 1) := by
    refine (Brackets.isChain_and t.ordered hdrops).imp fun lo hi ⟨hlt, hle⟩ => ?_
    rw [Int64.le_iff_toInt_le, MarginTier.requirement_toInt, MarginTier.requirement_toInt,
      toInt_add_one hlt] at hle
    exact hle
  exact Brackets.select_le_select t.nonempty t.ordered_toInt hxy
    (fun tier htier z _ => tier.demand_mono (hrates tier htier) (by omega))
    (hcross.imp fun _ _ h _ => h)

end TierTable

/-! ## The notional -/

namespace Contract

variable (c : Contract)

theorem satWide_mono {v w : Int} (h : v ≤ w) : satWide v ≤ satWide w := by
  unfold satWide
  omega

theorem notional_toInt (price : PriceTicks) (qty : QtyLots) :
    (c.notional price qty).toInt = MarginTier.clamp (c.notionalWide price qty) :=
  toInt_clamp _

/-- A size is a number of lots, and at most what `i64` holds. -/
theorem satAbs_toInt (qty : QtyLots) : (satAbs qty).toInt = min |qty.toInt| (2 ^ 63 - 1) := by
  have := abs_nonneg qty.toInt
  rw [satAbs, toInt_clamp]
  omega

theorem notional_mono_price (hcash : 0 ≤ c.tickCash) {p p' : PriceTicks} (h : p ≤ p')
    (qty : QtyLots) : (c.notional p qty).toInt ≤ (c.notional p' qty).toInt := by
  rw [Int64.le_iff_toInt_le] at h
  rw [Int64.le_iff_toInt_le, Int64.toInt_zero] at hcash
  have hsize : 0 ≤ (satAbs qty).toInt := by
    have := abs_nonneg qty.toInt
    rw [satAbs_toInt]
    omega
  rw [notional_toInt, notional_toInt]
  apply MarginTier.clamp_mono
  apply satWide_mono
  apply mul_le_mul_of_nonneg_right _ hcash
  apply satWide_mono
  exact mul_le_mul_of_nonneg_right h hsize

theorem notional_mono_qty (hcash : 0 ≤ c.tickCash) {p : PriceTicks} (hp : 0 ≤ p)
    {q q' : QtyLots} (h : |q.toInt| ≤ |q'.toInt|) :
    (c.notional p q).toInt ≤ (c.notional p q').toInt := by
  rw [Int64.le_iff_toInt_le, Int64.toInt_zero] at hp hcash
  have hsize : (satAbs q).toInt ≤ (satAbs q').toInt := by
    rw [satAbs_toInt, satAbs_toInt]
    omega
  rw [notional_toInt, notional_toInt]
  apply MarginTier.clamp_mono
  apply satWide_mono
  apply mul_le_mul_of_nonneg_right _ hcash
  apply satWide_mono
  exact mul_le_mul_of_nonneg_left hsize hp

/-- At a price below zero the notional falls as the size grows. -/
theorem notional_anti_qty (hcash : 0 ≤ c.tickCash) {p : PriceTicks} (hp : p ≤ 0)
    {q q' : QtyLots} (h : |q.toInt| ≤ |q'.toInt|) :
    (c.notional p q').toInt ≤ (c.notional p q).toInt := by
  rw [Int64.le_iff_toInt_le, Int64.toInt_zero] at hp hcash
  have hsize : (satAbs q).toInt ≤ (satAbs q').toInt := by
    rw [satAbs_toInt, satAbs_toInt]
    omega
  rw [notional_toInt, notional_toInt]
  apply MarginTier.clamp_mono
  apply satWide_mono
  apply mul_le_mul_of_nonneg_right _ hcash
  apply satWide_mono
  exact mul_le_mul_of_nonpos_left hsize hp

/-- Which side a position is on does not change its notional. -/
theorem notional_congr (p : PriceTicks) {q q' : QtyLots} (h : |q.toInt| = |q'.toInt|) :
    c.notional p q = c.notional p q' := by
  unfold notional notionalWide satAbs
  rw [h]

theorem abs_toInt_neg (q : Int64) : |(-q).toInt| = |q.toInt| := by
  rcases eq_or_ne q Int64.minValue with rfl | hq
  · rfl
  · have hlow := Int64.le_toInt q
    have hhigh := Int64.toInt_lt q
    have hne : q.toInt ≠ -2 ^ 63 := fun h => hq (Int64.toInt_inj.mp h)
    rw [Int64.toInt_neg, Int.bmod_eq_of_le (by omega) (by omega), abs_neg]

end Contract

/-! ## The requirement -/

namespace TierTable

/-- The requirement is not negative, whatever the table. -/
theorem maintenance_nonneg (t : TierTable) (c : Contract) (p : PriceTicks) (q : QtyLots) :
    0 ≤ t.maintenance c p q := by
  rw [Int64.le_iff_toInt_le, Int64.toInt_zero, maintenance_toInt]
  exact le_max_left 0 _

/-- **Maintenance is well behaved** where no rate and no tick value is negative: a long asks
what a short asks, and a higher price never asks for less, and neither does a larger size
unless the price is below zero, where it never asks for more. -/
theorem maintenance_well_behaved (t : TierTable) (c : Contract)
    (hrates : ∀ tier ∈ t.tiers, 0 ≤ tier.rate) (hdrops : t.NeverDrops)
    (hcash : 0 ≤ c.tickCash) (p : PriceTicks) (q : QtyLots) :
    0 ≤ t.maintenance c p q ∧
      t.maintenance c p (-q) = t.maintenance c p q ∧
      (∀ p', p ≤ p' → t.maintenance c p q ≤ t.maintenance c p' q) ∧
      ∀ q', |q.toInt| ≤ |q'.toInt| →
        (0 ≤ p → t.maintenance c p q ≤ t.maintenance c p q') ∧
        (p ≤ 0 → t.maintenance c p q' ≤ t.maintenance c p q) := by
  refine ⟨maintenance_nonneg t c p q, ?_, ?_, ?_⟩
  · unfold maintenance
    rw [c.notional_congr p (Contract.abs_toInt_neg q)]
  · intro p' hp'
    rw [Int64.le_iff_toInt_le, maintenance_toInt, maintenance_toInt]
    exact t.demand_mono hrates hdrops (c.notional_mono_price hcash hp' q)
  · intro q' hq'
    constructor
    · intro hp
      rw [Int64.le_iff_toInt_le, maintenance_toInt, maintenance_toInt]
      exact t.demand_mono hrates hdrops (c.notional_mono_qty hcash hp hq')
    · intro hp
      rw [Int64.le_iff_toInt_le, maintenance_toInt, maintenance_toInt]
      exact t.demand_mono hrates hdrops (c.notional_anti_qty hcash hp hq')

/-- Well behaved are the brackets the examples use. -/
theorem maintenance_well_behaved_btcusdt :
    let t := exampleBtcusdt
    0 ≤ t.maintenance ⟨1000000⟩ 5000000 3 ∧
      t.maintenance ⟨1000000⟩ 5000000 (-3) = t.maintenance ⟨1000000⟩ 5000000 3 ∧
      (∀ p', 5000000 ≤ p' → t.maintenance ⟨1000000⟩ 5000000 3 ≤ t.maintenance ⟨1000000⟩ p' 3) ∧
      ∀ q' : QtyLots, |(3 : QtyLots).toInt| ≤ |q'.toInt| →
        (0 ≤ (5000000 : PriceTicks) →
          t.maintenance ⟨1000000⟩ 5000000 3 ≤ t.maintenance ⟨1000000⟩ 5000000 q') ∧
        ((5000000 : PriceTicks) ≤ 0 →
          t.maintenance ⟨1000000⟩ 5000000 q' ≤ t.maintenance ⟨1000000⟩ 5000000 3) :=
  maintenance_well_behaved exampleBtcusdt ⟨1000000⟩ (by decide) (by unfold NeverDrops; decide)
    (by decide) 5000000 3

/-- The rates do not fall from one bracket to the next. -/
def RatesRise (t : TierTable) : Prop := t.tiers.IsChain fun lo hi => lo.rate ≤ hi.rate

/-- A table of one bracket. -/
def single (rate : Ratio) (amount : Cash) : TierTable where
  tiers := [⟨Int64.maxValue, rate, amount⟩]
  nonempty := List.cons_ne_nil _ _
  ordered := List.isChain_singleton _

/-- One bracket has no neighbour to rise from or drop to. -/
theorem single_in_order (rate : Ratio) (amount : Cash) :
    (single rate amount).RatesRise ∧ (single rate amount).NeverDrops :=
  ⟨List.isChain_singleton _, List.isChain_singleton _⟩

/-- **Not well behaved** is the requirement under a negative rate, at a negative tick value, or
in the size at a price below zero, though no rate falls and no bound drops the requirement. -/
theorem maintenance_not_well_behaved :
    ((single (-10000000) (-100)).RatesRise ∧ (single (-10000000) (-100)).NeverDrops ∧
      (single (-10000000) (-100)).maintenance ⟨1⟩ 5000 1 <
        (single (-10000000) (-100)).maintenance ⟨1⟩ 0 1) ∧
    ((single 10000000 (-100)).RatesRise ∧ (single 10000000 (-100)).NeverDrops ∧
      (single 10000000 (-100)).maintenance ⟨-1⟩ 5000 1 <
        (single 10000000 (-100)).maintenance ⟨-1⟩ 0 1) ∧
    ((single 10000000 (-100)).RatesRise ∧ (single 10000000 (-100)).NeverDrops ∧
      (single 10000000 (-100)).maintenance ⟨1⟩ (-1000) 5 <
        (single 10000000 (-100)).maintenance ⟨1⟩ (-1000) 1) := by
  refine ⟨⟨?_, ?_, ?_⟩, ⟨?_, ?_, ?_⟩, ?_, ?_, ?_⟩
  · exact (single_in_order _ _).1
  · exact (single_in_order _ _).2
  · decide
  · exact (single_in_order _ _).1
  · exact (single_in_order _ _).2
  · decide
  · exact (single_in_order _ _).1
  · exact (single_in_order _ _).2
  · decide

end TierTable
