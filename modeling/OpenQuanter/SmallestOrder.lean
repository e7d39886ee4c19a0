/-
# The smallest order a contract accepts (`Instrument::smallest_allowed`)

A venue takes orders on a grid and above a floor.  `smallestAllowed` counts the fewest
lots that are worth the floor and a tenth more, and does not look at the grid.  So it is
the smallest order allowed exactly if that number of lots is on the grid and its worth is
an amount of cash (`smallestAllowed_iff`).
-/
import OpenQuanter.Instrument
import OpenQuanter.Legs

namespace ListedInstrument

/-- A contract whose quantity counts contracts of a size. -/
def sized (priceScale qtyScale : UInt8) (contractSize : Int64) : ListedInstrument where
  priceScale := priceScale
  qtyScale := qtyScale
  contractSize := contractSize
  priceTick := 1
  qtyStep := 1
  minNotional := 0

/-- The same contract, restricted to a grid. -/
def withGrid (i : ListedInstrument) (priceTick qtyStep : Int64) : ListedInstrument :=
  { i with
    priceTick := if 0 < priceTick then priceTick else 1
    qtyStep := if 0 < qtyStep then qtyStep else 1 }

/-- The same contract, with the venue's order floor. -/
def withMinNotional (i : ListedInstrument) (minNotional : Cash) : ListedInstrument :=
  { i with minNotional := minNotional }

/-- Whether a quantity sits on this contract's grid. -/
def qtyOnGrid (i : ListedInstrument) (qty : QtyLots) : Bool :=
  qty.toInt.tmod i.qtyStep.toInt = 0

/-- The smallest quantity this contract will accept at this price. -/
def smallestAllowed (i : ListedInstrument) (price : PriceTicks) : QtyLots :=
  if i.minNotional ≤ 0 ∨ price ≤ 0 then 1
  else
    match i.tickCash with
    | none => 1
    | some tickCash =>
      let perLot := price.toInt * tickCash.toInt
      if perLot ≤ 0 then 1
      else
        let need := (i.minNotional.toInt * 11).tdiv 10
        let lots := (need + perLot - 1).tdiv perLot
        max (if FitsI64 lots then Int64.ofInt lots else 1) 1

/-! ## What it should be -/

/-- The floor and a tenth more. -/
def need (i : ListedInstrument) : Int := (i.minNotional.toInt * 11).tdiv 10

/-- Whether a quantity is worth the floor and a tenth more. -/
def Reaches (i : ListedInstrument) (price : PriceTicks) (qty : QtyLots) : Prop :=
  ∃ n, i.notional price qty = some n ∧ i.need ≤ n.toInt

/-- An order the contract accepts, and no smaller one that it does. -/
structure Smallest (i : ListedInstrument) (price : PriceTicks) (qty : QtyLots) : Prop where
  pos : 0 < qty
  onGrid : i.qtyOnGrid qty = true
  reaches : i.Reaches price qty
  least : ∀ q, 0 < q → q < qty → i.qtyOnGrid q = true → ¬ i.Reaches price q

/-- The fewest whole lots worth the floor and a tenth more, when a lot is worth `perLot`. -/
def fewestLots (i : ListedInstrument) (perLot : Int) : Int := max 1 ⌈(i.need : ℚ) / perLot⌉

end ListedInstrument

namespace ListedInstrument

variable {i : ListedInstrument} {price : PriceTicks} {tickCash : Int64}

/-- The ceiling of an exact quotient, by what it is below. -/
theorem ceil_div_le {a b z : Int} (hb : 0 < b) : ⌈(a : ℚ) / b⌉ ≤ z ↔ a ≤ z * b := by
  have hcast : (0 : ℚ) < b := Int.cast_pos.mpr hb
  rw [Int.ceil_le, div_le_iff₀ hcast]
  norm_cast

/-- The ceiling as the code computes it. -/
theorem tdiv_eq_ceil {a b : Int} (ha : 0 ≤ a) (hb : 0 < b) :
    (a + b - 1).tdiv b = ⌈(a : ℚ) / b⌉ := by
  have hle : ∀ z, (a + b - 1).tdiv b ≤ z ↔ ⌈(a : ℚ) / b⌉ ≤ z := by
    intro z
    rw [ceil_div_le hb, Int.tdiv_eq_ediv_of_nonneg (by omega), ← Int.lt_add_one_iff,
      Int.ediv_lt_iff_lt_mul hb, add_mul]
    omega
  exact le_antisymm ((hle _).mpr le_rfl) ((hle _).mp le_rfl)

/-- The fewest lots reach the floor, and no fewer do. -/
theorem fewestLots_le {perLot z : Int} (hperLot : 0 < perLot) (hz : 1 ≤ z) :
    i.fewestLots perLot ≤ z ↔ i.need ≤ z * perLot := by
  rw [fewestLots, max_le_iff, ceil_div_le hperLot]
  exact and_iff_right hz

theorem one_le_fewestLots (i : ListedInstrument) (perLot : Int) : 1 ≤ i.fewestLots perLot :=
  le_max_left _ _

section Priced

variable (htick : i.tickCash = some tickCash)

include htick

/-- Whether a positive quantity reaches the floor is a matter of its exact worth. -/
theorem reaches_iff {q : QtyLots} (hq : 0 < q) : i.Reaches price q ↔
    FitsI64 (q.toInt * (price.toInt * tickCash.toInt)) ∧
      i.need ≤ q.toInt * (price.toInt * tickCash.toInt) := by
  have hpos := lt_iff_toInt.mp hq
  have habs : (satAbs q).toInt = q.toInt := by
    have := Int64.toInt_lt q
    rw [toInt_satAbs, abs_of_pos hpos]
    omega
  have hworth : price.toInt * (satAbs q).toInt * tickCash.toInt
      = q.toInt * (price.toInt * tickCash.toInt) := by
    rw [habs]
    ring
  unfold Reaches
  simp only [Instrument.notional_eq_some, htick, Option.some_inj, exists_eq_left', hworth]
  constructor
  · rintro ⟨n, hn, hle⟩
    exact ⟨hn ▸ fitsI64_toInt n, hn ▸ hle⟩
  · rintro ⟨hfits, hle⟩
    have hn := Int64.toInt_ofInt_of_le hfits.1 hfits.2
    exact ⟨_, hn, hn.symm ▸ hle⟩

/-- **What the code counts**: the fewest lots, or one where 64 bits cannot say how many. -/
theorem smallestAllowed_eq (hprice : 0 < price) : i.smallestAllowed price =
    if FitsI64 (i.fewestLots (price.toInt * tickCash.toInt)) then
      Int64.ofInt (i.fewestLots (price.toInt * tickCash.toInt))
    else 1 := by
  have hperLot : 0 < price.toInt * tickCash.toInt :=
    mul_pos (lt_iff_toInt.mp hprice) (Instrument.tickCash_pos htick)
  unfold smallestAllowed
  by_cases hfloor : i.minNotional ≤ 0
  · -- without a floor one lot is enough
    have hneed : i.need ≤ 0 := by
      have hle := Int64.le_iff_toInt_le.mp hfloor
      rw [Int64.toInt_zero] at hle
      rw [need, ← neg_neg (i.minNotional.toInt * 11), Int.neg_tdiv]
      exact neg_nonpos.mpr (Int.tdiv_nonneg (by omega) (by norm_num))
    have hone : i.fewestLots (price.toInt * tickCash.toInt) = 1 :=
      le_antisymm ((fewestLots_le hperLot le_rfl).mpr (by omega)) (one_le_fewestLots _ _)
    rw [if_pos (Or.inl hfloor), hone]
    rfl
  · -- with one, the quotient the code rounds up is at least one lot
    have hmin : 0 < i.minNotional.toInt := lt_iff_toInt.mp (Int64.not_le.mp hfloor)
    have hneed : 1 ≤ i.need := by
      rw [need, Int.tdiv_eq_ediv_of_nonneg (by omega)]
      omega
    have hceil : i.fewestLots (price.toInt * tickCash.toInt)
        = (i.need + price.toInt * tickCash.toInt - 1).tdiv (price.toInt * tickCash.toInt) := by
      rw [tdiv_eq_ceil (by omega) hperLot, fewestLots, max_eq_right]
      by_contra hlt
      have hle : i.need ≤ 0 * (price.toInt * tickCash.toInt) :=
        (ceil_div_le hperLot).mp (Int.lt_add_one_iff.mp (not_le.mp hlt))
      omega
    rw [if_neg (not_or.mpr ⟨hfloor, Int64.not_le.mpr hprice⟩), htick]
    simp only
    rw [if_neg (not_le.mpr hperLot), ← need, ← hceil]
    have hfew := one_le_fewestLots i (price.toInt * tickCash.toInt)
    split_ifs with hfits
    · apply Int64.toInt_inj.mp
      rw [toInt_max, Int64.toInt_ofInt_of_le hfits.1 hfits.2]
      exact max_eq_left hfew
    · rfl

/-- **When what the code counts is the smallest order.** -/
theorem smallest_iff (hprice : 0 < price) : i.Smallest price (i.smallestAllowed price) ↔
    i.qtyStep.toInt ∣ i.fewestLots (price.toInt * tickCash.toInt) ∧
      FitsI64 (i.fewestLots (price.toInt * tickCash.toInt) * (price.toInt * tickCash.toInt)) := by
  have hperLot : 0 < price.toInt * tickCash.toInt :=
    mul_pos (lt_iff_toInt.mp hprice) (Instrument.tickCash_pos htick)
  have hgrid : ∀ q, i.qtyOnGrid q = true ↔ i.qtyStep.toInt ∣ q.toInt := by
    intro q
    rw [qtyOnGrid, decide_eq_true_eq, Int.dvd_iff_tmod_eq_zero]
  have hfew := one_le_fewestLots i (price.toInt * tickCash.toInt)
  have hleast := fun z hz => fewestLots_le (i := i) (z := z) hperLot hz
  have hcount := smallestAllowed_eq htick hprice
  generalize i.fewestLots (price.toInt * tickCash.toInt) = lots at hfew hleast hcount ⊢
  constructor
  · intro h
    by_cases hfits : FitsI64 lots
    · have hq : (i.smallestAllowed price).toInt = lots := by
        rw [hcount, if_pos hfits, Int64.toInt_ofInt_of_le hfits.1 hfits.2]
      obtain ⟨hworth, -⟩ := (reaches_iff htick h.pos).mp h.reaches
      rw [hq] at hworth
      exact ⟨hq ▸ (hgrid _).mp h.onGrid, hworth⟩
    · -- one lot is given for want of a number, and does not reach the floor
      exfalso
      have hreaches := h.reaches
      rw [hcount, if_neg hfits, reaches_iff htick (by decide)] at hreaches
      have hone : lots ≤ 1 := (hleast 1 le_rfl).mpr hreaches.2
      refine hfits ⟨by omega, by omega⟩
  · rintro ⟨hdvd, hworth⟩
    have hbelow : lots ≤ lots * (price.toInt * tickCash.toInt) :=
      le_mul_of_one_le_right (by omega) hperLot
    have hfits : FitsI64 lots := ⟨by omega, lt_of_le_of_lt hbelow hworth.2⟩
    have hq : (i.smallestAllowed price).toInt = lots := by
      rw [hcount, if_pos hfits, Int64.toInt_ofInt_of_le hfits.1 hfits.2]
    have hpos : 0 < i.smallestAllowed price := by
      rw [lt_iff_toInt, hq, Int64.toInt_zero]
      omega
    constructor
    · exact hpos
    · rw [hgrid, hq]
      exact hdvd
    · rw [reaches_iff htick hpos, hq]
      exact ⟨hworth, (hleast lots hfew).mp le_rfl⟩
    · -- fewer lots do not reach the floor, on the grid or off it
      intro q hq0 hless _ hreaches
      have hq1 : 1 ≤ q.toInt := lt_iff_toInt.mp hq0
      have hmore := (hleast q.toInt hq1).mpr ((reaches_iff htick hq0).mp hreaches).2
      have hless' := lt_iff_toInt.mp hless
      omega

end Priced

/-- **The smallest allowed order of a listed contract.** -/
theorem smallestAllowed_iff (priceScale qtyScale : UInt8) (contractSize priceTick qtyStep : Int64)
    (minNotional : Cash) {price : PriceTicks} {tickCash : Int64}
    (htick : (sized priceScale qtyScale contractSize).tickCash = some tickCash)
    (hprice : 0 < price) :
    let i := ((sized priceScale qtyScale contractSize).withGrid priceTick qtyStep).withMinNotional
      minNotional
    i.Smallest price (i.smallestAllowed price) ↔
      i.qtyStep.toInt ∣ i.fewestLots (price.toInt * tickCash.toInt) ∧
        FitsI64 (i.fewestLots (price.toInt * tickCash.toInt) * (price.toInt * tickCash.toInt)) :=
  smallest_iff htick hprice

/-- Prices of two decimals, sizes of four, no grid and a floor of 50. -/
theorem smallestAllowed_iff_btc :
    let i := ((sized 2 4 100000000).withGrid 1 1).withMinNotional 5000000000
    i.Smallest 7800000 (i.smallestAllowed 7800000) ↔
      i.qtyStep.toInt ∣ i.fewestLots ((7800000 : Int64).toInt * (100 : Int64).toInt) ∧
        FitsI64 (i.fewestLots ((7800000 : Int64).toInt * (100 : Int64).toInt) *
          ((7800000 : Int64).toInt * (100 : Int64).toInt)) :=
  smallestAllowed_iff 2 4 100000000 1 1 5000000000 (by decide) (by decide)

/-- The same contract with a step of ten lots: eight are given. -/
theorem smallestAllowed_off_grid :
    let i := ((sized 2 4 100000000).withGrid 1 10).withMinNotional 5000000000
    i.tickCash = some 100 ∧ i.smallestAllowed 7800000 = 8 ∧
      ¬ i.Smallest 7800000 (i.smallestAllowed 7800000) := by
  refine ⟨by decide, by decide, fun h => ?_⟩
  exact absurd h.onGrid (by decide)

end ListedInstrument
