/-
# Margin, liquidation and funding (`oq-margin`)

The valuations a position is judged by: notional and unrealized profit from a
contract, the tiered maintenance requirement, the liquidation test and the
amount one funding settlement moves.  All of them are pure and all of them
saturate, so they are plain functions here; saturation is logged where the
account's books are written, not where they are read.
-/
import OpenQuanter.Fixed

/-! ## Contracts -/

/-- Cash units per (one price tick x one quantity lot). -/
structure Contract where
  tickCash : Int64
  deriving DecidableEq, Repr

namespace Contract

/-- The notional before any saturation: price times size times multiplier. -/
def notionalExact (c : Contract) (price : PriceTicks) (qty : QtyLots) : Int :=
  price.toInt * (satAbs qty).toInt * c.tickCash.toInt

/-- Quote cost without narrowing to the account's cash accumulator. -/
def notionalWide (c : Contract) (price : PriceTicks) (qty : QtyLots) : Int :=
  satWide (satWide (price.toInt * (satAbs qty).toInt) * c.tickCash.toInt)

/-- Notional value of `qty` at `price`; absolute, so a short's is positive. -/
def notional (c : Contract) (price : PriceTicks) (qty : QtyLots) : Cash :=
  Int64.ofIntClamp (c.notionalWide price qty)

/-- Profit using the remaining quote cost, not the displayed entry tick. -/
def unrealizedFromCost (c : Contract) (cost : Int) (mark : PriceTicks) (qty : QtyLots) : Cash :=
  if qty = 0 then 0
  else
    let delta := satWide (c.notionalWide mark qty - cost)
    Int64.ofIntClamp (if 0 < qty then delta else satWide (-delta))

/-- Signed profit of a position marked from `entry` to `mark`. -/
def unrealized (c : Contract) (entry mark : PriceTicks) (qty : QtyLots) : Cash :=
  Int64.ofIntClamp ((mark.toInt - entry.toInt) * qty.toInt * c.tickCash.toInt)

/-- A flat leg has no profit, whatever it cost. -/
@[simp] theorem unrealizedFromCost_zero (c : Contract) (cost : Int) (mark : PriceTicks) :
    c.unrealizedFromCost cost mark 0 = 0 := rfl

end Contract

/-! ## Maintenance brackets -/

/-- A ratio from parts per million, saturating. -/
def Ratio.fromPpm (ppm : Int64) : Ratio := satMul ppm 1000

/-- One maintenance-margin bracket. -/
structure MarginTier where
  maxNotional : Cash
  rate : Ratio
  amount : Cash
  deriving DecidableEq, Repr

/-- A venue's maintenance table: at least one bracket, ordered by increasing
notional.  `TierTable::new` refuses anything else. -/
structure TierTable where
  tiers : List MarginTier
  nonempty : tiers ≠ []
  ordered : tiers.IsChain (fun a b => a.maxNotional < b.maxNotional)

namespace TierTable

/-- `TierTable::new`: a table from brackets, refused when they are empty or out
of order. -/
def new (tiers : List MarginTier) : Option TierTable :=
  if hne : tiers ≠ [] then
    if hord : tiers.IsChain (fun a b => a.maxNotional < b.maxNotional) then
      some ⟨tiers, hne, hord⟩
    else none
  else none

/-- The bracket a position of this notional falls into; the last one catches
everything above the table. -/
def tierFor (t : TierTable) (notional : Cash) : MarginTier :=
  (t.tiers.find? (fun tier => notional ≤ tier.maxNotional)).getD (t.tiers.getLast t.nonempty)

/-- Maintenance requirement for `qty` at `price`, never negative. -/
def maintenance (t : TierTable) (contract : Contract) (price : PriceTicks) (qty : QtyLots) :
    Cash :=
  let notional := contract.notional price qty
  let tier := t.tierFor notional
  let required := Cash.sub (Cash.scaled notional tier.rate) tier.amount
  if required < 0 then 0 else required

/-- The brackets the examples and the ledger use (`example_btcusdt`). -/
def exampleBtcusdt : TierTable where
  tiers :=
    [⟨Cash.fromUnits 50000, Ratio.fromPpm 4000, 0⟩,
      ⟨Cash.fromUnits 500000, Ratio.fromPpm 5000, Cash.fromUnits 50⟩,
      ⟨Cash.fromUnits 1000000, Ratio.fromPpm 10000, Cash.fromUnits 2550⟩,
      ⟨Cash.fromUnits 10000000, Ratio.fromPpm 25000, Cash.fromUnits 17550⟩,
      ⟨Int64.maxValue, Ratio.fromPpm 50000, Cash.fromUnits 267550⟩]
  nonempty := List.cons_ne_nil _ _
  ordered := by decide

end TierTable

/-! ## The margined position -/

/-- A position carrying margin, marked against a tier table. -/
structure MarginedPosition where
  contract : Contract
  entry : PriceTicks
  qty : QtyLots
  margin : Cash
  entryCost : Option Int
  deriving DecidableEq, Repr

/-- What the mark price implies for a position. -/
inductive LiquidationOutcome
  | flat
  | safe (equity maintenance : Cash) (distanceTicks : Option Int64)
  | liquidatable (equity maintenance : Cash)
  deriving DecidableEq, Repr

namespace MarginedPosition

/-- Unrealized profit at `mark`. -/
def unrealized (p : MarginedPosition) (mark : PriceTicks) : Cash :=
  match p.entryCost with
  | some cost => p.contract.unrealizedFromCost cost mark p.qty
  | none => p.contract.unrealized p.entry mark p.qty

/-- Margin plus unrealized profit. -/
def equity (p : MarginedPosition) (mark : PriceTicks) : Cash :=
  Cash.add p.margin (p.unrealized mark)

/-- Maintenance requirement at `mark`. -/
def maintenance (p : MarginedPosition) (table : TierTable) (mark : PriceTicks) : Cash :=
  table.maintenance p.contract mark p.qty

/-- The liquidation price implied by the bracket that applies at `mark`: floor
for a long, ceiling for a short, `none` where no positive price solves it. -/
def liquidationPriceAt (p : MarginedPosition) (table : TierTable) (mark : PriceTicks) :
    Option PriceTicks :=
  if p.qty = 0 then none
  else
    let tier := table.tierFor (p.contract.notional mark p.qty)
    let k := p.contract.tickCash.toInt
    let size := (satAbs p.qty).toInt
    let entryCost := p.entryCost.getD (p.contract.notionalWide p.entry p.qty)
    let margin := p.margin.toInt
    let amount := tier.amount.toInt
    let rate := tier.rate.toInt
    let num :=
      if 0 < p.qty then (entryCost - margin - amount) * ratioScale
      else (entryCost + margin + amount) * ratioScale
    let den :=
      if 0 < p.qty then size * k * (ratioScale - rate) else size * k * (ratioScale + rate)
    if den ≤ 0 then none
    else
      let ticks :=
        if 0 < p.qty then num / den else num / den + (if num % den ≠ 0 then 1 else 0)
      if ticks ≤ 0 then if 0 < p.qty then none else some 0
      else some (Int64.ofInt ticks)

/-- The liquidation price with the bracket resolved at entry. -/
def liquidationPrice (p : MarginedPosition) (table : TierTable) : Option PriceTicks :=
  if p.qty = 0 then none else p.liquidationPriceAt table p.entry

/-- Assess the position at `mark`. -/
def assess (p : MarginedPosition) (table : TierTable) (mark : PriceTicks) : LiquidationOutcome :=
  if p.qty = 0 then .flat
  else
    let equity := p.equity mark
    let maintenance := p.maintenance table mark
    if equity ≤ maintenance then .liquidatable equity maintenance
    else
      .safe equity maintenance
        ((p.liquidationPriceAt table mark).map (fun liq => (mark - liq).abs))

/-- Whether the venue would close this position at `mark`. -/
def isLiquidatable (p : MarginedPosition) (table : TierTable) (mark : PriceTicks) : Bool :=
  match p.assess table mark with
  | .liquidatable _ _ => true
  | _ => false

/-- The liquidation test is the comparison of equity with the requirement. -/
theorem isLiquidatable_iff (p : MarginedPosition) (table : TierTable) (mark : PriceTicks) :
    p.isLiquidatable table mark = true ↔
      p.qty ≠ 0 ∧ p.equity mark ≤ p.maintenance table mark := by
  unfold isLiquidatable assess
  by_cases hflat : p.qty = 0
  · simp [hflat]
  · by_cases hle : p.equity mark ≤ p.maintenance table mark
    · simp [hflat, hle]
    · simp [hflat, hle]

end MarginedPosition

/-! ## Funding -/

/-- A funding rate in effect at a settlement instant. -/
structure FundingRate where
  at_ : Nanos
  rate : Ratio
  mark : PriceTicks
  deriving DecidableEq, Repr

/-- `FundingRate::settle`: what the settlement does to the collateral behind
`qty`.  A long pays a positive rate, a short receives it. -/
def FundingRate.settle (r : FundingRate) (contract : Contract) (qty : QtyLots) : Cash :=
  let magnitude := Cash.scaled (contract.notional r.mark qty) r.rate
  if 0 ≤ qty then Cash.neg magnitude else magnitude
