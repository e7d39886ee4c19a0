/-
# One instrument's position (`oq-core/src/cost.rs` and the `Holding` of `kernel.rs`)

A holding carries two legs.  Each leg has a signed size, an average entry price
rounded to ticks, and the exact quote cost it was entered at; the cost is what
profit is computed from, so that nothing is lost to the rounding of the entry.
-/
import OpenQuanter.Margin
import OpenQuanter.Matcher

/-! ## Wide arithmetic with its saturation logged -/

namespace Books

/-- A saturating `i128` result. -/
def wide (v : Int) : Books Int := Logged.note .wide (FitsI128 v) (satWide v)

/-- A wide amount narrowed to the account's cash. -/
def narrow (v : Int) : Books Cash := Logged.note .wide (FitsI64 v) (Int64.ofIntClamp v)

/-- `Contract::notional_wide`, logging a saturation. -/
def notionalWide (c : Contract) (price : PriceTicks) (qty : QtyLots) : Books Int :=
  Logged.note .wide (FitsI128 (c.notionalExact price qty)) (c.notionalWide price qty)

@[simp] theorem val_wide (v : Int) : (wide v).val = satWide v := rfl

@[simp] theorem val_narrow (v : Int) : (narrow v).val = Int64.ofIntClamp v := rfl

@[simp] theorem val_notionalWide (c : Contract) (price : PriceTicks) (qty : QtyLots) :
    (notionalWide c price qty).val = c.notionalWide price qty := rfl

end Books

/-! ## Entry cost -/

/-- The remaining quote cost of a leg, with the size and entry it was set at. -/
structure EntryCost where
  qty : QtyLots
  entry : PriceTicks
  amount : Int
  deriving DecidableEq, Repr

namespace EntryCost

/-- `EntryCost::default`. -/
def zero : EntryCost := ⟨0, 0, 0⟩

/-- The cost of a leg: what fills taught, or the reported entry when the leg was
seeded from outside. -/
def value (c : EntryCost) (contract : Contract) (qty : QtyLots) (entry : PriceTicks) : Int :=
  if qty = 0 then 0
  else if qty = c.qty ∧ entry = c.entry then c.amount
  else contract.notionalWide entry qty

/-- A flat leg costs nothing. -/
@[simp] theorem value_zero (c : EntryCost) (contract : Contract) (entry : PriceTicks) :
    c.value contract 0 entry = 0 := rfl

/-- A cost read back at the size and entry it was set at. -/
theorem value_of_set (contract : Contract) {qty : QtyLots} (hqty : qty ≠ 0) (entry : PriceTicks)
    (amount : Int) : (⟨qty, entry, amount⟩ : EntryCost).value contract qty entry = amount := by
  unfold value
  rw [if_neg hqty, if_pos ⟨rfl, rfl⟩]

end EntryCost

/-- `cost::close`: allocate a close without rounding the average entry to price
ticks.  Returns the cost left and the profit. -/
def closeCost (cost : Int) (held : QtyLots) (closing : Int64) (exit : Int) :
    Books (Int × Cash) := do
  let size := (satAbs held).toInt
  let qty := closing.toInt
  let remainder := cost.tmod size * qty
  let whole ← Books.wide (cost.tdiv size * qty)
  let allocated ← Books.wide (whole + remainder.tdiv size)
  let sign : Int := if 0 < held then 1 else -1
  let gain ← Books.wide (exit - allocated)
  let pnl ← Books.wide (gain * sign)
  -- the omitted positive fraction of cost shifts a positive long profit down,
  -- or a negative short loss up, when truncated toward zero
  let pnl :=
    if remainder.tmod size ≠ 0 ∧ ((0 < pnl ∧ 0 < sign) ∨ (pnl < 0 ∧ sign < 0)) then pnl - sign
    else pnl
  let returned ← Books.wide (pnl * sign)
  let consumed ← Books.wide (exit - returned)
  let left ← if closing = satAbs held then pure 0 else Books.wide (cost - consumed)
  let cash ← Books.narrow pnl
  pure (left, cash)

/-! ## Holdings -/

/-- One instrument's position, and everything that prices it. -/
structure Holding where
  instrument : InstrumentId
  engine : Matcher
  contract : Contract
  table : TierTable
  /-- Signed position; under hedge accounting the long leg. -/
  qty : QtyLots
  entry : PriceTicks
  /-- The short leg under hedge accounting; zero under one-way netting. -/
  shortQty : QtyLots
  shortEntry : PriceTicks
  mark : PriceTicks
  longCost : EntryCost
  shortCost : EntryCost

/-- The integer sign of an `i64`. -/
def signum (q : Int64) : Int64 := if 0 < q then 1 else if q = 0 then 0 else -1

namespace Holding

/-- A fresh, flat holding matched by L0. -/
def new (instrument : InstrumentId) (contract : Contract) (table : TierTable) : Holding where
  instrument := instrument
  engine := .l0 (L0Engine.new instrument)
  contract := contract
  table := table
  qty := 0
  entry := 0
  shortQty := 0
  shortEntry := 0
  mark := 0
  longCost := EntryCost.zero
  shortCost := EntryCost.zero

variable (h : Holding)

/-- Whether both legs are empty. -/
def isFlat : Bool := h.qty = 0 && h.shortQty = 0

/-- Remaining entry cost in quote cash units, before display rounding. -/
def entryCost : Int := h.longCost.value h.contract h.qty h.entry

def shortEntryCost : Int := h.shortCost.value h.contract h.shortQty h.shortEntry

/-- Maintenance margin at `mark`, summed across both legs. -/
def maintenanceAt (mark : PriceTicks) : Cash :=
  let long := if h.qty = 0 then 0 else h.table.maintenance h.contract mark h.qty
  let short := if h.shortQty = 0 then 0 else h.table.maintenance h.contract mark h.shortQty
  Cash.add long short

/-- Maintenance margin at the current mark. -/
def maintenance : Cash := h.maintenanceAt h.mark

/-- Unrealized profit on both legs at `mark`. -/
def unrealizedAt (mark : PriceTicks) : Cash :=
  Cash.add (h.contract.unrealizedFromCost h.entryCost mark h.qty)
    (h.contract.unrealizedFromCost h.shortEntryCost mark h.shortQty)

/-- Unrealized profit on both legs at the current mark. -/
def unrealized : Cash := h.unrealizedAt h.mark

/-- Write one leg: its size, its entry and its cost. -/
def setLeg (short : Bool) (qty : QtyLots) (entry : PriceTicks) (cost : Int) : Holding :=
  if short then
    { h with shortQty := qty, shortEntry := entry, shortCost := ⟨qty, entry, cost⟩ }
  else { h with qty := qty, entry := entry, longCost := ⟨qty, entry, cost⟩ }

/-- The size, entry and cost of one leg. -/
def leg (short : Bool) : QtyLots × PriceTicks × Int :=
  if short then (h.shortQty, h.shortEntry, h.shortEntryCost) else (h.qty, h.entry, h.entryCost)

/-- Grow a leg by `qty` at `price`. -/
def openLeg (short : Bool) (qty : QtyLots) (price : PriceTicks) (sign : Int64) : Books Holding :=
  if qty = 0 then pure h
  else do
    let (held, _, cost) := h.leg short
    let sum := (satAbs held).toInt + qty.toInt
    let size ← Logged.note .lots (FitsI64 sum) (Int64.ofIntClamp sum)
    let notional ← Books.notionalWide h.contract price qty
    let value ← Books.wide (cost + notional)
    let denominator := size.toInt * h.contract.tickCash.toInt
    let entry := if 0 < denominator then Int64.ofIntClamp (value.tdiv denominator) else price
    pure (h.setLeg short (sign * size) entry value)

/-- Shrink a leg by at most what it holds, returning the profit. -/
def closeLeg (short : Bool) (qty : QtyLots) (price : PriceTicks) : Books (Holding × Cash) :=
  let (held, entry, cost) := h.leg short
  if held = 0 then pure (h, 0)
  else do
    let closing := min qty (satAbs held)
    let exit ← Books.notionalWide h.contract price closing
    let (value, pnl) ← closeCost cost held closing exit
    let left := held - closing * (if 0 < held then 1 else -1)
    let entry := if left = 0 then 0 else entry
    pure (h.setLeg short left entry value, pnl)

/-- A liquidated holding: both legs gone and every order withdrawn. -/
def closedOut : Holding :=
  { h with
    qty := 0
    entry := 0
    shortQty := 0
    shortEntry := 0
    longCost := EntryCost.zero
    shortCost := EntryCost.zero
    engine := h.engine.cancelAll.1 }

end Holding
