/-
# Fixed-point money, identifiers and orders (`oq-types`)

Prices count ticks, quantities count lots, cash counts `10^-8` of the quote
currency; each is a signed 64-bit integer.  Accumulating operations saturate.
Quantities that pass through `i128` in the source are plain integers here,
clamped where the source saturates.

`Int64` is Lean's own 64-bit integer.  Its `+`, `-` and `*` wrap, where the
source's plain operators stop the process (`overflow-checks = true`): a run of
the source is a run of the model in which nothing wrapped.
-/
import OpenQuanter.Logged

/-! ## Scalars -/

/-- A price, counted in instrument ticks. -/
abbrev PriceTicks := Int64

/-- A signed quantity, counted in instrument lots. -/
abbrev QtyLots := Int64

/-- Money, in units of `10^-8` of the quote currency. -/
abbrev Cash := Int64

/-- A dimensionless ratio in parts per billion. -/
abbrev Ratio := Int64

/-- Nanoseconds since the Unix epoch. -/
abbrev Nanos := Int64

abbrev InstrumentId := UInt32
abbrev OrderId := UInt64
abbrev TradeId := UInt64

/-- Parts per billion, the scale `Ratio` counts in. -/
def ratioScale : Int := 1000000000

/-- Units per whole unit of quote currency, the scale `Cash` counts in. -/
def cashScale : Int := 100000000

/-- What went wrong while the account was being kept.  The first three are
saturations, told apart by what saturated; the last is a panic of the source. -/
inductive Fault
  | cash
  | wide
  | lots
  | panic
  deriving DecidableEq, Repr

/-- A computation on the account's books, with its fault log. -/
abbrev Books := Logged Fault

/-- `i64::saturating_abs`. -/
def satAbs (q : Int64) : Int64 := Int64.ofIntClamp |q.toInt|

/-- `i64::saturating_add`. -/
def satAdd (a b : Int64) : Int64 := Int64.ofIntClamp (a.toInt + b.toInt)

/-- `i64::saturating_sub`. -/
def satSub (a b : Int64) : Int64 := Int64.ofIntClamp (a.toInt - b.toInt)

/-- `i64::saturating_mul`. -/
def satMul (a b : Int64) : Int64 := Int64.ofIntClamp (a.toInt * b.toInt)

/-- Saturation at the ends of `i128`. -/
def satWide (v : Int) : Int := max (-2 ^ 127) (min v (2 ^ 127 - 1))

/-- Whether an integer is an `i64`. -/
def FitsI64 (v : Int) : Prop := -2 ^ 63 ≤ v ∧ v < 2 ^ 63

instance (v : Int) : Decidable (FitsI64 v) :=
  inferInstanceAs (Decidable (_ ∧ _))

/-- Whether an integer is an `i128`. -/
def FitsI128 (v : Int) : Prop := -2 ^ 127 ≤ v ∧ v < 2 ^ 127

instance (v : Int) : Decidable (FitsI128 v) :=
  inferInstanceAs (Decidable (_ ∧ _))

/-- Clamping, as arithmetic on integers. -/
theorem toInt_clamp (v : Int) : (Int64.ofIntClamp v).toInt = max (-2 ^ 63)
    (min v (2 ^ 63 - 1)) := by
  have hmin := Int64.toInt_minValue
  have hmax := Int64.toInt_maxValue
  by_cases hlow : Int64.minValue.toInt ≤ v
  · by_cases hhigh : v ≤ Int64.maxValue.toInt
    · rw [Int64.toInt_ofIntClamp hlow hhigh, min_eq_left (hmax ▸ hhigh), max_eq_right (hmin ▸ hlow)]
    · rw [Int64.ofIntClamp, dif_pos hlow, dif_neg hhigh, hmax,
        min_eq_right (Int.le_of_lt (not_le.mp (hmax ▸ hhigh)))]
      rfl
  · have hbelow : v < -2 ^ 63 := not_le.mp (hmin ▸ hlow)
    rw [Int64.ofIntClamp, dif_neg hlow, hmin, min_eq_left (by omega), max_eq_left hbelow.le]

theorem toInt_ofIntClamp_of_fits {v : Int} (h : FitsI64 v) : (Int64.ofIntClamp v).toInt = v := by
  unfold FitsI64 at h
  rw [toInt_clamp]
  omega

/-- Clamping keeps a positive number positive. -/
theorem toInt_ofIntClamp_pos {v : Int} (h : 0 < v) : 0 < (Int64.ofIntClamp v).toInt := by
  rw [toInt_clamp]
  omega

theorem satWide_of_fits {v : Int} (h : FitsI128 v) : satWide v = v := by
  unfold satWide
  obtain ⟨h₁, h₂⟩ := h
  omega

theorem fitsI64_toInt (q : Int64) : FitsI64 q.toInt :=
  ⟨Int64.le_toInt q, Int64.toInt_lt q⟩

/-! ## Cash -/

namespace Cash

/-- Cash from a whole number of quote-currency units. -/
def fromUnits (units : Int64) : Cash := Int64.ofIntClamp (units.toInt * cashScale)

/-- Saturating addition. -/
def add (a b : Cash) : Cash := Int64.ofIntClamp (a.toInt + b.toInt)

/-- Saturating subtraction. -/
def sub (a b : Cash) : Cash := Int64.ofIntClamp (a.toInt - b.toInt)

/-- Saturating negation. -/
def neg (a : Cash) : Cash := Int64.ofIntClamp (-a.toInt)

/-- This amount scaled by a ratio, truncated toward zero and saturated. -/
def scaled (a : Cash) (ratio : Ratio) : Cash :=
  Int64.ofIntClamp ((a.toInt * ratio.toInt).tdiv ratioScale)

@[simp] theorem add_zero (a : Cash) : add a 0 = a := by
  simp [add]

@[simp] theorem zero_add (a : Cash) : add 0 a = a := by
  simp [add]

end Cash

/-! ## The same operations with their saturation logged -/

namespace Books

/-- `Cash::add`, logging a saturation. -/
def add (a b : Cash) : Books Cash :=
  Logged.note .cash (FitsI64 (a.toInt + b.toInt)) (Cash.add a b)

/-- `Cash::neg`, logging a saturation. -/
def neg (a : Cash) : Books Cash :=
  Logged.note .cash (FitsI64 (-a.toInt)) (Cash.neg a)

@[simp] theorem val_add (a b : Cash) : (add a b).val = Cash.add a b := rfl

@[simp] theorem val_neg (a : Cash) : (neg a).val = Cash.neg a := rfl

/-- An addition that did not saturate is exact. -/
theorem toInt_add_of_free {a b : Cash} (h : (add a b).Free .cash) :
    (Cash.add a b).toInt = a.toInt + b.toInt := by
  rw [add, Logged.free_note_self] at h
  exact toInt_ofIntClamp_of_fits h

end Books

/-! ## Sides, clocks and fills -/

/-- Which way an order or a position points. -/
inductive Side
  | buy
  | sell
  deriving DecidableEq, Repr

/-- `+1` for buys, `-1` for sells. -/
def Side.sign : Side → Int64
  | .buy => 1
  | .sell => -1

/-- Whether an execution added liquidity or removed it. -/
inductive Liquidity
  | maker
  | taker
  deriving DecidableEq, Repr

/-- Whether an order opens exposure or reduces it. -/
inductive Offset
  | opening
  | closing
  deriving DecidableEq, Repr

/-- What a fill paid, and who said so. -/
inductive Fee
  | reported (cash : Cash)
  | unreadable
  | unsaid
  deriving DecidableEq, Repr

/-- An exchange timestamp paired with the local receipt timestamp. -/
structure Stamp where
  exch : Nanos
  local_ : Nanos
  deriving DecidableEq, Repr

/-- One execution. -/
structure Fill where
  stamp : Stamp
  instrument : InstrumentId
  order : OrderId
  trade : TradeId
  side : Side
  offset : Offset
  price : PriceTicks
  qty : QtyLots
  liquidity : Liquidity
  deriving DecidableEq, Repr

/-- Signed position change a fill causes. -/
def Fill.positionDelta (f : Fill) : QtyLots := f.qty * f.side.sign

/-! ## Orders -/

/-- How long an order rests before it is withdrawn. -/
inductive TimeInForce
  | goodTilCancel
  | immediateOrCancel
  | fillOrKill
  deriving DecidableEq, Repr

/-- Limit or market. -/
inductive OrderKind
  | limit (price : PriceTicks)
  | market
  deriving DecidableEq, Repr

/-- Resting price, or `none` for market orders. -/
def OrderKind.limitPrice : OrderKind → Option PriceTicks
  | .limit price => some price
  | .market => none

/-- An order.  `qty` is the original quantity and never changes; `filled` grows. -/
structure Order where
  id : OrderId
  side : Side
  kind : OrderKind
  qty : QtyLots
  filled : QtyLots
  tif : TimeInForce
  placed : Stamp
  offset : Offset
  deriving DecidableEq, Repr

/-- The two states an order can be in while it is on the book. -/
inductive RestState
  | live
  | partiallyFilled
  deriving DecidableEq, Repr

/-- An order that is still on the book: part of it, possibly none, has executed
and something is left.  A terminal order is not a `Working`. -/
structure Working where
  state : RestState
  order : Order
  filled_nonneg : 0 ≤ order.filled
  filled_lt : order.filled < order.qty
  deriving DecidableEq

/-- Applying a fill failed. -/
inductive FillError
  | nonPositive
  | overfill (remaining attempted : QtyLots)
  deriving DecidableEq, Repr

/-- The outcome of applying a fill to a resting order: it still rests, or it is
done and leaves. -/
inductive FillOutcome
  | partially (order : Working)
  | complete (order : Order)

/-- A partial fill stays on the book; a complete fill leaves it. -/
def FillOutcome.stillWorking : FillOutcome → Option Working
  | .partially w => some w
  | .complete _ => none

namespace Working

variable (w : Working)

def id : OrderId := w.order.id
def side : Side := w.order.side
def kind : OrderKind := w.order.kind
def offset : Offset := w.order.offset
def placed : Stamp := w.order.placed
def price : Option PriceTicks := w.order.kind.limitPrice

/-- Quantity still outstanding. -/
def remaining : QtyLots := w.order.qty - w.order.filled

/-- A resting order has something left. -/
theorem remaining_pos : 0 < w.remaining := by
  have h₁ := w.filled_nonneg
  have h₂ := w.filled_lt
  unfold remaining
  grind

/-- Execute `qty`, yielding a still-working order or a completed one. -/
def fill (qty : QtyLots) : Except FillError FillOutcome :=
  if h₀ : qty ≤ 0 then .error .nonPositive
  else if h₁ : w.remaining < qty then .error (.overfill w.remaining qty)
  else if h₂ : w.order.filled + qty = w.order.qty then
    .ok (.complete { w.order with filled := w.order.filled + qty })
  else
    .ok (.partially
      { state := .partiallyFilled
        order := { w.order with filled := w.order.filled + qty }
        filled_nonneg := by
          have h₃ := w.filled_nonneg
          have h₄ := w.filled_lt
          simp only [remaining] at h₁
          grind
        filled_lt := by
          have h₃ := w.filled_nonneg
          have h₄ := w.filled_lt
          simp only [remaining] at h₁
          grind })

/-- Executing all that is left completes the order. -/
theorem fill_remaining :
    w.fill w.remaining = .ok (.complete { w.order with filled := w.order.qty }) := by
  have hpos := w.remaining_pos
  have hsum : w.order.filled + w.remaining = w.order.qty := by
    unfold remaining
    grind
  unfold fill
  rw [dif_neg (by grind), dif_neg (by grind), dif_pos hsum, hsum]

end Working

/-- `limit_order` and `market_order`: a live order of positive quantity that
rests until cancelled.  The source's `expect` on the quantity is `hqty`. -/
def restingOrder (id : OrderId) (side : Side) (kind : OrderKind) (qty : QtyLots) (stamp : Stamp)
    (offset : Offset) (hqty : 0 < qty) : Working where
  state := .live
  order :=
    { id := id, side := side, kind := kind, qty := qty, filled := 0, tif := .goodTilCancel,
      placed := stamp, offset := offset }
  filled_nonneg := Int64.le_refl 0
  filled_lt := hqty

def limitOrder (id : OrderId) (side : Side) (price : PriceTicks) (qty : QtyLots) (stamp : Stamp)
    (offset : Offset) (hqty : 0 < qty) : Working :=
  restingOrder id side (.limit price) qty stamp offset hqty

def marketOrder (id : OrderId) (side : Side) (qty : QtyLots) (stamp : Stamp)
    (offset : Offset) (hqty : 0 < qty) : Working :=
  restingOrder id side .market qty stamp offset hqty

theorem one_lot : (0 : QtyLots) < 1 := by decide

theorem two_lots : (0 : QtyLots) < 2 := by decide

theorem five_lots : (0 : QtyLots) < 5 := by decide
