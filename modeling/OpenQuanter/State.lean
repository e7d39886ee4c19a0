/-
# The account (`State` of `oq-core/src/kernel.rs`)

One balance shared by any number of holdings, with the totals a run reports:
realized profit, funding, fees and what was forfeited at liquidation.  Every
operation that writes a total is a computation in `Books`, so that a saturation
is in its log.
-/
import OpenQuanter.Balances
import OpenQuanter.Event
import OpenQuanter.Holding

/-- How the venue accounts for opposing exposure. -/
inductive PositionMode
  | oneWay
  | hedge
  deriving DecidableEq, Repr

/-- Who decides which orders trade. -/
inductive Matching
  | simulated
  | venue
  deriving DecidableEq, Repr

/-- What the venue charges per fill.  A maker rate may be negative. -/
structure Fees where
  maker : Ratio
  taker : Ratio
  deriving DecidableEq, Repr

def Fees.none : Fees := ⟨0, 0⟩

/-- The charge for a fill.  Positive is a cost. -/
def Fees.charge (f : Fees) (contract : Contract) (fill : Fill) : Cash :=
  let rate :=
    match fill.liquidity with
    | .maker => f.maker
    | .taker => f.taker
  Cash.scaled (contract.notional fill.price fill.qty) rate

/-- Account and market state.  An account always has a holding: `State::new`
makes one and none is ever removed. -/
structure State where
  holdings : List Holding
  nonempty : holdings ≠ []
  mode : PositionMode
  balances : Balances
  settlement : Currency
  realized : Cash
  funding : Cash
  fees : Cash
  feeSchedule : Fees
  feesCovered : Bool
  feesMissing : Bool
  now : Nanos
  enforceLiquidation : Bool
  matching : Matching
  forfeited : Cash

namespace State

/-! ## Building an account -/

def new (instrument : InstrumentId) (contract : Contract) (table : TierTable)
    (startingBalance : Cash) : State where
  holdings := [Holding.new instrument contract table]
  nonempty := List.cons_ne_nil _ _
  mode := .oneWay
  balances := Balances.of Currency.usdt startingBalance
  settlement := Currency.usdt
  realized := 0
  funding := 0
  fees := 0
  feeSchedule := Fees.none
  feesCovered := false
  feesMissing := false
  now := 0
  enforceLiquidation := true
  matching := .simulated
  forfeited := 0

variable (s : State)

/-- The same state with a fee schedule. -/
def withFees (fees : Fees) : State := { s with feeSchedule := fees, feesCovered := true }

/-- The same state with liquidation disabled. -/
def withoutLiquidation : State := { s with enforceLiquidation := false }

def withMode (mode : PositionMode) : State := { s with mode := mode }

/-- The same state matched by `matching`, a public field of the source. -/
def withMatching (matching : Matching) : State := { s with matching := matching }

/-- The same state with its clock moved. -/
def withNow (at_ : Nanos) : State := { s with now := at_ }

/-! ## Holdings -/

/-- The first holding. -/
def holding : Holding := s.holdings.head s.nonempty

/-- Where an instrument's holding sits. -/
def holdingIndex (instrument : InstrumentId) : Option Nat :=
  s.holdings.findIdx? (·.instrument = instrument)

/-- The holding at an index.  The source panics past the end; every index used
comes from `holdingIndex` or a loop over the holdings. -/
def holdingsAt (index : Nat) : Holding := s.holdings.getD index s.holding

/-- The holding for one instrument, if the account has one. -/
def holdingOf (instrument : InstrumentId) : Option Holding :=
  s.holdings.find? (·.instrument = instrument)

/-- Change the holding at an index. -/
def modifyAt (index : Nat) (f : Holding → Holding) : State :=
  { s with
    holdings := s.holdings.modify index f
    nonempty := by
      intro hnil
      have hlen := congrArg List.length hnil
      rw [List.length_modify] at hlen
      exact s.nonempty (List.eq_nil_of_length_eq_zero hlen) }

/-- Write the holding at an index. -/
def setAt (index : Nat) (h : Holding) : State := s.modifyAt index (fun _ => h)

/-- Take on another instrument; one already held is left as it is. -/
def openHolding (instrument : InstrumentId) (contract : Contract) (table : TierTable) : State :=
  if (s.holdingIndex instrument).isSome then s
  else
    { s with
      holdings := s.holdings ++ [Holding.new instrument contract table]
      nonempty := by simp }

/-- Match the first holding with a different engine.  The source asserts that it
is for the same instrument. -/
def matchingWith (m : Matcher) (_hm : m.instrument = s.holding.engine.instrument) : State :=
  s.modifyAt 0 (fun h => { h with engine := m })

/-! ## Reading the account -/

/-- What the account holds in the currency it prices itself in. -/
def balance : Cash := s.balances.get s.settlement

/-- Whether the fee total covers every fill this run has booked. -/
def feesKnown : Bool := s.feesCovered && !s.feesMissing

/-- Unrealized profit across every holding. -/
def unrealized : Cash := (s.holdings.map Holding.unrealized).foldl Cash.add 0

/-- Account equity, each holding at its own mark. -/
def equity : Cash := Cash.add s.balance s.unrealized

/-- Maintenance margin across every holding, each at its own mark. -/
def maintenance : Cash := (s.holdings.map Holding.maintenance).foldl Cash.add 0

/-- Whether the account is flat on both legs of every holding. -/
def isFlat : Bool := s.holdings.all Holding.isFlat

/-- The first holding's position as the margin model sees it. -/
def position : MarginedPosition where
  contract := s.holding.contract
  entry := s.holding.entry
  qty := s.holding.qty
  margin := s.balance
  entryCost := some s.holding.entryCost

/-! ## Writing the account -/

/-- Move the settlement balance by `amount`, signed. -/
def credit (amount : Cash) : Books State :=
  Logged.note .cash (FitsI64 (s.balance.toInt + amount.toInt))
    { s with balances := s.balances.add s.settlement amount }

/-- Book a fee: it grows the fee total and shrinks the balance. -/
def chargeFee (fee : Cash) : Books State := do
  let fees ← Books.add s.fees fee
  let debit ← Books.neg fee
  ({ s with fees := fees } : State).credit debit

/-- Book a realized profit or loss. -/
def realize (pnl : Cash) : Books State := do
  let realized ← Books.add s.realized pnl
  ({ s with realized := realized } : State).credit pnl

/-- Book a funding amount.  The source credits it before it adds it up. -/
def bookFunding (amount : Cash) : Books State := do
  let s ← s.credit amount
  let funding ← Books.add s.funding amount
  pure { s with funding := funding }

/-- Grow a leg of the holding at an index. -/
def openLegAt (index : Nat) (short : Bool) (qty : QtyLots) (price : PriceTicks) (sign : Int64) :
    Books State := do
  let h ← (s.holdingsAt index).openLeg short qty price sign
  pure (s.setAt index h)

/-- Shrink a leg of the holding at an index and book the profit. -/
def closeLegAt (index : Nat) (short : Bool) (qty : QtyLots) (price : PriceTicks) : Books State := do
  let (h, pnl) ← (s.holdingsAt index).closeLeg short qty price
  (s.setAt index h).realize pnl

/-- One-way accounting: a fill that reduces exposure closes, and what crosses
through flat opens a fresh cost basis. -/
def applyFillNet (index : Nat) (fill : Fill) : Books State :=
  let signed := fill.positionDelta
  let old := (s.holdingsAt index).qty
  if old ≠ 0 ∧ decide (0 < old) ≠ decide (0 < signed) then do
    let closed := min (satAbs signed) (satAbs old)
    let s ← s.closeLegAt index false closed fill.price
    let remainder := satAbs signed - closed
    if 0 < remainder then s.openLegAt index false remainder fill.price (signum signed) else pure s
  else s.openLegAt index false (satAbs signed) fill.price (signum signed)

/-- Hedge accounting: side and offset together name the leg, and a leg is never
crossed through flat. -/
def applyFillHedged (index : Nat) (fill : Fill) : Books State :=
  let longLeg :=
    match fill.side, fill.offset with
    | .buy, .opening => true
    | .sell, .closing => true
    | .sell, .opening => false
    | .buy, .closing => false
  match fill.offset with
  | .opening => s.openLegAt index (!longLeg) fill.qty fill.price (if longLeg then 1 else -1)
  | .closing => s.closeLegAt index (!longLeg) fill.qty fill.price

/-- Apply a fill to the position of the instrument it names.  A fill for an
instrument the account does not hold is a panic of the source. -/
def applyFill (fill : Fill) : Books State :=
  match s.holdingIndex fill.instrument with
  | none => Logged.note .panic False s
  | some index =>
    match s.mode with
    | .hedge => s.applyFillHedged index fill
    | .oneWay => s.applyFillNet index fill

/-! ## Liquidation -/

/-- Close both legs of one holding at `price` and withdraw its orders. -/
def liquidateHolding (index : Nat) (price : PriceTicks) : Books (State × Liquidation) := do
  let h := s.holdingsAt index
  let s ← s.realize (h.unrealizedAt price)
  pure
    (s.modifyAt index Holding.closedOut,
      { at_ := s.now, price := price, qty := h.qty + h.shortQty, equity := s.balance,
        forfeited := 0, instrument := h.instrument, long := h.qty, short := h.shortQty })

/-- The holdings with a position, by index. -/
def openIndices : List Nat :=
  (List.range s.holdings.length).filter (fun index => !(s.holdingsAt index).isFlat)

/-- The price a holding of a several-holding account is closed at: its own mark,
or its entry when it was never marked. -/
def closingPrice (index : Nat) : PriceTicks :=
  if (s.holdingsAt index).mark = 0 then (s.holdingsAt index).entry else (s.holdingsAt index).mark

/-- One holding of a several-holding account, at its own price. -/
def closeOne (acc : State × List Liquidation) (index : Nat) : Books (State × List Liquidation) := do
  let (s, l) ← acc.1.liquidateHolding index (acc.1.closingPrice index)
  pure (s, acc.2 ++ [l])

/-- Close every position of the account.  A lone holding is closed at the price
passed in, whether or not it has a position; of several, the ones with a
position are closed, each at its own price. -/
def closeAll (price : PriceTicks) : Books (State × List Liquidation) :=
  if s.holdings.length = 1 then do
    let (s, l) ← s.liquidateHolding 0 price
    pure (s, [l])
  else s.openIndices.foldlM closeOne (s, [])

/-- Say on every output what the account was left with, and on the last what was
forfeited. -/
def settleOutputs (equity forfeited : Cash) : List Liquidation → List Liquidation
  | [] => []
  | [l] => [{ l with equity := equity, forfeited := forfeited }]
  | l :: rest => { l with equity := equity } :: settleOutputs equity forfeited rest

/-- Close the account because the venue liquidated it, and settle it to zero. -/
def liquidate (price : PriceTicks) : Books (State × List Liquidation) := do
  let (s, out) ← s.closeAll price
  let forfeited := s.balance
  let debit ← Books.neg forfeited
  let s ← s.credit debit
  let total ← Books.add s.forfeited forfeited
  let s := { s with forfeited := total }
  pure (s, settleOutputs s.balance forfeited out)

/-! ## Frames

What a change to one holding leaves alone. -/

/-- The instruments held, in the order they were opened. -/
def instruments : List InstrumentId := s.holdings.map Holding.instrument

theorem holdingIndex_eq (x : InstrumentId) :
    s.holdingIndex x = s.instruments.findIdx? (· = x) := by
  unfold holdingIndex instruments
  rw [List.findIdx?_map]
  rfl

theorem holdingIndex_congr {s t : State} (h : s.instruments = t.instruments) (x : InstrumentId) :
    s.holdingIndex x = t.holdingIndex x := by
  rw [holdingIndex_eq, holdingIndex_eq, h]

theorem holdingIndex_lt {s : State} {x : InstrumentId} {index : Nat}
    (h : s.holdingIndex x = some index) : index < s.holdings.length :=
  (List.findIdx?_eq_some_iff_findIdx_eq.mp h).1

theorem holding_congr {s t : State} (h : s.holdings = t.holdings) : s.holding = t.holding := by
  simp only [holding, h]

theorem holdingsAt_congr {s t : State} (h : s.holdings = t.holdings) (index : Nat) :
    s.holdingsAt index = t.holdingsAt index := by
  simp only [holdingsAt, holding, h]

theorem holdingsAt_mem {s : State} {index : Nat} (h : index < s.holdings.length) :
    s.holdingsAt index ∈ s.holdings := by
  rw [holdingsAt, List.getD_eq_getElem _ _ h]
  exact List.getElem_mem h

@[simp] theorem holdings_modifyAt (index : Nat) (f : Holding → Holding) :
    (s.modifyAt index f).holdings = s.holdings.modify index f := rfl

theorem holdingsAt_modifyAt_self {s : State} {index : Nat} (h : index < s.holdings.length)
    (f : Holding → Holding) : (s.modifyAt index f).holdingsAt index = f (s.holdingsAt index) := by
  have h' : index < (s.holdings.modify index f).length := by rwa [List.length_modify]
  rw [holdingsAt, holdings_modifyAt, List.getD_eq_getElem _ _ h', holdingsAt,
    List.getD_eq_getElem _ _ h, List.getElem_modify, if_pos rfl]

theorem holdingsAt_setAt_self {s : State} {index : Nat} (h : index < s.holdings.length)
    (x : Holding) : (s.setAt index x).holdingsAt index = x :=
  holdingsAt_modifyAt_self h _

/-- Changing a holding without its instrument keeps the instruments. -/
theorem instruments_modifyAt {s : State} {index : Nat} {f : Holding → Holding}
    (hf : index < s.holdings.length →
      (f (s.holdingsAt index)).instrument = (s.holdingsAt index).instrument) :
    (s.modifyAt index f).instruments = s.instruments := by
  unfold instruments
  apply List.ext_getElem
  · simp
  · intro j hj hj'
    simp only [List.length_map, holdings_modifyAt, List.length_modify] at hj hj'
    simp only [holdings_modifyAt, List.getElem_map, List.getElem_modify]
    split_ifs with hij
    · subst hij
      have := hf hj
      rwa [holdingsAt, List.getD_eq_getElem _ _ hj] at this
    · rfl

/-- What can be found in a list after one entry changed. -/
theorem exists_of_mem_modify {α : Type} {l : List α} {index : Nat} {f : α → α} {x : α}
    (h : x ∈ l.modify index f) : ∃ y ∈ l, x = y ∨ x = f y := by
  obtain ⟨j, hj, rfl⟩ := List.mem_iff_getElem.mp h
  rw [List.length_modify] at hj
  refine ⟨l[j], List.getElem_mem hj, ?_⟩
  rw [List.getElem_modify]
  split_ifs
  · exact Or.inr rfl
  · exact Or.inl rfl

end State
