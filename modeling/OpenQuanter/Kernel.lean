/-
# The deterministic core (`Kernel` of `oq-core/src/kernel.rs`)

`Kernel.apply` is the whole contract: one event in, the next kernel out, with
what the event produced in `outputs`.  It runs in `Books`, so the log of a run
says which saturations and which panics of the source it met.
-/
import OpenQuanter.State

/-- The account, the outputs of the last event, and the working order ids. -/
structure Kernel where
  state : State
  outputs : List Output
  working : List OrderId

namespace Kernel

def new (state : State) : Kernel := ⟨state, [], []⟩

variable (k : Kernel)

/-- The same kernel with its output buffer cleared. -/
def cleared : Kernel := { k with outputs := [] }

/-- The same kernel with one more output. -/
def emit (o : Output) : Kernel := { k with outputs := k.outputs ++ [o] }

/-- The same kernel with another account. -/
def withState (s : State) : Kernel := { k with state := s }

/-- Which holding an observation is for.  An unnamed one names the only holding,
and nothing once there are two. -/
def route (instrument : Option InstrumentId) : Option Nat :=
  match instrument with
  | some id => k.state.holdingIndex id
  | none => if k.state.holdings.length = 1 then some 0 else none

/-! ## Liquidation -/

/-- Whether the venue would close the account: the account's own test under
hedge accounting or with several holdings, the position's otherwise. -/
def liquidatable (s : State) (mark : PriceTicks) : Bool :=
  if s.mode = .hedge || 1 < s.holdings.length then s.equity ≤ s.maintenance
  else s.position.isLiquidatable s.holding.table mark

/-- Close the position if the venue would have. -/
def checkLiquidation (mark : PriceTicks) : Books Kernel :=
  if !k.state.enforceLiquidation || k.state.isFlat then pure k
  else if liquidatable k.state mark then do
    let (s, out) ← k.state.liquidate mark
    pure { state := s, outputs := k.outputs ++ out.map Output.liquidated, working := [] }
  else pure k

/-! ## Fills -/

/-- Book one fill a holding's matcher released: fee, position, output. -/
def bookFill (index : Nat) (k : Kernel) (fill : Fill) : Books Kernel := do
  let fee := k.state.feeSchedule.charge (k.state.holdingsAt index).contract fill
  let s ← k.state.chargeFee fee
  let s ← s.applyFill fill
  pure
    { state := s
      working := k.working.filter (· ≠ fill.order)
      outputs := k.outputs ++ [.filled fill] }

def bookFills (index : Nat) (fills : List Fill) : Books Kernel := fills.foldlM (bookFill index) k

/-- Move the clock and a holding's mark to an observation. -/
def observe (index : Nat) (tick : Tick) : Kernel :=
  k.withState
    ((k.state.withNow tick.stamp.exch).modifyAt index (fun h => { h with mark := tick.last }))

/-- Advance one holding to an observation. -/
def onTick (index : Nat) (tick : Tick) : Books Kernel :=
  let k := k.observe index tick
  if k.state.matching = .venue then k.checkLiquidation tick.last
  else do
    let engine := (k.state.holdingsAt index).engine.onTick tick
    let k := k.withState (k.state.modifyAt index (fun h => { h with engine := engine }))
    let k ← k.bookFills index (engine.fills.map L0Fill.fill)
    k.checkLiquidation tick.last

/-- The fee of a venue fill: the venue's own figure where it gave one, nothing
where it could not be read, the schedule's where the venue did not say. -/
def venueFee (s : State) (fill : Fill) (reported : Fee) : Cash × State :=
  let contract := ((s.holdingOf fill.instrument).map Holding.contract).getD s.holding.contract
  match reported with
  | .reported cash => (cash, { s with feesCovered := true })
  | .unreadable => (0, { s with feesMissing := true })
  | .unsaid => (s.feeSchedule.charge contract fill, s)

/-- Withdraw an order from the holding its fill names. -/
def withdrawFilled (s : State) (fill : Fill) : State :=
  match s.holdingIndex fill.instrument with
  | none => s
  | some index => s.modifyAt index (fun h => { h with engine := (h.engine.cancel fill.order).1 })

/-- Book a fill the venue decided; under simulated matching it is refused. -/
def onVenueFill (fill : Fill) (reported : Fee) : Books Kernel :=
  if k.state.matching ≠ .venue then pure (k.emit (.rejected fill.order .notVenueMatched))
  else do
    let priced := venueFee (withdrawFilled (k.state.withNow fill.stamp.exch) fill) fill reported
    let s ← priced.2.chargeFee priced.1
    let s ← s.applyFill fill
    let k : Kernel :=
      { state := s
        working := k.working.filter (· ≠ fill.order)
        outputs := k.outputs ++ [.filled fill] }
    k.checkLiquidation fill.price

/-! ## Orders -/

/-- The order a submission builds. -/
def orderOf (id : OrderId) (side : Side) (price : Option PriceTicks) (qty : QtyLots)
    (offset : Offset) (stamp : Stamp) (hqty : 0 < qty) : Working :=
  match price with
  | some p => limitOrder id side p qty stamp offset hqty
  | none => marketOrder id side qty stamp offset hqty

/-- `Event::Submit`: refused, or rested on the holding it names. -/
def onSubmit (instrument : Option InstrumentId) (id : OrderId) (side : Side)
    (price : Option PriceTicks) (qty : QtyLots) (offset : Offset) (stamp : Stamp) : Kernel :=
  if hqty : 0 < qty then
    if k.working.contains id then k.emit (.rejected id .duplicateId)
    else
      match k.route instrument with
      | none => k.emit (.rejected id .unroutableObservation)
      | some index =>
        if k.state.balance ≤ 0 then k.emit (.rejected id .noMargin)
        else
          let order := orderOf id side price qty offset stamp hqty
          { k with
            state := k.state.modifyAt index
              (fun h => { h with engine := h.engine.submit order stamp.local_ })
            working := k.working ++ [id] }
  else k.emit (.rejected id .nonPositiveQty)

/-- Ask each holding in turn to withdraw an order, stopping at the one that had
it. -/
def cancelFirst (id : OrderId) : List Holding → List Holding × Bool
  | [] => ([], false)
  | h :: rest =>
    let (engine, found) := h.engine.cancel id
    let h := { h with engine := engine }
    if found then (h :: rest, true)
    else
      let (rest, found) := cancelFirst id rest
      (h :: rest, found)

theorem length_cancelFirst (id : OrderId) (holdings : List Holding) :
    (cancelFirst id holdings).1.length = holdings.length := by
  induction holdings with
  | nil => rfl
  | cons h rest ih =>
    simp only [cancelFirst]
    split_ifs <;> simp [ih]

/-- `Event::Cancel`: the holding that took the order answers. -/
def onCancel (id : OrderId) : Kernel :=
  let asked := cancelFirst id k.state.holdings
  let s : State :=
    { k.state with
      holdings := asked.1
      nonempty := by
        intro hnil
        have hlen := length_cancelFirst id k.state.holdings
        rw [hnil] at hlen
        exact k.state.nonempty (List.eq_nil_of_length_eq_zero hlen.symm) }
  if asked.2 then
    { state := s
      working := k.working.filter (· ≠ id)
      outputs := k.outputs ++ [.cancelled id] }
  else k.withState s

/-! ## Funding, fees and deposits -/

/-- What a settlement moves, both legs of a holding together. -/
def fundingAmount (h : Holding) (rate : FundingRate) : Cash :=
  let long := if h.qty = 0 then 0 else Cash.add 0 (rate.settle h.contract h.qty)
  if h.shortQty = 0 then long else Cash.add long (rate.settle h.contract h.shortQty)

/-- `Event::Funding`: settled on the holding whose rate it is. -/
def onFunding (instrument : Option InstrumentId) (at_ : Nanos) (rate : Ratio) (mark : PriceTicks) :
    Books Kernel :=
  let k := k.withState (k.state.withNow at_)
  match k.route instrument with
  | none => pure (k.emit (.rejected 0 .unroutableObservation))
  | some index =>
    let h := k.state.holdingsAt index
    if h.isFlat then pure k
    else do
      let amount := fundingAmount h ⟨at_, rate, mark⟩
      let s ← k.state.bookFunding amount
      ((k.withState s).emit (.funded amount at_)).checkLiquidation mark

/-- `Event::FundingCharged`: the venue's figure, booked as it stands. -/
def onFundingCharged (instrument : Option InstrumentId) (at_ : Nanos) (amount : Cash) :
    Books Kernel :=
  let k := k.withState (k.state.withNow at_)
  match k.route instrument with
  | none => pure (k.emit (.rejected 0 .unroutableObservation))
  | some _ => do
    let s ← k.state.bookFunding amount
    pure ((k.withState s).emit (.funded amount at_))

/-- `Event::FeeRecovered`: a fee that was missing is read after all. -/
def onFeeRecovered (at_ : Nanos) (amount : Cash) (remainingMissing : UInt64) : Books Kernel := do
  let s ← (k.state.withNow at_).chargeFee amount
  pure (k.withState { s with feesCovered := true, feesMissing := remainingMissing ≠ 0 })

/-- `Event::Depth`: handed to the only holding's matcher. -/
def onDepth (update : DepthUpdate) : Kernel :=
  if k.state.holdings.length = 1 then
    k.withState (k.state.modifyAt 0 (fun h => { h with engine := (h.engine.onDepth update).1 }))
  else k

/-! ## One event -/

/-- Apply one event; the outputs of the last one are dropped. -/
def apply (event : Event) : Books Kernel :=
  let k := k.cleared
  match event with
  | .depth update => pure (k.onDepth update)
  | .tick instrument tick =>
    match k.route instrument with
    | some index => k.onTick index tick
    | none => pure (k.emit (.rejected 0 .unroutableObservation))
  | .submit instrument id side price qty offset stamp =>
    pure (k.onSubmit instrument id side price qty offset stamp)
  | .cancel id _ => pure (k.onCancel id)
  | .funding instrument at_ rate mark => k.onFunding instrument at_ rate mark
  | .fundingCharged instrument at_ amount => k.onFundingCharged instrument at_ amount
  | .time at_ => pure (k.withState (k.state.withNow at_))
  | .feeRecovered at_ amount remainingMissing => k.onFeeRecovered at_ amount remainingMissing
  | .marginDeposit amount at_ => do
    let s ← (k.state.withNow at_).credit amount
    pure (k.withState s)
  | .venueFill fill fee => k.onVenueFill fill fee

/-- Apply a list of events, one after the other. -/
def run (events : List Event) : Books Kernel := events.foldlM apply k

/-! ## Reports -/

/-- A compact summary of account state, for reports and assertions. -/
structure Summary where
  qty : QtyLots
  entry : PriceTicks
  shortQty : QtyLots
  shortEntry : PriceTicks
  balance : Cash
  realized : Cash
  funding : Cash
  fees : Cash
  forfeited : Cash
  feesKnown : Bool
  equity : Cash
  mark : PriceTicks
  now : Nanos
  deriving DecidableEq, Repr

def summary : Summary where
  qty := k.state.holding.qty
  entry := k.state.holding.entry
  shortQty := k.state.holding.shortQty
  shortEntry := k.state.holding.shortEntry
  balance := k.state.balance
  realized := k.state.realized
  funding := k.state.funding
  fees := k.state.fees
  forfeited := k.state.forfeited
  feesKnown := k.state.feesKnown
  equity := k.state.equity
  mark := k.state.holding.mark
  now := k.state.now

end Kernel
