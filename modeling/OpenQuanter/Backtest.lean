/-
# Running a strategy over a stream of observations (`oq-backtest/src/run.rs`)

The host is a loop: an observation advances the kernel, the strategy is called with what it
is allowed to see, and its intents become events.  A strategy is its callbacks
(`oq-strategy/src/lib.rs`); each of them is handed the buffer of intents, as it stands, and
returns it.
-/
import OpenQuanter.Kernel
import OpenQuanter.Trader

/-! ## What a run does to a kernel beside its events -/

namespace Kernel

variable (k : Kernel)

/-- Change the first holding's matcher, with what it answered. -/
def askMatcher {α : Type} (f : Matcher → Matcher × α) : Kernel × α :=
  (k.withState (k.state.modifyAt 0 (fun h => { h with engine := (f h.engine).1 })),
    (f k.state.holding.engine).2)

def applyDepth (update : DepthUpdate) : Kernel × DepthOutcome :=
  k.askMatcher (Matcher.onDepth update)

def applyDepthGap : Kernel × Bool := k.askMatcher Matcher.onGap

def installSnapshot (updateId : UInt64) (bids asks : List Level) : Kernel × Bool :=
  k.askMatcher (Matcher.installSnapshot updateId bids asks)

def installSnapshotAt (at_ : Nanos) (updateId : UInt64) (bids asks : List Level) : Kernel × Bool :=
  k.askMatcher (Matcher.installSnapshotAt at_ updateId bids asks)

/-- Book the fills one holding's matcher is still holding back. -/
def settleUnreportedAt (k : Kernel) (index : Nat) : Books Kernel :=
  let drained := (k.state.holdingsAt index).engine.drainUnreported
  let k := k.withState (k.state.modifyAt index (fun h => { h with engine := drained.2 }))
  k.bookFills index (drained.1.map L0Fill.fill)

/-- `Kernel::settle_unreported`: the same for every holding, at the end of a run. -/
def settleUnreported : Books Kernel :=
  (List.range k.state.holdings.length).foldlM settleUnreportedAt k.cleared

end Kernel

namespace Matcher

def tier : Matcher → String
  | .l0 _ => "L0"
  | .l1 _ => "L1"
  | .l2 _ => "L2"

/-- Tick boundaries where L2 suspended execution awaiting a snapshot. -/
def invalidDepthTicks : Matcher → Nat
  | .l2 e => e.invalidTicks
  | _ => 0

end Matcher

namespace Backtest

open Live (CloseReason Ending VenueClosed)

/-! ## Configuration -/

/-- Whether the venue is allowed to close the account. -/
inductive MarginMode where
  | enforced
  | ignored
  deriving DecidableEq, Repr

/-- Which matcher a run uses. -/
inductive Tier where
  | l0
  | l1 (policy : Policy)
  | l2 (policy : Policy)
  deriving DecidableEq, Repr

def Tier.matcher (instrument : InstrumentId) : Tier → Matcher
  | .l0 => .l0 (L0Engine.new instrument)
  | .l1 policy => .l1 (L1Engine.new instrument policy)
  | .l2 policy => .l2 (L2Engine.new (L1Engine.new instrument policy))

/-- Funding rates over time, in settlement order. -/
structure FundingSchedule where
  rates : List FundingRate
  sorted : rates.Pairwise (fun a b => a.at_ ≤ b.at_)

namespace FundingSchedule

def empty : FundingSchedule := ⟨[], List.Pairwise.nil⟩

/-- Where the settlements at or before `until_` end. -/
def partitionPoint (s : FundingSchedule) (until_ : Nanos) : Nat :=
  (s.rates.takeWhile (fun r => r.at_ ≤ until_)).length

/-- Settlements strictly after `from_` and at or before `until_`.  An interval that runs
backwards holds nothing. -/
def between (s : FundingSchedule) (from_ until_ : Nanos) : List FundingRate :=
  let start := s.partitionPoint from_
  let stop := s.partitionPoint until_
  if start ≤ stop then (s.rates.drop start).take (stop - start) else []

end FundingSchedule

/-- How a run is configured. -/
structure RunConfig where
  equityEvery : Nat
  trackMargin : Bool
  instrument : InstrumentId
  contract : Contract
  table : TierTable
  startingBalance : Cash
  margin : MarginMode
  funding : FundingSchedule
  fees : Fees
  positionMode : PositionMode
  tier : Tier

namespace RunConfig

/-- The account before its matcher is chosen. -/
def account (c : RunConfig) : State :=
  ((State.new c.instrument c.contract c.table c.startingBalance).withFees c.fees).withMode
    c.positionMode

theorem instrument_matcher (c : RunConfig) :
    (c.tier.matcher c.instrument).instrument = c.account.holding.engine.instrument := by
  cases c.tier <;> rfl

/-- The account a run starts from. -/
def state (c : RunConfig) : State :=
  let state := c.account.matchingWith (c.tier.matcher c.instrument) c.instrument_matcher
  match c.margin with
  | .enforced => state
  | .ignored => state.withoutLiquidation

theorem holdings_state (c : RunConfig) :
    c.state.holdings =
      [{ Holding.new c.instrument c.contract c.table with
          engine := c.tier.matcher c.instrument }] := by
  unfold state
  cases c.margin <;> rfl

theorem matching_state (c : RunConfig) : c.state.matching = .simulated := by
  unfold state
  cases c.margin <;> rfl

end RunConfig

/-- What arrives. -/
inductive Observation where
  | tick (tick : Tick)
  | depth (update : DepthUpdate)
  | snapshot (updateId : UInt64) (bids asks : List Level)
  | snapshotAt (at_ : Nanos) (updateId : UInt64) (bids asks : List Level)
  | gap (at_ : Nanos)

/-! ## Strategies -/

/-- What a strategy is told before it decides. -/
structure Context where
  instrument : InstrumentId
  tick : Tick
  position : QtyLots
  entry : PriceTicks
  shortPosition : QtyLots
  shortEntry : PriceTicks
  equity : Cash
  working : Nat
  deriving DecidableEq, Repr

/-- What a strategy wants to happen next.  Every order names its instrument. -/
inductive Intent where
  | limit (instrument : InstrumentId) (id : OrderId) (side : Side) (price : PriceTicks)
      (qty : QtyLots) (offset : Offset)
  | market (instrument : InstrumentId) (id : OrderId) (side : Side) (qty : QtyLots)
      (offset : Offset)
  | cancel (id : OrderId)
  | cancelAll
  deriving DecidableEq, Repr

namespace Intent

/-- Which instrument this is for, if it names one. -/
def instrument : Intent → Option InstrumentId
  | .limit instrument .. => some instrument
  | .market instrument .. => some instrument
  | _ => none

/-- `intent_id`: the order an intent places. -/
def id : Intent → Option OrderId
  | .limit _ id .. => some id
  | .market _ id .. => some id
  | _ => none

end Intent

/-- A strategy: what it makes of its state and of the intents so far at each call. -/
structure Strategy (σ : Type) where
  name : String
  onTick : Context → σ × List Intent → σ × List Intent
  onFill : Fill → Context → σ × List Intent → σ × List Intent
  onVenueClosed : VenueClosed → Context → σ × List Intent → σ × List Intent
  onEnded : OrderId → Ending → σ × List Intent → σ × List Intent
  onPlaced : OrderId → Bool → σ → σ

/-! ## What a run counts -/

/-- The totals a run keeps beside the kernel. -/
structure Tally where
  fills : List Fill
  liquidations : List Liquidation
  ticks : Nat
  minEquity : Cash
  peakMaintenance : Cash
  minHeadroom : Option Cash
  equityCurve : List Cash
  maxAdverse : Int64
  depthApplied : Nat
  depthRefused : Nat
  depthGaps : Nat
  depthUnused : Nat
  misrouted : Nat

namespace Tally

def start (c : RunConfig) : Tally where
  fills := []
  liquidations := []
  ticks := 0
  minEquity := c.startingBalance
  peakMaintenance := 0
  minHeadroom := none
  equityCurve := if 0 < c.equityEvery then [c.startingBalance] else []
  maxAdverse := 0
  depthApplied := 0
  depthRefused := 0
  depthGaps := 0
  depthUnused := 0
  misrouted := 0

variable (t : Tally)

/-- The adverse excursion against an open position. -/
def adverse (s : Kernel.Summary) (tick : Tick) : Int64 :=
  if s.qty ≠ 0 ∧ 0 < s.entry then
    max t.maxAdverse
      (if 0 < s.qty then s.entry - tick.dnExtent else tick.upExtent - s.entry)
  else t.maxAdverse

/-- The maintenance requirement and the headroom, while a position is open. -/
def measureMargin (c : RunConfig) (k : Kernel) : Tally :=
  if c.trackMargin ∧ (k.summary.qty ≠ 0 ∨ k.summary.shortQty ≠ 0) then
    let maintenance := k.state.maintenance
    let headroom := k.summary.equity - maintenance
    { t with
      peakMaintenance := max t.peakMaintenance maintenance
      minHeadroom := if t.minHeadroom.all (headroom < ·) then some headroom else t.minHeadroom }
  else t

/-- What a tick adds to the totals once the kernel has taken it. -/
def measure (c : RunConfig) (k : Kernel) (tick : Tick) : Tally :=
  let t :=
    if 0 < c.equityEvery ∧ t.ticks % c.equityEvery = 0 then
      { t with equityCurve := t.equityCurve ++ [k.summary.equity] }
    else t
  let t := { t with minEquity := min t.minEquity k.summary.equity }
  let t := t.measureMargin c k
  { t with maxAdverse := t.adverse k.summary tick }

/-- What the depth answered. -/
def countDepth : DepthOutcome → Tally
  | .applied => { t with depthApplied := t.depthApplied + 1 }
  | .refused _ => { t with depthRefused := t.depthRefused + 1 }
  | .notRead => { t with depthUnused := t.depthUnused + 1 }

/-- Whether a snapshot was kept. -/
def countSnapshot (kept : Bool) : Tally :=
  if kept then t else { t with depthUnused := t.depthUnused + 1 }

/-- Whether a discontinuity was read. -/
def countGap (taken : Bool) : Tally :=
  if taken then { t with depthGaps := t.depthGaps + 1 }
  else { t with depthUnused := t.depthUnused + 1 }

end Tally

end Backtest

/-- The fill an output reports. -/
def Output.fill? : Output → Option Fill
  | .filled fill => some fill
  | _ => none

/-- The liquidation an output reports. -/
def Output.liquidation? : Output → Option Liquidation
  | .liquidated l => some l
  | _ => none

namespace Backtest

open Live (CloseReason Ending VenueClosed)

/-! ## What the strategy is told of the outputs -/

/-- A liquidation as the legs it closed. -/
def venueCloses (l : Liquidation) : List VenueClosed :=
  (([(.buy, l.long), (.sell, l.short)] : List (Side × QtyLots)).filter (·.2 ≠ 0)).map fun leg =>
    { instrument := l.instrument, reason := .liquidation, leg := leg.1, qty := leg.2.abs,
      price := l.price, at_ := l.at_ }

/-- An order the kernel reported on is over if it is no longer working; an end that already
waits is not noted twice. -/
def note (working : List OrderId) (ended : List (OrderId × Ending)) (id : OrderId)
    (ending : Ending) : List (OrderId × Ending) :=
  if !working.contains id && !ended.any (·.1 = id) then ended ++ [(id, ending)] else ended

def noteEnding (working : List OrderId) (ended : List (OrderId × Ending)) :
    Output → List (OrderId × Ending)
  | .filled fill => note working ended fill.order .filled
  | .cancelled id => note working ended id .cancelled
  | _ => ended

def noteEndings (outputs : List Output) (working : List OrderId)
    (ended : List (OrderId × Ending)) : List (OrderId × Ending) :=
  outputs.foldl (noteEnding working) ended

/-! ## The host -/

/-- A run between two observations. -/
structure Host (σ : Type) where
  kernel : Kernel
  strategy : σ
  closedByVenue : List VenueClosed
  /-- The orders that ended, waiting to be reported to the strategy. -/
  ended : List (OrderId × Ending)
  lastFunding : Nanos
  tally : Tally

namespace Host

variable {σ : Type}

def start (c : RunConfig) (strategy : σ) : Host σ where
  kernel := Kernel.new c.state
  strategy := strategy
  closedByVenue := []
  ended := []
  lastFunding := Int64.minValue
  tally := Tally.start c

/-- The event of one settlement. -/
def fundingEvent (rate : FundingRate) : Event := .funding none rate.at_ rate.rate rate.mark

/-- Take over what an event liquidated. -/
def noteLiquidations (h : Host σ) (outputs : List Output) : Host σ :=
  let liquidations := outputs.filterMap Output.liquidation?
  { h with
    closedByVenue := h.closedByVenue ++ liquidations.flatMap venueCloses
    tally := { h.tally with liquidations := h.tally.liquidations ++ liquidations } }

/-- One settlement, on what the account held until now. -/
def fund (h : Host σ) (rate : FundingRate) : Books (Host σ) := do
  let kernel ← h.kernel.apply (fundingEvent rate)
  pure (({ h with kernel := kernel } : Host σ).noteLiquidations kernel.outputs)

/-- Funding settles between the previous tick and this one. -/
def settleFunding (c : RunConfig) (h : Host σ) (now : Nanos) : Books (Host σ) :=
  if c.funding.rates.isEmpty then pure h
  else do
    let h ← (c.funding.between h.lastFunding now).foldlM fund h
    -- forward only: a tick stamped earlier does not move the mark back
    pure ({ h with lastFunding := max h.lastFunding now } : Host σ)

/-- The kernel takes the tick; the fills are handed on to the strategy. -/
def applyTick (h : Host σ) (tick : Tick) : Books (Host σ × List Fill) := do
  let kernel ← h.kernel.apply (.tick none tick)
  let fills := kernel.outputs.filterMap Output.fill?
  let h : Host σ :=
    { h with
      kernel := kernel
      ended := noteEndings kernel.outputs kernel.working h.ended
      tally := { h.tally with fills := h.tally.fills ++ fills, ticks := h.tally.ticks + 1 } }
  pure (h.noteLiquidations kernel.outputs, fills)

/-- What the strategy is allowed to see of a kernel at a tick. -/
def context (c : RunConfig) (k : Kernel) (tick : Tick) : Context where
  instrument := c.instrument
  tick := tick
  position := k.summary.qty
  entry := k.summary.entry
  shortPosition := k.summary.shortQty
  shortEntry := k.summary.shortEntry
  equity := k.summary.equity
  working := k.working.length

/-- Fills first, then what the venue closed, then the orders that ended, then the tick. -/
def callBack (S : Strategy σ) (h : Host σ) (ctx : Context) (fills : List Fill) :
    Host σ × List Intent :=
  let told := fills.foldl (fun s fill => S.onFill fill ctx s) (h.strategy, [])
  let told := h.closedByVenue.foldl (fun s closed => S.onVenueClosed closed ctx s) told
  let told := h.ended.foldl (fun s e => S.onEnded e.1 e.2 s) told
  let told := S.onTick ctx told
  ({ h with strategy := told.1, closedByVenue := [], ended := [] }, told.2)

/-- All a tick does before the intents are acted on. -/
def deliver (c : RunConfig) (S : Strategy σ) (h : Host σ) (tick : Tick) :
    Books (Host σ × List Intent) := do
  let h ← h.settleFunding c tick.stamp.exch
  let (h, fills) ← h.applyTick tick
  let h := { h with tally := h.tally.measure c h.kernel tick }
  pure (h.callBack S (context c h.kernel tick) fills)

/-- Apply an event and note what it ended. -/
def record (h : Host σ) (event : Event) : Books (Host σ) := do
  let kernel ← h.kernel.apply event
  pure { h with kernel := kernel, ended := noteEndings kernel.outputs kernel.working h.ended }

/-- The same for an order, with the kernel's answer reported to the strategy. -/
def place (S : Strategy σ) (h : Host σ) (id : OrderId) (event : Event) : Books (Host σ) := do
  let h ← h.record event
  let refused := h.kernel.outputs.any fun o =>
    match o with
    | .rejected rejected _ => rejected = id
    | _ => false
  pure { h with strategy := S.onPlaced id (!refused) h.strategy }

/-- An order for an instrument this run does not hold is refused. -/
def misroute (S : Strategy σ) (h : Host σ) (intent : Intent) : Host σ :=
  { h with
    strategy :=
      match intent.id with
      | some id => S.onPlaced id false h.strategy
      | none => h.strategy
    tally := { h.tally with misrouted := h.tally.misrouted + 1 } }

/-- Turn one intent into its events. -/
def act (c : RunConfig) (S : Strategy σ) (stamp : Stamp) (h : Host σ) (intent : Intent) :
    Books (Host σ) :=
  if intent.instrument.any (· ≠ c.instrument) then pure (h.misroute S intent)
  else
    match intent with
    | .limit instrument id side price qty offset =>
      h.place S id (.submit (some instrument) id side (some price) qty offset stamp)
    | .market instrument id side qty offset =>
      h.place S id (.submit (some instrument) id side none qty offset stamp)
    | .cancel id => h.record (.cancel id stamp)
    | .cancelAll => h.kernel.working.foldlM (fun h id => h.record (.cancel id stamp)) h

def onTick (c : RunConfig) (S : Strategy σ) (h : Host σ) (tick : Tick) : Books (Host σ) := do
  let (h, intents) ← h.deliver c S tick
  intents.foldlM (act c S tick.stamp) h

/-- One observation.  Only a tick reaches the strategy. -/
def observe (c : RunConfig) (S : Strategy σ) (h : Host σ) : Observation → Books (Host σ)
  | .tick tick => h.onTick c S tick
  | .depth update =>
    let (kernel, outcome) := h.kernel.applyDepth update
    pure { h with kernel := kernel, tally := h.tally.countDepth outcome }
  | .snapshot updateId bids asks =>
    let (kernel, kept) := h.kernel.installSnapshot updateId bids asks
    pure { h with kernel := kernel, tally := h.tally.countSnapshot kept }
  | .snapshotAt at_ updateId bids asks =>
    let (kernel, kept) := h.kernel.installSnapshotAt at_ updateId bids asks
    pure { h with kernel := kernel, tally := h.tally.countSnapshot kept }
  | .gap _ =>
    let (kernel, taken) := h.kernel.applyDepthGap
    pure { h with kernel := kernel, tally := h.tally.countGap taken }

/-- The loop. -/
def run (c : RunConfig) (S : Strategy σ) (strategy : σ) (stream : List Observation) :
    Books (Host σ) :=
  stream.foldlM (observe c S) (start c strategy)

/-- The host after some ticks more. -/
def ran (c : RunConfig) (S : Strategy σ) (h : Host σ) (ticks : List Tick) : Host σ :=
  ((ticks.map Observation.tick).foldlM (observe c S) h).val

theorem ran_cons (c : RunConfig) (S : Strategy σ) (h : Host σ) (tick : Tick) (ticks : List Tick) :
    h.ran c S (tick :: ticks) = (h.onTick c S tick).val.ran c S ticks := rfl

theorem ran_append (c : RunConfig) (S : Strategy σ) (h : Host σ) (before after : List Tick) :
    h.ran c S (before ++ after) = (h.ran c S before).ran c S after := by
  induction before generalizing h with
  | nil => rfl
  | cons tick rest ih => exact ih _

end Host

/-! ## The result -/

/-- How much margin a run used, or why that is not known. -/
inductive MarginUsage where
  | notTracked
  | noPosition
  | tracked (peakMaintenance minHeadroom : Cash)
  deriving DecidableEq, Repr

/-- What a run produced. -/
structure RunResult where
  strategy : String
  tally : Tally
  finalEquity : Cash
  realized : Cash
  fundingPaid : Cash
  feesPaid : Cash
  marginUsage : MarginUsage
  tier : String
  depthInvalidTicks : Nat

/-- `run_observations`.  Fills the data ended before releasing are part of the result. -/
def runObservations {σ : Type} (c : RunConfig) (S : Strategy σ) (strategy : σ)
    (stream : List Observation) : Books RunResult := do
  let h ← Host.run c S strategy stream
  let kernel ← h.kernel.settleUnreported
  pure
    { strategy := S.name
      tally :=
        { h.tally with fills := h.tally.fills ++ kernel.outputs.filterMap Output.fill? }
      finalEquity := kernel.summary.equity
      realized := kernel.summary.realized
      fundingPaid := kernel.summary.funding
      feesPaid := kernel.summary.fees
      marginUsage :=
        if !c.trackMargin then .notTracked
        else
          match h.tally.minHeadroom with
          | some minHeadroom => .tracked h.tally.peakMaintenance minHeadroom
          | none => .noPosition
      tier := kernel.state.holding.engine.tier
      depthInvalidTicks := kernel.state.holding.engine.invalidDepthTicks }

end Backtest
