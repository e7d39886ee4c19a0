/-
# Fidelity tier L2: the queue read from the venue's book (`oq-engine/src/l2.rs`)

L2 wraps an L1 engine and a venue book.  The queue ahead of an order is the
quantity displayed at its price when it arrives, and a taker fill is priced by
walking the displayed levels.  A refused update or a captured gap invalidates
the book: nothing executes until a fresh snapshot, nor on the first observation
after it.
-/
import OpenQuanter.L1
import OpenQuanter.VenueBook

/-- A per-observation copy of the venue's depth, consumed by fills.  A side is
copied when a fill first asks for it. -/
structure WorkingDepth where
  bids : Option BookSide
  asks : Option BookSide

/-- The volume-weighted price of taking `qty`, rounded against the taker, or
`none` if the book does not go that deep. -/
def WorkingDepth.take (d : WorkingDepth) (venue : VenueBook) (side : Side) (qty : QtyLots) :
    Option PriceTicks × WorkingDepth :=
  -- a buy takes from the asks, a sell from the bids
  let levels :=
    match side with
    | .buy => d.asks.getD venue.asks
    | .sell => d.bids.getD venue.bids
  let (swept, levels) := levels.take qty
  let d :=
    match side with
    | .buy => { d with asks := some levels }
    | .sell => { d with bids := some levels }
  if swept.exhausted || swept.taken ≤ 0 then (none, d)
  else
    let taken := swept.taken.toInt
    let vwap :=
      match side with
      | .buy => (swept.cost + taken - 1).tdiv taken
      | .sell => swept.cost.tdiv taken
    (if FitsI64 vwap then some (Int64.ofInt vwap) else none, d)

/-- L1 with the queue read from the venue's book. -/
structure L2Engine where
  inner : L1Engine
  venue : VenueBook
  hasSnapshot : Bool
  invalid : Bool
  recoveryBar : Bool
  invalidTicks : Nat
  refused : Nat
  swept : Nat
  unswept : Nat

namespace L2Engine

/-- Wrap an L1 engine and give it a venue book to read. -/
def new (inner : L1Engine) : L2Engine :=
  ⟨inner, VenueBook.new, false, false, false, 0, 0, 0, 0⟩

/-- Quantity displayed at `price` on `side`; zero when the level is absent. -/
def displayedFrom (venue : VenueBook) (side : Side) (price : PriceTicks) : Int64 :=
  let levels :=
    match side with
    | .buy => venue.bids.levels
    | .sell => venue.asks.levels
  ((levels.find? (·.price = price)).map Level.qty).getD 0

def queueFrom (venue : VenueBook) (known : Bool) (side : Side) (price : PriceTicks) :
    Option Int64 :=
  if known then some (displayedFrom venue side price) else none

/-- Seed the book from a snapshot, resuming if the book was invalid. -/
def installSnapshot (e : L2Engine) (updateId : UInt64) (bids asks : List Level) : L2Engine :=
  let e := { e with venue := e.venue.installSnapshot updateId bids asks, hasSnapshot := true }
  let e :=
    if e.invalid then
      { e with recoveryBar := true, inner := e.inner.resumeDepth (displayedFrom e.venue) }
    else e
  { e with invalid := false }

/-- Forget stale depth and suspend execution until a fresh snapshot. -/
def onGap (e : L2Engine) : L2Engine :=
  { e with
    venue := VenueBook.new
    hasSnapshot := false
    invalid := true
    inner := e.inner.invalidateDepth }

/-- Preserve arrivals strictly before a captured snapshot boundary. -/
def installSnapshotAt (e : L2Engine) (at_ : Nanos) (updateId : UInt64) (bids asks : List Level) :
    L2Engine :=
  let e :=
    if !e.invalid then
      { e with
        inner := e.inner.sampleArrivals (satSub at_ 1) (queueFrom e.venue e.hasSnapshot) }
    else e
  e.installSnapshot updateId bids asks

/-- Apply one incremental depth update; a refused one invalidates the book. -/
def onDepth (e : L2Engine) (update : DepthUpdate) : L2Engine × Except SequenceError Unit :=
  let before := satSub (satMul update.eventMs 1000000) 1
  let e :=
    { e with inner := e.inner.sampleArrivals before (queueFrom e.venue e.hasSnapshot) }
  match e.venue.apply update with
  | .ok (_, venue) => ({ e with venue := venue }, .ok ())
  | .error err => (onGap { e with refused := e.refused + 1 }, .error err)

/-- Submit an order; its queue ahead is measured at its exchange arrival. -/
def submit (e : L2Engine) (order : Working) (now : Nanos) : L2Engine :=
  if e.invalid then { e with inner := e.inner.submitWhileDepthInvalid order now }
  else
    let ahead := order.price.bind (queueFrom e.venue e.hasSnapshot order.side)
    { e with inner := e.inner.submitFromBook order now ahead }

/-- The measurement of a tick: the working copy with the counts of fills the
book could and could not price. -/
def measure (venue : VenueBook) : Measure (WorkingDepth × Nat × Nat) :=
  fun (working, swept, unswept) side qty =>
    match working.take venue side qty with
    | (some price, working) => (some price, working, swept + 1, unswept)
    | (none, working) => (none, working, swept, unswept + 1)

/-- Advance to an observation, pricing taker fills off the book. -/
def onTick (e : L2Engine) (tick : Tick) : L2Engine :=
  if e.invalid || e.recoveryBar then
    { e with
      recoveryBar := false
      invalidTicks := e.invalidTicks + 1
      inner := e.inner.onInvalidTick tick }
  else
    let inner := e.inner.sampleArrivals tick.stamp.exch (queueFrom e.venue e.hasSnapshot)
    let (inner, _, swept, unswept) :=
      inner.onTickWithImpact tick (measure e.venue) (⟨none, none⟩, 0, 0)
    { e with inner := inner, swept := e.swept + swept, unswept := e.unswept + unswept }

def cancel (e : L2Engine) (id : OrderId) : L2Engine × Bool :=
  let (inner, found) := e.inner.cancel id
  ({ e with inner := inner }, found)

def cancelAll (e : L2Engine) : L2Engine × Nat :=
  let (inner, withdrawn) := e.inner.cancelAll
  ({ e with inner := inner }, withdrawn)

def drainUnreported (e : L2Engine) : List L0Fill × L2Engine :=
  let (held, inner) := e.inner.drainUnreported
  (held, { e with inner := inner })

end L2Engine
