/-
# The simulated venue (`Core` of `oq-live/src/sim.rs`)

A venue that moves its market, matches what rests there, and tells its account's
stream.  The stream may repeat an execution or lose what it has not told yet; a
placement may be answered by silence.  Which faults happen is drawn from one
generator (`oq-sim/src/lib.rs`), so a run is repeated by its seed.

The source panics where a counter or a leg leaves its machine integer; here
these are unbounded, and the results that need the counter's width say so.
-/
import OpenQuanter.FillReport
import OpenQuanter.SortedAssoc
import OpenQuanter.XorShift

/-! ## The generator -/

/-- xorshift64*.  A zero state would stay zero. -/
structure Rng where
  state : UInt64
  nonzero : state ≠ 0

namespace Rng

/-- The state after a draw. -/
def shift (x : UInt64) : UInt64 :=
  let x := x ^^^ (x >>> 12)
  let x := x ^^^ (x <<< 25)
  x ^^^ (x >>> 27)

theorem shift_injective : Function.Injective shift :=
  (XorShift.uint64_right_injective (by decide : 0 < ((27 : UInt64).toBitVec % 64).toNat)).comp
    ((XorShift.uint64_left_injective (by decide : 0 < ((25 : UInt64).toBitVec % 64).toNat)).comp
      (XorShift.uint64_right_injective (by decide : 0 < ((12 : UInt64).toBitVec % 64).toNat)))

theorem shift_ne_zero {x : UInt64} (h : x ≠ 0) : shift x ≠ 0 := by
  intro hzero
  have hsame : shift x = shift 0 := hzero
  exact h (shift_injective hsame)

def next (r : Rng) : Rng := ⟨shift r.state, shift_ne_zero r.nonzero⟩

/-- `next_u64`. -/
def nextU64 (r : Rng) : UInt64 × Rng := (r.next.state * 0x2545F4914F6CDD1D, r.next)

def below (r : Rng) (bound : UInt64) : UInt64 × Rng :=
  if bound = 0 then (0, r)
  else
    let (drawn, r) := r.nextU64
    (drawn % bound, r)

/-- True with probability `numerator / denominator`. -/
def chance (r : Rng) (numerator denominator : UInt64) : Bool × Rng :=
  if denominator = 0 then (false, r)
  else
    let (drawn, r) := r.below denominator
    (drawn < numerator, r)

end Rng

/-! ## The venue -/

namespace Sim

open Live (PositionSide NewOrder Placed)

/-- How often what goes wrong, in parts per million. -/
structure Faults where
  streamDrop : UInt32
  duplicate : UInt32
  unknownPlacement : UInt32
  rateLimited : UInt32
  partialFill : UInt32
  /-- When one fill is booked and told to nobody. -/
  silentFillAfter : Option Nat
  deriving DecidableEq, Repr

structure SimConfig where
  seed : UInt64
  symbol : String
  startPrice : Int64
  maxStep : Int64
  /-- Durations are nanoseconds. -/
  marketEvery : Nat
  idleStep : Nat
  faults : Faults
  priced : 0 < startPrice
  /-- A market that moves all the time would never let the clock go on. -/
  paced : 0 < marketEvery

/-- An order on the venue's book. -/
structure Resting where
  venueId : Nat
  leg : PositionSide
  side : Side
  price : Int64
  qty : Int64
  deriving DecidableEq, Repr

/-- An order that is over, with what was reported of it. -/
structure Finished where
  venueId : Nat
  status : String
  filled : Int64
  reports : List ExecutionReport

/-- What the venue is.  The books by client id are sorted lists. -/
structure Venue where
  cfg : SimConfig
  now : Nat
  rng : Rng
  price : Int64
  nextMarket : Nat
  tradeId : Nat
  resting : List (String × Resting)
  finished : List (String × Finished)
  nextVenueId : Nat
  legs : PositionSide → Int
  mostLegs : Nat
  events : List ExecutionReport
  connected : Bool
  generation : Nat
  silentAt : Option Nat

/-- The contract traded (`Instrument::linear(2, 3)`). -/
def instrument : Instrument where
  priceScale := 2
  qtyScale := 3
  contractSize := 100000000

/-- A price as text; the scale is small. -/
def px (ticks : Int64) : String := (Exec.decimal ticks instrument.priceScale).getD ""

def qtyText (lots : Int64) : String := (Exec.decimal lots instrument.qtyScale).getD ""

/-- What `fill` is called with. -/
structure Taken where
  clientId : String
  venueId : Nat
  leg : PositionSide
  side : Side
  price : Int64
  qty : Int64
  maker : Bool
  deriving DecidableEq, Repr

/-- What one call of the stream comes to. -/
inductive Outcome where
  | event (u : ExecutionReport)
  | idle
  | disconnected (why : String)

namespace Venue

def new (cfg : SimConfig) : Venue where
  cfg := cfg
  now := 0
  rng := if h : cfg.seed = 0 then ⟨1, by decide⟩ else ⟨cfg.seed, h⟩
  price := cfg.startPrice
  nextMarket := 0
  tradeId := 1
  resting := []
  finished := []
  nextVenueId := 1
  legs := fun _ => 0
  mostLegs := 0
  events := []
  connected := false
  generation := 0
  silentAt := none

variable (v : Venue)

/-- The clock's time of day. -/
def wall : Nanos := Int64.ofIntClamp (1788220800000000000 + v.now)

def draw (numerator denominator : UInt64) : Bool × Venue :=
  let (hit, rng) := v.rng.chance numerator denominator
  (hit, { v with rng := rng })

def chance (ppm : UInt32) : Bool × Venue :=
  if ppm = 0 then (false, v) else v.draw ppm.toUInt64 1000000

/-- Tell the stream, if it is connected: once, or twice. -/
def send (event : ExecutionReport) : Venue :=
  if !v.connected then v
  else
    let (twice, v) := v.chance v.cfg.faults.duplicate
    let events := if twice then v.events ++ [event] else v.events
    { v with events := events ++ [event] }

/-- How many legs are held. -/
def held (legs : PositionSide → Int) : Nat :=
  [PositionSide.oneWay, .long, .short].countP (legs · ≠ 0)

def signed (side : Side) (qty : Int64) : Int :=
  match side with
  | .buy => qty.toInt
  | .sell => -qty.toInt

/-- Book an execution on a leg. -/
def book (leg : PositionSide) (side : Side) (qty : Int64) : Venue :=
  let legs := Function.update v.legs leg (v.legs leg + signed side qty)
  { v with legs := legs, mostLegs := max v.mostLegs (held legs) }

/-- Book an execution under the next trade number. -/
def trade (leg : PositionSide) (side : Side) (qty : Int64) : Venue :=
  { v.book leg side qty with tradeId := v.tradeId + 1 }

/-- The report of one piece of a fill. -/
def execution (t : Taken) (piece cumulative : Int64) (last : Bool) : ExecutionReport where
  symbol := v.cfg.symbol
  clientId := t.clientId
  venueId := toString t.venueId
  status := if last then "FILLED" else "PARTIALLY_FILLED"
  lastQty := qtyText piece
  cumulativeQty := qtyText cumulative
  lastPrice := px t.price
  side := if t.side = .buy then "BUY" else "SELL"
  positionSide := t.leg.leg
  maker := t.maker
  tradeId := some (Int64.ofNat v.tradeId)
  fee := .unsaid

/-- One piece after another: booked, numbered, told. -/
def fillPieces (t : Taken) : List Int64 → Int64 → Venue → Venue × List ExecutionReport
  | [], _, v => (v, [])
  | piece :: rest, cumulative, v =>
    let cumulative := cumulative + piece
    let v := v.trade t.leg t.side piece
    let update := v.execution t piece cumulative rest.isEmpty
    let (v, reports) := fillPieces t rest cumulative (v.send update)
    (v, update :: reports)

/-- Write down how an order ended. -/
def finish (clientId : String) (f : Finished) : Venue :=
  { v with finished := SortedAssoc.upsert clientId (fun _ => f) f v.finished }

/-- Whether the fill at hand is the one that nobody is told of. -/
def silent : Bool := v.silentAt.isNone && v.cfg.faults.silentFillAfter.any (· ≤ v.now)

def pieces (qty : Int64) (split : Bool) : List Int64 :=
  if split then [qty / 2, qty - qty / 2] else [qty]

/-- Fill an order whole. -/
def fill (t : Taken) : Venue :=
  if v.silent then
    ({ v.book t.leg t.side t.qty with silentAt := some v.now } : Venue).finish t.clientId
      ⟨t.venueId, "FILLED", t.qty, []⟩
  else
    let (split, v) := if 2 ≤ t.qty then v.chance v.cfg.faults.partialFill else (false, v)
    let (v, reports) := fillPieces t (pieces t.qty split) 0 v
    v.finish t.clientId ⟨t.venueId, "FILLED", t.qty, reports⟩

/-- Whether a price reaches an order. -/
def reached (price : Int64) (o : Resting) : Bool :=
  match o.side with
  | .buy => price ≤ o.price
  | .sell => o.price ≤ price

def withoutResting (id : String) : Venue :=
  { v with resting := v.resting.filter (·.1 ≠ id) }

/-- Fill a resting order at its own price. -/
def fillResting (id : String) : Venue :=
  match SortedAssoc.find id v.resting with
  | some o => (v.withoutResting id).fill ⟨id, o.venueId, o.leg, o.side, o.price, o.qty, true⟩
  | none => v

/-- Fill the orders a price reaches, by client id. -/
def cross (price : Int64) : Venue :=
  ((v.resting.filter fun e => reached price e.2).map Prod.fst).foldl fillResting v

/-- One move of the market: a turn of the loop of `advance`. -/
def moveMarket : Venue :=
  let span := 2 * v.cfg.maxStep.toInt + 1
  let (drawn, rng) := v.rng.below (if span < 0 then 1 else UInt64.ofNat span.toNat)
  let step := Int64.ofNat drawn.toNat - v.cfg.maxStep
  let price := max (v.price + step) 1
  let v := { v with rng := rng, price := price, tradeId := v.tradeId + 1 }
  { v.cross price with nextMarket := v.nextMarket + v.cfg.marketEvery }

/-- How often the loop of `advance` turns. -/
def turns : Nat :=
  if v.nextMarket ≤ v.now then (v.now - v.nextMarket) / v.cfg.marketEvery + 1 else 0

/-- The market catches up with the clock. -/
def advance : Venue := moveMarket^[v.turns] v

/-- `clock.advance` and `advance`. -/
def elapse (d : Nat) : Venue := ({ v with now := v.now + d } : Venue).advance

/-- `sleep` of the simulated clock. -/
def sleep (d : Nat) : Venue := v.elapse d

/-! ### Orders -/

/-- A report that is no execution. -/
def update (clientId : String) (o : Resting) (status : String) : ExecutionReport where
  symbol := v.cfg.symbol
  clientId := clientId
  venueId := toString o.venueId
  status := status
  lastQty := "0"
  cumulativeQty := "0"
  lastPrice := "0"
  side := if o.side = .buy then "BUY" else "SELL"
  positionSide := o.leg.leg
  maker := false
  tradeId := none
  fee := .unsaid

def marketable (order : NewOrder) : Bool :=
  match order.limitPrice, order.side with
  | none, _ => true
  | some limit, .buy => v.price ≤ limit
  | some limit, .sell => limit ≤ v.price

def unknown : Placed := .unknown "sim: -1007 Timeout waiting for response from backend server"

def placeNow (order : NewOrder) : Venue × Placed :=
  let venueId := v.nextVenueId
  let next := { v with nextVenueId := v.nextVenueId + 1 }
  if v.marketable order then
    (next.fill ⟨order.clientId, venueId, order.positionSide, order.side, v.price, order.qty, false⟩,
      .accepted ⟨order.clientId, "FILLED"⟩)
  else
    let o : Resting :=
      ⟨venueId, order.positionSide, order.side, order.limitPrice.getD v.price, order.qty⟩
    let next :=
      { next with resting := SortedAssoc.upsert order.clientId (fun _ => o) o next.resting }
    (next.send (next.update order.clientId o "NEW"), .accepted ⟨order.clientId, "NEW"⟩)

/-- Whether a client id was used. -/
def knows (id : String) : Bool :=
  (SortedAssoc.find id v.resting).isSome || (SortedAssoc.find id v.finished).isSome

def place (order : NewOrder) : Venue × Placed :=
  if v.knows order.clientId then (v, .rejected "ClientOrderId is duplicated")
  else
    let (limited, v) := v.chance v.cfg.faults.rateLimited
    if limited then (v, .rejected "Too many requests.")
    else
      -- a timeout says nothing about which side of the engine the order reached
      let (unanswered, v) := v.chance v.cfg.faults.unknownPlacement
      let (lost, v) := if unanswered then v.draw 1 2 else (false, v)
      if lost then (v, unknown)
      else
        let (v, placed) := v.placeNow order
        (v, if unanswered then unknown else placed)

def cancel (id : String) : Venue × Placed :=
  match SortedAssoc.find id v.resting with
  | some o =>
    let report := v.update id o "CANCELED"
    let v := (v.withoutResting id).finish id ⟨o.venueId, "CANCELED", 0, [report]⟩
    (v.send report, .accepted ⟨id, "CANCELED"⟩)
  | none => (v, .rejected "Unknown order sent.")

/-- What the venue reports of an order when it is asked. -/
def recoverOrder (id : String) : List ExecutionReport :=
  ((SortedAssoc.find id v.finished).map Finished.reports).getD []

/-- `Sim::position`. -/
def position : Int := v.legs .oneWay + v.legs .long + v.legs .short

/-! ### The stream -/

/-- `user_events`: a new connection, and its number. -/
def connect : Venue := { v with connected := true, generation := v.generation + 1 }

/-- `SimUserEvents::next` of the connection of some number. -/
def next (generation : Nat) : Venue × Outcome :=
  if !v.connected || v.generation ≠ generation then
    (v.elapse v.cfg.idleStep, .disconnected "sim: the connection is gone")
  else
    let (drop, v) := v.chance v.cfg.faults.streamDrop
    if drop then
      ({ v with connected := false, events := [] }, .disconnected "sim: connection reset")
    else
      match v.events with
      | u :: rest => ({ v with events := rest }, .event u)
      | [] => (v.elapse v.cfg.idleStep, .idle)

end Venue

end Sim
