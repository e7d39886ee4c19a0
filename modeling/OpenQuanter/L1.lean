/-
# Fidelity tier L1: queue, latency and impact as policy (`oq-engine/src/l1.rs`)

L1 wraps an L0 engine.  An order is `pending` until its entry latency has
elapsed, then `queued` until the volume assumed ahead of it has traded, and only
then rests in the L0 engine underneath.  A fill of that engine is worsened by
the impact policy and may be `delayed` before it is released.

The impact penalty is the one place of the engine that uses floating point; it
only ever changes a fill's price.
-/
import OpenQuanter.L0

/-! ## The policy -/

/-- How much quantity is assumed to stand ahead of an order. -/
inductive QueueAhead
  | none
  | fixed (lots : QtyLots)
  | volumeMultiple (hundredths : UInt32)
  deriving DecidableEq, Repr

/-- A delay: one figure, or a distribution by its percentiles. -/
inductive Delay
  | fixed (nanos : Nanos)
  | measured (p50 p90 p99 p999 : Nanos)
  deriving DecidableEq, Repr

namespace Delay

/-- SplitMix64's finalizer. -/
def mix (z : UInt64) : UInt64 :=
  let z := z + 0x9E3779B97F4A7C15
  let x := (z ^^^ (z >>> 30)) * 0xBF58476D1CE4E5B9
  let x := (x ^^^ (x >>> 27)) * 0x94D049BB133111EB
  x ^^^ (x >>> 31)

/-- The delay of the order with this key. -/
def at_ (d : Delay) (key : UInt64) : Nanos :=
  match d with
  | .fixed n => n
  | .measured p50 p90 p99 p999 =>
    let u := mix key % 1000
    if u < 500 then p50 else if u < 900 then p90 else if u < 990 then p99 else p999

/-- Whether no order is ever delayed. -/
def isZero : Delay → Bool
  | .fixed n => n = 0
  | .measured p50 p90 p99 p999 => p50 = 0 && p90 = 0 && p99 = 0 && p999 = 0

end Delay

/-- Entry and response latency. -/
structure Latency where
  entry : Delay
  response : Delay
  deriving DecidableEq, Repr

/-- The square-root impact coefficient, in hundredths. -/
structure Impact where
  coefficient : UInt32
  deriving DecidableEq, Repr

/-- L1's assumptions. -/
structure Policy where
  queue : QueueAhead
  latency : Latency
  impact : Impact
  deriving DecidableEq, Repr

/-- `Policy::TRANSPARENT`: every assumption switched off. -/
def Policy.transparent : Policy :=
  ⟨.none, ⟨.fixed 0, .fixed 0⟩, ⟨0⟩⟩

/-! ## The engine's state -/

/-- An order waiting to become live at the venue. -/
structure Pending where
  measuredAhead : Option Int64
  sampleAtArrival : Bool
  since : Option Nanos
  liveAt : Nanos
  order : Working

/-- A resting order's remaining queue. -/
structure Queued where
  remaining : Int64
  since : Option Nanos
  order : Working

/-- A fill the venue has made and the strategy has not been told about. -/
structure Delayed where
  knownAt : Nanos
  fill : L0Fill

/-- L0, with L1's assumptions applied around it. -/
structure L1Engine where
  inner : L0Engine
  policy : Policy
  pending : List Pending
  queued : List Queued
  delayed : List Delayed
  released : List L0Fill
  prevVolume : Option QtyLots
  lastTraded : Option Int64
  prevAt : Option Nanos

/-! ## What one observation says -/

/-- Whether this observation traded at the order's price at all. -/
def touched (tick : Tick) (price : PriceTicks) : Bool := tick.low ≤ price && price ≤ tick.high

/-- Whether the price went clean through, leaving nothing ahead. -/
def gappedThrough (tick : Tick) (side : Side) (price : PriceTicks) : Bool :=
  if tick.high = 0 && tick.low = 0 then false
  else
    match side with
    | .buy => tick.high < price
    | .sell => price < tick.low

/-- What an observation does to a queued order: the entry with the traded volume
taken off, and whether the order is promoted to the book. -/
def Queued.onTick (q : Queued) (tick : Tick) (traded : Int64) (prevAt : Option Nanos) :
    Queued × Bool :=
  if q.since.any (fun since => prevAt.all (fun prev => prev < since)) then (q, false)
  else
    match q.order.price with
    | none => (q, true)
    | some price =>
      if gappedThrough tick q.order.side price then (q, true)
      else
        let remaining := if touched tick price then q.remaining - traded else q.remaining
        ({ q with remaining := remaining }, remaining ≤ 0)

/-- The square-root penalty, in ticks. -/
def impactPenalty (coefficient : UInt32) (range qty traded : Int64) : Int64 :=
  let share := qty.toFloat / traded.toFloat
  (coefficient.toFloat / 100.0 * range.toFloat * share.sqrt).toInt64

/-- Move a fill's price against its taker. -/
def L0Fill.withPrice (f : L0Fill) (price : PriceTicks) : L0Fill :=
  { f with fill := { f.fill with price := price } }

/-- Replace a taker fill's price with a measured one, against the taker. -/
def withMeasuredPrice (f : L0Fill) (measured : PriceTicks) : L0Fill :=
  f.withPrice
    (match f.fill.side with
    | .buy => max f.fill.price measured
    | .sell => min f.fill.price measured)

/-- Worsen a taker fill by the square-root impact penalty. -/
def Policy.withImpact (policy : Policy) (f : L0Fill) (tick : Tick) (traded : Int64) : L0Fill :=
  if policy.impact.coefficient = 0 || f.fill.liquidity ≠ .taker then f
  else if traded ≤ 0 then f
  else
    let range := max (tick.high - tick.low) 0
    if range = 0 then f
    else
      let penalty := impactPenalty policy.impact.coefficient range f.fill.qty traded
      if penalty = 0 then f
      else
        f.withPrice
          (match f.fill.side with
          | .buy => f.fill.price + penalty
          | .sell => f.fill.price - penalty)

/-- A measurement of what taking a size costs.  It may keep a state, since one
observation's fills deplete one book. -/
abbrev Measure (σ : Type) := σ → Side → QtyLots → Option PriceTicks × σ

/-- Ask the measurement what a taker fill costs; a maker fill is not asked
about. -/
def measuredTakerPrice {σ : Type} (measured : Measure σ) (s : σ) (f : L0Fill) :
    Option PriceTicks × σ :=
  if f.fill.liquidity ≠ .taker then (none, s) else measured s f.fill.side f.fill.qty

/-- Price the fills one after the other: measured where the measurement answers,
the policy's penalty where it does not. -/
def adjust {σ : Type} (policy : Policy) (tick : Tick) (traded : Int64) (measured : Measure σ) :
    σ → List L0Fill → List L0Fill × σ
  | s, [] => ([], s)
  | s, f :: rest =>
    let (answer, s) := measuredTakerPrice measured s f
    let f' :=
      match answer with
      | some price => withMeasuredPrice f price
      | none => policy.withImpact f tick traded
    let (rest', s) := adjust policy tick traded measured s rest
    (f' :: rest', s)

/-! ## The engine -/

namespace L1Engine

/-- Build an L1 engine over a fresh L0. -/
def new (instrument : InstrumentId) (policy : Policy) : L1Engine :=
  ⟨L0Engine.new instrument, policy, [], [], [], [], none, none, none⟩

/-- What the policy claims is queued ahead, when nothing measured it. -/
def assumedAhead (queue : QueueAhead) (arrivalVolume : Option Int64) : Int64 :=
  match queue with
  | .none => 0
  | .fixed q => q
  | .volumeMultiple m => m.toUInt64.toInt64 * arrivalVolume.getD 0 / 100

/-- `L1Engine::admit`: put an order into the book, or into a queue in front of
it. -/
def admitOrder (e : L1Engine) (order : Working) (arrivalVolume measured : Option Int64)
    (since : Option Nanos) : L1Engine :=
  let ahead :=
    match measured, order.price with
    | _, none => 0
    | some m, some _ => max m 0
    | none, some _ => assumedAhead e.policy.queue arrivalVolume
  if 0 < ahead then
    { e with
      queued := e.queued ++
        [{ remaining := ahead, since := if measured.isSome then since else none, order := order }] }
  else { e with inner := e.inner.submit order }

/-- Hold an order until its entry latency has elapsed, or pass it on at once. -/
def submitQueue (e : L1Engine) (order : Working) (now : Nanos) (ahead : Option Int64)
    (sampleAtArrival : Bool) : L1Engine :=
  let delay := e.policy.latency.entry.at_ order.id
  if if sampleAtArrival then 0 < delay else !e.policy.latency.entry.isZero then
    let liveAt := satAdd now delay
    { e with
      pending := e.pending ++
        [{ liveAt := liveAt, order := order, measuredAhead := ahead,
           sampleAtArrival := sampleAtArrival,
           since := if sampleAtArrival then some liveAt else none }] }
  else e.admitOrder order e.lastTraded ahead (if sampleAtArrival then some now else none)

/-- Submit an order. -/
def submit (e : L1Engine) (order : Working) (now : Nanos) : L1Engine :=
  e.submitQueue order now none false

def submitFromBook (e : L1Engine) (order : Working) (now : Nanos) (ahead : Option Int64) :
    L1Engine :=
  e.submitQueue order now ahead true

def submitWhileDepthInvalid (e : L1Engine) (order : Working) (now : Nanos) : L1Engine :=
  let liveAt := satAdd now (e.policy.latency.entry.at_ order.id)
  { e with
    pending := e.pending ++
      [{ order := order, liveAt := liveAt, measuredAhead := none, sampleAtArrival := true,
         since := some liveAt }] }

/-- Seal the queue readings of the orders that have arrived by `now`. -/
def sampleArrivals (e : L1Engine) (now : Nanos) (queue : Side → PriceTicks → Option Int64) :
    L1Engine :=
  { e with
    pending := e.pending.map (fun p =>
      if p.sampleAtArrival && p.liveAt ≤ now then
        { p with
          measuredAhead := p.order.price.bind (fun price => queue p.order.side price)
          sampleAtArrival := false }
      else p) }

/-- Withdraw an order, wherever it currently is. -/
def cancel (e : L1Engine) (id : OrderId) : L1Engine × Bool :=
  let pending := e.pending.filter (·.order.id ≠ id)
  let queued := e.queued.filter (·.order.id ≠ id)
  if pending.length + queued.length < e.pending.length + e.queued.length then
    ({ e with pending := pending, queued := queued }, true)
  else
    let (inner, found) := e.inner.cancel id
    ({ e with pending := pending, queued := queued, inner := inner }, found)

/-- Withdraw every order, in flight and resting alike. -/
def cancelAll (e : L1Engine) : L1Engine × Nat :=
  let inFlight := e.pending.length + e.queued.length
  let (inner, resting) := e.inner.cancelAll
  ({ e with pending := [], queued := [], inner := inner }, inFlight + resting)

/-- Orders that exist but are not yet in the book. -/
def shadowed (e : L1Engine) : Nat := e.pending.length + e.queued.length

/-- Preserve orders and release already-executed responses, but invent no
execution while the L2 input is invalid. -/
def onInvalidTick (e : L1Engine) (tick : Tick) : L1Engine :=
  { e with
    released := (e.delayed.filter (·.knownAt ≤ tick.stamp.exch)).map Delayed.fill
    delayed := e.delayed.filter (fun d => !(d.knownAt ≤ tick.stamp.exch))
    prevVolume := some tick.volume
    prevAt := some tick.stamp.exch
    inner := e.inner.forgetPricePath }

def invalidateDepth (e : L1Engine) : L1Engine :=
  { e with
    inner := e.inner.forgetPricePath
    prevVolume := none
    prevAt := none
    pending := e.pending.map (fun p => { p with sampleAtArrival := true, measuredAhead := none }) }

/-- Put a resting limit order back behind the queue displayed at its price. -/
def requeue (queue : Side → PriceTicks → Int64) (e : L1Engine) (r : Resting) : L1Engine :=
  match r.order.price with
  | none => e
  | some price =>
    let ahead := queue r.order.side price
    if 0 < ahead then
      { e with
        inner := (e.inner.cancel r.id).1
        queued := e.queued ++
          [{ order := r.order, remaining := ahead, since := some Int64.minValue }] }
    else e

/-- Lost priority cannot be recovered from a snapshot: retain the larger of the
old queue and the new displayed queue. -/
def resumeDepth (e : L1Engine) (queue : Side → PriceTicks → Int64) : L1Engine :=
  let e := { e with prevVolume := none, prevAt := none, inner := e.inner.forgetPricePath }
  let resting := e.inner.book.iter.insertionSort (fun a b => a.arrival ≤ b.arrival)
  let e := resting.foldl (requeue queue) e
  { e with
    queued := e.queued.map (fun q =>
      match q.order.price with
      | none => q
      | some price =>
        { q with
          remaining := max q.remaining (queue q.order.side price)
          since := some Int64.minValue }) }

/-- Volume that traded in this observation. -/
def tradedVolume (e : L1Engine) (tick : Tick) : Int64 :=
  match e.prevVolume with
  | some prev => max (satSub tick.volume prev) 0
  | none => 0

/-- Orders whose entry latency has elapsed reach the venue. -/
def arrive (e : L1Engine) (now : Nanos) (traded : Int64) : L1Engine :=
  let arriving := e.pending.filter (·.liveAt ≤ now)
  let e := { e with pending := e.pending.filter (fun p => !(p.liveAt ≤ now)) }
  arriving.foldl (fun e p => e.admitOrder p.order (some traded) p.measuredAhead p.since) e

/-- Queues deplete, and the orders they release go to the book. -/
def promote (e : L1Engine) (tick : Tick) (traded : Int64) : L1Engine :=
  let depleted := e.queued.map (fun q => q.onTick tick traded e.prevAt)
  let promoted := (depleted.filter (·.2)).map (·.1.order)
  { e with
    queued := (depleted.filter (fun q => !q.2)).map (·.1)
    inner := promoted.foldl L0Engine.submit e.inner }

/-- Response latency holds a fill back from the strategy. -/
def release (e : L1Engine) (now : Nanos) (fills : List L0Fill) : L1Engine :=
  if !e.policy.latency.response.isZero then
    let delayed := e.delayed ++ fills.map (fun f =>
      { knownAt := now + e.policy.latency.response.at_ f.fill.order, fill := f })
    { e with
      released := (delayed.filter (·.knownAt ≤ now)).map Delayed.fill
      delayed := delayed.filter (fun d => now < d.knownAt) }
  else { e with released := fills }

/-- Advance to an observation, pricing taker fills from a measurement where one
is available. -/
def onTickWithImpact {σ : Type} (e : L1Engine) (tick : Tick) (measured : Measure σ) (s : σ) :
    L1Engine × σ :=
  let now := tick.stamp.exch
  let traded := e.tradedVolume tick
  let e := (e.arrive now traded).promote tick traded
  let e := { e with inner := e.inner.onTick tick }
  let (adjusted, s) := adjust e.policy tick traded measured s e.inner.fills
  let e := e.release now adjusted
  ({ e with
     lastTraded := if e.prevVolume.isSome then some traded else e.lastTraded
     prevVolume := some tick.volume
     prevAt := some now }, s)

/-- Advance to an observation; the fills the strategy may know are `released`. -/
def onTick (e : L1Engine) (tick : Tick) : L1Engine :=
  (e.onTickWithImpact tick (fun s _ _ => (none, s)) ()).1

/-- Hand over every fill still held back, in the order the strategy would have
learned of them. -/
def drainUnreported (e : L1Engine) : List L0Fill × L1Engine :=
  ((e.delayed.insertionSort (fun a b => a.knownAt ≤ b.knownAt)).map Delayed.fill,
    { e with delayed := [] })

end L1Engine
