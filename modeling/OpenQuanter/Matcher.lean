/-
# Which matcher a holding uses (`oq-core/src/matcher.rs`)

The three tiers behind one interface.  A tier that does not read depth answers
`notRead` and is left as it is.
-/
import OpenQuanter.L2

/-- What a matcher did with a depth update. -/
inductive DepthOutcome
  | notRead
  | applied
  | refused (error : SequenceError)
  deriving DecidableEq, Repr

/-- The matcher a run is using. -/
inductive Matcher
  | l0 (e : L0Engine)
  | l1 (e : L1Engine)
  | l2 (e : L2Engine)

namespace Matcher

/-- Rest an order; `now` is when it was sent. -/
def submit (order : Working) (now : Nanos) : Matcher → Matcher
  | .l0 e => .l0 (e.submit order)
  | .l1 e => .l1 (e.submit order now)
  | .l2 e => .l2 (e.submit order now)

/-- Withdraw one order, wherever it currently is. -/
def cancel (id : OrderId) : Matcher → Matcher × Bool
  | .l0 e => let (e, found) := e.cancel id; (.l0 e, found)
  | .l1 e => let (e, found) := e.cancel id; (.l1 e, found)
  | .l2 e => let (e, found) := e.cancel id; (.l2 e, found)

/-- Withdraw every order, in flight and resting alike. -/
def cancelAll : Matcher → Matcher × Nat
  | .l0 e => let (e, n) := e.cancelAll; (.l0 e, n)
  | .l1 e => let (e, n) := e.cancelAll; (.l1 e, n)
  | .l2 e => let (e, n) := e.cancelAll; (.l2 e, n)

/-- Advance to an observation. -/
def onTick (tick : Tick) : Matcher → Matcher
  | .l0 e => .l0 (e.onTick tick)
  | .l1 e => .l1 (e.onTick tick)
  | .l2 e => .l2 (e.onTick tick)

/-- The fills the last observation handed over. -/
def fills : Matcher → List L0Fill
  | .l0 e => e.fills
  | .l1 e => e.released
  | .l2 e => e.inner.released

/-- Fills the matcher made and has not yet released, taken out of it. -/
def drainUnreported : Matcher → List L0Fill × Matcher
  | .l0 e => ([], .l0 e)
  | .l1 e => let (held, e) := e.drainUnreported; (held, .l1 e)
  | .l2 e => let (held, e) := e.drainUnreported; (held, .l2 e)

/-- The L0 engine at the bottom of the tier. -/
def anchor : Matcher → L0Engine
  | .l0 e => e
  | .l1 e => e.inner
  | .l2 e => e.inner.inner

/-- Orders resting in the book. -/
def book (m : Matcher) : Book := m.anchor.book

/-- The instrument being matched. -/
def instrument (m : Matcher) : InstrumentId := m.anchor.instrument

/-- Orders that exist but are not yet in the book. -/
def shadowed : Matcher → Nat
  | .l0 _ => 0
  | .l1 e => e.shadowed
  | .l2 e => e.inner.shadowed

/-- Snapshot the identifier watermark. -/
def idWatermark (m : Matcher) : UInt64 × UInt64 := (m.anchor.ids.nextOrder, m.anchor.ids.nextTrade)

/-- Apply a depth update, if this tier reads one. -/
def onDepth (update : DepthUpdate) : Matcher → Matcher × DepthOutcome
  | .l0 e => (.l0 e, .notRead)
  | .l1 e => (.l1 e, .notRead)
  | .l2 e =>
    match e.onDepth update with
    | (e, .ok ()) => (.l2 e, .applied)
    | (e, .error err) => (.l2 e, .refused err)

/-- A discontinuity is meaningful only at the tier that reads depth. -/
def onGap : Matcher → Matcher × Bool
  | .l0 e => (.l0 e, false)
  | .l1 e => (.l1 e, false)
  | .l2 e => (.l2 e.onGap, true)

/-- Seed the venue book from a snapshot, if this tier keeps one. -/
def installSnapshot (updateId : UInt64) (bids asks : List Level) : Matcher → Matcher × Bool
  | .l0 e => (.l0 e, false)
  | .l1 e => (.l1 e, false)
  | .l2 e => (.l2 (e.installSnapshot updateId bids asks), true)

/-- The same at a receive boundary. -/
def installSnapshotAt (at_ : Nanos) (updateId : UInt64) (bids asks : List Level) :
    Matcher → Matcher × Bool
  | .l0 e => (.l0 e, false)
  | .l1 e => (.l1 e, false)
  | .l2 e => (.l2 (e.installSnapshotAt at_ updateId bids asks), true)

end Matcher

/-! ## Scripts

What a host does to a matcher, one call after the other. -/

/-- The calls every tier reads. -/
inductive Op
  | submit (order : Working) (now : Nanos)
  | cancel (id : OrderId)
  | cancelAll
  | tick (t : Tick)

/-- Every call, those only L2 reads included. -/
inductive Input
  | op (op : Op)
  | depth (update : DepthUpdate)
  | gap
  | snapshot (updateId : UInt64) (bids asks : List Level)
  | snapshotAt (at_ : Nanos) (updateId : UInt64) (bids asks : List Level)

/-- What a call answers. -/
inductive Answer
  | done
  | found (was : Bool)
  | withdrawn (count : Nat)
  | filled (fills : List L0Fill)
  deriving DecidableEq, Repr

namespace Matcher

/-- One call, with its answer. -/
def call (m : Matcher) : Op → Matcher × Answer
  | .submit order now => (m.submit order now, .done)
  | .cancel id => ((m.cancel id).1, .found (m.cancel id).2)
  | .cancelAll => (m.cancelAll.1, .withdrawn m.cancelAll.2)
  | .tick t => (m.onTick t, .filled (m.onTick t).fills)

/-- The matcher after one input. -/
def step (m : Matcher) : Input → Matcher
  | .op op => (m.call op).1
  | .depth update => (m.onDepth update).1
  | .gap => m.onGap.1
  | .snapshot updateId bids asks => (m.installSnapshot updateId bids asks).1
  | .snapshotAt at_ updateId bids asks => (m.installSnapshotAt at_ updateId bids asks).1

/-- The orders the last observation executed, or whose execution it handed
over. -/
def executed (m : Matcher) : List OrderId := (m.anchor.fills ++ m.fills).map (·.fill.order)

/-- The orders executed at each tick of a script. -/
def executions (m : Matcher) : List Input → List (List OrderId)
  | [] => []
  | input :: rest =>
    match input with
    | .op (.tick t) => (m.onTick t).executed :: (m.onTick t).executions rest
    | _ => (m.step input).executions rest

end Matcher

/-- The ids a script submits, in order. -/
def submittedIds (script : List Input) : List OrderId :=
  script.filterMap (fun input =>
    match input with
    | .op (.submit order _) => some order.id
    | _ => none)
