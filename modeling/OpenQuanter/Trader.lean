/-
# The map from a strategy's orders to a venue's (`oq-live/src/trader.rs`)

A strategy names an order by its own id, and the venue knows it by the client id the
session chose for it.  `Trader` holds the two together from when the order is known to
have landed until the venue says that it ended.  Strategy and venue are any: a `Strategy`
is its callbacks, and each call of the trader comes with what the venue answers in it.
-/
import OpenQuanter.LiveSession
import OpenQuanter.SortedAssoc

namespace Live

/-! ## What a strategy wants -/

/-- What a strategy asks for. -/
inductive Intent where
  | limit (id : OrderId) (side : Side) (price : PriceTicks) (qty : QtyLots) (offset : Offset)
  | market (id : OrderId) (side : Side) (qty : QtyLots) (offset : Offset)
  | cancel (id : OrderId)
  | cancelAll
  deriving DecidableEq, Repr

/-- The order an intent submits. -/
def Intent.submits : Intent → Option OrderId
  | .limit id _ _ _ _ => some id
  | .market id _ _ _ => some id
  | _ => none

inductive CloseReason where
  | liquidation
  | adl
  | settlement
  deriving DecidableEq, Repr

/-- Part of a position the venue closed on its own. -/
structure VenueClosed where
  instrument : InstrumentId
  reason : CloseReason
  leg : Side
  qty : QtyLots
  price : PriceTicks
  at_ : Nanos
  deriving DecidableEq, Repr

/-- How an order ended. -/
inductive Ending where
  | filled
  | cancelled
  deriving DecidableEq, Repr

/-- Why an order does not exist, or a cancel did not go through. -/
inductive Why where
  | breach (breach : Breach)
  | rejection (rejection : Rejection)
  | unresolved (why : String)
  deriving DecidableEq, Repr

/-- A strategy: what it makes of its state at each call. -/
structure Strategy (σ χ : Type) where
  onTick : σ → χ → σ × List Intent
  onFill : σ → Fill → χ → σ × List Intent
  onVenueClosed : σ → VenueClosed → χ → σ × List Intent
  onPlaced : σ → OrderId → Bool → σ
  onCancelFailed : σ → OrderId → Why → σ
  onEnded : σ → OrderId → Ending → σ × List Intent

/-- The same strategy, with a list of the orders it was told the end of. -/
def Strategy.recorded {σ χ : Type} (S : Strategy σ χ) : Strategy (σ × List OrderId) χ where
  onTick s ctx := let (s', intents) := S.onTick s.1 ctx; ((s', s.2), intents)
  onFill s fill ctx := let (s', intents) := S.onFill s.1 fill ctx; ((s', s.2), intents)
  onVenueClosed s closed ctx :=
    let (s', intents) := S.onVenueClosed s.1 closed ctx; ((s', s.2), intents)
  onPlaced s id accepted := (S.onPlaced s.1 id accepted, s.2)
  onCancelFailed s id why := (S.onCancelFailed s.1 id why, s.2)
  onEnded s id ending :=
    let (s', intents) := S.onEnded s.1 id ending; ((s', s.2 ++ [id]), intents)

/-! ## What a venue answers -/

/-- What the venue answers during one call, and the account the gate sees.  The number is
the intent's: one call may ask for an order's cancel more than once. -/
structure Venue where
  account : Nat → AccountState
  place : String → Placed
  orderStatus : String → Except String (Option OrderAck)
  cancel : Nat → String → Placed

/-- A venue names an order as it was named to it. -/
structure Venue.Echoes (venue : Venue) : Prop where
  place : ∀ c ack, venue.place c = .accepted ack → ack.clientId = c
  orderStatus : ∀ c ack, venue.orderStatus c = .ok (some ack) → ack.clientId = c

/-- The client id of the next order. -/
def Process.nextClientId (p : Process) : String :=
  match p.session.ids.next with
  | .ok (sequence, _) => IdRules.clientId p.session.issued p.session.separator sequence
  | .error _ => ""

/-- `Session::cancel`. -/
def Session.cancel (clientId : String) : Placed → Submission
  | .accepted ack => .sent ack.clientId
  | .rejected message => .rejected (.venue message)
  | .unknown reason => .unresolved clientId reason

/-! ## The trader -/

/-- What became of one intent. -/
inductive Outcome where
  | sent (id : OrderId) (clientId : String)
  | refused (id : OrderId) (why : Why)
  | unresolved (id : OrderId) (clientId why : String)
  | unknownOrder (id : OrderId)
  | cancelled (id : OrderId) (clientId : String)
  | cancelFailed (id : OrderId) (clientId : String) (why : Why)
  deriving DecidableEq, Repr

/-- After this long, that a venue has no such order says that it never landed. -/
def notFoundIsAnswerAfter : Nanos := 10_000_000_000

/-- A strategy, a session and the map between them.  The maps are by the numbers of the
strategy's ids, in their order. -/
structure Trader (σ : Type) where
  strategy : σ
  process : Process
  live : List (Nat × String)
  closing : Finset Nat
  withdrawn : Finset Nat
  intents : List Intent
  asked : List (Nat × Side × Option PriceTicks × QtyLots)
  unanswered : List (OrderId × String × Nanos)

namespace Trader

variable {σ χ : Type}

def new (strategy : σ) (process : Process) : Trader σ where
  strategy := strategy
  process := process
  live := []
  closing := ∅
  withdrawn := ∅
  intents := []
  asked := []
  unanswered := []

variable (S : Strategy σ χ) (t : Trader σ)

/-- The strategy's id of an order the venue is talking about. -/
def localId (clientId : String) : Option OrderId :=
  (t.live.find? (·.2 = clientId)).map fun e => UInt64.ofNat e.1

/-- An order is believed resting under this client id. -/
def rest (id : OrderId) (clientId : String) : Trader σ :=
  { t with live := SortedAssoc.upsert id.toNat (fun _ => clientId) clientId t.live }

/-- Withdraw one order. -/
def withdraw (venue : Venue) (i : Nat) (id : OrderId) (clientId : String) : Outcome :=
  match Session.cancel clientId (venue.cancel i clientId) with
  | .sent _ => .cancelled id clientId
  | .refused breach => .cancelFailed id clientId (.breach breach)
  | .rejected why => .cancelFailed id clientId (.rejection why)
  -- unknown is not success
  | .unresolved _ why => .cancelFailed id clientId (.unresolved why)

/-- Send one order.  `none` is the process stopped. -/
def send (venue : Venue) (i : Nat) (id : OrderId) (order : ProposedOrder) (now : Nanos) :
    Option (Trader σ × Outcome) :=
  let asked := (order.side, order.limitPrice, order.qty)
  let t := { t with asked := SortedAssoc.upsert id.toNat (fun _ => asked) asked t.asked }
  let clientId := t.process.nextClientId
  match t.process.submit order (venue.account i) now (venue.place clientId)
    (venue.orderStatus clientId) with
  | (_, none) => none
  | (process, some submitted) =>
    let t := { t with process := process }
    let closing := if order.reduceOnly then insert id.toNat t.closing else t.closing
    let unasked := t.asked.filter (·.1 ≠ id.toNat)
    match submitted with
    | .sent clientId => some ({ t.rest id clientId with closing := closing }, .sent id clientId)
    | .refused breach => some ({ t with asked := unasked }, .refused id (.breach breach))
    | .rejected why => some ({ t with asked := unasked }, .refused id (.rejection why))
    -- a take-profit that landed must still be kept by a halt
    | .unresolved clientId why =>
      some ({ t with closing := closing }, .unresolved id clientId why)

/-- Act on one intent. -/
def act (venue : Venue) (i : Nat) (now : Nanos) : Intent → Option (Trader σ × List Outcome)
  | .limit id side price qty offset =>
    (t.send venue i id ⟨side, some price, qty, offset = .closing⟩ now).map fun r => (r.1, [r.2])
  | .market id side qty offset =>
    (t.send venue i id ⟨side, none, qty, offset = .closing⟩ now).map fun r => (r.1, [r.2])
  | .cancel id =>
    match SortedAssoc.find id.toNat t.live with
    | some clientId => some (t, [withdraw venue i id clientId])
    | none => some (t, [.unknownOrder id])
  | .cancelAll => some (t, t.live.map fun e => withdraw venue i (UInt64.ofNat e.1) e.2)

/-- Act on the intents one after the other. -/
def acts (venue : Venue) (now : Nanos) :
    Nat → Trader σ → List Intent → Option (Trader σ × List Outcome)
  | _, t, [] => some (t, [])
  | i, t, intent :: rest => do
    let (t, out) ← t.act venue i now intent
    let (t, more) ← acts venue now (i + 1) t rest
    pure (t, out ++ more)

/-- Tell the strategy of one outcome; one that was not answered is kept instead. -/
def reportPlacement (now : Nanos) (t : Trader σ) : Outcome → Trader σ
  | .sent id _ => { t with strategy := S.onPlaced t.strategy id true }
  | .refused id _ => { t with strategy := S.onPlaced t.strategy id false }
  | .cancelFailed id _ why => { t with strategy := S.onCancelFailed t.strategy id why }
  | .unresolved id clientId _ => { t with unanswered := t.unanswered ++ [(id, clientId, now)] }
  | .unknownOrder _ | .cancelled _ _ => t

def reportPlacements (now : Nanos) (out : List Outcome) : Trader σ :=
  out.foldl (reportPlacement S now) t

/-- Act on what the strategy answered, and tell it what came of it. -/
def answering (venue : Venue) (now : Nanos) (told : σ × List Intent) :
    Option (Trader σ × List Outcome) := do
  let (t, out) ← acts venue now 0 { t with strategy := told.1, intents := told.2 } told.2
  pure (t.reportPlacements S now out, out)

def onTick (ctx : χ) (now : Nanos) (venue : Venue) : Option (Trader σ × List Outcome) :=
  t.answering S venue now (S.onTick t.strategy ctx)

def onFill (fill : Fill) (ctx : χ) (now : Nanos) (venue : Venue) :
    Option (Trader σ × List Outcome) :=
  t.answering S venue now (S.onFill t.strategy fill ctx)

def onVenueClosed (closed : VenueClosed) (ctx : χ) (now : Nanos) (venue : Venue) :
    Option (Trader σ × List Outcome) :=
  t.answering S venue now (S.onVenueClosed t.strategy closed ctx)

/-- The venue says an order has ended: forget its association. -/
def forget (clientId : String) : Trader σ :=
  let gone := (t.live.filter (·.2 = clientId)).map (·.1)
  { t with
    live := t.live.filter (·.1 ∉ gone)
    asked := t.asked.filter (·.1 ∉ gone)
    closing := t.closing.filter (· ∉ gone)
    withdrawn := t.withdrawn.filter (· ∉ gone) }

/-- Tell the strategy, then forget the association; an order of another process is only
forgotten. -/
def onEnded (clientId : String) (ending : Ending) (now : Nanos) (venue : Venue) :
    Option (Trader σ × List Outcome) :=
  match t.localId clientId with
  | none => some (t.forget clientId, [])
  | some id => do
    let (t, out) ← t.answering S venue now (S.onEnded t.strategy id ending)
    pure (t.forget clientId, out)

/-- Withdraw every live order that would add to the position, once each. -/
def withdrawOpening (venue : Venue) : Trader σ × List Outcome :=
  let opening := t.live.filter fun e => e.1 ∉ t.closing ∧ e.1 ∉ t.withdrawn
  let out := opening.map fun e => withdraw venue 0 (UInt64.ofNat e.1) e.2
  let gone := opening.filter fun e =>
    withdraw venue 0 (UInt64.ofNat e.1) e.2 = .cancelled (UInt64.ofNat e.1) e.2
  ({ t with withdrawn := t.withdrawn ∪ (gone.map (·.1)).toFinset }, out)

/-- What chasing has come to: the trader, the answers, and what is still open. -/
abbrev Chased (σ : Type) :=
  Trader σ × List (OrderId × Bool) × List (OrderId × String × Nanos)

/-- Ask again about one submission. -/
def chaseOne (venue : Venue) (now : Nanos) (c : Chased σ) (e : OrderId × String × Nanos) :
    Chased σ :=
  match venue.orderStatus e.2.1 with
  -- resting after all, so it is registered as any accepted order is
  | .ok (some _) => (c.1.rest e.1 e.2.1, c.2.1 ++ [(e.1, true)], c.2.2)
  | .ok none =>
    if notFoundIsAnswerAfter ≤ satSub now e.2.2 then
      ({ c.1 with
          closing := c.1.closing.erase e.1.toNat
          asked := c.1.asked.filter (·.1 ≠ e.1.toNat) }, c.2.1 ++ [(e.1, false)], c.2.2)
    else (c.1, c.2.1, c.2.2 ++ [e])
  | .error _ => (c.1, c.2.1, c.2.2 ++ [e])

/-- Ask the venue again about submissions that never got an answer. -/
def chaseUnanswered (now : Nanos) (venue : Venue) : Trader σ × List (OrderId × Bool) :=
  let c := t.unanswered.foldl (chaseOne venue now) ({ t with unanswered := [] }, [], [])
  ({ c.1 with
      unanswered := c.2.2
      strategy := c.2.1.foldl (fun s e => S.onPlaced s e.1 e.2) c.1.strategy }, c.2.1)

end Trader

end Live
