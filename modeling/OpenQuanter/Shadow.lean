/-
# The engine beside the live session (`oq-live/src/shadow.rs`)

A shadow is fed what the session sees and what the venue fills.  A fill of one side waits for
a fill of the other on the same order; what waits longer than a grace period is reported as
made by one side only.
-/
import OpenQuanter.Attribution
import OpenQuanter.Kernel

/-- When an event happened. -/
def Event.at_ : Event → Nanos
  | .tick _ t => t.stamp.exch
  | .submit _ _ _ _ _ _ stamp => stamp.exch
  | .cancel _ stamp => stamp.exch
  | .funding _ at_ _ _ => at_
  | .fundingCharged _ at_ _ => at_
  | .feeRecovered at_ _ _ => at_
  | .time at_ => at_
  | .marginDeposit _ at_ => at_
  | .venueFill fill _ => fill.stamp.exch
  | .depth update => satMul update.eventMs 1000000

namespace Live

open Parity

/-! ## Divergences -/

/-- How the model and the venue parted company. -/
inductive Divergence where
  | modelOnly (id : OrderId) (price : PriceTicks) (qty : QtyLots) (at_ : Nanos)
  | venueOnly (id : OrderId) (price : PriceTicks) (qty : QtyLots) (at_ : Nanos)
  | price (id : OrderId) (model venue : PriceTicks)
  | quantity (id : OrderId) (model venue : QtyLots)
  | position (model venue : QtyLots) (at_ : Nanos)
  deriving DecidableEq, Repr

/-- Whether this one makes the backtest look better than reality. -/
def Divergence.flattersTheModel : Divergence → Bool
  | .modelOnly .. => true
  | _ => false

/-- A fill one side made, as it is logged. -/
structure LoggedFill where
  at_ : Nanos
  id : OrderId
  side : Side
  price : PriceTicks
  qty : QtyLots
  deriving DecidableEq, Repr

/-- A fill that waits for the other side. -/
structure Pending extends LoggedFill where
  /-- The price prevailing when this fill happened. -/
  reference : Option PriceTicks
  deriving DecidableEq, Repr

/-! ## The shadow -/

/-- What the model started from. -/
structure ModelSeed where
  instrument : InstrumentId
  tickCash : Int64
  balance : Cash
  mode : PositionMode
  legs : List (Side × QtyLots × PriceTicks)
  clean : Bool
  deriving DecidableEq, Repr

/-- The engine, run beside a live session. -/
structure Shadow where
  kernel : Kernel
  seed : ModelSeed
  pairingValid : Bool
  /-- The last observation, for the prevailing price at a fill. -/
  last : Option PriceTicks
  matched : List Matched
  unpaired : List Unmatched
  unmatchedModel : List Pending
  unmatchedVenue : List Pending
  divergences : List Divergence
  modelLog : List LoggedFill
  venueLog : List LoggedFill
  applied : Nat
  grace : Nanos

namespace Shadow

/-- The legs of a state, as a seed tells them. -/
def seedLegs (h : Holding) : List (Side × QtyLots × PriceTicks) :=
  (if h.qty ≠ 0 then [(if 0 < h.qty then .buy else .sell, satAbs h.qty, h.entry)] else []) ++
    if h.shortQty ≠ 0 then [(.sell, satAbs h.shortQty, h.shortEntry)] else []

/-- Start from a stated model seed. -/
def fromState (state : State) : Shadow where
  kernel := Kernel.new state
  seed :=
    { instrument := state.holding.instrument
      tickCash := state.holding.contract.tickCash
      balance := state.balance
      mode := state.mode
      legs := seedLegs state.holding
      clean := state.realized = 0 && state.fees = 0 && state.funding = 0 }
  pairingValid := true
  last := none
  matched := []
  unpaired := []
  unmatchedModel := []
  unmatchedVenue := []
  divergences := []
  modelLog := []
  venueLog := []
  applied := 0
  grace := 2000000000

variable (s : Shadow)

/-- How long a fill may go unmatched before it counts as a divergence. -/
def withGrace (grace : Nanos) : Shadow := { s with grace := grace }

/-! ### Pairing -/

/-- What is reported of a pair whose prices or quantities differ. -/
def differences (model venue : LoggedFill) : List Divergence :=
  (if model.price ≠ venue.price then [.price model.id model.price venue.price] else []) ++
    if model.qty ≠ venue.qty then [.quantity model.id model.qty venue.qty] else []

/-- Keep a fill both sides made, whether or not they differ. -/
def pair (model venue : LoggedFill) (reference : Option PriceTicks) : Shadow :=
  { s with
    pairingValid := s.pairingValid && (model.side = venue.side && model.qty = venue.qty)
    matched := s.matched ++ [⟨model.side, model.qty, model.price, venue.price, reference⟩]
    divergences := s.divergences ++ differences model venue }

/-- A fill the model made: matched by its order with a fill of the venue that waits, or
waiting. -/
def recordModelFill (made : Fill) (at_ : Nanos) : Shadow :=
  let fill : LoggedFill := ⟨at_, made.order, made.side, made.price, made.qty⟩
  let s := { s with modelLog := s.modelLog ++ [fill] }
  match s.unmatchedVenue.find? fun p => p.id = fill.id with
  | some venue =>
    { s with unmatchedVenue := s.unmatchedVenue.eraseP fun p => p.id = fill.id }.pair
      fill venue.toLoggedFill s.last
  | none => { s with unmatchedModel := s.unmatchedModel ++ [⟨fill, s.last⟩] }

/-- A fill one side made and the other did not. -/
def unmatchedOf (atVenue : Bool) (p : Pending) : Unmatched :=
  ⟨p.side, p.qty, p.price, p.reference, atVenue⟩

/-- What is reported of a fill that only one side made. -/
def onlyOf (atVenue : Bool) (p : Pending) : Divergence :=
  if atVenue then .venueOnly p.id p.price p.qty p.at_ else .modelOnly p.id p.price p.qty p.at_

/-- Report fills of one side as made by it alone. -/
def report (atVenue : Bool) (fills : List Pending) : Shadow :=
  { s with
    divergences := s.divergences ++ fills.map (onlyOf atVenue)
    unpaired := s.unpaired ++ fills.map (unmatchedOf atVenue) }

/-- Promote anything that has waited longer than the grace period. -/
def expire (now : Nanos) : Shadow :=
  let cutoff := satSub now s.grace
  let s := { s with unmatchedModel := s.unmatchedModel.filter fun p => cutoff < p.at_ }.report false
    (s.unmatchedModel.filter fun p => p.at_ ≤ cutoff)
  { s with unmatchedVenue := s.unmatchedVenue.filter fun p => cutoff < p.at_ }.report true
    (s.unmatchedVenue.filter fun p => p.at_ ≤ cutoff)

/-! ### Operations -/

/-- The fills among some outputs. -/
def filled (outputs : List Output) : List Fill :=
  outputs.filterMap fun
    | .filled fill => some fill
    | _ => none

/-- Feed the shadow an event the session also saw. -/
def apply (event : Event) : Books Shadow := do
  let kernel ← s.kernel.apply event
  let s := { s with applied := s.applied + 1, kernel := kernel }
  let s := (filled kernel.outputs).foldl (fun s fill => s.recordModelFill fill event.at_) s
  pure (s.expire event.at_)

/-- An observation: its price prevails for the fills the kernel makes of it. -/
def onTick (tick : Tick) : Books Shadow :=
  { s with last := some tick.last }.apply (.tick none tick)

/-- Withdraw every model order the process no longer has resting. -/
def withdrawAbsent (live : OrderId → Bool) (at_ : Nanos) : Books Shadow :=
  (s.kernel.working.filter fun id => !live id).foldlM
    (fun (s : Shadow) id => s.apply (.cancel id ⟨at_, at_⟩)) s

/-- Tell the shadow what the venue did: matched by its order with a fill of the model that
waits, or waiting. -/
def onVenueFill (id : OrderId) (side : Side) (price : PriceTicks) (qty : QtyLots) (at_ : Nanos) :
    Shadow :=
  let fill : LoggedFill := ⟨at_, id, side, price, qty⟩
  let s := { s with venueLog := s.venueLog ++ [fill] }
  match s.unmatchedModel.find? fun p => p.id = id with
  | some model =>
    { s with unmatchedModel := s.unmatchedModel.eraseP fun p => p.id = id }.pair
      model.toLoggedFill fill model.reference
  | none =>
    let waiting : Pending := ⟨fill, s.last⟩
    { s with unmatchedVenue := s.unmatchedVenue ++ [waiting] }.expire at_

/-- The model's net position: the short leg is held negative. -/
def netPosition : QtyLots := s.kernel.state.holding.qty + s.kernel.state.holding.shortQty

/-- Compare the model's net position against the venue's. -/
def comparePosition (venue : QtyLots) (at_ : Nanos) : Shadow :=
  if s.netPosition ≠ venue then
    { s with divergences := s.divergences ++ [.position s.netPosition venue at_] }
  else s

/-- Flush anything still unmatched, at the end of a run. -/
def finish (at_ : Nanos) : Shadow := { s with grace := 0 }.expire at_

/-! ### Results -/

/-- Fees the model charged itself. -/
def modelFees : Cash := s.kernel.state.fees

def modelFeesKnown : Bool := s.kernel.state.feesKnown

/-- The model's realized result. -/
def modelPnl : Books Cash := do
  let net ← Books.checked (s.kernel.state.realized.toInt - s.kernel.state.fees.toInt)
  Books.checked (net.toInt + s.kernel.state.funding.toInt)

/-- Everything the attribution needs from this run.  Funding and fees are the caller's, and
the model's fees must be those the model charged. -/
def evidence (funding : Except String (Cash × Cash)) (fees : Option (Cash × Cash)) : Evidence where
  matched := s.matched
  unmatched := s.unpaired
  funding := funding.toOption
  fundingUnavailable :=
    match funding with
    | .ok _ => none
    | .error why => some why
  fees := fees.filter fun f => s.modelFeesKnown && f.2 = Cash.neg s.modelFees

/-- Whether this shadow started from a clean seed of these terms. -/
def seedMatches (instrument : InstrumentId) (tickCash : Int64) (balance : Cash)
    (mode : PositionMode)
    (legs : List (Side × QtyLots × PriceTicks)) : Bool :=
  s.seed.clean && s.seed.instrument = instrument && s.seed.tickCash = tickCash &&
    s.seed.balance = balance && s.seed.mode = mode && s.seed.legs = legs

end Shadow

/-- An operation of a shadow. -/
inductive ShadowOp where
  | apply (event : Event)
  | onTick (tick : Tick)
  | onVenueFill (id : OrderId) (side : Side) (price : PriceTicks) (qty : QtyLots) (at_ : Nanos)
  | withdrawAbsent (live : OrderId → Bool) (at_ : Nanos)
  | comparePosition (venue : QtyLots) (at_ : Nanos)

namespace Shadow

/-- One operation. -/
def step (s : Shadow) : ShadowOp → Books Shadow
  | .apply event => s.apply event
  | .onTick tick => s.onTick tick
  | .onVenueFill id side price qty at_ => pure (s.onVenueFill id side price qty at_)
  | .withdrawAbsent live at_ => s.withdrawAbsent live at_
  | .comparePosition venue at_ => pure (s.comparePosition venue at_)

/-- A run of operations. -/
def run (s : Shadow) (ops : List ShadowOp) : Books Shadow := ops.foldlM step s

end Shadow

end Live

/-! ## What is logged -/

namespace Kernel

/-- The fills a run of events makes, each with the time of its event. -/
def fillsMade (k : Kernel) : List Event → List (Nanos × Fill)
  | [] => []
  | event :: events =>
    (Live.Shadow.filled (k.apply event).val.outputs).map (fun fill => (event.at_, fill)) ++
      (k.apply event).val.fillsMade events

theorem fillsMade_append (k : Kernel) (events events' : List Event) :
    k.fillsMade (events ++ events') =
      k.fillsMade events ++ (k.run events).val.fillsMade events' := by
  induction events generalizing k with
  | nil => rfl
  | cons event events ih =>
    rw [List.cons_append, fillsMade, ih, fillsMade, List.append_assoc]
    rfl

end Kernel

namespace Live

/-- A fill of the model, as it is logged. -/
def LoggedFill.ofModel (made : Nanos × Fill) : LoggedFill :=
  ⟨made.1, made.2.order, made.2.side, made.2.price, made.2.qty⟩

/-- The fill of the venue an operation tells of. -/
def ShadowOp.told : ShadowOp → Option LoggedFill
  | .onVenueFill id side price qty at_ => some ⟨at_, id, side, price, qty⟩
  | _ => none

namespace Shadow

/-- The events an operation feeds the model. -/
def eventsOf (s : Shadow) : ShadowOp → List Event
  | .apply event => [event]
  | .onTick tick => [.tick none tick]
  | .withdrawAbsent live at_ =>
    (s.kernel.working.filter fun id => !live id).map fun id => .cancel id ⟨at_, at_⟩
  | _ => []

/-- The events a run feeds the model. -/
def events (s : Shadow) : List ShadowOp → List Event
  | [] => []
  | op :: ops => s.eventsOf op ++ (s.step op).val.events ops

/-- The shadow has run the model over some events, and the logs have grown by what the model
filled and by what the venue is said to have filled. -/
structure Fed (s t : Shadow) (events : List Event) (told : List LoggedFill) : Prop where
  kernel : t.kernel = (s.kernel.run events).val
  modelLog : t.modelLog = s.modelLog ++ (s.kernel.fillsMade events).map LoggedFill.ofModel
  venueLog : t.venueLog = s.venueLog ++ told

theorem Fed.refl (s : Shadow) : s.Fed s [] [] where
  kernel := rfl
  modelLog := (List.append_nil _).symm
  venueLog := (List.append_nil _).symm

theorem Fed.trans {s t u : Shadow} {events events' : List Event} {told told' : List LoggedFill}
    (h : s.Fed t events told) (h' : t.Fed u events' told') :
    s.Fed u (events ++ events') (told ++ told') where
  kernel := by
    rw [h'.kernel, h.kernel, Kernel.run, Kernel.run, Kernel.run, List.foldlM_append]
    rfl
  modelLog := by
    rw [h'.modelLog, h.modelLog, h.kernel, Kernel.fillsMade_append, List.map_append,
      List.append_assoc]
  venueLog := by rw [h'.venueLog, h.venueLog, List.append_assoc]

theorem recordModelFill_logs (s : Shadow) (made : Fill) (at_ : Nanos) :
    (s.recordModelFill made at_).kernel = s.kernel ∧
      (s.recordModelFill made at_).modelLog = s.modelLog ++ [.ofModel (at_, made)] ∧
      (s.recordModelFill made at_).venueLog = s.venueLog := by
  unfold recordModelFill
  simp only
  split <;> exact ⟨rfl, rfl, rfl⟩

theorem recordModelFills_logs (fills : List Fill) (at_ : Nanos) (s : Shadow) :
    let t := fills.foldl (fun s fill => s.recordModelFill fill at_) s
    t.kernel = s.kernel ∧
      t.modelLog = s.modelLog ++ fills.map (fun fill => LoggedFill.ofModel (at_, fill)) ∧
      t.venueLog = s.venueLog := by
  induction fills generalizing s with
  | nil => exact ⟨rfl, (List.append_nil _).symm, rfl⟩
  | cons made fills ih =>
    obtain ⟨hkernel, hmodel, hvenue⟩ := s.recordModelFill_logs made at_
    obtain ⟨hkernel', hmodel', hvenue'⟩ := ih (s.recordModelFill made at_)
    refine ⟨hkernel'.trans hkernel, ?_, hvenue'.trans hvenue⟩
    rw [List.foldl_cons, hmodel', hmodel, List.append_assoc]
    rfl

theorem fed_apply (s : Shadow) (event : Event) : s.Fed (s.apply event).val [event] [] := by
  let k := (s.kernel.apply event).val
  obtain ⟨hkernel, hmodel, hvenue⟩ := recordModelFills_logs (filled k.outputs) event.at_
    { s with applied := s.applied + 1, kernel := k }
  refine ⟨hkernel, hmodel.trans ?_, hvenue.trans (List.append_nil _).symm⟩
  rw [Kernel.fillsMade, Kernel.fillsMade, List.append_nil, List.map_map]
  rfl

theorem fed_onVenueFill (s : Shadow) (id : OrderId) (side : Side) (price : PriceTicks)
    (qty : QtyLots) (at_ : Nanos) :
    s.Fed (s.onVenueFill id side price qty at_) [] [⟨at_, id, side, price, qty⟩] := by
  unfold onVenueFill
  simp only
  split <;> exact ⟨rfl, (List.append_nil _).symm, rfl⟩

/-- Cancels feed the model one event each. -/
theorem fed_cancels (at_ : Nanos) (ids : List OrderId) (s : Shadow) :
    s.Fed (ids.foldlM (fun (s : Shadow) id => s.apply (.cancel id ⟨at_, at_⟩)) s).val
      (ids.map fun id => .cancel id ⟨at_, at_⟩) [] := by
  induction ids generalizing s with
  | nil => exact Fed.refl s
  | cons id ids ih =>
    rw [List.foldlM_cons]
    exact (s.fed_apply (.cancel id ⟨at_, at_⟩)).trans (ih _)

theorem fed_step (s : Shadow) (op : ShadowOp) :
    s.Fed (s.step op).val (s.eventsOf op) op.told.toList := by
  cases op with
  | apply event => exact s.fed_apply event
  | onTick tick =>
    have h := fed_apply { s with last := some tick.last } (.tick none tick)
    exact ⟨h.kernel, h.modelLog, h.venueLog⟩
  | onVenueFill id side price qty at_ => exact s.fed_onVenueFill id side price qty at_
  | withdrawAbsent live at_ => exact fed_cancels at_ _ s
  | comparePosition venue at_ =>
    show s.Fed (s.comparePosition venue at_) [] []
    unfold comparePosition
    split
    · exact ⟨rfl, (List.append_nil _).symm, (List.append_nil _).symm⟩
    · exact Fed.refl s

/-- **The logs are all the fills**: what the model made of its events, and what the venue is
said to have filled, in their order. -/
theorem fed_run (s : Shadow) (ops : List ShadowOp) :
    s.Fed (s.run ops).val (s.events ops) (ops.filterMap ShadowOp.told) := by
  induction ops generalizing s with
  | nil => exact Fed.refl s
  | cons op ops ih =>
    have htold : (op :: ops).filterMap ShadowOp.told =
        op.told.toList ++ ops.filterMap ShadowOp.told := by
      rw [List.filterMap_cons]
      cases op.told <;> rfl
    rw [htold]
    exact (s.fed_step op).trans (ih _)

end Shadow

end Live
