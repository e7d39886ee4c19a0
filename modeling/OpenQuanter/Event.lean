/-
# What the kernel consumes and produces (`oq-core/src/event.rs`, `kernel.rs`)

Every input of the core is an `Event`, every result an `Output`.
-/
import OpenQuanter.RestingBook
import OpenQuanter.VenueBook

/-- An input of the kernel. -/
inductive Event
  | tick (instrument : Option InstrumentId) (tick : Tick)
  | submit (instrument : Option InstrumentId) (id : OrderId) (side : Side)
      (price : Option PriceTicks) (qty : QtyLots) (offset : Offset) (stamp : Stamp)
  | cancel (id : OrderId) (stamp : Stamp)
  | funding (instrument : Option InstrumentId) (at_ : Nanos) (rate : Ratio) (mark : PriceTicks)
  | fundingCharged (instrument : Option InstrumentId) (at_ : Nanos) (amount : Cash)
  | feeRecovered (at_ : Nanos) (amount : Cash) (remainingMissing : UInt64)
  | time (at_ : Nanos)
  | marginDeposit (amount : Int64) (at_ : Nanos)
  | venueFill (fill : Fill) (fee : Fee)
  | depth (update : DepthUpdate)
  deriving DecidableEq, Repr

/-- Why a submission was refused. -/
inductive RejectReason
  | nonPositiveQty
  | duplicateId
  | noMargin
  | notVenueMatched
  | unroutableObservation
  deriving DecidableEq, Repr

/-- The venue closed a holding. -/
structure Liquidation where
  at_ : Nanos
  price : PriceTicks
  qty : QtyLots
  /-- The account's balance after the venue settled it. -/
  equity : Cash
  /-- What the account still had and the venue kept; on the last output of one
  liquidation, zero on the others. -/
  forfeited : Cash
  instrument : InstrumentId
  long : QtyLots
  short : QtyLots
  deriving DecidableEq, Repr

/-- Something the core produced. -/
inductive Output
  | filled (fill : Fill)
  | cancelled (id : OrderId)
  | rejected (id : OrderId) (reason : RejectReason)
  | funded (amount : Cash) (at_ : Nanos)
  | liquidated (l : Liquidation)
  deriving DecidableEq, Repr
