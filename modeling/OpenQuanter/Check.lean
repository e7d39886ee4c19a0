/-
# The liquidation check is the last act of an event

Three kinds of event end in `checkLiquidation`: a tick, a funding settlement and
a venue fill.  `Kernel.booked` is everything an event does before that, with the
price the check is then made at, and `apply_eq` puts the two together.  What an
event does to the position, and what the check does to it, can so be said apart.

The second half says what no event changes: the account's setup (`SameSetup`).
-/
import OpenQuanter.Kernel

namespace Kernel

variable (k : Kernel)

/-! ## Booking and checking -/

/-- What a tick books: the mark, and under simulated matching the fills. -/
def bookTick (index : Nat) (tick : Tick) : Books (Kernel × Option PriceTicks) :=
  let k := k.observe index tick
  if k.state.matching = .venue then pure (k, some tick.last)
  else do
    let engine := (k.state.holdingsAt index).engine.onTick tick
    let k := k.withState (k.state.modifyAt index (fun h => { h with engine := engine }))
    let k ← k.bookFills index (engine.fills.map L0Fill.fill)
    pure (k, some tick.last)

/-- What a funding settlement books. -/
def bookSettlement (instrument : Option InstrumentId) (at_ : Nanos) (rate : Ratio)
    (mark : PriceTicks) : Books (Kernel × Option PriceTicks) :=
  let k := k.withState (k.state.withNow at_)
  match k.route instrument with
  | none => pure (k.emit (.rejected 0 .unroutableObservation), none)
  | some index =>
    let h := k.state.holdingsAt index
    if h.isFlat then pure (k, none)
    else do
      let amount := fundingAmount h ⟨at_, rate, mark⟩
      let s ← k.state.bookFunding amount
      pure ((k.withState s).emit (.funded amount at_), some mark)

/-- What a venue fill books. -/
def bookVenueFill (fill : Fill) (reported : Fee) : Books (Kernel × Option PriceTicks) :=
  if k.state.matching ≠ .venue then pure (k.emit (.rejected fill.order .notVenueMatched), none)
  else do
    let priced := venueFee (withdrawFilled (k.state.withNow fill.stamp.exch) fill) fill reported
    let s ← priced.2.chargeFee priced.1
    let s ← s.applyFill fill
    let k : Kernel :=
      { state := s
        working := k.working.filter (· ≠ fill.order)
        outputs := k.outputs ++ [.filled fill] }
    pure (k, some fill.price)

/-- What an event does before the liquidation check, and the price of the check
if it ends in one. -/
def booked (event : Event) : Books (Kernel × Option PriceTicks) :=
  match event with
  | .tick instrument tick =>
    match k.cleared.route instrument with
    | some index => k.cleared.bookTick index tick
    | none => pure (k.cleared.emit (.rejected 0 .unroutableObservation), none)
  | .funding instrument at_ rate mark => k.cleared.bookSettlement instrument at_ rate mark
  | .venueFill fill reported => k.cleared.bookVenueFill fill reported
  | event => do
    let k ← k.apply event
    pure (k, none)

/-- The check an event ends in, if it ends in one. -/
def settle (p : Kernel × Option PriceTicks) : Books Kernel :=
  match p.2 with
  | none => pure p.1
  | some price => p.1.checkLiquidation price

theorem onTick_eq (index : Nat) (tick : Tick) :
    k.onTick index tick = k.bookTick index tick >>= settle := by
  unfold onTick bookTick
  simp only
  split_ifs
  · rfl
  · rw [bind_assoc]
    rfl

theorem onFunding_eq (instrument : Option InstrumentId) (at_ : Nanos) (rate : Ratio)
    (mark : PriceTicks) :
    k.onFunding instrument at_ rate mark =
      k.bookSettlement instrument at_ rate mark >>= settle := by
  unfold onFunding bookSettlement
  simp only
  rcases (k.withState (k.state.withNow at_)).route instrument with _ | index
  · rfl
  · simp only
    split_ifs
    · rfl
    · rw [bind_assoc]
      rfl

theorem onVenueFill_eq (fill : Fill) (reported : Fee) :
    k.onVenueFill fill reported = k.bookVenueFill fill reported >>= settle := by
  unfold onVenueFill bookVenueFill
  by_cases hmatch : k.state.matching ≠ .venue
  · rw [if_pos hmatch, if_pos hmatch]
    rfl
  · rw [if_neg hmatch, if_neg hmatch]
    simp only [bind_assoc]
    rfl

/-- **An event books, then checks.** -/
theorem apply_eq (event : Event) : k.apply event = k.booked event >>= settle := by
  have hplain : ∀ x : Books Kernel, x = (x >>= fun k => pure (k, none)) >>= settle := by
    intro x
    rw [bind_assoc]
    exact (bind_pure x).symm
  cases event with
  | tick instrument tick =>
    unfold apply booked
    simp only
    rcases k.cleared.route instrument with _ | index
    · rfl
    · exact k.cleared.onTick_eq index tick
  | funding instrument at_ rate mark => exact k.cleared.onFunding_eq instrument at_ rate mark
  | venueFill fill reported => exact k.cleared.onVenueFill_eq fill reported
  | submit instrument id side price qty offset stamp => exact hplain _
  | cancel id stamp => exact hplain _
  | fundingCharged instrument at_ amount => exact hplain _
  | feeRecovered at_ amount remainingMissing => exact hplain _
  | time at_ => exact hplain _
  | marginDeposit amount at_ => exact hplain _
  | depth update => exact hplain _

end Kernel
