/-
# The accounting identity of the kernel

The settlement balance is what the account started with, plus every deposit,
plus realized profit and funding, less fees and what was forfeited.  Read as a
residue, balance less the four totals, the identity says that a deposit is the
only event that moves it.  Each function that writes the books keeps the residue
because it books on two sides what it moves; the lemmas below say so function by
function, and the run follows by the invariant rule.
-/
import OpenQuanter.Kernel

/-! ## States that a host can build -/

/-- A matcher that has been given nothing yet. -/
inductive Matcher.Fresh : Matcher → Prop
  | l0 (instrument : InstrumentId) : Fresh (.l0 (L0Engine.new instrument))
  | l1 (instrument : InstrumentId) (policy : Policy) : Fresh (.l1 (L1Engine.new instrument policy))
  | l2 (instrument : InstrumentId) (policy : Policy) :
      Fresh (.l2 (L2Engine.new (L1Engine.new instrument policy)))

/-- The states `State::new` and its builders reach from a starting balance. -/
inductive State.Built (start : Cash) : State → Prop
  | new (instrument : InstrumentId) (contract : Contract) (table : TierTable) :
      Built start (State.new instrument contract table start)
  | withFees {s : State} (h : Built start s) (fees : Fees) : Built start (s.withFees fees)
  | withoutLiquidation {s : State} (h : Built start s) : Built start s.withoutLiquidation
  | withMode {s : State} (h : Built start s) (mode : PositionMode) : Built start (s.withMode mode)
  | withMatching {s : State} (h : Built start s) (matching : Matching) :
      Built start (s.withMatching matching)
  | openHolding {s : State} (h : Built start s) (instrument : InstrumentId) (contract : Contract)
      (table : TierTable) : Built start (s.openHolding instrument contract table)
  | matchingWith {s : State} (h : Built start s) {m : Matcher} (hm : m.Fresh)
      (hi : m.instrument = s.holding.engine.instrument) : Built start (s.matchingWith m hi)

/-! ## The residue -/

namespace State

/-- The balance less what the account's own totals explain. -/
def residue (s : State) : Int :=
  s.balance.toInt - s.realized.toInt - s.funding.toInt + s.fees.toInt + s.forfeited.toInt

/-- A fresh account's balance is all residue. -/
theorem Built.residue_eq {start : Cash} {s : State} (h : Built start s) :
    s.residue = start.toInt := by
  induction h with
  | new instrument contract table =>
    have hbalance : (State.new instrument contract table start).balance = start :=
      Balances.get_of _ _
    unfold residue
    rw [hbalance]
    simp [State.new]
  | withFees _ fees ih => exact ih
  | withoutLiquidation _ ih => exact ih
  | withMode _ mode ih => exact ih
  | withMatching _ matching ih => exact ih
  | openHolding _ instrument contract table ih =>
    unfold State.openHolding
    split_ifs
    · exact ih
    · exact ih
  | matchingWith _ hm hi ih => exact ih

open Logged

variable (s : State)

/-! ## What each booking does to the residue -/

/-- A credit moves the balance by its amount and nothing else. -/
theorem ensures_credit (amount : Cash) :
    Ensures {Fault.cash} (s.credit amount) (fun t => t.residue = s.residue + amount.toInt ∧
      t.realized = s.realized ∧ t.funding = s.funding ∧ t.fees = s.fees ∧
      t.forfeited = s.forfeited ∧ t.balance.toInt = s.balance.toInt + amount.toInt) := by
  refine ensures_note (fun hfits => ?_)
  have hbalance : (s.balances.add s.settlement amount).get s.settlement =
      Cash.add s.balance amount := Balances.get_add_self _ _ _
  have hexact : (Cash.add s.balance amount).toInt = s.balance.toInt + amount.toInt :=
    toInt_ofIntClamp_of_fits (hfits rfl)
  refine ⟨?_, rfl, rfl, rfl, rfl, ?_⟩
  · show ((s.balances.add s.settlement amount).get s.settlement).toInt - s.realized.toInt -
      s.funding.toInt + s.fees.toInt + s.forfeited.toInt = _
    rw [hbalance, hexact]
    unfold residue
    omega
  · show ((s.balances.add s.settlement amount).get s.settlement).toInt = _
    rw [hbalance, hexact]

theorem ensures_add (a b : Cash) :
    Ensures {Fault.cash} (Books.add a b) (fun c => c.toInt = a.toInt + b.toInt) :=
  ensures_note (fun hfits => toInt_ofIntClamp_of_fits (hfits rfl))

theorem ensures_neg (a : Cash) :
    Ensures {Fault.cash} (Books.neg a) (fun c => c.toInt = -a.toInt) :=
  ensures_note (fun hfits => toInt_ofIntClamp_of_fits (hfits rfl))

/-- A fee leaves the balance for the fee total. -/
theorem residue_chargeFee (fee : Cash) :
    Ensures {Fault.cash} (s.chargeFee fee) (fun t => t.residue = s.residue) := by
  refine ensures_bind (ensures_add s.fees fee) (fun fees hfees => ?_)
  refine ensures_bind (ensures_neg fee) (fun debit hdebit => ?_)
  refine (ensures_credit _ debit).mono (fun t ht => ?_)
  rw [ht.1]
  unfold residue
  show s.balance.toInt - s.realized.toInt - s.funding.toInt + fees.toInt + s.forfeited.toInt +
    debit.toInt = _
  omega

/-- A profit enters the balance and the realized total. -/
theorem residue_realize (pnl : Cash) :
    Ensures {Fault.cash} (s.realize pnl) (fun t => t.residue = s.residue) := by
  refine ensures_bind (ensures_add s.realized pnl) (fun realized hrealized => ?_)
  refine (ensures_credit _ pnl).mono (fun t ht => ?_)
  rw [ht.1]
  unfold residue
  show s.balance.toInt - realized.toInt - s.funding.toInt + s.fees.toInt + s.forfeited.toInt +
    pnl.toInt = _
  omega

/-- A funding amount enters the balance and the funding total. -/
theorem residue_bookFunding (amount : Cash) :
    Ensures {Fault.cash} (s.bookFunding amount) (fun t => t.residue = s.residue) := by
  refine ensures_bind (s.ensures_credit amount) (fun t ht => ?_)
  refine ensures_bind (ensures_add t.funding amount) (fun funding hfunding => ?_)
  refine ensures_pure ?_
  have hres := ht.1
  unfold residue at hres ⊢
  show t.balance.toInt - t.realized.toInt - funding.toInt + t.fees.toInt + t.forfeited.toInt = _
  omega

@[simp] theorem residue_modifyAt (index : Nat) (f : Holding → Holding) :
    (s.modifyAt index f).residue = s.residue := rfl

theorem residue_openLegAt (index : Nat) (short : Bool) (qty : QtyLots) (price : PriceTicks)
    (sign : Int64) :
    Ensures {Fault.cash} (s.openLegAt index short qty price sign)
      (fun t => t.residue = s.residue) :=
  ensures_of_val rfl

theorem residue_closeLegAt (index : Nat) (short : Bool) (qty : QtyLots) (price : PriceTicks) :
    Ensures {Fault.cash} (s.closeLegAt index short qty price)
      (fun t => t.residue = s.residue) := by
  refine ensures_bind (P := fun _ => True) (fun _ => trivial) ?_
  rintro ⟨h, pnl⟩ -
  exact residue_realize (s.setAt index h) pnl

theorem residue_applyFill (fill : Fill) :
    Ensures {Fault.cash} (s.applyFill fill) (fun t => t.residue = s.residue) := by
  unfold applyFill
  split
  · exact ensures_of_val rfl
  · split
    · unfold applyFillHedged
      simp only
      split
      · exact s.residue_openLegAt _ _ _ _ _
      · exact s.residue_closeLegAt _ _ _ _
    · unfold applyFillNet
      simp only
      split
      · refine ensures_bind (s.residue_closeLegAt _ _ _ _) (fun t ht => ?_)
        split
        · exact (t.residue_openLegAt _ _ _ _ _).mono (fun u hu => hu.trans ht)
        · exact ensures_pure ht
      · exact s.residue_openLegAt _ _ _ _ _

theorem residue_liquidateHolding (index : Nat) (price : PriceTicks) :
    Ensures {Fault.cash} (s.liquidateHolding index price)
      (fun p => p.1.residue = s.residue) :=
  ensures_bind (s.residue_realize _) (fun _ ht => ensures_pure ht)

theorem residue_closeOne (acc : State × List Liquidation) (index : Nat) :
    Ensures {Fault.cash} (closeOne acc index) (fun p => p.1.residue = acc.1.residue) := by
  refine ensures_bind (acc.1.residue_liquidateHolding index _) ?_
  rintro ⟨t, l⟩ ht
  exact ensures_pure ht

theorem residue_closeAll (price : PriceTicks) :
    Ensures {Fault.cash} (s.closeAll price) (fun p => p.1.residue = s.residue) := by
  have hstep : ∀ (acc : State × List Liquidation) (index : Nat), acc.1.residue = s.residue →
      Ensures {Fault.cash} (closeOne acc index) (fun p => p.1.residue = s.residue) :=
    fun acc index hacc => (residue_closeOne acc index).mono (fun _ hp => hp.trans hacc)
  unfold closeAll
  split_ifs
  · refine ensures_bind (s.residue_liquidateHolding 0 price) ?_
    rintro ⟨t, l⟩ ht
    exact ensures_pure ht
  · exact ensures_foldlM (I := fun p : State × List Liquidation => p.1.residue = s.residue) hstep
      (s := (s, [])) rfl s.openIndices

/-- Settling a liquidated account to zero moves its balance to what was
forfeited. -/
theorem residue_liquidate (price : PriceTicks) :
    Ensures {Fault.cash} (s.liquidate price) (fun p => p.1.residue = s.residue) := by
  refine ensures_bind (s.residue_closeAll price) ?_
  rintro ⟨t, out⟩ ht
  refine ensures_bind (ensures_neg t.balance) (fun debit hdebit => ?_)
  refine ensures_bind (t.ensures_credit debit) (fun u hu => ?_)
  refine ensures_bind (ensures_add u.forfeited t.balance) (fun total htotal => ?_)
  refine ensures_pure ?_
  have hres := hu.1
  simp only at ht
  unfold residue at hres ht ⊢
  show u.balance.toInt - u.realized.toInt - u.funding.toInt + u.fees.toInt + total.toInt = _
  omega

end State

/-! ## One event -/

/-- What an event deposits. -/
def Event.deposit : Event → Int
  | .marginDeposit amount _ => amount.toInt
  | _ => 0

namespace Kernel

open Logged

variable (k : Kernel)

theorem residue_checkLiquidation (mark : PriceTicks) :
    Ensures {Fault.cash} (k.checkLiquidation mark)
      (fun k' => k'.state.residue = k.state.residue) := by
  unfold checkLiquidation
  split
  · exact ensures_pure rfl
  · split
    · refine ensures_bind (k.state.residue_liquidate mark) ?_
      rintro ⟨s, out⟩ hs
      exact ensures_pure hs
    · exact ensures_pure rfl

theorem residue_bookFill (index : Nat) (fill : Fill) :
    Ensures {Fault.cash} (bookFill index k fill)
      (fun k' => k'.state.residue = k.state.residue) := by
  refine ensures_bind (k.state.residue_chargeFee _) (fun s hs => ?_)
  refine ensures_bind (s.residue_applyFill fill) (fun t ht => ?_)
  exact ensures_pure (ht.trans hs)

theorem residue_bookFills (index : Nat) (fills : List Fill) :
    Ensures {Fault.cash} (k.bookFills index fills)
      (fun k' => k'.state.residue = k.state.residue) := by
  have hstep : ∀ (k' : Kernel) (fill : Fill), k'.state.residue = k.state.residue →
      Ensures {Fault.cash} (bookFill index k' fill)
        (fun k'' => k''.state.residue = k.state.residue) :=
    fun k' fill hk' => (residue_bookFill k' index fill).mono (fun _ h => h.trans hk')
  exact ensures_foldlM hstep rfl fills

theorem residue_onTick (index : Nat) (tick : Tick) :
    Ensures {Fault.cash} (k.onTick index tick)
      (fun k' => k'.state.residue = k.state.residue) := by
  unfold onTick
  simp only
  split
  · exact residue_checkLiquidation _ _
  · refine ensures_bind (residue_bookFills _ _ _) (fun k' hk' => ?_)
    exact (residue_checkLiquidation k' _).mono (fun _ h => h.trans hk')

theorem residue_venueFee (s : State) (fill : Fill) (reported : Fee) :
    (venueFee s fill reported).2.residue = s.residue := by
  cases reported <;> rfl

theorem residue_withdrawFilled (s : State) (fill : Fill) :
    (withdrawFilled s fill).residue = s.residue := by
  unfold withdrawFilled
  split <;> rfl

theorem residue_onVenueFill (fill : Fill) (reported : Fee) :
    Ensures {Fault.cash} (k.onVenueFill fill reported)
      (fun k' => k'.state.residue = k.state.residue) := by
  unfold onVenueFill
  split
  · exact ensures_pure rfl
  · refine ensures_bind (State.residue_chargeFee _ _) (fun s hs => ?_)
    refine ensures_bind (s.residue_applyFill fill) (fun t ht => ?_)
    refine (residue_checkLiquidation _ _).mono (fun k' hk' => ?_)
    calc k'.state.residue = t.residue := hk'
      _ = s.residue := ht
      _ = (withdrawFilled (k.state.withNow fill.stamp.exch) fill).residue := by
        rw [hs, residue_venueFee]
      _ = k.state.residue := residue_withdrawFilled _ _

theorem residue_onFunding (instrument : Option InstrumentId) (at_ : Nanos) (rate : Ratio)
    (mark : PriceTicks) :
    Ensures {Fault.cash} (k.onFunding instrument at_ rate mark)
      (fun k' => k'.state.residue = k.state.residue) := by
  unfold onFunding
  simp only
  split
  · exact ensures_pure rfl
  · split
    · exact ensures_pure rfl
    · refine ensures_bind (State.residue_bookFunding _ _) (fun s hs => ?_)
      exact (residue_checkLiquidation _ _).mono (fun k' hk' => hk'.trans hs)

theorem residue_onFundingCharged (instrument : Option InstrumentId) (at_ : Nanos)
    (amount : Cash) :
    Ensures {Fault.cash} (k.onFundingCharged instrument at_ amount)
      (fun k' => k'.state.residue = k.state.residue) := by
  unfold onFundingCharged
  simp only
  split
  · exact ensures_pure rfl
  · refine ensures_bind (State.residue_bookFunding _ _) (fun s hs => ?_)
    exact ensures_pure hs

theorem residue_onSubmit (instrument : Option InstrumentId) (id : OrderId) (side : Side)
    (price : Option PriceTicks) (qty : QtyLots) (offset : Offset) (stamp : Stamp) :
    (k.onSubmit instrument id side price qty offset stamp).state.residue = k.state.residue := by
  unfold onSubmit
  split
  · split
    · rfl
    · split
      · rfl
      · split <;> rfl
  · rfl

theorem residue_onCancel (id : OrderId) : (k.onCancel id).state.residue = k.state.residue := by
  unfold onCancel
  simp only
  split_ifs <;> rfl

theorem residue_onDepth (update : DepthUpdate) :
    (k.onDepth update).state.residue = k.state.residue := by
  unfold onDepth
  split_ifs <;> rfl

/-- **One event moves the residue by what it deposits.** -/
theorem residue_apply (event : Event) :
    Ensures {Fault.cash} (k.apply event)
      (fun k' => k'.state.residue = k.state.residue + event.deposit) := by
  have hzero : ∀ {x : Books Kernel} (_ : event.deposit = 0),
      Ensures {Fault.cash} x (fun k' => k'.state.residue = k.state.residue) →
      Ensures {Fault.cash} x
        (fun k' => k'.state.residue = k.state.residue + event.deposit) := by
    intro x hdep hx
    exact hx.mono (fun k' hk' => by omega)
  cases event with
  | tick instrument tick =>
    refine hzero rfl ?_
    unfold apply
    simp only
    split
    · exact residue_onTick _ _ _
    · exact ensures_pure rfl
  | submit instrument id side price qty offset stamp =>
    exact hzero rfl (ensures_pure (residue_onSubmit _ _ _ _ _ _ _ _))
  | cancel id stamp => exact hzero rfl (ensures_pure (residue_onCancel _ _))
  | funding instrument at_ rate mark => exact hzero rfl (residue_onFunding _ _ _ _ _)
  | fundingCharged instrument at_ amount => exact hzero rfl (residue_onFundingCharged _ _ _ _)
  | feeRecovered at_ amount remainingMissing =>
    exact hzero rfl (ensures_bind (State.residue_chargeFee _ _) (fun s hs => ensures_pure hs))
  | time at_ => exact hzero rfl (ensures_pure rfl)
  | marginDeposit amount at_ =>
    exact ensures_bind (State.ensures_credit _ _) (fun s hs => ensures_pure hs.1)
  | venueFill fill fee => exact hzero rfl (residue_onVenueFill _ _ _)
  | depth update => exact hzero rfl (ensures_pure (residue_onDepth _ _))

/-- A run moves the residue by the sum of its deposits. -/
theorem residue_run (events : List Event) :
    Ensures {Fault.cash} (k.run events)
      (fun k' => k'.state.residue = k.state.residue + (events.map Event.deposit).sum) := by
  induction events generalizing k with
  | nil => exact ensures_pure (by simp)
  | cons event rest ih =>
    unfold run at ih ⊢
    rw [List.foldlM_cons]
    refine ensures_bind (k.residue_apply event) (fun k' hk' => ?_)
    refine (ih k').mono (fun k'' hk'' => ?_)
    rw [hk'', hk', List.map_cons, List.sum_cons]
    omega

/-- **The accounting identity.**  From any account a host can build, after every
run in which no cash operation saturates, the balance is the starting balance
plus the deposits, plus realized profit and funding, less fees and what was
forfeited. -/
theorem balance_eq_of_run {start : Cash} {s : State} (hs : s.Built start) (events : List Event)
    (hfree : ((Kernel.new s).run events).Free .cash) :
    let t := ((Kernel.new s).run events).val.state
    t.balance.toInt = start.toInt + (events.map Event.deposit).sum + t.realized.toInt +
      t.funding.toInt - t.fees.toInt - t.forfeited.toInt := by
  intro t
  have hrun : t.residue = (Kernel.new s).state.residue + (events.map Event.deposit).sum :=
    ensures_singleton ((Kernel.new s).residue_run events) hfree
  have hstart : (Kernel.new s).state.residue = start.toInt := hs.residue_eq
  rw [hstart, State.residue] at hrun
  omega

/-- One bracket at one percent. -/
def flatTable : TierTable where
  tiers := [⟨Int64.maxValue, 10000000, 0⟩]
  nonempty := by simp
  ordered := by simp

/-- A market buy filled at a tick, a funding settlement and a deposit. -/
def shortRun : List Event :=
  [.submit none 1 .buy none 5 .opening ⟨1, 1⟩,
    .tick none ⟨⟨2, 2⟩, 100, 101, 99, 99, 100, 10⟩,
    .funding none 3 1000000 100,
    .marginDeposit 50 4]

theorem balance_eq_of_shortRun :
    let t := ((Kernel.new (State.new 7 ⟨10⟩ flatTable 10000)).run shortRun).val.state
    t.balance.toInt = 10000 + (shortRun.map Event.deposit).sum + t.realized.toInt +
      t.funding.toInt - t.fees.toInt - t.forfeited.toInt :=
  balance_eq_of_run (.new 7 ⟨10⟩ flatTable) shortRun (by decide +kernel)

end Kernel
