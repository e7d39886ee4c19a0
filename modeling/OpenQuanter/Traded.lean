/-
# What trading does not see

A fill reads the legs of a holding and writes the legs and the realized profit.
It does not read the balance, the fees, the clock or what is known of the fees,
so accounts that differ in those only trade the same (`traded_applyFill_congr`);
and what a fill costs goes to the fee total and nowhere else.  Under venue
matching with liquidation off, that is all of what an event does.
-/
import OpenQuanter.Identity
import OpenQuanter.VenueMatching

open Logged

/-! ## What trading reads and writes -/

/-- What a fill reads of an account, and what it writes but for the balance. -/
@[ext] structure Traded where
  holdings : List Holding
  mode : PositionMode
  matching : Matching
  enforceLiquidation : Bool
  realized : Cash
  funding : Cash
  forfeited : Cash

/-- The fee total, and what is known of it. -/
@[ext] structure FeeTotal where
  fees : Cash
  covered : Bool
  missing : Bool

/-- What a fill's fee adds to the total. -/
def Fee.charged : Fee → Cash
  | .reported cash => cash
  | _ => 0

/-- The total after a fill with this fee; a fee the venue did not say is not
among the fees the live books charge. -/
def FeeTotal.after (total : FeeTotal) : Fee → FeeTotal
  | .reported cash => ⟨Cash.add total.fees cash, true, total.missing⟩
  | _ => ⟨total.fees, total.covered, true⟩

namespace State

def traded (s : State) : Traded :=
  ⟨s.holdings, s.mode, s.matching, s.enforceLiquidation, s.realized, s.funding, s.forfeited⟩

def feeTotal (s : State) : FeeTotal := ⟨s.fees, s.feesCovered, s.feesMissing⟩

variable {s t : State}

theorem traded_modifyAt (s : State) (index : Nat) (f : Holding → Holding) :
    (s.modifyAt index f).traded =
      { s.traded with holdings := s.traded.holdings.modify index f } := rfl

theorem traded_realize (s : State) (pnl : Cash) :
    (s.realize pnl).val.traded = { s.traded with realized := Cash.add s.traded.realized pnl } := rfl

theorem traded_bookFunding (s : State) (amount : Cash) :
    (s.bookFunding amount).val.traded =
      { s.traded with funding := Cash.add s.traded.funding amount } := rfl

theorem traded_modifyAt_congr (h : s.traded = t.traded) (index : Nat) (f : Holding → Holding) :
    (s.modifyAt index f).traded = (t.modifyAt index f).traded := by
  rw [traded_modifyAt, traded_modifyAt, h]

theorem traded_openLegAt_congr (h : s.traded = t.traded) (index : Nat) (short : Bool)
    (qty : QtyLots) (price : PriceTicks) (sign : Int64) :
    (s.openLegAt index short qty price sign).val.traded =
      (t.openLegAt index short qty price sign).val.traded := by
  have hat : s.holdingsAt index = t.holdingsAt index :=
    holdingsAt_congr (congrArg Traded.holdings h) index
  unfold openLegAt
  rw [val_bind, val_bind, hat]
  exact traded_modifyAt_congr h index _

theorem traded_closeLegAt_congr (h : s.traded = t.traded) (index : Nat) (short : Bool)
    (qty : QtyLots) (price : PriceTicks) :
    (s.closeLegAt index short qty price).val.traded =
      (t.closeLegAt index short qty price).val.traded := by
  have hat : s.holdingsAt index = t.holdingsAt index :=
    holdingsAt_congr (congrArg Traded.holdings h) index
  unfold closeLegAt
  rw [val_bind, val_bind, hat]
  have hset : (s.setAt index ((t.holdingsAt index).closeLeg short qty price).val.1).traded =
      (t.setAt index ((t.holdingsAt index).closeLeg short qty price).val.1).traded :=
    traded_modifyAt_congr h index _
  rw [traded_realize, traded_realize, hset]

theorem traded_applyFillNet_congr (h : s.traded = t.traded) (index : Nat) (fill : Fill) :
    (s.applyFillNet index fill).val.traded = (t.applyFillNet index fill).val.traded := by
  have hat : s.holdingsAt index = t.holdingsAt index :=
    holdingsAt_congr (congrArg Traded.holdings h) index
  unfold applyFillNet
  simp only [hat]
  split
  · rw [val_bind, val_bind]
    have hclosed := traded_closeLegAt_congr h index false
      (min (satAbs fill.positionDelta) (satAbs (t.holdingsAt index).qty)) fill.price
    split
    · exact traded_openLegAt_congr hclosed _ _ _ _ _
    · exact hclosed
  · exact traded_openLegAt_congr h _ _ _ _ _

theorem traded_applyFillHedged_congr (h : s.traded = t.traded) (index : Nat) (fill : Fill) :
    (s.applyFillHedged index fill).val.traded = (t.applyFillHedged index fill).val.traded := by
  unfold applyFillHedged
  simp only
  rcases fill.offset with _ | _
  · exact traded_openLegAt_congr h _ _ _ _ _
  · exact traded_closeLegAt_congr h _ _ _ _

/-- **A fill trades the same** on accounts that differ in money only. -/
theorem traded_applyFill_congr (h : s.traded = t.traded) (fill : Fill) :
    (s.applyFill fill).val.traded = (t.applyFill fill).val.traded := by
  have hindex : s.holdingIndex fill.instrument = t.holdingIndex fill.instrument := by
    unfold holdingIndex
    rw [show s.holdings = t.holdings from congrArg Traded.holdings h]
  have hmode : s.mode = t.mode := congrArg Traded.mode h
  unfold applyFill
  rw [hindex, hmode]
  rcases t.holdingIndex fill.instrument with _ | index
  · exact h
  · simp only
    rcases t.mode with _ | _
    · exact traded_applyFillNet_congr h _ _
    · exact traded_applyFillHedged_congr h _ _

theorem traded_withdrawFilled_congr (h : s.traded = t.traded) (fill : Fill) :
    (Kernel.withdrawFilled s fill).traded = (Kernel.withdrawFilled t fill).traded := by
  have hindex : s.holdingIndex fill.instrument = t.holdingIndex fill.instrument := by
    unfold holdingIndex
    rw [show s.holdings = t.holdings from congrArg Traded.holdings h]
  unfold Kernel.withdrawFilled
  rw [hindex]
  rcases t.holdingIndex fill.instrument with _ | index
  · exact h
  · exact traded_modifyAt_congr h index _

/-- A fill leaves the fee total alone. -/
theorem feeTotal_applyFill (s : State) (fill : Fill) :
    (s.applyFill fill).val.feeTotal = s.feeTotal := by
  unfold applyFill
  split
  · rfl
  · split
    · unfold applyFillHedged
      simp only
      split
      · rfl
      · rfl
    · unfold applyFillNet
      simp only
      split
      · rw [val_bind]
        split
        · rfl
        · rfl
      · rfl

theorem feeTotal_withdrawFilled (s : State) (fill : Fill) :
    (Kernel.withdrawFilled s fill).feeTotal = s.feeTotal := by
  unfold Kernel.withdrawFilled
  split
  · rfl
  · rfl

/-- The balance of an account whose other totals are known. -/
theorem balance_eq_of_residue (hresidue : s.residue = t.residue) (htraded : s.traded = t.traded)
    (hfees : s.fees = t.fees) : s.balance = t.balance := by
  have hrealized : s.realized = t.realized := congrArg Traded.realized htraded
  have hfunding : s.funding = t.funding := congrArg Traded.funding htraded
  have hforfeited : s.forfeited = t.forfeited := congrArg Traded.forfeited htraded
  unfold residue at hresidue
  rw [hrealized, hfunding, hforfeited, hfees] at hresidue
  rw [← Int64.toInt_inj]
  omega

end State

/-! ## The venue's kernel -/

namespace Kernel

/-- The venue matches, and no liquidation is made up locally. -/
def VenueKept (k : Kernel) : Prop :=
  k.state.matching = .venue ∧ k.state.enforceLiquidation = false

variable {k l : Kernel}

theorem VenueKept.of_traded (h : k.VenueKept) (htraded : k.state.traded = l.state.traded) :
    l.VenueKept :=
  ⟨(congrArg Traded.matching htraded).symm.trans h.1,
    (congrArg Traded.enforceLiquidation htraded).symm.trans h.2⟩

/-- What is left of the kernel's state once a venue fill is booked. -/
theorem state_venueFill (h : k.VenueKept) (fill : Fill) (fee : Fee) :
    (k.apply (.venueFill fill fee)).val.state =
      (let priced := venueFee (withdrawFilled (k.state.withNow fill.stamp.exch) fill) fill fee
       ((priced.2.chargeFee priced.1).val.applyFill fill).val) := by
  rw [apply_of_unenforced h.2]
  have hmatching : ¬ k.cleared.state.matching ≠ .venue := not_not.mpr h.1
  simp only [booked, bookVenueFill, if_neg hmatching]
  rfl

theorem traded_venueFee (s : State) (fill : Fill) (fee : Fee) :
    (venueFee s fill fee).2.traded = s.traded := by
  cases fee <;> rfl

/-- **A venue fill trades the same** whatever it cost. -/
theorem traded_venueFill_congr (hk : k.VenueKept) (h : k.state.traded = l.state.traded)
    (fill : Fill) (fee fee' : Fee) :
    (k.apply (.venueFill fill fee)).val.state.traded =
      (l.apply (.venueFill fill fee')).val.state.traded := by
  rw [state_venueFill hk, state_venueFill (hk.of_traded h)]
  apply State.traded_applyFill_congr
  -- charging writes the fee total and the balance, which trading does not read
  show (venueFee _ fill fee).2.traded = (venueFee _ fill fee').2.traded
  rw [traded_venueFee, traded_venueFee]
  have hnow : (k.state.withNow fill.stamp.exch).traded =
    (l.state.withNow fill.stamp.exch).traded := h
  exact State.traded_withdrawFilled_congr hnow fill

/-- What a venue fill does to the fee total. -/
theorem feeTotal_venueFill (h : k.VenueKept) (fill : Fill) {fee : Fee} (hfee : fee ≠ .unsaid) :
    (k.apply (.venueFill fill fee)).val.state.feeTotal = k.state.feeTotal.after fee := by
  rw [state_venueFill h, State.feeTotal_applyFill]
  have hwithdrawn := State.feeTotal_withdrawFilled (k.state.withNow fill.stamp.exch) fill
  obtain ⟨hfees, hcovered, hmissing⟩ := FeeTotal.mk.inj hwithdrawn
  cases fee with
  | unsaid => exact absurd rfl hfee
  | reported cash =>
    show FeeTotal.mk (Cash.add (withdrawFilled _ fill).fees cash) true
      (withdrawFilled _ fill).feesMissing = _
    rw [hfees, hmissing]
    rfl
  | unreadable =>
    show FeeTotal.mk (Cash.add (withdrawFilled _ fill).fees 0)
      (withdrawFilled _ fill).feesCovered true = _
    rw [hfees, hcovered, Cash.add_zero]
    rfl

/-- A venue fill that saturates no cash charges its fee exactly. -/
theorem fees_venueFill (h : k.VenueKept) {fill : Fill} {fee : Fee} (hfee : fee ≠ .unsaid)
    (hfree : (k.apply (.venueFill fill fee)).Free .cash) :
    (k.apply (.venueFill fill fee)).val.state.fees.toInt =
      k.state.fees.toInt + fee.charged.toInt := by
  have hafter : (k.apply (.venueFill fill fee)).val.state.fees =
      (k.state.feeTotal.after fee).fees :=
    congrArg FeeTotal.fees (feeTotal_venueFill h fill hfee)
  rw [hafter]
  cases fee with
  | unsaid => exact absurd rfl hfee
  | unreadable => exact (add_zero _).symm
  | reported cash =>
    refine Books.toInt_add_of_free ?_
    have hmatching : ¬ k.cleared.state.matching ≠ .venue := not_not.mpr h.1
    have hwithdrawn := State.feeTotal_withdrawFilled (k.state.withNow fill.stamp.exch) fill
    rw [apply_eq, free_bind] at hfree
    simp only [booked, bookVenueFill, if_neg hmatching, free_bind, venueFee, State.chargeFee]
      at hfree
    have hadd := hfree.1.1.1
    rw [show ({ withdrawFilled (k.cleared.state.withNow fill.stamp.exch) fill with
      feesCovered := true } : State).fees = k.state.fees from congrArg FeeTotal.fees hwithdrawn]
      at hadd
    exact hadd

theorem route_congr (h : k.state.traded = l.state.traded) : k.route none = l.route none := by
  have hlength : k.state.holdings.length = l.state.holdings.length :=
    congrArg (fun t => t.holdings.length) h
  unfold route
  rw [hlength]

/-- An observation under venue matching moves the clock and the mark. -/
theorem state_tick (h : k.VenueKept) (tick : Tick) :
    (k.apply (.tick none tick)).val.state =
      match k.route none with
      | some index => (k.observe index tick).state
      | none => k.state := by
  rw [apply_of_unenforced h.2]
  have hroute : k.cleared.route none = k.route none := rfl
  simp only [booked, hroute]
  rcases k.route none with _ | index
  · rfl
  · have hmatching : (k.cleared.observe index tick).state.matching = .venue := h.1
    simp only [bookTick, hmatching, if_true]
    rfl

theorem traded_tick_congr (hk : k.VenueKept) (h : k.state.traded = l.state.traded) (tick : Tick) :
    (k.apply (.tick none tick)).val.state.traded =
    (l.apply (.tick none tick)).val.state.traded := by
  rw [state_tick hk, state_tick (hk.of_traded h), route_congr h]
  rcases l.route none with _ | index
  · exact h
  · have hnow : (k.state.withNow tick.stamp.exch).traded =
      (l.state.withNow tick.stamp.exch).traded := h
    exact State.traded_modifyAt_congr hnow index _

theorem feeTotal_tick (h : k.VenueKept) (tick : Tick) :
    (k.apply (.tick none tick)).val.state.feeTotal = k.state.feeTotal := by
  rw [state_tick h]
  rcases k.route none with _ | index
  · rfl
  · rfl

/-- What is left of the kernel's state once the venue's funding is booked. -/
theorem state_fundingCharged (k : Kernel) (amount : Cash) (at_ : Nanos) :
    (k.apply (.fundingCharged none at_ amount)).val.state =
      match k.route none with
      | some _ => ((k.state.withNow at_).bookFunding amount).val
      | none => k.state.withNow at_ := by
  have hroute : (k.cleared.withState (k.cleared.state.withNow at_)).route none = k.route none := rfl
  simp only [apply, onFundingCharged, hroute]
  rcases k.route none with _ | index
  · rfl
  · rfl

theorem traded_fundingCharged_congr (h : k.state.traded = l.state.traded) (amount : Cash)
    (at_ : Nanos) :
    (k.apply (.fundingCharged none at_ amount)).val.state.traded =
      (l.apply (.fundingCharged none at_ amount)).val.state.traded := by
  have hnow : (k.state.withNow at_).traded = (l.state.withNow at_).traded := h
  rw [state_fundingCharged, state_fundingCharged, route_congr h]
  rcases l.route none with _ | index
  · exact h
  · show (State.bookFunding _ amount).val.traded = (State.bookFunding _ amount).val.traded
    rw [State.traded_bookFunding, State.traded_bookFunding, hnow]

theorem feeTotal_fundingCharged (k : Kernel) (amount : Cash) (at_ : Nanos) :
    (k.apply (.fundingCharged none at_ amount)).val.state.feeTotal = k.state.feeTotal := by
  rw [state_fundingCharged]
  rcases k.route none with _ | index
  · rfl
  · rfl

end Kernel
