/-
# What the operations of the account can do

`Kept` is what booking a fill or a fee never touches: everything of the account
but its balances and totals, and of a holding everything but its two legs.

`State.Moves` is everything an event can do to an account, as a sequence of small
moves: a holding's matcher is called, its mark is moved, it is closed out, or a
fill is booked.  `moves_apply` says so once, and an invariant of the account over
whole runs is then a matter of the moves alone.
-/
import OpenQuanter.Check
import OpenQuanter.Identity

open Logged

/-! ## Booking -/

/-- Everything of a holding but its legs. -/
def Holding.rest (h : Holding) : InstrumentId × Contract × TierTable × Matcher × PriceTicks :=
  (h.instrument, h.contract, h.table, h.engine, h.mark)

namespace Holding

theorem rest_setLeg (h : Holding) (short : Bool) (qty : QtyLots) (entry : PriceTicks)
    (cost : Int) : (h.setLeg short qty entry cost).rest = h.rest := by
  cases short <;> rfl

theorem rest_openLeg (h : Holding) (short : Bool) (qty : QtyLots) (price : PriceTicks)
    (sign : Int64) : (h.openLeg short qty price sign).val.rest = h.rest := by
  unfold openLeg
  split_ifs
  · rfl
  · exact rest_setLeg _ _ _ _ _

theorem rest_closeLeg (h : Holding) (short : Bool) (qty : QtyLots) (price : PriceTicks) :
    (h.closeLeg short qty price).val.1.rest = h.rest := by
  unfold closeLeg
  by_cases hflat : (h.leg short).1 = 0
  · simp only [hflat, if_true]
    rfl
  · simp only [hflat, if_false]
    exact rest_setLeg _ _ _ _ _

end Holding

namespace State

/-- What booking a fill, a fee or a profit leaves alone. -/
structure Kept (s t : State) : Prop where
  rests : t.holdings.map Holding.rest = s.holdings.map Holding.rest
  mode : t.mode = s.mode
  settlement : t.settlement = s.settlement
  funding : t.funding = s.funding
  feeSchedule : t.feeSchedule = s.feeSchedule
  now : t.now = s.now
  enforceLiquidation : t.enforceLiquidation = s.enforceLiquidation
  matching : t.matching = s.matching
  forfeited : t.forfeited = s.forfeited

theorem Kept.refl (s : State) : Kept s s := ⟨rfl, rfl, rfl, rfl, rfl, rfl, rfl, rfl, rfl⟩

theorem Kept.trans {s t u : State} (h : Kept s t) (h' : Kept t u) : Kept s u :=
  ⟨h'.rests.trans h.rests, h'.mode.trans h.mode, h'.settlement.trans h.settlement,
    h'.funding.trans h.funding, h'.feeSchedule.trans h.feeSchedule, h'.now.trans h.now,
    h'.enforceLiquidation.trans h.enforceLiquidation, h'.matching.trans h.matching,
    h'.forfeited.trans h.forfeited⟩

variable (s : State)

theorem kept_chargeFee (fee : Cash) : Kept s (s.chargeFee fee).val :=
  ⟨rfl, rfl, rfl, rfl, rfl, rfl, rfl, rfl, rfl⟩

theorem kept_realize (pnl : Cash) : Kept s (s.realize pnl).val :=
  ⟨rfl, rfl, rfl, rfl, rfl, rfl, rfl, rfl, rfl⟩

/-- Writing a holding that differs in its legs only. -/
theorem kept_setAt {index : Nat} {h : Holding} (hrest : h.rest = (s.holdingsAt index).rest) :
    Kept s (s.setAt index h) := by
  refine ⟨?_, rfl, rfl, rfl, rfl, rfl, rfl, rfl, rfl⟩
  apply List.ext_getElem
  · simp [setAt]
  · intro j hj hj'
    simp only [setAt, List.length_map, holdings_modifyAt, List.length_modify] at hj hj'
    simp only [setAt, holdings_modifyAt, List.getElem_map, List.getElem_modify]
    split_ifs with hij
    · subst hij
      rw [hrest, holdingsAt, List.getD_eq_getElem _ _ hj]
    · rfl

theorem kept_openLegAt (index : Nat) (short : Bool) (qty : QtyLots) (price : PriceTicks)
    (sign : Int64) : Kept s (s.openLegAt index short qty price sign).val :=
  s.kept_setAt (Holding.rest_openLeg _ _ _ _ _)

theorem kept_closeLegAt (index : Nat) (short : Bool) (qty : QtyLots) (price : PriceTicks) :
    Kept s (s.closeLegAt index short qty price).val :=
  (s.kept_setAt (Holding.rest_closeLeg _ _ _ _)).trans (kept_realize _ _)

theorem kept_applyFillNet (index : Nat) (fill : Fill) :
    Kept s (s.applyFillNet index fill).val := by
  have hclose := s.kept_closeLegAt index false
    (min (satAbs fill.positionDelta) (satAbs (s.holdingsAt index).qty)) fill.price
  unfold applyFillNet
  simp only
  split
  · rw [val_bind]
    split
    · exact hclose.trans (kept_openLegAt _ _ _ _ _ _)
    · exact hclose
  · exact s.kept_openLegAt _ _ _ _ _

theorem kept_applyFillHedged (index : Nat) (fill : Fill) :
    Kept s (s.applyFillHedged index fill).val := by
  unfold applyFillHedged
  simp only
  rcases fill.offset with _ | _
  · exact s.kept_openLegAt _ _ _ _ _
  · exact s.kept_closeLegAt _ _ _ _

/-- **Booking a fill moves legs, balances and totals only.** -/
theorem kept_applyFill (fill : Fill) : Kept s (s.applyFill fill).val := by
  unfold applyFill
  rcases s.holdingIndex fill.instrument with _ | index
  · exact Kept.refl s
  · simp only
    rcases s.mode with _ | _
    · exact s.kept_applyFillNet index fill
    · exact s.kept_applyFillHedged index fill

/-! ### What can be read off kept holdings -/

variable {s} {t : State}

theorem Kept.length (h : Kept s t) : t.holdings.length = s.holdings.length := by
  have := congrArg List.length h.rests
  simpa using this

theorem Kept.rest_holdingsAt (h : Kept s t) (index : Nat) :
    (t.holdingsAt index).rest = (s.holdingsAt index).rest := by
  have hhead : t.holding.rest = s.holding.rest := by
    unfold holding
    have ht := List.head_map (f := Holding.rest) (w := by simpa using t.nonempty)
    have hs := List.head_map (f := Holding.rest) (w := by simpa using s.nonempty)
    rw [← ht, ← hs]
    simp only [h.rests]
  unfold holdingsAt
  rw [← List.getD_map (f := Holding.rest), ← List.getD_map (f := Holding.rest), h.rests, hhead]

theorem Kept.instruments (h : Kept s t) : t.instruments = s.instruments := by
  have hmap := congrArg (List.map (fun r : InstrumentId × Contract × TierTable × Matcher ×
    PriceTicks => r.1)) h.rests
  rw [List.map_map, List.map_map] at hmap
  exact hmap

end State

namespace Kernel

open State

variable (k : Kernel)

theorem kept_bookFill (index : Nat) (fill : Fill) :
    Kept k.state (bookFill index k fill).val.state :=
  (k.state.kept_chargeFee _).trans (kept_applyFill _ fill)

theorem kept_bookFills (index : Nat) (fills : List Fill) :
    Kept k.state (k.bookFills index fills).val.state := by
  induction fills generalizing k with
  | nil => exact Kept.refl _
  | cons fill rest ih =>
    unfold bookFills
    rw [List.foldlM_cons, val_bind]
    exact (k.kept_bookFill index fill).trans (ih _)

end Kernel

/-! ## Moves -/

/-- What one call can make of a matcher. -/
inductive Matcher.Called (m : Matcher) : Matcher → Prop
  | submit (order : Working) (now : Nanos) : Called m (m.submit order now)
  | cancel (id : OrderId) : Called m (m.cancel id).1
  | onTick (tick : Tick) : Called m (m.onTick tick)
  | onDepth (update : DepthUpdate) : Called m (m.onDepth update).1

/-- What an event can make of a holding, its fills apart. -/
inductive Holding.Move (h : Holding) : Holding → Prop
  | stay : Move h h
  | call {m : Matcher} (hm : h.engine.Called m) : Move h { h with engine := m }
  | mark (price : PriceTicks) : Move h { h with mark := price }
  | close : Move h h.closedOut

/-- The part of an account that no event changes. -/
structure State.SameSetup (s t : State) : Prop where
  mode : t.mode = s.mode
  settlement : t.settlement = s.settlement
  feeSchedule : t.feeSchedule = s.feeSchedule
  enforceLiquidation : t.enforceLiquidation = s.enforceLiquidation
  matching : t.matching = s.matching

/-- What an event can make of an account, in one move. -/
inductive State.Move (s : State) : State → Prop
  | held {t : State} (hsetup : SameSetup s t)
      (hholdings : List.Forall₂ Holding.Move s.holdings t.holdings) : Move s t
  | fill (fill : Fill) : Move s (s.applyFill fill).val

/-- What an event can make of an account. -/
def State.Moves : State → State → Prop := Relation.ReflTransGen State.Move

namespace State

theorem SameSetup.refl (s : State) : SameSetup s s := ⟨rfl, rfl, rfl, rfl, rfl⟩

theorem SameSetup.trans {s t u : State} (h : SameSetup s t) (h' : SameSetup t u) :
    SameSetup s u :=
  ⟨h'.mode.trans h.mode, h'.settlement.trans h.settlement, h'.feeSchedule.trans h.feeSchedule,
    h'.enforceLiquidation.trans h.enforceLiquidation, h'.matching.trans h.matching⟩

theorem Kept.sameSetup {s t : State} (h : Kept s t) : SameSetup s t :=
  ⟨h.mode, h.settlement, h.feeSchedule, h.enforceLiquidation, h.matching⟩

theorem Move.sameSetup {s t : State} (h : Move s t) : SameSetup s t := by
  cases h with
  | held hsetup _ => exact hsetup
  | fill fill => exact (s.kept_applyFill fill).sameSetup

/-- **No event changes the setup.** -/
theorem Moves.sameSetup {s t : State} (h : Moves s t) : SameSetup s t := by
  induction h with
  | refl => exact SameSetup.refl s
  | tail _ hmove ih => exact ih.trans hmove.sameSetup

theorem Moves.refl (s : State) : Moves s s := Relation.ReflTransGen.refl

theorem Moves.trans {s t u : State} (h : Moves s t) (h' : Moves t u) : Moves s u :=
  Relation.ReflTransGen.trans h h'

theorem Moves.length {s t : State} (h : Moves s t) :
    t.holdings.length = s.holdings.length := by
  induction h with
  | refl => rfl
  | tail _ hmove ih =>
    rw [← ih]
    cases hmove with
    | held _ hholdings => exact hholdings.length_eq.symm
    | fill fill => exact (kept_applyFill _ fill).length

theorem forall₂_stay (holdings : List Holding) : List.Forall₂ Holding.Move holdings holdings :=
  List.forall₂_same.mpr (fun _ _ => .stay)

/-- A move that leaves every holding as it is. -/
theorem moves_of_holdings_eq {s t : State} (hsetup : SameSetup s t) (h : t.holdings = s.holdings) :
    Moves s t :=
  .single (.held hsetup (by rw [h]; exact forall₂_stay _))

/-- What a holding was before it moved. -/
theorem exists_of_forall₂ {l l' : List Holding} (h : List.Forall₂ Holding.Move l l') {y : Holding}
    (hy : y ∈ l') : ∃ x ∈ l, Holding.Move x y := by
  obtain ⟨i, hi, rfl⟩ := List.mem_iff_getElem.mp hy
  have hlt : i < l.length := by rwa [h.length_eq]
  exact ⟨l[i], List.getElem_mem hlt, h.get hlt hi⟩

theorem forall₂_modify (holdings : List Holding) (index : Nat) {f : Holding → Holding}
    (hf : ∀ h, holdings[index]? = some h → Holding.Move h (f h)) :
    List.Forall₂ Holding.Move holdings (holdings.modify index f) := by
  induction holdings generalizing index with
  | nil => simp
  | cons h rest ih =>
    cases index with
    | zero => exact .cons (hf h rfl) (forall₂_stay rest)
    | succ index => exact .cons .stay (ih index hf)

/-- A move of one holding. -/
theorem moves_modifyAt (s : State) (index : Nat) {f : Holding → Holding}
    (hf : Holding.Move (s.holdingsAt index) (f (s.holdingsAt index))) :
    Moves s (s.modifyAt index f) := by
  refine .single (.held ⟨rfl, rfl, rfl, rfl, rfl⟩ (forall₂_modify _ index (fun h hh => ?_)))
  have hat : s.holdingsAt index = h := by
    rw [holdingsAt, List.getD_eq_getElem?_getD, hh, Option.getD_some]
  rwa [← hat]

variable (s : State)

theorem moves_applyFill (fill : Fill) : Moves s (s.applyFill fill).val := .single (.fill fill)

theorem moves_withNow (at_ : Nanos) : Moves s (s.withNow at_) :=
  moves_of_holdings_eq ⟨rfl, rfl, rfl, rfl, rfl⟩ rfl

theorem moves_credit (amount : Cash) : Moves s (s.credit amount).val :=
  moves_of_holdings_eq ⟨rfl, rfl, rfl, rfl, rfl⟩ rfl

theorem moves_chargeFee (fee : Cash) : Moves s (s.chargeFee fee).val :=
  moves_of_holdings_eq ⟨rfl, rfl, rfl, rfl, rfl⟩ rfl

theorem moves_realize (pnl : Cash) : Moves s (s.realize pnl).val :=
  moves_of_holdings_eq ⟨rfl, rfl, rfl, rfl, rfl⟩ rfl

theorem moves_bookFunding (amount : Cash) : Moves s (s.bookFunding amount).val :=
  moves_of_holdings_eq ⟨rfl, rfl, rfl, rfl, rfl⟩ rfl

theorem moves_liquidateHolding (index : Nat) (price : PriceTicks) :
    Moves s (s.liquidateHolding index price).val.1 :=
  (s.moves_realize _).trans (moves_modifyAt _ index .close)

theorem moves_closeAll (price : PriceTicks) : Moves s (s.closeAll price).val.1 := by
  unfold closeAll
  split
  · exact s.moves_liquidateHolding 0 price
  · have hstep : ∀ (acc : State × List Liquidation) (index : Nat), Moves s acc.1 →
        Ensures ∅ (closeOne acc index) (fun p => Moves s p.1) :=
      fun acc index hacc => ensures_of_val (hacc.trans (moves_liquidateHolding _ _ _))
    exact ensures_empty (ensures_foldlM (I := fun p : State × List Liquidation => Moves s p.1)
      hstep (s := (s, [])) (Moves.refl s) s.openIndices)

theorem moves_liquidate (price : PriceTicks) : Moves s (s.liquidate price).val.1 :=
  (s.moves_closeAll price).trans (moves_of_holdings_eq ⟨rfl, rfl, rfl, rfl, rfl⟩ rfl)

end State

namespace Kernel

open State

variable (k : Kernel)

theorem route_lt {instrument : Option InstrumentId} {index : Nat}
    (h : k.route instrument = some index) : index < k.state.holdings.length := by
  unfold route at h
  split at h
  · exact State.holdingIndex_lt h
  · split at h
    · cases h
      omega
    · cases h

theorem moves_checkLiquidation (mark : PriceTicks) :
    Moves k.state (k.checkLiquidation mark).val.state := by
  unfold checkLiquidation
  split
  · exact Moves.refl _
  · split
    · exact k.state.moves_liquidate mark
    · exact Moves.refl _

theorem moves_bookFill (index : Nat) (fill : Fill) :
    Moves k.state (bookFill index k fill).val.state :=
  (k.state.moves_chargeFee _).trans (moves_applyFill _ fill)

theorem moves_bookFills (index : Nat) (fills : List Fill) :
    Moves k.state (k.bookFills index fills).val.state :=
  ensures_empty (ensures_foldlM (I := fun k' : Kernel => Moves k.state k'.state)
    (fun k' fill hk' => ensures_of_val (hk'.trans (k'.moves_bookFill index fill)))
    (Moves.refl _) fills)

theorem moves_observe (index : Nat) (tick : Tick) :
    Moves k.state (k.observe index tick).state :=
  (k.state.moves_withNow _).trans (moves_modifyAt _ index (.mark _))

theorem moves_bookTick (index : Nat) (tick : Tick) :
    Moves k.state (k.bookTick index tick).val.1.state := by
  have hobserve := k.moves_observe index tick
  unfold bookTick
  simp only
  split
  · exact hobserve
  · have hcall := moves_modifyAt (k.observe index tick).state index
      (f := fun h => { h with
        engine := ((k.observe index tick).state.holdingsAt index).engine.onTick tick })
      (.call (.onTick tick))
    rw [val_bind]
    exact (hobserve.trans hcall).trans
      (moves_bookFills ((k.observe index tick).withState _) index _)

theorem moves_bookSettlement (instrument : Option InstrumentId) (at_ : Nanos) (rate : Ratio)
    (mark : PriceTicks) :
    Moves k.state (k.bookSettlement instrument at_ rate mark).val.1.state := by
  have hnow := k.state.moves_withNow at_
  unfold bookSettlement
  simp only
  rcases (k.withState (k.state.withNow at_)).route instrument with _ | index
  · exact hnow
  · simp only
    split
    · exact hnow
    · exact hnow.trans (moves_bookFunding _ _)

theorem moves_withdrawFilled (s : State) (fill : Fill) : Moves s (withdrawFilled s fill) := by
  unfold withdrawFilled
  split
  · exact Moves.refl s
  · exact moves_modifyAt s _ (.call (.cancel fill.order))

theorem moves_venueFee (s : State) (fill : Fill) (reported : Fee) :
    Moves s (venueFee s fill reported).2 := by
  cases reported <;> exact moves_of_holdings_eq ⟨rfl, rfl, rfl, rfl, rfl⟩ rfl

theorem moves_bookVenueFill (fill : Fill) (reported : Fee) :
    Moves k.state (k.bookVenueFill fill reported).val.1.state := by
  unfold bookVenueFill
  split
  · exact Moves.refl _
  · exact ((((k.state.moves_withNow _).trans (moves_withdrawFilled _ fill)).trans
      (moves_venueFee _ fill reported)).trans (moves_chargeFee _ _)).trans (moves_applyFill _ fill)

theorem moves_onSubmit (instrument : Option InstrumentId) (id : OrderId) (side : Side)
    (price : Option PriceTicks) (qty : QtyLots) (offset : Offset) (stamp : Stamp) :
    Moves k.state (k.onSubmit instrument id side price qty offset stamp).state := by
  unfold onSubmit
  split
  · split
    · exact Moves.refl _
    · split
      · exact Moves.refl _
      · split
        · exact Moves.refl _
        · exact moves_modifyAt _ _ (.call (.submit _ _))
  · exact Moves.refl _

theorem forall₂_cancelFirst (id : OrderId) (holdings : List Holding) :
    List.Forall₂ Holding.Move holdings (cancelFirst id holdings).1 := by
  induction holdings with
  | nil => exact .nil
  | cons h rest ih =>
    have hcall : Holding.Move h { h with engine := (h.engine.cancel id).1 } := .call (.cancel id)
    simp only [cancelFirst]
    split
    · exact .cons hcall (forall₂_stay rest)
    · exact .cons hcall ih

theorem moves_onCancel (id : OrderId) : Moves k.state (k.onCancel id).state := by
  unfold onCancel
  simp only
  split
  · exact .single (.held ⟨rfl, rfl, rfl, rfl, rfl⟩ (forall₂_cancelFirst id _))
  · exact .single (.held ⟨rfl, rfl, rfl, rfl, rfl⟩ (forall₂_cancelFirst id _))

theorem moves_onDepth (update : DepthUpdate) : Moves k.state (k.onDepth update).state := by
  unfold onDepth
  split
  · exact moves_modifyAt _ _ (.call (.onDepth update))
  · exact Moves.refl _

theorem moves_onFundingCharged (instrument : Option InstrumentId) (at_ : Nanos) (amount : Cash) :
    Moves k.state (k.onFundingCharged instrument at_ amount).val.state := by
  have hnow := k.state.moves_withNow at_
  unfold onFundingCharged
  simp only
  split
  · exact hnow
  · exact hnow.trans (moves_bookFunding _ _)

/-- Everything an event books is a sequence of moves. -/
theorem moves_booked (event : Event) : Moves k.state (k.booked event).val.1.state := by
  cases event with
  | tick instrument tick =>
    unfold booked
    simp only
    split
    · exact k.cleared.moves_bookTick _ tick
    · exact Moves.refl _
  | funding instrument at_ rate mark => exact k.cleared.moves_bookSettlement _ _ _ _
  | venueFill fill reported => exact k.cleared.moves_bookVenueFill _ _
  | submit instrument id side price qty offset stamp => exact k.cleared.moves_onSubmit _ _ _ _ _ _ _
  | cancel id stamp => exact k.cleared.moves_onCancel id
  | fundingCharged instrument at_ amount => exact k.cleared.moves_onFundingCharged _ _ _
  | feeRecovered at_ amount remainingMissing =>
    exact (k.state.moves_withNow at_).trans
      (moves_of_holdings_eq ⟨rfl, rfl, rfl, rfl, rfl⟩ rfl)
  | time at_ => exact k.state.moves_withNow at_
  | marginDeposit amount at_ => exact (k.state.moves_withNow at_).trans (moves_credit _ _)
  | depth update => exact k.cleared.moves_onDepth update

/-- **Everything an event does to the account is a sequence of moves.** -/
theorem moves_apply (event : Event) : Moves k.state (k.apply event).val.state := by
  rw [apply_eq, val_bind]
  refine (k.moves_booked event).trans ?_
  unfold settle
  split
  · exact Moves.refl _
  · exact moves_checkLiquidation _ _

theorem run_append (k : Kernel) (first second : List Event) :
    (k.run (first ++ second)).val = ((k.run first).val.run second).val := by
  unfold run
  rw [List.foldlM_append, val_bind]

/-- The same for a run. -/
theorem moves_run (events : List Event) : Moves k.state (k.run events).val.state :=
  ensures_empty (ensures_foldlM (I := fun k' : Kernel => Moves k.state k'.state)
    (fun k' event hk' => ensures_of_val (hk'.trans (k'.moves_apply event))) (Moves.refl _) events)

end Kernel
