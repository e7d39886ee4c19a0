/-
# Hedge accounting with one leg

A hedged account whose fills only open and close its long leg books what a
one-way account books.  The liquidation check is where the two can part: the
hedged account is judged at its stored mark, the one-way account at the price the
event carries.  A tick has just made the two the same; a funding settlement and a
venue fill have not.  `hedge_eq_oneWay_iff` says that this is the only way.
-/
import OpenQuanter.Legs
import OpenQuanter.Solvency

open Logged

/-! ## Fills of the long leg -/

/-- The long leg after a fill that opens or closes it. -/
def legAfter (leg : QtyLots) (fill : Fill) : QtyLots :=
  match fill.side with
  | .buy => satAdd leg fill.qty
  | .sell => leg - fill.qty

/-- A fill that opens the long leg of an instrument, or closes no more of it
than is there. -/
structure LongFill (instrument : InstrumentId) (leg : QtyLots) (fill : Fill) : Prop where
  instrument : fill.instrument = instrument
  pos : 0 < fill.qty
  within : (fill.side = .buy ∧ fill.offset = .opening) ∨
    (fill.side = .sell ∧ fill.offset = .closing ∧ fill.qty ≤ leg)

/-- Fills of the long leg only, one after the other. -/
def LongFills (instrument : InstrumentId) : QtyLots → List Fill → Prop
  | _, [] => True
  | leg, fill :: rest =>
    LongFill instrument leg fill ∧ LongFills instrument (legAfter leg fill) rest

theorem legAfter_nonneg {instrument : InstrumentId} {leg : QtyLots} {fill : Fill} (hleg : 0 ≤ leg)
    (h : LongFill instrument leg fill) : 0 ≤ legAfter leg fill := by
  have hleg' : 0 ≤ leg.toInt := Int64.le_iff_toInt_le.mp hleg
  have hqty : 0 < fill.qty.toInt := lt_iff_toInt.mp h.pos
  apply Int64.le_iff_toInt_le.mpr
  have hzero : (0 : Int64).toInt = 0 := rfl
  rw [hzero]
  unfold legAfter
  rcases h.within with ⟨hside, -⟩ | ⟨hside, -, hle⟩
  · rw [hside]
    exact le_of_lt (toInt_ofIntClamp_pos (by omega))
  · rw [hside]
    have hle' : fill.qty.toInt ≤ leg.toInt := Int64.le_iff_toInt_le.mp hle
    have hfits := fitsI64_toInt leg
    show 0 ≤ (leg - fill.qty).toInt
    rw [Int64.toInt_sub, Int.bmod_eq_of_le]
    · omega
    · have := hfits.1; omega
    · have := hfits.2; omega

theorem satAbs_of_nonneg {q : Int64} (h : 0 ≤ q) : satAbs q = q := by
  have hq : 0 ≤ q.toInt := Int64.le_iff_toInt_le.mp h
  unfold satAbs
  rw [abs_of_nonneg hq]
  exact Int64.ofIntClamp_toInt q

namespace Holding

theorem qty_openLeg_long (h : Holding) (hleg : 0 ≤ h.qty) {qty : QtyLots} (hqty : 0 < qty)
    (price : PriceTicks) : (h.openLeg false qty price 1).val.qty = satAdd h.qty qty := by
  have hne : qty ≠ 0 := by
    rintro rfl
    exact absurd hqty (by decide)
  unfold openLeg
  rw [if_neg hne]
  show 1 * Int64.ofIntClamp ((satAbs h.qty).toInt + qty.toInt) = satAdd h.qty qty
  rw [Int64.one_mul, satAbs_of_nonneg hleg]
  rfl

theorem qty_closeLeg_long (h : Holding) {qty : QtyLots} (hqty : 0 < qty) (hle : qty ≤ h.qty)
    (price : PriceTicks) : (h.closeLeg false qty price).val.1.qty = h.qty - qty := by
  have hq : 0 < qty.toInt := lt_iff_toInt.mp hqty
  have hle' : qty.toInt ≤ h.qty.toInt := Int64.le_iff_toInt_le.mp hle
  have hpos : 0 < h.qty := lt_iff_toInt.mpr (by
    show (0 : Int64).toInt < _
    have : (0 : Int64).toInt = 0 := rfl
    omega)
  have hne : h.qty ≠ 0 := by
    intro hz
    rw [hz] at hpos
    exact absurd hpos (by decide)
  unfold closeLeg
  have hleg : (h.leg false).1 = h.qty := rfl
  simp only [hleg, if_neg hne]
  show h.qty - min qty (satAbs h.qty) * (if 0 < h.qty then 1 else -1) = _
  have hmin : min qty (satAbs h.qty) = qty := by
    rw [satAbs_of_pos hpos]
    show (if qty ≤ h.qty then qty else h.qty) = qty
    rw [if_pos hle]
  rw [hmin, if_pos hpos, Int64.mul_one]

end Holding

/-! ## Booking -/

namespace State

/-- One holding, long or flat. -/
def LongLone (s : State) : Prop :=
  ∃ h, s.holdings = [h] ∧ 0 ≤ h.qty ∧ h.shortQty = 0

/-- Moves without a fill keep a long holding long. -/
theorem LongLone.of_forall₂ {s t : State} (h : s.LongLone)
    (hmoves : List.Forall₂ Holding.Move s.holdings t.holdings) : t.LongLone := by
  obtain ⟨x, hx, hqty, hshort⟩ := h
  rw [hx] at hmoves
  obtain ⟨y, rest, hxy, hrest, ht⟩ := List.forall₂_cons_left_iff.mp hmoves
  rw [List.forall₂_nil_left_iff.mp hrest] at ht
  refine ⟨y, ht, ?_, hxy.shortQty hshort⟩
  cases hxy with
  | stay => exact hqty
  | call _ => exact hqty
  | mark _ => exact hqty
  | close => exact Int64.le_refl 0

theorem LongLone.of_holdings_eq {s t : State} (h : s.LongLone) (heq : t.holdings = s.holdings) :
    t.LongLone := by
  obtain ⟨x, hx, hqty, hshort⟩ := h
  exact ⟨x, heq.trans hx, hqty, hshort⟩

variable {s : State} {h : Holding}

/-- A fill of the long leg on the one holding of a one-way account. -/
theorem applyFillNet_of_longFill (hs : s.holdings = [h]) (hleg : 0 ≤ h.qty) {fill : Fill}
    (hfill : LongFill h.instrument h.qty fill) :
    (s.applyFillNet 0 fill).val =
      if fill.side = .buy then (s.openLegAt 0 false fill.qty fill.price 1).val
      else (s.closeLegAt 0 false fill.qty fill.price).val := by
  obtain ⟨habs, hsignum, hbuy, -⟩ := positionDelta_facts hfill.pos
  have hat : s.holdingsAt 0 = h := by simp [holdingsAt, hs]
  unfold applyFillNet
  simp only [habs, hsignum, hat]
  rcases hfill.within with ⟨hside, -⟩ | ⟨hside, -, hle⟩
  · have hdelta : 0 < fill.positionDelta := hbuy.mpr hside
    have hgrow : ¬ (h.qty ≠ 0 ∧ decide (0 < h.qty) ≠ decide (0 < fill.positionDelta)) := by
      rintro ⟨hne, hdir⟩
      have hpos : 0 < h.qty := Int64.lt_of_le_of_ne hleg (Ne.symm hne)
      simp [hpos, hdelta] at hdir
    rw [if_neg hgrow, if_pos hside, hside]
    rfl
  · have hdelta : ¬ 0 < fill.positionDelta := fun hd => by
      rw [hbuy.mp hd] at hside
      cases hside
    have hpos : 0 < h.qty := Int64.lt_of_lt_of_le hfill.pos hle
    have hne : h.qty ≠ 0 := fun hz => by
      rw [hz] at hpos
      exact absurd hpos (by decide)
    have hmin : min fill.qty (satAbs h.qty) = fill.qty := by
      rw [satAbs_of_pos hpos]
      show (if fill.qty ≤ h.qty then fill.qty else h.qty) = fill.qty
      rw [if_pos hle]
    have hnobuy : ¬ fill.side = .buy := by
      rw [hside]
      simp
    rw [if_pos ⟨hne, by simp [hpos, hdelta]⟩, if_neg hnobuy, hmin, val_bind]
    have hnone : ¬ 0 < fill.qty - fill.qty := by simp
    rw [if_neg hnone]
    rfl

/-- **On the long leg the two modes book the same.** -/
theorem applyFill_withMode_hedge (hs : s.holdings = [h]) (hmode : s.mode = .oneWay)
    (hleg : 0 ≤ h.qty) {fill : Fill} (hfill : LongFill h.instrument h.qty fill) :
    ((s.withMode .hedge).applyFill fill).val = (s.applyFill fill).val.withMode .hedge := by
  have hindex : s.holdingIndex fill.instrument = some 0 := by
    simp [holdingIndex, hs, hfill.instrument]
  have hindex' : (s.withMode .hedge).holdingIndex fill.instrument = some 0 := hindex
  have hmode' : (s.withMode .hedge).mode = .hedge := rfl
  unfold applyFill
  rw [hindex, hindex', hmode, hmode']
  simp only
  rw [applyFillNet_of_longFill hs hleg hfill]
  unfold applyFillHedged
  rcases hfill.within with ⟨hside, hoffset⟩ | ⟨hside, hoffset, -⟩
  · simp only [hside, hoffset, if_true]
    rfl
  · simp only [hside, hoffset]
    rfl

/-- What a fill of the long leg makes of the holding. -/
theorem exists_of_longFill (hs : s.holdings = [h]) (hmode : s.mode = .oneWay)
    (hleg : 0 ≤ h.qty) (hshort : h.shortQty = 0) {fill : Fill}
    (hfill : LongFill h.instrument h.qty fill) :
    ∃ h', (s.applyFill fill).val.holdings = [h'] ∧ h'.qty = legAfter h.qty fill ∧
      h'.shortQty = 0 ∧ h'.instrument = h.instrument := by
  have hindex : s.holdingIndex fill.instrument = some 0 := by
    simp [holdingIndex, hs, hfill.instrument]
  have hat : s.holdingsAt 0 = h := by simp [holdingsAt, hs]
  have hset : ∀ x : Holding, (s.setAt 0 x).holdings = [x] := by
    intro x
    show s.holdings.modify 0 _ = _
    rw [hs]
    rfl
  unfold applyFill
  rw [hindex, hmode]
  simp only
  rw [applyFillNet_of_longFill hs hleg hfill]
  rcases hfill.within with ⟨hside, -⟩ | ⟨hside, -, hle⟩
  · rw [if_pos hside]
    refine ⟨(h.openLeg false fill.qty fill.price 1).val, ?_, ?_, ?_, ?_⟩
    · show (s.setAt 0 ((s.holdingsAt 0).openLeg false fill.qty fill.price 1).val).holdings = _
      rw [hset, hat]
    · rw [h.qty_openLeg_long hleg hfill.pos, legAfter, hside]
    · rw [Holding.shortQty_openLeg, hshort]
    · exact congrArg (fun r => r.1) (h.rest_openLeg false fill.qty fill.price 1)
  · have hnobuy : ¬ fill.side = .buy := by
      rw [hside]
      simp
    rw [if_neg hnobuy]
    refine ⟨(h.closeLeg false fill.qty fill.price).val.1, ?_, ?_, ?_, ?_⟩
    · show (s.setAt 0 ((s.holdingsAt 0).closeLeg false fill.qty fill.price).val.1).holdings = _
      rw [hset, hat]
    · rw [h.qty_closeLeg_long hfill.pos hle, legAfter, hside]
    · rw [Holding.shortQty_closeLeg, hshort]
    · exact congrArg (fun r => r.1) (h.rest_closeLeg false fill.qty fill.price)

end State

namespace Kernel

/-- The same kernel under hedge accounting. -/
def hedged (k : Kernel) : Kernel := k.withState (k.state.withMode .hedge)

/-- A one-way account of one holding, long or flat. -/
structure LongOneWay (k : Kernel) : Prop where
  mode : k.state.mode = .oneWay
  lone : k.state.LongLone

variable {k : Kernel}

theorem LongOneWay.of_forall₂ (h : k.LongOneWay) {k' : Kernel}
    (hmode : k'.state.mode = k.state.mode)
    (hmoves : List.Forall₂ Holding.Move k.state.holdings k'.state.holdings) : k'.LongOneWay :=
  ⟨hmode.trans h.mode, h.lone.of_forall₂ hmoves⟩

theorem LongOneWay.of_holdings_eq (h : k.LongOneWay) {k' : Kernel}
    (hmode : k'.state.mode = k.state.mode) (heq : k'.state.holdings = k.state.holdings) :
    k'.LongOneWay :=
  ⟨hmode.trans h.mode, h.lone.of_holdings_eq heq⟩

theorem hedged_bookFill {h : Holding} (hk : k.state.holdings = [h]) (hmode : k.state.mode = .oneWay)
    (hleg : 0 ≤ h.qty) {fill : Fill} (hfill : LongFill h.instrument h.qty fill) :
    (bookFill 0 k.hedged fill).val = (bookFill 0 k fill).val.hedged := by
  have happly := State.applyFill_withMode_hedge (s := (k.state.chargeFee
    (k.state.feeSchedule.charge (k.state.holdingsAt 0).contract fill)).val) hk hmode hleg hfill
  unfold bookFill
  simp only [val_bind, val_pure]
  have hstate : (((k.hedged.state.chargeFee (k.hedged.state.feeSchedule.charge
      (k.hedged.state.holdingsAt 0).contract fill)).val.applyFill fill)).val = _ := happly
  rw [hstate]
  rfl

theorem hedged_bookFills (fills : List Fill) :
    ∀ (k : Kernel) (h : Holding), k.state.holdings = [h] → k.state.mode = .oneWay → 0 ≤ h.qty →
      h.shortQty = 0 → LongFills h.instrument h.qty fills →
      (k.hedged.bookFills 0 fills).val = (k.bookFills 0 fills).val.hedged ∧
        (k.bookFills 0 fills).val.LongOneWay := by
  induction fills with
  | nil =>
    intro k h hk hmode hleg hshort _
    exact ⟨rfl, hmode, h, hk, hleg, hshort⟩
  | cons fill rest ih =>
    intro k h hk hmode hleg hshort ⟨hfill, hrest⟩
    have hstep := hedged_bookFill hk hmode hleg hfill
    obtain ⟨h', hk', hqty', hshort', hinstrument⟩ :=
      State.exists_of_longFill (s := (k.state.chargeFee
      (k.state.feeSchedule.charge (k.state.holdingsAt 0).contract fill)).val) hk hmode hleg hshort
      hfill
    have hmode' : (bookFill 0 k fill).val.state.mode = .oneWay :=
      (k.kept_bookFill 0 fill).mode.trans hmode
    have hleg' : 0 ≤ h'.qty := by
      rw [hqty']
      exact legAfter_nonneg hleg hfill
    rw [← hqty', ← hinstrument] at hrest
    obtain ⟨hval, hlong⟩ := ih (bookFill 0 k fill).val h' hk' hmode' hleg' hshort' hrest
    unfold bookFills at hval hlong ⊢
    rw [List.foldlM_cons, List.foldlM_cons, val_bind, val_bind, hstep]
    exact ⟨hval, hlong⟩

/-! ## One event -/

/-- The fills of an event only open and close the long leg. -/
def LongOnly (k : Kernel) (event : Event) : Prop :=
  LongFills k.state.holding.instrument k.state.holding.qty (k.fillsOf event)

theorem hedged_bookTick (h : k.LongOneWay) {index : Nat} (hlt : index < k.state.holdings.length)
    (tick : Tick)
    (hlong : ¬ k.state.matching = .venue →
      LongFills k.state.holding.instrument k.state.holding.qty (k.tickFills index tick)) :
    (k.hedged.bookTick index tick).val.1 = (k.bookTick index tick).val.1.hedged ∧
      (k.hedged.bookTick index tick).val.2 = (k.bookTick index tick).val.2 ∧
      (k.bookTick index tick).val.1.LongOneWay := by
  obtain ⟨x, hx, hleg, hshort⟩ := h.lone
  have hzero : index = 0 := by
    rw [hx] at hlt
    simpa using hlt
  subst hzero
  have hobserved : (k.observe 0 tick).LongOneWay :=
    h.of_forall₂ rfl (State.forall₂_modify _ 0 (fun _ _ => .mark tick.last))
  have hholding : k.state.holding = x := by simp [State.holding, hx]
  rw [hholding] at hlong
  by_cases hvenue : k.state.matching = .venue
  · have hk : (k.observe 0 tick).state.matching = .venue := hvenue
    have hg : (k.hedged.observe 0 tick).state.matching = .venue := hvenue
    simp only [bookTick, if_pos hk, if_pos hg]
    exact ⟨rfl, rfl, hobserved⟩
  · have hk : ¬ (k.observe 0 tick).state.matching = .venue := hvenue
    have hg : ¬ (k.hedged.observe 0 tick).state.matching = .venue := hvenue
    simp only [bookTick, if_neg hk, if_neg hg]
    have hholdings : (k.advanced 0 tick).state.holdings = [{ x with
        mark := tick.last
        engine := ((k.observe 0 tick).state.holdingsAt 0).engine.onTick tick }] := by
      simp [advanced, observe, withState, State.withNow, hx]
    obtain ⟨hval, hafter⟩ := hedged_bookFills (k.tickFills 0 tick) (k.advanced 0 tick) _ hholdings
      h.mode hleg hshort (hlong hvenue)
    exact ⟨hval, rfl, hafter⟩

theorem hedged_bookSettlement (h : k.LongOneWay) (instrument : Option InstrumentId) (at_ : Nanos)
    (rate : Ratio) (mark : PriceTicks) :
    (k.hedged.bookSettlement instrument at_ rate mark).val.1 =
        (k.bookSettlement instrument at_ rate mark).val.1.hedged ∧
      (k.hedged.bookSettlement instrument at_ rate mark).val.2 =
        (k.bookSettlement instrument at_ rate mark).val.2 ∧
      (k.bookSettlement instrument at_ rate mark).val.1.LongOneWay := by
  have hroute : (k.hedged.withState (k.hedged.state.withNow at_)).route instrument =
      (k.withState (k.state.withNow at_)).route instrument := rfl
  unfold bookSettlement
  simp only [hroute]
  rcases (k.withState (k.state.withNow at_)).route instrument with _ | index
  · exact ⟨rfl, rfl, h.of_holdings_eq rfl rfl⟩
  · have hflat : ((k.hedged.withState (k.hedged.state.withNow at_)).state.holdingsAt index).isFlat =
        ((k.withState (k.state.withNow at_)).state.holdingsAt index).isFlat := rfl
    simp only [hflat]
    split
    · exact ⟨rfl, rfl, h.of_holdings_eq rfl rfl⟩
    · exact ⟨rfl, rfl, h.of_holdings_eq rfl rfl⟩

theorem withdrawFilled_withMode (s : State) (fill : Fill) (mode : PositionMode) :
    withdrawFilled (s.withMode mode) fill = (withdrawFilled s fill).withMode mode := by
  have hindex : (s.withMode mode).holdingIndex fill.instrument = s.holdingIndex fill.instrument :=
    rfl
  unfold withdrawFilled
  rw [hindex]
  split <;> rfl

theorem venueFee_withMode (s : State) (fill : Fill) (reported : Fee) (mode : PositionMode) :
    venueFee (s.withMode mode) fill reported =
      ((venueFee s fill reported).1, (venueFee s fill reported).2.withMode mode) := by
  cases reported <;> rfl

theorem holdings_venueFee (s : State) (fill : Fill) (reported : Fee) :
    (venueFee s fill reported).2.holdings = s.holdings ∧
      (venueFee s fill reported).2.mode = s.mode := by
  cases reported <;> exact ⟨rfl, rfl⟩

theorem exists_withdrawFilled {s : State} {x : Holding} (hs : s.holdings = [x]) (fill : Fill) :
    (withdrawFilled s fill).mode = s.mode ∧ ∃ y, (withdrawFilled s fill).holdings = [y] ∧
      y.qty = x.qty ∧ y.shortQty = x.shortQty ∧ y.instrument = x.instrument := by
  unfold withdrawFilled
  rcases hindex : s.holdingIndex fill.instrument with _ | index
  · exact ⟨rfl, x, hs, rfl, rfl, rfl⟩
  · have hlt := State.holdingIndex_lt hindex
    rw [hs] at hlt
    have hzero : index = 0 := by simpa using hlt
    subst hzero
    refine ⟨rfl, { x with engine := (x.engine.cancel fill.order).1 }, ?_, rfl, rfl, rfl⟩
    show s.holdings.modify 0 _ = _
    rw [hs]
    rfl

theorem hedged_bookVenueFill (h : k.LongOneWay) (fill : Fill) (reported : Fee)
    (hlong : k.state.matching = .venue →
      LongFill k.state.holding.instrument k.state.holding.qty fill) :
    (k.hedged.bookVenueFill fill reported).val.1 = (k.bookVenueFill fill reported).val.1.hedged ∧
      (k.hedged.bookVenueFill fill reported).val.2 = (k.bookVenueFill fill reported).val.2 ∧
      (k.bookVenueFill fill reported).val.1.LongOneWay := by
  by_cases hnot : k.state.matching ≠ .venue
  · have hnot' : k.hedged.state.matching ≠ .venue := hnot
    simp only [bookVenueFill, if_pos hnot, if_pos hnot']
    exact ⟨rfl, rfl, h.of_holdings_eq rfl rfl⟩
  · have hnot' : ¬ k.hedged.state.matching ≠ .venue := hnot
    simp only [bookVenueFill, if_neg hnot, if_neg hnot']
    obtain ⟨x, hx, hleg, hshort⟩ := h.lone
    have hholding : k.state.holding = x := by simp [State.holding, hx]
    have hfill := hlong (not_not.mp hnot)
    rw [hholding] at hfill
    obtain ⟨hmode₁, y, hy, hqty, hshort', hinstrument⟩ :=
      exists_withdrawFilled (s := k.state.withNow fill.stamp.exch) hx fill
    obtain ⟨hholdings₂, hmode₂⟩ :=
      holdings_venueFee (withdrawFilled (k.state.withNow fill.stamp.exch) fill) fill reported
    -- the account the fill is applied to, in either mode
    have hprice : venueFee (withdrawFilled (k.hedged.state.withNow fill.stamp.exch) fill) fill
        reported =
        ((venueFee (withdrawFilled (k.state.withNow fill.stamp.exch) fill) fill reported).1,
          (venueFee (withdrawFilled (k.state.withNow fill.stamp.exch) fill) fill
            reported).2.withMode .hedge) := by
      have hnow : k.hedged.state.withNow fill.stamp.exch =
          (k.state.withNow fill.stamp.exch).withMode .hedge := rfl
      rw [hnow, withdrawFilled_withMode, venueFee_withMode]
    set priced := venueFee (withdrawFilled (k.state.withNow fill.stamp.exch) fill) fill reported
    have hs : (priced.2.chargeFee priced.1).val.holdings = [y] := hholdings₂.trans hy
    have hmode : (priced.2.chargeFee priced.1).val.mode = .oneWay :=
      hmode₂.trans (hmode₁.trans h.mode)
    have hleg' : 0 ≤ y.qty := by rwa [hqty]
    have hfill' : LongFill y.instrument y.qty fill := by rwa [hqty, hinstrument]
    have happly := State.applyFill_withMode_hedge hs hmode hleg' hfill'
    obtain ⟨z, hz, hzqty, hzshort, -⟩ :=
      State.exists_of_longFill hs hmode hleg' (hshort'.trans hshort) hfill'
    refine ⟨?_, rfl, ?_, z, hz, ?_, hzshort⟩
    · rw [hprice]
      simp only [val_bind, val_pure]
      have hstate : ((((priced.2.withMode .hedge).chargeFee priced.1).val.applyFill fill)).val =
        _ := happly
      rw [hstate]
      rfl
    · exact ((priced.2.chargeFee priced.1).val.kept_applyFill fill).mode.trans hmode
    · rw [hzqty]
      exact legAfter_nonneg hleg' hfill'

theorem hedged_onSubmit (h : k.LongOneWay) (instrument : Option InstrumentId) (id : OrderId)
    (side : Side) (price : Option PriceTicks) (qty : QtyLots) (offset : Offset) (stamp : Stamp) :
    k.hedged.onSubmit instrument id side price qty offset stamp =
        (k.onSubmit instrument id side price qty offset stamp).hedged ∧
      (k.onSubmit instrument id side price qty offset stamp).LongOneWay := by
  have hroute : k.hedged.route instrument = k.route instrument := rfl
  have hworking : k.hedged.working = k.working := rfl
  have hbalance : k.hedged.state.balance = k.state.balance := rfl
  unfold onSubmit
  rw [hroute, hworking, hbalance]
  split
  · split
    · exact ⟨rfl, h.of_holdings_eq rfl rfl⟩
    · rcases k.route instrument with _ | index
      · exact ⟨rfl, h.of_holdings_eq rfl rfl⟩
      · simp only
        split
        · exact ⟨rfl, h.of_holdings_eq rfl rfl⟩
        · exact ⟨rfl, h.of_forall₂ rfl
            (State.forall₂_modify _ index (fun _ _ => .call (.submit _ _)))⟩
  · exact ⟨rfl, h.of_holdings_eq rfl rfl⟩

theorem hedged_onCancel (h : k.LongOneWay) (id : OrderId) :
    k.hedged.onCancel id = (k.onCancel id).hedged ∧ (k.onCancel id).LongOneWay := by
  have hasked : cancelFirst id k.hedged.state.holdings = cancelFirst id k.state.holdings := rfl
  unfold onCancel
  simp only [hasked]
  split
  · exact ⟨rfl, h.of_forall₂ rfl (forall₂_cancelFirst id _)⟩
  · exact ⟨rfl, h.of_forall₂ rfl (forall₂_cancelFirst id _)⟩

theorem hedged_onDepth (h : k.LongOneWay) (update : DepthUpdate) :
    k.hedged.onDepth update = (k.onDepth update).hedged ∧ (k.onDepth update).LongOneWay := by
  have hlength : k.hedged.state.holdings.length = k.state.holdings.length := rfl
  unfold onDepth
  rw [hlength]
  split
  · exact ⟨rfl, h.of_forall₂ rfl
      (State.forall₂_modify _ 0 (fun _ _ => .call (.onDepth update)))⟩
  · exact ⟨rfl, h⟩

theorem hedged_onFundingCharged (h : k.LongOneWay) (instrument : Option InstrumentId)
    (at_ : Nanos) (amount : Cash) :
    (k.hedged.onFundingCharged instrument at_ amount).val =
        (k.onFundingCharged instrument at_ amount).val.hedged ∧
      (k.onFundingCharged instrument at_ amount).val.LongOneWay := by
  have hroute : (k.hedged.withState (k.hedged.state.withNow at_)).route instrument =
      (k.withState (k.state.withNow at_)).route instrument := rfl
  unfold onFundingCharged
  simp only [hroute]
  rcases (k.withState (k.state.withNow at_)).route instrument with _ | index
  · exact ⟨rfl, h.of_holdings_eq rfl rfl⟩
  · exact ⟨rfl, h.of_holdings_eq rfl rfl⟩

theorem LongOneWay.cleared (h : k.LongOneWay) : k.cleared.LongOneWay := ⟨h.mode, h.lone⟩

/-- **What an event books is the same in both modes.** -/
theorem hedged_booked (h : k.LongOneWay) {event : Event} (hlong : k.LongOnly event) :
    (k.hedged.booked event).val.1 = (k.booked event).val.1.hedged ∧
      (k.hedged.booked event).val.2 = (k.booked event).val.2 ∧
      (k.booked event).val.1.LongOneWay := by
  cases event with
  | tick instrument tick =>
    have hroute : k.hedged.cleared.route instrument = k.cleared.route instrument := rfl
    unfold booked
    simp only [hroute]
    rcases hr : k.cleared.route instrument with _ | index
    · exact ⟨rfl, rfl, h.of_holdings_eq rfl rfl⟩
    · refine hedged_bookTick (k := k.cleared) h.cleared (k.cleared.route_lt hr) tick
        (fun hvenue => ?_)
      have hr' : k.route instrument = some index := hr
      have hvenue' : ¬ k.state.matching = .venue := hvenue
      have hfills : k.fillsOf (.tick instrument tick) = k.tickFills index tick := by
        simp [fillsOf, hr', hvenue']
      unfold LongOnly at hlong
      rwa [hfills] at hlong
  | funding instrument at_ rate mark =>
    exact hedged_bookSettlement h.cleared instrument at_ rate mark
  | venueFill fill reported =>
    refine hedged_bookVenueFill (k := k.cleared) h.cleared fill reported (fun hvenue => ?_)
    have hvenue' : k.state.matching = .venue := hvenue
    have hfills : k.fillsOf (.venueFill fill reported) = [fill] := by
      simp [fillsOf, hvenue']
    unfold LongOnly at hlong
    rw [hfills] at hlong
    exact hlong.1
  | submit instrument id side price qty offset stamp =>
    obtain ⟨heq, hafter⟩ := hedged_onSubmit h.cleared instrument id side price qty offset stamp
    exact ⟨heq, rfl, hafter⟩
  | cancel id stamp =>
    obtain ⟨heq, hafter⟩ := hedged_onCancel h.cleared id
    exact ⟨heq, rfl, hafter⟩
  | fundingCharged instrument at_ amount =>
    obtain ⟨heq, hafter⟩ := hedged_onFundingCharged h.cleared instrument at_ amount
    exact ⟨heq, rfl, hafter⟩
  | feeRecovered at_ amount remainingMissing => exact ⟨rfl, rfl, h.of_holdings_eq rfl rfl⟩
  | time at_ => exact ⟨rfl, rfl, h.of_holdings_eq rfl rfl⟩
  | marginDeposit amount at_ => exact ⟨rfl, rfl, h.of_holdings_eq rfl rfl⟩
  | depth update =>
    obtain ⟨heq, hafter⟩ := hedged_onDepth h.cleared update
    exact ⟨heq, rfl, hafter⟩

/-! ## The check -/

/-- The position's test says the same at `price` and at the holding's mark. -/
def AgreesAt (s : State) (price : PriceTicks) : Prop :=
  s.enforceLiquidation = true → s.isFlat = false →
    s.position.isLiquidatable s.holding.table price =
      s.position.isLiquidatable s.holding.table s.holding.mark

theorem liquidatable_oneWay (h : k.LongOneWay) (price : PriceTicks) :
    liquidatable k.state price = k.state.position.isLiquidatable k.state.holding.table price := by
  obtain ⟨x, hx, -, -⟩ := h.lone
  unfold liquidatable
  rw [if_neg (by simp [h.mode, hx])]

/-- Under hedge accounting the price of the check does not matter. -/
theorem liquidatable_hedged (h : k.LongOneWay) (hopen : k.state.isFlat = false)
    (price : PriceTicks) :
    liquidatable k.hedged.state price =
      k.state.position.isLiquidatable k.state.holding.table k.state.holding.mark := by
  obtain ⟨x, hx, -, hshort⟩ := h.lone
  have hholding : k.state.holding = x := by simp [State.holding, hx]
  have hiff := State.isLiquidatable_iff_equity_le hx hshort hopen
  have hhedge : k.hedged.state.mode = .hedge := rfl
  unfold liquidatable
  rw [if_pos (by simp [hhedge]), hholding] at *
  have hequity : k.hedged.state.equity = k.state.equity := rfl
  have hmaintenance : k.hedged.state.maintenance = k.state.maintenance := rfl
  rw [hequity, hmaintenance]
  by_cases hle : k.state.equity ≤ k.state.maintenance
  · rw [hiff.mpr hle]
    simpa using hle
  · have hfalse : k.state.position.isLiquidatable x.table x.mark = false := by
      simpa using fun htrue => hle (hiff.mp htrue)
    rw [hfalse]
    simpa using hle

theorem liquidate_hedged (h : k.LongOneWay) (price : PriceTicks) :
    (k.hedged.state.liquidate price).val.1 = (k.state.liquidate price).val.1.withMode .hedge ∧
      (k.hedged.state.liquidate price).val.2 = (k.state.liquidate price).val.2 := by
  obtain ⟨x, hx, -, -⟩ := h.lone
  have hlone : k.state.holdings.length = 1 := by
    rw [hx]
    rfl
  have hlone' : k.hedged.state.holdings.length = 1 := hlone
  unfold State.liquidate State.closeAll
  rw [if_pos hlone, if_pos hlone']
  exact ⟨rfl, rfl⟩

/-- **Where the tests agree the check does the same in both modes.** -/
theorem hedged_checkLiquidation (h : k.LongOneWay) {price : PriceTicks}
    (hagree : AgreesAt k.state price) :
    (k.hedged.checkLiquidation price).val = (k.checkLiquidation price).val.hedged ∧
      (k.checkLiquidation price).val.LongOneWay := by
  by_cases hskip : (!k.state.enforceLiquidation || k.state.isFlat) = true
  · have hskip' : (!k.hedged.state.enforceLiquidation || k.hedged.state.isFlat) = true := hskip
    unfold checkLiquidation
    rw [if_pos hskip, if_pos hskip']
    exact ⟨rfl, h⟩
  · have hskip' : ¬ (!k.hedged.state.enforceLiquidation || k.hedged.state.isFlat) = true := hskip
    have hon : k.state.enforceLiquidation = true ∧ k.state.isFlat = false := by
      simpa using hskip
    have hsame : liquidatable k.hedged.state price = liquidatable k.state price := by
      rw [liquidatable_hedged h hon.2, liquidatable_oneWay h]
      exact (hagree hon.1 hon.2).symm
    obtain ⟨hstate, hout⟩ := liquidate_hedged h price
    unfold checkLiquidation
    rw [if_neg hskip, if_neg hskip', hsame]
    split
    · refine ⟨?_, (State.Moves.sameSetup (k.state.moves_liquidate price)).mode.trans h.mode, ?_⟩
      · simp only [val_bind, val_pure, hstate, hout]
        rfl
      · obtain ⟨x, hx, -, -⟩ := h.lone
        refine ⟨k.state.closedIn x, ?_, ?_, ?_⟩
        · show (k.state.closeAll price).val.1.holdings = _
          rw [State.holdings_closeAll, hx]
          rfl
        · have hclosed : k.state.closedIn x = x.closedOut := if_pos (Or.inl (by rw [hx]; rfl))
          rw [hclosed]
          exact Int64.le_refl 0
        · have hclosed : k.state.closedIn x = x.closedOut := if_pos (Or.inl (by rw [hx]; rfl))
          rw [hclosed]
          rfl
    · exact ⟨rfl, h⟩

/-- **Where they disagree one mode liquidates and the other does not.** -/
theorem outputs_ne_of_disagree (h : k.LongOneWay) {price : PriceTicks}
    (hdisagree : ¬ AgreesAt k.state price) :
    (k.hedged.checkLiquidation price).val.outputs ≠ (k.checkLiquidation price).val.outputs := by
  unfold AgreesAt at hdisagree
  push Not at hdisagree
  obtain ⟨henforce, hopen, hne⟩ := hdisagree
  have hskip : ¬ (!k.state.enforceLiquidation || k.state.isFlat) = true := by
    simp [henforce, hopen]
  have hskip' : ¬ (!k.hedged.state.enforceLiquidation || k.hedged.state.isFlat) = true := hskip
  obtain ⟨x, hx, -, -⟩ := h.lone
  have hlone : k.state.holdings.length = 1 := by
    rw [hx]
    rfl
  have hlength : (k.state.liquidate price).val.2.length = 1 := by
    unfold State.liquidate State.closeAll
    rw [if_pos hlone]
    rfl
  have hout := (liquidate_hedged h price).2
  intro heq
  have hlen := congrArg List.length heq
  have houtputs : k.hedged.outputs = k.outputs := rfl
  rw [← liquidatable_oneWay h, ← liquidatable_hedged h hopen price] at hne
  unfold checkLiquidation at hlen
  rw [if_neg hskip, if_neg hskip'] at hlen
  by_cases hliq : liquidatable k.state price = true
  · have hliq' : ¬ liquidatable k.hedged.state price = true := fun h' =>
      hne (hliq.trans h'.symm)
    rw [if_pos hliq, if_neg hliq'] at hlen
    simp [hlength, houtputs] at hlen
  · have hliq' : liquidatable k.hedged.state price = true := by
      simp only [Bool.not_eq_true] at hliq
      rw [hliq] at hne
      simpa using fun h' : liquidatable k.hedged.state price = false => hne h'.symm
    rw [if_neg hliq, if_pos hliq'] at hlen
    simp [hout, hlength, houtputs] at hlen

/-! ## Runs -/

/-- At a funding settlement or a venue fill that ends in a check, the test at the
price the event carries and the test at the stored mark agree. -/
def ChecksAgree (k : Kernel) (event : Event) : Prop :=
  match event with
  | .funding .. | .venueFill .. =>
    ∀ price, (k.booked event).val.2 = some price → AgreesAt (k.booked event).val.1.state price
  | _ => True

def RunChecksAgree : Kernel → List Event → Prop
  | _, [] => True
  | k, event :: rest => k.ChecksAgree event ∧ (k.apply event).val.RunChecksAgree rest

/-- Every fill of the run only opens or closes the long leg. -/
def RunLongOnly : Kernel → List Event → Prop
  | _, [] => True
  | k, event :: rest => k.LongOnly event ∧ (k.apply event).val.RunLongOnly rest

/-- A tick is checked at the mark it has just set; the others check at nothing. -/
theorem agreesAt_booked (h : k.LongOneWay) {event : Event} (hlong : k.LongOnly event)
    (hagree : k.ChecksAgree event) {price : PriceTicks}
    (hprice : (k.booked event).val.2 = some price) :
    AgreesAt (k.booked event).val.1.state price := by
  cases event with
  | tick instrument tick =>
    obtain ⟨-, -, hafter⟩ := hedged_booked h hlong
    obtain ⟨x, hx, -, -⟩ := hafter.lone
    have hholding : (k.booked (.tick instrument tick)).val.1.state.holding = x := by
      simp [State.holding, hx]
    rcases hroute : k.route instrument with _ | index
    · have hroute' : k.cleared.route instrument = none := hroute
      simp only [booked, hroute'] at hprice
      cases hprice
    · have hmark := k.mark_booked hroute tick hx
      have hlast : (k.booked (.tick instrument tick)).val.2 = some tick.last := by
        have hroute' : k.cleared.route instrument = some index := hroute
        simp only [booked, hroute', bookTick]
        split <;> rfl
      rw [hlast] at hprice
      cases hprice
      intro _ _
      rw [hholding, hmark]
  | funding instrument at_ rate mark => exact hagree price hprice
  | venueFill fill reported => exact hagree price hprice
  | submit instrument id side price' qty offset stamp => cases hprice
  | cancel id stamp => cases hprice
  | fundingCharged instrument at_ amount => cases hprice
  | feeRecovered at_ amount remainingMissing => cases hprice
  | time at_ => cases hprice
  | marginDeposit amount at_ => cases hprice
  | depth update => cases hprice

theorem hedged_apply (h : k.LongOneWay) {event : Event} (hlong : k.LongOnly event)
    (hagree : k.ChecksAgree event) :
    (k.hedged.apply event).val = (k.apply event).val.hedged ∧ (k.apply event).val.LongOneWay := by
  obtain ⟨hbooked, hprice, hafter⟩ := hedged_booked h hlong
  rw [apply_eq, apply_eq, val_bind, val_bind]
  unfold settle
  rw [hbooked, hprice]
  rcases hp : (k.booked event).val.2 with _ | price
  · exact ⟨rfl, hafter⟩
  · exact hedged_checkLiquidation hafter (agreesAt_booked h hlong hagree hp)

theorem outputs_ne_of_not_checksAgree (h : k.LongOneWay) {event : Event}
    (hlong : k.LongOnly event) (hdisagree : ¬ k.ChecksAgree event) :
    (k.hedged.apply event).val.outputs ≠ (k.apply event).val.outputs := by
  obtain ⟨hbooked, hprice, hafter⟩ := hedged_booked h hlong
  have hcheck : ∃ price, (k.booked event).val.2 = some price ∧
      ¬ AgreesAt (k.booked event).val.1.state price := by
    unfold ChecksAgree at hdisagree
    split at hdisagree
    · push Not at hdisagree
      exact hdisagree
    · push Not at hdisagree
      exact hdisagree
    · exact absurd trivial hdisagree
  obtain ⟨price, hp, hne⟩ := hcheck
  rw [apply_eq, apply_eq, val_bind, val_bind]
  unfold settle
  rw [hbooked, hprice, hp]
  exact outputs_ne_of_disagree hafter hne

/-- The two runs report the same, outputs and summary, after every event exactly
when every check agrees. -/
theorem runs_agree_iff (events : List Event) :
    ∀ k : Kernel, k.LongOneWay → k.RunLongOnly events →
      ((∀ done, done <+: events →
        (k.hedged.run done).val.outputs = (k.run done).val.outputs ∧
          (k.hedged.run done).val.summary = (k.run done).val.summary) ↔
        k.RunChecksAgree events) := by
  induction events with
  | nil =>
    intro k _ _
    refine ⟨fun _ => trivial, fun _ done hdone => ?_⟩
    rw [List.prefix_nil.mp hdone]
    exact ⟨rfl, rfl⟩
  | cons event rest ih =>
    intro k h ⟨hlong, hlongs⟩
    have hcons : ∀ (k : Kernel) (done : List Event),
        (k.run (event :: done)).val = ((k.apply event).val.run done).val := by
      intro k done
      unfold run
      rw [List.foldlM_cons, val_bind]
    constructor
    · intro hsame
      have hagree : k.ChecksAgree event := by
        by_contra hdisagree
        apply outputs_ne_of_not_checksAgree h hlong hdisagree
        have hone := (hsame [event] (List.prefix_append [event] rest)).1
        rwa [hcons, hcons] at hone
      obtain ⟨heq, hafter⟩ := hedged_apply h hlong hagree
      refine ⟨hagree, (ih _ hafter hlongs).mp (fun done hdone => ?_)⟩
      have hstep := hsame (event :: done) (List.cons_prefix_cons.mpr ⟨rfl, hdone⟩)
      rwa [hcons, hcons, heq] at hstep
    · rintro ⟨hagree, hagrees⟩ done hdone
      obtain ⟨heq, hafter⟩ := hedged_apply h hlong hagree
      cases done with
      | nil => exact ⟨rfl, rfl⟩
      | cons first done =>
        obtain ⟨rfl, hdone'⟩ := List.cons_prefix_cons.mp hdone
        rw [hcons, hcons, heq]
        exact (ih _ hafter hlongs).mpr hagrees done hdone'

instance (instrument : InstrumentId) (leg : QtyLots) (fill : Fill) :
    Decidable (LongFill instrument leg fill) :=
  decidable_of_iff (fill.instrument = instrument ∧ 0 < fill.qty ∧
      ((fill.side = .buy ∧ fill.offset = .opening) ∨
        (fill.side = .sell ∧ fill.offset = .closing ∧ fill.qty ≤ leg)))
    ⟨fun h => ⟨h.1, h.2.1, h.2.2⟩, fun h => ⟨h.1, h.2, h.3⟩⟩

instance decidableLongFills (instrument : InstrumentId) :
    (leg : QtyLots) → (fills : List Fill) → Decidable (LongFills instrument leg fills)
  | _, [] => isTrue trivial
  | leg, fill :: rest =>
    have := decidableLongFills instrument (legAfter leg fill) rest
    inferInstanceAs (Decidable (LongFill instrument leg fill ∧
      LongFills instrument (legAfter leg fill) rest))

instance decidableRunLongOnly :
    (k : Kernel) → (events : List Event) → Decidable (k.RunLongOnly events)
  | _, [] => isTrue trivial
  | k, event :: rest =>
    have := decidableRunLongOnly (k.apply event).val rest
    have : Decidable (k.LongOnly event) := decidableLongFills _ _ _
    inferInstanceAs (Decidable (k.LongOnly event ∧ (k.apply event).val.RunLongOnly rest))

instance (s : State) (price : PriceTicks) : Decidable (AgreesAt s price) :=
  inferInstanceAs (Decidable (_ → _ → _))

instance (k : Kernel) (event : Event) : Decidable (k.ChecksAgree event) :=
  match event with
  | .funding instrument at_ rate mark =>
    decidableForallSome (k.booked (.funding instrument at_ rate mark)).val.2
  | .venueFill fill fee => decidableForallSome (k.booked (.venueFill fill fee)).val.2
  | .tick .. | .submit .. | .cancel .. | .fundingCharged .. | .feeRecovered .. | .time ..
  | .marginDeposit .. | .depth .. => isTrue trivial

instance decidableRunChecksAgree :
    (k : Kernel) → (events : List Event) → Decidable (k.RunChecksAgree events)
  | _, [] => isTrue trivial
  | k, event :: rest =>
    have := decidableRunChecksAgree (k.apply event).val rest
    inferInstanceAs (Decidable (k.ChecksAgree event ∧ (k.apply event).val.RunChecksAgree rest))

/-- A long position, a settlement away from the mark that both tests survive, and
a close of part of the leg. -/
def agreeingRun : List Event :=
  longRun ++ [.funding none 3 1000000 98, .submit none 2 .sell none 20 .closing ⟨4, 4⟩,
    .tick none ⟨⟨5, 5⟩, 101, 102, 100, 100, 101, 10⟩]

/-- A long position and a settlement at a mark far below the last tick. -/
def settledRun : List Event := longRun ++ [.funding none 3 0 70]

/-- A venue fill before the first tick. -/
def earlyFill : List Event :=
  [.venueFill ⟨⟨1, 1⟩, 7, 1, 1, .buy, .opening, 100, 50, .taker⟩ .unsaid]

end Kernel
