/-
# No insolvent position survives an observation

The liquidation check is made with two tests.  A lone one-way holding is judged
as a `MarginedPosition` at the price passed in; a hedged account, or one with
several holdings, compares its equity with the sum of its requirements, each
holding at its own mark.  On a tick the two say the same, because the mark has
just been moved to the tick's last price and a one-way holding has no short leg.
-/
import OpenQuanter.Liquidation

open Logged

/-! ## One-way holdings have no short leg -/

namespace Holding

variable (h : Holding)

theorem shortQty_openLeg (qty : QtyLots) (price : PriceTicks) (sign : Int64) :
    (h.openLeg false qty price sign).val.shortQty = h.shortQty := by
  unfold openLeg
  split <;> rfl

theorem shortQty_closeLeg (qty : QtyLots) (price : PriceTicks) :
    (h.closeLeg false qty price).val.1.shortQty = h.shortQty := by
  unfold closeLeg
  by_cases hflat : (h.leg false).1 = 0
  · simp only [hflat, if_true]
    rfl
  · simp only [hflat, if_false]
    rfl

theorem Move.shortQty {h h' : Holding} (hmove : Move h h') (hshort : h.shortQty = 0) :
    h'.shortQty = 0 := by
  cases hmove with
  | stay => exact hshort
  | call _ => exact hshort
  | mark _ => exact hshort
  | close => rfl

end Holding

namespace State

/-- No holding has a short leg. -/
def ShortFree (s : State) : Prop := ∀ h ∈ s.holdings, h.shortQty = 0

/-- A one-way account has no short leg. -/
def OneLegged (s : State) : Prop := s.mode = .oneWay → s.ShortFree

theorem ShortFree.holdingsAt {s : State} (h : s.ShortFree) (index : Nat) :
    (s.holdingsAt index).shortQty = 0 := by
  unfold State.holdingsAt
  by_cases hlt : index < s.holdings.length
  · rw [List.getD_eq_getElem _ _ hlt]
    exact h _ (List.getElem_mem hlt)
  · rw [List.getD_eq_default _ _ (by omega)]
    exact h _ (List.head_mem _)

theorem ShortFree.setAt {s : State} (h : s.ShortFree) (index : Nat) {x : Holding}
    (hx : x.shortQty = 0) : (s.setAt index x).ShortFree := by
  intro y hy
  obtain ⟨z, hz, rfl | rfl⟩ := exists_of_mem_modify hy
  · exact h _ hz
  · exact hx

theorem ShortFree.openLegAt {s : State} (h : s.ShortFree) (index : Nat) (qty : QtyLots)
    (price : PriceTicks) (sign : Int64) :
    (s.openLegAt index false qty price sign).val.ShortFree :=
  h.setAt index ((Holding.shortQty_openLeg _ _ _ _).trans (h.holdingsAt index))

theorem ShortFree.closeLegAt {s : State} (h : s.ShortFree) (index : Nat) (qty : QtyLots)
    (price : PriceTicks) : (s.closeLegAt index false qty price).val.ShortFree :=
  h.setAt index ((Holding.shortQty_closeLeg _ _ _).trans (h.holdingsAt index))

theorem ShortFree.applyFillNet {s : State} (h : s.ShortFree) (index : Nat) (fill : Fill) :
    (s.applyFillNet index fill).val.ShortFree := by
  unfold State.applyFillNet
  simp only
  split
  · rw [val_bind]
    split
    · exact (h.closeLegAt _ _ _).openLegAt _ _ _ _
    · exact h.closeLegAt _ _ _
  · exact h.openLegAt _ _ _ _

theorem Move.oneLegged {s t : State} (hmove : Move s t) (h : s.OneLegged) : t.OneLegged := by
  intro hmode
  rw [hmove.sameSetup.mode] at hmode
  have hfree := h hmode
  cases hmove with
  | held _ hholdings =>
    intro y hy
    obtain ⟨x, hx, hxy⟩ := exists_of_forall₂ hholdings hy
    exact hxy.shortQty (hfree x hx)
  | fill fill =>
    unfold applyFill
    rcases s.holdingIndex fill.instrument with _ | index
    · exact hfree
    · simp only [hmode]
      exact hfree.applyFillNet index fill

theorem Moves.oneLegged {s t : State} (hmoves : Moves s t) (h : s.OneLegged) : t.OneLegged := by
  induction hmoves with
  | refl => exact h
  | tail _ hmove ih => exact hmove.oneLegged ih

/-- A fresh account has no position. -/
theorem Built.flat {start : Cash} {s : State} (h : Built start s) :
    ∀ x ∈ s.holdings, x.isFlat = true := by
  induction h with
  | new instrument contract table =>
    intro x hx
    rw [List.mem_singleton.mp hx]
    rfl
  | withFees _ fees ih => exact ih
  | withoutLiquidation _ ih => exact ih
  | withMode _ mode ih => exact ih
  | withMatching _ matching ih => exact ih
  | openHolding _ instrument contract table ih =>
    unfold State.openHolding
    split
    · exact ih
    · intro x hx
      rcases List.mem_append.mp hx with hx | hx
      · exact ih x hx
      · rw [List.mem_singleton.mp hx]
        rfl
  | matchingWith _ hm hi ih =>
    intro x hx
    obtain ⟨y, hy, rfl | rfl⟩ := exists_of_mem_modify hx
    · exact ih _ hy
    · exact ih y hy

theorem Built.oneLegged {start : Cash} {s : State} (h : Built start s) : s.OneLegged := by
  intro _ x hx
  have hflat := h.flat x hx
  unfold Holding.isFlat at hflat
  simp only [Bool.and_eq_true, decide_eq_true_eq] at hflat
  exact hflat.2

/-! ## The two tests -/

/-- **On a lone one-way holding the two tests decide the same.** -/
theorem isLiquidatable_iff_equity_le {s : State} {h : Holding} (hlone : s.holdings = [h])
    (hshort : h.shortQty = 0) (hopen : s.isFlat = false) :
    s.position.isLiquidatable s.holding.table h.mark = true ↔ s.equity ≤ s.maintenance := by
  have hfirst : s.holding = h := by simp [holding, hlone]
  have hqty : h.qty ≠ 0 := by
    intro hzero
    simp [isFlat, hlone, Holding.isFlat, hzero, hshort] at hopen
  have hequity : s.position.equity h.mark = s.equity := by
    unfold equity unrealized position MarginedPosition.equity MarginedPosition.unrealized
    simp [hlone, hfirst, Holding.unrealized, Holding.unrealizedAt, hshort]
  have hmaintenance : s.position.maintenance s.holding.table h.mark = s.maintenance := by
    unfold maintenance position MarginedPosition.maintenance
    simp [hlone, hfirst, Holding.maintenance, Holding.maintenanceAt, hshort, hqty]
  have hposition : s.position.qty ≠ 0 := by
    show s.holding.qty ≠ 0
    rwa [hfirst]
  rw [MarginedPosition.isLiquidatable_iff, hequity, hmaintenance]
  exact ⟨fun hle => hle.2, fun hle => ⟨hposition, hle⟩⟩

end State

namespace Kernel

variable (k : Kernel)

/-! ## The check -/

/-- **What the check leaves is flat or solvent**, when it is made at the lone
holding's own mark. -/
theorem solvent_checkLiquidation {mark : PriceTicks} (henforce : k.state.enforceLiquidation = true)
    (hone : k.state.OneLegged) (hmark : ∀ h, k.state.holdings = [h] → h.mark = mark) :
    let t := (k.checkLiquidation mark).val.state
    t.isFlat = true ∨ t.maintenance < t.equity := by
  intro t
  by_cases hflat : k.state.isFlat = true
  · have ht : t = k.state := by
      show (k.checkLiquidation mark).val.state = k.state
      rw [checkLiquidation, if_pos (by simp [hflat])]
      rfl
    rw [ht]
    exact Or.inl hflat
  · by_cases hliq : liquidatable k.state mark = true
    · have ht : t = (k.state.liquidate mark).val.1 := by
        show (k.checkLiquidation mark).val.state = _
        rw [checkLiquidation, if_neg (by simp [henforce, hflat]), if_pos hliq]
        rfl
      rw [ht]
      exact Or.inl (k.state.isFlat_liquidate mark)
    · have ht : t = k.state := by
        show (k.checkLiquidation mark).val.state = k.state
        rw [checkLiquidation, if_neg (by simp [henforce, hflat]), if_neg hliq]
        rfl
      rw [ht]
      right
      apply Int64.not_le.mp
      intro hle
      apply hliq
      unfold liquidatable
      by_cases haccount : (k.state.mode = .hedge || 1 < k.state.holdings.length) = true
      · rw [if_pos haccount]
        simpa using hle
      · rw [if_neg haccount]
        simp only [Bool.or_eq_true, decide_eq_true_eq, not_or, not_lt] at haccount
        -- neither hedged nor several: a lone one-way holding
        have hmode : k.state.mode = .oneWay := by
          rcases hm : k.state.mode with _ | _
          · rfl
          · exact absurd hm haccount.1
        have hlen : k.state.holdings.length = 1 :=
          le_antisymm haccount.2 (List.length_pos_iff.mpr k.state.nonempty)
        obtain ⟨h, hh⟩ := List.length_eq_one_iff.mp hlen
        have hshort : h.shortQty = 0 := hone hmode h (by simp [hh])
        rw [← hmark h hh]
        exact (State.isLiquidatable_iff_equity_le hh hshort (by simpa using hflat)).mpr hle

/-! ## A tick marks its holding first -/

theorem mark_bookTick {index : Nat} (hlt : index < k.state.holdings.length) (tick : Tick) :
    ((k.bookTick index tick).val.1.state.holdingsAt index).mark = tick.last := by
  have hmarked : ((k.observe index tick).state.holdingsAt index).mark = tick.last := by
    have hat := State.holdingsAt_modifyAt_self (s := k.state.withNow tick.stamp.exch) hlt
      (fun h => { h with mark := tick.last })
    exact congrArg Holding.mark hat
  have hlt' : index < (k.observe index tick).state.holdings.length := by
    show index < (k.state.holdings.modify index _).length
    rwa [List.length_modify]
  unfold bookTick
  simp only
  split
  · exact hmarked
  · set engine := ((k.observe index tick).state.holdingsAt index).engine.onTick tick
    have hstepped : (((k.observe index tick).state.modifyAt index
        (fun h => { h with engine := engine })).holdingsAt index).mark = tick.last := by
      rw [State.holdingsAt_modifyAt_self hlt']
      exact hmarked
    have hkept := (kept_bookFills ((k.observe index tick).withState
      ((k.observe index tick).state.modifyAt index (fun h => { h with engine := engine }))) index
      (engine.fills.map L0Fill.fill)).rest_holdingsAt index
    have hmark := congrArg (fun r => r.2.2.2.2) hkept
    exact hmark.trans hstepped

/-- The lone holding's mark after a tick is the tick's last price. -/
theorem mark_booked {instrument : Option InstrumentId} {index : Nat}
    (hroute : k.route instrument = some index) (tick : Tick) {h : Holding}
    (hlone : (k.booked (.tick instrument tick)).val.1.state.holdings = [h]) :
    h.mark = tick.last := by
  have hbooked : k.booked (.tick instrument tick) = k.cleared.bookTick index tick := by
    have hroute' : k.cleared.route instrument = some index := hroute
    simp only [booked, hroute']
  have hlen := (k.moves_booked (.tick instrument tick)).length
  rw [hlone, List.length_singleton] at hlen
  have hlt := k.route_lt hroute
  have hzero : index = 0 := by omega
  subst hzero
  have hlt0 : 0 < k.cleared.state.holdings.length := hlt
  have hmark := k.cleared.mark_bookTick hlt0 tick
  rw [hbooked] at hlone
  rw [← hmark, State.holdingsAt, hlone]
  rfl

/-! ## Liquidation outputs -/

/-- Booking forfeits nothing. -/
theorem forfeited_booked (event : Event) :
    (k.booked event).val.1.state.forfeited = k.state.forfeited := by
  cases event with
  | tick instrument tick =>
    unfold booked bookTick
    simp only
    split
    · split
      · rfl
      · exact (kept_bookFills _ _ _).forfeited
    · rfl
  | funding instrument at_ rate mark =>
    simp only [booked, bookSettlement]
    split
    · rfl
    · split <;> rfl
  | venueFill fill reported =>
    simp only [booked, bookVenueFill]
    split
    · rfl
    · refine (State.kept_applyFill _ fill).forfeited.trans ?_
      refine (State.kept_chargeFee _ _).forfeited.trans ?_
      have hfee : ∀ s : State, (venueFee s fill reported).2.forfeited = s.forfeited := by
        intro s
        cases reported <;> rfl
      rw [hfee]
      unfold withdrawFilled
      split <;> rfl
  | submit instrument id side price qty offset stamp =>
    show (k.cleared.onSubmit instrument id side price qty offset stamp).state.forfeited = _
    unfold onSubmit
    split
    · split
      · rfl
      · split
        · rfl
        · split <;> rfl
    · rfl
  | cancel id stamp =>
    show (k.cleared.onCancel id).state.forfeited = _
    unfold onCancel
    simp only
    split <;> rfl
  | fundingCharged instrument at_ amount =>
    show (k.cleared.onFundingCharged instrument at_ amount).val.state.forfeited = _
    unfold onFundingCharged
    simp only
    split <;> rfl
  | feeRecovered at_ amount remainingMissing => rfl
  | time at_ => rfl
  | marginDeposit amount at_ => rfl
  | depth update =>
    show (k.cleared.onDepth update).state.forfeited = _
    unfold onDepth
    split <;> rfl

/-- **What a liquidation leaves.**  The account is flat, its balance zero, and
what was forfeited is the balance with every position closed at its price. -/
theorem ensures_liquidated (event : Event) (l : Liquidation) :
    Ensures {Fault.cash} (k.apply event) (fun k' => Output.liquidated l ∈ k'.outputs →
      k'.state.isFlat = true ∧ k'.state.balance = 0 ∧
      ∃ price, (k.booked event).val.2 = some price ∧
        let mid := (k.booked event).val.1.state
        k'.state.forfeited.toInt = k.state.forfeited.toInt + mid.balance.toInt +
          (mid.holdings.map (fun h => (h.unrealizedAt (mid.closesAt price h)).toInt)).sum) := by
  rw [apply_eq]
  have hbooked : Ensures {Fault.cash} (k.booked event) (fun p => p = (k.booked event).val) :=
    ensures_of_val rfl
  refine ensures_bind hbooked (fun p hp => ?_)
  have hfresh : Output.liquidated l ∉ p.1.outputs := by
    rw [hp]
    exact k.not_liquidated_booked event l
  have hforfeited : p.1.state.forfeited = k.state.forfeited := by
    rw [hp]
    exact k.forfeited_booked event
  rw [← hp]
  unfold settle
  rcases hprice : p.2 with _ | price
  · exact ensures_pure (fun hmem => absurd hmem hfresh)
  · simp only
    unfold checkLiquidation
    split
    · exact ensures_pure (fun hmem => absurd hmem hfresh)
    · split
      · refine ensures_bind (P := fun q => q.1.isFlat = true ∧ q.1.balance = 0 ∧
          q.1.forfeited.toInt = p.1.state.forfeited.toInt + p.1.state.balance.toInt +
          (p.1.state.holdings.map
            (fun h => (h.unrealizedAt (p.1.state.closesAt price h)).toInt)).sum) ?_ ?_
        · exact fun hfree =>
            ⟨State.isFlat_liquidate _ _, State.ensures_liquidate _ _ hfree⟩
        · rintro ⟨t, out⟩ ⟨hflat, hzero, htotal⟩
          refine ensures_pure (fun _ => ⟨hflat, hzero, price, rfl, ?_⟩)
          rw [← hforfeited]
          exact htotal
      · exact ensures_pure (fun hmem => absurd hmem hfresh)

/-! ## Reachable accounts -/

/-- A market buy, filled at 100. -/
def longRun : List Event :=
  [.submit none 1 .buy none 50 .opening ⟨1, 1⟩, .tick none ⟨⟨2, 2⟩, 100, 101, 99, 99, 100, 10⟩]

/-- The market falls to 70. -/
def crash : Event := .tick none ⟨⟨3, 3⟩, 70, 70, 70, 69, 70, 10⟩

end Kernel
