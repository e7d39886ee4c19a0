/-
# The margin-free arm of a comparison (`oq-backtest/src/deviation.rs`)

The same strategy is run twice, once under a venue that may close the account and once under
one that may not.  The flag is read in one place, the check an event ends in, so the two arms
part where the first liquidation is: `unenforced` goes along with every event that liquidates
nothing (`Kernel.apply_unenforced`), and so with every run that liquidates nothing
(`Host.run_unenforced`).
-/
import OpenQuanter.Backtest
import OpenQuanter.ClosingPrice

open Logged

namespace State

variable (s : State)

/-! ## Booking does not read the flag -/

theorem chargeFee_withoutLiquidation (fee : Cash) :
    s.withoutLiquidation.chargeFee fee = withoutLiquidation <$> s.chargeFee fee :=
  Logged.eq_map rfl rfl

theorem openLegAt_withoutLiquidation (index : Nat) (short : Bool) (qty : QtyLots)
    (price : PriceTicks) (sign : Int64) :
    s.withoutLiquidation.openLegAt index short qty price sign =
      withoutLiquidation <$> s.openLegAt index short qty price sign :=
  Logged.eq_map rfl rfl

theorem closeLegAt_withoutLiquidation (index : Nat) (short : Bool) (qty : QtyLots)
    (price : PriceTicks) :
    s.withoutLiquidation.closeLegAt index short qty price =
      withoutLiquidation <$> s.closeLegAt index short qty price :=
  Logged.eq_map rfl rfl

theorem applyFillNet_withoutLiquidation (index : Nat) (fill : Fill) :
    s.withoutLiquidation.applyFillNet index fill =
      withoutLiquidation <$> s.applyFillNet index fill := by
  have hat : s.withoutLiquidation.holdingsAt index = s.holdingsAt index := rfl
  unfold applyFillNet
  dsimp only
  rw [hat]
  split
  · rw [closeLegAt_withoutLiquidation, map_bind, bind_map_left]
    congr 1
    funext t
    split
    · exact t.openLegAt_withoutLiquidation index false _ fill.price _
    · rfl
  · exact s.openLegAt_withoutLiquidation index false _ fill.price _

theorem applyFillHedged_withoutLiquidation (index : Nat) (fill : Fill) :
    s.withoutLiquidation.applyFillHedged index fill =
      withoutLiquidation <$> s.applyFillHedged index fill := by
  rcases fill with ⟨stamp, instrument, order, trade, side, offset, price, qty, liquidity⟩
  cases offset with
  | opening => exact Logged.eq_map rfl rfl
  | closing => exact Logged.eq_map rfl rfl

theorem applyFill_withoutLiquidation (fill : Fill) :
    s.withoutLiquidation.applyFill fill = withoutLiquidation <$> s.applyFill fill := by
  have hindex : s.withoutLiquidation.holdingIndex fill.instrument =
    s.holdingIndex fill.instrument := rfl
  unfold applyFill
  rw [hindex]
  cases s.holdingIndex fill.instrument with
  | none => exact Logged.eq_map rfl rfl
  | some index =>
    have hmode : s.withoutLiquidation.mode = s.mode := rfl
    dsimp only
    rw [hmode]
    cases s.mode with
    | hedge => exact s.applyFillHedged_withoutLiquidation index fill
    | oneWay => exact s.applyFillNet_withoutLiquidation index fill

end State

namespace Kernel

variable (k : Kernel)

/-- The same kernel with liquidation disabled. -/
def unenforced : Kernel := k.withState k.state.withoutLiquidation

theorem bookFill_unenforced (index : Nat) (fill : Fill) :
    bookFill index k.unenforced fill = unenforced <$> bookFill index k fill := by
  have hfee : k.unenforced.state.feeSchedule.charge
      (k.unenforced.state.holdingsAt index).contract fill =
    k.state.feeSchedule.charge (k.state.holdingsAt index).contract fill := rfl
  have hstate : k.unenforced.state = k.state.withoutLiquidation := rfl
  unfold bookFill
  dsimp only
  rw [hfee, hstate, State.chargeFee_withoutLiquidation, map_bind, bind_map_left]
  congr 1
  funext s
  rw [s.applyFill_withoutLiquidation fill, map_bind, bind_map_left]
  rfl

theorem bookFills_unenforced (index : Nat) (fills : List Fill) :
    k.unenforced.bookFills index fills = unenforced <$> k.bookFills index fills :=
  (Logged.foldlM_map_of (Q := fun _ => True) (fun _ _ _ => trivial)
    (fun k fill _ => k.bookFill_unenforced index fill) fills k trivial).1

/-! ## Events

What an event books is the same under both venues; the check it ends in is not, where it
liquidates. -/

/-- What an event booked, with liquidation disabled. -/
def unenforcedAt (p : Kernel × Option PriceTicks) : Kernel × Option PriceTicks :=
  (p.1.unenforced, p.2)

/-- An event that ends in no check. -/
theorem unchecked_unenforced {x y : Books Kernel} (h : y = unenforced <$> x) :
    (y >>= fun k => pure (k, none)) = unenforcedAt <$> (x >>= fun k => pure (k, none)) := by
  rw [h, map_bind, bind_map_left]
  rfl

theorem bookTick_unenforced (index : Nat) (tick : Tick) :
    k.unenforced.bookTick index tick = unenforcedAt <$> k.bookTick index tick := by
  have hmatching : (k.unenforced.observe index tick).state.matching =
    (k.observe index tick).state.matching := rfl
  unfold bookTick
  dsimp only
  rw [hmatching]
  split
  · rfl
  · set engine := ((k.observe index tick).state.holdingsAt index).engine.onTick tick
      with hengine
    have hmoved : (k.unenforced.observe index tick).withState
        ((k.unenforced.observe index tick).state.modifyAt index
          (fun h => { h with
            engine := ((k.unenforced.observe index tick).state.holdingsAt index).engine.onTick
              tick })) =
      ((k.observe index tick).withState ((k.observe index tick).state.modifyAt index
        (fun h => { h with engine := engine }))).unenforced := rfl
    have hfills : ((k.unenforced.observe index tick).state.holdingsAt index).engine.onTick tick =
      engine := rfl
    rw [hmoved, hfills, bookFills_unenforced, map_bind, bind_map_left]
    rfl

theorem bookSettlement_unenforced (instrument : Option InstrumentId) (at_ : Nanos) (rate : Ratio)
    (mark : PriceTicks) :
    k.unenforced.bookSettlement instrument at_ rate mark =
      unenforcedAt <$> k.bookSettlement instrument at_ rate mark := by
  have hroute : (k.unenforced.withState (k.unenforced.state.withNow at_)).route instrument =
    (k.withState (k.state.withNow at_)).route instrument := rfl
  unfold bookSettlement
  dsimp only
  rw [hroute]
  cases (k.withState (k.state.withNow at_)).route instrument with
  | none => rfl
  | some index =>
    have hflat : ((k.unenforced.withState (k.unenforced.state.withNow at_)).state.holdingsAt
        index) = (k.withState (k.state.withNow at_)).state.holdingsAt index := rfl
    dsimp only
    rw [hflat]
    split
    · rfl
    · exact Logged.eq_map rfl rfl

theorem bookVenueFill_unenforced (fill : Fill) (reported : Fee) :
    k.unenforced.bookVenueFill fill reported = unenforcedAt <$> k.bookVenueFill fill reported := by
  have hmatching : k.unenforced.state.matching = k.state.matching := rfl
  unfold bookVenueFill
  rw [hmatching]
  split
  · rfl
  · set priced := venueFee (withdrawFilled (k.state.withNow fill.stamp.exch) fill) fill reported
      with hpriced
    have hwithdrawn : withdrawFilled (k.unenforced.state.withNow fill.stamp.exch) fill =
        (withdrawFilled (k.state.withNow fill.stamp.exch) fill).withoutLiquidation := by
      unfold withdrawFilled
      have hindex : (k.unenforced.state.withNow fill.stamp.exch).holdingIndex fill.instrument =
        (k.state.withNow fill.stamp.exch).holdingIndex fill.instrument := rfl
      rw [hindex]
      cases (k.state.withNow fill.stamp.exch).holdingIndex fill.instrument <;> rfl
    have hpriced' :
        venueFee (withdrawFilled (k.unenforced.state.withNow fill.stamp.exch) fill) fill reported =
          (priced.1, priced.2.withoutLiquidation) := by
      rw [hwithdrawn, hpriced]
      cases reported <;> rfl
    dsimp only
    rw [hpriced', State.chargeFee_withoutLiquidation, map_bind, bind_map_left]
    congr 1
    funext s
    rw [s.applyFill_withoutLiquidation fill, map_bind, bind_map_left]
    rfl

theorem onSubmit_unenforced (instrument : Option InstrumentId) (id : OrderId) (side : Side)
    (price : Option PriceTicks) (qty : QtyLots) (offset : Offset) (stamp : Stamp) :
    k.unenforced.onSubmit instrument id side price qty offset stamp =
      (k.onSubmit instrument id side price qty offset stamp).unenforced := by
  have hroute : k.unenforced.route instrument = k.route instrument := rfl
  have hbalance : k.unenforced.state.balance = k.state.balance := rfl
  have hworking : k.unenforced.working = k.working := rfl
  unfold onSubmit
  rw [hroute, hbalance, hworking]
  by_cases hqty : 0 < qty
  · rw [dif_pos hqty, dif_pos hqty]
    by_cases hid : k.working.contains id = true
    · rw [if_pos hid, if_pos hid]
      rfl
    · rw [if_neg hid, if_neg hid]
      cases k.route instrument with
      | none => rfl
      | some index =>
        by_cases hmargin : k.state.balance ≤ 0
        · simp only [if_pos hmargin]
          rfl
        · simp only [if_neg hmargin]
          rfl
  · rw [dif_neg hqty, dif_neg hqty]
    rfl

theorem onCancel_unenforced (id : OrderId) :
    k.unenforced.onCancel id = (k.onCancel id).unenforced := by
  unfold onCancel
  dsimp only
  by_cases hfound : (cancelFirst id k.state.holdings).2 = true
  · have hfound' : (cancelFirst id k.unenforced.state.holdings).2 = true := hfound
    rw [if_pos hfound, if_pos hfound']
    rfl
  · have hfound' : ¬ (cancelFirst id k.unenforced.state.holdings).2 = true := hfound
    rw [if_neg hfound, if_neg hfound']
    rfl

theorem onFundingCharged_unenforced (instrument : Option InstrumentId) (at_ : Nanos)
    (amount : Cash) :
    k.unenforced.onFundingCharged instrument at_ amount =
      unenforced <$> k.onFundingCharged instrument at_ amount := by
  have hroute : (k.unenforced.withState (k.unenforced.state.withNow at_)).route instrument =
    (k.withState (k.state.withNow at_)).route instrument := rfl
  unfold onFundingCharged
  dsimp only
  rw [hroute]
  cases (k.withState (k.state.withNow at_)).route instrument with
  | none => rfl
  | some index => exact Logged.eq_map rfl rfl

/-- **What an event books does not depend on whether the venue may close the account.** -/
theorem booked_unenforced (event : Event) :
    k.unenforced.booked event = unenforcedAt <$> k.booked event := by
  cases event with
  | tick instrument tick =>
    have hroute : k.unenforced.cleared.route instrument = k.cleared.route instrument := rfl
    unfold booked
    dsimp only
    rw [hroute]
    cases k.cleared.route instrument with
    | none => rfl
    | some index => exact k.cleared.bookTick_unenforced index tick
  | funding instrument at_ rate mark =>
    exact k.cleared.bookSettlement_unenforced instrument at_ rate mark
  | venueFill fill reported => exact k.cleared.bookVenueFill_unenforced fill reported
  | submit instrument id side price qty offset stamp =>
    refine unchecked_unenforced (Logged.eq_map ?_ rfl)
    exact k.cleared.onSubmit_unenforced instrument id side price qty offset stamp
  | cancel id stamp =>
    refine unchecked_unenforced (Logged.eq_map ?_ rfl)
    exact k.cleared.onCancel_unenforced id
  | fundingCharged instrument at_ amount =>
    exact unchecked_unenforced (k.cleared.onFundingCharged_unenforced instrument at_ amount)
  | feeRecovered at_ amount remainingMissing =>
    exact unchecked_unenforced (Logged.eq_map rfl rfl)
  | time at_ => exact unchecked_unenforced (Logged.eq_map rfl rfl)
  | marginDeposit amount at_ => exact unchecked_unenforced (Logged.eq_map rfl rfl)
  | depth update =>
    refine unchecked_unenforced (Logged.eq_map ?_ rfl)
    show k.cleared.unenforced.onDepth update = (k.cleared.onDepth update).unenforced
    unfold onDepth
    by_cases hlone : k.cleared.state.holdings.length = 1
    · have hlone' : k.cleared.unenforced.state.holdings.length = 1 := hlone
      rw [if_pos hlone, if_pos hlone']
      rfl
    · have hlone' : ¬ k.cleared.unenforced.state.holdings.length = 1 := hlone
      rw [if_neg hlone, if_neg hlone']

/-! ## The check -/

/-- A check that closes an account which is not flat reports it. -/
theorem liquidate_ne_nil (s : State) (hopen : s.isFlat = false) (price : PriceTicks) :
    (s.liquidate price).val.2 ≠ [] := by
  have hclosed : s.closed ≠ [] := by
    unfold State.closed
    split
    · exact s.nonempty
    · intro hnil
      have hflat : s.isFlat = true := by
        refine List.all_eq_true.mpr fun h hh => ?_
        by_contra hne
        have hmem : h ∈ s.holdings.filter fun h => !h.isFlat :=
          List.mem_filter.mpr ⟨hh, by simpa using hne⟩
        rw [hnil] at hmem
        cases hmem
      rw [hflat] at hopen
      cases hopen
  intro hnil
  have hmap := (s.closing_liquidate price).1
  rw [hnil, List.map_nil] at hmap
  exact hclosed (List.map_eq_nil_iff.mp hmap.symm)

theorem checkLiquidation_unenforced (price : PriceTicks) :
    k.unenforced.checkLiquidation price = pure k.unenforced := if_pos rfl

/-- A check that reports nothing does nothing. -/
theorem checkLiquidation_quiet {price : PriceTicks}
    (hquiet : liquidations (k.checkLiquidation price).val.outputs = []) :
    k.checkLiquidation price = pure k := by
  unfold checkLiquidation at hquiet ⊢
  by_cases hskip : (!k.state.enforceLiquidation || k.state.isFlat) = true
  · rw [if_pos hskip]
  · rw [if_neg hskip] at hquiet ⊢
    by_cases hclosed : liquidatable k.state price = true
    · have hopen : k.state.isFlat = false := by
        cases hflat : k.state.isFlat
        · rfl
        · rw [hflat, Bool.or_true] at hskip
          exact absurd rfl hskip
      rw [if_pos hclosed] at hquiet
      obtain ⟨l, hl⟩ := List.exists_mem_of_ne_nil _ (liquidate_ne_nil k.state hopen price)
      have hmem : Output.liquidated l ∈
          k.outputs ++ (k.state.liquidate price).val.2.map Output.liquidated :=
        List.mem_append_right _ (List.mem_map_of_mem hl)
      have hnone := List.filterMap_eq_nil_iff.mp hquiet _ hmem
      cases hnone
    · rw [if_neg hclosed]

/-- **An event that liquidates nothing leaves the same account under both venues**, but for the
flag, and meets the same faults. -/
theorem apply_unenforced {event : Event}
    (hquiet : liquidations (k.apply event).val.outputs = []) :
    k.unenforced.apply event = unenforced <$> k.apply event := by
  rw [apply_eq, apply_eq, booked_unenforced, map_bind, bind_map_left]
  rw [apply_eq, val_bind] at hquiet
  refine Logged.ext ?_ ?_
  all_goals
    simp only [val_bind, faults_bind, val_map, faults_map, unenforcedAt, settle] at hquiet ⊢
    cases hprice : (k.booked event).val.2 with
    | none => rfl
    | some price =>
      rw [hprice] at hquiet
      dsimp only at hquiet ⊢
      rw [checkLiquidation_unenforced, checkLiquidation_quiet _ hquiet]
      rfl

/-! ## A kernel that may not liquidate -/

variable {k}

/-- Where liquidation is disabled it stays so, and nothing is liquidated. -/
theorem apply_spared (event : Event) (hk : k.unenforced = k) :
    (k.apply event).val.unenforced = (k.apply event).val ∧
      liquidations (k.apply event).val.outputs = [] := by
  have hbooked : (k.booked event).val = unenforcedAt (k.booked event).val := by
    have hmap := congrArg Logged.val (k.booked_unenforced event)
    rwa [hk, val_map] at hmap
  have hkept : (k.booked event).val.1.unenforced = (k.booked event).val.1 :=
    (congrArg Prod.fst hbooked).symm
  have hsettle : (settle (k.booked event).val).val = (k.booked event).val.1 := by
    unfold settle
    split
    · rfl
    · rw [← hkept, checkLiquidation_unenforced]
      rfl
  have happly : (k.apply event).val = (k.booked event).val.1 := by
    rw [apply_eq, val_bind, hsettle]
  rw [happly]
  refine ⟨hkept, List.filterMap_eq_nil_iff.mpr fun o ho => ?_⟩
  cases o with
  | liquidated l => exact absurd ho (k.not_liquidated_booked event l)
  | _ => rfl

theorem askMatcher_spared {α : Type} (f : Matcher → Matcher × α) (hk : k.unenforced = k) :
    (k.askMatcher f).1.unenforced = (k.askMatcher f).1 := by
  have hcomm : (k.askMatcher f).1.unenforced = (k.unenforced.askMatcher f).1 := rfl
  rw [hcomm, hk]

theorem settleUnreported_unenforced (k : Kernel) :
    k.unenforced.settleUnreported = unenforced <$> k.settleUnreported :=
  (Logged.foldlM_map_of (f := unenforced) (k := settleUnreportedAt)
    (l := settleUnreportedAt) (Q := fun _ => True) (fun _ _ _ => trivial)
    (fun k index _ => bookFills_unenforced (k.withState (k.state.modifyAt index fun h =>
      { h with engine := (k.state.holdingsAt index).engine.drainUnreported.2 })) index
      ((k.state.holdingsAt index).engine.drainUnreported.1.map L0Fill.fill))
    (List.range k.state.holdings.length) k.cleared trivial).1

end Kernel

namespace Backtest

theorem filterMap_liquidation? (outputs : List Output) :
    outputs.filterMap Output.liquidation? = liquidations outputs := by
  refine List.filterMap_congr fun o _ => ?_
  cases o <;> rfl

namespace Host

variable {σ : Type} (h : Host σ)

/-- The same run, its venue not allowed to close the account. -/
def unenforced : Host σ := { h with kernel := h.kernel.unenforced }

/-- No liquidation so far. -/
def Quiet : Prop := h.tally.liquidations = []

/-! ## A tick

A liquidation is counted and stays counted, so a step that ends quietly started quietly and
met none. -/

theorem quiet_noteLiquidations {outputs : List Output} :
    (h.noteLiquidations outputs).Quiet ↔ h.Quiet ∧ liquidations outputs = [] := by
  show h.tally.liquidations ++ outputs.filterMap Output.liquidation? = [] ↔ _
  rw [filterMap_liquidation?, List.append_eq_nil_iff]
  rfl

theorem fund_unenforced {rate : FundingRate} (hquiet : (h.fund rate).val.Quiet) :
    h.unenforced.fund rate = unenforced <$> h.fund rate := by
  have happly := h.kernel.apply_unenforced ((quiet_noteLiquidations _).mp hquiet).2
  have hkernel : h.unenforced.kernel = h.kernel.unenforced := rfl
  unfold fund
  rw [hkernel, happly, map_bind, bind_map_left]
  rfl

theorem quiet_of_fund {rate : FundingRate} (hquiet : (h.fund rate).val.Quiet) : h.Quiet :=
  ((quiet_noteLiquidations _).mp hquiet).1

theorem settleFunding_unenforced {c : RunConfig} {now : Nanos}
    (hquiet : (h.settleFunding c now).val.Quiet) :
    h.unenforced.settleFunding c now = unenforced <$> h.settleFunding c now ∧ h.Quiet := by
  unfold settleFunding at hquiet ⊢
  split at hquiet
  · rw [if_pos ‹_›, if_pos ‹_›]
    exact ⟨rfl, hquiet⟩
  · rw [if_neg ‹_›, if_neg ‹_›]
    have hlast : h.unenforced.lastFunding = h.lastFunding := rfl
    obtain ⟨hsame, hstart⟩ := Logged.foldlM_map_of (f := unenforced) (Q := Quiet)
      (fun h rate hq => h.quiet_of_fund hq) (fun h rate hq => h.fund_unenforced hq)
      (c.funding.between h.lastFunding now) h hquiet
    refine ⟨?_, hstart⟩
    rw [hlast, hsame, map_bind, bind_map_left]
    rfl

theorem applyTick_unenforced {tick : Tick} (hquiet : (h.applyTick tick).val.1.Quiet) :
    h.unenforced.applyTick tick = (fun p => (p.1.unenforced, p.2)) <$> h.applyTick tick ∧
      h.Quiet := by
  obtain ⟨hstart, hevent⟩ := (quiet_noteLiquidations _).mp hquiet
  have happly := h.kernel.apply_unenforced hevent
  have hkernel : h.unenforced.kernel = h.kernel.unenforced := rfl
  refine ⟨?_, hstart⟩
  unfold applyTick
  rw [hkernel, happly, map_bind, bind_map_left]
  rfl

theorem quiet_measured (c : RunConfig) (tick : Tick) :
    ({ h with tally := h.tally.measure c h.kernel tick } : Host σ).Quiet ↔ h.Quiet := by
  have hkept : (h.tally.measure c h.kernel tick).liquidations = h.tally.liquidations := by
    unfold Tally.measure Tally.measureMargin
    dsimp only
    split <;> split <;> rfl
  show (h.tally.measure c h.kernel tick).liquidations = [] ↔ h.tally.liquidations = []
  rw [hkept]

/-- What `deliver` does once the tick is taken. -/
def calledBack (c : RunConfig) (S : Strategy σ) (tick : Tick) (taken : Host σ × List Fill) :
    Host σ × List Intent :=
  let h := { taken.1 with tally := taken.1.tally.measure c taken.1.kernel tick }
  h.callBack S (context c h.kernel tick) taken.2

theorem deliver_eq (c : RunConfig) (S : Strategy σ) (tick : Tick) :
    h.deliver c S tick = h.settleFunding c tick.stamp.exch >>= fun h =>
      calledBack c S tick <$> h.applyTick tick := rfl

theorem calledBack_unenforced (c : RunConfig) (S : Strategy σ) (tick : Tick) (fills : List Fill) :
    calledBack c S tick (h.unenforced, fills) =
      ((calledBack c S tick (h, fills)).1.unenforced, (calledBack c S tick (h, fills)).2) := rfl

theorem deliver_unenforced {c : RunConfig} {S : Strategy σ} {tick : Tick}
    (hquiet : (h.deliver c S tick).val.1.Quiet) :
    h.unenforced.deliver c S tick = (fun p => (p.1.unenforced, p.2)) <$> h.deliver c S tick ∧
      h.Quiet := by
  rw [deliver_eq] at hquiet
  have htick : ((h.settleFunding c tick.stamp.exch).val.applyTick tick).val.1.Quiet :=
    (quiet_measured _ c tick).mp hquiet
  obtain ⟨happly, hmid⟩ := applyTick_unenforced _ htick
  obtain ⟨hsettle, hstart⟩ := h.settleFunding_unenforced hmid
  refine ⟨?_, hstart⟩
  rw [deliver_eq, deliver_eq]
  refine Logged.bind_eq_map hsettle ?_
  rw [happly]
  refine Logged.eq_map ?_ ?_
  · rw [val_map, val_map, val_map, calledBack_unenforced]
  · rw [faults_map, faults_map, faults_map]

/-! ## What the strategy asks for -/

theorem record_unenforced {event : Event}
    (happly : h.kernel.unenforced.apply event = Kernel.unenforced <$> h.kernel.apply event) :
    h.unenforced.record event = unenforced <$> h.record event := by
  have hkernel : h.unenforced.kernel = h.kernel.unenforced := rfl
  unfold record
  rw [hkernel, happly, map_bind, bind_map_left]
  rfl

theorem place_unenforced {S : Strategy σ} {id : OrderId} {event : Event}
    (happly : h.kernel.unenforced.apply event = Kernel.unenforced <$> h.kernel.apply event) :
    h.unenforced.place S id event = unenforced <$> h.place S id event := by
  unfold place
  rw [h.record_unenforced happly, map_bind, bind_map_left]
  rfl

theorem apply_cancel_unenforced (k : Kernel) (id : OrderId) (stamp : Stamp) :
    k.unenforced.apply (.cancel id stamp) = Kernel.unenforced <$> k.apply (.cancel id stamp) :=
  Logged.eq_map (k.cleared.onCancel_unenforced id) rfl

theorem apply_submit_unenforced (k : Kernel) (instrument : Option InstrumentId) (id : OrderId)
    (side : Side) (price : Option PriceTicks) (qty : QtyLots) (offset : Offset) (stamp : Stamp) :
    k.unenforced.apply (.submit instrument id side price qty offset stamp) =
      Kernel.unenforced <$> k.apply (.submit instrument id side price qty offset stamp) :=
  Logged.eq_map (k.cleared.onSubmit_unenforced instrument id side price qty offset stamp) rfl

theorem act_unenforced (c : RunConfig) (S : Strategy σ) (stamp : Stamp) (intent : Intent) :
    act c S stamp h.unenforced intent = unenforced <$> act c S stamp h intent := by
  unfold act
  split
  · rfl
  · cases intent with
    | limit instrument id side price qty offset =>
      exact h.place_unenforced (apply_submit_unenforced _ _ _ _ _ _ _ _)
    | market instrument id side qty offset =>
      exact h.place_unenforced (apply_submit_unenforced _ _ _ _ _ _ _ _)
    | cancel id => exact h.record_unenforced (apply_cancel_unenforced _ _ _)
    | cancelAll =>
      exact (Logged.foldlM_map_of (k := fun h id => record h (.cancel id stamp))
        (Q := fun _ => True) (fun _ _ _ => trivial)
        (fun h id _ => h.record_unenforced (apply_cancel_unenforced _ id stamp))
        h.kernel.working h trivial).1

theorem quiet_act (c : RunConfig) (S : Strategy σ) (stamp : Stamp) (intent : Intent) :
    (act c S stamp h intent).val.Quiet ↔ h.Quiet := by
  unfold act
  split
  · exact Iff.rfl
  · cases intent with
    | cancelAll =>
      dsimp only
      generalize h.kernel.working = ids
      induction ids generalizing h with
      | nil => exact Iff.rfl
      | cons id rest ih =>
        rw [List.foldlM_cons, val_bind]
        exact (ih _).trans Iff.rfl
    | _ => exact Iff.rfl

theorem onTick_unenforced {c : RunConfig} {S : Strategy σ} {tick : Tick}
    (hquiet : (h.onTick c S tick).val.Quiet) :
    h.unenforced.onTick c S tick = unenforced <$> h.onTick c S tick ∧ h.Quiet := by
  set delivered := (h.deliver c S tick).val with hdelivered
  have hacted : (delivered.2.foldlM (act c S tick.stamp) delivered.1).val.Quiet := hquiet
  obtain ⟨hact, hmid⟩ := Logged.foldlM_map_of (f := unenforced) (Q := Quiet)
    (fun h intent hq => (h.quiet_act c S tick.stamp intent).mp hq)
    (fun h intent _ => h.act_unenforced c S tick.stamp intent) delivered.2 delivered.1 hacted
  obtain ⟨hdeliver, hstart⟩ := h.deliver_unenforced hmid
  exact ⟨Logged.bind_eq_map hdeliver hact, hstart⟩

/-! ## A run -/

theorem quiet_countDepth (k : Kernel) (outcome : DepthOutcome) :
    ({ h with kernel := k, tally := h.tally.countDepth outcome } : Host σ).Quiet ↔ h.Quiet := by
  cases outcome <;> exact Iff.rfl

theorem quiet_countSnapshot (k : Kernel) (kept : Bool) :
    ({ h with kernel := k, tally := h.tally.countSnapshot kept } : Host σ).Quiet ↔ h.Quiet := by
  cases kept <;> exact Iff.rfl

theorem quiet_countGap (k : Kernel) (taken : Bool) :
    ({ h with kernel := k, tally := h.tally.countGap taken } : Host σ).Quiet ↔ h.Quiet := by
  cases taken <;> exact Iff.rfl

theorem observe_unenforced {c : RunConfig} {S : Strategy σ} {o : Observation}
    (hquiet : (observe c S h o).val.Quiet) :
    observe c S h.unenforced o = unenforced <$> observe c S h o ∧ h.Quiet := by
  cases o with
  | tick tick => exact h.onTick_unenforced hquiet
  | depth update => exact ⟨Logged.eq_map rfl rfl, (h.quiet_countDepth _ _).mp hquiet⟩
  | snapshot updateId bids asks =>
    exact ⟨Logged.eq_map rfl rfl, (h.quiet_countSnapshot _ _).mp hquiet⟩
  | snapshotAt at_ updateId bids asks =>
    exact ⟨Logged.eq_map rfl rfl, (h.quiet_countSnapshot _ _).mp hquiet⟩
  | gap at_ => exact ⟨Logged.eq_map rfl rfl, (h.quiet_countGap _ _).mp hquiet⟩

/-- **Two runs that differ in the venue's right to close the account** go the same way as long as
the right is not used. -/
theorem run_unenforced {c : RunConfig} {S : Strategy σ} {s : σ} {stream : List Observation}
    (hquiet : (run { c with margin := .enforced } S s stream).val.Quiet) :
    run { c with margin := .ignored } S s stream =
      unenforced <$> run { c with margin := .enforced } S s stream :=
  (Logged.foldlM_map_of (f := unenforced) (Q := Quiet)
    (k := observe { c with margin := .enforced } S)
    (l := observe { c with margin := .ignored } S)
    (fun h _ hq => (h.observe_unenforced hq).2) (fun h _ hq => (h.observe_unenforced hq).1)
    stream (start { c with margin := .enforced } s) hquiet).1

/-! ## A venue that may not -/

/-- Liquidation is disabled and none was met. -/
def Spared (h : Host σ) : Prop := h.kernel.unenforced = h.kernel ∧ h.Quiet

theorem spared_fund (rate : FundingRate) (hspared : h.Spared) : (h.fund rate).val.Spared := by
  obtain ⟨hkept, hnone⟩ := Kernel.apply_spared (fundingEvent rate) hspared.1
  exact ⟨hkept, (quiet_noteLiquidations _).mpr ⟨hspared.2, hnone⟩⟩

theorem spared_applyTick (tick : Tick) (hspared : h.Spared) :
    (h.applyTick tick).val.1.Spared := by
  obtain ⟨hkept, hnone⟩ := Kernel.apply_spared (.tick none tick) hspared.1
  exact ⟨hkept, (quiet_noteLiquidations _).mpr ⟨hspared.2, hnone⟩⟩

theorem spared_settleFunding (c : RunConfig) (now : Nanos) (hspared : h.Spared) :
    (h.settleFunding c now).val.Spared := by
  unfold settleFunding
  split
  · exact hspared
  · have hfold : Ensures ∅ ((c.funding.between h.lastFunding now).foldlM fund h) Spared :=
      Logged.ensures_foldlM
        (fun h rate hh => Logged.ensures_of_val (h.spared_fund rate hh)) hspared _
    have hsettled := Logged.ensures_empty hfold
    exact hsettled

theorem spared_deliver (c : RunConfig) (S : Strategy σ) (tick : Tick) (hspared : h.Spared) :
    (h.deliver c S tick).val.1.Spared := by
  have htaken := spared_applyTick _ tick (h.spared_settleFunding c tick.stamp.exch hspared)
  exact ⟨htaken.1, (quiet_measured _ c tick).mpr htaken.2⟩

theorem spared_record (event : Event) (hspared : h.Spared) : (h.record event).val.Spared :=
  ⟨(Kernel.apply_spared event hspared.1).1, hspared.2⟩

theorem spared_act (c : RunConfig) (S : Strategy σ) (stamp : Stamp) (intent : Intent)
    (hspared : h.Spared) : (act c S stamp h intent).val.Spared := by
  unfold act
  split
  · exact hspared
  · cases intent with
    | limit instrument id side price qty offset => exact h.spared_record _ hspared
    | market instrument id side qty offset => exact h.spared_record _ hspared
    | cancel id => exact h.spared_record _ hspared
    | cancelAll =>
      have hfold : Ensures ∅ (h.kernel.working.foldlM (fun h id => h.record (.cancel id stamp)) h)
          Spared :=
        Logged.ensures_foldlM
          (fun h id hh => Logged.ensures_of_val (h.spared_record _ hh)) hspared _
      exact Logged.ensures_empty hfold

theorem spared_observe (c : RunConfig) (S : Strategy σ) (o : Observation) (hspared : h.Spared) :
    (observe c S h o).val.Spared := by
  cases o with
  | tick tick =>
    have hdelivered := h.spared_deliver c S tick hspared
    have hfold : Ensures ∅ ((h.deliver c S tick).val.2.foldlM (act c S tick.stamp)
        (h.deliver c S tick).val.1) Spared :=
      Logged.ensures_foldlM
        (fun h intent hh => Logged.ensures_of_val (h.spared_act c S tick.stamp intent hh))
        hdelivered _
    have hacted := Logged.ensures_empty hfold
    exact hacted
  | depth update =>
    exact ⟨Kernel.askMatcher_spared _ hspared.1, (h.quiet_countDepth _ _).mpr hspared.2⟩
  | snapshot updateId bids asks =>
    exact ⟨Kernel.askMatcher_spared _ hspared.1, (h.quiet_countSnapshot _ _).mpr hspared.2⟩
  | snapshotAt at_ updateId bids asks =>
    exact ⟨Kernel.askMatcher_spared _ hspared.1, (h.quiet_countSnapshot _ _).mpr hspared.2⟩
  | gap at_ => exact ⟨Kernel.askMatcher_spared _ hspared.1, (h.quiet_countGap _ _).mpr hspared.2⟩

/-- A margin-free run liquidates nothing. -/
theorem quiet_run_ignored (c : RunConfig) (S : Strategy σ) (s : σ) (stream : List Observation) :
    (run { c with margin := .ignored } S s stream).val.Quiet := by
  have hfold : Ensures ∅ (run { c with margin := .ignored } S s stream) Spared :=
    Logged.ensures_foldlM
      (fun h o hh => Logged.ensures_of_val (h.spared_observe _ S o hh)) ⟨rfl, rfl⟩ _
  exact (Logged.ensures_empty hfold).2

end Host

/-! ## The comparison -/

/-- What a run's result is made of its last host. -/
def finish {σ : Type} (c : RunConfig) (S : Strategy σ) (h : Host σ) : Books RunResult := do
  let kernel ← h.kernel.settleUnreported
  pure
    { strategy := S.name
      tally :=
        { h.tally with fills := h.tally.fills ++ kernel.outputs.filterMap Output.fill? }
      finalEquity := kernel.summary.equity
      realized := kernel.summary.realized
      fundingPaid := kernel.summary.funding
      feesPaid := kernel.summary.fees
      marginUsage :=
        if !c.trackMargin then .notTracked
        else
          match h.tally.minHeadroom with
          | some minHeadroom => .tracked h.tally.peakMaintenance minHeadroom
          | none => .noPosition
      tier := kernel.state.holding.engine.tier
      depthInvalidTicks := kernel.state.holding.engine.invalidDepthTicks }

variable {σ : Type} {c : RunConfig} {S : Strategy σ} {s : σ} {stream : List Observation}

theorem runObservations_eq (c : RunConfig) (S : Strategy σ) (s : σ) (stream : List Observation) :
    runObservations c S s stream = Host.run c S s stream >>= finish c S := rfl

theorem finish_unenforced (h : Host σ) :
    finish { c with margin := .ignored } S h.unenforced =
      finish { c with margin := .enforced } S h := by
  have hkernel : h.unenforced.kernel = h.kernel.unenforced := rfl
  unfold finish
  rw [hkernel, Kernel.settleUnreported_unenforced, bind_map_left]
  rfl

/-- A run that ends without a liquidation has the result of the margin-free run, faults
included. -/
theorem runObservations_ignored
    (hquiet : (runObservations { c with margin := .enforced } S s stream).val.tally.liquidations =
      []) :
    runObservations { c with margin := .ignored } S s stream =
      runObservations { c with margin := .enforced } S s stream := by
  have hrun := Host.run_unenforced hquiet
  rw [runObservations_eq, runObservations_eq, hrun, bind_map_left]
  exact congrArg _ (funext fun h => finish_unenforced h)

/-- What separates the two arms of a comparison. -/
inductive Verdict where
  | noDifference
  | liquidated (count : Nat) (firstAt : Nanos) (overstatedBy : Cash)
  deriving DecidableEq, Repr

/-- The two arms: the run a real account would have had, and the one a margin-free backtest
reports. -/
structure DeviationReport where
  strategy : String
  ticks : Nat
  enforced : RunResult
  ignored : RunResult

namespace DeviationReport

/-- Run both arms.  The strategy starts each of them anew. -/
def compare (c : RunConfig) (S : Strategy σ) (fresh : σ) (ticks : List Tick) :
    Books DeviationReport := do
  let enforced ←
    runObservations { c with margin := .enforced } S fresh (ticks.map Observation.tick)
  let ignored ←
    runObservations { c with margin := .ignored } S fresh (ticks.map Observation.tick)
  pure { strategy := enforced.strategy, ticks := ticks.length, enforced := enforced,
         ignored := ignored }

def verdict (r : DeviationReport) : Verdict :=
  match r.enforced.tally.liquidations.head? with
  | none => .noDifference
  | some first =>
    .liquidated r.enforced.tally.liquidations.length first.at_
      (Cash.sub r.ignored.finalEquity r.enforced.finalEquity)

/-- Whether the margin-free result can be reported as it is. -/
def marginFreeResultIsHonest (r : DeviationReport) : Bool := r.verdict == .noDifference

/-- Fills the margin-free arm recorded after the account was already closed. -/
def fillsAfterFirstLiquidation (r : DeviationReport) : Nat :=
  match r.enforced.tally.liquidations.head? with
  | none => 0
  | some first => (r.ignored.tally.fills.filter (first.at_ < ·.stamp.exch)).length

theorem honest_iff_quiet (r : DeviationReport) :
    r.marginFreeResultIsHonest = true ↔ r.enforced.tally.liquidations = [] := by
  unfold marginFreeResultIsHonest verdict
  cases r.enforced.tally.liquidations with
  | nil => simp
  | cons first rest => simp

end DeviationReport

end Backtest
