/-
# Kernels that differ in the stamps of their orders

Two accounts of one holding are twins when they agree in everything but the stamps their
resting orders were placed with.  Booking never looks at the matcher (`State.recast`) and the
matcher never reads the stamps (`Matcher.unplaced`), so every event of a single-instrument
run keeps twins, and what a host reads of them is the same.
-/
import OpenQuanter.Backtest
import OpenQuanter.Unplaced
import OpenQuanter.VenueMatching

open Logged

namespace Kernel

/-- `k'` is `k` but for the stamps of the orders its matcher holds. -/
structure Twin (x : InstrumentId) (k k' : Kernel) : Prop where
  working : k'.working = k.working
  outputs : k'.outputs = k.outputs
  states : ∃ (h : Holding) (m' : Matcher), k.state.holdings = [h] ∧ h.instrument = x ∧
    m'.unplaced = h.engine.unplaced ∧
    k'.state = k.state.recast m' h.mark k.state.now k.state.matching

variable {x : InstrumentId} {k k' : Kernel}

/-- An account is recast to itself by its own matcher. -/
theorem recast_self {s : State} {h : Holding} (hs : s.holdings = [h]) :
    s.recast h.engine h.mark s.now s.matching = s := by
  ext1
  case holdings =>
    show s.holdings.map _ = s.holdings
    rw [hs]
    rfl
  all_goals rfl

theorem Twin.refl {h : Holding} (hk : k.state.holdings = [h]) (hx : h.instrument = x) :
    Twin x k k :=
  ⟨rfl, rfl, h, h.engine, hk, hx, rfl, (recast_self hk).symm⟩

theorem Twin.cleared (ht : Twin x k k') : Twin x k.cleared k'.cleared :=
  ⟨ht.working, rfl, ht.states⟩

theorem Twin.emit (ht : Twin x k k') (o : Output) : Twin x (k.emit o) (k'.emit o) :=
  ⟨ht.working, congrArg (· ++ [o]) ht.outputs, ht.states⟩

/-- **What a host reads of twins is the same.** -/
theorem Twin.summary (ht : Twin x k k') : k'.summary = k.summary := by
  obtain ⟨h, m', hk, -, -, hstate⟩ := ht.states
  obtain ⟨⟨holdings, nonempty, mode, balances, settlement, realized, funding, fees, feeSchedule,
    feesCovered, feesMissing, now, enforceLiquidation, matching, forfeited⟩, outputs, working⟩ := k
  simp only at hk
  subst hk
  unfold Kernel.summary
  rw [hstate]
  rfl

/-- Both events of a tick reach the one holding. -/
theorem Twin.route (ht : Twin x k k') :
    k.route none = some 0 ∧ k.route (some x) = some 0 ∧ k'.route none = some 0 ∧
      k'.route (some x) = some 0 := by
  obtain ⟨h, m', hk, hx, -, hstate⟩ := ht.states
  have hindex : k.state.holdingIndex x = some 0 := by
    unfold State.holdingIndex
    rw [hk]
    simp [hx]
  have hlength : k.state.holdings.length = 1 := by rw [hk]; rfl
  have hindex' : k'.state.holdingIndex x = some 0 := by
    rw [hstate, State.holdingIndex_recast, hindex]
  have hlength' : k'.state.holdings.length = 1 := by
    rw [hstate]
    simpa [State.recast] using hlength
  exact ⟨if_pos hlength, hindex, if_pos hlength', hindex'⟩

/-- A change of the account that leaves the holding alone and commutes with recasting. -/
theorem Twin.withState (ht : Twin x k k') {f : State → State}
    (hholdings : (f k.state).holdings = k.state.holdings)
    (hf : ∀ h m', k.state.holdings = [h] →
      f (k.state.recast m' h.mark k.state.now k.state.matching) =
        (f k.state).recast m' h.mark (f k.state).now (f k.state).matching) :
    Twin x (k.withState (f k.state)) (k'.withState (f k'.state)) := by
  obtain ⟨h, m', hk, hx, hm, hstate⟩ := ht.states
  refine ⟨ht.working, ht.outputs, h, m', hholdings.trans hk, hx, hm, ?_⟩
  show f k'.state = _
  rw [hstate, hf h m' hk]
  rfl

/-- A call of the matcher that does not read the stamps. -/
theorem Twin.withMatcher (ht : Twin x k k') {f g : Matcher → Matcher}
    (hf : ∀ (h : Holding) (m' : Matcher), k.state.holdings = [h] →
      m'.unplaced = h.engine.unplaced → (g m').unplaced = (f h.engine).unplaced) :
    Twin x (k.withState (k.state.modifyAt 0 (fun h => { h with engine := f h.engine })))
      (k'.withState (k'.state.modifyAt 0 (fun h => { h with engine := g h.engine }))) := by
  obtain ⟨h, m', hk, hx, hm, hstate⟩ := ht.states
  refine ⟨ht.working, ht.outputs, { h with engine := f h.engine }, g m', ?_, hx, hf _ _ hk hm, ?_⟩
  · show k.state.holdings.modify 0 _ = _
    rw [hk]
    rfl
  · show k'.state.modifyAt 0 _ = _
    rw [hstate]
    ext1
    case holdings =>
      show (k.state.holdings.map _).modify 0 _ = (k.state.holdings.modify 0 _).map _
      rw [hk]
      rfl
    all_goals rfl

/-! ## Fills and the check -/

/-- Booking a fill keeps twins. -/
theorem Twin.bookFill (ht : Twin x k k') (fill : Fill) :
    Twin x (Kernel.bookFill 0 k fill).val (Kernel.bookFill 0 k' fill).val := by
  obtain ⟨h, m', hk, hx, hm, hstate⟩ := ht.states
  have hfee : (k'.state.holdingsAt 0).contract = (k.state.holdingsAt 0).contract := by
    rw [hstate, State.holdingsAt_recast]
    rfl
  have hschedule : k'.state.feeSchedule = k.state.feeSchedule := by
    rw [hstate]
    rfl
  set fee := k.state.feeSchedule.charge (k.state.holdingsAt 0).contract fill with hfeeDef
  have hbook : (Kernel.bookFill 0 k fill).val.state =
      ((k.state.chargeFee fee).val.applyFill fill).val := rfl
  have hbook' : (Kernel.bookFill 0 k' fill).val.state =
      ((k'.state.chargeFee fee).val.applyFill fill).val := by
    show ((k'.state.chargeFee (k'.state.feeSchedule.charge _ fill)).val.applyFill fill).val = _
    rw [hfee, hschedule]
  have hkept := (k.state.kept_chargeFee fee).trans ((k.state.chargeFee fee).val.kept_applyFill fill)
  have hrests := hkept.rests
  rw [hk] at hrests
  obtain ⟨h₁, hlist, hrest⟩ : ∃ h₁, ((k.state.chargeFee fee).val.applyFill fill).val.holdings =
    [h₁] ∧
      h₁.rest = h.rest := by
    rcases hlist : ((k.state.chargeFee fee).val.applyFill fill).val.holdings with _ | ⟨h₁, rest⟩
    · rw [hlist] at hrests
      cases hrests
    · rw [hlist, List.map_cons, List.map_singleton, List.cons.injEq, List.map_eq_nil_iff] at hrests
      exact ⟨h₁, by rw [hrests.2], hrests.1⟩
  obtain ⟨hinstrument, -, -, hengine, hmark⟩ : h₁.instrument = h.instrument ∧
      h₁.contract = h.contract ∧ h₁.table = h.table ∧ h₁.engine = h.engine ∧ h₁.mark = h.mark := by
    simpa [Holding.rest] using hrest
  refine ⟨?_, ?_, h₁, m', ?_, hinstrument.trans hx, ?_, ?_⟩
  · show k'.working.filter _ = k.working.filter _
    rw [ht.working]
  · show k'.outputs ++ _ = k.outputs ++ _
    rw [ht.outputs]
  · rw [hbook, hlist]
  · rw [hengine, hm]
  · rw [hbook', hbook, hkept.now, hkept.matching, hmark, hstate, State.chargeFee_recast,
      State.applyFill_recast]

theorem Twin.bookFills (ht : Twin x k k') (fills : List Fill) :
    Twin x (k.bookFills 0 fills).val (k'.bookFills 0 fills).val := by
  induction fills generalizing k k' with
  | nil => exact ht
  | cons fill rest ih =>
    unfold Kernel.bookFills at ih ⊢
    rw [List.foldlM_cons, List.foldlM_cons, val_bind, val_bind]
    exact ih (ht.bookFill fill)

theorem closedOut_recast {s : State} {h : Holding} (hs : s.holdings = [h]) (m' : Matcher)
    (p : PriceTicks) (t : Nanos) (w : Matching) :
    (s.recast m' p t w).modifyAt 0 Holding.closedOut =
      (s.modifyAt 0 Holding.closedOut).recast m'.cancelAll.1 p t w := by
  ext1
  case holdings =>
    show (s.holdings.map _).modify 0 _ = (s.holdings.modify 0 _).map _
    rw [hs]
    rfl
  all_goals rfl

/-- What a liquidation does once the positions are closed. -/
def forfeit (closed : State × List Liquidation) : State × List Liquidation :=
  let s := (closed.1.credit (Cash.neg closed.1.balance)).val
  ({ s with forfeited := Cash.add s.forfeited closed.1.balance },
    State.settleOutputs s.balance closed.1.balance closed.2)

theorem liquidate_eq (s : State) (price : PriceTicks) :
    (s.liquidate price).val = forfeit (s.closeAll price).val := rfl

theorem forfeit_recast (s : State) (l : List Liquidation) (m' : Matcher) (p : PriceTicks)
    (t : Nanos) (w : Matching) :
    forfeit (s.recast m' p t w, l) = ((forfeit (s, l)).1.recast m' p t w, (forfeit (s, l)).2) := rfl

theorem forfeit_frame (closed : State × List Liquidation) :
    (forfeit closed).1.holdings = closed.1.holdings ∧ (forfeit closed).1.now = closed.1.now ∧
      (forfeit closed).1.matching = closed.1.matching := ⟨rfl, rfl, rfl⟩

theorem realize_recast (s : State) (pnl : Cash) (m' : Matcher) (p : PriceTicks) (t : Nanos)
    (w : Matching) :
    ((s.recast m' p t w).realize pnl).val = (s.realize pnl).val.recast m' p t w := rfl

/-- What closing one holding reports of the account it leaves. -/
def closing (s : State) (h : Holding) (price : PriceTicks) : Liquidation where
  at_ := s.now
  price := price
  qty := h.qty + h.shortQty
  equity := s.balance
  forfeited := 0
  instrument := h.instrument
  long := h.qty
  short := h.shortQty

theorem liquidateHolding_eq (s : State) (price : PriceTicks) :
    (s.liquidateHolding 0 price).val =
      ((s.realize ((s.holdingsAt 0).unrealizedAt price)).val.modifyAt 0 Holding.closedOut,
        closing (s.realize ((s.holdingsAt 0).unrealizedAt price)).val (s.holdingsAt 0) price) := rfl

theorem liquidateHolding_recast {s : State} {h : Holding} (hs : s.holdings = [h]) (m' : Matcher)
    (price : PriceTicks) :
    ((s.recast m' h.mark s.now s.matching).liquidateHolding 0 price).val =
      ((s.liquidateHolding 0 price).val.1.recast m'.cancelAll.1 h.mark s.now s.matching,
        (s.liquidateHolding 0 price).val.2) := by
  have hat : (s.recast m' h.mark s.now s.matching).holdingsAt 0 =
      (s.holdingsAt 0).recast m' h.mark := State.holdingsAt_recast _ _ _ _ _ _
  have hpnl : ((s.holdingsAt 0).recast m' h.mark).unrealizedAt price =
      (s.holdingsAt 0).unrealizedAt price := rfl
  rw [liquidateHolding_eq, liquidateHolding_eq, hat, hpnl, realize_recast]
  generalize hrealized : (s.realize ((s.holdingsAt 0).unrealizedAt price)).val = t
  have ht : t.holdings = [h] := by rw [← hrealized]; exact hs
  have hnow : t.now = s.now := by rw [← hrealized]; rfl
  rw [closedOut_recast ht]
  unfold closing
  rw [hnow]
  rfl

/-- Liquidating an account of one holding commutes with recasting it. -/
theorem liquidate_recast {s : State} {h : Holding} (hs : s.holdings = [h]) (m' : Matcher)
    (price : PriceTicks) :
    (s.liquidate price).val.1.holdings = [h.closedOut] ∧
      (s.liquidate price).val.1.now = s.now ∧ (s.liquidate price).val.1.matching = s.matching ∧
      ((s.recast m' h.mark s.now s.matching).liquidate price).val =
        ((s.liquidate price).val.1.recast m'.cancelAll.1 h.mark s.now s.matching,
          (s.liquidate price).val.2) := by
  have hone : s.holdings.length = 1 := by rw [hs]; rfl
  have hone' : (s.recast m' h.mark s.now s.matching).holdings.length = 1 := by
    simpa [State.recast] using hone
  have hclose : ∀ t : State, t.holdings.length = 1 → (t.closeAll price).val =
      ((t.liquidateHolding 0 price).val.1, [(t.liquidateHolding 0 price).val.2]) := by
    intro t ht
    unfold State.closeAll
    rw [if_pos ht]
    rfl
  have hheld : (s.liquidateHolding 0 price).val.1.holdings = [h.closedOut] := by
    show s.holdings.modify 0 _ = _
    rw [hs]
    rfl
  have hsame : (s.liquidateHolding 0 price).val.1.now = s.now ∧
      (s.liquidateHolding 0 price).val.1.matching = s.matching := ⟨rfl, rfl⟩
  rw [liquidate_eq, liquidate_eq, hclose s hone, hclose _ hone', liquidateHolding_recast hs]
  generalize (s.liquidateHolding 0 price).val = r at hheld hsame
  obtain ⟨closed, l⟩ := r
  obtain ⟨hholdings, hnow, hmatching⟩ := forfeit_frame (closed, [l])
  exact ⟨hholdings.trans hheld, hnow.trans hsame.1, hmatching.trans hsame.2,
    forfeit_recast closed [l] _ _ _ _⟩

/-- The liquidation test does not look at the matcher. -/
theorem liquidatable_recast {s : State} {h : Holding} (hs : s.holdings = [h]) (m' : Matcher)
    (mark : PriceTicks) :
    (s.recast m' h.mark s.now s.matching).isFlat = s.isFlat ∧
      liquidatable (s.recast m' h.mark s.now s.matching) mark = liquidatable s mark := by
  have hmaps : (s.recast m' h.mark s.now s.matching).holdings = [h.recast m' h.mark] := by
    show s.holdings.map _ = _
    rw [hs]
    rfl
  have hequity : (s.recast m' h.mark s.now s.matching).equity = s.equity := by
    unfold State.equity State.unrealized
    rw [hmaps, hs]
    rfl
  have hmaintenance : (s.recast m' h.mark s.now s.matching).maintenance = s.maintenance := by
    unfold State.maintenance
    rw [hmaps, hs]
    rfl
  have hholding : (s.recast m' h.mark s.now s.matching).holding = s.holding.recast m' h.mark := by
    unfold State.holding
    simp only [hmaps, hs, List.head_cons]
  have hposition : (s.recast m' h.mark s.now s.matching).position = s.position := by
    unfold State.position
    rw [hholding]
    rfl
  have hlength : (s.recast m' h.mark s.now s.matching).holdings.length = s.holdings.length := by
    rw [hmaps, hs]
    rfl
  constructor
  · unfold State.isFlat
    rw [hmaps, hs]
    rfl
  · unfold liquidatable
    rw [hequity, hmaintenance, hposition, hlength, hholding]
    rfl

theorem checkLiquidation_val (k : Kernel) (mark : PriceTicks) :
    (k.checkLiquidation mark).val =
      if !k.state.enforceLiquidation || k.state.isFlat then k
      else if liquidatable k.state mark then
        ⟨(k.state.liquidate mark).val.1,
          k.outputs ++ (k.state.liquidate mark).val.2.map Output.liquidated, []⟩
      else k := by
  unfold Kernel.checkLiquidation
  split
  · rfl
  · split
    · rw [val_bind]
      generalize (k.state.liquidate mark).val = r
      rfl
    · rfl

/-- Twins are liquidated together. -/
theorem Twin.checkLiquidation (ht : Twin x k k') (mark : PriceTicks) :
    Twin x (k.checkLiquidation mark).val (k'.checkLiquidation mark).val := by
  obtain ⟨h, m', hk, hx, hm, hstate⟩ := ht.states
  have henforced : k'.state.enforceLiquidation = k.state.enforceLiquidation := by
    rw [hstate]
    rfl
  obtain ⟨hflat, hliquidatable⟩ := liquidatable_recast hk m' mark
  rw [← hstate] at hflat hliquidatable
  obtain ⟨hholdings, hnow, hmatching, hrecast⟩ := liquidate_recast hk m' mark
  rw [← hstate] at hrecast
  rw [checkLiquidation_val, checkLiquidation_val, henforced, hflat, hliquidatable, hrecast]
  generalize (k.state.liquidate mark).val = r at hholdings hnow hmatching
  split
  · exact ht
  · split
    · refine ⟨rfl, congrArg (· ++ _) ht.outputs, h.closedOut, m'.cancelAll.1, hholdings, hx, ?_, ?_⟩
      · show m'.cancelAll.1.unplaced = h.engine.cancelAll.1.unplaced
        rw [← Matcher.cancelAll_unplaced, ← Matcher.cancelAll_unplaced, hm]
      · show r.1.recast m'.cancelAll.1 h.mark k.state.now k.state.matching =
          r.1.recast m'.cancelAll.1 h.mark r.1.now r.1.matching
        rw [hnow, hmatching]
    · exact ht

/-! ## Events -/

theorem Twin.observe (ht : Twin x k k') (tick : Tick) :
    Twin x (k.observe 0 tick) (k'.observe 0 tick) := by
  obtain ⟨h, m', hk, hx, hm, hstate⟩ := ht.states
  refine ⟨ht.working, ht.outputs, { h with mark := tick.last }, m', ?_, hx, hm, ?_⟩
  · show k.state.holdings.modify 0 _ = _
    rw [hk]
    rfl
  · show (k'.state.withNow tick.stamp.exch).modifyAt 0 _ = _
    rw [hstate]
    ext1
    case holdings =>
      show (k.state.holdings.map _).modify 0 _ = (k.state.holdings.modify 0 _).map _
      rw [hk]
      rfl
    all_goals rfl

/-- The matchers of twins make the same fills of a tick. -/
theorem Twin.engines (ht : Twin x k k') (tick : Tick) :
    ((k'.state.holdingsAt 0).engine.onTick tick).unplaced =
        ((k.state.holdingsAt 0).engine.onTick tick).unplaced ∧
      ((k'.state.holdingsAt 0).engine.onTick tick).fills =
        ((k.state.holdingsAt 0).engine.onTick tick).fills := by
  obtain ⟨h, m', hk, hx, hm, hstate⟩ := ht.states
  have hat : (k.state.holdingsAt 0).engine = h.engine := by
    unfold State.holdingsAt
    rw [hk]
    rfl
  have hat' : (k'.state.holdingsAt 0).engine = m' := by
    rw [hstate, State.holdingsAt_recast]
    rfl
  have hunplaced : (m'.onTick tick).unplaced = (h.engine.onTick tick).unplaced := by
    rw [← Matcher.onTick_unplaced, ← Matcher.onTick_unplaced, hm]
  rw [hat, hat']
  refine ⟨hunplaced, ?_⟩
  rw [← Matcher.fills_unplaced, hunplaced, Matcher.fills_unplaced]

theorem Twin.matching (ht : Twin x k k') : k'.state.matching = k.state.matching := by
  obtain ⟨h, m', -, -, -, hstate⟩ := ht.states
  rw [hstate]
  rfl

theorem Twin.onTick (ht : Twin x k k') (tick : Tick) :
    Twin x (k.onTick 0 tick).val (k'.onTick 0 tick).val := by
  have hobserved := ht.observe tick
  unfold Kernel.onTick
  simp only [hobserved.matching]
  generalize k.observe 0 tick = o at hobserved
  generalize k'.observe 0 tick = o' at hobserved
  split
  · exact hobserved.checkLiquidation _
  · obtain ⟨hunplaced, hfills⟩ := hobserved.engines tick
    rw [val_bind, val_bind, hfills]
    generalize (o.state.holdingsAt 0).engine.onTick tick = engine at hunplaced
    generalize (o'.state.holdingsAt 0).engine.onTick tick = engine' at hunplaced
    have hmatched : Twin x
        (o.withState (o.state.modifyAt 0 (fun h => { h with engine := engine })))
        (o'.withState (o'.state.modifyAt 0 (fun h => { h with engine := engine' }))) :=
      hobserved.withMatcher (f := fun _ => engine) (g := fun _ => engine')
        (fun _ _ _ _ => hunplaced)
    exact (hmatched.bookFills _).checkLiquidation _

/-- **A tick keeps twins**, whether it names the instrument or not. -/
theorem Twin.tick (ht : Twin x k k') (tick : Tick) :
    Twin x (k.apply (.tick (some x) tick)).val (k'.apply (.tick none tick)).val := by
  obtain ⟨-, hsome, -, -⟩ := ht.cleared.route
  obtain ⟨-, -, hnone, -⟩ := ht.cleared.route
  unfold Kernel.apply
  simp only [hsome, hnone]
  exact ht.cleared.onTick tick

/-- **A settlement keeps twins.** -/
theorem Twin.funding (ht : Twin x k k') (at_ : Nanos) (rate : Ratio) (mark : PriceTicks) :
    Twin x (k.apply (.funding none at_ rate mark)).val
      (k'.apply (.funding none at_ rate mark)).val := by
  have hnow : Twin x (k.cleared.withState (k.cleared.state.withNow at_))
      (k'.cleared.withState (k'.cleared.state.withNow at_)) :=
    ht.cleared.withState (f := fun s => s.withNow at_) rfl (fun _ _ _ => rfl)
  show Twin x (k.cleared.onFunding none at_ rate mark).val
    (k'.cleared.onFunding none at_ rate mark).val
  unfold Kernel.onFunding
  obtain ⟨hroute, -, hroute', -⟩ := hnow.route
  simp only [hroute, hroute']
  generalize k.cleared.withState (k.cleared.state.withNow at_) = o at hnow
  generalize k'.cleared.withState (k'.cleared.state.withNow at_) = o' at hnow
  obtain ⟨h, m', ho, hx, hm, hstate⟩ := hnow.states
  have hat : (o'.state.holdingsAt 0) = (o.state.holdingsAt 0).recast m' h.mark := by
    rw [hstate, State.holdingsAt_recast]
  have hflat : ((o.state.holdingsAt 0).recast m' h.mark).isFlat = (o.state.holdingsAt 0).isFlat :=
    rfl
  have hamount : fundingAmount ((o.state.holdingsAt 0).recast m' h.mark) ⟨at_, rate, mark⟩ =
      fundingAmount (o.state.holdingsAt 0) ⟨at_, rate, mark⟩ := rfl
  rw [hat, hflat, hamount]
  split
  · exact hnow
  · rw [val_bind, val_bind]
    have hbooked : Twin x
        (o.withState (o.state.bookFunding (fundingAmount (o.state.holdingsAt 0)
          ⟨at_, rate, mark⟩)).val)
        (o'.withState
          (o'.state.bookFunding (fundingAmount (o.state.holdingsAt 0) ⟨at_, rate, mark⟩)).val) :=
      hnow.withState (f := fun s => (s.bookFunding _).val) rfl (fun _ _ _ => rfl)
    exact (hbooked.emit _).checkLiquidation _

/-- **A market order keeps twins** when it is sent at one time, or when its matcher does not
read the time. -/
theorem Twin.submit (ht : Twin x k k') (id : OrderId) (side : Side) (qty : QtyLots)
    (offset : Offset) {stamp stamp' : Stamp}
    (hsent : stamp.local_ = stamp'.local_ ∨ k.state.holding.engine.immediate id = true) :
    Twin x (k.apply (.submit (some x) id side none qty offset stamp)).val
      (k'.apply (.submit (some x) id side none qty offset stamp')).val := by
  have hc := ht.cleared
  have hbalance : k'.cleared.state.balance = k.cleared.state.balance := by
    obtain ⟨h, m', -, -, -, hstate⟩ := hc.states
    rw [hstate]
    rfl
  obtain ⟨-, hroute, -, hroute'⟩ := hc.route
  show Twin x (k.cleared.onSubmit (some x) id side none qty offset stamp)
    (k'.cleared.onSubmit (some x) id side none qty offset stamp')
  unfold Kernel.onSubmit
  rw [hc.working, hbalance, hroute, hroute']
  split
  · split
    · exact hc.emit _
    · simp only
      split
      · exact hc.emit _
      · rename_i hqty _ _
        have hrested := hc.withMatcher
          (f := (·.submit (orderOf id side none qty offset stamp hqty) stamp.local_))
          (g := (·.submit (orderOf id side none qty offset stamp' hqty) stamp'.local_))
          (by
            intro h m' hk hm
            have horder : (orderOf id side none qty offset stamp' hqty).unplaced =
                (orderOf id side none qty offset stamp hqty).unplaced := rfl
            have htime : h.engine.submit (orderOf id side none qty offset stamp hqty)
              stamp'.local_ =
                h.engine.submit (orderOf id side none qty offset stamp hqty) stamp.local_ := by
              rcases hsent with hsame | himmediate
              · rw [hsame]
              · apply Matcher.submit_of_immediate
                · have hholding : k.state.holding = h := by
                    unfold State.holding
                    simp only [show k.state.holdings = [h] from hk, List.head_cons]
                  rw [hholding] at himmediate
                  exact himmediate
                · rfl
            rw [← Matcher.submit_unplaced, hm, horder, Matcher.submit_unplaced, htime])
        exact ⟨rfl, hrested.outputs, hrested.states⟩
  · exact hc.emit _

/-! ## Calls that are not events -/

/-- A call every matcher answers without reading a stamp. -/
theorem Twin.askMatcher (ht : Twin x k k') {α : Type} {f : Matcher → Matcher × α}
    (hf : ∀ m : Matcher, (f m.unplaced).1 = (f m).1.unplaced) :
    Twin x (k.askMatcher f).1 (k'.askMatcher f).1 := by
  refine ht.withMatcher (f := fun m => (f m).1) (g := fun m => (f m).1) ?_
  intro h m' _ hm
  rw [← hf, hm, hf]

end Kernel
