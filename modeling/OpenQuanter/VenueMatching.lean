/-
# A venue's fills and the matcher's

Under venue matching the kernel books the fills it is told about; under simulated
matching it makes them itself at a tick.  Feeding a venue-matched kernel the same
events, with each simulated fill delivered just before the tick that made it,
keeps the two accounts equal.  The two differ in what booking never reads, the
matcher, the mark, the clock and the matching itself, and `recast` exchanges just
those: every booking commutes with it.
-/
import OpenQuanter.WorkingSet

open Logged

/-! ## What booking does not read -/

/-- The same holding with another matcher and another mark. -/
def Holding.recast (h : Holding) (m : Matcher) (price : PriceTicks) : Holding :=
  { h with engine := m, mark := price }

namespace Holding

variable (h : Holding) (m : Matcher) (p : PriceTicks)

theorem leg_recast (short : Bool) : (h.recast m p).leg short = h.leg short := by
  cases short <;> rfl

theorem setLeg_recast (short : Bool) (qty : QtyLots) (entry : PriceTicks) (cost : Int) :
    (h.recast m p).setLeg short qty entry cost = (h.setLeg short qty entry cost).recast m p := by
  cases short <;> rfl

theorem openLeg_recast (short : Bool) (qty : QtyLots) (price : PriceTicks) (sign : Int64) :
    ((h.recast m p).openLeg short qty price sign).val =
      (h.openLeg short qty price sign).val.recast m p := by
  unfold openLeg
  rw [leg_recast]
  split
  · rfl
  · exact setLeg_recast _ _ _ _ _ _ _

theorem closeLeg_recast (short : Bool) (qty : QtyLots) (price : PriceTicks) :
    ((h.recast m p).closeLeg short qty price).val.1 =
        (h.closeLeg short qty price).val.1.recast m p ∧
      ((h.recast m p).closeLeg short qty price).val.2 =
        (h.closeLeg short qty price).val.2 := by
  unfold closeLeg
  rw [leg_recast]
  by_cases hflat : (h.leg short).1 = 0
  · simp only [hflat, if_true]
    exact ⟨rfl, rfl⟩
  · simp only [hflat, if_false]
    exact ⟨setLeg_recast _ _ _ _ _ _ _, rfl⟩

end Holding

attribute [ext] State

namespace State

/-- The same account with every matcher and mark exchanged, and with another
clock and another matching. -/
def recast (s : State) (m : Matcher) (p : PriceTicks) (now : Nanos) (matching : Matching) :
    State :=
  { s with
    holdings := s.holdings.map (·.recast m p)
    nonempty := by simpa using s.nonempty
    now := now
    matching := matching }

variable (s : State) (m : Matcher) (p : PriceTicks) (t : Nanos) (w : Matching)

theorem holdingsAt_recast (index : Nat) :
    (s.recast m p t w).holdingsAt index = (s.holdingsAt index).recast m p := by
  have hhead : (s.recast m p t w).holding = s.holding.recast m p := by
    unfold holding recast
    simp only [List.head_map]
  unfold holdingsAt
  rw [hhead]
  exact List.getD_map s.holdings s.holding (fun h => h.recast m p)

theorem setAt_recast (index : Nat) (h : Holding) :
    (s.recast m p t w).setAt index (h.recast m p) = (s.setAt index h).recast m p t w := by
  ext1
  case holdings =>
    show (s.holdings.map (·.recast m p)).modify index (fun _ => h.recast m p) =
      (s.holdings.modify index (fun _ => h)).map (·.recast m p)
    apply List.ext_getElem?
    intro j
    simp only [List.getElem?_modify, List.getElem?_map]
    by_cases hij : index = j
    · simp only [hij, if_true, Option.map_eq_map, Option.map_map]
      rfl
    · simp [hij]
  all_goals rfl

theorem holdingIndex_recast (instrument : InstrumentId) :
    (s.recast m p t w).holdingIndex instrument = s.holdingIndex instrument := by
  apply holdingIndex_congr
  show (s.holdings.map (·.recast m p)).map Holding.instrument = s.holdings.map Holding.instrument
  rw [List.map_map]
  rfl

theorem openLegAt_recast (index : Nat) (short : Bool) (qty : QtyLots) (price : PriceTicks)
    (sign : Int64) :
    ((s.recast m p t w).openLegAt index short qty price sign).val =
      (s.openLegAt index short qty price sign).val.recast m p t w := by
  unfold openLegAt
  rw [val_bind, val_pure, holdingsAt_recast, Holding.openLeg_recast, setAt_recast]
  rfl

theorem closeLegAt_recast (index : Nat) (short : Bool) (qty : QtyLots) (price : PriceTicks) :
    ((s.recast m p t w).closeLegAt index short qty price).val =
      (s.closeLegAt index short qty price).val.recast m p t w := by
  obtain ⟨hholding, hpnl⟩ := (s.holdingsAt index).closeLeg_recast m p short qty price
  unfold closeLegAt
  rw [val_bind, val_bind, holdingsAt_recast]
  simp only [hholding, hpnl, setAt_recast]
  rfl

theorem applyFillNet_recast (index : Nat) (fill : Fill) :
    ((s.recast m p t w).applyFillNet index fill).val =
      (s.applyFillNet index fill).val.recast m p t w := by
  have hqty : ((s.recast m p t w).holdingsAt index).qty = (s.holdingsAt index).qty := by
    rw [holdingsAt_recast]
    rfl
  unfold applyFillNet
  simp only [hqty]
  split
  · rw [val_bind, val_bind, closeLegAt_recast]
    split
    · exact openLegAt_recast _ _ _ _ _ _ _ _ _ _
    · rfl
  · exact openLegAt_recast _ _ _ _ _ _ _ _ _ _

theorem applyFillHedged_recast (index : Nat) (fill : Fill) :
    ((s.recast m p t w).applyFillHedged index fill).val =
      (s.applyFillHedged index fill).val.recast m p t w := by
  unfold applyFillHedged
  simp only
  rcases fill.offset with _ | _
  · exact openLegAt_recast _ _ _ _ _ _ _ _ _ _
  · exact closeLegAt_recast _ _ _ _ _ _ _ _ _

/-- **Booking a fill commutes with recasting.** -/
theorem applyFill_recast (fill : Fill) :
    ((s.recast m p t w).applyFill fill).val = (s.applyFill fill).val.recast m p t w := by
  have hmode : (s.recast m p t w).mode = s.mode := rfl
  unfold applyFill
  rw [holdingIndex_recast, hmode]
  rcases s.holdingIndex fill.instrument with _ | index
  · rfl
  · simp only
    rcases s.mode with _ | _
    · exact applyFillNet_recast _ _ _ _ _ _ _
    · exact applyFillHedged_recast _ _ _ _ _ _ _

theorem chargeFee_recast (fee : Cash) :
    ((s.recast m p t w).chargeFee fee).val = (s.chargeFee fee).val.recast m p t w := rfl

end State

/-! ## The two kernels -/

namespace Kernel

/-- `v` is `k` matched by the venue: the same account and working set, with the
same orders in the lone holding's book. -/
structure Mirrored (k v : Kernel) : Prop where
  simulated : k.state.matching = .simulated
  unenforced : k.state.enforceLiquidation = false
  working : v.working = k.working
  engines : ∃ (h : Holding) (e e' : L0Engine), k.state.holdings = [h] ∧ h.engine = .l0 e ∧
    e.instrument = h.instrument ∧ e'.book = e.book ∧
    v.state = k.state.recast (.l0 e') h.mark k.state.now .venue

variable {k v : Kernel}

theorem checkLiquidation_of_unenforced (h : k.state.enforceLiquidation = false)
    (mark : PriceTicks) : (k.checkLiquidation mark).val = k := by
  unfold checkLiquidation
  rw [if_pos (by simp [h])]
  rfl

/-- With enforcement off an event is what it books. -/
theorem apply_of_unenforced (h : k.state.enforceLiquidation = false) (event : Event) :
    (k.apply event).val = (k.booked event).val.1 := by
  rw [apply_eq, val_bind]
  unfold settle
  split
  · rfl
  · apply checkLiquidation_of_unenforced
    rw [(k.moves_booked event).sameSetup.enforceLiquidation, h]

theorem Mirrored.route (h : Mirrored k v) (instrument : Option InstrumentId) :
    v.route instrument = k.route instrument := by
  obtain ⟨x, e, e', hk, -, -, -, hv⟩ := h.engines
  unfold Kernel.route
  rw [hv]
  rcases instrument with _ | id
  · simp [State.recast]
  · exact State.holdingIndex_recast _ _ _ _ _ _

theorem route_of_lone {h : Holding} (hk : k.state.holdings = [h])
    {instrument : Option InstrumentId} {index : Nat} (hroute : k.route instrument = some index) :
    index = 0 := by
  have hlt := k.route_lt hroute
  rw [hk] at hlt
  simpa using hlt

/-- A change that neither touches a matcher nor a mark. -/
theorem Mirrored.of_books (h : Mirrored k v) {k' v' : Kernel}
    (hholdings : k'.state.holdings = k.state.holdings)
    (hsetup : State.SameSetup k.state k'.state) (hworking : v'.working = k'.working)
    (hstate : ∀ m p, v.state = k.state.recast m p k.state.now .venue →
      v'.state = k'.state.recast m p k'.state.now .venue) : Mirrored k' v' := by
  obtain ⟨x, e, e', hk, hx, hi, hb, hv⟩ := h.engines
  refine ⟨?_, ?_, hworking, x, e, e', ?_, hx, hi, hb, hstate _ _ hv⟩
  · rw [hsetup.matching, h.simulated]
  · rw [hsetup.enforceLiquidation, h.unenforced]
  · rw [hholdings, hk]

/-- A call of the matcher that does the same to both books. -/
theorem Mirrored.of_call (h : Mirrored k v) {k' v' : Kernel} {F G : L0Engine → L0Engine}
    (hF : ∀ e, (F e).instrument = e.instrument)
    (hbook : ∀ e e', e'.book = e.book → (G e').book = (F e).book)
    (hsetup : State.SameSetup k.state k'.state) (hworking : v'.working = k'.working)
    (hk' : ∀ x e, k.state.holdings = [x] → x.engine = .l0 e →
      k'.state.holdings = [{ x with engine := .l0 (F e) }])
    (hv' : ∀ x e', k.state.holdings = [x] →
      v.state = k.state.recast (.l0 e') x.mark k.state.now .venue →
      v'.state = k'.state.recast (.l0 (G e')) x.mark k'.state.now .venue) : Mirrored k' v' := by
  obtain ⟨x, e, e', hk, hx, hi, hb, hv⟩ := h.engines
  refine ⟨?_, ?_, hworking, { x with engine := .l0 (F e) }, F e, G e', hk' x e hk hx, rfl,
    (hF e).trans hi, hbook e e' hb, hv' x e' hk hv⟩
  · rw [hsetup.matching, h.simulated]
  · rw [hsetup.enforceLiquidation, h.unenforced]

/-! ## Events that are not matched -/

theorem Mirrored.emit (h : Mirrored k v) (o o' : Output) : Mirrored (k.emit o) (v.emit o') :=
  ⟨h.simulated, h.unenforced, h.working, h.engines⟩

theorem Mirrored.cleared (h : Mirrored k v) : Mirrored k.cleared v.cleared :=
  ⟨h.simulated, h.unenforced, h.working, h.engines⟩

theorem Mirrored.balance (h : Mirrored k v) : v.state.balance = k.state.balance := by
  obtain ⟨x, e, e', -, -, -, -, hv⟩ := h.engines
  rw [hv]
  rfl

theorem Mirrored.withNow (h : Mirrored k v) (at_ : Nanos) :
    Mirrored (k.withState (k.state.withNow at_)) (v.withState (v.state.withNow at_)) := by
  refine h.of_books rfl ⟨rfl, rfl, rfl, rfl, rfl⟩ h.working ?_
  intro m p hv
  show v.state.withNow at_ = _
  rw [hv]
  rfl

theorem Mirrored.bookFunding (h : Mirrored k v) (amount : Cash) :
    Mirrored (k.withState (k.state.bookFunding amount).val)
      (v.withState (v.state.bookFunding amount).val) := by
  refine h.of_books rfl ⟨rfl, rfl, rfl, rfl, rfl⟩ h.working ?_
  intro m p hv
  show (v.state.bookFunding amount).val = _
  rw [hv]
  rfl

theorem Mirrored.onSubmit (h : Mirrored k v) (instrument : Option InstrumentId) (id : OrderId)
    (side : Side) (price : Option PriceTicks) (qty : QtyLots) (offset : Offset) (stamp : Stamp) :
    Mirrored (k.onSubmit instrument id side price qty offset stamp)
      (v.onSubmit instrument id side price qty offset stamp) := by
  unfold Kernel.onSubmit
  rw [h.working, h.route, h.balance]
  split
  · split
    · exact h.emit _ _
    · rcases hroute : k.route instrument with _ | index
      · exact h.emit _ _
      · simp only
        split
        · exact h.emit _ _
        · rename_i hqty _ _
          refine h.of_call (F := (·.submit (orderOf id side price qty offset stamp hqty)))
            (G := (·.submit (orderOf id side price qty offset stamp hqty))) (fun _ => rfl) ?_
            ⟨rfl, rfl, rfl, rfl, rfl⟩ ?_ ?_ ?_
          · intro e e' hb
            show e'.book.insert _ = e.book.insert _
            rw [hb]
          · rfl
          · intro x e hk hx
            have hzero := route_of_lone hk hroute
            subst hzero
            simp [hk, hx, Matcher.submit]
          · intro x e' hk hv
            have hzero := route_of_lone hk hroute
            subst hzero
            show v.state.modifyAt 0 _ = _
            rw [hv]
            ext1
            case holdings => simp [State.recast, hk, Holding.recast, Matcher.submit]
            all_goals rfl
  · exact h.emit _ _

theorem cancelFirst_singleton (id : OrderId) (h : Holding) :
    cancelFirst id [h] =
      ([{ h with engine := (h.engine.cancel id).1 }], (h.engine.cancel id).2) := by
  simp only [cancelFirst]
  split <;> simp_all

theorem Mirrored.onCancel (h : Mirrored k v) (id : OrderId) :
    Mirrored (k.onCancel id) (v.onCancel id) := by
  obtain ⟨state, outputs, working⟩ := v
  obtain ⟨x, e, e', hk, hx, hi, hb, hv⟩ := h.engines
  simp only at hv
  subst hv
  have hkc : cancelFirst id k.state.holdings =
      ([{ x with engine := .l0 (e.cancel id).1 }], (e.cancel id).2) := by
    rw [hk, cancelFirst_singleton, hx]
    rfl
  have hvc : cancelFirst id (k.state.recast (.l0 e') x.mark k.state.now .venue).holdings =
      ([(x.recast (.l0 (e'.cancel id).1) x.mark)], (e'.cancel id).2) := by
    show cancelFirst id (k.state.holdings.map _) = _
    rw [hk, List.map_singleton, cancelFirst_singleton]
    rfl
  have hfound : (e'.cancel id).2 = (e.cancel id).2 := by
    show ((e'.book.iter.find? (·.id = id)).map Resting.order).isSome = _
    rw [hb]
    rfl
  have hbook : (e'.cancel id).1.book = (e.cancel id).1.book := by
    show e'.book.drop id = e.book.drop id
    rw [hb]
  have hsame : (cancelFirst id (k.state.recast (.l0 e') x.mark k.state.now .venue).holdings).2 =
      (cancelFirst id k.state.holdings).2 := by
    rw [hkc, hvc]
    exact hfound
  have hholdings : (cancelFirst id k.state.holdings).1 =
      [{ x with engine := .l0 (e.cancel id).1 }] := by
    rw [hkc]
  have hlists : (cancelFirst id (k.state.recast (.l0 e') x.mark k.state.now .venue).holdings).1 =
      (cancelFirst id k.state.holdings).1.map (·.recast (.l0 (e'.cancel id).1) x.mark) := by
    rw [hkc, hvc]
    rfl
  unfold Kernel.onCancel
  simp only [hsame]
  split
  · refine ⟨h.simulated, h.unenforced, ?_, _, _, e'.cancel id |>.1, hholdings, rfl, hi, hbook, ?_⟩
    · show working.filter _ = _
      rw [show working = k.working from h.working]
    · ext1
      case holdings => exact hlists
      all_goals rfl
  · refine ⟨h.simulated, h.unenforced, h.working, _, _, e'.cancel id |>.1, hholdings, rfl, hi,
      hbook, ?_⟩
    ext1
    case holdings => exact hlists
    all_goals rfl

theorem Mirrored.onDepth (h : Mirrored k v) (update : DepthUpdate) :
    Mirrored (k.onDepth update) (v.onDepth update) := by
  obtain ⟨x, e, e', hk, hx, hi, hb, hv⟩ := h.engines
  have hkd : (k.onDepth update).state = k.state := by
    unfold Kernel.onDepth
    rw [if_pos (by simp [hk])]
    show k.state.modifyAt 0 _ = k.state
    ext1
    case holdings =>
      simp only [State.holdings_modifyAt, hk]
      show [({ x with engine := (x.engine.onDepth update).1 } : Holding)] = [x]
      rw [hx]
      simp only [Matcher.onDepth]
      rw [← hx]
    all_goals rfl
  have hvd : (v.onDepth update).state = v.state := by
    unfold Kernel.onDepth
    rw [if_pos (by simp [hv, State.recast, hk])]
    show v.state.modifyAt 0 _ = v.state
    ext1
    case holdings =>
      simp only [State.holdings_modifyAt, hv, State.recast, hk]
      rfl
    all_goals rfl
  have hworking : ∀ k : Kernel, (k.onDepth update).working = k.working := by
    intro k
    unfold Kernel.onDepth
    split <;> rfl
  refine ⟨?_, ?_, ?_, ?_⟩
  · rw [hkd, h.simulated]
  · rw [hkd, h.unenforced]
  · rw [hworking, hworking, h.working]
  · rw [hkd, hvd]
    exact h.engines

theorem Mirrored.bookSettlement (h : Mirrored k v) (instrument : Option InstrumentId)
    (at_ : Nanos) (rate : Ratio) (mark : PriceTicks) :
    Mirrored (k.bookSettlement instrument at_ rate mark).val.1
      (v.bookSettlement instrument at_ rate mark).val.1 := by
  have hnow := h.withNow at_
  unfold Kernel.bookSettlement
  simp only
  rw [hnow.route]
  rcases (k.withState (k.state.withNow at_)).route instrument with _ | index
  · exact hnow.emit _ _
  · obtain ⟨x, e, e', hk, hx, hi, hb, hv⟩ := hnow.engines
    have hat : (v.withState (v.state.withNow at_)).state.holdingsAt index =
        ((k.withState (k.state.withNow at_)).state.holdingsAt index).recast (.l0 e') x.mark := by
      rw [hv]
      exact State.holdingsAt_recast _ _ _ _ _ _
    have hflat : ((v.withState (v.state.withNow at_)).state.holdingsAt index).isFlat =
        ((k.withState (k.state.withNow at_)).state.holdingsAt index).isFlat := by
      rw [hat]
      rfl
    have hamount : fundingAmount ((v.withState (v.state.withNow at_)).state.holdingsAt index)
        ⟨at_, rate, mark⟩ =
        fundingAmount ((k.withState (k.state.withNow at_)).state.holdingsAt index)
        ⟨at_, rate, mark⟩ := by
      rw [hat]
      rfl
    simp only [hflat, hamount]
    split
    · exact hnow
    · exact (hnow.bookFunding _).emit _ _

theorem Mirrored.onFundingCharged (h : Mirrored k v) (instrument : Option InstrumentId)
    (at_ : Nanos) (amount : Cash) :
    Mirrored (k.onFundingCharged instrument at_ amount).val
      (v.onFundingCharged instrument at_ amount).val := by
  have hnow := h.withNow at_
  unfold Kernel.onFundingCharged
  simp only
  rw [hnow.route]
  rcases (k.withState (k.state.withNow at_)).route instrument with _ | index
  · exact hnow.emit _ _
  · exact (hnow.bookFunding amount).emit _ _

/-! ## Ticks -/

/-- An account with one holding, read through what booking keeps. -/
theorem exists_singleton_of_kept {s t : State} (hkept : State.Kept s t) {y : Holding}
    (hs : s.holdings = [y]) : ∃ y', t.holdings = [y'] ∧ y'.rest = y.rest := by
  have hlen : t.holdings.length = 1 := by
    rw [hkept.length, hs]
    rfl
  obtain ⟨y', hy'⟩ := List.length_eq_one_iff.mp hlen
  have hrests := hkept.rests
  rw [hs, hy'] at hrests
  exact ⟨y', hy', by simpa using hrests⟩

theorem withdrawFilled_recast {s : State} {y : Holding} (hs : s.holdings = [y]) (e' : L0Engine)
    (p : PriceTicks) (t : Nanos) {fill : Fill} (hi : fill.instrument = y.instrument) :
    withdrawFilled (s.recast (.l0 e') p t .venue) fill =
      s.recast (.l0 (e'.cancel fill.order).1) p t .venue := by
  have hindex : s.holdingIndex fill.instrument = some 0 := by
    simp [State.holdingIndex, hs, hi]
  unfold withdrawFilled
  rw [State.holdingIndex_recast, hindex]
  ext1
  case holdings =>
    simp only [State.holdings_modifyAt, State.recast, hs]
    rfl
  all_goals rfl

/-- **A venue fill books what the matcher's fill books.** -/
theorem apply_venueFill_recast {y : Holding} {e' : L0Engine} {p : PriceTicks} {t : Nanos}
    (hk : k.state.holdings = [y]) (hoff : k.state.enforceLiquidation = false)
    (hworking : v.working = k.working) (hv : v.state = k.state.recast (.l0 e') p t .venue)
    {fill : Fill} (hi : fill.instrument = y.instrument) :
    (v.apply (.venueFill fill .unsaid)).val.working = (bookFill 0 k fill).val.working ∧
    (v.apply (.venueFill fill .unsaid)).val.state =
      (bookFill 0 k fill).val.state.recast (.l0 (e'.cancel fill.order).1) p fill.stamp.exch
        .venue := by
  have hoff' : v.state.enforceLiquidation = false := by
    rw [hv]
    exact hoff
  have hvenue : ¬ v.cleared.state.matching ≠ .venue := by
    show ¬ v.state.matching ≠ .venue
    rw [hv]
    exact fun h => h rfl
  have hnow : v.cleared.state.withNow fill.stamp.exch =
      k.state.recast (.l0 e') p fill.stamp.exch .venue := by
    show v.state.withNow fill.stamp.exch = _
    rw [hv]
    rfl
  have hfee : venueFee (k.state.recast (.l0 (e'.cancel fill.order).1) p fill.stamp.exch .venue)
      fill .unsaid = (k.state.feeSchedule.charge (k.state.holdingsAt 0).contract fill,
        k.state.recast (.l0 (e'.cancel fill.order).1) p fill.stamp.exch .venue) := by
    have hcontract : (((k.state.recast (.l0 (e'.cancel fill.order).1) p fill.stamp.exch
        .venue).holdingOf fill.instrument).map Holding.contract) =
        some (k.state.holdingsAt 0).contract := by
      simp [State.holdingOf, State.recast, State.holdingsAt, hk, Holding.recast, hi]
    simp only [venueFee, hcontract, Option.getD_some]
    rfl
  rw [apply_of_unenforced hoff']
  unfold booked bookVenueFill
  simp only [if_neg hvenue, hnow]
  rw [withdrawFilled_recast hk e' p _ hi, hfee]
  constructor
  · show v.working.filter _ = k.working.filter _
    rw [hworking]
  · rw [val_bind, val_bind, val_pure, State.chargeFee_recast, State.applyFill_recast]
    rfl

/-- The same for the fills of one tick, delivered one after the other. -/
theorem run_venueFills_recast {p : PriceTicks} (fills : List Fill) :
    ∀ (k v : Kernel) (y : Holding) (e' : L0Engine) (t : Nanos), k.state.holdings = [y] →
      k.state.enforceLiquidation = false → v.working = k.working →
      v.state = k.state.recast (.l0 e') p t .venue → (∀ f ∈ fills, f.instrument = y.instrument) →
      ∃ t',
        (v.run (fills.map (fun f => .venueFill f .unsaid))).val.working =
          (k.bookFills 0 fills).val.working ∧
        (v.run (fills.map (fun f => .venueFill f .unsaid))).val.state =
          (k.bookFills 0 fills).val.state.recast
            (.l0 { e' with book := e'.book.dropAll (fills.map Fill.order) }) p t' .venue := by
  induction fills with
  | nil =>
    intro k v y e' t _ _ hworking hv _
    exact ⟨t, hworking, hv⟩
  | cons fill rest ih =>
    intro k v y e' t hk hoff hworking hv hi
    obtain ⟨hworking', hv'⟩ := apply_venueFill_recast hk hoff hworking hv
      (hi fill List.mem_cons_self)
    have hkept := k.kept_bookFill 0 fill
    obtain ⟨y', hk', hrest⟩ := exists_singleton_of_kept hkept hk
    have hinstrument : y'.instrument = y.instrument := congrArg (fun r => r.1) hrest
    obtain ⟨t', hw, hs⟩ := ih _ _ y' _ _ hk' (hkept.enforceLiquidation.trans hoff) hworking' hv'
      (fun f hf => (hi f (List.mem_cons_of_mem _ hf)).trans hinstrument.symm)
    unfold run bookFills at hw hs ⊢
    refine ⟨t', ?_, ?_⟩
    · rw [List.map_cons, List.foldlM_cons, List.foldlM_cons, val_bind, val_bind]
      exact hw
    · rw [List.map_cons, List.foldlM_cons, List.foldlM_cons, val_bind, val_bind]
      exact hs

/-- The tick itself only marks the venue-matched account. -/
theorem apply_tick_recast {s : State} {y : Holding} (hs : s.holdings = [y])
    (hoff : s.enforceLiquidation = false) {m : Matcher} {p : PriceTicks} {t : Nanos}
    (hv : v.state = s.recast m p t .venue) {instrument : Option InstrumentId}
    (hroute : v.route instrument = some 0) (tick : Tick) :
    (v.apply (.tick instrument tick)).val.working = v.working ∧
      (v.apply (.tick instrument tick)).val.state =
        s.recast m tick.last tick.stamp.exch .venue := by
  have hoff' : v.state.enforceLiquidation = false := by
    rw [hv]
    exact hoff
  have hroute' : v.cleared.route instrument = some 0 := hroute
  have hvenue : (v.cleared.observe 0 tick).state.matching = .venue := by
    show v.state.matching = .venue
    rw [hv]
    rfl
  rw [apply_of_unenforced hoff']
  simp only [booked, hroute', bookTick, if_pos hvenue]
  refine ⟨rfl, ?_⟩
  show ((v.state.withNow tick.stamp.exch).modifyAt 0 _) = _
  rw [hv]
  ext1
  case holdings =>
    simp only [State.holdings_modifyAt, State.withNow, State.recast, hs]
    rfl
  all_goals rfl

/-- The lone holding once its matcher has seen a tick. -/
def tickedHolding (x : Holding) (e : L0Engine) (tick : Tick) : Holding :=
  { x with mark := tick.last, engine := .l0 (e.onTick tick) }

theorem advanced_of_lone {x : Holding} {e : L0Engine} (hk : k.state.holdings = [x])
    (hx : x.engine = .l0 e) (tick : Tick) :
    (k.advanced 0 tick).state.holdings = [tickedHolding x e tick] ∧
      k.tickFills 0 tick = (e.onTick tick).fills.map L0Fill.fill := by
  have hengine : ((k.observe 0 tick).state.holdingsAt 0).engine = .l0 e := by
    simp [observe, withState, State.holdingsAt, State.withNow, hk, hx]
  constructor
  · unfold advanced
    rw [hengine]
    simp [observe, withState, State.withNow, hk, tickedHolding, Matcher.onTick]
  · unfold tickFills
    rw [hengine]
    rfl

/-- What the venue-matched kernel is fed for an event: the fills the simulated
kernel makes of it, then the event. -/
def delivered (k : Kernel) (event : Event) : List Event :=
  (k.fillsOf event).map (fun f => .venueFill f .unsaid) ++ [event]

theorem Mirrored.tick_of_route (h : Mirrored k v) {instrument : Option InstrumentId}
    (hroute : k.route instrument = some 0) (tick : Tick) :
    Mirrored (k.booked (.tick instrument tick)).val.1
      (v.run ((k.tickFills 0 tick).map (fun f => Event.venueFill f .unsaid) ++
        [.tick instrument tick])).val := by
  obtain ⟨x, e, e', hk, hx, hi, hb, hv⟩ := h.engines
  obtain ⟨hholdings, hfills⟩ := advanced_of_lone (k := k.cleared) hk hx tick
  have hfills' : k.tickFills 0 tick = (e.onTick tick).fills.map L0Fill.fill := hfills
  have hroute' : k.cleared.route instrument = some 0 := hroute
  have hbooked : (k.booked (.tick instrument tick)).val.1 =
      ((k.cleared.advanced 0 tick).bookFills 0 (k.tickFills 0 tick)).val := by
    simp only [booked, hroute']
    exact bookTick_of_simulated k.cleared h.simulated 0 tick
  have hstart : v.state =
      (k.cleared.advanced 0 tick).state.recast (.l0 e') x.mark k.state.now .venue := by
    rw [hv]
    ext1
    case holdings =>
      simp only [State.recast, hholdings, hk]
      rfl
    all_goals rfl
  -- the venue reports the fills one by one, on the account as the tick left it
  have hinstruments : ∀ f ∈ k.tickFills 0 tick, f.instrument = x.instrument := by
    intro f hf
    rw [hfills'] at hf
    obtain ⟨g, hg, rfl⟩ := List.mem_map.mp hf
    exact (e.onTick_fills_instrument tick g hg).trans hi
  obtain ⟨t', hw, hs⟩ := run_venueFills_recast (k.tickFills 0 tick) _ v _ e' k.state.now hholdings
    h.unenforced h.working hstart hinstruments
  have hkept := (k.cleared.advanced 0 tick).kept_bookFills 0 (k.tickFills 0 tick)
  obtain ⟨y', hy', hrest⟩ := exists_singleton_of_kept hkept hholdings
  rw [← hbooked] at hw hs hkept hy'
  have hyx : y'.instrument = x.instrument := congrArg (fun r => r.1) hrest
  have hmark : y'.mark = tick.last := congrArg (fun r => r.2.2.2.2) hrest
  have hvroute : (v.run ((k.tickFills 0 tick).map
      (fun f => Event.venueFill f .unsaid))).val.route instrument = some 0 := by
    rw [← hroute]
    unfold Kernel.route
    rw [hs]
    rcases instrument with _ | id
    · simp [State.recast, hy', hk]
    · simp only [State.holdingIndex_recast]
      apply State.holdingIndex_congr
      simp [State.instruments, hy', hk, hyx]
  -- the tick itself then fills nothing at the venue: it moves the mark and the clock
  obtain ⟨hvworking, hvstate⟩ := apply_tick_recast hy'
    (hkept.enforceLiquidation.trans h.unenforced) hs hvroute tick
  have hbook : ((e'.book.dropAll ((k.tickFills 0 tick).map Fill.order))) =
      (e.onTick tick).book := by
    rw [e.onTick_book tick, hb, hfills', List.map_map]
    rfl
  have hnow : (k.booked (.tick instrument tick)).val.1.state.now = tick.stamp.exch := hkept.now
  rw [run_append]
  refine ⟨hkept.matching.trans h.simulated, hkept.enforceLiquidation.trans h.unenforced,
    hvworking.trans hw, y', e.onTick tick,
    { e' with book := e'.book.dropAll ((k.tickFills 0 tick).map Fill.order) }, hy', ?_, ?_, hbook,
    ?_⟩
  · exact congrArg (fun r => r.2.2.2.1) hrest
  · rw [e.onTick_instrument tick, hi, hyx]
  · rw [hmark, hnow]
    exact hvstate

theorem Mirrored.tick (h : Mirrored k v) (instrument : Option InstrumentId) (tick : Tick) :
    Mirrored (k.booked (.tick instrument tick)).val.1
      (v.run (k.delivered (.tick instrument tick))).val := by
  have hsim : ¬ k.state.matching = .venue := by
    rw [h.simulated]
    simp
  unfold delivered
  rcases hroute : k.route instrument with _ | index
  · have hfills : k.fillsOf (.tick instrument tick) = [] := by simp [fillsOf, hroute]
    have hkroute : k.cleared.route instrument = none := hroute
    have hvroute : v.cleared.route instrument = none := (h.route instrument).trans hroute
    have hv : (v.run [.tick instrument tick]).val =
        v.cleared.emit (.rejected 0 .unroutableObservation) := by
      show (v.apply (.tick instrument tick)).val = _
      unfold apply
      simp only [hvroute]
      rfl
    rw [hfills, List.map_nil, List.nil_append, hv]
    simp only [booked, hkroute]
    exact h.cleared.emit _ _
  · obtain ⟨x, -, -, hk, -⟩ := h.engines
    have hzero := route_of_lone hk hroute
    subst hzero
    have hfills : k.fillsOf (.tick instrument tick) = k.tickFills 0 tick := by
      simp [fillsOf, hroute, hsim]
    rw [hfills]
    exact h.tick_of_route hroute tick

/-- An event that fills nothing is delivered as it is. -/
theorem Mirrored.apply_of_booked (h : Mirrored k v) {event : Event} (hfills : k.fillsOf event = [])
    (hbooked : Mirrored (k.booked event).val.1 (v.booked event).val.1) :
    Mirrored (k.booked event).val.1 (v.run (k.delivered event)).val := by
  have hoff : v.state.enforceLiquidation = false := by
    obtain ⟨x, e, e', -, -, -, -, hv⟩ := h.engines
    rw [hv]
    exact h.unenforced
  unfold delivered
  rw [hfills]
  show Mirrored _ (v.apply event).val
  rwa [apply_of_unenforced hoff]

/-- **One event keeps the two kernels together.** -/
theorem Mirrored.apply (h : Mirrored k v) {event : Event}
    (hvenue : ∀ fill fee, event ≠ .venueFill fill fee) :
    Mirrored (k.apply event).val (v.run (k.delivered event)).val := by
  rw [apply_of_unenforced h.unenforced]
  cases event with
  | tick instrument tick => exact h.tick instrument tick
  | funding instrument at_ rate mark =>
    exact h.apply_of_booked rfl (h.cleared.bookSettlement instrument at_ rate mark)
  | venueFill fill reported => exact absurd rfl (hvenue fill reported)
  | submit instrument id side price qty offset stamp =>
    exact h.apply_of_booked rfl (h.cleared.onSubmit instrument id side price qty offset stamp)
  | cancel id stamp => exact h.apply_of_booked rfl (h.cleared.onCancel id)
  | fundingCharged instrument at_ amount =>
    exact h.apply_of_booked rfl (h.cleared.onFundingCharged instrument at_ amount)
  | feeRecovered at_ amount remainingMissing =>
    refine h.apply_of_booked rfl ?_
    refine h.of_books rfl ⟨rfl, rfl, rfl, rfl, rfl⟩ h.working (fun m p hv => ?_)
    show ({ ((v.state.withNow at_).chargeFee amount).val with
      feesCovered := true, feesMissing := remainingMissing ≠ 0 } : State) = _
    rw [hv]
    rfl
  | time at_ => exact h.apply_of_booked rfl (h.cleared.withNow at_)
  | marginDeposit amount at_ =>
    refine h.apply_of_booked rfl ?_
    refine h.of_books rfl ⟨rfl, rfl, rfl, rfl, rfl⟩ h.working (fun m p hv => ?_)
    show ((v.state.withNow at_).credit amount).val = _
    rw [hv]
    rfl
  | depth update => exact h.apply_of_booked rfl (h.cleared.onDepth update)

/-! ## Runs -/

/-- What the venue-matched kernel is fed for a run of the simulated one. -/
def venueScript : Kernel → List Event → List Event
  | _, [] => []
  | k, event :: rest => k.delivered event ++ (k.apply event).val.venueScript rest

theorem venueScript_append (k : Kernel) (first second : List Event) :
    k.venueScript (first ++ second) =
      k.venueScript first ++ (k.run first).val.venueScript second := by
  induction first generalizing k with
  | nil => rfl
  | cons event rest ih =>
    rw [List.cons_append, venueScript, venueScript, ih, List.append_assoc]
    unfold run
    rw [List.foldlM_cons, val_bind]

theorem Mirrored.run (h : Mirrored k v) {events : List Event}
    (hvenue : ∀ fill fee, Event.venueFill fill fee ∉ events) :
    Mirrored (k.run events).val (v.run (k.venueScript events)).val := by
  induction events generalizing k v with
  | nil => exact h
  | cons event rest ih =>
    have hevent : ∀ fill fee, event ≠ .venueFill fill fee :=
      fun fill fee heq => hvenue fill fee (heq ▸ List.mem_cons_self)
    have hrest := ih (h.apply hevent) (fun fill fee hmem =>
      hvenue fill fee (List.mem_cons_of_mem _ hmem))
    rw [venueScript, run_append]
    unfold Kernel.run at hrest ⊢
    rw [List.foldlM_cons, val_bind]
    exact hrest

end Kernel

/-- The matcher of a fresh holding is for the holding's instrument. -/
theorem State.Built.engine_instrument {start : Cash} {s : State} (h : Built start s) :
    ∀ x ∈ s.holdings, x.engine.instrument = x.instrument := by
  induction h with
  | new instrument contract table =>
    intro x hx
    rw [List.mem_singleton.mp hx]
    rfl
  | withFees _ fees ih => exact ih
  | withoutLiquidation _ ih => exact ih
  | withMode _ mode ih => exact ih
  | withMatching _ matching ih => exact ih
  | openHolding _ instrument contract table ih =>
    unfold State.openHolding
    split
    · exact ih
    · intro x hx
      rcases List.mem_append.mp hx with hx | hx
      · exact ih x hx
      · rw [List.mem_singleton.mp hx]
        rfl
  | @matchingWith s _ m hm hi ih =>
    obtain ⟨y, rest, hy⟩ := List.exists_cons_of_ne_nil s.nonempty
    have hholding : s.holding = y := by simp [State.holding, hy]
    rw [hholding] at hi
    rw [hy] at ih
    intro x hx
    have hx' : x ∈ { y with engine := m } :: rest := by
      have hmod : (s.matchingWith m (by rw [hholding]; exact hi)).holdings =
          { y with engine := m } :: rest := by
        show s.holdings.modify 0 _ = _
        rw [hy]
        rfl
      rw [← hmod]
      exact hx
    rcases List.mem_cons.mp hx' with rfl | hx'
    · exact hi.trans (ih y List.mem_cons_self)
    · exact ih x (List.mem_cons_of_mem _ hx')

/-- The legs of a holding: sizes, entries and exact entry costs. -/
structure Legs where
  qty : QtyLots
  entry : PriceTicks
  cost : Int
  shortQty : QtyLots
  shortEntry : PriceTicks
  shortCost : Int
  deriving DecidableEq

def Holding.legs (h : Holding) : Legs :=
  ⟨h.qty, h.entry, h.entryCost, h.shortQty, h.shortEntry, h.shortEntryCost⟩

/-- What the two kernels are compared by. -/
structure Accounts where
  balance : Cash
  realized : Cash
  fees : Cash
  funding : Cash
  legs : List Legs
  working : List OrderId
  deriving DecidableEq

namespace Kernel

def accounts (k : Kernel) : Accounts where
  balance := k.state.balance
  realized := k.state.realized
  fees := k.state.fees
  funding := k.state.funding
  legs := k.state.holdings.map Holding.legs
  working := k.working

theorem Mirrored.accounts_eq {k v : Kernel} (h : Mirrored k v) : v.accounts = k.accounts := by
  obtain ⟨x, e, e', hk, -, -, -, hv⟩ := h.engines
  unfold accounts
  rw [h.working, hv]
  simp only [State.recast, hk]
  rfl

theorem mirrored_new {start : Cash} {s : State} (hs : s.Built start)
    (hsim : s.matching = .simulated) (hlone : s.holdings.length = 1) (hl0 : s.L0Matched)
    (hoff : s.enforceLiquidation = false) :
    Mirrored (Kernel.new s) (Kernel.new (s.withMatching .venue)) := by
  obtain ⟨x, hx⟩ := List.length_eq_one_iff.mp hlone
  have hmem : x ∈ s.holdings := by
    rw [hx]
    exact List.mem_singleton.mpr rfl
  obtain ⟨e, he⟩ := hl0 x hmem
  have hi : e.instrument = x.instrument := by
    have := hs.engine_instrument x hmem
    rwa [he] at this
  refine ⟨hsim, hoff, rfl, x, e, e, hx, he, hi, rfl, ?_⟩
  show s.withMatching .venue = s.recast (.l0 e) x.mark s.now .venue
  ext1
  case holdings =>
    show s.holdings = s.holdings.map _
    rw [hx, List.map_singleton, Holding.recast, ← he]
  all_goals rfl

/-- **Venue bookkeeping refines simulated bookkeeping.**  With liquidation
disabled and one holding matched by L0, after every event of a run without venue
fills of its own, the venue-matched kernel fed the simulated fills just before
their ticks has the same accounts. -/
theorem venue_accounts_eq {start : Cash} {s : State} (hs : s.Built start)
    (hsim : s.matching = .simulated) (hlone : s.holdings.length = 1) (hl0 : s.L0Matched)
    (hoff : s.enforceLiquidation = false) (events : List Event)
    (hvenue : ∀ fill fee, Event.venueFill fill fee ∉ events) (done rest : List Event)
    (hsplit : events = done ++ rest) :
    (Kernel.new s).venueScript events =
        (Kernel.new s).venueScript done ++ ((Kernel.new s).run done).val.venueScript rest ∧
      ((Kernel.new (s.withMatching .venue)).run ((Kernel.new s).venueScript done)).val.accounts =
        ((Kernel.new s).run done).val.accounts := by
  subst hsplit
  refine ⟨venueScript_append _ _ _, ?_⟩
  have hstart := mirrored_new hs hsim hlone hl0 hoff
  exact (hstart.run (fun fill fee hmem =>
    hvenue fill fee (List.mem_append_left _ hmem))).accounts_eq

theorem venue_accounts_eq_shortRun :
    let s := (State.new 7 ⟨10⟩ flatTable 10000).withoutLiquidation
    ((Kernel.new (s.withMatching .venue)).run ((Kernel.new s).venueScript shortRun)).val.accounts =
        ((Kernel.new s).run shortRun).val.accounts ∧
      ((Kernel.new s).run shortRun).val.state.isFlat = false := by
  have hbuilt : (State.new 7 ⟨10⟩ flatTable 10000).withoutLiquidation.Built 10000 :=
    .withoutLiquidation (.new 7 ⟨10⟩ flatTable)
  have hl0 : (State.new 7 ⟨10⟩ flatTable 10000).withoutLiquidation.L0Matched := by
    intro h hh
    rw [List.mem_singleton.mp hh]
    exact ⟨_, rfl⟩
  have hvenue : ∀ fill fee, Event.venueFill fill fee ∉ shortRun := by
    intro fill fee hmem
    simp [shortRun] at hmem
  exact ⟨(venue_accounts_eq hbuilt rfl rfl hl0 rfl shortRun hvenue shortRun [] (by simp)).2,
    by decide +kernel⟩

/-- A venue's fill in the run itself: simulated matching refuses it, venue
matching books it. -/
def foreignFill : Event :=
  .venueFill ⟨⟨1, 1⟩, 7, 1, 1, .buy, .opening, 100, 5, .taker⟩ .unsaid

theorem foreignFill_accounts_ne :
    let s := (State.new 7 ⟨10⟩ flatTable 10000).withoutLiquidation
    s.Built 10000 ∧ s.matching = .simulated ∧ s.holdings.length = 1 ∧
      (Kernel.new s).venueScript [foreignFill] = [foreignFill] ∧
      ¬ ((Kernel.new (s.withMatching .venue)).run
          ((Kernel.new s).venueScript [foreignFill])).val.accounts =
        ((Kernel.new s).run [foreignFill]).val.accounts := by
  have hbuilt : (State.new 7 ⟨10⟩ flatTable 10000).withoutLiquidation.Built 10000 :=
    .withoutLiquidation (.new 7 ⟨10⟩ flatTable)
  exact ⟨hbuilt, rfl, rfl, rfl, by decide +kernel⟩

end Kernel
