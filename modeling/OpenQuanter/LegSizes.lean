/-
# What a fill does to the sizes of the legs

Sizes do not depend on prices.  A fill moves the leg it is for by its lots, with their
sign, as long as no size leaves the range of an `i64` and no close takes more than its leg
holds (`exists_of_applyFill`).
-/
import OpenQuanter.Conservation
import OpenQuanter.HedgeMode

/-- The lots of a fill with the sign of its side. -/
def Fill.signedLots (fill : Fill) : Int := fill.side.sign.toInt * fill.qty.toInt

/-- Whether a fill is for the short leg; a one-way account has none. -/
def Fill.onShort (mode : PositionMode) (fill : Fill) : Bool :=
  match mode with
  | .oneWay => false
  | .hedge => State.hedgeShort fill

theorem Side.sign_cases (side : Side) : side.sign = 1 ∨ side.sign = -1 := by
  cases side
  · exact .inl rfl
  · exact .inr rfl

/-- The magnitude of a size short of the one that has none. -/
theorem toInt_satAbs_of_lt {q : Int64} (h : |q.toInt| < 2 ^ 63) : (satAbs q).toInt = |q.toInt| := by
  rw [toInt_satAbs]
  exact min_eq_left (by omega)

namespace Holding

variable {h : Holding} {short : Bool} {qty : QtyLots}

/-- A leg grows by what is opened. -/
theorem toInt_legQty_openLeg {sign : Int64} (hqty : 0 < qty) (hsign : sign = 1 ∨ sign = -1)
    (hold : |(h.legQty short).toInt| < 2 ^ 63) (hdir : 0 ≤ sign.toInt * (h.legQty short).toInt)
    (hnew : |(h.legQty short).toInt + sign.toInt * qty.toInt| < 2 ^ 63) (price : PriceTicks) :
    ((h.openLeg short qty price sign).val.legQty short).toInt =
      (h.legQty short).toInt + sign.toInt * qty.toInt := by
  have hpos : 0 < qty.toInt := lt_iff_toInt.mp hqty
  have hne : qty ≠ 0 := toInt_eq_zero.not.mp (by omega)
  unfold openLeg
  rw [if_neg hne]
  show (Holding.legQty (h.setLeg short (sign * Int64.ofIntClamp
    ((satAbs (h.legQty short)).toInt + qty.toInt)) _ _) short).toInt = _
  rw [legQty_setLeg, toInt_satAbs_of_lt hold]
  generalize (h.legQty short).toInt = held at hold hdir hnew ⊢
  rcases hsign with rfl | rfl
  · -- a long leg, which is its own magnitude
    have hone : (1 : Int64).toInt = 1 := rfl
    rw [hone] at hdir hnew ⊢
    rw [one_mul] at hdir hnew ⊢
    rw [abs_of_nonneg hdir, Int64.one_mul, toInt_ofIntClamp_of_fits]
    exact ⟨by omega, (abs_lt.mp hnew).2⟩
  · have hone : (-1 : Int64).toInt = -1 := rfl
    rw [hone] at hdir hnew ⊢
    have hsum : -held + qty.toInt < 2 ^ 63 := by
      have := (abs_lt.mp hnew).1
      omega
    rw [abs_of_nonpos (by omega), toInt_neg_one_mul (lt_iff_toInt.mpr ?_),
      toInt_ofIntClamp_of_fits ⟨by omega, hsum⟩]
    · omega
    · show (0 : Int64).toInt < _
      exact toInt_ofIntClamp_pos (by omega)

/-- A leg shrinks by what is closed, if it holds that much. -/
theorem toInt_legQty_closeLeg (hqty : 0 < qty) (hold : |(h.legQty short).toInt| < 2 ^ 63)
    (hle : qty.toInt ≤ |(h.legQty short).toInt|) (price : PriceTicks) :
    ((h.closeLeg short qty price).val.1.legQty short).toInt =
      (h.legQty short).toInt - (h.legQty short).toInt.sign * qty.toInt := by
  have hpos : 0 < qty.toInt := lt_iff_toInt.mp hqty
  have hheld : h.legQty short ≠ 0 := by
    intro hzero
    rw [hzero] at hle
    have hnone : |(0 : Int64).toInt| = 0 := rfl
    omega
  have hwithin : qty.toInt ≤ (satAbs (h.legQty short)).toInt := by rwa [toInt_satAbs_of_lt hold]
  have hmin : min qty (satAbs (h.legQty short)) = qty := by
    apply Int64.toInt_inj.mp
    rw [toInt_min, min_eq_left hwithin]
  have hnone : (h.leg short).1 ≠ 0 := hheld
  unfold closeLeg
  simp only [if_neg hnone]
  show (Holding.legQty (h.setLeg short (h.legQty short - min qty (satAbs (h.legQty short)) *
    (if 0 < h.legQty short then 1 else -1)) _ _) short).toInt = _
  rw [legQty_setLeg, hmin]
  exact toInt_left hpos.le hwithin

theorem sameBut_openLeg (h : Holding) (short : Bool) (qty : QtyLots) (price : PriceTicks)
    (sign : Int64) : SameBut short h (h.openLeg short qty price sign).val := by
  unfold openLeg
  split
  · cases short <;> exact ⟨rfl, rfl, rfl, rfl⟩
  · exact sameBut_setLeg _ _ _ _ _

theorem sameBut_closeLeg (h : Holding) (short : Bool) (qty : QtyLots) (price : PriceTicks) :
    SameBut short h (h.closeLeg short qty price).val.1 := by
  unfold closeLeg
  simp only
  split
  · cases short <;> exact ⟨rfl, rfl, rfl, rfl⟩
  · exact sameBut_setLeg _ _ _ _ _

end Holding

namespace State

variable {s : State} {h : Holding} {fill : Fill}

/-- The only holding of an account is `h` with one leg moved by some lots. -/
def Moved (h : Holding) (short : Bool) (lots : Int) (s : State) : Prop :=
  ∃ h', s.holdings = [h'] ∧ h.SameBut short h' ∧
    (h'.legQty short).toInt = (h.legQty short).toInt + lots

/-- Writing the only holding. -/
theorem holdings_setAt_of_lone (hs : s.holdings = [h]) (h' : Holding) :
    (s.setAt 0 h').holdings = [h'] := by
  show s.holdings.modify 0 _ = _
  rw [hs]
  rfl

theorem holdingsAt_of_lone (hs : s.holdings = [h]) : s.holdingsAt 0 = h := by
  simp [holdingsAt, hs]

/-- Opening on the only holding. -/
theorem moved_openLegAt (hs : s.holdings = [h]) {short : Bool} {qty : QtyLots} {sign : Int64}
    (hqty : 0 < qty) (hsign : sign = 1 ∨ sign = -1) (hold : |(h.legQty short).toInt| < 2 ^ 63)
    (hdir : 0 ≤ sign.toInt * (h.legQty short).toInt)
    (hnew : |(h.legQty short).toInt + sign.toInt * qty.toInt| < 2 ^ 63) (price : PriceTicks) :
    Moved h short (sign.toInt * qty.toInt) (s.openLegAt 0 short qty price sign).val := by
  refine ⟨(h.openLeg short qty price sign).val, ?_, h.sameBut_openLeg short qty price sign,
    Holding.toInt_legQty_openLeg hqty hsign hold hdir hnew price⟩
  show (s.setAt 0 ((s.holdingsAt 0).openLeg short qty price sign).val).holdings = _
  rw [holdings_setAt_of_lone hs, holdingsAt_of_lone hs]

/-- Closing on the only holding. -/
theorem moved_closeLegAt (hs : s.holdings = [h]) {short : Bool} {qty : QtyLots} (hqty : 0 < qty)
    (hold : |(h.legQty short).toInt| < 2 ^ 63) (hle : qty.toInt ≤ |(h.legQty short).toInt|)
    (price : PriceTicks) :
    Moved h short (-((h.legQty short).toInt.sign * qty.toInt))
      (s.closeLegAt 0 short qty price).val := by
  refine ⟨(h.closeLeg short qty price).val.1, ?_, h.sameBut_closeLeg short qty price, ?_⟩
  · show (s.setAt 0 ((s.holdingsAt 0).closeLeg short qty price).val.1).holdings = _
    rw [holdings_setAt_of_lone hs, holdingsAt_of_lone hs]
  · rw [Holding.toInt_legQty_closeLeg hqty hold hle price, sub_eq_add_neg]

/-- Moved twice is moved by the sum. -/
theorem Moved.trans {short : Bool} {first second : Int} {h' : Holding} {t : State}
    (hsame : h.SameBut short h') (hfirst : (h'.legQty short).toInt = (h.legQty short).toInt + first)
    (h₂ : Moved h' short second t) : Moved h short (first + second) t := by
  obtain ⟨h'', ht, hsame', hsecond⟩ := h₂
  exact ⟨h'', ht, hsame.trans hsame', by rw [hsecond, hfirst, add_assoc]⟩

/-- A one-way fill against the position closes, and opens what it has left. -/
theorem moved_against (hs : s.holdings = [h]) (hqty : 0 < fill.qty)
    (hne : h.legQty false ≠ 0) (hold : |(h.legQty false).toInt| < 2 ^ 63)
    (hside : (h.legQty false).toInt.sign = -fill.side.sign.toInt) :
    Moved h false fill.signedLots
      (do
        let closed := min fill.qty (satAbs (h.legQty false))
        let s ← s.closeLegAt 0 false closed fill.price
        let remainder := fill.qty - closed
        if 0 < remainder then s.openLegAt 0 false remainder fill.price fill.side.sign
        else pure s : Books State).val := by
  have hpos : 0 < fill.qty.toInt := lt_iff_toInt.mp hqty
  have hheld : 0 < |(h.legQty false).toInt| := abs_pos.mpr (toInt_ne_zero hne)
  have hclosed : (min fill.qty (satAbs (h.legQty false))).toInt =
      min fill.qty.toInt |(h.legQty false).toInt| := by
    rw [toInt_min, toInt_satAbs_of_lt hold]
  have hremainder := toInt_sub_min hqty hne
  have hmagnitude := Int.sign_mul_abs (h.legQty false).toInt
  generalize min fill.qty (satAbs (h.legQty false)) = closed at hclosed hremainder ⊢
  obtain ⟨h', hs', hsame, hleft⟩ := @moved_closeLegAt s h hs false closed
    (lt_iff_toInt.mpr (hclosed ▸ lt_min hpos hheld)) hold (hclosed ▸ min_le_right _ _) fill.price
  rw [hside, neg_mul, neg_neg] at hleft
  rw [hside] at hmagnitude
  rw [Logged.val_bind]
  generalize (s.closeLegAt 0 false closed fill.price).val = t at hs'
  have hsplit : fill.signedLots = fill.side.sign.toInt * closed.toInt +
      fill.side.sign.toInt * (fill.qty - closed).toInt := by
    rw [hremainder, Fill.signedLots]
    ring
  by_cases hmore : 0 < fill.qty - closed
  · -- all of it was closed, and what is left of the fill opens
    have hmore' : 0 < (fill.qty - closed).toInt := lt_iff_toInt.mp hmore
    have hflat : (h'.legQty false).toInt = 0 := by
      have hall : closed.toInt = |(h.legQty false).toInt| := by omega
      rw [hleft, hall]
      linarith
    have hfits := fitsI64_toInt fill.qty
    have hopened : |(h'.legQty false).toInt + fill.side.sign.toInt * (fill.qty - closed).toInt| <
        2 ^ 63 := by
      have hbound : (fill.qty - closed).toInt < 2 ^ 63 := by
        have := hfits.2
        omega
      rw [hflat, zero_add]
      rcases fill.side.sign_cases with hsign | hsign
      · rw [hsign, show (1 : Int64).toInt = 1 from rfl, one_mul, abs_of_pos hmore']
        exact hbound
      · rw [hsign, show (-1 : Int64).toInt = -1 from rfl, neg_one_mul, abs_neg,
          abs_of_pos hmore']
        exact hbound
    rw [if_pos hmore, hsplit]
    exact Moved.trans hsame hleft (moved_openLegAt hs' hmore fill.side.sign_cases
      (by rw [hflat]; decide) (by rw [hflat, mul_zero]) hopened fill.price)
  · have hnone : (fill.qty - closed).toInt = 0 := by
      have : ¬ 0 < (fill.qty - closed).toInt := fun hlt => hmore (lt_iff_toInt.mpr hlt)
      omega
    rw [if_neg hmore, hsplit, hnone, mul_zero, add_zero]
    exact ⟨h', hs', hsame, hleft⟩

/-- A one-way fill moves the net position. -/
theorem moved_applyFillNet (hs : s.holdings = [h]) (hqty : 0 < fill.qty)
    (hold : |(h.legQty false).toInt| < 2 ^ 63)
    (hnew : |(h.legQty false).toInt + fill.signedLots| < 2 ^ 63) :
    Moved h false fill.signedLots (s.applyFillNet 0 fill).val := by
  obtain ⟨habs, hsignum, -, -⟩ := positionDelta_facts hqty
  unfold applyFillNet
  simp only [habs, hsignum, holdingsAt_of_lone hs]
  split
  · rename_i hagainst
    exact moved_against hs hqty hagainst.1 hold (sign_of_against hqty hagainst.1 hagainst.2)
  · rename_i halong
    refine moved_openLegAt hs hqty fill.side.sign_cases hold ?_ hnew fill.price
    by_cases hne : h.qty = 0
    · have hzero : (h.legQty false).toInt = 0 := toInt_eq_zero.mpr hne
      rw [hzero, mul_zero]
    · rw [not_and_or, not_not, not_not] at halong
      have hside := sign_of_along hqty hne (halong.resolve_left hne)
      have hmagnitude := Int.sign_mul_self_eq_abs h.qty.toInt
      rw [hside] at hmagnitude
      exact hmagnitude ▸ abs_nonneg h.qty.toInt

/-- The legs of a hedged holding point where they should. -/
structure Directed (h : Holding) : Prop where
  long : 0 ≤ (h.legQty false).toInt
  short : (h.legQty true).toInt ≤ 0

/-- An opening fill has the direction of its leg. -/
theorem Directed.opening (hdir : Directed h) (hoffset : fill.offset = .opening) :
    0 ≤ fill.side.sign.toInt * (h.legQty (hedgeShort fill)).toInt := by
  obtain ⟨hlong, hshort⟩ := hdir
  unfold hedgeShort
  cases hside : fill.side with
  | buy =>
    simp only [hoffset]
    rwa [show Side.buy.sign.toInt = 1 from rfl, one_mul]
  | sell =>
    simp only [hoffset]
    rw [show Side.sell.sign.toInt = -1 from rfl, neg_one_mul]
    omega

/-- A closing fill has the direction against its leg. -/
theorem Directed.closing (hdir : Directed h) (hoffset : fill.offset = .closing)
    (hheld : 0 < |(h.legQty (hedgeShort fill)).toInt|) :
    (h.legQty (hedgeShort fill)).toInt.sign = -fill.side.sign.toInt := by
  obtain ⟨hlong, hshort⟩ := hdir
  have hne := abs_pos.mp hheld
  unfold hedgeShort at hne ⊢
  cases hside : fill.side with
  | buy =>
    simp only [hoffset, hside] at hne ⊢
    rw [Int.sign_eq_neg_one_of_neg (by omega)]
    rfl
  | sell =>
    simp only [hoffset, hside] at hne ⊢
    rw [Int.sign_eq_one_of_pos (by omega)]
    rfl

/-- A hedged fill moves the leg it is for. -/
theorem moved_applyFillHedged (hs : s.holdings = [h]) (hqty : 0 < fill.qty) (hdir : Directed h)
    (hold : |(h.legQty (hedgeShort fill)).toInt| < 2 ^ 63)
    (hnew : |(h.legQty (hedgeShort fill)).toInt + fill.signedLots| < 2 ^ 63)
    (hclose : fill.offset = .closing →
      fill.qty.toInt ≤ |(h.legQty (hedgeShort fill)).toInt|) :
    Moved h (hedgeShort fill) fill.signedLots (s.applyFillHedged 0 fill).val := by
  have hpos : 0 < fill.qty.toInt := lt_iff_toInt.mp hqty
  rw [applyFillHedged_eq]
  cases hoffset : fill.offset with
  | opening => exact moved_openLegAt hs hqty fill.side.sign_cases hold (hdir.opening hoffset) hnew _
  | closing =>
    have hclosed := moved_closeLegAt hs hqty hold (hclose hoffset) fill.price
    rw [hdir.closing hoffset (hpos.trans_le (hclose hoffset)), neg_mul, neg_neg] at hclosed
    exact hclosed

/-- What a fill asks of the position it is applied to. -/
structure Applicable (mode : PositionMode) (h : Holding) (fill : Fill) : Prop where
  instrument : fill.instrument = h.instrument
  qty : 0 < fill.qty
  held : |(h.legQty (fill.onShort mode)).toInt| < 2 ^ 63
  fits : |(h.legQty (fill.onShort mode)).toInt + fill.signedLots| < 2 ^ 63
  directed : mode = .hedge → Directed h
  covered : mode = .hedge → fill.offset = .closing →
    fill.qty.toInt ≤ |(h.legQty (fill.onShort mode)).toInt|

/-- **A fill moves the leg it is for** by its lots. -/
theorem moved_applyFill (hs : s.holdings = [h]) (hfill : Applicable s.mode h fill) :
    Moved h (fill.onShort s.mode) fill.signedLots (s.applyFill fill).val := by
  have hindex : s.holdingIndex fill.instrument = some 0 := by
    simp [holdingIndex, hs, hfill.instrument]
  unfold applyFill
  rw [hindex]
  cases hmode : s.mode with
  | hedge =>
    rw [hmode] at hfill
    exact moved_applyFillHedged hs hfill.qty (hfill.directed rfl) hfill.held hfill.fits
      (hfill.covered rfl)
  | oneWay =>
    rw [hmode] at hfill
    exact moved_applyFillNet hs hfill.qty hfill.held hfill.fits

end State
