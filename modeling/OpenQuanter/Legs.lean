/-
# One leg of a holding

What opening and closing part of a leg do to its size, its cost and the profit
(`ensures_openLeg`, `ensures_closeLeg`).  The cost is exact: what a partial close
does not realize stays in the cost of what is left.  No positivity of prices is
used.
-/
import OpenQuanter.Identity

open Logged

/-! ## Sizes -/

theorem lt_iff_toInt {a b : Int64} : a < b ↔ a.toInt < b.toInt := Int64.lt_iff_toInt_lt

theorem toInt_eq_zero {n : Int64} : n.toInt = 0 ↔ n = 0 :=
  ⟨fun h => Int64.toInt_inj.mp (by simpa using h), fun h => by rw [h]; rfl⟩

theorem toInt_ne_zero {n : Int64} (h : n ≠ 0) : n.toInt ≠ 0 := toInt_eq_zero.not.mpr h

/-- The sign of a size that is not zero. -/
theorem sign_toInt {n : Int64} (h : n ≠ 0) : n.toInt.sign = if 0 < n then 1 else -1 := by
  have hne := toInt_ne_zero h
  split_ifs with hpos
  · exact Int.sign_eq_one_of_pos (lt_iff_toInt.mp hpos)
  · have hle : ¬ 0 < n.toInt := fun hn => hpos (lt_iff_toInt.mpr hn)
    exact Int.sign_eq_neg_one_of_neg (by omega)

theorem satAbs_of_pos {q : Int64} (h : 0 < q) : satAbs q = q := by
  have hpos : 0 < q.toInt := lt_iff_toInt.mp h
  unfold satAbs
  rw [abs_of_pos hpos]
  apply Int64.toInt_inj.mp
  rw [toInt_ofIntClamp_of_fits (fitsI64_toInt q)]

/-- Absolute values short of the one that has none. -/
theorem toInt_satAbs (q : Int64) : (satAbs q).toInt = min |q.toInt| (2 ^ 63 - 1) := by
  have h := fitsI64_toInt q
  unfold satAbs
  by_cases hmin : q.toInt = -2 ^ 63
  · rw [hmin]
    decide +kernel
  · have habs : |q.toInt| ≤ 2 ^ 63 - 1 := by
      rw [abs_le]
      exact ⟨by have := h.1; omega, by have := h.2; omega⟩
    have hfits : FitsI64 |q.toInt| := ⟨by have := abs_nonneg q.toInt; omega, by omega⟩
    rw [toInt_ofIntClamp_of_fits hfits, min_eq_left habs]

theorem satAbs_pos {q : Int64} (h : q ≠ 0) : 0 < (satAbs q).toInt := by
  rw [toInt_satAbs]
  exact lt_min (abs_pos.mpr (toInt_ne_zero h)) (by norm_num)

/-- A size of one sign, as an integer. -/
theorem toInt_neg_one_mul {n : Int64} (h : 0 < n) : ((-1) * n).toInt = -n.toInt := by
  have hn := fitsI64_toInt n
  have hpos : 0 < n.toInt := lt_iff_toInt.mp h
  rw [Int64.toInt_mul]
  have hone : (-1 : Int64).toInt = -1 := rfl
  rw [hone, Int.bmod_eq_of_le]
  · omega
  · have := hn.2; omega
  · omega

theorem toInt_min (a b : Int64) : (min a b).toInt = min a.toInt b.toInt := by
  show (if a ≤ b then a else b).toInt = _
  split_ifs with h
  · exact (min_eq_left (Int64.le_iff_toInt_le.mp h)).symm
  · exact (min_eq_right (le_of_lt (lt_iff_toInt.mp (Int64.not_le.mp h)))).symm

theorem toInt_max (a b : Int64) : (max a b).toInt = max a.toInt b.toInt := by
  show (if a ≤ b then b else a).toInt = _
  split_ifs with h
  · exact (max_eq_right (Int64.le_iff_toInt_le.mp h)).symm
  · exact (max_eq_left (le_of_lt (lt_iff_toInt.mp (Int64.not_le.mp h)))).symm

/-- What a fill of positive size says through its signed size. -/
theorem positionDelta_facts {fill : Fill} (hqty : 0 < fill.qty) :
    satAbs fill.positionDelta = fill.qty ∧ signum fill.positionDelta = fill.side.sign ∧
      (0 < fill.positionDelta ↔ fill.side = .buy) ∧
      (fill.side.sign = 1 ∨ fill.side.sign = -1) := by
  have hpos : 0 < fill.qty.toInt := lt_iff_toInt.mp hqty
  have hfits := fitsI64_toInt fill.qty
  unfold Fill.positionDelta
  rcases hside : fill.side with _ | _
  · have hone : fill.qty * Side.buy.sign = fill.qty := Int64.mul_one _
    rw [hone]
    refine ⟨satAbs_of_pos hqty, ?_, by simpa using hqty, Or.inl rfl⟩
    rw [signum, if_pos hqty]
    rfl
  · have hneg : (fill.qty * Side.sell.sign).toInt = -fill.qty.toInt := by
      show (fill.qty * (-1)).toInt = _
      rw [Int64.mul_comm]
      exact toInt_neg_one_mul hqty
    have hnot : ¬ 0 < fill.qty * Side.sell.sign := by
      intro h
      have := lt_iff_toInt.mp h
      have hz : (0 : Int64).toInt = 0 := rfl
      omega
    refine ⟨?_, ?_, by simp [hnot], Or.inr rfl⟩
    · unfold satAbs
      rw [hneg, abs_of_neg (by omega), neg_neg]
      exact Int64.ofIntClamp_toInt _
    · have hne : fill.qty * Side.sell.sign ≠ 0 := by
        intro hz
        rw [hz] at hneg
        have hz' : (0 : Int64).toInt = 0 := rfl
        omega
      rw [signum, if_neg hnot, if_neg hne]
      rfl

/-! ## Notional values -/

theorem ensures_notionalWide (c : Contract) (price : PriceTicks) (qty : QtyLots) :
    Ensures {Fault.cash, Fault.wide} (Books.notionalWide c price qty)
      (fun n => n = c.notionalExact price qty) := by
  refine ensures_note (fun hfits => ?_)
  have hp := fitsI64_toInt price
  have hq : 0 ≤ (satAbs qty).toInt ∧ (satAbs qty).toInt ≤ 2 ^ 63 - 1 := by
    rw [toInt_satAbs]
    exact ⟨le_min (abs_nonneg _) (by norm_num), min_le_right _ _⟩
  have hinner : FitsI128 (price.toInt * (satAbs qty).toInt) := by
    obtain ⟨hp₁, hp₂⟩ := hp
    obtain ⟨hq₁, hq₂⟩ := hq
    constructor <;> nlinarith
  unfold Contract.notionalWide
  rw [satWide_of_fits hinner]
  exact satWide_of_fits (hfits (Or.inr rfl))

theorem ensures_wide (v : Int) :
    Ensures {Fault.cash, Fault.wide} (Books.wide v) (fun w => w = v) :=
  ensures_note (fun hfits => satWide_of_fits (hfits (Or.inr rfl)))

theorem ensures_narrow (v : Int) :
    Ensures {Fault.cash, Fault.wide} (Books.narrow v) (fun c => c.toInt = v) :=
  ensures_note (fun hfits => toInt_ofIntClamp_of_fits (hfits (Or.inr rfl)))

/-! ## Closing a cost -/

/-- Closing everything allocates the whole cost. -/
theorem allocated_of_full {cost size : Int} (hsize : 0 < size) :
    cost.tdiv size * size + (cost.tmod size * size).tdiv size = cost := by
  rw [Int.mul_tdiv_cancel _ (by omega)]
  have := Int.tdiv_mul_add_tmod cost size
  omega

/-- The profit of a close is what it paid less what it took off the cost; a full
close takes all of it. -/
theorem ensures_closeCost {cost : Int} {held : QtyLots} (hheld : held ≠ 0) (closing : Int64)
    (exit : Int) :
    Ensures {Fault.cash, Fault.wide} (closeCost cost held closing exit)
      (fun p => p.2.toInt = held.toInt.sign * (exit - cost + p.1) ∧
        (closing = satAbs held → p.1 = 0)) := by
  have hsize := satAbs_pos hheld
  unfold closeCost
  simp only
  generalize hsg : (if 0 < held then (1 : Int) else -1) = sign
  have hsgn : sign = held.toInt.sign := hsg.symm.trans (sign_toInt hheld).symm
  have hsq : sign * sign = 1 := by
    rw [← hsg]
    split_ifs <;> rfl
  refine ensures_bind (ensures_wide _) (fun whole hwhole => ?_)
  refine ensures_bind (ensures_wide _) (fun allocated hallocated => ?_)
  refine ensures_bind (ensures_wide _) (fun gain hgain => ?_)
  refine ensures_bind (ensures_wide _) (fun pnl hpnl => ?_)
  -- a full close has no remainder to correct for
  have hfull : closing = satAbs held →
      (cost.tmod (satAbs held).toInt * closing.toInt).tmod (satAbs held).toInt = 0 ∧
        pnl = sign * (exit - cost) := by
    intro heq
    have halloc : allocated = cost := by
      rw [hallocated, hwhole, heq]
      exact allocated_of_full hsize
    refine ⟨?_, ?_⟩
    · rw [heq]
      exact Int.mul_tmod_left _ _
    · rw [hpnl, hgain, halloc]
      exact mul_comm _ _
  generalize hadj : (if (cost.tmod (satAbs held).toInt * closing.toInt).tmod
    (satAbs held).toInt ≠ 0 ∧
    ((0 < pnl ∧ 0 < sign) ∨ (pnl < 0 ∧ sign < 0)) then pnl - sign else pnl) = pnl'
  have hfull' : closing = satAbs held → pnl' = sign * (exit - cost) := by
    intro heq
    obtain ⟨hrem, hp⟩ := hfull heq
    rw [← hadj, if_neg (by simp [hrem]), hp]
  refine ensures_bind (ensures_wide _) (fun returned hreturned => ?_)
  refine ensures_bind (ensures_wide _) (fun consumed hconsumed => ?_)
  have hback : sign * (exit - consumed) = pnl' := by
    rw [hconsumed, hreturned]
    have : sign * (exit - (exit - pnl' * sign)) = pnl' * (sign * sign) := by ring
    rw [this, hsq, mul_one]
  by_cases heq : closing = satAbs held
  · rw [if_pos heq]
    refine ensures_bind (ensures_pure rfl : Ensures _ _ (fun left => left = (0 : Int))) ?_
    intro left hleft
    refine ensures_bind (ensures_narrow _) (fun cash hcash => ensures_pure ⟨?_, fun _ => hleft⟩)
    rw [hcash, hfull' heq, hleft, ← hsgn]
    ring
  · rw [if_neg heq]
    refine ensures_bind (ensures_wide _) (fun left hleft => ?_)
    refine ensures_bind (ensures_narrow _)
      (fun cash hcash => ensures_pure ⟨?_, fun h => absurd h heq⟩)
    rw [hcash, ← hback, hleft, ← hsgn]
    ring

/-! ## One leg -/

namespace Holding

/-- The size of a leg. -/
def legQty (h : Holding) (short : Bool) : QtyLots := (h.leg short).1

/-- The cost of a leg. -/
def legCost (h : Holding) (short : Bool) : Int := (h.leg short).2.2

/-- The cost of a leg with the sign of its size. -/
def signedCost (h : Holding) (short : Bool) : Int := (h.legQty short).toInt.sign * h.legCost short

/-- `t` is `h` with one leg changed. -/
structure SameBut (short : Bool) (h t : Holding) : Prop where
  contract : t.contract = h.contract
  instrument : t.instrument = h.instrument
  otherQty : t.legQty (!short) = h.legQty (!short)
  otherCost : t.legCost (!short) = h.legCost (!short)

theorem SameBut.trans {short : Bool} {h t u : Holding} (hst : SameBut short h t)
    (htu : SameBut short t u) : SameBut short h u :=
  ⟨htu.contract.trans hst.contract, htu.instrument.trans hst.instrument,
    htu.otherQty.trans hst.otherQty, htu.otherCost.trans hst.otherCost⟩

theorem sameBut_setLeg (h : Holding) (short : Bool) (qty : QtyLots) (entry : PriceTicks)
    (cost : Int) : SameBut short h (h.setLeg short qty entry cost) := by
  cases short <;> exact ⟨rfl, rfl, rfl, rfl⟩

@[simp] theorem legQty_setLeg (h : Holding) (short : Bool) (qty : QtyLots) (entry : PriceTicks)
    (cost : Int) : (h.setLeg short qty entry cost).legQty short = qty := by
  cases short <;> rfl

/-- A leg's cost is what it was set to, unless the leg is empty. -/
theorem legCost_setLeg (h : Holding) (short : Bool) (qty : QtyLots) (entry : PriceTicks)
    (cost : Int) :
    (h.setLeg short qty entry cost).legCost short = if qty = 0 then 0 else cost := by
  have hvalue : ∀ c : Contract, (⟨qty, entry, cost⟩ : EntryCost).value c qty entry =
      if qty = 0 then 0 else cost := by
    intro c
    by_cases hq : qty = 0
    · simp [EntryCost.value, hq]
    · rw [EntryCost.value_of_set c hq, if_neg hq]
  cases short
  · exact hvalue h.contract
  · exact hvalue h.contract

/-- An empty leg costs nothing. -/
theorem legCost_of_flat {h : Holding} {short : Bool} (hflat : h.legQty short = 0) :
    h.legCost short = 0 := by
  cases short
  · have hq : h.qty = 0 := hflat
    show h.longCost.value h.contract h.qty h.entry = 0
    rw [hq, EntryCost.value_zero]
  · have hq : h.shortQty = 0 := hflat
    show h.shortCost.value h.contract h.shortQty h.shortEntry = 0
    rw [hq, EntryCost.value_zero]

theorem signedCost_of_flat {h : Holding} {short : Bool} (hflat : h.legQty short = 0) :
    h.signedCost short = 0 := by
  unfold signedCost
  rw [legCost_of_flat hflat, mul_zero]

/-- A leg that is not short carries its cost as it is. -/
theorem signedCost_of_nonneg {h : Holding} {short : Bool} (hq : 0 ≤ (h.legQty short).toInt) :
    h.signedCost short = h.legCost short := by
  unfold signedCost
  rcases lt_or_eq_of_le hq with hpos | hz
  · rw [Int.sign_eq_one_of_pos hpos, one_mul]
  · rw [legCost_of_flat (toInt_eq_zero.mp hz.symm), mul_zero]

/-- A leg that is not long carries its cost negated. -/
theorem signedCost_of_nonpos {h : Holding} {short : Bool} (hq : (h.legQty short).toInt ≤ 0) :
    h.signedCost short = -h.legCost short := by
  unfold signedCost
  rcases lt_or_eq_of_le hq with hneg | hz
  · rw [Int.sign_eq_neg_one_of_neg hneg, neg_one_mul]
  · rw [legCost_of_flat (toInt_eq_zero.mp hz), mul_zero, neg_zero]

/-- Growing a leg in its own direction adds the notional to its cost. -/
theorem ensures_openLeg {h : Holding} {short : Bool} {qty : QtyLots} {price : PriceTicks}
    {sign : Int64} (hqty : 0 < qty) (hsign : sign = 1 ∨ sign = -1)
    (hdir : h.legQty short = 0 ∨ (h.legQty short).toInt.sign = sign.toInt) :
    Ensures {Fault.cash, Fault.wide} (h.openLeg short qty price sign)
      (fun t => SameBut short h t ∧ (t.legQty short).toInt.sign = sign.toInt ∧
        t.signedCost short =
          h.signedCost short + sign.toInt * h.contract.notionalExact price qty) := by
  have hne : qty ≠ 0 := fun hz => by simp [hz] at hqty
  have hqpos : 0 < qty.toInt := lt_iff_toInt.mp hqty
  unfold openLeg
  rw [if_neg hne]
  simp only
  refine ensures_bind (ensures_of_val rfl :
    Ensures _ _ (fun size => size = Int64.ofIntClamp
      ((satAbs (h.legQty short)).toInt + qty.toInt))) (fun size hsize => ?_)
  refine ensures_bind (ensures_notionalWide _ _ _) (fun n hn => ?_)
  refine ensures_bind (ensures_wide _) (fun value hvalue => ensures_pure ?_)
  have hsizepos : 0 < size := by
    have habs : 0 ≤ (satAbs (h.legQty short)).toInt := by
      rw [toInt_satAbs]
      exact le_min (abs_nonneg _) (by norm_num)
    apply lt_iff_toInt.mpr
    rw [hsize]
    exact toInt_ofIntClamp_pos (by omega)
  have hnew : (sign * size).toInt.sign = sign.toInt ∧ sign * size ≠ 0 := by
    have hspos : 0 < size.toInt := lt_iff_toInt.mp hsizepos
    rcases hsign with rfl | rfl
    · rw [Int64.one_mul, Int.sign_eq_one_of_pos hspos]
      refine ⟨rfl, fun hz => ?_⟩
      simp [hz] at hspos
    · have hneg := toInt_neg_one_mul hsizepos
      rw [hneg, Int.sign_eq_neg_one_of_neg (by omega)]
      refine ⟨rfl, fun hz => ?_⟩
      rw [hz] at hneg
      have hz' : (0 : Int64).toInt = 0 := rfl
      omega
  refine ⟨sameBut_setLeg _ _ _ _ _, ?_, ?_⟩
  · rw [legQty_setLeg]
    exact hnew.1
  · have hold : sign.toInt * h.legCost short = h.signedCost short := by
      unfold signedCost
      rcases hdir with hz | hd
      · rw [legCost_of_flat hz]
        simp
      · rw [hd]
    rw [signedCost, legQty_setLeg, legCost_setLeg, if_neg hnew.2, hnew.1, hvalue, hn]
    show sign.toInt * (h.legCost short + _) = _
    rw [mul_add, hold]

/-- What is left of a leg after closing part of it. -/
theorem toInt_left {held closing : Int64} (hc : 0 ≤ closing.toInt)
    (hle : closing.toInt ≤ (satAbs held).toInt) :
    (held - closing * (if 0 < held then 1 else -1)).toInt =
      held.toInt - held.toInt.sign * closing.toInt := by
  have hh := fitsI64_toInt held
  rw [toInt_satAbs] at hle
  have hle' : closing.toInt ≤ |held.toInt| := le_trans hle (min_le_left _ _)
  have hmax : closing.toInt ≤ 2 ^ 63 - 1 := le_trans hle (min_le_right _ _)
  by_cases hpos : 0 < held
  · have hp : 0 < held.toInt := lt_iff_toInt.mp hpos
    rw [abs_of_pos hp] at hle'
    rw [if_pos hpos, Int64.mul_one, Int64.toInt_sub, Int.sign_eq_one_of_pos hp, one_mul,
      Int.bmod_eq_of_le]
    · omega
    · have := hh.2; omega
  · have hnp : ¬ 0 < held.toInt := fun h => hpos (lt_iff_toInt.mpr h)
    have hneg : (closing * (-1)).toInt = -closing.toInt := by
      have hone : (-1 : Int64).toInt = -1 := rfl
      rw [Int64.toInt_mul, hone, Int.bmod_eq_of_le]
      · omega
      · omega
      · omega
    rw [if_neg hpos, Int64.toInt_sub, hneg]
    by_cases hz : held.toInt = 0
    · rw [hz] at hle' ⊢
      simp only [abs_zero] at hle'
      have hc0 : closing.toInt = 0 := by omega
      simp [hc0]
    · have hlt : held.toInt < 0 := by omega
      rw [abs_of_neg hlt] at hle'
      rw [Int.sign_eq_neg_one_of_neg hlt, Int.bmod_eq_of_le]
      · omega
      · have := hh.1; omega
      · omega

/-- A leg closed to nothing was closed by its whole size. -/
theorem closed_of_left_eq_zero {held closing left : Int64} (hheld : held ≠ 0)
    (hle : closing.toInt ≤ (satAbs held).toInt)
    (hleft : left.toInt = held.toInt - held.toInt.sign * closing.toInt) (hz : left = 0) :
    closing = satAbs held := by
  have hz' : left.toInt = 0 := toInt_eq_zero.mpr hz
  have hsq := Int.sign_mul_abs held.toInt
  have hcl : held.toInt.sign * closing.toInt = held.toInt.sign * |held.toInt| := by
    rw [hsq]
    omega
  have heq := mul_left_cancel₀ (by simpa using toInt_ne_zero hheld) hcl
  apply Int64.toInt_inj.mp
  rw [toInt_satAbs] at hle ⊢
  rw [heq] at hle ⊢
  exact (min_eq_left (le_trans hle (min_le_right _ _))).symm

/-- What is left of a leg has its direction. -/
theorem sign_left {held closing left : Int64} (hheld : held ≠ 0)
    (hle : closing.toInt ≤ (satAbs held).toInt)
    (hleft : left.toInt = held.toInt - held.toInt.sign * closing.toInt) (hnz : left ≠ 0) :
    left.toInt.sign = held.toInt.sign := by
  have hnz' := toInt_ne_zero hnz
  have hle' : closing.toInt ≤ |held.toInt| := by
    rw [toInt_satAbs] at hle
    exact le_trans hle (min_le_left _ _)
  rcases lt_or_gt_of_ne (toInt_ne_zero hheld) with hneg | hpos
  · rw [Int.sign_eq_neg_one_of_neg hneg] at hleft ⊢
    rw [abs_of_neg hneg] at hle'
    exact Int.sign_eq_neg_one_of_neg (by omega)
  · rw [Int.sign_eq_one_of_pos hpos] at hleft ⊢
    rw [abs_of_pos hpos] at hle'
    exact Int.sign_eq_one_of_pos (by omega)

/-- Shrinking a leg pays the notional of what was closed, and what that does not
realize stays in the cost. -/
theorem ensures_closeLeg {h : Holding} {short : Bool} {qty : QtyLots} {price : PriceTicks}
    (hqty : 0 < qty) (hheld : h.legQty short ≠ 0) :
    Ensures {Fault.cash, Fault.wide} (h.closeLeg short qty price)
      (fun p => SameBut short h p.1 ∧
        p.2.toInt + h.signedCost short = p.1.signedCost short + (h.legQty short).toInt.sign *
          h.contract.notionalExact price (min qty (satAbs (h.legQty short))) ∧
        (p.1.legQty short).toInt = (h.legQty short).toInt - (h.legQty short).toInt.sign *
          (min qty (satAbs (h.legQty short))).toInt) := by
  unfold closeLeg
  simp only
  generalize hheldeq : h.legQty short = held at hheld
  have hleg1 : (h.leg short).1 = held := hheldeq
  rw [hleg1, if_neg hheld]
  generalize hclose : min qty (satAbs held) = closing
  have hclosing : 0 < closing.toInt ∧ closing.toInt ≤ (satAbs held).toInt := by
    have hqpos : 0 < qty.toInt := lt_iff_toInt.mp hqty
    have habs := satAbs_pos hheld
    rw [← hclose, toInt_min]
    exact ⟨lt_min hqpos habs, min_le_right _ _⟩
  refine ensures_bind (ensures_notionalWide _ _ _) (fun exit hexit => ?_)
  refine ensures_bind (ensures_closeCost hheld closing exit) ?_
  rintro ⟨value, pnl⟩ ⟨hpnl, hzero⟩
  simp only at hpnl hzero
  refine ensures_pure ⟨sameBut_setLeg _ _ _ _ _, ?_, ?_⟩
  · have hleft := toInt_left (le_of_lt hclosing.1) hclosing.2
    simp only
    generalize hl : held - closing * (if 0 < held then 1 else -1) = left at hleft ⊢
    have hcost : h.legCost short = (h.leg short).2.2 := rfl
    have hsc : h.signedCost short = held.toInt.sign * h.legCost short := by
      rw [signedCost, hheldeq]
    have hnew : (h.setLeg short left (if left = 0 then 0 else (h.leg short).2.1) value).signedCost
        short = held.toInt.sign * value := by
      rw [signedCost, legQty_setLeg, legCost_setLeg]
      by_cases hlz : left = 0
      · -- a leg closed to nothing had its whole cost taken
        rw [if_pos hlz, toInt_eq_zero.mpr hlz,
          hzero (closed_of_left_eq_zero hheld hclosing.2 hleft hlz)]
        simp
      · rw [if_neg hlz, sign_left hheld hclosing.2 hleft hlz]
    rw [hnew, hsc, hpnl, hexit, ← hcost]
    ring
  · rw [legQty_setLeg]
    exact toInt_left (le_of_lt hclosing.1) hclosing.2

end Holding
