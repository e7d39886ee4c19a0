/-
# The prices a liquidation closes at (`oq-core/src/kernel.rs`)

A lone holding is closed at the price the check was made at, and one of several at its own mark
or, before it has one, at the entry of its long leg.  That these are prices at all is an invariant
of every holding (`Holding.Priced`): its mark, once set, is positive, and a leg that is held has a
positive entry, because its cost is worth at least a tick a lot.  Opening a leg keeps that
(`Priced.openLeg`), and so does closing a part of it (`Priced.closeLeg`).
-/
import OpenQuanter.EveryHolding
import OpenQuanter.LegSizes

open Logged

/-! ## What a close leaves of a cost -/

/-- What is allocated to a part of a cost falls short of its share by less than a unit. -/
theorem allocated_share {cost size closing : Int} (hcost : 0 ≤ cost) (hsize : 0 < size)
    (hclosing : 0 ≤ closing) :
    size * (cost.tdiv size * closing + (cost.tmod size * closing).tdiv size) +
        (cost.tmod size * closing).tmod size = cost * closing ∧
      0 ≤ (cost.tmod size * closing).tmod size ∧ (cost.tmod size * closing).tmod size < size ∧
      0 ≤ cost.tdiv size * closing ∧ 0 ≤ (cost.tmod size * closing).tdiv size := by
  have hrem : 0 ≤ cost.tmod size * closing := mul_nonneg (Int.tmod_nonneg _ hcost) hclosing
  have houter := Int.tdiv_mul_add_tmod cost size
  have hinner := Int.tdiv_mul_add_tmod (cost.tmod size * closing) size
  refine ⟨?_, Int.tmod_nonneg _ hrem, Int.tmod_lt_of_pos _ hsize,
    mul_nonneg (Int.tdiv_nonneg hcost hsize.le) hclosing, Int.tdiv_nonneg hrem hsize.le⟩
  calc _ = cost.tdiv size * size * closing + ((cost.tmod size * closing).tdiv size * size +
        (cost.tmod size * closing).tmod size) := by ring
    _ = (cost.tdiv size * size + cost.tmod size) * closing := by rw [hinner, add_mul]
    _ = cost * closing := by rw [houter]

/-- What is left of a cost that is worth a tick a lot is worth a tick for each lot left, also when
the allocation is rounded up. -/
theorem left_worth {cost size closing tick part share : Int} (hsize : 0 < size)
    (hle : closing ≤ size) (hworth : size * tick ≤ cost)
    (hshare : size * share + part = cost * closing)
    (hpart : 0 ≤ part) :
    (size - closing) * tick ≤ cost - share ∧
      (part ≠ 0 → (size - closing) * tick ≤ cost - share - 1) := by
  have hscaled : size * ((size - closing) * tick) + part ≤ size * (cost - share) := by
    have hmul : (size * tick) * (size - closing) ≤ cost * (size - closing) :=
      mul_le_mul_of_nonneg_right hworth (by omega)
    calc size * ((size - closing) * tick) + part
      _ = (size * tick) * (size - closing) + part := by ring
      _ ≤ cost * (size - closing) + part := by omega
      _ = size * (cost - share) := by rw [mul_sub, mul_sub, ← hshare]; ring
  constructor
  · exact le_of_mul_le_mul_left (by omega) hsize
  · intro hne
    have hlt : (size - closing) * tick < cost - share :=
      lt_of_mul_lt_mul_left (by omega) hsize.le
    omega

/-- A wide result that fits. -/
theorem wide_of_fits {v : Int} (h : FitsI128 v) : Ensures ∅ (Books.wide v) (fun w => w = v) :=
  ensures_of_val (satWide_of_fits h)

/-- **What a close leaves of a cost** is still worth a tick a lot. -/
theorem worth_closeCost {cost exit tick : Int} {held : QtyLots} {closing : Int64} (hheld : held ≠ 0)
    (hcost : 0 ≤ cost ∧ cost < 2 ^ 127) (hexit : 0 ≤ exit ∧ exit < 2 ^ 127)
    (hclosing : 0 ≤ closing.toInt) (hle : closing.toInt ≤ (satAbs held).toInt)
    (htick : 0 ≤ tick) (hworth : (satAbs held).toInt * tick ≤ cost) :
    Ensures ∅ (closeCost cost held closing exit)
      (fun p => ((satAbs held).toInt - closing.toInt) * tick ≤ p.1 ∧ p.1 < 2 ^ 127) := by
  have hsize := satAbs_pos hheld
  obtain ⟨hshare, hpart, -, hwhole, hrest⟩ := allocated_share hcost.1 hsize hclosing
  obtain ⟨hdown, hup⟩ := left_worth hsize hle hworth hshare hpart
  have hremains : 0 ≤ ((satAbs held).toInt - closing.toInt) * tick := mul_nonneg (by omega) htick
  have hbelow : cost.tdiv (satAbs held).toInt * closing.toInt +
      (cost.tmod (satAbs held).toInt * closing.toInt).tdiv (satAbs held).toInt ≤ cost := by
    refine le_of_mul_le_mul_left (a := (satAbs held).toInt) ?_ hsize
    have := mul_le_mul_of_nonneg_left hle hcost.1
    rw [mul_comm (satAbs held).toInt cost]
    omega
  unfold closeCost
  simp only
  generalize hsg : (if 0 < held then (1 : Int) else -1) = sign
  have hsign : sign = 1 ∨ sign = -1 := by
    rw [← hsg]
    split_ifs
    · exact Or.inl rfl
    · exact Or.inr rfl
  refine ensures_bind (wide_of_fits ⟨by omega, by omega⟩) (fun whole hw => ?_)
  subst hw
  refine ensures_bind (wide_of_fits ⟨by omega, by omega⟩) (fun share hs => ?_)
  rw [← hs] at hdown hup hbelow
  have hnonneg : 0 ≤ share := by omega
  refine ensures_bind (wide_of_fits ⟨by omega, by omega⟩) (fun gain hgain => ?_)
  refine ensures_bind (wide_of_fits (by rcases hsign with rfl | rfl <;> constructor <;> omega))
    (fun pnl hpnl => ?_)
  generalize (cost.tmod (satAbs held).toInt * closing.toInt).tmod (satAbs held).toInt = part
    at hup ⊢
  -- the profit is shifted at most by the unit that the allocation left out
  have hshift : ∀ p, p = (if part ≠ 0 ∧ ((0 < pnl ∧ 0 < sign) ∨
    (pnl < 0 ∧ sign < 0)) then pnl - sign
      else pnl) → p * sign = gain ∨ (part ≠ 0 ∧ 0 < gain ∧ p * sign = gain - 1) := by
    intro p hp
    split_ifs at hp with hcond
    · refine Or.inr ⟨hcond.1, ?_, ?_⟩
      · rcases hsign with rfl | rfl <;> omega
      · rcases hsign with rfl | rfl <;> omega
    · refine Or.inl ?_
      rcases hsign with rfl | rfl <;> omega
  generalize hadj : (if part ≠ 0 ∧ ((0 < pnl ∧ 0 < sign) ∨ (pnl < 0 ∧ sign < 0)) then pnl - sign
      else pnl) = pnl'
  have hreturn := hshift pnl' hadj.symm
  refine ensures_bind (wide_of_fits ?_) (fun returned hreturned => ?_)
  · rcases hreturn with h | ⟨-, -, h⟩ <;> rw [h] <;> constructor <;> omega
  refine ensures_bind (wide_of_fits ?_) (fun consumed hconsumed => ?_)
  · rcases hreturn with h | ⟨hne, -, h⟩
    · rw [hreturned, h]
      constructor <;> omega
    · have hroom := hup hne
      rw [hreturned, h]
      constructor <;> omega
  by_cases hall : closing = satAbs held
  · rw [if_pos hall]
    refine ensures_bind (ensures_pure rfl : Ensures _ _ (fun left => left = (0 : Int))) ?_
    intro left hleft
    refine ensures_bind (P := fun _ => True) (fun _ => trivial) (fun cash _ => ensures_pure ?_)
    subst hleft
    rw [hall, sub_self, zero_mul]
    exact ⟨le_refl 0, by norm_num⟩
  · rw [if_neg hall]
    have hleft : cost - consumed = cost - share ∨
      (part ≠ 0 ∧ cost - consumed = cost - share - 1) := by
      rcases hreturn with h | ⟨hne, -, h⟩
      · exact Or.inl (by omega)
      · exact Or.inr ⟨hne, by omega⟩
    have hfits : FitsI128 (cost - consumed) := by
      rcases hleft with h | ⟨-, h⟩ <;> rw [h] <;> constructor <;> omega
    refine ensures_bind (wide_of_fits hfits) (fun left hl => ?_)
    refine ensures_bind (P := fun _ => True) (fun _ => trivial) (fun cash _ => ensures_pure ?_)
    subst hl
    rcases hleft with h | ⟨hne, h⟩
    · rw [h]
      exact ⟨hdown, by omega⟩
    · rw [h]
      exact ⟨hup hne, by omega⟩

/-! ## Priced holdings -/

/-- The mark of a holding, once set, is positive, and so is the entry of its long leg, if it holds
that: the leg's cost is worth at least a tick a lot. -/
structure Holding.Priced (h : Holding) : Prop where
  mark : 0 ≤ h.mark.toInt
  size : |h.qty.toInt| < 2 ^ 63
  entry : h.qty ≠ 0 → 0 < h.entry.toInt
  worth : 0 < h.contract.tickCash.toInt →
    |h.qty.toInt| * h.contract.tickCash.toInt ≤ h.entryCost ∧ h.entryCost < 2 ^ 127

theorem le_satWide {v w : Int} (h : w ≤ v) (hw : w < 2 ^ 127) : w ≤ satWide v :=
  le_max_of_le_right (le_min h (by omega))

theorem satWide_lt (v : Int) : satWide v < 2 ^ 127 := by
  unfold satWide
  omega

/-- Sizes and ticks of a lot multiply without saturating. -/
theorem mul_lt_wide {a k : Int} (ha : a < 2 ^ 63) (hk : 0 ≤ k ∧ k < 2 ^ 63) : a * k < 2 ^ 127 := by
  nlinarith

/-- Lots at a positive price are worth at least a tick each. -/
theorem le_notionalWide {c : Contract} {price : PriceTicks} {qty : QtyLots}
    (hprice : 0 < price.toInt) (hqty : 0 ≤ qty.toInt) (htick : 0 < c.tickCash.toInt) :
    qty.toInt * c.tickCash.toInt ≤ c.notionalWide price qty ∧
    c.notionalWide price qty < 2 ^ 127 := by
  have hp := fitsI64_toInt price
  have hq := fitsI64_toInt qty
  have hk := fitsI64_toInt c.tickCash
  have habs : (satAbs qty).toInt = qty.toInt := by
    rw [toInt_satAbs_of_lt (by rw [abs_of_nonneg hqty]; exact hq.2), abs_of_nonneg hqty]
  have hsized : qty.toInt ≤ price.toInt * qty.toInt := le_mul_of_one_le_left hqty (by omega)
  have hfits : FitsI128 (price.toInt * qty.toInt) := by
    obtain ⟨-, hp⟩ := hp
    obtain ⟨-, hq⟩ := hq
    constructor <;> nlinarith
  refine ⟨?_, satWide_lt _⟩
  unfold Contract.notionalWide
  rw [habs, satWide_of_fits hfits]
  exact le_satWide (mul_le_mul_of_nonneg_right hsized htick.le)
    (mul_lt_wide hq.2 ⟨htick.le, hk.2⟩)

namespace Holding.Priced

variable {h : Holding} {qty : QtyLots} {price : PriceTicks}

/-- Nothing but the long leg and the mark matters. -/
theorem of_long {h' : Holding} (hpriced : h.Priced) (hmark : 0 ≤ h'.mark.toInt)
    (hlong : (h'.contract, h'.qty, h'.entry, h'.longCost) =
    (h.contract, h.qty, h.entry, h.longCost)) :
    h'.Priced := by
  simp only [Prod.mk.injEq] at hlong
  obtain ⟨hcontract, hqty, hentry, hcost⟩ := hlong
  have hsame : h'.entryCost = h.entryCost := by
    unfold Holding.entryCost
    rw [hcontract, hqty, hentry, hcost]
  refine ⟨hmark, ?_, ?_, ?_⟩
  · rw [hqty]
    exact hpriced.size
  · rw [hqty, hentry]
    exact hpriced.entry
  · rw [hcontract, hqty, hsame]
    exact hpriced.worth

/-- An empty long leg has nothing to price. -/
theorem of_flat (hmark : 0 ≤ h.mark.toInt) (hflat : h.qty = 0) : h.Priced := by
  have hcost : h.entryCost = 0 := by
    unfold Holding.entryCost
    rw [hflat, EntryCost.value_zero]
  have hzero : (0 : Int64).toInt = 0 := rfl
  refine ⟨hmark, ?_, fun hne => absurd hflat hne, fun _ => ?_⟩
  · rw [hflat, hzero]
    norm_num
  · rw [hflat, hzero, hcost]
    norm_num

/-- A long leg written with a size, an entry and a cost. -/
theorem setLong {entry : PriceTicks} {cost : Int} (hpriced : h.Priced)
    (hsize : |qty.toInt| < 2 ^ 63)
    (hentry : qty ≠ 0 → 0 < entry.toInt)
    (hworth : 0 < h.contract.tickCash.toInt → qty ≠ 0 →
      |qty.toInt| * h.contract.tickCash.toInt ≤ cost ∧ cost < 2 ^ 127) :
    (h.setLeg false qty entry cost).Priced := by
  by_cases hqty : qty = 0
  · exact of_flat hpriced.mark hqty
  · refine ⟨hpriced.mark, hsize, hentry, fun htick => ?_⟩
    have hcost : (h.setLeg false qty entry cost).entryCost = cost :=
      (legCost_setLeg h false qty entry cost).trans (if_neg hqty)
    rw [hcost]
    exact hworth htick hqty

/-- What opening writes to a leg. -/
theorem val_openLeg (h : Holding) (short : Bool) (sign : Int64) (hne : qty ≠ 0) :
    let size := Int64.ofIntClamp ((satAbs (h.legQty short)).toInt + qty.toInt)
    let value := satWide (h.legCost short + h.contract.notionalWide price qty)
    let denominator := size.toInt * h.contract.tickCash.toInt
    (h.openLeg short qty price sign).val = h.setLeg short (sign * size)
      (if 0 < denominator then Int64.ofIntClamp (value.tdiv denominator) else price) value := by
  unfold Holding.openLeg
  rw [if_neg hne]
  rfl

theorem tdiv_pos {a b : Int} (hb : 0 < b) (hab : b ≤ a) : 0 < a.tdiv b := by
  rw [Int.tdiv_eq_ediv_of_nonneg (by omega)]
  exact (Int.le_ediv_iff_mul_le hb).mpr (by omega)

/-- **Opening** a leg at a positive price. -/
theorem openLeg {sign : Int64} (hpriced : h.Priced) (hqty : 0 < qty) (hprice : 0 < price.toInt)
    (hsign : sign = 1 ∨ sign = -1) (short : Bool) :
    (h.openLeg short qty price sign).val.Priced := by
  have hne : qty ≠ 0 := fun hz => by simp [hz] at hqty
  have hpos : 0 < qty.toInt := lt_iff_toInt.mp hqty
  cases short with
  | true =>
    rw [val_openLeg h true sign hne]
    exact hpriced.of_long hpriced.mark rfl
  | false =>
    have habs : (satAbs (h.legQty false)).toInt = |h.qty.toInt| := toInt_satAbs_of_lt hpriced.size
    have hheld : 0 ≤ |h.qty.toInt| := abs_nonneg _
    have hclamp := toInt_clamp (|h.qty.toInt| + qty.toInt)
    rw [val_openLeg h false sign hne, habs]
    generalize Int64.ofIntClamp (|h.qty.toInt| + qty.toInt) = size at hclamp ⊢
    have hsize : 0 < size.toInt ∧ size.toInt < 2 ^ 63 ∧ size.toInt ≤ |h.qty.toInt| + qty.toInt := by
      omega
    have hmagnitude : |(sign * size).toInt| = size.toInt := by
      rcases hsign with rfl | rfl
      · rw [Int64.one_mul, abs_of_pos hsize.1]
      · rw [toInt_neg_one_mul (lt_iff_toInt.mpr hsize.1), abs_neg, abs_of_pos hsize.1]
    have hvalue : 0 < h.contract.tickCash.toInt → size.toInt * h.contract.tickCash.toInt ≤
        satWide (h.legCost false + h.contract.notionalWide price qty) := by
      intro htick
      have hk := fitsI64_toInt h.contract.tickCash
      obtain ⟨hheldworth, -⟩ := hpriced.worth htick
      obtain ⟨hnotional, -⟩ := le_notionalWide hprice hpos.le htick
      refine le_satWide ?_ (mul_lt_wide hsize.2.1 ⟨htick.le, hk.2⟩)
      calc size.toInt * h.contract.tickCash.toInt
          ≤ (|h.qty.toInt| + qty.toInt) * h.contract.tickCash.toInt :=
            mul_le_mul_of_nonneg_right hsize.2.2 htick.le
        _ ≤ h.legCost false + h.contract.notionalWide price qty := by
            rw [add_mul]
            exact add_le_add hheldworth hnotional
    have hwide := satWide_lt (h.legCost false + h.contract.notionalWide price qty)
    generalize satWide (h.legCost false + h.contract.notionalWide price qty) =
      value at hvalue hwide ⊢
    refine hpriced.setLong ?_ (fun _ => ?_) (fun htick _ => ?_)
    · rw [hmagnitude]
      exact hsize.2.1
    · split_ifs with hdenominator
      · have htick : 0 < h.contract.tickCash.toInt :=
          pos_of_mul_pos_right hdenominator hsize.1.le
        exact toInt_ofIntClamp_pos (tdiv_pos hdenominator (hvalue htick))
      · exact hprice
    · rw [hmagnitude]
      exact ⟨hvalue htick, hwide⟩

/-- **Closing** a part of a leg. -/
theorem closeLeg (hpriced : h.Priced) (hqty : 0 ≤ qty.toInt) (hprice : 0 < price.toInt)
    (short : Bool) : (h.closeLeg short qty price).val.1.Priced := by
  by_cases hnone : (h.leg short).1 = 0
  · unfold Holding.closeLeg
    simp only [if_pos hnone]
    exact hpriced
  cases short with
  | true =>
    unfold Holding.closeLeg
    simp only [if_neg hnone]
    exact hpriced.of_long hpriced.mark rfl
  | false =>
    have hheld : h.qty ≠ 0 := hnone
    have habs : (satAbs h.qty).toInt = |h.qty.toInt| := toInt_satAbs_of_lt hpriced.size
    unfold Holding.closeLeg
    simp only [if_neg hnone]
    show (h.setLeg false (h.qty - min qty (satAbs h.qty) * (if 0 < h.qty then 1 else -1))
      (if h.qty - min qty (satAbs h.qty) * (if 0 < h.qty then 1 else -1) = 0 then 0 else h.entry)
      (closeCost h.entryCost h.qty (min qty (satAbs h.qty))
        (h.contract.notionalWide price (min qty (satAbs h.qty)))).val.1).Priced
    have hclosing : 0 ≤ (min qty (satAbs h.qty)).toInt ∧
        (min qty (satAbs h.qty)).toInt ≤ (satAbs h.qty).toInt := by
      rw [toInt_min]
      exact ⟨le_min hqty (satAbs_pos hheld).le, min_le_right _ _⟩
    generalize min qty (satAbs h.qty) = closing at hclosing ⊢
    have hleft := toInt_left hclosing.1 hclosing.2
    have hshrunk : |(h.qty - closing * (if 0 < h.qty then 1 else -1)).toInt| =
        |h.qty.toInt| - closing.toInt := by
      rw [hleft]
      rw [habs] at hclosing
      rcases lt_or_gt_of_ne (toInt_ne_zero hheld) with hneg | hpos
      · rw [Int.sign_eq_neg_one_of_neg hneg, abs_of_neg hneg] at *
        rw [abs_of_nonpos (by omega)]
        omega
      · rw [Int.sign_eq_one_of_pos hpos, abs_of_pos hpos] at *
        rw [abs_of_nonneg (by omega)]
        omega
    have hcost : 0 < h.contract.tickCash.toInt →
        (|h.qty.toInt| - closing.toInt) * h.contract.tickCash.toInt ≤
            (closeCost h.entryCost h.qty closing (h.contract.notionalWide price closing)).val.1 ∧
          (closeCost h.entryCost h.qty closing
            (h.contract.notionalWide price closing)).val.1 < 2 ^ 127 := by
      intro htick
      obtain ⟨hworth, hwide⟩ := hpriced.worth htick
      have hnonneg : 0 ≤ h.entryCost := le_trans (mul_nonneg (abs_nonneg _) htick.le) hworth
      obtain ⟨hexit, hexitwide⟩ := le_notionalWide hprice hclosing.1 htick
      rw [← habs] at hworth ⊢
      exact ensures_empty (worth_closeCost hheld ⟨hnonneg, hwide⟩
        ⟨le_trans (mul_nonneg hclosing.1 htick.le) hexit, hexitwide⟩ hclosing.1 hclosing.2 htick.le
          hworth)
    refine hpriced.setLong ?_ (fun hne => ?_) (fun htick _ => ?_)
    · rw [hshrunk]
      have := hpriced.size
      omega
    · rw [if_neg hne]
      exact hpriced.entry hheld
    · rw [hshrunk]
      exact hcost htick

end Holding.Priced

/-! ## Priced accounts -/

namespace State

/-- Every holding of the account is priced. -/
def Priced (s : State) : Prop := ∀ h ∈ s.holdings, h.Priced

variable {s : State} {fill : Fill}

theorem Priced.setAt (hs : s.Priced) (index : Nat) {x : Holding} (hx : x.Priced) :
    (s.setAt index x).Priced :=
  forall_modifyAt hs fun _ => hx

theorem Priced.openLegAt {index : Nat} (hs : s.Priced) (hlt : index < s.holdings.length)
    {qty : QtyLots} {price : PriceTicks} {sign : Int64} (hqty : 0 < qty) (hprice : 0 < price.toInt)
    (hsign : sign = 1 ∨ sign = -1) (short : Bool) :
    (s.openLegAt index short qty price sign).val.Priced :=
  hs.setAt index ((hs _ (holdingsAt_mem hlt)).openLeg hqty hprice hsign short)

theorem Priced.closeLegAt {index : Nat} (hs : s.Priced) (hlt : index < s.holdings.length)
    {qty : QtyLots} {price : PriceTicks} (hqty : 0 ≤ qty.toInt) (hprice : 0 < price.toInt)
    (short : Bool) : (s.closeLegAt index short qty price).val.Priced :=
  hs.setAt index ((hs _ (holdingsAt_mem hlt)).closeLeg hqty hprice short)

/-- **A fill of a positive size at a positive price** leaves the account priced. -/
theorem Priced.applyFill (hs : s.Priced) (hqty : 0 < fill.qty) (hprice : 0 < fill.price.toInt) :
    (s.applyFill fill).val.Priced := by
  obtain ⟨habs, hsignum, -, hsign⟩ := positionDelta_facts hqty
  unfold State.applyFill
  cases hindex : s.holdingIndex fill.instrument with
  | none => exact hs
  | some index =>
    have hlt := holdingIndex_lt hindex
    have hpos : 0 < fill.qty.toInt := lt_iff_toInt.mp hqty
    simp only
    cases s.mode with
    | oneWay =>
      simp only
      unfold applyFillNet
      simp only [habs, hsignum]
      split
      · have hclosed : 0 ≤ (min fill.qty (satAbs (s.holdingsAt index).qty)).toInt := by
          rw [toInt_min, toInt_satAbs]
          exact le_min hpos.le (le_min (abs_nonneg _) (by norm_num))
        have hshrunk := hs.closeLegAt hlt hclosed hprice false
        rw [val_bind]
        split
        · rename_i hmore
          refine hshrunk.openLegAt ?_ hmore hprice hsign false
          rwa [(s.kept_closeLegAt index false _ fill.price).length]
        · exact hshrunk
      · exact hs.openLegAt hlt hqty hprice hsign false
    | hedge =>
      simp only
      unfold applyFillHedged
      simp only
      cases fill.offset with
      | opening =>
        have hunit : ∀ long : Bool, (if long = true then (1 : Int64) else -1) = 1 ∨
            (if long = true then (1 : Int64) else -1) = -1 := by decide
        exact hs.openLegAt hlt hqty hprice (hunit _) _
      | closing => exact hs.closeLegAt hlt hpos.le hprice _

/-- A fresh account holds nothing. -/
theorem Built.priced {start : Cash} (h : Built start s) : s.Priced := by
  have hnone : ∀ h ∈ s.holdings, h.mark = 0 ∧ h.qty = 0 := by
    induction h with
    | new instrument contract table =>
      intro x hx
      rw [List.mem_singleton.mp hx]
      exact ⟨rfl, rfl⟩
    | withFees _ fees ih => exact ih
    | withoutLiquidation _ ih => exact ih
    | withMode _ mode ih => exact ih
    | withMatching _ matching ih => exact ih
    | openHolding _ instrument contract table ih =>
      unfold State.openHolding
      split
      · exact ih
      · intro x hx
        rcases List.mem_append.mp hx with hx | hx
        · exact ih x hx
        · rw [List.mem_singleton.mp hx]
          exact ⟨rfl, rfl⟩
    | matchingWith _ hm hi ih => exact forall_modifyAt ih fun hh => hh
  intro x hx
  obtain ⟨hmark, hqty⟩ := hnone x hx
  refine Holding.Priced.of_flat ?_ hqty
  rw [hmark]
  exact le_refl 0

end State

namespace Kernel

/-! ## Runs at positive prices -/

/-- The price of the check an event ends in, if it ends in one. -/
def checkPrice : Event → Option PriceTicks
  | .tick _ tick => some tick.last
  | .funding _ _ _ mark => some mark
  | .venueFill fill _ => some fill.price
  | _ => none

/-- An event at a positive price, and its fills at positive prices and of positive sizes. -/
structure Quoted (k : Kernel) (event : Event) : Prop where
  price : ∀ price, checkPrice event = some price → 0 < price
  fills : ∀ fill ∈ k.fillsOf event, 0 < fill.price ∧ 0 < fill.qty

/-- A run of such events. -/
def RunQuoted : Kernel → List Event → Prop
  | _, [] => True
  | k, event :: rest => k.Quoted event ∧ (k.apply event).val.RunQuoted rest

variable {k : Kernel} {event : Event}

theorem priced_booked (hk : k.state.Priced) (hquoted : k.Quoted event) :
    (k.booked event).val.1.state.Priced := by
  refine forall_booked hk (fun h m _ hh => hh.of_long hh.mark rfl)
    (fun h order now _ hh => hh.of_long hh.mark rfl) ?_ ?_
  · rintro instrument tick rfl h hh
    exact hh.of_long (lt_iff_toInt.mp (hquoted.price _ rfl)).le rfl
  · intro fill hfill s hs
    obtain ⟨hprice, hqty⟩ := hquoted.fills fill hfill
    exact State.Priced.applyFill hs hqty (lt_iff_toInt.mp hprice)

theorem priced_apply (hk : k.state.Priced) (hquoted : k.Quoted event) :
    (k.apply event).val.state.Priced := by
  rw [apply_eq, val_bind]
  exact forall_settle (priced_booked hk hquoted) fun h hh => Holding.Priced.of_flat hh.mark rfl

/-- **A run at positive prices** leaves every holding priced. -/
theorem priced_run : ∀ {events : List Event} {k : Kernel}, k.state.Priced → k.RunQuoted events →
    (k.run events).val.state.Priced
  | [], _, hk, _ => hk
  | event :: rest, k, hk, ⟨hquoted, hrest⟩ => by
    unfold run
    rw [List.foldlM_cons, val_bind]
    exact priced_run (priced_apply hk hquoted) hrest

theorem booked_price {price : PriceTicks} (h : (k.booked event).val.2 = some price) :
    checkPrice event = some price := by
  cases event with
  | tick instrument tick =>
    unfold booked at h
    simp only at h
    split at h
    · unfold bookTick at h
      simp only at h
      split at h <;> exact h
    · cases h
  | funding instrument at_ rate mark =>
    simp only [booked, bookSettlement] at h
    split at h
    · cases h
    · split at h
      · cases h
      · exact h
  | venueFill fill reported =>
    simp only [booked, bookVenueFill] at h
    split at h
    · cases h
    · exact h
  | _ => cases h

end Kernel

/-! ## What a liquidation reports and realizes -/

/-- What an output says of the holding that was closed: which, at what price, and its legs. -/
def Liquidation.closing (l : Liquidation) : InstrumentId × PriceTicks × QtyLots × QtyLots :=
  (l.instrument, l.price, l.long, l.short)

/-- The liquidations among some outputs. -/
def liquidations (outputs : List Output) : List Liquidation :=
  outputs.filterMap fun o =>
    match o with
    | .liquidated l => some l
    | _ => none

namespace State

variable (s : State)

/-- The holdings a liquidation closes: a lone one, or of several those with a position. -/
def closed : List Holding :=
  if s.holdings.length = 1 then s.holdings else s.holdings.filter fun h => !h.isFlat

/-- What is to be said of a holding that is closed. -/
def closingOf (price : PriceTicks) (h : Holding) : InstrumentId × PriceTicks × QtyLots × QtyLots :=
  (h.instrument, s.closesAt price h, h.qty, h.shortQty)

/-- Realized profit, with that of a holding that is closed. -/
def realizing (price : PriceTicks) (realized : Cash) (h : Holding) : Cash :=
  realized.add (h.unrealizedAt (s.closesAt price h))

theorem closing_settleOutputs (equity forfeited : Cash) : ∀ out : List Liquidation,
    (settleOutputs equity forfeited out).map Liquidation.closing = out.map Liquidation.closing
  | [] => rfl
  | [_] => rfl
  | l :: l' :: rest =>
    congrArg (l.closing :: ·) (closing_settleOutputs equity forfeited (l' :: rest))

theorem holdings_closeOne (acc : State × List Liquidation) (index : Nat) :
    (closeOne acc index).val.1.holdings = acc.1.holdings.modify index Holding.closedOut := rfl

/-- Closing one holding after another: each is reported and realized as it stood. -/
theorem closing_foldlM_closeOne (hseveral : s.holdings.length ≠ 1) (price : PriceTicks) :
    ∀ (indices : List Nat) (acc : State × List Liquidation), indices.Nodup →
      (∀ i ∈ indices, i < s.holdings.length ∧ acc.1.holdings[i]? = s.holdings[i]?) →
      (indices.foldlM closeOne acc).val.2.map Liquidation.closing =
          acc.2.map Liquidation.closing ++ (indices.map s.holdingsAt).map (s.closingOf price) ∧
        (indices.foldlM closeOne acc).val.1.realized =
          (indices.map s.holdingsAt).foldl (s.realizing price) acc.1.realized
  | [], acc, _, _ => ⟨(List.append_nil _).symm, rfl⟩
  | i :: rest, acc, hnd, hsame => by
    obtain ⟨hi, hrest⟩ := List.nodup_cons.mp hnd
    obtain ⟨⟨hlt, hi'⟩, hsame⟩ := List.forall_mem_cons.mp hsame
    have hat : acc.1.holdingsAt i = s.holdingsAt i := by
      rw [holdingsAt, holdingsAt, List.getD_eq_getElem?_getD, List.getD_eq_getElem?_getD, hi',
        List.getElem?_eq_getElem hlt, Option.getD_some, Option.getD_some]
    have hprice : acc.1.closingPrice i = s.closesAt price (s.holdingsAt i) := by
      rw [s.closesAt_of_several hseveral, closingPrice, hat]
    have hkept : ∀ j ∈ rest, j < s.holdings.length ∧
        (closeOne acc i).val.1.holdings[j]? = s.holdings[j]? := by
      intro j hj
      obtain ⟨hjlt, hj'⟩ := hsame j hj
      have hne : i ≠ j := fun h => hi (h ▸ hj)
      refine ⟨hjlt, ?_⟩
      rw [holdings_closeOne, List.getElem?_modify, ← hj']
      simp [hne]
    obtain ⟨hclosing, hrealized⟩ :=
      closing_foldlM_closeOne hseveral price rest (closeOne acc i).val hrest hkept
    rw [List.foldlM_cons, val_bind, hclosing, hrealized]
    constructor
    · show (acc.2 ++ [_]).map Liquidation.closing ++ _ = _
      rw [List.map_append, List.append_assoc, List.map_cons, List.map_cons]
      refine congrArg (acc.2.map Liquidation.closing ++ ·) (congrArg (· :: _) ?_)
      show (_, acc.1.closingPrice i, _, _) = _
      rw [hprice, hat]
      rfl
    · rw [List.map_cons, List.foldl_cons]
      refine congrArg (fun r => List.foldl (s.realizing price) r (rest.map s.holdingsAt)) ?_
      show Cash.add acc.1.realized ((acc.1.holdingsAt i).unrealizedAt (acc.1.closingPrice i)) = _
      rw [hprice, hat]
      rfl

/-- **What closing the account reports and realizes.** -/
theorem closing_closeAll (price : PriceTicks) :
    (s.closeAll price).val.2.map Liquidation.closing = s.closed.map (s.closingOf price) ∧
      (s.closeAll price).val.1.realized = s.closed.foldl (s.realizing price) s.realized := by
  by_cases hlone : s.holdings.length = 1
  · obtain ⟨h, hh⟩ := List.length_eq_one_iff.mp hlone
    have hat : s.holdingsAt 0 = h := by
      rw [holdingsAt, hh]
      rfl
    have hprice : s.closesAt price h = price := if_pos hlone
    unfold closeAll closed
    rw [if_pos hlone, if_pos hlone, hh]
    constructor
    · show [((s.holdingsAt 0).instrument, price, (s.holdingsAt 0).qty, (s.holdingsAt 0).shortQty)] =
        [s.closingOf price h]
      rw [hat, closingOf, hprice]
    · show Cash.add s.realized ((s.holdingsAt 0).unrealizedAt price) =
        s.realizing price s.realized h
      rw [hat, realizing, hprice]
  · have hmap : s.openIndices.map s.holdingsAt = s.closed := by
      unfold closed
      rw [if_neg hlone]
      conv_rhs => rw [s.holdings_eq_map_range, List.filter_map]
      rfl
    have hopen : s.openIndices.Nodup := List.nodup_range.filter _
    unfold closeAll
    rw [if_neg hlone, ← hmap]
    exact s.closing_foldlM_closeOne hlone price s.openIndices (s, []) hopen
      fun i hi => ⟨List.mem_range.mp (List.mem_of_mem_filter hi), rfl⟩

theorem closing_liquidate (price : PriceTicks) :
    (s.liquidate price).val.2.map Liquidation.closing = s.closed.map (s.closingOf price) ∧
      (s.liquidate price).val.1.realized = s.closed.foldl (s.realizing price) s.realized := by
  obtain ⟨hclosing, hrealized⟩ := s.closing_closeAll price
  refine ⟨?_, hrealized⟩
  show (settleOutputs _ _ (s.closeAll price).val.2).map Liquidation.closing = _
  rw [closing_settleOutputs, hclosing]

end State

namespace Kernel

variable {k : Kernel} {event : Event}

/-- A liquidating event ends in a check that closes the account. -/
theorem exists_liquidate {l : Liquidation} (h : Output.liquidated l ∈ (k.apply event).val.outputs) :
    ∃ price, (k.booked event).val.2 = some price ∧
      (k.apply event).val.state = ((k.booked event).val.1.state.liquidate price).val.1 ∧
      (k.apply event).val.outputs = (k.booked event).val.1.outputs ++
        ((k.booked event).val.1.state.liquidate price).val.2.map Output.liquidated := by
  have hfresh := k.not_liquidated_booked event l
  rw [apply_eq, val_bind] at h ⊢
  unfold settle at h ⊢
  split at h
  · exact absurd h hfresh
  · rename_i price hprice
    unfold Kernel.checkLiquidation at h ⊢
    split at h
    · exact absurd h hfresh
    · split at h
      · rw [if_neg ‹_›, if_pos ‹_›]
        exact ⟨price, hprice, rfl, rfl⟩
      · exact absurd h hfresh

theorem liquidations_apply {price : PriceTicks}
    (h : (k.apply event).val.outputs = (k.booked event).val.1.outputs ++
      ((k.booked event).val.1.state.liquidate price).val.2.map Output.liquidated) :
    liquidations (k.apply event).val.outputs =
      ((k.booked event).val.1.state.liquidate price).val.2 := by
  have hnone : liquidations (k.booked event).val.1.outputs = [] := by
    refine List.filterMap_eq_nil_iff.mpr fun o ho => ?_
    cases o with
    | liquidated l => exact absurd ho (k.not_liquidated_booked event l)
    | _ => rfl
  have hall : ∀ out : List Liquidation, liquidations (out.map Output.liquidated) = out := by
    intro out
    unfold liquidations
    rw [List.filterMap_map]
    exact List.filterMap_some
  rw [h, liquidations, List.filterMap_append]
  exact (congrArg (· ++ _) hnone).trans ((List.nil_append _).trans (hall _))

theorem RunQuoted.append {first second : List Event} :
    ∀ {k : Kernel}, k.RunQuoted (first ++ second) →
      k.RunQuoted first ∧ (k.run first).val.RunQuoted second := by
  induction first with
  | nil => exact fun h => ⟨trivial, h⟩
  | cons event rest ih =>
    rintro k ⟨hevent, hrest⟩
    obtain ⟨hfirst, hsecond⟩ := ih hrest
    refine ⟨⟨hevent, hfirst⟩, ?_⟩
    unfold run at hsecond ⊢
    rwa [List.foldlM_cons, val_bind]

instance (k : Kernel) (event : Event) : Decidable (k.Quoted event) :=
  have := decidableForallSome (P := fun price => 0 < price) (checkPrice event)
  decidable_of_iff ((∀ price, checkPrice event = some price → 0 < price) ∧
    ∀ fill ∈ k.fillsOf event, 0 < fill.price ∧ 0 < fill.qty) ⟨fun h => ⟨h.1, h.2⟩, fun h =>
      ⟨h.1, h.2⟩⟩

instance decidableRunQuoted : (k : Kernel) → (events : List Event) → Decidable (k.RunQuoted events)
  | _, [] => isTrue trivial
  | k, event :: rest =>
    have := decidableRunQuoted (k.apply event).val rest
    inferInstanceAs (Decidable (k.Quoted event ∧ (k.apply event).val.RunQuoted rest))

/-- A market buy that fills at 100, and nothing since. -/
def boughtRun : List Event :=
  [.submit none 1 .buy none 50 .opening ⟨1, 1⟩, .tick none ⟨⟨2, 2⟩, 100, 101, 99, 99, 100, 10⟩]

/-- A funding settlement at a mark that the account does not survive. -/
def ruinousFunding : Event := .funding none 3 0 70

/-- Two instruments on one hedged balance, matched by the venue. -/
def hedgedPair : State :=
  (((State.new 7 ⟨10⟩ flatTable 10000).openHolding 8 ⟨10⟩ flatTable).withMode .hedge).withMatching
    .venue

/-- A position the venue reports. -/
def openedAt (instrument : InstrumentId) (order : OrderId) (side : Side) (qty : QtyLots) : Event :=
  .venueFill ⟨⟨3, 3⟩, instrument, order, 1, side, .opening, 100, qty, .taker⟩ .unsaid

/-- A long on an instrument that has ticked, and a short on one that has not. -/
def unmarkedShortRun : List Event :=
  [.tick (some 7) ⟨⟨2, 2⟩, 100, 101, 99, 99, 100, 10⟩, openedAt 7 1 .buy 100, openedAt 8 2 .sell 5]

/-- The market of the long falls. -/
def longFalls : Event := .tick (some 7) ⟨⟨4, 4⟩, 80, 80, 80, 79, 81, 20⟩

end Kernel
