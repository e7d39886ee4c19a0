/-
# Fills conserve cash exactly

Entry prices are rounded to ticks, but the cost a leg carries is not.  So after
any sequence of fills on one holding, realized profit is the cash the fills paid
or received, plus the cost of what is still held: no rounding residue, however
the closes were split.
-/
import OpenQuanter.Legs

open Logged

/-! ## One fill on an account -/

/-- The cash a fill moves: a buy pays its notional, a sell receives it. -/
def Fill.signedNotional (c : Contract) (f : Fill) : Int :=
  f.side.sign.toInt * (f.price.toInt * f.qty.toInt * c.tickCash.toInt)

namespace State

/-- The cost of what the holding at an index still holds, longs positive. -/
def heldCost (s : State) (index : Nat) : Int :=
  (s.holdingsAt index).signedCost false + (s.holdingsAt index).signedCost true

/-- What one fill may change of an account: the legs of one holding and the
realized total. -/
structure LegsOnly (s t : State) (index : Nat) : Prop where
  instruments : t.instruments = s.instruments
  length : t.holdings.length = s.holdings.length
  mode : t.mode = s.mode
  contract : (t.holdingsAt index).contract = (s.holdingsAt index).contract

theorem LegsOnly.trans {s t u : State} {index : Nat} (h : LegsOnly s t index)
    (h' : LegsOnly t u index) : LegsOnly s u index :=
  ⟨h'.instruments.trans h.instruments, h'.length.trans h.length, h'.mode.trans h.mode,
    h'.contract.trans h.contract⟩

variable {s : State} {index : Nat}

theorem legsOnly_setAt (hlt : index < s.holdings.length) {h : Holding}
    (hinst : h.instrument = (s.holdingsAt index).instrument)
    (hcontract : h.contract = (s.holdingsAt index).contract) :
    LegsOnly s (s.setAt index h) index where
  instruments := instruments_modifyAt (fun _ => hinst)
  length := by simp [setAt]
  mode := rfl
  contract := by rw [holdingsAt_setAt_self hlt, hcontract]

/-- Opening a leg in its own direction. -/
theorem ensures_openLegAt (hlt : index < s.holdings.length) {short : Bool} {qty : QtyLots}
    {price : PriceTicks} {sign : Int64} (hqty : 0 < qty) (hsign : sign = 1 ∨ sign = -1)
    (hdir : (s.holdingsAt index).legQty short = 0 ∨
      ((s.holdingsAt index).legQty short).toInt.sign = sign.toInt) :
    Ensures {Fault.cash, Fault.wide} (s.openLegAt index short qty price sign)
      (fun t => LegsOnly s t index ∧ t.realized = s.realized ∧
        Holding.SameBut short (s.holdingsAt index) (t.holdingsAt index) ∧
        ((t.holdingsAt index).legQty short).toInt.sign = sign.toInt ∧
        (t.holdingsAt index).signedCost short = (s.holdingsAt index).signedCost short +
          sign.toInt * (s.holdingsAt index).contract.notionalExact price qty) := by
  refine ensures_bind (Holding.ensures_openLeg hqty hsign hdir) (fun h hh => ensures_pure ?_)
  rw [holdingsAt_setAt_self hlt]
  exact ⟨legsOnly_setAt hlt hh.1.instrument hh.1.contract, rfl, hh⟩

/-- Realizing a profit changes nothing of the holdings. -/
theorem ensures_realize (s : State) (pnl : Cash) :
    Ensures {Fault.cash, Fault.wide} (s.realize pnl)
      (fun t => t.holdings = s.holdings ∧ t.mode = s.mode ∧
        t.realized.toInt = s.realized.toInt + pnl.toInt) := by
  have hadd : Ensures {Fault.cash, Fault.wide} (Books.add s.realized pnl)
      (fun r => r.toInt = s.realized.toInt + pnl.toInt) :=
    ensures_note (fun hfits => toInt_ofIntClamp_of_fits (hfits (Or.inl rfl)))
  refine ensures_bind hadd (fun realized hrealized => ?_)
  exact ensures_note (fun _ => ⟨rfl, rfl, hrealized⟩)

/-- Closing a leg. -/
theorem ensures_closeLegAt (hlt : index < s.holdings.length) {short : Bool} {qty : QtyLots}
    {price : PriceTicks} (hqty : 0 < qty) (hheld : (s.holdingsAt index).legQty short ≠ 0) :
    Ensures {Fault.cash, Fault.wide} (s.closeLegAt index short qty price)
      (fun t => LegsOnly s t index ∧
        Holding.SameBut short (s.holdingsAt index) (t.holdingsAt index) ∧
        t.realized.toInt + (s.holdingsAt index).signedCost short =
          s.realized.toInt + (t.holdingsAt index).signedCost short +
            ((s.holdingsAt index).legQty short).toInt.sign *
              (s.holdingsAt index).contract.notionalExact price
                (min qty (satAbs ((s.holdingsAt index).legQty short))) ∧
        ((t.holdingsAt index).legQty short).toInt =
          ((s.holdingsAt index).legQty short).toInt -
            ((s.holdingsAt index).legQty short).toInt.sign *
              (min qty (satAbs ((s.holdingsAt index).legQty short))).toInt) := by
  refine ensures_bind (Holding.ensures_closeLeg hqty hheld) ?_
  rintro ⟨h, pnl⟩ ⟨hsame, hcost, hleft⟩
  refine (ensures_realize _ pnl).mono (fun t ht => ?_)
  obtain ⟨hhold, hmode, hrealized⟩ := ht
  have hat : t.holdingsAt index = h := by
    rw [holdingsAt_congr hhold, holdingsAt_setAt_self hlt]
  have hlegs := legsOnly_setAt hlt hsame.instrument hsame.contract
  simp only at hcost hleft
  have hrealized' : t.realized.toInt = s.realized.toInt + pnl.toInt := hrealized
  rw [hat]
  refine ⟨⟨?_, ?_, ?_, ?_⟩, hsame, by omega, hleft⟩
  · rw [← hlegs.instruments, instruments, instruments, hhold]
  · rw [hhold]
    exact hlegs.length
  · exact hmode
  · rw [hat]
    exact hsame.contract

/-! ## Conservation over one fill -/

/-- The account has realized what its fills paid, less the cost of what the
holding still holds.  `paid` is the signed notional of the fills so far. -/
structure Conserved (s : State) (index : Nat) (paid : Int) : Prop where
  lt : index < s.holdings.length
  cash : s.realized.toInt + paid = s.heldCost index
  oneWay : s.mode = .oneWay → (s.holdingsAt index).legQty true = 0
  hedge : s.mode = .hedge → 0 ≤ ((s.holdingsAt index).legQty false).toInt ∧
    ((s.holdingsAt index).legQty true).toInt ≤ 0

/-- A notional splits over the parts of a size. -/
theorem notionalExact_of_pos (c : Contract) (price : PriceTicks) {qty : QtyLots} (h : 0 < qty) :
    c.notionalExact price qty = price.toInt * qty.toInt * c.tickCash.toInt := by
  rw [Contract.notionalExact, satAbs_of_pos h]

variable {fill : Fill}

/-- A position the fill adds to has the fill's direction. -/
theorem sign_of_along (hqty : 0 < fill.qty) {old : QtyLots} (hne : old ≠ 0)
    (hdir : decide (0 < old) = decide (0 < fill.positionDelta)) :
    old.toInt.sign = fill.side.sign.toInt := by
  obtain ⟨-, -, hbuy, -⟩ := positionDelta_facts hqty
  rw [decide_eq_decide, hbuy] at hdir
  rw [sign_toInt hne]
  cases hside : fill.side with
  | buy =>
    rw [if_pos (hdir.mpr hside)]
    rfl
  | sell =>
    rw [if_neg fun hpos => Side.noConfusion (hside.symm.trans (hdir.mp hpos))]
    rfl

/-- A position the fill takes from has the other direction. -/
theorem sign_of_against (hqty : 0 < fill.qty) {old : QtyLots} (hne : old ≠ 0)
    (hdir : decide (0 < old) ≠ decide (0 < fill.positionDelta)) :
    old.toInt.sign = -fill.side.sign.toInt := by
  obtain ⟨-, -, hbuy, -⟩ := positionDelta_facts hqty
  rw [ne_eq, decide_eq_decide, hbuy] at hdir
  rw [sign_toInt hne]
  cases hside : fill.side with
  | buy =>
    rw [if_neg fun hpos => hdir (iff_of_true hpos hside)]
    rfl
  | sell =>
    have hpos : 0 < old := by
      by_contra hnot
      exact hdir (iff_of_false hnot fun hb => Side.noConfusion (hside.symm.trans hb))
    rw [if_pos hpos]
    rfl

/-- What a fill leaves after taking what a position holds. -/
theorem toInt_sub_min {qty old : Int64} (hqty : 0 < qty) (hne : old ≠ 0) :
    (qty - min qty (satAbs old)).toInt = qty.toInt - (min qty (satAbs old)).toInt := by
  have hfits := fitsI64_toInt qty
  have hqpos : 0 < qty.toInt := lt_iff_toInt.mp hqty
  have habs := satAbs_pos hne
  rw [Int64.toInt_sub, toInt_min, Int.bmod_eq_of_le]
  · omega
  · have := hfits.2
    omega

/-- A fill with something left has taken the whole position. -/
theorem toInt_min_of_more {qty old : Int64}
    (hmore : 0 < qty.toInt - (min qty (satAbs old)).toInt) :
    (min qty (satAbs old)).toInt = |old.toInt| := by
  have hfits := (fitsI64_toInt qty).2
  rw [toInt_min, toInt_satAbs] at hmore ⊢
  omega

/-- Under one-way accounting the short leg is empty before and after, so only the
long leg counts. -/
theorem Conserved.longMoved {paid : Int} (h : Conserved s index paid) (hmode : s.mode = .oneWay)
    {t : State} (hlegs : LegsOnly s t index)
    (hsame : Holding.SameBut false (s.holdingsAt index) (t.holdingsAt index))
    (hmoved : t.realized.toInt + (s.holdingsAt index).signedCost false =
      s.realized.toInt + (t.holdingsAt index).signedCost false -
        fill.signedNotional (s.holdingsAt index).contract) :
    LegsOnly s t index ∧
      Conserved t index (paid + fill.signedNotional (s.holdingsAt index).contract) := by
  have hshort := h.oneWay hmode
  have hcash := h.cash
  have hother : (t.holdingsAt index).legQty true = 0 := hsame.otherQty.trans hshort
  have hcost := Holding.signedCost_of_flat hshort
  have hcost' := Holding.signedCost_of_flat hother
  refine ⟨hlegs, ?_, ?_, fun _ => hother, fun hm => ?_⟩
  · rw [hlegs.length]
    exact h.lt
  · unfold heldCost at hcash ⊢
    omega
  · rw [hlegs.mode, hmode] at hm
    cases hm

/-- A fill against the position: it closes first, and what it has left opens from
an empty leg. -/
theorem conserved_crossNet {paid : Int} (h : Conserved s index paid) (hmode : s.mode = .oneWay)
    (hqty : 0 < fill.qty) (hne : (s.holdingsAt index).legQty false ≠ 0)
    (hopp : ((s.holdingsAt index).legQty false).toInt.sign = -fill.side.sign.toInt) :
    Ensures {Fault.cash, Fault.wide}
      (do
        let t ← s.closeLegAt index false
          (min fill.qty (satAbs ((s.holdingsAt index).legQty false))) fill.price
        let remainder := fill.qty - min fill.qty (satAbs ((s.holdingsAt index).legQty false))
        if 0 < remainder then t.openLegAt index false remainder fill.price fill.side.sign
        else pure t)
      (fun t => LegsOnly s t index ∧
        Conserved t index (paid + fill.signedNotional (s.holdingsAt index).contract)) := by
  have hqpos : 0 < fill.qty.toInt := lt_iff_toInt.mp hqty
  have hrem := toInt_sub_min hqty hne
  generalize hold : (s.holdingsAt index).legQty false = old at hne hopp hrem ⊢
  have hfull := @toInt_min_of_more fill.qty old
  generalize hcl : min fill.qty (satAbs old) = closed at hrem hfull ⊢
  have hclosed : closed.toInt = min fill.qty.toInt (satAbs old).toInt := by
    rw [← hcl, toInt_min]
  have hcpos : 0 < closed := by
    apply lt_iff_toInt.mpr
    rw [hclosed]
    exact lt_min hqpos (satAbs_pos hne)
  have hagain : min closed (satAbs old) = closed := by
    apply Int64.toInt_inj.mp
    rw [toInt_min, hclosed]
    omega
  refine ensures_bind (ensures_closeLegAt h.lt hcpos (by rw [hold]; exact hne)) (fun t ht => ?_)
  obtain ⟨hlegs, hsame, hmoved, hleft⟩ := ht
  rw [hold, hagain, notionalExact_of_pos _ _ hcpos, hopp] at hmoved
  rw [hold, hagain] at hleft
  simp only
  by_cases hmore : 0 < fill.qty - closed
  · -- the old leg is gone, so what opens opens from nothing
    rw [if_pos hmore]
    have hmore' : 0 < fill.qty.toInt - closed.toInt := hrem ▸ lt_iff_toInt.mp hmore
    have hflat : (t.holdingsAt index).legQty false = 0 := by
      apply toInt_eq_zero.mp
      rw [hleft, hfull hmore', Int.sign_mul_abs, sub_self]
    have hcost0 := Holding.signedCost_of_flat hflat
    have hsign := (positionDelta_facts hqty).2.2.2
    refine (ensures_openLegAt (by rw [hlegs.length]; exact h.lt) hmore hsign
      (Or.inl hflat)).mono (fun u hu => ?_)
    obtain ⟨hlegs', hreal, hsame', -, hcost⟩ := hu
    rw [hlegs.contract, notionalExact_of_pos _ _ hmore, hrem, hcost0] at hcost
    refine h.longMoved hmode (hlegs.trans hlegs') (hsame.trans hsame') ?_
    rw [hreal, hcost]
    rw [hcost0] at hmoved
    unfold Fill.signedNotional
    linear_combination hmoved
  · -- all of the fill closed
    rw [if_neg hmore]
    refine ensures_pure (h.longMoved hmode hlegs hsame ?_)
    have hall : closed.toInt = fill.qty.toInt := by
      have hnot : ¬ 0 < fill.qty.toInt - closed.toInt := fun hm =>
        hmore (lt_iff_toInt.mpr (hrem.symm ▸ hm))
      have hle : closed.toInt ≤ fill.qty.toInt := hclosed ▸ min_le_left _ _
      omega
    rw [hall] at hmoved
    unfold Fill.signedNotional
    linear_combination hmoved

/-- One-way accounting keeps the books balanced. -/
theorem conserved_applyFillNet {paid : Int} (h : Conserved s index paid)
    (hmode : s.mode = .oneWay) (hqty : 0 < fill.qty) :
    Ensures {Fault.cash, Fault.wide} (s.applyFillNet index fill)
      (fun t => LegsOnly s t index ∧
        Conserved t index (paid + fill.signedNotional (s.holdingsAt index).contract)) := by
  obtain ⟨habs, hsignum, -, hsign⟩ := positionDelta_facts hqty
  unfold applyFillNet
  simp only
  rw [habs, hsignum]
  have hleg : (s.holdingsAt index).qty = (s.holdingsAt index).legQty false := rfl
  rw [hleg]
  split
  · rename_i hagainst
    exact conserved_crossNet h hmode hqty hagainst.1 (sign_of_against hqty hagainst.1 hagainst.2)
  · rename_i halong
    have hdir : (s.holdingsAt index).legQty false = 0 ∨
        ((s.holdingsAt index).legQty false).toInt.sign = fill.side.sign.toInt := by
      by_cases hz : (s.holdingsAt index).legQty false = 0
      · exact .inl hz
      · exact .inr (sign_of_along hqty hz (not_not.mp fun hd => halong ⟨hz, hd⟩))
    refine (ensures_openLegAt h.lt hqty hsign hdir).mono (fun t ht => ?_)
    obtain ⟨hlegs, hreal, hsame, -, hcost⟩ := ht
    refine h.longMoved hmode hlegs hsame ?_
    rw [hreal, hcost, notionalExact_of_pos _ _ hqty]
    unfold Fill.signedNotional
    ring

/-- The leg a fill is for under hedge accounting: whether it is the short one. -/
def hedgeShort (fill : Fill) : Bool :=
  match fill.side, fill.offset with
  | .buy, .opening => false
  | .sell, .closing => false
  | .sell, .opening => true
  | .buy, .closing => true

theorem applyFillHedged_eq (s : State) (index : Nat) (fill : Fill) :
    s.applyFillHedged index fill =
      match fill.offset with
      | .opening => s.openLegAt index (hedgeShort fill) fill.qty fill.price fill.side.sign
      | .closing => s.closeLegAt index (hedgeShort fill) fill.qty fill.price := by
  unfold applyFillHedged hedgeShort
  rcases fill.side with _ | _ <;> rcases fill.offset with _ | _ <;> rfl

/-- The direction of a leg under hedge accounting: the long one up, the short one
down. -/
def legSign (short : Bool) : Int := if short then -1 else 1

theorem Conserved.legSign_mul {paid : Int} (h : Conserved s index paid) (hmode : s.mode = .hedge)
    (short : Bool) : 0 ≤ legSign short * ((s.holdingsAt index).legQty short).toInt := by
  have hlegs := h.hedge hmode
  cases short
  · simp only [legSign, Bool.false_eq_true, if_false]
    omega
  · simp only [legSign, if_true]
    omega

/-- A leg with a position points in its own direction. -/
theorem Conserved.sign_leg {paid : Int} (h : Conserved s index paid) (hmode : s.mode = .hedge)
    {short : Bool} (hne : (s.holdingsAt index).legQty short ≠ 0) :
    ((s.holdingsAt index).legQty short).toInt.sign = legSign short := by
  have hdir := h.legSign_mul hmode short
  have hne' := toInt_ne_zero hne
  cases short
  · simp only [legSign, Bool.false_eq_true, if_false] at hdir ⊢
    exact Int.sign_eq_one_of_pos (by omega)
  · simp only [legSign, if_true] at hdir ⊢
    exact Int.sign_eq_neg_one_of_neg (by omega)

/-- One leg moves by the fill and keeps its direction, the other stays. -/
theorem Conserved.legMoved {paid : Int} (h : Conserved s index paid) (hmode : s.mode = .hedge)
    {t : State} {short : Bool} (hlegs : LegsOnly s t index)
    (hsame : Holding.SameBut short (s.holdingsAt index) (t.holdingsAt index))
    (hdir : 0 ≤ legSign short * ((t.holdingsAt index).legQty short).toInt)
    (hmoved : t.realized.toInt + (s.holdingsAt index).signedCost short =
      s.realized.toInt + (t.holdingsAt index).signedCost short -
        fill.signedNotional (s.holdingsAt index).contract) :
    LegsOnly s t index ∧
      Conserved t index (paid + fill.signedNotional (s.holdingsAt index).contract) := by
  have hcash := h.cash
  have hother : (t.holdingsAt index).signedCost (!short) =
      (s.holdingsAt index).signedCost (!short) := by
    unfold Holding.signedCost
    rw [hsame.otherQty, hsame.otherCost]
  have hdir' : 0 ≤ legSign (!short) * ((t.holdingsAt index).legQty (!short)).toInt := by
    rw [hsame.otherQty]
    exact h.legSign_mul hmode (!short)
  refine ⟨hlegs, ?_, ?_, fun hm => ?_, fun _ => ?_⟩
  · rw [hlegs.length]
    exact h.lt
  · unfold heldCost at hcash ⊢
    cases short
    · rw [Bool.not_false] at hother
      omega
    · rw [Bool.not_true] at hother
      omega
  · rw [hlegs.mode, hmode] at hm
    cases hm
  · cases short
    · simp only [legSign, Bool.not_false, Bool.false_eq_true, if_false, if_true] at hdir hdir'
      exact ⟨by omega, by omega⟩
    · simp only [legSign, Bool.not_true, Bool.false_eq_true, if_false, if_true] at hdir hdir'
      exact ⟨by omega, by omega⟩

/-- A fill that opens: its side is the direction of its leg. -/
theorem conserved_openHedged {paid : Int} (h : Conserved s index paid) (hmode : s.mode = .hedge)
    (hqty : 0 < fill.qty) {short : Bool} (hleg : fill.side.sign.toInt = legSign short) :
    Ensures {Fault.cash, Fault.wide} (s.openLegAt index short fill.qty fill.price fill.side.sign)
      (fun t => LegsOnly s t index ∧
        Conserved t index (paid + fill.signedNotional (s.holdingsAt index).contract)) := by
  have hdir : (s.holdingsAt index).legQty short = 0 ∨
      ((s.holdingsAt index).legQty short).toInt.sign = fill.side.sign.toInt := by
    by_cases hz : (s.holdingsAt index).legQty short = 0
    · exact .inl hz
    · exact .inr ((h.sign_leg hmode hz).trans hleg.symm)
  have hsign := (positionDelta_facts hqty).2.2.2
  refine (ensures_openLegAt h.lt hqty hsign hdir).mono (fun t ht => ?_)
  obtain ⟨hlegs, hreal, hsame, hnew, hcost⟩ := ht
  refine h.legMoved hmode hlegs hsame ?_ ?_
  · rw [← hleg, ← hnew, Int.sign_mul_self_eq_abs]
    exact abs_nonneg _
  · rw [hreal, hcost, notionalExact_of_pos _ _ hqty]
    unfold Fill.signedNotional
    ring

/-- A fill that closes: its side is against its leg, and the leg holds enough. -/
theorem conserved_closeHedged {paid : Int} (h : Conserved s index paid) (hmode : s.mode = .hedge)
    (hqty : 0 < fill.qty) {short : Bool} (hleg : legSign short = -fill.side.sign.toInt)
    (hle : fill.qty ≤ satAbs ((s.holdingsAt index).legQty short)) :
    Ensures {Fault.cash, Fault.wide} (s.closeLegAt index short fill.qty fill.price)
      (fun t => LegsOnly s t index ∧
        Conserved t index (paid + fill.signedNotional (s.holdingsAt index).contract)) := by
  have hqpos : 0 < fill.qty.toInt := lt_iff_toInt.mp hqty
  have hne : (s.holdingsAt index).legQty short ≠ 0 := by
    intro hz
    rw [hz] at hle
    have hle' := Int64.le_iff_toInt_le.mp hle
    have h0 : (satAbs (0 : Int64)).toInt = 0 := by decide
    omega
  have hsgn := h.sign_leg hmode hne
  generalize hheld : (s.holdingsAt index).legQty short = held at hle hne hsgn
  have hle' : fill.qty.toInt ≤ (satAbs held).toInt := Int64.le_iff_toInt_le.mp hle
  have hmin : min fill.qty (satAbs held) = fill.qty := by
    apply Int64.toInt_inj.mp
    rw [toInt_min]
    exact min_eq_left hle'
  have hbound : fill.qty.toInt ≤ |held.toInt| := by
    rw [toInt_satAbs] at hle'
    exact le_trans hle' (min_le_left _ _)
  refine (ensures_closeLegAt h.lt hqty (by rw [hheld]; exact hne)).mono (fun t ht => ?_)
  obtain ⟨hlegs, hsame, hmoved, hleft⟩ := ht
  rw [hheld, hmin, notionalExact_of_pos _ _ hqty, hsgn, hleg] at hmoved
  rw [hheld, hmin] at hleft
  refine h.legMoved hmode hlegs hsame ?_ ?_
  · have habs := Int.sign_mul_self_eq_abs held.toInt
    have hsq : held.toInt.sign * held.toInt.sign = 1 := by
      rw [hsgn]
      unfold legSign
      split_ifs <;> rfl
    have hleft' : held.toInt.sign * ((t.holdingsAt index).legQty short).toInt =
        |held.toInt| - fill.qty.toInt := by
      rw [hleft]
      linear_combination habs - fill.qty.toInt * hsq
    rw [← hsgn, hleft']
    omega
  · unfold Fill.signedNotional
    linear_combination hmoved

/-- Hedge accounting keeps the books balanced, when a close is within its leg. -/
theorem conserved_applyFillHedged {paid : Int} (h : Conserved s index paid)
    (hmode : s.mode = .hedge) (hqty : 0 < fill.qty)
    (hwithin : fill.offset = .closing →
      fill.qty ≤ satAbs ((s.holdingsAt index).legQty (hedgeShort fill))) :
    Ensures {Fault.cash, Fault.wide} (s.applyFillHedged index fill)
      (fun t => LegsOnly s t index ∧
        Conserved t index (paid + fill.signedNotional (s.holdingsAt index).contract)) := by
  rw [applyFillHedged_eq]
  cases hoff : fill.offset with
  | opening =>
    refine conserved_openHedged h hmode hqty ?_
    unfold hedgeShort
    rw [hoff]
    cases fill.side <;> rfl
  | closing =>
    refine conserved_closeHedged h hmode hqty ?_ (hwithin hoff)
    unfold hedgeShort
    rw [hoff]
    cases fill.side <;> rfl

/-! ## Conservation over a sequence of fills -/

/-- No fill of the sequence closes more than its leg holds when it is booked. -/
def WithinLegs : State → List Fill → Prop
  | _, [] => True
  | s, fill :: rest =>
    (fill.offset = .closing → ∀ index, s.holdingIndex fill.instrument = some index →
      fill.qty ≤ satAbs ((s.holdingsAt index).legQty (hedgeShort fill))) ∧
    WithinLegs (s.applyFill fill).val rest

/-- Booking a fill on the holding it names keeps the books balanced. -/
theorem conserved_applyFill {paid : Int} {fill : Fill} (h : Conserved s index paid)
    (hindex : s.holdingIndex fill.instrument = some index) (hqty : 0 < fill.qty)
    (hwithin : s.mode = .hedge → fill.offset = .closing →
      fill.qty ≤ satAbs ((s.holdingsAt index).legQty (hedgeShort fill))) :
    Ensures {Fault.cash, Fault.wide} (s.applyFill fill)
      (fun t => LegsOnly s t index ∧
        Conserved t index (paid + fill.signedNotional (s.holdingsAt index).contract)) := by
  unfold applyFill
  rw [hindex]
  simp only
  rcases hmode : s.mode with _ | _
  · exact conserved_applyFillNet h hmode hqty
  · exact conserved_applyFillHedged h hmode hqty (hwithin hmode)

theorem conserved_foldlM {x : InstrumentId} {paid : Int} {fills : List Fill}
    (h : Conserved s index paid) (hindex : s.holdingIndex x = some index)
    (hfills : ∀ f ∈ fills, f.instrument = x ∧ 0 < f.qty)
    (hwithin : s.mode = .hedge → s.WithinLegs fills) :
    Ensures {Fault.cash, Fault.wide} (fills.foldlM applyFill s)
      (fun t => LegsOnly s t index ∧ Conserved t index
        (paid + (fills.map (Fill.signedNotional (s.holdingsAt index).contract)).sum)) := by
  induction fills generalizing s paid with
  | nil =>
    refine ensures_pure ⟨⟨rfl, rfl, rfl, rfl⟩, ?_⟩
    simpa using h
  | cons fill rest ih =>
    obtain ⟨hinst, hqty⟩ := hfills fill List.mem_cons_self
    have hindex' : s.holdingIndex fill.instrument = some index := by rw [hinst]; exact hindex
    rw [List.foldlM_cons]
    -- the value after this fill is the state the rest is judged in
    intro hfree
    have hfirst := conserved_applyFill h hindex' hqty
      (fun hm hoff => (hwithin hm).1 hoff index hindex')
      (fun e he => ((free_bind e _ _).mp (hfree e he)).1)
    obtain ⟨hlegs, hcons⟩ := hfirst
    have hrest := ih hcons
      (by rw [holdingIndex_congr hlegs.instruments]; exact hindex)
      (fun f hf => hfills f (List.mem_cons_of_mem fill hf))
      (fun hm => (hwithin (hlegs.mode.symm.trans hm)).2)
      (fun e he => ((free_bind e _ _).mp (hfree e he)).2)
    obtain ⟨hlegs', hcons'⟩ := hrest
    refine ⟨hlegs.trans hlegs', ?_⟩
    rw [hlegs.contract] at hcons'
    rw [List.map_cons, List.sum_cons, ← add_assoc]
    exact hcons'

/-- A built account has booked nothing and holds nothing. -/
theorem Built.conserved {start : Cash} (hs : s.Built start) (hlt : index < s.holdings.length) :
    Conserved s index 0 := by
  have hzero : s.realized = 0 ∧ ∀ h ∈ s.holdings, h.qty = 0 ∧ h.shortQty = 0 := by
    clear hlt
    induction hs with
    | new instrument contract table => simp [State.new, Holding.new]
    | withFees _ fees ih => exact ih
    | withoutLiquidation _ ih => exact ih
    | withMode _ mode ih => exact ih
    | withMatching _ matching ih => exact ih
    | openHolding _ instrument contract table ih =>
      unfold State.openHolding
      split_ifs
      · exact ih
      · refine ⟨ih.1, ?_⟩
        intro h hh
        rcases List.mem_append.mp hh with hh | hh
        · exact ih.2 h hh
        · rw [List.mem_singleton.mp hh]
          exact ⟨rfl, rfl⟩
    | matchingWith _ hm hi ih =>
      refine ⟨ih.1, ?_⟩
      intro h hh
      obtain ⟨g, hg, hlegs⟩ := exists_of_mem_modify hh
      rcases hlegs with rfl | rfl
      · exact ih.2 h hg
      · exact ih.2 g hg
  obtain ⟨hreal, hlegs⟩ := hzero
  obtain ⟨hq, hsq⟩ := hlegs _ (holdingsAt_mem hlt)
  have hq' : (s.holdingsAt index).legQty false = 0 := hq
  have hsq' : (s.holdingsAt index).legQty true = 0 := hsq
  refine ⟨hlt, ?_, fun _ => hsq', fun _ => ?_⟩
  · unfold heldCost Holding.signedCost
    rw [hreal, hq', hsq']
    simp
  · rw [hq', hsq']
    exact ⟨le_rfl, le_rfl⟩

/-- **Fills conserve cash exactly.**  After any sequence of fills on one holding
in which nothing saturates, under one-way accounting through flat any number of
times or under hedge accounting within its legs, realized profit is the net cash
the fills moved plus the cost of what is held; when the holding is flat, it is
exactly the net cash. -/
theorem realized_eq_of_fills {start : Cash} {s : State} (hs : s.Built start) {x : InstrumentId}
    {index : Nat} (hx : s.holdingIndex x = some index) (fills : List Fill)
    (hfills : ∀ f ∈ fills, f.instrument = x ∧ 0 < f.qty)
    (hwithin : s.mode = .hedge → s.WithinLegs fills)
    (hcash : (fills.foldlM applyFill s).Free .cash)
    (hwide : (fills.foldlM applyFill s).Free .wide) :
    let t := (fills.foldlM applyFill s).val
    let h := t.holdingsAt index
    let received := -(fills.map (Fill.signedNotional h.contract)).sum
    t.realized.toInt = received +
        (match s.mode with
        | .oneWay => h.qty.toInt.sign * h.entryCost
        | .hedge => h.entryCost - h.shortEntryCost) ∧
      (h.isFlat = true → t.realized.toInt = received) := by
  intro t h received
  obtain ⟨hlegs, hcons⟩ : LegsOnly s t index ∧ Conserved t index
      (0 + (fills.map (Fill.signedNotional (s.holdingsAt index).contract)).sum) :=
    conserved_foldlM (hs.conserved (holdingIndex_lt hx)) hx hfills hwithin (by
      rintro e (rfl | rfl)
      · exact hcash
      · exact hwide)
  rw [← hlegs.contract, zero_add] at hcons
  have hcash' : t.realized.toInt + (fills.map (Fill.signedNotional h.contract)).sum =
      h.signedCost false + h.signedCost true := hcons.cash
  have hbooks : t.realized.toInt = received + (h.signedCost false + h.signedCost true) := by
    have hrec : received = -(fills.map (Fill.signedNotional h.contract)).sum := rfl
    omega
  refine ⟨?_, fun hflat => ?_⟩
  · rw [hbooks]
    congr 1
    rcases hmode : s.mode with _ | _
    · have hshort : h.legQty true = 0 := hcons.oneWay (hlegs.mode.trans hmode)
      have hz : h.signedCost true = 0 := by
        unfold Holding.signedCost
        rw [hshort]
        simp
      rw [hz, add_zero]
      rfl
    · obtain ⟨hlong, hshort⟩ := hcons.hedge (hlegs.mode.trans hmode)
      have hl : h.signedCost false = h.entryCost := Holding.signedCost_of_nonneg hlong
      have hsc : h.signedCost true = -h.shortEntryCost := Holding.signedCost_of_nonpos hshort
      rw [hl, hsc]
      ring
  · rw [hbooks]
    simp only [Holding.isFlat, Bool.and_eq_true, decide_eq_true_eq] at hflat
    have hq : h.legQty false = 0 := hflat.1
    have hsq : h.legQty true = 0 := hflat.2
    unfold Holding.signedCost
    rw [hq, hsq]
    simp

/-- Two uneven buys, a partial sell, and a sell through flat. -/
def unevenFills : List Fill :=
  [⟨⟨1, 1⟩, 7, 1, 1, .buy, .opening, 100, 3, .taker⟩,
    ⟨⟨2, 2⟩, 7, 2, 2, .buy, .opening, 107, 4, .taker⟩,
    ⟨⟨3, 3⟩, 7, 3, 3, .sell, .closing, 105, 2, .maker⟩,
    ⟨⟨4, 4⟩, 7, 4, 4, .sell, .closing, 96, 9, .maker⟩]

theorem realized_eq_of_unevenFills :
    let t := (unevenFills.foldlM applyFill (State.new 7 ⟨10⟩ Kernel.flatTable 100000)).val
    let h := t.holdingsAt 0
    t.realized.toInt =
      -(unevenFills.map (Fill.signedNotional h.contract)).sum + h.qty.toInt.sign * h.entryCost :=
  (realized_eq_of_fills (.new 7 ⟨10⟩ Kernel.flatTable) (x := 7) rfl unevenFills (by decide)
    (by intro h; cases h) (by decide +kernel) (by decide +kernel)).1

end State
