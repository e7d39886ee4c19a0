/-
# What a permit promises (`RiskGate::check` of `oq-risk/src/lib.rs`)

`Bounded` says in unbounded integers what the limits mean.  An order that is permitted
passed every check (`passed`), and it is within the limits except in three cases that the
checks do not see (`Unseen`): a market order with no mark to price it by, a position that
the saturated sum does not show, and a negative band that the division rounds to nothing.
An order whose notional cannot be represented is refused, except where the process stops
on the least position (`Stops`).
-/
import OpenQuanter.RiskGate
import OpenQuanter.Legs

namespace RiskGate

variable (limits : Limits) (order : ProposedOrder) (account : AccountState)
  (instrument : Instrument)

/-- The quantity of an order with its direction. -/
def signedQty : Int :=
  match order.side with
  | .buy => order.qty.toInt
  | .sell => -order.qty.toInt

/-- The price an order is valued at. -/
def reference : PriceTicks := order.limitPrice.getD account.mark

/-- What the limits allow an order that opens. -/
structure OpeningBounded : Prop where
  qty : order.qty ≤ limits.maxOrderQty
  position : |account.position.toInt + signedQty order| ≤ limits.maxPositionQty.toInt
  priced : 0 < reference order account
  notional : ∃ tickCash, instrument.tickCash = some tickCash ∧
    |order.qty.toInt| * (reference order account).toInt * tickCash.toInt
      ≤ limits.maxOrderNotional.toInt

/-- What the limits allow, in unbounded integers. -/
structure Bounded : Prop where
  qty : 0 < order.qty
  price : ∀ p, order.limitPrice = some p → 0 < p
  opening : order.reduceOnly = false → OpeningBounded limits order account instrument
  closing : order.reduceOnly = true → order.qty ≤ limits.maxPositionQty
  band : 0 < account.mark → ∀ p, order.limitPrice = some p →
    |p.toInt - account.mark.toInt| * ratioScale ≤ account.mark.toInt * limits.priceBand.toInt
  working : account.working < limits.maxWorking

/-- An order that opens at the market with no mark. -/
def Unmarked : Prop :=
  order.reduceOnly = false ∧ order.limitPrice = none ∧ account.mark ≤ 0

/-- A buy that carries the position past the largest integer, where that is the limit. -/
def Saturated : Prop :=
  order.reduceOnly = false ∧ order.side = .buy ∧
    2 ^ 63 ≤ account.position.toInt + order.qty.toInt ∧ limits.maxPositionQty = Int64.maxValue

/-- A limit price at the mark under a negative band of less than a unit. -/
def RoundedBand : Prop :=
  0 < account.mark ∧ order.limitPrice = some account.mark ∧
    -ratioScale < account.mark.toInt * limits.priceBand.toInt ∧ limits.priceBand < 0

/-- What the checks do not see. -/
def Unseen : Prop :=
  Unmarked order account ∨ Saturated limits order account ∨ RoundedBand limits order account

/-- A sell that carries the position to the least integer or below stops the process, if
nothing refuses it first. -/
def Stops (tripped : Bool) : Prop :=
  tripped = false ∧ 0 < order.qty ∧ (∀ p, order.limitPrice = some p → 0 < p) ∧
    order.reduceOnly = false ∧ order.qty ≤ limits.maxOrderQty ∧
    account.position.toInt + signedQty order ≤ -2 ^ 63

variable {limits order account instrument}

/-! ## The checks in unbounded integers -/

theorem signedQty_of_buy (h : order.side = .buy) : signedQty order = order.qty.toInt := by
  rw [signedQty, h]

/-- Where an order that opens carries the position, as far as 64 bits can say. -/
theorem toInt_resulting (hqty : 0 < order.qty.toInt) (hopen : order.reduceOnly = false) :
    (resulting order account).toInt
      = max (-2 ^ 63) (min (account.position.toInt + signedQty order) (2 ^ 63 - 1)) := by
  unfold resulting signedQty
  rw [hopen]
  cases order.side with
  | buy => exact toInt_clamp _
  | sell =>
    have hneg : (-order.qty).toInt = -order.qty.toInt := by
      have := Int64.toInt_lt order.qty
      rw [Int64.toInt_neg, Int.bmod_eq_of_le (by omega) (by omega)]
    show (satAdd account.position (-order.qty)).toInt = _
    rw [satAdd, toInt_clamp, hneg]

/-- The position check sees the true sum, short of both ends of the integers. -/
theorem position_checked (hqty : 0 < order.qty.toInt) (hopen : order.reduceOnly = false)
    (hmin : resulting order account ≠ Int64.minValue) :
    satAbs (resulting order account) ≤ limits.maxPositionQty ↔
      |account.position.toInt + signedQty order| ≤ limits.maxPositionQty.toInt ∨
        Saturated limits order account := by
  have hresult : (resulting order account).toInt
      = max (-2 ^ 63) (min (account.position.toInt + signedQty order) (2 ^ 63 - 1)) :=
    toInt_resulting hqty hopen
  have hne : (resulting order account).toInt ≠ -2 ^ 63 := fun h => hmin (Int64.toInt_inj.mp h)
  have hlimit := Int64.toInt_lt limits.maxPositionQty
  have hmax : limits.maxPositionQty = Int64.maxValue ↔
      limits.maxPositionQty.toInt = 2 ^ 63 - 1 := by
    rw [← Int64.toInt_inj, Int64.toInt_maxValue]
  have hposition := Int64.toInt_lt account.position
  -- only a buy carries the sum past the largest integer
  have hbuy : 2 ^ 63 ≤ account.position.toInt + signedQty order → order.side = .buy ∧
      account.position.toInt + signedQty order = account.position.toInt + order.qty.toInt := by
    unfold signedQty
    cases order.side with
    | buy => exact fun _ => ⟨rfl, rfl⟩
    | sell =>
      simp only
      omega
  have hsaturated : Saturated limits order account ↔
      2 ^ 63 ≤ account.position.toInt + signedQty order ∧
        limits.maxPositionQty.toInt = 2 ^ 63 - 1 := by
    constructor
    · rintro ⟨-, hside, hpast, hlim⟩
      rw [signedQty_of_buy hside]
      exact ⟨hpast, hmax.mp hlim⟩
    · rintro ⟨hpast, hlim⟩
      obtain ⟨hside, hsum⟩ := hbuy hpast
      exact ⟨hopen, hside, hsum ▸ hpast, hmax.mpr hlim⟩
  rw [hsaturated, Int64.le_iff_toInt_le, toInt_satAbs]
  generalize account.position.toInt + signedQty order = sum at hresult ⊢
  rcases abs_cases (resulting order account).toInt with ⟨h, hs⟩ | ⟨h, hs⟩
  · rcases abs_cases sum with ⟨h', hs'⟩ | ⟨h', hs'⟩
    · omega
    · omega
  · rcases abs_cases sum with ⟨h', hs'⟩ | ⟨h', hs'⟩
    · omega
    · omega

/-- The band check, in unbounded integers. -/
theorem inBand_iff {p : PriceTicks} (hmark : 0 < account.mark.toInt) :
    |p.toInt - account.mark.toInt| ≤ allowedDistance limits account ↔
      |p.toInt - account.mark.toInt| * ratioScale ≤ account.mark.toInt * limits.priceBand.toInt ∨
        (p = account.mark ∧ -ratioScale < account.mark.toInt * limits.priceBand.toInt ∧
          limits.priceBand < 0) := by
  have hband : limits.priceBand < 0 ↔ account.mark.toInt * limits.priceBand.toInt < 0 := by
    rw [Int64.lt_iff_toInt_lt, Int64.toInt_zero]
    constructor
    · exact mul_neg_of_pos_of_neg hmark
    · exact fun h => neg_of_mul_neg_right h hmark.le
  have hsame : p = account.mark ↔ |p.toInt - account.mark.toInt| = 0 := by
    rw [abs_eq_zero, sub_eq_zero, Int64.toInt_inj]
  have hdist := abs_nonneg (p.toInt - account.mark.toInt)
  rw [hband, hsame, allowedDistance]
  generalize |p.toInt - account.mark.toInt| = distance at hdist ⊢
  generalize account.mark.toInt * limits.priceBand.toInt = room
  have hdiv := Int.tdiv_mul_add_tmod room ratioScale
  unfold ratioScale at hdiv ⊢
  rcases lt_or_ge room 0 with hneg | hpos
  · have hlow := Int.lt_tmod_of_pos room (show (0 : Int) < 1000000000 by norm_num)
    have hhigh : room.tmod 1000000000 ≤ 0 := by
      rw [← neg_neg room, Int.neg_tmod]
      exact neg_nonpos.mpr (Int.tmod_nonneg _ (by omega))
    omega
  · have hlow := Int.tmod_nonneg 1000000000 hpos
    have hhigh := Int.tmod_lt_of_pos room (show (0 : Int) < 1000000000 by norm_num)
    omega

/-- The check of a limit price. -/
theorem not_any_nonpos_iff :
    ¬ order.limitPrice.any (· ≤ 0) = true ↔ ∀ p, order.limitPrice = some p → 0 < p := by
  cases order.limitPrice with
  | none => simp
  | some p =>
    rw [Option.any_some, decide_eq_true_eq, Int64.not_le]
    constructor
    · rintro hp _ ⟨⟩
      exact hp
    · exact fun h => h p rfl

/-- What it takes to pass. -/
structure Passed (limits : Limits) (order : ProposedOrder) (account : AccountState)
    (instrument : Instrument) (tripped : Bool) : Prop where
  running : tripped = false
  qty : 0 < order.qty
  price : ∀ p, order.limitPrice = some p → 0 < p
  size : order.qty ≤ maxQty limits order
  noStop : order.reduceOnly = false → resulting order account ≠ Int64.minValue
  position : order.reduceOnly = false → satAbs (resulting order account) ≤ limits.maxPositionQty
  notional : ∃ n, instrument.notional (reference order account) order.qty = some n ∧
    (order.reduceOnly = false → n ≤ limits.maxOrderNotional)
  band : 0 < account.mark → ∀ p, order.limitPrice = some p →
    |p.toInt - account.mark.toInt| ≤ allowedDistance limits account
  working : account.working < limits.maxWorking

theorem passed {tripped : Bool} (h : screen limits order account instrument tripped = .pass) :
    Passed limits order account instrument tripped := by
  unfold screen at h
  iterate 6
    split at h
    · cases h
  rename_i htrip hqty hprice hsize hstop hposition
  cases hnotional : instrument.notional (order.limitPrice.getD account.mark) order.qty with
  | none => simp [hnotional] at h
  | some n =>
    simp only [hnotional] at h
    split at h
    · cases h
    rename_i hlarge
    cases hband : order.limitPrice.filter (outsideBand limits account) with
    | some p => simp [hband] at h
    | none =>
      simp only [hband] at h
      split at h
      · cases h
      rename_i hworking
      constructor
      · exact Bool.eq_false_iff.mpr htrip
      · exact Int64.not_le.mp hqty
      · exact not_any_nonpos_iff.mp hprice
      · exact Int64.not_lt.mp hsize
      · intro hopen hmin
        exact hstop (by simp [hopen, hmin])
      · intro hopen
        by_contra hle
        exact hposition (by simp [hopen, Int64.not_le.mp hle])
      · refine ⟨n, hnotional, ?_⟩
        intro hopen
        by_contra hle
        exact hlarge (by simp [hopen, Int64.not_le.mp hle])
      · intro hmark p hp
        rw [hp, Option.filter_eq_none_iff] at hband
        have hout := hband p rfl
        rw [outsideBand, Bool.and_eq_true, decide_eq_true_eq, decide_eq_true_eq, not_and] at hout
        exact not_lt.mp (hout hmark)
      · exact UInt32.not_le.mp hworking

theorem screen_of_permit {g : RiskGate} {now : Nanos} {permit : Permit}
    (h : (g.check order account instrument now).2 = some (.permit permit)) :
    screen g.limits order account instrument g.tripped = .pass := by
  unfold check at h
  cases hscreen : screen g.limits order account instrument g.tripped with
  | pass => rfl
  | refuse breach => simp [hscreen] at h
  | panic => simp [hscreen] at h

/-! ## What a permit promises -/

/-- What the checks do not see is beyond the limits. -/
theorem Bounded.not_unseen (hb : Bounded limits order account instrument) :
    ¬ Unseen limits order account := by
  rintro (⟨hopen, hmarket, hmark⟩ | ⟨hopen, hside, hpast, hmax⟩ | ⟨hmark, hlimit, -, hband⟩)
  · have hpriced := (hb.opening hopen).priced
    rw [reference, hmarket] at hpriced
    exact absurd hmark (Int64.not_le.mpr hpriced)
  · have hposition := (hb.opening hopen).position
    rw [signedQty_of_buy hside, hmax, Int64.toInt_maxValue] at hposition
    have := (abs_le.mp hposition).2
    omega
  · have hzero := hb.band hmark _ hlimit
    have hneg := mul_neg_of_pos_of_neg (lt_iff_toInt.mp hmark) (lt_iff_toInt.mp hband)
    rw [sub_self, abs_zero, zero_mul] at hzero
    exact absurd hzero (not_le.mpr hneg)

/-- An order that passed and opens is within the limits on opening. -/
theorem Passed.opening {tripped : Bool} (h : Passed limits order account instrument tripped)
    (hunseen : ¬ Unseen limits order account) (hopen : order.reduceOnly = false) :
    OpeningBounded limits order account instrument := by
  have hqty : 0 < order.qty.toInt := lt_iff_toInt.mp h.qty
  constructor
  · have hsize := h.size
    rwa [maxQty, hopen] at hsize
  · rcases (position_checked hqty hopen (h.noStop hopen)).mp (h.position hopen) with hin | hsat
    · exact hin
    · exact absurd (Or.inr (Or.inl hsat)) hunseen
  · unfold reference
    cases hlimit : order.limitPrice with
    | some p => exact h.price p hlimit
    | none => exact Int64.not_le.mp fun hmark => hunseen (Or.inl ⟨hopen, hlimit, hmark⟩)
  · obtain ⟨n, hnotional, hlarge⟩ := h.notional
    obtain ⟨tickCash, htick, hvalue⟩ := Instrument.notional_eq_some.mp hnotional
    refine ⟨tickCash, htick, ?_⟩
    have hle := Int64.le_iff_toInt_le.mp (hlarge hopen)
    have habs : (satAbs order.qty).toInt = |order.qty.toInt| := by
      have := Int64.toInt_lt order.qty
      rw [toInt_satAbs, abs_of_pos hqty]
      omega
    rw [hvalue, habs, mul_comm (reference order account).toInt] at hle
    exact hle

/-- **An order that passed is within the limits, but for what the checks do not see.** -/
theorem Passed.bounded_iff {tripped : Bool} (h : Passed limits order account instrument tripped) :
    Bounded limits order account instrument ↔ ¬ Unseen limits order account := by
  constructor
  · exact Bounded.not_unseen
  · intro hunseen
    refine ⟨h.qty, h.price, h.opening hunseen, ?_, ?_, h.working⟩
    · intro hclose
      have hsize := h.size
      rwa [maxQty, hclose] at hsize
    · intro hmark p hp
      rcases (inBand_iff (lt_iff_toInt.mp hmark)).mp (h.band hmark p hp) with
        hin | ⟨rfl, hroom, hneg⟩
      · exact hin
      · exact absurd (Or.inr (Or.inr ⟨hmark, hp, hroom, hneg⟩)) hunseen

theorem resulting_eq_min (hqty : 0 < order.qty.toInt) (hopen : order.reduceOnly = false) :
    resulting order account = Int64.minValue ↔
      account.position.toInt + signedQty order ≤ -2 ^ 63 := by
  rw [← Int64.toInt_inj, toInt_resulting hqty hopen, Int64.toInt_minValue]
  omega

/-- **When the process stops.** -/
theorem screen_eq_panic_iff {tripped : Bool} :
    screen limits order account instrument tripped = .panic ↔
      Stops limits order account tripped := by
  constructor
  · intro h
    unfold screen at h
    iterate 4
      split at h
      · cases h
    rename_i htrip hqty hprice hsize
    split at h
    · rename_i hstop
      rw [Bool.and_eq_true, Bool.not_eq_true', decide_eq_true_eq] at hstop
      obtain ⟨hopen, hmin⟩ := hstop
      have hpos := Int64.not_le.mp hqty
      refine ⟨Bool.eq_false_iff.mpr htrip, hpos, not_any_nonpos_iff.mp hprice, hopen, ?_, ?_⟩
      · rw [maxQty, hopen] at hsize
        exact Int64.not_lt.mp hsize
      · exact (resulting_eq_min (lt_iff_toInt.mp hpos) hopen).mp hmin
    · -- past that check nothing stops
      exfalso
      split at h
      · cases h
      split at h
      · cases h
      split at h
      · cases h
      split at h
      · cases h
      split at h
      · cases h
      · cases h
  · rintro ⟨htrip, hqty, hprice, hopen, hsize, hsum⟩
    have hmin := (resulting_eq_min (lt_iff_toInt.mp hqty) hopen).mpr hsum
    unfold screen
    rw [if_neg (by simp [htrip]), if_neg (Int64.not_le.mpr hqty),
      if_neg (not_any_nonpos_iff.mpr hprice),
      if_neg (by rw [maxQty, hopen]; exact Int64.not_lt.mpr hsize),
      if_pos (by simp [hopen, hmin])]

/-- An order without a notional is refused, unless the process stops first. -/
theorem refused_iff {g : RiskGate} {now : Nanos}
    (h : instrument.notional (reference order account) order.qty = none) :
    (∃ breach, (g.check order account instrument now).2 = some (.refuse breach)) ↔
      ¬ Stops g.limits order account g.tripped := by
  have hstops : screen g.limits order account instrument g.tripped = .panic ↔
      Stops g.limits order account g.tripped := screen_eq_panic_iff
  rw [← hstops]
  unfold check
  cases hscreen : screen g.limits order account instrument g.tripped with
  | pass =>
    obtain ⟨n, hsome, -⟩ := (passed hscreen).notional
    rw [h] at hsome
    cases hsome
  | refuse breach => simp
  | panic => simp

/-- **What the gate promises, and when it keeps it.**  An order it permits is within the
limits exactly if it is none of the orders that the checks do not see, and an order without
a notional is refused exactly if it does not stop the process. -/
theorem check_sound_iff (g : RiskGate) (order : ProposedOrder) (account : AccountState)
    (instrument : Instrument) (now : Nanos) :
    (∀ permit, (g.check order account instrument now).2 = some (.permit permit) →
      (Bounded g.limits order account instrument ↔ ¬ Unseen g.limits order account)) ∧
    (instrument.notional (reference order account) order.qty = none →
      ((∃ breach, (g.check order account instrument now).2 = some (.refuse breach)) ↔
        ¬ Stops g.limits order account g.tripped)) := by
  constructor
  · exact fun _ h => (passed (screen_of_permit h)).bounded_iff
  · exact refused_iff

/-- A limit order near the mark. -/
theorem check_sound_iff_near :
    let g := RiskGate.new ⟨10, 20, 1000000000000, 50000000, 5, 5, 1000⟩
    let order : ProposedOrder := ⟨.buy, some 6000000, 2, false⟩
    let account : AccountState := ⟨3, 6100000, 0⟩
    (g.check order account ⟨2, 3, 100000000⟩ 7).2 = some (.permit ⟨order, 7⟩) ∧
      (Bounded g.limits order account ⟨2, 3, 100000000⟩ ↔ ¬ Unseen g.limits order account) :=
  ⟨by decide, (check_sound_iff _ _ _ _ 7).1 ⟨⟨.buy, some 6000000, 2, false⟩, 7⟩ (by decide)⟩

/-- Ten lots at the market with no mark pass a limit of one unit of cash; a buy passes a
position limit at the largest integer; a price at the mark passes a negative band. -/
theorem permitted_unseen :
    (((RiskGate.new ⟨10, 10, 1, 0, 5, 5, 1000⟩).check ⟨.buy, none, 10, false⟩ ⟨0, 0, 0⟩
          ⟨2, 3, 100000000⟩ 7).2 = some (.permit ⟨⟨.buy, none, 10, false⟩, 7⟩) ∧
        ¬ Bounded ⟨10, 10, 1, 0, 5, 5, 1000⟩ ⟨.buy, none, 10, false⟩ ⟨0, 0, 0⟩ ⟨2, 3, 100000000⟩) ∧
      (((RiskGate.new ⟨10, Int64.maxValue, 100000, 0, 5, 5, 1000⟩).check ⟨.buy, some 5, 2, false⟩
            ⟨Int64.maxValue, 0, 0⟩ ⟨2, 3, 100000000⟩ 7).2
          = some (.permit ⟨⟨.buy, some 5, 2, false⟩, 7⟩) ∧
        ¬ Bounded ⟨10, Int64.maxValue, 100000, 0, 5, 5, 1000⟩ ⟨.buy, some 5, 2, false⟩
          ⟨Int64.maxValue, 0, 0⟩ ⟨2, 3, 100000000⟩) ∧
      ((RiskGate.new ⟨10, 10, 100000, -1, 5, 5, 1000⟩).check ⟨.buy, some 5, 2, false⟩ ⟨0, 5, 0⟩
            ⟨2, 3, 100000000⟩ 7).2 = some (.permit ⟨⟨.buy, some 5, 2, false⟩, 7⟩) ∧
        ¬ Bounded ⟨10, 10, 100000, -1, 5, 5, 1000⟩ ⟨.buy, some 5, 2, false⟩ ⟨0, 5, 0⟩
          ⟨2, 3, 100000000⟩ := by
  refine ⟨⟨by decide, fun h => ?_⟩, ⟨by decide, fun h => ?_⟩, by decide, fun h => ?_⟩
  · exact absurd (h.opening rfl).priced (by decide)
  · exact absurd (h.opening rfl).position (by decide)
  · exact absurd (h.band (by decide) 5 rfl) (by decide)

end RiskGate
