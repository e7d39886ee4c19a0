/-
# The gate before an order leaves (`oq-risk/src/lib.rs`)

`check` permits an order or says which limit it broke.  The rate is looked at last:
what was refused before is not counted (`check_cases`), and the times kept are those
of the permits less than a window old, so no window holds more permits than the rate
allows (`rate_limited`).
-/
import OpenQuanter.Instrument
import OpenQuanter.Window

/-- An order that nothing has approved yet. -/
structure ProposedOrder where
  side : Side
  limitPrice : Option PriceTicks
  qty : QtyLots
  reduceOnly : Bool
  deriving DecidableEq, Repr

/-- What the account looks like, as far as the caller knows. -/
structure AccountState where
  position : QtyLots
  mark : PriceTicks
  working : UInt32
  deriving DecidableEq, Repr

/-- The limits an account trades under. -/
structure Limits where
  maxOrderQty : QtyLots
  maxPositionQty : QtyLots
  maxOrderNotional : Cash
  priceBand : Ratio
  maxWorking : UInt32
  maxRate : UInt32
  rateWindow : Nanos
  deriving DecidableEq, Repr

/-- Limits that refuse everything. -/
def Limits.closed : Limits := ⟨0, 0, 0, 0, 0, 0, 1000000000⟩

/-- Why an order was refused. -/
inductive Breach where
  | halted
  | orderTooLarge (qty limit : QtyLots)
  | positionWouldExceed (resulting limit : QtyLots)
  | notionalTooLarge (notional limit : Cash)
  | priceOutsideBand (price mark : PriceTicks) (limit : Ratio)
  | tooManyWorking (working limit : UInt32)
  | tooFast (sent limit : UInt32)
  | malformed (why : String)
  | unpriceable
  deriving DecidableEq, Repr

/-- An approved order. -/
structure Permit where
  order : ProposedOrder
  at_ : Nanos
  deriving DecidableEq, Repr

inductive Decision where
  | permit (permit : Permit)
  | refuse (breach : Breach)
  deriving DecidableEq, Repr

/-- The gate: its limits, its switch, and when it last permitted. -/
structure RiskGate where
  limits : Limits
  tripped : Bool
  recent : List Nanos
  deriving DecidableEq, Repr

namespace RiskGate

def new (limits : Limits) : RiskGate := ⟨limits, false, []⟩

/-- The switch stops everything until it is cleared. -/
def trip (g : RiskGate) : RiskGate := { g with tripped := true }

def clear (g : RiskGate) : RiskGate := { g with tripped := false }

/-! ## The checks -/

/-- What the checks before the rate come to; `panic` is an overflow that stops the
process. -/
inductive Screen where
  | pass
  | refuse (breach : Breach)
  | panic
  deriving DecidableEq, Repr

section Screening

variable (limits : Limits) (order : ProposedOrder) (account : AccountState)
  (instrument : Instrument)

/-- How large an order may be: a close is bounded by the largest position. -/
def maxQty : QtyLots := if order.reduceOnly then limits.maxPositionQty else limits.maxOrderQty

/-- Where the position ends up if all of the order fills. -/
def resulting : QtyLots :=
  let signed := match order.side with
    | .buy => order.qty
    | .sell => -order.qty
  if order.reduceOnly then account.position else satAdd account.position signed

/-- How far a limit price may be from the mark. -/
def allowedDistance : Int := (account.mark.toInt * limits.priceBand.toInt).tdiv ratioScale

/-- Whether a limit price is too far from the mark; with no mark, none is. -/
def outsideBand (price : PriceTicks) : Bool :=
  0 < account.mark && allowedDistance limits account < |price.toInt - account.mark.toInt|

/-- The checks in the order of the source, as far as the rate. -/
def screen (tripped : Bool) : Screen :=
  if tripped then .refuse .halted
  else if order.qty ≤ 0 then
    .refuse (.malformed "quantity must be positive; direction is the side")
  else if order.limitPrice.any (· ≤ 0) then
    .refuse (.malformed "a limit price of zero is an order to trade at nothing")
  else if maxQty limits order < order.qty then
    .refuse (.orderTooLarge order.qty (maxQty limits order))
  -- the absolute value of the least integer overflows
  else if !order.reduceOnly && resulting order account = Int64.minValue then .panic
  else if !order.reduceOnly && limits.maxPositionQty < satAbs (resulting order account) then
    .refuse (.positionWouldExceed (resulting order account) limits.maxPositionQty)
  else
    match instrument.notional (order.limitPrice.getD account.mark) order.qty with
    | none => .refuse .unpriceable
    | some notional =>
      if !order.reduceOnly && limits.maxOrderNotional < notional then
        .refuse (.notionalTooLarge notional limits.maxOrderNotional)
      else
        match order.limitPrice.filter (outsideBand limits account) with
        | some price => .refuse (.priceOutsideBand price account.mark limits.priceBand)
        | none =>
          if limits.maxWorking ≤ account.working then
            .refuse (.tooManyWorking account.working limits.maxWorking)
          else .pass

end Screening

/-- How many permits are counted, as the source's counter holds it. -/
def sent (recent : List Nanos) : UInt32 :=
  if recent.length < 2 ^ 32 then UInt32.ofNat recent.length else 4294967295

/-- The times still counted. -/
def counted (g : RiskGate) (now : Nanos) : List Nanos :=
  g.recent.filter fun t => satSub now t < g.limits.rateWindow

/-- Decide whether an order may be sent; no decision, if the process stops. -/
def check (g : RiskGate) (order : ProposedOrder) (account : AccountState)
    (instrument : Instrument) (now : Nanos) : RiskGate × Option Decision :=
  match screen g.limits order account instrument g.tripped with
  | .refuse breach => (g, some (.refuse breach))
  | .panic => (g, none)
  | .pass =>
    let recent := g.counted now
    if g.limits.maxRate ≤ sent recent then
      ({ g with recent := recent }, some (.refuse (.tooFast (sent recent) g.limits.maxRate)))
    else ({ g with recent := recent ++ [now] }, some (.permit ⟨order, now⟩))

/-- **What a check can do**: refuse before the rate or stop, and leave the gate as it
was; refuse for the rate, and forget what is not counted; or permit, and count it. -/
theorem check_cases (g : RiskGate) (order : ProposedOrder) (account : AccountState)
    (instrument : Instrument) (now : Nanos) :
    (∃ breach, g.check order account instrument now = (g, some (.refuse breach))) ∨
    g.check order account instrument now = (g, none) ∨
    g.check order account instrument now =
      ({ g with recent := g.counted now },
        some (.refuse (.tooFast (sent (g.counted now)) g.limits.maxRate))) ∨
    sent (g.counted now) < g.limits.maxRate ∧
      g.check order account instrument now =
        ({ g with recent := g.counted now ++ [now] }, some (.permit ⟨order, now⟩)) := by
  unfold check
  cases hscreen : screen g.limits order account instrument g.tripped with
  | refuse breach => exact .inl ⟨breach, rfl⟩
  | panic => exact .inr (.inl rfl)
  | pass =>
    by_cases hrate : g.limits.maxRate ≤ sent (g.counted now)
    · exact .inr (.inr (.inl (if_pos hrate)))
    · exact .inr (.inr (.inr ⟨UInt32.not_le.mp hrate, if_neg hrate⟩))

/-- A refusal that is not of the rate leaves the gate as it was. -/
theorem check_refused {g : RiskGate} {order : ProposedOrder} {account : AccountState}
    {instrument : Instrument} {now : Nanos} {breach : Breach}
    (h : (g.check order account instrument now).2 = some (.refuse breach))
    (hother : ∀ n limit, breach ≠ .tooFast n limit) :
    (g.check order account instrument now).1 = g := by
  rcases g.check_cases order account instrument now with
    ⟨_, hcheck⟩ | hcheck | hcheck | ⟨-, hcheck⟩
  · rw [hcheck]
  · rw [hcheck]
  · rw [hcheck] at h
    exact absurd (Decision.refuse.inj (Option.some.inj h)).symm (hother _ _)
  · rw [hcheck] at h
    cases Option.some.inj h

/-! ## A run of the gate -/

/-- Something done to the gate. -/
inductive Step where
  | trip
  | clear
  | check (order : ProposedOrder) (account : AccountState) (instrument : Instrument) (now : Nanos)
  deriving DecidableEq, Repr

/-- When a check was asked for. -/
def Step.now : Step → Option Nanos
  | .check _ _ _ now => some now
  | _ => none

def step (g : RiskGate) : Step → RiskGate × Option Decision
  | .trip => (g.trip, none)
  | .clear => (g.clear, none)
  | .check order account instrument now => g.check order account instrument now

/-- When a decision permitted. -/
def permitted : Option Decision → List Nanos
  | some (.permit p) => [p.at_]
  | _ => []

/-- The times of the permits of a run, in order. -/
def permits : RiskGate → List Step → List Nanos
  | _, [] => []
  | g, s :: steps => permitted (g.step s).2 ++ permits (g.step s).1 steps

/-- The age the gate compares saturates only past every window there is. -/
theorem satSub_lt_iff {now t window : Nanos} (hle : t ≤ now) :
    satSub now t < window ↔ Window.Live window.toInt now.toInt t.toInt := by
  have hdiff := Int64.le_iff_toInt_le.mp hle
  have hwindow := Int64.toInt_lt window
  rw [Int64.lt_iff_toInt_lt, Window.Live, satSub]
  by_cases hfits : FitsI64 (now.toInt - t.toInt)
  · rw [toInt_ofIntClamp_of_fits hfits]
  · have hbig : ¬ now.toInt - t.toInt ≤ Int64.maxValue.toInt := by
      rw [Int64.toInt_maxValue]
      unfold FitsI64 at hfits
      omega
    have hlow : Int64.minValue.toInt ≤ now.toInt - t.toInt := by
      rw [Int64.toInt_minValue]
      omega
    rw [Int64.ofIntClamp, dif_pos hlow, dif_neg hbig]
    rw [Int64.toInt_maxValue] at hbig ⊢
    omega

/-- What the gate keeps of the permits so far, and that no window holds too many.
`clock` is a time that was reached. -/
structure Kept (g : RiskGate) (log : List Nanos) (clock : Nanos) : Prop where
  /-- From now on, what is kept answers for all of the log. -/
  kept : ∀ now, clock ≤ now → g.counted now =
    Window.live Int64.toInt g.limits.rateWindow.toInt now.toInt log
  past : ∀ t ∈ g.recent, t ≤ clock
  bounded : ∀ t : Int, (Window.within Int64.toInt g.limits.rateWindow.toInt t log).length ≤
    g.limits.maxRate.toNat

theorem kept_new (limits : Limits) (clock : Nanos) : Kept (new limits) [] clock where
  kept _ _ := rfl
  past _ h := absurd h List.not_mem_nil
  bounded _ := Nat.zero_le _

/-- The times counted are live ones, where none is ahead of the clock. -/
theorem counted_eq_live {g : RiskGate} {now : Nanos} (hle : ∀ t ∈ g.recent, t ≤ now) :
    g.counted now = Window.live Int64.toInt g.limits.rateWindow.toInt now.toInt g.recent := by
  unfold counted Window.live
  apply List.filter_congr
  intro t ht
  rw [decide_eq_decide]
  exact satSub_lt_iff (hle t ht)

variable {g : RiskGate} {log : List Nanos} {clock : Nanos}

theorem Kept.later (h : Kept g log clock) {now : Nanos} (hle : clock ≤ now) : Kept g log now where
  kept later hlater := h.kept later (Int64.le_trans hle hlater)
  past t ht := Int64.le_trans (h.past t ht) hle
  bounded := h.bounded

/-- Neither the switch nor a refusal changes what is kept. -/
theorem Kept.congr {g' : RiskGate} (h : Kept g log clock) (hlimits : g'.limits = g.limits)
    (hrecent : g'.recent = g.recent) : Kept g' log clock where
  kept now hle := by
    unfold counted
    rw [hlimits, hrecent]
    exact h.kept now hle
  past := hrecent ▸ h.past
  bounded := hlimits ▸ h.bounded

/-- Forgetting what is no longer counted. -/
theorem Kept.pruned (h : Kept g log clock) :
    Kept { g with recent := g.counted clock } log clock where
  kept now hle := by
    have hpast : ∀ t ∈ g.recent, t ≤ now := fun t ht => Int64.le_trans (h.past t ht) hle
    have hpast' : ∀ t ∈ g.counted clock, t ≤ now := fun t ht =>
      hpast t (List.mem_of_mem_filter ht)
    rw [← h.kept now hle, counted_eq_live hpast, counted_eq_live hpast',
      counted_eq_live h.past]
    exact Window.live_live _ (Int64.le_iff_toInt_le.mp hle) _
  past t ht := h.past t (List.mem_of_mem_filter ht)
  bounded := h.bounded

/-- Counting a permit that the rate had room for. -/
theorem Kept.permitted (h : Kept g log clock)
    (hroom : (g.counted clock).length < g.limits.maxRate.toNat) :
    Kept { g with recent := g.recent ++ [clock] } (log ++ [clock]) clock where
  kept now hle := by
    have hpast : ∀ t ∈ g.recent ++ [clock], t ≤ now := by
      intro t ht
      rcases List.mem_append.mp ht with ht | ht
      · exact Int64.le_trans (h.past t ht) hle
      · rw [List.mem_singleton.mp ht]
        exact hle
    rw [counted_eq_live hpast, Window.live_append, Window.live_append, ← h.kept now hle,
      counted_eq_live fun t ht => Int64.le_trans (h.past t ht) hle]
  past t ht := by
    rcases List.mem_append.mp ht with ht | ht
    · exact h.past t ht
    · rw [List.mem_singleton.mp ht]
      exact Int64.le_refl clock
  bounded := by
    apply Window.within_snoc_le _ h.bounded
    rw [← h.kept clock (Int64.le_refl clock)]
    exact hroom

/-- A counter below the rate counted everything. -/
theorem length_lt_of_sent_lt {recent : List Nanos} {limit : UInt32} (h : sent recent < limit) :
    recent.length < limit.toNat := by
  unfold sent at h
  rw [UInt32.lt_iff_toNat_lt] at h
  split at h
  · rename_i hfits
    rwa [UInt32.toNat_ofNat_of_lt' hfits] at h
  · have hlt := limit.toNat_lt
    have hmax : (4294967295 : UInt32).toNat = 4294967295 := rfl
    omega

/-- Step: a check at a time that is no earlier. -/
theorem Kept.check (h : Kept g log clock) (order : ProposedOrder) (account : AccountState)
    (instrument : Instrument) {now : Nanos} (hle : clock ≤ now) :
    Kept (g.check order account instrument now).1
      (log ++ RiskGate.permitted (g.check order account instrument now).2) now := by
  have hlater := h.later hle
  rcases g.check_cases order account instrument now with
    ⟨_, hcheck⟩ | hcheck | hcheck | ⟨hrate, hcheck⟩
  · rw [hcheck]
    simpa [RiskGate.permitted] using hlater
  · rw [hcheck]
    simpa [RiskGate.permitted] using hlater
  · rw [hcheck]
    simpa [RiskGate.permitted] using hlater.pruned
  · rw [hcheck]
    have hpruned := hlater.pruned
    apply hpruned.permitted
    have hroom := length_lt_of_sent_lt hrate
    refine Nat.lt_of_le_of_lt ?_ hroom
    exact List.length_filter_le _ _

theorem Kept.step (h : Kept g log clock) (s : Step)
    (hle : ∀ now, s.now = some now → clock ≤ now) :
    Kept (g.step s).1 (log ++ RiskGate.permitted (g.step s).2) (s.now.getD clock) := by
  cases s with
  | trip =>
    show Kept g.trip (log ++ []) clock
    rw [List.append_nil]
    exact h.congr rfl rfl
  | clear =>
    show Kept g.clear (log ++ []) clock
    rw [List.append_nil]
    exact h.congr rfl rfl
  | check order account instrument now => exact h.check order account instrument (hle now rfl)

theorem limits_step (g : RiskGate) (s : Step) : (g.step s).1.limits = g.limits := by
  cases s with
  | trip => rfl
  | clear => rfl
  | check order account instrument now =>
    show (g.check order account instrument now).1.limits = g.limits
    rcases g.check_cases order account instrument now with
      ⟨_, hcheck⟩ | hcheck | hcheck | ⟨-, hcheck⟩ <;> rw [hcheck]

/-- Run: no window holds too many permits, after any steps whose times do not go
back. -/
theorem Kept.run (h : Kept g log clock) (steps : List Step)
    (hclock : (clock :: steps.filterMap Step.now).Pairwise (· ≤ ·)) (t : Int) :
    (Window.within Int64.toInt g.limits.rateWindow.toInt t (log ++ permits g steps)).length ≤
      g.limits.maxRate.toNat := by
  induction steps generalizing g log clock with
  | nil =>
    rw [permits, List.append_nil]
    exact h.bounded t
  | cons s steps ih =>
    have hle : ∀ now, s.now = some now → clock ≤ now := by
      intro now hnow
      rw [List.filterMap_cons_some hnow] at hclock
      exact List.rel_of_pairwise_cons hclock List.mem_cons_self
    have hrest : (s.now.getD clock :: steps.filterMap Step.now).Pairwise (· ≤ ·) := by
      cases hnow : s.now with
      | none => rwa [List.filterMap_cons_none hnow] at hclock
      | some now =>
        rw [List.filterMap_cons_some hnow] at hclock
        exact (List.pairwise_cons.mp hclock).2
    have hrun := ih (h.step s hle) hrest
    rwa [limits_step, List.append_assoc] at hrun

/-- **The rate limit**: however checks are asked for, answered and refused, at times
that do not go back, no window of the rate's width holds more permits than the rate
allows; and a refusal that is not of the rate changes nothing. -/
theorem rate_limited (limits : Limits) (steps : List Step)
    (hclock : (steps.filterMap Step.now).Pairwise (· ≤ ·)) :
    (∀ t : Int, ((permits (new limits) steps).filter fun p =>
        t - limits.rateWindow.toInt < p.toInt ∧ p.toInt ≤ t).length ≤ limits.maxRate.toNat) ∧
    ∀ (g : RiskGate) order account instrument now breach,
      (g.check order account instrument now).2 = some (.refuse breach) →
      (∀ n limit, breach ≠ .tooFast n limit) →
      (g.check order account instrument now).1 = g := by
  refine ⟨fun t => ?_, fun g order account instrument now breach h hother =>
    check_refused h hother⟩
  -- the least time is a clock that no time is before
  have hfrom : (Int64.minValue :: steps.filterMap Step.now).Pairwise (· ≤ ·) :=
    List.pairwise_cons.mpr ⟨fun now _ => Int64.minValue_le now, hclock⟩
  exact (kept_new limits Int64.minValue).run steps hfrom t

/-- Two orders a window, and a window of ten. -/
def twoInTen : Limits := ⟨5, 5, 1000000000, 1000000000, 3, 2, 10⟩

/-- The third is refused, and the first is forgotten when a window has gone by. -/
def asks : List Step :=
  [0, 9, 9, 10].map fun now => .check ⟨.buy, none, 1, false⟩ ⟨0, 100, 0⟩ ⟨2, 3, 100000000⟩ now

example : permits (new twoInTen) asks = [0, 9, 10] := by decide +kernel

theorem rate_limited_asks :
    (∀ t : Int, ((permits (new twoInTen) asks).filter fun p =>
        t - twoInTen.rateWindow.toInt < p.toInt ∧ p.toInt ≤ t).length ≤ twoInTen.maxRate.toNat) ∧
    ∀ (g : RiskGate) order account instrument now breach,
      (g.check order account instrument now).2 = some (.refuse breach) →
      (∀ n limit, breach ≠ .tooFast n limit) →
      (g.check order account instrument now).1 = g :=
  rate_limited twoInTen asks (by decide +kernel)

end RiskGate
