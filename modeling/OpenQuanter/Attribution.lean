/-
# Attributing a gap (`oq-parity/src/attribution.rs`)

The gap between a live run and its model, decomposed into named causes.  What a matched fill
cost beyond the market and what the market moved meanwhile are told apart at the price that
prevailed; together they are the price difference, whatever that price was, and so is what is left
of the gap (`residual_exact`).
-/
import OpenQuanter.Holding
import OpenQuanter.Instrument

namespace Books

/-- A plain `i64` result; the source stops where there is none. -/
def checked (v : Int) : Books Int64 := Logged.note .panic (FitsI64 v) (Int64.ofInt v)

/-- A plain `i128` result. -/
def checkedWide (v : Int) : Books Int := Logged.note .panic (FitsI128 v) v

end Books

namespace Parity

/-! ## Evidence -/

/-- One named cause of the gap. -/
inductive Component where
  | slippage
  | queuePosition
  | latency
  | funding
  | feeTier
  deriving DecidableEq, Repr

namespace Component

/-- The order the report prints them in. -/
def all : List Component := [.slippage, .queuePosition, .latency, .funding, .feeTier]

/-- Whether this is a difference between two observed quantities. -/
def isObserved (c : Component) : Bool := c ≠ .queuePosition

def label : Component → String
  | .slippage => "slippage"
  | .queuePosition => "queue position"
  | .latency => "latency"
  | .funding => "funding vs model"
  | .feeTier => "fee tier"

end Component

/-- A component's value, or the reason there is none. -/
inductive Attributed where
  | explained (amount : Cash)
  | unavailable (why : String)
  deriving DecidableEq, Repr

/-- The amount, when there is one. -/
def Attributed.amount : Attributed → Option Cash
  | .explained c => some c
  | .unavailable _ => none

/-- One fill both sides made. -/
structure Matched where
  side : Side
  qty : QtyLots
  modelPrice : PriceTicks
  venuePrice : PriceTicks
  /-- The price prevailing when it was filled. -/
  referencePrice : Option PriceTicks
  deriving DecidableEq, Repr

/-- One fill only one side made. -/
structure Unmatched where
  side : Side
  qty : QtyLots
  price : PriceTicks
  referencePrice : Option PriceTicks
  atVenue : Bool
  deriving DecidableEq, Repr

/-- Everything the decomposition is computed from.  Fees are negative when charged. -/
structure Evidence where
  matched : List Matched
  unmatched : List Unmatched
  /-- The venue's, then the model's. -/
  funding : Option (Cash × Cash)
  fundingUnavailable : Option String
  /-- The venue's, then the model's. -/
  fees : Option (Cash × Cash)
  deriving DecidableEq, Repr

/-- The report. -/
structure Attribution where
  livePnl : Cash
  modelPnl : Cash
  gap : Cash
  components : List (Component × Attributed)
  /-- What will not decompose; none when a component is unavailable. -/
  residual : Option Cash
  deriving DecidableEq, Repr

/-! ## The decomposition -/

/-- `+1` for a buy, `-1` for a sell. -/
def direction : Side → Int64
  | .buy => 1
  | .sell => -1

/-- Tick-lots into cash, saturating. -/
def toCash (tickLots : Int) (tickCash : Int64) : Books Cash := do
  let v ← Books.wide (tickLots * tickCash.toInt)
  Books.narrow v

/-- A venue-versus-model pair, or the reason there is none. -/
def cashDifference (pair : Option (Cash × Cash)) (what : String) (why : Option String) :
    Books Attributed :=
  match pair, why with
  | some (venue, model), _ => do
    let difference ← Books.checked (venue.toInt - model.toInt)
    pure (.explained difference)
  | none, some why =>
    pure (.unavailable (why ++ "; a difference of zero would claim the two sides agreed"))
  | none, none =>
    pure (.unavailable ("no " ++ what ++
      " was recorded for either side; a difference of zero would claim they agreed"))

/-- What a price difference is worth in tick-lots, with the sign of a side. -/
def tickLots (side : Side) (better worse : PriceTicks) (qty : QtyLots) : Books Int := do
  let difference ← Books.checked (better.toInt - worse.toInt)
  Books.checkedWide ((direction side).toInt * difference.toInt * qty.toInt)

/-- One matched fill: what it cost beyond the market, and what the market moved. -/
def addMatched (acc : Int × Int) (m : Matched) : Books (Int × Int) := do
  let reference := m.referencePrice.getD m.venuePrice
  let slip ← tickLots m.side reference m.venuePrice m.qty
  let slip ← Books.checkedWide (acc.1 + slip)
  let lat ← tickLots m.side m.modelPrice reference m.qty
  let lat ← Books.checkedWide (acc.2 + lat)
  pure (slip, lat)

/-- One unmatched fill: the edge it captured, or claimed. -/
def addUnmatched (total : Int) (u : Unmatched) : Books Int := do
  let reference := u.referencePrice.getD u.price
  let edge ← tickLots u.side reference u.price u.qty
  let sign : Int := if u.atVenue then 1 else -1
  Books.checkedWide (total + sign * edge)

/-- Slippage and latency, both or neither. -/
def pricesMissed (tickCash : Int64) (matched : List Matched) : Books (Attributed × Attributed) :=
  if matched.any fun m => m.referencePrice.isNone then
    let why := "at least one matched fill has no prevailing price at execution, " ++
      "so slippage and latency cannot be separated"
    pure (.unavailable why, .unavailable why)
  else do
    let (slip, lat) ← matched.foldlM addMatched (0, 0)
    let slippage ← toCash slip tickCash
    let latency ← toCash lat tickCash
    pure (.explained slippage, .explained latency)

/-- What the fills one side did not make were worth. -/
def queue (tickCash : Int64) (unmatched : List Unmatched) : Books Attributed :=
  if unmatched.any fun u => u.referencePrice.isNone then
    pure (.unavailable ("at least one unmatched fill has no prevailing price, so the trade " ++
      "that did not happen cannot be priced"))
  else do
    let total ← unmatched.foldlM addUnmatched 0
    let edge ← toCash total tickCash
    pure (.explained edge)

/-- The two differences the venue's own statements give. -/
def statements (evidence : Evidence) : Books (Attributed × Attributed) := do
  let funding ← cashDifference evidence.funding "funding" evidence.fundingUnavailable
  let fees ← cashDifference evidence.fees "fees"
    (some "venue fee history or stated model fee policy is unavailable or stale")
  pure (funding, fees)

/-- A sum of `i64`s that stops where it leaves the range. -/
def sumChecked (amounts : List Cash) : Books Cash :=
  amounts.foldlM (fun total c => Books.checked (total.toInt + c.toInt)) 0

/-- What is left of the gap, when every component was measured. -/
def residualOf (gap : Cash) (components : List (Component × Attributed)) : Books (Option Cash) :=
  if components.all fun c => c.2.amount.isSome then do
    let explained ← sumChecked (components.filterMap fun c => c.2.amount)
    let residual ← Books.checked (gap.toInt - explained.toInt)
    pure (some residual)
  else pure none

/-- `attribute`: decompose the gap between a live run and the same events through the
kernel. -/
def attributeGap (instrument : Instrument) (livePnl modelPnl : Cash) (evidence : Evidence) :
    Books Attribution := do
  let gap ← Books.checked (livePnl.toInt - modelPnl.toInt)
  match instrument.tickCash with
  | none => do
    let (funding, fees) ← statements evidence
    let why := "the instrument does not price a tick: contract size and scales " ++
      "give a tick worth less than the smallest cash unit"
    pure
      { livePnl, modelPnl, gap
        components := Component.all.map fun c => (c, match c with
          | .funding => funding
          | .feeTier => fees
          | _ => .unavailable why)
        residual := none }
  | some tickCash => do
    let (slippage, latency) ← pricesMissed tickCash evidence.matched
    let queue ← queue tickCash evidence.unmatched
    let (funding, fees) ← statements evidence
    let components := [(.slippage, slippage), (.queuePosition, queue), (.latency, latency),
      (.funding, funding), (.feeTier, fees)]
    let residual ← residualOf gap components
    pure { livePnl, modelPnl, gap, components, residual }

/-! ## What the components add up to -/

open Logged

theorem ensures_checked (v : Int) : Ensures {Fault.panic} (Books.checked v)
    (fun c => c.toInt = v) := by
  refine ensures_note fun hfits => ?_
  have hv := hfits rfl
  exact Int64.toInt_ofInt_of_le hv.1 (by have := hv.2; omega)

theorem ensures_checkedWide (v : Int) : Ensures {Fault.panic} (Books.checkedWide v)
    (fun c => c = v) :=
  ensures_note fun _ => rfl

theorem ensures_tickLots (side : Side) (better worse : PriceTicks) (qty : QtyLots) :
    Ensures {Fault.panic} (tickLots side better worse qty)
      (fun t => t = (direction side).toInt * (better.toInt - worse.toInt) * qty.toInt) := by
  refine ensures_bind (ensures_checked _) fun difference hdifference => ?_
  rw [← hdifference]
  exact ensures_checkedWide _

/-- What a matched fill made for the account, in tick-lots: the model's price was better. -/
def Matched.tickLots (m : Matched) : Int :=
  (direction m.side).toInt * (m.modelPrice.toInt - m.venuePrice.toInt) * m.qty.toInt

/-- **Slippage and latency together** are the price difference. -/
theorem ensures_addMatched (acc : Int × Int) (m : Matched) :
    Ensures {Fault.panic} (addMatched acc m) (fun p => p.1 + p.2 = acc.1 + acc.2 + m.tickLots) := by
  unfold addMatched
  refine ensures_bind (ensures_tickLots _ _ _ _) fun slip hslip => ?_
  refine ensures_bind (ensures_checkedWide _) fun slips hslips => ?_
  refine ensures_bind (ensures_tickLots _ _ _ _) fun lat hlat => ?_
  refine ensures_bind (ensures_checkedWide _) fun lats hlats => ensures_pure ?_
  show slips + lats = _
  rw [hslips, hlats, hslip, hlat, Matched.tickLots]
  ring

theorem ensures_addMatcheds (matched : List Matched) (acc : Int × Int) :
    Ensures {Fault.panic} (matched.foldlM addMatched acc)
      (fun p => p.1 + p.2 = acc.1 + acc.2 + (matched.map Matched.tickLots).sum) :=
  ensures_foldlM_sum (fun p => p.1 + p.2) ensures_addMatched matched acc

/-! ## What is left of the gap -/

/-- What an unmatched fill captured for the account, in tick-lots. -/
def Unmatched.tickLots (u : Unmatched) : Int :=
  (if u.atVenue then 1 else -1) *
    ((direction u.side).toInt * ((u.referencePrice.getD u.price).toInt - u.price.toInt) *
      u.qty.toInt)

/-- What the venue's statement says beyond the model's. -/
def beyond (pair : Option (Cash × Cash)) : Int :=
  (pair.map fun p => p.1.toInt - p.2.toInt).getD 0

namespace Evidence

/-- Everything the decomposition is computed from was recorded. -/
def Measured (e : Evidence) (i : Instrument) : Prop :=
  i.tickCash.isSome ∧ (∀ m ∈ e.matched, m.referencePrice.isSome) ∧
    (∀ u ∈ e.unmatched, u.referencePrice.isSome) ∧ e.funding.isSome ∧ e.fees.isSome

/-- What the evidence explains, without a limit.  The prices that prevailed at the matched fills
are not read. -/
def explained (e : Evidence) (i : Instrument) : Int :=
  ((e.matched.map Matched.tickLots).sum + (e.unmatched.map Unmatched.tickLots).sum) *
    (i.tickCash.getD 0).toInt + beyond e.funding + beyond e.fees

end Evidence

/-- An amount there is exactly when it was measured. -/
structure Attributed.Is (a : Attributed) (measured : Prop) (value : Int) : Prop where
  isSome : a.amount.isSome ↔ measured
  value : ∀ c ∈ a.amount, c.toInt = value

theorem Attributed.Is.explained {c : Cash} {P : Prop} (hP : P) {v : Int} (h : c.toInt = v) :
    (Attributed.explained c).Is P v :=
  ⟨iff_of_true rfl hP, fun _ hc => Option.some.inj hc ▸ h⟩

theorem Attributed.Is.unavailable {why : String} {P : Prop} (hP : ¬P) (v : Int) :
    (Attributed.unavailable why).Is P v :=
  ⟨iff_of_false nofun hP, nofun⟩

/-- Nothing stopped, and nothing left its range. -/
def Exact {α : Type} (x : Books α) (Q : α → Prop) : Prop := Ensures {.panic, .wide} x Q

theorem exact_of_panic {α : Type} {x : Books α} {Q : α → Prop} (h : Ensures {.panic} x Q) :
    Exact x Q :=
  fun hfree => h fun e he => hfree e (Or.inl he)

theorem exact_toCash (t : Int) (c : Int64) :
    Exact (toCash t c) (fun v => v.toInt = t * c.toInt) := by
  refine ensures_bind (P := fun w => w = t * c.toInt) (ensures_note fun hfits => ?_) fun w hw => ?_
  · exact satWide_of_fits (hfits (Or.inr rfl))
  · refine ensures_note fun hfits => ?_
    rw [hw] at hfits ⊢
    exact toInt_ofIntClamp_of_fits (hfits (Or.inr rfl))

/-- **The prices missed** add up to the price differences, whatever prevailed. -/
theorem exact_pricesMissed (c : Int64) (matched : List Matched) :
    Exact (pricesMissed c matched) fun p => ∃ slip lat : Int,
      p.1.Is (∀ m ∈ matched, m.referencePrice.isSome) slip ∧
      p.2.Is (∀ m ∈ matched, m.referencePrice.isSome) lat ∧
      ((∀ m ∈ matched, m.referencePrice.isSome) →
        slip + lat = (matched.map Matched.tickLots).sum * c.toInt) := by
  unfold pricesMissed
  by_cases hany : (matched.any fun m => m.referencePrice.isNone) = true
  · have hnot : ¬∀ m ∈ matched, m.referencePrice.isSome := by simpa using hany
    rw [if_pos hany]
    exact ensures_pure ⟨0, 0, .unavailable hnot 0, .unavailable hnot 0, fun h => absurd h hnot⟩
  · have hall : ∀ m ∈ matched, m.referencePrice.isSome := by
      simpa [Option.isSome_iff_ne_none] using hany
    rw [if_neg hany]
    refine ensures_bind (exact_of_panic (ensures_addMatcheds matched (0, 0))) fun p hp => ?_
    refine ensures_bind (exact_toCash p.1 c) fun slip hslip => ?_
    refine ensures_bind (exact_toCash p.2 c) fun lat hlat => ensures_pure ?_
    refine ⟨_, _, .explained hall hslip, .explained hall hlat, fun _ => ?_⟩
    rw [← add_mul, hp, zero_add, zero_add]

theorem ensures_addUnmatched (total : Int) (u : Unmatched) :
    Ensures {Fault.panic} (addUnmatched total u) (fun t => t = total + u.tickLots) := by
  refine ensures_bind (ensures_tickLots _ _ _ _) fun edge hedge => ?_
  exact (ensures_checkedWide _).mono fun t ht => by rw [ht, hedge, Unmatched.tickLots]

theorem exact_queue (c : Int64) (unmatched : List Unmatched) :
    Exact (queue c unmatched) fun a => a.Is (∀ u ∈ unmatched, u.referencePrice.isSome)
      ((unmatched.map Unmatched.tickLots).sum * c.toInt) := by
  unfold queue
  by_cases hany : (unmatched.any fun u => u.referencePrice.isNone) = true
  · rw [if_pos hany]
    exact ensures_pure (.unavailable (by simpa using hany) _)
  · rw [if_neg hany]
    refine ensures_bind (exact_of_panic
      (ensures_foldlM_sum id ensures_addUnmatched unmatched 0)) fun t ht => ?_
    refine ensures_bind (exact_toCash t c) fun edge hedge => ensures_pure ?_
    refine .explained (by simpa [Option.isSome_iff_ne_none] using hany) ?_
    rw [hedge, show t = _ from ht, id, zero_add]

theorem exact_cashDifference (pair : Option (Cash × Cash)) (what : String) (why : Option String) :
    Exact (cashDifference pair what why) fun a => a.Is (pair.isSome = true) (beyond pair) := by
  cases pair with
  | none => cases why <;> exact ensures_pure (.unavailable Bool.false_ne_true _)
  | some p =>
    refine ensures_bind (exact_of_panic (ensures_checked _)) fun difference hd => ensures_pure ?_
    exact .explained rfl hd

theorem exact_residualOf (gap : Cash) (components : List (Component × Attributed)) :
    Exact (residualOf gap components) fun r =>
      (r.isSome ↔ ∀ c ∈ components, c.2.amount.isSome) ∧
        ∀ v ∈ r, v.toInt =
          gap.toInt - ((components.filterMap fun c => c.2.amount).map Int64.toInt).sum := by
  unfold residualOf
  by_cases hall : (components.all fun c => c.2.amount.isSome) = true
  · rw [if_pos hall]
    refine ensures_bind (exact_of_panic
      (ensures_foldlM_sum Int64.toInt (fun _ _ => ensures_checked _) _ 0)) fun t ht => ?_
    refine ensures_bind (exact_of_panic (ensures_checked _)) fun v hv => ensures_pure ?_
    refine ⟨iff_of_true rfl (List.all_eq_true.mp hall), fun _ hr => ?_⟩
    rw [← Option.some.inj hr, hv, ht, Int64.toInt_zero, zero_add]
  · rw [if_neg hall]
    refine ensures_pure ⟨iff_of_false Bool.false_ne_true fun h => ?_, nofun⟩
    exact hall (List.all_eq_true.mpr h)

/-- **The residual is the gap that the evidence does not explain**, and there is one exactly when
all of it was measured. -/
theorem residual_exact (i : Instrument) (livePnl modelPnl : Cash) (e : Evidence) :
    Ensures {.panic, .wide} (attributeGap i livePnl modelPnl e) fun a =>
      (a.residual.isSome ↔ e.Measured i) ∧
        ∀ r ∈ a.residual, r.toInt = livePnl.toInt - modelPnl.toInt - e.explained i := by
  refine ensures_bind (exact_of_panic (ensures_checked _)) fun gap hgap => ?_
  cases htick : i.tickCash with
  | none =>
    refine ensures_of_val ⟨iff_of_false Bool.false_ne_true fun h => ?_, nofun⟩
    rw [Evidence.Measured, htick] at h
    exact Bool.false_ne_true h.1
  | some c =>
    refine ensures_bind (exact_pricesMissed c e.matched) fun p hp => ?_
    refine ensures_bind (exact_queue c e.unmatched) fun q hq => ?_
    refine ensures_bind (ensures_bind (exact_cashDifference _ _ _) fun funding hfunding =>
      ensures_bind (exact_cashDifference _ _ _) fun fees hfees =>
        ensures_pure ⟨hfunding, hfees⟩) fun s (hs : s.1.Is _ _ ∧ s.2.Is _ _) => ?_
    refine ensures_bind (exact_residualOf gap _) fun r hr => ensures_pure ?_
    obtain ⟨slip, lat, hslip, hlat, hsum⟩ := hp
    obtain ⟨hfunding, hfees⟩ := hs
    have hmeasured : r.isSome ↔ e.Measured i := by
      rw [hr.1]
      simp only [List.forall_mem_cons, hslip.isSome, hq.isSome, hlat.isSome, hfunding.isSome,
        hfees.isSome, Evidence.Measured, htick, Option.isSome_some, true_and]
      exact ⟨fun ⟨hm, hu, _, hf, hfee, _⟩ => ⟨hm, hu, hf, hfee⟩,
        fun ⟨hm, hu, hf, hfee⟩ => ⟨hm, hu, hm, hf, hfee, nofun⟩⟩
    refine ⟨hmeasured, fun v hv => ?_⟩
    obtain ⟨-, hm, hu, hf, hfee⟩ := hmeasured.mp (Option.isSome_of_mem hv)
    obtain ⟨a, ha⟩ := Option.isSome_iff_exists.mp (hslip.isSome.mpr hm)
    obtain ⟨b, hb⟩ := Option.isSome_iff_exists.mp (hq.isSome.mpr hu)
    obtain ⟨c', hc⟩ := Option.isSome_iff_exists.mp (hlat.isSome.mpr hm)
    obtain ⟨d, hd⟩ := Option.isSome_iff_exists.mp (hfunding.isSome.mpr hf)
    obtain ⟨f, hfee⟩ := Option.isSome_iff_exists.mp (hfees.isSome.mpr hfee)
    rw [hr.2 v hv]
    simp only [List.filterMap_cons, ha, hb, hc, hd, hfee, List.filterMap_nil, List.map_cons,
      List.map_nil, List.sum_cons, List.sum_nil, hslip.value a ha, hq.value b hb, hlat.value c' hc,
      hfunding.value d hd, hfees.value f hfee, hgap, Evidence.explained, htick, Option.getD_some]
    linarith [hsum hm]

/-- A buy ten ticks over the market explains ten of a loss of forty. -/
theorem residual_exact_paidOver :
    let a := (attributeGap ⟨0, 0, 1⟩ (-40) 0
      ⟨[⟨.buy, 1, 100, 110, some 100⟩], [], some (0, 0), none, some (0, 0)⟩).val
    a.residual.isSome ∧ ∀ r ∈ a.residual, r.toInt = -30 :=
  ⟨by decide +kernel, fun r hr => ((residual_exact _ _ _ _
    (by rintro e (rfl | rfl) <;> decide +kernel)).2 r hr).trans (by decide +kernel)⟩

end Parity
