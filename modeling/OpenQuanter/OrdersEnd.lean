/-
# Liquidation ends every order, or leaves one behind

The working list and the books agree after every event of a run
(`orders_end_of_run`) as long as no check strands an order: closes an account of
several holdings while one of them is flat and still has an order in its book.
Then a fill after a liquidation is always for an order accepted after it, and the
liquidated account stays flat until one fills.  `stranded_order_fills` is a run
in which a check does strand an order, and the order fills.
-/
import OpenQuanter.WorkingSet

open Logged

/-! ## Where an order can be left behind -/

/-- Whether the check at `price` liquidates an account of several holdings while
a flat one of them has an order resting. -/
def State.strands (s : State) (price : PriceTicks) : Bool :=
  s.enforceLiquidation && !s.isFlat && Kernel.liquidatable s price &&
    decide (s.holdings.length ≠ 1) && s.holdings.any (fun h => h.isFlat && !h.resting.isEmpty)

namespace Kernel

/-- The check an event ends in, if it ends in one, strands no order. -/
def StrandsNone (k : Kernel) (event : Event) : Prop :=
  ∀ price, (k.booked event).val.2 = some price →
    (k.booked event).val.1.state.strands price = false

/-- No check of the run strands an order. -/
def RunStrandsNone : Kernel → List Event → Prop
  | _, [] => True
  | k, event :: rest => k.StrandsNone event ∧ (k.apply event).val.RunStrandsNone rest

variable {k : Kernel}

/-! ## One event -/

theorem Tracked.bookSettlement (h : k.Tracked) (instrument : Option InstrumentId) (at_ : Nanos)
    (rate : Ratio) (mark : PriceTicks) :
    (k.bookSettlement instrument at_ rate mark).val.1.Tracked := by
  have hmoves := k.moves_bookSettlement instrument at_ rate mark
  refine h.of_same hmoves ?_ ?_
  · unfold Kernel.bookSettlement
    simp only
    split
    · rfl
    · split <;> rfl
  · unfold Kernel.bookSettlement
    simp only
    split
    · rfl
    · split <;> rfl

theorem Tracked.onFundingCharged (h : k.Tracked) (instrument : Option InstrumentId) (at_ : Nanos)
    (amount : Cash) : (k.onFundingCharged instrument at_ amount).val.Tracked := by
  have hmoves := k.moves_onFundingCharged instrument at_ amount
  refine h.of_same hmoves ?_ ?_
  · unfold Kernel.onFundingCharged
    simp only
    split <;> rfl
  · unfold Kernel.onFundingCharged
    simp only
    split <;> rfl

/-- **Everything an event books keeps the working list and the books together.** -/
theorem Tracked.booked (h : k.Tracked) (event : Event) : (k.booked event).val.1.Tracked := by
  have hmoves := k.moves_booked event
  cases event with
  | tick instrument tick =>
    unfold Kernel.booked
    simp only
    rcases hroute : k.cleared.route instrument with _ | index
    · exact h.cleared.emit _
    · exact h.cleared.bookTick (k.cleared.route_lt hroute) tick
  | funding instrument at_ rate mark => exact h.cleared.bookSettlement instrument at_ rate mark
  | venueFill fill reported =>
    have hnot : k.cleared.state.matching ≠ .venue := by
      rw [h.cleared.simulated]
      simp
    simp only [Kernel.booked, bookVenueFill, if_pos hnot]
    exact h.cleared.emit _
  | submit instrument id side price qty offset stamp =>
    exact h.cleared.onSubmit instrument id side price qty offset stamp
  | cancel id stamp => exact h.cleared.onCancel id
  | fundingCharged instrument at_ amount => exact h.cleared.onFundingCharged instrument at_ amount
  | feeRecovered at_ amount remainingMissing => exact h.of_same hmoves rfl rfl
  | time at_ => exact h.of_same hmoves rfl rfl
  | marginDeposit amount at_ => exact h.of_same hmoves rfl rfl
  | depth update => exact h.cleared.onDepth update

theorem resting_closedIn (h : k.Tracked) {x : Holding} (hx : x ∈ k.state.holdings)
    (hempty : k.state.holdings.length ≠ 1 → x.isFlat = true → x.resting = []) :
    (k.state.closedIn x).resting = [] := by
  unfold State.closedIn
  split
  · exact Holding.resting_closedOut (h.l0 x hx)
  · rename_i hnot
    simp only [not_or, Bool.not_eq_false] at hnot
    exact hempty hnot.1 hnot.2

/-- **A liquidation that strands no order leaves none.** -/
theorem Tracked.checkLiquidation (h : k.Tracked) {price : PriceTicks}
    (hnone : k.state.strands price = false) : (k.checkLiquidation price).val.Tracked := by
  have hmoves := k.moves_checkLiquidation price
  unfold Kernel.checkLiquidation at hmoves ⊢
  by_cases hskip : (!k.state.enforceLiquidation || k.state.isFlat) = true
  · rw [if_pos hskip]
    exact h
  · rw [if_neg hskip] at hmoves ⊢
    by_cases hliq : liquidatable k.state price = true
    · rw [if_pos hliq] at hmoves ⊢
      have hempty : (k.state.liquidate price).val.1.resting = [] := by
        show ((k.state.closeAll price).val.1.holdings).flatMap Holding.resting = []
        rw [State.holdings_closeAll, List.flatMap_map, List.flatMap_eq_nil_iff]
        intro x hx
        apply resting_closedIn h hx
        intro hseveral hflat
        by_contra hne
        have hstrands : k.state.strands price = true := by
          simp only [Bool.or_eq_true, not_or, Bool.not_eq_true', Bool.not_eq_true] at hskip
          have hany : k.state.holdings.any (fun h => h.isFlat && !h.resting.isEmpty) = true := by
            rw [List.any_eq_true]
            exact ⟨x, hx, by simp [hflat, hne]⟩
          unfold State.strands
          simp [hskip.2, hliq, hseveral, hany]
          simpa using hskip.1
        rw [hnone] at hstrands
        cases hstrands
      refine h.of_moves hmoves ?_ List.nodup_nil
      show ([] : List OrderId).Perm (k.state.liquidate price).val.1.resting
      rw [hempty]
    · rw [if_neg hliq]
      exact h

theorem Tracked.apply (h : k.Tracked) {event : Event} (hnone : k.StrandsNone event) :
    (k.apply event).val.Tracked := by
  rw [apply_eq, val_bind]
  have hbooked := h.booked event
  unfold settle
  rcases hprice : (k.booked event).val.2 with _ | price
  · exact hbooked
  · exact hbooked.checkLiquidation (hnone price hprice)

/-! ## Accepted and filled orders -/

/-- The order an event adds to the working set: a submission that is not
refused. -/
def accepts (k : Kernel) : Event → Option OrderId
  | .submit instrument id side price qty offset stamp =>
    if (k.cleared.onSubmit instrument id side price qty offset stamp).outputs.isEmpty then some id
    else none
  | _ => none

/-- The orders a run accepts. -/
def accepted : Kernel → List Event → List OrderId
  | _, [] => []
  | k, event :: rest => (k.accepts event).toList ++ (k.apply event).val.accepted rest

theorem working_onSubmit (k : Kernel) (instrument : Option InstrumentId) (id : OrderId)
    (side : Side) (price : Option PriceTicks) (qty : QtyLots) (offset : Offset) (stamp : Stamp)
    {x : OrderId}
    (h : x ∈ (k.cleared.onSubmit instrument id side price qty offset stamp).working) :
    x ∈ k.working ∨ k.accepts (.submit instrument id side price qty offset stamp) = some x := by
  simp only [accepts]
  unfold onSubmit at h ⊢
  split
  · rename_i hqty
    rw [dif_pos hqty] at h
    split
    · rename_i hdup
      rw [if_pos hdup] at h
      exact Or.inl h
    · rename_i hdup
      rw [if_neg hdup] at h
      rcases hroute : k.cleared.route instrument with _ | index
      · simp only [hroute] at h
        exact Or.inl h
      · simp only [hroute] at h ⊢
        split
        · rename_i hmargin
          rw [if_pos hmargin] at h
          exact Or.inl h
        · rename_i hmargin
          rw [if_neg hmargin] at h
          rcases List.mem_append.mp h with h | h
          · exact Or.inl h
          · rw [List.mem_singleton.mp h]
            exact Or.inr rfl
  · rename_i hqty
    rw [dif_neg hqty] at h
    exact Or.inl h

theorem working_booked (k : Kernel) (event : Event) {x : OrderId}
    (h : x ∈ (k.booked event).val.1.working) : x ∈ k.working ∨ k.accepts event = some x := by
  cases event with
  | tick instrument tick =>
    unfold booked at h
    simp only at h
    left
    split at h
    · unfold bookTick at h
      simp only at h
      split at h
      · exact h
      · rw [val_bind, val_pure, working_bookFills] at h
        exact List.mem_of_mem_filter h
    · exact h
  | funding instrument at_ rate mark =>
    simp only [booked, bookSettlement] at h
    left
    split at h
    · exact h
    · split at h <;> exact h
  | venueFill fill reported =>
    simp only [booked, bookVenueFill] at h
    left
    split at h
    · exact h
    · exact List.mem_of_mem_filter h
  | submit instrument id side price qty offset stamp =>
    exact k.working_onSubmit instrument id side price qty offset stamp h
  | cancel id stamp =>
    simp only [booked, apply, val_bind, val_pure, onCancel] at h
    left
    split at h
    · exact List.mem_of_mem_filter h
    · exact h
  | fundingCharged instrument at_ amount =>
    simp only [booked, apply, val_bind, val_pure, onFundingCharged] at h
    left
    split at h <;> exact h
  | feeRecovered at_ amount remainingMissing => exact Or.inl h
  | time at_ => exact Or.inl h
  | marginDeposit amount at_ => exact Or.inl h
  | depth update =>
    simp only [booked, apply, val_bind, val_pure, onDepth] at h
    left
    split at h <;> exact h

/-- Only an accepted submission adds to the working set. -/
theorem working_apply (k : Kernel) (event : Event) {x : OrderId}
    (h : x ∈ (k.apply event).val.working) : x ∈ k.working ∨ k.accepts event = some x := by
  apply k.working_booked event
  rw [apply_eq, val_bind] at h
  unfold settle at h
  split at h
  · exact h
  · unfold checkLiquidation at h
    split at h
    · exact h
    · split at h
      · cases h
      · exact h

theorem working_run (k : Kernel) (events : List Event) {x : OrderId}
    (h : x ∈ (k.run events).val.working) : x ∈ k.working ∨ x ∈ k.accepted events := by
  induction events generalizing k with
  | nil => exact Or.inl h
  | cons event rest ih =>
    unfold run at h ih
    rw [List.foldlM_cons, val_bind] at h
    rw [accepted, List.mem_append]
    rcases ih _ h with h | h
    · rcases k.working_apply event h with h | h
      · exact Or.inl h
      · exact Or.inr (Or.inl (by simp [h]))
    · exact Or.inr (Or.inr h)

/-- Only a working order fills. -/
theorem mem_working_of_filled (h : k.Tracked) {event : Event} {fill : Fill}
    (hfill : Output.filled fill ∈ (k.apply event).val.outputs) : fill.order ∈ k.working := by
  rw [filled_mem_apply_iff] at hfill
  cases event with
  | tick instrument tick =>
    unfold fillsOf at hfill
    simp only at hfill
    rcases hroute : k.route instrument with _ | index
    · simp only [hroute] at hfill
      cases hfill
    · have hsim : ¬ k.state.matching = .venue := by
        rw [h.simulated]
        simp
      simp only [hroute, if_neg hsim] at hfill
      have hlt := k.route_lt hroute
      have hobserved := h.observe hlt tick
      have hlt' : index < (k.observe index tick).state.holdings.length := by
        show index < (k.state.holdings.modify index _).length
        rwa [List.length_modify]
      obtain ⟨f, hf, rfl⟩ := List.mem_map.mp hfill
      have hresting := (Holding.resting_onTick (hobserved.l0 _ (State.holdingsAt_mem hlt'))
        (State.nodup_resting_holdingsAt hlt' hobserved.resting_nodup) tick).2 f hf
      obtain ⟨front, back, hs, -⟩ := State.exists_resting_split hlt'
      have hmem : f.fill.order ∈ (k.observe index tick).state.resting := by
        rw [hs]
        exact List.mem_append_right _ (List.mem_append_left _ hresting)
      exact hobserved.perm.mem_iff.mpr hmem
  | venueFill fill' reported =>
    have hsim : ¬ k.state.matching = .venue := by
      rw [h.simulated]
      simp
    simp only [fillsOf, if_neg hsim] at hfill
    cases hfill
  | funding instrument at_ rate mark => cases hfill
  | submit instrument id side price qty offset stamp => cases hfill
  | cancel id stamp => cases hfill
  | fundingCharged instrument at_ amount => cases hfill
  | feeRecovered at_ amount remainingMissing => cases hfill
  | time at_ => cases hfill
  | marginDeposit amount at_ => cases hfill
  | depth update => cases hfill

/-- What a liquidating event leaves: nothing working, no position, and its
outputs end in the liquidations. -/
theorem of_liquidated {event : Event} {l : Liquidation}
    (h : Output.liquidated l ∈ (k.apply event).val.outputs) :
    (k.apply event).val.working = [] ∧ (k.apply event).val.state.isFlat = true ∧
      ∃ closed : List Liquidation, (k.apply event).val.outputs =
        (k.booked event).val.1.outputs ++ closed.map Output.liquidated := by
  have hfresh := k.not_liquidated_booked event l
  rw [apply_eq, val_bind] at h ⊢
  unfold settle at h ⊢
  split at h
  · exact absurd h hfresh
  · unfold Kernel.checkLiquidation at h ⊢
    split at h
    · exact absurd h hfresh
    · split at h
      · rw [if_neg ‹_›, if_pos ‹_›]
        exact ⟨rfl, State.isFlat_liquidate _ _, _, rfl⟩
      · exact absurd h hfresh

/-! ## Runs -/

theorem RunStrandsNone.append {first second : List Event}
    (h : k.RunStrandsNone (first ++ second)) :
    k.RunStrandsNone first ∧ (k.run first).val.RunStrandsNone second := by
  induction first generalizing k with
  | nil => exact ⟨trivial, h⟩
  | cons event rest ih =>
    obtain ⟨hevent, hrest⟩ := h
    obtain ⟨hfirst, hsecond⟩ := ih hrest
    refine ⟨⟨hevent, hfirst⟩, ?_⟩
    unfold run at hsecond ⊢
    rwa [List.foldlM_cons, val_bind]

/-- **The working list and the books agree along a run that strands no order.** -/
theorem Tracked.run (h : k.Tracked) {events : List Event} (hnone : k.RunStrandsNone events) :
    (k.run events).val.Tracked := by
  induction events generalizing k with
  | nil => exact h
  | cons event rest ih =>
    have hrest := ih (h.apply hnone.1) hnone.2
    unfold Kernel.run at hrest ⊢
    rwa [List.foldlM_cons, val_bind]

/-- Without a fill a flat account has nothing for the check to close. -/
theorem isFlat_apply {event : Event} (hfills : k.fillsOf event = [])
    (hflat : k.state.isFlat = true) : (k.apply event).val.state.isFlat = true := by
  have hbooked := isFlat_booked hfills hflat
  rw [apply_eq, val_bind]
  unfold settle
  split
  · exact hbooked
  · unfold Kernel.checkLiquidation
    rw [if_pos (by simp [hbooked])]
    exact hbooked

/-- A flat account loses its flatness to a fill. -/
theorem exists_filled_of_not_flat (events : List Event) (hflat : k.state.isFlat = true)
    (hopen : (k.run events).val.state.isFlat = false) :
    ∃ done x rest fill, events = done ++ x :: rest ∧
      Output.filled fill ∈ ((k.run done).val.apply x).val.outputs := by
  induction events generalizing k with
  | nil =>
    have : k.state.isFlat = false := hopen
    rw [hflat] at this
    cases this
  | cons event rest ih =>
    unfold Kernel.run at hopen
    rw [List.foldlM_cons, val_bind] at hopen
    by_cases hfills : k.fillsOf event = []
    · obtain ⟨done, x, rest', fill, rfl, hfill⟩ := ih (isFlat_apply hfills hflat) hopen
      refine ⟨event :: done, x, rest', fill, rfl, ?_⟩
      unfold Kernel.run at hfill ⊢
      rwa [List.foldlM_cons, val_bind]
    · obtain ⟨fill, hfill⟩ := List.exists_mem_of_ne_nil _ hfills
      exact ⟨[], event, rest, fill, rfl, (k.filled_mem_apply_iff event fill).mpr hfill⟩

end Kernel

/-- A fresh account has no order. -/
theorem State.Built.resting_eq {start : Cash} {s : State} (h : Built start s) :
    s.resting = [] := by
  have hfresh : ∀ x ∈ s.holdings, x.engine.Fresh := by
    induction h with
    | new instrument contract table =>
      intro x hx
      rw [List.mem_singleton.mp hx]
      exact .l0 instrument
    | withFees _ fees ih => exact ih
    | withoutLiquidation _ ih => exact ih
    | withMode _ mode ih => exact ih
    | withMatching _ matching ih => exact ih
    | openHolding _ instrument contract table ih =>
      unfold State.openHolding
      split
      · exact ih
      · intro x hx
        rcases List.mem_append.mp hx with hx | hx
        · exact ih x hx
        · rw [List.mem_singleton.mp hx]
          exact .l0 instrument
    | matchingWith _ hm hi ih =>
      intro x hx
      obtain ⟨y, hy, rfl | rfl⟩ := exists_of_mem_modify hx
      · exact ih _ hy
      · exact hm
  unfold State.resting
  rw [List.flatMap_eq_nil_iff]
  intro x hx
  have hx' := hfresh x hx
  unfold Holding.resting
  generalize x.engine = m at hx' ⊢
  cases hx' <;> rfl

namespace Kernel

/-- **Liquidation ends every order of a run that strands none.**  The working
list holds exactly the ids in the books after every event.  After an event that
liquidates, every fill is for an order accepted since, and the account, flat,
stays flat until such an order fills. -/
theorem orders_end_of_run {start : Cash} {s : State} (hs : s.Built start)
    (hsim : s.matching = .simulated) (hl0 : s.L0Matched) (events : List Event)
    (hnone : (Kernel.new s).RunStrandsNone events) :
    (∀ before, before <+: events →
      let k := ((Kernel.new s).run before).val
      k.working.Perm k.state.resting ∧ k.working.Nodup) ∧
    ∀ (before after : List Event) (event : Event), events = before ++ event :: after →
      let k := (((Kernel.new s).run before).val.apply event).val
      ∀ l, Output.liquidated l ∈ k.outputs →
        (∃ (booked : List Output) (closed : List Liquidation),
          k.outputs = booked ++ closed.map Output.liquidated ∧
          ∀ l', Output.liquidated l' ∉ booked) ∧
        (∀ (done rest : List Event) (x : Event) (fill : Fill), after = done ++ x :: rest →
          Output.filled fill ∈ ((k.run done).val.apply x).val.outputs →
          fill.order ∈ k.accepted done) ∧
        k.state.isFlat = true ∧
        ∀ done rest : List Event, after = done ++ rest →
          (k.run done).val.state.isFlat = false →
          ∃ first x last fill, done = first ++ x :: last ∧
            Output.filled fill ∈ ((k.run first).val.apply x).val.outputs ∧
            fill.order ∈ k.accepted first := by
  have hstart : (Kernel.new s).Tracked := by
    refine ⟨?_, List.nodup_nil, hl0, hsim⟩
    show ([] : List OrderId).Perm s.resting
    rw [hs.resting_eq]
  constructor
  · rintro before ⟨after, rfl⟩ k
    have h := hstart.run hnone.append.1
    exact ⟨h.perm, h.nodup⟩
  · rintro before after event rfl k l hl
    obtain ⟨hbefore, hevent, hafter⟩ := hnone.append
    have hk : k.Tracked := (hstart.run hbefore).apply hevent
    obtain ⟨hworking, hflat, closed, houtputs⟩ := of_liquidated hl
    -- a fill is for a working order, and nothing was working after the liquidation
    have hsince : ∀ (done rest : List Event) (x : Event) (fill : Fill), after = done ++ x :: rest →
        Output.filled fill ∈ ((k.run done).val.apply x).val.outputs →
        fill.order ∈ k.accepted done := by
      rintro done rest x fill rfl hfill
      have hdone := hk.run hafter.append.1
      rcases k.working_run done (mem_working_of_filled hdone hfill) with h | h
      · rw [hworking] at h
        cases h
      · exact h
    refine ⟨⟨_, closed, houtputs, not_liquidated_booked _ _⟩, hsince, hflat, ?_⟩
    rintro done rest rfl hopen
    obtain ⟨first, x, last, fill, rfl, hfill⟩ := exists_filled_of_not_flat done hflat hopen
    refine ⟨first, x, last, fill, rfl, hfill, ?_⟩
    exact hsince first (last ++ rest) x fill (by simp) hfill

/-- Two instruments on one balance. -/
def twoHoldings : State := (State.new 7 ⟨10⟩ flatTable 10000).openHolding 8 ⟨10⟩ flatTable

/-- A position on one instrument, liquidated, and then a new order that fills. -/
def closedRun : List Event :=
  [.submit (some 7) 1 .buy none 50 .opening ⟨1, 1⟩,
    .tick (some 7) ⟨⟨2, 2⟩, 100, 101, 99, 99, 100, 10⟩,
    .tick (some 7) ⟨⟨3, 3⟩, 70, 70, 70, 69, 70, 10⟩,
    .marginDeposit 10000 4,
    .submit (some 8) 2 .buy none 5 .opening ⟨5, 5⟩,
    .tick (some 8) ⟨⟨6, 6⟩, 50, 50, 50, 49, 50, 10⟩]

instance (k : Kernel) (event : Event) : Decidable (k.StrandsNone event) :=
  decidableForallSome (k.booked event).val.2

instance decidableRunStrandsNone :
    (k : Kernel) → (events : List Event) → Decidable (k.RunStrandsNone events)
  | _, [] => isTrue trivial
  | k, event :: rest =>
    have := decidableRunStrandsNone (k.apply event).val rest
    inferInstanceAs (Decidable (k.StrandsNone event ∧ (k.apply event).val.RunStrandsNone rest))

theorem orders_end_of_closedRun :
    let k := ((Kernel.new twoHoldings).run closedRun).val
    k.working.Perm k.state.resting ∧ k.state.isFlat = false := by
  have hbuilt : twoHoldings.Built 10000 := .openHolding (.new 7 ⟨10⟩ flatTable) 8 ⟨10⟩ flatTable
  have hl0 : twoHoldings.L0Matched := by
    intro h hh
    rcases List.mem_cons.mp hh with rfl | hh
    · exact ⟨_, rfl⟩
    · rw [List.mem_singleton.mp hh]
      exact ⟨_, rfl⟩
  have hrun := orders_end_of_run hbuilt rfl hl0 closedRun (by decide +kernel)
  exact ⟨(hrun.1 closedRun (List.prefix_refl _)).1, by decide +kernel⟩

/-- An order rests on the second instrument, the account is liquidated on the
first, and the market of the second comes to the order. -/
def strandedRun : List Event :=
  [.submit (some 8) 2 .buy (some 50) 5 .opening ⟨1, 1⟩,
    .submit (some 7) 1 .buy none 50 .opening ⟨2, 2⟩,
    .tick (some 7) ⟨⟨3, 3⟩, 100, 101, 99, 99, 100, 10⟩,
    .tick (some 7) ⟨⟨4, 4⟩, 70, 70, 70, 69, 70, 10⟩,
    .marginDeposit 10000 5]

/-- The market of the second instrument at the stranded order's price. -/
def reaching : Event := .tick (some 8) ⟨⟨6, 6⟩, 50, 50, 50, 49, 50, 10⟩

/-- **A stranded order fills after the liquidation.**  Its id has left the
working list, its book still holds it, and the flat account has a position again
with nothing submitted since. -/
theorem stranded_order_fills :
    let liquidated := ((Kernel.new twoHoldings).run (strandedRun.take 4)).val
    let k := ((Kernel.new twoHoldings).run strandedRun).val
    twoHoldings.Built 10000 ∧ twoHoldings.matching = .simulated ∧
      (∃ l, Output.liquidated l ∈ liquidated.outputs) ∧ liquidated.state.isFlat = true ∧
      ¬ liquidated.working.Perm liquidated.state.resting ∧
      liquidated.working = [] ∧ liquidated.state.resting = [2] ∧
      liquidated.accepted (strandedRun.drop 4) = [] ∧
      (∃ fill : Fill, fill.order = 2 ∧ Output.filled fill ∈ (k.apply reaching).val.outputs) ∧
      (k.apply reaching).val.state.isFlat = false := by
  have hbuilt : twoHoldings.Built 10000 := .openHolding (.new 7 ⟨10⟩ flatTable) 8 ⟨10⟩ flatTable
  have hmem : Output.liquidated ⟨4, 70, 50, 0, -5000, 7, 50, 0⟩ ∈
      ((Kernel.new twoHoldings).run (strandedRun.take 4)).val.outputs := by
    decide +kernel
  have hfill : Output.filled ⟨⟨6, 6⟩, 8, 2, 1, .buy, .opening, 50, 5, .maker⟩ ∈
      (((Kernel.new twoHoldings).run strandedRun).val.apply reaching).val.outputs := by
    decide +kernel
  exact ⟨hbuilt, rfl, ⟨_, hmem⟩, by decide +kernel, by decide +kernel, by decide +kernel,
    by decide +kernel, by decide +kernel, ⟨_, rfl, hfill⟩, by decide +kernel⟩

end Kernel
