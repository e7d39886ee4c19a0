/-
# What an event reports

`Kernel.fillsOf` is what an event fills: under simulated matching the fills the
routed holding's matcher makes of a tick, under venue matching the fill the venue
reports.  Booking an event reports exactly those, and never a liquidation; with
no fill the positions stay as they are.
-/
import OpenQuanter.Frames

open Logged

/-- An output that neither moved a position nor closed one. -/
def Output.quiet : Output → Bool
  | .filled _ => false
  | .liquidated _ => false
  | _ => true

/-- A condition on the price of a check, if there is one. -/
def decidableForallSome {α : Type} {P : α → Prop} [DecidablePred P] :
    (o : Option α) → Decidable (∀ a, o = some a → P a)
  | none => isTrue (by simp)
  | some a => decidable_of_iff (P a) (by simp)

namespace Kernel

variable (k : Kernel)

/-! ## Fills -/

/-- The fills a holding's matcher makes of a tick. -/
def tickFills (index : Nat) (tick : Tick) : List Fill :=
  (((k.observe index tick).state.holdingsAt index).engine.onTick tick).fills.map L0Fill.fill

/-- The kernel once a holding's matcher has seen a tick, before its fills are
booked. -/
def advanced (index : Nat) (tick : Tick) : Kernel :=
  (k.observe index tick).withState ((k.observe index tick).state.modifyAt index
    (fun h => { h with
      engine := ((k.observe index tick).state.holdingsAt index).engine.onTick tick }))

/-- What a tick books under simulated matching. -/
theorem bookTick_of_simulated (hsim : k.state.matching = .simulated) (index : Nat) (tick : Tick) :
    (k.bookTick index tick).val.1 =
      ((k.advanced index tick).bookFills index (k.tickFills index tick)).val := by
  have hnot : ¬ (k.observe index tick).state.matching = .venue := by
    show ¬ k.state.matching = .venue
    rw [hsim]
    simp
  unfold bookTick
  simp only [if_neg hnot]
  rfl

/-- What an event fills. -/
def fillsOf : Event → List Fill
  | .tick instrument tick =>
    match k.route instrument with
    | some index => if k.state.matching = .venue then [] else k.tickFills index tick
    | none => []
  | .venueFill fill _ => if k.state.matching = .venue then [fill] else []
  | _ => []

theorem outputs_bookFills (index : Nat) (fills : List Fill) :
    (k.bookFills index fills).val.outputs = k.outputs ++ fills.map Output.filled := by
  induction fills generalizing k with
  | nil =>
    show k.outputs = _
    simp
  | cons fill rest ih =>
    unfold bookFills at ih ⊢
    rw [List.foldlM_cons, val_bind, ih, List.map_cons]
    show (k.outputs ++ [Output.filled fill]) ++ rest.map Output.filled = _
    rw [List.append_assoc]
    rfl

theorem outputs_bookTick (houtputs : k.outputs = []) (index : Nat) (tick : Tick) :
    (k.bookTick index tick).val.1.outputs =
      (if k.state.matching = .venue then [] else k.tickFills index tick).map Output.filled := by
  have hmatching : (k.observe index tick).state.matching = k.state.matching := rfl
  unfold bookTick
  simp only [hmatching]
  split
  · exact houtputs
  · rw [val_bind, val_pure, outputs_bookFills]
    show k.outputs ++ _ = _
    rw [houtputs]
    rfl

theorem quiet_bookSettlement (houtputs : k.outputs = []) (instrument : Option InstrumentId)
    (at_ : Nanos) (rate : Ratio) (mark : PriceTicks) :
    ∀ o ∈ (k.bookSettlement instrument at_ rate mark).val.1.outputs, o.quiet = true := by
  unfold bookSettlement
  simp only
  split
  · simp [emit, withState, houtputs, Output.quiet]
  · split
    · simp [withState, houtputs]
    · simp [emit, withState, houtputs, Output.quiet]

theorem quiet_onSubmit (houtputs : k.outputs = []) (instrument : Option InstrumentId)
    (id : OrderId) (side : Side) (price : Option PriceTicks) (qty : QtyLots) (offset : Offset)
    (stamp : Stamp) :
    ∀ o ∈ (k.onSubmit instrument id side price qty offset stamp).outputs, o.quiet = true := by
  unfold onSubmit
  split
  · split
    · simp [emit, houtputs, Output.quiet]
    · split
      · simp [emit, houtputs, Output.quiet]
      · split
        · simp [emit, houtputs, Output.quiet]
        · simp [houtputs]
  · simp [emit, houtputs, Output.quiet]

theorem quiet_onCancel (houtputs : k.outputs = []) (id : OrderId) :
    ∀ o ∈ (k.onCancel id).outputs, o.quiet = true := by
  unfold onCancel
  simp only
  split
  · simp [houtputs, Output.quiet]
  · simp [withState, houtputs]

theorem quiet_onFundingCharged (houtputs : k.outputs = []) (instrument : Option InstrumentId)
    (at_ : Nanos) (amount : Cash) :
    ∀ o ∈ (k.onFundingCharged instrument at_ amount).val.outputs, o.quiet = true := by
  unfold onFundingCharged
  simp only
  split
  · simp [emit, withState, houtputs, Output.quiet]
  · simp [emit, withState, houtputs, Output.quiet]

/-- **What booking reports**: the fills of the event, or nothing but quiet
outputs. -/
theorem outputs_booked (event : Event) :
    (k.booked event).val.1.outputs = (k.fillsOf event).map Output.filled ∨
      (k.fillsOf event = [] ∧ ∀ o ∈ (k.booked event).val.1.outputs, o.quiet = true) := by
  cases event with
  | tick instrument tick =>
    have hroute : k.cleared.route instrument = k.route instrument := rfl
    unfold booked fillsOf
    simp only [hroute]
    rcases k.route instrument with _ | index
    · right
      simp [emit, cleared, Output.quiet]
    · left
      exact k.cleared.outputs_bookTick rfl index tick
  | funding instrument at_ rate mark =>
    exact Or.inr ⟨rfl, k.cleared.quiet_bookSettlement rfl instrument at_ rate mark⟩
  | venueFill fill reported =>
    unfold booked bookVenueFill fillsOf
    by_cases hvenue : k.state.matching = .venue
    · left
      have hnot : ¬ k.cleared.state.matching ≠ .venue := fun h => h hvenue
      simp only [if_neg hnot, if_pos hvenue]
      rfl
    · right
      have hnot : k.cleared.state.matching ≠ .venue := hvenue
      simp only [if_pos hnot, if_neg hvenue]
      simp [emit, cleared, Output.quiet]
  | submit instrument id side price qty offset stamp =>
    exact Or.inr ⟨rfl, k.cleared.quiet_onSubmit rfl instrument id side price qty offset stamp⟩
  | cancel id stamp => exact Or.inr ⟨rfl, k.cleared.quiet_onCancel rfl id⟩
  | fundingCharged instrument at_ amount =>
    exact Or.inr ⟨rfl, k.cleared.quiet_onFundingCharged rfl instrument at_ amount⟩
  | feeRecovered at_ amount remainingMissing =>
    right
    refine ⟨rfl, ?_⟩
    show ∀ o ∈ ([] : List Output), o.quiet = true
    simp
  | time at_ =>
    right
    refine ⟨rfl, ?_⟩
    show ∀ o ∈ ([] : List Output), o.quiet = true
    simp
  | marginDeposit amount at_ =>
    right
    refine ⟨rfl, ?_⟩
    show ∀ o ∈ ([] : List Output), o.quiet = true
    simp
  | depth update =>
    right
    refine ⟨rfl, ?_⟩
    show ∀ o ∈ (k.cleared.onDepth update).outputs, o.quiet = true
    unfold onDepth
    split <;> simp [withState, cleared]

/-- Booking never liquidates. -/
theorem not_liquidated_booked (event : Event) (l : Liquidation) :
    Output.liquidated l ∉ (k.booked event).val.1.outputs := by
  intro hmem
  rcases k.outputs_booked event with heq | ⟨-, hquiet⟩
  · rw [heq] at hmem
    obtain ⟨fill, -, hfill⟩ := List.mem_map.mp hmem
    cases hfill
  · exact absurd (hquiet _ hmem) (by simp [Output.quiet])

/-- The check adds liquidations only. -/
theorem mem_outputs_settle (p : Kernel × Option PriceTicks) {o : Output}
    (h : o ∈ (settle p).val.outputs) : o ∈ p.1.outputs ∨ ∃ l, o = .liquidated l := by
  unfold settle at h
  split at h
  · exact Or.inl h
  · unfold checkLiquidation at h
    split at h
    · exact Or.inl h
    · split at h
      · rcases List.mem_append.mp h with h | h
        · exact Or.inl h
        · obtain ⟨l, -, rfl⟩ := List.mem_map.mp h
          exact Or.inr ⟨l, rfl⟩
      · exact Or.inl h

/-- **What an event reports as filled is what it fills.** -/
theorem filled_mem_apply_iff (event : Event) (fill : Fill) :
    Output.filled fill ∈ (k.apply event).val.outputs ↔ fill ∈ k.fillsOf event := by
  have hmono : ∀ o ∈ (k.booked event).val.1.outputs, o ∈ (k.apply event).val.outputs := by
    intro o ho
    rw [apply_eq, val_bind]
    unfold settle
    split
    · exact ho
    · unfold checkLiquidation
      split
      · exact ho
      · split
        · exact List.mem_append_left _ ho
        · exact ho
  constructor
  · intro hmem
    rw [apply_eq, val_bind] at hmem
    rcases mem_outputs_settle _ hmem with hmem | ⟨l, hl⟩
    · rcases k.outputs_booked event with heq | ⟨-, hquiet⟩
      · rw [heq] at hmem
        obtain ⟨f, hf, hff⟩ := List.mem_map.mp hmem
        cases hff
        exact hf
      · exact absurd (hquiet _ hmem) (by simp [Output.quiet])
    · cases hl
  · intro hmem
    apply hmono
    rcases k.outputs_booked event with heq | ⟨hnil, -⟩
    · rw [heq]
      exact List.mem_map_of_mem hmem
    · rw [hnil] at hmem
      cases hmem

/-! ## Positions -/

end Kernel

theorem Holding.Move.isFlat {h h' : Holding} (hmove : Move h h') (hflat : h.isFlat = true) :
    h'.isFlat = true := by
  cases hmove with
  | stay => exact hflat
  | call _ => exact hflat
  | mark _ => exact hflat
  | close => rfl

/-- Moves without a fill keep a flat account flat. -/
theorem State.isFlat_of_forall₂ {s t : State} (h : List.Forall₂ Holding.Move s.holdings t.holdings)
    (hflat : s.isFlat = true) : t.isFlat = true := by
  unfold isFlat at hflat ⊢
  rw [List.all_eq_true] at hflat ⊢
  intro y hy
  obtain ⟨x, hx, hxy⟩ := exists_of_forall₂ h hy
  exact hxy.isFlat (hflat x hx)

theorem State.isFlat_modifyAt {s : State} {index : Nat} {f : Holding → Holding}
    (hf : ∀ h, h.isFlat = true → (f h).isFlat = true) (hflat : s.isFlat = true) :
    (s.modifyAt index f).isFlat = true := by
  unfold isFlat at hflat ⊢
  rw [List.all_eq_true] at hflat ⊢
  intro y hy
  obtain ⟨x, hx, rfl | rfl⟩ := exists_of_mem_modify hy
  · exact hflat _ hx
  · exact hf x (hflat x hx)

namespace Kernel

variable {k : Kernel}

/-- **Without a fill a flat account stays flat.** -/
theorem isFlat_booked {event : Event} (hfills : k.fillsOf event = [])
    (hflat : k.state.isFlat = true) : (k.booked event).val.1.state.isFlat = true := by
  cases event with
  | tick instrument tick =>
    have hroute : k.cleared.route instrument = k.route instrument := rfl
    unfold fillsOf at hfills
    unfold booked
    simp only [hroute]
    rcases hr : k.route instrument with _ | index
    · exact hflat
    · simp only [hr] at hfills ⊢
      have hobserved : (k.cleared.observe index tick).state.isFlat = true :=
        State.isFlat_modifyAt (s := k.state.withNow tick.stamp.exch) (fun _ h => h) hflat
      unfold bookTick
      simp only
      split
      · exact hobserved
      · rename_i hmatching
        have hmatching' : ¬ k.state.matching = .venue := hmatching
        rw [if_neg hmatching'] at hfills
        have hnil : (((k.cleared.observe index tick).state.holdingsAt index).engine.onTick
            tick).fills.map L0Fill.fill = [] := hfills
        rw [hnil]
        exact State.isFlat_modifyAt (fun _ h => h) hobserved
  | funding instrument at_ rate mark =>
    simp only [booked, bookSettlement]
    split
    · exact hflat
    · split
      · exact hflat
      · exact hflat
  | venueFill fill reported =>
    simp only [fillsOf] at hfills
    by_cases hmatching : k.state.matching = .venue
    · rw [if_pos hmatching] at hfills
      cases hfills
    · have hnot : k.cleared.state.matching ≠ .venue := hmatching
      simp only [booked, bookVenueFill, if_pos hnot]
      exact hflat
  | submit instrument id side price qty offset stamp =>
    show (k.cleared.onSubmit instrument id side price qty offset stamp).state.isFlat = true
    unfold onSubmit
    split
    · split
      · exact hflat
      · split
        · exact hflat
        · split
          · exact hflat
          · exact State.isFlat_modifyAt (fun _ h => h) hflat
    · exact hflat
  | cancel id stamp =>
    show (k.cleared.onCancel id).state.isFlat = true
    unfold onCancel
    simp only
    split <;> exact State.isFlat_of_forall₂ (forall₂_cancelFirst id _) hflat
  | fundingCharged instrument at_ amount =>
    show (k.cleared.onFundingCharged instrument at_ amount).val.state.isFlat = true
    unfold onFundingCharged
    simp only
    split <;> exact hflat
  | feeRecovered at_ amount remainingMissing => exact hflat
  | time at_ => exact hflat
  | marginDeposit amount at_ => exact hflat
  | depth update =>
    show (k.cleared.onDepth update).state.isFlat = true
    unfold onDepth
    split
    · exact State.isFlat_modifyAt (fun _ h => h) hflat
    · exact hflat

end Kernel
