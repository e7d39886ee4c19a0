/-
# The end of every order, told once

A backtest notes the orders that ended from the outputs of the kernel and tells the strategy
at the next tick.  What it knows is compared with what the kernel did on the strategy itself:
`Strategy.recorded` keeps the ids of the orders it was told were taken and of those it was
told had ended, and an order has ended once it was taken and is no longer working.

Two things an output does not say.  A liquidation withdraws the working orders without an
output for each (`Kernel.WithdrawsNone` excludes it), and an end that waits hides a later one
of the same id (`Host.ResubmitsNone`).  Every step of the host keeps the books straight
(`Straight`) exactly when neither happens in it, so the ends are told exactly along the runs
in which neither happens (`ends_told`).
-/
import OpenQuanter.Backtest
import OpenQuanter.OrdersEnd

open Logged

/-! ## The working set along an event -/

namespace Kernel

variable (k : Kernel)

/-- Whether the check an event ends in liquidates the account. -/
def closes (event : Event) : Bool :=
  match (k.booked event).val.2 with
  | none => false
  | some price =>
    let s := (k.booked event).val.1.state
    s.enforceLiquidation && !s.isFlat && liquidatable s price

/-- An event liquidates the account while an order is still working after its own fills. -/
def withdraws (event : Event) : Bool := k.closes event && !(k.booked event).val.1.working.isEmpty

/-- No event of a list withdraws an order by liquidating the account. -/
def WithdrawsNone : Kernel → List Event → Prop
  | _, [] => True
  | k, event :: rest => k.withdraws event = false ∧ (k.apply event).val.WithdrawsNone rest

theorem withdrawsNone_append (first second : List Event) :
    k.WithdrawsNone (first ++ second) ↔
      k.WithdrawsNone first ∧ (k.run first).val.WithdrawsNone second := by
  induction first generalizing k with
  | nil => exact (true_and _).symm.to_iff
  | cons event rest ih =>
    have hrun : (k.run (event :: rest)).val = ((k.apply event).val.run rest).val := by
      unfold run
      rw [List.foldlM_cons, val_bind]
    rw [List.cons_append, WithdrawsNone, WithdrawsNone, ih, hrun, and_assoc]

theorem working_apply_eq (event : Event) :
    (k.apply event).val.working =
      if k.closes event then [] else (k.booked event).val.1.working := by
  rw [apply_eq, val_bind]
  unfold settle closes
  generalize (k.booked event).val = p
  obtain ⟨b, _ | price⟩ := p
  · rfl
  · simp only
    unfold checkLiquidation
    by_cases hskip : (!b.state.enforceLiquidation || b.state.isFlat) = true
    · have hno : ¬ (b.state.enforceLiquidation && !b.state.isFlat &&
          liquidatable b.state price) = true := by
        intro hyes
        simp only [Bool.and_eq_true, Bool.not_eq_true'] at hyes
        simp [hyes.1.1, hyes.1.2] at hskip
      rw [if_pos hskip, if_neg hno]
      rfl
    · rw [if_neg hskip]
      simp only [Bool.or_eq_true, Bool.not_eq_true', not_or, Bool.not_eq_false,
        Bool.not_eq_true] at hskip
      simp only [hskip.1, hskip.2, Bool.not_false, Bool.true_and]
      split <;> rfl

/-- The check adds liquidations to the outputs and nothing else. -/
theorem exists_outputs_apply (event : Event) :
    ∃ closed : List Liquidation, (k.apply event).val.outputs =
      (k.booked event).val.1.outputs ++ closed.map Output.liquidated := by
  rw [apply_eq, val_bind]
  unfold settle
  rcases (k.booked event).val.2 with _ | price
  · exact ⟨[], (List.append_nil _).symm⟩
  · simp only
    unfold checkLiquidation
    split
    · exact ⟨[], (List.append_nil _).symm⟩
    · split
      · exact ⟨_, rfl⟩
      · exact ⟨[], (List.append_nil _).symm⟩

/-- An account of one holding, matched by the first tier. -/
structure Lone : Prop where
  tracked : k.Tracked
  one : k.state.holdings.length = 1

variable {k}

theorem Lone.apply (h : k.Lone) (event : Event) : (k.apply event).val.Lone where
  tracked := by
    apply h.tracked.apply
    intro price _
    have hlength : (k.booked event).val.1.state.holdings.length = 1 := by
      rw [(k.moves_booked event).length, h.one]
    unfold State.strands
    simp [hlength]
  one := by rw [(k.moves_apply event).length, h.one]

/-- A tick takes the orders it fills off the working set, and only working orders fill. -/
theorem Lone.booked_tick (h : k.Lone) (tick : Tick) :
    (k.booked (.tick none tick)).val.1.working =
        k.working.filter (· ∉ (k.fillsOf (.tick none tick)).map Fill.order) ∧
      (k.booked (.tick none tick)).val.1.outputs =
        (k.fillsOf (.tick none tick)).map Output.filled ∧
      ∀ id ∈ (k.fillsOf (.tick none tick)).map Fill.order, id ∈ k.working := by
  have hroute : k.cleared.route none = some 0 := if_pos h.one
  have hroute' : k.route none = some 0 := if_pos h.one
  have hsim : ¬ k.state.matching = .venue := by
    rw [h.tracked.simulated]
    simp
  have hfills : k.fillsOf (.tick none tick) = k.tickFills 0 tick := by
    unfold fillsOf
    simp only [hroute', if_neg hsim]
  have hbooked : k.booked (.tick none tick) = k.cleared.bookTick 0 tick := by
    unfold booked
    simp only [hroute]
  refine ⟨?_, ?_, ?_⟩
  · rw [hbooked, k.cleared.bookTick_of_simulated h.tracked.simulated, working_bookFills, hfills]
    rfl
  · rw [hbooked, k.cleared.outputs_bookTick rfl, hfills]
    exact congrArg (List.map Output.filled) (if_neg hsim)
  · intro id hid
    obtain ⟨fill, hfill, rfl⟩ := List.mem_map.mp hid
    exact mem_working_of_filled h.tracked ((k.filled_mem_apply_iff _ fill).mpr hfill)

theorem booked_funding (k : Kernel) (rate : FundingRate) :
    (k.booked (Backtest.Host.fundingEvent rate)).val.1.working = k.working := by
  show (k.cleared.bookSettlement _ _ _ _).val.1.working = _
  unfold bookSettlement
  simp only
  split
  · rfl
  · split <;> rfl

/-- A submission is taken or refused. -/
theorem apply_submit (k : Kernel) (instrument : Option InstrumentId) (id : OrderId) (side : Side)
    (price : Option PriceTicks) (qty : QtyLots) (offset : Offset) (stamp : Stamp) :
    let event := Event.submit instrument id side price qty offset stamp
    (k.accepts event = some id ∧ id ∉ k.working ∧ (k.apply event).val.outputs = [] ∧
        (k.apply event).val.working = k.working ++ [id]) ∨
      (k.accepts event = none ∧ (k.apply event).val.working = k.working ∧
        ∃ reason, (k.apply event).val.outputs = [.rejected id reason]) := by
  intro event
  have happly : (k.apply event).val = k.cleared.onSubmit instrument id side price qty offset
    stamp :=
    rfl
  have haccepts : k.accepts event =
      if (k.cleared.onSubmit instrument id side price qty offset stamp).outputs.isEmpty then some id
      else none := rfl
  rw [happly, haccepts]
  unfold onSubmit
  split
  · split
    · exact Or.inr ⟨rfl, rfl, _, rfl⟩
    · rename_i hdup
      rcases k.cleared.route instrument with _ | index
      · exact Or.inr ⟨rfl, rfl, _, rfl⟩
      · simp only
        split
        · exact Or.inr ⟨rfl, rfl, _, rfl⟩
        · have hfresh : id ∉ k.working := by simpa [cleared] using hdup
          exact Or.inl ⟨rfl, hfresh, rfl, rfl⟩
  · exact Or.inr ⟨rfl, rfl, _, rfl⟩

/-- A cancel takes a working order off the working set and says so. -/
theorem Lone.apply_cancel (h : k.Lone) (id : OrderId) (stamp : Stamp) :
    (k.apply (.cancel id stamp)).val.working = k.working.filter (· ≠ id) ∧
      (k.apply (.cancel id stamp)).val.outputs =
      if id ∈ k.working then [.cancelled id] else [] := by
  have hfound := (resting_cancelFirst id k.state.holdings h.tracked.l0 h.tracked.resting_nodup).2
  have hmem : id ∈ k.working ↔ id ∈ k.state.resting := h.tracked.perm.mem_iff
  show (k.cleared.onCancel id).working = _ ∧ (k.cleared.onCancel id).outputs = _
  unfold onCancel
  by_cases hyes : (cancelFirst id k.state.holdings).2 = true
  · have hid : id ∈ k.working := hmem.mpr (hfound.mp hyes)
    simp [cleared, hyes, hid]
  · have hid : id ∉ k.working := fun hw => hyes (hfound.mpr (hmem.mp hw))
    simp only [cleared, hyes, hid, if_false]
    refine ⟨?_, rfl⟩
    show k.working = _
    rw [eq_comm, List.filter_eq_self]
    intro x hx
    have hne : x ≠ id := fun heq => hid (heq ▸ hx)
    simpa using hne

end Kernel

namespace Backtest

open Live (Ending VenueClosed)

/-! ## What a strategy was told -/

/-- The ids of the orders a strategy was told were taken, and of those it was told ended. -/
structure Calls where
  placed : List OrderId
  ended : List OrderId
  deriving DecidableEq, Repr

def Calls.none : Calls := ⟨[], []⟩

/-- The same strategy, keeping what it is told of its orders. -/
def Strategy.recorded {σ : Type} (S : Strategy σ) : Strategy (σ × Calls) where
  name := S.name
  onTick ctx s := let r := S.onTick ctx (s.1.1, s.2); ((r.1, s.1.2), r.2)
  onFill fill ctx s := let r := S.onFill fill ctx (s.1.1, s.2); ((r.1, s.1.2), r.2)
  onVenueClosed closed ctx s := let r := S.onVenueClosed closed ctx (s.1.1, s.2);
    ((r.1, s.1.2), r.2)
  onEnded id ending s :=
    let r := S.onEnded id ending (s.1.1, s.2)
    ((r.1, { s.1.2 with ended := s.1.2.ended ++ [id] }), r.2)
  onPlaced id accepted s :=
    (S.onPlaced id accepted s.1,
      if accepted then { s.2 with placed := s.2.placed ++ [id] } else s.2)

/-! ## The ends that wait -/

/-- The order an output says is over, if it says so. -/
def ends : Output → Option OrderId
  | .filled fill => some fill.order
  | .cancelled id => some id
  | _ => none

theorem map_note (working : List OrderId) (ended : List (OrderId × Ending)) (id : OrderId)
    (ending : Ending) :
    (note working ended id ending).map (·.1) =
      if id ∉ working ∧ id ∉ ended.map (·.1) then ended.map (·.1) ++ [id]
      else ended.map (·.1) := by
  have hseen : ended.any (·.1 = id) = true ↔ id ∈ ended.map (·.1) := by
    simp [List.any_eq_true]
  unfold note
  by_cases hworking : id ∈ working
  · simp [hworking]
  · by_cases hwaits : id ∈ ended.map (·.1)
    · rw [if_neg (by simp [hseen.mpr hwaits]), if_neg (by simp [hwaits])]
    · have hnone : ended.any (·.1 = id) = false := by
        rw [← Bool.not_eq_true, hseen]
        exact hwaits
      rw [if_pos (by simp [hworking, hnone]), if_pos ⟨hworking, hwaits⟩, List.map_append]
      rfl

/-- One end is noted, at most once. -/
theorem nodup_note {working : List OrderId} {ended : List (OrderId × Ending)}
    (hnd : (ended.map (·.1)).Nodup) (id : OrderId) (ending : Ending) :
    ((note working ended id ending).map (·.1)).Nodup ∧
      ∀ x, x ∈ (note working ended id ending).map (·.1) ↔
        x ∈ ended.map (·.1) ∨ (x ∉ working ∧ x = id) := by
  rw [map_note]
  split
  · rename_i hnew
    refine ⟨?_, ?_⟩
    · refine List.nodup_append.mpr ⟨hnd, List.nodup_singleton id, ?_⟩
      intro a ha b hb hab
      rw [List.mem_singleton.mp hb] at hab
      exact hnew.2 (hab ▸ ha)
    · intro x
      rw [List.mem_append, List.mem_singleton]
      constructor
      · rintro (hx | rfl)
        · exact Or.inl hx
        · exact Or.inr ⟨hnew.1, rfl⟩
      · rintro (hx | ⟨-, hx⟩)
        · exact Or.inl hx
        · exact Or.inr hx
  · rename_i hold
    refine ⟨hnd, ?_⟩
    intro x
    constructor
    · exact Or.inl
    · rintro (hx | ⟨hx, rfl⟩)
      · exact hx
      · by_contra hnot
        exact hold ⟨hx, hnot⟩

/-- **What waits after an event**: what waited, and what it reported on and is not working. -/
theorem nodup_noteEndings (outputs : List Output) (working : List OrderId)
    {ended : List (OrderId × Ending)} (hnd : (ended.map (·.1)).Nodup) :
    ((noteEndings outputs working ended).map (·.1)).Nodup ∧
      ∀ x, x ∈ (noteEndings outputs working ended).map (·.1) ↔
        x ∈ ended.map (·.1) ∨ (x ∉ working ∧ x ∈ outputs.filterMap ends) := by
  unfold noteEndings
  induction outputs generalizing ended with
  | nil => exact ⟨hnd, by simp⟩
  | cons out rest ih =>
    rw [List.foldl_cons]
    have hone : ((noteEnding working ended out).map (·.1)).Nodup ∧
        ∀ x, x ∈ (noteEnding working ended out).map (·.1) ↔
          x ∈ ended.map (·.1) ∨ (x ∉ working ∧ ends out = some x) := by
      cases out with
      | filled fill => simpa [noteEnding, ends, eq_comm] using nodup_note hnd fill.order .filled
      | cancelled id => simpa [noteEnding, ends, eq_comm] using nodup_note hnd id .cancelled
      | rejected id reason => exact ⟨hnd, by simp [noteEnding, ends]⟩
      | funded amount at_ => exact ⟨hnd, by simp [noteEnding, ends]⟩
      | liquidated l => exact ⟨hnd, by simp [noteEnding, ends]⟩
    obtain ⟨hnodup, hmem⟩ := ih hone.1
    refine ⟨hnodup, ?_⟩
    intro x
    rw [hmem x, hone.2 x]
    rcases hout : ends out with _ | y
    · simp [hout]
    · simp only [List.filterMap_cons, hout, List.mem_cons, Option.some.injEq]
      grind

namespace Host

variable {σ : Type}

/-- The orders whose end waits to be told. -/
def waiting (h : Host σ) : List OrderId := h.ended.map (·.1)

section Recorded

variable (h : Host (σ × Calls))

/-- The orders the strategy was told were taken. -/
def placed : List OrderId := h.strategy.2.placed

/-- The orders the strategy was told the end of. -/
def told : List OrderId := h.strategy.2.ended

/-- How often an id is told, waits or works. -/
def known (id : OrderId) : Nat :=
  h.told.count id + h.waiting.count id + h.kernel.working.count id

/-- What holds of a run whatever its orders do. -/
structure Sound : Prop where
  lone : h.kernel.Lone
  nodup : h.waiting.Nodup
  atMost : ∀ id, h.known id ≤ h.placed.count id

/-- Every order taken is told, waits or works, and none that works waits. -/
def Straight : Prop :=
  (∀ id, h.known id = h.placed.count id) ∧ ∀ id ∈ h.waiting, id ∉ h.kernel.working

variable {h}

theorem Sound.known_eq (hs : h.Sound) (id : OrderId) :
    h.known id = h.told.count id + (if id ∈ h.waiting then 1 else 0) +
      if id ∈ h.kernel.working then 1 else 0 := by
  unfold known
  rw [hs.nodup.count, hs.lone.tracked.nodup.count]

/-! ## A step that takes orders off the working set -/

/-- The kernel moved on, and of the orders that left the working set those of `out` were
noted. -/
structure Moved (h h' : Host (σ × Calls)) (out : List OrderId) : Prop where
  calls : h'.strategy.2 = h.strategy.2
  lone : h'.kernel.Lone
  working : h'.kernel.working ⊆ h.kernel.working
  nodup : h'.waiting.Nodup
  waiting : ∀ id, id ∈ h'.waiting ↔ id ∈ h.waiting ∨ id ∈ out
  left : ∀ id ∈ out, id ∈ h.kernel.working ∧ id ∉ h'.kernel.working

variable {h' : Host (σ × Calls)} {out : List OrderId}

theorem Moved.known_le (hm : Moved h h' out) (hs : h.Sound) (id : OrderId) :
    h'.known id ≤ h.known id := by
  have hknown' : h'.known id = h.told.count id + (if id ∈ h'.waiting then 1 else 0) +
      if id ∈ h'.kernel.working then 1 else 0 := by
    unfold known told
    rw [hm.nodup.count, hm.lone.tracked.nodup.count, hm.calls]
  rw [hknown', hs.known_eq]
  have hwaiting := hm.waiting id
  have hleft := hm.left id
  have hworking := @hm.working id
  split_ifs <;> first | omega | simp_all

theorem Moved.sound (hm : Moved h h' out) (hs : h.Sound) : h'.Sound where
  lone := hm.lone
  nodup := hm.nodup
  atMost id := by
    have hplaced : h'.placed = h.placed := congrArg Calls.placed hm.calls
    rw [hplaced]
    exact (hm.known_le hs id).trans (hs.atMost id)

/-- **A step is straight when every order that left was noted**, and not otherwise. -/
theorem Moved.straight_iff (hm : Moved h h' out) (hs : h.Sound) :
    h'.Straight ↔
      h.Straight ∧ ∀ id ∈ h.kernel.working, id ∉ h'.kernel.working → id ∈ out := by
  have hplaced : h'.placed = h.placed := congrArg Calls.placed hm.calls
  have htold : h'.told = h.told := congrArg Calls.ended hm.calls
  have hs' := hm.sound hs
  constructor
  · rintro ⟨hcount, hapart⟩
    have hsame : ∀ id, h.known id = h.placed.count id := by
      intro id
      have h₁ := hm.known_le hs id
      have h₂ := hs.atMost id
      have h₃ := hcount id
      rw [hplaced] at h₃
      omega
    -- had it waited and worked, or left unnoted, the step would have lost one
    have hdown : ∀ id ∈ h.kernel.working, id ∉ h'.kernel.working →
        id ∉ h.waiting ∧ id ∈ out := by
      intro id hid hgone
      have h₁ := hsame id
      have h₂ := hcount id
      have hwaiting := hm.waiting id
      rw [hs.known_eq, if_pos hid] at h₁
      rw [hs'.known_eq, if_neg hgone, hplaced, htold] at h₂
      split_ifs at h₁ h₂ <;> first | omega | simp_all
    refine ⟨⟨hsame, ?_⟩, fun id hid hgone => (hdown id hid hgone).2⟩
    intro id hwaits hid
    by_cases hstill : id ∈ h'.kernel.working
    · exact hapart id ((hm.waiting id).mpr (Or.inl hwaits)) hstill
    · exact (hdown id hid hstill).1 hwaits
  · rintro ⟨⟨hcount, hapart⟩, hnoted⟩
    constructor
    · intro id
      have h₁ := hcount id
      have hwaiting := hm.waiting id
      have hleft := hm.left id
      have hworking := @hm.working id
      have hone := hapart id
      have hall := hnoted id
      rw [hs.known_eq] at h₁
      rw [hs'.known_eq, hplaced, htold]
      split_ifs at h₁ ⊢ <;> first | omega | simp_all
    · intro id hwaits hstill
      rcases (hm.waiting id).mp hwaits with hold | hnew
      · exact hapart id hold (hm.working hstill)
      · exact (hm.left id hnew).2 hstill

/-! ## The events of a tick -/

/-- An event takes off the working set what it fills, and more only if it withdraws. -/
theorem left_iff {k : Kernel} {event : Event} {out : List OrderId}
    (hbooked : (k.booked event).val.1.working = k.working.filter (· ∉ out)) :
    (∀ id ∈ k.working, id ∉ (k.apply event).val.working → id ∈ out) ↔
      k.withdraws event = false := by
  rw [k.working_apply_eq]
  unfold Kernel.withdraws
  rw [hbooked]
  cases k.closes event with
  | false =>
    simp only [Bool.false_and, Bool.false_eq_true, if_false, iff_true]
    intro id hid hgone
    by_contra hnot
    exact hgone (List.mem_filter.mpr ⟨hid, by simpa using hnot⟩)
  | true =>
    simp only [Bool.true_and, if_true, Bool.not_eq_false', List.isEmpty_iff,
      List.filter_eq_nil_iff, decide_eq_true_eq, not_not]
    constructor
    · intro hall id hid
      exact hall id hid List.not_mem_nil
    · intro hall id hid _
      exact hall id hid

theorem working_subset {k : Kernel} {event : Event} {out : List OrderId}
    (hbooked : (k.booked event).val.1.working = k.working.filter (· ∉ out)) :
    (k.apply event).val.working ⊆ k.working.filter (· ∉ out) := by
  rw [k.working_apply_eq, hbooked]
  split
  · exact List.nil_subset _
  · exact List.Subset.refl _

theorem moved_fund (hs : h.Sound) (rate : FundingRate) : Moved h (h.fund rate).val [] where
  calls := rfl
  lone := hs.lone.apply _
  working := by
    show (h.kernel.apply (fundingEvent rate)).val.working ⊆ _
    rw [h.kernel.working_apply_eq, h.kernel.booked_funding]
    split
    · exact List.nil_subset _
    · exact List.Subset.refl _
  nodup := hs.nodup
  waiting _ := by
    rw [List.mem_nil_iff, or_false]
    exact Iff.rfl
  left := by simp

theorem straight_fund (hs : h.Sound) (rate : FundingRate) :
    (h.fund rate).val.Straight ↔
      h.Straight ∧ h.kernel.withdraws (fundingEvent rate) = false := by
  have hbooked : (h.kernel.booked (fundingEvent rate)).val.1.working =
      h.kernel.working.filter (· ∉ ([] : List OrderId)) := by
    rw [h.kernel.booked_funding]
    simp
  rw [(moved_fund hs rate).straight_iff hs, ← left_iff hbooked]
  exact Iff.rfl

/-- The settlements due at a tick, one after the other. -/
theorem straight_funds (hs : h.Sound) (rates : List FundingRate) :
    (rates.foldlM fund h).val.Sound ∧
      (rates.foldlM fund h).val.strategy = h.strategy ∧
      (rates.foldlM fund h).val.kernel = (h.kernel.run (rates.map fundingEvent)).val ∧
      ((rates.foldlM fund h).val.Straight ↔
        h.Straight ∧ h.kernel.WithdrawsNone (rates.map fundingEvent)) := by
  induction rates generalizing h with
  | nil => exact ⟨hs, rfl, rfl, by simp [Kernel.WithdrawsNone]⟩
  | cons rate rest ih =>
    obtain ⟨hsound, hstrategy, hkernel, hstraight⟩ := ih ((moved_fund hs rate).sound hs)
    rw [List.foldlM_cons, val_bind]
    refine ⟨hsound, hstrategy, hkernel.trans ?_, ?_⟩
    · unfold Kernel.run
      rw [List.map_cons, List.foldlM_cons, val_bind]
      rfl
    · rw [hstraight, straight_fund hs, and_assoc]
      exact Iff.rfl

theorem moved_applyTick (hs : h.Sound) (tick : Tick) :
    Moved h (h.applyTick tick).val.1
      ((h.kernel.fillsOf (.tick none tick)).map Fill.order) := by
  obtain ⟨hbooked, houtputs, hfilled⟩ := hs.lone.booked_tick tick
  have hsubset := working_subset hbooked
  obtain ⟨closed, hclosed⟩ := h.kernel.exists_outputs_apply (.tick none tick)
  have hends : (h.kernel.apply (.tick none tick)).val.outputs.filterMap ends =
      (h.kernel.fillsOf (.tick none tick)).map Fill.order := by
    rw [hclosed, houtputs, List.filterMap_append, List.filterMap_map, List.filterMap_map]
    have hfills : (ends ∘ Output.filled) = fun fill : Fill => some fill.order := rfl
    have hnone : (ends ∘ Output.liquidated) = fun _ : Liquidation => none := rfl
    rw [hfills, hnone]
    simp
  have hleft : ∀ id ∈ (h.kernel.fillsOf (.tick none tick)).map Fill.order,
      id ∈ h.kernel.working ∧ id ∉ (h.kernel.apply (.tick none tick)).val.working := by
    intro id hid
    refine ⟨hfilled id hid, ?_⟩
    intro hstill
    have hkept := (List.mem_filter.mp (hsubset hstill)).2
    exact absurd hid (by simpa using hkept)
  obtain ⟨hnodup, hmem⟩ := nodup_noteEndings (h.kernel.apply (.tick none tick)).val.outputs
    (h.kernel.apply (.tick none tick)).val.working hs.nodup
  rw [hends] at hmem
  refine ⟨rfl, hs.lone.apply _, ?_, hnodup, ?_, hleft⟩
  · exact fun id hid => List.mem_of_mem_filter (hsubset hid)
  · intro id
    refine (hmem id).trans (or_congr_right ?_)
    exact ⟨And.right, fun hid => ⟨(hleft id hid).2, hid⟩⟩

theorem straight_applyTick (hs : h.Sound) (tick : Tick) :
    (h.applyTick tick).val.1.Straight ↔
      h.Straight ∧ h.kernel.withdraws (.tick none tick) = false := by
  rw [(moved_applyTick hs tick).straight_iff hs,
    ← left_iff (hs.lone.booked_tick tick).1]
  exact Iff.rfl

/-! ## The callbacks of a tick -/

variable (S : Strategy σ)

/-- The strategy is told of every end that waits, and of nothing else about its orders. -/
theorem calls_callBack (h : Host (σ × Calls)) (ctx : Context) (fills : List Fill) :
    (h.callBack S.recorded ctx fills).1.strategy.2 = ⟨h.placed, h.told ++ h.waiting⟩ := by
  have hfills : ∀ (fills : List Fill) (s : (σ × Calls) × List Intent),
      (fills.foldl (fun s fill => S.recorded.onFill fill ctx s) s).1.2 = s.1.2 := by
    intro fills
    induction fills with
    | nil => exact fun s => rfl
    | cons fill rest ih => exact fun s => ih _
  have hclosed : ∀ (closed : List VenueClosed) (s : (σ × Calls) × List Intent),
      (closed.foldl (fun s c => S.recorded.onVenueClosed c ctx s) s).1.2 = s.1.2 := by
    intro closed
    induction closed with
    | nil => exact fun s => rfl
    | cons c rest ih => exact fun s => ih _
  have hended : ∀ (ended : List (OrderId × Ending)) (s : (σ × Calls) × List Intent),
      (ended.foldl (fun s e => S.recorded.onEnded e.1 e.2 s) s).1.2 =
        { s.1.2 with ended := s.1.2.ended ++ ended.map (·.1) } := by
    intro ended
    induction ended with
    | nil =>
      intro s
      simp
    | cons e rest ih =>
      intro s
      rw [List.foldl_cons, ih]
      simp [Strategy.recorded]
  show (h.ended.foldl (fun s e => S.recorded.onEnded e.1 e.2 s) _).1.2 = _
  rw [hended, hclosed, hfills]
  rfl

/-- Between two states of a run, `before` a tick and `after` the strategy was called at it:
every order taken that is not working was told once, and what was told at this tick was not
working. -/
def Delivered (before after : Host (σ × Calls)) : Prop :=
  (∀ id, after.told.count id + after.kernel.working.count id = after.placed.count id) ∧
    ∀ id ∈ after.told.drop before.told.length, id ∉ after.kernel.working

theorem delivered_callBack_iff {m : Host (σ × Calls)} (htold : m.told = h.told) (ctx : Context)
    (fills : List Fill) :
    Delivered h (m.callBack S.recorded ctx fills).1 ↔ m.Straight := by
  have hcalls := calls_callBack S m ctx fills
  have hplaced : (m.callBack S.recorded ctx fills).1.placed = m.placed := by
    show (m.callBack S.recorded ctx fills).1.strategy.2.placed = _
    rw [hcalls]
  have htold' : (m.callBack S.recorded ctx fills).1.told = m.told ++ m.waiting := by
    show (m.callBack S.recorded ctx fills).1.strategy.2.ended = _
    rw [hcalls]
  unfold Delivered Straight known
  rw [hplaced, htold', ← htold, List.drop_left]
  simp only [List.count_append]
  exact Iff.rfl

theorem sound_callBack (hs : h.Sound) (ctx : Context) (fills : List Fill) :
    (h.callBack S.recorded ctx fills).1.Sound ∧
      (h.Straight → (h.callBack S.recorded ctx fills).1.Straight) := by
  have hcalls := calls_callBack S h ctx fills
  have hplaced : (h.callBack S.recorded ctx fills).1.placed = h.placed := by
    show (h.callBack S.recorded ctx fills).1.strategy.2.placed = _
    rw [hcalls]
  have htold : (h.callBack S.recorded ctx fills).1.told = h.told ++ h.waiting := by
    show (h.callBack S.recorded ctx fills).1.strategy.2.ended = _
    rw [hcalls]
  have hknown : ∀ id, (h.callBack S.recorded ctx fills).1.known id = h.known id := by
    intro id
    unfold known
    rw [htold, List.count_append]
    rfl
  refine ⟨⟨hs.lone, List.nodup_nil, ?_⟩, ?_⟩
  · intro id
    rw [hknown, hplaced]
    exact hs.atMost id
  · rintro ⟨hcount, -⟩
    refine ⟨?_, by simp [waiting, callBack]⟩
    intro id
    rw [hknown, hplaced]
    exact hcount id

/-- The events a tick applies before the strategy is called. -/
def eventsAt {τ : Type} (c : RunConfig) (h : Host τ) (tick : Tick) : List Event :=
  (c.funding.between h.lastFunding tick.stamp.exch).map fundingEvent ++ [.tick none tick]

theorem straight_settleFunding (hs : h.Sound) (c : RunConfig) (now : Nanos) :
    let due := (c.funding.between h.lastFunding now).map fundingEvent
    (h.settleFunding c now).val.Sound ∧ (h.settleFunding c now).val.strategy = h.strategy ∧
      (h.settleFunding c now).val.kernel = (h.kernel.run due).val ∧
      ((h.settleFunding c now).val.Straight ↔ h.Straight ∧ h.kernel.WithdrawsNone due) := by
  intro due
  unfold settleFunding
  by_cases hempty : c.funding.rates.isEmpty = true
  · have hnil : due = [] := by
      have hrates : c.funding.rates = [] := by simpa using hempty
      simp [due, FundingSchedule.between, FundingSchedule.partitionPoint, hrates]
    rw [if_pos hempty, hnil]
    exact ⟨hs, rfl, rfl, by simp [Kernel.WithdrawsNone]⟩
  · rw [if_neg hempty]
    obtain ⟨⟨hlone, hnodup, hatMost⟩, hstrategy, hkernel, hstraight⟩ :=
      straight_funds hs (c.funding.between h.lastFunding now)
    exact ⟨⟨hlone, hnodup, hatMost⟩, hstrategy, hkernel, hstraight⟩

/-- **What is told at a tick**, and what it leaves. -/
theorem delivered_iff (hs : h.Sound) (c : RunConfig) (tick : Tick) :
    (h.deliver c S.recorded tick).val.1.Sound ∧
      (Delivered h (h.deliver c S.recorded tick).val.1 ↔
        h.Straight ∧ h.kernel.WithdrawsNone (h.eventsAt c tick)) ∧
      (Delivered h (h.deliver c S.recorded tick).val.1 →
        (h.deliver c S.recorded tick).val.1.Straight) := by
  obtain ⟨hsound₁, hstrategy, hkernel, hstraight₁⟩ := straight_settleFunding hs c tick.stamp.exch
  have hmoved := moved_applyTick hsound₁ tick
  have hsound₂ := hmoved.sound hsound₁
  have hstraight₂ := straight_applyTick hsound₁ tick
  -- the state the strategy is called in; the totals are not part of what is told
  set m : Host (σ × Calls) :=
    { ((h.settleFunding c tick.stamp.exch).val.applyTick tick).val.1 with
      tally := ((h.settleFunding c tick.stamp.exch).val.applyTick tick).val.1.tally.measure c
        ((h.settleFunding c tick.stamp.exch).val.applyTick tick).val.1.kernel tick } with hm
  have hdeliver : (h.deliver c S.recorded tick).val.1 =
      (m.callBack S.recorded (context c m.kernel tick)
        ((h.settleFunding c tick.stamp.exch).val.applyTick tick).val.2).1 := rfl
  have hmsound : m.Sound := ⟨hsound₂.lone, hsound₂.nodup, hsound₂.atMost⟩
  have hmstraight : m.Straight ↔ h.Straight ∧ h.kernel.WithdrawsNone (h.eventsAt c tick) := by
    have hsame : m.Straight ↔
        ((h.settleFunding c tick.stamp.exch).val.applyTick tick).val.1.Straight := Iff.rfl
    unfold eventsAt
    rw [hsame, hstraight₂, hstraight₁, hkernel, Kernel.withdrawsNone_append, and_assoc]
    simp [Kernel.WithdrawsNone]
  have htold : m.told = h.told := by
    show ((h.settleFunding c tick.stamp.exch).val.applyTick tick).val.1.strategy.2.ended = _
    rw [hmoved.calls, hstrategy]
    rfl
  obtain ⟨hsound₃, hstraight₃⟩ := sound_callBack S hmsound (context c m.kernel tick)
    ((h.settleFunding c tick.stamp.exch).val.applyTick tick).val.2
  have hiff := delivered_callBack_iff S htold (context c m.kernel tick)
    ((h.settleFunding c tick.stamp.exch).val.applyTick tick).val.2
  rw [hdeliver]
  exact ⟨hsound₃, hiff.trans hmstraight, fun hd => hstraight₃ (hiff.mp hd)⟩

/-! ## The intents -/

/-- The order an intent adds to the working set, if the kernel takes it. -/
def takes {τ : Type} (c : RunConfig) (stamp : Stamp) (h : Host τ) (intent : Intent) :
    Option OrderId :=
  if intent.instrument.any (· ≠ c.instrument) then none
  else
    match intent with
    | .limit instrument id side price qty offset =>
      h.kernel.accepts (.submit (some instrument) id side (some price) qty offset stamp)
    | .market instrument id side qty offset =>
      h.kernel.accepts (.submit (some instrument) id side none qty offset stamp)
    | _ => none

/-- An intent adds an order under an id whose end waits to be told. -/
def resubmits {τ : Type} (c : RunConfig) (stamp : Stamp) (h : Host τ) (intent : Intent) : Bool :=
  (h.takes c stamp intent).any (fun id => h.waiting.contains id)

/-- No intent of a list does. -/
def ResubmitsNone {τ : Type} (c : RunConfig) (S : Strategy τ) (stamp : Stamp) :
    Host τ → List Intent → Prop
  | _, [] => True
  | h, intent :: rest =>
    h.resubmits c stamp intent = false ∧ ResubmitsNone c S stamp (h.act c S stamp intent).val rest

theorem moved_cancel (hs : h.Sound) (id : OrderId) (stamp : Stamp) :
    Moved h (h.record (.cancel id stamp)).val (if id ∈ h.kernel.working then [id] else []) := by
  obtain ⟨hworking, houtputs⟩ := hs.lone.apply_cancel id stamp
  obtain ⟨hnodup, hmem⟩ := nodup_noteEndings (h.kernel.apply (.cancel id stamp)).val.outputs
    (h.kernel.apply (.cancel id stamp)).val.working hs.nodup
  have hends : (h.kernel.apply (.cancel id stamp)).val.outputs.filterMap ends =
      if id ∈ h.kernel.working then [id] else [] := by
    rw [houtputs]
    split <;> rfl
  rw [hends] at hmem
  have hleft : ∀ x ∈ (if id ∈ h.kernel.working then [id] else []),
      x ∈ h.kernel.working ∧ x ∉ (h.kernel.apply (.cancel id stamp)).val.working := by
    intro x hx
    rw [hworking]
    split at hx
    · rw [List.mem_singleton.mp hx]
      exact ⟨‹_›, by simp⟩
    · cases hx
  refine ⟨rfl, hs.lone.apply _, ?_, hnodup, ?_, hleft⟩
  · show (h.kernel.apply (.cancel id stamp)).val.working ⊆ _
    rw [hworking]
    exact fun x hx => List.mem_of_mem_filter hx
  · intro x
    refine (hmem x).trans (or_congr_right ?_)
    exact ⟨And.right, fun hx => ⟨(hleft x hx).2, hx⟩⟩

theorem straight_cancel (hs : h.Sound) (id : OrderId) (stamp : Stamp) :
    (h.record (.cancel id stamp)).val.Straight ↔ h.Straight := by
  rw [(moved_cancel hs id stamp).straight_iff hs, and_iff_left_iff_imp]
  intro _ x hx hgone
  have hworking := (hs.lone.apply_cancel id stamp).1
  change x ∉ (h.kernel.apply (.cancel id stamp)).val.working at hgone
  rw [hworking, List.mem_filter, not_and] at hgone
  have hid : x = id := by simpa using hgone hx
  subst hid
  simp [hx]

/-- `CancelAll` is a cancel after the other. -/
theorem straight_cancels (hs : h.Sound) (ids : List OrderId) (stamp : Stamp) :
    (ids.foldlM (fun h id => record h (.cancel id stamp)) h).val.Sound ∧
      ((ids.foldlM (fun h id => record h (.cancel id stamp)) h).val.Straight ↔ h.Straight) := by
  induction ids generalizing h with
  | nil => exact ⟨hs, Iff.rfl⟩
  | cons id rest ih =>
    obtain ⟨hsound, hstraight⟩ := ih ((moved_cancel hs id stamp).sound hs)
    rw [List.foldlM_cons, val_bind]
    exact ⟨hsound, hstraight.trans (straight_cancel hs id stamp)⟩

theorem straight_place (hs : h.Sound) (instrument : Option InstrumentId) (id : OrderId)
    (side : Side) (price : Option PriceTicks) (qty : QtyLots) (offset : Offset) (stamp : Stamp) :
    let event := Event.submit instrument id side price qty offset stamp
    (h.place S.recorded id event).val.Sound ∧
      ((h.place S.recorded id event).val.Straight ↔
        h.Straight ∧ (h.kernel.accepts event).any (fun id => h.waiting.contains id) = false) := by
  intro event
  rcases h.kernel.apply_submit instrument id side price qty offset stamp with
    ⟨haccepts, hfresh, houtputs, hworking⟩ | ⟨haccepts, hworking, reason, houtputs⟩
  · -- taken: the id is placed and works, and its end is not noted
    change h.kernel.accepts event = some id at haccepts
    set k := (h.kernel.apply event).val with hk
    have hplace : (h.place S.recorded id event).val =
        { h with
          kernel := k
          strategy := (S.onPlaced id true h.strategy.1,
            { h.strategy.2 with placed := h.placed ++ [id] }) } := by
      show ({ h with
          kernel := k
          ended := noteEndings k.outputs k.working h.ended
          strategy := S.recorded.onPlaced id (!k.outputs.any _) h.strategy } : Host (σ × Calls)) = _
      rw [houtputs]
      rfl
    have hknown : ∀ x, (h.place S.recorded id event).val.known x =
        h.known x + [id].count x := by
      intro x
      rw [hplace]
      show h.told.count x + h.waiting.count x + k.working.count x = _
      rw [hworking, List.count_append, ← Nat.add_assoc]
      rfl
    have hplaced : ∀ x, (h.place S.recorded id event).val.placed.count x =
        h.placed.count x + [id].count x := by
      intro x
      rw [hplace]
      exact List.count_append
    have hwaiting : (h.place S.recorded id event).val.waiting = h.waiting := by rw [hplace]; rfl
    have hkernel : (h.place S.recorded id event).val.kernel.working = h.kernel.working ++ [id] := by
      rw [hplace]
      exact hworking
    refine ⟨⟨?_, ?_, ?_⟩, ?_⟩
    · rw [hplace]
      exact hs.lone.apply event
    · rw [hwaiting]
      exact hs.nodup
    · intro x
      rw [hknown, hplaced]
      exact Nat.add_le_add_right (hs.atMost x) _
    · unfold Straight
      rw [hwaiting, hkernel, haccepts]
      simp only [hknown, hplaced, Nat.add_right_cancel_iff, List.mem_append, List.mem_singleton,
        not_or, Option.any_some, List.contains_eq_mem, decide_eq_false_iff_not, and_assoc]
      refine and_congr_right fun _ => ⟨fun hapart => ?_, fun hapart => ?_⟩
      · exact ⟨fun x hx => (hapart x hx).1, fun hx => (hapart id hx).2 rfl⟩
      · intro x hx
        exact ⟨hapart.1 x hx, fun heq => hapart.2 (heq ▸ hx)⟩
  · -- refused: nothing moved
    change h.kernel.accepts event = none at haccepts
    set k := (h.kernel.apply event).val with hk
    have hplace : (h.place S.recorded id event).val =
        { h with
          kernel := k
          strategy := (S.onPlaced id false h.strategy.1, h.strategy.2) } := by
      show ({ h with
          kernel := k
          ended := noteEndings k.outputs k.working h.ended
          strategy := S.recorded.onPlaced id (!k.outputs.any _) h.strategy } : Host (σ × Calls)) = _
      rw [houtputs]
      simp [noteEndings, noteEnding, Strategy.recorded]
    have hmoved : Moved h (h.place S.recorded id event).val [] := by
      rw [hplace]
      exact ⟨rfl, hs.lone.apply event, fun x hx => hworking ▸ hx, hs.nodup, by simp [waiting],
        by simp⟩
    refine ⟨hmoved.sound hs, ?_⟩
    rw [hmoved.straight_iff hs, haccepts, hplace]
    refine and_congr_right fun _ => ⟨fun _ => rfl, fun _ x hx hgone => ?_⟩
    exact absurd (hworking ▸ hx) hgone

/-- **An intent keeps the books straight unless it resubmits.** -/
theorem straight_act (hs : h.Sound) (c : RunConfig) (stamp : Stamp) (intent : Intent) :
    (h.act c S.recorded stamp intent).val.Sound ∧
      ((h.act c S.recorded stamp intent).val.Straight ↔
        h.Straight ∧ h.resubmits c stamp intent = false) := by
  unfold act resubmits takes
  by_cases hroute : intent.instrument.any (· ≠ c.instrument) = true
  · simp only [if_pos hroute]
    have hcalls : (h.misroute S.recorded intent).strategy.2 = h.strategy.2 := by
      unfold misroute
      rcases intent.id with _ | id <;> rfl
    have hmoved : Moved h (h.misroute S.recorded intent) [] :=
      ⟨hcalls, hs.lone, List.Subset.refl _, hs.nodup, by simp [misroute, waiting], by simp⟩
    refine ⟨hmoved.sound hs, ?_⟩
    rw [val_pure, hmoved.straight_iff hs]
    exact and_congr_right fun _ => ⟨fun _ => rfl, fun _ x hx hgone => absurd hx hgone⟩
  · simp only [if_neg hroute]
    cases intent with
    | limit instrument id side price qty offset =>
      exact straight_place S hs (some instrument) id side (some price) qty offset stamp
    | market instrument id side qty offset =>
      exact straight_place S hs (some instrument) id side none qty offset stamp
    | cancel id =>
      refine ⟨(moved_cancel hs id stamp).sound hs, ?_⟩
      simpa using straight_cancel hs id stamp
    | cancelAll => simpa using straight_cancels hs h.kernel.working stamp

theorem straight_acts (hs : h.Sound) (c : RunConfig) (stamp : Stamp) (intents : List Intent) :
    (intents.foldlM (act c S.recorded stamp) h).val.Sound ∧
      ((intents.foldlM (act c S.recorded stamp) h).val.Straight ↔
        h.Straight ∧ ResubmitsNone c S.recorded stamp h intents) := by
  induction intents generalizing h with
  | nil => exact ⟨hs, by simp [ResubmitsNone]⟩
  | cons intent rest ih =>
    obtain ⟨hsound, hstraight⟩ := straight_act S hs c stamp intent
    obtain ⟨hsound', hstraight'⟩ := ih hsound
    rw [List.foldlM_cons, val_bind]
    refine ⟨hsound', ?_⟩
    rw [hstraight', hstraight, and_assoc]
    exact Iff.rfl

/-! ## A run -/

/-- What holds at every tick of a run, before it and after it. -/
theorem forall_split_cons {α : Type} {P : List α → α → List α → Prop} {a : α} {l : List α} :
    (∀ before x after, a :: l = before ++ x :: after → P before x after) ↔
      P [] a l ∧ ∀ before x after, l = before ++ x :: after → P (a :: before) x after := by
  constructor
  · intro h
    refine ⟨h [] a l rfl, ?_⟩
    rintro before x after rfl
    exact h (a :: before) x after rfl
  · rintro ⟨hfirst, hrest⟩ before x after heq
    rcases before with _ | ⟨b, before⟩
    · obtain ⟨rfl, rfl⟩ := List.cons.inj heq
      exact hfirst
    · obtain ⟨rfl, hl⟩ := List.cons.inj heq
      exact hrest before x after hl

/-- Neither of the two happens at a tick: no settlement and no tick withdraws an order by
liquidating the account, and, unless the tick is the last, no intent adds an order under an
id whose end waits. -/
def Clear {τ : Type} (c : RunConfig) (S : Strategy τ) (h : Host τ) (tick : Tick)
    (after : List Tick) : Prop :=
  h.kernel.WithdrawsNone (h.eventsAt c tick) ∧
    (after ≠ [] → ResubmitsNone c S tick.stamp (h.deliver c S tick).val.1
      (h.deliver c S tick).val.2)

theorem straight_of_delivered (hs : h.Sound) (c : RunConfig) {tick : Tick}
    (hd : Delivered h (h.deliver c S.recorded tick).val.1) : h.Straight :=
  ((delivered_iff S hs c tick).2.1.mp hd).1

/-- From a host whose books are straight. -/
theorem delivered_iff_clear (c : RunConfig) (hs : h.Sound) (hstraight : h.Straight)
    (ticks : List Tick) :
    (∀ before tick after, ticks = before ++ tick :: after →
        Delivered (h.ran c S.recorded before)
          ((h.ran c S.recorded before).deliver c S.recorded tick).val.1) ↔
      ∀ before tick after, ticks = before ++ tick :: after →
        (h.ran c S.recorded before).Clear c S.recorded tick after := by
  induction ticks generalizing h with
  | nil => simp
  | cons tick rest ih =>
    rw [forall_split_cons, forall_split_cons]
    simp only [ran_cons]
    obtain ⟨hsound, hdelivered, hleft⟩ := delivered_iff S hs c tick
    obtain ⟨hsound', hacts⟩ := straight_acts S hsound c tick.stamp
      (h.deliver c S.recorded tick).val.2
    have hnow : Delivered h (h.deliver c S.recorded tick).val.1 ↔
        h.kernel.WithdrawsNone (h.eventsAt c tick) :=
      hdelivered.trans (and_iff_right hstraight)
    constructor
    · rintro ⟨hfirst, hrest⟩
      have hwithdraws := hnow.mp hfirst
      rcases rest with _ | ⟨next, rest⟩
      · exact ⟨⟨hwithdraws, fun hne => absurd rfl hne⟩, by simp⟩
      · -- what is told at the next tick says that this one left the books straight
        have hnext := straight_of_delivered S hsound' c (hrest [] next rest rfl)
        exact ⟨⟨hwithdraws, fun _ => (hacts.mp hnext).2⟩, (ih hsound' hnext).mp hrest⟩
    · rintro ⟨hfirst, hrest⟩
      have hfirst' := hnow.mpr hfirst.1
      refine ⟨hfirst', ?_⟩
      rcases rest with _ | ⟨next, rest⟩
      · simp
      · have hnext := hacts.mpr ⟨hleft hfirst', hfirst.2 (by simp)⟩
        exact (ih hsound' hnext).mpr hrest

theorem sound_start {c : RunConfig} (hl0 : c.tier = .l0) (s : σ) :
    (start c (s, Calls.none)).Sound ∧ (start c (s, Calls.none)).Straight := by
  have hholdings : c.state.holdings =
      [{ Holding.new c.instrument c.contract c.table with
          engine := .l0 (L0Engine.new c.instrument) }] := by
    rw [c.holdings_state, hl0]
    rfl
  have hresting : c.state.resting = [] := by
    unfold State.resting
    rw [hholdings]
    rfl
  have htracked : (Kernel.new c.state).Tracked := by
    refine ⟨?_, List.nodup_nil, ?_, c.matching_state⟩
    · show ([] : List OrderId).Perm c.state.resting
      rw [hresting]
    · intro x hx
      change x ∈ c.state.holdings at hx
      rw [hholdings, List.mem_singleton] at hx
      exact ⟨_, by rw [hx]⟩
  refine ⟨⟨⟨htracked, ?_⟩, List.nodup_nil, fun id => Nat.le_refl _⟩, fun id => rfl, ?_⟩
  · show c.state.holdings.length = 1
    rw [hholdings]
    rfl
  · intro id hid
    cases hid

end Recorded

end Host

/-- **The ends of the orders are told, exactly along the clear runs.**  At every tick, once
the strategy was called, each order the kernel took is working or was told to have ended by
one call, and no call was about a working order: if and only if no settlement and no tick of
the run withdraws an order by liquidating the account, and no tick but the last adds an order
under an id whose end waits. -/
theorem ends_told {σ : Type} (c : RunConfig) (hl0 : c.tier = .l0) (S : Strategy σ) (s : σ)
    (ticks : List Tick) :
    (∀ before tick after, ticks = before ++ tick :: after →
        let h := (Host.run c S.recorded (s, Calls.none) (before.map .tick)).val
        Host.Delivered h (h.deliver c S.recorded tick).val.1) ↔
      ∀ before tick after, ticks = before ++ tick :: after →
        let h := (Host.run c S.recorded (s, Calls.none) (before.map .tick)).val
        h.Clear c S.recorded tick after :=
  Host.delivered_iff_clear S c (Host.sound_start hl0 s).1 (Host.sound_start hl0 s).2 ticks

/-! ## Two runs -/

instance decidableWithdrawsNone :
    (k : Kernel) → (events : List Event) → Decidable (k.WithdrawsNone events)
  | _, [] => isTrue trivial
  | k, event :: rest =>
    have := decidableWithdrawsNone (k.apply event).val rest
    inferInstanceAs (Decidable (k.withdraws event = false ∧ (k.apply event).val.WithdrawsNone rest))

instance decidableResubmitsNone {τ : Type} (c : RunConfig) (S : Strategy τ) (stamp : Stamp) :
    (h : Host τ) → (intents : List Intent) → Decidable (Host.ResubmitsNone c S stamp h intents)
  | _, [] => isTrue trivial
  | h, intent :: rest =>
    have := decidableResubmitsNone c S stamp (h.act c S stamp intent).val rest
    inferInstanceAs (Decidable (h.resubmits c stamp intent = false ∧
      Host.ResubmitsNone c S stamp (h.act c S stamp intent).val rest))

instance {τ : Type} (c : RunConfig) (S : Strategy τ) (h : Host τ) (tick : Tick)
    (after : List Tick) : Decidable (h.Clear c S tick after) :=
  inferInstanceAs (Decidable (_ ∧ (_ → _)))

/-- A strategy that sends what it was given for each tick. -/
def Strategy.scripted : Strategy (List (List Intent)) where
  name := "scripted"
  onTick _ s := (s.1.tail, s.2 ++ s.1.headD [])
  onFill _ _ s := s
  onVenueClosed _ _ s := s
  onEnded _ _ s := s
  onPlaced _ _ s := s

/-- One instrument at the first tier, with liquidation. -/
def anchorConfig : RunConfig where
  equityEvery := 0
  trackMargin := false
  instrument := 7
  contract := ⟨10⟩
  table := Kernel.flatTable
  startingBalance := 10000
  margin := .enforced
  funding := .empty
  fees := Fees.none
  positionMode := .oneWay
  tier := .l0

/-- A tick at a price, with the market around it. -/
def tickAt (at_ : Nanos) (price : PriceTicks) : Tick :=
  ⟨⟨at_, at_⟩, price, price, price, price - 1, price, 10⟩

/-- An entry that fills, a limit order that is cancelled, and an exit that fills. -/
def quietScript : List (List Intent) :=
  [[.market 7 1 .buy 5 .opening, .limit 7 2 .buy 90 5 .opening],
    [.cancel 2, .limit 7 3 .sell 101 5 .closing], [], []]

def quietTicks : List Tick := [tickAt 1 100, tickAt 2 100, tickAt 3 102, tickAt 4 102]

theorem ends_told_quiet :
    anchorConfig.tier = .l0 ∧
      ∀ before tick after, quietTicks = before ++ tick :: after →
        let h := (Host.run anchorConfig Strategy.scripted.recorded (quietScript, Calls.none)
          (before.map .tick)).val
        Host.Delivered h (h.deliver anchorConfig Strategy.scripted.recorded tick).val.1 := by
  refine ⟨rfl, (ends_told anchorConfig rfl Strategy.scripted quietScript quietTicks).mpr ?_⟩
  unfold quietTicks
  simp only [Host.forall_split_cons]
  refine ⟨?_, ?_, ?_, ?_, by simp⟩ <;> decide +kernel

/-- A position, and a limit order that rests below the market. -/
def restingScript : List (List Intent) :=
  [[.market 7 1 .buy 50 .opening, .limit 7 2 .buy 50 5 .opening]]

/-- The third tick liquidates the account. -/
def fallingTicks : List Tick :=
  [tickAt 1 100, tickAt 2 100, tickAt 3 70, tickAt 4 70, tickAt 5 70]

/-- **A liquidation ends an order in silence.**  Two orders were taken, neither works after
the third tick, and two ticks later the strategy was told the end of one. -/
theorem end_never_told :
    let run := Host.run anchorConfig Strategy.scripted.recorded (restingScript, Calls.none)
    let third := (run ((fallingTicks.take 3).map .tick)).val
    let last := (run (fallingTicks.map .tick)).val
    anchorConfig.tier = .l0 ∧ anchorConfig.margin = .enforced ∧
      third.placed = [1, 2] ∧ third.kernel.working = [] ∧ last.told = [1] ∧
      ¬ ∀ before tick after, fallingTicks = before ++ tick :: after →
        let h := (run (before.map .tick)).val
        Host.Delivered h (h.deliver anchorConfig Strategy.scripted.recorded tick).val.1 := by
  refine ⟨rfl, rfl, by decide +kernel, by decide +kernel, by decide +kernel, ?_⟩
  intro hall
  have hlast := (hall (fallingTicks.take 4) (tickAt 5 70) [] rfl).1 2
  exact absurd hlast (by decide +kernel)

/-- An id used again in the tick that withdrew it: its end is told while it works. -/
example :
    let script : List (List Intent) :=
      [[.limit 7 2 .buy 50 5 .opening, .cancel 2, .limit 7 2 .buy 60 5 .opening]]
    let h := (Host.run anchorConfig Strategy.scripted.recorded (script, Calls.none)
      ([tickAt 1 100, tickAt 2 100].map .tick)).val
    h.told = [2] ∧ h.kernel.working = [2] := by
  decide +kernel

end Backtest
