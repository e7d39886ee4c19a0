/-
# Every fill is paired or reported, once

Beside a shadow stand the pairs it has made and the fills it has reported as made by one side.
With the two waiting lists these are the logs, in some order (`Accounted`), and every
divergence about a fill is one of theirs (`Told`).  Once nothing waits, the pairs and the
reported fills are all there is.
-/
import OpenQuanter.Identity
import OpenQuanter.Shadow

open Logged

namespace List

/-- A list is what a search finds and what is left when that is removed. -/
theorem perm_cons_eraseP_of_find? {α : Type*} {p : α → Bool} {l : List α} {a : α}
    (h : l.find? p = some a) : l.Perm (a :: l.eraseP p) := by
  obtain ⟨ha, before, after, rfl, hbefore⟩ := find?_eq_some_iff_append.mp h
  rw [eraseP_append_right _ fun b hb => by simpa using hbefore b hb, eraseP_cons_of_pos ha]
  exact perm_middle

end List

namespace Live

/-! ## Pairs and single fills -/

/-- Two fills of one order, one of each side. -/
structure Paired where
  model : LoggedFill
  venue : LoggedFill
  reference : Option PriceTicks
  sameOrder : model.id = venue.id

/-- The evidence of a pair. -/
def Paired.matched (p : Paired) : Parity.Matched :=
  ⟨p.model.side, p.model.qty, p.model.price, p.venue.price, p.reference⟩

/-- Whether the two sides filled the same. -/
def Paired.agrees (p : Paired) : Bool := p.model.side = p.venue.side && p.model.qty = p.venue.qty

/-- A fill one side made alone. -/
structure Single where
  atVenue : Bool
  fill : Pending

/-- The evidence of a single fill. -/
def Single.unmatched (f : Single) : Parity.Unmatched := Shadow.unmatchedOf f.atVenue f.fill

/-- What is reported of a single fill. -/
def Single.divergence (f : Single) : Divergence := Shadow.onlyOf f.atVenue f.fill

/-- The fills a side made alone. -/
def alone (atVenue : Bool) (singles : List Single) : List LoggedFill :=
  (singles.filter fun f => f.atVenue = atVenue).map fun f => f.fill.toLoggedFill

namespace Divergence

/-- A fill of one side only. -/
def isOnly : Divergence → Bool
  | .modelOnly .. => true
  | .venueOnly .. => true
  | _ => false

/-- A pair whose prices differ. -/
def isPrice : Divergence → Bool
  | .price .. => true
  | _ => false

/-- A pair whose quantities differ. -/
def isQuantity : Divergence → Bool
  | .quantity .. => true
  | _ => false

end Divergence

namespace Shadow

/-- What a shadow tells of its pairs and of the fills of one side: every one of them, once. -/
structure Told (s : Shadow) (pairs : List Paired) (singles : List Single) : Prop where
  matched : s.matched = pairs.map Paired.matched
  unpaired : s.unpaired = singles.map Single.unmatched
  only : s.divergences.filter Divergence.isOnly = singles.map Single.divergence
  price : s.divergences.filter Divergence.isPrice =
    (pairs.filter fun p => p.model.price ≠ p.venue.price).map
      fun p => .price p.model.id p.model.price p.venue.price
  quantity : s.divergences.filter Divergence.isQuantity =
    (pairs.filter fun p => p.model.qty ≠ p.venue.qty).map
      fun p => .quantity p.model.id p.model.qty p.venue.qty
  pairing : s.pairingValid = pairs.all Paired.agrees

/-- The logs are the pairs, the reported fills and those that wait. -/
structure Accounted (s : Shadow) (pairs : List Paired) (singles : List Single) : Prop
    extends Told s pairs singles where
  model : s.modelLog.Perm
    (pairs.map Paired.model ++ alone false singles ++ s.unmatchedModel.map Pending.toLoggedFill)
  venue : s.venueLog.Perm
    (pairs.map Paired.venue ++ alone true singles ++ s.unmatchedVenue.map Pending.toLoggedFill)

variable {s : Shadow} {pairs : List Paired} {singles : List Single}

/-! ## One pair, some reports -/

theorem Told.pair (h : s.Told pairs singles) (p : Paired) :
    (s.pair p.model p.venue p.reference).Told (pairs ++ [p]) singles where
  matched := by
    show s.matched ++ _ = _
    rw [h.matched, List.map_append]
    rfl
  unpaired := h.unpaired
  only := by
    show (s.divergences ++ differences p.model p.venue).filter _ = _
    rw [List.filter_append, h.only]
    unfold differences
    split <;> split <;> simp [Divergence.isOnly]
  price := by
    show (s.divergences ++ differences p.model p.venue).filter _ = _
    rw [List.filter_append, h.price, List.filter_append, List.map_append]
    unfold differences
    by_cases hprice : p.model.price = p.venue.price <;>
      by_cases hqty : p.model.qty = p.venue.qty <;> simp [hprice, hqty, List.filter_cons,
        Divergence.isPrice]
  quantity := by
    show (s.divergences ++ differences p.model p.venue).filter _ = _
    rw [List.filter_append, h.quantity, List.filter_append, List.map_append]
    unfold differences
    by_cases hprice : p.model.price = p.venue.price <;>
      by_cases hqty : p.model.qty = p.venue.qty <;> simp [hprice, hqty, List.filter_cons,
        Divergence.isQuantity]
  pairing := by
    show (s.pairingValid && p.agrees) = _
    rw [h.pairing, List.all_append, List.all_cons, List.all_nil, Bool.and_true]

theorem isOnly_onlyOf (atVenue : Bool) (p : Pending) : (onlyOf atVenue p).isOnly = true := by
  unfold onlyOf
  split <;> rfl

theorem Told.report (h : s.Told pairs singles) (atVenue : Bool) (fills : List Pending) :
    (s.report atVenue fills).Told pairs (singles ++ fills.map fun p => ⟨atVenue, p⟩) where
  matched := h.matched
  unpaired := by
    show s.unpaired ++ _ = _
    rw [h.unpaired, List.map_append, List.map_map]
    rfl
  only := by
    show (s.divergences ++ fills.map (onlyOf atVenue)).filter _ = _
    rw [List.filter_append, h.only, List.map_append, List.map_map]
    congr 1
    refine List.filter_eq_self.mpr fun d hd => ?_
    obtain ⟨p, -, rfl⟩ := List.mem_map.mp hd
    exact isOnly_onlyOf atVenue p
  price := by
    show (s.divergences ++ fills.map (onlyOf atVenue)).filter _ = _
    rw [List.filter_append, h.price, List.filter_map]
    unfold onlyOf
    cases atVenue <;> simp [Function.comp_def, Divergence.isPrice]
  quantity := by
    show (s.divergences ++ fills.map (onlyOf atVenue)).filter _ = _
    rw [List.filter_append, h.quantity, List.filter_map]
    unfold onlyOf
    cases atVenue <;> simp [Function.comp_def, Divergence.isQuantity]
  pairing := h.pairing

/-- Reports of one side are added to its own fills. -/
theorem alone_report (atVenue side : Bool) (fills : List Pending) (singles : List Single) :
    alone side (singles ++ fills.map fun p => ⟨atVenue, p⟩) =
      alone side singles ++ if atVenue = side then fills.map Pending.toLoggedFill else [] := by
  unfold alone
  rw [List.filter_append, List.map_append, List.filter_map]
  by_cases hside : atVenue = side <;> simp [Function.comp_def, hside]

/-! ## One operation -/

theorem accounted_fromState (state : State) (grace : Nanos) :
    ((fromState state).withGrace grace).Accounted [] [] where
  matched := rfl
  unpaired := rfl
  only := rfl
  price := rfl
  quantity := rfl
  pairing := rfl
  model := List.Perm.refl _
  venue := List.Perm.refl _

/-- A model fill is paired with the venue's fill that waits for its order, or waits. -/
theorem Accounted.recordModelFill (h : s.Accounted pairs singles) (made : Fill) (at_ : Nanos) :
    ∃ pairs', (s.recordModelFill made at_).Accounted pairs' singles := by
  unfold Shadow.recordModelFill
  simp only
  split
  · rename_i venue hfind
    have hid := List.find?_some hfind
    have hsplit := (List.perm_cons_eraseP_of_find? hfind).map Pending.toLoggedFill
    let p : Paired := ⟨⟨at_, made.order, made.side, made.price, made.qty⟩, venue.toLoggedFill,
      s.last, (of_decide_eq_true hid).symm⟩
    have htold : Told { s with
        modelLog := s.modelLog ++ [p.model]
        unmatchedVenue := s.unmatchedVenue.eraseP fun p => p.id = made.order } pairs singles :=
      ⟨h.matched, h.unpaired, h.only, h.price, h.quantity, h.pairing⟩
    refine ⟨pairs ++ [p], htold.pair p, ?_, ?_⟩
    · refine List.perm_iff_count.mpr fun f => ?_
      have hcount := h.model.count_eq f
      show (s.modelLog ++ [p.model]).count f = _
      simp only [pair, List.map_append, List.map_cons, List.map_nil, List.count_append] at hcount ⊢
      omega
    · refine List.perm_iff_count.mpr fun f => ?_
      have hcount := h.venue.count_eq f
      have hwaiting := hsplit.count_eq f
      show s.venueLog.count f = List.count f (_ ++ _ ++ (s.unmatchedVenue.eraseP _).map _)
      simp only [List.map_append, List.map_cons, List.map_nil, List.count_append,
        List.count_cons, List.count_nil] at hcount hwaiting ⊢
      have hp : p.venue = venue.toLoggedFill := rfl
      rw [hp]
      omega
  · refine ⟨pairs, ⟨h.matched, h.unpaired, h.only, h.price, h.quantity, h.pairing⟩, ?_, h.venue⟩
    refine List.perm_iff_count.mpr fun f => ?_
    have hcount := h.model.count_eq f
    simp only [List.map_append, List.map_cons, List.map_nil, List.count_append] at hcount ⊢
    omega

/-- Model fills reported leave the list they waited in. -/
theorem Accounted.reportModel (h : s.Accounted pairs singles) {early late : Pending → Bool}
    (hlate : ∀ p, late p = !early p) :
    (Shadow.report { s with unmatchedModel := s.unmatchedModel.filter late } false
      (s.unmatchedModel.filter early)).Accounted pairs
        (singles ++ (s.unmatchedModel.filter early).map fun p => ⟨false, p⟩) where
  toTold := by
    have htold : Told { s with unmatchedModel := s.unmatchedModel.filter late } pairs singles :=
      ⟨h.matched, h.unpaired, h.only, h.price, h.quantity, h.pairing⟩
    exact htold.report _ _
  model := by
    refine List.perm_iff_count.mpr fun f => ?_
    have hcount := h.model.count_eq f
    have hsplit := ((List.filter_append_perm early s.unmatchedModel).map
      Pending.toLoggedFill).count_eq f
    rw [List.filter_congr fun p _ => hlate p, alone_report, if_pos rfl]
    show s.modelLog.count f = List.count f (_ ++ _ ++ (s.unmatchedModel.filter _).map _)
    simp only [List.map_append, List.count_append] at hcount hsplit ⊢
    omega
  venue := by
    rw [alone_report, if_neg Bool.false_ne_true, List.append_nil]
    exact h.venue

/-- Venue fills reported leave the list they waited in. -/
theorem Accounted.reportVenue (h : s.Accounted pairs singles) {early late : Pending → Bool}
    (hlate : ∀ p, late p = !early p) :
    (Shadow.report { s with unmatchedVenue := s.unmatchedVenue.filter late } true
      (s.unmatchedVenue.filter early)).Accounted pairs
        (singles ++ (s.unmatchedVenue.filter early).map fun p => ⟨true, p⟩) where
  toTold := by
    have htold : Told { s with unmatchedVenue := s.unmatchedVenue.filter late } pairs singles :=
      ⟨h.matched, h.unpaired, h.only, h.price, h.quantity, h.pairing⟩
    exact htold.report _ _
  model := by
    rw [alone_report, if_neg (Ne.symm Bool.false_ne_true), List.append_nil]
    exact h.model
  venue := by
    refine List.perm_iff_count.mpr fun f => ?_
    have hcount := h.venue.count_eq f
    have hsplit := ((List.filter_append_perm early s.unmatchedVenue).map
      Pending.toLoggedFill).count_eq f
    rw [List.filter_congr fun p _ => hlate p, alone_report, if_pos rfl]
    show s.venueLog.count f = List.count f (_ ++ _ ++ (s.unmatchedVenue.filter _).map _)
    simp only [List.map_append, List.count_append] at hcount hsplit ⊢
    omega

/-- What expires is reported, each fill on its own side. -/
theorem Accounted.expire (h : s.Accounted pairs singles) (now : Nanos) :
    ∃ singles', (s.expire now).Accounted pairs singles' := by
  have hlate : ∀ p : Pending, decide (satSub now s.grace < p.at_) =
      !decide (p.at_ ≤ satSub now s.grace) := fun p => by
    rw [← decide_not, decide_eq_decide, Int64.not_le]
  exact ⟨_, (h.reportModel hlate).reportVenue hlate⟩

/-- A venue fill is paired with the model's fill that waits for its order, or waits. -/
theorem Accounted.onVenueFill (h : s.Accounted pairs singles) (id : OrderId) (side : Side)
    (price : PriceTicks) (qty : QtyLots) (at_ : Nanos) :
    ∃ pairs' singles', (s.onVenueFill id side price qty at_).Accounted pairs' singles' := by
  unfold Shadow.onVenueFill
  simp only
  split
  · rename_i model hfind
    have hid := List.find?_some hfind
    have hsplit := (List.perm_cons_eraseP_of_find? hfind).map Pending.toLoggedFill
    let p : Paired := ⟨model.toLoggedFill, ⟨at_, id, side, price, qty⟩, model.reference,
      of_decide_eq_true hid⟩
    have htold : Told { s with
        venueLog := s.venueLog ++ [p.venue]
        unmatchedModel := s.unmatchedModel.eraseP fun p => p.id = id } pairs singles :=
      ⟨h.matched, h.unpaired, h.only, h.price, h.quantity, h.pairing⟩
    refine ⟨pairs ++ [p], singles, htold.pair p, ?_, ?_⟩
    · refine List.perm_iff_count.mpr fun f => ?_
      have hcount := h.model.count_eq f
      have hwaiting := hsplit.count_eq f
      show s.modelLog.count f = List.count f (_ ++ _ ++ (s.unmatchedModel.eraseP _).map _)
      simp only [List.map_append, List.map_cons, List.map_nil, List.count_append,
        List.count_cons, List.count_nil] at hcount hwaiting ⊢
      have hp : p.model = model.toLoggedFill := rfl
      rw [hp]
      omega
    · refine List.perm_iff_count.mpr fun f => ?_
      have hcount := h.venue.count_eq f
      show (s.venueLog ++ [p.venue]).count f = _
      simp only [pair, List.map_append, List.map_cons, List.map_nil, List.count_append] at hcount ⊢
      omega
  · have hwaits : Accounted { s with
        venueLog := s.venueLog ++ [⟨at_, id, side, price, qty⟩]
        unmatchedVenue := s.unmatchedVenue ++ [⟨⟨at_, id, side, price, qty⟩, s.last⟩] }
        pairs singles := by
      refine ⟨⟨h.matched, h.unpaired, h.only, h.price, h.quantity, h.pairing⟩, h.model, ?_⟩
      refine List.perm_iff_count.mpr fun f => ?_
      have hcount := h.venue.count_eq f
      simp only [List.map_append, List.map_cons, List.map_nil, List.count_append] at hcount ⊢
      omega
    obtain ⟨singles', hexpired⟩ := hwaits.expire at_
    exact ⟨pairs, singles', hexpired⟩

/-- The fills of one event, one after another. -/
theorem Accounted.recordModelFills (fills : List Fill) (at_ : Nanos) :
    ∀ {s : Shadow} {pairs}, s.Accounted pairs singles → ∃ pairs',
      (fills.foldl (fun s fill => s.recordModelFill fill at_) s).Accounted pairs' singles := by
  induction fills with
  | nil => exact fun {_ pairs} h => ⟨pairs, h⟩
  | cons made fills ih =>
    intro s pairs h
    obtain ⟨pairs', h'⟩ := h.recordModelFill made at_
    exact ih h'

theorem Accounted.apply (h : s.Accounted pairs singles) (event : Event) :
    ∃ pairs' singles', (s.apply event).val.Accounted pairs' singles' := by
  let k := (s.kernel.apply event).val
  have h' : Accounted { s with applied := s.applied + 1, kernel := k } pairs singles :=
    ⟨⟨h.matched, h.unpaired, h.only, h.price, h.quantity, h.pairing⟩, h.model, h.venue⟩
  obtain ⟨pairs', hmade⟩ := h'.recordModelFills (filled k.outputs) event.at_
  obtain ⟨singles', hexpired⟩ := hmade.expire event.at_
  exact ⟨pairs', singles', hexpired⟩

/-- The operations keep every fill paired, reported or waiting. -/
theorem accounted_step (s : Shadow) (op : ShadowOp)
    (h : ∃ pairs singles, s.Accounted pairs singles) :
    Ensures ∅ (s.step op) fun t => ∃ pairs singles, t.Accounted pairs singles := by
  obtain ⟨pairs, singles, h⟩ := h
  cases op with
  | apply event => exact ensures_of_val (h.apply event)
  | onTick tick =>
    have h' : Accounted { s with last := some tick.last } pairs singles :=
      ⟨⟨h.matched, h.unpaired, h.only, h.price, h.quantity, h.pairing⟩, h.model, h.venue⟩
    exact ensures_of_val (h'.apply _)
  | onVenueFill id side price qty at_ =>
    exact ensures_of_val (h.onVenueFill id side price qty at_)
  | withdrawAbsent live at_ =>
    refine ensures_foldlM (fun s id hs => ?_) ⟨pairs, singles, h⟩ _
    obtain ⟨pairs, singles, hs⟩ := hs
    exact ensures_of_val (hs.apply _)
  | comparePosition venue at_ =>
    refine ensures_of_val ⟨pairs, singles, ?_⟩
    show (s.comparePosition venue at_).Accounted pairs singles
    unfold Shadow.comparePosition
    split
    · refine ⟨⟨h.matched, h.unpaired, ?_, ?_, ?_, h.pairing⟩, h.model, h.venue⟩
      · rw [List.filter_append, h.only]
        exact List.append_nil _
      · rw [List.filter_append, h.price]
        exact List.append_nil _
      · rw [List.filter_append, h.quantity]
        exact List.append_nil _
    · exact h

theorem accounted_run (state : State) (grace : Nanos) (ops : List ShadowOp) :
    ∃ pairs singles, (((fromState state).withGrace grace).run ops).val.Accounted pairs singles :=
  ensures_empty (ensures_foldlM accounted_step ⟨[], [], accounted_fromState state grace⟩ ops)

/-! ## The end of a run -/

/-- The last flush reports all that waits, when nothing is logged after it. -/
theorem Accounted.finish (h : s.Accounted pairs singles) {at_ : Nanos}
    (hlast : ∀ f ∈ s.modelLog ++ s.venueLog, f.at_ ≤ at_) :
    (s.finish at_).unmatchedModel = [] ∧ (s.finish at_).unmatchedVenue = [] ∧
      ∃ singles', (s.finish at_).Accounted pairs singles' := by
  have hcutoff : satSub at_ 0 = at_ := by
    unfold satSub
    rw [Int64.toInt_zero, sub_zero]
    exact Int64.ofIntClamp_toInt at_
  have hempty : ∀ waiting : List Pending, (∀ p ∈ waiting, p.toLoggedFill ∈ s.modelLog ++
    s.venueLog) →
      waiting.filter (fun p => satSub at_ 0 < p.at_) = [] := by
    intro waiting hmem
    refine List.filter_eq_nil_iff.mpr fun p hp hlt => ?_
    rw [hcutoff, decide_eq_true_eq] at hlt
    exact Int64.not_le.mpr hlt (hlast _ (hmem p hp))
  refine ⟨hempty _ fun p hp => ?_, hempty _ fun p hp => ?_, ?_⟩
  · exact List.mem_append_left _
      (h.model.symm.subset (List.mem_append_right _ (List.mem_map_of_mem hp)))
  · exact List.mem_append_right _
      (h.venue.symm.subset (List.mem_append_right _ (List.mem_map_of_mem hp)))
  · have h' : Accounted { s with grace := 0 } pairs singles :=
      ⟨⟨h.matched, h.unpaired, h.only, h.price, h.quantity, h.pairing⟩, h.model, h.venue⟩
    exact h'.expire at_

/-- **Every fill is paired or reported, once.** -/
theorem fills_partitioned (state : State) (grace : Nanos) (ops : List ShadowOp) (at_ : Nanos) :
    let start := (fromState state).withGrace grace
    let s := (start.run ops).val
    let t := s.finish at_
    (∀ f ∈ s.modelLog ++ s.venueLog, f.at_ ≤ at_) →
    t.modelLog = ((Kernel.new state).fillsMade (start.events ops)).map LoggedFill.ofModel ∧
      t.venueLog = ops.filterMap ShadowOp.told ∧
      t.unmatchedModel = [] ∧ t.unmatchedVenue = [] ∧
      ∃ pairs singles,
        t.modelLog.Perm (pairs.map Paired.model ++ alone false singles) ∧
        t.venueLog.Perm (pairs.map Paired.venue ++ alone true singles) ∧
        t.Told pairs singles := by
  intro start s t hlast
  obtain ⟨pairs, singles, hs⟩ := accounted_run state grace ops
  obtain ⟨hmodel, hvenue, singles', ht⟩ := hs.finish hlast
  have hfed := start.fed_run ops
  refine ⟨hfed.modelLog, hfed.venueLog, hmodel, hvenue, pairs, singles', ?_, ?_, ht.toTold⟩
  · have hperm := ht.model
    rw [hmodel, List.map_nil, List.append_nil] at hperm
    exact hperm
  · have hperm := ht.venue
    rw [hvenue, List.map_nil, List.append_nil] at hperm
    exact hperm

/-- A bought order both sides fill, at prices one apart, and a fill only the venue knows. -/
def twoFills : List ShadowOp :=
  [.apply (.submit none 1 .buy none 5 .opening ⟨1, 1⟩),
    .onTick ⟨⟨2, 2⟩, 100, 101, 99, 99, 100, 10⟩,
    .onVenueFill 1 .buy 101 5 3,
    .onVenueFill 2 .sell 90 1 2]

theorem fills_partitioned_two :
    let start := (fromState (State.new 7 ⟨10⟩ Kernel.flatTable 100000)).withGrace 5
    let t := ((start.run twoFills).val.finish 3)
    t.matched.length = 1 ∧ t.unpaired.length = 1 ∧ t.divergences.length = 2 ∧
      ∃ pairs singles,
        t.modelLog.Perm (pairs.map Paired.model ++ alone false singles) ∧
        t.venueLog.Perm (pairs.map Paired.venue ++ alone true singles) ∧
        t.Told pairs singles := by
  have h := fills_partitioned (State.new 7 ⟨10⟩ Kernel.flatTable 100000) 5 twoFills 3
    (by decide +kernel)
  exact ⟨by decide +kernel, by decide +kernel, by decide +kernel, h.2.2.2.2⟩

end Shadow

end Live
