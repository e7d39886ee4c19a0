/-
# A held target (`oq-env/src/lib.rs`)

A step places what is missing from the position held to the target, and what is in flight is not in
the position.  What an order asks for it keeps from its submission to its fill (`Ticket`), whatever
the tier: of one order alone, the matcher carries it or has handed over its fill (`Carries.onTick`).
The position and the order in flight then add up to what was placed (`Due`), so a target that is
held is reached and kept as long as no step places an order beside one in flight, or after one that
was refused; a step that does places the target a second time (`held_target_iff`).
-/
import OpenQuanter.AfterLiquidation
import OpenQuanter.LegSizes
import OpenQuanter.Pulled

open Logged

/-! ## What an order asks for -/

/-- What an order asks for, and its fill reports. -/
structure Ticket where
  id : OrderId
  side : Side
  offset : Offset
  qty : QtyLots
  deriving DecidableEq, Repr

/-- The lots of an order with the sign of its side. -/
def Ticket.signedLots (t : Ticket) : Int := t.side.sign.toInt * t.qty.toInt

def Working.ticket (w : Working) : Ticket := ⟨w.id, w.order.side, w.order.offset, w.remaining⟩

def Fill.ticket (f : Fill) : Ticket := ⟨f.order, f.side, f.offset, f.qty⟩

namespace L0Engine

section Induction

variable {I : L0Engine → Prop} {Q : Resting → Prop}

theorem executeMarket_induction
    (hstep : ∀ e r price liquidity reason stamp, I e → Q r →
      I (e.executeAt r price liquidity reason stamp))
    (tick : Tick) (reference : PriceTicks) (orders : List Resting) {e : L0Engine} (he : I e)
    (horders : ∀ r ∈ orders, Q r) : I (executeMarket tick reference orders e) := by
  induction orders generalizing e with
  | nil => exact he
  | cons r rest ih =>
    exact ih (hstep e r _ _ _ _ he (horders r List.mem_cons_self))
      (fun x hx => horders x (List.mem_cons_of_mem r hx))

variable (hbook : ∀ e, I e → ∀ r ∈ e.book.iter, Q r)
  (hstep : ∀ e r price liquidity reason stamp, I e → Q r →
    I (e.executeAt r price liquidity reason stamp))

include hbook hstep

theorem crossSide_induction {side : Book → List Resting}
    (hmem : ∀ b, ∀ r ∈ side b, r ∈ b.iter) (missed : PriceTicks → Bool)
    (fillPrice : PriceTicks → PriceTicks) (tick : Tick) (fuel : Nat) {e : L0Engine} (he : I e) :
    I (crossSide side missed fillPrice tick fuel e) := by
  induction fuel generalizing e with
  | zero => exact he
  | succ fuel ih =>
    unfold crossSide
    split
    · exact he
    · rename_i best rest hbest
      split
      · exact he
      · split_ifs
        · exact he
        · exact ih (hstep e best _ _ _ _ he
            (hbook e he best (hmem e.book best (hbest ▸ List.mem_cons_self))))

theorem gapExecute_induction (tick : Tick) (candidates : List (Nat × OrderId)) {e : L0Engine}
    (he : I e) : I (candidates.foldl (gapExecute tick) e) := by
  induction candidates generalizing e with
  | nil => exact he
  | cons c rest ih =>
    refine ih ?_
    unfold gapExecute
    split
    · exact he
    · rename_i r hfind
      exact hstep e r _ _ _ _ he (hbook e he r (List.mem_of_find?_eq_some hfind))

/-- **The rule of induction for a tick**: what an execution keeps, a tick keeps. -/
theorem onTick_induction {e : L0Engine} (h : I { e with fills := [] }) (tick : Tick) :
    I ((gapFill { e with fills := [] } tick).cross tick) := by
  have hgap : I (gapFill { e with fills := [] } tick) := by
    unfold gapFill
    split
    · exact h
    · exact gapExecute_induction hbook hstep _ _ h
  generalize gapFill { e with fills := [] } tick = e₁ at hgap
  have hcrossed : I (e₁.crossMarket tick) := by
    unfold crossMarket
    simp only
    have hbought := executeMarket_induction hstep tick tick.buyFillReference e₁.book.marketBuys
      hgap (fun r hr => hbook e₁ hgap r (by simp [Book.iter, hr]))
    exact executeMarket_induction hstep _ _ _ hbought
      (fun r hr => hbook _ hbought r (by simp [Book.iter, hr]))
  unfold cross
  simp only
  -- bids before asks, each only where the tick has a trigger for it
  have hbids : I (if 0 < tick.buyTrigger then crossBids tick (e₁.crossMarket tick)
      else e₁.crossMarket tick) := by
    split_ifs
    · exact crossSide_induction hbook hstep (fun b r hr => Book.mem_iter_of_mem_bids hr) _ _ _ _
        hcrossed
    · exact hcrossed
  split_ifs at hbids ⊢
  all_goals first
    | exact crossSide_induction hbook hstep (fun b r hr => Book.mem_iter_of_mem_asks hr) _ _ _ _
        hbids
    | exact hbids

end Induction

/-- A fill reports what an order of the book asked for. -/
theorem ticket_onTick {P : Ticket → Prop} {e : L0Engine}
    (he : ∀ r ∈ e.book.iter, P r.order.ticket) (tick : Tick) :
    ∀ f ∈ (e.onTick tick).fills, P f.fill.ticket := by
  have h := onTick_induction (I := fun e => (∀ r ∈ e.book.iter, P r.order.ticket) ∧
    ∀ f ∈ e.fills, P f.fill.ticket) (Q := fun r => P r.order.ticket) (fun e he => he.1)
    (fun e r price liquidity reason stamp he hr => ?_) (e := e) ⟨he, nofun⟩ tick
  · exact h.2
  · rw [executeAt_eq]
    refine ⟨fun x hx => he.1 x ((Book.sublist_iter_dropAll e.book [r.id]).subset hx), ?_⟩
    intro f hf
    rcases List.mem_append.mp hf with hf | hf
    · exact he.2 f hf
    · rw [List.mem_singleton.mp hf]
      exact hr

/-- Of a book of one order or none, a tick leaves what it does not fill. -/
theorem tickets_onTick {e : L0Engine} (hone : e.book.iter.length ≤ 1) (tick : Tick) :
    ((e.onTick tick).book.iter.map (·.order.ticket) ++
      (e.onTick tick).fills.map (·.fill.ticket)).Perm (e.book.iter.map (·.order.ticket)) := by
  have hbook : (e.onTick tick).book.iter ⊆ e.book.iter := by
    rw [onTick_book]
    exact (Book.sublist_iter_dropAll _ _).subset
  have hlength : e.book.restingIds.Nodup → (e.onTick tick).book.iter.length +
      (e.onTick tick).fills.length = e.book.iter.length := by
    intro hnd
    have hcount := (perm_onTick hnd tick).length_eq
    simp only [filledIds, Book.restingIds, List.length_append, List.length_map] at hcount
    omega
  rcases hiter : e.book.iter with _ | ⟨r, _ | ⟨r', rest⟩⟩
  · have hnone := hlength (by simp [Book.restingIds, hiter])
    rw [hiter, List.length_nil, Nat.add_eq_zero_iff] at hnone
    rw [List.length_eq_zero_iff.mp hnone.1, List.length_eq_zero_iff.mp hnone.2]
    exact List.Perm.refl _
  · -- the order is the only one there is to rest or to be filled
    have hall : ∀ t ∈ (e.onTick tick).book.iter.map (·.order.ticket) ++
        (e.onTick tick).fills.map (·.fill.ticket), t = r.order.ticket := by
      intro t ht
      rcases List.mem_append.mp ht with ht | ht
      · obtain ⟨x, hx, rfl⟩ := List.mem_map.mp ht
        have hx := hbook hx
        rw [hiter, List.mem_singleton] at hx
        rw [hx]
      · obtain ⟨f, hf, rfl⟩ := List.mem_map.mp ht
        refine ticket_onTick (P := (· = r.order.ticket)) (fun x hx => ?_) tick f hf
        rw [hiter, List.mem_singleton] at hx
        rw [hx]
    have hlen := hlength (by simp [Book.restingIds, hiter])
    rw [hiter] at hlen
    refine List.Perm.of_eq (List.eq_replicate_of_mem hall |>.trans ?_)
    rw [List.length_append, List.length_map, List.length_map, hlen]
    rfl
  · rw [hiter] at hone
    simp at hone

end L0Engine

namespace L1Engine

/-- What the orders of an engine ask for, and what the fills it holds back report. -/
def tickets (e : L1Engine) : List Ticket :=
  e.orders.map Working.ticket ++ e.delayed.map (·.fill.fill.ticket)

variable {e e' : L1Engine}

theorem Moved.tickets {extra : List Working} (h : Moved extra e e') :
    e'.tickets.Perm (extra.map Working.ticket ++ e.tickets) := by
  have horders := h.shuffled.orders.map Working.ticket
  rw [List.map_append] at horders
  unfold L1Engine.tickets
  rw [h.delayed, ← List.append_assoc]
  exact horders.append_right _

theorem Moved.tickets_nil (h : Moved [] e e') : e'.tickets.Perm e.tickets := h.tickets

theorem tickets_eq (e : L1Engine) :
    e.tickets = (e.pending.map Pending.order ++ e.queued.map Queued.order).map Working.ticket ++
      e.inner.book.iter.map (·.order.ticket) ++ e.delayed.map (·.fill.fill.ticket) := by
  unfold tickets orders
  rw [List.map_append, List.map_map]
  rfl

/-- An engine with one order or none has no two on its book. -/
theorem length_iter_le (e : L1Engine) : e.inner.book.iter.length ≤ e.tickets.length := by
  rw [tickets_eq]
  simp only [List.length_append, List.length_map]
  omega

theorem nodup_of_one (hone : e.tickets.length ≤ 1) : e.inner.book.restingIds.Nodup := by
  have hlen := e.length_iter_le.trans hone
  unfold Book.restingIds
  rcases hiter : e.inner.book.iter with _ | ⟨r, _ | ⟨r', rest⟩⟩
  · exact List.nodup_nil
  · exact List.nodup_singleton _
  · rw [hiter] at hlen
    simp at hlen

/-- Of the fills held back and the new ones some are told of, the others are held back. -/
theorem tickets_release (e : L1Engine) (now : Nanos) (fills : List L0Fill) :
    ((e.release now fills).tickets ++ (e.release now fills).released.map (·.fill.ticket)).Perm
      (e.tickets ++ fills.map (·.fill.ticket)) := by
  have htold := (release_perm e now fills).map (·.fill.ticket)
  rw [List.map_append, List.map_append, List.map_map, List.map_map] at htold
  have horders : (e.release now fills).orders = e.orders := by
    unfold release
    simp only
    split_ifs <;> rfl
  unfold tickets
  rw [horders, List.append_assoc, List.append_assoc]
  exact htold.append_left _

/-- Pricing a fill changes nothing it reports of its order. -/
theorem tickets_adjust {σ : Type} (policy : Policy) (tick : Tick) (traded : Int64)
    (measured : Measure σ) (s : σ) (fills : List L0Fill) :
    (adjust policy tick traded measured s fills).1.map (·.fill.ticket) =
      fills.map (·.fill.ticket) := by
  have hunpriced := congrArg (List.map (·.fill.ticket))
    (unpriced_adjust policy tick traded measured s fills)
  rwa [List.map_map, List.map_map] at hunpriced

/-- **An observation** hands over the fill of the only order, or leaves it what it was. -/
theorem tickets_onTickWithImpact {σ : Type} (hone : e.tickets.length ≤ 1) (tick : Tick)
    (measured : Measure σ) (s : σ) :
    ((e.onTickWithImpact tick measured s).1.tickets ++
      (e.onTickWithImpact tick measured s).1.released.map (·.fill.ticket)).Perm e.tickets := by
  unfold onTickWithImpact
  simp only
  generalize e.tradedVolume tick = traded
  have hmoved := (moved_promote (e.arrive tick.stamp.exch traded) tick traded).tickets_nil.trans
    (moved_arrive e tick.stamp.exch traded).tickets_nil
  generalize (e.arrive tick.stamp.exch traded).promote tick traded = e₁ at hmoved
  have hmatch := L0Engine.tickets_onTick (e := e₁.inner)
    (e₁.length_iter_le.trans (hmoved.length_eq ▸ hone)) tick
  have hreleased := tickets_release { e₁ with inner := e₁.inner.onTick tick } tick.stamp.exch
    (adjust e₁.policy tick traded measured s (e₁.inner.onTick tick).fills).1
  rw [tickets_adjust] at hreleased
  refine (hreleased.trans ?_).trans hmoved
  rw [tickets_eq e₁, tickets_eq { e₁ with inner := e₁.inner.onTick tick }, List.perm_iff_count]
  intro t
  have hcount := hmatch.count_eq t
  simp only [List.count_append] at hcount ⊢
  omega

theorem tickets_onInvalidTick (e : L1Engine) (tick : Tick) :
    ((e.onInvalidTick tick).tickets ++
      (e.onInvalidTick tick).released.map (·.fill.ticket)).Perm e.tickets := by
  have hsplit := (perm_split (fun d : Delayed => decide (d.knownAt ≤ tick.stamp.exch))
    e.delayed).map (·.fill.fill.ticket)
  unfold tickets
  rw [List.append_assoc]
  refine List.Perm.append_left _ (List.perm_append_comm.trans ?_)
  rw [List.map_append] at hsplit
  refine List.Perm.trans (List.Perm.of_eq ?_) hsplit
  show ((e.delayed.filter _).map Delayed.fill).map _ ++ _ = _
  rw [List.map_map]
  rfl

end L1Engine

/-! ## One engine, one instrument -/

namespace L1Engine

variable {e e' : L1Engine} {x : InstrumentId} {l : List Ticket}

theorem instrument_admitOrder (e : L1Engine) (w : Working) (volume measured : Option Int64)
    (since : Option Nanos) :
    (e.admitOrder w volume measured since).inner.instrument = e.inner.instrument := by
  unfold admitOrder
  simp only
  split_ifs <;> rfl

theorem instrument_submitQueue (e : L1Engine) (w : Working) (now : Nanos) (ahead : Option Int64)
    (sample : Bool) : (e.submitQueue w now ahead sample).inner.instrument = e.inner.instrument := by
  unfold submitQueue
  simp only
  split_ifs <;> first
    | rfl
    | exact e.instrument_admitOrder w _ _ _

theorem instrument_arrive (e : L1Engine) (now : Nanos) (traded : Int64) :
    (e.arrive now traded).inner.instrument = e.inner.instrument := by
  unfold arrive
  simp only
  refine List.foldlRecOn (motive := fun e' : L1Engine => e'.inner.instrument = e.inner.instrument)
    _ _ rfl (fun e' he' p _ => ?_)
  exact (e'.instrument_admitOrder _ _ _ _).trans he'

theorem instrument_promote (e : L1Engine) (tick : Tick) (traded : Int64) :
    (e.promote tick traded).inner.instrument = e.inner.instrument := by
  unfold promote
  simp only
  exact List.foldlRecOn (motive := fun i : L0Engine => i.instrument = e.inner.instrument) _ _ rfl
    (fun i hi w _ => hi)

theorem instrument_requeue (queue : Side → PriceTicks → Int64) (e : L1Engine) (r : Resting) :
    (requeue queue e r).inner.instrument = e.inner.instrument := by
  unfold requeue
  split
  · rfl
  · simp only
    split_ifs <;> rfl

theorem instrument_resumeDepth (e : L1Engine) (queue : Side → PriceTicks → Int64) :
    (e.resumeDepth queue).inner.instrument = e.inner.instrument := by
  unfold resumeDepth
  simp only
  exact List.foldlRecOn (motive := fun e' : L1Engine => e'.inner.instrument = e.inner.instrument)
    _ _ rfl (fun e' he' r _ => (instrument_requeue queue e' r).trans he')

/-- An engine of this instrument carries these orders, and nothing else. -/
structure Carries (x : InstrumentId) (l : List Ticket) (e : L1Engine) : Prop where
  instrument : e.inner.instrument = x
  late : ∀ d ∈ e.delayed, d.fill.fill.instrument = x
  tickets : e.tickets.Perm l

theorem Carries.moved (h : Carries x l e) {extra : List Working} (hmoved : Moved extra e e')
    (hinstrument : e'.inner.instrument = e.inner.instrument) :
    Carries x (extra.map Working.ticket ++ l) e' where
  instrument := hinstrument.trans h.instrument
  late := by
    rw [hmoved.delayed]
    exact h.late
  tickets := hmoved.tickets.trans (h.tickets.append_left _)

/-- An order carried is still carried, or its fill is handed over. -/
theorem Carries.handed (h : Carries x l e) (hinstrument : e'.inner.instrument = x)
    (hfills : ∀ f ∈ e'.delayed.map Delayed.fill ++ e'.released, f.fill.instrument = x)
    (htickets : (e'.tickets ++ e'.released.map (·.fill.ticket)).Perm e.tickets) :
    Carries x e'.tickets e' ∧ (∀ f ∈ e'.released, f.fill.instrument = x) ∧
      (e'.tickets ++ e'.released.map (·.fill.ticket)).Perm l := by
  refine ⟨⟨hinstrument, fun d hd => ?_, List.Perm.refl _⟩, fun f hf => ?_, htickets.trans h.tickets⟩
  · exact hfills _ (List.mem_append_left _ (List.mem_map_of_mem hd))
  · exact hfills _ (List.mem_append_right _ hf)

theorem instrument_adjust {σ : Type} {policy : Policy} {tick : Tick} {traded : Int64}
    {measured : Measure σ} {s : σ} {fills : List L0Fill}
    (hfills : ∀ f ∈ fills, f.fill.instrument = x) :
    ∀ f ∈ (adjust policy tick traded measured s fills).1, f.fill.instrument = x := by
  have hunpriced := congrArg (List.map (·.fill.instrument))
    (unpriced_adjust policy tick traded measured s fills)
  rw [List.map_map, List.map_map] at hunpriced
  intro f hf
  have hmem : f.fill.instrument ∈ fills.map (·.fill.instrument) := by
    rw [show fills.map (·.fill.instrument) = _ from hunpriced.symm]
    exact List.mem_map_of_mem hf
  obtain ⟨g, hg, heq⟩ := List.mem_map.mp hmem
  exact heq.symm.trans (hfills g hg)

theorem Carries.onTickWithImpact {σ : Type} (h : Carries x l e) (hone : l.length ≤ 1) (tick : Tick)
    (measured : Measure σ) (s : σ) :
    let e' := (e.onTickWithImpact tick measured s).1
    Carries x e'.tickets e' ∧ (∀ f ∈ e'.released, f.fill.instrument = x) ∧
      (e'.tickets ++ e'.released.map (·.fill.ticket)).Perm l := by
  intro e'
  have hlate : e'.inner.instrument = x ∧
      ∀ f ∈ e'.delayed.map Delayed.fill ++ e'.released, f.fill.instrument = x := by
    unfold e' L1Engine.onTickWithImpact
    simp only
    generalize e.tradedVolume tick = traded
    have hnamed : ((e.arrive tick.stamp.exch traded).promote tick traded).inner.instrument = x :=
      (instrument_promote _ tick traded).trans
        ((e.instrument_arrive tick.stamp.exch traded).trans h.instrument)
    have hdelayed : ((e.arrive tick.stamp.exch traded).promote tick traded).delayed = e.delayed :=
      (moved_promote _ tick traded).delayed.trans (moved_arrive e tick.stamp.exch traded).delayed
    generalize (e.arrive tick.stamp.exch traded).promote tick traded = e₁ at hnamed hdelayed
    have hadjusted : ∀ f ∈ (adjust e₁.policy tick traded measured s
        (e₁.inner.onTick tick).fills).1, f.fill.instrument = x :=
      instrument_adjust
        (fun f hf => (e₁.inner.onTick_fills_instrument tick f hf).trans hnamed)
    generalize (adjust e₁.policy tick traded measured s (e₁.inner.onTick tick).fills).1 = fills
      at hadjusted
    obtain ⟨-, hinner⟩ := release_kept { e₁ with inner := e₁.inner.onTick tick } tick.stamp.exch
      fills
    refine ⟨?_, fun f hf => ?_⟩
    · rw [hinner]
      exact (e₁.inner.onTick_instrument tick).trans hnamed
    · have hf := (release_perm { e₁ with inner := e₁.inner.onTick tick } tick.stamp.exch
        fills).mem_iff.mp hf
      rcases List.mem_append.mp hf with hf | hf
      · obtain ⟨d, hd, rfl⟩ := List.mem_map.mp hf
        have hd : d ∈ e₁.delayed := hd
        exact h.late d (hdelayed ▸ hd)
      · exact hadjusted f hf
  exact h.handed hlate.1 hlate.2 (tickets_onTickWithImpact (h.tickets.length_eq.trans_le hone) tick
    measured s)

theorem Carries.onInvalidTick (h : Carries x l e) (tick : Tick) :
    let e' := e.onInvalidTick tick
    Carries x e'.tickets e' ∧ (∀ f ∈ e'.released, f.fill.instrument = x) ∧
      (e'.tickets ++ e'.released.map (·.fill.ticket)).Perm l := by
  refine h.handed h.instrument (fun f hf => ?_) (e.tickets_onInvalidTick tick)
  rcases List.mem_append.mp hf with hf | hf
  · obtain ⟨d, hd, rfl⟩ := List.mem_map.mp hf
    exact h.late d (List.mem_of_mem_filter hd)
  · obtain ⟨d, hd, rfl⟩ := List.mem_map.mp hf
    exact h.late d (List.mem_of_mem_filter hd)

end L1Engine

namespace L2Engine

variable {e : L2Engine} {x : InstrumentId} {l : List Ticket}

theorem carries_submit (h : e.inner.Carries x l) (w : Working) (now : Nanos) :
    (e.submit w now).inner.Carries x (w.ticket :: l) := by
  refine h.moved (moved_submit e w now) ?_
  unfold submit
  split_ifs
  · rfl
  · exact e.inner.instrument_submitQueue w now _ true

theorem carries_onDepth (h : e.inner.Carries x l) (update : DepthUpdate) :
    (e.onDepth update).1.inner.Carries x l := by
  unfold onDepth
  simp only
  have hsampled := h.moved (L1Engine.moved_sampleArrivals e.inner
    (satSub (satMul update.eventMs 1000000) 1) (queueFrom e.venue e.hasSnapshot)) rfl
  cases e.venue.apply update with
  | ok applied => exact hsampled
  | error err => exact hsampled.moved (L1Engine.moved_invalidateDepth _) rfl

theorem carries_installSnapshot (h : e.inner.Carries x l) (hone : l.length ≤ 1)
    (updateId : UInt64) (bids asks : List Level) :
    (e.installSnapshot updateId bids asks).inner.Carries x l := by
  have hnd := L1Engine.nodup_of_one (h.tickets.length_eq.trans_le hone)
  unfold installSnapshot
  simp only
  split_ifs
  · exact h.moved (L1Engine.moved_resumeDepth hnd) (e.inner.instrument_resumeDepth _)
  · exact h

theorem carries_installSnapshotAt (h : e.inner.Carries x l) (hone : l.length ≤ 1) (at_ : Nanos)
    (updateId : UInt64) (bids asks : List Level) :
    (e.installSnapshotAt at_ updateId bids asks).inner.Carries x l := by
  unfold installSnapshotAt
  simp only
  refine carries_installSnapshot ?_ hone updateId bids asks
  split_ifs
  · exact h.moved (L1Engine.moved_sampleArrivals e.inner _ _) rfl
  · exact h

theorem carries_onTick (h : e.inner.Carries x l) (hone : l.length ≤ 1) (tick : Tick) :
    let e' := (e.onTick tick).inner
    e'.Carries x e'.tickets ∧ (∀ f ∈ e'.released, f.fill.instrument = x) ∧
      (e'.tickets ++ e'.released.map (·.fill.ticket)).Perm l := by
  unfold onTick
  split_ifs
  · exact h.onInvalidTick tick
  · have hsampled := h.moved (L1Engine.moved_sampleArrivals e.inner tick.stamp.exch
      (queueFrom e.venue e.hasSnapshot)) rfl
    exact hsampled.onTickWithImpact hone tick _ _

end L2Engine

namespace Matcher

variable {m : Matcher} {x : InstrumentId} {l : List Ticket}

/-- A matcher of this instrument carries these orders, and nothing else. -/
def Carries (x : InstrumentId) (l : List Ticket) : Matcher → Prop
  | .l0 e => e.instrument = x ∧ (e.book.iter.map (·.order.ticket)).Perm l
  | .l1 e => e.Carries x l
  | .l2 e => e.inner.Carries x l

theorem Carries.outstanding (h : m.Carries x l) : m.outstanding.Perm (l.map Ticket.id) := by
  have hall : ∀ e : L1Engine, e.outstanding = e.tickets.map Ticket.id := by
    intro e
    unfold L1Engine.outstanding L1Engine.heldBack L1Engine.orderIds L1Engine.tickets
    rw [List.map_append, List.map_map, List.map_map]
    rfl
  cases m with
  | l0 e =>
    have hids := h.2.map Ticket.id
    rwa [List.map_map] at hids
  | l1 e => exact (List.Perm.of_eq (hall e)).trans (h.tickets.map Ticket.id)
  | l2 e => exact (List.Perm.of_eq (hall e.inner)).trans (h.tickets.map Ticket.id)

theorem Carries.submit (h : m.Carries x l) (w : Working) (now : Nanos) :
    (m.submit w now).Carries x (w.ticket :: l) := by
  cases m with
  | l0 e =>
    have hiter := (Book.iter_insert_perm e.book w).map (fun r => r.order.ticket)
    exact ⟨h.1, hiter.trans (h.2.cons _)⟩
  | l1 e =>
    exact L1Engine.Carries.moved h (L1Engine.moved_submitQueue e w now none false)
      (e.instrument_submitQueue w now none false)
  | l2 e => exact L2Engine.carries_submit h w now

theorem Carries.onDepth (h : m.Carries x l) (update : DepthUpdate) :
    (m.onDepth update).1.Carries x l := by
  cases m with
  | l0 e => exact h
  | l1 e => exact h
  | l2 e =>
    have hread := L2Engine.carries_onDepth h update
    rcases hdepth : e.onDepth update with ⟨e', answer⟩
    rw [hdepth] at hread
    cases answer <;> simp only [Matcher.onDepth, hdepth] <;> exact hread

theorem Carries.onGap (h : m.Carries x l) : m.onGap.1.Carries x l := by
  cases m with
  | l0 e => exact h
  | l1 e => exact h
  | l2 e => exact L1Engine.Carries.moved h (L1Engine.moved_invalidateDepth e.inner) rfl

theorem Carries.installSnapshot (h : m.Carries x l) (hone : l.length ≤ 1) (updateId : UInt64)
    (bids asks : List Level) : (m.installSnapshot updateId bids asks).1.Carries x l := by
  cases m with
  | l0 e => exact h
  | l1 e => exact h
  | l2 e => exact L2Engine.carries_installSnapshot h hone updateId bids asks

theorem Carries.installSnapshotAt (h : m.Carries x l) (hone : l.length ≤ 1) (at_ : Nanos)
    (updateId : UInt64) (bids asks : List Level) :
    (m.installSnapshotAt at_ updateId bids asks).1.Carries x l := by
  cases m with
  | l0 e => exact h
  | l1 e => exact h
  | l2 e => exact L2Engine.carries_installSnapshotAt h hone at_ updateId bids asks

/-- **An observation** hands over the fill of the only order, or leaves it carried. -/
theorem Carries.onTick (h : m.Carries x l) (hone : l.length ≤ 1) (tick : Tick) :
    ∃ l', (m.onTick tick).Carries x l' ∧
      (∀ f ∈ (m.onTick tick).fills, f.fill.instrument = x) ∧
      (l' ++ (m.onTick tick).fills.map (·.fill.ticket)).Perm l := by
  cases m with
  | l0 e =>
    obtain ⟨hinstrument, htickets⟩ := h
    have hone' : e.book.iter.length ≤ 1 := by
      have hlen := htickets.length_eq
      rw [List.length_map] at hlen
      omega
    exact ⟨_, ⟨(e.onTick_instrument tick).trans hinstrument, List.Perm.refl _⟩,
      fun f hf => (e.onTick_fills_instrument tick f hf).trans hinstrument,
      (L0Engine.tickets_onTick hone' tick).trans htickets⟩
  | l1 e => exact ⟨_, L1Engine.Carries.onTickWithImpact h hone tick _ _⟩
  | l2 e => exact ⟨_, L2Engine.carries_onTick h hone tick⟩

end Matcher

/-! ## The position and the order in flight -/

namespace Kernel

variable {k : Kernel} {x : InstrumentId} {q : QtyLots} {l : List Ticket} {d : Int}

/-- The only holding is of this instrument, has this position and carries these orders. -/
structure Stands (x : InstrumentId) (q : QtyLots) (l : List Ticket) (k : Kernel) : Prop where
  holding : ∃ h, k.state.holdings = [h] ∧ h.instrument = x ∧ h.qty = q ∧ h.engine.Carries x l
  mode : k.state.mode = .oneWay
  simulated : k.state.matching = .simulated

/-- The position and the order in flight, if there is one, add up to this many lots; an order is in
flight from a flat account only. -/
inductive Due (x : InstrumentId) (d : Int) (k : Kernel) : Prop
  | booked {q : QtyLots} : q.toInt = d → k.Stands x q [] → Due x d k
  | inFlight {t : Ticket} : 0 < t.qty → t.signedLots = d → k.Stands x 0 [t] → Due x d k

theorem Stands.qty (hk : k.Stands x q l) : k.summary.qty = q := by
  obtain ⟨h, hh, -, hq, -⟩ := hk.holding
  have hholding : k.state.holding = h := by simp [State.holding, hh]
  show k.state.holding.qty = q
  rw [hholding, hq]

theorem Stands.outstanding (hk : k.Stands x q l) :
    k.state.outstanding = [] ↔ l = [] := by
  obtain ⟨h, hh, -, -, hcarries⟩ := hk.holding
  have hperm := hcarries.outstanding
  unfold State.outstanding
  rw [hh, List.flatMap_singleton]
  constructor
  · intro hnone
    rw [hnone] at hperm
    exact List.map_eq_nil_iff.mp (List.nil_perm.mp hperm)
  · rintro rfl
    exact List.perm_nil.mp hperm

theorem Stands.askMatcher (hk : k.Stands x q l) {l' : List Ticket} {α : Type}
    {f : Matcher → Matcher × α} (hf : ∀ m, m.Carries x l → (f m).1.Carries x l') :
    (k.askMatcher f).1.Stands x q l' where
  holding := by
    obtain ⟨h, hh, hx, hq, hcarries⟩ := hk.holding
    refine ⟨{ h with engine := (f h.engine).1 }, ?_, hx, hq, hf _ hcarries⟩
    show k.state.holdings.modify 0 _ = _
    rw [hh]
    rfl
  mode := hk.mode
  simulated := hk.simulated

theorem Due.askMatcher (hk : k.Due x d) {α : Type} {f : Matcher → Matcher × α}
    (hf : ∀ m l, l.length ≤ 1 → m.Carries x l → (f m).1.Carries x l) :
    (k.askMatcher f).1.Due x d := by
  cases hk with
  | booked hq hk => exact .booked hq (hk.askMatcher (fun m => hf m [] (Nat.zero_le _)))
  | inFlight hpos ht hk => exact .inFlight hpos ht (hk.askMatcher (fun m => hf m _ (Nat.le_refl _)))

/-- Closing the only holding is reported. -/
theorem exists_reported {s : State} {h : Holding} (hs : s.holdings = [h]) (price : PriceTicks) :
    ∃ r, r ∈ (s.liquidate price).val.2 := by
  have hclosed : ∃ r, (s.closeAll price).val.2 = [r] := by
    unfold State.closeAll
    rw [if_pos (by rw [hs]; rfl)]
    exact ⟨_, rfl⟩
  obtain ⟨r, hr⟩ := hclosed
  rw [liquidate_eq]
  unfold forfeit
  simp only [hr, State.settleOutputs]
  exact ⟨_, List.mem_singleton_self _⟩

/-- A check that reports no liquidation does nothing. -/
theorem settle_of_quiet {p : Kernel × Option PriceTicks} {h : Holding}
    (hp : p.1.state.holdings = [h])
    (hquiet : ∀ r, Output.liquidated r ∉ (settle p).val.outputs) : (settle p).val = p.1 := by
  unfold settle at hquiet ⊢
  split at hquiet
  · rfl
  · rename_i price hprice
    rw [checkLiquidation_val] at hquiet
    rw [checkLiquidation_val]
    split_ifs at hquiet ⊢
    · rfl
    · obtain ⟨r, hr⟩ := exists_reported hp price
      exact absurd (List.mem_append_right _ (List.mem_map_of_mem hr)) (hquiet r)
    · rfl

/-- What an event books is what it leaves, if it liquidates nothing. -/
theorem Stands.apply (event : Event) (hbooked : (k.booked event).val.1.Stands x q l)
    (hquiet : ∀ r, Output.liquidated r ∉ (k.apply event).val.outputs) :
    (k.apply event).val.Stands x q l := by
  obtain ⟨h, hh, -⟩ := hbooked.holding
  rw [apply_eq, val_bind] at hquiet ⊢
  rwa [settle_of_quiet hh hquiet]

/-- A settlement moves cash. -/
theorem Stands.funding (hk : k.Stands x q l) (at_ : Nanos) (rate : Ratio) (mark : PriceTicks)
    (hquiet : ∀ r, Output.liquidated r ∉ (k.apply (.funding none at_ rate mark)).val.outputs) :
    (k.apply (.funding none at_ rate mark)).val.Stands x q l := by
  refine Stands.apply _ ?_ hquiet
  obtain ⟨h, hh, hx, hq, hcarries⟩ := hk.holding
  have hroute : (k.cleared.withState (k.cleared.state.withNow at_)).route none = some 0 := by
    show (if k.state.holdings.length = 1 then _ else _) = _
    rw [hh]
    rfl
  unfold booked bookSettlement
  simp only [hroute]
  split
  · exact ⟨⟨h, hh, hx, hq, hcarries⟩, hk.mode, hk.simulated⟩
  · exact ⟨⟨h, hh, hx, hq, hcarries⟩, hk.mode, hk.simulated⟩

theorem Due.funding (hk : k.Due x d) (at_ : Nanos) (rate : Ratio) (mark : PriceTicks)
    (hquiet : ∀ r, Output.liquidated r ∉ (k.apply (.funding none at_ rate mark)).val.outputs) :
    (k.apply (.funding none at_ rate mark)).val.Due x d := by
  cases hk with
  | booked hq hk => exact .booked hq (hk.funding at_ rate mark hquiet)
  | inFlight hpos ht hk => exact .inFlight hpos ht (hk.funding at_ rate mark hquiet)

/-- The matcher sees a tick: what it carried it carries still, or hands over. -/
theorem Stands.advanced (hk : k.Stands x q l) (hone : l.length ≤ 1) (tick : Tick) :
    ∃ l', (k.advanced 0 tick).Stands x q l' ∧ (∀ f ∈ k.tickFills 0 tick, f.instrument = x) ∧
      (l' ++ (k.tickFills 0 tick).map Fill.ticket).Perm l := by
  obtain ⟨h, hh, hx, hq, hcarries⟩ := hk.holding
  obtain ⟨l', hl', hinstrument, htickets⟩ := hcarries.onTick hone tick
  have hengine : ((k.observe 0 tick).state.holdingsAt 0).engine = h.engine := by
    simp [observe, withState, State.holdingsAt, State.withNow, hh]
  refine ⟨l', ⟨⟨{ h with mark := tick.last, engine := h.engine.onTick tick }, ?_, hx, hq, hl'⟩,
    hk.mode, hk.simulated⟩, ?_, ?_⟩
  · unfold Kernel.advanced
    rw [hengine]
    simp [observe, withState, State.withNow, hh]
  · unfold tickFills
    rw [hengine]
    intro f hf
    obtain ⟨g, hg, rfl⟩ := List.mem_map.mp hf
    exact hinstrument g hg
  · unfold tickFills
    rw [hengine, List.map_map]
    exact htickets

/-- The fill of the order in flight is booked on a flat account. -/
theorem Stands.bookFill (hk : k.Stands x 0 l) {fill : Fill} (hx : fill.instrument = x)
    (hpos : 0 < fill.qty) :
    ∃ q, q.toInt = fill.ticket.signedLots ∧ (k.bookFill 0 fill).val.Stands x q l := by
  obtain ⟨h, hh, hinstrument, hflat, hcarries⟩ := hk.holding
  unfold Kernel.bookFill
  simp only
  generalize k.state.feeSchedule.charge (k.state.holdingsAt 0).contract fill = fee
  have hs : (k.state.chargeFee fee).val.holdings = [h] := hh
  have hmode : (k.state.chargeFee fee).val.mode = .oneWay := hk.mode
  have hsim : (k.state.chargeFee fee).val.matching = .simulated := hk.simulated
  rw [val_bind]
  generalize (k.state.chargeFee fee).val = s at hs hmode hsim
  rw [val_bind]
  have hheld : (h.legQty false).toInt = 0 := by
    show h.qty.toInt = 0
    rw [hflat]
    rfl
  have hlots : |fill.signedLots| < 2 ^ 63 := by
    have hqty := lt_iff_toInt.mp hpos
    have hfits := (fitsI64_toInt fill.qty).2
    have hzero : (0 : Int64).toInt = 0 := rfl
    unfold Fill.signedLots
    rcases fill.side.sign_cases with hsign | hsign
    · rw [hsign, show (1 : Int64).toInt = 1 from rfl, one_mul, abs_of_pos (by omega)]
      exact hfits
    · rw [hsign, show (-1 : Int64).toInt = -1 from rfl, neg_one_mul, abs_neg,
        abs_of_pos (by omega)]
      exact hfits
  have hshort : fill.onShort s.mode = false := by
    rw [hmode]
    rfl
  have happlicable : State.Applicable s.mode h fill :=
    { instrument := hx.trans hinstrument.symm
      qty := hpos
      held := by rw [hshort, hheld]; decide
      fits := by rwa [hshort, hheld, zero_add]
      directed := fun hhedge => nomatch hmode.symm.trans hhedge
      covered := fun hhedge => nomatch hmode.symm.trans hhedge }
  obtain ⟨h', hh', -, hmoved⟩ := State.moved_applyFill hs happlicable
  have hkept := s.kept_applyFill fill
  obtain ⟨y, hy, hrest⟩ := exists_singleton_of_kept hkept hs
  obtain rfl : h' = y := List.singleton_inj.mp (hh'.symm.trans hy)
  rw [hshort, hheld, zero_add] at hmoved
  have hengine : h'.engine = h.engine := congrArg (fun r => r.2.2.2.1) hrest
  refine ⟨h'.qty, hmoved, ⟨h', hh', (congrArg (fun r => r.1) hrest).trans hinstrument, rfl, ?_⟩,
    hkept.mode.trans hmode, hkept.matching.trans hsim⟩
  rw [hengine]
  exact hcarries

/-- **A tick** keeps what the position and the order in flight add up to. -/
theorem Due.tick (hk : k.Due x d) (tick : Tick)
    (hquiet : ∀ r, Output.liquidated r ∉ (k.apply (.tick (some x) tick)).val.outputs) :
    (k.apply (.tick (some x) tick)).val.Due x d := by
  have hbooked : ∀ {q l}, k.Stands x q l → (k.booked (.tick (some x) tick)).val.1 =
      ((k.cleared.advanced 0 tick).bookFills 0 (k.cleared.tickFills 0 tick)).val := by
    intro q l hk
    obtain ⟨h, hh, hx, -⟩ := hk.holding
    have hroute : k.cleared.route (some x) = some 0 := by
      show k.state.holdingIndex x = some 0
      simp [State.holdingIndex, hh, hx]
    simp only [Kernel.booked, hroute]
    exact bookTick_of_simulated k.cleared hk.simulated 0 tick
  cases hk with
  | booked hq hk =>
    have hk' : k.cleared.Stands x _ [] := ⟨hk.holding, hk.mode, hk.simulated⟩
    obtain ⟨l', hl', -, htickets⟩ := hk'.advanced (Nat.zero_le _) tick
    obtain ⟨rfl, hnone⟩ := List.append_eq_nil_iff.mp (List.perm_nil.mp htickets)
    refine .booked hq (Stands.apply _ ?_ hquiet)
    rw [hbooked hk, List.map_eq_nil_iff.mp hnone]
    exact hl'
  | @inFlight t hpos ht hk =>
    have hk' : k.cleared.Stands x 0 [t] := ⟨hk.holding, hk.mode, hk.simulated⟩
    obtain ⟨l', hl', hinstrument, htickets⟩ := hk'.advanced (Nat.le_refl _) tick
    rcases List.append_eq_singleton_iff.mp (List.perm_singleton.mp htickets) with
      ⟨rfl, hfilled⟩ | ⟨rfl, hnone⟩
    · obtain ⟨fill, hfill, hticket⟩ := List.map_eq_singleton_iff.mp hfilled
      obtain ⟨q, hq, hstands⟩ := hl'.bookFill (hinstrument fill (hfill ▸ List.mem_singleton_self _))
        (by rw [← hticket] at hpos; exact hpos)
      refine .booked (q := q) (hq.trans (hticket ▸ ht)) (Stands.apply _ ?_ hquiet)
      rw [hbooked hk, hfill]
      unfold bookFills
      rw [List.foldlM_cons, val_bind]
      exact hstands
    · refine .inFlight hpos ht (Stands.apply _ ?_ hquiet)
      rw [hbooked hk, List.map_eq_nil_iff.mp hnone]
      exact hl'

end Kernel

namespace Kernel

variable {k : Kernel} {x : InstrumentId} {q : QtyLots} {l : List Ticket}

/-- A submission is refused with a reason, or handed to the matcher. -/
theorem onSubmit_cases {instrument : Option InstrumentId} (hroute : k.route instrument = some 0)
    (id : OrderId) (side : Side) (price : Option PriceTicks) (qty : QtyLots) (offset : Offset)
    (stamp : Stamp) :
    (∃ reason, k.onSubmit instrument id side price qty offset stamp =
        k.emit (.rejected id reason)) ∨
      ∃ hqty : 0 < qty, k.onSubmit instrument id side price qty offset stamp =
        { k with
          state := k.state.modifyAt 0 (fun h => { h with
            engine := h.engine.submit (orderOf id side price qty offset stamp hqty) stamp.local_ })
          working := k.working ++ [id] } := by
  unfold onSubmit
  split
  · rename_i hqty
    split
    · exact Or.inl ⟨_, rfl⟩
    · simp only [hroute]
      split
      · exact Or.inl ⟨_, rfl⟩
      · exact Or.inr ⟨hqty, rfl⟩
  · exact Or.inl ⟨_, rfl⟩

/-- A submission is refused, or its order is in flight. -/
theorem Stands.submit (hk : k.Stands x q l) {event : Event} {id : OrderId} {side : Side}
    {qty : QtyLots} {offset : Offset} {stamp : Stamp}
    (hevent : event = .submit (some x) id side none qty offset stamp) :
    (k.accepts event = none ∧ (k.apply event).val.Stands x q l) ∨
      (k.accepts event = some id ∧ 0 < qty ∧
        (k.apply event).val.Stands x q (⟨id, side, offset, qty⟩ :: l)) := by
  subst hevent
  obtain ⟨h, hh, hx, hq, hcarries⟩ := hk.holding
  have hroute : k.cleared.route (some x) = some 0 := by
    show k.state.holdingIndex x = some 0
    simp [State.holdingIndex, hh, hx]
  have happly : (k.apply (.submit (some x) id side none qty offset stamp)).val =
      k.cleared.onSubmit (some x) id side none qty offset stamp := rfl
  have haccepts : k.accepts (.submit (some x) id side none qty offset stamp) =
      if (k.cleared.onSubmit (some x) id side none qty offset stamp).outputs.isEmpty then some id
      else none := rfl
  rw [happly, haccepts]
  rcases onSubmit_cases hroute id side none qty offset stamp with ⟨reason, heq⟩ | ⟨hqty, heq⟩
  · rw [heq]
    exact Or.inl ⟨rfl, ⟨h, hh, hx, hq, hcarries⟩, hk.mode, hk.simulated⟩
  · rw [heq]
    have hticket : (orderOf id side none qty offset stamp hqty).ticket =
        ⟨id, side, offset, qty⟩ := by
      unfold Working.ticket
      congr 1
      exact Int64.sub_zero _
    have hasked : (k.askMatcher fun m => (m.submit (orderOf id side none qty offset stamp hqty)
        stamp.local_, ())).1.Stands x q (⟨id, side, offset, qty⟩ :: l) :=
      hk.askMatcher (fun m hm => hticket ▸ hm.submit _ _)
    exact Or.inr ⟨rfl, hqty, hasked.holding, hk.mode, hk.simulated⟩

end Kernel

/-! ## Steps that carry one target -/

namespace Training

open Backtest (Observation RunConfig)

/-- The lots a step places to close this gap, with their sign. -/
def lots (delta : QtyLots) : Int := (sideOf delta).sign.toInt * delta.abs.toInt

theorem toInt_abs_cases (delta : QtyLots) :
    delta.abs.toInt = |delta.toInt| ∨ delta.abs.toInt = delta.toInt ∧ delta.toInt = -2 ^ 63 := by
  have habs : delta.abs.toInt = _ := BitVec.toInt_abs_eq_natAbs (x := delta.toBitVec)
  rw [habs]
  split_ifs with hmin
  · right
    have hleast : delta.toInt = (BitVec.intMin 64).toInt := congrArg BitVec.toInt hmin
    exact ⟨hleast.symm, hleast.trans (by decide)⟩
  · left
    exact Int.natCast_natAbs _

theorem abs_lots (delta : QtyLots) : |lots delta| = |delta.toInt| := by
  have hsign : |(sideOf delta).sign.toInt| = 1 := by
    rcases (sideOf delta).sign_cases with h | h <;> rw [h] <;> rfl
  unfold lots
  rw [abs_mul, hsign, one_mul]
  rcases toInt_abs_cases delta with h | h
  · rw [h, abs_abs]
  · rw [h.1]

theorem lots_eq {delta : QtyLots} (hpos : 0 < delta.abs) : lots delta = delta.toInt := by
  have hpos : 0 < delta.abs.toInt := lt_iff_toInt.mp hpos
  have habs : delta.abs.toInt = |delta.toInt| := by
    rcases toInt_abs_cases delta with h | h
    · exact h
    · omega
  unfold lots sideOf
  rw [habs] at hpos ⊢
  split_ifs with hup
  · have hup : 0 < delta.toInt := lt_iff_toInt.mp hup
    rw [show Side.buy.sign.toInt = 1 from rfl, one_mul, abs_of_pos hup]
  · have hdown : ¬ 0 < delta.toInt := fun h => hup (lt_iff_toInt.mpr h)
    rw [show Side.sell.sign.toInt = -1 from rfl, abs_of_nonpos (by omega)]
    omega

namespace Env

variable (e : Env) (action : Action)

/-- What is missing from the position to the target. -/
def gap : QtyLots := action.target - e.kernel.summary.qty

/-- The order a step places, if it places one. -/
def order : Event :=
  .submit (some e.instrument) e.nextId (sideOf (e.gap action)) none (e.gap action).abs
    (offsetOf e.kernel.summary.qty (e.gap action)) ⟨e.kernel.summary.now, e.kernel.summary.now⟩

/-- Whether a step places an order that the kernel refuses. -/
def refuses : Bool :=
  e.ended.isNone && decide (e.gap action ≠ 0) && (e.kernel.accepts (e.order action)).isNone

/-- The environment after some steps that carry the same action. -/
def after (e : Env) (action : Action) : Nat → Env
  | 0 => e
  | n + 1 => (e.step action).val.1.after action n

/-- The lots these steps submit in total, with their signs. -/
def sent (e : Env) (action : Action) : Nat → Int
  | 0 => 0
  | n + 1 =>
    (if e.ended = none then lots (e.gap action) else 0) + (e.step action).val.1.sent action n

/-- A step places no order beside one in flight, nor after one that was refused. -/
def Free (refused : Bool) : Prop :=
  e.gap action = 0 ∨ (e.kernel.state.outstanding = [] ∧ refused = false)

/-- No step of the episode does. -/
def RunFree (e : Env) (action : Action) (refused : Bool) : Nat → Prop
  | 0 => True
  | n + 1 =>
    e.ended = none →
      e.Free action refused ∧
        (e.step action).val.1.RunFree action (refused || e.refuses action) n

/-- The position is between flat and the target, both included. -/
def Between (target : QtyLots) : Prop :=
  0 ≤ e.kernel.summary.qty ∧ e.kernel.summary.qty ≤ target ∨
    target ≤ e.kernel.summary.qty ∧ e.kernel.summary.qty ≤ 0

instance (refused : Bool) : Decidable (e.Free action refused) :=
  inferInstanceAs (Decidable (_ ∨ _))

instance decidableRunFree : (n : Nat) → (e : Env) → (refused : Bool) →
    Decidable (e.RunFree action refused n)
  | 0, _, _ => isTrue trivial
  | n + 1, e, refused =>
    have := decidableRunFree n (e.step action).val.1 (refused || e.refuses action)
    inferInstanceAs (Decidable (e.ended = none → e.Free action refused ∧ _))

instance (target : QtyLots) : Decidable (e.Between target) :=
  inferInstanceAs (Decidable (_ ∨ _))

end Env

/-! ## One step -/

theorem Env.liquidated_moved {e : Env} {k : Kernel}
    (h : (e.moved k).ended ≠ some .liquidated) :
    e.ended ≠ some .liquidated ∧ ∀ r, Output.liquidated r ∉ k.outputs := by
  unfold Env.moved at h
  simp only at h
  split_ifs at h with hany
  · exact absurd rfl h
  · refine ⟨h, fun r hr => hany (List.any_eq_true.mpr ⟨_, hr, rfl⟩)⟩

theorem Env.liquidated_funds {rates : List FundingRate} {e : Env}
    (h : (rates.foldlM Env.fund e).val.ended ≠ some .liquidated) :
    e.ended ≠ some .liquidated := by
  induction rates generalizing e with
  | nil => exact h
  | cons rate rest ih =>
    rw [List.foldlM_cons, val_bind] at h
    exact (Env.liquidated_moved (ih h)).1

/-- Settlements keep what the position and the order in flight add up to. -/
theorem Env.due_funds {x : InstrumentId} {d : Int} {rates : List FundingRate} {e : Env}
    (hd : e.kernel.Due x d) (h : (rates.foldlM Env.fund e).val.ended ≠ some .liquidated) :
    (rates.foldlM Env.fund e).val.kernel.Due x d := by
  induction rates generalizing e with
  | nil => exact hd
  | cons rate rest ih =>
    rw [List.foldlM_cons, val_bind] at h ⊢
    have hquiet := (Env.liquidated_moved (Env.liquidated_funds h)).2
    exact ih (hd.funding rate.at_ rate.rate rate.mark hquiet) h

theorem Env.due_takeTick {d : Int} {e : Env} {tick : Tick} (hd : e.kernel.Due e.instrument d)
    (h : (e.takeTick tick).val.ended ≠ some .liquidated) :
    (e.takeTick tick).val.kernel.Due e.instrument d := by
  unfold Env.takeTick at h ⊢
  simp only at h ⊢
  rw [val_bind, val_bind, val_pure] at h ⊢
  obtain ⟨hfunded, hquiet⟩ := Env.liquidated_moved h
  obtain ⟨ended, heq, -⟩ := Env.funds (e.config.funding.between e.lastFunding tick.stamp.exch)
    { e with lastFunding := max e.lastFunding tick.stamp.exch }
  have hkept := Env.due_funds (e := { e with lastFunding := max e.lastFunding tick.stamp.exch }) hd
    hfunded
  have hinstrument : ((e.config.funding.between e.lastFunding tick.stamp.exch).foldlM Env.fund
        { e with lastFunding := max e.lastFunding tick.stamp.exch }).val.instrument =
      e.instrument := by
    rw [heq]
  generalize ((e.config.funding.between e.lastFunding tick.stamp.exch).foldlM Env.fund
    { e with lastFunding := max e.lastFunding tick.stamp.exch }).val = e₁ at *
  rw [hinstrument] at hquiet ⊢
  exact hkept.tick tick hquiet

/-- **Up to the next tick** nothing changes what the position and the order in flight add up to. -/
theorem Env.due_advance {d : Int} {obs : List Observation} {e : Env}
    (hd : e.kernel.Due e.instrument d) (h : (e.advance obs).val.ended ≠ some .liquidated) :
    (e.advance obs).val.kernel.Due e.instrument d := by
  induction obs generalizing e with
  | nil => exact hd
  | cons o rest ih =>
    cases o with
    | tick tick => exact Env.due_takeTick (e := { e with cursor := e.cursor + 1 }) hd h
    | depth update => exact ih (hd.askMatcher (fun m l _ hm => hm.onDepth update)) h
    | snapshot updateId bids asks =>
      exact ih (hd.askMatcher (fun m l hone hm => hm.installSnapshot hone updateId bids asks)) h
    | snapshotAt at_ updateId bids asks =>
      exact ih
        (hd.askMatcher (fun m l hone hm => hm.installSnapshotAt hone at_ updateId bids asks)) h
    | gap at_ => exact ih (hd.askMatcher (fun m l _ hm => hm.onGap)) h

/-- Where an episode is that carries one target: nothing was placed; the order was, and is in flight
or booked; or it was refused. -/
inductive Progress (target : QtyLots) (e : Env) : Int → Bool → Prop
  | idle : e.kernel.Due e.instrument 0 → Progress target e 0 false
  | placed : lots target = target.toInt → target ≠ 0 →
      e.kernel.Due e.instrument target.toInt → Progress target e (lots target) false
  | refused : target ≠ 0 → e.kernel.Due e.instrument 0 → Progress target e (lots target) true

variable {target : QtyLots} {s : Int} {refused : Bool}

theorem signedLots_ne_zero {t : Ticket} (hpos : 0 < t.qty) : t.signedLots ≠ 0 := by
  have hpos : 0 < t.qty.toInt := lt_iff_toInt.mp hpos
  unfold Ticket.signedLots
  rcases t.side.sign_cases with h | h
  · rw [h, show (1 : Int64).toInt = 1 from rfl]
    omega
  · rw [h, show (-1 : Int64).toInt = -1 from rfl]
    omega

/-- With nothing due the account is flat and nothing is in flight. -/
theorem stands_of_due_zero {k : Kernel} {x : InstrumentId} (hd : k.Due x 0) : k.Stands x 0 [] := by
  cases hd with
  | booked hq hk =>
    rw [toInt_eq_zero] at hq
    rwa [hq] at hk
  | inFlight hpos ht hk => exact absurd ht (signedLots_ne_zero hpos)

/-- The position is flat or the target, and no more than the target was submitted. -/
theorem Progress.within (hp : Progress target e s refused) :
    e.Between target ∧ |s| ≤ |target.toInt| := by
  have hflat : e.kernel.summary.qty = 0 → e.Between target := by
    intro hq
    unfold Env.Between
    rw [hq, Int64.le_iff_toInt_le, Int64.le_iff_toInt_le, Int64.le_iff_toInt_le]
    omega
  cases hp with
  | idle hd =>
    refine ⟨hflat (stands_of_due_zero hd).qty, ?_⟩
    rw [abs_zero]
    exact abs_nonneg _
  | placed hlots hne hd =>
    refine ⟨?_, (abs_lots target).le⟩
    cases hd with
    | booked hq hk =>
      have hheld := hk.qty
      rw [Int64.toInt_inj.mp hq] at hheld
      unfold Env.Between
      rw [hheld, Int64.le_iff_toInt_le, Int64.le_iff_toInt_le, Int64.le_iff_toInt_le]
      omega
    | inFlight hpos ht hk => exact hflat hk.qty
  | refused hne hd => exact ⟨hflat (stands_of_due_zero hd).qty, (abs_lots target).le⟩

/-- A step that places an order places it on a flat account, for the whole target. -/
theorem Progress.lots_gap (hp : Progress target e s refused) (hgap : e.gap ⟨target⟩ ≠ 0) :
    e.kernel.summary.qty = 0 ∧ e.gap ⟨target⟩ = target ∧ target ≠ 0 := by
  have hzero : e.kernel.summary.qty = 0 := by
    cases hp with
    | idle hd => exact (stands_of_due_zero hd).qty
    | placed hlots hne hd =>
      cases hd with
      | booked hq hk =>
        have hheld := hk.qty
        rw [Int64.toInt_inj.mp hq] at hheld
        exact absurd (by unfold Env.gap; rw [hheld]; exact Int64.sub_self _) hgap
      | inFlight hpos ht hk => exact hk.qty
    | refused hne hd => exact (stands_of_due_zero hd).qty
  have hwhole : e.gap ⟨target⟩ = target := by
    unfold Env.gap
    rw [hzero]
    exact Int64.sub_zero _
  exact ⟨hzero, hwhole, hwhole ▸ hgap⟩

/-- **A step that is not free places the target a second time.** -/
theorem Progress.twice (hp : Progress target e s refused) (hnot : ¬ e.Free ⟨target⟩ refused) :
    |target.toInt| < |s + lots (e.gap ⟨target⟩)| := by
  unfold Env.Free at hnot
  rw [not_or, not_and_or] at hnot
  obtain ⟨hgap, hbusy⟩ := hnot
  obtain ⟨-, hwhole, hne⟩ := hp.lots_gap hgap
  have htarget : target.toInt ≠ 0 := toInt_ne_zero hne
  have hsame := abs_lots target
  have hpos : 0 < |target.toInt| := abs_pos.mpr htarget
  rw [hwhole]
  cases hp with
  | idle hd =>
    have hnone := (stands_of_due_zero hd).outstanding.mpr rfl
    rcases hbusy with h | h
    · exact absurd hnone h
    · exact absurd rfl h
  | placed hlots hne hd =>
    rw [← two_mul, abs_mul, hsame, abs_two]
    omega
  | refused hne hd =>
    rw [← two_mul, abs_mul, hsame, abs_two]
    omega

/-- The kernel once a step has placed its order. -/
theorem Env.kernel_place (e : Env) (action : Action) :
    (e.place action).val.kernel =
      if e.gap action = 0 then e.kernel else (e.kernel.apply (e.order action)).val := by
  rw [e.place_eq action]
  unfold Env.order Env.gap
  split <;> rfl

theorem Env.instrument_place (e : Env) (action : Action) :
    (e.place action).val.instrument = e.instrument := by
  rw [e.place_eq action]
  split <;> rfl

/-- A free step places the whole target, or nothing. -/
theorem Progress.place (hp : Progress target e s refused) (hgoing : e.ended = none)
    (hfree : e.Free ⟨target⟩ refused) :
    Progress target (e.place ⟨target⟩).val (s + lots (e.gap ⟨target⟩))
      (refused || e.refuses ⟨target⟩) := by
  have hkernel := e.kernel_place ⟨target⟩
  have hinstrument := e.instrument_place ⟨target⟩
  generalize (e.place ⟨target⟩).val = e' at hkernel hinstrument
  by_cases hgap : e.gap ⟨target⟩ = 0
  · have hnone : lots (e.gap ⟨target⟩) = 0 := by
      rw [hgap]
      rfl
    have haccepted : e.refuses ⟨target⟩ = false := by
      unfold Env.refuses
      simp [hgap]
    rw [if_pos hgap] at hkernel
    rw [hnone, add_zero, haccepted, Bool.or_false]
    cases hp with
    | idle hd => exact .idle (by rwa [hkernel, hinstrument])
    | placed hlots hne hd => exact .placed hlots hne (by rwa [hkernel, hinstrument])
    | refused hne hd => exact .refused hne (by rwa [hkernel, hinstrument])
  · obtain ⟨hempty, rfl⟩ := hfree.resolve_left hgap
    obtain ⟨hheld, hwhole, hne⟩ := hp.lots_gap hgap
    rw [if_neg hgap] at hkernel
    cases hp with
    | idle hd =>
      have hstands := stands_of_due_zero hd
      have hrefuses : e.refuses ⟨target⟩ = (e.kernel.accepts (e.order ⟨target⟩)).isNone := by
        unfold Env.refuses
        simp [hgap, hgoing]
      rw [zero_add, hwhole, Bool.false_or, hrefuses]
      have horder : e.order ⟨target⟩ = .submit (some e.instrument) e.nextId (sideOf target) none
          target.abs (offsetOf e.kernel.summary.qty target)
          ⟨e.kernel.summary.now, e.kernel.summary.now⟩ := by
        unfold Env.order
        rw [hwhole]
      rcases hstands.submit horder with ⟨hnone, hk⟩ | ⟨hsome, hqty, hk⟩
      · rw [hnone]
        refine .refused hne (.booked (q := 0) rfl ?_)
        rw [hkernel, hinstrument]
        exact hk
      · rw [hsome]
        refine .placed (lots_eq hqty) hne (.inFlight (t := ⟨e.nextId, sideOf target,
          offsetOf e.kernel.summary.qty target, target.abs⟩) hqty (lots_eq hqty) ?_)
        rw [hkernel, hinstrument]
        exact hk
    | placed hlots hne hd =>
      -- an order was placed, and on a flat account it is still in flight
      cases hd with
      | booked hq hk =>
        have hflat := hk.qty
        rw [hheld] at hflat
        rw [← hflat] at hq
        exact absurd (Int64.toInt_inj.mp hq).symm hne
      | inFlight hpos ht hk => exact absurd (hk.outstanding.mp hempty) (List.cons_ne_nil _ _)

/-! ## Runs of steps -/

theorem Env.after_of_ended {e : Env} {action : Action} (he : e.ended ≠ none) (n : Nat) :
    e.after action n = e ∧ e.sent action n = 0 := by
  have hstep : (e.step action).val.1 = e := by
    unfold Env.step
    rcases hended : e.ended with _ | ending
    · exact absurd hended he
    · rfl
  induction n with
  | zero => exact ⟨rfl, rfl⟩
  | succ n ih =>
    unfold Env.after Env.sent
    rw [hstep, if_neg he, zero_add]
    exact ih

/-- What is not liquidated after some steps was not before. -/
theorem Env.going_of_after {e : Env} {action : Action} {n : Nat}
    (h : (e.after action n).ended ≠ some .liquidated) : e.ended ≠ some .liquidated := by
  intro he
  rw [(Env.after_of_ended (by rw [he]; exact nofun) n).1] at h
  exact h he

/-- **One free step.** -/
theorem Progress.step (hp : Progress target e s refused) (hgoing : e.ended = none)
    (hfree : e.Free ⟨target⟩ refused)
    (hquiet : (e.step ⟨target⟩).val.1.ended ≠ some .liquidated) :
    Progress target (e.step ⟨target⟩).val.1 (s + lots (e.gap ⟨target⟩))
      (refused || e.refuses ⟨target⟩) := by
  rw [(Env.step_eq hgoing ⟨target⟩).1] at hquiet ⊢
  have hplaced := hp.place hgoing hfree
  generalize (e.place ⟨target⟩).val = e₁ at hplaced hquiet
  generalize s + lots (e.gap ⟨target⟩) = s' at hplaced
  generalize (refused || e.refuses ⟨target⟩) = refused' at hplaced
  have hinstrument := (Env.advance_same (e₁.stream.drop e₁.cursor) e₁).2.1
  have hkept : ∀ {d}, e₁.kernel.Due e₁.instrument d →
      (e₁.advanceToTick.val.counted e₁.advanceToTick.val.observe.equity).kernel.Due
        (e₁.advanceToTick.val.counted e₁.advanceToTick.val.observe.equity).instrument d := by
    intro d hd
    have hadvanced : e₁.advanceToTick.val.kernel.Due e₁.instrument d := Env.due_advance hd hquiet
    rw [← hinstrument] at hadvanced
    exact hadvanced
  cases hplaced with
  | idle hd => exact .idle (hkept hd)
  | placed hlots hne hd => exact .placed hlots hne (hkept hd)
  | refused hne hd => exact .refused hne (hkept hd)

/-- **Any steps** that are not liquidated stay within the target if and only if they are free. -/
theorem Progress.run_iff {n : Nat} (hp : Progress target e s refused)
    (hquiet : (e.after ⟨target⟩ n).ended ≠ some .liquidated) :
    (∀ k ≤ n, (e.after ⟨target⟩ k).Between target ∧
        |s + e.sent ⟨target⟩ k| ≤ |target.toInt|) ↔ e.RunFree ⟨target⟩ refused n := by
  induction n generalizing e s refused with
  | zero =>
    refine ⟨fun _ => trivial, fun _ k hk => ?_⟩
    rw [Nat.le_zero.mp hk]
    exact ⟨hp.within.1, by rw [show e.sent ⟨target⟩ 0 = 0 from rfl, add_zero]; exact hp.within.2⟩
  | succ n ih =>
    by_cases hgoing : e.ended = none
    · have hsent : ∀ k, e.sent ⟨target⟩ (k + 1) =
          lots (e.gap ⟨target⟩) + (e.step ⟨target⟩).val.1.sent ⟨target⟩ k := by
        intro k
        rw [Env.sent, if_pos hgoing]
      constructor
      · intro hall hgoing
        have hfree : e.Free ⟨target⟩ refused := by
          by_contra hnot
          have hone := (hall 1 (by omega)).2
          rw [hsent 0, show (e.step ⟨target⟩).val.1.sent ⟨target⟩ 0 = 0 from rfl, add_zero] at hone
          exact absurd hone (not_le.mpr (hp.twice hnot))
        have hnext := hp.step hgoing hfree (Env.going_of_after hquiet)
        refine ⟨hfree, (ih hnext hquiet).mp fun k hk => ?_⟩
        have hlater := hall (k + 1) (by omega)
        rw [hsent k, ← add_assoc] at hlater
        exact hlater
      · intro hfree k hk
        obtain ⟨hnow, hrest⟩ := hfree hgoing
        have hnext := hp.step hgoing hnow (Env.going_of_after hquiet)
        cases k with
        | zero =>
          rw [show e.sent ⟨target⟩ 0 = 0 from rfl, add_zero]
          exact hp.within
        | succ k =>
          have hlater := (ih hnext hquiet).mpr hrest k (by omega)
          rw [add_assoc, ← hsent k] at hlater
          exact hlater
    · -- an episode that has ended answers the same step again
      refine ⟨fun _ hnone => absurd hnone hgoing, fun _ k _ => ?_⟩
      rw [(Env.after_of_ended hgoing k).1, (Env.after_of_ended hgoing k).2, add_zero]
      exact hp.within

/-! ## Episodes that hold a target -/

/-- An account of a configuration that was not yet used. -/
theorem stands_new (c : RunConfig) (hmode : c.positionMode = .oneWay) :
    (Kernel.new (state c)).Stands c.instrument 0 [] where
  holding := by
    rw [state_eq]
    refine ⟨_, c.holdings_state, rfl, rfl, ?_⟩
    show (c.tier.matcher c.instrument).Carries c.instrument []
    have hnew : ∀ policy, (L1Engine.new c.instrument policy).Carries c.instrument [] :=
      fun policy => ⟨rfl, nofun, List.Perm.refl _⟩
    cases c.tier with
    | l0 => exact ⟨rfl, List.Perm.refl _⟩
    | l1 policy => exact hnew policy
    | l2 policy => exact hnew policy
  mode := by
    rw [state_eq]
    show c.state.mode = .oneWay
    rw [← hmode]
    unfold RunConfig.state
    cases c.margin <;> rfl
  simulated := by
    rw [state_eq]
    exact c.matching_state

/-- **A held target is never overshot, if and only if no step is taken beside an order in flight.**
An episode in one-way mode whose every step carries one target, and that is not liquidated, keeps
the position between flat and the target and submits no more than the target in total, after every
step, exactly when no step places an order while an earlier one is in flight or after one that was
refused. -/
theorem held_target_iff (c : RunConfig) (hmode : c.positionMode = .oneWay)
    (stream : List Observation) (seed : UInt64) (target : QtyLots) (n : Nat)
    (hquiet : ((opened c stream seed).1.after ⟨target⟩ n).ended ≠ some .liquidated) :
    (∀ k ≤ n, ((opened c stream seed).1.after ⟨target⟩ k).Between target ∧
        |(opened c stream seed).1.sent ⟨target⟩ k| ≤ |target.toInt|) ↔
      (opened c stream seed).1.RunFree ⟨target⟩ false n := by
  have hprogress : Progress target (opened c stream seed).1 0 false := by
    have hopen := Env.going_of_after hquiet
    have hnew : (Env.new c stream seed).val.config = c ∧
        (Env.new c stream seed).val.instrument = c.instrument ∧
        (Env.new c stream seed).val.stream = stream := Env.advance_same stream _
    unfold opened at hopen ⊢
    generalize (Env.new c stream seed).val = e at hnew hopen ⊢
    obtain ⟨rfl, hinstrument, -⟩ := hnew
    rw [e.reset_eq] at hopen ⊢
    have hdue : e.fresh.kernel.Due e.fresh.instrument 0 := by
      refine .booked (q := 0) rfl ?_
      show (Kernel.new (state e.config)).Stands e.instrument 0 []
      rw [hinstrument]
      exact stands_new e.config hmode
    refine .idle ?_
    have hadvanced : (e.fresh.advance e.stream).val.kernel.Due e.fresh.instrument 0 :=
      Env.due_advance hdue hopen
    rw [← (Env.advance_same e.stream e.fresh).2.1] at hadvanced
    exact hadvanced
  have hrun := hprogress.run_iff hquiet
  simp only [zero_add] at hrun
  exact hrun

/-- Without latency the order fills at the next tick, and the target is held. -/
theorem held_target_iff_prompt :
    let c : RunConfig := { delayedConfig with tier := .l0 }
    let e := (opened c [flatTick 2 2, flatTick 13 13, flatTick 20 20] 0).1
    (e.after ⟨10⟩ 2).Between 10 ∧ |e.sent ⟨10⟩ 2| ≤ |(10 : QtyLots).toInt| :=
  (held_target_iff { delayedConfig with tier := .l0 } rfl
    [flatTick 2 2, flatTick 13 13, flatTick 20 20] 0 10 2 (by decide +kernel)).mpr
      (by decide +kernel) 2 (Nat.le_refl 2)

/-- **An order in flight is placed again.**  The venue hears of the first order after the second
tick; by then the target, still not held, was asked for a second time, and both orders fill. -/
theorem target_doubled :
    let stream := [flatTick 2 2, flatTick 5 5, flatTick 30 30]
    let e := (opened delayedConfig stream 0).1
    delayedConfig.positionMode = .oneWay ∧ (e.after ⟨10⟩ 2).ended ≠ some .liquidated ∧
      (e.after ⟨10⟩ 2).kernel.summary.qty = 20 ∧ e.sent ⟨10⟩ 2 = 20 ∧
      ¬ (e.after ⟨10⟩ 2).Between 10 := by
  decide +kernel

end Training
