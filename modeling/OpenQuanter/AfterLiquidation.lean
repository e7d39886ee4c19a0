/-
# What a liquidation leaves above the book (`oq-core/src/kernel.rs`, `oq-engine/src/l1.rs`)

Above the book an order is pending, queued, resting, or executed with its fill held back by the
response latency: in each of the four it is outstanding, since it can still be reported as filled.
No call on a matcher makes an order outstanding but its submission, and every fill a matcher hands
over is one of an outstanding order.

`cancel_all` empties three of the four.  What the matchers of the closed holdings hold back, and
what the flat ones of several still have, is what a liquidation leaves (`State.leftBy`); in a run
that leaves nothing at any liquidation, every later fill is of an order accepted later
(`stays_liquidated`).  A fill that is left held back is produced at the end of the run at the latest
(`filled_of_heldBack`).
-/
import OpenQuanter.Backtest
import OpenQuanter.Custody
import OpenQuanter.EveryHolding

open Logged

/-! ## Outstanding orders -/

namespace L1Engine

/-- The orders executed whose fills are held back. -/
def heldBack (e : L1Engine) : List OrderId := e.delayed.map (·.fill.fill.order)

/-- The orders that can still be reported as filled. -/
def outstanding (e : L1Engine) : List OrderId := e.orderIds ++ e.heldBack

variable {e e' : L1Engine}

theorem Moved.outstanding {extra : List Working} (h : Moved extra e e') :
    e'.outstanding ⊆ extra.map Working.id ++ e.outstanding := by
  intro id hid
  have horders := (h.shuffled.orders.map Working.id).mem_iff (a := id)
  rw [List.map_append] at horders
  unfold L1Engine.outstanding heldBack at hid ⊢
  rw [h.delayed] at hid
  rw [← List.append_assoc]
  rcases List.mem_append.mp hid with hid | hid
  · exact List.mem_append_left _ (horders.mp hid)
  · exact List.mem_append_right _ hid

theorem Moved.outstanding_nil (h : Moved [] e e') : e'.outstanding ⊆ e.outstanding := h.outstanding

theorem mem_outstanding {id : OrderId} :
    id ∈ e.outstanding ↔ (∃ p ∈ e.pending, p.order.id = id) ∨ (∃ q ∈ e.queued, q.order.id = id) ∨
      (∃ r ∈ e.inner.book.iter, r.id = id) ∨ ∃ d ∈ e.delayed, d.fill.fill.order = id := by
  unfold outstanding heldBack
  rw [orderIds_eq]
  simp only [Book.restingIds, List.mem_append, List.mem_map, or_assoc]

/-- Losing orders from some of the lists. -/
theorem outstanding_subset (hpending : e'.pending ⊆ e.pending) (hqueued : e'.queued ⊆ e.queued)
    (hbook : e'.inner.book.iter ⊆ e.inner.book.iter) (hdelayed : e'.delayed ⊆ e.delayed) :
    e'.outstanding ⊆ e.outstanding := by
  intro id hid
  rw [mem_outstanding] at hid ⊢
  rcases hid with ⟨p, hp, h⟩ | ⟨q, hq, h⟩ | ⟨r, hr, h⟩ | ⟨d, hd, h⟩
  · exact Or.inl ⟨p, hpending hp, h⟩
  · exact Or.inr (Or.inl ⟨q, hqueued hq, h⟩)
  · exact Or.inr (Or.inr (Or.inl ⟨r, hbook hr, h⟩))
  · exact Or.inr (Or.inr (Or.inr ⟨d, hdelayed hd, h⟩))

theorem outstanding_cancel (e : L1Engine) (id : OrderId) :
    (e.cancel id).1.outstanding ⊆ e.outstanding := by
  have hpending := List.filter_subset_self (p := fun p : Pending => p.order.id ≠ id) e.pending
  have hqueued := List.filter_subset_self (p := fun q : Queued => q.order.id ≠ id) e.queued
  have hbook := (Book.sublist_iter_dropAll e.inner.book [id]).subset
  unfold cancel
  simp only
  split_ifs
  · exact outstanding_subset hpending hqueued (List.Subset.refl _) (List.Subset.refl _)
  · exact outstanding_subset hpending hqueued hbook (List.Subset.refl _)

/-- **Withdrawing every order** leaves the fills held back. -/
theorem outstanding_cancelAll (e : L1Engine) : e.cancelAll.1.outstanding = e.heldBack := by
  have hempty : e.cancelAll.1.orderIds = [] := by
    rw [orderIds_eq]
    show (e.inner.book.dropAll e.inner.book.restingIds).iter.map Resting.id = []
    rw [Book.iter_dropAll_restingIds]
    rfl
  unfold outstanding
  rw [hempty]
  rfl

/-- The match takes the orders it fills off the book, and they were in it. -/
theorem outstanding_match (e : L1Engine) (tick : Tick) :
    ({ e with inner := e.inner.onTick tick } : L1Engine).outstanding ⊆ e.outstanding ∧
      (e.inner.onTick tick).filledIds ⊆ e.outstanding := by
  constructor
  · refine outstanding_subset (List.Subset.refl _) (List.Subset.refl _) ?_ (List.Subset.refl _)
    show (e.inner.onTick tick).book.iter ⊆ e.inner.book.iter
    rw [L0Engine.onTick_book]
    exact (Book.sublist_iter_dropAll _ _).subset
  · intro id hid
    unfold outstanding
    rw [orderIds_eq]
    exact List.mem_append_left _ (List.mem_append_right _ (e.inner.filledIds_subset tick id hid))

/-- Of the fills held back and the new ones some are told of, the others are held back. -/
theorem outstanding_release (e : L1Engine) (now : Nanos) (fills : List L0Fill) :
    (e.release now fills).outstanding ++ (e.release now fills).released.map (·.fill.order) ⊆
      e.outstanding ++ fills.map (·.fill.order) := by
  have htold := (release_perm e now fills).map (·.fill.order)
  rw [List.map_append, List.map_append, List.map_map, List.map_map] at htold
  intro id hid
  unfold outstanding at hid ⊢
  rw [(release_kept e now fills).1, List.append_assoc] at hid
  rw [List.append_assoc]
  rcases List.mem_append.mp hid with hid | hid
  · exact List.mem_append_left _ hid
  · exact List.mem_append_right _ (htold.mem_iff.mp hid)

/-- **An observation** tells of outstanding orders and makes none outstanding. -/
theorem outstanding_onTickWithImpact {σ : Type} (e : L1Engine) (tick : Tick) (measured : Measure σ)
    (s : σ) :
    (e.onTickWithImpact tick measured s).1.outstanding ++
      (e.onTickWithImpact tick measured s).1.released.map (·.fill.order) ⊆ e.outstanding := by
  unfold onTickWithImpact
  simp only
  generalize e.tradedVolume tick = traded
  have harrived := (moved_arrive e tick.stamp.exch traded).outstanding_nil
  have hpromoted := (moved_promote (e.arrive tick.stamp.exch traded) tick traded).outstanding_nil
  generalize (e.arrive tick.stamp.exch traded).promote tick traded = e₁ at hpromoted
  have hids := orders_adjust e₁.policy tick traded measured s (e₁.inner.onTick tick).fills
  generalize (adjust e₁.policy tick traded measured s (e₁.inner.onTick tick).fills).1 = adjusted
    at hids
  obtain ⟨hkept, hfilled⟩ := outstanding_match e₁ tick
  have hreleased := outstanding_release { e₁ with inner := e₁.inner.onTick tick } tick.stamp.exch
    adjusted
  rw [hids] at hreleased
  have hmatched : ({ e₁ with inner := e₁.inner.onTick tick } : L1Engine).outstanding ++
      (e₁.inner.onTick tick).filledIds ⊆ e₁.outstanding :=
    List.append_subset.mpr ⟨hkept, hfilled⟩
  -- the clocks are written last, and no order is in them
  exact fun id hid => harrived (hpromoted (hmatched (hreleased hid)))

theorem outstanding_onInvalidTick (e : L1Engine) (tick : Tick) :
    (e.onInvalidTick tick).outstanding ++ (e.onInvalidTick tick).released.map (·.fill.order) ⊆
      e.outstanding := by
  refine List.append_subset.mpr ⟨?_, ?_⟩
  · exact outstanding_subset (List.Subset.refl _) (List.Subset.refl _) (List.Subset.refl _)
      (List.filter_subset_self _)
  · refine List.subset_append_of_subset_right _ ?_
    unfold heldBack onInvalidTick
    rw [List.map_map]
    exact List.map_subset _ (List.filter_subset_self _)

theorem outstanding_requeue (queue : Side → PriceTicks → Int64) (e : L1Engine) (r : Resting) :
    (requeue queue e r).outstanding ⊆ r.id :: e.outstanding := by
  have hsame : e.outstanding ⊆ r.id :: e.outstanding := List.subset_cons_self _ _
  unfold requeue
  split
  · exact hsame
  · simp only
    split_ifs
    · intro id hid
      rw [mem_outstanding] at hid
      rcases hid with h | ⟨q, hq, h⟩ | ⟨x, hx, h⟩ | h
      · exact hsame (mem_outstanding.mpr (Or.inl h))
      · rcases List.mem_append.mp hq with hq | hq
        · exact hsame (mem_outstanding.mpr (Or.inr (Or.inl ⟨q, hq, h⟩)))
        · rw [← h, List.mem_singleton.mp hq]
          exact List.mem_cons_self
      · have hx' := (Book.sublist_iter_dropAll e.inner.book [r.id]).subset hx
        exact hsame (mem_outstanding.mpr (Or.inr (Or.inr (Or.inl ⟨x, hx', h⟩))))
      · exact hsame (mem_outstanding.mpr (Or.inr (Or.inr (Or.inr h))))
    · exact hsame

theorem outstanding_foldl_requeue (queue : Side → PriceTicks → Int64) (resting : List Resting)
    (e : L1Engine) :
    (resting.foldl (requeue queue) e).outstanding ⊆ resting.map Resting.id ++ e.outstanding := by
  induction resting generalizing e with
  | nil => exact List.Subset.refl _
  | cons r rest ih =>
    intro id hid
    rcases List.mem_append.mp (ih _ hid) with hid | hid
    · exact List.mem_append_left _ (List.mem_cons_of_mem _ hid)
    · rcases List.mem_cons.mp (outstanding_requeue queue e r hid) with rfl | hid
      · exact List.mem_append_left _ List.mem_cons_self
      · exact List.mem_append_right _ hid

/-- A snapshot puts orders of the book back behind a queue, and no other. -/
theorem outstanding_resumeDepth (e : L1Engine) (queue : Side → PriceTicks → Int64) :
    (e.resumeDepth queue).outstanding ⊆ e.outstanding := by
  unfold resumeDepth
  simp only
  refine List.Subset.trans (Moved.outstanding_nil ⟨shuffled_mapQueued _ _ ?_, rfl⟩) ?_
  · intro q
    split <;> rfl
  · refine List.Subset.trans (outstanding_foldl_requeue queue _ _) (List.append_subset.mpr ⟨?_, ?_⟩)
    · intro id hid
      obtain ⟨r, hr, rfl⟩ := List.mem_map.mp hid
      exact mem_outstanding.mpr (Or.inr (Or.inr (Or.inl
        ⟨r, (List.perm_insertionSort _ _).mem_iff.mp hr, rfl⟩)))
    · exact List.Subset.refl _

theorem outstanding_drainUnreported (e : L1Engine) :
    e.drainUnreported.2.outstanding ⊆ e.outstanding ∧
      e.drainUnreported.1.map (·.fill.order) ⊆ e.outstanding := by
  constructor
  · exact outstanding_subset (List.Subset.refl _) (List.Subset.refl _) (List.Subset.refl _)
      (List.nil_subset _)
  · refine List.subset_append_of_subset_right _ ?_
    unfold heldBack drainUnreported
    rw [List.map_map]
    exact List.map_subset _ (List.perm_insertionSort _ _).subset

end L1Engine

namespace L2Engine

theorem outstanding_submit (e : L2Engine) (order : Working) (now : Nanos) :
    (e.submit order now).inner.outstanding ⊆ order.id :: e.inner.outstanding :=
  (moved_submit e order now).outstanding

theorem outstanding_onDepth (e : L2Engine) (update : DepthUpdate) :
    (e.onDepth update).1.inner.outstanding ⊆ e.inner.outstanding := by
  unfold onDepth
  simp only
  have hsampled := (L1Engine.moved_sampleArrivals e.inner
    (satSub (satMul update.eventMs 1000000) 1) (queueFrom e.venue e.hasSnapshot)).outstanding_nil
  cases e.venue.apply update with
  | ok applied => exact hsampled
  | error err =>
    exact List.Subset.trans (L1Engine.moved_invalidateDepth _).outstanding_nil hsampled

theorem outstanding_installSnapshot (e : L2Engine) (updateId : UInt64) (bids asks : List Level) :
    (e.installSnapshot updateId bids asks).inner.outstanding ⊆ e.inner.outstanding := by
  unfold installSnapshot
  simp only
  split_ifs
  · exact L1Engine.outstanding_resumeDepth _ _
  · exact List.Subset.refl _

theorem outstanding_installSnapshotAt (e : L2Engine) (at_ : Nanos) (updateId : UInt64)
    (bids asks : List Level) :
    (e.installSnapshotAt at_ updateId bids asks).inner.outstanding ⊆ e.inner.outstanding := by
  unfold installSnapshotAt
  simp only
  refine List.Subset.trans (outstanding_installSnapshot _ updateId bids asks) ?_
  split_ifs
  · exact (L1Engine.moved_sampleArrivals e.inner _ _).outstanding_nil
  · exact List.Subset.refl _

theorem outstanding_onTick (e : L2Engine) (tick : Tick) :
    (e.onTick tick).inner.outstanding ++ (e.onTick tick).inner.released.map (·.fill.order) ⊆
      e.inner.outstanding := by
  unfold onTick
  split_ifs
  · exact e.inner.outstanding_onInvalidTick tick
  · exact List.Subset.trans (L1Engine.outstanding_onTickWithImpact _ tick _ _)
      (L1Engine.moved_sampleArrivals e.inner _ _).outstanding_nil

end L2Engine

namespace Matcher

/-- The orders executed whose fills are held back. -/
def heldBack : Matcher → List OrderId
  | .l0 _ => []
  | .l1 e => e.heldBack
  | .l2 e => e.inner.heldBack

/-- The orders that can still be reported as filled. -/
def outstanding : Matcher → List OrderId
  | .l0 e => e.book.restingIds
  | .l1 e => e.outstanding
  | .l2 e => e.inner.outstanding

variable {m m' : Matcher}

theorem outstanding_submit (m : Matcher) (order : Working) (now : Nanos) :
    (m.submit order now).outstanding ⊆ order.id :: m.outstanding := by
  cases m with
  | l0 e => exact (Book.restingIds_insert_perm e.book order).subset
  | l1 e => exact (L1Engine.moved_submitQueue e order now none false).outstanding
  | l2 e => exact e.outstanding_submit order now

theorem outstanding_cancelAll (m : Matcher) : m.cancelAll.1.outstanding = m.heldBack := by
  cases m with
  | l0 e =>
    show (e.book.dropAll e.book.restingIds).iter.map Resting.id = []
    rw [Book.iter_dropAll_restingIds]
    rfl
  | l1 e => exact e.outstanding_cancelAll
  | l2 e => exact e.inner.outstanding_cancelAll

theorem heldBack_subset (m : Matcher) : m.heldBack ⊆ m.outstanding := by
  cases m with
  | l0 e => exact List.nil_subset _
  | l1 e => exact List.subset_append_right _ _
  | l2 e => exact List.subset_append_right _ _

/-- **An observation** tells of outstanding orders and makes none outstanding. -/
theorem outstanding_onTick (m : Matcher) (tick : Tick) :
    (m.onTick tick).outstanding ++ (m.onTick tick).fills.map (·.fill.order) ⊆ m.outstanding := by
  cases m with
  | l0 e =>
    refine List.append_subset.mpr ⟨?_, e.filledIds_subset tick⟩
    show (e.onTick tick).book.restingIds ⊆ _
    rw [L0Engine.onTick_book]
    exact List.map_subset _ (Book.sublist_iter_dropAll _ _).subset
  | l1 e => exact e.outstanding_onTickWithImpact tick _ _
  | l2 e => exact e.outstanding_onTick tick

/-- **Only a submission makes an order outstanding.** -/
theorem Asked.outstanding (h : m.Asked m') : m'.outstanding ⊆ m.outstanding := by
  cases h with
  | cancel id =>
    cases m with
    | l0 e => exact List.map_subset _ (Book.sublist_iter_dropAll e.book [id]).subset
    | l1 e => exact e.outstanding_cancel id
    | l2 e => exact e.inner.outstanding_cancel id
  | onTick tick => exact (List.append_subset.mp (m.outstanding_onTick tick)).1
  | onDepth update =>
    cases m with
    | l0 e => exact List.Subset.refl _
    | l1 e => exact List.Subset.refl _
    | l2 e =>
      have h := e.outstanding_onDepth update
      rcases hdepth : e.onDepth update with ⟨e', answer⟩
      rw [hdepth] at h
      cases answer <;> simp only [Matcher.onDepth, hdepth] <;> exact h

theorem outstanding_onGap (m : Matcher) : m.onGap.1.outstanding ⊆ m.outstanding := by
  cases m with
  | l0 e => exact List.Subset.refl _
  | l1 e => exact List.Subset.refl _
  | l2 e => exact (L1Engine.moved_invalidateDepth e.inner).outstanding_nil

theorem outstanding_installSnapshot (m : Matcher) (updateId : UInt64) (bids asks : List Level) :
    (m.installSnapshot updateId bids asks).1.outstanding ⊆ m.outstanding := by
  cases m with
  | l0 e => exact List.Subset.refl _
  | l1 e => exact List.Subset.refl _
  | l2 e => exact e.outstanding_installSnapshot updateId bids asks

theorem outstanding_installSnapshotAt (m : Matcher) (at_ : Nanos) (updateId : UInt64)
    (bids asks : List Level) :
    (m.installSnapshotAt at_ updateId bids asks).1.outstanding ⊆ m.outstanding := by
  cases m with
  | l0 e => exact List.Subset.refl _
  | l1 e => exact List.Subset.refl _
  | l2 e => exact e.outstanding_installSnapshotAt at_ updateId bids asks

theorem outstanding_drainUnreported (m : Matcher) :
    m.drainUnreported.2.outstanding ⊆ m.outstanding ∧
      m.drainUnreported.1.map (·.fill.order) ⊆ m.outstanding := by
  cases m with
  | l0 e => exact ⟨List.Subset.refl _, List.nil_subset _⟩
  | l1 e => exact e.outstanding_drainUnreported
  | l2 e => exact e.inner.outstanding_drainUnreported

end Matcher

/-! ## What a liquidation leaves -/

namespace State

/-- The orders outstanding in the account's matchers. -/
def outstanding (s : State) : List OrderId := s.holdings.flatMap (·.engine.outstanding)

/-- The orders that closing the account leaves outstanding: the fills held back of a holding that
is closed, and all that a flat one of several has. -/
def leftBy (s : State) : List OrderId :=
  s.holdings.flatMap (fun h =>
    if s.holdings.length = 1 ∨ h.isFlat = false then h.engine.heldBack else h.engine.outstanding)

/-- Whether the check at this price liquidates the account and leaves an order outstanding. -/
def leaves (s : State) (price : PriceTicks) : Bool :=
  s.enforceLiquidation && !s.isFlat && Kernel.liquidatable s price && !s.leftBy.isEmpty

theorem outstanding_closedIn (s : State) (h : Holding) :
    (s.closedIn h).engine.outstanding =
      if s.holdings.length = 1 ∨ h.isFlat = false then h.engine.heldBack
      else h.engine.outstanding := by
  unfold closedIn
  split_ifs
  · exact h.engine.outstanding_cancelAll
  · rfl

/-- **What is outstanding after a liquidation.** -/
theorem outstanding_liquidate (s : State) (price : PriceTicks) :
    (s.liquidate price).val.1.outstanding = s.leftBy := by
  show ((s.closeAll price).val.1.holdings).flatMap (·.engine.outstanding) = _
  rw [holdings_closeAll, List.flatMap_map]
  unfold leftBy
  congr 1
  funext h
  exact s.outstanding_closedIn h

end State

namespace Kernel

/-- The check an event ends in, if it ends in one, leaves no order outstanding. -/
def LeavesNone (k : Kernel) (event : Event) : Prop :=
  ∀ price, (k.booked event).val.2 = some price → (k.booked event).val.1.state.leaves price = false

instance (k : Kernel) (event : Event) : Decidable (k.LeavesNone event) :=
  decidableForallSome (k.booked event).val.2

/-! ## What a host does to a kernel -/

/-- An event, the end of the run, or what a host tells the matcher of the depth it captured. -/
inductive HostCall where
  | event (event : Event)
  | settleUnreported
  | gap
  | snapshot (updateId : UInt64) (bids asks : List Level)
  | snapshotAt (at_ : Nanos) (updateId : UInt64) (bids asks : List Level)

/-- The kernel after one call. -/
def host (k : Kernel) : HostCall → Kernel
  | .event event => (k.apply event).val
  | .settleUnreported => k.settleUnreported.val
  | .gap => k.applyDepthGap.1
  | .snapshot updateId bids asks => (k.installSnapshot updateId bids asks).1
  | .snapshotAt at_ updateId bids asks => (k.installSnapshotAt at_ updateId bids asks).1

/-- What a call produces. -/
def produced (k : Kernel) : HostCall → List Output
  | .event event => (k.apply event).val.outputs
  | .settleUnreported => k.settleUnreported.val.outputs
  | _ => []

/-- The order a call adds to the working set. -/
def acceptedBy (k : Kernel) : HostCall → Option OrderId
  | .event event => k.accepts event
  | _ => none

/-- The kernel after some calls. -/
def hosted (k : Kernel) (calls : List HostCall) : Kernel := calls.foldl host k

/-- The orders accepted in some calls. -/
def acceptedIn : Kernel → List HostCall → List OrderId
  | _, [] => []
  | k, call :: rest => (k.acceptedBy call).toList ++ (k.host call).acceptedIn rest

/-- A call that liquidates the account leaves no order outstanding. -/
def CallLeavesNone (k : Kernel) : HostCall → Prop
  | .event event => k.LeavesNone event
  | _ => True

/-- No liquidation of the run leaves an order outstanding. -/
def RunLeavesNone : Kernel → List HostCall → Prop
  | _, [] => True
  | k, call :: rest => k.CallLeavesNone call ∧ (k.host call).RunLeavesNone rest

instance decidableCallLeavesNone (k : Kernel) :
    (call : HostCall) → Decidable (k.CallLeavesNone call)
  | .event event => inferInstanceAs (Decidable (k.LeavesNone event))
  | .settleUnreported => isTrue trivial
  | .gap => isTrue trivial
  | .snapshot _ _ _ => isTrue trivial
  | .snapshotAt _ _ _ _ => isTrue trivial

instance decidableRunLeavesNone :
    (k : Kernel) → (calls : List HostCall) → Decidable (k.RunLeavesNone calls)
  | _, [] => isTrue trivial
  | k, call :: rest =>
    have := decidableRunLeavesNone (k.host call) rest
    inferInstanceAs (Decidable (k.CallLeavesNone call ∧ (k.host call).RunLeavesNone rest))

end Kernel

/-! ## One call -/

/-- Booking a fill leaves the matchers alone. -/
theorem State.Kept.forall_engine {s t : State} (h : s.Kept t) {P : Matcher → Prop}
    (hs : ∀ x ∈ s.holdings, P x.engine) : ∀ y ∈ t.holdings, P y.engine := by
  intro y hy
  have hrest : y.rest ∈ s.holdings.map Holding.rest := by
    rw [← h.rests]
    exact List.mem_map_of_mem hy
  obtain ⟨x, hx, hxy⟩ := List.mem_map.mp hrest
  have hengine : x.engine = y.engine := congrArg (fun r => r.2.2.2.1) hxy
  rw [← hengine]
  exact hs x hx

namespace Kernel

/-- Only orders of this list are outstanding, and the venue does no matching. -/
structure Within (S : List OrderId) (k : Kernel) : Prop where
  outstanding : ∀ h ∈ k.state.holdings, h.engine.outstanding ⊆ S
  simulated : k.state.matching = .simulated

variable {k : Kernel} {S T : List OrderId}

theorem Within.mono (h : Within S k) (hS : S ⊆ T) : Within T k :=
  ⟨fun x hx => List.Subset.trans (h.outstanding x hx) hS, h.simulated⟩

theorem Within.booked (h : Within S k) (event : Event) :
    Within ((k.accepts event).toList ++ S) (k.booked event).val.1 where
  outstanding := by
    have hS : S ⊆ (k.accepts event).toList ++ S := List.subset_append_right _ _
    apply forall_booked (P := fun x => x.engine.outstanding ⊆ (k.accepts event).toList ++ S)
    · exact fun x hx => List.Subset.trans (h.outstanding x hx) hS
    · exact fun x m hasked hx => List.Subset.trans hasked.outstanding hx
    · intro x order now haccepts hx id hid
      rcases List.mem_cons.mp (x.engine.outstanding_submit order now hid) with rfl | hid
      · rw [haccepts]
        exact List.mem_append_left _ (List.mem_singleton_self _)
      · exact hx hid
    · exact fun _ _ _ x hx => hx
    · exact fun fill _ s hs => (s.kept_applyFill fill).forall_engine
        (P := fun m => m.outstanding ⊆ (k.accepts event).toList ++ S) hs
  simulated := (k.moves_booked event).sameSetup.matching.trans h.simulated

/-- **An event** makes an order outstanding that it accepts, and no other. -/
theorem Within.apply (h : Within S k) (event : Event) :
    Within ((k.accepts event).toList ++ S) (k.apply event).val where
  outstanding := by
    rw [apply_eq, val_bind]
    apply forall_settle (P := fun x => x.engine.outstanding ⊆ (k.accepts event).toList ++ S)
      (h.booked event).outstanding
    intro x hx
    show x.engine.cancelAll.1.outstanding ⊆ _
    rw [x.engine.outstanding_cancelAll]
    exact List.Subset.trans x.engine.heldBack_subset hx
  simulated := (k.moves_apply event).sameSetup.matching.trans h.simulated

/-- **A fill an event produces** is of an order outstanding before it. -/
theorem Within.filled_apply (h : Within S k) {event : Event} {fill : Fill}
    (hfill : Output.filled fill ∈ (k.apply event).val.outputs) : fill.order ∈ S := by
  have hsim : ¬ k.state.matching = .venue := by
    rw [h.simulated]
    simp
  rw [filled_mem_apply_iff] at hfill
  cases event with
  | tick instrument tick =>
    unfold fillsOf at hfill
    simp only [if_neg hsim] at hfill
    rcases hroute : k.route instrument with _ | index
    · simp only [hroute] at hfill
      cases hfill
    · simp only [hroute] at hfill
      have hobserved : ∀ x ∈ (k.observe index tick).state.holdings, x.engine.outstanding ⊆ S :=
        State.forall_modifyAt (s := k.state.withNow tick.stamp.exch)
          (P := fun x => x.engine.outstanding ⊆ S) h.outstanding (fun hx => hx)
      have hlt : index < (k.observe index tick).state.holdings.length := by
        show index < (k.state.holdings.modify index _).length
        rw [List.length_modify]
        exact k.route_lt hroute
      obtain ⟨f, hf, rfl⟩ := List.mem_map.mp hfill
      have htold := (List.append_subset.mp
        (((k.observe index tick).state.holdingsAt index).engine.outstanding_onTick tick)).2
      exact hobserved _ (State.holdingsAt_mem hlt) (htold (List.mem_map_of_mem hf))
  | venueFill fill' reported =>
    simp only [fillsOf, if_neg hsim] at hfill
    cases hfill
  | funding instrument at_ rate mark => cases hfill
  | submit instrument id side price qty offset stamp => cases hfill
  | cancel id stamp => cases hfill
  | fundingCharged instrument at_ amount => cases hfill
  | feeRecovered at_ amount remainingMissing => cases hfill
  | time at_ => cases hfill
  | marginDeposit amount at_ => cases hfill
  | depth update => cases hfill

/-! ## The end of a run -/

/-- What every settled holding keeps holds once all are settled. -/
theorem settleUnreported_induction {I : Kernel → Prop} (hstart : I k.cleared)
    (hstep : ∀ (k : Kernel) (index : Nat), I k → I (k.settleUnreportedAt index).val) :
    I k.settleUnreported.val :=
  ensures_empty (ensures_foldlM (fun k index hk => ensures_of_val (hstep k index hk)) hstart _)

/-- The account with one holding's matcher drained of the fills it held back. -/
def drainedAt (k : Kernel) (index : Nat) : State :=
  k.state.modifyAt index (fun x => { x with
    engine := (k.state.holdingsAt index).engine.drainUnreported.2 })

theorem kept_settleUnreportedAt (k : Kernel) (index : Nat) :
    (k.drainedAt index).Kept (k.settleUnreportedAt index).val.state :=
  (k.withState (k.drainedAt index)).kept_bookFills index _

theorem outputs_settleUnreportedAt (k : Kernel) (index : Nat) :
    (k.settleUnreportedAt index).val.outputs = k.outputs ++
      ((k.state.holdingsAt index).engine.drainUnreported.1.map L0Fill.fill).map Output.filled :=
  outputs_bookFills _ _ _

theorem Within.settleUnreportedAt (h : Within S k) (index : Nat) :
    Within S (k.settleUnreportedAt index).val where
  outstanding := by
    have hdrained : ∀ x ∈ (k.drainedAt index).holdings, x.engine.outstanding ⊆ S :=
      State.forall_modifyAt (P := fun x => x.engine.outstanding ⊆ S) h.outstanding
        (fun hx => List.Subset.trans
          (k.state.holdingsAt index).engine.outstanding_drainUnreported.1 hx)
    exact (k.kept_settleUnreportedAt index).forall_engine (P := fun m => m.outstanding ⊆ S) hdrained
  simulated := (k.kept_settleUnreportedAt index).matching.trans h.simulated

/-- **Settling what is unreported** produces fills of outstanding orders, and makes none
outstanding. -/
theorem Within.settleUnreported (h : Within S k) :
    Within S k.settleUnreported.val ∧
      ∀ fill, Output.filled fill ∈ k.settleUnreported.val.outputs → fill.order ∈ S := by
  apply settleUnreported_induction (I := fun k =>
    Within S k ∧ ∀ fill, Output.filled fill ∈ k.outputs → fill.order ∈ S)
  · exact ⟨⟨h.outstanding, h.simulated⟩, fun _ hfill => nomatch hfill⟩
  · rintro k index ⟨hk, houtputs⟩
    refine ⟨hk.settleUnreportedAt index, fun fill hfill => ?_⟩
    rw [outputs_settleUnreportedAt] at hfill
    rcases List.mem_append.mp hfill with hfill | hfill
    · exact houtputs fill hfill
    · obtain ⟨fill', hfill', heq⟩ := List.mem_map.mp hfill
      cases heq
      obtain ⟨f, hf, rfl⟩ := List.mem_map.mp hfill'
      have hdrained := (k.state.holdingsAt index).engine.outstanding_drainUnreported.2
      exact hk.outstanding _ (State.holdingsAt_mem_holdings _ index)
        (hdrained (List.mem_map_of_mem hf))

/-- A flat account loses its flatness to a fill that is produced. -/
theorem isFlat_settleUnreported (hflat : k.state.isFlat = true) :
    k.settleUnreported.val.state.isFlat = true ∨
      ∃ fill, Output.filled fill ∈ k.settleUnreported.val.outputs := by
  apply settleUnreported_induction (I := fun k =>
    k.state.isFlat = true ∨ ∃ fill, Output.filled fill ∈ k.outputs)
  · exact Or.inl hflat
  · intro k index hk
    rw [outputs_settleUnreportedAt]
    rcases hfills : (k.state.holdingsAt index).engine.drainUnreported.1 with _ | ⟨f, rest⟩
    · rcases hk with hk | ⟨fill, hfill⟩
      · left
        unfold Kernel.settleUnreportedAt
        simp only [hfills]
        exact State.isFlat_modifyAt (fun _ hx => hx) hk
      · exact Or.inr ⟨fill, List.mem_append_left _ hfill⟩
    · exact Or.inr ⟨f.fill, by simp⟩

theorem drainUnreported_heldBack (m : Matcher) :
    (m.drainUnreported.1.map (·.fill.order)).Perm m.heldBack := by
  have hall : ∀ e : L1Engine, (e.drainUnreported.1.map (·.fill.order)).Perm e.heldBack := by
    intro e
    unfold L1Engine.drainUnreported L1Engine.heldBack
    rw [List.map_map]
    exact (List.perm_insertionSort _ _).map _
  cases m with
  | l0 e => exact List.Perm.refl _
  | l1 e => exact hall e
  | l2 e => exact hall e.inner

theorem length_settleUnreportedAt (k : Kernel) (index : Nat) :
    (k.settleUnreportedAt index).val.state.holdings.length = k.state.holdings.length := by
  rw [(k.kept_settleUnreportedAt index).length]
  show (k.state.holdings.modify index _).length = _
  rw [List.length_modify]

/-- Settling one holding leaves what the others hold back. -/
theorem engine_settleUnreportedAt (k : Kernel) {index j : Nat} (hne : index ≠ j)
    (hlt : j < k.state.holdings.length) :
    ((k.settleUnreportedAt index).val.state.holdingsAt j).engine =
      (k.state.holdingsAt j).engine := by
  have hkept := (k.kept_settleUnreportedAt index).rest_holdingsAt j
  refine (congrArg (fun r => r.2.2.2.1) hkept).trans ?_
  show ((k.drainedAt index).holdingsAt j).engine = _
  have hlt' : j < (k.drainedAt index).holdings.length := by
    rwa [drainedAt, State.holdings_modifyAt, List.length_modify]
  unfold State.holdingsAt
  rw [List.getD_eq_getElem _ _ hlt', List.getD_eq_getElem _ _ hlt]
  simp only [drainedAt, State.holdings_modifyAt, List.getElem_modify, if_neg hne]

theorem Within.askMatcher {α : Type} (h : Within S k) {f : Matcher → Matcher × α}
    (hf : ∀ m, (f m).1.outstanding ⊆ m.outstanding) : Within S (k.askMatcher f).1 where
  outstanding := State.forall_modifyAt (P := fun x => x.engine.outstanding ⊆ S) h.outstanding
    (fun hx => List.Subset.trans (hf _) hx)
  simulated := h.simulated

/-- **Only an accepted submission makes an order outstanding.** -/
theorem Within.host (h : Within S k) (call : HostCall) :
    Within ((k.acceptedBy call).toList ++ S) (k.host call) := by
  cases call with
  | event event => exact h.apply event
  | settleUnreported => exact h.settleUnreported.1
  | gap => exact h.askMatcher Matcher.outstanding_onGap
  | snapshot updateId bids asks =>
    exact h.askMatcher (fun m => m.outstanding_installSnapshot updateId bids asks)
  | snapshotAt at_ updateId bids asks =>
    exact h.askMatcher (fun m => m.outstanding_installSnapshotAt at_ updateId bids asks)

/-- **A fill that is produced** is of an order outstanding before. -/
theorem Within.produced (h : Within S k) {call : HostCall} {fill : Fill}
    (hfill : Output.filled fill ∈ k.produced call) : fill.order ∈ S := by
  cases call with
  | event event => exact h.filled_apply hfill
  | settleUnreported => exact h.settleUnreported.2 fill hfill
  | gap => cases hfill
  | snapshot updateId bids asks => cases hfill
  | snapshotAt at_ updateId bids asks => cases hfill

theorem isFlat_host (hflat : k.state.isFlat = true) (call : HostCall) :
    (k.host call).state.isFlat = true ∨ ∃ fill, Output.filled fill ∈ k.produced call := by
  cases call with
  | event event =>
    by_cases hfills : k.fillsOf event = []
    · exact Or.inl (isFlat_apply hfills hflat)
    · obtain ⟨fill, hfill⟩ := List.exists_mem_of_ne_nil _ hfills
      exact Or.inr ⟨fill, (k.filled_mem_apply_iff event fill).mpr hfill⟩
  | settleUnreported => exact isFlat_settleUnreported hflat
  | gap => exact Or.inl (State.isFlat_modifyAt (fun _ hx => hx) hflat)
  | snapshot updateId bids asks => exact Or.inl (State.isFlat_modifyAt (fun _ hx => hx) hflat)
  | snapshotAt at_ updateId bids asks => exact Or.inl (State.isFlat_modifyAt (fun _ hx => hx) hflat)

/-! ## Runs -/

theorem Within.hosted (h : Within S k) (calls : List HostCall) :
    Within (k.acceptedIn calls ++ S) (k.hosted calls) := by
  induction calls generalizing k S with
  | nil => exact h
  | cons call rest ih =>
    refine (ih (h.host call)).mono ?_
    intro id hid
    rw [acceptedIn]
    simp only [List.mem_append] at hid ⊢
    tauto

theorem RunLeavesNone.append {first second : List HostCall}
    (h : k.RunLeavesNone (first ++ second)) : (k.hosted first).RunLeavesNone second := by
  induction first generalizing k with
  | nil => exact h
  | cons call rest ih => exact ih h.2

/-- A flat account loses its flatness to a fill. -/
theorem exists_produced_of_not_flat (calls : List HostCall) (hflat : k.state.isFlat = true)
    (hopen : (k.hosted calls).state.isFlat = false) :
    ∃ done call rest fill, calls = done ++ call :: rest ∧
      Output.filled fill ∈ (k.hosted done).produced call := by
  induction calls generalizing k with
  | nil =>
    have hopen : k.state.isFlat = false := hopen
    rw [hflat] at hopen
    cases hopen
  | cons call rest ih =>
    rcases isFlat_host hflat call with hstay | ⟨fill, hfill⟩
    · obtain ⟨done, call', rest', fill, rfl, hfill⟩ := ih hstay hopen
      exact ⟨call :: done, call', rest', fill, rfl, hfill⟩
    · exact ⟨[], call, rest, fill, rfl, hfill⟩

/-- An event that liquidates leaves what its check leaves. -/
theorem outstanding_of_liquidated {event : Event} {l : Liquidation}
    (h : Output.liquidated l ∈ (k.apply event).val.outputs) (hnone : k.LeavesNone event) :
    (k.apply event).val.state.outstanding = [] := by
  have hfresh := k.not_liquidated_booked event l
  rw [apply_eq, val_bind] at h ⊢
  unfold settle at h ⊢
  split at h
  · exact absurd h hfresh
  · rename_i price hprice
    have hleaves := hnone price hprice
    unfold Kernel.checkLiquidation at h ⊢
    split at h
    · exact absurd h hfresh
    · rename_i hchecked
      split at h
      · rename_i hliquidatable
        rw [if_neg hchecked, if_pos hliquidatable]
        show ((k.booked event).val.1.state.liquidate price).val.1.outstanding = []
        rw [State.outstanding_liquidate]
        simp only [Bool.or_eq_true, not_or, Bool.not_eq_true', Bool.not_eq_true] at hchecked
        unfold State.leaves at hleaves
        simpa [hchecked, hliquidatable] using hleaves
      · exact absurd h hfresh

/-- **A liquidated account stays liquidated** in a run whose liquidations leave no order
outstanding.  After an event that liquidates, whatever tiers match the holdings, no order is
outstanding; every fill produced from then on is for an order accepted since; and the account, flat,
stays flat until such an order fills. -/
theorem stays_liquidated (k : Kernel) (hsim : k.state.matching = .simulated)
    (before after : List HostCall) (event : Event)
    (hnone : k.RunLeavesNone (before ++ .event event :: after)) :
    let k' := ((k.hosted before).apply event).val
    ∀ l, Output.liquidated l ∈ k'.outputs →
      (∃ (booked : List Output) (closed : List Liquidation),
        k'.outputs = booked ++ closed.map Output.liquidated ∧
        ∀ l', Output.liquidated l' ∉ booked) ∧
      k'.state.outstanding = [] ∧
      (∀ (done rest : List HostCall) (call : HostCall) (fill : Fill), after = done ++ call :: rest →
        Output.filled fill ∈ (k'.hosted done).produced call → fill.order ∈ k'.acceptedIn done) ∧
      k'.state.isFlat = true ∧
      ∀ done rest : List HostCall, after = done ++ rest → (k'.hosted done).state.isFlat = false →
        ∃ first call last fill, done = first ++ call :: last ∧
          Output.filled fill ∈ (k'.hosted first).produced call ∧
          fill.order ∈ k'.acceptedIn first := by
  intro k' l hl
  have hstart : Within k.state.outstanding k :=
    ⟨fun x hx id hid => List.mem_flatMap.mpr ⟨x, hx, hid⟩, hsim⟩
  have hmatching := ((hstart.hosted before).apply event).simulated
  obtain ⟨-, hflat, closed, houtputs⟩ := of_liquidated hl
  have hempty : k'.state.outstanding = [] := outstanding_of_liquidated hl hnone.append.1
  have hk' : Within [] k' := by
    refine ⟨fun x hx => ?_, hmatching⟩
    rw [List.flatMap_eq_nil_iff.mp hempty x hx]
    exact List.Subset.refl _
  -- nothing was outstanding, so what fills was accepted since
  have hsince : ∀ done call fill, Output.filled fill ∈ (k'.hosted done).produced call →
      fill.order ∈ k'.acceptedIn done := by
    intro done call fill hfill
    have hmem := (hk'.hosted done).produced hfill
    rwa [List.append_nil] at hmem
  refine ⟨⟨_, closed, houtputs, not_liquidated_booked _ _⟩, hempty, ?_, hflat, ?_⟩
  · intro done rest call fill _ hfill
    exact hsince done call fill hfill
  · intro done rest _ hopen
    obtain ⟨first, call, last, fill, hdone, hfill⟩ := exists_produced_of_not_flat done hflat hopen
    exact ⟨first, call, last, fill, hdone, hfill, hsince first call fill hfill⟩

/-- One instrument matched by L1, told of its fills ten nanoseconds late. -/
def lateAccount : State :=
  (State.new 7 ⟨10⟩ flatTable 10000).matchingWith (.l1 (L1Engine.new 7 L1Engine.latePolicy)) rfl

/-- A position, told of at its tenth nanosecond. -/
def lateOpening : List Event :=
  [.submit (some 7) 1 .buy none 50 .opening ⟨1, 1⟩,
    .tick (some 7) ⟨⟨2, 2⟩, 100, 101, 99, 99, 100, 10⟩,
    .tick (some 7) ⟨⟨12, 12⟩, 100, 101, 99, 99, 100, 10⟩]

/-- The tick that liquidates it. -/
def plunge : Event := .tick (some 7) ⟨⟨15, 15⟩, 70, 70, 70, 69, 70, 10⟩

/-- Nothing is held back when the account is liquidated, and a new order fills at the end. -/
theorem stays_liquidated_lateAccount :
    let k := (((Kernel.new lateAccount).hosted (lateOpening.map .event)).apply plunge).val
    k.state.outstanding = [] ∧ k.state.isFlat = true ∧ (k.hosted [
      .event (.marginDeposit 10000 16), .event (.submit (some 7) 3 .buy none 5 .opening ⟨17, 17⟩),
      .event (.tick (some 7) ⟨⟨18, 18⟩, 70, 70, 70, 69, 70, 10⟩),
      .settleUnreported]).state.isFlat = false := by
  have hliquidated : Output.liquidated ⟨15, 70, 50, 0, -5000, 7, 50, 0⟩ ∈
      (((Kernel.new lateAccount).hosted (lateOpening.map .event)).apply plunge).val.outputs := by
    decide +kernel
  have hstays := stays_liquidated (Kernel.new lateAccount) rfl (lateOpening.map .event) [] plunge
    (by decide +kernel) _ hliquidated
  exact ⟨hstays.2.1, hstays.2.2.2.1, by decide +kernel⟩

/-- A second order is executed a nanosecond before the tick that liquidates the account. -/
def lateRun : List Event :=
  lateOpening ++ [.submit (some 7) 2 .buy none 10 .opening ⟨13, 13⟩,
    .tick (some 7) ⟨⟨14, 14⟩, 100, 101, 99, 99, 100, 10⟩, plunge]

/-- **A fill held back reopens a position on a zero balance.**  The order of it was accepted before
the liquidation, and none since; a later tick releases the fill, and so does the end of the run. -/
theorem held_back_fill_reopens :
    let k := ((Kernel.new lateAccount).run lateRun).val
    let later : Event := .tick (some 7) ⟨⟨30, 30⟩, 130, 130, 130, 129, 130, 10⟩
    lateAccount.Built 10000 ∧ lateAccount.matching = .simulated ∧
      (∃ l, Output.liquidated l ∈ k.outputs) ∧ k.state.isFlat = true ∧ k.state.balance = 0 ∧
      (Kernel.new lateAccount).accepted lateRun = [1, 2] ∧ k.accepted [later] = [] ∧
      (∃ fill : Fill, fill.order = 2 ∧ Output.filled fill ∈ (k.apply later).val.outputs) ∧
      (k.apply later).val.state.isFlat = false ∧
      (∃ fill : Fill, fill.order = 2 ∧ Output.filled fill ∈ k.settleUnreported.val.outputs) ∧
      k.settleUnreported.val.state.isFlat = false := by
  have hbuilt : lateAccount.Built 10000 :=
    .matchingWith (.new 7 ⟨10⟩ flatTable) (.l1 7 L1Engine.latePolicy) rfl
  have hliquidated : Output.liquidated ⟨15, 70, 50, 0, -5000, 7, 50, 0⟩ ∈
      ((Kernel.new lateAccount).run lateRun).val.outputs := by
    decide +kernel
  have hfill : Output.filled ⟨⟨14, 14⟩, 7, 2, 2, .buy, .opening, 100, 10, .taker⟩ ∈
      (((Kernel.new lateAccount).run lateRun).val.apply
        (.tick (some 7) ⟨⟨30, 30⟩, 130, 130, 130, 129, 130, 10⟩)).val.outputs := by
    decide +kernel
  have hsettled : Output.filled ⟨⟨14, 14⟩, 7, 2, 2, .buy, .opening, 100, 10, .taker⟩ ∈
      ((Kernel.new lateAccount).run lateRun).val.settleUnreported.val.outputs := by
    decide +kernel
  exact ⟨hbuilt, rfl, ⟨_, hliquidated⟩, by decide +kernel, by decide +kernel, by decide +kernel,
    by decide +kernel, ⟨_, rfl, hfill⟩, by decide +kernel, ⟨_, rfl, hsettled⟩, by decide +kernel⟩

end Kernel
