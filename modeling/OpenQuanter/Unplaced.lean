/-
# No matcher reads when an order was placed

An order carries the stamp it was placed with, and the matchers carry it along.  `unplaced`
forgets the stamps of all the orders a matcher holds, and every operation of the three tiers
commutes with it: the fills of a matcher are the fills of the one that forgot.  The time an
order is sent is another matter: a tier with entry latency counts from it (`submitQueue`).
-/
import OpenQuanter.Matcher

/-! ## Orders and books -/

/-- The same order with its stamp forgotten. -/
def Working.unplaced (w : Working) : Working :=
  { w with order := { w.order with placed := ⟨0, 0⟩ } }

/-- The same resting order with its stamp forgotten. -/
def Resting.unplaced (r : Resting) : Resting := { r with order := r.order.unplaced }

@[simp] theorem Working.unplaced_id (w : Working) : w.unplaced.id = w.id := rfl

@[simp] theorem Working.unplaced_side (w : Working) : w.unplaced.side = w.side := rfl

@[simp] theorem Working.unplaced_price (w : Working) : w.unplaced.price = w.price := rfl

@[simp] theorem Resting.unplaced_id (r : Resting) : r.unplaced.id = r.id := rfl

@[simp] theorem Resting.unplaced_price (r : Resting) : r.unplaced.price = r.price := rfl

@[simp] theorem Resting.unplaced_order (r : Resting) : r.unplaced.order = r.order.unplaced := rfl

@[simp] theorem Resting.unplaced_arrival (r : Resting) : r.unplaced.arrival = r.arrival := rfl

namespace Book

/-- The same book with the stamps of its orders forgotten. -/
def unplaced (b : Book) : Book where
  bids := b.bids.map Resting.unplaced
  asks := b.asks.map Resting.unplaced
  marketBuys := b.marketBuys.map Resting.unplaced
  marketSells := b.marketSells.map Resting.unplaced
  nextArrival := b.nextArrival

variable (b : Book)

theorem iter_unplaced : b.unplaced.iter = b.iter.map Resting.unplaced := by
  simp [iter, unplaced]

theorem len_unplaced : b.unplaced.len = b.len := by
  simp [len, unplaced]

theorem restingIds_unplaced : b.unplaced.restingIds = b.restingIds := by
  unfold restingIds
  rw [iter_unplaced, List.map_map]
  rfl

theorem insertAt_unplaced {before : Resting → Bool} (hbefore : before ∘ Resting.unplaced = before)
    (r : Resting) (side : List Resting) :
    insertAt before r.unplaced (side.map Resting.unplaced) =
      (insertAt before r side).map Resting.unplaced := by
  unfold insertAt
  rw [List.takeWhile_map, List.dropWhile_map, hbefore, List.map_append, List.map_cons]

theorem insert_unplaced (w : Working) : b.unplaced.insert w.unplaced = (b.insert w).unplaced := by
  unfold insert
  simp only [Working.unplaced_side, Working.unplaced_price]
  rcases w.side with _ | _ <;> rcases w.price with _ | price
  · simp [unplaced, Resting.unplaced]
  · simp only [unplaced]
    congr 1
    exact insertAt_unplaced rfl ⟨w, b.nextArrival⟩ b.bids
  · simp [unplaced, Resting.unplaced]
  · simp only [unplaced]
    congr 1
    exact insertAt_unplaced rfl ⟨w, b.nextArrival⟩ b.asks

theorem drop_unplaced (id : OrderId) : b.unplaced.drop id = (b.drop id).unplaced := by
  have hany : ∀ l : List Resting, (l.map Resting.unplaced).any (·.id = id) = l.any (·.id = id) := by
    intro l
    rw [List.any_map]
    rfl
  have herase : ∀ l : List Resting, (l.map Resting.unplaced).eraseP (·.id = id) =
      (l.eraseP (·.id = id)).map Resting.unplaced := by
    intro l
    rw [List.eraseP_map]
    rfl
  unfold drop onSide
  simp only [unplaced, hany, herase]
  split_ifs <;> rfl

end Book

/-! ## L0 -/

namespace L0Engine

/-- The same engine with the stamps of its orders forgotten. -/
def unplaced (e : L0Engine) : L0Engine := { e with book := e.book.unplaced }

variable (e : L0Engine)

theorem submit_unplaced (w : Working) : e.unplaced.submit w.unplaced = (e.submit w).unplaced := by
  unfold submit
  simp only [unplaced, Book.insert_unplaced]

theorem cancel_unplaced (id : OrderId) : (e.unplaced.cancel id).1 = (e.cancel id).1.unplaced := by
  show ({ e with book := e.book.unplaced.drop id } : L0Engine) = _
  rw [Book.drop_unplaced]
  rfl

theorem cancelAll_unplaced : e.unplaced.cancelAll.1 = e.cancelAll.1.unplaced := by
  have hfold : ∀ (ids : List OrderId) (b : Book),
      ids.foldl (fun b id => (b.remove id).2) b.unplaced =
        (ids.foldl (fun b id => (b.remove id).2) b).unplaced := by
    intro ids
    induction ids with
    | nil => exact fun b => rfl
    | cons id rest ih =>
      intro b
      rw [List.foldl_cons, List.foldl_cons, ← ih]
      show rest.foldl _ (b.unplaced.drop id) = _
      rw [Book.drop_unplaced]
      rfl
  show ({ e with book := e.book.unplaced.restingIds.foldl _ e.book.unplaced } : L0Engine) = _
  rw [Book.restingIds_unplaced, hfold]
  rfl

theorem executeAt_unplaced (r : Resting) (price : PriceTicks) (liquidity : Liquidity)
    (reason : FillReason) (stamp : Stamp) :
    e.unplaced.executeAt r.unplaced price liquidity reason stamp =
      (e.executeAt r price liquidity reason stamp).unplaced := by
  rw [executeAt_eq, executeAt_eq]
  simp only [unplaced, Resting.unplaced_id, Book.drop_unplaced]
  rfl

/-- A run of executions that commutes step by step. -/
theorem foldl_unplaced {α : Type} {f f' : L0Engine → α → L0Engine}
    (hf : ∀ e a, f' e.unplaced a = (f e a).unplaced) (l : List α) (e : L0Engine) :
    l.foldl f' e.unplaced = (l.foldl f e).unplaced := by
  induction l generalizing e with
  | nil => rfl
  | cons a rest ih => rw [List.foldl_cons, List.foldl_cons, hf, ih]

theorem gapExecute_unplaced (tick : Tick) (candidate : Nat × OrderId) :
    gapExecute tick e.unplaced candidate = (gapExecute tick e candidate).unplaced := by
  have hfind : e.unplaced.book.iter.find? (·.id = candidate.2) =
      (e.book.iter.find? (·.id = candidate.2)).map Resting.unplaced := by
    show e.book.unplaced.iter.find? _ = _
    rw [Book.iter_unplaced, List.find?_map]
    rfl
  unfold gapExecute
  rw [hfind]
  generalize e.book.iter.find? _ = found
  rcases found with _ | r
  · rfl
  · exact e.executeAt_unplaced r _ _ _ _

theorem gapCandidates_unplaced (prev : PriceTicks) (tick : Tick) :
    e.unplaced.gapCandidates prev tick =
      (e.gapCandidates prev tick).map Resting.unplaced := by
  unfold gapCandidates
  simp only [unplaced, Book.unplaced]
  split_ifs
  · rw [List.filter_map]
    rfl
  · rw [List.filter_map]
    rfl
  · rfl

theorem gapFill_unplaced (tick : Tick) : e.unplaced.gapFill tick = (e.gapFill tick).unplaced := by
  have hprev : e.unplaced.prevPrice = e.prevPrice := rfl
  unfold gapFill
  rw [hprev]
  rcases e.prevPrice with _ | prev
  · rfl
  · simp only [gapCandidates_unplaced, List.map_map]
    exact foldl_unplaced (fun e c => e.gapExecute_unplaced tick c) _ e

theorem executeMarket_unplaced (tick : Tick) (reference : PriceTicks) (orders : List Resting) :
    executeMarket tick reference (orders.map Resting.unplaced) e.unplaced =
      (executeMarket tick reference orders e).unplaced := by
  unfold executeMarket
  rw [List.foldl_map]
  exact foldl_unplaced (fun e r => e.executeAt_unplaced r _ _ _ _) orders e

theorem crossMarket_unplaced (tick : Tick) :
    e.unplaced.crossMarket tick = (e.crossMarket tick).unplaced := by
  show executeMarket tick _ (executeMarket tick _ (e.book.marketBuys.map Resting.unplaced)
    e.unplaced).book.marketSells (executeMarket tick _ (e.book.marketBuys.map Resting.unplaced)
    e.unplaced) = _
  rw [executeMarket_unplaced]
  exact executeMarket_unplaced _ _ _ _

theorem crossSide_unplaced {side : Book → List Resting}
    (hside : ∀ b : Book, side b.unplaced = (side b).map Resting.unplaced)
    (missed : PriceTicks → Bool) (fillPrice : PriceTicks → PriceTicks) (tick : Tick) (fuel : Nat) :
    crossSide side missed fillPrice tick fuel e.unplaced =
      (crossSide side missed fillPrice tick fuel e).unplaced := by
  induction fuel generalizing e with
  | zero => rfl
  | succ fuel ih =>
    have hbook : side e.unplaced.book = (side e.book).map Resting.unplaced := hside e.book
    unfold crossSide
    rw [hbook]
    rcases side e.book with _ | ⟨best, rest⟩
    · rfl
    · simp only [List.map_cons, Resting.unplaced_price]
      rcases best.price with _ | price
      · rfl
      · simp only
        split
        · rfl
        · rw [← ih]
          exact congrArg _ (e.executeAt_unplaced best _ _ _ _)

theorem cross_unplaced (tick : Tick) : e.unplaced.cross tick = (e.cross tick).unplaced := by
  have hbids : ∀ e : L0Engine, crossBids tick e.unplaced = (crossBids tick e).unplaced := by
    intro e
    unfold crossBids
    rw [show e.unplaced.book.len = e.book.len from Book.len_unplaced e.book]
    exact e.crossSide_unplaced (fun _ => rfl) _ _ _ _
  have hasks : ∀ e : L0Engine, crossAsks tick e.unplaced = (crossAsks tick e).unplaced := by
    intro e
    unfold crossAsks
    rw [show e.unplaced.book.len = e.book.len from Book.len_unplaced e.book]
    exact e.crossSide_unplaced (fun _ => rfl) _ _ _ _
  unfold cross
  simp only [crossMarket_unplaced]
  split_ifs <;> simp only [hbids, hasks]

/-- **A tick of L0 does not read when an order was placed.** -/
theorem onTick_unplaced (tick : Tick) : e.unplaced.onTick tick = (e.onTick tick).unplaced := by
  have hstart : ({ e.unplaced with fills := [] } : L0Engine) =
      ({ e with fills := [] } : L0Engine).unplaced := rfl
  unfold onTick
  simp only [hstart, gapFill_unplaced, cross_unplaced]
  rfl

end L0Engine

/-! ## L1 -/

namespace L1Engine

/-- The same entry with the stamp of its order forgotten. -/
def unplacedPending (p : Pending) : Pending := { p with order := p.order.unplaced }

def unplacedQueued (q : Queued) : Queued := { q with order := q.order.unplaced }

/-- The same engine with the stamps of its orders forgotten. -/
def unplaced (e : L1Engine) : L1Engine :=
  { e with
    inner := e.inner.unplaced
    pending := e.pending.map unplacedPending
    queued := e.queued.map unplacedQueued }

variable (e : L1Engine)

theorem admitOrder_unplaced (w : Working) (volume measured : Option Int64)
    (since : Option Nanos) :
    e.unplaced.admitOrder w.unplaced volume measured since =
      (e.admitOrder w volume measured since).unplaced := by
  unfold admitOrder
  simp only [Working.unplaced_price]
  have hpolicy : e.unplaced.policy = e.policy := rfl
  rw [hpolicy, apply_ite unplaced]
  congr 1
  · simp [unplaced, unplacedQueued]
  · simp only [unplaced, L0Engine.submit_unplaced]

/-- Sent at one time, an order is delayed and queued alike whatever its stamp. -/
theorem submitQueue_unplaced (w : Working) (now : Nanos) (ahead : Option Int64) (sample : Bool) :
    e.unplaced.submitQueue w.unplaced now ahead sample =
      (e.submitQueue w now ahead sample).unplaced := by
  have hpolicy : e.unplaced.policy = e.policy := rfl
  have hid : w.unplaced.id = w.id := rfl
  have hlast : e.unplaced.lastTraded = e.lastTraded := rfl
  unfold submitQueue
  simp only [hpolicy, hid, hlast, admitOrder_unplaced]
  rw [apply_ite unplaced]
  congr 1
  simp [unplaced, unplacedPending]

theorem submitWhileDepthInvalid_unplaced (w : Working) (now : Nanos) :
    e.unplaced.submitWhileDepthInvalid w.unplaced now =
      (e.submitWhileDepthInvalid w now).unplaced := by
  unfold submitWhileDepthInvalid
  simp [unplaced, unplacedPending]

theorem sampleArrivals_unplaced (now : Nanos) (queue : Side → PriceTicks → Option Int64) :
    e.unplaced.sampleArrivals now queue = (e.sampleArrivals now queue).unplaced := by
  unfold sampleArrivals
  simp only [unplaced, List.map_map]
  congr 1
  apply List.map_congr_left
  intro p _
  simp only [Function.comp_apply]
  rw [apply_ite unplacedPending]
  rfl

theorem cancelAll_unplaced : e.unplaced.cancelAll.1 = e.cancelAll.1.unplaced := by
  show ({ e.unplaced with pending := [], queued := [], inner := e.inner.unplaced.cancelAll.1 } :
    L1Engine) = _
  rw [L0Engine.cancelAll_unplaced]
  rfl

theorem invalidateDepth_unplaced : e.unplaced.invalidateDepth = e.invalidateDepth.unplaced := by
  unfold invalidateDepth
  simp only [unplaced, List.map_map]
  rfl

theorem requeue_unplaced (queue : Side → PriceTicks → Int64) (r : Resting) :
    requeue queue e.unplaced r.unplaced = (requeue queue e r).unplaced := by
  unfold requeue
  simp only [Resting.unplaced_order, Working.unplaced_price, Working.unplaced_side,
    Resting.unplaced_id]
  rcases r.order.price with _ | price
  · rfl
  · simp only
    rw [apply_ite unplaced]
    congr 1
    have hcancel : (e.unplaced.inner.cancel r.id).1 = (e.inner.cancel r.id).1.unplaced :=
      e.inner.cancel_unplaced r.id
    rw [hcancel]
    simp [unplaced, unplacedQueued]

theorem resumeDepth_unplaced (queue : Side → PriceTicks → Int64) :
    e.unplaced.resumeDepth queue = (e.resumeDepth queue).unplaced := by
  have hstart : ({ e.unplaced with
      prevVolume := none, prevAt := none, inner := e.unplaced.inner.forgetPricePath } : L1Engine) =
      ({ e with prevVolume := none, prevAt := none, inner := e.inner.forgetPricePath } :
        L1Engine).unplaced := rfl
  have hfold : ∀ (l : List Resting) (e : L1Engine),
      (l.map Resting.unplaced).foldl (requeue queue) e.unplaced =
        (l.foldl (requeue queue) e).unplaced := by
    intro l
    induction l with
    | nil => exact fun e => rfl
    | cons r rest ih =>
      intro e
      rw [List.map_cons, List.foldl_cons, List.foldl_cons, requeue_unplaced, ih]
  have hsorted : ∀ l : List Resting,
      (l.map Resting.unplaced).insertionSort (fun a b => a.arrival ≤ b.arrival) =
        (l.insertionSort (fun a b => a.arrival ≤ b.arrival)).map Resting.unplaced := by
    intro l
    exact (List.map_insertionSort _ (fun a b : Resting => a.arrival ≤ b.arrival)
      Resting.unplaced l (fun _ _ _ _ => Iff.rfl)).symm
  have hiter : e.unplaced.inner.forgetPricePath.book.iter =
      e.inner.book.iter.map Resting.unplaced := e.inner.book.iter_unplaced
  unfold resumeDepth
  simp only [hstart]
  rw [hiter, hsorted, hfold]
  simp only [unplaced, List.map_map]
  congr 1
  apply List.map_congr_left
  intro q _
  simp only [Function.comp_apply, unplacedQueued, Working.unplaced_price, Working.unplaced_side]
  rcases q.order.price with _ | price <;> rfl

theorem arrive_unplaced (now : Nanos) (traded : Int64) :
    e.unplaced.arrive now traded = (e.arrive now traded).unplaced := by
  have hfold : ∀ (l : List Pending) (e : L1Engine),
      (l.map unplacedPending).foldl
          (fun e p => e.admitOrder p.order (some traded) p.measuredAhead p.since) e.unplaced =
        (l.foldl (fun e p => e.admitOrder p.order (some traded) p.measuredAhead p.since)
          e).unplaced := by
    intro l
    induction l with
    | nil => exact fun e => rfl
    | cons p rest ih =>
      intro e
      rw [List.map_cons, List.foldl_cons, List.foldl_cons, ← ih]
      congr 1
      exact e.admitOrder_unplaced p.order (some traded) p.measuredAhead p.since
  have hfilter : ∀ p : Pending → Bool, p ∘ unplacedPending = p →
      (e.pending.map unplacedPending).filter p = (e.pending.filter p).map unplacedPending := by
    intro p hp
    rw [List.filter_map, hp]
  unfold arrive
  have hstart : ({ e.unplaced with
      pending := e.unplaced.pending.filter (fun p => !(p.liveAt ≤ now)) } : L1Engine) =
      ({ e with pending := e.pending.filter (fun p =>
        !(p.liveAt ≤ now)) } : L1Engine).unplaced := by
    simp only [unplaced]
    rw [hfilter _ rfl]
  simp only [hstart]
  rw [show e.unplaced.pending = e.pending.map unplacedPending from rfl, hfilter _ rfl, hfold]

/-- The same for what an observation does to a queued order. -/
def unplacedResult (d : Queued × Bool) : Queued × Bool := (unplacedQueued d.1, d.2)

theorem promote_unplaced (tick : Tick) (traded : Int64) :
    e.unplaced.promote tick traded = (e.promote tick traded).unplaced := by
  have hone : ∀ q : Queued, (unplacedQueued q).onTick tick traded e.prevAt =
      unplacedResult (q.onTick tick traded e.prevAt) := by
    intro q
    have hprice : (unplacedQueued q).order.price = q.order.price := rfl
    unfold Queued.onTick
    rw [hprice, apply_ite unplacedResult]
    congr 1
    rcases q.order.price with _ | price
    · rfl
    · simp only
      rw [apply_ite unplacedResult]
      rfl
  have hdepleted : e.unplaced.queued.map (fun q => q.onTick tick traded e.prevAt) =
      (e.queued.map (fun q => q.onTick tick traded e.prevAt)).map unplacedResult := by
    show (e.queued.map unplacedQueued).map _ = _
    rw [List.map_map, List.map_map]
    exact List.map_congr_left (fun q _ => hone q)
  have hprev : e.unplaced.prevAt = e.prevAt := rfl
  unfold promote
  simp only [hprev, hdepleted]
  generalize e.queued.map (fun q => q.onTick tick traded e.prevAt) = depleted
  have hfilter : ∀ p : Queued × Bool → Bool, p ∘ unplacedResult = p →
      (depleted.map unplacedResult).filter p = (depleted.filter p).map unplacedResult := by
    intro p hp
    rw [List.filter_map, hp]
  have hfold : ∀ (l : List Working) (e : L0Engine),
      (l.map Working.unplaced).foldl L0Engine.submit e.unplaced =
        (l.foldl L0Engine.submit e).unplaced := by
    intro l
    induction l with
    | nil => exact fun e => rfl
    | cons w rest ih =>
      intro e
      rw [List.map_cons, List.foldl_cons, List.foldl_cons, L0Engine.submit_unplaced, ih]
  rw [hfilter _ rfl, hfilter _ rfl]
  simp only [unplaced, List.map_map]
  rw [show ((fun d : Queued × Bool => d.1.order) ∘ unplacedResult) =
    Working.unplaced ∘ fun d : Queued × Bool => d.1.order from rfl, ← List.map_map, hfold]
  rfl

theorem release_unplaced (now : Nanos) (fills : List L0Fill) :
    e.unplaced.release now fills = (e.release now fills).unplaced := by
  have hpolicy : e.unplaced.policy = e.policy := rfl
  unfold release
  rw [hpolicy]
  split <;> rfl

theorem onTickWithImpact_unplaced {σ : Type} (tick : Tick) (measured : Measure σ) (s : σ) :
    e.unplaced.onTickWithImpact tick measured s =
      ((e.onTickWithImpact tick measured s).1.unplaced,
        (e.onTickWithImpact tick measured s).2) := by
  have htraded : e.unplaced.tradedVolume tick = e.tradedVolume tick := rfl
  unfold onTickWithImpact
  simp only [htraded, arrive_unplaced, promote_unplaced]
  generalize (e.arrive tick.stamp.exch (e.tradedVolume tick)).promote tick (e.tradedVolume tick) = f
  have hinner : f.unplaced.inner.onTick tick = (f.inner.onTick tick).unplaced :=
    L0Engine.onTick_unplaced _ _
  have hpolicy : f.unplaced.policy = f.policy := rfl
  rw [hinner, hpolicy]
  generalize f.inner.onTick tick = inner
  have hfills : inner.unplaced.fills = inner.fills := rfl
  rw [hfills]
  generalize adjust f.policy tick (e.tradedVolume tick) measured s inner.fills = r
  have hrelease := release_unplaced { f with inner := inner } tick.stamp.exch r.1
  exact congrArg (fun g : L1Engine => (({ g with
    lastTraded := if g.prevVolume.isSome then some (e.tradedVolume tick) else g.lastTraded
    prevVolume := some tick.volume
    prevAt := some tick.stamp.exch } : L1Engine), r.2)) hrelease

end L1Engine

/-! ## L2 and the tiers -/

namespace L2Engine

/-- The same engine with the stamps of its orders forgotten. -/
def unplaced (e : L2Engine) : L2Engine := { e with inner := e.inner.unplaced }

variable (e : L2Engine)

theorem submit_unplaced (w : Working) (now : Nanos) :
    e.unplaced.submit w.unplaced now = (e.submit w now).unplaced := by
  unfold submit
  rw [apply_ite unplaced]
  congr 1
  · simp only [unplaced, L1Engine.submitWhileDepthInvalid_unplaced]
  · simp only [unplaced, Working.unplaced_price, Working.unplaced_side, L1Engine.submitFromBook,
      L1Engine.submitQueue_unplaced]

theorem onGap_unplaced : e.unplaced.onGap = e.onGap.unplaced := by
  unfold onGap
  simp only [unplaced, L1Engine.invalidateDepth_unplaced]

theorem installSnapshot_unplaced (updateId : UInt64) (bids asks : List Level) :
    e.unplaced.installSnapshot updateId bids asks =
      (e.installSnapshot updateId bids asks).unplaced := by
  have hinvalid : e.unplaced.invalid = e.invalid := rfl
  unfold installSnapshot
  simp only [hinvalid]
  by_cases h : e.invalid = true
  · simp only [h, if_true]
    simp only [unplaced, L1Engine.resumeDepth_unplaced]
  · simp only [h]
    rfl

theorem installSnapshotAt_unplaced (at_ : Nanos) (updateId : UInt64) (bids asks : List Level) :
    e.unplaced.installSnapshotAt at_ updateId bids asks =
      (e.installSnapshotAt at_ updateId bids asks).unplaced := by
  have hinvalid : e.unplaced.invalid = e.invalid := rfl
  have hsample : ({ e.unplaced with
      inner := e.unplaced.inner.sampleArrivals (satSub at_ 1)
        (queueFrom e.unplaced.venue e.unplaced.hasSnapshot) } : L2Engine) =
      ({ e with
        inner := e.inner.sampleArrivals (satSub at_ 1) (queueFrom e.venue e.hasSnapshot) } :
          L2Engine).unplaced := by
    simp only [unplaced, L1Engine.sampleArrivals_unplaced]
  unfold installSnapshotAt
  simp only [hinvalid]
  by_cases h : (!e.invalid) = true
  · simp only [if_pos h]
    refine Eq.trans ?_ (installSnapshot_unplaced _ _ _ _)
    exact congrArg (·.installSnapshot updateId bids asks) hsample
  · simp only [if_neg h]
    exact installSnapshot_unplaced _ _ _ _

theorem onDepth_unplaced (update : DepthUpdate) :
    e.unplaced.onDepth update = ((e.onDepth update).1.unplaced, (e.onDepth update).2) := by
  have hvenue : e.unplaced.venue = e.venue := rfl
  have hsnapshot : e.unplaced.hasSnapshot = e.hasSnapshot := rfl
  have hinner : e.unplaced.inner = e.inner.unplaced := rfl
  unfold onDepth
  simp only [hvenue, hsnapshot, hinner, L1Engine.sampleArrivals_unplaced]
  rcases e.venue.apply update with err | ⟨taken, venue⟩
  · exact congrArg (fun g : L2Engine => (g, (Except.error err : Except SequenceError Unit)))
      (onGap_unplaced { e with
        inner := e.inner.sampleArrivals (satSub (satMul update.eventMs 1000000) 1)
          (queueFrom e.venue e.hasSnapshot)
        refused := e.refused + 1 })
  · rfl

theorem onTick_unplaced (tick : Tick) : e.unplaced.onTick tick = (e.onTick tick).unplaced := by
  have hstate : e.unplaced.invalid = e.invalid ∧ e.unplaced.recoveryBar = e.recoveryBar ∧
      e.unplaced.venue = e.venue ∧ e.unplaced.hasSnapshot = e.hasSnapshot ∧
      e.unplaced.inner = e.inner.unplaced := ⟨rfl, rfl, rfl, rfl, rfl⟩
  obtain ⟨hinvalid, hbar, hvenue, hsnapshot, hinner⟩ := hstate
  unfold onTick
  rw [hinvalid, hbar, hvenue, hsnapshot, hinner]
  by_cases h : (e.invalid || e.recoveryBar) = true
  · rw [if_pos h, if_pos h]
    rfl
  · rw [if_neg h, if_neg h]
    simp only [L1Engine.sampleArrivals_unplaced]
    generalize e.inner.sampleArrivals tick.stamp.exch (queueFrom e.venue e.hasSnapshot) = inner
    rw [L1Engine.onTickWithImpact_unplaced]
    rfl

theorem cancelAll_unplaced : e.unplaced.cancelAll.1 = e.cancelAll.1.unplaced := by
  show ({ e.unplaced with inner := e.inner.unplaced.cancelAll.1 } : L2Engine) = _
  rw [L1Engine.cancelAll_unplaced]
  rfl

end L2Engine

namespace Matcher

/-- The same matcher with the stamps of its orders forgotten. -/
def unplaced : Matcher → Matcher
  | .l0 e => .l0 e.unplaced
  | .l1 e => .l1 e.unplaced
  | .l2 e => .l2 e.unplaced

variable (m : Matcher)

theorem submit_unplaced (w : Working) (now : Nanos) :
    m.unplaced.submit w.unplaced now = (m.submit w now).unplaced := by
  cases m with
  | l0 e => exact congrArg Matcher.l0 (e.submit_unplaced w)
  | l1 e => exact congrArg Matcher.l1 (e.submitQueue_unplaced w now none false)
  | l2 e => exact congrArg Matcher.l2 (e.submit_unplaced w now)

/-- **No tier reads at a tick when an order was placed.** -/
theorem onTick_unplaced (tick : Tick) : m.unplaced.onTick tick = (m.onTick tick).unplaced := by
  cases m with
  | l0 e => exact congrArg Matcher.l0 (e.onTick_unplaced tick)
  | l1 e =>
    have h := e.onTickWithImpact_unplaced tick (fun s _ _ => (none, s)) ()
    exact congrArg Matcher.l1 (congrArg Prod.fst h)
  | l2 e => exact congrArg Matcher.l2 (e.onTick_unplaced tick)

theorem fills_unplaced : m.unplaced.fills = m.fills := by
  cases m <;> rfl

theorem cancelAll_unplaced : m.unplaced.cancelAll.1 = m.cancelAll.1.unplaced := by
  cases m with
  | l0 e => exact congrArg Matcher.l0 e.cancelAll_unplaced
  | l1 e => exact congrArg Matcher.l1 e.cancelAll_unplaced
  | l2 e => exact congrArg Matcher.l2 e.cancelAll_unplaced

theorem onDepth_unplaced (update : DepthUpdate) :
    (m.unplaced.onDepth update).1 = (m.onDepth update).1.unplaced := by
  cases m with
  | l0 e => rfl
  | l1 e => rfl
  | l2 e =>
    simp only [unplaced, onDepth, L2Engine.onDepth_unplaced]
    rcases e.onDepth update with ⟨e', err | ok⟩ <;> rfl

theorem onGap_unplaced : m.unplaced.onGap.1 = m.onGap.1.unplaced := by
  cases m with
  | l0 e => rfl
  | l1 e => rfl
  | l2 e => exact congrArg Matcher.l2 e.onGap_unplaced

theorem installSnapshot_unplaced (updateId : UInt64) (bids asks : List Level) :
    (m.unplaced.installSnapshot updateId bids asks).1 =
      (m.installSnapshot updateId bids asks).1.unplaced := by
  cases m with
  | l0 e => rfl
  | l1 e => rfl
  | l2 e => exact congrArg Matcher.l2 (e.installSnapshot_unplaced updateId bids asks)

theorem installSnapshotAt_unplaced (at_ : Nanos) (updateId : UInt64) (bids asks : List Level) :
    (m.unplaced.installSnapshotAt at_ updateId bids asks).1 =
      (m.installSnapshotAt at_ updateId bids asks).1.unplaced := by
  cases m with
  | l0 e => rfl
  | l1 e => rfl
  | l2 e => exact congrArg Matcher.l2 (e.installSnapshotAt_unplaced at_ updateId bids asks)

/-! ## When an order is sent -/

/-- Whether a matcher rests a market order without reading when it was sent: L0, L1 without
entry latency, and L2 when the order has none and the book is valid. -/
def immediate (id : OrderId) : Matcher → Bool
  | .l0 _ => true
  | .l1 e => e.policy.latency.entry.isZero
  | .l2 e => !e.invalid && !decide (0 < e.inner.policy.latency.entry.at_ id)

theorem submit_of_immediate {m : Matcher} {w : Working} (h : m.immediate w.id = true)
    (hmarket : w.price = none) (now now' : Nanos) : m.submit w now = m.submit w now' := by
  cases m with
  | l0 e => rfl
  | l1 e =>
    have hzero : e.policy.latency.entry.isZero = true := h
    simp [submit, L1Engine.submit, L1Engine.submitQueue, hzero]
  | l2 e =>
    simp only [immediate, Bool.and_eq_true, Bool.not_eq_true', decide_eq_false_iff_not] at h
    have hadmit : ∀ since, e.inner.admitOrder w e.inner.lastTraded none since =
        { e.inner with inner := e.inner.inner.submit w } := by
      intro since
      unfold L1Engine.admitOrder
      simp [hmarket]
    simp [submit, L2Engine.submit, L1Engine.submitFromBook, L1Engine.submitQueue, h.1, h.2,
      hmarket, hadmit]

end Matcher
