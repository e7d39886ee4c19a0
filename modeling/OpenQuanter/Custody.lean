/-
# Where an order is (`oq-engine/src/l1.rs`, `l2.rs`)

Above the book an order has four more places to be: pending, queued, executed and not yet
told of, or gone.  A diary keeps what a caller of the engine saw: what it submitted, what
was cancelled, which fills it was told of, and beside these the fills the engine made.
After any calls every submitted order is in one place (`every_order_in_one_place`).

A tick of the engine underneath only takes orders off its book, one fill each
(`perm_onTick`).  Every other operation moves orders between the lists of the tier above
(`Shuffled`), withdraws some, or hands fills over.
-/
import OpenQuanter.L0Run
import OpenQuanter.L1Moves

/-! ## Off the book, one fill each -/

namespace L0Engine

/-- What was filled so far and what still rests are, each once, the orders with these
ids. -/
structure Whole (ids : List OrderId) (e : L0Engine) : Prop where
  nodup : e.book.restingIds.Nodup
  perm : (e.filledIds ++ e.book.restingIds).Perm ids

variable {ids : List OrderId} {e : L0Engine}

/-- An execution takes an order off the book and writes one fill. -/
theorem Whole.executeAt (h : Whole ids e) {r : Resting} (hr : r ∈ e.book.iter) (price : PriceTicks)
    (liquidity : Liquidity) (reason : FillReason) (stamp : Stamp) :
    Whole ids (e.executeAt r price liquidity reason stamp) := by
  have hbook := book_executeAt e r price liquidity reason stamp
  have hfilled : (e.executeAt r price liquidity reason stamp).filledIds =
      e.filledIds ++ [r.id] := by
    rw [executeAt_eq]
    simp [filledIds, fillOf]
  have hrest : e.book.restingIds.Perm (r.id :: (e.book.drop r.id).restingIds) :=
    (L1Engine.perm_drop h.nodup hr).map Resting.id
  refine ⟨by rw [hbook]; exact Book.nodup_drop h.nodup r.id, ?_⟩
  rw [hfilled, hbook, List.append_assoc]
  exact (hrest.symm.append_left _).trans h.perm

theorem Whole.executeMarket (h : Whole ids e) {tick : Tick} {reference : PriceTicks}
    {orders : List Resting} (horders : ∀ r ∈ orders, r ∈ e.book.iter)
    (hnd : (orders.map Resting.id).Nodup) : Whole ids (executeMarket tick reference orders e) := by
  induction orders generalizing e with
  | nil => exact h
  | cons r rest ih =>
    rw [List.map_cons, List.nodup_cons] at hnd
    refine ih (h.executeAt (horders r List.mem_cons_self) reference .taker .market tick.stamp)
      ?_ hnd.2
    -- the others rest on: none of them has the id that goes
    intro x hx
    show x ∈ (e.executeAt r reference .taker .market tick.stamp).book.iter
    rw [book_executeAt, Book.mem_iter_drop h.nodup]
    exact ⟨horders x (List.mem_cons_of_mem r hx), fun hid => hnd.1 (hid ▸ List.mem_map_of_mem hx)⟩

theorem Whole.gapExecute (h : Whole ids e) (tick : Tick) (candidate : Nat × OrderId) :
    Whole ids (gapExecute tick e candidate) := by
  unfold L0Engine.gapExecute
  split
  · exact h
  · rename_i r hfind
    exact h.executeAt (List.mem_of_find?_eq_some hfind) _ _ _ _

theorem Whole.gapExecutes (h : Whole ids e) (tick : Tick) (candidates : List (Nat × OrderId)) :
    Whole ids (candidates.foldl (L0Engine.gapExecute tick) e) := by
  induction candidates generalizing e with
  | nil => exact h
  | cons c rest ih => exact ih (h.gapExecute tick c)

theorem Whole.gapFill (h : Whole ids e) (tick : Tick) : Whole ids (e.gapFill tick) := by
  unfold L0Engine.gapFill
  split
  · exact h
  · exact h.gapExecutes tick _

theorem Whole.crossSide {side : Book → List Resting} (hside : ∀ b, ∀ r ∈ side b, r ∈ b.iter)
    (missed : PriceTicks → Bool) (fillPrice : PriceTicks → PriceTicks) (tick : Tick) (fuel : Nat)
    (h : Whole ids e) : Whole ids (crossSide side missed fillPrice tick fuel e) := by
  induction fuel generalizing e with
  | zero => exact h
  | succ fuel ih =>
    unfold L0Engine.crossSide
    split
    · exact h
    · rename_i best rest hbest
      split
      · exact h
      · split_ifs
        · exact h
        · exact ih (h.executeAt (hside e.book best (hbest ▸ List.mem_cons_self)) _ _ _ _)

theorem Whole.crossMarket (h : Whole ids e) (tick : Tick) : Whole ids (e.crossMarket tick) := by
  have hbuys : ∀ b : Book, b.restingIds.Nodup → (b.marketBuys.map Resting.id).Nodup := fun b hb =>
    hb.sublist ((List.sublist_append_right _ _).trans (List.sublist_append_left _ _) |>.map _)
  have hsells : ∀ b : Book, b.restingIds.Nodup → (b.marketSells.map Resting.id).Nodup := fun b hb =>
    hb.sublist ((List.sublist_append_right _ _).map _)
  unfold L0Engine.crossMarket
  simp only
  have hbought : Whole ids
      (L0Engine.executeMarket tick tick.buyFillReference e.book.marketBuys e) :=
    h.executeMarket (fun r hr => by simp [Book.iter, hr]) (hbuys _ h.nodup)
  exact hbought.executeMarket (fun r hr => by simp [Book.iter, hr]) (hsells _ hbought.nodup)

theorem Whole.cross (h : Whole ids e) (tick : Tick) : Whole ids (e.cross tick) := by
  unfold L0Engine.cross
  simp only
  have hmarket := h.crossMarket tick
  have hbids : Whole ids
      (if 0 < tick.buyTrigger then crossBids tick
        (e.crossMarket tick) else e.crossMarket tick) := by
    split_ifs
    · exact hmarket.crossSide (fun b r hr => Book.mem_iter_of_mem_bids hr) _ _ tick _
    · exact hmarket
  split_ifs at hbids ⊢
  all_goals first
    | exact hbids.crossSide (fun b r hr => Book.mem_iter_of_mem_asks hr) _ _ tick _
    | exact hbids

/-- **A tick fills orders of the book and leaves the others**, each of them once. -/
theorem perm_onTick (hnd : e.book.restingIds.Nodup) (tick : Tick) :
    ((e.onTick tick).filledIds ++ (e.onTick tick).book.restingIds).Perm e.book.restingIds :=
  ((Whole.gapFill (e := { e with fills := [] }) ⟨hnd, List.Perm.refl _⟩ tick).cross tick).perm

end L0Engine

/-! ## What a caller keeps -/

/-- What went into the engine and what came out of it. -/
structure Diary where
  submitted : List OrderId
  /-- The fills of the engine underneath, as it made them. -/
  executed : List L0Fill
  released : List L0Fill
  cancelled : List OrderId

namespace Diary

def empty : Diary := ⟨[], [], [], []⟩

def submit (d : Diary) (id : OrderId) : Diary := { d with submitted := d.submitted ++ [id] }

def cancel (d : Diary) (ids : List OrderId) : Diary := { d with cancelled := d.cancelled ++ ids }

/-- An observation: what was made at it, and what was told. -/
def observe (d : Diary) (made told : List L0Fill) : Diary :=
  { d with executed := d.executed ++ made, released := d.released ++ told }

end Diary

/-- A fill but for its price, which the tier above may worsen. -/
def L0Fill.unpriced (f : L0Fill) : L0Fill := f.withPrice 0

namespace L1Engine

/-- The ids of the orders pending, queued and resting. -/
def orderIds (e : L1Engine) : List OrderId := e.orders.map Working.id

/-- Every place an order can be in: with the engine, executed and not told of, released
as a fill, cancelled. -/
def places (e : L1Engine) (d : Diary) : List OrderId :=
  e.pending.map (·.order.id) ++ e.queued.map (·.order.id) ++ e.inner.book.restingIds ++
    e.delayed.map (·.fill.fill.order) ++ d.released.map (·.fill.order) ++ d.cancelled

/-- The diary accounts for every order and every execution. -/
structure Accounted (e : L1Engine) (d : Diary) : Prop where
  placed : (places e d).Perm d.submitted
  executions : ((e.delayed.map Delayed.fill ++ d.released).map L0Fill.unpriced).Perm
    (d.executed.map L0Fill.unpriced)

variable {e e' : L1Engine} {d : Diary}

theorem orderIds_eq (e : L1Engine) :
    e.orderIds = e.pending.map (·.order.id) ++ e.queued.map (·.order.id) ++
      e.inner.book.restingIds := by
  unfold orderIds orders Book.restingIds
  simp only [List.map_append, List.map_map]
  rfl

theorem count_places (e : L1Engine) (d : Diary) (id : OrderId) :
    (places e d).count id = e.orderIds.count id +
      ((e.delayed.map Delayed.fill ++ d.released).map (·.fill.order)).count id +
      d.cancelled.count id := by
  have hdelayed : e.delayed.map (·.fill.fill.order) =
      (e.delayed.map Delayed.fill).map (·.fill.order) := by
    rw [List.map_map]
    rfl
  unfold places
  rw [orderIds_eq, hdelayed]
  simp only [List.map_append, List.count_append]
  omega

theorem Accounted.count (h : Accounted e d) (id : OrderId) :
    d.submitted.count id = e.orderIds.count id +
      ((e.delayed.map Delayed.fill ++ d.released).map (·.fill.order)).count id +
      d.cancelled.count id := by
  rw [← count_places, h.placed.count_eq]

theorem accounted_new (instrument : InstrumentId) (policy : Policy) :
    Accounted (new instrument policy) Diary.empty :=
  ⟨List.Perm.refl _, List.Perm.refl _⟩

/-- With one id for one order, the engine holds each of its orders once. -/
theorem Accounted.nodup (h : Accounted e d) (hnd : d.submitted.Nodup) : e.orderIds.Nodup := by
  rw [List.nodup_iff_count_le_one] at hnd ⊢
  intro id
  have hcount := h.count id
  have hone := hnd id
  omega

theorem Accounted.nodup_inner (h : Accounted e d) (hnd : d.submitted.Nodup) :
    e.inner.book.restingIds.Nodup := by
  have hsub : e.inner.book.restingIds.Sublist e.orderIds := by
    rw [orderIds_eq]
    exact List.sublist_append_right _ _
  exact (h.nodup hnd).sublist hsub

/-! ## Operations that only move orders -/

/-- The engine holds the same orders and `extra`, and awaits the same fills. -/
structure Moved (extra : List Working) (e e' : L1Engine) : Prop where
  shuffled : Shuffled extra e e'
  delayed : e'.delayed = e.delayed

theorem Moved.count {extra : List Working} (h : Moved extra e e') (id : OrderId) :
    e'.orderIds.count id = (extra.map Working.id).count id + e.orderIds.count id := by
  unfold orderIds
  rw [(h.shuffled.orders.map Working.id).count_eq, List.map_append, List.count_append]

/-- Moving orders changes nothing that the diary accounts for. -/
theorem Accounted.moved (h : Accounted e d) (hmoved : Moved [] e e') : Accounted e' d where
  placed := by
    rw [List.perm_iff_count]
    intro id
    have hcount := hmoved.count id
    rw [count_places, h.count id, hmoved.delayed, hcount]
    simp
  executions := by
    rw [hmoved.delayed]
    exact h.executions

/-- A submitted order is held from then on. -/
theorem Accounted.submit (h : Accounted e d) {w : Working} (hmoved : Moved [w] e e') :
    Accounted e' (d.submit w.id) where
  placed := by
    rw [List.perm_iff_count]
    intro id
    have hcount := hmoved.count id
    have hbefore := h.count id
    rw [count_places, hmoved.delayed, hcount]
    simp only [Diary.submit, List.count_append, List.map_cons, List.map_nil]
    omega
  executions := by
    rw [hmoved.delayed]
    exact h.executions

theorem delayed_admitOrder (e : L1Engine) (w : Working) (volume measured : Option Int64)
    (since : Option Nanos) : (e.admitOrder w volume measured since).delayed = e.delayed := by
  unfold admitOrder
  simp only
  split_ifs <;> rfl

theorem moved_submitQueue (e : L1Engine) (w : Working) (now : Nanos) (ahead : Option Int64)
    (sample : Bool) : Moved [w] e (e.submitQueue w now ahead sample) := by
  refine ⟨shuffled_submitQueue e w now ahead sample, ?_⟩
  unfold submitQueue
  simp only
  split_ifs <;> first
    | rfl
    | exact delayed_admitOrder e w _ _ _

theorem moved_arrive (e : L1Engine) (now : Nanos) (traded : Int64) :
    Moved [] e (e.arrive now traded) := by
  have hfold : ∀ (arriving : List Pending) (e : L1Engine), (arriving.foldl (fun e p =>
      e.admitOrder p.order (some traded) p.measuredAhead p.since) e).delayed = e.delayed := by
    intro arriving
    induction arriving with
    | nil => exact fun _ => rfl
    | cons p rest ih => exact fun e => (ih _).trans (delayed_admitOrder e _ _ _ _)
  exact ⟨shuffled_arrive e now traded, hfold _ _⟩

theorem moved_promote (e : L1Engine) (tick : Tick) (traded : Int64) :
    Moved [] e (e.promote tick traded) :=
  ⟨shuffled_promote e tick traded, rfl⟩

theorem moved_sampleArrivals (e : L1Engine) (now : Nanos)
    (queue : Side → PriceTicks → Option Int64) : Moved [] e (e.sampleArrivals now queue) :=
  ⟨shuffled_sampleArrivals e now queue, rfl⟩

theorem moved_invalidateDepth (e : L1Engine) : Moved [] e e.invalidateDepth :=
  ⟨shuffled_invalidateDepth e, rfl⟩

theorem moved_resumeDepth {queue : Side → PriceTicks → Int64}
    (hnd : e.inner.book.restingIds.Nodup) : Moved [] e (e.resumeDepth queue) := by
  have hfold : ∀ (resting : List Resting) (e : L1Engine),
      (resting.foldl (requeue queue) e).delayed = e.delayed := by
    intro resting
    induction resting with
    | nil => exact fun _ => rfl
    | cons r rest ih =>
      intro e
      refine (ih _).trans ?_
      unfold requeue
      split
      · rfl
      · simp only
        split_ifs <;> rfl
  exact ⟨shuffled_resumeDepth hnd, hfold _ _⟩

/-! ## Withdrawing -/

/-- Filtering out an id leaves none of it and all of the others. -/
theorem count_filter_ne {α : Type} (key : α → OrderId) (l : List α) (id x : OrderId) :
    ((l.filter (key · ≠ id)).map key).count x = if x = id then 0 else (l.map key).count x := by
  have hmap : (l.filter (key · ≠ id)).map key = (l.map key).filter (· ≠ id) := by
    rw [List.filter_map]
    rfl
  rw [hmap]
  split_ifs with hx
  · rw [hx, List.count_eq_zero]
    simp
  · exact List.count_filter (by simpa using hx)

/-- What a withdrawal leaves, if it leaves no order with these ids and all of the others. -/
theorem Accounted.withdraw (h : Accounted e d) (hnd : d.submitted.Nodup) {ids : List OrderId}
    (hdelayed : e'.delayed = e.delayed) (hids : ids.Nodup) (hmem : ids ⊆ e.orderIds)
    (hleft : ∀ id, e'.orderIds.count id = if id ∈ ids then 0 else e.orderIds.count id) :
    Accounted e' (d.cancel ids) where
  placed := by
    rw [List.perm_iff_count]
    intro id
    have hbefore := h.count id
    have hcount := hleft id
    rw [count_places, hdelayed]
    simp only [Diary.cancel, List.count_append]
    by_cases hin : id ∈ ids
    · have hone := List.count_eq_one_of_mem (h.nodup hnd) (hmem hin)
      have hgone := List.count_eq_one_of_mem hids hin
      rw [if_pos hin] at hcount
      omega
    · have hnone := List.count_eq_zero_of_not_mem hin
      rw [if_neg hin] at hcount
      omega
  executions := by
    rw [hdelayed]
    exact h.executions

/-- A cancel searches the lists of the tier, and the book only if they do not hold the
order. -/
theorem cancel_eq (hnd : e.orderIds.Nodup) (id : OrderId) :
    e.cancel id =
      ({ e with
          pending := e.pending.filter (·.order.id ≠ id)
          queued := e.queued.filter (·.order.id ≠ id)
          inner := { e.inner with book := e.inner.book.drop id } }, decide (id ∈ e.orderIds)) := by
  rw [orderIds_eq] at hnd ⊢
  have hpending := List.length_filter_le (·.order.id ≠ id) e.pending
  have hqueued := List.length_filter_le (·.order.id ≠ id) e.queued
  unfold cancel
  simp only
  split_ifs with hshorter
  · -- it is in one of the lists of the tier, so it does not rest
    have hin : id ∈ e.pending.map (·.order.id) ++ e.queued.map (·.order.id) := by
      by_contra hout
      have hall : e.pending.filter (·.order.id ≠ id) = e.pending ∧
          e.queued.filter (·.order.id ≠ id) = e.queued := by
        constructor <;> refine List.filter_eq_self.mpr fun x hx => decide_eq_true ?_ <;>
          rintro rfl <;> exact hout (by simp [List.mem_map_of_mem hx])
      rw [hall.1, hall.2] at hshorter
      exact lt_irrefl _ hshorter
    have hout : id ∉ e.inner.book.restingIds :=
      fun hrest => (List.nodup_append.mp hnd).2.2 id hin id hrest rfl
    rw [Book.drop_eq_self hout, decide_eq_true (List.mem_append_left _ hin)]
  · have hall : (∀ p ∈ e.pending, p.order.id ≠ id) ∧ ∀ q ∈ e.queued, q.order.id ≠ id := by
      constructor <;> intro x hx hid <;> apply hshorter
      · have hlt : (e.pending.filter (·.order.id ≠ id)).length < e.pending.length :=
          List.length_filter_lt_length_iff_exists.mpr ⟨x, hx, by simpa using hid⟩
        omega
      · have hlt : (e.queued.filter (·.order.id ≠ id)).length < e.queued.length :=
          List.length_filter_lt_length_iff_exists.mpr ⟨x, hx, by simpa using hid⟩
        omega
    have hfound : (e.inner.cancel id).2 = decide (id ∈ e.pending.map (·.order.id) ++
        e.queued.map (·.order.id) ++ e.inner.book.restingIds) := by
      rw [Bool.eq_iff_iff, decide_eq_true_eq]
      refine Book.isSome_remove.trans ⟨fun h => List.mem_append_right _ h, fun h => ?_⟩
      rcases List.mem_append.mp h with h | h
      · rcases List.mem_append.mp h with h | h
        · obtain ⟨p, hp, hid⟩ := List.mem_map.mp h
          exact absurd hid (hall.1 p hp)
        · obtain ⟨q, hq, hid⟩ := List.mem_map.mp h
          exact absurd hid (hall.2 q hq)
      · exact h
    rw [hfound]
    rfl

/-- **A cancelled order** is nowhere else. -/
theorem Accounted.cancel (h : Accounted e d) (hnd : d.submitted.Nodup) (id : OrderId) :
    Accounted (e.cancel id).1 (d.cancel (if (e.cancel id).2 then [id] else [])) := by
  have hids := h.nodup hnd
  have hbook := Book.iter_drop_of_nodup (h.nodup_inner hnd) id
  rw [cancel_eq hids]
  have hcount : ∀ x, (orderIds { e with
      pending := e.pending.filter (·.order.id ≠ id)
      queued := e.queued.filter (·.order.id ≠ id)
      inner := { e.inner with book := e.inner.book.drop id } }).count x =
        if x = id then 0 else e.orderIds.count x := by
    intro x
    simp only [orderIds_eq, List.count_append, Book.restingIds, hbook,
      count_filter_ne (fun p : Pending => p.order.id),
        count_filter_ne (fun q : Queued => q.order.id),
      count_filter_ne Resting.id]
    split_ifs <;> rfl
  by_cases hin : id ∈ e.orderIds
  · rw [decide_eq_true hin, if_pos rfl]
    refine h.withdraw hnd rfl (by simp) (by simpa using hin) fun x => ?_
    simpa using hcount x
  · rw [decide_eq_false hin, if_neg (by simp)]
    refine h.withdraw hnd rfl (by simp) (by simp) fun x => ?_
    rw [hcount x]
    simp only [List.not_mem_nil, if_false]
    split_ifs with hx
    · rw [hx, List.count_eq_zero_of_not_mem hin]
    · rfl

theorem Accounted.cancelAll (h : Accounted e d) (hnd : d.submitted.Nodup) :
    Accounted e.cancelAll.1 (d.cancel e.orderIds) := by
  refine h.withdraw hnd rfl (h.nodup hnd) (fun _ => id) fun x => ?_
  have hempty : e.cancelAll.1.orderIds = [] := by
    rw [orderIds_eq]
    show (e.inner.book.dropAll e.inner.book.restingIds).iter.map Resting.id = []
    rw [Book.iter_dropAll_restingIds]
    rfl
  rw [hempty, List.count_nil]
  split_ifs with hx
  · rfl
  · exact (List.count_eq_zero_of_not_mem hx).symm

/-! ## Handing fills over -/

/-- Pricing a fill changes nothing else about it. -/
theorem unpriced_withImpact (policy : Policy) (f : L0Fill) (tick : Tick) (traded : Int64) :
    (policy.withImpact f tick traded).unpriced = f.unpriced := by
  unfold Policy.withImpact
  simp only
  split_ifs <;> rfl

theorem unpriced_adjust {σ : Type} (policy : Policy) (tick : Tick) (traded : Int64)
    (measured : Measure σ) (s : σ) (fills : List L0Fill) :
    (adjust policy tick traded measured s fills).1.map L0Fill.unpriced =
      fills.map L0Fill.unpriced := by
  induction fills generalizing s with
  | nil => rfl
  | cons f rest ih =>
    simp only [adjust, List.map_cons]
    rw [ih]
    congr 1
    split
    · rfl
    · exact unpriced_withImpact policy f tick traded

/-- Whose a fill is does not depend on its price. -/
theorem map_order_of_unpriced {fills fills' : List L0Fill}
    (h : (fills.map L0Fill.unpriced).Perm (fills'.map L0Fill.unpriced)) :
    (fills.map (·.fill.order)).Perm (fills'.map (·.fill.order)) := by
  have horder := h.map (·.fill.order)
  rwa [List.map_map, List.map_map] at horder

/-- What is told of now and what is held back still are the fills there were. -/
theorem release_perm (e : L1Engine) (now : Nanos) (fills : List L0Fill) :
    ((e.release now fills).delayed.map Delayed.fill ++ (e.release now fills).released).Perm
      (e.delayed.map Delayed.fill ++ fills) := by
  unfold release
  simp only
  split_ifs
  · generalize hall : e.delayed ++ fills.map (fun f =>
      { knownAt := now + e.policy.latency.response.at_ f.fill.order, fill := f : Delayed }) = all
    have hfills : all.map Delayed.fill = e.delayed.map Delayed.fill ++ fills := by
      rw [← hall, List.map_append, List.map_map]
      congr 1
      exact List.map_id fills
    have hlate : all.filter (fun d => now < d.knownAt) =
        all.filter (fun d => !decide (d.knownAt ≤ now)) := by
      congr 1
      funext d
      rw [← decide_not]
      exact decide_eq_decide.mpr Int64.not_le.symm
    show ((all.filter fun d => now < d.knownAt).map Delayed.fill ++
      (all.filter (·.knownAt ≤ now)).map Delayed.fill).Perm _
    rw [hlate, ← List.map_append, ← hfills]
    exact (List.perm_append_comm.trans (perm_split _ all)).map _
  · exact List.Perm.refl _

theorem release_kept (e : L1Engine) (now : Nanos) (fills : List L0Fill) :
    (e.release now fills).orderIds = e.orderIds ∧ (e.release now fills).inner = e.inner := by
  unfold release
  simp only
  split_ifs <;> exact ⟨rfl, rfl⟩

/-- The orders filled leave the book for the fills held back, and of these some are told
of. -/
theorem Accounted.match_ (h : Accounted e d) (hnd : d.submitted.Nodup) (tick : Tick)
    {adjusted : List L0Fill} (now : Nanos)
    (hadjusted : adjusted.map L0Fill.unpriced =
      (e.inner.onTick tick).fills.map L0Fill.unpriced)
    (he' : e' = release { e with inner := e.inner.onTick tick } now adjusted) :
    Accounted e' (d.observe e'.inner.fills e'.released) := by
  have hmatched := L0Engine.perm_onTick (h.nodup_inner hnd) tick
  obtain ⟨hids, hinner⟩ := release_kept { e with inner := e.inner.onTick tick } now adjusted
  have hreleased := release_perm { e with inner := e.inner.onTick tick } now adjusted
  rw [← he'] at hids hinner hreleased
  have hunpriced : ((e'.delayed.map Delayed.fill ++ e'.released).map L0Fill.unpriced).Perm
      ((e.delayed.map Delayed.fill ++ (e.inner.onTick tick).fills).map L0Fill.unpriced) := by
    have hsplit : (e.delayed.map Delayed.fill ++ (e.inner.onTick tick).fills).map L0Fill.unpriced =
        (e.delayed.map Delayed.fill ++ adjusted).map L0Fill.unpriced := by
      rw [List.map_append, List.map_append, hadjusted]
    rw [hsplit]
    exact hreleased.map _
  rw [hinner]
  constructor
  · rw [List.perm_iff_count]
    intro id
    have hbefore := h.count id
    have horders := (map_order_of_unpriced hunpriced).count_eq id
    have hrest := hmatched.count_eq id
    rw [orderIds_eq] at hbefore
    rw [count_places, hids, orderIds_eq]
    simp only [Diary.observe, L0Engine.filledIds, List.map_append, List.count_append] at *
    omega
  · rw [List.perm_iff_count]
    intro f
    have hbefore := h.executions.count_eq f
    have hnow := hunpriced.count_eq f
    simp only [Diary.observe, List.map_append, List.count_append] at *
    omega

/-- **An observation** accounts for what it matched and what it told of. -/
theorem Accounted.onTickWithImpact {σ : Type} (h : Accounted e d) (hnd : d.submitted.Nodup)
    (tick : Tick) (measured : Measure σ) (s : σ) :
    Accounted (e.onTickWithImpact tick measured s).1
      (d.observe (e.onTickWithImpact tick measured s).1.inner.fills
        (e.onTickWithImpact tick measured s).1.released) := by
  unfold L1Engine.onTickWithImpact
  simp only
  generalize e.tradedVolume tick = traded
  have harrived := (h.moved (moved_arrive e tick.stamp.exch traded)).moved
    (moved_promote _ tick traded)
  generalize (e.arrive tick.stamp.exch traded).promote tick traded = e₁ at harrived
  have hmatch := harrived.match_ hnd tick tick.stamp.exch
    (unpriced_adjust e₁.policy tick traded measured s (e₁.inner.onTick tick).fills) rfl
  exact ⟨hmatch.placed, hmatch.executions⟩

/-- Fills that are told of were held back before; what is held back still is the rest. -/
theorem Accounted.tell (h : Accounted e d) {told : List L0Fill} (hids : e'.orderIds = e.orderIds)
    (htold : (e'.delayed.map Delayed.fill ++ told).Perm (e.delayed.map Delayed.fill)) :
    Accounted e' (d.observe [] told) := by
  constructor
  · rw [List.perm_iff_count]
    intro id
    have hbefore := h.count id
    have horders := (htold.map (·.fill.order)).count_eq id
    rw [count_places, hids]
    simp only [Diary.observe, List.map_append, List.count_append] at *
    omega
  · rw [List.perm_iff_count]
    intro f
    have hbefore := h.executions.count_eq f
    have hnow := (htold.map L0Fill.unpriced).count_eq f
    simp only [Diary.observe, List.map_append, List.count_append, List.map_nil, List.count_nil] at *
    omega

/-- An observation that is not matched tells of what has been held back long enough. -/
theorem Accounted.onInvalidTick (h : Accounted e d) (tick : Tick) :
    Accounted (e.onInvalidTick tick) (d.observe [] (e.onInvalidTick tick).released) := by
  refine h.tell rfl ?_
  unfold L1Engine.onInvalidTick
  simp only
  rw [← List.map_append]
  exact (List.perm_append_comm.trans (perm_split _ e.delayed)).map _

/-- At the end of a run everything held back is told of. -/
theorem Accounted.drain (h : Accounted e d) :
    Accounted e.drainUnreported.2 (d.observe [] e.drainUnreported.1) := by
  refine h.tell rfl ?_
  exact (List.perm_insertionSort _ e.delayed).map _

/-! ## Any calls -/

/-- A call on the engine. -/
inductive Call
  | submit (order : Working) (now : Nanos) (ahead : Option Int64)
  | cancel (id : OrderId)
  | cancelAll
  | tick (t : Tick)
  | drain

/-- The id a call submits. -/
def Call.id? : Call → Option OrderId
  | .submit order _ _ => some order.id
  | _ => none

/-- One call, and what is written down of it. -/
def obey (s : L1Engine × Diary) : Call → L1Engine × Diary
  | .submit order now ahead => (s.1.submitQueue order now ahead false, s.2.submit order.id)
  | .cancel id => ((s.1.cancel id).1, s.2.cancel (if (s.1.cancel id).2 then [id] else []))
  | .cancelAll => (s.1.cancelAll.1, s.2.cancel s.1.orderIds)
  | .tick t => (s.1.onTick t, s.2.observe (s.1.onTick t).inner.fills (s.1.onTick t).released)
  | .drain => (s.1.drainUnreported.2, s.2.observe [] s.1.drainUnreported.1)

/-- Calls on a new engine, with the diary of them. -/
def run (instrument : InstrumentId) (policy : Policy) (calls : List Call) : L1Engine × Diary :=
  calls.foldl obey (new instrument policy, Diary.empty)

theorem submitted_obey (s : L1Engine × Diary) (c : Call) :
    (obey s c).2.submitted = s.2.submitted ++ c.id?.toList := by
  cases c <;> simp [obey, Call.id?, Diary.submit, Diary.cancel, Diary.observe]

/-- **One call** keeps the account. -/
theorem Accounted.obey {s : L1Engine × Diary} (h : Accounted s.1 s.2) (hnd : s.2.submitted.Nodup)
    (c : Call) : Accounted (obey s c).1 (obey s c).2 := by
  cases c with
  | submit order now ahead => exact h.submit (moved_submitQueue s.1 order now ahead false)
  | cancel id => exact h.cancel hnd id
  | cancelAll => exact h.cancelAll hnd
  | tick t => exact h.onTickWithImpact hnd t _ ()
  | drain => exact h.drain

/-- Every execution was told of, each once. -/
def AllTold (d : Diary) : Prop :=
  (d.released.map L0Fill.unpriced).Perm (d.executed.map L0Fill.unpriced)

theorem Accounted.allTold (h : Accounted e d) (hdelayed : e.delayed = []) : AllTold d := by
  have hexecutions := h.executions
  rwa [hdelayed] at hexecutions

/-- The orders with these ids are accounted for, each in one place. -/
structure InOnePlace (ids : List OrderId) (e : L1Engine) (d : Diary) : Prop where
  submitted : d.submitted = ids
  once : (places e d).Nodup
  accounted : Accounted e d

theorem Accounted.inOnePlace (h : Accounted e d) (hnd : d.submitted.Nodup) :
    InOnePlace d.submitted e d :=
  ⟨rfl, h.placed.nodup_iff.mpr hnd, h⟩

end L1Engine

/-! ## The tier above -/

namespace L2Engine

open L1Engine (Accounted InOnePlace AllTold Moved)

variable {e : L2Engine} {d : Diary}

/-- A call on the engine. -/
inductive Call
  | input (i : Input)
  | drain

/-- The id a call submits. -/
def Call.id? : Call → Option OrderId
  | .input (.op (.submit order _)) => some order.id
  | _ => none

/-- Whether an observation is matched. -/
def matches_ (e : L2Engine) : Bool := !(e.invalid || e.recoveryBar)

/-- One call, and what is written down of it. -/
def obey (s : L2Engine × Diary) : Call → L2Engine × Diary
  | .input (.op (.submit order now)) => (s.1.submit order now, s.2.submit order.id)
  | .input (.op (.cancel id)) =>
    ((s.1.cancel id).1, s.2.cancel (if (s.1.cancel id).2 then [id] else []))
  | .input (.op .cancelAll) => (s.1.cancelAll.1, s.2.cancel s.1.inner.orderIds)
  | .input (.op (.tick t)) =>
    (s.1.onTick t,
      s.2.observe (if s.1.matches_ then (s.1.onTick t).inner.inner.fills else [])
        (s.1.onTick t).inner.released)
  | .input (.depth update) => ((s.1.onDepth update).1, s.2)
  | .input .gap => (s.1.onGap, s.2)
  | .input (.snapshot updateId bids asks) => (s.1.installSnapshot updateId bids asks, s.2)
  | .input (.snapshotAt at_ updateId bids asks) =>
    (s.1.installSnapshotAt at_ updateId bids asks, s.2)
  | .drain => (s.1.drainUnreported.2, s.2.observe [] s.1.drainUnreported.1)

/-- Calls on a new engine, with the diary of them. -/
def run (instrument : InstrumentId) (policy : Policy) (calls : List Call) : L2Engine × Diary :=
  calls.foldl obey (new (L1Engine.new instrument policy), Diary.empty)

theorem submitted_obey (s : L2Engine × Diary) (c : Call) :
    (obey s c).2.submitted = s.2.submitted ++ c.id?.toList := by
  rcases c with (op | _ | _ | _ | _) | _
  · cases op <;> simp [obey, Call.id?, Diary.submit, Diary.cancel, Diary.observe]
  all_goals simp [obey, Call.id?, Diary.observe]

theorem moved_submit (e : L2Engine) (order : Working) (now : Nanos) :
    Moved [order] e.inner (e.submit order now).inner := by
  unfold submit
  split_ifs
  · exact ⟨L1Engine.shuffled_submitWhileDepthInvalid e.inner order now, rfl⟩
  · exact L1Engine.moved_submitQueue e.inner order now _ true

theorem accounted_onGap (h : Accounted e.inner d) : Accounted e.onGap.inner d :=
  h.moved (L1Engine.moved_invalidateDepth e.inner)

theorem accounted_onDepth (h : Accounted e.inner d) (update : DepthUpdate) :
    Accounted (e.onDepth update).1.inner d := by
  unfold onDepth
  simp only
  have hsampled := h.moved (L1Engine.moved_sampleArrivals e.inner
    (satSub (satMul update.eventMs 1000000) 1) (queueFrom e.venue e.hasSnapshot))
  cases e.venue.apply update with
  | ok applied => exact hsampled
  | error err => exact hsampled.moved (L1Engine.moved_invalidateDepth _)

theorem accounted_installSnapshot (h : Accounted e.inner d) (hnd : d.submitted.Nodup)
    (updateId : UInt64) (bids asks : List Level) :
    Accounted (e.installSnapshot updateId bids asks).inner d := by
  unfold installSnapshot
  simp only
  split_ifs
  · exact h.moved (L1Engine.moved_resumeDepth (h.nodup_inner hnd))
  · exact h

theorem accounted_installSnapshotAt (h : Accounted e.inner d) (hnd : d.submitted.Nodup)
    (at_ : Nanos) (updateId : UInt64) (bids asks : List Level) :
    Accounted (e.installSnapshotAt at_ updateId bids asks).inner d := by
  unfold installSnapshotAt
  simp only
  refine accounted_installSnapshot ?_ hnd updateId bids asks
  split_ifs
  · exact h.moved (L1Engine.moved_sampleArrivals e.inner _ _)
  · exact h

theorem accounted_onTick (h : Accounted e.inner d) (hnd : d.submitted.Nodup) (t : Tick) :
    Accounted (e.onTick t).inner (d.observe
      (if e.matches_ then (e.onTick t).inner.inner.fills else []) (e.onTick t).inner.released) := by
  cases hinvalid : e.invalid || e.recoveryBar with
  | true =>
    have hmatches : e.matches_ = false := by rw [matches_, hinvalid, Bool.not_true]
    rw [hmatches, if_neg (by decide)]
    unfold onTick
    rw [if_pos hinvalid]
    exact h.onInvalidTick t
  | false =>
    have hmatches : e.matches_ = true := by rw [matches_, hinvalid, Bool.not_false]
    rw [hmatches, if_pos rfl]
    unfold onTick
    rw [if_neg (by rw [hinvalid]; decide)]
    exact (h.moved (L1Engine.moved_sampleArrivals e.inner _ _)).onTickWithImpact hnd t _ _

/-- **One call** keeps the account. -/
theorem accounted_obey {s : L2Engine × Diary} (h : Accounted s.1.inner s.2)
    (hnd : s.2.submitted.Nodup) (c : Call) : Accounted (obey s c).1.inner (obey s c).2 := by
  cases c with
  | input i =>
    cases i with
    | op op =>
      cases op with
      | submit order now => exact h.submit (moved_submit s.1 order now)
      | cancel id => exact h.cancel hnd id
      | cancelAll => exact h.cancelAll hnd
      | tick t => exact accounted_onTick h hnd t
    | depth update => exact accounted_onDepth h update
    | gap => exact accounted_onGap h
    | snapshot updateId bids asks => exact accounted_installSnapshot h hnd updateId bids asks
    | snapshotAt at_ updateId bids asks =>
      exact accounted_installSnapshotAt h hnd at_ updateId bids asks
  | drain => exact h.drain

end L2Engine

namespace L1Engine

/-- If every step notes what it submits and keeps the account, so does a run. -/
theorem accounted_run {S C : Type} (inner : S → L1Engine) {obey : S × Diary → C → S × Diary}
    {id? : C → Option OrderId} {s : S × Diary}
    (hsubmitted : ∀ s c, (obey s c).2.submitted = s.2.submitted ++ (id? c).toList)
    (hstep : ∀ s c, Accounted (inner s.1) s.2 → s.2.submitted.Nodup →
      Accounted (inner (obey s c).1) (obey s c).2)
    (hs : Accounted (inner s.1) s.2) (calls : List C)
    (hnd : (s.2.submitted ++ calls.filterMap id?).Nodup) :
    InOnePlace (s.2.submitted ++ calls.filterMap id?) (inner (calls.foldl obey s).1)
      (calls.foldl obey s).2 := by
  induction calls generalizing s with
  | nil =>
    rw [List.filterMap_nil, List.append_nil] at hnd ⊢
    exact hs.inOnePlace hnd
  | cons c rest ih =>
    have hids : s.2.submitted ++ (c :: rest).filterMap id? =
        (obey s c).2.submitted ++ rest.filterMap id? := by
      rw [hsubmitted, List.append_assoc, List.filterMap_cons]
      cases id? c <;> rfl
    rw [hids] at hnd ⊢
    have hbefore : s.2.submitted.Nodup := by
      have hfirst := (List.nodup_append.mp hnd).1
      rw [hsubmitted] at hfirst
      exact (List.nodup_append.mp hfirst).1
    exact ih (hstep s c hs hbefore) hnd

/-- **No order is lost or duplicated.**  After any calls on an engine of either tier that
submit each id once, every order is in one place; and when what is held back was handed
over at the end, every execution was told of once. -/
theorem every_order_in_one_place (instrument : InstrumentId) (policy : Policy) :
    (∀ calls : List Call, (calls.filterMap Call.id?).Nodup →
      InOnePlace (calls.filterMap Call.id?) (run instrument policy calls).1
        (run instrument policy calls).2 ∧
      AllTold (run instrument policy (calls ++ [.drain])).2) ∧
    ∀ calls : List L2Engine.Call, (calls.filterMap L2Engine.Call.id?).Nodup →
      InOnePlace (calls.filterMap L2Engine.Call.id?) (L2Engine.run instrument policy calls).1.inner
        (L2Engine.run instrument policy calls).2 ∧
      AllTold (L2Engine.run instrument policy (calls ++ [.drain])).2 := by
  constructor
  · intro calls hnd
    have hrun := accounted_run id (s := (new instrument policy, Diary.empty)) submitted_obey
      (fun s c h hnd => h.obey hnd c) (accounted_new instrument policy) calls hnd
    refine ⟨hrun, ?_⟩
    rw [run, List.foldl_append]
    exact hrun.accounted.drain.allTold rfl
  · intro calls hnd
    have hrun := accounted_run L2Engine.inner
      (s := (L2Engine.new (new instrument policy), Diary.empty)) L2Engine.submitted_obey
      (fun s c h hnd => L2Engine.accounted_obey h hnd c) (accounted_new instrument policy) calls hnd
    refine ⟨hrun, ?_⟩
    rw [L2Engine.run, List.foldl_append]
    exact hrun.accounted.drain.allTold rfl

/-- A fill is held back through a gap, an order waits behind a queue, another is
cancelled. -/
def gapScript : List L2Engine.Call :=
  [.input (.op (.submit (limitOrder 4 .buy 100 2 ⟨0, 0⟩ .opening two_lots) 0)),
    .input (.op (.submit (limitOrder 5 .sell 120 2 ⟨0, 0⟩ .opening two_lots) 0)),
    .input (.op (.submit (limitOrder 6 .sell 130 2 ⟨0, 0⟩ .opening two_lots) 0)),
    .input (.op (.tick ⟨⟨1, 1⟩, 99, 0, 0, 98, 99, 0⟩)), .input .gap,
    .input (.op (.tick ⟨⟨2, 2⟩, 99, 0, 0, 98, 99, 0⟩)),
    .input (.snapshot 7 [⟨98, 1⟩] [⟨120, 3⟩]), .input (.op (.cancel 6))]

/-- Fills are told of ten nanoseconds late. -/
def latePolicy : Policy := ⟨.none, ⟨.fixed 0, .fixed 10⟩, ⟨0⟩⟩

example : (fun s : L2Engine × Diary =>
    (s.1.inner.queued.map (·.order.id), s.1.inner.delayed.map (·.fill.fill.order), s.2.cancelled))
    (L2Engine.run 1 latePolicy gapScript) = ([5], [4], [6]) := by
  decide +kernel

theorem every_order_in_one_place_gapScript :
    InOnePlace [4, 5, 6] (L2Engine.run 1 latePolicy gapScript).1.inner
      (L2Engine.run 1 latePolicy gapScript).2 ∧
    AllTold (L2Engine.run 1 latePolicy (gapScript ++ [.drain])).2 :=
  (every_order_in_one_place 1 latePolicy).2 gapScript (by decide +kernel)

end L1Engine
