/-
# The wait behind a queue (`oq-engine/src/l1.rs`)

An order with lots ahead of it is kept out of the book until they are gone.  A watch goes
beside the engine and writes down, for each order that waits, the lots it was admitted behind
and every tick since, with the tick before it; and for each order the book may fill, what its
wait had been.  It looks at the engine and at nothing the engine counts:

* `obey_engine` : the watched engine is the engine;
* `Waits.onTick` : at a tick an entry loses at most what the tick traded, so with what the
  ticks since its arrival have traded it still has every lot it was admitted behind;
* `sound_watch` : so what is in the book has seen its level gone through, or has waited for
  all of them.
-/
import OpenQuanter.Custody
import OpenQuanter.WorkingSet

namespace L1Engine

/-! ## What a wait is -/

/-- What a tick traded: what the accumulator gained since the tick before.  Nothing at the
first tick, and nothing where the accumulator fell. -/
def gained (last : Option Tick) (tick : Tick) : Int :=
  match last with
  | some prev => max (tick.volume.toInt - prev.volume.toInt) 0
  | none => 0

/-- The lots an order was admitted behind, and the ticks since, each with the one before it. -/
structure Wait where
  ahead : Int64
  seen : List (Option Tick × Tick)

namespace Wait

/-- What traded at the ticks that touched the price. -/
def volume (w : Wait) (price : Option PriceTicks) : Int :=
  (w.seen.map fun x => if price.any (touched x.2) then gained x.1 x.2 else 0).sum

/-- Whether the price was gone through. -/
def through (w : Wait) (side : Side) (price : Option PriceTicks) : Prop :=
  ∃ x ∈ w.seen, price.any (gappedThrough x.2 side) = true

/-- One tick more. -/
def see (w : Wait) (last : Option Tick) (tick : Tick) : Wait :=
  { w with seen := w.seen ++ [(last, tick)] }

theorem volume_see (w : Wait) (last : Option Tick) (tick : Tick) (price : Option PriceTicks) :
    (w.see last tick).volume price =
      w.volume price + if price.any (touched tick) then gained last tick else 0 := by
  unfold see volume
  rw [List.map_append, List.sum_append, List.map_singleton, List.sum_singleton]

end Wait

/-- **The queue is gone**: the level was gone through, or what traded there since the order
arrived is at least what it was admitted behind. -/
def Earned (order : Working) (w : Wait) : Prop :=
  w.through order.side order.price ∨ w.ahead.toInt ≤ w.volume order.price

/-- **The queue is not gone**: something is left, never more than there was, and what has
traded since accounts for the rest. -/
structure Waits (q : Queued) (w : Wait) : Prop where
  since : q.since = none
  priced : q.order.price ≠ none
  left : 0 < q.remaining.toInt
  bounded : q.remaining.toInt ≤ w.ahead.toInt
  paid : w.ahead.toInt ≤ q.remaining.toInt + w.volume q.order.price

/-! ## One tick -/

theorem gained_nonneg (last : Option Tick) (tick : Tick) : 0 ≤ gained last tick := by
  unfold gained
  cases last with
  | none => exact le_rfl
  | some prev => exact le_max_right _ _

/-- The engine's figure is not negative, and at most what the tick traded. -/
theorem tradedVolume_le {e : L1Engine} {last : Option Tick}
    (h : e.prevVolume = last.map Tick.volume) (tick : Tick) :
    0 ≤ (e.tradedVolume tick).toInt ∧ (e.tradedVolume tick).toInt ≤ gained last tick := by
  have hmax : ∀ a : Int64, (max a 0).toInt = max a.toInt 0 := by
    intro a
    have hdef : max a 0 = if a ≤ 0 then 0 else a := rfl
    rw [hdef]
    simp only [Int64.le_iff_toInt_le, Int64.toInt_zero]
    split
    · rw [Int64.toInt_zero]
      omega
    · omega
  unfold tradedVolume
  rw [h]
  cases last with
  | none => exact ⟨le_rfl, le_rfl⟩
  | some prev =>
    have hlow := Int64.le_toInt tick.volume
    have hhigh := Int64.toInt_lt prev.volume
    simp only [Option.map_some, gained]
    rw [hmax, satSub, toInt_clamp]
    constructor <;> omega

theorem toInt_sub_of_nonneg {a b : Int64} (ha : 0 < a.toInt) (hb : 0 ≤ b.toInt) :
    (a - b).toInt = a.toInt - b.toInt := by
  have hahigh := Int64.toInt_lt a
  have hbhigh := Int64.toInt_lt b
  rw [Int64.toInt_sub, Int.bmod_eq_of_le (by omega) (by omega)]

/-- **What a tick does to a wait.**  An entry that is let go has earned it; one that stays has
lost at most what the tick traded, and nothing to an accumulator that fell. -/
theorem Waits.onTick {q : Queued} {w : Wait} (h : Waits q w) {last : Option Tick} (tick : Tick)
    {traded : Int64} (hpos : 0 ≤ traded.toInt) (hle : traded.toInt ≤ gained last tick)
    (prevAt : Option Nanos) :
    (q.onTick tick traded prevAt).1.order = q.order ∧
      ((q.onTick tick traded prevAt).2 = true → Earned q.order (w.see last tick)) ∧
      ((q.onTick tick traded prevAt).2 = false →
        Waits (q.onTick tick traded prevAt).1 (w.see last tick) ∧
          (q.onTick tick traded prevAt).1.remaining ≤ q.remaining ∧
          (gained last tick = 0 → (q.onTick tick traded prevAt).1.remaining = q.remaining)) := by
  obtain ⟨price, hprice⟩ := Option.ne_none_iff_exists'.mp h.priced
  have hvolume := w.volume_see last tick q.order.price
  have hgained := gained_nonneg last tick
  have hpaid := h.paid
  have hleft := h.left
  rw [hprice, Option.any_some] at hvolume
  have hdef : q.onTick tick traded prevAt =
      if gappedThrough tick q.order.side price then (q, true)
      else
        ({ q with remaining := if touched tick price then q.remaining - traded else q.remaining },
          (if touched tick price then q.remaining - traded else q.remaining) ≤ 0) := by
    unfold Queued.onTick
    rw [h.since, hprice]
    rfl
  rw [hdef]
  split
  · -- the price was jumped over
    next hgap =>
    refine ⟨rfl, fun _ => Or.inl ?_, fun hfalse => nomatch hfalse⟩
    refine ⟨(last, tick), List.mem_append_right _ List.mem_cons_self, ?_⟩
    rw [hprice]
    exact hgap
  · -- what is left pays for what traded at the price, as far as it was read
    have hremaining : (if touched tick price then q.remaining - traded else q.remaining).toInt =
        q.remaining.toInt - if touched tick price then traded.toInt else 0 := by
      split
      · exact toInt_sub_of_nonneg hleft hpos
      · exact (sub_zero _).symm
    generalize (if touched tick price then q.remaining - traded else q.remaining) = remaining
      at hremaining ⊢
    rw [hprice] at hpaid
    have hloss : (if touched tick price then traded.toInt else 0) ≤
        if touched tick price then gained last tick else 0 := by
      split
      · exact hle
      · exact le_rfl
    have hloss0 : 0 ≤ if touched tick price then traded.toInt else 0 := by
      split
      · exact hpos
      · exact le_rfl
    refine ⟨rfl, fun hdone => Or.inr ?_, fun hstays => ⟨⟨h.since, h.priced, ?_, ?_, ?_⟩, ?_, ?_⟩⟩
    · rw [decide_eq_true_iff, Int64.le_iff_toInt_le, hremaining, Int64.toInt_zero] at hdone
      rw [hprice, hvolume]
      show w.ahead.toInt ≤ _
      omega
    · rw [decide_eq_false_iff_not, Int64.le_iff_toInt_le, Int64.toInt_zero] at hstays
      exact not_le.mp hstays
    · have := h.bounded
      show remaining.toInt ≤ w.ahead.toInt
      omega
    · show w.ahead.toInt ≤ remaining.toInt + (w.see last tick).volume q.order.price
      rw [hprice, hvolume]
      omega
    · rw [Int64.le_iff_toInt_le]
      show remaining.toInt ≤ q.remaining.toInt
      omega
    · intro hnone
      apply Int64.toInt_inj.mp
      show remaining.toInt = q.remaining.toInt
      have hzero : traded.toInt = 0 := by omega
      rw [hremaining, hzero, ite_self, sub_zero]

/-! ## The watch -/

/-- The lots an order is admitted behind. -/
def aheadOf (e : L1Engine) (order : Working) (arrivalVolume measured : Option Int64) : Int64 :=
  match measured, order.price with
  | _, none => 0
  | some m, some _ => max m 0
  | none, some _ => assumedAhead e.policy.queue arrivalVolume

/-- An engine, what its caller wrote down, the last tick, the wait of each queued order, and
the wait of each order that was let into the book. -/
structure Watch where
  engine : L1Engine
  diary : Diary
  last : Option Tick
  waiting : List (Queued × Wait)
  eligible : List (Working × Wait)

namespace Watch

def start (instrument : InstrumentId) (policy : Policy) : Watch :=
  ⟨L1Engine.new instrument policy, Diary.empty, none, [], []⟩

/-- An order is admitted: behind a queue, or into the book. -/
def admitOrder (s : Watch) (order : Working) (arrivalVolume measured : Option Int64)
    (since : Option Nanos) : Watch :=
  let ahead := s.engine.aheadOf order arrivalVolume measured
  let s := { s with engine := s.engine.admitOrder order arrivalVolume measured since }
  if 0 < ahead then
    { s with
      waiting := s.waiting ++
        [({ remaining := ahead, since := if measured.isSome then since else none, order := order },
          ⟨ahead, []⟩)] }
  else { s with eligible := s.eligible ++ [(order, ⟨ahead, []⟩)] }

/-- The orders that have reached the venue are admitted, one after the other. -/
def arrive (s : Watch) (now : Nanos) (traded : Int64) : Watch :=
  let arriving := s.engine.pending.filter (·.liveAt ≤ now)
  let left := s.engine.pending.filter (fun p => !(p.liveAt ≤ now))
  arriving.foldl (fun s p => s.admitOrder p.order (some traded) p.measuredAhead p.since)
    { s with engine := { s.engine with pending := left } }

/-- Every wait sees the tick; those the engine lets go are over. -/
def promote (s : Watch) (tick : Tick) (traded : Int64) : Watch :=
  let seen := s.waiting.map fun x =>
    (x.1.onTick tick traded s.engine.prevAt, x.2.see s.last tick)
  { s with
    engine := s.engine.promote tick traded
    waiting := (seen.filter (fun x => !x.1.2)).map fun x => (x.1.1, x.2)
    eligible := s.eligible ++ (seen.filter (·.1.2)).map fun x => (x.1.1.order, x.2) }

/-- What a call does to the waits. -/
def watch (s : Watch) : Call → Watch
  | .submit order _ ahead =>
    if s.engine.policy.latency.entry.isZero then s.admitOrder order s.engine.lastTraded ahead none
    else s
  | .cancel id => { s with waiting := s.waiting.filter (·.1.order.id ≠ id) }
  | .cancelAll => { s with waiting := [] }
  | .tick t =>
    let traded := s.engine.tradedVolume t
    { (s.arrive t.stamp.exch traded).promote t traded with last := some t }
  | .drain => s

/-- The engine obeys the call, and the watch goes with it. -/
def obey (s : Watch) (c : Call) : Watch :=
  let after := L1Engine.obey (s.engine, s.diary) c
  { s.watch c with engine := after.1, diary := after.2 }

/-- A watched run. -/
def run (instrument : InstrumentId) (policy : Policy) (calls : List Call) : Watch :=
  calls.foldl obey (start instrument policy)

/-- **The watch only watches.** -/
theorem obey_engine (instrument : InstrumentId) (policy : Policy) (calls : List Call) :
    ((run instrument policy calls).engine, (run instrument policy calls).diary) =
      L1Engine.run instrument policy calls := by
  have hfold : ∀ s : Watch, ((calls.foldl obey s).engine, (calls.foldl obey s).diary) =
      calls.foldl L1Engine.obey (s.engine, s.diary) := by
    induction calls with
    | nil => exact fun s => rfl
    | cons c rest ih => exact fun s => ih (s.obey c)
  exact hfold (start instrument policy)

/-! ## What the watch keeps -/

/-- The waits are those of the queue, and what the book may fill has earned it. -/
structure Kept (s : Watch) : Prop where
  waiting : s.waiting.map Prod.fst = s.engine.queued
  pending : ∀ p ∈ s.engine.pending, p.since = none
  waits : ∀ x ∈ s.waiting, Waits x.1 x.2
  earned : ∀ x ∈ s.eligible, Earned x.1 x.2
  book : ∀ r ∈ s.engine.inner.book.iter, ∃ x ∈ s.eligible, x.1 = r.order

variable {s : Watch}

theorem admitOrder_eq (e : L1Engine) (order : Working) (volume measured : Option Int64)
    (since : Option Nanos) :
    e.admitOrder order volume measured since =
      if 0 < e.aheadOf order volume measured then
        { e with
          queued := e.queued ++
            [{ remaining := e.aheadOf order volume measured,
               since := if measured.isSome then since else none, order := order }] }
      else { e with inner := e.inner.submit order } := rfl

/-- What a watch keeps is about the orders its engine holds. -/
theorem Kept.congr {t : Watch} (h : s.Kept) (hwaiting : t.waiting = s.waiting)
    (heligible : t.eligible = s.eligible) (hqueued : t.engine.queued = s.engine.queued)
    (hpending : ∀ p ∈ t.engine.pending, p.since = none)
    (hbook : ∀ r ∈ t.engine.inner.book.iter, r ∈ s.engine.inner.book.iter) : t.Kept where
  waiting := by rw [hwaiting, hqueued, h.waiting]
  pending := hpending
  waits := hwaiting ▸ h.waits
  earned := heligible ▸ h.earned
  book := fun r hr => heligible ▸ h.book r (hbook r hr)

theorem engine_admitOrder (s : Watch) (order : Working) (volume measured : Option Int64)
    (since : Option Nanos) :
    (s.admitOrder order volume measured since).engine =
      s.engine.admitOrder order volume measured since := by
  unfold admitOrder
  dsimp only
  split <;> rfl

theorem admit_eq (s : Watch) (order : Working) (volume measured : Option Int64) :
    s.admitOrder order volume measured none =
      if 0 < s.engine.aheadOf order volume measured then
        { s with
          engine :=
            { s.engine with
              queued := s.engine.queued ++ [⟨s.engine.aheadOf order volume measured, none, order⟩] }
          waiting := s.waiting ++
            [(⟨s.engine.aheadOf order volume measured, none, order⟩,
              ⟨s.engine.aheadOf order volume measured, []⟩)] }
      else
        { s with
          engine := { s.engine with inner := s.engine.inner.submit order }
          eligible := s.eligible ++ [(order, ⟨s.engine.aheadOf order volume measured, []⟩)] } := by
  unfold admitOrder
  rw [admitOrder_eq, ite_self]
  dsimp only
  split <;> rfl

/-- What may be filled stays so as more is let in. -/
theorem Kept.eligible_append (h : s.Kept) (more : List (Working × Wait)) :
    ∀ r ∈ s.engine.inner.book.iter, ∃ x ∈ s.eligible ++ more, x.1 = r.order := by
  intro r hr
  obtain ⟨x, hx, hxr⟩ := h.book r hr
  exact ⟨x, List.mem_append_left _ hx, hxr⟩

/-- An order submitted to the engine underneath is let into the book. -/
theorem mem_iter_submit {e : L0Engine} {order : Working} {r : Resting}
    (hr : r ∈ (e.submit order).book.iter) : r.order = order ∨ r ∈ e.book.iter := by
  rcases List.mem_cons.mp ((e.book.iter_insert_perm order).mem_iff.mp hr) with rfl | hr
  · exact Or.inl rfl
  · exact Or.inr hr

/-- An order admitted behind lots waits for them; one behind none has nothing to wait for. -/
theorem Kept.admitOrder (h : s.Kept) (order : Working) (volume measured : Option Int64) :
    (s.admitOrder order volume measured none).Kept := by
  rw [admit_eq]
  split
  · next hahead =>
    have hpos : 0 < (s.engine.aheadOf order volume measured).toInt :=
      Int64.lt_iff_toInt_lt.mp hahead
    have hpriced : order.price ≠ none := by
      intro hnone
      have hzero : s.engine.aheadOf order volume measured = 0 := by
        simp [aheadOf, hnone]
      rw [hzero] at hpos
      exact absurd hpos (by decide)
    have hvolume : (⟨s.engine.aheadOf order volume measured, []⟩ : Wait).volume order.price = 0 :=
      rfl
    refine ⟨?_, h.pending, ?_, h.earned, h.book⟩
    · rw [List.map_append, h.waiting]
      rfl
    · intro x hx
      rcases List.mem_append.mp hx with hx | hx
      · exact h.waits x hx
      · rw [List.mem_singleton.mp hx]
        exact ⟨rfl, hpriced, hpos, le_rfl, by rw [hvolume, add_zero]⟩
  · next hahead =>
    refine ⟨h.waiting, h.pending, h.waits, ?_, ?_⟩
    · intro x hx
      rcases List.mem_append.mp hx with hx | hx
      · exact h.earned x hx
      · rw [List.mem_singleton.mp hx]
        exact Or.inr (Int64.le_iff_toInt_le.mp (Int64.not_lt.mp hahead))
    · intro r hr
      rcases mem_iter_submit hr with hr | hr
      · exact ⟨(order, _), List.mem_append_right _ List.mem_cons_self, hr.symm⟩
      · exact h.eligible_append _ r hr

/-- The engine of a watch that arrives is the engine's arrival. -/
theorem Kept.arrive (h : s.Kept) (now : Nanos) (traded : Int64) :
    (s.arrive now traded).Kept ∧ (s.arrive now traded).engine = s.engine.arrive now traded ∧
      (s.arrive now traded).last = s.last := by
  have hfold : ∀ (arriving : List Pending) (s : Watch), s.Kept →
      (∀ p ∈ arriving, p.since = none) →
      let t := arriving.foldl (fun s p => s.admitOrder p.order
        (some traded) p.measuredAhead p.since) s
      t.Kept ∧
        t.engine = arriving.foldl
          (fun e p => e.admitOrder p.order (some traded) p.measuredAhead p.since) s.engine ∧
        t.last = s.last := by
    intro arriving
    induction arriving with
    | nil => exact fun s hs _ => ⟨hs, rfl, rfl⟩
    | cons p rest ih =>
      intro s hs hsince
      have hp := hsince p List.mem_cons_self
      have hkept : (s.admitOrder p.order (some traded) p.measuredAhead p.since).Kept := by
        rw [hp]
        exact hs.admitOrder _ _ _
      have hlast : (s.admitOrder p.order (some traded) p.measuredAhead p.since).last = s.last := by
        unfold Watch.admitOrder
        dsimp only
        split <;> rfl
      obtain ⟨hrest, hengine, hlast'⟩ :=
        ih _ hkept fun x hx => hsince x (List.mem_cons_of_mem p hx)
      rw [engine_admitOrder] at hengine
      exact ⟨hrest, hengine, hlast'.trans hlast⟩
  exact hfold _ _
    ⟨h.waiting, fun p hp => h.pending p (List.mem_of_mem_filter hp), h.waits, h.earned, h.book⟩
    fun p hp => h.pending p (List.mem_of_mem_filter hp)

/-- Orders let into the book one after the other. -/
theorem mem_iter_submits (orders : List Working) (e : L0Engine) {r : Resting}
    (hr : r ∈ (orders.foldl L0Engine.submit e).book.iter) :
    r.order ∈ orders ∨ r ∈ e.book.iter := by
  induction orders generalizing e with
  | nil => exact Or.inr hr
  | cons order rest ih =>
    rcases ih (e.submit order) hr with hr | hr
    · exact Or.inl (List.mem_cons_of_mem order hr)
    · rcases mem_iter_submit hr with hr | hr
      · exact Or.inl (hr ▸ List.mem_cons_self)
      · exact Or.inr hr

/-- The engine's queue after a tick, in terms of the watch's. -/
theorem promote_engine (h : s.Kept) (tick : Tick) (traded : Int64) :
    let seen := s.waiting.map fun x =>
      (x.1.onTick tick traded s.engine.prevAt, x.2.see s.last tick)
    s.engine.promote tick traded =
      { s.engine with
        queued := (seen.filter (fun x => !x.1.2)).map (·.1.1)
        inner := ((seen.filter (·.1.2)).map (·.1.1.order)).foldl L0Engine.submit
          s.engine.inner } := by
  intro seen
  have hdepleted : s.engine.queued.map (fun q => q.onTick tick traded s.engine.prevAt) =
      seen.map Prod.fst := by
    rw [← h.waiting, List.map_map, List.map_map]
    rfl
  clear_value seen
  unfold L1Engine.promote
  rw [hdepleted]
  dsimp only
  rw [List.filter_map, List.filter_map, List.map_map, List.map_map]
  rfl

/-- A tick takes its volume off every wait, and lets go of those that are over. -/
theorem Kept.promote (h : s.Kept) (tick : Tick) {traded : Int64} (hpos : 0 ≤ traded.toInt)
    (hle : traded.toInt ≤ gained s.last tick) : (s.promote tick traded).Kept := by
  have hengine := promote_engine h tick traded
  have hticked := fun x hx => (h.waits x hx).onTick tick hpos hle s.engine.prevAt
  unfold Watch.promote
  dsimp only at hengine ⊢
  rw [hengine]
  refine ⟨?_, h.pending, ?_, ?_, ?_⟩
  · rw [List.map_map]
    rfl
  · intro x hx
    obtain ⟨y, hy, rfl⟩ := List.mem_map.mp hx
    obtain ⟨hy, hstays⟩ := List.mem_filter.mp hy
    obtain ⟨z, hz, rfl⟩ := List.mem_map.mp hy
    exact ((hticked z hz).2.2 (by simpa using hstays)).1
  · intro x hx
    rcases List.mem_append.mp hx with hx | hx
    · exact h.earned x hx
    · obtain ⟨y, hy, rfl⟩ := List.mem_map.mp hx
      obtain ⟨hy, hdone⟩ := List.mem_filter.mp hy
      obtain ⟨z, hz, rfl⟩ := List.mem_map.mp hy
      have hearned := (hticked z hz).2.1 hdone
      rwa [← (hticked z hz).1] at hearned
  · intro r hr
    rcases mem_iter_submits _ _ hr with hr | hr
    · obtain ⟨y, hy, hyr⟩ := List.mem_map.mp hr
      exact ⟨(y.1.1.order, y.2), List.mem_append_right _ (List.mem_map.mpr ⟨y, hy, rfl⟩), hyr⟩
    · exact h.eligible_append _ r hr

/-! ## A tick of the engine -/

/-- What the rest of a tick does: the engine underneath matches, and its fills are released
or held back. -/
theorem onTick_eq (e : L1Engine) (tick : Tick) :
    let e' := (e.arrive tick.stamp.exch (e.tradedVolume tick)).promote tick (e.tradedVolume tick)
    (e.onTick tick).queued = e'.queued ∧ (e.onTick tick).pending = e'.pending ∧
      (e.onTick tick).inner = e'.inner.onTick tick ∧
      (e.onTick tick).prevVolume = some tick.volume := by
  intro e'
  unfold onTick onTickWithImpact release
  dsimp only
  split_ifs <;> exact ⟨rfl, rfl, rfl, rfl⟩

/-- What a book's engine fills and what it keeps were in its book. -/
theorem mem_book_onTick (e : L0Engine) (tick : Tick) :
    (∀ r ∈ (e.onTick tick).book.iter, r ∈ e.book.iter) ∧
      ∀ f ∈ (e.onTick tick).fills, ∃ r ∈ e.book.iter, r.id = f.fill.order := by
  constructor
  · intro r hr
    rw [L0Engine.onTick_book] at hr
    exact (Book.sublist_iter_dropAll _ _).subset hr
  · intro f hf
    have hid := e.filledIds_subset tick f.fill.order (List.mem_map_of_mem hf)
    obtain ⟨r, hr, hrid⟩ := List.mem_map.mp hid
    exact ⟨r, hr, hrid⟩

/-! ## Runs -/

/-- What holds of a watch after any calls. -/
structure Sound (s : Watch) : Prop extends Kept s where
  volume : s.engine.prevVolume = s.last.map Tick.volume
  made : ∀ f ∈ s.diary.executed, ∃ x ∈ s.eligible, x.1.id = f.fill.order

theorem sound_start (instrument : InstrumentId) (policy : Policy) :
    (start instrument policy).Sound := by
  refine ⟨⟨rfl, ?_, ?_, ?_, ?_⟩, rfl, ?_⟩
  all_goals
    intro _ h
    cases h

/-- What the book may fill stays on the record. -/
theorem eligible_watch (s : Watch) (c : Call) : s.eligible ⊆ (s.watch c).eligible := by
  have hadmits : ∀ (s : Watch) (order : Working) (volume measured : Option Int64)
      (since : Option Nanos), s.eligible ⊆ (s.admitOrder order volume measured since).eligible := by
    intro s order volume measured since
    unfold admitOrder
    dsimp only
    split
    · exact List.Subset.refl _
    · exact List.subset_append_left _ _
  have hfold : ∀ (arriving : List Pending) (traded : Int64) (s : Watch), s.eligible ⊆
      (arriving.foldl (fun s p => s.admitOrder p.order (some traded) p.measuredAhead p.since)
        s).eligible := by
    intro arriving traded
    induction arriving with
    | nil => exact fun s => List.Subset.refl _
    | cons p rest ih => exact fun s => List.Subset.trans (hadmits s _ _ _ _) (ih _)
  cases c with
  | submit order now ahead =>
    unfold watch
    dsimp only
    split
    · exact hadmits s _ _ _ _
    · exact List.Subset.refl _
  | cancel id => exact List.Subset.refl _
  | cancelAll => exact List.Subset.refl _
  | tick t =>
    have harrive : s.eligible ⊆ (s.arrive t.stamp.exch (s.engine.tradedVolume t)).eligible :=
      hfold _ _ { s with
        engine := { s.engine with
          pending := s.engine.pending.filter (fun p => !(p.liveAt ≤ t.stamp.exch)) } }
    exact List.Subset.trans harrive (List.subset_append_left _ _)
  | drain => exact List.Subset.refl _

theorem Sound.tick (h : s.Sound) (t : Tick) : (s.obey (.tick t)).Sound := by
  obtain ⟨hpos, hle⟩ := tradedVolume_le h.volume t
  obtain ⟨harrived, hengine, hlast⟩ := h.toKept.arrive t.stamp.exch (s.engine.tradedVolume t)
  have hkept := harrived.promote t hpos (hlast ▸ hle)
  obtain ⟨hqueued, hpending, hinner, hvolume⟩ := onTick_eq s.engine t
  have hpromoted : ((s.arrive t.stamp.exch (s.engine.tradedVolume t)).promote t
      (s.engine.tradedVolume t)).engine =
        (s.engine.arrive t.stamp.exch (s.engine.tradedVolume t)).promote t
          (s.engine.tradedVolume t) := by
    rw [← hengine]
    rfl
  rw [← hpromoted] at hqueued hpending hinner
  obtain ⟨hbook, hfills⟩ := mem_book_onTick
    ((s.arrive t.stamp.exch (s.engine.tradedVolume t)).promote t
      (s.engine.tradedVolume t)).engine.inner t
  refine ⟨⟨hkept.waiting.trans hqueued.symm, ?_, hkept.waits, hkept.earned, ?_⟩, hvolume, ?_⟩
  · intro p hp
    exact hkept.pending p (hpending ▸ hp)
  · intro r hr
    have hr : r ∈ (s.engine.onTick t).inner.book.iter := hr
    rw [hinner] at hr
    exact hkept.book r (hbook r hr)
  · intro f hf
    rcases List.mem_append.mp hf with hf | hf
    · obtain ⟨x, hx, hxf⟩ := h.made f hf
      exact ⟨x, s.eligible_watch (.tick t) hx, hxf⟩
    · rw [hinner] at hf
      obtain ⟨r, hr, hrf⟩ := hfills f hf
      obtain ⟨x, hx, hxr⟩ := hkept.book r hr
      exact ⟨x, hx, (congrArg Working.id hxr).trans hrf⟩

/-- An order that is not delayed is admitted; one that is waits to arrive. -/
theorem Kept.submit (h : s.Kept) (order : Working) (now : Nanos) (ahead : Option Int64) :
    (s.obey (.submit order now ahead)).Kept := by
  have hzero : s.engine.submitQueue order now ahead false =
      if s.engine.policy.latency.entry.isZero = true then
        s.engine.admitOrder order s.engine.lastTraded ahead none
      else
        { s.engine with
          pending := s.engine.pending ++
            [⟨ahead, false, none, satAdd now (s.engine.policy.latency.entry.at_ order.id), order⟩]
              } := by
    unfold submitQueue
    cases s.engine.policy.latency.entry.isZero <;> rfl
  have hengine : (s.obey (.submit order now ahead)).engine =
      s.engine.submitQueue order now ahead false := rfl
  by_cases hentry : s.engine.policy.latency.entry.isZero = true
  · have hwatch : s.watch (.submit order now ahead) =
        s.admitOrder order s.engine.lastTraded ahead none := if_pos hentry
    have hkept := h.admitOrder order s.engine.lastTraded ahead
    rw [if_pos hentry, ← engine_admitOrder] at hzero
    have hwaiting : (s.obey (.submit order now ahead)).waiting =
        (s.watch (.submit order now ahead)).waiting := rfl
    have heligible : (s.obey (.submit order now ahead)).eligible =
        (s.watch (.submit order now ahead)).eligible := rfl
    rw [hwatch] at hwaiting heligible
    refine hkept.congr hwaiting heligible ?_ ?_ ?_
    · rw [hengine, hzero]
    · rw [hengine, hzero]
      exact hkept.pending
    · rw [hengine, hzero]
      exact fun r hr => hr
  · have hwatch : s.watch (.submit order now ahead) = s := if_neg hentry
    rw [if_neg hentry] at hzero
    have hwaiting : (s.obey (.submit order now ahead)).waiting =
        (s.watch (.submit order now ahead)).waiting := rfl
    have heligible : (s.obey (.submit order now ahead)).eligible =
        (s.watch (.submit order now ahead)).eligible := rfl
    rw [hwatch] at hwaiting heligible
    refine h.congr hwaiting heligible ?_ ?_ ?_
    · rw [hengine, hzero]
    · rw [hengine, hzero]
      intro p hp
      rcases List.mem_append.mp hp with hp | hp
      · exact h.pending p hp
      · rw [List.mem_singleton.mp hp]
    · rw [hengine, hzero]
      exact fun r hr => hr

/-- A withdrawn order waits for nothing. -/
theorem Kept.cancel (h : s.Kept) (id : OrderId) : (s.obey (.cancel id)).Kept := by
  have hfields : (s.engine.cancel id).1.queued = s.engine.queued.filter (·.order.id ≠ id) ∧
      (s.engine.cancel id).1.pending = s.engine.pending.filter (·.order.id ≠ id) ∧
      ∀ r ∈ (s.engine.cancel id).1.inner.book.iter, r ∈ s.engine.inner.book.iter := by
    unfold L1Engine.cancel
    dsimp only
    split
    · exact ⟨rfl, rfl, fun r hr => hr⟩
    · exact ⟨rfl, rfl, fun r hr => (Book.sublist_iter_dropAll s.engine.inner.book [id]).subset hr⟩
  obtain ⟨hqueued, hpending, hbook⟩ := hfields
  refine ⟨?_, ?_, ?_, h.earned, fun r hr => h.book r (hbook r hr)⟩
  · show (s.waiting.filter (·.1.order.id ≠ id)).map Prod.fst = (s.engine.cancel id).1.queued
    rw [hqueued, ← h.waiting, List.filter_map]
    rfl
  · intro p hp
    have hp : p ∈ (s.engine.cancel id).1.pending := hp
    rw [hpending] at hp
    exact h.pending p (List.mem_of_mem_filter hp)
  · exact fun x hx => h.waits x (List.mem_of_mem_filter hx)

theorem Kept.cancelAll (h : s.Kept) : (s.obey .cancelAll).Kept := by
  refine ⟨rfl, ?_, ?_, h.earned, ?_⟩
  · intro p hp
    cases hp
  · intro x hx
    cases hx
  · intro r hr
    exact h.book r ((Book.sublist_iter_dropAll _ _).subset hr)

/-- **Any call** keeps the watch sound. -/
theorem Sound.obey (h : s.Sound) (c : Call) : (s.obey c).Sound := by
  have hmade : ∀ f ∈ s.diary.executed, ∃ x ∈ (s.watch c).eligible, x.1.id = f.fill.order := by
    intro f hf
    obtain ⟨x, hx, hxf⟩ := h.made f hf
    exact ⟨x, s.eligible_watch c hx, hxf⟩
  cases c with
  | submit order now ahead =>
    refine ⟨h.toKept.submit order now ahead, ?_, hmade⟩
    have hvolume : (s.engine.submitQueue order now ahead false).prevVolume =
        s.engine.prevVolume := by
      unfold submitQueue L1Engine.admitOrder
      dsimp only
      split_ifs <;> rfl
    have hlast : (s.watch (.submit order now ahead)).last = s.last := by
      unfold watch admitOrder
      dsimp only
      split_ifs <;> rfl
    exact hvolume.trans (h.volume.trans (congrArg (Option.map Tick.volume) hlast.symm))
  | cancel id =>
    refine ⟨h.toKept.cancel id, ?_, hmade⟩
    have hvolume : (s.engine.cancel id).1.prevVolume = s.engine.prevVolume := by
      unfold L1Engine.cancel
      dsimp only
      split <;> rfl
    exact hvolume.trans h.volume
  | cancelAll => exact ⟨h.toKept.cancelAll, h.volume, hmade⟩
  | tick t => exact h.tick t
  | drain =>
    refine ⟨h.toKept.congr rfl rfl rfl h.pending fun r hr => hr, h.volume, fun f hf => ?_⟩
    rcases List.mem_append.mp hf with hf | hf
    · exact hmade f hf
    · cases hf

theorem sound_run (instrument : InstrumentId) (policy : Policy) (calls : List Call) :
    (run instrument policy calls).Sound := by
  have hfold : ∀ s : Watch, s.Sound → (calls.foldl obey s).Sound := by
    induction calls with
    | nil => exact fun s hs => hs
    | cons c rest ih => exact fun s hs => ih (s.obey c) (hs.obey c)
  exact hfold _ (sound_start instrument policy)

end Watch

/-- **The queue is conservative.**  In any run of the engine, what the book holds and what it
ever filled had its queue gone: its level was gone through, or what traded at the level since
the order arrived is at least what it was admitted behind.  What is left of a queue is never
more than it was and never nothing, and the next tick adds nothing to it, whatever the
accumulator does. -/
theorem queue_is_conservative (instrument : InstrumentId) (policy : Policy) (calls : List Call) :
    let s := Watch.run instrument policy calls
    (s.engine, s.diary) = run instrument policy calls ∧
      s.waiting.map Prod.fst = s.engine.queued ∧
      (∀ x ∈ s.eligible, Earned x.1 x.2) ∧
      (∀ r ∈ s.engine.inner.book.iter, ∃ x ∈ s.eligible, x.1 = r.order) ∧
      (∀ f ∈ s.diary.executed, ∃ x ∈ s.eligible, x.1.id = f.fill.order) ∧
      ∀ x ∈ s.waiting, 0 < x.1.remaining ∧ x.1.remaining ≤ x.2.ahead ∧
        ∀ tick, let after := x.1.onTick tick (s.engine.tradedVolume tick) s.engine.prevAt
          after.2 = false → 0 < after.1.remaining ∧ after.1.remaining ≤ x.1.remaining ∧
            (gained s.last tick = 0 → after.1.remaining = x.1.remaining) := by
  intro s
  have h : s.Sound := Watch.sound_run instrument policy calls
  refine ⟨Watch.obey_engine instrument policy calls, h.waiting, h.earned, h.book, h.made, ?_⟩
  intro x hx
  have hx := h.waits x hx
  refine ⟨Int64.lt_iff_toInt_lt.mpr hx.left, Int64.le_iff_toInt_le.mpr hx.bounded, ?_⟩
  intro tick after hstays
  obtain ⟨hpos, hle⟩ := tradedVolume_le h.volume tick
  obtain ⟨hwaits, hless, hreset⟩ := (hx.onTick tick hpos hle s.engine.prevAt).2.2 hstays
  exact ⟨Int64.lt_iff_toInt_lt.mpr hwaits.left, hless, hreset⟩

end L1Engine
