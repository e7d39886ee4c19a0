/-
# A tier given nothing new answers as L0 does

Under the transparent policy an L1 engine never holds an order back: its
`pending` and `queued` lists stay empty and the L0 engine inside it goes through
exactly the states a plain L0 engine does.  An L2 engine that is never fed depth
adds only a venue book that stays empty.  Both are simulations, and equal traces
follow by the rule of `Trace`.
-/
import OpenQuanter.Matcher
import OpenQuanter.Trace

/-! ## Pricing without a measurement -/

/-- With no impact and a measurement that never answers, fills keep their
prices. -/
theorem adjust_eq_self {σ : Type} {policy : Policy} (hcoef : policy.impact.coefficient = 0)
    {measured : Measure σ} {Quiet : σ → Prop}
    (hquiet : ∀ s side qty, Quiet s →
      (measured s side qty).1 = none ∧ Quiet (measured s side qty).2)
    (tick : Tick) (traded : Int64) {s : σ} (hs : Quiet s) (fills : List L0Fill) :
    (adjust policy tick traded measured s fills).1 = fills := by
  induction fills generalizing s with
  | nil => rfl
  | cons f rest ih =>
    have himpact : policy.withImpact f tick traded = f := by
      simp [Policy.withImpact, hcoef]
    have hask : (measuredTakerPrice measured s f).1 = none ∧
        Quiet (measuredTakerPrice measured s f).2 := by
      unfold measuredTakerPrice
      by_cases hmaker : f.fill.liquidity ≠ .taker
      · rw [if_pos hmaker]
        exact ⟨rfl, hs⟩
      · rw [if_neg hmaker]
        exact hquiet s f.fill.side f.fill.qty hs
    simp only [adjust, hask.1, himpact]
    rw [ih hask.2]

/-! ## L1 -/

/-- An L1 engine that has held nothing back, over this L0 engine. -/
structure L1Engine.Clear (a : L0Engine) (e : L1Engine) : Prop where
  inner : e.inner = a
  policy : e.policy = Policy.transparent
  pending : e.pending = []
  queued : e.queued = []

namespace L1Engine.Clear

variable {a : L0Engine} {e : L1Engine}

/-- With no entry latency and nothing measured ahead, an order goes straight to
the book. -/
theorem submitQueue (h : Clear a e) (order : Working) (now : Nanos) (sample : Bool) :
    Clear (a.submit order) (e.submitQueue order now none sample) := by
  have hdelay : e.policy.latency.entry = .fixed 0 := by rw [h.policy]; rfl
  have hqueue : e.policy.queue = .none := by rw [h.policy]; rfl
  have hahead : e.submitQueue order now none sample =
      { e with inner := e.inner.submit order } := by
    unfold L1Engine.submitQueue L1Engine.admitOrder
    cases hprice : order.price <;> cases sample <;>
      simp [hdelay, Delay.at_, Delay.isZero, hprice, hqueue, L1Engine.assumedAhead]
  rw [hahead]
  exact ⟨by rw [h.inner], h.policy, h.pending, h.queued⟩

theorem cancel (h : Clear a e) (id : OrderId) :
    Clear (a.cancel id).1 (e.cancel id).1 ∧ (e.cancel id).2 = (a.cancel id).2 := by
  have heq : e.cancel id = ({ e with inner := (a.cancel id).1 }, (a.cancel id).2) := by
    simp [L1Engine.cancel, h.pending, h.queued, h.inner]
  rw [heq]
  exact ⟨⟨rfl, h.policy, h.pending, h.queued⟩, rfl⟩

theorem cancelAll (h : Clear a e) :
    Clear a.cancelAll.1 e.cancelAll.1 ∧ e.cancelAll.2 = a.cancelAll.2 := by
  refine ⟨⟨?_, h.policy, rfl, rfl⟩, ?_⟩
  · rw [← h.inner]
    rfl
  · simp [L1Engine.cancelAll, h.pending, h.queued, h.inner]

theorem sampleArrivals (h : Clear a e) (now : Nanos) (queue : Side → PriceTicks → Option Int64) :
    Clear a (e.sampleArrivals now queue) :=
  ⟨h.inner, h.policy, by simp [L1Engine.sampleArrivals, h.pending], h.queued⟩

/-- An observation passes through untouched. -/
theorem onTickWithImpact (h : Clear a e) (tick : Tick) {σ : Type} {measured : Measure σ}
    {Quiet : σ → Prop}
    (hquiet : ∀ s side qty, Quiet s →
      (measured s side qty).1 = none ∧ Quiet (measured s side qty).2)
    {s : σ} (hs : Quiet s) :
    Clear (a.onTick tick) (e.onTickWithImpact tick measured s).1 ∧
      (e.onTickWithImpact tick measured s).1.released = (a.onTick tick).fills := by
  have hresponse : e.policy.latency.response = .fixed 0 := by rw [h.policy]; rfl
  have hcoef : e.policy.impact.coefficient = 0 := by rw [h.policy]; rfl
  have hpass : (e.arrive tick.stamp.exch (e.tradedVolume tick)).promote tick
      (e.tradedVolume tick) = e := by
    obtain ⟨inner, policy, pending, queued, delayed, released, prevVolume, lastTraded, prevAt⟩ := e
    obtain ⟨-, -, hpending, hqueued⟩ := h
    simp only at hpending hqueued
    subst hpending hqueued
    rfl
  have hfills := adjust_eq_self hcoef hquiet tick (e.tradedVolume tick) hs
    (e.inner.onTick tick).fills
  unfold L1Engine.onTickWithImpact
  simp only [hpass]
  rw [hfills]
  unfold L1Engine.release
  simp only [hresponse, Delay.isZero]
  simp only [decide_true, Bool.not_true, Bool.false_eq_true, if_false]
  exact ⟨⟨by rw [h.inner], h.policy, h.pending, h.queued⟩, by rw [h.inner]⟩

end L1Engine.Clear

/-! ## L2 -/

/-- An L2 engine that was never fed depth, over an L1 engine that has held
nothing back. -/
structure L2Engine.Clear (a : L0Engine) (e : L2Engine) : Prop where
  inner : e.inner.Clear a
  venue : e.venue = VenueBook.new
  hasSnapshot : e.hasSnapshot = false
  invalid : e.invalid = false
  recoveryBar : e.recoveryBar = false

/-- A working copy of an empty book. -/
def WorkingDepth.Empty (d : WorkingDepth) : Prop :=
  (d.bids.getD BookSide.bids).levels = [] ∧ (d.asks.getD BookSide.asks).levels = []

/-- An empty book prices nothing, and taking from it leaves it empty. -/
theorem WorkingDepth.Empty.take {d : WorkingDepth} (h : d.Empty) (side : Side) (qty : QtyLots) :
    (d.take VenueBook.new side qty).1 = none ∧ (d.take VenueBook.new side qty).2.Empty := by
  obtain ⟨hbids, hasks⟩ := h
  cases side with
  | buy =>
    obtain ⟨htaken, hleft⟩ := BookSide.take_of_nil hasks qty
    simp only [WorkingDepth.take, VenueBook.new, htaken]
    simp [Empty, hbids, hleft]
  | sell =>
    obtain ⟨htaken, hleft⟩ := BookSide.take_of_nil hbids qty
    simp only [WorkingDepth.take, VenueBook.new, htaken]
    simp [Empty, hasks, hleft]

namespace L2Engine.Clear

variable {a : L0Engine} {e : L2Engine}

theorem submit (h : Clear a e) (order : Working) (now : Nanos) :
    Clear (a.submit order) (e.submit order now) := by
  have hahead : order.price.bind (L2Engine.queueFrom e.venue e.hasSnapshot order.side) = none := by
    cases order.price <;> simp [L2Engine.queueFrom, h.hasSnapshot]
  unfold L2Engine.submit
  rw [if_neg (by simp [h.invalid]), hahead]
  exact ⟨h.inner.submitQueue order now true, h.venue, h.hasSnapshot, h.invalid, h.recoveryBar⟩

theorem onTick (h : Clear a e) (tick : Tick) :
    Clear (a.onTick tick) (e.onTick tick) ∧
      (e.onTick tick).inner.released = (a.onTick tick).fills := by
  have hquiet : ∀ (s : WorkingDepth × Nat × Nat) side qty, s.1.Empty →
      (L2Engine.measure e.venue s side qty).1 = none ∧
        (L2Engine.measure e.venue s side qty).2.1.Empty := by
    rintro ⟨working, swept, unswept⟩ side qty hs
    obtain ⟨hnone, hempty⟩ := hs.take side qty
    simp only [h.venue, L2Engine.measure]
    rcases htake : working.take VenueBook.new side qty with ⟨answer, left⟩
    rw [htake] at hnone hempty
    simp only at hnone hempty
    subst hnone
    exact ⟨rfl, hempty⟩
  have hstart : WorkingDepth.Empty ⟨none, none⟩ := ⟨rfl, rfl⟩
  have hinner := (h.inner.sampleArrivals tick.stamp.exch
    (L2Engine.queueFrom e.venue e.hasSnapshot)).onTickWithImpact tick hquiet
      (s := (⟨none, none⟩, 0, 0)) hstart
  unfold L2Engine.onTick
  rw [if_neg (by simp [h.invalid, h.recoveryBar])]
  exact ⟨⟨hinner.1, h.venue, h.hasSnapshot, h.invalid, h.recoveryBar⟩, hinner.2⟩

end L2Engine.Clear

/-! ## Equal traces -/

/-- One call with its answer and the resting book after it. -/
def Matcher.observe (m : Matcher) (op : Op) : Matcher × (Answer × Book) :=
  ((m.call op).1, (m.call op).2, (m.call op).1.book)

/-- A matcher that behaves as the plain L0 engine `a` does. -/
inductive Matcher.Clear : Matcher → L0Engine → Prop
  | l1 {a : L0Engine} {e : L1Engine} (h : e.Clear a) : Clear (.l1 e) a
  | l2 {a : L0Engine} {e : L2Engine} (h : e.Clear a) : Clear (.l2 e) a

theorem Matcher.Clear.book {m : Matcher} {a : L0Engine} (h : m.Clear a) : m.book = a.book := by
  cases h with
  | l1 h => exact congrArg L0Engine.book h.inner
  | l2 h => exact congrArg L0Engine.book h.inner.inner

/-- Every call keeps the relation and answers as L0 does. -/
theorem Matcher.Clear.call {m : Matcher} {a : L0Engine} (h : m.Clear a) (op : Op) :
    ∃ a', ((Matcher.l0 a).call op).1 = .l0 a' ∧ (m.call op).1.Clear a' ∧
      (m.call op).2 = ((Matcher.l0 a).call op).2 := by
  cases h with
  | l1 h =>
    cases op with
    | submit order now => exact ⟨_, rfl, .l1 (h.submitQueue order now false), rfl⟩
    | cancel id => exact ⟨_, rfl, .l1 (h.cancel id).1, congrArg Answer.found (h.cancel id).2⟩
    | cancelAll => exact ⟨_, rfl, .l1 h.cancelAll.1, congrArg Answer.withdrawn h.cancelAll.2⟩
    | tick t =>
      have hquiet : ∀ (s : Unit) (side : Side) (qty : QtyLots), True →
          ((fun s _ _ => (none, s) : Measure Unit) s side qty).1 = none ∧ True := by
        simp
      have htick := h.onTickWithImpact t (s := ()) hquiet trivial
      exact ⟨_, rfl, .l1 htick.1, congrArg Answer.filled htick.2⟩
  | l2 h =>
    cases op with
    | submit order now => exact ⟨_, rfl, .l2 (h.submit order now), rfl⟩
    | cancel id =>
      have hcancel := h.inner.cancel id
      exact ⟨_, rfl, .l2 ⟨hcancel.1, h.venue, h.hasSnapshot, h.invalid, h.recoveryBar⟩,
        congrArg Answer.found hcancel.2⟩
    | cancelAll =>
      have hcancel := h.inner.cancelAll
      exact ⟨_, rfl, .l2 ⟨hcancel.1, h.venue, h.hasSnapshot, h.invalid, h.recoveryBar⟩,
        congrArg Answer.withdrawn hcancel.2⟩
    | tick t =>
      exact ⟨_, rfl, .l2 (h.onTick t).1, congrArg Answer.filled (h.onTick t).2⟩

theorem outputs_observe_of_clear {m : Matcher} {a : L0Engine} (h : m.Clear a)
    (script : List Op) :
    Trace.outputs Matcher.observe m script = Trace.outputs Matcher.observe (.l0 a) script := by
  have hsim : ∀ (s t : Matcher) (op : Op), (∃ a, t = .l0 a ∧ s.Clear a) →
      (∃ a, (t.observe op).1 = .l0 a ∧ (s.observe op).1.Clear a) ∧
        (s.observe op).2 = (t.observe op).2 := by
    rintro s t op ⟨a, rfl, hs⟩
    obtain ⟨a', ha', hnext, hans⟩ := hs.call op
    refine ⟨⟨a', ha', hnext⟩, ?_⟩
    unfold Matcher.observe
    rw [hans, hnext.book, ha']
    rfl
  exact Trace.outputs_eq_of_simulation (R := fun s t => ∃ a, t = .l0 a ∧ s.Clear a) hsim
    ⟨a, rfl, h⟩ script

/-- **A tier given nothing new answers identically**: a transparent L1 engine
and an L2 engine over one that is never fed depth give, call by call, the
answers of L0 (its fills with their prices, sizes, stamps, trade ids and order)
and its resting book. -/
theorem transparent_tiers_answer_as_l0 (instrument : InstrumentId) (script : List Op) :
    Trace.outputs Matcher.observe (.l1 (L1Engine.new instrument Policy.transparent)) script =
        Trace.outputs Matcher.observe (.l0 (L0Engine.new instrument)) script ∧
      Trace.outputs Matcher.observe
          (.l2 (L2Engine.new (L1Engine.new instrument Policy.transparent))) script =
        Trace.outputs Matcher.observe (.l0 (L0Engine.new instrument)) script := by
  have hclear : (L1Engine.new instrument Policy.transparent).Clear (L0Engine.new instrument) :=
    ⟨rfl, rfl, rfl, rfl⟩
  constructor
  · exact outputs_observe_of_clear (.l1 hclear) script
  · exact outputs_observe_of_clear (.l2 ⟨hclear, rfl, rfl, rfl, rfl⟩) script
