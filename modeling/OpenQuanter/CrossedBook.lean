/-
# When the resting book is crossed (`Book::best_bid`, `Book::best_ask`)

The engine matches an order with the market and never with another of its own.  What a
quoted tick leaves on the book is bids below the ask and asks above the bid; so the book
is crossed after it exactly if it held a bid and an ask that cross strictly inside the
spread, and the price path swept neither (`uncrossed_onTick_iff`).
-/
import OpenQuanter.L0Run

namespace Book

/-- Best resting bid price, if any limit buy rests. -/
def bestBid (b : Book) : Option PriceTicks := b.bids.head?.bind Resting.price

/-- Best resting ask price, if any limit sell rests. -/
def bestAsk (b : Book) : Option PriceTicks := b.asks.head?.bind Resting.price

/-- The best bid is below the best ask, where there are both. -/
def Uncrossed (b : Book) : Prop :=
  ∀ bid, b.bestBid = some bid → ∀ ask, b.bestAsk = some ask → bid < ask

/-- The best bid is the highest there is. -/
theorem Sorted.bestBid_eq_some {b : Book} (h : b.Sorted) {bid : PriceTicks} :
    b.bestBid = some bid ↔ (∃ r ∈ b.bids, r.price = some bid) ∧
      ∀ r ∈ b.bids, ∀ p, r.price = some p → p ≤ bid := by
  unfold bestBid
  have hdesc := h.bids_desc
  have hlimit := h.bid
  cases hb : b.bids with
  | nil => simp
  | cons best rest =>
    rw [hb] at hdesc hlimit
    obtain ⟨-, top, htop⟩ := hlimit best List.mem_cons_self
    have hmax : ∀ r ∈ best :: rest, ∀ p, r.price = some p → p ≤ top := by
      intro r hr p hp
      rcases List.mem_cons.mp hr with rfl | hr
      · exact Int64.le_of_eq (Option.some.inj (hp.symm.trans htop))
      · exact (List.pairwise_cons.mp hdesc).1 r hr top p htop hp
    rw [List.head?_cons, Option.bind_some, htop, Option.some_inj]
    constructor
    · rintro rfl
      exact ⟨⟨best, List.mem_cons_self, htop⟩, hmax⟩
    · rintro ⟨⟨r, hr, hp⟩, hall⟩
      exact Int64.le_antisymm (hall best List.mem_cons_self top htop) (hmax r hr bid hp)

/-- The best ask is the lowest there is. -/
theorem Sorted.bestAsk_eq_some {b : Book} (h : b.Sorted) {ask : PriceTicks} :
    b.bestAsk = some ask ↔ (∃ r ∈ b.asks, r.price = some ask) ∧
      ∀ r ∈ b.asks, ∀ p, r.price = some p → ask ≤ p := by
  unfold bestAsk
  have hasc := h.asks_asc
  have hlimit := h.ask
  cases hb : b.asks with
  | nil => simp
  | cons best rest =>
    rw [hb] at hasc hlimit
    obtain ⟨-, top, htop⟩ := hlimit best List.mem_cons_self
    have hmin : ∀ r ∈ best :: rest, ∀ p, r.price = some p → top ≤ p := by
      intro r hr p hp
      rcases List.mem_cons.mp hr with rfl | hr
      · exact Int64.le_of_eq (Option.some.inj (htop.symm.trans hp))
      · exact (List.pairwise_cons.mp hasc).1 r hr top p htop hp
    rw [List.head?_cons, Option.bind_some, htop, Option.some_inj]
    constructor
    · rintro rfl
      exact ⟨⟨best, List.mem_cons_self, htop⟩, hmin⟩
    · rintro ⟨⟨r, hr, hp⟩, hall⟩
      exact Int64.le_antisymm (hmin r hr ask hp) (hall best List.mem_cons_self top htop)

/-- A sorted book is crossed exactly if some bid is at or above some ask. -/
theorem Sorted.uncrossed_iff {b : Book} (h : b.Sorted) :
    b.Uncrossed ↔ ∀ buy ∈ b.bids, ∀ sell ∈ b.asks, ∀ p q, buy.price = some p →
      sell.price = some q → p < q := by
  constructor
  · intro hbest buy hbuy sell hsell p q hp hq
    have hbids : ∃ bid, b.bestBid = some bid := by
      unfold bestBid
      cases hb : b.bids with
      | nil => simp [hb] at hbuy
      | cons best rest =>
        obtain ⟨-, top, htop⟩ := h.bid best (hb ▸ List.mem_cons_self)
        exact ⟨top, htop⟩
    have hasks : ∃ ask, b.bestAsk = some ask := by
      unfold bestAsk
      cases hb : b.asks with
      | nil => simp [hb] at hsell
      | cons best rest =>
        obtain ⟨-, top, htop⟩ := h.ask best (hb ▸ List.mem_cons_self)
        exact ⟨top, htop⟩
    obtain ⟨bid, hbid⟩ := hbids
    obtain ⟨ask, hask⟩ := hasks
    have hle := (h.bestBid_eq_some.mp hbid).2 buy hbuy p hp
    have hge := (h.bestAsk_eq_some.mp hask).2 sell hsell q hq
    exact Int64.lt_of_le_of_lt hle (Int64.lt_of_lt_of_le (hbest bid hbid ask hask) hge)
  · intro hall bid hbid ask hask
    obtain ⟨⟨buy, hbuy, hp⟩, -⟩ := h.bestBid_eq_some.mp hbid
    obtain ⟨⟨sell, hsell, hq⟩, -⟩ := h.bestAsk_eq_some.mp hask
    exact hall buy hbuy sell hsell bid ask hp hq

end Book

namespace L0Engine

/-- A bid and an ask of the book that cross strictly inside the spread of a tick whose
price path swept neither. -/
def InsideSpread (e : L0Engine) (tick : Tick) : Prop :=
  ∃ buy ∈ e.book.bids, ∃ sell ∈ e.book.asks, ∃ p q, buy.price = some p ∧ sell.price = some q ∧
    q ≤ p ∧ tick.bid < q ∧ p < tick.ask ∧
    ¬ Swept e.prevPrice tick buy ∧ ¬ Swept e.prevPrice tick sell

/-- What rests after a tick is what rested and was not triggered. -/
theorem mem_iter_onTick {e : L0Engine} (ho : e.book.Orderly) {tick : Tick} {r : Resting} :
    r ∈ (e.onTick tick).book.iter ↔ r ∈ e.book.iter ∧ ¬ Triggered e.prevPrice tick r := by
  rw [onTick_book, Book.iter_dropAll ho.nodup, List.mem_filter, decide_eq_true_eq,
    mem_filledIds_onTick ho.sorted ho.nodup]
  constructor
  · rintro ⟨hr, hid⟩
    exact ⟨hr, fun htrig => hid ⟨r, hr, rfl, htrig⟩⟩
  · rintro ⟨hr, htrig⟩
    refine ⟨hr, ?_⟩
    rintro ⟨r', hr', hid, htrig'⟩
    exact htrig (Book.eq_of_id_eq ho.nodup hr' hr hid ▸ htrig')

theorem orderly_onTick {e : L0Engine} (ho : e.book.Orderly) (tick : Tick) :
    (e.onTick tick).book.Orderly := by
  rw [onTick_book]
  generalize (e.onTick tick).filledIds = ids
  suffices hall : ∀ b : Book, b.Orderly → (b.dropAll ids).Orderly from hall e.book ho
  induction ids with
  | nil => exact fun b hb => hb
  | cons id ids ih => exact fun b hb => ih (b.drop id) (hb.drop id)

/-- **When a tick leaves the book uncrossed.** -/
theorem uncrossed_onTick_iff {e : L0Engine} (ho : e.book.Orderly) {tick : Tick}
    (hbid : 0 < tick.bid) (hask : 0 < tick.ask) :
    (e.onTick tick).book.Uncrossed ↔ ¬ InsideSpread e tick := by
  have hsorted := (orderly_onTick ho tick).sorted
  have hbuy : tick.buyTrigger = tick.ask := if_pos hask
  have hsell : tick.sellTrigger = tick.bid := if_pos hbid
  -- which limit orders are left, in prices
  have hbids : ∀ r p, r.price = some p → (r ∈ (e.onTick tick).book.bids ↔
      r ∈ e.book.bids ∧ p < tick.ask ∧ ¬ Swept e.prevPrice tick r) := by
    intro r p hp
    rw [hsorted.mem_bids_iff, ho.sorted.mem_bids_iff, mem_iter_onTick ho]
    constructor
    · rintro ⟨⟨hr, htrig⟩, hside, hne⟩
      refine ⟨⟨hr, hside, hne⟩, Int64.not_le.mp fun hle => htrig (.inr ?_), fun hs =>
        htrig (.inl hs)⟩
      simp only [Reached, hside, hp, hbuy]
      exact ⟨hask, hle⟩
    · rintro ⟨⟨hr, hside, hne⟩, hlt, hs⟩
      refine ⟨⟨hr, ?_⟩, hside, hne⟩
      rintro (hswept | hreached)
      · exact hs hswept
      · simp only [Reached, hside, hp, hbuy] at hreached
        exact absurd hreached.2 (Int64.not_le.mpr hlt)
  have hasks : ∀ r q, r.price = some q → (r ∈ (e.onTick tick).book.asks ↔
      r ∈ e.book.asks ∧ tick.bid < q ∧ ¬ Swept e.prevPrice tick r) := by
    intro r q hq
    rw [hsorted.mem_asks_iff, ho.sorted.mem_asks_iff, mem_iter_onTick ho]
    constructor
    · rintro ⟨⟨hr, htrig⟩, hside, hne⟩
      refine ⟨⟨hr, hside, hne⟩, Int64.not_le.mp fun hle => htrig (.inr ?_), fun hs =>
        htrig (.inl hs)⟩
      simp only [Reached, hside, hq, hsell]
      exact ⟨hbid, hle⟩
    · rintro ⟨⟨hr, hside, hne⟩, hlt, hs⟩
      refine ⟨⟨hr, ?_⟩, hside, hne⟩
      rintro (hswept | hreached)
      · exact hs hswept
      · simp only [Reached, hside, hq, hsell] at hreached
        exact absurd hreached.2 (Int64.not_le.mpr hlt)
  rw [hsorted.uncrossed_iff]
  constructor
  · rintro hall ⟨buy, hbuys, sell, hsells, p, q, hp, hq, hle, hlow, hhigh, hsb, hss⟩
    have hlt := hall buy ((hbids buy p hp).mpr ⟨hbuys, hhigh, hsb⟩) sell
      ((hasks sell q hq).mpr ⟨hsells, hlow, hss⟩) p q hp hq
    exact absurd hle (Int64.not_le.mpr hlt)
  · intro hinside buy hbuys sell hsells p q hp hq
    obtain ⟨hbuys, hhigh, hsb⟩ := (hbids buy p hp).mp hbuys
    obtain ⟨hsells, hlow, hss⟩ := (hasks sell q hq).mp hsells
    apply Int64.not_le.mp
    exact fun hle => hinside ⟨buy, hbuys, sell, hsells, p, q, hp, hq, hle, hlow, hhigh, hsb, hss⟩

/-! ## Scripts of distinct ids -/

/-- The ids a script submits, in order. -/
def Op.submittedId : Op → Option OrderId
  | .submit w => some w.id
  | _ => none

/-- A tick with both quotes, the bid below the ask. -/
def Op.Quoted : Op → Prop
  | .tick t => 0 < t.bid ∧ t.bid < t.ask
  | _ => True

instance : (op : Op) → Decidable op.Quoted
  | .submit _ => inferInstanceAs (Decidable True)
  | .cancel _ => inferInstanceAs (Decidable True)
  | .tick t => inferInstanceAs (Decidable (0 < t.bid ∧ t.bid < t.ask))

theorem orderly_step {e : L0Engine} (ho : e.book.Orderly) {op : Op} (hfresh : op.Fresh e) :
    (e.step op).1.book.Orderly := by
  cases op with
  | submit w => exact ho.insert hfresh
  | cancel id => exact ho.drop id
  | tick t => exact orderly_onTick ho t

/-- A step rests no order but the one it submits. -/
theorem mem_restingIds_step {e : L0Engine} (ho : e.book.Orderly) (op : Op) {id : OrderId}
    (hid : id ∈ (e.step op).1.book.restingIds) :
    id ∈ e.book.restingIds ∨ op.submittedId = some id := by
  obtain ⟨r, hr, rfl⟩ := List.mem_map.mp hid
  cases op with
  | submit w =>
    rcases Book.mem_iter_insert.mp hr with rfl | hr
    · exact .inr rfl
    · exact .inl (List.mem_map_of_mem hr)
  | cancel id' => exact .inl (List.mem_map_of_mem ((Book.mem_iter_drop ho.nodup).mp hr).1)
  | tick t => exact .inl (List.mem_map_of_mem ((mem_iter_onTick ho).mp hr).1)

theorem orderly_run {e : L0Engine} (ho : e.book.Orderly) {ops : List Op}
    (hresting : ∀ id ∈ e.book.restingIds, id ∉ ops.filterMap Op.submittedId)
    (hids : (ops.filterMap Op.submittedId).Nodup) : (e.run ops).1.book.Orderly := by
  induction ops generalizing e with
  | nil => exact ho
  | cons op ops ih =>
    have hfresh : op.Fresh e := by
      cases op with
      | submit w => exact fun hid => hresting w.id hid List.mem_cons_self
      | cancel id => trivial
      | tick t => trivial
    have hrest : (ops.filterMap Op.submittedId).Nodup :=
      hids.sublist ((List.sublist_cons_self op ops).filterMap _)
    refine ih (orderly_step ho hfresh) (fun id hid hlater => ?_) hrest
    rcases mem_restingIds_step ho op hid with hid | hid
    · exact hresting id hid (((List.sublist_cons_self op ops).filterMap _).subset hlater)
    · rw [List.filterMap_cons_some hid, List.nodup_cons] at hids
      exact hids.1 hlater

/-- **When no tick of a run leaves the book crossed**: over every script of distinct
ids and quoted ticks, if and only if no tick finds a bid and an ask that cross strictly
inside its spread and that its path does not sweep. -/
theorem uncrossed_run_iff (instrument : InstrumentId) (script : List Op)
    (hids : (script.filterMap Op.submittedId).Nodup) (hquoted : ∀ op ∈ script, op.Quoted) :
    (∀ before tick after, script = before ++ .tick tick :: after →
      (((new instrument).run before).1.onTick tick).book.Uncrossed) ↔
    ∀ before tick after, script = before ++ .tick tick :: after →
      ¬ InsideSpread ((new instrument).run before).1 tick := by
  have hiff : ∀ before tick after, script = before ++ .tick tick :: after →
      ((((new instrument).run before).1.onTick tick).book.Uncrossed ↔
        ¬ InsideSpread ((new instrument).run before).1 tick) := by
    rintro before tick after rfl
    obtain ⟨hbid, hask⟩ := hquoted (.tick tick) (by simp)
    have hsub : before.Sublist (before ++ .tick tick :: after) := List.sublist_append_left _ _
    have ho : ((new instrument).run before).1.book.Orderly :=
      orderly_run Book.orderly_new (fun id hid => absurd hid List.not_mem_nil)
        (hids.sublist (hsub.filterMap _))
    exact uncrossed_onTick_iff ho hbid (Int64.lt_trans hbid hask)
  exact forall_congr' fun before => forall_congr' fun tick => forall_congr' fun after =>
    forall_congr' fun hscript => hiff before tick after hscript

/-- A bid at 99 and an ask at 103 around the spread. -/
def apartScript : List Op :=
  [.submit (limitOrder 1 .buy 99 1 ⟨0, 0⟩ .opening one_lot),
    .submit (limitOrder 2 .sell 103 1 ⟨0, 0⟩ .opening one_lot),
    .tick ⟨⟨1, 1⟩, 100, 0, 0, 99, 102, 0⟩]

theorem uncrossed_run_iff_apartScript :
    (∀ before tick after, apartScript = before ++ .tick tick :: after →
      (((new 1).run before).1.onTick tick).book.Uncrossed) ↔
    ∀ before tick after, apartScript = before ++ .tick tick :: after →
      ¬ InsideSpread ((new 1).run before).1 tick :=
  uncrossed_run_iff 1 apartScript (by decide) (by decide +kernel)

/-- A bid at 101 and an ask at 100, under a market of 99 to 102. -/
def crossingScript : List Op :=
  [.submit (limitOrder 1 .buy 101 1 ⟨0, 0⟩ .opening one_lot),
    .submit (limitOrder 2 .sell 100 1 ⟨0, 0⟩ .opening one_lot),
    .tick ⟨⟨1, 1⟩, 100, 0, 0, 99, 102, 0⟩]

/-- Neither is reached, and both rest on, crossed. -/
theorem crossed_crossingScript :
    (crossingScript.filterMap Op.submittedId).Nodup ∧ (∀ op ∈ crossingScript, op.Quoted) ∧
    ((new 1).run crossingScript).1.book.bestBid = some 101 ∧
    ((new 1).run crossingScript).1.book.bestAsk = some 100 ∧
    ¬ ((new 1).run crossingScript).1.book.Uncrossed := by
  have hbid : ((new 1).run crossingScript).1.book.bestBid = some 101 := by decide +kernel
  have hask : ((new 1).run crossingScript).1.book.bestAsk = some 100 := by decide +kernel
  refine ⟨by decide, by decide +kernel, hbid, hask, fun hall => ?_⟩
  exact absurd (hall 101 hbid 100 hask) (by decide)

end L0Engine
