/-
# Runs of the anchor tier (`L0Engine` over scripts)

A script submits, cancels and ticks; what happened is a history of submissions,
cancellations and fills.  An order rests exactly while its submission is the latest
entry about its id (`Told.rests`), which is what every claim on a run comes from: a
fill is of an order that rests, at a price within its limit, and of the earliest of
those resting at the same price (`run_safe`).

A tick is a chain of single executions (`Chain`), so what an execution preserves a tick
preserves.
-/
import OpenQuanter.L0
import OpenQuanter.History

/-! ## Books whose levels are queues -/

namespace Book

/-- The orders of a level stand in the order they came. -/
def InTurn (x y : Resting) : Prop := x.price = y.price → x.arrival < y.arrival

/-- A sorted book of distinct ids whose levels are queues. -/
structure Orderly (b : Book) : Prop where
  sorted : b.Sorted
  nodup : b.restingIds.Nodup
  bids : b.bids.Pairwise InTurn
  asks : b.asks.Pairwise InTurn
  early : ∀ r ∈ b.iter, r.arrival < b.nextArrival

theorem orderly_new : new.Orderly where
  sorted := sorted_new
  nodup := List.nodup_nil
  bids := List.Pairwise.nil
  asks := List.Pairwise.nil
  early _ h := absurd h List.not_mem_nil

theorem mem_iter_drop {b : Book} (hnd : b.restingIds.Nodup) {id : OrderId} {r : Resting} :
    r ∈ (b.drop id).iter ↔ r ∈ b.iter ∧ r.id ≠ id := by
  rw [iter_drop_of_nodup hnd, List.mem_filter, decide_eq_true_eq]

theorem mem_iter_insert {b : Book} {w : Working} {r : Resting} :
    r ∈ (b.insert w).iter ↔ r = ⟨w, b.nextArrival⟩ ∨ r ∈ b.iter := by
  rw [(iter_insert_perm b w).mem_iff, List.mem_cons]

/-- Two resting orders of one id are one order. -/
theorem eq_of_id_eq {b : Book} (hnd : b.restingIds.Nodup) {r r' : Resting} (hr : r ∈ b.iter)
    (hr' : r' ∈ b.iter) (hid : r.id = r'.id) : r = r' :=
  List.inj_on_of_nodup_map hnd hr hr' hid

theorem drop_eq_self {b : Book} {id : OrderId} (hid : id ∉ b.restingIds) : b.drop id = b := by
  have hnone : ∀ side : List Resting, (∀ r ∈ side, r ∈ b.iter) → side.any (·.id = id) = false := by
    intro side hside
    rw [List.any_eq_false]
    intro r hr
    rw [decide_eq_true_eq]
    exact fun heq => hid (heq ▸ List.mem_map_of_mem (hside r hr))
  unfold drop onSide
  rw [hnone b.bids fun r hr => by simp [iter, hr], hnone b.asks fun r hr => by simp [iter, hr],
    hnone b.marketBuys fun r hr => by simp [iter, hr],
    hnone b.marketSells fun r hr => by simp [iter, hr]]
  rfl

theorem isSome_remove {b : Book} {id : OrderId} :
    (b.remove id).1.isSome = true ↔ id ∈ b.restingIds := by
  unfold remove restingIds
  rw [Option.isSome_map, List.find?_isSome, List.mem_map]
  simp

theorem Orderly.drop {b : Book} (h : b.Orderly) (id : OrderId) : (b.drop id).Orderly := by
  obtain ⟨hbids, hasks, -, -⟩ := sublist_drop b id
  exact
    { sorted := h.sorted.drop id
      nodup := nodup_drop h.nodup id
      bids := h.bids.sublist hbids
      asks := h.asks.sublist hasks
      early := fun r hr => by
        rw [nextArrival_drop]
        exact h.early r ((mem_iter_drop h.nodup).mp hr).1 }

/-- A newcomer goes behind its level, and came after it.  `R` is the price order. -/
theorem inTurn_insertAt {R : Resting → Resting → Prop} {before : Resting → Bool} {r : Resting}
    {side : List Resting} (hsorted : side.Pairwise R) (hside : side.Pairwise InTurn)
    (hlate : ∀ x ∈ side, x.arrival < r.arrival)
    (hlevel : ∀ x ∈ side, before x = false → x.price ≠ r.price)
    (hclosed : ∀ x ∈ side, ∀ y ∈ side, R x y → before x = false → before y = false) :
    (insertAt before r side).Pairwise InTurn := by
  have hback := before_eq_false_of_mem_dropWhile hsorted hclosed
  have hsplit : (side.takeWhile before ++ side.dropWhile before).Pairwise InTurn := by
    rw [List.takeWhile_append_dropWhile]
    exact hside
  obtain ⟨hfront, hrest, hcross⟩ := List.pairwise_append.mp hsplit
  refine List.pairwise_append.mpr ⟨hfront, List.pairwise_cons.mpr ⟨?_, hrest⟩, ?_⟩
  · intro x hx heq
    have hmem := (List.dropWhile_sublist before).subset hx
    exact absurd heq.symm (hlevel x hmem (hback x hx))
  · intro x hx y hy
    rcases List.mem_cons.mp hy with rfl | hy
    · exact fun _ => hlate x ((List.takeWhile_sublist before).subset hx)
    · exact hcross x hx y hy

theorem mem_iter_of_mem_bids {b : Book} {r : Resting} (h : r ∈ b.bids) : r ∈ b.iter := by
  simp [iter, h]

theorem mem_iter_of_mem_asks {b : Book} {r : Resting} (h : r ∈ b.asks) : r ∈ b.iter := by
  simp [iter, h]

theorem Orderly.insert {b : Book} (h : b.Orderly) {w : Working} (hfresh : w.id ∉ b.restingIds) :
    (b.insert w).Orderly := by
  have hpair : (b.insert w).bids.Pairwise InTurn ∧ (b.insert w).asks.Pairwise InTurn := by
    unfold Book.insert
    rcases hs : w.side with _ | _ <;> rcases hp : w.price with _ | price
    · exact ⟨h.bids, h.asks⟩
    · refine ⟨inTurn_insertAt h.sorted.bids_desc h.bids ?_ ?_ ?_, h.asks⟩
      · exact fun x hx => h.early x (mem_iter_of_mem_bids hx)
      · intro x _ hx heq
        rw [aheadOfBid, heq] at hx
        simp [Resting.price, Working.price] at hx hp
        grind
      · intro x hx y hy hxy hbx
        obtain ⟨-, p, hxp⟩ := h.sorted.bid x hx
        obtain ⟨-, q, hyq⟩ := h.sorted.bid y hy
        have hqp := hxy p q hxp hyq
        simp only [aheadOfBid, hxp, hyq, Option.any_some, decide_eq_false_iff_not] at hbx ⊢
        grind
    · exact ⟨h.bids, h.asks⟩
    · refine ⟨h.bids, inTurn_insertAt h.sorted.asks_asc h.asks ?_ ?_ ?_⟩
      · exact fun x hx => h.early x (mem_iter_of_mem_asks hx)
      · intro x _ hx heq
        rw [aheadOfAsk, heq] at hx
        simp [Resting.price, Working.price] at hx hp
        grind
      · intro x hx y hy hxy hbx
        obtain ⟨-, p, hxp⟩ := h.sorted.ask x hx
        obtain ⟨-, q, hyq⟩ := h.sorted.ask y hy
        have hpq := hxy p q hxp hyq
        simp only [aheadOfAsk, hxp, hyq, Option.any_some, decide_eq_false_iff_not] at hbx ⊢
        grind
  exact
    { sorted := h.sorted.insert w
      nodup := (restingIds_insert_perm b w).nodup_iff.mpr (List.nodup_cons.mpr ⟨hfresh, h.nodup⟩)
      bids := hpair.1
      asks := hpair.2
      early := fun r hr => by
        rw [nextArrival_insert]
        rcases mem_iter_insert.mp hr with rfl | hr
        · exact Nat.lt_succ_self _
        · exact Nat.lt_succ_of_lt (h.early r hr) }

/-- Nothing on the book at the order's side and price came before it. -/
def First (b : Book) (r : Resting) : Prop :=
  ∀ r' ∈ b.iter, r'.order.side = r.order.side → r'.price = r.price → r.price ≠ none →
    r.arrival ≤ r'.arrival

end Book

namespace Book

/-- The best bid is the first of its level. -/
theorem Orderly.first_of_head_bids {b : Book} (h : b.Orderly) {best : Resting}
    {rest : List Resting} (hbids : b.bids = best :: rest) : b.First best := by
  intro r hr hside hprice hne
  have hbest := h.sorted.bid best (hbids ▸ List.mem_cons_self)
  have hmem : r ∈ b.bids :=
    h.sorted.mem_bids_iff.mpr ⟨hr, hside.trans hbest.1, fun hnone => hne (hprice ▸ hnone)⟩
  have hturn := h.bids
  rw [hbids] at hmem hturn
  rcases List.mem_cons.mp hmem with rfl | hmem
  · exact Nat.le_refl _
  · exact Nat.le_of_lt ((List.pairwise_cons.mp hturn).1 r hmem hprice.symm)

/-- The best ask is the first of its level. -/
theorem Orderly.first_of_head_asks {b : Book} (h : b.Orderly) {best : Resting}
    {rest : List Resting} (hasks : b.asks = best :: rest) : b.First best := by
  intro r hr hside hprice hne
  have hbest := h.sorted.ask best (hasks ▸ List.mem_cons_self)
  have hmem : r ∈ b.asks :=
    h.sorted.mem_asks_iff.mpr ⟨hr, hside.trans hbest.1, fun hnone => hne (hprice ▸ hnone)⟩
  have hturn := h.asks
  rw [hasks] at hmem hturn
  rcases List.mem_cons.mp hmem with rfl | hmem
  · exact Nat.le_refl _
  · exact Nat.le_of_lt ((List.pairwise_cons.mp hturn).1 r hmem hprice.symm)

end Book

namespace L0Engine

/-! ## A tick is a chain of executions -/

/-- A price an order may fill at: positive, and within its limit. -/
structure Fair (r : Resting) (price : PriceTicks) : Prop where
  pos : 0 < price
  buy : r.order.side = .buy → ∀ limit, r.price = some limit → price ≤ limit
  sell : r.order.side = .sell → ∀ limit, r.price = some limit → limit ≤ price

/-- `e'` comes from `e` by executions, each of an order on the book, at a fair price,
and of the first of its level; these are the fills. -/
inductive Chain : L0Engine → List Fill → L0Engine → Prop
  | nil (e : L0Engine) : Chain e [] e
  | cons {e e' : L0Engine} {r : Resting} {price : PriceTicks} {liquidity : Liquidity}
      {reason : FillReason} {stamp : Stamp} {fills : List Fill} :
      r ∈ e.book.iter → Fair r price → e.book.First r →
      Chain (e.executeAt r price liquidity reason stamp) fills e' →
      Chain e (e.fillOf r price liquidity stamp :: fills) e'

theorem Chain.trans {e₁ e₂ e₃ : L0Engine} {fills fills' : List Fill} (h : Chain e₁ fills e₂)
    (h' : Chain e₂ fills' e₃) : Chain e₁ (fills ++ fills') e₃ := by
  induction h with
  | nil e => exact h'
  | cons hr hfair hfirst _ ih => exact .cons hr hfair hfirst (ih h')

theorem book_executeAt (e : L0Engine) (r : Resting) (price : PriceTicks) (liquidity : Liquidity)
    (reason : FillReason) (stamp : Stamp) :
    (e.executeAt r price liquidity reason stamp).book = e.book.drop r.id := by
  rw [executeAt_eq]

theorem Chain.orderly {e e' : L0Engine} {fills : List Fill} (h : Chain e fills e')
    (ho : e.book.Orderly) : e'.book.Orderly := by
  induction h with
  | nil e => exact ho
  | cons hr hfair hfirst _ ih =>
    apply ih
    rw [book_executeAt]
    exact ho.drop _

/-- The fills of a chain are those its engine recorded. -/
theorem Chain.recorded {e e' : L0Engine} {fills : List Fill} (h : Chain e fills e') :
    e'.fills.map (·.fill) = e.fills.map (·.fill) ++ fills := by
  induction h with
  | nil e => rw [List.append_nil]
  | cons hr hfair hfirst _ ih =>
    rw [ih, executeAt_eq, List.map_append, List.append_assoc]
    rfl

theorem Swept.congr {prev : Option PriceTicks} {tick : Tick} {r r' : Resting}
    (h : Swept prev tick r) (hside : r'.order.side = r.order.side) (hprice : r'.price = r.price) :
    Swept prev tick r' := by
  unfold Swept sweptAsk sweptBid at h ⊢
  rwa [hside, hprice]

/-- What a positive path swept fills at a positive price, its own. -/
theorem Swept.fair {prev : PriceTicks} {tick : Tick} {r : Resting} (h : Swept (some prev) tick r)
    (hprev : 0 < prev) (hlast : 0 < tick.last) : Fair r (r.price.getD 0) := by
  have hdn : 0 < tick.dnExtent := by
    unfold Tick.dnExtent
    split_ifs with hlow
    · exact hlow
    · exact hlast
  have hpos : ∃ p, r.price = some p ∧ 0 < p := by
    unfold Swept sweptAsk sweptBid at h
    cases hp : r.price with
    | none =>
      simp only [hp, Option.any_none] at h
      split_ifs at h
      · exact h.2.elim
      · exact h.2.elim
    | some p =>
      refine ⟨p, rfl, ?_⟩
      simp only [hp, Option.any_some, Bool.and_eq_true, decide_eq_true_eq] at h
      split_ifs at h
      · exact Int64.lt_trans hprev h.2.1
      · exact Int64.lt_of_lt_of_le hdn h.2.2
  obtain ⟨p, hp, hpos⟩ := hpos
  rw [hp, Option.getD_some]
  refine ⟨hpos, fun _ limit hlimit => ?_, fun _ limit hlimit => ?_⟩
  · exact Int64.le_of_eq (Option.some.inj (hp.symm.trans hlimit))
  · exact Int64.le_of_eq (Option.some.inj (hlimit.symm.trans hp))

/-- Market orders fill at the reference price, one after the other. -/
theorem chain_executeMarket {tick : Tick} {reference : PriceTicks} (hpos : 0 < reference)
    {orders : List Resting} {e : L0Engine} (ho : e.book.Orderly)
    (horders : ∀ r ∈ orders, r ∈ e.book.iter ∧ r.price = none)
    (hnd : (orders.map Resting.id).Nodup) :
    ∃ fills, Chain e fills (executeMarket tick reference orders e) := by
  induction orders generalizing e with
  | nil => exact ⟨[], .nil e⟩
  | cons r rest ih =>
    obtain ⟨hr, hprice⟩ := horders r List.mem_cons_self
    rw [List.map_cons, List.nodup_cons] at hnd
    have hbook := book_executeAt e r reference .taker .market tick.stamp
    -- the others rest on: none of them has the id that goes
    have hrest : ∀ x ∈ rest,
        x ∈ (e.executeAt r reference .taker .market tick.stamp).book.iter ∧ x.price = none := by
      intro x hx
      obtain ⟨hmem, hnone⟩ := horders x (List.mem_cons_of_mem r hx)
      rw [hbook, Book.mem_iter_drop ho.nodup]
      exact ⟨⟨hmem, fun hid => hnd.1 (hid ▸ List.mem_map_of_mem hx)⟩, hnone⟩
    obtain ⟨fills, hchain⟩ := ih (by rw [hbook]; exact ho.drop r.id) hrest hnd.2
    have hfair : Fair r reference :=
      ⟨hpos, fun _ _ h => (nomatch hprice.symm.trans h), fun _ _ h => (nomatch hprice.symm.trans h)⟩
    exact ⟨_, .cons hr hfair (fun _ _ _ _ hne => absurd hprice hne) hchain⟩

/-- The swept orders fill in the order they came: of those left, every one still on
the book is a candidate, and the candidates are sorted by arrival. -/
theorem chain_gapExecute {prev : PriceTicks} {tick : Tick} (hprev : 0 < prev)
    (hlast : 0 < tick.last) {candidates : List (Nat × OrderId)} {e : L0Engine}
    (ho : e.book.Orderly) (hsorted : candidates.Pairwise candidateLE)
    (hswept : ∀ c ∈ candidates, ∀ r ∈ e.book.iter, r.id = c.2 →
      r.arrival = c.1 ∧ Swept (some prev) tick r)
    (hall : ∀ r ∈ e.book.iter, Swept (some prev) tick r → (r.arrival, r.id) ∈ candidates) :
    ∃ fills, Chain e fills (candidates.foldl (gapExecute tick) e) := by
  induction candidates generalizing e with
  | nil => exact ⟨[], .nil e⟩
  | cons c rest ih =>
    rw [List.foldl_cons]
    rw [List.pairwise_cons] at hsorted
    cases hfind : e.book.iter.find? (·.id = c.2) with
    | none =>
      have hskip : gapExecute tick e c = e := by
        unfold gapExecute
        rw [hfind]
      rw [hskip]
      refine ih ho hsorted.2 (fun x hx => hswept x (List.mem_cons_of_mem c hx)) ?_
      intro r hr hs
      rcases List.mem_cons.mp (hall r hr hs) with heq | hmem
      · -- the candidate is not on the book, so it is not this order
        have hnone := List.find?_eq_none.mp hfind r hr
        rw [← heq] at hnone
        simp at hnone
      · exact hmem
    | some r =>
      have hr := List.mem_of_find?_eq_some hfind
      have hid : r.id = c.2 := by simpa using List.find?_some hfind
      obtain ⟨harrival, hs⟩ := hswept c List.mem_cons_self r hr hid
      have hstep : gapExecute tick e c =
          e.executeAt r (r.price.getD 0) .maker .gapCrossed (e.prevStamp.getD tick.stamp) := by
        unfold gapExecute
        rw [hfind]
      have hbook : (gapExecute tick e c).book = e.book.drop r.id := by
        rw [hstep, book_executeAt]
      have hkept : ∀ x, x ∈ (gapExecute tick e c).book.iter ↔ x ∈ e.book.iter ∧ x.id ≠ r.id := by
        intro x
        rw [hbook, Book.mem_iter_drop ho.nodup]
      obtain ⟨fills, hchain⟩ := ih (e := gapExecute tick e c) (by rw [hbook]; exact ho.drop r.id)
        hsorted.2
        (fun x hx y hy => hswept x (List.mem_cons_of_mem c hx) y ((hkept y).mp hy).1)
        (fun y hy hsy => by
          obtain ⟨hy, hne⟩ := (hkept y).mp hy
          rcases List.mem_cons.mp (hall y hy hsy) with heq | hmem
          · exact absurd ((congrArg Prod.snd heq).trans hid.symm) hne
          · exact hmem)
      have hfirst : e.book.First r := by
        intro r' hr' hside hprice _
        have hmem := hall r' hr' (hs.congr hside hprice)
        rw [harrival]
        rcases List.mem_cons.mp hmem with heq | hmem
        · exact Nat.le_of_eq (congrArg Prod.fst heq).symm
        · rcases hsorted.1 _ hmem with hlt | ⟨heq, -⟩
          · exact Nat.le_of_lt hlt
          · exact Nat.le_of_eq heq
      rw [hstep] at hchain ⊢
      exact ⟨_, .cons hr (hs.fair hprev hlast) hfirst hchain⟩

theorem chain_gapFill {e : L0Engine} {tick : Tick} (hlast : 0 < tick.last)
    (hprev : ∀ prev, e.prevPrice = some prev → 0 < prev) (ho : e.book.Orderly) :
    ∃ fills, Chain e fills (e.gapFill tick) := by
  unfold gapFill
  cases hp : e.prevPrice with
  | none => exact ⟨[], .nil e⟩
  | some prev =>
    simp only
    have hmem : ∀ c : Nat × OrderId,
        c ∈ ((e.gapCandidates prev tick).map (fun r => (r.arrival, r.id))).insertionSort candidateLE
          ↔ ∃ r, (r ∈ e.book.iter ∧ Swept (some prev) tick r) ∧ (r.arrival, r.id) = c := by
      intro c
      rw [List.mem_insertionSort, List.mem_map]
      simp only [mem_gapCandidates_iff ho.sorted]
    refine chain_gapExecute (hprev prev hp) hlast ho ?_ ?_ ?_
    · have : Std.Total candidateLE := ⟨fun a b => by unfold candidateLE; grind⟩
      have : IsTrans (Nat × OrderId) candidateLE := ⟨fun a b c => by unfold candidateLE; grind⟩
      exact List.pairwise_insertionSort candidateLE _
    · intro c hc r hr hid
      obtain ⟨r', ⟨hr', hs⟩, rfl⟩ := (hmem c).mp hc
      obtain rfl := Book.eq_of_id_eq ho.nodup hr hr' hid
      exact ⟨rfl, hs⟩
    · exact fun r hr hs => (hmem _).mpr ⟨r, ⟨hr, hs⟩, rfl⟩

/-- The loop over a side takes its best order, while the window reached it. -/
theorem chain_crossSide {side : Book → List Resting} {missed : PriceTicks → Bool}
    {fillPrice : PriceTicks → PriceTicks} {tick : Tick}
    (hiter : ∀ b, ∀ r ∈ side b, r ∈ b.iter)
    (hfirst : ∀ b : Book, b.Orderly → ∀ best rest, side b = best :: rest → b.First best)
    (hfair : ∀ b : Book, b.Orderly → ∀ r ∈ side b, ∀ p, r.price = some p → missed p = false →
      Fair r (fillPrice p))
    (fuel : Nat) {e : L0Engine} (ho : e.book.Orderly) :
    ∃ fills, Chain e fills (crossSide side missed fillPrice tick fuel e) := by
  induction fuel generalizing e with
  | zero => exact ⟨[], .nil e⟩
  | succ fuel ih =>
    unfold crossSide
    cases hside : side e.book with
    | nil => exact ⟨[], .nil e⟩
    | cons best rest =>
      have hbest : best ∈ side e.book := hside ▸ List.mem_cons_self
      simp only
      cases hprice : best.price with
      | none => exact ⟨[], .nil e⟩
      | some price =>
        simp only
        split_ifs with hmissed
        · exact ⟨[], .nil e⟩
        · obtain ⟨fills, hchain⟩ :=
            ih (e := e.execute best (fillPrice price) .maker .crossed tick)
              (by unfold execute; rw [book_executeAt]; exact ho.drop best.id)
          have hpaid := hfair e.book ho best hbest price hprice (Bool.eq_false_iff.mpr hmissed)
          exact ⟨_, .cons (hiter e.book best hbest) hpaid (hfirst e.book ho best rest hside) hchain⟩

theorem buyFillReference_pos {tick : Tick} (hlast : 0 < tick.last) : 0 < tick.buyFillReference := by
  unfold Tick.buyFillReference
  split_ifs with hask
  · exact hask
  · exact hlast

theorem sellFillReference_pos {tick : Tick} (hlast : 0 < tick.last) :
    0 < tick.sellFillReference := by
  unfold Tick.sellFillReference
  split_ifs with hbid
  · exact hbid
  · exact hlast

/-- A reached bid fills at its limit or better. -/
theorem fair_bidFillPrice {tick : Tick} {r : Resting} {p : PriceTicks}
    (hside : r.order.side = .buy) (hp : r.price = some p) (htrigger : 0 < tick.buyTrigger)
    (hreached : tick.buyTrigger ≤ p) : Fair r (bidFillPrice tick p) := by
  have hpos : 0 < p := Int64.lt_of_lt_of_le htrigger hreached
  have hmin : min p tick.buyFillReference =
      if p ≤ tick.buyFillReference then p else tick.buyFillReference := rfl
  have hprice : 0 < bidFillPrice tick p ∧ bidFillPrice tick p ≤ p := by
    unfold bidFillPrice
    rw [hmin]
    split_ifs with href hle
    · exact ⟨hpos, Int64.le_refl p⟩
    · exact ⟨href, Int64.le_of_lt (Int64.not_le.mp hle)⟩
    · exact ⟨hpos, Int64.le_refl p⟩
  refine ⟨hprice.1, fun _ limit hlimit => ?_, fun hsell => ?_⟩
  · rw [← Option.some.inj (hp.symm.trans hlimit)]
    exact hprice.2
  · cases hside.symm.trans hsell

/-- A reached ask fills at its limit or better. -/
theorem fair_askFillPrice {tick : Tick} (hlast : 0 < tick.last) {r : Resting} {p : PriceTicks}
    (hside : r.order.side = .sell) (hp : r.price = some p) : Fair r (askFillPrice tick p) := by
  have href := sellFillReference_pos hlast
  have hmax : max p tick.sellFillReference =
      if p ≤ tick.sellFillReference then tick.sellFillReference else p := rfl
  have hprice : 0 < askFillPrice tick p ∧ p ≤ askFillPrice tick p := by
    unfold askFillPrice
    rw [if_pos href, hmax]
    split_ifs with hle
    · exact ⟨href, hle⟩
    · exact ⟨Int64.lt_trans href (Int64.not_le.mp hle), Int64.le_refl p⟩
  refine ⟨hprice.1, fun hbuy => ?_, fun _ limit hlimit => ?_⟩
  · cases hside.symm.trans hbuy
  · rw [← Option.some.inj (hp.symm.trans hlimit)]
    exact hprice.2

theorem chain_crossBids {e : L0Engine} {tick : Tick} (htrigger : 0 < tick.buyTrigger)
    (ho : e.book.Orderly) : ∃ fills, Chain e fills (crossBids tick e) := by
  refine chain_crossSide (fun b r hr => Book.mem_iter_of_mem_bids hr)
    (fun b hb best rest hbids => hb.first_of_head_bids hbids) ?_ _ ho
  intro b hb r hr p hp hreached
  exact fair_bidFillPrice (hb.sorted.bid r hr).1 hp htrigger (by simpa using hreached)

theorem chain_crossAsks {e : L0Engine} {tick : Tick} (hlast : 0 < tick.last)
    (ho : e.book.Orderly) : ∃ fills, Chain e fills (crossAsks tick e) := by
  refine chain_crossSide (fun b r hr => Book.mem_iter_of_mem_asks hr)
    (fun b hb best rest hasks => hb.first_of_head_asks hasks) ?_ _ ho
  intro b hb r hr p hp _
  exact fair_askFillPrice hlast (hb.sorted.ask r hr).1 hp

theorem chain_crossMarket {e : L0Engine} {tick : Tick} (hlast : 0 < tick.last)
    (ho : e.book.Orderly) : ∃ fills, Chain e fills (e.crossMarket tick) := by
  have hmarket : ∀ {b : Book}, b.Orderly → (∀ r ∈ b.marketBuys, r ∈ b.iter ∧ r.price = none) ∧
      (b.marketBuys.map Resting.id).Nodup ∧ (∀ r ∈ b.marketSells, r ∈ b.iter ∧ r.price = none) ∧
      (b.marketSells.map Resting.id).Nodup := by
    intro b hb
    have hids := hb.nodup
    unfold Book.restingIds Book.iter at hids
    refine ⟨fun r hr => ⟨by simp [Book.iter, hr], (hb.sorted.marketBuy r hr).2⟩,
      hids.sublist (List.Sublist.map _ ?_),
      fun r hr => ⟨by simp [Book.iter, hr], (hb.sorted.marketSell r hr).2⟩,
      hids.sublist (List.Sublist.map _ ?_)⟩
    · exact (List.sublist_append_right _ _).trans (List.sublist_append_left _ _)
    · exact List.sublist_append_right _ _
  unfold crossMarket
  simp only
  obtain ⟨hbuys, hbuysnd, -⟩ := hmarket ho
  obtain ⟨bought, hbought⟩ := chain_executeMarket (buyFillReference_pos hlast) ho hbuys hbuysnd
  have ho' := hbought.orderly ho
  obtain ⟨-, -, hsells, hsellsnd⟩ := hmarket ho'
  obtain ⟨sold, hsold⟩ := chain_executeMarket (sellFillReference_pos hlast) ho' hsells hsellsnd
  exact ⟨_, hbought.trans hsold⟩

theorem chain_cross {e : L0Engine} {tick : Tick} (hlast : 0 < tick.last) (ho : e.book.Orderly) :
    ∃ fills, Chain e fills (e.cross tick) := by
  obtain ⟨traded, htraded⟩ := chain_crossMarket hlast ho
  have ho₁ := htraded.orderly ho
  have hbids : ∃ fills, Chain (e.crossMarket tick) fills
      (if 0 < tick.buyTrigger then crossBids tick
        (e.crossMarket tick) else e.crossMarket tick) := by
    split_ifs with htrigger
    · exact chain_crossBids htrigger ho₁
    · exact ⟨[], .nil _⟩
  obtain ⟨bids, hbids⟩ := hbids
  have ho₂ := hbids.orderly ho₁
  unfold cross
  simp only
  generalize (if 0 < tick.buyTrigger then crossBids tick (e.crossMarket tick)
    else e.crossMarket tick) = e₂ at hbids ho₂ ⊢
  split_ifs
  · obtain ⟨asks, hasks⟩ := chain_crossAsks hlast ho₂
    exact ⟨_, htraded.trans (hbids.trans hasks)⟩
  · exact ⟨_, htraded.trans hbids⟩

/-- **A tick is a chain of executions** of the orders on the book. -/
theorem chain_onTick {e : L0Engine} {tick : Tick} (hlast : 0 < tick.last)
    (hprev : ∀ prev, e.prevPrice = some prev → 0 < prev) (ho : e.book.Orderly) :
    Chain { e with fills := [] } ((e.onTick tick).fills.map (·.fill))
      ((gapFill { e with fills := [] } tick).cross tick) := by
  obtain ⟨swept, hswept⟩ := chain_gapFill (e := { e with fills := [] }) hlast hprev ho
  obtain ⟨crossed, hcrossed⟩ := chain_cross hlast (hswept.orderly ho)
  have hchain := hswept.trans hcrossed
  have hfills : (e.onTick tick).fills.map (·.fill) = swept ++ crossed := hchain.recorded
  rw [hfills]
  exact hchain

/-! ## The loops end -/

/-- The `while` loop over one side of the book, without a bound on its iterations. -/
inductive Loop (side : Book → List Resting) (missed : PriceTicks → Bool)
    (fillPrice : PriceTicks → PriceTicks) (tick : Tick) : L0Engine → L0Engine → Prop
  | emptied {e : L0Engine} : side e.book = [] → Loop side missed fillPrice tick e e
  | unpriced {e : L0Engine} {best : Resting} {rest : List Resting} :
      side e.book = best :: rest → best.price = none → Loop side missed fillPrice tick e e
  | missed {e : L0Engine} {best : Resting} {rest : List Resting} {price : PriceTicks} :
      side e.book = best :: rest → best.price = some price → missed price = true →
      Loop side missed fillPrice tick e e
  | took {e e' : L0Engine} {best : Resting} {rest : List Resting} {price : PriceTicks} :
      side e.book = best :: rest → best.price = some price → missed price = false →
      Loop side missed fillPrice tick (e.execute best (fillPrice price) .maker .crossed tick) e' →
      Loop side missed fillPrice tick e e'

/-- On any book the loop ends, with as many iterations as there are orders: each takes
one off. -/
theorem loop_crossSide {side : Book → List Resting} (missed : PriceTicks → Bool)
    (fillPrice : PriceTicks → PriceTicks) (tick : Tick)
    (hiter : ∀ b, ∀ r ∈ side b, r ∈ b.iter) {fuel : Nat} {e : L0Engine}
    (hfuel : e.book.len ≤ fuel) :
    Loop side missed fillPrice tick e (crossSide side missed fillPrice tick fuel e) := by
  induction fuel generalizing e with
  | zero =>
    have hnil : e.book.iter = [] := by
      rw [← List.length_eq_zero_iff, Book.length_iter]
      omega
    apply Loop.emptied
    rw [List.eq_nil_iff_forall_not_mem]
    intro r hr
    have hmem := hiter e.book r hr
    rw [hnil] at hmem
    exact absurd hmem List.not_mem_nil
  | succ fuel ih =>
    unfold crossSide
    cases hside : side e.book with
    | nil => exact .emptied hside
    | cons best rest =>
      simp only
      cases hprice : best.price with
      | none => exact .unpriced hside hprice
      | some price =>
        simp only
        split_ifs with hmissed
        · exact .missed hside hprice hmissed
        · refine .took hside hprice (Bool.eq_false_iff.mpr hmissed) (ih ?_)
          have hbest := hiter e.book best (hside ▸ List.mem_cons_self)
          have hlen := Book.len_drop_of_mem
            (List.mem_map_of_mem hbest : best.id ∈ e.book.restingIds)
          unfold execute
          rw [book_executeAt]
          omega

/-! ## Scripts and histories -/

/-- Something a script does. -/
inductive Op where
  | submit (order : Working)
  | cancel (id : OrderId)
  | tick (tick : Tick)

/-- Something that happened to an order. -/
inductive Entry where
  | submitted (order : Working)
  | cancelled (id : OrderId)
  | filled (fill : Fill)

/-- The order an entry is about. -/
def Entry.id : Entry → OrderId
  | .submitted w => w.id
  | .cancelled id => id
  | .filled f => f.order

def Entry.isSubmitted : Entry → Bool
  | .submitted _ => true
  | _ => false

def Entry.isCancelled : Entry → Bool
  | .cancelled _ => true
  | _ => false

def Entry.fill? : Entry → Option Fill
  | .filled f => some f
  | _ => none

/-- How many orders a history submitted. -/
def submitted (h : List Entry) : Nat := h.countP Entry.isSubmitted

def cancelled (h : List Entry) : Nat := h.countP Entry.isCancelled

/-- The fills of a history. -/
def fillsOf (h : List Entry) : List Fill := h.filterMap Entry.fill?

theorem submitted_snoc (h : List Entry) (x : Entry) :
    submitted (h ++ [x]) = submitted h + x.isSubmitted.toNat := by
  unfold submitted
  rw [List.countP_append, List.countP_singleton]
  cases x.isSubmitted <;> rfl

theorem cancelled_snoc (h : List Entry) (x : Entry) :
    cancelled (h ++ [x]) = cancelled h + x.isCancelled.toNat := by
  unfold cancelled
  rw [List.countP_append, List.countP_singleton]
  cases x.isCancelled <;> rfl

theorem fillsOf_snoc (h : List Entry) (x : Entry) :
    fillsOf (h ++ [x]) = fillsOf h ++ x.fill?.toList := by
  unfold fillsOf
  rw [List.filterMap_append]
  cases x <;> rfl

/-- One step of a script, with what it did. -/
def step (e : L0Engine) : Op → L0Engine × List Entry
  | .submit w => (e.submit w, [.submitted w])
  | .cancel id => ((e.cancel id).1, if (e.cancel id).2 then [.cancelled id] else [])
  | .tick t => (e.onTick t, (e.onTick t).fills.map fun f => .filled f.fill)

/-- A script, with what happened. -/
def run : L0Engine → List Op → L0Engine × List Entry
  | e, [] => (e, [])
  | e, op :: ops => ((run (e.step op).1 ops).1, (e.step op).2 ++ (run (e.step op).1 ops).2)

/-- A submission is of an id that no resting order has. -/
def Op.Fresh (e : L0Engine) : Op → Prop
  | .submit w => w.id ∉ e.book.restingIds
  | _ => True

/-- A tick has a last price. -/
def Op.Priced : Op → Prop
  | .tick t => 0 < t.last
  | _ => True

/-- The live ids of a script are distinct. -/
def FreshRun : L0Engine → List Op → Prop
  | _, [] => True
  | e, op :: ops => op.Fresh e ∧ FreshRun (e.step op).1 ops

instance (e : L0Engine) : (op : Op) → Decidable (op.Fresh e)
  | .submit w => inferInstanceAs (Decidable (w.id ∉ e.book.restingIds))
  | .cancel _ => inferInstanceAs (Decidable True)
  | .tick _ => inferInstanceAs (Decidable True)

instance : (op : Op) → Decidable op.Priced
  | .submit _ => inferInstanceAs (Decidable True)
  | .cancel _ => inferInstanceAs (Decidable True)
  | .tick t => inferInstanceAs (Decidable (0 < t.last))

instance decidableFreshRun : (e : L0Engine) → (ops : List Op) → Decidable (FreshRun e ops)
  | _, [] => inferInstanceAs (Decidable True)
  | e, op :: ops =>
    have := decidableFreshRun (e.step op).1 ops
    inferInstanceAs (Decidable (op.Fresh e ∧ FreshRun (e.step op).1 ops))

/-! ## What a history says of the book -/

open History

/-- The limit of an order is kept by a fill of it. -/
def Kept (w : Working) (f : Fill) : Prop :=
  (w.side = .buy → ∀ limit, w.price = some limit → f.price ≤ limit) ∧
    (w.side = .sell → ∀ limit, w.price = some limit → limit ≤ f.price)

/-- A fill that a history allows: of an order that rests (its submission is the latest
entry about it), for all that is left of it, at a positive price within its limit, and
of the one that was submitted first among those resting at its side and price. -/
def Allowed (h : List Entry) (f : Fill) : Prop :=
  0 < f.price ∧ ∃ before w, Latest Entry.id h before (.submitted w) ∧ w.id = f.order ∧
    f.side = w.side ∧ f.qty = w.remaining ∧ Kept w f ∧
    ∀ before' w', Latest Entry.id h before' (.submitted w') → w'.side = w.side →
      w'.price = w.price → w.price ≠ none → before.length ≤ before'.length

/-- Every fill of a history is one it allows. -/
def Sound (h : List Entry) : Prop :=
  Always (fun before x => ∀ f, x = .filled f → Allowed before f) h

/-- The engine is where a history left it. -/
structure Told (h : List Entry) (e : L0Engine) : Prop where
  orderly : e.book.Orderly
  /-- An order rests exactly while its submission is the latest entry about its id. -/
  rests : ∀ r, r ∈ e.book.iter ↔
    ∃ before, Latest Entry.id h before (.submitted r.order) ∧ r.arrival = submitted before
  arrivals : e.book.nextArrival = submitted h
  trades : e.ids.nextTrade = UInt64.ofNat (fillsOf h).length
  counted : (fillsOf h).map Fill.trade =
    (List.range (fillsOf h).length).map fun k => UInt64.ofNat (k + 1)
  balance : submitted h = (fillsOf h).length + cancelled h + e.book.len
  priced : ∀ prev, e.prevPrice = some prev → 0 < prev
  sound : Sound h

theorem told_new (instrument : InstrumentId) : Told [] (new instrument) where
  orderly := Book.orderly_new
  rests r := by
    constructor
    · exact fun h => absurd h List.not_mem_nil
    · rintro ⟨before, h, -⟩
      exact absurd h not_latest_nil
  arrivals := rfl
  trades := rfl
  counted := rfl
  balance := rfl
  priced _ h := nomatch h
  sound := always_nil

variable {h : List Entry} {e : L0Engine}

/-- What rests has an id no other resting order has. -/
theorem Told.submit (ht : Told h e) {w : Working} (hfresh : w.id ∉ e.book.restingIds) :
    Told (h ++ [.submitted w]) (e.submit w) where
  orderly := ht.orderly.insert hfresh
  rests r := by
    show r ∈ (e.book.insert w).iter ↔ _
    rw [Book.mem_iter_insert]
    constructor
    · rintro (rfl | hr)
      · exact ⟨h, latest_snoc.mpr (.inr ⟨rfl, rfl⟩), ht.arrivals⟩
      · obtain ⟨before, hlatest, harrival⟩ := (ht.rests r).mp hr
        refine ⟨before, latest_snoc.mpr (.inl ⟨hlatest, fun hid => hfresh ?_⟩), harrival⟩
        exact List.mem_map.mpr ⟨r, hr, hid.symm⟩
    · rintro ⟨before, hlatest, harrival⟩
      rcases latest_snoc.mp hlatest with ⟨hlatest, -⟩ | ⟨rfl, hsub⟩
      · exact .inr ((ht.rests r).mpr ⟨before, hlatest, harrival⟩)
      · refine .inl ?_
        obtain ⟨order, arrival⟩ := r
        obtain rfl := Entry.submitted.inj hsub
        rw [ht.arrivals]
        exact congrArg _ harrival
  arrivals := by
    show (e.book.insert w).nextArrival = _
    rw [Book.nextArrival_insert, ht.arrivals, submitted_snoc]
    rfl
  trades := by
    show e.ids.nextTrade = _
    rw [fillsOf_snoc]
    simpa [Entry.fill?] using ht.trades
  counted := by
    rw [fillsOf_snoc]
    simpa [Entry.fill?] using ht.counted
  balance := by
    have hlen : (e.book.insert w).len = e.book.len + 1 := by
      rw [← Book.length_iter, (Book.iter_insert_perm e.book w).length_eq, List.length_cons,
        Book.length_iter]
    have hbalance := ht.balance
    show _ = _ + _ + (e.book.insert w).len
    rw [hlen, submitted_snoc, cancelled_snoc, fillsOf_snoc]
    simp only [Entry.isSubmitted, Entry.isCancelled, Entry.fill?, Option.toList_none,
      List.append_nil, Bool.toNat_true, Bool.toNat_false]
    omega
  priced := ht.priced
  sound := always_snoc ht.sound fun f hf => nomatch hf

/-- An order that leaves with an entry about it: the others rest as they did. -/
theorem Told.rests_drop (ht : Told h e) {x : Entry} (hx : x.isSubmitted = false) (r : Resting) :
    r ∈ (e.book.drop x.id).iter ↔
      ∃ before, Latest Entry.id (h ++ [x]) before (.submitted r.order) ∧
        r.arrival = submitted before := by
  rw [Book.mem_iter_drop ht.orderly.nodup, ht.rests r]
  constructor
  · rintro ⟨⟨before, hlatest, harrival⟩, hne⟩
    exact ⟨before, latest_snoc.mpr (.inl ⟨hlatest, fun hid => hne hid.symm⟩), harrival⟩
  · rintro ⟨before, hlatest, harrival⟩
    rcases latest_snoc.mp hlatest with ⟨hlatest, hne⟩ | ⟨-, hsub⟩
    · exact ⟨⟨before, hlatest, harrival⟩, fun hid => hne hid.symm⟩
    · rw [← hsub] at hx
      cases hx

theorem Told.cancel (ht : Told h e) {id : OrderId} (hid : id ∈ e.book.restingIds) :
    Told (h ++ [.cancelled id]) { e with book := e.book.drop id } where
  orderly := ht.orderly.drop id
  rests r := ht.rests_drop (x := .cancelled id) rfl r
  arrivals := by
    show (e.book.drop id).nextArrival = _
    rw [Book.nextArrival_drop, ht.arrivals, submitted_snoc]
    rfl
  trades := by
    rw [fillsOf_snoc]
    simpa [Entry.fill?] using ht.trades
  counted := by
    rw [fillsOf_snoc]
    simpa [Entry.fill?] using ht.counted
  balance := by
    have hlen := Book.len_drop_of_mem hid
    have hbalance := ht.balance
    show _ = _ + _ + (e.book.drop id).len
    rw [submitted_snoc, cancelled_snoc, fillsOf_snoc]
    simp only [Entry.isSubmitted, Entry.isCancelled, Entry.fill?, Option.toList_none,
      List.append_nil, Bool.toNat_true, Bool.toNat_false]
    omega
  priced := ht.priced
  sound := always_snoc ht.sound fun f hf => nomatch hf

/-- Of two resting orders, the one that arrived no later was submitted no later. -/
theorem length_le_of_submitted_le {before before' : List Entry} {w w' : Working}
    (hb : Latest Entry.id h before (.submitted w)) (hb' : Latest Entry.id h before' (.submitted w'))
    (hle : submitted before ≤ submitted before') : before.length ≤ before'.length := by
  by_contra hlt
  obtain ⟨after, rfl, -⟩ := hb
  obtain ⟨after', heq, -⟩ := hb'
  rcases List.append_eq_append_iff.mp heq with ⟨mid, hmid, -⟩ | ⟨mid, rfl, hmid⟩
  · rw [hmid, List.length_append] at hlt
    omega
  · -- the later prefix holds the submission that follows the earlier one
    cases mid with
    | nil =>
      rw [List.append_nil] at hlt
      omega
    | cons x mid =>
      obtain ⟨rfl, -⟩ := List.cons.inj hmid
      unfold submitted at hle
      rw [List.countP_append, List.countP_cons_of_pos rfl] at hle
      omega

theorem Told.execute (ht : Told h e) {r : Resting} (hr : r ∈ e.book.iter) {price : PriceTicks}
    (hfair : Fair r price) (hfirst : e.book.First r) (liquidity : Liquidity) (reason : FillReason)
    (stamp : Stamp) :
    Told (h ++ [.filled (e.fillOf r price liquidity stamp)])
      (e.executeAt r price liquidity reason stamp) := by
  rw [executeAt_eq]
  exact
    { orderly := ht.orderly.drop r.id
      rests := ht.rests_drop (x := .filled (e.fillOf r price liquidity stamp)) rfl
      arrivals := by
        show (e.book.drop r.id).nextArrival = _
        rw [Book.nextArrival_drop, ht.arrivals, submitted_snoc]
        rfl
      trades := by
        show e.ids.nextTrade + 1 = _
        rw [ht.trades, fillsOf_snoc]
        simp [Entry.fill?]
      counted := by
        have htrade : (e.fillOf r price liquidity stamp).trade =
            UInt64.ofNat ((fillsOf h).length + 1) := by
          show e.ids.nextTrade + 1 = _
          rw [ht.trades]
          simp
        rw [fillsOf_snoc, List.map_append, ht.counted, List.length_append]
        show _ ++ [(e.fillOf r price liquidity stamp).trade] =
          (List.range ((fillsOf h).length + 1)).map _
        rw [htrade, List.range_succ, List.map_append]
        rfl
      balance := by
        have hlen := Book.len_drop_of_mem (List.mem_map_of_mem hr : r.id ∈ e.book.restingIds)
        have hbalance := ht.balance
        show _ = _ + _ + (e.book.drop r.id).len
        rw [submitted_snoc, cancelled_snoc, fillsOf_snoc]
        simp only [Entry.isSubmitted, Entry.isCancelled, Entry.fill?, Option.toList_some,
          List.length_append, List.length_singleton, Bool.toNat_false]
        omega
      priced := ht.priced
      sound := by
        refine always_snoc ht.sound fun f hf => ?_
        obtain rfl := Entry.filled.inj hf
        obtain ⟨before, hlatest, harrival⟩ := (ht.rests r).mp hr
        refine ⟨hfair.pos, before, r.order, hlatest, rfl, rfl, rfl, ⟨hfair.buy, hfair.sell⟩, ?_⟩
        intro before' w' hlatest' hside hprice hne
        apply length_le_of_submitted_le hlatest hlatest'
        have hr' : (⟨w', submitted before'⟩ : Resting) ∈ e.book.iter :=
          (ht.rests _).mpr ⟨before', hlatest', rfl⟩
        rw [← harrival]
        exact hfirst _ hr' hside hprice hne }

theorem Told.chain {e' : L0Engine} {fills : List Fill} (hchain : Chain e fills e')
    (ht : Told h e) : Told (h ++ fills.map .filled) e' := by
  induction hchain generalizing h with
  | nil e => rwa [List.map_nil, List.append_nil]
  | cons hr hfair hfirst _ ih =>
    have hnext := ih (ht.execute hr hfair hfirst _ _ _)
    rwa [List.append_assoc] at hnext

theorem Told.congr {e' : L0Engine} (ht : Told h e) (hbook : e'.book = e.book)
    (hids : e'.ids = e.ids)
    (hpriced : ∀ prev, e'.prevPrice = some prev → 0 < prev) : Told h e' where
  orderly := hbook ▸ ht.orderly
  rests := hbook ▸ ht.rests
  arrivals := hbook ▸ ht.arrivals
  trades := hids ▸ ht.trades
  counted := ht.counted
  balance := hbook ▸ ht.balance
  priced := hpriced
  sound := ht.sound

theorem Told.onTick (ht : Told h e) {tick : Tick} (hlast : 0 < tick.last) :
    Told (h ++ (e.onTick tick).fills.map fun f => .filled f.fill) (e.onTick tick) := by
  have hchain := chain_onTick hlast ht.priced ht.orderly
  have hcleared : Told h { e with fills := [] } := ht.congr rfl rfl ht.priced
  have htold := hcleared.chain hchain
  rw [List.map_map] at htold
  refine htold.congr rfl rfl fun prev hprev => ?_
  rw [← Option.some.inj hprev]
  exact hlast

/-- Step. -/
theorem Told.step (ht : Told h e) {op : Op} (hfresh : op.Fresh e) (hpriced : op.Priced) :
    Told (h ++ (e.step op).2) (e.step op).1 := by
  cases op with
  | submit w => exact ht.submit hfresh
  | cancel id =>
    show Told (h ++ if (e.book.remove id).1.isSome then [.cancelled id] else [])
      { e with book := e.book.drop id }
    by_cases hid : id ∈ e.book.restingIds
    · rw [if_pos (Book.isSome_remove.mpr hid)]
      exact ht.cancel hid
    · rw [if_neg fun hsome => hid (Book.isSome_remove.mp hsome), List.append_nil,
        Book.drop_eq_self hid]
      exact ht
  | tick t => exact ht.onTick hpriced

/-- Run. -/
theorem Told.run (ht : Told h e) {ops : List Op} (hfresh : FreshRun e ops)
    (hpriced : ∀ op ∈ ops, op.Priced) : Told (h ++ (e.run ops).2) (e.run ops).1 := by
  induction ops generalizing h e with
  | nil =>
    show Told (h ++ []) e
    rwa [List.append_nil]
  | cons op ops ih =>
    have hnext := ih (ht.step hfresh.1 (hpriced op List.mem_cons_self)) hfresh.2
      (fun x hx => hpriced x (List.mem_cons_of_mem op hx))
    rwa [List.append_assoc] at hnext

/-- **Safety of a run**: over every script of submissions of ids that do not rest,
cancellations and ticks with a last price, each fill is one that the history before it
allows, orders are conserved, and trade ids count up from one; and a tick ends on any
book. -/
theorem run_safe (instrument : InstrumentId) (script : List Op)
    (hfresh : FreshRun (new instrument) script) (hpriced : ∀ op ∈ script, op.Priced) :
    (Sound ((new instrument).run script).2 ∧
      submitted ((new instrument).run script).2 =
        (fillsOf ((new instrument).run script).2).length +
          cancelled ((new instrument).run script).2 + ((new instrument).run script).1.book.len ∧
      (fillsOf ((new instrument).run script).2).map Fill.trade =
        (List.range (fillsOf ((new instrument).run script).2).length).map fun k =>
          UInt64.ofNat (k + 1)) ∧
    ∀ (e : L0Engine) (tick : Tick),
      Loop Book.bids (fun p => p < tick.buyTrigger) (bidFillPrice tick) tick e (crossBids tick e) ∧
      Loop Book.asks (fun p => tick.sellTrigger < p) (askFillPrice tick) tick e
        (crossAsks tick e) := by
  have htold := (told_new instrument).run hfresh hpriced
  rw [List.nil_append] at htold
  refine ⟨⟨htold.sound, htold.balance, htold.counted⟩, fun e tick => ⟨?_, ?_⟩⟩
  · exact loop_crossSide _ _ tick (fun b r hr => Book.mem_iter_of_mem_bids hr) (Nat.le_refl _)
  · exact loop_crossSide _ _ tick (fun b r hr => Book.mem_iter_of_mem_asks hr) (Nat.le_refl _)

/-- Two bids at one price and a market order; a tick that reaches the bids. -/
def queueScript : List Op :=
  [.submit (limitOrder 4 .buy 100 2 ⟨0, 0⟩ .opening two_lots),
    .submit (limitOrder 3 .buy 100 5 ⟨0, 0⟩ .opening five_lots),
    .submit (marketOrder 7 .sell 1 ⟨0, 0⟩ .opening one_lot), .cancel 9,
    .tick ⟨⟨1, 1⟩, 99, 0, 0, 98, 99, 0⟩]

example : (fillsOf ((new 1).run queueScript).2).map (fun f => (f.order, f.price, f.trade)) =
    [(7, 98, 1), (4, 99, 2), (3, 99, 3)] := by
  decide +kernel

theorem run_safe_queueScript :
    (Sound ((new 1).run queueScript).2 ∧
      submitted ((new 1).run queueScript).2 =
        (fillsOf ((new 1).run queueScript).2).length +
          cancelled ((new 1).run queueScript).2 + ((new 1).run queueScript).1.book.len ∧
      (fillsOf ((new 1).run queueScript).2).map Fill.trade =
        (List.range (fillsOf ((new 1).run queueScript).2).length).map fun k =>
          UInt64.ofNat (k + 1)) ∧
    ∀ (e : L0Engine) (tick : Tick),
      Loop Book.bids (fun p => p < tick.buyTrigger) (bidFillPrice tick) tick e (crossBids tick e) ∧
      Loop Book.asks (fun p => tick.sellTrigger < p) (askFillPrice tick) tick e
        (crossAsks tick e) :=
  run_safe 1 queueScript (by decide +kernel) (by decide +kernel)

end L0Engine
