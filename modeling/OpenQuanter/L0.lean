/-
# Fidelity tier L0: tick replay (`oq-engine/src/l0.rs`)

The anchor of the ladder.  A tick first fills, at their own price, the orders
the path from the previous tick swept (`gapFill`), then every market order, then
the limit orders the window's closing state reaches (`cross`).

What a tick does is said once, by `onTick_book` (the book afterwards is the book
before with the filled orders dropped) and by `mem_filledIds_onTick` (on a
sorted book with distinct ids the filled orders are exactly the triggered ones).
-/
import OpenQuanter.RestingBook

/-- Why a fill happened. -/
inductive FillReason
  | gapCrossed
  | crossed
  | market
  deriving DecidableEq, Repr

/-- A fill together with why it happened. -/
structure L0Fill where
  fill : Fill
  reason : FillReason
  deriving DecidableEq, Repr

/-- Monotonic id allocation for a single run. -/
structure IdAllocator where
  nextOrder : UInt64
  nextTrade : UInt64
  deriving DecidableEq, Repr

/-- The L0 matching engine for one instrument.  `fills` is the buffer the last
tick filled. -/
structure L0Engine where
  instrument : InstrumentId
  book : Book
  ids : IdAllocator
  prevPrice : Option PriceTicks
  prevStamp : Option Stamp
  fills : List L0Fill
  deriving DecidableEq

namespace L0Engine

def new (instrument : InstrumentId) : L0Engine :=
  ⟨instrument, Book.new, ⟨0, 0⟩, none, none, []⟩

/-- Rest an order; it is eligible from the next tick on. -/
def submit (e : L0Engine) (order : Working) : L0Engine :=
  { e with book := e.book.insert order }

/-- Withdraw a resting order, saying whether it was there. -/
def cancel (e : L0Engine) (id : OrderId) : L0Engine × Bool :=
  let (removed, book) := e.book.remove id
  ({ e with book := book }, removed.isSome)

/-- Withdraw every resting order, saying how many were removed. -/
def cancelAll (e : L0Engine) : L0Engine × Nat :=
  let ids := e.book.restingIds
  ({ e with book := ids.foldl (fun b id => (b.remove id).2) e.book }, ids.length)

/-- An unobserved interval supplies no price path for gap-crossing fills. -/
def forgetPricePath (e : L0Engine) : L0Engine :=
  { e with prevPrice := none, prevStamp := none }

/-- Execute a resting order in full and record the fill. -/
def executeAt (e : L0Engine) (resting : Resting) (price : PriceTicks) (liquidity : Liquidity)
    (reason : FillReason) (stamp : Stamp) : L0Engine :=
  let qty := resting.order.remaining
  if qty ≤ 0 then { e with book := e.book.replace resting.id none }
  else
    match resting.order.fill qty with
    | .error _ => e
    | .ok outcome =>
      let trade := e.ids.nextTrade + 1
      let fill : Fill :=
        { stamp := stamp, instrument := e.instrument, order := resting.id, trade := trade,
          side := resting.order.side, offset := resting.order.offset, price := price, qty := qty,
          liquidity := liquidity }
      { e with
        book := e.book.replace resting.id outcome.stillWorking
        ids := { e.ids with nextTrade := trade }
        fills := e.fills ++ [⟨fill, reason⟩] }

/-- Execute at the tick's own time. -/
def execute (e : L0Engine) (resting : Resting) (price : PriceTicks) (liquidity : Liquidity)
    (reason : FillReason) (tick : Tick) : L0Engine :=
  e.executeAt resting price liquidity reason tick.stamp

/-- Whether the path from `prev` through the window swept an ask at `price`. -/
def sweptAsk (prev : PriceTicks) (tick : Tick) (r : Resting) : Bool :=
  r.price.any (fun price => prev < price && price ≤ tick.upExtent)

/-- Whether the path from `prev` through the window swept a bid at `price`. -/
def sweptBid (prev : PriceTicks) (tick : Tick) (r : Resting) : Bool :=
  r.price.any (fun price => price < prev && tick.dnExtent ≤ price)

/-- The orders a gap candidate list is built from: the asks when the window rose
above the previous price, else the bids when it fell below. -/
def gapCandidates (e : L0Engine) (prev : PriceTicks) (tick : Tick) : List Resting :=
  if prev < tick.upExtent then e.book.asks.filter (sweptAsk prev tick)
  else if tick.dnExtent < prev then e.book.bids.filter (sweptBid prev tick)
  else []

/-- The order candidates are executed in: arrival, then id. -/
def candidateLE (a b : Nat × OrderId) : Prop := a.1 < b.1 ∨ (a.1 = b.1 ∧ a.2 ≤ b.2)

instance : DecidableRel candidateLE := fun a b =>
  inferInstanceAs (Decidable (a.1 < b.1 ∨ (a.1 = b.1 ∧ a.2 ≤ b.2)))

/-- One gap-crossed candidate: filled at its own price, stamped with the
previous tick's time. -/
def gapExecute (tick : Tick) (e : L0Engine) (candidate : Nat × OrderId) : L0Engine :=
  match e.book.iter.find? (·.id = candidate.2) with
  | none => e
  | some resting =>
    e.executeAt resting (resting.price.getD 0) .maker .gapCrossed (e.prevStamp.getD tick.stamp)

/-- Fills caused by the price path between the previous tick and this one. -/
def gapFill (e : L0Engine) (tick : Tick) : L0Engine :=
  match e.prevPrice with
  | none => e
  | some prev =>
    let candidates := (e.gapCandidates prev tick).map (fun r => (r.arrival, r.id))
    (candidates.insertionSort candidateLE).foldl (gapExecute tick) e

/-- Execute a list of market orders, in arrival order, as taker. -/
def executeMarket (tick : Tick) (reference : PriceTicks) (orders : List Resting) (e : L0Engine) :
    L0Engine :=
  orders.foldl (fun e r => e.execute r reference .taker .market tick) e

/-- Market orders fill at the window's reference price. -/
def crossMarket (e : L0Engine) (tick : Tick) : L0Engine :=
  let e := executeMarket tick tick.buyFillReference e.book.marketBuys e
  executeMarket tick tick.sellFillReference e.book.marketSells e

/-- The price a triggered bid at `price` fills at: the market's, if better. -/
def bidFillPrice (tick : Tick) (price : PriceTicks) : PriceTicks :=
  if 0 < tick.buyFillReference then min price tick.buyFillReference else price

/-- The price a triggered ask at `price` fills at. -/
def askFillPrice (tick : Tick) (price : PriceTicks) : PriceTicks :=
  if 0 < tick.sellFillReference then max price tick.sellFillReference else price

/-- The `while` loop over one side of the book: take the best order while the
window reached its price.  An iteration takes one order off the book, so as many
iterations as there are resting orders are enough (`exists_executed_crossSide`). -/
def crossSide (side : Book → List Resting) (missed : PriceTicks → Bool)
    (fillPrice : PriceTicks → PriceTicks) (tick : Tick) : Nat → L0Engine → L0Engine
  | 0, e => e
  | fuel + 1, e =>
    match side e.book with
    | [] => e
    | best :: _ =>
      match best.price with
      | none => e
      | some price =>
        if missed price then e
        else
          crossSide side missed fillPrice tick fuel
            (e.execute best (fillPrice price) .maker .crossed tick)

/-- Limit buys, best price first. -/
def crossBids (tick : Tick) (e : L0Engine) : L0Engine :=
  crossSide Book.bids (fun p => p < tick.buyTrigger) (bidFillPrice tick) tick e.book.len e

/-- Limit sells, best price first. -/
def crossAsks (tick : Tick) (e : L0Engine) : L0Engine :=
  crossSide Book.asks (fun p => tick.sellTrigger < p) (askFillPrice tick) tick e.book.len e

/-- Fills caused by the window's closing state. -/
def cross (e : L0Engine) (tick : Tick) : L0Engine :=
  let e := e.crossMarket tick
  let e := if 0 < tick.buyTrigger then crossBids tick e else e
  if 0 < tick.sellTrigger then crossAsks tick e else e

/-- Advance the engine by one tick; the fills it produced are `fills`. -/
def onTick (e : L0Engine) (tick : Tick) : L0Engine :=
  let e := { e with fills := [] }
  let e := (e.gapFill tick).cross tick
  { e with prevPrice := some tick.last, prevStamp := some tick.stamp }

/-! ## One execution -/

/-- The fill an execution of `r` records. -/
def fillOf (e : L0Engine) (r : Resting) (price : PriceTicks) (liquidity : Liquidity)
    (stamp : Stamp) : Fill :=
  { stamp := stamp, instrument := e.instrument, order := r.id, trade := e.ids.nextTrade + 1,
    side := r.order.side, offset := r.order.offset, price := price, qty := r.order.remaining,
    liquidity := liquidity }

/-- An execution always completes: it drops the order and records one fill. -/
theorem executeAt_eq (e : L0Engine) (r : Resting) (price : PriceTicks) (liquidity : Liquidity)
    (reason : FillReason) (stamp : Stamp) :
    e.executeAt r price liquidity reason stamp =
      { e with
        book := e.book.drop r.id
        ids := { e.ids with nextTrade := e.ids.nextTrade + 1 }
        fills := e.fills ++ [⟨e.fillOf r price liquidity stamp, reason⟩] } := by
  have hpos := r.order.remaining_pos
  unfold executeAt
  simp only
  rw [if_neg (by grind), Working.fill_remaining]
  rfl

/-- The ids filled so far in this tick. -/
def filledIds (e : L0Engine) : List OrderId := e.fills.map (·.fill.order)

/-- `e'` comes from `e` by executing orders with these ids, in this order, each
of them the id of an order of which `P` holds. -/
structure Executed (P : Resting → Prop) (e e' : L0Engine) (ids : List OrderId) : Prop where
  book : e'.book = e.book.dropAll ids
  filled : e'.filledIds = e.filledIds ++ ids
  instrument : e'.instrument = e.instrument
  prevPrice : e'.prevPrice = e.prevPrice
  prevStamp : e'.prevStamp = e.prevStamp
  made : ∀ f ∈ e'.fills, f ∈ e.fills ∨ f.fill.instrument = e.instrument
  hit : ∀ id ∈ ids, ∃ r, r.id = id ∧ P r

section Executed

variable {P : Resting → Prop}

theorem Executed.refl (e : L0Engine) : Executed P e e [] :=
  ⟨rfl, (List.append_nil _).symm, rfl, rfl, rfl, fun _ hf => Or.inl hf, by simp⟩

theorem Executed.trans {e₁ e₂ e₃ : L0Engine} {ids ids' : List OrderId} (h : Executed P e₁ e₂ ids)
    (h' : Executed P e₂ e₃ ids') : Executed P e₁ e₃ (ids ++ ids') where
  book := by rw [h'.book, h.book, Book.dropAll_append]
  filled := by rw [h'.filled, h.filled, List.append_assoc]
  instrument := h'.instrument.trans h.instrument
  prevPrice := h'.prevPrice.trans h.prevPrice
  prevStamp := h'.prevStamp.trans h.prevStamp
  made := by
    intro f hf
    rcases h'.made f hf with hf | hf
    · exact h.made f hf
    · exact Or.inr (hf.trans h.instrument)
  hit := by
    intro id hid
    rcases List.mem_append.mp hid with hid | hid
    · exact h.hit id hid
    · exact h'.hit id hid

/-- An execution under any known order's id. -/
theorem executed_executeAt {e : L0Engine} {r r₀ : Resting} (hid : r₀.id = r.id) (hP : P r₀)
    (price : PriceTicks) (liquidity : Liquidity) (reason : FillReason) (stamp : Stamp) :
    Executed P e (e.executeAt r price liquidity reason stamp) [r.id] := by
  rw [executeAt_eq]
  refine ⟨rfl, by simp [filledIds, fillOf], rfl, rfl, rfl, ?_, ?_⟩
  · intro f hf
    rcases List.mem_append.mp hf with hf | hf
    · exact Or.inl hf
    · rw [List.mem_singleton.mp hf]
      exact Or.inr rfl
  intro id hmem
  rw [List.mem_singleton.mp hmem]
  exact ⟨r₀, hid, hP⟩

/-! ## The stages of a tick -/

theorem executed_executeMarket (tick : Tick) (reference : PriceTicks) {orders : List Resting}
    (hP : ∀ r ∈ orders, P r) (e : L0Engine) :
    Executed P e (executeMarket tick reference orders e) (orders.map Resting.id) := by
  induction orders generalizing e with
  | nil => exact Executed.refl e
  | cons r rest ih =>
    have hr : P r := hP r List.mem_cons_self
    have hrest := ih (fun x hx => hP x (List.mem_cons_of_mem r hx))
    exact (executed_executeAt rfl hr reference .taker .market tick.stamp).trans (hrest _)

theorem mem_iter_of_mem_gapCandidates {e : L0Engine} {prev : PriceTicks} {tick : Tick}
    {r : Resting} (hr : r ∈ e.gapCandidates prev tick) : r ∈ e.book.iter := by
  unfold gapCandidates at hr
  split_ifs at hr
  · simp [Book.iter, List.mem_of_mem_filter hr]
  · simp [Book.iter, List.mem_of_mem_filter hr]
  · simp at hr

/-- A gap candidate list executes every one of its ids the book still holds. -/
theorem exists_executed_gapExecute (tick : Tick) {candidates : List (Nat × OrderId)}
    (hP : ∀ c ∈ candidates, ∃ r, r.id = c.2 ∧ P r) (e : L0Engine) :
    ∃ ids, Executed P e (candidates.foldl (gapExecute tick) e) ids ∧
      ∀ c ∈ candidates, c.2 ∈ e.book.restingIds → c.2 ∈ ids := by
  induction candidates generalizing e with
  | nil => exact ⟨[], Executed.refl e, by simp⟩
  | cons c rest ih =>
    have hrest := ih (fun x hx => hP x (List.mem_cons_of_mem c hx))
    rw [List.foldl_cons]
    rcases hfind : e.book.iter.find? (·.id = c.2) with _ | r
    · have hskip : gapExecute tick e c = e := by
        unfold gapExecute
        rw [hfind]
      obtain ⟨ids, hex, hall⟩ := hrest e
      rw [hskip]
      refine ⟨ids, hex, ?_⟩
      intro x hx hmem
      rcases List.mem_cons.mp hx with rfl | hx
      · -- its id is not in the book, which is why it was skipped
        obtain ⟨r, hr, hrid⟩ := List.mem_map.mp hmem
        have := List.find?_eq_none.mp hfind r hr
        simp [hrid] at this
      · exact hall x hx hmem
    · have hrid : r.id = c.2 := by simpa using List.find?_some hfind
      obtain ⟨r₀, hr₀, hP₀⟩ := hP c List.mem_cons_self
      have hstep : gapExecute tick e c =
          e.executeAt r (r.price.getD 0) .maker .gapCrossed (e.prevStamp.getD tick.stamp) := by
        unfold gapExecute
        rw [hfind]
      have hex₁ : Executed P e (gapExecute tick e c) [r.id] := by
        rw [hstep]
        exact executed_executeAt (hr₀.trans hrid.symm) hP₀ _ _ _ _
      obtain ⟨ids, hex, hall⟩ := hrest (gapExecute tick e c)
      refine ⟨[r.id] ++ ids, hex₁.trans hex, ?_⟩
      intro x hx hmem
      by_cases hxr : x.2 = r.id
      · simp [hxr]
      · rcases List.mem_cons.mp hx with rfl | hx
        · exact absurd hrid.symm hxr
        · refine List.mem_append_right _ (hall x hx ?_)
          rw [hex₁.book]
          exact Book.mem_restingIds_drop hmem hxr

theorem exists_executed_gapFill {e : L0Engine} (tick : Tick)
    (hP : ∀ prev, e.prevPrice = some prev → ∀ r ∈ e.gapCandidates prev tick, P r) :
    ∃ ids, Executed P e (e.gapFill tick) ids ∧
      ∀ prev, e.prevPrice = some prev → ∀ r ∈ e.gapCandidates prev tick, r.id ∈ ids := by
  unfold gapFill
  rcases hprev : e.prevPrice with _ | prev
  · exact ⟨[], Executed.refl e, by simp⟩
  · simp only
    have hmem : ∀ c : Nat × OrderId,
        c ∈ ((e.gapCandidates prev tick).map (fun r => (r.arrival, r.id))).insertionSort candidateLE
          ↔ ∃ r ∈ e.gapCandidates prev tick, (r.arrival, r.id) = c := by
      intro c
      rw [List.mem_insertionSort, List.mem_map]
    obtain ⟨ids, hex, hall⟩ := exists_executed_gapExecute (P := P) tick
      (fun c hc => by
        obtain ⟨r, hr, rfl⟩ := (hmem c).mp hc
        exact ⟨r, rfl, hP prev hprev r hr⟩) e
    refine ⟨ids, hex, ?_⟩
    intro q hq r hr
    obtain rfl : prev = q := Option.some.inj hq
    refine hall (r.arrival, r.id) ((hmem _).mpr ⟨r, hr, rfl⟩) ?_
    exact List.mem_map_of_mem (mem_iter_of_mem_gapCandidates hr)

/-- The loop over a side executes reached orders only, and stops at a best order
the window did not reach. -/
theorem exists_executed_crossSide {side : Book → List Resting} {missed : PriceTicks → Bool}
    (hiter : ∀ b, ∀ r ∈ side b, r ∈ b.iter)
    (hsub : ∀ b id, ∀ r ∈ side (Book.drop b id), r ∈ side b)
    (fillPrice : PriceTicks → PriceTicks) (tick : Tick) {fuel : Nat} {e : L0Engine}
    (hP : ∀ r ∈ side e.book, ∀ p, r.price = some p → missed p = false → P r)
    (hfuel : e.book.len ≤ fuel) :
    ∃ ids, Executed P e (crossSide side missed fillPrice tick fuel e) ids ∧
      ∀ r ∈ (side (crossSide side missed fillPrice tick fuel e).book).head?,
        ∀ p, r.price = some p → missed p = true := by
  induction fuel generalizing e with
  | zero =>
    refine ⟨[], Executed.refl e, ?_⟩
    intro r hr
    have hmem := hiter e.book r (List.mem_of_mem_head? hr)
    rw [← Book.length_iter, Nat.le_zero, List.length_eq_zero_iff] at hfuel
    rw [hfuel] at hmem
    simp at hmem
  | succ fuel ih =>
    rcases hside : side e.book with _ | ⟨best, rest⟩
    · simp only [crossSide, hside]
      exact ⟨[], Executed.refl e, by simp⟩
    · have hbest : best ∈ side e.book := by simp [hside]
      simp only [crossSide, hside]
      rcases hprice : best.price with _ | price
      · refine ⟨[], Executed.refl e, ?_⟩
        intro r hr p hp
        simp only [hside, List.head?_cons, Option.mem_some_iff] at hr
        simp [← hr, hprice] at hp
      · simp only
        split_ifs with hmissed
        · refine ⟨[], Executed.refl e, ?_⟩
          intro r hr p hp
          simp only [hside, List.head?_cons, Option.mem_some_iff] at hr
          rw [← hr, hprice] at hp
          rw [← Option.some.inj hp]
          exact hmissed
        · -- the best order goes, and the loop continues on a shorter book
          have hbook : (e.execute best (fillPrice price) .maker .crossed tick).book =
              e.book.drop best.id := by
            unfold execute
            rw [executeAt_eq]
          have hlen : (e.book.drop best.id).len ≤ fuel := by
            have := Book.len_drop_of_mem (List.mem_map_of_mem (hiter e.book best hbest))
            omega
          obtain ⟨ids, hex, hdone⟩ :=
            ih (e := e.execute best (fillPrice price) .maker .crossed tick)
              (by rw [hbook]; exact fun r hr => hP r (hsub e.book best.id r hr))
              (by rw [hbook]; exact hlen)
          have hPbest : P best := hP best hbest price hprice (Bool.eq_false_iff.mpr hmissed)
          exact ⟨_, (executed_executeAt rfl hPbest _ _ _ _).trans hex, hdone⟩

theorem exists_executed_crossBids {e : L0Engine} (tick : Tick)
    (hP : ∀ r ∈ e.book.bids, ∀ p, r.price = some p → tick.buyTrigger ≤ p → P r) :
    ∃ ids, Executed P e (crossBids tick e) ids ∧
      ∀ r ∈ (crossBids tick e).book.bids.head?, ∀ p, r.price = some p → p < tick.buyTrigger := by
  obtain ⟨ids, hex, hdone⟩ :=
    @exists_executed_crossSide P Book.bids (fun p => p < tick.buyTrigger)
      (fun b r hr => by simp [Book.iter, hr])
      (fun b id r hr => (Book.sublist_drop b id).1.subset hr) (bidFillPrice tick) tick _ e
      (fun r hr p hp hreach => hP r hr p hp (by simpa [Int64.not_lt] using hreach)) le_rfl
  exact ⟨ids, hex, fun r hr p hp => by simpa using hdone r hr p hp⟩

theorem exists_executed_crossAsks {e : L0Engine} (tick : Tick)
    (hP : ∀ r ∈ e.book.asks, ∀ p, r.price = some p → p ≤ tick.sellTrigger → P r) :
    ∃ ids, Executed P e (crossAsks tick e) ids ∧
      ∀ r ∈ (crossAsks tick e).book.asks.head?, ∀ p, r.price = some p → tick.sellTrigger < p := by
  obtain ⟨ids, hex, hdone⟩ :=
    @exists_executed_crossSide P Book.asks (fun p => tick.sellTrigger < p)
      (fun b r hr => by simp [Book.iter, hr])
      (fun b id r hr => (Book.sublist_drop b id).2.1.subset hr) (askFillPrice tick) tick _ e
      (fun r hr p hp hreach => hP r hr p hp (by simpa [Int64.not_lt] using hreach)) le_rfl
  exact ⟨ids, hex, fun r hr p hp => by simpa using hdone r hr p hp⟩

/-- Everything a tick can execute is one of these, book by book.  A stage only
drops orders, so what holds of a book's orders holds of a later book's. -/
structure TickHits (P : Resting → Prop) (tick : Tick) (b : Book) : Prop where
  buys : ∀ r ∈ b.marketBuys, P r
  sells : ∀ r ∈ b.marketSells, P r
  bids : 0 < tick.buyTrigger → ∀ r ∈ b.bids, ∀ p, r.price = some p → tick.buyTrigger ≤ p → P r
  asks : 0 < tick.sellTrigger → ∀ r ∈ b.asks, ∀ p, r.price = some p → p ≤ tick.sellTrigger → P r

theorem TickHits.dropAll {tick : Tick} {b : Book} (h : TickHits P tick b) (ids : List OrderId) :
    TickHits P tick (b.dropAll ids) := by
  obtain ⟨hbids, hasks, hbuys, hsells⟩ := Book.sublist_dropAll b ids
  exact
    { buys := fun r hr => h.buys r (hbuys.subset hr)
      sells := fun r hr => h.sells r (hsells.subset hr)
      bids := fun h0 r hr => h.bids h0 r (hbids.subset hr)
      asks := fun h0 r hr => h.asks h0 r (hasks.subset hr) }

/-- The closing state of the window executes every market order and leaves no
reached limit order at the top of the book. -/
theorem exists_executed_cross {e : L0Engine} {tick : Tick} (hP : TickHits P tick e.book) :
    ∃ buys sells bids asks,
      Executed P e (e.cross tick) (buys ++ (sells ++ (bids ++ asks))) ∧
      buys = e.book.marketBuys.map Resting.id ∧
      sells = (e.book.dropAll buys).marketSells.map Resting.id ∧
      (0 < tick.buyTrigger → ∀ r ∈ (e.book.dropAll (buys ++ (sells ++ bids))).bids.head?,
        ∀ p, r.price = some p → p < tick.buyTrigger) ∧
      (0 < tick.sellTrigger → ∀ r ∈ (e.cross tick).book.asks.head?,
        ∀ p, r.price = some p → tick.sellTrigger < p) := by
  unfold cross crossMarket
  simp only
  have hbuys := executed_executeMarket tick tick.buyFillReference hP.buys e
  generalize executeMarket tick tick.buyFillReference e.book.marketBuys e = e₁ at hbuys ⊢
  have hP₁ : TickHits P tick e₁.book := hbuys.book ▸ hP.dropAll _
  have hsells := executed_executeMarket tick tick.sellFillReference hP₁.sells e₁
  generalize executeMarket tick tick.sellFillReference e₁.book.marketSells e₁ = e₂ at hsells ⊢
  have hP₂ : TickHits P tick e₂.book := hsells.book ▸ hP₁.dropAll _
  have hbids : ∃ ids, Executed P e₂ (if 0 < tick.buyTrigger then crossBids tick e₂ else e₂) ids ∧
      (0 < tick.buyTrigger →
        ∀ r ∈ (if 0 < tick.buyTrigger then crossBids tick e₂ else e₂).book.bids.head?,
          ∀ p, r.price = some p → p < tick.buyTrigger) := by
    split_ifs with h0
    · obtain ⟨ids, hex, hdone⟩ := exists_executed_crossBids tick (hP₂.bids h0)
      exact ⟨ids, hex, fun _ => hdone⟩
    · exact ⟨[], Executed.refl e₂, fun h => absurd h h0⟩
  obtain ⟨bids, hbids, hbidsdone⟩ := hbids
  generalize (if 0 < tick.buyTrigger then crossBids tick e₂ else e₂) = e₃ at hbids hbidsdone ⊢
  have hP₃ : TickHits P tick e₃.book := hbids.book ▸ hP₂.dropAll _
  have hasks : ∃ ids, Executed P e₃ (if 0 < tick.sellTrigger then crossAsks tick e₃ else e₃) ids ∧
      (0 < tick.sellTrigger →
        ∀ r ∈ (if 0 < tick.sellTrigger then crossAsks tick e₃ else e₃).book.asks.head?,
          ∀ p, r.price = some p → tick.sellTrigger < p) := by
    split_ifs with h0
    · obtain ⟨ids, hex, hdone⟩ := exists_executed_crossAsks tick (hP₃.asks h0)
      exact ⟨ids, hex, fun _ => hdone⟩
    · exact ⟨[], Executed.refl e₃, fun h => absurd h h0⟩
  obtain ⟨asks, hasks, hasksdone⟩ := hasks
  refine ⟨_, _, bids, asks, hbuys.trans (hsells.trans (hbids.trans hasks)), rfl, ?_, ?_, hasksdone⟩
  · rw [hbuys.book]
  · have hthree := hbuys.trans (hsells.trans hbids)
    rw [← hthree.book]
    exact hbidsdone

/-- What a whole tick executes. -/
theorem exists_executed_onTick {e : L0Engine} {tick : Tick} (hP : TickHits P tick e.book)
    (hgap : ∀ prev, e.prevPrice = some prev → ∀ r ∈ e.gapCandidates prev tick, P r) :
    Executed P { e with fills := [] } ((gapFill { e with fills := [] } tick).cross tick)
      (e.onTick tick).filledIds := by
  obtain ⟨ids, hex, -⟩ := exists_executed_gapFill (e := { e with fills := [] }) tick hgap
  have hP' : TickHits P tick (gapFill { e with fills := [] } tick).book := by
    rw [hex.book]
    exact hP.dropAll ids
  obtain ⟨buys, sells, bids, asks, hcross, -⟩ := exists_executed_cross hP'
  have h := hex.trans hcross
  have hfilled : (e.onTick tick).filledIds = ids ++ (buys ++ (sells ++ (bids ++ asks))) := by
    have := h.filled
    simpa [onTick, filledIds] using this
  rw [hfilled]
  exact h

end Executed

/-- **What a tick does to the book**: it drops the orders it filled, in the
order it filled them, and nothing else. -/
theorem onTick_book (e : L0Engine) (tick : Tick) :
    (e.onTick tick).book = e.book.dropAll (e.onTick tick).filledIds :=
  (exists_executed_onTick (P := fun _ => True) ⟨by simp, by simp, by simp, by simp⟩ (by simp)).book

@[simp] theorem onTick_prevPrice (e : L0Engine) (tick : Tick) :
    (e.onTick tick).prevPrice = some tick.last := rfl

theorem onTick_instrument (e : L0Engine) (tick : Tick) :
    (e.onTick tick).instrument = e.instrument :=
  (exists_executed_onTick (P := fun _ => True) ⟨by simp, by simp, by simp, by simp⟩
    (by simp)).instrument

/-- Every fill of a tick is the engine's own instrument's. -/
theorem onTick_fills_instrument (e : L0Engine) (tick : Tick) :
    ∀ f ∈ (e.onTick tick).fills, f.fill.instrument = e.instrument := by
  intro f hf
  rcases (exists_executed_onTick (P := fun _ => True) (e := e)
    ⟨by simp, by simp, by simp, by simp⟩ (by simp)).made f hf with hf | hf
  · cases hf
  · exact hf

/-! ## Which orders a tick fills -/

/-- Whether the window's closing state reaches the order. -/
def Reached (tick : Tick) (r : Resting) : Prop :=
  match r.order.side, r.price with
  | _, none => True
  | .buy, some p => 0 < tick.buyTrigger ∧ tick.buyTrigger ≤ p
  | .sell, some p => 0 < tick.sellTrigger ∧ p ≤ tick.sellTrigger

/-- Whether the path from the previous tick sweeps the order: asks when the
window rose above the previous price, else bids when it fell below. -/
def Swept (prev : Option PriceTicks) (tick : Tick) (r : Resting) : Prop :=
  match prev with
  | none => False
  | some prev =>
    if prev < tick.upExtent then r.order.side = .sell ∧ sweptAsk prev tick r = true
    else if tick.dnExtent < prev then r.order.side = .buy ∧ sweptBid prev tick r = true
    else False

/-- Whether a tick fills the order. -/
def Triggered (prev : Option PriceTicks) (tick : Tick) (r : Resting) : Prop :=
  Swept prev tick r ∨ Reached tick r

/-- On a sorted book the gap candidates are the swept orders. -/
theorem mem_gapCandidates_iff {e : L0Engine} (hs : e.book.Sorted) {prev : PriceTicks}
    {tick : Tick} {r : Resting} :
    r ∈ e.gapCandidates prev tick ↔ r ∈ e.book.iter ∧ Swept (some prev) tick r := by
  unfold gapCandidates Swept
  simp only
  split_ifs with hup hdn
  · rw [List.mem_filter, hs.mem_asks_iff]
    constructor
    · rintro ⟨⟨hr, hside, -⟩, hswept⟩
      exact ⟨hr, hside, hswept⟩
    · rintro ⟨hr, hside, hswept⟩
      refine ⟨⟨hr, hside, ?_⟩, hswept⟩
      intro hnone
      simp [sweptAsk, hnone] at hswept
  · rw [List.mem_filter, hs.mem_bids_iff]
    constructor
    · rintro ⟨⟨hr, hside, -⟩, hswept⟩
      exact ⟨hr, hside, hswept⟩
    · rintro ⟨hr, hside, hswept⟩
      refine ⟨⟨hr, hside, ?_⟩, hswept⟩
      intro hnone
      simp [sweptBid, hnone] at hswept
  · simp

theorem tickHits_triggered {e : L0Engine} (hs : e.book.Sorted) (tick : Tick) :
    TickHits (fun r => r ∈ e.book.iter ∧ Triggered e.prevPrice tick r) tick e.book where
  buys := by
    intro r hr
    obtain ⟨hmem, -, hprice⟩ := hs.mem_marketBuys_iff.mp hr
    exact ⟨hmem, Or.inr (by simp [Reached, hprice])⟩
  sells := by
    intro r hr
    obtain ⟨hmem, -, hprice⟩ := hs.mem_marketSells_iff.mp hr
    exact ⟨hmem, Or.inr (by simp [Reached, hprice])⟩
  bids := by
    intro h0 r hr p hp hreach
    obtain ⟨hmem, hside, -⟩ := hs.mem_bids_iff.mp hr
    exact ⟨hmem, Or.inr (by simp [Reached, hside, hp, h0, hreach])⟩
  asks := by
    intro h0 r hr p hp hreach
    obtain ⟨hmem, hside, -⟩ := hs.mem_asks_iff.mp hr
    exact ⟨hmem, Or.inr (by simp [Reached, hside, hp, h0, hreach])⟩

/-- A tick fills triggered orders only. -/
theorem exists_triggered_of_mem_filledIds {e : L0Engine} (hs : e.book.Sorted) {tick : Tick}
    {id : OrderId} (hid : id ∈ (e.onTick tick).filledIds) :
    ∃ r ∈ e.book.iter, r.id = id ∧ Triggered e.prevPrice tick r := by
  have hgap : ∀ prev, e.prevPrice = some prev → ∀ r ∈ e.gapCandidates prev tick,
      r ∈ e.book.iter ∧ Triggered e.prevPrice tick r := by
    intro prev hprev r hr
    obtain ⟨hmem, hswept⟩ := (mem_gapCandidates_iff hs).mp hr
    exact ⟨hmem, Or.inl (hprev ▸ hswept)⟩
  obtain ⟨r, hrid, hmem, htrig⟩ :=
    (exists_executed_onTick (tickHits_triggered hs tick) hgap).hit id hid
  exact ⟨r, hmem, hrid, htrig⟩

/-- An order whose id was not executed is still in the book. -/
theorem mem_iter_dropAll {b : Book} (hnd : b.restingIds.Nodup) {ids : List OrderId} {r : Resting}
    (hr : r ∈ b.iter) (hid : r.id ∉ ids) : r ∈ (b.dropAll ids).iter := by
  rw [Book.iter_dropAll hnd]
  exact List.mem_filter.mpr ⟨hr, by simpa using hid⟩

/-- A tick fills every triggered order. -/
theorem mem_filledIds_of_triggered {e : L0Engine} (hs : e.book.Sorted)
    (hnd : e.book.restingIds.Nodup) {tick : Tick} {r : Resting} (hr : r ∈ e.book.iter)
    (htrig : Triggered e.prevPrice tick r) : r.id ∈ (e.onTick tick).filledIds := by
  -- follow the order through the stages: if none of them executes it, it is
  -- still on a book whose top the window did not reach
  have htrue : ∀ b, TickHits (fun _ => True) tick b := fun b =>
    ⟨by simp, by simp, by simp, by simp⟩
  obtain ⟨ids, hex, hall⟩ :=
    exists_executed_gapFill (P := fun _ => True) (e := { e with fills := [] }) tick (by simp)
  obtain ⟨buys, sells, bids, asks, hcross, hbuys, hsells, hbids, hasks⟩ :=
    exists_executed_cross (htrue (gapFill { e with fills := [] } tick).book)
  have hfilled : (e.onTick tick).filledIds = ids ++ (buys ++ (sells ++ (bids ++ asks))) := by
    have := (hex.trans hcross).filled
    simpa [onTick, filledIds] using this
  by_contra hnot
  simp only [hfilled, List.mem_append, not_or] at hnot
  obtain ⟨hids, hnbuys, hnsells, hnbids, hnasks⟩ := hnot
  rcases htrig with hswept | hreached
  · rcases hprev : e.prevPrice with _ | prev
    · simp [Swept, hprev] at hswept
    · rw [hprev] at hswept
      exact hids (hall prev hprev r ((mem_gapCandidates_iff hs).mpr ⟨hr, hswept⟩))
  · have hbook₁ : (gapFill { e with fills := [] } tick).book = e.book.dropAll ids := hex.book
    generalize (gapFill { e with fills := [] } tick) = e₁ at *
    have hs₁ : e₁.book.Sorted := hbook₁ ▸ hs.dropAll ids
    have hnd₁ : e₁.book.restingIds.Nodup := hbook₁ ▸ Book.nodup_dropAll hnd ids
    have hr₁ : r ∈ e₁.book.iter := hbook₁ ▸ mem_iter_dropAll hnd hr hids
    have hr₂ : r ∈ (e₁.book.dropAll buys).iter := mem_iter_dropAll hnd₁ hr₁ hnbuys
    rcases hside : r.order.side with _ | _ <;> rcases hprice : r.price with _ | p
    · rw [hbuys] at hnbuys
      exact hnbuys (List.mem_map_of_mem (hs₁.mem_marketBuys_iff.mpr ⟨hr₁, hside, hprice⟩))
    · -- a reached bid would stand at or above the top of the bids
      simp only [Reached, hside, hprice] at hreached
      have hr₄ : r ∈ (e₁.book.dropAll (buys ++ (sells ++ bids))).iter :=
        mem_iter_dropAll hnd₁ hr₁ (by simp [hnbuys, hnsells, hnbids])
      have hs₄ := hs₁.dropAll (buys ++ (sells ++ bids))
      have hmem := hs₄.mem_bids_iff.mpr ⟨hr₄, hside, by simp [hprice]⟩
      have hlt := hs₄.price_lt_of_mem_bids (hbids hreached.1) hmem hprice
      exact absurd hreached.2 (Int64.not_le.mpr hlt)
    · rw [hsells] at hnsells
      exact hnsells (List.mem_map_of_mem
        ((hs₁.dropAll buys).mem_marketSells_iff.mpr ⟨hr₂, hside, hprice⟩))
    · simp only [Reached, hside, hprice] at hreached
      have hr₅ : r ∈ (e₁.cross tick).book.iter := by
        rw [hcross.book]
        exact mem_iter_dropAll hnd₁ hr₁ (by simp [hnbuys, hnsells, hnbids, hnasks])
      have hs₅ : (e₁.cross tick).book.Sorted := hcross.book ▸ hs₁.dropAll _
      have hmem := hs₅.mem_asks_iff.mpr ⟨hr₅, hside, by simp [hprice]⟩
      have hlt := hs₅.price_gt_of_mem_asks (hasks hreached.1) hmem hprice
      exact absurd hreached.2 (Int64.not_le.mpr hlt)

/-- **Which orders a tick fills**: on a sorted book with distinct ids, exactly
the triggered ones. -/
theorem mem_filledIds_onTick {e : L0Engine} (hs : e.book.Sorted) (hnd : e.book.restingIds.Nodup)
    {tick : Tick} {id : OrderId} :
    id ∈ (e.onTick tick).filledIds ↔
      ∃ r ∈ e.book.iter, r.id = id ∧ Triggered e.prevPrice tick r := by
  constructor
  · exact exists_triggered_of_mem_filledIds hs
  · rintro ⟨r, hr, rfl, htrig⟩
    exact mem_filledIds_of_triggered hs hnd hr htrig

end L0Engine
