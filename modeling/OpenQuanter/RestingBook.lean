/-
# The market observation and the resting order book (`oq-engine`)

`Tick` is the aggregated observation a replay consumes, with the prices a buy
and a sell are matched against.  `Book` is the resting order book: limit orders
in two price-sorted lists, market orders in two arrival-ordered ones.

The facts the matcher needs are at the end: dropping an order by id erases it
from the concatenation of the four lists (`iter_drop`), and a book whose lists
are sorted and sided stays so (`Book.Sorted`).
-/
import OpenQuanter.Fixed

/-! ## Ticks -/

/-- One aggregated market observation.  Zero means "absent" for every price but
`last`. -/
structure Tick where
  stamp : Stamp
  last : PriceTicks
  high : PriceTicks
  low : PriceTicks
  bid : PriceTicks
  ask : PriceTicks
  volume : QtyLots
  deriving DecidableEq, Repr

namespace Tick

variable (t : Tick)

/-- The price a buy is matched against: the ask, else the low, else the last. -/
def buyTrigger : PriceTicks :=
  if 0 < t.ask then t.ask else if 0 < t.low then t.low else t.last

/-- The price a buy is filled at once triggered. -/
def buyFillReference : PriceTicks := if 0 < t.ask then t.ask else t.last

/-- The price a sell is matched against: the bid, else the high, else the last. -/
def sellTrigger : PriceTicks :=
  if 0 < t.bid then t.bid else if 0 < t.high then t.high else t.last

/-- The price a sell is filled at once triggered. -/
def sellFillReference : PriceTicks := if 0 < t.bid then t.bid else t.last

/-- Upper extent of the window, for gap detection. -/
def upExtent : PriceTicks := if 0 < t.high then t.high else t.last

/-- Lower extent of the window, for gap detection. -/
def dnExtent : PriceTicks := if 0 < t.low then t.low else t.last

end Tick

/-! ## The book -/

/-- A resting order with its arrival rank. -/
structure Resting where
  order : Working
  arrival : Nat
  deriving DecidableEq

namespace Resting

def id (r : Resting) : OrderId := r.order.id
def price (r : Resting) : Option PriceTicks := r.order.price

end Resting

/-- Resting orders for one instrument. -/
structure Book where
  /-- Limit buys, best (highest) price first. -/
  bids : List Resting
  /-- Limit sells, best (lowest) price first. -/
  asks : List Resting
  marketBuys : List Resting
  marketSells : List Resting
  nextArrival : Nat
  deriving DecidableEq

namespace Book

def new : Book := ⟨[], [], [], [], 0⟩

/-- Every resting order: bids, asks, market buys, market sells. -/
def iter (b : Book) : List Resting := b.bids ++ b.asks ++ b.marketBuys ++ b.marketSells

/-- Total resting orders. -/
def len (b : Book) : Nat :=
  b.bids.length + b.asks.length + b.marketBuys.length + b.marketSells.length

/-- Ids of every resting order. -/
def restingIds (b : Book) : List OrderId := b.iter.map Resting.id

/-- Insert at the partition point of `before`. -/
def insertAt (before : Resting → Bool) (r : Resting) (side : List Resting) : List Resting :=
  side.takeWhile before ++ r :: side.dropWhile before

/-- Whether a resting bid stays ahead of a new bid at `price`. -/
def aheadOfBid (price : PriceTicks) (r : Resting) : Bool := r.price.any (fun p => price ≤ p)

/-- Whether a resting ask stays ahead of a new ask at `price`. -/
def aheadOfAsk (price : PriceTicks) (r : Resting) : Bool := r.price.any (fun p => p ≤ price)

/-- Add an order to the book, behind everything already at its price. -/
def insert (b : Book) (order : Working) : Book :=
  let resting : Resting := ⟨order, b.nextArrival⟩
  let b := { b with nextArrival := b.nextArrival + 1 }
  match order.side, order.price with
  | .buy, none => { b with marketBuys := b.marketBuys ++ [resting] }
  | .sell, none => { b with marketSells := b.marketSells ++ [resting] }
  | .buy, some price => { b with bids := insertAt (aheadOfBid price) resting b.bids }
  | .sell, some price => { b with asks := insertAt (aheadOfAsk price) resting b.asks }

/-- Apply `f` to the first of the four lists that holds `id`, in the order the
source tries them. -/
def onSide (b : Book) (id : OrderId) (f : List Resting → List Resting) : Book :=
  if b.bids.any (·.id = id) then { b with bids := f b.bids }
  else if b.asks.any (·.id = id) then { b with asks := f b.asks }
  else if b.marketBuys.any (·.id = id) then { b with marketBuys := f b.marketBuys }
  else if b.marketSells.any (·.id = id) then { b with marketSells := f b.marketSells }
  else b

/-- Take the first order with this id off the book. -/
def drop (b : Book) (id : OrderId) : Book := b.onSide id (List.eraseP (·.id = id))

/-- Remove an order by id, returning it if it was resting. -/
def remove (b : Book) (id : OrderId) : Option Working × Book :=
  ((b.iter.find? (·.id = id)).map Resting.order, b.drop id)

/-- Write `w` over the first order with this id, keeping its arrival rank. -/
def overwrite (id : OrderId) (w : Working) : List Resting → List Resting
  | [] => []
  | r :: rest => if r.id = id then { r with order := w } :: rest else r :: overwrite id w rest

/-- Replace a resting order in place, or drop it when the fill completed it. -/
def replace (b : Book) (id : OrderId) : Option Working → Book
  | some working => b.onSide id (overwrite id working)
  | none => b.drop id

/-! ## Dropping -/

theorem length_iter (b : Book) : b.iter.length = b.len := by
  simp only [iter, len, List.length_append]

@[simp] theorem nextArrival_drop (b : Book) (id : OrderId) :
    (b.drop id).nextArrival = b.nextArrival := by
  unfold drop onSide
  split_ifs <;> rfl

/-- Dropping an id erases its first occurrence among all resting orders. -/
theorem iter_drop (b : Book) (id : OrderId) :
    (b.drop id).iter = b.iter.eraseP (·.id = id) := by
  have herase : ∀ l : List Resting, ¬ l.any (·.id = id) = true → l.eraseP (·.id = id) = l := by
    intro l hl
    apply List.eraseP_of_forall_not
    simpa using hl
  unfold drop onSide iter
  simp only [List.eraseP_append]
  by_cases hb : b.bids.any (·.id = id) = true
  · simp [hb]
  · by_cases ha : b.asks.any (·.id = id) = true
    · simp [hb, ha]
    · by_cases hmb : b.marketBuys.any (·.id = id) = true
      · simp [hb, ha, hmb]
      · by_cases hms : b.marketSells.any (·.id = id) = true
        · simp [hb, ha, hmb, hms]
        · simp [hb, ha, hmb, hms, herase _ hms]

/-- With distinct ids, dropping one keeps exactly the others. -/
theorem iter_drop_of_nodup {b : Book} (hnd : b.restingIds.Nodup) (id : OrderId) :
    (b.drop id).iter = b.iter.filter (·.id ≠ id) := by
  rw [iter_drop]
  unfold restingIds at hnd
  generalize b.iter = all at hnd
  induction all with
  | nil => rfl
  | cons r rest ih =>
    rw [List.map_cons, List.nodup_cons] at hnd
    by_cases hid : r.id = id
    · rw [List.eraseP_cons_of_pos (by simpa using hid),
        List.filter_cons_of_neg (by simpa using hid)]
      symm
      rw [List.filter_eq_self]
      intro x hx
      have hne : x.id ≠ r.id := fun heq => hnd.1 (heq ▸ List.mem_map_of_mem hx)
      rw [hid] at hne
      simpa using hne
    · rw [List.eraseP_cons_of_neg (by simpa using hid),
        List.filter_cons_of_pos (by simpa using hid),
        ih hnd.2]

theorem nodup_drop {b : Book} (hnd : b.restingIds.Nodup) (id : OrderId) :
    (b.drop id).restingIds.Nodup := by
  unfold restingIds
  rw [iter_drop]
  exact hnd.sublist (List.eraseP_sublist.map _)

/-- Dropping a list of ids, one after the other. -/
def dropAll (b : Book) (ids : List OrderId) : Book := ids.foldl drop b

@[simp] theorem dropAll_nil (b : Book) : b.dropAll [] = b := rfl

@[simp] theorem dropAll_cons (b : Book) (id : OrderId) (ids : List OrderId) :
    b.dropAll (id :: ids) = (b.drop id).dropAll ids := rfl

theorem dropAll_append (b : Book) (ids ids' : List OrderId) :
    b.dropAll (ids ++ ids') = (b.dropAll ids).dropAll ids' :=
  List.foldl_append

@[simp] theorem nextArrival_dropAll (b : Book) (ids : List OrderId) :
    (b.dropAll ids).nextArrival = b.nextArrival := by
  induction ids generalizing b with
  | nil => rfl
  | cons id rest ih => rw [dropAll_cons, ih, nextArrival_drop]

theorem nodup_dropAll {b : Book} (hnd : b.restingIds.Nodup) (ids : List OrderId) :
    (b.dropAll ids).restingIds.Nodup := by
  induction ids generalizing b with
  | nil => exact hnd
  | cons id rest ih => exact ih (nodup_drop hnd id)

/-- With distinct ids, dropping a list of ids keeps exactly the orders whose id
is not in it. -/
theorem iter_dropAll {b : Book} (hnd : b.restingIds.Nodup) (ids : List OrderId) :
    (b.dropAll ids).iter = b.iter.filter (·.id ∉ ids) := by
  induction ids generalizing b with
  | nil => simp
  | cons id rest ih =>
    rw [dropAll_cons, ih (nodup_drop hnd id), iter_drop_of_nodup hnd, List.filter_filter]
    apply List.filter_congr
    intro r _
    simp only [List.mem_cons, not_or]
    by_cases h₁ : r.id = id <;> by_cases h₂ : r.id ∈ rest <;> simp [h₁, h₂]

/-- Dropping every resting id empties the book: each is the first to be found at its turn. -/
theorem iter_dropAll_restingIds (b : Book) : (b.dropAll b.restingIds).iter = [] := by
  have hall : ∀ (l : List Resting) (b : Book), b.iter = l →
    (b.dropAll (l.map Resting.id)).iter = [] := by
    intro l
    induction l with
    | nil => exact fun b hb => hb
    | cons r rest ih =>
      intro b hb
      rw [List.map_cons, dropAll_cons]
      refine ih _ ?_
      rw [iter_drop, hb, List.eraseP_cons_of_pos (by simp)]
  exact hall b.iter b rfl

/-- Dropping leaves a sublist of all resting orders. -/
theorem sublist_iter_dropAll (b : Book) (ids : List OrderId) :
    (b.dropAll ids).iter.Sublist b.iter := by
  induction ids generalizing b with
  | nil => exact List.Sublist.refl _
  | cons id rest ih =>
    rw [dropAll_cons]
    refine (ih _).trans ?_
    rw [iter_drop]
    exact List.eraseP_sublist

/-- Each side shrinks to a sublist. -/
theorem sublist_drop (b : Book) (id : OrderId) :
    (b.drop id).bids.Sublist b.bids ∧ (b.drop id).asks.Sublist b.asks ∧
      (b.drop id).marketBuys.Sublist b.marketBuys ∧
      (b.drop id).marketSells.Sublist b.marketSells := by
  unfold drop onSide
  split_ifs <;> simp [List.eraseP_sublist]

theorem sublist_dropAll (b : Book) (ids : List OrderId) :
    (b.dropAll ids).bids.Sublist b.bids ∧ (b.dropAll ids).asks.Sublist b.asks ∧
      (b.dropAll ids).marketBuys.Sublist b.marketBuys ∧
      (b.dropAll ids).marketSells.Sublist b.marketSells := by
  induction ids generalizing b with
  | nil => simp
  | cons id rest ih =>
    obtain ⟨h₁, h₂, h₃, h₄⟩ := ih (b.drop id)
    obtain ⟨h₁', h₂', h₃', h₄'⟩ := sublist_drop b id
    exact ⟨h₁.trans h₁', h₂.trans h₂', h₃.trans h₃', h₄.trans h₄'⟩

/-- Dropping one id keeps every other. -/
theorem mem_restingIds_drop {b : Book} {id id' : OrderId} (hmem : id' ∈ b.restingIds)
    (hne : id' ≠ id) : id' ∈ (b.drop id).restingIds := by
  obtain ⟨r, hr, rfl⟩ := List.mem_map.mp hmem
  refine List.mem_map_of_mem ?_
  rw [iter_drop]
  exact (List.mem_eraseP_of_neg (by simpa using hne)).mpr hr

/-- Dropping an id the book holds shortens it by one. -/
theorem len_drop_of_mem {b : Book} {id : OrderId} (hmem : id ∈ b.restingIds) :
    (b.drop id).len + 1 = b.len := by
  obtain ⟨r, hr, hid⟩ := List.mem_map.mp hmem
  rw [← length_iter, ← length_iter, iter_drop,
    List.length_eraseP_of_mem hr (by simpa using hid)]
  have hpos : 0 < b.iter.length := List.length_pos_of_mem hr
  omega

/-! ## Inserting -/

theorem insertAt_perm (before : Resting → Bool) (r : Resting) (side : List Resting) :
    (insertAt before r side).Perm (r :: side) := by
  unfold insertAt
  refine List.perm_middle.trans ?_
  rw [List.takeWhile_append_dropWhile]

/-- Inserting adds one order and moves none. -/
theorem iter_insert_perm (b : Book) (w : Working) :
    (b.insert w).iter.Perm (⟨w, b.nextArrival⟩ :: b.iter) := by
  unfold insert
  rcases hs : w.side with _ | _ <;> rcases hp : w.price with _ | price
  · show (b.bids ++ b.asks ++ (b.marketBuys ++ [_]) ++ b.marketSells).Perm _
    unfold iter
    rw [← List.append_assoc, List.append_assoc _ [_] _, List.singleton_append]
    exact List.perm_middle
  · show (insertAt _ _ b.bids ++ b.asks ++ b.marketBuys ++ b.marketSells).Perm _
    unfold iter
    exact (((insertAt_perm _ _ _).append_right _).append_right _).append_right _
  · show (b.bids ++ b.asks ++ b.marketBuys ++ (b.marketSells ++ [_])).Perm _
    unfold iter
    rw [← List.append_assoc]
    exact List.perm_append_singleton _ _
  · show (b.bids ++ insertAt _ _ b.asks ++ b.marketBuys ++ b.marketSells).Perm _
    unfold iter
    refine ((((insertAt_perm _ _ _).append_left _).append_right _).append_right _).trans ?_
    exact (List.perm_middle.append_right _).append_right _

@[simp] theorem nextArrival_insert (b : Book) (w : Working) :
    (b.insert w).nextArrival = b.nextArrival + 1 := by
  unfold insert
  rcases w.side with _ | _ <;> rcases w.price with _ | price <;> rfl

/-- The ids of the book after an insertion. -/
theorem restingIds_insert_perm (b : Book) (w : Working) :
    (b.insert w).restingIds.Perm (w.id :: b.restingIds) :=
  (iter_insert_perm b w).map Resting.id

/-! ## Price priority -/

/-- Every list holds only orders of its own kind, and the limit orders are
sorted best price first. -/
structure Sorted (b : Book) : Prop where
  bid : ∀ r ∈ b.bids, r.order.side = .buy ∧ ∃ p, r.price = some p
  ask : ∀ r ∈ b.asks, r.order.side = .sell ∧ ∃ p, r.price = some p
  marketBuy : ∀ r ∈ b.marketBuys, r.order.side = .buy ∧ r.price = none
  marketSell : ∀ r ∈ b.marketSells, r.order.side = .sell ∧ r.price = none
  bids_desc : b.bids.Pairwise (fun x y => ∀ p q, x.price = some p → y.price = some q → q ≤ p)
  asks_asc : b.asks.Pairwise (fun x y => ∀ p q, x.price = some p → y.price = some q → p ≤ q)

theorem sorted_new : new.Sorted := by
  constructor <;> simp [new]

theorem Sorted.drop {b : Book} (h : b.Sorted) (id : OrderId) : (b.drop id).Sorted := by
  obtain ⟨hbids, hasks, hbuys, hsells⟩ := sublist_drop b id
  exact
    { bid := fun r hr => h.bid r (hbids.subset hr)
      ask := fun r hr => h.ask r (hasks.subset hr)
      marketBuy := fun r hr => h.marketBuy r (hbuys.subset hr)
      marketSell := fun r hr => h.marketSell r (hsells.subset hr)
      bids_desc := h.bids_desc.sublist hbids
      asks_asc := h.asks_asc.sublist hasks }

theorem Sorted.dropAll {b : Book} (h : b.Sorted) (ids : List OrderId) : (b.dropAll ids).Sorted := by
  induction ids generalizing b with
  | nil => exact h
  | cons id rest ih => exact ih (h.drop id)

/-- Behind the partition point nothing is `before`, if that ends once it ends. -/
theorem before_eq_false_of_mem_dropWhile {R : Resting → Resting → Prop} {before : Resting → Bool}
    {side : List Resting} (hside : side.Pairwise R)
    (hclosed : ∀ x ∈ side, ∀ y ∈ side, R x y → before x = false → before y = false) :
    ∀ x ∈ side.dropWhile before, before x = false := by
  intro x hx
  rcases hd : side.dropWhile before with _ | ⟨y, rest⟩
  · simp [hd] at hx
  · have hy : before y = false := by
      have := List.head?_dropWhile_not before side
      rw [hd] at this
      simpa using this
    have hsub : ∀ z ∈ y :: rest, z ∈ side := by
      intro z hz
      exact (List.dropWhile_sublist before).subset (hd ▸ hz)
    have hback := hside.sublist (List.dropWhile_sublist before)
    rw [hd] at hx hback
    rcases List.mem_cons.mp hx with rfl | hx
    · exact hy
    · exact hclosed y (hsub y List.mem_cons_self) x (hsub x (List.mem_cons_of_mem _ hx))
        ((List.pairwise_cons.mp hback).1 x hx) hy

/-- Inserting at a partition point keeps a list sorted, for any transitive
relation that `before` decides against the new element. -/
theorem pairwise_insertAt {R : Resting → Resting → Prop} {before : Resting → Bool} {r : Resting}
    {side : List Resting} (hside : side.Pairwise R)
    (hahead : ∀ x ∈ side, before x = true → R x r)
    (hbehind : ∀ x ∈ side, before x = false → R r x)
    (hclosed : ∀ x ∈ side, ∀ y ∈ side, R x y → before x = false → before y = false) :
    (insertAt before r side).Pairwise R := by
  unfold insertAt
  have hdrop := before_eq_false_of_mem_dropWhile hside hclosed
  have hsplit : (side.takeWhile before ++ side.dropWhile before).Pairwise R := by
    rw [List.takeWhile_append_dropWhile]
    exact hside
  obtain ⟨hfront, hback, hcross⟩ := List.pairwise_append.mp hsplit
  refine List.pairwise_append.mpr ⟨hfront, List.pairwise_cons.mpr ⟨?_, hback⟩, ?_⟩
  · intro x hx
    exact hbehind x ((List.dropWhile_sublist before).subset hx) (hdrop x hx)
  · intro x hx y hy
    have hxside := (List.takeWhile_sublist before).subset hx
    rcases List.mem_cons.mp hy with rfl | hy
    · exact hahead x hxside (List.mem_takeWhile_imp hx)
    · exact hcross x hx y hy

theorem Sorted.insert {b : Book} (h : b.Sorted) (w : Working) : (b.insert w).Sorted := by
  have hmem : ∀ {before : Resting → Bool} {r x : Resting} {side : List Resting},
      x ∈ insertAt before r side → x = r ∨ x ∈ side := by
    intro before r x side hx
    exact List.mem_cons.mp ((insertAt_perm before r side).subset hx)
  unfold Book.insert
  rcases hs : w.side with _ | _ <;> rcases hp : w.price with _ | price
  · refine { h with marketBuy := ?_ }
    intro r hr
    rcases List.mem_append.mp hr with hr | hr
    · exact h.marketBuy r hr
    · rw [List.mem_singleton.mp hr]
      exact ⟨hs, hp⟩
  · refine { h with bid := ?_, bids_desc := ?_ }
    · intro r hr
      rcases hmem hr with rfl | hr
      · exact ⟨hs, price, hp⟩
      · exact h.bid r hr
    · have hnew : ∀ a, Resting.price ⟨w, a⟩ = some price := fun _ => hp
      refine pairwise_insertAt h.bids_desc ?_ ?_ ?_
      · intro x _ hx p q hxp hq
        rw [hnew] at hq
        simp only [aheadOfBid, hxp, Option.any_some, decide_eq_true_eq] at hx
        grind
      · intro x _ hx p q hp' hxq
        rw [hnew] at hp'
        simp only [aheadOfBid, hxq, Option.any_some, decide_eq_false_iff_not] at hx
        grind
      · intro x hx y hy hxy hbx
        obtain ⟨-, p, hxp⟩ := h.bid x hx
        obtain ⟨-, q, hyq⟩ := h.bid y hy
        have hqp := hxy p q hxp hyq
        simp only [aheadOfBid, hxp, hyq, Option.any_some, decide_eq_false_iff_not] at hbx ⊢
        grind
  · refine { h with marketSell := ?_ }
    intro r hr
    rcases List.mem_append.mp hr with hr | hr
    · exact h.marketSell r hr
    · rw [List.mem_singleton.mp hr]
      exact ⟨hs, hp⟩
  · refine { h with ask := ?_, asks_asc := ?_ }
    · intro r hr
      rcases hmem hr with rfl | hr
      · exact ⟨hs, price, hp⟩
      · exact h.ask r hr
    · have hnew : ∀ a, Resting.price ⟨w, a⟩ = some price := fun _ => hp
      refine pairwise_insertAt h.asks_asc ?_ ?_ ?_
      · intro x _ hx p q hxp hq
        rw [hnew] at hq
        simp only [aheadOfAsk, hxp, Option.any_some, decide_eq_true_eq] at hx
        grind
      · intro x _ hx p q hp' hxq
        rw [hnew] at hp'
        simp only [aheadOfAsk, hxq, Option.any_some, decide_eq_false_iff_not] at hx
        grind
      · intro x hx y hy hxy hbx
        obtain ⟨-, p, hxp⟩ := h.ask x hx
        obtain ⟨-, q, hyq⟩ := h.ask y hy
        have hpq := hxy p q hxp hyq
        simp only [aheadOfAsk, hxp, hyq, Option.any_some, decide_eq_false_iff_not] at hbx ⊢
        grind

/-- On a sorted book, which list an order rests in is read off the order. -/
theorem Sorted.mem_bids_iff {b : Book} (h : b.Sorted) {r : Resting} :
    r ∈ b.bids ↔ r ∈ b.iter ∧ r.order.side = .buy ∧ r.price ≠ none := by
  have h₁ := h.bid r
  have h₂ := h.ask r
  have h₃ := h.marketBuy r
  have h₄ := h.marketSell r
  simp only [iter, List.mem_append]
  grind

theorem Sorted.mem_asks_iff {b : Book} (h : b.Sorted) {r : Resting} :
    r ∈ b.asks ↔ r ∈ b.iter ∧ r.order.side = .sell ∧ r.price ≠ none := by
  have h₁ := h.bid r
  have h₂ := h.ask r
  have h₃ := h.marketBuy r
  have h₄ := h.marketSell r
  simp only [iter, List.mem_append]
  grind

theorem Sorted.mem_marketBuys_iff {b : Book} (h : b.Sorted) {r : Resting} :
    r ∈ b.marketBuys ↔ r ∈ b.iter ∧ r.order.side = .buy ∧ r.price = none := by
  have h₁ := h.bid r
  have h₂ := h.ask r
  have h₃ := h.marketBuy r
  have h₄ := h.marketSell r
  simp only [iter, List.mem_append]
  grind

theorem Sorted.mem_marketSells_iff {b : Book} (h : b.Sorted) {r : Resting} :
    r ∈ b.marketSells ↔ r ∈ b.iter ∧ r.order.side = .sell ∧ r.price = none := by
  have h₁ := h.bid r
  have h₂ := h.ask r
  have h₃ := h.marketBuy r
  have h₄ := h.marketSell r
  simp only [iter, List.mem_append]
  grind

/-- When the best bid is below a price, every bid is. -/
theorem Sorted.price_lt_of_mem_bids {b : Book} (h : b.Sorted) {t : PriceTicks}
    (hhead : ∀ r ∈ b.bids.head?, ∀ p, r.price = some p → p < t) {r : Resting} (hr : r ∈ b.bids)
    {p : PriceTicks} (hp : r.price = some p) : p < t := by
  rcases hb : b.bids with _ | ⟨best, rest⟩
  · simp [hb] at hr
  · obtain ⟨-, q, hq⟩ := h.bid best (by simp [hb])
    have hbest : q < t := hhead best (by simp [hb]) q hq
    have hdesc := h.bids_desc
    rw [hb] at hr hdesc
    rcases List.mem_cons.mp hr with rfl | hr
    · exact hhead r (by simp [hb]) p hp
    · have hle := (List.pairwise_cons.mp hdesc).1 r hr q p hq hp
      grind

/-- When the best ask is above a price, every ask is. -/
theorem Sorted.price_gt_of_mem_asks {b : Book} (h : b.Sorted) {t : PriceTicks}
    (hhead : ∀ r ∈ b.asks.head?, ∀ p, r.price = some p → t < p) {r : Resting} (hr : r ∈ b.asks)
    {p : PriceTicks} (hp : r.price = some p) : t < p := by
  rcases hb : b.asks with _ | ⟨best, rest⟩
  · simp [hb] at hr
  · obtain ⟨-, q, hq⟩ := h.ask best (by simp [hb])
    have hbest : t < q := hhead best (by simp [hb]) q hq
    have hasc := h.asks_asc
    rw [hb] at hr hasc
    rcases List.mem_cons.mp hr with rfl | hr
    · exact hhead r (by simp [hb]) p hp
    · have hle := (List.pairwise_cons.mp hasc).1 r hr q p hq hp
      grind

end Book
