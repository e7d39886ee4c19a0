/-
# What the simulated venue keeps (`oq-live/src/sim.rs`)

* An order is on the book or over, never both, and its number is its own.
* Every execution has a trade number of its own, and reads as what was traded.
* An order's executions make up its quantity.
* The legs are the sum of the executions, but for the one fill that nobody is
  told of.

`Sound` is all of these, and an order filled at once or off the book keeps it
(`Sound.fill`, `Sound.cross`).
-/
import OpenQuanter.SimVenue

namespace Sim

open Live (PositionSide NewOrder Placed)

/-! ## Reading what the venue writes -/

@[simp] theorem scaled_qtyText (lots : Int64) :
    Live.scaled (qtyText lots) instrument.qtyScale = some lots := by
  refine Live.scaled_decimal (by decide) lots ?_
  unfold qtyText
  rw [Exec.decimal_eq (by decide)]
  rfl

@[simp] theorem scaled_px (ticks : Int64) :
    Live.scaled (px ticks) instrument.priceScale = some ticks := by
  refine Live.scaled_decimal (by decide) ticks ?_
  unfold px
  rw [Exec.decimal_eq (by decide)]
  rfl

/-- The fill that an execution is. -/
def Taken.filled (t : Taken) (piece : Int64) (trade : Nat) (order : OrderId) (at_ : Nanos) :
    Fill where
  stamp := ⟨at_, at_⟩
  instrument := 1
  order := order
  trade := UInt64.ofNat (Int64.ofNat trade).toInt.natAbs
  side := t.side
  offset := Live.offsetOf t.leg.leg (if t.side = .buy then "BUY" else "SELL")
  price := t.price
  qty := piece
  liquidity := if t.maker then .maker else .taker

/-- **An execution is read as what was traded.** -/
theorem fillOf_execution (v : Venue) {t : Taken} {piece : Int64} (hprice : 0 < t.price)
    (hpiece : 0 < piece) (cumulative : Int64) (last : Bool) (order : OrderId) (at_ : Nanos) :
    Live.fillOf (v.execution t piece cumulative last) instrument order at_ =
      .ok (t.filled piece v.tradeId order at_) := by
  have hpos : piece ≠ 0 ∧ ¬piece < 0 ∧ ¬t.price ≤ 0 := by
    rw [Int64.lt_iff_toInt_lt] at hprice hpiece
    refine ⟨?_, ?_, ?_⟩
    · rintro rfl
      exact absurd hpiece (lt_irrefl _)
    · rw [Int64.lt_iff_toInt_lt]
      omega
    · rw [Int64.le_iff_toInt_le]
      omega
  unfold Live.fillOf Venue.execution
  simp only [scaled_qtyText, scaled_px, if_neg hpos.1, if_neg hpos.2.1, if_neg hpos.2.2]
  have hbuy : String.ofList ("BUY".toList.map Char.toUpper) = "BUY" := by decide
  have hsell : String.ofList ("SELL".toList.map Char.toUpper) = "SELL" := by decide
  cases hside : t.side with
  | buy =>
    simp only [if_true, hbuy, Taken.filled, hside]
    rfl
  | sell =>
    simp only [reduceCtorEq, if_false, hsell, Taken.filled, hside]
    rfl

/-- The executions among an order's reports. -/
def Finished.executions (f : Finished) : List ExecutionReport :=
  f.reports.filter (·.tradeId.isSome)

/-! ## What telling and numbering leave alone -/

namespace Venue

theorem draw_eq (v : Venue) (n d : UInt64) : ∃ rng, (v.draw n d).2 = { v with rng := rng } :=
  ⟨_, rfl⟩

theorem chance_eq (v : Venue) (ppm : UInt32) : ∃ rng, (v.chance ppm).2 = { v with rng := rng } := by
  unfold chance
  split
  · exact ⟨v.rng, rfl⟩
  · exact v.draw_eq _ _

/-- Telling moves the generator and the queue. -/
theorem send_eq (v : Venue) (event : ExecutionReport) :
    ∃ rng events, v.send event = { v with rng := rng, events := events } ∧
      ∀ u ∈ events, u ∈ v.events ∨ u = event := by
  unfold send
  split
  · exact ⟨v.rng, v.events, rfl, fun u hu => .inl hu⟩
  · obtain ⟨rng, hrng⟩ := v.chance_eq v.cfg.faults.duplicate
    rcases hchance : v.chance v.cfg.faults.duplicate with ⟨twice, w⟩
    rw [hchance] at hrng
    have hw : w = { v with rng := rng } := hrng
    rw [hw]
    refine ⟨rng, _, rfl, fun u hu => ?_⟩
    cases twice <;> simp at hu <;> tauto

/-! ## Executions -/

/-- The lots of a report. -/
def lots (r : ExecutionReport) : Int :=
  ((Live.scaled r.lastQty instrument.qtyScale).map Int64.toInt).getD 0

/-- What a report moved on a leg. -/
def share (leg : PositionSide) (r : ExecutionReport) : Int :=
  if r.positionSide = leg.leg then (if r.side = "BUY" then lots r else -lots r) else 0

/-- What an order's executions say of it. -/
structure Tells (symbol : String) (id : String) (r : ExecutionReport) : Prop where
  symbol : r.symbol = symbol
  clientId : r.clientId = id
  side : r.side = "BUY" ∨ r.side = "SELL"
  leg : ∃ leg : PositionSide, r.positionSide = leg.leg
  reads : ∀ order at_, ∃ fill, Live.fillOf r instrument order at_ = .ok fill

variable (v : Venue)

/-- The executions of the orders that are over. -/
def executions : List ExecutionReport :=
  v.finished.flatMap (·.2.executions)

@[simp] theorem lots_execution (t : Taken) (piece cumulative : Int64) (last : Bool) :
    lots (v.execution t piece cumulative last) = piece.toInt := by
  show ((Live.scaled (qtyText piece) instrument.qtyScale).map Int64.toInt).getD 0 = _
  rw [scaled_qtyText]
  rfl

theorem leg_inj {a b : PositionSide} (h : a.leg = b.leg) : a = b := by
  cases a <;> cases b <;> first | rfl | exact absurd h (by decide)

theorem share_execution (t : Taken) (piece cumulative : Int64) (last : Bool)
    (leg : PositionSide) :
    share leg (v.execution t piece cumulative last) =
      if leg = t.leg then signed t.side piece else 0 := by
  have hside : (v.execution t piece cumulative last).positionSide = t.leg.leg := rfl
  unfold share
  rw [lots_execution, hside]
  by_cases hleg : leg = t.leg
  · rw [if_pos (congrArg PositionSide.leg hleg.symm), if_pos hleg]
    cases hside : t.side <;> simp [execution, hside, signed]
  · rw [if_neg fun h => hleg (leg_inj h).symm, if_neg hleg]

theorem book_legs (t : Taken) (piece : Int64) (leg : PositionSide) :
    (v.book t.leg t.side piece).legs leg =
      v.legs leg + if leg = t.leg then signed t.side piece else 0 := by
  show Function.update v.legs t.leg (v.legs t.leg + signed t.side piece) leg = _
  by_cases hleg : leg = t.leg
  · rw [hleg, Function.update_self, if_pos rfl]
  · rw [Function.update_of_ne hleg, if_neg hleg, add_zero]

/-! ### The pieces of a fill -/

theorem fillPieces_cons (t : Taken) (piece : Int64) (rest : List Int64) (cumulative : Int64) :
    fillPieces t (piece :: rest) cumulative v =
      let w := v.trade t.leg t.side piece
      let update := w.execution t piece (cumulative + piece) rest.isEmpty
      ((fillPieces t rest (cumulative + piece) (w.send update)).1,
        update :: (fillPieces t rest (cumulative + piece) (w.send update)).2) := rfl

/-- **What a fill does before the order is written down as over.** -/
theorem fillPieces_eq (t : Taken) (pieces : List Int64) (cumulative : Int64) :
    ∃ rng events legs mostLegs,
      (fillPieces t pieces cumulative v).1 =
          { v with
            rng := rng, events := events, legs := legs, mostLegs := mostLegs
            tradeId := v.tradeId + pieces.length } ∧
        (∀ u ∈ events, u ∈ v.events ∨ u ∈ (fillPieces t pieces cumulative v).2) ∧
        ∀ leg, legs leg =
          v.legs leg + ((fillPieces t pieces cumulative v).2.map (share leg)).sum := by
  induction pieces generalizing cumulative v with
  | nil =>
    exact ⟨v.rng, v.events, v.legs, v.mostLegs, rfl, fun u hu => .inl hu, fun leg => by
      simp [fillPieces]⟩
  | cons piece rest ih =>
    rw [fillPieces_cons]
    generalize hw : v.trade t.leg t.side piece = w
    dsimp only
    obtain ⟨rng, events, hsend, htold⟩ :=
      w.send_eq (w.execution t piece (cumulative + piece) rest.isEmpty)
    obtain ⟨rng', events', legs, mostLegs, hrest, hqueue, hlegs⟩ :=
      ih (w.send (w.execution t piece (cumulative + piece) rest.isEmpty)) (cumulative + piece)
    refine ⟨rng', events', legs, mostLegs, ?_, ?_, ?_⟩
    · rw [hrest, hsend, ← hw, List.length_cons]
      have hcount : v.tradeId + 1 + rest.length = v.tradeId + (rest.length + 1) := by omega
      rw [← hcount]
      rfl
    · intro u hu
      rcases hqueue u hu with hbefore | hafter
      · rw [hsend] at hbefore
        rcases htold u hbefore with hold | hthis
        · refine .inl ?_
          rw [← hw] at hold
          exact hold
        · exact .inr (by rw [hthis]; exact List.mem_cons_self)
      · exact .inr (List.mem_cons_of_mem _ hafter)
    · intro leg
      rw [hlegs leg, hsend, List.map_cons, List.sum_cons, share_execution, ← hw]
      show (v.book t.leg t.side piece).legs leg + _ = _
      rw [book_legs, add_assoc]

/-- The numbers of a fill's executions follow the last one given. -/
theorem trades_fillPieces (t : Taken) (pieces : List Int64) (cumulative : Int64) :
    (fillPieces t pieces cumulative v).2.map (·.tradeId) =
      (List.range' (v.tradeId + 1) pieces.length).map fun n => some (Int64.ofNat n) := by
  induction pieces generalizing cumulative v with
  | nil => rfl
  | cons piece rest ih =>
    rw [fillPieces_cons]
    dsimp only
    rw [List.map_cons, ih, List.length_cons, List.range'_succ, List.map_cons]
    obtain ⟨rng, events, hsend, -⟩ := (v.trade t.leg t.side piece).send_eq
      ((v.trade t.leg t.side piece).execution t piece (cumulative + piece) rest.isEmpty)
    rw [hsend]
    rfl

/-- Every report of a fill is about the order, and is read as a fill. -/
theorem tells_fillPieces {t : Taken} (hprice : 0 < t.price) {pieces : List Int64}
    (hpieces : ∀ p ∈ pieces, 0 < p) (cumulative : Int64) :
    ∀ r ∈ (fillPieces t pieces cumulative v).2, Tells v.cfg.symbol t.clientId r := by
  induction pieces generalizing cumulative v with
  | nil => exact fun r hr => absurd hr List.not_mem_nil
  | cons piece rest ih =>
    rw [fillPieces_cons]
    obtain ⟨rng, events, hsend, -⟩ := (v.trade t.leg t.side piece).send_eq
      ((v.trade t.leg t.side piece).execution t piece (cumulative + piece) rest.isEmpty)
    intro r hr
    rcases List.mem_cons.mp hr with rfl | hr
    · refine ⟨rfl, rfl, ?_, ⟨t.leg, rfl⟩, fun order at_ => ⟨_, fillOf_execution _ hprice
        (hpieces piece List.mem_cons_self) _ _ order at_⟩⟩
      show (if t.side = .buy then "BUY" else "SELL") = "BUY" ∨ _
      split
      · exact .inl rfl
      · exact .inr (if_neg (by assumption))
    · have hrest := ih _ (fun p hp => hpieces p (List.mem_cons_of_mem _ hp)) _ r hr
      rw [hsend] at hrest
      exact hrest

theorem lots_fillPieces (t : Taken) (pieces : List Int64) (cumulative : Int64) :
    ((fillPieces t pieces cumulative v).2.map lots).sum = (pieces.map Int64.toInt).sum := by
  induction pieces generalizing cumulative v with
  | nil => rfl
  | cons piece rest ih =>
    rw [fillPieces_cons]
    dsimp only
    rw [List.map_cons, List.sum_cons, List.map_cons, List.sum_cons, lots_execution, ih]

/-- The pieces of a fill are positive and make up the whole. -/
theorem pieces_whole {qty : Int64} (hqty : 0 < qty) (split : Bool)
    (hsplit : split = true → 2 ≤ qty) :
    (∀ p ∈ pieces qty split, 0 < p) ∧ ((pieces qty split).map Int64.toInt).sum = qty.toInt := by
  cases split with
  | false =>
    refine ⟨fun p hp => ?_, ?_⟩
    · rw [List.mem_singleton.mp hp]
      exact hqty
    · simp [pieces]
  | true =>
    have htwo : (2 : Int) ≤ qty.toInt := Int64.le_iff_toInt_le.mp (hsplit rfl)
    have hhigh := Int64.toInt_lt qty
    have hhalf : (qty / 2).toInt = qty.toInt / 2 := by
      rw [Int64.toInt_div_of_ne_right _ _ (by decide)]
      show qty.toInt.tdiv 2 = _
      rw [Int.tdiv_eq_ediv_of_nonneg (by omega)]
    have hrest : (qty - qty / 2).toInt = qty.toInt - qty.toInt / 2 := by
      rw [Int64.toInt_sub_of_le]
      · rw [hhalf]
      · rw [Int64.le_iff_toInt_le, hhalf]
        show (0 : Int) ≤ _
        omega
      · rw [Int64.le_iff_toInt_le, hhalf]
        omega
    refine ⟨fun p hp => ?_, ?_⟩
    · rw [Int64.lt_iff_toInt_lt]
      show (0 : Int) < _
      rcases List.mem_pair.mp hp with rfl | rfl
      · rw [hhalf]
        omega
      · rw [hrest]
        omega
    · simp [pieces, hhalf, hrest]

/-! ## The invariant -/

/-- The numbers of the orders, resting and over. -/
def venueIds : List Nat := v.resting.map (·.2.venueId) ++ v.finished.map (·.2.venueId)

/-- What holds of the venue between two calls. -/
structure Sound : Prop where
  restingSorted : v.resting.Pairwise fun a b => a.1 < b.1
  finishedSorted : v.finished.Pairwise fun a b => a.1 < b.1
  apart : ∀ e ∈ v.resting, ∀ f ∈ v.finished, e.1 ≠ f.1
  ids : v.venueIds.Nodup
  idsBelow : ∀ n ∈ v.venueIds, n < v.nextVenueId
  priced : 0 < v.price
  sized : ∀ e ∈ v.resting, 0 < e.2.qty
  asked : ∀ e ∈ v.resting, e.2.side = .sell → 0 < e.2.price
  tells : ∀ f ∈ v.finished, ∀ r ∈ f.2.executions, Tells v.cfg.symbol f.1 r
  /-- An order's executions make up its quantity, unless nobody was told of it. -/
  whole : ∀ f ∈ v.finished, f.2.status = "FILLED" →
    f.2.reports = [] ∨ (f.2.reports.map lots).sum = f.2.filled.toInt
  numbered : ∀ r ∈ v.executions,
    ∃ n, r.tradeId = some (Int64.ofNat n) ∧ 0 < n ∧ n ≤ v.tradeId
  distinct : v.tradeId < 2 ^ 63 → (v.executions.map (·.tradeId)).Nodup
  queued : ∀ u ∈ v.events, u.tradeId.isSome → u ∈ v.executions
  /-- The legs are the executions, and what one fill moved that nobody was told of. -/
  balanced : ∃ leg₀ δ, (v.silentAt = none → δ = 0) ∧ ∀ leg,
    v.legs leg = (v.executions.map (share leg)).sum + if leg = leg₀ then δ else 0

variable {v}

theorem sound_new (cfg : SimConfig) : (new cfg).Sound where
  restingSorted := List.Pairwise.nil
  finishedSorted := List.Pairwise.nil
  apart := fun _ he => absurd he List.not_mem_nil
  ids := List.nodup_nil
  idsBelow := fun _ hn => absurd hn List.not_mem_nil
  priced := cfg.priced
  sized := fun _ he => absurd he List.not_mem_nil
  asked := fun _ he => absurd he List.not_mem_nil
  tells := fun _ hf => absurd hf List.not_mem_nil
  whole := fun _ hf => absurd hf List.not_mem_nil
  numbered := fun _ hr => absurd hr List.not_mem_nil
  distinct := fun _ => List.nodup_nil
  queued := fun _ hu => absurd hu List.not_mem_nil
  balanced := ⟨.oneWay, 0, fun _ => rfl, fun leg => by simp [new, executions]⟩

/-- What leaves the orders alone. -/
theorem Sound.beside (h : v.Sound) {rng : Rng} {events : List ExecutionReport}
    {connected : Bool} {generation now nextMarket tradeId : Nat} {price : Int64}
    (hevents : ∀ u ∈ events, u.tradeId.isSome → u ∈ v.executions) (hprice : 0 < price)
    (htrade : v.tradeId ≤ tradeId) :
    Sound
      { v with
        rng := rng, events := events, connected := connected, generation := generation
        now := now, nextMarket := nextMarket, tradeId := tradeId, price := price } where
  restingSorted := h.restingSorted
  finishedSorted := h.finishedSorted
  apart := h.apart
  ids := h.ids
  idsBelow := h.idsBelow
  priced := hprice
  sized := h.sized
  asked := h.asked
  tells := h.tells
  whole := h.whole
  numbered := fun r hr =>
    let ⟨n, hn, hpos, hle⟩ := h.numbered r hr
    ⟨n, hn, hpos, hle.trans htrade⟩
  distinct := fun hlast => h.distinct (htrade.trans_lt hlast)
  queued := hevents
  balanced := h.balanced

theorem executions_finish (v : Venue) {id : String} (hfresh : ∀ e ∈ v.finished, e.1 ≠ id)
    (f : Finished) :
    (v.finish id f).executions.Perm (f.executions ++ v.executions) :=
  (SortedAssoc.upsert_perm hfresh (fun _ => f) f).flatMap_right _

/-- **An order is written down as over**, with its executions. -/
theorem Sound.over (h : v.Sound) {id : String} {f : Finished}
    (hrests : ∀ e ∈ v.resting, e.1 ≠ id) (hfresh : ∀ e ∈ v.finished, e.1 ≠ id)
    (hid : f.venueId ∉ v.venueIds) (hbelow : f.venueId < v.nextVenueId)
    (htells : ∀ r ∈ f.executions, Tells v.cfg.symbol id r)
    (hwhole : f.status = "FILLED" →
      f.reports = [] ∨ (f.reports.map lots).sum = f.filled.toInt)
    {rng : Rng} {events : List ExecutionReport} {legs : PositionSide → Int}
    {mostLegs tradeId : Nat} {silentAt : Option Nat} (htrade : v.tradeId ≤ tradeId)
    (hnumbered : ∀ r ∈ f.executions,
      ∃ n, r.tradeId = some (Int64.ofNat n) ∧ v.tradeId < n ∧ n ≤ tradeId)
    (hdistinct : tradeId < 2 ^ 63 → (f.executions.map (·.tradeId)).Nodup)
    (hqueued : ∀ u ∈ events, u.tradeId.isSome → u ∈ v.executions ∨ u ∈ f.executions)
    (hbalanced : ∃ leg₀ δ, (silentAt = none → δ = 0) ∧ ∀ leg,
      legs leg = (f.executions.map (share leg)).sum +
        ((v.executions.map (share leg)).sum + if leg = leg₀ then δ else 0)) :
    Sound
      (({ v with
          rng := rng, events := events, legs := legs, mostLegs := mostLegs, tradeId := tradeId
          silentAt := silentAt } : Venue).finish id f) := by
  have hmem : ∀ e, e ∈ SortedAssoc.upsert id (fun _ => f) f v.finished →
      e = (id, f) ∨ e ∈ v.finished := fun e he =>
    List.mem_cons.mp ((SortedAssoc.upsert_perm hfresh (fun _ => f) f).mem_iff.mp he)
  have hperm := executions_finish
    ({ v with
        rng := rng, events := events, legs := legs, mostLegs := mostLegs, tradeId := tradeId
        silentAt := silentAt } : Venue) hfresh f
  have hids : (({ v with
          rng := rng, events := events, legs := legs, mostLegs := mostLegs, tradeId := tradeId
          silentAt := silentAt } : Venue).finish id f).venueIds.Perm
      (f.venueId :: v.venueIds) := by
    have hnew := (SortedAssoc.upsert_perm hfresh (fun _ => f) f).map fun e => e.2.venueId
    exact (hnew.append_left _).trans List.perm_middle
  exact
    { restingSorted := h.restingSorted
      finishedSorted := SortedAssoc.pairwise_upsert id _ f h.finishedSorted
      apart := by
        intro e he g hg
        rcases hmem g hg with rfl | hold
        · exact hrests e he
        · exact h.apart e he g hold
      ids := hids.nodup_iff.mpr (List.nodup_cons.mpr ⟨hid, h.ids⟩)
      idsBelow := by
        intro n hn
        rcases List.mem_cons.mp (hids.mem_iff.mp hn) with rfl | hold
        · exact hbelow
        · exact h.idsBelow n hold
      priced := h.priced
      sized := h.sized
      asked := h.asked
      tells := by
        intro g hg
        rcases hmem g hg with rfl | hold
        · exact htells
        · exact h.tells g hold
      whole := by
        intro g hg
        rcases hmem g hg with rfl | hold
        · exact hwhole
        · exact h.whole g hold
      numbered := by
        intro r hr
        rcases List.mem_append.mp (hperm.mem_iff.mp hr) with hnew | hold
        · obtain ⟨n, hn, hlow, hhigh⟩ := hnumbered r hnew
          exact ⟨n, hn, by omega, hhigh⟩
        · obtain ⟨n, hn, hpos, hle⟩ := h.numbered r hold
          exact ⟨n, hn, hpos, hle.trans htrade⟩
      distinct := by
        intro (hlast : tradeId < 2 ^ 63)
        rw [(hperm.map _).nodup_iff, List.map_append]
        refine List.nodup_append.mpr ⟨hdistinct hlast, h.distinct (htrade.trans_lt hlast), ?_⟩
        -- the new numbers are above the old ones
        intro a ha b hb hab
        obtain ⟨r, hr, rfl⟩ := List.mem_map.mp ha
        obtain ⟨r', hr', rfl⟩ := List.mem_map.mp hb
        obtain ⟨n, hn, hlow, hhigh⟩ := hnumbered r hr
        obtain ⟨m, hm, -, hle⟩ := h.numbered r' hr'
        rw [hn, hm] at hab
        have htoInt := congrArg Int64.toInt (Option.some.inj hab)
        rw [Int64.toInt_ofNat_of_lt (by omega), Int64.toInt_ofNat_of_lt (by omega)] at htoInt
        omega
      queued := by
        intro u hu hsome
        refine hperm.mem_iff.mpr (List.mem_append.mpr ?_)
        exact (hqueued u hu hsome).symm
      balanced := by
        obtain ⟨leg₀, δ, hsilent, hlegs⟩ := hbalanced
        refine ⟨leg₀, δ, hsilent, fun leg => ?_⟩
        rw [(hperm.map (share leg)).sum_eq, List.map_append, List.sum_append, add_assoc]
        exact hlegs leg }

/-! ## One call -/

theorem executions_eq_reports {f : Finished} (h : ∀ r ∈ f.reports, r.tradeId.isSome = true) :
    f.executions = f.reports :=
  List.filter_eq_self.mpr h

theorem isSome_fillPieces (v : Venue) (t : Taken) (pieces : List Int64) (cumulative : Int64) :
    ∀ r ∈ (fillPieces t pieces cumulative v).2,
      ∃ n, r.tradeId = some (Int64.ofNat n) ∧ v.tradeId < n ∧ n ≤ v.tradeId + pieces.length := by
  intro r hr
  have hmem := List.mem_map_of_mem hr (f := fun r : ExecutionReport => r.tradeId)
  rw [trades_fillPieces] at hmem
  obtain ⟨n, hn, hsome⟩ := List.mem_map.mp hmem
  obtain ⟨i, hi, rfl⟩ := List.mem_range'.mp hn
  exact ⟨_, hsome.symm, by omega, by omega⟩

/-- Whether a fill comes in two pieces is drawn, if it can. -/
theorem drawn_split (v : Venue) (t : Taken) : ∃ split rng,
    (if 2 ≤ t.qty then v.chance v.cfg.faults.partialFill else (false, v)) =
      (split, { v with rng := rng }) ∧ (split = true → 2 ≤ t.qty) := by
  split
  · rename_i htwo
    obtain ⟨rng, hrng⟩ := v.chance_eq v.cfg.faults.partialFill
    exact ⟨(v.chance v.cfg.faults.partialFill).1, rng, Prod.ext rfl hrng, fun _ => htwo⟩
  · exact ⟨false, v.rng, rfl, fun hf => absurd hf (by simp)⟩

/-- **Filling an order** that is new or was taken off the book. -/
theorem Sound.fill (h : v.Sound) {t : Taken} (hrests : ∀ e ∈ v.resting, e.1 ≠ t.clientId)
    (hfresh : ∀ e ∈ v.finished, e.1 ≠ t.clientId) (hid : t.venueId ∉ v.venueIds)
    (hbelow : t.venueId < v.nextVenueId) (hprice : 0 < t.price) (hqty : 0 < t.qty) :
    (v.fill t).Sound := by
  unfold Venue.fill
  split
  · rename_i hsilent
    have hnone : v.silentAt = none := by
      unfold silent at hsilent
      cases hat : v.silentAt with
      | none => rfl
      | some at_ => rw [hat] at hsilent; simp at hsilent
    obtain ⟨leg₀, δ, hδ, hlegs⟩ := h.balanced
    refine h.over hrests hfresh hid hbelow (fun r hr => absurd hr List.not_mem_nil)
      (fun _ => .inl rfl) le_rfl (fun r hr => absurd hr List.not_mem_nil)
      (fun _ => List.nodup_nil) (fun u hu hsome => .inl (h.queued u hu hsome)) ?_
    refine ⟨t.leg, signed t.side t.qty, fun hsome => absurd hsome (by simp), fun leg => ?_⟩
    rw [book_legs, hlegs leg, hδ hnone]
    simp [Finished.executions]
  · -- the pieces, told one by one
    obtain ⟨split, rng, hdrawn, htwo⟩ := v.drawn_split t
    obtain ⟨hpos, hsum⟩ := pieces_whole hqty split htwo
    rw [hdrawn]
    dsimp only
    generalize hw : ({ v with rng := rng } : Venue) = w
    obtain ⟨rng', events, legs, mostLegs, hfilled, hqueue, hmoved⟩ :=
      w.fillPieces_eq t (pieces t.qty split) 0
    have hnumbers := w.isSome_fillPieces t (pieces t.qty split) 0
    have htells := w.tells_fillPieces hprice hpos 0
    have hall : (⟨t.venueId, "FILLED", t.qty,
        (fillPieces t (pieces t.qty split) 0 w).2⟩ : Finished).executions =
          (fillPieces t (pieces t.qty split) 0 w).2 := by
      refine executions_eq_reports fun r hr => ?_
      obtain ⟨n, hn, -⟩ := hnumbers r hr
      rw [hn]
      rfl
    have htrades := w.trades_fillPieces t (pieces t.qty split) 0
    have hwhole := w.lots_fillPieces t (pieces t.qty split) 0
    rw [hfilled]
    subst hw
    refine h.over hrests hfresh hid hbelow ?_ (fun _ => .inr ?_) (Nat.le_add_right _ _) ?_ ?_ ?_ ?_
    · rw [hall]
      exact htells
    · rw [← hsum]
      exact hwhole
    · rw [hall]
      exact hnumbers
    · intro (hlast : v.tradeId + (pieces t.qty split).length < 2 ^ 63)
      rw [hall, htrades]
      refine (List.nodup_map_iff_inj_on (List.nodup_range' 1)).mpr fun a ha b hb hab => ?_
      have hfits : ∀ n ∈ List.range' (v.tradeId + 1) (pieces t.qty split).length, n < 2 ^ 63 := by
        intro n hn
        obtain ⟨i, hi, rfl⟩ := List.mem_range'.mp hn
        omega
      have htoInt := congrArg Int64.toInt (Option.some.inj hab)
      rw [Int64.toInt_ofNat_of_lt (hfits a ha), Int64.toInt_ofNat_of_lt (hfits b hb)] at htoInt
      exact_mod_cast htoInt
    · intro u hu hsome
      rw [hall]
      exact (hqueue u hu).imp_left fun hold => h.queued u hold hsome
    · obtain ⟨leg₀, δ, hδ, hlegs⟩ := h.balanced
      refine ⟨leg₀, δ, hδ, fun leg => ?_⟩
      rw [hall, hmoved leg]
      show v.legs leg + _ = _
      rw [hlegs leg]
      ring

/-! ### The book -/

/-- Two venues with the same market. -/
structure SameMarket (v w : Venue) : Prop where
  cfg : w.cfg = v.cfg
  now : w.now = v.now
  price : w.price = v.price
  nextMarket : w.nextMarket = v.nextMarket

theorem SameMarket.refl (v : Venue) : SameMarket v v := ⟨rfl, rfl, rfl, rfl⟩

theorem SameMarket.trans {u v w : Venue} (h : SameMarket u v) (h' : SameMarket v w) :
    SameMarket u w :=
  ⟨h'.cfg.trans h.cfg, h'.now.trans h.now, h'.price.trans h.price,
    h'.nextMarket.trans h.nextMarket⟩

/-- Filling leaves the market and the book alone. -/
theorem fill_keeps (v : Venue) (t : Taken) :
    SameMarket v (v.fill t) ∧ (v.fill t).resting = v.resting := by
  unfold Venue.fill
  split
  · exact ⟨⟨rfl, rfl, rfl, rfl⟩, rfl⟩
  · obtain ⟨split, rng, hdrawn, -⟩ := v.drawn_split t
    rw [hdrawn]
    dsimp only
    obtain ⟨rng', events, legs, mostLegs, hfilled, -⟩ :=
      ({ v with rng := rng } : Venue).fillPieces_eq t (pieces t.qty split) 0
    rw [hfilled]
    exact ⟨⟨rfl, rfl, rfl, rfl⟩, rfl⟩

/-- What only grows: an order that is over stays as it ended, and trades are numbered on. -/
structure Later (v w : Venue) : Prop where
  cfg : w.cfg = v.cfg
  tradeId : v.tradeId ≤ w.tradeId
  finished : ∀ e ∈ v.finished, e ∈ w.finished

theorem Later.refl (v : Venue) : Later v v := ⟨rfl, le_rfl, fun _ he => he⟩

theorem Later.trans {u v w : Venue} (h : Later u v) (h' : Later v w) : Later u w :=
  ⟨h'.cfg.trans h.cfg, h.tradeId.trans h'.tradeId, fun e he => h'.finished e (h.finished e he)⟩

/-- Executions are not taken back. -/
theorem Later.executions {w : Venue} (h : Later v w) : ∀ r ∈ v.executions, r ∈ w.executions := by
  intro r hr
  obtain ⟨e, he, hmem⟩ := List.mem_flatMap.mp hr
  exact List.mem_flatMap.mpr ⟨e, h.finished e he, hmem⟩

theorem later_finish (v : Venue) {id : String} (hfresh : ∀ e ∈ v.finished, e.1 ≠ id)
    (f : Finished) : Later v (v.finish id f) :=
  ⟨rfl, le_rfl, fun _ he =>
    (SortedAssoc.upsert_perm hfresh (fun _ => f) f).mem_iff.mpr (List.mem_cons_of_mem _ he)⟩

theorem later_fill (v : Venue) {t : Taken} (hfresh : ∀ e ∈ v.finished, e.1 ≠ t.clientId) :
    Later v (v.fill t) := by
  unfold Venue.fill
  split
  · have hlater := later_finish
      ({ v.book t.leg t.side t.qty with silentAt := some v.now } : Venue) hfresh
      ⟨t.venueId, "FILLED", t.qty, []⟩
    exact ⟨rfl, le_rfl, hlater.finished⟩
  · obtain ⟨split, rng, hdrawn, -⟩ := v.drawn_split t
    rw [hdrawn]
    dsimp only
    generalize (fillPieces t (pieces t.qty split) 0 ({ v with rng := rng } : Venue)).2 = reports
    obtain ⟨rng', events, legs, mostLegs, hfilled, -⟩ :=
      ({ v with rng := rng } : Venue).fillPieces_eq t (pieces t.qty split) 0
    rw [hfilled]
    have hlater := later_finish
      ({ v with
          rng := rng', events := events, legs := legs, mostLegs := mostLegs
          tradeId := v.tradeId + (pieces t.qty split).length } : Venue) hfresh
      ⟨t.venueId, "FILLED", t.qty, reports⟩
    exact ⟨rfl, Nat.le_add_right _ _, hlater.finished⟩

/-- Taking an order off the book leaves its number to nobody. -/
theorem Sound.withoutResting (h : v.Sound) {id : String} {o : Resting}
    (hfind : SortedAssoc.find id v.resting = some o) :
    (v.withoutResting id).Sound ∧ (∀ e ∈ (v.withoutResting id).resting, e.1 ≠ id) ∧
      (∀ e ∈ v.finished, e.1 ≠ id) ∧ o.venueId ∉ (v.withoutResting id).venueIds ∧
      o.venueId < v.nextVenueId := by
  have hmem := (SortedAssoc.find_eq_some_iff h.restingSorted).mp hfind
  have hperm := SortedAssoc.perm_cons_filter h.restingSorted hmem
  have hkept : ∀ e ∈ (v.withoutResting id).resting, e ∈ v.resting := fun e he =>
    (List.mem_filter.mp he).1
  have hids : v.venueIds.Perm (o.venueId :: (v.withoutResting id).venueIds) :=
    (hperm.map fun e => e.2.venueId).append_right _
  have hnodup := hids.nodup_iff.mp h.ids
  refine ⟨?_, fun e he => of_decide_eq_true (List.mem_filter.mp he).2,
    fun f hf => (h.apart _ hmem f hf).symm, (List.nodup_cons.mp hnodup).1,
    h.idsBelow _ (hids.mem_iff.mpr List.mem_cons_self)⟩
  exact
    { restingSorted := h.restingSorted.filter _
      finishedSorted := h.finishedSorted
      apart := fun e he => h.apart e (hkept e he)
      ids := (List.nodup_cons.mp hnodup).2
      idsBelow := fun n hn => h.idsBelow n (hids.mem_iff.mpr (List.mem_cons_of_mem _ hn))
      priced := h.priced
      sized := fun e he => h.sized e (hkept e he)
      asked := fun e he => h.asked e (hkept e he)
      tells := h.tells
      whole := h.whole
      numbered := h.numbered
      distinct := h.distinct
      queued := h.queued
      balanced := h.balanced }

/-- Filling an order on the book takes it off. -/
theorem resting_fillResting (h : v.Sound) (id : String) :
    (v.fillResting id).resting = v.resting.filter (·.1 ≠ id) ∧
      SameMarket v (v.fillResting id) ∧ Later v (v.fillResting id) := by
  unfold fillResting
  split
  · rename_i o hfind
    obtain ⟨hmarket, hresting⟩ := (v.withoutResting id).fill_keeps
      ⟨id, o.venueId, o.leg, o.side, o.price, o.qty, true⟩
    obtain ⟨-, -, hfresh, -⟩ := h.withoutResting hfind
    have hlater := (v.withoutResting id).later_fill
      (t := ⟨id, o.venueId, o.leg, o.side, o.price, o.qty, true⟩) hfresh
    exact ⟨hresting, ⟨hmarket.1, hmarket.2, hmarket.3, hmarket.4⟩,
      ⟨hlater.1, hlater.2, hlater.3⟩⟩
  · rename_i hnone
    have hnot := (SortedAssoc.find_eq_none_iff h.restingSorted).mp hnone
    exact ⟨(List.filter_eq_self.mpr fun e he => decide_eq_true (hnot e he)).symm,
      SameMarket.refl v, Later.refl v⟩

/-- An order that a positive price reaches has a positive price. -/
theorem Sound.price_pos_of_reached (h : v.Sound) {id : String} {o : Resting} {price : Int64}
    (hprice : 0 < price) (hmem : (id, o) ∈ v.resting) (hreached : reached price o = true) :
    0 < o.price := by
  cases hside : o.side with
  | buy =>
    have hle : price ≤ o.price := by
      rw [reached, hside] at hreached
      exact of_decide_eq_true hreached
    rw [Int64.lt_iff_toInt_lt] at hprice ⊢
    rw [Int64.le_iff_toInt_le] at hle
    omega
  | sell => exact h.asked _ hmem hside

theorem Sound.fillResting (h : v.Sound) {id : String}
    (hprice : ∀ o, (id, o) ∈ v.resting → 0 < o.price) : (v.fillResting id).Sound := by
  unfold Venue.fillResting
  split
  · rename_i o hfind
    have hmem := (SortedAssoc.find_eq_some_iff h.restingSorted).mp hfind
    obtain ⟨hsound, hrests, hfresh, hid, hbelow⟩ := h.withoutResting hfind
    exact hsound.fill hrests hfresh hid hbelow (hprice o hmem) (h.sized _ hmem)
  · exact h

/-- Filling the orders on the book with some client ids. -/
theorem Sound.foldl_fillResting (h : v.Sound) (ids : List String)
    (hprice : ∀ id ∈ ids, ∀ o, (id, o) ∈ v.resting → 0 < o.price) :
    (ids.foldl Venue.fillResting v).Sound ∧
      (ids.foldl Venue.fillResting v).resting = v.resting.filter (fun e => e.1 ∉ ids) ∧
      SameMarket v (ids.foldl Venue.fillResting v) ∧ Later v (ids.foldl Venue.fillResting v) := by
  induction ids generalizing v with
  | nil => exact ⟨h, by simp, SameMarket.refl v, Later.refl v⟩
  | cons id rest ih =>
    obtain ⟨hresting, hmarket, hlater⟩ := resting_fillResting h id
    have hnext := h.fillResting (hprice id List.mem_cons_self)
    obtain ⟨hsound, hleft, hsame, hgrown⟩ := ih hnext fun other hother o ho => by
      rw [hresting] at ho
      exact hprice other (List.mem_cons_of_mem _ hother) o (List.mem_filter.mp ho).1
    refine ⟨hsound, ?_, hmarket.trans hsame, hlater.trans hgrown⟩
    rw [List.foldl_cons, hleft, hresting, List.filter_filter]
    refine List.filter_congr fun e _ => ?_
    simp [List.mem_cons, Bool.and_comm]

/-- **Crossing** fills what the price reaches and leaves the rest on the book. -/
theorem Sound.cross (h : v.Sound) {price : Int64} (hprice : 0 < price) :
    (v.cross price).Sound ∧
      (v.cross price).resting = v.resting.filter (fun e => !reached price e.2) ∧
      SameMarket v (v.cross price) ∧ Later v (v.cross price) := by
  have hunique : ∀ e ∈ v.resting, ∀ f ∈ v.resting, e.1 = f.1 → e = f := by
    intro e he f hf hkey
    have hfound := (SortedAssoc.find_eq_some_iff h.restingSorted).mpr he
    have hfound' := (SortedAssoc.find_eq_some_iff h.restingSorted).mpr hf
    rw [hkey] at hfound
    exact Prod.ext hkey (Option.some.inj (hfound.symm.trans hfound'))
  obtain ⟨hsound, hleft, hsame, hlater⟩ := h.foldl_fillResting
    ((v.resting.filter fun e => reached price e.2).map Prod.fst) fun id hid o ho => by
      obtain ⟨e, he, rfl⟩ := List.mem_map.mp hid
      obtain ⟨hmem, hreached⟩ := List.mem_filter.mp he
      rw [hunique e hmem _ ho rfl] at hreached
      exact h.price_pos_of_reached hprice ho hreached
  refine ⟨hsound, hleft.trans (List.filter_congr fun e he => ?_), hsame, hlater⟩
  by_cases hreached : reached price e.2 = true
  · have hin : e.1 ∈ (v.resting.filter fun e => reached price e.2).map Prod.fst :=
      List.mem_map_of_mem (List.mem_filter.mpr ⟨he, hreached⟩)
    simp [hreached, hin]
  · have hout : e.1 ∉ (v.resting.filter fun e => reached price e.2).map Prod.fst := by
      intro hin
      obtain ⟨f, hf, hkey⟩ := List.mem_map.mp hin
      obtain ⟨hmem, hother⟩ := List.mem_filter.mp hf
      exact hreached (by rw [← hunique f hmem e he hkey]; exact hother)
    simp [hreached, hout]

end Venue

end Sim
