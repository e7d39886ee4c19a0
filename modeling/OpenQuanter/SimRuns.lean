/-
# Runs of the simulated venue (`oq-live/src/sim.rs`)

Whatever is placed, cancelled and waited for, and whatever goes wrong, the
accounts stay right and nothing rests that the market reaches (`run_follows`).
What is over stays as it ended, with the same executions.
-/
import OpenQuanter.SimMatching

namespace Sim

open Live (PositionSide NewOrder Placed)

namespace Venue

variable {v : Venue}

/-- No order rests that the market reaches. -/
def Uncrossed (v : Venue) : Prop := ∀ e ∈ v.resting, reached v.price e.2 = false

/-! ## Time -/

/-- What holds between two calls: the accounts are right and nothing rests in reach. -/
structure Orderly (v : Venue) : Prop where
  sound : v.Sound
  uncrossed : v.Uncrossed

theorem orderly_new (cfg : SimConfig) : (new cfg).Orderly :=
  ⟨sound_new cfg, fun _ he => absurd he List.not_mem_nil⟩

theorem one_le_max (p : Int64) : 0 < max p 1 := by
  show 0 < if p ≤ 1 then 1 else p
  split
  · decide
  · rename_i h
    rw [Int64.le_iff_toInt_le] at h
    rw [Int64.lt_iff_toInt_lt]
    have hone : (1 : Int64).toInt = 1 := rfl
    have hzero : (0 : Int64).toInt = 0 := rfl
    omega

/-- A move: a positive price, what it reaches, and the next time. -/
theorem moveMarket_eq (v : Venue) :
    ∃ rng price, 0 < price ∧ v.moveMarket =
      { cross { v with rng := rng, price := price, tradeId := v.tradeId + 1 } price with
        nextMarket := v.nextMarket + v.cfg.marketEvery } :=
  ⟨_, _, one_le_max _, rfl⟩

theorem Orderly.moveMarket (h : v.Orderly) :
    v.moveMarket.Orderly ∧ v.moveMarket.now = v.now ∧ v.moveMarket.cfg = v.cfg ∧
      v.moveMarket.nextMarket = v.nextMarket + v.cfg.marketEvery ∧ Later v v.moveMarket := by
  obtain ⟨rng, price, hpos, hmove⟩ := v.moveMarket_eq
  rw [hmove]
  have hmoved : Sound { v with rng := rng, price := price, tradeId := v.tradeId + 1 } :=
    h.sound.beside h.sound.queued hpos (Nat.le_succ _)
  obtain ⟨hsound, hresting, hsame, hlater⟩ := hmoved.cross hpos
  refine ⟨⟨hsound.beside hsound.queued hsound.priced le_rfl, fun e he => ?_⟩, hsame.now,
    hsame.cfg, rfl, ⟨hlater.cfg, (Nat.le_succ _).trans hlater.tradeId, hlater.finished⟩⟩
  have hprice : (cross { v with rng := rng, price := price, tradeId := v.tradeId + 1 }
      price).price = price := hsame.price
  show reached (cross { v with rng := rng, price := price, tradeId := v.tradeId + 1 }
    price).price e.2 = false
  rw [hprice]
  have hmem : e ∈ v.resting.filter fun e => !reached price e.2 := by
    rw [← hresting]
    exact he
  simpa using (List.mem_filter.mp hmem).2

/-- What one call makes of an orderly venue. -/
structure Follows (v w : Venue) : Prop where
  orderly : w.Orderly
  later : Later v w

theorem Follows.trans {u v w : Venue} (h : Follows u v) (h' : Follows v w) : Follows u w :=
  ⟨h'.orderly, h.later.trans h'.later⟩

theorem Orderly.follows (h : v.Orderly) : Follows v v := ⟨h, Later.refl v⟩

theorem Orderly.advance (h : v.Orderly) : Follows v v.advance :=
  Function.Iterate.rec (Follows v) h.follows
    (fun _ hw => hw.trans ⟨hw.orderly.moveMarket.1, hw.orderly.moveMarket.2.2.2.2⟩) v.turns

theorem Orderly.elapse (h : v.Orderly) (d : Nat) : Follows v (v.elapse d) := by
  have hlate : Orderly { v with now := v.now + d } :=
    ⟨h.sound.beside h.sound.queued h.sound.priced le_rfl, h.uncrossed⟩
  exact ⟨hlate.advance.orderly, ⟨hlate.advance.later.1, hlate.advance.later.2,
    hlate.advance.later.3⟩⟩

/-! ## Orders -/

theorem Orderly.chance (h : v.Orderly) (ppm : UInt32) : Follows v (v.chance ppm).2 := by
  obtain ⟨rng, hrng⟩ := v.chance_eq ppm
  rw [hrng]
  exact ⟨⟨h.sound.beside h.sound.queued h.sound.priced le_rfl, h.uncrossed⟩,
    ⟨rfl, le_rfl, fun _ he => he⟩⟩

theorem Orderly.draw (h : v.Orderly) (n d : UInt64) : Follows v (v.draw n d).2 :=
  ⟨⟨h.sound.beside h.sound.queued h.sound.priced le_rfl, h.uncrossed⟩,
    ⟨rfl, le_rfl, fun _ he => he⟩⟩

/-- A report that is no execution may be told at any time. -/
theorem Orderly.send (h : v.Orderly) {u : ExecutionReport} (hu : u.tradeId = none) :
    Follows v (v.send u) := by
  obtain ⟨rng, events, hsend, htold⟩ := v.send_eq u
  rw [hsend]
  refine ⟨⟨h.sound.beside (fun r hr hsome => ?_) h.sound.priced le_rfl, h.uncrossed⟩,
    ⟨rfl, le_rfl, fun _ he => he⟩⟩
  rcases htold r hr with hold | rfl
  · exact h.sound.queued r hold hsome
  · rw [hu] at hsome
    cases hsome

/-- A client id the venue does not know. -/
theorem fresh_of_not_knows (h : v.Sound) {id : String} (hnot : v.knows id = false) :
    (∀ e ∈ v.resting, e.1 ≠ id) ∧ ∀ e ∈ v.finished, e.1 ≠ id := by
  unfold knows at hnot
  rw [Bool.or_eq_false_iff, Option.isSome_eq_false_iff, Option.isSome_eq_false_iff,
    Option.isNone_iff_eq_none, Option.isNone_iff_eq_none] at hnot
  exact ⟨(SortedAssoc.find_eq_none_iff h.restingSorted).mp hnot.1,
    (SortedAssoc.find_eq_none_iff h.finishedSorted).mp hnot.2⟩

/-- The next number was given to no order. -/
theorem Sound.fresh_id (h : v.Sound) : v.nextVenueId ∉ v.venueIds := fun hmem =>
  lt_irrefl _ (h.idsBelow _ hmem)

theorem Sound.numberNext (h : v.Sound) : Sound { v with nextVenueId := v.nextVenueId + 1 } :=
  { h with idsBelow := fun n hn => (h.idsBelow n hn).trans (Nat.lt_succ_self _) }

/-- **Placing an order** that is not known. -/
theorem Orderly.placeNow (h : v.Orderly) {order : NewOrder}
    (hnot : v.knows order.clientId = false) (hqty : 0 < order.qty) :
    Follows v (v.placeNow order).1 := by
  obtain ⟨hrests, hfresh⟩ := fresh_of_not_knows h.sound hnot
  have hnext := h.sound.numberNext
  unfold Venue.placeNow
  dsimp only
  split
  · -- filled at the market
    obtain ⟨hmarket, hresting⟩ := fill_keeps { v with nextVenueId := v.nextVenueId + 1 }
      ⟨order.clientId, v.nextVenueId, order.positionSide, order.side, v.price, order.qty, false⟩
    have hlater := later_fill { v with nextVenueId := v.nextVenueId + 1 }
      (t := ⟨order.clientId, v.nextVenueId, order.positionSide, order.side, v.price, order.qty,
        false⟩) hfresh
    refine ⟨⟨hnext.fill hrests hfresh h.sound.fresh_id (Nat.lt_succ_self _) h.sound.priced hqty,
      fun e he => ?_⟩, ⟨hlater.1, hlater.2, hlater.3⟩⟩
    rw [hresting] at he
    rw [hmarket.price]
    exact h.uncrossed e he
  · -- it rests, out of reach
    rename_i hrest
    generalize ho : (⟨v.nextVenueId, order.positionSide, order.side,
      order.limitPrice.getD v.price, order.qty⟩ : Resting) = o
    have hout : reached v.price o = false ∧ (o.side = .sell → 0 < o.price) := by
      unfold marketable at hrest
      have hpriced := h.sound.priced
      cases hlimit : order.limitPrice with
      | none => rw [hlimit] at hrest; exact absurd rfl hrest
      | some limit =>
        cases hside : order.side with
        | buy =>
          rw [hlimit, hside] at hrest
          rw [← ho]
          simp only [reached, hside, hlimit, Option.getD_some]
          exact ⟨by simpa using hrest, fun hsell => by cases hsell⟩
        | sell =>
          rw [hlimit, hside] at hrest
          rw [← ho]
          simp only [reached, hside, hlimit, Option.getD_some]
          have hlow : ¬limit ≤ v.price := by simpa using hrest
          refine ⟨by simpa using hlow, fun _ => ?_⟩
          rw [Int64.lt_iff_toInt_lt] at hpriced ⊢
          rw [Int64.le_iff_toInt_le] at hlow
          omega
    have hperm := SortedAssoc.upsert_perm hrests (fun _ => o) o
    have hmem : ∀ e ∈ SortedAssoc.upsert order.clientId (fun _ => o) o v.resting,
        e = (order.clientId, o) ∨ e ∈ v.resting := fun e he =>
      List.mem_cons.mp (hperm.mem_iff.mp he)
    have hids : ((SortedAssoc.upsert order.clientId (fun _ => o) o v.resting).map
        (·.2.venueId) ++ v.finished.map (·.2.venueId)).Perm (v.nextVenueId :: v.venueIds) := by
      have hnew := (hperm.map fun e => e.2.venueId).append_right (v.finished.map (·.2.venueId))
      rw [← ho] at hnew ⊢
      exact hnew
    have hbooked : Follows v
        { v with
          nextVenueId := v.nextVenueId + 1
          resting := SortedAssoc.upsert order.clientId (fun _ => o) o v.resting } := ?_
    · exact hbooked.trans (hbooked.orderly.send rfl)
    refine ⟨⟨{ hnext with
      restingSorted := SortedAssoc.pairwise_upsert _ _ _ h.sound.restingSorted
      apart := ?_, ids := ?_, idsBelow := ?_, sized := ?_, asked := ?_ }, ?_⟩,
      ⟨rfl, le_rfl, fun _ he => he⟩⟩
    · intro e he f hf
      rcases hmem e he with rfl | hold
      · exact (hfresh f hf).symm
      · exact h.sound.apart e hold f hf
    · exact hids.nodup_iff.mpr (List.nodup_cons.mpr ⟨h.sound.fresh_id, h.sound.ids⟩)
    · intro n hn
      rcases List.mem_cons.mp (hids.mem_iff.mp hn) with rfl | hold
      · exact Nat.lt_succ_self _
      · exact hnext.idsBelow n hold
    · intro e he
      rcases hmem e he with rfl | hold
      · rw [← ho]
        exact hqty
      · exact h.sound.sized e hold
    · intro e he hsell
      rcases hmem e he with rfl | hold
      · exact hout.2 hsell
      · exact h.sound.asked e hold hsell
    · intro e he
      rcases hmem e he with rfl | hold
      · exact hout.1
      · exact h.uncrossed e hold

theorem Orderly.place (h : v.Orderly) {order : NewOrder} (hqty : 0 < order.qty) :
    Follows v (v.place order).1 := by
  unfold Venue.place
  split
  · exact h.follows
  · rename_i hknown
    -- the draws leave what is known as it is
    have hknows : ∀ rng, knows { v with rng := rng } order.clientId = false := fun _ =>
      Bool.eq_false_iff.mpr hknown
    obtain ⟨rng, hlimited⟩ := v.chance_eq v.cfg.faults.rateLimited
    rcases hl : v.chance v.cfg.faults.rateLimited with ⟨limited, w⟩
    have hw : w = { v with rng := rng } := by rw [← hlimited, hl]
    have hlimiting : Follows v w := by
      have hdrawn := h.chance v.cfg.faults.rateLimited
      rw [hl] at hdrawn
      exact hdrawn
    dsimp only
    split
    · exact hlimiting
    · obtain ⟨rng', hunanswered⟩ := w.chance_eq w.cfg.faults.unknownPlacement
      rcases hu : w.chance w.cfg.faults.unknownPlacement with ⟨unanswered, u⟩
      have hue : u = { w with rng := rng' } := by rw [← hunanswered, hu]
      have hasking : Follows w u := by
        have hdrawn := hlimiting.orderly.chance w.cfg.faults.unknownPlacement
        rw [hu] at hdrawn
        exact hdrawn
      dsimp only
      cases unanswered with
      | false =>
        refine (hlimiting.trans hasking).trans (hasking.orderly.placeNow ?_ hqty)
        rw [hue, hw]
        exact hknows _
      | true =>
        have hlost := (hlimiting.trans hasking).trans (hasking.orderly.draw 1 2)
        obtain ⟨rng'', hdrawn⟩ := u.draw_eq 1 2
        simp only [if_true]
        split
        · exact hlost
        · refine hlost.trans (hlost.orderly.placeNow ?_ hqty)
          rw [hdrawn, hue, hw]
          exact hknows _

theorem Orderly.cancel (h : v.Orderly) (id : String) : Follows v (v.cancel id).1 := by
  unfold Venue.cancel
  split
  · rename_i o hfind
    obtain ⟨hsound, hrests, hfresh, hid, hbelow⟩ := h.sound.withoutResting hfind
    have hlater := (v.withoutResting id).later_finish hfresh
      ⟨o.venueId, "CANCELED", 0, [v.update id o "CANCELED"]⟩
    have hover : Follows v ((v.withoutResting id).finish id
        ⟨o.venueId, "CANCELED", 0, [v.update id o "CANCELED"]⟩) := ?_
    · exact hover.trans (hover.orderly.send rfl)
    refine ⟨⟨?_, fun e he => h.uncrossed e (List.mem_filter.mp he).1⟩,
      ⟨hlater.1, hlater.2, hlater.3⟩⟩
    -- a cancellation is no execution
    have hnone : (⟨o.venueId, "CANCELED", 0, [v.update id o "CANCELED"]⟩ : Finished).executions =
        [] := rfl
    refine hsound.over hrests hfresh hid hbelow ?_ ?_ le_rfl ?_ ?_ ?_ ?_
    · rw [hnone]
      exact fun r hr => absurd hr List.not_mem_nil
    · intro (hstatus : "CANCELED" = "FILLED")
      exact absurd hstatus (by decide)
    · rw [hnone]
      exact fun r hr => absurd hr List.not_mem_nil
    · exact fun _ => List.nodup_nil
    · exact fun u hu hsome => .inl (hsound.queued u hu hsome)
    · obtain ⟨leg₀, δ, hδ, hlegs⟩ := hsound.balanced
      refine ⟨leg₀, δ, hδ, fun leg => ?_⟩
      rw [hnone, List.map_nil, List.sum_nil, zero_add]
      exact hlegs leg
  · exact h.follows

theorem Orderly.connect (h : v.Orderly) : Follows v v.connect :=
  ⟨⟨h.sound.beside h.sound.queued h.sound.priced le_rfl, h.uncrossed⟩,
    ⟨rfl, le_rfl, fun _ he => he⟩⟩

theorem Orderly.next (h : v.Orderly) (generation : Nat) :
    Follows v (v.next generation).1 := by
  unfold Venue.next
  split
  · exact h.elapse _
  · have hdrawn := h.chance v.cfg.faults.streamDrop
    rcases hdrop : v.chance v.cfg.faults.streamDrop with ⟨drop, w⟩
    rw [hdrop] at hdrawn
    dsimp only at hdrawn ⊢
    split
    · -- what was not told is lost with the connection
      refine hdrawn.trans ⟨⟨hdrawn.orderly.sound.beside ?_ hdrawn.orderly.sound.priced le_rfl,
        hdrawn.orderly.uncrossed⟩, ⟨rfl, le_rfl, fun _ he => he⟩⟩
      exact fun u hu => absurd hu List.not_mem_nil
    · cases hevents : w.events with
      | nil => exact hdrawn.trans (hdrawn.orderly.elapse _)
      | cons u rest =>
        refine hdrawn.trans ⟨⟨hdrawn.orderly.sound.beside ?_ hdrawn.orderly.sound.priced le_rfl,
          hdrawn.orderly.uncrossed⟩, ⟨rfl, le_rfl, fun _ he => he⟩⟩
        intro r hr hsome
        exact hdrawn.orderly.sound.queued r (by rw [hevents]; exact List.mem_cons_of_mem _ hr)
          hsome

/-- The loop of `advance`: a move for as long as one is due. -/
theorem advance_eq (h : v.Orderly) :
    v.advance = if v.nextMarket ≤ v.now then v.moveMarket.advance else v := by
  have hmoved := h.moveMarket.2
  unfold advance
  split
  · rename_i hdue
    have hturns : v.turns = v.moveMarket.turns + 1 := by
      unfold turns
      rw [if_pos hdue, hmoved.1, hmoved.2.1, hmoved.2.2.1]
      have hpaced := v.cfg.paced
      split
      · rename_i hagain
        have hdiff : v.now - v.nextMarket =
            (v.now - (v.nextMarket + v.cfg.marketEvery)) + v.cfg.marketEvery := by omega
        rw [hdiff, Nat.add_div_right _ hpaced]
      · rename_i hlast
        rw [Nat.div_eq_of_lt (by omega)]
    rw [hturns, Function.iterate_succ_apply]
  · rename_i hnot
    rw [turns, if_neg hnot]
    rfl

/-! ## Runs -/

end Venue

/-- An order that the gate in front of every venue let pass. -/
structure GatedOrder extends NewOrder where
  sized : 0 < qty

/-- What the venue is asked. -/
inductive Call where
  | place (order : GatedOrder)
  | cancel (id : String)
  | sleep (d : Nat)
  | connect
  | next (generation : Nat)

namespace Venue

def step (v : Venue) : Call → Venue
  | .place order => (v.place order.toNewOrder).1
  | .cancel id => (v.cancel id).1
  | .sleep d => v.sleep d
  | .connect => v.connect
  | .next generation => (v.next generation).1

def run (cfg : SimConfig) (calls : List Call) : Venue := calls.foldl step (new cfg)

theorem Orderly.step (h : v.Orderly) (call : Call) : Follows v (v.step call) := by
  cases call with
  | place order => exact h.place order.sized
  | cancel id => exact h.cancel id
  | sleep d => exact h.elapse d
  | connect => exact h.connect
  | next generation => exact h.next generation

theorem Orderly.foldl_step (h : v.Orderly) (calls : List Call) :
    Follows v (calls.foldl Venue.step v) := by
  induction calls generalizing v with
  | nil => exact h.follows
  | cons call rest ih => exact (h.step call).trans (ih (h.step call).orderly)

end Venue

end Sim
