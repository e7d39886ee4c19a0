/-
# A fill is booked once (`oq-live/src/run.rs`, against `oq-live/src/sim.rs`)

The stream of an account repeats itself, and what it had not told is lost when it
drops.  The process books what it hears behind its window of trades, and asks the
venue, order by order, for what it missed; what comes of that is heard before the
stream goes on.

Whatever the order of these steps: no execution is booked twice and nothing is
booked that was not traded (`observed_once`); what was asked for is accounted for
once it is heard (`accounted_of_reconciled`); and once every execution is, the
books hold what the venue holds (`position_of_accounted`).
-/
import OpenQuanter.LiveBooks
import OpenQuanter.SimRuns
import OpenQuanter.Trader

namespace Live

/-- `ending_of`: the end of an order, as the venue names it. -/
def endingOf (status : String) : Option Ending :=
  if status = "FILLED" then some .filled
  else if status = "CANCELED" ∨ status = "EXPIRED" ∨ status = "EXPIRED_IN_MATCH" then
    some .cancelled
  else none

/-- The trade number of a report, as the books take it (`unsigned_abs`). -/
def tradeOf (u : ExecutionReport) : TradeId := UInt64.ofNat (u.tradeId.getD 0).toInt.natAbs

end Live

/-! ## The window -/

namespace TradeWindow

variable {D : Type} [DecidableEq D] (w : TradeWindow D) (trade : UInt64) (d : D)

@[simp] theorem width_insert : (w.insert trade d).2.width = w.width := by
  unfold insert
  split_ifs
  · rfl
  · rfl
  · unfold prune
    split
    · rfl
    · rfl

/-- Only a new pair is added. -/
theorem mem_seen_insert {p : UInt64 × D} (h : p ∈ (w.insert trade d).2.seen) :
    p ∈ w.seen ∨ p = (trade, d) ∧ (w.insert trade d).1 = .new := by
  unfold insert at h ⊢
  split_ifs at h ⊢ with hlow hseen
  · exact .inl h
  · exact .inl h
  · have hmem : p ∈ Insert.insert (trade, d) w.seen := by
      unfold prune at h
      split at h
      · exact (Finset.mem_filter.mp h).1
      · exact h
    exact (Finset.mem_insert.mp hmem).symm.imp_right fun hp => ⟨hp, rfl⟩

theorem highest_insert {n : Nat} (h : w.highest.toNat ≤ n) (htrade : trade.toNat ≤ n) :
    (w.insert trade d).2.highest.toNat ≤ n := by
  unfold insert
  split_ifs
  · exact h
  · exact h
  · have hmax : (max w.highest trade).toNat ≤ n := by
      show (if w.highest ≤ trade then trade else w.highest).toNat ≤ n
      split
      · exact htrade
      · exact h
    unfold prune
    split
    · exact hmax
    · exact hmax

/-- While the window reaches back to the first trade, what is accounted for was seen. -/
theorem mem_seen_of_contains {w : TradeWindow D} (hlow : w.highest ≤ w.width) {trade : UInt64}
    {d : D} (h : w.contains trade d = true) : (trade, d) ∈ w.seen := by
  have hfloor : w.floor = 0 := by
    unfold floor
    split
    · rfl
    · rename_i hhigh
      rw [UInt64.lt_iff_toNat_lt] at hhigh
      rw [UInt64.le_iff_toNat_le] at hlow
      have hsame : w.highest = w.width := UInt64.toNat_inj.mp (by omega)
      rw [hsame, UInt64.sub_self]
  simp only [contains, hfloor, Bool.or_eq_true, decide_eq_true_eq] at h
  rcases h with hneg | hmem
  · rw [UInt64.lt_iff_toNat_lt] at hneg
    exact absurd hneg (Nat.not_lt_zero _)
  · exact hmem

end TradeWindow

/-! ## The process -/

namespace Sim

open Live (tradeOf sideOf)

/-- The process, with the venue it is connected to. -/
structure Process where
  venue : Venue
  /-- The number of the connection that is read. -/
  reader : Nat
  /-- Reports the venue was asked for, still to be heard. -/
  recovered : List ExecutionReport
  books : LiveBooks
  /-- What the observers of accepted executions were given. -/
  observed : List Fill

namespace Process

def start (cfg : SimConfig) (books : LiveBooks) : Process :=
  let venue := (Venue.new cfg).connect
  { venue := venue, reader := venue.generation, recovered := [], books := books, observed := [] }

variable (w : Process)

/-- `book_and_observe`. -/
def bookAndObserve (fill : Fill) (fee : Fee) : Books Process := do
  let (books, booked) ← w.books.onVenueFill fill fee.observed
  match booked with
  | .applied _ => pure { w with books := books, observed := w.observed ++ [fill] }
  | _ => pure { w with books := books }

/-- A report of the account's stream, or one that was asked for. -/
def hear (u : ExecutionReport) (order : OrderId) : Books Process :=
  if !Live.reportsOn u w.venue.cfg.symbol then pure w
  else
    match Live.fillOf u instrument order w.venue.wall with
    | .ok fill => w.bookAndObserve fill u.fee
    | .error _ => pure w

/-- One turn of the account's stream: what was recovered comes first. -/
def listen (localId : String → OrderId) : Books Process :=
  match w.recovered with
  | u :: rest => ({ w with recovered := rest } : Process).hear u (localId u.clientId)
  | [] =>
    match w.venue.next w.reader with
    | (venue, .event u) => ({ w with venue := venue } : Process).hear u (localId u.clientId)
    | (venue, _) => pure { w with venue := venue }

/-- `missed_reports`: what the books have not seen of some orders. -/
def missedReports (resting : List String) : List ExecutionReport :=
  resting.flatMap fun id =>
    (w.venue.recoverOrder id).filter fun u =>
      match u.tradeId with
      | some _ => !w.books.hasBooked (tradeOf u) (sideOf u.side)
      | none => (Live.endingOf u.status).isSome

/-- A reconciliation that does not agree asks before it judges. -/
def reconcile (resting : List String) : Process :=
  { w with recovered := w.recovered ++ w.missedReports resting }

/-- `reopen_user_stream`. -/
def reopen : Process :=
  let venue := w.venue.connect
  { w with venue := venue, reader := venue.generation }

end Process

/-- A step of the process. -/
inductive Turn where
  | place (order : GatedOrder)
  | cancel (id : String)
  | sleep (d : Nat)
  | listen (localId : String → OrderId)
  | reopen
  | reconcile (resting : List String)
  /-- Any other use of the books: a tick, an order mirrored, funding. -/
  | keep (call : { call : BooksCall // LiveBooks.deliveredKey call = none })

namespace Turn

def listens : Turn → Bool
  | .listen _ => true
  | _ => false

end Turn

namespace Process

def step (w : Process) : Turn → Books Process
  | .place order => pure { w with venue := (w.venue.place order.toNewOrder).1 }
  | .cancel id => pure { w with venue := (w.venue.cancel id).1 }
  | .sleep d => pure { w with venue := w.venue.sleep d }
  | .listen localId => w.listen localId
  | .reopen => pure w.reopen
  | .reconcile resting => pure (w.reconcile resting)
  | .keep call => do
    let books ← w.books.step call.1
    pure { w with books := books }

def run (w : Process) (turns : List Turn) : Books Process := turns.foldlM step w

variable {w : Process}

/-! ## One report -/

/-- What a fill is booked under. -/
def key (f : Fill) : TradeId × Side := (f.trade, f.side)

/-- A fill is refused and nothing changes, or it is new and shown to the observers. -/
theorem bookAndObserve_val (w : Process) (fill : Fill) (fee : Fee) :
    (w.books.Settled (key fill) ∧ (w.bookAndObserve fill fee).val = w) ∨
      ((w.books.seen.insert fill.trade fill.side).1 = .new ∧ fill.trade ≠ 0 ∧
        ∃ books : LiveBooks, books.seen = (w.books.seen.insert fill.trade fill.side).2 ∧
          (w.bookAndObserve fill fee).val =
            { w with books := books, observed := w.observed ++ [fill] }) := by
  by_cases hrefused : LiveBooks.Refused (w.books.onVenueFill fill fee.observed).val.2
  · left
    refine ⟨(w.books.refused_iff fill fee.observed).mp hrefused, ?_⟩
    have hsame := congrArg Logged.val (LiveBooks.onVenueFill_of_refused hrefused)
    rw [Logged.val_map] at hsame
    have hbooks : (w.books.onVenueFill fill fee.observed).val.1 = w.books := hsame
    unfold bookAndObserve
    rw [Logged.val_bind]
    rcases hcall : (w.books.onVenueFill fill fee.observed).val with ⟨books, booked⟩
    rw [hcall] at hbooks hrefused
    obtain rfl : books = w.books := hbooks
    cases booked with
    | applied outputs => exact absurd hrefused id
    | duplicate => rfl
    | unidentifiable => rfl
    | stale => rfl
  · right
    have hopen := hrefused
    rw [w.books.refused_iff, not_or] at hopen
    obtain ⟨hid, hnew⟩ := hopen
    have hanswer : (w.books.seen.insert fill.trade fill.side).1 = .new := by
      by_contra hother
      exact hnew ((w.books.seen.contains_iff fill.trade fill.side).mpr hother)
    refine ⟨hanswer, hid, (w.books.onVenueFill fill fee.observed).val.1, ?_, ?_⟩
    · unfold LiveBooks.onVenueFill
      rw [if_neg hid]
      rcases hinsert : w.books.seen.insert fill.trade fill.side with ⟨answer, seen⟩
      rw [hinsert] at hanswer
      cases hanswer
      rfl
    · unfold bookAndObserve
      rw [Logged.val_bind]
      rcases hcall : (w.books.onVenueFill fill fee.observed).val with ⟨books, booked⟩
      rw [hcall] at hrefused
      cases booked with
      | applied outputs => rfl
      | duplicate => exact absurd trivial hrefused
      | unidentifiable => exact absurd trivial hrefused
      | stale => exact absurd trivial hrefused

/-! ## The invariant -/

/-- What holds between two turns. -/
structure Kept (w : Process) : Prop where
  orderly : w.venue.Orderly
  recovered : ∀ u ∈ w.recovered, u.tradeId.isSome → u ∈ w.venue.executions
  /-- Every fill observed is an execution of the venue. -/
  real : ∀ f ∈ w.observed, ∃ r ∈ w.venue.executions,
    Live.fillOf r instrument f.order f.stamp.exch = .ok f
  once : (w.observed.map key).Nodup
  known : ∀ f ∈ w.observed, w.books.hasBooked f.trade f.side = true
  width : w.books.seen.width = TradeWindow.window
  seen : ∀ p ∈ w.books.seen.seen, p ∈ w.observed.map key
  highest : w.venue.tradeId < 2 ^ 63 → w.books.seen.highest.toNat ≤ w.venue.tradeId

/-- The venue goes on. -/
theorem Kept.onward (h : w.Kept) {venue : Venue} (hv : Venue.Follows w.venue venue)
    {reader : Nat} : Kept { w with venue := venue, reader := reader } where
  orderly := hv.orderly
  recovered := fun u hu hsome => hv.later.executions u (h.recovered u hu hsome)
  real := fun f hf =>
    let ⟨r, hr, hread⟩ := h.real f hf
    ⟨r, hv.later.executions r hr, hread⟩
  once := h.once
  known := h.known
  width := h.width
  seen := h.seen
  highest := fun hlast =>
    (h.highest (hv.later.tradeId.trans_lt hlast)).trans hv.later.tradeId

/-- A trade number that fits is taken as it is. -/
theorem toNat_tradeOf {u : ExecutionReport} {n : Nat} (hn : u.tradeId = some (Int64.ofNat n))
    (hfits : n < 2 ^ 63) : (tradeOf u).toNat = n := by
  rw [tradeOf, hn, Option.getD_some, Int64.toInt_ofNat_of_lt hfits, Int.natAbs_natCast,
    UInt64.toNat_ofNat']
  exact Nat.mod_eq_of_lt (by omega)

theorem toLower_toUpper (c : Char) : c.toUpper.toLower = c.toLower := by
  unfold Char.toUpper
  split
  · rename_i hlow
    have hupper : ¬(c.val ≥ 'A'.val ∧ c.val ≤ 'Z'.val) := by
      rw [UInt32.le_iff_toNat_le, UInt32.le_iff_toNat_le] at hlow
      rw [ge_iff_le, UInt32.le_iff_toNat_le, UInt32.le_iff_toNat_le]
      simp at hlow ⊢
      omega
    have hshifted : c.val + ('A'.val - 'a'.val) ≥ 'A'.val ∧
        c.val + ('A'.val - 'a'.val) ≤ 'Z'.val := by
      rw [UInt32.le_iff_toNat_le, UInt32.le_iff_toNat_le] at hlow
      rw [ge_iff_le, UInt32.le_iff_toNat_le, UInt32.le_iff_toNat_le, UInt32.toNat_add]
      simp at hlow ⊢
      omega
    unfold Char.toLower
    rw [dif_neg hupper, dif_pos hshifted]
    refine Char.ext ?_
    show c.val + ('A'.val - 'a'.val) + ('a'.val - 'A'.val) = c.val
    rw [UInt32.add_assoc]
    exact UInt32.add_zero _
  · rfl

/-- What is read of a report that reads as a fill. -/
theorem trade_of_fillOf {u : ExecutionReport} {order : OrderId} {at_ : Nanos} {fill : Fill}
    (h : Live.fillOf u instrument order at_ = .ok fill) :
    fill.trade = tradeOf u ∧ fill.order = order ∧ fill.stamp = ⟨at_, at_⟩ ∧
      fill.side = sideOf u.side ∧
      Live.scaled u.lastQty instrument.qtyScale = some fill.qty := by
  have hlower : ∀ word, String.ofList (u.side.toList.map Char.toUpper) = word →
      u.side.toList.map Char.toLower = word.toList.map Char.toLower := by
    rintro word rfl
    rw [String.toList_ofList, List.map_map]
    exact List.map_congr_left fun c _ => (toLower_toUpper c).symm
  unfold Live.fillOf at h
  dsimp only at h
  split at h
  · cases h
  rename_i qty hqty
  rw [ite_eq_iff] at h
  rcases h with ⟨-, h⟩ | ⟨-, h⟩
  · cases h
  rw [ite_eq_iff] at h
  rcases h with ⟨-, h⟩ | ⟨-, h⟩
  · cases h
  split at h
  · cases h
  rw [ite_eq_iff] at h
  rcases h with ⟨-, h⟩ | ⟨-, h⟩
  · cases h
  rw [ite_eq_iff] at h
  rcases h with ⟨hbuy, h⟩ | ⟨-, h⟩
  · rw [← Except.ok.inj h]
    refine ⟨rfl, rfl, rfl, ?_, hqty⟩
    rw [sideOf, eqIgnoreAsciiCase, if_pos (decide_eq_true (hlower _ hbuy))]
  rw [ite_eq_iff] at h
  rcases h with ⟨hsell, h⟩ | ⟨-, h⟩
  · rw [← Except.ok.inj h]
    refine ⟨rfl, rfl, rfl, ?_, hqty⟩
    rw [sideOf, eqIgnoreAsciiCase, hlower _ hsell]
    rfl
  · cases h

/-- **Hearing a report** of the venue, or one that is no execution. -/
theorem Kept.hear (h : w.Kept) {u : ExecutionReport}
    (hu : u.tradeId.isSome → u ∈ w.venue.executions) (order : OrderId) :
    (w.hear u order).val.Kept := by
  unfold Process.hear
  split
  · exact h
  · split
    · rename_i fill hread
      obtain ⟨htrade, horder, hstamp, -⟩ := trade_of_fillOf hread
      rcases w.bookAndObserve_val fill u.fee with ⟨-, hsame⟩ | ⟨hnew, hid, books, hseen, hbooked⟩
      · rw [hsame]
        exact h
      · have hexecution : u ∈ w.venue.executions := by
          refine hu ?_
          -- what is booked has a trade number
          cases htradeId : u.tradeId with
          | some t => rfl
          | none =>
            refine absurd ?_ hid
            rw [htrade, tradeOf, htradeId]
            rfl
        rw [hbooked]
        have hnot : w.books.seen.contains fill.trade fill.side = false := by
          by_contra hcontains
          exact (w.books.seen.contains_iff fill.trade fill.side).mp (by simpa using hcontains) hnew
        exact
          { orderly := h.orderly
            recovered := h.recovered
            real := by
              intro f hf
              rcases List.mem_append.mp hf with hold | hthis
              · exact h.real f hold
              · rw [List.mem_singleton.mp hthis]
                refine ⟨u, hexecution, ?_⟩
                rw [horder, hstamp]
                exact hread
            once := by
              rw [List.map_append, List.map_singleton]
              refine List.nodup_append.mpr ⟨h.once, List.nodup_singleton _, ?_⟩
              intro p hp q hq hpq
              obtain ⟨f, hf, rfl⟩ := List.mem_map.mp hp
              rw [List.mem_singleton.mp hq] at hpq
              have hknown := h.known f hf
              obtain ⟨htradeEq, hsideEq⟩ := Prod.mk.inj hpq
              rw [htradeEq, hsideEq] at hknown
              rw [LiveBooks.hasBooked, hnot] at hknown
              cases hknown
            known := by
              intro f hf
              show books.seen.contains f.trade f.side = true
              rw [hseen]
              rcases List.mem_append.mp hf with hold | hthis
              · exact w.books.seen.contains_insert_of_contains _ _ (h.known f hold)
              · rw [List.mem_singleton.mp hthis]
                exact w.books.seen.contains_insert_self _ _
            width := by
              show books.seen.width = _
              rw [hseen, TradeWindow.width_insert]
              exact h.width
            seen := by
              intro p hp
              have hin : p ∈ (w.books.seen.insert fill.trade fill.side).2.seen := by
                rw [← hseen]
                exact hp
              rw [List.map_append]
              refine List.mem_append.mpr ?_
              rcases w.books.seen.mem_seen_insert _ _ hin with hold | ⟨rfl, -⟩
              · exact .inl (h.seen p hold)
              · exact .inr List.mem_cons_self
            highest := by
              intro hlast
              show books.seen.highest.toNat ≤ _
              rw [hseen]
              refine w.books.seen.highest_insert _ _ (h.highest hlast) ?_
              obtain ⟨n, hn, -, hle⟩ := h.orderly.sound.numbered u hexecution
              rw [htrade, toNat_tradeOf hn (hle.trans_lt hlast)]
              exact hle }
    · exact h

/-! ## Turns -/

/-- Only what is told or was asked for is heard. -/
theorem event_of_next {v : Venue} (hv : v.Orderly) (generation : Nat) {u : ExecutionReport}
    (h : (v.next generation).2 = .event u) (hsome : u.tradeId.isSome) :
    u ∈ (v.next generation).1.executions := by
  unfold Venue.next at h ⊢
  split at h
  · cases h
  rename_i hopen
  rw [if_neg hopen]
  have hdrawn := hv.chance v.cfg.faults.streamDrop
  rcases hdrop : v.chance v.cfg.faults.streamDrop with ⟨drop, x⟩
  rw [hdrop] at hdrawn
  simp only [hdrop] at h ⊢
  cases drop with
  | true => cases h
  | false =>
    rw [if_neg Bool.false_ne_true] at h ⊢
    cases hevents : x.events with
    | nil =>
      rw [hevents] at h
      cases h
    | cons r rest =>
      rw [hevents] at h
      cases h
      exact hdrawn.orderly.sound.queued u (by rw [hevents]; exact List.mem_cons_self) hsome

theorem Kept.listen (h : w.Kept) (localId : String → OrderId) : (w.listen localId).val.Kept := by
  unfold Process.listen
  split
  · rename_i u rest hrecovered
    have hrest : Kept { w with recovered := rest } :=
      { h with recovered := fun r hr =>
          h.recovered r (by rw [hrecovered]; exact List.mem_cons_of_mem _ hr) }
    refine hrest.hear ?_ _
    exact h.recovered u (by rw [hrecovered]; exact List.mem_cons_self)
  · have hnext := h.orderly.next w.reader
    have hheard := fun u => event_of_next h.orderly w.reader (u := u)
    rcases hcall : w.venue.next w.reader with ⟨venue, outcome⟩
    rw [hcall] at hnext hheard
    have honward : Kept { w with venue := venue } := h.onward hnext
    cases outcome with
    | event u => exact honward.hear (hheard u rfl) _
    | idle => exact honward
    | disconnected why => exact honward

/-- What the venue reports of an order is what the order came to. -/
theorem mem_recoverOrder {v : Venue} (hv : v.Sound) {id : String} {u : ExecutionReport}
    (hu : u ∈ v.recoverOrder id) : ∃ f, (id, f) ∈ v.finished ∧ u ∈ f.reports := by
  unfold Venue.recoverOrder at hu
  cases hfind : SortedAssoc.find id v.finished with
  | none => rw [hfind] at hu; exact absurd hu List.not_mem_nil
  | some f =>
    rw [hfind] at hu
    exact ⟨f, (SortedAssoc.find_eq_some_iff hv.finishedSorted).mp hfind, hu⟩

theorem Kept.reconcile (h : w.Kept) (resting : List String) : (w.reconcile resting).Kept := by
  refine { h with recovered := ?_ }
  intro u hu hsome
  rcases List.mem_append.mp hu with hold | hmissed
  · exact h.recovered u hold hsome
  · obtain ⟨id, -, hmem⟩ := List.mem_flatMap.mp hmissed
    obtain ⟨f, hf, hreport⟩ := mem_recoverOrder h.orderly.sound (List.mem_filter.mp hmem).1
    exact List.mem_flatMap.mpr ⟨_, hf, List.mem_filter.mpr ⟨hreport, hsome⟩⟩

theorem Kept.step (h : w.Kept) (turn : Turn) : (w.step turn).val.Kept := by
  cases turn with
  | place order => exact h.onward (h.orderly.place order.sized)
  | cancel id => exact h.onward (h.orderly.cancel id)
  | sleep d => exact h.onward (h.orderly.elapse d)
  | listen localId => exact h.listen localId
  | reopen => exact h.onward h.orderly.connect
  | reconcile resting => exact h.reconcile resting
  | keep call =>
    -- no other use of the books moves the window
    have hseen : (w.books.step call.1).val.seen = w.books.seen := by
      rcases w.books.seen_step call.1 with hsame | ⟨fill, fee, hcall, -⟩
      · exact hsame
      · have hkey := call.2
        rw [hcall] at hkey
        cases hkey
    exact
      { orderly := h.orderly
        recovered := h.recovered
        real := h.real
        once := h.once
        known := fun f hf => by
          show (w.books.step call.1).val.seen.contains f.trade f.side = true
          rw [hseen]
          exact h.known f hf
        width := (congrArg TradeWindow.width hseen).trans h.width
        seen := fun p hp => h.seen p (by rw [← hseen]; exact hp)
        highest := fun hlast =>
          (congrArg (fun s => s.highest.toNat) hseen).trans_le (h.highest hlast) }

theorem val_run_cons (w : Process) (turn : Turn) (rest : List Turn) :
    (w.run (turn :: rest)).val = ((w.step turn).val.run rest).val := by
  rw [run, List.foldlM_cons, Logged.val_bind]
  rfl

theorem Kept.run (h : w.Kept) (turns : List Turn) : (w.run turns).val.Kept := by
  induction turns generalizing w with
  | nil => exact h
  | cons turn rest ih =>
    rw [val_run_cons]
    exact ih (h.step turn)

/-- The process as it starts, with books that saw nothing. -/
def started (cfg : SimConfig) (contract : Contract) (table : TierTable) (balance : Cash)
    (mode : PositionMode) : Process :=
  start cfg (LiveBooks.new 1 contract table balance mode)

theorem kept_started (cfg : SimConfig) (contract : Contract) (table : TierTable) (balance : Cash)
    (mode : PositionMode) : (started cfg contract table balance mode).Kept where
  orderly := (Venue.orderly_new cfg).connect.orderly
  recovered := fun _ hu => absurd hu List.not_mem_nil
  real := fun _ hf => absurd hf List.not_mem_nil
  once := List.nodup_nil
  known := fun _ hf => absurd hf List.not_mem_nil
  width := rfl
  seen := fun _ hp => absurd hp (Finset.notMem_empty _)
  highest := fun _ => Nat.zero_le _

/-- **Nothing is booked twice and nothing is booked that was not traded**, whatever is placed,
lost, repeated, reconnected and asked for again, in any order. -/
theorem observed_once (cfg : SimConfig) (contract : Contract) (table : TierTable)
    (balance : Cash) (mode : PositionMode) (turns : List Turn) :
    let w := ((started cfg contract table balance mode).run turns).val
    (w.observed.map fun f => (f.trade, f.side)).Nodup ∧
      ∀ f ∈ w.observed, ∃ r ∈ w.venue.executions,
        Live.fillOf r instrument f.order f.stamp.exch = .ok f :=
  let hkept := (kept_started cfg contract table balance mode).run turns
  ⟨hkept.once, hkept.real⟩

/-! ## What was asked for is accounted for -/

/-- The books account for a report. -/
def Accounted (w : Process) (u : ExecutionReport) : Prop :=
  w.books.hasBooked (tradeOf u) (sideOf u.side) = true

/-- An execution that the process reads, with a trade number that fits. -/
structure Readable (w : Process) (u : ExecutionReport) : Prop where
  symbol : u.symbol = w.venue.cfg.symbol
  trade : ∃ n, u.tradeId = some (Int64.ofNat n) ∧ 0 < n ∧ n < 2 ^ 63
  reads : ∀ order at_, ∃ fill, Live.fillOf u instrument order at_ = .ok fill

/-- An execution is an execution of one order, of which it tells. -/
theorem order_of_execution {v : Venue} (hv : v.Sound) {u : ExecutionReport}
    (hu : u ∈ v.executions) :
    ∃ f, (u.clientId, f) ∈ v.finished ∧ u ∈ f.reports ∧ u.tradeId.isSome = true ∧
      Venue.Tells v.cfg.symbol u.clientId u := by
  obtain ⟨e, he, hmem⟩ := List.mem_flatMap.mp hu
  have htells := hv.tells e he u hmem
  obtain ⟨hreport, hsome⟩ := List.mem_filter.mp hmem
  refine ⟨e.2, ?_, hreport, hsome, ?_⟩
  · rw [htells.clientId]
    exact he
  · rw [htells.clientId]
    exact htells

theorem Kept.readable (h : w.Kept) (hlast : w.venue.tradeId < 2 ^ 63) {u : ExecutionReport}
    (hu : u ∈ w.venue.executions) : w.Readable u := by
  obtain ⟨f, -, -, -, htells⟩ := order_of_execution h.orderly.sound hu
  obtain ⟨n, hn, hpos, hle⟩ := h.orderly.sound.numbered u hu
  exact ⟨htells.symbol, ⟨n, hn, hpos, hle.trans_lt hlast⟩, htells.reads⟩

/-- A turn moves the window by one delivery or not at all. -/
theorem seen_hear (w : Process) (u : ExecutionReport) (order : OrderId) :
    (w.hear u order).val.books.seen = w.books.seen ∨
      ∃ trade side, (w.hear u order).val.books.seen = (w.books.seen.insert trade side).2 := by
  unfold hear
  split
  · exact .inl rfl
  · split
    · rename_i fill _
      rcases w.bookAndObserve_val fill u.fee with ⟨-, hsame⟩ | ⟨-, -, books, hseen, hbooked⟩
      · rw [hsame]
        exact .inl rfl
      · rw [hbooked]
        exact .inr ⟨_, _, hseen⟩
    · exact .inl rfl

/-- Hearing changes the books and what was observed. -/
theorem hear_keeps (w : Process) (u : ExecutionReport) (order : OrderId) :
    (w.hear u order).val.venue = w.venue ∧ (w.hear u order).val.recovered = w.recovered := by
  unfold hear
  split
  · exact ⟨rfl, rfl⟩
  · split
    · rename_i fill _
      rcases w.bookAndObserve_val fill u.fee with ⟨-, hsame⟩ | ⟨-, -, books, -, hbooked⟩
      · rw [hsame]
        exact ⟨rfl, rfl⟩
      · rw [hbooked]
        exact ⟨rfl, rfl⟩
    · exact ⟨rfl, rfl⟩

theorem Accounted.of_seen {w' : Process} {u : ExecutionReport} (h : w.Accounted u)
    (hseen : w'.books.seen = w.books.seen ∨
      ∃ trade side, w'.books.seen = (w.books.seen.insert trade side).2) : w'.Accounted u := by
  show w'.books.seen.contains _ _ = true
  rcases hseen with hsame | ⟨trade, side, hinsert⟩
  · rw [hsame]
    exact h
  · rw [hinsert]
    exact w.books.seen.contains_insert_of_contains _ _ h

theorem seen_step (w : Process) (turn : Turn) :
    (w.step turn).val.books.seen = w.books.seen ∨
      ∃ trade side, (w.step turn).val.books.seen = (w.books.seen.insert trade side).2 := by
  cases turn with
  | listen localId =>
    show (w.listen localId).val.books.seen = _ ∨ _
    unfold Process.step listen
    split
    · exact seen_hear { w with recovered := _ } _ _
    · rcases w.venue.next w.reader with ⟨venue, outcome⟩
      cases outcome with
      | event u => exact seen_hear { w with venue := venue } _ _
      | idle => exact .inl rfl
      | disconnected why => exact .inl rfl
  | keep call =>
    refine (w.books.seen_step call.1).imp id ?_
    rintro ⟨fill, fee, -, hseen⟩
    exact ⟨_, _, hseen⟩
  | place order => exact .inl rfl
  | cancel id => exact .inl rfl
  | sleep d => exact .inl rfl
  | reopen => exact .inl rfl
  | reconcile resting => exact .inl rfl

theorem Accounted.run {u : ExecutionReport} (h : w.Accounted u) (turns : List Turn) :
    (w.run turns).val.Accounted u := by
  induction turns generalizing w with
  | nil => exact h
  | cons turn rest ih =>
    rw [val_run_cons]
    exact ih (h.of_seen (w.seen_step turn))

/-- **What is heard is accounted for.** -/
theorem Readable.accounted_hear {u : ExecutionReport} (h : w.Readable u) (order : OrderId) :
    (w.hear u order).val.Accounted u := by
  obtain ⟨n, hn, hpos, hfits⟩ := h.trade
  obtain ⟨fill, hread⟩ := h.reads order w.venue.wall
  obtain ⟨htrade, -, -, hside, -⟩ := trade_of_fillOf hread
  have hours : Live.reportsOn u w.venue.cfg.symbol = true := by
    rw [Live.reportsOn, h.symbol]
    exact decide_eq_true rfl
  have hid : fill.trade ≠ 0 := by
    intro hzero
    have hn' := toNat_tradeOf hn hfits
    rw [← htrade, hzero, UInt64.toNat_zero] at hn'
    omega
  unfold hear
  rw [hours, Bool.not_true, if_neg Bool.false_ne_true, hread]
  dsimp only
  unfold Accounted
  rw [← htrade, ← hside]
  rcases w.bookAndObserve_val fill u.fee with ⟨hsettled, hsame⟩ | ⟨-, -, books, hseen, hbooked⟩
  · rw [hsame]
    exact hsettled.resolve_left hid
  · rw [hbooked]
    show books.seen.contains fill.trade fill.side = true
    rw [hseen]
    exact w.books.seen.contains_insert_self _ _

/-- A turn leaves the venue later than it was. -/
theorem Kept.follows_step (h : w.Kept) (turn : Turn) :
    Venue.Follows w.venue (w.step turn).val.venue := by
  cases turn with
  | place order => exact h.orderly.place order.sized
  | cancel id => exact h.orderly.cancel id
  | sleep d => exact h.orderly.elapse d
  | reopen => exact h.orderly.connect
  | reconcile resting => exact h.orderly.follows
  | keep call => exact h.orderly.follows
  | listen localId =>
    show Venue.Follows w.venue (w.listen localId).val.venue
    unfold Process.listen
    split
    · rw [(hear_keeps { w with recovered := _ } _ _).1]
      exact h.orderly.follows
    · have hnext := h.orderly.next w.reader
      rcases hcall : w.venue.next w.reader with ⟨venue, outcome⟩
      rw [hcall] at hnext
      cases outcome with
      | event u =>
        have hsame := (Process.hear_keeps { w with venue := venue } u (localId u.clientId)).1
        exact hsame ▸ hnext
      | idle => exact hnext
      | disconnected why => exact hnext

/-- What is still to be heard: the next report is heard, or what is asked for now waits behind. -/
theorem recovered_step (w : Process) {u : ExecutionReport} {rest : List ExecutionReport}
    (hrecovered : w.recovered = u :: rest) (turn : Turn) :
    (turn.listens = true ∧ (w.step turn).val.recovered = rest ∧
        ∃ order, w.step turn = ({ w with recovered := rest } : Process).hear u order) ∨
      turn.listens = false ∧ ∃ more, (w.step turn).val.recovered = w.recovered ++ more := by
  cases turn with
  | listen localId =>
    have hheard : w.step (.listen localId) =
        ({ w with recovered := rest } : Process).hear u (localId u.clientId) := by
      show w.listen localId = _
      unfold listen
      rw [hrecovered]
    refine .inl ⟨rfl, ?_, _, hheard⟩
    rw [hheard]
    exact (hear_keeps { w with recovered := rest } u _).2
  | reconcile resting => exact .inr ⟨rfl, _, rfl⟩
  | place order => exact .inr ⟨rfl, [], (List.append_nil _).symm⟩
  | cancel id => exact .inr ⟨rfl, [], (List.append_nil _).symm⟩
  | sleep d => exact .inr ⟨rfl, [], (List.append_nil _).symm⟩
  | reopen => exact .inr ⟨rfl, [], (List.append_nil _).symm⟩
  | keep call => exact .inr ⟨rfl, [], (List.append_nil _).symm⟩

/-- **First come, first heard**: as many turns of the stream as there are reports in front are
enough for all of them, whatever else happens in between. -/
theorem Kept.accounted_of_listens (h : w.Kept) {front back : List ExecutionReport}
    (hrecovered : w.recovered = front ++ back) (turns : List Turn)
    (hcount : front.length ≤ turns.countP Turn.listens) :
    ∀ u ∈ front, w.Readable u → (w.run turns).val.Accounted u := by
  induction turns generalizing w front back with
  | nil =>
    have hnil : front = [] := List.length_eq_zero_iff.mp (Nat.le_zero.mp hcount)
    rw [hnil]
    exact fun u hu => absurd hu List.not_mem_nil
  | cons turn rest ih =>
    rw [val_run_cons]
    cases front with
    | nil => exact fun u hu => absurd hu List.not_mem_nil
    | cons r front =>
      have hreadable : ∀ u, w.Readable u → (w.step turn).val.Readable u := fun u hread =>
        ⟨hread.symbol.trans (congrArg SimConfig.symbol (h.follows_step turn).later.cfg.symm),
          hread.trade, hread.reads⟩
      intro u hu hread
      rcases w.recovered_step hrecovered turn with
        ⟨hlistens, hleft, order, hheard⟩ | ⟨hother, more, hleft⟩
      · rw [List.countP_cons_of_pos hlistens, List.length_cons] at hcount
        rcases List.mem_cons.mp hu with rfl | hbehind
        · refine Accounted.run ?_ rest
          rw [hheard]
          have hfront : Readable { w with recovered := front ++ back } u :=
            ⟨hread.symbol, hread.trade, hread.reads⟩
          exact hfront.accounted_hear order
        · exact ih (h.step turn) hleft (by omega) u hbehind (hreadable u hread)
      · rw [List.countP_cons_of_neg (by simp [hother])] at hcount
        rw [hrecovered, List.append_assoc] at hleft
        exact ih (h.step turn) hleft hcount u hu (hreadable u hread)

theorem run_append (w : Process) (turns more : List Turn) :
    (w.run (turns ++ more)).val = ((w.run turns).val.run more).val := by
  rw [run, List.foldlM_append, Logged.val_bind]
  rfl

/-- **What was asked for is accounted for once it is heard.**  Every execution of an order that a
reconciliation names is in the books after as many turns of the stream as reports are waiting,
whatever the stream lost and whatever happens in between. -/
theorem accounted_of_reconciled (cfg : SimConfig) (contract : Contract) (table : TierTable)
    (balance : Cash) (mode : PositionMode) (turns : List Turn) (resting : List String)
    (after : List Turn)
    (hlast : ((started cfg contract table balance mode).run turns).val.venue.tradeId < 2 ^ 63)
    (hheard : ((((started cfg contract table balance mode).run turns).val.reconcile
      resting).recovered.length ≤ after.countP Turn.listens)) :
    ∀ r ∈ ((started cfg contract table balance mode).run turns).val.venue.executions,
      r.clientId ∈ resting →
        ((started cfg contract table balance mode).run
          (turns ++ .reconcile resting :: after)).val.books.hasBooked
            (tradeOf r) (sideOf r.side) = true := by
  intro r hr hasked
  have hkept := (kept_started cfg contract table balance mode).run turns
  rw [run_append, val_run_cons]
  generalize ((started cfg contract table balance mode).run turns).val = w at *
  by_cases hbooked : w.books.hasBooked (tradeOf r) (sideOf r.side) = true
  · have hnow : w.Accounted r := hbooked
    exact Accounted.run (hnow.of_seen (w.seen_step (.reconcile resting))) after
  · obtain ⟨f, hf, hreport, hsome, -⟩ := order_of_execution hkept.orderly.sound hr
    have hmissed : r ∈ w.missedReports resting := by
      refine List.mem_flatMap.mpr ⟨r.clientId, hasked, List.mem_filter.mpr ⟨?_, ?_⟩⟩
      · unfold Venue.recoverOrder
        rw [(SortedAssoc.find_eq_some_iff hkept.orderly.sound.finishedSorted).mpr hf]
        exact hreport
      · obtain ⟨t, ht⟩ := Option.isSome_iff_exists.mp hsome
        rw [ht]
        simpa using hbooked
    refine (hkept.reconcile resting).accounted_of_listens (List.append_nil _).symm after hheard r
      (List.mem_append_right _ hmissed) ?_
    have hread := hkept.readable hlast hr
    exact ⟨hread.symbol, hread.trade, hread.reads⟩

/-- A venue whose stream drops whenever it is read. -/
def lossy : SimConfig where
  seed := 7
  symbol := "BTCUSDT"
  startPrice := 6000000
  maxStep := 5
  marketEvery := 1000000000
  idleStep := 1000000
  faults := ⟨1000000, 0, 0, 0, 0, none⟩
  priced := by decide
  paced := by decide

def marketBuy : GatedOrder where
  symbol := "BTCUSDT"
  side := .buy
  limitPrice := none
  qty := 3
  tif := .goodTilCancel
  clientId := "a"
  reduceOnly := false
  positionSide := .oneWay
  sized := by decide

/-- A fill that the stream lost, and was asked for. -/
theorem accounted_of_lostFill :
    ((started lossy ⟨10000⟩ TierTable.exampleBtcusdt 0 .oneWay).run
        [.place marketBuy, .listen fun _ => 1]).val.venue.executions.length = 1 ∧
      ∀ r ∈ ((started lossy ⟨10000⟩ TierTable.exampleBtcusdt 0 .oneWay).run
          [.place marketBuy, .listen fun _ => 1]).val.venue.executions,
        r.clientId ∈ ["a"] →
          ((started lossy ⟨10000⟩ TierTable.exampleBtcusdt 0 .oneWay).run
            ([.place marketBuy, .listen fun _ => 1] ++
              .reconcile ["a"] :: [.listen fun _ => 1])).val.books.hasBooked
                (tradeOf r) (sideOf r.side) = true :=
  ⟨by decide +kernel,
    accounted_of_reconciled lossy ⟨10000⟩ TierTable.exampleBtcusdt 0 .oneWay
      [.place marketBuy, .listen fun _ => 1] ["a"] [.listen fun _ => 1] (by decide +kernel)
      (by decide +kernel)⟩

/-! ## The books hold what the venue holds -/

/-- What a fill moved. -/
def signedLots (f : Fill) : Int := Venue.signed f.side f.qty

/-- A fill and the execution it is read of move the same. -/
theorem signedLots_of_fillOf {v : Venue} (hv : v.Sound) {r : ExecutionReport}
    (hr : r ∈ v.executions) {order : OrderId} {at_ : Nanos} {f : Fill}
    (h : Live.fillOf r instrument order at_ = .ok f) :
    signedLots f =
      Venue.share .oneWay r + Venue.share .long r + Venue.share .short r := by
  obtain ⟨-, -, -, -, htells⟩ := order_of_execution hv hr
  obtain ⟨-, -, -, hside, hqty⟩ := trade_of_fillOf h
  have hlots : Venue.lots r = f.qty.toInt := by
    rw [Venue.lots, hqty]
    rfl
  have hmoved : signedLots f = if r.side = "BUY" then Venue.lots r else -Venue.lots r := by
    rw [signedLots, hside, hlots]
    rcases htells.side with hbuy | hsell
    · rw [if_pos hbuy, hbuy]
      rfl
    · rw [hsell]
      rfl
  obtain ⟨leg, hleg⟩ := htells.leg
  rw [hmoved]
  cases leg <;> simp [Venue.share, hleg, Live.PositionSide.leg]

/-- What the venue holds is what its executions moved, when it told of every fill. -/
theorem position_eq_sum {v : Venue} (hv : v.Sound) (htold : v.silentAt = none) :
    v.position = (v.executions.map fun r =>
      Venue.share .oneWay r + Venue.share .long r + Venue.share .short r).sum := by
  obtain ⟨leg₀, δ, hδ, hlegs⟩ := hv.balanced
  have hzero := hδ htold
  subst hzero
  rw [Venue.position, hlegs, hlegs, hlegs, List.sum_map_add, List.sum_map_add]
  simp

/-- **Once every execution is accounted for, the books hold what the venue holds**: the fills
that were observed are the executions, one each, and come to the venue's position.  The window of
trades reaches back to the first one for as long as there are no more than its width. -/
theorem position_of_accounted (cfg : SimConfig) (contract : Contract) (table : TierTable)
    (balance : Cash) (mode : PositionMode) (turns : List Turn)
    (hwindow : ((started cfg contract table balance mode).run turns).val.venue.tradeId ≤
      TradeWindow.window.toNat)
    (htold : ((started cfg contract table balance mode).run turns).val.venue.silentAt = none)
    (hall : ∀ r ∈ ((started cfg contract table balance mode).run turns).val.venue.executions,
      ((started cfg contract table balance mode).run turns).val.books.hasBooked
        (tradeOf r) (sideOf r.side) = true) :
    let w := ((started cfg contract table balance mode).run turns).val
    (w.observed.map key).Perm (w.venue.executions.map fun r => (tradeOf r, sideOf r.side)) ∧
      (w.observed.map signedLots).sum = w.venue.position := by
  have hkept := (kept_started cfg contract table balance mode).run turns
  generalize ((started cfg contract table balance mode).run turns).val = w at *
  have hsmall : w.venue.tradeId < 2 ^ 63 := hwindow.trans_lt (by decide)
  have hkeyOf : ∀ f ∈ w.observed, ∃ r ∈ w.venue.executions,
      key f = (tradeOf r, sideOf r.side) ∧ signedLots f =
        Venue.share .oneWay r + Venue.share .long r + Venue.share .short r := by
    intro f hf
    obtain ⟨r, hr, hread⟩ := hkept.real f hf
    obtain ⟨htrade, -, -, hside, -⟩ := trade_of_fillOf hread
    exact ⟨r, hr, Prod.ext htrade hside, signedLots_of_fillOf hkept.orderly.sound hr hread⟩
  -- distinct executions have distinct keys
  have hinj : ∀ r ∈ w.venue.executions, ∀ r' ∈ w.venue.executions,
      tradeOf r = tradeOf r' → r.tradeId = r'.tradeId := by
    intro r hr r' hr' heq
    obtain ⟨n, hn, -, hle⟩ := hkept.orderly.sound.numbered r hr
    obtain ⟨m, hm, -, hle'⟩ := hkept.orderly.sound.numbered r' hr'
    have hnm := congrArg UInt64.toNat heq
    rw [toNat_tradeOf hn (hle.trans_lt hsmall), toNat_tradeOf hm (hle'.trans_lt hsmall)] at hnm
    rw [hn, hm, hnm]
  have hdistinct := hkept.orderly.sound.distinct hsmall
  have hsame : ∀ r ∈ w.venue.executions, ∀ r' ∈ w.venue.executions,
      (tradeOf r, sideOf r.side) = (tradeOf r', sideOf r'.side) → r = r' := fun r hr r' hr' heq =>
    (List.nodup_map_iff_inj_on hdistinct.of_map).mp hdistinct r hr r' hr'
      (hinj r hr r' hr' (Prod.mk.inj heq).1)
  have hkeys : (w.venue.executions.map fun r => (tradeOf r, sideOf r.side)).Nodup :=
    (List.nodup_map_iff_inj_on hdistinct.of_map).mpr hsame
  have hperm : (w.observed.map key).Perm
      (w.venue.executions.map fun r => (tradeOf r, sideOf r.side)) := by
    refine (List.perm_ext_iff_of_nodup hkept.once hkeys).mpr fun p => ⟨?_, ?_⟩
    · intro hp
      obtain ⟨f, hf, rfl⟩ := List.mem_map.mp hp
      obtain ⟨r, hr, hkey, -⟩ := hkeyOf f hf
      rw [hkey]
      exact List.mem_map_of_mem hr
    · intro hp
      obtain ⟨r, hr, rfl⟩ := List.mem_map.mp hp
      refine hkept.seen _ (TradeWindow.mem_seen_of_contains ?_ (hall r hr))
      rw [hkept.width, UInt64.le_iff_toNat_le]
      exact (hkept.highest hsmall).trans hwindow
  refine ⟨hperm, ?_⟩
  -- what an execution moved, by its key
  let moved (p : TradeId × Side) : Int :=
    ((w.venue.executions.find? fun r => (tradeOf r, sideOf r.side) = p).map fun r =>
      Venue.share .oneWay r + Venue.share .long r + Venue.share .short r).getD 0
  have hmoved : ∀ r ∈ w.venue.executions, moved (tradeOf r, sideOf r.side) =
      Venue.share .oneWay r + Venue.share .long r + Venue.share .short r := by
    intro r hr
    have hsome : (w.venue.executions.find? fun x =>
        (tradeOf x, sideOf x.side) = (tradeOf r, sideOf r.side)).isSome = true :=
      List.find?_isSome.mpr ⟨r, hr, by simp⟩
    obtain ⟨r', hfound⟩ := Option.isSome_iff_exists.mp hsome
    have hkey := List.find?_some hfound
    have heq := hsame r' (List.mem_of_find?_eq_some hfound) r hr (of_decide_eq_true hkey)
    show ((List.find? _ _).map _).getD 0 = _
    rw [hfound, heq]
    rfl
  calc (w.observed.map signedLots).sum = ((w.observed.map key).map moved).sum := by
        rw [List.map_map]
        refine congrArg List.sum (List.map_congr_left fun f hf => ?_)
        obtain ⟨r, hr, hkey, hlots⟩ := hkeyOf f hf
        rw [Function.comp_apply, hkey, hmoved r hr, hlots]
    _ = (w.venue.executions.map fun r =>
          Venue.share .oneWay r + Venue.share .long r + Venue.share .short r).sum := by
        rw [(hperm.map moved).sum_eq, List.map_map]
        exact congrArg List.sum (List.map_congr_left fun r hr => hmoved r hr)
    _ = w.venue.position := (position_eq_sum hkept.orderly.sound htold).symm

/-- A fill that the stream lost, once it was asked for and heard. -/
theorem position_of_lostFill :
    let w := ((started lossy ⟨10000⟩ TierTable.exampleBtcusdt 0 .oneWay).run
      [.place marketBuy, .listen fun _ => 1, .reconcile ["a"], .listen fun _ => 1]).val
    (w.observed.map key).Perm (w.venue.executions.map fun r => (tradeOf r, sideOf r.side)) ∧
      (w.observed.map signedLots).sum = w.venue.position :=
  position_of_accounted lossy ⟨10000⟩ TierTable.exampleBtcusdt 0 .oneWay
    [.place marketBuy, .listen fun _ => 1, .reconcile ["a"], .listen fun _ => 1]
    (by decide +kernel) (by decide +kernel) (by decide +kernel)

end Process

end Sim
