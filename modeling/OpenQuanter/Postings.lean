/-
# What moves the position of a session

An adopted leg and an execution each move lots into a leg.  The ledger's books hold the sums
of what was moved into their legs (`Posted.step`), as long as no sum leaves the range
of an `i64` and no hedged close takes more than its leg holds.
-/
import OpenQuanter.History
import OpenQuanter.LedgerFees
import OpenQuanter.LegSizes

open Logged

/-! ## Lots moved into legs -/

/-- Lots moved into one leg. -/
@[ext]
structure LotMove where
  short : Bool
  lots : Int
  deriving DecidableEq, Repr

namespace LotMove

/-- What was moved into a leg. -/
def leg (short : Bool) (moves : List LotMove) : Int :=
  ((moves.filter fun m => m.short = short).map lots).sum

/-- What was moved into the legs together. -/
def net (moves : List LotMove) : Int := (moves.map lots).sum

@[simp] theorem leg_nil (short : Bool) : leg short [] = 0 := rfl

@[simp] theorem net_nil : net [] = 0 := rfl

theorem leg_concat (short : Bool) (moves : List LotMove) (m : LotMove) :
    leg short (moves ++ [m]) = leg short moves + if m.short = short then m.lots else 0 := by
  unfold leg
  rw [List.filter_append, List.map_append, List.sum_append, List.filter_singleton]
  by_cases hshort : m.short = short
  · simp [hshort]
  · simp [hshort]

theorem net_concat (moves : List LotMove) (m : LotMove) :
    net (moves ++ [m]) = net moves + m.lots := by
  simp [net]

/-- The legs together. -/
theorem leg_add_leg (moves : List LotMove) : leg false moves + leg true moves = net moves := by
  induction moves using List.reverseRecOn with
  | nil => rfl
  | append_singleton moves m ih =>
    rw [leg_concat, leg_concat, net_concat, ← ih]
    cases m.short <;> simp <;> ring

end LotMove

/-! ## Postings -/

namespace Ledger

/-- What moves a position: a leg adopted, or a fill executed. -/
inductive Posting where
  | adopted (leg : AdoptedLeg)
  | executed (fill : Fill)
  deriving DecidableEq, Repr

/-- What a record moves. -/
def postings : LiveRecord → List Posting
  | .reconciled _ legs => legs.map .adopted
  | .execution fill _ => [.executed fill]
  | _ => []

namespace Posting

/-- The move the ledger reads in a posting: an adopted leg is short by its name or by its
sign. -/
def booked (mode : PositionMode) : Posting → LotMove
  | .adopted leg =>
    ⟨mode = .hedge && Replay.legSide leg = .sell,
      (Replay.legSide leg).sign.toInt * |leg.qty.toInt|⟩
  | .executed fill => ⟨fill.onShort mode, fill.signedLots⟩

/-- The magnitude of an adopted leg is an `i64`. -/
def Measured : Posting → Prop
  | .adopted leg => |leg.qty.toInt| < 2 ^ 63
  | .executed _ => True

instance : (p : Posting) → Decidable p.Measured
  | .adopted leg => inferInstanceAs (Decidable (|leg.qty.toInt| < 2 ^ 63))
  | .executed _ => inferInstanceAs (Decidable True)

end Posting

/-- The sums of the ledger's legs fit, at every point. -/
structure BookedFits (mode : PositionMode) (posted : List Posting) : Prop where
  measured : ∀ p ∈ posted, p.Measured
  legs : ∀ read, read <+: posted → ∀ short,
    |LotMove.leg short (read.map (Posting.booked mode))| < 2 ^ 63

instance (mode : PositionMode) (posted : List Posting) : Decidable (BookedFits mode posted) :=
  decidable_of_iff ((∀ p ∈ posted, p.Measured) ∧ ∀ read ∈ posted.inits, ∀ short,
      |LotMove.leg short (read.map (Posting.booked mode))| < 2 ^ 63)
    ⟨fun h => ⟨h.1, fun read hread => h.2 read ((List.mem_inits _ _).mpr hread)⟩,
      fun h => ⟨h.measured, fun read hread => h.legs read ((List.mem_inits _ _).mp hread)⟩⟩

/-- No close of a hedged account takes more than its leg holds. -/
def Covered : List Posting → Prop :=
  History.Always fun read p => ∀ fill, p = .executed fill → fill.offset = .closing →
    fill.qty.toInt ≤ |LotMove.leg (fill.onShort .hedge) (read.map (Posting.booked .hedge))|

theorem BookedFits.of_append {mode : PositionMode} {posted more : List Posting}
    (h : BookedFits mode (posted ++ more)) : BookedFits mode posted where
  measured p hp := h.measured p (List.mem_append_left _ hp)
  legs read hread := h.legs read (hread.trans (List.prefix_append _ _))

end Ledger

/-! ## The books -/

namespace LiveBooks

open Ledger

/-- Books of one instrument whose legs hold what was moved into them. -/
structure Holds (mode : PositionMode) (instrument : InstrumentId) (moves : List LotMove)
    (b : LiveBooks) : Prop where
  venue : b.kernel.VenueKept
  mode_eq : b.kernel.state.mode = mode
  instrument_eq : b.instrument = instrument
  holding : ∃ h, b.kernel.state.holdings = [h] ∧ h.instrument = instrument ∧
    ∀ short, (h.legQty short).toInt = LotMove.leg short moves
  directed : mode = .hedge → 0 ≤ LotMove.leg false moves ∧ LotMove.leg true moves ≤ 0

variable {b : LiveBooks} {mode : PositionMode} {instrument : InstrumentId} {moves : List LotMove}

theorem holds_new (instrument : InstrumentId) (contract : Contract) (table : TierTable)
    (balance : Cash) (mode : PositionMode) :
    (new instrument contract table balance mode).Holds mode instrument [] where
  venue := ⟨rfl, rfl⟩
  mode_eq := rfl
  instrument_eq := rfl
  holding := ⟨Holding.new instrument contract table, rfl, rfl, fun short => by cases short <;> rfl⟩
  directed _ := ⟨le_refl 0, le_refl 0⟩

/-- An event that leaves the sizes of the only holding. -/
theorem Holds.applying (h : b.Holds mode instrument moves) {event : Event}
    (hsizes : ∀ x, b.kernel.state.holdings = [x] → ∃ y, (b.kernel.apply event).val.state.holdings =
      [y] ∧ y.instrument = x.instrument ∧ ∀ short, y.legQty short = x.legQty short) :
    (b.applying event).val.Holds mode instrument moves where
  venue := venueKept_applying h.venue event
  mode_eq := (b.kernel.moves_apply event).sameSetup.mode.trans h.mode_eq
  instrument_eq := h.instrument_eq
  holding := by
    obtain ⟨x, hx, hinstrument, hlegs⟩ := h.holding
    obtain ⟨y, hy, hsame, hsizes⟩ := hsizes x hx
    exact ⟨y, hy, hsame.trans hinstrument, fun short => by rw [hsizes, hlegs]⟩
  directed := h.directed

/-- An observation moves no position. -/
theorem Holds.tick (h : b.Holds mode instrument moves) (tick : Tick) :
    (b.onTick tick).val.Holds mode instrument moves := by
  refine h.applying fun x hx => ?_
  have hroute : b.kernel.route none = some 0 := if_pos (by rw [hx]; rfl)
  rw [Kernel.state_tick h.venue, hroute]
  refine ⟨{ x with mark := tick.last }, ?_, rfl, fun short => by cases short <;> rfl⟩
  show b.kernel.state.holdings.modify 0 _ = _
  rw [hx]
  rfl

/-- Funding moves no position. -/
theorem Holds.funding (h : b.Holds mode instrument moves) (amount : Cash) (at_ : Nanos) :
    (b.onFundingCharged amount at_).val.Holds mode instrument moves := by
  refine h.applying fun x hx => ⟨x, ?_, rfl, fun _ => rfl⟩
  have hroute : b.kernel.route none = some 0 := if_pos (by rw [hx]; rfl)
  rw [Kernel.state_fundingCharged, hroute]
  exact hx

/-- What a fill asks of the moves so far. -/
structure Fillable (mode : PositionMode) (moves : List LotMove) (fill : Fill) : Prop where
  qty : 0 < fill.qty
  held : |LotMove.leg (fill.onShort mode) moves| < 2 ^ 63
  fits : |LotMove.leg (fill.onShort mode) moves + fill.signedLots| < 2 ^ 63
  covered : mode = .hedge → fill.offset = .closing →
    fill.qty.toInt ≤ |LotMove.leg (fill.onShort mode) moves|

/-- A fill leaves the long leg long and the short one short. -/
theorem Fillable.directed {fill : Fill} (hfill : Fillable .hedge moves fill)
    (hdir : 0 ≤ LotMove.leg false moves ∧ LotMove.leg true moves ≤ 0) :
    0 ≤ LotMove.leg false (moves ++ [⟨fill.onShort .hedge, fill.signedLots⟩]) ∧
      LotMove.leg true (moves ++ [⟨fill.onShort .hedge, fill.signedLots⟩]) ≤ 0 := by
  have hqty : 0 < fill.qty.toInt := lt_iff_toInt.mp hfill.qty
  have hbuy : Side.buy.sign.toInt = 1 := rfl
  have hsell : Side.sell.sign.toInt = -1 := rfl
  have hcovered := hfill.covered rfl
  rw [LotMove.leg_concat, LotMove.leg_concat]
  unfold Fill.signedLots
  unfold Fill.onShort State.hedgeShort at hcovered ⊢
  cases hside : fill.side with
  | buy =>
    cases hoffset : fill.offset with
    | opening => simp only [hbuy]; simp; omega
    | closing =>
      have hle := hcovered hoffset
      simp only [hside, hoffset, abs_of_nonpos hdir.2] at hle
      simp only [hbuy]
      simp
      omega
  | sell =>
    cases hoffset : fill.offset with
    | opening => simp only [hsell]; simp; omega
    | closing =>
      have hle := hcovered hoffset
      simp only [hside, hoffset, abs_of_nonneg hdir.1] at hle
      simp only [hsell]
      simp
      omega

/-- A fill of the venue is applied to the only holding once its order was withdrawn and its
fee charged, which moves no leg. -/
theorem exists_applied (h : b.kernel.VenueKept) {x : Holding} (hx : b.kernel.state.holdings = [x])
    (fill : Fill) (fee : Fee) :
    ∃ (s : State) (y : Holding), (b.kernel.apply (.venueFill fill fee)).val.state =
    (s.applyFill fill).val ∧
      s.mode = b.kernel.state.mode ∧ s.holdings = [y] ∧ y.instrument = x.instrument ∧
      ∀ short, y.legQty short = x.legQty short := by
  have hnow : (b.kernel.state.withNow fill.stamp.exch).holdings = [x] := hx
  obtain ⟨hmode, y, hy, hqty, hshort, hinstrument⟩ := Kernel.exists_withdrawFilled hnow fill
  obtain ⟨hholdings, hmode'⟩ := Kernel.holdings_venueFee
    (Kernel.withdrawFilled (b.kernel.state.withNow fill.stamp.exch) fill) fill fee
  refine ⟨_, y, Kernel.state_venueFill h fill fee, hmode'.trans hmode, hholdings.trans hy,
    hinstrument, fun short => ?_⟩
  cases short
  · exact hqty
  · exact hshort

/-- **A fill of the venue** moves its lots into its leg. -/
theorem Holds.venueFill (h : b.Holds mode instrument moves) {fill : Fill}
    (hinstrument : fill.instrument = instrument) (hfill : Fillable mode moves fill) (fee : Fee) :
    (b.applying (.venueFill fill fee)).val.Holds mode instrument
      (moves ++ [⟨fill.onShort mode, fill.signedLots⟩]) := by
  obtain ⟨x, hx, hxi, hlegs⟩ := h.holding
  have hmode := (b.kernel.moves_apply (.venueFill fill fee)).sameSetup.mode.trans h.mode_eq
  obtain ⟨s, y, hstate, hsmode, hy, hyi, hsizes⟩ := exists_applied h.venue hx fill fee
  rw [h.mode_eq] at hsmode
  have hylegs : ∀ short, (y.legQty short).toInt = LotMove.leg short moves := fun short => by
    rw [hsizes, hlegs]
  have happlicable : State.Applicable s.mode y fill := by
    rw [hsmode]
    refine ⟨by rw [hinstrument, hyi, hxi], hfill.qty, ?_, ?_, fun hhedge => ⟨?_, ?_⟩,
      fun hhedge hclosing => ?_⟩
    · rw [hylegs]
      exact hfill.held
    · rw [hylegs]
      exact hfill.fits
    · rw [hylegs]
      exact (h.directed hhedge).1
    · rw [hylegs]
      exact (h.directed hhedge).2
    · rw [hylegs]
      exact hfill.covered hhedge hclosing
  obtain ⟨z, hz, hsame, hmoved⟩ := State.moved_applyFill hy happlicable
  rw [hsmode] at hsame hmoved
  refine ⟨venueKept_applying h.venue _, hmode, h.instrument_eq, ⟨z, ?_, ?_, fun short => ?_⟩, ?_⟩
  · show (b.kernel.apply (.venueFill fill fee)).val.state.holdings = [z]
    rw [hstate, hz]
  · rw [hsame.instrument, hyi, hxi]
  · rw [LotMove.leg_concat]
    by_cases hleg : fill.onShort mode = short
    · rw [if_pos hleg, ← hleg, hmoved, hylegs]
    · obtain rfl : short = !fill.onShort mode := Bool.eq_not_of_ne (Ne.symm hleg)
      rw [if_neg hleg, add_zero, hsame.otherQty, hylegs]
  · rintro rfl
    exact hfill.directed (h.directed rfl)

/-- **An adopted leg** moves its lots into the leg of its side. -/
theorem Holds.adopt (h : b.Holds mode instrument moves) {side : Side} {qty : QtyLots}
    (hqty : 0 ≤ qty.toInt)
    (held : |LotMove.leg (mode = .hedge && side = .sell) moves| < 2 ^ 63)
    (hfits : |LotMove.leg (mode = .hedge && side = .sell) moves + side.sign.toInt * qty.toInt| <
      2 ^ 63) (entry : PriceTicks) (at_ : Nanos) :
    (b.adopt side qty entry at_).val.Holds mode instrument
      (moves ++ [⟨mode = .hedge && side = .sell, side.sign.toInt * qty.toInt⟩]) := by
  have honShort : ∀ fill : Fill, fill.side = side → fill.offset = .opening →
      fill.onShort mode = (mode = .hedge && side = .sell) := by
    intro fill hside hoffset
    cases mode with
    | oneWay => rfl
    | hedge =>
      unfold Fill.onShort State.hedgeShort
      rw [hside, hoffset]
      cases side <;> rfl
  unfold LiveBooks.adopt
  split
  · -- nothing to adopt moves nothing
    rename_i hnone
    have hzero : qty.toInt = 0 := le_antisymm (Int64.le_iff_toInt_le.mp hnone) hqty
    have hsame : ∀ short, LotMove.leg short
        (moves ++ [⟨mode = .hedge && side = .sell, side.sign.toInt * qty.toInt⟩]) =
        LotMove.leg short moves := by
      intro short
      rw [LotMove.leg_concat, hzero, mul_zero, ite_self, add_zero]
    obtain ⟨x, hx, hxi, hlegs⟩ := h.holding
    exact ⟨h.venue, h.mode_eq, h.instrument_eq, ⟨x, hx, hxi, fun short => by rw [hsame, hlegs]⟩,
      fun hhedge => by rw [hsame, hsame]; exact h.directed hhedge⟩
  · rename_i hsome
    have hpos : 0 < qty := by
      have : ¬ qty ≤ 0 := hsome
      exact Int64.not_le.mp this
    have hfill := @Holds.venueFill b mode instrument moves h (b.adopted side qty entry at_)
      h.instrument_eq
      ⟨hpos, by rwa [honShort _ rfl rfl], by rwa [honShort _ rfl rfl],
        fun _ hclosing => nomatch hclosing⟩
      .unreadable
    rwa [honShort _ rfl rfl] at hfill

/-- A fill that is booked moves its lots into its leg. -/
theorem Holds.fill (h : b.Holds mode instrument moves) {fill : Fill}
    (hinstrument : fill.instrument = instrument) (hfill : Fillable mode moves fill) {fee : Fee}
    {b' : LiveBooks} {outputs : List Output}
    (happlied : (b.onVenueFill fill fee).val = (b', .applied outputs)) :
    b'.Holds mode instrument (moves ++ [⟨fill.onShort mode, fill.signedLots⟩]) := by
  unfold onVenueFill at happlied
  split at happlied
  · cases congrArg Prod.snd happlied
  · split at happlied
    · rename_i seen _
      obtain rfl : (b.bookNew seen fill fee).val = b' := congrArg Prod.fst happlied
      have hsame : ∀ booked fills, ({ b with
          seen := seen, booked := booked, unpricedFills := fills } : LiveBooks).Holds mode
          instrument moves :=
        fun _ _ => ⟨h.venue, h.mode_eq, h.instrument_eq, h.holding, h.directed⟩
      exact (hsame _ _).venueFill hinstrument hfill fee.observed
    · cases congrArg Prod.snd happlied
    · cases congrArg Prod.snd happlied

end LiveBooks

/-! ## The replay -/

namespace Ledger

open LiveBooks Except

variable {session : Session} {recovered : List (Nat × Cash)} {st st' : Replay}
  {posted : List Posting} {mode : PositionMode}

/-- An adopted leg is adopted with the lots it is read as. -/
theorem booked_adopted {leg : AdoptedLeg} (h : (Posting.adopted leg).Measured) :
    (Posting.adopted leg).booked mode =
      ⟨mode = .hedge && Replay.legSide leg = .sell,
        (Replay.legSide leg).sign.toInt * (satAbs leg.qty).toInt⟩ := by
  rw [toInt_satAbs_of_lt h]
  rfl

/-- The moves so far and the next one. -/
theorem leg_booked_concat (short : Bool) (p : Posting) :
    LotMove.leg short ((posted ++ [p]).map (Posting.booked mode)) =
      LotMove.leg short (posted.map (Posting.booked mode)) +
        if (p.booked mode).short = short then (p.booked mode).lots else 0 := by
  rw [List.map_append, List.map_singleton, LotMove.leg_concat]

/-- What fits after a posting fits before and after it. -/
theorem BookedFits.last {p : Posting} (h : BookedFits mode (posted ++ [p])) :
    p.Measured ∧
    |LotMove.leg (p.booked mode).short (posted.map (Posting.booked mode))| < 2 ^ 63 ∧
    |LotMove.leg (p.booked mode).short (posted.map (Posting.booked mode)) + (p.booked mode).lots| <
      2 ^ 63 := by
  refine ⟨h.measured p (by simp), h.legs posted (List.prefix_append _ _) _, ?_⟩
  have hlast := h.legs (posted ++ [p]) (List.prefix_refl _) (p.booked mode).short
  rwa [leg_booked_concat, if_pos rfl] at hlast

/-- The legs of a record, adopted one after the other. -/
theorem holds_adoptLegs {at_ : Nanos} {legs : List AdoptedLeg} {instrument : InstrumentId}
    {b b' : LiveBooks} (h : b.Holds mode instrument [])
    (hfits : BookedFits mode (legs.map .adopted))
    (hlegs : legs.foldlM (Replay.adoptLeg session at_) b = .ok b') :
    b'.Holds mode instrument ((legs.map Posting.adopted).map (Posting.booked mode)) := by
  refine foldlM_history (I := fun (done : List AdoptedLeg) (b : LiveBooks) =>
    b.Holds mode instrument
    ((done.map Posting.adopted).map (Posting.booked mode))) ?_ h hlegs
  intro done leg post b₁ b₂ hsplit h₁ hleg
  unfold Replay.adoptLeg at hleg
  rw [require_bind_eq_ok] at hleg
  obtain rfl := pure_eq_ok.mp hleg.2
  have hupto : BookedFits mode (done.map Posting.adopted ++ [.adopted leg]) := by
    rw [hsplit, List.map_append, List.map_cons, List.append_cons] at hfits
    exact hfits.of_append
  obtain ⟨hmeasured, held, hnew⟩ := hupto.last
  have hread : (Posting.adopted leg).booked mode = _ := booked_adopted hmeasured
  rw [hread] at held hnew
  rw [List.map_append, List.map_append, List.map_singleton, List.map_singleton, hread]
  refine h₁.adopt ?_ held hnew leg.entry at_
  rw [toInt_satAbs_of_lt hmeasured]
  exact abs_nonneg _

/-- Funding read back moves no position. -/
theorem holds_recoverLines {at_ : Nanos} {sinceMs throughMs : Int64} {lines : List FundingLine}
    {instrument : InstrumentId} {moves : List LotMove} {acc acc' : Finset Int64 × LiveBooks}
    (h : acc.2.Holds mode instrument moves)
    (hlines : lines.foldlM (Replay.recoverLine at_ sinceMs throughMs) acc = .ok acc') :
    acc'.2.Holds mode instrument moves := by
  refine foldlM_history (I := fun (_ : List FundingLine) (acc : Finset Int64 × LiveBooks) =>
    acc.2.Holds mode instrument moves) ?_ h hlines
  intro done line post acc₁ acc₂ _ h₁ hline
  unfold Replay.recoverLine at hline
  rw [require_bind_eq_ok, require_bind_eq_ok] at hline
  obtain rfl := pure_eq_ok.mp hline.2.2
  exact h₁.funding line.amount at_

/-- What an accepted execution passed. -/
theorem onExecution_checked {index : Nat} {fill : Fill} {fee : Fee}
    (h : st.onExecution recovered index fill fee = .ok st') :
    st.adopted = true ∧ fill.instrument = st.instrumentId ∧ 0 < fill.qty := by
  unfold Replay.onExecution at h
  rw [require_bind_eq_ok, require_bind_eq_ok] at h
  exact ⟨h.1, h.2.1.1, h.2.1.2.1⟩

/-- What an accepted adoption passed. -/
theorem onReconciled_checked {at_ : Nanos} {legs : List AdoptedLeg}
    (h : st.onReconciled session at_ legs = .ok st') : st.adopted = false := by
  unfold Replay.onReconciled at h
  rw [bind_eq_ok] at h
  obtain ⟨b, -, h⟩ := h
  rw [require_bind_eq_ok, require_bind_eq_ok] at h
  exact h.2.1

/-- The books hold what was posted, and nothing was posted before the adoption. -/
structure Posted (posted : List Posting) (st : Replay) : Prop where
  opened : st.adopted = true → st.books.isSome = true
  unadopted : st.adopted = false → posted = []
  holds : ∀ b, st.books = some b → BookedFits st.mode posted →
    (st.mode = .hedge → Covered posted) →
    b.Holds st.mode st.instrumentId (posted.map (Posting.booked st.mode))

theorem posted_start : Posted [] Replay.start :=
  ⟨fun h => (nomatch h), fun _ => rfl, fun _ h => (nomatch h)⟩

theorem bookedFits_nil : BookedFits mode [] where
  measured p hp := nomatch hp
  legs read hread short := by
    rw [List.prefix_nil.mp hread]
    exact show |(0 : Int)| < 2 ^ 63 by decide

/-- The replay after a record that opens no books and moves no position. -/
structure Quiet (st st' : Replay) : Prop where
  adopted : st'.adopted = st.adopted
  mode : st'.mode = st.mode
  instrument : st'.instrumentId = st.instrumentId
  opened : st'.books.isSome = st.books.isSome
  books : ∀ b', st'.books = some b' → ∃ b, st.books = some b ∧
    ∀ mode instrument moves, b.Holds mode instrument moves → b'.Holds mode instrument moves

/-- The books are opened, or the position is moved. -/
def Moving : LiveRecord → Prop
  | .ledgerStart .. | .reconciled .. | .execution .. => True
  | _ => False

/-- A record that leaves the books. -/
theorem quiet_of_same (hadopted : st'.adopted = st.adopted) (hmode : st'.mode = st.mode)
    (hinstrument : st'.instrumentId = st.instrumentId) (hbooks : st'.books = st.books) :
    Quiet st st' where
  adopted := hadopted
  mode := hmode
  instrument := hinstrument
  opened := by rw [hbooks]
  books b' hb' := ⟨b', hbooks ▸ hb', fun _ _ _ hh => hh⟩

theorem quiet_onFunding {at_ : Nanos} {settledMs : Int64} {venue : Cash}
    (h : st.onFunding at_ settledMs venue = .ok st') : Quiet st st' := by
  obtain ⟨b, hbooks, rfl⟩ := Replay.onFunding_ok h
  refine ⟨rfl, rfl, rfl, by rw [hbooks]; rfl, fun b' hb' => ⟨b, hbooks, fun _ _ _ hh => ?_⟩⟩
  rw [← Option.some.inj hb']
  exact hh.funding venue at_

/-- Every other record leaves the position. -/
theorem quiet_step {r : LiveRecord × Nat} (hmoving : ¬ Moving r.1)
    (hstep : Replay.step session recovered st r = .ok st') : Quiet st st' ∧ postings r.1 = [] := by
  obtain ⟨record, index⟩ := r
  cases record with
  | ledgerStart instrumentId instrument tickCash balance mode => exact absurd trivial hmoving
  | reconciled at_ legs => exact absurd trivial hmoving
  | execution fill fee => exact absurd trivial hmoving
  | legacyFill => cases hstep
  | funding at_ settledMs venue => exact ⟨quiet_onFunding hstep, rfl⟩
  | fundingEvidence at_ settledMs venue lines =>
    unfold Replay.step at hstep
    rw [bind_eq_ok] at hstep
    obtain ⟨st₁, hlines, hfunding⟩ := hstep
    obtain ⟨ids, rfl⟩ := Replay.checkLines_ok hlines
    have hquiet := quiet_onFunding hfunding
    exact ⟨⟨hquiet.adopted, hquiet.mode, hquiet.instrument, hquiet.opened, hquiet.books⟩, rfl⟩
  | tick at_ seen last bid ask volume =>
    obtain rfl := pure_eq_ok.mp hstep
    refine ⟨⟨rfl, rfl, rfl, by simp, fun b' hb' => ?_⟩, rfl⟩
    obtain ⟨b, hb, rfl⟩ := Option.map_eq_some_iff.mp hb'
    exact ⟨b, hb, fun _ _ _ hh => hh.tick _⟩
  | fundingRecovered at_ sinceMs throughMs lines =>
    obtain ⟨b, acc, hbooks, hlines, rfl⟩ := Replay.onFundingRecovered_ok hstep
    refine ⟨⟨rfl, rfl, rfl, by rw [hbooks]; rfl, fun b' hb' => ⟨b, hbooks, fun _ _ _ hh => ?_⟩⟩,
      rfl⟩
    obtain rfl := Option.some.inj hb'
    exact holds_recoverLines hh hlines
  | fundingState at_ obligations =>
    obtain ⟨-, rfl⟩ := Replay.onFundingState_ok hstep
    exact ⟨quiet_of_same rfl rfl rfl rfl, rfl⟩
  | feeEvidence at_ sourceMs fill amount =>
    obtain rfl := pure_eq_ok.mp hstep
    exact ⟨quiet_of_same rfl rfl rfl rfl, rfl⟩
  | sessionStart symbol priceScale qtyScale =>
    obtain rfl := pure_eq_ok.mp hstep
    exact ⟨quiet_of_same rfl rfl rfl rfl, rfl⟩
  | other =>
    obtain rfl := pure_eq_ok.mp hstep
    exact ⟨quiet_of_same rfl rfl rfl rfl, rfl⟩

theorem Posted.quiet (h : Posted posted st) (hquiet : Quiet st st') : Posted posted st' := by
  refine ⟨fun ha => ?_, fun ha => h.unadopted (hquiet.adopted ▸ ha),
    fun b' hb' hfits hcovered => ?_⟩
  · rw [hquiet.opened]
    exact h.opened (hquiet.adopted ▸ ha)
  · obtain ⟨b, hb, hkept⟩ := hquiet.books b' hb'
    rw [hquiet.mode] at hfits hcovered ⊢
    rw [hquiet.instrument]
    exact hkept _ _ _ (h.holds b hb hfits hcovered)

/-- Nothing is adopted before the books are opened. -/
theorem Posted.closed (h : Posted posted st) (hnone : st.books = none) : st.adopted = false := by
  by_contra hadopted
  have hopened := h.opened (by simpa using hadopted)
  rw [hnone] at hopened
  cases hopened

/-- The books a session opens hold nothing. -/
theorem Posted.opening (h : Posted posted st) {instrumentId : InstrumentId}
    {instrument : Instrument} {tickCash : Int64} {balance : Cash} {mode : PositionMode}
    (hstep : st.onLedgerStart session instrumentId instrument tickCash balance mode = .ok st') :
    Posted posted st' := by
  obtain ⟨hnone, rfl⟩ := Replay.onLedgerStart_ok hstep
  rw [h.unadopted (h.closed hnone)]
  refine ⟨fun _ => rfl, fun _ => rfl, fun b hb _ _ => ?_⟩
  rw [← Option.some.inj hb]
  exact holds_new _ _ _ _ _

/-- An adoption posts its legs. -/
theorem Posted.reconciled (h : Posted posted st) {at_ : Nanos} {legs : List AdoptedLeg}
    (hstep : st.onReconciled session at_ legs = .ok st') :
    Posted (posted ++ legs.map .adopted) st' := by
  have hnothing := h.unadopted (onReconciled_checked hstep)
  obtain ⟨b, b', hbooks, hlegs, rfl⟩ := Replay.onReconciled_ok hstep
  subst hnothing
  rw [List.nil_append]
  refine ⟨fun _ => rfl, fun ha => (nomatch ha), fun b₁ hb hfits _ => ?_⟩
  rw [← Option.some.inj hb]
  exact holds_adoptLegs (h.holds b hbooks bookedFits_nil fun _ => History.always_nil) hfits hlegs

/-- An execution posts its fill. -/
theorem Posted.execution (h : Posted posted st) {index : Nat} {fill : Fill} {fee : Fee}
    (hstep : st.onExecution recovered index fill fee = .ok st') :
    Posted (posted ++ [.executed fill]) st' := by
  obtain ⟨hadopted, hinstrument, hqty⟩ := onExecution_checked hstep
  obtain ⟨b, b', outputs, hbooks, hfill, rfl⟩ := Replay.onExecution_ok hstep
  refine ⟨fun _ => rfl, fun ha => absurd (hadopted.symm.trans ha) (by decide),
    fun b₁ hb hfits hcovered => ?_⟩
  rw [← Option.some.inj hb, List.map_append, List.map_singleton]
  have hsofar := h.holds b hbooks hfits.of_append fun hhedge => (hcovered hhedge).of_append
  obtain ⟨-, held, hnew⟩ := hfits.last
  refine hsofar.fill hinstrument ⟨hqty, held, hnew, fun hhedge hclosing => ?_⟩ hfill
  have hhedge' : st.mode = .hedge := hhedge
  rw [hhedge']
  exact (hcovered hhedge).last fill rfl hclosing

/-- **One record** of a session posts what it moves. -/
theorem Posted.step (h : Posted posted st) {r : LiveRecord × Nat}
    (hstep : Replay.step session recovered st r = .ok st') :
    Posted (posted ++ postings r.1) st' := by
  by_cases hmoving : Moving r.1
  · obtain ⟨record, index⟩ := r
    cases record with
    | ledgerStart instrumentId instrument tickCash balance mode =>
      exact (List.append_nil posted).symm ▸ h.opening hstep
    | reconciled at_ legs => exact h.reconciled hstep
    | execution fill fee => exact h.execution hstep
    | _ => exact absurd hmoving not_false
  · obtain ⟨hquiet, hnone⟩ := quiet_step hmoving hstep
    rw [hnone, List.append_nil]
    exact h.quiet hquiet

end Ledger
