/-
# A fee recovered late and a fee known at the fill

Two runs of the same calls: in one the venue's commissions are read late, in the
other every fill carries its commission from the start (`knownCalls`).  What is
traded does not see the difference, so realized profit, funding and the legs are
the same in both; the fee totals differ by what is owed on the fills not priced
yet, and the balances by as much the other way, because the account keeps its
residue.  When nothing is owed any more the two runs agree.
-/
import OpenQuanter.LiveBooks
import OpenQuanter.Traded

open Logged

/-! ## The run that knew -/

theorem Fee.observed_ne_unsaid (fee : Fee) : fee.observed ≠ .unsaid := by
  cases fee <;> exact Fee.noConfusion

namespace LiveBooks

/-- The fee a delivery carries where the commissions recovered later are known. -/
def knownFee (amountOf : Fill → Option Cash) (fill : Fill) (fee : Fee) : Fee :=
  match fee.observed, amountOf fill with
  | .unreadable, some amount => .reported amount
  | observed, _ => observed

/-- A call of the run that knew: there is nothing to recover. -/
def knownCall (amountOf : Fill → Option Cash) : BooksCall → List BooksCall
  | .fill fill fee => [.fill fill (knownFee amountOf fill fee)]
  | .recover .. => []
  | call => [call]

/-- The same calls with every recovered commission reported at its fill. -/
def knownCalls (amountOf : Fill → Option Cash) (calls : List BooksCall) : List BooksCall :=
  calls.flatMap (knownCall amountOf)

/-- What is still to be recovered on some fills. -/
def owed (amountOf : Fill → Option Cash) (fills : List Fill) : Int :=
  (fills.map fun fill => ((amountOf fill).getD 0).toInt).sum

theorem charged_knownFee (amountOf : Fill → Option Cash) (fill : Fill) (fee : Fee) :
    (knownFee amountOf fill fee).observed.charged.toInt =
      fee.observed.charged.toInt +
        (if fee.observed = .unreadable then owed amountOf [fill] else 0) := by
  unfold knownFee owed
  cases hfee : fee.observed with
  | unsaid => exact absurd hfee fee.observed_ne_unsaid
  | reported cash => simp [Fee.observed, Fee.charged]
  | unreadable =>
    cases hamount : amountOf fill with
    | none => simp [Fee.observed, Fee.charged, hamount]
    | some amount => simp [Fee.observed, Fee.charged, hamount]

theorem owed_erase (amountOf : Fill → Option Cash) {fill : Fill} {fills : List Fill}
    (h : fill ∈ fills) :
    ((amountOf fill).getD 0).toInt + owed amountOf (fills.erase fill) = owed amountOf fills :=
  List.sum_map_erase (fun fill => ((amountOf fill).getD 0).toInt) h

/-- Nothing is owed on fills that nothing is recovered for. -/
theorem owed_eq_zero {amountOf : Fill → Option Cash} {fills : List Fill}
    (h : ∀ fill ∈ fills, amountOf fill = none) : owed amountOf fills = 0 := by
  apply List.sum_eq_zero
  intro x hx
  obtain ⟨fill, hfill, rfl⟩ := List.mem_map.mp hx
  rw [h fill hfill]
  rfl

/-- Two sets of books that have traded the same.  Where no cash saturates
(`clean`), their accounts have the same residue. -/
structure Beside (clean : Prop) (a b : LiveBooks) : Prop where
  venue : a.kernel.VenueKept
  instrument : a.instrument = b.instrument
  seen : a.seen = b.seen
  traded : a.kernel.state.traded = b.kernel.state.traded
  residue : clean → a.kernel.state.residue = b.kernel.state.residue

/-- **The simulation.**  The books that learn late are those that knew, less what
is owed on the fills not priced yet. -/
structure Late (amountOf : Fill → Option Cash) (clean : Prop) (a b : LiveBooks) : Prop
    extends Beside clean a b where
  fees : clean →
    a.kernel.state.fees.toInt + owed amountOf a.unpricedFills = b.kernel.state.fees.toInt

variable {clean : Prop} {a b : LiveBooks} {amountOf : Fill → Option Cash}

theorem venueKept_applying (h : a.kernel.VenueKept) (event : Event) :
    (a.applying event).val.kernel.VenueKept := by
  have hsetup := (a.kernel.moves_apply event).sameSetup
  exact ⟨hsetup.matching.trans h.1, hsetup.enforceLiquidation.trans h.2⟩

theorem free_applying {event : Event} (h : (a.applying event).Free .cash) :
    (a.kernel.apply event).Free .cash :=
  ((free_bind _ _ _).mp h).1

theorem residue_applying {event : Event} (hdeposit : event.deposit = 0)
    (h : (a.applying event).Free .cash) :
    (a.applying event).val.kernel.state.residue = a.kernel.state.residue := by
  have hresidue := ensures_singleton (a.kernel.residue_apply event) (free_applying h)
  rw [hdeposit, add_zero] at hresidue
  exact hresidue

/-- Two events that trade the same and deposit nothing. -/
theorem Beside.applying {e e' : Event} (h : Beside clean a b)
    (htraded : (a.kernel.apply e).val.state.traded = (b.kernel.apply e').val.state.traded)
    (hdeposit : e.deposit = 0) (hdeposit' : e'.deposit = 0)
    (hfree : clean → (a.applying e).Free .cash ∧ (b.applying e').Free .cash) :
    Beside clean (a.applying e).val (b.applying e').val where
  venue := venueKept_applying h.venue e
  instrument := h.instrument
  seen := h.seen
  traded := htraded
  residue hclean := by
    rw [residue_applying hdeposit (hfree hclean).1, residue_applying hdeposit' (hfree hclean).2]
    exact h.residue hclean

/-- An event that charges nothing, given to both. -/
theorem Late.applying {event : Event} (h : Late amountOf clean a b)
    (htraded : (a.kernel.apply event).val.state.traded = (b.kernel.apply event).val.state.traded)
    (hdeposit : event.deposit = 0)
    (hleft : (a.kernel.apply event).val.state.feeTotal.fees = a.kernel.state.feeTotal.fees)
    (hright : (b.kernel.apply event).val.state.feeTotal.fees = b.kernel.state.feeTotal.fees)
    (hfree : clean → (a.applying event).Free .cash ∧ (b.applying event).Free .cash) :
    Late amountOf clean (a.applying event).val (b.applying event).val where
  toBeside := h.toBeside.applying htraded hdeposit hdeposit hfree
  fees hclean := by
    have hfees := h.fees hclean
    show (a.kernel.apply event).val.state.feeTotal.fees.toInt + owed amountOf a.unpricedFills =
      (b.kernel.apply event).val.state.feeTotal.fees.toInt
    rw [hleft, hright]
    exact hfees

theorem Late.tick (h : Late amountOf clean a b) (tick : Tick)
    (hfree : clean → (a.onTick tick).Free .cash ∧ (b.onTick tick).Free .cash) :
    Late amountOf clean (a.onTick tick).val (b.onTick tick).val :=
  h.applying (Kernel.traded_tick_congr h.venue h.traded tick) rfl
    (congrArg FeeTotal.fees (Kernel.feeTotal_tick h.venue tick))
    (congrArg FeeTotal.fees (Kernel.feeTotal_tick (h.venue.of_traded h.traded) tick)) hfree

theorem Late.funding (h : Late amountOf clean a b) (amount : Cash) (at_ : Nanos)
    (hfree : clean → (a.onFundingCharged amount at_).Free .cash ∧
      (b.onFundingCharged amount at_).Free .cash) :
    Late amountOf clean (a.onFundingCharged amount at_).val (b.onFundingCharged amount at_).val :=
  h.applying (Kernel.traded_fundingCharged_congr h.traded amount at_) rfl
    (congrArg FeeTotal.fees (Kernel.feeTotal_fundingCharged _ amount at_))
    (congrArg FeeTotal.fees (Kernel.feeTotal_fundingCharged _ amount at_)) hfree

theorem Late.adopt (h : Late amountOf clean a b) (side : Side) (qty : QtyLots) (entry : PriceTicks)
    (at_ : Nanos) (hfree : clean → (a.adopt side qty entry at_).Free .cash ∧
      (b.adopt side qty entry at_).Free .cash) :
    Late amountOf clean (a.adopt side qty entry at_).val (b.adopt side qty entry at_).val := by
  have hfill : a.adopted side qty entry at_ = b.adopted side qty entry at_ := by
    unfold adopted
    rw [h.instrument]
  have hb := h.venue.of_traded h.traded
  have hcharge : ∀ {k : Kernel}, k.VenueKept →
      (k.apply (.venueFill (b.adopted side qty entry at_) .unreadable)).val.state.feeTotal.fees =
        k.state.feeTotal.fees := by
    intro k hk
    rw [Kernel.feeTotal_venueFill hk _ Fee.noConfusion]
    rfl
  unfold LiveBooks.adopt at hfree ⊢
  split
  · exact h
  · rename_i hqty
    rw [if_neg hqty, if_neg hqty, hfill] at hfree
    rw [hfill]
    exact h.applying (Kernel.traded_venueFill_congr h.venue h.traded _ _ _) rfl
      (hcharge h.venue) (hcharge hb) hfree

/-- A new fill: the books that learn late owe what the others charged. -/
theorem Late.bookNew (h : Late amountOf clean a b) (seen : TradeWindow Side) (fill : Fill)
    (fee : Fee)
    (hfree : clean → (a.bookNew seen fill fee).Free .cash ∧
      (b.bookNew seen fill (knownFee amountOf fill fee)).Free .cash) :
    Late amountOf clean (a.bookNew seen fill fee).val
      (b.bookNew seen fill (knownFee amountOf fill fee)).val := by
  have hb := h.venue.of_traded h.traded
  unfold LiveBooks.bookNew at hfree ⊢
  refine ⟨?_, fun hclean => ?_⟩
  · refine Beside.applying ⟨h.venue, h.instrument, rfl, h.traded, h.residue⟩ ?_ rfl rfl hfree
    exact Kernel.traded_venueFill_congr h.venue h.traded fill _ _
  · obtain ⟨hfreeA, hfreeB⟩ := hfree hclean
    have hlate := Kernel.fees_venueFill h.venue fee.observed_ne_unsaid (free_applying hfreeA)
    have hknown := Kernel.fees_venueFill hb (Fee.observed_ne_unsaid _) (free_applying hfreeB)
    have hcharged := charged_knownFee amountOf fill fee
    have hfees := h.fees hclean
    show (a.kernel.apply (.venueFill fill fee.observed)).val.state.fees.toInt +
        owed amountOf (if fee.observed = .unreadable then a.unpricedFills ++ [fill]
          else a.unpricedFills) =
      (b.kernel.apply (.venueFill fill (knownFee amountOf fill fee).observed)).val.state.fees.toInt
    rw [hlate, hknown, hcharged]
    split
    · have happend : owed amountOf (a.unpricedFills ++ [fill]) =
          owed amountOf a.unpricedFills + owed amountOf [fill] := by
        simp [owed]
      omega
    · omega

theorem Late.fill (h : Late amountOf clean a b) (fill : Fill) (fee : Fee)
    (hfree : clean → (a.onVenueFill fill fee).Free .cash ∧
      (b.onVenueFill fill (knownFee amountOf fill fee)).Free .cash) :
    Late amountOf clean (a.onVenueFill fill fee).val.1
      (b.onVenueFill fill (knownFee amountOf fill fee)).val.1 := by
  unfold onVenueFill at hfree ⊢
  split
  · exact h
  · rename_i hid
    rw [if_neg hid, if_neg hid] at hfree
    rw [h.seen] at hfree ⊢
    rcases hinsert : b.seen.insert fill.trade fill.side with ⟨answer, seen⟩
    rw [hinsert] at hfree
    cases answer with
    | new =>
      refine h.bookNew seen fill fee fun hclean => ?_
      exact ⟨((free_bind _ _ _).mp (hfree hclean).1).1, ((free_bind _ _ _).mp (hfree hclean).2).1⟩
    | duplicate => exact ⟨⟨h.venue, h.instrument, rfl, h.traded, h.residue⟩, h.fees⟩
    | stale => exact ⟨⟨h.venue, h.instrument, rfl, h.traded, h.residue⟩, h.fees⟩

/-- A recovery pays what was owed. -/
theorem Late.recover (h : Late amountOf clean a b) {fill : Fill} {amount : Cash} (at_ : Nanos)
    (hamount : amountOf fill = some amount)
    (hfree : clean → (a.recoverFee fill amount at_).Free .cash) :
    Late amountOf clean (a.recoverFee fill amount at_).val.1 b := by
  unfold recoverFee at hfree ⊢
  split
  · exact h
  · rename_i hat
    rw [if_neg hat] at hfree
    split
    · split
      · exact h
      · exact h
    · rename_i hfresh
      rw [hfresh] at hfree
      simp only at hfree
      split
      · rename_i hpending
        rw [if_pos hpending] at hfree
        set event : Event := .feeRecovered at_ amount
          (UInt64.ofNatClamp (a.unpricedFills.erase fill).length) with hevent
        have happly : clean → (a.kernel.apply event).Free .cash :=
          fun hclean => ((free_bind _ _ _).mp (hfree hclean)).1
        refine ⟨⟨?_, h.instrument, h.seen, h.traded, fun hclean => ?_⟩, fun hclean => ?_⟩
        · exact venueKept_applying h.venue event
        · have hresidue := ensures_singleton (a.kernel.residue_apply event) (happly hclean)
          rw [← h.residue hclean]
          exact hresidue.trans (add_zero _)
        · have hfees := h.fees hclean
          have howed := owed_erase amountOf hpending
          have hcash : (Cash.add a.kernel.state.fees amount).toInt =
              a.kernel.state.fees.toInt + amount.toInt := by
            refine Books.toInt_add_of_free ?_
            have hcharge := happly hclean
            simp only [hevent, Kernel.apply, Kernel.onFeeRecovered, State.chargeFee, free_bind]
              at hcharge
            exact hcharge.1.1
          rw [hamount, Option.getD_some] at howed
          show (Cash.add a.kernel.state.fees amount).toInt + owed amountOf
            (a.unpricedFills.erase fill) =
            b.kernel.state.fees.toInt
          omega
      · exact h

end LiveBooks

/-! ## One call -/

namespace LiveBooks

variable {clean : Prop} {a b : LiveBooks} {amountOf : Fill → Option Cash}

/-- A new delivery is booked. -/
theorem onVenueFill_of_new {fill : Fill} (h : ¬ b.Settled (fill.trade, fill.side)) (fee : Fee) :
    ∃ seen, (b.onVenueFill fill fee).val.1 = (b.bookNew seen fill fee).val := by
  have hnew : ¬ Refused (b.onVenueFill fill fee).val.2 := (b.refused_iff fill fee).not.mpr h
  have hid : fill.trade ≠ 0 := fun hid => h (.inl hid)
  unfold onVenueFill at hnew ⊢
  rw [if_neg hid] at hnew ⊢
  rcases hinsert : b.seen.insert fill.trade fill.side with ⟨answer, seen⟩
  rw [hinsert] at hnew
  cases answer with
  | new => exact ⟨seen, rfl⟩
  | duplicate => exact absurd trivial hnew
  | stale => exact absurd trivial hnew

theorem onVenueFill_of_settled {fill : Fill} (h : b.Settled (fill.trade, fill.side)) (fee : Fee) :
    (b.onVenueFill fill fee).val.1 = b := by
  have hrefused := onVenueFill_of_refused ((b.refused_iff fill fee).mpr h)
  exact congrArg Logged.val hrefused

/-- **What a recovery does**: nothing, with the reason it was refused for, or the
pending fill is priced. -/
theorem recoverFee_cases (b : LiveBooks) (fill : Fill) (amount : Cash) (at_ : Nanos) :
    ((b.recoverFee fill amount at_).val.1 = b ∧ (b.recoverFee fill amount at_).val.2 ≠ .ok true ∧
      (at_ < fill.stamp.local_ ∨ (∃ r ∈ b.recoveredFees, r.1 = fill) ∨ fill ∉ b.unpricedFills)) ∨
    (fill ∈ b.unpricedFills ∧ (b.recoverFee fill amount at_).val =
      ({ b with
          kernel := (b.kernel.apply (.feeRecovered at_ amount
            (UInt64.ofNatClamp (b.unpricedFills.erase fill).length))).val
          unpricedFills := b.unpricedFills.erase fill
          recoveredFees := b.recoveredFees ++ [(fill, amount)] }, .ok true)) := by
  unfold recoverFee
  split
  · rename_i hat
    exact .inl ⟨rfl, nofun, .inl hat⟩
  · split
    · rename_i prior hfind
      have hprior : ∃ r ∈ b.recoveredFees, r.1 = fill :=
        ⟨_, List.mem_of_find?_eq_some hfind, by simpa using List.find?_some hfind⟩
      left
      split
      · exact ⟨rfl, nofun, .inr (.inl hprior)⟩
      · exact ⟨rfl, nofun, .inr (.inl hprior)⟩
    · split
      · rename_i hpending
        exact .inr ⟨hpending, rfl⟩
      · rename_i hpending
        exact .inl ⟨rfl, nofun, .inr (.inr hpending)⟩

/-! ## Every pending fill is priced -/

/-- The fills not priced yet, each once, and apart from those recovered; none of
them can be delivered again. -/
structure Pending (b : LiveBooks) : Prop where
  nodup : b.unpricedFills.Nodup
  apart : ∀ r ∈ b.recoveredFees, r.1 ∉ b.unpricedFills
  unpriced : ∀ fill ∈ b.unpricedFills, b.Settled (fill.trade, fill.side)
  recovered : ∀ r ∈ b.recoveredFees, b.Settled (r.1.trade, r.1.side)

/-- A recovery is still to come for every pending fill it is known for. -/
def Promised (amountOf : Fill → Option Cash) (b : LiveBooks) (rest : List BooksCall) : Prop :=
  ∀ fill ∈ b.unpricedFills, ∀ amount, amountOf fill = some amount →
    ∃ at_, fill.stamp.local_ ≤ at_ ∧ .recover fill amount at_ ∈ rest

/-- Every delivery whose fee was not read is followed by the recovery of its
commission, if there is one. -/
def RecoveredLater (amountOf : Fill → Option Cash) : List BooksCall → Prop
  | [] => True
  | .fill fill fee :: rest =>
    (fee.observed = .unreadable → ∀ amount, amountOf fill = some amount →
      ∃ at_, fill.stamp.local_ ≤ at_ ∧ .recover fill amount at_ ∈ rest) ∧
      RecoveredLater amountOf rest
  | _ :: rest => RecoveredLater amountOf rest

theorem pending_new (instrument : InstrumentId) (contract : Contract) (table : TierTable)
    (balance : Cash) (mode : PositionMode) :
    (new instrument contract table balance mode).Pending :=
  ⟨List.nodup_nil, nofun, nofun, nofun⟩

/-- A call that leaves the two lists alone. -/
theorem Pending.other {call : BooksCall} (h : b.Pending)
    (hunpriced : (b.step call).val.unpricedFills = b.unpricedFills)
    (hrecovered : (b.step call).val.recoveredFees = b.recoveredFees) :
    (b.step call).val.Pending where
  nodup := hunpriced ▸ h.nodup
  apart := by
    rw [hunpriced, hrecovered]
    exact h.apart
  unpriced fill hfill := (h.unpriced fill (hunpriced ▸ hfill)).step call
  recovered r hr := (h.recovered r (hrecovered ▸ hr)).step call

theorem Pending.fill (h : b.Pending) (fill : Fill) (fee : Fee) :
    (b.step (.fill fill fee)).val.Pending := by
  by_cases hsettled : b.Settled (fill.trade, fill.side)
  · have hsame : (b.step (.fill fill fee)).val = b := onVenueFill_of_settled hsettled fee
    rw [hsame]
    exact h
  · obtain ⟨seen, hbooked⟩ := onVenueFill_of_new hsettled fee
    have hval : (b.step (.fill fill fee)).val = (b.bookNew seen fill fee).val := hbooked
    have hself : (b.step (.fill fill fee)).val.Settled (fill.trade, fill.side) :=
      b.settled_delivered rfl
    by_cases hread : fee.observed = .unreadable
    · have hunpriced : (b.step (.fill fill fee)).val.unpricedFills = b.unpricedFills ++ [fill] := by
        rw [hval]
        exact if_pos hread
      have hrecovered : (b.step (.fill fill fee)).val.recoveredFees = b.recoveredFees := by
        rw [hval]
        rfl
      -- the fill is in neither list, since nothing settled its key before
      have hfresh : fill ∉ b.unpricedFills := fun hmem => hsettled (h.unpriced fill hmem)
      refine ⟨?_, ?_, ?_, ?_⟩
      · rw [hunpriced, List.nodup_append]
        refine ⟨h.nodup, List.nodup_singleton _, fun x hx y hy => ?_⟩
        rw [List.mem_singleton.mp hy]
        exact fun hxy => hfresh (hxy ▸ hx)
      · rw [hunpriced, hrecovered]
        intro r hr hmem
        rcases List.mem_append.mp hmem with hold | hnew
        · exact h.apart r hr hold
        · have hsame := List.mem_singleton.mp hnew
          exact hsettled (hsame ▸ h.recovered r hr)
      · rw [hunpriced]
        intro x hx
        rcases List.mem_append.mp hx with hold | hnew
        · exact (h.unpriced x hold).step _
        · rw [List.mem_singleton.mp hnew]
          exact hself
      · rw [hrecovered]
        exact fun r hr => (h.recovered r hr).step _
    · refine h.other ?_ ?_
      · rw [hval]
        exact if_neg hread
      · rw [hval]
        rfl

theorem Pending.recover (h : b.Pending) (fill : Fill) (amount : Cash) (at_ : Nanos) :
    (b.step (.recover fill amount at_)).val.Pending := by
  rcases b.recoverFee_cases fill amount at_ with ⟨hsame, -⟩ | ⟨hpending, hval⟩
  · have hval : (b.step (.recover fill amount at_)).val = b := hsame
    rw [hval]
    exact h
  · have hstep := (show (b.step (.recover fill amount at_)).val = _ from congrArg Prod.fst hval)
    have hunpriced : (b.step (.recover fill amount at_)).val.unpricedFills =
        b.unpricedFills.erase fill := by
      rw [hstep]
    have hrecovered : (b.step (.recover fill amount at_)).val.recoveredFees =
        b.recoveredFees ++ [(fill, amount)] := by
      rw [hstep]
    refine ⟨?_, ?_, ?_, ?_⟩
    · rw [hunpriced]
      exact h.nodup.erase _
    · rw [hunpriced, hrecovered]
      intro r hr hmem
      rcases List.mem_append.mp hr with hold | hnew
      · exact h.apart r hold (List.mem_of_mem_erase hmem)
      · rw [List.mem_singleton.mp hnew] at hmem
        exact h.nodup.not_mem_erase hmem
    · rw [hunpriced]
      exact fun x hx => (h.unpriced x (List.mem_of_mem_erase hx)).step _
    · rw [hrecovered]
      intro r hr
      rcases List.mem_append.mp hr with hold | hnew
      · exact (h.recovered r hold).step _
      · rw [List.mem_singleton.mp hnew]
        exact (h.unpriced fill hpending).step _

/-- A call that neither delivers nor recovers leaves the two lists alone. -/
theorem lists_step (b : LiveBooks) {call : BooksCall} (hfill : ∀ fill fee, call ≠ .fill fill fee)
    (hrecover : ∀ fill amount at_, call ≠ .recover fill amount at_) :
    (b.step call).val.unpricedFills = b.unpricedFills ∧
      (b.step call).val.recoveredFees = b.recoveredFees := by
  cases call with
  | fill fill fee => exact absurd rfl (hfill fill fee)
  | recover fill amount at_ => exact absurd rfl (hrecover fill amount at_)
  | adopt side qty entry at_ =>
    show (b.adopt side qty entry at_).val.unpricedFills = _ ∧
      (b.adopt side qty entry at_).val.recoveredFees = _
    unfold adopt
    split
    · exact ⟨rfl, rfl⟩
    · exact ⟨rfl, rfl⟩
  | tick tick => exact ⟨rfl, rfl⟩
  | submit id side qty offset at_ => exact ⟨rfl, rfl⟩
  | funding amount at_ => exact ⟨rfl, rfl⟩

theorem Pending.step (h : b.Pending) (call : BooksCall) : (b.step call).val.Pending := by
  cases call with
  | fill fill fee => exact h.fill fill fee
  | recover fill amount at_ => exact h.recover fill amount at_
  | adopt side qty entry at_ =>
    have hlists : (b.step (.adopt side qty entry at_)).val.unpricedFills = b.unpricedFills ∧
        (b.step (.adopt side qty entry at_)).val.recoveredFees = b.recoveredFees :=
      b.lists_step nofun nofun
    exact h.other hlists.1 hlists.2
  | tick tick => exact h.other rfl rfl
  | submit id side qty offset at_ => exact h.other rfl rfl
  | funding amount at_ => exact h.other rfl rfl

/-- A recovery that came late enough has priced its fill. -/
theorem notMem_unpriced_recover (h : b.Pending) {fill : Fill} (amount : Cash) {at_ : Nanos}
    (hat : fill.stamp.local_ ≤ at_) :
    fill ∉ (b.step (.recover fill amount at_)).val.unpricedFills := by
  show fill ∉ (b.recoverFee fill amount at_).val.1.unpricedFills
  rcases b.recoverFee_cases fill amount at_ with ⟨hsame, -, hwhy⟩ | ⟨-, hval⟩
  · rw [hsame]
    rcases hwhy with hearly | ⟨r, hr, rfl⟩ | hnot
    · exact absurd hat (Int64.not_le.mpr hearly)
    · exact h.apart r hr
    · exact hnot
  · rw [hval]
    exact h.nodup.not_mem_erase

theorem Promised.step {call : BooksCall} {rest : List BooksCall}
    (h : Promised amountOf b (call :: rest))
    (hpending : b.Pending) (hlater : RecoveredLater amountOf (call :: rest)) :
    Promised amountOf (b.step call).val rest := by
  intro fill hfill amount hamount
  -- a promise that is not this very call is still to come
  have hkeep : fill ∈ b.unpricedFills → (∀ at_, fill.stamp.local_ ≤ at_ →
      call ≠ .recover fill amount at_) →
      ∃ at_, fill.stamp.local_ ≤ at_ ∧ .recover fill amount at_ ∈ rest := by
    intro hmem hother
    obtain ⟨at_, hat, hpromise⟩ := h fill hmem amount hamount
    rcases List.mem_cons.mp hpromise with hhead | htail
    · exact absurd hhead.symm (hother at_ hat)
    · exact ⟨at_, hat, htail⟩
  by_cases hrecover : ∃ fill' amount' at_, call = .recover fill' amount' at_
  · obtain ⟨fill', amount', at', rfl⟩ := hrecover
    refine hkeep ?_ ?_
    · rcases b.recoverFee_cases fill' amount' at' with ⟨hsame, -⟩ | ⟨-, hval⟩
      · have hstep := (show (b.step (.recover fill' amount' at')).val = b from hsame)
        rwa [hstep] at hfill
      · have hstep := (show (b.step (.recover fill' amount' at')).val = _ from
          congrArg Prod.fst hval)
        rw [hstep] at hfill
        exact List.mem_of_mem_erase hfill
    · intro at_ hat hcall
      obtain ⟨rfl, rfl, rfl⟩ := BooksCall.recover.inj hcall
      exact notMem_unpriced_recover hpending amount' hat hfill
  · have hother : ∀ at_, fill.stamp.local_ ≤ at_ → call ≠ .recover fill amount at_ :=
      fun at_ _ hcall => hrecover ⟨fill, amount, at_, hcall⟩
    by_cases hdelivery : ∃ fill' fee, call = .fill fill' fee
    · obtain ⟨fill', fee, rfl⟩ := hdelivery
      by_cases hsettled : b.Settled (fill'.trade, fill'.side)
      · have hstep := (show (b.step (.fill fill' fee)).val = b from
          onVenueFill_of_settled hsettled fee)
        rw [hstep] at hfill
        exact hkeep hfill hother
      · obtain ⟨seen, hbooked⟩ := onVenueFill_of_new hsettled fee
        have hstep := (show (b.step (.fill fill' fee)).val = _ from hbooked)
        rw [hstep] at hfill
        by_cases hread : fee.observed = .unreadable
        · have hunpriced : (b.bookNew seen fill' fee).val.unpricedFills =
              b.unpricedFills ++ [fill'] := if_pos hread
          rw [hunpriced] at hfill
          rcases List.mem_append.mp hfill with hold | hnew
          · exact hkeep hold hother
          · obtain rfl := List.mem_singleton.mp hnew
            exact hlater.1 hread amount hamount
        · have hunpriced : (b.bookNew seen fill' fee).val.unpricedFills = b.unpricedFills :=
            if_neg hread
          rw [hunpriced] at hfill
          exact hkeep hfill hother
    · have hlists := b.lists_step (fun fill' fee hcall => hdelivery ⟨fill', fee, hcall⟩)
        (fun fill' amount' at_ hcall => hrecover ⟨fill', amount', at_, hcall⟩)
      rw [hlists.1] at hfill
      exact hkeep hfill hother

theorem RecoveredLater.tail {call : BooksCall} {rest : List BooksCall}
    (h : RecoveredLater amountOf (call :: rest)) : RecoveredLater amountOf rest := by
  cases call with
  | fill fill fee => exact h.2
  | _ => exact h

/-- **Every pending fill is priced** by the end of a run that recovers what it
can. -/
theorem amountOf_unpriced (calls : List BooksCall) {b : LiveBooks} (hpending : b.Pending)
    (hpromised : Promised amountOf b calls) (hlater : RecoveredLater amountOf calls) :
    ∀ fill ∈ (b.run calls).val.unpricedFills, amountOf fill = none := by
  induction calls generalizing b with
  | nil =>
    intro fill hfill
    by_contra hsome
    obtain ⟨amount, hamount⟩ := Option.ne_none_iff_exists'.mp hsome
    obtain ⟨at_, -, hmem⟩ := hpromised fill hfill amount hamount
    cases hmem
  | cons call rest ih =>
    rw [run_cons, val_bind]
    exact ih (hpending.step call) (hpromised.step hpending hlater) hlater.tail

/-! ## A whole run -/

theorem run_append (b : LiveBooks) (first second : List BooksCall) :
    b.run (first ++ second) = (b.run first >>= fun b => b.run second) :=
  List.foldlM_append

theorem run_singleton (b : LiveBooks) (call : BooksCall) : b.run [call] = b.step call := by
  rw [run_cons]
  exact bind_pure _

/-- An order is sent; what a fee costs decides whether there is margin for it. -/
def Places : BooksCall → Prop
  | .submit .. => True
  | _ => False

/-- One call of the one run, and what is left of it in the other. -/
theorem Late.step (h : Late amountOf clean a b) {call : BooksCall} (hplaces : ¬ Places call)
    (htrue : ∀ fill amount at_, call = .recover fill amount at_ → amountOf fill = some amount)
    (hfree : clean → (a.step call).Free .cash ∧ (b.run (knownCall amountOf call)).Free .cash) :
    Late amountOf clean (a.step call).val (b.run (knownCall amountOf call)).val := by
  cases call with
  | submit id side qty offset at_ => exact absurd trivial hplaces
  | recover fill amount at_ =>
    refine h.recover at_ (htrue fill amount at_ rfl) fun hclean => ?_
    exact (free_map _ _ _).mp (hfree hclean).1
  | fill fill fee =>
    simp only [knownCall, run_singleton] at hfree ⊢
    refine h.fill fill fee fun hclean => ?_
    exact ⟨(free_map _ _ _).mp (hfree hclean).1, (free_map _ _ _).mp (hfree hclean).2⟩
  | adopt side qty entry at_ =>
    simp only [knownCall, run_singleton] at hfree ⊢
    exact h.adopt side qty entry at_ hfree
  | tick tick =>
    simp only [knownCall, run_singleton] at hfree ⊢
    exact h.tick tick hfree
  | funding amount at_ =>
    simp only [knownCall, run_singleton] at hfree ⊢
    exact h.funding amount at_ hfree

theorem Late.run (calls : List BooksCall) {a b : LiveBooks} (h : Late amountOf clean a b)
    (hplaces : ∀ call ∈ calls, ¬ Places call)
    (htrue : ∀ fill amount at_, .recover fill amount at_ ∈ calls → amountOf fill = some amount)
    (hfree : clean → (a.run calls).Free .cash ∧ (b.run (knownCalls amountOf calls)).Free .cash) :
    Late amountOf clean (a.run calls).val (b.run (knownCalls amountOf calls)).val := by
  induction calls generalizing a b with
  | nil => exact h
  | cons call rest ih =>
    have hknown : b.run (knownCalls amountOf (call :: rest)) =
        (b.run (knownCall amountOf call) >>= fun b => b.run (knownCalls amountOf rest)) :=
      run_append b _ _
    rw [run_cons, hknown] at hfree ⊢
    simp only [free_bind] at hfree
    rw [val_bind, val_bind]
    refine ih ?_ (fun c hc => hplaces c (List.mem_cons_of_mem _ hc))
      (fun fill amount at_ hmem => htrue fill amount at_ (List.mem_cons_of_mem _ hmem)) ?_
    · refine h.step (hplaces call List.mem_cons_self) ?_ fun hclean => ?_
      · rintro fill amount at_ rfl
        exact htrue fill amount at_ List.mem_cons_self
      · exact ⟨(hfree hclean).1.1, (hfree hclean).2.1⟩
    · exact fun hclean => ⟨(hfree hclean).1.2, (hfree hclean).2.2⟩

/-! ## What is known of the fees -/

theorem ofNatClamp_ne_zero (n : Nat) : UInt64.ofNatClamp n ≠ 0 ↔ n ≠ 0 := by
  unfold UInt64.ofNatClamp
  split
  · rename_i hn
    rw [ne_eq, ← UInt64.toNat_inj, UInt64.toNat_ofNatLT]
    rfl
  · rename_i hn
    refine ⟨fun _ => ?_, fun _ => by decide⟩
    rintro rfl
    exact hn (by decide)

/-- A position is adopted. -/
def Adopts : BooksCall → Prop
  | .adopt _ qty _ _ => ¬ qty ≤ 0
  | _ => False

/-- A commission is recovered. -/
def Recovers : BooksCall → Prop
  | .recover .. => True
  | _ => False

/-- A commission is recovered and booked. -/
def BooksFee (b : LiveBooks) : BooksCall → Prop
  | .recover fill amount at_ => (b.recoverFee fill amount at_).val.2 = .ok true
  | _ => False

/-- A recovery was booked after the last adoption. -/
def PricedLast (b : LiveBooks) (calls : List BooksCall) : Prop :=
  ∃ pre call post, calls = pre ++ call :: post ∧ (b.run pre).val.BooksFee call ∧
    ∀ later ∈ post, ¬ Adopts later

theorem not_pricedLast_nil (b : LiveBooks) : ¬ b.PricedLast [] := by
  rintro ⟨pre, call, post, hsplit, -⟩
  exact List.cons_ne_nil _ _ (List.append_eq_nil_iff.mp hsplit.symm).2

theorem pricedLast_concat (b : LiveBooks) (calls : List BooksCall) (call : BooksCall) :
    b.PricedLast (calls ++ [call]) ↔
      (b.run calls).val.BooksFee call ∨ b.PricedLast calls ∧ ¬ Adopts call := by
  constructor
  · rintro ⟨pre, booked, post, hsplit, hbooks, hpost⟩
    rcases List.eq_nil_or_concat post with rfl | ⟨post, last, rfl⟩
    · obtain ⟨rfl, hcall⟩ := List.append_inj' hsplit rfl
      obtain rfl := List.singleton_inj.mp hcall
      exact .inl hbooks
    · rw [List.concat_eq_append, ← List.cons_append, ← List.append_assoc] at hsplit
      obtain ⟨rfl, hcall⟩ := List.append_inj' hsplit rfl
      obtain rfl := List.singleton_inj.mp hcall
      exact .inr ⟨⟨pre, booked, post, rfl, hbooks, fun c hc => hpost c (by simp [hc])⟩,
        hpost _ (by simp)⟩
  · rintro (hbooks | ⟨⟨pre, booked, post, rfl, hbooks, hpost⟩, hcall⟩)
    · exact ⟨calls, call, [], rfl, hbooks, nofun⟩
    · refine ⟨pre, booked, post ++ [call], by simp, hbooks, fun c hc => ?_⟩
      rcases List.mem_append.mp hc with hold | hnew
      · exact hpost c hold
      · rwa [List.mem_singleton.mp hnew]

/-- Where no recovery follows an adoption, an adoption stays unpriced. -/
theorem not_pricedLast_of_adopts {b : LiveBooks} {calls : List BooksCall}
    (horder : calls.Pairwise fun call later => Adopts call → ¬ Recovers later)
    (hadopts : ∃ call ∈ calls, Adopts call) : ¬ b.PricedLast calls := by
  rintro ⟨pre, booked, post, rfl, hbooks, hpost⟩
  have hrecovers : Recovers booked := by
    cases booked with
    | recover fill amount at_ => trivial
    | _ => exact hbooks.elim
  obtain ⟨call, hmem, hcall⟩ := hadopts
  rcases List.mem_append.mp hmem with hpre | hrest
  · exact (List.pairwise_append.mp horder).2.2 call hpre booked List.mem_cons_self hcall hrecovers
  · rcases List.mem_cons.mp hrest with rfl | hlater
    · cases call with
      | adopt side qty entry at_ => exact hbooks
      | _ => exact hcall
    · exact hpost call hlater hcall

/-- What two runs know of their fees: the run that learns late misses the fills
that are `pending`, the other never did, and both miss what was `adopted` until,
in the one that learns late, a recovery is booked (`priced`). -/
structure Flags (pending adopted priced : Prop) (late known : FeeTotal) : Prop where
  covered : known.covered = true ↔ late.covered = true ∨ pending
  missing : late.missing = true ↔ pending ∨ adopted ∧ ¬ priced
  known : known.missing = true ↔ adopted
  priced : priced → late.covered = true

variable {pending adopted priced : Prop} {late known : FeeTotal}

theorem Flags.reported (h : Flags pending adopted priced late known) (cash : Cash) :
    Flags pending adopted priced (late.after (.reported cash)) (known.after (.reported cash)) :=
  ⟨iff_of_true rfl (.inl rfl), h.missing, h.known, fun _ => rfl⟩

/-- A fee read late by the one and at once by the other. -/
theorem Flags.unread (h : Flags pending adopted priced late known) {pending' : Prop}
    (hpending : pending') (amount : Cash) :
    Flags pending' adopted priced (late.after .unreadable) (known.after (.reported amount)) :=
  ⟨iff_of_true rfl (.inr hpending), iff_of_true rfl (.inl hpending), h.known, h.priced⟩

/-- A position that nothing says the cost of. -/
theorem Flags.adopt (h : Flags pending adopted priced late known) {adopted' priced' : Prop}
    (hadopted : adopted') (hpriced : ¬ priced') :
    Flags pending adopted' priced' (late.after .unreadable) (known.after .unreadable) :=
  ⟨h.covered, iff_of_true rfl (.inr ⟨hadopted, hpriced⟩), iff_of_true rfl hadopted,
    fun h => absurd h hpriced⟩

/-- With nothing pending, the run that learned late knows its fees if the other
does or a recovery was booked after the last adoption. -/
theorem Flags.feesKnown_iff {a b : LiveBooks}
    (h : Flags (a.unpricedFills ≠ []) adopted priced a.kernel.state.feeTotal
      b.kernel.state.feeTotal) (hnone : a.unpricedFills = []) :
    a.feesKnown = true ↔ b.feesKnown = true ∨ priced := by
  have hcovered : b.kernel.state.feesCovered = true ↔ a.kernel.state.feesCovered = true :=
    h.covered.trans (or_iff_left (not_not.mpr hnone))
  have hmissing : a.kernel.state.feesMissing = true ↔ adopted ∧ ¬ priced :=
    h.missing.trans (or_iff_right (not_not.mpr hnone))
  have hknown : b.kernel.state.feesMissing = true ↔ adopted := h.known
  have hpriced : priced → a.kernel.state.feesCovered = true := h.priced
  simp only [feesKnown, State.feesKnown, Bool.and_eq_true, Bool.not_eq_true', hcovered,
    ← Bool.not_eq_true, hmissing, hknown]
  tauto

/-- Where an adoption stays unpriced, either both runs know their fees or neither. -/
theorem Flags.feesKnown_eq {a b : LiveBooks}
    (h : Flags (a.unpricedFills ≠ []) adopted priced a.kernel.state.feeTotal
      b.kernel.state.feeTotal) (hnone : a.unpricedFills = []) (hadopted : adopted → ¬ priced) :
    a.feesKnown = b.feesKnown := by
  have hcovered : b.kernel.state.feesCovered = true ↔ a.kernel.state.feesCovered = true :=
    h.covered.trans (or_iff_left (not_not.mpr hnone))
  have hmissing : a.kernel.state.feesMissing = true ↔ b.kernel.state.feesMissing = true :=
    (h.missing.trans (or_iff_right (not_not.mpr hnone))).trans
      ((and_iff_left_of_imp hadopted).trans h.known.symm)
  show (a.kernel.state.feesCovered && !a.kernel.state.feesMissing) =
    (b.kernel.state.feesCovered && !b.kernel.state.feesMissing)
  rw [Bool.eq_iff_iff.mpr hcovered, Bool.eq_iff_iff.mpr hmissing]

theorem observed_knownFee_of_reported {fee : Fee} {cash : Cash} (h : fee.observed = .reported cash)
    (fill : Fill) : (knownFee amountOf fill fee).observed = .reported cash := by
  unfold knownFee
  rw [h]
  cases amountOf fill <;> rfl

theorem observed_knownFee_of_unread {fee : Fee} {fill : Fill} {amount : Cash}
    (h : fee.observed = .unreadable) (hamount : amountOf fill = some amount) :
    (knownFee amountOf fill fee).observed = .reported amount := by
  unfold knownFee
  rw [h, hamount]
  rfl

/-- The flags of two sets of books. -/
def FlagsAgree (adopted priced : Prop) (a b : LiveBooks) : Prop :=
  Flags (a.unpricedFills ≠ []) adopted priced a.kernel.state.feeTotal b.kernel.state.feeTotal

theorem FlagsAgree.fill (h : FlagsAgree adopted priced a b) (hlate : Late amountOf False a b)
    {fill : Fill} {amount : Cash} (hamount : amountOf fill = some amount) (fee : Fee) :
    FlagsAgree adopted priced (a.onVenueFill fill fee).val.1
      (b.onVenueFill fill (knownFee amountOf fill fee)).val.1 := by
  have hsettled_iff : a.Settled (fill.trade, fill.side) ↔ b.Settled (fill.trade, fill.side) := by
    unfold Settled hasBooked
    rw [hlate.seen]
  by_cases hsettled : a.Settled (fill.trade, fill.side)
  · rw [onVenueFill_of_settled hsettled, onVenueFill_of_settled (hsettled_iff.mp hsettled)]
    exact h
  · obtain ⟨seen, hbookedA⟩ := onVenueFill_of_new hsettled fee
    obtain ⟨seen', hbookedB⟩ := onVenueFill_of_new (hsettled_iff.not.mp hsettled)
      (knownFee amountOf fill fee)
    have ha := Kernel.feeTotal_venueFill hlate.venue fill fee.observed_ne_unsaid
    have hb := Kernel.feeTotal_venueFill (hlate.venue.of_traded hlate.traded) fill
      (Fee.observed_ne_unsaid (knownFee amountOf fill fee))
    rw [hbookedA, hbookedB]
    unfold FlagsAgree
    show Flags ((if fee.observed = .unreadable then a.unpricedFills ++ [fill]
        else a.unpricedFills) ≠ []) adopted priced
      (a.kernel.apply (.venueFill fill fee.observed)).val.state.feeTotal
      (b.kernel.apply (.venueFill fill (knownFee amountOf fill fee).observed)).val.state.feeTotal
    rw [ha, hb]
    cases hread : fee.observed with
    | unsaid => exact absurd hread fee.observed_ne_unsaid
    | reported cash =>
      rw [observed_knownFee_of_reported hread, if_neg Fee.noConfusion]
      exact Flags.reported h cash
    | unreadable =>
      rw [observed_knownFee_of_unread hread hamount, if_pos rfl]
      exact Flags.unread h (List.append_ne_nil_of_right_ne_nil _ (List.cons_ne_nil _ _)) amount

/-- A recovery answers for the fills that are pending, and forgets what was
adopted. -/
theorem FlagsAgree.recover (h : FlagsAgree adopted priced a b) (fill : Fill) (amount : Cash)
    (at_ : Nanos) :
    FlagsAgree adopted (a.BooksFee (.recover fill amount at_) ∨ priced)
      (a.recoverFee fill amount at_).val.1 b := by
  rcases a.recoverFee_cases fill amount at_ with ⟨hsame, hrefused, -⟩ | ⟨hpending, hval⟩
  · rw [hsame, show (a.BooksFee (.recover fill amount at_) ∨ priced) = priced from
      propext (or_iff_right hrefused)]
    exact h
  · have hbooks : a.BooksFee (.recover fill amount at_) := congrArg Prod.snd hval
    have hcovered := Flags.covered h
    rw [hval]
    refine ⟨iff_of_true (hcovered.mpr (.inr (List.ne_nil_of_mem hpending))) (.inl rfl), ?_, h.known,
      fun _ => rfl⟩
    show decide (UInt64.ofNatClamp (a.unpricedFills.erase fill).length ≠ 0) = true ↔ _
    rw [decide_eq_true_eq, ofNatClamp_ne_zero, ne_eq, List.length_eq_zero_iff,
      or_iff_left fun hadopted => hadopted.2 (.inl hbooks)]

theorem FlagsAgree.adopt (h : FlagsAgree adopted priced a b) (hlate : Beside False a b)
    (side : Side) (qty : QtyLots) (entry : PriceTicks) (at_ : Nanos) :
    FlagsAgree (adopted ∨ ¬ qty ≤ 0) (priced ∧ ¬ ¬ qty ≤ 0) (a.adopt side qty entry at_).val
      (b.adopt side qty entry at_).val := by
  unfold LiveBooks.adopt
  split
  · rename_i hqty
    rw [or_iff_left (not_not.mpr hqty), and_iff_left (not_not.mpr hqty)]
    exact h
  · rename_i hqty
    have hunread : Fee.unreadable ≠ .unsaid := Fee.noConfusion
    have ha := Kernel.feeTotal_venueFill hlate.venue (a.adopted side qty entry at_) hunread
    have hb := Kernel.feeTotal_venueFill (hlate.venue.of_traded hlate.traded)
      (b.adopted side qty entry at_) hunread
    show Flags (a.unpricedFills ≠ []) _ _ (a.kernel.apply _).val.state.feeTotal
      (b.kernel.apply _).val.state.feeTotal
    rw [ha, hb]
    exact Flags.adopt h (.inr hqty) fun hpriced => hpriced.2 hqty

/-- A call that charges nothing. -/
theorem FlagsAgree.quiet {event : Event} (h : FlagsAgree adopted priced a b)
    (ha : (a.kernel.apply event).val.state.feeTotal = a.kernel.state.feeTotal)
    (hb : (b.kernel.apply event).val.state.feeTotal = b.kernel.state.feeTotal) :
    FlagsAgree adopted priced (a.applying event).val (b.applying event).val := by
  show Flags (a.unpricedFills ≠ []) _ _ (a.kernel.apply event).val.state.feeTotal
    (b.kernel.apply event).val.state.feeTotal
  rw [ha, hb]
  exact h

/-- A call that neither adopts nor recovers. -/
theorem FlagsAgree.same (h : FlagsAgree adopted priced a b) :
    FlagsAgree (adopted ∨ False) (False ∨ priced ∧ ¬ False) a b := by
  rwa [or_false, false_or, not_false_eq_true, and_true]

/-- The flags after one call. -/
theorem FlagsAgree.step (h : FlagsAgree adopted priced a b) {amount : Fill → Cash}
    (hlate : Late (fun fill => some (amount fill)) False a b) {call : BooksCall}
    (hplaces : ¬ Places call) :
    FlagsAgree (adopted ∨ Adopts call) (a.BooksFee call ∨ priced ∧ ¬ Adopts call) (a.step call).val
      (b.run (knownCall (fun fill => some (amount fill)) call)).val := by
  cases call with
  | submit id side qty offset at_ => exact absurd trivial hplaces
  | recover fill cash at_ =>
    have hbooked := h.recover fill cash at_
    rwa [← or_false adopted, ← and_true priced, ← not_false_eq_true] at hbooked
  | adopt side qty entry at_ =>
    have hadopted := h.adopt hlate.toBeside side qty entry at_
    rw [← false_or (priced ∧ _)] at hadopted
    simp only [knownCall, run_singleton]
    exact hadopted
  | fill fill fee =>
    simp only [knownCall, run_singleton]
    exact (h.fill hlate rfl fee).same
  | tick tick =>
    simp only [knownCall, run_singleton]
    exact (h.quiet (Kernel.feeTotal_tick hlate.venue tick)
      (Kernel.feeTotal_tick (hlate.venue.of_traded hlate.traded) tick)).same
  | funding cash at_ =>
    simp only [knownCall, run_singleton]
    exact (h.quiet (Kernel.feeTotal_fundingCharged _ cash at_)
      (Kernel.feeTotal_fundingCharged _ cash at_)).same

theorem knownCalls_concat (amountOf : Fill → Option Cash) (calls : List BooksCall)
    (call : BooksCall) :
    knownCalls amountOf (calls ++ [call]) = knownCalls amountOf calls ++
    knownCall amountOf call := by
  unfold knownCalls
  rw [List.flatMap_append, List.flatMap_singleton]

/-- **The flags of a run**: what was adopted in it, and whether a recovery was
booked after that. -/
theorem FlagsAgree.run {amount : Fill → Cash} (calls : List BooksCall)
    (h : FlagsAgree False False a b) (hlate : Late (fun fill => some (amount fill)) False a b)
    (hplaces : ∀ call ∈ calls, ¬ Places call)
    (htrue : ∀ fill cash at_, .recover fill cash at_ ∈ calls → some (amount fill) = some cash) :
    FlagsAgree (∃ call ∈ calls, Adopts call) (a.PricedLast calls) (a.run calls).val
      (b.run (knownCalls (fun fill => some (amount fill)) calls)).val := by
  induction calls using List.reverseRecOn with
  | nil =>
    have hadopts : (∃ call ∈ ([] : List BooksCall), Adopts call) ↔ False := by simp
    rw [hadopts, iff_false_intro a.not_pricedLast_nil]
    exact h
  | append_singleton calls call ih =>
    have hprefix := ih (fun c hc => hplaces c (List.mem_append_left _ hc))
      (fun fill cash at_ hmem => htrue fill cash at_ (List.mem_append_left _ hmem))
    have hlate' := hlate.run calls (fun c hc => hplaces c (List.mem_append_left _ hc))
      (fun fill cash at_ hmem => htrue fill cash at_ (List.mem_append_left _ hmem)) (False.elim ·)
    have hstep := hprefix.step hlate'
      (hplaces call (List.mem_append_right _ (List.mem_singleton_self _)))
    rw [run_append, knownCalls_concat, run_append, val_bind, val_bind, run_singleton,
      pricedLast_concat]
    have hadopts : (∃ c ∈ calls ++ [call], Adopts c) ↔ (∃ c ∈ calls, Adopts c) ∨ Adopts call := by
      simp [or_and_right, exists_or]
    rw [hadopts]
    exact hstep

/-! ## The two runs agree -/

/-- What two sets of books say of the account: the same but for what it is worth
where some cash saturated. -/
structure Agree (clean : Prop) (a b : LiveBooks) : Prop where
  realized : a.kernel.state.realized = b.kernel.state.realized
  funding : a.kernel.state.funding = b.kernel.state.funding
  legs : a.legs = b.legs
  fees : clean → a.kernel.state.fees = b.kernel.state.fees
  equity : clean → a.equity = b.equity

/-- Books that learned late agree once nothing is owed. -/
theorem Late.agree (h : Late amountOf clean a b)
    (hpriced : ∀ fill ∈ a.unpricedFills, amountOf fill = none) : Agree clean a b := by
  have hholdings : a.kernel.state.holdings = b.kernel.state.holdings :=
    congrArg Traded.holdings h.traded
  have hfees : clean → a.kernel.state.fees = b.kernel.state.fees := by
    intro hclean
    have hsum := h.fees hclean
    rw [owed_eq_zero hpriced, add_zero] at hsum
    exact Int64.toInt_inj.mp hsum
  refine ⟨congrArg Traded.realized h.traded, congrArg Traded.funding h.traded, ?_, hfees, ?_⟩
  · have hholding := State.holding_congr hholdings
    simp only [legs, Kernel.summary, hholding]
  · intro hclean
    have hbalance := State.balance_eq_of_residue (h.residue hclean) h.traded (hfees hclean)
    simp only [equity, Kernel.summary, State.equity, State.unrealized, hbalance, hholdings]

section New

variable (instrument : InstrumentId) (contract : Contract) (table : TierTable) (balance : Cash)
  (mode : PositionMode)

theorem late_new (amountOf : Fill → Option Cash) (clean : Prop) :
    Late amountOf clean (new instrument contract table balance mode)
      (new instrument contract table balance mode) where
  venue := ⟨rfl, rfl⟩
  instrument := rfl
  seen := rfl
  traded := rfl
  residue _ := rfl
  fees _ := rfl

theorem flagsAgree_new : FlagsAgree False False (new instrument contract table balance mode)
    (new instrument contract table balance mode) :=
  ⟨⟨nofun, fun h => h.elim nofun (absurd rfl)⟩,
    ⟨nofun, fun h => h.elim (absurd rfl) (False.elim ·.1)⟩,
    ⟨nofun, False.elim⟩, False.elim⟩

variable {instrument contract table balance mode}

/-- **A run of new books agrees with the run that knew**, as far as commissions
are recovered. -/
theorem agree_knownCalls (calls : List BooksCall) (hplaces : ∀ call ∈ calls, ¬ Places call)
    (htrue : ∀ fill amount at_, .recover fill amount at_ ∈ calls → amountOf fill = some amount)
    (hlater : RecoveredLater amountOf calls) {clean : Prop}
    (hfree : clean →
      ((new instrument contract table balance mode).run calls).Free .cash ∧
        ((new instrument contract table balance mode).run (knownCalls amountOf calls)).Free .cash) :
    Agree clean ((new instrument contract table balance mode).run calls).val
      ((new instrument contract table balance mode).run (knownCalls amountOf calls)).val := by
  have hlate := (late_new instrument contract table balance mode amountOf clean).run calls hplaces
    htrue hfree
  exact hlate.agree (amountOf_unpriced calls (pending_new instrument contract table balance mode)
    nofun hlater)

end New

end LiveBooks
