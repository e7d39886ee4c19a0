/-
# The two readers of a journal

`Belief` and the ledger each fold the records of a journal into a position.  The two read
an execution alike.  An adopted leg the ledger takes for short by its name or by its sign,
`Belief` by its name alone; so they agree exactly if no leg that is not named short was
adopted with a negative quantity (`readers_agree_iff`).
-/
import OpenQuanter.Belief
import OpenQuanter.Postings

namespace Live

/-! ## What each reads -/

/-- What the ledger reads of a record. -/
def Record.forLedger : Record → LiveRecord
  | .sessionStart _ symbol priceScale qtyScale => .sessionStart symbol priceScale qtyScale
  | .tick at_ seen last bid ask volume => .tick at_ seen last bid ask volume
  | .fill _ _ _ _ _ _ _ => .legacyFill
  | .reconciled at_ legs => .reconciled at_ legs
  | .funding at_ settledMs _ _ venue _ _ => .funding at_ settledMs venue
  | .fundingEvidence at_ settledMs _ _ venue _ _ lines =>
    .fundingEvidence at_ settledMs venue lines
  | .fundingRecovered at_ sinceMs throughMs lines => .fundingRecovered at_ sinceMs throughMs lines
  | .fundingState at_ obligations => .fundingState at_ obligations
  | .feeEvidence at_ sourceMs made amount => .feeEvidence at_ sourceMs made amount
  | .execution _ made fee => .execution made fee
  | .ledgerStart _ instrumentId instrument tickCash balance mode =>
    .ledgerStart instrumentId instrument.toInstrument tickCash balance mode
  | .submitted .. | .outcome .. | .cancelled .. | .refused .. | .waiting .. | .operator .. => .other

end Live

namespace Ledger

open Live (Leg LegName Belief)

namespace Posting

/-- The move `Belief` reads in a posting: an adopted leg is short by its name. -/
def believed (mode : PositionMode) : Posting → LotMove
  | .adopted leg =>
    if eqIgnoreAsciiCase leg.leg "SHORT" then ⟨true, -|leg.qty.toInt|⟩
    else ⟨false, |leg.qty.toInt|⟩
  | .executed fill => ⟨fill.onShort mode, fill.signedLots⟩

/-- The name of an adopted leg goes with its sign: one that is not short is not negative. -/
def Named : Posting → Prop
  | .adopted leg => eqIgnoreAsciiCase leg.leg "SHORT" ∨ 0 ≤ leg.qty
  | .executed _ => True

instance : (p : Posting) → Decidable p.Named
  | .adopted leg => inferInstanceAs (Decidable (_ = true ∨ 0 ≤ leg.qty))
  | .executed _ => inferInstanceAs (Decidable True)

/-- The lots by which `Belief` reads a leg too high on each side of zero. -/
def misread : Posting → Int
  | .adopted leg => if eqIgnoreAsciiCase leg.leg "SHORT" ∨ 0 ≤ leg.qty then 0 else |leg.qty.toInt|
  | .executed _ => 0

variable {mode : PositionMode}

/-- The side the ledger takes an adopted leg for. -/
theorem sign_legSide (leg : AdoptedLeg) :
    (Replay.legSide leg).sign.toInt =
      if eqIgnoreAsciiCase leg.leg "SHORT" ∨ leg.qty < 0 then -1 else 1 := by
  unfold Replay.legSide
  by_cases hname : eqIgnoreAsciiCase leg.leg "SHORT"
  · simp only [hname, Bool.true_or, if_true, true_or]
    rfl
  · by_cases hsign : leg.qty < 0
    · simp only [hname, hsign, decide_true, Bool.or_true, if_true, or_true]
      rfl
    · simp [hname, hsign]
      rfl

theorem misread_nonneg (p : Posting) : 0 ≤ p.misread := by
  cases p with
  | adopted leg =>
    simp only [misread]
    split
    · exact le_refl 0
    · exact abs_nonneg _
  | executed fill => exact le_refl 0

/-- What is misread is a leg that goes by its sign. -/
theorem misread_eq_zero_iff (p : Posting) : p.misread = 0 ↔ p.Named := by
  cases p with
  | adopted leg =>
    simp only [misread, Named]
    split
    · rename_i hnamed
      exact iff_of_true rfl hnamed
    · rename_i hnamed
      refine iff_of_false (fun hzero => hnamed (.inr ?_)) hnamed
      rw [toInt_eq_zero.mp (abs_eq_zero.mp hzero)]
      exact Int64.le_refl 0
  | executed fill => exact iff_of_true rfl trivial

/-- **The two readings** of a posting: those of a leg that goes by its sign differ by twice
its lots. -/
theorem lots_believed (p : Posting) :
    (p.believed mode).lots = (p.booked mode).lots + 2 * p.misread := by
  cases p with
  | executed fill => simp [believed, booked, misread]
  | adopted leg =>
    simp only [believed, booked, misread, sign_legSide]
    by_cases hname : eqIgnoreAsciiCase leg.leg "SHORT"
    · simp [hname]
    · by_cases hsign : leg.qty < 0
      · have hnot : ¬ 0 ≤ leg.qty := Int64.not_le.mpr hsign
        simp only [hname, hsign, hnot, or_true, or_false, if_true, if_false, Bool.false_eq_true]
        ring
      · have hle : 0 ≤ leg.qty := Int64.not_lt.mp hsign
        simp [hname, hsign, hle]

/-- A leg that is named as it is signed is read alike on a hedged account. -/
theorem believed_of_named {p : Posting} (h : p.Named) : p.believed .hedge = p.booked .hedge := by
  cases p with
  | executed fill => rfl
  | adopted leg =>
    have hlots := @lots_believed .hedge (.adopted leg)
    rw [(misread_eq_zero_iff _).mpr h, mul_zero, add_zero] at hlots
    refine LotMove.ext ?_ hlots
    simp only [believed, booked, Replay.legSide]
    rcases h with hname | hsign
    · simp [hname]
    · have hnot : ¬ leg.qty < 0 := Int64.not_lt.mpr hsign
      by_cases hname : eqIgnoreAsciiCase leg.leg "SHORT" <;> simp [hname, hnot]

end Posting

/-! ## Over what was posted -/

variable {mode : PositionMode} {posted : List Posting}

theorem net_believed (mode : PositionMode) (posted : List Posting) :
    LotMove.net (posted.map (Posting.believed mode)) =
      LotMove.net (posted.map (Posting.booked mode)) + 2 * (posted.map Posting.misread).sum := by
  induction posted with
  | nil => rfl
  | cons p posted ih =>
    simp only [LotMove.net, List.map_cons, List.sum_cons] at ih ⊢
    rw [Posting.lots_believed, ih]
    ring

/-- Nothing is misread exactly if each leg is named as it is signed. -/
theorem sum_misread_eq_zero_iff (posted : List Posting) :
    (posted.map Posting.misread).sum = 0 ↔ ∀ p ∈ posted, p.Named := by
  induction posted with
  | nil => simp
  | cons p posted ih =>
    have hp := p.misread_nonneg
    have hrest : 0 ≤ (posted.map Posting.misread).sum :=
      List.sum_nonneg fun x hx => by
        obtain ⟨q, -, rfl⟩ := List.mem_map.mp hx
        exact q.misread_nonneg
    rw [List.map_cons, List.sum_cons, List.forall_mem_cons, ← ih, ← Posting.misread_eq_zero_iff]
    omega

/-- The sums `Belief` keeps fit, at every point: the net position, and the legs of a hedged
account. -/
structure BelievedFits (mode : PositionMode) (posted : List Posting) : Prop where
  measured : ∀ p ∈ posted, p.Measured
  net : ∀ read, read <+: posted → FitsI64 (LotMove.net (read.map (Posting.believed mode)))
  legs : mode = .hedge → ∀ read, read <+: posted → ∀ short,
    FitsI64 (LotMove.leg short (read.map (Posting.believed mode)))

instance (mode : PositionMode) (posted : List Posting) : Decidable (BelievedFits mode posted) :=
  decidable_of_iff ((∀ p ∈ posted, p.Measured) ∧
      (∀ read ∈ posted.inits, FitsI64 (LotMove.net (read.map (Posting.believed mode)))) ∧
      (mode = .hedge → ∀ read ∈ posted.inits, ∀ short,
        FitsI64 (LotMove.leg short (read.map (Posting.believed mode)))))
    ⟨fun h => ⟨h.1, fun read hread => h.2.1 read ((List.mem_inits _ _).mpr hread),
        fun hhedge read hread => h.2.2 hhedge read ((List.mem_inits _ _).mpr hread)⟩,
      fun h => ⟨h.measured, fun read hread => h.net read ((List.mem_inits _ _).mp hread),
        fun hhedge read hread => h.legs hhedge read ((List.mem_inits _ _).mp hread)⟩⟩

theorem BelievedFits.of_append {more : List Posting} (h : BelievedFits mode (posted ++ more)) :
    BelievedFits mode posted where
  measured p hp := h.measured p (List.mem_append_left _ hp)
  net read hread := h.net read (hread.trans (List.prefix_append _ _))
  legs hhedge read hread := h.legs hhedge read (hread.trans (List.prefix_append _ _))

/-! ## What `Belief` keeps -/

/-- The name of a leg. -/
def legName (short : Bool) : LegName := if short then .short else .long

theorem legName_ne {short : Bool} : legName (!short) ≠ legName short := by
  cases short <;> decide

/-- A leg folded is its lots moved, if they fit. -/
theorem toInt_lots_fold {leg : Leg} {signed : QtyLots} (h : FitsI64 (leg.lots.toInt + signed.toInt))
    (ticks : PriceTicks) : (leg.fold signed ticks).lots.toInt = leg.lots.toInt + signed.toInt := by
  have hsum : (satAdd leg.lots signed).toInt = leg.lots.toInt + signed.toInt :=
    toInt_ofIntClamp_of_fits h
  by_cases hzero : signed = 0
  · rw [hzero, Leg.fold_zero, Int64.toInt_zero, add_zero]
  · unfold Leg.fold
    simp only [if_neg hzero]
    split_ifs <;> exact hsum

/-- The scan believes what was posted: the net position, and the legs of a hedged account. -/
structure Believes (mode : PositionMode) (posted : List Posting) (s : Belief.Scan) : Prop where
  net : s.net.lots.toInt = LotMove.net (posted.map (Posting.believed mode))
  legs : mode = .hedge → ∀ short,
    (s.legs.held (legName short)).lots.toInt =
      LotMove.leg short (posted.map (Posting.believed mode))
  noNet : mode = .hedge → s.legs .net = none

/-- Lots folded into the net position and a leg. -/
theorem Believes.fold {s s' : Belief.Scan} (h : Believes mode posted s) {p : Posting}
    (hfits : BelievedFits mode (posted ++ [p])) {signed : QtyLots} {ticks : PriceTicks}
    {name : LegName} (hlots : (p.believed mode).lots = signed.toInt)
    (hname : mode = .hedge → name = legName (p.believed mode).short)
    (hnet : s'.net = s.net.fold signed ticks) (hlegs : s'.legs = s.legs.fold name signed ticks) :
    Believes mode (posted ++ [p]) s' := by
  have hall := hfits.net _ (List.prefix_refl _)
  rw [List.map_append, List.map_singleton, LotMove.net_concat, ← h.net, hlots] at hall
  refine ⟨?_, fun hhedge short => ?_, fun hhedge => ?_⟩
  · rw [hnet, toInt_lots_fold hall, List.map_append, List.map_singleton, LotMove.net_concat, h.net,
      hlots]
  · rw [hlegs, hname hhedge, List.map_append, List.map_singleton, LotMove.leg_concat]
    by_cases hshort : (p.believed mode).short = short
    · have hleg := hfits.legs hhedge _ (List.prefix_refl _) short
      rw [List.map_append, List.map_singleton, LotMove.leg_concat, if_pos hshort,
        ← h.legs hhedge, hlots] at hleg
      rw [if_pos hshort, hshort, Live.Legs.held_fold_self, toInt_lots_fold hleg, h.legs hhedge,
        hlots]
    · obtain rfl : short = !(p.believed mode).short := Bool.eq_not_of_ne (Ne.symm hshort)
      rw [if_neg hshort, add_zero, Live.Legs.held_fold_of_ne _ legName_ne, h.legs hhedge]
  · rw [hlegs, hname hhedge]
    have hother : LegName.net ≠ legName (p.believed mode).short := by
      cases (p.believed mode).short <;> decide
    rw [Live.Legs.fold, Function.update_of_ne hother]
    exact h.noNet hhedge

open Live (Record)

theorem believes_nothing {s : Belief.Scan} (hnet : s.net = .flat) (hlegs : s.legs = fun _ => none) :
    Believes mode [] s := by
  refine ⟨by rw [hnet]; rfl, fun _ short => ?_, fun _ => by rw [hlegs]⟩
  rw [hlegs]
  rfl

/-- Adopted legs are folded one after the other. -/
theorem believes_adopted {legs : List AdoptedLeg} {s : Belief.Scan} (h : Believes mode [] s)
    (hfits : BelievedFits mode (legs.map .adopted)) :
    Believes mode (legs.map .adopted) (legs.foldl Belief.Scan.adopt s) := by
  induction legs using List.reverseRecOn with
  | nil => exact h
  | append_singleton legs leg ih =>
    rw [List.map_append, List.map_singleton] at hfits ⊢
    rw [List.foldl_append, List.foldl_cons, List.foldl_nil]
    have hsofar := ih hfits.of_append
    have hmeasured : |leg.qty.toInt| < 2 ^ 63 := hfits.measured (.adopted leg) (by simp)
    have hsize := toInt_satAbs_of_lt hmeasured
    have hneg : (-satAbs leg.qty).toInt = -|leg.qty.toInt| := by
      rw [Int64.toInt_neg, hsize, Int.bmod_eq_of_le]
      · omega
      · have := abs_nonneg leg.qty.toInt
        omega
    by_cases hname : eqIgnoreAsciiCase leg.leg "SHORT"
    · refine @Believes.fold _ _ _ _ hsofar _ hfits (-satAbs leg.qty) leg.entry .short
        ?_ (fun _ => ?_) ?_ ?_
      · simp only [Posting.believed, hname, if_true]
        exact hneg.symm
      · simp only [Posting.believed, hname, if_true]
        rfl
      · simp only [Belief.Scan.adopt, hname, if_true]
      · simp only [Belief.Scan.adopt, hname, if_true]
    · refine @Believes.fold _ _ _ _ hsofar _ hfits (satAbs leg.qty) leg.entry .long
        ?_ (fun _ => ?_) ?_ ?_
      · simp only [Posting.believed, hname, if_false, Bool.false_eq_true]
        exact hsize.symm
      · simp only [Posting.believed, hname, if_false, Bool.false_eq_true]
        rfl
      · simp only [Belief.Scan.adopt, hname, if_false, Bool.false_eq_true]
      · simp only [Belief.Scan.adopt, hname, if_false, Bool.false_eq_true]

/-- The scan of a session and its replay, once the same records were read. -/
structure Alike (posted : List Posting) (st : Replay) (s : Belief.Scan) : Prop where
  mode : s.mode = if st.books.isSome then some st.mode else none
  believes : st.adopted = true → BelievedFits st.mode posted → Believes st.mode posted s

variable {session : Session} {recovered : List (Nat × Cash)} {st st' : Replay}
  {s s' : Belief.Scan}

theorem Alike.quiet (h : Alike posted st s) (hquiet : Quiet st st') (hmode : s'.mode = s.mode)
    (hnet : s'.net = s.net) (hlegs : s'.legs = s.legs) : Alike posted st' s' := by
  refine ⟨?_, fun ha hfits => ?_⟩
  · rw [hmode, h.mode, hquiet.mode, hquiet.opened]
  · rw [hquiet.adopted] at ha
    rw [hquiet.mode] at hfits ⊢
    have hsame := h.believes ha hfits
    refine ⟨?_, ?_, ?_⟩
    · rw [hnet]
      exact hsame.net
    · rw [hlegs]
      exact hsame.legs
    · rw [hlegs]
      exact hsame.noNet

/-- The mode is declared to both. -/
theorem Alike.opening (hposted : Posted posted st) {instrumentId : InstrumentId}
    {instrument : Instrument} {tickCash : Int64} {balance : Cash} {mode : PositionMode}
    (hstep : st.onLedgerStart session instrumentId instrument tickCash balance mode = .ok st')
    (hmode : s'.mode = some mode) : Alike posted st' s' := by
  obtain ⟨hnone, rfl⟩ := Replay.onLedgerStart_ok hstep
  refine ⟨hmode, fun ha _ => ?_⟩
  have hadopted : st.adopted = true := ha
  exact absurd (hadopted.symm.trans (hposted.closed hnone)) (by decide)

/-- Both take the position over. -/
theorem Alike.reconciled (hposted : Posted posted st) (h : Alike posted st s) {at_ : Nanos}
    {legs : List AdoptedLeg} (hstep : st.onReconciled session at_ legs = .ok st') :
    Alike (posted ++ legs.map .adopted) st' (s.reconcile at_ legs) := by
  have hnothing := hposted.unadopted (onReconciled_checked hstep)
  obtain ⟨b, b', hbooks, -, rfl⟩ := Replay.onReconciled_ok hstep
  subst hnothing
  have hkept : ∀ (legs : List AdoptedLeg) (s : Belief.Scan),
      (legs.foldl Belief.Scan.adopt s).mode = s.mode := by
    intro legs
    induction legs with
    | nil => exact fun _ => rfl
    | cons leg legs ih => exact fun s => ih (s.adopt leg)
  refine ⟨?_, fun _ hfits => ?_⟩
  · rw [Belief.Scan.reconcile, hkept]
    show s.mode = some st.mode
    rw [h.mode, hbooks]
    rfl
  · exact believes_adopted (believes_nothing rfl rfl) hfits

/-- Both take an execution for the same leg. -/
theorem executionName_eq (mode : PositionMode) (fill : Fill) :
    Belief.Scan.executionName (some mode) fill =
      some (match mode with | .oneWay => .net | .hedge => legName (fill.onShort .hedge)) := by
  cases mode with
  | oneWay => rfl
  | hedge =>
    unfold Belief.Scan.executionName Fill.onShort State.hedgeShort
    cases fill.side <;> cases fill.offset <;> rfl

/-- The lots of an execution as they are folded. -/
theorem toInt_signed {fill : Fill} (hqty : 0 < fill.qty) :
    (if fill.side = .buy then fill.qty else -fill.qty).toInt = fill.signedLots := by
  unfold Fill.signedLots
  cases fill.side with
  | buy => exact (one_mul _).symm
  | sell =>
    have hfits := fitsI64_toInt fill.qty
    have hpos : 0 < fill.qty.toInt := lt_iff_toInt.mp hqty
    show (-fill.qty).toInt = -1 * fill.qty.toInt
    rw [Int64.toInt_neg, Int.bmod_eq_of_le]
    · ring
    · have := hfits.2
      omega
    · omega

/-- Both book an execution. -/
theorem Alike.execution (h : Alike posted st s) {index : Nat} {clientId : String} {fill : Fill}
    {fee : Fee} (hstep : st.onExecution recovered index fill fee = .ok st') :
    Alike (posted ++ [.executed fill]) st' (s.book (s.executionBooking clientId fill)) := by
  obtain ⟨hadopted, -, hqty⟩ := onExecution_checked hstep
  obtain ⟨b, b', outputs, hbooks, -, rfl⟩ := Replay.onExecution_ok hstep
  have hmode : s.mode = some st.mode := by
    rw [h.mode, hbooks]
    rfl
  have hbooking : s.executionBooking clientId fill = some ⟨clientId, fill.qty,
      if fill.side = .buy then fill.qty else -fill.qty, fill.price,
      match st.mode with | .oneWay => .net | .hedge => legName (fill.onShort .hedge), s.legs⟩ := by
    unfold Belief.Scan.executionBooking
    rw [hmode, executionName_eq]
    rfl
  rw [hbooking]
  refine ⟨hmode, fun _ hfits => ?_⟩
  refine (h.believes hadopted hfits.of_append).fold hfits (toInt_signed hqty).symm
    (fun hhedge => ?_)
    rfl rfl
  rw [show st.mode = .hedge from hhedge]
  rfl

/-- **One record** of a session is read alike. -/
theorem Alike.step (hposted : Posted posted st) (h : Alike posted st s) {r : Record × Nat}
    (hstart : ∀ issued symbol priceScale qtyScale,
      r.1 ≠ .sessionStart issued symbol priceScale qtyScale)
    (hstep : Replay.step session recovered st (r.1.forLedger, r.2) = .ok st') :
    Alike (posted ++ postings r.1.forLedger) st' (s.step (some r.1)) := by
  obtain ⟨record, index⟩ := r
  have hother : ∀ {s'}, ¬ Moving record.forLedger → s'.mode = s.mode → s'.net = s.net →
      s'.legs = s.legs → Alike (posted ++ postings record.forLedger) st' s' := by
    intro s' hmoving hmode hnet hlegs
    obtain ⟨hquiet, hnone⟩ := quiet_step hmoving hstep
    rw [hnone, List.append_nil]
    exact h.quiet hquiet hmode hnet hlegs
  cases record with
  | sessionStart issued symbol priceScale qtyScale => exact absurd rfl (hstart _ _ _ _)
  | ledgerStart at_ instrumentId instrument tickCash balance mode =>
    exact (List.append_nil posted).symm ▸ Alike.opening hposted hstep rfl
  | reconciled at_ legs => exact h.reconciled hposted hstep
  | execution clientId made fee => exact h.execution hstep
  | fill at_ clientId tradeId qty price order side => cases hstep
  | outcome at_ clientId tag detail =>
    cases tag <;> exact hother not_false rfl rfl rfl
  | _ => exact hother not_false rfl rfl rfl

/-! ## Over a journal -/

/-- What a session of some records posts. -/
def posts (records : List Record) : List Posting :=
  records.flatMap fun r => postings r.forLedger

/-- Both readings of a session the ledger accepts. -/
theorem alike_of_accepted {records : List Record}
    (hstart : ∀ r ∈ records, ∀ issued symbol priceScale qtyScale,
      r ≠ .sessionStart issued symbol priceScale qtyScale)
    {s : Belief.Scan} (hs : s.mode = none)
    (h : (records.map Record.forLedger).zipIdx.foldlM (Replay.step session recovered) Replay.start =
      .ok st) :
    Posted (posts records) st ∧
      Alike (posts records) st (records.foldl (fun s r => s.step (some r)) s) := by
  rw [List.zipIdx_map, List.foldlM_map] at h
  have hread : ∀ done : List (Record × Nat), posts (done.map Prod.fst) =
      done.flatMap fun r => postings r.1.forLedger := fun done => List.flatMap_map _ _ _
  have hall := Except.foldlM_history (I := fun (done : List (Record × Nat)) (st : Replay) =>
    Posted (posts (done.map Prod.fst)) st ∧ Alike (posts (done.map Prod.fst)) st
      ((done.map Prod.fst).foldl (fun s r => s.step (some r)) s)) ?_ ?_ h
  · rwa [List.zipIdx_map_fst] at hall
  · rintro done r post st₁ st₂ hsplit ⟨hposted, halike⟩ hstep
    have hmem : r.1 ∈ records := by
      have hfst := congrArg (List.map Prod.fst) hsplit
      rw [List.zipIdx_map_fst] at hfst
      rw [hfst]
      simp
    have hmore : posts ((done ++ [r]).map Prod.fst) =
        posts (done.map Prod.fst) ++ postings r.1.forLedger := by simp [posts]
    rw [hmore, List.map_append, List.foldl_append]
    exact ⟨hposted.step hstep, halike.step hposted (hstart r.1 hmem) hstep⟩
  · exact ⟨posted_start, hs, fun h => (nomatch h)⟩

theorem not_start_of_latestSession_none {records : List LiveRecord}
    (h : latestSession records = none) : ∀ r ∈ records, ∀ symbol priceScale qtyScale,
      r ≠ .sessionStart symbol priceScale qtyScale := by
  induction records with
  | nil => exact fun r hr => nomatch hr
  | cons record rest ih =>
    unfold latestSession at h
    split at h
    · cases h
    · cases h
    · rename_i hnone hother
      rintro r hr symbol priceScale qtyScale rfl
      rcases List.mem_cons.mp hr with hr | hr
      · exact hother symbol priceScale qtyScale hr.symm
      · exact ih hnone _ hr _ _ _ rfl

/-- Where the last session of a journal starts. -/
theorem split_of_latestSession {records : List Record} {rest : List LiveRecord}
    (h : latestSession (records.map Record.forLedger) = some (session, rest)) :
    ∃ before issued symbol priceScale qtyScale after,
      records = before ++ .sessionStart issued symbol priceScale qtyScale :: after ∧
      rest = after.map Record.forLedger ∧
      ∀ r ∈ after, ∀ issued symbol priceScale qtyScale,
        r ≠ .sessionStart issued symbol priceScale qtyScale := by
  induction records with
  | nil => cases h
  | cons record records ih =>
    rw [List.map_cons] at h
    cases hlater : latestSession (records.map Record.forLedger) with
    | some later =>
      unfold latestSession at h
      rw [hlater] at h
      obtain rfl : later = (session, rest) := Option.some.inj h
      obtain ⟨before, issued, symbol, priceScale, qtyScale, after, rfl, hrest, hafter⟩ := ih hlater
      exact ⟨record :: before, issued, symbol, priceScale, qtyScale, after, rfl, hrest, hafter⟩
    | none =>
      have hafter : ∀ r ∈ records, ∀ issued symbol priceScale qtyScale,
          r ≠ .sessionStart issued symbol priceScale qtyScale := by
        rintro r hr issued symbol priceScale qtyScale rfl
        exact not_start_of_latestSession_none hlater _ (List.mem_map_of_mem hr) _ _ _ rfl
      cases record with
      | sessionStart issued symbol priceScale qtyScale =>
        unfold latestSession at h
        rw [hlater] at h
        obtain ⟨-, rfl⟩ := Prod.mk.inj (Option.some.inj h)
        exact ⟨[], issued, symbol, priceScale, qtyScale, records, rfl, rfl, hafter⟩
      | _ =>
        unfold latestSession at h
        rw [hlater] at h
        cases h

/-- What the last session of a journal posts. -/
def sessionPosts (records : List Record) : List Posting :=
  ((latestSession (records.map Record.forLedger)).map fun p => p.2.flatMap postings).getD []

end Ledger

namespace Live

open Ledger

/-- The lots reported of a leg, none if it is not reported. -/
def Belief.lotsOf (b : Belief) (name : String) : Int :=
  ((b.legs.lookup name).map fun leg => leg.1.toInt).getD 0

/-- The belief and the report agree on the position: on the net one, and on a hedged account
leg by leg. -/
structure Belief.Agrees (b : Belief) (report : LedgerReport) : Prop where
  net : b.positionLots.toInt = (report.legs.map fun leg => leg.2.1.toInt).sum
  legs : report.mode = .hedge → ∀ leg ∈ report.legs, b.lotsOf leg.1 = leg.2.1.toInt

/-- A hedged account is reported by its legs. -/
theorem lotsOf_reported {legs : Legs} (hnone : legs .net = none) (b : Belief)
    (hlegs : b.legs = Belief.reported legs) :
    b.lotsOf "LONG" = (legs.held .long).lots.toInt ∧
      b.lotsOf "SHORT" = (legs.held .short).lots.toInt := by
  have hnet : (legs.held .net).lots = 0 := by
    rw [Legs.held, hnone]
    rfl
  unfold Belief.lotsOf
  rw [hlegs, Belief.reported_eq]
  by_cases hlong : (legs.held .long).lots = 0 <;> by_cases hshort : (legs.held .short).lots = 0
  · simp [hnet, hlong, hshort]
  · simp [hnet, hlong, hshort, Belief.reportedName, List.lookup]
  · simp [hnet, hlong, hshort, Belief.reportedName, List.lookup]
  · simp [hnet, hlong, hshort, Belief.reportedName, List.lookup]

/-- The legs a report tells are those the books hold. -/
theorem legs_of_holds {st : Replay} {b : LiveBooks} {instrument : InstrumentId}
    {moves : List LotMove} (h : b.Holds st.mode instrument moves)
    (hone : st.mode = .oneWay → LotMove.leg true moves = 0) :
    ((st.legs b).map fun leg => leg.2.1.toInt).sum = LotMove.net moves ∧
      (st.mode = .hedge → ∃ long short, st.legs b = [long, short] ∧ long.1 = "LONG" ∧
        short.1 = "SHORT" ∧ long.2.1.toInt = LotMove.leg false moves ∧
        short.2.1.toInt = LotMove.leg true moves) := by
  obtain ⟨x, hx, -, hlegs⟩ := h.holding
  have hlone : b.kernel.state.holding = x := by
    unfold State.holding
    simp only [hx]
    rfl
  have hlong : b.kernel.summary.qty.toInt = LotMove.leg false moves := by
    rw [← hlegs, ← hlone]
    rfl
  have hshort : b.kernel.summary.shortQty.toInt = LotMove.leg true moves := by
    rw [← hlegs, ← hlone]
    rfl
  rw [← LotMove.leg_add_leg]
  unfold Replay.legs
  cases hmode : st.mode with
  | oneWay =>
    refine ⟨?_, fun h => (nomatch h)⟩
    rw [hone hmode, add_zero, ← hlong]
    simp
  | hedge =>
    refine ⟨?_, fun _ => ⟨_, _, rfl, rfl, rfl, hlong, hshort⟩⟩
    rw [← hlong, ← hshort]
    simp

/-- A one-way account has no short leg. -/
theorem leg_booked_oneWay (posted : List Posting) :
    LotMove.leg true (posted.map (Posting.booked .oneWay)) = 0 := by
  induction posted using List.reverseRecOn with
  | nil => rfl
  | append_singleton posted p ih =>
    rw [leg_booked_concat, ih, zero_add]
    cases p <;> rfl

/-- What both readers come to. -/
theorem read_of_accepted {frames : List Journal.Frame} {records : List Record}
    {report : LedgerReport}
    (hframes : (frames.map fun f => Record.decode f.kind f.payload) = records.map some)
    (hreport : replayRecords (records.map Record.forLedger) = .ok report) :
    ∃ st b, st.books = some b ∧ st.adopted = true ∧ report.mode = st.mode ∧
      report.legs = st.legs b ∧ Posted (sessionPosts records) st ∧
      Alike (sessionPosts records) st (Belief.scan frames) := by
  have hscan : Belief.scan frames = records.foldl (fun s r => s.step (some r)) {} := by
    have hdecoded : Belief.scan frames = (frames.map fun f =>
        Record.decode f.kind f.payload).foldl Belief.Scan.step {} := by
      rw [List.foldl_map]
      rfl
    rw [hdecoded, hframes, List.foldl_map]
  cases hlatest : latestSession (records.map Record.forLedger) with
  | none =>
    unfold replayRecords at hreport
    rw [hlatest] at hreport
    cases hreport
  | some p =>
    obtain ⟨session, rest⟩ := p
    unfold replayRecords at hreport
    rw [hlatest] at hreport
    simp only at hreport
    rw [Except.bind_eq_ok] at hreport
    obtain ⟨recovered, -, hreport⟩ := hreport
    rw [Except.bind_eq_ok] at hreport
    obtain ⟨st, hfold, hreport⟩ := hreport
    have hposts : sessionPosts records = rest.flatMap postings := by
      rw [sessionPosts, hlatest]
      rfl
    obtain ⟨before, issued, symbol, priceScale, qtyScale, after, hsplit, rfl, hafter⟩ :=
      split_of_latestSession hlatest
    obtain ⟨hposted, halike⟩ := alike_of_accepted hafter
      (s := (before.foldl (fun (s : Belief.Scan) r => s.step (some r)) {}).step
        (some (.sessionStart issued symbol priceScale qtyScale))) rfl hfold
    have hread : sessionPosts records = posts after := by
      rw [hposts, List.flatMap_map]
      rfl
    unfold Replay.report at hreport
    rw [Except.bind_eq_ok] at hreport
    obtain ⟨b, hbooks, hreport⟩ := hreport
    rw [Except.require_bind_eq_ok] at hreport
    obtain rfl := Except.pure_eq_ok.mp hreport.2
    rw [hread, hscan, hsplit, List.foldl_append, List.foldl_cons]
    exact ⟨st, b, Replay.booksOr_ok hbooks, hreport.1, rfl, rfl, hposted, halike⟩

/-- **The two readers agree** on the position exactly if each leg adopted is named as it is
signed. -/
theorem readers_agree_iff {frames : List Journal.Frame} {records : List Record}
    {report : LedgerReport}
    (hframes : (frames.map fun f => Record.decode f.kind f.payload) = records.map some)
    (hreport : replayRecords (records.map Record.forLedger) = .ok report)
    (hbooked : BookedFits report.mode (sessionPosts records))
    (hbelieved : BelievedFits report.mode (sessionPosts records))
    (hcovered : report.mode = .hedge → Covered (sessionPosts records)) :
    (Belief.fromJournal frames).Agrees report ↔ ∀ p ∈ sessionPosts records, p.Named := by
  obtain ⟨st, b, hbooks, hadopted, hmode, hlegs, hposted, halike⟩ :=
    read_of_accepted hframes hreport
  rw [hmode] at hbooked hbelieved hcovered
  generalize sessionPosts records = posted at *
  have hholds := hposted.holds b hbooks hbooked hcovered
  obtain ⟨hnet, hlegnet, hnone⟩ := halike.believes hadopted hbelieved
  obtain ⟨hsum, hhedged⟩ := legs_of_holds hholds fun hone => by
    rw [hone]
    exact leg_booked_oneWay posted
  have hposition : (Belief.fromJournal frames).positionLots.toInt =
      LotMove.net (posted.map (Posting.booked st.mode)) + 2 * (posted.map Posting.misread).sum := by
    rw [← net_believed]
    exact hnet
  constructor
  · intro hagrees
    have hsame := hagrees.net
    rw [hlegs, hsum, hposition] at hsame
    exact (sum_misread_eq_zero_iff posted).mp (by omega)
  · intro hnamed
    refine ⟨?_, fun hhedge leg hleg => ?_⟩
    · rw [hlegs, hsum, hposition, (sum_misread_eq_zero_iff posted).mpr hnamed, mul_zero, add_zero]
    · rw [hmode] at hhedge
      obtain ⟨long, short, heq, hlong, hshort, hlongLots, hshortLots⟩ := hhedged hhedge
      have hread : posted.map (Posting.believed st.mode) = posted.map (Posting.booked st.mode) := by
        rw [hhedge]
        exact List.map_congr_left fun p hp => Posting.believed_of_named (hnamed p hp)
      obtain ⟨hreadLong, hreadShort⟩ := lotsOf_reported (hnone hhedge)
        (Belief.fromJournal frames) rfl
      rw [hlegs, heq, List.mem_cons, List.mem_singleton] at hleg
      rcases hleg with rfl | rfl
      · rw [hlong, hreadLong, hlongLots, ← hread]
        exact hlegnet hhedge false
      · rw [hshort, hreadShort, hshortLots, ← hread]
        exact hlegnet hhedge true

/-- A ledger of some mode starts from some legs, and then fills are executed. -/
def sessionOf (mode : PositionMode) (legs : List AdoptedLeg) (fills : List Fill) : List Record :=
  [.sessionStart "oq17" "BTCUSDT" 2 3,
    .ledgerStart 5 7 ⟨⟨2, 3, 100_000_000⟩, 10, 1, 0⟩ 1000 100_000 mode,
    .reconciled 6 legs] ++ fills.map fun fill => .execution "oq17-1" fill (.reported 0)

/-- A hedged account holds both legs, and part of the long one is sold. -/
def hedgedSession : List Record :=
  sessionOf .hedge [⟨"BTCUSDT", "LONG", 10, 100⟩, ⟨"BTCUSDT", "SHORT", -4, 105⟩]
    [⟨⟨7, 7⟩, 7, 1, 1, .sell, .closing, 110, 3, .taker⟩]

/-- A one-way account is short ten lots, as a venue says it of its one leg. -/
def shortSession : List Record := sessionOf .oneWay [⟨"BTCUSDT", "BOTH", -10, 100⟩] []

theorem readers_agree_iff_hedged : ∃ report,
    replayRecords (hedgedSession.map Record.forLedger) = .ok report ∧ report.mode = .hedge ∧
      ((Belief.fromJournal (Belief.framesOf hedgedSession)).Agrees report ↔
        ∀ p ∈ sessionPosts hedgedSession, p.Named) := by
  have hread : (replayRecords (hedgedSession.map Record.forLedger)).toOption.map LedgerReport.mode =
      some .hedge := by decide +kernel
  obtain ⟨report, hreport, hmode⟩ := Except.exists_ok_of_map hread
  refine ⟨report, hreport, hmode, readers_agree_iff (by decide +kernel) hreport ?_ ?_ fun _ => ?_⟩
  · rw [hmode]
    decide +kernel
  · rw [hmode]
    decide +kernel
  · refine History.always_snoc (h := (sessionPosts hedgedSession).take 2)
      (History.always_snoc (h := (sessionPosts hedgedSession).take 1)
        (History.always_snoc History.always_nil ?_) ?_) ?_
    · exact fun fill hfill => nomatch hfill
    · exact fun fill hfill => nomatch hfill
    · rintro fill hfill -
      obtain rfl := Posting.executed.inj hfill
      decide +kernel

/-- A short position that was adopted under no leg's name is believed long. -/
theorem readers_disagree : ∃ report,
    ((Belief.framesOf shortSession).map fun f => Record.decode f.kind f.payload) =
      shortSession.map some ∧
    replayRecords (shortSession.map Record.forLedger) = .ok report ∧
    BookedFits report.mode (sessionPosts shortSession) ∧
    BelievedFits report.mode (sessionPosts shortSession) ∧
    (report.mode = .hedge → Covered (sessionPosts shortSession)) ∧
    report.legs = [("NET", -10, 100)] ∧
    (Belief.fromJournal (Belief.framesOf shortSession)).positionLots = 10 ∧
    ¬(Belief.fromJournal (Belief.framesOf shortSession)).Agrees report := by
  have hread : (replayRecords (shortSession.map Record.forLedger)).toOption.map
      (fun r => (r.mode, r.legs)) = some (.oneWay, [("NET", -10, 100)]) := by decide +kernel
  obtain ⟨report, hreport, hsome⟩ := Except.exists_ok_of_map hread
  obtain ⟨hmode, hlegs⟩ := Prod.mk.inj hsome
  have hlots : (Belief.fromJournal (Belief.framesOf shortSession)).positionLots = 10 := by
    decide +kernel
  refine ⟨report, by decide +kernel, hreport, ?_, ?_, fun h => ?_, hlegs, hlots, fun h => ?_⟩
  · rw [hmode]
    decide +kernel
  · rw [hmode]
    decide +kernel
  · rw [hmode] at h
    cases h
  · have hnet := h.net
    rw [hlots, hlegs] at hnet
    exact absurd hnet (by decide)

end Live
