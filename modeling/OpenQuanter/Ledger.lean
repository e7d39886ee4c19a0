/-
# Recorded account economics (`replay_records` of `oq-live/src/ledger.rs`)

The latest session of a journal, folded through the same books the live process
keeps.  A record that contradicts what came before it is refused, and with it
the whole journal; so what an accepted journal says about its funding
obligations can be read off the checks (`obligations_persist`).
-/
import OpenQuanter.Checked
import OpenQuanter.LiveBook
import OpenQuanter.Instrument
import OpenQuanter.LiveBooks

/-- `Contract::of`. -/
def Contract.of (i : Instrument) : Option Contract := i.tickCash.map Contract.mk

/-! ## Records -/

/-- An interval no funding schedule was known for. -/
structure ScheduleGap where
  sinceMs : Int64
  untilMs : Option Int64
  deriving DecidableEq, Repr

/-- Durable uncertainty, apart from the funding that was observed. -/
structure FundingObligations where
  pendingMs : List Int64
  scheduleGaps : List ScheduleGap
  problem : Option String
  deriving DecidableEq, Repr

/-- One line of a venue's funding ledger. -/
structure FundingLine where
  id : Int64
  timeMs : Int64
  amount : Cash
  deriving DecidableEq, Repr

/-- One leg of the positions a session starts from. -/
structure AdoptedLeg where
  symbol : String
  leg : String
  qty : Int64
  entry : Int64
  deriving DecidableEq, Repr

/-- What the ledger reads of a `Record` of `oq-live/src/record.rs`; the records it
passes over are `other`. -/
inductive LiveRecord where
  | sessionStart (symbol : String) (priceScale qtyScale : UInt8)
  | ledgerStart (instrumentId : InstrumentId) (instrument : Instrument) (tickCash : Int64)
      (balance : Cash) (mode : PositionMode)
  | reconciled (at_ : Nanos) (legs : List AdoptedLeg)
  | execution (fill : Fill) (fee : Fee)
  | legacyFill
  | funding (at_ : Nanos) (settledMs : Int64) (venue : Cash)
  | fundingEvidence (at_ : Nanos) (settledMs : Int64) (venue : Cash) (lines : List FundingLine)
  | fundingRecovered (at_ : Nanos) (sinceMs throughMs : Int64) (lines : List FundingLine)
  | fundingState (at_ : Nanos) (obligations : FundingObligations)
  | feeEvidence (at_ : Nanos) (sourceMs : Int64) (fill : Fill) (amount : Cash)
  | tick (at_ seen : Nanos) (last bid ask : PriceTicks) (volume : QtyLots)
  | other
  deriving DecidableEq, Repr

/-- A time in milliseconds. -/
def Nanos.toMillis (at_ : Nanos) : Int64 := at_ / 1000000

/-- The latest session in a journal, with uncertainty explicit. -/
structure LedgerReport where
  symbol : String
  mode : PositionMode
  startingBalance : Cash
  recordedBalance : Cash
  realized : Cash
  recordedFees : Cash
  funding : Cash
  executions : Nat
  missingFees : Nat
  recoveredFeeExecutions : Nat
  legs : List (String × QtyLots × PriceTicks)
  fundingCoverage : Bool
  fundingIdentifiedLines : Nat
  fundingUnmodelledLines : Nat
  fundingObligations : Option FundingObligations
  deriving DecidableEq, Repr

namespace Ledger

open Except

/-- What a session is about. -/
structure Session where
  symbol : String
  priceScale : UInt8
  qtyScale : UInt8

/-- The last session of a journal and the records after its start. -/
def latestSession : List LiveRecord → Option (Session × List LiveRecord)
  | [] => none
  | record :: rest =>
    match latestSession rest, record with
    | some session, _ => some session
    | none, .sessionStart symbol priceScale qtyScale =>
      some (⟨symbol, priceScale, qtyScale⟩, rest)
    | none, _ => none

/-! ## Recovered fees -/

/-- The fee of an execution of this fill. -/
def executionFee (fill : Fill) : LiveRecord → Option Fee
  | .execution original fee => if original = fill then some fee else none
  | _ => none

/-- The first execution of a fill, and the fee it was recorded with. -/
def firstExecution (records : List LiveRecord) (fill : Fill) : Option (Nat × Fee) :=
  records.zipIdx.findSome? fun r => (executionFee fill r.1).map (r.2, ·)

/-- Bind one piece of fee evidence to the execution before it that it prices. -/
def bindFee (session : List LiveRecord) (recovered : List (Nat × Cash)) :
    LiveRecord × Nat → Except String (List (Nat × Cash))
  | (.feeEvidence at_ sourceMs fill amount, i) => do
    require (fill.stamp.local_ ≤ at_ ∧ sourceMs ≤ at_.toMillis)
      "fee evidence precedes execution receipt or comes from the future"
    match firstExecution (session.take i) fill with
    | none => .error "fee evidence does not bind a prior complete execution"
    | some (index, fee) => do
      require (fee.observed = .unreadable)
        "fee evidence cannot overwrite an already reported commission"
      require (recovered.lookup index = none) "duplicate fee recovery for one execution"
      pure ((index, amount) :: recovered)
  | _ => pure recovered

/-- The amounts recovered for the executions of a session, by where they are. -/
def recoveredFees (session : List LiveRecord) : Except String (List (Nat × Cash)) :=
  session.zipIdx.foldlM (bindFee session) []

/-! ## Obligations -/

/-- The bounds of a gap, as they can be known at `nowMs`. -/
def ScheduleGap.within (nowMs : Int64) (gap : ScheduleGap) : Bool :=
  gap.untilMs.all (fun untilMs => gap.sinceMs ≤ untilMs && untilMs ≤ nowMs) &&
    gap.sinceMs ≤ satAdd nowMs 1

/-- A gap starts after the one before it was closed. -/
def ScheduleGap.after (earlier gap : ScheduleGap) : Bool :=
  earlier.untilMs.any (· < gap.sinceMs)

/-- A recorded gap is still there, with the end it was given. -/
def keepsGap (obligations : FundingObligations) (earlier : ScheduleGap) : Except String Unit :=
  match obligations.scheduleGaps.find? (·.sinceMs = earlier.sinceMs) with
  | none => .error "funding schedule gap obligation disappeared"
  | some gap =>
    require (earlier.untilMs.isSome → earlier.untilMs = gap.untilMs)
      "funding schedule gap history was rewritten"

/-- What a state must keep of the state recorded before it. -/
def checkSuccessor (booked : Finset Int64) (earlier : Nanos × FundingObligations) (at_ : Nanos)
    (obligations : FundingObligations) : Except String Unit := do
  require (earlier.1 ≤ at_) "funding state receive time moved backwards"
  require (earlier.2.problem.isSome → obligations.problem.isSome)
    "funding uncertainty was silently cleared"
  require (earlier.2.pendingMs.all fun t => t ∈ obligations.pendingMs || t ∈ booked)
    "funding pending obligation disappeared without a booked settlement"
  earlier.2.scheduleGaps.forM (keepsGap obligations)

/-- A recorded funding state, by itself and beside the one before it. -/
def checkObligations (booked : Finset Int64) (earlier : Option (Nanos × FundingObligations))
    (at_ : Nanos) (obligations : FundingObligations) : Except String Unit := do
  require (obligations.pendingMs.IsChain (· < ·) ∧ obligations.pendingMs.all (· ≤ at_.toMillis))
    "funding pending timestamps are duplicate, unordered or after receipt"
  require (obligations.scheduleGaps.all (ScheduleGap.within at_.toMillis) ∧
      obligations.scheduleGaps.IsChain (ScheduleGap.after · ·))
    "funding schedule gap boundaries are invalid"
  match earlier with
  | none => pure ()
  | some earlier => checkSuccessor booked earlier at_ obligations

/-! ## The fold -/

/-- What the fold over a session carries. -/
structure Replay where
  books : Option LiveBooks
  instrumentId : InstrumentId
  initial : Cash
  mode : PositionMode
  executions : Nat
  missing : Nat
  funding : Finset Int64
  fundingIds : Finset Int64
  unmodelledLines : Nat
  fundingState : Option (Nanos × FundingObligations)
  adopted : Bool

namespace Replay

def start : Replay where
  books := none
  instrumentId := 0
  initial := 0
  mode := .oneWay
  executions := 0
  missing := 0
  funding := ∅
  fundingIds := ∅
  unmodelledLines := 0
  fundingState := none
  adopted := false

variable (st : Replay)

/-- The books, once a ledger context was recorded. -/
def booksOr (why : String) : Except String LiveBooks :=
  match st.books with
  | none => .error why
  | some b => .ok b

/-- Open the books of a session. -/
def onLedgerStart (session : Session) (instrumentId : InstrumentId) (instrument : Instrument)
    (tickCash : Int64) (balance : Cash) (mode : PositionMode) : Except String Replay := do
  require (st.books.isNone) "duplicate ledger context in one session"
  require ((Contract.of instrument).map Contract.tickCash = some tickCash)
    "ledger instrument and cash-per-tick-lot disagree"
  require (instrument.priceScale = session.priceScale ∧ instrument.qtyScale = session.qtyScale)
    "session scales and ledger instrument disagree"
  pure
    { st with
      books := some (LiveBooks.new instrumentId ⟨tickCash⟩ TierTable.exampleBtcusdt balance mode)
      instrumentId := instrumentId
      initial := balance
      mode := mode }

/-- The side an adopted leg is held on. -/
def legSide (leg : AdoptedLeg) : Side :=
  if eqIgnoreAsciiCase leg.leg "SHORT" || leg.qty < 0 then .sell else .buy

/-- Adopt one leg of the positions a session starts from. -/
def adoptLeg (session : Session) (at_ : Nanos) (b : LiveBooks) (leg : AdoptedLeg) :
    Except String LiveBooks := do
  require (leg.symbol = session.symbol) "adopted leg belongs to another symbol"
  pure (b.adopt (legSide leg) (satAbs leg.qty) leg.entry at_).val

def onReconciled (session : Session) (at_ : Nanos) (legs : List AdoptedLeg) :
    Except String Replay := do
  let b ← st.booksOr "adoption precedes ledger context"
  require (st.executions = 0) "position adoption after executions requires a new session"
  require (st.adopted = false) "duplicate adoption in one session"
  let b ← legs.foldlM (adoptLeg session at_) b
  pure { st with adopted := true, books := some b }

/-- The fee an execution is booked with: what was recovered for it, or what the
venue said. -/
def evidence (recovered : List (Nat × Cash)) (index : Nat) (fee : Fee) : Fee :=
  match recovered.lookup index with
  | some amount => .reported amount
  | none => fee.observed

def onExecution (recovered : List (Nat × Cash)) (index : Nat) (fill : Fill) (fee : Fee) :
    Except String Replay := do
  require (st.adopted = true)
    "initial positions are unknown; an explicit adoption record is required, even when flat"
  require (fill.instrument = st.instrumentId ∧ 0 < fill.qty ∧ 0 < fill.price)
    "execution instrument, price or quantity is invalid"
  let b ← st.booksOr "execution precedes ledger context"
  let evidence := evidence recovered index fee
  let missing := if evidence = .unreadable then st.missing + 1 else st.missing
  match (b.onVenueFill fill evidence).val with
  | (b, .applied _) =>
    pure { st with books := some b, executions := st.executions + 1, missing := missing }
  | _ => .error "execution identity is duplicate, stale or unidentifiable"

/-- One identified line of a settlement. -/
def addLine (settledMs : Int64) (acc : Finset Int64 × Int) (line : FundingLine) :
    Except String (Finset Int64 × Int) := do
  require (line.id ∉ acc.1) "duplicate funding ledger identity"
  require (|line.timeMs.toInt - settledMs.toInt| ≤ 60000)
    "funding ledger line is outside its settlement window"
  pure (insert line.id acc.1, acc.2 + line.amount.toInt)

/-- The lines of a settlement add up to what was recorded for it. -/
def checkLines (settledMs : Int64) (venue : Cash) (lines : List FundingLine) :
    Except String Replay := do
  let (ids, total) ← lines.foldlM (addLine settledMs) (st.fundingIds, 0)
  require (total = venue.toInt) "funding ledger lines disagree with recorded amount"
  pure { st with fundingIds := ids }

/-- A settlement the venue charged. -/
def onFunding (at_ : Nanos) (settledMs : Int64) (venue : Cash) : Except String Replay := do
  require (settledMs ∉ st.funding) "duplicate funding settlement"
  let b ← st.booksOr "funding precedes ledger context"
  pure
    { st with
      funding := insert settledMs st.funding
      books := some (b.onFundingCharged venue at_).val }

/-- One line of a funding history read back after a gap. -/
def recoverLine (at_ : Nanos) (sinceMs throughMs : Int64) (acc : Finset Int64 × LiveBooks)
    (line : FundingLine) : Except String (Finset Int64 × LiveBooks) := do
  require (line.id ∉ acc.1) "duplicate funding ledger identity"
  require (sinceMs ≤ line.timeMs ∧ line.timeMs ≤ throughMs)
    "recovered funding line is outside its history range"
  pure (insert line.id acc.1, (acc.2.onFundingCharged line.amount at_).val)

def onFundingRecovered (at_ : Nanos) (sinceMs throughMs : Int64) (lines : List FundingLine) :
    Except String Replay := do
  require (st.adopted = true) "recovered funding precedes explicit initial positions"
  require (sinceMs ≤ throughMs ∧ throughMs ≤ at_.toMillis)
    "funding recovery range is invalid or lies after receipt"
  let b ← st.booksOr "funding recovery precedes ledger context"
  let (ids, b) ← lines.foldlM (recoverLine at_ sinceMs throughMs) (st.fundingIds, b)
  pure
    { st with
      fundingIds := ids
      books := some b
      unmodelledLines := st.unmodelledLines + lines.length }

def onFundingState (at_ : Nanos) (obligations : FundingObligations) : Except String Replay := do
  checkObligations st.funding st.fundingState at_ obligations
  pure { st with fundingState := some (at_, obligations) }

/-- The observation a recorded tick is. -/
def tickOf (at_ seen : Nanos) (last bid ask : PriceTicks) (volume : QtyLots) : Tick where
  stamp := ⟨at_, seen⟩
  last := last
  high := last
  low := last
  bid := bid
  ask := ask
  volume := volume

/-- One record of a session and where it is. -/
def step (session : Session) (recovered : List (Nat × Cash)) (st : Replay) :
    LiveRecord × Nat → Except String Replay
  | (.ledgerStart instrumentId instrument tickCash balance mode, _) =>
    st.onLedgerStart session instrumentId instrument tickCash balance mode
  | (.reconciled at_ legs, _) => st.onReconciled session at_ legs
  | (.execution fill fee, index) => st.onExecution recovered index fill fee
  | (.legacyFill, _) =>
    .error "legacy fill needs fee/instrument enrichment; it cannot certify net accounting"
  | (.funding at_ settledMs venue, _) => st.onFunding at_ settledMs venue
  | (.fundingEvidence at_ settledMs venue lines, _) => do
    let st ← st.checkLines settledMs venue lines
    st.onFunding at_ settledMs venue
  | (.tick at_ seen last bid ask volume, _) =>
    pure { st with books := st.books.map fun b =>
    (b.onTick (tickOf at_ seen last bid ask volume)).val }
  | (.fundingRecovered at_ sinceMs throughMs lines, _) =>
    st.onFundingRecovered at_ sinceMs throughMs lines
  | (.fundingState at_ obligations, _) => st.onFundingState at_ obligations
  -- fee evidence was bound before the fold; the rest is not accounting
  | (.feeEvidence .., _) | (.sessionStart .., _) | (.other, _) => pure st

/-- The obligations as they stand: what was booked is not pending. -/
def obligations : Option FundingObligations :=
  st.fundingState.map fun state =>
    { state.2 with pendingMs := state.2.pendingMs.filter (· ∉ st.funding) }

/-- The legs of the account, as its mode tells them apart. -/
def legs (b : LiveBooks) : List (String × QtyLots × PriceTicks) :=
  let s := b.kernel.summary
  match st.mode with
  | .hedge => [("LONG", s.qty, s.entry), ("SHORT", s.shortQty, s.shortEntry)]
  | .oneWay => [("NET", s.qty, s.entry)]

/-- What the fold ends in. -/
def report (session : Session) (recovered : List (Nat × Cash)) : Except String LedgerReport := do
  let b ← st.booksOr "ledger context is missing; supply independently identified enrichment"
  require (st.adopted = true) "initial positions are unknown; explicit adoption is required"
  let (realized, fees, funding) := b.realizedParts
  pure
    { symbol := session.symbol
      mode := st.mode
      startingBalance := st.initial
      recordedBalance := Cash.add (Cash.sub (Cash.add st.initial realized) fees) funding
      realized := realized
      recordedFees := fees
      funding := funding
      executions := st.executions
      missingFees := st.missing
      recoveredFeeExecutions := recovered.length
      legs := st.legs b
      fundingCoverage := false
      fundingIdentifiedLines := st.fundingIds.card
      fundingUnmodelledLines := st.unmodelledLines
      fundingObligations := st.obligations }

end Replay

/-- `replay_records`. -/
def replayRecords (records : List LiveRecord) : Except String LedgerReport :=
  match latestSession records with
  | none => .error "session identity is missing"
  | some (session, rest) => do
    let recovered ← recoveredFees rest
    let st ← rest.zipIdx.foldlM (Replay.step session recovered) Replay.start
    st.report session recovered

/-! ## What an accepted record went through -/

namespace Replay

variable {st st' : Replay} {session : Session}

theorem booksOr_ok {b : LiveBooks} {why : String} (h : st.booksOr why = .ok b) :
    st.books = some b := by
  unfold booksOr at h
  split at h
  · cases h
  · rename_i hbooks
    rw [hbooks, Except.ok.inj h]

theorem onLedgerStart_ok {instrumentId : InstrumentId} {instrument : Instrument}
    {tickCash : Int64} {balance : Cash} {mode : PositionMode}
    (h : st.onLedgerStart session instrumentId instrument tickCash balance mode = .ok st') :
    st.books = none ∧ st' =
      { st with
        books := some (LiveBooks.new instrumentId ⟨tickCash⟩ TierTable.exampleBtcusdt balance mode)
        instrumentId := instrumentId
        initial := balance
        mode := mode } := by
  unfold onLedgerStart at h
  rw [require_bind_eq_ok, require_bind_eq_ok, require_bind_eq_ok] at h
  obtain ⟨hnone, -, -, h⟩ := h
  exact ⟨Option.isNone_iff_eq_none.mp hnone, (pure_eq_ok.mp h).symm⟩

theorem onReconciled_ok {at_ : Nanos} {legs : List AdoptedLeg}
    (h : st.onReconciled session at_ legs = .ok st') :
    ∃ b b', st.books = some b ∧ legs.foldlM (adoptLeg session at_) b = .ok b' ∧
      st' = { st with adopted := true, books := some b' } := by
  unfold onReconciled at h
  rw [bind_eq_ok] at h
  obtain ⟨b, hbooks, h⟩ := h
  rw [require_bind_eq_ok, require_bind_eq_ok, bind_eq_ok] at h
  obtain ⟨-, -, b', hlegs, h⟩ := h
  exact ⟨b, b', booksOr_ok hbooks, hlegs, (pure_eq_ok.mp h).symm⟩

/-- An accepted execution was applied. -/
theorem onExecution_ok {recovered : List (Nat × Cash)} {index : Nat} {fill : Fill} {fee : Fee}
    (h : st.onExecution recovered index fill fee = .ok st') :
    ∃ b b' outputs, st.books = some b ∧
      (b.onVenueFill fill (evidence recovered index fee)).val = (b', .applied outputs) ∧
      st' =
        { st with
          books := some b'
          executions := st.executions + 1
          missing :=
            if evidence recovered index fee = .unreadable then st.missing + 1
            else st.missing } := by
  unfold onExecution at h
  rw [require_bind_eq_ok, require_bind_eq_ok, bind_eq_ok] at h
  obtain ⟨-, -, b, hbooks, h⟩ := h
  simp only at h
  split at h
  · rename_i b' outputs hanswer
    exact ⟨b, b', outputs, booksOr_ok hbooks, hanswer, (pure_eq_ok.mp h).symm⟩
  · cases h

/-- Checking the lines of a settlement records their ids and nothing else. -/
theorem checkLines_ok {settledMs : Int64} {venue : Cash} {lines : List FundingLine}
    (h : st.checkLines settledMs venue lines = .ok st') :
    ∃ ids, st' = { st with fundingIds := ids } := by
  unfold checkLines at h
  rw [bind_eq_ok] at h
  obtain ⟨acc, -, h⟩ := h
  rw [require_bind_eq_ok] at h
  exact ⟨acc.1, (pure_eq_ok.mp h.2).symm⟩

theorem onFunding_ok {at_ : Nanos} {settledMs : Int64} {venue : Cash}
    (h : st.onFunding at_ settledMs venue = .ok st') :
    ∃ b, st.books = some b ∧ st' =
      { st with
        funding := insert settledMs st.funding
        books := some (b.onFundingCharged venue at_).val } := by
  unfold onFunding at h
  rw [require_bind_eq_ok, bind_eq_ok] at h
  obtain ⟨-, b, hbooks, h⟩ := h
  exact ⟨b, booksOr_ok hbooks, (pure_eq_ok.mp h).symm⟩

theorem onFundingRecovered_ok {at_ : Nanos} {sinceMs throughMs : Int64} {lines : List FundingLine}
    (h : st.onFundingRecovered at_ sinceMs throughMs lines = .ok st') :
    ∃ b acc, st.books = some b ∧
      lines.foldlM (recoverLine at_ sinceMs throughMs) (st.fundingIds, b) = .ok acc ∧
      st' =
        { st with
          fundingIds := acc.1
          books := some acc.2
          unmodelledLines := st.unmodelledLines + lines.length } := by
  unfold onFundingRecovered at h
  rw [require_bind_eq_ok, require_bind_eq_ok, bind_eq_ok] at h
  obtain ⟨-, -, b, hbooks, h⟩ := h
  rw [bind_eq_ok] at h
  obtain ⟨acc, hlines, h⟩ := h
  exact ⟨b, acc, booksOr_ok hbooks, hlines, (pure_eq_ok.mp h).symm⟩

theorem onFundingState_ok {at_ : Nanos} {o : FundingObligations}
    (h : st.onFundingState at_ o = .ok st') :
    checkObligations st.funding st.fundingState at_ o = .ok () ∧
      st' = { st with fundingState := some (at_, o) } := by
  unfold onFundingState at h
  rw [bind_eq_ok] at h
  obtain ⟨u, hcheck, h⟩ := h
  exact ⟨hcheck, (pure_eq_ok.mp h).symm⟩

/-- What the report says of the fold. -/
theorem report_ok {recovered : List (Nat × Cash)} {report : LedgerReport}
    (h : st.report session recovered = .ok report) :
    ∃ b, st.books = some b ∧ report.realized = b.kernel.state.realized ∧
      report.recordedFees = b.kernel.state.fees ∧ report.funding = b.kernel.state.funding ∧
      report.fundingObligations = st.obligations := by
  unfold Replay.report at h
  rw [bind_eq_ok] at h
  obtain ⟨b, hbooks, h⟩ := h
  rw [require_bind_eq_ok] at h
  obtain rfl := pure_eq_ok.mp h.2
  exact ⟨b, booksOr_ok hbooks, rfl, rfl, rfl, rfl⟩

end Replay

/-! ## What is owed stays owed -/

/-- A record books the settlement of this time. -/
def Settles (settledMs : Int64) : LiveRecord → Prop
  | .funding _ t _ => t = settledMs
  | .fundingEvidence _ t _ _ => t = settledMs
  | _ => False

/-- What was owed at one state is booked or owed at another, and its gaps are
still there, with the ends they were given. -/
structure Carries (booked : Finset Int64) (earlier later : FundingObligations) : Prop where
  pending : ∀ t ∈ earlier.pendingMs, t ∈ later.pendingMs ∨ t ∈ booked
  gaps : ∀ gap ∈ earlier.scheduleGaps, ∃ gap' ∈ later.scheduleGaps,
    gap'.sinceMs = gap.sinceMs ∧ (gap.untilMs.isSome → gap'.untilMs = gap.untilMs)

theorem Carries.refl (booked : Finset Int64) (o : FundingObligations) : Carries booked o o where
  pending _ ht := .inl ht
  gaps gap hgap := ⟨gap, hgap, rfl, fun _ => rfl⟩

theorem Carries.mono {booked booked' : Finset Int64} {o o' : FundingObligations}
    (h : Carries booked o o') (hsub : booked ⊆ booked') : Carries booked' o o' where
  pending t ht := (h.pending t ht).imp id fun hb => hsub hb
  gaps := h.gaps

theorem Carries.trans {booked : Finset Int64} {o o' o'' : FundingObligations}
    (h : Carries booked o o') (h' : Carries booked o' o'') : Carries booked o o'' where
  pending t ht := by
    rcases h.pending t ht with hpending | hbooked
    · exact h'.pending t hpending
    · exact .inr hbooked
  gaps gap hgap := by
    obtain ⟨gap', hgap', hsince, huntil⟩ := h.gaps gap hgap
    obtain ⟨gap'', hgap'', hsince', huntil'⟩ := h'.gaps gap' hgap'
    refine ⟨gap'', hgap'', hsince'.trans hsince, fun hclosed => ?_⟩
    -- a closed gap was carried over closed, so the second step keeps its end too
    have hclosed' : gap'.untilMs.isSome := by
      rw [huntil hclosed]
      exact hclosed
    rw [huntil' hclosed', huntil hclosed]

theorem gap_of_keepsGap {o : FundingObligations} {earlier : ScheduleGap}
    (h : keepsGap o earlier = .ok ()) : ∃ gap ∈ o.scheduleGaps,
      gap.sinceMs = earlier.sinceMs ∧ (earlier.untilMs.isSome → gap.untilMs = earlier.untilMs) := by
  unfold keepsGap at h
  split at h
  · cases h
  · rename_i gap hfind
    rw [require_eq_ok] at h
    have hsince := List.find?_some hfind
    exact ⟨gap, List.mem_of_find?_eq_some hfind,
      by simpa using hsince, fun hclosed => (h hclosed).symm⟩

/-- **An accepted state carries the one before it.** -/
theorem carries_of_checkObligations {booked : Finset Int64}
    {earlier : Nanos × FundingObligations} {at_ : Nanos} {o : FundingObligations} {u : Unit}
    (h : checkObligations booked (some earlier) at_ o = .ok u) : Carries booked earlier.2 o := by
  unfold checkObligations at h
  rw [require_bind_eq_ok, require_bind_eq_ok] at h
  obtain ⟨-, -, h⟩ := h
  simp only [checkSuccessor] at h
  rw [require_bind_eq_ok, require_bind_eq_ok, require_bind_eq_ok] at h
  obtain ⟨-, -, hpending, hgaps⟩ := h
  refine ⟨fun t ht => ?_, fun gap hgap => gap_of_keepsGap (ok_of_forM hgaps gap hgap)⟩
  simpa using List.all_eq_true.mp hpending t ht

/-- What is owed after some records: the settlements they book, and every state
they recorded carried to the last. -/
structure Owed (done : List (LiveRecord × Nat)) (st : Replay) : Prop where
  booked : ∀ t, t ∈ st.funding ↔ ∃ r ∈ done, Settles t r.1
  carried : ∀ r ∈ done, ∀ at_ o, r.1 = .fundingState at_ o →
    ∃ latest, st.fundingState = some latest ∧ Carries st.funding o latest.2

theorem owed_start : Owed [] Replay.start where
  booked t := by simp [Replay.start]
  carried r hr := nomatch hr

/-- A record that is no funding state leaves the state and books what it settles. -/
theorem Owed.other {done : List (LiveRecord × Nat)} {st st' : Replay} {r : LiveRecord × Nat}
    (h : Owed done st) (hstate : ∀ at_ o, r.1 ≠ .fundingState at_ o)
    (hlatest : st'.fundingState = st.fundingState)
    (hbooked : ∀ t, t ∈ st'.funding ↔ t ∈ st.funding ∨ Settles t r.1) : Owed (done ++ [r]) st' where
  booked t := by
    rw [hbooked, h.booked]
    simp only [List.mem_append, List.mem_singleton, or_and_right, exists_or, exists_eq_left]
  carried r' hr' at_ o ho := by
    rcases List.mem_append.mp hr' with hdone | hlast
    · obtain ⟨latest, hsome, hcarries⟩ := h.carried r' hdone at_ o ho
      refine ⟨latest, hlatest.trans hsome, hcarries.mono ?_⟩
      exact fun t ht => (hbooked t).mpr (.inl ht)
    · rw [List.mem_singleton.mp hlast] at ho
      exact absurd ho (hstate at_ o)

/-- A funding state that was accepted carries every one before it. -/
theorem Owed.state {done : List (LiveRecord × Nat)} {st st' : Replay} {at_ : Nanos}
    {o : FundingObligations} {index : Nat} (h : Owed done st)
    (hstep : st.onFundingState at_ o = .ok st') :
    Owed (done ++ [(.fundingState at_ o, index)]) st' := by
  obtain ⟨hcheck, rfl⟩ := Replay.onFundingState_ok hstep
  constructor
  · intro t
    rw [h.booked]
    simp [Settles]
  · intro r hr at' o' ho'
    refine ⟨(at_, o), rfl, ?_⟩
    rcases List.mem_append.mp hr with hdone | hlast
    · obtain ⟨latest, hsome, hcarries⟩ := h.carried r hdone at' o' ho'
      rw [hsome] at hcheck
      exact hcarries.trans (carries_of_checkObligations hcheck)
    · rw [List.mem_singleton.mp hlast] at ho'
      obtain ⟨rfl, rfl⟩ := LiveRecord.fundingState.inj ho'
      exact .refl _ _

namespace Replay

/-- Where funding stands in the fold. -/
def standing (st : Replay) : Finset Int64 × Option (Nanos × FundingObligations) :=
  (st.funding, st.fundingState)

/-- **What a record does to the standing of funding**, if it is accepted and is
no funding state: it books what it settles. -/
theorem standing_step {session : Session} {recovered : List (Nat × Cash)} {st st' : Replay}
    {r : LiveRecord × Nat} (h : step session recovered st r = .ok st')
    (hstate : ∀ at_ o, r.1 ≠ .fundingState at_ o) :
    st'.fundingState = st.fundingState ∧
      ∀ t, t ∈ st'.funding ↔ t ∈ st.funding ∨ Settles t r.1 := by
  -- a record either leaves the standing alone and settles nothing
  have hquiet : st'.standing = st.standing → (∀ t, ¬ Settles t r.1) →
      st'.fundingState = st.fundingState ∧
        ∀ t, t ∈ st'.funding ↔ t ∈ st.funding ∨ Settles t r.1 := by
    intro hsame hnone
    obtain ⟨hfunding, hlatest⟩ := Prod.mk.inj hsame
    refine ⟨hlatest, fun t => ?_⟩
    rw [hfunding, or_iff_left (hnone t)]
  -- or settles one time, and that one is booked
  have hbooks : ∀ {settledMs : Int64}, st'.standing =
    (insert settledMs st.funding, st.fundingState) →
      (∀ t, Settles t r.1 ↔ settledMs = t) →
      st'.fundingState = st.fundingState ∧
        ∀ t, t ∈ st'.funding ↔ t ∈ st.funding ∨ Settles t r.1 := by
    intro settledMs hbooked hsettles
    obtain ⟨hfunding, hlatest⟩ := Prod.mk.inj hbooked
    refine ⟨hlatest, fun t => ?_⟩
    rw [hfunding, Finset.mem_insert, hsettles, or_comm, @eq_comm _ t]
  obtain ⟨record, index⟩ := r
  cases record with
  | fundingState at_ o => exact absurd rfl (hstate at_ o)
  | funding at_ settledMs venue =>
    obtain ⟨b, -, rfl⟩ := onFunding_ok h
    exact hbooks rfl fun t => Iff.rfl
  | fundingEvidence at_ settledMs venue lines =>
    obtain ⟨st₀, hlines, h⟩ := bind_eq_ok.mp h
    obtain ⟨ids, rfl⟩ := checkLines_ok hlines
    obtain ⟨b, -, rfl⟩ := onFunding_ok h
    exact hbooks rfl fun t => Iff.rfl
  | ledgerStart instrumentId instrument tickCash balance mode =>
    obtain ⟨-, rfl⟩ := onLedgerStart_ok h
    exact hquiet rfl fun _ => id
  | reconciled at_ legs =>
    obtain ⟨b, b', -, -, rfl⟩ := onReconciled_ok h
    exact hquiet rfl fun _ => id
  | execution fill fee =>
    obtain ⟨b, b', outputs, -, -, rfl⟩ := onExecution_ok h
    exact hquiet rfl fun _ => id
  | legacyFill => cases h
  | fundingRecovered at_ sinceMs throughMs lines =>
    obtain ⟨b, acc, -, -, rfl⟩ := onFundingRecovered_ok h
    exact hquiet rfl fun _ => id
  | tick at_ seen last bid ask volume =>
    obtain rfl := pure_eq_ok.mp h
    exact hquiet rfl fun _ => id
  | feeEvidence at_ sourceMs fill amount =>
    obtain rfl := pure_eq_ok.mp h
    exact hquiet rfl fun _ => id
  | sessionStart symbol priceScale qtyScale =>
    obtain rfl := pure_eq_ok.mp h
    exact hquiet rfl fun _ => id
  | other =>
    obtain rfl := pure_eq_ok.mp h
    exact hquiet rfl fun _ => id

end Replay

/-- One record of an accepted session. -/
theorem Owed.step {session : Session} {recovered : List (Nat × Cash)}
    {done : List (LiveRecord × Nat)} {st st' : Replay} {r : LiveRecord × Nat} (h : Owed done st)
    (hstep : Replay.step session recovered st r = .ok st') : Owed (done ++ [r]) st' := by
  by_cases hstate : ∃ at_ o, r.1 = .fundingState at_ o
  · obtain ⟨at_, o, ho⟩ := hstate
    obtain ⟨record, index⟩ := r
    obtain rfl : record = .fundingState at_ o := ho
    exact h.state hstep
  · have hother : ∀ at_ o, r.1 ≠ .fundingState at_ o := fun at_ o ho => hstate ⟨at_, o, ho⟩
    obtain ⟨hlatest, hbooked⟩ := Replay.standing_step hstep hother
    exact h.other hother hlatest hbooked

/-- What an accepted journal went through. -/
theorem replay_of_accepted {records : List LiveRecord} {report : LedgerReport}
    (h : replayRecords records = .ok report) {session : Session} {rest : List LiveRecord}
    (hsession : latestSession records = some (session, rest)) :
    ∃ recovered st, recoveredFees rest = .ok recovered ∧
      rest.zipIdx.foldlM (Replay.step session recovered) Replay.start = .ok st ∧
      st.report session recovered = .ok report := by
  unfold replayRecords at h
  simp only [hsession] at h
  rw [bind_eq_ok] at h
  obtain ⟨recovered, hrecovered, h⟩ := h
  rw [bind_eq_ok] at h
  obtain ⟨st, hst, h⟩ := h
  exact ⟨recovered, st, hrecovered, hst, h⟩

/-- **Funding obligations never disappear within a session.**  Of an accepted
journal, take any funding state of its latest session: at the end every
settlement it lists is booked by a funding record of the session or still
pending, and every gap it lists is there with its start and, where it had one,
its end. -/
theorem obligations_persist {records : List LiveRecord} {report : LedgerReport}
    (h : replayRecords records = .ok report) {session : Session} {rest : List LiveRecord}
    (hsession : latestSession records = some (session, rest)) {at_ : Nanos}
    {obligations : FundingObligations} (hstate : .fundingState at_ obligations ∈ rest) :
    ∃ last, report.fundingObligations = some last ∧
      (∀ t ∈ obligations.pendingMs, (∃ r ∈ rest, Settles t r) ∨ t ∈ last.pendingMs) ∧
      ∀ gap ∈ obligations.scheduleGaps, ∃ gap' ∈ last.scheduleGaps,
        gap'.sinceMs = gap.sinceMs ∧ (gap.untilMs.isSome → gap'.untilMs = gap.untilMs) := by
  obtain ⟨recovered, st, -, hst, hreport⟩ := replay_of_accepted h hsession
  have howed : Owed rest.zipIdx st :=
    foldlM_history (fun _ _ _ _ _ _ h => h.step) owed_start hst
  obtain ⟨index, hindex⟩ := List.getElem?_of_mem hstate
  have hmem : (LiveRecord.fundingState at_ obligations, index) ∈ rest.zipIdx := by
    rw [List.mem_zipIdx_iff_getElem?]
    exact hindex
  obtain ⟨latest, hlatest, hcarries⟩ := howed.carried _ hmem at_ obligations rfl
  refine ⟨{ latest.2 with pendingMs := latest.2.pendingMs.filter (· ∉ st.funding) }, ?_, ?_, ?_⟩
  · obtain ⟨b, -, -, -, -, hobligations⟩ := Replay.report_ok hreport
    rw [hobligations, Replay.obligations, hlatest]
    rfl
  · intro t ht
    by_cases hbooked : t ∈ st.funding
    · obtain ⟨r, hr, hsettles⟩ := (howed.booked t).mp hbooked
      exact .inl ⟨r.1, List.fst_mem_of_mem_zipIdx hr, hsettles⟩
    · have hpending := (hcarries.pending t ht).resolve_right hbooked
      exact .inr (List.mem_filter.mpr ⟨hpending, by simpa using hbooked⟩)
  · exact hcarries.gaps

/-! ## Two journals -/

/-- A session that starts flat. -/
def flatStart : List LiveRecord :=
  [.sessionStart "BTCUSDT" 1 3,
    .ledgerStart 1 ⟨1, 3, 100000000⟩ 10000 (Cash.fromUnits 100000) .oneWay,
    .reconciled 1000000000 []]

/-- A settlement and a gap are recorded, then booked and closed. -/
def settledJournal : List LiveRecord :=
  flatStart ++
    [.fundingState 2000000000 ⟨[1000], [⟨500, none⟩], none⟩,
      .funding 3000000000 1000 7,
      .fundingState 4000000000 ⟨[3500], [⟨500, some 900⟩], none⟩]

theorem obligations_persist_settled :
    ∃ report, replayRecords settledJournal = .ok report ∧
      ∃ last, report.fundingObligations = some last ∧
        (∀ t ∈ [1000], (∃ r ∈ settledJournal.tail, Settles t r) ∨ t ∈ last.pendingMs) ∧
        ∀ gap ∈ [(⟨500, none⟩ : ScheduleGap)], ∃ gap' ∈ last.scheduleGaps,
          gap'.sinceMs = gap.sinceMs ∧ (gap.untilMs.isSome → gap'.untilMs = gap.untilMs) := by
  have haccepted : (replayRecords settledJournal).toOption.map LedgerReport.fundingObligations =
      some (some ⟨[3500], [⟨500, some 900⟩], none⟩) := by
    decide +kernel
  obtain ⟨report, hreport, -⟩ := exists_ok_of_map haccepted
  have hstate : LiveRecord.fundingState 2000000000 ⟨[1000], [⟨500, none⟩], none⟩ ∈
      settledJournal.tail := by
    decide
  exact ⟨report, hreport, obligations_persist hreport rfl hstate⟩

/-- A settlement was pending when the process went down, and a new session began. -/
def restartedJournal : List LiveRecord :=
  [.sessionStart "BTCUSDT" 1 3, .fundingState 2000000000 ⟨[1000], [], none⟩] ++ flatStart

/-- A settlement was booked and then listed as pending. -/
def listedLate : List LiveRecord :=
  flatStart ++ [.funding 2000000000 1000 7, .fundingState 3000000000 ⟨[1000], [], none⟩]

instance (settledMs : Int64) : (r : LiveRecord) → Decidable (Settles settledMs r)
  | .funding _ t _ => inferInstanceAs (Decidable (t = settledMs))
  | .fundingEvidence _ t _ _ => inferInstanceAs (Decidable (t = settledMs))
  | .sessionStart .. | .ledgerStart .. | .reconciled .. | .execution .. | .legacyFill
  | .fundingRecovered .. | .fundingState .. | .feeEvidence .. | .tick .. | .other =>
    inferInstanceAs (Decidable False)

/-- A new session forgets what an earlier one owed, and a settlement that was
booked before it was listed is not pending after: both are accepted. -/
theorem obligation_not_carried :
    (∃ report, replayRecords restartedJournal = .ok report ∧
      .fundingState 2000000000 ⟨[1000], [], none⟩ ∈ restartedJournal ∧
      (¬ ∃ r ∈ restartedJournal, Settles 1000 r) ∧ report.fundingObligations = none) ∧
    ∃ report, replayRecords listedLate = .ok report ∧
      listedLate.getLast? = some (.fundingState 3000000000 ⟨[1000], [], none⟩) ∧
      report.fundingObligations = some ⟨[], [], none⟩ := by
  have hrestarted : (replayRecords restartedJournal).toOption.map
      LedgerReport.fundingObligations = some none := by
    decide +kernel
  have hlate : (replayRecords listedLate).toOption.map LedgerReport.fundingObligations =
      some (some ⟨[], [], none⟩) := by
    decide +kernel
  obtain ⟨report, hreport, hnone⟩ := exists_ok_of_map hrestarted
  obtain ⟨report', hreport', hempty⟩ := exists_ok_of_map hlate
  exact ⟨⟨report, hreport, by decide, by decide, hnone⟩, report', hreport', by decide, hempty⟩

end Ledger
