/-
# What the live process writes down (`oq-live/src/record.rs`)

Seventeen kinds of record; the kind travels in the frame's header.  Fields are
fixed-width or length-prefixed and follow one another, and a payload with anything left
over is refused.  A record is read back as it was written, if its texts and lists fit
their length fields and an order id is an `i64`; a ledger start is read back only if it
agrees with itself (`decode_encode_iff`).
-/
import OpenQuanter.EventCodec
import OpenQuanter.Ledger
import OpenQuanter.Take

namespace Live

open Take

/-- What a venue answered to an order. -/
inductive OutcomeTag where
  | accepted
  | rejected
  | unknown
  deriving DecidableEq, Repr

namespace OutcomeTag

def byte : OutcomeTag → UInt8
  | accepted => 1
  | rejected => 2
  | unknown => 3

def ofByte : UInt8 → Option OutcomeTag
  | 1 => some accepted
  | 2 => some rejected
  | 3 => some unknown
  | _ => none

@[simp] theorem ofByte_byte (tag : OutcomeTag) : ofByte tag.byte = some tag := by
  cases tag <;> rfl

end OutcomeTag

/-- One thing the live process wrote down. -/
inductive Record where
  /-- `prefix` of the source is `issued`. -/
  | sessionStart (issued symbol : String) (priceScale qtyScale : UInt8)
  | tick (at_ seen : Nanos) (last bid ask : PriceTicks) (volume : QtyLots)
  | submitted (at_ : Nanos) (clientId : String) (side : Side) (limitPrice : PriceTicks)
      (qty : QtyLots) (reduceOnly : Bool) (leg : String)
  | outcome (at_ : Nanos) (clientId : String) (tag : OutcomeTag) (detail : String)
  | cancelled (at_ : Nanos) (clientId : String)
  | fill (at_ : Nanos) (clientId : String) (tradeId : Int64) (qty price : String)
      (order : UInt64) (side : String)
  | refused (at_ : Nanos) (breach : String)
  | reconciled (at_ : Nanos) (legs : List AdoptedLeg)
  | waiting (at_ : Nanos) (entries : List (String × Int64))
  | operator (at_ : Nanos) (command reason origin outcome : String)
  | funding (at_ : Nanos) (settledMs : Int64) (rate mark : String) (venue model : Cash)
      (verified : Bool)
  | fundingEvidence (at_ : Nanos) (settledMs : Int64) (rate mark : String) (venue model : Cash)
      (verified : Bool) (lines : List FundingLine)
  | fundingRecovered (at_ : Nanos) (sinceMs throughMs : Int64) (lines : List FundingLine)
  | fundingState (at_ : Nanos) (obligations : FundingObligations)
  | feeEvidence (at_ : Nanos) (sourceMs : Int64) (fill : Fill) (amount : Cash)
  | execution (clientId : String) (fill : Fill) (fee : Fee)
  | ledgerStart (at_ : Nanos) (instrumentId : InstrumentId) (instrument : ListedInstrument)
      (tickCash : Int64) (balance : Cash) (mode : PositionMode)
  deriving DecidableEq

namespace Record

/-! ## Kinds -/

namespace Kind

def sessionStart : UInt16 := 1
def tick : UInt16 := 2
def submitted : UInt16 := 3
def outcome : UInt16 := 4
def fill : UInt16 := 5
def refused : UInt16 := 6
def reconciled : UInt16 := 7
def waiting : UInt16 := 8
def cancelled : UInt16 := 9
def operator : UInt16 := 10
def funding : UInt16 := 11
def execution : UInt16 := 12
def ledgerStart : UInt16 := 13
def fundingEvidence : UInt16 := 14
def fundingRecovered : UInt16 := 15
def fundingState : UInt16 := 16
def feeEvidence : UInt16 := 17

end Kind

/-- The frame kind a record is written under. -/
def kind : Record → UInt16
  | .sessionStart _ _ _ _ => Kind.sessionStart
  | .tick _ _ _ _ _ _ => Kind.tick
  | .submitted _ _ _ _ _ _ _ => Kind.submitted
  | .outcome _ _ _ _ => Kind.outcome
  | .fill _ _ _ _ _ _ _ => Kind.fill
  | .refused _ _ => Kind.refused
  | .cancelled _ _ => Kind.cancelled
  | .reconciled _ _ => Kind.reconciled
  | .waiting _ _ => Kind.waiting
  | .operator _ _ _ _ _ => Kind.operator
  | .funding _ _ _ _ _ _ _ => Kind.funding
  | .fundingEvidence _ _ _ _ _ _ _ _ => Kind.fundingEvidence
  | .fundingRecovered _ _ _ _ => Kind.fundingRecovered
  | .fundingState _ _ => Kind.fundingState
  | .feeEvidence _ _ _ _ => Kind.feeEvidence
  | .execution _ _ _ => Kind.execution
  | .ledgerStart _ _ _ _ _ _ => Kind.ledgerStart

/-! ## Writing -/

/-- The length of a list as it is written.  The source writes zero for a length that
does not fit, or stops; no list is so long. -/
def count (n : Nat) : Int64 := if n < 2 ^ 63 then Int64.ofNat n else 0

/-- `i64::try_from` of an order id, zero where it does not fit. -/
def orderWord (order : UInt64) : Int64 := if order.toNat < 2 ^ 63 then order.toInt64 else 0

def boolByte (b : Bool) : UInt8 := if b then 1 else 0

def sideByte : Side → UInt8
  | .buy => 1
  | .sell => 2

def modeByte : PositionMode → UInt8
  | .oneWay => 0
  | .hedge => 1

def legBytes (l : AdoptedLeg) : List UInt8 :=
  strBytes l.symbol ++ strBytes l.leg ++ i64Bytes l.qty ++ i64Bytes l.entry

def entryBytes (e : String × Int64) : List UInt8 := strBytes e.1 ++ i64Bytes e.2

def lineBytes (l : FundingLine) : List UInt8 :=
  i64Bytes l.id ++ i64Bytes l.timeMs ++ i64Bytes l.amount

def gapBytes (g : ScheduleGap) : List UInt8 :=
  i64Bytes g.sinceMs ++ match g.untilMs with
    | none => [0]
    | some until_ => 1 :: i64Bytes until_

def problemBytes : Option String → List UInt8
  | none => [0]
  | some problem => 1 :: strBytes problem

/-- A fill as its event is encoded, behind its length. -/
def fillBytes (fill : Fill) (fee : Fee) : List UInt8 :=
  toLe 4 (Event.venueFill fill fee).encode.length ++ (Event.venueFill fill fee).encode

def fundingBytes (at_ : Nanos) (settledMs : Int64) (rate mark : String) (venue model : Cash)
    (verified : Bool) : List UInt8 :=
  i64Bytes at_ ++ i64Bytes settledMs ++ strBytes rate ++ strBytes mark ++ i64Bytes venue ++
    i64Bytes model ++ [boolByte verified]

/-- The payload of a record. -/
def encode : Record → List UInt8
  | .execution clientId venueFill fee => strBytes clientId ++ fillBytes venueFill fee
  | .ledgerStart at_ instrumentId instrument tickCash balance mode =>
    i64Bytes at_ ++ i64Bytes (Int64.ofNat instrumentId.toNat) ++
      [instrument.priceScale, instrument.qtyScale] ++ i64Bytes instrument.contractSize ++
      i64Bytes instrument.priceTick ++ i64Bytes instrument.qtyStep ++
      i64Bytes instrument.minNotional ++ i64Bytes tickCash ++ i64Bytes balance ++ [modeByte mode]
  | .sessionStart issued symbol priceScale qtyScale =>
    strBytes issued ++ strBytes symbol ++ [priceScale, qtyScale]
  | .tick at_ seen last bid ask volume =>
    i64Bytes at_ ++ i64Bytes last ++ i64Bytes bid ++ i64Bytes ask ++ i64Bytes volume ++
      i64Bytes seen
  | .submitted at_ clientId side limitPrice qty reduceOnly leg =>
    i64Bytes at_ ++ strBytes clientId ++ [sideByte side] ++ i64Bytes limitPrice ++ i64Bytes qty ++
      [boolByte reduceOnly] ++ strBytes leg
  | .outcome at_ clientId tag detail =>
    i64Bytes at_ ++ strBytes clientId ++ [tag.byte] ++ strBytes detail
  | .fill at_ clientId tradeId qty price order side =>
    i64Bytes at_ ++ strBytes clientId ++ i64Bytes tradeId ++ strBytes qty ++ strBytes price ++
      i64Bytes (orderWord order) ++ strBytes side
  | .refused at_ breach => i64Bytes at_ ++ strBytes breach
  | .cancelled at_ clientId => i64Bytes at_ ++ strBytes clientId
  | .waiting at_ entries =>
    i64Bytes at_ ++ i64Bytes (count entries.length) ++ entries.flatMap entryBytes
  | .operator at_ command reason origin answer =>
    i64Bytes at_ ++ strBytes command ++ strBytes reason ++ strBytes origin ++ strBytes answer
  | .funding at_ settledMs rate mark venue model verified =>
    fundingBytes at_ settledMs rate mark venue model verified
  | .fundingEvidence at_ settledMs rate mark venue model verified lines =>
    fundingBytes at_ settledMs rate mark venue model verified ++ i64Bytes (count lines.length) ++
      lines.flatMap lineBytes
  | .fundingRecovered at_ sinceMs throughMs lines =>
    i64Bytes at_ ++ i64Bytes sinceMs ++ i64Bytes throughMs ++ i64Bytes (count lines.length) ++
      lines.flatMap lineBytes
  | .feeEvidence at_ sourceMs venueFill amount =>
    i64Bytes at_ ++ i64Bytes sourceMs ++ fillBytes venueFill (.reported amount)
  | .fundingState at_ obligations =>
    i64Bytes at_ ++ i64Bytes (count obligations.pendingMs.length) ++
      obligations.pendingMs.flatMap i64Bytes ++ i64Bytes (count obligations.scheduleGaps.length) ++
      obligations.scheduleGaps.flatMap gapBytes ++ problemBytes obligations.problem
  | .reconciled at_ legs =>
    i64Bytes at_ ++ i64Bytes (count legs.length) ++ legs.flatMap legBytes

/-! ## Reading -/

/-- `usize::try_from` of a count. -/
def size : Take Nat := do
  let n ← i64
  ensure (0 ≤ n)
  pure n.toInt.toNat

/-- How often a loop over a count goes round. -/
def rounds : Take Nat := do
  let n ← i64
  pure n.toInt.toNat

/-- A flag that is one of two bytes. -/
def flag : Take Bool := do
  let b ← u8
  given (if b = 0 then some false else if b = 1 then some true else none)

def takeSide : Take Side := do
  let b ← u8
  given (if b = 1 then some .buy else if b = 2 then some .sell else none)

def takeLeg : Take AdoptedLeg := do
  let symbol ← str
  let leg ← str
  let qty ← i64
  let entry ← i64
  pure ⟨symbol, leg, qty, entry⟩

def takeEntry : Take (String × Int64) := do
  let name ← str
  let value ← i64
  pure (name, value)

def takeLine : Take FundingLine := do
  let id ← i64
  let timeMs ← i64
  let amount ← i64
  pure ⟨id, timeMs, amount⟩

def takeGap : Take ScheduleGap := do
  let sinceMs ← i64
  let bounded ← flag
  if bounded then do
    let until_ ← i64
    pure ⟨sinceMs, some until_⟩
  else pure ⟨sinceMs, none⟩

def takeProblem : Take (Option String) := do
  let there ← flag
  if there then do
    let problem ← str
    pure (some problem)
  else pure none

/-- The lines there are, if they are all that is left. -/
def takeLines : Take (List FundingLine) := do
  let n ← size
  let p ← left
  ensure (n * 24 < 2 ^ 64 ∧ n * 24 = p)
  many takeLine n

/-- An event of a fill behind its length, if it is all that is left. -/
def takeFill : Take (Fill × Fee) := do
  let len ← u32
  let p ← left
  ensure (len.toNat = p)
  let payload ← all
  given (match Event.decode Event.Kind.venueFill payload with
    | some (.venueFill made fee) => some (made, fee)
    | _ => none)

def takeSessionStart : Take Record := do
  let issued ← str
  let symbol ← str
  let priceScale ← u8
  let qtyScale ← u8
  pure (.sessionStart issued symbol priceScale qtyScale)

def takeTick : Take Record := do
  let at_ ← i64
  let last ← i64
  let bid ← i64
  let ask ← i64
  let volume ← i64
  let seen ← i64
  pure (.tick at_ seen last bid ask volume)

def takeSubmitted : Take Record := do
  let at_ ← i64
  let clientId ← str
  let side ← takeSide
  let limitPrice ← i64
  let qty ← i64
  let reduceOnly ← u8
  -- absent from journals written before it existed
  let p ← left
  let leg ← if p = 0 then pure "" else str
  pure (.submitted at_ clientId side limitPrice qty (reduceOnly != 0) leg)

def takeOutcome : Take Record := do
  let at_ ← i64
  let clientId ← str
  let b ← u8
  let tag ← given (OutcomeTag.ofByte b)
  let detail ← str
  pure (.outcome at_ clientId tag detail)

def takeFillRecord : Take Record := do
  let at_ ← i64
  let clientId ← str
  let tradeId ← i64
  let qty ← str
  let price ← str
  let order ← i64
  let side ← str
  pure (.fill at_ clientId tradeId qty price (UInt64.ofNat order.toInt.natAbs) side)

def takeCancelled : Take Record := do
  let at_ ← i64
  let clientId ← str
  pure (.cancelled at_ clientId)

def takeRefused : Take Record := do
  let at_ ← i64
  let breach ← str
  pure (.refused at_ breach)

def takeWaiting : Take Record := do
  let at_ ← i64
  let n ← rounds
  let entries ← many takeEntry n
  pure (.waiting at_ entries)

def takeOperator : Take Record := do
  let at_ ← i64
  let command ← str
  let reason ← str
  let origin ← str
  let answer ← str
  pure (.operator at_ command reason origin answer)

def takeFunding : Take Record := do
  let at_ ← i64
  let settledMs ← i64
  let rate ← str
  let mark ← str
  let venue ← i64
  let model ← i64
  let verified ← u8
  pure (.funding at_ settledMs rate mark venue model (verified != 0))

def takeFundingEvidence : Take Record := do
  let at_ ← i64
  let settledMs ← i64
  let rate ← str
  let mark ← str
  let venue ← i64
  let model ← i64
  let verified ← flag
  let lines ← takeLines
  pure (.fundingEvidence at_ settledMs rate mark venue model verified lines)

def takeFundingRecovered : Take Record := do
  let at_ ← i64
  let sinceMs ← i64
  let throughMs ← i64
  let lines ← takeLines
  pure (.fundingRecovered at_ sinceMs throughMs lines)

def takeFundingState : Take Record := do
  let at_ ← i64
  let n ← size
  let p ← left
  ensure (n ≤ p / 8)
  let pendingMs ← many i64 n
  let n ← size
  let p ← left
  ensure (n ≤ p / 9)
  let scheduleGaps ← many takeGap n
  let problem ← takeProblem
  pure (.fundingState at_ ⟨pendingMs, scheduleGaps, problem⟩)

def takeFeeEvidence : Take Record := do
  let at_ ← i64
  let sourceMs ← i64
  let (made, fee) ← takeFill
  match fee with
  | .reported amount => pure (.feeEvidence at_ sourceMs made amount)
  | _ => given none

def takeExecution : Take Record := do
  let clientId ← str
  let (made, fee) ← takeFill
  pure (.execution clientId made fee)

/-- What a ledger start has to say of its contract. -/
def Consistent (instrument : ListedInstrument) (tickCash : Int64) : Prop :=
  0 < tickCash ∧ 0 < instrument.priceTick ∧ 0 < instrument.qtyStep ∧
    instrument.tickCash = some tickCash

instance (instrument : ListedInstrument) (tickCash : Int64) :
    Decidable (Consistent instrument tickCash) :=
  inferInstanceAs (Decidable (_ ∧ _ ∧ _ ∧ _))

def takeLedgerStart : Take Record := do
  let at_ ← i64
  let id ← i64
  ensure (0 ≤ id ∧ id.toInt < 2 ^ 32)
  let priceScale ← u8
  let qtyScale ← u8
  let contractSize ← i64
  let priceTick ← i64
  let qtyStep ← i64
  let minNotional ← i64
  let tickCash ← i64
  let balance ← i64
  let hedged ← flag
  let instrument : ListedInstrument :=
    ⟨⟨priceScale, qtyScale, contractSize⟩, priceTick, qtyStep, minNotional⟩
  ensure (Consistent instrument tickCash)
  pure (.ledgerStart at_ (UInt32.ofNat id.toInt.toNat) instrument tickCash balance
    (if hedged then .hedge else .oneWay))

def takeReconciled : Take Record := do
  let at_ ← i64
  let n ← rounds
  let legs ← many takeLeg n
  pure (.reconciled at_ legs)

/-- Decode a payload written under a kind: `none` for a kind that is not known, and for
a payload that runs out or goes on. -/
def decode (kind : UInt16) (p : List UInt8) : Option Record :=
  if kind = Kind.sessionStart then payload takeSessionStart p
  else if kind = Kind.tick then payload takeTick p
  else if kind = Kind.submitted then payload takeSubmitted p
  else if kind = Kind.outcome then payload takeOutcome p
  else if kind = Kind.fill then payload takeFillRecord p
  else if kind = Kind.cancelled then payload takeCancelled p
  else if kind = Kind.refused then payload takeRefused p
  else if kind = Kind.waiting then payload takeWaiting p
  else if kind = Kind.operator then payload takeOperator p
  else if kind = Kind.funding then payload takeFunding p
  else if kind = Kind.fundingEvidence then payload takeFundingEvidence p
  else if kind = Kind.fundingRecovered then payload takeFundingRecovered p
  else if kind = Kind.fundingState then payload takeFundingState p
  else if kind = Kind.feeEvidence then payload takeFeeEvidence p
  else if kind = Kind.execution then payload takeExecution p
  else if kind = Kind.ledgerStart then payload takeLedgerStart p
  else if kind = Kind.reconciled then payload takeReconciled p
  else none

/-! ## Reading back what was written -/

theorem toNat_count {n : Nat} (h : n < 2 ^ 63) : (count n).toInt.toNat = n := by
  unfold count
  rw [if_pos h, Int64.toInt_ofNat_of_lt h, Int.toNat_natCast]

theorem count_nonneg {n : Nat} (h : n < 2 ^ 63) : 0 ≤ count n := by
  rw [Int64.le_iff_toInt_le]
  unfold count
  rw [if_pos h, Int64.toInt_ofNat_of_lt h]
  exact Int.natCast_nonneg n

theorem rounds_apply {n : Nat} (h : n < 2 ^ 63) (rest : List UInt8) :
    rounds (i64Bytes (count n) ++ rest) = some (n, rest) := by
  unfold rounds
  rw [i64_step, toNat_count h]
  rfl

theorem size_apply {n : Nat} (h : n < 2 ^ 63) (rest : List UInt8) :
    size (i64Bytes (count n) ++ rest) = some (n, rest) := by
  unfold size
  rw [i64_step, ensure_step (count_nonneg h), toNat_count h]
  rfl

theorem flag_apply (b : Bool) (rest : List UInt8) :
    flag (boolByte b :: rest) = some (b, rest) := by
  cases b <;> rfl

theorem takeSide_apply (side : Side) (rest : List UInt8) :
    takeSide (sideByte side :: rest) = some (side, rest) := by
  cases side <;> rfl

/-- A text whose length its length field holds. -/
def Short (s : String) : Prop := s.utf8ByteSize < 2 ^ 32

theorem takeLeg_apply {l : AdoptedLeg} (h : Short l.symbol ∧ Short l.leg) (rest : List UInt8) :
    takeLeg (legBytes l ++ rest) = some (l, rest) := by
  unfold takeLeg legBytes
  simp only [List.append_assoc, str_step _ h.1, str_step _ h.2, i64_step, pure_apply]

theorem takeEntry_apply {e : String × Int64} (h : Short e.1) (rest : List UInt8) :
    takeEntry (entryBytes e ++ rest) = some (e, rest) := by
  unfold takeEntry entryBytes
  simp only [List.append_assoc, str_step _ h, i64_step, pure_apply]

theorem takeLine_apply (l : FundingLine) (rest : List UInt8) :
    takeLine (lineBytes l ++ rest) = some (l, rest) := by
  unfold takeLine lineBytes
  simp only [List.append_assoc, i64_step, pure_apply]

theorem takeGap_apply (g : ScheduleGap) (rest : List UInt8) :
    takeGap (gapBytes g ++ rest) = some (g, rest) := by
  obtain ⟨sinceMs, until_⟩ := g
  unfold takeGap gapBytes
  cases until_ with
  | none =>
    have hflag := flag_apply false rest
    simp only [List.append_assoc, i64_step]
    exact step hflag _
  | some until_ =>
    have hflag := flag_apply true (i64Bytes until_ ++ rest)
    simp only [List.append_assoc, i64_step]
    refine (step hflag _).trans ?_
    simp

theorem takeProblem_apply {problem : Option String} (h : ∀ s, problem = some s → Short s)
    (rest : List UInt8) : takeProblem (problemBytes problem ++ rest) = some (problem, rest) := by
  unfold takeProblem problemBytes
  cases problem with
  | none => exact step (flag_apply false rest) _
  | some s =>
    refine (step (flag_apply true (strBytes s ++ rest)) _).trans ?_
    simp [str_step _ (h s rfl)]

theorem length_flatMap_lineBytes (lines : List FundingLine) :
    (lines.flatMap lineBytes).length = lines.length * 24 := by
  induction lines with
  | nil => rfl
  | cons l lines ih =>
    rw [List.flatMap_cons, List.length_append, ih, List.length_cons, lineBytes]
    simp
    omega

theorem takeLines_apply {lines : List FundingLine} (h : lines.length * 24 < 2 ^ 64)
    (h' : lines.length < 2 ^ 63) :
    takeLines (i64Bytes (count lines.length) ++ lines.flatMap lineBytes) = some (lines, []) := by
  unfold takeLines
  have hmany : many takeLine lines.length (lines.flatMap lineBytes ++ []) = some (lines, []) :=
    many_apply (fun l _ => takeLine_apply l) []
  rw [List.append_nil] at hmany
  rw [step (size_apply h' _), left_step,
    ensure_step ⟨h, (length_flatMap_lineBytes lines).symm⟩, hmany]

theorem takeFill_apply (made : Fill) (fee : Fee) :
    takeFill (fillBytes made fee) = some ((made, fee), []) := by
  have hlen : (Event.venueFill made fee).encode.length < 2 ^ 32 := by
    cases fee <;> simp [Event.encode, Event.feeBytes]
  have hback : Event.decode Event.Kind.venueFill (Event.venueFill made fee).encode =
      some (.venueFill made fee) := Event.decode_encode (.venueFill made fee) trivial
  unfold takeFill fillBytes
  rw [step (u32_apply hlen _), left_step, ensure_step (UInt32.toNat_ofNat_of_lt' hlen), all_step,
    hback]
  rfl

theorem orderWord_natAbs {order : UInt64} (h : order.toNat < 2 ^ 63) :
    UInt64.ofNat (orderWord order).toInt.natAbs = order := by
  have hint : order.toInt64.toInt = order.toNat := by
    show order.toBitVec.toInt = _
    rw [BitVec.toInt_eq_toNat_of_lt (by simpa using by omega)]
    rfl
  unfold orderWord
  rw [if_pos h, hint, Int.natAbs_natCast, UInt64.ofNat_toNat]

/-! ## What survives -/

/-- The texts of a record. -/
def texts : Record → List String
  | .sessionStart issued symbol _ _ => [issued, symbol]
  | .tick _ _ _ _ _ _ => []
  | .submitted _ clientId _ _ _ _ leg => [clientId, leg]
  | .outcome _ clientId _ detail => [clientId, detail]
  | .cancelled _ clientId => [clientId]
  | .fill _ clientId _ qty price _ side => [clientId, qty, price, side]
  | .refused _ breach => [breach]
  | .reconciled _ legs => legs.flatMap fun l => [l.symbol, l.leg]
  | .waiting _ entries => entries.map Prod.fst
  | .operator _ command reason origin answer => [command, reason, origin, answer]
  | .funding _ _ rate mark _ _ _ => [rate, mark]
  | .fundingEvidence _ _ rate mark _ _ _ _ => [rate, mark]
  | .fundingRecovered _ _ _ _ => []
  | .fundingState _ obligations => obligations.problem.toList
  | .feeEvidence _ _ _ _ => []
  | .execution clientId _ _ => [clientId]
  | .ledgerStart _ _ _ _ _ _ => []

/-- The lists of a record fit the counts that are written of them; the bytes of a list
of lines are counted too. -/
def Countable : Record → Prop
  | .reconciled _ legs => legs.length < 2 ^ 63
  | .waiting _ entries => entries.length < 2 ^ 63
  | .fundingEvidence _ _ _ _ _ _ _ lines => lines.length * 24 < 2 ^ 64
  | .fundingRecovered _ _ _ lines => lines.length * 24 < 2 ^ 64
  | .fundingState _ obligations =>
    obligations.pendingMs.length < 2 ^ 63 ∧ obligations.scheduleGaps.length < 2 ^ 63
  | _ => True

/-- The order a fill names is an `i64`. -/
def OrderFits : Record → Prop
  | .fill _ _ _ _ _ order _ => order.toNat < 2 ^ 63
  | _ => True

/-- A ledger start agrees with itself. -/
def Agrees : Record → Prop
  | .ledgerStart _ _ instrument tickCash _ _ => Consistent instrument tickCash
  | _ => True

theorem payload_sessionStart {issued symbol : String} (priceScale qtyScale : UInt8)
    (hi : Short issued) (hs : Short symbol) :
    payload takeSessionStart (encode (.sessionStart issued symbol priceScale qtyScale)) =
      some (.sessionStart issued symbol priceScale qtyScale) := by
  unfold takeSessionStart encode
  simp only [List.append_assoc, payload, str_step _ hi, str_step _ hs, u8_step, pure_apply]

theorem payload_tick (at_ seen : Nanos) (last bid ask : PriceTicks) (volume : QtyLots) :
    payload takeTick (encode (.tick at_ seen last bid ask volume)) =
      some (.tick at_ seen last bid ask volume) := by
  unfold takeTick encode
  simp only [List.append_assoc, payload, i64_step, i64_step_nil, pure_apply]

theorem payload_submitted (at_ : Nanos) {clientId leg : String} (side : Side)
    (limitPrice : PriceTicks) (qty : QtyLots) (reduceOnly : Bool) (hc : Short clientId)
    (hl : Short leg) :
    payload takeSubmitted (encode (.submitted at_ clientId side limitPrice qty reduceOnly leg)) =
      some (.submitted at_ clientId side limitPrice qty reduceOnly leg) := by
  have hflag : (boolByte reduceOnly != 0) = reduceOnly := by cases reduceOnly <;> rfl
  have hmore : (strBytes leg).length ≠ 0 := by
    rw [strBytes_of_lt hl]
    simp
  unfold takeSubmitted encode
  simp only [List.append_assoc, List.cons_append, List.nil_append, payload, i64_step,
    str_step _ hc, step (takeSide_apply side _), u8_step, left_step, if_neg hmore,
    str_step_nil _ hl, pure_apply, hflag]

theorem payload_outcome (at_ : Nanos) {clientId detail : String} (tag : OutcomeTag)
    (hc : Short clientId) (hd : Short detail) :
    payload takeOutcome (encode (.outcome at_ clientId tag detail)) =
      some (.outcome at_ clientId tag detail) := by
  unfold takeOutcome encode
  simp only [List.append_assoc, List.cons_append, List.nil_append, payload, i64_step,
    str_step _ hc, u8_step, OutcomeTag.ofByte_byte, given_step, str_step_nil _ hd, pure_apply]

theorem payload_fill (at_ : Nanos) {clientId qty price side : String} (tradeId : Int64)
    {order : UInt64} (hc : Short clientId) (hq : Short qty) (hp : Short price) (hs : Short side)
    (horder : order.toNat < 2 ^ 63) :
    payload takeFillRecord (encode (.fill at_ clientId tradeId qty price order side)) =
      some (.fill at_ clientId tradeId qty price order side) := by
  unfold takeFillRecord encode
  simp only [List.append_assoc, payload, i64_step, str_step _ hc, str_step _ hq, str_step _ hp,
    str_step_nil _ hs, pure_apply, orderWord_natAbs horder]

theorem payload_cancelled (at_ : Nanos) {clientId : String} (hc : Short clientId) :
    payload takeCancelled (encode (.cancelled at_ clientId)) = some (.cancelled at_ clientId) := by
  unfold takeCancelled encode
  simp only [payload, i64_step, str_step_nil _ hc, pure_apply]

theorem payload_refused (at_ : Nanos) {breach : String} (hb : Short breach) :
    payload takeRefused (encode (.refused at_ breach)) = some (.refused at_ breach) := by
  unfold takeRefused encode
  simp only [payload, i64_step, str_step_nil _ hb, pure_apply]

theorem payload_waiting (at_ : Nanos) {entries : List (String × Int64)}
    (hs : ∀ e ∈ entries, Short e.1) (hn : entries.length < 2 ^ 63) :
    payload takeWaiting (encode (.waiting at_ entries)) = some (.waiting at_ entries) := by
  have hmany := many_apply (fun e he => takeEntry_apply (hs e he)) []
  rw [List.append_nil] at hmany
  unfold takeWaiting encode
  simp only [List.append_assoc, payload, i64_step, step (rounds_apply hn _), step hmany, pure_apply]

theorem payload_operator (at_ : Nanos) {command reason origin answer : String}
    (hc : Short command) (hr : Short reason) (ho : Short origin) (ha : Short answer) :
    payload takeOperator (encode (.operator at_ command reason origin answer)) =
      some (.operator at_ command reason origin answer) := by
  unfold takeOperator encode
  simp only [List.append_assoc, payload, i64_step, str_step _ hc, str_step _ hr, str_step _ ho,
    str_step_nil _ ha, pure_apply]

theorem payload_funding (at_ : Nanos) (settledMs : Int64) {rate mark : String}
    (venue model : Cash) (verified : Bool) (hr : Short rate) (hm : Short mark) :
    payload takeFunding (encode (.funding at_ settledMs rate mark venue model verified)) =
      some (.funding at_ settledMs rate mark venue model verified) := by
  have hflag : (boolByte verified != 0) = verified := by cases verified <;> rfl
  unfold takeFunding encode fundingBytes
  simp only [List.append_assoc, payload, i64_step, str_step _ hr, str_step _ hm, u8_step,
    pure_apply, hflag]

theorem payload_fundingEvidence (at_ : Nanos) (settledMs : Int64) {rate mark : String}
    (venue model : Cash) (verified : Bool) {lines : List FundingLine} (hr : Short rate)
    (hm : Short mark) (hn : lines.length * 24 < 2 ^ 64) :
    payload takeFundingEvidence
        (encode (.fundingEvidence at_ settledMs rate mark venue model verified lines)) =
      some (.fundingEvidence at_ settledMs rate mark venue model verified lines) := by
  unfold takeFundingEvidence encode fundingBytes
  simp only [List.append_assoc, List.cons_append, List.nil_append, payload, i64_step,
    str_step _ hr, str_step _ hm, step (flag_apply verified _),
    step (takeLines_apply hn (by omega)), pure_apply]

theorem payload_fundingRecovered (at_ : Nanos) (sinceMs throughMs : Int64)
    {lines : List FundingLine} (hn : lines.length * 24 < 2 ^ 64) :
    payload takeFundingRecovered (encode (.fundingRecovered at_ sinceMs throughMs lines)) =
      some (.fundingRecovered at_ sinceMs throughMs lines) := by
  unfold takeFundingRecovered encode
  simp only [List.append_assoc, payload, i64_step, step (takeLines_apply hn (by omega)), pure_apply]

theorem length_flatMap_i64Bytes (xs : List Int64) :
    (xs.flatMap i64Bytes).length = xs.length * 8 := by
  induction xs with
  | nil => rfl
  | cons x xs ih =>
    rw [List.flatMap_cons, List.length_append, ih, List.length_cons, length_i64Bytes]
    omega

/-- A gap takes nine bytes at least. -/
theorem le_length_flatMap_gapBytes (gaps : List ScheduleGap) :
    gaps.length * 9 ≤ (gaps.flatMap gapBytes).length := by
  induction gaps with
  | nil => exact Nat.le_refl _
  | cons g gaps ih =>
    have hone : 9 ≤ (gapBytes g).length := by
      unfold gapBytes
      cases g.untilMs <;> simp
    rw [List.flatMap_cons, List.length_append, List.length_cons]
    omega

theorem payload_fundingState (at_ : Nanos) {obligations : FundingObligations}
    (hpending : obligations.pendingMs.length < 2 ^ 63)
    (hgaps : obligations.scheduleGaps.length < 2 ^ 63)
    (hproblem : ∀ s, obligations.problem = some s → Short s) :
    payload takeFundingState (encode (.fundingState at_ obligations)) =
      some (.fundingState at_ obligations) := by
  obtain ⟨pendingMs, scheduleGaps, problem⟩ := obligations
  have hend := takeProblem_apply hproblem []
  rw [List.append_nil] at hend
  have henough : pendingMs.length ≤ (pendingMs.flatMap i64Bytes ++
      (i64Bytes (count scheduleGaps.length) ++
        (scheduleGaps.flatMap gapBytes ++ problemBytes problem))).length / 8 := by
    rw [List.length_append, length_flatMap_i64Bytes]
    omega
  have henough' : scheduleGaps.length ≤
      (scheduleGaps.flatMap gapBytes ++ problemBytes problem).length / 9 := by
    have hle := le_length_flatMap_gapBytes scheduleGaps
    rw [List.length_append]
    omega
  unfold takeFundingState encode
  simp only [List.append_assoc, payload, i64_step, step (size_apply hpending _), left_step,
    ensure_step henough, step (many_apply (fun x _ => i64_apply x) _),
    step (size_apply hgaps _), ensure_step henough',
    step (many_apply (fun g _ => takeGap_apply g) _), step hend, pure_apply]

theorem payload_feeEvidence (at_ : Nanos) (sourceMs : Int64) (made : Fill) (amount : Cash) :
    payload takeFeeEvidence (encode (.feeEvidence at_ sourceMs made amount)) =
      some (.feeEvidence at_ sourceMs made amount) := by
  unfold takeFeeEvidence encode
  simp only [List.append_assoc, payload, i64_step, step (takeFill_apply made _), pure_apply]

theorem payload_execution {clientId : String} (made : Fill) (fee : Fee) (hc : Short clientId) :
    payload takeExecution (encode (.execution clientId made fee)) =
      some (.execution clientId made fee) := by
  unfold takeExecution encode
  simp only [payload, str_step _ hc, step (takeFill_apply made _), pure_apply]

theorem payload_reconciled (at_ : Nanos) {legs : List AdoptedLeg}
    (hs : ∀ l ∈ legs, Short l.symbol ∧ Short l.leg) (hn : legs.length < 2 ^ 63) :
    payload takeReconciled (encode (.reconciled at_ legs)) = some (.reconciled at_ legs) := by
  have hmany := many_apply (fun l hl => takeLeg_apply (hs l hl)) []
  rw [List.append_nil] at hmany
  unfold takeReconciled encode
  simp only [List.append_assoc, payload, i64_step, step (rounds_apply hn _), step hmany, pure_apply]

/-- A ledger start is refused exactly if it contradicts itself. -/
theorem payload_ledgerStart (at_ : Nanos) (instrumentId : InstrumentId)
    (instrument : ListedInstrument) (tickCash : Int64) (balance : Cash) (mode : PositionMode) :
    payload takeLedgerStart (encode (.ledgerStart at_ instrumentId instrument tickCash balance
    mode)) =
      if Consistent instrument tickCash then
        some (.ledgerStart at_ instrumentId instrument tickCash balance mode)
      else none := by
  obtain ⟨⟨priceScale, qtyScale, contractSize⟩, priceTick, qtyStep, minNotional⟩ := instrument
  have hid : (Int64.ofNat instrumentId.toNat).toInt = instrumentId.toNat :=
    Int64.toInt_ofNat_of_lt (Nat.lt_trans instrumentId.toNat_lt (by decide))
  have hfits : 0 ≤ Int64.ofNat instrumentId.toNat ∧
      (Int64.ofNat instrumentId.toNat).toInt < 2 ^ 32 := by
    rw [Int64.le_iff_toInt_le, hid]
    exact ⟨Int.natCast_nonneg _, by exact_mod_cast instrumentId.toNat_lt⟩
  have hmode : modeByte mode = boolByte (mode == .hedge) := by cases mode <;> rfl
  have hback : (if (mode == .hedge) = true then PositionMode.hedge else .oneWay) = mode := by
    cases mode <;> rfl
  unfold takeLedgerStart encode
  simp only [List.append_assoc, List.cons_append, List.nil_append, payload, i64_step,
    ensure_step hfits, u8_step, hmode, step (flag_apply _ _), hback]
  by_cases hok : Consistent ⟨⟨priceScale, qtyScale, contractSize⟩, priceTick, qtyStep, minNotional⟩
      tickCash
  · simp only [ensure_step hok, if_pos hok, pure_apply, hid, Int.toNat_natCast, UInt32.ofNat_toNat]
  · simp only [ensure_step_of_not hok, if_neg hok]

/-- How a record of this kind is read. -/
def reader : Record → Take Record
  | .sessionStart _ _ _ _ => takeSessionStart
  | .tick _ _ _ _ _ _ => takeTick
  | .submitted _ _ _ _ _ _ _ => takeSubmitted
  | .outcome _ _ _ _ => takeOutcome
  | .fill _ _ _ _ _ _ _ => takeFillRecord
  | .refused _ _ => takeRefused
  | .cancelled _ _ => takeCancelled
  | .reconciled _ _ => takeReconciled
  | .waiting _ _ => takeWaiting
  | .operator _ _ _ _ _ => takeOperator
  | .funding _ _ _ _ _ _ _ => takeFunding
  | .fundingEvidence _ _ _ _ _ _ _ _ => takeFundingEvidence
  | .fundingRecovered _ _ _ _ => takeFundingRecovered
  | .fundingState _ _ => takeFundingState
  | .feeEvidence _ _ _ _ => takeFeeEvidence
  | .execution _ _ _ => takeExecution
  | .ledgerStart _ _ _ _ _ _ => takeLedgerStart

/-- No two kinds share a number, so each payload goes to its own reader. -/
theorem decode_kind (r : Record) (p : List UInt8) : decode r.kind p = payload r.reader p := by
  cases r <;> simp [decode, kind, reader, Kind.sessionStart, Kind.tick, Kind.submitted,
    Kind.outcome, Kind.fill, Kind.refused, Kind.cancelled, Kind.reconciled, Kind.waiting,
    Kind.operator, Kind.funding, Kind.fundingEvidence, Kind.fundingRecovered, Kind.fundingState,
    Kind.feeEvidence, Kind.execution, Kind.ledgerStart]

/-- A submission that fits in a frame is read back, whatever it says. -/
theorem decode_submitted (at_ : Nanos) (clientId leg : String) (side : Side)
    (limitPrice : PriceTicks) (qty : QtyLots) (reduceOnly : Bool)
    (h : (encode (.submitted at_ clientId side limitPrice qty reduceOnly leg)).length < 2 ^ 32) :
    decode Kind.submitted (encode (.submitted at_ clientId side limitPrice qty reduceOnly leg)) =
      some (.submitted at_ clientId side limitPrice qty reduceOnly leg) := by
  have hparts := h
  rw [encode] at hparts
  simp only [List.length_append] at hparts
  have hclient : Short clientId := utf8ByteSize_lt_of_strBytes (by omega)
  have hleg : Short leg := utf8ByteSize_lt_of_strBytes (by omega)
  exact (decode_kind (.submitted at_ clientId side limitPrice qty reduceOnly leg) _).trans
    (payload_submitted at_ side limitPrice qty reduceOnly hclient hleg)

/-- What was read, if anything, is of this kind. -/
def OfKind (kind : UInt16) (read : Option Record) : Prop := ∀ r, read = some r → r.kind = kind

/-- One kind of `decode`, and the kinds after it. -/
theorem ofKind_ite {kind k : UInt16} {t : Take Record} {p : List UInt8} {rest : Option Record}
    (ht : Yields (fun r => r.kind = k) t) (hrest : OfKind kind rest) :
    OfKind kind (if kind = k then payload t p else rest) := by
  by_cases hkind : kind = k
  · rw [if_pos hkind, hkind]
    exact fun r hr => ht.payload hr
  · rwa [if_neg hkind]

/-- **A payload is read as a record of the kind it was written under.** -/
theorem kind_of_decode (kind : UInt16) (p : List UInt8) : OfKind kind (decode kind p) := by
  unfold decode
  iterate 17
    refine ofKind_ite ?_ ?_
    rotate_left
  · exact fun _ hnone => nomatch hnone
  -- whatever the fields are, a reader ends in the one constructor
  all_goals
    repeat' first
      | exact yields_pure rfl
      | exact yields_given_none
      | refine yields_bind _ fun _ => ?_
      | split

/-- **Every record is read back as it was written**, if its texts and lists fit and the
order it names is an `i64`; a ledger start exactly if it agrees with itself. -/
theorem decode_encode_iff (r : Record) (htexts : ∀ s ∈ r.texts, s.utf8ByteSize < 2 ^ 32)
    (hcount : r.Countable) (horder : r.OrderFits) :
    decode r.kind r.encode = some r ↔ r.Agrees := by
  rw [decode_kind]
  have hread : r.Agrees → payload r.reader r.encode = some r := by
    intro hagrees
    cases r with
    | sessionStart issued symbol priceScale qtyScale =>
      exact payload_sessionStart priceScale qtyScale (htexts _ (by simp [texts]))
        (htexts _ (by simp [texts]))
    | tick at_ seen last bid ask volume => exact payload_tick at_ seen last bid ask volume
    | submitted at_ clientId side limitPrice qty reduceOnly leg =>
      exact payload_submitted at_ side limitPrice qty reduceOnly (htexts _ (by simp [texts]))
        (htexts _ (by simp [texts]))
    | outcome at_ clientId tag detail =>
      exact payload_outcome at_ tag (htexts _ (by simp [texts])) (htexts _ (by simp [texts]))
    | cancelled at_ clientId => exact payload_cancelled at_ (htexts _ (by simp [texts]))
    | fill at_ clientId tradeId qty price order side =>
      exact payload_fill at_ tradeId (htexts _ (by simp [texts])) (htexts _ (by simp [texts]))
        (htexts _ (by simp [texts])) (htexts _ (by simp [texts])) horder
    | refused at_ breach => exact payload_refused at_ (htexts _ (by simp [texts]))
    | reconciled at_ legs =>
      refine payload_reconciled at_ (fun l hl => ⟨htexts _ ?_, htexts _ ?_⟩) hcount
      · exact List.mem_flatMap.mpr ⟨l, hl, by simp⟩
      · exact List.mem_flatMap.mpr ⟨l, hl, by simp⟩
    | waiting at_ entries =>
      exact payload_waiting at_ (fun e he => htexts _ (List.mem_map_of_mem he)) hcount
    | operator at_ command reason origin answer =>
      exact payload_operator at_ (htexts _ (by simp [texts])) (htexts _ (by simp [texts]))
        (htexts _ (by simp [texts])) (htexts _ (by simp [texts]))
    | funding at_ settledMs rate mark venue model verified =>
      exact payload_funding at_ settledMs venue model verified (htexts _ (by simp [texts]))
        (htexts _ (by simp [texts]))
    | fundingEvidence at_ settledMs rate mark venue model verified lines =>
      exact payload_fundingEvidence at_ settledMs venue model verified (htexts _ (by simp [texts]))
        (htexts _ (by simp [texts])) hcount
    | fundingRecovered at_ sinceMs throughMs lines =>
      exact payload_fundingRecovered at_ sinceMs throughMs hcount
    | fundingState at_ obligations =>
      exact payload_fundingState at_ hcount.1 hcount.2 fun s hs => htexts s (by simp [texts, hs])
    | feeEvidence at_ sourceMs made amount => exact payload_feeEvidence at_ sourceMs made amount
    | execution clientId made fee => exact payload_execution made fee (htexts _ (by simp [texts]))
    | ledgerStart at_ instrumentId instrument tickCash balance mode =>
      exact (payload_ledgerStart at_ instrumentId instrument tickCash balance mode).trans
        (if_pos hagrees)
  refine ⟨fun hback => ?_, hread⟩
  -- only a ledger start can disagree with itself
  cases r with
  | ledgerStart at_ instrumentId instrument tickCash balance mode =>
    by_contra hcontra
    have hnone := (payload_ledgerStart at_ instrumentId instrument tickCash balance mode).trans
      (if_neg hcontra)
    cases hback.symm.trans hnone
  | _ => trivial

/-- A withdrawal, and a fill whose order is the last that is an `i64`. -/
def withdrawal : Record := .cancelled 1_700_000_000 "oq-17"

def lastFill : Record := .fill 1_700_000_000 "oq-17" 88 "0.020" "2500.5" 0x7FFFFFFFFFFFFFFF "BUY"

/-- A ledger start whose contract has a tick worth 1000, and which says 2000. -/
def disagreeing : Record :=
  .ledgerStart 1_700_000_000 7 ⟨⟨2, 3, 100_000_000⟩, 10, 1, 0⟩ 2000 100_000 .oneWay

example : decode lastFill.kind lastFill.encode = some lastFill := by decide +kernel

/-- A ledger start that disagrees with itself is written and cannot be read. -/
theorem decode_encode_disagreeing :
    ((∀ s ∈ disagreeing.texts, s.utf8ByteSize < 2 ^ 32) ∧ disagreeing.Countable ∧
      disagreeing.OrderFits) ∧
    decode disagreeing.kind disagreeing.encode ≠ some disagreeing := by
  refine ⟨⟨by decide, trivial, trivial⟩, ?_⟩
  decide +kernel

theorem decode_encode_withdrawal :
    decode withdrawal.kind withdrawal.encode = some withdrawal ↔ withdrawal.Agrees :=
  decode_encode_iff withdrawal (by decide) trivial trivial

end Record

end Live
