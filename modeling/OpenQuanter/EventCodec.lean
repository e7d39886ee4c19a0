/-
# Events as bytes (`Event::encode` and `Event::decode` of `oq-core/src/event.rs`)

Fixed-layout payloads, the kind travelling in the record's header.  A kind that
names its instrument appends it, so the shorter payload is the beginning of the
longer one.  Every event is read back as it was written (`decode_encode`).
-/
import OpenQuanter.Bytes
import OpenQuanter.Event

namespace Event

/-! ## Kinds -/

namespace Kind

def tick : UInt16 := 1
/-- Read, never written: a submission from before orders stated open or close. -/
def submitLegacy : UInt16 := 2
def cancel : UInt16 := 3
def funding : UInt16 := 4
def time : UInt16 := 5
def marginDeposit : UInt16 := 6
def submit : UInt16 := 7
def venueFill : UInt16 := 8
def depth : UInt16 := 9
def tickOn : UInt16 := 10
def submitOn : UInt16 := 11
def fundingOn : UInt16 := 12
def fundingCharged : UInt16 := 13
def feeRecovered : UInt16 := 14

end Kind

/-- The journal record kind of an event. -/
def kind : Event → UInt16
  | .tick none _ => Kind.tick
  | .tick (some _) _ => Kind.tickOn
  | .submit none _ _ _ _ _ _ => Kind.submit
  | .submit (some _) _ _ _ _ _ _ => Kind.submitOn
  | .cancel _ _ => Kind.cancel
  | .funding none _ _ _ => Kind.funding
  | .funding (some _) _ _ _ => Kind.fundingOn
  | .fundingCharged _ _ _ => Kind.fundingCharged
  | .feeRecovered _ _ _ => Kind.feeRecovered
  | .time _ => Kind.time
  | .marginDeposit _ _ => Kind.marginDeposit
  | .venueFill _ _ => Kind.venueFill
  | .depth _ => Kind.depth

/-! ## Enumerations as bytes -/

def sideByte : Side → UInt8
  | .buy => 0
  | .sell => 1

def sideOf : UInt8 → Option Side
  | 0 => some .buy
  | 1 => some .sell
  | _ => none

def offsetByte : Offset → UInt8
  | .opening => 0
  | .closing => 1

def offsetOf : UInt8 → Option Offset
  | 0 => some .opening
  | 1 => some .closing
  | _ => none

def liquidityByte : Liquidity → UInt8
  | .maker => 0
  | .taker => 1

def liquidityOf : UInt8 → Option Liquidity
  | 0 => some .maker
  | 1 => some .taker
  | _ => none

@[simp] theorem sideOf_sideByte (s : Side) : sideOf (sideByte s) = some s := by
  cases s <;> rfl

@[simp] theorem offsetOf_offsetByte (o : Offset) : offsetOf (offsetByte o) = some o := by
  cases o <;> rfl

@[simp] theorem liquidityOf_liquidityByte (l : Liquidity) :
    liquidityOf (liquidityByte l) = some l := by
  cases l <;> rfl

/-! ## Writing -/

/-- The instrument an event names, appended to its payload. -/
def instrumentBytes : Option InstrumentId → List UInt8
  | none => []
  | some id => u32Bytes id

def levelBytes (l : Level) : List UInt8 := i64Bytes l.price ++ i64Bytes l.qty

/-- The variable-length payload: sequence fields, a byte that says whether the
previous id is there, the two counts, the levels. -/
def encodeDepth (u : DepthUpdate) : List UInt8 :=
  i64Bytes u.eventMs ++ (u64Bytes u.firstId ++ (u64Bytes u.finalId ++
    (u64Bytes (u.prevFinalId.getD 0) ++ ((if u.prevFinalId.isSome then 1 else 0) ::
      (u32Bytes (UInt32.ofNat u.bids.length) ++ (u32Bytes (UInt32.ofNat u.asks.length) ++
        (u.bids ++ u.asks).flatMap levelBytes))))))

def feeBytes : Fee → List UInt8
  | .unsaid => [0]
  | .reported cash => 1 :: i64Bytes cash
  | .unreadable => [2]

/-- The payload of an event. -/
def encode : Event → List UInt8
  | .tick instrument t =>
    i64Bytes t.stamp.exch ++ (i64Bytes t.stamp.local_ ++ (i64Bytes t.last ++ (i64Bytes t.high ++
      (i64Bytes t.low ++ (i64Bytes t.bid ++ (i64Bytes t.ask ++ (i64Bytes t.volume ++
        instrumentBytes instrument)))))))
  | .submit instrument id side price qty offset stamp =>
    u64Bytes id ++ (sideByte side :: (if price.isSome then 1 else 0) ::
      (i64Bytes (price.getD 0) ++ (i64Bytes qty ++ (i64Bytes stamp.exch ++ (i64Bytes stamp.local_ ++
        (offsetByte offset :: instrumentBytes instrument))))))
  | .cancel id stamp => u64Bytes id ++ (i64Bytes stamp.exch ++ i64Bytes stamp.local_)
  | .funding instrument at_ rate mark =>
    i64Bytes at_ ++ (i64Bytes rate ++ (i64Bytes mark ++ instrumentBytes instrument))
  | .fundingCharged instrument at_ amount =>
    i64Bytes at_ ++ (i64Bytes amount ++ instrumentBytes instrument)
  | .feeRecovered at_ amount remainingMissing =>
    i64Bytes at_ ++ (i64Bytes amount ++ u64Bytes remainingMissing)
  | .time at_ => i64Bytes at_
  | .marginDeposit amount at_ => i64Bytes amount ++ i64Bytes at_
  | .venueFill f fee =>
    i64Bytes f.stamp.exch ++ (i64Bytes f.stamp.local_ ++ (u32Bytes f.instrument ++
      (u64Bytes f.order ++ (u64Bytes f.trade ++ (i64Bytes f.price ++ (i64Bytes f.qty ++
        (sideByte f.side :: offsetByte f.offset :: liquidityByte f.liquidity ::
          feeBytes fee)))))))
  | .depth u => encodeDepth u

/-! ## Reading -/

/-- `i64_at`: the `i`-th word of eight bytes. -/
def wordAt (bytes : List UInt8) (i : Nat) : Option Int64 := i64At bytes (i * 8)

/-- The payload of a kind must have exactly its length. -/
def expect (ok : Prop) [Decidable ok] : Option Unit := if ok then some () else none

@[simp] theorem expect_eq_some {ok : Prop} [Decidable ok] {u : Unit} :
    expect ok = some u ↔ ok := by
  unfold expect
  split <;> simp_all

theorem expect_of {ok : Prop} [Decidable ok] (h : ok) : expect ok = some () := if_pos h

/-- The instrument at the end of a payload, for a kind that names one. -/
def instrumentAt (named : Bool) (payload : List UInt8) (at_ : Nat) : Option (Option InstrumentId) :=
  if named then (u32At payload at_).map some else some none

def decodeTick (named : Bool) (payload : List UInt8) : Option Event := do
  expect (payload.length = if named then 68 else 64)
  let instrument ← instrumentAt named payload 64
  let exch ← wordAt payload 0
  let local_ ← wordAt payload 1
  let last ← wordAt payload 2
  let high ← wordAt payload 3
  let low ← wordAt payload 4
  let bid ← wordAt payload 5
  let ask ← wordAt payload 6
  let volume ← wordAt payload 7
  some (.tick instrument ⟨⟨exch, local_⟩, last, high, low, bid, ask, volume⟩)

/-- A submission: from before orders stated open or close, without an
instrument, or with one. -/
def decodeSubmit (legacy named : Bool) (payload : List UInt8) : Option Event := do
  expect (payload.length = if legacy then 42 else if named then 47 else 43)
  let instrument ← instrumentAt named payload 43
  let offset ← if legacy then some .opening else payload[42]? >>= offsetOf
  let id ← u64At payload 0
  let side ← payload[8]? >>= sideOf
  let hasPrice ← payload[9]?
  let rest := payload.drop 10
  let price ← wordAt rest 0
  let qty ← wordAt rest 1
  let exch ← wordAt rest 2
  let local_ ← wordAt rest 3
  some (.submit instrument id side (if hasPrice = 1 then some price else none) qty offset
    ⟨exch, local_⟩)

def decodeCancel (payload : List UInt8) : Option Event := do
  expect (payload.length = 24)
  let id ← u64At payload 0
  let rest := payload.drop 8
  let exch ← wordAt rest 0
  let local_ ← wordAt rest 1
  some (.cancel id ⟨exch, local_⟩)

def decodeFunding (named : Bool) (payload : List UInt8) : Option Event := do
  expect (payload.length = if named then 28 else 24)
  let instrument ← instrumentAt named payload 24
  let at_ ← wordAt payload 0
  let rate ← wordAt payload 1
  let mark ← wordAt payload 2
  some (.funding instrument at_ rate mark)

/-- The instrument of a funding charge is optional within one kind: the length
says whether it is there. -/
def chargedInstrument (payload : List UInt8) : Option (Option InstrumentId) :=
  if payload.length = 16 then some none
  else if payload.length = 20 then (u32At payload 16).map some
  else none

def decodeFundingCharged (payload : List UInt8) : Option Event := do
  let instrument ← chargedInstrument payload
  let at_ ← wordAt payload 0
  let amount ← wordAt payload 1
  some (.fundingCharged instrument at_ amount)

def decodeTime (payload : List UInt8) : Option Event := do
  expect (payload.length = 8)
  let at_ ← wordAt payload 0
  some (.time at_)

def decodeFeeRecovered (payload : List UInt8) : Option Event := do
  expect (payload.length = 24)
  let at_ ← wordAt payload 0
  let amount ← wordAt payload 1
  let remainingMissing ← u64At payload 16
  some (.feeRecovered at_ amount remainingMissing)

def decodeMarginDeposit (payload : List UInt8) : Option Event := do
  expect (payload.length = 16)
  let amount ← wordAt payload 0
  let at_ ← wordAt payload 1
  some (.marginDeposit amount at_)

/-- Bytes of a depth payload before its levels. -/
def depthHeader : Nat := 41

def levelAt (payload : List UInt8) (i : Nat) : Option Level := do
  let price ← i64At payload (depthHeader + i * 16)
  let qty ← i64At payload (depthHeader + i * 16 + 8)
  some ⟨price, qty⟩

/-- The only kind whose length is declared: the header, then exactly the levels
it says it carries. -/
def decodeDepth (payload : List UInt8) : Option Event := do
  expect (depthHeader ≤ payload.length)
  let prev ← u64At payload 24
  let prevFinalId ← payload[32]? >>= fun flag =>
    if flag = 0 then some none else if flag = 1 then some (some prev) else none
  let bidCount ← u32At payload 33
  let askCount ← u32At payload 37
  let levels := bidCount.toNat + askCount.toNat
  expect (payload.length = depthHeader + levels * 16)
  let read ← (List.range levels).mapM (levelAt payload)
  let eventMs ← i64At payload 0
  let firstId ← u64At payload 8
  let finalId ← u64At payload 16
  some (.depth
    { eventMs := eventMs, firstId := firstId, finalId := finalId, prevFinalId := prevFinalId,
      bids := read.take bidCount.toNat, asks := read.drop bidCount.toNat })

/-- The fee of a venue fill by the payload's length: 55 bytes from before fees
were carried, 56 without a figure, 64 with one. -/
def decodeFee (payload : List UInt8) : Option Fee :=
  if payload.length = 55 then some .unsaid
  else if payload.length = 56 then
    payload[55]? >>= fun tag =>
      if tag = 0 then some .unsaid else if tag = 2 then some .unreadable else none
  else if payload.length = 64 then
    payload[55]? >>= fun tag =>
      if tag = 1 then (wordAt payload 7).map Fee.reported else none
  else none

def decodeVenueFill (payload : List UInt8) : Option Event := do
  let fee ← decodeFee payload
  let exch ← wordAt payload 0
  let local_ ← wordAt payload 1
  let instrument ← u32At payload 16
  let order ← u64At payload 20
  let trade ← u64At payload 28
  let price ← i64At payload 36
  let qty ← i64At payload 44
  let side ← payload[52]? >>= sideOf
  let offset ← payload[53]? >>= offsetOf
  let liquidity ← payload[54]? >>= liquidityOf
  some (.venueFill
    { stamp := ⟨exch, local_⟩, instrument := instrument, order := order, trade := trade,
      side := side, offset := offset, price := price, qty := qty, liquidity := liquidity } fee)

/-- Decode a payload of the given kind; `none` for an unknown kind or a payload
of the wrong length. -/
def decode (kind : UInt16) (payload : List UInt8) : Option Event :=
  if kind = Kind.tick then decodeTick false payload
  else if kind = Kind.tickOn then decodeTick true payload
  else if kind = Kind.submit then decodeSubmit false false payload
  else if kind = Kind.submitLegacy then decodeSubmit true false payload
  else if kind = Kind.submitOn then decodeSubmit false true payload
  else if kind = Kind.cancel then decodeCancel payload
  else if kind = Kind.funding then decodeFunding false payload
  else if kind = Kind.fundingOn then decodeFunding true payload
  else if kind = Kind.fundingCharged then decodeFundingCharged payload
  else if kind = Kind.time then decodeTime payload
  else if kind = Kind.feeRecovered then decodeFeeRecovered payload
  else if kind = Kind.marginDeposit then decodeMarginDeposit payload
  else if kind = Kind.depth then decodeDepth payload
  else if kind = Kind.venueFill then decodeVenueFill payload
  else none

/-! ## Reading back what was written -/

theorem decodeTick_encode (instrument : Option InstrumentId) (t : Tick) :
    decodeTick instrument.isSome (encode (.tick instrument t)) = some (.tick instrument t) := by
  cases instrument with
  | none => simp [decodeTick, encode, expect, instrumentAt, instrumentBytes, wordAt, i64At, u64At]
  | some id =>
    simp [decodeTick, encode, expect, instrumentAt, instrumentBytes, wordAt, i64At, u64At, u32At]

theorem decodeSubmit_encode (instrument : Option InstrumentId) (id : OrderId) (side : Side)
    (price : Option PriceTicks) (qty : QtyLots) (offset : Offset) (stamp : Stamp) :
    decodeSubmit false instrument.isSome
        (encode (.submit instrument id side price qty offset stamp)) =
      some (.submit instrument id side price qty offset stamp) := by
  have hdrop : ∀ (v : UInt64) (a b : UInt8) (rest : List UInt8),
      (u64Bytes v ++ a :: b :: rest).drop 10 = rest := by
    intro v a b rest
    rw [List.drop_append]
    simp
  cases instrument <;> cases price <;>
    simp [decodeSubmit, encode, expect, instrumentAt, instrumentBytes, wordAt, i64At, u64At, u32At,
      hdrop]

theorem decodeCancel_encode (id : OrderId) (stamp : Stamp) :
    decodeCancel (encode (.cancel id stamp)) = some (.cancel id stamp) := by
  have hdrop : ∀ (v : UInt64) (rest : List UInt8), (u64Bytes v ++ rest).drop 8 = rest := by
    intro v rest
    rw [List.drop_append]
    simp
  simp [decodeCancel, encode, expect, wordAt, i64At, u64At, hdrop]

theorem decodeFunding_encode (instrument : Option InstrumentId) (at_ : Nanos) (rate : Ratio)
    (mark : PriceTicks) :
    decodeFunding instrument.isSome (encode (.funding instrument at_ rate mark)) =
      some (.funding instrument at_ rate mark) := by
  cases instrument <;>
    simp [decodeFunding, encode, expect, instrumentAt, instrumentBytes, wordAt, i64At, u64At, u32At]

theorem decodeFundingCharged_encode (instrument : Option InstrumentId) (at_ : Nanos)
    (amount : Cash) :
    decodeFundingCharged (encode (.fundingCharged instrument at_ amount)) =
      some (.fundingCharged instrument at_ amount) := by
  cases instrument <;>
    simp [decodeFundingCharged, chargedInstrument, encode, instrumentBytes, wordAt, i64At, u64At,
      u32At]

theorem decodeVenueFill_encode (fill : Fill) (fee : Fee) :
    decodeVenueFill (encode (.venueFill fill fee)) = some (.venueFill fill fee) := by
  cases fee <;>
    simp [decodeVenueFill, decodeFee, encode, feeBytes, wordAt, i64At, u64At, u32At]

theorem decodeTime_encode (at_ : Nanos) :
    decodeTime (encode (.time at_)) = some (.time at_) := by
  simp [decodeTime, encode, expect, wordAt, i64At, u64At]

theorem decodeFeeRecovered_encode (at_ : Nanos) (amount : Cash) (remainingMissing : UInt64) :
    decodeFeeRecovered (encode (.feeRecovered at_ amount remainingMissing)) =
      some (.feeRecovered at_ amount remainingMissing) := by
  simp [decodeFeeRecovered, encode, expect, wordAt, i64At, u64At]

theorem decodeMarginDeposit_encode (amount : Int64) (at_ : Nanos) :
    decodeMarginDeposit (encode (.marginDeposit amount at_)) =
    some (.marginDeposit amount at_) := by
  simp [decodeMarginDeposit, encode, expect, wordAt, i64At, u64At]

/-! ### Depth -/

theorem mapM_range_getElem? {α : Type} (xs : List α) :
    (List.range xs.length).mapM (fun i => xs[i]?) = some xs := by
  induction xs with
  | nil => rfl
  | cons x xs ih =>
    have htail : (List.range xs.length).mapM ((fun i => (x :: xs)[i]?) ∘ Nat.succ) = some xs := ih
    rw [List.length_cons, List.range_succ_eq_map, List.mapM_cons, List.mapM_map, htail]
    rfl

theorem length_flatMap_levelBytes (levels : List Level) :
    (levels.flatMap levelBytes).length = levels.length * 16 := by
  induction levels with
  | nil => rfl
  | cons l rest ih =>
    simp [levelBytes, ih]
    omega

/-- The words of the `i`-th level, counted from the first level on. -/
theorem levelWords (levels : List Level) (i : Nat) :
    (do some (⟨← i64At (levels.flatMap levelBytes) (i * 16),
      ← i64At (levels.flatMap levelBytes) (i * 16 + 8)⟩ : Level)) = levels[i]? := by
  induction levels generalizing i with
  | nil => simp [i64At, u64At, slice]
  | cons l rest ih =>
    cases i with
    | zero => simp [levelBytes, i64At, u64At]
    | succ i =>
      have hskip : ∀ j : Nat, i64At ((l :: rest).flatMap levelBytes) (j + 16) =
          i64At (rest.flatMap levelBytes) j := by
        intro j
        simp [levelBytes, i64At, u64At]
      have hnext : (i + 1) * 16 + 8 = i * 16 + 8 + 16 := by omega
      rw [List.getElem?_cons_succ, ← ih i, hnext, Nat.succ_mul, hskip, hskip]

theorem levelAt_encodeDepth (u : DepthUpdate) (i : Nat) :
    levelAt (encodeDepth u) i = (u.bids ++ u.asks)[i]? := by
  have hskip : ∀ j : Nat, i64At (encodeDepth u) (j + 41) =
      i64At ((u.bids ++ u.asks).flatMap levelBytes) j := by
    intro j
    simp [encodeDepth, i64At, u64At]
  have hfirst : depthHeader + i * 16 = i * 16 + 41 := Nat.add_comm _ _
  have hsecond : i * 16 + 41 + 8 = i * 16 + 8 + 41 := by omega
  rw [← levelWords, levelAt, hfirst, hsecond, hskip, hskip]

theorem length_encodeDepth (u : DepthUpdate) :
    (encodeDepth u).length = depthHeader + (u.bids.length + u.asks.length) * 16 := by
  simp only [encodeDepth, depthHeader, List.length_append, List.length_cons, length_i64Bytes,
    length_u64Bytes, length_u32Bytes, length_flatMap_levelBytes]
  omega

/-- The previous id is read back from its flag and its field. -/
theorem prevOf_flag (prev : Option UInt64) :
    (if (if prev.isSome then (1 : UInt8) else 0) = 0 then some none
      else if (if prev.isSome then (1 : UInt8) else 0) = 1 then some (some (prev.getD 0))
      else none) = some prev := by
  cases prev <;> rfl

/-- A depth payload is read back as long as its counts fit their fields. -/
theorem decodeDepth_encode (u : DepthUpdate) (hbids : u.bids.length < 2 ^ 32)
    (hasks : u.asks.length < 2 ^ 32) : decodeDepth (encodeDepth u) = some (.depth u) := by
  have hlength := length_encodeDepth u
  have hprev : u64At (encodeDepth u) 24 = some (u.prevFinalId.getD 0) := by
    simp [encodeDepth, u64At]
  have hflag : (encodeDepth u)[32]? = some (if u.prevFinalId.isSome then 1 else 0) := by
    simp [encodeDepth]
  have hbidCount : u32At (encodeDepth u) 33 = some (UInt32.ofNat u.bids.length) := by
    simp [encodeDepth, u32At]
  have haskCount : u32At (encodeDepth u) 37 = some (UInt32.ofNat u.asks.length) := by
    simp [encodeDepth, u32At]
  have hbids' : (UInt32.ofNat u.bids.length).toNat = u.bids.length :=
    UInt32.toNat_ofNat_of_lt' hbids
  have hasks' : (UInt32.ofNat u.asks.length).toNat = u.asks.length :=
    UInt32.toNat_ofNat_of_lt' hasks
  have hlevels : (List.range (u.bids.length + u.asks.length)).mapM (levelAt (encodeDepth u)) =
      some (u.bids ++ u.asks) := by
    rw [funext (levelAt_encodeDepth u), ← List.length_append]
    exact mapM_range_getElem? _
  have hms : i64At (encodeDepth u) 0 = some u.eventMs := by
    simp [encodeDepth, i64At, u64At]
  have hfirst : u64At (encodeDepth u) 8 = some u.firstId := by
    simp [encodeDepth, u64At]
  have hfinal : u64At (encodeDepth u) 16 = some u.finalId := by
    simp [encodeDepth, u64At]
  unfold decodeDepth
  rw [hprev, hflag, hbidCount, haskCount, expect_of (by omega)]
  simp only [Option.bind_eq_bind, Option.bind_some, hbids', hasks', hlevels, hms, hfirst, hfinal]
  rw [expect_of hlength]
  rw [prevOf_flag]
  simp

/-! ### Every kind -/

/-- The counts of a depth update fit the fields that carry them. -/
def Counted : Event → Prop
  | .depth u => u.bids.length < 2 ^ 32 ∧ u.asks.length < 2 ^ 32
  | _ => True

/-- **Every event is read back as it was written**, under its own kind. -/
theorem decode_encode (e : Event) (h : e.Counted) : decode e.kind e.encode = some e := by
  cases e with
  | tick instrument t =>
    have hback := decodeTick_encode instrument t
    cases instrument <;> exact hback
  | submit instrument id side price qty offset stamp =>
    have hback := decodeSubmit_encode instrument id side price qty offset stamp
    cases instrument <;> exact hback
  | cancel id stamp => exact decodeCancel_encode id stamp
  | funding instrument at_ rate mark =>
    have hback := decodeFunding_encode instrument at_ rate mark
    cases instrument <;> exact hback
  | fundingCharged instrument at_ amount => exact decodeFundingCharged_encode instrument at_ amount
  | feeRecovered at_ amount remaining => exact decodeFeeRecovered_encode at_ amount remaining
  | time at_ => exact decodeTime_encode at_
  | marginDeposit amount at_ => exact decodeMarginDeposit_encode amount at_
  | venueFill fill fee => exact decodeVenueFill_encode fill fee
  | depth u => exact decodeDepth_encode u h.1 h.2

/-- A payload whose length fits a frame's length field has counts that fit
theirs. -/
theorem counted_of_length {e : Event} (h : e.encode.length < 2 ^ 32) : e.Counted := by
  cases e with
  | depth u =>
    have hlength : (encodeDepth u).length < 2 ^ 32 := h
    rw [length_encodeDepth] at hlength
    exact ⟨by omega, by omega⟩
  | _ => trivial

/-- **The codec round trip**, for every event whose level lists are shorter than
`2 ^ 32`. -/
theorem codec_round_trip (e : Event)
    (h : ∀ u, e = .depth u → u.bids.length < 2 ^ 32 ∧ u.asks.length < 2 ^ 32) :
    decode e.kind e.encode = some e := by
  apply decode_encode
  cases e with
  | depth u => exact h u rfl
  | _ => trivial

/-- A depth update with levels on both sides and a previous id. -/
def twoSided : DepthUpdate where
  eventMs := 17
  firstId := 4
  finalId := 6
  prevFinalId := some 3
  bids := [⟨100, 5⟩, ⟨99, -2⟩]
  asks := [⟨101, 7⟩]

theorem codec_round_trip_twoSided :
    decode (Event.depth twoSided).kind (Event.depth twoSided).encode = some (.depth twoSided) := by
  apply codec_round_trip
  intro u hu
  obtain rfl := Event.depth.inj hu
  decide

end Event
