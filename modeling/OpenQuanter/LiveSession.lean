/-
# Sending orders (`oq-live/src/session.rs`)

A session writes an order down before it asks the venue to place it, and what the
venue answered after.  The first record the journal does not take ends the journal,
and no order is sent from then on.

A `Process` is a session with what it did so far: the calls of `venue.place`, each
with how much of the journal had left the process by then.  What follows a record
that a failing journal may or may not have taken is said by `Process.write_cases`.
-/
import OpenQuanter.ClientIds
import OpenQuanter.History
import OpenQuanter.LiveRecord
import OpenQuanter.RiskGate
import OpenQuanter.Writer

/-! ## The texts of a refusal -/

namespace Breach

/-- A struct as the source's derived `Debug` prints it. -/
def debug (name : String) (fields : List (String × String)) : String :=
  name ++ " \x7b " ++ ", ".intercalate (fields.map fun f => f.1 ++ ": " ++ f.2) ++ " \x7d"

/-- A number in a wrapper type. -/
def wrapped (type : String) (v : Int64) : String := type ++ "(" ++ toString v.toInt ++ ")"

/-- What a refusal is written down as. -/
def text : Breach → String
  | .halted => "Halted"
  | .orderTooLarge qty limit =>
    debug "OrderTooLarge" [("qty", wrapped "QtyLots" qty), ("limit", wrapped "QtyLots" limit)]
  | .positionWouldExceed resulting limit =>
    debug "PositionWouldExceed"
      [("resulting", wrapped "QtyLots" resulting), ("limit", wrapped "QtyLots" limit)]
  | .notionalTooLarge notional limit =>
    debug "NotionalTooLarge" [("notional", wrapped "Cash" notional),
    ("limit", wrapped "Cash" limit)]
  | .priceOutsideBand price mark limit =>
    debug "PriceOutsideBand"
      [("price", wrapped "PriceTicks" price), ("mark", wrapped "PriceTicks" mark),
        ("limit", wrapped "Ratio" limit)]
  | .tooManyWorking working limit =>
    debug "TooManyWorking" [("working", toString working.toNat), ("limit", toString limit.toNat)]
  | .tooFast sent limit =>
    debug "TooFast" [("sent", toString sent.toNat), ("limit", toString limit.toNat)]
  | .malformed why => "Malformed(\"" ++ why ++ "\")"
  | .unpriceable => "Unpriceable"

end Breach

namespace Live

/-! ## The journal of a session -/

/-- A journal file in use.  `flushed` is how much of the file has left the process, and
`handed` every record that was framed for it, earlier runs' first: what the file may
hold is the beginning of those. -/
structure Sink where
  writer : Journal.Writer
  flushed : Nat
  handed : List Journal.Record

namespace Sink

/-- Flush, or flush and sync; a failure leaves part of what was not flushed yet. -/
def flush (s : Sink) : Except Journal.JournalError Unit × Sink :=
  if s.writer.broken then (.error .broken, s)
  else
    match s.writer.device with
    | .failed reached :: rest =>
      (.error .io,
        { s with
          writer :=
            { s.writer with
              file := s.writer.file.take (s.flushed + reached), broken := true, device := rest } })
    | device =>
      (.ok (),
        { s with
          writer := { s.writer with device := device.tail }
          flushed := s.writer.file.length })

/-- Whether an append gets as far as framing its record. -/
def framing (s : Sink) : Bool :=
  !s.writer.broken && (Journal.Reader.nextSeq s.writer.nextSeq).isSome &&
    s.writer.failIn != some 0

/-- Append a record and flush.  Framing asserts the limit on a payload; `none` is the
process stopped by it. -/
def append (s : Sink) (record : Record) : Option (Except Journal.JournalError Unit × Sink) :=
  if s.framing then
    if within : record.encode.length ≤ Journal.Frame.maxPayload then
      let handed := s.handed ++ [⟨record.kind, record.encode, within⟩]
      match s.writer.append record.kind record.encode with
      | (.ok _, writer) => some (flush { s with writer := writer, handed := handed })
      | (.error e, writer) => some (.error e, { s with writer := writer, handed := handed })
    else none
  else
    let (result, writer) := s.writer.append record.kind record.encode
    some (result.map fun _ => (), { s with writer := writer })

end Sink

/-! ## Orders and answers -/

/-- Which leg an order is for. -/
inductive PositionSide where
  | oneWay
  | long
  | short
  deriving DecidableEq, Repr

namespace PositionSide

def isHedged : PositionSide → Bool
  | oneWay => false
  | _ => true

/-- The word a leg is written down as. -/
def leg : PositionSide → String
  | oneWay => "BOTH"
  | long => "LONG"
  | short => "SHORT"

/-- `leg_for`: the leg an order opens or closes. -/
def legFor (configured : PositionSide) (side : Side) (closing : Bool) : PositionSide :=
  if !configured.isHedged then configured
  else
    match side, closing with
    | .buy, false | .sell, true => long
    | .sell, false | .buy, true => short

end PositionSide

/-- An order as the venue is asked to place it. -/
structure NewOrder where
  symbol : String
  side : Side
  limitPrice : Option PriceTicks
  qty : QtyLots
  tif : TimeInForce
  clientId : String
  reduceOnly : Bool
  positionSide : PositionSide
  deriving DecidableEq, Repr

/-- A venue's word that an order exists. -/
structure OrderAck where
  clientId : String
  status : String
  deriving DecidableEq, Repr

/-- What came of asking a venue to place an order. -/
inductive Placed where
  | accepted (ack : OrderAck)
  | rejected (message : String)
  | unknown (reason : String)
  deriving DecidableEq, Repr

namespace Placed

def tag : Placed → OutcomeTag
  | accepted _ => .accepted
  | rejected _ => .rejected
  | unknown _ => .unknown

def detail : Placed → String
  | accepted ack => ack.status
  | rejected message => message
  | unknown reason => reason

end Placed

/-- Why an order was not sent, or not taken. -/
inductive Rejection where
  | journalLost (why : Journal.JournalError)
  | exhausted (why : String)
  | notRecorded (clientId : String)
  | venue (message : String)
  deriving DecidableEq, Repr

/-- What became of an order. -/
inductive Submission where
  | sent (clientId : String)
  | refused (breach : Breach)
  | rejected (why : Rejection)
  | unresolved (clientId why : String)
  deriving DecidableEq, Repr

/-! ## The session -/

/-- The parts of a session that send orders and keep the journal.  Its book is only
asked what it makes of the account, and a submission says that. -/
structure Session where
  issued : String
  separator : String
  symbol : String
  instrument : Instrument
  positionSide : PositionSide
  gate : RiskGate
  ids : IdSequence
  journal : Option Sink
  journalLost : Option Journal.JournalError

namespace Session

/-- A session as it comes from connecting: no range reserved, nothing journalled. -/
def connected (issued separator symbol : String) (instrument : Instrument)
    (positionSide : PositionSide) (gate : RiskGate) : Session where
  issued := issued
  separator := separator
  symbol := symbol
  instrument := instrument
  positionSide := positionSide
  gate := gate
  ids := IdSequence.fresh
  journal := none
  journalLost := none

variable (s : Session)

def withOrderIdRange (r : IdRange) : Except String Session :=
  match s.ids.withOrderIdRange r with
  | .error why => .error why
  | .ok ids => .ok { s with ids := ids }

/-- The order an approved one is sent as. -/
def newOrder (approved : ProposedOrder) (sequence : UInt64) : NewOrder where
  symbol := s.symbol
  side := approved.side
  limitPrice := approved.limitPrice
  qty := approved.qty
  tif := .goodTilCancel
  clientId := IdRules.clientId s.issued s.separator sequence
  reduceOnly := approved.reduceOnly && !s.positionSide.isHedged
  positionSide := s.positionSide.legFor approved.side approved.reduceOnly

end Session

/-- What is written down before an order is sent. -/
def NewOrder.submitted (order : NewOrder) (now : Nanos) : Record :=
  .submitted now order.clientId order.side (order.limitPrice.getD 0) order.qty order.reduceOnly
    order.positionSide.leg

/-- A call of `venue.place`. -/
structure Placement where
  order : NewOrder
  sequence : UInt64
  at_ : Nanos
  /-- How much of the journal had left the process. -/
  flushed : Nat

/-- What became of a record: written and flushed, or not; or the process stopped. -/
inductive Wrote where
  | yes
  | no
  | stopped
  deriving DecidableEq, Repr

/-- A session and what it did so far. -/
structure Process where
  session : Session
  placed : List Placement
  stopped : Bool

namespace Process

/-- Append one record, if journalling; the first failure ends the journal. -/
def write (p : Process) (record : Record) : Wrote × Process :=
  match p.session.journal with
  | none => (.yes, p)
  | some sink =>
    if p.session.journalLost.isSome then (.no, p)
    else
      match sink.append record with
      | none => (.stopped, { p with stopped := true })
      | some (.ok _, sink) =>
        (.yes, { p with session := { p.session with journal := some sink } })
      | some (.error e, sink) =>
        (.no, { p with session := { p.session with journal := some sink, journalLost := some e } })

/-- `journalling_with`: keep a journal, from the session's own record on. -/
def journalling (session : Session) (sink : Sink) : Process :=
  (write ⟨{ session with journal := some sink }, [], false⟩
    (.sessionStart session.issued session.symbol session.instrument.priceScale
      session.instrument.qtyScale)).2

/-- Ask the venue to place an order. -/
def place (p : Process) (order : NewOrder) (sequence : UInt64) (now : Nanos) : Process :=
  { p with
    placed := p.placed ++
      [⟨order, sequence, now, match p.session.journal with
        | none => 0
        | some sink => sink.flushed⟩] }

/-- What a placed order is reported as.  One that was not answered is asked about once. -/
def settle (order : NewOrder) (answer : Placed) (asked : Except String (Option OrderAck)) :
    Submission :=
  match answer, asked with
  | .accepted ack, _ => .sent ack.clientId
  | .rejected message, _ => .rejected (.venue message)
  | .unknown _, .ok (some ack) => .sent ack.clientId
  | .unknown _, .ok none =>
    .unresolved order.clientId
      ("the venue does not have it yet; asked again once the request " ++
        "can no longer be accepted")
  | .unknown _, .error why => .unresolved order.clientId why

/-- Turn a permit into an order and send it.  `none` is the process stopped. -/
def send (p : Process) (permit : Permit) (now : Nanos) (answer : Placed)
    (asked : Except String (Option OrderAck)) : Process × Option Submission :=
  match p.session.journalLost with
  | some why => (p, some (.rejected (.journalLost why)))
  | none =>
    match p.session.ids.next with
    | .error why => (p, some (.rejected (.exhausted why)))
    | .ok (sequence, ids) =>
      let order := p.session.newOrder permit.order sequence
      -- the record first, the venue after
      match write { p with session := { p.session with ids := ids } } (order.submitted now) with
      | (.stopped, p) => (p, none)
      | (.no, p) => (p, some (.rejected (.notRecorded order.clientId)))
      | (.yes, p) =>
        match write (p.place order sequence now)
            (.outcome now order.clientId answer.tag answer.detail) with
        | (.stopped, p) => (p, none)
        | (_, p) => (p, some (settle order answer asked))

/-- Send an order, if the gate allows it. -/
def submit (p : Process) (order : ProposedOrder) (account : AccountState) (now : Nanos)
    (answer : Placed) (asked : Except String (Option OrderAck)) : Process × Option Submission :=
  let (gate, decision) := p.session.gate.check order account p.session.instrument now
  let p := { p with session := { p.session with gate := gate } }
  match decision with
  | none => ({ p with stopped := true }, none)
  | some (.permit permit) => p.send permit now answer asked
  | some (.refuse breach) =>
    match p.write (.refused now breach.text) with
    | (.stopped, p) => (p, none)
    | (_, p) => (p, some (.refused breach))

end Process

/-! ## What a process is asked to do -/

/-- A record that is not of the sending of orders, as the session's other methods
write them. -/
def Record.Noted : Record → Prop
  | .submitted _ _ _ _ _ _ _ => False
  | .outcome _ _ _ _ => False
  | _ => True

/-- One thing a session is asked, with what the account looked like and what the venue
answered. -/
inductive Action where
  | submit (order : ProposedOrder) (account : AccountState) (now : Nanos) (answer : Placed)
      (asked : Except String (Option OrderAck))
  | note (record : Record) (noted : record.Noted)
  | trip
  | clear

namespace Process

/-- A process that stopped does nothing any more. -/
def step (p : Process) (a : Action) : Process :=
  if p.stopped then p
  else
    match a with
    | .submit order account now answer asked => (p.submit order account now answer asked).1
    | .note record _ => (p.write record).2
    | .trip => { p with session := { p.session with gate := p.session.gate.trip } }
    | .clear => { p with session := { p.session with gate := p.session.gate.clear } }

def run (p : Process) (actions : List Action) : Process := actions.foldl step p

end Process

/-! ## What the journal holds -/

namespace Sink

open Journal

/-- As long as nothing failed: all that was handed over is written and flushed. -/
structure Working (s : Sink) : Prop where
  file : s.writer.file = Reader.written (framesFrom 0 s.handed)
  nextSeq : s.writer.nextSeq = UInt64.ofNat s.handed.length
  working : s.writer.broken = false
  room : s.handed.length < 2 ^ 64
  flushed : s.flushed = s.writer.file.length

/-- Whatever failed: the file holds the beginning of what was handed over. -/
structure Kept (s : Sink) : Prop where
  file : s.writer.file <+: Reader.written (framesFrom 0 s.handed)
  room : s.handed.length < 2 ^ 64

theorem Working.kept {s : Sink} (h : s.Working) : s.Kept where
  file := by rw [h.file]
  room := h.room

/-- The bytes of one record more. -/
theorem written_concat (records : List Journal.Record) (r : Journal.Record) :
    Reader.written (framesFrom 0 (records ++ [r])) =
      Reader.written (framesFrom 0 records) ++ (r.frame records.length).encode := by
  rw [framesFrom_append, Reader.written, List.flatMap_append, Nat.zero_add]
  simp [Reader.written, framesFrom]

/-- A sink goes on from another: nothing handed over is forgotten, and nothing that
left the process is taken back. -/
structure Extends (s s' : Sink) : Prop where
  handed : s.handed <+: s'.handed
  length : s.writer.file.length ≤ s'.writer.file.length

theorem Extends.refl (s : Sink) : s.Extends s := ⟨List.prefix_rfl, Nat.le_refl _⟩

theorem Extends.trans {s s' s'' : Sink} (h : s.Extends s') (h' : s'.Extends s'') :
    s.Extends s'' := ⟨h.handed.trans h'.handed, h.length.trans h'.length⟩

/-- The record a file is handed. -/
def framed (record : Record) (within : record.encode.length ≤ Frame.maxPayload) :
    Journal.Record := ⟨record.kind, record.encode, within⟩

/-- One flush: it fails with some more of the file out of the process, or all of it is. -/
theorem flush_cases {s : Sink} (hworking : s.writer.broken = false) :
    (∃ reached s', s.flush = (.error .io, s') ∧ s'.handed = s.handed ∧
      s'.writer.file = s.writer.file.take (s.flushed + reached)) ∨
    ∃ s', s.flush = (.ok (), s') ∧ s'.handed = s.handed ∧ s'.writer.file = s.writer.file ∧
      s'.writer.nextSeq = s.writer.nextSeq ∧ s'.writer.broken = s.writer.broken ∧
      s'.flushed = s.writer.file.length := by
  unfold flush
  rw [if_neg (by rw [hworking]; decide)]
  split
  · exact .inl ⟨_, _, rfl, rfl, rfl⟩
  · exact .inr ⟨_, rfl, rfl, rfl, rfl, rfl, rfl⟩

section Append

variable {s : Sink} (h : s.Working) (record : Record)
include h

/-- An append that is refused before it frames its record leaves the file alone. -/
theorem append_refused (hframing : s.framing = false) :
    ∃ e s', s.append record = some (.error e, s') ∧ s'.Kept ∧ s.Extends s' := by
  unfold append
  rw [hframing]
  simp only [Bool.false_eq_true, if_false]
  unfold Writer.append
  rw [if_neg (by rw [h.working]; decide)]
  cases hnext : Reader.nextSeq s.writer.nextSeq with
  | none => exact ⟨_, _, rfl, h.kept, Extends.refl s⟩
  | some next =>
    have hfail : s.writer.failIn = some 0 := by
      simpa [framing, h.working, hnext] using hframing
    simp only [if_pos hfail]
    exact ⟨_, _, rfl, ⟨h.kept.file, h.room⟩, ⟨List.prefix_rfl, Nat.le_refl _⟩⟩

/-- What a framed record is handed to the file as. -/
theorem append_framed (hframing : s.framing = true)
    (hwithin : record.encode.length ≤ Frame.maxPayload) :
    s.handed.length + 1 < 2 ^ 64 ∧ ∃ w : Writer, w.file = s.writer.file ∧ w.broken = false ∧
      s.append record =
        match w.write ((framed record hwithin).frame s.handed.length)
            (UInt64.ofNat (s.handed.length + 1)) with
        | (.ok _, writer) =>
          some (flush ⟨writer, s.flushed, s.handed ++ [framed record hwithin]⟩)
        | (.error e, writer) =>
          some (.error e, ⟨writer, s.flushed, s.handed ++ [framed record hwithin]⟩) := by
  have hback : (UInt64.ofNat s.handed.length).toNat = s.handed.length :=
    UInt64.toNat_ofNat_of_lt' h.room
  unfold framing at hframing
  rw [Bool.and_eq_true, Bool.and_eq_true, h.nextSeq] at hframing
  obtain ⟨⟨-, hnext⟩, hfail⟩ := hframing
  have hroom : s.handed.length + 1 < 2 ^ 64 := by
    by_contra hfull
    rw [Reader.nextSeq, hback, if_neg hfull] at hnext
    cases hnext
  refine ⟨hroom, { s.writer with failIn := s.writer.failIn.map (· - 1) }, rfl, h.working, ?_⟩
  have hdue : Reader.nextSeq (UInt64.ofNat s.handed.length) =
      some (UInt64.ofNat (s.handed.length + 1)) := Reader.nextSeq_ofNat hroom
  have happend : s.writer.append record.kind record.encode =
      ({ s.writer with failIn := s.writer.failIn.map (· - 1) } : Writer).write
        ((framed record hwithin).frame s.handed.length)
        (UInt64.ofNat (s.handed.length + 1)) := by
    unfold Writer.append
    rw [if_neg (by rw [h.working]; decide)]
    simp only [h.nextSeq, hdue]
    rw [if_neg (by simpa using hfail)]
    rfl
  unfold append
  rw [if_pos (by simp [framing, h.working, h.nextSeq, hdue, hfail]), dif_pos hwithin, happend]
  rfl

/-- **What an append comes to**: the process stops; or the record is in the file and
out of the process; or the file holds some of it and the journal is at its end. -/
theorem append_cases :
    s.append record = none ∨
    (∃ within s', s.append record = some (.ok (), s') ∧ s'.Working ∧
      s'.handed = s.handed ++ [framed record within]) ∨
    ∃ e s', s.append record = some (.error e, s') ∧ s'.Kept ∧ s.Extends s' := by
  cases hframing : s.framing with
  | false => exact .inr (.inr (append_refused h record hframing))
  | true =>
    by_cases hwithin : record.encode.length ≤ Frame.maxPayload
    · obtain ⟨hroom, w, hkeep, hworking, happend⟩ := append_framed h record hframing hwithin
      generalize hr : framed record hwithin = r at happend
      have hcount : (s.handed ++ [r]).length = s.handed.length + 1 := List.length_append
      have hall : s.writer.file ++ (r.frame s.handed.length).encode =
          Reader.written (framesFrom 0 (s.handed ++ [r])) := by
        rw [written_concat, h.file]
      have hmore : s.handed <+: s.handed ++ [r] := List.prefix_append _ _
      rcases w.write_cases (r.frame s.handed.length) (UInt64.ofNat (s.handed.length + 1)) with
        ⟨reached, w', hwrite, hfile⟩ | ⟨w', hwrite, hfile, hnext, hbroken⟩
      · -- some of the record reached the file
        have hend : s.append record = some (.error .io, ⟨w', s.flushed, s.handed ++ [r]⟩) := by
          rw [happend, hwrite]
        refine .inr (.inr ⟨_, _, hend, ⟨?_, ?_⟩, ⟨hmore, ?_⟩⟩)
        · rw [hfile, hkeep, ← hall]
          exact (List.prefix_append_right_inj _).mpr (List.take_prefix _ _)
        · rwa [hcount]
        · show s.writer.file.length ≤ w'.file.length
          rw [hfile, hkeep, List.length_append]
          exact Nat.le_add_right _ _
      have hflushing : s.append record = some (flush ⟨w', s.flushed, s.handed ++ [r]⟩) := by
        rw [happend, hwrite]
      rcases flush_cases (s := ⟨w', s.flushed, s.handed ++ [r]⟩) (hbroken.trans hworking) with
        ⟨reached, s', hflush, hhanded, hfile'⟩ |
        ⟨s', hflush, hhanded, hfile', hnext', hbroken', hflushed⟩
      · -- the record may not have left the process
        refine .inr (.inr ⟨_, s', hflushing.trans (congrArg some hflush), ⟨?_, ?_⟩, ⟨?_, ?_⟩⟩)
        · rw [hfile', hhanded, hfile, hkeep, ← hall]
          exact List.take_prefix _ _
        · rwa [hhanded, hcount]
        · rwa [hhanded]
        · rw [hfile', hfile, hkeep, h.flushed, List.length_take, List.length_append]
          omega
      · refine .inr (.inl ⟨hwithin, s', hflushing.trans (congrArg some hflush),
          ⟨?_, ?_, ?_, ?_, ?_⟩, ?_⟩)
        · rw [hfile', hhanded, hfile, hkeep, hall]
        · rw [hnext', hnext, hhanded, hcount]
        · exact hbroken'.trans (hbroken.trans hworking)
        · rwa [hhanded, hcount]
        · rw [hflushed, hfile']
        · rw [hhanded, hr]
    · refine .inl ?_
      unfold append
      rw [if_pos hframing, dif_neg hwithin]

end Append

end Sink

/-! ## What a journal says of orders -/

/-- The records of a journal that can be read. -/
def decoded (records : List Journal.Record) : List Record :=
  records.filterMap fun r => Record.decode r.kind r.payload

/-- The order a record says is about to be sent. -/
def Record.submittedId : Record → Option String
  | .submitted _ clientId _ _ _ _ _ => some clientId
  | _ => none

def submittedIds (records : List Record) : List String := records.filterMap Record.submittedId

theorem submittedIds_decoded_append (records more : List Journal.Record) :
    submittedIds (decoded (records ++ more)) =
      submittedIds (decoded records) ++ submittedIds (decoded more) := by
  simp [submittedIds, decoded, List.filterMap_append]

theorem Record.submittedId_eq_none {r : Record} (h : r.kind ≠ Kind.submitted) :
    r.submittedId = none := by
  cases r with
  | submitted => exact absurd rfl h
  | _ => rfl

/-- A record of another kind is never read as a submission. -/
theorem submittedIds_other {r : Record} (h : r.kind ≠ Record.Kind.submitted)
    (within : r.encode.length ≤ Journal.Frame.maxPayload) :
    submittedIds (decoded [Sink.framed r within]) = [] := by
  unfold submittedIds decoded
  simp only [List.filterMap_cons, List.filterMap_nil, Sink.framed]
  cases hback : Record.decode r.kind r.encode with
  | none => rfl
  | some back =>
    have hkind := Record.kind_of_decode _ _ back hback
    simp [Record.submittedId_eq_none (hkind ▸ h)]

/-- A submission is read back as what it was. -/
theorem decode_framed_submitted (order : NewOrder) (now : Nanos)
    (within : (order.submitted now).encode.length ≤ Journal.Frame.maxPayload) :
    Record.decode (Sink.framed (order.submitted now) within).kind
        (Sink.framed (order.submitted now) within).payload = some (order.submitted now) :=
  Record.decode_submitted now order.clientId order.positionSide.leg order.side
    (order.limitPrice.getD 0) order.qty order.reduceOnly
    (Nat.lt_of_le_of_lt within (by decide))

theorem submittedIds_submitted (order : NewOrder) (now : Nanos)
    (within : (order.submitted now).encode.length ≤ Journal.Frame.maxPayload) :
    submittedIds (decoded [Sink.framed (order.submitted now) within]) = [order.clientId] := by
  unfold submittedIds decoded
  rw [List.filterMap_cons, decode_framed_submitted]
  rfl

/-! ## What a process may have done -/

/-- **What a record comes to**: nothing, once the journal is lost; the process stopped;
the record in the journal; or the end of the journal. -/
theorem Process.write_cases {p : Process} {sink : Sink} (hjournal : p.session.journal = some sink)
    (hworking : p.session.journalLost = none → sink.Working) (r : Record) :
    (p.session.journalLost.isSome = true ∧ p.write r = (.no, p)) ∨
    p.session.journalLost = none ∧
      (p.write r = (.stopped, { p with stopped := true }) ∨
      (∃ within sink', sink'.Working ∧ sink'.handed = sink.handed ++ [Sink.framed r within] ∧
        p.write r = (.yes, { p with session := { p.session with journal := some sink' } })) ∨
      ∃ e sink', sink'.Kept ∧ sink.Extends sink' ∧
        p.write r =
          (.no,
            { p with
              session := { p.session with journal := some sink', journalLost := some e } })) := by
  unfold write
  simp only [hjournal]
  cases hlost : p.session.journalLost with
  | some why => exact .inl ⟨rfl, rfl⟩
  | none =>
    refine .inr ⟨rfl, ?_⟩
    simp only [Option.isSome_none, Bool.false_eq_true, if_false]
    rcases Sink.append_cases (hworking hlost) r with
      happend | ⟨within, sink', happend, hnext, hhanded⟩ | ⟨e, sink', happend, hkept, hext⟩
    · exact .inl (by rw [happend])
    · exact .inr (.inl ⟨within, sink', hnext, hhanded, by rw [happend]⟩)
    · exact .inr (.inr ⟨e, sink', hkept, hext, by rw [happend]⟩)

/-- The submission of a placed order is among the records, and they had left the process
when the venue was asked; the orders written down by then are those of earlier runs and
those placed. -/
def Recorded (earlier handed : List Journal.Record) (before : List Placement) (q : Placement) :
    Prop :=
  ∃ records within,
    records ++ [Sink.framed (q.order.submitted q.at_) within] <+: handed ∧
    (Journal.Reader.written (Journal.framesFrom 0
      (records ++ [Sink.framed (q.order.submitted q.at_) within]))).length = q.flushed ∧
    submittedIds (decoded (records ++ [Sink.framed (q.order.submitted q.at_) within])) =
      submittedIds (decoded earlier) ++ (before ++ [q]).map (·.order.clientId)

theorem Recorded.mono {earlier handed handed' : List Journal.Record} (h : handed <+: handed')
    {before : List Placement} {q : Placement} (hq : Recorded earlier handed before q) :
    Recorded earlier handed' before q := by
  obtain ⟨records, within, hprefix, hrest⟩ := hq
  exact ⟨records, within, hprefix.trans h, hrest⟩

/-- What holds of a process at any time: its orders are numbered upwards in its range,
and each was in the journal before it was placed. -/
structure Process.Sound (issued separator : String) (r : IdRange) (earlier : List Journal.Record)
    (p : Process) (sink : Sink) : Prop where
  journal : p.session.journal = some sink
  names : p.session.issued = issued ∧ p.session.separator = separator
  kept : sink.Kept
  recorded : History.Always (Recorded earlier sink.handed) p.placed
  flushed : ∀ q ∈ p.placed, q.flushed ≤ sink.writer.file.length
  working : p.session.journalLost = none → sink.Working ∧
    submittedIds (decoded sink.handed) =
      submittedIds (decoded earlier) ++ p.placed.map (·.order.clientId)
  rises : p.placed.Pairwise fun a b => a.sequence < b.sequence
  numbered : ∀ q ∈ p.placed, q.sequence ≤ p.session.ids.sequence ∧ q.sequence ∈ r ∧
    q.order.clientId = IdRules.clientId issued separator q.sequence
  first : r.first.toNat ≤ p.session.ids.sequence.toNat + 1
  last : p.session.ids.sequenceEnd = r.last

namespace Process

section Sound

variable {issued separator : String} {r : IdRange} {earlier : List Journal.Record} {p : Process}
  {sink : Sink}

/-- What is handed over later, and what a failure leaves, takes nothing back. -/
theorem Sound.fail (h : p.Sound issued separator r earlier sink) {sink' : Sink}
    (hkept : sink'.Kept) (hext : sink.Extends sink') (e : Journal.JournalError) :
    Sound issued separator r earlier
      { p with session := { p.session with journal := some sink', journalLost := some e } }
      sink' where
  journal := rfl
  names := h.names
  kept := hkept
  recorded := h.recorded.imp fun _ _ => Recorded.mono hext.handed
  flushed q hq := (h.flushed q hq).trans hext.length
  working hnone := nomatch hnone
  rises := h.rises
  numbered := h.numbered
  first := h.first
  last := h.last

/-- A working journal takes one record more. -/
theorem extends_of_handed {sink' : Sink} {framed : Journal.Record} (h : sink.Working)
    (h' : sink'.Working) (hhanded : sink'.handed = sink.handed ++ [framed]) :
    sink.Extends sink' where
  handed := ⟨[framed], hhanded.symm⟩
  length := by
    rw [h.file, h'.file, hhanded, Sink.written_concat, List.length_append]
    exact Nat.le_add_right _ _

/-- A record that is not a submission. -/
theorem Sound.write_other (h : p.Sound issued separator r earlier sink) (record : Record)
    (hother : record.kind ≠ Record.Kind.submitted) :
    ∃ sink', (p.write record).2.Sound issued separator r earlier sink' := by
  rcases write_cases h.journal (fun hnone => (h.working hnone).1) record with
    ⟨-, hwrite⟩ | ⟨hnone, hwrite | ⟨within, sink', hnext, hhanded, hwrite⟩ |
      ⟨e, sink', hkept, hext, hwrite⟩⟩
  · exact ⟨sink, by rwa [hwrite]⟩
  · rw [hwrite]
    exact ⟨sink, { h with }⟩
  · have hext := extends_of_handed (h.working hnone).1 hnext hhanded
    rw [hwrite]
    refine ⟨sink', { h with
      journal := rfl
      kept := hnext.kept
      recorded := h.recorded.imp fun _ _ => Recorded.mono hext.handed
      flushed := fun q hq => (h.flushed q hq).trans hext.length
      working := fun _ => ⟨hnext, ?_⟩ }⟩
    rw [hhanded, submittedIds_decoded_append, submittedIds_other hother within, List.append_nil]
    exact (h.working hnone).2
  · rw [hwrite]
    exact ⟨sink', h.fail hkept hext e⟩

/-- The next number taken. -/
theorem Sound.withIds (h : p.Sound issued separator r earlier sink) {sequence : UInt64}
    {ids : IdSequence} (hnext : p.session.ids.next = .ok (sequence, ids)) :
    Sound issued separator r earlier { p with session := { p.session with ids := ids } } sink := by
  obtain ⟨hid, -, hseq, hend⟩ := IdSequence.next_ok hnext
  have hfirst := h.first
  refine { h with
    journal := h.journal
    numbered := fun q hq => ⟨?_, (h.numbered q hq).2⟩
    first := ?_
    last := hend.trans h.last }
  · have hle := UInt64.le_iff_toNat_le.mp (h.numbered q hq).1
    show q.sequence ≤ ids.sequence
    rw [hseq, UInt64.le_iff_toNat_le, hid]
    omega
  · show r.first.toNat ≤ ids.sequence.toNat + 1
    rw [hseq, hid]
    omega

/-- **An order that is placed was written down and flushed**, and the ones before it too. -/
theorem Sound.place (h : p.Sound issued separator r earlier sink) {sequence : UInt64}
    {order : NewOrder} {now : Nanos} {sink' : Sink}
    (hworking : sink.Working)
    (hids : submittedIds (decoded sink.handed) =
      submittedIds (decoded earlier) ++ p.placed.map (·.order.clientId))
    (hnext : sink'.Working)
    {within : (order.submitted now).encode.length ≤ Journal.Frame.maxPayload}
    (hhanded : sink'.handed = sink.handed ++ [Sink.framed (order.submitted now) within])
    (hnew : ∀ q ∈ p.placed, q.sequence < sequence) (hsequence : sequence = p.session.ids.sequence)
    (hrange : sequence ∈ r) (hclient : order.clientId =
    IdRules.clientId issued separator sequence) :
    Sound issued separator r earlier
      (Process.place { p with session := { p.session with journal := some sink' } } order sequence
        now) sink' := by
  have hext := extends_of_handed hworking hnext hhanded
  have hall : submittedIds (decoded (sink.handed ++ [Sink.framed (order.submitted now) within])) =
      submittedIds (decoded earlier) ++
        (p.placed ++ [(⟨order, sequence, now, sink'.flushed⟩ : Placement)]).map
          (·.order.clientId) := by
    rw [submittedIds_decoded_append, submittedIds_submitted, hids, List.map_append,
      List.append_assoc]
    rfl
  exact {
    journal := rfl
    names := h.names
    kept := hnext.kept
    recorded := by
      refine History.always_snoc (h.recorded.imp fun _ _ => Recorded.mono hext.handed)
        ⟨sink.handed, within, ?_, ?_, hall⟩
      · rw [hhanded]
      · rw [← hhanded, ← hnext.file]
        exact hnext.flushed.symm
    flushed := by
      intro q hq
      rcases List.mem_append.mp hq with hq | hq
      · exact (h.flushed q hq).trans hext.length
      · rw [List.mem_singleton.mp hq]
        exact hnext.flushed.le
    working := fun _ => ⟨hnext, by rw [hhanded]; exact hall⟩
    rises := by
      refine List.pairwise_append.mpr ⟨h.rises, List.pairwise_singleton _ _, fun a ha b hb => ?_⟩
      rw [List.mem_singleton.mp hb]
      exact hnew a ha
    numbered := by
      intro q hq
      rcases List.mem_append.mp hq with hq | hq
      · exact h.numbered q hq
      · rw [List.mem_singleton.mp hq]
        exact ⟨hsequence ▸ UInt64.le_refl _, hrange, hclient⟩
    first := h.first
    last := h.last }

/-- Sending an order. -/
theorem Sound.send (h : p.Sound issued separator r earlier sink) (permit : Permit) (now : Nanos)
    (answer : Placed) (asked : Except String (Option OrderAck)) :
    ∃ sink', (p.send permit now answer asked).1.Sound issued separator r earlier sink' := by
  unfold Process.send
  split
  · exact ⟨sink, h⟩
  rename_i hnone
  split
  · exact ⟨sink, h⟩
  rename_i sequence ids hnext
  have hsound := h.withIds hnext
  obtain ⟨hworking, hids⟩ := h.working hnone
  obtain ⟨hid, hle, hseq, hend⟩ := IdSequence.next_ok hnext
  simp only
  generalize horder : p.session.newOrder permit.order sequence = order
  rcases write_cases hsound.journal (fun _ => hworking) (order.submitted now) with
    ⟨hlost, -⟩ | ⟨-, hwrite | ⟨within, sink', hnext', hhanded, hwrite⟩ |
      ⟨e, sink', hkept, hext, hwrite⟩⟩
  · cases (hnone ▸ hlost : (none : Option Journal.JournalError).isSome = true)
  · rw [hwrite]
    exact ⟨sink, { hsound with }⟩
  · rw [hwrite]
    have hnew : ∀ q ∈ p.placed, q.sequence < sequence := by
      intro q hq
      have hbelow := UInt64.le_iff_toNat_le.mp (h.numbered q hq).1
      rw [UInt64.lt_iff_toNat_lt]
      omega
    have hrange : sequence ∈ r := by
      have hfirst := h.first
      refine ⟨?_, h.last ▸ hle⟩
      rw [UInt64.le_iff_toNat_le]
      omega
    have hclient : order.clientId = IdRules.clientId issued separator sequence := by
      rw [← horder, ← h.names.1, ← h.names.2]
      rfl
    have hplaced := hsound.place hworking hids hnext' hhanded hnew hseq.symm hrange hclient
    have hother : Record.Kind.outcome ≠ Record.Kind.submitted := by decide
    obtain ⟨sink'', hlast⟩ := hplaced.write_other
      (.outcome now order.clientId answer.tag answer.detail) hother
    simp only
    generalize write _ (.outcome now order.clientId answer.tag answer.detail) = wrote at hlast ⊢
    -- whether or not the answer was recorded
    obtain ⟨answered, p'⟩ := wrote
    cases answered <;> exact ⟨sink'', hlast⟩
  · rw [hwrite]
    exact ⟨sink', hsound.fail hkept hext e⟩

theorem Sound.submit (h : p.Sound issued separator r earlier sink) (order : ProposedOrder)
    (account : AccountState) (now : Nanos) (answer : Placed)
    (asked : Except String (Option OrderAck)) :
    ∃ sink', (p.submit order account now answer asked).1.Sound issued separator r earlier
    sink' := by
  unfold Process.submit
  generalize p.session.gate.check order account p.session.instrument now = checked
  obtain ⟨gate, decision⟩ := checked
  have hgate : Sound issued separator r earlier
      { p with session := { p.session with gate := gate } } sink := { h with }
  simp only
  cases decision with
  | none => exact ⟨sink, { h with }⟩
  | some decision =>
    cases decision with
    | permit permit => exact hgate.send permit now answer asked
    | refuse breach =>
      have hother : Record.Kind.refused ≠ Record.Kind.submitted := by decide
      obtain ⟨sink', hrefused⟩ := hgate.write_other (.refused now breach.text) hother
      simp only
      generalize write _ (.refused now breach.text) = wrote at hrefused ⊢
      obtain ⟨answered, p'⟩ := wrote
      cases answered <;> exact ⟨sink', hrefused⟩

/-- Step: whatever the session is asked. -/
theorem Sound.step (h : p.Sound issued separator r earlier sink) (a : Action) :
    ∃ sink', (p.step a).Sound issued separator r earlier sink' := by
  unfold Process.step
  split
  · exact ⟨sink, h⟩
  · cases a with
    | submit order account now answer asked => exact h.submit order account now answer asked
    | note record noted =>
      refine h.write_other record fun hkind => ?_
      cases record with
      | submitted => exact noted
      | _ => exact absurd hkind (by simp only [Record.kind]; decide)
    | trip => exact ⟨sink, { h with }⟩
    | clear => exact ⟨sink, { h with }⟩

/-- Run: whatever it is asked, in any order. -/
theorem Sound.run (h : p.Sound issued separator r earlier sink) (actions : List Action) :
    ∃ sink', (p.run actions).Sound issued separator r earlier sink' := by
  induction actions generalizing p sink with
  | nil => exact ⟨sink, h⟩
  | cons a actions ih =>
    obtain ⟨sink', hstep⟩ := h.step a
    exact ih hstep

/-- A session over a journal of earlier runs. -/
theorem sound_journalling {session session' : Session}
    (hrange : session.withOrderIdRange r = .ok session') (hworking : sink.Working) :
    ∃ sink', (journalling session' sink).Sound session.issued session.separator r sink.handed
      sink' := by
  unfold Session.withOrderIdRange at hrange
  split at hrange
  · cases hrange
  rename_i ids hids
  obtain rfl := Except.ok.inj hrange
  unfold IdSequence.withOrderIdRange at hids
  split at hids
  · cases hids
  rename_i hvalid
  obtain rfl := Except.ok.inj hids
  have hfirst : r.first.toNat ≤ (r.first - 1).toNat + 1 := by
    have hpos : r.first.toNat ≠ 0 := fun h0 =>
      hvalid (.inr (.inr (UInt64.toNat_inj.mp h0)))
    have hone : (1 : UInt64).toNat = 1 := rfl
    rw [UInt64.toNat_sub_of_le _ _ (by rw [UInt64.le_iff_toNat_le, hone]; omega), hone]
    omega
  have hstart : Sound session.issued session.separator r sink.handed
      ⟨{ session with ids := ⟨r.first - 1, r.last⟩, journal := some sink }, [], false⟩ sink := {
    journal := rfl
    names := ⟨rfl, rfl⟩
    kept := hworking.kept
    recorded := History.always_nil
    flushed := fun _ hq => absurd hq List.not_mem_nil
    working := fun _ => ⟨hworking, by simp⟩
    rises := List.Pairwise.nil
    numbered := fun _ hq => absurd hq List.not_mem_nil
    first := hfirst
    last := rfl }
  have hother : Record.Kind.sessionStart ≠ Record.Kind.submitted := by decide
  exact hstart.write_other _ hother

end Sound

/-! ## After the journal is lost -/

section Lost

variable {p : Process} (hjournal : p.session.journal ≠ none)
  (hlost : p.session.journalLost.isSome = true)
include hjournal hlost

theorem write_lost (record : Record) : p.write record = (.no, p) := by
  unfold write
  cases hsink : p.session.journal with
  | none => exact absurd hsink hjournal
  | some sink => simp only [hlost, if_true]

/-- Only the gate is asked. -/
theorem submit_lost (order : ProposedOrder) (account : AccountState) (now : Nanos)
    (answer : Placed) (asked : Except String (Option OrderAck)) :
    ∃ gate stopped, (p.submit order account now answer asked).1 =
      { p with session := { p.session with gate := gate }, stopped := stopped } := by
  unfold submit
  generalize p.session.gate.check order account p.session.instrument now = checked
  obtain ⟨gate, decision⟩ := checked
  refine ⟨gate, ?_⟩
  cases decision with
  | none => exact ⟨true, rfl⟩
  | some decision =>
    refine ⟨p.stopped, ?_⟩
    cases decision with
    | permit permit =>
      obtain ⟨why, hwhy⟩ := Option.isSome_iff_exists.mp hlost
      simp only [send, hwhy]
    | refuse breach =>
      have hwrite := write_lost (p := { p with session := { p.session with gate := gate } })
        hjournal hlost (.refused now breach.text)
      simp only [hwrite]

/-- Step: nothing is placed, and the journal stays lost. -/
theorem step_lost (a : Action) :
    (p.step a).placed = p.placed ∧ (p.step a).session.journal ≠ none ∧
      (p.step a).session.journalLost.isSome = true := by
  by_cases hstopped : p.stopped = true
  · rw [step.eq_def, if_pos hstopped]
    exact ⟨rfl, hjournal, hlost⟩
  rw [step.eq_def, if_neg hstopped]
  cases a with
  | submit order account now answer asked =>
    obtain ⟨gate, stopped, hsubmit⟩ := submit_lost hjournal hlost order account now answer asked
    simp only [hsubmit]
    exact ⟨True.intro, hjournal, hlost⟩
  | note record noted =>
    simp only [write_lost hjournal hlost]
    exact ⟨True.intro, hjournal, hlost⟩
  | trip => exact ⟨rfl, hjournal, hlost⟩
  | clear => exact ⟨rfl, hjournal, hlost⟩

/-- Run: once a record is refused, no order is sent. -/
theorem run_lost (actions : List Action) : (p.run actions).placed = p.placed := by
  induction actions generalizing p with
  | nil => rfl
  | cons a actions ih =>
    obtain ⟨hplaced, hjournal', hlost'⟩ := step_lost hjournal hlost a
    exact (ih hjournal' hlost').trans hplaced

end Lost

end Process

end Live
