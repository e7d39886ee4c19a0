/-
# Tick files (`oq-data/src/ticks.rs`)

A header of 32 bytes with a count and a checksum, then records of 64 bytes.  Three readers: the
one in memory (`decode`), the one that decodes as it reads (`readFile`) and the one that gives
the ticks one by one (`TickReader`).  Each does the checks in its own order.
-/
import OpenQuanter.Checked
import OpenQuanter.JournalFrame
import OpenQuanter.RestingBook

namespace Ticks

/-! ## The format -/

/-- `OQTK`, little-endian. -/
def magic : UInt32 := UInt32.ofNat (ofLe [0x4F, 0x51, 0x54, 0x4B])

/-- Bytes of file header. -/
def headerLen : Nat := 32

/-- Bytes per record. -/
def recordLen : Nat := 64

/-- The format version this build writes. -/
def version : UInt16 := 2

/-- The largest length there is. -/
def usizeMax : Nat := 2 ^ 64 - 1

/-- A tick file header. -/
structure Header where
  count : UInt64
  instrument : UInt64
  checksum : UInt32
  deriving DecidableEq, Repr

/-- Why a tick file could not be read. -/
inductive Error where
  | truncated (needed available : Nat)
  | badMagic (found : UInt32)
  | unknownVersion (found : UInt16)
  | checksumMismatch (expected computed : UInt32)
  | outOfOrder (index : Nat) (previous found : Nanos)
  deriving DecidableEq, Repr

/-- One record: eight integers. -/
def recordBytes (t : Tick) : List UInt8 :=
  i64Bytes t.stamp.exch ++ (i64Bytes t.stamp.local_ ++ (i64Bytes t.last ++ (i64Bytes t.high ++
    (i64Bytes t.low ++ (i64Bytes t.bid ++ (i64Bytes t.ask ++ i64Bytes t.volume))))))

/-- Encode ticks into the tick-file format. -/
def encode (instrument : UInt64) (ticks : List Tick) : List UInt8 :=
  let body := ticks.flatMap recordBytes
  u32Bytes magic ++ (u16Bytes version ++ (u16Bytes 0 ++ (u64Bytes (UInt64.ofNat ticks.length) ++
    (u64Bytes instrument ++ (u32Bytes (crc32 body) ++ (u32Bytes 0 ++ body))))))

/-- Read the header.  The reads have defaults that are never used: the bytes are there. -/
def readHeader (bytes : List UInt8) : Except Error Header :=
  if bytes.length < headerLen then .error (.truncated headerLen bytes.length)
  else
    let found := (u32At bytes 0).getD 0
    if found ≠ magic then .error (.badMagic found)
    else
      let found := (u16At bytes 4).getD 0
      if found ≠ version then .error (.unknownVersion found)
      else
        .ok
          { count := (u64At bytes 8).getD 0
            instrument := (u64At bytes 16).getD 0
            checksum := (u32At bytes 24).getD 0 }

/-- How long a file of so many records is, or nothing when no file is so long. -/
def expectedLen (count : UInt64) : Option Nat :=
  if headerLen + count.toNat * recordLen ≤ usizeMax then
    some (headerLen + count.toNat * recordLen)
  else none

/-- The tick a record holds. -/
def tickOf (chunk : List UInt8) : Tick :=
  let at_ := fun i => (i64At chunk (i * 8)).getD 0
  { stamp := ⟨at_ 0, at_ 1⟩
    last := at_ 2
    high := at_ 3
    low := at_ 4
    bid := at_ 5
    ask := at_ 6
    volume := at_ 7 }

/-- The ticks of the first records. -/
def readTicks : Nat → List UInt8 → List Tick
  | 0, _ => []
  | n + 1, bytes => tickOf (bytes.take recordLen) :: readTicks n (bytes.drop recordLen)

/-- The ticks of a block of whole records. -/
def ticksOf (block : List UInt8) : List Tick := readTicks (block.length / recordLen) block

/-! ## In memory -/

/-- Decode a tick file.  The checksum is verified before anything is returned. -/
def decode (bytes : List UInt8) : Except Error (Header × List Tick) := do
  let header ← readHeader bytes
  let expected := (expectedLen header.count).getD usizeMax
  Except.require (expected ≤ bytes.length) (.truncated expected bytes.length)
  let body := (bytes.take expected).drop headerLen
  Except.require (crc32 body = header.checksum) (.checksumMismatch header.checksum (crc32 body))
  return (header, ticksOf body)

/-! ## Checksums in pieces -/

/-- A checksum of the bytes so far. -/
structure Accumulator where
  state : UInt32
  deriving DecidableEq, Repr

namespace Accumulator

def new : Accumulator := ⟨0xFFFFFFFF⟩

def update (a : Accumulator) (bytes : List UInt8) : Accumulator := ⟨bytes.foldl Crc32.step a.state⟩

def finish (a : Accumulator) : UInt32 := a.state ^^^ 0xFFFFFFFF

end Accumulator

/-- Whole records per read. -/
def block : Nat := 8192

/-- The bytes of the next read, and what is behind them, if the file has them. -/
def readExact (want : Nat) (file : List UInt8) : Option (List UInt8 × List UInt8) :=
  if want ≤ file.length then some (file.take want, file.drop want) else none

/-! ## A file, decoded as it is read -/

/-- The loop of `readFile`: `remaining` records, a block at a time.  A read takes a record at
least, so there are no more reads than records. -/
def readBlocks (header : Header) : Nat → Nat → List UInt8 → Accumulator → List Tick →
    Except Error (Accumulator × List Tick)
  | 0, _, _, crc, ticks => .ok (crc, ticks)
  | fuel + 1, remaining, file, crc, ticks =>
    if remaining = 0 then .ok (crc, ticks)
    else
      let want := min remaining block * recordLen
      match readExact want file with
      | none =>
        .error (.truncated ((expectedLen header.count).getD usizeMax)
          (headerLen + (header.count.toNat - remaining) * recordLen))
      | some (piece, file) =>
        readBlocks header fuel (remaining - want / recordLen) file (crc.update piece)
          (ticks ++ ticksOf piece)

/-- Read the header from the front of a file, with what is behind it. -/
def readFirst (file : List UInt8) : Except Error (Header × List UInt8) :=
  match readExact headerLen file with
  | none => .error (.truncated headerLen 0)
  | some (first, rest) => (readHeader first).map fun header => (header, rest)

/-- Read a tick file without holding its bytes and its ticks at once. -/
def readFile (file : List UInt8) : Except Error (Header × List Tick) := do
  let (header, rest) ← readFirst file
  let expected := (expectedLen header.count).getD usizeMax
  Except.require (expected ≤ file.length) (.truncated expected file.length)
  let count := header.count.toNat
  let (crc, ticks) ← readBlocks header count count rest .new []
  Except.require (crc.finish = header.checksum) (.checksumMismatch header.checksum crc.finish)
  return (header, ticks)

/-! ## Streams -/

/-- The exchange times never go back. -/
def Ordered (ticks : List Tick) : Prop := ticks.IsChain fun a b => a.stamp.exch ≤ b.stamp.exch

instance (ticks : List Tick) : Decidable (Ordered ticks) := by
  unfold Ordered
  infer_instance

/-- The first tick that is before the one ahead of it, from an index on. -/
def firstBackward : Nat → List Tick → Option (Nat × Nanos × Nanos)
  | i, a :: b :: rest =>
    if b.stamp.exch < a.stamp.exch then some (i + 1, a.stamp.exch, b.stamp.exch)
    else firstBackward (i + 1) (b :: rest)
  | _, _ => none

theorem firstBackward_eq_none_iff (i : Nat) (ticks : List Tick) :
    firstBackward i ticks = none ↔ Ordered ticks := by
  unfold Ordered
  induction ticks generalizing i with
  | nil => simp [firstBackward]
  | cons a ticks ih =>
    cases ticks with
    | nil => simp [firstBackward]
    | cons b rest =>
      rw [firstBackward, List.isChain_cons_cons, ← ih (i + 1)]
      by_cases hback : b.stamp.exch < a.stamp.exch
      · rw [if_pos hback]
        exact ⟨fun h => (nomatch h), fun h => absurd h.1 (Int64.not_le.mpr hback)⟩
      · rw [if_neg hback]
        exact ⟨fun h => ⟨Int64.not_lt.mp hback, h⟩, fun h => h.2⟩

/-- A tick stream: its order is verified. -/
@[ext] structure TickStream where
  ticks : List Tick
  instrument : UInt64
  ordered : Ordered ticks

namespace TickStream

/-- Wrap ticks, verifying that they do not go back in exchange time. -/
def new (instrument : UInt64) (ticks : List Tick) : Except Error TickStream :=
  match h : firstBackward 0 ticks with
  | some (index, previous, found) => .error (.outOfOrder index previous found)
  | none => .ok ⟨ticks, instrument, (firstBackward_eq_none_iff 0 ticks).mp h⟩

/-- Load from encoded bytes. -/
def fromBytes (bytes : List UInt8) : Except Error TickStream := do
  let (header, ticks) ← decode bytes
  new header.instrument ticks

/-- Load from a file. -/
def fromFile (file : List UInt8) : Except Error TickStream := do
  let (header, ticks) ← readFile file
  new header.instrument ticks

end TickStream

/-! ## One tick after another -/

/-- A tick file read one block at a time. -/
structure TickReader where
  file : List UInt8
  header : Header
  crc : Accumulator
  /-- Decoded and not yet yielded, the next one first. -/
  pending : List Tick
  remaining : Nat
  previous : Option Nanos
  index : Nat
  failed : Bool

namespace TickReader

/-- Open a tick file for streaming. -/
def open_ (file : List UInt8) : Except Error TickReader := do
  let (header, rest) ← readFirst file
  return ⟨rest, header, .new, [], header.count.toNat, none, 0, false⟩

variable (r : TickReader)

/-- Read the next block; nothing at the end. -/
def fill : Option (Except Error TickReader) :=
  if r.remaining = 0 then none
  else
    let want := min r.remaining block * recordLen
    match readExact want r.file with
    | none =>
      some (.error (.truncated ((expectedLen r.header.count).getD usizeMax)
        (headerLen + (r.header.count.toNat - r.remaining) * recordLen)))
    | some (piece, rest) =>
      let r := { r with
        file := rest
        crc := r.crc.update piece
        pending := ticksOf piece
        remaining := r.remaining - want / recordLen }
      if r.remaining = 0 && r.crc.finish ≠ r.header.checksum then
        some (.error (.checksumMismatch r.header.checksum r.crc.finish))
      else some (.ok r)

/-- Yield the first pending tick, if it does not go back. -/
def yield_ : Option (Except Error Tick) × TickReader :=
  match r.pending with
  | [] => (none, r)
  | tick :: pending =>
    let r := { r with pending := pending }
    match r.previous with
    | some prev =>
      if tick.stamp.exch < prev then
        (some (.error (.outOfOrder r.index prev tick.stamp.exch)), { r with failed := true })
      else (some (.ok tick), { r with previous := some tick.stamp.exch, index := r.index + 1 })
    | none => (some (.ok tick), { r with previous := some tick.stamp.exch, index := r.index + 1 })

/-- The next tick. -/
def next : Option (Except Error Tick) × TickReader :=
  if r.failed then (none, r)
  else if r.pending = [] then
    match r.fill with
    | none => (none, r)
    | some (.ok r) => r.yield_
    | some (.error e) => (some (.error e), { r with failed := true })
  else r.yield_

/-- All ticks, or the first error; nothing if there are more than `fuel` of them. -/
def collectWithin (r : TickReader) : Nat → Option (Except Error (List Tick))
  | 0 => none
  | fuel + 1 =>
    match r.next with
    | (none, _) => some (.ok [])
    | (some (.error e), _) => some (.error e)
    | (some (.ok tick), r) => (r.collectWithin fuel).map fun rest => rest.map (tick :: ·)

end TickReader

/-- Collect a reader to its end.  There are no more ticks than the header promises. -/
def collect (file : List UInt8) : Option (Except Error (List Tick)) :=
  match TickReader.open_ file with
  | .error e => some (.error e)
  | .ok r => r.collectWithin (r.header.count.toNat + 1)

end Ticks
