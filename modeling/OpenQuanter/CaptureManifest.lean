/-
# Windows and manifests (`oq-l2feed/src/day.rs`, `oq-l2feed/src/manifest.rs`)

The stretch of time a capture file covers, what is counted while it is written, and the control
records the capture process writes.  A gap marker is told by its text: the payloads of the other
control records have it nowhere, whatever the texts in them (`isGap_sessionStart`,
`isGap_clockOffset`), since a quote in a text is escaped.
-/
import OpenQuanter.CaptureFrame
import OpenQuanter.Fixed
import OpenQuanter.RunFile

namespace Text

/-- `str::from_utf8`. -/
def fromUtf8 (bytes : List UInt8) : Option Text :=
  (String.fromUTF8? ⟨bytes.toArray⟩).map String.toList

theorem fromUtf8_utf8 (text : Text) : fromUtf8 (utf8 text) = some text := by
  have hbytes : (⟨(utf8 text).toArray⟩ : ByteArray) = (String.ofList text).toUTF8 := by
    simp [utf8]
  unfold fromUtf8 String.fromUTF8?
  rw [hbytes, String.toUTF8_eq_toByteArray, dif_pos (String.ofList text).isValidUTF8]
  exact congrArg some (String.toList_ofList ..)

/-! ## Pieces -/

/-- What is in front of the first separator belongs to the first piece. -/
theorem splitOn_append_of_not_mem {sep : Char} {front : Text} (h : sep ∉ front) (text : Text) :
    (front ++ text).splitOn sep = (text.splitOn sep).modifyHead (front ++ ·) := by
  obtain ⟨piece, pieces, hsplit⟩ := List.exists_cons_of_ne_nil (List.splitOn_ne_nil sep text)
  rw [hsplit, List.modifyHead_cons]
  induction front with
  | nil => exact hsplit
  | cons c front ih =>
    rw [List.mem_cons, not_or] at h
    rw [List.cons_append, List.splitOn_cons_eq_if_modifyHead,
      if_neg (by simpa using fun heq => h.1 (Eq.symm heq)),
      ih h.2, List.modifyHead_cons]
    rfl

theorem rtakeWhile_append {sep : Char} {text : Text} (h : sep ∉ text) (front : Text) :
    (front ++ sep :: text).rtakeWhile (· ≠ sep) = text := by
  have hall : ∀ c ∈ text.reverse, decide (c ≠ sep) = true := by
    intro c hc
    exact decide_eq_true fun heq => h (heq ▸ List.mem_reverse.mp hc)
  rw [List.rtakeWhile, List.reverse_append, List.reverse_cons, List.append_assoc,
    List.takeWhile_append_of_pos hall, List.singleton_append,
    List.takeWhile_cons_of_neg (by simp), List.append_nil, List.reverse_reverse]

end Text

namespace Capture

open Text

/-! ## Windows -/

/-- Nanoseconds in a day. -/
def nsPerDay : Int := 86400000000000

/-- Nanoseconds in an hour. -/
def nsPerHour : Int := 3600000000000

/-- How often the writer starts a new file. -/
inductive Rotation where
  | daily
  | hourly
  deriving DecidableEq, Repr

/-- The stretch of time one file covers: a day, or an hour of it. -/
structure Window where
  day : Int
  hour : Option Nat
  deriving DecidableEq, Repr

namespace Window

/-- First nanosecond of a day, at the end of the range if it is out of it. -/
def dayStart (day : Int) : Int64 := Int64.ofIntClamp (day * nsPerDay)

/-- The window containing `ts` under `rotation`. -/
def fromNanos (ts : Int64) (rotation : Rotation) : Window :=
  let day := ts.toInt / nsPerDay
  match rotation with
  | .daily => ⟨day, none⟩
  | .hourly => ⟨day, some ((ts.toInt - (dayStart day).toInt) / nsPerHour).toNat⟩

/-- First nanosecond of the window. -/
def startNanos (w : Window) : Int := (dayStart w.day).toInt + w.hour.getD 0 * nsPerHour

/-- The derived order: by day, then by hour, a whole day before its hours. -/
def before (v w : Window) : Bool :=
  v.day < w.day || (v.day = w.day &&
    match v.hour, w.hour with
    | none, some _ => true
    | some h, some k => h < k
    | _, none => false)

end Window

/-! ## Control records -/

/-- Minimal JSON string escaping of one character. -/
def escapeChar (c : Char) : Text :=
  if c = '"' then ['\\', '"']
  else if c = '\\' then ['\\', '\\']
  else if c = '\n' then ['\\', 'n']
  else if c = '\r' then ['\\', 'r']
  else if c = '\t' then ['\\', 't']
  else if c.toNat < 0x20 then
    "\\u00".toList ++ [Sha256.hexDigits.getD (c.toNat / 16) '0',
      Sha256.hexDigits.getD (c.toNat % 16) '0']
  else [c]

/-- Minimal JSON string escaping. -/
def escape (input : Text) : Text := input.flatMap escapeChar

namespace Control

/-- `session_start`. -/
def sessionStart (version venue symbol stream : Text) : Text :=
  "\x7b\"type\":\"session_start\",\"capture_version\":\"".toList ++ (escape version ++
    ("\",\"venue\":\"".toList ++ (escape venue ++
      ("\",\"symbol\":\"".toList ++ (escape symbol ++
        ("\",\"stream\":\"".toList ++ (escape stream ++ "\"\x7d".toList)))))))

/-- `clock_offset`. -/
def clockOffset (offsetNs dispersionNs : Int64) : Text :=
  "\x7b\"type\":\"clock_offset\",\"offset_ns\":".toList ++ (Numeral.display offsetNs ++
    (",\"dispersion_ns\":".toList ++ (Numeral.display dispersionNs ++ "\x7d".toList)))

/-- `gap`. -/
def gap (reason : Text) (lastSeq : Option UInt64) (outageNs : Int64) : Text :=
  "\x7b\"type\":\"gap\",\"reason\":\"".toList ++ (escape reason ++
    ("\",\"last_seq\":".toList ++ ((lastSeq.map Numeral.display).getD "null".toList ++
      (",\"outage_ns\":".toList ++ (Numeral.display outageNs ++ "\x7d".toList)))))

end Control

/-- What a gap marker has in it. -/
def gapText : Text := "\"type\":\"gap\"".toList

/-- Whether a record is a gap marker. -/
def isGap (r : Record) : Bool :=
  r.kind = .control && (fromUtf8 r.payload).any fun s => decide (gapText <:+: s)

/-- The outage a gap marker declares, which is its last number. -/
def outage (r : Record) : Int64 :=
  (((fromUtf8 r.payload).map fun s => s.dropLast.rtakeWhile (· ≠ ':')).bind Numeral.fromStr).getD 0

/-! ## Counting -/

/-- Clock offset estimates archived with the data. -/
structure ClockOffset where
  atStartNs : Int64
  atEndNs : Int64
  maxAbsNs : Int64
  deriving DecidableEq, Repr

/-- Accumulates manifest fields as records are written. -/
structure ManifestBuilder where
  records : Nat
  bytesRaw : Nat
  exchFirst : Option Int64
  exchLast : Option Int64
  localFirst : Option Int64
  localLast : Option Int64
  gaps : Nat
  gapNsTotal : Int64
  clockOffset : ClockOffset
  clockSeen : Bool
  deriving DecidableEq, Repr

namespace ManifestBuilder

/-- A builder with nothing observed yet. -/
def new : ManifestBuilder := ⟨0, 0, none, none, none, none, 0, 0, ⟨0, 0, 0⟩, false⟩

/-- Account for one written record. -/
def observe (b : ManifestBuilder) (r : Record) : ManifestBuilder :=
  { b with
    records := b.records + 1
    bytesRaw := b.bytesRaw + r.encodedLen
    exchFirst := if r.exchTs ≠ noExchTs then some (b.exchFirst.getD r.exchTs) else b.exchFirst
    exchLast := if r.exchTs ≠ noExchTs then some r.exchTs else b.exchLast
    localFirst := some (b.localFirst.getD r.localTs)
    localLast := some r.localTs }

/-- Account for a feed gap.  A total that does not fit stops the process. -/
def observeGap (b : ManifestBuilder) (outageNs : Int64) : Option ManifestBuilder :=
  let total := b.gapNsTotal.toInt + outageNs.toInt
  if FitsI64 total then some { b with gaps := b.gaps + 1, gapNsTotal := Int64.ofInt total }
  else none

/-- Account for a clock offset estimate.  One without an absolute value stops the process. -/
def observeClockOffset (b : ManifestBuilder) (offsetNs : Int64) : Option ManifestBuilder :=
  if offsetNs = Int64.minValue then none
  else some { b with
    clockOffset :=
      { atStartNs := if b.clockSeen then b.clockOffset.atStartNs else offsetNs
        atEndNs := offsetNs
        maxAbsNs := max b.clockOffset.maxAbsNs (Int64.ofInt |offsetNs.toInt|) }
    clockSeen := true }

end ManifestBuilder

/-- What a stream of a venue is. -/
structure StreamId where
  venue : Text
  symbol : Text
  stream : Text
  deriving DecidableEq, Repr

/-- The capture software. -/
structure Software where
  version : Text
  commit : Text
  deriving DecidableEq, Repr

/-- What a sealed window contains. -/
structure Manifest where
  formatVersion : UInt32
  stream : StreamId
  window : Window
  records : Nat
  bytesRaw : Nat
  exchTsRange : Option (Int64 × Int64)
  localTsRange : Option (Int64 × Int64)
  gaps : Nat
  gapNsTotal : Int64
  clockOffset : ClockOffset
  software : Software
  sha256Raw : Text
  deriving DecidableEq, Repr

/-- Version of the capture files that are written. -/
def formatVersion : UInt32 := 2

/-- Finish, given the digest of the file. -/
def ManifestBuilder.buildHashed (b : ManifestBuilder) (stream : StreamId) (window : Window)
    (software : Software) (sha256Raw : Text) : Manifest where
  formatVersion := formatVersion
  stream := stream
  window := window
  records := b.records
  bytesRaw := b.bytesRaw
  exchTsRange := b.exchFirst.bind fun first => b.exchLast.map fun last => (first, last)
  localTsRange := b.localFirst.bind fun first => b.localLast.map fun last => (first, last)
  gaps := b.gaps
  gapNsTotal := b.gapNsTotal
  clockOffset := b.clockOffset
  software := software
  sha256Raw := sha256Raw

/-- Finish, with the digest of the file's content. -/
def ManifestBuilder.build (b : ManifestBuilder) (stream : StreamId) (window : Window)
    (software : Software) (raw : List UInt8) : Manifest :=
  b.buildHashed stream window software (Sha256.sha256Hex raw)

/-! ## What a gap marker is -/

theorem isGap_control {localTs : Int64} {text : Text} :
    isGap (.control localTs (utf8 text)) = decide (gapText <:+: text) := by
  simp [isGap, Record.control, fromUtf8_utf8]

theorem isGap_gap (localTs : Int64) (reason : Text) (lastSeq : Option UInt64) (outageNs : Int64) :
    isGap (.control localTs (utf8 (Control.gap reason lastSeq outageNs))) = true := by
  rw [isGap_control]
  have hhead : "\x7b\"type\":\"gap\",\"reason\":\"".toList =
      ['{'] ++ gapText ++ ",\"reason\":\"".toList := by decide
  refine decide_eq_true ?_
  unfold Control.gap
  simp only [hhead, List.append_assoc]
  exact ⟨['{'], _, List.append_assoc ..⟩

theorem outage_gap (localTs : Int64) (reason : Text) (lastSeq : Option UInt64) (outageNs : Int64) :
    outage (.control localTs (utf8 (Control.gap reason lastSeq outageNs))) = outageNs := by
  have hcolon : ':' ∉ Numeral.display outageNs := by
    intro hmem
    rcases Numeral.plain outageNs ':' hmem with h | h
    · exact absurd h (by decide)
    · exact absurd h (by decide)
  have hshape : ∃ front, Control.gap reason lastSeq outageNs =
      (front ++ ':' :: Numeral.display outageNs) ++ ['}'] := by
    have hkey : ",\"outage_ns\":".toList = ",\"outage_ns\"".toList ++ [':'] := by decide
    refine ⟨"\x7b\"type\":\"gap\",\"reason\":\"".toList ++ (escape reason ++
      ("\",\"last_seq\":".toList ++ ((lastSeq.map Numeral.display).getD "null".toList ++
        ",\"outage_ns\"".toList))), ?_⟩
    unfold Control.gap
    simp only [hkey, List.append_assoc, List.cons_append, List.nil_append]
    rfl
  obtain ⟨front, hshape⟩ := hshape
  unfold outage Record.control
  simp only [fromUtf8_utf8, Option.map_some, hshape, List.dropLast_concat,
    rtakeWhile_append hcolon, Option.bind_some, Numeral.fromStr_display, Option.getD_some]

/-! ### What is none

A marker is told by its text between quotes, so it is looked for among the pieces between
quotes. -/

/-- The pieces a marker has in it. -/
def gapPieces : List Text := ["type".toList, [':'], "gap".toList]

/-- Pieces without a marker. -/
def Unmarked (pieces : List Text) : Prop := ¬ gapPieces <:+: pieces

theorem not_isGap_of_unmarked {localTs : Int64} {text : Text} (h : Unmarked (text.splitOn '"')) :
    isGap (.control localTs (utf8 text)) = false := by
  rw [isGap_control]
  refine decide_eq_false ?_
  rintro ⟨front, rest, rfl⟩
  refine h ⟨front.splitOn '"', rest.splitOn '"', ?_⟩
  have hgap : gapText = ['"'] ++ ("type".toList ++ '"' ::
      ([':'] ++ '"' :: ("gap".toList ++ ['"']))) := by decide
  have hshape : front ++ gapText ++ rest = front ++ '"' :: ("type".toList ++ '"' ::
      ([':'] ++ '"' :: ("gap".toList ++ '"' :: rest))) := by
    rw [hgap]
    simp only [List.append_assoc, List.cons_append, List.nil_append]
  rw [hshape, List.splitOn_append_cons_self, List.splitOn_append_cons_self_of_not_mem (by decide),
    List.splitOn_append_cons_self_of_not_mem (by decide),
    List.splitOn_append_cons_self_of_not_mem (by decide), gapPieces]
  simp only [List.append_assoc, List.cons_append, List.nil_append]

theorem unmarked_cons {piece : Text} {pieces : List Text} :
    Unmarked (piece :: pieces) ↔ ¬ gapPieces <+: piece :: pieces ∧ Unmarked pieces := by
  rw [Unmarked, List.infix_cons_iff, not_or, Unmarked]

theorem quote_not_mem_escapeChar {c : Char} (h : c ≠ '"') : '"' ∉ escapeChar c := by
  have hdigit : ∀ i, Sha256.hexDigits.getD i '0' ≠ '"' := by
    intro i heq
    exact absurd (heq ▸ Sha256.getD_hexDigits_mem i) (by decide)
  unfold escapeChar
  rw [if_neg h]
  split_ifs
  · decide
  · decide
  · decide
  · decide
  · rw [List.mem_append, List.mem_pair, not_or, not_or]
    exact ⟨by decide, (hdigit _).symm, (hdigit _).symm⟩
  · exact fun hmem => h (List.mem_singleton.mp hmem).symm

theorem unmarked_cons_of_ne {piece : Text} {pieces : List Text} (hne : piece ≠ "type".toList)
    (h : Unmarked pieces) : Unmarked (piece :: pieces) := by
  refine unmarked_cons.mpr ⟨?_, h⟩
  rintro ⟨rest, hrest⟩
  exact hne (List.cons.inj hrest).1.symm

/-- In an escaped text a quote stands behind a backslash. -/
theorem backslash_of_mem_dropLast {input piece : Text}
    (h : piece ∈ ((escape input).splitOn '"').dropLast) : piece.getLast? = some '\\' := by
  induction input generalizing piece with
  | nil => cases h
  | cons c input ih =>
    obtain ⟨first, others, hsplit⟩ := List.exists_cons_of_ne_nil
      (List.splitOn_ne_nil '"' (escape input))
    rw [escape, List.flatMap_cons, ← escape] at h
    by_cases hc : c = '"'
    · rw [hc, escapeChar, if_pos rfl, show ['\\', '"'] ++ escape input = ['\\'] ++ '"' ::
        escape input
        from rfl, List.splitOn_append_cons_self_of_not_mem (by decide),
        List.dropLast_cons_of_ne_nil (List.splitOn_ne_nil _ _)] at h
      rcases List.mem_cons.mp h with rfl | h
      · rfl
      · exact ih h
    · rw [splitOn_append_of_not_mem (quote_not_mem_escapeChar hc), hsplit,
        List.modifyHead_cons] at h
      rw [hsplit] at ih
      cases others with
      | nil => cases h
      | cons second others =>
        rw [List.dropLast_cons_of_ne_nil (List.cons_ne_nil _ _)] at h ih
        rcases List.mem_cons.mp h with rfl | h
        · rw [List.getLast?_append, ih List.mem_cons_self]
          rfl
        · exact ih (List.mem_cons_of_mem _ h)

/-- An escaped text between quotes, with something other than a colon behind it. -/
theorem unmarked_escape {input piece : Text} {pieces : List Text} (hpiece : piece ≠ [':'])
    (h : Unmarked (piece :: pieces)) :
    Unmarked ((escape input).splitOn '"' ++ piece :: pieces) := by
  have hall : ∀ p ∈ ((escape input).splitOn '"').dropLast, p ≠ "type".toList := by
    intro p hp htype
    rw [htype] at hp
    exact absurd (backslash_of_mem_dropLast hp) (by decide)
  revert hall
  generalize (escape input).splitOn '"' = texts
  intro hall
  induction texts with
  | nil => exact h
  | cons first others ih =>
    rw [List.cons_append, unmarked_cons]
    cases others with
    | nil =>
      refine ⟨?_, h⟩
      rintro ⟨rest, hrest⟩
      exact hpiece (List.cons.inj (List.cons.inj hrest).2).1.symm
    | cons second others =>
      rw [List.dropLast_cons_of_ne_nil (List.cons_ne_nil _ _), List.forall_mem_cons] at hall
      refine ⟨?_, ih hall.2⟩
      rintro ⟨rest, hrest⟩
      exact hall.1 (List.cons.inj hrest).1.symm

/-- A key between the quote that ends one text and the quote that begins the next. -/
theorem splitOn_key {key : Text} (h : '"' ∉ key) (rest : Text) :
    (',' :: '"' :: (key ++ '"' :: ':' :: '"' :: rest)).splitOn '"' =
      [','] :: key :: [':'] :: rest.splitOn '"' := by
  have hcomma : ',' :: '"' :: (key ++ '"' :: ':' :: '"' :: rest) =
      [','] ++ '"' :: (key ++ '"' :: ([':'] ++ '"' :: rest)) := rfl
  rw [hcomma, List.splitOn_append_cons_self_of_not_mem (by decide),
    List.splitOn_append_cons_self_of_not_mem h,
      List.splitOn_append_cons_self_of_not_mem (by decide)]

/-- The pieces of a session marker. -/
theorem splitOn_sessionStart (version venue symbol stream : Text) :
    (Control.sessionStart version venue symbol stream).splitOn '"' =
      [['{'], "type".toList, [':'], "session_start".toList, [','], "capture_version".toList,
      [':']] ++
        ((escape version).splitOn '"' ++ [','] :: "venue".toList :: [':'] ::
          ((escape venue).splitOn '"' ++ [','] :: "symbol".toList :: [':'] ::
            ((escape symbol).splitOn '"' ++ [','] :: "stream".toList :: [':'] ::
              ((escape stream).splitOn '"' ++ [['}']])))) := by
  have hhead : "\x7b\"type\":\"session_start\",\"capture_version\":\"".toList =
      "\x7b\"type\":\"session_start\",\"capture_version\":".toList ++ ['"'] := by decide
  have hheadPieces : ("\x7b\"type\":\"session_start\",\"capture_version\":".toList).splitOn '"' =
      [['{'], "type".toList, [':'], "session_start".toList, [','], "capture_version".toList,
        [':']] := by
    decide
  have hvenue : "\",\"venue\":\"".toList =
      '"' :: ',' :: '"' :: ("venue".toList ++ ['"', ':', '"']) := by decide
  have hsymbol : "\",\"symbol\":\"".toList =
      '"' :: ',' :: '"' :: ("symbol".toList ++ ['"', ':', '"']) := by decide
  have hstream : "\",\"stream\":\"".toList =
      '"' :: ',' :: '"' :: ("stream".toList ++ ['"', ':', '"']) := by decide
  have hend : "\"\x7d".toList = ['"', '}'] := by decide
  unfold Control.sessionStart
  simp only [hhead, hvenue, hsymbol, hstream, hend, List.append_assoc, List.cons_append,
    List.nil_append,
    List.splitOn_append_cons_self]
  rw [hheadPieces, splitOn_key (by decide), List.splitOn_append_cons_self, splitOn_key (by decide),
    List.splitOn_append_cons_self, splitOn_key (by decide), List.splitOn_append_cons_self]
  rfl

/-- A type other than a gap, in front of pieces without a marker. -/
theorem unmarked_type {kind : Text} {pieces : List Text} (hkind : kind ≠ "gap".toList)
    (htype : kind ≠ "type".toList) (h : Unmarked pieces) :
    Unmarked (['{'] :: "type".toList :: [':'] :: kind :: pieces) := by
  have hcolon : Unmarked ([':'] :: kind :: pieces) :=
    unmarked_cons_of_ne (by decide) (unmarked_cons_of_ne htype h)
  refine unmarked_cons_of_ne (by decide) (unmarked_cons.mpr ⟨?_, hcolon⟩)
  rintro ⟨rest, hrest⟩
  exact hkind (List.cons.inj (List.cons.inj (List.cons.inj hrest).2).2).1.symm

/-- **A session marker is no gap marker**, whatever the names in it. -/
theorem isGap_sessionStart (localTs : Int64) (version venue symbol stream : Text) :
    isGap (.control localTs (utf8 (Control.sessionStart version venue symbol stream))) = false := by
  have hkey : ∀ {key : Text} {pieces : List Text}, key ≠ "type".toList → Unmarked pieces →
      Unmarked ([','] :: key :: [':'] :: pieces) := fun hne h =>
    unmarked_cons_of_ne (by decide) (unmarked_cons_of_ne hne (unmarked_cons_of_ne (by decide) h))
  refine not_isGap_of_unmarked ?_
  rw [splitOn_sessionStart]
  refine unmarked_type (by decide) (by decide) (hkey (by decide) ?_)
  refine unmarked_escape (by decide) (hkey (by decide) ?_)
  refine unmarked_escape (by decide) (hkey (by decide) ?_)
  refine unmarked_escape (by decide) (hkey (by decide) ?_)
  refine unmarked_escape (by decide) (unmarked_cons_of_ne (by decide) ?_)
  exact fun h => absurd (List.eq_nil_of_infix_nil h) (by decide)

theorem quote_not_mem_display (v : Int64) : '"' ∉ Numeral.display v := by
  intro hmem
  rcases Numeral.plain v '"' hmem with h | h
  · exact absurd h (by decide)
  · exact absurd h (by decide)

theorem isGap_clockOffset (localTs offsetNs dispersionNs : Int64) :
    isGap (.control localTs (utf8 (Control.clockOffset offsetNs dispersionNs))) = false := by
  have hhead : "\x7b\"type\":\"clock_offset\",\"offset_ns\":".toList =
      "\x7b\"type\":\"clock_offset\",\"offset_ns".toList ++ ['"', ':'] := by decide
  have hheadPieces : ("\x7b\"type\":\"clock_offset\",\"offset_ns".toList).splitOn '"' =
      [['{'], "type".toList, [':'], "clock_offset".toList, [','], "offset_ns".toList] := by decide
  have hkey : ",\"dispersion_ns\":".toList =
      [','] ++ '"' :: ("dispersion_ns".toList ++ ['"', ':']) := by decide
  have hfirst : '"' ∉ ':' :: (Numeral.display offsetNs ++ [',']) := by
    simp [quote_not_mem_display]
  have hlast : '"' ∉ ':' :: (Numeral.display dispersionNs ++ "\x7d".toList) := by
    simp [quote_not_mem_display]
  have hshape : Control.clockOffset offsetNs dispersionNs =
      "\x7b\"type\":\"clock_offset\",\"offset_ns".toList ++ '"' ::
        ((':' :: (Numeral.display offsetNs ++ [','])) ++
        '"' :: ("dispersion_ns".toList ++ '"' :: ':' ::
          (Numeral.display dispersionNs ++ "\x7d".toList))) := by
    unfold Control.clockOffset
    simp only [hhead, hkey, List.append_assoc, List.cons_append, List.nil_append]
  refine not_isGap_of_unmarked ?_
  rw [hshape, List.splitOn_append_cons_self, hheadPieces,
    List.splitOn_append_cons_self_of_not_mem hfirst,
    List.splitOn_append_cons_self_of_not_mem (by decide), List.splitOn_eq_singleton hlast]
  refine unmarked_type (by decide) (by decide) (unmarked_cons_of_ne (by decide) ?_)
  refine unmarked_cons_of_ne (by decide) (unmarked_cons_of_ne ?_ (unmarked_cons_of_ne (by decide)
    (unmarked_cons_of_ne ?_ ?_)))
  · exact fun h => absurd (List.cons.inj h).1 (by decide)
  · exact fun h => absurd (List.cons.inj h).1 (by decide)
  · exact fun h => absurd (List.eq_nil_of_infix_nil h) (by decide)

end Capture
