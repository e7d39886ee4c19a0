/-
# Evidence files (`oq-live/src/ledger_coverage/wire.rs`)

One field a line, in one order, each number in the one way it is written.  What a reader
takes is said as the lines it takes (`evidence_ok`), so that a file is read as some
evidence exactly if the evidence is valid and its lines are the file's (`parse_ok`).
The lines of a file do not tell how its last line ends (`canonical_iff`).
-/
import OpenQuanter.Checked
import OpenQuanter.Coverage
import OpenQuanter.TextLines

/-! ## Numbers -/

/-- A number with its text: `FromStr` and `Display`. -/
class Numeral (T : Type) where
  fromStr : Text → Option T
  display : T → Text
  fromStr_display (v : T) : fromStr (display v) = some v
  plain (v : T) : ∀ c ∈ display v, c = '-' ∨ c.isDigit = true

namespace Coverage

/-- `str::parse::<i64>`: digits with a sign or without, that fit. -/
def parseI64 (text : Text) : Option Int64 :=
  let v : Option Int := match text with
    | '-' :: rest => (Decimal.parse rest).map fun (n : Nat) => -(n : Int)
    | '+' :: rest => (Decimal.parse rest).map Int.ofNat
    | _ => (Decimal.parse text).map Int.ofNat
  (v.filter FitsI64).map Int64.ofInt

def displayI64 (v : Int64) : Text :=
  if v.toInt < 0 then '-' :: Decimal.digits v.toInt.natAbs else Decimal.digits v.toInt.natAbs

/-- A number that is there fits. -/
theorem fits_toInt (v : Int64) :
    ((some v.toInt).filter (fun v => decide (FitsI64 v))).map Int64.ofInt = some v := by
  rw [Option.filter_some, if_pos (decide_eq_true (fitsI64_toInt v)), Option.map_some,
    Int64.ofInt_toInt]

theorem parseI64_display (v : Int64) : parseI64 (displayI64 v) = some v := by
  unfold displayI64
  split
  · rename_i hneg
    have habs : -(v.toInt.natAbs : Int) = v.toInt := by omega
    simp only [parseI64, Decimal.parse_digits, Option.map_some]
    rw [habs]
    exact fits_toInt v
  · rename_i hpos
    have habs : Int.ofNat v.toInt.natAbs = v.toInt := by
      show (v.toInt.natAbs : Int) = v.toInt
      omega
    have hsign : ∀ c rest, Decimal.digits v.toInt.natAbs = c :: rest → c.isDigit = true := by
      intro c rest hdigits
      exact Decimal.isDigit_of_mem_digits (by rw [hdigits]; exact List.mem_cons_self)
    unfold parseI64
    split
    · rename_i rest hdigits
      exact absurd (hsign _ _ hdigits) (by decide)
    · rename_i rest hdigits
      exact absurd (hsign _ _ hdigits) (by decide)
    · simp only [Decimal.parse_digits, Option.map_some]
      rw [habs]
      exact fits_toInt v

instance : Numeral Int64 where
  fromStr := parseI64
  display := displayI64
  fromStr_display := parseI64_display
  plain v c hc := by
    unfold displayI64 at hc
    split at hc
    · rcases List.mem_cons.mp hc with rfl | hc
      · exact .inl rfl
      · exact .inr (Decimal.isDigit_of_mem_digits hc)
    · exact .inr (Decimal.isDigit_of_mem_digits hc)

instance : Numeral UInt64 where
  fromStr := OrderIds.parseU64
  display v := Decimal.digits v.toNat
  fromStr_display := OrderIds.parseU64_digits
  plain _ _ hc := .inr (Decimal.isDigit_of_mem_digits hc)

open Numeral

/-- A number in the way it is written. -/
def number {T : Type} [Numeral T] (text : Text) : Except String T :=
  match fromStr text with
  | none => .error "invalid evidence integer"
  | some v =>
    if display v ≠ text then .error "non-canonical evidence integer" else .ok v

/-- **There is one way.** -/
theorem number_ok {T : Type} [Numeral T] {text : Text} {v : T} :
    number text = .ok v ↔ text = display v := by
  unfold number
  constructor
  · intro h
    cases hparse : fromStr (T := T) text with
    | none =>
      rw [hparse] at h
      cases h
    | some v' =>
      simp only [hparse] at h
      split at h
      · cases h
      · rename_i hcanonical
        obtain rfl := Except.ok.inj h
        exact (not_not.mp hcanonical).symm
  · rintro rfl
    simp only [fromStr_display, ne_eq, not_true_eq_false, if_false]

/-! ## Writing -/

/-- Whether a character may stand in a symbol. -/
def symbolChar (c : Char) : Bool := c.isAlphanum || IdRules.isPunctuation c

def validate (e : CoverageEvidence) : Except String Unit :=
  if !hashValid e.journalDataHash ∨ !hashValid e.accountScopeHash ∨ e.sinceMs < 0 ∨
      e.throughMs < e.sinceMs ∨ e.evaluatedMs < e.throughMs ∨ e.maxAgeMs < 0 then
    .error "invalid evidence identity or evaluation policy"
  else
    let symbol := e.fees.symbol
    if symbol.isEmpty ∨ !symbol.toList.all symbolChar then .error "invalid evidence symbol"
    else do
      window e e.fees symbol
      window e e.funding symbol
      if (e.fees.rows.val.any fun r =>
            r.tradeId = 0 || r.timeMs < e.fees.sinceMs || e.fees.throughMs < r.timeMs) ∨
          (e.funding.rows.val.any fun r =>
            r.timeMs < e.funding.sinceMs || e.funding.throughMs < r.timeMs) then
        .error "evidence row lies outside its declared source window"
      else .ok ()

/-- The lines about a source, in front of its rows. -/
def header {T : Type} (name : String) (source : HistoryWindow T) (count : UInt64) : List Text :=
  [(name ++ ".symbol=").toList ++ source.symbol.toList,
    (name ++ ".since_ms=").toList ++ display source.sinceMs,
    (name ++ ".through_ms=").toList ++ display source.throughMs,
    (name ++ ".observed_ms=").toList ++ display source.observedMs,
    (name ++ ".rows=").toList ++ display count]

/-- The number of a vector's elements. -/
def len {T : Type} (rows : Vec T) : UInt64 := UInt64.ofNat rows.val.length

def sideText : Side → Text
  | .buy => "BUY".toList
  | .sell => "SELL".toList

def feeText (r : ExecutionFee) : List Text :=
  [display r.tradeId, sideText r.side, display r.timeMs, display r.amount]

def fundingText (r : FundingLine) : List Text :=
  [display r.id, display r.timeMs, display r.amount]

/-- A row, with commas between its fields. -/
def rowText {T : Type} (key : String) (fields : T → List Text) (r : T) : Text :=
  key.toList ++ [','].intercalate (fields r)

/-- The first line of a file. -/
def version : String := "openquanter ledger-history evidence v1"

/-- The lines of a file. -/
def evidenceLines (e : CoverageEvidence) : List Text :=
  [version.toList,
    "journal_data_hash=".toList ++ e.journalDataHash.toList,
    "account_scope_hash=".toList ++ e.accountScopeHash.toList,
    "since_ms=".toList ++ display e.sinceMs,
    "through_ms=".toList ++ display e.throughMs,
    "evaluated_ms=".toList ++ display e.evaluatedMs,
    "max_age_ms=".toList ++ display e.maxAgeMs] ++
  header "fees" e.fees (len e.fees.rows) ++ e.fees.rows.val.map (rowText "fee=" feeText) ++
  header "funding" e.funding (len e.funding.rows) ++
    e.funding.rows.val.map (rowText "funding=" fundingText)

/-- Serialize complete, well-formed windows. -/
def evidenceText (e : CoverageEvidence) : Except String String := do
  validate e
  pure (String.ofList (Text.unlines (evidenceLines e)))

/-! ## Reading -/

/-- The next line, behind its key. -/
def get (key : String) : Lines Text :=
  Lines.field "truncated evidence file" ("expected evidence field " ++ key) key.toList

/-- A number behind its key. -/
def getNumber {T : Type} [Numeral T] (key : String) : Lines T := do
  let text ← get key
  Lines.given (number text)

/-- How many rows follow; no more than there are lines. -/
def count (key : String) : Lines UInt64 := do
  let n : UInt64 ← getNumber key
  fun ls =>
    if ls.length < n.toNat then .error "evidence count exceeds remaining lines" else .ok (n, ls)

/-- No rows yet. -/
def noRows {T : Type} : Vec T := ⟨[], Nat.two_pow_pos 64⟩

def source {T : Type} (name scope : String) : Lines (HistoryWindow T × UInt64) := do
  let symbol ← get (name ++ ".symbol=")
  let sinceMs ← getNumber (name ++ ".since_ms=")
  let throughMs ← getNumber (name ++ ".through_ms=")
  let observedMs ← getNumber (name ++ ".observed_ms=")
  let n ← count (name ++ ".rows=")
  pure (⟨scope, String.ofList symbol, sinceMs, throughMs, observedMs, .complete,
    noRows⟩, n)

def sideOf (text : Text) : Except String Side :=
  if text = "BUY".toList then .ok .buy
  else if text = "SELL".toList then .ok .sell
  else .error "invalid fee evidence side"

/-- The fields of a row. -/
def feeFields : List Text → Except String ExecutionFee
  | [trade, side, time, amount] => do
    let side ← sideOf side
    let tradeId ← number trade
    let timeMs ← number time
    let amount ← number amount
    pure ⟨tradeId, side, timeMs, amount⟩
  | _ => .error "invalid fee evidence row"

def fundingFields : List Text → Except String FundingLine
  | [id, time, amount] => do
    let id ← number id
    let timeMs ← number time
    let amount ← number amount
    pure ⟨id, timeMs, amount⟩
  | _ => .error "invalid funding evidence row"

/-- A row, its fields between commas. -/
def row {T : Type} (key : String) (fields : List Text → Except String T) : Lines T := do
  let text ← get key
  Lines.given (fields (text.splitOn ','))

def feeRow : Lines ExecutionFee := row "fee=" feeFields

def fundingRow : Lines FundingLine := row "funding=" fundingFields

/-- As many rows as were announced. -/
def rows {T : Type} (row : Lines T) (n : UInt64) : Lines (Vec T) := do
  let as ← Lines.many row n.toNat
  pure ⟨as.val, as.property.symm ▸ n.toNat_lt⟩

def evidence : Lines CoverageEvidence := do
  let rest ← get version
  Lines.given (if rest.isEmpty then .ok () else .error "invalid evidence version")
  let journalDataHash ← get "journal_data_hash="
  let accountScopeHash ← get "account_scope_hash="
  let accountScopeHash := String.ofList accountScopeHash
  let sinceMs ← getNumber "since_ms="
  let throughMs ← getNumber "through_ms="
  let evaluatedMs ← getNumber "evaluated_ms="
  let maxAgeMs ← getNumber "max_age_ms="
  let fees : HistoryWindow ExecutionFee × UInt64 ← source "fees" accountScopeHash
  let feeRows ← rows feeRow fees.2
  let funding : HistoryWindow FundingLine × UInt64 ← source "funding" accountScopeHash
  let fundingRows ← rows fundingRow funding.2
  pure ⟨String.ofList journalDataHash, accountScopeHash, sinceMs, throughMs, evaluatedMs, maxAgeMs,
    { fees.1 with rows := feeRows }, { funding.1 with rows := fundingRows }⟩

/-- Reject reordered, extra, truncated, non-canonical or unsupported fields. -/
def parseEvidence (text : String) : Except String CoverageEvidence := do
  let read ← evidence (Text.lines text.toList)
  Except.require (read.2 = []) "extra evidence fields"
  validate read.1
  pure read.1

/-! ## What a reader takes -/

section

variable {ls rest : List Text}

theorem get_ok {key : String} {v : Text} :
    get key ls = .ok (v, rest) ↔ ls = (key.toList ++ v) :: rest := Lines.field_ok

theorem getNumber_ok {T : Type} [Numeral T] {key : String} {v : T} :
    getNumber key ls = .ok (v, rest) ↔ ls = (key.toList ++ display v) :: rest := by
  rw [getNumber, Lines.bind_ok]
  constructor
  · rintro ⟨text, mid, hget, hnumber⟩
    obtain ⟨hv, rfl⟩ := Lines.given_ok.mp hnumber
    rw [get_ok.mp hget, number_ok.mp hv]
  · rintro rfl
    exact ⟨display v, rest, get_ok.mpr rfl, Lines.given_ok.mpr ⟨number_ok.mpr rfl, rfl⟩⟩

theorem count_ok {key : String} {n : UInt64} :
    count key ls = .ok (n, rest) ↔
      ls = (key.toList ++ display n) :: rest ∧ n.toNat ≤ rest.length := by
  rw [count, Lines.bind_ok]
  constructor
  · rintro ⟨n', mid, hnumber, h⟩
    by_cases hlt : mid.length < n'.toNat
    · rw [if_pos hlt] at h
      cases h
    · rw [if_neg hlt] at h
      obtain ⟨rfl, rfl⟩ := Prod.mk.inj (Except.ok.inj h)
      exact ⟨getNumber_ok.mp hnumber, Nat.not_lt.mp hlt⟩
  · rintro ⟨rfl, hle⟩
    exact ⟨n, rest, getNumber_ok.mpr rfl, if_neg (Nat.not_lt.mpr hle)⟩

/-- A source: its header, with as many lines behind it as it has rows. -/
theorem source_ok {T : Type} {name scope : String} {w : HistoryWindow T} {n : UInt64} :
    source name scope ls = .ok ((w, n), rest) ↔
      (w.accountScopeHash = scope ∧ w.completeness = .complete ∧ w.rows = noRows) ∧
        ls = header name w n ++ rest ∧ n.toNat ≤ rest.length := by
  rw [source]
  constructor
  · intro h
    obtain ⟨symbol, ls1, hsymbol, h⟩ := Lines.bind_ok.mp h
    obtain ⟨since, ls2, hsince, h⟩ := Lines.bind_ok.mp h
    obtain ⟨through, ls3, hthrough, h⟩ := Lines.bind_ok.mp h
    obtain ⟨observed, ls4, hobserved, h⟩ := Lines.bind_ok.mp h
    obtain ⟨n', ls5, hcount, h⟩ := Lines.bind_ok.mp h
    obtain ⟨heq, rfl⟩ := Lines.pure_ok.mp h
    obtain ⟨rfl, rfl⟩ := Prod.mk.inj heq
    obtain ⟨rfl, hle⟩ := count_ok.mp hcount
    refine ⟨⟨rfl, rfl, rfl⟩, ?_, hle⟩
    rw [get_ok.mp hsymbol, getNumber_ok.mp hsince, getNumber_ok.mp hthrough,
      getNumber_ok.mp hobserved]
    simp [header]
  · rintro ⟨⟨rfl, hcomplete, hrows⟩, rfl, hle⟩
    obtain ⟨scope, symbol, since, through, observed, completeness, rows⟩ := w
    obtain rfl : completeness = .complete := hcomplete
    obtain rfl : rows = noRows := hrows
    refine Lines.bind_ok.mpr ⟨_, _, get_ok.mpr rfl, ?_⟩
    refine Lines.bind_ok.mpr ⟨_, _, getNumber_ok.mpr rfl, ?_⟩
    refine Lines.bind_ok.mpr ⟨_, _, getNumber_ok.mpr rfl, ?_⟩
    refine Lines.bind_ok.mpr ⟨_, _, getNumber_ok.mpr rfl, ?_⟩
    refine Lines.bind_ok.mpr ⟨_, _, count_ok.mpr ⟨rfl, hle⟩, ?_⟩
    rw [String.ofList_toList]
    rfl

theorem sideOf_ok {text : Text} {side : Side} : sideOf text = .ok side ↔ text = sideText side := by
  unfold sideOf
  by_cases hbuy : text = "BUY".toList
  · rw [if_pos hbuy, hbuy]
    cases side <;> decide
  · rw [if_neg hbuy]
    by_cases hsell : text = "SELL".toList
    · rw [if_pos hsell, hsell]
      cases side <;> decide
    · rw [if_neg hsell]
      cases side with
      | buy => exact ⟨fun h => (nomatch h), fun h => absurd h hbuy⟩
      | sell => exact ⟨fun h => (nomatch h), fun h => absurd h hsell⟩

/-- A number has no comma. -/
theorem comma_display {T : Type} [Numeral T] (v : T) : ',' ∉ display v := by
  intro h
  rcases plain v _ h with heq | hdigit
  · exact absurd heq (by decide)
  · exact absurd hdigit (by decide)

theorem feeFields_ok {fields : List Text} {r : ExecutionFee} :
    feeFields fields = .ok r ↔ fields = feeText r := by
  constructor
  · intro h
    unfold feeFields at h
    split at h
    · obtain ⟨side, hside, h⟩ := Except.bind_eq_ok.mp h
      obtain ⟨trade, htrade, h⟩ := Except.bind_eq_ok.mp h
      obtain ⟨time, htime, h⟩ := Except.bind_eq_ok.mp h
      obtain ⟨amount, hamount, h⟩ := Except.bind_eq_ok.mp h
      obtain rfl := Except.pure_eq_ok.mp h
      rw [sideOf_ok.mp hside, number_ok.mp htrade, number_ok.mp htime, number_ok.mp hamount]
      rfl
    · cases h
  · rintro rfl
    simp only [feeText, feeFields, sideOf_ok.mpr rfl, number_ok.mpr rfl]
    rfl

theorem fundingFields_ok {fields : List Text} {r : FundingLine} :
    fundingFields fields = .ok r ↔ fields = fundingText r := by
  constructor
  · intro h
    unfold fundingFields at h
    split at h
    · obtain ⟨id, hid, h⟩ := Except.bind_eq_ok.mp h
      obtain ⟨time, htime, h⟩ := Except.bind_eq_ok.mp h
      obtain ⟨amount, hamount, h⟩ := Except.bind_eq_ok.mp h
      obtain rfl := Except.pure_eq_ok.mp h
      rw [number_ok.mp hid, number_ok.mp htime, number_ok.mp hamount]
      rfl
    · cases h
  · rintro rfl
    simp only [fundingText, fundingFields, number_ok.mpr rfl]
    rfl

theorem comma_feeText (r : ExecutionFee) : ∀ field ∈ feeText r, ',' ∉ field := by
  simp only [feeText, List.forall_mem_cons]
  refine ⟨comma_display _, ?_, comma_display _, comma_display _,
    fun _ h => absurd h List.not_mem_nil⟩
  cases r.side <;> decide

theorem comma_fundingText (r : FundingLine) : ∀ field ∈ fundingText r, ',' ∉ field := by
  simp only [fundingText, List.forall_mem_cons]
  exact ⟨comma_display _, comma_display _, comma_display _, fun _ h => absurd h List.not_mem_nil⟩

/-- A row is read as its fields are. -/
theorem row_ok {T : Type} {key : String} {fields : List Text → Except String T}
    {write : T → List Text} (hfields : ∀ {fs : List Text} {r : T}, fields fs = .ok r ↔ fs = write r)
    (hcomma : ∀ r, ∀ field ∈ write r, ',' ∉ field) (hne : ∀ r, write r ≠ []) {r : T}
    {ls rest : List Text} :
    row key fields ls = .ok (r, rest) ↔ ls = rowText key write r :: rest := by
  rw [row, Lines.bind_ok]
  constructor
  · rintro ⟨text, mid, hget, h⟩
    obtain ⟨hr, rfl⟩ := Lines.given_ok.mp h
    rw [get_ok.mp hget, rowText, ← hfields.mp hr, List.intercalate_splitOn]
  · rintro rfl
    refine ⟨_, _, get_ok.mpr rfl, Lines.given_ok.mpr ⟨hfields.mpr ?_, rfl⟩⟩
    exact List.splitOn_intercalate ',' (hcomma r) (hne r)

theorem feeRow_ok {r : ExecutionFee} {ls rest : List Text} :
    feeRow ls = .ok (r, rest) ↔ ls = rowText "fee=" feeText r :: rest :=
  row_ok feeFields_ok comma_feeText fun _ => List.cons_ne_nil _ _

theorem fundingRow_ok {r : FundingLine} {ls rest : List Text} :
    fundingRow ls = .ok (r, rest) ↔ ls = rowText "funding=" fundingText r :: rest :=
  row_ok fundingFields_ok comma_fundingText fun _ => List.cons_ne_nil _ _

theorem toNat_len {T : Type} (rs : Vec T) : (len rs).toNat = rs.val.length :=
  UInt64.toNat_ofNat_of_lt' rs.property

/-- Rows: as many as were announced. -/
theorem rows_ok {T : Type} {r : Lines T} {write : T → Text}
    (hrow : ∀ {a : T} {ls rest : List Text}, r ls = .ok (a, rest) ↔ ls = write a :: rest)
    {n : UInt64} {rs : Vec T} {ls rest : List Text} :
    rows r n ls = .ok (rs, rest) ↔ n = len rs ∧ ls = rs.val.map write ++ rest := by
  rw [rows, Lines.bind_ok]
  constructor
  · rintro ⟨as, mid, hmany, h⟩
    obtain ⟨rfl, rfl⟩ := Lines.pure_ok.mp h
    refine ⟨UInt64.toNat.inj ?_, (Lines.many_ok hrow).mp hmany⟩
    rw [toNat_len]
    exact as.property.symm
  · rintro ⟨rfl, rfl⟩
    exact ⟨⟨rs.val, (toNat_len rs).symm⟩, rest, (Lines.many_ok hrow).mpr rfl,
      Lines.pure_ok.mpr ⟨rfl, rfl⟩⟩

/-- The windows are the ones of the attachment. -/
structure Attached (e : CoverageEvidence) : Prop where
  fees : e.fees.accountScopeHash = e.accountScopeHash ∧ e.fees.completeness = .complete
  funding : e.funding.accountScopeHash = e.accountScopeHash ∧ e.funding.completeness = .complete

/-- The header does not speak of the rows themselves. -/
theorem header_rows {T : Type} (name : String) (w : HistoryWindow T) (rs : Vec T) (n : UInt64) :
    header name { w with rows := rs } n = header name w n := rfl

/-- A source in front of its rows. -/
theorem source_header {T : Type} {name scope : String} {w : HistoryWindow T} {tail : List Text}
    (hscope : w.accountScopeHash = scope) (hcomplete : w.completeness = .complete)
    (hle : w.rows.val.length ≤ tail.length) :
    source name scope (header name w (len w.rows) ++ tail) =
      .ok ((({ w with rows := noRows } : HistoryWindow T), len w.rows), tail) :=
  source_ok.mpr ⟨⟨hscope, hcomplete, rfl⟩, rfl, (toNat_len _).trans_le hle⟩

/-- **What is read as some evidence**: its lines. -/
theorem evidence_ok {e : CoverageEvidence} {ls rest : List Text} :
    evidence ls = .ok (e, rest) ↔ Attached e ∧ ls = evidenceLines e ++ rest := by
  rw [evidence]
  constructor
  · intro h
    obtain ⟨more, ls1, hversion, h⟩ := Lines.bind_ok.mp h
    obtain ⟨_, ls2, hempty, h⟩ := Lines.bind_ok.mp h
    obtain ⟨journal, ls3, hjournal, h⟩ := Lines.bind_ok.mp h
    obtain ⟨scope, ls4, hscope, h⟩ := Lines.bind_ok.mp h
    obtain ⟨since, ls5, hsince, h⟩ := Lines.bind_ok.mp h
    obtain ⟨through, ls6, hthrough, h⟩ := Lines.bind_ok.mp h
    obtain ⟨evaluated, ls7, hevaluated, h⟩ := Lines.bind_ok.mp h
    obtain ⟨maxAge, ls8, hmaxAge, h⟩ := Lines.bind_ok.mp h
    obtain ⟨⟨fees, n⟩, ls9, hfees, h⟩ := Lines.bind_ok.mp h
    obtain ⟨feeRows, ls10, hfeeRows, h⟩ := Lines.bind_ok.mp h
    obtain ⟨⟨funding, m⟩, ls11, hfunding, h⟩ := Lines.bind_ok.mp h
    obtain ⟨fundingRows, ls12, hfundingRows, h⟩ := Lines.bind_ok.mp h
    obtain ⟨rfl, rfl⟩ := Lines.pure_ok.mp h
    obtain ⟨⟨hfeeScope, hfeeComplete, -⟩, rfl, -⟩ := source_ok.mp hfees
    obtain ⟨rfl, rfl⟩ := (rows_ok feeRow_ok).mp hfeeRows
    obtain ⟨⟨hfundingScope, hfundingComplete, -⟩, rfl, -⟩ := source_ok.mp hfunding
    obtain ⟨rfl, rfl⟩ := (rows_ok fundingRow_ok).mp hfundingRows
    obtain ⟨hempty, rfl⟩ := Lines.given_ok.mp hempty
    obtain rfl : more = [] := by
      by_contra hmore
      rw [if_neg (by simpa using hmore)] at hempty
      cases hempty
    refine ⟨⟨⟨hfeeScope, hfeeComplete⟩, hfundingScope, hfundingComplete⟩, ?_⟩
    rw [get_ok.mp hversion, get_ok.mp hjournal, get_ok.mp hscope, getNumber_ok.mp hsince,
      getNumber_ok.mp hthrough, getNumber_ok.mp hevaluated, getNumber_ok.mp hmaxAge]
    simp [evidenceLines, header_rows]
  · rintro ⟨⟨⟨hfeeScope, hfeeComplete⟩, hfundingScope, hfundingComplete⟩, rfl⟩
    simp only [evidenceLines, List.append_assoc, List.cons_append, List.nil_append]
    refine Lines.bind_ok.mpr ⟨[], _, get_ok.mpr (by rw [List.append_nil]), ?_⟩
    refine Lines.bind_ok.mpr ⟨(), _, rfl, ?_⟩
    refine Lines.bind_ok.mpr ⟨_, _, get_ok.mpr rfl, ?_⟩
    refine Lines.bind_ok.mpr ⟨_, _, get_ok.mpr rfl, ?_⟩
    refine Lines.bind_ok.mpr ⟨_, _, getNumber_ok.mpr rfl, ?_⟩
    refine Lines.bind_ok.mpr ⟨_, _, getNumber_ok.mpr rfl, ?_⟩
    refine Lines.bind_ok.mpr ⟨_, _, getNumber_ok.mpr rfl, ?_⟩
    refine Lines.bind_ok.mpr ⟨_, _, getNumber_ok.mpr rfl, ?_⟩
    refine Lines.bind_ok.mpr ⟨_, _, source_header (by rw [String.ofList_toList]; exact hfeeScope)
      hfeeComplete (by simp), ?_⟩
    refine Lines.bind_ok.mpr ⟨_, _, (rows_ok feeRow_ok).mpr ⟨rfl, rfl⟩, ?_⟩
    refine Lines.bind_ok.mpr ⟨_, _, source_header
      (by rw [String.ofList_toList]; exact hfundingScope)
      hfundingComplete (by simp), ?_⟩
    refine Lines.bind_ok.mpr ⟨_, _, (rows_ok fundingRow_ok).mpr ⟨rfl, rfl⟩, ?_⟩
    simp only [String.ofList_toList]
    rfl

end

/-- What is validated. -/
theorem attached_of_validate {e : CoverageEvidence} (h : validate e = .ok ()) :
    Attached e ∧ (∀ c ∈ e.journalDataHash.toList, IdRules.isHexDigit c = true) ∧
      (∀ c ∈ e.accountScopeHash.toList, IdRules.isHexDigit c = true) ∧
      (∀ c ∈ e.fees.symbol.toList, symbolChar c = true) ∧ e.funding.symbol = e.fees.symbol := by
  unfold validate at h
  split at h
  · cases h
  rename_i hpolicy
  simp only at h
  split at h
  · cases h
  rename_i hsymbol
  obtain ⟨_, hfees, h⟩ := Except.bind_eq_ok.mp h
  obtain ⟨_, hfunding, -⟩ := Except.bind_eq_ok.mp h
  obtain ⟨hfeeScope, -, hfeeComplete⟩ := of_window hfees
  obtain ⟨hfundingScope, hsame, hfundingComplete⟩ := of_window hfunding
  push Not at hpolicy hsymbol
  have hhash : ∀ {text : String}, hashValid text = true →
      ∀ c ∈ text.toList, IdRules.isHexDigit c = true := by
    intro text hvalid
    exact List.all_eq_true.mp (Bool.and_eq_true_iff.mp hvalid).2
  refine ⟨⟨⟨hfeeScope, hfeeComplete⟩, hfundingScope, hfundingComplete⟩, hhash ?_, hhash ?_, ?_,
    hsame⟩
  · simpa using hpolicy.1
  · simpa using hpolicy.2.1
  · exact List.all_eq_true.mp (by simpa using hsymbol.2)

theorem evidenceText_ok {e : CoverageEvidence} {text : String} :
    evidenceText e = .ok text ↔
      validate e = .ok () ∧ String.ofList (Text.unlines (evidenceLines e)) = text := by
  rw [evidenceText, Except.bind_eq_ok]
  constructor
  · rintro ⟨_, hvalid, htext⟩
    exact ⟨hvalid, Except.pure_eq_ok.mp htext⟩
  · rintro ⟨hvalid, rfl⟩
    exact ⟨(), hvalid, rfl⟩

/-- **A file is read as some evidence** if the evidence is valid and has its lines. -/
theorem parse_ok {e : CoverageEvidence} {text : String} :
    parseEvidence text = .ok e ↔
      validate e = .ok () ∧ Text.lines text.toList = evidenceLines e := by
  rw [parseEvidence, Except.bind_eq_ok]
  constructor
  · rintro ⟨⟨e', rest⟩, hread, h⟩
    obtain ⟨hattached, hlines⟩ := evidence_ok.mp hread
    obtain ⟨hrest, h⟩ := Except.require_bind_eq_ok.mp h
    obtain ⟨_, hvalid, hpure⟩ := Except.bind_eq_ok.mp h
    obtain rfl := Except.pure_eq_ok.mp hpure
    obtain rfl : rest = [] := hrest
    exact ⟨hvalid, by rw [hlines, List.append_nil]⟩
  · rintro ⟨hvalid, hlines⟩
    refine ⟨(e, []), ?_, ?_⟩
    · exact evidence_ok.mpr ⟨(attached_of_validate hvalid).1, by rw [hlines, List.append_nil]⟩
    · refine Except.require_bind_eq_ok.mpr ⟨rfl, ?_⟩
      exact Except.bind_eq_ok.mpr ⟨(), hvalid, rfl⟩

/-! ## Files -/

/-- A line of a file. -/
def Plain (line : Text) : Prop := '\n' ∉ line ∧ '\r' ∉ line

instance (line : Text) : Decidable (Plain line) := inferInstanceAs (Decidable (_ ∧ _))

theorem Plain.append {a b : Text} (ha : Plain a) (hb : Plain b) : Plain (a ++ b) := by
  constructor
  · rw [List.mem_append]
    exact fun h => h.elim ha.1 hb.1
  · rw [List.mem_append]
    exact fun h => h.elim ha.2 hb.2

theorem plain_of_forall {p : Char → Bool} {line : Text} (h : ∀ c ∈ line, p c = true)
    (hnewline : p '\n' = false) (hcr : p '\r' = false) : Plain line := by
  constructor
  · intro hmem
    rw [h _ hmem] at hnewline
    cases hnewline
  · intro hmem
    rw [h _ hmem] at hcr
    cases hcr

theorem plain_display {T : Type} [Numeral T] (v : T) : Plain (display v) := by
  refine plain_of_forall (p := fun c => c = '-' || c.isDigit) (fun c hc => ?_) (by decide)
    (by decide)
  rcases plain v c hc with rfl | hdigit
  · rfl
  · rw [hdigit, Bool.or_true]

/-- A row of fields. -/
theorem plain_intercalate {fields : List Text} (h : ∀ field ∈ fields, Plain field) :
    Plain ([','].intercalate fields) := by
  induction fields with
  | nil => exact ⟨List.not_mem_nil, List.not_mem_nil⟩
  | cons field fields ih =>
    rw [List.forall_mem_cons] at h
    cases fields with
    | nil =>
      rw [List.intercalate_singleton]
      exact h.1
    | cons second rest =>
      rw [List.intercalate_cons_cons]
      exact (h.1.append (by decide)).append (ih h.2)

theorem plain_feeText (r : ExecutionFee) : ∀ field ∈ feeText r, Plain field := by
  simp only [feeText, List.forall_mem_cons]
  refine ⟨plain_display _, ?_, plain_display _, plain_display _,
    fun _ h => absurd h List.not_mem_nil⟩
  cases r.side <;> decide

theorem plain_fundingText (r : FundingLine) : ∀ field ∈ fundingText r, Plain field := by
  simp only [fundingText, List.forall_mem_cons]
  exact ⟨plain_display _, plain_display _, plain_display _, fun _ h => absurd h List.not_mem_nil⟩

theorem plain_header {T : Type} {name : String} {w : HistoryWindow T} {n : UInt64}
    (hname : Plain name.toList) (hsymbol : Plain w.symbol.toList) :
    ∀ line ∈ header name w n, Plain line := by
  have hkey : ∀ {key : String}, Plain key.toList → Plain (name ++ key).toList := by
    intro key hplain
    rw [String.toList_append]
    exact hname.append hplain
  simp only [header, List.forall_mem_cons]
  refine ⟨(hkey (by decide)).append hsymbol, (hkey (by decide)).append (plain_display _),
    (hkey (by decide)).append (plain_display _), (hkey (by decide)).append (plain_display _),
    (hkey (by decide)).append (plain_display _), fun _ h => absurd h List.not_mem_nil⟩

/-- **The lines of valid evidence** are lines. -/
theorem plain_evidenceLines {e : CoverageEvidence} (h : validate e = .ok ()) :
    ∀ line ∈ evidenceLines e, Plain line := by
  obtain ⟨-, hjournal, hscope, hsymbol, hsame⟩ := attached_of_validate h
  have hfees : Plain e.fees.symbol.toList := plain_of_forall hsymbol (by decide) (by decide)
  have hrow : ∀ {T : Type} {key : String} {fields : T → List Text} {rs : List T},
      Plain key.toList → (∀ r, ∀ field ∈ fields r, Plain field) →
      ∀ line ∈ rs.map (rowText key fields), Plain line := by
    intro T key fields rs hkey hfields line hline
    obtain ⟨r, -, rfl⟩ := List.mem_map.mp hline
    exact hkey.append (plain_intercalate (hfields r))
  have hhex : ∀ {text : String}, (∀ c ∈ text.toList, IdRules.isHexDigit c = true) →
      Plain text.toList := fun h => plain_of_forall h (by decide) (by decide)
  intro line hline
  simp only [evidenceLines, List.mem_append] at hline
  rcases hline with (((hline | hline) | hline) | hline) | hline
  · revert line
    simp only [List.forall_mem_cons]
    exact ⟨by decide, Plain.append (by decide) (hhex hjournal),
      Plain.append (by decide) (hhex hscope), Plain.append (by decide) (plain_display _),
      Plain.append (by decide) (plain_display _), Plain.append (by decide) (plain_display _),
      Plain.append (by decide) (plain_display _), fun _ h => absurd h List.not_mem_nil⟩
  · exact plain_header (by decide) hfees line hline
  · exact hrow (by decide) plain_feeText line hline
  · exact plain_header (by decide) (by rw [hsame]; exact hfees) line hline
  · exact hrow (by decide) plain_fundingText line hline

/-- Every line of a text is ended, by a newline alone. -/
def Ended (text : String) : Prop :=
  '\r' ∉ text.toList ∧ text.toList.getLast? = some '\n'

instance (text : String) : Decidable (Ended text) := inferInstanceAs (Decidable (_ ∧ _))

/-- A file that is written is ended so. -/
theorem ended_of_evidenceText {e : CoverageEvidence} {text : String}
    (h : evidenceText e = .ok text) : Ended text := by
  obtain ⟨hvalid, rfl⟩ := evidenceText_ok.mp h
  rw [Ended, String.toList_ofList]
  constructor
  · exact Text.not_mem_unlines fun line hline => (plain_evidenceLines hvalid line hline).2
  · exact Text.getLast?_unlines (List.cons_ne_nil _ _)

/-- **What is written is read back.** -/
theorem parse_evidenceText {e : CoverageEvidence} {text : String}
    (h : evidenceText e = .ok text) : parseEvidence text = .ok e := by
  obtain ⟨hvalid, rfl⟩ := evidenceText_ok.mp h
  refine parse_ok.mpr ⟨hvalid, ?_⟩
  rw [String.toList_ofList]
  exact Text.lines_unlines (plain_evidenceLines hvalid)

/-- **What was read is written back** if its lines are ended so. -/
theorem evidenceText_parse {e : CoverageEvidence} {text : String}
    (h : parseEvidence text = .ok e) (hended : Ended text) : evidenceText e = .ok text := by
  obtain ⟨hvalid, hlines⟩ := parse_ok.mp h
  refine evidenceText_ok.mpr ⟨hvalid, ?_⟩
  rw [← hlines, Text.unlines_lines hended.1 hended.2, String.ofList_toList]

/-- A file that ends before the end of another is not one. -/
theorem not_parse_of_cut {e e' : CoverageEvidence} {cut rest : String}
    (h : evidenceText e = .ok (cut ++ rest)) (hended : Ended cut) (hrest : rest ≠ "") :
    parseEvidence cut ≠ .ok e' := by
  intro hcut
  obtain ⟨hvalid', hlines'⟩ := parse_ok.mp hcut
  obtain ⟨hvalid, hlines⟩ := parse_ok.mp (parse_evidenceText h)
  have hplain := plain_evidenceLines hvalid'
  have htext : cut.toList = Text.unlines (evidenceLines e') := by
    rw [← hlines', Text.unlines_lines hended.1 hended.2]
  rw [String.toList_append, htext, Text.lines_unlines_append hplain] at hlines
  -- both are read from the lines of the longer one
  have hread : evidence (evidenceLines e) = .ok (e, []) :=
    evidence_ok.mpr ⟨(attached_of_validate hvalid).1, (List.append_nil _).symm⟩
  have hread' : evidence (evidenceLines e) = .ok (e', Text.lines rest.toList) :=
    evidence_ok.mpr ⟨(attached_of_validate hvalid').1, hlines.symm⟩
  obtain ⟨rfl, -⟩ := Prod.mk.inj (Except.ok.inj (hread.symm.trans hread'))
  obtain ⟨-, htext'⟩ := evidenceText_ok.mp h
  rw [← htext, String.ofList_toList] at htext'
  refine hrest (String.toList_inj.mp ?_)
  have hlist := congrArg String.toList htext'
  rw [String.toList_append] at hlist
  simpa using hlist

/-- **Evidence files are canonical as far as their lines are ended.**  What is written is
read back; a text that is read is the one that is written if and only if each of its lines
ends in a newline alone; and no strict prefix of a file that ends so is read. -/
theorem evidence_canonical (e : CoverageEvidence) (text : String) :
    (evidenceText e = .ok text → parseEvidence text = .ok e) ∧
      (parseEvidence text = .ok e → (evidenceText e = .ok text ↔ Ended text)) ∧
      ∀ cut rest, evidenceText e = .ok (cut ++ rest) → rest ≠ "" → Ended cut →
        ∀ e', parseEvidence cut ≠ .ok e' :=
  ⟨fun h => parse_evidenceText h,
    fun h => ⟨ended_of_evidenceText, evidenceText_parse h⟩,
    fun _ _ h hrest hended _ => not_parse_of_cut h hended hrest⟩

/-! ### A number cut short -/

def sampleHash : String := "0123456789abcdef0123456789abcdef0123456789abcdef0123456789abcdef"

/-- One execution and one funding line, of some amount. -/
def sample (amount : Cash) : CoverageEvidence where
  journalDataHash := sampleHash
  accountScopeHash := sampleHash
  sinceMs := 0
  throughMs := 100
  evaluatedMs := 200
  maxAgeMs := 100
  fees := ⟨sampleHash, "SYNTH", 0, 100, 150, .complete, ⟨[⟨1, .buy, 10, -5⟩], by decide⟩⟩
  funding := ⟨sampleHash, "SYNTH", 0, 100, 150, .complete,
    ⟨[⟨9, 11, amount⟩], Nat.one_lt_two_pow (by decide)⟩⟩

/-- A file that ends in `funding=9,11,-31`. -/
def sampleText : Text := Text.unlines (evidenceLines (sample (-31)))

/-- The same file without its last two characters. -/
def sampleCut : Text := sampleText.dropLast.dropLast

theorem evidence_canonical_sample : parseEvidence (String.ofList sampleText) = .ok (sample (-31)) :=
  (evidence_canonical (sample (-31)) (String.ofList sampleText)).1
    (evidenceText_ok.mpr ⟨by decide +kernel, rfl⟩)

/-- **A strict prefix is read**, with another amount, and is not what is written for it. -/
theorem evidence_canonical_cut :
    evidenceText (sample (-31)) = .ok (String.ofList sampleText) ∧
      sampleCut <+: sampleText ∧ sampleCut ≠ sampleText ∧
      parseEvidence (String.ofList sampleCut) = .ok (sample (-3)) ∧
      evidenceText (sample (-3)) ≠ .ok (String.ofList sampleCut) := by
  refine ⟨evidenceText_ok.mpr ⟨by decide +kernel, rfl⟩, ?_, ?_, ?_, ?_⟩
  · exact (List.dropLast_prefix _).trans (List.dropLast_prefix _)
  · decide +kernel
  · refine parse_ok.mpr ⟨by decide +kernel, ?_⟩
    rw [String.toList_ofList]
    decide +kernel
  · intro h
    have hended := (ended_of_evidenceText h).2
    rw [String.toList_ofList] at hended
    exact absurd hended (by decide +kernel)

end Coverage
