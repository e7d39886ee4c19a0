/-
# Run files (`oq-parity/src/wire.rs`, with `manifest.rs` and `record.rs`)

A run written down: a version, the digest of the body, the identity of the run, its profit and
its fills, one a line.  Nothing is escaped, a line is read without the blanks at its end, and an
absent tag is a dash.
-/
import OpenQuanter.CoverageWire
import OpenQuanter.Sha256

/-! ## Characters -/

namespace Text

/-- `char::is_whitespace`. -/
def isWhitespace (c : Char) : Bool :=
  let v := c.toNat
  (0x9 ≤ v && v ≤ 0xD) || v = 0x20 || v = 0x85 || v = 0xA0 || v = 0x1680 ||
    (0x2000 ≤ v && v ≤ 0x200A) || v = 0x2028 || v = 0x2029 || v = 0x202F || v = 0x205F || v = 0x3000

/-- `str::trim_end`. -/
def trimEnd (text : Text) : Text := text.rdropWhile isWhitespace

/-- `str::trim`. -/
def trim (text : Text) : Text := trimEnd (text.dropWhile isWhitespace)

/-- `str::split_once(' ')`, or all and nothing. -/
def splitOnce (text : Text) : Text × Text :=
  (text.takeWhile (· ≠ ' '), (text.dropWhile (· ≠ ' ')).drop 1)

/-- What is behind the first line. -/
def afterLine (text : Text) : Text := (text.dropWhile (· ≠ '\n')).drop 1

/-- `str::strip_prefix`. -/
def stripPrefix (key text : Text) : Option Text :=
  if key.isPrefixOf text then some (text.drop key.length) else none

/-- The bytes of a text. -/
def utf8 (text : Text) : List UInt8 := (String.ofList text).toUTF8.data.toList

end Text

/-- An `f64` with its text: `Display`, `FromStr` and `PartialEq`.  What is written is read as
the number it was, which is equal to itself if it is a number at all. -/
class FloatText (F : Type) where
  display : F → Text
  fromStr : Text → Option F
  eq : F → F → Bool
  plain (x : F) : ∀ c ∈ display x, Text.isWhitespace c = false
  reads (x : F) : ∃ y, fromStr (display x) = some y ∧ eq y x = eq x x

namespace Parity

/-! ## Runs -/

/-- The identity of a run. -/
structure RunManifest where
  codeCommit : Text
  dataHash : Text
  configHash : Text
  label : Text
  deriving DecidableEq, Repr

/-- One fill produced by a run. -/
structure RunFill where
  ts : Nanos
  symbol : Text
  side : Side
  price : PriceTicks
  qty : QtyLots
  tag : Option Text
  deriving DecidableEq, Repr

/-- A run and the identity it was produced under. -/
structure Run (F : Type) where
  manifest : RunManifest
  fills : Vec RunFill
  pnl : F

/-- Equality of runs: `PartialEq`, with that of the profit. -/
def Run.same {F : Type} [FloatText F] (r s : Run F) : Prop :=
  r.manifest = s.manifest ∧ r.fills = s.fills ∧ FloatText.eq r.pnl s.pnl = true

/-- Why a run could not be read; what was wrong with a line comes with the texts it quotes. -/
inductive ReadError where
  | noVersion
  | version (found : Text)
  | noIdentity (what : String)
  | line (line : Nat) (why : String) (quoted : List Text)
  | corrupt (declared actual : Text)
  | truncated
  deriving DecidableEq, Repr

/-- The format version this build writes and the only one it reads. -/
def version : Text := ['1']

/-! ## Writing -/

section Writing

variable {F : Type} [FloatText F]

/-- A value behind its key. -/
def keyed (key : String) (value : Text) : Text := key.toList ++ ' ' :: value

def sideName : Side → Text
  | .buy => "buy".toList
  | .sell => "sell".toList

/-- The columns of a fill. -/
def columns (f : RunFill) : List Text :=
  [Numeral.display f.ts, f.symbol, sideName f.side, Numeral.display f.price, Numeral.display f.qty,
    f.tag.getD ['-']]

/-- One row of the fill section. -/
def fillLine (f : RunFill) : Text := keyed "fill" ([' '].intercalate (columns f))

/-- The lines before the fills. -/
def headLines (r : Run F) : List Text :=
  [keyed "code-commit" r.manifest.codeCommit,
    keyed "data-sha256" r.manifest.dataHash,
    keyed "config-sha256" r.manifest.configHash,
    keyed "label" r.manifest.label,
    keyed "pnl" (FloatText.display r.pnl),
    keyed "fills" (Numeral.display (Coverage.len r.fills)),
    "# ts symbol side price qty tag".toList]

/-- Everything the digest covers. -/
def body (r : Run F) : Text := Text.unlines (headLines r ++ r.fills.val.map fillLine)

/-- Render for writing. -/
def render (r : Run F) : Text :=
  Text.unlines [keyed "openquanter-run" version,
    keyed "body-sha256" (Sha256.sha256Hex (Text.utf8 (body r)))] ++ body r

end Writing

/-! ## Reading -/

section Reading

variable {F : Type} [FloatText F]

/-- The next column, or why not. -/
def column (line : Nat) (rest : Text) (missing : String) (part : Option Text) :
    Except ReadError Text :=
  match part with
  | none => .error (.line line missing [rest])
  | some text => .ok text

/-- A column that is a number. -/
def fillNumber (line : Nat) (rest : Text) (missing wrong : String) (part : Option Text) :
    Except ReadError Int64 := do
  let text ← column line rest missing part
  match Numeral.fromStr text with
  | none => .error (.line line wrong [rest])
  | some v => .ok v

def parseSide (line : Nat) (rest : Text) (part : Option Text) : Except ReadError Side :=
  if part = some "buy".toList then .ok .buy
  else if part = some "sell".toList then .ok .sell
  else .error (.line line "side must be buy or sell" [rest])

/-- The tag of a row: a dash says that there is none, and so does the end of the row. -/
def parseTag : Option Text → Option Text
  | none => none
  | some text => if text = ['-'] then none else some text

def parseFill (rest : Text) (line : Nat) : Except ReadError RunFill := do
  let parts := rest.splitOn ' '
  let ts ← fillNumber line rest "no timestamp" "timestamp is not a number" parts[0]?
  let symbol ← column line rest "no symbol" parts[1]?
  let side ← parseSide line rest parts[2]?
  let price ← fillNumber line rest "no price" "price is not an integer number of ticks" parts[3]?
  let qty ← fillNumber line rest "no quantity" "quantity is not an integer number of lots" parts[4]?
  return ⟨ts, symbol, side, price, qty, parseTag parts[5]?⟩

/-- What has been read of a body. -/
structure Fields (F : Type) where
  codeCommit : Option Text
  dataHash : Option Text
  configHash : Option Text
  label : Text
  pnl : Option F
  declaredFills : Option UInt64
  fills : List RunFill

/-- Nothing yet. -/
def Fields.none : Fields F := ⟨Option.none, Option.none, Option.none, [], Option.none,
    Option.none, []⟩

/-- Take a key and what is behind it; a later line of a key replaces an earlier one. -/
def Fields.put (s : Fields F) (n : Nat) (line key rest : Text) : Except ReadError (Fields F) :=
  if key = "code-commit".toList then .ok { s with codeCommit := some rest }
  else if key = "data-sha256".toList then .ok { s with dataHash := some rest }
  else if key = "config-sha256".toList then .ok { s with configHash := some rest }
  else if key = "label".toList then .ok { s with label := rest }
  else if key = "pnl".toList then
    match FloatText.fromStr rest with
    | Option.none => .error (.line n "pnl is not a number" [line])
    | some pnl => .ok { s with pnl := some pnl }
  else if key = "fills".toList then
    match Numeral.fromStr rest with
    | Option.none => .error (.line n "fill count is not a number" [line])
    | some declared => .ok { s with declaredFills := some declared }
  else if key = "fill".toList then do
    let fill ← parseFill rest n
    return { s with fills := s.fills ++ [fill] }
  else .error (.line n "unknown field" [key, line])

/-- Read one line of the body, with its number in the file. -/
def Fields.read (s : Fields F) (numbered : Text × Nat) : Except ReadError (Fields F) :=
  let line := Text.trimEnd numbered.1
  if line = [] ∨ line.head? = some '#' then .ok s
  else s.put numbered.2 line (Text.splitOnce line).1 (Text.splitOnce line).2

/-- A required field. -/
def identity {α : Type} (what : String) (found : Option α) : Except ReadError α :=
  match found with
  | none => .error (.noIdentity what)
  | some v => .ok v

/-- The run of what has been read. -/
def Fields.finish (s : Fields F) : Except ReadError (Run F) :=
  match s.declaredFills with
  | Option.none => .error .truncated
  | some n =>
    if h : n.toNat = s.fills.length then do
      let codeCommit ← identity "code commit" s.codeCommit
      let dataHash ← identity "input data hash" s.dataHash
      let configHash ← identity "configuration hash" s.configHash
      let pnl ← identity "realized P&L" s.pnl
      return ⟨⟨codeCommit, dataHash, configHash, s.label⟩, ⟨s.fills, h ▸ n.toNat_lt⟩, pnl⟩
    else
      .error (.line 0 "the file declares and carries other numbers of fills"
        [Decimal.digits n.toNat, Decimal.digits s.fills.length])

/-- Read a body. -/
def parseBody (body : Text) : Except ReadError (Run F) := do
  let s ← ((Text.lines body).zipIdx 3).foldlM Fields.read Fields.none
  s.finish

/-- Read a run back. -/
def parse (text : Text) : Except ReadError (Run F) :=
  match (Text.lines text)[0]? with
  | none => .error .noVersion
  | some first =>
    match Text.stripPrefix "openquanter-run ".toList first with
    | none => .error .noVersion
    | some found =>
      if Text.trim found ≠ version then .error (.version (Text.trim found))
      else
        match (Text.lines text)[1]? with
        | none => .error .truncated
        | some second =>
          match Text.stripPrefix "body-sha256 ".toList second with
          | none => .error (.line 2 "expected body-sha256" [])
          | some declared =>
            let body := Text.afterLine (Text.afterLine text)
            let actual := Sha256.sha256Hex (Text.utf8 body)
            if actual ≠ Text.trim declared then .error (.corrupt (Text.trim declared) actual)
            else parseBody body

end Reading

end Parity
