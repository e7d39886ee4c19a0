/-
# Evidence of closed windows (`oq-live/src/ledger_coverage.rs`)

A producer certifies all fee rows and all funding rows of an account and a symbol between
two times, as it saw them.  The evidence binds both windows to one journal.
-/
import OpenQuanter.ClientIds
import OpenQuanter.Ledger

/-! ## Evidence -/

/-- A vector: its length is a `usize`. -/
abbrev Vec (T : Type) := { as : List T // as.length < 2 ^ 64 }

/-- Why a producer cannot certify the whole closed interval. -/
inductive Completeness
  | complete
  | incomplete (reason : String)
  deriving DecidableEq, Repr

/-- Original rows with the interval and the scope the source certifies. -/
structure HistoryWindow (T : Type) where
  accountScopeHash : String
  symbol : String
  sinceMs : Int64
  throughMs : Int64
  observedMs : Int64
  completeness : Completeness
  rows : Vec T
  deriving DecidableEq, Repr

/-- What one execution was charged. -/
structure ExecutionFee where
  tradeId : TradeId
  side : Side
  timeMs : Int64
  amount : Cash
  deriving DecidableEq, Repr

/-- Evidence attached to one journal. -/
structure CoverageEvidence where
  journalDataHash : String
  accountScopeHash : String
  sinceMs : Int64
  throughMs : Int64
  evaluatedMs : Int64
  maxAgeMs : Int64
  fees : HistoryWindow ExecutionFee
  funding : HistoryWindow FundingLine
  deriving DecidableEq, Repr

namespace Coverage

/-- A SHA-256 in hexadecimal. -/
def hashValid (text : String) : Bool :=
  text.utf8ByteSize = 64 && text.toList.all IdRules.isHexDigit

/-- A source is of the account and the symbol, covers the window and is not stale. -/
def window {T : Type} (evidence : CoverageEvidence) (source : HistoryWindow T) (symbol : String) :
    Except String Unit :=
  if source.accountScopeHash ≠ evidence.accountScopeHash ∨ source.symbol ≠ symbol then
    .error "history account/symbol scope differs from the evidence attachment"
  else if evidence.sinceMs < source.sinceMs ∨ source.throughMs < evidence.throughMs ∨
      source.throughMs < source.sinceMs ∨ source.sinceMs < 0 ∨
      source.observedMs < source.throughMs ∨ evidence.evaluatedMs < source.observedMs ∨
      evidence.maxAgeMs.toInt < evidence.evaluatedMs.toInt - source.observedMs.toInt then
    .error "history interval is incomplete, future or stale"
  else match source.completeness with
    | .incomplete reason =>
      .error ("history producer did not establish completeness: " ++ reason)
    | .complete => .ok ()

/-- **What is certified** of a source: whose it is, and that it is complete. -/
theorem of_window {T : Type} {evidence : CoverageEvidence} {source : HistoryWindow T}
    {symbol : String} (h : window evidence source symbol = .ok ()) :
    source.accountScopeHash = evidence.accountScopeHash ∧ source.symbol = symbol ∧
      source.completeness = .complete := by
  unfold window at h
  split at h
  · cases h
  rename_i hscope
  split at h
  · cases h
  split at h
  · cases h
  · rename_i hcomplete
    push Not at hscope
    exact ⟨hscope.1, hscope.2, hcomplete⟩

end Coverage
