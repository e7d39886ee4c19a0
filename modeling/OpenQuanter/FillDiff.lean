/-
# Comparing two runs (`oq-parity/src/diff.rs`, with `manifest.rs` and `record.rs`)

Two streams of fills are walked with a cursor in each.  Where the fills differ, each is looked
for a little further on in the other stream: what comes before it there was inserted, or
dropped; what is found in neither is a mismatch, reported field by field.

A difference of two numbers that is no `i64` stops the process, and there is no result.
-/
import OpenQuanter.EditScript
import OpenQuanter.RunFile

namespace Parity

/-! ## Fills -/

/-- Whether two fills are the same event: everything except the tag. -/
def RunFill.sameEvent (f g : RunFill) : Bool :=
  decide (f.ts = g.ts) && decide (f.symbol = g.symbol) && decide (f.side = g.side) &&
    decide (f.price = g.price) && decide (f.qty = g.qty)

/-- The output of one run. -/
structure RunOutput (F : Type) where
  fills : List RunFill
  pnl : F

/-! ## Run identity -/

/-- One element of a run's identity. -/
inductive IdentityElement where
  | dataHash
  | configHash
  deriving DecidableEq, Repr

/-- Whether a baseline still describes the same experiment as the run under test. -/
inductive BaselineStatus where
  | comparable
  | codeChanged
  | invalidated (changed : List IdentityElement)
  deriving DecidableEq, Repr

/-- Whether output differences may be interpreted as behavior. -/
def BaselineStatus.permitsBehavioralConclusions : BaselineStatus → Bool
  | comparable => true
  | codeChanged => true
  | invalidated _ => false

/-- Compare a manifest, taken as the baseline, against that of the run under test. -/
def RunManifest.compare (m candidate : RunManifest) : BaselineStatus :=
  let changed := (if m.dataHash ≠ candidate.dataHash then [IdentityElement.dataHash] else []) ++
    if m.configHash ≠ candidate.configHash then [IdentityElement.configHash] else []
  if changed ≠ [] then .invalidated changed
  else if m.codeCommit ≠ candidate.codeCommit then .codeChanged
  else .comparable

/-! ## Differences -/

/-- One differing field of an otherwise aligned pair of fills. -/
structure FieldDifference where
  field : String
  baseline : Text
  candidate : Text
  delta : Option Int64
  deriving DecidableEq, Repr

/-- A single difference between two runs. -/
inductive Difference where
  /-- A fill of the baseline, at its position there, that was not reproduced. -/
  | missing (index : ℕ) (fill : RunFill)
  /-- A fill of the candidate, at its position there, that was not expected. -/
  | extra (index : ℕ) (fill : RunFill)
  /-- Fills of both, with the position in both streams. -/
  | mismatch (index : ℕ) (fields : List FieldDifference) (baseline candidate : RunFill)
  deriving DecidableEq, Repr

/-- Position in the stream where the difference occurs. -/
def Difference.index : Difference → ℕ
  | missing index _ => index
  | extra index _ => index
  | mismatch index _ _ _ => index

/-- The difference of two numbers, if it is one. -/
def numberDifference (field : String) (baseline candidate : Int64) :
    Option (List FieldDifference) :=
  if baseline ≠ candidate then
    let delta := candidate.toInt - baseline.toInt
    if FitsI64 delta then
      some [⟨field, Numeral.display baseline, Numeral.display candidate, some (Int64.ofInt delta)⟩]
    else none
  else some []

/-- A difference that has no size. -/
def textDifference (field : String) (differ : Bool) (baseline candidate : Text) :
    List FieldDifference :=
  if differ then [⟨field, baseline, candidate, none⟩] else []

/-- `Side`, as `Debug` writes it. -/
def sideDebug : Side → Text
  | .buy => "Buy".toList
  | .sell => "Sell".toList

/-- Which fields differ, with both values. -/
def fieldDifferences (baseline candidate : RunFill) : Option (List FieldDifference) := do
  let ts ← numberDifference "ts" baseline.ts candidate.ts
  let symbol := textDifference "symbol" (baseline.symbol ≠ candidate.symbol) baseline.symbol
    candidate.symbol
  let side := textDifference "side" (baseline.side ≠ candidate.side) (sideDebug baseline.side)
    (sideDebug candidate.side)
  let price ← numberDifference "price" baseline.price candidate.price
  let qty ← numberDifference "qty" baseline.qty candidate.qty
  some (ts ++ symbol ++ side ++ price ++ qty)

/-! ## The walk -/

/-- How far ahead the aligner looks. -/
def resyncWindow : ℕ := 32

/-- Where a fill is found again, if not at once. -/
def findWithin (needle : RunFill) (haystack : List RunFill) (window : ℕ) : Option ℕ :=
  ((haystack.take window).findIdx? fun fill => fill.sameEvent needle).filter fun k => 0 < k

/-- What is done about the fills at the cursors, in view of the fills from there on. -/
inductive Turn where
  | same
  | inserted (offset : ℕ)
  | dropped (offset : ℕ)
  | mismatch
  deriving DecidableEq, Repr

/-- The tests of the loop, in their order. -/
def turn (x y : RunFill) (baseline candidate : List RunFill) : Turn :=
  if x.sameEvent y then .same
  else
    match findWithin x candidate resyncWindow with
    | some offset => .inserted offset
    | none =>
      match findWithin y baseline resyncWindow with
      | some offset => .dropped offset
      | none => .mismatch

/-- Fills of the candidate from a position on, one difference each. -/
def extras (j : ℕ) (fills : List RunFill) : List Difference :=
  (fills.zipIdx j).map fun (fill, index) => .extra index fill

/-- Fills of the baseline from a position on, one difference each. -/
def missings (i : ℕ) (fills : List RunFill) : List Difference :=
  (fills.zipIdx i).map fun (fill, index) => .missing index fill

theorem findWithin_some {needle : RunFill} {haystack : List RunFill} {window offset : ℕ}
    (h : findWithin needle haystack window = some offset) :
    0 < offset ∧ offset < haystack.length := by
  obtain ⟨hfind, hpos⟩ := Option.filter_eq_some_iff.mp h
  obtain ⟨hlt, -⟩ := List.findIdx?_eq_some_iff_getElem.mp hfind
  rw [List.length_take] at hlt
  exact ⟨of_decide_eq_true hpos, by omega⟩

theorem turn_same {x y : RunFill} {baseline candidate : List RunFill}
    (h : turn x y baseline candidate = .same) : x.sameEvent y = true := by
  unfold turn at h
  split at h
  · assumption
  · split at h
    · cases h
    · split at h <;> nomatch h

theorem turn_inserted {x y : RunFill} {baseline candidate : List RunFill} {offset : ℕ}
    (h : turn x y baseline candidate = .inserted offset) :
    0 < offset ∧ offset < candidate.length := by
  unfold turn at h
  split at h
  · cases h
  · split at h
    · rename_i hfind
      obtain rfl : _ = offset := Turn.inserted.inj h
      exact findWithin_some hfind
    · split at h <;> nomatch h

theorem turn_dropped {x y : RunFill} {baseline candidate : List RunFill} {offset : ℕ}
    (h : turn x y baseline candidate = .dropped offset) :
    0 < offset ∧ offset < baseline.length := by
  unfold turn at h
  split at h
  · cases h
  · split at h
    · cases h
    · split at h
      · rename_i hfind
        obtain rfl : _ = offset := Turn.dropped.inj h
        exact findWithin_some hfind
      · cases h

/-- Walk both streams from two cursors, behind the differences found so far. -/
def alignFrom (baseline candidate : List RunFill) (i j : ℕ) (differences : List Difference) :
    Option (List Difference) :=
  if h : i < baseline.length ∧ j < candidate.length then
    match hturn : turn baseline[i] candidate[j] (baseline.drop i) (candidate.drop j) with
    | .same => alignFrom baseline candidate (i + 1) (j + 1) differences
    | .inserted offset =>
      alignFrom baseline candidate i (j + offset)
        (differences ++ extras j ((candidate.drop j).take offset))
    | .dropped offset =>
      alignFrom baseline candidate (i + offset) j
        (differences ++ missings i ((baseline.drop i).take offset))
    | .mismatch => do
      let fields ← fieldDifferences baseline[i] candidate[j]
      alignFrom baseline candidate (i + 1) (j + 1)
        (differences ++ [.mismatch i fields baseline[i] candidate[j]])
  else some (differences ++ missings i (baseline.drop i) ++ extras j (candidate.drop j))
termination_by (baseline.length - i) + (candidate.length - j)
decreasing_by
  · omega
  · have hfound := turn_inserted hturn
    rw [List.length_drop] at hfound
    omega
  · have hfound := turn_dropped hturn
    rw [List.length_drop] at hfound
    omega
  · omega

/-- Walk both streams, resynchronizing after insertions and deletions. -/
def align (baseline candidate : List RunFill) : Option (List Difference) :=
  alignFrom baseline candidate 0 0 []

/-! ## The report -/

/-- The arithmetic of an `f64`. -/
class PnlArith (F : Type) where
  isZero : F → Bool
  sub : F → F → F
  div : F → F → F
  abs : F → F

/-- The result of comparing two runs. -/
structure ParityReport (F : Type) where
  baselineStatus : BaselineStatus
  differences : List Difference
  firstDivergence : Option ℕ
  matchedPrefix : ℕ
  fillCounts : ℕ × ℕ
  pnl : F × F
  pnlRelativeError : Option F

/-- Compare a candidate run against a baseline run. -/
def compare {F : Type} [PnlArith F] (baselineManifest : RunManifest) (baseline : RunOutput F)
    (candidateManifest : RunManifest) (candidate : RunOutput F) : Option (ParityReport F) :=
  let baselineStatus := baselineManifest.compare candidateManifest
  let pnlRelativeError :=
    if PnlArith.isZero baseline.pnl then none
    else some (PnlArith.abs
      (PnlArith.div (PnlArith.sub candidate.pnl baseline.pnl) baseline.pnl))
  let fillCounts := (baseline.fills.length, candidate.fills.length)
  let pnl := (baseline.pnl, candidate.pnl)
  if !baselineStatus.permitsBehavioralConclusions then
    some ⟨baselineStatus, [], none, 0, fillCounts, pnl, pnlRelativeError⟩
  else do
    let differences ← align baseline.fills candidate.fills
    let firstDivergence := differences.head?.map Difference.index
    let matchedPrefix :=
      firstDivergence.getD (min baseline.fills.length candidate.fills.length)
    some ⟨baselineStatus, differences, firstDivergence, matchedPrefix, fillCounts, pnl,
      pnlRelativeError⟩

end Parity
