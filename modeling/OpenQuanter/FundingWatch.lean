/-
# Funding as the venue charged it (`oq-live/src/funding.rs`)

The watch holds the next settlement the venue announced.  When the clock passes it, it
becomes pending; the venue's rate and ledger lines come later and settle it.  Where no
next settlement is known a gap is open, and lines that fall in a gap are recovered as
cash alone.  A line is used once, whichever way it is used.

What each operation can do is said once (`onTime_cases`, `rediscoverSchedule_cases`,
`Answers`, `recoverUnknown_cases`).  Differences of times are of integers: where they
leave an `i64` the source stops.
-/
import OpenQuanter.Ledger
import OpenQuanter.OrderIds
import OpenQuanter.SortedAssoc

/-! ## The charge of a leg -/

namespace FundingWatch

/-- An unanswered settlement becomes overdue after this long. -/
def overdueMs : Int := 30 * 60000

/-- How far apart a ledger line's time and its settlement's may be. -/
def sameSettlementMs : Int := 60000

/-- `parse::<i128>` of digits. -/
def parseWide (text : List Char) : Option Int :=
  match Decimal.parse text with
  | some n => if n < 2 ^ 127 then some n else none
  | none => none

/-- A decimal as an integer and its number of places. -/
def decimal (text : String) : Option (Int × Nat) := do
  let t := OrderIds.trim text.toList
  let whole := t.takeWhile (· ≠ '.')
  let frac := (t.dropWhile (· ≠ '.')).drop 1
  if frac.any (!·.isDigit) then none
  else
    let digits ← parseWide (whole.dropWhile (fun c => c = '-' || c = '+') ++ frac)
    if frac.length < 2 ^ 32 then
      some (if whole.head? = some '-' then -digits else digits, frac.length)
    else none

/-- What one leg is charged at one settlement, truncated toward zero at eight places. -/
def charge (i : Instrument) (lots : QtyLots) (rate mark : String) : Option Cash :=
  if i.contractSize.toInt ≠ contractScale then none
  else do
    let (rateM, rateS) ← decimal rate
    let (markM, markS) ← decimal mark
    let sized ← Instrument.checkedWide (lots.toInt * markM)
    let rated ← Instrument.checkedWide (sized * rateM)
    let scaled ← Instrument.checkedWide (rated * 100000000)
    let numerator ← Instrument.checkedWide (-scaled)
    let denominator ← Instrument.checkedWide (10 ^ (i.qtyScale.toNat + markS + rateS))
    let v := numerator.tdiv denominator
    if FitsI64 v then some (Int64.ofInt v) else none

/-- Both legs, long then short. -/
abbrev Legs := QtyLots × QtyLots

/-- One leg more, if it is held. -/
def addCharge (i : Instrument) (rate mark : String) (total : Cash) (lots : QtyLots) :
    Option Cash :=
  if lots = 0 then some total else (charge i lots rate mark).map (Cash.add total)

def chargeLegs (i : Instrument) (legs : Legs) (rate mark : String) : Option Cash :=
  [legs.1, legs.2].foldlM (addCharge i rate mark) 0

/-- A testnet line: a short of eight lots that received. -/
example : charge ⟨1, 3, 100_000_000⟩ (-8) "0.00008995" "84374.02268116" = some 6_071_554 := by
  decide +kernel

/-- A rate and a mark the venue settled at. -/
structure SettledRate where
  timeMs : Int64
  rate : String
  mark : String
  deriving DecidableEq, Repr

/-- A settlement the run crossed, waiting for the venue's figures. -/
structure Pending where
  atMs : Int64
  live : Legs
  model : Legs
  overdue : Bool
  deriving DecidableEq, Repr

/-- One settlement, resolved: what to book on each side. -/
structure Settled where
  atMs : Int64
  rate : String
  mark : String
  venue : Cash
  model : Cash
  verified : Bool
  lines : List FundingLine
  deriving DecidableEq, Repr

/-- Confirmed cash of an interval no schedule was known for. -/
structure Recovered where
  sinceMs : Int64
  throughMs : Int64
  lines : List FundingLine
  deriving DecidableEq, Repr

/-- Whether a time is of the settlement at another. -/
def SameSettlement (timeMs atMs : Int64) : Prop :=
  |timeMs.toInt - atMs.toInt| ≤ sameSettlementMs

instance (timeMs atMs : Int64) : Decidable (SameSettlement timeMs atMs) :=
  inferInstanceAs (Decidable (_ ≤ _))

end FundingWatch

/-! ## The watch -/

/-- Settlements crossed, and what has been learnt about them. -/
structure FundingWatch where
  instrument : Instrument
  nextMs : Option Int64
  pending : List FundingWatch.Pending
  venueTotal : Cash
  modelTotal : Cash
  problem : Option String
  settled : Nat
  /-- Time and amount of every line used, by its id. -/
  bookedLines : List (Int64 × Int64 × Cash)
  scheduleGaps : List ScheduleGap
  deriving DecidableEq, Repr

namespace FundingWatch

/-- Start watching, from the venue's answer to "when is the next settlement". -/
def new (instrument : Instrument) (next : Except String (Option Int64)) : FundingWatch where
  instrument := instrument
  nextMs := match next with
    | .ok t => t
    | .error _ => none
  pending := []
  venueTotal := 0
  modelTotal := 0
  problem :=
    let problem := match next with
      | .ok (some _) => none
      | .ok none => some "this venue's adapter does not report funding settlements"
      | .error e => some ("the next funding settlement could not be read: " ++ e)
    problem.or (if instrument.contractSize.toInt ≠ contractScale then
      some "funding is computed for linear contracts only" else none)
  settled := 0
  bookedLines := []
  scheduleGaps := []

variable (w : FundingWatch)

/-- Open a gap, unless one is open. -/
def beginScheduleGap (sinceMs : Int64) : FundingWatch :=
  if w.scheduleGaps.getLast?.all (·.untilMs.isSome) then
    { w with scheduleGaps := w.scheduleGaps ++ [⟨sinceMs, none⟩] }
  else w

/-- The clock moved.  If it passed a settlement, that becomes pending with what both
books held, and `next` is the answer to when the next one is. -/
def onTime (nowMs : Int64) (live model : Legs) (next : Option Int64) : FundingWatch :=
  match w.nextMs with
  | none => w.beginScheduleGap nowMs
  | some t =>
    if nowMs < t then w
    else
      let w := { w with
        pending := w.pending ++ [(⟨t, live, model, false⟩ : Pending)]
        nextMs := next.filter (t < ·) }
      if w.nextMs.isNone then
        let w := w.beginScheduleGap t
        { w with
          problem := w.problem.or
            (some ("the settlement after " ++ toString t.toInt ++ " could not be read")) }
      else w

/-- Close the gap that is open last. -/
def closeScheduleGap (nowMs : Int64) : List ScheduleGap → List ScheduleGap
  | [] => []
  | [gap] => [{ gap with untilMs := some nowMs }]
  | gap :: gaps => gap :: closeScheduleGap nowMs gaps

/-- The answer to a host's schedule request; a stale one is not installed. -/
def rediscoverSchedule (nowMs : Int64) (next : Except String (Option Int64)) : FundingWatch :=
  if w.nextMs.isSome then w
  else
    let w := w.beginScheduleGap nowMs
    match next.toOption.join.filter (nowMs < ·) with
    | none => w
    | some nextMs =>
      { w with
        nextMs := some nextMs
        scheduleGaps := closeScheduleGap nowMs w.scheduleGaps }

def obligations : FundingObligations :=
  ⟨w.pending.map (·.atMs), w.scheduleGaps, w.problem⟩

/-! ### Evidence -/

/-- A line was used, and as what it is now. -/
def agrees (booked : List (Int64 × Int64 × Cash)) (line : FundingLine) : Bool :=
  (booked.lookup line.id).all (· = (line.timeMs, line.amount))

/-- Whether a line was used. -/
def contains (booked : List (Int64 × Int64 × Cash)) (line : FundingLine) : Bool :=
  (booked.lookup line.id).isSome

/-- The rows of a ledger by their ids, unless one contradicts what was used of it or
another row. -/
def gather (changed conflicting : Int64 → String) (booked : List (Int64 × Int64 × Cash))
    (unique : List (Int × FundingLine)) (line : FundingLine) :
    Except String (List (Int × FundingLine)) :=
  if !agrees booked line then .error (changed line.id)
  else if (SortedAssoc.find line.id.toInt unique).any (· ≠ line) then .error (conflicting line.id)
  else .ok (SortedAssoc.upsert line.id.toInt (fun _ => line) line unique)

/-- The text of a problem about a ledger row. -/
def identity (kind what : String) (id : Int64) : String :=
  "funding " ++ kind ++ " identity " ++ toString id.toInt ++ " " ++ what

def uniqueLines (changed conflicting : Int64 → String) (lines : List FundingLine) :
    Except String (List FundingLine) :=
  (lines.foldlM (gather changed conflicting w.bookedLines) []).map (·.map Prod.snd)

/-- Use some lines. -/
def book (lines : List FundingLine) : FundingWatch :=
  { w with
    bookedLines := lines.foldl (fun booked l => (l.id, l.timeMs, l.amount) :: booked)
      w.bookedLines }

/-- A line of an interval no schedule was known for, and not of a pending settlement. -/
def unknownLine (nowMs : Int64) (line : FundingLine) : Bool :=
  !contains w.bookedLines line && line.timeMs ≤ nowMs &&
    w.scheduleGaps.any (fun gap =>
      gap.sinceMs ≤ line.timeMs && line.timeMs ≤ gap.untilMs.getD nowMs) &&
    !w.pending.any (fun p => SameSettlement line.timeMs p.atMs)

/-- Book lines that were not seen before and fall in a gap. -/
def recoverUnknown (lines : List FundingLine) (nowMs : Int64) :
    FundingWatch × Option Recovered :=
  match (w.scheduleGaps.map (·.sinceMs)).min? with
  | none => (w, none)
  | some sinceMs =>
    match w.uniqueLines (identity "recovery" "has conflicting evidence")
        (identity "recovery" "has conflicting evidence") lines with
    | .error why => ({ w with problem := some why }, none)
    | .ok unique =>
      let recovered := (unique.filter (w.unknownLine nowMs)).mergeSort fun a b =>
        a.timeMs < b.timeMs || (a.timeMs = b.timeMs && a.id ≤ b.id)
      if recovered.isEmpty then (w, none)
      else (w.book recovered, some ⟨sinceMs, nowMs, recovered⟩)

/-! ### Resolving -/

/-- A settlement after one more wait. -/
def Pending.kept (p : Pending) (nowMs : Int64) : Pending :=
  { p with overdue := p.overdue || overdueMs < (satSub nowMs p.atMs).toInt }

/-- A settlement that goes on waiting. -/
def keepPending (p : Pending) (nowMs : Int64) : FundingWatch :=
  { w with pending := w.pending ++ [p.kept nowMs] }

/-- What a settlement was charged, by its lines. -/
def charged (lines : List FundingLine) : Cash := lines.foldl (fun a l => Cash.add a l.amount) 0

/-- One settlement, with the figures there are. -/
def resolveOne (rates : List SettledRate) (unique : List FundingLine) (nowMs : Int64)
    (w : FundingWatch) (p : Pending) : FundingWatch × Option Settled :=
  let rate := rates.find? fun r => SameSettlement r.timeMs p.atMs
  let booked := unique.filter fun l => SameSettlement l.timeMs p.atMs
  if booked.any (contains w.bookedLines) then
    ({ w with
        problem := some ("the settlement at " ++ toString p.atMs.toInt ++
          " overlaps an already booked ledger identity") }.keepPending p nowMs, none)
  else
    match rate with
    | none => (w.keepPending p nowMs, none)
    | some rate =>
      match chargeLegs w.instrument p.live rate.rate rate.mark,
        chargeLegs w.instrument p.model rate.rate rate.mark with
      | some expected, some model =>
        -- a position that was charged has a line
        if booked.isEmpty ∧ expected ≠ 0 then (w.keepPending p nowMs, none)
        else
          let venue := charged booked
          let verified := decide (venue = expected)
          ({ w.book booked with
              problem := if verified then w.problem else
                w.problem.or (some ("the settlement at " ++ toString p.atMs.toInt ++
                  " was charged " ++ toString venue.toInt ++ " where the live positions compute " ++
                  toString expected.toInt ++
                  ": the model's funding cannot be trusted for this run"))
              venueTotal := Cash.add w.venueTotal venue
              modelTotal := Cash.add w.modelTotal model
              settled := w.settled + 1 },
            some ⟨p.atMs, rate.rate, rate.mark, venue, model, verified, booked⟩)
      | _, _ =>
        ({ w with
            problem := some ("the settlement at " ++ toString p.atMs.toInt ++
              " did not compute") }.keepPending p nowMs, none)

/-- The pending settlements one after the other. -/
def resolveAll (rates : List SettledRate) (unique : List FundingLine) (nowMs : Int64) :
    FundingWatch → List Pending → FundingWatch × List Settled
  | w, [] => (w, [])
  | w, p :: rest =>
    let (w, settled) := resolveOne rates unique nowMs w p
    let (w, out) := resolveAll rates unique nowMs w rest
    (w, settled.toList ++ out)

/-- Resolve what the venue's figures answer. -/
def resolve (rates : List SettledRate) (lines : List FundingLine) (nowMs : Int64) :
    FundingWatch × List Settled :=
  match w.uniqueLines (identity "ledger" "changed after booking")
      (identity "ledger" "has conflicting evidence") lines with
  | .error why => ({ w with problem := some why }, [])
  | .ok unique => resolveAll rates unique nowMs { w with pending := [] } w.pending

/-- Funding as attribution takes it, or why not. -/
def evidence : Except String (Cash × Cash) :=
  match w.problem with
  | some why => .error why
  | none =>
    match w.pending.head? with
    | some p =>
      .error ("the settlement at " ++ toString p.atMs.toInt ++ " is " ++
        (if p.overdue then "overdue after 30 minutes and still " else "") ++
        "waiting for the venue to publish its rate and ledger")
    | none => .ok (w.venueTotal, w.modelTotal)

/-! ## What an operation can do -/

/-! ### Time and schedule -/

section Schedule

variable {w}

/-- Opening a gap leaves everything else alone. -/
theorem beginScheduleGap_eq (sinceMs : Int64) :
    w.beginScheduleGap sinceMs =
      { w with scheduleGaps := (w.beginScheduleGap sinceMs).scheduleGaps } := by
  unfold beginScheduleGap
  split <;> rfl

/-- **What the clock can do**: with no schedule, open a gap; short of the settlement,
nothing; past it, make it pending, and know the next one or open a gap. -/
theorem onTime_cases (nowMs : Int64) (live model : Legs) (next : Option Int64) :
    (w.nextMs = none ∧ w.onTime nowMs live model next = w.beginScheduleGap nowMs) ∨
    (∃ t, w.nextMs = some t ∧ nowMs < t ∧ w.onTime nowMs live model next = w) ∨
    ∃ t, w.nextMs = some t ∧ t ≤ nowMs ∧
      ((∃ n, next = some n ∧ t < n ∧ w.onTime nowMs live model next =
          { w with pending := w.pending ++ [⟨t, live, model, false⟩], nextMs := some n }) ∨
        ∃ why, w.onTime nowMs live model next =
          { w with
            pending := w.pending ++ [⟨t, live, model, false⟩]
            nextMs := none
            problem := some why
            scheduleGaps := (w.beginScheduleGap t).scheduleGaps }) := by
  unfold onTime
  cases hnext : w.nextMs with
  | none => exact .inl ⟨rfl, rfl⟩
  | some t =>
    by_cases hshort : nowMs < t
    · exact .inr (.inl ⟨t, rfl, hshort, if_pos hshort⟩)
    · refine .inr (.inr ⟨t, rfl, Int64.not_lt.mp hshort, ?_⟩)
      simp only [if_neg hshort]
      cases hfilter : next.filter (t < ·) with
      | some n =>
        obtain ⟨rfl, hlt⟩ := Option.filter_eq_some_iff.mp hfilter
        exact .inl ⟨n, rfl, by simpa using hlt, rfl⟩
      | none =>
        refine .inr ⟨w.problem.getD ("the settlement after " ++ toString t.toInt ++
          " could not be read"), ?_⟩
        simp only [Option.isNone_none, if_true, Option.or_some]
        unfold beginScheduleGap
        split <;> rfl

/-- **What a schedule request can do**: nothing while a schedule is known; open a gap
where none is open, and close the last one where the answer is still to come. -/
theorem rediscoverSchedule_cases (nowMs : Int64) (next : Except String (Option Int64)) :
    (w.nextMs.isSome = true ∧ w.rediscoverSchedule nowMs next = w) ∨
    w.nextMs = none ∧
      (w.rediscoverSchedule nowMs next = w.beginScheduleGap nowMs ∨
        ∃ n, next = .ok (some n) ∧ nowMs < n ∧ w.rediscoverSchedule nowMs next =
          { w with
            nextMs := some n
            scheduleGaps :=
              closeScheduleGap nowMs (w.beginScheduleGap nowMs).scheduleGaps }) := by
  unfold rediscoverSchedule
  cases hknown : w.nextMs with
  | some t => exact .inl ⟨rfl, rfl⟩
  | none =>
    refine .inr ⟨rfl, ?_⟩
    simp only [Option.isSome_none, Bool.false_eq_true, if_false]
    cases hfilter : next.toOption.join.filter (nowMs < ·) with
    | none => exact .inl rfl
    | some n =>
      obtain ⟨hjoin, hlt⟩ := Option.filter_eq_some_iff.mp hfilter
      refine .inr ⟨n, ?_, by simpa using hlt, ?_⟩
      · rcases next with e | (- | n')
        · cases hjoin
        · cases hjoin
        · rw [Option.some.inj hjoin]
      · conv_lhs => rw [beginScheduleGap_eq]

/-! #### Gaps -/

/-- Every gap is still there, and a closed one is as it was closed. -/
def GapsKept (earlier later : List ScheduleGap) : Prop :=
  ∀ (i : Nat) (gap : ScheduleGap), earlier[i]? = some gap →
    ∃ gap', later[i]? = some gap' ∧ gap'.sinceMs = gap.sinceMs ∧
      (gap.untilMs.isSome = true → gap' = gap)

theorem GapsKept.refl (gaps : List ScheduleGap) : GapsKept gaps gaps :=
  fun _ gap hgap => ⟨gap, hgap, rfl, fun _ => rfl⟩

theorem GapsKept.trans {a b c : List ScheduleGap} (h : GapsKept a b) (h' : GapsKept b c) :
    GapsKept a c := by
  intro i gap hgap
  obtain ⟨gap', hgap', hsince, hclosed⟩ := h i gap hgap
  obtain ⟨gap'', hgap'', hsince', hclosed'⟩ := h' i gap' hgap'
  refine ⟨gap'', hgap'', hsince'.trans hsince, fun hsome => ?_⟩
  obtain rfl := hclosed hsome
  exact hclosed' hsome

theorem gapsKept_append (gaps more : List ScheduleGap) : GapsKept gaps (gaps ++ more) := by
  intro i gap hgap
  refine ⟨gap, ?_, rfl, fun _ => rfl⟩
  rw [List.getElem?_append_left (List.getElem?_eq_some_iff.mp hgap).1]
  exact hgap

/-- Closing the last gap, while it is open. -/
theorem gapsKept_close (nowMs : Int64) {gaps : List ScheduleGap}
    (hopen : ∀ gap, gaps.getLast? = some gap → gap.untilMs = none) :
    GapsKept gaps (closeScheduleGap nowMs gaps) := by
  induction gaps using closeScheduleGap.induct with
  | case1 => exact GapsKept.refl _
  | case2 last =>
    intro i gap hgap
    cases i with
    | zero =>
      obtain rfl := Option.some.inj hgap
      refine ⟨{ last with untilMs := some nowMs }, rfl, rfl, fun hclosed => ?_⟩
      rw [hopen last rfl] at hclosed
      cases hclosed
    | succ i => cases hgap
  | case3 first gaps hmore ih =>
    have hlast : (first :: gaps).getLast? = gaps.getLast? := by
      cases gaps with
      | nil => exact absurd rfl hmore
      | cons second rest => rw [List.getLast?_cons_cons]
    rw [hlast] at hopen
    rw [closeScheduleGap]
    · intro i gap hgap
      cases i with
      | zero => exact ⟨gap, hgap, rfl, fun _ => rfl⟩
      | succ i => exact ih hopen i gap hgap
    · exact hmore

theorem gapsKept_begin (sinceMs : Int64) :
    GapsKept w.scheduleGaps (w.beginScheduleGap sinceMs).scheduleGaps := by
  unfold beginScheduleGap
  split
  · exact gapsKept_append _ _
  · exact GapsKept.refl _

/-- Behind it a gap is open. -/
theorem getLast?_begin (sinceMs : Int64) (gap : ScheduleGap)
    (hgap : (w.beginScheduleGap sinceMs).scheduleGaps.getLast? = some gap) :
    gap.untilMs = none := by
  unfold beginScheduleGap at hgap
  split at hgap
  · rw [List.getLast?_concat] at hgap
    rw [← Option.some.inj hgap]
  · rename_i hopen
    rw [hgap] at hopen
    simpa using hopen

end Schedule

/-! ### Rows -/

/-- The rows of a ledger, each once, none of them what was used of it differently. -/
structure Rows (booked : List (Int64 × Int64 × Cash)) (lines unique : List FundingLine) : Prop where
  sorted : unique.Pairwise fun a b => a.id.toInt < b.id.toInt
  mem : ∀ l, l ∈ unique ↔ l ∈ lines
  agrees : ∀ l ∈ lines, agrees booked l = true

theorem Rows.nodup {booked : List (Int64 × Int64 × Cash)} {lines unique : List FundingLine}
    (h : Rows booked lines unique) : (unique.map (·.id)).Nodup :=
  List.pairwise_map.mpr (h.sorted.imp fun hlt heq => absurd hlt (by rw [heq]; exact lt_irrefl _))

/-- What gathering keeps of the rows it read. -/
structure Gathered (booked : List (Int64 × Int64 × Cash)) (done : List FundingLine)
    (unique : List (Int × FundingLine)) : Prop where
  sorted : unique.Pairwise fun a b => a.1 < b.1
  key : ∀ e ∈ unique, e.1 = e.2.id.toInt
  mem : ∀ l : FundingLine, (l.id.toInt, l) ∈ unique ↔ l ∈ done
  agrees : ∀ l ∈ done, FundingWatch.agrees booked l = true

variable {w} {changed conflicting : Int64 → String}

/-- Step: one row more. -/
theorem Gathered.row {booked : List (Int64 × Int64 × Cash)} {done : List FundingLine}
    {unique unique' : List (Int × FundingLine)} (h : Gathered booked done unique)
    {line : FundingLine}
    (hrow : gather changed conflicting booked unique line = .ok unique') :
    Gathered booked (done ++ [line]) unique' := by
  unfold gather at hrow
  split at hrow
  · cases hrow
  rename_i hagrees
  split at hrow
  · cases hrow
  rename_i hsame
  obtain rfl := Except.ok.inj hrow
  have hfound : ∀ v, SortedAssoc.find line.id.toInt unique = some v → v = line := by
    intro v hv
    rw [hv] at hsame
    simpa using hsame
  have hmem := fun e => SortedAssoc.mem_upsert_iff hfound h.sorted (e := e)
  refine ⟨SortedAssoc.pairwise_upsert _ _ _ h.sorted, fun e he => ?_, fun l => ?_, fun l hl => ?_⟩
  · rcases (hmem e).mp he with rfl | he
    · rfl
    · exact h.key e he
  · rw [hmem, h.mem, List.mem_append, List.mem_singleton, Prod.mk.injEq]
    constructor
    · rintro (⟨-, rfl⟩ | hl)
      · exact .inr rfl
      · exact .inl hl
    · rintro (hl | rfl)
      · exact .inr hl
      · exact .inl ⟨rfl, rfl⟩
  · rcases List.mem_append.mp hl with hl | hl
    · exact h.agrees l hl
    · rw [List.mem_singleton.mp hl]
      simpa using hagrees

/-- **Rows that were taken** are of one mind, among themselves and with what was used. -/
theorem rows_of_uniqueLines {lines unique : List FundingLine}
    (h : w.uniqueLines changed conflicting lines = .ok unique) :
    Rows w.bookedLines lines unique := by
  unfold uniqueLines at h
  cases hfold : lines.foldlM (gather changed conflicting w.bookedLines) [] with
  | error why => rw [hfold] at h; exact nomatch h
  | ok entries =>
    rw [hfold] at h
    obtain rfl := Except.ok.inj h
    have hall : Gathered w.bookedLines lines entries :=
      Except.foldlM_history (I := Gathered w.bookedLines)
        (fun _ _ _ _ _ _ hdone hstep => hdone.row hstep)
        ⟨List.Pairwise.nil, fun _ he => absurd he List.not_mem_nil, by simp, by simp⟩ hfold
    refine ⟨List.pairwise_map.mpr (hall.sorted.imp_of_mem fun ha hb hlt => ?_), fun l => ?_,
      hall.agrees⟩
    · rwa [← hall.key _ ha, ← hall.key _ hb]
    · rw [← hall.mem, List.mem_map]
      constructor
      · rintro ⟨e, he, rfl⟩
        rwa [← hall.key e he]
      · exact fun hl => ⟨_, hl, rfl⟩

/-- A row that is not what was used of it is refused, and what it came with. -/
theorem uniqueLines_conflict (changed conflicting : Int64 → String) {lines : List FundingLine}
    {line : FundingLine} (hl : line ∈ lines)
    (hdiffers : agrees w.bookedLines line = false) :
    ∃ why, w.uniqueLines changed conflicting lines = .error why := by
  cases hrows : w.uniqueLines changed conflicting lines with
  | error why => exact ⟨why, rfl⟩
  | ok unique =>
    have hagrees := (rows_of_uniqueLines hrows).agrees line hl
    rw [hdiffers] at hagrees
    cases hagrees

/-! ### Using rows -/

section Booking

variable (w)

/-- **What is known of a row afterwards**: what was used of it last. -/
theorem lookup_book {lines : List FundingLine} (hnodup : (lines.map (·.id)).Nodup) (id : Int64) :
    (w.book lines).bookedLines.lookup id =
      ((lines.find? (·.id = id)).map fun l => (l.timeMs, l.amount)).or
      (w.bookedLines.lookup id) := by
  unfold book
  induction lines generalizing w with
  | nil => rfl
  | cons l lines ih =>
    obtain ⟨hnew, hrest⟩ := List.nodup_cons.mp hnodup
    have hfold := ih { w with bookedLines := (l.id, l.timeMs, l.amount) :: w.bookedLines } hrest
    simp only [List.foldl_cons] at hfold ⊢
    rw [hfold, List.lookup_cons, List.find?_cons]
    by_cases hid : l.id = id
    · have hnone : lines.find? (·.id = id) = none := by
        rw [List.find?_eq_none]
        intro l' hl' heq
        exact hnew (List.mem_map.mpr ⟨l', hl', (of_decide_eq_true heq).trans hid.symm⟩)
      simp [hid, hnone]
    · have hne : (id == l.id) = false := by simpa using fun heq => hid heq.symm
      simp [hid, hne]

theorem contains_book {lines : List FundingLine} (hnodup : (lines.map (·.id)).Nodup)
    (line : FundingLine) :
    contains (w.book lines).bookedLines line = true ↔
      line.id ∈ lines.map (·.id) ∨ contains w.bookedLines line = true := by
  unfold contains
  rw [lookup_book w hnodup, Option.isSome_or, Bool.or_eq_true, Option.isSome_map, List.find?_isSome,
    List.mem_map]
  exact or_congr (exists_congr fun l => and_congr_right fun _ => decide_eq_true_iff) Iff.rfl

end Booking

/-! ### Settling -/

/-- What the figures leave alone; a problem that was reported stays reported. -/
structure Same (w w' : FundingWatch) : Prop where
  instrument : w'.instrument = w.instrument
  nextMs : w'.nextMs = w.nextMs
  scheduleGaps : w'.scheduleGaps = w.scheduleGaps
  problem : w.problem.isSome = true → w'.problem.isSome = true

theorem Same.refl (w : FundingWatch) : Same w w := ⟨rfl, rfl, rfl, id⟩

theorem Same.trans {w w' w'' : FundingWatch} (h : Same w w') (h' : Same w' w'') : Same w w'' :=
  ⟨h'.instrument.trans h.instrument, h'.nextMs.trans h.nextMs,
    h'.scheduleGaps.trans h.scheduleGaps, fun hsome => h'.problem (h.problem hsome)⟩

/-- A settlement goes on waiting. -/
structure Waits (nowMs : Int64) (w : FundingWatch) (p : Pending) (w' : FundingWatch) : Prop
    extends Same w w' where
  pending : w'.pending = w.pending ++ [p.kept nowMs]
  bookedLines : w'.bookedLines = w.bookedLines

/-- A settlement is settled, with rows of its own that were not used before. -/
structure Settles (rates : List SettledRate) (unique : List FundingLine) (w : FundingWatch)
    (p : Pending) (w' : FundingWatch) (s : Settled) : Prop extends Same w w' where
  pending : w'.pending = w.pending
  atMs : s.atMs = p.atMs
  lines : s.lines = unique.filter fun l => SameSettlement l.timeMs p.atMs
  fresh : ∀ l ∈ s.lines, contains w.bookedLines l = false
  bookedLines : w'.bookedLines = (w.book s.lines).bookedLines
  venue : s.venue = charged s.lines
  rate : ∃ rate expected, rates.find? (fun r => SameSettlement r.timeMs p.atMs) = some rate ∧
    chargeLegs w.instrument p.live rate.rate rate.mark = some expected ∧
    (s.lines = [] → expected = 0)

/-- **What the figures can do to one settlement.** -/
theorem resolveOne_cases (rates : List SettledRate) (unique : List FundingLine) (nowMs : Int64)
    (w : FundingWatch) (p : Pending) :
    (∃ w', resolveOne rates unique nowMs w p = (w', none) ∧ Waits nowMs w p w') ∨
    ∃ w' s, resolveOne rates unique nowMs w p = (w', some s) ∧ Settles rates unique w p w' s := by
  unfold resolveOne
  generalize hbooked : unique.filter (fun l => SameSettlement l.timeMs p.atMs) = booked
  simp only
  split
  · exact .inl ⟨_, rfl, ⟨rfl, rfl, rfl, fun _ => rfl⟩, rfl, rfl⟩
  rename_i hnew
  have hfresh : ∀ l ∈ booked, contains w.bookedLines l = false := by
    simpa using hnew
  split
  · exact .inl ⟨_, rfl, ⟨rfl, rfl, rfl, id⟩, rfl, rfl⟩
  rename_i rate hrate
  split
  · rename_i expected model hexpected hmodel
    split
    · exact .inl ⟨_, rfl, ⟨rfl, rfl, rfl, id⟩, rfl, rfl⟩
    · rename_i hline
      refine .inr ⟨_, _, rfl, ⟨rfl, rfl, rfl, fun hproblem => ?_⟩, rfl, rfl, hbooked.symm, hfresh,
        rfl, rfl, rate, expected, hrate, hexpected, fun hnone => ?_⟩
      · show (ite _ _ _ : Option String).isSome = true
        split
        · exact hproblem
        · rw [Option.isSome_or, hproblem, Bool.true_or]
      · by_contra hne
        exact hline ⟨by simpa using hnone, hne⟩
  · exact .inl ⟨_, rfl, ⟨rfl, rfl, rfl, fun _ => rfl⟩, rfl, rfl⟩

/-- **What recovering can do**: report a problem, or nothing; or book rows that were not
used before, fall in a gap and are of no pending settlement. -/
theorem recoverUnknown_cases (w : FundingWatch) (lines : List FundingLine) (nowMs : Int64) :
    (∃ problem, (w.problem.isSome = true → problem.isSome = true) ∧
      w.recoverUnknown lines nowMs = ({ w with problem := problem }, none)) ∨
    ∃ sinceMs unique recovered, (w.scheduleGaps.map (·.sinceMs)).min? = some sinceMs ∧
      Rows w.bookedLines lines unique ∧
      recovered.Perm (unique.filter (w.unknownLine nowMs)) ∧
      w.recoverUnknown lines nowMs = (w.book recovered, some ⟨sinceMs, nowMs, recovered⟩) := by
  unfold recoverUnknown
  cases hsince : (w.scheduleGaps.map (·.sinceMs)).min? with
  | none => exact .inl ⟨w.problem, id, rfl⟩
  | some sinceMs =>
    simp only
    cases hrows : w.uniqueLines (identity "recovery" "has conflicting evidence")
        (identity "recovery" "has conflicting evidence") lines with
    | error why => exact .inl ⟨some why, fun _ => rfl, rfl⟩
    | ok unique =>
      simp only
      split
      · exact .inl ⟨w.problem, id, rfl⟩
      · exact .inr ⟨sinceMs, unique, _, rfl, rows_of_uniqueLines hrows,
          List.mergeSort_perm _ _, rfl⟩

/-- A row that is not what was used of it changes nothing but the problem. -/
theorem recoverUnknown_conflict (w : FundingWatch) {lines : List FundingLine} {line : FundingLine}
    (hl : line ∈ lines) (hdiffers : agrees w.bookedLines line = false) (nowMs : Int64) :
    ∃ problem, w.recoverUnknown lines nowMs = ({ w with problem := problem }, none) := by
  unfold recoverUnknown
  split
  · exact ⟨w.problem, rfl⟩
  · obtain ⟨why, hrows⟩ := uniqueLines_conflict (identity "recovery" "has conflicting evidence")
      (identity "recovery" "has conflicting evidence") hl hdiffers
    rw [hrows]
    exact ⟨some why, rfl⟩

theorem resolve_conflict (w : FundingWatch) {lines : List FundingLine} {line : FundingLine}
    (hl : line ∈ lines) (hdiffers : agrees w.bookedLines line = false)
    (rates : List SettledRate) (nowMs : Int64) :
    ∃ why, w.resolve rates lines nowMs = ({ w with problem := some why }, []) := by
  obtain ⟨why, hrows⟩ := uniqueLines_conflict (identity "ledger" "changed after booking")
    (identity "ledger" "has conflicting evidence") hl hdiffers
  unfold resolve
  rw [hrows]
  exact ⟨why, rfl⟩

/-! ## Runs -/

/-- One thing the watch is asked. -/
inductive Op where
  | onTime (nowMs : Int64) (live model : Legs) (next : Option Int64)
  | rediscover (nowMs : Int64) (next : Except String (Option Int64))
  | resolve (rates : List SettledRate) (lines : List FundingLine) (nowMs : Int64)
  | recover (lines : List FundingLine) (nowMs : Int64)

/-- When. -/
def Op.nowMs : Op → Int64
  | .onTime nowMs _ _ _ => nowMs
  | .rediscover nowMs _ => nowMs
  | .resolve _ _ nowMs => nowMs
  | .recover _ nowMs => nowMs

/-- The settlement the clock passes, if it does. -/
def crossing (w : FundingWatch) (nowMs : Int64) : List Int64 :=
  (w.nextMs.filter (· ≤ nowMs)).toList

/-- A watch, the settlements that became pending, and all that it returned. -/
structure Trace where
  watch : FundingWatch
  crossed : List Int64
  settled : List Settled
  recovered : List Recovered

namespace Trace

def start (w : FundingWatch) : Trace := ⟨w, [], [], []⟩

def step (t : Trace) : Op → Trace
  | .onTime nowMs live model next =>
    { t with
      watch := t.watch.onTime nowMs live model next
      crossed := t.crossed ++ t.watch.crossing nowMs }
  | .rediscover nowMs next => { t with watch := t.watch.rediscoverSchedule nowMs next }
  | .resolve rates lines nowMs =>
    let (watch, settled) := t.watch.resolve rates lines nowMs
    { t with watch := watch, settled := t.settled ++ settled }
  | .recover lines nowMs =>
    let (watch, recovered) := t.watch.recoverUnknown lines nowMs
    { t with watch := watch, recovered := t.recovered ++ recovered.toList }

def run (t : Trace) (ops : List Op) : Trace := ops.foldl step t

/-- Every ledger line returned. -/
def lines (t : Trace) : List FundingLine :=
  t.settled.flatMap (·.lines) ++ t.recovered.flatMap (·.lines)

end Trace

end FundingWatch
