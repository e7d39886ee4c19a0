/-
# What a run believed it held (`oq-live/src/belief.rs`)

A journal is read from its first frame.  Fills are folded into named legs, and into one
net position beside them; an adoption replaces both.  On a one-way account the two are to
be the same: one leg, the net position, and none when that is flat.

They are the same as long as no fill is folded into one leg while the position stands in
another (`onePosition_iff`).  `netLeg` takes care that a fill without a leg's name is not;
an execution goes to the net leg without asking it, so after an adopted long leg was
closed by an execution two opposite legs are reported (`two_legs_reported`).
-/
import OpenQuanter.History
import OpenQuanter.JournalFrame
import OpenQuanter.LiveRecord
import OpenQuanter.OrderIds

namespace Live

/-! ## Legs -/

/-- Signed lots, and the signed notional behind them in tick-lots. -/
structure Leg where
  lots : QtyLots
  notional : Int
  deriving DecidableEq, Repr

namespace Leg

/-- No position. -/
def flat : Leg := ⟨0, 0⟩

/-- The volume-weighted entry in ticks, or zero when flat. -/
def entryTicks (leg : Leg) : PriceTicks :=
  if leg.lots = 0 then 0
  else
    let entry := |leg.notional| / (satAbs leg.lots).toInt
    if FitsI64 entry then Int64.ofInt entry else Int64.maxValue

/-- Fold one signed quantity at one price into the leg. -/
def fold (leg : Leg) (signedLots : QtyLots) (priceTicks : PriceTicks) : Leg :=
  let before := leg.lots
  let after := satAdd before signedLots
  if signedLots = 0 then leg
  else if before = 0 ∨ (0 < before ↔ 0 < signedLots) then
    -- opening or adding: summed, never averaged
    ⟨after, satWide (leg.notional + satWide (signedLots.toInt * priceTicks.toInt))⟩
  else if ¬(0 < before ↔ 0 < after) ∧ after ≠ 0 then
    -- crossed through flat: what remains is a new position
    ⟨after, satWide (after.toInt * priceTicks.toInt)⟩
  else if after = 0 then ⟨after, 0⟩
  else
    -- reducing: the notional shrinks in proportion, so that the entry stays
    let shrunk := satWide (|leg.notional| * (satAbs after).toInt) / (satAbs before).toInt
    ⟨after, if leg.notional < 0 then -shrunk else shrunk⟩

@[simp] theorem fold_zero (leg : Leg) (priceTicks : PriceTicks) : leg.fold 0 priceTicks = leg := by
  simp [fold]

theorem lots_flat_fold (signedLots : QtyLots) (priceTicks : PriceTicks) :
    (flat.fold signedLots priceTicks).lots = signedLots := by
  by_cases hzero : signedLots = 0
  · rw [hzero, fold_zero]
    rfl
  · simp [fold, flat, hzero, satAdd]

/-- Clamping keeps a negative number negative. -/
theorem toInt_ofIntClamp_neg {v : Int} (h : v < 0) : (Int64.ofIntClamp v).toInt < 0 := by
  rw [toInt_clamp]
  omega

/-- Adding to a position does not close it. -/
theorem satAdd_ne_zero {before signedLots : QtyLots} (hne : signedLots ≠ 0)
    (h : before = 0 ∨ (0 < before ↔ 0 < signedLots)) : satAdd before signedLots ≠ 0 := by
  rcases h with rfl | hsame
  · simpa [satAdd] using hne
  intro hclosed
  have hsum : (Int64.ofIntClamp (before.toInt + signedLots.toInt)).toInt = 0 :=
    congrArg Int64.toInt hclosed
  have hne' : signedLots.toInt ≠ 0 := fun h => hne (Int64.toInt_inj.mp h)
  simp only [Int64.lt_iff_toInt_lt, Int64.toInt_zero] at hsame
  rcases lt_or_gt_of_ne hne' with hneg | hpos
  · have hle : before.toInt ≤ 0 := not_lt.mp fun h => absurd (hsame.mp h) (by omega)
    have := toInt_ofIntClamp_neg (v := before.toInt + signedLots.toInt) (by omega)
    omega
  · have hgt := hsame.mpr hpos
    have := toInt_ofIntClamp_pos (v := before.toInt + signedLots.toInt) (by omega)
    omega

/-- A leg without lots has nothing behind them. -/
def Tidy (leg : Leg) : Prop := leg.lots = 0 → leg = flat

theorem Tidy.fold {leg : Leg} (h : leg.Tidy) (signedLots : QtyLots) (priceTicks : PriceTicks) :
    (leg.fold signedLots priceTicks).Tidy := by
  intro hlots
  by_cases hzero : signedLots = 0
  · rw [hzero, fold_zero] at hlots ⊢
    exact h hlots
  · unfold Leg.fold at hlots ⊢
    simp only [if_neg hzero] at hlots ⊢
    split_ifs at hlots ⊢ with hadd hcross hclosed hshort
    · exact absurd hlots (satAdd_ne_zero hzero hadd)
    · exact absurd hlots hcross.2
    · rw [hclosed, flat]
    · exact absurd hlots hclosed
    · exact absurd hlots hclosed

end Leg

/-- The names a leg can have, in the order of the map. -/
inductive LegName where
  | long
  | net
  | short
  deriving DecidableEq, Repr

/-- The legs there are, by name. -/
abbrev Legs := LegName → Option Leg

namespace Legs

/-- The leg of a name, flat if there is none. -/
def held (legs : Legs) (name : LegName) : Leg := (legs name).getD .flat

/-- Fold into the leg of a name. -/
def fold (legs : Legs) (name : LegName) (signedLots : QtyLots) (priceTicks : PriceTicks) : Legs :=
  Function.update legs name (some ((legs.held name).fold signedLots priceTicks))

@[simp] theorem held_fold_self (legs : Legs) (name : LegName) (signedLots : QtyLots)
    (priceTicks : PriceTicks) :
    (legs.fold name signedLots priceTicks).held name =
      (legs.held name).fold signedLots priceTicks := by
  simp [held, fold]

theorem held_fold_of_ne (legs : Legs) {name other : LegName} (h : other ≠ name)
    (signedLots : QtyLots) (priceTicks : PriceTicks) :
    (legs.fold name signedLots priceTicks).held other = legs.held other := by
  simp [held, fold, h]

end Legs

/-- The key a one-way fill goes to: the account's single position.  A leg adopted under
its direction's name becomes that position. -/
def netLeg (legs : Legs) : Option LegName × Legs :=
  if (legs .net).isSome then (some .net, legs)
  else
    match [LegName.long, .short].filter fun name => (legs name).isSome with
    | [] => (some .net, Function.update legs .net (some .flat))
    | [one] =>
      let pos := legs.held one
      (some .net, Function.update (Function.update legs one none) .net (some pos))
    | _ => (none, legs)

/-- A venue's decimal text as a fixed-point number; more decimals than there are places
for are refused. -/
def parseScaled (text : String) (decimals : UInt8) : Option Int64 :=
  let text := OrderIds.trim text.toList
  let (neg, text) := match text with
    | '-' :: rest => (true, rest)
    | _ => (false, text)
  let (int, frac) := match text.span (· ≠ '.') with
    | (int, _ :: frac) => (int, frac)
    | (int, []) => (int, [])
  if int.isEmpty && frac.isEmpty then none
  else if !(int.all Char.isDigit && frac.all Char.isDigit) then none
  else
    let digits := int ++ (List.range decimals.toNat).map fun i => frac.getD i '0'
    if decimals.toNat < frac.length then none
    else
      match Decimal.parse digits with
      | some v =>
        if v < 2 ^ 63 then some (if neg then -Int64.ofNat v else Int64.ofNat v) else none
      | none => none

/-! ## What is believed -/

/-- A process's own account, as its journal describes it. -/
structure Belief where
  symbol : Option String := none
  positionLots : QtyLots := 0
  entryTicks : PriceTicks := 0
  resting : List String := []
  priceScale : UInt8 := 0
  qtyScale : UInt8 := 0
  adopted : Bool := false
  hedged : Bool := false
  adoptedAt : Option Nanos := none
  /-- Each leg by name, with its signed lots and its entry. -/
  legs : List (String × QtyLots × PriceTicks) := []
  undecodable : Nat := 0
  instrument : Option ListedInstrument := none
  deriving DecidableEq

namespace Belief

/-- What is kept while the journal is read. -/
structure Scan where
  b : Belief := {}
  submitted : String → Option (Side × Bool × String) := fun _ => none
  accepted : List String := []
  filled : String → QtyLots := fun _ => 0
  withdrawn : List String := []
  legs : Legs := fun _ => none
  net : Leg := .flat
  mode : Option PositionMode := none

/-- A fill as it is folded: the order it is of, what it adds to the order and to the
position, at which price, into which of the legs. -/
structure Booking where
  clientId : String
  lots : QtyLots
  signed : QtyLots
  ticks : PriceTicks
  name : LegName
  legs : Legs

namespace Scan

def undecoded (s : Scan) : Scan := { s with b := { s.b with undecodable := s.b.undecodable + 1 } }

/-- The leg an execution names, and none when no ledger start declared a mode. -/
def executionName (mode : Option PositionMode) (made : Fill) : Option LegName :=
  match mode with
  | none => none
  | some .oneWay => some .net
  | some .hedge =>
    match made.side, made.offset with
    | .buy, .opening => some .long
    | .sell, .closing => some .long
    | _, _ => some .short

def executionBooking (s : Scan) (clientId : String) (made : Fill) : Option Booking :=
  (executionName s.mode made).map fun name =>
    let signed := if made.side = .buy then made.qty else -made.qty
    ⟨clientId, made.qty, signed, made.price, name, s.legs⟩

/-- The leg a submission names, and otherwise the net one, which a leg under its
direction's name becomes. -/
def fillName (legs : Legs) (leg : String) : Option LegName × Legs :=
  if eqIgnoreAsciiCase leg "LONG" then (some .long, legs)
  else if eqIgnoreAsciiCase leg "SHORT" then (some .short, legs)
  else netLeg legs

def fillBooking (s : Scan) (clientId qty price : String) : Option Booking := do
  let (side, _, leg) ← s.submitted clientId
  let lots ← parseScaled qty s.b.qtyScale
  let ticks ← parseScaled price s.b.priceScale
  let signed := if side = .buy then lots else -lots
  let (name, legs) := fillName s.legs leg
  let name ← name
  pure ⟨clientId, lots, signed, ticks, name, legs⟩

/-- Fold a fill, or count one that cannot be placed. -/
def book (s : Scan) : Option Booking → Scan
  | none => s.undecoded
  | some m =>
    { s with
      filled := Function.update s.filled m.clientId (s.filled m.clientId + m.lots)
      net := s.net.fold m.signed m.ticks
      legs := m.legs.fold m.name m.signed m.ticks }

/-- Adopt one leg of the venue's position. -/
def adopt (s : Scan) (l : AdoptedLeg) : Scan :=
  let size := satAbs l.qty
  let (name, signed) :=
    if eqIgnoreAsciiCase l.leg "SHORT" then (LegName.short, -size) else (LegName.long, size)
  { s with net := s.net.fold signed l.entry, legs := s.legs.fold name signed l.entry }

/-- The venue's whole position replaces what was built before. -/
def reconcile (s : Scan) (at_ : Nanos) (adopted : List AdoptedLeg) : Scan :=
  let shorts := adopted.any fun l => eqIgnoreAsciiCase l.leg "SHORT"
  let longs := adopted.any fun l => !eqIgnoreAsciiCase l.leg "SHORT"
  let hedged := match s.mode with
    | none => longs && shorts
    | some declared => declared == .hedge
  adopted.foldl adopt
    { s with
      b := { s.b with adopted := true, adoptedAt := some at_, hedged }
      accepted := [], filled := fun _ => 0, withdrawn := []
      legs := fun _ => none, net := .flat }

/-- Read one record; `none` is a frame that could not be decoded. -/
def step (s : Scan) : Option Record → Scan
  | none => s.undecoded
  | some (.sessionStart _ symbol priceScale qtyScale) =>
    { s with
      b := { s.b with symbol := some symbol, priceScale, qtyScale, instrument := none }
      mode := none }
  | some (.ledgerStart _ _ instrument _ _ declared) =>
    { s with
      b := { s.b with instrument := some instrument, hedged := declared == .hedge }
      mode := some declared }
  | some (.reconciled at_ adopted) => s.reconcile at_ adopted
  | some (.submitted _ clientId side _ _ reduceOnly leg) =>
    { s with submitted := Function.update s.submitted clientId (some (side, reduceOnly, leg)) }
  | some (.cancelled _ clientId) => { s with withdrawn := s.withdrawn.insert clientId }
  | some (.outcome _ clientId tag _) =>
    match tag with
    | .accepted => { s with accepted := s.accepted.insert clientId }
    | .rejected | .unknown => s
  | some (.execution clientId made _) => s.book (s.executionBooking clientId made)
  | some (.fill _ clientId _ qty price _ _) => s.book (s.fillBooking clientId qty price)
  | some _ => s

end Scan

/-- What a leg is reported as: the net one by its sign. -/
def reportedName : LegName → QtyLots → String
  | .long, _ => "LONG"
  | .short, _ => "SHORT"
  | .net, lots => if 0 < lots then "LONG" else "SHORT"

/-- The legs that hold something, by name. -/
def reported (legs : Legs) : List (String × QtyLots × PriceTicks) :=
  let there := [LegName.long, .net, .short].filterMap fun name =>
    (legs name).map fun leg => (name, leg)
  let held := there.filter fun e => e.2.lots ≠ 0
  (held.map fun e => (reportedName e.1 e.2.lots, e.2.lots, e.2.entryTicks)).insertionSort
    fun a c => a.1 ≤ c.1

/-- What the frames read come to. -/
def scan (frames : List Journal.Frame) : Scan :=
  frames.foldl (fun s frame => s.step (Record.decode frame.kind frame.payload)) {}

/-- What is left of the orders accepted: not filled at all, and not withdrawn. -/
def Scan.resting (s : Scan) : List String :=
  (s.accepted.filter fun id => s.filled id = 0 ∧ id ∉ s.withdrawn).insertionSort (· ≤ ·)

/-- The belief a journal describes. -/
def fromJournal (frames : List Journal.Frame) : Belief :=
  let s := scan frames
  { s.b with
    resting := s.resting
    positionLots := s.net.lots
    entryTicks := s.net.entryTicks
    legs := reported s.legs }

/-! ## One position -/

/-- The legs hold one position, all of it under one name. -/
structure Single (legs : Legs) (net : Leg) : Prop where
  tidy : net.Tidy
  place : ∃ name, legs.held name = net ∧ ∀ other, other ≠ name → legs.held other = .flat

variable {legs : Legs} {net : Leg}

/-- A name under which something is held is the name of the position. -/
theorem Single.eq_net (h : Single legs net) {name : LegName} (hheld : (legs.held name).lots ≠ 0) :
    legs.held name = net ∧ ∀ other, other ≠ name → legs.held other = .flat := by
  obtain ⟨place, hnet, hflat⟩ := h.place
  by_cases hplace : name = place
  · rw [hplace]
    exact ⟨hnet, hflat⟩
  · rw [hflat name hplace] at hheld
    exact absurd rfl hheld

/-- What is folded where the position is, or where there is none, keeps it single. -/
theorem Single.fold (h : Single legs net) {name : LegName} {signed : QtyLots} {ticks : PriceTicks}
    (hplace : signed = 0 ∨ ∀ other, other ≠ name → (legs.held other).lots = 0) :
    Single (legs.fold name signed ticks) (net.fold signed ticks) := by
  refine ⟨h.tidy.fold signed ticks, ?_⟩
  obtain ⟨place, hnet, hflat⟩ := h.place
  rcases hplace with rfl | hempty
  · -- nothing was folded: each name holds what it held
    have hsame : ∀ other, (legs.fold name 0 ticks).held other = legs.held other := by
      intro other
      by_cases hname : other = name
      · rw [hname, Legs.held_fold_self, Leg.fold_zero]
      · exact Legs.held_fold_of_ne legs hname 0 ticks
    refine ⟨place, by rw [hsame, hnet, Leg.fold_zero], fun other hne => ?_⟩
    rw [hsame, hflat other hne]
  · have hhere : legs.held name = net := by
      by_cases hname : name = place
      · rw [hname, hnet]
      · -- the position is under another name and flat, so it is nowhere
        have hzero := hempty place (Ne.symm hname)
        rw [hflat name hname, h.tidy (hnet ▸ hzero)]
    refine ⟨name, by rw [Legs.held_fold_self, hhere], fun other hne => ?_⟩
    rw [Legs.held_fold_of_ne legs hne]
    by_cases hplace : other = place
    · rw [hplace, hnet]
      exact h.tidy (hnet ▸ hplace ▸ hempty other hne)
    · exact hflat other hplace

/-- What is folded beside the position stands beside it. -/
theorem Single.fold_beside (h : Single legs net) {name other : LegName} {signed : QtyLots}
    {ticks : PriceTicks} (hsigned : signed ≠ 0) (hne : other ≠ name)
    (hother : (legs.held other).lots ≠ 0) :
    ((legs.fold name signed ticks).held name).lots ≠ 0 ∧
      ((legs.fold name signed ticks).held other).lots ≠ 0 := by
  have hflat := (h.eq_net hother).2 name (Ne.symm hne)
  rw [Legs.held_fold_self, hflat, Leg.lots_flat_fold, Legs.held_fold_of_ne legs hne]
  exact ⟨hsigned, hother⟩

/-- If only one name can hold anything, it holds the position. -/
theorem Single.held_eq (h : Single legs net) {name : LegName}
    (hothers : ∀ other, other ≠ name → legs.held other = .flat) : legs.held name = net := by
  obtain ⟨place, hnet, hflat⟩ := h.place
  by_cases hname : name = place
  · rw [hname, hnet]
  · rw [hflat name hname, ← hnet, hothers place (Ne.symm hname)]

/-- The only leg there is keeps the position under the name of the net one. -/
theorem Single.moved (h : Single legs net) (one : LegName)
    (hothers : ∀ other, other ≠ one → legs.held other = .flat) :
    Single (Function.update (Function.update legs one none) .net (some (legs.held one))) net := by
  refine ⟨h.tidy, .net, ?_, fun other hne => ?_⟩
  · rw [Legs.held, Function.update_self, Option.getD_some, h.held_eq hothers]
  · rw [Legs.held, Function.update_of_ne hne]
    by_cases hone : other = one
    · rw [hone, Function.update_self]
      rfl
    · rw [Function.update_of_ne hone]
      exact hothers other hone

/-- A leg that becomes the net one is the same position. -/
theorem Single.netLeg (h : Single legs net) : Single (netLeg legs).2 net := by
  unfold Live.netLeg
  by_cases hthere : (legs .net).isSome
  · rwa [if_pos hthere]
  rw [if_neg hthere]
  have hnone : legs .net = none := by simpa using hthere
  cases hlong : legs .long with
  | none =>
    cases hshort : legs .short with
    | none =>
      have hflat : ∀ other, legs.held other = .flat := by
        intro other
        cases other <;> simp [Legs.held, hnone, hlong, hshort]
      have hmoved := h.moved .net fun other _ => hflat other
      rw [hflat, Function.update_idem] at hmoved
      simpa [hlong, hshort] using hmoved
    | some leg =>
      have hmoved := h.moved .short fun other hne => by
        cases other <;> simp_all [Legs.held]
      simpa [hlong, hshort] using hmoved
  | some leg =>
    cases hshort : legs .short with
    | none =>
      have hmoved := h.moved .long fun other hne => by
        cases other <;> simp_all [Legs.held]
      simpa [hlong, hshort] using hmoved
    | some leg' =>
      -- both directions are there, and nothing moves
      simpa [hlong, hshort] using h

theorem Single.fillName (h : Single legs net) (leg : String) :
    Single (Scan.fillName legs leg).2 net := by
  unfold Scan.fillName
  split_ifs
  · exact h
  · exact h
  · exact h.netLeg

/-! ## What is reported of it -/

/-- One position, if any: what the account has in all is what its leg has. -/
structure OnePosition (b : Belief) : Prop where
  one : b.legs.length ≤ 1
  lots : ∀ leg ∈ b.legs, leg.2.1 = b.positionLots
  entry : ∀ leg ∈ b.legs, leg.2.2 = b.entryTicks
  absent : b.legs = [] ↔ b.positionLots = 0

/-- The legs reported are those that hold something. -/
theorem reported_eq (legs : Legs) :
    reported legs = (([LegName.long, .net, .short].filter fun name => (legs.held name).lots ≠ 0).map
      fun name => (reportedName name (legs.held name).lots, (legs.held name).lots,
        (legs.held name).entryTicks)).insertionSort fun a c => a.1 ≤ c.1 := by
  have hheld : ∀ names : List LegName,
      ((names.filterMap fun name => (legs name).map fun leg => (name, leg)).filter
        fun e => e.2.lots ≠ 0) =
      (names.filter fun name => (legs.held name).lots ≠ 0).map fun name =>
        (name, legs.held name) := by
    intro names
    induction names with
    | nil => rfl
    | cons name names ih =>
      cases hleg : legs name with
      | none =>
        have hzero : (legs.held name).lots = 0 := by
          rw [Legs.held, hleg]
          rfl
        rw [List.filterMap_cons_none (by rw [hleg]; rfl), ih,
          List.filter_cons_of_neg (by simpa using hzero)]
      | some leg =>
        have hheld : legs.held name = leg := by rw [Legs.held, hleg, Option.getD_some]
        rw [List.filterMap_cons_some (by rw [hleg]; rfl), List.filter_cons, List.filter_cons, ih,
          hheld]
        split_ifs
        · rw [List.map_cons, hheld]
        · rfl
  unfold reported
  simp only [hheld, List.map_map]
  rfl

/-- One position is reported as one leg, or none when it is flat. -/
theorem Single.reported (h : Single legs net) :
    reported legs = [] ∧ net.lots = 0 ∨
      (∃ name, reported legs = [(name, net.lots, net.entryTicks)]) ∧ net.lots ≠ 0 := by
  obtain ⟨place, hnet, hflat⟩ := h.place
  have hzero : ∀ other, other ≠ place → (legs.held other).lots = 0 := fun other hne => by
    rw [hflat other hne]
    rfl
  rw [reported_eq]
  by_cases hlots : net.lots = 0
  · have hall : ∀ name, (legs.held name).lots = 0 := fun name => by
      by_cases hname : name = place
      · rw [hname, hnet, hlots]
      · exact hzero name hname
    left
    simp [hall, hlots]
  · right
    refine ⟨⟨reportedName place net.lots, ?_⟩, hlots⟩
    have hhere : (legs.held place).lots ≠ 0 := by rwa [hnet]
    have honly : ([LegName.long, .net, .short].filter fun name => (legs.held name).lots ≠ 0) =
        [place] := by
      cases place <;> simp [hhere, hzero]
    rw [honly, ← hnet]
    rfl

/-- Two legs that hold something are both reported. -/
theorem two_le_length_reported {name other : LegName} (hne : other ≠ name)
    (hname : (legs.held name).lots ≠ 0) (hother : (legs.held other).lots ≠ 0) :
    2 ≤ (reported legs).length := by
  rw [reported_eq, List.length_insertionSort, List.length_map]
  have hsub : [name, other] ⊆
      [LegName.long, .net, .short].filter fun name => (legs.held name).lots ≠ 0 := by
    intro x hx
    rw [List.mem_filter]
    refine ⟨by cases x <;> simp, ?_⟩
    rcases List.mem_cons.mp hx with rfl | hx
    · simpa using hname
    · rw [List.mem_singleton.mp hx]
      simpa using hother
  have hnodup : [name, other].Nodup := by simpa using Ne.symm hne
  exact (hnodup.subperm hsub).length_le

/-! ## What moves it -/

namespace Scan

/-- The fill a record is folded as. -/
def booking (s : Scan) : Option Record → Option Booking
  | some (.execution clientId made _) => s.executionBooking clientId made
  | some (.fill _ clientId _ qty price _ _) => s.fillBooking clientId qty price
  | _ => none

/-- A fill of some quantity is folded into one leg while another holds something. -/
def Strays (s : Scan) (r : Option Record) : Prop :=
  ∃ m, s.booking r = some m ∧ m.signed ≠ 0 ∧
    ∃ other, other ≠ m.name ∧ (m.legs.held other).lots ≠ 0

/-- At most one leg is adopted, if any is. -/
def adoptsOne : Option Record → Bool
  | some (.reconciled _ adopted) => adopted.length ≤ 1
  | _ => true

variable {s : Scan} {r : Option Record}

theorem single_executionBooking (h : Single s.legs s.net) {clientId : String} {made : Fill}
    {m : Booking} (hm : s.executionBooking clientId made = some m) : Single m.legs s.net := by
  obtain ⟨name, -, rfl⟩ := Option.map_eq_some_iff.mp hm
  exact h

theorem single_fillBooking (h : Single s.legs s.net) {clientId qty price : String} {m : Booking}
    (hm : s.fillBooking clientId qty price = some m) : Single m.legs s.net := by
  unfold fillBooking at hm
  obtain ⟨⟨side, reduceOnly, leg⟩, -, hm⟩ := Option.bind_eq_some_iff.mp hm
  obtain ⟨lots, -, hm⟩ := Option.bind_eq_some_iff.mp hm
  obtain ⟨ticks, -, hm⟩ := Option.bind_eq_some_iff.mp hm
  obtain ⟨name, -, hm⟩ := Option.bind_eq_some_iff.mp hm
  obtain rfl := Option.some.inj hm
  exact h.fillName leg

/-- A fill is folded into the position there is. -/
theorem single_booking (h : Single s.legs s.net) {m : Booking} (hm : s.booking r = some m) :
    Single m.legs s.net := by
  unfold booking at hm
  split at hm
  · exact single_executionBooking h hm
  · exact single_fillBooking h hm
  · exact absurd hm (by simp)

/-- What a record does to the position: an adoption sets it, a fill is folded into it,
and any other record leaves it. -/
theorem step_cases (s : Scan) (r : Option Record) :
    (∃ at_ adopted, r = some (.reconciled at_ adopted)) ∨
    (∃ m, s.booking r = some m ∧ (s.step r).legs = m.legs.fold m.name m.signed m.ticks ∧
      (s.step r).net = s.net.fold m.signed m.ticks) ∨
    s.booking r = none ∧ (s.step r).legs = s.legs ∧ (s.step r).net = s.net := by
  have hbook : ∀ booked : Option Booking,
      (∃ m, booked = some m ∧ (s.book booked).legs = m.legs.fold m.name m.signed m.ticks ∧
        (s.book booked).net = s.net.fold m.signed m.ticks) ∨
      booked = none ∧ (s.book booked).legs = s.legs ∧ (s.book booked).net = s.net := by
    intro booked
    cases booked with
    | none => exact .inr ⟨rfl, rfl, rfl⟩
    | some m => exact .inl ⟨m, rfl, rfl, rfl⟩
  cases r with
  | none => exact .inr (.inr ⟨rfl, rfl, rfl⟩)
  | some r =>
    cases r with
    | reconciled at_ adopted => exact .inl ⟨at_, adopted, rfl⟩
    | execution clientId made fee => exact .inr (hbook (s.executionBooking clientId made))
    | fill at_ clientId tradeId qty price order side =>
      exact .inr (hbook (s.fillBooking clientId qty price))
    | outcome at_ clientId tag detail =>
      cases tag <;> exact .inr (.inr ⟨rfl, rfl, rfl⟩)
    | _ => exact .inr (.inr ⟨rfl, rfl, rfl⟩)

/-- After the adoption of one leg, or of none, that is the position. -/
theorem single_reconcile (s : Scan) (at_ : Nanos) {adopted : List AdoptedLeg}
    (hone : adopted.length ≤ 1) :
    Single (s.reconcile at_ adopted).legs (s.reconcile at_ adopted).net := by
  have hstart : Single (fun _ => none) Leg.flat := ⟨fun _ => rfl, .net, rfl, fun _ _ => rfl⟩
  match adopted, hone with
  | [], _ => exact hstart
  | [l], _ =>
    unfold reconcile
    rw [List.foldl_cons, List.foldl_nil]
    unfold adopt
    split_ifs <;> exact hstart.fold (.inr fun _ _ => rfl)

/-- **One record** keeps the position single, unless it strays. -/
theorem single_step (h : Single s.legs s.net) (hstray : ¬s.Strays r)
    (hone : adoptsOne r) : Single (s.step r).legs (s.step r).net := by
  rcases step_cases s r with ⟨at_, adopted, rfl⟩ | ⟨m, hm, hlegs, hnet⟩ | ⟨-, hlegs, hnet⟩
  · exact single_reconcile s at_ (of_decide_eq_true hone)
  · rw [hlegs, hnet]
    refine (single_booking h hm).fold ?_
    by_cases hsigned : m.signed = 0
    · exact .inl hsigned
    · refine .inr fun other hne => ?_
      by_contra hother
      exact hstray ⟨m, hm, hsigned, other, hne, hother⟩
  · rwa [hlegs, hnet]

/-- A record that strays leaves two legs. -/
theorem two_legs_of_strays (h : Single s.legs s.net) (hstray : s.Strays r) :
    2 ≤ (reported (s.step r).legs).length := by
  obtain ⟨m, hm, hsigned, other, hne, hother⟩ := hstray
  rcases step_cases s r with ⟨at_, adopted, rfl⟩ | ⟨m', hm', hlegs, -⟩ | ⟨hnone, -, -⟩
  · exact absurd hm (by simp [booking])
  · obtain rfl : m = m' := Option.some.inj (hm.symm.trans hm')
    obtain ⟨hheld, hheld'⟩ := (single_booking h hm).fold_beside hsigned hne hother
    rw [hlegs]
    exact two_le_length_reported hne hheld hheld'
  · exact absurd (hm.symm.trans hnone) (by simp)

end Scan

/-! ## Over a journal -/

/-- Nothing was read yet, or the venue's position, of one leg or none, just before. -/
def Fresh (before : List Journal.Frame) : Prop :=
  before = [] ∨ ∃ earlier frame at_ adopted, before = earlier ++ [frame] ∧
    Record.decode frame.kind frame.payload = some (.reconciled at_ adopted) ∧ adopted.length ≤ 1

/-- No frame adopts more than one leg. -/
def AdoptsOne (frames : List Journal.Frame) : Prop :=
  ∀ frame ∈ frames, Scan.adoptsOne (Record.decode frame.kind frame.payload)

instance (frames : List Journal.Frame) : Decidable (AdoptsOne frames) :=
  inferInstanceAs (Decidable (∀ frame ∈ frames, _ = true))

theorem scan_concat (frames : List Journal.Frame) (frame : Journal.Frame) :
    scan (frames ++ [frame]) =
      (scan frames).step (Record.decode frame.kind frame.payload) := by
  rw [scan, List.foldl_append]
  rfl

theorem Fresh.single {before : List Journal.Frame} (h : Fresh before) :
    Single (scan before).legs (scan before).net := by
  rcases h with rfl | ⟨earlier, frame, at_, adopted, rfl, hframe, hone⟩
  · exact ⟨fun _ => rfl, .net, rfl, fun _ _ => rfl⟩
  · rw [scan_concat, hframe]
    exact Scan.single_reconcile _ at_ hone

/-- A single position is what is believed. -/
theorem Single.onePosition {frames : List Journal.Frame}
    (h : Single (scan frames).legs (scan frames).net) : OnePosition (fromJournal frames) := by
  have hlegs : (fromJournal frames).legs = Belief.reported (scan frames).legs := rfl
  have hlots : (fromJournal frames).positionLots = (scan frames).net.lots := rfl
  have hentry : (fromJournal frames).entryTicks = (scan frames).net.entryTicks := rfl
  rcases h.reported with ⟨hnone, hzero⟩ | ⟨⟨name, hone⟩, hzero⟩
  · exact ⟨by simp [hlegs, hnone], by simp [hlegs, hnone], by simp [hlegs, hnone],
      by simp [hlegs, hnone, hlots, hzero]⟩
  · exact ⟨by simp [hlegs, hone], by simp [hlegs, hone, hlots], by simp [hlegs, hone, hentry],
      by simp [hlegs, hone, hlots, hzero]⟩

/-- Every record is read where it does not stray. -/
def StaysOne (before frames : List Journal.Frame) : Prop :=
  History.Always (fun read frame =>
    ¬(scan (before ++ read)).Strays (Record.decode frame.kind frame.payload)) frames

theorem single_of_staysOne {before frames : List Journal.Frame} (hfresh : Fresh before)
    (hone : AdoptsOne frames) (hstays : StaysOne before frames) :
    Single (scan (before ++ frames)).legs (scan (before ++ frames)).net := by
  induction frames using List.reverseRecOn with
  | nil =>
    rw [List.append_nil]
    exact hfresh.single
  | append_singleton frames frame ih =>
    have hsofar := ih (fun f hf => hone f (List.mem_append_left _ hf)) hstays.of_append
    rw [← List.append_assoc, scan_concat]
    exact Scan.single_step hsofar hstays.last (hone frame (by simp))

/-- **A one-way account has one position** at every point of its journal exactly if no
fill is folded into one leg while the position stands in another. -/
theorem onePosition_iff {before frames : List Journal.Frame} (hfresh : Fresh before)
    (hone : AdoptsOne frames) :
    (∀ read, read <+: frames → OnePosition (fromJournal (before ++ read))) ↔
      StaysOne before frames := by
  constructor
  · intro hall
    induction frames using List.reverseRecOn with
    | nil => exact History.always_nil
    | append_singleton frames frame ih =>
      have hone' : AdoptsOne frames := fun f hf => hone f (List.mem_append_left _ hf)
      have hstays := ih hone' fun read hread => hall read (hread.trans (List.prefix_append _ _))
      refine History.always_snoc hstays fun hstray => ?_
      -- the journal up to the record that strays is one of those read
      have hlength := (hall (frames ++ [frame]) (List.prefix_refl _)).one
      rw [← List.append_assoc] at hlength
      have htwo := Scan.two_legs_of_strays (single_of_staysOne hfresh hone' hstays) hstray
      rw [← scan_concat] at htwo
      exact absurd (htwo.trans hlength) (by decide)
  · rintro hstays read ⟨rest, rfl⟩
    have hone' : AdoptsOne read := fun f hf => hone f (List.mem_append_left _ hf)
    exact (single_of_staysOne hfresh hone' hstays.of_append).onePosition

/-- The frames some records are written in. -/
def framesOf (records : List Record) : List Journal.Frame :=
  records.mapIdx fun n r => ⟨UInt64.ofNat n, r.kind, r.encode⟩

/-- A one-way ledger starts from an adopted leg. -/
def carriedOver : List Record :=
  [.sessionStart "oq17" "BTCUSDT" 2 3,
    .ledgerStart 5 7 ⟨⟨2, 3, 100_000_000⟩, 10, 1, 0⟩ 1000 100_000 .oneWay,
    .reconciled 6 [⟨"BTCUSDT", "LONG", 10, 100⟩]]

/-- Ten lots are sold at 110. -/
def executed : Record :=
  .execution "oq17-1" ⟨⟨7, 1⟩, 7, 1, 1, .sell, .closing, 110, 10, .taker⟩ (.reported 0)

/-- A long leg of ten is adopted, and an execution sells ten. -/
def closedJournal : List Journal.Frame := framesOf (carriedOver ++ [executed])

example : (fromJournal closedJournal).legs = [("LONG", 10, 100), ("SHORT", -10, 110)] := by
  decide +kernel

/-- The position adopted was closed, and two legs are reported. -/
theorem two_legs_reported :
    (∃ at_ instrumentId instrument tickCash balance,
      (closedJournal.map fun f => Record.decode f.kind f.payload) =
        [some (.sessionStart "oq17" "BTCUSDT" 2 3),
          some (.ledgerStart at_ instrumentId instrument tickCash balance .oneWay),
          some (.reconciled 6 [⟨"BTCUSDT", "LONG", 10, 100⟩]), some executed]) ∧
    (fromJournal closedJournal).positionLots = 0 ∧
    ¬OnePosition (fromJournal closedJournal) := by
  refine ⟨⟨5, 7, ⟨⟨2, 3, 100_000_000⟩, 10, 1, 0⟩, 1000, 100_000, by decide +kernel⟩,
    by decide +kernel, fun h => ?_⟩
  exact absurd h.one (by decide +kernel)

/-- Half of the adopted leg is sold, as the venue tells a fill of a submission. -/
def halved : List Journal.Frame :=
  framesOf [.submitted 7 "oq17-1" .sell 110 10 true "BOTH",
    .fill 8 "oq17-1" 1 "0.005" "1.10" 1 "SELL"]

example : (fromJournal (framesOf carriedOver ++ halved)).legs = [("LONG", 5, 100)] := by
  decide +kernel

theorem onePosition_iff_halved :
    (∀ read, read <+: halved →
      OnePosition (fromJournal (framesOf carriedOver ++ read))) ↔
      StaysOne (framesOf carriedOver) halved :=
  onePosition_iff
    (.inr ⟨framesOf (carriedOver.take 2), ⟨2, Record.Kind.reconciled, _⟩, 6,
      [⟨"BTCUSDT", "LONG", 10, 100⟩], rfl, by decide +kernel, by decide⟩)
    (by decide +kernel)

end Belief

end Live
