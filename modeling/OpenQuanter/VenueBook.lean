/-
# The venue's displayed depth, rebuilt from incremental updates (`oq-book`)

One side is a list of levels, best price first.  The source places a price by
binary search; on a list whose prices are strictly ordered that is where
`setLevel` stops, and the order is a field of the side, so no other list can be
built.  A book refuses an update it cannot place in sequence.
-/
import OpenQuanter.Fixed

/-! ## One side -/

/-- Displayed quantity at one price. -/
structure Level where
  price : Int64
  qty : Int64
  deriving DecidableEq, Repr

/-- Whether price `a` stands strictly ahead of price `b` on a side. -/
def aheadOf (descending : Bool) (a b : Int64) : Prop := if descending then b < a else a < b

instance (descending : Bool) : DecidableRel (aheadOf descending) := fun a b =>
  inferInstanceAs (Decidable (if descending then b < a else a < b))

theorem aheadOf_trans {descending : Bool} {a b c : Int64} (h : aheadOf descending a b)
    (h' : aheadOf descending b c) : aheadOf descending a c := by
  cases descending
  · exact Int64.lt_trans h h'
  · exact Int64.lt_trans h' h

/-- Prices that are neither ahead of each other are equal. -/
theorem aheadOf_of_not {descending : Bool} {a b : Int64} (h : ¬ aheadOf descending a b)
    (hne : a ≠ b) : aheadOf descending b a := by
  cases descending <;> simp only [aheadOf] at h ⊢ <;> grind

/-- One side of a book, price-ordered: descending for bids, ascending for asks. -/
structure BookSide where
  levels : List Level
  descending : Bool
  sorted : levels.Pairwise (fun a b => aheadOf descending a.price b.price)

/-- The result of taking size off one side of a book. -/
structure Sweep where
  taken : Int64
  cost : Int
  exhausted : Bool
  deriving DecidableEq, Repr

namespace BookSide

def bids : BookSide := ⟨[], true, List.Pairwise.nil⟩
def asks : BookSide := ⟨[], false, List.Pairwise.nil⟩

/-- Write one level into a list of levels; a zero quantity removes it. -/
def setLevel (descending : Bool) (level : Level) : List Level → List Level
  | [] => if level.qty = 0 then [] else [level]
  | l :: rest =>
    if aheadOf descending l.price level.price then l :: setLevel descending level rest
    else if l.price = level.price then if level.qty = 0 then rest else level :: rest
    else if level.qty = 0 then l :: rest
    else level :: l :: rest

theorem mem_setLevel {descending : Bool} {level l : Level} {levels : List Level}
    (h : l ∈ setLevel descending level levels) : l = level ∨ l ∈ levels := by
  induction levels with
  | nil =>
    simp only [setLevel] at h
    split_ifs at h
    · simp at h
    · exact Or.inl (List.mem_singleton.mp h)
  | cons a rest ih =>
    simp only [setLevel] at h
    split_ifs at h
    · rcases List.mem_cons.mp h with rfl | h
      · exact Or.inr List.mem_cons_self
      · exact (ih h).imp_right (List.mem_cons_of_mem a)
    · exact Or.inr (List.mem_cons_of_mem a h)
    · exact (List.mem_cons.mp h).imp_right (List.mem_cons_of_mem a)
    · exact Or.inr h
    · exact List.mem_cons.mp h

theorem sorted_setLevel {descending : Bool} (level : Level) {levels : List Level}
    (h : levels.Pairwise (fun a b => aheadOf descending a.price b.price)) :
    (setLevel descending level levels).Pairwise
      (fun a b => aheadOf descending a.price b.price) := by
  induction levels with
  | nil =>
    simp only [setLevel]
    split_ifs <;> simp
  | cons a rest ih =>
    obtain ⟨ha, hrest⟩ := List.pairwise_cons.mp h
    simp only [setLevel]
    split_ifs with hahead heq hzero hzero
    · refine List.pairwise_cons.mpr ⟨?_, ih hrest⟩
      intro b hb
      rcases mem_setLevel hb with rfl | hb
      · exact hahead
      · exact ha b hb
    · exact hrest
    · exact List.pairwise_cons.mpr ⟨fun b hb => heq ▸ ha b hb, hrest⟩
    · exact h
    · have hlevel := aheadOf_of_not hahead heq
      refine List.pairwise_cons.mpr ⟨?_, h⟩
      intro b hb
      rcases List.mem_cons.mp hb with rfl | hb
      · exact hlevel
      · exact aheadOf_trans hlevel (ha b hb)

/-- Apply one level change. -/
def apply (s : BookSide) (level : Level) : BookSide where
  levels := setLevel s.descending level s.levels
  descending := s.descending
  sorted := sorted_setLevel level s.sorted

/-- The walk of `sweep`: what is taken, and what is still wanted. -/
def sweepLevels : Int64 → Int64 → Int → List Level → Int64 × Int × Int64
  | want, taken, cost, [] => (taken, cost, want)
  | want, taken, cost, l :: rest =>
    if want = 0 then (taken, cost, want)
    else
      let take := min want (max l.qty 0)
      if take = 0 then sweepLevels want taken cost rest
      else
        sweepLevels (want - take) (taken + take) (cost + l.price.toInt * take.toInt) rest

/-- What taking `qty` from this side would cost, best price first. -/
def sweep (s : BookSide) (qty : Int64) : Sweep :=
  let (taken, cost, want) := sweepLevels (max qty 0) 0 0 s.levels
  ⟨taken, cost, 0 < want⟩

/-- The walk of `take`: the levels with their quantity reduced, and how many of
them were emptied. -/
def drainLevels : Int64 → List Level → List Level × Nat
  | _, [] => ([], 0)
  | want, l :: rest =>
    if want = 0 then (l :: rest, 0)
    else
      let take := min want (max l.qty 0)
      let (rest', drained) := drainLevels (want - take) rest
      ({ l with qty := l.qty - take } :: rest', if l.qty - take = 0 then drained + 1 else drained)

theorem prices_drainLevels (want : Int64) (levels : List Level) :
    (drainLevels want levels).1.map Level.price = levels.map Level.price := by
  induction levels generalizing want with
  | nil => rfl
  | cons l rest ih =>
    simp only [drainLevels]
    split_ifs <;> simp [ih]

/-- Take `qty` off this side, removing what was consumed. -/
def take (s : BookSide) (qty : Int64) : Sweep × BookSide :=
  let swept := s.sweep qty
  let walked := drainLevels swept.taken s.levels
  (swept,
    { levels := walked.1.drop walked.2
      descending := s.descending
      sorted := by
        have hprices : (walked.1.map Level.price).Pairwise (aheadOf s.descending) := by
          rw [prices_drainLevels]
          exact List.pairwise_map.mpr s.sorted
        exact (List.pairwise_map.mp hprices).sublist (List.drop_sublist _ _) })

/-- An empty side has nothing to take and stays empty. -/
theorem take_of_nil {s : BookSide} (hnil : s.levels = []) (qty : Int64) :
    (s.take qty).1.taken = 0 ∧ (s.take qty).2.levels = [] := by
  simp [take, sweep, hnil, sweepLevels, drainLevels]

end BookSide

/-! ## The book -/

/-- One incremental update.  It covers the ids `firstId..=finalId`. -/
structure DepthUpdate where
  eventMs : Int64
  firstId : UInt64
  finalId : UInt64
  prevFinalId : Option UInt64
  bids : List Level
  asks : List Level
  deriving DecidableEq, Repr

/-- Why an update could not be applied. -/
inductive SequenceError
  | noSnapshot
  | doesNotStraddleSnapshot (snapshot firstId finalId : UInt64)
  | gap (expected found : UInt64)
  deriving DecidableEq, Repr

/-- What applying an update did. -/
inductive Applied
  | updated
  | alreadyInSnapshot
  deriving DecidableEq, Repr

/-- A book rebuilt from a snapshot plus incremental updates. -/
structure VenueBook where
  bids : BookSide
  asks : BookSide
  lastId : Option UInt64
  snapshotId : Option UInt64
  applied : Nat

namespace VenueBook

/-- An empty book, awaiting a snapshot. -/
def new : VenueBook := ⟨BookSide.bids, BookSide.asks, none, none, 0⟩

/-- Install a snapshot, discarding whatever was there. -/
def installSnapshot (_b : VenueBook) (updateId : UInt64) (bids asks : List Level) : VenueBook where
  bids := bids.foldl BookSide.apply BookSide.bids
  asks := asks.foldl BookSide.apply BookSide.asks
  snapshotId := some updateId
  lastId := none
  applied := 0

/-- Where an update stands in sequence: to be applied, already reflected, or
out of place. -/
def place (b : VenueBook) (update : DepthUpdate) : Except SequenceError Applied :=
  match b.snapshotId with
  | none => .error .noSnapshot
  | some snapshot =>
    match b.lastId with
    | none =>
      if update.finalId ≤ snapshot then .ok .alreadyInSnapshot
      else if snapshot + 1 < update.firstId && !update.prevFinalId.any (· ≤ snapshot) then
        .error (.doesNotStraddleSnapshot snapshot update.firstId update.finalId)
      else .ok .updated
    | some last =>
      let previous :=
        update.prevFinalId.getD (if update.firstId = 0 then 0 else update.firstId - 1)
      if previous ≠ last then .error (.gap last previous) else .ok .updated

/-- Apply an incremental update; a refused one leaves the book untouched. -/
def apply (b : VenueBook) (update : DepthUpdate) : Except SequenceError (Applied × VenueBook) :=
  match b.place update with
  | .error e => .error e
  | .ok .alreadyInSnapshot => .ok (.alreadyInSnapshot, b)
  | .ok .updated =>
    .ok (.updated,
      { b with
        bids := update.bids.foldl BookSide.apply b.bids
        asks := update.asks.foldl BookSide.apply b.asks
        lastId := some update.finalId
        applied := b.applied + 1 })

/-- Whether the book is ready to be read. -/
def isReady (b : VenueBook) : Bool :=
  b.snapshotId.isSome && !b.bids.levels.isEmpty && !b.asks.levels.isEmpty

end VenueBook
