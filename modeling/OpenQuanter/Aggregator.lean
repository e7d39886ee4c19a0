/-
# The aggregator of ticks (`oq-ingest/src/agg.rs`)

One window at a time, fed one event at a time.  Every event first moves the clock (`roll`), which
may close the window that is open; the clock never goes back.  The top of book is read from the
book when it changes and published when a window closes.

`rolled_cases` says what moving the clock does.
-/
import OpenQuanter.RestingBook
import OpenQuanter.VenueBook

/-! ## What is fed to it -/

/-- A trade. -/
structure Trade where
  price : Int64
  qty : Int64
  aggressor : Option Side
  deriving DecidableEq, Repr

/-- The whole book at an update id. -/
structure DepthSnapshot where
  lastUpdateId : UInt64
  bids : List Level
  asks : List Level
  deriving DecidableEq, Repr

namespace Aggregator

/-- What an aggregator has seen. -/
structure Counts where
  depthApplied : Nat
  trades : Nat
  quietWindows : Nat
  ticks : Nat
  windowsBeforeFirstTrade : Nat
  outOfOrder : Nat
  snapshots : Nat
  resyncs : Nat
  deriving DecidableEq, Repr

/-- The window that is open. -/
structure Window where
  start : Int64
  lastLocal : Int64
  last : Int64
  high : Int64
  low : Int64
  trades : Nat
  deriving DecidableEq, Repr

namespace Window

def new (start : Int64) : Window := ⟨start, start, 0, 0, 0, 0⟩

/-- Take a trade in; the first one seeds both extremes. -/
def observeTrade (w : Window) (price : Int64) : Window :=
  { w with
    last := price
    high := if w.trades = 0 then price else max w.high price
    low := if w.trades = 0 then price else min w.low price
    trades := w.trades + 1 }

/-- The tick of a window; without a trade the price is the one before it. -/
def close (w : Window) (bid ask volumeTotal carried : Int64) : Tick where
  stamp := ⟨w.start, w.lastLocal⟩
  last := if w.trades = 0 then carried else w.last
  high := w.high
  low := w.low
  bid := bid
  ask := ask
  volume := volumeTotal

end Window

/-- Updates held while a snapshot is fetched, at most. -/
def maxPending : Nat := 10000

end Aggregator

/-- Folds venue events into ticks of a fixed width. -/
structure Aggregator where
  windowNs : Int64
  book : VenueBook
  bootstrapped : Bool
  volumeTotal : Int64
  bid : Int64
  ask : Int64
  /-- The last traded price, across windows. -/
  lastPrice : Int64
  /-- The largest exchange timestamp. -/
  highWater : Int64
  open_ : Option Aggregator.Window
  counts : Aggregator.Counts
  /-- Whether the book starts from a snapshot. -/
  snapshots : Bool
  /-- Updates that wait for one. -/
  pending : List DepthUpdate
  positive : 0 < windowNs

namespace Aggregator

def new (windowNs : Int64) : Except String Aggregator :=
  if h : 0 < windowNs then
    .ok ⟨windowNs, .new, false, 0, 0, 0, 0, Int64.minValue, none, ⟨0, 0, 0, 0, 0, 0, 0, 0⟩, false,
      [], h⟩
  else .error "window must be positive"

/-- An aggregator with windows of ten nanoseconds. -/
def ten : Aggregator :=
  ⟨10, .new, false, 0, 0, 0, 0, Int64.minValue, none, ⟨0, 0, 0, 0, 0, 0, 0, 0⟩, false, [],
    by decide⟩

/-- The first nanosecond of the window of a time. -/
def windowStart (windowNs at_ : Int64) : Int64 :=
  Int64.ofIntClamp (at_.toInt - at_.toInt % windowNs.toInt)

variable (a : Aggregator)

/-- Whether the book is waiting for a snapshot. -/
def needsSnapshot : Bool := a.snapshots && !a.bootstrapped

/-- Updates held for the snapshot. -/
def buffered : Nat := a.pending.length

/-- Close a window: what is counted, and the tick unless nothing ever traded. -/
def publish (w : Window) : Counts × Option Tick :=
  let counts := if w.trades = 0 then { a.counts with quietWindows := a.counts.quietWindows + 1 }
    else a.counts
  if a.lastPrice = 0 then
    ({ counts with windowsBeforeFirstTrade := counts.windowsBeforeFirstTrade + 1 }, none)
  else ({ counts with ticks := counts.ticks + 1 },
    some (w.close a.bid a.ask a.volumeTotal a.lastPrice))

/-- Move to the window of a time; the one that is open is closed if that is another. -/
def roll (at_ local_ : Int64) : Aggregator × Option Tick :=
  let late := decide (at_ < a.highWater)
  let now := if late then a.highWater else at_
  let a := { a with
    highWater := now
    counts := if late then { a.counts with outOfOrder := a.counts.outOfOrder + 1 } else a.counts }
  let start := windowStart a.windowNs now
  match a.open_ with
  | some w =>
    if w.start = start then ({ a with open_ := some { w with lastLocal := local_ } }, none)
    else
      ({ a with
          open_ := some { Window.new start with lastLocal := local_ }
          counts := (a.publish w).1 },
        (a.publish w).2)
  | none => ({ a with open_ := some { Window.new start with lastLocal := local_ } }, none)

/-- Take the starting book from a snapshot rather than from nothing. -/
def expectSnapshots : Aggregator :=
  { a with snapshots := true, book := if a.bootstrapped then a.book else .new }

/-- Read the top of book. -/
def readTop : Aggregator :=
  { a with
    bid := (a.book.bids.levels.head?.map Level.price).getD 0
    ask := (a.book.asks.levels.head?.map Level.price).getD 0 }

/-- Apply the updates that were held: the book or the break, how many were applied, and what is
still held. -/
def applyHeld (book : VenueBook) (applied : Nat) :
    List DepthUpdate → Except SequenceError VenueBook × Nat × List DepthUpdate
  | [] => (.ok book, applied, [])
  | u :: rest =>
    match book.apply u with
    | .error e => (.error e, applied, u :: rest)
    | .ok (.updated, book') => applyHeld book' (applied + 1) rest
    | .ok (.alreadyInSnapshot, book') => applyHeld book' applied rest

/-- Install the starting book and apply what arrived while it was fetched. -/
def installSnapshot (s : DepthSnapshot) : Aggregator × Except SequenceError Unit :=
  let book := a.book.installSnapshot s.lastUpdateId s.bids s.asks
  match applyHeld book a.counts.depthApplied a.pending with
  | (.error e, applied, rest) =>
    ({ a with book := .new, counts := { a.counts with depthApplied := applied }, pending := rest },
      .error e)
  | (.ok book', applied, rest) =>
    let a := { a with
      book := book'
      counts := { a.counts with depthApplied := applied, snapshots := a.counts.snapshots + 1 }
      pending := rest
      bootstrapped := true }
    (a.readTop, .ok ())

/-- Hold an update for the snapshot, oldest dropped first. -/
def hold (update : DepthUpdate) : Aggregator :=
  { a with pending := (if a.pending.length = maxPending then a.pending.tail else a.pending) ++
    [update] }

/-- Forget the book without closing a window. -/
def dropBook : Aggregator :=
  { a with book := .new, pending := [], bootstrapped := false, bid := 0, ask := 0 }

/-- The book an update is given to when books start from nothing. -/
def bootstrap (update : DepthUpdate) (book : VenueBook) : VenueBook :=
  book.installSnapshot (if update.firstId = 0 then 0 else update.firstId - 1) [] []

/-- An update was applied. -/
def applied (book : VenueBook) : Aggregator :=
  { a with
    book := book
    counts := { a.counts with depthApplied := a.counts.depthApplied + 1 } }.readTop

/-- Take an update, once the clock has moved. -/
def takeDepth (update : DepthUpdate) : Aggregator :=
  if a.snapshots then
    if a.bootstrapped then
      match a.book.apply update with
      | .error _ =>
        { a with counts := { a.counts with resyncs := a.counts.resyncs + 1 } }.dropBook.hold update
      | .ok (_, book) => a.applied book
    else a.hold update
  else
    let book := if a.bootstrapped then a.book else bootstrap update a.book
    let a := { a with bootstrapped := true }
    match book.apply update with
    | .ok (_, book) => a.applied book
    | .error _ =>
      -- a break that was not declared: start again from nothing
      let book := bootstrap update .new
      match book.apply update with
      | .ok (_, book) => a.applied book
      | .error _ => a.applied book

/-- Apply a depth update. -/
def onDepth (at_ local_ : Int64) (update : DepthUpdate) : Aggregator × Option Tick :=
  let (a, closed) := a.roll at_ local_
  (a.takeDepth update, closed)

/-- Take a trade, once the clock has moved. -/
def takeTrade (trade : Trade) : Aggregator :=
  { a with
    counts := { a.counts with trades := a.counts.trades + 1 }
    open_ := a.open_.map (·.observeTrade trade.price)
    lastPrice := trade.price
    volumeTotal := satAdd a.volumeTotal trade.qty }

/-- Apply a trade. -/
def onTrade (at_ local_ : Int64) (trade : Trade) : Aggregator × Option Tick :=
  let (a, closed) := a.roll at_ local_
  (a.takeTrade trade, closed)

/-- The feed declared that it stopped listening. -/
def onGap (at_ local_ : Int64) : Aggregator × Option Tick :=
  let (a, closed) := a.roll at_ local_
  (a.dropBook, closed)

/-- Take a captured snapshot, once the clock has moved. -/
def takeSnapshot (s : DepthSnapshot) : Aggregator :=
  { a with
    snapshots := true
    pending := []
    book := a.book.installSnapshot s.lastUpdateId s.bids s.asks
    bootstrapped := true
    counts := { a.counts with snapshots := a.counts.snapshots + 1 } }.readTop

/-- Install a captured snapshot where it arrived. -/
def onSnapshot (at_ local_ : Int64) (s : DepthSnapshot) : Aggregator × Option Tick :=
  let (a, closed) := a.roll at_ local_
  (a.takeSnapshot s, closed)

/-- Close whatever window is open. -/
def flush : Aggregator × Option Tick :=
  match a.open_ with
  | none => (a, none)
  | some w => ({ a with open_ := none, counts := (a.publish w).1 }, (a.publish w).2)

/-- Close the window that is open and open the one of a time, without an event. -/
def advanceTo (at_ local_ : Int64) : Aggregator × Option Tick := a.roll at_ local_

/-! ## Runs -/

/-- What an aggregator can be told. -/
inductive Op where
  | trade (at_ local_ : Int64) (t : Trade)
  | depth (at_ local_ : Int64) (u : DepthUpdate)
  | gap (at_ local_ : Int64)
  | snapshot (at_ local_ : Int64) (s : DepthSnapshot)
  | advance (at_ local_ : Int64)
  | flush
  | expectSnapshots
  | install (s : DepthSnapshot)
  | dropBook

/-- One of them, and the tick that is published if one is. -/
def step : Op → Aggregator × Option Tick
  | .trade at_ local_ t => a.onTrade at_ local_ t
  | .depth at_ local_ u => a.onDepth at_ local_ u
  | .gap at_ local_ => a.onGap at_ local_
  | .snapshot at_ local_ s => a.onSnapshot at_ local_ s
  | .advance at_ local_ => a.advanceTo at_ local_
  | .flush => a.flush
  | .expectSnapshots => (a.expectSnapshots, none)
  | .install s => ((a.installSnapshot s).1, none)
  | .dropBook => (a.dropBook, none)

/-- The aggregator after a run. -/
def run (ops : List Op) : Aggregator := ops.foldl (fun a op => (a.step op).1) a

/-- The ticks a run publishes. -/
def published : Aggregator → List Op → List Tick
  | _, [] => []
  | a, op :: ops => (a.step op).2.toList ++ published (a.step op).1 ops

theorem run_append (ops rest : List Op) : a.run (ops ++ rest) = (a.run ops).run rest :=
  List.foldl_append

end Aggregator
