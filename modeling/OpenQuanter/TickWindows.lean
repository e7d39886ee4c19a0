/-
# The ticks of an aggregator are those of the trades (`oq-ingest/src/agg.rs`)

What the ticks are for: each is one window of the trades, by the clock that never goes back.
`Told` says which trades were folded into which window from the times of the events alone.  What
moving the clock does to the window that is open (`Faithful.roll`) is all there is to it: the
other entry points only touch the book.

A window that is flushed while the clock is still in it is opened again by the next event, so a
run is faithful if after a flush the clock has left the window (`Meets`).
-/
import OpenQuanter.Aggregator

namespace Aggregator

/-! ## Which trade belongs to which window -/

/-- When an event happens, if it does at a time. -/
def Op.time : Op → Option Int64
  | .trade at_ _ _ => some at_
  | .depth at_ _ _ => some at_
  | .gap at_ _ => some at_
  | .snapshot at_ _ _ => some at_
  | .advance at_ _ => some at_
  | .flush => none
  | .expectSnapshots => none
  | .install _ => none
  | .dropBook => none

def Op.trade? : Op → Option Trade
  | .trade _ _ t => some t
  | _ => none

/-- What an aggregator was told: how late it is, the trades, and those of each window. -/
structure Told where
  clock : Int64
  trades : List Trade
  folded : Int64 → List Trade

namespace Told

def nothing : Told := ⟨Int64.minValue, [], fun _ => []⟩

/-- The clock moves, and does not go back. -/
def hear (s : Told) (at_ : Option Int64) : Told :=
  { s with clock := at_.elim s.clock fun at_ => if at_ < s.clock then s.clock else at_ }

/-- A trade belongs to the window the clock is in. -/
def fold (windowNs : Int64) (s : Told) (t : Option Trade) : Told :=
  match t with
  | none => s
  | some t => { s with
      trades := s.trades ++ [t]
      folded := Function.update s.folded (windowStart windowNs s.clock)
        (s.folded (windowStart windowNs s.clock) ++ [t]) }

def step (windowNs : Int64) (s : Told) (op : Op) : Told := (s.hear op.time).fold windowNs op.trade?

end Told

/-- What a run tells. -/
def told (windowNs : Int64) (ops : List Op) : Told := ops.foldl (Told.step windowNs) .nothing

/-- The highest price, zero if there is none. -/
def highest (ts : List Trade) : Int64 := ((ts.map Trade.price).max?).getD 0

/-- The lowest price, zero if there is none. -/
def lowest (ts : List Trade) : Int64 := ((ts.map Trade.price).min?).getD 0

/-- The total quantity. -/
def total (ts : List Trade) : Int := (ts.map fun t => t.qty.toInt).sum

/-- An event that opens a window opens a later one than was flushed, if that one had a price. -/
def Op.Meets (op : Op) (a : Aggregator) : Prop :=
  a.open_ = none → a.lastPrice ≠ 0 → ∀ at_, op.time = some at_ →
    windowStart a.windowNs a.highWater < windowStart a.windowNs at_

/-- A run whose events all do. -/
def Meets : Aggregator → List Op → Prop
  | _, [] => True
  | a, op :: ops => op.Meets a ∧ Meets (a.step op).1 ops

/-! ## Windows -/

theorem windowStart_mono {windowNs v w : Int64} (hpos : 0 < windowNs) (h : v ≤ w) :
    windowStart windowNs v ≤ windowStart windowNs w := by
  rw [Int64.lt_iff_toInt_lt] at hpos
  rw [Int64.le_iff_toInt_le] at h ⊢
  have hfloor : v.toInt - v.toInt % windowNs.toInt ≤ w.toInt - w.toInt % windowNs.toInt := by
    have hv := Int.mul_ediv_add_emod v.toInt windowNs.toInt
    have hw := Int.mul_ediv_add_emod w.toInt windowNs.toInt
    have hdiv := Int.ediv_le_ediv hpos h
    have hmul := Int.mul_le_mul_of_nonneg_left hdiv (Int.le_of_lt hpos)
    omega
  unfold windowStart
  rw [toInt_clamp, toInt_clamp]
  omega

theorem highest_concat {ts : List Trade} (t : Trade) :
    highest (ts ++ [t]) = if ts = [] then t.price else max (highest ts) t.price := by
  cases ts with
  | nil => rfl
  | cons first ts =>
    rw [if_neg (List.cons_ne_nil first ts), highest, highest, List.cons_append, List.map_cons,
      List.map_cons,
      List.max?_cons', List.max?_cons', List.map_append, List.foldl_append]
    rfl

theorem lowest_concat {ts : List Trade} (t : Trade) :
    lowest (ts ++ [t]) = if ts = [] then t.price else min (lowest ts) t.price := by
  cases ts with
  | nil => rfl
  | cons first ts =>
    rw [if_neg (List.cons_ne_nil first ts), lowest, lowest, List.cons_append, List.map_cons,
      List.map_cons,
      List.min?_cons', List.min?_cons', List.map_append, List.foldl_append]
    rfl

theorem total_concat (ts : List Trade) (t : Trade) :
    total (ts ++ [t]) = total ts + t.qty.toInt := by
  rw [total, List.map_append, List.sum_append]
  simp [total]

/-- A window that is open holds some trades. -/
structure Window.Holds (w : Window) (ts : List Trade) : Prop where
  trades : w.trades = ts.length
  high : w.high = highest ts
  low : w.low = lowest ts
  last : ts ≠ [] → 0 < w.last

theorem Window.holds_new (start local_ : Int64) :
    { Window.new start with lastLocal := local_ }.Holds [] :=
  ⟨rfl, rfl, rfl, fun h => absurd rfl h⟩

theorem Window.Holds.observeTrade {w : Window} {ts : List Trade} (h : w.Holds ts) {t : Trade}
    (ht : 0 < t.price) : (w.observeTrade t.price).Holds (ts ++ [t]) := by
  have hzero : w.trades = 0 ↔ ts = [] := by
    rw [h.trades]
    exact List.length_eq_zero_iff
  refine ⟨?_, ?_, ?_, fun _ => ht⟩
  · rw [List.length_append, ← h.trades]
    rfl
  · rw [highest_concat, ← h.high]
    exact if_congr hzero rfl rfl
  · rw [lowest_concat, ← h.low]
    exact if_congr hzero rfl rfl

/-! ## The clock -/

/-- A tick of a window that was closed. -/
structure Closed (folded : Int64 → List Trade) (t : Tick) : Prop where
  last : 0 < t.last
  high : t.high = highest (folded t.stamp.exch)
  low : t.low = lowest (folded t.stamp.exch)

/-- What every event keeps. -/
structure Faithful (s : Told) (a : Aggregator) (ticks : List Tick) : Prop where
  clock : a.highWater = s.clock
  unpriced : s.trades = [] → a.lastPrice = 0
  priced : s.trades ≠ [] → 0 < a.lastPrice
  volume : a.volumeTotal.toInt = total s.trades
  window : ∀ w ∈ a.open_, w.start = windowStart a.windowNs s.clock ∧ w.Holds (s.folded w.start)
  untraded : s.trades = [] → ∀ start, s.folded start = []
  ahead : ∀ start, windowStart a.windowNs s.clock < start → s.folded start = []
  closed : ∀ t ∈ ticks, Closed s.folded t
  ordered : ticks.Pairwise fun t u => t.stamp.exch < u.stamp.exch
  behind : ∀ t ∈ ticks, t.stamp.exch ≤ windowStart a.windowNs s.clock ∧
    (a.open_ ≠ none → t.stamp.exch < windowStart a.windowNs s.clock)
  silent : a.lastPrice = 0 → ticks = []

variable {s : Told} {a : Aggregator} {ticks : List Tick}

theorem faithful_new {windowNs : Int64} (ha : new windowNs = .ok a) : Faithful .nothing a [] := by
  unfold new at ha
  split at ha
  · obtain rfl := Except.ok.inj ha
    exact ⟨rfl, fun _ => rfl, fun h => absurd rfl h, rfl, fun w hw => (nomatch hw), fun _ _ => rfl,
      fun _ _ => rfl, fun t ht => (nomatch ht), List.Pairwise.nil, fun t ht => (nomatch ht),
      fun _ => rfl⟩
  · cases ha

/-- Nothing is published before there is a price. -/
theorem Faithful.price (h : Faithful s a ticks) (hne : a.lastPrice ≠ 0) : 0 < a.lastPrice := by
  by_cases htrades : s.trades = []
  · exact absurd (h.unpriced htrades) hne
  · exact h.priced htrades

/-- **A window that is closed** has a tick of its own trades. -/
theorem Faithful.closed_close (h : Faithful s a ticks) {w : Window} (hw : a.open_ = some w)
    (hne : a.lastPrice ≠ 0) : Closed s.folded (w.close a.bid a.ask a.volumeTotal a.lastPrice) := by
  obtain ⟨-, hholds⟩ := h.window w hw
  refine ⟨?_, hholds.high, hholds.low⟩
  unfold Window.close
  dsimp only
  split
  · exact h.price hne
  · rename_i htrades
    refine hholds.last fun hnil => htrades ?_
    rw [hholds.trades, hnil, List.length_nil]

theorem publish_snd (a : Aggregator) (w : Window) : (a.publish w).2 =
    if a.lastPrice = 0 then none else some (w.close a.bid a.ask a.volumeTotal a.lastPrice) := by
  unfold Aggregator.publish
  dsimp only
  split
  · rfl
  · rfl

/-- The ticks with the one of the window that closes. -/
theorem Faithful.publish (h : Faithful s a ticks) {w : Window} (hw : a.open_ = some w) :
    (∀ t ∈ ticks ++ (a.publish w).2.toList, Closed s.folded t) ∧
      (ticks ++ (a.publish w).2.toList).Pairwise (fun t u => t.stamp.exch < u.stamp.exch) ∧
      (∀ t ∈ ticks ++ (a.publish w).2.toList, t.stamp.exch ≤ windowStart a.windowNs s.clock) ∧
      (a.lastPrice = 0 → ticks ++ (a.publish w).2.toList = []) ∧
      ∀ t ∈ (a.publish w).2, t.volume.toInt = total s.trades := by
  have hopen : a.open_ ≠ none := by
    rw [hw]
    exact Option.some_ne_none w
  obtain ⟨hstart, -⟩ := h.window w hw
  by_cases hne : a.lastPrice = 0
  · have hnone : (a.publish w).2 = none := by
      rw [publish_snd, if_pos hne]
    rw [hnone, Option.toList_none, List.append_nil]
    exact ⟨h.closed, h.ordered, fun t ht => (h.behind t ht).1, h.silent, fun t ht => nomatch ht⟩
  · have hsome : (a.publish w).2 = some (w.close a.bid a.ask a.volumeTotal a.lastPrice) := by
      rw [publish_snd, if_neg hne]
    rw [hsome, Option.toList_some]
    refine ⟨fun t ht => ?_, ?_, fun t ht => ?_, fun hzero => absurd hzero hne, fun t ht => ?_⟩
    · rcases List.mem_append.mp ht with ht | ht
      · exact h.closed t ht
      · obtain rfl := List.mem_singleton.mp ht
        exact h.closed_close hw hne
    · refine List.pairwise_append.mpr ⟨h.ordered, List.pairwise_singleton _ _, fun t ht u hu => ?_⟩
      obtain rfl := List.mem_singleton.mp hu
      rw [show (w.close _ _ _ _).stamp.exch = w.start from rfl, hstart]
      exact (h.behind t ht).2 hopen
    · rcases List.mem_append.mp ht with ht | ht
      · exact (h.behind t ht).1
      · obtain rfl := List.mem_singleton.mp ht
        exact Int64.le_of_eq hstart
    · obtain rfl := Option.some.inj ht
      exact h.volume

/-- A window that is opened is empty, and behind it are the ticks there are. -/
theorem Faithful.opened (h : Faithful s a ticks) {ticks' : List Tick} {now : Int64} (local_ : Int64)
    (counts : Counts) (hstart : windowStart a.windowNs s.clock ≤ windowStart a.windowNs now)
    (hfresh : windowStart a.windowNs s.clock < windowStart a.windowNs now ∨
      s.trades = [] ∧ ticks' = [])
    (hclosed : ∀ t ∈ ticks', Closed s.folded t)
    (hordered : ticks'.Pairwise fun t u => t.stamp.exch < u.stamp.exch)
    (hbehind : ∀ t ∈ ticks', t.stamp.exch ≤ windowStart a.windowNs s.clock)
    (hsilent : a.lastPrice = 0 → ticks' = []) :
    Faithful { s with clock := now }
      { a with
        highWater := now, counts := counts
        open_ := some { Window.new (windowStart a.windowNs now) with lastLocal := local_
        } } ticks' := by
  have hempty : s.folded (windowStart a.windowNs now) = [] := by
    rcases hfresh with hlater | ⟨htrades, -⟩
    · exact h.ahead _ hlater
    · exact h.untraded htrades _
  refine ⟨rfl, h.unpriced, h.priced, h.volume, fun w hw => ?_, h.untraded, fun start hlater => ?_,
    hclosed, hordered, fun t ht => ?_, hsilent⟩
  · obtain rfl := Option.some.inj hw
    refine ⟨rfl, ?_⟩
    show Window.Holds _ (s.folded (windowStart a.windowNs now))
    rw [hempty]
    exact Window.holds_new ..
  · exact h.ahead start (Int64.lt_of_le_of_lt hstart hlater)
  · have hle := hbehind t ht
    refine ⟨Int64.le_trans hle hstart, fun _ => ?_⟩
    rcases hfresh with hlater | ⟨-, hnil⟩
    · exact Int64.lt_of_le_of_lt hle hlater
    · rw [hnil] at ht
      cases ht

/-- **Moving the clock.** -/
theorem Faithful.roll (h : Faithful s a ticks) {at_ : Int64} (local_ : Int64)
    (hmeets : a.open_ = none → a.lastPrice ≠ 0 →
      windowStart a.windowNs a.highWater < windowStart a.windowNs at_) :
    Faithful (s.hear (some at_)) (a.roll at_ local_).1 (ticks ++ (a.roll at_ local_).2.toList) ∧
      (∃ w, (a.roll at_ local_).1.open_ = some w) ∧
      ∀ t ∈ (a.roll at_ local_).2, t.volume.toInt = total s.trades := by
  have hclock : (if decide (at_ < a.highWater) = true then a.highWater else at_) =
      (s.hear (some at_)).clock := by
    rw [h.clock]
    by_cases hlate : at_ < s.clock
    · rw [if_pos (decide_eq_true hlate)]
      exact (if_pos hlate).symm
    · rw [if_neg (by rwa [decide_eq_true_eq])]
      exact (if_neg hlate).symm
  have hforward : s.clock ≤ (s.hear (some at_)).clock ∧ at_ ≤ (s.hear (some at_)).clock := by
    show s.clock ≤ (if at_ < s.clock then s.clock else at_) ∧
      at_ ≤ if at_ < s.clock then s.clock else at_
    split
    · exact ⟨Int64.le_refl _, Int64.le_of_lt ‹_›⟩
    · exact ⟨Int64.not_lt.mp ‹_›, Int64.le_refl _⟩
  have hhear : s.hear (some at_) = { s with clock := (s.hear (some at_)).clock } := rfl
  have hstart := windowStart_mono a.positive hforward.1
  have hreach := windowStart_mono a.positive hforward.2
  unfold Aggregator.roll
  dsimp only
  rw [hclock, hhear]
  generalize (s.hear (some at_)).clock = now at hstart hreach ⊢
  cases hw : a.open_ with
  | none =>
    refine ⟨?_, ⟨_, rfl⟩, fun t ht => nomatch ht⟩
    rw [Option.toList_none, List.append_nil]
    refine h.opened local_ _ hstart ?_ h.closed h.ordered (fun t ht => (h.behind t ht).1) h.silent
    by_cases hne : a.lastPrice = 0
    · by_cases htrades : s.trades = []
      · exact .inr ⟨htrades, h.silent hne⟩
      · have hpriced := h.priced htrades
        rw [hne] at hpriced
        exact absurd hpriced (Int64.lt_irrefl)
    · -- the clock has left the window that was flushed
      have hlater := hmeets hw hne
      rw [h.clock] at hlater
      exact .inl (Int64.lt_of_lt_of_le hlater hreach)
  | some w =>
    obtain ⟨hwindow, hholds⟩ := h.window w hw
    have hopen : a.open_ ≠ none := by
      rw [hw]
      exact Option.some_ne_none w
    by_cases hsame : w.start = windowStart a.windowNs now
    · simp only [if_pos hsame, Option.toList_none, List.append_nil]
      have hkept : windowStart a.windowNs s.clock = windowStart a.windowNs now :=
        hwindow.symm.trans hsame
      refine ⟨⟨rfl, h.unpriced, h.priced, h.volume, fun w' hw' => ?_, h.untraded,
        fun start hlater => ?_,
        h.closed, h.ordered, fun t ht => ?_, h.silent⟩, ⟨_, rfl⟩, fun t ht => nomatch ht⟩
      · obtain rfl := Option.some.inj hw'
        exact ⟨hsame, hholds.trades, hholds.high, hholds.low, hholds.last⟩
      · exact h.ahead start (hkept ▸ hlater)
      · obtain ⟨hle, hlt⟩ := h.behind t ht
        exact ⟨Int64.le_trans hle hstart, fun _ => Int64.lt_of_lt_of_le (hlt hopen) hstart⟩
    · simp only [if_neg hsame]
      have hlater : windowStart a.windowNs s.clock < windowStart a.windowNs now :=
        Int64.lt_of_le_of_ne hstart (hwindow ▸ hsame)
      obtain ⟨hclosed, hordered, hbehind, hsilent, hvolume⟩ := h.publish hw
      rw [publish_snd] at hclosed hordered hbehind hsilent hvolume
      rw [publish_snd]
      exact ⟨h.opened local_ _ hstart (.inl hlater) hclosed hordered hbehind hsilent, ⟨_, rfl⟩,
        hvolume⟩

/-! ## The events -/

/-- What the ticks are made of, without the book. -/
def tape (a : Aggregator) : Int64 × Int64 × Int64 × Int64 × Option Window :=
  (a.windowNs, a.highWater, a.lastPrice, a.volumeTotal, a.open_)

theorem Faithful.of_tape {a' : Aggregator} (h : Faithful s a ticks) (htape : a'.tape = a.tape) :
    Faithful s a' ticks := by
  simp only [tape, Prod.mk.injEq] at htape
  obtain ⟨hwidth, hclock, hprice, hvolume, hopen⟩ := htape
  constructor
  · exact hclock.trans h.clock
  · exact fun htrades => hprice.trans (h.unpriced htrades)
  · exact fun htrades => hprice ▸ h.priced htrades
  · exact hvolume ▸ h.volume
  · rw [hopen, hwidth]
    exact h.window
  · exact h.untraded
  · rw [hwidth]
    exact h.ahead
  · exact h.closed
  · exact h.ordered
  · rw [hopen, hwidth]
    exact h.behind
  · exact fun hzero => h.silent (hprice.symm.trans hzero)

theorem tape_takeDepth (a : Aggregator) (u : DepthUpdate) : (a.takeDepth u).tape = a.tape := by
  unfold takeDepth
  split
  · split
    · split
      · rfl
      · rfl
    · rfl
  · dsimp only
    split
    · rfl
    · split
      · rfl
      · rfl

theorem tape_installSnapshot (a : Aggregator) (snapshot : DepthSnapshot) :
    (a.installSnapshot snapshot).1.tape = a.tape := by
  unfold installSnapshot
  dsimp only
  split
  · rfl
  · rfl

/-- **A trade** is in the window that is open, and in no other. -/
theorem Faithful.takeTrade (h : Faithful s a ticks) {w : Window} (hw : a.open_ = some w) {t : Trade}
    (hprice : 0 < t.price) (hfits : FitsI64 (total s.trades + t.qty.toInt)) :
    Faithful (s.fold a.windowNs (some t)) (a.takeTrade t) ticks := by
  obtain ⟨hwindow, hholds⟩ := h.window w hw
  have hopen : a.open_ ≠ none := by
    rw [hw]
    exact Option.some_ne_none w
  have hne : s.trades ++ [t] ≠ [] := List.append_ne_nil_of_right_ne_nil _ (List.cons_ne_nil t [])
  constructor
  · exact h.clock
  · exact fun hnil => absurd hnil hne
  · exact fun _ => hprice
  · show (satAdd a.volumeTotal t.qty).toInt = total (s.trades ++ [t])
    rw [satAdd, h.volume, toInt_ofIntClamp_of_fits hfits, total_concat]
  · intro w' hw'
    obtain ⟨w₀, hw₀, rfl⟩ := Option.map_eq_some_iff.mp hw'
    obtain rfl := Option.some.inj (hw.symm.trans hw₀)
    refine ⟨hwindow, ?_⟩
    show Window.Holds _ (Function.update s.folded _ _ w.start)
    rw [hwindow, Function.update_self, ← hwindow]
    exact hholds.observeTrade hprice
  · exact fun hnil => absurd hnil hne
  · intro start hlater
    show Function.update s.folded _ _ start = []
    rw [Function.update_of_ne fun heq => Int64.lt_irrefl (heq ▸ hlater)]
    exact h.ahead start hlater
  · intro tick htick
    have hother : tick.stamp.exch ≠ windowStart a.windowNs s.clock :=
      fun heq => Int64.lt_irrefl (heq ▸ (h.behind tick htick).2 hopen)
    have hfolded : (s.fold a.windowNs (some t)).folded tick.stamp.exch = s.folded tick.stamp.exch :=
      Function.update_of_ne hother ..
    obtain ⟨hlast, hhigh, hlow⟩ := h.closed tick htick
    exact ⟨hlast, hfolded ▸ hhigh, hfolded ▸ hlow⟩
  · exact h.ordered
  · intro tick htick
    obtain ⟨hle, hlt⟩ := h.behind tick htick
    exact ⟨hle, fun _ => hlt hopen⟩
  · intro hzero
    have hsame : t.price = 0 := hzero
    rw [hsame] at hprice
    exact absurd hprice Int64.lt_irrefl

/-- **Flushing** closes the window that is open. -/
theorem Faithful.flush (h : Faithful s a ticks) :
    Faithful s a.flush.1 (ticks ++ a.flush.2.toList) ∧
    ∀ t ∈ a.flush.2, t.volume.toInt = total s.trades := by
  unfold Aggregator.flush
  cases hw : a.open_ with
  | none =>
    dsimp only
    rw [Option.toList_none, List.append_nil]
    exact ⟨h, fun t ht => nomatch ht⟩
  | some w =>
    obtain ⟨hclosed, hordered, hbehind, hsilent, hvolume⟩ := h.publish hw
    refine ⟨⟨h.clock, h.unpriced, h.priced, h.volume, fun w hw => (nomatch hw), h.untraded, h.ahead,
      hclosed, hordered, fun t ht => ⟨hbehind t ht, fun hopen => absurd rfl hopen⟩, hsilent⟩,
        hvolume⟩

/-- The trades a run can have: a price, no negative quantity, and a total that fits. -/
structure Sound (s : Told) (op : Op) : Prop where
  price : ∀ t ∈ op.trade?, 0 < t.price
  fits : ∀ t ∈ op.trade?, FitsI64 (total s.trades + t.qty.toInt)

theorem windowNs_roll (a : Aggregator) (at_ local_ : Int64) :
    (a.roll at_ local_).1.windowNs = a.windowNs := by
  unfold Aggregator.roll
  cases a.open_ with
  | none => rfl
  | some w => dsimp only; split_ifs <;> rfl

/-- The width of the windows is what it was set to. -/
theorem windowNs_step (a : Aggregator) (op : Op) : (a.step op).1.windowNs = a.windowNs := by
  cases op with
  | trade at_ local_ t => exact windowNs_roll a at_ local_
  | depth at_ local_ u =>
    exact (congrArg Prod.fst (tape_takeDepth (a.roll at_ local_).1 u)).trans
      (windowNs_roll a at_ local_)
  | gap at_ local_ => exact windowNs_roll a at_ local_
  | snapshot at_ local_ snapshot => exact windowNs_roll a at_ local_
  | advance at_ local_ => exact windowNs_roll a at_ local_
  | flush =>
    unfold Aggregator.step Aggregator.flush
    dsimp only
    split
    · rfl
    · rfl
  | expectSnapshots => rfl
  | install snapshot => exact congrArg Prod.fst (tape_installSnapshot a snapshot)
  | dropBook => rfl

/-- **Every event.** -/
theorem Faithful.step (h : Faithful s a ticks) {op : Op} (hop : op.Meets a) (hsound : Sound s op) :
    Faithful (s.step a.windowNs op) (a.step op).1 (ticks ++ (a.step op).2.toList) ∧
      ∀ t ∈ (a.step op).2, t.volume.toInt = total s.trades := by
  have hrolled : ∀ at_ local_, op.time = some at_ →
      Faithful (s.hear op.time) (a.roll at_ local_).1 (ticks ++ (a.roll at_ local_).2.toList) ∧
        (∃ w, (a.roll at_ local_).1.open_ = some w) ∧
        ∀ t ∈ (a.roll at_ local_).2, t.volume.toInt = total s.trades := by
    intro at_ local_ htime
    rw [htime]
    exact h.roll local_ fun hopen hprice => hop hopen hprice at_ htime
  have hstay : ∀ {a' : Aggregator}, a'.tape = a.tape →
      Faithful s a' (ticks ++ (none : Option Tick).toList) ∧
        ∀ t ∈ (none : Option Tick), t.volume.toInt = total s.trades := by
    intro a' htape
    rw [Option.toList_none, List.append_nil]
    exact ⟨h.of_tape htape, fun t ht => nomatch ht⟩
  cases op with
  | trade at_ local_ t =>
    obtain ⟨hfaithful, ⟨w, hw⟩, hvolume⟩ := hrolled at_ local_ rfl
    refine ⟨?_, hvolume⟩
    have htaken := hfaithful.takeTrade hw (hsound.price t rfl) (hsound.fits t rfl)
    rw [windowNs_roll] at htaken
    exact htaken
  | depth at_ local_ u =>
    obtain ⟨hfaithful, -, hvolume⟩ := hrolled at_ local_ rfl
    exact ⟨hfaithful.of_tape (tape_takeDepth _ u), hvolume⟩
  | gap at_ local_ =>
    obtain ⟨hfaithful, -, hvolume⟩ := hrolled at_ local_ rfl
    exact ⟨hfaithful.of_tape rfl, hvolume⟩
  | snapshot at_ local_ snapshot =>
    obtain ⟨hfaithful, -, hvolume⟩ := hrolled at_ local_ rfl
    exact ⟨hfaithful.of_tape rfl, hvolume⟩
  | advance at_ local_ =>
    obtain ⟨hfaithful, -, hvolume⟩ := hrolled at_ local_ rfl
    exact ⟨hfaithful, hvolume⟩
  | flush => exact h.flush
  | expectSnapshots => exact hstay rfl
  | install snapshot => exact hstay (tape_installSnapshot a snapshot)
  | dropBook => exact hstay rfl

/-! ## Runs -/

theorem trades_step (windowNs : Int64) (s : Told) (op : Op) :
    (s.step windowNs op).trades = s.trades ++ op.trade?.toList := by
  unfold Told.step Told.fold
  cases op.trade? with
  | none => exact (List.append_nil _).symm
  | some t => rfl

/-- The trades of a run. -/
def trades (ops : List Op) : List Trade := ops.filterMap Op.trade?

theorem trades_cons (op : Op) (ops : List Op) :
    trades (op :: ops) = op.trade?.toList ++ trades ops := by
  unfold trades
  rw [List.filterMap_cons]
  cases op.trade? with
  | none => rfl
  | some t => rfl

theorem trades_append (ops rest : List Op) : trades (ops ++ rest) = trades ops ++ trades rest :=
  List.filterMap_append

theorem total_append (ts us : List Trade) : total (ts ++ us) = total ts + total us := by
  rw [total, List.map_append, List.sum_append]
  rfl

theorem total_nonneg {ts : List Trade} (h : ∀ t ∈ ts, 0 ≤ t.qty) : 0 ≤ total ts := by
  refine List.sum_nonneg fun q hq => ?_
  obtain ⟨t, ht, rfl⟩ := List.mem_map.mp hq
  exact Int64.le_iff_toInt_le.mp (h t ht)

theorem sound_of_total {op : Op} (hbefore : 0 ≤ total s.trades)
    (hprices : ∀ t ∈ op.trade?.toList, 0 < t.price ∧ 0 ≤ t.qty)
    (hfits : total s.trades + total op.trade?.toList < 2 ^ 63) : Sound s op := by
  refine ⟨fun t ht => (hprices t (Option.mem_toList.mpr ht)).1, fun t ht => ?_⟩
  have hqty := (hprices t (Option.mem_toList.mpr ht)).2
  rw [Int64.le_iff_toInt_le, Int64.toInt_zero] at hqty
  have htrade : op.trade? = some t := ht
  have hone : total [t] = t.qty.toInt := by
    simp [total]
  rw [htrade, Option.toList_some, hone] at hfits
  unfold FitsI64
  omega

/-- **Every run.** -/
theorem Faithful.run (h : Faithful s a ticks) {ops : List Op} (hmeets : a.Meets ops)
    (hprices : ∀ t ∈ trades ops, 0 < t.price ∧ 0 ≤ t.qty) (hnonneg : ∀ t ∈ s.trades, 0 ≤ t.qty)
    (hfits : total s.trades + total (trades ops) < 2 ^ 63) :
    Faithful (ops.foldl (Told.step a.windowNs) s) (a.run ops) (ticks ++ a.published ops) := by
  induction ops generalizing s a ticks with
  | nil =>
    rw [published, List.append_nil]
    exact h
  | cons op ops ih =>
    rw [trades_cons, total_append] at hfits
    rw [trades_cons] at hprices
    have hrest : 0 ≤ total (trades ops) :=
      total_nonneg fun t ht => (hprices t (List.mem_append_right _ ht)).2
    have hbefore := total_nonneg hnonneg
    have hsound : Sound s op :=
      sound_of_total hbefore (fun t ht => hprices t (List.mem_append_left _ ht)) (by omega)
    obtain ⟨hnext, -⟩ := h.step hmeets.1 hsound
    have hall := ih hnext hmeets.2 (fun t ht => hprices t (List.mem_append_right _ ht)) ?_ ?_
    · rw [windowNs_step] at hall
      rw [published, ← List.append_assoc]
      exact hall
    · intro t ht
      rw [trades_step] at ht
      rcases List.mem_append.mp ht with ht | ht
      · exact hnonneg t ht
      · exact (hprices t (List.mem_append_left _ ht)).2
    · rw [trades_step, total_append]
      omega

theorem meets_append (a : Aggregator) (ops rest : List Op) :
    a.Meets (ops ++ rest) ↔ a.Meets ops ∧ (a.run ops).Meets rest := by
  induction ops generalizing a with
  | nil => exact ⟨fun h => ⟨trivial, h⟩, And.right⟩
  | cons op ops ih =>
    rw [List.cons_append, Meets, Meets, ih, and_assoc]
    rfl

theorem width_new {windowNs : Int64} {a : Aggregator} (ha : new windowNs = .ok a) :
    a.windowNs = windowNs := by
  unfold new at ha
  split at ha
  · obtain rfl := Except.ok.inj ha
    rfl
  · cases ha

theorem trades_foldl (windowNs : Int64) (s : Told) (ops : List Op) :
    (ops.foldl (Told.step windowNs) s).trades = s.trades ++ trades ops := by
  induction ops generalizing s with
  | nil => exact (List.append_nil _).symm
  | cons op ops ih => rw [List.foldl_cons, ih, trades_step, trades_cons, List.append_assoc]

/-- **The ticks are faithful to the trades** in every run in which no window is opened again after
a flush: no window is published twice, each tick has the extremes of the trades of its window, and
the volume is that of the trades so far. -/
theorem ticks_faithful (windowNs : Int64) (a : Aggregator) (ha : new windowNs = .ok a)
    (ops : List Op)
    (hmeets : a.Meets ops) (hprices : ∀ t ∈ trades ops, 0 < t.price ∧ 0 ≤ t.qty)
    (hfits : total (trades ops) < 2 ^ 63) :
    ((a.published ops).Pairwise fun t u => t.stamp.exch < u.stamp.exch) ∧
      (∀ t ∈ a.published ops, Closed (told windowNs ops).folded t) ∧
      ∀ before op after t, ops = before ++ op :: after → ((a.run before).step op).2 = some t →
        t.volume.toInt = total (trades before) := by
  have hrun : ∀ before rest, ops = before ++ rest →
      Faithful (told windowNs before) (a.run before) (a.published before) := by
    rintro before rest rfl
    have hnothing : total Told.nothing.trades = 0 := rfl
    rw [trades_append, total_append] at hfits
    rw [trades_append] at hprices
    have hrest := total_nonneg fun t ht => (hprices t (List.mem_append_right _ ht)).2
    have hfaithful := (faithful_new ha).run ((meets_append a before rest).mp hmeets).1
      (fun t ht => hprices t (List.mem_append_left _ ht)) (fun t ht => nomatch ht)
      (by omega)
    rw [width_new ha] at hfaithful
    exact hfaithful
  have hall := hrun ops [] (List.append_nil ops).symm
  refine ⟨hall.ordered, hall.closed, ?_⟩
  rintro before op after t rfl ht
  have htrades : (told windowNs before).trades = trades before :=
    trades_foldl windowNs .nothing before
  rw [trades_append, trades_cons] at hprices hfits
  rw [total_append, total_append] at hfits
  have hafter := total_nonneg fun u hu =>
    (hprices u (List.mem_append_right _ (List.mem_append_right _ hu))).2
  have hbefore := total_nonneg fun u hu => (hprices u (List.mem_append_left _ hu)).2
  have hsound : Sound (told windowNs before) op := by
    refine sound_of_total (htrades ▸ hbefore) (fun u hu => ?_) (by rw [htrades]; omega)
    exact hprices u (List.mem_append_right _ (List.mem_append_left _ hu))
  obtain ⟨-, hvolume⟩ := (hrun before _ rfl).step ((meets_append a before _).mp hmeets).2.1 hsound
  rw [← htrades]
  exact hvolume t ht

/-- A trade, one in the next window, and the end. -/
def quiet : List Op := [.trade 1 1 ⟨100, 1, none⟩, .trade 12 12 ⟨101, 2, none⟩, .flush]

theorem ticks_faithful_quiet :
    (ten.published quiet).Pairwise fun t u => t.stamp.exch < u.stamp.exch := by
  have hmeets : ten.Meets quiet := by
    refine ⟨fun _ hprice => absurd rfl hprice, fun hopen => absurd hopen (by decide), ?_, trivial⟩
    exact fun _ _ at_ htime => nomatch htime
  exact (ticks_faithful 10 ten (dif_pos (by decide)) quiet hmeets (by decide) (by decide)).1

/-- A timer flushes a window that the clock is still in. -/
def early : List Op := [.trade 1 1 ⟨100, 1, none⟩, .flush, .trade 2 2 ⟨101, 2, none⟩, .flush]

/-- **A window that is flushed early** is published twice. -/
theorem published_twice : (ten.published early).map (fun t => t.stamp.exch) = [0, 0] ∧
    ¬ (ten.published early).Pairwise fun t u => t.stamp.exch < u.stamp.exch := by
  decide

end Aggregator
