/-
# The top of book an aggregator publishes (`oq-ingest/src/agg.rs`)

A book that was joined to a snapshot shows what the venue showed (`Rebuilt`, by the rules of the
book itself), the quotes are read from it whenever it changes, and without one they are zero.
Those are the things every entry point keeps (`Trusted.step`); moving the clock touches none of
them (`shelf_roll`).

A book that was built from nothing, by updates taken before a snapshot was asked for, is not
trusted, and is kept when snapshots are asked for later (`Op.Asks`).
-/
import OpenQuanter.Aggregator
import OpenQuanter.DepthChain

/-! ## The best price -/

/-- The best price of a side that shows these quantities; zero if it shows none. -/
def Best (descending : Bool) (q : Int64 → Int64) (price : Int64) : Prop :=
  ((∀ p, q p = 0) ∧ price = 0) ∨
    (q price ≠ 0 ∧ ∀ p, q p ≠ 0 → p = price ∨ aheadOf descending price p)

namespace BookSide

/-- The price the best level has. -/
def bestPrice (s : BookSide) : Int64 := (s.levels.head?.map Level.price).getD 0

/-- A price something is shown at has a level. -/
theorem exists_of_qtyIn_ne_zero {levels : List Level} {price : Int64} (h : qtyIn levels price ≠ 0) :
    ∃ l ∈ levels, l.price = price := by
  by_contra hnone
  push Not at hnone
  exact h (qtyIn_of_forall hnone)

/-- **The first level is the best one.** -/
theorem Shows.best {s : BookSide} {q : Int64 → Int64} (h : s.Shows q) :
    Best s.descending q s.bestPrice := by
  obtain ⟨hpresent, rfl⟩ := h
  obtain ⟨levels, descending, hsorted⟩ := s
  cases levels with
  | nil => exact .inl ⟨fun _ => rfl, rfl⟩
  | cons l rest =>
    have hhead : qtyIn (l :: rest) l.price = l.qty := by
      rw [qtyIn_cons, if_pos rfl]
    refine .inr ⟨?_, fun p hp => ?_⟩
    · show qtyIn (l :: rest) l.price ≠ 0
      rw [hhead]
      exact hpresent l List.mem_cons_self
    · obtain ⟨l', hl', rfl⟩ := exists_of_qtyIn_ne_zero hp
      rcases List.mem_cons.mp hl' with rfl | hl'
      · exact .inl rfl
      · exact .inr ((List.pairwise_cons.mp hsorted).1 l' hl')

theorem descending_foldl_apply (levels : List Level) (s : BookSide) :
    (levels.foldl BookSide.apply s).descending = s.descending := by
  induction levels generalizing s with
  | nil => rfl
  | cons l levels ih => exact ih _

end BookSide

namespace VenueBook

/-- Bids from the highest price down, asks from the lowest up. -/
structure Sided (b : VenueBook) : Prop where
  bids : b.bids.descending = true
  asks : b.asks.descending = false

theorem sided_new : Sided .new := ⟨rfl, rfl⟩

theorem sided_installSnapshot (b : VenueBook) (id : UInt64) (bids asks : List Level) :
    (b.installSnapshot id bids asks).Sided :=
  ⟨BookSide.descending_foldl_apply bids _, BookSide.descending_foldl_apply asks _⟩

/-- An update that was not refused is what a delivery does. -/
theorem deliver_of_apply {b b' : VenueBook} {u : DepthUpdate} {applied : Applied}
    (h : b.apply u = .ok (applied, b')) (last : Option DepthUpdate) :
    (deliver (b, last) u).1 = b' := by
  unfold deliver
  dsimp only
  rw [h]
  cases applied with
  | updated => rfl
  | alreadyInSnapshot => rfl

theorem Sided.apply {b b' : VenueBook} {u : DepthUpdate} {applied : Applied} (hb : b.Sided)
    (h : b.apply u = .ok (applied, b')) : b'.Sided := by
  unfold VenueBook.apply at h
  split at h
  · cases h
  · obtain ⟨-, rfl⟩ := Prod.mk.inj (Except.ok.inj h)
    exact hb
  · obtain ⟨-, rfl⟩ := Prod.mk.inj (Except.ok.inj h)
    exact ⟨(BookSide.descending_foldl_apply ..).trans hb.bids,
      (BookSide.descending_foldl_apply ..).trans hb.asks⟩

/-- A depth is what the venue showed at the update a book has come to. -/
def At (us : List DepthUpdate) (start : Depth) (b : VenueBook) (d : Depth) : Prop :=
  match b.lastId with
  | none => ∃ k id, b.snapshotId = some id ∧ SnapshotAt start us k id d
  | some finalId => ∃ (i : Nat) (u : DepthUpdate), us[i]? = some u ∧ u.finalId = finalId ∧
    d = start.afterAll (us.take (i + 1))

/-- A book that was joined to a snapshot of the venue. -/
def Rebuilt (us : List DepthUpdate) (start : Depth) (b : VenueBook) : Prop :=
  ∃ k id shown last, SnapshotAt start us k id shown ∧ Truthful us start shown id (b, last)

variable {us : List DepthUpdate} {start : Depth}

theorem rebuilt_installSnapshot (b : VenueBook) {k : Nat} {id : UInt64} {bids asks : List Level}
    (h : SnapshotAt start us k id (.ofLevels bids asks)) :
    Rebuilt us start (b.installSnapshot id bids asks) :=
  ⟨k, id, _, none, h, rfl, rfl, _, shows_installSnapshot b id bids asks, rfl⟩

theorem Rebuilt.apply (hchain : UpdateChain us) {b b' : VenueBook} {u : DepthUpdate}
    {applied : Applied} (hb : Rebuilt us start b) (hu : u ∈ us)
    (h : b.apply u = .ok (applied, b')) :
    Rebuilt us start b' := by
  obtain ⟨k, id, shown, last, hsnapshot, htruthful⟩ := hb
  refine ⟨k, id, shown, (deliver (b, last) u).2, hsnapshot, ?_⟩
  rw [← deliver_of_apply h last]
  exact htruthful.deliver hchain hsnapshot hu

/-- **What a rebuilt book shows** is what the venue showed. -/
theorem Rebuilt.at_ {b : VenueBook} (h : Rebuilt us start b) :
    ∃ d, b.Shows d ∧ b.At us start d := by
  obtain ⟨k, id, shown, last, hsnapshot, hid, hlast, d, hshows, htruth⟩ := h
  refine ⟨d, hshows, ?_⟩
  unfold At
  simp only at hlast hid
  rw [hlast]
  cases last with
  | none =>
    obtain rfl : d = shown := htruth
    exact ⟨k, id, hid, hsnapshot⟩
  | some u =>
    obtain ⟨i, hi, hd⟩ := htruth
    exact ⟨i, u, hi, rfl, hd⟩

end VenueBook

namespace Aggregator

/-! ## What is fed -/

variable {us : List DepthUpdate} {start : Depth}

/-- A snapshot is one of the venue's. -/
def TrueSnapshot (us : List DepthUpdate) (start : Depth) (s : DepthSnapshot) : Prop :=
  ∃ k, SnapshotAt start us k s.lastUpdateId (.ofLevels s.bids s.asks)

/-- Updates are of the chain, and snapshots the venue's. -/
def Op.Fed (us : List DepthUpdate) (start : Depth) : Op → Prop
  | .depth _ _ u => u ∈ us
  | .snapshot _ _ s => TrueSnapshot us start s
  | .install s => TrueSnapshot us start s
  | _ => True

/-- Whether the book was built from nothing, after an event. -/
def builtAfter (a : Aggregator) (built : Bool) : Op → Bool
  | .depth _ _ u =>
    if a.snapshots then built
    else if a.bootstrapped then
      match a.book.apply u with
      | .ok _ => built
      | .error _ => true
    else true
  | .gap _ _ => false
  | .snapshot _ _ _ => false
  | .install s =>
    match (a.installSnapshot s).2 with
    | .ok () => false
    | .error _ => built
  | .dropBook => false
  | _ => built

/-- What every event keeps. -/
structure Trusted (us : List DepthUpdate) (start : Depth) (a : Aggregator) (built : Bool) :
    Prop where
  waiting : a.bootstrapped = false → a.bid = 0 ∧ a.ask = 0
  ready : a.bootstrapped = true →
    a.pending = [] ∧ a.bid = a.book.bids.bestPrice ∧ a.ask = a.book.asks.bestPrice
  held : ∀ u ∈ a.pending, u ∈ us
  idle : a.snapshots = false → a.pending = []
  rebuilt : a.bootstrapped = true → built = false → a.book.Rebuilt us start
  sided : a.book.Sided

/-- What the quotes are made of, without the windows. -/
def shelf (a : Aggregator) : VenueBook × Bool × Int64 × Int64 × List DepthUpdate × Bool :=
  (a.book, a.bootstrapped, a.bid, a.ask, a.pending, a.snapshots)

variable {a : Aggregator} {built : Bool}

theorem Trusted.of_shelf {a' : Aggregator} (h : Trusted us start a built)
    (hshelf : a'.shelf = a.shelf) :
    Trusted us start a' built := by
  simp only [shelf, Prod.mk.injEq] at hshelf
  obtain ⟨hbook, hbootstrapped, hbid, hask, hpending, hsnapshots⟩ := hshelf
  constructor
  · rw [hbootstrapped, hbid, hask]
    exact h.waiting
  · rw [hbootstrapped, hbid, hask, hbook, hpending]
    exact h.ready
  · rw [hpending]
    exact h.held
  · rw [hpending, hsnapshots]
    exact h.idle
  · rw [hbootstrapped, hbook]
    exact h.rebuilt
  · rw [hbook]
    exact h.sided

/-! ## The clock -/

theorem shelf_roll (a : Aggregator) (at_ local_ : Int64) :
    (a.roll at_ local_).1.shelf = a.shelf := by
  unfold Aggregator.roll
  cases a.open_ with
  | none => rfl
  | some w => dsimp only; split_ifs <;> rfl

theorem quotes_publish (a : Aggregator) (w : Window) :
    ∀ t ∈ (a.publish w).2, t.bid = a.bid ∧ t.ask = a.ask := by
  intro t ht
  unfold Aggregator.publish at ht
  dsimp only at ht
  split at ht
  · cases ht
  · obtain rfl := Option.some.inj ht
    exact ⟨rfl, rfl⟩

/-- A window is closed with the quotes there are. -/
theorem quotes_roll (a : Aggregator) (at_ local_ : Int64) :
    ∀ t ∈ (a.roll at_ local_).2, t.bid = a.bid ∧ t.ask = a.ask := by
  unfold Aggregator.roll
  cases a.open_ with
  | none => exact fun t ht => nomatch ht
  | some w =>
    dsimp only
    split_ifs with hlate hsame hsame
    · exact fun t ht => nomatch ht
    · exact quotes_publish { a with
        counts := { a.counts with outOfOrder := a.counts.outOfOrder + 1 } } w
    · exact fun t ht => nomatch ht
    · exact quotes_publish { a with highWater := at_ } w

theorem quotes_flush (a : Aggregator) : ∀ t ∈ a.flush.2, t.bid = a.bid ∧ t.ask = a.ask := by
  unfold Aggregator.flush
  cases a.open_ with
  | none => exact fun t ht => nomatch ht
  | some w => exact quotes_publish a w

/-- **A tick has the quotes** there were before the event that published it. -/
theorem quotes_step (a : Aggregator) (op : Op) :
    ∀ t ∈ (a.step op).2, t.bid = a.bid ∧ t.ask = a.ask := by
  cases op with
  | trade at_ local_ t => exact quotes_roll a at_ local_
  | depth at_ local_ u => exact quotes_roll a at_ local_
  | gap at_ local_ => exact quotes_roll a at_ local_
  | snapshot at_ local_ s => exact quotes_roll a at_ local_
  | advance at_ local_ => exact quotes_roll a at_ local_
  | flush => exact quotes_flush a
  | expectSnapshots => exact fun t ht => nomatch ht
  | install s => exact fun t ht => nomatch ht
  | dropBook => exact fun t ht => nomatch ht

/-! ## The book -/

theorem trusted_new {windowNs : Int64} (ha : new windowNs = .ok a) : Trusted us start a false := by
  unfold new at ha
  split at ha
  · obtain rfl := Except.ok.inj ha
    exact ⟨fun _ => ⟨rfl, rfl⟩, fun h => (nomatch h), List.forall_mem_nil _, fun _ => rfl, fun h =>
      (nomatch h),
      VenueBook.sided_new⟩
  · cases ha

/-- Reading the top of a book that is ready. -/
theorem trusted_readTop (hbootstrapped : a.bootstrapped = true) (hpending : a.pending = [])
    (hsided : a.book.Sided) (hrebuilt : built = false → a.book.Rebuilt us start) :
    Trusted us start a.readTop built := by
  refine ⟨fun hnot => ?_, fun _ => ⟨hpending, rfl, rfl⟩, ?_, fun _ => hpending, fun _ => hrebuilt,
    hsided⟩
  · cases hbootstrapped.symm.trans hnot
  · rw [show a.readTop.pending = a.pending from rfl, hpending]
    exact List.forall_mem_nil _

theorem trusted_dropBook (a : Aggregator) (built : Bool) : Trusted us start a.dropBook built :=
  ⟨fun _ => ⟨rfl, rfl⟩, fun h => (nomatch h), List.forall_mem_nil _, fun _ => rfl, fun h =>
    (nomatch h),
    VenueBook.sided_new⟩

/-- An update that waits is one of the chain. -/
theorem Trusted.hold (h : Trusted us start a built) (hwaits : a.bootstrapped = false)
    (hsnapshots : a.snapshots = true) {u : DepthUpdate} (hu : u ∈ us) (built' : Bool) :
    Trusted us start (a.hold u) built' := by
  refine ⟨h.waiting, fun hnot => (nomatch hwaits.symm.trans hnot), fun v hv => ?_,
    fun hnot => (nomatch hsnapshots.symm.trans hnot), fun hnot => (nomatch hwaits.symm.trans hnot),
    h.sided⟩
  unfold Aggregator.hold at hv
  rcases List.mem_append.mp hv with hv | hv
  · split at hv
    · exact h.held v (List.mem_of_mem_tail hv)
    · exact h.held v hv
  · rwa [List.mem_singleton.mp hv]

/-- **The updates that were held** are applied up to a break, and what is behind it stays held. -/
theorem applyHeld_cases (hchain : UpdateChain us) {book : VenueBook}
    (hrebuilt : book.Rebuilt us start)
    (hsided : book.Sided) (applied : Nat) {pending : List DepthUpdate}
    (hpending : ∀ u ∈ pending, u ∈ us)
    (last : Option DepthUpdate) :
    (∃ book' n, applyHeld book applied pending = (.ok book', n, []) ∧ book'.Rebuilt us start ∧
      book'.Sided) ∨
    ∃ e n taken u rest, applyHeld book applied pending = (.error e, n, u :: rest) ∧
      pending = taken ++ u :: rest ∧ (taken.foldl VenueBook.deliver (book, last)).1.apply u =
      .error e := by
  induction pending generalizing book applied last with
  | nil => exact .inl ⟨book, applied, rfl, hrebuilt, hsided⟩
  | cons u pending ih =>
    rw [List.forall_mem_cons] at hpending
    unfold applyHeld
    cases hu : book.apply u with
    | error e => exact .inr ⟨e, applied, [], u, pending, rfl, rfl, hu⟩
    | ok p =>
      obtain ⟨how, book'⟩ := p
      have hrebuilt' := hrebuilt.apply hchain hpending.1 hu
      have hstep : VenueBook.deliver (book, last) u =
        (book', (VenueBook.deliver (book, last) u).2) :=
        Prod.ext (VenueBook.deliver_of_apply hu last) rfl
      have hrest := fun n => ih hrebuilt' (hsided.apply hu) n hpending.2
        (VenueBook.deliver (book, last) u).2
      have hlift : ∀ {n : Nat}, (∃ e m taken v rest, applyHeld book' n pending =
        (.error e, m, v :: rest) ∧
          pending = taken ++ v :: rest ∧ (taken.foldl VenueBook.deliver
            (book', (VenueBook.deliver (book, last) u).2)).1.apply v = .error e) →
          ∃ e m taken v rest, applyHeld book' n pending = (.error e, m, v :: rest) ∧
            u :: pending = taken ++ v :: rest ∧
              (taken.foldl VenueBook.deliver (book, last)).1.apply v = .error e := by
        rintro n ⟨e, m, taken, v, rest, heq, hsplit, hbreak⟩
        refine ⟨e, m, u :: taken, v, rest, heq, congrArg (u :: ·) hsplit, ?_⟩
        rwa [List.foldl_cons, hstep]
      cases how with
      | updated => exact (hrest (applied + 1)).imp_right hlift
      | alreadyInSnapshot => exact (hrest applied).imp_right hlift

/-- **A snapshot that is installed** is joined to what was held, or the book goes on waiting with
the updates from the break on. -/
theorem installed_cases (hchain : UpdateChain us) (h : Trusted us start a built) {s : DepthSnapshot}
    (hs : TrueSnapshot us start s) :
    ((a.installSnapshot s).2 = .ok () ∧ (a.installSnapshot s).1.bootstrapped = true ∧
      (a.installSnapshot s).1.snapshots = a.snapshots ∧
      ∀ built', Trusted us start (a.installSnapshot s).1 built') ∨
    ∃ e taken u rest, (a.installSnapshot s).2 = .error e ∧
      (a.installSnapshot s).1.needsSnapshot = true ∧
      Trusted us start (a.installSnapshot s).1 built ∧ a.pending = taken ++ u :: rest ∧
      (a.installSnapshot s).1.pending = u :: rest ∧
      (taken.foldl VenueBook.deliver
        (a.book.installSnapshot s.lastUpdateId s.bids s.asks, none)).1.apply u = .error e := by
  obtain ⟨k, hsnapshot⟩ := hs
  have hrebuilt := VenueBook.rebuilt_installSnapshot a.book hsnapshot
  have hsided := VenueBook.sided_installSnapshot a.book s.lastUpdateId s.bids s.asks
  rcases applyHeld_cases hchain hrebuilt hsided a.counts.depthApplied h.held none with
    ⟨book, n, heq, hbook, hbookSided⟩ | ⟨e, n, taken, u, rest, heq, hsplit, hbreak⟩
  · left
    unfold installSnapshot
    dsimp only
    rw [heq]
    exact ⟨rfl, rfl, rfl, fun built' => trusted_readTop rfl rfl hbookSided fun _ => hbook⟩
  · right
    have hwaits : a.bootstrapped = false := by
      by_contra hready
      have hnone := (h.ready (Bool.not_eq_false _ ▸ hready)).1
      rw [hnone] at hsplit
      exact absurd hsplit.symm (List.append_ne_nil_of_right_ne_nil taken (List.cons_ne_nil u rest))
    refine ⟨e, taken, u, rest, ?_⟩
    unfold installSnapshot
    dsimp only
    rw [heq]
    have hexpecting : a.snapshots = true := by
      by_contra hnot
      rw [h.idle (Bool.eq_false_iff.mpr hnot)] at hsplit
      exact absurd hsplit.symm (List.append_ne_nil_of_right_ne_nil taken (List.cons_ne_nil u rest))
    have hneeds : a.needsSnapshot = true := by
      rw [needsSnapshot, hexpecting, hwaits]
      rfl
    refine ⟨rfl, hneeds, ⟨h.waiting, fun hready => (nomatch hwaits.symm.trans hready),
      fun v hv => ?_,
      fun hnot => (nomatch hexpecting.symm.trans hnot), fun hready =>
        (nomatch hwaits.symm.trans hready), VenueBook.sided_new⟩, hsplit, rfl, hbreak⟩
    refine h.held v ?_
    rw [hsplit]
    exact List.mem_append_right taken hv

theorem sided_bootstrap (u : DepthUpdate) (book : VenueBook) : (bootstrap u book).Sided :=
  VenueBook.sided_installSnapshot ..

/-- **An update** that is taken. -/
theorem Trusted.takeDepth (hchain : UpdateChain us) (h : Trusted us start a built) {u : DepthUpdate}
    (hu : u ∈ us) (at_ local_ : Int64) :
    Trusted us start (a.takeDepth u) (a.builtAfter built (.depth at_ local_ u)) := by
  unfold Aggregator.takeDepth builtAfter
  by_cases hsnapshots : a.snapshots = true
  · simp only [if_pos hsnapshots]
    by_cases hbootstrapped : a.bootstrapped = true
    · rw [if_pos hbootstrapped]
      cases hbook : a.book.apply u with
      | error e =>
        let broken : Aggregator :=
          { a with counts := { a.counts with resyncs := a.counts.resyncs + 1 } }
        exact (trusted_dropBook broken built).hold rfl hsnapshots hu built
      | ok p =>
        refine trusted_readTop hbootstrapped (h.ready hbootstrapped).1
          (h.sided.apply hbook) fun hbuilt => ?_
        exact (h.rebuilt hbootstrapped hbuilt).apply hchain hu hbook
    · rw [if_neg hbootstrapped]
      exact h.hold (Bool.eq_false_iff.mpr hbootstrapped) hsnapshots hu built
  · -- books start from nothing, and one that was joined to a snapshot goes on
    have hidle := h.idle (Bool.eq_false_iff.mpr hsnapshots)
    rw [if_neg hsnapshots]
    simp only [if_neg hsnapshots]
    have hnothing : ∀ {book : VenueBook}, book.Sided →
        Trusted us start ({ a with bootstrapped := true }.applied book) true :=
      fun hsided => trusted_readTop rfl hidle hsided fun hbuilt => by cases hbuilt
    by_cases hbootstrapped : a.bootstrapped = true
    · simp only [if_pos hbootstrapped]
      cases hbook : a.book.apply u with
      | error e =>
        simp only
        split
        · rename_i hfirst
          exact hnothing ((sided_bootstrap u _).apply hfirst)
        · exact hnothing (sided_bootstrap u _)
      | ok p =>
        refine trusted_readTop rfl hidle (h.sided.apply hbook) fun hbuilt => ?_
        exact (h.rebuilt hbootstrapped hbuilt).apply hchain hu hbook
    · simp only [if_neg hbootstrapped]
      cases hbook : (bootstrap u a.book).apply u with
      | error e =>
        simp only
        split
        · rename_i hfirst
          exact hnothing ((sided_bootstrap u _).apply hfirst)
        · exact hnothing (sided_bootstrap u _)
      | ok p => exact hnothing ((sided_bootstrap u _).apply hbook)

theorem trusted_takeSnapshot (a : Aggregator) {s : DepthSnapshot} (hs : TrueSnapshot us start s)
    (built : Bool) : Trusted us start (a.takeSnapshot s) built := by
  obtain ⟨k, hsnapshot⟩ := hs
  exact trusted_readTop rfl rfl (VenueBook.sided_installSnapshot a.book ..) fun _ =>
    VenueBook.rebuilt_installSnapshot a.book hsnapshot

theorem Trusted.expectSnapshots (h : Trusted us start a built) :
    Trusted us start a.expectSnapshots built := by
  have hbook : a.expectSnapshots.book = if a.bootstrapped then a.book else .new := rfl
  have hkept : a.bootstrapped = true → a.expectSnapshots.book = a.book :=
    fun hready => if_pos hready
  refine ⟨h.waiting, fun hready => ?_, h.held, fun hnot => (nomatch hnot), fun hready hbuilt =>
    ?_, ?_⟩
  · rw [hkept hready]
    exact h.ready hready
  · rw [hkept hready]
    exact h.rebuilt hready hbuilt
  · rw [hbook]
    split
    · exact h.sided
    · exact VenueBook.sided_new

/-- **Every event.** -/
theorem Trusted.step (hchain : UpdateChain us) (h : Trusted us start a built) {op : Op}
    (hop : op.Fed us start) : Trusted us start (a.step op).1 (a.builtAfter built op) := by
  have hrolled := fun at_ local_ => h.of_shelf (shelf_roll a at_ local_)
  cases op with
  | trade at_ local_ t => exact (hrolled at_ local_).of_shelf rfl
  | depth at_ local_ u =>
    have htaken := (hrolled at_ local_).takeDepth hchain hop at_ local_
    have hshelf := shelf_roll a at_ local_
    simp only [shelf, Prod.mk.injEq] at hshelf
    obtain ⟨hbook, hbootstrapped, -, -, -, hsnapshots⟩ := hshelf
    have hbuilt : (a.roll at_ local_).1.builtAfter built (.depth at_ local_ u) =
        a.builtAfter built (.depth at_ local_ u) := by
      unfold builtAfter
      rw [hbook, hbootstrapped, hsnapshots]
    rwa [hbuilt] at htaken
  | gap at_ local_ => exact trusted_dropBook _ _
  | snapshot at_ local_ s => exact trusted_takeSnapshot _ hop _
  | advance at_ local_ => exact hrolled at_ local_
  | flush =>
    refine h.of_shelf ?_
    unfold Aggregator.step Aggregator.flush
    cases a.open_ with
    | none => rfl
    | some w => rfl
  | expectSnapshots => exact h.expectSnapshots
  | install s =>
    rcases installed_cases hchain h hop with ⟨-, -, -, hall⟩ | ⟨e, taken, u, rest, hres, -,
      hsame, -⟩
    · exact hall _
    · have hbuilt : a.builtAfter built (.install s) = built := by
        unfold builtAfter
        simp only [hres]
      rw [hbuilt]
      exact hsame
  | dropBook => exact trusted_dropBook _ _

/-! ## Runs -/

/-- Snapshots are asked for. -/
def Op.Expects : Op → Prop
  | .expectSnapshots => True
  | .snapshot _ _ _ => True
  | _ => False

/-- Whether the book was built from nothing, after a run. -/
def builtAfterAll : Aggregator → Bool → List Op → Bool
  | _, built, [] => built
  | a, built, op :: ops => builtAfterAll (a.step op).1 (a.builtAfter built op) ops

/-- A run in which snapshots are not asked for while there is a book that was built from nothing. -/
def Asks : Aggregator → Bool → List Op → Prop
  | _, _, [] => True
  | a, built, op :: ops =>
    (op = .expectSnapshots → a.bootstrapped = true → built = false) ∧
      Asks (a.step op).1 (a.builtAfter built op) ops

theorem Trusted.run (hchain : UpdateChain us) (h : Trusted us start a built) {ops : List Op}
    (hops : ∀ op ∈ ops, op.Fed us start) : Trusted us start (a.run ops)
    (a.builtAfterAll built ops) := by
  induction ops generalizing a built with
  | nil => exact h
  | cons op ops ih =>
    rw [List.forall_mem_cons] at hops
    exact ih (h.step hchain hops.1) hops.2

theorem snapshots_takeDepth (a : Aggregator) (u : DepthUpdate) :
    (a.takeDepth u).snapshots = a.snapshots := by
  unfold takeDepth
  split
  · split
    · split
      · rfl
      · rfl
    · rfl
  · dsimp only
    split
    · rfl
    · split
      · rfl
      · rfl

theorem snapshots_roll (a : Aggregator) (at_ local_ : Int64) :
    (a.roll at_ local_).1.snapshots = a.snapshots ∧
    (a.roll at_ local_).1.bootstrapped = a.bootstrapped ∧
      (a.roll at_ local_).1.book = a.book := by
  have hshelf := shelf_roll a at_ local_
  simp only [shelf, Prod.mk.injEq] at hshelf
  exact ⟨hshelf.2.2.2.2.2, hshelf.2.1, hshelf.1⟩

theorem snapshots_installSnapshot (a : Aggregator) (s : DepthSnapshot) :
    (a.installSnapshot s).1.snapshots = a.snapshots := by
  unfold installSnapshot
  dsimp only
  split
  · rfl
  · rfl

/-- Snapshots that were asked for stay asked for. -/
theorem snapshots_step {op : Op} (h : a.snapshots = true ∨ op.Expects) :
    (a.step op).1.snapshots = true := by
  cases op with
  | trade at_ local_ t => exact (snapshots_roll a at_ local_).1.trans (h.resolve_right id)
  | depth at_ local_ u =>
    exact ((snapshots_takeDepth _ u).trans (snapshots_roll a at_ local_).1).trans
      (h.resolve_right id)
  | gap at_ local_ => exact (snapshots_roll a at_ local_).1.trans (h.resolve_right id)
  | snapshot at_ local_ s => rfl
  | advance at_ local_ => exact (snapshots_roll a at_ local_).1.trans (h.resolve_right id)
  | flush =>
    unfold Aggregator.step Aggregator.flush
    cases a.open_ with
    | none => exact h.resolve_right id
    | some w => exact h.resolve_right id
  | expectSnapshots => rfl
  | install s => exact (snapshots_installSnapshot a s).trans (h.resolve_right id)
  | dropBook => exact h.resolve_right id

theorem snapshots_run {ops : List Op} (h : a.snapshots = true ∨ ∃ op ∈ ops, op.Expects) :
    (a.run ops).snapshots = true := by
  induction ops generalizing a with
  | nil => exact h.resolve_right fun ⟨op, hop, _⟩ => nomatch hop
  | cons op ops ih =>
    refine ih ?_
    rcases h with h | ⟨op', hop', hexpects⟩
    · exact .inl (snapshots_step (.inl h))
    · rcases List.mem_cons.mp hop' with rfl | hop'
      · exact .inl (snapshots_step (.inr hexpects))
      · exact .inr ⟨op', hop', hexpects⟩

/-- With snapshots asked for, a book that is there was joined to one. -/
def Grounded (a : Aggregator) (built : Bool) : Prop :=
  a.snapshots = true → a.bootstrapped = true → built = false

/-- A refused update or a hold leaves no book. -/
theorem bootstrapped_takeDepth {u : DepthUpdate} (hsnapshots : a.snapshots = true)
    (h : (a.takeDepth u).bootstrapped = true) : a.bootstrapped = true := by
  by_contra hwaits
  unfold takeDepth at h
  rw [if_pos hsnapshots, if_neg hwaits] at h
  exact hwaits h

theorem Grounded.step (hchain : UpdateChain us) (htrusted : Trusted us start a built)
    (h : a.Grounded built) {op : Op} (hop : op.Fed us start)
    (hasks : op = .expectSnapshots → a.bootstrapped = true → built = false) :
    (a.step op).1.Grounded (a.builtAfter built op) := by
  cases op with
  | trade at_ local_ t =>
    obtain ⟨hsnapshots, hbootstrapped, -⟩ := snapshots_roll a at_ local_
    exact fun hexpecting hready => h (hsnapshots ▸ hexpecting) (hbootstrapped ▸ hready)
  | depth at_ local_ u =>
    intro hexpecting hready
    obtain ⟨hsnapshots, hbootstrapped, -⟩ := snapshots_roll a at_ local_
    have hwas : (a.roll at_ local_).1.snapshots = true :=
      (snapshots_takeDepth _ u).symm.trans hexpecting
    have hbuilt := h (hsnapshots.symm.trans hwas)
      (hbootstrapped.symm.trans (bootstrapped_takeDepth hwas hready))
    unfold builtAfter
    simp only [if_pos (hsnapshots.symm.trans hwas)]
    exact hbuilt
  | gap at_ local_ => exact fun _ _ => rfl
  | snapshot at_ local_ s => exact fun _ _ => rfl
  | advance at_ local_ =>
    obtain ⟨hsnapshots, hbootstrapped, -⟩ := snapshots_roll a at_ local_
    exact fun hexpecting hready => h (hsnapshots ▸ hexpecting) (hbootstrapped ▸ hready)
  | flush =>
    unfold Aggregator.step Aggregator.flush
    cases a.open_ with
    | none => exact h
    | some w => exact h
  | expectSnapshots => exact fun _ hready => hasks rfl hready
  | install s =>
    rcases installed_cases hchain htrusted hop with ⟨hres, -⟩ | ⟨e, taken, u, rest, hres, hneeds, -⟩
    · intro _ _
      unfold builtAfter
      simp only [hres]
    · intro _ hready
      have hwaits : (!(a.installSnapshot s).1.bootstrapped) = true :=
        (Bool.and_eq_true_iff.mp hneeds).2
      rw [show (a.installSnapshot s).1.bootstrapped = true from hready] at hwaits
      cases hwaits
  | dropBook => exact fun _ _ => rfl

theorem Grounded.run (hchain : UpdateChain us) (htrusted : Trusted us start a built)
    (h : a.Grounded built) {ops : List Op} (hops : ∀ op ∈ ops, op.Fed us start)
    (hasks : a.Asks built ops) :
    (a.run ops).Grounded (a.builtAfterAll built ops) := by
  induction ops generalizing a built with
  | nil => exact h
  | cons op ops ih =>
    rw [List.forall_mem_cons] at hops
    exact ih (htrusted.step hchain hops.1) (h.step hchain htrusted hops.1 hasks.1) hops.2 hasks.2

theorem asks_of_append {ops rest : List Op} (h : a.Asks built (ops ++ rest)) :
    a.Asks built ops := by
  induction ops generalizing a built with
  | nil => trivial
  | cons op ops ih => exact ⟨h.1, ih h.2⟩

/-! ### Waiting for a snapshot -/

/-- A snapshot is joined. -/
def Op.Joins (op : Op) (a : Aggregator) : Prop :=
  match op with
  | .snapshot _ _ _ => True
  | .install s => (a.installSnapshot s).2 = .ok ()
  | _ => False

/-- A run in which none is. -/
def Unjoined : Aggregator → List Op → Prop
  | _, [] => True
  | a, op :: ops => ¬ op.Joins a ∧ Unjoined (a.step op).1 ops

/-- The chain breaks: a gap, a lost stream, or an update that is refused. -/
def Op.Breaks (op : Op) (a : Aggregator) : Prop :=
  match op with
  | .gap _ _ => True
  | .dropBook => True
  | .depth _ _ u => a.bootstrapped = true ∧ ∃ e, a.book.apply u = .error e
  | _ => False

theorem needs_iff : a.needsSnapshot = true ↔ a.snapshots = true ∧ a.bootstrapped = false := by
  rw [needsSnapshot, Bool.and_eq_true, Bool.not_eq_true']

/-- **After a break** the book waits. -/
theorem needs_of_breaks (hsnapshots : a.snapshots = true) {op : Op} (hop : op.Breaks a) :
    (a.step op).1.needsSnapshot = true := by
  refine needs_iff.mpr ⟨snapshots_step (.inl hsnapshots), ?_⟩
  cases op with
  | gap at_ local_ => rfl
  | dropBook => rfl
  | depth at_ local_ u =>
    obtain ⟨hready, e, hrefused⟩ := hop
    obtain ⟨hexpecting, hbootstrapped, hbook⟩ := snapshots_roll a at_ local_
    show ((a.roll at_ local_).1.takeDepth u).bootstrapped = false
    unfold takeDepth
    rw [if_pos (hexpecting.trans hsnapshots), if_pos (hbootstrapped.trans hready), hbook, hrefused]
    rfl
  | trade | snapshot | advance | flush | expectSnapshots | install => exact hop.elim

/-- **Until a snapshot is joined** it goes on waiting. -/
theorem needs_step (hchain : UpdateChain us) (htrusted : Trusted us start a built)
    (h : a.needsSnapshot = true) {op : Op} (hop : op.Fed us start) (hjoins : ¬ op.Joins a) :
    (a.step op).1.needsSnapshot = true := by
  obtain ⟨hsnapshots, hwaits⟩ := needs_iff.mp h
  refine needs_iff.mpr ⟨snapshots_step (.inl hsnapshots), ?_⟩
  cases op with
  | trade at_ local_ t => exact (snapshots_roll a at_ local_).2.1.trans hwaits
  | depth at_ local_ u =>
    obtain ⟨hexpecting, hbootstrapped, -⟩ := snapshots_roll a at_ local_
    by_contra hready
    have hwas := bootstrapped_takeDepth (hexpecting.trans hsnapshots) (Bool.not_eq_false _ ▸ hready)
    cases hwas.symm.trans (hbootstrapped.trans hwaits)
  | gap at_ local_ => rfl
  | snapshot at_ local_ s => exact absurd trivial hjoins
  | advance at_ local_ => exact (snapshots_roll a at_ local_).2.1.trans hwaits
  | flush =>
    unfold Aggregator.step Aggregator.flush
    cases a.open_ with
    | none => exact hwaits
    | some w => exact hwaits
  | expectSnapshots => exact hwaits
  | install s =>
    rcases installed_cases hchain htrusted hop with ⟨hres, -⟩ | ⟨e, taken, u, rest, -, hneeds, -⟩
    · exact absurd hres hjoins
    · exact (needs_iff.mp hneeds).2
  | dropBook => rfl

/-- **What is published meanwhile** has no quotes. -/
theorem unquoted (hchain : UpdateChain us) (htrusted : Trusted us start a built)
    (h : a.needsSnapshot = true) {ops : List Op} (hops : ∀ op ∈ ops, op.Fed us start)
    (hjoins : a.Unjoined ops) : ∀ t ∈ a.published ops, t.bid = 0 ∧ t.ask = 0 := by
  induction ops generalizing a built with
  | nil => exact List.forall_mem_nil _
  | cons op ops ih =>
    rw [List.forall_mem_cons] at hops
    intro t ht
    rcases List.mem_append.mp ht with ht | ht
    · obtain ⟨hbid, hask⟩ := quotes_step a op t (Option.mem_toList.mp ht)
      obtain ⟨hnobid, hnoask⟩ := htrusted.waiting (needs_iff.mp h).2
      exact ⟨hbid.trans hnobid, hask.trans hnoask⟩
    · exact ih (htrusted.step hchain hops.1) (needs_step hchain htrusted h hops.1 hjoins.1) hops.2
        hjoins.2 t ht

/-- **The top of book is never wrong.**  Once snapshots are asked for, and not while there is a
book that was built from nothing: every tick has the venue's best prices at the update the book
has come to, or none while the book waits; after a break it waits until a snapshot is joined; and
a snapshot that cannot be joined leaves it waiting, with the updates from the break on. -/
theorem quotes_never_wrong (hchain : UpdateChain us) {windowNs : Int64} (ha : new windowNs = .ok a)
    {ops : List Op} (hops : ∀ op ∈ ops, op.Fed us start) (hasks : a.Asks false ops) :
    (∀ before op after, ops = before ++ op :: after → (∃ e ∈ before, e.Expects) →
      ∀ t ∈ ((a.run before).step op).2,
        ((a.run before).needsSnapshot = true → t.bid = 0 ∧ t.ask = 0) ∧
        ((a.run before).needsSnapshot = false → ∃ d, (a.run before).book.At us start d ∧
          Best true d.bids t.bid ∧ Best false d.asks t.ask)) ∧
    (∀ before op rest later, ops = before ++ op :: (rest ++ later) → (∃ e ∈ before, e.Expects) →
      op.Breaks (a.run before) → Unjoined ((a.run before).step op).1 rest →
        ((a.run before).step op).1.needsSnapshot = true ∧
          ∀ t ∈ ((a.run before).step op).1.published rest, t.bid = 0 ∧ t.ask = 0) ∧
    ∀ before s after e, ops = before ++ .install s :: after →
      ((a.run before).installSnapshot s).2 = .error e →
        ((a.run before).installSnapshot s).1.needsSnapshot = true ∧
          ∃ taken u rest, (a.run before).pending = taken ++ u :: rest ∧
            ((a.run before).installSnapshot s).1.pending = u :: rest ∧
            (taken.foldl VenueBook.deliver ((a.run before).book.installSnapshot s.lastUpdateId
              s.bids s.asks, none)).1.apply u = .error e := by
  have hrun : ∀ before after, ops = before ++ after →
      Trusted us start (a.run before) (a.builtAfterAll false before) ∧
        (a.run before).Grounded (a.builtAfterAll false before) := by
    rintro before after rfl
    have hbefore : ∀ op ∈ before, op.Fed us start :=
      fun op hop => hops op (List.mem_append_left _ hop)
    have hnew : Trusted us start a false := trusted_new ha
    exact ⟨hnew.run hchain hbefore, Grounded.run hchain hnew (fun _ _ => rfl) hbefore
      (asks_of_append hasks)⟩
  refine ⟨?_, ?_, ?_⟩
  · -- what is quoted with a tick is the book before it
    rintro before op after hsplit hexpects t ht
    obtain ⟨htrusted, hgrounded⟩ := hrun before _ hsplit
    have hsnapshots : (a.run before).snapshots = true := snapshots_run (.inr hexpects)
    obtain ⟨hbid, hask⟩ := quotes_step _ op t ht
    rw [hbid, hask]
    refine ⟨fun hneeds => htrusted.waiting (needs_iff.mp hneeds).2, fun hneeds => ?_⟩
    have hready : (a.run before).bootstrapped = true := by
      rw [needsSnapshot, hsnapshots, Bool.true_and, Bool.not_eq_false'] at hneeds
      exact hneeds
    obtain ⟨d, hshows, hat⟩ := (htrusted.rebuilt hready (hgrounded hsnapshots hready)).at_
    obtain ⟨-, hbids, hasks'⟩ := htrusted.ready hready
    refine ⟨d, hat, ?_, ?_⟩
    · rw [hbids, ← htrusted.sided.bids]
      exact hshows.bids.best
    · rw [hasks', ← htrusted.sided.asks]
      exact hshows.asks.best
  · -- after a break the book waits, and nothing is quoted from a book that waits
    rintro before op rest later hsplit hexpects hbreaks hjoins
    obtain ⟨htrusted, -⟩ := hrun before _ hsplit
    have hsnapshots : (a.run before).snapshots = true := snapshots_run (.inr hexpects)
    have hneeds := needs_of_breaks hsnapshots hbreaks
    have hfed : ∀ o ∈ op :: (rest ++ later), o.Fed us start := by
      intro o ho
      rw [hsplit] at hops
      exact hops o (List.mem_append_right _ ho)
    rw [List.forall_mem_cons] at hfed
    exact ⟨hneeds, unquoted hchain (htrusted.step hchain hfed.1) hneeds
      (fun o ho => hfed.2 o (List.mem_append_left _ ho)) hjoins⟩
  · rintro before s after e hsplit hrefused
    obtain ⟨htrusted, -⟩ := hrun before _ hsplit
    have hfed : TrueSnapshot us start s := by
      rw [hsplit] at hops
      exact hops _ (List.mem_append_right _ List.mem_cons_self)
    rcases installed_cases hchain htrusted hfed with ⟨hres, -⟩ |
      ⟨e', taken, u, rest, hres, hneeds, -, hrest⟩
    · cases hres.symm.trans hrefused
    · obtain rfl := Except.error.inj (hres.symm.trans hrefused)
      exact ⟨hneeds, taken, u, rest, hrest⟩

/-- A snapshot of the venue at id 5. -/
def atFive : DepthSnapshot := ⟨5, [⟨99, 1⟩, ⟨100, 7⟩], []⟩

/-- A trade in the first window, a snapshot, and a trade in the next one. -/
def joined : List Op :=
  [.expectSnapshots, .trade 1 1 ⟨100, 1, none⟩, .install atFive, .trade 12 12 ⟨100, 1, none⟩]

theorem quotes_never_wrong_joined : ∃ d,
    (ten.run (joined.take 3)).book.At VenueBook.twoUpdates (.ofLevels [⟨99, 1⟩] []) d ∧
      Best true d.bids 100 := by
  have hfed : ∀ op ∈ joined, op.Fed VenueBook.twoUpdates (.ofLevels [⟨99, 1⟩] []) := by
    intro op hop
    simp only [joined, List.mem_cons, List.not_mem_nil, or_false] at hop
    rcases hop with rfl | rfl | rfl | rfl
    · trivial
    · trivial
    · exact ⟨0, VenueBook.snapshotAt_twoUpdates⟩
    · trivial
  have hasks : ten.Asks false joined :=
    ⟨fun _ _ => rfl, fun h => (nomatch h), fun h => (nomatch h), fun h => (nomatch h), trivial⟩
  have hnew : new 10 = .ok ten := dif_pos (by decide)
  have hsplit : joined = joined.take 3 ++ .trade 12 12 ⟨100, 1, none⟩ :: [] := rfl
  have htick : ∃ t ∈ ((ten.run (joined.take 3)).step (.trade 12 12 ⟨100, 1, none⟩)).2,
    t.bid = 100 := by
    decide
  obtain ⟨t, ht, hbid⟩ := htick
  obtain ⟨d, hat, hbest, -⟩ := ((quotes_never_wrong VenueBook.updateChain_twoUpdates hnew hfed
    hasks).1
    _ _ _ hsplit ⟨.expectSnapshots, List.mem_cons_self, trivial⟩ t ht).2 (by decide)
  exact ⟨d, hat, hbid ▸ hbest⟩

/-- An update that only writes the asks of a venue that has a bid. -/
def oneAsk : DepthUpdate := ⟨0, 4, 6, some 3, [], [⟨101, 7⟩]⟩

/-- Snapshots are asked for behind the first update. -/
def late : List Op := [.trade 1 1 ⟨100, 1, none⟩, .depth 2 2 oneAsk, .expectSnapshots]

/-- **A book that was built from nothing** is kept when snapshots are asked for: the tick has no
bid, and the venue has one. -/
theorem kept_from_nothing : UpdateChain [oneAsk] ∧ (ten.run late).needsSnapshot = false ∧
    ∃ t ∈ ((ten.run late).step (.trade 12 12 ⟨100, 1, none⟩)).2, ¬ ∃ d,
      (ten.run late).book.At [oneAsk] (.ofLevels [⟨99, 1⟩] []) d ∧ Best true d.bids t.bid := by
  have htick : ∃ t ∈ ((ten.run late).step (.trade 12 12 ⟨100, 1, none⟩)).2, t.bid = 0 := by decide
  have hlast : (ten.run late).book.lastId = some 6 := by decide
  have hchain : UpdateChain [oneAsk] := by
    refine ⟨by decide, fun u hu p hp => ?_, List.isChain_singleton _⟩
    obtain rfl := List.mem_singleton.mp hu
    obtain rfl := Option.some.inj hp
    decide
  obtain ⟨t, ht, hbid⟩ := htick
  refine ⟨hchain, by decide, t, ht, ?_⟩
  rintro ⟨d, hat, hbest⟩
  unfold VenueBook.At at hat
  rw [hlast] at hat
  obtain ⟨i, u, hi, -, rfl⟩ := hat
  -- the venue shows a bid at 99 whichever update the book has come to
  have htake : [oneAsk].take (i + 1) = [oneAsk] := List.take_of_length_le (Nat.le_add_left 1 i)
  have hshown : (Depth.afterAll (.ofLevels [⟨99, 1⟩] []) [oneAsk]).bids =
      (Depth.ofLevels [⟨99, 1⟩] []).bids := rfl
  rw [htake, hshown, hbid] at hbest
  rcases hbest with ⟨hnone, -⟩ | ⟨hzero, -⟩
  · exact absurd (hnone 99) (by decide)
  · exact hzero (by decide)

end Aggregator
