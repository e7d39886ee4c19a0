/-
# A book side is a map from price to size (`Side` and `Book` of `oq-book/src/book.rs`)

`Shows` says which quantity a side has at each price.  Here the side is that map and
nothing else: its levels are the prices with something at them, best first, and its best
level, its depth and what a sweep takes are those of the map (`Shows.readsMap`).  Every
snapshot and every update a book takes writes over the map and does no more
(`Written.isMap`).

The source finds where a level goes by `position`, a binary search, and writes, inserts or
removes at the index found; that this is `setLevel` is `place_eq_setLevel`.
-/
import OpenQuanter.DepthChain
import OpenQuanter.DepthTake

namespace BookSide

/-! ## Where a level goes -/

/-- Where a price is, or where it would go: the first level that is not ahead of it. -/
def position (descending : Bool) (levels : List Level) (price : Int64) : Except Nat Nat :=
  let index := levels.findIdx fun l => ¬ aheadOf descending l.price price
  if (levels[index]?).any (·.price = price) then .ok index else .error index

/-- What is done at the index found. -/
def place (descending : Bool) (levels : List Level) (level : Level) : List Level :=
  match position descending levels level.price with
  | .ok index => if level.qty = 0 then levels.eraseIdx index else levels.set index level
  | .error index => if level.qty = 0 then levels else levels.insertIdx index level

theorem position_cons_ahead {descending : Bool} {l : Level} {price : Int64} (rest : List Level)
    (h : aheadOf descending l.price price) : position descending (l :: rest) price =
      match position descending rest price with
      | .ok index => .ok (index + 1)
      | .error index => .error (index + 1) := by
  have hindex : (l :: rest).findIdx (fun l => decide ¬ aheadOf descending l.price price)
      = rest.findIdx (fun l => decide ¬ aheadOf descending l.price price) + 1 := by
    rw [List.findIdx_cons, decide_eq_false (not_not.mpr h), cond_false]
  simp only [position, hindex, List.getElem?_cons_succ]
  split_ifs with hfound
  · rfl
  · rfl

theorem position_cons_behind {descending : Bool} {l : Level} {price : Int64} (rest : List Level)
    (h : ¬ aheadOf descending l.price price) :
    position descending (l :: rest) price = if l.price = price then .ok 0 else .error 0 := by
  have hindex : (l :: rest).findIdx (fun l => decide ¬ aheadOf descending l.price price) = 0 := by
    rw [List.findIdx_cons, decide_eq_true h, cond_true]
  simp only [position, hindex, List.getElem?_cons_zero, Option.any_some, decide_eq_true_eq]

/-- **The level is written where the search ends.** -/
theorem place_eq_setLevel (descending : Bool) (level : Level) (levels : List Level) :
    place descending levels level = setLevel descending level levels := by
  induction levels with
  | nil =>
    rw [place, setLevel]
    rfl
  | cons l rest ih =>
    rw [setLevel, ← ih]
    by_cases hahead : aheadOf descending l.price level.price
    · rw [if_pos hahead, place, position_cons_ahead rest hahead, place]
      cases position descending rest level.price with
      | ok index =>
        simp only [List.eraseIdx_cons_succ, List.set_cons_succ]
        split_ifs
        · rfl
        · rfl
      | error index =>
        simp only [List.insertIdx_succ_cons]
        split_ifs
        · rfl
        · rfl
    · rw [if_neg hahead, place, position_cons_behind rest hahead]
      by_cases hsame : l.price = level.price
      · simp only [if_pos hsame, List.eraseIdx_cons_zero, List.set_cons_zero]
      · simp only [if_neg hsame, List.insertIdx_zero]

/-! ## The map of a side -/

/-- The best price and quantity, if the side is not empty. -/
def best (s : BookSide) : Option Level := s.levels.head?

/-- Number of levels held. -/
def depth (s : BookSide) : Nat := s.levels.length

/-- A side is the map `q` from price to size: its levels are the prices with something at
them, in order, and what is read from it is read from the map.  `prices` are the prices
with something at them; a sweep takes the best prices first. -/
structure IsMap (descending : Bool) (q : Int64 → Int64) (s : BookSide) : Prop where
  levels : ∀ l, l ∈ s.levels ↔ q l.price = l.qty ∧ l.qty ≠ 0
  sorted : s.levels.Pairwise fun a b => aheadOf descending a.price b.price
  positive : ∀ l ∈ s.levels, 0 < l.qty
  best : ∀ l, s.best = some l ↔
    q l.price = l.qty ∧ l.qty ≠ 0 ∧ ∀ p, q p ≠ 0 → p = l.price ∨ aheadOf descending l.price p
  empty : s.best = none ↔ ∀ p, q p = 0
  reads : ∃ prices : Finset Int64, (∀ p, p ∈ prices ↔ q p ≠ 0) ∧ s.depth = prices.card ∧
    ∀ want : Int64,
      (s.sweep want).taken.toInt
        = (min want.toInt.toNat (∑ p ∈ prices, (q p).toInt.toNat) : ℕ) ∧
      (s.sweep want).cost = ∑ p ∈ prices, p.toInt *
        (BestFirst.part (aheadOf descending) prices (fun p => (q p).toInt.toNat)
          want.toInt.toNat p : ℕ) ∧
      ((s.sweep want).exhausted = true ↔
        ∑ p ∈ prices, (q p).toInt.toNat < want.toInt.toNat)

/-- In order, a level is what is found at its price. -/
theorem qtyIn_eq_iff {descending : Bool} {levels : List Level}
    (h : levels.Pairwise fun a b => aheadOf descending a.price b.price) {l : Level}
    (hne : l.qty ≠ 0) : qtyIn levels l.price = l.qty ↔ l ∈ levels := by
  induction levels with
  | nil => simp [qtyIn_nil, hne.symm]
  | cons a rest ih =>
    obtain ⟨ha, hrest⟩ := List.pairwise_cons.mp h
    rw [qtyIn_cons, List.mem_cons]
    split_ifs with hsame
    · constructor
      · intro hqty
        left
        cases l
        cases a
        simp_all
      · rintro (rfl | hl)
        · rfl
        · exact absurd hsame (ne_of_aheadOf (ha l hl))
    · rw [ih hrest]
      constructor
      · exact Or.inr
      · rintro (rfl | hl)
        · exact absurd rfl hsame
        · exact hl

theorem aheadOf_asymm {descending : Bool} {a b : Int64} (h : aheadOf descending a b) :
    ¬ aheadOf descending b a := fun h' => ne_of_aheadOf (aheadOf_trans h h') rfl

section Shown

variable {s : BookSide} {q : Int64 → Int64}

/-- A level of a side is what is shown at its price. -/
theorem Shows.mem_levels_iff (h : s.Shows q) (l : Level) :
    l ∈ s.levels ↔ q l.price = l.qty ∧ l.qty ≠ 0 := by
  rw [← h.qty]
  constructor
  · intro hl
    have hne := h.present l hl
    exact ⟨(qtyIn_eq_iff s.sorted hne).mpr hl, hne⟩
  · rintro ⟨hqty, hne⟩
    exact (qtyIn_eq_iff s.sorted hne).mp hqty

/-- The prices of a side are those with something at them. -/
theorem Shows.exists_price_iff (h : s.Shows q) (p : Int64) :
    (∃ l ∈ s.levels, l.price = p) ↔ q p ≠ 0 := by
  constructor
  · rintro ⟨l, hl, rfl⟩
    obtain ⟨hqty, hne⟩ := (h.mem_levels_iff l).mp hl
    rw [hqty]
    exact hne
  · intro hne
    exact ⟨⟨p, q p⟩, (h.mem_levels_iff ⟨p, q p⟩).mpr ⟨rfl, hne⟩, rfl⟩

theorem Shows.positive (h : s.Shows q) (hnonneg : ∀ p, 0 ≤ q p) : s.Positive := by
  intro l hl
  obtain ⟨hqty, hne⟩ := (h.mem_levels_iff l).mp hl
  have hle := hnonneg l.price
  rw [hqty] at hle
  exact Int64.lt_of_le_of_ne hle hne.symm

/-- The best level is the one no other price is ahead of. -/
theorem Shows.best_eq_some_iff (h : s.Shows q) (l : Level) :
    s.best = some l ↔
      q l.price = l.qty ∧ l.qty ≠ 0 ∧
        ∀ p, q p ≠ 0 → p = l.price ∨ aheadOf s.descending l.price p := by
  unfold best
  constructor
  · intro hbest
    obtain ⟨rest, hs⟩ := List.head?_eq_some_iff.mp hbest
    obtain ⟨hqty, hne⟩ := (h.mem_levels_iff l).mp (hs ▸ List.mem_cons_self)
    refine ⟨hqty, hne, ?_⟩
    intro p hp
    obtain ⟨l', hl', rfl⟩ := (h.exists_price_iff p).mpr hp
    rw [hs] at hl'
    rcases List.mem_cons.mp hl' with rfl | hl'
    · exact Or.inl rfl
    · exact Or.inr ((List.pairwise_cons.mp (hs ▸ s.sorted)).1 l' hl')
  · rintro ⟨hqty, hne, hfirst⟩
    have hl := (h.mem_levels_iff l).mpr ⟨hqty, hne⟩
    cases hs : s.levels with
    | nil => simp [hs] at hl
    | cons top rest =>
      have htop : q top.price = top.qty ∧ top.qty ≠ 0 :=
        (h.mem_levels_iff top).mp (hs ▸ List.mem_cons_self)
      rw [List.head?_cons, Option.some_inj]
      -- a level ahead of `l` would stand before it
      rcases hfirst top.price (htop.1 ▸ htop.2) with hsame | hahead
      · cases top
        cases l
        simp_all
      · rw [hs] at hl
        rcases List.mem_cons.mp hl with rfl | hl
        · rfl
        · exact absurd ((List.pairwise_cons.mp (hs ▸ s.sorted)).1 l hl) (aheadOf_asymm hahead)

theorem Shows.best_eq_none_iff (h : s.Shows q) : s.best = none ↔ ∀ p, q p = 0 := by
  unfold best
  rw [List.head?_eq_none_iff]
  constructor
  · intro hs p
    by_contra hne
    obtain ⟨l, hl, -⟩ := (h.exists_price_iff p).mpr hne
    simp [hs] at hl
  · intro hzero
    rw [List.eq_nil_iff_forall_not_mem]
    exact fun l hl => (h.exists_price_iff l.price).mp ⟨l, hl, rfl⟩ (hzero l.price)

/-- **A side is the map it shows.** -/
theorem Shows.readsMap (h : s.Shows q) (hnonneg : ∀ p, 0 ≤ q p) : s.IsMap s.descending q := by
  have hpos := h.positive hnonneg
  have hfst : (sizes s.levels).map Prod.fst = s.levels.map Level.price := by
    simp [sizes]
  have hsorted : (sizes s.levels).Pairwise fun a b => aheadOf s.descending a.1 b.1 :=
    List.pairwise_map.mpr s.sorted
  have hnodup : ((sizes s.levels).map Prod.fst).Nodup :=
    (List.pairwise_map.mpr hsorted).imp ne_of_aheadOf
  have hsize : ∀ e ∈ sizes s.levels, (q e.1).toInt.toNat = e.2 := by
    intro e he
    obtain ⟨l, hl, rfl⟩ := List.mem_map.mp he
    simp only [((h.mem_levels_iff l).mp hl).1]
  refine ⟨h.mem_levels_iff, s.sorted, hpos, h.best_eq_some_iff, h.best_eq_none_iff,
    BestFirst.keys (sizes s.levels), ?_, ?_, ?_⟩
  · intro p
    rw [BestFirst.keys, hfst, List.mem_toFinset, List.mem_map, h.exists_price_iff]
  · rw [BestFirst.keys, List.toFinset_card_of_nodup hnodup, hfst, List.length_map]
    rfl
  · intro want
    rw [← BestFirst.total_eq_sum (fun p => (q p).toInt.toNat) hnodup hsize]
    refine ⟨toInt_taken hpos want, ?_, exhausted_sweep hpos want⟩
    have hasymm : ∀ a b, aheadOf s.descending a b → ¬ aheadOf s.descending b a :=
      fun _ _ => aheadOf_asymm
    rw [cost_sweep hpos want]
    exact BestFirst.worth_eq_sum hasymm Int64.toInt hsorted hsize want.toInt.toNat

end Shown

end BookSide

/-! ## The book -/

/-- No size of a list of levels is negative. -/
def Level.NonNeg (levels : List Level) : Prop := ∀ l ∈ levels, 0 ≤ l.qty

/-- A book and the depth written by what it took: a snapshot starts over, an update is
written over what is there, one already in the snapshot writes nothing. -/
inductive Written : VenueBook → Depth → Prop
  | new : Written VenueBook.new ⟨fun _ => 0, fun _ => 0⟩
  | snapshot {b : VenueBook} {d : Depth} {id : UInt64} {bids asks : List Level}
      (h : Written b d) (hbids : Level.NonNeg bids) (hasks : Level.NonNeg asks) :
      Written (b.installSnapshot id bids asks) (.ofLevels bids asks)
  | update {b b' : VenueBook} {d : Depth} {u : DepthUpdate} (h : Written b d)
      (hbids : Level.NonNeg u.bids) (hasks : Level.NonNeg u.asks)
      (happly : b.apply u = .ok (.updated, b')) : Written b' (d.after u)
  | known {b b' : VenueBook} {d : Depth} {u : DepthUpdate} (h : Written b d)
      (happly : b.apply u = .ok (.alreadyInSnapshot, b')) : Written b' d

namespace Written

/-- What a book shows while nothing negative is written. -/
structure Sound (b : VenueBook) (d : Depth) : Prop where
  shows : b.Shows d
  bids_nonneg : ∀ p, 0 ≤ d.bids p
  asks_nonneg : ∀ p, 0 ≤ d.asks p
  bids_descending : b.bids.descending = true
  asks_descending : b.asks.descending = false

theorem overlay_nonneg {q : Int64 → Int64} (hq : ∀ p, 0 ≤ q p) {levels : List Level}
    (h : Level.NonNeg levels) : ∀ p, 0 ≤ overlay q (Level.writes levels) p := by
  apply forall_overlay hq
  intro w hw
  obtain ⟨l, hl, rfl⟩ := List.mem_map.mp hw
  exact h l hl

theorem descending_foldl (levels : List Level) (s : BookSide) :
    (levels.foldl BookSide.apply s).descending = s.descending := by
  induction levels generalizing s with
  | nil => rfl
  | cons l rest ih => exact ih (s.apply l)

/-- An update that is taken is written to both sides. -/
theorem apply_updated {b b' : VenueBook} {u : DepthUpdate} (h : b.apply u = .ok (.updated, b')) :
    b' = { b with
      bids := u.bids.foldl BookSide.apply b.bids
      asks := u.asks.foldl BookSide.apply b.asks
      lastId := some u.finalId
      applied := b.applied + 1 } := by
  unfold VenueBook.apply at h
  cases hplace : b.place u with
  | error e => simp [hplace] at h
  | ok applied =>
    cases applied with
    | alreadyInSnapshot => simp [hplace] at h
    | updated =>
      rw [hplace, Except.ok.injEq, Prod.mk.injEq] at h
      exact h.2.symm

/-- One that the snapshot had leaves the book as it was. -/
theorem apply_known {b b' : VenueBook} {u : DepthUpdate}
    (h : b.apply u = .ok (.alreadyInSnapshot, b')) : b' = b := by
  unfold VenueBook.apply at h
  cases hplace : b.place u with
  | error e => simp [hplace] at h
  | ok applied =>
    cases applied with
    | updated => simp [hplace] at h
    | alreadyInSnapshot =>
      rw [hplace, Except.ok.injEq, Prod.mk.injEq] at h
      exact h.2.symm

theorem sound {b : VenueBook} {d : Depth} (h : Written b d) : Sound b d := by
  induction h with
  | new =>
    have hzero : ∀ _ : Int64, (0 : Int64) ≤ 0 := fun _ => Int64.le_refl 0
    exact ⟨⟨BookSide.shows_bids, BookSide.shows_asks⟩, hzero, hzero, rfl, rfl⟩
  | snapshot _ hbids hasks _ =>
    have hzero : ∀ _ : Int64, (0 : Int64) ≤ 0 := fun _ => Int64.le_refl 0
    exact ⟨VenueBook.shows_installSnapshot _ _ _ _, overlay_nonneg hzero hbids,
      overlay_nonneg hzero hasks, descending_foldl _ _, descending_foldl _ _⟩
  | update _ hbids hasks happly ih =>
    rw [apply_updated happly]
    exact ⟨⟨ih.shows.bids.foldl_apply _, ih.shows.asks.foldl_apply _⟩,
      overlay_nonneg ih.bids_nonneg hbids, overlay_nonneg ih.asks_nonneg hasks,
      (descending_foldl _ _).trans ih.bids_descending,
      (descending_foldl _ _).trans ih.asks_descending⟩
  | known _ happly ih =>
    rw [apply_known happly]
    exact ih

/-- **Both sides of a book are the maps that were written**, bids from the highest price and
asks from the lowest. -/
theorem isMap {b : VenueBook} {d : Depth} (h : Written b d) :
    b.bids.IsMap true d.bids ∧ b.asks.IsMap false d.asks := by
  have hs := h.sound
  constructor
  · exact hs.bids_descending ▸ hs.shows.bids.readsMap hs.bids_nonneg
  · exact hs.asks_descending ▸ hs.shows.asks.readsMap hs.asks_nonneg

/-- A snapshot out of order, with a price twice and a size of zero. -/
theorem isMap_unsorted :
    let b := VenueBook.new.installSnapshot 7 [⟨10, 2⟩, ⟨12, 1⟩, ⟨10, 5⟩, ⟨11, 0⟩] [⟨15, 3⟩, ⟨14, 4⟩]
    let d := Depth.ofLevels [⟨10, 2⟩, ⟨12, 1⟩, ⟨10, 5⟩, ⟨11, 0⟩] [⟨15, 3⟩, ⟨14, 4⟩]
    b.bids.IsMap true d.bids ∧ b.asks.IsMap false d.asks :=
  isMap (.snapshot .new (by unfold Level.NonNeg; decide) (by unfold Level.NonNeg; decide))

end Written
