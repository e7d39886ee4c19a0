/-
# Rebuilding the venue's depth (`Book` of `oq-book/src/book.rs`)

What the book is for: to show what the venue shows.  The venue's depth is a
quantity at each price of each side, and a chain of updates writes over it one
after the other.  A book starts from a snapshot and is delivered updates of the
chain, some of them dropped, some twice, in any order.

* One side of a book shows a quantity at each price, and a level change is one
  write over it (`Shows.apply`).
* From a snapshot only the update that joins it is taken; from an update only
  the next one (`place_first`, `place_next`).  Everything else is refused or
  known.
* So a book never shows anything but what the venue showed after the last update
  it took.
-/
import OpenQuanter.Overlay
import OpenQuanter.VenueBook

/-! ## What a side shows -/

namespace BookSide

/-- The quantity a list of levels has at a price; nothing there is zero. -/
def qtyIn (levels : List Level) (price : Int64) : Int64 :=
  ((levels.find? (·.price = price)).map Level.qty).getD 0

theorem qtyIn_nil (price : Int64) : qtyIn [] price = 0 := rfl

theorem qtyIn_cons (l : Level) (rest : List Level) (price : Int64) :
    qtyIn (l :: rest) price = if l.price = price then l.qty else qtyIn rest price := by
  unfold qtyIn
  rw [List.find?_cons]
  by_cases h : l.price = price <;> simp [h]

/-- A price nobody in the list has shows nothing. -/
theorem qtyIn_of_forall {levels : List Level} {price : Int64}
    (h : ∀ l ∈ levels, l.price ≠ price) : qtyIn levels price = 0 := by
  induction levels with
  | nil => rfl
  | cons l rest ih =>
    rw [qtyIn_cons, if_neg (h l List.mem_cons_self),
      ih fun l' hl' => h l' (List.mem_cons_of_mem l hl')]

theorem ne_of_aheadOf {descending : Bool} {a b : Int64} (h : aheadOf descending a b) : a ≠ b := by
  rintro rfl
  cases descending
  · exact Int64.lt_irrefl h
  · exact Int64.lt_irrefl h

/-- **A level change is one write.** -/
theorem qtyIn_setLevel {descending : Bool} (level : Level) {levels : List Level}
    (h : levels.Pairwise (fun a b => aheadOf descending a.price b.price)) :
    qtyIn (setLevel descending level levels) =
      Function.update (qtyIn levels) level.price level.qty := by
  funext price
  induction levels with
  | nil =>
    by_cases hsame : price = level.price
    · subst hsame
      rw [Function.update_self, setLevel]
      split_ifs with hzero
      · rw [qtyIn_nil, hzero]
      · rw [qtyIn_cons, if_pos rfl]
    · rw [Function.update_of_ne hsame, setLevel]
      split_ifs
      · rfl
      · rw [qtyIn_cons, if_neg (Ne.symm hsame)]
  | cons a rest ih =>
    obtain ⟨ha, hrest⟩ := List.pairwise_cons.mp h
    have ih := ih hrest
    rw [setLevel]
    split_ifs with hahead heq hzero hzero
    · -- further down: the head is another price
      have hne : a.price ≠ level.price := ne_of_aheadOf hahead
      rw [qtyIn_cons, ih]
      by_cases hsame : price = level.price
      · subst hsame
        rw [if_neg hne, Function.update_self, Function.update_self]
      · rw [Function.update_of_ne hsame, Function.update_of_ne hsame, qtyIn_cons]
    · -- the level is here, and goes
      by_cases hsame : price = level.price
      · subst hsame
        rw [Function.update_self, hzero]
        apply qtyIn_of_forall
        intro l hl
        rw [← heq]
        exact (ne_of_aheadOf (ha l hl)).symm
      · have hne : a.price ≠ price := fun he => hsame (he.symm.trans heq)
        rw [Function.update_of_ne hsame, qtyIn_cons, if_neg hne]
    · -- the level is here, and is replaced
      by_cases hsame : price = level.price
      · subst hsame
        rw [Function.update_self, qtyIn_cons, if_pos rfl]
      · have hne : a.price ≠ price := fun he => hsame (he.symm.trans heq)
        rw [Function.update_of_ne hsame, qtyIn_cons, qtyIn_cons, if_neg (Ne.symm hsame), if_neg hne]
    · -- the level was never there
      by_cases hsame : price = level.price
      · subst hsame
        rw [Function.update_self, hzero]
        apply qtyIn_of_forall
        intro l hl
        have hlevel := aheadOf_of_not hahead heq
        rcases List.mem_cons.mp hl with rfl | hl
        · exact heq
        · exact (ne_of_aheadOf (aheadOf_trans hlevel (ha l hl))).symm
      · rw [Function.update_of_ne hsame]
    · by_cases hsame : price = level.price
      · subst hsame
        rw [Function.update_self, qtyIn_cons, if_pos rfl]
      · rw [Function.update_of_ne hsame, qtyIn_cons, if_neg (Ne.symm hsame)]

/-- A level of quantity zero is never kept. -/
theorem ne_zero_setLevel {descending : Bool} (level : Level) {levels : List Level}
    (h : ∀ l ∈ levels, l.qty ≠ 0) : ∀ l ∈ setLevel descending level levels, l.qty ≠ 0 := by
  induction levels with
  | nil =>
    rw [setLevel]
    split_ifs with hzero
    · simp
    · simpa using hzero
  | cons a rest ih =>
    have hrest : ∀ l ∈ rest, l.qty ≠ 0 := fun l hl => h l (List.mem_cons_of_mem a hl)
    have ha : a.qty ≠ 0 := h a List.mem_cons_self
    rw [setLevel]
    split_ifs with _ _ hzero hzero
    · exact List.forall_mem_cons.mpr ⟨ha, ih hrest⟩
    · exact hrest
    · exact List.forall_mem_cons.mpr ⟨hzero, hrest⟩
    · exact h
    · exact List.forall_mem_cons.mpr ⟨hzero, h⟩

/-- A side shows exactly these quantities: it has a level for each price with
something at it and for no other. -/
structure Shows (s : BookSide) (q : Int64 → Int64) : Prop where
  present : ∀ l ∈ s.levels, l.qty ≠ 0
  qty : qtyIn s.levels = q

theorem shows_bids : bids.Shows (fun _ => 0) := ⟨by simp [bids], rfl⟩

theorem shows_asks : asks.Shows (fun _ => 0) := ⟨by simp [asks], rfl⟩

theorem Shows.apply {s : BookSide} {q : Int64 → Int64} (h : s.Shows q) (level : Level) :
    (s.apply level).Shows (Function.update q level.price level.qty) where
  present := ne_zero_setLevel level h.present
  qty := by
    rw [← h.qty]
    exact qtyIn_setLevel level s.sorted

end BookSide

/-- The writes of a list of levels. -/
def Level.writes (levels : List Level) : List (Int64 × Int64) :=
  levels.map fun l => (l.price, l.qty)

theorem BookSide.Shows.foldl_apply {s : BookSide} {q : Int64 → Int64} (h : s.Shows q)
    (levels : List Level) : (levels.foldl BookSide.apply s).Shows
    (overlay q (Level.writes levels)) := by
  induction levels generalizing s q with
  | nil => exact h
  | cons l rest ih => exact ih (h.apply l)

/-! ## The venue -/

/-- What the venue shows: a quantity at each price of each side. -/
@[ext] structure Depth where
  bids : Int64 → Int64
  asks : Int64 → Int64

namespace Depth

/-- What it shows after an update. -/
def after (d : Depth) (u : DepthUpdate) : Depth where
  bids := overlay d.bids (Level.writes u.bids)
  asks := overlay d.asks (Level.writes u.asks)

/-- What it shows after a list of updates. -/
def afterAll (d : Depth) (us : List DepthUpdate) : Depth := us.foldl after d

/-- What a list of levels for each side says. -/
def ofLevels (bids asks : List Level) : Depth where
  bids := overlay (fun _ => 0) (Level.writes bids)
  asks := overlay (fun _ => 0) (Level.writes asks)

/-- An update brings any two depths together that agree where it writes
nothing. -/
theorem after_congr {d d' : Depth} {u : DepthUpdate}
    (hbids : ∀ p, p ∉ u.bids.map Level.price → d.bids p = d'.bids p)
    (hasks : ∀ p, p ∉ u.asks.map Level.price → d.asks p = d'.asks p) : d.after u = d'.after u := by
  have hkeys : ∀ levels : List Level, (Level.writes levels).map Prod.fst = levels.map Level.price :=
    fun levels => by simp [Level.writes]
  apply Depth.ext
  · apply overlay_congr
    rwa [hkeys]
  · apply overlay_congr
    rwa [hkeys]

theorem after_after (d : Depth) (u : DepthUpdate) : (d.after u).after u = d.after u := by
  simp only [after, overlay_overlay]

theorem afterAll_take_succ (d : Depth) {us : List DepthUpdate} {i : Nat} {u : DepthUpdate}
    (h : us[i]? = some u) : d.afterAll (us.take (i + 1)) = (d.afterAll (us.take i)).after u := by
  rw [afterAll, afterAll, List.take_add_one, h, Option.toList_some, List.foldl_append]
  rfl

end Depth

/-- One update directly behind another: later ids, and a link to it, by the
previous id where the venue sends one and by contiguity where it does not. -/
structure Follows (u v : DepthUpdate) : Prop where
  later : u.finalId < v.firstId
  linked : v.prevFinalId = some u.finalId ∨ v.prevFinalId = none ∧ v.firstId = u.finalId + 1

/-- The updates of one book, as the venue made them.  What the first one follows
is not among them, but is before it. -/
structure UpdateChain (us : List DepthUpdate) : Prop where
  range : ∀ u ∈ us, u.firstId ≤ u.finalId
  past : ∀ u ∈ us, ∀ p ∈ u.prevFinalId, p < u.firstId
  follows : us.IsChain Follows

/-- A snapshot taken at an id: `k` updates are in it, and where the next one was
under way it may show anything at the prices that one writes. -/
structure SnapshotAt (start : Depth) (us : List DepthUpdate) (k : Nat) (id : UInt64)
    (shown : Depth) : Prop where
  inside : ∀ i u, us[i]? = some u → (i < k ↔ u.finalId ≤ id)
  bids : ∀ p, (∀ u, us[k]? = some u → u.firstId ≤ id → p ∉ u.bids.map Level.price) →
    shown.bids p = (start.afterAll (us.take k)).bids p
  asks : ∀ p, (∀ u, us[k]? = some u → u.firstId ≤ id → p ∉ u.asks.map Level.price) →
    shown.asks p = (start.afterAll (us.take k)).asks p

namespace UpdateChain

variable {us : List DepthUpdate} (h : UpdateChain us)

include h

theorem follows_getElem? {i : Nat} {u v : DepthUpdate} (hu : us[i]? = some u)
    (hv : us[i + 1]? = some v) : Follows u v := by
  obtain ⟨hi, rfl⟩ := List.getElem?_eq_some_iff.mp hu
  obtain ⟨hi', rfl⟩ := List.getElem?_eq_some_iff.mp hv
  exact List.isChain_iff_getElem.mp h.follows i hi'

/-- Every id of an update is behind every id of an earlier one. -/
theorem finalId_lt {i j : Nat} {u v : DepthUpdate} (hij : i < j) (hu : us[i]? = some u)
    (hv : us[j]? = some v) : u.finalId < v.firstId := by
  induction j, hij using Nat.le_induction generalizing v with
  | base => exact (h.follows_getElem? hu hv).later
  | succ j _ ih =>
    obtain ⟨hj, -⟩ := List.getElem?_eq_some_iff.mp hv
    have hw : us[j]? = some us[j] := List.getElem?_eq_getElem (by omega)
    have hfirst := ih hw
    have hrange := h.range us[j] (List.getElem_mem _)
    have hlast := (h.follows_getElem? hw hv).later
    rw [UInt64.lt_iff_toNat_lt] at hfirst hlast ⊢
    rw [UInt64.le_iff_toNat_le] at hrange
    omega

/-- Updates with the same last id are the same update. -/
theorem finalId_inj {i j : Nat} {u v : DepthUpdate} (hu : us[i]? = some u) (hv : us[j]? = some v)
    (heq : u.finalId = v.finalId) : i = j := by
  have hapart : ∀ {i j : Nat} {u v : DepthUpdate}, us[i]? = some u → us[j]? = some v → i < j →
      u.finalId ≠ v.finalId := by
    intro i j u v hu hv hij heq
    have hlater := h.finalId_lt hij hu hv
    have hrange := h.range v (List.mem_of_getElem? hv)
    rw [UInt64.lt_iff_toNat_lt, heq] at hlater
    rw [UInt64.le_iff_toNat_le] at hrange
    omega
  rcases Nat.lt_trichotomy i j with hij | hij | hij
  · exact absurd heq (hapart hu hv hij)
  · exact hij
  · exact absurd heq.symm (hapart hv hu hij)

end UpdateChain

/-! ## Delivering updates -/

namespace VenueBook

/-- Both sides of a book show a depth. -/
structure Shows (b : VenueBook) (d : Depth) : Prop where
  bids : b.bids.Shows d.bids
  asks : b.asks.Shows d.asks

/-- A book shows one depth. -/
theorem Shows.unique {b : VenueBook} {d d' : Depth} (h : b.Shows d) (h' : b.Shows d') : d = d' :=
  Depth.ext (h.bids.qty.symm.trans h'.bids.qty) (h.asks.qty.symm.trans h'.asks.qty)

theorem shows_installSnapshot (b : VenueBook) (id : UInt64) (bids asks : List Level) :
    (b.installSnapshot id bids asks).Shows (.ofLevels bids asks) where
  bids := BookSide.shows_bids.foldl_apply bids
  asks := BookSide.shows_asks.foldl_apply asks

/-- Deliver an update to a book, keeping in mind the last one it took. -/
def deliver (s : VenueBook × Option DepthUpdate) (u : DepthUpdate) :
    VenueBook × Option DepthUpdate :=
  match s.1.apply u with
  | .ok (.updated, b) => (b, some u)
  | .ok (.alreadyInSnapshot, b) => (b, s.2)
  | .error _ => s

/-- What an update does by its place: it is written, known, or refused. -/
theorem deliver_cases (s : VenueBook × Option DepthUpdate) (u : DepthUpdate) :
    (s.1.place u = .ok .updated ∧ (deliver s u).2 = some u ∧
      (deliver s u).1.snapshotId = s.1.snapshotId ∧
      (deliver s u).1.lastId = some u.finalId ∧
      ∀ d, s.1.Shows d → (deliver s u).1.Shows (d.after u)) ∨
    (s.1.place u ≠ .ok .updated ∧ deliver s u = s) := by
  unfold deliver VenueBook.apply
  cases hplace : s.1.place u with
  | error e => exact Or.inr ⟨by simp, rfl⟩
  | ok applied =>
    cases applied with
    | updated =>
      refine Or.inl ⟨rfl, rfl, rfl, rfl, ?_⟩
      intro d hd
      exact ⟨hd.bids.foldl_apply u.bids, hd.asks.foldl_apply u.asks⟩
    | alreadyInSnapshot => exact Or.inr ⟨by simp, rfl⟩

section Chain

variable {us : List DepthUpdate} (hchain : UpdateChain us) {start shown : Depth} {k : Nat}
  {id : UInt64}

include hchain

/-- **From a snapshot only the next update is taken.** -/
theorem place_first {b : VenueBook} (hid : b.snapshotId = some id) (hlast : b.lastId = none)
    (hsnapshot : SnapshotAt start us k id shown) {j : Nat} {u : DepthUpdate}
    (hu : us[j]? = some u) (hplace : b.place u = .ok .updated) : j = k := by
  have hafter : ¬ u.finalId ≤ id := by
    intro hle
    rw [place, hid, hlast] at hplace
    simp [hle] at hplace
  have hge : ¬ j < k := fun hlt => hafter ((hsnapshot.inside j u hu).mp hlt)
  by_contra hne
  obtain ⟨hj, -⟩ := List.getElem?_eq_some_iff.mp hu
  -- update `k` was left out, so this one starts too late and follows one outside
  have hk : us[k]? = some us[k] := List.getElem?_eq_getElem (by omega)
  have houtside : ¬ us[k].finalId ≤ id := fun hle =>
    absurd ((hsnapshot.inside k _ hk).mpr hle) (Nat.lt_irrefl k)
  have hlate := hchain.finalId_lt (by omega) hk hu
  rw [UInt64.le_iff_toNat_le] at houtside hafter
  rw [UInt64.lt_iff_toNat_lt] at hlate
  have hlt64 := u.finalId.toNat_lt
  have hnext : (id + 1).toNat = id.toNat + 1 := by
    rw [UInt64.toNat_add, UInt64.toNat_one, Nat.mod_eq_of_lt (by omega)]
  have hgap : id + 1 < u.firstId := by
    rw [UInt64.lt_iff_toNat_lt, hnext]
    omega
  have hprev : u.prevFinalId.any (· ≤ id) = false := by
    have hw : us[j - 1]? = some us[j - 1] := List.getElem?_eq_getElem (by omega)
    have hu' : us[j - 1 + 1]? = some u := by
      rw [Nat.sub_add_cancel (by omega)]
      exact hu
    rcases (hchain.follows_getElem? hw hu').linked with hlink | ⟨hlink, -⟩
    · have hpast : ¬ us[j - 1].finalId ≤ id := fun hle =>
        absurd ((hsnapshot.inside (j - 1) _ hw).mpr hle) (by omega)
      rw [hlink]
      simpa using hpast
    · rw [hlink]
      rfl
  rw [place, hid, hlast] at hplace
  simp only [hprev, Bool.not_false, Bool.and_true, decide_eq_true_eq, if_pos hgap] at hplace
  split at hplace
  · exact absurd hplace (by simp)
  · exact absurd hplace (by simp)

/-- What an update names as the one before it. -/
theorem previous_eq {j : Nat} {u v : DepthUpdate} (hu : us[j]? = some u)
    (hv : us[j + 1]? = some v) :
    v.prevFinalId.getD (if v.firstId = 0 then 0 else v.firstId - 1) = u.finalId := by
  have hfollows := hchain.follows_getElem? hu hv
  rcases hfollows.linked with hlink | ⟨hlink, hcontiguous⟩
  · rw [hlink, Option.getD_some]
  · have hne : v.firstId ≠ 0 := by
      rintro hzero
      have hlater := hfollows.later
      rw [hzero, UInt64.lt_iff_toNat_lt] at hlater
      exact absurd hlater (by simp)
    rw [hlink, Option.getD_none, if_neg hne, hcontiguous]
    exact UInt64.add_sub_cancel ..

/-- **From an update only the next one is taken**, or the same one again if the
chain starts at id zero. -/
theorem place_next {b : VenueBook} (hid : b.snapshotId = some id) {i j : Nat}
    {last u : DepthUpdate} (hlast : us[i]? = some last) (hlastId : b.lastId = some last.finalId)
    (hu : us[j]? = some u) (hplace : b.place u = .ok .updated) : j = i + 1 ∨ j = i := by
  have hprevious : u.prevFinalId.getD (if u.firstId = 0 then 0 else u.firstId - 1) =
      last.finalId := by
    rw [place, hid, hlastId] at hplace
    by_contra hne
    simp [hne] at hplace
  cases j with
  | succ j =>
    obtain ⟨hj, -⟩ := List.getElem?_eq_some_iff.mp hu
    have hw : us[j]? = some us[j] := List.getElem?_eq_getElem (by omega)
    rw [previous_eq hchain hw hu] at hprevious
    exact Or.inl (congrArg (· + 1) (hchain.finalId_inj hw hlast hprevious))
  | zero =>
    -- what the first update names is before it, and so is not the last one taken
    refine Or.inr ?_
    by_contra hne
    have hlater := hchain.finalId_lt (Nat.pos_of_ne_zero (Ne.symm hne)) hu hlast
    have hrange := hchain.range u (List.mem_of_getElem? hu)
    have hrange' := hchain.range last (List.mem_of_getElem? hlast)
    rw [UInt64.lt_iff_toNat_lt] at hlater
    rw [UInt64.le_iff_toNat_le] at hrange hrange'
    have hbefore : (u.prevFinalId.getD (if u.firstId = 0 then 0 else u.firstId - 1)).toNat ≤
        u.firstId.toNat := by
      cases hp : u.prevFinalId with
      | some p =>
        have hpast := hchain.past u (List.mem_of_getElem? hu) p hp
        rw [UInt64.lt_iff_toNat_lt] at hpast
        rw [Option.getD_some]
        omega
      | none =>
        rw [Option.getD_none]
        split_ifs with hzero
        · simp
        · have hone : (1 : UInt64) ≤ u.firstId := by
            rw [UInt64.le_iff_toNat_le, UInt64.toNat_one]
            have hpos : u.firstId.toNat ≠ 0 := fun h => hzero (UInt64.toNat_inj.mp h)
            omega
          rw [UInt64.toNat_sub_of_le _ _ hone]
          omega
    rw [hprevious] at hbefore
    omega

/-- What a book must show: the snapshot while it has taken nothing, and what the
venue showed after the last update it took. -/
def Truth (us : List DepthUpdate) (start shown : Depth) (last : Option DepthUpdate) (d : Depth) :
    Prop :=
  match last with
  | none => d = shown
  | some u => ∃ i : Nat, us[i]? = some u ∧ d = start.afterAll (us.take (i + 1))

/-- The invariant of a run of deliveries. -/
structure Truthful (us : List DepthUpdate) (start shown : Depth) (id : UInt64)
    (s : VenueBook × Option DepthUpdate) : Prop where
  snapshot : s.1.snapshotId = some id
  lastId : s.1.lastId = s.2.map (·.finalId)
  truth : ∃ d, s.1.Shows d ∧ Truth us start shown s.2 d

theorem Truthful.deliver {s : VenueBook × Option DepthUpdate}
    (h : Truthful us start shown id s) (hsnapshot : SnapshotAt start us k id shown)
    {u : DepthUpdate} (hu : u ∈ us) : Truthful us start shown id (VenueBook.deliver s u) := by
  obtain ⟨j, hj⟩ := List.getElem?_of_mem hu
  rcases deliver_cases s u with ⟨hplace, htaken, hid, hlast, hshows⟩ | ⟨-, hsame⟩
  · refine ⟨hid.trans h.snapshot, by rw [hlast, htaken, Option.map_some], ?_⟩
    obtain ⟨d, hd, htruth⟩ := h.truth
    refine ⟨d.after u, hshows d hd, ?_⟩
    rw [htaken]
    refine ⟨j, hj, ?_⟩
    have hlastId := h.lastId
    cases hs : s.2 with
    | none =>
      rw [hs] at htruth hlastId
      obtain rfl := place_first hchain h.snapshot hlastId hsnapshot hj hplace
      have hshown : d = shown := htruth
      rw [Depth.afterAll_take_succ start hj, hshown]
      apply Depth.after_congr
      · intro p hp
        refine hsnapshot.bids p fun v hv _ => ?_
        rw [hj, Option.some.injEq] at hv
        rwa [← hv]
      · intro p hp
        refine hsnapshot.asks p fun v hv _ => ?_
        rw [hj, Option.some.injEq] at hv
        rwa [← hv]
    | some last =>
      rw [hs] at htruth hlastId
      obtain ⟨i, hi, hdi⟩ := htruth
      rcases place_next hchain h.snapshot hi hlastId hj hplace with rfl | rfl
      · rw [Depth.afterAll_take_succ start hj, hdi]
      · rw [hdi, Depth.afterAll_take_succ start hj, Depth.after_after]
  · rw [hsame]
    exact h

theorem Truthful.foldl {s : VenueBook × Option DepthUpdate} (h : Truthful us start shown id s)
    (hsnapshot : SnapshotAt start us k id shown) {deliveries : List DepthUpdate}
    (hd : ∀ u ∈ deliveries, u ∈ us) :
    Truthful us start shown id (deliveries.foldl VenueBook.deliver s) := by
  induction deliveries generalizing s with
  | nil => exact h
  | cons u rest ih =>
    have hu : u ∈ us := hd u List.mem_cons_self
    exact ih (h.deliver hchain hsnapshot hu) fun v hv => hd v (List.mem_cons_of_mem u hv)

end Chain

/-- **A rebuilt book is never silently wrong.**  From a snapshot of the chain,
after any deliveries of its updates, with some dropped, some twice and in any
order: the book shows the snapshot while it has taken no update, and else what
the venue showed after the last update it took; an update that is refused leaves
it as it was; and an update no later than what it has leaves what it shows. -/
theorem rebuilt_never_wrong {us : List DepthUpdate} (hchain : UpdateChain us) {start : Depth}
    {k : Nat} {id : UInt64} {bids asks : List Level}
    (hsnapshot : SnapshotAt start us k id (.ofLevels bids asks)) (before : VenueBook)
    {deliveries : List DepthUpdate} (hd : ∀ u ∈ deliveries, u ∈ us) :
    let s := deliveries.foldl deliver (before.installSnapshot id bids asks, none)
    (match s.2 with
      | none => s.1.Shows (.ofLevels bids asks)
      | some u => ∃ i : Nat, us[i]? = some u ∧ s.1.Shows (start.afterAll (us.take (i + 1)))) ∧
    (∀ u e, s.1.apply u = .error e → deliver s u = s) ∧
    ∀ u ∈ us, u.finalId ≤ (s.2.map (·.finalId)).getD id →
      ∀ d, s.1.Shows d → (deliver s u).1.Shows d := by
  intro s
  have hstart : Truthful us start (.ofLevels bids asks) id
      (before.installSnapshot id bids asks, none) :=
    ⟨rfl, rfl, _, shows_installSnapshot before id bids asks, rfl⟩
  have hs : Truthful us start (.ofLevels bids asks) id s := hstart.foldl hchain hsnapshot hd
  refine ⟨?_, ?_, ?_⟩
  · obtain ⟨d, hshows, htruth⟩ := hs.truth
    cases hlast : s.2 with
    | none =>
      rw [hlast] at htruth
      exact (show d = _ from htruth) ▸ hshows
    | some u =>
      rw [hlast] at htruth
      obtain ⟨i, hi, rfl⟩ := htruth
      exact ⟨i, hi, hshows⟩
  · intro u e he
    rw [deliver, he]
  · intro u hu hstale d hshows
    obtain ⟨j, hj⟩ := List.getElem?_of_mem hu
    obtain ⟨d', hshows', htruth⟩ := hs.truth
    obtain rfl : d' = d := hshows'.unique hshows
    rcases deliver_cases s u with ⟨hplace, -, -, -, hwritten⟩ | ⟨-, hsame⟩
    · have hlastId := hs.lastId
      cases hlast : s.2 with
      | none =>
        -- the first update taken contains the snapshot's id, so it is not stale
        rw [hlast] at hlastId hstale
        obtain rfl := place_first hchain hs.snapshot hlastId hsnapshot hj hplace
        exact absurd ((hsnapshot.inside j u hj).mpr hstale) (Nat.lt_irrefl j)
      | some last =>
        rw [hlast] at htruth hlastId hstale
        obtain ⟨i, hi, hdi⟩ := htruth
        -- what is taken next is the next of the chain, or the last one once more
        rcases place_next hchain hs.snapshot hi hlastId hj hplace with rfl | rfl
        · have hlater := hchain.finalId_lt (Nat.lt_succ_self i) hi hj
          have hrange := hchain.range u hu
          rw [Option.map_some, Option.getD_some, UInt64.le_iff_toNat_le] at hstale
          rw [UInt64.lt_iff_toNat_lt] at hlater
          rw [UInt64.le_iff_toNat_le] at hrange
          omega
        · have hagain : d'.after u = d' := by
            rw [hdi, Depth.afterAll_take_succ start hj, Depth.after_after]
          have hshown := hwritten d' hshows
          rwa [hagain] at hshown
    · rw [hsame]
      exact hshows

/-- Two chained updates, the first of them under way at id 5. -/
def twoUpdates : List DepthUpdate :=
  [{ eventMs := 1, firstId := 4, finalId := 6, prevFinalId := some 3, bids := [⟨100, 2⟩],
      asks := [] },
    { eventMs := 2, firstId := 7, finalId := 9, prevFinalId := none, bids := [⟨100, 0⟩],
      asks := [⟨101, 4⟩] }]

theorem updateChain_twoUpdates : UpdateChain twoUpdates where
  range := by decide
  past := by
    intro u hu p hp
    simp only [twoUpdates, List.mem_cons, List.not_mem_nil, or_false] at hu
    rcases hu with rfl | rfl
    · obtain rfl : 3 = p := Option.some.inj hp
      decide
    · exact absurd hp (by simp)
  follows := by
    simp only [twoUpdates, List.isChain_cons_cons, List.isChain_singleton, and_true]
    exact ⟨by decide, Or.inr ⟨rfl, by decide⟩⟩

/-- A snapshot at that id may already show something of the first. -/
theorem snapshotAt_twoUpdates :
    SnapshotAt (.ofLevels [⟨99, 1⟩] []) twoUpdates 0 5 (.ofLevels [⟨99, 1⟩, ⟨100, 7⟩] []) where
  inside := by
    intro i u hu
    rcases i with _ | _ | i
    · obtain rfl := Option.some.inj hu
      decide
    · obtain rfl := Option.some.inj hu
      decide
    · exact absurd hu (by simp [twoUpdates])
  bids := by
    intro p hp
    have hne : p ≠ 100 := by
      have hfree := hp _ rfl (by decide)
      simpa [twoUpdates] using hfree
    exact Function.update_of_ne hne _ _
  asks := fun _ _ => rfl

/-- Delivered the second update, then the first, then both again, the book shows
what the venue shows after the second. -/
theorem rebuilt_never_wrong_twoUpdates :
    ∃ i : Nat, twoUpdates[i]? = twoUpdates[1]? ∧
      ((twoUpdates.reverse ++ twoUpdates).foldl deliver
        (VenueBook.new.installSnapshot 5 [⟨99, 1⟩, ⟨100, 7⟩] [], none)).1.Shows
          (Depth.afterAll (.ofLevels [⟨99, 1⟩] []) (twoUpdates.take (i + 1))) := by
  have hdelivered : ∀ u ∈ twoUpdates.reverse ++ twoUpdates, u ∈ twoUpdates := by
    intro u hu
    simpa using hu
  have hlast : ((twoUpdates.reverse ++ twoUpdates).foldl deliver
      (VenueBook.new.installSnapshot 5 [⟨99, 1⟩, ⟨100, 7⟩] [], none)).2 = some twoUpdates[1] := by
    decide
  obtain ⟨htruth, -, -⟩ := rebuilt_never_wrong updateChain_twoUpdates snapshotAt_twoUpdates
    VenueBook.new hdelivered
  rw [hlast] at htruth
  exact htruth

end VenueBook
