/-
# The fidelity ladder only ever removes or delays fills

An L1 engine, and an L2 engine over one, is run beside a plain L0 engine on the
same script.  Every order the upper tier still holds, whichever of its lists the
order is in, is an order the plain engine holds or one it has executed
(`Below.live`); and the price path the embedded engine matches along is the
plain engine's, or forgotten (`Below.prev`).  So whatever the embedded engine
executes, the plain one executes at the same tick or has executed before.
-/
import OpenQuanter.L1Moves

/-! ## The invariant -/

/-- How an L1 engine `e` stands below a plain L0 engine `a` that has executed
the orders `done`, after a script that submitted the ids `used`. -/
structure L1Engine.Below (used : List OrderId) (a : L0Engine) (done : List OrderId) (e : L1Engine) :
    Prop where
  anchor_sorted : a.book.Sorted
  anchor_nodup : a.book.restingIds.Nodup
  anchor_used : ∀ id ∈ a.book.restingIds, id ∈ used
  sorted : e.inner.book.Sorted
  nodup : (e.orders.map Working.id).Nodup
  ids_used : ∀ w ∈ e.orders, w.id ∈ used
  live : ∀ w ∈ e.orders, (∃ r ∈ a.book.iter, r.order = w) ∨ w.id ∈ done
  prev : e.inner.prevPrice = none ∨ e.inner.prevPrice = a.prevPrice
  reported : ∀ id ∈ e.reported, id ∈ done

namespace L1Engine.Below

variable {used done : List OrderId} {a : L0Engine} {e e' : L1Engine}

theorem new (instrument : InstrumentId) (policy : Policy) :
    Below [] (L0Engine.new instrument) [] (L1Engine.new instrument policy) := by
  constructor
  · exact Book.sorted_new
  · exact List.nodup_nil
  · intro id hid
    exact hid
  · exact Book.sorted_new
  · exact List.nodup_nil
  · intro w hw
    simp [L1Engine.orders, L1Engine.new, L0Engine.new, Book.new, Book.iter] at hw
  · intro w hw
    simp [L1Engine.orders, L1Engine.new, L0Engine.new, Book.new, Book.iter] at hw
  · exact Or.inl rfl
  · intro id hid
    exact hid

/-- The ids resting in the embedded book are distinct. -/
theorem inner_nodup (h : Below used a done e) : e.inner.book.restingIds.Nodup := by
  have hnd := h.nodup
  rw [L1Engine.orders, List.map_append, List.map_map] at hnd
  exact (List.nodup_append.mp hnd).2.1

/-- Moving orders around keeps the engine below. -/
theorem shuffled (h : Below used a done e) (hs : L1Engine.Shuffled [] e e') :
    Below used a done e' where
  anchor_sorted := h.anchor_sorted
  anchor_nodup := h.anchor_nodup
  anchor_used := h.anchor_used
  sorted := hs.sorted h.sorted
  nodup := (hs.orders.map Working.id).nodup_iff.mpr h.nodup
  ids_used := fun w hw => h.ids_used w (hs.orders.subset hw)
  live := fun w hw => h.live w (hs.orders.subset hw)
  prev := by
    rcases hs.prev with hp | hp
    · exact Or.inl hp
    · rw [hp]
      exact h.prev
  reported := fun id hid => h.reported id (hs.reported id hid)

/-- A fresh order goes to both engines. -/
theorem submit {w : Working} (h : Below used a done e) (hw : w.id ∉ used)
    (hs : L1Engine.Shuffled [w] e e') : Below (w.id :: used) (a.submit w) done e' where
  anchor_sorted := h.anchor_sorted.insert w
  anchor_nodup := by
    rw [L0Engine.submit, (Book.restingIds_insert_perm a.book w).nodup_iff, List.nodup_cons]
    exact ⟨fun hmem => hw (h.anchor_used _ hmem), h.anchor_nodup⟩
  anchor_used := by
    intro id hid
    rcases List.mem_cons.mp ((Book.restingIds_insert_perm a.book w).subset hid) with rfl | hid
    · exact List.mem_cons_self
    · exact List.mem_cons_of_mem _ (h.anchor_used id hid)
  sorted := hs.sorted h.sorted
  nodup := by
    rw [(hs.orders.map Working.id).nodup_iff, List.singleton_append, List.map_cons,
      List.nodup_cons]
    refine ⟨?_, h.nodup⟩
    intro hmem
    obtain ⟨x, hx, hid⟩ := List.mem_map.mp hmem
    exact hw (hid ▸ h.ids_used x hx)
  ids_used := by
    intro x hx
    rcases List.mem_cons.mp (hs.orders.subset hx) with rfl | hx
    · exact List.mem_cons_self
    · exact List.mem_cons_of_mem _ (h.ids_used x hx)
  live := by
    have hiter := Book.iter_insert_perm a.book w
    intro x hx
    rcases List.mem_cons.mp (hs.orders.subset hx) with rfl | hx
    · exact Or.inl ⟨_, hiter.symm.subset List.mem_cons_self, rfl⟩
    · rcases h.live x hx with ⟨r, hr, hrx⟩ | hdone
      · exact Or.inl ⟨r, hiter.symm.subset (List.mem_cons_of_mem _ hr), hrx⟩
      · exact Or.inr hdone
  prev := by
    rcases hs.prev with hp | hp
    · exact Or.inl hp
    · rw [hp]
      exact h.prev
  reported := fun id hid => h.reported id (hs.reported id hid)

/-- Both engines lose the same ids. -/
theorem withdraw (h : Below used a done e) {ids : List OrderId}
    (hsub : e'.orders.Sublist e.orders) (hgone : ∀ w ∈ e'.orders, w.id ∉ ids)
    (hsorted : e'.inner.book.Sorted) (hprev : e'.inner.prevPrice = e.inner.prevPrice)
    (hrep : e'.reported = e.reported) :
    Below used { a with book := a.book.dropAll ids } done e' where
  anchor_sorted := h.anchor_sorted.dropAll ids
  anchor_nodup := Book.nodup_dropAll h.anchor_nodup ids
  anchor_used := by
    intro id hid
    obtain ⟨r, hr, rfl⟩ := List.mem_map.mp hid
    rw [Book.iter_dropAll h.anchor_nodup] at hr
    exact h.anchor_used _ (List.mem_map_of_mem (List.mem_of_mem_filter hr))
  sorted := hsorted
  nodup := h.nodup.sublist (hsub.map Working.id)
  ids_used := fun w hw => h.ids_used w (hsub.subset hw)
  live := by
    intro w hw
    rcases h.live w (hsub.subset hw) with ⟨r, hr, rfl⟩ | hdone
    · exact Or.inl ⟨r, L0Engine.mem_iter_dropAll h.anchor_nodup hr (hgone _ hw), rfl⟩
    · exact Or.inr hdone
  prev := by
    rw [hprev]
    exact h.prev
  reported := by
    rw [hrep]
    exact h.reported

/-! ### Cancelling -/

/-- A list that a filter shortens held something the filter rejects. -/
theorem exists_of_length_filter_lt {α : Type} {p : α → Bool} {l : List α}
    (h : (l.filter p).length < l.length) : ∃ x ∈ l, p x = false := by
  by_contra hnone
  push Not at hnone
  have hself : l.filter p = l := List.filter_eq_self.mpr (fun x hx => by
    simpa using hnone x hx)
  rw [hself] at h
  exact lt_irrefl _ h

theorem cancel (h : Below used a done e) (id : OrderId) :
    Below used (a.cancel id).1 done (e.cancel id).1 := by
  have hcancel : (a.cancel id).1 = { a with book := a.book.dropAll [id] } := rfl
  have hnd := h.nodup
  rw [L1Engine.orders, List.map_append, List.map_append, List.nodup_append] at hnd
  obtain ⟨-, -, hcross⟩ := hnd
  rw [hcancel]
  unfold L1Engine.cancel
  simp only
  split_ifs with hshort
  · refine h.withdraw ?_ ?_ h.sorted rfl rfl
    · exact ((List.filter_sublist.map _).append (List.filter_sublist.map _)).append_right _
    · intro w hw
      rw [List.mem_singleton]
      simp only [L1Engine.orders, List.mem_append, List.mem_map, List.mem_filter,
        decide_eq_true_eq] at hw
      rcases hw with (⟨p, ⟨-, hp⟩, rfl⟩ | ⟨q, ⟨-, hq⟩, rfl⟩) | ⟨r, hr, rfl⟩
      · exact hp
      · exact hq
      · -- the id was pending or queued, so no resting order has it
        intro hid
        have hheld : id ∈ e.pending.map (·.order.id) ++ e.queued.map (·.order.id) := by
          by_cases hpend : (e.pending.filter (·.order.id ≠ id)).length < e.pending.length
          · obtain ⟨p, hp, hpid⟩ := exists_of_length_filter_lt hpend
            exact List.mem_append_left _ (List.mem_map.mpr ⟨p, hp, by simpa using hpid⟩)
          · obtain ⟨q, hq, hqid⟩ :=
              exists_of_length_filter_lt (l := e.queued) (p := (·.order.id ≠ id)) (by omega)
            exact List.mem_append_right _ (List.mem_map.mpr ⟨q, hq, by simpa using hqid⟩)
        have hfirst : id ∈ (e.pending.map Pending.order).map Working.id ++
            (e.queued.map Queued.order).map Working.id := by
          rw [List.map_map, List.map_map]
          exact hheld
        exact hcross id hfirst r.order.id
          (List.mem_map_of_mem (List.mem_map_of_mem hr)) hid.symm
  · have hinner : (e.inner.cancel id).1 = { e.inner with book := e.inner.book.drop id } := rfl
    refine h.withdraw ?_ ?_ (h.sorted.drop id) rfl rfl
    · refine ((List.filter_sublist.map _).append (List.filter_sublist.map _)).append ?_
      rw [hinner, Book.iter_drop]
      exact List.eraseP_sublist.map _
    · intro w hw
      rw [List.mem_singleton]
      simp only [L1Engine.orders, List.mem_append, List.mem_map, List.mem_filter,
        decide_eq_true_eq, hinner] at hw
      rcases hw with (⟨p, ⟨-, hp⟩, rfl⟩ | ⟨q, ⟨-, hq⟩, rfl⟩) | ⟨r, hr, rfl⟩
      · exact hp
      · exact hq
      · rw [Book.iter_drop_of_nodup h.inner_nodup] at hr
        have hne : r.id ≠ id := by simpa using (List.mem_filter.mp hr).2
        exact hne

theorem cancelAll (h : Below used a done e) :
    Below used a.cancelAll.1 done e.cancelAll.1 := by
  have hempty : e.cancelAll.1.orders = [] := by
    show (e.inner.book.dropAll e.inner.book.restingIds).iter.map Resting.order = []
    rw [Book.iter_dropAll_restingIds]
    rfl
  refine h.withdraw ?_ ?_ (h.sorted.dropAll e.inner.book.restingIds) rfl rfl
  · rw [hempty]
    exact List.nil_sublist _
  · intro w hw
    rw [hempty] at hw
    simp at hw

/-! ### Matching -/

/-- Being triggered is a matter of the order, not of its place in a book. -/
theorem triggered_of_order_eq {prev : Option PriceTicks} {tick : Tick} {r r' : Resting}
    (horder : r.order = r'.order) (ht : L0Engine.Triggered prev tick r) :
    L0Engine.Triggered prev tick r' := by
  obtain ⟨w, n⟩ := r
  obtain ⟨w', n'⟩ := r'
  simp only at horder
  subst horder
  exact ht

/-- A forgotten price path triggers no more than a known one. -/
theorem triggered_of_none {prev : Option PriceTicks} {tick : Tick} {r : Resting}
    (ht : L0Engine.Triggered none tick r) : L0Engine.Triggered prev tick r := by
  rcases ht with hswept | hreached
  · simp [L0Engine.Swept] at hswept
  · exact Or.inr hreached

/-- Whatever the embedded engine fills, the plain engine fills now or has
filled. -/
theorem filled_by_anchor (h : Below used a done e) {tick : Tick} {id : OrderId}
    (hid : id ∈ (e.inner.onTick tick).filledIds) :
    id ∈ done ++ (a.onTick tick).filledIds := by
  obtain ⟨r, hr, rfl, htrig⟩ := L0Engine.exists_triggered_of_mem_filledIds h.sorted hid
  have hmem : r.order ∈ e.orders :=
    List.mem_append_right _ (List.mem_map_of_mem hr)
  rcases h.live r.order hmem with ⟨r', hr', hsame⟩ | hdone
  · have htrig' : L0Engine.Triggered a.prevPrice tick r := by
      rcases h.prev with hp | hp
      · rw [hp] at htrig
        exact triggered_of_none htrig
      · rw [hp] at htrig
        exact htrig
    have hfilled := L0Engine.mem_filledIds_of_triggered h.anchor_sorted h.anchor_nodup hr'
      (triggered_of_order_eq hsame.symm htrig')
    have hsameid : r'.id = r.id := congrArg Working.id hsame
    rw [hsameid] at hfilled
    exact List.mem_append_right _ hfilled
  · exact List.mem_append_left _ hdone

theorem orders_onTick_sublist (h : Below used a done e) (tick : Tick) :
    ({ e with inner := e.inner.onTick tick } : L1Engine).orders.Sublist e.orders := by
  unfold L1Engine.orders
  refine List.Sublist.append_left ?_ _
  rw [L0Engine.onTick_book, Book.iter_dropAll h.inner_nodup]
  exact List.filter_sublist.map _

/-- One observation matched by both engines. -/
theorem onTick (h : Below used a done e) (tick : Tick) :
    Below used (a.onTick tick) (done ++ (a.onTick tick).filledIds)
      { e with inner := e.inner.onTick tick } where
  anchor_sorted := by
    rw [L0Engine.onTick_book]
    exact h.anchor_sorted.dropAll _
  anchor_nodup := by
    rw [L0Engine.onTick_book]
    exact Book.nodup_dropAll h.anchor_nodup _
  anchor_used := by
    intro id hid
    rw [L0Engine.onTick_book] at hid
    obtain ⟨r, hr, rfl⟩ := List.mem_map.mp hid
    rw [Book.iter_dropAll h.anchor_nodup] at hr
    exact h.anchor_used _ (List.mem_map_of_mem (List.mem_of_mem_filter hr))
  sorted := by
    show (e.inner.onTick tick).book.Sorted
    rw [L0Engine.onTick_book]
    exact h.sorted.dropAll _
  nodup := h.nodup.sublist ((orders_onTick_sublist h tick).map Working.id)
  ids_used := fun w hw => h.ids_used w ((orders_onTick_sublist h tick).subset hw)
  live := by
    intro w hw
    rcases h.live w ((orders_onTick_sublist h tick).subset hw) with ⟨r, hr, rfl⟩ | hdone
    · by_cases hfilled : r.id ∈ (a.onTick tick).filledIds
      · exact Or.inr (List.mem_append_right _ hfilled)
      · refine Or.inl ⟨r, ?_, rfl⟩
        rw [L0Engine.onTick_book]
        exact L0Engine.mem_iter_dropAll h.anchor_nodup hr hfilled
    · exact Or.inr (List.mem_append_left _ hdone)
  prev := Or.inr rfl
  reported := by
    intro id hid
    simp only [L1Engine.reported, List.map_append, List.mem_append] at hid
    rcases hid with (hid | hid) | hid
    · exact h.filled_by_anchor hid
    · refine List.mem_append_left _ (h.reported id ?_)
      simp only [L1Engine.reported, List.map_append, List.mem_append]
      exact Or.inl (Or.inr hid)
    · refine List.mem_append_left _ (h.reported id ?_)
      simp only [L1Engine.reported, List.map_append, List.mem_append]
      exact Or.inr hid

/-- An observation only the plain engine matches. -/
theorem skipTick (h : Below used a done e) (tick : Tick) :
    Below used (a.onTick tick) (done ++ (a.onTick tick).filledIds) (e.onInvalidTick tick) := by
  have hinvalid := h.shuffled (L1Engine.shuffled_onInvalidTick e tick)
  refine
    { anchor_sorted := (h.onTick tick).anchor_sorted
      anchor_nodup := (h.onTick tick).anchor_nodup
      anchor_used := (h.onTick tick).anchor_used
      sorted := hinvalid.sorted
      nodup := hinvalid.nodup
      ids_used := hinvalid.ids_used
      live := ?_
      prev := Or.inl rfl
      reported := fun id hid => List.mem_append_left _ (hinvalid.reported id hid) }
  intro w hw
  rcases hinvalid.live w hw with ⟨r, hr, rfl⟩ | hdone
  · by_cases hfilled : r.id ∈ (a.onTick tick).filledIds
    · exact Or.inr (List.mem_append_right _ hfilled)
    · refine Or.inl ⟨r, ?_, rfl⟩
      rw [L0Engine.onTick_book]
      exact L0Engine.mem_iter_dropAll h.anchor_nodup hr hfilled
  · exact Or.inr (List.mem_append_left _ hdone)

/-- A whole observation of the L1 engine. -/
theorem onTickWithImpact {σ : Type} (h : Below used a done e) (tick : Tick)
    (measured : Measure σ) (s : σ) :
    Below used (a.onTick tick) (done ++ (a.onTick tick).filledIds)
      (e.onTickWithImpact tick measured s).1 := by
  have hmoved := (h.shuffled (L1Engine.shuffled_arrive e tick.stamp.exch
    (e.tradedVolume tick))).shuffled
    (L1Engine.shuffled_promote _ tick (e.tradedVolume tick))
  have hmatched := hmoved.onTick tick
  refine (hmatched.shuffled (L1Engine.shuffled_release tick.stamp.exch ?_)).shuffled
    (L1Engine.shuffled_clocks _ _ _ _)
  intro f hf
  have hids := L1Engine.orders_adjust
    ((e.arrive tick.stamp.exch (e.tradedVolume tick)).promote tick
      (e.tradedVolume tick)).policy tick
    (e.tradedVolume tick) measured s
    (((e.arrive tick.stamp.exch (e.tradedVolume tick)).promote tick
      (e.tradedVolume tick)).inner.onTick tick).fills
  have hmem := List.mem_map_of_mem (f := fun g : L0Fill => g.fill.order) hf
  rw [hids] at hmem
  exact hmem

end L1Engine.Below

/-! ## L2 over L1 -/

namespace L1Engine.Below

variable {used done : List OrderId} {a : L0Engine} {e : L2Engine}

theorem l2_submit {w : Working} (h : Below used a done e.inner) (hw : w.id ∉ used)
    (now : Nanos) : Below (w.id :: used) (a.submit w) done (e.submit w now).inner := by
  unfold L2Engine.submit
  simp only
  split_ifs
  · exact h.submit hw (shuffled_submitWhileDepthInvalid _ _ _)
  · exact h.submit hw (shuffled_submitQueue _ _ _ _ _)

theorem l2_installSnapshot (h : Below used a done e.inner) (updateId : UInt64)
    (bids asks : List Level) : Below used a done (e.installSnapshot updateId bids asks).inner := by
  unfold L2Engine.installSnapshot
  simp only
  split_ifs
  · exact h.shuffled (shuffled_resumeDepth h.inner_nodup)
  · exact h

theorem l2_installSnapshotAt (h : Below used a done e.inner) (at_ : Nanos) (updateId : UInt64)
    (bids asks : List Level) :
    Below used a done (e.installSnapshotAt at_ updateId bids asks).inner := by
  unfold L2Engine.installSnapshotAt
  simp only
  split_ifs
  · exact l2_installSnapshot (h.shuffled (shuffled_sampleArrivals _ _ _)) updateId bids asks
  · exact l2_installSnapshot h updateId bids asks

theorem l2_onDepth (h : Below used a done e.inner) (update : DepthUpdate) :
    Below used a done (e.onDepth update).1.inner := by
  have hsampled := fun before queue => h.shuffled (shuffled_sampleArrivals e.inner before queue)
  unfold L2Engine.onDepth
  simp only
  split
  · exact hsampled _ _
  · exact (hsampled _ _).shuffled (shuffled_invalidateDepth _)

/-- While the book is invalid nothing executes, but the plain engine goes on. -/
theorem l2_onTick (h : Below used a done e.inner) (tick : Tick) :
    Below used (a.onTick tick) (done ++ (a.onTick tick).filledIds) (e.onTick tick).inner := by
  unfold L2Engine.onTick
  simp only
  split_ifs
  · exact h.skipTick tick
  · exact (h.shuffled (shuffled_sampleArrivals _ _ _)).onTickWithImpact tick _ _

end L1Engine.Below

/-! ## Runs -/

/-- How a matcher of an upper tier stands below a plain L0 engine. -/
inductive Matcher.Below (used : List OrderId) (a : L0Engine) (done : List OrderId) :
    Matcher → Prop
  | l1 {e : L1Engine} (h : L1Engine.Below used a done e) : Below used a done (.l1 e)
  | l2 {e : L2Engine} (h : L1Engine.Below used a done e.inner) : Below used a done (.l2 e)

namespace Matcher.Below

variable {used done : List OrderId} {a : L0Engine} {m : Matcher}

theorem onTick (h : Below used a done m) (tick : Tick) :
    Below used (a.onTick tick) (done ++ (a.onTick tick).filledIds) (m.onTick tick) := by
  cases h with
  | l1 h => exact .l1 (h.onTickWithImpact tick _ _)
  | l2 h => exact .l2 (h.l2_onTick tick)

/-- Every execution an upper tier knows of is one of the plain engine's. -/
theorem executed_mem (h : Below used a done m) {id : OrderId} (hid : id ∈ m.executed) :
    id ∈ done := by
  cases h with
  | l1 h =>
    refine h.reported id ?_
    simp only [Matcher.executed, Matcher.anchor, Matcher.fills, L1Engine.reported,
      List.map_append, List.mem_append] at hid ⊢
    exact hid.imp_left Or.inl
  | l2 h =>
    refine h.reported id ?_
    simp only [Matcher.executed, Matcher.anchor, Matcher.fills, L1Engine.reported,
      List.map_append, List.mem_append] at hid ⊢
    exact hid.imp_left Or.inl

/-- One input that is not a tick. -/
theorem step (h : Below used a done m) {input : Input}
    (hfresh : ∀ id ∈ submittedIds [input], id ∉ used) (htick : ∀ t, input ≠ .op (.tick t)) :
    ∃ a', (Matcher.l0 a).step input = .l0 a' ∧
      Below (submittedIds [input] ++ used) a' done (m.step input) := by
  cases input with
  | op op =>
    cases op with
    | submit w now =>
      have hw : w.id ∉ used := hfresh w.id (by simp [submittedIds])
      refine ⟨_, rfl, ?_⟩
      cases h with
      | l1 h => exact .l1 (h.submit hw (L1Engine.shuffled_submitQueue _ _ _ _ _))
      | l2 h => exact .l2 (h.l2_submit hw now)
    | cancel id =>
      refine ⟨_, rfl, ?_⟩
      cases h with
      | l1 h => exact .l1 (h.cancel id)
      | l2 h => exact .l2 (h.cancel id)
    | cancelAll =>
      refine ⟨_, rfl, ?_⟩
      cases h with
      | l1 h => exact .l1 h.cancelAll
      | l2 h => exact .l2 h.cancelAll
    | tick t => exact absurd rfl (htick t)
  | depth update =>
    refine ⟨a, rfl, ?_⟩
    cases h with
    | l1 h => exact .l1 h
    | l2 h =>
      rename_i e
      have hdepth := h.l2_onDepth update
      rcases hcall : e.onDepth update with ⟨e', answer | ⟨⟩⟩ <;>
        simp only [Matcher.step, Matcher.onDepth, hcall] at hdepth ⊢ <;>
        exact .l2 hdepth
  | gap =>
    refine ⟨a, rfl, ?_⟩
    cases h with
    | l1 h => exact .l1 h
    | l2 h => exact .l2 (h.shuffled (L1Engine.shuffled_invalidateDepth _))
  | snapshot updateId bids asks =>
    refine ⟨a, rfl, ?_⟩
    cases h with
    | l1 h => exact .l1 h
    | l2 h => exact .l2 (h.l2_installSnapshot updateId bids asks)
  | snapshotAt at_ updateId bids asks =>
    refine ⟨a, rfl, ?_⟩
    cases h with
    | l1 h => exact .l1 h
    | l2 h => exact .l2 (h.l2_installSnapshotAt at_ updateId bids asks)

end Matcher.Below

theorem submittedIds_cons (input : Input) (script : List Input) :
    submittedIds (input :: script) = submittedIds [input] ++ submittedIds script := by
  unfold submittedIds
  rw [← List.filterMap_append, List.singleton_append]

theorem executions_cons_of_not_tick (m : Matcher) {input : Input}
    (htick : ∀ t, input ≠ .op (.tick t)) (rest : List Input) :
    m.executions (input :: rest) = (m.step input).executions rest := by
  cases input with
  | op op =>
    cases op with
    | tick t => exact absurd rfl (htick t)
    | submit order now => rfl
    | cancel id => rfl
    | cancelAll => rfl
  | depth update => rfl
  | gap => rfl
  | snapshot updateId bids asks => rfl
  | snapshotAt at_ updateId bids asks => rfl

/-- Along a script, whatever the upper tier has executed by its `k`-th tick the
plain engine has executed by then. -/
theorem executions_below {used done : List OrderId} {a : L0Engine} {m : Matcher}
    (h : m.Below used a done) {script : List Input} (hnd : (submittedIds script).Nodup)
    (hfresh : ∀ id ∈ submittedIds script, id ∉ used) {k : Nat} {ids : List OrderId}
    {id : OrderId} (hk : (m.executions script)[k]? = some ids) (hid : id ∈ ids) :
    id ∈ done ∨ ∃ j ≤ k, ∃ ids', ((Matcher.l0 a).executions script)[j]? = some ids' ∧
      id ∈ ids' := by
  induction script generalizing used done a m k with
  | nil => simp [Matcher.executions] at hk
  | cons input rest ih =>
    rw [submittedIds_cons] at hnd hfresh
    obtain ⟨-, hndrest, hdisj⟩ := List.nodup_append.mp hnd
    by_cases htick : ∃ t, input = .op (.tick t)
    · obtain ⟨t, rfl⟩ := htick
      have hnext := h.onTick t
      have hhead : ((Matcher.l0 a).onTick t).executed =
          (a.onTick t).filledIds ++ (a.onTick t).filledIds := by
        simp [Matcher.executed, Matcher.onTick, Matcher.anchor, Matcher.fills,
          L0Engine.filledIds]
      have hlater : id ∈ done ++ (a.onTick t).filledIds → id ∈ done ∨ ∃ j ≤ k, ∃ ids',
          ((Matcher.l0 a).executions (.op (.tick t) :: rest))[j]? = some ids' ∧ id ∈ ids' := by
        intro hmem
        rcases List.mem_append.mp hmem with hmem | hmem
        · exact Or.inl hmem
        · refine Or.inr ⟨0, Nat.zero_le k, _, rfl, ?_⟩
          rw [hhead]
          exact List.mem_append_left _ hmem
      cases k with
      | zero =>
        simp only [Matcher.executions, List.getElem?_cons_zero, Option.some.injEq] at hk
        rw [← hk] at hid
        exact hlater (hnext.executed_mem hid)
      | succ k =>
        simp only [Matcher.executions, List.getElem?_cons_succ] at hk
        rcases ih hnext hndrest (fun x hx => hfresh x (List.mem_append_right _ hx)) hk with
          hdone | ⟨j, hj, ids', hget, hmem⟩
        · exact hlater hdone
        · exact Or.inr ⟨j + 1, Nat.succ_le_succ hj, ids', hget, hmem⟩
    · push Not at htick
      obtain ⟨a', ha', hnext⟩ := h.step (fun x hx => hfresh x (List.mem_append_left _ hx)) htick
      rw [executions_cons_of_not_tick m htick] at hk
      rw [executions_cons_of_not_tick (.l0 a) htick, ha']
      refine ih hnext hndrest ?_ hk
      intro x hx hused
      rcases List.mem_append.mp hused with hnew | hold
      · exact hdisj x hnew x hx rfl
      · exact hfresh x (List.mem_append_right _ hx) hold

/-- **The fidelity ladder only ever removes or delays fills**: whatever an L1
engine under any policy, or an L2 engine over one, has executed at the `k`-th
tick of a script of distinct submissions, a plain L0 engine on the same script
has executed at that tick or an earlier one. -/
theorem executed_by_l0_no_later (instrument : InstrumentId) (policy : Policy) {m : Matcher}
    (hm : m = .l1 (L1Engine.new instrument policy) ∨
      m = .l2 (L2Engine.new (L1Engine.new instrument policy)))
    (script : List Input) (hids : (submittedIds script).Nodup) (k : Nat) (ids : List OrderId)
    {id : OrderId} (hk : (m.executions script)[k]? = some ids) (hid : id ∈ ids) :
    ∃ j ≤ k, ∃ ids', ((Matcher.l0 (L0Engine.new instrument)).executions script)[j]? = some ids' ∧
      id ∈ ids' := by
  have hbelow : m.Below [] (L0Engine.new instrument) [] := by
    rcases hm with rfl | rfl
    · exact .l1 (L1Engine.Below.new instrument policy)
    · exact .l2 (L1Engine.Below.new instrument policy)
  rcases executions_below hbelow hids (by simp) hk hid with hnone | hfound
  · simp at hnone
  · exact hfound

/-- A buy behind one lot of queue and five nanoseconds of entry latency, and two
ticks, of which the second reaches it. -/
def queuedScript : List Input :=
  [.op (.submit (limitOrder 1 .buy 100 5 ⟨0, 0⟩ .opening five_lots) 0),
    .op (.tick ⟨⟨10, 10⟩, 105, 106, 100, 104, 106, 0⟩),
    .op (.tick ⟨⟨20, 20⟩, 99, 101, 99, 98, 99, 10⟩)]

theorem executed_by_l0_no_later_queued :
    ∃ j ≤ 1, ∃ ids',
      ((Matcher.l0 (L0Engine.new 7)).executions queuedScript)[j]? = some ids' ∧ 1 ∈ ids' :=
  executed_by_l0_no_later 7 ⟨.fixed 1, ⟨.fixed 5, .fixed 0⟩, ⟨0⟩⟩ (Or.inl rfl)
    queuedScript (by decide) 1 [1, 1] (by decide +kernel) (by decide)
