/-
# The working set and the books

The kernel keeps the ids of its working orders in a list of its own, beside the
books of its holdings' matchers.  Under simulated matching by L0 the two hold the
same ids (`Kernel.Tracked`) after everything an event books, and after every
liquidation but one kind: with several holdings only those with a position are
closed out, so an order resting on a flat holding survives while its id leaves
the working list.
-/
import OpenQuanter.Solvency

open Logged

/-! ## One matcher -/

namespace Book

theorem restingIds_dropAll {b : Book} (hnd : b.restingIds.Nodup) (ids : List OrderId) :
    (b.dropAll ids).restingIds = b.restingIds.filter (· ∉ ids) := by
  unfold restingIds
  rw [iter_dropAll hnd, List.filter_map]
  rfl

theorem restingIds_drop {b : Book} (hnd : b.restingIds.Nodup) (id : OrderId) :
    (b.drop id).restingIds = b.restingIds.filter (· ≠ id) := by
  have h := restingIds_dropAll hnd [id]
  rw [dropAll_cons, dropAll_nil] at h
  simpa using h

end Book

namespace L0Engine

/-- A tick fills only orders that rest. -/
theorem filledIds_subset (e : L0Engine) (tick : Tick) :
    ∀ id ∈ (e.onTick tick).filledIds, id ∈ e.book.restingIds := by
  have hhits : TickHits (fun r => r ∈ e.book.iter) tick e.book :=
    { buys := fun r hr => by simp [Book.iter, hr]
      sells := fun r hr => by simp [Book.iter, hr]
      bids := fun _ r hr _ _ _ => by simp [Book.iter, hr]
      asks := fun _ r hr _ _ _ => by simp [Book.iter, hr] }
  intro id hid
  obtain ⟨r, rfl, hr⟩ := (exists_executed_onTick hhits
    (fun _ _ r hr => mem_iter_of_mem_gapCandidates hr)).hit id hid
  exact List.mem_map_of_mem hr

theorem cancel_found (e : L0Engine) (id : OrderId) :
    (e.cancel id).2 = true ↔ id ∈ e.book.restingIds := by
  show ((e.book.iter.find? (·.id = id)).map Resting.order).isSome = true ↔ _
  simp [Book.restingIds, List.find?_isSome]

end L0Engine

/-- A matcher of the first tier. -/
def Matcher.IsL0 (m : Matcher) : Prop := ∃ e, m = .l0 e

theorem Matcher.Called.isL0 {m m' : Matcher} (h : m.Called m') (hm : m.IsL0) : m'.IsL0 := by
  obtain ⟨e, rfl⟩ := hm
  cases h with
  | submit order now => exact ⟨_, rfl⟩
  | cancel id => exact ⟨_, rfl⟩
  | onTick tick => exact ⟨_, rfl⟩
  | onDepth update => exact ⟨_, rfl⟩

namespace Holding

/-- The ids resting on a holding. -/
def resting (h : Holding) : List OrderId := h.engine.book.restingIds

variable {h : Holding}

theorem resting_submit (hl0 : h.engine.IsL0) (order : Working) (now : Nanos) :
    (h.engine.submit order now).book.restingIds.Perm (order.id :: h.resting) := by
  obtain ⟨e, he⟩ := hl0
  unfold resting
  rw [he]
  exact Book.restingIds_insert_perm e.book order

theorem resting_cancel (hl0 : h.engine.IsL0) (hnd : h.resting.Nodup) (id : OrderId) :
    (h.engine.cancel id).1.book.restingIds = h.resting.filter (· ≠ id) ∧
      ((h.engine.cancel id).2 = true ↔ id ∈ h.resting) := by
  obtain ⟨e, he⟩ := hl0
  unfold resting at hnd ⊢
  rw [he] at hnd ⊢
  exact ⟨Book.restingIds_drop hnd id, e.cancel_found id⟩

theorem resting_onTick (hl0 : h.engine.IsL0) (hnd : h.resting.Nodup) (tick : Tick) :
    (h.engine.onTick tick).book.restingIds =
      h.resting.filter (· ∉ (h.engine.onTick tick).fills.map (·.fill.order)) ∧
    ∀ f ∈ (h.engine.onTick tick).fills, f.fill.order ∈ h.resting := by
  obtain ⟨e, he⟩ := hl0
  unfold resting at hnd ⊢
  rw [he] at hnd ⊢
  constructor
  · show (e.onTick tick).book.restingIds = _
    rw [e.onTick_book tick]
    exact Book.restingIds_dropAll hnd _
  · intro f hf
    exact e.filledIds_subset tick _ (List.mem_map_of_mem hf)

theorem resting_onDepth (hl0 : h.engine.IsL0) (update : DepthUpdate) :
    (h.engine.onDepth update).1.book.restingIds = h.resting := by
  obtain ⟨e, he⟩ := hl0
  unfold resting
  rw [he]
  rfl

/-- A closed-out holding has no order left. -/
theorem resting_closedOut (hl0 : h.engine.IsL0) : h.closedOut.resting = [] := by
  obtain ⟨e, he⟩ := hl0
  have hbook : h.closedOut.engine.book = e.book.dropAll e.book.restingIds := by
    show h.engine.cancelAll.1.book = _
    rw [he]
    rfl
  unfold resting Book.restingIds
  rw [hbook, Book.iter_dropAll_restingIds]
  rfl

end Holding

/-! ## All holdings -/

namespace State

/-- The ids resting in the account's matchers. -/
def resting (s : State) : List OrderId := s.holdings.flatMap Holding.resting

/-- Every holding is matched by L0. -/
def L0Matched (s : State) : Prop := ∀ h ∈ s.holdings, h.engine.IsL0

theorem Kept.resting {s t : State} (h : Kept s t) : t.resting = s.resting := by
  have hread : ∀ u : State, u.resting =
      (u.holdings.map Holding.rest).flatMap (fun r => r.2.2.2.1.book.restingIds) := by
    intro u
    rw [List.flatMap_map]
    rfl
  rw [hread, hread, h.rests]

theorem Move.l0Matched {s t : State} (hmove : Move s t) (h : s.L0Matched) : t.L0Matched := by
  cases hmove with
  | held _ hholdings =>
    intro y hy
    obtain ⟨x, hx, hxy⟩ := exists_of_forall₂ hholdings hy
    have hx0 := h x hx
    cases hxy with
    | stay => exact hx0
    | call hm => exact hm.isL0 hx0
    | mark _ => exact hx0
    | close =>
      obtain ⟨e, he⟩ := hx0
      refine ⟨e.cancelAll.1, ?_⟩
      show x.engine.cancelAll.1 = _
      rw [he]
      rfl
  | fill fill =>
    intro y hy
    have hrest : y.rest ∈ s.holdings.map Holding.rest := by
      rw [← (s.kept_applyFill fill).rests]
      exact List.mem_map_of_mem hy
    obtain ⟨x, hx, hxy⟩ := List.mem_map.mp hrest
    have hengine : x.engine = y.engine := congrArg (fun r => r.2.2.2.1) hxy
    rw [← hengine]
    exact h x hx

theorem Moves.l0Matched {s t : State} (hmoves : Moves s t) (h : s.L0Matched) : t.L0Matched := by
  induction hmoves with
  | refl => exact h
  | tail _ hmove ih => exact hmove.l0Matched ih

/-- The resting ids around one holding: changing it changes its part only. -/
theorem exists_resting_split {s : State} {index : Nat} (hlt : index < s.holdings.length) :
    ∃ front back, s.resting = front ++ ((s.holdingsAt index).resting ++ back) ∧
      ∀ f : Holding → Holding, (s.modifyAt index f).resting =
        front ++ ((f (s.holdingsAt index)).resting ++ back) := by
  refine ⟨(s.holdings.take index).flatMap Holding.resting,
    (s.holdings.drop (index + 1)).flatMap Holding.resting, ?_, ?_⟩
  · unfold resting holdingsAt
    rw [List.getD_eq_getElem _ _ hlt]
    conv_lhs => rw [← List.take_append_drop index s.holdings, List.drop_eq_getElem_cons hlt]
    rw [List.flatMap_append, List.flatMap_cons]
  · intro f
    unfold resting holdingsAt
    rw [holdings_modifyAt, List.modify_eq_take_cons_drop hlt, List.getD_eq_getElem _ _ hlt,
      List.flatMap_append, List.flatMap_cons]

theorem nodup_resting_holdingsAt {s : State} {index : Nat} (hlt : index < s.holdings.length)
    (hnd : s.resting.Nodup) : (s.holdingsAt index).resting.Nodup := by
  obtain ⟨front, back, hs, -⟩ := exists_resting_split hlt
  rw [hs] at hnd
  exact (List.nodup_append.mp (List.nodup_append.mp hnd).2.1).1

/-- A change of one holding that leaves its resting ids alone. -/
theorem resting_modifyAt_of_eq {s : State} {index : Nat} (hlt : index < s.holdings.length)
    {f : Holding → Holding} (hf : (f (s.holdingsAt index)).resting = (s.holdingsAt index).resting) :
    (s.modifyAt index f).resting = s.resting := by
  obtain ⟨front, back, hs, hmod⟩ := exists_resting_split hlt
  rw [hmod, hf, hs]

/-- Removing ids that rest on one holding only. -/
theorem resting_modifyAt_filter {s : State} {index : Nat} (hlt : index < s.holdings.length)
    (hnd : s.resting.Nodup) {f : Holding → Holding} {ids : List OrderId}
    (hids : ∀ id ∈ ids, id ∈ (s.holdingsAt index).resting)
    (hf : (f (s.holdingsAt index)).resting = (s.holdingsAt index).resting.filter (· ∉ ids)) :
    (s.modifyAt index f).resting = s.resting.filter (· ∉ ids) := by
  obtain ⟨front, back, hs, hmod⟩ := exists_resting_split hlt
  rw [hs] at hnd
  obtain ⟨-, hnd', hfront⟩ := List.nodup_append.mp hnd
  obtain ⟨-, -, hback⟩ := List.nodup_append.mp hnd'
  have hkeepFront : front.filter (· ∉ ids) = front := by
    rw [List.filter_eq_self]
    intro x hx
    have : x ∉ ids := fun hmem =>
      hfront x hx x (List.mem_append_left _ (hids x hmem)) rfl
    simpa using this
  have hkeepBack : back.filter (· ∉ ids) = back := by
    rw [List.filter_eq_self]
    intro x hx
    have : x ∉ ids := fun hmem => hback x (hids x hmem) x hx rfl
    simpa using this
  rw [hmod, hf, hs, List.filter_append, List.filter_append, hkeepFront, hkeepBack]

end State

/-! ## What booking keeps -/

namespace Kernel

/-- The working list holds the ids that rest in the matchers, each once. -/
structure Tracked (k : Kernel) : Prop where
  perm : k.working.Perm k.state.resting
  nodup : k.working.Nodup
  l0 : k.state.L0Matched
  simulated : k.state.matching = .simulated

variable {k : Kernel}

theorem Tracked.resting_nodup (h : k.Tracked) : k.state.resting.Nodup :=
  h.perm.nodup_iff.mp h.nodup

/-- Nothing to show about the tiers: a move keeps them. -/
theorem Tracked.of_moves (h : k.Tracked) {k' : Kernel} (hmoves : State.Moves k.state k'.state)
    (hperm : k'.working.Perm k'.state.resting) (hnodup : k'.working.Nodup) : k'.Tracked :=
  ⟨hperm, hnodup, hmoves.l0Matched h.l0, hmoves.sameSetup.matching.trans h.simulated⟩

/-- Neither the working list nor a book changed. -/
theorem Tracked.of_same (h : k.Tracked) {k' : Kernel} (hmoves : State.Moves k.state k'.state)
    (hworking : k'.working = k.working) (hresting : k'.state.resting = k.state.resting) :
    k'.Tracked := by
  refine h.of_moves hmoves ?_ ?_
  · rw [hworking, hresting]
    exact h.perm
  · rw [hworking]
    exact h.nodup

theorem Tracked.emit (h : k.Tracked) (o : Output) : (k.emit o).Tracked :=
  ⟨h.perm, h.nodup, h.l0, h.simulated⟩

theorem Tracked.cleared (h : k.Tracked) : k.cleared.Tracked :=
  ⟨h.perm, h.nodup, h.l0, h.simulated⟩

theorem orderOf_id (id : OrderId) (side : Side) (price : Option PriceTicks) (qty : QtyLots)
    (offset : Offset) (stamp : Stamp) (hqty : 0 < qty) :
    (orderOf id side price qty offset stamp hqty).id = id := by
  cases price <;> rfl

theorem Tracked.onSubmit (h : k.Tracked) (instrument : Option InstrumentId) (id : OrderId)
    (side : Side) (price : Option PriceTicks) (qty : QtyLots) (offset : Offset) (stamp : Stamp) :
    (k.onSubmit instrument id side price qty offset stamp).Tracked := by
  have hmoves := k.moves_onSubmit instrument id side price qty offset stamp
  unfold Kernel.onSubmit at hmoves ⊢
  by_cases hqty : 0 < qty
  · rw [dif_pos hqty] at hmoves ⊢
    by_cases hdup : k.working.contains id = true
    · rw [if_pos hdup]
      exact h.emit _
    · rw [if_neg hdup] at hmoves ⊢
      rcases hroute : k.route instrument with _ | index
      · exact h.emit _
      · simp only [hroute] at hmoves ⊢
        split at hmoves
        · rw [if_pos ‹_›]
          exact h.emit _
        · rw [if_neg ‹_›]
          have hlt := k.route_lt hroute
          obtain ⟨front, back, hs, hmod⟩ := State.exists_resting_split hlt
          have hl0 := h.l0 _ (State.holdingsAt_mem hlt)
          have hfresh : id ∉ k.working := by simpa using hdup
          refine h.of_moves hmoves ?_ ?_
          · rw [hmod]
            have hsubmit := Holding.resting_submit hl0
              (orderOf id side price qty offset stamp hqty) stamp.local_
            rw [orderOf_id] at hsubmit
            have hone : (k.working ++ [id]).Perm (id :: k.state.resting) :=
              (List.perm_append_singleton id k.working).trans (h.perm.cons id)
            refine hone.trans ?_
            rw [hs]
            refine List.perm_middle.symm.trans ?_
            exact (hsubmit.symm.append_right back).append_left front
          · exact List.nodup_append.mpr ⟨h.nodup, List.nodup_singleton id, fun a ha b hb hab =>
              hfresh (by rwa [← List.mem_singleton.mp hb, ← hab])⟩
  · rw [dif_neg hqty]
    exact h.emit _

theorem resting_cancelFirst (id : OrderId) (holdings : List Holding)
    (hl0 : ∀ h ∈ holdings, h.engine.IsL0) (hnd : (holdings.flatMap Holding.resting).Nodup) :
    (cancelFirst id holdings).1.flatMap Holding.resting =
        (holdings.flatMap Holding.resting).filter (· ≠ id) ∧
      ((cancelFirst id holdings).2 = true ↔ id ∈ holdings.flatMap Holding.resting) := by
  induction holdings with
  | nil => simp [cancelFirst]
  | cons h rest ih =>
    rw [List.flatMap_cons] at hnd
    obtain ⟨hnd₁, hnd₂, hdisjoint⟩ := List.nodup_append.mp hnd
    obtain ⟨hbook, hfound⟩ := Holding.resting_cancel (hl0 h List.mem_cons_self) hnd₁ id
    obtain ⟨hrest, hfound'⟩ := ih (fun x hx => hl0 x (List.mem_cons_of_mem h hx)) hnd₂
    rw [List.flatMap_cons, List.filter_append, List.mem_append]
    simp only [cancelFirst]
    split
    · rename_i hyes
      have hmem := hfound.mp hyes
      -- the rest is not asked, and does not hold the id either
      have hkeep : (rest.flatMap Holding.resting).filter (· ≠ id) =
          rest.flatMap Holding.resting := by
        rw [List.filter_eq_self]
        intro x hx
        have hne : x ≠ id := fun heq => hdisjoint id hmem x hx heq.symm
        simpa using hne
      rw [hkeep, List.flatMap_cons]
      exact ⟨congrArg (· ++ _) hbook, by simp [hmem]⟩
    · rename_i hno
      have hmem : id ∉ h.resting := fun hm => hno (hfound.mpr hm)
      rw [List.flatMap_cons]
      refine ⟨?_, by simp [hmem, hfound']⟩
      rw [hrest]
      exact congrArg (· ++ _) hbook

theorem Tracked.onCancel (h : k.Tracked) (id : OrderId) : (k.onCancel id).Tracked := by
  obtain ⟨hresting, hfound⟩ := resting_cancelFirst id k.state.holdings h.l0 h.resting_nodup
  have hmoves := k.moves_onCancel id
  unfold Kernel.onCancel at hmoves ⊢
  simp only at hmoves ⊢
  by_cases hyes : (cancelFirst id k.state.holdings).2 = true
  · rw [if_pos hyes] at hmoves ⊢
    refine h.of_moves hmoves ?_ (h.nodup.filter _)
    exact (h.perm.filter _).trans (List.Perm.of_eq hresting.symm)
  · rw [if_neg hyes] at hmoves ⊢
    have hmem : id ∉ k.state.resting := fun hm => hyes (hfound.mpr hm)
    have hkeep : k.state.resting.filter (· ≠ id) = k.state.resting := by
      rw [List.filter_eq_self]
      intro x hx
      have hne : x ≠ id := fun heq => hmem (heq ▸ hx)
      simpa using hne
    exact h.of_same hmoves rfl (hresting.trans hkeep)

theorem Tracked.onDepth (h : k.Tracked) (update : DepthUpdate) : (k.onDepth update).Tracked := by
  have hmoves := k.moves_onDepth update
  unfold Kernel.onDepth at hmoves ⊢
  split at hmoves
  · rw [if_pos ‹_›]
    have hlt : 0 < k.state.holdings.length := List.length_pos_iff.mpr k.state.nonempty
    exact h.of_same hmoves rfl (State.resting_modifyAt_of_eq hlt
      (Holding.resting_onDepth (h.l0 _ (State.holdingsAt_mem hlt)) update))
  · rw [if_neg ‹_›]
    exact h

theorem working_bookFills (k : Kernel) (index : Nat) (fills : List Fill) :
    (k.bookFills index fills).val.working = k.working.filter (· ∉ fills.map Fill.order) := by
  induction fills generalizing k with
  | nil =>
    show k.working = _
    simp
  | cons fill rest ih =>
    unfold bookFills at ih ⊢
    rw [List.foldlM_cons, val_bind, ih]
    show (k.working.filter (· ≠ fill.order)).filter _ = _
    rw [List.filter_filter]
    apply List.filter_congr
    intro x _
    by_cases h₁ : x = fill.order <;> by_cases h₂ : x ∈ rest.map Fill.order <;> simp [h₁, h₂]

/-- The holding a tick is about to match. -/
theorem Tracked.observe (h : k.Tracked) {index : Nat} (hlt : index < k.state.holdings.length)
    (tick : Tick) : (k.observe index tick).Tracked :=
  h.of_same (k.moves_observe index tick) rfl
    (State.resting_modifyAt_of_eq (s := k.state.withNow tick.stamp.exch) hlt rfl)

/-- **A tick takes the ids it fills off both lists.** -/
theorem Tracked.bookTick (h : k.Tracked) {index : Nat} (hlt : index < k.state.holdings.length)
    (tick : Tick) : (k.bookTick index tick).val.1.Tracked := by
  have hmoves := k.moves_bookTick index tick
  have hobserved := h.observe hlt tick
  have hlt' : index < (k.observe index tick).state.holdings.length := by
    show index < (k.state.holdings.modify index _).length
    rwa [List.length_modify]
  have hsim : ¬ (k.observe index tick).state.matching = .venue := by
    rw [hobserved.simulated]
    simp
  unfold Kernel.bookTick at hmoves ⊢
  simp only [if_neg hsim] at hmoves ⊢
  set engine := ((k.observe index tick).state.holdingsAt index).engine.onTick tick with hengine
  have hl0 := hobserved.l0 _ (State.holdingsAt_mem hlt')
  have hnd := State.nodup_resting_holdingsAt hlt' hobserved.resting_nodup
  obtain ⟨hbook, hsubset⟩ := Holding.resting_onTick hl0 hnd tick
  have hresting := State.resting_modifyAt_filter hlt' hobserved.resting_nodup
    (f := fun x => { x with engine := engine }) 
    (by
      intro id hid
      obtain ⟨f, hf, rfl⟩ := List.mem_map.mp hid
      exact hsubset f hf)
    hbook
  have hkept := (kept_bookFills ((k.observe index tick).withState
    ((k.observe index tick).state.modifyAt index (fun x => { x with engine := engine }))) index
    (engine.fills.map L0Fill.fill)).resting
  have hworking := working_bookFills ((k.observe index tick).withState
    ((k.observe index tick).state.modifyAt index (fun x => { x with engine := engine }))) index
    (engine.fills.map L0Fill.fill)
  rw [List.map_map] at hworking
  refine h.of_moves hmoves ?_ ?_
  · rw [val_bind, val_pure, hworking, hkept]
    show (k.working.filter _).Perm _
    have hfiltered := hobserved.perm.filter (· ∉ engine.fills.map (·.fill.order))
    exact hfiltered.trans (List.Perm.of_eq hresting.symm)
  · rw [val_bind, val_pure, hworking]
    exact h.nodup.filter _

end Kernel
