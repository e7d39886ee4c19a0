/-
# What an L1 engine does to the orders it holds

Every operation of L1 but matching and cancelling only moves orders between its
three lists, adds the submitted one, and learns of no new fill.  That is said
once, by `Shuffled`, with one lemma for each operation.
-/
import OpenQuanter.Matcher

/-! ## The orders an L1 engine holds -/

namespace L1Engine

/-- Every order the engine holds: pending, queued and resting. -/
def orders (e : L1Engine) : List Working :=
  e.pending.map Pending.order ++ e.queued.map Queued.order ++
    e.inner.book.iter.map Resting.order

/-- Every order with a fill the engine has made: of the last match, held back,
or handed over. -/
def reported (e : L1Engine) : List OrderId :=
  (e.inner.fills ++ e.delayed.map Delayed.fill ++ e.released).map (·.fill.order)

/-- `e'` holds the orders of `e` and `extra`, in some other place, and knows no
fill that `e` did not. -/
structure Shuffled (extra : List Working) (e e' : L1Engine) : Prop where
  orders : e'.orders.Perm (extra ++ e.orders)
  sorted : e.inner.book.Sorted → e'.inner.book.Sorted
  prev : e'.inner.prevPrice = none ∨ e'.inner.prevPrice = e.inner.prevPrice
  reported : ∀ id ∈ e'.reported, id ∈ e.reported

theorem Shuffled.refl (e : L1Engine) : Shuffled [] e e :=
  ⟨List.Perm.refl _, id, Or.inr rfl, fun _ h => h⟩

theorem Shuffled.trans {l l' : List Working} {e₁ e₂ e₃ : L1Engine} (h : Shuffled l e₁ e₂)
    (h' : Shuffled l' e₂ e₃) : Shuffled (l' ++ l) e₁ e₃ where
  orders := by
    rw [List.append_assoc]
    exact h'.orders.trans (h.orders.append_left l')
  sorted := fun hs => h'.sorted (h.sorted hs)
  prev := by
    rcases h'.prev with hp | hp
    · exact Or.inl hp
    · rw [hp]
      exact h.prev
  reported := fun id hid => h.reported id (h'.reported id hid)

/-- Moving orders once more adds none. -/
theorem Shuffled.moved {l : List Working} {e₁ e₂ e₃ : L1Engine} (h : Shuffled l e₁ e₂)
    (h' : Shuffled [] e₂ e₃) : Shuffled l e₁ e₃ :=
  h.trans h'

/-! ## What only moves orders -/

theorem shuffled_queue (e : L1Engine) {q : Queued} {w : Working} (hq : q.order = w) :
    Shuffled [w] e { e with queued := e.queued ++ [q] } where
  orders := by
    subst hq
    show (e.pending.map Pending.order ++ (e.queued ++ [q]).map Queued.order ++
      e.inner.book.iter.map Resting.order).Perm _
    simp only [orders, List.map_append, List.map_cons, List.map_nil, List.append_assoc,
      List.singleton_append]
    rw [← List.append_assoc, ← List.append_assoc]
    exact List.perm_middle
  sorted := id
  prev := Or.inr rfl
  reported := fun _ h => h

theorem shuffled_pend (e : L1Engine) {p : Pending} {w : Working} (hp : p.order = w) :
    Shuffled [w] e { e with pending := e.pending ++ [p] } where
  orders := by
    subst hp
    show ((e.pending ++ [p]).map Pending.order ++ e.queued.map Queued.order ++
      e.inner.book.iter.map Resting.order).Perm _
    simp only [orders, List.map_append, List.map_cons, List.map_nil, List.append_assoc,
      List.singleton_append]
    exact List.perm_middle
  sorted := id
  prev := Or.inr rfl
  reported := fun _ h => h

theorem shuffled_rest (e : L1Engine) (w : Working) :
    Shuffled [w] e { e with inner := e.inner.submit w } where
  orders := by
    have hiter := (Book.iter_insert_perm e.inner.book w).map Resting.order
    exact (hiter.append_left _).trans List.perm_middle
  sorted := fun hs => hs.insert w
  prev := Or.inr rfl
  reported := fun _ h => h

theorem shuffled_admitOrder (e : L1Engine) (w : Working) (volume measured : Option Int64)
    (since : Option Nanos) : Shuffled [w] e (e.admitOrder w volume measured since) := by
  unfold admitOrder
  simp only
  split_ifs
  · exact shuffled_queue e rfl
  · exact shuffled_queue e rfl
  · exact shuffled_rest e w

theorem shuffled_submitQueue (e : L1Engine) (w : Working) (now : Nanos) (ahead : Option Int64)
    (sample : Bool) : Shuffled [w] e (e.submitQueue w now ahead sample) := by
  unfold submitQueue
  simp only
  split_ifs <;> first
    | exact shuffled_pend e rfl
    | exact shuffled_admitOrder e w _ _ _

theorem shuffled_submitWhileDepthInvalid (e : L1Engine) (w : Working) (now : Nanos) :
    Shuffled [w] e (e.submitWhileDepthInvalid w now) :=
  shuffled_pend e rfl

/-- Rewriting the pending entries without touching their orders. -/
theorem shuffled_mapPending (e : L1Engine) (f : Pending → Pending)
    (hf : ∀ p, (f p).order = p.order) :
    Shuffled [] e { e with pending := e.pending.map f } where
  orders := by
    have hmap : (e.pending.map f).map Pending.order = e.pending.map Pending.order := by
      rw [List.map_map]
      exact List.map_congr_left (fun p _ => hf p)
    show ((e.pending.map f).map Pending.order ++ _ ++ _).Perm _
    rw [hmap]
    exact List.Perm.refl _
  sorted := id
  prev := Or.inr rfl
  reported := fun _ h => h

/-- Rewriting the queue entries without touching their orders. -/
theorem shuffled_mapQueued (e : L1Engine) (f : Queued → Queued)
    (hf : ∀ q, (f q).order = q.order) :
    Shuffled [] e { e with queued := e.queued.map f } where
  orders := by
    have hmap : (e.queued.map f).map Queued.order = e.queued.map Queued.order := by
      rw [List.map_map]
      exact List.map_congr_left (fun q _ => hf q)
    show (_ ++ (e.queued.map f).map Queued.order ++ _).Perm _
    rw [hmap]
    exact List.Perm.refl _
  sorted := id
  prev := Or.inr rfl
  reported := fun _ h => h

theorem shuffled_sampleArrivals (e : L1Engine) (now : Nanos)
    (queue : Side → PriceTicks → Option Int64) : Shuffled [] e (e.sampleArrivals now queue) := by
  apply shuffled_mapPending
  intro p
  split <;> rfl

/-- Changing nothing but the clocks and the volumes. -/
theorem shuffled_clocks (e : L1Engine) (volume lastTraded : Option Int64) (at_ : Option Nanos) :
    Shuffled [] e { e with prevVolume := volume, lastTraded := lastTraded, prevAt := at_ } :=
  ⟨List.Perm.refl _, id, Or.inr rfl, fun _ h => h⟩

theorem shuffled_forget (e : L1Engine) :
    Shuffled [] e { e with inner := e.inner.forgetPricePath } :=
  ⟨List.Perm.refl _, id, Or.inl rfl, fun _ h => h⟩

theorem shuffled_invalidateDepth (e : L1Engine) : Shuffled [] e e.invalidateDepth :=
  (shuffled_forget e).moved ((shuffled_clocks _ none e.lastTraded none).moved
    (shuffled_mapPending _ (fun p => { p with sampleAtArrival := true, measuredAhead := none })
      (fun _ => rfl)))

theorem shuffled_onInvalidTick (e : L1Engine) (tick : Tick) :
    Shuffled [] e (e.onInvalidTick tick) where
  orders := List.Perm.refl _
  sorted := id
  prev := Or.inl rfl
  reported := by
    intro id hid
    simp only [reported, onInvalidTick, L0Engine.forgetPricePath, List.map_append, List.map_map,
      List.mem_append, List.mem_map, List.mem_filter] at hid ⊢
    rcases hid with (hid | ⟨d, ⟨hd, -⟩, rfl⟩) | ⟨d, ⟨hd, -⟩, rfl⟩
    · exact Or.inl (Or.inl hid)
    · exact Or.inl (Or.inr ⟨d, hd, rfl⟩)
    · exact Or.inl (Or.inr ⟨d, hd, rfl⟩)

/-! ## Putting resting orders back behind a queue -/

/-- Taking an order off a book of distinct ids and adding it again elsewhere. -/
theorem perm_drop {b : Book} (hnd : b.restingIds.Nodup) {r : Resting} (hr : r ∈ b.iter) :
    b.iter.Perm (r :: (b.drop r.id).iter) := by
  rw [Book.iter_drop]
  obtain ⟨x, l₁, l₂, hbefore, hx, hsplit, herase⟩ :=
    List.exists_of_eraseP hr (p := (·.id = r.id)) (by simp)
  have hxr : x = r := by
    -- both are in the book under one id
    have hxid : x.id = r.id := by simpa using hx
    have hxmem : x ∈ b.iter := by rw [hsplit]; simp
    exact List.inj_on_of_nodup_map hnd hxmem hr hxid
  rw [herase, hsplit, hxr]
  exact List.perm_middle

theorem shuffled_requeue (queue : Side → PriceTicks → Int64) {e : L1Engine} {r : Resting}
    (hnd : e.inner.book.restingIds.Nodup) (hr : r ∈ e.inner.book.iter) :
    Shuffled [] e (requeue queue e r) := by
  unfold requeue
  split
  · exact Shuffled.refl e
  · simp only
    split_ifs
    · refine ⟨?_, fun hs => hs.drop r.id, Or.inr rfl, fun _ h => h⟩
      have hdrop := (perm_drop hnd hr).map Resting.order
      show (e.pending.map Pending.order ++ (e.queued ++ [_]).map Queued.order ++
        (e.inner.book.drop r.id).iter.map Resting.order).Perm _
      simp only [orders, List.nil_append, List.map_append, List.map_cons, List.map_nil,
        List.append_assoc, List.singleton_append]
      exact (hdrop.symm.append_left _).append_left _
    · exact Shuffled.refl e

theorem requeue_book (queue : Side → PriceTicks → Int64) (e : L1Engine) (r : Resting) :
    (requeue queue e r).inner.book = e.inner.book ∨
      (requeue queue e r).inner.book = e.inner.book.drop r.id := by
  unfold requeue
  split
  · exact Or.inl rfl
  · simp only
    split_ifs
    · exact Or.inr rfl
    · exact Or.inl rfl

/-- The loop over the resting orders: each is still in the book at its turn,
because only others have left it. -/
theorem shuffled_foldl_requeue {queue : Side → PriceTicks → Int64} {l : List Resting}
    {e : L1Engine} (hnd : e.inner.book.restingIds.Nodup) (hl : (l.map Resting.id).Nodup)
    (hmem : ∀ r ∈ l, r ∈ e.inner.book.iter) : Shuffled [] e (l.foldl (requeue queue) e) := by
  induction l generalizing e with
  | nil => exact Shuffled.refl e
  | cons r rest ih =>
    rw [List.map_cons, List.nodup_cons] at hl
    have hstep := shuffled_requeue queue hnd (hmem r List.mem_cons_self)
    refine hstep.moved (ih ?_ hl.2 ?_)
    · rcases requeue_book queue e r with hb | hb <;> rw [hb]
      · exact hnd
      · exact Book.nodup_drop hnd r.id
    · intro x hx
      have hxmem := hmem x (List.mem_cons_of_mem r hx)
      rcases requeue_book queue e r with hb | hb <;> rw [hb]
      · exact hxmem
      · have hne : x.id ≠ r.id := fun heq => hl.1 (heq ▸ List.mem_map_of_mem hx)
        rw [Book.iter_drop_of_nodup hnd]
        exact List.mem_filter.mpr ⟨hxmem, by simpa using hne⟩

theorem shuffled_resumeDepth {queue : Side → PriceTicks → Int64} {e : L1Engine}
    (hnd : e.inner.book.restingIds.Nodup) : Shuffled [] e (e.resumeDepth queue) := by
  unfold resumeDepth
  simp only
  refine ((shuffled_forget e).moved (shuffled_clocks _ none e.lastTraded none)).moved ?_
  refine (shuffled_foldl_requeue ?_ ?_ ?_).moved (shuffled_mapQueued _ _ ?_)
  · exact hnd
  · exact ((List.perm_insertionSort _ _).map Resting.id).nodup_iff.mpr hnd
  · intro r hr
    exact (List.mem_insertionSort _).mp hr
  · intro q
    split <;> rfl

/-! ## Arriving and being promoted -/

theorem shuffled_foldl_admitOrder (volume : Option Int64) (arriving : List Pending)
    (e : L1Engine) :
    Shuffled (arriving.map Pending.order).reverse e
      (arriving.foldl (fun e p => e.admitOrder p.order volume p.measuredAhead p.since) e) := by
  induction arriving generalizing e with
  | nil => exact Shuffled.refl e
  | cons p rest ih =>
    rw [List.map_cons, List.reverse_cons]
    exact (shuffled_admitOrder e p.order volume p.measuredAhead p.since).trans (ih _)

/-- The two halves of a filtered list, with the rest of the engine's orders. -/
theorem perm_split {α : Type} (p : α → Bool) (l : List α) :
    (l.filter p ++ l.filter (fun a => !p a)).Perm l :=
  List.filter_append_perm p l

theorem shuffled_arrive (e : L1Engine) (now : Nanos) (traded : Int64) :
    Shuffled [] e (e.arrive now traded) := by
  unfold arrive
  simp only
  have hfold := shuffled_foldl_admitOrder (some traded) (e.pending.filter (·.liveAt ≤ now))
    { e with pending := e.pending.filter (fun p => !(p.liveAt ≤ now)) }
  refine ⟨hfold.orders.trans ?_, hfold.sorted, hfold.prev, hfold.reported⟩
  have hsplit := (perm_split (fun p : Pending => decide (p.liveAt ≤ now)) e.pending).map
    Pending.order
  rw [List.map_append] at hsplit
  have hrev := (List.reverse_perm ((e.pending.filter (·.liveAt ≤ now)).map Pending.order))
  refine (hrev.append_right _).trans ?_
  simp only [orders, List.nil_append]
  rw [← List.append_assoc, ← List.append_assoc]
  exact (hsplit.append_right _).append_right _

theorem shuffled_foldl_submit (promoted : List Working) (e : L1Engine) :
    Shuffled promoted.reverse e { e with inner := promoted.foldl L0Engine.submit e.inner } := by
  induction promoted generalizing e with
  | nil => exact Shuffled.refl e
  | cons w rest ih =>
    rw [List.reverse_cons]
    exact (shuffled_rest e w).trans (ih { e with inner := e.inner.submit w })

/-- Depleting a queue never changes the order in it. -/
theorem order_onTick (q : Queued) (tick : Tick) (traded : Int64) (prevAt : Option Nanos) :
    (q.onTick tick traded prevAt).1.order = q.order := by
  unfold Queued.onTick
  split_ifs
  · rfl
  · split
    · rfl
    · split_ifs <;> rfl

theorem shuffled_promote (e : L1Engine) (tick : Tick) (traded : Int64) :
    Shuffled [] e (e.promote tick traded) := by
  unfold promote
  simp only
  generalize hdep : e.queued.map (fun q => q.onTick tick traded e.prevAt) = depleted
  have horders : depleted.map (·.1.order) = e.queued.map Queued.order := by
    rw [← hdep, List.map_map]
    exact List.map_congr_left (fun q _ => order_onTick q tick traded e.prevAt)
  have hfold := shuffled_foldl_submit ((depleted.filter (·.2)).map (·.1.order))
    { e with queued := (depleted.filter (fun q => !q.2)).map (·.1) }
  refine ⟨hfold.orders.trans ?_, hfold.sorted, hfold.prev, hfold.reported⟩
  have hsplit := (perm_split (fun q : Queued × Bool => q.2) depleted).map (·.1.order)
  rw [List.map_append, horders] at hsplit
  have hrev := List.reverse_perm ((depleted.filter (·.2)).map (·.1.order))
  refine (hrev.append_right _).trans ?_
  simp only [orders, List.nil_append, List.map_map]
  rw [List.append_assoc, List.append_assoc, ← List.append_assoc]
  refine (List.perm_append_comm.append_right _).trans ?_
  have hrest := hsplit.append_right (e.inner.book.iter.map Resting.order)
  rw [List.append_assoc] at hrest ⊢
  exact hrest.append_left _

/-! ## Releasing fills -/

/-- Pricing a fill never changes whose it is. -/
theorem order_withImpact (policy : Policy) (f : L0Fill) (tick : Tick) (traded : Int64) :
    (policy.withImpact f tick traded).fill.order = f.fill.order := by
  unfold Policy.withImpact
  split_ifs
  · rfl
  · rfl
  · simp only
    split_ifs <;> rfl

theorem orders_adjust {σ : Type} (policy : Policy) (tick : Tick) (traded : Int64)
    (measured : Measure σ) (s : σ) (fills : List L0Fill) :
    (adjust policy tick traded measured s fills).1.map (·.fill.order) =
      fills.map (·.fill.order) := by
  induction fills generalizing s with
  | nil => rfl
  | cons f rest ih =>
    simp only [adjust, List.map_cons]
    rw [ih]
    congr 1
    split
    · rfl
    · exact order_withImpact policy f tick traded

theorem shuffled_release {e : L1Engine} {fills : List L0Fill} (now : Nanos)
    (hfills : ∀ f ∈ fills, f.fill.order ∈ e.inner.filledIds) :
    Shuffled [] e (e.release now fills) := by
  unfold release
  simp only
  split_ifs
  · refine ⟨List.Perm.refl _, id, Or.inr rfl, ?_⟩
    intro id hid
    have hdelayed : ∀ d ∈ e.delayed ++ fills.map (fun f =>
        { knownAt := now + e.policy.latency.response.at_ f.fill.order, fill := f : Delayed }),
        d.fill.fill.order ∈ e.reported := by
      intro d hd
      rcases List.mem_append.mp hd with hd | hd
      · simp only [reported, List.map_append, List.map_map, List.mem_append]
        exact Or.inl (Or.inr (List.mem_map.mpr ⟨d, hd, rfl⟩))
      · obtain ⟨f, hf, rfl⟩ := List.mem_map.mp hd
        simp only [reported, List.map_append, List.mem_append]
        exact Or.inl (Or.inl (hfills f hf))
    simp only [reported, List.map_append, List.map_map, List.mem_append, List.mem_map,
      List.mem_filter] at hid
    rcases hid with (⟨f, hf, rfl⟩ | ⟨d, ⟨hd, -⟩, rfl⟩) | ⟨d, ⟨hd, -⟩, rfl⟩
    · simp only [reported, List.map_append, List.mem_append]
      exact Or.inl (Or.inl (List.mem_map.mpr ⟨f, hf, rfl⟩))
    · exact hdelayed d (List.mem_append.mpr (hd.imp id fun ⟨f, hf, h⟩ =>
        List.mem_map.mpr ⟨f, hf, h⟩))
    · exact hdelayed d (List.mem_append.mpr (hd.imp id fun ⟨f, hf, h⟩ =>
        List.mem_map.mpr ⟨f, hf, h⟩))
  · refine ⟨List.Perm.refl _, id, Or.inr rfl, ?_⟩
    intro id hid
    simp only [reported, List.map_append, List.mem_append] at hid ⊢
    rcases hid with hid | hid
    · exact Or.inl hid
    · obtain ⟨f, hf, rfl⟩ := List.mem_map.mp hid
      exact Or.inl (Or.inl (hfills f hf))

end L1Engine
