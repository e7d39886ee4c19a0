/-
# What liquidation leaves behind

A liquidated account has every position closed and its balance settled to zero;
what it still had is forfeited.  `holdings_closeAll` says what the two ways of
closing an account make of its holdings: a lone holding is closed out whether or
not it has a position, and of several only those with a position are.
-/
import OpenQuanter.Outputs

open Logged

/-- Changing several entries of a list, each once, changes just those. -/
theorem getElem?_foldl_modify {α : Type} (f : α → α) (l : List α) {is : List Nat} (hnd : is.Nodup)
    (j : Nat) :
    (is.foldl (fun l i => l.modify i f) l)[j]? = if j ∈ is then l[j]?.map f else l[j]? := by
  induction is generalizing l with
  | nil => simp
  | cons i rest ih =>
    obtain ⟨hi, hrest⟩ := List.nodup_cons.mp hnd
    rw [List.foldl_cons, ih _ hrest, List.getElem?_modify]
    by_cases hij : i = j
    · subst hij
      simp [hi]
    · have hji : ¬ j = i := fun h => hij h.symm
      simp [hij, hji]

namespace State

variable (s : State)

/-! ## The holdings -/

theorem holdings_foldlM_closeOne (indices : List Nat) (acc : State × List Liquidation) :
    (indices.foldlM closeOne acc).val.1.holdings =
      indices.foldl (fun l i => l.modify i Holding.closedOut) acc.1.holdings := by
  induction indices generalizing acc with
  | nil => rfl
  | cons i rest ih =>
    rw [List.foldlM_cons, val_bind, ih, List.foldl_cons]
    rfl

/-- What closing the account makes of one of its holdings. -/
def closedIn (h : Holding) : Holding :=
  if s.holdings.length = 1 ∨ h.isFlat = false then h.closedOut else h

theorem holdings_closeAll (price : PriceTicks) :
    (s.closeAll price).val.1.holdings = s.holdings.map s.closedIn := by
  unfold closeAll
  by_cases hlone : s.holdings.length = 1
  · rw [if_pos hlone]
    obtain ⟨h, hh⟩ := List.length_eq_one_iff.mp hlone
    show s.holdings.modify 0 Holding.closedOut = s.holdings.map s.closedIn
    have hclosed : s.closedIn h = h.closedOut := if_pos (Or.inl hlone)
    rw [hh, List.map_singleton, hclosed]
    rfl
  · rw [if_neg hlone, holdings_foldlM_closeOne]
    have hnd : s.openIndices.Nodup := List.nodup_range.filter _
    apply List.ext_getElem?
    intro j
    rw [getElem?_foldl_modify _ _ hnd, List.getElem?_map]
    by_cases hj : j < s.holdings.length
    · have hat : s.holdingsAt j = s.holdings[j] := List.getD_eq_getElem _ _ hj
      have hmem : j ∈ s.openIndices ↔ s.holdings[j].isFlat = false := by
        simp [openIndices, hj, hat]
      have hclosed : s.closedIn s.holdings[j] =
          if s.holdings[j].isFlat = false then s.holdings[j].closedOut else s.holdings[j] := by
        unfold closedIn
        simp only [hlone, false_or]
      rw [List.getElem?_eq_getElem hj, Option.map_some, Option.map_some, hclosed]
      by_cases hflat : s.holdings[j].isFlat = false
      · rw [if_pos (hmem.mpr hflat), if_pos hflat]
      · rw [if_neg (fun h => hflat (hmem.mp h)), if_neg hflat]
    · have hnone : s.holdings[j]? = none := List.getElem?_eq_none (by omega)
      simp only [hnone, Option.map_none, ite_self]

theorem isFlat_closedIn (h : Holding) : (s.closedIn h).isFlat = true := by
  unfold closedIn
  split
  · rfl
  · simp_all

/-- A liquidated account has no position. -/
theorem isFlat_closeAll (price : PriceTicks) : (s.closeAll price).val.1.isFlat = true := by
  unfold isFlat
  rw [holdings_closeAll, List.all_map, List.all_eq_true]
  intro h _
  exact s.isFlat_closedIn h

theorem isFlat_liquidate (price : PriceTicks) : (s.liquidate price).val.1.isFlat = true :=
  s.isFlat_closeAll price

/-! ## The cash -/

theorem forfeited_closeAll (price : PriceTicks) :
    (s.closeAll price).val.1.forfeited = s.forfeited := by
  unfold closeAll
  split
  · rfl
  · exact ensures_empty (ensures_foldlM
      (I := fun p : State × List Liquidation => p.1.forfeited = s.forfeited)
      (fun acc index hacc => ensures_of_val hacc) (s := (s, [])) rfl s.openIndices)

/-- Where a liquidation closes a holding: a lone one at the price of the check,
one of several at its own mark, or at its entry when it was never marked. -/
def closesAt (price : PriceTicks) (h : Holding) : PriceTicks :=
  if s.holdings.length = 1 then price else if h.mark = 0 then h.entry else h.mark

theorem closesAt_of_several (hseveral : ¬ s.holdings.length = 1) (price : PriceTicks)
    (h : Holding) :
    s.closesAt price h = if h.mark = 0 then h.entry else h.mark :=
  if_neg hseveral

theorem holdings_eq_map_range :
    s.holdings = (List.range s.holdings.length).map s.holdingsAt := by
  apply List.ext_getElem
  · simp
  · intro j hj _
    rw [List.getElem_map, List.getElem_range, holdingsAt, List.getD_eq_getElem _ _ hj]

theorem ensures_liquidateHolding (index : Nat) (price : PriceTicks) :
    Ensures {Fault.cash} (s.liquidateHolding index price) (fun p =>
      p.1.balance.toInt = s.balance.toInt + ((s.holdingsAt index).unrealizedAt price).toInt ∧
      p.1.holdings = s.holdings.modify index Holding.closedOut) := by
  refine ensures_bind (P := fun t => t.balance.toInt = s.balance.toInt +
    ((s.holdingsAt index).unrealizedAt price).toInt ∧ t.holdings = s.holdings) ?_ ?_
  · refine ensures_bind (P := fun _ => True) (fun _ => trivial) (fun realized _ => ?_)
    intro hfree
    exact ⟨(ensures_credit _ _ hfree).2.2.2.2.2, rfl⟩
  · rintro t ⟨hbalance, hholdings⟩
    refine ensures_pure ⟨hbalance, ?_⟩
    rw [holdings_modifyAt, hholdings]

/-- Closing one holding after another books the profit of each at its own price:
closing one does not move the others. -/
theorem ensures_foldlM_closeOne (indices : List Nat) (hnd : indices.Nodup) :
    ∀ acc : State × List Liquidation, (∀ i ∈ indices, acc.1.holdings[i]? = s.holdings[i]?) →
      (∀ i ∈ indices, i < s.holdings.length) →
      Ensures {Fault.cash} (indices.foldlM closeOne acc) (fun p => p.1.balance.toInt =
        acc.1.balance.toInt + (indices.map (fun i =>
          ((s.holdingsAt i).unrealizedAt (s.closingPrice i)).toInt)).sum) := by
  induction indices with
  | nil =>
    intro acc _ _
    exact ensures_pure (by simp)
  | cons i rest ih =>
    intro acc hsame hlt
    obtain ⟨hi, hrest⟩ := List.nodup_cons.mp hnd
    have hat : acc.1.holdingsAt i = s.holdingsAt i := by
      have hi' := hlt i List.mem_cons_self
      rw [holdingsAt, holdingsAt, List.getD_eq_getElem?_getD, List.getD_eq_getElem?_getD,
        hsame i List.mem_cons_self, List.getElem?_eq_getElem hi', Option.getD_some,
        Option.getD_some]
    rw [List.foldlM_cons]
    refine ensures_bind (P := fun p : State × List Liquidation => p.1.balance.toInt =
      acc.1.balance.toInt + ((s.holdingsAt i).unrealizedAt (s.closingPrice i)).toInt ∧
      p.1.holdings = acc.1.holdings.modify i Holding.closedOut) ?_ ?_
    · have hprice : acc.1.closingPrice i = s.closingPrice i := by
        unfold closingPrice
        rw [hat]
      refine ensures_bind (ensures_liquidateHolding acc.1 i _) ?_
      rintro ⟨t, l⟩ ⟨hbalance, hholdings⟩
      rw [hat, hprice] at hbalance
      exact ensures_pure ⟨hbalance, hholdings⟩
    · rintro p ⟨hbalance, hholdings⟩
      refine (ih hrest p (fun j hj => ?_) (fun j hj => hlt j (List.mem_cons_of_mem _ hj))).mono ?_
      · have hne : i ≠ j := fun h => hi (h ▸ hj)
        rw [hholdings, List.getElem?_modify, ← hsame j (List.mem_cons_of_mem _ hj)]
        simp [hne]
      · intro q hq
        rw [hq, hbalance, List.map_cons, List.sum_cons]
        omega

/-- A flat holding has no profit at any price. -/
theorem unrealizedAt_of_isFlat {h : Holding} (hflat : h.isFlat = true) (price : PriceTicks) :
    h.unrealizedAt price = 0 := by
  unfold Holding.isFlat at hflat
  simp only [Bool.and_eq_true, decide_eq_true_eq] at hflat
  unfold Holding.unrealizedAt
  rw [hflat.1, hflat.2]
  rfl

theorem sum_filter_of_zero {α : Type} {p : α → Bool} {f : α → Int} (l : List α)
    (hzero : ∀ x ∈ l, p x = false → f x = 0) : ((l.filter p).map f).sum = (l.map f).sum := by
  induction l with
  | nil => rfl
  | cons x rest ih =>
    have hrest := ih (fun y hy => hzero y (List.mem_cons_of_mem _ hy))
    rw [List.filter_cons, List.map_cons, List.sum_cons]
    split
    · rw [List.map_cons, List.sum_cons, hrest]
    · have := hzero x List.mem_cons_self (by simpa using ‹¬ p x = true›)
      rw [hrest, this]
      omega

/-- **The balance after every position is closed**: each holding's profit at its
closing price on top of what was there. -/
theorem ensures_closeAll (price : PriceTicks) :
    Ensures {Fault.cash} (s.closeAll price) (fun p => p.1.balance.toInt = s.balance.toInt +
      (s.holdings.map (fun h => (h.unrealizedAt (s.closesAt price h)).toInt)).sum) := by
  unfold closeAll
  by_cases hlone : s.holdings.length = 1
  · rw [if_pos hlone]
    obtain ⟨h, hh⟩ := List.length_eq_one_iff.mp hlone
    refine ensures_bind (s.ensures_liquidateHolding 0 price) ?_
    rintro ⟨t, l⟩ ⟨hbalance, -⟩
    refine ensures_pure ?_
    simpa [hh, holdingsAt, closesAt] using hbalance
  · rw [if_neg hlone]
    have hopen : s.openIndices.Nodup := List.nodup_range.filter _
    have hlt : ∀ i ∈ s.openIndices, i < s.holdings.length := by
      intro i hi
      exact List.mem_range.mp (List.mem_of_mem_filter hi)
    refine (s.ensures_foldlM_closeOne _ hopen (s, []) (fun _ _ => rfl) hlt).mono ?_
    intro p hp
    rw [hp]
    have hmap : s.holdings.map (fun h => (h.unrealizedAt (s.closesAt price h)).toInt) =
        (List.range s.holdings.length).map (fun i =>
          ((s.holdingsAt i).unrealizedAt (s.closingPrice i)).toInt) := by
      conv_lhs => rw [s.holdings_eq_map_range, List.map_map]
      apply List.map_congr_left
      intro i _
      show ((s.holdingsAt i).unrealizedAt (s.closesAt price (s.holdingsAt i))).toInt = _
      rw [s.closesAt_of_several hlone]
      rfl
    rw [hmap, openIndices, sum_filter_of_zero]
    intro i _ hflat
    rw [unrealizedAt_of_isFlat (by simpa using hflat)]
    rfl

/-- **The account is settled to zero, and what it had is forfeited.** -/
theorem ensures_liquidate (price : PriceTicks) :
    Ensures {Fault.cash} (s.liquidate price) (fun p => p.1.balance = 0 ∧
      p.1.forfeited.toInt = s.forfeited.toInt + s.balance.toInt +
        (s.holdings.map (fun h => (h.unrealizedAt (s.closesAt price h)).toInt)).sum) := by
  refine ensures_bind (P := fun p => p.1.forfeited = s.forfeited ∧ p.1.balance.toInt =
    s.balance.toInt + (s.holdings.map (fun h =>
      (h.unrealizedAt (s.closesAt price h)).toInt)).sum) ?_ ?_
  · exact fun hfree => ⟨s.forfeited_closeAll price, s.ensures_closeAll price hfree⟩
  rintro ⟨t, out⟩ ⟨hforfeited, hclosed⟩
  refine ensures_bind (ensures_neg t.balance) (fun debit hdebit => ?_)
  refine ensures_bind (t.ensures_credit debit) (fun u hu => ?_)
  refine ensures_bind (ensures_add u.forfeited t.balance) (fun total htotal => ?_)
  obtain ⟨-, -, -, -, hkept, hbalance⟩ := hu
  refine ensures_pure ⟨?_, ?_⟩
  · show u.balance = 0
    apply Int64.toInt_inj.mp
    rw [hbalance, hdebit]
    simp
  · show total.toInt = _
    simp only at hforfeited hclosed
    rw [htotal, hkept, hforfeited, hclosed]
    omega

end State
