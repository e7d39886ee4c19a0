/-
# Taking size off a side of the book (`Side::sweep`, `Side::take`)

Read as prices with a size each, a side of positive sizes is swept and drained
as a list best first is (`toInt_taken`, `cost_sweep`, `sizes_take`), so taking in
pieces is taking at once.  The price an order pays is the exact average rounded
against the taker, except where the total price is negative and does not divide:
there the division truncates the other way (`soundTake_iff`).
-/
import OpenQuanter.BestFirst
import OpenQuanter.L2
import OpenQuanter.Legs

namespace BookSide

/-! ## One side as prices with a size each -/

/-- The levels, as prices with a size each. -/
def sizes (levels : List Level) : List (Int64 × ℕ) :=
  levels.map fun l => (l.price, l.qty.toInt.toNat)

/-- A side all of whose sizes are positive. -/
def Positive (s : BookSide) : Prop := ∀ l ∈ s.levels, 0 < l.qty

@[simp] theorem sizes_cons (l : Level) (rest : List Level) :
    sizes (l :: rest) = (l.price, l.qty.toInt.toNat) :: sizes rest := rfl

theorem toInt_pos {q : Int64} : 0 < q ↔ 0 < q.toInt := by
  rw [Int64.lt_iff_toInt_lt, Int64.toInt_zero]

theorem sizes_pos {levels : List Level} (hpos : ∀ l ∈ levels, 0 < l.qty) :
    ∀ e ∈ sizes levels, 0 < e.2 := by
  intro e he
  obtain ⟨l, hl, rfl⟩ := List.mem_map.mp he
  have := toInt_pos.mp (hpos l hl)
  simp only
  omega

/-- Positive levels are told by their sizes. -/
theorem levels_eq_of_sizes {levels levels' : List Level} (hpos : ∀ l ∈ levels, 0 < l.qty)
    (hpos' : ∀ l ∈ levels', 0 < l.qty) (h : sizes levels = sizes levels') : levels = levels' := by
  induction levels generalizing levels' with
  | nil => exact (List.map_eq_nil_iff.mp h.symm).symm
  | cons l rest ih =>
    cases levels' with
    | nil => simp [sizes] at h
    | cons l' rest' =>
      obtain ⟨hl, hrest⟩ := List.forall_mem_cons.mp hpos
      obtain ⟨hl', hrest'⟩ := List.forall_mem_cons.mp hpos'
      rw [sizes_cons, sizes_cons, List.cons.injEq, Prod.mk.injEq] at h
      obtain ⟨⟨hprice, hqty⟩, htail⟩ := h
      have hsize := toInt_pos.mp hl
      have hsize' := toInt_pos.mp hl'
      have hq : l.qty = l'.qty := Int64.toInt_inj.mp (by omega)
      have hlevel : l = l' := by
        cases l
        cases l'
        simp_all
      rw [hlevel, ih hrest hrest' htail]

/-- One step of either walk: what goes, what the level keeps, what is still wanted. -/
theorem step_facts {want qty : Int64} (hwant : 0 ≤ want.toInt) (hqty : 0 < qty.toInt) :
    (min want (max qty 0)).toInt = min want.toInt qty.toInt ∧
      (qty - min want (max qty 0)).toInt = qty.toInt - min want.toInt qty.toInt ∧
      (want - min want (max qty 0)).toInt = want.toInt - min want.toInt qty.toInt := by
  have htake : (min want (max qty 0)).toInt = min want.toInt qty.toInt := by
    rw [toInt_min, toInt_max, Int64.toInt_zero]
    omega
  have hlt := Int64.toInt_lt want
  have hlt' := Int64.toInt_lt qty
  refine ⟨htake, ?_, ?_⟩
  · rw [Int64.toInt_sub, htake, Int.bmod_eq_of_le (by omega) (by omega)]
  · rw [Int64.toInt_sub, htake, Int.bmod_eq_of_le (by omega) (by omega)]

/-! ## Sweeping -/

/-- The walk of `sweep` over positive levels. -/
theorem sweepLevels_spec {levels : List Level} (hpos : ∀ l ∈ levels, 0 < l.qty) (want taken : Int64)
    (cost : Int) (hwant : 0 ≤ want.toInt) (htaken : 0 ≤ taken.toInt)
    (hfit : taken.toInt + want.toInt < 2 ^ 63) :
    (sweepLevels want taken cost levels).1.toInt
        = taken.toInt + (min want.toInt.toNat (BestFirst.total (sizes levels)) : ℕ) ∧
      (sweepLevels want taken cost levels).2.1
        = cost + BestFirst.worth Int64.toInt want.toInt.toNat (sizes levels) ∧
      (sweepLevels want taken cost levels).2.2.toInt
        = (want.toInt.toNat - BestFirst.total (sizes levels) : ℕ) := by
  induction levels generalizing want taken cost with
  | nil =>
    refine ⟨?_, ?_, ?_⟩
    · simp [sweepLevels, sizes]
    · simp [sweepLevels, sizes]
    · rw [sweepLevels]
      simp only [sizes, List.map_nil, BestFirst.total_nil]
      omega
  | cons l rest ih =>
    obtain ⟨hl, hrest⟩ := List.forall_mem_cons.mp hpos
    have hsize := toInt_pos.mp hl
    rw [sizes_cons, BestFirst.total_cons, BestFirst.worth_cons]
    by_cases hzero : want = 0
    · -- nothing is wanted any more
      subst hzero
      simp [sweepLevels]
    · have hne : want.toInt ≠ 0 := fun h => hzero (Int64.toInt_inj.mp h)
      obtain ⟨htake, -, hless⟩ := step_facts hwant hsize
      have hmore : (taken + min want (max l.qty 0)).toInt
          = taken.toInt + min want.toInt l.qty.toInt := by
        rw [Int64.toInt_add, htake, Int.bmod_eq_of_le (by omega) (by omega)]
      obtain ⟨htotal, hcost, hleft⟩ :=
        ih hrest (want - min want (max l.qty 0)) (taken + min want (max l.qty 0))
          (cost + l.price.toInt * (min want (max l.qty 0)).toInt) (by rw [hless]; omega)
          (by rw [hmore]; omega) (by rw [hless, hmore]; omega)
      have hnat : (want - min want (max l.qty 0)).toInt.toNat
          = want.toInt.toNat - l.qty.toInt.toNat := by
        rw [hless]
        omega
      have hmin : ((min want.toInt.toNat l.qty.toInt.toNat : ℕ) : ℤ)
          = min want.toInt l.qty.toInt := by
        omega
      have hsome : min want (max l.qty 0) ≠ 0 := by
        intro h
        rw [h, Int64.toInt_zero] at htake
        omega
      simp only [sweepLevels, if_neg hzero, if_neg hsome]
      rw [htotal, hcost, hleft, hnat, hmore, htake, hmin]
      refine ⟨?_, by ring, ?_⟩
      · omega
      · omega

section Sweep

variable {s : BookSide} (hpos : s.Positive) (qty : Int64)

include hpos

theorem sweep_spec :
    (s.sweep qty).taken.toInt = (min qty.toInt.toNat (BestFirst.total (sizes s.levels)) : ℕ) ∧
      (s.sweep qty).cost = BestFirst.worth Int64.toInt qty.toInt.toNat (sizes s.levels) ∧
      ((s.sweep qty).exhausted = true ↔ BestFirst.total (sizes s.levels) < qty.toInt.toNat) := by
  have hmax : (max qty 0).toInt = max qty.toInt 0 := by rw [toInt_max, Int64.toInt_zero]
  have hnat : (max qty 0).toInt.toNat = qty.toInt.toNat := by
    rw [hmax]
    omega
  have hlt := Int64.toInt_lt qty
  obtain ⟨htaken, hcost, hleft⟩ :=
    sweepLevels_spec hpos (max qty 0) 0 0 (hmax ▸ le_max_right _ _)
      (by rw [Int64.toInt_zero]) (by rw [hmax, Int64.toInt_zero]; omega)
  rw [hnat] at htaken hcost hleft
  refine ⟨?_, ?_, ?_⟩
  · simp only [sweep]
    rw [htaken, Int64.toInt_zero, zero_add]
  · simp only [sweep]
    rw [hcost, zero_add]
  · simp only [sweep]
    rw [decide_eq_true_eq, toInt_pos, hleft]
    omega

theorem toInt_taken :
    (s.sweep qty).taken.toInt = (min qty.toInt.toNat (BestFirst.total (sizes s.levels)) : ℕ) :=
  (sweep_spec hpos qty).1

theorem cost_sweep :
    (s.sweep qty).cost = BestFirst.worth Int64.toInt qty.toInt.toNat (sizes s.levels) :=
  (sweep_spec hpos qty).2.1

theorem exhausted_sweep :
    (s.sweep qty).exhausted = true ↔ BestFirst.total (sizes s.levels) < qty.toInt.toNat :=
  (sweep_spec hpos qty).2.2

end Sweep

/-! ## Taking -/

/-- The levels a drain leaves, once the emptied prefix is dropped. -/
theorem sizes_drainLevels {levels : List Level} (hpos : ∀ l ∈ levels, 0 < l.qty) {want : Int64}
    (hwant : 0 ≤ want.toInt) :
    sizes ((drainLevels want levels).1.drop (drainLevels want levels).2)
      = BestFirst.left want.toInt.toNat (sizes levels) := by
  induction levels generalizing want with
  | nil => rfl
  | cons l rest ih =>
    obtain ⟨hl, hrest⟩ := List.forall_mem_cons.mp hpos
    have hsize := toInt_pos.mp hl
    by_cases hzero : want = 0
    · subst hzero
      rw [Int64.toInt_zero, Int.toNat_zero, BestFirst.left_zero (sizes_pos hpos)]
      simp [drainLevels]
    obtain ⟨-, hkept, hless⟩ := step_facts hwant hsize
    rw [sizes_cons]
    by_cases hempty : l.qty - min want (max l.qty 0) = 0
    · -- the level is emptied, and goes with the prefix
      have hgone : l.qty.toInt ≤ want.toInt := by
        rw [hempty, Int64.toInt_zero] at hkept
        omega
      have hnat : (want - min want (max l.qty 0)).toInt.toNat
          = want.toInt.toNat - l.qty.toInt.toNat := by
        rw [hless]
        omega
      rw [BestFirst.left_cons_le (by simp only; omega), ← hnat, ← ih hrest (by rw [hless]; omega)]
      simp only [drainLevels, if_neg hzero, if_pos hempty, List.drop_succ_cons]
    · -- the level holds more than is wanted: the walk ends here
      have hmore : want.toInt < l.qty.toInt := by
        by_contra hle
        refine hempty (Int64.toInt_inj.mp ?_)
        rw [hkept, Int64.toInt_zero]
        omega
      have hdone : want - min want (max l.qty 0) = 0 := by
        apply Int64.toInt_inj.mp
        rw [hless, Int64.toInt_zero]
        omega
      have hstop : drainLevels (want - min want (max l.qty 0)) rest = (rest, 0) := by
        rw [hdone]
        cases rest <;> rfl
      have hqty : (l.qty - min want (max l.qty 0)).toInt.toNat
          = l.qty.toInt.toNat - want.toInt.toNat := by
        rw [hkept]
        omega
      rw [BestFirst.left_cons_lt (by simp only; omega)]
      simp only [drainLevels, if_neg hzero, if_neg hempty, hstop, List.drop_zero, sizes_cons, hqty]

variable {s : BookSide}

/-- **What a take leaves.** -/
theorem sizes_take (hpos : s.Positive) (qty : Int64) :
    sizes (s.take qty).2.levels = BestFirst.left qty.toInt.toNat (sizes s.levels) := by
  have htaken := toInt_taken hpos qty
  show sizes ((drainLevels (s.sweep qty).taken s.levels).1.drop _) = _
  rw [sizes_drainLevels hpos (htaken ▸ Int.natCast_nonneg _), htaken, Int.toNat_natCast]
  rcases Nat.le_total qty.toInt.toNat (BestFirst.total (sizes s.levels)) with h | h
  · rw [min_eq_left h]
  · rw [min_eq_right h, BestFirst.left_of_total_le le_rfl, BestFirst.left_of_total_le h]

theorem positive_take (hpos : s.Positive) (qty : Int64) : (s.take qty).2.Positive := by
  intro l hl
  have hmem : (l.price, l.qty.toInt.toNat) ∈ sizes (s.take qty).2.levels :=
    List.mem_map_of_mem (f := fun l : Level => (l.price, l.qty.toInt.toNat)) hl
  rw [sizes_take hpos] at hmem
  have := BestFirst.pos_left (sizes_pos hpos) _ _ hmem
  rw [toInt_pos]
  simp only at this
  omega

theorem eq_of_levels {s' : BookSide} (hdesc : s.descending = s'.descending)
    (hlevels : s.levels = s'.levels) : s = s' := by
  cases s
  cases s'
  simp only at hdesc hlevels
  subst hdesc hlevels
  rfl

/-- How much is on a side. -/
def size (s : BookSide) : ℤ := (s.levels.map fun l => l.qty.toInt).sum

/-- The total price of the best `qty` lots of a side. -/
def worth (s : BookSide) (qty : ℕ) : ℤ := BestFirst.worth Int64.toInt qty (sizes s.levels)

theorem size_eq_total (hpos : s.Positive) : s.size = (BestFirst.total (sizes s.levels) : ℕ) := by
  have hall : ∀ l ∈ s.levels, l.qty.toInt = (l.qty.toInt.toNat : ℤ) := by
    intro l hl
    have := toInt_pos.mp (hpos l hl)
    omega
  rw [size, List.map_congr_left hall, BestFirst.total, sizes, List.map_map, Nat.cast_list_sum,
    List.map_map]
  rfl

/-- Taking `a` and then `b` is taking `a + b` at once. -/
structure InPieces (s : BookSide) (a b : Int64) : Prop where
  taken : (s.take a).1.taken.toInt + ((s.take a).2.take b).1.taken.toInt
    = (s.sweep (a + b)).taken.toInt
  cost : (s.take a).1.cost + ((s.take a).2.take b).1.cost = (s.sweep (a + b)).cost
  side : ((s.take a).2.take b).2 = (s.take (a + b)).2

/-- A take leaves a side in order, and nothing is lost or made. -/
structure Kept (s : BookSide) (qty : Int64) : Prop where
  sorted : (s.take qty).2.levels.Pairwise fun a b => aheadOf s.descending a.price b.price
  positive : (s.take qty).2.Positive
  size : (s.take qty).1.taken.toInt + (s.take qty).2.size = s.size

theorem inPieces (hpos : s.Positive) {a b : Int64} (ha : 0 ≤ a.toInt) (hb : 0 ≤ b.toInt)
    (hab : a.toInt + b.toInt < 2 ^ 63) : s.InPieces a b := by
  have hsum : (a + b).toInt.toNat = a.toInt.toNat + b.toInt.toNat := by
    rw [Int64.toInt_add, Int.bmod_eq_of_le (by omega) (by omega)]
    omega
  have hleft := positive_take hpos a
  constructor
  · have htotal := BestFirst.total_left a.toInt.toNat (sizes s.levels)
    rw [take, toInt_taken hpos, toInt_taken hpos, hsum]
    show _ + ((s.take a).2.sweep b).taken.toInt = _
    rw [toInt_taken hleft, sizes_take hpos]
    omega
  · rw [take, cost_sweep hpos, cost_sweep hpos, hsum, BestFirst.worth_add, ← sizes_take hpos,
      ← cost_sweep hleft]
    rfl
  · refine eq_of_levels rfl (levels_eq_of_sizes (positive_take hleft b) (positive_take hpos _) ?_)
    rw [sizes_take hleft, sizes_take hpos, sizes_take hpos, hsum, BestFirst.left_add]

theorem kept (hpos : s.Positive) (qty : Int64) : s.Kept qty where
  sorted := (s.take qty).2.sorted
  positive := positive_take hpos qty
  size := by
    have htotal := BestFirst.total_left qty.toInt.toNat (sizes s.levels)
    rw [size_eq_total hpos, size_eq_total (positive_take hpos qty), sizes_take hpos, take,
      toInt_taken hpos]
    omega

end BookSide

/-! ## The price of a take -/

/-- The average price of `taken` lots as `take` of the working depth computes it. -/
def takerPrice (side : Side) (cost taken : Int) : Int :=
  match side with
  | .buy => (cost + taken - 1).tdiv taken
  | .sell => cost.tdiv taken

/-- A price no better for the taker than the exact average, by less than one tick. -/
def AgainstTaker (side : Side) (cost taken price : Int) : Prop :=
  match side with
  | .buy => cost ≤ price * taken ∧ price * taken < cost + taken
  | .sell => price * taken ≤ cost ∧ cost < price * taken + taken

/-- Where truncation toward zero rounds against the taker: the dividend is not negative,
or nothing is truncated. -/
def TruncatesAgainst (side : Side) (cost taken : Int) : Prop :=
  match side with
  | .buy => 0 < cost + taken ∨ taken ∣ cost - 1
  | .sell => 0 ≤ cost ∨ taken ∣ cost

/-- A truncated quotient of a negative number overshoots by the remainder. -/
theorem tdiv_mul_of_neg {n t : Int} (hn : n < 0) : n.tdiv t * t = n + -n % t := by
  have hdiv := Int.mul_ediv_add_emod (-n) t
  obtain ⟨m, rfl⟩ : ∃ m, n = -m := ⟨-n, (neg_neg n).symm⟩
  rw [neg_neg] at hdiv ⊢
  rw [Int.neg_tdiv, Int.tdiv_eq_ediv_of_nonneg (by omega), neg_mul, mul_comm]
  omega

/-- A truncated quotient of a number that is not negative falls short of it. -/
theorem tdiv_mul_of_nonneg {n t : Int} (hn : 0 ≤ n) : n.tdiv t * t = n - n % t := by
  have hdiv := Int.mul_ediv_add_emod n t
  rw [Int.tdiv_eq_ediv_of_nonneg hn, mul_comm]
  omega

/-- **When the computed price is against the taker.** -/
theorem againstTaker_iff (side : Side) {cost taken : Int} (ht : 0 < taken) :
    AgainstTaker side cost taken (takerPrice side cost taken) ↔
      TruncatesAgainst side cost taken := by
  cases side with
  | buy =>
    have hpos := Int.emod_nonneg (-(cost + taken - 1)) (ne_of_gt ht)
    have hdvd : taken ∣ cost - 1 ↔ -(cost + taken - 1) % taken = 0 := by
      rw [← Int.dvd_iff_emod_eq_zero, Int.dvd_neg, show cost + taken - 1 = cost - 1 + taken by ring,
        Int.dvd_add_left (dvd_refl taken)]
    rw [AgainstTaker, TruncatesAgainst, takerPrice, hdvd]
    rcases lt_or_ge (cost + taken - 1) 0 with hn | hn
    · rw [tdiv_mul_of_neg hn]
      omega
    · have hlow := Int.emod_nonneg (cost + taken - 1) (ne_of_gt ht)
      have hhigh := Int.emod_lt_of_pos (cost + taken - 1) ht
      rw [tdiv_mul_of_nonneg hn]
      omega
  | sell =>
    have hpos := Int.emod_nonneg (-cost) (ne_of_gt ht)
    have hless := Int.emod_lt_of_pos (-cost) ht
    have hdvd : taken ∣ cost ↔ -cost % taken = 0 := by
      rw [← Int.dvd_iff_emod_eq_zero, Int.dvd_neg]
    rw [AgainstTaker, TruncatesAgainst, takerPrice, hdvd]
    rcases lt_or_ge cost 0 with hn | hn
    · rw [tdiv_mul_of_neg hn]
      omega
    · have hlow := Int.emod_nonneg cost (ne_of_gt ht)
      have hhigh := Int.emod_lt_of_pos cost ht
      rw [tdiv_mul_of_nonneg hn]
      omega

/-- An average between two prices rounds to a price. -/
theorem fitsI64_takerPrice (side : Side) {cost taken : Int} (ht : 0 < taken)
    (hlow : -2 ^ 63 * taken ≤ cost) (hhigh : cost ≤ (2 ^ 63 - 1) * taken) :
    FitsI64 (takerPrice side cost taken) := by
  have hbound : ∀ n : Int, -2 ^ 63 * taken ≤ n → n < 2 ^ 63 * taken → FitsI64 (n.tdiv taken) := by
    intro n hn hn'
    rcases lt_or_ge n 0 with hneg | hpos
    · have hup := Int.emod_nonneg (-n) (ne_of_gt ht)
      have hmul := tdiv_mul_of_neg (t := taken) hneg
      constructor
      · exact le_of_mul_le_mul_right (by omega) ht
      · have hless := Int.emod_lt_of_pos (-n) ht
        have hnonpos : n.tdiv taken < 1 := lt_of_mul_lt_mul_right (by omega) ht.le
        omega
    · have hup := Int.emod_nonneg n (ne_of_gt ht)
      have hmul := tdiv_mul_of_nonneg (t := taken) hpos
      constructor
      · have hnonneg : 0 ≤ n.tdiv taken := Int.tdiv_nonneg hpos ht.le
        omega
      · exact lt_of_mul_lt_mul_right (by omega) ht.le
  cases side with
  | buy => exact hbound _ (by omega) (by omega)
  | sell => exact hbound _ hlow (by omega)

namespace WorkingDepth

/-- The side a taker faces: its copy if there is one, else the venue's. -/
def facing (d : WorkingDepth) (venue : VenueBook) : Side → BookSide
  | .buy => d.asks.getD venue.asks
  | .sell => d.bids.getD venue.bids

variable {d : WorkingDepth} {venue : VenueBook} {side : Side} {qty : QtyLots}

theorem take_fst : (d.take venue side qty).1 =
    if ((d.facing venue side).sweep qty).exhausted || ((d.facing venue side).sweep qty).taken ≤ 0
    then none
    else if FitsI64 (takerPrice side ((d.facing venue side).sweep qty).cost
        ((d.facing venue side).sweep qty).taken.toInt)
      then some (Int64.ofInt (takerPrice side ((d.facing venue side).sweep qty).cost
        ((d.facing venue side).sweep qty).taken.toInt))
      else none := by
  cases side
  · exact apply_ite Prod.fst _ _ _
  · exact apply_ite Prod.fst _ _ _

end WorkingDepth

namespace BookSide

variable {s : BookSide} (hpos : s.Positive) {qty : QtyLots}

include hpos

/-- A side that goes deep enough gives all that is asked for, at an average that is a price. -/
theorem sweep_deep (hdeep : 0 < qty.toInt ∧ qty.toInt ≤ s.size) (side : Side) :
    (s.sweep qty).exhausted = false ∧ (s.sweep qty).taken.toInt = qty.toInt ∧
      (s.sweep qty).cost = s.worth qty.toInt.toNat ∧
      FitsI64 (takerPrice side (s.worth qty.toInt.toNat) qty.toInt) := by
  obtain ⟨hqty, hle⟩ := hdeep
  rw [size_eq_total hpos] at hle
  have hnat : ((qty.toInt.toNat : ℕ) : ℤ) = qty.toInt := by omega
  refine ⟨?_, ?_, cost_sweep hpos qty, ?_⟩
  · rw [Bool.eq_false_iff, Ne, exhausted_sweep hpos]
    omega
  · rw [toInt_taken hpos]
    omega
  · have hprices : ∀ e ∈ sizes s.levels, (-2 ^ 63 : ℤ) ≤ e.1.toInt ∧ e.1.toInt ≤ 2 ^ 63 - 1 := by
      intro e _
      have hlow := Int64.le_toInt e.1
      have hhigh := Int64.toInt_lt e.1
      omega
    obtain ⟨hlow, hhigh⟩ :=
      BestFirst.worth_bounds hprices qty.toInt.toNat (by omega)
    rw [hnat] at hlow hhigh
    exact fitsI64_takerPrice side hqty hlow hhigh

theorem sweep_shallow (hshallow : ¬ (0 < qty.toInt ∧ qty.toInt ≤ s.size)) :
    (s.sweep qty).exhausted = true ∨ (s.sweep qty).taken ≤ 0 := by
  rw [size_eq_total hpos] at hshallow
  rw [exhausted_sweep hpos, Int64.le_iff_toInt_le, toInt_taken hpos, Int64.toInt_zero]
  omega

end BookSide

/-- **There is a price exactly if the side goes that deep**, and it is the rounded average. -/
theorem WorkingDepth.take_price {d : WorkingDepth} {venue : VenueBook} {side : Side}
    {s : BookSide} (hs : d.facing venue side = s) (hpos : s.Positive) {qty : QtyLots}
    {price : PriceTicks} :
    (d.take venue side qty).1 = some price ↔ (0 < qty.toInt ∧ qty.toInt ≤ s.size) ∧
      price.toInt = takerPrice side (s.worth qty.toInt.toNat) qty.toInt := by
  rw [take_fst, hs]
  by_cases hdeep : 0 < qty.toInt ∧ qty.toInt ≤ s.size
  · obtain ⟨hexhausted, htaken, hcost, hfits⟩ := BookSide.sweep_deep hpos hdeep side
    have hnot : ¬ (s.sweep qty).taken ≤ 0 := by
      rw [Int64.le_iff_toInt_le, htaken, Int64.toInt_zero]
      omega
    rw [hexhausted, htaken, hcost, if_neg (by simp [hnot]), if_pos hfits, Option.some_inj]
    constructor
    · rintro rfl
      exact ⟨hdeep, Int64.toInt_ofInt_of_le hfits.1 hfits.2⟩
    · rintro ⟨-, hprice⟩
      rw [← hprice, Int64.ofInt_toInt]
  · rw [if_pos]
    · constructor
      · exact fun h => nomatch h
      · exact fun h => absurd h.1 hdeep
    · rw [Bool.or_eq_true, decide_eq_true_eq]
      exact BookSide.sweep_shallow hpos hdeep

/-- There is a price exactly if the side goes that deep. -/
theorem WorkingDepth.isSome_take {d : WorkingDepth} {venue : VenueBook} {side : Side}
    {s : BookSide} (hs : d.facing venue side = s) (hpos : s.Positive) {qty : QtyLots} :
    (d.take venue side qty).1.isSome ↔ 0 < qty.toInt ∧ qty.toInt ≤ s.size := by
  rw [Option.isSome_iff_exists]
  constructor
  · rintro ⟨price, hprice⟩
    exact ((take_price hs hpos).mp hprice).1
  · intro hdeep
    obtain ⟨-, -, -, hfits⟩ := BookSide.sweep_deep hpos hdeep side
    exact ⟨_, (take_price hs hpos).mpr
      ⟨hdeep, Int64.toInt_ofInt_of_le hfits.1 hfits.2⟩⟩

/-- What taking `a` and then `b` from a side does: it is one take, it keeps the side in
order, and a taker who faces the side pays no less, or receives no more, than the exact
average of its `a` lots, by less than one tick. -/
structure SoundTake (s : BookSide) (a b : Int64) (side : Side) : Prop where
  pieces : s.InPieces a b
  kept : s.Kept a
  deep : ∀ (d : WorkingDepth) (venue : VenueBook), d.facing venue side = s →
    ((d.take venue side a).1.isSome ↔ 0 < a.toInt ∧ a.toInt ≤ s.size)
  priced : ∀ (d : WorkingDepth) (venue : VenueBook), d.facing venue side = s →
    ∀ price, (d.take venue side a).1 = some price →
      AgainstTaker side (s.sweep a).cost (s.sweep a).taken.toInt price.toInt

/-- **When a take is sound.** -/
theorem soundTake_iff {s : BookSide} (hpos : s.Positive) {a b : Int64} (ha : 0 ≤ a) (hb : 0 ≤ b)
    (hab : a.toInt + b.toInt < 2 ^ 63) (side : Side) :
    SoundTake s a b side ↔
      a = 0 ∨ s.size < a.toInt ∨ TruncatesAgainst side (s.worth a.toInt.toNat) a.toInt := by
  rw [Int64.le_iff_toInt_le, Int64.toInt_zero] at ha hb
  constructor
  · intro h
    by_cases hdeep : 0 < a.toInt ∧ a.toInt ≤ s.size
    · -- a depth whose two sides are this side is faced by any taker
      right
      right
      obtain ⟨-, htaken, hcost, hfits⟩ := BookSide.sweep_deep hpos hdeep side
      have hfacing : WorkingDepth.facing ⟨some s, some s⟩ VenueBook.new side = s := by
        cases side <;> rfl
      have hprice := Int64.toInt_ofInt_of_le hfits.1 hfits.2
      have hsound := h.priced _ _ hfacing _
        ((WorkingDepth.take_price hfacing hpos).mpr ⟨hdeep, hprice⟩)
      rw [hprice, htaken, hcost] at hsound
      exact (againstTaker_iff side hdeep.1).mp hsound
    · rcases Int.lt_or_eq_of_le ha with hlt | heq
      · right
        left
        omega
      · left
        exact Int64.toInt_inj.mp heq.symm
  · intro h
    constructor
    · exact BookSide.inPieces hpos ha hb hab
    · exact BookSide.kept hpos a
    · exact fun d venue hfacing => WorkingDepth.isSome_take hfacing hpos
    · intro d venue hfacing price hprice
      obtain ⟨hdeep, hvalue⟩ := (WorkingDepth.take_price hfacing hpos).mp hprice
      obtain ⟨-, htaken, hcost, -⟩ := BookSide.sweep_deep hpos hdeep side
      rw [hvalue, htaken, hcost, againstTaker_iff side hdeep.1]
      rcases h with rfl | hsize | htrunc
      · rw [Int64.toInt_zero] at hdeep
        omega
      · omega
      · exact htrunc

/-- One lot bought at 100 and one at 101. -/
theorem soundTake_iff_two :
    let s := (BookSide.asks.apply ⟨100, 1⟩).apply ⟨101, 4⟩
    SoundTake s 2 3 .buy ↔
      (2 : Int64) = 0 ∨ s.size < (2 : Int64).toInt ∨
        TruncatesAgainst .buy (s.worth (2 : Int64).toInt.toNat) (2 : Int64).toInt :=
  soundTake_iff (by unfold BookSide.Positive; decide) (by decide) (by decide) (by decide) .buy

/-- Two lots sold to bids at −1 and −2: the average is −1.5, and the price is −1. -/
theorem not_soundTake_negative :
    ¬ SoundTake ((BookSide.bids.apply ⟨-1, 1⟩).apply ⟨-2, 1⟩) 2 0 .sell := by
  intro h
  have hpriced := h.priced ⟨some _, none⟩ VenueBook.new rfl (-1) (by decide)
  revert hpriced
  unfold AgainstTaker
  decide
