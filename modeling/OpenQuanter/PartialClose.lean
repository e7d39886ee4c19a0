/-
# Closing a part of a position (`cost::close`)

A close gives up a part of the entry cost and books the difference to the exit as profit,
truncated toward zero at cash precision.  The profit of the short is the long's with the
sign turned (`exactProfit_neg`), so what is released does not depend on the direction
(`released`); it lies between nothing and the whole cost (`released_bounds`), and the last
close releases the rest (`released_all`).  `closeCost` computes that without a product
that leaves 128 bits (`closeCost_eq`), and a run of closes does so until the position is
flat (`closeAll_exact`).
-/
import OpenQuanter.ClosingPrice

open Logged

/-! ## The exact close -/

/-- The profit of closing `closing` of `size` lots with entry cost `cost`: the exact share
against the exit, truncated toward zero. -/
def exactProfit (sign cost size closing exit : Int) : Int :=
  (sign * (exit * size - cost * closing)).tdiv size

/-- The cost a close releases: what the exit was set against. -/
def released (cost size closing exit : Int) : Int := exit - exactProfit 1 cost size closing exit

theorem exactProfit_neg (cost size closing exit : Int) :
    exactProfit (-1) cost size closing exit = -exactProfit 1 cost size closing exit := by
  rw [exactProfit, exactProfit, neg_one_mul, one_mul, Int.neg_tdiv]

/-- The released cost is the exact share, up to less than a unit either way. -/
theorem released_share (cost closing exit : Int) {size : Int} (hsize : 0 < size) :
    cost * closing - size < released cost size closing exit * size ∧
      released cost size closing exit * size < cost * closing + size := by
  have hdiv := Int.tdiv_mul_add_tmod (exit * size - cost * closing) size
  have hlow := Int.lt_tmod_of_pos (exit * size - cost * closing) hsize
  have hhigh := Int.tmod_lt_of_pos (exit * size - cost * closing) hsize
  rw [released, exactProfit, one_mul, sub_mul]
  omega

theorem released_bounds (exit : Int) {cost size closing : Int} (hcost : 0 ≤ cost)
    (hclosing : 0 ≤ closing) (hle : closing ≤ size) (hsize : 0 < size) :
    0 ≤ released cost size closing exit ∧ released cost size closing exit ≤ cost := by
  obtain ⟨hlow, hhigh⟩ := released_share cost closing exit hsize
  have hshare : 0 ≤ cost * closing := mul_nonneg hcost hclosing
  have hwhole : cost * closing ≤ cost * size := mul_le_mul_of_nonneg_left hle hcost
  constructor
  · have h : -1 * size < released cost size closing exit * size := by omega
    have := lt_of_mul_lt_mul_right h hsize.le
    omega
  · have h : released cost size closing exit * size < (cost + 1) * size := by
      rw [add_mul]
      omega
    have := lt_of_mul_lt_mul_right h hsize.le
    omega

/-- Whoever closes everything releases everything. -/
theorem released_all {cost size exit : Int} (hsize : 0 < size) :
    released cost size size exit = cost := by
  rw [released, exactProfit, one_mul, ← sub_mul, Int.mul_tdiv_cancel _ (ne_of_gt hsize)]
  omega

/-! ## What `close` computes -/

/-- The truncated profit, from the share rounded down. -/
theorem exactProfit_of_share (exit : Int) {cost size closing share part : Int} (hsize : 0 < size)
    (hshare : size * share + part = cost * closing) (hpart : 0 ≤ part) (hless : part < size) :
    exactProfit 1 cost size closing exit
      = if part ≠ 0 ∧ 0 < exit - share then exit - share - 1 else exit - share := by
  have hgain : exit * size - cost * closing = (exit - share) * size - part := by
    rw [← hshare]
    ring
  rw [exactProfit, one_mul, hgain]
  split_ifs with h
  · obtain ⟨hne, hpos⟩ := h
    have hsplit : (exit - share) * size - part = size - part + (exit - share - 1) * size := by ring
    have hnonneg : 0 ≤ (exit - share - 1) * size := mul_nonneg (by omega) hsize.le
    rw [hsplit, Int.tdiv_eq_ediv_of_nonneg (by omega), Int.add_mul_ediv_right _ _ (ne_of_gt hsize),
      Int.ediv_eq_zero_of_lt (by omega) (by omega), zero_add]
  · rcases eq_or_ne part 0 with rfl | hne
    · rw [sub_zero, Int.mul_tdiv_cancel _ (ne_of_gt hsize)]
    · have hnonpos : exit - share ≤ 0 := by
        by_contra hpos
        exact h ⟨hne, by omega⟩
      have hsplit : (exit - share) * size - part = -(part + -(exit - share) * size) := by ring
      have hnonneg : 0 ≤ -(exit - share) * size := mul_nonneg (by omega) hsize.le
      rw [hsplit, Int.neg_tdiv, Int.tdiv_eq_ediv_of_nonneg (by omega),
        Int.add_mul_ediv_right _ _ (ne_of_gt hsize), Int.ediv_eq_zero_of_lt hpart hless]
      omega

/-- The direction of a leg. -/
def legSign (held : QtyLots) : Int := if 0 < held then 1 else -1

theorem legSign_cases (held : QtyLots) : legSign held = 1 ∨ legSign held = -1 := by
  unfold legSign
  split_ifs
  · exact Or.inl rfl
  · exact Or.inr rfl

theorem legSign_eq (held : QtyLots) : legSign held = if 0 < held.toInt then 1 else -1 :=
  if_congr lt_iff_toInt rfl rfl

/-- The share rounded down, as the division of the cost before the product gives it. -/
theorem ediv_eq_allocated {cost size closing : Int} (hcost : 0 ≤ cost) (hsize : 0 < size)
    (hclosing : 0 ≤ closing) :
    cost * closing / size =
      cost.tdiv size * closing + (cost.tmod size * closing).tdiv size := by
  obtain ⟨hshare, hpart, hless, -⟩ := allocated_share hcost hsize hclosing
  rw [← hshare, Int.mul_add_ediv_left _ _ (ne_of_gt hsize), Int.ediv_eq_zero_of_lt hpart hless,
    add_zero]

theorem exactProfit_sign {sign : Int} (hsign : sign = 1 ∨ sign = -1)
    (cost size closing exit : Int) :
    exactProfit sign cost size closing exit = sign * exactProfit 1 cost size closing exit := by
  rcases hsign with rfl | rfl
  · rw [one_mul]
  · rw [exactProfit_neg, neg_one_mul]

/-- The profit of either direction, shifted by the part of a unit that the allocation left
out. -/
theorem adjusted_eq {sign gain part profit : Int} (hsign : sign = 1 ∨ sign = -1)
    (hprofit : profit = if part ≠ 0 ∧ 0 < gain then gain - 1 else gain) :
    (if part ≠ 0 ∧ ((0 < gain * sign ∧ 0 < sign) ∨ (gain * sign < 0 ∧ sign < 0))
      then gain * sign - sign else gain * sign) = sign * profit := by
  rw [hprofit]
  rcases hsign with rfl | rfl
  · split_ifs <;> omega
  · split_ifs <;> omega

/-- **What `close` returns**: the cost less what is released, and the exact profit, held
within what an amount of cash can say. -/
theorem closeCost_eq {cost exit : Int} {held : QtyLots} {closing : Int64} (hheld : held ≠ 0)
    (hmin : |held.toInt| < 2 ^ 63) (hcost : 0 ≤ cost ∧ cost < 2 ^ 127)
    (hclosing : 0 < closing.toInt) (hle : closing.toInt ≤ |held.toInt|) (hexit : FitsI128 exit)
    (hgain : FitsI128 (legSign held * (exit - cost * closing.toInt / |held.toInt|))) :
    (closeCost cost held closing exit).val =
      (cost - released cost |held.toInt| closing.toInt exit,
        Int64.ofIntClamp (exactProfit (legSign held) cost |held.toInt| closing.toInt exit)) := by
  have hsize : 0 < |held.toInt| := abs_pos.mpr (toInt_ne_zero hheld)
  have habs : (satAbs held).toInt = |held.toInt| := toInt_satAbs_of_lt hmin
  have hall : closing = satAbs held ↔ closing.toInt = |held.toInt| := by
    rw [← habs, Int64.toInt_inj]
  obtain ⟨hshare, hpart, hless, hwhole, hrest⟩ := allocated_share hcost.1 hsize hclosing.le
  obtain ⟨hlow, hhigh⟩ := released_bounds exit hcost.1 hclosing.le hle hsize
  have hvalue := exactProfit_of_share exit hsize hshare hpart hless
  have hbelow : cost * closing.toInt / |held.toInt| ≤ cost :=
    Int.ediv_le_of_le_mul hsize (mul_le_mul_of_nonneg_left hle hcost.1)
  rw [ediv_eq_allocated hcost.1 hsize hclosing.le] at hgain hbelow
  have hsign := legSign_cases held
  have hreleased : released cost |held.toInt| closing.toInt exit
      = exit - exactProfit 1 cost |held.toInt| closing.toInt exit := rfl
  have hfull : closing.toInt = |held.toInt| →
      cost - released cost |held.toInt| closing.toInt exit = 0 := by
    intro h
    rw [h, released_all hsize, sub_self]
  refine ensures_empty (P := fun p => p = _) ?_
  unfold closeCost
  simp only [habs]
  rw [show (if 0 < held then (1 : Int) else -1) = legSign held from rfl, exactProfit_sign hsign]
  generalize legSign held = sign at hsign hgain ⊢
  generalize exactProfit 1 cost |held.toInt| closing.toInt exit = profit at hvalue hreleased ⊢
  -- the two parts of the share
  refine ensures_bind (wide_of_fits ⟨by omega, by omega⟩) (fun whole hw => ?_)
  subst hw
  refine ensures_bind (wide_of_fits ⟨by omega, by omega⟩) (fun share hs => ?_)
  rw [← hs] at hvalue hgain hbelow
  have hnonneg : 0 ≤ share := by omega
  have hfits : FitsI128 (exit - share) := by
    unfold FitsI128 at hexit hgain ⊢
    rcases hsign with rfl | rfl
    · omega
    · omega
  -- the profit, in the direction of the leg
  refine ensures_bind (wide_of_fits hfits) (fun gain hg => ?_)
  subst hg
  refine ensures_bind (wide_of_fits (by rwa [mul_comm])) (fun pnl hpnl => ?_)
  subst hpnl
  generalize (cost.tmod |held.toInt| * closing.toInt).tmod |held.toInt| = part at hvalue ⊢
  rw [adjusted_eq hsign hvalue]
  have hback : sign * profit * sign = profit := by
    rcases hsign with rfl | rfl
    · ring
    · ring
  have hwide : FitsI128 (sign * profit * sign) := by
    rw [hback, hvalue]
    unfold FitsI128 at hfits ⊢
    split_ifs
    · omega
    · omega
  -- what is released, and what is left
  refine ensures_bind (wide_of_fits hwide) (fun returned hreturned => ?_)
  rw [hback] at hreturned
  refine ensures_bind (wide_of_fits (by unfold FitsI128; omega)) (fun consumed hconsumed => ?_)
  have hequal : consumed = released cost |held.toInt| closing.toInt exit := by omega
  by_cases hc : closing = satAbs held
  · rw [if_pos hc]
    refine ensures_bind (ensures_pure rfl : Ensures _ _ (fun left => left = (0 : Int))) ?_
    intro left hleft
    refine ensures_bind (P := fun cash => cash = Int64.ofIntClamp (sign * profit))
      (ensures_of_val rfl) (fun cash hcash => ensures_pure ?_)
    rw [hleft, hcash, hfull (hall.mp hc)]
  · rw [if_neg hc]
    refine ensures_bind (wide_of_fits (by unfold FitsI128; omega)) (fun left hleft => ?_)
    refine ensures_bind (P := fun cash => cash = Int64.ofIntClamp (sign * profit))
      (ensures_of_val rfl) (fun cash hcash => ensures_pure ?_)
    rw [hleft, hcash, hequal]

/-! ## A run of closes -/

/-- Close parts of a leg one after the other, each at its exit, as `close_leg` does: the
cost left, and what was realized by each. -/
def closeAll : Int → QtyLots → List (Int64 × Int) → Int × List Cash
  | cost, _, [] => (cost, [])
  | cost, held, (closing, exit) :: rest =>
    let (left, cash) := (closeCost cost held closing exit).val
    let (last, cashes) := closeAll left (held - closing * (if 0 < held then 1 else -1)) rest
    (last, cash :: cashes)

/-- The cost left after exact closes of `size` lots. -/
def leftAfter : Int → Int → List (Int64 × Int) → Int
  | cost, _, [] => cost
  | cost, size, (closing, exit) :: rest =>
    leftAfter (cost - released cost size closing.toInt exit) (size - closing.toInt) rest

/-- What the exact closes release. -/
def releases : Int → Int → List (Int64 × Int) → List Int
  | _, _, [] => []
  | cost, size, (closing, exit) :: rest =>
    let out := released cost size closing.toInt exit
    out :: releases (cost - out) (size - closing.toInt) rest

/-- Their profits. -/
def profits (sign : Int) : Int → Int → List (Int64 × Int) → List Int
  | _, _, [] => []
  | cost, size, (closing, exit) :: rest =>
    exactProfit sign cost size closing.toInt exit ::
      profits sign (cost - released cost size closing.toInt exit) (size - closing.toInt) rest

/-- Closes of at most what is held, whose exit and profit 128 bits can hold. -/
def Closable (sign : Int) : Int → Int → List (Int64 × Int) → Prop
  | _, _, [] => True
  | cost, size, (closing, exit) :: rest =>
    0 < closing.toInt ∧ closing.toInt ≤ size ∧ FitsI128 exit ∧
      FitsI128 (sign * (exit - cost * closing.toInt / size)) ∧
      Closable sign (cost - released cost size closing.toInt exit) (size - closing.toInt) rest

/-- Nothing is lost or made: what is released and what is left are the cost. -/
theorem sum_releases (cost size : Int) (closes : List (Int64 × Int)) :
    (releases cost size closes).sum + leftAfter cost size closes = cost := by
  induction closes generalizing cost size with
  | nil => simp [releases, leftAfter]
  | cons c rest ih =>
    have hrec := ih (cost - released cost size c.1.toInt c.2) (size - c.1.toInt)
    simp only [releases, leftAfter, List.sum_cons]
    omega

theorem leftAfter_nonneg {sign cost size : Int} {closes : List (Int64 × Int)} (hcost : 0 ≤ cost)
    (h : Closable sign cost size closes) : 0 ≤ leftAfter cost size closes := by
  induction closes generalizing cost size with
  | nil => exact hcost
  | cons c rest ih =>
    obtain ⟨hpos, hle, -, -, hrest⟩ := h
    have hbounds := released_bounds c.2 hcost hpos.le hle (by omega)
    exact ih (by omega) hrest

/-- Once everything is closed there is no cost left. -/
theorem leftAfter_flat {sign cost size : Int} {closes : List (Int64 × Int)} (hsize : 0 < size)
    (h : Closable sign cost size closes) (hall : (closes.map fun c => c.1.toInt).sum = size) :
    leftAfter cost size closes = 0 := by
  induction closes generalizing cost size with
  | nil =>
    rw [List.map_nil, List.sum_nil] at hall
    omega
  | cons c rest ih =>
    obtain ⟨hpos, hle, -, -, hrest⟩ := h
    rw [List.map_cons, List.sum_cons] at hall
    rw [leftAfter]
    rcases Int.lt_or_eq_of_le hle with hless | hlast
    · exact ih (by omega) hrest (by omega)
    · rw [hlast, released_all hsize, sub_self]
      cases rest with
      | nil => rfl
      | cons c' rest' =>
        obtain ⟨hpos', hle', -⟩ := hrest
        omega

/-- What a partial close leaves of a leg: fewer lots in the same direction. -/
theorem toInt_closed {held : QtyLots} {closing : Int64} (hmin : |held.toInt| < 2 ^ 63)
    (hclosing : 0 < closing.toInt) (hle : closing.toInt ≤ |held.toInt|) :
    |(held - closing * (if 0 < held then 1 else -1)).toInt| = |held.toInt| - closing.toInt ∧
      (closing.toInt < |held.toInt| →
        legSign (held - closing * (if 0 < held then 1 else -1)) = legSign held) := by
  have hleft : (held - closing * (if 0 < held then 1 else -1)).toInt =
      held.toInt - held.toInt.sign * closing.toInt :=
    Holding.toInt_left hclosing.le (by rwa [toInt_satAbs_of_lt hmin])
  rw [legSign_eq, legSign_eq, hleft]
  rcases lt_trichotomy held.toInt 0 with hneg | hzero | hpos
  · rw [abs_of_neg hneg] at hle ⊢
    rw [Int.sign_eq_neg_one_of_neg hneg, neg_one_mul, if_neg (not_lt.mpr hneg.le)]
    constructor
    · rw [abs_of_nonpos (by omega)]
      omega
    · intro hless
      rw [if_neg (by omega)]
  · rw [hzero, abs_zero] at hle
    omega
  · rw [abs_of_pos hpos] at hle ⊢
    rw [Int.sign_eq_one_of_pos hpos, if_pos hpos, one_mul]
    constructor
    · rw [abs_of_nonneg (by omega)]
    · intro hless
      rw [if_pos (by omega)]

theorem closeAll_eq {closes : List (Int64 × Int)} (cost : Int) (held : QtyLots)
    (hmin : |held.toInt| < 2 ^ 63) (hcost : 0 ≤ cost ∧ cost < 2 ^ 127)
    (hok : Closable (legSign held) cost |held.toInt| closes) :
    closeAll cost held closes = (leftAfter cost |held.toInt| closes,
      (profits (legSign held) cost |held.toInt| closes).map Int64.ofIntClamp) := by
  induction closes generalizing cost held with
  | nil => rfl
  | cons c rest ih =>
    obtain ⟨hpos, hle, hexit, hgain, hrest⟩ := hok
    have hheld : held ≠ 0 := by
      rintro rfl
      have hzero : |(0 : Int64).toInt| = 0 := rfl
      omega
    obtain ⟨hlow, hhigh⟩ := released_bounds c.2 hcost.1 hpos.le hle (by omega)
    obtain ⟨hsize, hsign⟩ := toInt_closed hmin hpos hle
    have hmore : rest = [] ∨ c.1.toInt < |held.toInt| := by
      cases rest with
      | nil => exact Or.inl rfl
      | cons c' rest' =>
        obtain ⟨hpos', hle', -⟩ := hrest
        exact Or.inr (by omega)
    have hcons : closeAll cost held (c :: rest) =
        ((closeAll (closeCost cost held c.1 c.2).val.1
            (held - c.1 * (if 0 < held then 1 else -1)) rest).1,
          (closeCost cost held c.1 c.2).val.2 ::
            (closeAll (closeCost cost held c.1 c.2).val.1
              (held - c.1 * (if 0 < held then 1 else -1)) rest).2) := rfl
    rw [hcons, leftAfter, profits, List.map_cons,
      closeCost_eq hheld hmin hcost hpos hle hexit hgain]
    simp only
    rcases hmore with rfl | hless
    · rfl
    · have hrec := ih (cost - released cost |held.toInt| c.1.toInt c.2)
        (held - c.1 * (if 0 < held then 1 else -1)) (by rw [hsize]; omega)
        ⟨by omega, by omega⟩ (by rw [hsize, hsign hless]; exact hrest)
      rw [hrec, hsize, hsign hless]

/-- **A run of partial closes is exact.**  Each realizes the exact profit truncated toward
zero, where that is an amount of cash; the cost left is never negative, and nothing once the
leg is flat; what was released and what is left are the entry cost. -/
theorem closeAll_exact {cost : Int} {held : QtyLots} {closes : List (Int64 × Int)}
    (hheld : held ≠ 0) (hmin : |held.toInt| < 2 ^ 63) (hcost : 0 ≤ cost ∧ cost < 2 ^ 127)
    (hok : Closable (legSign held) cost |held.toInt| closes) :
    closeAll cost held closes = (leftAfter cost |held.toInt| closes,
        (profits (legSign held) cost |held.toInt| closes).map Int64.ofIntClamp) ∧
      0 ≤ leftAfter cost |held.toInt| closes ∧
      ((closes.map fun c => c.1.toInt).sum = |held.toInt| →
        leftAfter cost |held.toInt| closes = 0) ∧
      (releases cost |held.toInt| closes).sum + leftAfter cost |held.toInt| closes = cost :=
  ⟨closeAll_eq _ _ hmin hcost hok, leftAfter_nonneg hcost.1 hok,
    leftAfter_flat (abs_pos.mpr (toInt_ne_zero hheld)) hok, sum_releases _ _ _⟩

/-- Three lots short for 302, closed in two parts at 101. -/
theorem closeAll_exact_three :
    let closes : List (Int64 × Int) := [(1, 101), (2, 202)]
    closeAll 302 (-3) closes = (leftAfter 302 |(-3 : Int64).toInt| closes,
        (profits (legSign (-3)) 302 |(-3 : Int64).toInt| closes).map Int64.ofIntClamp) ∧
      0 ≤ leftAfter 302 |(-3 : Int64).toInt| closes ∧
      ((closes.map fun c => c.1.toInt).sum = |(-3 : Int64).toInt| →
        leftAfter 302 |(-3 : Int64).toInt| closes = 0) ∧
      (releases 302 |(-3 : Int64).toInt| closes).sum + leftAfter 302 |(-3 : Int64).toInt| closes
        = 302 :=
  closeAll_exact (by decide) (by decide) (by decide) (by simp only [Closable, and_true]; decide)

/-- A profit of 2^63 is realized as one unit less, and a cost below zero leaves one. -/
theorem closeCost_out_of_range :
    (closeCost 0 1 1 (2 ^ 63)).val.2.toInt ≠ exactProfit 1 0 1 1 (2 ^ 63) ∧
      (closeCost (-3) 2 1 0).val.1 < 0 := by
  decide
