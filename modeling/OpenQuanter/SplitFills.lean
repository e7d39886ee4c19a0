/-
# A fill taken in two parts (`Leg::fold` of `oq-live/src/belief.rs`)

A leg keeps the notional behind its lots, so that opening, adding, closing and crossing
give the same leg whether a fill comes whole or in two parts.  A reduction shrinks the
notional by an integer division, and two reductions divide twice: the entry shown is the
same, but the notional behind it can be one tick-lot less, and the next addition divides
it by more lots.  So a reduction can be split without a trace exactly if the two divisions
come to the one (`split_iff`).

`ExactLeg` is the leg in unbounded integers.  Long and short are mirror images
(`fold_mirror`), so the cases are gone through for the long leg.
-/
import OpenQuanter.Belief
import OpenQuanter.Legs

namespace Live

/-- A leg in unbounded integers. -/
@[ext] structure ExactLeg where
  lots : Int
  notional : Int
  deriving DecidableEq, Repr

namespace ExactLeg

/-- The volume-weighted entry. -/
def entry (leg : ExactLeg) : Int := if leg.lots = 0 then 0 else |leg.notional| / |leg.lots|

/-- What is left of the notional when `before` lots become `after`. -/
def shrunk (notional before after : Int) : Int := notional * after / before

/-- Fold one signed quantity at one price into the leg. -/
def fold (leg : ExactLeg) (q p : Int) : ExactLeg :=
  if q = 0 then leg
  else if leg.lots = 0 ∨ (0 < leg.lots ↔ 0 < q) then ⟨leg.lots + q, leg.notional + q * p⟩
  else if ¬(0 < leg.lots ↔ 0 < leg.lots + q) ∧ leg.lots + q ≠ 0 then
    ⟨leg.lots + q, (leg.lots + q) * p⟩
  else if leg.lots + q = 0 then ⟨0, 0⟩
  else ⟨leg.lots + q, leg.notional.sign * shrunk |leg.notional| |leg.lots| |leg.lots + q|⟩

/-- The leg the other way round. -/
def mirror (leg : ExactLeg) : ExactLeg := ⟨-leg.lots, -leg.notional⟩

@[simp] theorem mirror_mirror (leg : ExactLeg) : leg.mirror.mirror = leg := by
  simp [mirror]

theorem entry_mirror (leg : ExactLeg) : leg.mirror.entry = leg.entry := by
  simp [entry, mirror]

/-- **Long and short are folded alike.** -/
theorem fold_mirror (leg : ExactLeg) (q p : Int) :
    leg.mirror.fold (-q) p = (leg.fold q p).mirror := by
  obtain ⟨l, n⟩ := leg
  unfold fold mirror
  simp only
  by_cases hnone : q = 0
  · rw [if_pos (by omega), if_pos hnone]
  rw [if_neg (by omega), if_neg hnone]
  by_cases hadd : l = 0 ∨ (0 < l ↔ 0 < q)
  · rw [if_pos (by omega), if_pos hadd, mk.injEq]
    constructor
    · ring
    · ring
  rw [if_neg (by omega), if_neg hadd]
  by_cases hcross : ¬(0 < l ↔ 0 < l + q) ∧ l + q ≠ 0
  · rw [if_pos (by omega), if_pos hcross, mk.injEq]
    constructor
    · ring
    · ring
  rw [if_neg (by omega), if_neg hcross]
  by_cases hclosed : l + q = 0
  · rw [if_pos (by omega), if_pos hclosed]
    rfl
  rw [if_neg (by omega), if_neg hclosed, mk.injEq]
  constructor
  · ring
  · rw [Int.sign_neg, abs_neg, abs_neg, ← neg_add, abs_neg, neg_mul]

/-- A leg that fills at prices of at most `top` can have made: nothing behind no lots, and
behind the others between one tick a lot and `top`. -/
structure Sane (top : Int) (leg : ExactLeg) : Prop where
  flat : leg.lots = 0 → leg.notional = 0
  long : 0 < leg.lots → leg.lots ≤ leg.notional ∧ leg.notional ≤ leg.lots * top
  short : leg.lots < 0 → -leg.lots ≤ -leg.notional ∧ -leg.notional ≤ -leg.lots * top

theorem sane_flat (top : Int) : Sane top ⟨0, 0⟩ :=
  ⟨fun _ => rfl, fun h => absurd h (lt_irrefl _), fun h => absurd h (lt_irrefl _)⟩

theorem sane_long {top l n : Int} (hl : 0 < l) (hlow : l ≤ n) (hhigh : n ≤ l * top) :
    Sane top ⟨l, n⟩ :=
  ⟨fun h => absurd h (ne_of_gt hl), fun _ => ⟨hlow, hhigh⟩, fun h => absurd h (not_lt.mpr hl.le)⟩

theorem Sane.mirror {top : Int} {leg : ExactLeg} (h : leg.Sane top) : leg.mirror.Sane top := by
  constructor
  · intro hflat
    have hlots : leg.lots = 0 := neg_eq_zero.mp hflat
    show -leg.notional = 0
    rw [h.flat hlots, neg_zero]
  · intro hlong
    exact h.short (neg_pos.mp hlong)
  · intro hshort
    show - -leg.lots ≤ - -leg.notional ∧ - -leg.notional ≤ - -leg.lots * top
    rw [neg_neg, neg_neg]
    exact h.long (neg_neg_iff_pos.mp hshort)

/-! ## The folds of a long leg -/

section Long

variable {leg : ExactLeg} {q p : Int}

theorem fold_extend (hq : q ≠ 0) (hside : leg.lots = 0 ∨ (0 < leg.lots ↔ 0 < q)) :
    leg.fold q p = ⟨leg.lots + q, leg.notional + q * p⟩ := by
  rw [fold, if_neg hq, if_pos hside]

theorem fold_add (hlots : 0 ≤ leg.lots) (hq : 0 < q) :
    leg.fold q p = ⟨leg.lots + q, leg.notional + q * p⟩ :=
  fold_extend (by omega) (by omega)

theorem fold_close (hlots : 0 < leg.lots) (hq : q = -leg.lots) : leg.fold q p = ⟨0, 0⟩ := by
  rw [fold, if_neg (by omega), if_neg (by omega), if_neg (by omega), if_pos (by omega)]

theorem fold_cross (hlots : 0 < leg.lots) (hq : leg.lots + q < 0) :
    leg.fold q p = ⟨leg.lots + q, (leg.lots + q) * p⟩ := by
  rw [fold, if_neg (by omega), if_neg (by omega), if_pos (by omega)]

theorem fold_reduce (hlots : 0 < leg.lots) (hnotional : 0 < leg.notional) (hq : q < 0)
    (hleft : 0 < leg.lots + q) :
    leg.fold q p = ⟨leg.lots + q, shrunk leg.notional leg.lots (leg.lots + q)⟩ := by
  rw [fold, if_neg (by omega), if_neg (by omega), if_neg (by omega), if_neg (by omega),
    Int.sign_eq_one_of_pos hnotional, one_mul, abs_of_pos hnotional, abs_of_pos hlots,
    abs_of_pos hleft]

end Long

/-! ## Legs stay sane -/

/-- What is left is between one tick a lot and `top`, and its entry is the old one. -/
theorem shrunk_facts {notional before after top : Int} (hafter : 0 < after) (hle : after ≤ before)
    (hlow : before ≤ notional) (hhigh : notional ≤ before * top) :
    after ≤ shrunk notional before after ∧ shrunk notional before after ≤ after * top ∧
      shrunk notional before after / after = notional / before := by
  have hbefore : 0 < before := by omega
  refine ⟨?_, ?_, ?_⟩
  · apply Int.le_ediv_of_mul_le hbefore
    rw [mul_comm]
    exact mul_le_mul_of_nonneg_right hlow hafter.le
  · apply Int.ediv_le_of_le_mul hbefore
    calc notional * after ≤ before * top * after := mul_le_mul_of_nonneg_right hhigh hafter.le
      _ = after * top * before := by ring
  · rw [shrunk, Int.ediv_ediv_of_nonneg hbefore.le, Int.mul_ediv_mul_of_pos_left _ _ hafter]

/-- A position made at one price. -/
theorem sane_made {top l p : Int} (hp : 0 < p) (htop : p ≤ top) : Sane top ⟨l, l * p⟩ := by
  have hmade : ∀ m : Int, 0 < m → Sane top ⟨m, m * p⟩ := fun m hm =>
    sane_long hm (le_mul_of_one_le_right hm.le hp) (mul_le_mul_of_nonneg_left htop hm.le)
  rcases lt_trichotomy l 0 with hl | rfl | hl
  · have hmirror := (hmade (-l) (neg_pos.mpr hl)).mirror
    unfold ExactLeg.mirror at hmirror
    rwa [neg_mul, neg_neg, neg_neg] at hmirror
  · rw [zero_mul]
    exact sane_flat top
  · exact hmade l hl

theorem Sane.fold_long {top : Int} {leg : ExactLeg} (h : leg.Sane top) (hlots : 0 ≤ leg.lots)
    {p : Int} (hp : 0 < p) (htop : p ≤ top) (q : Int) : (leg.fold q p).Sane top := by
  rcases eq_or_ne q 0 with rfl | hne
  · rwa [ExactLeg.fold, if_pos rfl]
  rcases Int.lt_or_eq_of_le hlots with hlong | hflat
  · obtain ⟨hlow, hhigh⟩ := h.long hlong
    rcases lt_or_gt_of_ne hne with hq | hq
    · rcases lt_trichotomy (leg.lots + q) 0 with hcross | hclose | hleft
      · rw [fold_cross hlong hcross]
        exact sane_made hp htop
      · rw [fold_close hlong (by omega)]
        exact sane_flat top
      · rw [fold_reduce hlong (by omega) hq hleft]
        obtain ⟨hdown, hup, -⟩ := shrunk_facts hleft (by omega) hlow hhigh
        exact sane_long hleft hdown hup
    · rw [fold_add hlots hq]
      have hmore : q ≤ q * p := le_mul_of_one_le_right hq.le hp
      have hmost : q * p ≤ q * top := mul_le_mul_of_nonneg_left htop hq.le
      refine sane_long (by omega) (by omega) ?_
      rw [add_mul]
      exact add_le_add hhigh hmost
  · rw [fold_extend hne (Or.inl hflat.symm), h.flat hflat.symm, ← hflat, zero_add, zero_add]
    exact sane_made hp htop

theorem Sane.fold {top : Int} {leg : ExactLeg} (h : leg.Sane top) {p : Int} (hp : 0 < p)
    (htop : p ≤ top) (q : Int) : (leg.fold q p).Sane top := by
  rcases le_or_gt 0 leg.lots with hlots | hlots
  · exact h.fold_long hlots hp htop q
  · have hfold := (h.mirror.fold_long (neg_nonneg.mpr hlots.le) hp htop (-q)).mirror
    rwa [fold_mirror, mirror_mirror] at hfold

@[simp] theorem lots_fold (leg : ExactLeg) (q p : Int) : (leg.fold q p).lots = leg.lots + q := by
  unfold fold
  split_ifs with hnone hadd hcross hclosed
  · rw [hnone, add_zero]
  · rfl
  · rfl
  · exact hclosed.symm
  · rfl

theorem entry_le {top : Int} {leg : ExactLeg} (h : leg.Sane top) (htop : 0 ≤ top) :
    0 ≤ leg.entry ∧ leg.entry ≤ top := by
  unfold entry
  split_ifs with hflat
  · exact ⟨le_rfl, htop⟩
  refine ⟨Int.ediv_nonneg (abs_nonneg _) (abs_nonneg _), ?_⟩
  apply Int.ediv_le_of_le_mul (abs_pos.mpr hflat)
  rcases lt_or_gt_of_ne hflat with hshort | hlong
  · obtain ⟨hlow, hhigh⟩ := h.short hshort
    rw [abs_of_neg hshort, abs_of_neg (by omega), mul_comm]
    exact hhigh
  · obtain ⟨hlow, hhigh⟩ := h.long hlong
    rw [abs_of_pos hlong, abs_of_pos (by omega), mul_comm]
    exact hhigh

/-! ## Two parts -/

/-- Two parts of a fill on the same side. -/
def SameSide (q₁ q₂ : Int) : Prop := 0 < q₁ ∧ 0 < q₂ ∨ q₁ < 0 ∧ q₂ < 0

theorem SameSide.ne_zero {q₁ q₂ : Int} (h : SameSide q₁ q₂) : q₁ ≠ 0 ∧ q₂ ≠ 0 ∧ q₁ + q₂ ≠ 0 := by
  rcases h with ⟨h₁, h₂⟩ | ⟨h₁, h₂⟩
  · omega
  · omega

/-- A fill that leaves some of the lots it meets. -/
def Reduces (leg : ExactLeg) (q : Int) : Prop :=
  0 < leg.lots ∧ q < 0 ∧ 0 < leg.lots + q ∨ leg.lots < 0 ∧ 0 < q ∧ leg.lots + q < 0

instance (leg : ExactLeg) (q : Int) : Decidable (leg.Reduces q) :=
  inferInstanceAs (Decidable (_ ∨ _))

/-- The two divisions of a reduction in parts come to the one of the whole. -/
def DividesAlike (leg : ExactLeg) (q₁ q₂ : Int) : Prop :=
  shrunk (shrunk |leg.notional| |leg.lots| |leg.lots + q₁|) |leg.lots + q₁| |leg.lots + q₁ + q₂|
    = shrunk |leg.notional| |leg.lots| |leg.lots + q₁ + q₂|

theorem fold_fold_long {top : Int} {leg : ExactLeg} (h : leg.Sane top) (hlots : 0 ≤ leg.lots)
    {q₁ q₂ : Int} (hside : SameSide q₁ q₂) (p : Int)
    (hdivides : leg.Reduces (q₁ + q₂) → leg.DividesAlike q₁ q₂) :
    (leg.fold q₁ p).fold q₂ p = leg.fold (q₁ + q₂) p := by
  rcases Int.lt_or_eq_of_le hlots with hlong | hflat
  · obtain ⟨hlow, -⟩ := h.long hlong
    rcases hside with ⟨h₁, h₂⟩ | ⟨h₁, h₂⟩
    · -- adding twice
      have hmore : 0 ≤ (⟨leg.lots + q₁, leg.notional + q₁ * p⟩ : ExactLeg).lots :=
        add_nonneg hlots h₁.le
      rw [fold_add hlots h₁, fold_add hmore h₂, fold_add hlots (add_pos h₁ h₂), mk.injEq]
      constructor
      · ring
      · ring
    rcases lt_trichotomy (leg.lots + (q₁ + q₂)) 0 with hcross | hclose | hleft
    · -- the whole crosses: the first part reduces, closes or crosses
      rw [fold_cross hlong hcross]
      rcases lt_trichotomy (leg.lots + q₁) 0 with hfirst | hfirst | hfirst
      · rw [fold_cross hlong hfirst, fold_extend (by omega) (by simp only; omega), mk.injEq]
        constructor
        · ring
        · ring
      · rw [fold_close hlong (by omega), fold_extend (by omega) (Or.inl rfl), mk.injEq]
        have hrest : leg.lots + (q₁ + q₂) = q₂ := by omega
        rw [hrest]
        constructor
        · exact zero_add _
        · exact zero_add _
      · rw [fold_reduce hlong (by omega) h₁ hfirst, fold_cross hfirst (by simp only; omega),
          mk.injEq]
        constructor
        · ring
        · ring
    · have hfirst : 0 < leg.lots + q₁ := by omega
      rw [fold_reduce hlong (by omega) h₁ hfirst, fold_close hfirst (by simp only; omega),
        fold_close hlong (by omega)]
    · have hfirst : 0 < leg.lots + q₁ := by omega
      have hlow' := (shrunk_facts hfirst (by omega) hlow (h.long hlong).2).1
      have halike := hdivides (Or.inl ⟨hlong, by omega, hleft⟩)
      rw [fold_reduce hlong (by omega) (by omega) hleft, fold_reduce hlong (by omega) h₁ hfirst,
        fold_reduce hfirst (by simp only; omega) h₂ (by simp only; omega), mk.injEq]
      refine ⟨add_assoc _ _ _, ?_⟩
      rw [DividesAlike, abs_of_pos (by omega : 0 < leg.notional), abs_of_pos hlong,
        abs_of_pos hfirst, abs_of_pos (by omega), add_assoc] at halike
      simp only [add_assoc]
      exact halike
  · -- opening in two parts
    obtain ⟨hne, hne', hsum⟩ := hside.ne_zero
    have hsame : leg.lots + q₁ = 0 ∨ (0 < leg.lots + q₁ ↔ 0 < q₂) := by
      rcases hside with ⟨h₁, h₂⟩ | ⟨h₁, h₂⟩
      · omega
      · omega
    rw [fold_extend hne (Or.inl hflat.symm), fold_extend hne' hsame,
      fold_extend hsum (Or.inl hflat.symm), mk.injEq]
    constructor
    · ring
    · ring

/-- **A fill in two parts is the fill as a whole**, but for a reduction that divides otherwise. -/
theorem fold_fold {top : Int} {leg : ExactLeg} (h : leg.Sane top) {q₁ q₂ : Int}
    (hside : SameSide q₁ q₂) (p : Int)
    (hdivides : leg.Reduces (q₁ + q₂) → leg.DividesAlike q₁ q₂) :
    (leg.fold q₁ p).fold q₂ p = leg.fold (q₁ + q₂) p := by
  rcases le_or_gt 0 leg.lots with hlots | hlots
  · exact fold_fold_long h hlots hside p hdivides
  · have hside' : SameSide (-q₁) (-q₂) := by
      unfold SameSide at hside ⊢
      omega
    have hdivides' : leg.mirror.Reduces (-q₁ + -q₂) → leg.mirror.DividesAlike (-q₁) (-q₂) := by
      intro hr
      have halike : leg.DividesAlike q₁ q₂ := by
        apply hdivides
        unfold Reduces mirror at hr
        unfold Reduces
        simp only at hr
        omega
      unfold DividesAlike mirror
      simp only [abs_neg, ← neg_add]
      exact halike
    have hmirror := congrArg mirror
      (fold_fold_long h.mirror (neg_nonneg.mpr hlots.le) hside' p hdivides')
    rwa [fold_mirror, fold_mirror, ← neg_add, fold_mirror, mirror_mirror, mirror_mirror] at hmirror

/-- What a reduction leaves. -/
theorem fold_of_reduces {top : Int} {leg : ExactLeg} (h : leg.Sane top) {q : Int}
    (hr : leg.Reduces q) (p : Int) : (leg.fold q p).lots = leg.lots + q ∧
      |(leg.fold q p).notional| = shrunk |leg.notional| |leg.lots| |leg.lots + q| := by
  rcases hr with ⟨hlong, hq, hleft⟩ | ⟨hshort, hq, hleft⟩
  · obtain ⟨hlow, hhigh⟩ := h.long hlong
    obtain ⟨hdown, -, -⟩ := shrunk_facts hleft (by omega) hlow hhigh
    rw [fold_reduce hlong (by omega) hq hleft, abs_of_pos (by omega : 0 < leg.notional),
      abs_of_pos hlong, abs_of_pos hleft]
    exact ⟨rfl, abs_of_pos (lt_of_lt_of_le hleft hdown)⟩
  · obtain ⟨hlow, hhigh⟩ := h.short hshort
    have hleft' : 0 < -leg.lots + -q := by omega
    obtain ⟨hdown, -, -⟩ := shrunk_facts hleft' (by omega) hlow hhigh
    have hmirror : (leg.fold q p).mirror
        = ⟨-leg.lots + -q, shrunk (-leg.notional) (-leg.lots) (-leg.lots + -q)⟩ := by
      rw [← fold_mirror]
      exact fold_reduce (neg_pos.mpr hshort) (by show 0 < -leg.notional; omega) (by omega) hleft'
    have hfold := congrArg mirror hmirror
    rw [mirror_mirror] at hfold
    rw [hfold, abs_of_neg (by omega : leg.notional < 0), abs_of_neg hshort, abs_of_neg hleft,
      neg_add]
    unfold mirror
    simp only
    refine ⟨by ring, ?_⟩
    rw [abs_neg]
    exact abs_of_pos (by omega)

/-- The two parts of a reduction, where they divide otherwise than the whole, leave another
notional. -/
theorem parts_ne_whole {top : Int} {leg : ExactLeg} (h : leg.Sane top) {q₁ q₂ p : Int}
    (hp : 0 < p) (htop : p ≤ top) (hside : SameSide q₁ q₂)
    (hr : leg.Reduces (q₁ + q₂)) (hnot : ¬ leg.DividesAlike q₁ q₂) :
    leg.fold (q₁ + q₂) p ≠ (leg.fold q₁ p).fold q₂ p := by
  intro hsame
  have hfirst : leg.Reduces q₁ := by
    unfold Reduces SameSide at *
    omega
  obtain ⟨hlots, hnotional⟩ := fold_of_reduces h hfirst p
  have hsecond : (leg.fold q₁ p).Reduces q₂ := by
    unfold Reduces SameSide at *
    rw [hlots]
    omega
  have hparts := (fold_of_reduces (h.fold hp htop q₁) hsecond p).2
  have hwhole := (fold_of_reduces h hr p).2
  rw [hnotional, hlots, ← hsame, hwhole, ← add_assoc] at hparts
  exact hnot hparts.symm

/-- **A reduction does not move the entry.** -/
theorem entry_of_reduces {top : Int} {leg : ExactLeg} (h : leg.Sane top) {q : Int}
    (hr : leg.Reduces q) (p : Int) : (leg.fold q p).entry = leg.entry := by
  obtain ⟨hlots, hnotional⟩ := fold_of_reduces h hr p
  have hne : leg.lots ≠ 0 ∧ leg.lots + q ≠ 0 := by
    unfold Reduces at hr
    omega
  rw [entry, entry, hlots, hnotional, if_neg hne.1, if_neg hne.2]
  rcases hr with ⟨hlong, hq, hleft⟩ | ⟨hshort, hq, hleft⟩
  · obtain ⟨hlow, hhigh⟩ := h.long hlong
    rw [abs_of_pos (by omega : 0 < leg.notional), abs_of_pos hlong, abs_of_pos hleft]
    exact (shrunk_facts hleft (by omega) hlow hhigh).2.2
  · obtain ⟨hlow, hhigh⟩ := h.short hshort
    rw [abs_of_neg (by omega : leg.notional < 0), abs_of_neg hshort, abs_of_neg hleft]
    exact (shrunk_facts (by omega) (by omega) hlow hhigh).2.2

/-! ## One more lot tells two notionals apart -/

theorem entry_tells_long {a b : ExactLeg} (hlots : 0 < a.lots) (hsame : a.lots = b.lots)
    (hb : 0 < b.notional) (hless : b.notional < a.notional) :
    ∃ p, 0 < p ∧ p ≤ a.lots + 1 ∧ (a.fold 1 p).entry ≠ (b.fold 1 p).entry := by
  have hmore : 0 < a.lots + 1 := by omega
  have hlow := Int.emod_nonneg a.notional (ne_of_gt hmore)
  have hhigh := Int.emod_lt_of_pos a.notional hmore
  have hdiv := Int.mul_ediv_add_emod a.notional (a.lots + 1)
  refine ⟨a.lots + 1 - a.notional % (a.lots + 1), by omega, by omega, ?_⟩
  generalize hp : a.lots + 1 - a.notional % (a.lots + 1) = p
  rw [fold_add hlots.le one_pos, fold_add (hsame ▸ hlots.le) one_pos, entry, entry]
  simp only
  rw [if_neg (by omega), if_neg (by omega), one_mul, abs_of_pos (by omega), abs_of_pos hmore,
    abs_of_pos (by omega), ← hsame, abs_of_pos hmore]
  -- the larger notional is filled up to a multiple, which the smaller one falls short of
  have hwhole : a.notional + p = (a.notional / (a.lots + 1) + 1) * (a.lots + 1) := by
    rw [add_mul, one_mul, mul_comm]
    omega
  have hexact : (a.notional + p) / (a.lots + 1) = a.notional / (a.lots + 1) + 1 := by
    rw [hwhole, Int.mul_ediv_cancel _ (ne_of_gt hmore)]
  have hshort : (b.notional + p) / (a.lots + 1) < a.notional / (a.lots + 1) + 1 := by
    apply Int.ediv_lt_of_lt_mul hmore
    rw [← hwhole]
    omega
  omega

theorem entry_tells_pos {top : Int} {a b : ExactLeg} (ha : a.Sane top) (hb : b.Sane top)
    (hlots : 0 < a.lots) (hsame : a.lots = b.lots) (hne : a ≠ b) :
    ∃ p, 0 < p ∧ p ≤ a.lots + 1 ∧ (a.fold 1 p).entry ≠ (b.fold 1 p).entry := by
  have hna := (ha.long hlots).1
  have hnb := (hb.long (hsame ▸ hlots)).1
  have hdiffer : a.notional ≠ b.notional := fun h => hne (ExactLeg.ext hsame h)
  rcases lt_or_gt_of_ne hdiffer with h | h
  · obtain ⟨p, hp, hle, hentry⟩ := entry_tells_long (hsame ▸ hlots) hsame.symm (by omega) h
    exact ⟨p, hp, hsame ▸ hle, hentry.symm⟩
  · exact entry_tells_long hlots hsame (by omega) h

/-- **Legs of the same lots and another notional** show another entry after one more lot. -/
theorem entry_tells {top : Int} {a b : ExactLeg} (ha : a.Sane top) (hb : b.Sane top)
    (hlots : a.lots ≠ 0) (hsame : a.lots = b.lots) (hne : a ≠ b) :
    ∃ p, 0 < p ∧ p ≤ |a.lots| + 1 ∧
      (a.fold a.lots.sign p).entry ≠ (b.fold a.lots.sign p).entry := by
  rcases lt_or_gt_of_ne hlots with h | h
  · have hne' : a.mirror ≠ b.mirror := by
      intro he
      have := congrArg mirror he
      rw [mirror_mirror, mirror_mirror] at this
      exact hne this
    obtain ⟨p, hp, hle, hentry⟩ := entry_tells_pos ha.mirror hb.mirror (neg_pos.mpr h)
      (congrArg Neg.neg hsame) hne'
    refine ⟨p, hp, ?_, ?_⟩
    · rw [abs_of_neg h]
      exact hle
    · rw [Int.sign_eq_neg_one_of_neg h]
      rw [← neg_neg (1 : Int), fold_mirror, fold_mirror, entry_mirror, entry_mirror] at hentry
      exact hentry
  · obtain ⟨p, hp, hle, hentry⟩ := entry_tells_pos ha hb h hsame hne
    rw [abs_of_pos h, Int.sign_eq_one_of_pos h]
    exact ⟨p, hp, hle, hentry⟩

end ExactLeg

/-! ## The leg of the source -/

namespace Leg

/-- The leg in unbounded integers. -/
def exact (leg : Leg) : ExactLeg := ⟨leg.lots.toInt, leg.notional⟩

/-- The highest price. -/
def topPrice : Int := 2 ^ 63 - 1

theorem le_topPrice (p : PriceTicks) : p.toInt ≤ topPrice := by
  have := Int64.toInt_lt p
  unfold topPrice
  omega

/-- A fold in which nothing saturates. -/
def Clean (leg : Leg) (q : QtyLots) : Prop :=
  |leg.lots.toInt + q.toInt| < 2 ^ 63 ∧
    (leg.exact.Reduces q.toInt → FitsI128 (|leg.notional| * |leg.lots.toInt + q.toInt|))

instance (leg : Leg) (q : QtyLots) : Decidable (leg.Clean q) :=
  inferInstanceAs (Decidable (_ ∧ (_ → _)))

/-- The folds of a list, one after the other. -/
def run (leg : Leg) (folds : List (QtyLots × PriceTicks)) : Leg :=
  folds.foldl (fun leg f => leg.fold f.1 f.2) leg

/-- A list of folds at positive prices in which nothing saturates. -/
def CleanRun : Leg → List (QtyLots × PriceTicks) → Prop
  | _, [] => True
  | leg, f :: rest => 0 < f.2 ∧ leg.Clean f.1 ∧ CleanRun (leg.fold f.1 f.2) rest

instance decidableCleanRun :
    (leg : Leg) → (folds : List (QtyLots × PriceTicks)) → Decidable (CleanRun leg folds)
  | _, [] => inferInstanceAs (Decidable True)
  | leg, f :: rest =>
    have := decidableCleanRun (leg.fold f.1 f.2) rest
    inferInstanceAs (Decidable (_ ∧ _ ∧ _))

/-- Legs that clean folds at positive prices can make. -/
structure Sound (leg : Leg) : Prop where
  sane : leg.exact.Sane topPrice
  lots : |leg.lots.toInt| < 2 ^ 63

theorem sound_flat : flat.Sound := ⟨ExactLeg.sane_flat topPrice, by decide⟩

theorem exact_inj {a b : Leg} (h : a.exact = b.exact) : a = b := by
  obtain ⟨l, n⟩ := a
  obtain ⟨l', n'⟩ := b
  rw [exact, exact, ExactLeg.mk.injEq, Int64.toInt_inj] at h
  have hlots : l = l' := h.1
  have hnotional : n = n' := h.2
  rw [hlots, hnotional]

/-- What is behind a sound leg is far from the ends of 128 bits. -/
theorem Sound.notional_lt {leg : Leg} (h : leg.Sound) : |leg.notional| < 2 ^ 126 := by
  obtain ⟨hflat, hlong, hshort⟩ := h.sane
  have hlots := abs_lt.mp h.lots
  simp only [exact, topPrice] at hflat hlong hshort
  rw [abs_lt]
  rcases lt_trichotomy leg.lots.toInt 0 with hl | hl | hl
  · have := hshort hl
    omega
  · rw [hflat hl]
    norm_num
  · have := hlong hl
    omega

/-- **Where nothing saturates, a fold is the exact one.** -/
theorem exact_fold {leg : Leg} (h : leg.Sound) {q : QtyLots} (hclean : leg.Clean q)
    (p : PriceTicks) : (leg.fold q p).exact = leg.exact.fold q.toInt p.toInt := by
  have hafter : (satAdd leg.lots q).toInt = leg.lots.toInt + q.toInt := by
    have := abs_lt.mp hclean.1
    exact toInt_ofIntClamp_of_fits ⟨by omega, by omega⟩
  have habs : (satAbs leg.lots).toInt = |leg.lots.toInt| := by
    have := h.lots
    rw [toInt_satAbs]
    omega
  have habs' : (satAbs (satAdd leg.lots q)).toInt = |leg.lots.toInt + q.toInt| := by
    have := hclean.1
    rw [toInt_satAbs, hafter]
    omega
  have hzero : ∀ l : Int64, l = 0 ↔ l.toInt = 0 := fun l => toInt_eq_zero.symm
  have hpos : ∀ l : Int64, 0 < l ↔ 0 < l.toInt := fun l => lt_iff_toInt
  have hproduct := Instrument.fitsI128_mul q p
  have hproduct' := Instrument.fitsI128_mul (satAdd leg.lots q) p
  have hsmall := abs_lt.mp h.notional_lt
  rw [hafter] at hproduct'
  unfold Leg.fold ExactLeg.fold exact
  simp only [ne_eq, hzero, hpos, hafter, habs, habs']
  split_ifs with hnone hadd hcross hclosed hneg
  · rfl
  · have hexact := satWide_of_fits hproduct
    have hsum : FitsI128 (leg.notional + q.toInt * p.toInt) := by
      have hmade := abs_le.mp (Instrument.abs_mul_le q p)
      exact ⟨by omega, by omega⟩
    rw [hexact, satWide_of_fits hsum, ExactLeg.mk.injEq]
    exact ⟨hafter, rfl⟩
  · rw [satWide_of_fits hproduct', ExactLeg.mk.injEq]
    exact ⟨hafter, rfl⟩
  · rw [ExactLeg.mk.injEq]
    exact ⟨hafter.trans hclosed, rfl⟩
  all_goals
    have hr : leg.exact.Reduces q.toInt := by
      unfold ExactLeg.Reduces exact
      simp only
      omega
    rw [satWide_of_fits (hclean.2 hr), ExactLeg.mk.injEq]
    refine ⟨hafter, ?_⟩
  · rw [Int.sign_eq_neg_one_of_neg hneg, neg_one_mul]
    rfl
  · have hsane := h.sane
    have hbehind : 0 < leg.notional := by
      rcases hr with ⟨hlong, -, -⟩ | ⟨hshort, -, -⟩
      · exact lt_of_lt_of_le hlong (hsane.long hlong).1
      · exact absurd (hsane.short hshort).1 (by
          have hlots : leg.exact.lots < 0 := hshort
          have hnotional : leg.exact.notional = leg.notional := rfl
          omega)
    rw [Int.sign_eq_one_of_pos hbehind, one_mul]
    rfl

theorem toInt_lots_fold {leg : Leg} (h : leg.Sound) {q : QtyLots} (hclean : leg.Clean q)
    (p : PriceTicks) : (leg.fold q p).lots.toInt = leg.lots.toInt + q.toInt := by
  rw [show (leg.fold q p).lots.toInt = (leg.fold q p).exact.lots from rfl,
    exact_fold h hclean p]
  exact ExactLeg.lots_fold _ _ _

theorem Sound.fold {leg : Leg} (h : leg.Sound) {q : QtyLots} (hclean : leg.Clean q)
    {p : PriceTicks} (hp : 0 < p) : (leg.fold q p).Sound := by
  have hexact := exact_fold h hclean p
  constructor
  · rw [hexact]
    exact h.sane.fold (lt_iff_toInt.mp hp) (le_topPrice p) q.toInt
  · rw [toInt_lots_fold h hclean]
    exact hclean.1

/-- The entry shown is the exact one. -/
theorem Sound.toInt_entryTicks {leg : Leg} (h : leg.Sound) :
    leg.entryTicks.toInt = leg.exact.entry := by
  obtain ⟨hlow, hhigh⟩ := ExactLeg.entry_le h.sane (by norm_num [topPrice])
  have habs : (satAbs leg.lots).toInt = |leg.lots.toInt| := by
    have := h.lots
    rw [toInt_satAbs]
    omega
  have hzero : leg.lots = 0 ↔ leg.exact.lots = 0 := toInt_eq_zero.symm
  unfold ExactLeg.entry at hlow hhigh ⊢
  unfold Leg.entryTicks
  rw [habs]
  by_cases hflat : leg.lots = 0
  · rw [if_pos hflat, if_pos (hzero.mp hflat)]
    rfl
  · rw [if_neg (hzero.not.mp hflat)] at hlow hhigh
    have hfits : FitsI64 (|leg.notional| / |leg.lots.toInt|) := by
      constructor
      · exact le_trans (by norm_num) hlow
      · exact lt_of_le_of_lt hhigh (by norm_num [topPrice])
    rw [if_neg hflat, if_neg (hzero.not.mp hflat), if_pos hfits]
    exact Int64.toInt_ofInt_of_le hfits.1 hfits.2

/-! ## Runs -/

theorem run_append (leg : Leg) (a b : List (QtyLots × PriceTicks)) :
    leg.run (a ++ b) = (leg.run a).run b := List.foldl_append ..

theorem cleanRun_append {leg : Leg} {a b : List (QtyLots × PriceTicks)} :
    CleanRun leg (a ++ b) ↔ CleanRun leg a ∧ CleanRun (leg.run a) b := by
  induction a generalizing leg with
  | nil => simp [CleanRun, run]
  | cons f rest ih =>
    rw [List.cons_append, CleanRun, CleanRun, ih, and_assoc, and_assoc]
    rfl

theorem Sound.run {leg : Leg} (h : leg.Sound) {folds : List (QtyLots × PriceTicks)}
    (hclean : CleanRun leg folds) : (leg.run folds).Sound := by
  induction folds generalizing leg with
  | nil => exact h
  | cons f rest ih =>
    obtain ⟨hp, hfold, hrest⟩ := hclean
    exact ih (h.fold hfold hp) hrest

/-- Both legs have the same lots and show the same entry. -/
def Agree (a b : Leg) : Prop := a.lots = b.lots ∧ a.entryTicks = b.entryTicks

/-- **Two legs of the same lots that are not the same** are told apart by one more lot. -/
theorem one_more {a b : Leg} (ha : a.Sound) (hb : b.Sound) (hsame : a.lots = b.lots)
    (hlots : a.lots ≠ 0) (hroom : |a.lots.toInt| + 1 < 2 ^ 63) (hne : a ≠ b) :
    ∃ q p, CleanRun a [(q, p)] ∧ CleanRun b [(q, p)] ∧
      ¬ Agree (a.run [(q, p)]) (b.run [(q, p)]) := by
  have hne' : a.exact ≠ b.exact := fun h => hne (exact_inj h)
  have hlots' : a.exact.lots ≠ 0 := toInt_eq_zero.not.mpr hlots
  obtain ⟨p, hp, hle, hentry⟩ :=
    ExactLeg.entry_tells ha.sane hb.sane hlots' (congrArg Int64.toInt hsame) hne'
  have hpfits : (Int64.ofInt p).toInt = p :=
    Int64.toInt_ofInt_of_le (by omega) (lt_of_le_of_lt hle hroom)
  have hpos : 0 < Int64.ofInt p := by
    rw [lt_iff_toInt, hpfits]
    exact hp
  obtain ⟨q, hq⟩ : ∃ q : QtyLots, q.toInt = a.exact.lots.sign := by
    rcases lt_or_gt_of_ne hlots' with h | h
    · exact ⟨-1, (Int.sign_eq_neg_one_of_neg h).symm⟩
    · exact ⟨1, (Int.sign_eq_one_of_pos h).symm⟩
  -- a lot more on the same side is no reduction
  have hclean : ∀ l : Leg, l.lots = a.lots → l.Clean q := by
    intro l hl
    have hll : l.lots.toInt = a.exact.lots := congrArg Int64.toInt hl
    have hroom' : |a.exact.lots| + 1 < 2 ^ 63 := hroom
    unfold Clean
    rw [hq, hll]
    rcases lt_or_gt_of_ne hlots' with h | h
    · rw [Int.sign_eq_neg_one_of_neg h]
      rw [abs_of_neg h] at hroom'
      refine ⟨by rw [abs_of_neg (by omega)]; omega, ?_⟩
      unfold ExactLeg.Reduces exact
      simp only
      omega
    · rw [Int.sign_eq_one_of_pos h]
      rw [abs_of_pos h] at hroom'
      refine ⟨by rw [abs_of_pos (by omega)]; omega, ?_⟩
      unfold ExactLeg.Reduces exact
      simp only
      omega
  have hca := hclean a rfl
  have hcb := hclean b hsame.symm
  refine ⟨q, Int64.ofInt p, ⟨hpos, hca, trivial⟩, ⟨hpos, hcb, trivial⟩, ?_⟩
  rintro ⟨-, hticks⟩
  have hticks' := congrArg Int64.toInt hticks
  rw [show a.run [(q, Int64.ofInt p)] = a.fold q (Int64.ofInt p) from rfl,
    show b.run [(q, Int64.ofInt p)] = b.fold q (Int64.ofInt p) from rfl,
    (ha.fold hca hpos).toInt_entryTicks, (hb.fold hcb hpos).toInt_entryTicks, exact_fold ha hca,
    exact_fold hb hcb, hpfits, hq] at hticks'
  exact hentry hticks'

/-- What stays of a reduced leg is something, and less than before. -/
theorem left_of_reduces {leg : Leg} {q : Int} (h : leg.exact.Reduces q) :
    leg.lots.toInt + q ≠ 0 ∧ |leg.lots.toInt + q| + 1 ≤ |leg.lots.toInt| := by
  rcases h with ⟨hl, hq, hle⟩ | ⟨hl, hq, hle⟩
  · have hl' : 0 < leg.lots.toInt := hl
    have hle' : 0 < leg.lots.toInt + q := hle
    rw [abs_of_pos hl', abs_of_pos hle']
    omega
  · have hl' : leg.lots.toInt < 0 := hl
    have hle' : leg.lots.toInt + q < 0 := hle
    rw [abs_of_neg hl', abs_of_neg hle']
    omega

section Split

variable {leg : Leg} {q q₁ q₂ : QtyLots} {p : PriceTicks}

/-- **A reduction whose parts divide otherwise** is told from the whole one by one more
lot. -/
theorem parts_differ (h : leg.Sound) (hp : 0 < p) (hsum : q₁.toInt + q₂.toInt = q.toInt)
    (hside : ExactLeg.SameSide q₁.toInt q₂.toInt) (hclean : leg.Clean q) (hclean₁ : leg.Clean q₁)
    (hclean₂ : (leg.fold q₁ p).Clean q₂) (hr : leg.exact.Reduces q.toInt)
    (hnot : ¬ leg.exact.DividesAlike q₁.toInt q₂.toInt) :
    ∃ q' p', CleanRun (leg.fold q p) [(q', p')] ∧
      CleanRun ((leg.fold q₁ p).fold q₂ p) [(q', p')] ∧
      ¬ Agree ((leg.fold q p).run [(q', p')]) (((leg.fold q₁ p).fold q₂ p).run [(q', p')]) := by
  have h₁ := h.fold hclean₁ hp
  have hne : (leg.fold q p).exact ≠ ((leg.fold q₁ p).fold q₂ p).exact := by
    rw [exact_fold h hclean, exact_fold h₁ hclean₂, exact_fold h hclean₁, ← hsum]
    exact ExactLeg.parts_ne_whole h.sane (lt_iff_toInt.mp hp) (le_topPrice p) hside
      (hsum ▸ hr) hnot
  have hafter : (leg.fold q p).lots.toInt = leg.lots.toInt + q.toInt := toInt_lots_fold h hclean p
  have hafter₂ : ((leg.fold q₁ p).fold q₂ p).lots.toInt = leg.lots.toInt + q.toInt := by
    rw [toInt_lots_fold h₁ hclean₂, toInt_lots_fold h hclean₁, ← hsum, add_assoc]
  obtain ⟨hleft, hless⟩ := left_of_reduces hr
  have hflat : (leg.fold q p).lots ≠ 0 := by
    rw [Ne, ← toInt_eq_zero, hafter]
    exact hleft
  have hroom : |(leg.fold q p).lots.toInt| + 1 < 2 ^ 63 := by
    rw [hafter]
    exact lt_of_le_of_lt hless h.lots
  exact one_more (h.fold hclean hp) (h₁.fold hclean₂ hp)
    (Int64.toInt_inj.mp (hafter.trans hafter₂.symm)) hflat hroom fun heq => hne (congrArg exact heq)

/-- Any other fill in two parts is the fill as a whole. -/
theorem parts_eq (h : leg.Sound) (hp : 0 < p) (hsum : q₁.toInt + q₂.toInt = q.toInt)
    (hside : ExactLeg.SameSide q₁.toInt q₂.toInt) (hclean : leg.Clean q) (hclean₁ : leg.Clean q₁)
    (hclean₂ : (leg.fold q₁ p).Clean q₂)
    (hcond : leg.exact.Reduces q.toInt → leg.exact.DividesAlike q₁.toInt q₂.toInt) :
    leg.fold q p = (leg.fold q₁ p).fold q₂ p := by
  apply exact_inj
  rw [exact_fold h hclean, exact_fold (h.fold hclean₁ hp) hclean₂, exact_fold h hclean₁, ← hsum,
    ExactLeg.fold_fold h.sane hside _ (hsum ▸ hcond)]

end Split

/-- **When a fill in two parts is the fill as a whole**, whatever is folded before and after.
A reduction alone never moves the entry. -/
theorem split_iff {before : List (QtyLots × PriceTicks)} {q q₁ q₂ : QtyLots} {p : PriceTicks}
    (hsum : q₁.toInt + q₂.toInt = q.toInt) (hside : ExactLeg.SameSide q₁.toInt q₂.toInt)
    (hwhole : CleanRun flat (before ++ [(q, p)]))
    (hparts : CleanRun flat (before ++ [(q₁, p), (q₂, p)])) :
    ((∀ after, CleanRun flat (before ++ (q, p) :: after) →
        CleanRun flat (before ++ (q₁, p) :: (q₂, p) :: after) →
        Agree (flat.run (before ++ (q, p) :: after))
          (flat.run (before ++ (q₁, p) :: (q₂, p) :: after))) ↔
      ((flat.run before).exact.Reduces q.toInt →
        (flat.run before).exact.DividesAlike q₁.toInt q₂.toInt)) ∧
    ((flat.run before).exact.Reduces q.toInt →
      (flat.run (before ++ [(q, p)])).entryTicks = (flat.run before).entryTicks) := by
  obtain ⟨hbefore, hp, hclean, -⟩ := cleanRun_append.mp hwhole
  obtain ⟨-, -, hclean₁, -, hclean₂, -⟩ := cleanRun_append.mp hparts
  have hsound := sound_flat.run hbefore
  simp only [run_append, cleanRun_append]
  -- what came before matters only through the leg it left
  generalize flat.run before = leg at hsound hclean hclean₁ hclean₂ ⊢
  refine ⟨⟨?_, ?_⟩, ?_⟩
  · intro hall hr
    by_contra hnot
    obtain ⟨q', p', hcleanOne, hcleanOne', hdiffer⟩ :=
      parts_differ hsound hp hsum hside hclean hclean₁ hclean₂ hr hnot
    refine hdiffer (hall [(q', p')] ?_ ?_)
    · exact ⟨hbefore, hp, hclean, hcleanOne⟩
    · exact ⟨hbefore, hp, hclean₁, hp, hclean₂, hcleanOne'⟩
  · intro hcond after _ _
    have hsame := parts_eq hsound hp hsum hside hclean hclean₁ hclean₂ hcond
    show Agree ((leg.fold q p).run after) (((leg.fold q₁ p).fold q₂ p).run after)
    rw [hsame]
    exact ⟨rfl, rfl⟩
  · intro hr
    apply Int64.toInt_inj.mp
    show (leg.fold q p).entryTicks.toInt = leg.entryTicks.toInt
    rw [(hsound.fold hclean hp).toInt_entryTicks, hsound.toInt_entryTicks, exact_fold hsound hclean]
    exact ExactLeg.entry_of_reduces hsound.sane hr _

/-- Three lots added to two, as two and one. -/
theorem split_iff_added :
    ((∀ after, CleanRun flat ([(2, 100)] ++ (3, 101) :: after) →
        CleanRun flat ([(2, 100)] ++ (2, 101) :: (1, 101) :: after) →
        Agree (flat.run ([(2, 100)] ++ (3, 101) :: after))
          (flat.run ([(2, 100)] ++ (2, 101) :: (1, 101) :: after))) ↔
      ((flat.run [(2, 100)]).exact.Reduces (3 : Int64).toInt →
        (flat.run [(2, 100)]).exact.DividesAlike (2 : Int64).toInt (1 : Int64).toInt)) ∧
    ((flat.run [(2, 100)]).exact.Reduces (3 : Int64).toInt →
      (flat.run ([(2, 100)] ++ [(3, 101)])).entryTicks = (flat.run [(2, 100)]).entryTicks) :=
  split_iff (by decide) (by unfold ExactLeg.SameSide; decide)
    (by decide) (by decide)

/-- Two lots at 1 and two at 2, reduced by two, then one lot at 3: the entry is 2, and 1 if
the reduction came in two parts. -/
theorem split_reduction_moves :
    (flat.run [(2, 1), (2, 2), (-2, 5), (1, 3)]).entryTicks = 2 ∧
      (flat.run [(2, 1), (2, 2), (-1, 5), (-1, 5), (1, 3)]).entryTicks = 1 := by
  decide

end Leg

end Live
