/-
# Tables of brackets

A table of brackets gives every number the first bracket whose bound it does not exceed, and
the last one above all the bounds.  What is known of each bracket, and of what happens where
one hands over to the next, is known of the table:

* `select_succ` : one step up stays in the bracket or crosses its bound into the next;
* `select_le_select` : a figure that grows inside every bracket and does not drop at a bound
  grows over the whole table;
* `line_le_select` : of lines that take over from each other at the bounds, the one of the
  selected bracket is the highest.

Nothing here names the program under verification.
-/
import Mathlib

namespace Brackets

variable {α : Type} {β : Type*}

/-- The first bracket whose bound is not exceeded, or the last one. -/
def select (bound : α → ℤ) (l : List α) (hl : l ≠ []) (x : ℤ) : α :=
  (l.find? fun a => decide (x ≤ bound a)).getD (l.getLast hl)

variable {bound : α → ℤ}

/-- What two chains say of neighbours, said together. -/
theorem isChain_and {R S : α → α → Prop} {l : List α} (hR : l.IsChain R) (hS : l.IsChain S) :
    l.IsChain fun a b => R a b ∧ S a b := by
  rw [List.isChain_iff_getElem] at *
  exact fun i hi => ⟨hR i hi, hS i hi⟩

/-! ## Selecting -/

@[simp] theorem select_singleton (a : α) (x : ℤ) :
    select bound [a] (List.cons_ne_nil a []) x = a := by
  unfold select
  rw [List.find?_singleton]
  split <;> rfl

theorem select_of_le {a : α} {x : ℤ} (rest : List α) (h : x ≤ bound a) :
    select bound (a :: rest) (List.cons_ne_nil a rest) x = a := by
  unfold select
  rw [List.find?_cons_of_pos (by simpa using h)]
  rfl

theorem select_of_lt {a b : α} {x : ℤ} (rest : List α) (h : bound a < x) :
    select bound (a :: b :: rest) (List.cons_ne_nil a _) x =
      select bound (b :: rest) (List.cons_ne_nil b rest) x := by
  unfold select
  rw [List.find?_cons_of_neg (by simpa using h)]
  rfl

theorem select_mem (l : List α) (hl : l ≠ []) (x : ℤ) : select bound l hl x ∈ l := by
  unfold select
  rcases h : l.find? fun a => decide (x ≤ bound a) with _ | a
  · exact List.getLast_mem hl
  · exact List.mem_of_find?_eq_some h

/-- **One step up** stays in the bracket, or leaves it at its bound for the next one. -/
theorem select_succ {R : α → α → Prop} {l : List α} (hl : l ≠ [])
    (hord : l.IsChain (bound · < bound ·)) (hR : l.IsChain R) (x : ℤ) :
    select bound l hl (x + 1) = select bound l hl x ∨
      x = bound (select bound l hl x) ∧
        R (select bound l hl x) (select bound l hl (x + 1)) := by
  induction l with
  | nil => exact absurd rfl hl
  | cons a rest ih =>
    cases rest with
    | nil => exact Or.inl (by rw [select_singleton, select_singleton])
    | cons b rest =>
      obtain ⟨hab, hord'⟩ := List.isChain_cons_cons.mp hord
      obtain ⟨hRab, hR'⟩ := List.isChain_cons_cons.mp hR
      rcases lt_trichotomy x (bound a) with hlt | heq | hgt
      · left
        rw [select_of_le _ (by omega), select_of_le _ (by omega)]
      · right
        rw [select_of_le _ heq.le, select_of_lt _ (by omega), select_of_le _ (by omega)]
        exact ⟨heq, hRab⟩
      · rw [select_of_lt _ hgt, select_of_lt _ (by omega)]
        exact ih (List.cons_ne_nil b rest) hord' hR'

/-- **A figure that never drops.**  Read from the selected bracket, it does not drop between
`x` and `y` if it grows inside each bracket and is not smaller on the far side of a bound. -/
theorem select_le_select [Preorder β] {g : α → ℤ → β} {l : List α} (hl : l ≠ [])
    (hord : l.IsChain (bound · < bound ·)) {x y : ℤ} (hxy : x ≤ y)
    (hin : ∀ a ∈ l, ∀ z, x ≤ z → g a z ≤ g a (z + 1))
    (hstep : l.IsChain fun a b => x ≤ bound a → g a (bound a) ≤ g b (bound a + 1)) :
    g (select bound l hl x) x ≤ g (select bound l hl y) y := by
  induction y, hxy using Int.leInduction with
  | base => exact le_rfl
  | succ z hxz ih =>
    refine ih.trans ?_
    rcases select_succ hl hord hstep z with hsame | ⟨hbound, hcross⟩
    · rw [hsame]
      exact hin _ (select_mem l hl z) z hxz
    · rw [← hbound] at hcross
      exact hcross hxz

/-! ## Lines -/

/-- Where two lines meet, the steeper one is below on the left and above on the right. -/
theorem line_cross {r s p q B : ℤ} (hrs : r ≤ s) (hmeet : B * r - p = B * s - q) (x : ℤ) :
    (x ≤ B → x * s - q ≤ x * r - p) ∧ (B ≤ x → x * r - p ≤ x * s - q) := by
  have hgap : x * s - q - (x * r - p) = (x - B) * (s - r) := by linarith
  constructor
  · intro hx
    have := mul_nonneg (sub_nonneg.mpr hx) (sub_nonneg.mpr hrs)
    linarith
  · intro hx
    have := mul_nonneg (sub_nonneg.mpr hx) (sub_nonneg.mpr hrs)
    linarith

/-- Each line is above the next one up to its bracket's bound, and below it from there on. -/
def TakesOver (bound : α → ℤ) (line : α → ℤ → ℤ) (a b : α) : Prop :=
  ∀ x, (x ≤ bound a → line b x ≤ line a x) ∧ (bound a ≤ x → line a x ≤ line b x)

variable {line : α → ℤ → ℤ}

/-- Up to the first bound the first line is the highest. -/
theorem line_le_head {a : α} {rest : List α} (hord : (a :: rest).IsChain (bound · < bound ·))
    (htakes : (a :: rest).IsChain (TakesOver bound line)) {x : ℤ} (hx : x ≤ bound a) :
    ∀ c ∈ rest, line c x ≤ line a x := by
  induction rest generalizing a with
  | nil => exact fun c hc => nomatch hc
  | cons b rest ih =>
    obtain ⟨hab, hord'⟩ := List.isChain_cons_cons.mp hord
    obtain ⟨hcross, htakes'⟩ := List.isChain_cons_cons.mp htakes
    have hb := (hcross x).1 hx
    intro c hc
    rcases List.mem_cons.mp hc with rfl | hc
    · exact hb
    · exact (ih hord' htakes' (hx.trans hab.le) c hc).trans hb

/-- **The selected line is the highest.** -/
theorem line_le_select {l : List α} (hl : l ≠ []) (hord : l.IsChain (bound · < bound ·))
    (htakes : l.IsChain (TakesOver bound line)) (x : ℤ) :
    ∀ c ∈ l, line c x ≤ line (select bound l hl x) x := by
  induction l with
  | nil => exact absurd rfl hl
  | cons a rest ih =>
    cases rest with
    | nil =>
      intro c hc
      rw [List.mem_singleton.mp hc, select_singleton]
    | cons b rest =>
      obtain ⟨hab, hord'⟩ := List.isChain_cons_cons.mp hord
      obtain ⟨hcross, htakes'⟩ := List.isChain_cons_cons.mp htakes
      rcases le_or_gt x (bound a) with hle | hgt
      · rw [select_of_le _ hle]
        intro c hc
        rcases List.mem_cons.mp hc with rfl | hc
        · exact le_rfl
        · exact line_le_head hord htakes hle c hc
      · rw [select_of_lt _ hgt]
        have hrest := ih (List.cons_ne_nil b rest) hord' htakes'
        intro c hc
        rcases List.mem_cons.mp hc with rfl | hc
        · exact ((hcross x).2 hgt.le).trans (hrest b List.mem_cons_self)
        · exact hrest c hc

end Brackets
