/-
# Interleavings

A list that is made of two others, each in its own order, told by the side each of its elements
is from.

* The list has the elements of both sides and no others (`Interleaves.countP`).
* A two-way merge is an interleaving in which the next element of the one side and the next of
  the other always decided between themselves (`exists_sides_merge`).
* If both sides are sorted, any two elements of different sides have been decided so
  (`Decided.pairwise`).

Nothing here names the program under verification.
-/
import Mathlib

namespace Interleaving

variable {α : Type*}

/-- An element, whichever side it is from. -/
def value : α ⊕ α → α := Sum.elim id id

/-- What is from the left side. -/
def lefts (sides : List (α ⊕ α)) : List α := sides.filterMap Sum.getLeft?

/-- What is from the right side. -/
def rights (sides : List (α ⊕ α)) : List α := sides.filterMap Sum.getRight?

section Sides

variable (x y : α) (sides : List (α ⊕ α))

@[simp] theorem lefts_inl : lefts (.inl x :: sides) = x :: lefts sides := rfl

@[simp] theorem lefts_inr : lefts (.inr y :: sides) = lefts sides := rfl

@[simp] theorem rights_inl : rights (.inl x :: sides) = rights sides := rfl

@[simp] theorem rights_inr : rights (.inr y :: sides) = y :: rights sides := rfl

theorem mem_lefts : x ∈ lefts sides ↔ .inl x ∈ sides := by
  simp [lefts, List.mem_filterMap, Sum.getLeft?_eq_some_iff]

theorem mem_rights : y ∈ rights sides ↔ .inr y ∈ sides := by
  simp [rights, List.mem_filterMap, Sum.getRight?_eq_some_iff]

end Sides

/-- `zs` is made of `xs` and `ys`, each in its order, as `sides` tells. -/
structure Interleaves (xs ys zs : List α) (sides : List (α ⊕ α)) : Prop where
  left : lefts sides = xs
  right : rights sides = ys
  all : sides.map value = zs

namespace Interleaves

variable {xs ys zs : List α} {sides : List (α ⊕ α)}

theorem nil : Interleaves ([] : List α) [] [] [] := ⟨rfl, rfl, rfl⟩

theorem inl (h : Interleaves xs ys zs sides) (x : α) :
    Interleaves (x :: xs) ys (x :: zs) (.inl x :: sides) :=
  ⟨congrArg (x :: ·) h.left, h.right, congrArg (x :: ·) h.all⟩

theorem inr (h : Interleaves xs ys zs sides) (y : α) :
    Interleaves xs (y :: ys) (y :: zs) (.inr y :: sides) :=
  ⟨h.left, congrArg (y :: ·) h.right, congrArg (y :: ·) h.all⟩

/-- What is counted in the whole is counted in the one side or in the other. -/
theorem countP (h : Interleaves xs ys zs sides) (p : α → Bool) :
    zs.countP p = xs.countP p + ys.countP p := by
  obtain ⟨rfl, rfl, rfl⟩ := h
  induction sides with
  | nil => rfl
  | cons s sides ih =>
    cases s with
    | inl x =>
      rw [List.map_cons, lefts_inl, rights_inl, List.countP_cons, List.countP_cons, ih]
      change _ + (if p x = true then 1 else 0) = _
      omega
    | inr y =>
      rw [List.map_cons, lefts_inr, rights_inr, List.countP_cons, List.countP_cons, ih]
      change _ + (if p y = true then 1 else 0) = _
      omega

end Interleaves

/-! ## Merges -/

section Merges

variable {le : α → α → Bool}

/-- Each element was not behind the next one of the other side when it was taken, where on a tie
the left side is first. -/
def Decided (le : α → α → Bool) : List (α ⊕ α) → Prop
  | [] => True
  | .inl x :: later => (∀ y ∈ (rights later).head?, le x y = true) ∧ Decided le later
  | .inr y :: later => (∀ x ∈ (lefts later).head?, le x y = false) ∧ Decided le later

theorem exists_sides_left (xs : List α) :
    ∃ sides, Interleaves xs [] xs sides ∧ Decided le sides := by
  induction xs with
  | nil => exact ⟨[], .nil, trivial⟩
  | cons x xs ih =>
    obtain ⟨sides, hsides, hdecided⟩ := ih
    refine ⟨.inl x :: sides, hsides.inl x, fun y hy => ?_, hdecided⟩
    rw [hsides.right] at hy
    cases hy

theorem exists_sides_right (ys : List α) :
    ∃ sides, Interleaves [] ys ys sides ∧ Decided le sides := by
  induction ys with
  | nil => exact ⟨[], .nil, trivial⟩
  | cons y ys ih =>
    obtain ⟨sides, hsides, hdecided⟩ := ih
    refine ⟨.inr y :: sides, hsides.inr y, fun x hx => ?_, hdecided⟩
    rw [hsides.left] at hx
    cases hx

/-- A merge interleaves its two lists, and decides at each element. -/
theorem exists_sides_merge (xs ys : List α) :
    ∃ sides, Interleaves xs ys (xs.merge ys le) sides ∧ Decided le sides := by
  induction xs generalizing ys with
  | nil =>
    rw [List.nil_merge]
    exact exists_sides_right ys
  | cons x xs ihx =>
    induction ys with
    | nil =>
      rw [List.merge_right]
      exact exists_sides_left (x :: xs)
    | cons y ys ihy =>
      rw [List.cons_merge_cons]
      -- What is next on the other side is the one that was just not taken.
      by_cases hle : le x y = true
      · obtain ⟨sides, hsides, hdecided⟩ := ihx (y :: ys)
        rw [if_pos hle]
        refine ⟨.inl x :: sides, hsides.inl x, fun z hz => ?_, hdecided⟩
        rw [hsides.right, List.head?_cons, Option.mem_some_iff] at hz
        rw [← hz, hle]
      · obtain ⟨sides, hsides, hdecided⟩ := ihy
        rw [if_neg hle]
        refine ⟨.inr y :: sides, hsides.inr y, fun z hz => ?_, hdecided⟩
        rw [hsides.left, List.head?_cons, Option.mem_some_iff] at hz
        rw [← hz]
        exact Bool.eq_false_iff.mpr hle

/-- An element of one side before one of the other, as the order has it. -/
def Before (le : α → α → Bool) : α ⊕ α → α ⊕ α → Prop
  | .inl x, .inr y => le x y = true
  | .inr y, .inl x => le x y = false
  | _, _ => True

/-- The first of a sorted list is not behind any of it. -/
theorem exists_head_le (refl : ∀ a, le a a = true) {l : List α} (hsorted : l.Pairwise (le · ·))
    {a : α} (ha : a ∈ l) : ∃ b ∈ l.head?, le b a = true := by
  cases l with
  | nil => cases ha
  | cons b l =>
    refine ⟨b, rfl, ?_⟩
    rcases List.mem_cons.mp ha with rfl | hlater
    · exact refl a
    · exact List.rel_of_pairwise_cons hsorted hlater

/-- In a merge of sorted lists any two elements of different sides are in order. -/
theorem Decided.pairwise (refl : ∀ a, le a a = true)
    (trans : ∀ a b c, le a b = true → le b c = true → le a c = true) {sides : List (α ⊕ α)}
    (h : Decided le sides) (hleft : (lefts sides).Pairwise (le · ·))
    (hright : (rights sides).Pairwise (le · ·)) : sides.Pairwise (Before le) := by
  induction sides with
  | nil => exact List.Pairwise.nil
  | cons s later ih =>
    cases s with
    | inl x =>
      refine List.pairwise_cons.mpr ⟨fun t ht => ?_, ih h.2 hleft.of_cons hright⟩
      cases t with
      | inl z => trivial
      | inr y =>
        obtain ⟨z, hz, hle⟩ := exists_head_le refl hright ((mem_rights y later).mpr ht)
        exact trans x z y (h.1 z hz) hle
    | inr y =>
      refine List.pairwise_cons.mpr ⟨fun t ht => ?_, ih h.2 hleft hright.of_cons⟩
      cases t with
      | inr z => trivial
      | inl x =>
        obtain ⟨z, hz, hle⟩ := exists_head_le refl hleft ((mem_lefts x later).mpr ht)
        have hnot := h.1 z hz
        -- Had the left one not been behind, neither had the next of its side.
        refine Bool.eq_false_iff.mpr fun hxy => ?_
        rw [trans z x y hle hxy] at hnot
        cases hnot

end Merges

end Interleaving
