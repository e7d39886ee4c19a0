/-
# Partition points

A list whose predicate turns false once and for all is cut at one place, and a search by halves
finds it.

* The cut leaves what passes the predicate in front and the rest behind
  (`take_partitionPoint`, `drop_partitionPoint`).
* A list in strict order stays so when an element is inserted at its cut
  (`pairwise_insertIdx`).

Nothing here names the program under verification.
-/
import Mathlib

namespace PartitionPoint

variable {α : Type*}

/-- The search between two places: every half that is left keeps the cut in it. -/
def bisect (p : α → Bool) (l : List α) (low high : ℕ) : ℕ :=
  if low < high then
    let mid := (low + high) / 2
    if l[mid]?.any p then bisect p l (mid + 1) high else bisect p l low mid
  else low
termination_by high - low

/-- `slice::partition_point` -/
def partitionPoint (p : α → Bool) (l : List α) : ℕ := bisect p l 0 l.length

/-- The predicate turns false once and for all. -/
def Partitioned (p : α → Bool) (l : List α) : Prop :=
  l.Pairwise fun a b => p b = true → p a = true

section Cut

variable {p : α → Bool} {l : List α}

/-- Where the cut is, what is before it passes the predicate and what is behind it does not. -/
def IsCut (p : α → Bool) (l : List α) (k : ℕ) : Prop :=
  k ≤ l.length ∧ ∀ i < l.length, l[i]?.any p = true ↔ i < k

theorem bisect_eq {k low high : ℕ} (hcut : IsCut p l k) (hlow : low ≤ k) (hhigh : k ≤ high)
    (hlength : high ≤ l.length) : bisect p l low high = k := by
  -- The induction is on the width; the cut stays between the two places.
  induction hwidth : high - low using Nat.strong_induction_on generalizing low high with
  | _ width ih =>
    rw [bisect]
    by_cases hlt : low < high
    · have hmid : (low + high) / 2 < l.length := by omega
      have hside := hcut.2 _ hmid
      rw [if_pos hlt]
      dsimp only
      by_cases hpass : l[(low + high) / 2]?.any p = true
      · have hbelow : (low + high) / 2 < k := hside.mp hpass
        rw [if_pos hpass]
        exact ih _ (by omega) (by omega) hhigh hlength rfl
      · have habove : k ≤ (low + high) / 2 := Nat.le_of_not_lt (mt hside.mpr hpass)
        rw [if_neg hpass]
        exact ih _ (by omega) hlow habove (by omega) rfl
    · rw [if_neg hlt]
      omega

/-- What passes is in front. -/
theorem isCut_takeWhile (h : Partitioned p l) : IsCut p l (l.takeWhile p).length := by
  refine ⟨(List.takeWhile_sublist p).length_le, ?_⟩
  induction l with
  | nil => intro i hi; nomatch hi
  | cons a l ih =>
    obtain ⟨hhead, htail⟩ := List.pairwise_cons.mp h
    intro i hi
    by_cases ha : p a = true
    · rw [List.takeWhile_cons_of_pos ha, List.length_cons]
      cases i with
      | zero => simp [ha]
      | succ i =>
        have hrest := ih htail i (Nat.lt_of_succ_lt_succ hi)
        rw [List.getElem?_cons_succ, hrest]
        omega
    · rw [List.takeWhile_cons_of_neg ha, List.length_nil]
      -- Nothing behind an element that fails passes.
      have hnone : ∀ b ∈ a :: l, ¬ p b = true := by
        intro b hb
        rcases List.mem_cons.mp hb with rfl | hb
        · exact ha
        · exact fun hpass => ha (hhead b hb hpass)
      have hmem := List.getElem_mem hi
      rw [List.getElem?_eq_getElem hi, Option.any_some]
      constructor
      · intro hpass
        exact absurd hpass (hnone _ hmem)
      · intro hlt
        omega

theorem partitionPoint_eq (h : Partitioned p l) :
    partitionPoint p l = (l.takeWhile p).length := by
  have hcut := isCut_takeWhile h
  exact bisect_eq hcut (Nat.zero_le _) hcut.1 le_rfl

theorem partitionPoint_le (h : Partitioned p l) : partitionPoint p l ≤ l.length := by
  rw [partitionPoint_eq h]
  exact (List.takeWhile_sublist p).length_le

theorem takeWhile_eq_filter (h : Partitioned p l) : l.takeWhile p = l.filter p := by
  induction l with
  | nil => rfl
  | cons a l ih =>
    obtain ⟨hhead, htail⟩ := List.pairwise_cons.mp h
    by_cases ha : p a = true
    · rw [List.takeWhile_cons_of_pos ha, List.filter_cons_of_pos ha, ih htail]
    · rw [List.takeWhile_cons_of_neg ha, List.filter_cons_of_neg ha]
      symm
      exact List.filter_eq_nil_iff.mpr fun b hb hpass => ha (hhead b hb hpass)

theorem dropWhile_eq_filter (h : Partitioned p l) :
    l.dropWhile p = l.filter fun a => !p a := by
  induction l with
  | nil => rfl
  | cons a l ih =>
    obtain ⟨hhead, htail⟩ := List.pairwise_cons.mp h
    by_cases ha : p a = true
    · rw [List.dropWhile_cons_of_pos ha, List.filter_cons_of_neg (by simp [ha]), ih htail]
    · rw [List.dropWhile_cons_of_neg ha]
      symm
      refine List.filter_eq_self.mpr fun b hb => ?_
      rcases List.mem_cons.mp hb with rfl | hb
      · simpa using ha
      · simpa using fun hpass => ha (hhead b hb hpass)

/-- In front of the cut is what passes. -/
theorem take_partitionPoint (h : Partitioned p l) :
    l.take (partitionPoint p l) = l.filter p := by
  have hsplit := List.takeWhile_append_dropWhile (p := p) (l := l)
  calc l.take (partitionPoint p l)
      = (l.takeWhile p ++ l.dropWhile p).take (l.takeWhile p).length := by
        rw [partitionPoint_eq h, hsplit]
    _ = l.filter p := by rw [List.take_left, takeWhile_eq_filter h]

/-- Behind the cut is what does not. -/
theorem drop_partitionPoint (h : Partitioned p l) :
    l.drop (partitionPoint p l) = l.filter fun a => !p a := by
  have hsplit := List.takeWhile_append_dropWhile (p := p) (l := l)
  calc l.drop (partitionPoint p l)
      = (l.takeWhile p ++ l.dropWhile p).drop (l.takeWhile p).length := by
        rw [partitionPoint_eq h, hsplit]
    _ = l.filter fun a => !p a := by rw [List.drop_left, dropWhile_eq_filter h]

theorem insertIdx_length (front back : List α) (x : α) :
    (front ++ back).insertIdx front.length x = front ++ x :: back := by
  induction front with
  | nil => rfl
  | cons a front ih =>
    rw [List.cons_append, List.length_cons, List.insertIdx_succ_cons, ih, List.cons_append]

/-- An element that comes after what passes and before what does not is put at the cut. -/
theorem pairwise_insertIdx {r : α → α → Prop} {x : α} (h : Partitioned p l) (hl : l.Pairwise r)
    (hbefore : ∀ a ∈ l, p a = true → r a x) (hafter : ∀ a ∈ l, p a = false → r x a) :
    (l.insertIdx (partitionPoint p l) x).Pairwise r := by
  have hsplit := List.take_append_drop (partitionPoint p l) l
  have hlength : (l.take (partitionPoint p l)).length = partitionPoint p l :=
    List.length_take_of_le (partitionPoint_le h)
  have hshape := insertIdx_length (l.take (partitionPoint p l)) (l.drop (partitionPoint p l)) x
  rw [hlength, hsplit] at hshape
  have hpairs := hl
  rw [← hsplit, List.pairwise_append] at hpairs
  obtain ⟨hfront, hback, hcross⟩ := hpairs
  have hpass : ∀ a ∈ l.take (partitionPoint p l), r a x := by
    intro a ha
    rw [take_partitionPoint h, List.mem_filter] at ha
    exact hbefore a ha.1 ha.2
  have hfail : ∀ a ∈ l.drop (partitionPoint p l), r x a := by
    intro a ha
    rw [drop_partitionPoint h, List.mem_filter, Bool.not_eq_true'] at ha
    exact hafter a ha.1 ha.2
  rw [hshape, List.pairwise_append]
  refine ⟨hfront, List.pairwise_cons.mpr ⟨hfail, hback⟩, ?_⟩
  intro a ha b hb
  rcases List.mem_cons.mp hb with rfl | hb
  · exact hpass a ha
  · exact hcross a ha b hb

end Cut

end PartitionPoint
