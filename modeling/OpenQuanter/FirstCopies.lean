/-
# First copies and stable order

What is left of a list when of all elements with one key only the first is kept, and where the
elements of a sorted list came from.

* Dropping repeats leaves a sublist in which no key is repeated (`dropSeen_sublist`,
  `dropSeen_pairwise`), and in front of each dropped element its first copy (`exists_first`).
* A stable sort orders the places of a list by the elements there, and equal ones by the places
  (`exists_places`).

Nothing here names the program under verification.
-/
import Mathlib

namespace FirstCopies

variable {α κ : Type*}

/-- Two elements of an ordered list that are not the other way round are this way round. -/
theorem pair_sublist_of_pairwise {R : α → α → Prop} {l : List α} (h : l.Pairwise R) {a b : α}
    (ha : a ∈ l) (hb : b ∈ l) (hne : a ≠ b) (hnot : ¬ R b a) : [a, b].Sublist l := by
  induction l with
  | nil => cases ha
  | cons x l ih =>
    obtain ⟨hx, hl⟩ := List.pairwise_cons.mp h
    rcases List.mem_cons.mp ha with rfl | hal
    · rcases List.mem_cons.mp hb with rfl | hbl
      · exact absurd rfl hne
      · exact (List.singleton_sublist.mpr hbl).cons_cons a
    · rcases List.mem_cons.mp hb with rfl | hbl
      · exact absurd (hx a hal) hnot
      · exact (ih hl hal hbl).cons x

/-! ## Dropping repeats -/

section Dropping

variable [DecidableEq κ] (key : α → Option κ)

/-- The list without the elements whose key was seen. Those without a key all stay. -/
def dropSeen : List κ → List α → List α
  | _, [] => []
  | seen, a :: l =>
    match key a with
    | none => a :: dropSeen seen l
    | some k => if k ∈ seen then dropSeen seen l else a :: dropSeen (k :: seen) l

theorem dropSeen_none {a : α} (h : key a = none) (seen : List κ) (l : List α) :
    dropSeen key seen (a :: l) = a :: dropSeen key seen l := by
  rw [dropSeen, h]

theorem dropSeen_seen {a : α} {k : κ} (h : key a = some k) {seen : List κ} (hk : k ∈ seen)
    (l : List α) : dropSeen key seen (a :: l) = dropSeen key seen l := by
  rw [dropSeen, h]
  exact if_pos hk

theorem dropSeen_new {a : α} {k : κ} (h : key a = some k) {seen : List κ} (hk : k ∉ seen)
    (l : List α) : dropSeen key seen (a :: l) = a :: dropSeen key (k :: seen) l := by
  rw [dropSeen, h]
  exact if_neg hk

theorem dropSeen_sublist (seen : List κ) (l : List α) : (dropSeen key seen l).Sublist l := by
  fun_induction dropSeen key seen l with
  | case1 => exact List.Sublist.slnil
  | case2 seen a l _ ih => exact ih.cons_cons a
  | case3 seen a l k _ _ ih => exact ih.cons a
  | case4 seen a l k _ _ ih => exact ih.cons_cons a

/-- What has no key stays. -/
theorem mem_dropSeen_of_none {a : α} (h : key a = none) (seen : List κ) {l : List α}
    (ha : a ∈ l) : a ∈ dropSeen key seen l := by
  fun_induction dropSeen key seen l with
  | case1 => cases ha
  | case2 seen x l _ ih =>
    rcases List.mem_cons.mp ha with rfl | hal
    · exact List.mem_cons_self
    · exact List.mem_cons_of_mem x (ih hal)
  | case3 seen x l k hx _ ih =>
    rcases List.mem_cons.mp ha with rfl | hal
    · rw [h] at hx
      cases hx
    · exact ih hal
  | case4 seen x l k hx _ ih =>
    rcases List.mem_cons.mp ha with rfl | hal
    · exact List.mem_cons_self
    · exact List.mem_cons_of_mem x (ih hal)

/-- What was seen before is not there. -/
theorem not_mem_of_seen {a : α} {k : κ} (h : key a = some k) {seen : List κ} (hk : k ∈ seen)
    (l : List α) : a ∉ dropSeen key seen l := by
  fun_induction dropSeen key seen l with
  | case1 => exact List.not_mem_nil
  | case2 seen x l hx ih =>
    rw [List.mem_cons, not_or]
    refine ⟨?_, ih hk⟩
    rintro rfl
    rw [h] at hx
    cases hx
  | case3 seen x l k' _ _ ih => exact ih hk
  | case4 seen x l k' hx hnew ih =>
    rw [List.mem_cons, not_or]
    refine ⟨?_, ih (List.mem_cons_of_mem k' hk)⟩
    rintro rfl
    rw [h, Option.some.injEq] at hx
    exact hnew (hx ▸ hk)

/-- No key is there twice. -/
theorem dropSeen_pairwise (seen : List κ) (l : List α) :
    (dropSeen key seen l).Pairwise fun a b => ∀ k, key a = some k → key b ≠ some k := by
  fun_induction dropSeen key seen l with
  | case1 => exact List.Pairwise.nil
  | case2 seen a l ha ih =>
    refine List.pairwise_cons.mpr ⟨fun b _ k hk => ?_, ih⟩
    rw [ha] at hk
    cases hk
  | case3 seen a l k _ _ ih => exact ih
  | case4 seen a l k ha _ ih =>
    refine List.pairwise_cons.mpr ⟨fun b hb k' hk' hbk => ?_, ih⟩
    rw [ha, Option.some.injEq] at hk'
    exact not_mem_of_seen key hbk (hk' ▸ List.mem_cons_self) l hb

/-- Of each key the first copy stays, in front of all others. -/
theorem exists_first {a : α} {k : κ} (h : key a = some k) {seen : List κ} (hk : k ∉ seen)
    {l : List α} (ha : a ∈ l) :
    ∃ b ∈ dropSeen key seen l, key b = some k ∧ (b = a ∨ [b, a].Sublist l) := by
  fun_induction dropSeen key seen l with
  | case1 => cases ha
  | case2 seen x l hx ih =>
    rcases List.mem_cons.mp ha with rfl | hal
    · rw [h] at hx
      cases hx
    · obtain ⟨b, hb, hbk, hbefore⟩ := ih hk hal
      exact ⟨b, List.mem_cons_of_mem x hb, hbk, hbefore.imp_right (·.cons x)⟩
  | case3 seen x l k' hx hseen ih =>
    rcases List.mem_cons.mp ha with rfl | hal
    · rw [h, Option.some.injEq] at hx
      exact absurd (hx ▸ hseen) hk
    · obtain ⟨b, hb, hbk, hbefore⟩ := ih hk hal
      exact ⟨b, hb, hbk, hbefore.imp_right (·.cons x)⟩
  | case4 seen x l k' hx hnew ih =>
    rcases List.mem_cons.mp ha with rfl | hal
    · exact ⟨a, List.mem_cons_self, h, .inl rfl⟩
    -- Either the first of the list is the copy, or its key is another and changes nothing.
    by_cases heq : k = k'
    · exact ⟨x, List.mem_cons_self, heq ▸ hx,
        .inr ((List.singleton_sublist.mpr hal).cons_cons x)⟩
    · obtain ⟨b, hb, hbk, hbefore⟩ := ih (by simp [heq, hk]) hal
      exact ⟨b, List.mem_cons_of_mem x hb, hbk, hbefore.imp_right (·.cons x)⟩

/-- A list without repeats stays as it is. -/
theorem dropSeen_eq_self {seen : List κ} {l : List α}
    (hnew : ∀ a ∈ l, ∀ k, key a = some k → k ∉ seen)
    (honce : l.Pairwise fun a b => ∀ k, key a = some k → key b ≠ some k) :
    dropSeen key seen l = l := by
  induction l generalizing seen with
  | nil => rfl
  | cons a l ih =>
    obtain ⟨ha, hl⟩ := List.pairwise_cons.mp honce
    have hlater : ∀ b ∈ l, ∀ k, key b = some k → k ∉ seen :=
      fun b hb => hnew b (List.mem_cons_of_mem a hb)
    cases hkey : key a with
    | none => rw [dropSeen_none key hkey, ih hlater hl]
    | some k =>
      rw [dropSeen_new key hkey (hnew a List.mem_cons_self k hkey), ih ?_ hl]
      intro b hb k' hbk
      rw [List.mem_cons, not_or]
      exact ⟨fun heq => ha b hb k hkey (heq ▸ hbk), hlater b hb k' hbk⟩

end Dropping

/-! ## Places -/

section Places

variable {le : α → α → Bool}

/-- One element with its place comes before another: it is smaller, or equal and from an earlier
place. -/
def Earlier (le : α → α → Bool) (a b : α × ℕ) : Prop :=
  le a.1 b.1 = true ∧ (le b.1 a.1 = true → a.2 ≤ b.2)

theorem earlier_of_zipIdxLE {a b : α × ℕ} (h : List.zipIdxLE le a b = true) : Earlier le a b := by
  unfold List.zipIdxLE at h
  by_cases hle : le a.1 b.1 = true
  · rw [if_pos hle] at h
    refine ⟨hle, fun hback => ?_⟩
    rw [if_pos hback] at h
    exact of_decide_eq_true h
  · rw [if_neg hle] at h
    cases h

/-- A stable sort, with the place in the old list at which each element was. -/
theorem exists_places (trans : ∀ a b c, le a b = true → le b c = true → le a c = true)
    (total : ∀ a b, (le a b || le b a) = true) (l : List α) :
    ∃ placed : List (α × ℕ), placed.map Prod.fst = l.mergeSort le ∧ placed.Perm l.zipIdx ∧
      placed.Pairwise (Earlier le) :=
  ⟨l.zipIdx.mergeSort (List.zipIdxLE le), List.mergeSort_zipIdx, List.mergeSort_perm _ _,
    (List.pairwise_mergeSort (List.zipIdxLE_trans trans) (List.zipIdxLE_total total) _).imp
      earlier_of_zipIdxLE⟩

/-- A list with its places has no place twice. -/
theorem nodup_places {placed : List (α × ℕ)} {l : List α} (h : placed.Perm l.zipIdx) :
    (placed.map Prod.snd).Nodup := by
  refine (h.map Prod.snd).nodup_iff.mpr ?_
  rw [List.zipIdx_map_snd]
  exact List.nodup_range'

end Places

end FirstCopies
