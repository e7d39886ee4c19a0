/-
# Sorted association lists

A map kept as a list of pairs with strictly increasing keys.  Reading and
updating stop at the first key that is not below the one asked for, which is
where a binary search of such a list ends.

Nothing here names the program under verification.
-/
import Mathlib

namespace SortedAssoc

variable {κ ν : Type} [LinearOrder κ]

/-- The value at `key`, if there is one. -/
def find (key : κ) : List (κ × ν) → Option ν
  | [] => none
  | e :: rest => if e.1 < key then find key rest else if e.1 = key then some e.2 else none

/-- Update the value at `key` with `f`, or insert `fresh` at its place. -/
def upsert (key : κ) (f : ν → ν) (fresh : ν) : List (κ × ν) → List (κ × ν)
  | [] => [(key, fresh)]
  | e :: rest =>
    if e.1 < key then e :: upsert key f fresh rest
    else if e.1 = key then (key, f e.2) :: rest
    else (key, fresh) :: e :: rest

theorem mem_upsert {key : κ} {f : ν → ν} {fresh : ν} {l : List (κ × ν)} {e : κ × ν}
    (he : e ∈ upsert key f fresh l) : e.1 = key ∨ e ∈ l := by
  induction l with
  | nil => simp_all [upsert]
  | cons a rest ih =>
    simp only [upsert] at he
    split_ifs at he <;> grind

/-- Updating keeps the keys strictly increasing. -/
theorem pairwise_upsert (key : κ) (f : ν → ν) (fresh : ν) {l : List (κ × ν)}
    (h : l.Pairwise (fun a b => a.1 < b.1)) :
    (upsert key f fresh l).Pairwise (fun a b => a.1 < b.1) := by
  induction l with
  | nil => simp [upsert]
  | cons a rest ih =>
    obtain ⟨ha, hrest⟩ := List.pairwise_cons.mp h
    simp only [upsert]
    split_ifs with hlt heq
    · refine List.pairwise_cons.mpr ⟨fun b hb => ?_, ih hrest⟩
      rcases mem_upsert hb with hkey | hmem
      · rw [hkey]; exact hlt
      · exact ha b hmem
    · refine List.pairwise_cons.mpr ⟨fun b hb => ?_, hrest⟩
      rw [← heq]; exact ha b hb
    · have hkey : key < a.1 := lt_of_le_of_ne (not_lt.mp hlt) (fun h => heq h.symm)
      refine List.pairwise_cons.mpr ⟨fun b hb => ?_, h⟩
      rcases List.mem_cons.mp hb with rfl | hb
      · exact hkey
      · exact hkey.trans (ha b hb)

/-- What is found at the updated key. -/
theorem find_upsert_self (key : κ) (f : ν → ν) (fresh : ν) (l : List (κ × ν)) :
    find key (upsert key f fresh l) = some ((find key l).elim fresh f) := by
  induction l with
  | nil => simp [upsert, find]
  | cons a rest ih =>
    simp only [upsert, find]
    split_ifs with hlt heq <;> simp_all [find]

/-- Another key is found as before. -/
theorem find_upsert_of_ne {key k : κ} (hne : k ≠ key) (f : ν → ν) (fresh : ν) (l : List (κ × ν)) :
    find k (upsert key f fresh l) = find k l := by
  induction l with
  | nil =>
    show (if key < k then none else if key = k then some fresh else none) = none
    rw [if_neg hne.symm, ite_self]
  | cons a rest ih =>
    simp only [upsert]
    split_ifs with hlt heq
    · simp only [find, ih]
    · simp only [find, heq, if_neg hne.symm]
    · have hkey : key < a.1 := lt_of_le_of_ne (not_lt.mp hlt) (fun h => heq h.symm)
      rcases lt_or_gt_of_ne hne with hlow | hhigh
      · have hbefore : ¬a.1 < k := not_lt.mpr (hlow.trans hkey).le
        simp only [find, if_neg (not_lt.mpr hlow.le), if_neg hne.symm, if_neg hbefore,
          if_neg (hlow.trans hkey).ne']
      · simp only [find, if_pos hhigh]

/-- In a sorted list, what is found is what is there. -/
theorem find_eq_some_iff {key : κ} {v : ν} {l : List (κ × ν)}
    (h : l.Pairwise (fun a b => a.1 < b.1)) : find key l = some v ↔ (key, v) ∈ l := by
  induction l with
  | nil => simp [find]
  | cons a rest ih =>
    obtain ⟨ha, hrest⟩ := List.pairwise_cons.mp h
    obtain ⟨k, v'⟩ := a
    simp only [find, List.mem_cons, Prod.mk.injEq]
    split_ifs with hlt heq
    · rw [ih hrest]
      constructor
      · exact Or.inr
      · rintro (⟨rfl, -⟩ | hmem)
        · exact absurd hlt (lt_irrefl _)
        · exact hmem
    · have hnot : (key, v) ∉ rest := fun hmem => absurd (ha _ hmem) (by simp [heq])
      constructor
      · intro hv
        exact Or.inl ⟨heq.symm, (Option.some.inj hv).symm⟩
      · rintro (⟨-, rfl⟩ | hmem)
        · rfl
        · exact absurd hmem hnot
    · have hnot : (key, v) ∉ rest := fun hmem => hlt (ha _ hmem)
      constructor
      · exact fun hv => nomatch hv
      · rintro (⟨rfl, -⟩ | hmem)
        · exact absurd rfl heq
        · exact absurd hmem hnot

/-- In a sorted list, what is not found is not there. -/
theorem find_eq_none_iff {key : κ} {l : List (κ × ν)} (h : l.Pairwise (fun a b => a.1 < b.1)) :
    find key l = none ↔ ∀ e ∈ l, e.1 ≠ key := by
  constructor
  · rintro hnone ⟨k, v⟩ hmem rfl
    rw [(find_eq_some_iff h).mpr hmem] at hnone
    cases hnone
  · intro hfresh
    cases hfind : find key l with
    | none => rfl
    | some v => exact absurd rfl (hfresh _ ((find_eq_some_iff h).mp hfind))

/-- A key whose entry stays is found as before. -/
theorem find_filter {key : κ} {p : κ × ν → Bool} (hp : ∀ v, p (key, v) = true) {l : List (κ × ν)}
    (h : l.Pairwise (fun a b => a.1 < b.1)) : find key (l.filter p) = find key l := by
  refine Option.ext fun v => ?_
  rw [find_eq_some_iff (h.filter _), find_eq_some_iff h, List.mem_filter]
  exact ⟨fun hv => hv.1, fun hv => ⟨hv, hp v⟩⟩

/-- A new key is one entry more. -/
theorem upsert_perm {key : κ} {l : List (κ × ν)} (h : ∀ e ∈ l, e.1 ≠ key) (f : ν → ν)
    (fresh : ν) : (upsert key f fresh l).Perm ((key, fresh) :: l) := by
  induction l with
  | nil => exact List.Perm.refl _
  | cons a rest ih =>
    simp only [upsert, if_neg (h a List.mem_cons_self)]
    split
    · exact ((ih fun e he => h e (List.mem_cons_of_mem _ he)).cons a).trans (List.Perm.swap _ _ _)
    · exact List.Perm.refl _

/-- In a sorted list there is one entry of a key, and the entries of other keys. -/
theorem perm_cons_filter {key : κ} {v : ν} {l : List (κ × ν)}
    (h : l.Pairwise (fun a b => a.1 < b.1)) (hmem : (key, v) ∈ l) :
    l.Perm ((key, v) :: l.filter fun e => e.1 ≠ key) := by
  induction l with
  | nil => exact absurd hmem List.not_mem_nil
  | cons a rest ih =>
    obtain ⟨ha, hrest⟩ := List.pairwise_cons.mp h
    rcases List.mem_cons.mp hmem with rfl | hmem
    · have hall : rest.filter (fun e => decide (e.1 ≠ key)) = rest :=
        List.filter_eq_self.mpr fun e he => decide_eq_true (ha e he).ne'
      rw [List.filter_cons_of_neg (by simp), hall]
    · have hne : a.1 ≠ key := (ha _ hmem).ne
      rw [List.filter_cons_of_pos (by simpa using hne)]
      exact ((ih hrest hmem).cons a).trans (List.Perm.swap _ _ _)

/-- Sorted lists in which the same is found are the same. -/
theorem eq_of_find {l l' : List (κ × ν)} (h : l.Pairwise (fun a b => a.1 < b.1))
    (h' : l'.Pairwise (fun a b => a.1 < b.1)) (hfind : ∀ key, find key l = find key l') :
    l = l' := by
  have hnodup : ∀ {l : List (κ × ν)}, l.Pairwise (fun a b => a.1 < b.1) → l.Nodup := fun h =>
    h.imp fun hlt heq => absurd hlt (by rw [heq]; exact lt_irrefl _)
  have hperm : l.Perm l' := (List.perm_ext_iff_of_nodup (hnodup h) (hnodup h')).mpr fun e => by
    rw [← find_eq_some_iff h, ← find_eq_some_iff h', hfind]
  exact hperm.eq_of_pairwise (fun a b _ _ hab hba => absurd hab (lt_asymm hba)) h h'

/-- Writing again what is there changes nothing; a new key is one entry more. -/
theorem mem_upsert_iff {key : κ} {v : ν} {l : List (κ × ν)}
    (hsame : ∀ v', find key l = some v' → v' = v) (h : l.Pairwise (fun a b => a.1 < b.1))
    {e : κ × ν} : e ∈ upsert key (fun _ => v) v l ↔ e = (key, v) ∨ e ∈ l := by
  induction l with
  | nil => simp [upsert]
  | cons a rest ih =>
    obtain ⟨-, hrest⟩ := List.pairwise_cons.mp h
    simp only [upsert]
    split_ifs with hlt heq
    · have hrec := ih (fun v' hv' => hsame v' (by simpa [find, hlt] using hv')) hrest
      rw [List.mem_cons, hrec, List.mem_cons]
      tauto
    · have hv : a.2 = v := hsame a.2 (by simp [find, heq])
      have ha : a = (key, v) := Prod.ext heq hv
      rw [List.mem_cons, List.mem_cons, ha]
      tauto
    · rw [List.mem_cons]

end SortedAssoc
