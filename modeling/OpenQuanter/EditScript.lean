/-
# Edit scripts

How one list became another, in order: what was kept, what was deleted, what was inserted and
what was replaced.

* A script accounts for each element of both lists once (`Accounts`); what was deleted and what
  was inserted differ by as much as the lengths (`Accounts.deleted_sub_inserted`).
* Two lists agree in their common prefix and no further (`forall₂_take_commonPrefix`,
  `not_same_at_commonPrefix`).

Nothing here names the program under verification.
-/
import Mathlib

/-- One step of a script, from the left list to the right one. -/
inductive Edit (α : Type*) where
  | kept (a b : α)
  | deleted (a : α)
  | inserted (b : α)
  | replaced (a b : α)

namespace Edit

variable {α : Type*}

/-- What a step takes from the left list. -/
def left : Edit α → List α
  | kept a _ => [a]
  | deleted a => [a]
  | inserted _ => []
  | replaced a _ => [a]

/-- What a step takes from the right list. -/
def right : Edit α → List α
  | kept _ b => [b]
  | deleted _ => []
  | inserted b => [b]
  | replaced _ b => [b]

def isDeleted : Edit α → Bool
  | deleted _ => true
  | _ => false

def isInserted : Edit α → Bool
  | inserted _ => true
  | _ => false

/-- Whether a step changes anything. -/
def changed : Edit α → Bool
  | kept _ _ => false
  | _ => true

theorem filter_changed_deleted (as : List α) :
    (as.map (deleted : α → Edit α)).filter changed = as.map deleted := by
  rw [List.filter_eq_self]
  intro e he
  obtain ⟨a, -, rfl⟩ := List.mem_map.mp he
  rfl

theorem filter_changed_inserted (bs : List α) :
    (bs.map (inserted : α → Edit α)).filter changed = bs.map inserted := by
  rw [List.filter_eq_self]
  intro e he
  obtain ⟨b, -, rfl⟩ := List.mem_map.mp he
  rfl

/-- What is counted are changes. -/
theorem countP_filter_changed (script : List (Edit α)) :
    (script.filter changed).countP isDeleted = script.countP isDeleted ∧
      (script.filter changed).countP isInserted = script.countP isInserted := by
  constructor
  · rw [List.countP_filter]
    exact List.countP_congr fun e _ => by cases e <;> simp [isDeleted, changed]
  · rw [List.countP_filter]
    exact List.countP_congr fun e _ => by cases e <;> simp [isInserted, changed]

/-- A script takes two lists apart, and keeps only what is the same. -/
structure Accounts (same : α → α → Prop) (script : List (Edit α)) (xs ys : List α) : Prop where
  left : script.flatMap left = xs
  right : script.flatMap right = ys
  kept : ∀ a b, kept a b ∈ script → same a b

namespace Accounts

variable {same : α → α → Prop} {script : List (Edit α)} {xs ys : List α}

theorem nil : Accounts same [] [] [] := ⟨rfl, rfl, fun _ _ h => absurd h List.not_mem_nil⟩

theorem cons_kept {a b : α} (hab : same a b) (h : Accounts same script xs ys) :
    Accounts same (.kept a b :: script) (a :: xs) (b :: ys) := by
  refine ⟨by rw [List.flatMap_cons, h.left]; rfl, by rw [List.flatMap_cons, h.right]; rfl, ?_⟩
  intro c d hmem
  rcases List.mem_cons.mp hmem with heq | hmem
  · injection heq with hc hd
    rw [hc, hd]
    exact hab
  · exact h.kept c d hmem

theorem cons_replaced (a b : α) (h : Accounts same script xs ys) :
    Accounts same (.replaced a b :: script) (a :: xs) (b :: ys) := by
  refine ⟨by rw [List.flatMap_cons, h.left]; rfl, by rw [List.flatMap_cons, h.right]; rfl, ?_⟩
  intro c d hmem
  rcases List.mem_cons.mp hmem with heq | hmem
  · cases heq
  · exact h.kept c d hmem

theorem append_deleted (as : List α) (h : Accounts same script xs ys) :
    Accounts same (as.map .deleted ++ script) (as ++ xs) ys := by
  induction as with
  | nil => exact h
  | cons a as ih =>
    refine ⟨?_, ?_, fun c d hmem => ?_⟩
    · rw [List.map_cons, List.cons_append, List.flatMap_cons, ih.left]
      rfl
    · rw [List.map_cons, List.cons_append, List.flatMap_cons, ih.right]
      rfl
    · rcases List.mem_cons.mp hmem with heq | hmem
      · cases heq
      · exact ih.kept c d hmem

theorem append_inserted (bs : List α) (h : Accounts same script xs ys) :
    Accounts same (bs.map .inserted ++ script) xs (bs ++ ys) := by
  induction bs with
  | nil => exact h
  | cons b bs ih =>
    refine ⟨?_, ?_, fun c d hmem => ?_⟩
    · rw [List.map_cons, List.cons_append, List.flatMap_cons, ih.left]
      rfl
    · rw [List.map_cons, List.cons_append, List.flatMap_cons, ih.right]
      rfl
    · rcases List.mem_cons.mp hmem with heq | hmem
      · cases heq
      · exact ih.kept c d hmem

/-- Deletions less insertions are what the left list has more than the right one. -/
theorem deleted_add_length (h : Accounts same script xs ys) :
    script.countP isDeleted + ys.length = script.countP isInserted + xs.length := by
  have hall : ∀ edits : List (Edit α),
      edits.countP isDeleted + (edits.flatMap Edit.right).length =
        edits.countP isInserted + (edits.flatMap Edit.left).length := by
    intro edits
    induction edits with
    | nil => rfl
    | cons e edits ih =>
      have hstep : (if isDeleted e then 1 else 0) + e.right.length =
          (if isInserted e then 1 else 0) + e.left.length := by
        cases e <;> rfl
      rw [List.countP_cons, List.countP_cons, List.flatMap_cons, List.flatMap_cons,
        List.length_append, List.length_append]
      omega
  rw [← h.left, ← h.right]
  exact hall script

/-- A script that changes nothing shows that the lists agree. -/
theorem forall₂_of_unchanged (h : Accounts same script xs ys)
    (hnone : script.filter changed = []) : List.Forall₂ same xs ys := by
  have hkept : ∀ e ∈ script, ∃ a b, e = .kept a b := by
    intro e he
    have hunchanged := List.filter_eq_nil_iff.mp hnone e he
    cases e with
    | kept a b => exact ⟨a, b, rfl⟩
    | deleted a => exact absurd rfl hunchanged
    | inserted b => exact absurd rfl hunchanged
    | replaced a b => exact absurd rfl hunchanged
  clear hnone
  obtain ⟨hleft, hright, hsame⟩ := h
  subst hleft hright
  induction script with
  | nil => exact .nil
  | cons e script ih =>
    obtain ⟨a, b, rfl⟩ := hkept e List.mem_cons_self
    refine .cons (hsame a b List.mem_cons_self) (ih (fun e he => ?_) fun c d hmem => ?_)
    · exact hkept e (List.mem_cons_of_mem _ he)
    · exact hsame c d (List.mem_cons_of_mem _ hmem)

end Accounts

end Edit

/-! ## Common prefixes -/

section CommonPrefix

variable {α : Type*} (same : α → α → Bool)

/-- How far two lists agree. -/
def commonPrefix : List α → List α → ℕ
  | x :: xs, y :: ys => if same x y then commonPrefix xs ys + 1 else 0
  | _, _ => 0

theorem commonPrefix_le (xs ys : List α) :
    commonPrefix same xs ys ≤ xs.length ∧ commonPrefix same xs ys ≤ ys.length := by
  induction xs generalizing ys with
  | nil => simp [commonPrefix]
  | cons x xs ih =>
    cases ys with
    | nil => simp [commonPrefix]
    | cons y ys =>
      unfold commonPrefix
      have := ih ys
      split
      · simp
        omega
      · simp

/-- Up to there the lists agree. -/
theorem forall₂_take_commonPrefix (xs ys : List α) :
    List.Forall₂ (fun x y => same x y = true) (xs.take (commonPrefix same xs ys))
      (ys.take (commonPrefix same xs ys)) := by
  induction xs generalizing ys with
  | nil => simp [commonPrefix]
  | cons x xs ih =>
    cases ys with
    | nil => simp [commonPrefix]
    | cons y ys =>
      unfold commonPrefix
      split
      · rename_i hxy
        exact .cons hxy (ih ys)
      · simp

/-- There they do not. -/
theorem not_same_at_commonPrefix {xs ys : List α} {x y : α}
    (hx : xs[commonPrefix same xs ys]? = some x) (hy : ys[commonPrefix same xs ys]? = some y) :
    same x y = false := by
  induction xs generalizing ys with
  | nil => simp at hx
  | cons a xs ih =>
    cases ys with
    | nil => simp at hy
    | cons b ys =>
      unfold commonPrefix at hx hy
      by_cases hab : same a b = true
      · rw [if_pos hab] at hx hy
        exact ih hx hy
      · rw [if_neg hab] at hx hy
        rw [← Option.some.inj hx, ← Option.some.inj hy]
        exact Bool.eq_false_iff.mpr hab

/-- Lists agree throughout when they agree up to the end of both. -/
theorem commonPrefix_eq_iff (xs ys : List α) :
    commonPrefix same xs ys = xs.length ∧ commonPrefix same xs ys = ys.length ↔
      List.Forall₂ (fun x y => same x y = true) xs ys := by
  constructor
  · rintro ⟨hx, hy⟩
    have := forall₂_take_commonPrefix same xs ys
    rwa [List.take_of_length_le hx.ge, List.take_of_length_le hy.ge] at this
  · intro h
    induction h with
    | nil => exact ⟨rfl, rfl⟩
    | cons hxy _ ih =>
      unfold commonPrefix
      rw [if_pos hxy, List.length_cons, List.length_cons]
      omega

end CommonPrefix
