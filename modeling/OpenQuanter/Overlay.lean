/-
# Overlays

Writing a list of key-value pairs over a function, one after the other.  What a
list of writes leaves depends on the function below it only at the keys the list
does not name; so writing it twice is writing it once.

Nothing here names the program under verification.
-/
import Mathlib

variable {κ υ : Type} [DecidableEq κ]

/-- The function with the writes of a list applied in order. -/
def overlay (q : κ → υ) (writes : List (κ × υ)) : κ → υ :=
  writes.foldl (fun q w => Function.update q w.1 w.2) q

@[simp] theorem overlay_nil (q : κ → υ) : overlay q [] = q := rfl

theorem overlay_cons (q : κ → υ) (w : κ × υ) (writes : List (κ × υ)) :
    overlay q (w :: writes) = overlay (Function.update q w.1 w.2) writes := rfl

/-- A key no write names keeps its value. -/
theorem overlay_of_notMem {q : κ → υ} {writes : List (κ × υ)} {k : κ}
    (h : k ∉ writes.map Prod.fst) : overlay q writes k = q k := by
  induction writes generalizing q with
  | nil => rfl
  | cons w rest ih =>
    rw [List.map_cons, List.mem_cons, not_or] at h
    rw [overlay_cons, ih h.2, Function.update_of_ne h.1]

/-- **What is below matters only where nothing is written.** -/
theorem overlay_congr {q q' : κ → υ} {writes : List (κ × υ)}
    (h : ∀ k, k ∉ writes.map Prod.fst → q k = q' k) : overlay q writes = overlay q' writes := by
  induction writes generalizing q q' with
  | nil =>
    funext k
    exact h k (by simp)
  | cons w rest ih =>
    have hbelow : ∀ k, k ∉ rest.map Prod.fst →
        Function.update q w.1 w.2 k = Function.update q' w.1 w.2 k := by
      intro k hk
      by_cases hsame : k = w.1
      · rw [hsame, Function.update_self, Function.update_self]
      · rw [Function.update_of_ne hsame, Function.update_of_ne hsame]
        exact h k (by rw [List.map_cons, List.mem_cons]; exact not_or.mpr ⟨hsame, hk⟩)
    exact ih hbelow

/-- Writing a list twice is writing it once. -/
theorem overlay_overlay (q : κ → υ) (writes : List (κ × υ)) :
    overlay (overlay q writes) writes = overlay q writes :=
  overlay_congr fun _ hk => overlay_of_notMem hk

/-- What holds of every value below and of every value written holds of every value. -/
theorem forall_overlay {p : υ → Prop} {q : κ → υ} {writes : List (κ × υ)} (hq : ∀ k, p (q k))
    (hw : ∀ w ∈ writes, p w.2) (k : κ) : p (overlay q writes k) := by
  induction writes generalizing q with
  | nil => exact hq k
  | cons w rest ih =>
    obtain ⟨hhead, hrest⟩ := List.forall_mem_cons.mp hw
    rw [overlay_cons]
    refine ih ?_ hrest
    intro k'
    by_cases hsame : k' = w.1
    · rw [hsame, Function.update_self]
      exact hhead
    · rw [Function.update_of_ne hsame]
      exact hq k'
