/-
# Sliding windows over a log

A log of timed entries, of which a limiter keeps the live ones: those less than a
width old.  An entry that is not live any more is never live again, so what is kept
answers for the log (`live_live`); and a limiter that admits an entry
only while fewer than a limit are live has admitted no more than the limit in any
window of the width (`within_snoc_le`).

Nothing here names the program under verification.
-/
import Mathlib

namespace Window

variable {α β : Type} [AddCommGroup α] [LinearOrder α] [IsOrderedAddMonoid α]

/-- Less than a width old. -/
def Live (width now p : α) : Prop := now - p < width

instance (width now p : α) : Decidable (Live width now p) :=
  inferInstanceAs (Decidable (_ < _))

/-- In the window of a width that ends at a time, its beginning left out. -/
def Within (width t p : α) : Prop := t - width < p ∧ p ≤ t

instance (width t p : α) : Decidable (Within width t p) :=
  inferInstanceAs (Decidable (_ ∧ _))

/-- What is live was live before. -/
theorem Live.anti {width now later p : α} (hle : now ≤ later) (h : Live width later p) :
    Live width now p :=
  lt_of_le_of_lt (sub_le_sub_right hle p) h

/-- An entry of a window that has not ended is live. -/
theorem Within.live {width t now p : α} (h : Within width t p) (hnow : now ≤ t) :
    Live width now p := by
  have hlive : Live width t p := by
    unfold Live
    exact sub_lt_comm.mp h.1
  exact hlive.anti hnow

variable (time : β → α)

/-- The live entries of a log. -/
def live (width now : α) (log : List β) : List β :=
  log.filter fun e => Live width now (time e)

/-- The entries of a log in a window. -/
def within (width t : α) (log : List β) : List β :=
  log.filter fun e => Within width t (time e)

omit [IsOrderedAddMonoid α] in
theorem live_append (width now : α) (log log' : List β) :
    live time width now (log ++ log') = live time width now log ++ live time width now log' :=
  List.filter_append ..

/-- Forgetting what is not live changes no later answer. -/
theorem live_live {width now later : α} (hle : now ≤ later) (log : List β) :
    live time width later (live time width now log) = live time width later log := by
  unfold live
  rw [List.filter_filter]
  apply List.filter_congr
  intro e _
  by_cases h : Live width later (time e)
  · have h' := h.anti hle
    simp [h, h']
  · simp [h]

theorem length_within_le_live (width : α) {t now : α} (hnow : now ≤ t) (log : List β) :
    (within time width t log).length ≤ (live time width now log).length := by
  unfold within live
  rw [← List.countP_eq_length_filter, ← List.countP_eq_length_filter]
  apply List.countP_mono_left
  intro e _ he
  rw [decide_eq_true_eq] at he ⊢
  exact he.live hnow

/-- **An entry admitted while fewer than a limit were live** overfills no window. -/
theorem within_snoc_le {width : α} {log : List β} {limit : Nat}
    (hlog : ∀ t, (within time width t log).length ≤ limit) {e : β}
    (hroom : (live time width (time e) log).length < limit) (t : α) :
    (within time width t (log ++ [e])).length ≤ limit := by
  have hsplit : within time width t (log ++ [e]) =
      within time width t log ++ within time width t [e] := List.filter_append ..
  by_cases he : Within width t (time e)
  · -- the window has not ended, so all it holds was live
    have hold := length_within_le_live time width he.2 log
    have hone : (within time width t [e]).length ≤ 1 := List.length_filter_le _ _
    rw [hsplit, List.length_append]
    omega
  · have hnone : within time width t [e] = [] := by
      unfold within
      rw [List.filter_singleton, decide_eq_false he, cond_false]
    rw [hsplit, hnone, List.append_nil]
    exact hlog t

end Window
