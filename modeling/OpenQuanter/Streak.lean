/-
# Streaks

How many hits there were since the last reset, and counters that follow them.  A
counter that a reset clears is the streak; one that also starts over when it
reaches `k` is the streak modulo `k`, and it starts over once for every `k`.

Nothing here names the program under verification.
-/
import Mathlib

namespace Streak

variable {α : Type} (hit reset : α → Bool)

/-- The hits since the last reset. -/
def streak (history : List α) : Nat :=
  (history.reverse.takeWhile fun e => !reset e).countP hit

/-- What one more event makes of a streak. -/
def next (e : α) (n : Nat) : Nat := if reset e then 0 else n + if hit e then 1 else 0

theorem streak_concat (history : List α) (e : α) :
    streak hit reset (history ++ [e]) = next hit reset e (streak hit reset history) := by
  unfold streak next
  rw [List.reverse_append, List.reverse_singleton, List.singleton_append, List.takeWhile_cons]
  cases reset e with
  | true => rfl
  | false =>
    show List.countP hit (e :: history.reverse.takeWhile fun e => !reset e) = _
    rw [if_neg Bool.false_ne_true, List.countP_cons]

end Streak
