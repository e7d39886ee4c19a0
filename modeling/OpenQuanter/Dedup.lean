/-
# Which trades were booked (`oq-live/src/dedup.rs`)

A set of trade ids with a discriminator that forgets ids far below the highest
it has seen, and answers that it has seen them.

What makes it safe to forget is one fact: a pair that is accounted for stays
accounted for, pruned or not (`contains_insert_of_contains`).  So no pair is
answered `new` twice in any run.
-/
import Mathlib

/-- What a trade id and its second component amount to. -/
inductive Seen where
  | new
  | duplicate
  | stale
  deriving DecidableEq, Repr

/-- Pairs of a trade id and a discriminator, bounded by trade id. -/
structure TradeWindow (D : Type) where
  seen : Finset (UInt64 × D)
  highest : UInt64
  width : UInt64
  pruneAt : Nat

namespace TradeWindow

/-- The width outside tests. -/
def window : UInt64 := 50000000

/-- Size below which the set is never pruned. -/
def minPruneAt : Nat := 4096

variable {D : Type}

def withWidth (width : UInt64) : TradeWindow D :=
  { seen := ∅, highest := 0, width := width, pruneAt := minPruneAt }

/-- The lowest trade id still judged (`saturating_sub`). -/
def floor (w : TradeWindow D) : UInt64 :=
  if w.highest < w.width then 0 else w.highest - w.width

/-- Drop what is below the floor once the set is large. -/
def prune (w : TradeWindow D) : TradeWindow D :=
  if w.pruneAt < w.seen.card then
    let kept := w.seen.filter (fun p => w.floor ≤ p.1)
    { w with seen := kept, pruneAt := max (kept.card * 2) minPruneAt }
  else w

@[simp] theorem floor_prune (w : TradeWindow D) : w.prune.floor = w.floor := by
  unfold prune
  split
  · rfl
  · rfl

/-- Pruning removes only what is below the floor. -/
theorem lt_floor_of_pruned (w : TradeWindow D) {p : UInt64 × D} (hmem : p ∈ w.seen)
    (hgone : p ∉ w.prune.seen) :
    p.1 < w.floor := by
  unfold prune at hgone
  split at hgone
  · simpa [hmem] using hgone
  · exact absurd hmem hgone

theorem floor_mono (w : TradeWindow D) {highest : UInt64} (h : w.highest ≤ highest) :
    w.floor ≤ { w with highest := highest }.floor := by
  rw [UInt64.le_iff_toNat_le] at h ⊢
  unfold floor
  dsimp only
  split_ifs with hlow hlow' hlow'
  · exact Nat.le_refl _
  · exact Nat.zero_le _
  · rw [UInt64.lt_iff_toNat_lt] at hlow hlow'
    omega
  · have hle : w.width ≤ w.highest := UInt64.not_lt.mp hlow
    have hle' : w.width ≤ highest := UInt64.not_lt.mp hlow'
    rw [UInt64.toNat_sub_of_le _ _ hle, UInt64.toNat_sub_of_le _ _ hle']
    omega

variable [DecidableEq D]

/-- Whether a pair is accounted for: booked, or too old to tell. -/
def contains (w : TradeWindow D) (trade : UInt64) (d : D) : Bool :=
  trade < w.floor || (trade, d) ∈ w.seen

/-- Record a pair, and say whether it was new. -/
def insert (w : TradeWindow D) (trade : UInt64) (d : D) : Seen × TradeWindow D :=
  if trade < w.floor then (.stale, w)
  else if (trade, d) ∈ w.seen then (.duplicate, w)
  else
    (.new,
      { w with
        seen := Insert.insert (trade, d) w.seen
        highest := max w.highest trade }.prune)

/-! ## One call -/

section Step

variable (w : TradeWindow D) (trade : UInt64) (d : D)

/-- **The floor never decreases.** -/
theorem floor_le_insert : w.floor ≤ (w.insert trade d).2.floor := by
  unfold insert
  split_ifs
  · exact UInt64.le_refl _
  · exact UInt64.le_refl _
  · rw [floor_prune]
    apply w.floor_mono
    show w.highest ≤ if w.highest ≤ trade then trade else w.highest
    split
    · assumption
    · exact UInt64.le_refl _

/-- An answer other than `new` changes nothing. -/
theorem insert_of_ne_new (h : (w.insert trade d).1 ≠ .new) : (w.insert trade d).2 = w := by
  unfold insert at h ⊢
  split_ifs at h ⊢
  · rfl
  · rfl
  · exact absurd rfl h

/-- **`contains` says what `insert` would answer.** -/
theorem contains_iff : w.contains trade d = true ↔ (w.insert trade d).1 ≠ .new := by
  unfold contains insert
  split_ifs with hlow hmem
  · simp [hlow]
  · simp [hmem]
  · simp [hlow, hmem]

/-- What an insert removes is below the floor it leaves. -/
theorem lt_floor_of_forgotten {p : UInt64 × D} (hmem : p ∈ w.seen ∨ p = (trade, d))
    (hgone : p ∉ (w.insert trade d).2.seen) : p.1 < (w.insert trade d).2.floor := by
  unfold insert at hgone ⊢
  split_ifs at hgone ⊢ with hlow hseen
  · rcases hmem with hmem | rfl
    · exact absurd hmem hgone
    · exact hlow
  · rcases hmem with hmem | rfl
    · exact absurd hmem hgone
    · exact absurd hseen hgone
  · rw [floor_prune]
    apply lt_floor_of_pruned _ _ hgone
    rcases hmem with hmem | rfl
    · exact Finset.mem_insert_of_mem hmem
    · exact Finset.mem_insert_self _ _

/-- **What is accounted for stays accounted for.** -/
theorem contains_insert_of_contains {t : UInt64} {e : D} (h : w.contains t e = true) :
    (w.insert trade d).2.contains t e = true := by
  simp only [contains, Bool.or_eq_true, decide_eq_true_eq] at h ⊢
  have hfloor := w.floor_le_insert trade d
  rcases h with hlow | hmem
  · exact Or.inl (UInt64.lt_of_lt_of_le hlow hfloor)
  · by_cases hkept : (t, e) ∈ (w.insert trade d).2.seen
    · exact Or.inr hkept
    · exact Or.inl (w.lt_floor_of_forgotten trade d (Or.inl hmem) hkept)

/-- After a call its pair is accounted for. -/
theorem contains_insert_self : (w.insert trade d).2.contains trade d = true := by
  by_cases hnew : (w.insert trade d).1 = .new
  · simp only [contains, Bool.or_eq_true, decide_eq_true_eq]
    by_cases hkept : (trade, d) ∈ (w.insert trade d).2.seen
    · exact Or.inr hkept
    · exact Or.inl (w.lt_floor_of_forgotten trade d (Or.inr rfl) hkept)
  · rw [w.insert_of_ne_new trade d hnew]
    exact (w.contains_iff trade d).mpr hnew

end Step

/-! ## Any run of calls -/

/-- The pairs a run of calls answers `new`, in order. -/
def booked (w : TradeWindow D) : List (UInt64 × D) → List (UInt64 × D)
  | [] => []
  | (trade, d) :: rest =>
    match w.insert trade d with
    | (.new, next) => (trade, d) :: next.booked rest
    | (_, next) => next.booked rest

/-- What is accounted for is never booked again. -/
theorem notMem_booked {w : TradeWindow D} {t : UInt64} {e : D} (h : w.contains t e = true)
    (calls : List (UInt64 × D)) : (t, e) ∉ w.booked calls := by
  induction calls generalizing w with
  | nil => simp [booked]
  | cons call rest ih =>
    obtain ⟨trade, d⟩ := call
    have hnext := w.contains_insert_of_contains trade d h
    rw [booked]
    split
    next next heq =>
      rw [heq] at hnext
      rw [List.mem_cons, not_or]
      refine ⟨?_, ih hnext⟩
      -- a pair that is accounted for is not answered `new`
      intro hsame
      obtain ⟨rfl, rfl⟩ := Prod.mk.inj hsame
      exact (w.contains_iff t e).mp h (by rw [heq])
    next heq =>
      rw [heq] at hnext
      exact ih hnext

/-- **Exactly-once booking.**  Whatever the width and whatever is inserted, no
pair is answered `new` twice; and of each single call: the floor does not
decrease, what is removed is below it, an answer other than `new` changes
nothing, and `contains` is exactly the pairs that would not be answered `new`. -/
theorem booked_exactly_once (width : UInt64) (calls : List (UInt64 × D)) :
    ((withWidth width).booked calls).Nodup ∧
    ∀ (w : TradeWindow D) (trade : UInt64) (d : D),
      w.floor ≤ (w.insert trade d).2.floor ∧
      (∀ p, p ∈ w.seen ∨ p = (trade, d) → p ∉ (w.insert trade d).2.seen →
        p.1 < (w.insert trade d).2.floor) ∧
      ((w.insert trade d).1 ≠ .new → (w.insert trade d).2 = w) ∧
      (w.contains trade d = true ↔ (w.insert trade d).1 ≠ .new) := by
  refine ⟨?_, ?_⟩
  · generalize (withWidth width : TradeWindow D) = w
    induction calls generalizing w with
    | nil => exact List.nodup_nil
    | cons call rest ih =>
      obtain ⟨trade, d⟩ := call
      have hself := w.contains_insert_self trade d
      rw [booked]
      split
      next next heq =>
        rw [heq] at hself
        exact List.nodup_cons.mpr ⟨notMem_booked hself rest, ih next⟩
      next next _ heq => exact ih next
  · intro w trade d
    exact ⟨w.floor_le_insert trade d, fun p => w.lt_floor_of_forgotten trade d,
      w.insert_of_ne_new trade d, w.contains_iff trade d⟩

end TradeWindow
