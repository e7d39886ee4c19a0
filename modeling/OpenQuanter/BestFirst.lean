/-
# Taking from a list best first

A list of keys with a size each, the best in front.  `left` is what stays after
some of it has been taken from the front, `worth` what the taken part is worth
when a unit at a key has a price.  Taking in two pieces is taking once
(`left_add`, `worth_add`), and when the keys stand in a strict order both are
sums over the keys that name the list no more (`worth_eq_sum`).

Nothing here names the program under verification.
-/
import Mathlib

namespace BestFirst

variable {κ : Type*}

/-- How much there is. -/
def total (l : List (κ × ℕ)) : ℕ := (l.map Prod.snd).sum

/-- What is left when `want` has been taken from the front. -/
def left : ℕ → List (κ × ℕ) → List (κ × ℕ)
  | _, [] => []
  | want, e :: rest => if want < e.2 then (e.1, e.2 - want) :: rest else left (want - e.2) rest

/-- What the first `want` are worth, a unit at `k` being worth `price k`. -/
def worth (price : κ → ℤ) : ℕ → List (κ × ℕ) → ℤ
  | _, [] => 0
  | want, e :: rest => price e.1 * (min want e.2 : ℕ) + worth price (want - e.2) rest

@[simp] theorem total_nil : total ([] : List (κ × ℕ)) = 0 := rfl

@[simp] theorem total_cons (e : κ × ℕ) (rest : List (κ × ℕ)) :
    total (e :: rest) = e.2 + total rest := by
  simp [total]

@[simp] theorem left_nil (want : ℕ) : left want ([] : List (κ × ℕ)) = [] := rfl

theorem left_cons_lt {want : ℕ} {e : κ × ℕ} (h : want < e.2) (rest : List (κ × ℕ)) :
    left want (e :: rest) = (e.1, e.2 - want) :: rest := if_pos h

theorem left_cons_le {want : ℕ} {e : κ × ℕ} (h : e.2 ≤ want) (rest : List (κ × ℕ)) :
    left want (e :: rest) = left (want - e.2) rest := if_neg (Nat.not_lt.mpr h)

/-- Taking nothing leaves everything, where no size is zero. -/
theorem left_zero {l : List (κ × ℕ)} (hpos : ∀ e ∈ l, 0 < e.2) : left 0 l = l := by
  cases l with
  | nil => rfl
  | cons e rest => rw [left_cons_lt (hpos e List.mem_cons_self), Nat.sub_zero]

/-- Whoever wants as much as there is leaves nothing. -/
theorem left_of_total_le {want : ℕ} {l : List (κ × ℕ)} (h : total l ≤ want) : left want l = [] := by
  induction l generalizing want with
  | nil => rfl
  | cons e rest ih =>
    rw [total_cons] at h
    rw [left_cons_le (by omega), ih (by omega)]

@[simp] theorem worth_nil (price : κ → ℤ) (want : ℕ) : worth price want [] = 0 := rfl

theorem worth_cons (price : κ → ℤ) (want : ℕ) (e : κ × ℕ) (rest : List (κ × ℕ)) :
    worth price want (e :: rest)
      = price e.1 * (min want e.2 : ℕ) + worth price (want - e.2) rest := rfl

@[simp] theorem worth_zero (price : κ → ℤ) (l : List (κ × ℕ)) : worth price 0 l = 0 := by
  induction l with
  | nil => rfl
  | cons e rest ih =>
    rw [worth_cons, Nat.zero_sub, ih, Nat.zero_min, Nat.cast_zero, mul_zero, add_zero]

/-! ## In pieces -/

/-- **What two pieces leave is what the whole leaves.** -/
theorem left_add (a b : ℕ) (l : List (κ × ℕ)) : left (a + b) l = left b (left a l) := by
  induction l generalizing a with
  | nil => rfl
  | cons e rest ih =>
    rcases Nat.lt_or_ge a e.2 with ha | ha
    · rw [left_cons_lt ha]
      rcases Nat.lt_or_ge (a + b) e.2 with hab | hab
      · rw [left_cons_lt hab, left_cons_lt (by simp only; omega), Nat.sub_sub]
      · rw [left_cons_le hab, left_cons_le (by simp only; omega)]
        congr 1
        omega
    · rw [left_cons_le ha, left_cons_le (by omega), ← ih]
      congr 1
      omega

/-- **What two pieces are worth is what the whole is worth.** -/
theorem worth_add (price : κ → ℤ) (a b : ℕ) (l : List (κ × ℕ)) :
    worth price (a + b) l = worth price a l + worth price b (left a l) := by
  induction l generalizing a with
  | nil => rfl
  | cons e rest ih =>
    rcases Nat.lt_or_ge a e.2 with ha | ha
    · have hsplit : min (a + b) e.2 = min a e.2 + min b (e.2 - a) := by omega
      have hnone : a - e.2 = 0 := by omega
      have hrest : a + b - e.2 = b - (e.2 - a) := by omega
      rw [left_cons_lt ha, worth_cons, worth_cons, worth_cons, hsplit, hnone, hrest, worth_zero]
      push_cast
      ring
    · have hfirst : min (a + b) e.2 = min a e.2 := by omega
      have hrest : a + b - e.2 = a - e.2 + b := by omega
      rw [left_cons_le ha, worth_cons, worth_cons, hfirst, hrest, ih, add_assoc]

/-- Taken and left together are what was there. -/
theorem total_left (want : ℕ) (l : List (κ × ℕ)) :
    min want (total l) + total (left want l) = total l := by
  induction l generalizing want with
  | nil => simp
  | cons e rest ih =>
    rcases Nat.lt_or_ge want e.2 with h | h
    · rw [left_cons_lt h, total_cons, total_cons]
      simp only
      omega
    · have hrec := ih (want - e.2)
      rw [left_cons_le h, total_cons]
      omega

theorem pos_left {l : List (κ × ℕ)} (hpos : ∀ e ∈ l, 0 < e.2) (want : ℕ) :
    ∀ e ∈ left want l, 0 < e.2 := by
  induction l generalizing want with
  | nil => exact hpos
  | cons e rest ih =>
    obtain ⟨-, hrest⟩ := List.forall_mem_cons.mp hpos
    rcases Nat.lt_or_ge want e.2 with h | h
    · rw [left_cons_lt h]
      exact List.forall_mem_cons.mpr ⟨Nat.sub_pos_of_lt h, hrest⟩
    · rw [left_cons_le h]
      exact ih hrest _

/-- Between the lowest price and the highest. -/
theorem worth_bounds {price : κ → ℤ} {lo hi : ℤ} {l : List (κ × ℕ)}
    (h : ∀ e ∈ l, lo ≤ price e.1 ∧ price e.1 ≤ hi) (want : ℕ) (hwant : want ≤ total l) :
    lo * want ≤ worth price want l ∧ worth price want l ≤ hi * want := by
  induction l generalizing want with
  | nil =>
    obtain rfl : want = 0 := Nat.le_zero.mp hwant
    simp
  | cons e rest ih =>
    obtain ⟨⟨hlo, hhi⟩, hrest⟩ := List.forall_mem_cons.mp h
    rw [total_cons] at hwant
    obtain ⟨hbelow, habove⟩ := ih hrest (want - e.2) (by omega)
    have hsplit : (want : ℤ) = (min want e.2 : ℕ) + (want - e.2 : ℕ) := by omega
    have hlow := mul_le_mul_of_nonneg_right hlo (Int.natCast_nonneg (min want e.2))
    have hhigh := mul_le_mul_of_nonneg_right hhi (Int.natCast_nonneg (min want e.2))
    rw [worth_cons, hsplit, mul_add, mul_add]
    constructor
    · exact add_le_add hlow hbelow
    · exact add_le_add hhigh habove

/-! ## In terms of the keys -/

section Keys

variable [DecidableEq κ] {ahead : κ → κ → Prop} [DecidableRel ahead]

/-- The keys of a list. -/
def keys (l : List (κ × ℕ)) : Finset κ := (l.map Prod.fst).toFinset

/-- How much of `size k` goes when `want` is taken from all keys, those ahead of `k` first. -/
def part (ahead : κ → κ → Prop) [DecidableRel ahead] (keys : Finset κ) (size : κ → ℕ) (want : ℕ)
    (k : κ) : ℕ :=
  min want ((∑ k' ∈ keys with ahead k' k, size k') + size k) - ∑ k' ∈ keys with ahead k' k, size k'

theorem total_eq_sum (size : κ → ℕ) {l : List (κ × ℕ)} (hnodup : (l.map Prod.fst).Nodup)
    (hsize : ∀ e ∈ l, size e.1 = e.2) : total l = ∑ k ∈ keys l, size k := by
  rw [keys, List.sum_toFinset size hnodup, List.map_map, total]
  congr 1
  exact List.map_congr_left fun e he => (hsize e he).symm

/-- **The worth of the first `want`, key by key.** -/
theorem worth_eq_sum {size : κ → ℕ} (hasymm : ∀ a b, ahead a b → ¬ ahead b a) (price : κ → ℤ)
    {l : List (κ × ℕ)} (hl : l.Pairwise (fun a b => ahead a.1 b.1))
    (hsize : ∀ e ∈ l, size e.1 = e.2) (want : ℕ) :
    worth price want l = ∑ k ∈ keys l, price k * (part ahead (keys l) size want k : ℕ) := by
  induction l generalizing want with
  | nil => rfl
  | cons e rest ih =>
    obtain ⟨hahead, hrest⟩ := List.pairwise_cons.mp hl
    obtain ⟨hhead, hsizes⟩ := List.forall_mem_cons.mp hsize
    have hkeys : keys (e :: rest) = insert e.1 (keys rest) := by
      rw [keys, keys, List.map_cons, List.toFinset_cons]
    have hbehind : ∀ k ∈ keys rest, ahead e.1 k := by
      intro k hk
      obtain ⟨e', he', rfl⟩ := List.mem_map.mp (List.mem_toFinset.mp hk)
      exact hahead e' he'
    have hself : ¬ ahead e.1 e.1 := fun h => hasymm _ _ h h
    have hnot : e.1 ∉ keys rest := fun hk => hself (hbehind _ hk)
    -- nothing stands ahead of the head, and the head stands ahead of everything else
    have hfirst : part ahead (keys (e :: rest)) size want e.1 = min want e.2 := by
      have hnone : (keys (e :: rest)).filter (ahead · e.1) = ∅ := by
        rw [hkeys, Finset.filter_insert, if_neg hself, Finset.filter_eq_empty_iff]
        exact fun k hk => hasymm _ _ (hbehind k hk)
      rw [part, hnone, Finset.sum_empty, hhead, Nat.zero_add, Nat.sub_zero]
    have hothers : ∀ k ∈ keys rest,
        part ahead (keys (e :: rest)) size want k = part ahead (keys rest) size (want - e.2) k := by
      intro k hk
      have hmem : e.1 ∉ (keys rest).filter (ahead · k) := fun h => hnot (Finset.mem_filter.mp h).1
      rw [part, part, hkeys, Finset.filter_insert, if_pos (hbehind k hk),
        Finset.sum_insert hmem, hhead]
      omega
    rw [worth_cons, hkeys, Finset.sum_insert hnot, ← hkeys, hfirst, ih hrest hsizes]
    congr 1
    exact Finset.sum_congr rfl fun k hk => by rw [hothers k hk]

end Keys

end BestFirst
