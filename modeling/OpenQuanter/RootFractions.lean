/-
# Fractions of roots of primes

The leading bits of the fractional parts of roots of the first primes, as numbers, and how a
table of them is checked with integers alone.

Nothing here names the program under verification.
-/
import Mathlib

/-- The first `w` bits of the fractional part of the `n`-th root of `p`. -/
noncomputable def fracRoot (n w p : ℕ) : ℕ :=
  ⌊Int.fract ((p : ℝ) ^ (1 / (n : ℝ))) * 2 ^ w⌋₊

/-- The root lies between two numbers of `w` binary places. -/
theorem fracRoot_eq {n w p q v : ℕ} (hn : n ≠ 0) (hv : v < 2 ^ w)
    (hlow : (q * 2 ^ w + v) ^ n ≤ p * (2 ^ w) ^ n)
    (hhigh : p * (2 ^ w) ^ n < (q * 2 ^ w + v + 1) ^ n) : fracRoot n w p = v := by
  set r : ℝ := (p : ℝ) ^ (1 / (n : ℝ)) with hr
  have hr0 : 0 ≤ r := Real.rpow_nonneg (Nat.cast_nonneg p) _
  have hscale : (0 : ℝ) < 2 ^ w := by positivity
  have hpow : (r * 2 ^ w) ^ n = p * (2 ^ w) ^ n := by
    rw [mul_pow, hr, one_div, Real.rpow_inv_natCast_pow (Nat.cast_nonneg p) hn]
  have hlow' : (q * 2 ^ w + v : ℝ) ≤ r * 2 ^ w := by
    refine le_of_pow_le_pow_left₀ hn (by positivity) ?_
    rw [hpow]
    exact_mod_cast hlow
  have hhigh' : r * 2 ^ w < q * 2 ^ w + v + 1 := by
    refine lt_of_pow_lt_pow_left₀ n (by positivity) ?_
    rw [hpow]
    exact_mod_cast hhigh
  have hone : (v : ℝ) + 1 ≤ 2 ^ w := by exact_mod_cast hv
  have hfloor : ⌊r⌋ = (q : ℤ) := by
    rw [Int.floor_eq_iff]
    constructor
    · have : (q : ℝ) * 2 ^ w ≤ r * 2 ^ w := by linarith [Nat.cast_nonneg (α := ℝ) v]
      exact_mod_cast le_of_mul_le_mul_right this hscale
    · have : r * 2 ^ w < ((q : ℝ) + 1) * 2 ^ w := by linarith
      exact_mod_cast lt_of_mul_lt_mul_right this hscale.le
  have hfract : Int.fract r = r - q := by
    rw [Int.fract, hfloor, Int.cast_natCast]
  rw [fracRoot, hfract, Nat.floor_eq_iff (by linarith)]
  constructor <;> linarith

/-- The check of one entry of a table. -/
def isFracRoot (n w p v : ℕ) : Bool :=
  decide (v < 2 ^ w) && (List.range (p + 1)).any fun q =>
    decide ((q * 2 ^ w + v) ^ n ≤ p * (2 ^ w) ^ n) &&
      decide (p * (2 ^ w) ^ n < (q * 2 ^ w + v + 1) ^ n)

theorem fracRoot_of_isFracRoot {n w p v : ℕ} (hn : n ≠ 0) (h : isFracRoot n w p v = true) :
    fracRoot n w p = v := by
  obtain ⟨hv, hany⟩ := Bool.and_eq_true_iff.mp h
  obtain ⟨q, -, hq⟩ := List.any_eq_true.mp hany
  obtain ⟨hlow, hhigh⟩ := Bool.and_eq_true_iff.mp hq
  exact fracRoot_eq hn (of_decide_eq_true hv) (of_decide_eq_true hlow) (of_decide_eq_true hhigh)

/-! ## The first primes -/

theorem length_filter_range (p : ℕ → Prop) [DecidablePred p] (n : ℕ) :
    ((List.range n).filter p).length = Nat.count p n := by
  induction n with
  | zero => rw [Nat.count_zero, List.range_zero, List.filter_nil, List.length_nil]
  | succ n ih =>
    rw [List.range_succ, List.filter_append, List.length_append, ih, Nat.count_succ]
    by_cases hp : p n <;> simp [hp]

/-- What is left of a range is listed in order. -/
theorem getElem_filter_range (p : ℕ → Prop) [DecidablePred p] (n t : ℕ)
    (h : t < ((List.range n).filter p).length) : ((List.range n).filter p)[t] = Nat.nth p t := by
  induction n with
  | zero => exact absurd h (Nat.not_lt_zero t)
  | succ n ih =>
    have hsplit : (List.range (n + 1)).filter p =
        (List.range n).filter p ++ if p n then [n] else [] := by
      rw [List.range_succ, List.filter_append]
      by_cases hp : p n <;> simp [hp]
    by_cases ht : t < ((List.range n).filter p).length
    · simp only [hsplit]
      rw [List.getElem_append_left ht, ih ht]
    · -- what is new in the list is its last element
      have hp : p n := by
        by_contra hp
        rw [hsplit, if_neg hp, List.append_nil] at h
        exact ht h
      have hlast : t = ((List.range n).filter p).length := by
        rw [hsplit, if_pos hp, List.length_append, List.length_singleton] at h
        omega
      have hnth : Nat.nth p t = n := by rw [hlast, length_filter_range, Nat.nth_count hp]
      simp only [hsplit, if_pos hp]
      rw [hnth, List.getElem_append_right hlast.ge, List.getElem_singleton]

/-- A prime below 441 has no divisor up to 20. -/
def isSmallPrime (n : ℕ) : Bool :=
  decide (2 ≤ n) &&
    (List.range 21).all fun m => decide (m < 2) || decide (n ≤ m) || decide (n % m ≠ 0)

theorem isSmallPrime_iff {n : ℕ} (hn : n < 441) : isSmallPrime n = true ↔ n.Prime := by
  unfold isSmallPrime
  rw [Bool.and_eq_true_iff, decide_eq_true_iff, List.all_eq_true]
  constructor
  · rintro ⟨htwo, hall⟩
    by_contra hprime
    have hsq : n.minFac ^ 2 ≤ n := Nat.minFac_sq_le_self (by omega) hprime
    have hfac : 2 ≤ n.minFac := (Nat.minFac_prime (by omega)).two_le
    have hsmall : n.minFac < 21 := by
      by_contra hlarge
      have : 21 ^ 2 ≤ n.minFac ^ 2 := Nat.pow_le_pow_left (by omega) 2
      omega
    have hlt : n.minFac < n := by nlinarith
    have hmod : n % n.minFac = 0 := Nat.mod_eq_zero_of_dvd (Nat.minFac_dvd n)
    have := hall n.minFac (List.mem_range.mpr hsmall)
    simp only [Bool.or_eq_true, decide_eq_true_eq] at this
    omega
  · intro hprime
    refine ⟨hprime.two_le, fun m hm => ?_⟩
    by_cases htwo : m < 2
    · simp [htwo]
    · by_cases hle : n ≤ m
      · simp [hle]
      · have hmod : n % m ≠ 0 := by
          intro hzero
          rcases (Nat.dvd_prime hprime).mp (Nat.dvd_of_mod_eq_zero hzero) with h | h <;> omega
        simp [hmod]

/-- The primes below 410. -/
def primes : List ℕ := (List.range 410).filter isSmallPrime

theorem getElem_primes (t : ℕ) (h : t < primes.length) : primes[t] = Nat.nth Nat.Prime t := by
  have hfilter : primes = (List.range 410).filter fun n => decide n.Prime := by
    refine List.filter_congr fun n hn => ?_
    rw [Bool.eq_iff_iff, isSmallPrime_iff (by have := List.mem_range.mp hn; omega),
      decide_eq_true_iff]
  have hlist := getElem_filter_range Nat.Prime 410 t (by rwa [hfilter] at h)
  simpa only [hfilter] using hlist

/-- **A table of roots.**  Its entries are the fractions of the roots of the primes in turn when
each passes the check. -/
theorem getElem_table {n w : ℕ} (hn : n ≠ 0) {table : List ℕ}
    (hlen : table.length ≤ primes.length)
    (h : ((primes.zip table).all fun pv => isFracRoot n w pv.1 pv.2) = true) (t : ℕ)
    (ht : t < table.length) : table[t] = fracRoot n w (Nat.nth Nat.Prime t) := by
  have hmem : (primes[t], table[t]) ∈ primes.zip table := by
    rw [← List.getElem_zip (i := t) (h := by rw [List.length_zip]; omega)]
    exact List.getElem_mem _
  rw [← getElem_primes t (by omega)]
  exact (fracRoot_of_isFracRoot hn (List.all_eq_true.mp h _ hmem)).symm
