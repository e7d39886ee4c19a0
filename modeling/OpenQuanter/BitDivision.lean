/-
# Division of bit strings

A register of `w` bits divides a message by a polynomial over the field of two elements, one
bit at a time, least significant bit first: the bit is added to the low end, the register is
shifted towards it, and the divisor is taken away when a set bit leaves.

* A register that takes `n` bits at once looks the low `n` bits up and shifts the others
  (`shift_iterate_split`).
* Messages that differ within `w` consecutive bits leave different registers (`divide_burst`).
* What is left in the register is the remainder of the polynomials (`toPoly_divide`).

Nothing here names the program under verification.
-/
import Mathlib

namespace BitDivision

variable {w : ℕ} (p : BitVec w)

/-- Shift one bit out, and take the divisor away when it was set. -/
def shift (s : BitVec w) : BitVec w :=
  if s.getLsbD 0 then (s >>> 1) ^^^ p else s >>> 1

/-- One bit of the message. -/
def feed (s : BitVec w) (b : Bool) : BitVec w :=
  shift p (s ^^^ (BitVec.ofBool b).setWidth w)

/-- The register after a message. -/
def divide (s : BitVec w) (bits : List Bool) : BitVec w := bits.foldl (feed p) s

/-- The word whose low bits are these, least significant first. -/
def word (w : ℕ) (bits : List Bool) : BitVec w := (BitVec.ofBoolListLE bits).setWidth w

/-- The bits of a word, least significant first. -/
def bitsOf {n : ℕ} (b : BitVec n) : List Bool := List.ofFn fun i : Fin n => b.getLsbD i

@[simp] theorem divide_nil (s : BitVec w) : divide p s [] = s := rfl

@[simp] theorem divide_cons (s : BitVec w) (b : Bool) (bits : List Bool) :
    divide p s (b :: bits) = divide p (feed p s b) bits := rfl

theorem divide_append (s : BitVec w) (bits more : List Bool) :
    divide p s (bits ++ more) = divide p (divide p s bits) more := List.foldl_append

@[simp] theorem length_bitsOf {n : ℕ} (b : BitVec n) : (bitsOf b).length = n :=
  List.length_ofFn

theorem getLsbD_word (bits : List Bool) (i : ℕ) :
    (word w bits).getLsbD i = (decide (i < w) && bits.getD i false) := by
  simp [word]

theorem word_bitsOf {n : ℕ} (b : BitVec n) : word w (bitsOf b) = b.setWidth w := by
  apply BitVec.eq_of_getLsbD_eq
  intro i hi
  rw [getLsbD_word, BitVec.getLsbD_setWidth, List.getD_eq_getElem?_getD]
  by_cases hn : i < n
  · simp [bitsOf, hn]
  · simp [bitsOf, hn, BitVec.getLsbD_of_ge b i (Nat.not_lt.mp hn)]

theorem bitsOf_injective {n : ℕ} : Function.Injective (bitsOf (n := n)) := by
  intro b c h
  apply BitVec.eq_of_getLsbD_eq
  intro i hi
  have := congrFun (List.ofFn_injective h) ⟨i, hi⟩
  exact this

/-! ## The register is linear -/

theorem shift_xor (s t : BitVec w) : shift p (s ^^^ t) = shift p s ^^^ shift p t := by
  apply BitVec.eq_of_getLsbD_eq
  intro i hi
  unfold shift
  rw [BitVec.getLsbD_xor]
  cases s.getLsbD 0 <;> cases t.getLsbD 0 <;> simp [Bool.xor_comm, Bool.xor_left_comm]

theorem shift_iterate_xor (n : ℕ) (s t : BitVec w) :
    (shift p)^[n] (s ^^^ t) = (shift p)^[n] s ^^^ (shift p)^[n] t := by
  induction n generalizing s t with
  | zero => rfl
  | succ n ih => rw [Function.iterate_succ_apply, shift_xor, ih, ← Function.iterate_succ_apply,
      ← Function.iterate_succ_apply]

/-- As long as no set bit leaves, the register is only shifted. -/
theorem shift_iterate_of_low {n : ℕ} {s : BitVec w} (h : ∀ i < n, s.getLsbD i = false) :
    (shift p)^[n] s = s >>> n := by
  induction n generalizing s with
  | zero => simp
  | succ n ih =>
    have hfirst : shift p s = s >>> 1 := by
      rw [shift, h 0 (Nat.succ_pos n), if_neg Bool.false_ne_true]
    have hrest : ∀ i < n, (s >>> 1).getLsbD i = false := by
      intro i hi
      rw [BitVec.getLsbD_ushiftRight]
      exact h (1 + i) (by omega)
    rw [Function.iterate_succ_apply, hfirst, ih hrest, ← BitVec.shiftRight_add, Nat.add_comm]

/-- **Several bits at once.**  The low bits decide what is taken away; the others move down. -/
theorem shift_iterate_split (n : ℕ) (s : BitVec w) :
    (shift p)^[n] s = (shift p)^[n] ((s.setWidth n).setWidth w) ^^^ (s >>> n) := by
  have hsplit : s = (s.setWidth n).setWidth w ^^^ ((s >>> n) <<< n) := by
    apply BitVec.eq_of_getLsbD_eq
    intro i hi
    rw [BitVec.getLsbD_xor, BitVec.getLsbD_setWidth, BitVec.getLsbD_setWidth,
      BitVec.getLsbD_shiftLeft, BitVec.getLsbD_ushiftRight]
    by_cases hn : i < n
    · simp [hi, hn]
    · simp [hi, hn, Nat.add_sub_of_le (Nat.not_lt.mp hn)]
  have hhigh : (shift p)^[n] ((s >>> n) <<< n) = s >>> n := by
    rw [shift_iterate_of_low]
    · apply BitVec.eq_of_getLsbD_eq
      intro i hi
      rw [BitVec.getLsbD_ushiftRight, BitVec.getLsbD_shiftLeft, BitVec.getLsbD_ushiftRight,
        BitVec.getLsbD_ushiftRight]
      by_cases hw : n + i < w
      · simp [hw]
      · simp [hw, BitVec.getLsbD_of_ge s (n + i) (Nat.not_lt.mp hw)]
    · intro i hi
      simp [hi]
  conv_lhs => rw [hsplit]
  rw [shift_iterate_xor, hhigh]

/-- A message that fits into the register may be added to it all at once. -/
theorem divide_eq_iterate {bits : List Bool} (h : bits.length ≤ w) (s : BitVec w) :
    divide p s bits = (shift p)^[bits.length] (s ^^^ word w bits) := by
  induction bits generalizing s with
  | nil =>
    have hzero : word w [] = 0#w := by
      apply BitVec.eq_of_getLsbD_eq
      intro i hi
      simp [getLsbD_word]
    rw [hzero, BitVec.xor_zero]
    rfl
  | cons b bits ih =>
    have hfit : bits.length + 1 ≤ w := h
    -- the bits that come later stand one place higher until the first has left
    have hword : word w (b :: bits) = (BitVec.ofBool b).setWidth w ^^^ (word w bits <<< 1) := by
      apply BitVec.eq_of_getLsbD_eq
      intro i hi
      rw [BitVec.getLsbD_xor, BitVec.getLsbD_shiftLeft, getLsbD_word, getLsbD_word]
      cases i with
      | zero => simp [hi]
      | succ i => simp [hi, Nat.lt_of_succ_lt hi]
    have hshift : shift p (word w bits <<< 1) = word w bits := by
      have hlow : ∀ i < 1, (word w bits <<< 1).getLsbD i = false := fun i hi => by simp [hi]
      have := shift_iterate_of_low p hlow
      rw [Function.iterate_one] at this
      rw [this]
      apply BitVec.eq_of_getLsbD_eq
      intro i hi
      rw [BitVec.getLsbD_ushiftRight, BitVec.getLsbD_shiftLeft, getLsbD_word, getLsbD_word]
      by_cases htop : 1 + i < w
      · simp [htop, hi]
      · have hlast : bits.getD i false = false := by
          rw [List.getD_eq_getElem?_getD, List.getElem?_eq_none (by omega), Option.getD_none]
        rw [Nat.add_sub_cancel_left, hlast, decide_eq_false htop, Bool.and_false, Bool.false_and,
          Bool.false_and]
    rw [divide_cons, ih (Nat.le_of_succ_le hfit), List.length_cons, Function.iterate_succ_apply,
      hword, ← BitVec.xor_assoc, shift_xor p _ (word w bits <<< 1), hshift, feed]

/-! ## Bursts -/

/-- Nothing is lost by a shift when the divisor's top bit is set. -/
theorem shift_injective (htop : p.getLsbD (w - 1) = true) : Function.Injective (shift p) := by
  have hw : 0 < w := by
    by_contra hzero
    rw [BitVec.getLsbD_of_ge p _ (by omega)] at htop
    exact Bool.false_ne_true htop
  -- the bit that left is read off the top of the register
  have hleft : ∀ s : BitVec w, (shift p s).getLsbD (w - 1) = s.getLsbD 0 := by
    intro s
    have hout : (s >>> 1).getLsbD (w - 1) = false := by
      rw [BitVec.getLsbD_ushiftRight, BitVec.getLsbD_of_ge s _ (by omega)]
    unfold shift
    cases hlow : s.getLsbD 0 with
    | true => rw [if_pos rfl, BitVec.getLsbD_xor, hout, htop, Bool.false_xor]
    | false => rw [if_neg Bool.false_ne_true, hout]
  intro s t h
  have hlow : s.getLsbD 0 = t.getLsbD 0 := by rw [← hleft s, ← hleft t, h]
  have hrest : s >>> 1 = t >>> 1 := by
    unfold shift at h
    rw [hlow] at h
    cases hlast : t.getLsbD 0 with
    | true =>
      rw [if_pos hlast, if_pos hlast] at h
      exact (BitVec.xor_left_inj _).mp h
    | false => rwa [hlast] at h
  apply BitVec.eq_of_getLsbD_eq
  intro i hi
  cases i with
  | zero => exact hlow
  | succ i =>
    have := congrArg (fun u => u.getLsbD i) hrest
    simpa [Nat.add_comm] using this

theorem divide_injective (htop : p.getLsbD (w - 1) = true) (bits : List Bool) :
    Function.Injective fun s => divide p s bits := by
  induction bits with
  | nil => exact Function.injective_id
  | cons b bits ih =>
    intro s t h
    exact (BitVec.xor_left_inj _).mp (shift_injective p htop (ih h))

/-- **Short bursts are seen.**  Messages that differ within as many consecutive bits as the
register has leave different registers. -/
theorem divide_burst (htop : p.getLsbD (w - 1) = true) (s : BitVec w)
    {first x y rest : List Bool} (hlen : x.length = y.length) (hfit : x.length ≤ w)
    (h : divide p s (first ++ (x ++ rest)) = divide p s (first ++ (y ++ rest))) : x = y := by
  rw [divide_append, divide_append, divide_append, divide_append] at h
  have hx : divide p (divide p s first) x = divide p (divide p s first) y :=
    divide_injective p htop rest h
  have hfit' : y.length ≤ w := hlen ▸ hfit
  rw [divide_eq_iterate p hfit, divide_eq_iterate p hfit' (divide p s first), ← hlen] at hx
  have hword := (BitVec.xor_right_inj _).mp ((shift_injective p htop).iterate x.length hx)
  apply List.ext_getElem hlen
  intro i hi hi'
  have hw : i < w := Nat.lt_of_lt_of_le hi hfit
  have hbit : (word w x).getLsbD i = (word w y).getLsbD i := by rw [hword]
  rw [getLsbD_word, getLsbD_word] at hbit
  simpa [hw, hi, hi'] using hbit

/-! ## What is left is the remainder -/

open Polynomial

/-- The polynomial of a word: its low bit is the highest coefficient. -/
noncomputable def toPoly (s : BitVec w) : (ZMod 2)[X] :=
  Polynomial.ofFn w fun k : Fin w => if s.getMsbD k then 1 else 0

/-- The polynomial that is divided by. -/
noncomputable def divisor : (ZMod 2)[X] := X ^ w + toPoly p

/-- The polynomial of a message: its first bit is the highest coefficient. -/
noncomputable def message (bits : List Bool) : (ZMod 2)[X] :=
  bits.foldl (fun q b => q * X + if b then 1 else 0) 0

theorem coeff_toPoly (s : BitVec w) (k : ℕ) :
    (toPoly s).coeff k = if s.getMsbD k then 1 else 0 := by
  by_cases hk : k < w
  · rw [toPoly, Polynomial.ofFn_coeff_eq_val_of_lt _ hk]
  · rw [toPoly, Polynomial.ofFn_coeff_eq_zero_of_ge _ (Nat.not_lt.mp hk),
      BitVec.getMsbD_of_ge s k (Nat.not_lt.mp hk), if_neg Bool.false_ne_true]

theorem toPoly_eq_sum (s : BitVec w) :
    toPoly s = ∑ k ∈ Finset.range w, if s.getMsbD k then X ^ k else 0 := by
  ext k
  rw [coeff_toPoly, finsetSum_coeff]
  by_cases hk : k < w
  · rw [Finset.sum_eq_single_of_mem k (Finset.mem_range.mpr hk)]
    · cases s.getMsbD k <;> simp
    · intro i hi hne
      cases s.getMsbD i <;> simp [coeff_X_pow, hne.symm]
  · rw [BitVec.getMsbD_of_ge s k (Nat.not_lt.mp hk), if_neg Bool.false_ne_true]
    refine (Finset.sum_eq_zero fun i hi => ?_).symm
    have hne : k ≠ i := by
      rintro rfl
      exact hk (Finset.mem_range.mp hi)
    cases s.getMsbD i <;> simp [coeff_X_pow, hne]

theorem degree_toPoly_lt (s : BitVec w) : (toPoly s).degree < w :=
  Polynomial.ofFn_degree_lt _

theorem toPoly_xor (s t : BitVec w) : toPoly (s ^^^ t) = toPoly s + toPoly t := by
  ext k
  rw [coeff_add, coeff_toPoly, coeff_toPoly, coeff_toPoly, BitVec.getMsbD_xor]
  cases s.getMsbD k <;> cases t.getMsbD k <;> decide

theorem monic_divisor : (divisor p).Monic := monic_X_pow_add (degree_toPoly_lt p)

theorem degree_divisor : (divisor p).degree = w := by
  rw [divisor, degree_add_eq_left_of_degree_lt] <;> rw [degree_X_pow]
  exact degree_toPoly_lt p

/-- A shift multiplies by `X` and takes the divisor away once, if at all. -/
theorem toPoly_shift (hw : 0 < w) (s : BitVec w) :
    X * toPoly s = toPoly (shift p s) + C (if s.getLsbD 0 then 1 else 0) * divisor p := by
  have hdown : X * toPoly s = toPoly (s >>> 1) + C (if s.getLsbD 0 then 1 else 0) * X ^ w := by
    ext k
    rw [coeff_add, coeff_C_mul, coeff_X_pow, coeff_toPoly, BitVec.getMsbD_ushiftRight]
    cases k with
    | zero => simp [hw.ne]
    | succ k =>
      rw [coeff_X_mul, coeff_toPoly]
      rcases Nat.lt_trichotomy (k + 1) w with hk | hk | hk
      · simp [hk, hk.ne]
      · subst hk
        simp [BitVec.getMsbD]
      · simp [hk.ne', Nat.not_lt.mpr hk.le, BitVec.getMsbD_of_ge s k (by omega)]
  rw [hdown]
  unfold shift
  cases s.getLsbD 0 with
  | true =>
    have htwice : toPoly p + toPoly p = 0 := CharTwo.add_self_eq_zero _
    rw [if_pos rfl, if_pos rfl, toPoly_xor, divisor, C_1, one_mul, one_mul]
    linear_combination -htwice
  | false =>
    rw [if_neg Bool.false_ne_true, if_neg Bool.false_ne_true, C_0, zero_mul, zero_mul]

theorem toPoly_bit (hw : 0 < w) (b : Bool) :
    X * toPoly ((BitVec.ofBool b).setWidth w) = C (if b then 1 else 0) * X ^ w := by
  ext k
  rw [coeff_C_mul, coeff_X_pow]
  cases k with
  | zero => simp [hw.ne]
  | succ k =>
    rw [coeff_X_mul, coeff_toPoly, BitVec.getMsbD, BitVec.getLsbD_setWidth]
    by_cases hk : k + 1 = w
    · subst hk
      cases b <;> simp
    · rw [if_neg hk, mul_zero]
      apply if_neg
      -- only the lowest place of the bit is ever set
      rcases Nat.lt_or_ge k w with hlt | hge
      · rw [BitVec.getLsbD_of_ge (BitVec.ofBool b) _ (by omega), Bool.and_false, Bool.and_false]
        exact Bool.false_ne_true
      · rw [decide_eq_false (Nat.not_lt.mpr hge), Bool.false_and]
        exact Bool.false_ne_true

theorem message_concat (bits : List Bool) (b : Bool) :
    message (bits ++ [b]) = message bits * X + C (if b then 1 else 0) := by
  rw [message, List.foldl_concat, ← message]
  cases b <;> simp

/-- **Division.**  After a message the register holds the remainder of the message, behind what
the register held before, by the divisor. -/
theorem toPoly_divide (hw : 0 < w) (s : BitVec w) (bits : List Bool) :
    toPoly (divide p s bits) =
      (X ^ bits.length * toPoly s + X ^ w * message bits) %ₘ divisor p := by
  have hcongr : ∃ q, X ^ bits.length * toPoly s + X ^ w * message bits =
      toPoly (divide p s bits) + divisor p * q := by
    induction bits using List.reverseRecOn with
    | nil => exact ⟨0, by simp [message]⟩
    | append_singleton bits b ih =>
      obtain ⟨q, hq⟩ := ih
      have hbit := toPoly_bit hw b
      have hstep := toPoly_shift p hw
        (divide p s bits ^^^ (BitVec.ofBool b).setWidth w)
      rw [toPoly_xor, mul_add, hbit] at hstep
      refine ⟨X * q + C (if (divide p s bits ^^^ (BitVec.ofBool b).setWidth w).getLsbD 0 then 1
        else 0), ?_⟩
      rw [List.length_append, List.length_singleton, message_concat, divide_append, divide_cons,
        divide_nil, feed, pow_succ]
      linear_combination X * hq + hstep
  obtain ⟨q, hq⟩ := hcongr
  refine ((div_modByMonic_unique q _ (monic_divisor p) ⟨hq.symm, ?_⟩).2).symm
  rw [degree_divisor]
  exact degree_toPoly_lt _

end BitDivision
