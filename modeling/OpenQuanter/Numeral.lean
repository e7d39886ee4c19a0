/-
# Plain numerals

A decimal number as it is written: a sign or none, digits, and digits behind a point or
no point.  What it stands for is a rational; by a power of ten it is made an integer
exactly when the digits it has beyond are zeros (`scaled_iff`), and then that integer is
read off the digits themselves, with zeros for those that are missing (`scaled_eq`).

Nothing here names the program under verification.
-/
import OpenQuanter.Decimal

namespace Decimal

/-! ## Numerals -/

/-- What stands before a number. -/
inductive Sign where
  | bare
  | minus
  | plus
  deriving DecidableEq, Repr

namespace Sign

def text : Sign → List Char
  | bare => []
  | minus => ['-']
  | plus => ['+']

def apply : Sign → Nat → Int
  | minus, m => -m
  | _, m => m

@[simp] theorem natAbs_apply (s : Sign) (m : Nat) : (s.apply m).natAbs = m := by
  cases s
  · exact Int.natAbs_natCast m
  · exact (Int.natAbs_neg _).trans (Int.natAbs_natCast m)
  · exact Int.natAbs_natCast m

theorem apply_mul (s : Sign) (m k : Nat) : s.apply (m * k) = s.apply m * k := by
  cases s
  · exact Nat.cast_mul m k
  · show -((m * k : Nat) : Int) = -(m : Int) * k
    rw [Nat.cast_mul, neg_mul]
  · exact Nat.cast_mul m k

end Sign

/-- A plain numeral; it has a digit somewhere. -/
structure Numeral where
  sign : Sign
  whole : List Char
  /-- The digits behind the point, if there is one. -/
  frac : Option (List Char)
  isDigit : ∀ c ∈ whole ++ frac.getD [], c.isDigit = true
  ne_nil : whole ++ frac.getD [] ≠ []

namespace Numeral

variable (n : Numeral)

/-- What stands behind the sign. -/
def body : List Char := n.whole ++ n.frac.elim [] ('.' :: ·)

def text : List Char := n.sign.text ++ n.body

/-- The digits behind the point. -/
def behind : List Char := n.frac.getD []

def places : Nat := n.behind.length

/-- The digits, read without the point. -/
def magnitude : Nat := Nat.ofDigitChars 10 (n.whole ++ n.behind) 0

def mantissa : Int := n.sign.apply n.magnitude

@[simp] theorem natAbs_mantissa : n.mantissa.natAbs = n.magnitude := Sign.natAbs_apply _ _

/-- What a numeral stands for. -/
def value : ℚ := n.mantissa / 10 ^ n.places

theorem mem_body {c : Char} (h : c ∈ n.body) : c.isDigit = true ∨ c = '.' := by
  rcases List.mem_append.mp h with hwhole | hfrac
  · exact .inl (n.isDigit c (List.mem_append_left _ hwhole))
  · cases hf : n.frac with
    | none =>
      rw [hf] at hfrac
      exact absurd hfrac List.not_mem_nil
    | some f =>
      rw [hf] at hfrac
      rcases List.mem_cons.mp hfrac with rfl | hc
      · exact .inr rfl
      · exact .inl (n.isDigit c (List.mem_append_right _ (by rwa [hf])))

theorem body_ne_nil : n.body ≠ [] := by
  intro hnil
  obtain ⟨hwhole, hfrac⟩ := List.append_eq_nil_iff.mp hnil
  cases hf : n.frac with
  | none => exact n.ne_nil (by rw [hwhole, hf]; rfl)
  | some f =>
    rw [hf] at hfrac
    exact List.cons_ne_nil _ _ hfrac

theorem all_whole : n.whole.all Char.isDigit = true :=
  List.all_eq_true.mpr fun c hc => n.isDigit c (List.mem_append_left _ hc)

theorem all_behind : n.behind.all Char.isDigit = true :=
  List.all_eq_true.mpr fun c hc => n.isDigit c (List.mem_append_right _ hc)

theorem some_digit : (n.whole.isEmpty && n.behind.isEmpty) = false := by
  rw [Bool.and_eq_false_iff, List.isEmpty_eq_false_iff, List.isEmpty_eq_false_iff]
  by_contra! hnil
  exact n.ne_nil (List.append_eq_nil_iff.mpr hnil)

/-- The digits are read without the point. -/
theorem parse_all : parse (n.whole ++ n.behind) = some n.magnitude := by
  have hne : (n.whole ++ n.behind).isEmpty = false := List.isEmpty_eq_false_iff.mpr n.ne_nil
  unfold parse
  rw [hne, List.all_append, n.all_whole, n.all_behind]
  rfl

end Numeral

/-! ## Taking a text apart -/

/-- The text before the first point, and the text behind it. -/
def halves (text : List Char) : List Char × List Char :=
  match text.span (· ≠ '.') with
  | (int, _ :: frac) => (int, frac)
  | (int, []) => (int, [])

/-- Whether a text begins with a minus sign, and what is behind it. -/
def stripMinus (text : List Char) : Bool × List Char :=
  match text with
  | '-' :: rest => (true, rest)
  | _ => (false, text)

theorem not_point_of_isDigit {c : Char} (h : c.isDigit = true) : c ≠ '.' := by
  rintro rfl
  exact absurd h (by decide)

theorem halves_append {int : List Char} (h : ∀ c ∈ int, c ≠ '.') (frac : Option (List Char)) :
    halves (int ++ frac.elim [] ('.' :: ·)) = (int, frac.getD []) := by
  have hint : ∀ c ∈ int, decide (c ≠ '.') = true := fun c hc => decide_eq_true (h c hc)
  unfold halves
  rw [List.span_eq_takeWhile_dropWhile, List.takeWhile_append_of_pos hint,
    List.dropWhile_append_of_pos hint]
  cases frac <;> simp

/-- Every text is its halves, with the point between them if there is one. -/
theorem eq_halves (text : List Char) :
    ∃ frac : Option (List Char), text = (halves text).1 ++ frac.elim [] ('.' :: ·) ∧
      frac.getD [] = (halves text).2 := by
  unfold halves
  rw [List.span_eq_takeWhile_dropWhile]
  have hsplit : text.takeWhile (· ≠ '.') ++ text.dropWhile (· ≠ '.') = text :=
    List.takeWhile_append_dropWhile
  cases hdrop : text.dropWhile (· ≠ '.') with
  | nil =>
    rw [hdrop] at hsplit
    exact ⟨none, hsplit.symm, rfl⟩
  | cons c frac =>
    have hc : c = '.' := by
      have hhead := List.head?_dropWhile_not (fun c => decide (c ≠ '.')) text
      rw [hdrop] at hhead
      simpa using hhead
    rw [hdrop, hc] at hsplit
    exact ⟨some frac, hsplit.symm, rfl⟩

theorem halves_eq (text : List Char) :
    halves text = (text.takeWhile (· ≠ '.'), (text.dropWhile (· ≠ '.')).drop 1) := by
  unfold halves
  rw [List.span_eq_takeWhile_dropWhile]
  cases text.dropWhile (· ≠ '.') <;> rfl

theorem eq_stripMinus (text : List Char) :
    text = (if (stripMinus text).1 then Sign.minus else .bare).text ++ (stripMinus text).2 := by
  unfold stripMinus
  split <;> rfl

/-- A text whose halves behind the sign are digits is a numeral. -/
theorem exists_numeral {text : List Char}
    (hdigit : (∀ c ∈ (halves (stripMinus text).2).1, c.isDigit = true) ∧
      ∀ c ∈ (halves (stripMinus text).2).2, c.isDigit = true)
    (hne : (halves (stripMinus text).2).1 ++ (halves (stripMinus text).2).2 ≠ []) :
    ∃ n : Numeral, n.sign ≠ .plus ∧ n.text = text := by
  obtain ⟨frac, hbody, hfrac⟩ := eq_halves (stripMinus text).2
  rw [← hfrac] at hdigit hne
  have hall : ∀ c ∈ (halves (stripMinus text).2).1 ++ frac.getD [], c.isDigit = true :=
    fun c hc => (List.mem_append.mp hc).elim (hdigit.1 c) (hdigit.2 c)
  refine ⟨⟨if (stripMinus text).1 then .minus else .bare, _, frac, hall, hne⟩, ?_, ?_⟩
  · show (if _ then Sign.minus else .bare) ≠ .plus
    split <;> exact Sign.noConfusion
  · show _ ++ (_ ++ _) = text
    rw [← hbody]
    exact (eq_stripMinus text).symm

/-! ## Digits to a number of places -/

/-- The first places of a fraction, with zeros for those that are missing. -/
def padTo (s : Nat) (frac : List Char) : List Char :=
  (List.range s).map fun i => frac.getD i '0'

/-- A fraction without the zeros at its end. -/
def significant (frac : List Char) : List Char := frac.rdropWhile (· = '0')

theorem padTo_succ (s : Nat) (frac : List Char) :
    padTo (s + 1) frac = padTo s frac ++ [frac.getD s '0'] := by
  unfold padTo
  rw [List.range_succ, List.map_append, List.map_singleton]

theorem padTo_length (frac : List Char) : padTo frac.length frac = frac := by
  refine List.ext_getElem (by simp [padTo]) fun i _ hi => ?_
  simp [padTo, hi]

theorem padTo_append_replicate (s k : Nat) (frac : List Char) :
    padTo s (frac ++ List.replicate k '0') = padTo s frac := by
  refine List.map_congr_left fun i _ => ?_
  rcases lt_or_ge i frac.length with hi | hi
  · exact List.getD_append _ _ _ _ hi
  · rw [List.getD_append_right _ _ _ _ hi, List.getD_eq_default _ _ hi]
    rcases lt_or_ge (i - frac.length) k with hk | hk
    · exact List.getD_replicate _ hk
    · exact List.getD_eq_default _ _ (by rwa [List.length_replicate])

theorem padTo_of_le {s : Nat} {frac : List Char} (h : frac.length ≤ s) :
    padTo s frac = frac ++ List.replicate (s - frac.length) '0' := by
  have hlen : (frac ++ List.replicate (s - frac.length) '0').length = s := by
    rw [List.length_append, List.length_replicate]
    omega
  calc padTo s frac
      = padTo s (frac ++ List.replicate (s - frac.length) '0') :=
        (padTo_append_replicate _ _ _).symm
    _ = padTo (frac ++ List.replicate (s - frac.length) '0').length
          (frac ++ List.replicate (s - frac.length) '0') := by rw [hlen]
    _ = frac ++ List.replicate (s - frac.length) '0' := padTo_length _

theorem isDigit_padTo (s : Nat) {frac : List Char} (h : ∀ c ∈ frac, c.isDigit = true) :
    ∀ c ∈ padTo s frac, c.isDigit = true := by
  intro c hc
  obtain ⟨i, -, rfl⟩ := List.mem_map.mp hc
  rcases lt_or_ge i frac.length with hi | hi
  · rw [List.getD_eq_getElem _ _ hi]
    exact h _ (List.getElem_mem hi)
  · rw [List.getD_eq_default _ _ hi]
    decide

/-- What was taken off the end are zeros. -/
theorem eq_significant (frac : List Char) :
    ∃ k, frac = significant frac ++ List.replicate k '0' := by
  refine ⟨(frac.rtakeWhile (· = '0')).length, ?_⟩
  have hzeros : frac.rtakeWhile (· = '0') =
      List.replicate (frac.rtakeWhile (· = '0')).length '0' :=
    List.eq_replicate_iff.mpr ⟨rfl, fun c hc => by simpa using List.mem_rtakeWhile_imp hc⟩
  rw [← hzeros]
  exact List.rdropWhile_append_rtakeWhile.symm

theorem ofDigitChars_zeros (text : List Char) (k : Nat) :
    Nat.ofDigitChars 10 (text ++ List.replicate k '0') 0 =
      10 ^ k * Nat.ofDigitChars 10 text 0 := by
  rw [Nat.ofDigitChars_append, Nat.ofDigitChars_replicate_zero]

theorem ofDigitChars_concat (text : List Char) (c : Char) :
    Nat.ofDigitChars 10 (text ++ [c]) 0 = 10 * Nat.ofDigitChars 10 text 0 + (c.toNat - 48) := by
  rw [Nat.ofDigitChars_append, Nat.ofDigitChars_cons, Nat.ofDigitChars_nil]
  rfl

/-- A digit that is not zero counts. -/
theorem digit_bounds {c : Char} (h : c.isDigit = true) (hne : c ≠ '0') :
    0 < c.toNat - 48 ∧ c.toNat - 48 < 10 := by
  obtain ⟨hlow, hhigh⟩ : 48 ≤ c.toNat ∧ c.toNat ≤ 57 := Char.isDigit_iff_toNat.mp h
  have : c.toNat ≠ 48 := fun h48 => hne (Char.toNat_inj.mp h48)
  omega

/-- Zeros beyond the places are a power of ten less. -/
theorem ofDigitChars_padTo {s : Nat} {frac : List Char} (h : (significant frac).length ≤ s)
    (whole : List Char) :
    Nat.ofDigitChars 10 (whole ++ padTo s frac) 0 * 10 ^ frac.length =
      Nat.ofDigitChars 10 (whole ++ frac) 0 * 10 ^ s := by
  obtain ⟨k, hk⟩ := eq_significant frac
  generalize significant frac = g at h hk
  obtain ⟨j, rfl⟩ := Nat.exists_eq_add_of_le h
  rw [hk, padTo_append_replicate, padTo_of_le h, Nat.add_sub_cancel_left, ← List.append_assoc,
    ← List.append_assoc, ofDigitChars_zeros, ofDigitChars_zeros, List.length_append,
    List.length_replicate]
  ring

/-- With more digits that count than there are places, no integer is left. -/
theorem significant_le (whole : List Char) {s v : Nat} {frac : List Char}
    (hdigit : ∀ c ∈ frac, c.isDigit = true)
    (h : Nat.ofDigitChars 10 (whole ++ frac) 0 * 10 ^ s = v * 10 ^ frac.length) :
    (significant frac).length ≤ s := by
  by_contra hlong
  obtain ⟨j, hj⟩ := Nat.exists_eq_add_of_lt (not_le.mp hlong)
  have hne : significant frac ≠ [] := by
    rintro hnil
    rw [hnil, List.length_nil] at hj
    omega
  obtain ⟨k, hk⟩ := eq_significant frac
  have hlast : significant frac = (significant frac).dropLast ++ [(significant frac).getLast hne] :=
    (List.dropLast_append_getLast hne).symm
  have hcount : 0 < ((significant frac).getLast hne).toNat - 48 ∧
      ((significant frac).getLast hne).toNat - 48 < 10 := by
    refine digit_bounds (hdigit _ ?_) fun hzero => ?_
    · exact (List.rdropWhile_prefix _ _).subset (List.getLast_mem hne)
    · exact List.rdropWhile_last_not _ _ hne (decide_eq_true hzero)
  -- without the zeros at its end, the last digit would have to be one
  have hten : Nat.ofDigitChars 10 (whole ++ significant frac) 0 = v * 10 ^ (j + 1) := by
    rw [hk, ← List.append_assoc, ofDigitChars_zeros, List.length_append, List.length_replicate,
      hj] at h
    have hpos : 0 < 10 ^ (k + s) := by positivity
    refine Nat.eq_of_mul_eq_mul_right hpos ?_
    calc Nat.ofDigitChars 10 (whole ++ significant frac) 0 * 10 ^ (k + s)
        = 10 ^ k * Nat.ofDigitChars 10 (whole ++ significant frac) 0 * 10 ^ s := by ring
      _ = v * 10 ^ (s + j + 1 + k) := h
      _ = v * 10 ^ (j + 1) * 10 ^ (k + s) := by ring
  rw [hlast, ← List.append_assoc, ofDigitChars_concat, pow_succ, ← mul_assoc] at hten
  omega

namespace Numeral

variable (n : Numeral)

@[simp] theorem halves_body : halves n.body = (n.whole, n.behind) :=
  halves_append (fun c hc => not_point_of_isDigit (n.isDigit c (List.mem_append_left _ hc))) _

theorem stripMinus_body : stripMinus n.body = (false, n.body) := by
  unfold stripMinus
  split
  · rename_i rest hbody
    rcases n.mem_body (c := '-') (by rw [hbody]; exact List.mem_cons_self) with h | h
    · exact absurd h (by decide)
    · exact absurd h (by decide)
  · rfl

theorem stripMinus_text (h : n.sign ≠ .plus) :
    stripMinus n.text = (decide (n.sign = .minus), n.body) := by
  unfold text
  cases hs : n.sign with
  | bare => exact n.stripMinus_body
  | minus => rfl
  | plus => exact absurd hs h

/-- A numeral is what it is written as. -/
theorem text_inj {m : Numeral} (hn : n.sign ≠ .plus) (hm : m.sign ≠ .plus)
    (h : n.text = m.text) : n.sign = m.sign ∧ n.whole = m.whole ∧ n.behind = m.behind := by
  have hstrip := n.stripMinus_text hn
  rw [h, m.stripMinus_text hm] at hstrip
  obtain ⟨hsign, hbody⟩ := Prod.mk.inj hstrip
  have hhalves := n.halves_body
  rw [← hbody, m.halves_body] at hhalves
  obtain ⟨hwhole, hbehind⟩ := Prod.mk.inj hhalves
  refine ⟨?_, hwhole.symm, hbehind.symm⟩
  cases hs : n.sign <;> cases hs' : m.sign <;> simp_all

theorem value_eq_of_text {m : Numeral} (hn : n.sign ≠ .plus) (hm : m.sign ≠ .plus)
    (h : n.text = m.text) : n.value = m.value := by
  obtain ⟨hsign, hwhole, hbehind⟩ := n.text_inj hn hm h
  unfold value mantissa magnitude places
  rw [hsign, hwhole, hbehind]

theorem significant_le_places : (significant n.behind).length ≤ n.places :=
  (List.rdropWhile_prefix _ _).length_le

/-- The number at some places, read off the digits. -/
def scaled (s : Nat) : Nat := Nat.ofDigitChars 10 (n.whole ++ padTo s n.behind) 0

theorem value_mul_pow (s : Nat) (v : Int) :
    n.value * 10 ^ s = v ↔ n.mantissa * 10 ^ s = v * 10 ^ n.places := by
  have hpos : (10 : ℚ) ^ n.places ≠ 0 := by positivity
  unfold value
  rw [div_mul_eq_mul_div, div_eq_iff hpos]
  exact_mod_cast Iff.rfl

/-- **A numeral at some places** is an integer when it has no digit that counts beyond
them, and then it is what its digits say. -/
theorem value_mul_iff (s : Nat) (v : Int) :
    n.value * 10 ^ s = v ↔
      (significant n.behind).length ≤ s ∧ v = n.sign.apply (n.scaled s) := by
  have hread : (significant n.behind).length ≤ s →
      n.mantissa * 10 ^ s = n.sign.apply (n.scaled s) * 10 ^ n.places := by
    intro hshort
    have heq : n.scaled s * 10 ^ n.places = n.magnitude * 10 ^ s := ofDigitChars_padTo hshort _
    have happly := congrArg n.sign.apply heq
    rw [Sign.apply_mul, Sign.apply_mul] at happly
    exact_mod_cast happly.symm
  rw [value_mul_pow]
  constructor
  · intro h
    have hshort : (significant n.behind).length ≤ s := by
      refine significant_le n.whole (v := v.natAbs)
        (fun c hc => n.isDigit c (List.mem_append_right _ hc)) ?_
      have habs := congrArg Int.natAbs h
      rwa [Int.natAbs_mul, Int.natAbs_mul, natAbs_mantissa, Int.natAbs_pow,
        Int.natAbs_pow] at habs
    refine ⟨hshort, ?_⟩
    rw [hread hshort] at h
    exact (mul_right_cancel₀ (by positivity) h).symm
  · rintro ⟨hshort, rfl⟩
    exact hread hshort

end Numeral

/-! ## Toward zero -/

/-- A rational without its fraction. -/
def truncate (q : ℚ) : Int := if 0 ≤ q then ⌊q⌋ else ⌈q⌉

/-- A quotient of integers is truncated where it is computed. -/
theorem truncate_div (a : Int) {b : Nat} (hb : 0 < b) : truncate (a / b) = a.tdiv b := by
  have hpos : (0 : ℚ) < b := Nat.cast_pos.mpr hb
  have hsign : (0 : ℚ) ≤ a / b ↔ 0 ≤ a := by
    rw [le_div_iff₀ hpos, zero_mul, Int.cast_nonneg_iff]
  unfold truncate
  split
  · rename_i hnonneg
    rw [Rat.floor_intCast_div_natCast, Int.tdiv_eq_ediv_of_nonneg (hsign.mp hnonneg)]
  · rename_i hneg
    have ha : 0 ≤ -a := by
      rw [hsign] at hneg
      omega
    -- a negative number is the opposite of one that is not
    rw [Rat.ceil_intCast_div_natCast, ← Int.tdiv_eq_ediv_of_nonneg ha, Int.neg_tdiv, neg_neg]

theorem truncate_neg (q : ℚ) : truncate (-q) = -truncate q := by
  have hdiv : ∀ q : ℚ, truncate q = q.num.tdiv q.den := fun q => by
    rw [← truncate_div q.num q.den_pos, Rat.num_div_den]
  rw [hdiv, hdiv, Rat.neg_num, Rat.neg_den, Int.neg_tdiv]

end Decimal
