/-
# Numerals of one width

Numbers with zeros in front, up to a width. They are read back as any other numeral
(`parse_padded`), and their order as texts is that of the numbers (`padded_append_lt_iff`).

Nothing here names the program under verification.
-/
import OpenQuanter.Decimal

namespace Decimal

/-- The digits of a number, with zeros in front of them up to a width. -/
def padded (width n : ℕ) : List Char :=
  List.replicate (width - (digits n).length) '0' ++ digits n

theorem isDigit_of_mem_padded {width n : ℕ} {c : Char} (h : c ∈ padded width n) :
    c.isDigit = true := by
  rcases List.mem_append.mp h with h | h
  · rw [List.eq_of_mem_replicate h]
    rfl
  · exact isDigit_of_mem_digits h

theorem ofDigitChars_padded (width n : ℕ) : Nat.ofDigitChars 10 (padded width n) 0 = n := by
  rw [padded, Nat.ofDigitChars_append, Nat.ofDigitChars_replicate_zero, Nat.mul_zero, digits,
    Nat.ofDigitChars_ten_toDigits]

theorem parse_padded (width n : ℕ) : parse (padded width n) = some n := by
  have hne : (padded width n).isEmpty = false := by
    simpa [padded] using fun _ => digits_ne_nil n
  have hall : (padded width n).all Char.isDigit = true :=
    List.all_eq_true.mpr fun _ h => isDigit_of_mem_padded h
  unfold parse
  rw [hne, hall, ofDigitChars_padded]
  rfl

theorem length_padded {width n : ℕ} (hwidth : 0 < width) (h : n < 10 ^ width) :
    (padded width n).length = width := by
  have hle : (digits n).length ≤ width := (Nat.length_toDigits_le_iff (by decide) hwidth).mpr h
  rw [padded, List.length_append, List.length_replicate]
  omega

/-! ## Order -/

section Order

variable {α : Type*} [LT α]

/-- Texts that begin with as many characters are ordered by these, and else by the rest. -/
theorem append_lt_append_iff [Std.Irrefl (· < · : α → α → Prop)] {a b s t : List α}
    (h : a.length = b.length) : a ++ s < b ++ t ↔ a < b ∨ a = b ∧ s < t := by
  induction a generalizing b with
  | nil =>
    obtain rfl := List.eq_nil_of_length_eq_zero h.symm
    simp
  | cons c a ih =>
    cases b with
    | nil => cases h
    | cons d b =>
      have hrest := ih (Nat.succ.inj h)
      rw [List.cons_append, List.cons_append, List.cons_lt_cons_iff, List.cons_lt_cons_iff, hrest,
        List.cons.injEq]
      tauto

end Order

theorem ofDigitChars_cons_zero (c : Char) (cs : List Char) :
    Nat.ofDigitChars 10 (c :: cs) 0 =
      (c.toNat - '0'.toNat) * 10 ^ cs.length + Nat.ofDigitChars 10 cs 0 := by
  rw [Nat.ofDigitChars_cons, Nat.ofDigitChars_eq_ofDigitChars_zero]
  ring

theorem isDigit_iff {c : Char} : c.isDigit = true ↔ 48 ≤ c.toNat ∧ c.toNat ≤ 57 := by
  simp only [Char.isDigit, Bool.and_eq_true, decide_eq_true_eq, UInt32.le_iff_toNat_le]
  exact Iff.rfl

theorem char_lt_iff {c d : Char} : c < d ↔ c.toNat < d.toNat := UInt32.lt_iff_toNat_lt

theorem ofDigitChars_lt {cs : List Char} (h : ∀ c ∈ cs, c.isDigit = true) :
    Nat.ofDigitChars 10 cs 0 < 10 ^ cs.length := by
  induction cs with
  | nil => decide
  | cons c cs ih =>
    rw [List.forall_mem_cons] at h
    have hrest := ih h.2
    have hdigit := (isDigit_iff.mp h.1).2
    have hle : (c.toNat - '0'.toNat) * 10 ^ cs.length ≤ 9 * 10 ^ cs.length :=
      Nat.mul_le_mul_right _ (by simp; omega)
    rw [ofDigitChars_cons_zero, List.length_cons, Nat.pow_succ]
    omega

/-- Numerals of one length are ordered as their numbers. -/
theorem lt_iff_ofDigitChars {a b : List Char} (ha : ∀ c ∈ a, c.isDigit = true)
    (hb : ∀ c ∈ b, c.isDigit = true) (hlength : a.length = b.length) :
    a < b ↔ Nat.ofDigitChars 10 a 0 < Nat.ofDigitChars 10 b 0 := by
  induction a generalizing b with
  | nil =>
    obtain rfl := List.eq_nil_of_length_eq_zero hlength.symm
    simp
  | cons c a ih =>
    cases b with
    | nil => cases hlength
    | cons d b =>
      rw [List.forall_mem_cons] at ha hb
      have hrest := ih ha.2 hb.2 (Nat.succ.inj hlength)
      have hfirst := ofDigitChars_lt ha.2
      have hsecond := ofDigitChars_lt hb.2
      have hpow : 10 ^ a.length = 10 ^ b.length := by rw [Nat.succ.inj hlength]
      have hc := isDigit_iff.mp ha.1
      have hd := isDigit_iff.mp hb.1
      have hzero : '0'.toNat = 48 := rfl
      rw [List.cons_lt_cons_iff, hrest, ofDigitChars_cons_zero, ofDigitChars_cons_zero, hpow, hzero,
        char_lt_iff]
      -- The first digits decide, unless they are the same.
      rcases lt_trichotomy c.toNat d.toNat with h | h | h
      · have hle : (c.toNat - 48 + 1) * 10 ^ b.length ≤ (d.toNat - 48) * 10 ^ b.length :=
          Nat.mul_le_mul_right _ (by omega)
        rw [Nat.add_mul, Nat.one_mul] at hle
        exact ⟨fun _ => by omega, fun _ => .inl h⟩
      · obtain rfl := Char.toNat_inj.mp h
        constructor
        · rintro (hlt | ⟨-, hlt⟩)
          · omega
          · omega
        · intro hlt
          exact .inr ⟨rfl, by omega⟩
      · have hle : (d.toNat - 48 + 1) * 10 ^ b.length ≤ (c.toNat - 48) * 10 ^ b.length :=
          Nat.mul_le_mul_right _ (by omega)
        rw [Nat.add_mul, Nat.one_mul] at hle
        constructor
        · rintro (hlt | ⟨rfl, -⟩) <;> omega
        · intro hlt
          omega

/-- **Numerals of one width are ordered as their numbers**, and then as what follows. -/
theorem padded_append_lt_iff {width m n : ℕ} (hwidth : 0 < width) (hm : m < 10 ^ width)
    (hn : n < 10 ^ width) {s t : List Char} :
    padded width m ++ s < padded width n ++ t ↔ m < n ∨ m = n ∧ s < t := by
  have hlength : (padded width m).length = (padded width n).length := by
    rw [length_padded hwidth hm, length_padded hwidth hn]
  have hinj : padded width m = padded width n ↔ m = n :=
    ⟨fun h => by rw [← ofDigitChars_padded width m, h, ofDigitChars_padded], fun h => by rw [h]⟩
  rw [append_lt_append_iff hlength, lt_iff_ofDigitChars (fun _ => isDigit_of_mem_padded)
    (fun _ => isDigit_of_mem_padded) hlength, ofDigitChars_padded, ofDigitChars_padded, hinj]

theorem padded_lt_iff {width m n : ℕ} (hwidth : 0 < width) (hm : m < 10 ^ width)
    (hn : n < 10 ^ width) : padded width m < padded width n ↔ m < n := by
  have h := padded_append_lt_iff hwidth hm hn (s := []) (t := [])
  rw [List.append_nil, List.append_nil] at h
  simpa using h

end Decimal
