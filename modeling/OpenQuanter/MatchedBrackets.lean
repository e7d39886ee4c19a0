/-
# The brackets that are matched (`oq-gateway/src/json.rs`)

From an opened brace or bracket on, what the grammar derives leaves the depth as it was, and
strings are passed over whatever is in them (`closeAt_of_derives`). So an object is found up to its
own brace, and an array up to its own bracket (`closeAt_object`, `closeArray_array`).
-/
import OpenQuanter.ScannedObjects

namespace Gateway.Json

open JsonText

/-- The two kinds of brackets that are matched. -/
structure Brackets where
  opening : Char
  closing : Char
  known : opening = '{' ∧ closing = '}' ∨ opening = '[' ∧ closing = ']'

namespace Brackets

def braces : Brackets := ⟨'{', '}', .inl ⟨rfl, rfl⟩⟩

def square : Brackets := ⟨'[', ']', .inr ⟨rfl, rfl⟩⟩

/-- The search that is outside of strings. -/
def close (k : Brackets) (depth i : ℕ) (t : Text) : Option ℕ :=
  closeAt k.opening k.closing depth false false i t

variable (k : Brackets)

theorem ne_quote : k.opening ≠ '"' ∧ k.closing ≠ '"' := by
  rcases k.known with ⟨ho, hc⟩ | ⟨ho, hc⟩ <;> rw [ho, hc] <;> decide

theorem opening_ne_closing : k.opening ≠ k.closing := by
  rcases k.known with ⟨ho, hc⟩ | ⟨ho, hc⟩ <;> rw [ho, hc] <;> decide

/-! ## Strings -/

/-- In a string a plain character is passed over, brackets included. -/
theorem string_plain (depth i : ℕ) {c : Char} (hquote : c ≠ '"') (hbackslash : c ≠ '\\')
    (t : Text) : closeAt k.opening k.closing depth true false i (c :: t) =
      closeAt k.opening k.closing depth true false (i + 1) t := by
  simp [closeAt, hquote, hbackslash]

/-- After a backslash in a string one character is passed over, whatever it is. -/
theorem string_escape (depth i : ℕ) (c : Char) (t : Text) :
    closeAt k.opening k.closing depth true false i ('\\' :: c :: t) =
      closeAt k.opening k.closing depth true false (i + 2) t := by
  simp [closeAt]

theorem string_written (depth i : ℕ) (pieces : List Piece) (rest : Text) :
    closeAt k.opening k.closing depth true false i (written pieces ++ rest) =
      closeAt k.opening k.closing depth true false (i + (written pieces).length) rest := by
  have hhex : ∀ c i t, isHexDigit c = true →
      closeAt k.opening k.closing depth true false i (c :: t) =
        closeAt k.opening k.closing depth true false (i + 1) t := fun c i t hc =>
    k.string_plain depth i (ne_quote_of_hex hc) (ne_backslash_of_hex hc) t
  -- Piece by piece: an escape takes two characters at once, so the quote in it ends nothing.
  induction pieces generalizing i with
  | nil => rfl
  | cons piece pieces ih =>
    rw [written, List.flatMap_cons, ← written, List.append_assoc, List.length_append]
    cases piece with
    | plain c h =>
      simp only [isPlain, Bool.and_eq_true, decide_eq_true_eq] at h
      rw [Piece.text, List.singleton_append, k.string_plain depth i h.1.1 h.1.2, ih,
        List.length_singleton, Nat.add_assoc]
    | escape e =>
      rw [Piece.text, List.cons_append, List.singleton_append, k.string_escape, ih, Nat.add_assoc]
      rfl
    | unicode a b c d h =>
      simp only [List.forall_mem_cons] at h
      obtain ⟨ha, hb, hc, hd, -⟩ := h
      rw [Piece.text]
      simp only [List.cons_append, List.nil_append]
      rw [k.string_escape, hhex a _ _ ha, hhex b _ _ hb, hhex c _ _ hc, hhex d _ _ hd, ih]
      congr 1
      simp only [List.length_cons, List.length_nil]
      omega

/-- A string is passed over. -/
theorem close_quoted (depth i : ℕ) (pieces : List Piece) (rest : Text) :
    k.close depth i (quoted (written pieces) ++ rest) =
      k.close depth (i + (quoted (written pieces)).length) rest := by
  have hlength : i + (quoted (written pieces)).length = i + 1 + (written pieces).length + 1 := by
    simp only [quoted, List.length_cons, List.length_append, List.length_nil]
    omega
  have hopen : k.close depth i ('"' :: (written pieces ++ '"' :: rest)) =
      closeAt k.opening k.closing depth true false (i + 1) (written pieces ++ '"' :: rest) := by
    simp [close, closeAt]
  have hend : ∀ j, closeAt k.opening k.closing depth true false j ('"' :: rest) =
      k.close depth (j + 1) rest := by
    intro j
    simp [close, closeAt]
  have hshape : quoted (written pieces) ++ rest = '"' :: (written pieces ++ '"' :: rest) := by
    simp [quoted]
  rw [hshape, hopen, k.string_written, hend, hlength]

/-! ## Values of the grammar -/

/-- A text that has neither quotes nor these brackets is passed over. -/
theorem close_dull (depth i : ℕ) {t : Text}
    (h : ∀ c ∈ t, c ≠ '"' ∧ c ≠ k.opening ∧ c ≠ k.closing) (rest : Text) :
    k.close depth i (t ++ rest) = k.close depth (i + t.length) rest := by
  induction t generalizing i with
  | nil => rfl
  | cons c t ih =>
    rw [List.forall_mem_cons] at h
    obtain ⟨⟨hquote, hopening, hclosing⟩, hrest⟩ := h
    have hstep : k.close depth i (c :: (t ++ rest)) = k.close depth (i + 1) (t ++ rest) := by
      simp [close, closeAt, hquote, hopening, hclosing]
    rw [List.cons_append, hstep, ih _ hrest, List.length_cons, Nat.add_assoc, Nat.add_comm 1]

theorem dull_blank (w : Blank) : ∀ c ∈ w.text, c ≠ '"' ∧ c ≠ k.opening ∧ c ≠ k.closing := by
  intro c hc
  have hblank := w.blank c hc
  simp only [isBlank, Bool.or_eq_true, decide_eq_true_eq] at hblank
  rcases k.known with ⟨ho, hcl⟩ | ⟨ho, hcl⟩ <;> rw [ho, hcl] <;>
    rcases hblank with ((rfl | rfl) | rfl) | rfl <;> decide

theorem dull_bare (b : Bare) : ∀ c ∈ b.text, c ≠ '"' ∧ c ≠ k.opening ∧ c ≠ k.closing := by
  intro c hc
  have hall : ∀ c ∈ bareChars, c ≠ '"' ∧ (c ≠ '{' ∧ c ≠ '}') ∧ c ≠ '[' ∧ c ≠ ']' := by
    simp [bareChars]
  obtain ⟨hquote, hbraces, hsquare⟩ := hall c (Bare.text_mem hc)
  rcases k.known with ⟨ho, hcl⟩ | ⟨ho, hcl⟩ <;> rw [ho, hcl]
  · exact ⟨hquote, hbraces⟩
  · exact ⟨hquote, hsquare⟩

theorem close_blank (depth i : ℕ) (w : Blank) (rest : Text) :
    k.close depth i (w.text ++ rest) = k.close depth (i + w.text.length) rest :=
  k.close_dull depth i (k.dull_blank w) rest

/-- A comma or a colon is passed over. -/
theorem close_mark (depth i : ℕ) {c : Char} (hc : c = ',' ∨ c = ':') (rest : Text) :
    k.close depth i (c :: rest) = k.close depth (i + 1) rest := by
  refine k.close_dull depth i (t := [c]) ?_ rest
  intro d hd
  rw [List.mem_singleton.mp hd]
  rcases k.known with ⟨ho, hcl⟩ | ⟨ho, hcl⟩ <;> rw [ho, hcl] <;> rcases hc with rfl | rfl <;> decide

theorem close_opening (depth i : ℕ) (rest : Text) :
    k.close depth i (k.opening :: rest) = k.close (depth + 1) (i + 1) rest := by
  have hquote := k.ne_quote.1
  simp [close, closeAt, hquote]

theorem close_closing (depth i : ℕ) (rest : Text) : k.close depth i (k.closing :: rest) =
    if depth - 1 = 0 then some i else k.close (depth - 1) (i + 1) rest := by
  have hquote := k.ne_quote.2
  have hne := k.opening_ne_closing.symm
  simp [close, closeAt, hquote, hne]

/-- What is between two brackets, of this kind or the other, is passed over with them. -/
theorem close_between {first last : Char}
    (hpair : first = '{' ∧ last = '}' ∨ first = '[' ∧ last = ']') {t : Text}
    (h : ∀ depth i rest, 0 < depth →
      k.close depth i (t ++ rest) = k.close depth (i + t.length) rest)
    {depth : ℕ} (hpos : 0 < depth) (i : ℕ) (rest : Text) :
    k.close depth i (first :: (t ++ last :: rest)) =
      k.close depth (i + (first :: (t ++ [last])).length) rest := by
  have hlength : i + (first :: (t ++ [last])).length = i + 1 + t.length + 1 := by
    simp only [List.length_cons, List.length_append, List.length_nil]
    omega
  have hother : ∀ {c : Char}, c ≠ '"' ∧ c ≠ k.opening ∧ c ≠ k.closing → ∀ i rest,
      k.close depth i (c :: rest) = k.close depth (i + 1) rest := by
    intro c hc i rest
    refine k.close_dull depth i (t := [c]) ?_ rest
    intro d hd
    rw [List.mem_singleton.mp hd]
    exact hc
  by_cases hkind : first = k.opening
  · have hlast : last = k.closing := by
      rcases k.known with ⟨ho, hc⟩ | ⟨ho, hc⟩ <;> rw [ho] at hkind <;> rw [hc] <;>
        rcases hpair with ⟨hf, hl⟩ | ⟨hf, hl⟩ <;> simp_all
    rw [hkind, hlast, close_opening, h _ _ _ (Nat.succ_pos depth), close_closing,
      Nat.succ_sub_one, if_neg (Nat.pos_iff_ne_zero.mp hpos), ← hkind, ← hlast, hlength]
  · -- The other kind means nothing to this search.
    have hdull : (first ≠ '"' ∧ first ≠ k.opening ∧ first ≠ k.closing) ∧
        (last ≠ '"' ∧ last ≠ k.opening ∧ last ≠ k.closing) := by
      rcases k.known with ⟨ho, hc⟩ | ⟨ho, hc⟩ <;> rw [ho] at hkind <;> rw [ho, hc] <;>
        rcases hpair with ⟨hf, hl⟩ | ⟨hf, hl⟩ <;> simp_all
    rw [hother hdull.1, h _ _ _ hpos, hother hdull.2, hlength]

/-- **What the grammar derives is passed over**, from an opened bracket on. -/
theorem close_derives {part : Part} {t : Text} (h : Derives part t) {depth : ℕ} (hpos : 0 < depth)
    (i : ℕ) (rest : Text) : k.close depth i (t ++ rest) = k.close depth (i + t.length) rest := by
  -- Over the derivation. The depth stays positive, so no bracket in the text ends the search.
  induction h generalizing depth i rest with
  | string pieces => exact k.close_quoted depth i pieces rest
  | bare b => exact k.close_dull depth i (k.dull_bare b) rest
  | noItems w =>
    rw [List.cons_append, List.append_assoc, List.singleton_append]
    exact k.close_between (.inr ⟨rfl, rfl⟩) (fun d i r _ => k.close_blank d i w r) hpos i rest
  | array _ ih =>
    rw [List.cons_append, List.append_assoc, List.singleton_append]
    exact k.close_between (.inr ⟨rfl, rfl⟩) (fun d i r hd => ih hd i r) hpos i rest
  | nested _ ih => exact ih hpos i rest
  | lastItem v w _ ih =>
    simp only [List.append_assoc, List.length_append]
    rw [close_blank, ih hpos, close_blank, Nat.add_assoc, Nat.add_assoc]
  | nextItem v w _ _ iht ihu =>
    simp only [List.append_assoc, List.cons_append, List.length_append, List.length_cons]
    rw [close_blank, iht hpos, close_blank, k.close_mark _ _ (.inl rfl), ihu hpos]
    congr 1
    omega
  | noMembers w =>
    rw [List.cons_append, List.append_assoc, List.singleton_append]
    exact k.close_between (.inl ⟨rfl, rfl⟩) (fun d i r _ => k.close_blank d i w r) hpos i rest
  | object _ ih =>
    rw [List.cons_append, List.append_assoc, List.singleton_append]
    exact k.close_between (.inl ⟨rfl, rfl⟩) (fun d i r hd => ih hd i r) hpos i rest
  | lastMember v w x y key _ ih =>
    simp only [List.append_assoc, List.cons_append, List.length_append, List.length_cons]
    rw [close_blank, close_quoted, close_blank, k.close_mark _ _ (.inr rfl), close_blank, ih hpos,
      close_blank]
    congr 1
    omega
  | nextMember v w x y key _ _ iht ihu =>
    simp only [List.append_assoc, List.cons_append, List.length_append, List.length_cons]
    rw [close_blank, close_quoted, close_blank, k.close_mark _ _ (.inr rfl), close_blank, iht hpos,
      close_blank, k.close_mark _ _ (.inl rfl), ihu hpos]
    congr 1
    omega

/-- What is between two brackets of the kind ends with the second of them. -/
theorem close_whole {t : Text}
    (h : ∀ i rest, k.close 1 i (t ++ rest) = k.close 1 (i + t.length) rest) (rest : Text) :
    k.close 0 0 (k.opening :: (t ++ k.closing :: rest)) = some (t.length + 1) := by
  rw [close_opening, h, close_closing, if_pos rfl, Nat.zero_add, Nat.add_comm 1]

end Brackets

/-- What an object is between its braces, which is passed over. -/
theorem object_between {t : Text} (h : Derives .object t) : ∃ u, t = '{' :: (u ++ ['}']) ∧
    ∀ i rest, Brackets.braces.close 1 i (u ++ rest) =
      Brackets.braces.close 1 (i + u.length) rest := by
  cases h with
  | noMembers w => exact ⟨w.text, rfl, fun i rest => Brackets.braces.close_blank 1 i w rest⟩
  | object hmembers =>
    exact ⟨_, rfl, fun i rest => Brackets.braces.close_derives hmembers Nat.one_pos i rest⟩

/-- An object is found up to its own brace. -/
theorem closeAt_object {t : Text} (h : Derives .object t) (rest : Text) :
    closeAt '{' '}' 0 false false 0 (t ++ rest) = some (t.length - 1) := by
  obtain ⟨u, rfl, hu⟩ := object_between h
  have hclose := Brackets.braces.close_whole hu rest
  rw [List.cons_append, List.append_assoc, List.singleton_append, List.length_cons,
    List.length_append, List.length_singleton, Nat.add_sub_cancel]
  exact hclose

/-- What stands in an array: items, or a blank. -/
def Contents (t : Text) : Prop := (∃ w : Blank, t = w.text) ∨ Derives .items t

theorem Contents.derives {t : Text} (h : Contents t) : Derives .value ('[' :: (t ++ [']'])) := by
  rcases h with ⟨w, rfl⟩ | h
  · exact .noItems w
  · exact .array h

/-- From an opened bracket on, an array closes where the search for its bracket says. -/
theorem closeArray_eq {depth : ℕ} (hpos : 0 < depth) (inString escaped : Bool) (i : ℕ) (t : Text) :
    closeArray depth inString escaped i t =
      some (closeAt '[' ']' depth inString escaped i t) := by
  induction t generalizing depth inString escaped i with
  | nil => rfl
  | cons c t ih =>
    have hne : depth ≠ 0 := Nat.pos_iff_ne_zero.mp hpos
    rw [closeArray, closeAt]
    split
    · exact ih hpos _ _ _
    split
    · exact ih hpos _ _ _
    split
    · exact ih hpos _ _ _
    split
    · exact ih (Nat.succ_pos depth) _ _ _
    split
    · split
      · rfl
      · exact ih (by omega) _ _ _
    · exact ih hpos _ _ _

/-- An array is found up to its own bracket. -/
theorem closeArray_array {t : Text} (h : Contents t) (rest : Text) :
    closeArray 0 false false 0 ('[' :: (t ++ ']' :: rest)) = some (some (t.length + 1)) := by
  have hu : ∀ i rest, Brackets.square.close 1 i (t ++ rest) =
      Brackets.square.close 1 (i + t.length) rest := by
    intro i rest
    rcases h with ⟨w, rfl⟩ | h
    · exact Brackets.square.close_blank 1 i w rest
    · exact Brackets.square.close_derives h Nat.one_pos i rest
  have hclose := Brackets.square.close_whole hu rest
  rw [Brackets.close_opening] at hclose
  have hopen : closeArray 0 false false 0 ('[' :: (t ++ ']' :: rest)) =
      closeArray 1 false false 1 (t ++ ']' :: rest) := by
    simp [closeArray]
  rw [hopen, closeArray_eq Nat.one_pos]
  exact congrArg some hclose

end Gateway.Json
