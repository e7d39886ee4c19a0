/-
# The fields that are scanned (`oq-gateway/src/json.rs`)

The key in quotes is looked for from the left, and what is found in a value is passed over. It is
also found where it stands between two strings, from the quote that ends the one to the quote that
begins the next; only punctuation, blanks and bare values stand there (`Gap`). A field is read
whenever its key is no such text (`rawField_text`), and of every object exactly for those keys
(`scanners_read_iff`).
-/
import OpenQuanter.RunRoundTrip
import OpenQuanter.ScannedObjects

namespace Gateway.Json

open JsonText

/-! ## The scan from the left -/

section Scan

variable (key : Text)

/-- What is made of what is behind a match. -/
def behind (goOn : Option Text) (rest : Text) : Option Text :=
  match Text.stripPrefix [':'] (trimStart rest) with
  | none => goOn
  | some rest => some (trimStart rest)

theorem valueAtFrom_unfold (body : Text) (start : ℕ) : valueAtFrom body key start =
    (find (needle key) (body.drop start)).elim none fun n =>
      behind (valueAtFrom body key (n + start + (needle key).length))
        (body.drop (n + start + (needle key).length)) := by
  rw [valueAtFrom]
  split <;> rename_i hfind <;> rw [hfind] <;> rfl

/-- What is behind a position is scanned as if it were all. -/
theorem valueAtFrom_eq (body : Text) (start : ℕ) :
    valueAtFrom body key start = valueAt (body.drop start) key := by
  induction hk : body.length - start using Nat.strong_induction_on generalizing body start with
  | _ k ih =>
    rw [valueAt, valueAtFrom_unfold, valueAtFrom_unfold, List.drop_zero]
    cases hfind : find (needle key) (body.drop start) with
    | none => rfl
    | some n =>
      have hle := find_add_le hfind
      have hpos : 0 < (needle key).length := Nat.succ_pos _
      rw [List.length_drop] at hle
      rw [Option.elim_some, Option.elim_some, ih _ (by omega) body _ rfl,
        ih _ (by rw [List.length_drop]; omega) (body.drop start) _ rfl, List.drop_drop,
        Nat.add_zero, show n + start + (needle key).length = start + (n + (needle key).length) by
          omega]

theorem valueAt_unfold (body : Text) : valueAt body key =
    (find (needle key) body).elim none fun n =>
      behind (valueAt (body.drop (n + (needle key).length)) key)
        (body.drop (n + (needle key).length)) := by
  rw [valueAt, valueAtFrom_unfold, List.drop_zero]
  simp only [valueAtFrom_eq, Nat.add_zero]

theorem valueAt_nil : valueAt [] key = none := by
  rw [valueAt_unfold]
  rfl

/-- Where the key in quotes does not begin, the scan goes on. -/
theorem valueAt_skip {c : Char} {rest : Text} (h : ¬ needle key <+: c :: rest) :
    valueAt (c :: rest) key = valueAt rest key := by
  have hnot : ¬ (needle key).isPrefixOf (c :: rest) = true :=
    fun hbegins => h (List.isPrefixOf_iff_prefix.mp hbegins)
  rw [valueAt_unfold, valueAt_unfold key rest, find, if_neg hnot]
  cases find (needle key) rest with
  | none => rfl
  | some n =>
    rw [Option.map_some, Option.elim_some, Option.elim_some, Nat.add_right_comm,
      List.drop_succ_cons]

/-- Where it begins, what is behind it decides. -/
theorem valueAt_match (rest : Text) :
    valueAt (needle key ++ rest) key = behind (valueAt rest key) rest := by
  have hfind : find (needle key) (needle key ++ rest) = some 0 := by
    rw [needle, List.cons_append, find, if_pos]
    exact List.isPrefixOf_iff_prefix.mpr ⟨rest, rfl⟩
  rw [valueAt_unfold, hfind, Option.elim_some, Nat.zero_add, List.drop_left]

/-- A text without quotes is passed over. -/
theorem valueAt_unquoted {t : Text} (h : '"' ∉ t) (rest : Text) :
    valueAt (t ++ rest) key = valueAt rest key := by
  induction t with
  | nil => rfl
  | cons c t ih =>
    rw [List.mem_cons, not_or] at h
    rw [List.cons_append, valueAt_skip, ih h.2]
    rintro ⟨more, hmore⟩
    exact h.1 (List.cons.inj hmore).1

end Scan

/-! ## Strings -/

/-- A key that is written as it is. -/
structure PlainKey (key : Text) : Prop where
  quote : '"' ∉ key
  backslash : '\\' ∉ key

section Strings

variable {key : Text}

theorem PlainKey.tail {c : Char} (h : PlainKey (c :: key)) : PlainKey key :=
  ⟨fun hc => h.quote (List.mem_cons_of_mem c hc), fun hc => h.backslash (List.mem_cons_of_mem c hc)⟩

theorem needle_prefix_iff {rest : Text} :
    needle key <+: '"' :: rest ↔ key ++ ['"'] <+: rest := by
  rw [needle, List.cons_prefix_cons]
  exact ⟨And.right, fun h => ⟨rfl, h⟩⟩

/-- In a string the key and a quote begin only with the whole string, up to its end. -/
theorem written_eq_of_begins (hplain : PlainKey key) {pieces : List Piece} {rest : Text}
    (h : key ++ ['"'] <+: written pieces ++ '"' :: rest) : written pieces = key := by
  induction pieces generalizing key with
  | nil =>
    cases key with
    | nil => rfl
    | cons c key =>
      have hc := (List.cons_prefix_cons.mp h).1
      exact absurd (hc ▸ List.mem_cons_self) hplain.quote
  | cons piece pieces ih =>
    rw [written, List.flatMap_cons, ← written] at h ⊢
    -- Past a backslash no key goes on.
    have hescaped : ∀ {t u : Text}, key ++ ['"'] <+: '\\' :: t → u = key := by
      intro t u hbegins
      cases key with
      | nil => exact absurd (List.cons_prefix_cons.mp hbegins).1 (by decide)
      | cons c key =>
        have hc := (List.cons_prefix_cons.mp hbegins).1
        exact absurd (hc ▸ List.mem_cons_self) hplain.backslash
    cases piece with
    | escape e => exact hescaped h
    | unicode a b c d _ => exact hescaped h
    | plain c hc =>
      rw [Piece.text, List.singleton_append] at h ⊢
      cases key with
      | nil =>
        rw [← (List.cons_prefix_cons.mp h).1] at hc
        exact absurd hc (by decide)
      | cons d key =>
        obtain ⟨rfl, htail⟩ := List.cons_prefix_cons.mp h
        rw [ih hplain.tail htail]

/-- No colon follows, so what ends here is no key. -/
def NoColon (rest : Text) : Prop := Text.stripPrefix [':'] (trimStart rest) = none

theorem behind_of_noColon {rest : Text} (h : NoColon rest) (goOn : Option Text) :
    behind goOn rest = goOn := by
  rw [behind, h]

/-- A string that is a value is passed over, if its first quote begins it or is escaped in it. -/
theorem valueAt_quote (hplain : PlainKey key) {rest : Text} (hcolon : NoColon rest)
    {pieces : List Piece} (hinside : valueAt (written pieces ++ '"' :: rest) key =
      valueAt rest key) :
    valueAt ('"' :: (written pieces ++ '"' :: rest)) key = valueAt rest key := by
  by_cases hbegins : key ++ ['"'] <+: written pieces ++ '"' :: rest
  · have hshape : '"' :: (key ++ '"' :: rest) = needle key ++ rest := by simp [needle]
    rw [written_eq_of_begins hplain hbegins, hshape, valueAt_match, behind_of_noColon hcolon]
  · rw [valueAt_skip key (mt needle_prefix_iff.mp hbegins), hinside]

theorem quote_not_mem_hex {t : Text} (h : ∀ c ∈ t, isHexDigit c = true) : '"' ∉ t :=
  fun hmem => ne_quote_of_hex (h _ hmem) rfl

theorem valueAt_written (hplain : PlainKey key) {rest : Text} (hcolon : NoColon rest)
    (hgap : ¬ key ++ ['"'] <+: rest) (pieces : List Piece) :
    valueAt (written pieces ++ '"' :: rest) key = valueAt rest key := by
  induction pieces with
  | nil => exact valueAt_skip key (mt needle_prefix_iff.mp hgap)
  | cons piece pieces ih =>
    rw [written, List.flatMap_cons, ← written, List.append_assoc]
    cases piece with
    | plain c hc =>
      refine (valueAt_unquoted key (t := [c]) ?_ _).trans ih
      rintro hmem
      rw [← List.mem_singleton.mp hmem] at hc
      exact absurd hc (by decide)
    | unicode a b c d hhex =>
      refine (valueAt_unquoted key (t := ['\\', 'u', a, b, c, d]) ?_ _).trans ih
      have hnot := quote_not_mem_hex hhex
      simpa using hnot
    | escape e =>
      -- An escaped quote may begin a match, which then ends with the string.
      refine (valueAt_unquoted key (t := ['\\']) (by decide) _).trans ?_
      by_cases he : e = .quote
      · rw [he]
        exact valueAt_quote hplain hcolon ih
      · refine (valueAt_unquoted key (t := [e.letter]) ?_ _).trans ih
        cases e <;> first | exact absurd rfl he | decide

theorem valueAt_string (hplain : PlainKey key) {rest : Text} (hcolon : NoColon rest)
    (hgap : ¬ key ++ ['"'] <+: rest) (pieces : List Piece) :
    valueAt (quoted (written pieces) ++ rest) key = valueAt rest key := by
  have hshape : quoted (written pieces) ++ rest = '"' :: (written pieces ++ '"' :: rest) := by
    simp [quoted]
  rw [hshape]
  exact valueAt_quote hplain hcolon (valueAt_written hplain hcolon hgap pieces)

end Strings

/-! ## Blanks and values -/

theorem isWhitespace_of_blank {c : Char} (h : isBlank c = true) : Text.isWhitespace c = true := by
  simp only [isBlank, Bool.or_eq_true, decide_eq_true_eq] at h
  rcases h with ((rfl | rfl) | rfl) | rfl <;> decide

theorem trimStart_blank (w : Blank) (rest : Text) : trimStart (w.text ++ rest) = trimStart rest :=
  List.dropWhile_append_of_pos fun c hc => isWhitespace_of_blank (w.blank c hc)

theorem trimStart_cons {c : Char} (h : Text.isWhitespace c = false) (rest : Text) :
    trimStart (c :: rest) = c :: rest :=
  List.dropWhile_cons_of_neg (by rw [h]; exact Bool.false_ne_true)

theorem quote_not_mem_blank (w : Blank) : '"' ∉ w.text :=
  fun h => absurd (w.blank _ h) (by decide)

theorem quote_not_mem_bare (b : Bare) : '"' ∉ b.text := fun h => (dull_of_bare h).1 rfl

/-- A bare value begins and ends with no blank, and with none of what ends it. -/
theorem bareChars_spec : ∀ c ∈ bareChars,
    Text.isWhitespace c = false ∧ c ≠ '"' ∧ c ∉ [',', '}', ']'] := by
  simp [bareChars, Text.isWhitespace]

theorem unescapeFrom_plain {c : Char} (hquote : c ≠ '"') (hbackslash : c ≠ '\\') (out t : Text) :
    unescapeFrom out (c :: t) = unescapeFrom (out ++ [c]) t := by
  rw [unescapeFrom.eq_def]
  exact (if_neg hquote).trans (if_neg hbackslash)

theorem unescapeFrom_escape (c : Char) (out t : Text) :
    unescapeFrom out ('\\' :: c :: t) = unescapeFrom (out ++ unescaped c) t := by
  rw [unescapeFrom.eq_def]
  rfl

theorem unescaped_letter (e : Escape) : unescaped e.letter = [e.char] := by
  cases e <;> decide

/-- A string is unescaped up to its closing quote. -/
theorem unescapeFrom_written (pieces : List Piece) (out rest : Text) :
    unescapeFrom out (written pieces ++ '"' :: rest) = some (out ++ said pieces) := by
  induction pieces generalizing out with
  | nil =>
    rw [unescapeFrom.eq_def, said, List.flatMap_nil, List.append_nil]
    rfl
  | cons piece pieces ih =>
    rw [written, List.flatMap_cons, ← written, said, List.flatMap_cons, ← said, List.append_assoc,
      ← List.append_assoc out]
    cases piece with
    | plain c hc =>
      simp only [isPlain, Bool.and_eq_true, decide_eq_true_eq] at hc
      rw [Piece.text, List.singleton_append, unescapeFrom_plain hc.1.1 hc.1.2, ih, Piece.value]
    | escape e =>
      rw [Piece.text, List.cons_append, List.singleton_append, unescapeFrom_escape,
        unescaped_letter, ih, Piece.value]
    | unicode a b c d hhex =>
      -- The letter is none of those that are resolved, and the digits stand for themselves.
      have hplain : ∀ x ∈ [a, b, c, d], ∀ out t,
          unescapeFrom out (x :: t) = unescapeFrom (out ++ [x]) t := fun x hx out t =>
        unescapeFrom_plain (ne_quote_of_hex (hhex x hx)) (ne_backslash_of_hex (hhex x hx)) out t
      rw [Piece.text]
      simp only [List.cons_append, List.nil_append]
      rw [unescapeFrom_escape, hplain a (by simp), hplain b (by simp), hplain c (by simp),
        hplain d (by simp), ih, Piece.value, show unescaped 'u' = ['\\', 'u'] by decide]
      simp

/-- What may be behind a member. -/
def Ends (rest : Text) : Prop := ∃ c t, rest = c :: t ∧ (c = ',' ∨ c = '}')

theorem noColon_of_ends {rest : Text} (h : Ends rest) (w : Blank) : NoColon (w.text ++ rest) := by
  obtain ⟨c, t, rfl, rfl | rfl⟩ := h <;>
  · rw [NoColon, trimStart_blank, trimStart_cons (by decide)]
    rfl

theorem not_mem_ends_of_blank {c : Char} (h : isBlank c = true) : c ∉ [',', '}', ']'] := by
  simp only [isBlank, Bool.or_eq_true, decide_eq_true_eq] at h
  rcases h with ((rfl | rfl) | rfl) | rfl <;> decide

theorem takeWhile_of_ends {rest : Text} (h : Ends rest) :
    (rest.takeWhile fun d => d ∉ [',', '}', ']']) = [] := by
  obtain ⟨c, t, rfl, rfl | rfl⟩ := h <;> rfl

theorem trimEnd_blank (w : Blank) : Text.trimEnd w.text = [] :=
  List.rdropWhile_eq_nil_iff.mpr fun c hc => isWhitespace_of_blank (w.blank c hc)

/-- A value is read as what it says. -/
theorem valueOf_scalar (s : Scalar) (v w : Blank) {rest : Text} (h : Ends rest) :
    valueOf (trimStart (v.text ++ (s.text ++ (w.text ++ rest)))) = some s.value := by
  rw [trimStart_blank]
  cases s with
  | string pieces =>
    have hshape : Scalar.text (.string pieces) ++ (w.text ++ rest) =
        '"' :: (written pieces ++ '"' :: (w.text ++ rest)) := by simp [Scalar.text, quoted]
    rw [hshape, trimStart_cons (by decide)]
    exact unescapeFrom_written pieces [] _
  | bare b =>
    obtain ⟨c, t, hb⟩ := List.exists_cons_of_ne_nil b.text_ne_nil
    have hchars : ∀ d ∈ b.text, _ := fun d hd => bareChars_spec d (Bare.text_mem hd)
    have hfirst := hchars c (hb ▸ List.mem_cons_self)
    have hend : Text.trim ((b.text ++ (w.text ++ rest)).takeWhile fun d => d ∉ [',', '}', ']']) =
        b.text := by
      rw [List.takeWhile_append_of_pos fun d hd => decide_eq_true (hchars d hd).2.2,
        List.takeWhile_append_of_pos fun d hd => decide_eq_true (not_mem_ends_of_blank
          (w.blank d hd)), takeWhile_of_ends h, List.append_nil, Text.trim, hb, List.cons_append,
        List.dropWhile_cons_of_neg (by rw [hfirst.1]; exact Bool.false_ne_true),
        ← List.cons_append, ← hb, Text.trimEnd_append, trimEnd_blank, if_pos rfl,
        Text.trimEnd_of_plain fun d hd => (hchars d hd).1]
    have hbare : Text.stripPrefix ['"'] (b.text ++ (w.text ++ rest)) = none := by
      rw [hb, Text.stripPrefix, if_neg]
      simpa [List.isPrefixOf] using hfirst.2.1.symm
    rw [Scalar.text, Scalar.value]
    conv_lhs => rw [hb, List.cons_append, trimStart_cons hfirst.1, ← List.cons_append, ← hb]
    rw [valueOf, hbare]
    exact congrArg some hend

/-! ## Members -/

/-- What follows a member. -/
def following (tail : Text) : List Member → Text
  | [] => tail
  | m :: ms => ',' :: (m.text ++ following tail ms)

theorem separated_append (none : Blank) (m : Member) (ms : List Member) (tail : Text) :
    separated none ((m :: ms).map Member.text) ++ tail = m.text ++ following tail ms := by
  induction ms generalizing m with
  | nil => rfl
  | cons n ms ih =>
    have hn := ih n
    rw [List.map_cons] at hn
    rw [List.map_cons, List.map_cons, separated, List.append_assoc, List.cons_append, hn]
    rfl

theorem ends_following {tail : Text} (h : Ends tail) (ms : List Member) :
    Ends (following tail ms) := by
  cases ms with
  | nil => exact h
  | cons m ms => exact ⟨',', _, rfl, .inl rfl⟩

/-- What stands between a key and its value. -/
def colon (m : Member) : Text := m.afterKey.text ++ ':' :: m.beforeValue.text

/-- What stands between the strings of some members, from the end of the one to the beginning of
the next. -/
def gaps : List Member → List Text
  | [] => []
  | m :: ms =>
    let commas := ms.head?.toList.map fun n => m.after.text ++ ',' :: n.before.text
    (match m.value with
      | .string _ => colon m :: commas
      | .bare b => commas.map fun t => colon m ++ (b.text ++ t)) ++ gaps ms

section Gaps

variable {key : Text}

theorem takeWhile_quote {t : Text} (ht : '"' ∉ t) (rest : Text) :
    (t ++ '"' :: rest).takeWhile (· ≠ '"') = t := by
  have hbefore : ∀ c ∈ t, decide (c ≠ '"') = true := by
    intro c hc
    refine decide_eq_true ?_
    rintro rfl
    exact ht hc
  rw [List.takeWhile_append_of_pos hbefore, List.takeWhile_cons_of_neg (by decide),
    List.append_nil]

/-- What ends at the next quote is all that stands before it. -/
theorem eq_of_begins (hplain : PlainKey key) {t rest : Text} (ht : '"' ∉ t)
    (h : key ++ ['"'] <+: t ++ '"' :: rest) : key = t := by
  obtain ⟨more, hmore⟩ := h
  rw [List.append_assoc, List.singleton_append] at hmore
  have htake := congrArg (List.takeWhile (· ≠ '"')) hmore
  rw [takeWhile_quote hplain.quote, takeWhile_quote ht] at htake
  exact htake

theorem not_prefix_of_unquoted {t : Text} (ht : '"' ∉ t) : ¬ key ++ ['"'] <+: t :=
  fun h => ht (h.subset (List.mem_append_right key (List.mem_singleton_self '"')))

variable {m : Member} {ms : List Member} {tail : Text}

theorem quote_not_mem_colon (m : Member) : '"' ∉ colon m := by
  simp [colon, quote_not_mem_blank]

/-- A member in front of a text, quote by quote. -/
theorem member_append (m : Member) (rest : Text) : m.text ++ rest =
    m.before.text ++ '"' :: (m.key ++ '"' ::
      (colon m ++ (m.value.text ++ (m.after.text ++ rest)))) := by
  simp [Member.text, quoted, colon]

theorem following_cons (tail : Text) (n : Member) (ms : List Member) :
    ∃ rest, following tail (n :: ms) = ',' :: (n.before.text ++ '"' :: rest) :=
  ⟨_, congrArg (',' :: ·) (member_append n _)⟩

/-- Behind a string the key is found if it is what stands there up to the next string. -/
theorem not_prefix_after (ms : List Member) (hplain : PlainKey key) {t : Text} (ht : '"' ∉ t)
    (htail : '"' ∉ tail) (hgap : ∀ n ∈ ms.head?, key ≠ t ++ ',' :: n.before.text) :
    ¬ key ++ ['"'] <+: t ++ following tail ms := by
  cases ms with
  | nil =>
    refine not_prefix_of_unquoted ?_
    rw [List.mem_append, not_or]
    exact ⟨ht, htail⟩
  | cons n ms =>
    obtain ⟨rest, hrest⟩ := following_cons tail n ms
    intro h
    have hunquoted : '"' ∉ t ++ ',' :: n.before.text := by simp [ht, quote_not_mem_blank]
    rw [hrest, ← List.cons_append, ← List.append_assoc] at h
    exact hgap n rfl (eq_of_begins hplain hunquoted h)

/-- The key of a member is passed over if it is another and none is found behind it. -/
theorem valueAt_otherKey (hplain : PlainKey key) (hne : m.key ≠ key) {rest : Text}
    (hclose : ¬ key ++ ['"'] <+: rest) :
    valueAt (m.before.text ++ '"' :: (m.key ++ '"' :: rest)) key = valueAt rest key := by
  have hopen : ¬ key ++ ['"'] <+: m.key ++ '"' :: rest := by
    intro h
    have hkey := written_plainPieces m.key m.plain
    rw [← hkey] at h
    exact hne (hkey.symm.trans (written_eq_of_begins hplain h))
  have hunquoted : '"' ∉ m.key := fun h => absurd (m.plain _ h) (by decide)
  rw [valueAt_unquoted key (quote_not_mem_blank m.before),
    valueAt_skip key (mt needle_prefix_iff.mp hopen), valueAt_unquoted key hunquoted,
    valueAt_skip key (mt needle_prefix_iff.mp hclose)]

/-- What stands between the last quote of a member and its end. -/
def lastGap (m : Member) : Text :=
  match m.value with
  | .string _ => m.after.text
  | .bare b => colon m ++ (b.text ++ m.after.text)

theorem quote_not_mem_lastGap (m : Member) : '"' ∉ lastGap m := by
  unfold lastGap
  split
  · exact quote_not_mem_blank m.after
  · simp [quote_not_mem_colon, quote_not_mem_bare, quote_not_mem_blank]

/-- A member with another key is passed over, unless what stands between two quotes is the key. -/
theorem valueAt_past (hplain : PlainKey key) (hne : m.key ≠ key) {rest : Text} (hends : Ends rest)
    (hcolon : ∀ pieces, m.value = .string pieces → key ≠ colon m)
    (hlast : ¬ key ++ ['"'] <+: lastGap m ++ rest) :
    valueAt (m.text ++ rest) key = valueAt rest key := by
  have hunquoted := quote_not_mem_colon m
  have hafter := quote_not_mem_blank m.after
  rw [member_append]
  cases hvalue : m.value with
  | string pieces =>
    -- Two gaps: from the key to its value, and from the value on.
    have hclose : ¬ key ++ ['"'] <+:
        colon m ++ (Scalar.text (.string pieces) ++ (m.after.text ++ rest)) := by
      intro h
      have hshape : Scalar.text (.string pieces) ++ (m.after.text ++ rest) =
          '"' :: (written pieces ++ ['"'] ++ (m.after.text ++ rest)) := rfl
      rw [hshape] at h
      exact hcolon pieces hvalue (eq_of_begins hplain hunquoted h)
    have hend : ¬ key ++ ['"'] <+: m.after.text ++ rest := by
      simpa only [lastGap, hvalue] using hlast
    rw [valueAt_otherKey hplain hne hclose, valueAt_unquoted key hunquoted, Scalar.text,
      valueAt_string hplain (noColon_of_ends hends m.after) hend, valueAt_unquoted key hafter]
  | bare b =>
    -- One gap, from the key past its value.
    have hbare : '"' ∉ colon m ++ (b.text ++ m.after.text) := by
      simp [hunquoted, quote_not_mem_bare, hafter]
    have hclose : ¬ key ++ ['"'] <+:
        colon m ++ (Scalar.text (.bare b) ++ (m.after.text ++ rest)) := by
      simpa [lastGap, hvalue, Scalar.text] using hlast
    rw [valueAt_otherKey hplain hne hclose, Scalar.text, ← List.append_assoc b.text,
      ← List.append_assoc, valueAt_unquoted key hbare]

/-- A member with another key is passed over. -/
theorem valueAt_miss (hplain : PlainKey key) (htail : Ends tail) (hunquoted : '"' ∉ tail)
    (hne : m.key ≠ key) (hgaps : key ∉ gaps (m :: ms)) :
    valueAt (m.text ++ following tail ms) key = valueAt (following tail ms) key := by
  have hgap := quote_not_mem_lastGap m
  rw [gaps, List.mem_append, not_or] at hgaps
  refine valueAt_past hplain hne (ends_following htail ms) ?_ ?_
  · intro pieces hvalue heq
    refine hgaps.1 ?_
    simp [hvalue, heq]
  · refine not_prefix_after ms hplain hgap hunquoted fun n hn heq => hgaps.1 ?_
    rw [lastGap] at heq
    cases hvalue : m.value with
    | string pieces => simp_all
    | bare b => simp_all

theorem rawFieldFrom_unfold (body key : Text) (start : ℕ) : rawFieldFrom body key start =
    (find (needle key) (body.drop start)).elim none fun n =>
      match Text.stripPrefix [':'] (trimStart (body.drop (n + start + (needle key).length))) with
      | none => rawFieldFrom body key (n + start + (needle key).length)
      | some rest => valueOf (trimStart rest) := by
  rw [rawFieldFrom]
  split <;> rename_i hfind <;> rw [hfind] <;> rfl

/-- What is read is what the value at the key says. -/
theorem rawFieldFrom_eq (body key : Text) (start : ℕ) :
    rawFieldFrom body key start = (valueAtFrom body key start).bind valueOf := by
  induction hk : body.length - start using Nat.strong_induction_on generalizing start with
  | _ k ih =>
    rw [rawFieldFrom_unfold, valueAtFrom_unfold]
    cases hfind : find (needle key) (body.drop start) with
    | none => rfl
    | some n =>
      have hle := find_add_le hfind
      have hpos : 0 < (needle key).length := Nat.succ_pos _
      rw [List.length_drop] at hle
      rw [Option.elim_some, Option.elim_some, behind]
      split
      · exact ih _ (by omega) _ rfl
      · rfl

theorem rawField_eq (body key : Text) : rawField body key = (valueAt body key).bind valueOf :=
  rawFieldFrom_eq body key 0

theorem rawField_congr {body other : Text} (h : valueAt body key = valueAt other key) :
    rawField body key = rawField other key := by
  rw [rawField_eq, rawField_eq, h]

theorem rawField_none {t : Text} (h : '"' ∉ t) : rawField t key = none := by
  have hvalue := valueAt_unquoted key h []
  rw [List.append_nil, valueAt_nil] at hvalue
  rw [rawField_eq, hvalue]
  rfl

/-- The member that has the key is read. -/
theorem rawField_hit (hends : Ends tail) (hkey : m.key = key) :
    rawField (m.text ++ following tail ms) key = some m.value.value := by
  have hshape : m.text ++ following tail ms = m.before.text ++ (needle key ++
      (m.afterKey.text ++ ':' :: (m.beforeValue.text ++ (m.value.text ++ (m.after.text ++
        following tail ms))))) := by
    rw [member_append, hkey]
    simp [needle, colon]
  have hcolon : Text.stripPrefix [':'] (trimStart (m.afterKey.text ++ ':' ::
      (m.beforeValue.text ++ (m.value.text ++ (m.after.text ++ following tail ms))))) =
      some (m.beforeValue.text ++ (m.value.text ++ (m.after.text ++ following tail ms))) := by
    rw [trimStart_blank, trimStart_cons (by decide)]
    rfl
  rw [hshape, rawField_eq, valueAt_unquoted key (quote_not_mem_blank m.before), valueAt_match,
    behind, hcolon]
  exact valueOf_scalar m.value m.beforeValue m.after (ends_following hends ms)

end Gaps

/-! ## Objects -/

/-- What a flat object says of a key: the value of the first member that has it. -/
def fieldOf (o : FlatObject) (key : Text) : Option Text :=
  (o.members.find? fun m => m.key = key).map fun m => m.value.value

/-- A text that may stand between two strings of an object. -/
inductive Gap : Text → Prop
  | colon (v w : Blank) : Gap (v.text ++ ':' :: w.text)
  | comma (v w : Blank) : Gap (v.text ++ ',' :: w.text)
  | bare (v w x y : Blank) (b : Bare) :
      Gap ((v.text ++ ':' :: w.text) ++ (b.text ++ (x.text ++ ',' :: y.text)))

theorem gap_of_mem {t : Text} {ms : List Member} (h : t ∈ gaps ms) : Gap t := by
  induction ms with
  | nil => cases h
  | cons m ms ih =>
    rw [gaps, List.mem_append] at h
    rcases h with h | h
    · cases hvalue : m.value with
      | string pieces =>
        simp only [hvalue, List.mem_cons, List.mem_map, Option.mem_toList] at h
        rcases h with rfl | ⟨n, -, rfl⟩
        · exact .colon m.afterKey m.beforeValue
        · exact .comma m.after n.before
      | bare b =>
        simp only [hvalue, List.mem_map, Option.mem_toList, exists_exists_and_eq_and] at h
        obtain ⟨n, -, rfl⟩ := h
        exact .bare m.afterKey m.beforeValue m.after n.before b
    · exact ih h

section Objects

variable {key : Text}

theorem rawField_members (hplain : PlainKey key) {tail : Text} (htail : Ends tail)
    (hunquoted : '"' ∉ tail) {m : Member} {ms : List Member} (hgaps : key ∉ gaps (m :: ms)) :
    rawField (m.text ++ following tail ms) key =
      ((m :: ms).find? fun m => m.key = key).map fun m => m.value.value := by
  induction ms generalizing m with
  | nil =>
    by_cases hkey : m.key = key
    · rw [rawField_hit htail hkey, List.find?_cons_of_pos (by simpa using hkey), Option.map_some]
    · have hnone : rawField tail key = none := by
        exact rawField_none hunquoted
      rw [rawField_congr (valueAt_miss hplain htail hunquoted hkey hgaps),
        List.find?_cons_of_neg (by simpa using hkey)]
      exact hnone
  | cons n ms ih =>
    by_cases hkey : m.key = key
    · rw [rawField_hit htail hkey, List.find?_cons_of_pos (by simpa using hkey), Option.map_some]
    · have hlater : key ∉ gaps (n :: ms) := by
        rw [gaps, List.mem_append, not_or] at hgaps
        exact hgaps.2
      have hcomma : rawField (following tail (n :: ms)) key =
          rawField (n.text ++ following tail ms) key :=
        rawField_congr (valueAt_unquoted key (t := [',']) (by decide) _)
      rw [rawField_congr (valueAt_miss hplain htail hunquoted hkey hgaps),
        List.find?_cons_of_neg (by simpa using hkey), hcomma, ih hlater]

/-- A field is read if its key is nothing that stands between two strings. -/
theorem rawField_text (hplain : PlainKey key) (o : FlatObject) (hgaps : key ∉ gaps o.members) :
    rawField o.text key = fieldOf o key := by
  have hlead : '"' ∉ o.lead.text ++ ['{'] := by simp [quote_not_mem_blank]
  have hshape : o.text = (o.lead.text ++ ['{']) ++
      (separated o.none (o.members.map Member.text) ++ ('}' :: o.trail.text)) := by
    simp [FlatObject.text, FlatObject.core]
  have htail : '"' ∉ '}' :: o.trail.text := by simp [quote_not_mem_blank]
  rw [hshape, rawField_congr (valueAt_unquoted key hlead _), fieldOf]
  cases hmembers : o.members with
  | nil =>
    have hunquoted : '"' ∉ o.none.text ++ '}' :: o.trail.text := by simp [quote_not_mem_blank]
    exact rawField_none hunquoted
  | cons m ms =>
    rw [hmembers] at hgaps
    rw [separated_append]
    exact rawField_members hplain ⟨'}', _, rfl, .inr rfl⟩ htail hgaps

end Objects

/-- A name has no punctuation, so its field is read of every object. -/
theorem rawField_name {key : Text} (hplain : PlainKey key) (hcolon : ':' ∉ key) (hcomma : ',' ∉ key)
    (o : FlatObject) : rawField o.text key = fieldOf o key := by
  refine rawField_text hplain o fun hmem => ?_
  cases gap_of_mem hmem with
  | colon v w => exact hcolon (by simp)
  | comma v w => exact hcomma (by simp)
  | bare v w x y b => exact hcolon (by simp)

/-! ## Keys that are punctuation -/

section Punctuation

variable {key : Text}

/-- Where punctuation is taken for the key, a string that begins with a colon is taken for what
follows the key. -/
theorem rawField_colon (key rest : Text) :
    (rawField (needle key ++ ':' :: '1' :: rest) key).isSome = true := by
  have hcolon : Text.stripPrefix [':'] (trimStart (':' :: '1' :: rest)) = some ('1' :: rest) := by
    rw [trimStart_cons (by decide)]
    rfl
  rw [rawField_eq, valueAt_match, behind, hcolon, Option.bind_some]
  rw [trimStart_cons (by decide), valueOf]
  rfl

/-- From one quote to the next, past a text that is not the key. -/
theorem valueAt_hop (hplain : PlainKey key) {t : Text} (ht : '"' ∉ t) (hne : key ≠ t)
    (rest : Text) : valueAt ('"' :: (t ++ '"' :: rest)) key = valueAt ('"' :: rest) key := by
  have hnot : ¬ key ++ ['"'] <+: t ++ '"' :: rest := fun h => hne (eq_of_begins hplain ht h)
  rw [valueAt_skip key (mt needle_prefix_iff.mp hnot), valueAt_unquoted key ht]

theorem backslash_not_mem_blank (w : Blank) : '\\' ∉ w.text :=
  fun h => absurd (w.blank _ h) (by decide)

theorem Gap.plain (h : Gap key) : PlainKey key := by
  have hbare : ∀ b : Bare, '\\' ∉ b.text := fun b h => (dull_of_bare h).2.1 rfl
  cases h <;> constructor <;>
    simp [quote_not_mem_blank, backslash_not_mem_blank, quote_not_mem_bare, hbare]

/-- The member `"a":`, with blanks around the colon, and a value. -/
def memberA (v w : Blank) (value : Scalar) (x : Blank) : Member :=
  ⟨.none, ['a'], by simp [isPlain], v, w, value, x⟩

/-- The member `":1":null`, behind a blank. -/
def memberColon (y : Blank) : Member :=
  ⟨y, [':', '1'], by simp [isPlain], .none, .none, .bare .null, .none⟩

def objectOf (ms : List Member) : FlatObject := ⟨.none, .none, ms, .none⟩

theorem fieldOf_none {o : FlatObject} (h : ∀ m ∈ o.members, m.key ≠ key) :
    fieldOf o key = none := by
  rw [fieldOf, List.find?_eq_none.mpr fun m hm => by simpa using h m hm]
  rfl

/-- An object without the key of which a field is read. -/
theorem misread {o : FlatObject} (rest : Text) (hnone : ∀ m ∈ o.members, m.key ≠ key)
    (htext : valueAt o.text key = valueAt ('"' :: (key ++ '"' :: ':' :: '1' :: rest)) key) :
    rawField o.text key ≠ fieldOf o key := by
  have hmatch : '"' :: (key ++ '"' :: ':' :: '1' :: rest) = needle key ++ ':' :: '1' :: rest := by
    simp [needle]
  have hsome := rawField_colon key rest
  rw [← hmatch, ← rawField_congr htext] at hsome
  intro heq
  rw [heq, fieldOf_none hnone] at hsome
  cases hsome

theorem valueAt_begin (key rest : Text) :
    valueAt ('{' :: '"' :: rest) key = valueAt ('"' :: rest) key :=
  valueAt_unquoted key (t := ['{']) (by decide) _

theorem ne_of_mem {c : Char} {t : Text} (hc : c ∈ key) (ht : c ∉ t) : key ≠ t := by
  rintro rfl
  exact ht hc

/-- `{"a":":1"}` -/
def colonObject (v w : Blank) : FlatObject :=
  objectOf [memberA v w (.string (plainPieces [':', '1'] (by simp [isPlain]))) .none]

/-- `{"a":"b",":1":null}` -/
def commaObject (v w : Blank) : FlatObject :=
  objectOf [memberA .none .none (.string (plainPieces ['b'] (by simp [isPlain]))) v, memberColon w]

/-- `{"a":1,":1":null}`, with any bare value. -/
def bareObject (v w x y : Blank) (b : Bare) : FlatObject :=
  objectOf [memberA v w (.bare b) x, memberColon y]

theorem text_colonObject (v w : Blank) : (colonObject v w).text =
    '{' :: '"' :: (['a'] ++ '"' :: ((v.text ++ ':' :: w.text) ++ '"' :: ':' :: '1' ::
      ['"', '}'])) := by
  simp [colonObject, objectOf, FlatObject.text, FlatObject.core, separated, Member.text, memberA,
    quoted, Scalar.text, written_plainPieces, Blank.none]

theorem text_commaObject (v w : Blank) : (commaObject v w).text =
    '{' :: '"' :: (['a'] ++ '"' :: ([':'] ++ '"' :: (['b'] ++ '"' :: ((v.text ++ ',' :: w.text) ++
      '"' :: ':' :: '1' :: "\":null\x7d".toList)))) := by
  simp [commaObject, objectOf, FlatObject.text, FlatObject.core, separated, Member.text, memberA,
    memberColon, quoted, Scalar.text, written_plainPieces, Blank.none, Bare.text]

theorem text_bareObject (v w x y : Blank) (b : Bare) : (bareObject v w x y b).text =
    '{' :: '"' :: (['a'] ++ '"' :: (((v.text ++ ':' :: w.text) ++ (b.text ++ (x.text ++ ',' ::
      y.text))) ++ '"' :: ':' :: '1' :: "\":null\x7d".toList)) := by
  simp [bareObject, objectOf, FlatObject.text, FlatObject.core, separated, Member.text, memberA,
    memberColon, quoted, Scalar.text, Blank.none, Bare.text]

/-- An object in which this punctuation is taken for a key. -/
theorem exists_misread (h : Gap key) : ∃ o : FlatObject, rawField o.text key ≠ fieldOf o key := by
  have hplain := h.plain
  cases h with
  | colon v w =>
    have hcolon : ':' ∈ v.text ++ ':' :: w.text := by simp
    have ha := ne_of_mem (t := ['a']) hcolon (by decide)
    refine ⟨colonObject v w, misread ['"', '}'] ?_ ?_⟩
    · exact List.forall_mem_cons.mpr ⟨ha.symm, fun m hm => nomatch hm⟩
    · rw [text_colonObject, valueAt_begin, valueAt_hop hplain (by decide) ha]
  | comma v w =>
    have hcomma : ',' ∈ v.text ++ ',' :: w.text := by simp
    have ha := ne_of_mem (t := ['a']) hcomma (by decide)
    have hb := ne_of_mem (t := ['b']) hcomma (by decide)
    have hcolon := ne_of_mem (t := [':']) hcomma (by decide)
    have hkey := ne_of_mem (t := [':', '1']) hcomma (by decide)
    refine ⟨commaObject v w, misread "\":null\x7d".toList ?_ ?_⟩
    · exact List.forall_mem_cons.mpr ⟨ha.symm, List.forall_mem_cons.mpr
        ⟨hkey.symm, fun m hm => nomatch hm⟩⟩
    · rw [text_commaObject, valueAt_begin, valueAt_hop hplain (by decide) ha,
        valueAt_hop hplain (by decide) hcolon, valueAt_hop hplain (by decide) hb]
  | bare v w x y b =>
    have hcomma : ',' ∈ v.text ++ ':' :: w.text ++ (b.text ++ (x.text ++ ',' :: y.text)) := by
      simp
    have ha := ne_of_mem (t := ['a']) hcomma (by decide)
    have hkey := ne_of_mem (t := [':', '1']) hcomma (by decide)
    refine ⟨bareObject v w x y b, misread "\":null\x7d".toList ?_ ?_⟩
    · exact List.forall_mem_cons.mpr ⟨ha.symm, List.forall_mem_cons.mpr
        ⟨hkey.symm, fun m hm => nomatch hm⟩⟩
    · rw [text_bareObject, valueAt_begin, valueAt_hop hplain (by decide) ha]

end Punctuation

/-- **The scanners read what the document says**: an array of objects always, and the field of a
flat object if its key is not what stands between two strings of the object; of all objects so
exactly if the key is nothing that can stand there. -/
theorem scanners_read_iff (key : Text) (hplain : PlainKey key) :
    (∀ a : ObjectArray, objects a.text = a.items.map Item.object) ∧
    (∀ o : FlatObject, key ∉ gaps o.members → rawField o.text key = fieldOf o key) ∧
    ((∀ o : FlatObject, rawField o.text key = fieldOf o key) ↔ ¬ Gap key) := by
  refine ⟨objects_text, fun o hgaps => rawField_text hplain o hgaps, ?_⟩
  constructor
  · intro hreads hgap
    obtain ⟨o, ho⟩ := exists_misread hgap
    exact ho (hreads o)
  · intro hnot o
    exact rawField_text hplain o fun hmem => hnot (gap_of_mem hmem)

/-- The key of a venue's contract is no punctuation. -/
theorem scanners_read_iff_symbol :
    (∀ a : ObjectArray, objects a.text = a.items.map Item.object) ∧
    (∀ o : FlatObject, "symbol".toList ∉ gaps o.members →
      rawField o.text "symbol".toList = fieldOf o "symbol".toList) ∧
    ((∀ o : FlatObject, rawField o.text "symbol".toList = fieldOf o "symbol".toList) ↔
      ¬ Gap "symbol".toList) :=
  scanners_read_iff "symbol".toList ⟨by decide, by decide⟩

/-- In `{"a":":1"}` the colon between the two strings is taken for a key. -/
theorem not_scanners_read : ¬ ∀ (key : Text) (o : FlatObject), PlainKey key →
    rawField o.text key = (o.members.find? fun m => m.key = key).map fun m => m.value.value := by
  intro hreads
  have hread := hreads [':'] (colonObject .none .none) ⟨by decide, by decide⟩
  have htext : (colonObject .none .none).text = "\x7b\"a\":\":1\"\x7d".toList := by
    rw [text_colonObject]
    rfl
  rw [htext] at hread
  revert hread
  decide +kernel

end Gateway.Json
