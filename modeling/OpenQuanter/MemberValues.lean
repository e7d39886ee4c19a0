/-
# The objects and arrays that are members (`oq-gateway/src/json.rs`)

A member's object is found unless something before the member is taken for its key, which the scan
for objects lets pass when no colon follows; the scan for arrays stops there. So whatever the object
is, it is found exactly if what is before the member is passed over (`PassedOver`), and whatever
the array is, exactly if the key in quotes occurs nowhere before (`members_found_iff`). A name is
passed over everywhere (`objectField_name`).
-/
import OpenQuanter.EnclosingObjects

namespace Gateway.Json

open JsonText

/-! ## What is before the key -/

/-- Read from the left, nothing in a text is taken for the key: no match of the key in quotes is
followed by a colon, and none ends with the quote behind the text. -/
inductive PassedOver (key : Text) : Text → Prop
  | done : PassedOver key []
  | skip {c : Char} {t : Text} : ¬ needle key <+: c :: (t ++ ['"']) → PassedOver key t →
      PassedOver key (c :: t)
  | pass {t : Text} : NoColon (t ++ ['"']) → PassedOver key t → PassedOver key (needle key ++ t)

section Quotes

variable {key : Text}

/-- No blank goes past a quote. -/
theorem trimStart_quote (t : Text) :
    ∃ u, ∀ more, trimStart (t ++ '"' :: more) = u ++ '"' :: more := by
  induction t with
  | nil => exact ⟨[], fun more => trimStart_cons (by decide) more⟩
  | cons c t ih =>
    cases hblank : Text.isWhitespace c with
    | true =>
      obtain ⟨u, hu⟩ := ih
      refine ⟨u, fun more => ?_⟩
      rw [← hu more]
      exact List.dropWhile_cons_of_pos hblank
    | false => exact ⟨c :: t, fun more => trimStart_cons hblank _⟩

/-- Whether a colon follows is settled up to the next quote. -/
theorem behind_quote (t : Text) : (∀ more, NoColon (t ++ '"' :: more)) ∨
    ∃ u, ∀ goOn more, behind goOn (t ++ '"' :: more) = some (u ++ '"' :: more) := by
  obtain ⟨u, hu⟩ := trimStart_quote t
  cases u with
  | nil =>
    left
    intro more
    rw [NoColon, hu]
    rfl
  | cons c u =>
    by_cases hc : c = ':'
    · right
      obtain ⟨v, hv⟩ := trimStart_quote u
      refine ⟨v, fun goOn more => ?_⟩
      rw [behind, hu, hc, ← hv more]
      rfl
    · left
      intro more
      rw [NoColon, hu, Text.stripPrefix, if_neg]
      simpa [List.isPrefixOf] using Ne.symm hc

theorem noColon_quote {t : Text} (h : NoColon (t ++ ['"'])) (more : Text) :
    NoColon (t ++ '"' :: more) := by
  rcases behind_quote t with hnot | ⟨u, hu⟩
  · exact hnot more
  · have hnone := behind_of_noColon h none
    rw [hu none []] at hnone
    cases hnone

/-- A key without quotes ends with the next quote at the latest. -/
theorem begins_quote (hkey : '"' ∉ key) {t more : Text} (h : key ++ ['"'] <+: t ++ '"' :: more) :
    key ++ ['"'] <+: t ++ ['"'] := by
  induction t generalizing key with
  | nil =>
    cases key with
    | nil => exact List.prefix_refl _
    | cons c key => exact absurd ((List.cons_prefix_cons.mp h).1 ▸ List.mem_cons_self) hkey
  | cons d t ih =>
    cases key with
    | nil =>
      rw [List.nil_append, List.cons_append, List.cons_prefix_cons] at h
      rw [List.nil_append, List.cons_append, List.cons_prefix_cons]
      exact ⟨h.1, List.nil_prefix⟩
    | cons c key =>
      obtain ⟨rfl, htail⟩ := List.cons_prefix_cons.mp h
      exact List.cons_prefix_cons.mpr ⟨rfl, ih (fun hc => hkey (List.mem_cons_of_mem c hc)) htail⟩

theorem needle_quote (hkey : '"' ∉ key) {c : Char} {t more : Text}
    (h : needle key <+: c :: (t ++ '"' :: more)) : needle key <+: c :: (t ++ ['"']) := by
  rw [needle, List.cons_prefix_cons] at h ⊢
  exact ⟨h.1, begins_quote hkey h.2⟩

theorem needle_append (key more : Text) : needle key ++ more = '"' :: (key ++ '"' :: more) := by
  simp [needle]

/-- The two ways in which the key in quotes begins in a text that a quote follows: it is a part of
the text, or ends with the quote. -/
theorem match_cases {c : Char} {t : Text} (h : needle key <+: c :: (t ++ ['"'])) :
    (∃ u, c :: t = needle key ++ u) ∨ c :: t = '"' :: key := by
  obtain ⟨r, hr⟩ := h
  rw [← List.cons_append] at hr
  rcases List.eq_nil_or_concat r with rfl | ⟨u, d, rfl⟩
  · right
    rw [List.append_nil, needle, ← List.cons_append] at hr
    exact (List.append_inj_left' hr rfl).symm
  · left
    refine ⟨u, ?_⟩
    rw [List.concat_eq_append, ← List.append_assoc] at hr
    exact (List.append_inj_left' hr rfl).symm

end Quotes

/-! ## The scan that goes on -/

section GoesOn

variable {key : Text}

/-- Behind what is passed over, the key is read. -/
theorem valueAt_passedOver (hplain : PlainKey key) {t : Text} (h : PassedOver key t)
    (more : Text) :
    valueAt (t ++ (needle key ++ more)) key = behind (valueAt more key) more := by
  induction h with
  | done => exact valueAt_match key more
  | skip hnot _ ih =>
    rw [List.cons_append, valueAt_skip, ih]
    rw [needle_append]
    exact fun hbegins => hnot (needle_quote hplain.quote hbegins)
  | pass hcolon _ ih =>
    rw [List.append_assoc, valueAt_match, ← ih, needle_append]
    exact behind_of_noColon (noColon_quote hcolon _) _

/-- What is not passed over is taken for the key, with a quote of it still to come, or takes the
first quote of the key with it. -/
theorem taken_of_not_passedOver (hplain : PlainKey key) {t : Text} (h : ¬ PassedOver key t) :
    (∃ u, ∀ more, valueAt (t ++ (needle key ++ more)) key = some (u ++ '"' :: more)) ∨
    ((∀ more, NoColon (key ++ '"' :: more)) ∧ ∀ more,
      valueAt (t ++ (needle key ++ more)) key = valueAt (key ++ '"' :: more) key) := by
  -- Over the length, as a match that is passed over is skipped as a whole.
  induction hk : t.length using Nat.strong_induction_on generalizing t with
  | _ k ih =>
    cases t with
    | nil => exact absurd .done h
    | cons c t =>
      by_cases hbegins : needle key <+: c :: (t ++ ['"'])
      · rcases match_cases hbegins with ⟨u, hu⟩ | hu
        · rw [hu] at h hk ⊢
          have hlength : u.length < k := by
            rw [← hk, List.length_append, needle, List.length_cons]
            omega
          rcases behind_quote u with hcolon | ⟨v, hv⟩
          · have hu' : ¬ PassedOver key u := fun hpassed => h (.pass (hcolon []) hpassed)
            have hgoOn : ∀ more, valueAt (needle key ++ u ++ (needle key ++ more)) key =
                valueAt (u ++ (needle key ++ more)) key := by
              intro more
              rw [List.append_assoc, valueAt_match]
              refine behind_of_noColon ?_ _
              rw [needle_append]
              exact hcolon _
            simp only [hgoOn]
            exact ih _ hlength hu' rfl
          · -- A colon follows, and the quotes of the key itself are still to come.
            left
            refine ⟨v ++ '"' :: key, fun more => ?_⟩
            rw [List.append_assoc, valueAt_match, needle_append, hv, List.append_assoc,
              List.cons_append]
        · -- The quote of the key itself ends the match.
          have hshape : ∀ more, c :: t ++ (needle key ++ more) =
              needle key ++ (key ++ '"' :: more) := by
            intro more
            rw [hu, needle_append, needle_append, List.cons_append]
          rcases behind_quote key with hcolon | ⟨v, hv⟩
          · right
            refine ⟨hcolon, fun more => ?_⟩
            rw [hshape, valueAt_match, behind_of_noColon (hcolon more)]
          · left
            refine ⟨v, fun more => ?_⟩
            rw [hshape, valueAt_match, hv]
      · have ht : ¬ PassedOver key t := fun hpassed => h (.skip hbegins hpassed)
        have hgoOn : ∀ more, valueAt (c :: t ++ (needle key ++ more)) key =
            valueAt (t ++ (needle key ++ more)) key := by
          intro more
          rw [List.cons_append, valueAt_skip]
          rw [needle_append]
          exact fun hmore => hbegins (needle_quote hplain.quote hmore)
        simp only [hgoOn]
        exact ih t.length (by rw [← hk]; exact Nat.lt_succ_self _) ht rfl

end GoesOn

/-! ## What is returned -/

section Returned

variable {body key : Text}

theorem objectField_congr {other : Text} (h : valueAt body key = valueAt other key) :
    objectField body key = objectField other key := by
  rw [objectField, objectField, h]

/-- An object that stands at the key is returned. -/
theorem objectField_of_valueAt {t rest : Text} (h : Derives .object t)
    (hvalue : valueAt body key = some (t ++ rest)) : objectField body key = some t := by
  obtain ⟨u, hu, -⟩ := object_between h
  have hbegins : ['{'].isPrefixOf (t ++ rest) = true := by
    rw [hu]
    rfl
  have hpos : 1 ≤ t.length := by
    rw [hu]
    exact Nat.succ_pos _
  rw [objectField, hvalue]
  simp only
  rw [if_pos hbegins, closeAt_object h, Option.map_some, Nat.sub_add_cancel hpos, List.take_left]

/-- What is returned stands at the key. -/
theorem begins_of_objectField {t : Text} (h : objectField body key = some t) :
    ∃ rest, valueAt body key = some rest ∧ t <+: rest := by
  unfold objectField at h
  split at h
  · cases h
  · rename_i rest hvalue
    split at h
    · obtain ⟨i, -, hi⟩ := Option.map_eq_some_iff.mp h
      refine ⟨rest, hvalue, ?_⟩
      rw [← hi]
      exact List.take_prefix _ _
    · cases h

/-- The array that is returned is of what is behind the first match. -/
theorem arrayField_eq {n : ℕ} (hfirst : FirstAt (needle key) body n) :
    arrayField body key =
      (behind none (body.drop (n + (needle key).length))).elim (some none) fun rest =>
        (closeArray 0 false false 0 rest).map fun close =>
          close.map fun i => (rest.take i).drop 1 := by
  rw [arrayField, find_eq_some_iff.mpr hfirst, behind]
  simp only
  cases Text.stripPrefix [':'] (trimStart (body.drop (n + (needle key).length))) with
  | none => rfl
  | some rest => rfl

/-- A bracket closes the array that is found, and not at once. -/
theorem closeArray_closes {depth : ℕ} {inString escaped : Bool} {i j : ℕ} {t : Text}
    (h : closeArray depth inString escaped i t = some (some j)) :
    ∃ n, j = i + n ∧ t[n]? = some ']' ∧ (depth = 0 → 0 < n) := by
  induction t generalizing depth inString escaped i with
  | nil => cases h
  | cons c t ih =>
    have hlater : ∀ {depth inString escaped},
        closeArray depth inString escaped (i + 1) t = some (some j) →
        ∃ n, j = i + n ∧ (c :: t)[n]? = some ']' ∧ 0 < n := by
      intro depth inString escaped hrest
      obtain ⟨n, hn, hclosing, -⟩ := ih hrest
      exact ⟨n + 1, by omega, hclosing, Nat.succ_pos n⟩
    have hweaken : (∃ n, j = i + n ∧ (c :: t)[n]? = some ']' ∧ 0 < n) →
        ∃ n, j = i + n ∧ (c :: t)[n]? = some ']' ∧ (depth = 0 → 0 < n) := by
      rintro ⟨n, hn, hclosing, hpos⟩
      exact ⟨n, hn, hclosing, fun _ => hpos⟩
    rw [closeArray] at h
    -- Of all the branches one finds an end, with a bracket that was opened before.
    split at h
    · exact hweaken (hlater h)
    split at h
    · exact hweaken (hlater h)
    split at h
    · exact hweaken (hlater h)
    split at h
    · exact hweaken (hlater h)
    split at h
    · rename_i hclosing
      split at h
      · cases h
      split at h
      · rename_i hopen _
        exact ⟨0, (Option.some.inj (Option.some.inj h)).symm, by simp [hclosing.1],
          fun hzero => absurd hzero hopen⟩
      · exact hweaken (hlater h)
    split at h
    · cases h
    · exact hweaken (hlater h)

end Returned

/-! ## Objects with one member that is no scalar -/

/-- What precedes a text: members with commas behind them. -/
def preceding (tail : Text) : List Member → Text
  | [] => tail
  | m :: ms => m.text ++ ',' :: preceding tail ms

/-- An object around the value of one member. The others have scalar values, and no two of them
all have one key. -/
structure Envelope where
  lead : Blank
  before : List Member
  beforeKey : Blank
  key : Text
  plain : ∀ c ∈ key, isPlain c = true
  afterKey : Blank
  beforeValue : Blank
  afterValue : Blank
  later : List Member
  trail : Blank
  distinct : (before.map Member.key ++ key :: later.map Member.key).Nodup

namespace Envelope

/-- The member and what follows it. -/
def members (e : Envelope) (value : Text) : Text :=
  e.beforeKey.text ++ (quoted e.key ++ (e.afterKey.text ++ ':' ::
    (e.beforeValue.text ++ (value ++ e.afterValue.text)))) ++ following [] e.later

/-- The object itself. -/
def core (e : Envelope) (value : Text) : Text :=
  '{' :: (preceding (e.members value) e.before ++ ['}'])

def text (e : Envelope) (value : Text) : Text :=
  e.lead.text ++ (e.core value ++ e.trail.text)

theorem derives_own (e : Envelope) {value : Text} (h : Derives .value value) :
    Derives .members (e.members value) := by
  have hkey := written_plainPieces e.key e.plain
  cases hlater : e.later with
  | nil =>
    have hlast := Derives.lastMember e.beforeKey e.afterKey e.beforeValue e.afterValue
      (plainPieces e.key e.plain) h
    rw [hkey] at hlast
    rw [members, hlater, following, List.append_nil]
    exact hlast
  | cons m ms =>
    have hrest := derives_members .none m ms
    have htext := separated_append .none m ms []
    rw [List.append_nil] at htext
    rw [htext] at hrest
    have hnext := Derives.nextMember e.beforeKey e.afterKey e.beforeValue e.afterValue
      (plainPieces e.key e.plain) h hrest
    rw [hkey] at hnext
    rw [members, hlater, following]
    exact hnext

/-- Whatever the value is, the object is one of the grammar. -/
theorem derives (e : Envelope) {value : Text} (h : Derives .value value) :
    Derives .object (e.core value) := by
  refine .object ?_
  have hkey := written_plainPieces
  induction e.before with
  | nil => exact e.derives_own h
  | cons m ms ih =>
    have hmember := Derives.nextMember m.before m.afterKey m.beforeValue m.after
      (plainPieces m.key m.plain) m.value.derives ih
    rw [hkey] at hmember
    exact hmember

/-- What is before the key. -/
def front (e : Envelope) : Text := e.lead.text ++ '{' :: preceding e.beforeKey.text e.before

/-- What stands between the key and its value. -/
def colon (e : Envelope) : Text := e.afterKey.text ++ ':' :: e.beforeValue.text

/-- What is behind the value. -/
def back (e : Envelope) : Text :=
  e.afterValue.text ++ (following [] e.later ++ ('}' :: e.trail.text))

theorem preceding_append (tail more : Text) (ms : List Member) :
    preceding tail ms ++ more = preceding (tail ++ more) ms := by
  induction ms with
  | nil => rfl
  | cons m ms ih => rw [preceding, preceding, List.append_assoc, List.cons_append, ih]

/-- The object around the key and the value. -/
theorem text_eq (e : Envelope) (value : Text) :
    e.text value = e.front ++ (needle e.key ++ (e.colon ++ (value ++ e.back))) := by
  have hmembers : e.members value ++ ('}' :: e.trail.text) =
      e.beforeKey.text ++ (needle e.key ++ (e.colon ++ (value ++ e.back))) := by
    simp [members, quoted, needle, colon, back]
  rw [text, core, front, List.append_assoc, List.cons_append, List.cons_append, List.append_assoc,
    List.singleton_append, preceding_append, preceding_append, hmembers]

theorem plainKey (e : Envelope) : PlainKey e.key :=
  ⟨fun h => absurd (e.plain _ h) (by decide), fun h => absurd (e.plain _ h) (by decide)⟩

theorem quote_not_mem_colon (e : Envelope) : '"' ∉ e.colon := by
  simp [colon, quote_not_mem_blank]

/-- Behind the key stands its value. -/
theorem behind_colon (e : Envelope) (goOn : Option Text) {c : Char}
    (hc : Text.isWhitespace c = false) (rest : Text) :
    behind goOn (e.colon ++ c :: rest) = some (c :: rest) := by
  rw [colon, List.append_assoc, List.cons_append, behind, trimStart_blank,
    trimStart_cons (by decide), Text.stripPrefix]
  simp only [List.isPrefixOf, beq_self_eq_true, Bool.and_self, if_true]
  exact congrArg some ((trimStart_blank e.beforeValue (c :: rest)).trans (trimStart_cons hc rest))

/-- One blank, which tells two values apart. -/
def space : Blank := ⟨[' '], by simp [isBlank]⟩

theorem colon_ne_nil (e : Envelope) : e.colon ≠ [] := by simp [colon]

theorem not_noColon (e : Envelope) (rest : Text) : ¬ NoColon (e.colon ++ rest) := by
  intro h
  rw [colon, List.append_assoc, List.cons_append, NoColon, trimStart_blank,
    trimStart_cons (by decide), Text.stripPrefix] at h
  simp [List.isPrefixOf] at h

/-! ## Objects -/

/-- Behind what is passed over, the member's object is found. -/
theorem objectField_passedOver (e : Envelope) (h : PassedOver e.key e.front) {t : Text}
    (ht : Derives .object t) : objectField (e.text t) e.key = some t := by
  refine objectField_of_valueAt ht (?_ : valueAt (e.text t) e.key = some (t ++ e.back))
  rw [text_eq, valueAt_passedOver e.plainKey h]
  obtain ⟨u, rfl, -⟩ := object_between ht
  exact e.behind_colon _ (by decide) _

/-- A match that ends with the quote that begins the key hides the key, the value and all that has
no quotes. -/
theorem valueAt_hidden (e : Envelope) (hcolon : ∀ more, NoColon (e.key ++ '"' :: more)) {t : Text}
    (ht : '"' ∉ t) : valueAt (e.key ++ '"' :: (e.colon ++ (t ++ e.back))) e.key =
      valueAt e.back e.key := by
  have hnot : ¬ e.key ++ ['"'] <+: e.colon ++ (t ++ e.back) := by
    intro hbegins
    rcases List.prefix_or_prefix_of_prefix hbegins (List.prefix_append e.colon (t ++ e.back)) with
      hkey | ⟨more, hmore⟩
    · exact e.quote_not_mem_colon (hkey.subset (by simp))
    · -- The key would begin with a colon, after blanks.
      refine e.not_noColon more ?_
      rw [hmore]
      exact hcolon []
  rw [valueAt_unquoted e.key e.plainKey.quote, valueAt_skip e.key (mt needle_prefix_iff.mp hnot),
    valueAt_unquoted e.key e.quote_not_mem_colon, valueAt_unquoted e.key ht]

/-- What is to be read at a quote does not depend on the value of the member so soon. -/
theorem second_eq (e : Envelope) (u t t' : Text) :
    (u ++ '"' :: (e.colon ++ t))[1]? = (u ++ '"' :: (e.colon ++ t'))[1]? := by
  have hlength : 1 < (u ++ '"' :: e.colon).length := by
    have hpos := List.length_pos_iff.mpr e.colon_ne_nil
    rw [List.length_append, List.length_cons]
    omega
  rw [← List.cons_append, ← List.cons_append, ← List.append_assoc, ← List.append_assoc,
    List.getElem?_append_left hlength, List.getElem?_append_left hlength]

/-- **The object of a member is found, whatever it is, exactly if what is before the key is passed
over.** -/
theorem objectField_iff (e : Envelope) :
    (∀ t, Derives .object t → objectField (e.text t) e.key = some t) ↔
      PassedOver e.key e.front := by
  constructor
  · intro hall
    have hempty := hall ['{', '}'] (.noMembers .none)
    have hblank := hall ['{', ' ', '}'] (.noMembers space)
    by_contra hnot
    rcases taken_of_not_passedOver e.plainKey hnot with ⟨u, hu⟩ | ⟨hcolon, hvalue⟩
    · -- What is returned begins before the value, so it cannot be both.
      obtain ⟨_, hvalue, r, hrest⟩ := begins_of_objectField hempty
      obtain ⟨_, hvalue', r', hrest'⟩ := begins_of_objectField hblank
      rw [text_eq, hu, Option.some.injEq] at hvalue hvalue'
      rw [← hvalue] at hrest
      rw [← hvalue'] at hrest'
      have hsecond := e.second_eq u (['{', '}'] ++ e.back) (['{', ' ', '}'] ++ e.back)
      rw [← hrest, ← hrest'] at hsecond
      simp at hsecond
    · have hsame : ∀ {t}, '"' ∉ t → objectField (e.text t) e.key = objectField e.back e.key := by
        intro t ht
        refine objectField_congr ?_
        rw [text_eq, hvalue, e.valueAt_hidden hcolon ht]
      rw [hsame (by decide)] at hempty hblank
      exact absurd (hempty.symm.trans hblank) (by decide)
  · intro h t ht
    exact e.objectField_passedOver h ht

/-! ## Arrays -/

section Occurs

variable {key : Text}

/-- What occurs first up to the key, occurs first. -/
theorem firstAt_front (hkey : '"' ∉ key) {t : Text} {n : ℕ} (hn : n ≤ t.length)
    (h : FirstAt (needle key) (t ++ needle key) n) (more : Text) :
    FirstAt (needle key) (t ++ (needle key ++ more)) n := by
  have hle : ∀ {m}, m ≤ t.length →
      (t ++ (needle key ++ more)).drop m = (t ++ needle key).drop m ++ more := by
    intro m hm
    rw [← List.append_assoc, List.drop_append_of_le_length]
    rw [List.length_append]
    exact hm.trans (Nat.le_add_right _ _)
  -- A match that begins before the key ends with its first quote at the latest.
  refine ⟨?_, fun m hm hoccurs => h.first m hm ?_⟩
  · rw [hle hn]
    exact h.occurs.trans (List.prefix_append _ _)
  · have hlt : m < t.length := hm.trans_le hn
    obtain ⟨c, u, hu⟩ := List.exists_cons_of_ne_nil (l := t.drop m)
      (by rw [Ne, List.drop_eq_nil_iff]; omega)
    rw [List.drop_append_of_le_length hlt.le, hu, needle_append, List.cons_append] at hoccurs
    rw [List.drop_append_of_le_length hlt.le, hu, List.cons_append]
    refine (needle_quote hkey hoccurs).trans (List.cons_prefix_cons.mpr ⟨rfl, ?_⟩)
    exact ⟨key ++ ['"'], by simp [needle]⟩

/-- Behind a match that begins before the key there is a quote of the key still to come. -/
theorem behind_match (hkey : '"' ∉ key) {t : Text} {n : ℕ} (hn : n < t.length)
    (h : needle key <+: (t ++ needle key).drop n) :
    ∃ u, ∀ more, (t ++ (needle key ++ more)).drop (n + (needle key).length) =
      u ++ '"' :: more := by
  obtain ⟨c, v, hv⟩ := List.exists_cons_of_ne_nil (l := t.drop n)
    (by rw [Ne, List.drop_eq_nil_iff]; omega)
  have hdrop : ∀ more, (t ++ (needle key ++ more)).drop (n + (needle key).length) =
      (c :: v ++ (needle key ++ more)).drop (needle key).length := by
    intro more
    rw [← List.drop_drop, List.drop_append_of_le_length hn.le, hv]
  rw [List.drop_append_of_le_length hn.le, hv, List.cons_append] at h
  have hbegins : needle key <+: c :: (v ++ ['"']) := needle_quote hkey h
  rcases match_cases hbegins with ⟨u, hu⟩ | hu
  · refine ⟨u ++ '"' :: key, fun more => ?_⟩
    rw [hdrop, hu, List.append_assoc, List.drop_left, needle_append, List.append_assoc,
      List.cons_append]
  · refine ⟨key, fun more => ?_⟩
    have hshape : c :: v ++ (needle key ++ more) = needle key ++ (key ++ '"' :: more) := by
      rw [hu, needle_append, needle_append, List.cons_append]
    rw [hdrop, hshape, List.drop_left]

end Occurs

/-- The array of a member. -/
def array (c : Text) : Text := '[' :: (c ++ [']'])

/-- Where the key in quotes has not occurred before, the contents of the array are found. -/
theorem arrayField_firstAt (e : Envelope)
    (h : FirstAt (needle e.key) (e.front ++ needle e.key) e.front.length) {c : Text}
    (hc : Contents c) : arrayField (e.text (array c)) e.key = some (some c) := by
  have hfirst := firstAt_front e.plainKey.quote (Nat.le_refl _) h (e.colon ++ (array c ++ e.back))
  have hshape : array c ++ e.back = '[' :: (c ++ ']' :: e.back) := by simp [array]
  rw [text_eq, arrayField_eq hfirst, ← List.drop_drop, List.drop_left, List.drop_left, hshape,
    e.behind_colon _ (by decide), Option.elim_some, closeArray_array hc, Option.map_some,
    Option.map_some, List.take_succ_cons, List.take_left, List.drop_one, List.tail_cons]

/-- The second character behind a match tells what contents are returned. -/
theorem second_of_arrayField {body key rest : Text} {n : ℕ} (hfirst : FirstAt (needle key) body n)
    (hrest : behind none (body.drop (n + (needle key).length)) = some rest) :
    (arrayField body key = some (some []) → rest[1]? = some ']') ∧
    (arrayField body key = some (some [' ']) → rest[1]? = some ' ') := by
  rw [arrayField_eq hfirst, hrest, Option.elim_some]
  constructor
  · intro h
    obtain ⟨close, hclose, hmap⟩ := Option.map_eq_some_iff.mp h
    obtain ⟨j, rfl, hj⟩ := Option.map_eq_some_iff.mp hmap
    obtain ⟨m, hm, hclosing, hpos⟩ := closeArray_closes hclose
    have hlt := (List.getElem?_eq_some_iff.mp hclosing).1
    have hlength := congrArg List.length hj
    rw [List.length_drop, List.length_take, List.length_nil] at hlength
    have hone : m = 1 := by
      have hpos' := hpos rfl
      omega
    rw [← hone]
    exact hclosing
  · intro h
    obtain ⟨close, -, hmap⟩ := Option.map_eq_some_iff.mp h
    obtain ⟨j, -, hj⟩ := Option.map_eq_some_iff.mp hmap
    have hhead := congrArg (fun t => t[0]?) hj
    simp only [List.getElem?_drop, List.getElem?_take] at hhead
    split at hhead
    · exact hhead
    · cases hhead

/-- **The contents of a member's array are found, whatever they are, exactly if the key in quotes
occurs nowhere before.** -/
theorem arrayField_iff (e : Envelope) :
    (∀ c, Contents c → arrayField (e.text (array c)) e.key = some (some c)) ↔
      FirstAt (needle e.key) (e.front ++ needle e.key) e.front.length := by
  constructor
  · intro hall
    have hempty := hall [] (.inl ⟨.none, rfl⟩)
    have hblank := hall [' '] (.inl ⟨space, rfl⟩)
    have hoccurs : needle e.key <+: (e.front ++ needle e.key).drop e.front.length := by
      rw [List.drop_left]
    obtain ⟨n, hn⟩ := Option.isSome_iff_exists.mp (isSome_find hoccurs)
    have hfirst := firstAt_of_find hn
    rcases Nat.lt_trichotomy n e.front.length with hlt | heq | hmore
    · exfalso
      have hbody := fun more => firstAt_front e.plainKey.quote hlt.le hfirst more
      obtain ⟨u, hu⟩ := behind_match e.plainKey.quote hlt hfirst.occurs
      rw [text_eq] at hempty hblank
      rcases behind_quote u with hcolon | ⟨v, hv⟩
      · -- No colon follows, and the scan ends here.
        rw [arrayField_eq (hbody _), hu, behind_of_noColon (hcolon _)] at hempty
        cases hempty
      · have hrest : ∀ more, behind none ((e.front ++ (needle e.key ++ more)).drop
            (n + (needle e.key).length)) = some (v ++ '"' :: more) := by
          intro more
          rw [hu, hv]
        have hsecond := e.second_eq v (array [] ++ e.back) (array [' '] ++ e.back)
        rw [(second_of_arrayField (hbody _) (hrest _)).1 hempty,
          (second_of_arrayField (hbody _) (hrest _)).2 hblank] at hsecond
        exact absurd hsecond (by decide)
    · rw [← heq]
      exact hfirst
    · exact absurd hoccurs (hfirst.first _ hmore)
  · intro h c hc
    exact e.arrayField_firstAt h hc

/-- **Values that are members are found**: an object, whatever it is, exactly if nothing before the
key is taken for it, and an array exactly if the key in quotes occurs nowhere before. -/
theorem members_found_iff (e : Envelope) :
    ((∀ t, Derives .object t → objectField (e.text t) e.key = some t) ↔
      PassedOver e.key e.front) ∧
    ((∀ c, Contents c → arrayField (e.text (array c)) e.key = some (some c)) ↔
      FirstAt (needle e.key) (e.front ++ needle e.key) e.front.length) :=
  ⟨e.objectField_iff, e.arrayField_iff⟩

/-- `{"status":"data","data":…}` -/
def echo : Envelope where
  lead := .none
  before := [⟨.none, ['s', 't', 'a', 't', 'u', 's'], by simp [isPlain], .none, .none,
    .string (plainPieces ['d', 'a', 't', 'a'] (by simp [isPlain])), .none⟩]
  beforeKey := .none
  key := ['d', 'a', 't', 'a']
  plain := by simp [isPlain]
  afterKey := .none
  beforeValue := .none
  afterValue := .none
  later := []
  trail := .none
  distinct := by simp

/-- In `{"status":"data","data":[true]}` the value of the status hides the array. -/
theorem not_members_found : ¬ ∀ e : Envelope,
    (∀ t, Derives .object t → objectField (e.text t) e.key = some t) ∧
    ∀ c, Contents c → arrayField (e.text (array c)) e.key = some (some c) := by
  intro hall
  have hfound := (hall echo).2 _ (.inr (.lastItem .none .none (.bare .true)))
  revert hfound
  decide +kernel

/-! ## Names -/

theorem key_ne (e : Envelope) : ∀ m ∈ e.before, m.key ≠ e.key := by
  intro m hm heq
  have hapart := (List.nodup_append.mp e.distinct).2.2
  exact hapart m.key (List.mem_map_of_mem hm) e.key List.mem_cons_self heq

/-- A text begins with a quote, up to what is none. -/
def Quote (t : Text) : Prop := ∃ w rest, t = w ++ '"' :: rest ∧ '"' ∉ w

theorem quote_preceding {tail : Text} (h : Quote tail) (ms : List Member) :
    Quote (preceding tail ms) := by
  cases ms with
  | nil => exact h
  | cons m ms => exact ⟨_, _, member_append m _, quote_not_mem_blank m.before⟩

/-- A name is not found in the members before it. -/
theorem valueAt_preceding {key : Text} (hplain : PlainKey key) (hcolon : ':' ∉ key)
    (hcomma : ',' ∉ key) {tail : Text} (htail : Quote tail) {ms : List Member}
    (hne : ∀ m ∈ ms, m.key ≠ key) : valueAt (preceding tail ms) key = valueAt tail key := by
  induction ms with
  | nil => rfl
  | cons m ms ih =>
    rw [List.forall_mem_cons] at hne
    have hends : Ends (',' :: preceding tail ms) := ⟨',', _, rfl, .inl rfl⟩
    -- From the last quote of the member to the next one there is a comma.
    have hlast : ¬ key ++ ['"'] <+: lastGap m ++ ',' :: preceding tail ms := by
      obtain ⟨w, rest, hrest, hw⟩ := quote_preceding htail ms
      intro hbegins
      have hunquoted : '"' ∉ lastGap m ++ ',' :: w := by simp [quote_not_mem_lastGap, hw]
      rw [hrest, ← List.cons_append, ← List.append_assoc] at hbegins
      have hkey := eq_of_begins hplain hunquoted hbegins
      exact hcomma (by simp [hkey])
    have hgap : ∀ pieces, m.value = .string pieces → key ≠ Json.colon m := by
      intro pieces _ heq
      exact hcolon (by simp [heq, Json.colon])
    rw [preceding, valueAt_past hplain hne.1 hends hgap hlast, ← ih hne.2]
    exact valueAt_unquoted key (t := [',']) (by decide) _

/-- A name has no punctuation, so its object is found in every envelope. -/
theorem objectField_name (e : Envelope) (hcolon : ':' ∉ e.key) (hcomma : ',' ∉ e.key) {t : Text}
    (ht : Derives .object t) : objectField (e.text t) e.key = some t := by
  refine objectField_of_valueAt ht (?_ : valueAt (e.text t) e.key = some (t ++ e.back))
  have hlead : '"' ∉ e.lead.text ++ ['{'] := by simp [quote_not_mem_blank]
  have hshape : e.text t = (e.lead.text ++ ['{']) ++ preceding (e.beforeKey.text ++
      (needle e.key ++ (e.colon ++ (t ++ e.back)))) e.before := by
    rw [text_eq, front, List.append_assoc, List.cons_append, preceding_append]
    simp
  have htail : Quote (e.beforeKey.text ++ (needle e.key ++ (e.colon ++ (t ++ e.back)))) :=
    ⟨e.beforeKey.text, _, rfl, quote_not_mem_blank e.beforeKey⟩
  rw [hshape, valueAt_unquoted e.key hlead, valueAt_preceding e.plainKey hcolon hcomma htail
    e.key_ne, valueAt_unquoted e.key (quote_not_mem_blank e.beforeKey), valueAt_match]
  obtain ⟨u, rfl, -⟩ := object_between ht
  exact e.behind_colon _ (by decide) _

end Envelope

end Gateway.Json
