/-
# The object around a match (`oq-gateway/src/json.rs`)

An object is looked for backwards from the match and then forwards. Forwards the strings are told
from what is outside of them, and the object is found up to its own brace; backwards they are not,
and the brace that is found is the object's exactly if the braces on the way to it pair up, those
in strings included (`openBefore_eq_iff`). So the innermost object is returned if they do, and if
the match begins behind its brace (`objectContaining_innermost_iff`).
-/
import OpenQuanter.MatchedBrackets
import OpenQuanter.ScannedFields

namespace Gateway.Json

open JsonText

/-! ## The first occurrence -/

/-- Where a text occurs first in another. -/
structure FirstAt (needle text : Text) (n : ℕ) : Prop where
  occurs : needle <+: text.drop n
  first : ∀ m < n, ¬ needle <+: text.drop m

theorem firstAt_zero {needle text : Text} (h : needle <+: text) : FirstAt needle text 0 :=
  ⟨h, fun _ hm => absurd hm (Nat.not_lt_zero _)⟩

theorem FirstAt.unique {needle text : Text} {m n : ℕ} (hm : FirstAt needle text m)
    (hn : FirstAt needle text n) : m = n := by
  rcases Nat.lt_trichotomy m n with hlt | heq | hlt
  · exact absurd hm.occurs (hn.first m hlt)
  · exact heq
  · exact absurd hn.occurs (hm.first n hlt)

theorem FirstAt.succ {needle text : Text} {c : Char} {n : ℕ} (hnot : ¬ needle <+: c :: text)
    (h : FirstAt needle text n) : FirstAt needle (c :: text) (n + 1) := by
  refine ⟨h.occurs, fun m hm => ?_⟩
  cases m with
  | zero => exact hnot
  | succ m => exact h.first m (Nat.lt_of_succ_lt_succ hm)

theorem firstAt_of_find {needle text : Text} {n : ℕ} (h : find needle text = some n) :
    FirstAt needle text n := by
  induction text generalizing n with
  | nil =>
    unfold find at h
    split at h <;> rename_i hbegins
    · rw [← Option.some.inj h]
      exact firstAt_zero (List.isPrefixOf_iff_prefix.mp hbegins)
    · cases h
  | cons c text ih =>
    unfold find at h
    split at h <;> rename_i hbegins
    · rw [← Option.some.inj h]
      exact firstAt_zero (List.isPrefixOf_iff_prefix.mp hbegins)
    · obtain ⟨m, hm, rfl⟩ := Option.map_eq_some_iff.mp h
      exact (ih hm).succ (mt List.isPrefixOf_iff_prefix.mpr hbegins)

theorem isSome_find {needle text : Text} {n : ℕ} (h : needle <+: text.drop n) :
    (find needle text).isSome = true := by
  induction text generalizing n with
  | nil =>
    rw [List.drop_nil] at h
    rw [find, if_pos (List.isPrefixOf_iff_prefix.mpr h)]
    rfl
  | cons c text ih =>
    rw [find]
    split <;> rename_i hbegins
    · rfl
    · cases n with
      | zero => exact absurd (List.isPrefixOf_iff_prefix.mpr h) hbegins
      | succ n =>
        rw [Option.isSome_map]
        exact ih h

/-- What is found is the first occurrence. -/
theorem find_eq_some_iff {needle text : Text} {n : ℕ} :
    find needle text = some n ↔ FirstAt needle text n := by
  constructor
  · exact firstAt_of_find
  · intro h
    obtain ⟨m, hm⟩ := Option.isSome_iff_exists.mp (isSome_find h.occurs)
    rw [hm, (firstAt_of_find hm).unique h]

/-! ## The way back -/

/-- Read backwards from a depth on, braces are never more often opened than they have been closed,
are closed as deep as an `i32` counts, and at the beginning pair up. -/
structure PairedFrom (depth : ℕ) (r : Text) : Prop where
  closed : ∀ p, p <+: r → p.count '{' ≤ depth + p.count '}'
  counted : ∀ p, p <+: r → depth + p.count '}' < p.count '{' + 2 ^ 31
  even : r.count '{' = depth + r.count '}'

/-- Read backwards, the braces of a text pair up. -/
structure Paired (t : Text) : Prop where
  closed : ∀ u, u <:+ t → u.count '{' ≤ u.count '}'
  counted : ∀ u, u <:+ t → u.count '}' < u.count '{' + 2 ^ 31
  even : t.count '{' = t.count '}'

theorem pairedFrom_reverse (t : Text) : PairedFrom 0 t.reverse ↔ Paired t := by
  constructor
  · intro h
    refine ⟨fun u hu => ?_, fun u hu => ?_, ?_⟩
    · have hclosed := h.closed u.reverse (List.reverse_prefix.mpr hu)
      rwa [List.count_reverse, List.count_reverse, Nat.zero_add] at hclosed
    · have hcounted := h.counted u.reverse (List.reverse_prefix.mpr hu)
      rwa [List.count_reverse, List.count_reverse, Nat.zero_add] at hcounted
    · have heven := h.even
      rwa [List.count_reverse, List.count_reverse, Nat.zero_add] at heven
  · intro h
    have hend : ∀ p, p <+: t.reverse → p.reverse <:+ t := by
      intro p hp
      rw [← List.reverse_reverse t]
      exact List.reverse_suffix.mpr hp
    refine ⟨fun p hp => ?_, fun p hp => ?_, ?_⟩
    · have hclosed := h.closed p.reverse (hend p hp)
      rwa [List.count_reverse, List.count_reverse, ← Nat.zero_add (List.count '}' p)] at hclosed
    · have hcounted := h.counted p.reverse (hend p hp)
      rwa [List.count_reverse, List.count_reverse, ← Nat.zero_add (List.count '}' p)] at hcounted
    · rw [List.count_reverse, List.count_reverse, Nat.zero_add]
      exact h.even

section Steps

variable {depth : ℕ} {r : Text}

theorem pairedFrom_nil (hdepth : depth < 2 ^ 31) : PairedFrom depth [] ↔ depth = 0 := by
  constructor
  · intro h
    exact h.even.symm
  · rintro rfl
    refine ⟨fun p hp => ?_, fun p hp => ?_, rfl⟩ <;> rw [List.prefix_nil.mp hp]
    · exact Nat.le_refl _
    · exact hdepth

/-- A character is read, which changes the depth. -/
theorem pairedFrom_cons {c : Char} {next : ℕ} (hdepth : depth < 2 ^ 31)
    (hstep : ∀ p : Text, depth + (c :: p).count '}' + p.count '{' =
      next + p.count '}' + (c :: p).count '{') :
    PairedFrom depth (c :: r) ↔ PairedFrom next r := by
  constructor
  · intro h
    refine ⟨fun p hp => ?_, fun p hp => ?_, ?_⟩
    · have hclosed := h.closed (c :: p) (List.cons_prefix_cons.mpr ⟨rfl, hp⟩)
      have hp := hstep p
      omega
    · have hcounted := h.counted (c :: p) (List.cons_prefix_cons.mpr ⟨rfl, hp⟩)
      have hp := hstep p
      omega
    · have heven := h.even
      have hr := hstep r
      omega
  · intro h
    refine ⟨fun p hp => ?_, fun p hp => ?_, ?_⟩
    · cases p with
      | nil => exact Nat.zero_le _
      | cons d p =>
        obtain ⟨rfl, htail⟩ := List.cons_prefix_cons.mp hp
        have hclosed := h.closed p htail
        have hp := hstep p
        omega
    · cases p with
      | nil => simpa using hdepth
      | cons d p =>
        obtain ⟨rfl, htail⟩ := List.cons_prefix_cons.mp hp
        have hcounted := h.counted p htail
        have hp := hstep p
        omega
    · have heven := h.even
      have hr := hstep r
      omega

end Steps

/-- What is found stands in the text. -/
theorem openBefore_lt {depth k : ℕ} {t : Text} (h : openBefore depth t = some (some k)) :
    k < t.length := by
  induction t generalizing depth with
  | nil => cases h
  | cons c before ih =>
    rw [List.length_cons]
    unfold openBefore at h
    split at h
    · split at h
      · exact Nat.lt_succ_of_lt (ih h)
      · cases h
    split at h
    · rw [← Option.some.inj (Option.some.inj h)]
      exact Nat.lt_succ_self _
    split at h <;> exact Nat.lt_succ_of_lt (ih h)

section Back

variable {depth : ℕ} (t : Text)

theorem openBefore_closing (hmore : depth + 1 < 2 ^ 31) :
    openBefore depth ('}' :: t) = openBefore (depth + 1) t := by
  rw [openBefore, if_pos rfl, if_pos hmore]

theorem openBefore_overflow (hfull : ¬ depth + 1 < 2 ^ 31) :
    openBefore depth ('}' :: t) = none := by
  rw [openBefore, if_pos rfl, if_neg hfull]

theorem openBefore_found : openBefore 0 ('{' :: t) = some (some t.length) := by
  simp [openBefore]

theorem openBefore_opening (hpos : depth ≠ 0) :
    openBefore depth ('{' :: t) = openBefore (depth - 1) t := by
  simp [openBefore, hpos]

theorem openBefore_other {c : Char} (hclosing : c ≠ '}') (hopening : c ≠ '{') :
    openBefore depth (c :: t) = openBefore depth t := by
  simp [openBefore, hclosing, hopening]

end Back

/-- Past a text that pairs up from the depth on, and past no other, the brace before it is found. -/
theorem openBefore_from {depth : ℕ} (hdepth : depth < 2 ^ 31) (r before : Text) :
    openBefore depth (r ++ '{' :: before) = some (some before.length) ↔ PairedFrom depth r := by
  -- Over what is read, with the depth that has been reached by then.
  induction r generalizing depth with
  | nil =>
    rw [pairedFrom_nil hdepth, List.nil_append]
    by_cases hzero : depth = 0
    · rw [hzero, openBefore_found]
      exact iff_of_true rfl rfl
    · rw [openBefore_opening _ hzero]
      exact iff_of_false (fun h => Nat.lt_irrefl _ (openBefore_lt h)) hzero
  | cons c r ih =>
    rw [List.cons_append]
    by_cases hclosing : c = '}'
    · rw [hclosing]
      by_cases hmore : depth + 1 < 2 ^ 31
      · rw [openBefore_closing _ hmore, ih hmore]
        refine (pairedFrom_cons hdepth fun p => ?_).symm
        simp
        omega
      · rw [openBefore_overflow _ hmore]
        refine iff_of_false (fun h => by cases h) fun h => ?_
        have hcounted := h.counted ['}'] (List.cons_prefix_cons.mpr ⟨rfl, List.nil_prefix⟩)
        simp at hcounted
        omega
    by_cases hopening : c = '{'
    · rw [hopening]
      by_cases hzero : depth = 0
      · -- This brace is taken for the one that is looked for.
        rw [hzero, openBefore_found]
        refine iff_of_false (fun h => ?_) fun h => ?_
        · have hlength := Option.some.inj (Option.some.inj h)
          rw [List.length_append, List.length_cons] at hlength
          omega
        · have hclosed := h.closed ['{'] (List.cons_prefix_cons.mpr ⟨rfl, List.nil_prefix⟩)
          simp at hclosed
      · rw [openBefore_opening _ hzero, ih (by omega)]
        refine (pairedFrom_cons hdepth fun p => ?_).symm
        simp
        omega
    · rw [openBefore_other _ hclosing hopening, ih hdepth]
      refine (pairedFrom_cons hdepth fun p => ?_).symm
      rw [List.count_cons_of_ne hclosing, List.count_cons_of_ne hopening]

/-- The brace that is found on the way back is this one exactly if the braces on the way pair up. -/
theorem openBefore_eq_iff (before t : Text) :
    openBefore 0 (before ++ '{' :: t).reverse = some (some before.length) ↔ Paired t := by
  have hshape : (before ++ '{' :: t).reverse = t.reverse ++ '{' :: before.reverse := by simp
  have hlength : before.length = before.reverse.length := List.length_reverse.symm
  rw [hshape, hlength, openBefore_from (by norm_num), pairedFrom_reverse]

/-! ## The object around a match -/

/-- An object of a document that is around a match. -/
structure Encloses (d : Document) (at_ length : ℕ) (front object back : Text) : Prop where
  holds : d.Holds front object back
  begins : front.length ≤ at_
  ends : at_ + length ≤ front.length + object.length

/-- An object around a match than which none is shorter. -/
structure Innermost (d : Document) (at_ length : ℕ) (front object back : Text) : Prop
    extends Encloses d at_ length front object back where
  least : ∀ f o b, Encloses d at_ length f o b → object.length ≤ o.length

theorem Encloses.exists_innermost {d : Document} {at_ length : ℕ} {front object back : Text}
    (h : Encloses d at_ length front object back) :
    ∃ f o b, Innermost d at_ length f o b := by
  classical
  have hex : ∃ n f o b, Encloses d at_ length f o b ∧ o.length = n := ⟨_, _, _, _, h, rfl⟩
  obtain ⟨f, o, b, hencloses, hlength⟩ := Nat.find_spec hex
  refine ⟨f, o, b, hencloses, fun f' o' b' h' => ?_⟩
  rw [hlength]
  exact Nat.find_min' hex ⟨f', o', b', h', rfl⟩

/-- Where a text stands twice, so does what is in it. -/
theorem occurs_again {text object needle : Text} {k m at_ : ℕ} (hk : object <+: text.drop k)
    (hm : object <+: text.drop m) (hbegins : m ≤ at_)
    (hends : at_ + needle.length ≤ m + object.length) (hat : needle <+: text.drop at_) :
    needle <+: text.drop (k + (at_ - m)) := by
  have hshift : text.drop at_ = (text.drop m).drop (at_ - m) := by
    rw [List.drop_drop, Nat.add_sub_cancel' hbegins]
  have hinside : needle <+: object.drop (at_ - m) := by
    refine List.prefix_of_prefix_length_le (hshift ▸ hat) (hm.drop _) ?_
    rw [List.length_drop]
    omega
  rw [← List.drop_drop]
  exact hinside.trans (hk.drop _)

section Contains

variable {body needle object : Text} {at_ : ℕ}

theorem objectContaining_eq (hfirst : FirstAt needle body at_) : objectContaining body needle =
    (openBefore 0 (body.take at_).reverse).map fun start => start.bind fun k =>
      (closeAt '{' '}' 0 false false 0 (body.drop k)).map fun i => slice body k (k + i) := by
  rw [objectContaining, find_eq_some_iff.mpr hfirst]

/-- What is returned stands at the brace that is found on the way back. -/
theorem begins_of_objectContaining (hfirst : FirstAt needle body at_)
    (h : objectContaining body needle = some (some object)) :
    ∃ k, openBefore 0 (body.take at_).reverse = some (some k) ∧ object <+: body.drop k := by
  rw [objectContaining_eq hfirst] at h
  obtain ⟨start, hstart, hclose⟩ := Option.map_eq_some_iff.mp h
  obtain ⟨k, rfl, hk⟩ := Option.bind_eq_some_iff.mp hclose
  obtain ⟨i, -, hi⟩ := Option.map_eq_some_iff.mp hk
  refine ⟨k, hstart, ?_⟩
  rw [← hi, slice]
  exact List.take_prefix _ _

/-- An object that is around the first match is returned from no other place. -/
theorem begin_eq {front back : Text} (hbody : body = front ++ (object ++ back))
    (hbegins : front.length ≤ at_) (hends : at_ + needle.length ≤ front.length + object.length)
    (hfirst : FirstAt needle body at_) {k : ℕ} (hk : object <+: body.drop k) (hlt : k < at_) :
    k = front.length := by
  have hfront : object <+: body.drop front.length := by
    rw [hbody, List.drop_left]
    exact List.prefix_append _ _
  rcases Nat.lt_trichotomy k front.length with hless | heq | hmore
  · -- The needle would stand in the earlier one.
    exact absurd (occurs_again hk hfront hbegins hends hfirst.occurs) (hfirst.first _ (by omega))
  · exact heq
  · exact absurd (occurs_again hfront hk hlt.le (by omega) hfirst.occurs)
      (hfirst.first _ (by omega))

/-- **The object is returned exactly if the match begins behind its brace and the braces between
them pair up.** -/
theorem objectContaining_eq_iff {front back : Text} (hobject : Derives .object object)
    (hbody : body = front ++ (object ++ back)) (hbegins : front.length ≤ at_)
    (hends : at_ + needle.length ≤ front.length + object.length)
    (hfirst : FirstAt needle body at_) :
    objectContaining body needle = some (some object) ↔
      front.length < at_ ∧ Paired ((body.take at_).drop (front.length + 1)) := by
  have hback : front.length < at_ → (openBefore 0 (body.take at_).reverse =
      some (some front.length) ↔ Paired ((body.take at_).drop (front.length + 1))) := by
    intro hlt
    -- Up to the match there is what is before the brace, the brace, and what is between.
    obtain ⟨u, hu, -⟩ := object_between hobject
    obtain ⟨n, hn⟩ := Nat.exists_eq_add_of_lt hlt
    have htake : body.take at_ = front ++ '{' :: ((u ++ ['}']) ++ back).take n := by
      rw [hbody, hu, hn, Nat.add_assoc, List.take_length_add_append, List.cons_append,
        List.take_succ_cons]
    rw [htake, openBefore_eq_iff, ← List.drop_drop, List.drop_left, List.drop_one, List.tail_cons]
  constructor
  · intro h
    obtain ⟨k, hopen, hk⟩ := begins_of_objectContaining hfirst h
    have hlt : k < at_ := by
      have hlength := openBefore_lt hopen
      rw [List.length_reverse, List.length_take] at hlength
      omega
    -- Anywhere else the needle would have occurred before.
    have hfront := begin_eq hbody hbegins hends hfirst hk hlt
    rw [hfront] at hopen hlt
    exact ⟨hlt, (hback hlt).mp hopen⟩
  · rintro ⟨hlt, hpaired⟩
    have hpos : 1 ≤ object.length := by
      obtain ⟨u, rfl, -⟩ := object_between hobject
      exact Nat.succ_pos _
    rw [objectContaining_eq hfirst, (hback hlt).mpr hpaired, Option.map_some, Option.bind_some,
      hbody, List.drop_left, closeAt_object hobject, Option.map_some, slice, List.drop_left,
      show front.length + (object.length - 1) + 1 - front.length = object.length by omega,
      List.take_left]

end Contains

/-- **The innermost object is returned exactly if the match begins behind its brace and the braces
on the way back to it pair up.** -/
theorem objectContaining_innermost_iff (d : Document) {needle : Text} {at_ : ℕ}
    (hfirst : FirstAt needle d.text at_) :
    ((∃ f o b, Encloses d at_ needle.length f o b) → ∃ f o b, Innermost d at_ needle.length f o b) ∧
    ∀ front object back, Innermost d at_ needle.length front object back →
      (objectContaining d.text needle = some (some object) ↔
        front.length < at_ ∧ Paired ((d.text.take at_).drop (front.length + 1))) := by
  constructor
  · rintro ⟨f, o, b, h⟩
    exact h.exists_innermost
  · intro front object back h
    exact objectContaining_eq_iff h.holds.isObject h.holds.text_eq h.begins h.ends hfirst

/-! ## Objects with one string before the match -/

theorem paired_of_not_mem {t : Text} (hopening : '{' ∉ t) (hclosing : '}' ∉ t) : Paired t := by
  have hnone : ∀ u, u <:+ t → u.count '{' = 0 ∧ u.count '}' = 0 := by
    intro u hu
    exact ⟨List.count_eq_zero.mpr fun h => hopening (hu.mem h),
      List.count_eq_zero.mpr fun h => hclosing (hu.mem h)⟩
  refine ⟨fun u hu => ?_, fun u hu => ?_, ?_⟩
  · rw [(hnone u hu).1, (hnone u hu).2]
  · rw [(hnone u hu).1, (hnone u hu).2]
    norm_num
  · rw [(hnone t (List.suffix_refl t)).1, (hnone t (List.suffix_refl t)).2]

/-- What is around a match goes from a brace before it to one behind it. -/
theorem least_of_braces {d : Document} {front before needle after back : Text}
    (htext : d.text = front ++ '{' :: (before ++ (needle ++ (after ++ '}' :: back))))
    (hne : needle ≠ []) (hopening : '{' ∉ before ++ needle) (hclosing : '}' ∉ needle ++ after)
    {f o b : Text} (h : Encloses d (front.length + 1 + before.length) needle.length f o b) :
    before.length + needle.length + after.length + 2 ≤ o.length := by
  obtain ⟨u, hu, -⟩ := object_between h.holds.isObject
  have hpos : 0 < needle.length := List.length_pos_iff.mpr hne
  have hlength : o.length = u.length + 2 := by
    rw [hu]
    simp
  have hboth := h.holds.text_eq.symm.trans htext
  have hbegins := h.begins
  have hends := h.ends
  -- The object begins no later than the brace, as none follows up to the match.
  have hfront : f.length ≤ front.length := by
    by_contra hlater
    obtain ⟨n, hn⟩ := Nat.exists_eq_add_of_lt (Nat.lt_of_not_le hlater)
    have hchar := congrArg (fun t => t[f.length]?) hboth
    simp only [hu] at hchar
    rw [List.getElem?_append_right (Nat.le_refl _), Nat.sub_self, List.cons_append,
      List.getElem?_cons_zero, hn, Nat.add_assoc,
      List.getElem?_append_right (Nat.le_add_right _ _), Nat.add_sub_cancel_left,
      List.getElem?_cons_succ, ← List.append_assoc before, List.getElem?_append_left
        (by rw [List.length_append]; omega)] at hchar
    exact hopening (List.mem_of_getElem? hchar.symm)
  -- It ends no earlier than the other, as none is before it from the match on.
  have hback : before.length + needle.length + after.length + front.length + 2 ≤
      f.length + o.length := by
    by_contra hearlier
    obtain ⟨n, hn⟩ : ∃ n, f.length + (u.length + 1) = front.length + (before.length + n + 1) :=
      ⟨f.length + u.length - front.length - before.length, by omega⟩
    have hchar := congrArg (fun t => t[f.length + (u.length + 1)]?) hboth
    have hlast : ('{' :: (u ++ ['}']) ++ b)[u.length + 1]? = some '}' := by simp
    simp only [hu] at hchar
    rw [List.getElem?_append_right (Nat.le_add_right _ _), Nat.add_sub_cancel_left, hlast, hn,
      List.getElem?_append_right (Nat.le_add_right _ _), Nat.add_sub_cancel_left,
      List.getElem?_cons_succ, List.getElem?_append_right (Nat.le_add_right _ _),
      Nat.add_sub_cancel_left, ← List.append_assoc needle, List.getElem?_append_left
        (by rw [List.length_append]; omega)] at hchar
    exact hclosing (List.mem_of_getElem? hchar.symm)
  omega

/-- `{"a":"…","symbol":"B"}` -/
def contractObject (pieces : List Piece) : FlatObject :=
  objectOf [memberA .none .none (.string pieces) .none,
    ⟨.none, ['s', 'y', 'm', 'b', 'o', 'l'], by simp [isPlain], .none, .none,
      .string [.plain 'B' rfl], .none⟩]

def contractDocument (pieces : List Piece) : Document :=
  ⟨.none, (contractObject pieces).core, .nested (contractObject pieces).derives, .none⟩

/-- `"symbol":"B"` -/
def contractNeedle : Text := '"' :: (['s', 'y', 'm', 'b', 'o', 'l'] ++ ['"', ':', '"', 'B', '"'])

/-- What is before the match. -/
def contractBefore (pieces : List Piece) : Text :=
  ['"', 'a', '"', ':'] ++ (quoted (written pieces) ++ [','])

theorem text_contractDocument (pieces : List Piece) : (contractDocument pieces).text =
    '{' :: (contractBefore pieces ++ (contractNeedle ++ ['}'])) := by
  simp [contractDocument, contractObject, contractBefore, contractNeedle, Document.text, objectOf,
    FlatObject.core, separated, Member.text, memberA, quoted, Scalar.text, Blank.none, written,
    Piece.text]

theorem contractObject_innermost {pieces : List Piece} (h : '{' ∉ written pieces) :
    Innermost (contractDocument pieces) (1 + (contractBefore pieces).length)
      contractNeedle.length [] (contractObject pieces).core [] := by
  have htext := text_contractDocument pieces
  have hholds : (contractDocument pieces).Holds [] (contractObject pieces).core [] :=
    ⟨[], [], .nested (.self (contractObject pieces).derives), rfl, rfl⟩
  have hlength : (contractObject pieces).core.length =
      (contractBefore pieces).length + contractNeedle.length + 2 := by
    have hcore := congrArg List.length (hholds.text_eq.symm.trans htext)
    simp only [List.nil_append, List.append_nil, List.length_cons, List.length_append,
      List.length_nil] at hcore
    omega
  have hopening : '{' ∉ contractBefore pieces ++ contractNeedle := by
    simp [contractBefore, contractNeedle, quoted, h]
  refine ⟨⟨hholds, Nat.zero_le _, ?_⟩, fun f o b hencloses => ?_⟩
  · rw [hlength, List.length_nil]
    omega
  · have hencloses' : Encloses (contractDocument pieces)
        (([] : Text).length + 1 + (contractBefore pieces).length) contractNeedle.length f o b := by
      rwa [List.length_nil, Nat.zero_add]
    have hshape : (contractDocument pieces).text =
        [] ++ '{' :: (contractBefore pieces ++ (contractNeedle ++ ([] ++ '}' :: []))) := htext
    have hleast := least_of_braces hshape (by simp [contractNeedle]) hopening
      (by simp [contractNeedle]) hencloses'
    rw [List.length_nil] at hleast
    omega

/-- A quote that is escaped in a string before the match ends nothing. -/
theorem objectContaining_innermost_iff_escaped :
    objectContaining (contractDocument [.escape .quote]).text contractNeedle =
      some (some (contractObject [.escape .quote]).core) := by
  have hfirst : FirstAt contractNeedle (contractDocument [.escape .quote]).text
      (1 + (contractBefore [.escape .quote]).length) := by
    rw [← find_eq_some_iff, text_contractDocument]
    decide +kernel
  have hpaired : Paired (((contractDocument [.escape .quote]).text.take
      (1 + (contractBefore [.escape .quote]).length)).drop 1) := by
    rw [text_contractDocument]
    exact paired_of_not_mem (by decide +kernel) (by decide +kernel)
  exact ((objectContaining_innermost_iff _ hfirst).2 _ _ _
    (contractObject_innermost (by decide))).mpr ⟨by decide +kernel, hpaired⟩

/-- In `{"a":"}","symbol":"B"}` the brace in the string is taken for one that closes an object. -/
theorem not_objectContaining_innermost : ¬ ∀ (d : Document) (needle : Text) (at_ : ℕ),
    FirstAt needle d.text at_ → ∀ front object back,
      Innermost d at_ needle.length front object back →
        objectContaining d.text needle = some (some object) := by
  intro hall
  have hfirst : FirstAt contractNeedle (contractDocument [.plain '}' rfl]).text
      (1 + (contractBefore [.plain '}' rfl]).length) := by
    rw [← find_eq_some_iff, text_contractDocument]
    decide +kernel
  have hreturned := hall _ _ _ hfirst _ _ _ (contractObject_innermost (by decide))
  have hnone : objectContaining (contractDocument [.plain '}' rfl]).text contractNeedle =
      some none := by
    rw [text_contractDocument]
    decide +kernel
  rw [hnone] at hreturned
  cases Option.some.inj hreturned

end Gateway.Json
