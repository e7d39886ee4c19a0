/-
# Tagged lists

Values in the order they came, each with a number.  Where the numbers do not fall, a list
is what it holds under each number (`eq_of_on`), and two lists that differ hold different
values first under the number of their first difference (`firstDifference_spec`).

Nothing here names the program under verification.
-/
import Mathlib

namespace Tagged

variable {α : Type}

/-! ## The values of a tag -/

/-- The values under a tag. -/
def on (l : List (Nat × α)) (tag : Nat) : List α := (l.filter (·.1 = tag)).map Prod.snd

/-- What is tagged up to a tag. -/
def through (l : List (Nat × α)) (tag : Nat) : List (Nat × α) := l.filter (·.1 ≤ tag)

/-- The tags do not fall. -/
def Rising (l : List (Nat × α)) : Prop := l.Pairwise fun a b => a.1 ≤ b.1

@[simp] theorem on_nil (tag : Nat) : on ([] : List (Nat × α)) tag = [] := rfl

theorem on_cons (e : Nat × α) (l : List (Nat × α)) (tag : Nat) :
    on (e :: l) tag = if e.1 = tag then e.2 :: on l tag else on l tag := by
  unfold on
  split
  · rename_i h
    rw [List.filter_cons_of_pos (by simpa using h), List.map_cons]
  · rename_i h
    rw [List.filter_cons_of_neg (by simpa using h)]

theorem on_append (l l' : List (Nat × α)) (tag : Nat) :
    on (l ++ l') tag = on l tag ++ on l' tag := by
  unfold on
  rw [List.filter_append, List.map_append]

theorem on_eq_nil {l : List (Nat × α)} {tag : Nat} (h : ∀ e ∈ l, e.1 ≠ tag) : on l tag = [] := by
  unfold on
  rw [List.map_eq_nil_iff, List.filter_eq_nil_iff]
  intro e he
  simpa using h e he

theorem on_ne_nil_iff {l : List (Nat × α)} {tag : Nat} :
    on l tag ≠ [] ↔ tag ∈ l.map Prod.fst := by
  unfold on
  rw [Ne, List.map_eq_nil_iff, List.filter_eq_nil_iff]
  simp only [decide_eq_true_eq, not_forall, not_not, List.mem_map, exists_prop]

theorem on_through (l : List (Nat × α)) (last tag : Nat) :
    on (through l last) tag = if tag ≤ last then on l tag else [] := by
  unfold on through
  rw [List.filter_filter]
  split
  · rename_i hle
    congr 1
    refine List.filter_congr fun e _ => ?_
    by_cases htag : e.1 = tag
    · simp [htag, hle]
    · simp [htag]
  · rename_i hgt
    rw [List.map_eq_nil_iff, List.filter_eq_nil_iff]
    intro e _ h
    rw [Bool.and_eq_true, decide_eq_true_eq, decide_eq_true_eq] at h
    omega

theorem Rising.through {l : List (Nat × α)} (h : Rising l) (last : Nat) :
    Rising (through l last) :=
  List.Pairwise.filter _ h

/-- Nothing in a rising list comes before its first entry. -/
theorem Rising.on_lt {e : Nat × α} {l : List (Nat × α)} (h : Rising (e :: l)) {tag : Nat}
    (htag : tag < e.1) : on (e :: l) tag = [] := by
  refine on_eq_nil fun x hx => ?_
  rcases List.mem_cons.mp hx with rfl | hx
  · omega
  · have := (List.pairwise_cons.mp h).1 x hx
    omega

/-! ## The first difference -/

variable [DecidableEq α]

/-- The tag of the first place where two lists differ. -/
def firstDifference (a b : List (Nat × α)) (default : Nat) : Nat :=
  match (a.zip b).find? fun p => p.1 ≠ p.2 with
  | some (x, y) => min x.1 y.1
  | none => (a[b.length]?.or b[a.length]?).elim default Prod.fst

theorem firstDifference_cons_self (x : Nat × α) (a b : List (Nat × α)) (default : Nat) :
    firstDifference (x :: a) (x :: b) default = firstDifference a b default := by
  unfold firstDifference
  rw [List.zip_cons_cons, List.find?_cons_of_neg (by simp)]
  simp only [List.length_cons, List.getElem?_cons_succ]

/-- **Where two lists differ first** they hold different values, and the same before. -/
theorem firstDifference_spec {a b : List (Nat × α)} (ha : Rising a) (hb : Rising b) (hne : a ≠ b)
    (default : Nat) :
    (∀ tag < firstDifference a b default, on a tag = on b tag) ∧
      on a (firstDifference a b default) ≠ on b (firstDifference a b default) := by
  induction a generalizing b with
  | nil =>
    cases b with
    | nil => exact absurd rfl hne
    | cons y b =>
      refine ⟨fun tag htag => (hb.on_lt htag).symm, ?_⟩
      show [] ≠ on (y :: b) y.1
      rw [on_cons, if_pos rfl]
      exact (List.cons_ne_nil _ _).symm
  | cons x a ih =>
    cases b with
    | nil =>
      refine ⟨fun tag htag => ha.on_lt htag, ?_⟩
      show on (x :: a) x.1 ≠ []
      rw [on_cons, if_pos rfl]
      exact List.cons_ne_nil _ _
    | cons y b =>
      by_cases hxy : x = y
      · subst hxy
        have hrest : a ≠ b := fun h => hne (by rw [h])
        obtain ⟨hbefore, hat⟩ :=
          ih (List.pairwise_cons.mp ha).2 (List.pairwise_cons.mp hb).2 hrest
        rw [firstDifference_cons_self]
        refine ⟨fun tag htag => ?_, fun heq => hat ?_⟩
        · rw [on_cons, on_cons, hbefore tag htag]
        · rw [on_cons, on_cons] at heq
          split at heq
          · exact (List.cons.inj heq).2
          · exact heq
      · have hfirst : firstDifference (x :: a) (y :: b) default = min x.1 y.1 := by
          unfold firstDifference
          rw [List.zip_cons_cons, List.find?_cons_of_pos (by simpa using hxy)]
        rw [hfirst]
        refine ⟨fun tag htag => ?_, ?_⟩
        · rw [ha.on_lt (lt_of_lt_of_le htag (min_le_left _ _)),
            hb.on_lt (lt_of_lt_of_le htag (min_le_right _ _))]
        -- the one that comes first is not matched in the other list
        rcases lt_trichotomy x.1 y.1 with hlt | heq | hgt
        · rw [min_eq_left hlt.le, hb.on_lt hlt, on_cons, if_pos rfl]
          exact List.cons_ne_nil _ _
        · rw [heq, min_self, on_cons, on_cons, if_pos heq, if_pos rfl]
          exact fun h => hxy (Prod.ext heq (List.cons.inj h).1)
        · rw [min_eq_right hgt.le, ha.on_lt hgt, on_cons, if_pos rfl]
          exact (List.cons_ne_nil _ _).symm

/-- A rising list is what it holds under each tag. -/
theorem eq_of_on {a b : List (Nat × α)} (ha : Rising a) (hb : Rising b)
    (h : ∀ tag, on a tag = on b tag) : a = b := by
  by_contra hne
  exact (firstDifference_spec ha hb hne 0).2 (h _)

theorem through_ne_iff {a b : List (Nat × α)} (ha : Rising a) (hb : Rising b) (last : Nat) :
    through a last ≠ through b last ↔ ∃ tag ≤ last, on a tag ≠ on b tag := by
  constructor
  · intro hne
    by_contra! hall
    refine hne (eq_of_on (ha.through last) (hb.through last) fun tag => ?_)
    rw [on_through, on_through]
    split
    · exact hall tag ‹_›
    · rfl
  · rintro ⟨tag, hle, hdiff⟩ heq
    have hon := congrArg (on · tag) heq
    simp only [on_through, if_pos hle] at hon
    exact hdiff hon

/-- The first difference up to a tag is the least tag where the lists differ at all. -/
theorem isLeast_firstDifference {a b : List (Nat × α)} (ha : Rising a) (hb : Rising b)
    {last : Nat} (hne : through a last ≠ through b last) (default : Nat) :
    IsLeast {tag | on a tag ≠ on b tag}
        (firstDifference (through a last) (through b last) default) ∧
      firstDifference (through a last) (through b last) default ≤ last := by
  obtain ⟨hbefore, hat⟩ := firstDifference_spec (ha.through last) (hb.through last) hne default
  generalize firstDifference (through a last) (through b last) default = tag at hbefore hat
  have hle : tag ≤ last := by
    by_contra hgt
    rw [on_through, on_through, if_neg hgt, if_neg hgt] at hat
    exact hat rfl
  rw [on_through, on_through, if_pos hle, if_pos hle] at hat
  refine ⟨⟨hat, fun tag' htag' => ?_⟩, hle⟩
  by_contra hlt
  have hsame := hbefore tag' (not_le.mp hlt)
  rw [on_through, on_through, if_pos (by omega), if_pos (by omega)] at hsame
  exact htag' hsame

/-! ## The tags -/

/-- The tags there are; equal ones in a row count once. -/
def tags (l : List (Nat × α)) : List Nat := (l.map Prod.fst).destutter (· ≠ ·)

omit [DecidableEq α] in
theorem tags_eq_dedup {l : List (Nat × α)} (h : Rising l) : tags l = (l.map Prod.fst).dedup :=
  (List.pairwise_map.mpr h).destutter_eq_dedup

omit [DecidableEq α] in
theorem mem_tags {l : List (Nat × α)} (h : Rising l) {tag : Nat} :
    tag ∈ tags l ↔ on l tag ≠ [] := by
  rw [tags_eq_dedup h, List.mem_dedup, on_ne_nil_iff]

omit [DecidableEq α] in
/-- Each tag once, and in order. -/
theorem pairwise_tags {l : List (Nat × α)} (h : Rising l) : (tags l).Pairwise (· < ·) := by
  have hle : (tags l).Pairwise (· ≤ ·) :=
    (List.pairwise_map.mpr h).sublist (List.destutter_sublist _ _)
  have hnodup : (tags l).Nodup := by
    rw [tags_eq_dedup h]
    exact List.nodup_dedup _
  exact hle.imp₂ (fun _ _ hle hne => lt_of_le_of_ne hle hne) hnodup

/-! ## Lists by tag -/

omit [DecidableEq α]

/-- The values of each tag, from a first one on. -/
def tagged (first : Nat) : List (List α) → List (Nat × α)
  | [] => []
  | values :: rest => values.map (first, ·) ++ tagged (first + 1) rest

theorem le_of_mem_tagged {first : Nat} {values : List (List α)} {e : Nat × α}
    (h : e ∈ tagged first values) : first ≤ e.1 := by
  induction values generalizing first with
  | nil => exact absurd h List.not_mem_nil
  | cons v rest ih =>
    rcases List.mem_append.mp h with hv | hrest
    · obtain ⟨x, -, rfl⟩ := List.mem_map.mp hv
      exact Nat.le_refl first
    · exact Nat.le_of_succ_le (ih hrest)

/-- What was put under a tag is under it. -/
theorem on_tagged (first i : Nat) (values : List (List α)) :
    on (tagged first values) (first + i) = values.getD i [] := by
  induction values generalizing first i with
  | nil => rfl
  | cons v rest ih =>
    show on (v.map (first, ·) ++ tagged (first + 1) rest) (first + i) = _
    rw [on_append]
    cases i with
    | zero =>
      have hrest : on (tagged (first + 1) rest) first = [] := on_eq_nil fun e he => by
        have := le_of_mem_tagged he
        omega
      rw [add_zero, hrest, List.append_nil, List.getD_cons_zero]
      unfold on
      rw [List.filter_eq_self.mpr (by simp), List.map_map]
      exact List.map_id v
    | succ i =>
      have hfirst : on (v.map (first, ·)) (first + (i + 1)) = [] := on_eq_nil fun e he => by
        obtain ⟨x, -, rfl⟩ := List.mem_map.mp he
        show first ≠ first + (i + 1)
        omega
      rw [hfirst, List.nil_append, List.getD_cons_succ, ← ih (first + 1) i]
      congr 1
      omega

end Tagged
