/-
# Every fill is accounted for (`oq-parity/src/diff.rs`)

The walk over two streams of fills is a step that is repeated: what the fills at the cursors
ask for is reported, and the cursors move behind it.

* A step accounts for the fills it moves behind (`report_explains`), and what it reports as a
  mismatch are the fills it meets; so does the walk (`alignFrom_told`).
* The walk has a result if the numbers of the fills it meets have differences
  (`alignFrom_isSome_iff`), and its first difference is where the streams stop to agree
  (`head?_align`).
* A mismatch has one position for two cursors, which drift apart (`placed_iff`).
-/
import OpenQuanter.FillDiff

namespace Parity

/-! ## One step -/

section Step

variable (baseline candidate : List RunFill)

/-- Where the cursors move. -/
def advance (i j : ℕ) : Turn → ℕ × ℕ
  | .same => (i + 1, j + 1)
  | .inserted offset => (i, j + offset)
  | .dropped offset => (i + offset, j)
  | .mismatch => (i + 1, j + 1)

/-- What is reported. -/
def report (i j : ℕ) (x y : RunFill) : Turn → Option (List Difference)
  | .same => some []
  | .inserted offset => some (extras j ((candidate.drop j).take offset))
  | .dropped offset => some (missings i ((baseline.drop i).take offset))
  | .mismatch => (fieldDifferences x y).map fun fields => [.mismatch i fields x y]

/-- The turn at two cursors. -/
def turnAt (i j : ℕ) (hi : i < baseline.length) (hj : j < candidate.length) : Turn :=
  turn baseline[i] candidate[j] (baseline.drop i) (candidate.drop j)

variable {baseline candidate} {i j : ℕ} {differences : List Difference}

theorem alignFrom_step (hi : i < baseline.length) (hj : j < candidate.length) :
    alignFrom baseline candidate i j differences =
      (report baseline candidate i j baseline[i] candidate[j]
        (turnAt baseline candidate i j hi hj)).bind fun new =>
          alignFrom baseline candidate (advance i j (turnAt baseline candidate i j hi hj)).1
            (advance i j (turnAt baseline candidate i j hi hj)).2 (differences ++ new) := by
  rw [alignFrom, dif_pos ⟨hi, hj⟩]
  split <;> rename_i hturn <;> rw [turnAt, hturn]
  · simp [report, advance]
  · rfl
  · rfl
  · simp [report, advance, Option.bind_map]

theorem alignFrom_end (h : ¬ (i < baseline.length ∧ j < candidate.length)) :
    alignFrom baseline candidate i j differences =
      some (differences ++ missings i (baseline.drop i) ++ extras j (candidate.drop j)) := by
  rw [alignFrom, dif_neg h]

/-- Induction along the walk: a statement about what is left of it. -/
theorem walk_induction (baseline candidate : List RunFill)
    {motive : ℕ → ℕ → List Difference → Prop}
    (step : ∀ i j differences (hi : i < baseline.length) (hj : j < candidate.length),
      (∀ new, report baseline candidate i j baseline[i] candidate[j]
          (turnAt baseline candidate i j hi hj) = some new →
        motive (advance i j (turnAt baseline candidate i j hi hj)).1
          (advance i j (turnAt baseline candidate i j hi hj)).2 (differences ++ new)) →
      motive i j differences)
    (finish : ∀ i j differences, ¬ (i < baseline.length ∧ j < candidate.length) →
      motive i j differences) (i j : ℕ) (differences : List Difference) :
    motive i j differences := by
  refine alignFrom.induct baseline candidate motive ?_ ?_ ?_ ?_ finish i j differences
  · intro i j differences h hturn ih
    refine step i j differences h.1 h.2 fun new hnew => ?_
    rw [turnAt, hturn] at hnew ⊢
    obtain rfl : [] = new := Option.some.inj hnew
    rwa [List.append_nil]
  · intro i j differences h offset hturn ih
    refine step i j differences h.1 h.2 fun new hnew => ?_
    rw [turnAt, hturn] at hnew ⊢
    obtain rfl : _ = new := Option.some.inj hnew
    exact ih
  · intro i j differences h offset hturn ih
    refine step i j differences h.1 h.2 fun new hnew => ?_
    rw [turnAt, hturn] at hnew ⊢
    obtain rfl : _ = new := Option.some.inj hnew
    exact ih
  · intro i j differences h hturn ih
    refine step i j differences h.1 h.2 fun new hnew => ?_
    rw [turnAt, hturn] at hnew ⊢
    obtain ⟨fields, -, rfl⟩ := Option.map_eq_some_iff.mp hnew
    exact ih fields

end Step

/-! ## Accounting -/

/-- A difference as a step of an edit script. -/
def Difference.edit : Difference → Edit RunFill
  | missing _ fill => .deleted fill
  | extra _ fill => .inserted fill
  | mismatch _ _ baseline candidate => .replaced baseline candidate

/-- The same event, as a relation. -/
def Same (f g : RunFill) : Prop := f.sameEvent g = true

theorem map_edit_extras (j : ℕ) (fills : List RunFill) :
    (extras j fills).map Difference.edit = fills.map .inserted := by
  have hfst := List.zipIdx_map_fst j fills
  rw [extras, List.map_map]
  conv_rhs => rw [← hfst, List.map_map]
  rfl

theorem map_edit_missings (i : ℕ) (fills : List RunFill) :
    (missings i fills).map Difference.edit = fills.map .deleted := by
  have hfst := List.zipIdx_map_fst i fills
  rw [missings, List.map_map]
  conv_rhs => rw [← hfst, List.map_map]
  rfl

section Accounts

variable {baseline candidate : List RunFill} {i j : ℕ} {differences out : List Difference}

/-- A script of the fills from two cursors on, and the differences it shows. -/
def Explains (baseline candidate : List RunFill) (i j : ℕ) (new : List Difference) : Prop :=
  ∃ script : List (Edit RunFill), Edit.Accounts Same script (baseline.drop i) (candidate.drop j) ∧
    script.filter Edit.changed = new.map Difference.edit

namespace Explains

variable {rest : List Difference}

theorem kept (hi : i < baseline.length) (hj : j < candidate.length)
    (hsame : Same baseline[i] candidate[j])
    (h : Explains baseline candidate (i + 1) (j + 1) rest) :
    Explains baseline candidate i j rest := by
  obtain ⟨script, hscript, hshown⟩ := h
  refine ⟨.kept baseline[i] candidate[j] :: script, ?_, hshown⟩
  rw [List.drop_eq_getElem_cons hi, List.drop_eq_getElem_cons hj]
  exact hscript.cons_kept hsame

theorem replaced (hi : i < baseline.length) (hj : j < candidate.length) (index : ℕ)
    (fields : List FieldDifference) (h : Explains baseline candidate (i + 1) (j + 1) rest) :
    Explains baseline candidate i j
      (.mismatch index fields baseline[i] candidate[j] :: rest) := by
  obtain ⟨script, hscript, hshown⟩ := h
  refine ⟨.replaced baseline[i] candidate[j] :: script, ?_, ?_⟩
  · rw [List.drop_eq_getElem_cons hi, List.drop_eq_getElem_cons hj]
    exact hscript.cons_replaced baseline[i] candidate[j]
  · rw [List.map_cons, ← hshown]
    rfl

/-- The next fills of the candidate are extra. -/
theorem inserted (offset : ℕ) (h : Explains baseline candidate i (j + offset) rest) :
    Explains baseline candidate i j (extras j ((candidate.drop j).take offset) ++ rest) := by
  obtain ⟨script, hscript, hshown⟩ := h
  refine ⟨((candidate.drop j).take offset).map .inserted ++ script, ?_, ?_⟩
  · have hall := hscript.append_inserted ((candidate.drop j).take offset)
    rwa [← List.drop_drop, List.take_append_drop] at hall
  · rw [List.filter_append, Edit.filter_changed_inserted, hshown, List.map_append,
      map_edit_extras]

/-- The next fills of the baseline are missing. -/
theorem dropped (offset : ℕ) (h : Explains baseline candidate (i + offset) j rest) :
    Explains baseline candidate i j (missings i ((baseline.drop i).take offset) ++ rest) := by
  obtain ⟨script, hscript, hshown⟩ := h
  refine ⟨((baseline.drop i).take offset).map .deleted ++ script, ?_, ?_⟩
  · have hall := hscript.append_deleted ((baseline.drop i).take offset)
    rwa [← List.drop_drop, List.take_append_drop] at hall
  · rw [List.filter_append, Edit.filter_changed_deleted, hshown, List.map_append,
      map_edit_missings]

end Explains

/-- **One step** accounts for the fills it moves behind. -/
theorem report_explains (hi : i < baseline.length) (hj : j < candidate.length)
    {new rest : List Difference}
    (hnew : report baseline candidate i j baseline[i] candidate[j]
      (turnAt baseline candidate i j hi hj) = some new)
    (hrest : Explains baseline candidate
      (advance i j (turnAt baseline candidate i j hi hj)).1
      (advance i j (turnAt baseline candidate i j hi hj)).2 rest) :
    Explains baseline candidate i j (new ++ rest) := by
  cases hturn : turnAt baseline candidate i j hi hj with
  | same =>
    rw [hturn] at hnew hrest
    obtain rfl : [] = new := Option.some.inj hnew
    exact hrest.kept hi hj (turn_same hturn)
  | inserted offset =>
    rw [hturn] at hnew hrest
    obtain rfl : extras j ((candidate.drop j).take offset) = new := Option.some.inj hnew
    exact hrest.inserted offset
  | dropped offset =>
    rw [hturn] at hnew hrest
    obtain rfl : missings i ((baseline.drop i).take offset) = new := Option.some.inj hnew
    exact hrest.dropped offset
  | mismatch =>
    rw [hturn] at hnew hrest
    obtain ⟨fields, -, rfl⟩ := Option.map_eq_some_iff.mp hnew
    exact hrest.replaced hi hj i fields

/-- What is left of one stream when the other has ended. -/
theorem explains_end (i j : ℕ) : Explains baseline candidate i j
    (missings i (baseline.drop i) ++ extras j (candidate.drop j)) := by
  refine ⟨(baseline.drop i).map .deleted ++ ((candidate.drop j).map .inserted ++ []), ?_, ?_⟩
  · have hnone : Edit.Accounts Same ([] : List (Edit RunFill)) [] [] := Edit.Accounts.nil
    have hall := (hnone.append_inserted (candidate.drop j)).append_deleted (baseline.drop i)
    simpa only [List.append_nil] using hall
  · rw [List.filter_append, List.filter_append, Edit.filter_changed_deleted,
      Edit.filter_changed_inserted, List.filter_nil, List.append_nil, List.map_append,
      map_edit_missings, map_edit_extras]

end Accounts

/-! ## What the walk comes to -/

section Meets

variable (baseline candidate : List RunFill)

/-- One step of the cursors. -/
def Step (p q : ℕ × ℕ) : Prop :=
  ∃ (hi : p.1 < baseline.length) (hj : p.2 < candidate.length),
    q = advance p.1 p.2 (turnAt baseline candidate p.1 p.2 hi hj)

/-- From the cursors `p` the walk comes to `q`, where fills are that are found in neither
stream: neither at the other cursor nor a little further on. -/
structure Meets (p q : ℕ × ℕ) (x y : RunFill) : Prop where
  walk : Relation.ReflTransGen (Step baseline candidate) p q
  left : baseline[q.1]? = some x
  right : candidate[q.2]? = some y
  turn : turn x y (baseline.drop q.1) (candidate.drop q.2) = .mismatch

variable {baseline candidate} {i j : ℕ} {q : ℕ × ℕ} {x y : RunFill}

/-- What the walk comes to is met at once or after one step. -/
theorem meets_iff (hi : i < baseline.length) (hj : j < candidate.length) :
    Meets baseline candidate (i, j) q x y ↔
      (turnAt baseline candidate i j hi hj = .mismatch ∧ q = (i, j) ∧ x = baseline[i] ∧
        y = candidate[j]) ∨
      Meets baseline candidate (advance i j (turnAt baseline candidate i j hi hj)) q x y := by
  constructor
  · rintro ⟨hwalk, hleft, hright, hturn⟩
    rcases Relation.ReflTransGen.cases_head hwalk with rfl | ⟨r, ⟨_, _, rfl⟩, hrest⟩
    · rw [List.getElem?_eq_getElem hi] at hleft
      rw [List.getElem?_eq_getElem hj] at hright
      obtain rfl : baseline[i] = x := Option.some.inj hleft
      obtain rfl : candidate[j] = y := Option.some.inj hright
      exact .inl ⟨hturn, rfl, rfl, rfl⟩
    · exact .inr ⟨hrest, hleft, hright, hturn⟩
  · rintro (⟨hturn, rfl, rfl, rfl⟩ | ⟨hwalk, hleft, hright, hturn⟩)
    · exact ⟨.refl, List.getElem?_eq_getElem hi, List.getElem?_eq_getElem hj, hturn⟩
    · exact ⟨.head ⟨hi, hj, rfl⟩ hwalk, hleft, hright, hturn⟩

theorem not_meets_of_end (h : ¬ (i < baseline.length ∧ j < candidate.length)) :
    ¬ Meets baseline candidate (i, j) q x y := by
  rintro ⟨hwalk, hleft, hright, -⟩
  rcases Relation.ReflTransGen.cases_head hwalk with rfl | ⟨r, ⟨hi, hj, -⟩, -⟩
  · exact h ⟨(List.getElem?_eq_some_iff.mp hleft).1, (List.getElem?_eq_some_iff.mp hright).1⟩
  · exact h ⟨hi, hj⟩

end Meets

/-! ## Where there is a result -/

/-- The numbers of two fills have differences. -/
def DifferencesFit (x y : RunFill) : Prop :=
  FitsI64 (y.ts.toInt - x.ts.toInt) ∧ FitsI64 (y.price.toInt - x.price.toInt) ∧
    FitsI64 (y.qty.toInt - x.qty.toInt)

theorem numberDifference_isSome_iff (field : String) (b c : Int64) :
    (numberDifference field b c).isSome ↔ FitsI64 (c.toInt - b.toInt) := by
  unfold numberDifference
  by_cases h : b = c
  · subst h
    simp [FitsI64]
  · by_cases hfit : FitsI64 (c.toInt - b.toInt) <;> simp [h, hfit]

theorem fieldDifferences_isSome_iff (x y : RunFill) :
    (fieldDifferences x y).isSome ↔ DifferencesFit x y := by
  have hts := numberDifference_isSome_iff "ts" x.ts y.ts
  have hprice := numberDifference_isSome_iff "price" x.price y.price
  have hqty := numberDifference_isSome_iff "qty" x.qty y.qty
  unfold DifferencesFit fieldDifferences
  rw [← hts, ← hprice, ← hqty]
  cases numberDifference "ts" x.ts y.ts <;> cases numberDifference "price" x.price y.price <;>
    cases numberDifference "qty" x.qty y.qty <;> simp

/-- A step has a result unless it is a mismatch whose numbers have no difference. -/
theorem report_isSome_iff (i j : ℕ) (x y : RunFill) (t : Turn) (baseline candidate : List RunFill) :
    (report baseline candidate i j x y t).isSome ↔ (t = .mismatch → DifferencesFit x y) := by
  cases t with
  | same => simp [report]
  | inserted offset => simp [report]
  | dropped offset => simp [report]
  | mismatch => simp [report, fieldDifferences_isSome_iff]

/-- **The walk ends** exactly if the numbers of all mismatches it comes to have differences. -/
theorem alignFrom_isSome_iff (baseline candidate : List RunFill) (i j : ℕ)
    (differences : List Difference) :
    (alignFrom baseline candidate i j differences).isSome ↔
      ∀ q x y, Meets baseline candidate (i, j) q x y → DifferencesFit x y := by
  induction i, j, differences using walk_induction baseline candidate with
  | step i j differences hi hj ih =>
    rw [alignFrom_step hi hj]
    have hreport := report_isSome_iff i j baseline[i] candidate[j]
      (turnAt baseline candidate i j hi hj) baseline candidate
    cases hnew : report baseline candidate i j baseline[i] candidate[j]
        (turnAt baseline candidate i j hi hj) with
    | none =>
      rw [hnew] at hreport
      -- the mismatch here is the first that is met
      refine ⟨fun hsome => (nomatch hsome), fun hall => ?_⟩
      have hmet : turnAt baseline candidate i j hi hj = .mismatch →
          DifferencesFit baseline[i] candidate[j] := fun hturn =>
        hall (i, j) _ _ ((meets_iff hi hj).mpr (.inl ⟨hturn, rfl, rfl, rfl⟩))
      cases hreport.mpr hmet
    | some new =>
      rw [hnew] at hreport
      rw [Option.bind_some, ih new hnew]
      refine ⟨fun hall q x y hmeets => ?_, fun hall q x y hmeets => ?_⟩
      · rcases (meets_iff hi hj).mp hmeets with ⟨hturn, -, rfl, rfl⟩ | hlater
        · exact hreport.mp rfl hturn
        · exact hall q x y hlater
      · exact hall q x y ((meets_iff hi hj).mpr (.inr hmeets))
  | finish i j differences hend =>
    rw [alignFrom_end hend]
    exact ⟨fun _ q x y hmeets => absurd hmeets (not_meets_of_end hend), fun _ => rfl⟩

/-! ## Positions -/

/-- Whether the fills of a difference stand where it says. -/
def Difference.Placed (baseline candidate : List RunFill) : Difference → Prop
  | missing index fill => baseline[index]? = some fill
  | extra index fill => candidate[index]? = some fill
  | mismatch index _ x y => baseline[index]? = some x ∧ candidate[index]? = some y

section Told

variable {baseline candidate : List RunFill} {i j : ℕ} {p : ℕ × ℕ}
  {differences new : List Difference}

/-- What may be reported from two cursors on: fills of one stream with their positions, and
fills that are met, with the position of the first. -/
def Reported (baseline candidate : List RunFill) (p : ℕ × ℕ) : Difference → Prop
  | .missing index fill => baseline[index]? = some fill
  | .extra index fill => candidate[index]? = some fill
  | .mismatch index fields x y => ∃ n, Meets baseline candidate p (index, n) x y ∧
      fieldDifferences x y = some fields

/-- The differences that a walk from two cursors on tells: they account for all fills, each is
one that may be reported, and each pair of fills that is met is among them. -/
structure Told (baseline candidate : List RunFill) (i j : ℕ) (new : List Difference) : Prop where
  explains : Explains baseline candidate i j new
  reported : ∀ d ∈ new, Reported baseline candidate (i, j) d
  met : ∀ q x y, Meets baseline candidate (i, j) q x y →
    ∃ fields, Difference.mismatch q.1 fields x y ∈ new

/-- Numbering from a position on gives positions. -/
theorem getElem?_of_mem_zipIdx {fills some_ : List RunFill} {fill : RunFill} {index : ℕ}
    (hcommon : some_ <+: fills.drop i) (h : (fill, index) ∈ some_.zipIdx i) :
    fills[index]? = some fill := by
  obtain ⟨rest, hrest⟩ := hcommon
  obtain ⟨hle, hget⟩ := List.mk_mem_zipIdx_iff_le_and_getElem?_sub.mp h
  have hdrop : (fills.drop i)[index - i]? = some fill := by
    rw [← hrest, List.getElem?_append_left (List.getElem?_eq_some_iff.mp hget).1, hget]
  rwa [List.getElem?_drop, Nat.add_sub_of_le hle] at hdrop

theorem reported_of_mem_missings {some_ : List RunFill} {d : Difference}
    (hcommon : some_ <+: baseline.drop i) (h : d ∈ missings i some_) :
    Reported baseline candidate p d := by
  obtain ⟨⟨fill, index⟩, hmem, rfl⟩ := List.mem_map.mp h
  exact getElem?_of_mem_zipIdx hcommon hmem

theorem reported_of_mem_extras {some_ : List RunFill} {d : Difference}
    (hcommon : some_ <+: candidate.drop j) (h : d ∈ extras j some_) :
    Reported baseline candidate p d := by
  obtain ⟨⟨fill, index⟩, hmem, rfl⟩ := List.mem_map.mp h
  exact getElem?_of_mem_zipIdx hcommon hmem

/-- What a step reports may be reported. -/
theorem reported_of_report (hi : i < baseline.length) (hj : j < candidate.length)
    (hnew : report baseline candidate i j baseline[i] candidate[j]
      (turnAt baseline candidate i j hi hj) = some new) {d : Difference} (hd : d ∈ new) :
    Reported baseline candidate (i, j) d := by
  cases hturn : turnAt baseline candidate i j hi hj with
  | same =>
    rw [hturn] at hnew
    obtain rfl : [] = new := Option.some.inj hnew
    exact absurd hd List.not_mem_nil
  | inserted offset =>
    rw [hturn] at hnew
    obtain rfl : extras j ((candidate.drop j).take offset) = new := Option.some.inj hnew
    exact reported_of_mem_extras (List.take_prefix _ _) hd
  | dropped offset =>
    rw [hturn] at hnew
    obtain rfl : missings i ((baseline.drop i).take offset) = new := Option.some.inj hnew
    exact reported_of_mem_missings (List.take_prefix _ _) hd
  | mismatch =>
    rw [hturn] at hnew
    obtain ⟨fields, hfields, rfl⟩ := Option.map_eq_some_iff.mp hnew
    obtain rfl := List.mem_singleton.mp hd
    exact ⟨j, (meets_iff hi hj).mpr (.inl ⟨hturn, rfl, rfl, rfl⟩), hfields⟩

/-- What may be reported later may be reported now. -/
theorem reported_of_later (hi : i < baseline.length) (hj : j < candidate.length) {d : Difference}
    (h : Reported baseline candidate
      (advance i j (turnAt baseline candidate i j hi hj)) d) :
    Reported baseline candidate (i, j) d := by
  cases d with
  | missing index fill => exact h
  | extra index fill => exact h
  | mismatch index fields x y =>
    obtain ⟨n, hmeets, hfields⟩ := h
    exact ⟨n, (meets_iff hi hj).mpr (.inr hmeets), hfields⟩

/-- **One step tells**, and then the walk from there on. -/
theorem told_step (hi : i < baseline.length) (hj : j < candidate.length) {rest : List Difference}
    (hnew : report baseline candidate i j baseline[i] candidate[j]
      (turnAt baseline candidate i j hi hj) = some new)
    (hrest : Told baseline candidate (advance i j (turnAt baseline candidate i j hi hj)).1
      (advance i j (turnAt baseline candidate i j hi hj)).2 rest) :
    Told baseline candidate i j (new ++ rest) := by
  refine ⟨report_explains hi hj hnew hrest.explains, fun d hd => ?_, fun q x y hmeets => ?_⟩
  · rcases List.mem_append.mp hd with hd | hd
    · exact reported_of_report hi hj hnew hd
    · exact reported_of_later hi hj (hrest.reported d hd)
  · rcases (meets_iff hi hj).mp hmeets with ⟨hturn, rfl, rfl, rfl⟩ | hlater
    · rw [hturn] at hnew
      obtain ⟨fields, -, rfl⟩ := Option.map_eq_some_iff.mp hnew
      exact ⟨fields, List.mem_append_left _ (List.mem_singleton.mpr rfl)⟩
    · obtain ⟨fields, hmem⟩ := hrest.met q x y hlater
      exact ⟨fields, List.mem_append_right _ hmem⟩

/-- At the end of one stream the other is told. -/
theorem told_end (h : ¬ (i < baseline.length ∧ j < candidate.length)) :
    Told baseline candidate i j (missings i (baseline.drop i) ++ extras j (candidate.drop j)) := by
  refine ⟨explains_end i j, fun d hd => ?_, fun q x y hmeets => ?_⟩
  · rcases List.mem_append.mp hd with hd | hd
    · exact reported_of_mem_missings (List.prefix_refl _) hd
    · exact reported_of_mem_extras (List.prefix_refl _) hd
  · exact absurd hmeets (not_meets_of_end h)

/-- **The whole walk** tells all. -/
theorem alignFrom_told {out : List Difference}
    (h : alignFrom baseline candidate i j differences = some out) :
    ∃ new, out = differences ++ new ∧ Told baseline candidate i j new := by
  induction i, j, differences using walk_induction baseline candidate with
  | step i j differences hi hj ih =>
    rw [alignFrom_step hi hj] at h
    obtain ⟨new, hnew, h⟩ := Option.bind_eq_some_iff.mp h
    obtain ⟨rest, rfl, hrest⟩ := ih new hnew h
    exact ⟨new ++ rest, List.append_assoc _ _ _, told_step hi hj hnew hrest⟩
  | finish i j differences hend =>
    rw [alignFrom_end hend] at h
    obtain rfl : _ = out := Option.some.inj h
    exact ⟨_, List.append_assoc _ _ _, told_end hend⟩

theorem align_told {out : List Difference} (h : align baseline candidate = some out) :
    Told baseline candidate 0 0 out := by
  obtain ⟨new, rfl, htold⟩ := alignFrom_told h
  exact htold

end Told

/-! ## The first difference -/

section First

variable {baseline candidate : List RunFill}

/-- Over what both streams begin with the cursors move together. -/
theorem alignFrom_commonPrefix {i j : ℕ} {xs ys : List RunFill} (hx : baseline.drop i = xs)
    (hy : candidate.drop j = ys) (differences : List Difference) :
    alignFrom baseline candidate i j differences =
      alignFrom baseline candidate (i + commonPrefix RunFill.sameEvent xs ys)
        (j + commonPrefix RunFill.sameEvent xs ys) differences := by
  induction xs generalizing i j ys with
  | nil => rfl
  | cons x xs ih =>
    cases ys with
    | nil => rfl
    | cons y ys =>
      unfold commonPrefix
      by_cases hxy : x.sameEvent y = true
      · have hi : i < baseline.length := by
          by_contra hout
          rw [List.drop_eq_nil_of_le (Nat.not_lt.mp hout)] at hx
          cases hx
        have hj : j < candidate.length := by
          by_contra hout
          rw [List.drop_eq_nil_of_le (Nat.not_lt.mp hout)] at hy
          cases hy
        rw [List.drop_eq_getElem_cons hi] at hx
        rw [List.drop_eq_getElem_cons hj] at hy
        obtain ⟨rfl, hxs⟩ := List.cons.inj hx
        obtain ⟨rfl, hys⟩ := List.cons.inj hy
        have hturn : turnAt baseline candidate i j hi hj = .same := by
          rw [turnAt, turn, if_pos hxy]
        rw [alignFrom_step hi hj, hturn, if_pos hxy]
        simp only [report, advance, Option.bind_some, List.append_nil]
        rw [ih hxs hys, Nat.add_right_comm, Nat.add_right_comm j]
        rfl
      · rw [if_neg hxy, Nat.add_zero, Nat.add_zero]

theorem head?_extras (j : ℕ) (fills : List RunFill) :
    (extras j fills).head?.map Difference.index = fills.head?.map fun _ => j := by
  cases fills <;> rfl

theorem head?_missings (i : ℕ) (fills : List RunFill) :
    (missings i fills).head?.map Difference.index = fills.head?.map fun _ => i := by
  cases fills <;> rfl

/-- What is reported where the fills differ begins at one of the cursors. -/
theorem head?_report {n : ℕ} (hi : n < baseline.length) (hj : n < candidate.length)
    {new : List Difference} (hdiffer : baseline[n].sameEvent candidate[n] = false)
    (hnew : report baseline candidate n n baseline[n] candidate[n]
      (turnAt baseline candidate n n hi hj) = some new) :
    new.head?.map Difference.index = some n := by
  cases hturn : turnAt baseline candidate n n hi hj with
  | same => exact absurd (turn_same hturn) (by rw [hdiffer]; decide)
  | inserted offset =>
    rw [hturn] at hnew
    obtain rfl : extras n ((candidate.drop n).take offset) = new := Option.some.inj hnew
    obtain ⟨hpos, -⟩ := turn_inserted hturn
    rw [head?_extras, List.head?_take, if_neg hpos.ne', List.head?_drop,
      List.getElem?_eq_getElem hj]
    rfl
  | dropped offset =>
    rw [hturn] at hnew
    obtain rfl : missings n ((baseline.drop n).take offset) = new := Option.some.inj hnew
    obtain ⟨hpos, -⟩ := turn_dropped hturn
    rw [head?_missings, List.head?_take, if_neg hpos.ne', List.head?_drop,
      List.getElem?_eq_getElem hi]
    rfl
  | mismatch =>
    rw [hturn] at hnew
    obtain ⟨fields, -, rfl⟩ := Option.map_eq_some_iff.mp hnew
    rfl

/-- **The first difference** is where the common prefix ends. -/
theorem head?_align {out : List Difference} {n : ℕ}
    (hn : commonPrefix RunFill.sameEvent baseline candidate = n)
    (h : align baseline candidate = some out) :
    out.head?.map Difference.index =
      if n = baseline.length ∧ n = candidate.length then none else some n := by
  have hle := commonPrefix_le RunFill.sameEvent baseline candidate
  have hskip := alignFrom_commonPrefix (List.drop_zero (l := baseline))
    (List.drop_zero (l := candidate)) []
  rw [hn] at hle
  rw [Nat.zero_add, hn, ← align, h] at hskip
  by_cases hin : n < baseline.length ∧ n < candidate.length
  · obtain ⟨hi, hj⟩ := hin
    have hdiffer : baseline[n].sameEvent candidate[n] = false := by
      subst hn
      exact not_same_at_commonPrefix _ (List.getElem?_eq_getElem hi) (List.getElem?_eq_getElem hj)
    rw [alignFrom_step hi hj] at hskip
    obtain ⟨new, hnew, hrest⟩ := Option.bind_eq_some_iff.mp hskip.symm
    obtain ⟨rest, rfl, -⟩ := alignFrom_told hrest
    have hhead := head?_report hi hj hdiffer hnew
    obtain ⟨d, hd, hindex⟩ := Option.map_eq_some_iff.mp hhead
    rw [if_neg (by omega), List.nil_append, List.head?_append, hd, Option.some_or,
      Option.map_some, hindex]
  · rw [alignFrom_end hin, List.nil_append] at hskip
    obtain rfl : out = _ := Option.some.inj hskip
    have hmissing := head?_missings n (baseline.drop n)
    have hextra := head?_extras n (candidate.drop n)
    rw [List.head?_drop] at hmissing hextra
    rw [List.head?_append, Option.map_or, hmissing, hextra]
    rcases Nat.lt_or_ge n baseline.length with hi | hi
    · rw [List.getElem?_eq_getElem hi, if_neg (by omega)]
      rfl
    · rcases Nat.lt_or_ge n candidate.length with hj | hj
      · rw [List.getElem?_eq_none hi, List.getElem?_eq_getElem hj, if_neg (by omega)]
        rfl
      · rw [List.getElem?_eq_none hi, List.getElem?_eq_none hj, if_pos (by omega)]
        rfl

end First

/-! ## The claims of a report -/

def Difference.isMissing : Difference → Bool
  | missing _ _ => true
  | _ => false

def Difference.isExtra : Difference → Bool
  | extra _ _ => true
  | _ => false

/-- A list of differences accounts for every fill of both streams once. -/
structure Accounted (baseline candidate : List RunFill) (differences : List Difference) :
    Prop where
  /-- Both streams are taken apart in order: kept pairs of the same event, and the differences. -/
  paired : ∃ script : List (Edit RunFill), Edit.Accounts Same script baseline candidate ∧
    script.filter Edit.changed = differences.map Difference.edit
  counts : differences.countP Difference.isMissing + candidate.length =
    differences.countP Difference.isExtra + baseline.length
  fields : ∀ index x y, Difference.mismatch index [] x y ∉ differences
  empty : differences = [] ↔ List.Forall₂ Same baseline candidate

section Report

variable {baseline candidate : List RunFill} {differences : List Difference}

theorem eq_of_numberDifference_nil {field : String} {b c : Int64}
    (h : numberDifference field b c = some []) : b = c := by
  by_contra hne
  unfold numberDifference at h
  rw [if_pos hne] at h
  by_cases hfit : FitsI64 (c.toInt - b.toInt) <;> simp [hfit] at h

theorem eq_of_textDifference_nil {field : String} {differ : Bool} {b c : Text}
    (h : textDifference field differ b c = []) : differ = false := by
  cases differ with
  | false => rfl
  | true => cases h

/-- What differs differs in a field. -/
theorem fieldDifferences_ne_nil {x y : RunFill} (hdiffer : x.sameEvent y = false) :
    fieldDifferences x y ≠ some [] := by
  intro h
  obtain ⟨ts, hts, h⟩ := Option.bind_eq_some_iff.mp h
  obtain ⟨price, hprice, h⟩ := Option.bind_eq_some_iff.mp h
  obtain ⟨qty, hqty, h⟩ := Option.bind_eq_some_iff.mp h
  have hnil := Option.some.inj h
  simp only [List.append_eq_nil_iff] at hnil
  obtain ⟨⟨⟨⟨rfl, hsymbol⟩, hside⟩, rfl⟩, rfl⟩ := hnil
  have hsame : x.sameEvent y = true := by
    have hsymbol := eq_of_textDifference_nil hsymbol
    have hside := eq_of_textDifference_nil hside
    simp only [decide_eq_false_iff_not, not_not] at hsymbol hside
    simp [RunFill.sameEvent, eq_of_numberDifference_nil hts, eq_of_numberDifference_nil hprice,
      eq_of_numberDifference_nil hqty, hsymbol, hside]
  rw [hdiffer] at hsame
  cases hsame

theorem accounted_of_align (h : align baseline candidate = some differences) :
    Accounted baseline candidate differences := by
  obtain ⟨⟨script, hscript, hshown⟩, hreported, -⟩ := align_told h
  rw [List.drop_zero, List.drop_zero] at hscript
  refine ⟨⟨script, hscript, hshown⟩, ?_, fun index x y hmem => ?_, fun hnone => ?_, fun hall => ?_⟩
  -- Deletions and insertions are counted in the script, and told as missing and extra.
  · obtain ⟨hdeleted, hinserted⟩ := Edit.countP_filter_changed script
    have hmissing : Edit.isDeleted ∘ Difference.edit = Difference.isMissing := by
      funext d
      cases d <;> rfl
    have hextra : Edit.isInserted ∘ Difference.edit = Difference.isExtra := by
      funext d
      cases d <;> rfl
    rw [hshown, List.countP_map, hmissing] at hdeleted
    rw [hshown, List.countP_map, hextra] at hinserted
    rw [hdeleted, hinserted]
    exact hscript.deleted_add_length
  · obtain ⟨n, hmeets, hfields⟩ := hreported _ hmem
    refine fieldDifferences_ne_nil ?_ hfields
    by_contra hsame
    have hturn := hmeets.turn
    rw [turn, if_pos (Bool.not_eq_false _ ▸ hsame)] at hturn
    cases hturn
  · rw [hnone] at hshown
    exact hscript.forall₂_of_unchanged hshown
  · obtain ⟨hx, hy⟩ := (commonPrefix_eq_iff RunFill.sameEvent baseline candidate).mpr hall
    have hhead := head?_align rfl h
    rw [if_pos ⟨hx, hy⟩, Option.map_eq_none_iff, List.head?_eq_none_iff] at hhead
    exact hhead

/-- What a comparison that is made says about the matching prefix. -/
theorem compare_of_align {F : Type} [PnlArith F] {m m' : RunManifest} (pnl pnl' : F)
    (hstatus : (m.compare m').permitsBehavioralConclusions = true)
    (h : align baseline candidate = some differences) :
    ∃ r, compare m ⟨baseline, pnl⟩ m' ⟨candidate, pnl'⟩ = some r ∧ r.differences = differences ∧
      r.matchedPrefix = commonPrefix RunFill.sameEvent baseline candidate := by
  have hhead := head?_align rfl h
  have hle := commonPrefix_le RunFill.sameEvent baseline candidate
  unfold compare
  simp only [hstatus, h, Bool.not_true, Bool.false_eq_true, if_false, Option.bind_eq_bind,
    Option.bind_some]
  refine ⟨_, rfl, rfl, ?_⟩
  dsimp only
  rw [hhead]
  split <;> rename_i hends
  · rw [Option.getD_none]
    omega
  · rfl

/-- **Every fill is accounted for once**, exactly when the numbers of all fills that the walk
meets have differences; the comparisons that are made then name the common prefix. -/
theorem accounted_iff (baseline candidate : List RunFill) :
    (∃ differences, align baseline candidate = some differences ∧
      Accounted baseline candidate differences ∧
      ∀ (F : Type) [PnlArith F] (m m' : RunManifest) (pnl pnl' : F),
        (m.compare m').permitsBehavioralConclusions = true →
        ∃ r, compare m ⟨baseline, pnl⟩ m' ⟨candidate, pnl'⟩ = some r ∧
          r.differences = differences ∧
          r.matchedPrefix = commonPrefix RunFill.sameEvent baseline candidate) ↔
    ∀ q x y, Meets baseline candidate (0, 0) q x y → DifferencesFit x y := by
  rw [← alignFrom_isSome_iff baseline candidate 0 0 [], Option.isSome_iff_exists]
  constructor
  · rintro ⟨differences, h, -, -⟩
    exact ⟨differences, h⟩
  · rintro ⟨differences, h⟩
    exact ⟨differences, h, accounted_of_align h,
      fun F _ m m' pnl pnl' hstatus => compare_of_align pnl pnl' hstatus h⟩

/-- A fill at some time. -/
def fillAt (ts : Nanos) : RunFill := ⟨ts, ['B'], .buy, 1, 1, none⟩

/-- The difference of the two times is no `i64`, and the walk stops there. -/
theorem not_accounted : ¬ ∃ differences,
    align [fillAt 9223372036854775807] [fillAt (-2)] = some differences := by
  have hnone : align [fillAt 9223372036854775807] [fillAt (-2)] = none := by decide +kernel
  rintro ⟨differences, h⟩
  rw [hnone] at h
  cases h

/-- **Positions are true** exactly when the candidate has, at the baseline's cursor, the fill
that is at its own, wherever fills are met: so as long as the cursors are equal. -/
theorem placed_iff (h : align baseline candidate = some differences) :
    (∀ d ∈ differences, d.Placed baseline candidate) ↔
      ∀ q x y, Meets baseline candidate (0, 0) q x y →
        q.1 = q.2 ∨ candidate[q.1]? = candidate[q.2]? := by
  obtain ⟨-, hreported, hmet⟩ := align_told h
  constructor
  · intro hplaced q x y hmeets
    obtain ⟨fields, hmem⟩ := hmet q x y hmeets
    right
    rw [hmeets.right]
    exact (hplaced _ hmem).2
  · intro hequal d hd
    have hd := hreported d hd
    cases d with
    | missing index fill => exact hd
    | extra index fill => exact hd
    | mismatch index fields x y =>
      obtain ⟨n, hmeets, -⟩ := hd
      refine ⟨hmeets.left, ?_⟩
      rw [← hmeets.right]
      rcases hequal _ x y hmeets with hsame | hsame
      · exact congrArg (fun k => candidate[k]?) hsame
      · exact hsame

end Report

/-- The differences of streams of which the second has one more fill at its beginning. -/
def shifted : List Difference :=
  [.extra 0 (fillAt 0), .mismatch 1 [⟨"ts", ['2'], ['3'], some 1⟩] (fillAt 2) (fillAt 3)]

theorem placed_iff_shifted :
    (∀ d ∈ shifted, d.Placed [fillAt 1, fillAt 2] [fillAt 0, fillAt 1, fillAt 3]) ↔
      ∀ q x y, Meets [fillAt 1, fillAt 2] [fillAt 0, fillAt 1, fillAt 3] (0, 0) q x y →
        q.1 = q.2 ∨ [fillAt 0, fillAt 1, fillAt 3][q.1]? = [fillAt 0, fillAt 1, fillAt 3][q.2]? :=
  placed_iff (by decide +kernel)

/-- Behind an insertion a mismatch names a position at which the candidate has another fill. -/
theorem not_placed : ∃ differences,
    align [fillAt 1, fillAt 2] [fillAt 0, fillAt 1, fillAt 3] = some differences ∧
      ¬ ∀ d ∈ differences, d.Placed [fillAt 1, fillAt 2] [fillAt 0, fillAt 1, fillAt 3] := by
  refine ⟨shifted, by decide +kernel, fun hplaced => ?_⟩
  have hsecond := hplaced (.mismatch 1 [⟨"ts", ['2'], ['3'], some 1⟩] (fillAt 2) (fillAt 3))
    (List.mem_cons_of_mem _ List.mem_cons_self)
  exact absurd hsecond.2 (by decide)

end Parity
