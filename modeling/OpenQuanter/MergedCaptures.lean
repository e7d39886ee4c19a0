/-
# What a merge keeps (`oq-l2feed/src/bin/oq-merge.rs`)

The merge interleaves the whole primary with what the secondary has that the primary does not,
the primary first on a tie (`mergeLoop_keeps`).

A message is known by its exchange time and its payload, and the primary's copies of it are the
ones that are kept. A control record marks a place in a capture and is no copy of another: those
of both captures are kept, also where they are alike (`not_primaryCopies`).
-/
import OpenQuanter.CaptureTools
import OpenQuanter.Interleaving

namespace Capture.Merge

open Interleaving

/-- The order of the merge. -/
def byTime (a b : Record) : Bool := a.dayTs ≤ b.dayTs

/-- The two-way merge as it is run, with a cursor in each list. -/
def mergeLoop (primary extra : List Record) (i j : ℕ) (merged : List Record) : List Record :=
  match _ha : primary[i]?, _hb : extra[j]? with
  | some a, some b =>
    if a.dayTs ≤ b.dayTs then mergeLoop primary extra (i + 1) j (merged ++ [a])
    else mergeLoop primary extra i (j + 1) (merged ++ [b])
  | some a, none => mergeLoop primary extra (i + 1) j (merged ++ [a])
  | none, some b => mergeLoop primary extra i (j + 1) (merged ++ [b])
  | none, none => merged
termination_by (primary.length - i) + (extra.length - j)
decreasing_by
  all_goals
    simp only [List.getElem?_eq_some_iff] at _ha _hb
    grind

theorem drop_of_getElem?_some {rs : List Record} {i : ℕ} {r : Record} (h : rs[i]? = some r) :
    rs.drop i = r :: rs.drop (i + 1) := by
  obtain ⟨hi, rfl⟩ := List.getElem?_eq_some_iff.mp h
  exact List.drop_eq_getElem_cons hi

theorem drop_of_getElem?_none {rs : List Record} {i : ℕ} (h : rs[i]? = none) :
    rs.drop i = [] := List.drop_of_length_le (List.getElem?_eq_none_iff.mp h)

/-- The loop merges what is left of the two lists. -/
theorem mergeLoop_eq (primary extra : List Record) (i j : ℕ) (merged : List Record) :
    mergeLoop primary extra i j merged =
      merged ++ (primary.drop i).merge (extra.drop j) byTime := by
  fun_induction mergeLoop primary extra i j merged with
  | case1 i j merged a b ha hb hle ih =>
    rw [ih, drop_of_getElem?_some ha, drop_of_getElem?_some hb,
      List.cons_merge_cons_pos _ _ _ (decide_eq_true hle), List.append_assoc,
      List.singleton_append]
  | case2 i j merged a b ha hb hnot ih =>
    rw [ih, drop_of_getElem?_some ha, drop_of_getElem?_some hb,
      List.cons_merge_cons_neg _ _ _ (mt of_decide_eq_true hnot), List.append_assoc,
      List.singleton_append]
  | case3 i j merged a ha hb ih =>
    rw [ih, drop_of_getElem?_some ha, drop_of_getElem?_none hb, List.merge_right,
      List.merge_right, List.append_assoc, List.singleton_append]
  | case4 i j merged b ha hb ih =>
    rw [ih, drop_of_getElem?_none ha, drop_of_getElem?_some hb, List.nil_merge, List.nil_merge,
      List.append_assoc, List.singleton_append]
  | case5 i j merged ha hb =>
    rw [drop_of_getElem?_none ha, drop_of_getElem?_none hb, List.nil_merge, List.append_nil]

theorem mergeLoop_start (primary secondary : List Record) :
    mergeLoop primary (extra primary secondary) 0 0 [] = merged primary secondary := by
  rw [mergeLoop_eq]
  rfl

/-! ## What is counted -/

/-- A message of some exchange time and payload. -/
def message (t : Int64) (p : List UInt8) (r : Record) : Bool :=
  r.kind = .payload && (r.exchTs = t && r.payload = p)

/-- A control record of some exchange time and payload. -/
def mark (t : Int64) (p : List UInt8) (r : Record) : Bool :=
  r.kind = .control && (r.exchTs = t && r.payload = p)

theorem seen_of_message {primary : List Record} {r : Record} {t : Int64} {p : List UInt8}
    (h : message t p r = true) : seen primary r = primary.any (message t p) := by
  simp only [message, Bool.and_eq_true, decide_eq_true_eq] at h
  obtain ⟨hkind, rfl, rfl⟩ := h
  simp only [seen, hkind, decide_true, Bool.true_and]
  exact congrArg primary.any (funext fun q => Bool.and_assoc _ _ _)

theorem not_seen_of_mark {primary : List Record} {r : Record} {t : Int64} {p : List UInt8}
    (h : mark t p r = true) : seen primary r = false := by
  simp only [mark, Bool.and_eq_true, decide_eq_true_eq] at h
  simp [seen, h.1]

theorem exists_of_seen {primary : List Record} {r : Record} (h : seen primary r = true) :
    ∃ q ∈ primary, q.kind = r.kind ∧ q.exchTs = r.exchTs ∧ q.payload = r.payload := by
  simp only [seen, Bool.and_eq_true, decide_eq_true_eq, List.any_eq_true] at h
  obtain ⟨hkind, q, hq, ⟨hqkind, hts⟩, hpayload⟩ := h
  exact ⟨q, hq, hqkind.trans hkind.symm, hts, hpayload⟩

/-- Of a message that the primary has, the secondary contributes none. -/
theorem countP_message_extra (primary secondary : List Record) (t : Int64) (p : List UInt8) :
    (extra primary secondary).countP (message t p) =
      if primary.any (message t p) then 0 else secondary.countP (message t p) := by
  rw [extra, List.countP_filter]
  split <;> rename_i hany
  · refine List.countP_eq_zero.mpr fun r _ hr => ?_
    obtain ⟨hmessage, hnew⟩ := Bool.and_eq_true_iff.mp hr
    rw [seen_of_message hmessage, hany] at hnew
    cases hnew
  · refine List.countP_congr fun r _ => ?_
    rw [Bool.and_eq_true_iff]
    refine ⟨And.left, fun hmessage => ⟨hmessage, ?_⟩⟩
    rw [seen_of_message hmessage, Bool.eq_false_iff.mpr hany]
    rfl

/-- Of the marks it contributes all. -/
theorem countP_mark_extra (primary secondary : List Record) (t : Int64) (p : List UInt8) :
    (extra primary secondary).countP (mark t p) = secondary.countP (mark t p) := by
  rw [extra, List.countP_filter]
  refine List.countP_congr fun r _ => ?_
  rw [Bool.and_eq_true_iff]
  exact ⟨And.left, fun hmark => ⟨hmark, by rw [not_seen_of_mark hmark]; rfl⟩⟩

/-! ## What a merge keeps -/

/-- The records of a capture are in the order of their timestamps. -/
def InOrder (rs : List Record) : Prop := rs.Pairwise (byTime · ·)

theorem byTime_refl (a : Record) : byTime a a = true := decide_eq_true (Int64.le_refl _)

theorem byTime_trans (a b c : Record) (hab : byTime a b = true) (hbc : byTime b c = true) :
    byTime a c = true :=
  decide_eq_true (Int64.le_trans (of_decide_eq_true hab) (of_decide_eq_true hbc))

theorem byTime_total (a b : Record) : (byTime a b || byTime b a) = true := by
  simp only [byTime, Bool.or_eq_true, decide_eq_true_eq]
  exact Int64.le_total _ _

/-- `out` is a merge of the two captures. -/
structure Keeps (primary secondary out : List Record) : Prop where
  /-- The primary and what the secondary has more are interleaved. Where the next records of
  both tie, the primary's is taken; and in ordered captures each of the primary's comes before
  those of the secondary that tie with it. -/
  interleaved : ∃ sides, Interleaves primary (extra primary secondary) out sides ∧
    Decided byTime sides ∧
    (InOrder primary → InOrder secondary → sides.Pairwise (Before byTime))
  /-- What either has is there, in a record of the same kind. -/
  present : ∀ r, r ∈ primary ∨ r ∈ secondary →
    ∃ q ∈ out, q.kind = r.kind ∧ q.exchTs = r.exchTs ∧ q.payload = r.payload
  /-- A message has the copies of the primary, if that has any. -/
  messages : ∀ t p, out.countP (message t p) =
    if primary.any (message t p) then primary.countP (message t p)
    else secondary.countP (message t p)
  /-- The marks of both are kept. -/
  marks : ∀ t p, out.countP (mark t p) = primary.countP (mark t p) + secondary.countP (mark t p)
  ordered : InOrder primary → InOrder secondary → InOrder out

theorem merged_keeps (primary secondary : List Record) :
    Keeps primary secondary (merged primary secondary) := by
  obtain ⟨sides, hsides, hdecided⟩ : ∃ sides, Interleaves primary (extra primary secondary)
      (merged primary secondary) sides ∧ Decided byTime sides :=
    exists_sides_merge primary (extra primary secondary)
  have hextra : InOrder secondary → InOrder (extra primary secondary) :=
    fun h => h.sublist List.filter_sublist
  refine ⟨⟨sides, hsides, hdecided, fun hp hs => ?_⟩, fun r hr => ?_, fun t p => ?_,
    fun t p => ?_, fun hp hs => ?_⟩
  · exact hdecided.pairwise byTime_refl byTime_trans (hsides.left ▸ hp) (hsides.right ▸ hextra hs)
  · rcases hr with hr | hr
    · exact ⟨r, List.mem_merge_left _ hr, rfl, rfl, rfl⟩
    -- What the secondary has is kept itself, or as the primary's copy of it.
    by_cases hseen : seen primary r = true
    · obtain ⟨q, hq, hkind, hts, hpayload⟩ := exists_of_seen hseen
      exact ⟨q, List.mem_merge_left _ hq, hkind, hts, hpayload⟩
    · have hextra : r ∈ extra primary secondary :=
        List.mem_filter.mpr ⟨hr, by rw [Bool.eq_false_iff.mpr hseen]; rfl⟩
      exact ⟨r, List.mem_merge_right _ hextra, rfl, rfl, rfl⟩
  · have hcount := hsides.countP (message t p)
    rw [countP_message_extra] at hcount
    refine hcount.trans ?_
    by_cases hany : primary.any (message t p) = true
    · rw [if_pos hany, if_pos hany, Nat.add_zero]
    · have hnone : primary.countP (message t p) = 0 := by
        refine List.countP_eq_zero.mpr fun r hr hmessage => hany ?_
        exact List.any_eq_true.mpr ⟨r, hr, hmessage⟩
      rw [if_neg hany, if_neg hany, hnone, Nat.zero_add]
  · exact (hsides.countP (mark t p)).trans (by rw [countP_mark_extra])
  · exact List.pairwise_merge byTime_trans byTime_total _ _ hp (hextra hs)

/-- **A merge loses and repeats no message**, and the marks of both captures are in it. -/
theorem mergeLoop_keeps (primary secondary : List Record) :
    Keeps primary secondary (mergeLoop primary (extra primary secondary) 0 0 []) :=
  mergeLoop_start primary secondary ▸ merged_keeps primary secondary

/-- A mark that both captures have is in the merge twice, not as often as in the primary. -/
theorem not_primaryCopies : ¬ ∀ (primary secondary : List Record) (t : Int64) (p : List UInt8),
    (∃ r ∈ primary, r.exchTs = t ∧ r.payload = p) →
    (∃ r ∈ secondary, r.exchTs = t ∧ r.payload = p) →
    (mergeLoop primary (extra primary secondary) 0 0 []).countP
        (fun r => r.exchTs = t ∧ r.payload = p) =
      primary.countP fun r => r.exchTs = t ∧ r.payload = p := by
  intro hcopies
  have htwo := hcopies [.control 0 []] [.control 0 []] noExchTs []
    ⟨_, List.mem_singleton_self _, rfl, rfl⟩ ⟨_, List.mem_singleton_self _, rfl, rfl⟩
  rw [mergeLoop_start] at htwo
  simp [merged, extra, seen, Record.control] at htwo

end Capture.Merge
