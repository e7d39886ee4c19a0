/-
# Tier schedules (`oq-margin/src/schedule.rs`)

The margin tables of a venue and the instants they took effect. The entries of a schedule are in
strict order of these (`TierSchedule.ordered`), so a search by halves finds the table in force:

* `at_eq_some_iff`, `at_eq_none_iff` : the latest entry that is not after the instant;
* `new_eq_none_iff`, `insert_eq_false_iff` : only a repeated instant, or nothing at all, is refused;
* `Built.perm` : what a schedule was supplied with is what it holds, so the order of supply is
  forgotten.
-/
import OpenQuanter.Margin
import OpenQuanter.PartitionPoint

open PartitionPoint

/-- Margin tables and the instants they took effect, in strict order. -/
structure TierSchedule where
  entries : List (Nanos × TierTable)
  nonempty : entries ≠ []
  ordered : entries.Pairwise fun a b => a.1 < b.1

namespace TierSchedule

/-! ## The schedule -/

/-- A schedule with one table that has always applied. -/
def constant (table : TierTable) : TierSchedule where
  entries := [(Int64.minValue, table)]
  nonempty := List.cons_ne_nil _ _
  ordered := List.pairwise_singleton _ _

/-- Two entries next to each other claim one instant. -/
def repeats (entries : List (Nanos × TierTable)) : Bool :=
  (entries.zip entries.tail).any fun w => w.1.1 = w.2.1

/-- The order the entries are sorted by. -/
def earlier (a b : Nanos × TierTable) : Bool := a.1 ≤ b.1

theorem pairwise_mergeSort_earlier (entries : List (Nanos × TierTable)) :
    (entries.mergeSort earlier).Pairwise fun a b => a.1 ≤ b.1 := by
  have hsorted : (entries.mergeSort earlier).Pairwise fun a b => earlier a b = true := by
    apply List.pairwise_mergeSort
    · intro a b c hab hbc
      exact decide_eq_true (Int64.le_trans (of_decide_eq_true hab) (of_decide_eq_true hbc))
    · intro a b
      rw [Bool.or_eq_true, earlier, earlier, decide_eq_true_iff, decide_eq_true_iff]
      exact Int64.le_total a.1 b.1
  exact hsorted.imp of_decide_eq_true

/-- In a sorted list whose neighbours differ no two entries claim one instant. -/
theorem pairwise_lt_of_repeats {entries : List (Nanos × TierTable)}
    (hsorted : entries.Pairwise fun a b => a.1 ≤ b.1) (h : repeats entries = false) :
    entries.Pairwise fun a b => a.1 < b.1 := by
  induction entries with
  | nil => exact List.Pairwise.nil
  | cons a entries ih =>
    obtain ⟨hhead, htail⟩ := List.pairwise_cons.mp hsorted
    cases entries with
    | nil => exact List.pairwise_singleton _ _
    | cons b entries =>
      rw [repeats, List.tail_cons, List.zip_cons_cons, List.any_cons, Bool.or_eq_false_iff] at h
      obtain ⟨hne, hrest⟩ := h
      have hstrict := ih htail hrest
      have hab : a.1 < b.1 :=
        Int64.lt_of_le_of_ne (hhead b List.mem_cons_self) (of_decide_eq_false hne)
      refine List.pairwise_cons.mpr ⟨?_, hstrict⟩
      intro c hc
      rcases List.mem_cons.mp hc with rfl | hc
      · exact hab
      · exact Int64.lt_trans hab ((List.pairwise_cons.mp hstrict).1 c hc)

theorem repeats_of_pairwise_lt {entries : List (Nanos × TierTable)}
    (h : entries.Pairwise fun a b => a.1 < b.1) : repeats entries = false := by
  induction entries with
  | nil => rfl
  | cons a entries ih =>
    obtain ⟨hhead, htail⟩ := List.pairwise_cons.mp h
    cases entries with
    | nil => rfl
    | cons b entries =>
      have hne : a.1 ≠ b.1 := Int64.ne_of_lt (hhead b List.mem_cons_self)
      rw [repeats, List.tail_cons, List.zip_cons_cons, List.any_cons, Bool.or_eq_false_iff]
      exact ⟨decide_eq_false hne, ih htail⟩

theorem mergeSort_eq_nil {entries : List (Nanos × TierTable)}
    (h : entries.mergeSort earlier = []) : entries = [] := by
  have hperm := List.mergeSort_perm entries earlier
  rw [h] at hperm
  exact hperm.symm.eq_nil

/-- A schedule from dated tables, unless there are none or two claim one instant. -/
def new (entries : List (Nanos × TierTable)) : Option TierSchedule :=
  if hempty : entries = [] then none
  else if hrepeats : repeats (entries.mergeSort earlier) then none
  else some
    { entries := entries.mergeSort earlier
      nonempty := fun h => hempty (mergeSort_eq_nil h)
      ordered := pairwise_lt_of_repeats (pairwise_mergeSort_earlier entries)
        (Bool.eq_false_iff.mpr hrepeats) }

/-- What takes effect before an instant is in front. -/
theorem partitioned_lt (s : TierSchedule) (at_ : Nanos) :
    Partitioned (fun e => decide (e.1 < at_)) s.entries :=
  s.ordered.imp fun hab hb => decide_eq_true (Int64.lt_trans hab (of_decide_eq_true hb))

theorem partitioned_le (s : TierSchedule) (at_ : Nanos) :
    Partitioned (fun e => decide (e.1 ≤ at_)) s.entries :=
  s.ordered.imp fun hab hb =>
    decide_eq_true (Int64.le_trans (Int64.le_of_lt hab) (of_decide_eq_true hb))

/-- The entries with one more, at its place. -/
def inserted (s : TierSchedule) (e : Nanos × TierTable) : List (Nanos × TierTable) :=
  s.entries.insertIdx (partitionPoint (fun existing => existing.1 < e.1) s.entries) e

theorem inserted_perm (s : TierSchedule) (e : Nanos × TierTable) :
    (s.inserted e).Perm (e :: s.entries) :=
  List.perm_insertIdx e s.entries (partitionPoint_le (s.partitioned_lt e.1))

theorem inserted_ne_nil (s : TierSchedule) (e : Nanos × TierTable) : s.inserted e ≠ [] := by
  intro hnil
  have hperm := s.inserted_perm e
  rw [hnil] at hperm
  cases hperm.symm.eq_nil

/-- Whether a table already takes effect at an instant. -/
def dated (s : TierSchedule) (effectiveFrom : Nanos) : Bool :=
  s.entries.any fun e => e.1 = effectiveFrom

theorem dated_iff {s : TierSchedule} {effectiveFrom : Nanos} :
    s.dated effectiveFrom = true ↔ ∃ e ∈ s.entries, e.1 = effectiveFrom := by
  simp only [dated, List.any_eq_true, decide_eq_true_eq]

theorem inserted_ordered (s : TierSchedule) (e : Nanos × TierTable) (hnew : ¬ s.dated e.1 = true) :
    (s.inserted e).Pairwise fun a b => a.1 < b.1 := by
  refine pairwise_insertIdx (s.partitioned_lt e.1) s.ordered ?_ ?_
  · intro a _ ha
    exact of_decide_eq_true ha
  · intro a ha hlate
    have hne : a.1 ≠ e.1 := fun heq => hnew (dated_iff.mpr ⟨a, ha, heq⟩)
    have hle := Int64.not_lt.mp (of_decide_eq_false hlate)
    exact Int64.lt_of_le_of_ne hle hne.symm

/-- Add a revision; `false` if a table already takes effect at that instant. -/
def insert (s : TierSchedule) (effectiveFrom : Nanos) (table : TierTable) : Bool × TierSchedule :=
  if hnew : s.dated effectiveFrom = true then (false, s)
  else (true,
    { entries := s.inserted (effectiveFrom, table)
      nonempty := s.inserted_ne_nil _
      ordered := s.inserted_ordered _ hnew })

/-- The table in force at `when_`, if one was. -/
def at_ (s : TierSchedule) (when_ : Nanos) : Option TierTable :=
  let idx := partitionPoint (fun e => e.1 ≤ when_) s.entries
  if idx = 0 then none else (s.entries[idx - 1]?).map Prod.snd

/-! ## One operation -/

theorem insert_fst_eq_false_iff {s : TierSchedule} {effectiveFrom : Nanos} {table : TierTable} :
    (s.insert effectiveFrom table).1 = false ↔ ∃ e ∈ s.entries, e.1 = effectiveFrom := by
  rw [← dated_iff, insert]
  split <;> rename_i hdated
  · exact ⟨fun _ => hdated, fun _ => rfl⟩
  · exact ⟨fun h => (nomatch h), fun h => absurd h hdated⟩

/-- A revision that is refused changes nothing. -/
theorem insert_of_refused {s : TierSchedule} {effectiveFrom : Nanos} {table : TierTable}
    (h : (s.insert effectiveFrom table).1 = false) : (s.insert effectiveFrom table).2 = s := by
  unfold insert at h ⊢
  split <;> rename_i hdated
  · rfl
  · rw [dif_neg hdated] at h
    cases h

/-- A revision that is taken is put among the others. -/
theorem entries_of_taken {s : TierSchedule} {effectiveFrom : Nanos} {table : TierTable}
    (h : (s.insert effectiveFrom table).1 = true) :
    (s.insert effectiveFrom table).2.entries = s.inserted (effectiveFrom, table) := by
  unfold insert at h ⊢
  split <;> rename_i hdated
  · rw [dif_pos hdated] at h
    cases h
  · rfl

theorem entries_of_new {entries : List (Nanos × TierTable)} {s : TierSchedule}
    (h : new entries = some s) : s.entries = entries.mergeSort earlier := by
  unfold new at h
  split at h
  · cases h
  · split at h
    · cases h
    · rw [← Option.some.inj h]

/-- Strict order by instant is order without a repeated instant. -/
theorem repeats_eq_false_iff {entries : List (Nanos × TierTable)}
    (hsorted : entries.Pairwise fun a b => a.1 ≤ b.1) :
    repeats entries = false ↔ (entries.map Prod.fst).Nodup := by
  rw [List.Nodup, List.pairwise_map]
  constructor
  · intro h
    exact (pairwise_lt_of_repeats hsorted h).imp Int64.ne_of_lt
  · intro h
    exact repeats_of_pairwise_lt ((hsorted.and h).imp fun hab =>
      Int64.lt_of_le_of_ne hab.1 hab.2)

/-- Only nothing at all or a repeated instant is refused. -/
theorem new_eq_none_iff {entries : List (Nanos × TierTable)} :
    new entries = none ↔ entries = [] ∨ ¬ (entries.map Prod.fst).Nodup := by
  have hperm := (List.mergeSort_perm entries earlier).map Prod.fst
  have hrepeats := repeats_eq_false_iff (pairwise_mergeSort_earlier entries)
  rw [hperm.nodup_iff] at hrepeats
  rw [← hrepeats, Bool.not_eq_false, new]
  split <;> rename_i hempty
  · simp [hempty]
  · split <;> rename_i h <;> simp [hempty, h]

/-- A schedule is what it holds. -/
theorem eq_of_perm {s other : TierSchedule} (h : s.entries.Perm other.entries) : s = other := by
  obtain ⟨entries, nonempty, ordered⟩ := s
  obtain ⟨entries', nonempty', ordered'⟩ := other
  obtain rfl : entries = entries' := h.eq_of_pairwise
    (fun a b _ _ hab hba => (Int64.lt_irrefl (Int64.lt_trans hab hba)).elim) ordered ordered'
  rfl

/-- The order in which the tables are listed does not matter. -/
theorem new_perm {entries other : List (Nanos × TierTable)} (h : entries.Perm other) :
    new entries = new other := by
  have hnone : new entries = none ↔ new other = none := by
    rw [new_eq_none_iff, new_eq_none_iff, (h.map Prod.fst).nodup_iff]
    exact or_congr_left ⟨fun hnil => (hnil ▸ h).symm.eq_nil, fun hnil => (hnil ▸ h).eq_nil⟩
  cases hnew : new entries with
  | none => exact (hnone.mp hnew).symm
  | some s =>
    cases hother : new other with
    | none => rw [hnone.mpr hother] at hnew; nomatch hnew
    | some t =>
      have hs := entries_of_new hnew
      have ht := entries_of_new hother
      have hperm : s.entries.Perm t.entries := by
        rw [hs, ht]
        exact (List.mergeSort_perm entries _).trans (h.trans (List.mergeSort_perm other _).symm)
      rw [eq_of_perm hperm]

/-! ## The table in force -/

/-- The last of the entries that took effect. -/
theorem at_eq (s : TierSchedule) (when_ : Nanos) :
    s.at_ when_ = (s.entries.filter fun e => e.1 ≤ when_).getLast?.map Prod.snd := by
  have hcut := s.partitioned_le when_
  have htake := take_partitionPoint hcut
  have hle := partitionPoint_le hcut
  rw [← htake, at_]
  split <;> rename_i hidx
  · rw [hidx]
    rfl
  · rw [List.getLast?_take, if_neg hidx]
    have hlt : partitionPoint (fun e => decide (e.1 ≤ when_)) s.entries - 1 < s.entries.length := by
      omega
    rw [List.getElem?_eq_getElem hlt, Option.some_or]

theorem getLast?_eq_some_iff {l : List (Nanos × TierTable)}
    (h : l.Pairwise fun a b => a.1 < b.1) {e : Nanos × TierTable} :
    l.getLast? = some e ↔ e ∈ l ∧ ∀ f ∈ l, f.1 ≤ e.1 := by
  rw [List.getLast?_eq_some_iff]
  constructor
  · rintro ⟨front, rfl⟩
    obtain ⟨-, -, hcross⟩ := List.pairwise_append.mp h
    refine ⟨by simp, ?_⟩
    intro f hf
    rcases List.mem_append.mp hf with hf | hf
    · exact Int64.le_of_lt (hcross f hf e (List.mem_singleton_self e))
    · rw [List.mem_singleton.mp hf]
      exact Int64.le_refl _
  · rintro ⟨hmem, hmax⟩
    obtain ⟨front, back, rfl⟩ := List.append_of_mem hmem
    cases back with
    | nil => exact ⟨front, rfl⟩
    | cons f back =>
      -- What is behind it would be later.
      obtain ⟨-, hback, -⟩ := List.pairwise_append.mp h
      have hlater := (List.pairwise_cons.mp hback).1 f List.mem_cons_self
      exact absurd (hmax f (by simp)) (Int64.not_le.mpr hlater)

/-- What is in force is the latest table that took effect. -/
theorem at_eq_some_iff {s : TierSchedule} {when_ : Nanos} {table : TierTable} :
    s.at_ when_ = some table ↔ ∃ e ∈ s.entries, e.2 = table ∧ e.1 ≤ when_ ∧
      ∀ f ∈ s.entries, f.1 ≤ when_ → f.1 ≤ e.1 := by
  have hordered : (s.entries.filter fun e => decide (e.1 ≤ when_)).Pairwise fun a b => a.1 < b.1 :=
    s.ordered.filter _
  rw [at_eq, Option.map_eq_some_iff]
  constructor
  · rintro ⟨e, hlast, rfl⟩
    obtain ⟨hmem, hmax⟩ := (getLast?_eq_some_iff hordered).mp hlast
    rw [List.mem_filter, decide_eq_true_eq] at hmem
    refine ⟨e, hmem.1, rfl, hmem.2, ?_⟩
    intro f hf hle
    exact hmax f (List.mem_filter.mpr ⟨hf, decide_eq_true hle⟩)
  · rintro ⟨e, hmem, rfl, hle, hmax⟩
    refine ⟨e, (getLast?_eq_some_iff hordered).mpr ⟨?_, ?_⟩, rfl⟩
    · exact List.mem_filter.mpr ⟨hmem, decide_eq_true hle⟩
    · intro f hf
      rw [List.mem_filter, decide_eq_true_eq] at hf
      exact hmax f hf.1 hf.2

/-- None is, before all of them. -/
theorem at_eq_none_iff {s : TierSchedule} {when_ : Nanos} :
    s.at_ when_ = none ↔ ∀ e ∈ s.entries, when_ < e.1 := by
  rw [at_eq, Option.map_eq_none_iff, List.getLast?_eq_none_iff, List.filter_eq_nil_iff]
  simp only [decide_eq_true_eq, Int64.not_le]

/-! ## Histories -/

/-- The schedules that are built, and the entries they were supplied with, in order. -/
inductive Built : TierSchedule → List (Nanos × TierTable) → Prop
  | constant (table : TierTable) : Built (constant table) [(Int64.minValue, table)]
  | new {entries : List (Nanos × TierTable)} {s : TierSchedule} (h : new entries = some s) :
    Built s entries
  | taken {s : TierSchedule} {supplied : List (Nanos × TierTable)} {effectiveFrom : Nanos}
    {table : TierTable} (built : Built s supplied)
    (h : (s.insert effectiveFrom table).1 = true) :
    Built (s.insert effectiveFrom table).2 (supplied ++ [(effectiveFrom, table)])
  | refused {s : TierSchedule} {supplied : List (Nanos × TierTable)} {effectiveFrom : Nanos}
    {table : TierTable} (built : Built s supplied)
    (h : (s.insert effectiveFrom table).1 = false) :
    Built (s.insert effectiveFrom table).2 supplied

/-- A schedule holds what it was supplied with. -/
theorem Built.perm {s : TierSchedule} {supplied : List (Nanos × TierTable)}
    (h : Built s supplied) : s.entries.Perm supplied := by
  induction h with
  | constant table => exact List.Perm.refl _
  | new h =>
    rw [entries_of_new h]
    exact List.mergeSort_perm _ _
  | taken built h ih =>
    rw [entries_of_taken h]
    exact (inserted_perm _ _).trans
      ((ih.cons _).trans (List.perm_append_singleton _ _).symm)
  | refused built h ih =>
    rw [insert_of_refused h]
    exact ih

/-- **The table in force is the latest that took effect**, of all that were supplied and in
whatever order: only nothing at all or a repeated instant is refused, and what is refused changes
nothing. -/
theorem at_latest {s other : TierSchedule} {supplied supplied' : List (Nanos × TierTable)}
    (h : Built s supplied) (h' : Built other supplied') :
    (∀ when_ table, s.at_ when_ = some table ↔ ∃ e ∈ supplied, e.2 = table ∧ e.1 ≤ when_ ∧
      ∀ f ∈ supplied, f.1 ≤ when_ → f.1 ≤ e.1) ∧
    (∀ when_, s.at_ when_ = none ↔ ∀ e ∈ supplied, when_ < e.1) ∧
    (∀ entries, new entries = none ↔ entries = [] ∨ ¬ (entries.map Prod.fst).Nodup) ∧
    (∀ effectiveFrom table, ((s.insert effectiveFrom table).1 = false ↔
      ∃ e ∈ supplied, e.1 = effectiveFrom) ∧
      ((s.insert effectiveFrom table).1 = false → (s.insert effectiveFrom table).2 = s)) ∧
    (∀ entries entries', List.Perm entries entries' → new entries = new entries') ∧
    (supplied.Perm supplied' → s = other) := by
  have hmem : ∀ e, e ∈ s.entries ↔ e ∈ supplied := fun e => h.perm.mem_iff
  refine ⟨?_, ?_, fun entries => new_eq_none_iff, ?_, fun _ _ hperm => new_perm hperm, ?_⟩
  · intro when_ table
    simp only [at_eq_some_iff, hmem]
  · intro when_
    simp only [at_eq_none_iff, hmem]
  · intro effectiveFrom table
    refine ⟨?_, insert_of_refused⟩
    simp only [insert_fst_eq_false_iff, hmem]
  · intro hperm
    exact eq_of_perm (h.perm.trans (hperm.trans h'.perm.symm))

/-- A schedule that was revised, and one that was given both tables at once. -/
theorem at_latest_revised :
    let table := TierTable.exampleBtcusdt
    let revised := ((constant table).insert 5 table).2
    (∀ when_, revised.at_ when_ = none ↔
      ∀ e ∈ [(Int64.minValue, table), (5, table)], when_ < e.1) ∧
    (∀ other, new [(5, table), (Int64.minValue, table)] = some other → revised = other) := by
  have htaken : ((constant TierTable.exampleBtcusdt).insert 5 TierTable.exampleBtcusdt).1 = true :=
    by decide +kernel
  have hbuilt := Built.taken (Built.constant TierTable.exampleBtcusdt) htaken
  refine ⟨(at_latest hbuilt hbuilt).2.1, ?_⟩
  intro other hother
  exact (at_latest hbuilt (.new hother)).2.2.2.2.2 (List.Perm.swap _ _ [])

end TierSchedule
