/-
# Histories by key

A history is a list of entries, each about a key.  What holds of a key is what its
latest entry says, so a state that keeps one thing for a key follows a history when
it says of every key what the latest entry says; `latest_snoc` is how the latest
entries change when the history goes on.

Nothing here names the program under verification.
-/
import Mathlib

namespace History

variable {E K : Type} (key : E → K)

/-- `x`, which came after `before`, is the latest entry about its key. -/
def Latest (h before : List E) (x : E) : Prop :=
  ∃ after, h = before ++ x :: after ∧ ∀ y ∈ after, key y ≠ key x

variable {key}

theorem not_latest_nil {before : List E} {x : E} : ¬ Latest key [] before x := by
  rintro ⟨after, hnil, -⟩
  exact absurd hnil.symm (by simp)

/-- **One more entry** is the latest about its key, and changes no other. -/
theorem latest_snoc {h before : List E} {x y : E} :
    Latest key (h ++ [y]) before x ↔
      Latest key h before x ∧ key y ≠ key x ∨ before = h ∧ x = y := by
  constructor
  · rintro ⟨after, heq, hafter⟩
    rcases List.eq_nil_or_concat after with rfl | ⟨after, last, rfl⟩
    · obtain ⟨rfl, hlast⟩ := List.append_inj' heq rfl
      exact .inr ⟨rfl, (List.cons.inj hlast).1.symm⟩
    · have hsplit : h ++ [y] = (before ++ x :: after) ++ [last] := by
        rw [heq, List.concat_eq_append, List.append_assoc, List.cons_append]
      obtain ⟨rfl, hlast⟩ := List.append_inj' hsplit rfl
      obtain rfl := (List.cons.inj hlast).1
      refine .inl ⟨⟨after, rfl, fun z hz => hafter z ?_⟩, hafter y ?_⟩
      · simp [hz]
      · simp
  · rintro (⟨⟨after, rfl, hafter⟩, hne⟩ | ⟨rfl, rfl⟩)
    · refine ⟨after ++ [y], by simp, fun z hz => ?_⟩
      rcases List.mem_append.mp hz with hz | hz
      · exact hafter z hz
      · rwa [List.mem_singleton.mp hz]
    · exact ⟨[], rfl, fun _ hz => absurd hz List.not_mem_nil⟩

/-- A property of every entry, given the history before it. -/
def Always (P : List E → E → Prop) (h : List E) : Prop :=
  ∀ before x after, h = before ++ x :: after → P before x

theorem always_nil {P : List E → E → Prop} : Always P [] := by
  intro before x after hnil
  exact absurd hnil.symm (by simp)

theorem always_snoc {P : List E → E → Prop} {h : List E} {y : E} (hh : Always P h) (hy : P h y) :
    Always P (h ++ [y]) := by
  intro before x after heq
  rcases List.eq_nil_or_concat after with rfl | ⟨after, last, rfl⟩
  · obtain ⟨rfl, hlast⟩ := List.append_inj' heq rfl
    rwa [← (List.cons.inj hlast).1]
  · have hsplit : h ++ [y] = (before ++ x :: after) ++ [last] := by
      rw [heq, List.concat_eq_append, List.append_assoc, List.cons_append]
    obtain ⟨rfl, -⟩ := List.append_inj' hsplit rfl
    exact hh before x after rfl

theorem Always.imp {P Q : List E → E → Prop} {h : List E} (hh : Always P h)
    (himp : ∀ before x, P before x → Q before x) : Always Q h :=
  fun before x after heq => himp before x (hh before x after heq)

theorem Always.of_append {P : List E → E → Prop} {h more : List E} (hh : Always P (h ++ more)) :
    Always P h := by
  rintro before x after rfl
  exact hh before x (after ++ more) (by simp)

theorem Always.last {P : List E → E → Prop} {h : List E} {y : E} (hh : Always P (h ++ [y])) :
    P h y :=
  hh h y [] rfl

/-! ## First entries

`eraseDups` keeps the first of equal entries. -/

section Firsts

variable {α : Type} [DecidableEq α]

/-- One more entry, if it is new. -/
theorem eraseDups_concat (h : List α) (a : α) :
    (h ++ [a]).eraseDups = if a ∈ h then h.eraseDups else h.eraseDups ++ [a] := by
  rw [List.eraseDups_append]
  by_cases ha : a ∈ h
  · rw [if_pos ha]
    simp [List.removeAll, ha]
  · rw [if_neg ha]
    simp [List.removeAll, ha, List.eraseDups_cons]

/-- Entries that are new and differ are kept, whatever comes before and after. -/
theorem sublist_eraseDups {new : List α} (hnew : new.Nodup) (before after : List α)
    (hdisjoint : ∀ a ∈ new, a ∉ before) : new.Sublist (before ++ new ++ after).eraseDups := by
  have hkept : ∀ kept : List α, kept.Nodup → (∀ a ∈ kept, a ∉ before) →
      kept.Sublist (before ++ kept).eraseDups := by
    intro kept hkept hnot
    induction kept using List.reverseRecOn with
    | nil => exact List.nil_sublist _
    | append_singleton kept a ih =>
      obtain ⟨hfront, -, ha⟩ := List.nodup_append.mp hkept
      have hfresh : a ∉ before ++ kept := by
        rw [List.mem_append, not_or]
        exact ⟨hnot a (by simp), fun hmem => ha a hmem a List.mem_cons_self rfl⟩
      rw [← List.append_assoc, eraseDups_concat, if_neg hfresh]
      exact (ih hfront fun b hb => hnot b (List.mem_append_left _ hb)).append
        (List.Sublist.refl [a])
  rw [List.eraseDups_append]
  exact (hkept new hnew hdisjoint).trans (List.sublist_append_left _ _)

end Firsts

end History
