/-
# Folds that may refuse

Rules for code that checks its input as it reads it and stops at the first entry
it refuses: what an accepted bind, an accepted check and an accepted fold say.

Nothing here names the program under verification.
-/
import Mathlib

namespace Except

variable {ε α β σ : Type}

/-- Stop with `why` unless `ok` holds. -/
def require (ok : Prop) [Decidable ok] (why : ε) : Except ε Unit :=
  if ok then .ok () else .error why

theorem bind_eq_ok {x : Except ε α} {f : α → Except ε β} {b : β} :
    (x >>= f) = .ok b ↔ ∃ a, x = .ok a ∧ f a = .ok b := by
  cases x with
  | error e =>
    constructor
    · exact fun h => nomatch h
    · rintro ⟨a, ha, -⟩
      cases ha
  | ok a =>
    constructor
    · exact fun h => ⟨a, rfl, h⟩
    · rintro ⟨a', ha, h⟩
      rw [Except.ok.inj ha]
      exact h

theorem pure_eq_ok {a b : α} : (pure a : Except ε α) = .ok b ↔ a = b :=
  ⟨Except.ok.inj, congrArg _⟩

/-- An accepted check holds, and what follows it was accepted. -/
theorem require_bind_eq_ok {ok : Prop} [Decidable ok] {why : ε} {f : Unit → Except ε β} {b : β} :
    (require ok why >>= f) = .ok b ↔ ok ∧ f () = .ok b := by
  unfold require
  split
  · rename_i hok
    exact ⟨fun h => ⟨hok, h⟩, fun h => h.2⟩
  · rename_i hok
    constructor
    · exact fun h => nomatch h
    · exact fun h => absurd h.1 hok

/-- An accepted check with nothing after it. -/
theorem require_eq_ok {ok : Prop} [Decidable ok] {why : ε} {u : Unit} :
    require ok why = .ok u ↔ ok := by
  unfold require
  split
  · rename_i hok
    exact ⟨fun _ => hok, fun _ => rfl⟩
  · rename_i hok
    constructor
    · exact fun h => nomatch h
    · exact fun h => absurd h hok

/-- **History rule.**  What every accepted step keeps, as a relation between what
was read and the state, holds of all that an accepted fold read. -/
theorem foldlM_history {step : σ → α → Except ε σ} {I : List α → σ → Prop} {l : List α}
    (hstep : ∀ done a post s s', l = done ++ a :: post → I done s → step s a = .ok s' →
      I (done ++ [a]) s')
    {s s' : σ} (hs : I [] s) (h : l.foldlM step s = .ok s') : I l s' := by
  -- the part read so far grows on the right while the fold recurses on the left
  have hrest : ∀ (rest done : List α) (s : σ), l = done ++ rest → I done s →
      rest.foldlM step s = .ok s' → I l s' := by
    intro rest
    induction rest with
    | nil =>
      intro done s hl hs h
      rw [List.foldlM_nil, pure_eq_ok] at h
      rw [hl, List.append_nil, ← h]
      exact hs
    | cons a rest ih =>
      intro done s hl hs h
      rw [List.foldlM_cons, bind_eq_ok] at h
      obtain ⟨t, ht, hfold⟩ := h
      refine ih (done ++ [a]) t ?_ (hstep done a rest s t hl hs ht) hfold
      rw [hl, List.append_assoc, List.singleton_append]
  exact hrest l [] s rfl hs h

/-- Every entry of an accepted fold was accepted where it was read. -/
theorem ok_of_foldlM {step : σ → α → Except ε σ} {l : List α} {s s' : σ}
    (h : l.foldlM step s = .ok s') : ∀ a ∈ l, ∃ t t', step t a = .ok t' := by
  refine foldlM_history (I := fun done _ => ∀ a ∈ done, ∃ t t', step t a = .ok t') ?_
    (fun _ ha => absurd ha List.not_mem_nil) h
  intro done a post t t' _ hdone hstep b hb
  rcases List.mem_append.mp hb with hb | hb
  · exact hdone b hb
  · rw [List.mem_singleton.mp hb]
    exact ⟨t, t', hstep⟩

/-- What was read off an accepted result. -/
theorem exists_ok_of_map {x : Except ε α} {f : α → β} {b : β}
    (h : x.toOption.map f = some b) : ∃ a, x = .ok a ∧ f a = b := by
  cases x with
  | error e => cases h
  | ok a => exact ⟨a, rfl, Option.some.inj h⟩

/-- Every entry of an accepted `forM` was accepted. -/
theorem ok_of_forM {f : α → Except ε Unit} {l : List α} {u : Unit} (h : l.forM f = .ok u) :
    ∀ a ∈ l, f a = .ok () := by
  induction l with
  | nil => exact fun a ha => nomatch ha
  | cons a rest ih =>
    rw [List.forM_eq_forM, List.forM_cons, bind_eq_ok] at h
    obtain ⟨u', ha, hrest⟩ := h
    intro a' ha'
    rcases List.mem_cons.mp ha' with rfl | hmem
    · exact ha
    · exact ih (by rwa [List.forM_eq_forM]) a' hmem

/-- A `forM` of entries that are all accepted is. -/
theorem forM_ok {f : α → Except ε Unit} {l : List α} (h : ∀ a ∈ l, f a = .ok ()) :
    l.forM f = .ok () := by
  induction l with
  | nil => rfl
  | cons a rest ih =>
    rw [List.forall_mem_cons] at h
    rw [List.forM_eq_forM, List.forM_cons, bind_eq_ok]
    exact ⟨(), h.1, by rw [← List.forM_eq_forM]; exact ih h.2⟩

end Except
