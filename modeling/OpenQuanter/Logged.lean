/-
# Values with a fault log

A small writer monad for code that never stops on a fault: an operation that
saturates, or that would stop the process, still returns a value, and the log
says that it happened.  A property that only holds when some kind of fault is
absent is then stated on the log of the whole computation, and the rules below
hand that absence down to every operation inside it.

Nothing here names the program under verification.
-/
import Mathlib

/-- A value together with the faults met while it was computed, in order. -/
structure Logged (ε α : Type) where
  val : α
  faults : List ε

namespace Logged

variable {ε α β σ : Type}

@[ext] theorem ext {x y : Logged ε α} (hval : x.val = y.val) (hfaults : x.faults = y.faults) :
    x = y := by
  cases x
  cases y
  cases hval
  cases hfaults
  rfl

instance : Monad (Logged ε) where
  pure a := ⟨a, []⟩
  bind x f := ⟨(f x.val).val, x.faults ++ (f x.val).faults⟩

@[simp] theorem val_pure (a : α) : (pure a : Logged ε α).val = a := rfl

@[simp] theorem faults_pure (a : α) : (pure a : Logged ε α).faults = [] := rfl

@[simp] theorem val_bind (x : Logged ε α) (f : α → Logged ε β) :
    (x >>= f).val = (f x.val).val := rfl

@[simp] theorem faults_bind (x : Logged ε α) (f : α → Logged ε β) :
    (x >>= f).faults = x.faults ++ (f x.val).faults := rfl

@[simp] theorem val_map (f : α → β) (x : Logged ε α) : (f <$> x).val = f x.val := rfl

@[simp] theorem faults_map (f : α → β) (x : Logged ε α) : (f <$> x).faults = x.faults := by
  show x.faults ++ [] = x.faults
  exact List.append_nil _

instance : LawfulMonad (Logged ε) :=
  LawfulMonad.mk' (Logged ε) (fun x => by ext1 <;> simp) (fun a f => by ext1 <;> simp)
    (fun x f g => by ext1 <;> simp)

/-- Return `a`, logging `e` unless `ok` holds. -/
def note (e : ε) (ok : Prop) [Decidable ok] (a : α) : Logged ε α :=
  ⟨a, if ok then [] else [e]⟩

@[simp] theorem val_note (e : ε) (ok : Prop) [Decidable ok] (a : α) :
    (note e ok a).val = a := rfl

/-! ## Absence of a kind of fault -/

/-- No fault of kind `e` was logged. -/
def Free (e : ε) (x : Logged ε α) : Prop := e ∉ x.faults

instance [DecidableEq ε] (e : ε) (x : Logged ε α) : Decidable (x.Free e) :=
  inferInstanceAs (Decidable (e ∉ x.faults))

@[simp] theorem free_pure (e : ε) (a : α) : (pure a : Logged ε α).Free e := by
  simp [Free]

@[simp] theorem free_bind (e : ε) (x : Logged ε α) (f : α → Logged ε β) :
    (x >>= f).Free e ↔ x.Free e ∧ (f x.val).Free e := by
  simp [Free, not_or]

@[simp] theorem free_map (e : ε) (f : α → β) (x : Logged ε α) :
    (f <$> x).Free e ↔ x.Free e := by
  simp [Free]

@[simp] theorem free_note_self (e : ε) (ok : Prop) [Decidable ok] (a : α) :
    (note e ok a).Free e ↔ ok := by
  by_cases h : ok <;> simp [Free, note, h]

/-! ## Postconditions

`Ensures F x Q` is a postcondition of a logged computation: if `x` meets none of
the faults in `F`, its value satisfies `Q`.  With `F` empty it is a fact about
the value alone. -/

/-- If no fault of `F` was logged, `Q` holds of the value. -/
def Ensures (F : Set ε) (x : Logged ε α) (Q : α → Prop) : Prop :=
  (∀ e ∈ F, x.Free e) → Q x.val

variable {F : Set ε} {P : α → Prop} {Q : β → Prop}

theorem ensures_pure {a : α} (h : P a) : Ensures F (pure a) P := fun _ => h

theorem ensures_bind {x : Logged ε α} {f : α → Logged ε β} (hx : Ensures F x P)
    (hf : ∀ a, P a → Ensures F (f a) Q) : Ensures F (x >>= f) Q := by
  intro hfree
  have hfirst : ∀ e ∈ F, x.Free e := fun e he => ((free_bind e x f).mp (hfree e he)).1
  have hsecond : ∀ e ∈ F, (f x.val).Free e := fun e he => ((free_bind e x f).mp (hfree e he)).2
  exact hf x.val (hx hfirst) hsecond

/-- A note that may log a fault of `F` gives its condition. -/
theorem ensures_note {e : ε} {ok : Prop} [Decidable ok] {a : α} (h : (e ∈ F → ok) → P a) :
    Ensures F (note e ok a) P := by
  intro hfree
  exact h (fun he => (free_note_self e ok a).mp (hfree e he))

theorem Ensures.mono {x : Logged ε α} {P' : α → Prop} (h : Ensures F x P)
    (himp : ∀ a, P a → P' a) : Ensures F x P' :=
  fun hfree => himp _ (h hfree)

/-- What holds of a value whatever was logged. -/
theorem ensures_of_val {x : Logged ε α} (h : P x.val) : Ensures F x P := fun _ => h

theorem ensures_empty {x : Logged ε α} (h : Ensures ∅ x P) : P x.val := h (by simp)

theorem ensures_singleton {e : ε} {x : Logged ε α} (h : Ensures {e} x P) (hfree : x.Free e) :
    P x.val :=
  h (by simpa using hfree)

/-! ## Runs

A run feeds a list of inputs to a step function, one after the other:
`inputs.foldlM step s`. -/

/-- **Invariant rule.**  What every step keeps holds at the end of every run. -/
theorem ensures_foldlM {step : σ → α → Logged ε σ} {I : σ → Prop}
    (hstep : ∀ s a, I s → Ensures F (step s a) I) {s : σ} (hs : I s) (inputs : List α) :
    Ensures F (inputs.foldlM step s) I := by
  induction inputs generalizing s with
  | nil => exact ensures_pure hs
  | cons a rest ih =>
    rw [List.foldlM_cons]
    exact ensures_bind (hstep s a hs) (fun t ht => ih ht)

/-- What each step adds up adds up over a run. -/
theorem ensures_foldlM_sum {step : σ → α → Logged ε σ} (g : σ → Int) {f : α → Int}
    (hstep : ∀ s a, Ensures F (step s a) fun t => g t = g s + f a) (inputs : List α) (s : σ) :
    Ensures F (inputs.foldlM step s) fun t => g t = g s + (inputs.map f).sum := by
  induction inputs generalizing s with
  | nil => exact ensures_pure (by rw [List.map_nil, List.sum_nil, add_zero])
  | cons a rest ih =>
    rw [List.foldlM_cons]
    refine ensures_bind (hstep s a) fun t ht => (ih t).mono fun t' ht' => ?_
    rw [ht', ht, List.map_cons, List.sum_cons, add_assoc]

/-- A map that goes along with every step goes along with a run. -/
theorem val_foldlM_hom {τ : Type} {f : σ → τ} {step : σ → α → Logged ε σ}
    {step' : τ → α → Logged ε τ} (hstep : ∀ s a, (step' (f s) a).val = f (step s a).val)
    (inputs : List α) (s : σ) :
    (inputs.foldlM step' (f s)).val = f (inputs.foldlM step s).val := by
  induction inputs generalizing s with
  | nil => rfl
  | cons a rest ih =>
    rw [List.foldlM_cons, List.foldlM_cons, val_bind, val_bind, hstep]
    exact ih _

/-! ## Runs that differ in the state only -/

/-- A computation that differs from another one in its value only, and there by `f`. -/
theorem eq_map {f : α → β} {x : Logged ε α} {y : Logged ε β} (hval : y.val = f x.val)
    (hfaults : y.faults = x.faults) : y = f <$> x := by
  refine Logged.ext hval ?_
  rw [hfaults, faults_map]

/-- A map that goes along with two computations goes along with one after the other. -/
theorem bind_eq_map {γ δ : Type} {f : α → γ} {g : β → δ} {x : Logged ε α} {y : Logged ε γ}
    {k : α → Logged ε β} {l : γ → Logged ε δ} (hx : y = f <$> x)
    (hk : l (f x.val) = g <$> k x.val) : y >>= l = g <$> (x >>= k) := by
  subst hx
  refine eq_map ?_ ?_
  · rw [val_bind, val_map, hk, val_map, val_bind]
  · rw [faults_bind, val_map, hk, faults_map, faults_map, faults_bind]

/-- A map that goes along with every step of a run, where the run ends well and ending well
is handed back from a step to the state before it. -/
theorem foldlM_map_of {τ : Type} {f : σ → τ} {k : σ → α → Logged ε σ}
    {l : τ → α → Logged ε τ} {Q : σ → Prop}
    (hback : ∀ s a, Q (k s a).val → Q s)
    (hstep : ∀ s a, Q (k s a).val → l (f s) a = f <$> k s a)
    (inputs : List α) (s : σ) (hend : Q (inputs.foldlM k s).val) :
    inputs.foldlM l (f s) = f <$> inputs.foldlM k s ∧ Q s := by
  induction inputs generalizing s with
  | nil => exact ⟨eq_map rfl rfl, hend⟩
  | cons a rest ih =>
    rw [List.foldlM_cons, val_bind] at hend
    obtain ⟨hrest, hgood⟩ := ih (k s a).val hend
    refine ⟨?_, hback s a hgood⟩
    rw [List.foldlM_cons, List.foldlM_cons]
    exact bind_eq_map (hstep s a hgood) hrest

end Logged
