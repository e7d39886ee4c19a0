/-
# Announcing sealed windows (`oq-l2feed/src/writer.rs`)

A call that seals a window returns it, so that whoever calls can hand the file on.  A call can
seal two: the window that waited for late records when it rotates, and the one it rotated away
from when its record is already past the grace period; it returns one.  Windows only move
forward (`CaptureWriter.Turn`), so what one call seals no other call seals again, and a sequence
of calls announces every window exactly when none of them seals more than it returns
(`announced_iff`).
-/
import OpenQuanter.CapturePlaces

namespace Capture

/-! ## Exactly once -/

/-- Where no two entries do the same, everything that is done is told once iff every entry tells
what it does. -/
theorem told_once_iff {α β : Type} {does tells : α → β → Prop} {l : List α}
    (htrue : ∀ a ∈ l, ∀ b, tells a b → does a b)
    (hapart : l.Pairwise fun a a' => ∀ b, does a b → ¬ does a' b) :
    (∀ b, (∃ a ∈ l, does a b) → ∃! i : Nat, ∃ a, l[i]? = some a ∧ tells a b) ↔
      ∀ a ∈ l, ∀ b, does a b → tells a b := by
  have hone : ∀ {i j : Nat} {a a' : α} {b : β}, l[i]? = some a → l[j]? = some a' →
      does a b → does a' b → i = j := by
    intro i j a a' b hi hj ha ha'
    obtain ⟨hin, rfl⟩ := List.getElem?_eq_some_iff.mp hi
    obtain ⟨hjn, rfl⟩ := List.getElem?_eq_some_iff.mp hj
    rcases Nat.lt_trichotomy i j with hlt | heq | hlt
    · exact absurd ha' (List.pairwise_iff_getElem.mp hapart i j hin hjn hlt b ha)
    · exact heq
    · exact absurd ha (List.pairwise_iff_getElem.mp hapart j i hjn hin hlt b ha')
  constructor
  · intro h a ha b hdoes
    obtain ⟨i, ⟨a', hi, htells⟩, -⟩ := h b ⟨a, ha, hdoes⟩
    obtain ⟨j, hj⟩ := List.mem_iff_getElem?.mp ha
    have hsame := hone hi hj (htrue a' (List.mem_of_getElem? hi) b htells) hdoes
    rw [hsame, hj] at hi
    exact Option.some.inj hi ▸ htells
  · rintro h b ⟨a, ha, hdoes⟩
    obtain ⟨j, hj⟩ := List.mem_iff_getElem?.mp ha
    refine ⟨j, ⟨a, hj, h a ha b hdoes⟩, ?_⟩
    rintro i ⟨a', hi, htells⟩
    exact hone hi hj (htrue a' (List.mem_of_getElem? hi) b htells) hdoes

/-! ## Manifests -/

theorem Disk.manifests_setManifest (d : Disk) (window other : Window) (m : Option Manifest) :
    (d.setManifest window m).manifests other = if other = window then m else d.manifests other :=
  Function.update_apply ..

theorem Window.before_irrefl (w : Window) : w.before w = false := by
  obtain ⟨day, hour⟩ := w
  cases hour <;> simp [before]

theorem Window.ne_of_before {v w : Window} (h : v.before w = true) : v ≠ w := by
  rintro rfl
  exact Bool.false_ne_true (v.before_irrefl.symm.trans h)

namespace CaptureWriter

/-! ## What moves -/

/-- A window behind those that are held. -/
def Past (w : CaptureWriter) (window : Window) : Prop :=
  (∃ o ∈ w.open_, window.before o.window = true) ∧ ∀ p ∈ w.previous, p.window ≠ window

/-- No manifest beside an open file, and the window that waits lies before the open one. -/
structure InOrder (w : CaptureWriter) (d : Disk) : Prop where
  bare : ∀ day ∈ w.held, d.manifests day.window = none
  behind : ∀ p ∈ w.previous, ∃ o ∈ w.open_, p.window.before o.window = true

/-- What a step of the writer does to the windows when it seals some of them. -/
structure Turn (w : CaptureWriter) (d : Disk) (w' : CaptureWriter) (d' : Disk)
    (sealed : List SealedDay) : Prop where
  settings : w'.toSettings = w.toSettings
  inOrder : w'.InOrder d'
  held : ∀ s ∈ sealed, ∃ day ∈ w.held, day.window = s.window
  now : ∀ s ∈ sealed, w'.Past s.window ∧ d'.manifests s.window = some s.manifest
  kept : ∀ window, (∀ s ∈ sealed, s.window ≠ window) →
    d'.manifests window = d.manifests window ∨ d'.manifests window = none
  past : ∀ window, w.Past window → w'.Past window ∧ d'.manifests window = d.manifests window

section

variable {w w₁ w₂ : CaptureWriter} {d d₁ d₂ : Disk}

theorem InOrder.apart (h : w.InOrder d) : ∀ o ∈ w.open_, ∀ p ∈ w.previous, p.window ≠ o.window := by
  intro o ho p hp
  obtain ⟨o', ho', hbefore⟩ := h.behind p hp
  obtain rfl := Option.mem_unique ho ho'
  exact Window.ne_of_before hbefore

/-- With nothing open nothing waits. -/
theorem InOrder.previous_of_closed (h : w.InOrder d) (hopen : w.open_ = none) :
    w.previous = none := by
  cases hprevious : w.previous with
  | none => rfl
  | some p =>
    obtain ⟨o, ho, -⟩ := h.behind p hprevious
    cases hopen.symm.trans ho

/-- A step that leaves the windows and the manifests as they are. -/
theorem Turn.of_same (h : w.InOrder d) (hsettings : w₁.toSettings = w.toSettings)
    (hopen : w₁.open_.map OpenDay.window = w.open_.map OpenDay.window)
    (hprevious : w₁.previous.map OpenDay.window = w.previous.map OpenDay.window)
    (hd : d₁.manifests = d.manifests) : Turn w d w₁ d₁ [] := by
  have hopen' : ∀ o ∈ w₁.open_, ∃ o' ∈ w.open_, o'.window = o.window := by
    intro o ho
    rw [Option.mem_def.mp ho, Option.map_some] at hopen
    exact Option.map_eq_some_iff.mp hopen.symm
  have hopened : ∀ o ∈ w.open_, ∃ o' ∈ w₁.open_, o'.window = o.window := by
    intro o ho
    rw [Option.mem_def.mp ho, Option.map_some] at hopen
    exact Option.map_eq_some_iff.mp hopen
  have hprevious' : ∀ p ∈ w₁.previous, ∃ p' ∈ w.previous, p'.window = p.window := by
    intro p hp
    rw [Option.mem_def.mp hp, Option.map_some] at hprevious
    exact Option.map_eq_some_iff.mp hprevious.symm
  refine ⟨hsettings, ⟨fun day hday => ?_, fun p hp => ?_⟩, fun s hs => (nomatch hs),
    fun s hs => (nomatch hs), fun window _ => .inl (by rw [hd]), ?_⟩
  · rw [hd]
    rcases mem_held.mp hday with hday | hday
    · obtain ⟨o, ho, hsame⟩ := hopen' day hday
      exact hsame ▸ h.bare o (mem_held.mpr (.inl ho))
    · obtain ⟨p, hp, hsame⟩ := hprevious' day hday
      exact hsame ▸ h.bare p (mem_held.mpr (.inr hp))
  · obtain ⟨p', hp', hsame⟩ := hprevious' p hp
    obtain ⟨o, ho, hbefore⟩ := h.behind p' hp'
    obtain ⟨o', ho', hsame'⟩ := hopened o ho
    exact ⟨o', ho', hsame ▸ hsame'.symm ▸ hbefore⟩
  · rintro window ⟨⟨o, ho, hbefore⟩, hnot⟩
    obtain ⟨o', ho', hsame⟩ := hopened o ho
    refine ⟨⟨⟨o', ho', hsame.symm ▸ hbefore⟩, fun p hp => ?_⟩, by rw [hd]⟩
    obtain ⟨p', hp', hsame'⟩ := hprevious' p hp
    exact hsame' ▸ hnot p' hp'

/-- One step after the other, when the second seals what was held before both. -/
theorem Turn.trans {sealed₁ sealed₂ : List SealedDay} (h₁ : Turn w d w₁ d₁ sealed₁)
    (h₂ : Turn w₁ d₁ w₂ d₂ sealed₂) (hheld : ∀ s ∈ sealed₂, ∃ day ∈ w.held, day.window = s.window) :
    Turn w d w₂ d₂ (sealed₁ ++ sealed₂) := by
  refine ⟨h₂.settings.trans h₁.settings, h₂.inOrder, fun s hs => ?_, fun s hs => ?_,
    fun window hnot => ?_, fun window hpast => ?_⟩
  · rcases List.mem_append.mp hs with hs | hs
    · exact h₁.held s hs
    · exact hheld s hs
  · rcases List.mem_append.mp hs with hs | hs
    · obtain ⟨hpast, hmanifest⟩ := h₁.now s hs
      obtain ⟨hpast', hsame⟩ := h₂.past _ hpast
      exact ⟨hpast', hsame.trans hmanifest⟩
    · exact h₂.now s hs
  · have hfirst := h₁.kept window fun s hs => hnot s (List.mem_append_left _ hs)
    have hsecond := h₂.kept window fun s hs => hnot s (List.mem_append_right _ hs)
    rcases hsecond with hsecond | hsecond
    · rcases hfirst with hfirst | hfirst
      · exact .inl (hsecond.trans hfirst)
      · exact .inr (hsecond.trans hfirst)
    · exact .inr hsecond
  · obtain ⟨hpast', hsame⟩ := h₁.past window hpast
    obtain ⟨hpast'', hsame'⟩ := h₂.past window hpast'
    exact ⟨hpast'', hsame'.trans hsame⟩

/-- **Sealing** the window that waits. -/
theorem turn_sealPrevious (h : w.InOrder d) :
    Turn w d (w.sealPrevious d).1 (w.sealPrevious d).2.1 (w.sealPrevious d).2.2.toList := by
  unfold sealPrevious
  cases hprevious : w.previous with
  | none => exact Turn.of_same h rfl rfl rfl rfl
  | some p =>
    obtain ⟨o, ho, hbefore⟩ := h.behind p hprevious
    have hne := Window.ne_of_before hbefore
    refine ⟨rfl, ⟨fun day hday => ?_, fun p' hp' => by cases hp'⟩, fun s hs => ?_, fun s hs => ?_,
      fun window hnot => ?_, fun window hpast => ?_⟩
    · rcases mem_held.mp hday with hday | hday
      · have hapart := h.apart day hday p hprevious
        simp only [sealDay, Disk.manifests_setManifest, if_neg hapart.symm]
        exact h.bare day (mem_held.mpr (.inl hday))
      · cases hday
    · obtain rfl := List.mem_singleton.mp hs
      exact ⟨p, mem_held.mpr (.inr hprevious), rfl⟩
    · obtain rfl := List.mem_singleton.mp hs
      refine ⟨⟨⟨o, ho, hbefore⟩, fun p' hp' => by cases hp'⟩, ?_⟩
      simp only [sealDay, Disk.manifests_setManifest, if_true]
    · have hother := hnot _ (List.mem_singleton_self _)
      simp only [sealDay, Disk.manifests_setManifest] at hother ⊢
      rw [if_neg (Ne.symm hother)]
      exact .inl rfl
    · have hother := hpast.2 p hprevious
      simp only [sealDay, Disk.manifests_setManifest, if_neg (Ne.symm hother), and_true]
      exact ⟨hpast.1, fun p' hp' => by cases hp'⟩

end

/-! ## What an append seals -/

/-- So far into its window that nothing more can belong to the one before. -/
def PastGrace (c : Settings) (r : Record) : Prop :=
  c.graceNs < Int64.ofIntClamp (r.dayTs.toInt - (c.windowFor r).startNanos)

instance (c : Settings) (r : Record) : Decidable (PastGrace c r) :=
  inferInstanceAs (Decidable (c.graceNs < _))

/-- A record that starts a new file while another is open. -/
def Rotates (w : CaptureWriter) (r : Record) : Prop := w.open_.isSome ∧ w.Opens (w.windowFor r)

/-- A record that a window is sealed at. -/
def Seals (w : CaptureWriter) (r : Record) : Prop :=
  (w.Rotates r ∧ (w.previous.isSome ∨ PastGrace w.toSettings r)) ∨
    (PastGrace w.toSettings r ∧ w.previous.isSome ∧ ∃ o ∈ w.open_, o.window = w.windowFor r)

/-- A record that two windows are sealed at: it rotates while another window waits, and is past
the grace period of the one it rotates away from. -/
def SealsTwo (w : CaptureWriter) (r : Record) : Prop :=
  w.Rotates r ∧ w.previous.isSome ∧ PastGrace w.toSettings r

/-- The manifest accounting for the file a record of `window` was written to. -/
def builderFor (w : CaptureWriter) (window : Window) : Option ManifestBuilder :=
  match w.previous.filter fun day => day.window = window with
  | some day => some day.builder
  | none => (w.open_.filter fun day => day.window = window).map OpenDay.builder

/-- A writer whose next record of a window, as far into it, seals nothing. -/
def Settled (w : CaptureWriter) (r : Record) : Prop :=
  (∃ p ∈ w.previous, p.window = w.windowFor r) ∨
    ((∃ o ∈ w.open_, o.window = w.windowFor r) ∧ (w.previous = none ∨ ¬ PastGrace w.toSettings r))

/-- What an append that is not stopped by a damaged file does to the windows. -/
structure Turned (w : CaptureWriter) (d : Disk) (r : Record) (o : Outcome (Option SealedDay))
    (sealed : List SealedDay) : Prop where
  turn : Turn w d o.1 o.2.1 sealed
  told : o.2.2 = .ok sealed.getLast? ∨ sealed = [] ∧ ∃ e, e ≠ .panic ∧ o.2.2 = .error e
  refused : o.2.2.isOk ∨ ∀ day ∈ w.held, day.window ≠ w.windowFor r
  seals : sealed ≠ [] ↔ w.Seals r
  two : (∃ s ∈ sealed, some s ≠ sealed.getLast?) ↔ w.SealsTwo r
  settled : o.2.2.isOk → o.1.Settled r
  total : o.2.2.isOk → (o.1.builderFor (w.windowFor r)).map ManifestBuilder.gapNsTotal =
    some (((w.builderFor (w.windowFor r)).map ManifestBuilder.gapNsTotal).getD 0)
  resumed : o.2.2.isOk → (∃ day ∈ w.open_, day.window = w.windowFor r) →
    o.1.open_.bind OpenDay.resumedAfter = w.open_.bind OpenDay.resumedAfter

variable {w : CaptureWriter} {d : Disk} {r : Record}

/-- What writing to the open window does to the windows. -/
structure Stored (w : CaptureWriter) (d : Disk) (r : Record) (day : OpenDay)
    (done : Option SealedDay) (o : Outcome (Option SealedDay)) (sealed : List SealedDay) :
    Prop where
  turn : Turn w d o.1 o.2.1 sealed
  told : o.2.2 = .ok (sealed.getLast?.or done)
  one : sealed.length ≤ 1
  seals : sealed ≠ [] ↔ w.previous.isSome ∧ PastGrace w.toSettings r
  previous : ∀ s ∈ sealed, ∃ p ∈ w.previous, p.window = s.window
  opened : o.1.open_ = some { day with builder := day.builder.observe r }
  waits : o.1.previous = none ∨ o.1.previous = w.previous ∧ ¬ PastGrace w.toSettings r

theorem stored_store {day : OpenDay} (h : w.InOrder d) (hopen : w.open_ = some day)
    (done : Option SealedDay) :
    ∃ sealed, w.Stored d r day done (w.store d (w.windowFor r) r done) sealed := by
  have hwritten : Turn w d { w with open_ := some { day with builder := day.builder.observe r } }
      (d.write day.window r.encode) [] :=
    Turn.of_same h rfl (by rw [hopen]; rfl) rfl rfl
  have hstore : w.store d (w.windowFor r) r done =
      if w.previous.isSome ∧ PastGrace w.toSettings r then
        let o := CaptureWriter.sealPrevious
          { w with open_ := some { day with builder := day.builder.observe r } }
          (d.write day.window r.encode)
        ((o.1, o.2.1, .ok o.2.2) : Outcome (Option SealedDay))
      else ({ w with open_ := some { day with builder := day.builder.observe r } },
        d.write day.window r.encode, .ok done) := by
    unfold store
    rw [hopen]
    simp only [Bool.and_eq_true, decide_eq_true_eq]
    rfl
  rw [hstore]
  by_cases hseals : w.previous.isSome ∧ PastGrace w.toSettings r
  · obtain ⟨p, hp⟩ := Option.isSome_iff_exists.mp hseals.1
    have hturn := hwritten.trans (turn_sealPrevious hwritten.inOrder)
      (fun s hs => by
        obtain ⟨day', hday', hsame⟩ := (turn_sealPrevious hwritten.inOrder).held s hs
        rcases mem_held.mp hday' with hday' | hday'
        · obtain rfl := Option.some.inj hday'
          exact ⟨day, mem_held.mpr (.inl hopen), hsame⟩
        · exact ⟨day', mem_held.mpr (.inr hday'), hsame⟩)
    simp only [if_pos hseals]
    simp only [sealPrevious, hp] at hturn ⊢
    refine ⟨_, hturn, rfl, le_rfl, ⟨fun _ => hp ▸ hseals, fun _ => List.cons_ne_nil _ _⟩,
      fun s hs => ?_, rfl, .inl rfl⟩
    obtain rfl := List.mem_singleton.mp hs
    exact ⟨p, hp, rfl⟩
  · rw [if_neg hseals]
    refine ⟨[], hwritten, rfl, Nat.zero_le _, ⟨fun hne => absurd rfl hne, fun h => absurd h hseals⟩,
      fun s hs => (by cases hs), rfl, ?_⟩
    cases hp : w.previous with
    | none => exact .inl rfl
    | some p => exact .inr ⟨rfl, fun hpast => hseals ⟨by rw [hp]; rfl, hpast⟩⟩

/-- Opening a window with nothing open. -/
theorem turn_open (window : Window) (b : ManifestBuilder) (last : Option Int64) (bytes : List UInt8)
    (hopen : w.open_ = none) (hprevious : w.previous = none) :
    Turn w d { w with open_ := some ⟨window, b, last⟩ }
      ((d.setFile window bytes).setManifest window none) [] := by
  refine ⟨rfl, ⟨fun day hday => ?_, fun p hp => nomatch hprevious.symm.trans hp⟩,
    fun s hs => (nomatch hs), fun s hs => (nomatch hs), fun other _ => ?_, fun other hpast => ?_⟩
  · rcases mem_held.mp hday with hday | hday
    · obtain rfl := Option.some.inj hday
      rw [Disk.manifests_setManifest, if_pos rfl]
    · cases hprevious.symm.trans hday
  · rw [Disk.manifests_setManifest]
    split
    · exact .inr rfl
    · exact .inl rfl
  · obtain ⟨⟨o, ho, -⟩, -⟩ := hpast
    cases hopen.symm.trans ho

/-- Opening a window while another is open: that one waits for late records. -/
theorem turn_rotate {window : Window} (b : ManifestBuilder) (last : Option Int64)
    (bytes : List UInt8) {day : OpenDay} (h : w.InOrder d) (hopen : w.open_ = some day)
    (hopens : w.Opens window) :
    Turn w d { w with open_ := some ⟨window, b, last⟩, previous := some day }
      ((d.setFile window bytes).setManifest window none) [] := by
  have hne : day.window ≠ window := hopens.1 day (mem_held.mpr (.inl hopen))
  have hnext := Window.before_of_not_before (hopens.2 day hopen) hne
  refine ⟨rfl, ⟨fun day' hday => ?_, fun p hp => ?_⟩, fun s hs => (nomatch hs),
    fun s hs => (nomatch hs), fun other _ => ?_, fun other hpast => ?_⟩
  · rw [Disk.manifests_setManifest]
    rcases mem_held.mp hday with hday | hday
    · obtain rfl := Option.some.inj hday
      rw [if_pos rfl]
    · obtain rfl := Option.some.inj hday
      rw [if_neg hne]
      exact h.bare day (mem_held.mpr (.inl hopen))
  · obtain rfl := Option.some.inj hp
    exact ⟨_, rfl, hnext⟩
  · rw [Disk.manifests_setManifest]
    split
    · exact .inr rfl
    · exact .inl rfl
  · obtain ⟨⟨o, ho, hbefore⟩, -⟩ := hpast
    obtain rfl := Option.some.inj (hopen.symm.trans ho)
    have hbefore' := Window.before_trans hbefore hnext
    refine ⟨⟨⟨_, rfl, hbefore'⟩, fun p hp => ?_⟩, ?_⟩
    · obtain rfl := Option.some.inj hp
      exact (Window.ne_of_before hbefore).symm
    · rw [Disk.manifests_setManifest, if_neg (Window.ne_of_before hbefore')]
      rfl

/-! ### The builder of a record's window -/

theorem builderFor_of_previous {p : OpenDay} {window : Window} (hp : w.previous = some p)
    (hwindow : p.window = window) : w.builderFor window = some p.builder := by
  rw [builderFor, hp, Option.filter_some, if_pos (decide_eq_true hwindow)]

theorem builderFor_of_open {o : OpenDay} {window : Window} (ho : w.open_ = some o)
    (hwindow : o.window = window) (hnot : ∀ p ∈ w.previous, p.window ≠ window) :
    w.builderFor window = some o.builder := by
  have hfilter : (w.previous.filter fun day => day.window = window) = none := by
    rw [Option.filter_eq_none_iff]
    exact fun p hp => by simpa using hnot p hp
  rw [builderFor, hfilter]
  simp only
  rw [ho, Option.filter_some, if_pos (decide_eq_true hwindow)]
  rfl

theorem builderFor_of_opens {window : Window} (hopens : w.Opens window) :
    w.builderFor window = none := by
  have hfilter : (w.previous.filter fun day => day.window = window) = none := by
    rw [Option.filter_eq_none_iff]
    exact fun p hp => by simpa using hopens.1 p (mem_held.mpr (.inr hp))
  have hfilter' : (w.open_.filter fun day => day.window = window) = none := by
    rw [Option.filter_eq_none_iff]
    exact fun o ho => by simpa using hopens.1 o (mem_held.mpr (.inl ho))
  rw [builderFor, hfilter]
  simp only
  rw [hfilter']
  rfl

/-- What a window that is opened was counted as has no outages in it yet. -/
theorem gapNsTotal_of_scan {file : Option (List UInt8)} {b : ManifestBuilder}
    {found : Option (Nat × Nat)} (h : scanExisting file = .ok (b, found)) : b.gapNsTotal = 0 := by
  obtain ⟨frames, rest, -, -, rfl, -⟩ := frames_of_scan h
  rw [(observeAll_fields _ _).2.2.2]
  rfl

theorem countAt_eq_none {window : Window} {count : ManifestBuilder → Option ManifestBuilder} :
    w.countAt window count = none ↔ ∃ b, w.builderFor window = some b ∧ count b = none := by
  unfold countAt builderFor
  cases w.previous.filter fun day => day.window = window with
  | some day => simp
  | none =>
    cases w.open_.filter fun day => day.window = window with
    | some day => simp
    | none => simp

/-! ### The append -/

theorem getLast?_or_toList (done : Option SealedDay) (sealed : List SealedDay) :
    (done.toList ++ sealed).getLast? = sealed.getLast?.or done := by
  cases done with
  | none => simp
  | some s => cases sealed with
    | nil => rfl
    | cons t sealed => simp [List.getLast?_cons]

/-- A record that is written to the open window, after what was done to open it. -/
theorem Stored.turned {w₁ : CaptureWriter} {d₁ : Disk} {day : OpenDay} {done : Option SealedDay}
    {o : Outcome (Option SealedDay)} {sealed : List SealedDay}
    (h : w₁.Stored d₁ r day done o sealed)
    (hturn : Turn w d w₁ d₁ done.toList) (hday : day.window = w.windowFor r)
    (hheld : ∀ p ∈ w₁.previous, ∃ day ∈ w.held, day.window = p.window)
    (hseals : w.Seals r ↔ done.isSome ∨ w₁.previous.isSome ∧ PastGrace w.toSettings r)
    (htwo : w.SealsTwo r ↔ done.isSome ∧ w₁.previous.isSome ∧ PastGrace w.toSettings r)
    (htotal : day.builder.gapNsTotal =
      ((w.builderFor (w.windowFor r)).map ManifestBuilder.gapNsTotal).getD 0)
    (hresumed : (∃ day ∈ w.open_, day.window = w.windowFor r) →
      day.resumedAfter = w.open_.bind OpenDay.resumedAfter) :
    w.Turned d r o (done.toList ++ sealed) := by
  have hmore := h.seals
  have hwaits := h.waits
  rw [hturn.settings] at hmore hwaits
  have hsettings := h.turn.settings.trans hturn.settings
  refine ⟨hturn.trans h.turn fun s hs => ?_, .inl ?_, .inl (by rw [h.told]; rfl), ?_, ?_,
    fun _ => .inr ⟨⟨_, h.opened, ?_⟩, ?_⟩, fun _ => ?_, fun _ hopen => ?_⟩
  · obtain ⟨p, hp, hsame⟩ := h.previous s hs
    obtain ⟨day', hday', hsame'⟩ := hheld p hp
    exact ⟨day', hday', hsame'.trans hsame⟩
  · rw [h.told, getLast?_or_toList]
  · rw [hseals, ← hmore]
    cases done with
    | none => simp
    | some s => simp
  · rw [htwo, ← hmore]
    have hone := h.one
    have hprevious := h.previous
    have hnow := hturn.now
    clear hmore htwo hseals
    rcases sealed with _ | ⟨t, _ | ⟨u, rest⟩⟩
    · cases done <;> simp
    · cases done with
      | none => simp
      | some s =>
        have hne : s ≠ t := by
          rintro rfl
          obtain ⟨p, hp, hsame⟩ := hprevious s (List.mem_singleton_self s)
          exact (hnow s (List.mem_singleton_self s)).1.2 p hp hsame
        simp [hne]
    · simp at hone
  · exact hday.trans (congrArg (Settings.windowFor · r) hsettings).symm
  · rw [hsettings]
    exact hwaits.imp_right And.right
  · have hbuilder := builderFor_of_open h.opened hday fun p hp =>
      hday ▸ h.turn.inOrder.apart _ h.opened p hp
    rw [hbuilder, ← htotal]
    rfl
  · rw [h.opened, ← hresumed hopen]
    rfl

/-- A record of the window that waits is written to it. -/
theorem turned_append_late (h : w.InOrder d) {p : OpenDay} (hprevious : w.previous = some p)
    (hwindow : p.window = w.windowFor r) : w.Turned d r (w.append d r) [] := by
  have hmem : p ∈ w.held := mem_held.mpr (.inr hprevious)
  have hlate : (w.previous.filter fun day => day.window = w.windowFor r) = some p := by
    rw [hprevious, Option.filter_some, if_pos (decide_eq_true hwindow)]
  have happend : w.append d r =
      ({ w with previous := some { p with builder := p.builder.observe r } },
        d.write (w.windowFor r) r.encode, .ok none) := by
    unfold append
    simp only [hlate]
  rw [happend]
  refine ⟨Turn.of_same h rfl rfl (by rw [hprevious]; rfl) rfl, .inl rfl, .inl rfl, ?_, ?_,
    fun _ => .inl ⟨_, rfl, hwindow⟩, fun _ => ?_, fun _ _ => rfl⟩
  · refine ⟨fun hne => absurd rfl hne, ?_⟩
    rintro (⟨⟨-, hopens⟩, -⟩ | ⟨-, -, o, ho, hsame⟩)
    · exact absurd hwindow (hopens.1 p hmem)
    · exact absurd (hwindow.trans hsame.symm) (h.apart o ho p hprevious)
  · refine ⟨fun ⟨s, hs, _⟩ => (nomatch hs), fun ⟨⟨_, hopens⟩, _⟩ => ?_⟩
    exact absurd hwindow (hopens.1 p hmem)
  · rw [builderFor_of_previous (p := { p with builder := p.builder.observe r }) rfl hwindow,
      builderFor_of_previous hprevious hwindow]
    rfl

/-- The window that waits, if there is one, is not that of the record. -/
theorem not_late (hprevious : ∀ p ∈ w.previous, p.window ≠ w.windowFor r) :
    (w.previous.filter fun day => day.window = w.windowFor r) = none :=
  Option.filter_eq_none_iff.mpr fun p hp => by simpa using hprevious p hp

/-- With no window open, the one of the record is the first. -/
theorem turned_append_closed (h : w.InOrder d)
    (hio : ∀ window e, (w.append d r).2.2 ≠ .error (.corrupt window e)) (hopen : w.open_ = none) :
    ∃ sealed, w.Turned d r (w.append d r) sealed := by
  have hnone := h.previous_of_closed hopen
  have hlate := not_late (r := r) fun p hp => nomatch hnone.symm.trans hp
  have hopens : w.Opens (w.windowFor r) := by
    refine ⟨fun day hday => ?_, fun day hday => nomatch hopen.symm.trans hday⟩
    rcases mem_held.mp hday with hday | hday
    · cases hopen.symm.trans hday
    · cases hnone.symm.trans hday
  have happend : w.append d r = w.openAndStore d (w.windowFor r) r none := by
    unfold append
    simp only [hlate, hopen]
  rw [happend] at hio ⊢
  unfold openAndStore openWindow at hio ⊢
  cases hscan : scanExisting (d.files (w.windowFor r)) with
  | error e =>
    simp only [hscan] at hio
    exact absurd rfl (hio _ _)
  | ok step =>
    obtain ⟨b, found⟩ := step
    have hturn := turn_open (d := d) (w.windowFor r) b b.localLast
      (withoutTail ((d.files (w.windowFor r)).getD []) found) hopen hnone
    obtain ⟨sealed, hstored⟩ := stored_store (r := r) hturn.inOrder rfl none
    refine ⟨_, hstored.turned hturn rfl (fun p hp => nomatch hnone.symm.trans hp) ?_ ?_ ?_ ?_⟩
    · simp [Seals, Rotates, hopen, hnone]
    · simp [SealsTwo, Rotates, hopen]
    · rw [builderFor_of_opens hopens]
      exact gapNsTotal_of_scan hscan
    · rintro ⟨day, hday, -⟩
      cases hopen.symm.trans hday

/-- A record of the open window is written to it. -/
theorem turned_append_same (h : w.InOrder d) {day : OpenDay} (hopen : w.open_ = some day)
    (hsame : day.window = w.windowFor r) : ∃ sealed, w.Turned d r (w.append d r) sealed := by
  have hmem : day ∈ w.held := mem_held.mpr (.inl hopen)
  have hprevious : ∀ p ∈ w.previous, p.window ≠ w.windowFor r :=
    fun p hp => hsame ▸ h.apart day hopen p hp
  have hlate := not_late hprevious
  have happend : w.append d r = w.store d (w.windowFor r) r none := by
    unfold append
    simp only [hlate, hopen, if_pos hsame]
  obtain ⟨sealed, hstored⟩ := stored_store (r := r) h hopen none
  have hnot : ¬ w.Opens (w.windowFor r) := fun hopens => hopens.1 day hmem hsame
  rw [happend]
  refine ⟨_, hstored.turned (Turn.of_same h rfl rfl rfl rfl) hsame
    (fun p hp => ⟨p, mem_held.mpr (.inr hp), rfl⟩) ?_ ?_ ?_ ?_⟩
  · simp [Seals, Rotates, hnot, hopen, hsame, and_comm]
  · simp [SealsTwo, Rotates, hnot]
  · rw [builderFor_of_open hopen hsame hprevious]
    rfl
  · rw [hopen]
    exact fun _ => rfl

/-- A record of a window before the open one is refused. -/
theorem turned_append_earlier (h : w.InOrder d)
    (hprevious : ∀ p ∈ w.previous, p.window ≠ w.windowFor r) {day : OpenDay}
    (hopen : w.open_ = some day) (hsame : day.window ≠ w.windowFor r)
    (hearlier : (w.windowFor r).before day.window = true) :
    w.Turned d r (w.append d r) [] := by
  have hlate := not_late hprevious
  have happend : w.append d r = (w, d, .error (.late (w.windowFor r) day.window)) := by
    unfold append
    simp only [hlate, hopen, if_neg hsame, if_pos hearlier]
  have hnot : ¬ w.Opens (w.windowFor r) := fun hopens =>
    Bool.false_ne_true ((hopens.2 day hopen).symm.trans hearlier)
  rw [happend]
  refine ⟨Turn.of_same h rfl rfl rfl rfl, .inr ⟨rfl, .late _ _, nofun, rfl⟩,
    .inr fun o ho => ?_, ?_, ?_, nofun, nofun, nofun⟩
  · rcases mem_held.mp ho with ho | ho
    · obtain rfl := Option.some.inj (hopen.symm.trans ho)
      exact hsame
    · exact hprevious o ho
  · simp [Seals, Rotates, hnot, hopen, hsame]
  · simp [SealsTwo, Rotates, hnot]

/-- At a record of a window after the open one the window that waited is sealed, and the new one
is opened and written to. -/
theorem turned_append_later (h : w.InOrder d)
    (hio : ∀ window e, (w.append d r).2.2 ≠ .error (.corrupt window e))
    (hprevious : ∀ p ∈ w.previous, p.window ≠ w.windowFor r) {day : OpenDay}
    (hopen : w.open_ = some day) (hsame : day.window ≠ w.windowFor r)
    (hearlier : ¬ (w.windowFor r).before day.window = true) :
    ∃ sealed, w.Turned d r (w.append d r) sealed := by
  have hmem : day ∈ w.held := mem_held.mpr (.inl hopen)
  have hlate := not_late hprevious
  have hopens : w.Opens (w.windowFor r) := by
    refine ⟨fun o ho => ?_, fun o ho => ?_⟩
    · rcases mem_held.mp ho with ho | ho
      · obtain rfl := Option.some.inj (hopen.symm.trans ho)
        exact hsame
      · exact hprevious o ho
    · obtain rfl := Option.some.inj (hopen.symm.trans ho)
      exact Bool.eq_false_iff.mpr hearlier
  have happend : w.append d r = openAndStore
      { (w.sealPrevious d).1 with previous := some day, open_ := none } (w.sealPrevious d).2.1
      (w.windowFor r) r (w.sealPrevious d).2.2 := by
    unfold append
    simp only [hlate, hopen, if_neg hsame, if_neg hearlier]
  have hsealed := turn_sealPrevious h
  have hsome : (w.sealPrevious d).2.2.isSome ↔ w.previous.isSome := by
    unfold sealPrevious
    cases w.previous <;> simp
  obtain ⟨-, hkept⟩ := sealPrevious_same w d
  have hgone := previous_sealPrevious w d
  rw [happend] at hio ⊢
  clear happend
  -- From here on only what sealing does to the writer matters, not how.
  generalize w.sealPrevious d = o at hsealed hsome hkept hgone hio ⊢
  obtain ⟨w₁, d₁, done⟩ := o
  simp only at hsealed hsome hkept hgone hio ⊢
  have hopens' : w₁.Opens (w.windowFor r) := by
    refine ⟨fun o ho => ?_, fun o ho => hopens.2 o (hkept.symm.trans ho)⟩
    rcases mem_held.mp ho with ho | ho
    · exact hopens.1 o (mem_held.mpr (.inl (hkept.symm.trans ho)))
    · cases hgone.symm.trans ho
  unfold openAndStore openWindow at hio ⊢
  cases hscan : scanExisting (d₁.files (w.windowFor r)) with
  | error e =>
    simp only [hscan] at hio
    exact absurd rfl (hio _ _)
  | ok step =>
    obtain ⟨b, found⟩ := step
    have hrotate := turn_rotate b b.localLast
      (withoutTail ((d₁.files (w.windowFor r)).getD []) found) hsealed.inOrder
      (hkept.trans hopen) hopens'
    have hrotated := hsealed.trans hrotate (fun s hs => nomatch hs)
    rw [List.append_nil] at hrotated
    have hwindow : w₁.windowFor r = w.windowFor r :=
      congrArg (Settings.windowFor · r) hsealed.settings
    obtain ⟨sealed, hstored⟩ := stored_store (r := r) hrotated.inOrder rfl done
    simp only [hwindow] at hstored
    refine ⟨_, hstored.turned hrotated rfl (fun p hp => ?_) ?_ ?_ ?_ ?_⟩
    · obtain rfl := Option.some.inj hp
      exact ⟨day, hmem, rfl⟩
    · simp [Seals, Rotates, hopens, hopen, hsame, hsome]
    · simp [SealsTwo, Rotates, hopens, hopen, hsome]
    · rw [builderFor_of_opens hopens]
      exact gapNsTotal_of_scan hscan
    · rintro ⟨day', hday', heq⟩
      exact absurd heq (hopens.1 day' (mem_held.mpr (.inl hday')))

/-- **What an append does to the windows**, unless the file of a window it opens is damaged. -/
theorem turned_append (h : w.InOrder d)
    (hio : ∀ window e, (w.append d r).2.2 ≠ .error (.corrupt window e)) :
    ∃ sealed, w.Turned d r (w.append d r) sealed := by
  by_cases hlate : ∃ p, w.previous = some p ∧ p.window = w.windowFor r
  · obtain ⟨p, hp, hwindow⟩ := hlate
    exact ⟨[], turned_append_late h hp hwindow⟩
  have hprevious : ∀ p ∈ w.previous, p.window ≠ w.windowFor r :=
    fun p hp hwindow => hlate ⟨p, hp, hwindow⟩
  cases hopen : w.open_ with
  | none => exact turned_append_closed h hio hopen
  | some day =>
    by_cases hsame : day.window = w.windowFor r
    · exact turned_append_same h hopen hsame
    by_cases hearlier : (w.windowFor r).before day.window = true
    · exact ⟨[], turned_append_earlier h hprevious hopen hsame hearlier⟩
    · exact turned_append_later h hio hprevious hopen hsame hearlier

theorem not_seals_of_settled (h : w.InOrder d) (hsettled : w.Settled r) : ¬ w.Seals r := by
  rcases hsettled with ⟨p, hp, hwindow⟩ | ⟨⟨o, ho, hwindow⟩, hwaits⟩
  · rintro (⟨⟨-, hopens⟩, -⟩ | ⟨-, -, o, ho, hsame⟩)
    · exact hopens.1 p (mem_held.mpr (.inr hp)) hwindow
    · exact h.apart o ho p hp (hwindow.trans hsame.symm)
  · rintro (⟨⟨-, hopens⟩, -⟩ | ⟨hpast, hsome, -⟩)
    · exact hopens.1 o (mem_held.mpr (.inl ho)) hwindow
    · rcases hwaits with hnone | hnot
      · rw [hnone] at hsome
        cases hsome
      · exact hnot hpast

/-- Counting leaves the windows as they are. -/
theorem countAt_same {w' : CaptureWriter} {window : Window}
    {count : ManifestBuilder → Option ManifestBuilder} (h : w.countAt window count = some w') :
    w'.toSettings = w.toSettings ∧ w'.open_.map OpenDay.window = w.open_.map OpenDay.window ∧
      w'.previous.map OpenDay.window = w.previous.map OpenDay.window := by
  unfold countAt at h
  cases hprevious : w.previous.filter fun day => day.window = window with
  | some p =>
    obtain ⟨hp, -⟩ := Option.filter_eq_some_iff.mp hprevious
    rw [hprevious] at h
    obtain ⟨b, -, rfl⟩ := Option.map_eq_some_iff.mp h
    exact ⟨rfl, rfl, by rw [hp]; rfl⟩
  | none =>
    rw [hprevious] at h
    cases hopen : w.open_.filter fun day => day.window = window with
    | some o =>
      obtain ⟨ho, -⟩ := Option.filter_eq_some_iff.mp hopen
      simp only [hopen] at h
      obtain ⟨b, -, rfl⟩ := Option.map_eq_some_iff.mp h
      exact ⟨rfl, by rw [ho]; rfl, rfl⟩
    | none =>
      simp only [hopen] at h
      obtain rfl := Option.some.inj h
      exact ⟨rfl, rfl, rfl⟩

/-! ## Calls -/

/-- What a call does to the windows, and what it returns. -/
structure Called (w : CaptureWriter) (d : Disk) (o : Outcome (Option SealedDay))
    (sealed : List SealedDay) (loses : Prop) : Prop where
  turn : Turn w d o.1 o.2.1 sealed
  told : o.2.2 = .ok sealed.getLast? ∨ ∃ e, o.2.2 = .error e
  loses : (∃ s ∈ sealed, o.2.2 ≠ .ok (some s)) ↔ loses

theorem Turned.called {o : Outcome (Option SealedDay)} {sealed : List SealedDay}
    (h : w.Turned d r o sealed) : w.Called d o sealed (w.SealsTwo r) := by
  refine ⟨h.turn, h.told.imp_right fun ⟨_, e, _, he⟩ => ⟨e, he⟩, ?_⟩
  rw [← h.two]
  rcases h.told with hok | ⟨rfl, -⟩
  · simp only [hok, ne_eq, Except.ok.injEq, eq_comm]
  · simp

/-- The outages counted in the file a record of `window` is written to. -/
def gapTotal (w : CaptureWriter) (window : Window) : Int64 :=
  ((w.builderFor window).map ManifestBuilder.gapNsTotal).getD 0

theorem SealsTwo.seals (h : w.SealsTwo r) : w.Seals r := .inl ⟨h.1, .inl h.2.1⟩

/-- A record that is refused seals nothing. -/
theorem Turned.of_error {o : Outcome (Option SealedDay)} {sealed : List SealedDay} {e : Stop}
    (h : w.Turned d r o sealed) (herror : o.2.2 = .error e) : sealed = [] ∧ ¬ w.Seals r := by
  rcases h.told with hok | ⟨hnil, -⟩
  · cases herror.symm.trans hok
  · exact ⟨hnil, fun hseals => h.seals.mpr hseals hnil⟩

/-- A record that is taken tells the window that was sealed last. -/
theorem Turned.done_eq {o : Outcome (Option SealedDay)} {sealed : List SealedDay}
    {done : Option SealedDay} (h : w.Turned d r o sealed) (hok : o.2.2 = .ok done) :
    done = sealed.getLast? := by
  rcases h.told with htold | ⟨-, e, -, he⟩
  · exact Except.ok.inj (hok.symm.trans htold)
  · cases hok.symm.trans he

section Called

variable {o o' : Outcome (Option SealedDay)} {sealed : List SealedDay} {p : Prop}

/-- What fails after a record was taken returns nothing of what the record sealed. -/
theorem Turned.called_error {e : Stop} (h : w.Turned d r o sealed)
    (hturn : Turn w d o'.1 o'.2.1 sealed) (herror : o'.2.2 = .error e) (hp : w.Seals r → p) :
    w.Called d o' sealed (w.SealsTwo r ∨ w.Seals r ∧ p) := by
  have hsome : w.SealsTwo r ∨ w.Seals r ∧ p ↔ sealed ≠ [] := by
    rw [h.seals]
    exact ⟨fun hloses => hloses.elim SealsTwo.seals And.left, fun hseals =>
      .inr ⟨hseals, hp hseals⟩⟩
  refine ⟨hturn, .inr ⟨e, herror⟩, ?_⟩
  rw [hsome, herror]
  exact ⟨fun ⟨s, hs, _⟩ => List.ne_nil_of_mem hs, fun hne =>
    (List.exists_mem_of_ne_nil _ hne).imp fun s hs => ⟨hs, nofun⟩⟩

/-- What goes on after a record was taken returns what the record returned. -/
theorem Turned.called_ok {done : Option SealedDay} (h : w.Turned d r o sealed)
    (hok : o.2.2 = .ok done) (hturn : Turn w d o'.1 o'.2.1 sealed) (hok' : o'.2.2 = .ok done)
    (hp : ¬ (w.Seals r ∧ p)) : w.Called d o' sealed (w.SealsTwo r ∨ w.Seals r ∧ p) := by
  have hdone := h.done_eq hok
  refine ⟨hturn, .inl (hok'.trans (congrArg _ hdone)), ?_⟩
  simp only [hp, or_false, ← h.two, hok', hdone, ne_eq, Except.ok.injEq, eq_comm]

end Called

/-- A control record, and what it counts: an overflow ends the process, and what was sealed before
it is not returned. -/
theorem called_appendCounted {count : ManifestBuilder → Option ManifestBuilder}
    (fails : Int64 → Prop) (hfails : ∀ b, count b = none ↔ fails b.gapNsTotal) (h : w.InOrder d)
    (hio : ∀ window e, (w.appendCounted d r count).2.2 ≠ .error (.corrupt window e)) :
    ∃ sealed, w.Called d (w.appendCounted d r count) sealed
        (w.SealsTwo r ∨ w.Seals r ∧ fails (w.gapTotal (w.windowFor r))) ∧
      (w.Settled r → sealed = [] ∧
        (fails (w.gapTotal (w.windowFor r)) ∧ (w.appendCounted d r count).2.2 = .error .panic ∨
          ¬ fails (w.gapTotal (w.windowFor r)) ∧ (w.appendCounted d r count).2.2 = .ok none)) := by
  have hio' : ∀ window e, (w.append d r).2.2 ≠ .error (.corrupt window e) := by
    intro window e he
    refine hio window e ?_
    rw [appendCounted, show w.append d r = ((w.append d r).1, (w.append d r).2.1, _) from
      congrArg (Prod.mk _) (congrArg (Prod.mk _) he)]
  obtain ⟨sealed, ht⟩ := turned_append h hio'
  have hnone : w.Settled r → sealed = [] := fun hsettled => by
    by_contra hne
    exact not_seals_of_settled h hsettled (ht.seals.mp hne)
  refine ⟨sealed, ?_⟩
  unfold appendCounted
  generalize w.append d r = o at ht ⊢
  obtain ⟨w', d', res⟩ := o
  cases res with
  | error e =>
    -- nothing was sealed, and a settled writer refuses nothing
    obtain ⟨hnil, hnot⟩ := ht.of_error rfl
    refine ⟨⟨ht.turn, .inr ⟨e, rfl⟩, ?_⟩, fun hsettled => ⟨hnil, ?_⟩⟩
    · have hnot' : ¬ w.SealsTwo r := fun htwo => hnot htwo.seals
      subst hnil
      simp [hnot, hnot']
    · rcases ht.refused with hok | hother
      · cases hok
      · rcases hsettled with ⟨p, hp, hwindow⟩ | ⟨⟨o, ho, hwindow⟩, -⟩
        · exact absurd hwindow (hother p (mem_held.mpr (.inr hp)))
        · exact absurd hwindow (hother o (mem_held.mpr (.inl ho)))
  | ok done =>
    obtain ⟨b, hb, htotal⟩ := Option.map_eq_some_iff.mp (ht.total rfl)
    have hcount : w'.countAt (w.windowFor r) count = none ↔ fails (w.gapTotal (w.windowFor r)) := by
      rw [countAt_eq_none, gapTotal, ← htotal, ← hfails]
      constructor
      · rintro ⟨b', hb', hnone⟩
        obtain rfl := Option.some.inj (hb.symm.trans hb')
        exact hnone
      · exact fun hnone => ⟨b, hb, hnone⟩
    simp only
    cases hcounted : w'.countAt (w.windowFor r) count with
    | none =>
      have hfail := hcount.mp hcounted
      exact ⟨ht.called_error ht.turn rfl fun _ => hfail,
        fun hsettled => ⟨hnone hsettled, .inl ⟨hfail, rfl⟩⟩⟩
    | some w'' =>
      have hfine : ¬ fails (w.gapTotal (w.windowFor r)) := fun hfail =>
        nomatch hcounted.symm.trans (hcount.mpr hfail)
      obtain ⟨hsettings, hopen, hprevious⟩ := countAt_same hcounted
      have hturn := ht.turn.trans (Turn.of_same ht.turn.inOrder hsettings hopen hprevious rfl)
        (fun s hs => nomatch hs)
      rw [List.append_nil] at hturn
      refine ⟨ht.called_ok rfl hturn rfl fun hseals => hfine hseals.2, fun hsettled =>
        ⟨hnone hsettled, .inr ⟨hfine, ?_⟩⟩⟩
      rw [ht.done_eq rfl, hnone hsettled]
      rfl

theorem observeGap_eq_none {b : ManifestBuilder} {outageNs : Int64} :
    b.observeGap outageNs = none ↔ ¬ FitsI64 (b.gapNsTotal.toInt + outageNs.toInt) := by
  unfold ManifestBuilder.observeGap
  simp

theorem dayTs_control (localTs : Int64) (payload : List UInt8) :
    (Record.control localTs payload).dayTs = localTs := if_pos rfl

theorem windowFor_of_dayTs (c : Settings) {r' : Record} (hts : r'.dayTs = r.dayTs) :
    c.windowFor r' = c.windowFor r := by
  unfold Settings.windowFor
  rw [hts]

/-- Being settled is about the stamp of a record. -/
theorem Settled.of_dayTs {r' : Record} (h : w.Settled r) (hts : r'.dayTs = r.dayTs) :
    w.Settled r' := by
  unfold Settled PastGrace at h ⊢
  rwa [hts, windowFor_of_dayTs _ hts]

theorem Settled.takeResumed (h : w.Settled r) : w.takeResumed.Settled r := by
  rcases h with hprevious | ⟨⟨o, ho, hwindow⟩, hwaits⟩
  · exact .inl hprevious
  · refine .inr ⟨⟨{ o with resumedAfter := none }, ?_, hwindow⟩, hwaits⟩
    rw [CaptureWriter.takeResumed, Option.mem_def.mp ho]
    rfl

theorem builderFor_takeResumed (w : CaptureWriter) (window : Window) :
    w.takeResumed.builderFor window = w.builderFor window := by
  unfold builderFor CaptureWriter.takeResumed
  cases w.open_ with
  | none => rfl
  | some o =>
    cases w.previous.filter fun day => day.window = window with
    | some p => rfl
    | none => by_cases hwindow : o.window = window <;> simp [hwindow, Option.filter_some]

/-- The gap a session start would record in the open window, and could not count. -/
def RestartOverflows (w : CaptureWriter) (localTs : Int64) : Prop :=
  ∃ o ∈ w.open_, o.window = w.windowFor (w.sessionRecord localTs) ∧
    ∃ last, o.resumedAfter = some last ∧ 0 < satSub localTs last ∧
      ¬ FitsI64 ((w.gapTotal o.window).toInt + (satSub localTs last).toInt)

theorem Turn.takeResumed {w' : CaptureWriter} {d' : Disk} {sealed : List SealedDay}
    (h : Turn w d w' d' sealed) : Turn w d w'.takeResumed d' sealed := by
  have hsame : Turn w' d' w'.takeResumed d' [] := Turn.of_same h.inOrder rfl
    (by simp [CaptureWriter.takeResumed, Option.map_map, Function.comp_def]) rfl rfl
  have hturn := h.trans hsame (fun s hs => nomatch hs)
  rwa [List.append_nil] at hturn

/-- The outage that is recorded right after a session was started is counted in the window the
session was started in, and seals nothing. -/
theorem Turned.countRestart {w' : CaptureWriter} {d' : Disk} {sealed : List SealedDay}
    {localTs outageNs : Int64} {done : Option SealedDay}
    (ht : w.Turned d (w.sessionRecord localTs) (w', d', .ok done) sealed)
    (hio : ∀ window e, (w'.takeResumed.appendCounted d' (gapRecord localTs restarted none outageNs)
      (·.observeGap outageNs)).2.2 ≠ .error (.corrupt window e)) :
    let o := w'.takeResumed.appendCounted d' (gapRecord localTs restarted none outageNs)
      (·.observeGap outageNs)
    let fails := ¬ FitsI64
      ((w.gapTotal (w.windowFor (w.sessionRecord localTs))).toInt + outageNs.toInt)
    Turn w d o.1 o.2.1 sealed ∧
      (fails ∧ o.2.2 = .error .panic ∨ ¬ fails ∧ o.2.2 = .ok none) := by
  have htaken := ht.turn.takeResumed
  have hts : (gapRecord localTs restarted none outageNs).dayTs =
      (w.sessionRecord localTs).dayTs :=
    (dayTs_control _ _).trans (dayTs_control _ _).symm
  have hwindow : w'.takeResumed.windowFor (gapRecord localTs restarted none outageNs) =
      w.windowFor (w.sessionRecord localTs) := by
    rw [htaken.settings]
    exact windowFor_control ..
  have htotal : w'.takeResumed.gapTotal (w.windowFor (w.sessionRecord localTs)) =
      w.gapTotal (w.windowFor (w.sessionRecord localTs)) := by
    rw [gapTotal, builderFor_takeResumed, ht.total rfl]
    rfl
  obtain ⟨sealed', hcalled, hquiet⟩ := called_appendCounted
    (fun total => ¬ FitsI64 (total.toInt + outageNs.toInt)) (fun _ => observeGap_eq_none)
    htaken.inOrder hio
  -- The session's record left the writer settled, and the outage has the same stamp.
  obtain ⟨rfl, hanswer⟩ := hquiet ((ht.settled rfl).of_dayTs hts).takeResumed
  rw [hwindow, htotal] at hanswer
  have hturn := htaken.trans hcalled.turn (fun s hs => nomatch hs)
  rw [List.append_nil] at hturn
  exact ⟨hturn, hanswer⟩

/-- **The start of a session** seals what its record seals. -/
theorem called_appendSessionStart {localTs : Int64} (h : w.InOrder d)
    (hio : ∀ window e, (w.appendSessionStart d localTs).2.2 ≠ .error (.corrupt window e)) :
    ∃ sealed, w.Called d (w.appendSessionStart d localTs) sealed
      (w.SealsTwo (w.sessionRecord localTs) ∨
        w.Seals (w.sessionRecord localTs) ∧ w.RestartOverflows localTs) := by
  have hio' : ∀ window e,
      (w.append d (w.sessionRecord localTs)).2.2 ≠ .error (.corrupt window e) := by
    intro window e he
    refine hio window e ?_
    rw [appendSessionStart, show w.append d (w.sessionRecord localTs) =
      ((w.append d (w.sessionRecord localTs)).1, (w.append d (w.sessionRecord localTs)).2.1, _) from
      congrArg (Prod.mk _) (congrArg (Prod.mk _) he)]
  obtain ⟨sealed, ht⟩ := turned_append h hio'
  refine ⟨sealed, ?_⟩
  unfold appendSessionStart at hio ⊢
  generalize w.append d (w.sessionRecord localTs) = o at ht hio ⊢
  obtain ⟨w', d', res⟩ := o
  cases res with
  | error e =>
    obtain ⟨hnil, hnot⟩ := ht.of_error rfl
    refine ⟨ht.turn, .inr ⟨e, rfl⟩, ?_⟩
    have hnot' : ¬ w.SealsTwo (w.sessionRecord localTs) := fun htwo => hnot htwo.seals
    subst hnil
    simp [hnot, hnot']
  | ok done =>
    -- the last record of the window the session was started in, while it is the open one
    have hresumed : ∀ o ∈ w.open_, o.window = w.windowFor (w.sessionRecord localTs) →
        w'.open_.bind OpenDay.resumedAfter = o.resumedAfter := by
      intro o ho hwindow
      have hsame := ht.resumed rfl ⟨o, ho, hwindow⟩
      rw [Option.mem_def.mp ho] at hsame
      exact hsame
    simp only at hio ⊢
    cases hlast : w'.open_.bind OpenDay.resumedAfter with
    | none =>
      refine ht.called_ok rfl ht.turn rfl ?_
      rintro ⟨-, o, ho, hwindow, last, hafter, -⟩
      rw [hresumed o ho hwindow, hafter] at hlast
      cases hlast
    | some last =>
      simp only [hlast] at hio ⊢
      by_cases houtage : 0 < satSub localTs last
      · rw [if_pos houtage] at hio ⊢
        have hio'' : ∀ window e, (w'.takeResumed.appendCounted d'
            (gapRecord localTs restarted none (satSub localTs last))
            (·.observeGap (satSub localTs last))).2.2 ≠ .error (.corrupt window e) := by
          intro window e he
          refine hio window e ?_
          rw [appendGap]
          generalize appendCounted _ _ _ _ = o at he ⊢
          obtain ⟨w'', d'', res⟩ := o
          obtain rfl := he
          rfl
        obtain ⟨hturn, hanswer⟩ := ht.countRestart hio''
        rw [appendGap] at hio ⊢
        generalize appendCounted _ _ _ _ = o at hturn hanswer hio ⊢
        obtain ⟨w'', d'', res⟩ := o
        rcases hanswer with ⟨hfail, rfl⟩ | ⟨hfine, rfl⟩
        · have hoverflows : w.Seals (w.sessionRecord localTs) → w.RestartOverflows localTs := by
            rintro (⟨⟨-, hopens⟩, -⟩ | ⟨-, -, o, ho, hwindow'⟩)
            · -- a window that was just opened has no outages yet
              rw [gapTotal, builderFor_of_opens hopens] at hfail
              exact absurd (by simpa using fitsI64_toInt (satSub localTs last)) hfail
            · refine ⟨o, ho, hwindow', last, ?_, houtage, hwindow' ▸ hfail⟩
              rw [← hresumed o ho hwindow', hlast]
          exact ht.called_error hturn rfl hoverflows
        · refine ht.called_ok rfl hturn rfl ?_
          rintro ⟨-, o, ho, hwindow', last', hafter, -, hfail⟩
          rw [hresumed o ho hwindow', hafter] at hlast
          obtain rfl := Option.some.inj hlast
          exact hfine (hwindow' ▸ hfail)
      · rw [if_neg houtage]
        refine ht.called_ok rfl ht.turn.takeResumed rfl ?_
        rintro ⟨-, o, ho, hwindow, last', hafter, hpos, -⟩
        rw [hresumed o ho hwindow, hafter] at hlast
        obtain rfl := Option.some.inj hlast
        exact houtage hpos

end CaptureWriter

/-! ## Sequences of calls -/

/-- What is recorded while a stream is captured. -/
inductive Entry where
  | append (r : Record)
  | gap (localTs : Int64) (reason : Text) (lastSeq : Option UInt64) (outageNs : Int64)
  | clockOffset (localTs offsetNs dispersionNs : Int64)
  | sessionStart (localTs : Int64)

namespace Entry

/-- The call of the writer, with what it returns. -/
def run (w : CaptureWriter) (d : Disk) : Entry → Outcome (Option SealedDay)
  | append r => w.append d r
  | gap localTs reason lastSeq outageNs => w.appendGap d localTs reason lastSeq outageNs
  | clockOffset localTs offsetNs dispersionNs => w.appendClockOffset d localTs offsetNs dispersionNs
  | sessionStart localTs => w.appendSessionStart d localTs

/-- The record it writes, which is the first of two where a session start records a gap. -/
def record (w : CaptureWriter) : Entry → Record
  | append r => r
  | gap localTs reason lastSeq outageNs => CaptureWriter.gapRecord localTs reason lastSeq outageNs
  | clockOffset localTs offsetNs dispersionNs =>
    .control localTs (Text.utf8 (Control.clockOffset offsetNs dispersionNs))
  | sessionStart localTs => w.sessionRecord localTs

/-- What it counts is more than is counted. -/
def Overflows (w : CaptureWriter) : Entry → Prop
  | append _ => False
  | gap localTs reason lastSeq outageNs =>
    ¬ FitsI64 ((w.gapTotal (w.windowFor
      (CaptureWriter.gapRecord localTs reason lastSeq outageNs))).toInt + outageNs.toInt)
  | clockOffset _ offsetNs _ => offsetNs = Int64.minValue
  | sessionStart localTs => w.RestartOverflows localTs

/-- It seals a window that it does not return: two windows, or one before an overflow ends the
process. -/
def Loses (e : Entry) (w : CaptureWriter) : Prop :=
  w.SealsTwo (e.record w) ∨ w.Seals (e.record w) ∧ e.Overflows w

variable {w : CaptureWriter} {d : Disk}

/-- **What a call seals.** -/
theorem called (e : Entry) (h : w.InOrder d)
    (hio : ∀ window cause, (e.run w d).2.2 ≠ .error (.corrupt window cause)) :
    ∃ sealed, w.Called d (e.run w d) sealed (e.Loses w) := by
  cases e with
  | append r =>
    obtain ⟨sealed, ht⟩ := CaptureWriter.turned_append h hio
    have hloses : (append r).Loses w ↔ w.SealsTwo r := by
      simp [Loses, Overflows, record]
    exact ⟨sealed, ht.called.turn, ht.called.told, ht.called.loses.trans hloses.symm⟩
  | gap localTs reason lastSeq outageNs =>
    obtain ⟨sealed, hcalled, -⟩ := CaptureWriter.called_appendCounted
      (fun total => ¬ FitsI64 (total.toInt + outageNs.toInt))
      (fun _ => CaptureWriter.observeGap_eq_none) h hio
    exact ⟨sealed, hcalled⟩
  | clockOffset localTs offsetNs dispersionNs =>
    obtain ⟨sealed, hcalled, -⟩ := CaptureWriter.called_appendCounted
      (fun _ => offsetNs = Int64.minValue)
      (fun b => by simp [ManifestBuilder.observeClockOffset]) h hio
    exact ⟨sealed, hcalled⟩
  | sessionStart localTs => exact CaptureWriter.called_appendSessionStart h hio

end Entry

/-- A call that was made, and what it was made of. -/
structure Made where
  writer : CaptureWriter
  disk : Disk
  entry : Entry

namespace Made

variable (m : Made)

def outcome : Outcome (Option SealedDay) := m.entry.run m.writer m.disk

/-- It writes the manifest of a window.  Beside an open file there is none, so one that is written
is one that was not there. -/
def Writes (window : Window) : Prop :=
  m.outcome.2.1.manifests window ≠ m.disk.manifests window ∧ (m.outcome.2.1.manifests window).isSome

/-- It returns a window that was sealed, with the manifest that is there. -/
def Returns (window : Window) : Prop :=
  ∃ s, m.outcome.2.2 = .ok (some s) ∧ s.window = window ∧
    m.outcome.2.1.manifests window = some s.manifest

end Made

/-- The calls of a sequence that are made: an overflow ends the process. -/
def CaptureWriter.made (w : CaptureWriter) (d : Disk) : List Entry → List Made
  | [] => []
  | e :: es => ⟨w, d, e⟩ ::
    match e.run w d with
    | (_, _, .error .panic) => []
    | (w', d', _) => w'.made d' es

/-- Every window whose manifest is written is returned by exactly one of the calls. -/
def Announced (ms : List Made) : Prop :=
  ∀ window, (∃ m ∈ ms, m.Writes window) → ∃! i : Nat, ∃ m, ms[i]? = some m ∧ m.Returns window

namespace Made

variable {m : Made} {sealed : List SealedDay}

theorem writes_iff (h : m.writer.InOrder m.disk)
    (hcalled : m.writer.Called m.disk m.outcome sealed (m.entry.Loses m.writer)) (window : Window) :
    m.Writes window ↔ ∃ s ∈ sealed, s.window = window := by
  constructor
  · rintro ⟨hne, hsome⟩
    by_contra hnot
    rcases hcalled.turn.kept window fun s hs heq => hnot ⟨s, hs, heq⟩ with hsame | hnone
    · exact hne hsame
    · rw [hnone] at hsome
      cases hsome
  · rintro ⟨s, hs, rfl⟩
    obtain ⟨day, hday, hwindow⟩ := hcalled.turn.held s hs
    have hbare := h.bare day hday
    rw [hwindow] at hbare
    have hnow := (hcalled.turn.now s hs).2
    refine ⟨?_, by rw [hnow]; rfl⟩
    rw [hnow, hbare]
    exact Option.some_ne_none _

theorem mem_of_returned (hcalled : m.writer.Called m.disk m.outcome sealed (m.entry.Loses m.writer))
    {s : SealedDay} (h : m.outcome.2.2 = .ok (some s)) : s ∈ sealed := by
  rcases hcalled.told with hok | ⟨e, he⟩
  · exact List.mem_of_getLast? (Except.ok.inj (hok.symm.trans h))
  · cases he.symm.trans h

/-- What is returned was sealed, and a call that loses a window is one that does not return what it
sealed. -/
theorem told (h : m.writer.InOrder m.disk)
    (hio : ∀ window cause, m.outcome.2.2 ≠ .error (.corrupt window cause)) :
    (∀ window, m.Returns window → m.Writes window) ∧
      ((∀ window, m.Writes window → m.Returns window) ↔ ¬ m.entry.Loses m.writer) := by
  obtain ⟨sealed, hcalled⟩ := Entry.called m.entry h hio
  refine ⟨?_, ?_⟩
  · rintro window ⟨s, hs, rfl, -⟩
    exact (writes_iff h hcalled _).mpr ⟨s, mem_of_returned hcalled hs, rfl⟩
  · rw [← hcalled.loses]
    constructor
    · rintro hall ⟨s, hs, hnot⟩
      obtain ⟨s', hs', hwindow, hmanifest⟩ := hall _ ((writes_iff h hcalled _).mpr ⟨s, hs, rfl⟩)
      have hsame := hmanifest.symm.trans (hcalled.turn.now s hs).2
      obtain ⟨window, manifest⟩ := s
      obtain ⟨window', manifest'⟩ := s'
      simp only [Option.some.injEq] at hwindow hsame
      subst hwindow hsame
      exact hnot hs'
    · intro hnone window hwrites
      obtain ⟨s, hs, rfl⟩ := (writes_iff h hcalled _).mp hwrites
      by_contra hreturns
      refine hnone ⟨s, hs, fun hs' => hreturns ⟨s, hs', rfl, (hcalled.turn.now s hs).2⟩⟩

end Made

namespace CaptureWriter

variable {w : CaptureWriter} {d : Disk}

/-- A call that is made, and the calls after it, if the process goes on. -/
theorem made_cons (e : Entry) (es : List Entry) : ∃ rest, w.made d (e :: es) = ⟨w, d, e⟩ :: rest ∧
    (rest = [] ∨ rest = (e.run w d).1.made (e.run w d).2.1 es) := by
  refine ⟨_, rfl, ?_⟩
  split
  · exact .inl rfl
  · rename_i heq
    rw [heq]
    exact .inr rfl

/-- **Every call of a sequence** starts in order, and writes no manifest of a window behind. -/
theorem past_made {es : List Entry} (h : w.InOrder d)
    (hio : ∀ m ∈ w.made d es, ∀ window cause, m.outcome.2.2 ≠ .error (.corrupt window cause)) :
    ∀ m ∈ w.made d es, m.writer.InOrder m.disk ∧ ∀ window, w.Past window → ¬ m.Writes window := by
  induction es generalizing w d with
  | nil => exact fun m hm => nomatch hm
  | cons e es ih =>
    obtain ⟨rest, hmade, hrest⟩ := made_cons (w := w) (d := d) e es
    rw [hmade, List.forall_mem_cons] at hio
    rw [hmade, List.forall_mem_cons]
    obtain ⟨sealed, hcalled⟩ := Entry.called e h hio.1
    refine ⟨⟨h, fun window hpast hwrites => ?_⟩, fun m hm => ?_⟩
    · exact hwrites.1 (hcalled.turn.past window hpast).2
    · rcases hrest with rfl | rfl
      · cases hm
      · obtain ⟨hinOrder, hquiet⟩ := ih hcalled.turn.inOrder hio.2 m hm
        exact ⟨hinOrder, fun window hpast => hquiet window (hcalled.turn.past window hpast).1⟩

/-- No two calls write the manifest of one window: what the first of them sealed lies behind. -/
theorem apart_made {es : List Entry} (h : w.InOrder d)
    (hio : ∀ m ∈ w.made d es, ∀ window cause, m.outcome.2.2 ≠ .error (.corrupt window cause)) :
    (w.made d es).Pairwise fun m m' => ∀ window, m.Writes window → ¬ m'.Writes window := by
  induction es generalizing w d with
  | nil => exact List.Pairwise.nil
  | cons e es ih =>
    obtain ⟨rest, hmade, hrest⟩ := made_cons (w := w) (d := d) e es
    rw [hmade, List.forall_mem_cons] at hio
    rw [hmade]
    obtain ⟨sealed, hcalled⟩ := Entry.called e h hio.1
    rcases hrest with rfl | rfl
    · exact List.pairwise_singleton _ _
    · refine List.pairwise_cons.mpr ⟨fun m hm window hwrites => ?_, ih hcalled.turn.inOrder hio.2⟩
      obtain ⟨s, hs, rfl⟩ := (Made.writes_iff (m := ⟨w, d, e⟩) h hcalled window).mp hwrites
      exact (past_made hcalled.turn.inOrder hio.2 m hm).2 _ (hcalled.turn.now s hs).1

/-- Of calls that start in order: everything sealed is announced iff no call loses a window. -/
theorem announced_iff_of_inOrder {es : List Entry} (h : w.InOrder d)
    (hio : ∀ m ∈ w.made d es, ∀ window cause, m.outcome.2.2 ≠ .error (.corrupt window cause)) :
    Announced (w.made d es) ↔ ∀ m ∈ w.made d es, ¬ m.entry.Loses m.writer := by
  have htold := fun m hm => Made.told (past_made h hio m hm).1 (hio m hm)
  rw [Announced, told_once_iff (fun m hm => (htold m hm).1) (apart_made h hio)]
  exact forall₂_congr fun m hm => (htold m hm).2

theorem inOrder_new (c : Settings) (d : Disk) : (new c).InOrder d :=
  ⟨fun _ hday => (nomatch hday), fun _ hp => nomatch hp⟩

/-- **Every sealed window is announced** by exactly one of the calls of a sequence, if and only if
none of them rotates while another window waits with a record that is past the grace period, and
none counts more than can be counted after it sealed a window. -/
theorem announced_iff (c : Settings) (d : Disk) (es : List Entry)
    (hio : ∀ m ∈ (new c).made d es, ∀ window cause,
      m.outcome.2.2 ≠ .error (.corrupt window cause)) :
    Announced ((new c).made d es) ↔ ∀ m ∈ (new c).made d es, ¬ m.entry.Loses m.writer :=
  announced_iff_of_inOrder (inOrder_new c d) hio

/-- A message of the third day, a minute and a second into it. -/
def afterGrace : Record := { message with exchTs := 172861000000000 }

/-- A message on each of three days, the last past the grace period of its day. -/
def threeDays : List Entry := [.append message, .append nextDay, .append afterGrace]

/-- What is held before each call, and what the call returns. -/
theorem made_threeDays : ((new daily).made emptyDisk threeDays).map (fun m =>
      (m.writer.open_.map OpenDay.window, m.writer.previous.map OpenDay.window,
        m.outcome.2.2.map fun done => done.map SealedDay.window)) =
    [(none, none, .ok none), (some ⟨0, none⟩, none, .ok none),
      (some ⟨1, none⟩, some ⟨0, none⟩, .ok (some ⟨1, none⟩))] := by
  rfl

theorem sound_threeDays : ∀ m ∈ (new daily).made emptyDisk threeDays, ∀ window cause,
    m.outcome.2.2 ≠ .error (.corrupt window cause) := by
  intro m hm window cause he
  have hmem := List.mem_map_of_mem (f := fun m : Made =>
    (m.writer.open_.map OpenDay.window, m.writer.previous.map OpenDay.window,
      m.outcome.2.2.map fun done => done.map SealedDay.window)) hm
  rw [made_threeDays] at hmem
  simp [he, Except.map] at hmem

/-- **A window that nobody hears of**: the third day's first message comes past the grace period
while the first day still waits.  Both days are sealed, and the second is returned. -/
theorem announced_fails :
    (∀ m ∈ (new daily).made emptyDisk threeDays, ∀ window cause,
      m.outcome.2.2 ≠ .error (.corrupt window cause)) ∧
    ¬ Announced ((new daily).made emptyDisk threeDays) := by
  refine ⟨sound_threeDays, ?_⟩
  have hlast : ((new daily).made emptyDisk threeDays)[2] ∈ (new daily).made emptyDisk threeDays :=
    List.getElem_mem _
  rw [announced_iff_of_inOrder (inOrder_new daily emptyDisk) sound_threeDays]
  refine fun hnone => hnone _ hlast (.inl ⟨⟨rfl, ?_, ?_⟩, rfl, ?_⟩)
  · decide
  · decide
  · decide

theorem announced_iff_threeDays :
    Announced ((new daily).made emptyDisk threeDays) ↔
      ∀ m ∈ (new daily).made emptyDisk threeDays, ¬ m.entry.Loses m.writer :=
  announced_iff daily emptyDisk threeDays sound_threeDays

end CaptureWriter

end Capture
