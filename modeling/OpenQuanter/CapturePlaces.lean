/-
# Where records are placed (`oq-l2feed/src/writer.rs`)

What an append can do is said once (`Appends`, `appends_append`): write to a file that is open,
refuse a record that is too late, open a window, or fail to.  From it, by induction over the
records, every accepted record is in the file of its window, once and in order
(`placing_run`).  A window is opened twice only after a rotation failed; the records in it must
then be short enough for the length of a frame to be read back.
-/
import OpenQuanter.CaptureTools

namespace Capture

/-! ## The order of windows -/

namespace Window

theorem before_trans {u v w : Window} (huv : u.before v = true) (hvw : v.before w = true) :
    u.before w = true := by
  obtain ⟨ud, uh⟩ := u
  obtain ⟨vd, vh⟩ := v
  obtain ⟨wd, wh⟩ := w
  cases uh <;> cases vh <;> cases wh <;> simp [before] at huv hvw ⊢ <;> omega

theorem before_of_not_before {v w : Window} (h : v.before w = false) (hne : w ≠ v) :
    w.before v = true := by
  obtain ⟨vd, vh⟩ := v
  obtain ⟨wd, wh⟩ := w
  cases vh <;> cases wh <;> simp [before] at h hne ⊢ <;> omega

end Window

namespace CaptureWriter

/-! ## One append -/

section

variable (w : CaptureWriter) (d : Disk)

/-- The window that was open waits for late records, and nothing is open. -/
def rotated : CaptureWriter × Disk :=
  match w.open_ with
  | none => (w, d)
  | some day =>
    ({ (w.sealPrevious d).1 with previous := some day, open_ := none }, (w.sealPrevious d).2.1)

/-- What an append can do. -/
inductive Appends (r : Record) : Outcome (Option SealedDay) → Prop where
  /-- The window of the record is open, or waits for late records. -/
  | held {w' : CaptureWriter} {d' : Disk} {done : Option SealedDay}
      (hheld : ∃ day ∈ w.held, day.window = w.windowFor r)
      (hsettings : w'.toSettings = w.toSettings)
      (hfiles : d'.files = (d.write (w.windowFor r) r.encode).files)
      (hopen : w'.open_.map OpenDay.window = w.open_.map OpenDay.window)
      (hdays : ∀ day' ∈ w'.held, ∃ day ∈ w.held, day.window = day'.window) :
      Appends r (w', d', .ok done)
  /-- It is older than the windows that are held. -/
  | late {day : OpenDay} (hopen : w.open_ = some day)
      (hbefore : (w.windowFor r).before day.window = true) :
      Appends r (w, d, .error (.late (w.windowFor r) day.window))
  /-- It is opened. -/
  | opened {w' : CaptureWriter} {d' : Disk} {done : Option SealedDay} {b : ManifestBuilder}
      {found : Option (Nat × Nat)} (hopens : w.Opens (w.windowFor r))
      (hscan : scanExisting (d.files (w.windowFor r)) = .ok (b, found))
      (hsettings : w'.toSettings = w.toSettings)
      (hfiles : d'.files = Function.update d.files (w.windowFor r)
        (some (withoutTail ((d.files (w.windowFor r)).getD []) found ++ r.encode)))
      (hopen : w'.open_.map OpenDay.window = some (w.windowFor r))
      (hdays : ∀ day' ∈ w'.held, day'.window = w.windowFor r ∨
        ∃ day ∈ w.held, day.window = day'.window) :
      Appends r (w', d', .ok done)
  /-- It is not, since its file cannot be read. -/
  | unread {e : DecodeError} (hopens : w.Opens (w.windowFor r))
      (hscan : scanExisting (d.files (w.windowFor r)) = .error e) :
      Appends r ((w.rotated d).1, (w.rotated d).2, .error (.corrupt (w.windowFor r) e))

end

variable {w : CaptureWriter} {d : Disk} {r : Record}

theorem previous_sealPrevious (w : CaptureWriter) (d : Disk) :
    (w.sealPrevious d).1.previous = none := by
  unfold sealPrevious
  split
  · assumption
  · rfl

/-- A record goes to the file of the window that is open. -/
theorem store_of_open {day : OpenDay} (hopen : w.open_ = some day) (window : Window)
    (done : Option SealedDay) : ∃ w' d' done', w.store d window r done = (w', d', .ok done') ∧
      w'.toSettings = w.toSettings ∧ d'.files = (d.write day.window r.encode).files ∧
      w'.open_ = some { day with builder := day.builder.observe r } ∧
      ∀ p ∈ w'.previous, p ∈ w.previous := by
  unfold store
  rw [hopen]
  dsimp only
  split
  · obtain ⟨hsettings, hsame⟩ := sealPrevious_same
      { w with open_ := some { day with builder := day.builder.observe r } }
      (d.write day.window r.encode)
    refine ⟨_, _, _, rfl, hsettings, files_sealPrevious .., hsame, fun p hp => ?_⟩
    rw [previous_sealPrevious] at hp
    cases hp
  · exact ⟨_, _, _, rfl, rfl, rfl, rfl, fun p hp => hp⟩

/-- Opening a window with nothing open. -/
theorem openAndStore_cases (window : Window) (done : Option SealedDay) :
    (∃ e, scanExisting (d.files window) = .error e ∧
      w.openAndStore d window r done = (w, d, .error (.corrupt window e))) ∨
    ∃ b found w' d' done', scanExisting (d.files window) = .ok (b, found) ∧
      w.openAndStore d window r done = (w', d', .ok done') ∧ w'.toSettings = w.toSettings ∧
      d'.files = Function.update d.files window
        (some (withoutTail ((d.files window).getD []) found ++ r.encode)) ∧
      w'.open_.map OpenDay.window = some window ∧ ∀ p ∈ w'.previous, p ∈ w.previous := by
  unfold openAndStore openWindow
  cases hscan : scanExisting (d.files window) with
  | error e => exact .inl ⟨e, rfl, rfl⟩
  | ok found =>
    obtain ⟨b, found⟩ := found
    obtain ⟨w', d', done', heq, hsettings, hfiles, hopen, hprevious⟩ := store_of_open
      (w := { w with open_ := some ⟨window, b, b.localLast⟩ }) (r := r) rfl window done
      (d := (d.setFile window (withoutTail ((d.files window).getD []) found)).setManifest
        window none)
    refine .inr ⟨b, found, w', d', done', rfl, heq, hsettings, ?_, ?_, hprevious⟩
    · rw [hfiles]
      simp [Disk.write, Disk.setFile, Disk.setManifest]
    · rw [hopen]
      rfl

/-- **What an append does.** -/
theorem appends_append (w : CaptureWriter) (d : Disk) (r : Record) :
    w.Appends d r (w.append d r) := by
  unfold append
  dsimp only
  cases hlate : w.previous.filter fun day => day.window = w.windowFor r with
  | some day =>
    obtain ⟨hprevious, hday⟩ := Option.filter_eq_some_iff.mp hlate
    have hmem : day ∈ w.held := mem_held.mpr (.inr hprevious)
    refine .held ⟨day, hmem, of_decide_eq_true hday⟩ rfl rfl rfl fun day' hday' => ?_
    rcases mem_held.mp hday' with hday' | hday'
    · exact ⟨day', mem_held.mpr (.inl hday'), rfl⟩
    · obtain rfl := Option.some.inj hday'
      exact ⟨day, hmem, rfl⟩
  | none =>
    have hprevious : ∀ day ∈ w.previous, day.window ≠ w.windowFor r := by
      intro day hday heq
      rw [hday, Option.filter_some, if_pos (decide_eq_true heq)] at hlate
      cases hlate
    cases hopen : w.open_ with
    | none =>
      have hopens : w.Opens (w.windowFor r) := by
        refine ⟨fun day hday => ?_, fun day hday => nomatch hopen.symm.trans hday⟩
        rcases mem_held.mp hday with hday | hday
        · cases hopen.symm.trans hday
        · exact hprevious day hday
      rcases openAndStore_cases (w := w) (d := d) (r := r) (w.windowFor r) none with
        ⟨e, hscan, heq⟩ | ⟨b, found, w', d', done, hscan, heq, hsettings, hfiles, hnow, hdays⟩
      · have hrotated : w.rotated d = (w, d) := by
          rw [rotated, hopen]
        have hunread := Appends.unread hopens hscan
        rw [hrotated] at hunread
        simp only [heq]
        exact hunread
      · simp only [heq]
        refine .opened hopens hscan hsettings hfiles hnow fun day' hday' => ?_
        rcases mem_held.mp hday' with hday' | hday'
        · rw [hday'] at hnow
          exact .inl (Option.some.inj hnow)
        · exact .inr ⟨day', mem_held.mpr (.inr (hdays day' hday')), rfl⟩
    | some day =>
      have hmem : day ∈ w.held := mem_held.mpr (.inl hopen)
      by_cases hsame : day.window = w.windowFor r
      · obtain ⟨w', d', done, heq, hsettings, hfiles, hnow, hdays⟩ :=
          store_of_open (d := d) (r := r) hopen (w.windowFor r) none
        simp only [if_pos hsame, heq]
        refine .held ⟨day, hmem, hsame⟩ hsettings (hsame ▸ hfiles) ?_ fun day' hday' => ?_
        · rw [hnow, hopen]
          rfl
        · rcases mem_held.mp hday' with hday' | hday'
          · obtain rfl := Option.some.inj (hnow.symm.trans hday')
            exact ⟨day, hmem, rfl⟩
          · exact ⟨day', mem_held.mpr (.inr (hdays day' hday')), rfl⟩
      by_cases hearlier : (w.windowFor r).before day.window = true
      · simp only [if_neg hsame, if_pos hearlier]
        exact .late hopen hearlier
      -- the previous window is sealed, and the open one waits for late records
      have hopens : w.Opens (w.windowFor r) := by
        refine ⟨fun o ho => ?_, fun o ho => ?_⟩
        · rcases mem_held.mp ho with ho | ho
          · obtain rfl := Option.some.inj (hopen.symm.trans ho)
            exact hsame
          · exact hprevious o ho
        · obtain rfl := Option.some.inj (hopen.symm.trans ho)
          exact Bool.eq_false_iff.mpr hearlier
      have hrotated : w.rotated d =
          ({ (w.sealPrevious d).1 with previous := some day, open_ := none },
          (w.sealPrevious d).2.1) := by
        rw [rotated, hopen]
      have hfiles' := files_sealPrevious w d
      have hsettings' := (sealPrevious_same w d).1
      simp only [if_neg hsame, if_neg hearlier]
      rcases openAndStore_cases (w := (w.rotated d).1) (d := (w.rotated d).2) (r := r)
        (w.windowFor r)
          (w.sealPrevious d).2.2 with
        ⟨e, hscan, heq⟩ | ⟨b, found, w', d', done, hscan, heq, hsettings, hfiles, hnow, hdays⟩
      · have hunread := Appends.unread (d := d) (e := e) hopens
        simp only [hrotated, hfiles'] at hscan heq hunread
        rw [heq]
        exact hunread hscan
      · simp only [hrotated, hfiles'] at hscan heq hsettings hfiles hdays
        rw [heq]
        refine .opened hopens hscan (hsettings.trans hsettings') hfiles hnow fun day' hday' => ?_
        rcases mem_held.mp hday' with hday' | hday'
        · rw [hday'] at hnow
          exact .inl (Option.some.inj hnow)
        · obtain rfl := Option.some.inj (hdays day' hday')
          exact .inr ⟨day, hmem, rfl⟩

/-! ## A run of appends -/

/-- A record that was appended, and what came of it. -/
abbrev Result := Record × Except Stop (Option SealedDay)

/-- Append records one after the other. -/
def appendAll (w : CaptureWriter) (d : Disk) : List Record → CaptureWriter × Disk × List Result
  | [] => (w, d, [])
  | r :: rs =>
    let (w', d', res) := w.append d r
    let (w'', d'', results) := w'.appendAll d' rs
    (w'', d'', (r, res) :: results)

/-- The records of a window that were accepted, in the order in which they were appended. -/
def accepted (c : Settings) (results : List Result) (window : Window) : List Record :=
  (results.filter fun p => p.2.isOk && decide (c.windowFor p.1 = window)).map Prod.fst

/-- A record short enough for the length of its frame to be written. -/
def Short (r : Record) : Prop := headerLenV2 + r.payload.length < 2 ^ 32

/-- A file that had `file₀` in it has the accepted records of its window behind the whole frames
that were there; without one it is as it was. -/
def Placed (file₀ file : Option (List UInt8)) (mine : List Record) : Prop :=
  (mine = [] → file = file₀) ∧ (mine ≠ [] → ∃ frames rest,
    file₀.getD [] = Frame.file frames ++ rest ∧ decode rest = .error .truncated ∧
      file = some (Frame.file frames ++ encodeAll mine))

/-- Every window with an accepted record is the open one or before it. -/
def Forward (c : Settings) (w : CaptureWriter) (done : List Result) : Prop :=
  ∀ window, accepted c done window ≠ [] →
    ∃ last, w.open_.map OpenDay.window = some last ∧ (window = last ∨ window.before last = true)

/-- What every append keeps. -/
structure Placing (c : Settings) (d₀ : Disk) (w : CaptureWriter) (d : Disk) (done : List Result) :
    Prop where
  settings : w.toSettings = c
  placed : ∀ window, Placed (d₀.files window) (d.files window) (accepted c done window)
  held : ∀ day ∈ w.held, accepted c done day.window ≠ []

section

variable {c : Settings} {done : List Result}

theorem accepted_append (done results : List Result) (window : Window) :
    accepted c (done ++ results) window = accepted c done window ++ accepted c results window := by
  rw [accepted, List.filter_append, List.map_append]
  rfl

theorem accepted_refused (e : Stop) (window : Window) :
    accepted c (done ++ [(r, .error e)]) window = accepted c done window := by
  rw [accepted_append]
  exact List.append_nil _

theorem accepted_own (sealed : Option SealedDay) :
    accepted c (done ++ [(r, .ok sealed)]) (c.windowFor r) = accepted c done (c.windowFor r) ++
    [r] := by
  rw [accepted_append]
  simp [accepted, Except.isOk, Except.toBool]

theorem accepted_other {window : Window} (sealed : Option SealedDay) (h : window ≠ c.windowFor r) :
    accepted c (done ++ [(r, .ok sealed)]) window = accepted c done window := by
  rw [accepted_append]
  simp [accepted, h.symm]

/-- A window keeps the records it has. -/
theorem accepted_ne_nil {window : Window} (results : List Result)
    (h : accepted c done window ≠ []) :
    accepted c (done ++ results) window ≠ [] := by
  rw [accepted_append]
  exact List.append_ne_nil_of_left_ne_nil h _

theorem encodeAll_append (rs qs : List Record) :
    encodeAll (rs ++ qs) = encodeAll rs ++ encodeAll qs :=
  List.flatMap_append

theorem Placed.write {file₀ file : Option (List UInt8)} {mine : List Record}
    (h : Placed file₀ file mine)
    (hmine : mine ≠ []) (r : Record) : Placed file₀ (some (file.getD [] ++ r.encode))
    (mine ++ [r]) := by
  refine ⟨fun hnil => absurd hnil (List.append_ne_nil_of_left_ne_nil hmine _), fun _ => ?_⟩
  obtain ⟨frames, rest, hfile, hrest, rfl⟩ := h.2 hmine
  refine ⟨frames, rest, hfile, hrest, ?_⟩
  rw [Option.getD_some, encodeAll_append, List.append_assoc, encodeAll, encodeAll,
    List.flatMap_singleton]

/-- A file that is opened for the first time loses its torn tail. -/
theorem Placed.first {file₀ : Option (List UInt8)} {b : ManifestBuilder}
    {found : Option (Nat × Nat)}
    (hscan : scanExisting file₀ = .ok (b, found)) (r : Record) :
    Placed file₀ (some (withoutTail (file₀.getD []) found ++ r.encode)) [r] := by
  refine ⟨fun hnil => (nomatch hnil), fun _ => ?_⟩
  obtain ⟨frames, rest, hfile, hrest, -, hclean⟩ := frames_of_scan hscan
  refine ⟨frames, rest, hfile, hrest, ?_⟩
  rw [hclean, encodeAll, List.flatMap_singleton]

/-- Records that are short enough are all there when the file is read again. -/
theorem withoutTail_again {frames : List Frame} {mine : List Record} {b : ManifestBuilder}
    {found : Option (Nat × Nat)} (hshort : ∀ q ∈ mine, Short q) (hmine : mine ≠ [])
    (hscan : scanExisting (some (Frame.file frames ++ encodeAll mine)) = .ok (b, found)) :
    withoutTail (Frame.file frames ++ encodeAll mine) found = Frame.file frames ++
    encodeAll mine := by
  have hne : Frame.file frames ++ encodeAll mine ≠ [] := by
    obtain ⟨q, hq⟩ := List.exists_mem_of_ne_nil mine hmine
    intro hnil
    have hencode := List.flatMap_eq_nil_iff.mp (List.append_eq_nil_iff.mp hnil).2 q hq
    have hlength := (Framed.mk true q).length_bytes
    have hempty : (Framed.mk true q).bytes = [] := hencode
    rw [hempty, Framed.len] at hlength
    unfold lenPrefix at hlength
    rw [List.length_nil] at hlength
    omega
  rw [scan_eq hne, decodeAll_file_append] at hscan
  cases hread : decodeAll (encodeAll mine) with
  | error e =>
    rw [hread] at hscan
    cases hscan
  | ok p =>
    have hfits := fits_of_decodeAll hshort hread
    rw [decodeAll_encodeAll hfits] at hscan
    obtain ⟨-, rfl⟩ := Prod.mk.inj (Except.ok.inj hscan)
    exact if_neg (Nat.lt_irrefl _)

theorem Placed.again {file₀ file : Option (List UInt8)} {mine : List Record} {b : ManifestBuilder}
    {found : Option (Nat × Nat)} (h : Placed file₀ file mine)
    (hshort : mine = [] ∨ ∀ q ∈ mine, Short q) (hscan : scanExisting file = .ok (b, found))
    (r : Record) :
    Placed file₀ (some (withoutTail (file.getD []) found ++ r.encode)) (mine ++ [r]) := by
  by_cases hmine : mine = []
  · obtain rfl := h.1 hmine
    rw [hmine]
    exact Placed.first hscan r
  · have hwritten := h.write hmine r
    obtain ⟨frames, rest, -, -, rfl⟩ := h.2 hmine
    have hclean := withoutTail_again (hshort.resolve_left hmine) hmine hscan
    rwa [Option.getD_some, hclean]

/-! ### Each append -/

/-- Reopening is safe for short records, or never happens. -/
theorem Placing.step {d₀ d' : Disk} {w' : CaptureWriter} {res : Except Stop (Option SealedDay)}
    (h : Placing c d₀ w d done) (hstep : w.Appends d r (w', d', res))
    (hagain : w.Opens (w.windowFor r) → accepted c done (w.windowFor r) = [] ∨
      ∀ q ∈ accepted c done (w.windowFor r), Short q) :
    Placing c d₀ w' d' (done ++ [(r, res)]) := by
  have hwindow : w.windowFor r = c.windowFor r := congrArg (Settings.windowFor · r) h.settings
  -- one file is written, and only the records of its window change with it
  cases hstep with
  | held hheld hsettings hfiles hopen hdays =>
    obtain ⟨day, hday, hsame⟩ := hheld
    refine ⟨hsettings.trans h.settings, fun window => ?_, fun day' hday' => ?_⟩
    · rw [hfiles, hwindow]
      by_cases hother : window = c.windowFor r
      · rw [hother, accepted_own]
        have hmine := h.held day hday
        rw [hsame, hwindow] at hmine
        simp only [Disk.write, Disk.setFile, Function.update_self]
        exact (h.placed _).write hmine r
      · simp only [Disk.write, Disk.setFile, Function.update_apply, if_neg hother]
        rw [accepted_other _ hother]
        exact h.placed window
    · obtain ⟨day, hday, hsame⟩ := hdays day' hday'
      exact accepted_ne_nil _ (hsame ▸ h.held day hday)
  | late hopen hbefore =>
    refine ⟨h.settings, fun window => ?_, fun day hday => accepted_ne_nil _ (h.held day hday)⟩
    rw [accepted_refused]
    exact h.placed window
  | opened hopens hscan hsettings hfiles hopen hdays =>
    refine ⟨hsettings.trans h.settings, fun window => ?_, fun day' hday' => ?_⟩
    · rw [hfiles, hwindow]
      by_cases hother : window = c.windowFor r
      · rw [hother, accepted_own, Function.update_self]
        have hshort := hagain hopens
        rw [hwindow] at hshort hscan
        exact (h.placed _).again hshort hscan r
      · rw [Function.update_of_ne hother, accepted_other _ hother]
        exact h.placed window
    · rcases hdays day' hday' with hsame | ⟨day, hday, hsame⟩
      · rw [hsame, hwindow, accepted_own]
        exact List.append_ne_nil_of_right_ne_nil _ (List.cons_ne_nil r [])
      · exact accepted_ne_nil _ (hsame ▸ h.held day hday)
  | unread hopens hscan =>
    -- the open window may have been sealed already, which leaves the files as they were
    have hrotated : (w.rotated d).1.toSettings = w.toSettings ∧ (w.rotated d).2.files = d.files ∧
        ∀ day ∈ (w.rotated d).1.held, day ∈ w.held := by
      unfold rotated
      cases hopen : w.open_ with
      | none => exact ⟨rfl, rfl, fun day hday => hday⟩
      | some day =>
        refine ⟨(sealPrevious_same w d).1, files_sealPrevious w d, fun day' hday' => ?_⟩
        rcases mem_held.mp hday' with hday' | hday'
        · cases hday'
        · exact mem_held.mpr (.inl (hopen.trans hday'))
    obtain ⟨hsettings, hfiles, hdays⟩ := hrotated
    refine ⟨hsettings.trans h.settings, fun window => ?_, fun day hday =>
      accepted_ne_nil _ (h.held day (hdays day hday))⟩
    rw [accepted_refused, hfiles]
    exact h.placed window

/-- Without a failed rotation windows only move forward. -/
theorem Forward.step {d₀ d' : Disk} {w' : CaptureWriter} {res : Except Stop (Option SealedDay)}
    (h : Forward c w done) (hplacing : Placing c d₀ w d done) (hstep : w.Appends d r (w', d', res))
    (hres : ∀ window e, res ≠ .error (.corrupt window e)) : Forward c w' (done ++ [(r, res)]) := by
  have hwindow : w.windowFor r = c.windowFor r :=
    congrArg (Settings.windowFor · r) hplacing.settings
  intro window hmine
  cases hstep with
  | held hheld hsettings hfiles hopen hdays =>
    obtain ⟨day, hday, hsame⟩ := hheld
    have hold : accepted c done window ≠ [] := by
      by_cases hother : window = c.windowFor r
      · rw [hother, ← hwindow, ← hsame]
        exact hplacing.held day hday
      · rwa [accepted_other _ hother] at hmine
    rw [hopen]
    exact h window hold
  | late hopen hbefore =>
    rw [accepted_refused] at hmine
    exact h window hmine
  | opened hopens hscan hsettings hfiles hopen hdays =>
    refine ⟨_, hopen, ?_⟩
    by_cases hother : window = c.windowFor r
    · exact .inl (hother.trans hwindow.symm)
    rw [accepted_other _ hother] at hmine
    obtain ⟨last, hlast, hbefore⟩ := h window hmine
    obtain ⟨day, hday, rfl⟩ := Option.map_eq_some_iff.mp hlast
    have hne : day.window ≠ w.windowFor r := hopens.1 day (mem_held.mpr (.inl hday))
    have hnext := Window.before_of_not_before (hopens.2 day hday) hne
    rcases hbefore with rfl | hbefore
    · exact .inr hnext
    · exact .inr (Window.before_trans hbefore hnext)
  | unread hopens hscan => exact absurd rfl (hres _ _)

/-- A window that moves forward is opened once. -/
theorem Forward.fresh (h : Forward c w done) {window : Window} (hopens : w.Opens window) :
    accepted c done window = [] := by
  by_contra hmine
  obtain ⟨last, hlast, hbefore⟩ := h window hmine
  obtain ⟨day, hday, rfl⟩ := Option.map_eq_some_iff.mp hlast
  rcases hbefore with hsame | hbefore
  · exact hopens.1 day (mem_held.mpr (.inl hday)) hsame.symm
  · exact Bool.false_ne_true ((hopens.2 day hday).symm.trans hbefore)

/-- **Every append** of a run keeps the records placed. -/
theorem placing_run {d₀ : Disk} {rs : List Record} (h : Placing c d₀ w d done)
    (hagain : ((∀ p ∈ done, Short p.1) ∧ ∀ r ∈ rs, Short r) ∨
      Forward c w done ∧ ∀ p ∈ (w.appendAll d rs).2.2, ∀ window e,
      p.2 ≠ .error (.corrupt window e)) :
    Placing c d₀ (w.appendAll d rs).1 (w.appendAll d rs).2.1 (done ++ (w.appendAll d rs).2.2) := by
  induction rs generalizing w d done with
  | nil =>
    rw [appendAll, List.append_nil]
    exact h
  | cons r rs ih =>
    have hstep := appends_append w d r
    rw [appendAll] at hagain ⊢
    generalize w.append d r = o at hstep hagain ⊢
    obtain ⟨w', d', res⟩ := o
    have hnext : Placing c d₀ w' d' (done ++ [(r, res)]) := by
      refine h.step hstep fun hopens => ?_
      rcases hagain with ⟨hdone, -⟩ | ⟨hforward, -⟩
      · right
        intro q hq
        obtain ⟨p, hp, rfl⟩ := List.mem_map.mp hq
        exact hdone p (List.mem_filter.mp hp).1
      · exact .inl (hforward.fresh hopens)
    have hrest := ih hnext ?_
    · rwa [List.append_assoc] at hrest
    rcases hagain with ⟨hdone, hrs⟩ | ⟨hforward, hres⟩
    · left
      rw [List.forall_mem_cons] at hrs
      refine ⟨fun p hp => ?_, hrs.2⟩
      rcases List.mem_append.mp hp with hp | hp
      · exact hdone p hp
      · obtain rfl := List.mem_singleton.mp hp
        exact hrs.1
    · right
      rw [List.forall_mem_cons] at hres
      exact ⟨hforward.step h hstep hres.1, hres.2⟩

end

/-- **Where records are placed.**  After any appends of a new writer the file of every window has
its accepted records behind what was there, once and in order; a record that is too late changes
nothing, and one whose window cannot be opened is in no file. -/
theorem appended_placed (c : Settings) (d : Disk) (rs : List Record)
    (h : (∀ r ∈ rs, Short r) ∨
      ∀ p ∈ ((new c).appendAll d rs).2.2, ∀ window e, p.2 ≠ .error (.corrupt window e)) :
    (∀ window, Placed (d.files window) (((new c).appendAll d rs).2.1.files window)
      (accepted c ((new c).appendAll d rs).2.2 window)) ∧
    ∀ (w : CaptureWriter) (d' : Disk) (r : Record) (e : Stop), (w.append d' r).2.2 = .error e →
      (∃ day, w.open_ = some day ∧ e = .late (w.windowFor r) day.window ∧
        w.append d' r = (w, d', .error e)) ∨
      ∃ cause, scanExisting (d'.files (w.windowFor r)) = .error cause ∧
        e = .corrupt (w.windowFor r) cause ∧
        w.append d' r = ((w.rotated d').1, (w.rotated d').2, .error e) ∧
        (w.rotated d').2.files = d'.files := by
  constructor
  · have hnew : Placing c d (new c) d [] := by
      refine ⟨rfl, fun window => ⟨fun _ => rfl, fun hnil => absurd rfl hnil⟩, fun day hday => ?_⟩
      cases hday
    have hplacing : Placing c d ((new c).appendAll d rs).1 ((new c).appendAll d rs).2.1
        ([] ++ ((new c).appendAll d rs).2.2) := by
      apply placing_run hnew
      rcases h with hshort | hres
      · exact .inl ⟨fun p hp => (nomatch hp), hshort⟩
      · exact .inr ⟨fun window hmine => absurd rfl hmine, hres⟩
    exact hplacing.placed
  · intro w d' r e he
    have hstep := appends_append w d' r
    generalize w.append d' r = o at hstep he ⊢
    cases hstep with
    | held => cases he
    | opened => cases he
    | @late day hopen hbefore =>
      obtain rfl := Except.error.inj he
      exact .inl ⟨day, hopen, rfl, rfl⟩
    | @unread cause hopens hscan =>
      obtain rfl := Except.error.inj he
      refine .inr ⟨cause, hscan, rfl, rfl, ?_⟩
      unfold rotated
      split
      · rfl
      · exact files_sealPrevious w d'

/-- An archive with a file that is not one of frames. -/
def broken : Disk := emptyDisk.setFile ⟨1, none⟩ [0, 0, 0, 0, 1]

/-- A message of the day after. -/
def nextDay : Record := { message with exchTs := 86400000000000 }

/-- Two messages of one day are in its file. -/
theorem appended_placed_two :
    Placed (broken.files ⟨0, none⟩)
      (((new daily).appendAll broken [message, message]).2.1.files ⟨0, none⟩)
      (accepted daily ((new daily).appendAll broken [message, message]).2.2 ⟨0, none⟩) := by
  refine (appended_placed daily broken [message, message] (.inl fun r hr => ?_)).1 _
  have hsame : r = message := by
    rcases List.mem_cons.mp hr with rfl | hr
    · rfl
    · exact List.mem_singleton.mp hr
  rw [hsame]
  show headerLenV2 + 2 < 2 ^ 32
  unfold headerLenV2
  omega

/-- **A rotation that fails** is refused and has closed the window that was open. -/
theorem append_refused_rotates :
    let before := (new daily).appendAll broken [message]
    let after := before.1.append before.2.1 nextDay
    (∃ e, after.2.2 = .error (.corrupt ⟨1, none⟩ e)) ∧
      before.1.open_.map OpenDay.window = some ⟨0, none⟩ ∧
      after.1.open_.map OpenDay.window = none := by
  have hfirst : daily.windowFor message = ⟨0, none⟩ := by decide
  have hsecond : daily.windowFor nextDay = ⟨1, none⟩ := by decide
  have hother : (⟨1, none⟩ : Window) ≠ ⟨0, none⟩ := by decide
  have hempty : scanExisting (broken.files (daily.windowFor message)) = .ok (.new, none) := by
    have hfile : broken.files ⟨0, none⟩ = none := by
      simp only [broken, Disk.setFile, Function.update_of_ne hother.symm]
      rfl
    rw [hfirst, hfile]
    rfl
  have hread : scanExisting (broken.files ⟨1, none⟩) = .error (.invalidLength 0) := by
    have hfile : broken.files ⟨1, none⟩ = some [0, 0, 0, 0, 1] := by
      simp only [broken, Disk.setFile, Function.update_self]
    have hdecode : decode [0, 0, 0, 0, 1] = .error (.invalidLength 0) := by decide
    rw [hfile, scan_eq (List.cons_ne_nil 0 _), decodeAll_of_error hdecode fun h => by cases h]
    rfl
  have hbefore : (new daily).appendAll broken [message] =
      (((new daily).append broken message).1, ((new daily).append broken message).2.1,
        [(message, ((new daily).append broken message).2.2)]) := rfl
  rw [append_new hempty, hfirst] at hbefore
  dsimp only
  rw [hbefore]
  -- what is open, and what is in the file of the day after
  generalize hw : ({ new daily with open_ := _ } : CaptureWriter) = w
  generalize hd : (Disk.write _ ⟨0, none⟩ message.encode) = d
  have hopen : w.open_.map OpenDay.window = some ⟨0, none⟩ := by
    rw [← hw]
    rfl
  have hwindow : w.windowFor nextDay = ⟨1, none⟩ := by
    rw [← hw]
    exact hsecond
  have hheld : ∀ day ∈ w.held, day.window = ⟨0, none⟩ := by
    rw [← hw]
    exact fun day hday => by
      obtain rfl := List.mem_singleton.mp hday
      rfl
  have hfile : d.files ⟨1, none⟩ = broken.files ⟨1, none⟩ := by
    rw [← hd]
    simp only [Disk.write, Disk.setManifest, Disk.setFile, Function.update_of_ne hother]
  have hstep := appends_append w d nextDay
  generalize w.append d nextDay = o at hstep ⊢
  cases hstep with
  | held h =>
    obtain ⟨day, hday, hsame⟩ := h
    exact absurd (hwindow.symm.trans (hsame.symm.trans (hheld day hday))) hother
  | late h hearlier =>
    rw [hwindow, hheld _ (mem_held.mpr (.inl h))] at hearlier
    cases hearlier
  | opened hopens hscan =>
    rw [hwindow, hfile, hread] at hscan
    cases hscan
  | unread hopens hscan =>
    refine ⟨⟨_, by rw [hwindow]⟩, hopen, ?_⟩
    obtain ⟨day, hday, -⟩ := Option.map_eq_some_iff.mp hopen
    rw [rotated, hday]
    rfl

end CaptureWriter

end Capture
