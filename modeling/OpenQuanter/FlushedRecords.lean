/-
# Control records reach the file (`oq-l2feed/src/writer.rs`)

A call that writes a control record flushes before it returns, and what it flushes is the open
window.  A record of that window is in its file then, with all that was written before it; one
that belongs to the window that waits for late records stays in that window's buffer, unless it
is as long as the buffer (`flushed_iff`).
-/
import OpenQuanter.BufferedWriter

namespace Capture

theorem encode_ne_nil (r : Record) : r.encode ≠ [] := by
  have hlength := (Framed.mk true r).length_bytes
  intro hnil
  have hbytes : (Framed.mk true r).bytes = [] := hnil
  rw [hbytes, Framed.len] at hlength
  unfold lenPrefix at hlength
  rw [List.length_nil] at hlength
  omega

namespace CaptureWriter

variable {w : CaptureWriter} {d : Disk} {r : Record} {done : Option SealedDay}

theorem Appends.settings {o : Outcome (Option SealedDay)} (h : w.Appends d r o) :
    o.1.toSettings = w.toSettings := by
  cases h with
  | held hheld hsettings => exact hsettings
  | late => rfl
  | opened hopens hscan hsettings => exact hsettings
  | unread =>
    unfold rotated
    split
    · rfl
    · exact (sealPrevious_same w d).1

/-- A record that is appended is at the end of its file. -/
theorem files_append (h : (w.append d r).2.2 = .ok done) :
    ∃ before, (w.append d r).2.1.files (w.windowFor r) = some (before ++ r.encode) := by
  have happends := appends_append w d r
  generalize w.append d r = o at h happends ⊢
  cases happends with
  | held hheld hsettings hfiles =>
    rw [hfiles]
    exact ⟨_, Function.update_self ..⟩
  | opened hopens hscan hsettings hfiles =>
    rw [hfiles]
    exact ⟨_, Function.update_self ..⟩
  | late => cases h
  | unread => cases h

/-- Its window is the open one, unless it is the one that waits. -/
theorem open_append (h : (w.append d r).2.2 = .ok done)
    (hnot : ∀ p ∈ w.previous, p.window ≠ w.windowFor r) :
    (w.append d r).1.open_.map OpenDay.window = some (w.windowFor r) := by
  have happends := appends_append w d r
  generalize w.append d r = o at h happends ⊢
  cases happends with
  | held hheld hsettings hfiles hopen hdays =>
    obtain ⟨day, hday, hwindow⟩ := hheld
    rcases mem_held.mp hday with hday | hday
    · rw [hopen, hday, ← hwindow]
      rfl
    · exact absurd hwindow (hnot day hday)
  | opened hopens hscan hsettings hfiles hopen => exact hopen
  | late => cases h
  | unread => cases h

theorem append_previous {p : OpenDay} (hp : w.previous = some p)
    (hwindow : p.window = w.windowFor r) : w.append d r =
      ({ w with previous := some { p with builder := p.builder.observe r } },
        d.write (w.windowFor r) r.encode, .ok none) := by
  unfold append
  simp only [hp, Option.filter_some, decide_eq_true hwindow, if_true]

theorem held_append (h : (w.append d r).2.2 = .ok done) :
    ∃ day ∈ (w.append d r).1.held, day.window = w.windowFor r := by
  by_cases hwaits : ∃ p ∈ w.previous, p.window = w.windowFor r
  · obtain ⟨p, hp, hwindow⟩ := hwaits
    rw [append_previous hp hwindow]
    exact ⟨_, mem_held.mpr (.inr rfl), hwindow⟩
  · have hopen := open_append h fun p hp heq => hwaits ⟨p, hp, heq⟩
    obtain ⟨day, hday, hwindow⟩ := Option.map_eq_some_iff.mp hopen
    exact ⟨day, mem_held.mpr (.inl hday), hwindow⟩

/-- A record of a window that is held is written behind what is in its file. -/
theorem files_append_of_held (h : (w.append d r).2.2 = .ok done)
    (hheld : ∃ day ∈ w.held, day.window = w.windowFor r) :
    (w.append d r).2.1.files (w.windowFor r) =
      some ((d.files (w.windowFor r)).getD [] ++ r.encode) := by
  have happends := appends_append w d r
  generalize w.append d r = o at h happends ⊢
  cases happends with
  | held hheld hsettings hfiles =>
    rw [hfiles]
    exact Function.update_self ..
  | opened hopens =>
    obtain ⟨day, hday, hwindow⟩ := hheld
    exact absurd hwindow (hopens.1 day hday)
  | late => cases h
  | unread => cases h

/-- A window is held as long, whether it was asked what it was resumed after or not. -/
theorem held_takeResumed {window : Window} (h : ∃ day ∈ w.held, day.window = window) :
    ∃ day ∈ w.takeResumed.held, day.window = window := by
  obtain ⟨day, hday, hsame⟩ := h
  rcases mem_held.mp hday with hday | hday
  · refine ⟨{ day with resumedAfter := none }, mem_held.mpr (.inl ?_), hsame⟩
    rw [takeResumed, hday]
    rfl
  · exact ⟨day, mem_held.mpr (.inr hday), hsame⟩

theorem appendCounted_ok {count : ManifestBuilder → Option ManifestBuilder}
    (h : (w.appendCounted d r count).2.2 = .ok done) :
    (w.append d r).2.2 = .ok done ∧ (w.appendCounted d r count).2.1 = (w.append d r).2.1 := by
  unfold appendCounted at h ⊢
  generalize w.append d r = o at h ⊢
  obtain ⟨w', d', res⟩ := o
  cases res with
  | error e => cases h
  | ok done' =>
    simp only at h ⊢
    split at h
    · cases h
    · rename_i hcounted
      exact ⟨h, rfl⟩

end CaptureWriter

namespace Entry

variable {w : CaptureWriter} {d : Disk} {done : Option SealedDay}

/-- A control record that is counted is at the end of the file of its window. -/
theorem files_counted {r : Record} {count : ManifestBuilder → Option ManifestBuilder}
    (h : (w.appendCounted d r count).2.2 = .ok done) : ∃ before after,
      (w.appendCounted d r count).2.1.files (w.windowFor r) =
        some (before ++ r.encode ++ after) := by
  obtain ⟨hok, hdisk⟩ := CaptureWriter.appendCounted_ok h
  obtain ⟨before, hfile⟩ := CaptureWriter.files_append hok
  exact ⟨before, [], by rw [hdisk, hfile, List.append_nil]⟩

/-- **A record that is recorded** is in the file of its window. -/
theorem files_run (e : Entry) (h : (e.run w d).2.2 = .ok done) :
    ∃ before after, (e.run w d).2.1.files (w.windowFor (e.record w)) =
      some (before ++ (e.record w).encode ++ after) := by
  cases e with
  | append r =>
    obtain ⟨before, hfile⟩ := CaptureWriter.files_append h
    exact ⟨before, [], by rw [List.append_nil]; exact hfile⟩
  | gap localTs reason lastSeq outageNs => exact files_counted h
  | clockOffset localTs offsetNs dispersionNs => exact files_counted h
  | sessionStart localTs =>
    have hfiles := @CaptureWriter.files_append w d (w.sessionRecord localTs)
    have hheld := @CaptureWriter.held_append w d (w.sessionRecord localTs)
    have hsettings := (CaptureWriter.appends_append w d (w.sessionRecord localTs)).settings
    simp only [run, record] at h ⊢
    unfold CaptureWriter.appendSessionStart at h ⊢
    generalize w.append d (w.sessionRecord localTs) = o at h hfiles hheld hsettings ⊢
    obtain ⟨w', d', res⟩ := o
    cases res with
    | error e => cases h
    | ok first =>
      obtain ⟨before, hfile⟩ := hfiles rfl
      simp only at h hfile ⊢
      split at h
      · exact ⟨before, [], by rw [List.append_nil]; exact hfile⟩
      · rename_i last hlast
        split at h
        · rename_i houtage
          rw [if_pos houtage]
          -- the gap goes behind the session's record, in the same file
          have hwindow : w'.takeResumed.windowFor (CaptureWriter.gapRecord localTs
              CaptureWriter.restarted none (satSub localTs last)) =
                w.windowFor (w.sessionRecord localTs) :=
            (congrArg (Settings.windowFor · _) hsettings).trans
              (CaptureWriter.windowFor_control ..)
          have hheld' := CaptureWriter.held_takeResumed (hheld rfl)
          rw [← hwindow] at hheld'
          have hgap : ∀ s, (w'.takeResumed.appendGap d' localTs CaptureWriter.restarted none
              (satSub localTs last)).2.2 = .ok s → (w'.takeResumed.appendGap d' localTs
              CaptureWriter.restarted none (satSub localTs last)).2.1.files
                (w.windowFor (w.sessionRecord localTs)) = some (before ++
                  (w.sessionRecord localTs).encode ++ (CaptureWriter.gapRecord localTs
                    CaptureWriter.restarted none (satSub localTs last)).encode) := by
            intro s hs
            obtain ⟨hok, hdisk⟩ := CaptureWriter.appendCounted_ok hs
            have hwritten := CaptureWriter.files_append_of_held hok hheld'
            rw [hwindow, hfile, Option.getD_some] at hwritten
            rw [CaptureWriter.appendGap, hdisk, hwritten]
          generalize w'.takeResumed.appendGap _ _ _ _ _ = o at h hgap ⊢
          obtain ⟨w'', d'', res⟩ := o
          cases res with
          | error e => cases h
          | ok s =>
            refine ⟨before, _, Eq.trans ?_ (hgap s rfl)⟩
            cases s <;> rfl
        · rename_i houtage
          rw [if_neg houtage]
          exact ⟨before, [], by rw [List.append_nil]; exact hfile⟩

/-- A call that writes a control record. -/
def IsControl : Entry → Bool
  | append _ => false
  | gap .. => true
  | clockOffset .. => true
  | sessionStart _ => true

/-- The last record a call writes: the gap, where a session is started after a silence. -/
def last (w : CaptureWriter) : Entry → Record
  | append r => r
  | gap localTs reason lastSeq outageNs => CaptureWriter.gapRecord localTs reason lastSeq outageNs
  | clockOffset localTs offsetNs dispersionNs =>
    .control localTs (Text.utf8 (Control.clockOffset offsetNs dispersionNs))
  | sessionStart localTs =>
    match w.open_.bind OpenDay.resumedAfter with
    | none => w.sessionRecord localTs
    | some last =>
      if 0 < satSub localTs last then
        CaptureWriter.gapRecord localTs CaptureWriter.restarted none (satSub localTs last)
      else w.sessionRecord localTs

end Entry

namespace BufferedWriter

variable {w : BufferedWriter} {d : Disk} {r : Record} {done : Option SealedDay}

/-- Nothing of a window is in the process's buffers: its file has all that was written to it, the
record among it. -/
def OnDisk (w : BufferedWriter) (d : Disk) (window : Window) (r : Record) : Prop :=
  (∀ buf, w.bufferOf window = some buf → buf = []) ∧
    d.files window = (w.written d).files window ∧
    ∃ before after, d.files window = some (before ++ r.encode ++ after)

theorem onDisk_iff {window : Window} {buf : List UInt8} (hbuffer : w.bufferOf window = some buf)
    (hfile : ∃ before after, (w.written d).files window = some (before ++ r.encode ++ after)) :
    w.OnDisk d window r ↔ buf = [] := by
  constructor
  · exact fun h => h.1 buf hbuffer
  · rintro rfl
    obtain ⟨before, after, hfile⟩ := hfile
    have hwritten : (w.written d).files window = some ((d.files window).getD []) := by
      simp only [written, hbuffer, List.append_nil]
    have hsome : d.files window = (w.written d).files window := by
      cases hnone : d.files window with
      | some file => rw [hwritten, hnone, Option.getD_some]
      | none =>
        -- a file that is not there has no record
        rw [hwritten, hnone] at hfile
        have hempty := (List.append_eq_nil_iff.mp (Option.some.inj hfile).symm).1
        exact absurd (List.append_eq_nil_iff.mp hempty).2 (encode_ne_nil r)
    refine ⟨fun buf hbuf => ?_, hsome, before, after, ?_⟩
    · exact (Option.some.inj (hbuffer.symm.trans hbuf)).symm
    · rw [hsome, hfile]

/-! ## What is flushed -/

theorem bufferOf_flush {window : Window}
    (hopen : w.open_.map (fun day => day.window) = some window) :
    (w.flush d).1.bufferOf window = some [] := by
  obtain ⟨o, ho, rfl⟩ := Option.map_eq_some_iff.mp hopen
  unfold flush
  simp only [ho]
  exact bufferOf_open (o := (o.flush d).1) rfl

theorem flush_previous (w : BufferedWriter) (d : Disk) :
    (w.flush d).1.previous = w.previous := by
  unfold flush
  cases w.open_ <;> rfl

theorem flush_open (w : BufferedWriter) (d : Disk) :
    (w.flush d).1.open_.map (fun day => day.window) = w.open_.map fun day => day.window := by
  unfold flush
  cases hopen : w.open_ with
  | none => rw [hopen]
  | some o => rfl

theorem append_open (h : w.Apart) (hok : (w.append d r).2.2 = .ok done)
    (hnot : ∀ p ∈ w.previous, p.window ≠ w.windowFor r) :
    (w.append d r).1.open_.map (fun day => day.window) = some (w.windowFor r) := by
  have happend := whole_append (d := d) h r
  have hok' : (w.whole.append (w.written d) r).2.2 = .ok done := by
    rw [← happend]
    exact hok
  have hopen := CaptureWriter.open_append hok' fun p hp => by
    obtain ⟨p', hp', rfl⟩ := Option.map_eq_some_iff.mp (Option.mem_def.mp hp)
    exact hnot p' hp'
  rw [← happend] at hopen
  simpa [Buffered.whole, whole, Option.map_map, Function.comp_def] using hopen

theorem append_previous {p : BufferedDay} (hp : w.previous = some p)
    (hwindow : p.window = w.windowFor r) : w.append d r =
      ({ w with previous := some ((p.write d r.encode).1.observe r) }, (p.write d r.encode).2,
        .ok none) := by
  unfold append
  simp only [hp, Option.filter_some, decide_eq_true hwindow, if_true]

/-- A control record of the open window leaves its buffer empty. -/
theorem appendCounted_open {count : ManifestBuilder → Option ManifestBuilder} (h : w.Apart)
    (hok : (w.appendCounted d r count).2.2 = .ok done)
    (hnot : ∀ p ∈ w.previous, p.window ≠ w.windowFor r) :
    (w.appendCounted d r count).1.open_.map (fun day => day.window) = some (w.windowFor r) ∧
      (w.appendCounted d r count).1.bufferOf (w.windowFor r) = some [] := by
  have hopen := fun done (hok : (w.append d r).2.2 = .ok done) => append_open h hok hnot
  unfold appendCounted at hok ⊢
  generalize w.append d r = o at hok hopen ⊢
  obtain ⟨w', d', res⟩ := o
  cases res with
  | error e => cases hok
  | ok done' =>
    have hnow := hopen done' rfl
    simp only at hok hnow ⊢
    cases hcounted : w'.countAt (w.windowFor r) count with
    | none =>
      rw [hcounted] at hok
      cases hok
    | some w'' =>
      obtain ⟨hsame, -⟩ := countAt_same hcounted
      have hwindow := congrArg (Option.map Prod.fst) hsame
      simp only [Option.map_map, Function.comp_def] at hwindow
      exact ⟨(flush_open ..).trans (hwindow.trans hnow), bufferOf_flush (hwindow.trans hnow)⟩

/-- One of the window that waits goes through the buffer of that window. -/
theorem appendCounted_previous {count : ManifestBuilder → Option ManifestBuilder}
    {p : BufferedDay} (hok : (w.appendCounted d r count).2.2 = .ok done) (hp : w.previous = some p)
    (hwindow : p.window = w.windowFor r) :
    ∃ p', (w.appendCounted d r count).1.previous = some p' ∧ p'.window = w.windowFor r ∧
      p'.file.buf = (p.file.writeAll r.encode).1.buf := by
  unfold appendCounted at hok ⊢
  rw [append_previous hp hwindow] at hok ⊢
  simp only at hok ⊢
  generalize hw : (⟨w.toSettings, w.open_, some ((p.write d r.encode).1.observe r)⟩ :
    BufferedWriter) = w' at hok ⊢
  cases hcounted : w'.countAt (w.windowFor r) count with
  | none =>
    rw [hcounted] at hok
    cases hok
  | some w'' =>
    obtain ⟨-, hsame⟩ := countAt_same hcounted
    rw [← hw, Option.map_some] at hsame
    obtain ⟨p', hp', hpair⟩ := Option.map_eq_some_iff.mp hsame
    obtain ⟨hpwindow, hbuf⟩ := Prod.mk.inj hpair
    simp only
    exact ⟨p', (flush_previous ..).trans hp', hpwindow.trans hwindow, hbuf⟩

theorem resumed_whole (w : BufferedWriter) : w.whole.open_.bind OpenDay.resumedAfter =
    w.open_.bind fun day => day.resumedAfter := by
  unfold whole
  cases w.open_ <;> rfl

theorem apart_entry (h : w.Apart) (e : Entry) : (e.buffered w d).1.Apart := by
  have hentry := Entry.apart_run (d := w.written d) e (apart_whole.mpr h)
  rw [← whole_entry h e] at hentry
  exact apart_whole.mp hentry

/-- The start of a session in the window that is open, or is opened for it. -/
theorem sessionStart_open (h : w.Apart) {localTs : Int64}
    (hok : (w.appendSessionStart d localTs).2.2 = .ok done)
    (hnot : ∀ p ∈ w.previous, p.window ≠ w.windowFor (w.sessionRecord localTs)) :
    (w.appendSessionStart d localTs).1.bufferOf (w.windowFor (w.sessionRecord localTs)) =
      some [] := by
  have hopen := fun done (hok : (w.append d (w.sessionRecord localTs)).2.2 = .ok done) =>
    append_open h hok hnot
  have hapart := CaptureWriter.apart_append (d := w.written d) (r := w.sessionRecord localTs)
    (apart_whole.mpr h)
  have hsettings := (CaptureWriter.appends_append w.whole (w.written d)
    (w.sessionRecord localTs)).settings
  rw [← whole_append h] at hapart hsettings
  unfold appendSessionStart at hok ⊢
  generalize w.append d (w.sessionRecord localTs) = o at hok hopen hapart hsettings ⊢
  obtain ⟨w', d', res⟩ := o
  cases res with
  | error e => cases hok
  | ok first =>
    have hnow := hopen first rfl
    have htaken : w'.takeResumed.open_.map (fun day => day.window) =
        some (w.windowFor (w.sessionRecord localTs)) := by
      rw [← hnow]
      simp [takeResumed, Option.map_map, Function.comp_def]
    simp only at hok ⊢
    split at hok
    · exact bufferOf_flush hnow
    · rename_i last hlast
      split at hok
      · rename_i houtage
        rw [if_pos houtage]
        have hwindow : w'.takeResumed.windowFor (CaptureWriter.gapRecord localTs
            CaptureWriter.restarted none (satSub localTs last)) =
              w.windowFor (w.sessionRecord localTs) :=
          (congrArg (Settings.windowFor · _) hsettings).trans (CaptureWriter.windowFor_control ..)
        have htapart : w'.takeResumed.Apart := apart_whole.mp
          ((whole_takeResumed w' d').1 ▸ CaptureWriter.apart_takeResumed hapart)
        have hother : ∀ p ∈ w'.takeResumed.previous, p.window ≠ w'.takeResumed.windowFor
            (CaptureWriter.gapRecord localTs CaptureWriter.restarted none
              (satSub localTs last)) := by
          intro p hp
          obtain ⟨o, ho, hsame⟩ := Option.map_eq_some_iff.mp htaken
          rw [hwindow, ← hsame]
          exact htapart o ho p hp
        have hgap := fun s (hok : (w'.takeResumed.appendCounted d'
            (CaptureWriter.gapRecord localTs CaptureWriter.restarted none (satSub localTs last))
            (·.observeGap (satSub localTs last))).2.2 = .ok s) =>
          (appendCounted_open htapart hok hother).1
        rw [hwindow] at hgap
        simp only [appendGap] at hok ⊢
        generalize appendCounted _ _ _ _ = o at hok hgap ⊢
        obtain ⟨w'', d'', res⟩ := o
        cases res with
        | error e => cases hok
        | ok s => exact bufferOf_flush (hgap s rfl)
      · rename_i houtage
        rw [if_neg houtage]
        exact bufferOf_flush htaken

/-- The start of a session in the window that waits. -/
theorem sessionStart_previous {localTs : Int64} {p : BufferedDay}
    (hok : (w.appendSessionStart d localTs).2.2 = .ok done) (hp : w.previous = some p)
    (hwindow : p.window = w.windowFor (w.sessionRecord localTs)) :
    ∃ p', (w.appendSessionStart d localTs).1.previous = some p' ∧
      p'.window = w.windowFor (w.sessionRecord localTs) ∧ ∃ file : BufWriter UInt8 bufferSize,
        p'.file.buf = (file.writeAll ((Entry.sessionStart localTs).last w.whole).encode).1.buf := by
  unfold appendSessionStart at hok ⊢
  rw [append_previous hp hwindow] at hok ⊢
  simp only [Entry.last, resumed_whole] at hok ⊢
  cases hlast : w.open_.bind fun day => day.resumedAfter with
  | none =>
    rw [hlast] at hok
    exact ⟨_, flush_previous .., hwindow, p.file, rfl⟩
  | some last =>
    simp only [hlast] at hok ⊢
    by_cases houtage : 0 < satSub localTs last
    · simp only [if_pos houtage] at hok ⊢
      -- the gap follows the session's record into the same buffer
      have hgapWindow : w.windowFor (CaptureWriter.gapRecord localTs CaptureWriter.restarted none
          (satSub localTs last)) = w.windowFor (w.sessionRecord localTs) :=
        CaptureWriter.windowFor_control ..
      generalize hq : (p.write d (w.sessionRecord localTs).encode).1.observe
        (w.sessionRecord localTs) = q at hok ⊢
      have hqWindow : q.window = p.window := by
        rw [← hq]
        rfl
      have hgap := fun s (hok : (appendCounted (takeResumed { w with previous := some q })
          (p.write d (w.sessionRecord localTs).encode).2
          (CaptureWriter.gapRecord localTs CaptureWriter.restarted none (satSub localTs last))
          (·.observeGap (satSub localTs last))).2.2 = .ok s) =>
        appendCounted_previous hok rfl (hqWindow.trans (hwindow.trans hgapWindow.symm))
      simp only [appendGap] at hok ⊢
      generalize appendCounted _ _ _ _ = o at hok hgap ⊢
      obtain ⟨w'', d'', res⟩ := o
      cases res with
      | error e => cases hok
      | ok s =>
        obtain ⟨p', hp', hsame, hbuf⟩ := hgap s rfl
        exact ⟨p', (flush_previous ..).trans hp', hsame.trans hgapWindow, q.file, hbuf⟩
    · simp only [if_neg houtage]
      exact ⟨_, flush_previous .., hwindow, p.file, rfl⟩

/-- **What the buffer of a control record's window has in it** when the call returns. -/
theorem bufferOf_entry (h : w.Apart) {e : Entry} (hcontrol : e.IsControl = true)
    (hok : (e.buffered w d).2.2 = .ok done) :
    ∃ buf, (e.buffered w d).1.bufferOf (w.windowFor (e.record w.whole)) = some buf ∧
      (buf = [] ↔ (∀ p ∈ w.previous, p.window ≠ w.windowFor (e.record w.whole)) ∨
        bufferSize ≤ (e.last w.whole).encode.length) := by
  have hapart := apart_entry (d := d) h e
  by_cases hnot : ∀ p ∈ w.previous, p.window ≠ w.windowFor (e.record w.whole)
  · refine ⟨[], ?_, fun _ => .inl hnot, fun _ => rfl⟩
    cases e with
    | append r => cases hcontrol
    | gap => exact (appendCounted_open h hok hnot).2
    | clockOffset => exact (appendCounted_open h hok hnot).2
    | sessionStart localTs => exact sessionStart_open h hok hnot
  · obtain ⟨p, hp, hwindow⟩ : ∃ p, w.previous = some p ∧
        p.window = w.windowFor (e.record w.whole) := by
      push Not at hnot
      exact hnot
    -- the last record the call writes goes through that window's buffer
    have hlast : ∃ p', (e.buffered w d).1.previous = some p' ∧
        p'.window = w.windowFor (e.record w.whole) ∧ ∃ file : BufWriter UInt8 bufferSize,
          p'.file.buf = (file.writeAll (e.last w.whole).encode).1.buf := by
      cases e with
      | append r => cases hcontrol
      | gap =>
        obtain ⟨p', hp', hsame, hbuf⟩ := appendCounted_previous hok hp hwindow
        exact ⟨p', hp', hsame, p.file, hbuf⟩
      | clockOffset =>
        obtain ⟨p', hp', hsame, hbuf⟩ := appendCounted_previous hok hp hwindow
        exact ⟨p', hp', hsame, p.file, hbuf⟩
      | sessionStart localTs => exact sessionStart_previous hok hp hwindow
    obtain ⟨p', hp', hsame, file, hbuf⟩ := hlast
    refine ⟨p'.file.buf, hsame ▸ bufferOf_previous hapart hp', ?_⟩
    rw [hbuf, BufWriter.buf_writeAll_eq_nil _ _ (encode_ne_nil _)]
    simp only [hnot, false_or]

/-- **A control record is in its file when the call returns** if and only if it does not belong to
the window that waits for late records, or the last record written is as long as that window's
buffer. -/
theorem flushed_iff {c : Settings} {d₀ : Disk} (h : Reached c d₀ w d) (e : Entry)
    (hcontrol : e.IsControl = true) (hok : (e.buffered w d).2.2 = .ok done) :
    OnDisk (e.buffered w d).1 (e.buffered w d).2.1 (w.windowFor (e.record w.whole))
        (e.record w.whole) ↔
      (∀ p ∈ w.previous, p.window ≠ w.windowFor (e.record w.whole)) ∨
        bufferSize ≤ (e.last w.whole).encode.length := by
  obtain ⟨buf, hbuffer, hiff⟩ := bufferOf_entry h.apart hcontrol hok
  have hentry := whole_entry (d := d) h.apart e
  have hok' : (e.run w.whole (w.written d)).2.2 = .ok done := by
    rw [← hentry]
    exact hok
  have hfiles := Entry.files_run e hok'
  rw [← hentry] at hfiles
  rw [← hiff]
  exact onDisk_iff hbuffer hfiles

/-- A writer with a message of the first day. -/
def beforeMidnight : Buffered (Option SealedDay) :=
  (Entry.append message).buffered (new daily) emptyDisk

/-- And one of the day after: the first day waits for late records. -/
def afterMidnight : Buffered (Option SealedDay) :=
  (Entry.append CaptureWriter.nextDay).buffered beforeMidnight.1 beforeMidnight.2.1

/-- A clock offset that is stamped before midnight. -/
def lateOffset : Entry := .clockOffset 7 0 0

theorem reached_afterMidnight : Reached daily emptyDisk afterMidnight.1 afterMidnight.2.1 := by
  have hfirst : beforeMidnight.2.2 = .ok none := rfl
  have hsecond : afterMidnight.2.2 = .ok none := rfl
  have hbefore : Reached daily emptyDisk beforeMidnight.1 beforeMidnight.2.1 :=
    Reached.new.entry (.append message) (by
      rw [← beforeMidnight, hfirst]
      exact nofun)
  exact hbefore.entry (.append CaptureWriter.nextDay) (by
    rw [← afterMidnight, hsecond]
    exact nofun)

/-- **A marker that is not in its file**: it belongs to the day that waits, and that day's buffer is
not flushed. -/
theorem flushed_fails : Reached daily emptyDisk afterMidnight.1 afterMidnight.2.1 ∧
    (lateOffset.buffered afterMidnight.1 afterMidnight.2.1).2.2 = .ok none ∧
    ¬ OnDisk (lateOffset.buffered afterMidnight.1 afterMidnight.2.1).1
      (lateOffset.buffered afterMidnight.1 afterMidnight.2.1).2.1
      (afterMidnight.1.windowFor (lateOffset.record afterMidnight.1.whole))
      (lateOffset.record afterMidnight.1.whole) := by
  have hok : (lateOffset.buffered afterMidnight.1 afterMidnight.2.1).2.2 = .ok none := rfl
  refine ⟨reached_afterMidnight, hok, fun hdisk => ?_⟩
  obtain ⟨buf, hbuffer, hiff⟩ :=
    bufferOf_entry reached_afterMidnight.apart (e := lateOffset) rfl hok
  rcases hiff.mp (hdisk.1 buf hbuffer) with hother | hlong
  · obtain ⟨p, hp, hwindow⟩ : ∃ p, afterMidnight.1.previous = some p ∧ p.window = ⟨0, none⟩ :=
      ⟨_, rfl, rfl⟩
    exact hother p hp (hwindow.trans rfl)
  · have hlength := (Framed.mk true (lateOffset.last afterMidnight.1.whole)).length_bytes
    have hbytes : (Framed.mk true (lateOffset.last afterMidnight.1.whole)).bytes =
      (lateOffset.last afterMidnight.1.whole).encode := rfl
    rw [← hbytes, hlength] at hlong
    exact absurd hlong (by decide)

/-- The same offset stamped after midnight is in its file. -/
theorem flushed_iff_afterMidnight :
    OnDisk ((Entry.clockOffset 86400000000000 0 0).buffered afterMidnight.1 afterMidnight.2.1).1
      ((Entry.clockOffset 86400000000000 0 0).buffered afterMidnight.1 afterMidnight.2.1).2.1
      (afterMidnight.1.windowFor
        ((Entry.clockOffset 86400000000000 0 0).record afterMidnight.1.whole))
      ((Entry.clockOffset 86400000000000 0 0).record afterMidnight.1.whole) := by
  have hok : ((Entry.clockOffset 86400000000000 0 0).buffered afterMidnight.1
      afterMidnight.2.1).2.2 = .ok none := rfl
  refine (flushed_iff reached_afterMidnight _ rfl hok).mpr (.inl fun p hp => ?_)
  obtain ⟨p', hp', hwindow⟩ : ∃ p, afterMidnight.1.previous = some p ∧ p.window = ⟨0, none⟩ :=
    ⟨_, rfl, rfl⟩
  obtain rfl := Option.some.inj (hp'.symm.trans hp)
  rw [hwindow]
  decide

end BufferedWriter

end Capture
