/-
# The writer behind its buffers (`oq-l2feed/src/writer.rs`)

Every open file has a buffer in front of it.  What is written reaches the file when the buffer
runs over, when it is flushed, and when the window is sealed; a flush is of the open window.
With what is still buffered behind the files this writer is the writer that has none
(`whole_step`).  A control record of the open window is flushed, one of the window that waits
for late records is not (`flushed_iff`).
-/
import OpenQuanter.BufWriter
import OpenQuanter.SealedWindows

namespace Capture

/-- The capacity of the buffer in front of a capture file. -/
def bufferSize : Nat := 1048576

/-- A window that is open, and the buffer in front of its file. -/
structure BufferedDay extends OpenDay where
  file : BufWriter UInt8 bufferSize

/-- Appends framed records, rotating by window. -/
structure BufferedWriter extends Settings where
  open_ : Option BufferedDay
  previous : Option BufferedDay

/-- What a call leaves, with only what reached the files in them, and what it returns. -/
abbrev Buffered (α : Type) := BufferedWriter × Disk × Except Stop α

namespace BufferedDay

variable (day : BufferedDay) (d : Disk)

/-- Write to the file, through the buffer. -/
def write (bytes : List UInt8) : BufferedDay × Disk :=
  let (file, out) := day.file.writeAll bytes
  ({ day with file := file }, d.write day.window out)

/-- Send out what is buffered. -/
def flush : BufferedDay × Disk :=
  let (file, out) := day.file.flush
  ({ day with file := file }, d.write day.window out)

/-- Count a record. -/
def observe (r : Record) : BufferedDay := { day with builder := day.builder.observe r }

end BufferedDay

namespace BufferedWriter

/-- A writer that has nothing open. -/
def new (c : Settings) : BufferedWriter := { c with open_ := none, previous := none }

variable (w : BufferedWriter) (d : Disk)

/-- Flush a window that is done, and write the manifest of what is in its file. -/
def sealDay (day : BufferedDay) : Disk × SealedDay :=
  let (day, d) := day.flush d
  let manifest := day.builder.build w.stream day.window w.software ((d.files day.window).getD [])
  (d.setManifest day.window (some manifest), ⟨day.window, manifest⟩)

/-- Seal the window kept open for late arrivals, if there is one. -/
def sealPrevious : BufferedWriter × Disk × Option SealedDay :=
  match w.previous with
  | none => (w, d, none)
  | some day => ({ w with previous := none }, (w.sealDay d day).1, some (w.sealDay d day).2)

/-- Open a window: count what is there, cut a torn tail off, and drop the manifest. -/
def openWindow (window : Window) : Buffered Unit :=
  match scanExisting (d.files window) with
  | .error e => (w, d, .error (.corrupt window e))
  | .ok (builder, found) =>
    ({ w with open_ := some ⟨⟨window, builder, builder.localLast⟩, .empty⟩ },
      (d.setFile window (CaptureWriter.withoutTail ((d.files window).getD []) found)).setManifest
        window none,
      .ok ())

/-- Write a record to the open window; once it is far enough along, the previous one is done. -/
def store (window : Window) (r : Record) (done : Option SealedDay) : Buffered (Option SealedDay) :=
  match w.open_ with
  | none => (w, d, .error .panic)
  | some day =>
    let (day', d') := day.write d r.encode
    let w' := { w with open_ := some (day'.observe r) }
    let ahead := Int64.ofIntClamp (r.dayTs.toInt - window.startNanos)
    if w'.previous.isSome && decide (w.graceNs < ahead) then
      let (w'', d'', done') := w'.sealPrevious d'
      (w'', d'', .ok done')
    else (w', d', .ok done)

/-- Open a window and write a record to it. -/
def openAndStore (window : Window) (r : Record) (done : Option SealedDay) :
    Buffered (Option SealedDay) :=
  match w.openWindow d window with
  | (w', d', .error e) => (w', d', .error e)
  | (w', d', .ok ()) => w'.store d' window r done

/-- Append a record, rotating first if it belongs to a later window. -/
def append (r : Record) : Buffered (Option SealedDay) :=
  let window := w.windowFor r
  match w.previous.filter fun day => day.window = window with
  | some day =>
    let (day', d') := day.write d r.encode
    ({ w with previous := some (day'.observe r) }, d', .ok none)
  | none =>
    match w.open_ with
    | none => w.openAndStore d window r none
    | some day =>
      if day.window = window then w.store d window r none
      else if window.before day.window then (w, d, .error (.late window day.window))
      else
        let (w', d', done) := w.sealPrevious d
        { w' with previous := some day, open_ := none }.openAndStore d' window r done

/-- Flush buffered bytes of the open window. -/
def flush : BufferedWriter × Disk :=
  match w.open_ with
  | none => (w, d)
  | some day =>
    let (day', d') := day.flush d
    ({ w with open_ := some day' }, d')

/-- Count something in the manifest of the file a record of `window` was written to. -/
def countAt (window : Window) (count : ManifestBuilder → Option ManifestBuilder) :
    Option BufferedWriter :=
  match w.previous.filter fun day => day.window = window with
  | some day =>
    (count day.builder).map fun b => { w with previous := some { day with builder := b } }
  | none =>
    match w.open_.filter fun day => day.window = window with
    | some day =>
      (count day.builder).map fun b => { w with open_ := some { day with builder := b } }
    | none => some w

/-- Append a control record, count what it says, and flush. -/
def appendCounted (r : Record) (count : ManifestBuilder → Option ManifestBuilder) :
    Buffered (Option SealedDay) :=
  match w.append d r with
  | (w', d', .error e) => (w', d', .error e)
  | (w', d', .ok done) =>
    match w'.countAt (w.windowFor r) count with
    | none => (w', d', .error .panic)
    | some counted =>
      let (w'', d'') := counted.flush d'
      (w'', d'', .ok done)

/-- Record a feed gap. -/
def appendGap (localTs : Int64) (reason : Text) (lastSeq : Option UInt64) (outageNs : Int64) :
    Buffered (Option SealedDay) :=
  w.appendCounted d (CaptureWriter.gapRecord localTs reason lastSeq outageNs)
    (·.observeGap outageNs)

/-- Record a clock offset estimate. -/
def appendClockOffset (localTs offsetNs dispersionNs : Int64) : Buffered (Option SealedDay) :=
  w.appendCounted d (.control localTs (Text.utf8 (Control.clockOffset offsetNs dispersionNs)))
    (·.observeClockOffset offsetNs)

/-- The record a session starts with. -/
def sessionRecord (localTs : Int64) : Record :=
  .control localTs (Text.utf8 (Control.sessionStart w.software.version w.stream.venue
    w.stream.symbol w.stream.stream))

/-- What the open window was resumed after is asked for once. -/
def takeResumed : BufferedWriter :=
  { w with open_ := w.open_.map fun day => { day with resumedAfter := none } }

/-- Record the start of a session, and flush.  In a window that already held records the silence
before it is a gap. -/
def appendSessionStart (localTs : Int64) : Buffered (Option SealedDay) :=
  match w.append d (w.sessionRecord localTs) with
  | (w', d', .error e) => (w', d', .error e)
  | (w', d', .ok done) =>
    match w'.open_.bind (·.resumedAfter) with
    | none =>
      let (w'', d'') := w'.flush d'
      (w'', d'', .ok done)
    | some last =>
      let outage := satSub localTs last
      if 0 < outage then
        match w'.takeResumed.appendGap d' localTs CaptureWriter.restarted none outage with
        | (w'', d'', .error e) => (w'', d'', .error e)
        | (w₁, d₁, .ok s) =>
          let (w'', d'') := w₁.flush d₁
          (w'', d'', .ok (s.or done))
      else
        let (w'', d'') := w'.takeResumed.flush d'
        (w'', d'', .ok done)

/-- Close the current window, and the one before it. -/
def seal_ : Buffered SealedDay :=
  let (w', d', _) := w.sealPrevious d
  match w'.open_ with
  | none => (w', d', .error .noDay)
  | some day => ({ w' with open_ := none }, (w'.sealDay d' day).1, .ok (w'.sealDay d' day).2)

/-! ## With what is buffered behind the files -/

/-- The windows that are open are two. -/
def Apart : Prop := ∀ o ∈ w.open_, ∀ p ∈ w.previous, p.window ≠ o.window

/-- What is buffered of a window, if it is open. -/
def bufferOf (window : Window) : Option (List UInt8) :=
  ((w.open_.filter fun day => day.window = window).or
    (w.previous.filter fun day => day.window = window)).map fun day => day.file.buf

/-- The writer without its buffers. -/
def whole : CaptureWriter where
  toSettings := w.toSettings
  open_ := w.open_.map fun day => day.toOpenDay
  previous := w.previous.map fun day => day.toOpenDay

/-- The archive with all that was written. -/
def written : Disk :=
  { d with files := fun window =>
      match w.bufferOf window with
      | none => d.files window
      | some buf => some ((d.files window).getD [] ++ buf) }

end BufferedWriter

/-- A call's outcome with all that was written. -/
def Buffered.whole {α : Type} (o : Buffered α) : Outcome α := (o.1.whole, o.1.written o.2.1, o.2.2)

theorem Disk.ext_files {d d' : Disk} (hmanifests : d.manifests = d'.manifests)
    (hfiles : ∀ window, d.files window = d'.files window) : d = d' := by
  obtain ⟨files, manifests⟩ := d
  obtain ⟨files', manifests'⟩ := d'
  obtain rfl : files = files' := funext hfiles
  obtain rfl : manifests = manifests' := hmanifests
  rfl

namespace BufferedWriter

variable {w : BufferedWriter} {d : Disk}

theorem bufferOf_open {o : BufferedDay} (ho : w.open_ = some o) :
    w.bufferOf o.window = some o.file.buf := by
  simp [bufferOf, ho, Option.filter_some]

theorem bufferOf_of_not_open {window : Window} (h : ∀ o ∈ w.open_, o.window ≠ window) :
    w.bufferOf window =
      (w.previous.filter fun day => day.window = window).map fun day => day.file.buf := by
  have hfilter : (w.open_.filter fun day => day.window = window) = none := by
    rw [Option.filter_eq_none_iff]
    exact fun o ho => by simpa using h o ho
  rw [bufferOf, hfilter, Option.none_or]

theorem bufferOf_previous {p : BufferedDay} (h : w.Apart) (hp : w.previous = some p) :
    w.bufferOf p.window = some p.file.buf := by
  rw [bufferOf_of_not_open fun o ho => (h o ho p hp).symm, hp]
  simp [Option.filter_some]

/-- What is buffered depends on the windows and their buffers. -/
theorem bufferOf_congr {w' : BufferedWriter} {window : Window}
    (hopen : (w'.open_.map fun day => (day.window, day.file.buf)) =
      w.open_.map fun day => (day.window, day.file.buf))
    (hprevious : (w'.previous.map fun day => (day.window, day.file.buf)) =
      w.previous.map fun day => (day.window, day.file.buf)) :
    w'.bufferOf window = w.bufferOf window := by
  have hkey : ∀ o o' : Option BufferedDay, (o.map fun day => (day.window, day.file.buf)) =
      (o'.map fun day => (day.window, day.file.buf)) →
      ((o.filter fun day => day.window = window).map fun day => day.file.buf) =
        (o'.filter fun day => day.window = window).map fun day => day.file.buf := by
    intro o o' h
    cases o with
    | none =>
      cases o' with
      | none => rfl
      | some b => exact absurd h (Option.some_ne_none _).symm
    | some a =>
      cases o' with
      | none => exact absurd h (Option.some_ne_none _)
      | some b =>
        obtain ⟨hwindow, hbuf⟩ := Prod.mk.inj (Option.some.inj h)
        by_cases hsame : a.window = window
        · simp [Option.filter_some, hsame, ← hwindow, hbuf]
        · simp [Option.filter_some, hsame, ← hwindow]
  simp only [bufferOf, Option.map_or, hkey _ _ hopen, hkey _ _ hprevious]

/-- Sending out a part of what is buffered and written of the open window. -/
theorem written_open {day : BufferedDay} (hopen : w.open_ = some day) (day' : BufferedDay)
    (hwindow : day'.window = day.window) (out bytes : List UInt8)
    (hsent : out ++ day'.file.buf = day.file.buf ++ bytes) :
    BufferedWriter.written { w with open_ := some day' } (d.write day.window out) =
      (w.written d).write day.window bytes := by
  refine Disk.ext_files rfl fun window => ?_
  by_cases hsame : window = day.window
  · subst hsame
    have hbuffer := bufferOf_open (w := { w with open_ := some day' }) rfl
    rw [hwindow] at hbuffer
    simp only [written, hbuffer, bufferOf_open hopen, Disk.write, Disk.setFile,
      Function.update_self, Option.getD_some]
    rw [List.append_assoc, hsent, List.append_assoc]
  · have hbuffer : BufferedWriter.bufferOf { w with open_ := some day' } window =
        w.bufferOf window := by
      rw [bufferOf_of_not_open, bufferOf_of_not_open]
      · rintro o ho rfl
        exact hsame (congrArg (fun day : BufferedDay => day.window)
          (Option.some.inj (Eq.trans (Eq.symm ho) hopen)))
      · rintro o ho rfl
        obtain rfl := Option.some.inj ho
        exact hsame hwindow
    simp only [written, hbuffer, Disk.write, Disk.setFile, Function.update_of_ne hsame]

/-- And of the window that waits. -/
theorem written_previous {day : BufferedDay} (h : w.Apart) (hprevious : w.previous = some day)
    (day' : BufferedDay) (hwindow : day'.window = day.window) (out bytes : List UInt8)
    (hsent : out ++ day'.file.buf = day.file.buf ++ bytes) :
    BufferedWriter.written { w with previous := some day' } (d.write day.window out) =
      (w.written d).write day.window bytes := by
  have hapart : BufferedWriter.Apart { w with previous := some day' } := by
    intro o ho p hp
    obtain rfl := Option.some.inj hp
    rw [hwindow]
    exact h o ho day hprevious
  refine Disk.ext_files rfl fun window => ?_
  by_cases hsame : window = day.window
  · subst hsame
    have hbuffer := bufferOf_previous hapart rfl
    rw [hwindow] at hbuffer
    simp only [written, hbuffer, bufferOf_previous h hprevious, Disk.write, Disk.setFile,
      Function.update_self, Option.getD_some]
    rw [List.append_assoc, hsent, List.append_assoc]
  · have hbuffer : BufferedWriter.bufferOf { w with previous := some day' } window =
        w.bufferOf window := by
      have hfilter : ∀ p : BufferedDay, p.window ≠ window →
          ((some p).filter fun day => decide (day.window = window)) = none := by
        intro p hp
        simp [Option.filter_some, hp]
      simp only [bufferOf, hprevious, hfilter day (Ne.symm hsame),
        hfilter day' (by rw [hwindow]; exact Ne.symm hsame)]
    simp only [written, hbuffer, Disk.write, Disk.setFile, Function.update_of_ne hsame]

/-- A window that is sealed is flushed first, so its digest is of all that was written. -/
theorem sealDay_snd {day : BufferedDay} (h : w.bufferOf day.window = some day.file.buf) :
    (w.sealDay d day).2 = (w.whole.sealDay (w.written d) day.toOpenDay).2 := by
  simp only [sealDay, CaptureWriter.sealDay, BufferedDay.flush, BufWriter.flush_snd, Disk.write,
    Disk.setFile, Function.update_self, Option.getD_some, written, h]
  rfl

theorem sealDay_fst {day : BufferedDay} :
    (w.sealDay d day).1 = (d.write day.window day.file.buf).setManifest day.window
      (some (w.sealDay d day).2.manifest) := rfl

/-- A window that is not held any more has all that was written to it in its file. -/
theorem written_close {w' : BufferedWriter} {day : BufferedDay} (m : Option Manifest)
    (h : w.bufferOf day.window = some day.file.buf) (hgone : w'.bufferOf day.window = none)
    (hkept : ∀ window, window ≠ day.window → w'.bufferOf window = w.bufferOf window) :
    w'.written ((d.write day.window day.file.buf).setManifest day.window m) =
      (w.written d).setManifest day.window m := by
  refine Disk.ext_files rfl fun window => ?_
  by_cases hsame : window = day.window
  · subst hsame
    simp only [written, hgone, h, Disk.setManifest, Disk.write, Disk.setFile, Function.update_self]
  · simp only [written, hkept window hsame, Disk.setManifest, Disk.write, Disk.setFile,
      Function.update_of_ne hsame]

/-- **Sealing** the window that waits. -/
theorem whole_sealPrevious (h : w.Apart) :
    ((w.sealPrevious d).1.whole, (w.sealPrevious d).1.written (w.sealPrevious d).2.1,
      (w.sealPrevious d).2.2) = w.whole.sealPrevious (w.written d) := by
  unfold sealPrevious CaptureWriter.sealPrevious
  cases hp : w.previous with
  | none =>
    have hnone : w.whole.previous = none := by rw [whole, hp]; rfl
    rw [hnone]
  | some p =>
    have hsome : w.whole.previous = some p.toOpenDay := by rw [whole, hp]; rfl
    have hbuffer := bufferOf_previous h hp
    rw [hsome]
    simp only [← sealDay_snd hbuffer, Prod.mk.injEq, and_true]
    refine ⟨rfl, ?_⟩
    have hother : ∀ o ∈ w.open_, o.window ≠ p.window := fun o ho => (h o ho p hp).symm
    rw [sealDay_fst, written_close _ hbuffer]
    · simp only [CaptureWriter.sealDay, sealDay_snd hbuffer]
    · exact bufferOf_of_not_open (w := { w with previous := none }) hother
    · intro window hne
      have hfilter : ((some p).filter fun day => decide (day.window = window)) = none := by
        simp [Option.filter_some, Ne.symm hne]
      simp only [bufferOf, hp, hfilter, Option.filter_none]

/-- **Flushing** changes nothing of what was written. -/
theorem whole_flush (w : BufferedWriter) (d : Disk) :
    (w.flush d).1.whole = w.whole ∧ (w.flush d).1.written (w.flush d).2 = w.written d := by
  unfold flush
  cases hopen : w.open_ with
  | none => exact ⟨rfl, rfl⟩
  | some day =>
    refine ⟨by simp [whole, hopen, BufferedDay.flush], ?_⟩
    have hsent := written_open (d := d) hopen (day.flush d).1 rfl day.file.buf [] rfl
    refine hsent.trans (Disk.ext_files rfl fun window => ?_)
    by_cases hsame : window = day.window
    · subst hsame
      simp only [Disk.write, Disk.setFile, Function.update_self, written, bufferOf_open hopen,
        Option.getD_some, List.append_nil]
    · simp only [Disk.write, Disk.setFile, Function.update_of_ne hsame]

/-! ## The calls -/

/-- **Writing to the open window.** -/
theorem whole_store (h : w.Apart) (window : Window) (r : Record) (done : Option SealedDay) :
    Buffered.whole (w.store d window r done) = w.whole.store (w.written d) window r done := by
  unfold store CaptureWriter.store
  cases hopen : w.open_ with
  | none =>
    have hnone : w.whole.open_ = none := by rw [whole, hopen]; rfl
    rw [hnone]
    rfl
  | some day =>
    have hsome : w.whole.open_ = some day.toOpenDay := by rw [whole, hopen]; rfl
    have hwritten := written_open (d := d) hopen ((day.write d r.encode).1.observe r) rfl
      (day.file.writeAll r.encode).2 r.encode (BufWriter.writeAll_append ..)
    have hapart : BufferedWriter.Apart
        { w with open_ := some ((day.write d r.encode).1.observe r) } := by
      intro o ho p hp
      obtain rfl := Option.some.inj ho
      exact h day hopen p hp
    have hprevious : w.whole.previous.isSome = w.previous.isSome := Option.isSome_map ..
    have hsealed := whole_sealPrevious (d := (day.write d r.encode).2) hapart
    have hgrace : w.whole.graceNs = w.graceNs := rfl
    rw [hsome]
    simp only [hprevious, hgrace]
    by_cases hseals : (w.previous.isSome && decide (w.graceNs <
        Int64.ofIntClamp (r.dayTs.toInt - window.startNanos))) = true
    · rw [if_pos hseals, if_pos hseals]
      refine Eq.trans (congrArg (fun o => (o.1, o.2.1, Except.ok o.2.2)) hsealed) ?_
      rw [show BufferedWriter.written _ (day.write d r.encode).2 = _ from hwritten]
      rfl
    · rw [if_neg hseals, if_neg hseals]
      exact Prod.ext rfl (Prod.ext hwritten rfl)

/-- Sealing leaves the open window open, and nothing waits after it. -/
theorem sealPrevious_same (w : BufferedWriter) (d : Disk) :
    (w.sealPrevious d).1.toSettings = w.toSettings ∧ (w.sealPrevious d).1.open_ = w.open_ ∧
      (w.sealPrevious d).1.previous = none := by
  unfold sealPrevious
  cases hp : w.previous with
  | none => exact ⟨rfl, rfl, hp⟩
  | some p => exact ⟨rfl, rfl, rfl⟩

/-- A window that is not held is read from its file. -/
theorem files_written_of_not_held {window : Window} (hopen : ∀ o ∈ w.open_, o.window ≠ window)
    (hprevious : ∀ p ∈ w.previous, p.window ≠ window) :
    (w.written d).files window = d.files window := by
  have hfilter : (w.previous.filter fun day => day.window = window) = none := by
    rw [Option.filter_eq_none_iff]
    exact fun p hp => by simpa using hprevious p hp
  simp only [written, bufferOf_of_not_open hopen, hfilter, Option.map_none]

/-- **Opening a window** and writing to it. -/
theorem whole_openAndStore {window : Window} (hopen : w.open_ = none)
    (hprevious : ∀ p ∈ w.previous, p.window ≠ window) (r : Record) (done : Option SealedDay) :
    Buffered.whole (w.openAndStore d window r done) =
      w.whole.openAndStore (w.written d) window r done := by
  have hclosed : ∀ o ∈ w.open_, o.window ≠ window := fun o ho => by
    cases hopen.symm.trans ho
  have hfile := files_written_of_not_held (d := d) hclosed hprevious
  unfold openAndStore CaptureWriter.openAndStore openWindow CaptureWriter.openWindow
  rw [hfile]
  cases hscan : scanExisting (d.files window) with
  | error e => rfl
  | ok step =>
    obtain ⟨b, found⟩ := step
    have hapart : BufferedWriter.Apart
        { w with open_ := some ⟨⟨window, b, b.localLast⟩, .empty⟩ } := by
      intro o ho p hp
      obtain rfl := Option.some.inj ho
      exact hprevious p hp
    refine (whole_store hapart window r done).trans ?_
    congr 1
    refine Disk.ext_files rfl fun other => ?_
    by_cases hsame : other = window
    · subst hsame
      have hbuffer := bufferOf_open
        (w := { w with open_ := some ⟨⟨other, b, b.localLast⟩, .empty⟩ }) rfl
      simp only [written, hbuffer, Disk.setManifest, Disk.setFile, Function.update_self,
        Option.getD_some, BufWriter.buf_empty, List.append_nil]
    · have hbuffer : BufferedWriter.bufferOf
          { w with open_ := some ⟨⟨window, b, b.localLast⟩, .empty⟩ } other = w.bufferOf other := by
        rw [bufferOf_of_not_open, bufferOf_of_not_open]
        · exact fun o ho => by cases Eq.trans (Eq.symm ho) hopen
        · rintro o ho rfl
          obtain rfl := Option.some.inj ho
          exact hsame rfl
      simp only [written, hbuffer, Disk.setManifest, Disk.setFile, Function.update_of_ne hsame]

/-- **An append** is the append of the writer without buffers. -/
theorem whole_append (h : w.Apart) (r : Record) :
    Buffered.whole (w.append d r) = w.whole.append (w.written d) r := by
  have hfilter : (w.whole.previous.filter fun day => day.window = w.windowFor r) =
      (w.previous.filter fun day => day.window = w.windowFor r).map fun day => day.toOpenDay := by
    rw [whole]
    simp only
    cases w.previous with
    | none => rfl
    | some p => by_cases hsame : p.window = w.windowFor r <;> simp [Option.filter_some, hsame]
  have hwindow : w.whole.windowFor r = w.windowFor r := rfl
  unfold append CaptureWriter.append
  simp only [hwindow, hfilter]
  cases hlate : w.previous.filter fun day => day.window = w.windowFor r with
  | some day =>
    obtain ⟨hp, hday⟩ := Option.filter_eq_some_iff.mp hlate
    have hwritten := written_previous (d := d) h hp ((day.write d r.encode).1.observe r) rfl
      (day.file.writeAll r.encode).2 r.encode (BufWriter.writeAll_append ..)
    rw [of_decide_eq_true hday] at hwritten
    exact Prod.ext rfl (Prod.ext (by
      refine Eq.trans ?_ hwritten
      rw [← of_decide_eq_true hday]
      rfl) rfl)
  | none =>
    have hprevious : ∀ p ∈ w.previous, p.window ≠ w.windowFor r := by
      intro p hp heq
      rw [hp, Option.filter_some, if_pos (decide_eq_true heq)] at hlate
      cases hlate
    cases hopen : w.open_ with
    | none =>
      have hnone : w.whole.open_ = none := by rw [whole, hopen]; rfl
      simp only [hnone, Option.map_none]
      exact whole_openAndStore hopen hprevious r none
    | some day =>
      have hsome : w.whole.open_ = some day.toOpenDay := by rw [whole, hopen]; rfl
      simp only [hsome, Option.map_none]
      by_cases hsame : day.window = w.windowFor r
      · rw [if_pos hsame, if_pos hsame]
        exact whole_store h _ r none
      rw [if_neg hsame, if_neg hsame]
      by_cases hearlier : (w.windowFor r).before day.window = true
      · rw [if_pos hearlier, if_pos hearlier]
        rfl
      rw [if_neg hearlier, if_neg hearlier]
      -- the open window waits with its buffer
      have hsealed := whole_sealPrevious (d := d) h
      obtain ⟨-, hkept, hgone⟩ := sealPrevious_same w d
      rw [← hsealed]
      generalize w.sealPrevious d = o at hkept hgone ⊢
      obtain ⟨w', d', done⟩ := o
      simp only at hkept hgone ⊢
      have hwritten : BufferedWriter.written { w' with previous := some day, open_ := none } d' =
          w'.written d' := by
        have hbuffer : ∀ window, BufferedWriter.bufferOf
            { w' with previous := some day, open_ := none } window = w'.bufferOf window := by
          intro window
          simp only [bufferOf, hkept, hopen, hgone, Option.filter_none, Option.none_or,
            Option.or_none]
        simp only [written, hbuffer]
      rw [← hwritten]
      refine whole_openAndStore rfl (fun p hp => ?_) r done
      obtain rfl := Option.some.inj hp
      exact hsame

theorem whole_countAt (w : BufferedWriter) (window : Window)
    (count : ManifestBuilder → Option ManifestBuilder) :
    (w.countAt window count).map BufferedWriter.whole = w.whole.countAt window count := by
  have hfilter : ∀ o : Option BufferedDay,
      ((o.map fun day => day.toOpenDay).filter fun day => day.window = window) =
        (o.filter fun day => day.window = window).map fun day => day.toOpenDay := by
    intro o
    cases o with
    | none => rfl
    | some p => by_cases hsame : p.window = window <;> simp [Option.filter_some, hsame]
  unfold countAt CaptureWriter.countAt whole
  simp only [hfilter]
  cases hprevious : w.previous.filter fun day => day.window = window with
  | some day =>
    simp only [Option.map_some, Option.map_map]
    rfl
  | none =>
    simp only [Option.map_none]
    cases hopen : w.open_.filter fun day => day.window = window with
    | some day =>
      simp only [Option.map_some, Option.map_map]
      rfl
    | none => rfl

/-- Counting leaves the windows and their buffers as they are. -/
theorem countAt_same {w' : BufferedWriter} {window : Window}
    {count : ManifestBuilder → Option ManifestBuilder} (h : w.countAt window count = some w') :
    (w'.open_.map fun day => (day.window, day.file.buf)) =
        (w.open_.map fun day => (day.window, day.file.buf)) ∧
      (w'.previous.map fun day => (day.window, day.file.buf)) =
        w.previous.map fun day => (day.window, day.file.buf) := by
  unfold countAt at h
  cases hprevious : w.previous.filter fun day => day.window = window with
  | some p =>
    obtain ⟨hp, -⟩ := Option.filter_eq_some_iff.mp hprevious
    rw [hprevious] at h
    obtain ⟨b, -, rfl⟩ := Option.map_eq_some_iff.mp h
    exact ⟨rfl, by rw [hp]; rfl⟩
  | none =>
    rw [hprevious] at h
    cases hopen : w.open_.filter fun day => day.window = window with
    | some o =>
      obtain ⟨ho, -⟩ := Option.filter_eq_some_iff.mp hopen
      simp only [hopen] at h
      obtain ⟨b, -, rfl⟩ := Option.map_eq_some_iff.mp h
      exact ⟨by rw [ho]; rfl, rfl⟩
    | none =>
      simp only [hopen] at h
      obtain rfl := Option.some.inj h
      exact ⟨rfl, rfl⟩

theorem written_congr {w' : BufferedWriter} (h : ∀ window, w'.bufferOf window = w.bufferOf window)
    (d : Disk) : w'.written d = w.written d := by
  simp only [written, h]

/-- **A control record** is written, counted and flushed. -/
theorem whole_appendCounted (h : w.Apart) (r : Record)
    (count : ManifestBuilder → Option ManifestBuilder) :
    Buffered.whole (w.appendCounted d r count) = w.whole.appendCounted (w.written d) r count := by
  have happend := whole_append (d := d) h r
  unfold appendCounted CaptureWriter.appendCounted
  rw [← happend]
  generalize w.append d r = o
  obtain ⟨w', d', res⟩ := o
  cases res with
  | error e => rfl
  | ok done =>
    have hcount := whole_countAt w' (w.windowFor r) count
    simp only [Buffered.whole, show w.whole.windowFor r = w.windowFor r from rfl, ← hcount]
    cases hcounted : w'.countAt (w.windowFor r) count with
    | none => rfl
    | some w'' =>
      obtain ⟨hopen, hprevious⟩ := countAt_same hcounted
      obtain ⟨hwhole, hwritten⟩ := whole_flush w'' d'
      simp only [Option.map_some, hwhole, hwritten]
      rw [written_congr fun window => bufferOf_congr hopen hprevious]

theorem whole_takeResumed (w : BufferedWriter) (d : Disk) :
    w.takeResumed.whole = w.whole.takeResumed ∧ w.takeResumed.written d = w.written d := by
  have hbuffer : ∀ window, w.takeResumed.bufferOf window = w.bufferOf window :=
    fun window => bufferOf_congr (by simp [takeResumed, Option.map_map, Function.comp_def]) rfl
  refine ⟨?_, written_congr hbuffer d⟩
  simp [whole, takeResumed, CaptureWriter.takeResumed, Option.map_map, Function.comp_def]

end BufferedWriter

/-! ## Two windows -/

namespace CaptureWriter

variable {w : CaptureWriter} {d : Disk} {r : Record}

/-- The windows that are open are two. -/
def Apart (w : CaptureWriter) : Prop := ∀ o ∈ w.open_, ∀ p ∈ w.previous, p.window ≠ o.window

theorem Apart.congr {w' : CaptureWriter} (h : w.Apart)
    (hopen : w'.open_.map OpenDay.window = w.open_.map OpenDay.window)
    (hprevious : w'.previous.map OpenDay.window = w.previous.map OpenDay.window) : w'.Apart := by
  intro o ho p hp
  rw [Option.mem_def.mp ho] at hopen
  rw [Option.mem_def.mp hp] at hprevious
  obtain ⟨o', ho', hsame⟩ := Option.map_eq_some_iff.mp hopen.symm
  obtain ⟨p', hp', hsame'⟩ := Option.map_eq_some_iff.mp hprevious.symm
  rw [← hsame, ← hsame']
  exact h o' ho' p' hp'

theorem apart_append (h : w.Apart) : (w.append d r).1.Apart := by
  unfold append
  dsimp only
  cases hlate : w.previous.filter fun day => day.window = w.windowFor r with
  | some p =>
    obtain ⟨hp, -⟩ := Option.filter_eq_some_iff.mp hlate
    exact h.congr rfl (by rw [hp]; rfl)
  | none =>
    have hprevious : ∀ p ∈ w.previous, p.window ≠ w.windowFor r := by
      intro p hp heq
      rw [hp, Option.filter_some, if_pos (decide_eq_true heq)] at hlate
      cases hlate
    -- what is written to, or opened and written to, is the window of the record
    have hopened : ∀ (w₁ : CaptureWriter) (d₁ : Disk) (done : Option SealedDay), w₁.open_ = none →
        (∀ p ∈ w₁.previous, p.window ≠ w.windowFor r) →
        (w₁.openAndStore d₁ (w.windowFor r) r done).1.Apart := by
      intro w₁ d₁ done hclosed hother
      rcases openAndStore_cases (w := w₁) (d := d₁) (r := r) (w.windowFor r) done with
        ⟨e, -, heq⟩ | ⟨b, found, w', d', done', -, heq, -, -, hopen, hdays⟩
      · rw [heq]
        exact fun o ho => nomatch hclosed.symm.trans ho
      · rw [heq]
        intro o ho p hp
        rw [Option.mem_def.mp ho] at hopen
        rw [Option.some.inj hopen]
        exact hother p (hdays p hp)
    cases hopen : w.open_ with
    | none => exact hopened w d none hopen hprevious
    | some day =>
      simp only
      by_cases hsame : day.window = w.windowFor r
      · obtain ⟨w', d', done', heq, -, -, hnow, hdays⟩ :=
          store_of_open (d := d) (r := r) hopen (w.windowFor r) none
        rw [if_pos hsame, heq]
        intro o ho p hp
        obtain rfl := Option.some.inj (hnow.symm.trans ho)
        exact h day hopen p (hdays p hp)
      rw [if_neg hsame]
      split
      · exact h
      · refine hopened _ _ _ rfl fun p hp => ?_
        obtain rfl := Option.some.inj hp
        exact hsame

theorem apart_appendCounted (h : w.Apart) (count : ManifestBuilder → Option ManifestBuilder) :
    (w.appendCounted d r count).1.Apart := by
  have happend := apart_append (d := d) (r := r) h
  unfold appendCounted
  generalize w.append d r = o at happend ⊢
  obtain ⟨w', d', res⟩ := o
  cases res with
  | error e => exact happend
  | ok done =>
    simp only at happend ⊢
    cases hcounted : w'.countAt (w.windowFor r) count with
    | none => exact happend
    | some w'' =>
      obtain ⟨-, hopen, hprevious⟩ := countAt_same hcounted
      exact happend.congr hopen hprevious

theorem apart_takeResumed (h : w.Apart) : w.takeResumed.Apart :=
  h.congr (by simp [takeResumed, Option.map_map, Function.comp_def]) rfl

theorem apart_appendSessionStart (h : w.Apart) (localTs : Int64) :
    (w.appendSessionStart d localTs).1.Apart := by
  have happend := apart_append (d := d) (r := w.sessionRecord localTs) h
  unfold appendSessionStart
  generalize w.append d (w.sessionRecord localTs) = o at happend ⊢
  obtain ⟨w', d', res⟩ := o
  cases res with
  | error e => exact happend
  | ok done =>
    simp only at happend ⊢
    split
    · exact happend
    · rename_i last hlast
      split
      · have hgap := apart_appendCounted (d := d')
          (r := gapRecord localTs restarted none (satSub localTs last))
          (apart_takeResumed happend) (·.observeGap (satSub localTs last))
        rw [appendGap]
        generalize appendCounted _ _ _ _ = o at hgap ⊢
        obtain ⟨w'', d'', res⟩ := o
        cases res with
        | error e => exact hgap
        | ok s => cases s <;> exact hgap
      · exact apart_takeResumed happend

end CaptureWriter

namespace Entry

variable {w : CaptureWriter} {d : Disk}

theorem apart_run (e : Entry) (h : w.Apart) : (e.run w d).1.Apart := by
  cases e with
  | append r => exact CaptureWriter.apart_append h
  | gap localTs reason lastSeq outageNs => exact CaptureWriter.apart_appendCounted h _
  | clockOffset localTs offsetNs dispersionNs => exact CaptureWriter.apart_appendCounted h _
  | sessionStart localTs => exact CaptureWriter.apart_appendSessionStart h localTs

/-- The call of the writer behind its buffers. -/
def buffered (w : BufferedWriter) (d : Disk) : Entry → Buffered (Option SealedDay)
  | append r => w.append d r
  | gap localTs reason lastSeq outageNs => w.appendGap d localTs reason lastSeq outageNs
  | clockOffset localTs offsetNs dispersionNs => w.appendClockOffset d localTs offsetNs dispersionNs
  | sessionStart localTs => w.appendSessionStart d localTs

end Entry

namespace BufferedWriter

variable {w : BufferedWriter} {d : Disk}

theorem apart_whole : w.whole.Apart ↔ w.Apart := by
  constructor
  · intro h o ho p hp
    have ho' : w.whole.open_ = some o.toOpenDay := by rw [whole, Option.mem_def.mp ho]; rfl
    have hp' : w.whole.previous = some p.toOpenDay := by rw [whole, Option.mem_def.mp hp]; rfl
    exact h _ ho' _ hp'
  · intro h o ho p hp
    obtain ⟨o', ho', rfl⟩ := Option.map_eq_some_iff.mp (Option.mem_def.mp ho)
    obtain ⟨p', hp', rfl⟩ := Option.map_eq_some_iff.mp (Option.mem_def.mp hp)
    exact h o' ho' p' hp'

theorem whole_appendSessionStart (h : w.Apart) (localTs : Int64) :
    Buffered.whole (w.appendSessionStart d localTs) =
      w.whole.appendSessionStart (w.written d) localTs := by
  have hrecord : w.whole.sessionRecord localTs = w.sessionRecord localTs := rfl
  have happend := whole_append (d := d) h (w.sessionRecord localTs)
  have hapart := CaptureWriter.apart_append (d := w.written d) (r := w.sessionRecord localTs)
    (apart_whole.mpr h)
  rw [← happend] at hapart
  unfold appendSessionStart CaptureWriter.appendSessionStart
  rw [hrecord, ← happend]
  generalize w.append d (w.sessionRecord localTs) = o at hapart
  obtain ⟨w', d', res⟩ := o
  cases res with
  | error e => rfl
  | ok done =>
    have hresumed : w'.whole.open_.bind OpenDay.resumedAfter =
        w'.open_.bind fun day => day.resumedAfter := by
      unfold whole
      cases w'.open_ <;> rfl
    simp only [Buffered.whole, hresumed]
    cases hlast : w'.open_.bind fun day => day.resumedAfter with
    | none =>
      obtain ⟨hwhole, hwritten⟩ := whole_flush w' d'
      simp only [hwhole, hwritten]
    | some last =>
      obtain ⟨htaken, hsame⟩ := whole_takeResumed w' d'
      simp only
      by_cases houtage : 0 < satSub localTs last
      · rw [if_pos houtage, if_pos houtage]
        have htapart : w'.takeResumed.Apart :=
          apart_whole.mp (htaken ▸ CaptureWriter.apart_takeResumed hapart)
        have hgap := whole_appendCounted (d := d') htapart
          (CaptureWriter.gapRecord localTs CaptureWriter.restarted none (satSub localTs last))
          (·.observeGap (satSub localTs last))
        rw [htaken, hsame] at hgap
        rw [CaptureWriter.appendGap, appendGap, ← hgap]
        generalize appendCounted _ _ _ _ = o
        obtain ⟨w'', d'', res⟩ := o
        cases res with
        | error e => rfl
        | ok s =>
          obtain ⟨hwhole, hwritten⟩ := whole_flush w'' d''
          cases s with
          | none => simp [Buffered.whole, hwhole, hwritten]
          | some s => simp [Buffered.whole, hwhole, hwritten]
      · rw [if_neg houtage, if_neg houtage]
        obtain ⟨hwhole, hwritten⟩ := whole_flush w'.takeResumed d'
        simp only [hwhole, hwritten, htaken, hsame]

/-- **Behind its buffers the writer is the writer without them**: each call does and returns the
same, with what is still buffered behind the files. -/
theorem whole_entry (h : w.Apart) (e : Entry) :
    Buffered.whole (e.buffered w d) = e.run w.whole (w.written d) := by
  cases e with
  | append r => exact whole_append h r
  | gap localTs reason lastSeq outageNs => exact whole_appendCounted h _ _
  | clockOffset localTs offsetNs dispersionNs => exact whole_appendCounted h _ _
  | sessionStart localTs => exact whole_appendSessionStart h localTs

/-! ## States -/

/-- The states of a writer that was set up over an archive: calls that did not end the process,
flushes (and syncs, which flush), and windows sealed on the way. -/
inductive Reached (c : Settings) (d₀ : Disk) : BufferedWriter → Disk → Prop where
  | new : Reached c d₀ (new c) d₀
  | entry {w : BufferedWriter} {d : Disk} (h : Reached c d₀ w d) (e : Entry)
      (hlives : (e.buffered w d).2.2 ≠ .error .panic) :
      Reached c d₀ (e.buffered w d).1 (e.buffered w d).2.1
  | flush {w : BufferedWriter} {d : Disk} (h : Reached c d₀ w d) :
      Reached c d₀ (w.flush d).1 (w.flush d).2
  | seal_ {w : BufferedWriter} {d : Disk} (h : Reached c d₀ w d) :
      Reached c d₀ (w.seal_ d).1 (w.seal_ d).2.1
  | sealPrevious {w : BufferedWriter} {d : Disk} (h : Reached c d₀ w d) :
      Reached c d₀ (w.sealPrevious d).1 (w.sealPrevious d).2.1

/-- Two windows are never one. -/
theorem Reached.apart {c : Settings} {d₀ : Disk} (h : Reached c d₀ w d) : w.Apart := by
  induction h with
  | new => exact fun o ho => nomatch ho
  | @entry w d h e hlives ih =>
    have hentry := Entry.apart_run (d := w.written d) e (apart_whole.mpr ih)
    rw [← whole_entry ih e] at hentry
    exact apart_whole.mp hentry
  | @flush w d h ih => exact apart_whole.mp ((whole_flush w d).1 ▸ apart_whole.mpr ih)
  | @seal_ w d h ih =>
    obtain ⟨-, -, hgone⟩ := sealPrevious_same w d
    unfold BufferedWriter.seal_
    intro o ho p hp
    simp only at ho hp
    split at hp
    · cases hgone.symm.trans hp
    · cases hgone.symm.trans hp
  | @sealPrevious w d h ih =>
    obtain ⟨-, -, hgone⟩ := sealPrevious_same w d
    exact fun o ho p hp => nomatch hgone.symm.trans hp

end BufferedWriter

end Capture
