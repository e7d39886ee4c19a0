/-
# Writing capture files (`oq-l2feed/src/writer.rs`)

One file a window, chosen by the time of the record.  The window that just rolled over is kept
open for late records; a window that is opened again is counted from its file, without the torn
record a kill left at its end.  Flushing changes nothing here: a file has all that was written
to it, until a crash cuts it.
-/
import OpenQuanter.CaptureScan

namespace Capture

/-! ## The archive -/

/-- The files of a stream, by the window in their path, and the manifests beside them. -/
structure Disk where
  files : Window → Option (List UInt8)
  manifests : Window → Option Manifest

namespace Disk

def setFile (d : Disk) (window : Window) (bytes : List UInt8) : Disk :=
  { d with files := Function.update d.files window (some bytes) }

/-- Write at the end of a file. -/
def write (d : Disk) (window : Window) (bytes : List UInt8) : Disk :=
  d.setFile window ((d.files window).getD [] ++ bytes)

def setManifest (d : Disk) (window : Window) (manifest : Option Manifest) : Disk :=
  { d with manifests := Function.update d.manifests window manifest }

end Disk

/-! ## The writer -/

/-- A window that is open: what was counted, and for a window that was resumed the `local_ts` of
the last record it had, until a session is started in it. -/
structure OpenDay where
  window : Window
  builder : ManifestBuilder
  resumedAfter : Option Int64

/-- What a writer is set up with. -/
structure Settings where
  stream : StreamId
  software : Software
  graceNs : Int64
  rotation : Rotation
  windowOf : Option (Int64 → Rotation → Window)

/-- Appends framed records, rotating by window. -/
structure CaptureWriter extends Settings where
  open_ : Option OpenDay
  /-- The window that just rolled over, kept open for late arrivals. -/
  previous : Option OpenDay

/-- A window that finished. -/
structure SealedDay where
  window : Window
  manifest : Manifest
  deriving DecidableEq, Repr

/-- Why a call did not succeed; a panic ends the process. -/
inductive Stop where
  | late (record opened : Window)
  | corrupt (window : Window) (e : DecodeError)
  | noDay
  | panic
  deriving DecidableEq, Repr

/-- What a call leaves, and what it returns. -/
abbrev Outcome (α : Type) := CaptureWriter × Disk × Except Stop α

/-- The window of a record. -/
def Settings.windowFor (c : Settings) (r : Record) : Window :=
  match c.windowOf with
  | none => .fromNanos r.dayTs c.rotation
  | some f => f r.dayTs c.rotation

namespace CaptureWriter

/-- A writer that has nothing open. -/
def new (c : Settings) : CaptureWriter := { c with open_ := none, previous := none }

variable (w : CaptureWriter) (d : Disk)

/-- Write the manifest of a window that is done. -/
def sealDay (day : OpenDay) : Disk × SealedDay :=
  let manifest := day.builder.build w.stream day.window w.software ((d.files day.window).getD [])
  (d.setManifest day.window (some manifest), ⟨day.window, manifest⟩)

/-- Seal the window kept open for late arrivals, if there is one. -/
def sealPrevious : CaptureWriter × Disk × Option SealedDay :=
  match w.previous with
  | none => (w, d, none)
  | some day => ({ w with previous := none }, (w.sealDay d day).1, some (w.sealDay d day).2)

/-- A file without its torn tail. -/
def withoutTail (bytes : List UInt8) (found : Option (Nat × Nat)) : List UInt8 :=
  match found with
  | none => bytes
  | some (clean, len) => if clean < len then bytes.take clean else bytes

/-- A window that is opened has whole frames in its file, each of them counted. -/
theorem frames_of_scan {file : Option (List UInt8)} {b : ManifestBuilder}
    {found : Option (Nat × Nat)}
    (h : scanExisting file = .ok (b, found)) : ∃ frames rest,
      file.getD [] = Frame.file frames ++ rest ∧ decode rest = .error .truncated ∧
        b = ManifestBuilder.new.observeAll (frames.map fun f => f.record) ∧
        withoutTail (file.getD []) found = Frame.file frames := by
  have hnone : ∀ {file : Option (List UInt8)}, file.getD [] = [] →
      Except.ok (ManifestBuilder.new, none) = (.ok (b, found) : Except DecodeError _) →
        ∃ frames rest, file.getD [] = Frame.file frames ++ rest ∧ decode rest = .error .truncated ∧
          b = ManifestBuilder.new.observeAll (frames.map fun f => f.record) ∧
          withoutTail (file.getD []) found = Frame.file frames := by
    intro file hfile h
    obtain ⟨rfl, rfl⟩ := Prod.mk.inj (Except.ok.inj h)
    exact ⟨[], [], hfile, rfl, rfl, hfile⟩
  cases hfile : file with
  | none =>
    rw [hfile] at h
    exact hnone rfl h
  | some bytes =>
    rw [hfile] at h
    by_cases hnil : bytes = []
    · rw [scanExisting, hnil, if_pos rfl] at h
      exact hnone (congrArg (Option.getD · []) (congrArg some hnil)) h
    · rw [scan_eq hnil] at h
      cases hread : decodeAll bytes with
      | error e =>
        rw [hread] at h
        cases h
      | ok p =>
        rw [hread] at h
        obtain ⟨rfl, rfl⟩ := Prod.mk.inj (Except.ok.inj h)
        obtain ⟨frames, rest, hbytes, hrs, htorn, hrest⟩ := frames_of_decodeAll hread
        refine ⟨frames, rest, hbytes, hrest, congrArg _ hrs, ?_⟩
        have hclean : bytes.length - p.2 = (Frame.file frames).length := by
          rw [htorn, hbytes, List.length_append]
          omega
        simp only [Option.getD_some, withoutTail, hclean]
        split
        · rw [hbytes, List.take_left]
        · rename_i hle
          have hempty : rest = [] := by
            rw [hbytes, List.length_append] at hle
            exact List.length_eq_zero_iff.mp (by omega)
          rw [hbytes, hempty, List.append_nil]

/-- Open a window: count what is there, cut a torn tail off, and drop the manifest. -/
def openWindow (window : Window) : Outcome Unit :=
  match scanExisting (d.files window) with
  | .error e => (w, d, .error (.corrupt window e))
  | .ok (builder, found) =>
    ({ w with open_ := some ⟨window, builder, builder.localLast⟩ },
      (d.setFile window (withoutTail ((d.files window).getD []) found)).setManifest window none,
      .ok ())

/-- Write a record to the open window; once it is far enough along, the previous one is done. -/
def store (window : Window) (r : Record) (done : Option SealedDay) : Outcome (Option SealedDay) :=
  match w.open_ with
  | none => (w, d, .error .panic)
  | some day =>
    let w' := { w with open_ := some { day with builder := day.builder.observe r } }
    let d' := d.write day.window r.encode
    let ahead := Int64.ofIntClamp (r.dayTs.toInt - window.startNanos)
    if w'.previous.isSome && decide (w.graceNs < ahead) then
      let (w'', d'', done') := w'.sealPrevious d'
      (w'', d'', .ok done')
    else (w', d', .ok done)

/-- Open a window and write a record to it. -/
def openAndStore (window : Window) (r : Record) (done : Option SealedDay) :
    Outcome (Option SealedDay) :=
  match w.openWindow d window with
  | (w', d', .error e) => (w', d', .error e)
  | (w', d', .ok ()) => w'.store d' window r done

/-- Append a record, rotating first if it belongs to a later window. -/
def append (r : Record) : Outcome (Option SealedDay) :=
  let window := w.windowFor r
  match w.previous.filter fun day => day.window = window with
  | some day =>
    ({ w with previous := some { day with builder := day.builder.observe r } },
      d.write window r.encode, .ok none)
  | none =>
    match w.open_ with
    | none => w.openAndStore d window r none
    | some day =>
      if day.window = window then w.store d window r none
      else if window.before day.window then (w, d, .error (.late window day.window))
      else
        let (w', d', done) := w.sealPrevious d
        { w' with previous := some day, open_ := none }.openAndStore d' window r done

/-- Count something in the manifest of the file a record of `window` was written to. -/
def countAt (window : Window) (count : ManifestBuilder → Option ManifestBuilder) :
    Option CaptureWriter :=
  match w.previous.filter fun day => day.window = window with
  | some day => (count day.builder).map fun b =>
    { w with previous := some { day with builder := b } }
  | none =>
    match w.open_.filter fun day => day.window = window with
    | some day => (count day.builder).map fun b =>
      { w with open_ := some { day with builder := b } }
    | none => some w

/-- Append a control record and count what it says. -/
def appendCounted (r : Record) (count : ManifestBuilder → Option ManifestBuilder) :
    Outcome (Option SealedDay) :=
  match w.append d r with
  | (w', d', .error e) => (w', d', .error e)
  | (w', d', .ok done) =>
    match w'.countAt (w.windowFor r) count with
    | none => (w', d', .error .panic)
    | some w'' => (w'', d', .ok done)

/-- The record of a feed gap. -/
def gapRecord (localTs : Int64) (reason : Text) (lastSeq : Option UInt64) (outageNs : Int64) :
    Record :=
  .control localTs (Text.utf8 (Control.gap reason lastSeq outageNs))

/-- Record a feed gap. -/
def appendGap (localTs : Int64) (reason : Text) (lastSeq : Option UInt64) (outageNs : Int64) :
    Outcome (Option SealedDay) :=
  w.appendCounted d (gapRecord localTs reason lastSeq outageNs) (·.observeGap outageNs)

/-- Record a clock offset estimate. -/
def appendClockOffset (localTs offsetNs dispersionNs : Int64) : Outcome (Option SealedDay) :=
  w.appendCounted d (.control localTs (Text.utf8 (Control.clockOffset offsetNs dispersionNs)))
    (·.observeClockOffset offsetNs)

/-- The record a session starts with. -/
def sessionRecord (localTs : Int64) : Record :=
  .control localTs (Text.utf8 (Control.sessionStart w.software.version w.stream.venue
    w.stream.symbol w.stream.stream))

/-- Why there is a gap where a session is started in a window that has records. -/
def restarted : Text := "capture restarted".toList

/-- What the open window was resumed after is asked for once. -/
def takeResumed : CaptureWriter :=
  { w with open_ := w.open_.map fun day => { day with resumedAfter := none } }

/-- Record the start of a session.  In a window that already held records the silence before it
is a gap. -/
def appendSessionStart (localTs : Int64) : Outcome (Option SealedDay) :=
  match w.append d (w.sessionRecord localTs) with
  | (w', d', .error e) => (w', d', .error e)
  | (w', d', .ok done) =>
    match w'.open_.bind OpenDay.resumedAfter with
    | none => (w', d', .ok done)
    | some last =>
      let outage := satSub localTs last
      if 0 < outage then
        match w'.takeResumed.appendGap d' localTs restarted none outage with
        | (w'', d'', .ok none) => (w'', d'', .ok done)
        | other => other
      else (w'.takeResumed, d', .ok done)

/-- Close the current window, and the one before it. -/
def seal_ : Outcome SealedDay :=
  let (w', d', _) := w.sealPrevious d
  match w'.open_ with
  | none => (w', d', .error .noDay)
  | some day => ({ w' with open_ := none }, (w'.sealDay d' day).1, .ok (w'.sealDay d' day).2)

/-- The windows that are open. -/
def held : List OpenDay := w.open_.toList ++ w.previous.toList

/-- Whether a record of a window would open it. -/
def Opens (window : Window) : Prop :=
  (∀ day ∈ w.held, day.window ≠ window) ∧ ∀ day ∈ w.open_, window.before day.window = false

end CaptureWriter

/-! ## Runs -/

/-- A call of the writer. -/
inductive Call where
  | append (r : Record)
  | gap (localTs : Int64) (reason : Text) (lastSeq : Option UInt64) (outageNs : Int64)
  | clockOffset (localTs offsetNs dispersionNs : Int64)
  | sessionStart (localTs : Int64)
  | seal_
  | sealPrevious

/-- What a call leaves, and what stopped it. -/
def Call.run (w : CaptureWriter) (d : Disk) : Call → CaptureWriter × Disk × Option Stop
  | append r => outcome (w.append d r)
  | gap localTs reason lastSeq outageNs => outcome (w.appendGap d localTs reason lastSeq outageNs)
  | clockOffset localTs offsetNs dispersionNs =>
    outcome (w.appendClockOffset d localTs offsetNs dispersionNs)
  | sessionStart localTs => outcome (w.appendSessionStart d localTs)
  | seal_ => outcome (w.seal_ d)
  | sealPrevious => ((w.sealPrevious d).1, (w.sealPrevious d).2.1, none)
where
  /-- What an outcome leaves, and what stopped it. -/
  outcome {α : Type} (o : Outcome α) : CaptureWriter × Disk × Option Stop :=
    (o.1, o.2.1, match o.2.2 with
      | .ok _ => none
      | .error e => some e)

/-- A process, if there is one, and the archive it writes to.  A process that panicked makes no
more calls. -/
structure State where
  writer : Option CaptureWriter
  panicked : Bool
  disk : Disk

/-- What can happen: a process is started where none is, a call of it, or its end, with the files
it had open cut where the writing had come to. -/
inductive Event where
  | start (c : Settings)
  | call (c : Call)
  | crash (reached : Window → Nat)

/-- The archive once the files that were open are cut. -/
def Disk.cut (d : Disk) (held : List OpenDay) (reached : Window → Nat) : Disk :=
  { d with files := fun window =>
      if held.any fun day => day.window = window then (d.files window).map (·.take (reached window))
      else d.files window }

namespace State

def step (s : State) : Event → State
  | .start c => if s.writer.isNone then { s with writer := some (.new c) } else s
  | .call c =>
    match s.writer with
    | none => s
    | some w =>
      if s.panicked then s
      else
        let (w', d', stopped) := c.run w s.disk
        ⟨some w', decide (stopped = some .panic), d'⟩
  | .crash reached =>
    match s.writer with
    | none => s
    | some w => ⟨none, false, s.disk.cut w.held reached⟩

/-- A run. -/
def run (s : State) (es : List Event) : State := es.foldl step s

/-- An archive that nobody writes to. -/
def idle (d : Disk) : State := ⟨none, false, d⟩

end State

end Capture
