/-
# What a manifest says of its file (`oq-l2feed/src/writer.rs`, `oq-l2feed/src/manifest.rs`)

The counts of a window that is open tell the truth about its file, but for the outage of a gap
marker that was written and is not counted yet (`TellsBut`).  Every call keeps that
(`appended_append`, `left_appendCounted`, `left_appendSessionStart`), a crash takes the counts away
with the process, and so every manifest tells the truth (`State.Honest.run`), as long as a window
that is opened again has no gap marker and no version 1 frame in it: a window is counted again
without its gaps, and every record as a frame of version 2.
-/
import OpenQuanter.CaptureWriter

namespace Capture

/-! ## Telling the truth -/

/-- What some counts say of a file is what is read of it. -/
def Counts (records bytesRaw gaps : Nat) (gapNsTotal : Int) (file : List UInt8) : Prop :=
  ∃ rs, decodeAll file = .ok (rs, 0) ∧ records = rs.length ∧ bytesRaw = file.length ∧
    gaps = (rs.filter isGap).length ∧
    gapNsTotal = ((rs.filter isGap).map fun r => (outage r).toInt).sum

/-- A manifest tells the truth about a file. -/
def Manifest.Tells (m : Manifest) (file : List UInt8) : Prop :=
  Counts m.records m.bytesRaw m.gaps m.gapNsTotal.toInt file

/-- A builder tells the truth, but for outages that are not counted yet. -/
def ManifestBuilder.TellsBut (b : ManifestBuilder) (owed : List Int64) (file : List UInt8) : Prop :=
  Counts b.records b.bytesRaw (b.gaps + owed.length)
    (b.gapNsTotal.toInt + (owed.map Int64.toInt).sum)
    file

/-- Every manifest of an archive tells the truth about the file beside it. -/
def Disk.Truthful (d : Disk) : Prop :=
  ∀ window m, d.manifests window = some m → ∃ file, d.files window = some file ∧ m.Tells file

/-- A record that a frame can hold. -/
def Record.Fits (r : Record) : Prop := headerLenV2 + r.payload.length ≤ maxFrameLen

/-- The frame a record is written as. -/
def Record.frame (r : Record) (h : r.Fits) : Frame := ⟨⟨true, r⟩, h⟩

/-- The outage of a record that is not counted when the record is. -/
def owedOf (r : Record) : List Int64 := if isGap r then [outage r] else []

theorem file_append (fs gs : List Frame) :
    Frame.file (fs ++ gs) = Frame.file fs ++ Frame.file gs := List.flatMap_append

/-- A file that is read to its end is a file of frames. -/
theorem file_of_decodeAll {file : List UInt8} {rs : List Record}
    (h : decodeAll file = .ok (rs, 0)) :
    ∃ frames, file = Frame.file frames ∧ rs = frames.map fun f => f.record := by
  obtain ⟨frames, rest, hfile, hrs, hrest, -⟩ := frames_of_decodeAll h
  rw [List.length_eq_zero_iff.mp hrest.symm, List.append_nil] at hfile
  exact ⟨frames, hfile, hrs⟩

theorem decodeAll_write {file : List UInt8} {rs : List Record} {r : Record}
    (h : decodeAll file = .ok (rs, 0)) (hr : r.Fits) :
    decodeAll (file ++ r.encode) = .ok (rs ++ [r], 0) := by
  obtain ⟨frames, rfl, rfl⟩ := file_of_decodeAll h
  have hfile : Frame.file frames ++ r.encode = Frame.file (frames ++ [r.frame hr]) := by
    rw [file_append, Frame.file_cons, Frame.file_nil, List.append_nil]
    rfl
  rw [hfile, decodeAll_file, List.map_append]
  rfl

namespace ManifestBuilder

variable {b : ManifestBuilder} {file : List UInt8}

/-- A record that is written and counted; if it is a gap marker its outage is not. -/
theorem TellsBut.observe {r : Record} (h : b.TellsBut [] file) (hr : r.Fits) :
    (b.observe r).TellsBut (owedOf r) (file ++ r.encode) := by
  obtain ⟨rs, hread, hrecords, hbytes, hgaps, htotal⟩ := h
  have hlen : r.encode.length = r.encodedLen := (Framed.mk true r).length_bytes
  refine ⟨rs ++ [r], decodeAll_write hread hr, ?_, ?_, ?_, ?_⟩
  · rw [List.length_append, ← hrecords]
    rfl
  · rw [List.length_append, ← hbytes, hlen]
    rfl
  · rw [List.filter_append, List.length_append, ← hgaps, owedOf]
    by_cases hgap : isGap r = true
    · simp [hgap, ManifestBuilder.observe]
    · simp [hgap, ManifestBuilder.observe]
  · rw [List.filter_append, List.map_append, List.sum_append, ← htotal, owedOf]
    by_cases hgap : isGap r = true
    · simp [hgap, ManifestBuilder.observe]
    · simp [hgap, ManifestBuilder.observe]

/-- An outage that is counted after all. -/
theorem TellsBut.observeGap {outageNs : Int64} {b' : ManifestBuilder}
    (h : b.TellsBut [outageNs] file)
    (hb : b.observeGap outageNs = some b') : b'.TellsBut [] file := by
  unfold ManifestBuilder.observeGap at hb
  dsimp only at hb
  split at hb
  · rename_i hfits
    obtain rfl := Option.some.inj hb
    have htotal : (Int64.ofInt (b.gapNsTotal.toInt + outageNs.toInt)).toInt =
        b.gapNsTotal.toInt + outageNs.toInt := Int64.toInt_ofInt_of_le hfits.1 hfits.2
    unfold TellsBut at h
    show Counts _ _ (b.gaps + 1 + 0) ((Int64.ofInt _).toInt + 0) file
    rw [htotal]
    simpa using h
  · cases hb

theorem TellsBut.observeClockOffset {offsetNs : Int64} {b' : ManifestBuilder} {owed : List Int64}
    (h : b.TellsBut owed file) (hb : b.observeClockOffset offsetNs = some b') :
    b'.TellsBut owed file := by
  unfold ManifestBuilder.observeClockOffset at hb
  split at hb
  · cases hb
  · obtain rfl := Option.some.inj hb
    exact h

theorem TellsBut.build (h : b.TellsBut [] file) (stream : StreamId) (window : Window)
    (software : Software) (raw : List UInt8) : (b.build stream window software raw).Tells file := by
  unfold TellsBut at h
  simp only [List.length_nil, Nat.add_zero, List.map_nil, List.sum_nil, Int.add_zero] at h
  exact h

end ManifestBuilder

/-! ## A window that is opened again -/

/-- What a window that is opened again must not have in it. -/
def Plain (file : Option (List UInt8)) : Prop :=
  ∀ frames rest, file.getD [] = Frame.file frames ++ rest →
    ∀ f ∈ frames, f.v2 = true ∧ isGap f.record = false

theorem observeAll_fields (b : ManifestBuilder) (rs : List Record) :
    (b.observeAll rs).records = b.records + rs.length ∧
      (b.observeAll rs).bytesRaw = b.bytesRaw + (rs.map Record.encodedLen).sum ∧
      (b.observeAll rs).gaps = b.gaps ∧ (b.observeAll rs).gapNsTotal = b.gapNsTotal := by
  unfold ManifestBuilder.observeAll
  induction rs generalizing b with
  | nil => exact ⟨rfl, rfl, rfl, rfl⟩
  | cons r rs ih =>
    obtain ⟨hrecords, hbytes, hgaps, htotal⟩ := ih (b.observe r)
    rw [List.foldl_cons]
    refine ⟨?_, ?_, hgaps, htotal⟩
    · rw [hrecords, List.length_cons, ManifestBuilder.observe]
      simp only
      omega
    · rw [hbytes, List.map_cons, List.sum_cons, ManifestBuilder.observe]
      simp only
      omega

theorem length_file_of_v2 {frames : List Frame} (h : ∀ f ∈ frames, f.v2 = true) :
    (Frame.file frames).length = ((frames.map fun f => f.record).map Record.encodedLen).sum := by
  induction frames with
  | nil => rfl
  | cons f frames ih =>
    rw [List.forall_mem_cons] at h
    have hlen : f.len = f.record.encodedLen := by
      rw [Framed.len, Framed.header, if_pos h.1]
      rfl
    rw [Frame.file_cons, List.length_append, Framed.length_bytes, ih h.2, hlen]
    rfl

/-- **A file is counted as it is**, without its torn tail, if there is no gap marker in it and no
version 1 frame. -/
theorem tells_of_scan {file : Option (List UInt8)} {b : ManifestBuilder}
    {found : Option (Nat × Nat)}
    (h : scanExisting file = .ok (b, found)) (hplain : Plain file) :
    b.TellsBut [] (CaptureWriter.withoutTail (file.getD []) found) := by
  obtain ⟨frames, rest, hfile, -, rfl, hclean⟩ := CaptureWriter.frames_of_scan h
  have hall := hplain frames rest hfile
  have hgaps : ((frames.map fun f => f.record).filter isGap) = [] := by
    refine List.filter_eq_nil_iff.mpr fun r hr => ?_
    obtain ⟨f, hf, rfl⟩ := List.mem_map.mp hr
    rw [(hall f hf).2]
    exact Bool.false_ne_true
  obtain ⟨hrecords, hbytes, hnone, htotal⟩ :=
    observeAll_fields .new (frames.map fun f => f.record)
  rw [hclean]
  refine ⟨frames.map fun f => f.record, decodeAll_file frames, ?_, ?_, ?_, ?_⟩
  · rw [hrecords]
    exact Nat.zero_add _
  · rw [hbytes, length_file_of_v2 fun f hf => (hall f hf).1]
    exact Nat.zero_add _
  · rw [hgaps, hnone]
    rfl
  · rw [hgaps, htotal]
    rfl

/-! ## The writer -/

namespace CaptureWriter

/-- A writer whose counts tell the truth about the files it has open, but for the outages of a
marker in one of them; beside an open file there is no manifest. -/
structure SoundBut (w : CaptureWriter) (d : Disk) (window : Window) (owed : List Int64) : Prop where
  tells : ∀ day ∈ w.held, ∃ file, d.files day.window = some file ∧
    day.builder.TellsBut (if day.window = window then owed else []) file
  bare : ∀ day ∈ w.held, d.manifests day.window = none
  apart : ∀ o ∈ w.open_, ∀ p ∈ w.previous, o.window ≠ p.window

/-- A writer whose counts tell the truth. -/
def Sound (w : CaptureWriter) (d : Disk) : Prop := ∀ window, w.SoundBut d window []

variable {w : CaptureWriter} {d : Disk}

theorem mem_held {day : OpenDay} : day ∈ w.held ↔ w.open_ = some day ∨ w.previous = some day := by
  rw [held, List.mem_append, Option.mem_toList, Option.mem_toList]

theorem SoundBut.sound {window : Window} (h : w.SoundBut d window []) : w.Sound d := by
  intro other
  refine { h with tells := fun day hday => ?_ }
  obtain ⟨file, hfile, htells⟩ := h.tells day hday
  rw [ite_self] at htells ⊢
  exact ⟨file, hfile, htells⟩

/-- What every call keeps. -/
structure Kept (w : CaptureWriter) (d : Disk) (window : Window) (owed : List Int64) : Prop where
  sound : w.SoundBut d window owed
  truthful : d.Truthful

/-- **A window that is sealed** has a manifest that tells the truth. -/
theorem Disk.truthful_setManifest {day : OpenDay} {file : List UInt8} (hd : d.Truthful)
    (hfile : d.files day.window = some file) (htells : day.builder.TellsBut [] file) :
    (w.sealDay d day).1.Truthful := by
  intro window m hm
  unfold sealDay Disk.setManifest at hm
  simp only [Function.update_apply] at hm
  split at hm
  · rename_i heq
    obtain rfl := Option.some.inj hm
    exact ⟨file, heq ▸ hfile, htells.build ..⟩
  · exact hd window m hm

theorem kept_sealPrevious {window : Window} {owed : List Int64} (h : w.Kept d window owed)
    (hother : ∀ day ∈ w.previous, day.window = window → owed = []) :
    (w.sealPrevious d).1.Kept (w.sealPrevious d).2.1 window owed := by
  unfold sealPrevious
  cases hprevious : w.previous with
  | none => exact h
  | some day =>
    have hmem : day ∈ w.held := mem_held.mpr (.inr hprevious)
    obtain ⟨file, hfile, htells⟩ := h.sound.tells day hmem
    have howed : (if day.window = window then owed else []) = [] := by
      split
      · exact hother day hprevious ‹_›
      · rfl
    rw [howed] at htells
    refine ⟨⟨?_, ?_, fun o _ p hp => nomatch hp⟩, Disk.truthful_setManifest h.truthful hfile htells⟩
    · intro o ho
      rcases mem_held.mp ho with ho | ho
      · exact h.sound.tells o (mem_held.mpr (.inl ho))
      · cases ho
    · intro o ho
      rcases mem_held.mp ho with ho | ho
      · have hne := h.sound.apart o ho day hprevious
        simp only [sealDay, Disk.setManifest, Function.update_apply, if_neg hne]
        exact h.sound.bare o (mem_held.mpr (.inl ho))
      · cases ho

/-- Sealing the previous window leaves the open one alone. -/
theorem sealPrevious_same (w : CaptureWriter) (d : Disk) :
    (w.sealPrevious d).1.toSettings = w.toSettings ∧ (w.sealPrevious d).1.open_ = w.open_ := by
  unfold sealPrevious
  split
  · exact ⟨rfl, rfl⟩
  · exact ⟨rfl, rfl⟩

/-- And the files. -/
theorem files_sealPrevious (w : CaptureWriter) (d : Disk) :
    (w.sealPrevious d).2.1.files = d.files := by
  unfold sealPrevious
  split
  · rfl
  · rfl

/-- **A window that is opened** is counted as it is. -/
theorem kept_openWindow {window : Window} (h : w.Kept d window [])
    (hprevious : ∀ day ∈ w.previous, day.window ≠ window) (hplain : Plain (d.files window)) :
    (w.openWindow d window).1.Kept (w.openWindow d window).2.1 window [] ∧
      (w.openWindow d window).1.toSettings = w.toSettings ∧
      match (w.openWindow d window).2.2 with
      | .ok () => ∃ day, (w.openWindow d window).1.open_ = some day ∧ day.window = window
      | .error e => e ≠ .panic := by
  unfold openWindow
  cases hscan : scanExisting (d.files window) with
  | error e => exact ⟨h, rfl, fun hpanic => nomatch hpanic⟩
  | ok found =>
    obtain ⟨builder, found⟩ := found
    have htells := tells_of_scan hscan hplain
    refine ⟨⟨⟨?_, ?_, ?_⟩, ?_⟩, rfl, _, rfl, rfl⟩
    · intro day hday
      rcases mem_held.mp hday with hday | hday
      · obtain rfl := Option.some.inj hday
        refine ⟨_, Function.update_self .., ?_⟩
        rw [ite_self]
        exact htells
      · obtain ⟨file, hfile, hold⟩ := h.sound.tells day (mem_held.mpr (.inr hday))
        have hne := hprevious day hday
        refine ⟨file, ?_, hold⟩
        simp only [Disk.setManifest, Disk.setFile, Function.update_apply, if_neg hne]
        exact hfile
    · intro day hday
      rcases mem_held.mp hday with hday | hday
      · obtain rfl := Option.some.inj hday
        exact Function.update_self ..
      · have hne := hprevious day hday
        simp only [Disk.setManifest, Disk.setFile, Function.update_apply, if_neg hne]
        exact h.sound.bare day (mem_held.mpr (.inr hday))
    · intro o ho p hp
      obtain rfl := Option.some.inj ho
      exact (hprevious p hp).symm
    · intro other m hm
      simp only [Disk.setManifest, Disk.setFile, Function.update_apply] at hm
      split at hm
      · cases hm
      · rename_i hne
        simp only [Disk.setManifest, Disk.setFile, Function.update_apply, if_neg hne]
        exact h.truthful other m hm

/-- **A record that is written** to the file of an open window, and counted there. -/
theorem kept_write {w' : CaptureWriter} {window : Window} {r : Record} (h : w.Kept d window [])
    (hr : r.Fits) (hheld : ∃ day ∈ w.held, day.window = window)
    (hdays : ∀ day' ∈ w'.held, if day'.window = window then
      ∃ day ∈ w.held, day.window = window ∧ day'.builder = day.builder.observe r else day' ∈ w.held)
    (hapart : ∀ o ∈ w'.open_, ∀ p ∈ w'.previous, o.window ≠ p.window) :
    w'.Kept (d.write window r.encode) window (owedOf r) := by
  obtain ⟨held, hmem, rfl⟩ := hheld
  refine ⟨⟨fun day hday => ?_, fun day hday => ?_, hapart⟩, fun other m hm => ?_⟩
  · have hcase := hdays day hday
    by_cases hwindow : day.window = held.window
    · rw [if_pos hwindow] at hcase ⊢
      obtain ⟨old, hold, hsame, hbuilder⟩ := hcase
      obtain ⟨file, hfile, htells⟩ := h.sound.tells old hold
      rw [ite_self] at htells
      refine ⟨file ++ r.encode, ?_, hbuilder ▸ htells.observe hr⟩
      rw [Disk.write, Disk.setFile, hwindow, ← hsame, hfile]
      exact Function.update_self ..
    · rw [if_neg hwindow] at hcase ⊢
      obtain ⟨file, hfile, htells⟩ := h.sound.tells day hcase
      rw [ite_self] at htells
      refine ⟨file, ?_, htells⟩
      simp only [Disk.write, Disk.setFile, Function.update_apply, if_neg hwindow]
      exact hfile
  · have hcase := hdays day hday
    by_cases hwindow : day.window = held.window
    · rw [hwindow]
      exact h.sound.bare held hmem
    · rw [if_neg hwindow] at hcase
      exact h.sound.bare day hcase
  · have hne : other ≠ held.window := by
      rintro rfl
      cases hm.symm.trans (h.sound.bare held hmem)
    obtain ⟨file, hfile, htells⟩ := h.truthful other m hm
    refine ⟨file, ?_, htells⟩
    simp only [Disk.write, Disk.setFile, Function.update_apply, if_neg hne]
    exact hfile

/-- What is left when a record was appended, or was not. -/
structure Appended (w : CaptureWriter) (o : Outcome (Option SealedDay)) (r : Record) : Prop where
  settings : o.1.toSettings = w.toSettings
  ok : ∀ done, o.2.2 = .ok done → o.1.Kept o.2.1 (w.windowFor r) (owedOf r) ∧
    ∃ day ∈ o.1.held, day.window = w.windowFor r
  error : ∀ e, o.2.2 = .error e → e ≠ .panic ∧ o.1.Kept o.2.1 (w.windowFor r) []

theorem Appended.of_settings {w' : CaptureWriter} {o : Outcome (Option SealedDay)} {r : Record}
    (h : w'.Appended o r) (hsettings : w'.toSettings = w.toSettings) : w.Appended o r := by
  have hwindow : w'.windowFor r = w.windowFor r := congrArg (Settings.windowFor · r) hsettings
  exact ⟨h.settings.trans hsettings, hwindow ▸ h.ok, hwindow ▸ h.error⟩

theorem appended_store {r : Record} {day : OpenDay} (h : w.Kept d (w.windowFor r) [])
    (hopen : w.open_ = some day) (hday : day.window = w.windowFor r) (hr : r.Fits)
    (done : Option SealedDay) : w.Appended (w.store d (w.windowFor r) r done) r := by
  have hmem : day ∈ w.held := mem_held.mpr (.inl hopen)
  have hprevious : ∀ p ∈ w.previous, p.window ≠ w.windowFor r :=
    fun p hp heq => h.sound.apart day hopen p hp (hday.trans heq.symm)
  have hstored : Kept { w with open_ := some { day with builder := day.builder.observe r } }
      (d.write (w.windowFor r) r.encode) (w.windowFor r) (owedOf r) := by
    refine kept_write h hr ⟨day, hmem, hday⟩ (fun day' hday' => ?_) fun o ho p hp => ?_
    · rcases mem_held.mp hday' with hday' | hday'
      · obtain rfl := Option.some.inj hday'
        rw [if_pos hday]
        exact ⟨day, hmem, hday, rfl⟩
      · rw [if_neg (hprevious day' hday')]
        exact mem_held.mpr (.inr hday')
    · obtain rfl := Option.some.inj ho
      exact h.sound.apart day hopen p hp
  have hsealed := kept_sealPrevious hstored fun p hp heq => absurd heq (hprevious p hp)
  unfold store
  rw [hopen, ← hday]
  rw [← hday] at hstored hsealed
  dsimp only
  split
  · refine ⟨?_, fun _ _ => ⟨?_, ?_⟩, fun e he => nomatch he⟩
    · unfold sealPrevious
      split <;> rfl
    · rw [← hday]
      exact hsealed
    · refine ⟨{ day with builder := day.builder.observe r }, mem_held.mpr (.inl ?_), hday⟩
      unfold sealPrevious
      split <;> rfl
  · refine ⟨rfl, fun _ _ => ⟨?_, ?_⟩, fun e he => nomatch he⟩
    · rw [← hday]
      exact hstored
    · exact ⟨{ day with builder := day.builder.observe r }, mem_held.mpr (.inl rfl), hday⟩

theorem appended_openAndStore {r : Record} (h : w.Kept d (w.windowFor r) [])
    (hprevious : ∀ day ∈ w.previous, day.window ≠ w.windowFor r)
    (hplain : Plain (d.files (w.windowFor r))) (hr : r.Fits) (done : Option SealedDay) :
    w.Appended (w.openAndStore d (w.windowFor r) r done) r := by
  have hopened := kept_openWindow h hprevious hplain
  unfold openAndStore
  generalize w.openWindow d (w.windowFor r) = o at hopened ⊢
  obtain ⟨w', d', res⟩ := o
  cases res with
  | error e =>
    obtain ⟨hkept, hsettings, hpanic⟩ := hopened
    refine ⟨hsettings, fun done hdone => (nomatch hdone), fun e' he' => ?_⟩
    obtain rfl := Except.error.inj he'
    exact ⟨hpanic, hkept⟩
  | ok u =>
    obtain ⟨hkept, hsettings, day, hopen, hday⟩ := hopened
    simp only at hkept hsettings hopen
    have hwindow : w'.windowFor r = w.windowFor r := congrArg (Settings.windowFor · r) hsettings
    rw [← hwindow] at hkept hday
    have hstored := (appended_store hkept hopen hday hr done).of_settings hsettings
    rwa [hwindow] at hstored

/-- **Appending a record** keeps the counts true, but for the outage of a gap marker. -/
theorem appended_append {r : Record} (h : w.Sound d) (hd : d.Truthful) (hr : r.Fits)
    (hplain : w.Opens (w.windowFor r) → Plain (d.files (w.windowFor r))) :
    w.Appended (w.append d r) r := by
  have hkept : w.Kept d (w.windowFor r) [] := ⟨h _, hd⟩
  unfold append
  dsimp only
  cases hlate : w.previous.filter fun day => day.window = w.windowFor r with
  | some day =>
    obtain ⟨hprevious, hday⟩ := Option.filter_eq_some_iff.mp hlate
    have hday := of_decide_eq_true hday
    have hmem : day ∈ w.held := mem_held.mpr (.inr hprevious)
    refine ⟨rfl, fun _ _ => ⟨?_, ?_⟩, fun e he => nomatch he⟩
    · refine kept_write hkept hr ⟨day, hmem, hday⟩ (fun day' hday' => ?_) fun o ho p hp => ?_
      · rcases mem_held.mp hday' with hday' | hday'
        · have hne := hkept.sound.apart day' hday' day hprevious
          rw [if_neg (hday ▸ hne)]
          exact mem_held.mpr (.inl hday')
        · obtain rfl := Option.some.inj hday'
          rw [if_pos hday]
          exact ⟨day, hmem, hday, rfl⟩
      · obtain rfl := Option.some.inj hp
        exact hkept.sound.apart o ho day hprevious
    · exact ⟨{ day with builder := day.builder.observe r }, mem_held.mpr (.inr rfl), hday⟩
  | none =>
    have hprevious : ∀ day ∈ w.previous, day.window ≠ w.windowFor r := by
      intro day hday heq
      rw [hday, Option.filter_some, if_pos (decide_eq_true heq)] at hlate
      cases hlate
    cases hopen : w.open_ with
    | none =>
      refine appended_openAndStore hkept hprevious (hplain ⟨fun day hday => ?_, ?_⟩) hr none
      · rcases mem_held.mp hday with hday | hday
        · cases hopen.symm.trans hday
        · exact hprevious day hday
      · rw [hopen]
        exact fun day hday => nomatch hday
    | some day =>
      by_cases hsame : day.window = w.windowFor r
      · simp only [if_pos hsame]
        exact appended_store hkept hopen hsame hr none
      by_cases hearlier : (w.windowFor r).before day.window = true
      · simp only [if_neg hsame, if_pos hearlier]
        refine ⟨rfl, fun done hdone => (nomatch hdone), fun e he => ?_⟩
        obtain rfl := Except.error.inj he
        exact ⟨fun hpanic => (nomatch hpanic), hkept⟩
      -- the previous window is sealed, and the open one waits for late records
      simp only [if_neg hsame, if_neg hearlier]
      have hsealed := kept_sealPrevious hkept fun _ _ _ => rfl
      obtain ⟨hsettings, hopen'⟩ := sealPrevious_same w d
      have hfiles := files_sealPrevious w d
      generalize w.sealPrevious d = o at hsealed hsettings hopen' hfiles ⊢
      obtain ⟨w', d', done⟩ := o
      simp only at hsealed hsettings hopen' hfiles ⊢
      have hmem : day ∈ w'.held := mem_held.mpr (.inl (hopen'.trans hopen))
      have hrolled : Kept { w' with previous := some day, open_ := none } d'
        (w.windowFor r) [] := by
        refine ⟨⟨fun o ho => ?_, fun o ho => ?_, fun o ho => nomatch ho⟩, hsealed.truthful⟩
        · rcases mem_held.mp ho with ho | ho
          · cases ho
          · obtain rfl := Option.some.inj ho
            exact hsealed.sound.tells day hmem
        · rcases mem_held.mp ho with ho | ho
          · cases ho
          · obtain rfl := Option.some.inj ho
            exact hsealed.sound.bare day hmem
      have hwindow : w'.windowFor r = w.windowFor r := congrArg (Settings.windowFor · r) hsettings
      have hopens : w.Opens (w.windowFor r) := by
        refine ⟨fun o ho => ?_, fun o ho => ?_⟩
        · rcases mem_held.mp ho with ho | ho
          · obtain rfl := Option.some.inj (hopen.symm.trans ho)
            exact hsame
          · exact hprevious o ho
        · obtain rfl := Option.some.inj (hopen.symm.trans ho)
          exact Bool.eq_false_iff.mpr hearlier
      have hstored := appended_openAndStore (r := r) (hwindow ▸ hrolled) (fun o ho => ?_)
        (hwindow ▸ hfiles ▸ hplain hopens) hr done
      · exact hwindow ▸ hstored.of_settings hsettings
      · obtain rfl := Option.some.inj ho
        exact hwindow ▸ hsame

/-- What a call leaves. -/
structure Left (w : CaptureWriter) (o : CaptureWriter × Disk × Option Stop) : Prop where
  settings : o.1.toSettings = w.toSettings
  truthful : o.2.1.Truthful
  bare : ∀ day ∈ o.1.held, o.2.1.manifests day.window = none
  sound : o.2.2 ≠ some .panic → o.1.Sound o.2.1

/-- Counting what is owed makes the counts true. -/
theorem sound_of_counted {w' : CaptureWriter} {window : Window} {owed : List Int64}
    {count : ManifestBuilder → Option ManifestBuilder} (h : w.SoundBut d window owed)
    (hcount : ∀ b b' file, b.TellsBut owed file → count b = some b' → b'.TellsBut [] file)
    (hdays : ∀ day' ∈ w'.held, if day'.window = window then
      ∃ day ∈ w.held, day.window = window ∧ count day.builder =
      some day'.builder else day' ∈ w.held)
    (hapart : ∀ o ∈ w'.open_, ∀ p ∈ w'.previous, o.window ≠ p.window) : w'.Sound d := by
  refine (show w'.SoundBut d window [] from
    ⟨fun day hday => ?_, fun day hday => ?_, hapart⟩).sound
  · have hcase := hdays day hday
    rw [ite_self]
    by_cases hwindow : day.window = window
    · rw [if_pos hwindow] at hcase
      obtain ⟨old, hold, hsame, hbuilder⟩ := hcase
      obtain ⟨file, hfile, htells⟩ := h.tells old hold
      rw [if_pos hsame] at htells
      exact ⟨file, by rw [hwindow, ← hsame, hfile], hcount _ _ file htells hbuilder⟩
    · rw [if_neg hwindow] at hcase
      obtain ⟨file, hfile, htells⟩ := h.tells day hcase
      rw [if_neg hwindow] at htells
      exact ⟨file, hfile, htells⟩
  · have hcase := hdays day hday
    by_cases hwindow : day.window = window
    · rw [if_pos hwindow] at hcase
      obtain ⟨old, hold, hsame, -⟩ := hcase
      rw [hwindow, ← hsame]
      exact h.bare old hold
    · rw [if_neg hwindow] at hcase
      exact h.bare day hcase

/-- An outage is counted where its marker was written. -/
theorem sound_countAt {window : Window} {owed : List Int64} {w' : CaptureWriter}
    {count : ManifestBuilder → Option ManifestBuilder} (h : w.SoundBut d window owed)
    (hheld : ∃ day ∈ w.held, day.window = window)
    (hcount : ∀ b b' file, b.TellsBut owed file → count b = some b' → b'.TellsBut [] file)
    (hw : w.countAt window count = some w') : w'.toSettings = w.toSettings ∧ w'.Sound d := by
  unfold countAt at hw
  cases hlate : w.previous.filter fun day => day.window = window with
  | some day =>
    rw [hlate] at hw
    obtain ⟨b, hb, rfl⟩ := Option.map_eq_some_iff.mp hw
    obtain ⟨hprevious, hday⟩ := Option.filter_eq_some_iff.mp hlate
    have hday := of_decide_eq_true hday
    refine ⟨rfl, sound_of_counted h hcount (fun day' hday' => ?_) fun o ho p hp => ?_⟩
    · rcases mem_held.mp hday' with hday' | hday'
      · rw [if_neg (hday ▸ h.apart day' hday' day hprevious)]
        exact mem_held.mpr (.inl hday')
      · obtain rfl := Option.some.inj hday'
        rw [if_pos hday]
        exact ⟨day, mem_held.mpr (.inr hprevious), hday, hb⟩
    · obtain rfl := Option.some.inj hp
      exact h.apart o ho day hprevious
  | none =>
    have hprevious : ∀ day ∈ w.previous, day.window ≠ window := by
      intro day hday heq
      rw [hday, Option.filter_some, if_pos (decide_eq_true heq)] at hlate
      cases hlate
    obtain ⟨day, hmem, hday⟩ := hheld
    have hopen := (mem_held.mp hmem).resolve_right fun hp => hprevious day hp hday
    rw [hlate, hopen, Option.filter_some, if_pos (decide_eq_true hday)] at hw
    obtain ⟨b, hb, rfl⟩ := Option.map_eq_some_iff.mp hw
    refine ⟨rfl, sound_of_counted h hcount (fun day' hday' => ?_) fun o ho p hp => ?_⟩
    · rcases mem_held.mp hday' with hday' | hday'
      · obtain rfl := Option.some.inj hday'
        rw [if_pos hday]
        exact ⟨day, hmem, hday, hb⟩
      · rw [if_neg (hprevious day' hday')]
        exact mem_held.mpr (.inr hday')
    · obtain rfl := Option.some.inj ho
      exact h.apart day hopen p hp

/-- An appended record leaves a sound writer if it is no gap marker. -/
theorem Appended.left {o : Outcome (Option SealedDay)} {r : Record} (h : w.Appended o r)
    (hr : owedOf r = []) : w.Left (Call.run.outcome o) := by
  obtain ⟨w', d', res⟩ := o
  cases res with
  | ok done =>
    obtain ⟨hkept, -⟩ := h.ok done rfl
    exact ⟨h.settings, hkept.truthful, hkept.sound.bare, fun _ => (hr ▸ hkept.sound).sound⟩
  | error e =>
    obtain ⟨-, hkept⟩ := h.error e rfl
    exact ⟨h.settings, hkept.truthful, hkept.sound.bare, fun _ => hkept.sound.sound⟩

/-- **A control record that is counted.** -/
theorem left_appendCounted {r : Record} {count : ManifestBuilder → Option ManifestBuilder}
    (h : w.Sound d) (hd : d.Truthful) (hr : r.Fits)
    (hplain : w.Opens (w.windowFor r) → Plain (d.files (w.windowFor r)))
    (hcount : ∀ b b' file, b.TellsBut (owedOf r) file → count b = some b' → b'.TellsBut [] file) :
    w.Left (Call.run.outcome (w.appendCounted d r count)) := by
  have happend := appended_append h hd hr hplain
  unfold appendCounted
  generalize w.append d r = o at happend ⊢
  obtain ⟨w', d', res⟩ := o
  cases res with
  | error e =>
    obtain ⟨-, hkept⟩ := happend.error e rfl
    exact ⟨happend.settings, hkept.truthful, hkept.sound.bare, fun _ => hkept.sound.sound⟩
  | ok done =>
    obtain ⟨hkept, hheld⟩ := happend.ok done rfl
    simp only
    cases hcounted : w'.countAt (w.windowFor r) count with
    | none => exact ⟨happend.settings, hkept.truthful, hkept.sound.bare, fun hpanic =>
      absurd rfl hpanic⟩
    | some w'' =>
      obtain ⟨hsettings, hsound⟩ := sound_countAt hkept.sound hheld hcount hcounted
      exact ⟨hsettings.trans happend.settings, hkept.truthful, (hsound (w.windowFor r)).bare,
        fun _ => hsound⟩

/-- What was resumed after does not count. -/
theorem Sound.of_days {w' : CaptureWriter} (h : w.Sound d)
    (hdays : ∀ day' ∈ w'.held, ∃ day ∈ w.held, day.window = day'.window ∧
    day.builder = day'.builder)
    (hapart : ∀ o ∈ w'.open_, ∀ p ∈ w'.previous, o.window ≠ p.window) : w'.Sound d := by
  intro window
  refine ⟨fun day' hday' => ?_, fun day' hday' => ?_, hapart⟩
  · obtain ⟨day, hday, hwindow, hbuilder⟩ := hdays day' hday'
    rw [← hwindow, ← hbuilder]
    exact (h window).tells day hday
  · obtain ⟨day, hday, hwindow, -⟩ := hdays day' hday'
    rw [← hwindow]
    exact (h window).bare day hday

theorem owedOf_eq_nil {r : Record} (h : isGap r = false) : owedOf r = [] := by
  rw [owedOf, h]
  rfl

/-- **A gap marker** is written and counted. -/
theorem left_appendGap {localTs : Int64} {reason : Text} {lastSeq : Option UInt64}
    {outageNs : Int64}
    (h : w.Sound d) (hd : d.Truthful) (hr : (gapRecord localTs reason lastSeq outageNs).Fits)
    (hplain : w.Opens (w.windowFor (gapRecord localTs reason lastSeq outageNs)) →
      Plain (d.files (w.windowFor (gapRecord localTs reason lastSeq outageNs)))) :
    w.Left (Call.run.outcome (w.appendGap d localTs reason lastSeq outageNs)) := by
  have howed : owedOf (gapRecord localTs reason lastSeq outageNs) = [outageNs] := by
    rw [owedOf, gapRecord, isGap_gap, outage_gap]
    rfl
  refine left_appendCounted h hd hr hplain fun b b' file htells hb => ?_
  rw [howed] at htells
  exact htells.observeGap hb

/-- **A clock offset** is written and counted. -/
theorem left_appendClockOffset {localTs offsetNs dispersionNs : Int64} (h : w.Sound d)
    (hd : d.Truthful)
    (hr : (Record.control localTs (Text.utf8 (Control.clockOffset offsetNs dispersionNs))).Fits)
    (hplain : w.Opens (w.windowFor
        (.control localTs (Text.utf8 (Control.clockOffset offsetNs dispersionNs)))) →
      Plain (d.files (w.windowFor
        (.control localTs (Text.utf8 (Control.clockOffset offsetNs dispersionNs)))))) :
    w.Left (Call.run.outcome (w.appendClockOffset d localTs offsetNs dispersionNs)) := by
  refine left_appendCounted h hd hr hplain fun b b' file htells hb => ?_
  rw [owedOf_eq_nil (isGap_clockOffset ..)] at htells
  exact htells.observeClockOffset hb

/-! ### The marker of a restart -/

theorem length_utf8_le (text : Text) : (Text.utf8 text).length ≤ 4 * text.length := by
  have hbytes : Text.utf8 text = text.flatMap String.utf8EncodeChar := by
    simp [Text.utf8, List.utf8Encode]
  rw [hbytes, List.length_flatMap]
  clear hbytes
  induction text with
  | nil => rfl
  | cons c text ih =>
    have hchar := c.utf8Size_le_four
    rw [List.map_cons, List.sum_cons, String.length_utf8EncodeChar, List.length_cons]
    omega

theorem length_display_le (v : Int64) : (Numeral.display v).length ≤ 20 := by
  have hdigits : (Decimal.digits v.toInt.natAbs).length ≤ 19 :=
    (Nat.length_toDigits_le_iff (by decide) (by decide)).mpr (by
      have := v.toInt_lt
      have := v.le_toInt
      omega)
  show (Coverage.displayI64 v).length ≤ 20
  unfold Coverage.displayI64
  split
  · rw [List.length_cons]
    omega
  · omega

theorem fits_restart (localTs outageNs : Int64) :
    (gapRecord localTs restarted none outageNs).Fits := by
  have hbytes := length_utf8_le (Control.gap restarted none outageNs)
  have hdisplay := length_display_le outageNs
  have hescaped : (escape restarted).length = 17 := by decide
  have hhead : ("\x7b\"type\":\"gap\",\"reason\":\"".toList).length = 24 := by decide
  have hseq : ("\",\"last_seq\":".toList).length = 13 := by decide
  have hkey : (",\"outage_ns\":".toList).length = 13 := by decide
  have htext : (Control.gap restarted none outageNs).length ≤ 200 := by
    unfold Control.gap
    simp only [List.length_append, hescaped, hhead, hseq, hkey, Option.map_none, Option.getD_none]
    have hnull : ("null".toList).length = 4 := by decide
    have hend : ("\x7d".toList).length = 1 := by decide
    omega
  show headerLenV2 + (Text.utf8 _).length ≤ maxFrameLen
  unfold headerLenV2 maxFrameLen
  omega

/-- Control records of one time go into one window. -/
theorem windowFor_control (c : Settings) (localTs : Int64) (p q : List UInt8) :
    c.windowFor (.control localTs p) = c.windowFor (.control localTs q) := rfl

/-- **The start of a session**, and the gap before it. -/
theorem left_appendSessionStart {localTs : Int64} (h : w.Sound d) (hd : d.Truthful)
    (hr : (w.sessionRecord localTs).Fits)
    (hplain : w.Opens (w.windowFor (w.sessionRecord localTs)) →
      Plain (d.files (w.windowFor (w.sessionRecord localTs)))) :
    w.Left (Call.run.outcome (w.appendSessionStart d localTs)) := by
  have hnone : owedOf (w.sessionRecord localTs) = [] := owedOf_eq_nil (isGap_sessionStart ..)
  have happend := appended_append h hd hr hplain
  have hleft := happend.left hnone
  unfold appendSessionStart
  generalize w.append d (w.sessionRecord localTs) = o at happend hleft ⊢
  obtain ⟨w', d', res⟩ := o
  cases res with
  | error e => exact hleft
  | ok done =>
    simp only
    cases hresumed : w'.open_.bind OpenDay.resumedAfter with
    | none => exact hleft
    | some last =>
      simp only
      obtain ⟨hkept, held, hmem, hwindow⟩ := happend.ok done rfl
      have hsound : w'.Sound d' := (hnone ▸ hkept.sound).sound
      have htaken : w'.takeResumed.Sound d' := by
        refine hsound.of_days (fun day' hday' => ?_) fun o ho p hp => ?_
        · rcases mem_held.mp hday' with hday' | hday'
          · obtain ⟨day, hopen, rfl⟩ := Option.map_eq_some_iff.mp hday'
            exact ⟨day, mem_held.mpr (.inl hopen), rfl, rfl⟩
          · exact ⟨day', mem_held.mpr (.inr hday'), rfl, rfl⟩
        · obtain ⟨day, hopen, rfl⟩ := Option.map_eq_some_iff.mp ho
          exact (hsound held.window).apart day hopen p hp
      split
      · -- the marker goes where the session's record went
        have hopens : ¬ w'.takeResumed.Opens (w'.takeResumed.windowFor
            (gapRecord localTs restarted none (satSub localTs last))) := by
          have hsettings : w'.takeResumed.toSettings = w.toSettings := happend.settings
          have hsame : w'.takeResumed.windowFor
              (gapRecord localTs restarted none (satSub localTs last)) = held.window := by
            rw [hwindow, hsettings]
            exact windowFor_control ..
          rw [hsame]
          rintro ⟨hall, -⟩
          rcases mem_held.mp hmem with hmem | hmem
          · refine hall { held with resumedAfter := none } (mem_held.mpr (.inl ?_)) rfl
            exact congrArg (Option.map _) hmem
          · exact hall held (mem_held.mpr (.inr hmem)) rfl
        have hgap := left_appendGap htaken hkept.truthful
          (fits_restart localTs (satSub localTs last))
          fun h => absurd h hopens
        generalize w'.takeResumed.appendGap d' localTs restarted none (satSub localTs last) =
          o at hgap ⊢
        obtain ⟨w'', d'', res⟩ := o
        have hsettings : w''.toSettings = w.toSettings := hgap.settings.trans happend.settings
        cases res with
        | error e => exact ⟨hsettings, hgap.truthful, hgap.bare, hgap.sound⟩
        | ok done' =>
          cases done' with
          | none => exact ⟨hsettings, hgap.truthful, hgap.bare, hgap.sound⟩
          | some _ => exact ⟨hsettings, hgap.truthful, hgap.bare, hgap.sound⟩
      · exact ⟨happend.settings, hkept.truthful, (htaken held.window).bare, fun _ => htaken⟩

/-- **Sealing** writes manifests that tell the truth. -/
theorem left_sealPrevious (h : w.Sound d) (hd : d.Truthful) :
    w.Left ((w.sealPrevious d).1, (w.sealPrevious d).2.1, none) := by
  have hkept := kept_sealPrevious ⟨h ⟨0, none⟩, hd⟩ fun _ _ _ => rfl
  exact ⟨(sealPrevious_same w d).1, hkept.truthful, hkept.sound.bare, fun _ => hkept.sound.sound⟩

theorem left_seal (h : w.Sound d) (hd : d.Truthful) : w.Left (Call.run.outcome (w.seal_ d)) := by
  have hleft := left_sealPrevious h hd
  unfold seal_
  generalize w.sealPrevious d = o at hleft ⊢
  obtain ⟨w', d', done⟩ := o
  have hsound : w'.Sound d' := hleft.sound nofun
  simp only
  cases hopen : w'.open_ with
  | none => exact ⟨hleft.settings, hleft.truthful, hleft.bare, fun _ => hsound⟩
  | some day =>
    have hday := (hsound day.window)
    have hmem : day ∈ w'.held := mem_held.mpr (.inl hopen)
    obtain ⟨file, hfile, htells⟩ := hday.tells day hmem
    rw [ite_self] at htells
    have hrest : { w' with open_ := none }.Sound (w'.sealDay d' day).1 := by
      intro window
      refine ⟨fun p hp => ?_, fun p hp => ?_, fun o ho => nomatch ho⟩
      · rcases mem_held.mp hp with hp | hp
        · cases hp
        · exact (hsound window).tells p (mem_held.mpr (.inr hp))
      · rcases mem_held.mp hp with hp | hp
        · cases hp
        · have hne := hday.apart day hopen p hp
          simp only [sealDay, Disk.setManifest, Function.update_apply, if_neg hne.symm]
          exact hday.bare p (mem_held.mpr (.inr hp))
    exact ⟨hleft.settings, Disk.truthful_setManifest hleft.truthful hfile htells,
      (hrest day.window).bare, fun _ => hrest⟩

end CaptureWriter

/-! ## Runs -/

/-- The record a call writes. -/
def Call.record (w : CaptureWriter) : Call → Option Record
  | append r => some r
  | gap localTs reason lastSeq outageNs =>
    some (CaptureWriter.gapRecord localTs reason lastSeq outageNs)
  | clockOffset localTs offsetNs dispersionNs =>
    some (.control localTs (Text.utf8 (Control.clockOffset offsetNs dispersionNs)))
  | sessionStart localTs => some (w.sessionRecord localTs)
  | seal_ => none
  | sealPrevious => none

/-- The calls a manifest can tell the truth about: what is written fits a frame, a gap marker is
written as one, and a window that the call opens has neither a gap marker nor a version 1 frame
in its file. -/
def Call.Meets (c : Call) (w : CaptureWriter) (d : Disk) : Prop :=
  ∀ r, c.record w = some r → r.Fits ∧ (c = .append r → isGap r = false) ∧
    (w.Opens (w.windowFor r) → Plain (d.files (w.windowFor r)))

theorem Call.left {c : Call} {w : CaptureWriter} {d : Disk} (h : w.Sound d) (hd : d.Truthful)
    (hc : c.Meets w d) : w.Left (c.run w d) := by
  cases c with
  | append r =>
    obtain ⟨hr, hgap, hplain⟩ := hc r rfl
    exact (CaptureWriter.appended_append h hd hr hplain).left
      (CaptureWriter.owedOf_eq_nil (hgap rfl))
  | gap localTs reason lastSeq outageNs =>
    obtain ⟨hr, -, hplain⟩ := hc _ rfl
    exact CaptureWriter.left_appendGap h hd hr hplain
  | clockOffset localTs offsetNs dispersionNs =>
    obtain ⟨hr, -, hplain⟩ := hc _ rfl
    exact CaptureWriter.left_appendClockOffset h hd hr hplain
  | sessionStart localTs =>
    obtain ⟨hr, -, hplain⟩ := hc _ rfl
    exact CaptureWriter.left_appendSessionStart h hd hr hplain
  | seal_ => exact CaptureWriter.left_seal h hd
  | sealPrevious => exact CaptureWriter.left_sealPrevious h hd

/-- An event whose call, if it is one that is made, meets that. -/
def Event.Meets (e : Event) (s : State) : Prop :=
  ∀ c w, e = .call c → s.writer = some w → s.panicked = false → c.Meets w s.disk

namespace State

/-- A run whose events all do. -/
def Meets : State → List Event → Prop
  | _, [] => True
  | s, e :: es => e.Meets s ∧ Meets (s.step e) es

/-- What every such run keeps. -/
structure Honest (s : State) : Prop where
  truthful : s.disk.Truthful
  bare : ∀ w ∈ s.writer, ∀ day ∈ w.held, s.disk.manifests day.window = none
  sound : ∀ w ∈ s.writer, s.panicked = false → w.Sound s.disk

theorem Honest.step {s : State} {e : Event} (h : s.Honest) (he : e.Meets s) :
    (s.step e).Honest := by
  cases e with
  | start c =>
    simp only [State.step]
    split
    · refine ⟨h.truthful, fun w hw day hday => ?_, fun w hw _ window => ?_⟩
      · obtain rfl := Option.some.inj hw
        cases hday
      · obtain rfl := Option.some.inj hw
        exact ⟨fun day hday => (by cases hday), fun day hday => (by cases hday), fun o ho =>
          by cases ho⟩
    · exact h
  | call c =>
    unfold State.step
    cases hw : s.writer with
    | none => exact h
    | some w =>
      by_cases hpanicked : s.panicked = true
      · simp only [if_pos hpanicked]
        exact h
      · have hlive : s.panicked = false := Bool.eq_false_iff.mpr hpanicked
        have hleft := Call.left (h.sound w hw hlive) h.truthful (he c w rfl hw hlive)
        simp only [if_neg hpanicked]
        refine ⟨hleft.truthful, fun w' hw' => ?_, fun w' hw' hnot => ?_⟩
        · obtain rfl := Option.some.inj hw'
          exact hleft.bare
        · obtain rfl := Option.some.inj hw'
          exact hleft.sound (of_decide_eq_false hnot)
  | crash reached =>
    unfold State.step
    cases hw : s.writer with
    | none => exact h
    | some w =>
      refine ⟨fun window m hm => ?_, fun w' hw' => (by cases hw'), fun w' hw' => by cases hw'⟩
      obtain ⟨file, hfile, htells⟩ := h.truthful window m hm
      refine ⟨file, ?_, htells⟩
      have hnot : (w.held.any fun day => decide (day.window = window)) = false := by
        refine List.any_eq_false.mpr fun day hday => ?_
        intro hsame
        have hbare := h.bare w hw day hday
        rw [of_decide_eq_true hsame] at hbare
        cases hm.symm.trans hbare
      simp only [Disk.cut, hnot]
      exact hfile

theorem Honest.run {s : State} {es : List Event} (h : s.Honest) (hes : s.Meets es) :
    (s.run es).Honest := by
  induction es generalizing s with
  | nil => exact h
  | cons e es ih => exact ih (h.step hes.1) hes.2

theorem honest_idle {d : Disk} (h : d.Truthful) : (idle d).Honest :=
  ⟨h, fun _ hw => (nomatch hw), fun _ hw => nomatch hw⟩

end State

end Capture
