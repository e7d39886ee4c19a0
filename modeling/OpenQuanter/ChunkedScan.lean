/-
# Scanning a file in pieces (`oq-l2feed/src/writer.rs`, `oq-l2feed/src/frame.rs`)

A window that is opened again is counted from its file, a read at a time: a frame may lie across
any number of reads, and what looks torn inside the file is only not there yet.  The loops are
here with all that they show, also when they fail (`scanReads`, `found`); whoever observes the
records sees those of the whole file decoded at once (`scanFile_observes`).  The scan the writer
counts with is the one whose observer is its builder (`scanExisting_eq`).
-/
import OpenQuanter.CaptureTruth

namespace Capture

/-! ## Decoding a whole buffer -/

/-- The loop of `decode_all`, with the records it has when it stops. -/
def foundFrames : Nat → List UInt8 → List Record × Except DecodeError Nat
  | 0, _ => ([], .ok 0)
  | fuel + 1, input =>
    if input = [] then ([], .ok 0)
    else
      match decode input with
      | .ok (record, consumed) =>
        let (records, torn) := foundFrames fuel (input.drop consumed)
        (record :: records, torn)
      | .error .truncated => ([], .ok input.length)
      | .error other => ([], .error other)

/-- The records in front of what stops the decoding, and whether that is a torn tail. -/
def found (input : List UInt8) : List Record × Except DecodeError Nat :=
  foundFrames input.length input

/-- `decode_all` returns what it found, or the error. -/
theorem decodeFrames_eq_found (fuel : Nat) (input : List UInt8) :
    decodeFrames fuel input =
      (foundFrames fuel input).2.map fun torn => ((foundFrames fuel input).1, torn) := by
  induction fuel generalizing input with
  | zero => rfl
  | succ fuel ih =>
    rw [decodeFrames, foundFrames]
    by_cases hnil : input = []
    · rw [if_pos hnil, if_pos hnil]
      rfl
    rw [if_neg hnil, if_neg hnil]
    cases hdecode : decode input with
    | error e => cases e <;> rfl
    | ok step =>
      obtain ⟨r, n⟩ := step
      simp only [ih]
      cases (foundFrames fuel (input.drop n)).2 <;> rfl

theorem decodeAll_eq_found (input : List UInt8) :
    decodeAll input = (found input).2.map fun torn => ((found input).1, torn) :=
  decodeFrames_eq_found input.length input

/-- What is found is decided by where the frames end. -/
theorem foundFrames_file {frames : List Frame} {rest : List UInt8} {e : DecodeError}
    (hrest : decode rest = .error e) {fuel : Nat}
    (h : (Frame.file frames ++ rest).length ≤ fuel) :
    foundFrames fuel (Frame.file frames ++ rest) =
      (frames.map fun f => f.record, if e = .truncated then .ok rest.length else .error e) := by
  induction frames generalizing fuel with
  | nil =>
    rw [Frame.file_nil, List.nil_append] at h ⊢
    cases fuel with
    | zero =>
      obtain rfl := List.length_eq_zero_iff.mp (Nat.le_zero.mp h)
      obtain rfl := Except.error.inj hrest
      rfl
    | succ fuel =>
      rw [foundFrames]
      by_cases hnil : rest = []
      · subst hnil
        obtain rfl := Except.error.inj hrest
        rfl
      · rw [if_neg hnil, hrest]
        cases e with
        | truncated => rfl
        | _ => rfl
  | cons f frames ih =>
    have hpos := f.len_pos
    rw [Frame.file_cons, List.append_assoc] at h ⊢
    have hne : f.bytes ++ (Frame.file frames ++ rest) ≠ [] := by
      refine List.ne_nil_of_length_pos ?_
      rw [List.length_append, Framed.length_bytes]
      omega
    rw [List.length_append, Framed.length_bytes] at h
    obtain ⟨fuel, rfl⟩ : ∃ k, fuel = k + 1 := ⟨fuel - 1, by omega⟩
    rw [foundFrames, if_neg hne, f.decode_bytes]
    simp only
    rw [← f.length_bytes, List.drop_left, ih (by omega)]
    rfl

theorem found_file {frames : List Frame} {rest : List UInt8} {e : DecodeError}
    (hrest : decode rest = .error e) : found (Frame.file frames ++ rest) =
      (frames.map fun f => f.record, if e = .truncated then .ok rest.length else .error e) :=
  foundFrames_file hrest le_rfl

/-! ## Scanning, for any observer -/

section

variable {β : Type} (observe : β → Record → β)

/-- The inner loop of `scan_existing`: the whole frames at the front of what is pending are
observed; where they end, or what is no frame. -/
def drainInto : Nat → β → List UInt8 → β × Except DecodeError Nat
  | 0, b, _ => (b, .ok 0)
  | fuel + 1, b, pending =>
    match decode pending with
    | .ok (record, consumed) =>
      let (b', offset) := drainInto fuel (observe b record) (pending.drop consumed)
      (b', offset.map (consumed + ·))
    | .error .truncated => (b, .ok 0)
    | .error other => (b, .error other)

/-- The outer loop: what is pending is drained, then there is the next read. -/
def scanReads (b : β) (pending : List UInt8) (clean : Nat) :
    List (List UInt8) → β × Except DecodeError Nat
  | [] =>
    let (b', offset) := drainInto observe pending.length b pending
    (b', offset.map (clean + ·))
  | read :: reads =>
    match drainInto observe pending.length b pending with
    | (b', .error e) => (b', .error e)
    | (b', .ok offset) => scanReads b' (pending.drop offset ++ read) (clean + offset) reads

/-- A file and the reads it comes in, none of them empty before its end and none longer than what
is read at once. -/
structure ReadFile (size : Nat) where
  content : List UInt8
  reads : List (List UInt8)
  flatten_reads : reads.flatten = content
  of_reads : ∀ read ∈ reads, read ≠ [] ∧ read.length ≤ size

/-- `scan_existing`: where the last whole record ends and how long the file is, if there are any
bytes.  The observer keeps what it was shown, also of a file that is damaged. -/
def scanFile {size : Nat} (b : β) :
    Option (ReadFile size) → β × Except DecodeError (Option (Nat × Nat))
  | none => (b, .ok none)
  | some file =>
    if file.content = [] then (b, .ok none)
    else
      let (b', clean) := scanReads observe b [] 0 file.reads
      (b', clean.map fun clean => some (clean, file.content.length))

variable {observe}

/-- The inner loop observes the frames that are whole. -/
theorem drainInto_file {frames : List Frame} {rest : List UInt8} {e : DecodeError}
    (hrest : decode rest = .error e) (b : β) {fuel : Nat}
    (h : (Frame.file frames ++ rest).length ≤ fuel) :
    drainInto observe fuel b (Frame.file frames ++ rest) =
      ((frames.map fun f => f.record).foldl observe b,
        if e = .truncated then .ok (Frame.file frames).length else .error e) := by
  induction frames generalizing b fuel with
  | nil =>
    rw [Frame.file_nil, List.nil_append] at h ⊢
    cases fuel with
    | zero =>
      obtain rfl := List.length_eq_zero_iff.mp (Nat.le_zero.mp h)
      obtain rfl := Except.error.inj hrest
      rfl
    | succ fuel =>
      rw [drainInto, hrest]
      cases e with
      | truncated => rfl
      | _ => rfl
  | cons f frames ih =>
    have hpos := f.len_pos
    rw [Frame.file_cons, List.append_assoc] at h ⊢
    rw [List.length_append, Framed.length_bytes] at h
    obtain ⟨fuel, rfl⟩ : ∃ k, fuel = k + 1 := ⟨fuel - 1, by omega⟩
    rw [drainInto, f.decode_bytes]
    simp only
    rw [← f.length_bytes, List.drop_left, ih _ (by omega)]
    split
    · rw [List.length_append]
      rfl
    · rfl

/-- **Any reads show the observer what the whole content holds.**  The induction is on the reads;
what is pending never starts with a whole frame after it was drained. -/
theorem scanReads_eq (b : β) (pending : List UInt8) (clean : Nat) (reads : List (List UInt8)) :
    scanReads observe b pending clean reads =
      ((found (pending ++ reads.flatten)).1.foldl observe b,
        (found (pending ++ reads.flatten)).2.map fun torn =>
          clean + ((pending ++ reads.flatten).length - torn)) := by
  obtain ⟨frames, rest, e, hpending, hrest, -⟩ := drain_spec .new (le_refl pending.length)
  induction reads generalizing b pending clean frames rest e with
  | nil =>
    rw [List.flatten_nil, List.append_nil, scanReads, hpending, drainInto_file hrest b le_rfl,
      found_file hrest]
    by_cases he : e = .truncated
    · simp [he, Except.map]
    · simp [he, Except.map]
  | cons read reads ih =>
    have hall : pending ++ (read :: reads).flatten =
        Frame.file frames ++ (rest ++ read ++ reads.flatten) := by
      rw [hpending, List.flatten_cons]
      simp only [List.append_assoc]
    rw [scanReads, hall, hpending, drainInto_file hrest b le_rfl]
    by_cases he : e = .truncated
    · -- a torn frame may be whole once more of the file is there
      obtain ⟨frames', rest', e', hnext, hrest', -⟩ :=
        drain_spec .new (le_refl (rest ++ read).length)
      obtain ⟨frames'', rest'', e'', hafter, hrest'', -⟩ :=
        drain_spec .new (le_refl (rest ++ read ++ reads.flatten).length)
      have hfound : found (Frame.file frames ++ (rest ++ read ++ reads.flatten)) =
          ((frames.map fun f => f.record) ++ (found (rest ++ read ++ reads.flatten)).1,
            (found (rest ++ read ++ reads.flatten)).2) := by
        rw [hafter, ← List.append_assoc, ← file_append, found_file hrest'',
          found_file hrest'', List.map_append]
      have hle : ∀ torn, (found (rest ++ read ++ reads.flatten)).2 = .ok torn →
          torn ≤ (rest ++ read ++ reads.flatten).length := by
        intro torn htorn
        rw [hafter, found_file hrest''] at htorn
        rw [hafter, List.length_append]
        split at htorn
        · obtain rfl := Except.ok.inj htorn
          omega
        · cases htorn
      simp only [if_pos he, List.drop_left]
      rw [ih _ _ _ _ _ _ hnext hrest', hfound, List.foldl_append]
      cases hend : (found (rest ++ read ++ reads.flatten)).2 with
      | error e => rfl
      | ok torn =>
        have := hle torn hend
        simp only [Except.map, List.length_append] at this ⊢
        congr 2
        omega
    · -- damage is damage whatever comes after it
      have hdamage : decode (rest ++ (read ++ reads.flatten)) = .error e := by
        rw [decode_append (by rw [hrest]; exact fun h => he (Except.error.inj h)), hrest]
      simp only [if_neg he]
      rw [List.append_assoc, found_file hdamage, if_neg he]
      rfl

end

/-- **A file scanned in pieces is the file decoded whole.**  Whatever is read at once, the
observer is shown the records `decode_all` finds, in that order; the scan ends where those end;
and it fails as `decode_all` fails. -/
theorem scanFile_observes {β : Type} (observe : β → Record → β) (b : β) {size : Nat}
    (file : ReadFile size) :
    scanFile observe b (some file) = ((found file.content).1.foldl observe b,
      (decodeAll file.content).map fun p => if file.content = [] then none
        else some (file.content.length - p.2, file.content.length)) ∧
    decodeAll file.content =
      (found file.content).2.map fun torn => ((found file.content).1, torn) := by
  refine ⟨?_, decodeAll_eq_found _⟩
  rw [scanFile, decodeAll_eq_found]
  by_cases hnil : file.content = []
  · rw [if_pos hnil, hnil]
    rfl
  rw [if_neg hnil, scanReads_eq, List.nil_append, file.flatten_reads]
  cases (found file.content).2 with
  | error e => rfl
  | ok torn => simp [Except.map, hnil]

/-! ## The writer's scan -/

/-- A file read as it is counted: a whole piece at a time. -/
def ReadFile.inPieces {size : Nat} (hsize : 0 < size) (content : List UInt8) : ReadFile size where
  content := content
  reads := pieces size content.length content
  flatten_reads := flatten_pieces hsize le_rfl
  of_reads := by
    generalize content.length = fuel
    induction fuel generalizing content with
    | zero => exact fun read hread => nomatch hread
    | succ fuel ih =>
      rw [pieces]
      split
      · exact fun read hread => nomatch hread
      · rename_i hne
        refine List.forall_mem_cons.mpr ⟨⟨?_, List.length_take_le _ _⟩, ih _⟩
        have hpos := List.length_pos_of_ne_nil hne
        refine List.ne_nil_of_length_pos ?_
        rw [List.length_take]
        omega

theorem drain_eq_drainInto (fuel : Nat) (b : ManifestBuilder) (pending : List UInt8) :
    drain fuel b pending = (drainInto ManifestBuilder.observe fuel b pending).2.map
      fun offset => ((drainInto ManifestBuilder.observe fuel b pending).1, offset) := by
  induction fuel generalizing b pending with
  | zero => rfl
  | succ fuel ih =>
    rw [drain, drainInto]
    cases hdecode : decode pending with
    | error e => cases e <;> rfl
    | ok step =>
      simp only [ih]
      cases (drainInto ManifestBuilder.observe fuel (b.observe step.1)
        (pending.drop step.2)).2 <;> rfl

theorem scanPieces_eq_scanReads (b : ManifestBuilder) (pending : List UInt8) (clean : Nat)
    (ps : List (List UInt8)) : scanPieces b pending clean ps =
      (scanReads ManifestBuilder.observe b pending clean ps).2.map
        fun clean' => ((scanReads ManifestBuilder.observe b pending clean ps).1, clean') := by
  induction ps generalizing b pending clean with
  | nil =>
    rw [scanPieces, scanReads, drain_eq_drainInto]
    simp only
    cases (drainInto ManifestBuilder.observe pending.length b pending).2 <;> rfl
  | cons piece ps ih =>
    rw [scanPieces, scanReads, drain_eq_drainInto]
    obtain ⟨b', res⟩ := drainInto ManifestBuilder.observe pending.length b pending
    cases res with
    | error e => rfl
    | ok offset => exact ih _ _ _

/-- **The window the writer opens** is scanned by its builder. -/
theorem scanExisting_eq (file : Option (List UInt8)) :
    let scanned := scanFile ManifestBuilder.observe .new
      (file.map (ReadFile.inPieces (show 0 < pieceSize by decide)))
    scanExisting file = scanned.2.map fun ends => (scanned.1, ends) := by
  cases file with
  | none => rfl
  | some bytes =>
    simp only [Option.map_some, scanFile, scanExisting]
    by_cases hnil : bytes = []
    · rw [if_pos hnil, if_pos (show (ReadFile.inPieces _ bytes).content = [] from hnil)]
      rfl
    · rw [if_neg hnil, if_neg (show (ReadFile.inPieces _ bytes).content ≠ [] from hnil),
        scanPieces_eq_scanReads]
      simp only [ReadFile.inPieces]
      cases (scanReads ManifestBuilder.observe .new [] 0
        (pieces pieceSize bytes.length bytes)).2 <;> rfl

end Capture
