/-
# Appending to a journal (`oq-journal/src/writer.rs`)

The writer numbers a record, frames it and appends it.  Opening a file replays
it, drops a torn tail and continues the sequence.

* A writer that holds records holds one more after an append
  (`Holds.append`, `Holds.appendAll`).
* Cutting the file anywhere loses the records that end behind the cut and no
  other; the writer opened on what is left carries on from there.
* Whatever the bytes of the file, what opening it drops holds no frame that
  could be read.

`file` is what the file holds once everything handed to it is written: a crash
leaves the beginning of it, whatever the sync policy, which is not modelled.
-/
import OpenQuanter.Reader

namespace Journal

/-- A record to append; the source asserts the limit on its payload. -/
structure Record where
  kind : UInt16
  payload : List UInt8
  within : payload.length ≤ Frame.maxPayload

/-- The frame of a record that is given number `n`. -/
def Record.frame (n : Nat) (r : Record) : Frame :=
  { seq := UInt64.ofNat n, kind := r.kind, payload := r.payload }

/-- The frames of records numbered from `n` on. -/
def framesFrom (n : Nat) : List Record → List Frame
  | [] => []
  | r :: rest => r.frame n :: framesFrom (n + 1) rest

/-- What the file does with one write: everything is written, or only the first
`reached` bytes. -/
inductive WriteResult where
  | ok
  | failed (reached : Nat)
  deriving DecidableEq, Repr

/-- The writer.  `device` is what the file will do with the next writes; behind
its end every write succeeds. -/
structure Writer where
  file : List UInt8
  nextSeq : UInt64
  bytesWritten : Nat
  broken : Bool
  failIn : Option Nat
  device : List WriteResult

namespace Writer

/-- Open a file for appending: replay it, drop a torn tail, continue the
sequence. -/
def open_ (device : List WriteResult) (bytes : List UInt8) : Except JournalError Writer :=
  match Reader.replay bytes with
  | .error e => .error e
  | .ok replay =>
    .ok
      { file := bytes.take (Reader.cleanLen bytes replay.stop)
        nextSeq := replay.nextSeq
        bytesWritten := Reader.cleanLen bytes replay.stop
        broken := false
        failIn := none
        device := device }

/-- `fail_after`: accept that many more records, then fail. -/
def failAfter (w : Writer) (appends : Nat) : Writer := { w with failIn := some appends }

/-- The guarded write of one frame: a failure leaves part of it and breaks the
writer for good. -/
def write (w : Writer) (frame : Frame) (next : UInt64) : Except JournalError UInt64 × Writer :=
  match w.device with
  | .failed reached :: rest =>
    (.error .io,
      { w with file := w.file ++ frame.encode.take reached, broken := true, device := rest })
  | device =>
    (.ok frame.seq,
      { w with
        file := w.file ++ frame.encode
        nextSeq := next
        bytesWritten := w.bytesWritten + frame.encodedLen
        device := device.tail })

/-- Append one record, returning the number it was given. -/
def append (w : Writer) (kind : UInt16) (payload : List UInt8) :
    Except JournalError UInt64 × Writer :=
  if w.broken then (.error .broken, w)
  else
    match Reader.nextSeq w.nextSeq with
    | none => (.error .sequenceExhausted, w)
    | some next =>
      if w.failIn = some 0 then (.error .io, { w with broken := true })
      else
        { w with failIn := w.failIn.map (· - 1) }.write
          { seq := w.nextSeq, kind := kind, payload := payload } next

/-- Append records one after the other, stopping at the first failure. -/
def appendAll : Writer → List Record → Except JournalError Writer
  | w, [] => .ok w
  | w, r :: rest =>
    match w.append r.kind r.payload with
    | (.ok _, next) => next.appendAll rest
    | (.error e, _) => .error e

end Writer

/-! ## The frames of a list of records -/

section FramesFrom

variable (n : Nat) (records : List Record)

@[simp] theorem length_framesFrom : (framesFrom n records).length = records.length := by
  induction records generalizing n with
  | nil => rfl
  | cons r rest ih => simp [framesFrom, ih]

theorem framesFrom_append (more : List Record) :
    framesFrom n (records ++ more) =
      framesFrom n records ++ framesFrom (n + records.length) more := by
  induction records generalizing n with
  | nil => rfl
  | cons r rest ih =>
    have hcount : n + 1 + rest.length = n + (r :: rest).length := by
      rw [List.length_cons]
      omega
    rw [List.cons_append, framesFrom, ih, hcount]
    rfl

theorem numbered_framesFrom (hroom : n + records.length < 2 ^ 64) :
    Reader.Numbered n (framesFrom n records) := by
  induction records generalizing n with
  | nil => exact .nil n
  | cons r rest ih =>
    rw [List.length_cons] at hroom
    exact .cons rfl r.within (by omega) (ih (n + 1) (by omega))

end FramesFrom

/-! ## Cutting the file -/

/-- Where the `m`-th record ends. -/
def boundary (records : List Record) (m : Nat) : Nat :=
  (Reader.written (framesFrom 0 (records.take m))).length

/-- How many records end at or before a cut. -/
def wholeBefore (records : List Record) (cut : Nat) : Nat :=
  Nat.findGreatest (fun m => boundary records m ≤ cut) records.length

/-- What a cut leaves behind the last whole record. -/
def fragment (records : List Record) (cut : Nat) : List UInt8 :=
  ((Reader.written (framesFrom 0 records)).take cut).drop
    (boundary records (wholeBefore records cut))

section Cut

variable {records : List Record} {cut m : Nat}

/-- One record further, one frame further. -/
theorem boundary_succ (h : m < records.length) :
    boundary records (m + 1) = boundary records m + (records[m].frame m).encodedLen := by
  have htake : records.take (m + 1) = records.take m ++ [records[m]] :=
    (List.take_append_getElem h).symm
  have hcount : 0 + (records.take m).length = m := by
    rw [List.length_take]
    omega
  rw [boundary, htake, framesFrom_append, hcount]
  simp [boundary, Reader.written, framesFrom]

theorem boundary_lt_succ (h : m < records.length) :
    boundary records m < boundary records (m + 1) := by
  have hpos := Frame.encodedLen_pos (records[m].frame m)
  rw [boundary_succ h]
  omega

theorem boundary_mono {i j : Nat} (hij : i ≤ j) (hj : j ≤ records.length) :
    boundary records i ≤ boundary records j := by
  induction j, hij using Nat.le_induction with
  | base => exact Nat.le_refl _
  | succ j _ ih => exact (ih (by omega)).trans (boundary_lt_succ (by omega)).le

theorem wholeBefore_le : wholeBefore records cut ≤ records.length :=
  Nat.findGreatest_le _

theorem boundary_wholeBefore : boundary records (wholeBefore records cut) ≤ cut := by
  have hzero : boundary records 0 ≤ cut := by simp [boundary, framesFrom, Reader.written]
  exact Nat.findGreatest_spec (P := fun m => boundary records m ≤ cut) (Nat.zero_le _) hzero

/-- The records wholly before a cut are those that end before it. -/
theorem lt_wholeBefore_iff {i : Nat} (hi : i < records.length) :
    i < wholeBefore records cut ↔ boundary records (i + 1) ≤ cut := by
  constructor
  · intro h
    exact (boundary_mono h wholeBefore_le).trans boundary_wholeBefore
  · intro h
    by_contra hnot
    exact Nat.findGreatest_is_greatest (P := fun m => boundary records m ≤ cut)
      (Nat.lt_succ_of_le (Nat.le_of_not_lt hnot)) hi h

/-- **A cut leaves whole frames and the beginning of one more.** -/
theorem take_written (hcut : cut ≤ (Reader.written (framesFrom 0 records)).length) :
    ∃ (f : Frame) (k : Nat), f.payload.length ≤ Frame.maxPayload ∧ k < f.encodedLen ∧
      cut = boundary records (wholeBefore records cut) + k ∧
      (Reader.written (framesFrom 0 records)).take cut =
        Reader.written (framesFrom 0 (records.take (wholeBefore records cut))) ++
          f.encode.take k := by
  have hle : boundary records (wholeBefore records cut) ≤ cut := boundary_wholeBefore
  have hbound : wholeBefore records cut ≤ records.length := wholeBefore_le
  have hnext := @lt_wholeBefore_iff records cut
  generalize wholeBefore records cut = m at hle hbound hnext
  have hcount : 0 + (records.take m).length = m := by
    rw [List.length_take]
    omega
  have hsplit : Reader.written (framesFrom 0 records) =
      Reader.written (framesFrom 0 (records.take m)) ++
        Reader.written (framesFrom m (records.drop m)) := by
    have happend := framesFrom_append 0 (records.take m) (records.drop m)
    rw [List.take_append_drop, hcount] at happend
    rw [happend, Reader.written, List.flatMap_append]
    rfl
  rw [hsplit, List.length_append] at hcut
  rcases Nat.eq_or_lt_of_le hbound with hall | hsome
  · -- every record is whole, and nothing is left
    refine ⟨⟨0, 0, []⟩, 0, by decide, by decide, ?_, ?_⟩
    · rw [hall, List.drop_length] at hcut
      have hnil : (Reader.written (framesFrom records.length [])).length = 0 := rfl
      rw [hnil] at hcut
      rw [boundary, hall] at hle ⊢
      omega
    · rw [hsplit, List.take_append, List.take_of_length_le hle, hall, List.drop_length]
      simp [framesFrom, Reader.written]
  · -- the cut falls inside the next record
    have hafter : cut < boundary records (m + 1) := by
      have hiff := hnext hsome
      simpa using hiff
    rw [boundary_succ hsome] at hafter
    have hdrop : records.drop m = records[m] :: records.drop (m + 1) :=
      List.drop_eq_getElem_cons hsome
    refine ⟨records[m].frame m, cut - boundary records m, records[m].within, by omega, by omega, ?_⟩
    have hshort : cut - boundary records m ≤ (records[m].frame m).encode.length := by
      rw [Frame.length_encode]
      omega
    rw [hsplit, List.take_append, List.take_of_length_le hle, hdrop, framesFrom, Reader.written,
      Reader.written, List.flatMap_cons]
    congr 1
    exact List.take_append_of_le_length hshort

end Cut

/-! ## A writer and the records it holds -/

namespace Writer

/-- One write: it fails with some of the frame in the file, or all of it is. -/
theorem write_cases (w : Writer) (frame : Frame) (next : UInt64) :
    (∃ reached w', w.write frame next = (.error .io, w') ∧
      w'.file = w.file ++ frame.encode.take reached) ∨
    ∃ w', w.write frame next = (.ok frame.seq, w') ∧ w'.file = w.file ++ frame.encode ∧
      w'.nextSeq = next ∧ w'.broken = w.broken := by
  unfold write
  split
  · exact .inl ⟨_, _, rfl, rfl⟩
  · exact .inr ⟨_, rfl, rfl, rfl, rfl⟩

/-- A working writer over a file of whole records. -/
structure Holds (w : Writer) (records : List Record) : Prop where
  file : w.file = Reader.written (framesFrom 0 records)
  nextSeq : w.nextSeq = UInt64.ofNat records.length
  working : w.broken = false
  failIn : w.failIn = none
  device : w.device = []

/-- One append, one record more. -/
theorem Holds.append {w : Writer} {records : List Record} (h : w.Holds records) (r : Record)
    (hroom : records.length + 1 < 2 ^ 64) :
    ∃ w', w.append r.kind r.payload = (.ok (UInt64.ofNat records.length), w') ∧
      w'.Holds (records ++ [r]) := by
  have hnext : Reader.nextSeq (UInt64.ofNat records.length) =
      some (UInt64.ofNat (records.length + 1)) := by
    rw [Reader.nextSeq_ofNat hroom, Reader.due]
  have happended : w.append r.kind r.payload =
      (.ok (UInt64.ofNat records.length),
        { file := w.file ++ (r.frame records.length).encode
          nextSeq := UInt64.ofNat (records.length + 1)
          bytesWritten := w.bytesWritten + (r.frame records.length).encodedLen
          broken := false
          failIn := none
          device := [] }) := by
    simp only [Writer.append, h.nextSeq, hnext, h.working, h.failIn, write, h.device]
    rfl
  refine ⟨_, happended, ⟨?_, ?_, rfl, rfl, rfl⟩⟩
  · rw [framesFrom_append, Reader.written, List.flatMap_append, ← Reader.written, ← h.file]
    simp [framesFrom]
  · rw [List.length_append]
    rfl

theorem Holds.appendAll {w : Writer} {records : List Record} (h : w.Holds records)
    (more : List Record) (hroom : records.length + more.length < 2 ^ 64) :
    ∃ w', w.appendAll more = .ok w' ∧ w'.Holds (records ++ more) := by
  induction more generalizing w records with
  | nil => exact ⟨w, rfl, by rwa [List.append_nil]⟩
  | cons r rest ih =>
    rw [List.length_cons] at hroom
    obtain ⟨w₁, hfirst, hholds⟩ := h.append r (by omega)
    obtain ⟨w₂, hrest, hall⟩ := ih hholds (by rw [List.length_append, List.length_singleton]; omega)
    refine ⟨w₂, ?_, ?_⟩
    · rw [Writer.appendAll, hfirst]
      exact hrest
    · rwa [List.append_assoc] at hall

/-- What such a writer's file replays to. -/
theorem Holds.replay {w : Writer} {records : List Record} (h : w.Holds records)
    (hroom : records.length < 2 ^ 64) :
    Reader.replay w.file =
      .ok { frames := framesFrom 0 records, stop := .clean
            nextSeq := UInt64.ofNat records.length } := by
  have hnumbered := numbered_framesFrom 0 records (by omega)
  rw [h.file, Reader.replay_clean hnumbered, length_framesFrom]

/-- Opening a file of whole records and the beginning of one more. -/
theorem open_holds {bytes : List UInt8} {records : List Record} {stop : ReplayStop} {n : Nat}
    (hreplay : Reader.replay bytes =
      .ok { frames := framesFrom 0 records, stop := stop, nextSeq := UInt64.ofNat n })
    (hcount : records.length = n)
    (hclean : bytes.take (Reader.cleanLen bytes stop) =
      Reader.written (framesFrom 0 records)) :
    ∃ w, open_ [] bytes = .ok w ∧ w.Holds records := by
  have hopened : open_ [] bytes = .ok
      { file := bytes.take (Reader.cleanLen bytes stop)
        nextSeq := UInt64.ofNat n
        bytesWritten := Reader.cleanLen bytes stop
        broken := false
        failIn := none
        device := [] } := by
    rw [open_, hreplay]
  exact ⟨_, hopened, ⟨hclean, by rw [hcount], rfl, rfl, rfl⟩⟩

/-- A new file. -/
theorem open_nil : ∃ w, open_ [] [] = .ok w ∧ w.Holds [] := by
  have hreplay := Reader.replay_clean (.nil 0)
  exact open_holds hreplay rfl rfl

end Writer

/-- **What a cut leaves replays to the records before it**, and the file opened
again holds exactly those. -/
theorem replay_cut {records : List Record} {cut : Nat} (hroom : records.length < 2 ^ 64)
    (hcut : cut ≤ (Reader.written (framesFrom 0 records)).length)
    (hnone : ∀ p : Nat, (Frame.decode ((fragment records cut).drop p)).isOk = false) :
    ∃ stop, Reader.replay ((Reader.written (framesFrom 0 records)).take cut) =
        .ok { frames := framesFrom 0 (records.take (wholeBefore records cut)), stop := stop
              nextSeq := UInt64.ofNat (wholeBefore records cut) } ∧
      stop = (if cut = boundary records (wholeBefore records cut) then .clean else
        .tornTail (boundary records (wholeBefore records cut))
          (cut - boundary records (wholeBefore records cut))) ∧
      ((Reader.written (framesFrom 0 records)).take cut).take
          (Reader.cleanLen ((Reader.written (framesFrom 0 records)).take cut) stop) =
        Reader.written (framesFrom 0 (records.take (wholeBefore records cut))) := by
  obtain ⟨f, k, hpayload, hk, hcutAt, hbytes⟩ := take_written hcut
  have hbound : wholeBefore records cut ≤ records.length := wholeBefore_le
  rw [fragment, hbytes, boundary, List.drop_left] at hnone
  rw [hbytes]
  rw [boundary] at hcutAt ⊢
  generalize wholeBefore records cut = m at hcutAt hbound ⊢
  have hlength : (records.take m).length = m := by
    rw [List.length_take]
    omega
  have hnumbered := numbered_framesFrom 0 (records.take m) (by omega)
  rcases Nat.eq_zero_or_pos k with rfl | hpos
  · refine ⟨.clean, ?_, ?_, ?_⟩
    · rw [List.take_zero, List.append_nil, Reader.replay_clean hnumbered, length_framesFrom,
        hlength]
    · rw [if_pos (by omega)]
    · rw [List.take_zero, List.append_nil, Reader.cleanLen, List.take_length]
  · refine ⟨.tornTail (Reader.written (framesFrom 0 (records.take m))).length k, ?_, ?_, ?_⟩
    · rw [Reader.replay_torn hnumbered hpayload hpos hk hnone, length_framesFrom, hlength]
    · rw [if_neg (by omega)]
      congr 1
      omega
    · rw [Reader.cleanLen, List.take_left]

/-! ## Crash recovery -/

/-- **Crash recovery.**  Records are appended to a new file, the file is cut
anywhere, opened again and appended to.  The cut leaves exactly the records that
end at or before it, numbered from zero; the replay is clean exactly when the cut
falls on a boundary between records, and otherwise a torn tail that begins where
the last whole record ends; and what is appended afterwards follows them without
a gap. -/
theorem crash_recovery (records more : List Record) (cut : Nat)
    (hroom : records.length + more.length < 2 ^ 64)
    (hembedded : ∀ p : Nat, (Frame.decode ((fragment records cut).drop p)).isOk = false) :
    ∃ w, (Writer.open_ [] [] >>= fun w => w.appendAll records) = .ok w ∧
      ∀ _ : cut ≤ w.file.length, ∃ m ≤ records.length,
        (∀ i < records.length, i < m ↔ boundary records (i + 1) ≤ cut) ∧
        (∃ replay, Reader.replay (w.file.take cut) = .ok replay ∧
          replay.frames = framesFrom 0 (records.take m) ∧
          replay.nextSeq = UInt64.ofNat m ∧
          (replay.stop = .clean ↔ ∃ i ≤ records.length, cut = boundary records i) ∧
          (replay.stop ≠ .clean → replay.stop =
            .tornTail (boundary records m) (cut - boundary records m))) ∧
        ∃ w', (Writer.open_ [] (w.file.take cut) >>= fun w => w.appendAll more) = .ok w' ∧
          Reader.replay w'.file = .ok
            { frames := framesFrom 0 (records.take m ++ more), stop := .clean
              nextSeq := UInt64.ofNat (m + more.length) } := by
  obtain ⟨w₀, hopen, hfresh⟩ := Writer.open_nil
  obtain ⟨w, happend, hholds⟩ := hfresh.appendAll records (by simpa using by omega)
  rw [List.nil_append] at hholds
  refine ⟨w, by rw [hopen]; exact happend, ?_⟩
  intro hcut
  rw [hholds.file] at hcut ⊢
  obtain ⟨stop, hreplay, hstop, hclean⟩ := replay_cut (by omega) hcut hembedded
  refine ⟨wholeBefore records cut, wholeBefore_le, fun i hi => lt_wholeBefore_iff hi, ?_, ?_⟩
  · refine ⟨_, hreplay, rfl, rfl, ?_, ?_⟩
    · rw [hstop]
      constructor
      · intro h
        refine ⟨wholeBefore records cut, wholeBefore_le, ?_⟩
        by_contra hne
        rw [if_neg hne] at h
        exact absurd h (by simp)
      · rintro ⟨i, hi, rfl⟩
        -- a boundary is where the last whole record ends
        have hle : i ≤ wholeBefore records (boundary records i) :=
          Nat.le_findGreatest hi (Nat.le_refl _)
        have hsame := Nat.le_antisymm (boundary_mono hle wholeBefore_le) boundary_wholeBefore
        rw [if_pos hsame]
    · intro hne
      rw [hstop] at hne ⊢
      by_cases hon : cut = boundary records (wholeBefore records cut)
      · exact absurd (if_pos hon) hne
      · exact if_neg hon
  · have hlength : (records.take (wholeBefore records cut)).length = wholeBefore records cut := by
      rw [List.length_take]
      exact Nat.min_eq_left wholeBefore_le
    have hbound : wholeBefore records cut ≤ records.length := wholeBefore_le
    obtain ⟨w₁, hreopen, hkept⟩ := Writer.open_holds hreplay hlength hclean
    obtain ⟨w', hmore, hall⟩ := hkept.appendAll more (by omega)
    refine ⟨w', by rw [hreopen]; exact hmore, ?_⟩
    rw [hall.replay (by rw [List.length_append]; omega), List.length_append, hlength]

/-- A record of one byte. -/
def oneByte : Record := { kind := 5, payload := [7], within := by decide }

/-- Cut in the header of its second record, the file keeps the first one, and the
record appended after reopening follows it. -/
theorem crash_recovery_secondHeader :
    ∃ w, (Writer.open_ [] [] >>= fun w => w.appendAll [oneByte, oneByte]) = .ok w ∧
      (35 ≤ w.file.length → ∃ m ≤ 2,
        ∃ w', (Writer.open_ [] (w.file.take 35) >>= fun w => w.appendAll [oneByte]) = .ok w' ∧
          Reader.replay w'.file = .ok
            { frames := framesFrom 0 ([oneByte, oneByte].take m ++ [oneByte]), stop := .clean
              nextSeq := UInt64.ofNat (m + 1) }) := by
  have hshort : ∀ p : Nat,
      (Frame.decode ((fragment [oneByte, oneByte] 35).drop p)).isOk = false := by
    intro p
    have hboundary : boundary [oneByte, oneByte] (wholeBefore [oneByte, oneByte] 35) = 25 := by
      decide
    apply Frame.decode_short
    rw [fragment, hboundary, List.length_drop, List.length_drop, List.length_take, Frame.headerLen]
    omega
  obtain ⟨w, hwritten, hrest⟩ :=
    crash_recovery [oneByte, oneByte] [oneByte] 35 (by decide) hshort
  refine ⟨w, hwritten, ?_⟩
  intro hlong
  obtain ⟨m, hm, -, -, hreopened⟩ := hrest hlong
  exact ⟨m, hm, hreopened⟩

/-! ## Truncation -/

/-- **Truncation drops nothing that could be read.**  For any bytes at all: no
position from a torn tail on holds a frame; a writer that opens them keeps the
front of them and drops only positions that hold none; and where the loop comes
upon something it cannot decode with a frame it could further on, the replay
reports corruption there and the writer does not open. -/
theorem truncation_keeps_readable (bytes : List UInt8) :
    (∀ replay o n, Reader.replay bytes = .ok replay → replay.stop = .tornTail o n →
      ∀ p : Nat, o ≤ p → (Frame.decode (bytes.drop p)).isOk = false) ∧
    (∀ device w, Writer.open_ device bytes = .ok w →
      w.file = bytes.take w.file.length ∧
      ∀ p : Nat, w.file.length ≤ p → (Frame.decode (bytes.drop p)).isOk = false) ∧
    ∀ offset expectedSeq frames cause, Reader.Reached bytes offset expectedSeq frames →
      Frame.decode (bytes.drop offset) = .error cause →
      ∀ p : Nat, offset ≤ p → (Frame.decode (bytes.drop p)).isOk = true →
        Reader.replay bytes = .error (.corrupt offset cause) ∧
        ∀ device, Writer.open_ device bytes = .error (.corrupt offset cause) := by
  have htorn : ∀ replay o n, Reader.replay bytes = .ok replay → replay.stop = .tornTail o n →
      ∀ p : Nat, o ≤ p → (Frame.decode (bytes.drop p)).isOk = false :=
    fun _ _ _ hreplay hstop => Reader.replayFrom_tornTail hreplay hstop
  have hempty : ∀ p : Nat, bytes.length ≤ p → (Frame.decode (bytes.drop p)).isOk = false := by
    intro p hp
    rw [List.drop_of_length_le hp]
    rfl
  refine ⟨htorn, ?_, ?_⟩
  · intro device w hopen
    unfold Writer.open_ at hopen
    split at hopen
    · exact absurd hopen (by simp)
    · rename_i replay hreplay
      obtain rfl := Except.ok.inj hopen
      refine ⟨by simp, ?_⟩
      intro p hp
      rw [List.length_take] at hp
      -- behind the end of the file there is nothing, and before it only the tail
      rcases Nat.lt_or_ge p bytes.length with hlt | hge
      · cases hstop : replay.stop with
        | clean =>
          rw [hstop, Reader.cleanLen] at hp
          omega
        | tornTail o n =>
          rw [hstop, Reader.cleanLen] at hp
          exact htorn replay o n hreplay hstop p (by omega)
      · exact hempty p hge
  · intro offset expectedSeq frames cause hreached hdecode p hp hreadable
    have hcorrupt := hreached.corrupt hdecode hp hreadable
    refine ⟨hcorrupt, ?_⟩
    intro device
    rw [Writer.open_, hcorrupt]

end Journal
