/-
# Replaying a journal (`oq-journal/src/reader.rs`)

The loop that decodes record after record, checks that sequence numbers are
contiguous, and at the end of the file tells a torn tail from corruption by
looking for a whole frame behind the one it could not finish.

Frames numbered one after the other are read through (`replayFrom_frames`); what
decides the outcome is what is left behind them, and a cut frame is a torn tail
unless a whole frame is embedded in it (`replay_torn`).
-/
import OpenQuanter.JournalFrame

namespace Journal

/-- What went wrong reading or writing a journal.  The locks that keep a second
writer out are not modelled, nor is their error. -/
inductive JournalError where
  | io
  | corrupt (atOffset : Nat) (cause : FrameError)
  | sequenceGap (expected found : UInt64)
  | broken
  | sequenceExhausted
  deriving DecidableEq, Repr

/-- Why a replay stopped. -/
inductive ReplayStop where
  | clean
  | tornTail (offset bytes : Nat)
  deriving DecidableEq, Repr

/-- The result of replaying a journal. -/
structure Replay where
  frames : List Frame
  stop : ReplayStop
  nextSeq : UInt64
  deriving DecidableEq, Repr

namespace Reader

/-- Whether a whole, verified frame begins at or after the front: the scan from
one occurrence of the anchor to the next. -/
def frameFollows : List UInt8 → Bool
  | [] => false
  | b :: rest =>
    ((b :: rest).take 4 = Frame.anchor && (Frame.decode (b :: rest)).isOk) || frameFollows rest

/-- `checked_add(1)` of a sequence number. -/
def nextSeq (seq : UInt64) : Option UInt64 :=
  if seq.toNat + 1 < 2 ^ 64 then some (seq + 1) else none

/-- The loop of `replay`: the offset of the next record, the sequence number it
must have once one was read, and the frames read so far. -/
def replayFrom (bytes : List UInt8) (offset : Nat) (expectedSeq : Option UInt64)
    (frames : List Frame) : Except JournalError Replay :=
  if offset = bytes.length then
    .ok { frames := frames, stop := .clean, nextSeq := expectedSeq.getD 0 }
  else
    match h : Frame.decode (bytes.drop offset) with
    | .ok (frame, used) =>
      match expectedSeq.filter (· ≠ frame.seq) with
      | some expected => .error (.sequenceGap expected frame.seq)
      | none =>
        match nextSeq frame.seq with
        | none => .error .sequenceExhausted
        | some next => replayFrom bytes (offset + used) (some next) (frames ++ [frame])
    | .error (.incomplete needed available) =>
      if frameFollows (bytes.drop (offset + 1)) then
        .error (.corrupt offset (.incomplete needed available))
      else
        .ok
          { frames := frames, stop := .tornTail offset (bytes.length - offset),
            nextSeq := expectedSeq.getD 0 }
    | .error cause => .error (.corrupt offset cause)
termination_by bytes.length - offset
decreasing_by
  obtain ⟨hused, hle⟩ := Frame.decode_used h
  have hpos := Frame.encodedLen_pos frame
  rw [List.length_drop] at hle
  omega

/-- Decode every whole record, stopping at a torn tail. -/
def replay (bytes : List UInt8) : Except JournalError Replay := replayFrom bytes 0 none []

/-- Whether a replay stopped without a torn tail, and the length of the whole
records (`scan_tail`). -/
def cleanLen (bytes : List UInt8) : ReplayStop → Nat
  | .clean => bytes.length
  | .tornTail offset _ => offset

/-! ## The scan -/

/-- **The scan misses nothing**: it answers yes exactly when a frame can be
decoded at some position, whatever lies between. -/
theorem frameFollows_iff {bytes : List UInt8} :
    frameFollows bytes = true ↔ ∃ p : Nat, (Frame.decode (bytes.drop p)).isOk = true := by
  induction bytes with
  | nil =>
    constructor
    · intro h
      exact absurd h (by simp [frameFollows])
    · rintro ⟨p, h⟩
      rw [List.drop_nil] at h
      exact absurd h (by decide)
  | cons b rest ih =>
    rw [frameFollows, Bool.or_eq_true, Bool.and_eq_true, decide_eq_true_iff]
    constructor
    · rintro (⟨-, hhere⟩ | hrest)
      · exact ⟨0, hhere⟩
      · obtain ⟨p, hp⟩ := ih.mp hrest
        exact ⟨p + 1, hp⟩
    · rintro ⟨p, hp⟩
      cases p with
      | zero => exact Or.inl ⟨Frame.decode_anchor hp, hp⟩
      | succ p => exact Or.inr (ih.mpr ⟨p, hp⟩)

theorem frameFollows_eq_false_iff {bytes : List UInt8} :
    frameFollows bytes = false ↔ ∀ p : Nat, (Frame.decode (bytes.drop p)).isOk = false := by
  rw [← Bool.not_eq_true, frameFollows_iff, not_exists]
  simp only [Bool.not_eq_true]

/-! ## One round of the loop -/

section Round

variable {bytes : List UInt8} {offset : Nat} {expectedSeq : Option UInt64} {frames : List Frame}

theorem replayFrom_end (h : offset = bytes.length) :
    replayFrom bytes offset expectedSeq frames =
      .ok { frames := frames, stop := .clean, nextSeq := expectedSeq.getD 0 } := by
  rw [replayFrom, if_pos h]

/-- A whole frame with the sequence number that is due is read. -/
theorem replayFrom_frame {f : Frame} {used : Nat} {next : UInt64}
    (hdecode : Frame.decode (bytes.drop offset) = .ok (f, used))
    (hseq : ∀ expected ∈ expectedSeq, expected = f.seq) (hnext : nextSeq f.seq = some next) :
    replayFrom bytes offset expectedSeq frames =
      replayFrom bytes (offset + used) (some next) (frames ++ [f]) := by
  have hmore : offset ≠ bytes.length := by
    obtain ⟨hused, hle⟩ := Frame.decode_used hdecode
    have hpos := Frame.encodedLen_pos f
    rw [List.length_drop] at hle
    omega
  have hdue : expectedSeq.filter (· ≠ f.seq) = none := by
    rw [Option.filter_eq_none_iff]
    intro expected hmem
    simp [hseq expected hmem]
  conv_lhs => rw [replayFrom]
  rw [if_neg hmore]
  split
  next frame used' h =>
    rw [hdecode] at h
    simp only [Except.ok.injEq, Prod.mk.injEq] at h
    obtain ⟨rfl, rfl⟩ := h
    rw [hdue, hnext]
  next h => rw [hdecode] at h; exact absurd h (by simp)
  next h => rw [hdecode] at h; exact absurd h (by simp)

/-- A frame that does not fit in what is left, with no whole frame behind it, is
a torn tail. -/
theorem replayFrom_torn {needed available : Nat} (hmore : offset ≠ bytes.length)
    (hdecode : Frame.decode (bytes.drop offset) = .error (.incomplete needed available))
    (hnone : frameFollows (bytes.drop (offset + 1)) = false) :
    replayFrom bytes offset expectedSeq frames =
      .ok { frames := frames, stop := .tornTail offset (bytes.length - offset),
            nextSeq := expectedSeq.getD 0 } := by
  rw [replayFrom, if_neg hmore]
  split
  next h => rw [hdecode] at h; exact absurd h (by simp)
  next h => rw [hnone]; rfl
  next cause hother h =>
    rw [hdecode] at h
    simp only [Except.error.injEq] at h
    exact absurd h.symm (hother needed available)

/-- A frame that does not fit in what is left, with a whole frame behind it, is
corruption. -/
theorem replayFrom_corrupt {needed available : Nat} (hmore : offset ≠ bytes.length)
    (hdecode : Frame.decode (bytes.drop offset) = .error (.incomplete needed available))
    (hfollows : frameFollows (bytes.drop (offset + 1)) = true) :
    replayFrom bytes offset expectedSeq frames =
      .error (.corrupt offset (.incomplete needed available)) := by
  rw [replayFrom, if_neg hmore]
  split
  next h => rw [hdecode] at h; exact absurd h (by simp)
  next needed' available' h =>
    rw [hdecode] at h
    simp only [Except.error.injEq, FrameError.incomplete.injEq] at h
    obtain ⟨rfl, rfl⟩ := h
    rw [hfollows]
    rfl
  next cause hother h =>
    rw [hdecode] at h
    simp only [Except.error.injEq] at h
    exact absurd h.symm (hother needed available)

/-- A frame that is there and is not whole is corruption, whatever follows. -/
theorem replayFrom_damaged {cause : FrameError} (hmore : offset ≠ bytes.length)
    (hdecode : Frame.decode (bytes.drop offset) = .error cause)
    (hother : ∀ needed available, cause ≠ .incomplete needed available) :
    replayFrom bytes offset expectedSeq frames = .error (.corrupt offset cause) := by
  rw [replayFrom, if_neg hmore]
  split
  next h => rw [hdecode] at h; exact absurd h (by simp)
  next needed available h =>
    rw [hdecode] at h
    exact absurd (Except.error.inj h) (hother needed available)
  next cause' _ h =>
    rw [hdecode] at h
    rw [Except.error.inj h]

end Round

/-! ## Whole runs -/

/-- The bytes of frames written one after the other. -/
def written (frames : List Frame) : List UInt8 := frames.flatMap Frame.encode

/-- Frames numbered one after the other from `n` on, each within the payload
limit, and short of the end of the sequence. -/
inductive Numbered : Nat → List Frame → Prop
  | nil (n : Nat) : Numbered n []
  | cons {n : Nat} {f : Frame} {rest : List Frame} (hseq : f.seq = UInt64.ofNat n)
      (hpayload : f.payload.length ≤ Frame.maxPayload) (hroom : n + 1 < 2 ^ 64)
      (hrest : Numbered (n + 1) rest) : Numbered n (f :: rest)

/-- What the loop expects next, once it stands before record `n`. -/
def due : Nat → Option UInt64
  | 0 => none
  | n + 1 => some (UInt64.ofNat (n + 1))

theorem getD_due (n : Nat) : (due n).getD 0 = UInt64.ofNat n := by
  cases n <;> rfl

theorem nextSeq_ofNat {n : Nat} (h : n + 1 < 2 ^ 64) :
    nextSeq (UInt64.ofNat n) = due (n + 1) := by
  have hback : (UInt64.ofNat n).toNat = n := UInt64.toNat_ofNat_of_lt' (Nat.lt_of_succ_lt h)
  rw [nextSeq, hback, if_pos h, due]
  congr 1
  apply UInt64.toNat_inj.mp
  rw [UInt64.toNat_add, hback, UInt64.toNat_ofNat_of_lt' h, UInt64.toNat_one]
  omega

theorem length_written_cons (f : Frame) (rest : List Frame) :
    (written (f :: rest)).length = f.encodedLen + (written rest).length := by
  simp [written]

/-- **Numbered frames are read through**: the loop goes on behind them, having
kept every one of them in order. -/
theorem replayFrom_frames {n : Nat} {fs : List Frame} (hfs : Numbered n fs)
    (front tail : List UInt8) (frames : List Frame) :
    replayFrom (front ++ (written fs ++ tail)) front.length (due n) frames =
      replayFrom (front ++ (written fs ++ tail)) (front.length + (written fs).length)
        (due (n + fs.length)) (frames ++ fs) := by
  induction hfs generalizing front frames with
  | nil n => simp [written]
  | @cons n f rest hseq hpayload hroom _ ih =>
    have hbytes : front ++ (written (f :: rest) ++ tail) =
        (front ++ f.encode) ++ (written rest ++ tail) := by simp [written]
    have hdecode : Frame.decode ((front ++ (written (f :: rest) ++ tail)).drop front.length) =
        .ok (f, f.encodedLen) := by
      have hdrop : (front ++ (written (f :: rest) ++ tail)).drop front.length =
          f.encode ++ (written rest ++ tail) := by simp [written]
      rw [hdrop, Frame.decode_encode hpayload]
    have hdue : ∀ expected ∈ due n, expected = f.seq := by
      rw [hseq]
      cases n with
      | zero => simp [due]
      | succ n => simp [due]
    have hnext : nextSeq f.seq = some (UInt64.ofNat (n + 1)) := by
      rw [hseq, nextSeq_ofNat hroom, due]
    have hstart : front.length + f.encodedLen = (front ++ f.encode).length := by simp
    have hcount : n + (f :: rest).length = n + 1 + rest.length := by
      simp only [List.length_cons]
      omega
    have hread := ih (front ++ f.encode) (frames ++ [f])
    rw [replayFrom_frame hdecode hdue hnext, hbytes, hstart]
    refine hread.trans ?_
    rw [length_written_cons, hcount, List.append_assoc frames]
    congr 1
    simp only [List.length_append, Frame.length_encode]
    omega

/-- What a replay of numbered frames comes to is decided behind them. -/
theorem replay_written {fs : List Frame} (hfs : Numbered 0 fs) (tail : List UInt8) :
    replay (written fs ++ tail) =
      replayFrom (written fs ++ tail) (written fs).length (due fs.length) fs := by
  have hread := replayFrom_frames hfs [] tail []
  simpa [replay, due] using hread

/-- **Whole frames replay cleanly.** -/
theorem replay_clean {fs : List Frame} (hfs : Numbered 0 fs) :
    replay (written fs) =
      .ok { frames := fs, stop := .clean, nextSeq := UInt64.ofNat fs.length } := by
  have hread := replay_written hfs []
  rw [List.append_nil] at hread
  rw [hread, replayFrom_end rfl, getD_due]

/-- A frame that is cut short with a whole frame embedded in it is corruption. -/
theorem replay_embedded {fs : List Frame} (hfs : Numbered 0 fs) {tail : List UInt8}
    {needed available p : Nat} (hdecode : Frame.decode tail = .error (.incomplete needed available))
    (hreadable : (Frame.decode (tail.drop p)).isOk = true) :
    replay (written fs ++ tail) =
      .error (.corrupt (written fs).length (.incomplete needed available)) := by
  have hmore : (written fs).length ≠ (written fs ++ tail).length := by
    rintro hnil
    rw [List.length_append, left_eq_add, List.length_eq_zero_iff] at hnil
    rw [hnil, List.drop_nil] at hreadable
    exact absurd hreadable (by decide)
  have hp : p ≠ 0 := by
    rintro rfl
    rw [List.drop_zero, hdecode] at hreadable
    exact absurd hreadable (by simp [Except.isOk, Except.toBool])
  have hfollows : frameFollows ((written fs ++ tail).drop ((written fs).length + 1)) = true := by
    rw [← List.drop_drop, List.drop_left, frameFollows_iff]
    refine ⟨p - 1, ?_⟩
    rwa [List.drop_drop, Nat.add_sub_cancel' (Nat.one_le_iff_ne_zero.mpr hp)]
  rw [replay_written hfs, replayFrom_corrupt hmore (by rw [List.drop_left]; exact hdecode) hfollows]

/-- **A torn frame behind whole ones is a torn tail** that begins where the last
whole frame ends, unless a whole frame is embedded in it. -/
theorem replay_torn {fs : List Frame} (hfs : Numbered 0 fs) {f : Frame}
    (hpayload : f.payload.length ≤ Frame.maxPayload) {k : Nat} (hpos : 0 < k)
    (hk : k < f.encodedLen)
    (hnone : ∀ p : Nat, (Frame.decode ((f.encode.take k).drop p)).isOk = false) :
    replay (written fs ++ f.encode.take k) =
      .ok { frames := fs, stop := .tornTail (written fs).length k,
            nextSeq := UInt64.ofNat fs.length } := by
  have hlength : (written fs ++ f.encode.take k).length = (written fs).length + k := by
    rw [List.length_append, List.length_take, Frame.length_encode]
    omega
  obtain ⟨needed, hdecode⟩ := Frame.decode_take hpayload hk
  have hdrop : (written fs ++ f.encode.take k).drop (written fs).length = f.encode.take k :=
    List.drop_left
  have hfollows : frameFollows
      ((written fs ++ f.encode.take k).drop ((written fs).length + 1)) = false := by
    rw [← List.drop_drop, hdrop, frameFollows_eq_false_iff]
    intro p
    rw [List.drop_drop]
    exact hnone (1 + p)
  rw [← hdrop] at hdecode
  rw [replay_written hfs, replayFrom_torn (by omega) hdecode hfollows, getD_due, hlength,
    Nat.add_sub_cancel_left]

/-! ## Any bytes at all -/

/-- Where the loop stands after some rounds: the offset it reached, the sequence
number due there, the frames it read. -/
inductive Reached (bytes : List UInt8) : Nat → Option UInt64 → List Frame → Prop
  | start : Reached bytes 0 none []
  | frame {offset used : Nat} {expectedSeq : Option UInt64} {frames : List Frame} {f : Frame}
      {next : UInt64} (hbefore : Reached bytes offset expectedSeq frames)
      (hdecode : Frame.decode (bytes.drop offset) = .ok (f, used))
      (hseq : ∀ expected ∈ expectedSeq, expected = f.seq) (hnext : nextSeq f.seq = some next) :
      Reached bytes (offset + used) (some next) (frames ++ [f])

/-- The rest of the loop decides. -/
theorem Reached.replay_eq {bytes : List UInt8} {offset : Nat} {expectedSeq : Option UInt64}
    {frames : List Frame} (h : Reached bytes offset expectedSeq frames) :
    replay bytes = replayFrom bytes offset expectedSeq frames := by
  induction h with
  | start => rfl
  | frame _ hdecode hseq hnext ih => rw [ih, replayFrom_frame hdecode hseq hnext]

/-- **A torn tail holds no frame**: when the loop stops at one, no position from
there on can be decoded. -/
theorem replayFrom_tornTail {bytes : List UInt8} {offset : Nat} {expectedSeq : Option UInt64}
    {frames : List Frame} {replay : Replay} {o n : Nat}
    (h : replayFrom bytes offset expectedSeq frames = .ok replay)
    (hstop : replay.stop = .tornTail o n) :
    ∀ p : Nat, o ≤ p → (Frame.decode (bytes.drop p)).isOk = false := by
  fun_induction replayFrom bytes offset expectedSeq frames with
  | case1 =>
    obtain rfl := Except.ok.inj h
    exact absurd hstop (by simp)
  | case2 => exact absurd h (by simp)
  | case3 => exact absurd h (by simp)
  | case4 _ _ _ _ _ _ _ _ _ _ ih => exact ih h
  | case5 => exact absurd h (by simp)
  | case6 offset expectedSeq frames _ needed available hdecode hnone =>
    obtain rfl := Except.ok.inj h
    obtain ⟨rfl, -⟩ := ReplayStop.tornTail.inj hstop
    rw [Bool.not_eq_true, frameFollows_eq_false_iff] at hnone
    intro p hp
    rcases Nat.eq_or_lt_of_le hp with rfl | hlt
    · rw [hdecode]
      rfl
    · have hback := hnone (p - (offset + 1))
      rwa [List.drop_drop, Nat.add_sub_cancel' hlt] at hback
  | case7 => exact absurd h (by simp)

/-- **Damage in front of a frame is corruption**: where the loop cannot decode
and a frame further on can be, the replay fails at that offset. -/
theorem Reached.corrupt {bytes : List UInt8} {offset : Nat} {expectedSeq : Option UInt64}
    {frames : List Frame} (h : Reached bytes offset expectedSeq frames) {cause : FrameError}
    (hdecode : Frame.decode (bytes.drop offset) = .error cause) {p : Nat} (hp : offset ≤ p)
    (hreadable : (Frame.decode (bytes.drop p)).isOk = true) :
    replay bytes = .error (.corrupt offset cause) := by
  have hlt : offset < p := by
    rcases Nat.eq_or_lt_of_le hp with rfl | hlt
    · rw [hdecode] at hreadable
      exact absurd hreadable (by simp [Except.isOk, Except.toBool])
    · exact hlt
  have hmore : offset ≠ bytes.length := by
    intro hend
    rw [List.drop_of_length_le (by omega)] at hreadable
    exact absurd hreadable (by decide)
  have hfollows : frameFollows (bytes.drop (offset + 1)) = true := by
    rw [frameFollows_iff]
    refine ⟨p - (offset + 1), ?_⟩
    rwa [List.drop_drop, Nat.add_sub_cancel' hlt]
  rw [h.replay_eq]
  cases cause with
  | incomplete needed available => exact replayFrom_corrupt hmore hdecode hfollows
  | badMagic found => exact replayFrom_damaged hmore hdecode (by simp)
  | unknownVersion found => exact replayFrom_damaged hmore hdecode (by simp)
  | lengthOutOfRange found => exact replayFrom_damaged hmore hdecode (by simp)
  | checksumMismatch expected computed => exact replayFrom_damaged hmore hdecode (by simp)

end Reader

end Journal
