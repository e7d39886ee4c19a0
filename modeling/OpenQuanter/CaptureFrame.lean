/-
# Capture frames (`oq-l2feed/src/frame.rs`)

A record of a capture file: length, kind, both timestamps, checksums, payload.  Version 2, the
only one that is written, adds a checksum of the header, so that a length is trusted before it
is acted on.

* A whole frame of either version is read back whatever follows it (`decode_bytes`).
* A frame cut anywhere short of its end is `truncated` (`decode_take`).
* A file of frames of both versions, cut anywhere, gives the records that are whole before the
  cut and the number of bytes after them (`decodeAll_take`).
-/
import OpenQuanter.JournalFrame

namespace Capture

/-! ## The layout -/

/-- Bytes of a version 1 header that follow the length prefix. -/
def headerLen : Nat := 21

/-- Bytes of a version 2 header that follow the length prefix. -/
def headerLenV2 : Nat := 25

/-- Bytes of the length prefix. -/
def lenPrefix : Nat := 4

/-- The largest frame either version may declare, header included. -/
def maxFrameLen : Nat := 64 * 1024 * 1024

/-- The timestamp of a payload that carries no exchange time. -/
def noExchTs : Int64 := Int64.minValue

/-- What a frame carries. -/
inductive Kind where
  | payload
  | control
  deriving DecidableEq, Repr

namespace Kind

/-- The kind byte a version 2 frame is written with. -/
def asU8V2 : Kind → UInt8
  | payload => 2
  | control => 3

/-- The kind byte of a version 1 frame. -/
def asU8V1 : Kind → UInt8
  | payload => 0
  | control => 1

/-- What a kind byte means: the kind, and whether the header is of version 2. -/
def fromU8 (value : UInt8) : Option (Kind × Bool) :=
  if value = 0 then some (payload, false)
  else if value = 1 then some (control, false)
  else if value = 2 then some (payload, true)
  else if value = 3 then some (control, true)
  else none

end Kind

/-- One decoded record. -/
structure Record where
  kind : Kind
  localTs : Int64
  exchTs : Int64
  payload : List UInt8
  deriving DecidableEq, Repr

/-- A control record. -/
def Record.control (localTs : Int64) (payload : List UInt8) : Record where
  kind := .control
  localTs := localTs
  exchTs := noExchTs
  payload := payload

namespace Record

variable (r : Record)

/-- The timestamp that decides which window the record belongs to. -/
def dayTs : Int64 := if r.exchTs = noExchTs then r.localTs else r.exchTs

/-- The length, the kind and both timestamps. -/
def head (header : Nat) (kind : UInt8) : List UInt8 :=
  u32Bytes (UInt32.ofNat (header + r.payload.length)) ++
    (kind :: (i64Bytes r.localTs ++ i64Bytes r.exchTs))

/-- Encode as a version 2 frame.  The header's own checksum covers all before it. -/
def encode : List UInt8 :=
  let head := r.head headerLenV2 r.kind.asU8V2
  head ++ (u32Bytes (crc32 head) ++ (u32Bytes (crc32 r.payload) ++ r.payload))

/-- Encode as a version 1 frame, which is no longer written. -/
def encodeV1 : List UInt8 :=
  r.head headerLen r.kind.asU8V1 ++ (u32Bytes (crc32 r.payload) ++ r.payload)

/-- Encoded size in bytes. -/
def encodedLen : Nat := lenPrefix + headerLenV2 + r.payload.length

end Record

/-! ## Reading -/

/-- Why a frame could not be decoded. -/
inductive DecodeError where
  | truncated
  | checksumMismatch
  | unknownKind (value : UInt8)
  | invalidLength (len : UInt32)
  | headerChecksumMismatch
  deriving DecidableEq, Repr

/-- Decode one frame from the front, with the bytes it took.

The reads have defaults that are never used: the bytes are there by then. -/
def decode (input : List UInt8) : Except DecodeError (Record × Nat) :=
  if input.length < lenPrefix + 1 then .error .truncated
  else
    let len := (u32At input 0).getD 0
    let value := input[4]?.getD 0
    match Kind.fromU8 value with
    | none => .error (.unknownKind value)
    | some (kind, v2) =>
      let header := if v2 then headerLenV2 else headerLen
      if v2 && input.length < lenPrefix + header then .error .truncated
      else if v2 && crc32 (input.take 21) ≠ (u32At input 21).getD 0 then
        .error .headerChecksumMismatch
      else if len.toNat < header || maxFrameLen < len.toNat then .error (.invalidLength len)
      else
        let total := lenPrefix + len.toNat
        if input.length < total then .error .truncated
        else
          let localTs := (i64At input 5).getD 0
          let exchTs := (i64At input 13).getD 0
          let expected := (u32At input (lenPrefix + header - 4)).getD 0
          let payload := (input.take total).drop (lenPrefix + header)
          if crc32 payload ≠ expected then .error .checksumMismatch
          else .ok (⟨kind, localTs, exchTs, payload⟩, total)

/-- The loop of `decodeAll`: a frame takes at least one byte, so there are no more frames than
bytes. -/
def decodeFrames : Nat → List UInt8 → Except DecodeError (List Record × Nat)
  | 0, _ => .ok ([], 0)
  | fuel + 1, input =>
    if input = [] then .ok ([], 0)
    else
      match decode input with
      | .ok (record, consumed) =>
        (decodeFrames fuel (input.drop consumed)).map fun rest => (record :: rest.1, rest.2)
      | .error .truncated => .ok ([], input.length)
      | .error other => .error other

/-- Decode a whole buffer, with the number of bytes of a torn final record. -/
def decodeAll (input : List UInt8) : Except DecodeError (List Record × Nat) :=
  decodeFrames input.length input

/-! ## Frames of both versions -/

/-- A record and the version it is framed in. -/
structure Framed where
  v2 : Bool
  record : Record

namespace Framed

variable (f : Framed)

/-- Bytes of the header that follow the length prefix. -/
def header : Nat := if f.v2 then headerLenV2 else headerLen

/-- The frame's kind byte. -/
def kindByte : UInt8 := if f.v2 then f.record.kind.asU8V2 else f.record.kind.asU8V1

/-- The frame, encoded as its version says. -/
def bytes : List UInt8 := if f.v2 then f.record.encode else f.record.encodeV1

/-- Its size. -/
def len : Nat := lenPrefix + f.header + f.record.payload.length

/-- The bytes both versions begin with. -/
def head : List UInt8 := f.record.head f.header f.kindByte

/-- The checksum of the header, where there is one. -/
def headerCrc : List UInt8 := if f.v2 then u32Bytes (crc32 f.head) else []

theorem bytes_eq : f.bytes =
    f.head ++ (f.headerCrc ++ (u32Bytes (crc32 f.record.payload) ++ f.record.payload)) := by
  unfold bytes head headerCrc header kindByte
  cases hv : f.v2 with
  | true => simp [Record.encode, hv, head, header, kindByte]
  | false => simp [Record.encodeV1]

@[simp] theorem length_head : f.head.length = 21 := by
  simp [head, Record.head]

theorem header_eq : f.header = 21 + f.headerCrc.length := by
  unfold header headerCrc
  cases f.v2 <;> simp [headerLen, headerLenV2]

@[simp] theorem length_bytes : f.bytes.length = f.len := by
  rw [bytes_eq, len, header_eq]
  simp only [List.length_append, length_head, length_u32Bytes, lenPrefix]
  omega

theorem length_header_pos : 21 ≤ f.header := by
  rw [header_eq]
  omega

theorem fromU8_kindByte : Kind.fromU8 f.kindByte = some (f.record.kind, f.v2) := by
  unfold kindByte
  cases f.v2 <;> cases f.record.kind <;> rfl

theorem toNat_declared (h : f.header + f.record.payload.length < 2 ^ 32) :
    (UInt32.ofNat (f.header + f.record.payload.length)).toNat =
      f.header + f.record.payload.length :=
  UInt32.toNat_ofNat_of_lt' h

/-! ### Reading a frame back -/

section Reads

variable {f} {input after rest : List UInt8}

/-- What is read before the end of the input is what the frame has there. -/
theorem slice_of_agree (hinput : input ++ after = f.bytes ++ rest) {i w : Nat}
    (h : i + w ≤ input.length) : slice input i w = slice (f.bytes ++ rest) i w := by
  rw [← hinput, slice_append_of_le h]

theorem declared_of_agree (hinput : input ++ after = f.bytes ++ rest) (h : 5 ≤ input.length) :
    u32At input 0 = some (UInt32.ofNat (f.header + f.record.payload.length)) ∧
      input[4]? = some f.kindByte := by
  have hshape : f.bytes ++ rest =
      u32Bytes (UInt32.ofNat (f.header + f.record.payload.length)) ++ (f.kindByte ::
        (i64Bytes f.record.localTs ++ (i64Bytes f.record.exchTs ++ (f.headerCrc ++
          (u32Bytes (crc32 f.record.payload) ++ (f.record.payload ++ rest)))))) := by
    simp [bytes_eq, head, Record.head]
  constructor
  · rw [u32At, slice_of_agree hinput (by omega), hshape, slice_u32Bytes]
    simp
  · have hbyte : input[4]? = (input ++ after)[4]? := (List.getElem?_append_left (by omega)).symm
    rw [hbyte, hinput, hshape]
    exact getElem?_u32Bytes_add _ _ 0

theorem stamps_of_agree (hinput : input ++ after = f.bytes ++ rest) (h : 21 ≤ input.length) :
    i64At input 5 = some f.record.localTs ∧ i64At input 13 = some f.record.exchTs := by
  have hshape : f.bytes ++ rest =
      u32Bytes (UInt32.ofNat (f.header + f.record.payload.length)) ++ (f.kindByte ::
        (i64Bytes f.record.localTs ++ (i64Bytes f.record.exchTs ++ (f.headerCrc ++
          (u32Bytes (crc32 f.record.payload) ++ (f.record.payload ++ rest)))))) := by
    simp [bytes_eq, head, Record.head]
  constructor
  · rw [i64At, u64At, slice_of_agree hinput (by omega), hshape]
    simp
  · rw [i64At, u64At, slice_of_agree hinput (by omega), hshape]
    simp

/-- The header's checksum is that of the bytes before it. -/
theorem headerCrc_of_agree (hinput : input ++ after = f.bytes ++ rest) (hv : f.v2 = true)
    (h : 25 ≤ input.length) : u32At input 21 = some (crc32 (input.take 21)) := by
  have htake : input.take 21 = f.head := by
    rw [← List.take_append_of_le_length (by omega : 21 ≤ input.length), hinput, bytes_eq,
      List.append_assoc, ← f.length_head, List.take_left]
  have hskip := slice_append_right f.head
    (f.headerCrc ++ (u32Bytes (crc32 f.record.payload) ++ (f.record.payload ++ rest))) 0 4
  rw [length_head, Nat.zero_add] at hskip
  rw [u32At, slice_of_agree hinput (by omega), bytes_eq, htake]
  simp only [List.append_assoc]
  rw [hskip, headerCrc, if_pos hv, slice_u32Bytes]
  simp

/-- Behind the header stand the checksum of the payload and the payload. -/
theorem payload_of_agree (hinput : input ++ after = f.bytes ++ rest) (h : f.len ≤ input.length) :
    u32At input (lenPrefix + f.header - 4) = some (crc32 f.record.payload) ∧
      (input.take f.len).drop (lenPrefix + f.header) = f.record.payload := by
  have hheader := f.header_eq
  have hfirst : lenPrefix + f.header - 4 = (f.head ++ f.headerCrc).length := by
    rw [List.length_append, length_head, lenPrefix]
    omega
  have htake : input.take f.len = f.bytes := by
    rw [← List.take_append_of_le_length h, hinput, ← f.length_bytes, List.take_left]
  constructor
  · have hskip := slice_append_right (f.head ++ f.headerCrc)
      (u32Bytes (crc32 f.record.payload) ++ (f.record.payload ++ rest)) 0 4
    rw [← hfirst, Nat.zero_add] at hskip
    have hin : lenPrefix + f.header - 4 + 4 ≤ input.length := by
      unfold len lenPrefix at h
      unfold lenPrefix
      omega
    rw [u32At, slice_of_agree hinput hin, bytes_eq]
    simp only [List.append_assoc] at hskip ⊢
    rw [hskip, slice_u32Bytes]
    simp
  · have hall : lenPrefix + f.header =
        (f.head ++ (f.headerCrc ++ u32Bytes (crc32 f.record.payload))).length := by
      simp only [List.length_append, length_head, length_u32Bytes, lenPrefix]
      omega
    have hbytes : f.bytes =
        (f.head ++ (f.headerCrc ++ u32Bytes (crc32 f.record.payload))) ++ f.record.payload := by
      simp [bytes_eq]
    rw [htake, hbytes, hall, List.drop_left]

/-- Once the header is read and checked, what is left is the length and the payload. -/
theorem decode_of_header (hinput : input ++ after = f.bytes ++ rest)
    (hlong : f.header + f.record.payload.length < 2 ^ 32)
    (h : lenPrefix + f.header ≤ input.length) :
    decode input =
      if maxFrameLen < f.header + f.record.payload.length then
        .error (.invalidLength (UInt32.ofNat (f.header + f.record.payload.length)))
      else if input.length < f.len then .error .truncated
      else .ok (f.record, f.len) := by
  have hheader := f.header_eq
  unfold lenPrefix at h
  obtain ⟨hdeclared, hkind⟩ := declared_of_agree hinput (by omega)
  have hsame : (if f.v2 = true then headerLenV2 else headerLen) = f.header := rfl
  have htotal : lenPrefix + (f.header + f.record.payload.length) = f.len :=
    (Nat.add_assoc _ _ _).symm
  have htorn : (f.v2 && decide (input.length < lenPrefix + f.header)) ≠ true := by
    rw [decide_eq_false (by unfold lenPrefix; omega), Bool.and_false]
    decide
  have hchecked : (f.v2 && decide (crc32 (input.take 21) ≠ (u32At input 21).getD 0)) ≠ true := by
    intro hbad
    obtain ⟨hv, hbad⟩ := Bool.and_eq_true_iff.mp hbad
    rw [headerCrc_of_agree hinput hv (by omega)] at hbad
    exact of_decide_eq_true hbad rfl
  unfold decode
  rw [if_neg (by unfold lenPrefix; omega), hdeclared, hkind]
  simp only [Option.getD_some, f.fromU8_kindByte, f.toNat_declared hlong, hsame, htotal]
  rw [if_neg htorn, if_neg hchecked]
  have hshortest : decide (f.header + f.record.payload.length < f.header) = false :=
    decide_eq_false (by omega)
  rw [hshortest, Bool.false_or]
  by_cases hmax : maxFrameLen < f.header + f.record.payload.length
  · rw [if_pos (decide_eq_true hmax), if_pos hmax]
  · rw [if_neg (by rw [decide_eq_true_eq]; exact hmax), if_neg hmax]
    by_cases hshort : input.length < f.len
    · rw [if_pos hshort, if_pos hshort]
    · rw [if_neg hshort, if_neg hshort]
      obtain ⟨hlocal, hexch⟩ := stamps_of_agree hinput (by omega)
      obtain ⟨hcrc, hpayload⟩ := payload_of_agree hinput (by omega)
      rw [hlocal, hexch, hcrc, hpayload]
      simp

/-- A header that is cut is a torn one, in either version. -/
theorem decode_of_short (hinput : input ++ after = f.bytes ++ rest)
    (hfits : f.header + f.record.payload.length ≤ maxFrameLen)
    (h : input.length < lenPrefix + f.header) : decode input = .error .truncated := by
  by_cases hkind : input.length < lenPrefix + 1
  · unfold decode
    rw [if_pos hkind]
  · have hheader := f.header_eq
    unfold lenPrefix at hkind
    obtain ⟨hdeclared, hbyte⟩ := declared_of_agree hinput (by omega)
    have hsame : (if f.v2 = true then headerLenV2 else headerLen) = f.header := rfl
    have hlong := Nat.lt_of_le_of_lt hfits (by decide : maxFrameLen < 2 ^ 32)
    unfold decode
    rw [if_neg (by unfold lenPrefix; omega), hdeclared, hbyte]
    simp only [Option.getD_some, f.fromU8_kindByte, f.toNat_declared hlong, hsame]
    cases hv : f.v2 with
    | true => rw [Bool.true_and, if_pos (decide_eq_true h)]
    | false =>
      -- version 1 trusts the length before the rest of the header is there
      have hlength : (decide (f.header + f.record.payload.length < f.header) ||
          decide (maxFrameLen < f.header + f.record.payload.length)) = false := by
        rw [decide_eq_false (by omega), decide_eq_false (by omega), Bool.or_false]
      rw [Bool.false_and, Bool.false_and, if_neg Bool.false_ne_true, if_neg Bool.false_ne_true,
        hlength, if_neg Bool.false_ne_true, if_pos (by omega)]

end Reads

end Framed

/-! ## Files of frames -/

/-- A record that fits into a frame of a version, header included. -/
structure Frame extends Framed where
  fits : toFramed.header + record.payload.length ≤ maxFrameLen

namespace Frame

/-- The bytes of a file of frames. -/
def file (frames : List Frame) : List UInt8 := frames.flatMap fun f => f.bytes

@[simp] theorem file_nil : file [] = [] := rfl

@[simp] theorem file_cons (f : Frame) (frames : List Frame) :
    file (f :: frames) = f.bytes ++ file frames := rfl

variable (f : Frame)

theorem len_pos : 0 < f.len := by
  unfold Framed.len lenPrefix
  omega

/-- A frame is decoded when it is all there, and truncated when it is not. -/
theorem decode_of_agree {input after rest : List UInt8}
    (hinput : input ++ after = f.bytes ++ rest) :
    decode input = if input.length < f.len then .error .truncated else .ok (f.record, f.len) := by
  by_cases h : lenPrefix + f.header ≤ input.length
  · have hlong := Nat.lt_of_le_of_lt f.fits (by decide : maxFrameLen < 2 ^ 32)
    rw [Framed.decode_of_header hinput hlong h, if_neg (Nat.not_lt.mpr f.fits)]
  · have hshort : input.length < f.len := by
      unfold Framed.len
      omega
    rw [Framed.decode_of_short hinput f.fits (Nat.not_le.mp h), if_pos hshort]

/-- **A whole frame is read back**, whatever follows it. -/
theorem decode_bytes (rest : List UInt8) : decode (f.bytes ++ rest) = .ok (f.record, f.len) := by
  rw [f.decode_of_agree (List.append_nil _), if_neg (by simp)]

/-- **A frame cut short is truncated**, wherever it is cut. -/
theorem decode_take {k : Nat} (h : k < f.len) : decode (f.bytes.take k) = .error .truncated := by
  have hinput : f.bytes.take k ++ f.bytes.drop k = f.bytes ++ [] := by simp
  have hlength : (f.bytes.take k).length < f.len := by
    rw [List.length_take]
    omega
  rw [f.decode_of_agree hinput, if_pos hlength]

/-- The frames wholly before a cut. -/
def whole : List Frame → Nat → List Frame
  | [], _ => []
  | f :: frames, cut => if f.len ≤ cut then f :: whole frames (cut - f.len) else []

theorem decodeFrames_take (frames : List Frame) {fuel cut : Nat}
    (hfuel : ((file frames).take cut).length ≤ fuel) :
    decodeFrames fuel ((file frames).take cut) =
      .ok ((whole frames cut).map fun f => f.record,
        ((file frames).take cut).length - (file (whole frames cut)).length) := by
  induction frames generalizing fuel cut with
  | nil =>
    rw [file_nil, List.take_nil]
    cases fuel <;> rfl
  | cons f frames ih =>
    have hpos := f.len_pos
    cases fuel with
    | zero =>
      have hnil : (file (f :: frames)).take cut = [] :=
        List.length_eq_zero_iff.mp (Nat.le_zero.mp hfuel)
      have hcut : ¬ f.len ≤ cut := by
        intro hle
        rw [List.length_take, file_cons, List.length_append, Framed.length_bytes] at hfuel
        omega
      rw [hnil, whole, if_neg hcut]
      rfl
    | succ fuel =>
      rw [whole]
      by_cases hcut : f.len ≤ cut
      · have htake : (file (f :: frames)).take cut =
            f.bytes ++ (file frames).take (cut - f.len) := by
          rw [file_cons, List.take_append, Framed.length_bytes,
            List.take_of_length_le (by rw [Framed.length_bytes]; exact hcut)]
        rw [htake, List.length_append, Framed.length_bytes] at hfuel
        have hne : f.bytes ++ (file frames).take (cut - f.len) ≠ [] := by
          intro hnil
          have := congrArg List.length hnil
          rw [List.length_append, Framed.length_bytes, List.length_nil] at this
          omega
        rw [htake, decodeFrames, if_neg hne, f.decode_bytes, if_pos hcut]
        simp only
        rw [← f.length_bytes, List.drop_left, f.length_bytes, ih (by omega)]
        simp only [Except.map, List.map_cons, file_cons, List.length_append, Framed.length_bytes]
        rw [Nat.add_sub_add_left]
      · have htake : (file (f :: frames)).take cut = f.bytes.take cut := by
          rw [file_cons, List.take_append_of_le_length (by rw [Framed.length_bytes]; omega)]
        rw [htake, if_neg hcut, decodeFrames]
        by_cases hzero : cut = 0
        · rw [hzero, List.take_zero, if_pos rfl]
          rfl
        · have hne : f.bytes.take cut ≠ [] := by
            intro hnil
            have := congrArg List.length hnil
            rw [List.length_take, Framed.length_bytes, List.length_nil] at this
            omega
          rw [if_neg hne, f.decode_take (Nat.not_le.mp hcut)]
          rfl

/-- The frames before a cut are all that end by it. -/
theorem whole_spec (frames : List Frame) (cut : Nat) :
    ∃ torn, frames = whole frames cut ++ torn ∧ (file (whole frames cut)).length ≤ cut ∧
      ∀ f ∈ torn.head?, cut < (file (whole frames cut)).length + f.len := by
  induction frames generalizing cut with
  | nil => exact ⟨[], rfl, Nat.zero_le _, fun f hf => nomatch hf⟩
  | cons f frames ih =>
    rw [whole]
    by_cases hcut : f.len ≤ cut
    · obtain ⟨torn, hsplit, hle, hnext⟩ := ih (cut - f.len)
      rw [if_pos hcut]
      refine ⟨torn, ?_, ?_, fun g hg => ?_⟩
      · rw [List.cons_append, ← hsplit]
      · rw [file_cons, List.length_append, Framed.length_bytes]
        omega
      · have := hnext g hg
        rw [file_cons, List.length_append, Framed.length_bytes]
        omega
    · rw [if_neg hcut]
      refine ⟨f :: frames, rfl, Nat.zero_le _, fun g hg => ?_⟩
      obtain rfl : f = g := Option.some.inj hg
      rw [file_nil, List.length_nil]
      omega

/-- **A cut file is recovered.**  Of a file of frames of both versions, cut anywhere, the
records are read that end by the cut, and the bytes after them are counted; and a whole frame
is read back whatever follows it. -/
theorem file_recovered (frames : List Frame) (cut : Nat) (f : Frame) (following : List UInt8) :
    decode (f.bytes ++ following) = .ok (f.record, f.len) ∧
      ∃ done torn, frames = done ++ torn ∧ (file done).length ≤ cut ∧
        (∀ g ∈ torn.head?, cut < (file done).length + g.len) ∧
        decodeAll ((file frames).take cut) =
          .ok (done.map fun g => g.record,
            ((file frames).take cut).length - (file done).length) := by
  refine ⟨f.decode_bytes following, ?_⟩
  obtain ⟨torn, hsplit, hle, hnext⟩ := whole_spec frames cut
  exact ⟨whole frames cut, torn, hsplit, hle, hnext, decodeFrames_take frames le_rfl⟩

/-- A record of two bytes. -/
def small : Record := ⟨.payload, 1, 2, [0x7B, 0x7D]⟩

/-- A record whose payload alone is as long as a frame may be. -/
def large : Record := ⟨.payload, 1, 2, List.replicate maxFrameLen 0⟩

/-- What is counted is what is torn, not what is read; and the limit is one of frames: a
payload of that length is framed and not read back. -/
theorem file_not_recovered :
    decodeAll small.encode = .ok ([small], 0) ∧ small.encodedLen = 31 ∧
      large.payload.length ≤ maxFrameLen ∧
      decode large.encode = .error (.invalidLength 67108889) := by
  refine ⟨?_, rfl, ?_, ?_⟩
  · decide +kernel
  · exact le_of_eq List.length_replicate
  · have hlength : large.payload.length = maxFrameLen := List.length_replicate
    have hinput : large.encode ++ [] = (Framed.mk true large).bytes ++ [] := rfl
    have hlen : lenPrefix + (Framed.mk true large).header ≤ large.encode.length := by
      have : large.encode = (Framed.mk true large).bytes := rfl
      rw [this, Framed.length_bytes, Framed.len]
      omega
    rw [Framed.decode_of_header hinput (by rw [hlength]; decide) hlen, hlength,
      if_pos (by decide)]
    rfl

end Frame

end Capture
