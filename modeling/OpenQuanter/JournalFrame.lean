/-
# Frames (`oq-journal/src/frame.rs`, with `oq-hash/src/crc32.rs`)

A record on disk: magic, version, kind, sequence number, payload length, payload,
checksum.  The checksum covers everything between the magic and itself.

* A whole frame is read back whatever follows it (`decode_encode`).
* A frame cut anywhere short of its end is `incomplete` (`decode_take`): no cut
  makes it look like another error, or like a shorter frame.
-/
import OpenQuanter.Bytes

/-! ## The checksum -/

namespace Crc32

/-- Reflected IEEE 802.3 polynomial. -/
def poly : UInt32 := 0xEDB88320

/-- One bit of a table entry. -/
def shiftBit (crc : UInt32) : UInt32 :=
  if crc &&& 1 = 1 then (crc >>> 1) ^^^ poly else crc >>> 1

/-- The entry of the table for one byte: eight bits. -/
def table (i : UInt32) : UInt32 :=
  Nat.iterate shiftBit 8 i

/-- One byte of the data. -/
def step (crc : UInt32) (byte : UInt8) : UInt32 :=
  table ((crc ^^^ byte.toUInt32) &&& 0xFF) ^^^ (crc >>> 8)

end Crc32

/-- CRC-32 of `data`. -/
def crc32 (data : List UInt8) : UInt32 :=
  data.foldl Crc32.step 0xFFFFFFFF ^^^ 0xFFFFFFFF

-- The check value defined for this polynomial: the digits `123456789`.
example : crc32 [0x31, 0x32, 0x33, 0x34, 0x35, 0x36, 0x37, 0x38, 0x39] = 0xCBF43926 := by
  decide +kernel

namespace Journal

/-! ## The layout -/

/-- A framed record. -/
structure Frame where
  seq : UInt64
  kind : UInt16
  payload : List UInt8
  deriving DecidableEq, Repr

/-- Why a frame could not be decoded. -/
inductive FrameError where
  | incomplete (needed available : Nat)
  | badMagic (found : UInt32)
  | unknownVersion (found : UInt16)
  | lengthOutOfRange (found : UInt32)
  | checksumMismatch (expected computed : UInt32)
  deriving DecidableEq, Repr

namespace Frame

/-- Bytes before the payload. -/
def headerLen : Nat := 20

/-- Bytes after the payload. -/
def trailerLen : Nat := 4

/-- Bytes of framing for each record. -/
def framingLen : Nat := headerLen + trailerLen

/-- The four bytes every frame starts with: `OQRJ`. -/
def anchor : List UInt8 := [0x4F, 0x51, 0x52, 0x4A]

/-- The anchor as a little-endian number. -/
def magic : UInt32 := UInt32.ofNat (ofLe anchor)

/-- The frame layout this build writes. -/
def version : UInt16 := 1

/-- The largest payload one record may carry. -/
def maxPayload : Nat := 16 * 1024 * 1024

/-- Total encoded size. -/
def encodedLen (f : Frame) : Nat := framingLen + f.payload.length

/-- What the checksum covers: everything between the magic and itself. -/
def covered (f : Frame) : List UInt8 :=
  u16Bytes version ++ (u16Bytes f.kind ++ (u64Bytes f.seq ++
    (u32Bytes (UInt32.ofNat f.payload.length) ++ f.payload)))

/-- The encoded record.  The source asserts that the payload is within
`maxPayload`; see `Record`. -/
def encode (f : Frame) : List UInt8 :=
  u32Bytes magic ++ (f.covered ++ u32Bytes (crc32 f.covered))

/-- Decode one record from the front, with the bytes it took.

The reads of the header have defaults that are never used: there are at least
`headerLen` bytes by then, and at least `total` at the checksum. -/
def decode (bytes : List UInt8) : Except FrameError (Frame × Nat) :=
  if bytes.length < headerLen then .error (.incomplete headerLen bytes.length)
  else
    let foundMagic := (u32At bytes 0).getD 0
    if foundMagic ≠ magic then .error (.badMagic foundMagic)
    else
      let foundVersion := (u16At bytes 4).getD 0
      if foundVersion ≠ version then .error (.unknownVersion foundVersion)
      else
        let kind := (u16At bytes 6).getD 0
        let seq := (u64At bytes 8).getD 0
        let len := (u32At bytes 16).getD 0
        if maxPayload < len.toNat then .error (.lengthOutOfRange len)
        else
          let total := framingLen + len.toNat
          if bytes.length < total then .error (.incomplete total bytes.length)
          else
            let payloadEnd := headerLen + len.toNat
            let expected := (u32At bytes payloadEnd).getD 0
            let computed := crc32 ((bytes.take payloadEnd).drop 4)
            if computed ≠ expected then .error (.checksumMismatch expected computed)
            else
              .ok (⟨seq, kind, (bytes.take payloadEnd).drop headerLen⟩, total)

/-! ## Lengths -/

theorem length_covered (f : Frame) : f.covered.length = 16 + f.payload.length := by
  simp only [covered, List.length_append, length_u16Bytes, length_u64Bytes, length_u32Bytes]
  omega

@[simp] theorem length_encode (f : Frame) : f.encode.length = f.encodedLen := by
  simp only [encode, List.length_append, length_u32Bytes, length_covered, encodedLen, framingLen,
    headerLen, trailerLen]
  omega

theorem encodedLen_pos (f : Frame) : 0 < f.encodedLen := by
  simp only [encodedLen, framingLen, headerLen]
  omega

/-- A decoded frame took its own encoded length, and that was there. -/
theorem decode_used {bytes : List UInt8} {f : Frame} {used : Nat}
    (h : decode bytes = .ok (f, used)) : used = f.encodedLen ∧ used ≤ bytes.length := by
  unfold decode at h
  split at h
  · simp at h
  dsimp only at h
  split at h
  · simp at h
  split at h
  · simp at h
  split at h
  · simp at h
  split at h
  · simp at h
  rename_i hlong
  split at h
  · simp at h
  · simp only [Except.ok.injEq, Prod.mk.injEq] at h
    obtain ⟨rfl, rfl⟩ := h
    simp only [encodedLen, framingLen, headerLen, trailerLen, List.length_drop,
      List.length_take] at hlong ⊢
    omega

/-- Less than a header is no frame. -/
theorem decode_short {bytes : List UInt8} (h : bytes.length < headerLen) :
    (decode bytes).isOk = false := by
  rw [decode, if_pos h]
  rfl

/-- A decoded frame begins with the anchor. -/
theorem decode_anchor {bytes : List UInt8} (h : (decode bytes).isOk = true) :
    bytes.take 4 = anchor := by
  unfold decode at h
  split at h
  · simp [Except.isOk, Except.toBool] at h
  rename_i hheader
  dsimp only at h
  split at h
  · simp [Except.isOk, Except.toBool] at h
  rename_i hmagic
  have hle : 0 + 4 ≤ bytes.length := by
    rw [headerLen] at hheader
    omega
  have hslice : slice bytes 0 4 = some (bytes.take 4) := by
    rw [slice, if_pos hle, List.drop_zero]
  have hread : u32At bytes 0 = some magic := by
    rw [u32At, hslice, Option.map_some, Option.getD_some, ne_eq, not_not] at hmagic
    rw [u32At, hslice, Option.map_some, hmagic]
  have hbytes := u32Bytes_of_u32At hread
  rw [hslice, Option.some.injEq] at hbytes
  rw [hbytes]
  decide

/-! ## Reading a header -/

section Header

variable {f : Frame} {bytes rest after : List UInt8}

/-- The fields of a header are read back from any bytes that agree with an
encoded frame that far. -/
theorem header_fields (hbytes : bytes ++ after = f.encode ++ rest)
    (hlen : headerLen ≤ bytes.length) :
    u32At bytes 0 = some magic ∧ u16At bytes 4 = some version ∧ u16At bytes 6 = some f.kind ∧
      u64At bytes 8 = some f.seq ∧
      u32At bytes 16 = some (UInt32.ofNat f.payload.length) := by
  have hsame : ∀ i w : Nat, i + w ≤ headerLen →
      slice bytes i w = slice (f.encode ++ rest) i w := by
    intro i w hw
    rw [← hbytes, slice_append_of_le (by omega)]
  refine ⟨?_, ?_, ?_, ?_, ?_⟩
  · rw [u32At, hsame 0 4 (by decide)]
    simp [encode]
  · rw [u16At, hsame 4 2 (by decide)]
    simp [encode, covered]
  · rw [u16At, hsame 6 2 (by decide)]
    simp [encode, covered]
  · rw [u64At, hsame 8 8 (by decide)]
    simp [encode, covered]
  · rw [u32At, hsame 16 4 (by decide)]
    simp [encode, covered]

end Header

theorem toNat_payloadLen {f : Frame} (h : f.payload.length ≤ maxPayload) :
    (UInt32.ofNat f.payload.length).toNat = f.payload.length := by
  apply UInt32.toNat_ofNat_of_lt'
  exact Nat.lt_of_le_of_lt h (by decide)

/-- Once the header is read, what is left is the length and the checksum. -/
theorem decode_of_header {f : Frame} {bytes rest after : List UInt8}
    (h : f.payload.length ≤ maxPayload) (hbytes : bytes ++ after = f.encode ++ rest)
    (hlen : headerLen ≤ bytes.length) :
    decode bytes =
      if bytes.length < f.encodedLen then .error (.incomplete f.encodedLen bytes.length)
      else
        let payloadEnd := headerLen + f.payload.length
        let expected := (u32At bytes payloadEnd).getD 0
        let computed := crc32 ((bytes.take payloadEnd).drop 4)
        if computed ≠ expected then .error (.checksumMismatch expected computed)
        else .ok (⟨f.seq, f.kind, (bytes.take payloadEnd).drop headerLen⟩, f.encodedLen) := by
  obtain ⟨hmagic, hversion, hkind, hseq, hpayload⟩ := header_fields hbytes hlen
  unfold decode
  rw [if_neg (by omega), hmagic, hversion, hkind, hseq, hpayload]
  simp only [Option.getD_some, ne_eq, not_true_eq_false, if_false, toNat_payloadLen h]
  rw [if_neg (by omega)]
  rfl

/-- **A whole frame is read back**, whatever follows it. -/
theorem decode_encode {f : Frame} (h : f.payload.length ≤ maxPayload) (rest : List UInt8) :
    decode (f.encode ++ rest) = .ok (f, f.encodedLen) := by
  have hlength : (f.encode ++ rest).length = f.encodedLen + rest.length := by simp
  have hheader : headerLen ≤ f.encodedLen := by
    simp only [encodedLen, framingLen]
    omega
  have hend : headerLen + f.payload.length = (u32Bytes magic ++ f.covered).length := by
    simp only [List.length_append, length_u32Bytes, length_covered, headerLen]
    omega
  have hsplit : f.encode ++ rest =
      (u32Bytes magic ++ f.covered) ++ (u32Bytes (crc32 f.covered) ++ rest) := by
    simp [encode]
  have htake : (f.encode ++ rest).take (headerLen + f.payload.length) =
      u32Bytes magic ++ f.covered := by
    rw [hsplit, hend, List.take_left]
  have hcrc : u32At (f.encode ++ rest) (headerLen + f.payload.length) =
      some (crc32 f.covered) := by
    have hskip := slice_append_right (u32Bytes magic ++ f.covered)
      (u32Bytes (crc32 f.covered) ++ rest) 0 4
    rw [Nat.zero_add] at hskip
    rw [u32At, hsplit, hend, hskip, slice_u32Bytes]
    simp
  have hcovered : (u32Bytes magic ++ f.covered).drop 4 = f.covered := by
    rw [List.drop_append_of_le_length (by simp), List.drop_of_length_le (by simp), List.nil_append]
  have hpayload : (u32Bytes magic ++ f.covered).drop headerLen = f.payload := by
    have h16 : headerLen = 4 + 16 := rfl
    rw [h16, ← List.drop_drop, hcovered, covered]
    simp [List.drop_append, List.drop_of_length_le]
  rw [decode_of_header h (List.append_nil _) (by omega), if_neg (by omega)]
  simp only [htake, hcrc, hcovered, hpayload, Option.getD_some, ne_eq, not_true_eq_false, if_false]

/-- **A frame cut short is incomplete**, wherever it is cut. -/
theorem decode_take {f : Frame} (h : f.payload.length ≤ maxPayload) {k : Nat}
    (hk : k < f.encodedLen) :
    ∃ needed, decode (f.encode.take k) = .error (.incomplete needed k) := by
  have hlength : (f.encode.take k).length = k := by
    rw [List.length_take, length_encode]
    omega
  by_cases hheader : k < headerLen
  · refine ⟨headerLen, ?_⟩
    unfold decode
    rw [if_pos (by omega), hlength]
  · refine ⟨f.encodedLen, ?_⟩
    have hbytes : f.encode.take k ++ f.encode.drop k = f.encode ++ [] := by simp
    rw [decode_of_header h hbytes (by omega), if_pos (by omega), hlength]

end Frame

end Journal
