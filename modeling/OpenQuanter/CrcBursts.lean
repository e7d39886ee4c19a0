/-
# What a checksum sees (`oq-hash/src/crc32.rs`, with `oq-l2feed/src/frame.rs`)

The table-driven loop takes a byte at a time.  It is the division of the message by the
reflected polynomial, bit after bit, and so no change within four consecutive bytes leaves the
checksum as it was.

In a capture frame the header is checked before its length is trusted: a damaged length is a
damaged header, not a torn tail (`decode_damaged`).
-/
import OpenQuanter.BitDivision
import OpenQuanter.CaptureFrame

open BitDivision Polynomial

namespace Crc32

/-- The bits of the data in the order they are divided: each byte's lowest bit first. -/
def bits (data : List UInt8) : List Bool := data.flatMap fun byte => bitsOf byte.toBitVec

/-- The polynomial of IEEE 802.3. -/
noncomputable def ieee : (ZMod 2)[X] :=
  X ^ 32 + X ^ 26 + X ^ 23 + X ^ 22 + X ^ 16 + X ^ 12 + X ^ 11 + X ^ 10 + X ^ 8 + X ^ 7 + X ^ 5 +
    X ^ 4 + X ^ 2 + X + 1

@[simp] theorem bits_append (data more : List UInt8) :
    bits (data ++ more) = bits data ++ bits more :=
  List.flatMap_append

theorem length_bits (data : List UInt8) : (bits data).length = 8 * data.length := by
  induction data with
  | nil => rfl
  | cons byte data ih =>
    rw [bits, List.flatMap_cons, List.length_append, length_bitsOf, ← bits, ih, List.length_cons]
    omega

theorem bits_injective {x y : List UInt8} (hlen : x.length = y.length) (h : bits x = bits y) :
    x = y := by
  induction x generalizing y with
  | nil => exact (List.length_eq_zero_iff.mp hlen.symm).symm
  | cons b x ih =>
    cases y with
    | nil => cases hlen
    | cons c y =>
      have hsame : (bitsOf b.toBitVec).length = (bitsOf c.toBitVec).length := by
        rw [length_bitsOf, length_bitsOf]
      obtain ⟨hbyte, hrest⟩ := List.append_inj h hsame
      rw [UInt8.toBitVec_inj.mp (bitsOf_injective hbyte), ih (Nat.succ.inj hlen) hrest]

/-! ## The table-driven loop divides -/

theorem toBitVec_shiftBit (crc : UInt32) :
    (shiftBit crc).toBitVec = shift poly.toBitVec crc.toBitVec := by
  have hlow : (crc &&& 1 = 1) ↔ crc.toBitVec.getLsbD 0 = true := by
    have hbit : crc.toBitVec &&& 1#32 = (BitVec.ofBool (crc.toBitVec.getLsbD 0)).setWidth 32 :=
      BitVec.and_one_eq_setWidth_ofBool_getLsbD
    rw [← UInt32.toBitVec_inj, UInt32.toBitVec_and]
    change crc.toBitVec &&& 1#32 = 1#32 ↔ _
    rw [hbit]
    cases crc.toBitVec.getLsbD 0 <;> decide
  unfold shiftBit shift
  by_cases h : crc &&& 1 = 1
  · rw [if_pos h, if_pos (hlow.mp h)]
    rfl
  · rw [if_neg h, if_neg (mt hlow.mpr h)]
    rfl

theorem toBitVec_iterate (n : ℕ) (crc : UInt32) :
    (Nat.iterate shiftBit n crc).toBitVec = (shift poly.toBitVec)^[n] crc.toBitVec :=
  Function.Semiconj.iterate_right (f := UInt32.toBitVec) toBitVec_shiftBit n crc

/-- **The table.**  One lookup takes the eight bits of a byte. -/
theorem toBitVec_step (crc : UInt32) (byte : UInt8) :
    (step crc byte).toBitVec = divide poly.toBitVec crc.toBitVec (bitsOf byte.toBitVec) := by
  have hlow : ((crc ^^^ byte.toUInt32) &&& 0xFF).toBitVec =
      ((crc.toBitVec ^^^ byte.toBitVec.setWidth 32).setWidth 8).setWidth 32 := by
    change (crc.toBitVec ^^^ byte.toBitVec.setWidth 32) &&& 255#32 = _
    apply BitVec.eq_of_toNat_eq
    rw [BitVec.toNat_and, BitVec.toNat_setWidth, BitVec.toNat_setWidth]
    have hmod := Nat.and_two_pow_sub_one_eq_mod
      (crc.toBitVec ^^^ byte.toBitVec.setWidth 32).toNat 8
    have hlt := Nat.mod_lt (crc.toBitVec ^^^ byte.toBitVec.setWidth 32).toNat
      (by decide : 0 < 2 ^ 8)
    rw [Nat.mod_eq_of_lt (b := 2 ^ 32) (by omega), ← hmod]
    rfl
  have hhigh : (crc >>> 8).toBitVec = (crc.toBitVec ^^^ byte.toBitVec.setWidth 32) >>> 8 := by
    have hgone : byte.toBitVec.setWidth 32 >>> 8 = 0#32 := by
      apply BitVec.eq_of_toNat_eq
      have hbyte : byte.toBitVec.toNat < 256 := byte.toBitVec.isLt
      rw [BitVec.toNat_ushiftRight, BitVec.toNat_setWidth, Nat.shiftRight_eq_div_pow,
        Nat.mod_eq_of_lt (by omega), Nat.div_eq_of_lt hbyte]
      rfl
    rw [BitVec.ushiftRight_xor_distrib, hgone, BitVec.xor_zero]
    rfl
  have hfit : (bitsOf byte.toBitVec).length ≤ 32 := by
    rw [length_bitsOf]
    decide
  rw [divide_eq_iterate _ hfit, word_bitsOf, length_bitsOf, shift_iterate_split, ← hlow, ← hhigh,
    ← toBitVec_iterate]
  rfl

theorem toBitVec_foldl (crc : UInt32) (data : List UInt8) :
    (data.foldl step crc).toBitVec = divide poly.toBitVec crc.toBitVec (bits data) := by
  induction data generalizing crc with
  | nil => rfl
  | cons byte data ih =>
    rw [List.foldl_cons, ih, toBitVec_step, ← divide_append]
    rfl

/-- The polynomial of the reflected constant is that of the standard. -/
theorem divisor_poly : divisor poly.toBitVec = ieee := by
  rw [divisor, toPoly_eq_sum, ieee]
  simp only [Finset.sum_range_succ, Finset.sum_range_zero]
  simp [poly]
  ring

/-- What the register holds before any data, and what its content is combined with. -/
def ones : BitVec 32 := BitVec.allOnes 32

/-- A checksum is the division of the data, bit after bit. -/
theorem toBitVec_crc32 (data : List UInt8) :
    (crc32 data).toBitVec = divide poly.toBitVec ones (bits data) ^^^ ones := by
  rw [crc32, UInt32.toBitVec_xor, toBitVec_foldl]
  rfl

/-- Without the final complement it is the remainder by the polynomial of the standard. -/
theorem toPoly_crc32 (data : List UInt8) :
    toPoly ((crc32 data).toBitVec ^^^ ones) =
      (X ^ (8 * data.length) * toPoly ones + X ^ 32 * message (bits data)) %ₘ ieee := by
  rw [toBitVec_crc32, BitVec.xor_assoc, BitVec.xor_self, BitVec.xor_zero,
    toPoly_divide _ (by decide), length_bits, divisor_poly]

/-- **Bursts.**  A change within four consecutive bytes changes the checksum. -/
theorem crc32_burst (first rest : List UInt8) {x y : List UInt8} (hlen : x.length = y.length)
    (hfit : x.length ≤ 4) (hne : x ≠ y) :
    crc32 (first ++ (x ++ rest)) ≠ crc32 (first ++ (y ++ rest)) := by
  intro h
  have hregister := congrArg UInt32.toBitVec h
  rw [toBitVec_crc32, toBitVec_crc32, BitVec.xor_left_inj] at hregister
  simp only [bits_append] at hregister
  have hbits : bits x = bits y := by
    refine divide_burst poly.toBitVec (by decide) ones ?_ ?_ hregister
    · rw [length_bits, length_bits, hlen]
    · rw [length_bits]
      omega
  exact hne (bits_injective hlen hbits)

end Crc32

namespace Capture

open Crc32

/-- **A damaged header is told from a torn tail.**  With one byte before the header's checksum
changed, other than the kind, the header is refused whatever the length now says. -/
theorem Record.decode_damaged (r : Record) (rest : List UInt8) {i : ℕ} {b : UInt8} (hi : i < 21)
    (hkind : i ≠ 4) (hdamaged : (r.encode ++ rest)[i]? ≠ some b) :
    decode ((r.encode ++ rest).set i b) = .error .headerChecksumMismatch := by
  let f : Framed := ⟨true, r⟩
  let tail := u32Bytes (crc32 f.head) ++ (u32Bytes (crc32 r.payload) ++ (r.payload ++ rest))
  have hbytes : r.encode ++ rest = f.head ++ tail := by
    simp [f, tail, Record.encode, Framed.head, Framed.header, Framed.kindByte]
  have hlong : i < f.head.length := by
    rw [f.length_head]
    exact hi
  have hset : (r.encode ++ rest).set i b = f.head.set i b ++ tail := by
    rw [hbytes, List.set_append_left _ _ hlong]
  have hlength : (f.head.set i b).length = 21 := by rw [List.length_set, f.length_head]
  have htake : ((r.encode ++ rest).set i b).take 21 = f.head.set i b := by
    rw [hset, ← hlength, List.take_left]
  have hstored : u32At ((r.encode ++ rest).set i b) 21 = some (crc32 f.head) := by
    have hskip := slice_append_right (f.head.set i b) tail 0 4
    rw [hlength, Nat.zero_add] at hskip
    rw [u32At, hset, hskip, slice_u32Bytes]
    simp
  have hinput : 29 ≤ ((r.encode ++ rest).set i b).length := by
    have hlen : r.encode.length = f.len := f.length_bytes
    have htotal : f.len = 29 + r.payload.length := rfl
    rw [List.length_set, List.length_append]
    omega
  have hbyte : ((r.encode ++ rest).set i b)[4]? = some f.kindByte := by
    have hlen : 5 ≤ (r.encode ++ rest).length := by
      rw [List.length_set] at hinput
      omega
    rw [List.getElem?_set_ne hkind]
    exact (Framed.declared_of_agree (List.append_nil (f.bytes ++ rest)) hlen).2
  -- the damaged head is a burst of one byte
  have hcrc : crc32 (f.head.set i b) ≠ crc32 f.head := by
    have hwas : f.head = f.head.take i ++ ([f.head[i]] ++ f.head.drop (i + 1)) := by
      rw [List.singleton_append, List.cons_getElem_drop_succ, List.take_append_drop]
    have hnow : f.head.set i b = f.head.take i ++ ([b] ++ f.head.drop (i + 1)) := by
      rw [List.set_eq_take_append_cons_drop, if_pos hlong, List.singleton_append]
    have hne : [b] ≠ [f.head[i]] := by
      rintro hsame
      rw [hbytes, List.getElem?_append_left hlong, List.getElem?_eq_getElem hlong] at hdamaged
      exact hdamaged (congrArg some (List.singleton_inj.mp hsame).symm)
    have hlen : [b].length = [f.head[i]].length := rfl
    have hburst := crc32_burst (f.head.take i) (f.head.drop (i + 1)) hlen (by simp) hne
    rwa [← hwas, ← hnow] at hburst
  unfold decode
  rw [if_neg (by unfold lenPrefix; omega), hbyte]
  simp only [Option.getD_some, f.fromU8_kindByte]
  have hwhole : ¬ ((r.encode ++ rest).set i b).length < lenPrefix + headerLenV2 :=
    Nat.not_lt.mpr hinput
  rw [if_neg (by simpa [f] using Nat.not_lt.mp hwhole), htake, hstored, Option.getD_some,
    if_pos (by simp [f, hcrc])]

/-- **Short bursts are seen.**  A change within four consecutive bytes changes the checksum,
which is the data divided, bit after bit, by the reflected polynomial; and so a frame whose
length or one of whose timestamps is damaged in one byte is refused for its header, whatever
follows it. -/
theorem Record.short_bursts_seen :
    (∀ first x y rest : List UInt8, x.length = y.length → x.length ≤ 4 → x ≠ y →
      crc32 (first ++ (x ++ rest)) ≠ crc32 (first ++ (y ++ rest))) ∧
    (∀ data : List UInt8,
      (crc32 data).toBitVec = divide poly.toBitVec ones (bits data) ^^^ ones ∧
      toPoly ((crc32 data).toBitVec ^^^ ones) =
        (X ^ (8 * data.length) * toPoly ones + X ^ 32 * message (bits data)) %ₘ ieee) ∧
    (∀ (r : Record) (rest : List UInt8) (i : ℕ) (b : UInt8), i < 21 → i ≠ 4 →
      (r.encode ++ rest)[i]? ≠ some b →
      decode ((r.encode ++ rest).set i b) = .error .headerChecksumMismatch) :=
  ⟨fun first _ _ rest hlen hfit hne => crc32_burst first rest hlen hfit hne,
    fun data => ⟨toBitVec_crc32 data, toPoly_crc32 data⟩,
    fun r rest _ _ hi hkind hdamaged => r.decode_damaged rest hi hkind hdamaged⟩

/-- Two bytes of a text exchanged, and a length that names the following bytes as well. -/
theorem Record.short_bursts_seen_damagedLength :
    crc32 [0x61, 0x62, 0x63, 0x64] ≠ crc32 [0x61, 0x63, 0x62, 0x64] ∧
      decode ((Frame.small.encode ++ [0, 0]).set 0 0x1D) = .error .headerChecksumMismatch :=
  ⟨short_bursts_seen.1 [0x61] [0x62, 0x63] [0x63, 0x62] [0x64] rfl (by decide) (by decide),
    short_bursts_seen.2.2 Frame.small [0, 0] 0 0x1D (by decide) (by decide) (by decide)⟩

end Capture
