/-
# Reading a capture file back (`oq-l2feed/src/frame.rs`, `oq-l2feed/src/writer.rs`)

What decodes as a frame is the frame of the record it decodes to, in one version or the other
(`frame_of_decode`), so a file that is read is a file of frames with a torn one behind them
(`frames_of_decodeAll`).  A window that is opened again is counted from its file, read in
pieces; the pieces do not matter (`scan_eq`).
-/
import OpenQuanter.CaptureManifest

namespace Capture

/-! ## What decodes is a frame -/

theorem u32At_of_le {bytes : List UInt8} {i : Nat} (h : i + 4 ≤ bytes.length) :
    u32At bytes i = some ((u32At bytes i).getD 0) := by
  rw [u32At, slice, if_pos h]
  rfl

theorem i64At_of_le {bytes : List UInt8} {i : Nat} (h : i + 8 ≤ bytes.length) :
    i64At bytes i = some ((i64At bytes i).getD 0) := by
  rw [i64At, u64At, slice, if_pos h]
  rfl

/-- A kind byte that means something is the one it is written with. -/
theorem Kind.byte_of_fromU8 {value : UInt8} {kind : Kind} {v2 : Bool}
    (h : fromU8 value = some (kind, v2)) :
    value = if v2 then kind.asU8V2 else kind.asU8V1 := by
  unfold fromU8 at h
  split_ifs at h with h0 h1 h2 h3
  · obtain ⟨rfl, rfl⟩ := Prod.mk.inj (Option.some.inj h)
    exact h0
  · obtain ⟨rfl, rfl⟩ := Prod.mk.inj (Option.some.inj h)
    exact h1
  · obtain ⟨rfl, rfl⟩ := Prod.mk.inj (Option.some.inj h)
    exact h2
  · obtain ⟨rfl, rfl⟩ := Prod.mk.inj (Option.some.inj h)
    exact h3

/-- What there is of a frame in the bytes it was decoded from. -/
structure Decoded (input : List UInt8) (v2 : Bool) (r : Record) (n : Nat) : Prop where
  long : 5 ≤ input.length
  kind : Kind.fromU8 (input[4]?.getD 0) = some (r.kind, v2)
  checked : v2 = true → crc32 (input.take 21) = (u32At input 21).getD 0
  declared : ((u32At input 0).getD 0).toNat = (Framed.mk v2 r).header + r.payload.length
  fits : (Framed.mk v2 r).header + r.payload.length ≤ maxFrameLen
  total : n = (Framed.mk v2 r).len
  whole : n ≤ input.length
  localTs : r.localTs = (i64At input 5).getD 0
  exchTs : r.exchTs = (i64At input 13).getD 0
  payload : r.payload = (input.take n).drop (lenPrefix + (Framed.mk v2 r).header)
  crc : crc32 r.payload = (u32At input (lenPrefix + (Framed.mk v2 r).header - 4)).getD 0

theorem decoded_of_decode {input : List UInt8} {r : Record} {n : Nat}
    (h : decode input = .ok (r, n)) : ∃ v2, Decoded input v2 r n := by
  unfold decode at h
  split at h
  · cases h
  rename_i hlong
  dsimp only at h
  split at h
  · cases h
  rename_i kind v2 hkind
  generalize hheader : (if v2 = true then headerLenV2 else headerLen) = header at h
  split at h
  · cases h
  split at h
  · cases h
  rename_i hcrc
  split at h
  · cases h
  rename_i hlen
  split at h
  · cases h
  rename_i htotal
  split at h
  · cases h
  rename_i hpayload
  obtain ⟨rfl, rfl⟩ := Prod.mk.inj (Except.ok.inj h)
  simp only [Bool.or_eq_true, decide_eq_true_eq, not_or, Nat.not_lt] at hlen
  unfold lenPrefix at hlong
  have hsize : header + ((input.take (lenPrefix + ((u32At input 0).getD 0).toNat)).drop
      (lenPrefix + header)).length = ((u32At input 0).getD 0).toNat := by
    rw [List.length_drop, List.length_take]
    omega
  have hframe : ∀ r : Record, (Framed.mk v2 r).header = header := fun _ => hheader
  refine ⟨v2, ⟨by omega, hkind, ?_, ?_, ?_, ?_, Nat.not_lt.mp htotal, rfl, rfl, ?_, ?_⟩⟩
  · intro hv
    rw [hv, Bool.true_and, decide_eq_true_eq, not_not] at hcrc
    exact hcrc
  · rw [hframe, hsize]
  · rw [hframe, hsize]
    exact hlen.2
  · rw [Framed.len, hframe, Nat.add_assoc, hsize]
  · rw [hframe]
  · rw [hframe]
    exact not_not.mp hpayload

namespace Decoded

variable {input : List UInt8} {v2 : Bool} {r : Record} {n : Nat}

/-- The frame. -/
def frame (d : Decoded input v2 r n) : Frame := ⟨⟨v2, r⟩, d.fits⟩

/-- **The bytes it took are the bytes of the frame.** -/
theorem input_eq (d : Decoded input v2 r n) : input = (Framed.mk v2 r).bytes ++ input.drop n := by
  have hlength : 21 ≤ (Framed.mk v2 r).header := Framed.length_header_pos _
  have hlen := d.total
  have hwhole := d.whole
  unfold Framed.len lenPrefix at hlen
  have hlen4 : UInt32.ofNat ((Framed.mk v2 r).header + r.payload.length) =
    (u32At input 0).getD 0 := by
    rw [← d.declared, UInt32.ofNat_toNat]
  have hkind : input[4]? = some (Framed.mk v2 r).kindByte := by
    have hbyte := Kind.byte_of_fromU8 d.kind
    have h4 : 4 < input.length := d.long
    rw [List.getElem?_eq_getElem h4] at hbyte ⊢
    exact congrArg some hbyte
  -- peel the fields off one after the other
  have h0 := drop_of_u32At (u32At_of_le (show 0 + 4 ≤ input.length by omega))
  have h4 := drop_of_getElem? hkind
  have h5 := drop_of_i64At (i64At_of_le (show 5 + 8 ≤ input.length by omega))
  have h13 := drop_of_i64At (i64At_of_le (show 13 + 8 ≤ input.length by omega))
  have hhead : input = (Framed.mk v2 r).head ++ input.drop 21 := by
    have hshape : (Framed.mk v2 r).head = u32Bytes ((u32At input 0).getD 0) ++
        ((Framed.mk v2 r).kindByte :: (i64Bytes r.localTs ++ i64Bytes r.exchTs)) := by
      rw [← hlen4]
      rfl
    rw [List.drop_zero, h4, h5, h13, ← d.localTs, ← d.exchTs] at h0
    rw [hshape]
    simpa only [List.append_assoc, List.cons_append] using h0
  have hcrc : input.drop 21 = (Framed.mk v2 r).headerCrc ++
    input.drop (lenPrefix + (Framed.mk v2 r).header - 4) := by
    have htake : input.take 21 = (Framed.mk v2 r).head := by
      rw [← (Framed.mk v2 r).length_head]
      conv_lhs => rw [hhead]
      exact List.take_left
    have hchecked := d.checked
    have hlen' := hlen
    cases v2 with
    | true =>
      have h21 := drop_of_u32At (u32At_of_le (show 21 + 4 ≤ input.length by
        simp only [Framed.header, headerLenV2] at hlen'
        omega))
      rw [← hchecked rfl, htake] at h21
      exact h21
    | false => rfl
  have hsum : input.drop (lenPrefix + (Framed.mk v2 r).header - 4) =
      u32Bytes (crc32 r.payload) ++ input.drop (lenPrefix + (Framed.mk v2 r).header) := by
    have hat : lenPrefix + (Framed.mk v2 r).header - 4 + 4 =
      lenPrefix + (Framed.mk v2 r).header := by
      unfold lenPrefix
      omega
    have hin : lenPrefix + (Framed.mk v2 r).header - 4 + 4 ≤ input.length := by
      rw [hat]
      unfold lenPrefix
      omega
    have hread := drop_of_u32At (u32At_of_le hin)
    rw [← d.crc, hat] at hread
    exact hread
  have hpayload : input.drop (lenPrefix + (Framed.mk v2 r).header) = r.payload ++ input.drop n := by
    have hle : lenPrefix + (Framed.mk v2 r).header ≤ n := by
      unfold lenPrefix
      omega
    conv_lhs => rw [← List.take_append_drop n input]
    rw [List.drop_append_of_le_length (by rw [List.length_take]; omega), ← d.payload]
  rw [(Framed.mk v2 r).bytes_eq]
  conv_lhs => rw [hhead, hcrc, hsum, hpayload]
  simp only [List.append_assoc]

end Decoded

/-- **What decodes is a frame**, of one version or the other. -/
theorem frame_of_decode {input : List UInt8} {r : Record} {n : Nat}
    (h : decode input = .ok (r, n)) :
    ∃ f : Frame, f.record = r ∧ f.len = n ∧ ∃ rest, input = f.bytes ++ rest := by
  obtain ⟨v2, d⟩ := decoded_of_decode h
  exact ⟨d.frame, rfl, d.total.symm, _, d.input_eq⟩

/-- What is not torn is decided by the bytes that are there. -/
theorem decode_append {input : List UInt8} (h : decode input ≠ .error .truncated)
    (after : List UInt8) : decode (input ++ after) = decode input := by
  have hlong : lenPrefix + 1 ≤ input.length := by
    by_contra hshort
    exact h (by rw [decode, if_pos (Nat.not_le.mp hshort)])
  have hfirst : u32At (input ++ after) 0 = u32At input 0 := by
    rw [u32At, slice_append_of_le (by unfold lenPrefix at hlong; omega), ← u32At]
  have hkind : (input ++ after)[4]? = input[4]? :=
    List.getElem?_append_left (by unfold lenPrefix at hlong; omega)
  have hmore : input.length ≤ (input ++ after).length := by simp
  unfold decode at h ⊢
  -- each check reads bytes that are there, so it answers the same with more behind them
  rw [if_neg (Nat.not_lt.mpr hlong)] at h
  rw [if_neg (Nat.not_lt.mpr (hlong.trans hmore)), if_neg (Nat.not_lt.mpr hlong)]
  simp only [hfirst, hkind] at h ⊢
  split
  · rfl
  rename_i kind v2 hvalue
  simp only [hvalue] at h
  generalize hheader : (if v2 = true then headerLenV2 else headerLen) = header at h ⊢
  by_cases htorn : (v2 && decide (input.length < lenPrefix + header)) = true
  · exact absurd (if_pos htorn) h
  rw [if_neg htorn] at h
  have hin : v2 = true → lenPrefix + header ≤ input.length := by
    rintro rfl
    simpa using htorn
  have hwhole : ¬ (v2 && decide ((input ++ after).length < lenPrefix + header)) = true := by
    cases v2 with
    | true => simpa using (hin rfl).trans hmore
    | false => exact Bool.false_ne_true
  have hchecked : (v2 && decide (crc32 ((input ++ after).take 21) ≠
    (u32At (input ++ after) 21).getD 0)) =
      (v2 && decide (crc32 (input.take 21) ≠ (u32At input 21).getD 0)) := by
    cases v2 with
    | true =>
      have h25 : 21 + 4 ≤ input.length := by
        have := hin rfl
        rw [← hheader, if_pos rfl] at this
        unfold lenPrefix headerLenV2 at this
        omega
      rw [List.take_append_of_le_length (by omega), u32At, slice_append_of_le h25, ← u32At]
    | false => rfl
  rw [if_neg hwhole, if_neg htorn, hchecked]
  split
  · rfl
  rename_i hcrc
  rw [if_neg hcrc] at h
  split
  · rfl
  rename_i hlen
  rw [if_neg hlen] at h
  -- the frame is whole: what is read from here on lies within it
  by_cases htotal : input.length < lenPrefix + ((u32At input 0).getD 0).toNat
  · exact absurd (if_pos htotal) h
  simp only [Bool.or_eq_true, decide_eq_true_eq, not_or, Nat.not_lt] at hlen htotal
  have hheader21 : 21 ≤ header := by
    rw [← hheader]
    cases v2 <;> decide
  have hcrcAt : lenPrefix + header - 4 + 4 ≤ input.length := by
    unfold lenPrefix at htotal ⊢
    omega
  have hstamps : 13 + 8 ≤ input.length := by
    unfold lenPrefix at htotal
    omega
  have hlocal : i64At (input ++ after) 5 = i64At input 5 := by
    rw [i64At, u64At, slice_append_of_le (by omega), ← u64At, ← i64At]
  have hexch : i64At (input ++ after) 13 = i64At input 13 := by
    rw [i64At, u64At, slice_append_of_le hstamps, ← u64At, ← i64At]
  have hsum : u32At (input ++ after) (lenPrefix + header - 4) =
    u32At input (lenPrefix + header - 4) := by
    rw [u32At, slice_append_of_le hcrcAt, ← u32At]
  rw [if_neg (Nat.not_lt.mpr (htotal.trans hmore)), if_neg (Nat.not_lt.mpr htotal), hlocal,
    hexch, hsum,
    List.take_append_of_le_length htotal]

/-! ## Files -/

/-- The loop takes no more rounds than there are bytes. -/
theorem decodeFrames_of_le {fuel : Nat} {input : List UInt8} (h : input.length ≤ fuel) :
    decodeFrames fuel input = decodeAll input := by
  unfold decodeAll
  generalize hn : input.length = n at h ⊢
  induction n using Nat.strong_induction_on generalizing input fuel with
  | _ n ih =>
    subst hn
    cases hinput : input with
    | nil => cases fuel <;> rfl
    | cons b rest =>
      rw [← hinput]
      have hne : input ≠ [] := by
        rw [hinput]
        exact List.cons_ne_nil _ _
      obtain ⟨k, hk⟩ := Nat.exists_eq_add_one_of_ne_zero (List.length_pos_of_ne_nil hne).ne'
      obtain ⟨fuel, rfl⟩ := Nat.exists_eq_add_one_of_ne_zero
        (((List.length_pos_of_ne_nil hne).trans_le h).ne')
      conv_rhs => rw [hk]
      rw [decodeFrames, decodeFrames, if_neg hne, if_neg hne]
      cases hdecode : decode input with
      | error e => cases e <;> rfl
      | ok found =>
        obtain ⟨r, n⟩ := found
        obtain ⟨f, -, hlen, -⟩ := frame_of_decode hdecode
        have hpos := f.len_pos
        have hdrop : (input.drop n).length < input.length := by
          rw [List.length_drop]
          omega
        have hleft := ih _ hdrop rfl (show (input.drop n).length ≤ fuel by omega)
        have hright := ih _ hdrop rfl (show (input.drop n).length ≤ k by omega)
        simp only [hleft, hright]

theorem decodeAll_nil : decodeAll [] = .ok ([], 0) := rfl

theorem decodeAll_frame_append (f : Frame) (rest : List UInt8) :
    decodeAll (f.bytes ++ rest) = (decodeAll rest).map fun p => (f.record :: p.1, p.2) := by
  have hpos := f.len_pos
  have hlength : (f.bytes ++ rest).length = f.len + rest.length := by
    rw [List.length_append, Framed.length_bytes]
  have hne : f.bytes ++ rest ≠ [] := List.ne_nil_of_length_pos (by omega)
  obtain ⟨k, hk⟩ := Nat.exists_eq_add_one_of_ne_zero (List.length_pos_of_ne_nil hne).ne'
  conv_lhs => rw [decodeAll, hk, decodeFrames, if_neg hne, f.decode_bytes]
  simp only
  rw [← f.length_bytes, List.drop_left, decodeFrames_of_le (by omega)]

/-- Frames in front of what is left. -/
theorem decodeAll_file_append (frames : List Frame) (rest : List UInt8) :
    decodeAll (Frame.file frames ++ rest) =
      (decodeAll rest).map fun p => (frames.map (fun f => f.record) ++ p.1, p.2) := by
  induction frames with
  | nil =>
    cases h : decodeAll rest with
    | error e => rw [Frame.file_nil, List.nil_append, h]; rfl
    | ok p => rw [Frame.file_nil, List.nil_append, h]; rfl
  | cons f frames ih =>
    rw [Frame.file_cons, List.append_assoc, decodeAll_frame_append, ih]
    cases decodeAll rest <;> rfl

theorem decodeAll_file (frames : List Frame) :
    decodeAll (Frame.file frames) = .ok (frames.map fun f => f.record, 0) := by
  have hall := decodeAll_file_append frames []
  rw [List.append_nil, decodeAll_nil] at hall
  rw [hall]
  simp [Except.map]

theorem decodeAll_of_error {input : List UInt8} {e : DecodeError} (h : decode input = .error e)
    (he : e ≠ .truncated) : decodeAll input = .error e := by
  have hne : input ≠ [] := by
    rintro rfl
    exact he (Except.error.inj h).symm
  obtain ⟨k, hk⟩ := Nat.exists_eq_add_one_of_ne_zero (List.length_pos_of_ne_nil hne).ne'
  rw [decodeAll, hk, decodeFrames, if_neg hne, h]
  cases e with
  | truncated => exact absurd rfl he
  | _ => rfl

theorem decodeAll_of_truncated {input : List UInt8} (h : decode input = .error .truncated) :
    decodeAll input = .ok ([], input.length) := by
  by_cases hnil : input = []
  · rw [hnil]
    rfl
  · obtain ⟨k, hk⟩ := Nat.exists_eq_add_one_of_ne_zero (List.length_pos_of_ne_nil hnil).ne'
    rw [decodeAll, hk, decodeFrames, if_neg hnil, h, hk]

/-- A file that is read is a file of frames, with a torn one behind them. -/
theorem frames_of_decodeAll {input : List UInt8} {rs : List Record} {torn : Nat}
    (h : decodeAll input = .ok (rs, torn)) : ∃ frames rest, input = Frame.file frames ++ rest ∧
      rs = frames.map (fun f => f.record) ∧ torn = rest.length ∧
      decode rest = .error .truncated := by
  induction hn : input.length using Nat.strong_induction_on generalizing input rs with
  | _ n ih =>
    cases hdecode : decode input with
    | error e =>
      by_cases he : e = .truncated
      · rw [he] at hdecode
        rw [decodeAll_of_truncated hdecode] at h
        obtain ⟨rfl, rfl⟩ := Prod.mk.inj (Except.ok.inj h)
        exact ⟨[], input, rfl, rfl, rfl, hdecode⟩
      · rw [decodeAll_of_error hdecode he] at h
        cases h
    | ok found =>
      obtain ⟨r, k⟩ := found
      obtain ⟨f, -, -, rest, hinput⟩ := frame_of_decode hdecode
      have hpos := f.len_pos
      have hlength : input.length = f.len + rest.length := by
        rw [hinput, List.length_append, Framed.length_bytes]
      rw [hinput, decodeAll_frame_append] at h
      cases hrest : decodeAll rest with
      | error e =>
        rw [hrest] at h
        cases h
      | ok p =>
        rw [hrest] at h
        obtain ⟨rfl, rfl⟩ := Prod.mk.inj (Except.ok.inj h)
        obtain ⟨frames, after, hfile, hrs, htorn, htail⟩ := ih rest.length (by omega) hrest rfl
        refine ⟨f :: frames, after, ?_, ?_, htorn, htail⟩
        · rw [Frame.file_cons, List.append_assoc, ← hfile, hinput]
        · rw [List.map_cons, hrs]

/-! ## Counting a file that is there -/

/-- The inner loop of `scan_existing`: the frames that are whole, and the bytes they took. -/
def drain : Nat → ManifestBuilder → List UInt8 → Except DecodeError (ManifestBuilder × Nat)
  | 0, b, _ => .ok (b, 0)
  | fuel + 1, b, pending =>
    match decode pending with
    | .ok (record, consumed) =>
      (drain fuel (b.observe record) (pending.drop consumed)).map fun p => (p.1, consumed + p.2)
    | .error .truncated => .ok (b, 0)
    | .error other => .error other

/-- The outer loop: what is pending is drained, then the next piece of the file is read. -/
def scanPieces (b : ManifestBuilder) (pending : List UInt8) (clean : Nat) :
    List (List UInt8) → Except DecodeError (ManifestBuilder × Nat)
  | [] => (drain pending.length b pending).map fun p => (p.1, clean + p.2)
  | piece :: pieces =>
    match drain pending.length b pending with
    | .error e => .error e
    | .ok (b', offset) => scanPieces b' (pending.drop offset ++ piece) (clean + offset) pieces

/-- A file in the pieces it is read in. -/
def pieces (size : Nat) : Nat → List UInt8 → List (List UInt8)
  | 0, _ => []
  | fuel + 1, file => if file = [] then [] else file.take size :: pieces size fuel (file.drop size)

/-- What is read of a file at once. -/
def pieceSize : Nat := 1048576

/-- Decode an existing file into a new builder: where the last whole record ends and how long the
file is, if there are any bytes. -/
def scanExisting (file : Option (List UInt8)) :
    Except DecodeError (ManifestBuilder × Option (Nat × Nat)) :=
  match file with
  | none => .ok (.new, none)
  | some bytes =>
    if bytes = [] then .ok (.new, none)
    else (scanPieces .new [] 0 (pieces pieceSize bytes.length bytes)).map
      fun p => (p.1, some (p.2, bytes.length))

/-- Account for records, one after the other. -/
def ManifestBuilder.observeAll (b : ManifestBuilder) (rs : List Record) : ManifestBuilder :=
  rs.foldl observe b

/-- The inner loop stops at what is no frame, having counted the frames before it. -/
theorem drain_spec {fuel : Nat} {pending : List UInt8} (b : ManifestBuilder)
    (h : pending.length ≤ fuel) : ∃ frames rest e, pending = Frame.file frames ++ rest ∧
      decode rest = .error e ∧ drain fuel b pending =
        if e = .truncated then .ok (b.observeAll (frames.map fun f => f.record),
        (Frame.file frames).length)
        else .error e := by
  induction fuel generalizing b pending with
  | zero =>
    rw [List.length_eq_zero_iff.mp (Nat.le_zero.mp h)]
    exact ⟨[], [], .truncated, rfl, rfl, rfl⟩
  | succ fuel ih =>
    cases hdecode : decode pending with
    | error e =>
      refine ⟨[], pending, e, rfl, hdecode, ?_⟩
      rw [drain, hdecode]
      cases e with
      | truncated => rfl
      | _ => rfl
    | ok found =>
      obtain ⟨r, n⟩ := found
      obtain ⟨f, rfl, rfl, rest, rfl⟩ := frame_of_decode hdecode
      have hpos := f.len_pos
      rw [List.length_append, Framed.length_bytes] at h
      have hdrop : (f.bytes ++ rest).drop f.len = rest := by
        rw [← f.length_bytes, List.drop_left]
      obtain ⟨frames, after, e, hrest, hafter, hdrain⟩ :=
        ih (b.observe f.record) (show rest.length ≤ fuel by omega)
      refine ⟨f :: frames, after, e, ?_, hafter, ?_⟩
      · rw [Frame.file_cons, List.append_assoc, ← hrest]
      · rw [drain, hdecode]
        simp only [hdrop, hdrain]
        split
        · rw [Frame.file_cons, List.length_append, Framed.length_bytes]
          rfl
        · rfl

theorem torn_le {input : List UInt8} {rs : List Record} {torn : Nat}
    (h : decodeAll input = .ok (rs, torn)) : torn ≤ input.length := by
  obtain ⟨frames, rest, rfl, -, rfl, -⟩ := frames_of_decodeAll h
  rw [List.length_append]
  omega

/-- **A file is counted as it is read whole**, whatever pieces it is read in. -/
theorem scanPieces_eq (b : ManifestBuilder) (pending : List UInt8) (clean : Nat)
    (ps : List (List UInt8)) : scanPieces b pending clean ps =
      (decodeAll (pending ++ ps.flatten)).map fun p =>
        (b.observeAll p.1, clean + ((pending ++ ps.flatten).length - p.2)) := by
  induction ps generalizing b pending clean with
  | nil =>
    obtain ⟨frames, rest, e, hpending, hrest, hdrain⟩ := drain_spec b (le_refl pending.length)
    rw [scanPieces, hdrain, List.flatten_nil, List.append_nil, hpending, decodeAll_file_append]
    split
    · rename_i he
      rw [decodeAll_of_truncated (he ▸ hrest)]
      simp [Except.map]
    · rename_i he
      rw [decodeAll_of_error hrest he]
      rfl
  | cons piece ps ih =>
    obtain ⟨frames, rest, e, hpending, hrest, hdrain⟩ := drain_spec b (le_refl pending.length)
    have hall : pending ++ (piece :: ps).flatten =
        Frame.file frames ++ (rest ++ piece ++ ps.flatten) := by
      rw [hpending, List.flatten_cons]
      simp only [List.append_assoc]
    rw [scanPieces, hdrain, hall, decodeAll_file_append]
    by_cases he : e = .truncated
    · rw [if_pos he]
      simp only
      rw [hpending, List.drop_left, ih]
      cases hdecode : decodeAll (rest ++ piece ++ ps.flatten) with
      | error e => rfl
      | ok p =>
        have hle := torn_le hdecode
        simp only [Except.map, ManifestBuilder.observeAll, List.foldl_append, List.length_append,
          Except.ok.injEq, Prod.mk.injEq, true_and] at hle ⊢
        omega
    · have herror : decode (rest ++ (piece ++ ps.flatten)) = .error e := by
        rw [decode_append (by rw [hrest]; exact fun h => he (Except.error.inj h)), hrest]
      rw [if_neg he, List.append_assoc, decodeAll_of_error herror he]
      rfl

theorem flatten_pieces {size fuel : Nat} {file : List UInt8} (hsize : 0 < size)
    (h : file.length ≤ fuel) : (pieces size fuel file).flatten = file := by
  induction fuel generalizing file with
  | zero => rw [List.length_eq_zero_iff.mp (Nat.le_zero.mp h)]; rfl
  | succ fuel ih =>
    rw [pieces]
    split
    · rename_i hnil
      rw [hnil]
      rfl
    · rename_i hne
      have hpos := List.length_pos_of_ne_nil hne
      rw [List.flatten_cons, ih (by rw [List.length_drop]; omega), List.take_append_drop]

/-- **What an existing file is counted as.** -/
theorem scan_eq {bytes : List UInt8} (h : bytes ≠ []) : scanExisting (some bytes) =
    (decodeAll bytes).map fun p =>
      (ManifestBuilder.new.observeAll p.1, some (bytes.length - p.2, bytes.length)) := by
  rw [scanExisting]
  simp only [if_neg h]
  rw [scanPieces_eq, flatten_pieces (by decide) le_rfl, List.nil_append]
  cases decodeAll bytes with
  | error e => rfl
  | ok p => simp [Except.map]

end Capture
