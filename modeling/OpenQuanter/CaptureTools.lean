/-
# Merged and resequenced files (`oq-merge.rs` and `oq-resequence.rs` of `oq-l2feed/src/bin`)

Two programs that write a capture file from the records of others, and a manifest beside it.
Both count the records and no gap, so the manifest tells the truth exactly if there is no gap
marker among the records and each of them still fits a frame (`tells_encoded_iff`).
-/
import OpenQuanter.CaptureTruth

namespace Capture

/-! ## What both write -/

/-- Records, encoded one after the other. -/
def encodeAll (rs : List Record) : List UInt8 := rs.flatMap Record.encode

/-- A manifest of records that were counted as they were encoded. -/
def manifestOf (stream : StreamId) (window : Window) (software : Software) (rs : List Record) :
    Manifest :=
  (ManifestBuilder.new.observeAll rs).build stream window software (encodeAll rs)

/-- The records of a file, without a torn one at its end. -/
def readRecords (file : Option (List UInt8)) : Except DecodeError (List Record) :=
  match file with
  | none => .ok []
  | some bytes => (decodeAll bytes).map Prod.fst

/-! ## `oq-merge` -/

namespace Merge

/-- Whether the primary has the same message. -/
def seen (primary : List Record) (r : Record) : Bool :=
  r.kind = .payload && primary.any fun p =>
    p.kind = .payload && p.exchTs = r.exchTs && p.payload = r.payload

/-- What is reported of a merge. -/
structure Stats where
  fromPrimary : Nat
  fromSecondary : Nat
  duplicates : Nat
  deriving DecidableEq, Repr

/-- Everything the secondary contributes, in its own order. -/
def extra (primary secondary : List Record) : List Record :=
  secondary.filter fun r => !seen primary r

/-- A two-way merge by time, the primary first on a tie. -/
def merged (primary secondary : List Record) : List Record :=
  primary.merge (extra primary secondary) fun a b => a.dayTs ≤ b.dayTs

/-- The stream and the rotation a path below an archive says. -/
def describe (parts : List Text) : Option (StreamId × Rotation) :=
  if (parts.getLast?.any fun file => ".oqcap".toList.isSuffixOf file) then
    match parts with
    | [venue, symbol, stream, _] => some (⟨venue, symbol, stream⟩, .daily)
    | [venue, symbol, stream, _, _] => some (⟨venue, symbol, stream⟩, .hourly)
    | _ => none
  else none

/-- Why a file was not merged. -/
inductive Error where
  | decode (e : DecodeError)
  | noStream
  deriving DecidableEq, Repr

/-- Merge one file: what is reported, and what is written if anything is. -/
def mergeOne (primary secondary : Option (List UInt8)) (rel : List Text) (dryRun : Bool)
    (software : Software) : Except Error (Stats × Option (List UInt8 × Manifest)) :=
  match readRecords primary, readRecords secondary with
  | .error e, _ => .error (.decode e)
  | .ok _, .error e => .error (.decode e)
  | .ok ps, .ok ss =>
    let stats := ⟨ps.length, (extra ps ss).length, ss.length - (extra ps ss).length⟩
    if dryRun then .ok (stats, none)
    else
      match describe rel with
      | none => .error .noStream
      | some (stream, rotation) =>
        match (merged ps ss).head? with
        | none => .ok (stats, none)
        | some first =>
          let window := Window.fromNanos first.dayTs rotation
          .ok (stats, some (encodeAll (merged ps ss),
            manifestOf stream window software (merged ps ss)))

end Merge

/-! ## `oq-resequence` -/

namespace Resequence

/-- What a record is sorted by, and whether that is its own number in the venue's sequence. -/
structure Keyed where
  key : Option UInt64
  record : Record
  sequenced : Bool

/-- Each record with the last number of the sequence that arrived by then. -/
def keyed (finalId : List UInt8 → Option UInt64) : Option UInt64 → List Record → List Keyed
  | _, [] => []
  | anchor, r :: rs =>
    match if r.kind = .control then none else finalId r.payload with
    | none => ⟨anchor, r, false⟩ :: keyed finalId anchor rs
    | some id => ⟨some id, r, true⟩ :: keyed finalId (some id) rs

/-- The order of the keys: no number is before every number. -/
def keyLe (a b : Keyed) : Bool :=
  match a.key, b.key with
  | none, _ => true
  | some _, none => false
  | some x, some y => x ≤ y

/-- Drop what repeats a number that was seen. -/
def dropRepeats : List (Option UInt64) → List Keyed → List Record
  | _, [] => []
  | seen, k :: ks =>
    if k.sequenced && seen.contains k.key then dropRepeats seen ks
    else k.record :: dropRepeats (if k.sequenced then k.key :: seen else seen) ks

/-- The numbers that arrived after a larger one. -/
def outOfOrder (ks : List Keyed) : Nat :=
  let arrival := (ks.filter Keyed.sequenced).filterMap Keyed.key
  ((arrival.zip arrival.tail).filter fun w => w.2 < w.1).length

/-- The records back in the venue's order. -/
def reorder (finalId : List UInt8 → Option UInt64) (records : List Record) : List Record :=
  dropRepeats [] ((keyed finalId none records).mergeSort keyLe)

/-- Resequence a file that is read: what is written, if there is anything to do, and the
manifest, if the path says of which window. -/
def resequence (finalId : List UInt8 → Option UInt64) (place : Option (StreamId × Window))
    (software : Software) (records : List Record) : Option (List UInt8 × Option Manifest) :=
  let kept := reorder finalId records
  if outOfOrder (keyed finalId none records) = 0 ∧ kept.length = records.length then none
  else some (encodeAll kept, place.map fun p => manifestOf p.1 p.2 software kept)

end Resequence

/-! ## Their manifests -/

/-- A record that was read is shorter than a length can say. -/
theorem short_of_decodeAll {file : List UInt8} {rs : List Record} {torn : Nat}
    (h : decodeAll file = .ok (rs, torn)) : ∀ r ∈ rs, headerLenV2 + r.payload.length < 2 ^ 32 := by
  obtain ⟨frames, -, -, rfl, -⟩ := frames_of_decodeAll h
  intro r hr
  obtain ⟨f, -, rfl⟩ := List.mem_map.mp hr
  have hfits := f.fits
  have hheader := f.length_header_pos
  unfold maxFrameLen at hfits
  unfold headerLenV2
  omega

theorem short_of_readRecords {file : Option (List UInt8)} {rs : List Record}
    (h : readRecords file = .ok rs) : ∀ r ∈ rs, headerLenV2 + r.payload.length < 2 ^ 32 := by
  cases file with
  | none =>
    obtain rfl := Except.ok.inj h
    exact fun r hr => nomatch hr
  | some bytes =>
    rw [readRecords] at h
    cases hread : decodeAll bytes with
    | error e =>
      rw [hread] at h
      cases h
    | ok p =>
      rw [hread] at h
      obtain rfl := Except.ok.inj h
      exact short_of_decodeAll hread

/-- A record that does not fit a frame is written, and not read. -/
theorem decode_oversize {r : Record} (hr : ¬ r.Fits)
    (hshort : headerLenV2 + r.payload.length < 2 ^ 32)
    (rest : List UInt8) : ∃ e, e ≠ .truncated ∧ decode (r.encode ++ rest) = .error e := by
  have hbytes : r.encode = (Framed.mk true r).bytes := rfl
  have hin : lenPrefix + (Framed.mk true r).header ≤ (r.encode ++ rest).length := by
    rw [hbytes, List.length_append, Framed.length_bytes, Framed.len]
    omega
  have hlong : (Framed.mk true r).header + r.payload.length < 2 ^ 32 := hshort
  have hlarge : maxFrameLen < (Framed.mk true r).header +
    (Framed.mk true r).record.payload.length :=
    Nat.not_le.mp hr
  have hdecode := Framed.decode_of_header (f := Framed.mk true r)
    (List.append_nil (r.encode ++ rest))
    hlong hin
  rw [if_pos hlarge] at hdecode
  exact ⟨.invalidLength _, fun h => (by cases h), hdecode⟩

/-- Records that all fit are read back. -/
theorem decodeAll_encodeAll {rs : List Record} (h : ∀ r ∈ rs, r.Fits) :
    decodeAll (encodeAll rs) = .ok (rs, 0) := by
  induction rs with
  | nil => rfl
  | cons r rs ih =>
    rw [List.forall_mem_cons] at h
    have hfirst := decodeAll_frame_append (r.frame h.1) (encodeAll rs)
    rw [ih h.2] at hfirst
    exact hfirst

/-- What is read back of encoded records is all of them, and then they fit. -/
theorem fits_of_decodeAll {rs : List Record} {p : List Record × Nat}
    (hshort : ∀ r ∈ rs, headerLenV2 + r.payload.length < 2 ^ 32)
    (h : decodeAll (encodeAll rs) = .ok p) : ∀ r ∈ rs, r.Fits := by
  induction rs generalizing p with
  | nil => exact fun r hr => nomatch hr
  | cons r rs ih =>
    rw [List.forall_mem_cons] at hshort ⊢
    have hcons : encodeAll (r :: rs) = r.encode ++ encodeAll rs := rfl
    rw [hcons] at h
    have hr : r.Fits := by
      by_contra hr
      obtain ⟨e, he, hdecode⟩ := decode_oversize hr hshort.1 (encodeAll rs)
      rw [decodeAll_of_error hdecode he] at h
      cases h
    have hfirst := decodeAll_frame_append (r.frame hr) (encodeAll rs)
    cases hrest : decodeAll (encodeAll rs) with
    | error e =>
      rw [hrest] at hfirst
      cases h.symm.trans hfirst
    | ok q => exact ⟨hr, ih hshort.2 hrest⟩

/-- **A manifest of encoded records tells the truth if and only if** there is no gap marker among
them and each fits a frame. -/
theorem tells_encoded_iff {stream : StreamId} {window : Window} {software : Software}
    {rs : List Record} (hshort : ∀ r ∈ rs, headerLenV2 + r.payload.length < 2 ^ 32) :
    (manifestOf stream window software rs).Tells (encodeAll rs) ↔
      ∀ r ∈ rs, r.Fits ∧ isGap r = false := by
  obtain ⟨hrecords, hbytes, hgaps, htotal⟩ := observeAll_fields .new rs
  constructor
  · rintro ⟨rs', hread, -, -, hcount, -⟩
    have hfits := fits_of_decodeAll hshort hread
    obtain ⟨rfl, -⟩ := Prod.mk.inj (Except.ok.inj ((decodeAll_encodeAll hfits).symm.trans hread))
    have hnone : (rs.filter isGap).length = 0 := hcount.symm.trans hgaps
    intro r hr
    have hnot := List.filter_eq_nil_iff.mp (List.length_eq_zero_iff.mp hnone) r hr
    exact ⟨hfits r hr, Bool.eq_false_iff.mpr hnot⟩
  · intro h
    have hnone : rs.filter isGap = [] := by
      refine List.filter_eq_nil_iff.mpr fun r hr => ?_
      rw [(h r hr).2]
      exact Bool.false_ne_true
    have hlength : (encodeAll rs).length = (rs.map Record.encodedLen).sum := by
      rw [encodeAll, List.length_flatMap]
      exact congrArg List.sum (List.map_congr_left fun r _ => (Framed.mk true r).length_bytes)
    refine ⟨rs, decodeAll_encodeAll fun r hr => (h r hr).1, ?_, ?_, ?_, ?_⟩
    · exact hrecords.trans (Nat.zero_add _)
    · rw [hlength]
      exact hbytes.trans (Nat.zero_add _)
    · rw [hnone]
      exact hgaps
    · rw [hnone]
      exact congrArg Int64.toInt htotal

/-! ### Which records those are -/

theorem mem_merged {ps ss : List Record} {r : Record} :
    r ∈ Merge.merged ps ss ↔ r ∈ ps ∨ r ∈ Merge.extra ps ss := by
  rw [Merge.merged, List.mem_merge]

/-- What is dropped of the secondary is the message of a record of the primary. -/
theorem forall_merged_iff {ps ss : List Record} :
    (∀ r ∈ Merge.merged ps ss, r.Fits ∧ isGap r = false) ↔
      ∀ r ∈ ps ++ ss, r.Fits ∧ isGap r = false := by
  constructor
  · intro h r hr
    rcases List.mem_append.mp hr with hr | hr
    · exact h r (mem_merged.mpr (.inl hr))
    by_cases hseen : Merge.seen ps r = true
    · obtain ⟨hkind, hany⟩ := Bool.and_eq_true_iff.mp hseen
      obtain ⟨p, hp, hsame⟩ := List.any_eq_true.mp hany
      obtain ⟨-, hpayload⟩ := Bool.and_eq_true_iff.mp hsame
      refine ⟨?_, ?_⟩
      · have hfits := (h p (mem_merged.mpr (.inl hp))).1
        rw [Record.Fits, of_decide_eq_true hpayload] at hfits
        exact hfits
      · rw [isGap, of_decide_eq_true hkind]
        rfl
    · refine h r (mem_merged.mpr (.inr (List.mem_filter.mpr ⟨hr, ?_⟩)))
      rw [Bool.eq_false_iff.mpr hseen]
      rfl
  · intro h r hr
    rcases mem_merged.mp hr with hr | hr
    · exact h r (List.mem_append_left _ hr)
    · exact h r (List.mem_append_right _ (List.mem_of_mem_filter hr))

theorem mem_of_mem_dropRepeats {ks : List Resequence.Keyed} {seen : List (Option UInt64)}
    {r : Record}
    (h : r ∈ Resequence.dropRepeats seen ks) : ∃ k ∈ ks, k.record = r := by
  induction ks generalizing seen with
  | nil => cases h
  | cons k ks ih =>
    rw [Resequence.dropRepeats] at h
    split at h
    · obtain ⟨k', hk', hr⟩ := ih h
      exact ⟨k', List.mem_cons_of_mem _ hk', hr⟩
    · rcases List.mem_cons.mp h with rfl | h
      · exact ⟨k, List.mem_cons_self, rfl⟩
      · obtain ⟨k', hk', hr⟩ := ih h
        exact ⟨k', List.mem_cons_of_mem _ hk', hr⟩

/-- What is not in the sequence is never a repeat. -/
theorem mem_dropRepeats {ks : List Resequence.Keyed} {seen : List (Option UInt64)}
    {k : Resequence.Keyed} (h : k ∈ ks) (hk : k.sequenced = false) :
    k.record ∈ Resequence.dropRepeats seen ks := by
  induction ks generalizing seen with
  | nil => cases h
  | cons first ks ih =>
    rw [Resequence.dropRepeats]
    rcases List.mem_cons.mp h with rfl | h
    · rw [if_neg (by rw [hk]; exact Bool.false_ne_true)]
      exact List.mem_cons_self
    · split
      · exact ih h
      · exact List.mem_cons_of_mem _ (ih h)

theorem mem_keyed {finalId : List UInt8 → Option UInt64} {anchor : Option UInt64}
    {rs : List Record} :
    (∀ k ∈ Resequence.keyed finalId anchor rs, k.record ∈ rs) ∧
      ∀ r ∈ rs, r.kind = .control →
        ∃ k ∈ Resequence.keyed finalId anchor rs, k.record = r ∧ k.sequenced = false := by
  induction rs generalizing anchor with
  | nil => exact ⟨fun k hk => (nomatch hk), fun r hr => nomatch hr⟩
  | cons first rs ih =>
    rw [Resequence.keyed]
    constructor
    · intro k hk
      split at hk
      · rcases List.mem_cons.mp hk with rfl | hk
        · exact List.mem_cons_self
        · exact List.mem_cons_of_mem _ (ih.1 k hk)
      · rcases List.mem_cons.mp hk with rfl | hk
        · exact List.mem_cons_self
        · exact List.mem_cons_of_mem _ (ih.1 k hk)
    · intro r hr hcontrol
      rcases List.mem_cons.mp hr with rfl | hr
      · rw [if_pos hcontrol]
        exact ⟨_, List.mem_cons_self, rfl, rfl⟩
      · split
        · obtain ⟨k, hk, hkept⟩ := ih.2 r hr hcontrol
          exact ⟨k, List.mem_cons_of_mem _ hk, hkept⟩
        · obtain ⟨k, hk, hkept⟩ := ih.2 r hr hcontrol
          exact ⟨k, List.mem_cons_of_mem _ hk, hkept⟩

theorem mem_of_mem_reorder {finalId : List UInt8 → Option UInt64} {rs : List Record} {r : Record}
    (h : r ∈ Resequence.reorder finalId rs) : r ∈ rs := by
  obtain ⟨k, hk, rfl⟩ := mem_of_mem_dropRepeats h
  exact mem_keyed.1 k (List.mem_mergeSort.mp hk)

/-- Every gap marker is kept. -/
theorem forall_reorder_iff {finalId : List UInt8 → Option UInt64} {rs : List Record} :
    (∀ r ∈ Resequence.reorder finalId rs, r.Fits ∧ isGap r = false) ↔
      (∀ r ∈ Resequence.reorder finalId rs, r.Fits) ∧ ∀ r ∈ rs, isGap r = false := by
  constructor
  · intro h
    refine ⟨fun r hr => (h r hr).1, fun r hr => ?_⟩
    by_contra hgap
    have hcontrol : r.kind = .control := by
      rw [Bool.not_eq_false, isGap, Bool.and_eq_true] at hgap
      exact of_decide_eq_true hgap.1
    obtain ⟨k, hk, rfl, hsequenced⟩ := (@mem_keyed finalId none rs).2 r hr hcontrol
    exact hgap (h _ (mem_dropRepeats (List.mem_mergeSort.mpr hk) hsequenced)).2
  · rintro ⟨hfits, hnone⟩ r hr
    exact ⟨hfits r hr, hnone r (mem_of_mem_reorder hr)⟩

/-- **Which manifests tell the truth.**  In a run whose calls open only windows without a gap
marker and a version 1 frame in their file, every one; of a merged or a resequenced file, the one
of a file without gap markers. -/
theorem manifests_truthful (d : Disk) (es : List Event) (hd : d.Truthful)
    (hes : (State.idle d).Meets es) : ((State.idle d).run es).disk.Truthful ∧
      (∀ primary secondary rel software stats out m ps ss,
        Merge.mergeOne primary secondary rel false software = .ok (stats, some (out, m)) →
          readRecords primary = .ok ps → readRecords secondary = .ok ss →
            (m.Tells out ↔ ∀ r ∈ ps ++ ss, r.Fits ∧ isGap r = false)) ∧
      ∀ finalId place software file torn records out m, decodeAll file = .ok (records, torn) →
        Resequence.resequence finalId place software records = some (out, some m) →
          (m.Tells out ↔ (∀ r ∈ Resequence.reorder finalId records, r.Fits) ∧
            ∀ r ∈ records, isGap r = false) := by
  refine ⟨((State.honest_idle hd).run hes).truthful, ?_, ?_⟩
  · intro primary secondary rel software stats out m ps ss hmerge hps hss
    unfold Merge.mergeOne at hmerge
    rw [hps, hss] at hmerge
    simp only [Bool.false_eq_true, if_false] at hmerge
    split at hmerge
    · cases hmerge
    · split at hmerge
      · cases hmerge
      · obtain ⟨rfl, rfl⟩ := Prod.mk.inj (Option.some.inj (Prod.mk.inj (Except.ok.inj hmerge)).2)
        rw [tells_encoded_iff, forall_merged_iff]
        intro r hr
        rcases mem_merged.mp hr with hr | hr
        · exact short_of_readRecords hps r hr
        · exact short_of_readRecords hss r (List.mem_of_mem_filter hr)
  · intro finalId place software file torn records out m hread hwritten
    unfold Resequence.resequence at hwritten
    dsimp only at hwritten
    split at hwritten
    · cases hwritten
    · obtain ⟨rfl, hplace⟩ := Prod.mk.inj (Option.some.inj hwritten)
      obtain ⟨p, -, rfl⟩ := Option.map_eq_some_iff.mp hplace
      rw [tells_encoded_iff, forall_reorder_iff]
      exact fun r hr => short_of_decodeAll hread r (mem_of_mem_reorder hr)

/-! ### A run -/

/-- A writer of a stream, rotating daily. -/
def daily : Settings := ⟨⟨['v'], ['s'], ['d']⟩, ⟨['1'], ['c']⟩, 60000000000, .daily, none⟩

/-- An archive with nothing in it. -/
def emptyDisk : Disk := ⟨fun _ => none, fun _ => none⟩

/-- A message of the first day. -/
def message : Record := ⟨.payload, 7, 7, [0x7B, 0x7D]⟩

theorem plain_none : Plain none := by
  intro frames rest hfile f hf
  have hnil := (List.append_eq_nil_iff.mp hfile.symm).1
  have hbytes : f.bytes = [] := List.flatMap_eq_nil_iff.mp hnil f hf
  have hpos := f.len_pos
  rw [← f.length_bytes, hbytes] at hpos
  cases hpos

theorem fits_message : message.Fits := by
  show headerLenV2 + 2 ≤ maxFrameLen
  unfold headerLenV2 maxFrameLen
  omega

/-- A process without a window opens the one of the record. -/
theorem append_new {c : Settings} {d : Disk} {r : Record} {b : ManifestBuilder}
    {found : Option (Nat × Nat)} (h : scanExisting (d.files (c.windowFor r)) = .ok (b, found)) :
    (CaptureWriter.new c).append d r =
      ({ CaptureWriter.new c with open_ := some ⟨c.windowFor r, b.observe r, b.localLast⟩ },
        ((d.setFile (c.windowFor r) (CaptureWriter.withoutTail ((d.files (c.windowFor r)).getD [])
          found)).setManifest (c.windowFor r) none).write (c.windowFor r) r.encode, .ok none) := by
  have hopen : (CaptureWriter.new c).append d r =
      (CaptureWriter.new c).openAndStore d (c.windowFor r) r none := rfl
  rw [hopen, CaptureWriter.openAndStore, CaptureWriter.openWindow, h]
  rfl

/-- What a process leaves that opens a window, writes a record to it and seals it. -/
theorem disk_reopened {c : Settings} {d : Disk} {r : Record} {b : ManifestBuilder}
    {found : Option (Nat × Nat)} (h : scanExisting (d.files (c.windowFor r)) = .ok (b, found)) :
    let disk := ((State.idle d).run [.start c, .call (.append r), .call .seal_]).disk
    let file := CaptureWriter.withoutTail ((d.files (c.windowFor r)).getD []) found ++ r.encode
    disk.files (c.windowFor r) = some file ∧ disk.manifests (c.windowFor r) =
      some ((b.observe r).build c.stream (c.windowFor r) c.software file) := by
  have hstep : (State.idle d).run [.start c, .call (.append r), .call .seal_] =
      ((⟨some (.new c), false, d⟩ : State).step (.call (.append r))).step (.call .seal_) := rfl
  have hcall := congrArg Call.run.outcome (append_new h)
  have hafter : (⟨some (.new c), false, d⟩ : State).step (.call (.append r)) =
      ⟨some { CaptureWriter.new c with open_ := some ⟨c.windowFor r, b.observe r, b.localLast⟩ },
        false,
        ((d.setFile (c.windowFor r) (CaptureWriter.withoutTail ((d.files (c.windowFor r)).getD [])
          found)).setManifest (c.windowFor r) none).write (c.windowFor r) r.encode⟩ := by
    have hrun : Call.run (.new c) d (.append r) =
      Call.run.outcome ((CaptureWriter.new c).append d r) := rfl
    simp only [State.step, hrun, hcall]
    rfl
  rw [hstep, hafter]
  simp [State.step, Call.run, Call.run.outcome, CaptureWriter.new, CaptureWriter.seal_,
    CaptureWriter.sealPrevious, CaptureWriter.sealDay, Disk.write, Disk.setFile, Disk.setManifest]

/-- A message is written and the day is sealed. -/
theorem manifests_truthful_message :
    ((State.idle emptyDisk).run [.start daily, .call (.append message),
    .call .seal_]).disk.Truthful := by
  have hfirst : ∀ s : State, s.disk = emptyDisk → (Event.call (.append message)).Meets s := by
    intro s hs c w hc _ _ r hr
    obtain rfl := Event.call.inj hc
    obtain rfl := Option.some.inj hr
    exact ⟨fits_message, fun _ => rfl, fun _ => by rw [hs]; exact plain_none⟩
  have hlast : ∀ s : State, (Event.call .seal_).Meets s := by
    intro s c w hc _ _ r hr
    obtain rfl := Event.call.inj hc
    cases hr
  have hmeets : (State.idle emptyDisk).Meets
      [.start daily, .call (.append message), .call .seal_] :=
    ⟨fun _ _ hc => (nomatch hc), hfirst _ rfl, hlast _, trivial⟩
  exact (manifests_truthful emptyDisk _ (fun window m hm => nomatch hm) hmeets).1

/-- A gap that a process recorded before it was killed. -/
def gap : Record := CaptureWriter.gapRecord 1 CaptureWriter.restarted none 5

/-- An archive with the file of a day that was not sealed. -/
def unsealed : Disk := emptyDisk.setFile ⟨0, none⟩ gap.encode

/-- **A window that is opened again loses its gaps**: they are in the file, and the manifest
says there are none. -/
theorem gaps_lost : unsealed.Truthful ∧
    ¬ ((State.idle unsealed).run [.start daily, .call (.append message),
    .call .seal_]).disk.Truthful := by
  refine ⟨fun window m hm => (by cases hm), fun h => ?_⟩
  have hfits : gap.Fits := CaptureWriter.fits_restart 1 5
  have hread : decodeAll gap.encode = .ok ([gap], 0) := by
    have hall := decodeAll_encodeAll (List.forall_mem_singleton.mpr hfits)
    rwa [encodeAll, List.flatMap_singleton] at hall
  have hne : gap.encode ≠ [] := by
    intro hnil
    rw [hnil] at hread
    cases hread
  have hwindow : daily.windowFor message = ⟨0, none⟩ := by decide
  have hfile : unsealed.files (daily.windowFor message) = some gap.encode := by
    rw [hwindow]
    simp only [unsealed, Disk.setFile, Function.update_self]
  have hscan := scan_eq hne
  rw [hread, ← hfile] at hscan
  obtain ⟨hleft, hmanifest⟩ := disk_reopened hscan
  obtain ⟨file, hsame, rs, hdecoded, -, -, hgaps, -⟩ := h _ _ hmanifest
  have hclean : CaptureWriter.withoutTail ((unsealed.files (daily.windowFor message)).getD [])
      (some (gap.encode.length - 0, gap.encode.length)) = gap.encode := by
    rw [hfile, CaptureWriter.withoutTail, Nat.sub_zero, if_neg (Nat.lt_irrefl _)]
    rfl
  have hboth : ∀ r ∈ [gap, message], r.Fits := by
    rw [List.forall_mem_cons]
    exact ⟨hfits, List.forall_mem_singleton.mpr fits_message⟩
  have hall : encodeAll [gap, message] = gap.encode ++ message.encode := by
    rw [encodeAll, List.flatMap_cons, List.flatMap_singleton]
  rw [hleft, hclean, ← hall] at hsame
  obtain rfl := Option.some.inj hsame
  obtain ⟨rfl, -⟩ := Prod.mk.inj (Except.ok.inj ((decodeAll_encodeAll hboth).symm.trans hdecoded))
  have hmarker : isGap gap = true := isGap_gap ..
  rw [List.filter_cons_of_pos hmarker, List.length_cons] at hgaps
  cases hgaps

end Capture
