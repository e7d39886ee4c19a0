/-
# Snapshots (`oq-journal/src/snapshot.rs`)

State as of a sequence number, and the directory that keeps it.  A snapshot is
written beside its name and renamed, so a name is never half a snapshot; one
that does not verify is passed over.  So what a recovery is given is the newest
snapshot at or before its bound that was saved and not damaged since
(`latestAtOrBefore_spec`).
-/
import OpenQuanter.CrcBursts
import OpenQuanter.PaddedDecimal
import OpenQuanter.Reader
import OpenQuanter.SortedAssoc
import OpenQuanter.TextLines

namespace Journal

open Crc32

/-- State captured at a sequence boundary. -/
structure Snapshot where
  /-- Every event with a sequence below this one is in it. -/
  uptoSeq : UInt64
  payload : List UInt8
  deriving DecidableEq, Repr

namespace Snapshot

/-! ## The layout -/

/-- Bytes before the payload. -/
def headerLen : Nat := 20

/-- `OQSN`, little-endian. -/
def magic : UInt32 := UInt32.ofNat (ofLe [0x4F, 0x51, 0x53, 0x4E])

def version : UInt16 := 1

/-- The part of the header that is checked, with two reserved bytes. -/
def checked (s : Snapshot) : List UInt8 :=
  u16Bytes version ++ (u16Bytes 0 ++ u64Bytes s.uptoSeq)

def encode (s : Snapshot) : List UInt8 :=
  u32Bytes magic ++ (s.checked ++ (u32Bytes (crc32 (s.checked ++ s.payload)) ++ s.payload))

/-- Decode a snapshot; anything that does not verify is refused.  The reads of the header have
defaults that are never used. -/
def decode (bytes : List UInt8) : Except JournalError Snapshot :=
  let corrupt (cause : FrameError) : Except JournalError Snapshot := .error (.corrupt 0 cause)
  if bytes.length < headerLen then corrupt (.incomplete headerLen bytes.length)
  else
    let foundMagic := (u32At bytes 0).getD 0
    if foundMagic ≠ magic then corrupt (.badMagic foundMagic)
    else
      let foundVersion := (u16At bytes 4).getD 0
      if foundVersion ≠ version then corrupt (.unknownVersion foundVersion)
      else
        let uptoSeq := (u64At bytes 8).getD 0
        let expected := (u32At bytes 16).getD 0
        let computed := crc32 ((bytes.take 16).drop 4 ++ bytes.drop headerLen)
        if computed ≠ expected then corrupt (.checksumMismatch expected computed)
        else .ok ⟨uptoSeq, bytes.drop headerLen⟩

theorem length_checked (s : Snapshot) : s.checked.length = 12 := by simp [checked]

/-- The checked part of an image, whatever its bytes are. -/
theorem parts_of_image {m c k p : List UInt8} (hm : m.length = 4) (hc : c.length = 12)
    (hk : k.length = 4) :
    ((m ++ (c ++ (k ++ p))).take 16).drop 4 = c ∧ (m ++ (c ++ (k ++ p))).drop headerLen = p := by
  have hhead : (m ++ c).length = 16 := by rw [List.length_append, hm, hc]
  have hall : (m ++ (c ++ k)).length = headerLen := by
    rw [List.length_append, List.length_append, hm, hc, hk]
    rfl
  constructor
  · rw [← List.append_assoc, ← hhead, List.take_left, ← hm, List.drop_left]
  · have hsplit : m ++ (c ++ (k ++ p)) = (m ++ (c ++ k)) ++ p := by simp
    rw [hsplit, ← hall, List.drop_left]

/-- **What was encoded is decoded.** -/
theorem decode_encode (s : Snapshot) : decode s.encode = .ok s := by
  have hlen : headerLen ≤ s.encode.length := by
    simp only [encode, List.length_append, length_u32Bytes, length_checked, headerLen]
    omega
  have hmagic : u32At s.encode 0 = some magic := by simp [u32At, encode]
  have hversion : u16At s.encode 4 = some version := by simp [u16At, encode, checked]
  have hseq : u64At s.encode 8 = some s.uptoSeq := by simp [u64At, encode, checked]
  have hcrc : u32At s.encode 16 = some (crc32 (s.checked ++ s.payload)) := by
    simp [u32At, encode, checked]
  obtain ⟨hchecked, hpayload⟩ := parts_of_image (length_u32Bytes magic) s.length_checked
    (length_u32Bytes (crc32 (s.checked ++ s.payload))) (p := s.payload)
  unfold decode
  dsimp only
  rw [if_neg (by omega), hmagic, hversion, hseq, hcrc]
  simp only [Option.getD_some, ne_eq, not_true_eq_false, if_false]
  have hencode : s.encode = u32Bytes magic ++ (s.checked ++
    (u32Bytes (crc32 (s.checked ++ s.payload)) ++ s.payload)) := rfl
  rw [hencode, hchecked, hpayload]
  simp

/-! ## Damage -/

/-- The bytes of a checked part and a payload. -/
def image (c p : List UInt8) : List UInt8 :=
  u32Bytes magic ++ (c ++ (u32Bytes (crc32 (c ++ p)) ++ p))

/-- What is accepted is an image, whatever its reserved bytes are. -/
theorem image_of_decode {bytes : List UInt8} {s : Snapshot} (h : decode bytes = .ok s) :
    ∃ c, c.length = 12 ∧ bytes = image c s.payload := by
  unfold decode at h
  dsimp only at h
  rw [ite_eq_iff] at h
  obtain ⟨-, h⟩ | ⟨hlen, h⟩ := h
  · cases h
  rw [ite_eq_iff] at h
  obtain ⟨-, h⟩ | ⟨hmagic, h⟩ := h
  · cases h
  rw [ite_eq_iff] at h
  obtain ⟨-, h⟩ | ⟨-, h⟩ := h
  · cases h
  rw [ite_eq_iff] at h
  obtain ⟨-, h⟩ | ⟨hcrc, h⟩ := h
  · cases h
  have hlong : 20 ≤ bytes.length := not_lt.mp hlen
  have hfield : ∀ at_, at_ + 4 ≤ 20 → ∃ v, u32At bytes at_ = some v := by
    intro at_ hat
    exact ⟨_, by rw [u32At, slice, if_pos (by omega)]; rfl⟩
  obtain ⟨m, hm⟩ := hfield 0 (by omega)
  obtain ⟨k, hk⟩ := hfield 16 (by omega)
  rw [hm, Option.getD_some, not_not] at hmagic
  rw [hk, Option.getD_some, not_not] at hcrc
  have hfront := drop_of_u32At hm
  have hback := drop_of_u32At hk
  rw [List.drop_zero, hmagic] at hfront
  have hchecked : (bytes.take 16).drop 4 ++ bytes.drop 16 = bytes.drop 4 := by
    have hsplit : (bytes.take 16).drop 4 ++ bytes.drop 16 =
        (bytes.take 16 ++ bytes.drop 16).drop 4 := by
      rw [List.drop_append_of_le_length (by rw [List.length_take]; omega)]
    rw [hsplit, List.take_append_drop]
  have hpayload : s.payload = bytes.drop headerLen := by
    rw [← Except.ok.inj h]
  refine ⟨(bytes.take 16).drop 4, by rw [List.length_drop, List.length_take]; omega, ?_⟩
  rw [image, hpayload, hcrc]
  calc bytes = u32Bytes magic ++ bytes.drop 4 := hfront
    _ = _ := by rw [← hchecked, hback]; rfl

/-- A change of one byte changes the checksum. -/
theorem set_eq_self_of_crc32 {x : List UInt8} {i : ℕ} {b : UInt8}
    (h : crc32 (x.set i b) = crc32 x) : x.set i b = x := by
  by_cases hi : i < x.length
  · have hwas : x = x.take i ++ ([x[i]] ++ x.drop (i + 1)) := by
      rw [List.singleton_append, List.cons_getElem_drop_succ, List.take_append_drop]
    have hnow : x.set i b = x.take i ++ ([b] ++ x.drop (i + 1)) := by
      rw [List.set_eq_take_append_cons_drop, if_pos hi, List.singleton_append]
    by_contra hne
    have hbyte : [b] ≠ [x[i]] := by
      intro hsame
      rw [hnow, hsame, ← hwas] at hne
      exact hne rfl
    have hburst := crc32_burst (x.take i) (x.drop (i + 1)) (by rfl) (by simp) hbyte
    rw [← hwas, ← hnow] at hburst
    exact hburst h
  · exact List.set_eq_of_length_le (not_lt.mp hi)

/-- No image is another image with one byte changed. -/
theorem image_eq_of_set {c c' p p' : List UInt8} (hc : c.length = 12) (hc' : c'.length = 12)
    {i : ℕ} {b : UInt8} (h : image c' p' = (image c p).set i b) : image c' p' = image c p := by
  have hlen : p'.length = p.length := by
    have htotal := congrArg List.length h
    simp only [image, List.length_set, List.length_append, length_u32Bytes, hc, hc'] at htotal
    omega
  have hcp : (c ++ (u32Bytes (crc32 (c ++ p)) ++ p)).length = 16 + p.length := by
    simp only [List.length_append, length_u32Bytes, hc]
    omega
  unfold image at h ⊢
  rw [List.set_append] at h
  split at h
  · -- in the magic
    rw [(List.append_inj h (by rw [List.length_set])).2]
  rename_i hmagic
  rw [length_u32Bytes] at hmagic h
  have hrest := (List.append_inj h rfl).2
  rw [List.set_append] at hrest
  split at hrest
  · -- in the checked header
    obtain ⟨hhead, htail⟩ := List.append_inj hrest (by rw [List.length_set, hc, hc'])
    obtain ⟨hcrc, hp⟩ := List.append_inj htail (by rw [length_u32Bytes, length_u32Bytes])
    have hset : c' ++ p' = (c ++ p).set (i - 4) b := by
      rw [List.set_append_left _ _ (by assumption), hhead, hp]
    have hsame := set_eq_self_of_crc32 (x := c ++ p) (i := i - 4) (b := b) (by
      rw [← hset]
      exact u32Bytes_inj.mp hcrc)
    rw [← hset] at hsame
    have hhead' := (List.append_inj hsame (by rw [hc, hc'])).1
    rw [hhead', hp]
  rename_i hchecked
  rw [hc] at hchecked hrest
  obtain ⟨hhead, htail⟩ := List.append_inj hrest (by rw [hc, hc'])
  rw [List.set_append] at htail
  split at htail
  · -- in the checksum
    have hp := (List.append_inj htail (by rw [List.length_set, length_u32Bytes, length_u32Bytes])).2
    rw [hhead, hp]
  · -- in the payload
    obtain ⟨hcrc, hp⟩ := List.append_inj htail (by rw [length_u32Bytes, length_u32Bytes])
    have hset : c' ++ p' = (c ++ p).set (c.length + (i - 4 - 12 - 4)) b := by
      rw [List.set_append_right _ _ (Nat.le_add_right _ _), Nat.add_sub_cancel_left, hhead, hp,
        length_u32Bytes]
    have hsame := set_eq_self_of_crc32 (x := c ++ p) (i := c.length + (i - 4 - 12 - 4)) (b := b) (by
      rw [← hset]
      exact u32Bytes_inj.mp hcrc)
    rw [← hset] at hsame
    have hp' := (List.append_inj hsame (by rw [hc, hc'])).2
    rw [hhead, hp']

/-- **A snapshot with one byte changed is refused**, wherever the byte is. -/
theorem changed_byte_refused (s : Snapshot) {i : ℕ} {b : UInt8}
    (hdamaged : s.encode.set i b ≠ s.encode) :
    ∃ cause, decode (s.encode.set i b) = .error cause := by
  cases hdecode : decode (s.encode.set i b) with
  | error cause => exact ⟨cause, rfl⟩
  | ok s' =>
    obtain ⟨c, hc, himage⟩ := image_of_decode hdecode
    exact absurd (himage.trans (image_eq_of_set s.length_checked hc himage.symm)) hdamaged

theorem changed_payload_refused :
    ∃ cause, decode ((⟨7, [5, 6]⟩ : Snapshot).encode.set 21 9) = .error cause :=
  changed_byte_refused ⟨7, [5, 6]⟩ (by decide +kernel)

end Snapshot

/-! ## The directory -/

namespace SnapshotStore

/-- The files of the directory, by name. -/
abbrev Dir := List (Text × List UInt8)

/-- `Path::extension` of a file's name. -/
def extension (name : Text) : Option Text :=
  match (name.reverse.span (· ≠ '.')) with
  | (_, []) => none
  | (_, ['.']) => none
  | (after, _) => some after.reverse

/-- Wide enough for every sequence, so that the names are ordered as the sequences are. -/
def stemFor (uptoSeq : UInt64) : Text :=
  ['s', 'n', 'a', 'p', 's', 'h', 'o', 't', '-'] ++ Decimal.padded 20 uptoSeq.toNat

def fileFor (uptoSeq : UInt64) : Text := stemFor uptoSeq ++ ['.', 'o', 'q', 's', 'n']

/-- The name a snapshot is first written under. -/
def tmpFor (uptoSeq : UInt64) : Text :=
  stemFor uptoSeq ++ ['.', 'o', 'q', 's', 'n', '.', 't', 'm', 'p']

/-- `fs::write`. -/
def write (dir : Dir) (name : Text) (bytes : List UInt8) : Dir :=
  SortedAssoc.upsert name (fun _ => bytes) bytes dir

/-- `fs::rename`. -/
def rename (dir : Dir) (source target : Text) : Dir :=
  match SortedAssoc.find source dir with
  | some bytes => (write dir target bytes).filter (·.1 ≠ source)
  | none => dir

/-- Write a snapshot beside its name, and put it in place. -/
def save (dir : Dir) (s : Snapshot) : Dir :=
  rename (write dir (tmpFor s.uptoSeq) s.encode) (tmpFor s.uptoSeq) (fileFor s.uptoSeq)

/-- The newest snapshot at or before a sequence; what does not verify is passed over. -/
def latestAtOrBefore (dir : Dir) (uptoSeq : UInt64) : Option Snapshot :=
  (dir.filter fun e => extension e.1 = some ['o', 'q', 's', 'n']).reverse.findSome? fun e =>
    match Snapshot.decode e.2 with
    | .ok s => if s.uptoSeq ≤ uptoSeq then some s else none
    | .error _ => none

/-- The newest snapshot that verifies. -/
def latest (dir : Dir) : Option Snapshot := latestAtOrBefore dir 0xFFFFFFFFFFFFFFFF

/-! ### Names -/

theorem extension_append {stem ext : Text} (hstem : stem ≠ []) (hext : ∀ c ∈ ext, c ≠ '.') :
    extension (stem ++ '.' :: ext) = some ext := by
  have hall : ∀ c ∈ ext.reverse, decide (c ≠ '.') = true := fun c hc =>
    decide_eq_true (hext c (List.mem_reverse.mp hc))
  have hspan : (stem ++ '.' :: ext).reverse.span (· ≠ '.') =
      (ext.reverse, '.' :: stem.reverse) := by
    rw [List.span_eq_takeWhile_dropWhile, List.reverse_append, List.reverse_cons, List.append_assoc,
      List.takeWhile_append_of_pos hall, List.dropWhile_append_of_pos hall]
    simp
  unfold extension
  rw [hspan]
  cases hrev : stem.reverse with
  | nil => exact absurd (List.reverse_eq_nil_iff.mp hrev) hstem
  | cons c rest => simp

theorem stemFor_ne_nil (n : UInt64) : stemFor n ≠ [] := List.cons_ne_nil _ _

theorem extension_fileFor (n : UInt64) : extension (fileFor n) = some ['o', 'q', 's', 'n'] :=
  extension_append (stemFor_ne_nil n) (by simp)

theorem extension_tmpFor (n : UInt64) : extension (tmpFor n) = some ['t', 'm', 'p'] := by
  have hname : tmpFor n = (stemFor n ++ ['.', 'o', 'q', 's', 'n']) ++ '.' :: ['t', 'm', 'p'] := by
    rw [tmpFor, List.append_assoc]
    rfl
  rw [hname]
  exact extension_append (List.append_ne_nil_of_left_ne_nil (stemFor_ne_nil n) _) (by simp)

theorem tmpFor_ne_fileFor (m n : UInt64) : tmpFor m ≠ fileFor n := by
  intro h
  have hext := congrArg extension h
  rw [extension_tmpFor, extension_fileFor] at hext
  exact absurd (Option.some.inj hext) (by decide)

/-- **The names are ordered as the sequences.** -/
theorem fileFor_lt_iff (m n : UInt64) : fileFor m < fileFor n ↔ m < n := by
  have hfits : ∀ n : UInt64, n.toNat < 10 ^ 20 := fun n => n.toNat_lt.trans (by decide)
  unfold fileFor stemFor
  rw [List.append_assoc, List.append_assoc, Decimal.append_lt_append_iff rfl,
    Decimal.padded_append_lt_iff (by decide) (hfits m) (hfits n), UInt64.lt_iff_toNat_lt]
  simp

theorem fileFor_inj {m n : UInt64} (h : fileFor m = fileFor n) : m = n := by
  rcases Nat.lt_trichotomy m.toNat n.toNat with hlt | heq | hgt
  · have hname := (fileFor_lt_iff m n).mpr (UInt64.lt_iff_toNat_lt.mpr hlt)
    rw [h] at hname
    exact absurd hname (lt_irrefl _)
  · exact UInt64.toNat_inj.mp heq
  · have hname := (fileFor_lt_iff n m).mpr (UInt64.lt_iff_toNat_lt.mpr hgt)
    rw [h] at hname
    exact absurd hname (lt_irrefl _)

/-! ### What happens to a directory -/

/-- A snapshot is saved; a save ends after some bytes of the temporary file; the file of a
sequence is damaged. -/
inductive Event where
  | saved (s : Snapshot)
  | interrupted (s : Snapshot) (written : Nat)
  | damaged (uptoSeq : UInt64) (bytes : List UInt8)

namespace Event

def apply (dir : Dir) : Event → Dir
  | saved s => save dir s
  | interrupted s written => write dir (tmpFor s.uptoSeq) (s.encode.take written)
  | damaged uptoSeq bytes => write dir (fileFor uptoSeq) bytes

/-- The snapshots that count, by their sequence: the last one saved, until it is damaged. -/
def count (held : UInt64 → Option Snapshot) : Event → UInt64 → Option Snapshot
  | saved s => Function.update held s.uptoSeq (some s)
  | interrupted _ _ => held
  | damaged uptoSeq _ => Function.update held uptoSeq none

/-- What is left of a damaged file does not verify. -/
def Refused : Event → Prop
  | damaged _ bytes => ∀ s, Snapshot.decode bytes ≠ .ok s
  | _ => True

end Event

/-- The snapshot a file holds, if it verifies. -/
def verified (bytes : List UInt8) : Option Snapshot := (Snapshot.decode bytes).toOption

/-- The directory holds the snapshots that count, each in the file of its sequence. -/
structure Holds (dir : Dir) (held : UInt64 → Option Snapshot) : Prop where
  sorted : dir.Pairwise (fun a b => a.1 < b.1)
  named : ∀ e ∈ dir, extension e.1 = some ['o', 'q', 's', 'n'] → ∃ n, e.1 = fileFor n
  agree : ∀ n, (SortedAssoc.find (fileFor n) dir).bind verified = held n
  own : ∀ n s, held n = some s → s.uptoSeq = n

theorem Holds.empty : Holds [] fun _ => none :=
  ⟨List.Pairwise.nil, fun _ he => absurd he List.not_mem_nil, fun _ => rfl, fun _ _ h => by cases h⟩

section Steps

variable {dir : Dir} {held : UInt64 → Option Snapshot}

/-- What is written under a temporary name does not count. -/
theorem Holds.writeTmp (h : Holds dir held) (n : UInt64) (bytes : List UInt8) :
    Holds (write dir (tmpFor n) bytes) held where
  sorted := SortedAssoc.pairwise_upsert _ _ _ h.sorted
  named e he hext := by
    rcases SortedAssoc.mem_upsert he with htmp | hmem
    · rw [htmp, extension_tmpFor] at hext
      exact absurd (Option.some.inj hext) (by decide)
    · exact h.named e hmem hext
  agree m := by
    rw [write, SortedAssoc.find_upsert_of_ne (tmpFor_ne_fileFor n m).symm]
    exact h.agree m
  own := h.own

/-- What is written under the name of a sequence counts for that sequence, if it verifies. -/
theorem Holds.writeFile (h : Holds dir held) (n : UInt64) (bytes : List UInt8)
    (hown : ∀ s, verified bytes = some s → s.uptoSeq = n) :
    Holds (write dir (fileFor n) bytes) (Function.update held n (verified bytes)) where
  sorted := SortedAssoc.pairwise_upsert _ _ _ h.sorted
  named e he hext := by
    rcases SortedAssoc.mem_upsert he with hname | hmem
    · exact ⟨n, hname⟩
    · exact h.named e hmem hext
  agree m := by
    by_cases hm : m = n
    · subst hm
      rw [write, SortedAssoc.find_upsert_self, Function.update_self]
      cases SortedAssoc.find (fileFor m) dir <;> rfl
    · rw [write, SortedAssoc.find_upsert_of_ne fun hname => hm (fileFor_inj hname),
        Function.update_of_ne hm]
      exact h.agree m
  own m s hs := by
    by_cases hm : m = n
    · subst hm
      rw [Function.update_self] at hs
      exact hown s hs
    · rw [Function.update_of_ne hm] at hs
      exact h.own m s hs

/-- A temporary file taken away leaves what counts. -/
theorem Holds.removeTmp (h : Holds dir held) (n : UInt64) :
    Holds (dir.filter (·.1 ≠ tmpFor n)) held where
  sorted := h.sorted.filter _
  named e he hext := h.named e (List.mem_filter.mp he).1 hext
  agree m := by
    have hstays : ∀ bytes : List UInt8, decide ((fileFor m, bytes).1 ≠ tmpFor n) = true :=
      fun _ => decide_eq_true (tmpFor_ne_fileFor n m).symm
    rw [SortedAssoc.find_filter hstays h.sorted]
    exact h.agree m
  own := h.own

theorem verified_encode (s : Snapshot) : verified s.encode = some s := by
  rw [verified, Snapshot.decode_encode]
  rfl

theorem Holds.save (h : Holds dir held) (s : Snapshot) :
    Holds (save dir s) (Function.update held s.uptoSeq (some s)) := by
  have htmp := h.writeTmp s.uptoSeq s.encode
  have hfound : SortedAssoc.find (tmpFor s.uptoSeq) (write dir (tmpFor s.uptoSeq) s.encode) =
      some s.encode := by
    rw [write, SortedAssoc.find_upsert_self]
    cases SortedAssoc.find (tmpFor s.uptoSeq) dir <;> rfl
  have hfile := htmp.writeFile s.uptoSeq s.encode fun s' hs' => by
    rw [verified_encode] at hs'
    rw [Option.some.inj hs']
  rw [verified_encode] at hfile
  unfold SnapshotStore.save rename
  rw [hfound]
  exact hfile.removeTmp s.uptoSeq

/-- One event. -/
theorem Holds.apply (h : Holds dir held) {e : Event} (he : e.Refused) :
    Holds (e.apply dir) (e.count held) := by
  cases e with
  | saved s => exact h.save s
  | interrupted s written => exact h.writeTmp s.uptoSeq _
  | damaged n bytes =>
    have hnone : verified bytes = none := by
      cases hdecode : Snapshot.decode bytes with
      | error cause => rw [verified, hdecode]; rfl
      | ok s => exact absurd hdecode (he s)
    have hfile := h.writeFile n bytes fun s hs => by
      rw [hnone] at hs
      cases hs
    rwa [hnone] at hfile

end Steps

/-- The directory after events, from an empty one. -/
def after (events : List Event) : Dir := events.foldl Event.apply []

/-- The snapshots that count after events. -/
def counted (events : List Event) : UInt64 → Option Snapshot :=
  events.foldl Event.count fun _ => none

theorem Holds.after {events : List Event} (h : ∀ e ∈ events, e.Refused) :
    Holds (after events) (counted events) := by
  suffices hrun : ∀ {dir : Dir} {held : UInt64 → Option Snapshot}, Holds dir held →
      Holds (events.foldl Event.apply dir) (events.foldl Event.count held) from hrun Holds.empty
  induction events with
  | nil => exact fun hheld => hheld
  | cons e events ih =>
    intro dir held hheld
    exact ih (fun e' he' => h e' (List.mem_cons_of_mem _ he'))
      (hheld.apply (h e List.mem_cons_self))

/-! ### The newest one -/

section Newest

variable {dir : Dir} {held : UInt64 → Option Snapshot}

/-- What one file contributes. -/
def offered (bound : UInt64) (e : Text × List UInt8) : Option Snapshot :=
  match Snapshot.decode e.2 with
  | .ok s => if s.uptoSeq ≤ bound then some s else none
  | .error _ => none

theorem latestAtOrBefore_eq (dir : Dir) (bound : UInt64) :
    latestAtOrBefore dir bound =
      (dir.filter fun e => extension e.1 = some ['o', 'q', 's', 'n']).reverse.findSome?
        (offered bound) := rfl

theorem offered_eq_some_iff {bound : UInt64} {e : Text × List UInt8} {s : Snapshot} :
    offered bound e = some s ↔ verified e.2 = some s ∧ s.uptoSeq ≤ bound := by
  unfold offered verified
  cases Snapshot.decode e.2 with
  | error cause => simp [Except.toOption]
  | ok s' =>
    simp only [Except.toOption, Option.ite_none_right_eq_some, Option.some.injEq]
    constructor
    · rintro ⟨hle, rfl⟩
      exact ⟨rfl, hle⟩
    · rintro ⟨rfl, hle⟩
      exact ⟨hle, rfl⟩

/-- A candidate that verifies is a snapshot that counts, in the file of its sequence. -/
theorem Holds.candidate (h : Holds dir held) {e : Text × List UInt8} (he : e ∈ dir)
    (hext : extension e.1 = some ['o', 'q', 's', 'n']) {s : Snapshot} (hs : verified e.2 = some s) :
    e.1 = fileFor s.uptoSeq ∧ held s.uptoSeq = some s := by
  obtain ⟨n, hn⟩ := h.named e he hext
  have hfind : SortedAssoc.find (fileFor n) dir = some e.2 :=
    (SortedAssoc.find_eq_some_iff h.sorted).mpr (by rw [← hn]; exact he)
  have hheld : held n = some s := by rw [← h.agree n, hfind, Option.bind_some, hs]
  have hseq := h.own n s hheld
  rw [hseq]
  exact ⟨hn, hheld⟩

/-- A snapshot that counts is a candidate. -/
theorem Holds.exists_candidate (h : Holds dir held) {n : UInt64} {s : Snapshot}
    (hs : held n = some s) :
    ∃ e ∈ dir, e.1 = fileFor n ∧ verified e.2 = some s := by
  rw [← h.agree n] at hs
  obtain ⟨bytes, hfind, hverified⟩ := Option.bind_eq_some_iff.mp hs
  exact ⟨(fileFor n, bytes), (SortedAssoc.find_eq_some_iff h.sorted).mp hfind, rfl, hverified⟩

/-- What is answered counts, and nothing newer within the bound does. -/
theorem Holds.of_latestAtOrBefore (h : Holds dir held) {bound : UInt64} {s : Snapshot}
    (hs : latestAtOrBefore dir bound = some s) :
    held s.uptoSeq = some s ∧ s.uptoSeq ≤ bound ∧
      ∀ n ≤ bound, held n ≠ none → n ≤ s.uptoSeq := by
  rw [latestAtOrBefore_eq] at hs
  obtain ⟨newer, e, older, hsplit, he, hnewer⟩ := List.findSome?_eq_some_iff.mp hs
  obtain ⟨hverified, hle⟩ := offered_eq_some_iff.mp he
  have hmem : ∀ {x : Text × List UInt8}, x ∈ newer ++ e :: older →
      x ∈ dir ∧ extension x.1 = some ['o', 'q', 's', 'n'] := by
    intro x hx
    rw [← hsplit, List.mem_reverse, List.mem_filter, decide_eq_true_eq] at hx
    exact hx
  have hown := hmem (List.mem_append_right _ List.mem_cons_self)
  obtain ⟨hname, hheld⟩ := h.candidate hown.1 hown.2 hverified
  refine ⟨hheld, hle, fun n hn hsome => ?_⟩
  obtain ⟨s', hs'⟩ := Option.ne_none_iff_exists'.mp hsome
  obtain ⟨e', he', hname', hverified'⟩ := h.exists_candidate hs'
  -- the file of `n` offers too, so it does not come before the one that answered
  have hoffered : offered bound e' = some s' :=
    offered_eq_some_iff.mpr ⟨hverified', by rw [h.own n s' hs']; exact hn⟩
  have hcandidate : e' ∈ newer ++ e :: older := by
    rw [← hsplit, List.mem_reverse, List.mem_filter, hname', extension_fileFor]
    exact ⟨he', by simp⟩
  have hsorted : (newer ++ e :: older).Pairwise (fun a b => b.1 < a.1) := by
    rw [← hsplit, List.pairwise_reverse]
    exact h.sorted.filter _
  rcases List.mem_append.mp hcandidate with hbefore | hafter
  · rw [hnewer e' hbefore] at hoffered
    cases hoffered
  · rcases List.mem_cons.mp hafter with rfl | holder
    · exact UInt64.le_of_eq (fileFor_inj (hname'.symm.trans hname))
    · have hlt := (List.pairwise_cons.mp (List.pairwise_append.mp hsorted).2.1).1 e' holder
      rw [hname', hname, fileFor_lt_iff] at hlt
      exact UInt64.le_of_lt hlt

theorem Holds.latestAtOrBefore_eq_none_iff (h : Holds dir held) {bound : UInt64} :
    latestAtOrBefore dir bound = none ↔ ∀ n ≤ bound, held n = none := by
  rw [latestAtOrBefore_eq, List.findSome?_eq_none_iff]
  constructor
  · intro hnone n hn
    cases hs : held n with
    | none => rfl
    | some s =>
      obtain ⟨e, he, hname, hverified⟩ := h.exists_candidate hs
      have hcandidate : e ∈ (dir.filter fun e =>
          extension e.1 = some ['o', 'q', 's', 'n']).reverse := by
        rw [List.mem_reverse, List.mem_filter, hname, extension_fileFor]
        exact ⟨he, by simp⟩
      have hoffered := offered_eq_some_iff.mpr ⟨hverified, by rw [h.own n s hs]; exact hn⟩
      rw [hnone e hcandidate] at hoffered
      cases hoffered
  · intro hnone e he
    rw [List.mem_reverse, List.mem_filter, decide_eq_true_eq] at he
    cases hs : offered bound e with
    | none => rfl
    | some s =>
      obtain ⟨hverified, hle⟩ := offered_eq_some_iff.mp hs
      have hheld := (h.candidate he.1 he.2 hverified).2
      rw [hnone _ hle] at hheld
      cases hheld

end Newest

/-- **A recovery is given the newest snapshot at or before its bound that was saved and not
damaged since**, and none only if there is none. -/
theorem latestAtOrBefore_spec {events : List Event} (h : ∀ e ∈ events, e.Refused)
    (bound : UInt64) :
    (latestAtOrBefore (after events) bound = none ↔ ∀ n ≤ bound, counted events n = none) ∧
    ∀ s, latestAtOrBefore (after events) bound = some s ↔
      counted events s.uptoSeq = some s ∧ s.uptoSeq ≤ bound ∧
        ∀ n ≤ bound, counted events n ≠ none → n ≤ s.uptoSeq := by
  have hholds := Holds.after h
  refine ⟨hholds.latestAtOrBefore_eq_none_iff, fun s => ⟨hholds.of_latestAtOrBefore, ?_⟩⟩
  rintro ⟨hcounted, hle, hnewest⟩
  cases hanswer : latestAtOrBefore (after events) bound with
  | none =>
    rw [hholds.latestAtOrBefore_eq_none_iff.mp hanswer _ hle] at hcounted
    cases hcounted
  | some s' =>
    obtain ⟨hcounted', hle', hnewest'⟩ := hholds.of_latestAtOrBefore hanswer
    have hseq : s'.uptoSeq = s.uptoSeq :=
      UInt64.le_antisymm (hnewest _ hle' (by rw [hcounted']; exact Option.some_ne_none _))
        (hnewest' _ hle (by rw [hcounted]; exact Option.some_ne_none _))
    rw [hseq, hcounted] at hcounted'
    exact hcounted'.symm

theorem latestAtOrBefore_of_damaged :
    latestAtOrBefore (after [.saved ⟨10, [1]⟩, .saved ⟨20, [2]⟩, .saved ⟨90, [3]⟩,
      .interrupted ⟨15, [4]⟩ 7, .damaged 20 [0]]) 50 = some ⟨10, [1]⟩ := by
  refine ((latestAtOrBefore_spec ?_ 50).2 ⟨10, [1]⟩).mpr ⟨?_, by decide, ?_⟩
  · intro e he
    simp only [List.mem_cons, List.not_mem_nil, or_false] at he
    rcases he with rfl | rfl | rfl | rfl | rfl
    · trivial
    · trivial
    · trivial
    · trivial
    · intro s hs
      simp [Snapshot.decode, Snapshot.headerLen] at hs
  · simp [counted, Event.count, Function.update]
  · intro n hn hcounted
    simp [counted, Event.count, Function.update] at hcounted
    grind

end SnapshotStore
end Journal
