/-
# Three readers of one file

What each reader takes of a file of `n` records is the same (`readTicks n`), however it is cut
into blocks.  The readers differ in one check: the one that yields the ticks compares the
checksum with the last record, so of a file without records it compares nothing.
-/
import OpenQuanter.TickFile

namespace Ticks

/-! ## Records -/

@[simp] theorem length_recordBytes (t : Tick) : (recordBytes t).length = recordLen := by
  simp [recordBytes, recordLen]

theorem tickOf_recordBytes (t : Tick) : tickOf (recordBytes t) = t := by
  simp [tickOf, recordBytes, i64At, u64At]

theorem length_flatMap_recordBytes (ticks : List Tick) :
    (ticks.flatMap recordBytes).length = ticks.length * recordLen := by
  rw [List.length_flatMap]
  simp

/-- **What is written is read back.** -/
theorem readTicks_recordBytes (ticks : List Tick) (rest : List UInt8) :
    readTicks ticks.length (ticks.flatMap recordBytes ++ rest) = ticks := by
  induction ticks with
  | nil => rfl
  | cons t ticks ih =>
    have hshape : (t :: ticks).flatMap recordBytes ++ rest =
        recordBytes t ++ (ticks.flatMap recordBytes ++ rest) := by
      rw [List.flatMap_cons, List.append_assoc]
    rw [hshape, List.length_cons, readTicks, ← length_recordBytes t, List.take_left,
      List.drop_left, tickOf_recordBytes, ih]

@[simp] theorem length_readTicks (n : Nat) (bytes : List UInt8) :
    (readTicks n bytes).length = n := by
  induction n generalizing bytes with
  | zero => rfl
  | succ n ih => rw [readTicks, List.length_cons, ih]

/-- Records, block after block. -/
theorem readTicks_add (m n : Nat) (bytes : List UInt8) :
    readTicks (m + n) bytes = readTicks m bytes ++ readTicks n (bytes.drop (m * recordLen)) := by
  induction m generalizing bytes with
  | zero => simp [readTicks]
  | succ m ih =>
    rw [Nat.succ_add, readTicks, ih, readTicks, List.drop_drop, Nat.succ_mul,
      Nat.add_comm recordLen]
    rfl

/-- Only the bytes of the records are looked at. -/
theorem readTicks_take {n w : Nat} (bytes : List UInt8) (h : n * recordLen ≤ w) :
    readTicks n (bytes.take w) = readTicks n bytes := by
  induction n generalizing bytes w with
  | zero => rfl
  | succ n ih =>
    rw [Nat.succ_mul] at h
    rw [readTicks, readTicks, List.take_take, Nat.min_eq_left (by omega), List.drop_take,
      ih _ (by omega)]

theorem ticksOf_take {n : Nat} {bytes : List UInt8} (h : n * recordLen ≤ bytes.length) :
    ticksOf (bytes.take (n * recordLen)) = readTicks n bytes := by
  have hcount : (bytes.take (n * recordLen)).length / recordLen = n := by
    rw [List.length_take, Nat.min_eq_left h, Nat.mul_div_cancel _ (by decide)]
  rw [ticksOf, hcount, readTicks_take _ le_rfl]

/-! ## Checksums -/

theorem Accumulator.update_append (a : Accumulator) (xs ys : List UInt8) :
    (a.update xs).update ys = a.update (xs ++ ys) := by
  unfold update
  rw [List.foldl_append]

/-- In pieces or at once, the checksum is the same. -/
theorem Accumulator.finish_new (bytes : List UInt8) : (new.update bytes).finish = crc32 bytes := rfl

/-! ## Files -/

/-- The content of a file: no file is longer than there are addresses for. -/
structure TickFile where
  bytes : List UInt8
  length_lt : bytes.length < usizeMax

/-- The records of a file. -/
def body (bytes : List UInt8) (count : Nat) : List UInt8 :=
  (bytes.drop headerLen).take (count * recordLen)

/-- The file has a header and the records it promises. -/
structure Full (bytes : List UInt8) (header : Header) : Prop where
  head : readHeader bytes = .ok header
  length : headerLen + header.count.toNat * recordLen ≤ bytes.length

theorem expectedLen_le_iff (file : TickFile) (count : UInt64) :
    (expectedLen count).getD usizeMax ≤ file.bytes.length ↔
      headerLen + count.toNat * recordLen ≤ file.bytes.length := by
  have hlt := file.length_lt
  unfold expectedLen
  split
  · rw [Option.getD_some]
  · rw [Option.getD_none]
    omega

theorem expectedLen_eq {file : TickFile} {count : UInt64}
    (h : headerLen + count.toNat * recordLen ≤ file.bytes.length) :
    (expectedLen count).getD usizeMax = headerLen + count.toNat * recordLen := by
  have hlt := file.length_lt
  unfold expectedLen
  rw [if_pos (by omega)]
  rfl

/-- The records, as any of the readers takes them. -/
def records (bytes : List UInt8) (header : Header) : List Tick :=
  readTicks header.count.toNat (bytes.drop headerLen)

section Full

variable {file : TickFile} {header : Header} {ticks : List Tick}

theorem Full.length_body (h : Full file.bytes header) :
    header.count.toNat * recordLen ≤ (file.bytes.drop headerLen).length := by
  have := h.length
  rw [List.length_drop]
  omega

/-- Decoding takes a full file whose checksum is right. -/
theorem decode_eq_ok :
    decode file.bytes = .ok (header, ticks) ↔
      Full file.bytes header ∧ crc32 (body file.bytes header.count.toNat) = header.checksum ∧
        ticks = records file.bytes header := by
  unfold decode
  rw [Except.bind_eq_ok]
  constructor
  · rintro ⟨found, hread, h⟩
    rw [Except.require_bind_eq_ok, Except.require_bind_eq_ok, Except.pure_eq_ok] at h
    obtain ⟨hlength, hcrc, heq⟩ := h
    obtain ⟨rfl, rfl⟩ := Prod.mk.inj heq
    have hfull : Full file.bytes found := ⟨hread, (expectedLen_le_iff file _).mp hlength⟩
    have hbody : (file.bytes.take (headerLen + found.count.toNat * recordLen)).drop headerLen =
        body file.bytes found.count.toNat := by
      rw [List.drop_take, Nat.add_sub_cancel_left, body]
    rw [expectedLen_eq hfull.length, hbody] at hcrc
    refine ⟨hfull, hcrc, ?_⟩
    rw [expectedLen_eq hfull.length, hbody]
    exact ticksOf_take hfull.length_body
  · rintro ⟨hfull, hcrc, rfl⟩
    have hbody : (file.bytes.take (headerLen + header.count.toNat * recordLen)).drop headerLen =
        body file.bytes header.count.toNat := by
      rw [List.drop_take, Nat.add_sub_cancel_left, body]
    refine ⟨header, hfull.head, ?_⟩
    rw [Except.require_bind_eq_ok, Except.require_bind_eq_ok, Except.pure_eq_ok,
      expectedLen_eq hfull.length, hbody]
    refine ⟨hfull.length, hcrc, ?_⟩
    rw [body, ticksOf_take hfull.length_body, records]

end Full

/-! ## Blocks -/

theorem readExact_eq_some {want : Nat} {file piece rest : List UInt8} :
    readExact want file = some (piece, rest) ↔
      want ≤ file.length ∧ piece = file.take want ∧ rest = file.drop want := by
  unfold readExact
  split
  · rename_i hle
    rw [Option.some.injEq, Prod.mk.injEq]
    exact ⟨fun h => ⟨hle, h.1.symm, h.2.symm⟩, fun h => ⟨h.2.1.symm, h.2.2.symm⟩⟩
  · rename_i hle
    exact ⟨fun h => (nomatch h), fun h => absurd h.1 hle⟩

/-- The blocks of a file that has the records, one after the other. -/
theorem readBlocks_eq_ok {header : Header} {fuel remaining : Nat} {file : List UInt8}
    {crc : Accumulator} {ticks : List Tick} (hfuel : remaining ≤ fuel)
    (h : remaining * recordLen ≤ file.length) :
    readBlocks header fuel remaining file crc ticks =
      .ok (crc.update (file.take (remaining * recordLen)), ticks ++ readTicks remaining file) := by
  induction fuel generalizing remaining file crc ticks with
  | zero =>
    obtain rfl := Nat.le_zero.mp hfuel
    rw [readBlocks, Nat.zero_mul, List.take_zero, readTicks, List.append_nil]
    rfl
  | succ fuel ih =>
    rw [readBlocks]
    by_cases hzero : remaining = 0
    · rw [if_pos hzero, hzero, Nat.zero_mul, List.take_zero, readTicks, List.append_nil]
      rfl
    · rw [if_neg hzero]
      have hblock : min remaining block * recordLen ≤ file.length := by
        unfold block recordLen at *
        omega
      have hread : readExact (min remaining block * recordLen) file =
          some (file.take (min remaining block * recordLen),
            file.drop (min remaining block * recordLen)) :=
        readExact_eq_some.mpr ⟨hblock, rfl, rfl⟩
      have hcount : min remaining block * recordLen / recordLen = min remaining block :=
        Nat.mul_div_cancel _ (by decide)
      have hsplit : remaining = min remaining block + (remaining - min remaining block) := by
        omega
      simp only [hread, hcount]
      rw [ih (by unfold block at *; omega) (by
        rw [List.length_drop, Nat.sub_mul]
        omega)]
      congr 2
      · rw [Accumulator.update_append, ← List.take_add, ← Nat.add_mul, ← hsplit]
      · rw [ticksOf_take hblock, List.append_assoc, ← readTicks_add, ← hsplit]

/-! ## The file reader -/

/-- The header is read from its own bytes alone. -/
theorem readHeader_take {bytes : List UInt8} (h : headerLen ≤ bytes.length) :
    readHeader (bytes.take headerLen) = readHeader bytes := by
  have hslice : ∀ i w : Nat, i + w ≤ headerLen →
      slice (bytes.take headerLen) i w = slice bytes i w := by
    intro i w hw
    have hin : i + w ≤ (bytes.take headerLen).length := by
      rw [List.length_take]
      omega
    have hall := slice_append_of_le hin (bytes.drop headerLen)
    rw [List.take_append_drop] at hall
    exact hall.symm
  have hlength : ¬ (bytes.take headerLen).length < headerLen := by
    rw [List.length_take]
    omega
  unfold readHeader
  rw [if_neg hlength, if_neg (Nat.not_lt.mpr h)]
  unfold u32At u16At u64At
  rw [hslice 0 4 (by decide), hslice 4 2 (by decide), hslice 8 8 (by decide),
    hslice 16 8 (by decide), hslice 24 4 (by decide)]

theorem length_of_readHeader {bytes : List UInt8} {header : Header}
    (h : readHeader bytes = .ok header) : headerLen ≤ bytes.length := by
  unfold readHeader at h
  split at h
  · cases h
  · rename_i hlength
    exact Nat.not_lt.mp hlength

theorem readFirst_eq_ok {bytes rest : List UInt8} {header : Header} :
    readFirst bytes = .ok (header, rest) ↔
      readHeader bytes = .ok header ∧ rest = bytes.drop headerLen := by
  unfold readFirst
  by_cases hlength : headerLen ≤ bytes.length
  · have hread : readExact headerLen bytes = some (bytes.take headerLen, bytes.drop headerLen) :=
      readExact_eq_some.mpr ⟨hlength, rfl, rfl⟩
    simp only [hread, readHeader_take hlength]
    cases readHeader bytes with
    | error e => exact ⟨fun h => (nomatch h), fun h => (nomatch h.1)⟩
    | ok found =>
      constructor
      · intro h
        obtain ⟨rfl, rfl⟩ := Prod.mk.inj (Except.ok.inj h)
        exact ⟨rfl, rfl⟩
      · rintro ⟨h, rfl⟩
        obtain rfl := Except.ok.inj h
        rfl
  · have hnone : readExact headerLen bytes = none := if_neg hlength
    simp only [hnone]
    exact ⟨fun h => (nomatch h), fun h => absurd (length_of_readHeader h.1) hlength⟩

section Full

variable {file : TickFile} {header : Header} {ticks : List Tick}

/-- **The reader of the file takes what decoding takes.** -/
theorem readFile_eq_ok :
    readFile file.bytes = .ok (header, ticks) ↔ decode file.bytes = .ok (header, ticks) := by
  rw [decode_eq_ok]
  unfold readFile
  rw [Except.bind_eq_ok]
  -- the blocks hold the records that decoding takes at once
  have hblocks : ∀ {found : Header}, Full file.bytes found →
      readBlocks found found.count.toNat found.count.toNat (file.bytes.drop headerLen) .new [] =
        .ok (Accumulator.new.update (body file.bytes found.count.toNat),
          records file.bytes found) := by
    intro found hfull
    rw [readBlocks_eq_ok le_rfl hfull.length_body, List.nil_append]
    rfl
  constructor
  · rintro ⟨⟨found, rest⟩, hfirst, h⟩
    obtain ⟨hread, rfl⟩ := readFirst_eq_ok.mp hfirst
    simp only at h
    rw [Except.require_bind_eq_ok, expectedLen_le_iff] at h
    obtain ⟨hlength, h⟩ := h
    have hfull : Full file.bytes found := ⟨hread, hlength⟩
    rw [hblocks hfull] at h
    obtain ⟨p, hp, h⟩ := Except.bind_eq_ok.mp h
    obtain rfl := Except.ok.inj hp
    simp only [Except.require_bind_eq_ok, Except.pure_eq_ok] at h
    obtain ⟨hcrc, heq⟩ := h
    obtain ⟨rfl, rfl⟩ := Prod.mk.inj heq
    exact ⟨hfull, hcrc, rfl⟩
  · rintro ⟨hfull, hcrc, rfl⟩
    refine ⟨(header, file.bytes.drop headerLen), readFirst_eq_ok.mpr ⟨hfull.head, rfl⟩, ?_⟩
    simp only
    rw [Except.require_bind_eq_ok, expectedLen_le_iff, hblocks hfull]
    refine ⟨hfull.length, Except.bind_eq_ok.mpr ⟨_, rfl, ?_⟩⟩
    simp only [Except.require_bind_eq_ok, Except.pure_eq_ok]
    exact ⟨hcrc, trivial⟩

end Full

/-! ## The reader of one tick after another -/

/-- Ticks in order behind an exchange time. -/
def OrderedFrom : Option Nanos → List Tick → Prop
  | _, [] => True
  | previous, t :: ticks => (∀ prev ∈ previous, prev ≤ t.stamp.exch) ∧
    OrderedFrom (some t.stamp.exch) ticks

theorem orderedFrom_some_iff (t : Tick) (ticks : List Tick) :
    OrderedFrom (some t.stamp.exch) ticks ↔ Ordered (t :: ticks) := by
  unfold Ordered
  induction ticks generalizing t with
  | nil => simp [OrderedFrom]
  | cons u ticks ih =>
    rw [OrderedFrom, ih, List.isChain_cons_cons]
    simp

theorem orderedFrom_none_iff (ticks : List Tick) : OrderedFrom none ticks ↔ Ordered ticks := by
  cases ticks with
  | nil => simp [OrderedFrom, Ordered]
  | cons t ticks =>
    rw [OrderedFrom, orderedFrom_some_iff]
    simp

namespace TickReader

variable (r : TickReader)

/-- What is left to yield: the pending ticks, and the records behind them. -/
def left : List Tick := r.pending ++ readTicks r.remaining r.file

/-- What must hold of what is left for it to be yielded whole. -/
structure Sound : Prop where
  length : r.remaining * recordLen ≤ r.file.length
  checksum : r.remaining ≠ 0 →
    (r.crc.update (r.file.take (r.remaining * recordLen))).finish = r.header.checksum
  ordered : OrderedFrom r.previous r.left

variable {r}

/-- What the reader collects is sound, and all that is left. -/
def Collects (r : TickReader) (fuel : Nat) : Prop :=
  ∃ x, r.collectWithin fuel = some x ∧ ∀ ticks, x = .ok ticks ↔ r.Sound ∧ ticks = r.left

theorem next_of_pending (hfailed : r.failed = false) (hpending : r.pending ≠ []) :
    r.next = r.yield_ := by
  unfold next
  rw [hfailed, if_neg Bool.false_ne_true, if_neg hpending]

/-- An error, where what is left is not sound. -/
theorem collects_error {fuel : Nat} {e : Error} (h : r.next.1 = some (.error e))
    (hunsound : ¬ r.Sound) : Collects r (fuel + 1) := by
  refine ⟨.error e, ?_, fun ticks => ⟨fun h => (nomatch h), fun h => absurd h.1 hunsound⟩⟩
  rw [collectWithin]
  rcases hnext : r.next with ⟨o, r'⟩
  rw [hnext] at h
  simp only at h
  rw [h]

/-- One tick, if it does not go back. -/
theorem collects_yield {fuel : Nat} {tick : Tick} {pending : List Tick}
    (hfailed : r.failed = false) (hpending : r.pending = tick :: pending)
    (ih : Collects { r with
      pending := pending, previous := some tick.stamp.exch, index := r.index + 1 } fuel) :
    Collects r (fuel + 1) := by
  have hnext := next_of_pending hfailed (by rw [hpending]; exact List.cons_ne_nil _ _)
  have hleft : r.left = tick :: (pending ++ readTicks r.remaining r.file) := by
    rw [left, hpending, List.cons_append]
  by_cases hback : ∃ prev ∈ r.previous, tick.stamp.exch < prev
  · -- it goes back: refused, and such a file is not sound
    obtain ⟨prev, hprev, hlt⟩ := hback
    have hyield : r.yield_.1 = some (.error (.outOfOrder r.index prev tick.stamp.exch)) := by
      unfold yield_
      rw [Option.mem_def] at hprev
      simp only [hpending, hprev, if_pos hlt]
    refine collects_error (hnext ▸ hyield) fun h => ?_
    have hordered := h.ordered
    rw [hleft, OrderedFrom] at hordered
    exact absurd hlt (Int64.not_lt.mpr (hordered.1 prev hprev))
  · have hfirst : ∀ prev ∈ r.previous, prev ≤ tick.stamp.exch := fun prev hprev =>
      Int64.not_lt.mp fun hlt => hback ⟨prev, hprev, hlt⟩
    have hyield : r.yield_ = (some (.ok tick), { r with
        pending := pending, previous := some tick.stamp.exch, index := r.index + 1 }) := by
      unfold yield_
      simp only [hpending]
      cases hprev : r.previous with
      | none => rfl
      | some prev =>
        simp only
        rw [if_neg (Int64.not_lt.mpr (hfirst prev hprev))]
    -- it is handed out, and the rest is collected behind it
    obtain ⟨x, hx, hspec⟩ := ih
    refine ⟨x.map (tick :: ·), ?_, fun ticks => ?_⟩
    · rw [collectWithin, hnext, hyield]
      simp only [hx, Option.map_some]
    · have hsound : r.Sound ↔ Sound { r with
          pending := pending, previous := some tick.stamp.exch, index := r.index + 1 } := by
        constructor
        · intro h
          have hordered := h.ordered
          rw [hleft] at hordered
          exact ⟨h.length, h.checksum, hordered.2⟩
        · intro h
          refine ⟨h.length, h.checksum, ?_⟩
          rw [hleft]
          exact ⟨hfirst, h.ordered⟩
      rw [hsound, hleft]
      cases x with
      | error e =>
        refine ⟨fun h => (nomatch h), fun h => ?_⟩
        cases (hspec _).mpr ⟨h.1, rfl⟩
      | ok rest =>
        obtain ⟨hs, hrest⟩ := (hspec rest).mp rfl
        constructor
        · intro h
          refine ⟨hs, ?_⟩
          rw [← Except.ok.inj h, hrest]
          rfl
        · rintro ⟨-, rfl⟩
          rw [hrest]
          rfl

/-- The reader once a block of records is read. -/
def blockRead (r : TickReader) (m : Nat) : TickReader :=
  { r with
    file := r.file.drop (m * recordLen)
    crc := r.crc.update (r.file.take (m * recordLen))
    pending := readTicks m r.file
    remaining := r.remaining - m }

/-- The block that is read holds the next records. -/
theorem fill_eq {m : Nat} (hm : m = min r.remaining block) (hzero : r.remaining ≠ 0)
    (hblock : m * recordLen ≤ r.file.length) :
    r.fill =
      if r.remaining - m = 0 && (r.blockRead m).crc.finish ≠ r.header.checksum then
        some (.error (.checksumMismatch r.header.checksum (r.blockRead m).crc.finish))
      else some (.ok (r.blockRead m)) := by
  have hread : readExact (m * recordLen) r.file =
      some (r.file.take (m * recordLen), r.file.drop (m * recordLen)) :=
    readExact_eq_some.mpr ⟨hblock, rfl, rfl⟩
  have hcount : m * recordLen / recordLen = m := Nat.mul_div_cancel _ (by decide)
  unfold fill
  rw [if_neg hzero]
  simp only [← hm, hread, hcount, ticksOf_take hblock]
  rfl

section Block

variable {m : Nat} (hle : m ≤ r.remaining) (hpending : r.pending = [])
include hle

/-- A block read leaves the checksum of all records as it is. -/
theorem crc_blockRead :
    (r.blockRead m).crc.update ((r.blockRead m).file.take ((r.remaining - m) * recordLen)) =
      r.crc.update (r.file.take (r.remaining * recordLen)) := by
  have hsplit : r.remaining = m + (r.remaining - m) := by omega
  show (r.crc.update _).update ((r.file.drop _).take _) = _
  rw [Accumulator.update_append, ← List.take_add, ← Nat.add_mul, ← hsplit]

include hpending

/-- A block read leaves what is left to yield as it is. -/
theorem left_blockRead : (r.blockRead m).left = r.left := by
  have hsplit : r.remaining = m + (r.remaining - m) := by omega
  show readTicks m r.file ++ readTicks (r.remaining - m) (r.file.drop (m * recordLen)) =
    r.pending ++ readTicks r.remaining r.file
  rw [hpending, List.nil_append, ← readTicks_add, ← hsplit]

/-- A block read leaves what is left as sound as it was, once the checksum is compared. -/
theorem sound_blockRead_iff (hblock : m * recordLen ≤ r.file.length) (hzero : r.remaining ≠ 0)
    (hchecked : r.remaining - m = 0 → (r.blockRead m).crc.finish = r.header.checksum) :
    r.Sound ↔ (r.blockRead m).Sound := by
  have hlength : (r.remaining - m) * recordLen ≤ (r.blockRead m).file.length ↔
      r.remaining * recordLen ≤ r.file.length := by
    show _ ≤ (r.file.drop (m * recordLen)).length ↔ _
    rw [List.length_drop, Nat.sub_mul]
    unfold recordLen at *
    omega
  have hleft := left_blockRead hle hpending
  constructor
  · intro h
    refine ⟨hlength.mpr h.length, fun _ => ?_, ?_⟩
    · exact (congrArg Accumulator.finish (crc_blockRead hle)).trans (h.checksum hzero)
    · rw [hleft]
      exact h.ordered
  · intro h
    refine ⟨hlength.mp h.length, fun _ => ?_, ?_⟩
    · rw [← crc_blockRead hle]
      by_cases hlast : r.remaining - m = 0
      · rw [hlast, Nat.zero_mul, List.take_zero]
        exact hchecked hlast
      · exact h.checksum hlast
    · rw [← hleft]
      exact h.ordered

end Block

/-- A reader without pending ticks goes on as it does with the block read. -/
theorem next_of_fill (hfailed : r.failed = false) (hpending : r.pending = []) :
    r.next = match r.fill with
      | none => (none, r)
      | some (.ok r) => r.yield_
      | some (.error e) => (some (.error e), { r with failed := true }) := by
  unfold next
  rw [hfailed]
  refine (if_neg Bool.false_ne_true).trans ((if_pos hpending).trans ?_)
  cases r.fill with
  | none => rfl
  | some x => cases x <;> rfl

/-- **The reader yields what is left**, if it is sound. -/
theorem collects {fuel : Nat} (hfailed : r.failed = false)
    (hfuel : r.pending.length + r.remaining < fuel) : r.Collects fuel := by
  induction fuel generalizing r with
  | zero => omega
  | succ fuel ih =>
    cases hpending : r.pending with
    | cons tick pending =>
      refine collects_yield hfailed hpending (ih hfailed ?_)
      rw [hpending, List.length_cons] at hfuel
      show pending.length + r.remaining < fuel
      omega
    | nil =>
      have hnext := next_of_fill hfailed hpending
      by_cases hzero : r.remaining = 0
      · have hfill : r.fill = none := if_pos hzero
        have hleft : r.left = [] := by rw [left, hpending, hzero]; rfl
        refine ⟨.ok [], ?_, fun ticks => ?_⟩
        · rw [collectWithin, hnext, hfill]
        · rw [hleft]
          refine ⟨fun h => ⟨⟨?_, fun h => absurd hzero h, ?_⟩, (Except.ok.inj h).symm⟩,
            fun h => by rw [h.2]⟩
          · rw [hzero, Nat.zero_mul]
            exact Nat.zero_le _
          · rw [hleft]
            trivial
      · obtain ⟨m, hm⟩ : ∃ m, m = min r.remaining block := ⟨_, rfl⟩
        have hmpos : 0 < m := by
          unfold block at hm
          omega
        by_cases hblock : m * recordLen ≤ r.file.length
        · have hfill := fill_eq hm hzero hblock
          by_cases hcheck : (decide (r.remaining - m = 0) &&
              decide ((r.blockRead m).crc.finish ≠ r.header.checksum)) = true
          · rw [if_pos hcheck] at hfill
            obtain ⟨hlast, hbad⟩ := Bool.and_eq_true_iff.mp hcheck
            refine collects_error (by rw [hnext, hfill]) fun h => ?_
            have hsum := h.checksum hzero
            rw [← crc_blockRead (by omega : m ≤ r.remaining), of_decide_eq_true hlast,
              Nat.zero_mul, List.take_zero] at hsum
            exact of_decide_eq_true hbad hsum
          · rw [if_neg hcheck] at hfill
            have hchecked : r.remaining - m = 0 →
                (r.blockRead m).crc.finish = r.header.checksum := by
              intro hlast
              by_contra hbad
              exact hcheck (Bool.and_eq_true_iff.mpr ⟨decide_eq_true hlast, decide_eq_true hbad⟩)
            -- what the block holds is pending, and yielded as by the case above
            obtain ⟨n, hn⟩ : ∃ n, m = n + 1 := ⟨m - 1, by omega⟩
            have hfirst : (r.blockRead m).pending =
                tickOf (r.file.take recordLen) :: readTicks n (r.file.drop recordLen) := by
              show readTicks m r.file = _
              rw [hn, readTicks]
            have hcollects : (r.blockRead m).Collects (fuel + 1) := by
              refine collects_yield hfailed hfirst (ih hfailed ?_)
              show (readTicks n _).length + (r.remaining - m) < fuel
              rw [length_readTicks]
              rw [hpending, List.length_nil] at hfuel
              omega
            obtain ⟨x, hx, hspec⟩ := hcollects
            have hne : (r.blockRead m).pending ≠ [] := by
              rw [hfirst]
              exact List.cons_ne_nil _ _
            have hsame : r.next = (r.blockRead m).next := by
              rw [hnext, hfill]
              exact (next_of_pending (r := r.blockRead m) hfailed hne).symm
            refine ⟨x, ?_, fun ticks => ?_⟩
            · rw [collectWithin] at hx ⊢
              rw [hsame]
              exact hx
            · rw [hspec, sound_blockRead_iff (by omega) hpending hblock hzero hchecked,
                left_blockRead (by omega) hpending]
        · have hfill : ∃ e, r.fill = some (.error e) := by
            have hread : readExact (min r.remaining block * recordLen) r.file = none :=
              if_neg (hm ▸ hblock)
            unfold fill
            rw [if_neg hzero]
            simp only [hread]
            exact ⟨_, rfl⟩
          obtain ⟨e, hfill⟩ := hfill
          refine collects_error (by rw [hnext, hfill]) fun h => hblock ?_
          exact le_trans (Nat.mul_le_mul_right _ (by omega)) h.length

end TickReader

/-! ## Agreement -/

section Agreement

variable {file : TickFile}

/-- Collecting takes a full file, in order, whose checksum is right if it has a record. -/
theorem collect_eq_ok {ticks : List Tick} :
    collect file.bytes = some (.ok ticks) ↔
      ∃ header, Full file.bytes header ∧
        (header.count ≠ 0 → crc32 (body file.bytes header.count.toNat) = header.checksum) ∧
        ticks = records file.bytes header ∧ Ordered ticks := by
  cases hread : readHeader file.bytes with
  | error e =>
    have hfirst : ∀ p, readFirst file.bytes ≠ .ok p := fun p hp =>
      nomatch hread.symm.trans (readFirst_eq_ok.mp hp).1
    have hnone : ∀ ticks, collect file.bytes ≠ some (.ok ticks) := by
      intro ticks h
      unfold collect TickReader.open_ at h
      cases hf : readFirst file.bytes with
      | error e => rw [hf] at h; exact nomatch h
      | ok p => exact hfirst p hf
    constructor
    · exact fun h => absurd h (hnone ticks)
    · rintro ⟨header, hfull, -⟩
      cases hread.symm.trans hfull.head
  | ok header =>
    have hopen : TickReader.open_ file.bytes =
        .ok ⟨file.bytes.drop headerLen, header, .new, [], header.count.toNat, none, 0, false⟩ := by
      unfold TickReader.open_
      rw [readFirst_eq_ok.mpr ⟨hread, rfl⟩]
      rfl
    obtain ⟨x, hx, hspec⟩ : TickReader.Collects ⟨file.bytes.drop headerLen, header, .new, [],
        header.count.toNat, none, 0, false⟩ (header.count.toNat + 1) :=
      TickReader.collects rfl (by simp)
    have hcollect : collect file.bytes = some x := by
      unfold collect
      rw [hopen]
      exact hx
    have hnonzero : header.count.toNat ≠ 0 ↔ header.count ≠ 0 := by
      rw [Ne, Ne, ← UInt64.toNat_inj, UInt64.toNat_zero]
    rw [hcollect, Option.some.injEq, hspec]
    constructor
    · rintro ⟨hsound, rfl⟩
      have hlength := length_of_readHeader hread
      have hfits := hsound.length
      have hordered := hsound.ordered
      simp only [List.length_drop] at hfits
      refine ⟨header, ⟨hread, by omega⟩, fun hcount => hsound.checksum (hnonzero.mpr hcount),
        rfl, ?_⟩
      exact (orderedFrom_none_iff _).mp hordered
    · rintro ⟨found, hfull, hcrc, rfl, hordered⟩
      obtain rfl := Except.ok.inj (hread.symm.trans hfull.head)
      exact ⟨⟨hfull.length_body, fun hcount => hcrc (hnonzero.mp hcount),
        (orderedFrom_none_iff _).mpr hordered⟩, rfl⟩

/-- A stream is made of ticks in order. -/
theorem new_eq_ok {instrument : UInt64} {ticks : List Tick} {stream : TickStream} :
    TickStream.new instrument ticks = .ok stream ↔
      stream.instrument = instrument ∧ stream.ticks = ticks := by
  unfold TickStream.new
  split
  · rename_i hback
    refine ⟨fun h => (nomatch h), fun h => ?_⟩
    have hordered := stream.ordered
    rw [h.2, ← firstBackward_eq_none_iff 0, hback] at hordered
    cases hordered
  · constructor
    · intro h
      rw [← Except.ok.inj h]
      exact ⟨rfl, rfl⟩
    · rintro ⟨rfl, rfl⟩
      rfl

/-- **Whole-file reading is decoding.** -/
theorem fromFile_eq_ok (stream : TickStream) :
    TickStream.fromFile file.bytes = .ok stream ↔ TickStream.fromBytes file.bytes = .ok stream := by
  unfold TickStream.fromFile TickStream.fromBytes
  rw [Except.bind_eq_ok, Except.bind_eq_ok]
  exact exists_congr fun p => and_congr_left fun _ => readFile_eq_ok

/-- What decoding into a stream takes. -/
theorem fromBytes_ticks {ticks : List Tick} :
    (∃ stream, TickStream.fromBytes file.bytes = .ok stream ∧ stream.ticks = ticks) ↔
      ∃ header, Full file.bytes header ∧
        crc32 (body file.bytes header.count.toNat) = header.checksum ∧
        ticks = records file.bytes header ∧ Ordered ticks := by
  unfold TickStream.fromBytes
  constructor
  · rintro ⟨stream, hstream, rfl⟩
    obtain ⟨⟨header, ticks⟩, hdecode, hnew⟩ := Except.bind_eq_ok.mp hstream
    obtain ⟨hfull, hcrc, hticks⟩ := decode_eq_ok.mp hdecode
    have hstream := (new_eq_ok.mp hnew).2
    exact ⟨header, hfull, hcrc, hstream.trans hticks, stream.ordered⟩
  · rintro ⟨header, hfull, hcrc, rfl, hordered⟩
    refine ⟨⟨records file.bytes header, header.instrument, hordered⟩, ?_, rfl⟩
    exact Except.bind_eq_ok.mpr ⟨(header, records file.bytes header),
      decode_eq_ok.mpr ⟨hfull, hcrc, rfl⟩, new_eq_ok.mpr ⟨rfl, rfl⟩⟩

/-- The three readers take the same files, with the same ticks. -/
structure Agree (file : TickFile) : Prop where
  whole : ∀ stream, TickStream.fromFile file.bytes = .ok stream ↔
    TickStream.fromBytes file.bytes = .ok stream
  streamed : ∀ ticks, collect file.bytes = some (.ok ticks) ↔
    ∃ stream, TickStream.fromBytes file.bytes = .ok stream ∧ stream.ticks = ticks

/-- The readers agree on a file unless it has no records and a checksum all the same. -/
theorem agree_iff (file : TickFile) :
    Agree file ↔ ∀ header, readHeader file.bytes = .ok header → header.count = 0 →
      header.checksum = 0 := by
  have hempty : ∀ header : Header, header.count = 0 →
      crc32 (body file.bytes header.count.toNat) = 0 := by
    intro header hcount
    rw [hcount, body, UInt64.toNat_zero, Nat.zero_mul, List.take_zero]
    rfl
  constructor
  · intro h header hread hcount
    have hfull : Full file.bytes header := by
      refine ⟨hread, ?_⟩
      rw [hcount, UInt64.toNat_zero, Nat.zero_mul]
      exact length_of_readHeader hread
    have hrecords : records file.bytes header = [] := by
      rw [records, hcount]
      rfl
    have hcollected : collect file.bytes = some (.ok []) :=
      collect_eq_ok.mpr ⟨header, hfull, fun hne => absurd hcount hne, hrecords.symm, .nil⟩
    obtain ⟨found, hfound, hcrc, -⟩ := fromBytes_ticks.mp ((h.streamed []).mp hcollected)
    obtain rfl := Except.ok.inj (hread.symm.trans hfound.head)
    rw [← hcrc, hempty _ hcount]
  · intro h
    refine ⟨fromFile_eq_ok, fun ticks => ?_⟩
    rw [collect_eq_ok, fromBytes_ticks]
    refine exists_congr fun header => and_congr_right fun hfull => and_congr_left fun _ => ?_
    constructor
    · intro hcrc
      by_cases hcount : header.count = 0
      · rw [hempty _ hcount, h header hfull.head hcount]
      · exact hcrc hcount
    · exact fun hcrc _ => hcrc

end Agreement

/-! ## What is written -/

theorem length_encode (instrument : UInt64) (ticks : List Tick) :
    (encode instrument ticks).length = headerLen + ticks.length * recordLen := by
  rw [← length_flatMap_recordBytes]
  simp [encode, headerLen]
  omega

theorem readHeader_encode (instrument : UInt64) (ticks : List Tick) :
    readHeader (encode instrument ticks) =
      .ok ⟨UInt64.ofNat ticks.length, instrument, crc32 (ticks.flatMap recordBytes)⟩ := by
  have hlength : ¬ (encode instrument ticks).length < headerLen := by
    rw [length_encode]
    omega
  unfold readHeader
  rw [if_neg hlength]
  simp [encode, u32At, u16At, u64At]

theorem drop_encode (instrument : UInt64) (ticks : List Tick) :
    (encode instrument ticks).drop headerLen = ticks.flatMap recordBytes := by
  simp [encode, headerLen, List.drop_append, List.drop_of_length_le]

section Written

variable {file encoded : TickFile} {instrument : UInt64} {ticks : List Tick}

theorem toNat_count (h : encoded.bytes = encode instrument ticks) :
    (UInt64.ofNat ticks.length).toNat = ticks.length := by
  have hlt := encoded.length_lt
  rw [h, length_encode] at hlt
  apply UInt64.toNat_ofNat_of_lt'
  unfold usizeMax headerLen recordLen at hlt
  show _ < 2 ^ 64
  omega

/-- **The ticks written are the ticks decoded.** -/
theorem decode_encode (h : encoded.bytes = encode instrument ticks) :
    decode encoded.bytes =
      .ok (⟨UInt64.ofNat ticks.length, instrument, crc32 (ticks.flatMap recordBytes)⟩, ticks) := by
  have hcount := toNat_count h
  have hread := readTicks_recordBytes ticks []
  rw [List.append_nil] at hread
  refine decode_eq_ok.mpr ⟨⟨h ▸ readHeader_encode instrument ticks, ?_⟩, ?_, ?_⟩
  · rw [hcount, h, length_encode]
  · rw [hcount, h, body, drop_encode, ← length_flatMap_recordBytes, List.take_length]
  · rw [records, hcount, h, drop_encode, hread]

/-- No reader takes the file. -/
structure Refused (file : TickFile) : Prop where
  decoded : ∀ stream, TickStream.fromBytes file.bytes ≠ .ok stream
  whole : ∀ stream, TickStream.fromFile file.bytes ≠ .ok stream
  streamed : ∀ ticks, collect file.bytes ≠ some (.ok ticks)

theorem refused_of_not_full (h : ∀ header, ¬ Full file.bytes header) : Refused file := by
  have hdecoded : ∀ stream, TickStream.fromBytes file.bytes ≠ .ok stream := by
    intro stream hstream
    obtain ⟨header, hfull, -⟩ := fromBytes_ticks.mp ⟨stream, hstream, rfl⟩
    exact h header hfull
  refine ⟨hdecoded, fun stream hstream => hdecoded stream ((fromFile_eq_ok stream).mp hstream),
    fun ticks hticks => ?_⟩
  obtain ⟨header, hfull, -⟩ := collect_eq_ok.mp hticks
  exact h header hfull

/-- **A file cut short is refused**, wherever it is cut. -/
theorem refused_of_cut {rest : List UInt8} (h : encoded.bytes = encode instrument ticks)
    (hcut : file.bytes ++ rest = encoded.bytes) (hrest : rest ≠ []) : Refused file := by
  refine refused_of_not_full fun header hfull => ?_
  have hpos := List.length_pos_of_ne_nil hrest
  have htotal := congrArg List.length hcut
  rw [h, length_encode, List.length_append] at htotal
  -- the header of the part is the header of the whole
  have hhead : readHeader file.bytes = readHeader encoded.bytes := by
    have hlength := length_of_readHeader hfull.head
    have hlonger : headerLen ≤ (file.bytes ++ rest).length := by
      rw [List.length_append]
      omega
    rw [← readHeader_take hlength, ← hcut, ← readHeader_take hlonger,
      List.take_append_of_le_length hlength]
  have hheader := hhead.symm.trans hfull.head
  rw [h, readHeader_encode] at hheader
  have hfits := hfull.length
  rw [← Except.ok.inj hheader, toNat_count h] at hfits
  omega

/-- **The readers agree on a file if and only if** a header without records says that their
checksum is zero; what is written is read back by decoding, and a part of it by no reader. -/
theorem file_readers_agree_iff (file encoded : TickFile) (instrument : UInt64) (ticks : List Tick)
    (hencoded : encoded.bytes = encode instrument ticks) :
    (Agree file ↔ ∀ header, readHeader file.bytes = .ok header → header.count = 0 →
      header.checksum = 0) ∧
      (∃ header, decode encoded.bytes = .ok (header, ticks)) ∧
      ∀ rest, file.bytes ++ rest = encoded.bytes → rest ≠ [] → Refused file :=
  ⟨agree_iff file, ⟨_, decode_encode hencoded⟩, fun _ hcut hrest =>
    refused_of_cut hencoded hcut hrest⟩

/-- A file of one tick. -/
def oneTick : TickFile where
  bytes := encode 7 [⟨⟨1, 2⟩, 100, 101, 99, 100, 101, 5⟩]
  length_lt := by rw [length_encode]; decide

/-- The same file without its last byte. -/
def oneTickCut : TickFile where
  bytes := oneTick.bytes.take 95
  length_lt := by rw [List.length_take, oneTick, length_encode]; decide

theorem file_readers_agree_iff_one : Agree oneTick ∧ Refused oneTickCut := by
  have hrest : oneTick.bytes.drop 95 ≠ [] := by
    intro hnil
    have hlength := congrArg List.length hnil
    rw [List.length_drop, oneTick, length_encode] at hlength
    exact absurd hlength (by decide)
  refine ⟨(file_readers_agree_iff oneTick oneTick 7 [⟨⟨1, 2⟩, 100, 101, 99, 100, 101, 5⟩]
    rfl).1.mpr ?_,
    (file_readers_agree_iff oneTickCut oneTick 7 [⟨⟨1, 2⟩, 100, 101, 99, 100, 101, 5⟩] rfl).2.2
      (oneTick.bytes.drop 95) (List.take_append_drop 95 _) hrest⟩
  intro header hread hcount
  rw [oneTick, readHeader_encode] at hread
  rw [← Except.ok.inj hread] at hcount
  exact absurd hcount (by decide)

/-- A header that promises no records, and a checksum that is not theirs. -/
def emptyFile : TickFile where
  bytes := u32Bytes magic ++ (u16Bytes version ++ (u16Bytes 0 ++ (u64Bytes 0 ++ (u64Bytes 7 ++
    (u32Bytes 1 ++ u32Bytes 0)))))
  length_lt := by simp [usizeMax]

/-- **The readers disagree**: one yields no tick and no error, the others refuse the file. -/
theorem file_readers_disagree :
    collect emptyFile.bytes = some (.ok []) ∧
      TickStream.fromFile emptyFile.bytes = .error (.checksumMismatch 1 0) ∧
      decode emptyFile.bytes = .error (.checksumMismatch 1 0) := by
  refine ⟨by decide +kernel, ?_, by decide +kernel⟩
  have hread : readFile emptyFile.bytes = .error (.checksumMismatch 1 0) := by decide +kernel
  unfold TickStream.fromFile
  rw [hread]
  rfl

end Written

end Ticks
