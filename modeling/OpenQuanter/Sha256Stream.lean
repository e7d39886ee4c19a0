/-
# Streamed SHA-256 (`oq-hash/src/sha256.rs`)

The hasher that takes its message in pieces, with a buffer for what does not fill a block.

* One update takes what was kept and the data block by block, and never leaves the buffer
  (`Hasher.update_spec`).
* The loop of padding zeros ends (`Hasher.padZeros_spec`), and the padding ends a block.
* Every digest is that of the standard, however the message was cut (`Hasher.Holds.finalize`).
-/
import OpenQuanter.SecureHash
import OpenQuanter.Sha256

open BlockStream

namespace Sha256

/-! ## One block -/

/-- The state as the standard's words. -/
def State.working (s : State) : SecureHash.Working 32 :=
  ⟨s.a.toBitVec, s.b.toBitVec, s.c.toBitVec, s.d.toBitVec, s.e.toBitVec, s.f.toBitVec,
    s.g.toBitVec, s.h.toBitVec⟩

theorem fromBe_eq (bytes : List UInt8) : fromBe bytes = UInt32.ofNat (ofLe bytes.reverse) := by
  induction bytes using List.reverseRecOn with
  | nil => rfl
  | append_singleton bytes b ih =>
    rw [fromBe, List.foldl_concat, ← fromBe, ih, List.reverse_append, List.reverse_singleton,
      List.singleton_append, ofLe]
    apply UInt32.toNat_inj.mp
    simp
    omega

theorem working_round (s : State) (kw : UInt32 × UInt32) :
    (round s kw).working = SecureHash.sha256.round s.working kw.1.toBitVec kw.2.toBitVec := by
  rfl

theorem working_add (s t : State) : (s.add t).working = s.working.add t.working := rfl

/-- The table holds the constants of the standard. -/
theorem map_k : k.map UInt32.toBitVec = (List.range 64).map SecureHash.sha256.k :=
  SecureHash.rootWord_table (by decide) (by decide +kernel) (by decide +kernel)

/-- The hash starts where the standard says. -/
theorem working_new : State.new.working = SecureHash.sha256.init :=
  SecureHash.Working.words_injective
    (SecureHash.rootWord_table (by decide) (by decide +kernel) (by decide +kernel))

/-- The words of a block and those made of them. -/
theorem map_schedule (block : List UInt8) :
    (schedule block).map UInt32.toBitVec =
      (List.range 64).map (SecureHash.sha256.schedule fun t =>
        BitVec.ofNat 32 (ofLe ((block.drop (4 * t)).take 4).reverse)) := by
  refine SecureHash.Variant.map_schedule SecureHash.sha256 _ UInt32.toBitVec _ nextWord 0
    (fun t _ => ?_) (fun ws => ?_) 48
  · rw [fromBe_eq]
    rfl
  · have hswap : ∀ x y z u : BitVec 32, x + y + z + u = u + z + y + x := by
      intro x y z u
      ac_rfl
    exact hswap _ _ _ _

/-- **A block** is mixed into the words as the standard says. -/
theorem working_compress (s : State) (block : List UInt8) :
    (compress s block).working = SecureHash.sha256.hashBytes s.working block := by
  have hrounds : ((k.zip (schedule block)).foldl round s).working =
      ((k.map UInt32.toBitVec).zip ((schedule block).map UInt32.toBitVec)).foldl
        (fun t kw => SecureHash.sha256.round t kw.1 kw.2) s.working := by
    rw [List.zip_map, List.foldl_map]
    exact (List.foldl_hom State.working fun t kw => (working_round t kw).symm).symm
  have hblock : SecureHash.sha256.hashBytes s.working block = s.working.add
      (((k.map UInt32.toBitVec).zip ((schedule block).map UInt32.toBitVec)).foldl
        (fun t kw => SecureHash.sha256.round t kw.1 kw.2) s.working) :=
    SecureHash.Variant.hashBytes_eq (n := 4) SecureHash.sha256 s.working map_k
      (map_schedule block)
  rw [compress, working_add, hrounds, hblock]

/-- The digest of the standard, block by block. -/
theorem hash_eq_fold (message : List UInt8) : SecureHash.sha256.hash message =
    ((BlockStream.blocks 64 (message ++ SecureHash.padBytes 4 message.length)).foldl compress
      .new).words.flatMap fun word => SecureHash.beBytes 4 word.toNat := by
  have hfold : ∀ bs : List (List UInt8), (bs.foldl compress .new).working =
      bs.foldl SecureHash.sha256.hashBytes SecureHash.sha256.init := by
    intro bs
    rw [← working_new]
    exact (List.foldl_hom State.working fun s b => (working_compress s b).symm).symm
  have hwords : ∀ s : State, s.words.flatMap (fun word => SecureHash.beBytes 4 word.toNat) =
      s.working.words.flatMap fun x => SecureHash.beBytes 4 x.toNat := fun _ => rfl
  rw [hwords, hfold]
  exact SecureHash.Variant.hash_eq (n := 4) (by decide) SecureHash.sha256 message

/-! ## The hasher -/

/-- Streaming SHA-256 state. -/
structure Hasher where
  state : State
  buffer : Vector UInt8 64
  buffered : Nat
  lengthBits : UInt64
  deriving DecidableEq, Repr

namespace Hasher

/-- A fresh hasher. -/
def new : Hasher where
  state := .new
  buffer := Vector.replicate 64 0
  buffered := 0
  lengthBits := 0

/-- The whole blocks of the data, and what is left of it into the buffer. -/
def takeBlocks (h : Hasher) (data : List UInt8) : Option Hasher := do
  let state := (BlockStream.blocks 64 data).foldl compress h.state
  let left := rest 64 data
  let buffer ← copyInto h.buffer 0 left
  some { h with state := state, buffer := buffer, buffered := left.length }

/-- Feed bytes into the hash.

There is no result where the code panics: when the bits of the data are more than 64 bits count,
at a range that leaves the buffer or the data, and at the assertion that the data is used up. -/
def update (h : Hasher) (data : List UInt8) : Option Hasher := do
  if 2 ^ 64 ≤ data.length * 8 then none
  else
    let h := { h with lengthBits := h.lengthBits + UInt64.ofNat (data.length * 8) }
    if 0 < h.buffered then
      if 64 < h.buffered then none
      else
        let take := min (64 - h.buffered) data.length
        let buffer ← copyInto h.buffer h.buffered (data.take take)
        let h := { h with buffer := buffer, buffered := h.buffered + take }
        let data := data.drop take
        if h.buffered = 64 then
          takeBlocks { h with state := compress h.state h.buffer.toList, buffered := 0 } data
        else if data = [] then some h
        else none
    else takeBlocks h data

/-- Bytes of the padding, which are not counted. -/
def updateNoLength : Hasher → List UInt8 → Option Hasher
  | h, [] => some h
  | h, byte :: data => do
    let buffer ← copyInto h.buffer h.buffered [byte]
    let h := { h with buffer := buffer, buffered := h.buffered + 1 }
    if h.buffered = 64 then
      updateNoLength { h with state := compress h.state h.buffer.toList, buffered := 0 } data
    else updateNoLength h data

/-- The loop of zeros, of at most `fuel` turns. -/
def padZeros : Nat → Hasher → Option Hasher
  | 0, _ => none
  | fuel + 1, h =>
    if h.buffered = 56 then some h
    else do
      let h ← updateNoLength h [0x00]
      padZeros fuel h

/-- The padding: `0x80`, then zeros, then the length as 64-bit big endian. -/
def pad (fuel : Nat) (h : Hasher) : Option Hasher := do
  let lengthBits := h.lengthBits
  let h ← updateNoLength h [0x80]
  let h ← padZeros fuel h
  updateNoLength h (SecureHash.beBytes 8 lengthBits.toNat)

/-- Finish and return the digest of 32 bytes. -/
def finalize (h : Hasher) : Option (List UInt8) := do
  let h ← pad 64 h
  some (h.state.words.flatMap fun word => SecureHash.beBytes 4 word.toNat)

/-! ## What a hasher holds -/

/-- The bytes that wait for their block. -/
def live (h : Hasher) : List UInt8 := h.buffer.toList.take h.buffered

theorem length_live {h : Hasher} (hin : h.buffered < 64) : h.live.length = h.buffered := by
  rw [live, List.length_take, Vector.length_toList]
  omega

/-- A hasher before and after some data. -/
structure Took (h : Hasher) (data : List UInt8) (h' : Hasher) : Prop where
  inside : h'.buffered < 64
  fed : Fed 64 compress h.state h.live data h'.state h'.live

theorem Took.trans {a b c : Hasher} {data more : List UInt8} (h : Took a data b)
    (h' : Took b more c) : Took a (data ++ more) c :=
  ⟨h'.inside, h.fed.trans (by decide) h'.fed⟩

theorem Took.buffered {h h' : Hasher} {data : List UInt8} (hin : h.buffered < 64)
    (htook : Took h data h') : h'.buffered = (h.buffered + data.length) % 64 := by
  rw [← length_live htook.inside, htook.fed.length_kept, length_live hin]

theorem takeBlocks_spec {h : Hasher} (data : List UInt8) (hempty : h.buffered = 0) :
    ∃ h', takeBlocks h data = some h' ∧ Took h data h' ∧ h'.lengthBits = h.lengthBits := by
  have hlt : (rest 64 data).length < 64 := length_rest_lt (by decide) data
  have hroom : 0 + (rest 64 data).length ≤ 64 := by omega
  obtain ⟨buffer, hcopy, hlist⟩ := copyInto_of_le h.buffer hroom
  have hbuffer : buffer.toList.take (rest 64 data).length = rest 64 data := by
    rw [hlist, List.take_zero, List.nil_append, List.take_left]
  have hlive : h.live = [] := by rw [live, hempty, List.take_zero]
  refine ⟨{ h with
    state := (BlockStream.blocks 64 data).foldl compress h.state
    buffer := buffer
    buffered := (rest 64 data).length }, ?_, ⟨hlt, ?_, ?_⟩, rfl⟩
  · simp only [takeBlocks, hcopy, Option.bind_eq_bind, Option.bind_some]
  · rw [hlive, List.nil_append]
  · rw [hlive, List.nil_append]
    exact hbuffer

/-- **One piece.**  Nothing panics, and what was kept and the data are taken block by block. -/
theorem update_spec {h : Hasher} (hin : h.buffered < 64) {data : List UInt8}
    (hlen : data.length < 2 ^ 61) :
    ∃ h', update h data = some h' ∧ Took h data h' ∧
      h'.lengthBits = h.lengthBits + UInt64.ofNat (data.length * 8) := by
  have hbits : ¬ 2 ^ 64 ≤ data.length * 8 := by omega
  unfold update
  rw [if_neg hbits]
  by_cases hzero : 0 < h.buffered
  · -- first the buffered block is filled, as far as the data goes
    rw [if_pos hzero, if_neg (Nat.not_lt.mpr hin.le)]
    generalize hmin : min (64 - h.buffered) data.length = take
    have htake : (data.take take).length = take := by
      rw [List.length_take]
      omega
    obtain ⟨buffer, hcopy, hfill, hkeep⟩ := copyInto_fed compress h.state h.buffer
      (show h.buffered + (data.take take).length ≤ 64 by omega) (by decide)
    rw [htake] at hfill hkeep
    simp only [hcopy, Option.bind_eq_bind, Option.bind_some]
    by_cases hfull : h.buffered + take = 64
    · rw [if_pos hfull]
      obtain ⟨h', hrun, htook, hcount⟩ := takeBlocks_spec
        (h := ⟨compress h.state buffer.toList, buffer, 0,
          h.lengthBits + UInt64.ofNat (data.length * 8)⟩) (data.drop take) rfl
      refine ⟨h', hrun, ⟨htook.inside, ?_⟩, hcount⟩
      have hall := (hfill hfull).trans (by decide) htook.fed
      rwa [List.take_append_drop] at hall
    · have hall : data.take take = data := List.take_of_length_le (by omega)
      rw [hall] at hkeep
      rw [if_neg hfull, if_pos (List.drop_eq_nil_of_le (by omega))]
      exact ⟨_, rfl, ⟨by dsimp only; omega, hkeep (by omega)⟩, rfl⟩
  · obtain ⟨h', hrun, htook, hcount⟩ := takeBlocks_spec (h := ⟨h.state, h.buffer, h.buffered,
      h.lengthBits + UInt64.ofNat (data.length * 8)⟩) data (Nat.eq_zero_of_not_pos hzero)
    rw [if_neg hzero]
    exact ⟨h', hrun, ⟨htook.inside, htook.fed⟩, hcount⟩

/-- Padding bytes are taken the same way, one at a time. -/
theorem updateNoLength_spec {h : Hasher} (hin : h.buffered < 64) (data : List UInt8) :
    ∃ h', updateNoLength h data = some h' ∧ Took h data h' ∧ h'.lengthBits = h.lengthBits := by
  induction data generalizing h with
  | nil =>
    have hlive : h.live.length < 64 := by rwa [length_live hin]
    exact ⟨h, rfl, ⟨hin, Fed.nil hlive⟩, rfl⟩
  | cons byte data ih =>
    obtain ⟨buffer, hcopy, hfill, hkeep⟩ := copyInto_fed compress h.state h.buffer
      (show h.buffered + [byte].length ≤ 64 from hin) (by decide)
    rw [List.length_singleton] at hfill hkeep
    simp only [updateNoLength, hcopy, Option.bind_eq_bind, Option.bind_some]
    by_cases hfull : h.buffered + 1 = 64
    · obtain ⟨h', hrun, htook, hcount⟩ :=
        ih (h := ⟨compress h.state buffer.toList, buffer, 0, h.lengthBits⟩) (by dsimp only; omega)
      rw [if_pos hfull]
      exact ⟨h', hrun, ⟨htook.inside, (hfill hfull).trans (by decide) htook.fed⟩, hcount⟩
    · obtain ⟨h', hrun, htook, hcount⟩ :=
        ih (h := ⟨h.state, buffer, h.buffered + 1, h.lengthBits⟩) (by dsimp only; omega)
      rw [if_neg hfull]
      exact ⟨h', hrun, ⟨htook.inside, (hkeep (by omega)).trans (by decide) htook.fed⟩, hcount⟩

/-- **The loop of zeros ends**, when 56 bytes wait. -/
theorem padZeros_spec {fuel : ℕ} {h : Hasher} (hin : h.buffered < 64)
    (hfuel : (56 + (64 - h.buffered)) % 64 < fuel) :
    ∃ h', padZeros fuel h = some h' ∧ h'.buffered = 56 ∧
      Took h (List.replicate ((56 + (64 - h.buffered)) % 64) 0) h' := by
  induction fuel generalizing h with
  | zero => omega
  | succ fuel ih =>
    unfold padZeros
    by_cases hdone : h.buffered = 56
    · have hlive : h.live.length < 64 := by rwa [length_live hin]
      rw [if_pos hdone, hdone]
      exact ⟨h, rfl, hdone, hin, Fed.nil hlive⟩
    · obtain ⟨h₁, hrun, htook, -⟩ := updateNoLength_spec hin [0x00]
      have hone : h₁.buffered = (h.buffered + 1) % 64 := htook.buffered hin
      have hless : (56 + (64 - h.buffered)) % 64 = (56 + (64 - h₁.buffered)) % 64 + 1 := by
        omega
      obtain ⟨h', hrest, hend, htook'⟩ := ih htook.inside (by omega)
      refine ⟨h', ?_, hend, ?_⟩
      · rw [if_neg hdone, hrun]
        exact hrest
      · rw [hless, List.replicate_succ]
        exact htook.trans htook'

/-- A hasher that was fed a message, in whatever pieces. -/
structure Holds (message : List UInt8) (h : Hasher) : Prop where
  took : Took new message h
  bits : h.lengthBits = UInt64.ofNat (message.length * 8)

theorem holds_new : Holds [] new := by
  refine ⟨⟨by decide, ?_⟩, rfl⟩
  exact Fed.nil (by decide)

theorem Holds.update {message : List UInt8} {h : Hasher} (hold : Holds message h)
    {data : List UInt8} (hlen : data.length < 2 ^ 61) :
    ∃ h', h.update data = some h' ∧ Holds (message ++ data) h' := by
  obtain ⟨h', hrun, htook, hcount⟩ := update_spec hold.took.inside hlen
  refine ⟨h', hrun, hold.took.trans htook, ?_⟩
  rw [hcount, hold.bits, ← UInt64.ofNat_add, ← Nat.add_mul, List.length_append]

/-- **The padding ends a block**, however many turns the loop may take from 64 on. -/
theorem Holds.pad {message : List UInt8} {h : Hasher} (hold : Holds message h) {fuel : ℕ}
    (hfuel : 64 ≤ fuel) :
    ∃ h', h.pad fuel = some h' ∧ h'.buffered = 0 ∧
      h'.state = (BlockStream.blocks 64
        (message ++ SecureHash.padBytes 4 message.length)).foldl compress .new := by
  obtain ⟨h₁, hone, htook₁, -⟩ := updateNoLength_spec hold.took.inside [0x80]
  have hwaits : h.buffered = message.length % 64 := by
    have := hold.took.buffered (by decide)
    rwa [show new.buffered = 0 from rfl, Nat.zero_add] at this
  have hwaits₁ : h₁.buffered = (message.length + 1) % 64 := by
    have := htook₁.buffered hold.took.inside
    rw [List.length_singleton] at this
    omega
  have hturns : (56 + (64 - h₁.buffered)) % 64 < fuel := by omega
  obtain ⟨h₂, hzeros, hend, htook₂⟩ := padZeros_spec htook₁.inside hturns
  obtain ⟨h₃, hlength, htook₃, -⟩ := updateNoLength_spec htook₂.inside
    (SecureHash.beBytes 8 h.lengthBits.toNat)
  have hcount : (56 + (64 - h₁.buffered)) % 64 = SecureHash.zeroBytes 4 message.length := by
    rw [hwaits₁]
    rfl
  have hbits : SecureHash.beBytes 8 h.lengthBits.toNat =
      SecureHash.beBytes (2 * 4) (8 * message.length) := by
    rw [hold.bits, UInt64.toNat_ofNat', Nat.mul_comm message.length]
    exact SecureHash.beBytes_mod 8 (8 * message.length)
  have hempty : h₃.buffered = 0 := by
    have := htook₃.buffered htook₂.inside
    rw [SecureHash.length_beBytes, hend] at this
    exact this
  have hall := ((hold.took.trans htook₁).trans htook₂).trans htook₃
  rw [hcount, hbits, List.append_assoc, List.append_assoc] at hall
  refine ⟨h₃, ?_, hempty, ?_⟩
  · simp only [Hasher.pad, hone, hzeros, hlength, Option.bind_eq_bind, Option.bind_some]
  · exact hall.fed.state

/-- **The digest is that of the standard.** -/
theorem Holds.finalize {message : List UInt8} {h : Hasher} (hold : Holds message h) :
    h.finalize = some (SecureHash.sha256.hash message) := by
  obtain ⟨h', hpad, -, hstate⟩ := hold.pad le_rfl
  simp only [Hasher.finalize, hpad, Option.bind_eq_bind, Option.bind_some]
  rw [hstate, hash_eq_fold]

/-- **Pieces compose from every buffered length**: two updates leave what one of both pieces
leaves. -/
theorem update_append {h : Hasher} (hin : h.buffered < 64) {data more : List UInt8}
    (hlen : (data ++ more).length < 2 ^ 61) :
    ∃ once twice, h.update (data ++ more) = some once ∧
      (h.update data >>= fun middle => middle.update more) = some twice ∧
      once.state = twice.state ∧ once.live = twice.live ∧ once.buffered = twice.buffered ∧
      once.lengthBits = twice.lengthBits := by
  have hsum : (data ++ more).length = data.length + more.length := List.length_append
  have hfirst : data.length < 2 ^ 61 := by omega
  have hsecond : more.length < 2 ^ 61 := by omega
  obtain ⟨once, honce, htook, hbits⟩ := update_spec hin hlen
  obtain ⟨middle, hmiddle, htook₁, hbits₁⟩ := update_spec hin hfirst
  obtain ⟨twice, htwice, htook₂, hbits₂⟩ := update_spec htook₁.inside hsecond
  have hboth := htook₁.trans htook₂
  obtain ⟨hstate, hlive⟩ := htook.fed.unique hboth.fed
  refine ⟨once, twice, honce, ?_, hstate, hlive, ?_, ?_⟩
  · rw [hmiddle]
    exact htwice
  · rw [htook.buffered hin, hboth.buffered hin]
  · rw [hbits, hbits₂, hbits₁, hsum, Nat.add_mul, UInt64.ofNat_add,
      UInt64.add_assoc]

end Hasher

/-! ## The digest of bytes that are there at once -/

theorem lengthBytes_eq (bits : UInt64) :
    (List.range 8).map (fun i => (bits >>> UInt64.ofNat (56 - 8 * i)).toUInt8) =
      SecureHash.beBytes 8 bits.toNat := by
  simp [List.range_succ, SecureHash.beBytes, toLe, ← UInt8.toNat_inj]
  omega

theorem wordBytes_eq (word : UInt32) :
    [(word >>> 24).toUInt8, (word >>> 16).toUInt8, (word >>> 8).toUInt8, word.toUInt8] =
      SecureHash.beBytes 4 word.toNat := by
  simp [SecureHash.beBytes, toLe, ← UInt8.toNat_inj]
  omega

theorem padded_eq (data : List UInt8) :
    padded data = data ++ SecureHash.padBytes 4 data.length := by
  have hzeros : (119 - data.length % 64) % 64 = SecureHash.zeroBytes 4 data.length := by
    unfold SecureHash.zeroBytes
    omega
  have hbits : SecureHash.beBytes 8 (UInt64.ofNat data.length * 8).toNat =
      SecureHash.beBytes (2 * 4) (8 * data.length) := by
    have hmul : (UInt64.ofNat data.length * 8).toNat = 8 * data.length % 256 ^ 8 := by
      simp [Nat.mul_comm]
    rw [hmul]
    exact SecureHash.beBytes_mod 8 (8 * data.length)
  simp only [padded]
  rw [lengthBytes_eq, hzeros, hbits, SecureHash.padBytes, List.cons_append]

theorem blocks_eq (k : Nat) (data : List UInt8) : blocks k data = firstBlocks 64 k data := by
  induction k generalizing data with
  | zero => rfl
  | succ k ih => rw [blocks, firstBlocks, ih]

/-- The digest is that of the standard, and so that of a hasher. -/
theorem digest_eq (data : List UInt8) : digest data = SecureHash.sha256.hash data := by
  simp only [digest]
  rw [padded_eq, blocks_eq, hash_eq_fold, BlockStream.blocks]
  simp only [wordBytes_eq]

end Sha256
