/-
# SHA-512 (`oq-hash/src/sha512.rs`)

The hash with blocks of 128 bytes, words of 64 bits and a length of 128 bits, and the hasher
that takes its message in pieces.  Its update and its padding are written in another way than
those of SHA-256.

* Every digest is that of the standard, however the message was cut (`Hasher.Holds.finalize`).
-/
import OpenQuanter.SecureHash

open BlockStream

namespace Sha512

/-- The constants of the rounds. -/
def k : List UInt64 :=
  [0x428a2f98d728ae22, 0x7137449123ef65cd, 0xb5c0fbcfec4d3b2f, 0xe9b5dba58189dbbc,
    0x3956c25bf348b538, 0x59f111f1b605d019, 0x923f82a4af194f9b, 0xab1c5ed5da6d8118,
    0xd807aa98a3030242, 0x12835b0145706fbe, 0x243185be4ee4b28c, 0x550c7dc3d5ffb4e2,
    0x72be5d74f27b896f, 0x80deb1fe3b1696b1, 0x9bdc06a725c71235, 0xc19bf174cf692694,
    0xe49b69c19ef14ad2, 0xefbe4786384f25e3, 0x0fc19dc68b8cd5b5, 0x240ca1cc77ac9c65,
    0x2de92c6f592b0275, 0x4a7484aa6ea6e483, 0x5cb0a9dcbd41fbd4, 0x76f988da831153b5,
    0x983e5152ee66dfab, 0xa831c66d2db43210, 0xb00327c898fb213f, 0xbf597fc7beef0ee4,
    0xc6e00bf33da88fc2, 0xd5a79147930aa725, 0x06ca6351e003826f, 0x142929670a0e6e70,
    0x27b70a8546d22ffc, 0x2e1b21385c26c926, 0x4d2c6dfc5ac42aed, 0x53380d139d95b3df,
    0x650a73548baf63de, 0x766a0abb3c77b2a8, 0x81c2c92e47edaee6, 0x92722c851482353b,
    0xa2bfe8a14cf10364, 0xa81a664bbc423001, 0xc24b8b70d0f89791, 0xc76c51a30654be30,
    0xd192e819d6ef5218, 0xd69906245565a910, 0xf40e35855771202a, 0x106aa07032bbd1b8,
    0x19a4c116b8d2d0c8, 0x1e376c085141ab53, 0x2748774cdf8eeb99, 0x34b0bcb5e19b48a8,
    0x391c0cb3c5c95a63, 0x4ed8aa4ae3418acb, 0x5b9cca4f7763e373, 0x682e6ff3d6b2b8a3,
    0x748f82ee5defb2fc, 0x78a5636f43172f60, 0x84c87814a1f0ab72, 0x8cc702081a6439ec,
    0x90befffa23631e28, 0xa4506cebde82bde9, 0xbef9a3f7b2c67915, 0xc67178f2e372532b,
    0xca273eceea26619c, 0xd186b8c721c0c207, 0xeada7dd6cde0eb1e, 0xf57d4f7fee6ed178,
    0x06f067aa72176fba, 0x0a637dc5a2c898a6, 0x113f9804bef90dae, 0x1b710b35131c471b,
    0x28db77f523047d84, 0x32caab7b40c72493, 0x3c9ebe0a15c9bebc, 0x431d67c49c100d4c,
    0x4cc5d4becb3e42b6, 0x597f299cfc657e2a, 0x5fcb6fab3ad6faec, 0x6c44198c4a475817]

/-- The eight words of the state. -/
structure State where
  a : UInt64
  b : UInt64
  c : UInt64
  d : UInt64
  e : UInt64
  f : UInt64
  g : UInt64
  h : UInt64
  deriving DecidableEq, Repr

namespace State

/-- The words a hash starts with. -/
def h0 : State :=
  ⟨0x6a09e667f3bcc908, 0xbb67ae8584caa73b, 0x3c6ef372fe94f82b, 0xa54ff53a5f1d36f1,
    0x510e527fade682d1, 0x9b05688c2b3e6c1f, 0x1f83d9abfb41bd6b, 0x5be0cd19137e2179⟩

def words (s : State) : List UInt64 := [s.a, s.b, s.c, s.d, s.e, s.f, s.g, s.h]

/-- The words of two states, added. -/
def add (s t : State) : State :=
  ⟨s.a + t.a, s.b + t.b, s.c + t.c, s.d + t.d, s.e + t.e, s.f + t.f, s.g + t.g, s.h + t.h⟩

end State

def rotateRight (x n : UInt64) : UInt64 := (x >>> n) ||| (x <<< (64 - n))

/-- The word that eight bytes stand for, the first one the highest. -/
def fromBe (bytes : List UInt8) : UInt64 :=
  bytes.foldl (fun v b => v * 256 + b.toUInt64) 0

/-- The word after sixteen others. -/
def nextWord (w : List UInt64) : UInt64 :=
  let at_ := fun back => w.getD (w.length - back) 0
  let s0 := rotateRight (at_ 15) 1 ^^^ rotateRight (at_ 15) 8 ^^^ (at_ 15 >>> 7)
  let s1 := rotateRight (at_ 2) 19 ^^^ rotateRight (at_ 2) 61 ^^^ (at_ 2 >>> 6)
  at_ 16 + s0 + at_ 7 + s1

/-- The words of a block, and those made of them. -/
def schedule (block : List UInt8) : List UInt64 :=
  let first := (List.range 16).map fun i => fromBe ((block.drop (8 * i)).take 8)
  Nat.iterate (fun w => w ++ [nextWord w]) 64 first

/-- One round. -/
def round (s : State) (kw : UInt64 × UInt64) : State :=
  let s1 := rotateRight s.e 14 ^^^ rotateRight s.e 18 ^^^ rotateRight s.e 41
  let ch := (s.e &&& s.f) ^^^ (~~~s.e &&& s.g)
  let t1 := s.h + s1 + ch + kw.1 + kw.2
  let s0 := rotateRight s.a 28 ^^^ rotateRight s.a 34 ^^^ rotateRight s.a 39
  let maj := (s.a &&& s.b) ^^^ (s.a &&& s.c) ^^^ (s.b &&& s.c)
  ⟨t1 + (s0 + maj), s.a, s.b, s.c, s.d + t1, s.e, s.f, s.g⟩

def compress (s : State) (block : List UInt8) : State :=
  s.add ((k.zip (schedule block)).foldl round s)

/-! ## One block -/

/-- The state as the standard's words. -/
def State.working (s : State) : SecureHash.Working 64 :=
  ⟨s.a.toBitVec, s.b.toBitVec, s.c.toBitVec, s.d.toBitVec, s.e.toBitVec, s.f.toBitVec,
    s.g.toBitVec, s.h.toBitVec⟩

theorem fromBe_eq (bytes : List UInt8) : fromBe bytes = UInt64.ofNat (ofLe bytes.reverse) := by
  induction bytes using List.reverseRecOn with
  | nil => rfl
  | append_singleton bytes b ih =>
    rw [fromBe, List.foldl_concat, ← fromBe, ih, List.reverse_append, List.reverse_singleton,
      List.singleton_append, ofLe]
    apply UInt64.toNat_inj.mp
    simp
    omega

theorem working_round (s : State) (kw : UInt64 × UInt64) :
    (round s kw).working = SecureHash.sha512.round s.working kw.1.toBitVec kw.2.toBitVec := by
  rfl

theorem working_add (s t : State) : (s.add t).working = s.working.add t.working := rfl

/-- The table holds the constants of the standard. -/
theorem map_k : k.map UInt64.toBitVec = (List.range 80).map SecureHash.sha512.k :=
  SecureHash.rootWord_table (by decide) (by decide +kernel) (by decide +kernel)

/-- The hash starts where the standard says. -/
theorem working_h0 : State.h0.working = SecureHash.sha512.init :=
  SecureHash.Working.words_injective
    (SecureHash.rootWord_table (by decide) (by decide +kernel) (by decide +kernel))

/-- The words of a block and those made of them. -/
theorem map_schedule (block : List UInt8) :
    (schedule block).map UInt64.toBitVec =
      (List.range 80).map (SecureHash.sha512.schedule fun t =>
        BitVec.ofNat 64 (ofLe ((block.drop (8 * t)).take 8).reverse)) := by
  refine SecureHash.Variant.map_schedule SecureHash.sha512 _ UInt64.toBitVec _ nextWord 0
    (fun t _ => ?_) (fun ws => ?_) 64
  · rw [fromBe_eq]
    rfl
  · have hswap : ∀ x y z u : BitVec 64, x + y + z + u = u + z + y + x := by
      intro x y z u
      ac_rfl
    exact hswap _ _ _ _

/-- **A block** is mixed into the words as the standard says. -/
theorem working_compress (s : State) (block : List UInt8) :
    (compress s block).working = SecureHash.sha512.hashBytes s.working block := by
  have hrounds : ((k.zip (schedule block)).foldl round s).working =
      ((k.map UInt64.toBitVec).zip ((schedule block).map UInt64.toBitVec)).foldl
        (fun t kw => SecureHash.sha512.round t kw.1 kw.2) s.working := by
    rw [List.zip_map, List.foldl_map]
    exact (List.foldl_hom State.working fun t kw => (working_round t kw).symm).symm
  have hblock : SecureHash.sha512.hashBytes s.working block = s.working.add
      (((k.map UInt64.toBitVec).zip ((schedule block).map UInt64.toBitVec)).foldl
        (fun t kw => SecureHash.sha512.round t kw.1 kw.2) s.working) :=
    SecureHash.Variant.hashBytes_eq (n := 8) SecureHash.sha512 s.working map_k
      (map_schedule block)
  rw [compress, working_add, hrounds, hblock]

/-- The digest of the standard, block by block. -/
theorem hash_eq_fold (message : List UInt8) : SecureHash.sha512.hash message =
    ((BlockStream.blocks 128 (message ++ SecureHash.padBytes 8 message.length)).foldl compress
      .h0).words.flatMap fun word => SecureHash.beBytes 8 word.toNat := by
  have hfold : ∀ bs : List (List UInt8), (bs.foldl compress .h0).working =
      bs.foldl SecureHash.sha512.hashBytes SecureHash.sha512.init := by
    intro bs
    rw [← working_h0]
    exact (List.foldl_hom State.working fun s b => (working_compress s b).symm).symm
  have hwords : ∀ s : State, s.words.flatMap (fun word => SecureHash.beBytes 8 word.toNat) =
      s.working.words.flatMap fun x => SecureHash.beBytes 8 x.toNat := fun _ => rfl
  rw [hwords, hfold]
  exact SecureHash.Variant.hash_eq (n := 8) (by decide) SecureHash.sha512 message

/-! ## The hasher -/

/-- Streaming SHA-512 state. -/
structure Hasher where
  state : State
  buffer : Vector UInt8 128
  buffered : Nat
  lengthBits : BitVec 128
  deriving DecidableEq, Repr

namespace Hasher

/-- A fresh hasher. -/
def new : Hasher where
  state := .h0
  buffer := Vector.replicate 128 0
  buffered := 0
  lengthBits := 0

/-- The first part of an update: the buffered block is filled as far as the data goes.

There is no result where the code panics, at a range that leaves the buffer. -/
def topUp (h : Hasher) (data : List UInt8) : Option (Hasher × List UInt8) :=
  if 0 < h.buffered then
    if 128 < h.buffered then none
    else do
      let want := 128 - h.buffered
      let take := min want data.length
      let buffer ← copyInto h.buffer h.buffered (data.take take)
      let h := { h with buffer := buffer, buffered := h.buffered + take }
      let data := data.drop take
      if h.buffered = 128 then
        some ({ h with state := compress h.state h.buffer.toList, buffered := 0 }, data)
      else some (h, data)
  else some (h, data)

/-- The loop over the whole blocks of the data. -/
def takeBlocks (s : State) (data : List UInt8) : State × List UInt8 :=
  if 128 ≤ data.length then takeBlocks (compress s (data.take 128)) (data.drop 128)
  else (s, data)
termination_by data.length
decreasing_by
  rw [List.length_drop]
  omega

/-- The last part of an update: the whole blocks, and what is left into the buffer. -/
def takeRest (h : Hasher) (data : List UInt8) : Option Hasher :=
  let (state, data) := takeBlocks h.state data
  let h := { h with state := state }
  if data ≠ [] then do
    let buffer ← copyInto h.buffer 0 data
    some { h with buffer := buffer, buffered := data.length }
  else some h

/-- Add bytes.  The product is checked, the sum wraps. -/
def update (h : Hasher) (data : List UInt8) : Option Hasher :=
  if 2 ^ 128 ≤ data.length * 8 then none
  else do
    let h := { h with lengthBits := h.lengthBits + BitVec.ofNat 128 (data.length * 8) }
    let (h, data) ← topUp h data
    takeRest h data

/-- Feed bytes without counting them, for the padding itself. -/
def updateNoLength (h : Hasher) (data : List UInt8) : Option Hasher := do
  let before := h.lengthBits
  let h ← update h data
  some { h with lengthBits := before }

/-- The padding: a single one bit, zeroes, then the length in the last sixteen bytes. -/
def pad (h : Hasher) : Option Hasher :=
  let bits := h.lengthBits
  let pad := (0x80 : UInt8) :: List.replicate 255 0
  let rest := (h.buffered + 1) % 128
  let zeros := if rest ≤ 112 then 112 - rest else 240 - rest
  let total := 1 + zeros
  if 256 < total then none
  else updateNoLength h (pad.take total ++ SecureHash.beBytes 16 bits.toNat)

/-- Finish and return the digest of 64 bytes. -/
def finalize (h : Hasher) : Option (List UInt8) := do
  let h ← pad h
  some (h.state.words.flatMap fun word => SecureHash.beBytes 8 word.toNat)

/-! ## What a hasher holds -/

/-- The bytes that wait for their block. -/
def live (h : Hasher) : List UInt8 := h.buffer.toList.take h.buffered

theorem length_live {h : Hasher} (hin : h.buffered < 128) : h.live.length = h.buffered := by
  rw [live, List.length_take, Vector.length_toList]
  omega

/-- A hasher before and after some data. -/
structure Took (h : Hasher) (data : List UInt8) (h' : Hasher) : Prop where
  inside : h'.buffered < 128
  fed : Fed 128 compress h.state h.live data h'.state h'.live

theorem Took.trans {a b c : Hasher} {data more : List UInt8} (h : Took a data b)
    (h' : Took b more c) : Took a (data ++ more) c :=
  ⟨h'.inside, h.fed.trans (by decide) h'.fed⟩

theorem Took.buffered {h h' : Hasher} {data : List UInt8} (hin : h.buffered < 128)
    (htook : Took h data h') : h'.buffered = (h.buffered + data.length) % 128 := by
  rw [← length_live htook.inside, htook.fed.length_kept, length_live hin]

/-- The loop takes the whole blocks and leaves the rest. -/
theorem takeBlocks_eq (s : State) (data : List UInt8) :
    takeBlocks s data = ((blocks 128 data).foldl compress s, rest 128 data) := by
  induction s, data using takeBlocks.induct with
  | case1 s data hlong ih =>
    have hfirst : (data.take 128).length = 128 := by
      rw [List.length_take]
      omega
    obtain ⟨hblocks, hrest⟩ := blocks_cons (by decide) hfirst (data.drop 128)
    rw [List.take_append_drop] at hblocks hrest
    rw [takeBlocks, if_pos hlong, ih, hblocks, hrest, List.foldl_cons]
  | case2 s data hshort =>
    obtain ⟨hblocks, hrest⟩ := blocks_of_length_lt (Nat.not_le.mp hshort)
    rw [takeBlocks, if_neg hshort, hblocks, hrest, List.foldl_nil]

/-- After the first part either no block is begun, or no data is left. -/
theorem topUp_spec {h : Hasher} (hin : h.buffered < 128) (data : List UInt8) :
    ∃ h' used left, topUp h data = some (h', left) ∧ data = used ++ left ∧ Took h used h' ∧
      (h'.buffered = 0 ∨ left = []) ∧ h'.lengthBits = h.lengthBits := by
  have hlive := length_live hin
  unfold topUp
  by_cases hzero : 0 < h.buffered
  · rw [if_pos hzero, if_neg (Nat.not_lt.mpr hin.le)]
    dsimp only
    generalize hmin : min (128 - h.buffered) data.length = take
    have htake : (data.take take).length = take := by
      rw [List.length_take]
      omega
    obtain ⟨buffer, hcopy, hfill, hkeep⟩ := copyInto_fed compress h.state h.buffer
      (show h.buffered + (data.take take).length ≤ 128 by omega) (by decide)
    rw [htake] at hfill hkeep
    simp only [hcopy, Option.bind_eq_bind, Option.bind_some]
    have hsplit : data = data.take take ++ data.drop take := (List.take_append_drop _ _).symm
    by_cases hfull : h.buffered + take = 128
    · rw [if_pos hfull]
      exact ⟨_, _, _, rfl, hsplit, ⟨by dsimp only; omega, hfill hfull⟩, .inl rfl, rfl⟩
    · rw [if_neg hfull]
      exact ⟨_, _, _, rfl, hsplit, ⟨by dsimp only; omega, hkeep (by omega)⟩,
        .inr (List.drop_eq_nil_of_le (by omega)), rfl⟩
  · rw [if_neg hzero]
    exact ⟨h, [], data, rfl, rfl, ⟨hin, Fed.nil (by rwa [hlive])⟩, .inl (by omega), rfl⟩

theorem takeRest_spec {h : Hasher} (hin : h.buffered < 128) {data : List UInt8}
    (hleft : h.buffered = 0 ∨ data = []) :
    ∃ h', takeRest h data = some h' ∧ Took h data h' ∧ h'.lengthBits = h.lengthBits := by
  have hlt : (rest 128 data).length < 128 := length_rest_lt (by decide) data
  have hempty : h.buffered = 0 → h.live = [] := fun hzero => by rw [live, hzero, List.take_zero]
  simp only [takeRest, takeBlocks_eq]
  by_cases hrest : rest 128 data = []
  · -- the buffer stays as it is: nothing is left, or nothing was there
    rw [if_neg (not_not.mpr hrest)]
    refine ⟨_, rfl, ⟨hin, ?_⟩, rfl⟩
    rcases hleft with hzero | rfl
    · refine ⟨?_, ?_⟩ <;> rw [hempty hzero, List.nil_append]
      rw [hrest]
      exact hempty hzero
    · exact Fed.nil (by rwa [length_live hin])
  · have hzero : h.buffered = 0 := by
      rcases hleft with hzero | rfl
      · exact hzero
      · exact absurd rfl hrest
    have hroom : 0 + (rest 128 data).length ≤ 128 := by omega
    obtain ⟨buffer, hcopy, hlist⟩ := copyInto_of_le h.buffer hroom
    have hbuffer : buffer.toList.take (rest 128 data).length = rest 128 data := by
      rw [hlist, List.take_zero, List.nil_append, List.take_left]
    simp only [if_pos hrest, hcopy, Option.bind_eq_bind, Option.bind_some]
    refine ⟨_, rfl, ⟨hlt, ?_⟩, rfl⟩
    refine ⟨?_, ?_⟩ <;> rw [hempty hzero, List.nil_append]
    exact hbuffer

/-- **One piece.**  Nothing panics, and what was kept and the data are taken block by block. -/
theorem update_spec {h : Hasher} (hin : h.buffered < 128) {data : List UInt8}
    (hlen : data.length < 2 ^ 125) :
    ∃ h', update h data = some h' ∧ Took h data h' ∧
      h'.lengthBits = h.lengthBits + BitVec.ofNat 128 (data.length * 8) := by
  have hbits : ¬ 2 ^ 128 ≤ data.length * 8 := by omega
  obtain ⟨h₁, used, left, hrun, hdata, htook, hleft, hcount⟩ := topUp_spec
    (h := ⟨h.state, h.buffer, h.buffered, h.lengthBits + BitVec.ofNat 128 (data.length * 8)⟩)
    hin data
  obtain ⟨h', hrest, htook', hcount'⟩ := takeRest_spec htook.inside hleft
  have hfirst : Took h used h₁ := ⟨htook.inside, htook.fed⟩
  refine ⟨h', ?_, ?_, hcount'.trans hcount⟩
  · unfold update
    simp only [if_neg hbits, hrun, Option.bind_eq_bind, Option.bind_some]
    exact hrest
  · rw [hdata]
    exact hfirst.trans htook'

/-- Padding bytes are taken the same way, and not counted. -/
theorem updateNoLength_spec {h : Hasher} (hin : h.buffered < 128) {data : List UInt8}
    (hlen : data.length < 2 ^ 125) :
    ∃ h', updateNoLength h data = some h' ∧ Took h data h' ∧ h'.lengthBits = h.lengthBits := by
  obtain ⟨h', hrun, htook, -⟩ := update_spec hin hlen
  refine ⟨{ h' with lengthBits := h.lengthBits }, ?_, ⟨htook.inside, htook.fed⟩, rfl⟩
  simp only [updateNoLength, hrun, Option.bind_eq_bind, Option.bind_some]

/-- **Pieces compose from every buffered length**: two updates leave what one of both pieces
leaves. -/
theorem update_append {h : Hasher} (hin : h.buffered < 128) {data more : List UInt8}
    (hlen : (data ++ more).length < 2 ^ 125) :
    ∃ once twice, h.update (data ++ more) = some once ∧
      (h.update data >>= fun middle => middle.update more) = some twice ∧
      once.state = twice.state ∧ once.live = twice.live ∧ once.buffered = twice.buffered ∧
      once.lengthBits = twice.lengthBits := by
  have hsum : (data ++ more).length = data.length + more.length := List.length_append
  have hfirst : data.length < 2 ^ 125 := by omega
  have hsecond : more.length < 2 ^ 125 := by omega
  obtain ⟨once, honce, htook, hbits⟩ := update_spec hin hlen
  obtain ⟨middle, hmiddle, htook₁, hbits₁⟩ := update_spec hin hfirst
  obtain ⟨twice, htwice, htook₂, hbits₂⟩ := update_spec htook₁.inside hsecond
  have hboth := htook₁.trans htook₂
  obtain ⟨hstate, hlive⟩ := htook.fed.unique hboth.fed
  refine ⟨once, twice, honce, ?_, hstate, hlive, ?_, ?_⟩
  · rw [hmiddle]
    exact htwice
  · rw [htook.buffered hin, hboth.buffered hin]
  · rw [hbits, hbits₂, hbits₁, hsum, Nat.add_mul, BitVec.ofNat_add, BitVec.add_assoc]

/-- A hasher that was fed a message, in whatever pieces. -/
structure Holds (message : List UInt8) (h : Hasher) : Prop where
  took : Took new message h
  bits : h.lengthBits = BitVec.ofNat 128 (message.length * 8)

theorem holds_new : Holds [] new := by
  refine ⟨⟨by decide, ?_⟩, rfl⟩
  exact Fed.nil (by decide)

theorem Holds.update {message : List UInt8} {h : Hasher} (hold : Holds message h)
    {data : List UInt8} (hlen : data.length < 2 ^ 125) :
    ∃ h', h.update data = some h' ∧ Holds (message ++ data) h' := by
  obtain ⟨h', hrun, htook, hcount⟩ := update_spec hold.took.inside hlen
  refine ⟨h', hrun, hold.took.trans htook, ?_⟩
  rw [hcount, hold.bits, ← BitVec.ofNat_add, ← Nat.add_mul, List.length_append]

/-- **The padding ends a block.** -/
theorem Holds.pad {message : List UInt8} {h : Hasher} (hold : Holds message h) :
    ∃ h', h.pad = some h' ∧ h'.buffered = 0 ∧
      h'.state = (blocks 128
        (message ++ SecureHash.padBytes 8 message.length)).foldl compress .h0 := by
  have hwaits : h.buffered = message.length % 128 := by
    have := hold.took.buffered (by decide)
    rwa [show new.buffered = 0 from rfl, Nat.zero_add] at this
  have hzeros : (if (h.buffered + 1) % 128 ≤ 112 then 112 - (h.buffered + 1) % 128
      else 240 - (h.buffered + 1) % 128) = SecureHash.zeroBytes 8 message.length := by
    rw [hwaits, SecureHash.zeroBytes]
    split <;> omega
  have hfew := SecureHash.zeroBytes_lt (n := 8) (by decide) message.length
  have hpad : ((0x80 : UInt8) :: List.replicate 255 0).take
      (1 + SecureHash.zeroBytes 8 message.length) =
        0x80 :: List.replicate (SecureHash.zeroBytes 8 message.length) 0 := by
    rw [Nat.add_comm, List.take_succ_cons, List.take_replicate, Nat.min_eq_left (by omega)]
  have hbits : SecureHash.beBytes 16 h.lengthBits.toNat =
      SecureHash.beBytes (2 * 8) (8 * message.length) := by
    rw [hold.bits, BitVec.toNat_ofNat, Nat.mul_comm message.length]
    exact SecureHash.beBytes_mod 16 (8 * message.length)
  have hbytes : (0x80 : UInt8) :: List.replicate (SecureHash.zeroBytes 8 message.length) 0 ++
      SecureHash.beBytes (2 * 8) (8 * message.length) =
        SecureHash.padBytes 8 message.length := by
    rw [SecureHash.padBytes, List.cons_append]
  have hshort : (SecureHash.padBytes 8 message.length).length =
      SecureHash.zeroBytes 8 message.length + 17 := by
    simp [SecureHash.padBytes]
  obtain ⟨h', hrun, htook, -⟩ := updateNoLength_spec hold.took.inside
    (show (SecureHash.padBytes 8 message.length).length < 2 ^ 125 by omega)
  have hall := hold.took.trans htook
  refine ⟨h', ?_, ?_, hall.fed.state⟩
  · simp only [Hasher.pad]
    rw [hzeros, if_neg (by omega), hpad, hbits, hbytes, hrun]
  · rw [htook.buffered hold.took.inside, hshort, hwaits, SecureHash.zeroBytes]
    omega

/-- **The digest is that of the standard.** -/
theorem Holds.finalize {message : List UInt8} {h : Hasher} (hold : Holds message h) :
    h.finalize = some (SecureHash.sha512.hash message) := by
  obtain ⟨h', hpad, -, hstate⟩ := hold.pad
  simp only [Hasher.finalize, hpad, Option.bind_eq_bind, Option.bind_some]
  rw [hstate, hash_eq_fold]

end Hasher

end Sha512
