/-
# Keyed hashes (`oq-hash/src/hmac.rs`)

What every order is signed with: a hash of the message behind the key, hashed again.  Both
functions are one construction over a streaming hash, at the block size of each.

* Whatever the pieces, a streaming hash answers with the digest of the standard
  (`Computes.updates`).
* The keyed hashes are those of the standard for every key and message (`hmac_eq`).
-/
import OpenQuanter.Sha256Stream
import OpenQuanter.Sha512

open BlockStream

/-- A streaming hash. -/
structure Digester (σ : Type) where
  new : σ
  update : σ → List UInt8 → Option σ
  finalize : σ → Option (List UInt8)

namespace Digester

variable {σ : Type} (d : Digester σ)

/-- The digest of a message that is fed in pieces. -/
def pieces (parts : List (List UInt8)) : Option (List UInt8) := do
  let h ← parts.foldlM d.update d.new
  d.finalize h

/-- The key in a block.  A key longer than the block is replaced by its hash. -/
def padKey (block : ℕ) (key : List UInt8) : Option (Vector UInt8 block) :=
  let padded := Vector.replicate block 0
  if block < key.length then do
    let h ← d.update d.new key
    let digest ← d.finalize h
    copyInto padded 0 digest
  else copyInto padded 0 key

/-- Authenticate a message with a key, over a hash of blocks of `block` bytes.

There is no result where the code panics: where the hash does, or where a digest does not fit
into a block. -/
def hmac (block : ℕ) (key message : List UInt8) : Option (List UInt8) := do
  let padded ← d.padKey block key
  let innerPad := padded.map fun b => 0x36 ^^^ b
  let outerPad := padded.map fun b => 0x5c ^^^ b
  let h ← d.update d.new innerPad.toList
  let h ← d.update h message
  let inner ← d.finalize h
  let h ← d.update d.new outerPad.toList
  let h ← d.update h inner
  d.finalize h

/-- A streaming hash computes a function: `holds` says of which message a state is, and no piece
below the bound panics. -/
structure Computes (holds : List UInt8 → σ → Prop) (hash : List UInt8 → List UInt8)
    (bound : ℕ) : Prop where
  fresh : holds [] d.new
  update : ∀ {message h data}, holds message h → data.length < bound →
    ∃ h', d.update h data = some h' ∧ holds (message ++ data) h'
  finalize : ∀ {message h}, holds message h → d.finalize h = some (hash message)

namespace Computes

variable {d} {holds : List UInt8 → σ → Prop} {hash : List UInt8 → List UInt8} {bound : ℕ}

/-- Pieces are taken one after the other. -/
theorem updates (c : d.Computes holds hash bound) {message : List UInt8} {h : σ}
    (hold : holds message h) {parts : List (List UInt8)}
    (hlen : ∀ part ∈ parts, part.length < bound) :
    ∃ h', parts.foldlM d.update h = some h' ∧ holds (message ++ parts.flatten) h' := by
  induction parts generalizing message h with
  | nil =>
    refine ⟨h, rfl, ?_⟩
    rwa [List.flatten_nil, List.append_nil]
  | cons part parts ih =>
    obtain ⟨h₁, hrun, hold₁⟩ := c.update hold (hlen part List.mem_cons_self)
    obtain ⟨h', hrest, hold'⟩ := ih hold₁ fun p hp => hlen p (List.mem_cons_of_mem part hp)
    refine ⟨h', ?_, ?_⟩
    · rw [List.foldlM_cons, hrun]
      exact hrest
    · rwa [List.flatten_cons, ← List.append_assoc]

/-- **Whatever the pieces, the digest is that of the whole.** -/
theorem pieces_eq (c : d.Computes holds hash bound) {parts : List (List UInt8)}
    (hlen : parts.flatten.length < bound) : d.pieces parts = some (hash parts.flatten) := by
  have hparts : ∀ part ∈ parts, part.length < bound := fun part hpart =>
    Nat.lt_of_le_of_lt (List.sublist_flatten_of_mem hpart).length_le hlen
  obtain ⟨h, hrun, hold⟩ := c.updates c.fresh hparts
  rw [List.nil_append] at hold
  rw [pieces, hrun]
  exact c.finalize hold

/-- A message in two pieces. -/
theorem run_two (c : d.Computes holds hash bound) {first second : List UInt8}
    (hfirst : first.length < bound) (hsecond : second.length < bound) :
    ∃ h₁ h₂, d.update d.new first = some h₁ ∧ d.update h₁ second = some h₂ ∧
      d.finalize h₂ = some (hash (first ++ second)) := by
  obtain ⟨h₁, hrun₁, hold₁⟩ := c.update c.fresh hfirst
  obtain ⟨h₂, hrun₂, hold₂⟩ := c.update hold₁ hsecond
  exact ⟨h₁, h₂, hrun₁, hrun₂, c.finalize hold₂⟩

/-- What fits into a block is followed by zeros. -/
theorem copyInto_zeros {block : ℕ} {key : List UInt8} (h : key.length ≤ block) :
    ∃ padded, copyInto (Vector.replicate block (0 : UInt8)) 0 key = some padded ∧
      padded.toList = key ++ List.replicate (block - key.length) 0 := by
  have hroom : 0 + key.length ≤ block := by omega
  obtain ⟨padded, hcopy, hlist⟩ := copyInto_of_le (Vector.replicate block (0 : UInt8)) hroom
  refine ⟨padded, hcopy, ?_⟩
  rw [hlist, List.take_zero, List.nil_append, Vector.toList_replicate, List.drop_replicate,
    Nat.zero_add]

theorem padKey_eq (c : d.Computes holds hash bound) {block : ℕ}
    (hfits : ∀ message, (hash message).length ≤ block) {key : List UInt8}
    (hkey : key.length < bound) :
    ∃ padded, d.padKey block key = some padded ∧
      padded.toList = (if block < key.length then hash key else key) ++
        List.replicate (block - (if block < key.length then hash key else key).length) 0 := by
  simp only [padKey]
  by_cases hlong : block < key.length
  · obtain ⟨h, hrun, hold⟩ := c.update c.fresh hkey
    rw [List.nil_append] at hold
    rw [if_pos hlong, if_pos hlong]
    simp only [hrun, c.finalize hold, Option.bind_eq_bind, Option.bind_some]
    exact copyInto_zeros (hfits key)
  · rw [if_neg hlong, if_neg hlong]
    exact copyInto_zeros (Nat.not_lt.mp hlong)

/-- **The keyed hash** is that of the standard. -/
theorem hmac_eq (c : d.Computes holds hash bound) {block : ℕ} (hblock : block < bound)
    (hfits : ∀ message, (hash message).length ≤ block) {key message : List UInt8}
    (hkey : key.length < bound) (hmessage : message.length < bound) :
    d.hmac block key message = some (SecureHash.hmac hash block key message) := by
  obtain ⟨padded, hrun, hlist⟩ := c.padKey_eq hfits hkey
  have hpad : ∀ f : UInt8 → UInt8, (padded.map f).toList.length < bound := by
    intro f
    rwa [Vector.length_toList]
  obtain ⟨i₁, i₂, hin₁, hin₂, hinner⟩ := c.run_two (hpad fun b => 0x36 ^^^ b) hmessage
  obtain ⟨o₁, o₂, hout₁, hout₂, houter⟩ := c.run_two (hpad fun b => 0x5c ^^^ b)
    (Nat.lt_of_le_of_lt (hfits ((padded.map fun b => 0x36 ^^^ b).toList ++ message)) hblock)
  have hxor : ∀ x : UInt8, (padded.map fun b => x ^^^ b).toList =
      padded.toList.map fun b => b ^^^ x := by
    intro x
    rw [Vector.toList_map]
    exact List.map_congr_left fun b _ => UInt8.xor_comm x b
  unfold hmac
  simp only [hrun, hin₁, hin₂, hinner, hout₁, hout₂, houter, Option.bind_eq_bind,
    Option.bind_some]
  rw [hxor, hxor, hlist]
  rfl

end Computes

end Digester

/-! ## The two keyed hashes -/

namespace Sha256

/-- SHA-256, as a streaming hash. -/
def digester : Digester Hasher where
  new := .new
  update := Hasher.update
  finalize := Hasher.finalize

theorem length_hash (message : List UInt8) : (SecureHash.sha256.hash message).length = 32 := by
  rw [hash_eq_fold]
  simp [State.words]

theorem computes : digester.Computes Hasher.Holds SecureHash.sha256.hash (2 ^ 61) where
  fresh := Hasher.holds_new
  update hold hlen := hold.update hlen
  finalize hold := hold.finalize

end Sha256

namespace Sha512

/-- SHA-512, as a streaming hash. -/
def digester : Digester Hasher where
  new := .new
  update := Hasher.update
  finalize := Hasher.finalize

theorem length_hash (message : List UInt8) : (SecureHash.sha512.hash message).length = 64 := by
  rw [hash_eq_fold]
  simp [State.words]

theorem computes : digester.Computes Hasher.Holds SecureHash.sha512.hash (2 ^ 125) where
  fresh := Hasher.holds_new
  update hold hlen := hold.update hlen
  finalize hold := hold.finalize

end Sha512

namespace Hmac

/-- The block of SHA-256: keys are padded to it, or hashed down to fit. -/
def block : ℕ := 64

/-- The block of SHA-512. -/
def block512 : ℕ := 128

/-- Authenticate `message` with `key`. -/
def hmacSha256 (key message : List UInt8) : Option (List UInt8) :=
  Sha256.digester.hmac block key message

/-- Authenticate `message` with `key`, over SHA-512. -/
def hmacSha512 (key message : List UInt8) : Option (List UInt8) :=
  Sha512.digester.hmac block512 key message

-- The keyed hash of `Hi There` under twenty bytes of `0x0b`.
example : hmacSha256 (List.replicate 20 0x0b) [0x48, 0x69, 0x20, 0x54, 0x68, 0x65, 0x72, 0x65] =
    some [0xb0, 0x34, 0x4c, 0x61, 0xd8, 0xdb, 0x38, 0x53, 0x5c, 0xa8, 0xaf, 0xce, 0xaf, 0x0b,
      0xf1, 0x2b, 0x88, 0x1d, 0xc2, 0x00, 0xc9, 0x83, 0x3d, 0xa7, 0x26, 0xe9, 0x37, 0x6c, 0x2e,
      0x32, 0xcf, 0xf7] := by
  decide +kernel

/-- **Streaming hashes and the keyed hashes are those of the standards.**  Nothing panics, and
whatever the pieces, the digest is that of the whole message; two pieces leave what one leaves,
from every number of bytes that wait; the padding ends a block with the length in bits, and its
loop ends; and the keyed hashes are the standard's for every key and message. -/
theorem standard_digests :
    (∀ parts : List (List UInt8), parts.flatten.length < 2 ^ 61 →
      Sha256.digester.pieces parts = some (SecureHash.sha256.hash parts.flatten) ∧
      Sha512.digester.pieces parts = some (SecureHash.sha512.hash parts.flatten)) ∧
    (∀ (h : Sha256.Hasher) (data more : List UInt8), h.buffered < 64 →
      (data ++ more).length < 2 ^ 61 →
      ∃ once twice, h.update (data ++ more) = some once ∧
        (h.update data >>= fun middle => middle.update more) = some twice ∧
        once.state = twice.state ∧ once.live = twice.live ∧ once.buffered = twice.buffered ∧
        once.lengthBits = twice.lengthBits) ∧
    (∀ (h : Sha512.Hasher) (data more : List UInt8), h.buffered < 128 →
      (data ++ more).length < 2 ^ 61 →
      ∃ once twice, h.update (data ++ more) = some once ∧
        (h.update data >>= fun middle => middle.update more) = some twice ∧
        once.state = twice.state ∧ once.live = twice.live ∧ once.buffered = twice.buffered ∧
        once.lengthBits = twice.lengthBits) ∧
    (∀ (parts : List (List UInt8)) (fuel : ℕ), parts.flatten.length < 2 ^ 61 → 64 ≤ fuel →
      ∃ h padded, parts.foldlM Sha256.Hasher.update .new = some h ∧ h.pad fuel = some padded ∧
        padded.buffered = 0 ∧
        padded.state = (blocks 64 (parts.flatten ++
          SecureHash.padBytes 4 parts.flatten.length)).foldl Sha256.compress .new ∧
        (parts.flatten ++ SecureHash.padBytes 4 parts.flatten.length).length % 64 = 0 ∧
        ofLe ((SecureHash.padBytes 4 parts.flatten.length).reverse.take 8) =
          8 * parts.flatten.length) ∧
    (∀ parts : List (List UInt8), parts.flatten.length < 2 ^ 61 →
      ∃ h padded, parts.foldlM Sha512.Hasher.update .new = some h ∧ h.pad = some padded ∧
        padded.buffered = 0 ∧
        padded.state = (blocks 128 (parts.flatten ++
          SecureHash.padBytes 8 parts.flatten.length)).foldl Sha512.compress .h0 ∧
        (parts.flatten ++ SecureHash.padBytes 8 parts.flatten.length).length % 128 = 0 ∧
        ofLe ((SecureHash.padBytes 8 parts.flatten.length).reverse.take 16) =
          8 * parts.flatten.length) ∧
    (∀ key message : List UInt8, key.length < 2 ^ 61 → message.length < 2 ^ 61 →
      hmacSha256 key message = some (SecureHash.hmac SecureHash.sha256.hash 64 key message) ∧
      hmacSha512 key message =
        some (SecureHash.hmac SecureHash.sha512.hash 128 key message)) := by
  have hwide : (2 : ℕ) ^ 61 < 2 ^ 125 := by decide
  have hpart : ∀ {parts : List (List UInt8)} {bound : ℕ}, parts.flatten.length < bound →
      ∀ part ∈ parts, part.length < bound := fun hlen part hmem =>
    Nat.lt_of_le_of_lt (List.sublist_flatten_of_mem hmem).length_le hlen
  refine ⟨fun parts hlen => ⟨?_, ?_⟩, fun h data more hin hlen => ?_,
    fun h data more hin hlen => ?_, fun parts fuel hlen hfuel => ?_, fun parts hlen => ?_,
    fun key message hkey hmessage => ⟨?_, ?_⟩⟩
  · exact Sha256.computes.pieces_eq hlen
  · exact Sha512.computes.pieces_eq (hlen.trans hwide)
  · exact Sha256.Hasher.update_append hin hlen
  · exact Sha512.Hasher.update_append hin (hlen.trans hwide)
  · obtain ⟨h, hrun, hold⟩ := Sha256.computes.updates Sha256.computes.fresh (hpart hlen)
    obtain ⟨padded, hpad, hempty, hstate⟩ := hold.pad hfuel
    exact ⟨h, padded, hrun, hpad, hempty, hstate,
      SecureHash.length_append_padBytes (n := 4) (by decide) parts.flatten,
      SecureHash.ofLe_padBytes (n := 4) (by omega)⟩
  · obtain ⟨h, hrun, hold⟩ :=
      Sha512.computes.updates Sha512.computes.fresh (hpart (hlen.trans hwide))
    obtain ⟨padded, hpad, hempty, hstate⟩ := hold.pad
    exact ⟨h, padded, hrun, hpad, hempty, hstate,
      SecureHash.length_append_padBytes (n := 8) (by decide) parts.flatten,
      SecureHash.ofLe_padBytes (n := 8) (by omega)⟩
  · exact Sha256.computes.hmac_eq (by decide) (fun m => by rw [Sha256.length_hash]; decide) hkey
      hmessage
  · exact Sha512.computes.hmac_eq (by decide) (fun m => by rw [Sha512.length_hash]; decide)
      (hkey.trans hwide) (hmessage.trans hwide)

/-- A message of three bytes in two pieces, and the keyed hash of it under a short key. -/
theorem standard_digests_abc :
    Sha256.digester.pieces [[0x61], [0x62, 0x63]] =
        some (SecureHash.sha256.hash [0x61, 0x62, 0x63]) ∧
      hmacSha256 [0x6b] [0x61, 0x62, 0x63] =
        some (SecureHash.hmac SecureHash.sha256.hash 64 [0x6b] [0x61, 0x62, 0x63]) :=
  ⟨(standard_digests.1 [[0x61], [0x62, 0x63]] (by decide)).1,
    (standard_digests.2.2.2.2.2 [0x6b] [0x61, 0x62, 0x63] (by decide) (by decide)).1⟩

end Hmac
