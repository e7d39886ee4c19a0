/-
# SHA-256 (`oq-hash/src/sha256.rs`)

The digest that gives a run's inputs their identity, of bytes that are there at once, in lower
case hexadecimal digits.
-/
import Mathlib

namespace Sha256

/-- The constants of the rounds. -/
def k : List UInt32 :=
  [0x428a2f98, 0x71374491, 0xb5c0fbcf, 0xe9b5dba5, 0x3956c25b, 0x59f111f1, 0x923f82a4, 0xab1c5ed5,
    0xd807aa98, 0x12835b01, 0x243185be, 0x550c7dc3, 0x72be5d74, 0x80deb1fe, 0x9bdc06a7, 0xc19bf174,
    0xe49b69c1, 0xefbe4786, 0x0fc19dc6, 0x240ca1cc, 0x2de92c6f, 0x4a7484aa, 0x5cb0a9dc, 0x76f988da,
    0x983e5152, 0xa831c66d, 0xb00327c8, 0xbf597fc7, 0xc6e00bf3, 0xd5a79147, 0x06ca6351, 0x14292967,
    0x27b70a85, 0x2e1b2138, 0x4d2c6dfc, 0x53380d13, 0x650a7354, 0x766a0abb, 0x81c2c92e, 0x92722c85,
    0xa2bfe8a1, 0xa81a664b, 0xc24b8b70, 0xc76c51a3, 0xd192e819, 0xd6990624, 0xf40e3585, 0x106aa070,
    0x19a4c116, 0x1e376c08, 0x2748774c, 0x34b0bcb5, 0x391c0cb3, 0x4ed8aa4a, 0x5b9cca4f, 0x682e6ff3,
    0x748f82ee, 0x78a5636f, 0x84c87814, 0x8cc70208, 0x90befffa, 0xa4506ceb, 0xbef9a3f7, 0xc67178f2]

/-- The eight words of the state. -/
structure State where
  a : UInt32
  b : UInt32
  c : UInt32
  d : UInt32
  e : UInt32
  f : UInt32
  g : UInt32
  h : UInt32
  deriving DecidableEq, Repr

namespace State

def new : State :=
  ⟨0x6a09e667, 0xbb67ae85, 0x3c6ef372, 0xa54ff53a, 0x510e527f, 0x9b05688c, 0x1f83d9ab, 0x5be0cd19⟩

def words (s : State) : List UInt32 := [s.a, s.b, s.c, s.d, s.e, s.f, s.g, s.h]

/-- The words of two states, added. -/
def add (s t : State) : State :=
  ⟨s.a + t.a, s.b + t.b, s.c + t.c, s.d + t.d, s.e + t.e, s.f + t.f, s.g + t.g, s.h + t.h⟩

end State

def rotateRight (x n : UInt32) : UInt32 := (x >>> n) ||| (x <<< (32 - n))

/-- The word that four bytes stand for, the first one the highest. -/
def fromBe (bytes : List UInt8) : UInt32 :=
  bytes.foldl (fun v b => v * 256 + b.toUInt32) 0

/-- The word after sixteen others. -/
def nextWord (w : List UInt32) : UInt32 :=
  let at_ := fun back => w.getD (w.length - back) 0
  let s0 := rotateRight (at_ 15) 7 ^^^ rotateRight (at_ 15) 18 ^^^ (at_ 15 >>> 3)
  let s1 := rotateRight (at_ 2) 17 ^^^ rotateRight (at_ 2) 19 ^^^ (at_ 2 >>> 10)
  at_ 16 + s0 + at_ 7 + s1

/-- The words of a block, and those made of them. -/
def schedule (block : List UInt8) : List UInt32 :=
  let first := (List.range 16).map fun i => fromBe ((block.drop (4 * i)).take 4)
  Nat.iterate (fun w => w ++ [nextWord w]) 48 first

/-- One round. -/
def round (s : State) (kw : UInt32 × UInt32) : State :=
  let s1 := rotateRight s.e 6 ^^^ rotateRight s.e 11 ^^^ rotateRight s.e 25
  let ch := (s.e &&& s.f) ^^^ (~~~s.e &&& s.g)
  let temp1 := s.h + s1 + ch + kw.1 + kw.2
  let s0 := rotateRight s.a 2 ^^^ rotateRight s.a 13 ^^^ rotateRight s.a 22
  let maj := (s.a &&& s.b) ^^^ (s.a &&& s.c) ^^^ (s.b &&& s.c)
  ⟨temp1 + (s0 + maj), s.a, s.b, s.c, s.d + temp1, s.e, s.f, s.g⟩

def compress (s : State) (block : List UInt8) : State :=
  s.add ((k.zip (schedule block)).foldl round s)

/-- The data, a one bit, zeros, and the length in bits. -/
def padded (data : List UInt8) : List UInt8 :=
  let bits := UInt64.ofNat data.length * 8
  data ++ (0x80 :: List.replicate ((119 - data.length % 64) % 64) 0 ++
    (List.range 8).map fun i => (bits >>> UInt64.ofNat (56 - 8 * i)).toUInt8)

/-- The blocks of some data, that many of them. -/
def blocks : Nat → List UInt8 → List (List UInt8)
  | 0, _ => []
  | n + 1, data => data.take 64 :: blocks n (data.drop 64)

/-- The digest. -/
def digest (data : List UInt8) : List UInt8 :=
  let message := padded data
  let s := (blocks (message.length / 64) message).foldl compress .new
  s.words.flatMap fun (word : UInt32) =>
    [(word >>> 24).toUInt8, (word >>> 16).toUInt8, (word >>> 8).toUInt8, word.toUInt8]

/-- The hexadecimal digits. -/
def hexDigits : List Char :=
  ['0', '1', '2', '3', '4', '5', '6', '7', '8', '9', 'a', 'b', 'c', 'd', 'e', 'f']

/-- Lower-case hex encoding. -/
def toHex (bytes : List UInt8) : List Char :=
  bytes.flatMap fun (byte : UInt8) =>
    [hexDigits.getD (byte >>> 4).toNat '0', hexDigits.getD (byte &&& 0x0f).toNat '0']

/-- Hex-encoded SHA-256 of some data. -/
def sha256Hex (data : List UInt8) : List Char := toHex (digest data)

-- The standard vector of the empty message.
example : sha256Hex [] =
    "e3b0c44298fc1c149afbf4c8996fb92427ae41e4649b934ca495991b7852b855".toList := by
  decide +kernel

theorem getD_hexDigits_mem (i : Nat) : hexDigits.getD i '0' ∈ hexDigits := by
  by_cases h : i < hexDigits.length
  · rw [List.getD_eq_getElem _ _ h]
    exact List.getElem_mem h
  · rw [List.getD_eq_default _ _ (Nat.not_lt.mp h)]
    decide

/-- A digest is written in hexadecimal digits. -/
theorem mem_hexDigits_of_mem {data : List UInt8} {c : Char} (h : c ∈ sha256Hex data) :
    c ∈ hexDigits := by
  obtain ⟨byte, -, hc⟩ := List.mem_flatMap.mp h
  rcases List.mem_cons.mp hc with rfl | hc
  · exact getD_hexDigits_mem _
  · rw [List.mem_singleton.mp hc]
    exact getD_hexDigits_mem _

end Sha256
