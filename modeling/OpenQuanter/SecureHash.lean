/-
# The secure hash standard

The hash functions of the standard over strings of bits, with words of 32 and of 64 bits, and
the keyed hash that is built on them.

* The message is padded to whole blocks with a one bit, the fewest zeros that leave room, and
  its length; each block is expanded to a schedule of words and mixed into eight words.
* The constants are the fractions of the square and cube roots of the first primes.
* A string of bytes may be padded and cut as bytes (`hash_eq`).

Nothing here names the program under verification.
-/
import OpenQuanter.BlockStream
import OpenQuanter.Bytes
import OpenQuanter.RootFractions

open BlockStream

namespace SecureHash

/-! ## Bits, words and bytes -/

/-- The bits of a word, highest first. -/
def wordBits {w : ℕ} (x : BitVec w) : List Bool := List.ofFn fun i : Fin w => x.getMsbD i

/-- The number whose binary digits these are, highest first. -/
def value (bits : List Bool) : ℕ := bits.foldl (fun v b => 2 * v + b.toNat) 0

/-- The word of some bits. -/
def word (w : ℕ) (bits : List Bool) : BitVec w := BitVec.ofNat w (value bits)

/-- The bits of a string of bytes. -/
def bits (data : List UInt8) : List Bool := data.flatMap fun b => wordBits b.toBitVec

/-- The bytes of a string of bits. -/
def octets (bs : List Bool) : List UInt8 := (blocks 8 bs).map fun b => ⟨word 8 b⟩

@[simp] theorem length_wordBits {w : ℕ} (x : BitVec w) : (wordBits x).length = w :=
  List.length_ofFn

@[simp] theorem value_nil : value [] = 0 := rfl

theorem value_concat (bs : List Bool) (b : Bool) :
    value (bs ++ [b]) = 2 * value bs + b.toNat := by
  rw [value, List.foldl_concat, ← value]

theorem value_append (bs cs : List Bool) :
    value (bs ++ cs) = value bs * 2 ^ cs.length + value cs := by
  induction cs using List.reverseRecOn with
  | nil => simp
  | append_singleton cs c ih =>
    rw [← List.append_assoc, value_concat, ih, value_concat, List.length_append,
      List.length_singleton, pow_succ]
    ring

/-- Digits are determined by their number. -/
theorem value_injective {bs cs : List Bool} (hlen : bs.length = cs.length)
    (h : value bs = value cs) : bs = cs := by
  induction bs using List.reverseRecOn generalizing cs with
  | nil => exact (List.length_eq_zero_iff.mp hlen.symm).symm
  | append_singleton bs b ih =>
    cases cs using List.reverseRecOn with
    | nil => simp at hlen
    | append_singleton cs c =>
      rw [value_concat, value_concat] at h
      have hb := Bool.toNat_le b
      have hc := Bool.toNat_le c
      have hlast : b = c := by
        cases b <;> cases c <;> simp at h ⊢ <;> omega
      have hrest : bs = cs := ih (by simpa using hlen) (by omega)
      rw [hlast, hrest]

theorem value_take_wordBits {w : ℕ} (x : BitVec w) {m : ℕ} (h : m ≤ w) :
    value ((wordBits x).take m) = x.toNat / 2 ^ (w - m) := by
  induction m with
  | zero => rw [List.take_zero, value_nil, Nat.sub_zero, Nat.div_eq_of_lt x.isLt]
  | succ m ih =>
    have hlt : m < (wordBits x).length := by
      rw [length_wordBits]
      omega
    have hbit : (wordBits x)[m] = x.getLsbD (w - (m + 1)) := by
      simp [wordBits, BitVec.getMsbD]
      congr 1
      omega
    have hshift : w - m = w - (m + 1) + 1 := by omega
    rw [List.take_succ_eq_append_getElem hlt, value_concat, ih (by omega), hbit,
      ← BitVec.testBit_toNat, Nat.testBit_eq_decide_div_mod_eq, hshift, pow_succ,
      ← Nat.div_div_eq_div_mul]
    rcases Nat.mod_two_eq_zero_or_one (x.toNat / 2 ^ (w - (m + 1))) with hmod | hmod <;>
      simp [hmod] <;> omega

@[simp] theorem value_wordBits {w : ℕ} (x : BitVec w) : value (wordBits x) = x.toNat := by
  have := value_take_wordBits x le_rfl
  rwa [List.take_of_length_le (by simp), Nat.sub_self, pow_zero, Nat.div_one] at this

@[simp] theorem bits_nil : bits [] = [] := rfl

@[simp] theorem bits_cons (b : UInt8) (data : List UInt8) :
    bits (b :: data) = wordBits b.toBitVec ++ bits data := List.flatMap_cons

theorem bits_append (data more : List UInt8) : bits (data ++ more) = bits data ++ bits more :=
  List.flatMap_append

theorem length_bits (data : List UInt8) : (bits data).length = 8 * data.length := by
  induction data with
  | nil => rfl
  | cons b data ih =>
    rw [bits_cons, List.length_append, length_wordBits, ih, List.length_cons]
    omega

theorem octets_bits (data : List UInt8) : octets (bits data) = data := by
  induction data with
  | nil => rfl
  | cons b data ih =>
    have hword : word 8 (wordBits b.toBitVec) = b.toBitVec := by
      rw [word, value_wordBits, BitVec.ofNat_toNat, BitVec.setWidth_eq]
    rw [octets] at ih
    rw [octets, bits_cons, (blocks_cons (by decide) (length_wordBits _) _).1, List.map_cons, ih,
      hword]

/-- The bits of some of the bytes. -/
theorem bits_take (data : List UInt8) (i : ℕ) :
    bits (data.take i) = (bits data).take (8 * i) := by
  induction data generalizing i with
  | nil => simp
  | cons b data ih =>
    cases i with
    | zero => simp
    | succ i =>
      have hfirst : (wordBits b.toBitVec).take (8 * (i + 1)) = wordBits b.toBitVec :=
        List.take_of_length_le (by rw [length_wordBits]; omega)
      rw [List.take_succ_cons, bits_cons, bits_cons, ih, List.take_append, hfirst,
        length_wordBits, Nat.mul_succ, Nat.add_sub_cancel]

theorem bits_drop (data : List UInt8) (i : ℕ) :
    bits (data.drop i) = (bits data).drop (8 * i) := by
  have hsplit : bits (data.take i) ++ bits (data.drop i) = bits data := by
    rw [← bits_append, List.take_append_drop]
  rw [bits_take] at hsplit
  have hboth := hsplit.trans (List.take_append_drop (8 * i) (bits data)).symm
  exact List.append_cancel_left hboth

/-- The number that bytes stand for, the first one the highest. -/
theorem value_bits (data : List UInt8) : value (bits data) = ofLe data.reverse := by
  induction data using List.reverseRecOn with
  | nil => rfl
  | append_singleton data b ih =>
    rw [bits_append, value_append, ih, bits_cons, bits_nil, List.append_nil, length_wordBits,
      value_wordBits, List.reverse_append, List.reverse_singleton, List.singleton_append, ofLe]
    change _ + b.toNat = _
    omega

/-- The bytes of a number, the highest first. -/
def beBytes (n x : ℕ) : List UInt8 := (toLe n x).reverse

@[simp] theorem length_beBytes (n x : ℕ) : (beBytes n x).length = n := by
  rw [beBytes, List.length_reverse, length_toLe]

/-- Only the low bytes count. -/
theorem beBytes_mod (n x : ℕ) : beBytes n (x % 256 ^ n) = beBytes n x := by
  have hlow := toLe_ofLe (toLe n x)
  rw [length_toLe, ofLe_toLe] at hlow
  rw [beBytes, hlow, ← beBytes]

theorem bits_beBytes (n x : ℕ) : bits (beBytes n x) = wordBits (BitVec.ofNat (8 * n) x) := by
  apply value_injective
  · rw [length_bits, length_beBytes, length_wordBits]
  · rw [value_bits, beBytes, List.reverse_reverse, ofLe_toLe, value_wordBits,
      BitVec.toNat_ofNat, pow_mul]
    rfl

/-! ## The functions of the standard -/

/-- The eight words that are worked on. -/
structure Working (w : ℕ) where
  a : BitVec w
  b : BitVec w
  c : BitVec w
  d : BitVec w
  e : BitVec w
  f : BitVec w
  g : BitVec w
  h : BitVec w

namespace Working

variable {w : ℕ}

def words (s : Working w) : List (BitVec w) := [s.a, s.b, s.c, s.d, s.e, s.f, s.g, s.h]

def add (s t : Working w) : Working w :=
  ⟨s.a + t.a, s.b + t.b, s.c + t.c, s.d + t.d, s.e + t.e, s.f + t.f, s.g + t.g, s.h + t.h⟩

theorem words_injective {s t : Working w} (h : s.words = t.words) : s = t := by
  cases s
  cases t
  simpa [words] using h

end Working

/-- One hash function of the family. -/
structure Variant (w : ℕ) where
  bigSigma0 : BitVec w → BitVec w
  bigSigma1 : BitVec w → BitVec w
  smallSigma0 : BitVec w → BitVec w
  smallSigma1 : BitVec w → BitVec w
  rounds : ℕ
  k : ℕ → BitVec w
  init : Working w

section Functions

variable {w : ℕ}

def ch (x y z : BitVec w) : BitVec w := (x &&& y) ^^^ (~~~x &&& z)

def maj (x y z : BitVec w) : BitVec w := (x &&& y) ^^^ (x &&& z) ^^^ (y &&& z)

/-- The fewest zero bits that leave room for a length of two words in the last block. -/
noncomputable def padZeros (w l : ℕ) : ℕ := sInf {k | l + 1 + k ≡ 14 * w [MOD 16 * w]}

/-- The message, a one bit, zeros, and the length in two words. -/
noncomputable def padded (w : ℕ) (m : List Bool) : List Bool :=
  m ++ true :: (List.replicate (padZeros w m.length) false ++
    wordBits (BitVec.ofNat (2 * w) m.length))

namespace Variant

variable (v : Variant w)

/-- The words of a block, and those made of them. -/
def schedule (m : ℕ → BitVec w) (t : ℕ) : BitVec w :=
  if t < 16 then m t
  else
    v.smallSigma1 (schedule m (t - 2)) + schedule m (t - 7) +
      v.smallSigma0 (schedule m (t - 15)) + schedule m (t - 16)
termination_by t
decreasing_by all_goals omega

/-- One round. -/
def round (s : Working w) (kt wt : BitVec w) : Working w :=
  let t1 := s.h + v.bigSigma1 s.e + ch s.e s.f s.g + kt + wt
  let t2 := v.bigSigma0 s.a + maj s.a s.b s.c
  ⟨t1 + t2, s.a, s.b, s.c, s.d + t1, s.e, s.f, s.g⟩

/-- One block. -/
def hashBlock (h : Working w) (block : List Bool) : Working w :=
  let m := fun t => word w ((block.drop (w * t)).take w)
  h.add ((List.range v.rounds).foldl (fun s t => v.round s (v.k t) (v.schedule m t)) h)

/-- The digest of a string of bits. -/
noncomputable def digest (m : List Bool) : List Bool :=
  ((blocks (16 * w) (padded w m)).foldl v.hashBlock v.init).words.flatMap wordBits

/-- The digest of a string of bytes, as bytes. -/
noncomputable def hash (data : List UInt8) : List UInt8 := octets (v.digest (bits data))

end Variant

end Functions

/-- The word of the fraction of a root of a prime. -/
noncomputable def rootWord (w n t : ℕ) : BitVec w :=
  BitVec.ofNat w (fracRoot n w (Nat.nth Nat.Prime t))

/-- The fractions of the square roots of the first eight primes. -/
noncomputable def rootInit (w : ℕ) : Working w :=
  ⟨rootWord w 2 0, rootWord w 2 1, rootWord w 2 2, rootWord w 2 3, rootWord w 2 4, rootWord w 2 5,
    rootWord w 2 6, rootWord w 2 7⟩

/-- A table of the fractions of roots, checked entry by entry. -/
theorem rootWord_table {w n : ℕ} (hn : n ≠ 0) {table : List (BitVec w)}
    (hlen : table.length ≤ primes.length)
    (h : ((primes.zip (table.map BitVec.toNat)).all fun pv => isFracRoot n w pv.1 pv.2) = true) :
    table = (List.range table.length).map (rootWord w n) := by
  apply List.ext_getElem (by rw [List.length_map, List.length_range])
  intro t ht ht'
  have hroot := getElem_table hn (by rwa [List.length_map]) h t (by rwa [List.length_map])
  rw [List.getElem_map] at hroot
  rw [List.getElem_map, List.getElem_range, rootWord, ← hroot, BitVec.ofNat_toNat,
    BitVec.setWidth_eq]

/-- SHA-256. -/
noncomputable def sha256 : Variant 32 where
  bigSigma0 x := x.rotateRight 2 ^^^ x.rotateRight 13 ^^^ x.rotateRight 22
  bigSigma1 x := x.rotateRight 6 ^^^ x.rotateRight 11 ^^^ x.rotateRight 25
  smallSigma0 x := x.rotateRight 7 ^^^ x.rotateRight 18 ^^^ x >>> 3
  smallSigma1 x := x.rotateRight 17 ^^^ x.rotateRight 19 ^^^ x >>> 10
  rounds := 64
  k := rootWord 32 3
  init := rootInit 32

/-- SHA-512. -/
noncomputable def sha512 : Variant 64 where
  bigSigma0 x := x.rotateRight 28 ^^^ x.rotateRight 34 ^^^ x.rotateRight 39
  bigSigma1 x := x.rotateRight 14 ^^^ x.rotateRight 18 ^^^ x.rotateRight 41
  smallSigma0 x := x.rotateRight 1 ^^^ x.rotateRight 8 ^^^ x >>> 7
  smallSigma1 x := x.rotateRight 19 ^^^ x.rotateRight 61 ^^^ x >>> 6
  rounds := 80
  k := rootWord 64 3
  init := rootInit 64

/-- The keyed hash over a hash of blocks of `size` bytes. -/
def hmac (hash : List UInt8 → List UInt8) (size : ℕ) (key text : List UInt8) : List UInt8 :=
  let key := if size < key.length then hash key else key
  let key := key ++ List.replicate (size - key.length) 0
  hash (key.map (fun b => b ^^^ 0x5c) ++ hash (key.map (fun b => b ^^^ 0x36) ++ text))

/-! ## Padding bytes -/

section Bytes

variable {w n : ℕ}

/-- The zero bytes behind a one bit that fill up a block. -/
def zeroBytes (n l : ℕ) : ℕ := (14 * n + (16 * n - (l + 1) % (16 * n))) % (16 * n)

/-- The bytes behind a string of `l` bytes. -/
def padBytes (n l : ℕ) : List UInt8 :=
  0x80 :: (List.replicate (zeroBytes n l) 0 ++ beBytes (2 * n) (8 * l))

theorem zeroBytes_lt (hn : 0 < n) (l : ℕ) : zeroBytes n l < 16 * n :=
  Nat.mod_lt _ (by omega)

theorem add_zeroBytes (hn : 0 < n) (l : ℕ) : l + 1 + zeroBytes n l ≡ 14 * n [MOD 16 * n] := by
  have hlt : (l + 1) % (16 * n) < 16 * n := Nat.mod_lt _ (by omega)
  calc l + 1 + zeroBytes n l
      ≡ (l + 1) % (16 * n) + (14 * n + (16 * n - (l + 1) % (16 * n))) [MOD 16 * n] :=
        (Nat.mod_modEq _ _).symm.add (Nat.mod_modEq _ _)
    _ = 14 * n + 16 * n := by omega
    _ ≡ 14 * n [MOD 16 * n] := Nat.add_modEq_right

/-- The fewest zeros of a string of whole bytes: seven that fill up the byte of the one bit, and
whole bytes. -/
theorem padZeros_eq (hn : 0 < n) (l : ℕ) :
    padZeros (8 * n) (8 * l) = 7 + 8 * zeroBytes n l := by
  have hlt := zeroBytes_lt hn l
  have hmem : 8 * l + 1 + (7 + 8 * zeroBytes n l) ≡ 14 * (8 * n) [MOD 16 * (8 * n)] := by
    have hscaled := (add_zeroBytes hn l).mul_left' 8
    have hl : 8 * (l + 1 + zeroBytes n l) = 8 * l + 1 + (7 + 8 * zeroBytes n l) := by omega
    have hr : 8 * (14 * n) = 14 * (8 * n) := by omega
    have hm : 8 * (16 * n) = 16 * (8 * n) := by omega
    rwa [hl, hr, hm] at hscaled
  refine IsLeast.csInf_eq ⟨hmem, fun k hk => ?_⟩
  -- two solutions differ by whole blocks, and this one is less than a block
  have hsame : k ≡ 7 + 8 * zeroBytes n l [MOD 16 * (8 * n)] :=
    Nat.ModEq.add_left_cancel' (8 * l + 1) (hk.trans hmem.symm)
  calc 7 + 8 * zeroBytes n l = (7 + 8 * zeroBytes n l) % (16 * (8 * n)) :=
        (Nat.mod_eq_of_lt (by omega)).symm
    _ = k % (16 * (8 * n)) := hsame.symm
    _ ≤ k := Nat.mod_le _ _

theorem bits_replicate_zero (k : ℕ) :
    bits (List.replicate k 0) = List.replicate (8 * k) false := by
  induction k with
  | zero => rfl
  | succ k ih =>
    have hzero : wordBits (0 : UInt8).toBitVec = List.replicate 8 false := by decide
    rw [List.replicate_succ, bits_cons, ih, hzero, ← List.replicate_add, Nat.mul_succ,
      Nat.add_comm]

theorem bits_padBytes (hn : 0 < n) (data : List UInt8) :
    bits (data ++ padBytes n data.length) = padded (8 * n) (bits data) := by
  have hone : wordBits (0x80 : UInt8).toBitVec = true :: List.replicate 7 false := by decide
  have hlen : 8 * (2 * n) = 2 * (8 * n) := by omega
  rw [bits_append, padBytes, bits_cons, bits_append, bits_replicate_zero, bits_beBytes, hlen,
    padded, length_bits, padZeros_eq hn, hone, List.replicate_add]
  simp

/-- A padded string of bytes is whole blocks. -/
theorem length_append_padBytes (hn : 0 < n) (data : List UInt8) :
    (data ++ padBytes n data.length).length % (16 * n) = 0 := by
  have hmod : (data.length + 1 + zeroBytes n data.length + 2 * n) % (16 * n) =
      (14 * n + 2 * n) % (16 * n) := (add_zeroBytes hn data.length).add_right _
  have hsum : (data ++ padBytes n data.length).length =
      data.length + 1 + zeroBytes n data.length + 2 * n := by
    simp [padBytes]
    omega
  have hwhole : 14 * n + 2 * n = 16 * n := by omega
  rw [hsum, hmod, hwhole, Nat.mod_self]

/-- The last bytes are the length in bits, as long as it fits. -/
theorem ofLe_padBytes {l : ℕ} (h : 8 * l < 256 ^ (2 * n)) :
    ofLe ((padBytes n l).reverse.take (2 * n)) = 8 * l := by
  have hlast : (padBytes n l).reverse =
      toLe (2 * n) (8 * l) ++ (0x80 :: List.replicate (zeroBytes n l) 0).reverse := by
    rw [padBytes, ← List.cons_append, List.reverse_append, beBytes, List.reverse_reverse]
  rw [hlast, List.take_left' (length_toLe _ _), ofLe_toLe_of_lt h]

/-- One block of bytes. -/
def Variant.hashBytes (v : Variant w) (h : Working w) (block : List UInt8) : Working w :=
  v.hashBlock h (bits block)

/-- **Bytes for bits.**  A string of bytes is padded, cut and written in bytes. -/
theorem Variant.hash_eq (hn : 0 < n) (v : Variant (8 * n)) (data : List UInt8) :
    v.hash data = ((blocks (16 * n) (data ++ padBytes n data.length)).foldl v.hashBytes
      v.init).words.flatMap fun x => beBytes n x.toNat := by
  have hwidth : 8 * (16 * n) = 16 * (8 * n) := by omega
  have hblocks : blocks (16 * (8 * n)) (padded (8 * n) (bits data)) =
      (blocks (16 * n) (data ++ padBytes n data.length)).map bits := by
    have hpos : 0 < 16 * n := by omega
    have hcut := blocks_flatMap hpos (by decide : 0 < 8)
      (fun b : UInt8 => length_wordBits b.toBitVec) (data ++ padBytes n data.length)
    rw [← bits_padBytes hn, ← hwidth]
    exact hcut
  have hwords : ∀ xs : List (BitVec (8 * n)),
      xs.flatMap wordBits = bits (xs.flatMap fun x => beBytes n x.toNat) := by
    intro xs
    induction xs with
    | nil => rfl
    | cons x xs ih =>
      rw [List.flatMap_cons, List.flatMap_cons, bits_append, ih, bits_beBytes,
        BitVec.ofNat_toNat, BitVec.setWidth_eq]
  have hfold : v.hashBytes = fun h block => v.hashBlock h (bits block) := rfl
  rw [Variant.hash, Variant.digest, hwords, octets_bits, hblocks]
  rw [List.foldl_map, hfold]

end Bytes

/-! ## Schedules and tables as lists -/

/-- A list of words that is extended by the word which follows from sixteen others is the
schedule. -/
theorem Variant.map_schedule {w : ℕ} {α : Type*} (v : Variant w) (m : ℕ → BitVec w)
    (toWord : α → BitVec w) (first : ℕ → α) (next : List α → α) (zero : α)
    (hfirst : ∀ t < 16, toWord (first t) = m t)
    (hnext : ∀ ws : List α, toWord (next ws) =
      v.smallSigma1 (toWord (ws.getD (ws.length - 2) zero)) +
        toWord (ws.getD (ws.length - 7) zero) +
        v.smallSigma0 (toWord (ws.getD (ws.length - 15) zero)) +
        toWord (ws.getD (ws.length - 16) zero)) (k : ℕ) :
    ((fun ws => ws ++ [next ws])^[k] ((List.range 16).map first)).map toWord =
      (List.range (16 + k)).map (v.schedule m) := by
  induction k with
  | zero =>
    rw [Function.iterate_zero_apply, List.map_map]
    refine List.map_congr_left fun t ht => ?_
    have hlt : t < 16 := List.mem_range.mp ht
    rw [Function.comp_apply, hfirst t hlt, schedule, if_pos hlt]
  | succ k ih =>
    rw [Function.iterate_succ_apply']
    generalize (fun ws => ws ++ [next ws])^[k] ((List.range 16).map first) = ws at ih
    have hlen : ws.length = 16 + k := by
      have := congrArg List.length ih
      simpa using this
    have hback : ∀ back, 0 < back → back ≤ 16 →
        toWord (ws.getD (16 + k - back) zero) = v.schedule m (16 + k - back) := by
      intro back hpos hle
      have hlt : 16 + k - back < ws.length := by omega
      have hget := List.getElem_of_eq ih (i := 16 + k - back) (by rwa [List.length_map])
      rw [List.getElem_map, List.getElem_map, List.getElem_range] at hget
      rw [List.getD_eq_getElem _ _ hlt, hget]
    have hword : toWord (next ws) = v.schedule m (16 + k) := by
      have hlate : ¬ 16 + k < 16 := by omega
      rw [hnext, hlen, hback 2 (by omega) (by omega), hback 7 (by omega) (by omega),
        hback 15 (by omega) (by omega), hback 16 (by omega) (by omega),
        schedule.eq_1 v m (16 + k), if_neg hlate]
    rw [List.map_append, List.map_singleton, ih, hword, ← Nat.add_assoc, List.range_succ,
      List.map_append, List.map_singleton]

/-- One block of bytes, with its schedule and the constants as lists. -/
theorem Variant.hashBytes_eq {n : ℕ} (v : Variant (8 * n)) (h : Working (8 * n))
    {block : List UInt8} {table sched : List (BitVec (8 * n))}
    (htable : table = (List.range v.rounds).map v.k)
    (hsched : sched = (List.range v.rounds).map (v.schedule fun t =>
      BitVec.ofNat (8 * n) (ofLe ((block.drop (n * t)).take n).reverse))) :
    v.hashBytes h block =
      h.add ((table.zip sched).foldl (fun s kw => v.round s kw.1 kw.2) h) := by
  have hword : ∀ t, word (8 * n) (((bits block).drop (8 * n * t)).take (8 * n)) =
      BitVec.ofNat (8 * n) (ofLe ((block.drop (n * t)).take n).reverse) := by
    intro t
    rw [Nat.mul_assoc, ← bits_drop, ← bits_take, word, value_bits]
  rw [hashBytes, hashBlock, htable, hsched, List.zip_map', List.foldl_map]
  simp only [hword]

end SecureHash
