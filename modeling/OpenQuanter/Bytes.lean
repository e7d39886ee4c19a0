/-
# Little-endian bytes

Fixed-width little-endian integers in byte lists: writing them, reading them back
at an offset, and skipping them.  Reading is total: an offset past the end gives
`none`.

Nothing here names the program under verification.
-/
import Mathlib

/-- The low `w` bytes of a number, least significant first. -/
def toLe : Nat → Nat → List UInt8
  | 0, _ => []
  | w + 1, n => UInt8.ofNat n :: toLe w (n / 256)

/-- The number a little-endian byte list stands for. -/
def ofLe : List UInt8 → Nat
  | [] => 0
  | b :: rest => b.toNat + 256 * ofLe rest

@[simp] theorem length_toLe (w n : Nat) : (toLe w n).length = w := by
  induction w generalizing n with
  | zero => rfl
  | succ w ih => simp [toLe, ih]

/-- Writing and reading back keeps what fits. -/
theorem ofLe_toLe (w n : Nat) : ofLe (toLe w n) = n % 256 ^ w := by
  induction w generalizing n with
  | zero => simp [toLe, ofLe, Nat.mod_one]
  | succ w ih =>
    have hbyte : (UInt8.ofNat n).toNat = n % 256 := by simp
    rw [toLe, ofLe, ih, hbyte, pow_succ, Nat.mul_comm (256 ^ w) 256, Nat.mod_mul]

theorem ofLe_toLe_of_lt {w n : Nat} (h : n < 256 ^ w) : ofLe (toLe w n) = n := by
  rw [ofLe_toLe, Nat.mod_eq_of_lt h]

theorem ofLe_lt (bytes : List UInt8) : ofLe bytes < 256 ^ bytes.length := by
  induction bytes with
  | nil => simp [ofLe]
  | cons b rest ih =>
    have hbyte : b.toNat < 256 := b.toNat_lt
    rw [ofLe, List.length_cons, pow_succ]
    omega

/-- Reading and writing back keeps the bytes. -/
theorem toLe_ofLe (bytes : List UInt8) : toLe bytes.length (ofLe bytes) = bytes := by
  induction bytes with
  | nil => rfl
  | cons b rest ih =>
    have hbyte : b.toNat < 256 := b.toNat_lt
    have hfirst : UInt8.ofNat (b.toNat + 256 * ofLe rest) = b := by
      apply UInt8.toNat_inj.mp
      rw [UInt8.toNat_ofNat']
      omega
    have hrest : (b.toNat + 256 * ofLe rest) / 256 = ofLe rest := by omega
    rw [List.length_cons, ofLe, toLe, hfirst, hrest, ih]

/-! ## Reading at an offset -/

/-- `width` bytes from `at_` on, if they are there. -/
def slice (bytes : List UInt8) (at_ width : Nat) : Option (List UInt8) :=
  if at_ + width ≤ bytes.length then some ((bytes.drop at_).take width) else none

/-- A field is read back where it was written. -/
theorem slice_append_left (xs ys : List UInt8) : slice (xs ++ ys) 0 xs.length = some xs := by
  unfold slice
  rw [if_pos (by simp)]
  simp

/-- Skipping what comes before. -/
theorem slice_append_right (xs ys : List UInt8) (i w : Nat) :
    slice (xs ++ ys) (i + xs.length) w = slice ys i w := by
  unfold slice
  have hdrop : (xs ++ ys).drop (i + xs.length) = ys.drop i := by
    rw [Nat.add_comm, ← List.drop_drop, List.drop_left]
  by_cases h : i + w ≤ ys.length
  · rw [if_pos h, if_pos (by simp; omega), hdrop]
  · rw [if_neg h, if_neg (by simp; omega)]

/-- What is read before the end does not depend on what follows. -/
theorem slice_append_of_le {xs : List UInt8} {i w : Nat} (h : i + w ≤ xs.length)
    (ys : List UInt8) : slice (xs ++ ys) i w = slice xs i w := by
  unfold slice
  rw [if_pos (by simp; omega), if_pos h, List.drop_append_of_le_length (by omega),
    List.take_append_of_le_length (by simp; omega)]

@[simp] theorem slice_cons_succ (b : UInt8) (bytes : List UInt8) (i w : Nat) :
    slice (b :: bytes) (i + 1) w = slice bytes i w :=
  slice_append_right [b] bytes i w

/-! ## Integers -/

def u16Bytes (v : UInt16) : List UInt8 := toLe 2 v.toNat
def u32Bytes (v : UInt32) : List UInt8 := toLe 4 v.toNat
def u64Bytes (v : UInt64) : List UInt8 := toLe 8 v.toNat
def i64Bytes (v : Int64) : List UInt8 := u64Bytes v.toUInt64

def u16At (bytes : List UInt8) (at_ : Nat) : Option UInt16 :=
  (slice bytes at_ 2).map (fun b => UInt16.ofNat (ofLe b))

def u32At (bytes : List UInt8) (at_ : Nat) : Option UInt32 :=
  (slice bytes at_ 4).map (fun b => UInt32.ofNat (ofLe b))

def u64At (bytes : List UInt8) (at_ : Nat) : Option UInt64 :=
  (slice bytes at_ 8).map (fun b => UInt64.ofNat (ofLe b))

def i64At (bytes : List UInt8) (at_ : Nat) : Option Int64 :=
  (u64At bytes at_).map UInt64.toInt64

@[simp] theorem length_u16Bytes (v : UInt16) : (u16Bytes v).length = 2 := length_toLe _ _
@[simp] theorem length_u32Bytes (v : UInt32) : (u32Bytes v).length = 4 := length_toLe _ _
@[simp] theorem length_u64Bytes (v : UInt64) : (u64Bytes v).length = 8 := length_toLe _ _
@[simp] theorem length_i64Bytes (v : Int64) : (i64Bytes v).length = 8 := length_toLe _ _

/-! ### Reading what was written

A reader unfolds to a slice, the slice is found by skipping the fields before it,
and the bytes of a field stand for its value. -/

@[simp] theorem ofNat_ofLe_u16Bytes (v : UInt16) : UInt16.ofNat (ofLe (u16Bytes v)) = v := by
  have hback : ofLe (u16Bytes v) = v.toNat := ofLe_toLe_of_lt v.toNat_lt
  rw [hback, UInt16.ofNat_toNat]

@[simp] theorem ofNat_ofLe_u32Bytes (v : UInt32) : UInt32.ofNat (ofLe (u32Bytes v)) = v := by
  have hback : ofLe (u32Bytes v) = v.toNat := ofLe_toLe_of_lt v.toNat_lt
  rw [hback, UInt32.ofNat_toNat]

@[simp] theorem ofNat_ofLe_u64Bytes (v : UInt64) : UInt64.ofNat (ofLe (u64Bytes v)) = v := by
  have hback : ofLe (u64Bytes v) = v.toNat := ofLe_toLe_of_lt v.toNat_lt
  rw [hback, UInt64.ofNat_toNat]

@[simp] theorem ofNat_ofLe_i64Bytes (v : Int64) : Int64.ofNat (ofLe (i64Bytes v)) = v := by
  rw [← UInt64.toInt64_ofNat', i64Bytes, ofNat_ofLe_u64Bytes, Int64.toInt64_toUInt64]

theorem u32Bytes_inj {v w : UInt32} : u32Bytes v = u32Bytes w ↔ v = w := by
  constructor
  · intro h
    rw [← ofNat_ofLe_u32Bytes v, h, ofNat_ofLe_u32Bytes]
  · rintro rfl
    rfl

theorem u64Bytes_inj {v w : UInt64} : u64Bytes v = u64Bytes w ↔ v = w := by
  constructor
  · intro h
    rw [← ofNat_ofLe_u64Bytes v, h, ofNat_ofLe_u64Bytes]
  · rintro rfl
    rfl

theorem i64Bytes_inj {v w : Int64} : i64Bytes v = i64Bytes w ↔ v = w := by
  constructor
  · intro h
    rw [← ofNat_ofLe_i64Bytes v, h, ofNat_ofLe_i64Bytes]
  · rintro rfl
    rfl

@[simp] theorem slice_u16Bytes (v : UInt16) (rest : List UInt8) :
    slice (u16Bytes v ++ rest) 0 2 = some (u16Bytes v) :=
  slice_append_left (u16Bytes v) rest

@[simp] theorem slice_u32Bytes (v : UInt32) (rest : List UInt8) :
    slice (u32Bytes v ++ rest) 0 4 = some (u32Bytes v) :=
  slice_append_left (u32Bytes v) rest

@[simp] theorem slice_u64Bytes (v : UInt64) (rest : List UInt8) :
    slice (u64Bytes v ++ rest) 0 8 = some (u64Bytes v) :=
  slice_append_left (u64Bytes v) rest

@[simp] theorem slice_i64Bytes (v : Int64) (rest : List UInt8) :
    slice (i64Bytes v ++ rest) 0 8 = some (i64Bytes v) :=
  slice_append_left (i64Bytes v) rest

/-! ### Skipping what was written -/

@[simp] theorem slice_u16Bytes_add (v : UInt16) (rest : List UInt8) (i w : Nat) :
    slice (u16Bytes v ++ rest) (i + 2) w = slice rest i w :=
  slice_append_right (u16Bytes v) rest i w

@[simp] theorem slice_u32Bytes_add (v : UInt32) (rest : List UInt8) (i w : Nat) :
    slice (u32Bytes v ++ rest) (i + 4) w = slice rest i w :=
  slice_append_right (u32Bytes v) rest i w

@[simp] theorem slice_u64Bytes_add (v : UInt64) (rest : List UInt8) (i w : Nat) :
    slice (u64Bytes v ++ rest) (i + 8) w = slice rest i w :=
  slice_append_right (u64Bytes v) rest i w

@[simp] theorem slice_i64Bytes_add (v : Int64) (rest : List UInt8) (i w : Nat) :
    slice (i64Bytes v ++ rest) (i + 8) w = slice rest i w :=
  slice_append_right (i64Bytes v) rest i w

/-! ### Reading the last field -/

@[simp] theorem slice_u32Bytes_nil (v : UInt32) : slice (u32Bytes v) 0 4 = some (u32Bytes v) := by
  have h := slice_u32Bytes v []
  rwa [List.append_nil] at h

@[simp] theorem slice_u64Bytes_nil (v : UInt64) : slice (u64Bytes v) 0 8 = some (u64Bytes v) := by
  have h := slice_u64Bytes v []
  rwa [List.append_nil] at h

@[simp] theorem slice_i64Bytes_nil (v : Int64) : slice (i64Bytes v) 0 8 = some (i64Bytes v) := by
  have h := slice_i64Bytes v []
  rwa [List.append_nil] at h

/-! ### Reading a byte -/

@[simp] theorem getElem?_u32Bytes_add (v : UInt32) (rest : List UInt8) (i : Nat) :
    (u32Bytes v ++ rest)[i + 4]? = rest[i]? := by
  rw [List.getElem?_append_right (by simp), length_u32Bytes, Nat.add_sub_cancel]

@[simp] theorem getElem?_u64Bytes_add (v : UInt64) (rest : List UInt8) (i : Nat) :
    (u64Bytes v ++ rest)[i + 8]? = rest[i]? := by
  rw [List.getElem?_append_right (by simp), length_u64Bytes, Nat.add_sub_cancel]

@[simp] theorem getElem?_i64Bytes_add (v : Int64) (rest : List UInt8) (i : Nat) :
    (i64Bytes v ++ rest)[i + 8]? = rest[i]? := by
  rw [List.getElem?_append_right (by simp), length_i64Bytes, Nat.add_sub_cancel]

/-! ### Writing what was read

The bytes a reader took are the bytes of the value it returned. -/

theorem slice_eq_some {bytes field : List UInt8} {i w : Nat} (h : slice bytes i w = some field) :
    field.length = w ∧ bytes.drop i = field ++ bytes.drop (i + w) := by
  unfold slice at h
  split at h
  · rename_i hle
    have hfield : (bytes.drop i).take w = field := Option.some.inj h
    have hlength : ((bytes.drop i).take w).length = w := by
      rw [List.length_take, List.length_drop]
      omega
    refine ⟨hfield ▸ hlength, ?_⟩
    rw [← hfield, ← List.drop_drop, List.take_append_drop]
  · exact absurd h (by simp)

theorem u32Bytes_of_u32At {bytes : List UInt8} {i : Nat} {v : UInt32} (h : u32At bytes i = some v) :
    slice bytes i 4 = some (u32Bytes v) := by
  obtain ⟨field, hfield, hv⟩ := Option.map_eq_some_iff.mp h
  obtain ⟨hlength, -⟩ := slice_eq_some hfield
  have hlt := ofLe_lt field
  rw [hlength] at hlt
  rw [hfield, ← hv, u32Bytes, UInt32.toNat_ofNat_of_lt' hlt, ← hlength, toLe_ofLe]

theorem u64Bytes_of_u64At {bytes : List UInt8} {i : Nat} {v : UInt64} (h : u64At bytes i = some v) :
    slice bytes i 8 = some (u64Bytes v) := by
  obtain ⟨field, hfield, hv⟩ := Option.map_eq_some_iff.mp h
  obtain ⟨hlength, -⟩ := slice_eq_some hfield
  have hlt := ofLe_lt field
  rw [hlength] at hlt
  rw [hfield, ← hv, u64Bytes, UInt64.toNat_ofNat_of_lt' hlt, ← hlength, toLe_ofLe]

theorem i64Bytes_of_i64At {bytes : List UInt8} {i : Nat} {v : Int64} (h : i64At bytes i = some v) :
    slice bytes i 8 = some (i64Bytes v) := by
  obtain ⟨u, hu, hv⟩ := Option.map_eq_some_iff.mp h
  rw [u64Bytes_of_u64At hu, i64Bytes, ← hv]
  simp

/-! ### Peeling fields off

What stands from an offset on begins with the field read there. -/

theorem drop_of_u32At {bytes : List UInt8} {i : Nat} {v : UInt32} (h : u32At bytes i = some v) :
    bytes.drop i = u32Bytes v ++ bytes.drop (i + 4) :=
  (slice_eq_some (u32Bytes_of_u32At h)).2

theorem drop_of_u64At {bytes : List UInt8} {i : Nat} {v : UInt64} (h : u64At bytes i = some v) :
    bytes.drop i = u64Bytes v ++ bytes.drop (i + 8) :=
  (slice_eq_some (u64Bytes_of_u64At h)).2

theorem drop_of_i64At {bytes : List UInt8} {i : Nat} {v : Int64} (h : i64At bytes i = some v) :
    bytes.drop i = i64Bytes v ++ bytes.drop (i + 8) :=
  (slice_eq_some (i64Bytes_of_i64At h)).2

theorem drop_of_getElem? {bytes : List UInt8} {i : Nat} {b : UInt8} (h : bytes[i]? = some b) :
    bytes.drop i = b :: bytes.drop (i + 1) := by
  obtain ⟨hlt, hb⟩ := List.getElem?_eq_some_iff.mp h
  rw [List.drop_eq_getElem_cons hlt, hb]
