/-
# Reading bytes in sequence

A reader takes what it wants from the front of a byte list and leaves the rest; a
payload is read if nothing is left.  Each field has a writer, and a step lemma: after
the bytes that were written, the reader goes on with the value that was written and
what follows.  A record is read back by taking its steps one after the other.

Nothing here names the program under verification.
-/
import OpenQuanter.Bytes

/-- A reader: what it took and what is left, unless it ran out or refused. -/
abbrev Take (α : Type) := StateT (List UInt8) Option α

namespace Take

/-! ## Readers -/

/-- One byte. -/
def u8 : Take UInt8
  | [] => none
  | b :: rest => some (b, rest)

/-- A number of bytes. -/
def fixed (width : Nat) : Take (List UInt8) := fun p =>
  if p.length < width then none else some (p.take width, p.drop width)

def u32 : Take UInt32 := do
  let field ← fixed 4
  pure (UInt32.ofNat (ofLe field))

def i64 : Take Int64 := do
  let field ← fixed 8
  pure (Int64.ofNat (ofLe field))

/-- Go on only if something holds. -/
def ensure (ok : Prop) [Decidable ok] : Take Unit := fun p => if ok then some ((), p) else none

/-- The value there is, or a refusal. -/
def given {α : Type} (v : Option α) : Take α := fun p => v.map fun a => (a, p)

/-- UTF-8 text behind its length. -/
def str : Take String := do
  let len ← u32
  let field ← fixed len.toNat
  given (String.fromUTF8? ⟨field.toArray⟩)

/-- How much is left. -/
def left : Take Nat := fun p => some (p.length, p)

/-- All that is left. -/
def all : Take (List UInt8) := fun p => some (p, [])

/-- The same reader a number of times. -/
def many {α : Type} (t : Take α) : Nat → Take (List α)
  | 0 => pure []
  | n + 1 => do
    let x ← t
    let xs ← many t n
    pure (x :: xs)

/-- A payload: read, with nothing left. -/
def payload {α : Type} (t : Take α) (p : List UInt8) : Option α :=
  match t p with
  | some (a, []) => some a
  | _ => none

/-! ## Writers -/

/-- The bytes of a text. -/
def textBytes (s : String) : List UInt8 := s.toUTF8.data.toList

/-- A text behind its length; one longer than a length can say is cut. -/
def strBytes (s : String) : List UInt8 :=
  let len := if s.utf8ByteSize < 2 ^ 32 then s.utf8ByteSize else 2 ^ 32 - 1
  toLe 4 len ++ (textBytes s).take len

/-! ## Steps -/

variable {α β : Type}

theorem bind_apply (t : Take α) (f : α → Take β) (p : List UInt8) :
    (t >>= f) p = (t p).bind fun x => f x.1 x.2 := rfl

@[simp] theorem pure_apply (a : α) (p : List UInt8) : (pure a : Take α) p = some (a, p) := rfl

/-- A reader that takes a field goes on behind it. -/
theorem step {t : Take α} {p rest : List UInt8} {a : α} (h : t p = some (a, rest))
    (f : α → Take β) : (t >>= f) p = f a rest := by
  rw [bind_apply, h]
  rfl

@[simp] theorem u8_step (f : UInt8 → Take β) (b : UInt8) (rest : List UInt8) :
    (u8 >>= f) (b :: rest) = f b rest := rfl

theorem fixed_apply (field rest : List UInt8) :
    fixed field.length (field ++ rest) = some (field, rest) := by
  unfold fixed
  rw [if_neg (by simp), List.take_left, List.drop_left]

theorem u32_apply {n : Nat} (h : n < 2 ^ 32) (rest : List UInt8) :
    u32 (toLe 4 n ++ rest) = some (UInt32.ofNat n, rest) := by
  have hfield := fixed_apply (toLe 4 n) rest
  rw [length_toLe] at hfield
  unfold u32
  rw [step hfield, ofLe_toLe_of_lt h]
  rfl

theorem i64_apply (v : Int64) (rest : List UInt8) :
    i64 (i64Bytes v ++ rest) = some (v, rest) := by
  have hfield := fixed_apply (i64Bytes v) rest
  rw [length_i64Bytes] at hfield
  unfold i64
  rw [step hfield, ofNat_ofLe_i64Bytes]
  rfl

@[simp] theorem i64_step (f : Int64 → Take β) (v : Int64) (rest : List UInt8) :
    (i64 >>= f) (i64Bytes v ++ rest) = f v rest := step (i64_apply v rest) f

@[simp] theorem i64_step_nil (f : Int64 → Take β) (v : Int64) :
    (i64 >>= f) (i64Bytes v) = f v [] := by
  have h := i64_step f v []
  rwa [List.append_nil] at h

theorem fromUTF8?_textBytes (s : String) : String.fromUTF8? ⟨(textBytes s).toArray⟩ = some s := by
  have hbytes : (⟨(textBytes s).toArray⟩ : ByteArray) = s.toByteArray := rfl
  rw [hbytes, String.fromUTF8?, dif_pos s.isValidUTF8]
  rfl

theorem length_textBytes (s : String) : (textBytes s).length = s.utf8ByteSize := by
  unfold textBytes
  rw [Array.length_toList]
  rfl

theorem strBytes_of_lt {s : String} (h : s.utf8ByteSize < 2 ^ 32) :
    strBytes s = toLe 4 s.utf8ByteSize ++ textBytes s := by
  unfold strBytes
  simp only [if_pos h]
  rw [List.take_of_length_le (by rw [length_textBytes])]

/-- A text that was cut takes more bytes than its length can say. -/
theorem utf8ByteSize_lt_of_strBytes {s : String} (h : (strBytes s).length < 2 ^ 32) :
    s.utf8ByteSize < 2 ^ 32 := by
  by_contra hlong
  unfold strBytes at h
  simp only [if_neg hlong, List.length_append, length_toLe, List.length_take, length_textBytes] at h
  omega

theorem str_apply {s : String} (h : s.utf8ByteSize < 2 ^ 32) (rest : List UInt8) :
    str (strBytes s ++ rest) = some (s, rest) := by
  have hlen : (UInt32.ofNat s.utf8ByteSize).toNat = (textBytes s).length := by
    rw [UInt32.toNat_ofNat_of_lt' h, length_textBytes]
  unfold str
  rw [strBytes_of_lt h, List.append_assoc, step (u32_apply h _), hlen,
    step (fixed_apply (textBytes s) rest), given, fromUTF8?_textBytes]
  rfl

@[simp] theorem str_step (f : String → Take β) {s : String} (h : s.utf8ByteSize < 2 ^ 32)
    (rest : List UInt8) : (str >>= f) (strBytes s ++ rest) = f s rest := step (str_apply h rest) f

@[simp] theorem str_step_nil (f : String → Take β) {s : String} (h : s.utf8ByteSize < 2 ^ 32) :
    (str >>= f) (strBytes s) = f s [] := by
  have hstep := str_step f h []
  rwa [List.append_nil] at hstep

@[simp] theorem given_step (f : α → Take β) (a : α) (p : List UInt8) :
    (given (some a) >>= f) p = f a p := rfl

@[simp] theorem given_none (f : α → Take β) (p : List UInt8) : (given none >>= f) p = none := rfl

theorem ensure_step {ok : Prop} [Decidable ok] (h : ok) (f : Unit → Take β) (p : List UInt8) :
    (ensure ok >>= f) p = f () p := by
  rw [bind_apply, ensure, if_pos h]
  rfl

theorem ensure_step_of_not {ok : Prop} [Decidable ok] (h : ¬ok) (f : Unit → Take β)
    (p : List UInt8) : (ensure ok >>= f) p = none := by
  rw [bind_apply, ensure, if_neg h]
  rfl

@[simp] theorem left_step (f : Nat → Take β) (p : List UInt8) : (left >>= f) p = f p.length p := rfl

@[simp] theorem all_step (f : List UInt8 → Take β) (p : List UInt8) : (all >>= f) p = f p [] := rfl

/-- A list is read by reading each of its entries. -/
theorem many_apply {t : Take α} {enc : α → List UInt8} {xs : List α}
    (h : ∀ x ∈ xs, ∀ rest, t (enc x ++ rest) = some (x, rest)) (rest : List UInt8) :
    many t xs.length (xs.flatMap enc ++ rest) = some (xs, rest) := by
  induction xs with
  | nil => rfl
  | cons x xs ih =>
    have hrest := ih fun y hy => h y (List.mem_cons_of_mem x hy)
    rw [List.length_cons, List.flatMap_cons, List.append_assoc, many,
      step (h x List.mem_cons_self _), step hrest]
    rfl

/-! ## What a reader may return -/

/-- Whatever a reader returns satisfies a property. -/
def Yields (P : α → Prop) (t : Take α) : Prop := ∀ p a rest, t p = some (a, rest) → P a

theorem yields_pure {P : α → Prop} {a : α} (h : P a) : Yields P (pure a) := by
  intro p b rest heq
  rw [pure_apply, Option.some.injEq, Prod.mk.injEq] at heq
  rwa [← heq.1]

/-- What comes first does not matter. -/
theorem yields_bind {P : β → Prop} (t : Take α) {f : α → Take β} (h : ∀ a, Yields P (f a)) :
    Yields P (t >>= f) := by
  intro p b rest heq
  rw [bind_apply, Option.bind_eq_some_iff] at heq
  obtain ⟨⟨a, left⟩, -, hf⟩ := heq
  exact h a left b rest hf

theorem yields_given_none {P : α → Prop} : Yields P (given none) := by
  intro p a rest heq
  cases heq

theorem Yields.payload {P : α → Prop} {t : Take α} (h : Yields P t) {p : List UInt8} {a : α}
    (ha : payload t p = some a) : P a := by
  unfold Take.payload at ha
  split at ha
  · rename_i b heq
    rw [← Option.some.inj ha]
    exact h p b [] heq
  · cases ha

@[simp] theorem payload_pure (a : α) : payload (pure a) [] = some a := rfl

end Take
