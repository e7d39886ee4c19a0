/-
# A buffered writer

A sink behind a buffer of a fixed capacity.  Small writes are kept; a write that does not fit
sends out what was kept, and one as long as the buffer goes straight out.  Nothing is lost or
reordered (`writeAll_append`), and a write leaves the buffer empty exactly when it was as long as
the buffer (`buf_writeAll_eq_nil`).
-/
import Mathlib.Data.List.Basic

/-- A buffer of at most `capacity` items. -/
structure BufWriter (α : Type) (capacity : Nat) where
  buf : List α
  length_le : buf.length ≤ capacity

namespace BufWriter

variable {α : Type} {capacity : Nat}

/-- An empty buffer. -/
def empty : BufWriter α capacity := ⟨[], Nat.zero_le _⟩

/-- Send out what is kept. -/
def flush (b : BufWriter α capacity) : BufWriter α capacity × List α := (empty, b.buf)

/-- Write all of `items`: the buffer after it, and what was sent out. -/
def writeAll (b : BufWriter α capacity) (items : List α) : BufWriter α capacity × List α :=
  if hroom : items.length < capacity - b.buf.length then
    (⟨b.buf ++ items, by
      rw [List.length_append]
      omega⟩, [])
  -- as long as the buffer: past it, behind what was kept
  else if hlong : capacity ≤ items.length then (empty, b.buf ++ items)
  else if hfull : capacity - b.buf.length < items.length then
    (⟨items, Nat.le_of_lt (Nat.not_le.mp hlong)⟩, b.buf)
  else
    (⟨b.buf ++ items, by
      have := b.length_le
      rw [List.length_append]
      omega⟩, [])

variable (b : BufWriter α capacity) (items : List α)

@[simp] theorem buf_empty : (empty : BufWriter α capacity).buf = [] := rfl

@[simp] theorem flush_snd : b.flush.2 = b.buf := rfl

/-- **Nothing is lost**: what was sent out and what is kept is what was kept and what was
written. -/
theorem writeAll_append : (b.writeAll items).2 ++ (b.writeAll items).1.buf = b.buf ++ items := by
  unfold writeAll
  split_ifs
  · rfl
  · exact List.append_nil _
  · rfl
  · rfl

/-- A write leaves nothing kept iff it is as long as the buffer. -/
theorem buf_writeAll_eq_nil (h : items ≠ []) :
    (b.writeAll items).1.buf = [] ↔ capacity ≤ items.length := by
  have hpos := List.length_pos_of_ne_nil h
  unfold writeAll
  split_ifs with hroom hlong hfull
  · simp only [List.append_eq_nil_iff, h, and_false, false_iff]
    omega
  · simp [hlong]
  · simp [h, hlong]
  · simp [h, hlong]

end BufWriter
