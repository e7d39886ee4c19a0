/-
# Streams cut into blocks

A stream is taken in pieces and consumed in blocks of one size: what does not fill a block is
kept until more arrives.

* A list is its whole blocks and a rest that is shorter than a block, in one way
  (`blocks_eq_of_flatten`).
* What has been taken and what is kept does not depend on how the pieces were cut
  (`Fed.trans`).

Nothing here names the program under verification.
-/
import Mathlib

namespace BlockStream

variable {α β σ : Type*}

/-! ## Whole blocks and the rest -/

/-- The first blocks of `n` elements, `k` of them. -/
def firstBlocks (n : ℕ) : ℕ → List α → List (List α)
  | 0, _ => []
  | k + 1, xs => xs.take n :: firstBlocks n k (xs.drop n)

/-- The whole blocks of a list. -/
def blocks (n : ℕ) (xs : List α) : List (List α) := firstBlocks n (xs.length / n) xs

/-- What is behind the last whole block. -/
def rest (n : ℕ) (xs : List α) : List α := xs.drop (n * (xs.length / n))

section Blocks

variable {n : ℕ}

theorem length_rest (n : ℕ) (xs : List α) : (rest n xs).length = xs.length % n := by
  rw [rest, List.length_drop, ← Nat.mod_def]

theorem length_rest_lt (hn : 0 < n) (xs : List α) : (rest n xs).length < n := by
  rw [length_rest]
  exact Nat.mod_lt _ hn

/-- **Whole blocks are found in one way.** -/
theorem blocks_eq_of_flatten {bs : List (List α)} {last : List α}
    (hbs : ∀ b ∈ bs, b.length = n) (hlast : last.length < n) :
    blocks n (bs.flatten ++ last) = bs ∧ rest n (bs.flatten ++ last) = last := by
  have hlen : bs.flatten.length = n * bs.length := by
    rw [List.length_flatten, List.sum_eq_card_nsmul _ n (by simpa using hbs), List.length_map,
      smul_eq_mul, Nat.mul_comm]
  have hcount : (bs.flatten ++ last).length / n = bs.length := by
    rw [List.length_append, hlen, Nat.mul_add_div (by omega), Nat.div_eq_of_lt hlast,
      Nat.add_zero]
  constructor
  · rw [blocks, hcount]
    clear hlen hcount
    induction bs with
    | nil => rfl
    | cons b bs ih =>
      have hb : b.length = n := hbs b List.mem_cons_self
      rw [List.length_cons, firstBlocks, List.flatten_cons, List.append_assoc, ← hb,
        List.take_left, List.drop_left, hb, ih fun c hc => hbs c (List.mem_cons_of_mem b hc)]
  · rw [rest, hcount, ← hlen, List.drop_left]

theorem length_of_mem_firstBlocks {k : ℕ} {xs b : List α} (h : n * k ≤ xs.length)
    (hb : b ∈ firstBlocks n k xs) : b.length = n := by
  induction k generalizing xs with
  | zero => exact absurd hb List.not_mem_nil
  | succ k ih =>
    rw [Nat.mul_succ] at h
    rcases List.mem_cons.mp hb with rfl | hb
    · rw [List.length_take]
      omega
    · exact ih (by rw [List.length_drop]; omega) hb

theorem length_of_mem_blocks {xs b : List α} (hb : b ∈ blocks n xs) : b.length = n :=
  length_of_mem_firstBlocks (Nat.mul_div_le _ _) hb

theorem flatten_firstBlocks (n k : ℕ) (xs : List α) :
    (firstBlocks n k xs).flatten = xs.take (n * k) := by
  induction k generalizing xs with
  | zero => rfl
  | succ k ih => rw [firstBlocks, List.flatten_cons, ih, Nat.mul_succ, Nat.add_comm, List.take_add]

/-- A list is its whole blocks and the rest. -/
theorem flatten_blocks_append_rest (n : ℕ) (xs : List α) :
    (blocks n xs).flatten ++ rest n xs = xs := by
  rw [blocks, flatten_firstBlocks, rest, List.take_append_drop]

/-- Whole blocks stay what they are when more follows, and the rest is completed. -/
theorem blocks_append (hn : 0 < n) (xs ys : List α) :
    blocks n (xs ++ ys) = blocks n xs ++ blocks n (rest n xs ++ ys) ∧
      rest n (xs ++ ys) = rest n (rest n xs ++ ys) := by
  have hsplit : xs ++ ys = (blocks n xs ++ blocks n (rest n xs ++ ys)).flatten ++
      rest n (rest n xs ++ ys) := by
    rw [List.flatten_append, List.append_assoc, flatten_blocks_append_rest, ← List.append_assoc,
      flatten_blocks_append_rest]
  rw [hsplit]
  refine blocks_eq_of_flatten (fun b hb => ?_) (length_rest_lt hn _)
  rcases List.mem_append.mp hb with hb | hb
  · exact length_of_mem_blocks hb
  · exact length_of_mem_blocks hb

theorem blocks_of_length_lt {xs : List α} (h : xs.length < n) :
    blocks n xs = [] ∧ rest n xs = xs := by
  have hnone : ∀ b ∈ ([] : List (List α)), b.length = n := fun _ hb => absurd hb List.not_mem_nil
  exact blocks_eq_of_flatten hnone h

theorem blocks_of_length_eq (hn : 0 < n) {xs : List α} (h : xs.length = n) :
    blocks n xs = [xs] ∧ rest n xs = [] := by
  have hone : ∀ b ∈ [xs], b.length = n := fun b hb => (List.mem_singleton.mp hb) ▸ h
  have hempty : ([] : List α).length < n := hn
  have := blocks_eq_of_flatten hone hempty
  rwa [List.flatten_singleton, List.append_nil] at this

theorem blocks_cons (hn : 0 < n) {b : List α} (h : b.length = n) (xs : List α) :
    blocks n (b ++ xs) = b :: blocks n xs ∧ rest n (b ++ xs) = rest n xs := by
  have hb := blocks_of_length_eq hn h
  have hmore := blocks_append hn b xs
  rwa [hb.1, hb.2] at hmore

/-- Blocks of a list whose elements stand for `m` others each. -/
theorem blocks_flatMap {m : ℕ} (hn : 0 < n) (hm : 0 < m) {f : α → List β}
    (hf : ∀ a, (f a).length = m) (xs : List α) :
    blocks (m * n) (xs.flatMap f) = (blocks n xs).map fun b => b.flatMap f := by
  have hlen : ∀ ys : List α, (ys.flatMap f).length = m * ys.length := by
    intro ys
    rw [List.length_flatMap, List.sum_eq_card_nsmul _ m (by simp [hf]), List.length_map,
      smul_eq_mul, Nat.mul_comm]
  have hflat : ∀ bs : List (List α),
      (bs.map fun b => b.flatMap f).flatten = bs.flatten.flatMap f := by
    intro bs
    induction bs with
    | nil => rfl
    | cons b bs ih => simp [ih]
  have hsplit : xs.flatMap f =
      ((blocks n xs).map fun b => b.flatMap f).flatten ++ (rest n xs).flatMap f := by
    rw [hflat, ← List.flatMap_append, flatten_blocks_append_rest]
  rw [hsplit]
  refine (blocks_eq_of_flatten (fun b hb => ?_) ?_).1
  · obtain ⟨c, hc, rfl⟩ := List.mem_map.mp hb
    rw [hlen, length_of_mem_blocks hc]
  · rw [hlen]
    exact Nat.mul_lt_mul_of_pos_left (length_rest_lt hn xs) hm

end Blocks

/-! ## Feeding a stream -/

/-- A state and what is kept, before and after some data: the whole blocks were taken, and the
rest is kept. -/
structure Fed (n : ℕ) (take : σ → List α → σ) (s : σ) (kept data : List α) (s' : σ)
    (kept' : List α) : Prop where
  state : s' = (blocks n (kept ++ data)).foldl take s
  kept : kept' = rest n (kept ++ data)

namespace Fed

variable {n : ℕ} {take : σ → List α → σ} {s s' t : σ} {kept kept' last data more : List α}

/-- **Pieces compose.**  What was fed in two pieces was fed at once. -/
theorem trans (hn : 0 < n) (h : Fed n take s kept data s' kept')
    (h' : Fed n take s' kept' more t last) : Fed n take s kept (data ++ more) t last := by
  obtain ⟨hblocks, hrest⟩ := blocks_append hn (kept ++ data) more
  constructor
  · rw [← List.append_assoc, hblocks, List.foldl_append, ← h.state, ← h.kept]
    exact h'.state
  · rw [← List.append_assoc, hrest, ← h.kept]
    exact h'.kept

/-- What does not fill a block is kept. -/
theorem keep (h : kept.length + data.length < n) :
    Fed n take s kept data s (kept ++ data) := by
  obtain ⟨hblocks, hrest⟩ := blocks_of_length_lt (by rwa [List.length_append])
  exact ⟨by rw [hblocks, List.foldl_nil], hrest.symm⟩

theorem nil (h : kept.length < n) : Fed n take s kept [] s kept := by
  have hkeep : Fed n take s kept [] s (kept ++ []) := keep h
  rwa [List.append_nil] at hkeep

/-- What fills a block is taken. -/
theorem fill (hn : 0 < n) (h : kept.length + data.length = n) :
    Fed n take s kept data (take s (kept ++ data)) [] := by
  obtain ⟨hblocks, hrest⟩ := blocks_of_length_eq hn (by rwa [List.length_append])
  exact ⟨by rw [hblocks, List.foldl_cons, List.foldl_nil], hrest.symm⟩

theorem length_lt (hn : 0 < n) (h : Fed n take s kept data s' kept') : kept'.length < n := by
  rw [h.kept]
  exact length_rest_lt hn _

theorem length_kept (h : Fed n take s kept data s' kept') :
    kept'.length = (kept.length + data.length) % n := by
  rw [h.kept, length_rest, List.length_append]

/-- What is left does not depend on how the data was fed. -/
theorem unique (h : Fed n take s kept data s' kept') (h' : Fed n take s kept data t last) :
    s' = t ∧ kept' = last :=
  ⟨h.state.trans h'.state.symm, h.kept.trans h'.kept.symm⟩

end Fed

/-! ## A buffer of fixed size -/

/-- A copy into a buffer, which must have the room. -/
def copyInto {n : ℕ} (buffer : Vector α n) (at_ : ℕ) (source : List α) : Option (Vector α n) :=
  if h : at_ + source.length ≤ n then
    some ⟨(buffer.toList.take at_ ++ (source ++ buffer.toList.drop (at_ + source.length))).toArray,
      by simp; omega⟩
  else none

/-- A copy that has the room changes the bytes it covers. -/
theorem copyInto_of_le {n : ℕ} (buffer : Vector α n) {at_ : ℕ} {source : List α}
    (h : at_ + source.length ≤ n) :
    ∃ buffer', copyInto buffer at_ source = some buffer' ∧ buffer'.toList =
      buffer.toList.take at_ ++ (source ++ buffer.toList.drop (at_ + source.length)) :=
  ⟨_, dif_pos h, rfl⟩

/-- **A copy into the buffer** either fills it, and its content is the next block, or is kept
behind what was kept before. -/
theorem copyInto_fed {n : ℕ} (take : σ → List α → σ) (s : σ) (buffer : Vector α n) {at_ : ℕ}
    {source : List α} (h : at_ + source.length ≤ n) (hn : 0 < n) :
    ∃ buffer', copyInto buffer at_ source = some buffer' ∧
      (at_ + source.length = n →
        Fed n take s (buffer.toList.take at_) source (take s buffer'.toList) []) ∧
      (at_ + source.length < n →
        Fed n take s (buffer.toList.take at_) source s
          (buffer'.toList.take (at_ + source.length))) := by
  obtain ⟨buffer', hcopy, hlist⟩ := copyInto_of_le buffer h
  have hat : (buffer.toList.take at_).length = at_ := by
    rw [List.length_take, Vector.length_toList]
    omega
  have hlen : at_ + source.length = (buffer.toList.take at_ ++ source).length := by
    rw [List.length_append, hat]
  have hbuffer : buffer'.toList.take (at_ + source.length) = buffer.toList.take at_ ++ source := by
    rw [hlist, ← List.append_assoc, hlen, List.take_left]
  refine ⟨buffer', hcopy, fun hfull => ?_, fun hroom => ?_⟩
  · have hwhole : buffer'.toList = buffer.toList.take at_ ++ source := by
      rwa [hfull, List.take_of_length_le (by simp)] at hbuffer
    rw [hwhole]
    exact Fed.fill hn (by rw [hat, hfull])
  · rw [hbuffer]
    exact Fed.keep (by rwa [hat])

end BlockStream
