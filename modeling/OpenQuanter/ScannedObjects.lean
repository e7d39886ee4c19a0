/-
# The objects that are scanned (`oq-gateway/src/json.rs`)

What stands between two quotes, and what stands between two braces, leaves the scan as it was
(`run_quoted`, `run_of_derives`). So an object of the grammar is found whole, and an array of
objects is split into them (`objects_text`).
-/
import OpenQuanter.JsonScan
import OpenQuanter.JsonText

namespace Gateway.Json

open JsonText

/-- A character that means nothing to the scan, in a string or outside. -/
def Dull (c : Char) : Prop := c ≠ '"' ∧ c ≠ '\\' ∧ c ≠ '{' ∧ c ≠ '}'

theorem dull_of_blank {c : Char} (h : isBlank c = true) : Dull c := by
  simp only [isBlank, Bool.or_eq_true, decide_eq_true_eq] at h
  rcases h with ((rfl | rfl) | rfl) | rfl <;> simp [Dull]

theorem dull_of_bare {b : Bare} {c : Char} (h : c ∈ b.text) : Dull c := by
  have hall : ∀ c ∈ bareChars, Dull c := by simp [bareChars, Dull]
  exact hall c (Bare.text_mem h)

theorem ne_quote_of_hex {c : Char} (h : isHexDigit c = true) : c ≠ '"' := by
  rintro rfl
  exact absurd h (by decide)

theorem ne_backslash_of_hex {c : Char} (h : isHexDigit c = true) : c ≠ '\\' := by
  rintro rfl
  exact absurd h (by decide)

section Run

variable (body : Text)

theorem run_append (s : Scan) (i : ℕ) (t u : Text) :
    Scan.run body s i (t ++ u) = Scan.run body (Scan.run body s i t) (i + t.length) u := by
  induction t generalizing s i with
  | nil => rfl
  | cons c t ih =>
    rw [List.cons_append, Scan.run, ih, Scan.run, List.length_cons, Nat.add_comm t.length,
      Nat.add_assoc]

theorem run_cons (s : Scan) (i : ℕ) (c : Char) (t : Text) :
    Scan.run body s i (c :: t) = Scan.run body (s.step body i c) (i + 1) t := rfl

/-- A scan that is at the beginning of a token. -/
structure Outside (s : Scan) : Prop where
  string : s.inString = false
  escape : s.escaped = false

theorem step_dull {s : Scan} (hescaped : s.escaped = false) (i : ℕ) {c : Char} (h : Dull c) :
    s.step body i c = s := by
  obtain ⟨hquote, hbackslash, hopen, hclose⟩ := h
  simp [Scan.step, hescaped, hquote, hbackslash, hopen, hclose]

theorem run_dull {s : Scan} (hescaped : s.escaped = false) (i : ℕ) {t : Text}
    (h : ∀ c ∈ t, Dull c) : Scan.run body s i t = s := by
  induction t generalizing i with
  | nil => rfl
  | cons c t ih =>
    rw [List.forall_mem_cons] at h
    rw [run_cons, step_dull body hescaped i h.1, ih _ h.2]

/-- In a string a plain character means nothing, braces included. -/
theorem step_plain {s : Scan} (hstring : s.inString = true) (hescaped : s.escaped = false) (i : ℕ)
    {c : Char} (hquote : c ≠ '"') (hbackslash : c ≠ '\\') : s.step body i c = s := by
  simp [Scan.step, hescaped, hstring, hquote, hbackslash]

/-- After a backslash in a string one character is passed over, whatever it is. -/
theorem run_escape {s : Scan} (hstring : s.inString = true) (hescaped : s.escaped = false) (i : ℕ)
    (c : Char) (t : Text) :
    Scan.run body s i ('\\' :: c :: t) = Scan.run body s (i + 2) t := by
  have hboth : (s.step body i '\\').step body (i + 1) c = s := by
    obtain ⟨depth, start, inString, escaped, out⟩ := s
    obtain rfl : inString = true := hstring
    obtain rfl : escaped = false := hescaped
    simp [Scan.step]
  rw [run_cons, run_cons, hboth]

theorem run_written {s : Scan} (hstring : s.inString = true) (hescaped : s.escaped = false) (i : ℕ)
    (pieces : List Piece) : Scan.run body s i (written pieces) = s := by
  have hplain : ∀ c i t, isPlain c = true → Scan.run body s i (c :: t) =
      Scan.run body s (i + 1) t := by
    intro c i t hc
    simp only [isPlain, Bool.and_eq_true, decide_eq_true_eq] at hc
    rw [run_cons, step_plain body hstring hescaped i hc.1.1 hc.1.2]
  have hhex : ∀ c i t, isHexDigit c = true → Scan.run body s i (c :: t) =
      Scan.run body s (i + 1) t := by
    intro c i t hc
    rw [run_cons, step_plain body hstring hescaped i (ne_quote_of_hex hc) (ne_backslash_of_hex hc)]
  induction pieces generalizing i with
  | nil => rfl
  | cons piece pieces ih =>
    rw [written, List.flatMap_cons, ← written]
    cases piece with
    | plain c h =>
      rw [Piece.text, List.singleton_append, hplain c i _ h]
      exact ih (i + 1)
    | escape e =>
      rw [Piece.text, List.cons_append, List.singleton_append, run_escape body hstring hescaped]
      exact ih (i + 2)
    | unicode a b c d h =>
      simp only [List.forall_mem_cons] at h
      obtain ⟨ha, hb, hc, hd, -⟩ := h
      rw [Piece.text]
      simp only [List.cons_append, List.nil_append]
      rw [run_escape body hstring hescaped, hhex a _ _ ha, hhex b _ _ hb, hhex c _ _ hc,
        hhex d _ _ hd]
      exact ih _

/-- A string is passed over, and so are the braces in it. -/
theorem run_quoted {s : Scan} (hout : Outside s) (i : ℕ) (pieces : List Piece) :
    Scan.run body s i (quoted (written pieces)) = s := by
  have hopen : s.step body i '"' = { s with inString := true } := by
    simp [Scan.step, hout.string, hout.escape]
  have hclose : ∀ j, ({ s with inString := true } : Scan).step body j '"' = s := by
    intro j
    obtain ⟨depth, start, inString, escaped, out⟩ := s
    obtain rfl : inString = false := hout.string
    obtain rfl : escaped = false := hout.escape
    simp [Scan.step]
  have hinside := run_written body (s := { s with inString := true }) rfl hout.escape (i + 1) pieces
  rw [quoted, run_cons, hopen, run_append, hinside, run_cons, hclose]
  rfl

/-! ## Values of the grammar -/

theorem run_blank {s : Scan} (hout : Outside s) (i : ℕ) (w : Blank) :
    Scan.run body s i w.text = s :=
  run_dull body hout.escape i fun c hc => dull_of_blank (w.blank c hc)

/-- Brackets, commas and colons mean nothing to the scan. -/
theorem run_mark {s : Scan} (hout : Outside s) (i : ℕ) {c : Char} (hc : c ∈ ['[', ']', ',', ':'])
    (t : Text) : Scan.run body s i (c :: t) = Scan.run body s (i + 1) t := by
  have hall : ∀ d ∈ ['[', ']', ',', ':'], Dull d := by simp [Dull]
  rw [run_cons, step_dull body hout.escape i (hall c hc)]

theorem step_open {s : Scan} (hout : Outside s) (i : ℕ) : s.step body i '{' =
    { s with start := if s.depth = 0 then some i else s.start, depth := s.depth + 1 } := by
  simp [Scan.step, hout.string, hout.escape]

theorem outside_open {s : Scan} (hout : Outside s) (i : ℕ) :
    Outside (s.step body i '{') ∧ 0 < (s.step body i '{').depth := by
  rw [step_open body hout]
  exact ⟨⟨hout.string, hout.escape⟩, Nat.succ_pos _⟩

/-- A pair of braces inside others is not told. -/
theorem step_close_inside {s : Scan} (hout : Outside s) (hdepth : 0 < s.depth) (i j : ℕ) :
    (s.step body i '{').step body j '}' = s := by
  rw [step_open body hout]
  obtain ⟨depth, start, inString, escaped, out⟩ := s
  obtain rfl : inString = false := hout.string
  obtain rfl : escaped = false := hout.escape
  have hne : depth ≠ 0 := Nat.pos_iff_ne_zero.mp hdepth
  simp [Scan.step, hne]

/-- Inside braces a part of the grammar leaves the scan as it was. -/
theorem run_of_derives {part : Part} {t : Text} (h : Derives part t) {s : Scan}
    (hout : Outside s) (hdepth : 0 < s.depth) (i : ℕ) : Scan.run body s i t = s := by
  induction h generalizing s i with
  | string pieces => exact run_quoted body hout i pieces
  | bare b => exact run_dull body hout.escape i fun c hc => dull_of_bare hc
  | noItems w =>
    rw [run_mark body hout i (by simp), run_append, run_blank body hout,
      run_mark body hout _ (by simp)]
    rfl
  | array _ ih =>
    rw [run_mark body hout i (by simp), run_append, ih hout hdepth,
      run_mark body hout _ (by simp)]
    rfl
  | nested _ ih => exact ih hout hdepth i
  | lastItem v w _ ih =>
    rw [run_append, run_blank body hout, run_append, ih hout hdepth, run_blank body hout]
  | nextItem v w _ _ iht ihu =>
    rw [run_append, run_append, run_blank body hout, run_append, iht hout hdepth,
      run_blank body hout, run_mark body hout _ (by simp), ihu hout hdepth]
  -- The two braces of an object undo each other, as it is inside of others.
  | noMembers w =>
    rw [run_cons, run_append, run_blank body (outside_open body hout i).1, run_cons]
    exact step_close_inside body hout hdepth _ _
  | object _ ih =>
    obtain ⟨hinside, hpos⟩ := outside_open body hout i
    rw [run_cons, run_append, ih hinside hpos, run_cons]
    exact step_close_inside body hout hdepth _ _
  | lastMember v w x y key _ ih =>
    rw [run_append, run_blank body hout, run_append, run_quoted body hout, run_append,
      run_blank body hout, run_mark body hout _ (by simp), run_append, run_blank body hout,
      run_append, ih hout hdepth, run_blank body hout]
  | nextMember v w x y key _ _ iht ihu =>
    rw [run_append, run_append, run_blank body hout, run_append, run_quoted body hout, run_append,
      run_blank body hout, run_mark body hout _ (by simp), run_append, run_blank body hout,
      run_append, iht hout hdepth, run_blank body hout, run_mark body hout _ (by simp),
      ihu hout hdepth]

/-- An object is what stands between its braces, which leaves a scan in it as it was. -/
theorem exists_between {t : Text} (h : Derives .object t) : ∃ u, t = '{' :: (u ++ ['}']) ∧
    ∀ s : Scan, Outside s → 0 < s.depth → ∀ i, Scan.run body s i u = s := by
  cases h with
  | noMembers w => exact ⟨w.text, rfl, fun s hout _ i => run_blank body hout i w⟩
  | object hmembers =>
    exact ⟨_, rfl, fun s hout hdepth i => run_of_derives body hmembers hout hdepth i⟩

end Run

/-! ## Arrays of objects -/

/-- A scan that has found some objects and is in none. -/
def between (out : List Text) : Scan := ⟨0, none, false, false, out⟩

theorem outside_between (out : List Text) : Outside (between out) := ⟨rfl, rfl⟩

theorem slice_eq {body before t after : Text} {i j : ℕ} (hbody : body = before ++ (t ++ after))
    (hi : before.length = i) (hj : j + 1 = i + t.length) : slice body i j = t := by
  have hlength : j + 1 - i = t.length := by omega
  rw [slice, hbody, ← hi, List.drop_left, hi, hlength, List.take_left]

/-- An object that is in no other is found whole. -/
theorem run_object {body before t after : Text} (hbody : body = before ++ (t ++ after))
    (h : Derives .object t) (out : List Text) :
    Scan.run body (between out) before.length t = between (out ++ [t]) := by
  obtain ⟨u, rfl, hinside⟩ := exists_between body h
  -- At the first brace the scan remembers the position, and at the last one it is outside again.
  have hopen := step_open body (outside_between out) before.length
  obtain ⟨hout, hpos⟩ := outside_open body (outside_between out) before.length
  rw [run_cons, run_append, hinside _ hout hpos, run_cons, hopen]
  have hslice : slice body before.length (before.length + 1 + u.length) = '{' :: (u ++ ['}']) :=
    slice_eq hbody rfl (by simp; omega)
  simp [between, Scan.run, Scan.step, hslice]

theorem run_item {body before after : Text} (i : Item) (hbody : body = before ++ (i.text ++ after))
    (out : List Text) :
    Scan.run body (between out) before.length i.text = between (out ++ [i.object]) := by
  rw [Item.text, List.append_assoc, List.append_assoc, ← List.append_assoc before] at hbody
  have hobject := run_object hbody i.derives out
  rw [List.length_append] at hobject
  rw [Item.text, run_append, run_blank body (outside_between out), run_append, hobject,
    run_blank body (outside_between _)]

/-- The objects of an array, from the first blank before them on. -/
theorem run_items {body before after : Text} (none : Blank) (items : List Item)
    (hbody : body = before ++ (separated none (items.map Item.text) ++ after)) (out : List Text) :
    Scan.run body (between out) before.length (separated none (items.map Item.text)) =
      between (out ++ items.map Item.object) := by
  induction items generalizing before out with
  | nil =>
    rw [List.map_nil, List.map_nil, List.append_nil]
    exact run_blank body (outside_between out) _ none
  | cons i items ih =>
    cases items with
    | nil => exact run_item i hbody out
    | cons j items =>
      simp only [List.map_cons, separated, List.append_assoc, List.cons_append] at hbody ih ⊢
      have hnext : body = (before ++ (i.text ++ [','])) ++
          (separated none (j.text :: items.map Item.text) ++ after) := by
        simp only [hbody, List.append_assoc, List.singleton_append]
      have hrest := ih hnext (out ++ [i.object])
      simp only [List.length_append, List.length_singleton] at hrest
      rw [run_append, run_item i hbody, run_mark body (outside_between _) _ (by simp),
        Nat.add_assoc, hrest, List.append_assoc, List.singleton_append]

/-- **An array of objects is split into its objects**, each of them whole. -/
theorem objects_text (a : ObjectArray) : objects a.text = a.items.map Item.object := by
  have hout := outside_between []
  have hbody : a.text = (a.lead.text ++ ['[']) ++
      (separated a.none (a.items.map Item.text) ++ (']' :: a.trail.text)) := by
    simp only [ObjectArray.text, ObjectArray.core, List.append_assoc, List.cons_append,
      List.nil_append]
  have hitems := run_items a.none a.items hbody []
  rw [List.length_append, List.length_singleton, List.nil_append] at hitems
  have hlead : Scan.run a.text (between []) 0 (a.lead.text ++ ['[']) = between [] := by
    rw [run_append, run_blank _ hout, run_mark _ hout _ (by simp)]
    rfl
  have hrun : Scan.run a.text (between []) 0 a.text = between (a.items.map Item.object) := by
    calc Scan.run a.text (between []) 0 a.text
        = Scan.run a.text (between []) 0 ((a.lead.text ++ ['[']) ++
            (separated a.none (a.items.map Item.text) ++ (']' :: a.trail.text))) :=
          congrArg _ hbody
      _ = between (a.items.map Item.object) := by
          rw [run_append, hlead, run_append, List.length_append, List.length_singleton,
            Nat.zero_add, hitems, run_mark _ (outside_between _) _ (by simp),
            run_blank _ (outside_between _)]
  exact congrArg Scan.out hrun

end Gateway.Json
