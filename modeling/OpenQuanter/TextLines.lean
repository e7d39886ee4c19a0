/-
# Texts by the line

A text is read line by line, a line ending at a newline or at a carriage return and a
newline, the last one also at the end of the text; it is written with a newline behind
each line.  What is written is read back; what was read is written back if the text has
no carriage return and ends in a newline.

Readers take lines from the front.  A reader is told by what it takes: `Lines.bind_ok`
says so of one after the other, and then the lines that are read as a value are the lines
the value is written as.

Nothing here names the program under verification.
-/
import OpenQuanter.Decimal

/-- A text, by its characters. -/
abbrev Text := List Char

/-! ## Lines of a text -/

namespace Text

/-- A line without the carriage return at its end. -/
def stripCr (line : Text) : Text := if line.getLast? = some '\r' then line.dropLast else line

/-- The lines of a text. -/
def lines (text : Text) : List Text :=
  let pieces := text.splitOn '\n'
  pieces.dropLast.map stripCr ++ (pieces.getLast?.filter (· ≠ [])).toList

/-- Each line with a newline behind it. -/
def unlines (ls : List Text) : Text := ls.flatMap (· ++ ['\n'])

@[simp] theorem unlines_nil : unlines [] = [] := rfl

@[simp] theorem unlines_cons (l : Text) (ls : List Text) :
    unlines (l :: ls) = l ++ '\n' :: unlines ls := by
  simp [unlines]

@[simp] theorem unlines_append (ls ls' : List Text) :
    unlines (ls ++ ls') = unlines ls ++ unlines ls' := List.flatMap_append

theorem stripCr_of_not_mem {line : Text} (h : '\r' ∉ line) : stripCr line = line := by
  unfold stripCr
  rw [if_neg fun hlast => h (List.mem_of_getLast? hlast)]

/-- The pieces of what was written, with more behind it. -/
theorem splitOn_unlines_append {ls : List Text} (h : ∀ l ∈ ls, '\n' ∉ l) (rest : Text) :
    (unlines ls ++ rest).splitOn '\n' = ls ++ rest.splitOn '\n' := by
  induction ls with
  | nil => rfl
  | cons l ls ih =>
    rw [List.forall_mem_cons] at h
    rw [unlines_cons, List.append_assoc, List.cons_append,
      List.splitOn_append_cons_self_of_not_mem h.1, ih h.2]
    rfl

/-- **What is written is read back**, and then what is behind it. -/
theorem lines_unlines_append {ls : List Text} (h : ∀ l ∈ ls, '\n' ∉ l ∧ '\r' ∉ l) (rest : Text) :
    lines (unlines ls ++ rest) = ls ++ lines rest := by
  have hpieces : rest.splitOn '\n' ≠ [] := List.splitOn_ne_nil _ _
  unfold lines
  rw [splitOn_unlines_append fun l hl => (h l hl).1]
  simp only [List.dropLast_append_of_ne_nil hpieces, List.map_append,
    List.getLast?_append_of_ne_nil _ hpieces, List.append_assoc]
  rw [List.map_congr_left fun l hl => stripCr_of_not_mem (h l hl).2, List.map_id']

theorem lines_unlines {ls : List Text} (h : ∀ l ∈ ls, '\n' ∉ l ∧ '\r' ∉ l) :
    lines (unlines ls) = ls := by
  have hall := lines_unlines_append h []
  rwa [List.append_nil, show lines [] = [] from rfl, List.append_nil] at hall

/-- Newlines between the lines, and one more. -/
theorem unlines_eq {ls : List Text} (h : ls ≠ []) :
    unlines ls = ['\n'].intercalate ls ++ ['\n'] := by
  induction ls with
  | nil => exact absurd rfl h
  | cons l ls ih =>
    cases ls with
    | nil => simp
    | cons l' ls =>
      rw [unlines_cons, ih (List.cons_ne_nil _ _), List.intercalate_cons_cons]
      simp

/-- The pieces of a text that ends in a newline. -/
theorem pieces_of_getLast {text : Text} (h : text.getLast? = some '\n') :
    ∃ ls, text.splitOn '\n' = ls ++ [[]] ∧ unlines ls = text := by
  obtain ⟨body, rfl⟩ := List.getLast?_eq_some_iff.mp h
  refine ⟨body.splitOn '\n', ?_, ?_⟩
  · rw [List.splitOn_append_cons_self, List.splitOn_nil]
  · rw [unlines_eq (List.splitOn_ne_nil _ _), List.intercalate_splitOn]

/-- **What was read is written back**, if every line ended in a newline alone. -/
theorem unlines_lines {text : Text} (hcr : '\r' ∉ text) (h : text.getLast? = some '\n') :
    unlines (lines text) = text := by
  obtain ⟨ls, hsplit, htext⟩ := pieces_of_getLast h
  have hlines : ∀ l ∈ ls, stripCr l = l := by
    intro l hl
    refine stripCr_of_not_mem fun hmem => hcr ?_
    rw [← htext]
    exact List.mem_flatMap.mpr ⟨l, hl, List.mem_append_left _ hmem⟩
  unfold lines
  rw [hsplit]
  simp only [List.dropLast_concat, List.getLast?_concat]
  rw [List.map_congr_left hlines, List.map_id']
  simpa [Option.filter] using htext

/-- What is written ends in a newline. -/
theorem getLast?_unlines {ls : List Text} (h : ls ≠ []) : (unlines ls).getLast? = some '\n' := by
  obtain ⟨init, last, rfl⟩ := (List.eq_nil_or_concat' ls).resolve_left h
  simp

/-- And has no other carriage returns than its lines. -/
theorem not_mem_unlines {ls : List Text} (h : ∀ l ∈ ls, '\r' ∉ l) : '\r' ∉ unlines ls := by
  intro hmem
  obtain ⟨l, hl, hin⟩ := List.mem_flatMap.mp hmem
  rcases List.mem_append.mp hin with hin | hin
  · exact h l hl hin
  · exact absurd (List.mem_singleton.mp hin) (by decide)

end Text

/-! ## Readers -/

/-- A reader: what it read and the lines that are left, or why it refused. -/
abbrev Lines (α : Type) := StateT (List Text) (Except String) α

namespace Lines

/-- The next line, behind a key; with what is said if there is none, and if it is
another. -/
def field (missing other : String) (key : Text) : Lines Text
  | [] => .error missing
  | row :: rest =>
    if key.isPrefixOf row then .ok (row.drop key.length, rest) else .error other

/-- Go on with what there is, or refuse. -/
def given {α : Type} (v : Except String α) : Lines α := fun ls => v.map (·, ls)

/-- The same reader a number of times. -/
def many {α : Type} (t : Lines α) : (n : Nat) → Lines { as : List α // as.length = n }
  | 0 => pure ⟨[], rfl⟩
  | n + 1 => do
    let a ← t
    let as ← many t n
    pure ⟨a :: as.val, congrArg (· + 1) as.property⟩

/-! ### What they take -/

section

variable {α β : Type} {ls rest : List Text}

theorem pure_ok {a b : α} : (pure a : Lines α) ls = .ok (b, rest) ↔ b = a ∧ ls = rest := by
  constructor
  · intro h
    obtain ⟨rfl, rfl⟩ := Prod.mk.inj (Except.ok.inj h)
    exact ⟨rfl, rfl⟩
  · rintro ⟨rfl, rfl⟩
    rfl

/-- One reader after the other. -/
theorem bind_ok {t : Lines α} {f : α → Lines β} {b : β} :
    (t >>= f) ls = .ok (b, rest) ↔ ∃ a mid, t ls = .ok (a, mid) ∧ f a mid = .ok (b, rest) := by
  show (t ls >>= fun x => f x.1 x.2) = _ ↔ _
  cases h : t ls with
  | error why => exact ⟨fun h => (nomatch h), fun ⟨_, _, h, _⟩ => (nomatch h)⟩
  | ok x =>
    obtain ⟨a, mid⟩ := x
    constructor
    · intro h
      exact ⟨a, mid, rfl, h⟩
    · rintro ⟨a', mid', hx, h⟩
      obtain ⟨rfl, rfl⟩ := Prod.mk.inj (Except.ok.inj hx)
      exact h

theorem field_ok {missing other : String} {key v : Text} :
    field missing other key ls = .ok (v, rest) ↔ ls = (key ++ v) :: rest := by
  cases ls with
  | nil => exact ⟨fun h => (nomatch h), fun h => (nomatch h)⟩
  | cons row ls =>
    show (if key.isPrefixOf row then _ else _) = _ ↔ _
    by_cases hkey : key.isPrefixOf row
    · rw [if_pos hkey]
      obtain ⟨v', rfl⟩ := List.isPrefixOf_iff_prefix.mp hkey
      rw [List.drop_left, Except.ok.injEq, Prod.mk.injEq, List.cons.injEq,
        List.append_cancel_left_eq]
    · rw [if_neg hkey]
      constructor
      · exact fun h => nomatch h
      · intro h
        refine absurd (List.isPrefixOf_iff_prefix.mpr ?_) hkey
        rw [(List.cons.inj h).1]
        exact List.prefix_append _ _

theorem given_ok {v : Except String α} {a : α} :
    given v ls = .ok (a, rest) ↔ v = .ok a ∧ ls = rest := by
  unfold given
  cases v with
  | error why => exact ⟨fun h => (nomatch h), fun ⟨h, _⟩ => (nomatch h)⟩
  | ok a' =>
    rw [Except.ok.injEq]
    constructor
    · intro h
      obtain ⟨rfl, rfl⟩ := Prod.mk.inj (Except.ok.inj h)
      exact ⟨rfl, rfl⟩
    · rintro ⟨rfl, rfl⟩
      rfl

/-- Rows, each of them a line. -/
theorem many_ok {t : Lines α} {write : α → Text}
    (ht : ∀ {a : α} {ls rest : List Text}, t ls = .ok (a, rest) ↔ ls = write a :: rest) {n : Nat}
    {as : { as : List α // as.length = n }} :
    many t n ls = .ok (as, rest) ↔ ls = as.val.map write ++ rest := by
  induction n generalizing ls with
  | zero =>
    obtain ⟨as, has⟩ := as
    obtain rfl := List.length_eq_zero_iff.mp has
    exact pure_ok.trans ⟨fun h => h.2, fun h => ⟨rfl, h⟩⟩
  | succ n ih =>
    obtain ⟨as, has⟩ := as
    obtain ⟨a, as, rfl⟩ := List.exists_cons_of_length_eq_add_one has
    rw [many, bind_ok]
    constructor
    · rintro ⟨a', mid, hfirst, h⟩
      obtain ⟨as', mid', hrest, hpure⟩ := bind_ok.mp h
      obtain ⟨heq, rfl⟩ := pure_ok.mp hpure
      obtain ⟨rfl, rfl⟩ := List.cons.inj (congrArg Subtype.val heq)
      rw [ht.mp hfirst, ih.mp hrest]
      rfl
    · rintro rfl
      refine ⟨a, as.map write ++ rest, ht.mpr rfl, bind_ok.mpr ?_⟩
      exact ⟨⟨as, Nat.succ.inj has⟩, rest, ih.mpr rfl, pure_ok.mpr ⟨rfl, rfl⟩⟩

end

end Lines
