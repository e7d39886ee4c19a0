/-
# Scans over JSON (`oq-gateway/src/json.rs`)

The objects of an array, the field of an object and the object around a text are found in the
characters of a response, by whether the scan is in a string, how deep it is in braces, and where a
key stands in quotes. No tree is built. A position is a number of characters, where the program
counts bytes.
-/
import OpenQuanter.RunFile

namespace Gateway.Json

/-! ## The objects of an array -/

/-- What a scan for objects knows so far. -/
structure Scan where
  depth : ℕ
  start : Option ℕ
  inString : Bool
  escaped : Bool
  out : List Text
  deriving DecidableEq, Repr

/-- `body[from..=to]` -/
def slice (body : Text) (first last : ℕ) : Text := (body.drop first).take (last + 1 - first)

/-- One character of the body, at its position. -/
def Scan.step (body : Text) (s : Scan) (i : ℕ) (c : Char) : Scan :=
  if s.escaped then { s with escaped := false }
  else if c = '\\' ∧ s.inString then { s with escaped := true }
  else if c = '"' then { s with inString := !s.inString }
  else if c = '{' ∧ !s.inString then
    { s with start := if s.depth = 0 then some i else s.start, depth := s.depth + 1 }
  else if c = '}' ∧ !s.inString then
    let depth := s.depth - 1
    match if depth = 0 then s.start else none with
    | some first =>
      { s with depth := depth, start := none, out := s.out ++ [slice body first i] }
    | none => { s with depth := depth }
  else s

/-- The characters from a position on. -/
def Scan.run (body : Text) : Scan → ℕ → Text → Scan
  | s, _, [] => s
  | s, i, c :: cs => Scan.run body (s.step body i c) (i + 1) cs

/-- Split a JSON array into its top-level objects. -/
def objects (body : Text) : List Text := (Scan.run body ⟨0, none, false, false, []⟩ 0 body).out

/-! ## The field of an object -/

/-- What a backslash and a character stand for. -/
def unescaped (c : Char) : Text :=
  if c = '"' then ['"']
  else if c = '\\' then ['\\']
  else if c = '/' then ['/']
  else if c = 'n' then ['\n']
  else if c = 'r' then ['\r']
  else if c = 't' then ['\t']
  else if c = 'b' then [Char.ofNat 8]
  else if c = 'f' then [Char.ofNat 12]
  else ['\\', c]

/-- A JSON string body up to its closing quote. -/
def unescapeFrom (out : Text) : Text → Option Text
  | [] => none
  | c :: chars =>
    if c = '"' then some out
    else if c = '\\' then
      match chars with
      | [] => none
      | e :: chars => unescapeFrom (out ++ unescaped e) chars
    else unescapeFrom (out ++ [c]) chars

def unescapeUntilQuote (inner : Text) : Option Text := unescapeFrom [] inner

/-- `str::find`, of a text. -/
def find (needle : Text) : Text → Option ℕ
  | [] => if needle.isPrefixOf [] then some 0 else none
  | c :: text =>
    if needle.isPrefixOf (c :: text) then some 0 else (find needle text).map (· + 1)

/-- `str::trim_start` -/
def trimStart (text : Text) : Text := text.dropWhile Text.isWhitespace

/-- A key in quotes. -/
def needle (key : Text) : Text := '"' :: (key ++ ['"'])

/-- What a value says, from its first character on. -/
def valueOf (rest : Text) : Option Text :=
  match Text.stripPrefix ['"'] rest with
  | some inner => unescapeUntilQuote inner
  | none => some (Text.trim (rest.takeWhile fun c => c ∉ [',', '}', ']']))

theorem find_add_le {needle text : Text} {n : ℕ} (h : find needle text = some n) :
    n + needle.length ≤ text.length := by
  induction text generalizing n with
  | nil =>
    unfold find at h
    split at h <;> rename_i hbegins
    · rw [Option.some.injEq] at h
      rw [← h, Nat.zero_add]
      exact (List.isPrefixOf_iff_prefix.mp hbegins).length_le
    · cases h
  | cons c text ih =>
    unfold find at h
    split at h <;> rename_i hbegins
    · rw [Option.some.injEq] at h
      rw [← h, Nat.zero_add]
      exact (List.isPrefixOf_iff_prefix.mp hbegins).length_le
    · obtain ⟨m, hm, rfl⟩ := Option.map_eq_some_iff.mp h
      have hle := ih hm
      rw [List.length_cons]
      omega

/-- The value that follows the key in quotes and a colon, looked for from a position on. -/
def rawFieldFrom (body key : Text) (start : ℕ) : Option Text :=
  match _h : find (needle key) (body.drop start) with
  | none => none
  | some n =>
    let at_ := n + start + (needle key).length
    -- A match that is not a key is passed over.
    match Text.stripPrefix [':'] (trimStart (body.drop at_)) with
    | none => rawFieldFrom body key at_
    | some rest => valueOf (trimStart rest)
termination_by body.length - start
decreasing_by
  have hle := find_add_le _h
  rw [List.length_drop] at hle
  simp only [needle, List.length_cons] at hle ⊢
  omega

/-- The raw text following `"key":`, quoted or not. -/
def rawField (body key : Text) : Option Text := rawFieldFrom body key 0

/-! ## The object and the array of a key -/

/-- What follows the key in quotes and a colon, looked for from a position on. -/
def valueAtFrom (body key : Text) (start : ℕ) : Option Text :=
  match _h : find (needle key) (body.drop start) with
  | none => none
  | some n =>
    let at_ := n + start + (needle key).length
    match Text.stripPrefix [':'] (trimStart (body.drop at_)) with
    | none => valueAtFrom body key at_
    | some rest => some (trimStart rest)
termination_by body.length - start
decreasing_by
  have hle := find_add_le _h
  rw [List.length_drop] at hle
  simp only [needle, List.length_cons] at hle ⊢
  omega

def valueAt (body key : Text) : Option Text := valueAtFrom body key 0

/-- Where the bracket closes that has been opened, from a position on. -/
def closeAt (opening closing : Char) (depth : ℕ) (inString escaped : Bool) (i : ℕ) :
    Text → Option ℕ
  | [] => none
  | c :: cs =>
    if escaped then closeAt opening closing depth inString false (i + 1) cs
    else if c = '\\' ∧ inString then closeAt opening closing depth inString true (i + 1) cs
    else if c = '"' then closeAt opening closing depth (!inString) false (i + 1) cs
    else if c = opening ∧ !inString then
      closeAt opening closing (depth + 1) inString false (i + 1) cs
    else if c = closing ∧ !inString then
      if depth - 1 = 0 then some i
      else closeAt opening closing (depth - 1) inString false (i + 1) cs
    else closeAt opening closing depth inString false (i + 1) cs

/-- The object that is the value of `"key"`. -/
def objectField (body key : Text) : Option Text :=
  match valueAt body key with
  | none => none
  | some rest =>
    if ['{'].isPrefixOf rest then
      (closeAt '{' '}' 0 false false 0 rest).map fun i => rest.take (i + 1)
    else none

/-- Where the array closes that a text begins with, and a panic as the outer `none`: a bracket that
closes nothing is taken from a depth of zero. -/
def closeArray (depth : ℕ) (inString escaped : Bool) (i : ℕ) : Text → Option (Option ℕ)
  | [] => some none
  | c :: cs =>
    if escaped then closeArray depth inString false (i + 1) cs
    else if c = '\\' ∧ inString then closeArray depth inString true (i + 1) cs
    else if c = '"' then closeArray depth (!inString) false (i + 1) cs
    else if c = '[' ∧ !inString then closeArray (depth + 1) inString false (i + 1) cs
    else if c = ']' ∧ !inString then
      if depth = 0 then none
      else if depth - 1 = 0 then some (some i)
      else closeArray (depth - 1) inString false (i + 1) cs
    else if depth = 0 then some none
    else closeArray depth inString false (i + 1) cs

/-- The contents of the array following `"key":`, bracket-matched to its close. -/
def arrayField (body key : Text) : Option (Option Text) :=
  match find (needle key) body with
  | none => some none
  | some n =>
    match Text.stripPrefix [':'] (trimStart (body.drop (n + (needle key).length))) with
    | none => some none
    | some rest =>
      let rest := trimStart rest
      (closeArray 0 false false 0 rest).map fun close => close.map fun i => (rest.take i).drop 1

/-! ## The object around a text -/

/-- The brace that is open at the end of a text, which is read backwards; strings are not told from
what is outside of them. The depth is an `i32`, and its overflow the outer `none`. -/
def openBefore (depth : ℕ) : Text → Option (Option ℕ)
  | [] => some none
  | c :: before =>
    if c = '}' then if depth + 1 < 2 ^ 31 then openBefore (depth + 1) before else none
    else if c = '{' ∧ depth = 0 then some (some before.length)
    else if c = '{' then openBefore (depth - 1) before
    else openBefore depth before

/-- The innermost JSON object containing `needle`. -/
def objectContaining (body needle : Text) : Option (Option Text) :=
  match find needle body with
  | none => some none
  | some at_ =>
    (openBefore 0 (body.take at_).reverse).map fun start => start.bind fun start =>
      (closeAt '{' '}' 0 false false 0 (body.drop start)).map fun i => slice body start (start + i)

end Gateway.Json
