/-
# JSON texts

The grammar of JSON over characters, with every blank between two tokens a part of the text, and
two shapes of it by themselves: the array of objects and the flat object.

* A text derives from a part of the grammar (`Derives`); a string is a list of pieces and a bare
  value is a number or a word, whatever the grammar allows and nothing else.
* Flat objects and arrays of objects are values of the grammar (`FlatObject.derives`,
  `ObjectArray.derives`).
* An object stands in a text of the grammar where a derivation of the text has one (`ObjectAt`).

Nothing here names the program under verification.
-/
import Mathlib

namespace JsonText

/-! ## Tokens -/

def isBlank (c : Char) : Bool := c = ' ' || c = '\t' || c = '\n' || c = '\r'

/-- What may stand between two tokens. -/
structure Blank where
  text : List Char
  blank : ∀ c ∈ text, isBlank c = true

def Blank.none : Blank := ⟨[], fun _ hc => nomatch hc⟩

/-- What stands for itself in a string. -/
def isPlain (c : Char) : Bool := c ≠ '"' && c ≠ '\\' && ' ' ≤ c

def isHexDigit (c : Char) : Bool :=
  ('0' ≤ c && c ≤ '9') || ('a' ≤ c && c ≤ 'f') || ('A' ≤ c && c ≤ 'F')

/-- The escapes of one letter. -/
inductive Escape where
  | quote | backslash | slash | newline | carriageReturn | tab | backspace | formFeed
  deriving DecidableEq, Repr

namespace Escape

def letter : Escape → Char
  | quote => '"'
  | backslash => '\\'
  | slash => '/'
  | newline => 'n'
  | carriageReturn => 'r'
  | tab => 't'
  | backspace => 'b'
  | formFeed => 'f'

/-- The character that is escaped. -/
def char : Escape → Char
  | quote => '"'
  | backslash => '\\'
  | slash => '/'
  | newline => '\n'
  | carriageReturn => '\r'
  | tab => '\t'
  | backspace => Char.ofNat 8
  | formFeed => Char.ofNat 12

end Escape

/-- A piece of a string. -/
inductive Piece where
  | plain (c : Char) (h : isPlain c = true)
  | escape (e : Escape)
  | unicode (a b c d : Char) (h : ∀ x ∈ [a, b, c, d], isHexDigit x = true)

namespace Piece

def text : Piece → List Char
  | plain c _ => [c]
  | escape e => ['\\', e.letter]
  | unicode a b c d _ => ['\\', 'u', a, b, c, d]

/-- What a piece says. An escape by a number is left as it is written. -/
def value : Piece → List Char
  | plain c _ => [c]
  | escape e => [e.char]
  | unicode a b c d _ => ['\\', 'u', a, b, c, d]

end Piece

/-- The pieces of a text that stands for itself. -/
def plainPieces : (text : List Char) → (∀ c ∈ text, isPlain c = true) → List Piece
  | [], _ => []
  | c :: text, h =>
    .plain c (h c List.mem_cons_self) ::
      plainPieces text fun d hd => h d (List.mem_cons_of_mem c hd)

/-- What is between the quotes of a string. -/
def written (pieces : List Piece) : List Char := pieces.flatMap Piece.text

/-- What a string says. -/
def said (pieces : List Piece) : List Char := pieces.flatMap Piece.value

def quoted (text : List Char) : List Char := '"' :: (text ++ ['"'])

theorem written_plainPieces (text : List Char) (h : ∀ c ∈ text, isPlain c = true) :
    written (plainPieces text h) = text := by
  induction text with
  | nil => rfl
  | cons c text ih =>
    rw [plainPieces, written, List.flatMap_cons]
    exact congrArg (c :: ·) (ih _)

/-- The digits of a number, of which there is one at least. -/
structure Digits where
  first : Fin 10
  rest : List (Fin 10)

def digit (d : Fin 10) : Char := Nat.digitChar d

def Digits.text (ds : Digits) : List Char := (ds.first :: ds.rest).map digit

/-- The whole part of a number, which does not begin with a zero unless it is one. -/
inductive Whole where
  | zero
  | nonzero (first : Fin 10) (h : first ≠ 0) (rest : List (Fin 10))

def Whole.text : Whole → List Char
  | zero => ['0']
  | nonzero first _ rest => (first :: rest).map digit

/-- An exponent: a letter, perhaps a sign, and digits. -/
structure Exponent where
  capital : Bool
  sign : Option Bool
  digits : Digits

def Exponent.text (e : Exponent) : List Char :=
  (if e.capital then 'E' else 'e') ::
    ((e.sign.elim [] fun minus => [if minus then '-' else '+']) ++ e.digits.text)

structure Number where
  negative : Bool
  whole : Whole
  fraction : Option Digits
  exponent : Option Exponent

def Number.text (n : Number) : List Char :=
  (if n.negative then ['-'] else []) ++
    (n.whole.text ++ ((n.fraction.elim [] fun ds => '.' :: ds.text) ++
      n.exponent.elim [] Exponent.text))

/-- A value without quotes or brackets. -/
inductive Bare where
  | true | false | null
  | number (n : Number)

def Bare.text : Bare → List Char
  | .true => ['t', 'r', 'u', 'e']
  | .false => ['f', 'a', 'l', 's', 'e']
  | .null => ['n', 'u', 'l', 'l']
  | .number n => n.text

/-- What bare values are written with. -/
def bareChars : List Char :=
  ['+', '-', '.', '0', '1', '2', '3', '4', '5', '6', '7', '8', '9', 'E', 'a', 'e', 'f', 'l', 'n',
    'r', 's', 't', 'u']

section BareChars

theorem digit_mem (d : Fin 10) : digit d ∈ bareChars := by
  revert d
  decide

theorem digits_mem {ds : List (Fin 10)} {c : Char} (h : c ∈ ds.map digit) : c ∈ bareChars := by
  obtain ⟨d, -, rfl⟩ := List.mem_map.mp h
  exact digit_mem d

theorem Whole.text_mem {w : Whole} {c : Char} (h : c ∈ w.text) : c ∈ bareChars := by
  cases w with
  | zero =>
    rw [List.mem_singleton.mp h]
    decide
  | nonzero first _ rest => exact digits_mem h

theorem Exponent.text_mem {e : Exponent} {c : Char} (h : c ∈ e.text) : c ∈ bareChars := by
  obtain ⟨capital, sign, digits⟩ := e
  rw [text, List.mem_cons, List.mem_append] at h
  rcases h with rfl | h | h
  · cases capital with
    | false => exact (by decide : 'e' ∈ bareChars)
    | true => exact (by decide : 'E' ∈ bareChars)
  · rcases sign with _ | minus
    · cases h
    · rw [List.mem_singleton.mp h]
      cases minus <;> decide
  · exact digits_mem h

theorem Number.text_mem {n : Number} {c : Char} (h : c ∈ n.text) : c ∈ bareChars := by
  obtain ⟨negative, whole, fraction, exponent⟩ := n
  simp only [text, List.mem_append] at h
  rcases h with h | h | h | h
  · cases negative with
    | false => cases h
    | true =>
      rw [List.mem_singleton.mp h]
      decide
  · exact whole.text_mem h
  · rcases fraction with _ | ds
    · cases h
    · rcases List.mem_cons.mp h with rfl | h
      · decide
      · exact digits_mem h
  · rcases exponent with _ | e
    · cases h
    · exact e.text_mem h

theorem Bare.text_mem {b : Bare} {c : Char} (h : c ∈ b.text) : c ∈ bareChars := by
  have htrue : ∀ c ∈ ['t', 'r', 'u', 'e'], c ∈ bareChars := by simp [bareChars]
  have hfalse : ∀ c ∈ ['f', 'a', 'l', 's', 'e'], c ∈ bareChars := by simp [bareChars]
  have hnull : ∀ c ∈ ['n', 'u', 'l', 'l'], c ∈ bareChars := by simp [bareChars]
  cases b with
  | number n => exact n.text_mem h
  | true => exact htrue c h
  | false => exact hfalse c h
  | null => exact hnull c h

theorem Bare.text_ne_nil (b : Bare) : b.text ≠ [] := by
  cases b with
  | number n =>
    obtain ⟨negative, whole, fraction, exponent⟩ := n
    cases negative <;> cases whole <;> simp [text, Number.text, Whole.text]
  | true => decide
  | false => decide
  | null => decide

end BareChars

/-! ## The grammar -/

/-- The parts of a text that the grammar derives. -/
inductive Part where
  | value | items | members | object

/-- A text of a part of the grammar. -/
inductive Derives : Part → List Char → Prop
  | string (pieces : List Piece) : Derives .value (quoted (written pieces))
  | bare (b : Bare) : Derives .value b.text
  | noItems (w : Blank) : Derives .value ('[' :: (w.text ++ [']']))
  | array {t : List Char} : Derives .items t → Derives .value ('[' :: (t ++ [']']))
  | nested {t : List Char} : Derives .object t → Derives .value t
  | lastItem (v w : Blank) {t : List Char} : Derives .value t →
      Derives .items (v.text ++ (t ++ w.text))
  | nextItem (v w : Blank) {t u : List Char} : Derives .value t → Derives .items u →
      Derives .items (v.text ++ (t ++ w.text) ++ ',' :: u)
  | noMembers (w : Blank) : Derives .object ('{' :: (w.text ++ ['}']))
  | object {t : List Char} : Derives .members t → Derives .object ('{' :: (t ++ ['}']))
  | lastMember (v w x y : Blank) (key : List Piece) {t : List Char} : Derives .value t →
      Derives .members
        (v.text ++ (quoted (written key) ++ (w.text ++ ':' :: (x.text ++ (t ++ y.text)))))
  | nextMember (v w x y : Blank) (key : List Piece) {t u : List Char} : Derives .value t →
      Derives .members u →
      Derives .members
        (v.text ++ (quoted (written key) ++ (w.text ++ ':' :: (x.text ++ (t ++ y.text)))) ++
          ',' :: u)

/-- Texts with commas between them, or a blank if there is none. -/
def separated (none : Blank) : List (List Char) → List Char
  | [] => none.text
  | [t] => t
  | t :: u :: ts => t ++ ',' :: separated none (u :: ts)

/-! ## Arrays of objects -/

/-- An object with the blanks around it. -/
structure Item where
  before : Blank
  object : List Char
  derives : Derives .object object
  after : Blank

def Item.text (i : Item) : List Char := i.before.text ++ (i.object ++ i.after.text)

structure ObjectArray where
  lead : Blank
  none : Blank
  items : List Item
  trail : Blank

/-- The array itself. -/
def ObjectArray.core (a : ObjectArray) : List Char :=
  '[' :: (separated a.none (a.items.map Item.text) ++ [']'])

def ObjectArray.text (a : ObjectArray) : List Char := a.lead.text ++ (a.core ++ a.trail.text)

theorem derives_items (none : Blank) (i : Item) (items : List Item) :
    Derives .items (separated none ((i :: items).map Item.text)) := by
  induction items generalizing i with
  | nil => exact .lastItem i.before i.after (.nested i.derives)
  | cons j items ih => exact .nextItem i.before i.after (.nested i.derives) (ih j)

theorem ObjectArray.derives (a : ObjectArray) : Derives .value a.core := by
  obtain ⟨lead, none, items, trail⟩ := a
  cases items with
  | nil => exact .noItems none
  | cons i items => exact .array (derives_items none i items)

/-! ## Flat objects -/

/-- A value that has no others in it. -/
inductive Scalar where
  | string (pieces : List Piece)
  | bare (b : Bare)

namespace Scalar

def text : Scalar → List Char
  | string pieces => quoted (written pieces)
  | bare b => b.text

/-- What a value says: a string without its quotes and escapes, any other as it is written. -/
def value : Scalar → List Char
  | string pieces => said pieces
  | bare b => b.text

theorem derives (s : Scalar) : Derives .value s.text := by
  cases s with
  | string pieces => exact .string pieces
  | bare b => exact .bare b

end Scalar

/-- A member with a key that stands for itself. -/
structure Member where
  before : Blank
  key : List Char
  plain : ∀ c ∈ key, isPlain c = true
  afterKey : Blank
  beforeValue : Blank
  value : Scalar
  after : Blank

def Member.text (m : Member) : List Char :=
  m.before.text ++ (quoted m.key ++
    (m.afterKey.text ++ ':' :: (m.beforeValue.text ++ (m.value.text ++ m.after.text))))

structure FlatObject where
  lead : Blank
  none : Blank
  members : List Member
  trail : Blank

/-- The object itself. -/
def FlatObject.core (o : FlatObject) : List Char :=
  '{' :: (separated o.none (o.members.map Member.text) ++ ['}'])

def FlatObject.text (o : FlatObject) : List Char := o.lead.text ++ (o.core ++ o.trail.text)

theorem derives_members (none : Blank) (m : Member) (members : List Member) :
    Derives .members (separated none ((m :: members).map Member.text)) := by
  have hkey := written_plainPieces
  induction members generalizing m with
  | nil =>
    have h := Derives.lastMember m.before m.afterKey m.beforeValue m.after
      (plainPieces m.key m.plain) m.value.derives
    rw [hkey] at h
    exact h
  | cons n members ih =>
    have h := Derives.nextMember m.before m.afterKey m.beforeValue m.after
      (plainPieces m.key m.plain) m.value.derives (ih n)
    rw [hkey] at h
    exact h

theorem FlatObject.derives (o : FlatObject) : Derives .object o.core := by
  obtain ⟨lead, none, members, trail⟩ := o
  cases members with
  | nil => exact .noMembers none
  | cons m members => exact .object (derives_members none m members)

/-! ## The objects of a text -/

/-- An object that stands in a text of the grammar, between what is before it and behind it. -/
inductive ObjectAt : Part → List Char → List Char → List Char → List Char → Prop
  | self {t : List Char} : Derives .object t → ObjectAt .object t [] t []
  | array {t f o b : List Char} : ObjectAt .items t f o b →
      ObjectAt .value ('[' :: (t ++ [']'])) ('[' :: f) o (b ++ [']'])
  | nested {t f o b : List Char} : ObjectAt .object t f o b → ObjectAt .value t f o b
  | lastItem (v w : Blank) {t f o b : List Char} : ObjectAt .value t f o b →
      ObjectAt .items (v.text ++ (t ++ w.text)) (v.text ++ f) o (b ++ w.text)
  | headItem (v w : Blank) {t u f o b : List Char} : ObjectAt .value t f o b → Derives .items u →
      ObjectAt .items (v.text ++ (t ++ w.text) ++ ',' :: u) (v.text ++ f) o
        (b ++ (w.text ++ ',' :: u))
  | laterItem (v w : Blank) {t u f o b : List Char} : Derives .value t → ObjectAt .items u f o b →
      ObjectAt .items (v.text ++ (t ++ w.text) ++ ',' :: u)
        (v.text ++ (t ++ w.text) ++ ',' :: f) o b
  | object {t f o b : List Char} : ObjectAt .members t f o b →
      ObjectAt .object ('{' :: (t ++ ['}'])) ('{' :: f) o (b ++ ['}'])
  | lastMember (v w x y : Blank) (key : List Piece) {t f o b : List Char} :
      ObjectAt .value t f o b →
      ObjectAt .members
        (v.text ++ (quoted (written key) ++ (w.text ++ ':' :: (x.text ++ (t ++ y.text)))))
        (v.text ++ (quoted (written key) ++ (w.text ++ ':' :: (x.text ++ f)))) o (b ++ y.text)
  | headMember (v w x y : Blank) (key : List Piece) {t u f o b : List Char} :
      ObjectAt .value t f o b → Derives .members u →
      ObjectAt .members
        (v.text ++ (quoted (written key) ++ (w.text ++ ':' :: (x.text ++ (t ++ y.text)))) ++
          ',' :: u)
        (v.text ++ (quoted (written key) ++ (w.text ++ ':' :: (x.text ++ f)))) o
        (b ++ (y.text ++ ',' :: u))
  | laterMember (v w x y : Blank) (key : List Piece) {t u f o b : List Char} : Derives .value t →
      ObjectAt .members u f o b →
      ObjectAt .members
        (v.text ++ (quoted (written key) ++ (w.text ++ ':' :: (x.text ++ (t ++ y.text)))) ++
          ',' :: u)
        (v.text ++ (quoted (written key) ++ (w.text ++ ':' :: (x.text ++ (t ++ y.text)))) ++
          ',' :: f) o b

theorem ObjectAt.text_eq {part : Part} {t f o b : List Char} (h : ObjectAt part t f o b) :
    t = f ++ (o ++ b) := by
  induction h with
  | self _ => simp
  | nested _ ih => exact ih
  | array _ ih | object _ ih | lastItem _ _ _ ih | headItem _ _ _ _ ih | laterItem _ _ _ _ ih
  | lastMember _ _ _ _ _ _ ih | headMember _ _ _ _ _ _ _ ih | laterMember _ _ _ _ _ _ _ ih =>
    rw [ih]
    simp

/-- What holds an object is a text of the grammar. -/
theorem ObjectAt.derives {part : Part} {t f o b : List Char} (h : ObjectAt part t f o b) :
    Derives part t := by
  induction h with
  | self h => exact h
  | nested _ ih => exact .nested ih
  | array _ ih => exact .array ih
  | object _ ih => exact .object ih
  | lastItem v w _ ih => exact .lastItem v w ih
  | headItem v w _ hu ih => exact .nextItem v w ih hu
  | laterItem v w ht _ ih => exact .nextItem v w ht ih
  | lastMember v w x y key _ ih => exact .lastMember v w x y key ih
  | headMember v w x y key _ hu ih => exact .nextMember v w x y key ih hu
  | laterMember v w x y key ht _ ih => exact .nextMember v w x y key ht ih

theorem ObjectAt.isObject {part : Part} {t f o b : List Char} (h : ObjectAt part t f o b) :
    Derives .object o := by
  induction h with
  | self h => exact h
  | nested _ ih | array _ ih | object _ ih | lastItem _ _ _ ih | headItem _ _ _ _ ih
  | laterItem _ _ _ _ ih | lastMember _ _ _ _ _ _ ih | headMember _ _ _ _ _ _ _ ih
  | laterMember _ _ _ _ _ _ _ ih => exact ih

/-- A value with the blanks around it. -/
structure Document where
  lead : Blank
  core : List Char
  derives : Derives .value core
  trail : Blank

namespace Document

def text (d : Document) : List Char := d.lead.text ++ (d.core ++ d.trail.text)

/-- An object of a document. -/
def Holds (d : Document) (front object back : List Char) : Prop :=
  ∃ f b, ObjectAt .value d.core f object b ∧ front = d.lead.text ++ f ∧ back = b ++ d.trail.text

variable {d : Document} {front object back : List Char}

theorem Holds.text_eq (h : d.Holds front object back) : d.text = front ++ (object ++ back) := by
  obtain ⟨f, b, hat, rfl, rfl⟩ := h
  rw [text, hat.text_eq]
  simp

theorem Holds.isObject (h : d.Holds front object back) : Derives .object object := by
  obtain ⟨f, b, hat, -, -⟩ := h
  exact hat.isObject

end Document

end JsonText
