/-
# Whose order a client id is (`oq-gateway/src/broker.rs`, `Session::send`)

Processes share an account, and tell their orders apart by what a client id begins
with.  An id is a prefix, a hyphen where the venue takes punctuation, and a sequence
number; `isOurs` takes the number with a hyphen before it or without, whatever the
venue.

Without a hyphen two letter prefixes never take each other's ids.  With one they do
when one prefix is the other, a hyphen and the beginning of the number
(`isOurs_composed_iff`).
-/
import OpenQuanter.LiveBook
import OpenQuanter.OrderIds

/-- What a venue takes as a client order id. -/
inductive IdRules where
  | text (maxLen : Nat) (punctuationAllowed : Bool)
  | number (max : UInt64)
  | hex (bytes : Nat)
  deriving DecidableEq, Repr

namespace IdRules

def binance : IdRules := .text 36 true
def okx : IdRules := .text 32 false

/-- Whether a prefix can be told from every longer one. -/
def prefixIsUnambiguous (issued separator : String) : Bool :=
  !separator.isEmpty || !issued.toList.any Char.isDigit

/-- What goes between a prefix and a sequence number. -/
def separator : IdRules → String
  | .text _ true => "-"
  | _ => ""

def isPunctuation (c : Char) : Bool := c ∈ ['.', '_', ':', '/', '-']

def isHexDigit (c : Char) : Bool :=
  c.isDigit || ('a' ≤ c && c ≤ 'f') || ('A' ≤ c && c ≤ 'F')

/-- Whether an id can be used as it stands. -/
def accepts (rules : IdRules) (id : String) : Bool :=
  match rules with
  | .text maxLen punctuationAllowed =>
    !id.isEmpty && id.utf8ByteSize ≤ maxLen &&
      id.toList.all fun c => c.isAlphanum || (punctuationAllowed && isPunctuation c)
  | .number max =>
    match OrderIds.parseU64 id.toList with
    | some v => v ≤ max
    | none => false
  | .hex bytes =>
    id.utf8ByteSize = 2 + bytes * 2 && ['0', 'x'].isPrefixOf id.toList &&
      (id.toList.drop 2).all isHexDigit

/-- The id of an order of a session. -/
def clientId (issued separator : String) (sequence : UInt64) : String :=
  issued ++ separator ++ toString sequence.toNat

end IdRules

/-! ## What a book takes for its own -/

namespace LiveBook

variable {Q : Type}

theorem isPrefixOf?_eq_some {α : Type} [BEq α] [LawfulBEq α] {l₁ l₂ t : List α} :
    List.isPrefixOf? l₁ l₂ = some t ↔ l₂ = l₁ ++ t := by
  induction l₁ generalizing l₂ with
  | nil => simp [List.isPrefixOf?]
  | cons a l₁ ih =>
    cases l₂ with
    | nil => simp [List.isPrefixOf?]
    | cons b l₂ =>
      by_cases hab : a = b
      · subst hab
        simp [List.isPrefixOf?, ih]
      · have hba : ¬ b = a := fun h => hab h.symm
        simp [List.isPrefixOf?, hab, hba]

/-- Digits, at least one. -/
def IsNumeral (ds : List Char) : Prop := ds ≠ [] ∧ ∀ c ∈ ds, c.isDigit = true

theorem isNumeral_digits (n : Nat) : IsNumeral (Decimal.digits n) :=
  ⟨Decimal.digits_ne_nil n, fun _ hc => Decimal.isDigit_of_mem_digits hc⟩

theorem IsNumeral.hyphen_not_mem {ds : List Char} (h : IsNumeral ds) : '-' ∉ ds :=
  fun hc => absurd (h.2 _ hc) (by decide)

theorem isNumeral_iff {ds : List Char} :
    IsNumeral ds ↔ (!ds.isEmpty && ds.all Char.isDigit) = true := by
  simp [IsNumeral]

/-- **What a book takes for its own**: its prefix and a numeral, with a hyphen
between them or without. -/
theorem isOurs_owning {issued : String} (hissued : issued ≠ "") (id : String) :
    (owning issued : LiveBook Q).isOurs id = true ↔
      ∃ ds, IsNumeral ds ∧
        (id.toList = issued.toList ++ ds ∨ id.toList = issued.toList ++ '-' :: ds) := by
  have hempty : issued.isEmpty = false := by simpa using hissued
  unfold isOurs
  simp only [owning, hempty, Bool.false_eq_true, if_false]
  cases hrest : List.isPrefixOf? issued.toList id.toList with
  | none =>
    simp only [Bool.false_eq_true, false_iff, not_exists, not_and, not_or]
    intro ds _
    constructor <;> intro heq
    · cases hrest.symm.trans (isPrefixOf?_eq_some.mpr heq)
    · cases hrest.symm.trans (isPrefixOf?_eq_some.mpr heq)
  | some rest =>
    rw [isPrefixOf?_eq_some] at hrest
    rw [hrest]
    simp only [List.append_cancel_left_eq]
    cases hdash : List.isPrefixOf? ['-'] rest with
    | none =>
      rw [Option.getD_none, ← isNumeral_iff]
      constructor
      · exact fun h => ⟨rest, h, .inl rfl⟩
      · rintro ⟨ds, hds, rfl | rfl⟩
        · exact hds
        · cases hdash.symm.trans (isPrefixOf?_eq_some.mpr rfl)
    | some sequence =>
      rw [isPrefixOf?_eq_some] at hdash
      rw [Option.getD_some, ← isNumeral_iff, hdash]
      constructor
      · exact fun h => ⟨sequence, h, .inr rfl⟩
      · rintro ⟨ds, hds, heq | heq⟩
        · exact absurd (heq ▸ List.mem_cons_self) hds.hyphen_not_mem
        · obtain ⟨-, rfl⟩ := List.cons.inj heq
          exact hds

end LiveBook

/-! ## Two processes on one account -/

namespace IdRules

open LiveBook

/-- A session gives no id to two sequence numbers. -/
theorem clientId_inj {issued separator : String} {m n : UInt64}
    (h : clientId issued separator m = clientId issued separator n) : m = n := by
  have hlist := congrArg String.toList h
  simp only [clientId, String.toList_append, Decimal.toList_toString,
    List.append_cancel_left_eq] at hlist
  exact UInt64.toNat_inj.mp (Decimal.digits_inj hlist)

variable {Q : Type}

theorem toList_clientId (issued separator : String) (sequence : UInt64) :
    (clientId issued separator sequence).toList =
      issued.toList ++ (separator.toList ++ Decimal.digits sequence.toNat) := by
  rw [clientId, String.toList_append, String.toList_append, Decimal.toList_toString,
    List.append_assoc]

/-- A process takes its own ids, whatever the venue puts between. -/
theorem isOurs_own {issued : String} (hissued : issued ≠ "") (rules : IdRules)
    (sequence : UInt64) :
    (owning issued : LiveBook Q).isOurs (clientId issued rules.separator sequence) = true := by
  rw [isOurs_owning hissued]
  refine ⟨_, isNumeral_digits sequence.toNat, ?_⟩
  rw [toList_clientId]
  unfold separator
  split
  · exact .inr rfl
  · exact .inl rfl

/-- A prefix that is another one, a hyphen and the beginning of a number. -/
def Nests (issued other : String) (sequence : UInt64) : Prop :=
  ∃ left right, issued = other ++ "-" ++ left ∧ right ≠ "" ∧
    left ++ right = toString sequence.toNat

theorem nests_iff {issued other : String} {sequence : UInt64} :
    Nests issued other sequence ↔
      ∃ left right, issued.toList = other.toList ++ '-' :: left ∧ right ≠ [] ∧
        Decimal.digits sequence.toNat = left ++ right := by
  unfold Nests
  constructor
  · rintro ⟨left, right, rfl, hright, hnumeral⟩
    refine ⟨left.toList, right.toList, ?_, by simpa using hright, ?_⟩
    · rw [String.toList_append, String.toList_append, List.append_assoc]
      rfl
    · rw [← Decimal.toList_toString, ← hnumeral, String.toList_append]
  · rintro ⟨left, right, hissued, hright, hnumeral⟩
    refine ⟨String.ofList left, String.ofList right, ?_, by simpa using hright, ?_⟩
    · apply String.toList_inj.mp
      -- the first rewrites the literal
      rw [hissued, String.toList_append, String.toList_append, List.append_assoc,
        String.toList_ofList, String.toList_ofList]
      rfl
    · apply String.toList_inj.mp
      rw [String.toList_append, String.toList_ofList, String.toList_ofList,
        Decimal.toList_toString, hnumeral]

/-- With a hyphen between, only a prefix that nests takes another's id: otherwise
the hyphen of the id would stand in a numeral. -/
theorem isOurs_hyphen_iff {issued other : String} (hissued : issued ≠ "")
    (hdistinct : issued ≠ other) (sequence : UInt64) :
    (owning issued : LiveBook Q).isOurs (clientId other "-" sequence) = true ↔
      Nests issued other sequence := by
  have hlists : issued.toList ≠ other.toList := fun h => hdistinct (String.toList_inj.mp h)
  have hdigits := isNumeral_digits sequence.toNat
  rw [isOurs_owning hissued, nests_iff, toList_clientId]
  show (∃ ds, IsNumeral ds ∧ (other.toList ++ '-' :: Decimal.digits sequence.toNat = _ ∨
    other.toList ++ '-' :: Decimal.digits sequence.toNat = _)) ↔ _
  constructor
  · rintro ⟨ds, hds, heq | heq⟩
    · rcases List.append_eq_append_iff.mp heq with ⟨left, hleft, htail⟩ | ⟨extra, -, htail⟩
      · cases left with
        | nil =>
          refine absurd ?_ hds.hyphen_not_mem
          rw [← List.nil_append ds, ← htail]
          exact List.mem_cons_self
        | cons c left =>
          obtain ⟨rfl, hnumeral⟩ := List.cons.inj htail
          exact ⟨left, ds, hleft, hds.1, hnumeral⟩
      · refine absurd ?_ hds.hyphen_not_mem
        rw [htail]
        exact List.mem_append_right _ List.mem_cons_self
    · rcases List.append_eq_append_iff.mp heq with ⟨left, hleft, htail⟩ | ⟨extra, hextra, htail⟩
      · cases left with
        | nil => exact absurd (hleft.trans (List.append_nil _)) hlists
        | cons c left =>
          -- the second hyphen would be one of the digits
          refine absurd ?_ hdigits.hyphen_not_mem
          rw [(List.cons.inj htail).2]
          exact List.mem_append_right _ List.mem_cons_self
      · cases extra with
        | nil => exact absurd (hextra.trans (List.append_nil _)).symm hlists
        | cons c extra =>
          refine absurd ?_ hds.hyphen_not_mem
          rw [(List.cons.inj htail).2]
          exact List.mem_append_right _ List.mem_cons_self
  · rintro ⟨left, right, hleft, hright, hnumeral⟩
    refine ⟨right, ⟨hright, fun c hc => hdigits.2 c ?_⟩, .inl ?_⟩
    · rw [hnumeral]
      exact List.mem_append_right _ hc
    · rw [hleft, hnumeral, List.append_assoc]
      rfl

/-- A prefix of letters and nothing between: what is left of another's id, or of a
longer prefix, begins with a letter. -/
theorem isOurs_plain {issued other : String} (hissued : issued ≠ "")
    (hdistinct : issued ≠ other) (hours : ∀ c ∈ issued.toList, c.isDigit = false)
    (htheirs : ∀ c ∈ other.toList, c.isDigit = false ∧ c ≠ '-') (sequence : UInt64) :
    (owning issued : LiveBook Q).isOurs (clientId other "" sequence) = false := by
  have hlists : issued.toList ≠ other.toList := fun h => hdistinct (String.toList_inj.mp h)
  have hdigits := isNumeral_digits sequence.toNat
  rw [Bool.eq_false_iff]
  intro hclaimed
  rw [isOurs_owning hissued, toList_clientId, String.toList_empty, List.nil_append] at hclaimed
  obtain ⟨ds, hds, heq | heq⟩ := hclaimed
  · rcases List.append_eq_append_iff.mp heq with ⟨left, hleft, htail⟩ | ⟨extra, hextra, htail⟩
    · cases left with
      | nil => exact hlists (hleft.trans (List.append_nil _))
      | cons c left =>
        -- a digit of the number in our prefix
        have hc : c ∈ issued.toList := by
          rw [hleft]
          exact List.mem_append_right _ List.mem_cons_self
        have hdigit := hdigits.2 c (htail ▸ List.mem_cons_self)
        rw [hours c hc] at hdigit
        cases hdigit
    · cases extra with
      | nil => exact hlists (hextra.trans (List.append_nil _)).symm
      | cons c extra =>
        have hc : c ∈ other.toList := by
          rw [hextra]
          exact List.mem_append_right _ List.mem_cons_self
        have hdigit := hds.2 c (htail ▸ List.mem_cons_self)
        rw [(htheirs c hc).1] at hdigit
        cases hdigit
  · rcases List.append_eq_append_iff.mp heq with ⟨left, -, htail⟩ | ⟨extra, hextra, htail⟩
    · refine hdigits.hyphen_not_mem ?_
      rw [htail]
      exact List.mem_append_right _ List.mem_cons_self
    · cases extra with
      | nil =>
        refine hdigits.hyphen_not_mem ?_
        rw [← List.nil_append (Decimal.digits _), ← htail]
        exact List.mem_cons_self
      | cons c extra =>
        have hc : c ∈ other.toList := by
          rw [hextra]
          exact List.mem_append_right _ List.mem_cons_self
        exact (htheirs c hc).2 (List.cons.inj htail).1.symm

/-- What a venue without punctuation takes has no hyphen. -/
theorem hyphen_not_mem_of_accepts {maxLen : Nat} {id : String}
    (h : (text maxLen false).accepts id = true) : ∀ c ∈ id.toList, c ≠ '-' := by
  intro c hc hhyphen
  subst hhyphen
  simp only [accepts, Bool.and_eq_true, List.all_eq_true] at h
  exact absurd (h.2 _ hc) (by decide)

theorem isDigit_eq_false_of_unambiguous {issued : String}
    (h : prefixIsUnambiguous issued "" = true) : ∀ c ∈ issued.toList, c.isDigit = false := by
  intro c hc
  rw [Bool.eq_false_iff]
  intro hdigit
  have hany : issued.toList.any Char.isDigit = true := List.any_eq_true.mpr ⟨c, hc, hdigit⟩
  rw [prefixIsUnambiguous, hany] at h
  exact absurd h (by decide)

/-- **When two processes keep their orders apart**: a process takes its own ids and
not another's, unless there is a hyphen between and its prefix is the other's, a
hyphen and the beginning of the number. -/
theorem owns_own_iff (maxLen : Nat) (punctuationAllowed : Bool) {p q : String}
    (hp : p ≠ "") (_ : q ≠ "") (hpq : p ≠ q)
    (hrules : (text maxLen punctuationAllowed).accepts p = true ∧
      (text maxLen punctuationAllowed).accepts q = true)
    (hadmits : prefixIsUnambiguous p (text maxLen punctuationAllowed).separator = true ∧
      prefixIsUnambiguous q (text maxLen punctuationAllowed).separator = true) (n : UInt64) :
    ((owning p : LiveBook Q).isOurs
        (clientId p (text maxLen punctuationAllowed).separator n) = true ∧
      (owning p : LiveBook Q).isOurs
        (clientId q (text maxLen punctuationAllowed).separator n) = false) ↔
      ¬ (punctuationAllowed = true ∧ Nests p q n) := by
  have hown := isOurs_own (Q := Q) hp (text maxLen punctuationAllowed) n
  cases punctuationAllowed with
  | true =>
    have hother := isOurs_hyphen_iff (Q := Q) hp hpq n
    show (_ ∧ (owning p : LiveBook Q).isOurs (clientId q "-" n) = false) ↔ _
    rw [← hother, Bool.eq_false_iff]
    exact ⟨fun h hc => h.2 hc.2, fun h => ⟨hown, fun hc => h ⟨rfl, hc⟩⟩⟩
  | false =>
    have hours := isDigit_eq_false_of_unambiguous hadmits.1
    have htheirs : ∀ c ∈ q.toList, c.isDigit = false ∧ c ≠ '-' := fun c hc =>
      ⟨isDigit_eq_false_of_unambiguous hadmits.2 c hc, hyphen_not_mem_of_accepts hrules.2 c hc⟩
    exact ⟨fun _ hc => Bool.false_ne_true hc.1, fun _ =>
      ⟨hown, isOurs_plain hp hpq hours htheirs n⟩⟩

theorem owns_own_iff_binance :
    ((owning "oq-2" : LiveBook Nat).isOurs (clientId "oq-2" "-" 15) = true ∧
      (owning "oq-2" : LiveBook Nat).isOurs (clientId "oq" "-" 15) = false) ↔
      ¬ (true = true ∧ Nests "oq-2" "oq" 15) :=
  owns_own_iff 36 true (by decide) (by decide) (by decide) (by decide +kernel)
    (by decide +kernel) 15

/-- The processes trading as `a` and as `a-1` on one account: the fifteenth order of
the first is the fifth of the second. -/
theorem isOurs_of_nests :
    binance = text 36 true ∧ ("a-1" ≠ "" ∧ "a" ≠ "" ∧ "a-1" ≠ "a") ∧
    (binance.accepts "a-1" = true ∧ binance.accepts "a" = true) ∧
    (prefixIsUnambiguous "a-1" binance.separator = true ∧
      prefixIsUnambiguous "a" binance.separator = true) ∧
    (owning "a-1" : LiveBook Nat).isOurs (clientId "a" binance.separator 15) = true := by
  decide +kernel

end IdRules
