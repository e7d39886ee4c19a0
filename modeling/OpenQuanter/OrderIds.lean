/-
# Client order ids across restarts (`oq-live/src/order_ids.rs`)

Before a session can send it reserves a range of ids, and writes down the end of
the range first: a crash burns the ids it did not use.  The mark is replaced
whole, by a staged file that is renamed over it, so whatever a start leaves
behind, the mark it leaves is the old one or one past it (`reserve_cases`), and a
range begins above every mark there was (`runs_disjoint`).
-/
import OpenQuanter.Decimal

/-- A range of client order ids, its ends included. -/
structure IdRange where
  first : UInt64
  last : UInt64
  deriving DecidableEq, Repr

instance : Membership UInt64 IdRange where
  mem r id := r.first ≤ id ∧ id ≤ r.last

namespace OrderIds

/-! ## The store -/

/-- What a restart finds: the high-water file and a staged replacement. -/
structure Disk where
  ids : Option String
  next : Option String
  deriving DecidableEq, Repr

/-- How the file system goes along with one start.  A crash is an operation that
fails with nobody left to hear of it. -/
structure Answers where
  /-- The directory is there, and the high-water file can be read if there is one. -/
  readable : Bool
  created : Bool
  /-- The staged file was written and synced. -/
  written : Bool
  renamed : Bool
  /-- The directory was synced after the rename. -/
  synced : Bool
  /-- A rename that was not synced survives. -/
  kept : Bool
  /-- What is left of the staged file where the start stops before it is published. -/
  left : Option String
  deriving DecidableEq, Repr

/-- Why no range was reserved. -/
inductive ReserveError where
  | io
  | mark
  | exhausted
  deriving DecidableEq, Repr

/-- Unicode `White_Space`, which `str::trim` takes off both ends. -/
def isWhiteSpace (c : Char) : Bool :=
  c.toNat ∈ [0x20, 0x85, 0xA0, 0x1680, 0x2028, 0x2029, 0x202F, 0x205F, 0x3000] ||
    (0x9 ≤ c.toNat && c.toNat ≤ 0xD) || (0x2000 ≤ c.toNat && c.toNat ≤ 0x200A)

def trim (text : List Char) : List Char :=
  ((text.dropWhile isWhiteSpace).reverse.dropWhile isWhiteSpace).reverse

/-- `str::parse::<u64>`: digits, with a plus sign or without, that fit. -/
def parseU64 (text : List Char) : Option UInt64 :=
  let digits := match text with
    | '+' :: rest => rest
    | _ => text
  match Decimal.parse digits with
  | some n => if n < 2 ^ 64 then some (UInt64.ofNat n) else none
  | none => none

/-- The high-water mark; none was ever written in a new store. -/
def readMark (d : Disk) : Except ReserveError UInt64 :=
  match d.ids with
  | none => .ok 0
  | some text =>
    match parseU64 (trim text.toList) with
    | some mark => .ok mark
    | none => .error .mark

/-- How many ids a start reserves. -/
def reservation : UInt64 := 1000000000

/-- `checked_add` of the reservation. -/
def rangeEnd (floor : UInt64) : Option UInt64 :=
  if floor.toNat < 2 ^ 64 - reservation.toNat then some (floor + reservation) else none

/-- What the mark is written as. -/
def markText (mark : UInt64) : String := toString mark.toNat ++ "\n"

/-- Reserve ids above the mark and above the clock. -/
def reserveOrderIds (d : Disk) (clockFloor : UInt64) (answers : Answers) :
    Disk × Except ReserveError IdRange :=
  if !answers.readable then (d, .error .io)
  else
    match readMark d with
    | .error e => (d, .error e)
    | .ok prior =>
      let floor := max prior clockFloor
      match rangeEnd floor with
      | none => (d, .error .exhausted)
      | some last =>
        -- a leftover staged file refuses the start
        if d.next.isSome || !answers.created then (d, .error .io)
        else if !answers.written || !answers.renamed then
          ({ d with next := answers.left }, .error .io)
        else if answers.synced then
          ({ ids := some (markText last), next := none }, .ok ⟨floor + 1, last⟩)
        -- the rename was done, and whether it lasts is not known
        else if answers.kept then ({ ids := some (markText last), next := none }, .error .io)
        else ({ d with next := answers.left }, .error .io)

/-! ## The mark is read back -/

theorem isWhiteSpace_of_isDigit {c : Char} (h : c.isDigit = true) : isWhiteSpace c = false := by
  have hrange : 48 ≤ c.toNat ∧ c.toNat ≤ 57 := by
    rw [Char.isDigit, Bool.and_eq_true, decide_eq_true_eq, decide_eq_true_eq] at h
    exact h
  simp only [isWhiteSpace, Bool.or_eq_false_iff, decide_eq_false_iff_not, Bool.and_eq_false_iff,
    List.mem_cons, List.not_mem_nil, or_false]
  omega

/-- Nothing is dropped before a text that begins with no blank. -/
theorem dropWhile_plain {text : List Char} (hne : text ≠ [])
    (hplain : ∀ c ∈ text, isWhiteSpace c = false) (rest : List Char) :
    (text ++ rest).dropWhile isWhiteSpace = text ++ rest := by
  cases text with
  | nil => exact absurd rfl hne
  | cons c text =>
    rw [List.cons_append, List.dropWhile_cons_of_neg]
    simpa using hplain c List.mem_cons_self

/-- Trimming takes blanks off both ends of a text, and nothing else. -/
theorem trim_blanks {before text after : List Char} (hbefore : ∀ c ∈ before, isWhiteSpace c = true)
    (hafter : ∀ c ∈ after, isWhiteSpace c = true) (hne : text ≠ [])
    (hplain : ∀ c ∈ text, isWhiteSpace c = false) : trim (before ++ (text ++ after)) = text := by
  have hback : (text.reverse ++ []).dropWhile isWhiteSpace = text.reverse ++ [] :=
    dropWhile_plain (by simpa using hne) (fun c hc => hplain c (List.mem_reverse.mp hc)) []
  unfold trim
  rw [List.dropWhile_append_of_pos hbefore, dropWhile_plain hne hplain, List.reverse_append,
    List.dropWhile_append_of_pos fun c hc => hafter c (List.mem_reverse.mp hc)]
  rw [List.append_nil] at hback
  rw [hback, List.reverse_reverse]

/-- A line end is taken off digits. -/
theorem trim_digits (n : Nat) : trim (Decimal.digits n ++ ['\n']) = Decimal.digits n := by
  have hbefore : ∀ c ∈ ([] : List Char), isWhiteSpace c = true :=
    fun _ hc => absurd hc List.not_mem_nil
  have hafter : ∀ c ∈ ['\n'], isWhiteSpace c = true := by
    intro c hc
    rw [List.mem_singleton.mp hc]
    decide
  have hplain : ∀ c ∈ Decimal.digits n, isWhiteSpace c = false := fun c hc =>
    isWhiteSpace_of_isDigit (Decimal.isDigit_of_mem_digits hc)
  have htrim := trim_blanks hbefore hafter (Decimal.digits_ne_nil n) hplain
  rwa [List.nil_append] at htrim

theorem parseU64_digits (mark : UInt64) : parseU64 (Decimal.digits mark.toNat) = some mark := by
  have hplus : (match Decimal.digits mark.toNat with
      | '+' :: rest => rest
      | _ => Decimal.digits mark.toNat) = Decimal.digits mark.toNat := by
    split
    · rename_i rest hdigits
      have hdigit : Char.isDigit '+' = true :=
        Decimal.isDigit_of_mem_digits (n := mark.toNat) (by rw [hdigits]; exact List.mem_cons_self)
      cases hdigit
    · rfl
  unfold parseU64
  simp only [hplus, Decimal.parse_digits]
  rw [if_pos mark.toNat_lt, UInt64.ofNat_toNat]

/-- **What was written is what a restart reads.** -/
theorem readMark_markText (mark : UInt64) (next : Option String) :
    readMark ⟨some (markText mark), next⟩ = .ok mark := by
  have htext : (markText mark).toList = Decimal.digits mark.toNat ++ ['\n'] := by
    rw [markText, String.toList_append, Decimal.toList_toString]
    rfl
  unfold readMark
  simp only [htext, trim_digits, parseU64_digits]

/-! ## What a start leaves behind -/

theorem rangeEnd_eq_some {floor last : UInt64} (h : rangeEnd floor = some last) :
    last.toNat = floor.toNat + reservation.toNat := by
  unfold rangeEnd at h
  split at h
  · rename_i hfits
    rw [← Option.some.inj h, UInt64.toNat_add, Nat.mod_eq_of_lt (by omega)]
  · cases h

/-- The clock only ever moves the floor up. -/
theorem le_floor (prior clockFloor : UInt64) : prior.toNat ≤ (max prior clockFloor).toNat := by
  show prior.toNat ≤ (if prior ≤ clockFloor then clockFloor else prior).toNat
  split
  · rename_i hle
    exact UInt64.le_iff_toNat_le.mp hle
  · exact Nat.le_refl _

/-- **What one start does**: the mark stays and nothing is reserved, or it moves up
by a range above the old one, which may not have been heard of. -/
theorem reserve_cases (d : Disk) (clockFloor : UInt64) (answers : Answers) :
    ((reserveOrderIds d clockFloor answers).1.ids = d.ids ∧
      ∃ e, (reserveOrderIds d clockFloor answers).2 = .error e) ∨
    ∃ prior last, readMark d = .ok prior ∧ rangeEnd (max prior clockFloor) = some last ∧
      (reserveOrderIds d clockFloor answers).1 = ⟨some (markText last), none⟩ ∧
      ((∃ e, (reserveOrderIds d clockFloor answers).2 = .error e) ∨
        (reserveOrderIds d clockFloor answers).2 = .ok ⟨max prior clockFloor + 1, last⟩) := by
  unfold reserveOrderIds
  split
  · exact .inl ⟨rfl, _, rfl⟩
  · split
    · exact .inl ⟨rfl, _, rfl⟩
    · rename_i prior hmark
      simp only
      split
      · exact .inl ⟨rfl, _, rfl⟩
      · rename_i last hlast
        split
        · exact .inl ⟨rfl, _, rfl⟩
        · split
          · exact .inl ⟨rfl, _, rfl⟩
          · split
            · exact .inr ⟨prior, last, hmark, hlast, rfl, .inr rfl⟩
            · split
              · exact .inr ⟨prior, last, hmark, hlast, rfl, .inl ⟨_, rfl⟩⟩
              · exact .inl ⟨rfl, _, rfl⟩

/-- Every mark a restart may read is at least this. -/
def Above (d : Disk) (bound : Nat) : Prop := ∀ mark, readMark d = .ok mark → bound ≤ mark.toNat

theorem Above.congr {d d' : Disk} {bound : Nat} (h : Above d bound) (hids : d'.ids = d.ids) :
    Above d' bound := by
  intro mark hmark
  apply h
  unfold readMark at hmark ⊢
  rwa [hids] at hmark

theorem above_published {last : UInt64} {bound : Nat} (h : bound ≤ last.toNat) :
    Above ⟨some (markText last), none⟩ bound := by
  intro mark hmark
  rw [readMark_markText] at hmark
  rwa [← Except.ok.inj hmark]

/-- No start takes the mark down. -/
theorem Above.reserve {d : Disk} {bound : Nat} (h : Above d bound) (clockFloor : UInt64)
    (answers : Answers) : Above (reserveOrderIds d clockFloor answers).1 bound := by
  rcases reserve_cases d clockFloor answers with ⟨hids, -⟩ | ⟨prior, last, hmark, hlast, hdisk, -⟩
  · exact h.congr hids
  · rw [hdisk]
    apply above_published
    have hprior := h prior hmark
    have hle := le_floor prior clockFloor
    have hend := rangeEnd_eq_some hlast
    omega

/-- A reserved range starts above every mark there was, and the mark is its end
from then on. -/
theorem reserve_ok {d : Disk} {bound : Nat} (h : Above d bound) {clockFloor : UInt64}
    {answers : Answers} {r : IdRange} (hr : (reserveOrderIds d clockFloor answers).2 = .ok r) :
    bound < r.first.toNat ∧ Above (reserveOrderIds d clockFloor answers).1 r.last.toNat := by
  rcases reserve_cases d clockFloor answers with
    ⟨-, e, he⟩ | ⟨prior, last, hmark, hlast, hdisk, ⟨e, he⟩ | hok⟩
  · cases he.symm.trans hr
  · cases he.symm.trans hr
  · obtain rfl := Except.ok.inj (hok.symm.trans hr)
    rw [hdisk]
    refine ⟨?_, above_published (Nat.le_refl _)⟩
    have hprior := h prior hmark
    have hle := le_floor prior clockFloor
    have hend := rangeEnd_eq_some hlast
    have hlt := last.toNat_lt
    have hpos : 0 < reservation.toNat := by decide
    have hone : (1 : UInt64).toNat = 1 := rfl
    show bound < (max prior clockFloor + 1).toNat
    rw [UInt64.toNat_add, hone, Nat.mod_eq_of_lt (by omega)]
    omega

end OrderIds

/-! ## Numbering the orders of a session -/

/-- The part of a `Session` that numbers its orders. -/
structure IdSequence where
  sequence : UInt64
  sequenceEnd : UInt64
  deriving DecidableEq, Repr

namespace IdSequence

/-- The numbering a session starts with. -/
def fresh : IdSequence := ⟨0, 18446744073709551615⟩

variable (q : IdSequence)

/-- Use a reserved range. -/
def withOrderIdRange (r : IdRange) : Except String IdSequence :=
  if q.sequence ≠ 0 ∨ r.last < r.first ∨ r.first = 0 then
    .error "invalid or late client order id reservation"
  else .ok ⟨r.first - 1, r.last⟩

/-- The next id. -/
def next : Except String (UInt64 × IdSequence) :=
  if q.sequenceEnd ≤ q.sequence then
    .error "reserved client order ids exhausted; restart with a new durable reservation"
  else .ok (q.sequence + 1, { q with sequence := q.sequence + 1 })

/-- The ids of the next orders, as long as there are any. -/
def take (q : IdSequence) : Nat → List UInt64
  | 0 => []
  | n + 1 =>
    match q.next with
    | .error _ => []
    | .ok (id, q) => id :: q.take n

theorem next_ok {q q' : IdSequence} {id : UInt64} (h : q.next = .ok (id, q')) :
    id.toNat = q.sequence.toNat + 1 ∧ id ≤ q.sequenceEnd ∧ q'.sequence = id ∧
      q'.sequenceEnd = q.sequenceEnd := by
  unfold next at h
  split at h
  · cases h
  · rename_i hroom
    obtain ⟨rfl, rfl⟩ := Prod.mk.inj (Except.ok.inj h)
    rw [UInt64.le_iff_toNat_le] at hroom
    have hlt := q.sequenceEnd.toNat_lt
    have hone : (1 : UInt64).toNat = 1 := rfl
    have hid : (q.sequence + 1).toNat = q.sequence.toNat + 1 := by
      rw [UInt64.toNat_add, hone, Nat.mod_eq_of_lt (by omega)]
    refine ⟨hid, ?_, rfl, rfl⟩
    rw [UInt64.le_iff_toNat_le, hid]
    omega

/-- The ids of a session rise, and stay in what is left of its range. -/
theorem take_rises (q : IdSequence) (n : Nat) :
    (q.take n).Pairwise (· < ·) ∧
      ∀ id ∈ q.take n, q.sequence.toNat < id.toNat ∧ id ≤ q.sequenceEnd := by
  induction n generalizing q with
  | zero => exact ⟨List.Pairwise.nil, fun _ h => absurd h List.not_mem_nil⟩
  | succ n ih =>
    unfold take
    split
    · exact ⟨List.Pairwise.nil, fun _ h => absurd h List.not_mem_nil⟩
    · rename_i id q' hnext
      obtain ⟨hid, hle, hseq, hend⟩ := next_ok hnext
      obtain ⟨hsorted, hrange⟩ := ih q'
      rw [hseq, hend] at hrange
      refine ⟨List.pairwise_cons.mpr ⟨fun id' h' => ?_, hsorted⟩, fun id' h' => ?_⟩
      · exact UInt64.lt_iff_toNat_lt.mpr (hrange id' h').1
      · rcases List.mem_cons.mp h' with rfl | h'
        · exact ⟨by omega, hle⟩
        · obtain ⟨hlo, hhi⟩ := hrange id' h'
          exact ⟨by omega, hhi⟩

theorem mem_range_of_withOrderIdRange {q q' : IdSequence} {r : IdRange}
    (h : q.withOrderIdRange r = .ok q') (n : Nat) {id : UInt64} (hid : id ∈ q'.take n) :
    id ∈ r := by
  unfold withOrderIdRange at h
  split at h
  · cases h
  · rename_i hvalid
    obtain rfl := Except.ok.inj h
    obtain ⟨hlo, hhi⟩ := (take_rises _ n).2 id hid
    refine ⟨?_, hhi⟩
    have hfirst : r.first ≠ 0 := fun h0 => hvalid (.inr (.inr h0))
    have hpos : r.first.toNat ≠ 0 := fun h0 => hfirst (UInt64.toNat_inj.mp h0)
    have hone : (1 : UInt64).toNat = 1 := rfl
    have hle : (1 : UInt64) ≤ r.first := by rw [UInt64.le_iff_toNat_le, hone]; omega
    rw [UInt64.le_iff_toNat_le]
    rw [UInt64.toNat_sub_of_le _ _ hle, hone] at hlo
    omega

end IdSequence

/-! ## Process starts -/

namespace OrderIds

/-- One process start: its clock, how the file system went along, and how many orders
it numbers before it ends or crashes. -/
structure Start where
  clockFloor : UInt64
  answers : Answers
  orders : Nat
  deriving DecidableEq, Repr

/-- What a start came to: the range it was given, if it got that far, and the ids it
handed out. -/
structure Run where
  reserved : Option IdRange
  handed : List UInt64
  deriving DecidableEq, Repr

def start (d : Disk) (s : Start) : Disk × Run :=
  match reserveOrderIds d s.clockFloor s.answers with
  | (d, .error _) => (d, ⟨none, []⟩)
  | (d, .ok r) =>
    match IdSequence.fresh.withOrderIdRange r with
    | .error _ => (d, ⟨some r, []⟩)
    | .ok q => (d, ⟨some r, q.take s.orders⟩)

/-- One start after another over one store. -/
def runs : Disk → List Start → List Run
  | _, [] => []
  | d, s :: rest => (start d s).2 :: runs (start d s).1 rest

theorem start_disk (d : Disk) (s : Start) :
    (start d s).1 = (reserveOrderIds d s.clockFloor s.answers).1 := by
  unfold start
  split
  · rename_i heq
    rw [heq]
  · rename_i heq
    rw [heq]
    split <;> rfl

theorem start_reserved {d : Disk} {s : Start} {r : IdRange}
    (h : (start d s).2.reserved = some r) :
    (reserveOrderIds d s.clockFloor s.answers).2 = .ok r := by
  unfold start at h
  split at h
  · cases h
  · rename_i heq
    rw [heq]
    split at h <;> rw [← Option.some.inj h]

/-- What a run hands out rises, and is of the range it reserved. -/
theorem start_handed (d : Disk) (s : Start) :
    (start d s).2.handed.Pairwise (· < ·) ∧
      ∀ id ∈ (start d s).2.handed, ∃ r, (start d s).2.reserved = some r ∧ id ∈ r := by
  unfold start
  split
  · exact ⟨List.Pairwise.nil, fun _ h => absurd h List.not_mem_nil⟩
  · rename_i r heq
    split
    · exact ⟨List.Pairwise.nil, fun _ h => absurd h List.not_mem_nil⟩
    · rename_i q hq
      exact ⟨(q.take_rises s.orders).1, fun id hid =>
        ⟨r, rfl, IdSequence.mem_range_of_withOrderIdRange hq _ hid⟩⟩

/-- Step: a start begins above the mark there was, and leaves a mark its range ends
at or below. -/
theorem start_above {d : Disk} {bound : Nat} (h : Above d bound) (s : Start) :
    Above (start d s).1 bound ∧
      ∀ r, (start d s).2.reserved = some r →
        bound < r.first.toNat ∧ Above (start d s).1 r.last.toNat := by
  rw [start_disk]
  exact ⟨h.reserve _ _, fun r hr => reserve_ok h (start_reserved hr)⟩

theorem runs_above {d : Disk} {bound : Nat} (h : Above d bound) (starts : List Start) :
    ∀ run ∈ runs d starts, ∀ r, run.reserved = some r → bound < r.first.toNat := by
  induction starts generalizing d with
  | nil => exact fun _ hrun => absurd hrun List.not_mem_nil
  | cons s starts ih =>
    obtain ⟨hnext, hrange⟩ := start_above h s
    intro run hrun r hr
    rcases List.mem_cons.mp hrun with rfl | hrun
    · exact (hrange r hr).1
    · exact ih hnext run hrun r hr

/-- **No id is given to two runs**: over any starts, with any clocks, stopped anywhere,
the ranges reserved are disjoint, and every id handed out is of its own run's range,
where it is handed out once. -/
theorem runs_disjoint (d : Disk) (starts : List Start) :
    (runs d starts).Pairwise (fun a b => ∀ r, a.reserved = some r → ∀ r', b.reserved = some r' →
      ∀ id : UInt64, ¬ (id ∈ r ∧ id ∈ r')) ∧
    ∀ run ∈ runs d starts, run.handed.Pairwise (· < ·) ∧
      ∀ id ∈ run.handed, ∃ r, run.reserved = some r ∧ id ∈ r := by
  induction starts generalizing d with
  | nil => exact ⟨List.Pairwise.nil, fun _ hrun => absurd hrun List.not_mem_nil⟩
  | cons s starts ih =>
    obtain ⟨hdisjoint, hhanded⟩ := ih (start d s).1
    refine ⟨List.pairwise_cons.mpr ⟨?_, hdisjoint⟩, ?_⟩
    · intro run hrun r hr r' hr' id hid
      have hzero : Above d 0 := fun _ _ => Nat.zero_le _
      have habove := ((start_above hzero s).2 r hr).2
      -- what comes later starts above the mark this start left
      have hlater := runs_above habove starts run hrun r' hr'
      have hhi := UInt64.le_iff_toNat_le.mp hid.1.2
      have hlo := UInt64.le_iff_toNat_le.mp hid.2.1
      omega
    · intro run hrun
      rcases List.mem_cons.mp hrun with rfl | hrun
      · exact start_handed d s
      · exact hhanded run hrun

/-- A clock that went backwards, after a start that crashed with its range unused. -/
example :
    let fine : Answers := ⟨true, true, true, true, true, true, none⟩
    (runs ⟨none, none⟩ [⟨7, fine, 2⟩, ⟨5, fine, 0⟩, ⟨0, fine, 2⟩]).map (·.handed) =
      [[8, 9], [], [2000000008, 2000000009]] := by
  decide +kernel

end OrderIds
