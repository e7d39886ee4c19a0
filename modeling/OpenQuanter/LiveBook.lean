/-
# What the process believes it holds (`Book` of `oq-live/src/book.rs`)

Positions and resting orders, built from the account's event stream and from the
answers to what was sent.  The two race, and the stream repeats itself.

Which orders are believed resting depends on what was heard and not on when: an
order is resting exactly when it was sent or reported new and was never reported
ended (`Tracks.hear`).  Positions are decimal quantities of the source; they are
left as any type with a reader, a sum and a negation.
-/
import OpenQuanter.Dedup

/-- The decimal quantities a venue reports as text. -/
class Quantity (Q : Type) where
  parse : String → Option Q
  add : Q → Q → Q
  neg : Q → Q

/-- What the book reads of an order update. -/
structure OrderUpdate where
  symbol : String
  clientId : String
  status : String
  lastQty : String
  side : String
  positionSide : String
  tradeId : Option Int64

/-- One leg of one contract. -/
structure Position (Q : Type) where
  symbol : String
  side : String
  amount : Q

/-- The positions and resting orders this process believes in. -/
structure LiveBook (Q : Type) where
  positions : List (Position Q)
  working : List String
  ended : Finset String
  seenTrades : String → TradeWindow String
  duplicates : Nat
  stale : Nat
  issued : String
  foreign : Nat

/-- ASCII letters compared without case. -/
def eqIgnoreAsciiCase (a b : String) : Bool :=
  a.toList.map Char.toLower = b.toList.map Char.toLower

/-- The statuses an order ends with. -/
def endings : List String := ["FILLED", "CANCELED", "EXPIRED", "EXPIRED_IN_MATCH", "REJECTED"]

namespace LiveBook

variable {Q : Type}

/-- A book that only takes orders whose client id starts with what this process
issues (`prefix` of the source); every order, if that is empty. -/
def owning (issued : String) : LiveBook Q where
  positions := []
  working := []
  ended := ∅
  seenTrades := fun _ => TradeWindow.withWidth TradeWindow.window
  duplicates := 0
  stale := 0
  issued := issued
  foreign := 0

/-- Whether an id is one this process composed: what it issues, then a sequence
of digits, with a dash between them or without. -/
def isOurs (b : LiveBook Q) (clientId : String) : Bool :=
  if b.issued.isEmpty then true
  else
    match List.isPrefixOf? b.issued.toList clientId.toList with
    | none => false
    | some rest =>
      let sequence := (List.isPrefixOf? ['-'] rest).getD rest
      !sequence.isEmpty && sequence.all Char.isDigit

/-- The lifecycle half of `apply`: an order of ours that ends is not resting, and
never again. -/
def endOrder (b : LiveBook Q) (u : OrderUpdate) : LiveBook Q :=
  if b.isOurs u.clientId && u.status ∈ endings then
    { b with
      ended := insert u.clientId b.ended
      working := b.working.filter (· ≠ u.clientId) }
  else b

/-- Believe an order resting, unless it ended or is there. -/
def rest (b : LiveBook Q) (clientId : String) : LiveBook Q :=
  if clientId ∈ b.ended ∨ clientId ∈ b.working then b
  else { b with working := b.working ++ [clientId] }

/-- An order the venue accepted. -/
def onSent (b : LiveBook Q) (clientId : String) : LiveBook Q := b.rest clientId

variable [Quantity Q]

/-- Move the leg a fill names by the quantity it traded. -/
def bookFill (b : LiveBook Q) (u : OrderUpdate) (qty : Q) : LiveBook Q :=
  let signed := if eqIgnoreAsciiCase u.side "BUY" then qty else Quantity.neg qty
  let leg := if u.positionSide.isEmpty then "BOTH" else u.positionSide
  let held := fun p : Position Q => p.symbol = u.symbol && eqIgnoreAsciiCase p.side leg
  match b.positions.findIdx? held with
  | some i =>
    { b with
      positions := b.positions.modify i fun p => { p with amount := Quantity.add p.amount signed } }
  | none =>
    { b with
      positions := b.positions ++
        [{ symbol := u.symbol, side := String.ofList (leg.toList.map Char.toUpper)
           amount := signed }] }

/-- What is left to do for an update whose fill, if it is one, was booked. -/
def settle (b : LiveBook Q) (u : OrderUpdate) (isFill endedWorking : Bool) : LiveBook Q × Bool :=
  if !b.isOurs u.clientId then ({ b with foreign := b.foreign + 1 }, isFill)
  else if u.status = "NEW" then
    (b.rest u.clientId, !(u.clientId ∈ b.ended || u.clientId ∈ b.working))
  else if u.status ∈ ["CANCELED", "EXPIRED", "EXPIRED_IN_MATCH", "REJECTED"] then (b, endedWorking)
  else (b, isFill)

/-- Apply one order update, with whether it changed anything. -/
def apply (b : LiveBook Q) (u : OrderUpdate) : LiveBook Q × Bool :=
  let ours := b.isOurs u.clientId
  -- lifecycle first: even a fill that is not booked can end an order
  let after := b.endOrder u
  let endedWorking := decide (b.working.length ≠ after.working.length)
  let isFill := u.status = "PARTIALLY_FILLED" || u.status = "FILLED"
  if isFill then
    match u.tradeId with
    | none => (if ours then after else { after with foreign := after.foreign + 1 }, endedWorking)
    | some tradeId =>
      match Quantity.parse (Q := Q) u.lastQty with
      | none => after.settle u isFill endedWorking
      | some qty =>
        match (after.seenTrades u.symbol).insert (UInt64.ofNat tradeId.toInt.natAbs) u.clientId with
        | (.duplicate, _) =>
          (if ours then { after with duplicates := after.duplicates + 1 } else after, endedWorking)
        | (.stale, _) => ({ after with stale := after.stale + 1 }, endedWorking)
        | (.new, window) =>
          ({ after with
              seenTrades := Function.update after.seenTrades u.symbol window }.bookFill u
                qty).settle
            u isFill endedWorking
  else after.settle u isFill endedWorking

/-! ## What an update does to the orders -/

/-- The same orders, whatever else differs. -/
structure SameOrders (b b' : LiveBook Q) : Prop where
  working : b'.working = b.working
  ended : b'.ended = b.ended
  issued : b'.issued = b.issued

omit [Quantity Q] in
theorem SameOrders.refl (b : LiveBook Q) : SameOrders b b := ⟨rfl, rfl, rfl⟩

theorem sameOrders_bookFill (b : LiveBook Q) (u : OrderUpdate) (qty : Q) :
    SameOrders b (b.bookFill u qty) := by
  unfold bookFill
  dsimp only
  split
  · exact ⟨rfl, rfl, rfl⟩
  · exact ⟨rfl, rfl, rfl⟩

/-- The orders after an update of ours: ended by its status, resting by `NEW`. -/
def ordersAfter (b : LiveBook Q) (u : OrderUpdate) : LiveBook Q :=
  if u.status = "NEW" then (b.endOrder u).rest u.clientId else b.endOrder u

omit [Quantity Q] in
theorem isOurs_congr {b b' : LiveBook Q} (h : b'.issued = b.issued) (id : String) :
    b'.isOurs id = b.isOurs id := by
  unfold isOurs
  rw [h]

omit [Quantity Q] in
theorem issued_endOrder (b : LiveBook Q) (u : OrderUpdate) : (b.endOrder u).issued = b.issued := by
  unfold endOrder
  split
  · rfl
  · rfl

omit [Quantity Q] in
theorem issued_rest (b : LiveBook Q) (id : String) : (b.rest id).issued = b.issued := by
  unfold rest
  split
  · rfl
  · rfl

omit [Quantity Q] in
theorem issued_ordersAfter (b : LiveBook Q) (u : OrderUpdate) :
    (b.ordersAfter u).issued = b.issued := by
  unfold ordersAfter
  split
  · rw [issued_rest, issued_endOrder]
  · exact issued_endOrder b u

omit [Quantity Q] in
/-- Settling an update of ours touches the orders only for `NEW`. -/
theorem sameOrders_settle {b b' : LiveBook Q} {u : OrderUpdate} {isFill endedWorking : Bool}
    (hsame : SameOrders (b.endOrder u) b') (hours : b.isOurs u.clientId = true) :
    SameOrders (b.ordersAfter u) (b'.settle u isFill endedWorking).1 := by
  have hours' : b'.isOurs u.clientId = true := by
    rw [isOurs_congr (hsame.issued.trans (b.issued_endOrder u)), hours]
  unfold settle ordersAfter
  rw [hours', Bool.not_true, if_neg Bool.false_ne_true]
  split_ifs with hnew
  · unfold rest
    rw [hsame.working, hsame.ended]
    split
    · exact hsame
    · exact ⟨rfl, rfl, hsame.issued⟩
  · exact hsame
  · exact hsame

/-- **What an update of ours does to the orders** does not depend on whether its
fill was booked, known, too old or unreadable. -/
theorem sameOrders_apply {b : LiveBook Q} {u : OrderUpdate} (hours : b.isOurs u.clientId = true) :
    SameOrders (b.ordersAfter u) (b.apply u).1 := by
  have hfill : u.status = "PARTIALLY_FILLED" ∨ u.status = "FILLED" →
      b.ordersAfter u = b.endOrder u := by
    rintro (hstatus | hstatus)
    · rw [ordersAfter, if_neg (by rw [hstatus]; decide)]
    · rw [ordersAfter, if_neg (by rw [hstatus]; decide)]
  have hsettle : ∀ {b' : LiveBook Q} {isFill endedWorking : Bool},
      SameOrders (b.endOrder u) b' →
        SameOrders (b.ordersAfter u) (b'.settle u isFill endedWorking).1 :=
    fun hsame => sameOrders_settle hsame hours
  unfold apply
  simp only [hours, if_true]
  split
  · rename_i hisFill
    rw [Bool.or_eq_true, decide_eq_true_eq, decide_eq_true_eq] at hisFill
    have hafter := hfill hisFill
    split
    · rw [hafter]
      exact .refl _
    · split
      · exact hsettle (.refl _)
      · split
        · rw [hafter]
          exact ⟨rfl, rfl, rfl⟩
        · rw [hafter]
          exact ⟨rfl, rfl, rfl⟩
        · apply hsettle
          have hbooked := sameOrders_bookFill (Q := Q)
          exact ⟨(hbooked _ _ _).working, (hbooked _ _ _).ended, (hbooked _ _ _).issued⟩
  · exact hsettle (.refl _)

/-! ## What was heard -/

end LiveBook

/-- What reaches the book about an order: the answer to a send, or an update of
the stream. -/
inductive Heard where
  | sent (clientId : String)
  | update (u : OrderUpdate)

namespace Heard

def clientId : Heard → String
  | .sent id => id
  | .update u => u.clientId

/-- It says that the order rests. -/
def Begins (id : String) : Heard → Prop
  | .sent id' => id' = id
  | .update u => u.clientId = id ∧ u.status = "NEW"

/-- It says that the order ended. -/
def Ends (id : String) : Heard → Prop
  | .sent _ => False
  | .update u => u.clientId = id ∧ u.status ∈ endings

end Heard

namespace LiveBook

variable {Q : Type} [Quantity Q]

def hear (b : LiveBook Q) : Heard → LiveBook Q
  | .sent id => b.onSent id
  | .update u => (b.apply u).1

/-- The orders of a book are those of what it heard. -/
structure Tracks (b : LiveBook Q) (heard : List Heard) : Prop where
  nodup : b.working.Nodup
  ended : ∀ id, id ∈ b.ended ↔ ∃ m ∈ heard, m.Ends id
  working : ∀ id, id ∈ b.working ↔ (∃ m ∈ heard, m.Begins id) ∧ ¬ ∃ m ∈ heard, m.Ends id

omit [Quantity Q] in
theorem Tracks.congr {b b' : LiveBook Q} {heard : List Heard} (h : b.Tracks heard)
    (hsame : SameOrders b b') : b'.Tracks heard where
  nodup := hsame.working ▸ h.nodup
  ended := by
    rw [hsame.ended]
    exact h.ended
  working := by
    rw [hsame.working]
    exact h.working

omit [Quantity Q] in
theorem tracks_owning (issued : String) : (owning issued : LiveBook Q).Tracks [] where
  nodup := List.nodup_nil
  ended id := by simp [owning]
  working id := by simp [owning]

omit [Quantity Q] in
/-- Believing an order resting is what a message that begins it asks for. -/
theorem Tracks.rest {b : LiveBook Q} {heard : List Heard} {m : Heard} {id : String}
    (h : b.Tracks heard) (hbegins : ∀ other, m.Begins other ↔ id = other)
    (hends : ∀ other, ¬ m.Ends other) : (b.rest id).Tracks (heard ++ [m]) := by
  have hended : ∀ other, other ∈ b.ended ↔ ∃ m' ∈ heard ++ [m], m'.Ends other := by
    intro other
    rw [h.ended]
    simp [or_and_right, exists_or, hends]
  have hbegun : ∀ other, (∃ m' ∈ heard ++ [m], m'.Begins other) ↔
      (∃ m' ∈ heard, m'.Begins other) ∨ id = other := by
    intro other
    simp [or_and_right, exists_or, hbegins]
  have hold : ∀ other, other ∈ b.working ↔
      (∃ m' ∈ heard, m'.Begins other) ∧ other ∉ b.ended := by
    intro other
    rw [h.working, h.ended]
  unfold LiveBook.rest
  split
  · rename_i hthere
    refine ⟨h.nodup, hended, fun other => ?_⟩
    rw [← hended, hbegun, hold]
    constructor
    · exact fun ⟨hb, he⟩ => ⟨.inl hb, he⟩
    · rintro ⟨hb | rfl, he⟩
      · exact ⟨hb, he⟩
      -- the order itself: ended it cannot be here, so it was resting
      · exact (hold id).1 (hthere.resolve_left he)
  · rename_i hthere
    rw [not_or] at hthere
    obtain ⟨hended', hworking'⟩ := hthere
    refine ⟨?_, hended, fun other => ?_⟩
    · exact List.nodup_append.2 ⟨h.nodup, List.nodup_singleton id, fun a ha b' hb' => by
        rw [List.mem_singleton.1 hb']
        rintro rfl
        exact hworking' ha⟩
    · rw [← hended, hbegun, List.mem_append, List.mem_singleton, hold]
      constructor
      · rintro (⟨hb, he⟩ | rfl)
        · exact ⟨.inl hb, he⟩
        · exact ⟨.inr rfl, hended'⟩
      · rintro ⟨hb | rfl, he⟩
        · exact .inl ⟨hb, he⟩
        · exact .inr rfl

omit [Quantity Q] in
/-- An update that is not `NEW` tracks by what it ends. -/
theorem Tracks.endOrder {b : LiveBook Q} {heard : List Heard} {u : OrderUpdate}
    (h : b.Tracks heard) (hours : b.isOurs u.clientId = true) (hnew : u.status ≠ "NEW") :
    (b.endOrder u).Tracks (heard ++ [.update u]) := by
  have hbegun : ∀ id, (∃ m ∈ heard ++ [.update u], m.Begins id) ↔ ∃ m ∈ heard, m.Begins id := by
    intro id
    simp [or_and_right, exists_or, Heard.Begins, hnew]
  have hends : ∀ id, (∃ m ∈ heard ++ [.update u], m.Ends id) ↔
      (∃ m ∈ heard, m.Ends id) ∨ u.clientId = id ∧ u.status ∈ endings := by
    intro id
    simp only [List.mem_append, List.mem_singleton, or_and_right, exists_or, exists_eq_left,
      Heard.Ends]
  unfold LiveBook.endOrder
  rw [hours, Bool.true_and]
  split
  · rename_i hstatus
    rw [decide_eq_true_eq] at hstatus
    refine ⟨h.nodup.filter _, fun id => ?_, fun id => ?_⟩
    · rw [hends, Finset.mem_insert, h.ended, and_iff_left hstatus, @eq_comm _ id, or_comm]
    · rw [hbegun, hends, List.mem_filter, h.working, decide_eq_true_eq, and_iff_left hstatus,
        not_or, and_assoc, ne_comm]
  · rename_i hstatus
    rw [decide_eq_true_eq] at hstatus
    refine ⟨h.nodup, fun id => ?_, fun id => ?_⟩
    · rw [hends, h.ended, or_iff_left fun hends => hstatus hends.2]
    · rw [hbegun, hends, h.working, or_iff_left fun hends => hstatus hends.2]

/-- One message of ours, one more thing heard. -/
theorem Tracks.hear {b : LiveBook Q} {heard : List Heard} (h : b.Tracks heard) (m : Heard)
    (hours : b.isOurs m.clientId = true) : (b.hear m).Tracks (heard ++ [m]) := by
  cases m with
  | sent id => exact h.rest (fun _ => Iff.rfl) (fun _ => not_false)
  | update u =>
    refine Tracks.congr ?_ (sameOrders_apply hours)
    unfold ordersAfter
    split
    · rename_i hnew
      have hnot : u.status ∉ endings := by
        rw [hnew]
        decide
      -- `NEW` is no ending, so the lifecycle half leaves the book
      have hleft : b.endOrder u = b := by
        rw [LiveBook.endOrder, decide_eq_false hnot, Bool.and_false, if_neg Bool.false_ne_true]
      rw [hleft]
      refine h.rest (fun other => ?_) (fun other hends => hnot hends.2)
      exact ⟨fun hb => hb.1, fun hb => ⟨hb, hnew⟩⟩
    · rename_i hnew
      exact h.endOrder hours hnew

theorem issued_hear (b : LiveBook Q) (m : Heard) (hours : b.isOurs m.clientId = true) :
    (b.hear m).issued = b.issued := by
  cases m with
  | sent id => exact issued_rest b id
  | update u => exact (sameOrders_apply hours).issued.trans (issued_ordersAfter b u)

/-- Any number of messages of ours. -/
theorem Tracks.foldl {heard : List Heard} (rest : List Heard) {b : LiveBook Q}
    (h : b.Tracks heard) (hours : ∀ m ∈ rest, b.isOurs m.clientId = true) :
    (rest.foldl LiveBook.hear b).Tracks (heard ++ rest) := by
  induction rest generalizing b heard with
  | nil =>
    rw [List.append_nil]
    exact h
  | cons m rest ih =>
    have hm := hours m List.mem_cons_self
    have hrest : ∀ m' ∈ rest, (b.hear m).isOurs m'.clientId = true := by
      intro m' hm'
      rw [isOurs_congr (issued_hear b m hm)]
      exact hours m' (List.mem_cons_of_mem _ hm')
    rw [List.append_cons]
    exact ih (h.hear m hm) hrest

/-- **The working set does not depend on message order.**  However the answers
and the updates about orders of ours interleave or repeat: at no point does the
set hold an id twice or one that was reported ended, at the end it is what was
sent or reported new less what was reported ended, and another delivery of the
same messages ends with the same orders. -/
theorem working_of_heard (issued : String) (heard : List Heard)
    (hours : ∀ m ∈ heard, (owning issued : LiveBook Q).isOurs m.clientId = true) :
    (∀ k, let b := (heard.take k).foldl LiveBook.hear (owning issued : LiveBook Q)
      b.working.Nodup ∧ ∀ id ∈ b.working, ¬ ∃ m ∈ heard.take k, m.Ends id) ∧
    (∀ id, id ∈ (heard.foldl LiveBook.hear (owning issued : LiveBook Q)).working ↔
      (∃ m ∈ heard, m.Begins id) ∧ ¬ ∃ m ∈ heard, m.Ends id) ∧
    ∀ again : List Heard, (∀ m, m ∈ again ↔ m ∈ heard) →
      (again.foldl LiveBook.hear (owning issued : LiveBook Q)).working.Perm
        (heard.foldl LiveBook.hear (owning issued : LiveBook Q)).working := by
  have htracks : ∀ l : List Heard, (∀ m ∈ l, m ∈ heard) →
      (l.foldl LiveBook.hear (owning issued : LiveBook Q)).Tracks l :=
    fun l hl => (tracks_owning issued).foldl l fun m hm => hours m (hl m hm)
  refine ⟨fun k => ?_, (htracks heard fun _ => id).working, fun again hagain => ?_⟩
  · have hk := htracks (heard.take k) fun m => List.mem_of_mem_take
    exact ⟨hk.nodup, fun id hid => ((hk.working id).1 hid).2⟩
  · have hthat := htracks again fun m => (hagain m).1
    have hthis := htracks heard fun _ => id
    rw [List.perm_ext_iff_of_nodup hthat.nodup hthis.nodup]
    intro id
    rw [hthat.working, hthis.working]
    simp only [hagain]

end LiveBook

/-- Whole quantities, written as Lean writes integers. -/
instance : Quantity Int where
  parse := String.toInt?
  add := (· + ·)
  neg := (- ·)

namespace LiveBook

/-- A cancel heard before the send returned, then the late `NEW` of the same
order beside a send that nothing ended. -/
def racedMessages : List Heard :=
  let canceled : OrderUpdate :=
    { symbol := "BTCUSDT", clientId := "oq-1", status := "CANCELED", lastQty := "0"
      side := "BUY", positionSide := "BOTH", tradeId := none }
  [.update canceled, .sent "oq-1", .sent "oq-2", .update { canceled with status := "NEW" }]

theorem working_of_heard_raced :
    (∀ m ∈ racedMessages, (owning "oq" : LiveBook Int).isOurs m.clientId = true) ∧
    ∀ id, id ∈ (racedMessages.foldl LiveBook.hear (owning "oq" : LiveBook Int)).working ↔
      (∃ m ∈ racedMessages, m.Begins id) ∧ ¬ ∃ m ∈ racedMessages, m.Ends id := by
  have hours : ∀ m ∈ racedMessages, (owning "oq" : LiveBook Int).isOurs m.clientId = true := by
    decide
  exact ⟨hours, (working_of_heard "oq" racedMessages hours).2.1⟩

end LiveBook
