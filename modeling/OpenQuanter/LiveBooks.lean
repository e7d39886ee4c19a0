/-
# The live process's own books (`Books` of `oq-live/src/books.rs`)

The kernel a backtest uses, matched by the venue, behind the window that tells a
redelivered fill from a new one.  A fill is booked once: what the window answers
decides it, before the fee is looked at and before the kernel moves.  So a run
of deliveries is the run of the first deliveries alone
(`run_withoutRepeats`).
-/
import OpenQuanter.Dedup
import OpenQuanter.Kernel

/-- What happened to a fill the venue reported. -/
inductive Booked where
  | applied (outputs : List Output)
  | duplicate
  | unidentifiable
  | stale
  deriving DecidableEq, Repr

/-- `record::venue_fee`: a model fee schedule is not evidence of what a venue
charged. -/
def Fee.observed : Fee → Fee
  | .unsaid => .unreadable
  | other => other

/-- The live account, kept by the kernel. -/
structure LiveBooks where
  kernel : Kernel
  instrument : InstrumentId
  /-- Fills already booked, by venue trade id and side. -/
  seen : TradeWindow Side
  booked : Nat
  unpricedFills : List Fill
  recoveredFees : List (Fill × Cash)

namespace LiveBooks

/-- `Books::new`: the venue matches, and no liquidation is made up locally. -/
def new (instrument : InstrumentId) (contract : Contract) (table : TierTable)
    (startingBalance : Cash) (mode : PositionMode) : LiveBooks where
  kernel := Kernel.new
    ((((State.new instrument contract table startingBalance).withoutLiquidation).withMatching
      .venue).withMode mode)
  instrument := instrument
  seen := TradeWindow.withWidth TradeWindow.window
  booked := 0
  unpricedFills := []
  recoveredFees := []

variable (b : LiveBooks)

/-- The same books after an event of the kernel. -/
def applying (event : Event) : Books LiveBooks := do
  let kernel ← b.kernel.apply event
  pure { b with kernel := kernel }

/-- The fill a position adopted from the venue is expressed as. -/
def adopted (side : Side) (qty : QtyLots) (entry : PriceTicks) (at_ : Nanos) : Fill where
  stamp := ⟨at_, at_⟩
  instrument := b.instrument
  order := 0
  trade := 0
  side := side
  offset := .opening
  price := entry
  qty := qty
  liquidity := .taker

/-- Adopt a position the venue already holds.  Nothing says what it cost. -/
def adopt (side : Side) (qty : QtyLots) (entry : PriceTicks) (at_ : Nanos) : Books LiveBooks :=
  if qty ≤ 0 then pure b
  else b.applying (.venueFill (b.adopted side qty entry at_) .unreadable)

/-- Fold an observation into the books. -/
def onTick (tick : Tick) : Books LiveBooks := b.applying (.tick none tick)

/-- Record that an order was sent. -/
def onSubmit (id : OrderId) (side : Side) (qty : QtyLots) (offset : Offset) (at_ : Nanos) :
    Books LiveBooks :=
  b.applying (.submit none id side none qty offset ⟨at_, at_⟩)

/-- Book funding the venue charged. -/
def onFundingCharged (amount : Cash) (at_ : Nanos) : Books LiveBooks :=
  b.applying (.fundingCharged none at_ amount)

/-- Book a fill the window answered `new` for. -/
def bookNew (seen : TradeWindow Side) (fill : Fill) (fee : Fee) : Books LiveBooks :=
  let unpriced := if fee.observed = .unreadable then b.unpricedFills ++ [fill] else b.unpricedFills
  ({ b with seen := seen, booked := b.booked + 1, unpricedFills := unpriced } : LiveBooks).applying
    (.venueFill fill fee.observed)

/-- Book a fill the venue reported, with what it said the fill cost. -/
def onVenueFill (fill : Fill) (fee : Fee) : Books (LiveBooks × Booked) :=
  if fill.trade = 0 then pure (b, .unidentifiable)
  else
    match b.seen.insert fill.trade fill.side with
    | (.new, seen) => do
      let b ← b.bookNew seen fill fee
      pure (b, .applied b.kernel.outputs)
    | (.duplicate, seen) => pure ({ b with seen := seen }, .duplicate)
    | (.stale, seen) => pure ({ b with seen := seen }, .stale)

/-- Recover a prior unknown commission, exactly once.  The whole original fill
binds it. -/
def recoverFee (fill : Fill) (amount : Cash) (at_ : Nanos) :
    Books (LiveBooks × Except String Bool) :=
  if at_ < fill.stamp.local_ then pure (b, .error "fee recovery precedes execution receipt")
  else
    match b.recoveredFees.find? (·.1 = fill) with
    | some (_, prior) =>
      if prior = amount then pure (b, .ok false)
      else pure (b, .error "fee recovery conflicts with already booked evidence")
    | none =>
      if fill ∈ b.unpricedFills then do
        let unpriced := b.unpricedFills.erase fill
        -- a list in memory is shorter than 2^64
        let remaining := UInt64.ofNatClamp unpriced.length
        let kernel ← b.kernel.apply (.feeRecovered at_ amount remaining)
        pure
          ({ b with
              kernel := kernel
              unpricedFills := unpriced
              recoveredFees := b.recoveredFees ++ [(fill, amount)] }, .ok true)
      else pure (b, .error "fee recovery has no exact pending unknown-fee execution")

/-- Whether this trade is already in the books. -/
def hasBooked (trade : TradeId) (side : Side) : Bool := b.seen.contains trade side

/-- Whether the fee total covers every fill. -/
def feesKnown : Bool := b.kernel.state.feesKnown

/-- Realized profit, fees and funding since the run started, apart. -/
def realizedParts : Cash × Cash × Cash :=
  (b.kernel.state.realized, b.kernel.state.fees, b.kernel.state.funding)

/-- The two legs, long then short. -/
def legs : QtyLots × QtyLots := (b.kernel.summary.qty, b.kernel.summary.shortQty)

/-- Equity at the last mark seen. -/
def equity : Cash := b.kernel.summary.equity

end LiveBooks

/-- A call of the books. -/
inductive BooksCall where
  | adopt (side : Side) (qty : QtyLots) (entry : PriceTicks) (at_ : Nanos)
  | tick (tick : Tick)
  | submit (id : OrderId) (side : Side) (qty : QtyLots) (offset : Offset) (at_ : Nanos)
  | fill (fill : Fill) (fee : Fee)
  | recover (fill : Fill) (amount : Cash) (at_ : Nanos)
  | funding (amount : Cash) (at_ : Nanos)
  deriving DecidableEq, Repr

namespace LiveBooks

/-- One call, with its answer dropped. -/
def step (b : LiveBooks) : BooksCall → Books LiveBooks
  | .adopt side qty entry at_ => b.adopt side qty entry at_
  | .tick tick => b.onTick tick
  | .submit id side qty offset at_ => b.onSubmit id side qty offset at_
  | .fill fill fee => Prod.fst <$> b.onVenueFill fill fee
  | .recover fill amount at_ => Prod.fst <$> b.recoverFee fill amount at_
  | .funding amount at_ => b.onFundingCharged amount at_

/-- A run of calls. -/
def run (b : LiveBooks) (calls : List BooksCall) : Books LiveBooks := calls.foldlM step b

/-! ## Refused fills -/

/-- A fill was not booked. -/
def Refused : Booked → Prop
  | .applied _ => False
  | _ => True

/-- **A fill is refused exactly when** it has no trade id or its trade is
accounted for, and then nothing changes. -/
theorem refused_iff (b : LiveBooks) (fill : Fill) (fee : Fee) :
    Refused (b.onVenueFill fill fee).val.2 ↔
      fill.trade = 0 ∨ b.hasBooked fill.trade fill.side = true := by
  unfold onVenueFill hasBooked
  rw [TradeWindow.contains_iff]
  split
  · rename_i hid
    simp [Refused, hid]
  · rename_i hid
    split <;> rename_i heq <;> simp [Refused, hid, heq]

theorem onVenueFill_of_refused {b : LiveBooks} {fill : Fill} {fee : Fee}
    (h : Refused (b.onVenueFill fill fee).val.2) :
    Prod.fst <$> b.onVenueFill fill fee = pure b := by
  unfold onVenueFill at h ⊢
  split_ifs with hid
  · rfl
  · rw [if_neg hid] at h
    have hsame := b.seen.insert_of_ne_new fill.trade fill.side
    rcases hinsert : b.seen.insert fill.trade fill.side with ⟨answer, seen⟩
    rw [hinsert] at h hsame
    cases answer with
    | new => exact absurd h id
    -- a known and a stale pair leave the window as it was
    | duplicate =>
      have hseen : seen = b.seen := hsame (by simp)
      rw [hseen]
      rfl
    | stale =>
      have hseen : seen = b.seen := hsame (by simp)
      rw [hseen]
      rfl

/-! ## What a call does to the window -/

/-- Only a delivery moves the window. -/
theorem seen_step (b : LiveBooks) (call : BooksCall) :
    (b.step call).val.seen = b.seen ∨
      ∃ fill fee, call = .fill fill fee ∧
        (b.step call).val.seen = (b.seen.insert fill.trade fill.side).2 := by
  cases call with
  | fill fill fee =>
    show (b.onVenueFill fill fee).val.1.seen = b.seen ∨ _
    unfold onVenueFill
    split
    · exact .inl rfl
    · refine .inr ⟨fill, fee, rfl, ?_⟩
      show (b.onVenueFill fill fee).val.1.seen = _
      unfold onVenueFill
      rw [if_neg (by assumption)]
      split <;> rename_i heq <;> rw [heq] <;> rfl
  | adopt side qty entry at_ =>
    left
    show (b.adopt side qty entry at_).val.seen = b.seen
    unfold adopt
    split
    · rfl
    · rfl
  | recover fill amount at_ =>
    left
    show (b.recoverFee fill amount at_).val.1.seen = b.seen
    unfold recoverFee
    split
    · rfl
    · split
      · split
        · rfl
        · rfl
      · split
        · rfl
        · rfl
  | tick tick => exact .inl rfl
  | submit id side qty offset at_ => exact .inl rfl
  | funding amount at_ => exact .inl rfl

/-- The trade and the side a call delivers. -/
def deliveredKey : BooksCall → Option (TradeId × Side)
  | .fill fill _ => some (fill.trade, fill.side)
  | _ => none

/-- A delivery of this pair would be refused. -/
def Settled (b : LiveBooks) (key : TradeId × Side) : Prop :=
  key.1 = 0 ∨ b.hasBooked key.1 key.2 = true

theorem Settled.step {b : LiveBooks} {key : TradeId × Side} (h : b.Settled key)
    (call : BooksCall) : (b.step call).val.Settled key := by
  refine h.imp id fun hbooked => ?_
  unfold hasBooked at hbooked ⊢
  rcases b.seen_step call with hseen | ⟨fill, fee, -, hseen⟩
  · rw [hseen]
    exact hbooked
  · rw [hseen]
    exact b.seen.contains_insert_of_contains _ _ hbooked

/-- What was delivered once would be refused from then on. -/
theorem settled_delivered (b : LiveBooks) {call : BooksCall} {key : TradeId × Side}
    (h : deliveredKey call = some key) : (b.step call).val.Settled key := by
  cases call with
  | fill fill fee =>
    obtain rfl : (fill.trade, fill.side) = key := Option.some.inj h
    rw [Settled, or_iff_not_imp_left]
    intro hid
    have hself := b.seen.contains_insert_self fill.trade fill.side
    show (b.onVenueFill fill fee).val.1.seen.contains fill.trade fill.side = true
    unfold onVenueFill
    rw [if_neg hid]
    split <;> rename_i heq <;> rw [heq] at hself <;> exact hself
  | _ => exact absurd h (by simp [deliveredKey])

/-! ## Redelivery -/

/-- The calls without the deliveries of a pair in `known` or delivered before. -/
def withoutRepeats : List (TradeId × Side) → List BooksCall → List BooksCall
  | _, [] => []
  | known, call :: rest =>
    match deliveredKey call with
    | none => call :: withoutRepeats known rest
    | some key =>
      if key ∈ known then withoutRepeats known rest
      else call :: withoutRepeats (key :: known) rest

theorem run_cons (b : LiveBooks) (call : BooksCall) (rest : List BooksCall) :
    b.run (call :: rest) = (b.step call >>= fun b => b.run rest) :=
  List.foldlM_cons

/-- A repeated delivery does nothing. -/
theorem step_of_settled {b : LiveBooks} {call : BooksCall} {key : TradeId × Side}
    (hkey : deliveredKey call = some key) (h : b.Settled key) : b.step call = pure b := by
  cases call with
  | fill fill fee =>
    obtain rfl : (fill.trade, fill.side) = key := Option.some.inj hkey
    exact onVenueFill_of_refused ((b.refused_iff fill fee).mpr h)
  | _ => exact absurd hkey (by simp [deliveredKey])

/-- A run that knows some pairs to be accounted for need not be given them. -/
theorem run_withoutRepeats_of_settled (calls : List BooksCall) {b : LiveBooks}
    {known : List (TradeId × Side)} (h : ∀ key ∈ known, b.Settled key) :
    b.run calls = b.run (withoutRepeats known calls) := by
  induction calls generalizing b known with
  | nil => rfl
  | cons call rest ih =>
    rw [withoutRepeats]
    split
    · rw [run_cons, run_cons]
      ext1
      · rw [Logged.val_bind, Logged.val_bind, ih fun key hkey => (h key hkey).step call]
      · rw [Logged.faults_bind, Logged.faults_bind, ih fun key hkey => (h key hkey).step call]
    · rename_i key hkey
      split
      · rename_i hmem
        rw [run_cons, step_of_settled hkey (h key hmem), pure_bind]
        exact ih h
      · have hnext : ∀ key' ∈ key :: known, (b.step call).val.Settled key' := by
          intro key' hkey'
          rcases List.mem_cons.mp hkey' with rfl | hmem
          · exact b.settled_delivered hkey
          · exact (h key' hmem).step call
        rw [run_cons, run_cons]
        ext1
        · rw [Logged.val_bind, Logged.val_bind, ih hnext]
        · rw [Logged.faults_bind, Logged.faults_bind, ih hnext]

/-- **Redelivery leaves the books unchanged.**  A run of calls is the run
without the repeated deliveries of a trade and a side, whatever fee the repeats
carry; a fill that has no trade id or is too old to tell is refused, a refused
fill changes nothing, and the fills that are refused are those with no trade id
and those `hasBooked` answers for. -/
theorem run_withoutRepeats (instrument : InstrumentId) (contract : Contract) (table : TierTable)
    (balance : Cash) (mode : PositionMode) (calls : List BooksCall) :
    (new instrument contract table balance mode).run calls =
      (new instrument contract table balance mode).run (withoutRepeats [] calls) ∧
    ∀ (b : LiveBooks) (fill : Fill) (fee : Fee),
      (fill.trade = 0 ∨ fill.trade < b.seen.floor →
        Refused (b.onVenueFill fill fee).val.2) ∧
      (Refused (b.onVenueFill fill fee).val.2 → Prod.fst <$> b.onVenueFill fill fee = pure b) ∧
      (Refused (b.onVenueFill fill fee).val.2 ↔
        fill.trade = 0 ∨ b.hasBooked fill.trade fill.side = true) := by
  refine ⟨run_withoutRepeats_of_settled calls (by simp), fun b fill fee => ⟨?_, ?_, ?_⟩⟩
  · intro h
    rw [refused_iff]
    refine h.imp id fun hlow => ?_
    simp [hasBooked, TradeWindow.contains, hlow]
  · exact onVenueFill_of_refused
  · exact b.refused_iff fill fee

/-- Books of the tests: one instrument, one-way, a flat account. -/
def exampleBooks : LiveBooks :=
  new 1 ⟨10000⟩ TierTable.exampleBtcusdt (Cash.fromUnits 100000) .oneWay

/-- A report that carries no trade id. -/
def namelessFill : Fill :=
  ⟨⟨1, 1⟩, 1, 0, 0, .buy, .opening, 6000000, 1, .taker⟩

/-- A fill without a trade id is refused, and `hasBooked` does not say so. -/
theorem hasBooked_not_refused :
    ¬ (exampleBooks.hasBooked namelessFill.trade namelessFill.side = true ↔
      Refused (exampleBooks.onVenueFill namelessFill (.reported 5)).val.2) := by
  have hrefused : Refused (exampleBooks.onVenueFill namelessFill (.reported 5)).val.2 :=
    (exampleBooks.refused_iff namelessFill (.reported 5)).mpr (.inl rfl)
  have hbooked : exampleBooks.hasBooked namelessFill.trade namelessFill.side = false := by
    decide
  rw [hbooked]
  exact fun h => absurd (h.mpr hrefused) Bool.false_ne_true

end LiveBooks
