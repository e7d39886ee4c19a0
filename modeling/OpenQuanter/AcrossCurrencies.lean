/-
# Equity across currencies (`oq-types/src/currency.rs`, `oq-core/src/kernel.rs`)

Given rates, what an account holds is totalled in one currency, and its unrealized profit
is added.  A balance of zero needs no rate in the total and none in the list of what
has no rate; the unrealized profit needs one though it be zero.  So where the settlement
currency was emptied and has no rate the total is missing and the list is empty: total
and list agree in every other case (`equityAcross_sound`).
-/
import OpenQuanter.Instrument
import OpenQuanter.State

/-! ## Rates -/

/-- A pair of currencies, in the order of the first and then of the second. -/
abbrev Pair := Currency ×ₗ Currency

/-- What one unit of a currency was worth in another, at an instant. -/
structure Rates where
  at_ : Int64
  pairs : List (Pair × Int64)
  sorted : pairs.Pairwise (fun a b => a.1 < b.1)

/-- Eight decimal places. -/
def rateScale : Int := 100000000

namespace Rates

/-- An empty table. -/
def readAt (at_ : Int64) : Rates := ⟨at_, [], List.Pairwise.nil⟩

/-- One unit of `from_` was worth `rate` of `to_`. -/
def quote (rates : Rates) (from_ to_ : Currency) (rate : Int64) : Rates where
  at_ := rates.at_
  pairs := SortedAssoc.upsert (toLex (from_, to_)) (fun _ => rate) rate rates.pairs
  sorted := SortedAssoc.pairwise_upsert _ _ _ rates.sorted

variable (rates : Rates)

/-- The rate from a currency to another; one, to itself. -/
def rate (from_ to_ : Currency) : Option Int64 :=
  if from_ = to_ then some (Int64.ofInt rateScale)
  else SortedAssoc.find (toLex (from_, to_)) rates.pairs

/-- An amount in another currency. -/
def convert (amount : Cash) (from_ to_ : Currency) : Option Cash := do
  let rate ← rates.rate from_ to_
  let product ← Instrument.checkedWide (amount.toInt * rate.toInt)
  let v := product.tdiv rateScale
  if FitsI64 v then some (Int64.ofInt v) else none

end Rates

/-! ## Totals -/

namespace Balances

variable (rates : Rates) (into : Currency)

/-- A balance more, unless it is zero. -/
def addConverted (sum : Cash) (e : Currency × Cash) : Option Cash :=
  if e.2 = 0 then some sum else (rates.convert e.2 e.1 into).map (Cash.add sum)

/-- Everything held, in one currency. -/
def totalIn (b : Balances) : Option Cash := b.held.foldlM (addConverted rates into) 0

/-- What is held and has no rate. -/
def unconvertible (b : Balances) : List Currency :=
  (b.held.filter fun e => e.2 ≠ 0 ∧ (rates.rate e.1 into).isNone).map Prod.fst

end Balances

namespace State

/-- What the account is worth in a currency. -/
def equityAcross (s : State) (into : Currency) (rates : Rates) : Option Cash := do
  let held ← s.balances.totalIn rates into
  let unrealized ← rates.convert s.unrealized s.settlement into
  some (Cash.add held unrealized)

/-- Which held currencies have no rate. -/
def unpriced (s : State) (into : Currency) (rates : Rates) : List Currency :=
  s.balances.unconvertible rates into

/-- Credit a currency. -/
def creditIn (s : State) (currency : Currency) (amount : Cash) : State :=
  { s with balances := s.balances.add currency amount }

/-- The settlement currency is credited as any other. -/
theorem val_credit (s : State) (amount : Cash) :
    (s.credit amount).val = s.creditIn s.settlement amount := rfl

/-- Amounts credited one after the other. -/
def credits (s : State) (amounts : List (Currency × Cash)) : State :=
  amounts.foldl (fun s e => s.creditIn e.1 e.2) s

end State

/-! ## What a conversion is worth -/

namespace Rates

variable (rates : Rates) (into : Currency)

/-- An amount in another currency before it has to fit; nothing without a rate. -/
def worth (e : Currency × Cash) : Int :=
  (rates.rate e.1 into).elim 0 fun rate => (e.2.toInt * rate.toInt).tdiv rateScale

variable {rates into}

/-- A conversion that fits is given if there is a rate. -/
theorem convert_of_rate {e : Currency × Cash} (hfits : FitsI64 (rates.worth into e))
    (hrate : (rates.rate e.1 into).isSome = true) :
    ∃ c, rates.convert e.2 e.1 into = some c ∧ c.toInt = rates.worth into e := by
  obtain ⟨rate, hr⟩ := Option.isSome_iff_exists.mp hrate
  have hworth : rates.worth into e = (e.2.toInt * rate.toInt).tdiv rateScale := by
    rw [worth, hr]
    rfl
  rw [hworth] at hfits ⊢
  refine ⟨Int64.ofInt ((e.2.toInt * rate.toInt).tdiv rateScale), ?_,
    Int64.toInt_ofInt_of_le hfits.1 hfits.2⟩
  unfold convert Instrument.checkedWide
  rw [hr]
  simp only [Option.bind_eq_bind, Option.bind_some, if_pos (Instrument.fitsI128_mul e.2 rate),
    if_pos hfits]

theorem convert_of_no_rate {e : Currency × Cash} (hrate : rates.rate e.1 into = none) :
    rates.convert e.2 e.1 into = none := by
  unfold convert
  rw [hrate]
  rfl

theorem convert_eq_none_iff {e : Currency × Cash} (hfits : FitsI64 (rates.worth into e)) :
    rates.convert e.2 e.1 into = none ↔ rates.rate e.1 into = none := by
  constructor
  · intro hnone
    by_contra hrate
    obtain ⟨c, hc, -⟩ := convert_of_rate hfits (Option.isSome_iff_ne_none.mpr hrate)
    rw [hc] at hnone
    cases hnone
  · exact convert_of_no_rate

theorem worth_zero {e : Currency × Cash} (h : e.2 = 0) : rates.worth into e = 0 := by
  unfold worth
  rw [h]
  cases rates.rate e.1 into with
  | none => rfl
  | some rate =>
    show (0 * rate.toInt).tdiv rateScale = 0
    rw [zero_mul, Int.zero_tdiv]

end Rates

/-! ## The total -/

namespace Balances

variable {rates : Rates} {into : Currency}

/-- A balance that is not zero and has no rate. -/
def Unpriced (rates : Rates) (into : Currency) (e : Currency × Cash) : Prop :=
  e.2 ≠ 0 ∧ rates.rate e.1 into = none

theorem unconvertible_eq_nil_iff (b : Balances) :
    b.unconvertible rates into = [] ↔ ∀ e ∈ b.held, ¬Unpriced rates into e := by
  unfold unconvertible Unpriced
  rw [List.map_eq_nil_iff, List.filter_eq_nil_iff]
  simp only [Option.isNone_iff_eq_none, decide_eq_true_eq]

/-- Step: a balance more, at what it is worth. -/
theorem addConverted_priced {e : Currency × Cash} (hfits : FitsI64 (rates.worth into e))
    (hpriced : ¬Unpriced rates into e) (sum : Cash) :
    ∃ c, addConverted rates into sum e = some (Cash.add sum c) ∧
      c.toInt = rates.worth into e := by
  unfold addConverted
  split
  · rename_i hzero
    exact ⟨0, by rw [Cash.add_zero], (Rates.worth_zero hzero).symm⟩
  · rename_i hne
    have hrate : (rates.rate e.1 into).isSome = true :=
      Option.isSome_iff_ne_none.mpr fun hnone => hpriced ⟨hne, hnone⟩
    obtain ⟨c, hc, hworth⟩ := Rates.convert_of_rate hfits hrate
    exact ⟨c, congrArg (Option.map _) hc, hworth⟩

theorem addConverted_unpriced {e : Currency × Cash} (h : Unpriced rates into e) (sum : Cash) :
    addConverted rates into sum e = none := by
  rw [addConverted, if_neg h.1, Rates.convert_of_no_rate h.2, Option.map_none]

/-- The balances are added up one by one: the total is missing where one has no rate. -/
theorem foldlM_addConverted_isSome_iff {held : List (Currency × Cash)}
    (hfits : ∀ e ∈ held, FitsI64 (rates.worth into e)) (sum : Cash) :
    (held.foldlM (addConverted rates into) sum).isSome = true ↔
      ∀ e ∈ held, ¬Unpriced rates into e := by
  induction held generalizing sum with
  | nil => exact iff_of_true rfl fun _ he => absurd he List.not_mem_nil
  | cons e rest ih =>
    obtain ⟨hfirst, hrest⟩ := List.forall_mem_cons.mp hfits
    rw [List.foldlM_cons, List.forall_mem_cons, Option.bind_eq_bind]
    -- the first without a rate ends the fold
    by_cases hpriced : Unpriced rates into e
    · rw [addConverted_unpriced hpriced]
      exact iff_of_false (by simp) fun h => h.1 hpriced
    · obtain ⟨c, hc, -⟩ := addConverted_priced hfirst hpriced sum
      rw [hc, Option.bind_some, ih hrest]
      exact (and_iff_right hpriced).symm

/-- With a rate for each of them, and partial totals that fit, it is the exact total. -/
theorem foldlM_addConverted_eq {held : List (Currency × Cash)}
    (hfits : ∀ e ∈ held, FitsI64 (rates.worth into e))
    (hpriced : ∀ e ∈ held, ¬Unpriced rates into e) {sum : Cash}
    (hsums : ∀ k, FitsI64 (sum.toInt + ((held.take k).map (rates.worth into)).sum)) :
    ∃ total, held.foldlM (addConverted rates into) sum = some total ∧
      total.toInt = sum.toInt + (held.map (rates.worth into)).sum := by
  induction held generalizing sum with
  | nil => exact ⟨sum, rfl, by simp⟩
  | cons e rest ih =>
    obtain ⟨hfirst, hrest⟩ := List.forall_mem_cons.mp hfits
    obtain ⟨hfirst', hrest'⟩ := List.forall_mem_cons.mp hpriced
    obtain ⟨c, hstep, hworth⟩ := addConverted_priced hfirst hfirst' sum
    have hsum : (Cash.add sum c).toInt = sum.toInt + rates.worth into e := by
      have hfirstSum : FitsI64 (sum.toInt + rates.worth into e) := by simpa using hsums 1
      rw [Cash.add, hworth, toInt_ofIntClamp_of_fits hfirstSum]
    -- the partial totals of the rest are those of the whole, one place on
    have hsums' : ∀ k, FitsI64
        ((Cash.add sum c).toInt + ((rest.take k).map (rates.worth into)).sum) := by
      intro k
      have h := hsums (k + 1)
      rwa [List.take_succ_cons, List.map_cons, List.sum_cons, ← add_assoc, ← hsum] at h
    obtain ⟨total, htotal, hexact⟩ := ih hrest hrest' hsums'
    refine ⟨total, ?_, ?_⟩
    · rw [List.foldlM_cons, hstep]
      exact htotal
    · rw [hexact, hsum, List.map_cons, List.sum_cons, add_assoc]

/-- Two accounts of balances that are held alike and have the same amounts are the same. -/
theorem eq_of_get {b b' : Balances}
    (hsome : ∀ currency, (SortedAssoc.find currency b.held).isSome = true ↔
      (SortedAssoc.find currency b'.held).isSome = true)
    (hget : ∀ currency, b.get currency = b'.get currency) : b = b' := by
  have hfind : ∀ currency,
      SortedAssoc.find currency b.held = SortedAssoc.find currency b'.held := by
    intro currency
    have hheld := hsome currency
    have hvalue := hget currency
    unfold get at hvalue
    cases hfound : SortedAssoc.find currency b.held with
    | none =>
      rw [hfound] at hheld
      exact (Option.not_isSome_iff_eq_none.mp fun h => nomatch hheld.mpr h).symm
    | some c =>
      obtain ⟨c', hc'⟩ := Option.isSome_iff_exists.mp (hheld.mp (by rw [hfound]; rfl))
      rw [hfound, hc'] at hvalue
      rw [hc']
      exact congrArg some hvalue
  obtain ⟨held, sorted⟩ := b
  obtain ⟨held', sorted'⟩ := b'
  obtain rfl : held = held' := SortedAssoc.eq_of_find sorted sorted' hfind
  rfl

end Balances

/-! ## The order of the amounts -/

/-- What was paid into a currency. -/
def paid (currency : Currency) (amounts : List (Currency × Cash)) : Int :=
  ((amounts.filter (·.1 = currency)).map (·.2.toInt)).sum

theorem paid_cons (currency : Currency) (e : Currency × Cash) (amounts : List (Currency × Cash)) :
    paid currency (e :: amounts) =
      (if e.1 = currency then e.2.toInt else 0) + paid currency amounts := by
  unfold paid
  by_cases h : e.1 = currency
  · rw [List.filter_cons_of_pos (by simpa using h), List.map_cons, List.sum_cons, if_pos h]
  · rw [List.filter_cons_of_neg (by simpa using h), if_neg h, zero_add]

theorem paid_perm {currency : Currency} {amounts amounts' : List (Currency × Cash)}
    (h : amounts.Perm amounts') : paid currency amounts = paid currency amounts' :=
  ((h.filter _).map _).sum_eq

namespace State

/-- No balance leaves an `i64` while the amounts are credited. -/
def Room (s : State) (amounts : List (Currency × Cash)) : Prop :=
  ∀ k currency, FitsI64 ((s.balances.get currency).toInt + paid currency (amounts.take k))

variable {s : State} {amounts : List (Currency × Cash)}

/-- One credit moves one balance. -/
theorem get_creditIn (s : State) (e : Currency × Cash) (currency : Currency) :
    (s.creditIn e.1 e.2).balances.get currency =
      if e.1 = currency then Cash.add (s.balances.get currency) e.2
      else s.balances.get currency := by
  split
  · rename_i h
    rw [← h]
    exact Balances.get_add_self _ _ _
  · rename_i h
    show (SortedAssoc.find currency (SortedAssoc.upsert _ _ _ _)).getD 0 = _
    rw [SortedAssoc.find_upsert_of_ne (Ne.symm h)]
    rfl

theorem find_creditIn_isSome (s : State) (e : Currency × Cash) (currency : Currency) :
    (SortedAssoc.find currency (s.creditIn e.1 e.2).balances.held).isSome = true ↔
      currency = e.1 ∨ (SortedAssoc.find currency s.balances.held).isSome = true := by
  show (SortedAssoc.find currency (SortedAssoc.upsert _ _ _ _)).isSome = true ↔ _
  by_cases h : currency = e.1
  · rw [h, SortedAssoc.find_upsert_self]
    exact iff_of_true rfl (.inl rfl)
  · rw [SortedAssoc.find_upsert_of_ne h]
    exact (or_iff_right h).symm

/-- Step: what a credit adds is there, if there is room. -/
theorem toInt_get_creditIn {e : Currency × Cash} (h : s.Room (e :: amounts))
    (currency : Currency) :
    ((s.creditIn e.1 e.2).balances.get currency).toInt =
      (s.balances.get currency).toInt + if e.1 = currency then e.2.toInt else 0 := by
  rw [get_creditIn]
  split
  · rename_i heq
    have hfits := h 1 currency
    rw [List.take_succ_cons, List.take_zero, paid_cons, if_pos heq] at hfits
    rw [Cash.add, toInt_ofIntClamp_of_fits (by simpa [paid] using hfits)]
  · rw [add_zero]

theorem Room.creditIn {e : Currency × Cash} (h : s.Room (e :: amounts)) :
    (s.creditIn e.1 e.2).Room amounts := by
  intro k currency
  have hfits := h (k + 1) currency
  rw [List.take_succ_cons, paid_cons, ← add_assoc] at hfits
  rwa [toInt_get_creditIn h]

/-- **After some credits** a balance is what it was and what was paid in. -/
theorem toInt_get_credits (h : s.Room amounts) (currency : Currency) :
    ((s.credits amounts).balances.get currency).toInt =
      (s.balances.get currency).toInt + paid currency amounts := by
  induction amounts generalizing s with
  | nil => exact (add_zero _).symm
  | cons e rest ih =>
    show (((s.creditIn e.1 e.2).credits rest).balances.get currency).toInt = _
    rw [ih h.creditIn, toInt_get_creditIn h, paid_cons, add_assoc]

theorem find_credits_isSome (s : State) (amounts : List (Currency × Cash)) (currency : Currency) :
    (SortedAssoc.find currency (s.credits amounts).balances.held).isSome = true ↔
      currency ∈ amounts.map Prod.fst ∨
        (SortedAssoc.find currency s.balances.held).isSome = true := by
  induction amounts generalizing s with
  | nil => simp [credits]
  | cons e rest ih =>
    show (SortedAssoc.find currency ((s.creditIn e.1 e.2).credits rest).balances.held).isSome =
      true ↔ _
    rw [ih, find_creditIn_isSome, List.map_cons, List.mem_cons]
    tauto

/-- Credits change nothing but the balances. -/
theorem credits_eq (s : State) (amounts : List (Currency × Cash)) :
    s.credits amounts = { s with balances := (s.credits amounts).balances } := by
  induction amounts generalizing s with
  | nil => rfl
  | cons e rest ih => exact ih (s.creditIn e.1 e.2)

/-- **The same amounts in another order** leave the same account. -/
theorem credits_perm {amounts' : List (Currency × Cash)} (hperm : amounts.Perm amounts')
    (h : s.Room amounts) (h' : s.Room amounts') : s.credits amounts = s.credits amounts' := by
  have hbalances : (s.credits amounts).balances = (s.credits amounts').balances := by
    refine Balances.eq_of_get (fun currency => ?_) fun currency => ?_
    · -- a currency is held if it was, or if something was credited in it
      rw [find_credits_isSome, find_credits_isSome, (hperm.map Prod.fst).mem_iff]
    · rw [← Int64.toInt_inj, toInt_get_credits h, toInt_get_credits h', paid_perm hperm]
  rw [credits_eq s amounts, credits_eq s amounts', hbalances]

end State

/-! ## Equity -/

/-- Bitcoin: the ASCII letters `BTC`. -/
def btc : Currency := ⟨[66, 84, 67, 0, 0, 0, 0, 0], rfl⟩

namespace State

/-- No conversion overflows. -/
structure Converts (s : State) (into : Currency) (rates : Rates) : Prop where
  held : ∀ e ∈ s.balances.held, FitsI64 (rates.worth into e)
  unrealized : FitsI64 (rates.worth into (s.settlement, s.unrealized))

/-- No total on the way saturates. -/
structure TotalsFit (s : State) (into : Currency) (rates : Rates) : Prop where
  held : ∀ k, FitsI64 ((s.balances.held.take k).map (rates.worth into)).sum
  equity : FitsI64 ((s.balances.held.map (rates.worth into)).sum +
    rates.worth into (s.settlement, s.unrealized))

variable {s : State} {into : Currency} {rates : Rates}

/-- The total is missing where something held has no rate, and where the settlement
currency has none. -/
theorem equityAcross_eq_none_iff (h : s.Converts into rates) :
    s.equityAcross into rates = none ↔
      s.unpriced into rates ≠ [] ∨ rates.rate s.settlement into = none := by
  have htotal : s.balances.totalIn rates into = none ↔ s.unpriced into rates ≠ [] := by
    rw [unpriced, Ne, Balances.unconvertible_eq_nil_iff,
      ← Balances.foldlM_addConverted_isSome_iff h.held 0, Option.not_isSome_iff_eq_none]
    rfl
  have hunrealized : rates.convert s.unrealized s.settlement into = none ↔
      rates.rate s.settlement into = none := Rates.convert_eq_none_iff h.unrealized
  rw [← htotal, ← hunrealized]
  unfold equityAcross
  cases s.balances.totalIn rates into with
  | none => simp
  | some held =>
    cases rates.convert s.unrealized s.settlement into with
    | none => simp
    | some unrealized => simp

/-- With every rate there is, the total is the exact one. -/
theorem equityAcross_exact (h : s.Converts into rates) (hfits : s.TotalsFit into rates)
    (hrate : (rates.rate s.settlement into).isSome = true) (hpriced : s.unpriced into rates = []) :
    ∃ total, s.equityAcross into rates = some total ∧
      total.toInt = (s.balances.held.map (rates.worth into)).sum +
        rates.worth into (s.settlement, s.unrealized) := by
  have hsums : ∀ k, FitsI64
      ((0 : Cash).toInt + ((s.balances.held.take k).map (rates.worth into)).sum) := by
    intro k
    rw [Int64.toInt_zero, zero_add]
    exact hfits.held k
  obtain ⟨held, hheld, hsum⟩ := Balances.foldlM_addConverted_eq h.held
    ((Balances.unconvertible_eq_nil_iff _).mp hpriced) hsums
  obtain ⟨unrealized, hconvert, hworth⟩ :=
    Rates.convert_of_rate (e := (s.settlement, s.unrealized)) h.unrealized hrate
  rw [Int64.toInt_zero, zero_add] at hsum
  refine ⟨Cash.add held unrealized, ?_, ?_⟩
  · unfold equityAcross Balances.totalIn
    rw [hheld]
    simp only [Option.bind_eq_bind, Option.bind_some]
    rw [hconvert]
    rfl
  · rw [Cash.add, hsum, hworth, toInt_ofIntClamp_of_fits hfits.equity]

/-- **Equity across currencies.**  Where no conversion overflows, the list of what is unpriced
explains a missing total if and only if the settlement currency has a rate or something
else that is held has none.  With the rate the total is exact, unless it saturates; and the
order in which amounts were credited leaves no trace, unless a balance did. -/
theorem equityAcross_sound (s : State) (into : Currency) (rates : Rates)
    (h : s.Converts into rates) :
    ((s.equityAcross into rates = none ↔ s.unpriced into rates ≠ []) ↔
      (rates.rate s.settlement into).isSome = true ∨
        ∃ e ∈ s.balances.held, e.2 ≠ 0 ∧ rates.rate e.1 into = none) ∧
    ((rates.rate s.settlement into).isSome = true → s.unpriced into rates = [] →
      s.TotalsFit into rates →
        ∃ total, s.equityAcross into rates = some total ∧
          total.toInt = (s.balances.held.map (rates.worth into)).sum +
            rates.worth into (s.settlement, s.unrealized)) ∧
    ∀ amounts amounts' : List (Currency × Cash), amounts.Perm amounts' →
      s.Room amounts → s.Room amounts' → ∀ (into' : Currency) (rates' : Rates),
        (s.credits amounts).equityAcross into' rates' =
          (s.credits amounts').equityAcross into' rates' := by
  have hunpriced : s.unpriced into rates ≠ [] ↔
      ∃ e ∈ s.balances.held, e.2 ≠ 0 ∧ rates.rate e.1 into = none := by
    rw [unpriced, Ne, Balances.unconvertible_eq_nil_iff]
    simp only [Balances.Unpriced, not_forall, not_not, exists_prop]
  refine ⟨?_, fun hrate hpriced hfits => equityAcross_exact h hfits hrate hpriced,
    fun amounts amounts' hperm hroom hroom' into' rates' => ?_⟩
  · rw [equityAcross_eq_none_iff h, ← hunpriced, ← Option.not_isSome_iff_eq_none]
    tauto
  · rw [credits_perm hperm hroom hroom']

/-- An account that holds bitcoin and an emptied tether balance. -/
def emptied : State :=
  (new 1 ⟨1000⟩ TierTable.exampleBtcusdt 0).creditIn btc 200_000_000

/-- Tether and bitcoin, with a rate. -/
theorem equityAcross_sound_priced :
    let rates := (Rates.readAt 0).quote btc Currency.usdt 6_000_000_000_000
    emptied.equityAcross Currency.usdt rates = none ↔
      emptied.unpriced Currency.usdt rates ≠ [] := by
  refine (equityAcross_sound emptied _ _ ⟨?_, ?_⟩).1.mpr (.inl ?_)
  · decide +kernel
  · decide +kernel
  · decide +kernel

/-- **No total and nothing to explain it**: nothing is held but bitcoin, the total is asked
for in bitcoin, and it is missing. -/
theorem emptied_has_no_total :
    emptied.Converts btc (Rates.readAt 0) ∧
      emptied.equityAcross btc (Rates.readAt 0) = none ∧
      emptied.unpriced btc (Rates.readAt 0) = [] ∧ emptied.unrealized = 0 ∧
      (emptied.credits [(btc, Int64.maxValue), (btc, -1)]).equityAcross btc
          ((Rates.readAt 0).quote Currency.usdt btc 0) ≠
        (emptied.credits [(btc, -1), (btc, Int64.maxValue)]).equityAcross btc
          ((Rates.readAt 0).quote Currency.usdt btc 0) := by
  refine ⟨⟨?_, ?_⟩, ?_, ?_, ?_, ?_⟩
  all_goals decide +kernel

end State
