/-
# A fill of the account's stream (`fill_of` of `oq-live/src/run.rs`)

The venue writes quantities and prices as decimal texts, and the process books
lots and ticks.  The text of a number is read back as that number, at any places
(`scaled_decimal`), so what is booked is what was traded and nothing is rounded.
-/
import OpenQuanter.DecimalText
import OpenQuanter.CoverageWire
import OpenQuanter.LiveBook
import OpenQuanter.LiveSession

/-- A report on an order, with what the books read of it. -/
structure ExecutionReport extends OrderUpdate where
  venueId : String
  cumulativeQty : String
  lastPrice : String
  maker : Bool
  fee : Fee

namespace Live

/-! ## Reading a report -/

/-- `scaled` of `fill_of`: a decimal text in units of the last place.  Digits past the
places are refused unless they are zeros. -/
def scaled (text : String) (scale : UInt8) : Option Int64 :=
  let (int, frac) := Decimal.halves text.toList
  if (frac.drop scale.toNat).any (· ≠ '0') then none
  else
    let digits := int.dropWhile (· = '+')
    let frac := frac.take scale.toNat
    Coverage.parseI64 (digits ++ frac ++ List.replicate (scale.toNat - frac.length) '0')

/-- `side_of`. -/
def sideOf (word : String) : Side := if eqIgnoreAsciiCase word "BUY" then .buy else .sell

/-- `offset_of`: which leg a fill belongs to decides whether it opened or closed. -/
def offsetOf (positionSide side : String) : Offset :=
  let sell := eqIgnoreAsciiCase side "SELL"
  if eqIgnoreAsciiCase positionSide "LONG" then if sell then .closing else .opening
  else if eqIgnoreAsciiCase positionSide "SHORT" then if sell then .opening else .closing
  else .opening

/-- An update that reports no traded quantity, which is ordinary (`NOT_A_FILL`). -/
def notAFill : String := "no traded quantity"

def unknownSide : String := "the fill's side is neither buy nor sell"

/-- `fill_of`. -/
def fillOf (u : ExecutionReport) (instrument : Instrument) (order : OrderId) (at_ : Nanos) :
    Except String Fill :=
  match scaled u.lastQty instrument.qtyScale with
  | none => .error "quantity is not a number"
  | some qty =>
    if qty = 0 then .error notAFill
    else if qty < 0 then .error "quantity is negative"
    else
      match scaled u.lastPrice instrument.priceScale with
      | none => .error "price is not a number"
      | some price =>
        if price ≤ 0 then .error "price is not positive"
        else
          let fill (side : Side) : Fill :=
            { stamp := ⟨at_, at_⟩
              instrument := 1
              order := order
              trade := UInt64.ofNat (u.tradeId.getD 0).toInt.natAbs
              side := side
              offset := offsetOf u.positionSide u.side
              price := price
              qty := qty
              liquidity := if u.maker then .maker else .taker }
          let word := String.ofList (u.side.toList.map Char.toUpper)
          if word = "BUY" then .ok (fill .buy)
          else if word = "SELL" then .ok (fill .sell)
          else .error unknownSide

/-- `reports_on`: whether a report is about the symbol the process trades. -/
def reportsOn (u : ExecutionReport) (symbol : String) : Bool := eqIgnoreAsciiCase u.symbol symbol

/-! ## What is written is read -/

theorem parseI64_signed (v : Int64) {digits : List Char}
    (hparse : Decimal.parse digits = some v.toInt.natAbs) :
    Coverage.parseI64 ((if v < 0 then Decimal.Sign.minus else .bare).text ++ digits) = some v := by
  have hneg : v < 0 ↔ v.toInt < 0 := Int64.lt_iff_toInt_lt
  split
  · rename_i hlow
    have habs : -(v.toInt.natAbs : Int) = v.toInt := by
      have := hneg.mp hlow
      omega
    show Coverage.parseI64 ('-' :: digits) = some v
    simp only [Coverage.parseI64, hparse, Option.map_some, habs]
    exact Coverage.fits_toInt v
  · rename_i hpos
    have habs : Int.ofNat v.toInt.natAbs = v.toInt := by
      have : ¬v.toInt < 0 := fun h => hpos (hneg.mpr h)
      show (v.toInt.natAbs : Int) = v.toInt
      omega
    have hdigits : ∀ c ∈ digits, c.isDigit = true := by
      unfold Decimal.parse at hparse
      split at hparse
      · rename_i hall
        exact List.all_eq_true.mp (by simp_all)
      · cases hparse
    show Coverage.parseI64 digits = some v
    unfold Coverage.parseI64
    split
    · exact absurd (hdigits '-' List.mem_cons_self) (by decide)
    · exact absurd (hdigits '+' List.mem_cons_self) (by decide)
    · simp only [hparse, Option.map_some, habs]
      exact Coverage.fits_toInt v

/-- **The text of a number is read back**, at any places that `decimal` can write. -/
theorem scaled_decimal {scale : UInt8} (h : 10 ^ scale.toNat < 2 ^ 64) (v : Int64) {text : String}
    (htext : Exec.decimal v scale = some text) : scaled text scale = some v := by
  rw [Exec.decimal_eq h] at htext
  have hlist : text.toList = (Exec.numeral v scale).text := by
    rw [← Option.some.inj htext, String.toList_ofList]
  obtain ⟨hplaces, hmagnitude⟩ := Exec.places_numeral v scale
  generalize hn : Exec.numeral v scale = n at hlist hplaces hmagnitude
  have hsign : n.sign = if v < 0 then .minus else .bare := by rw [← hn]; rfl
  have hplain : ∀ c ∈ n.sign.text ++ n.whole, c ≠ '.' ∧ c ≠ '+' := by
    intro c hc
    rcases List.mem_append.mp hc with hs | hw
    · rw [hsign] at hs
      split at hs
      · rw [List.mem_singleton.mp hs]
        decide
      · exact absurd hs List.not_mem_nil
    · have hdigit := n.isDigit c (List.mem_append_left _ hw)
      refine ⟨Decimal.not_point_of_isDigit hdigit, ?_⟩
      rintro rfl
      exact absurd hdigit (by decide)
  have hhalves : Decimal.halves text.toList = (n.sign.text ++ n.whole, n.behind) := by
    have hsplit := Decimal.halves_append (fun c hc => (hplain c hc).1) n.frac
    rw [List.append_assoc] at hsplit
    rw [hlist]
    exact hsplit
  have hplus : (n.sign.text ++ n.whole).dropWhile (· = '+') = n.sign.text ++ n.whole := by
    refine List.dropWhile_eq_self_iff.mpr fun hpos => ?_
    simpa using (hplain _ (List.getElem_mem hpos)).2
  unfold scaled
  rw [hhalves]
  have hlen : n.behind.length = scale.toNat := hplaces
  simp only [hplus, List.drop_of_length_le hlen.le, List.any_nil, Bool.false_eq_true, if_false,
    List.take_of_length_le hlen.le, hlen, Nat.sub_self, List.replicate_zero, List.append_nil,
    List.append_assoc]
  rw [hsign]
  refine parseI64_signed v ?_
  rw [n.parse_all, hmagnitude]

end Live
