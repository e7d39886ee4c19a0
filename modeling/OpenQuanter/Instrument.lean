/-
# Contracts as a venue defines them (`oq-types/src/instrument.rs`)

What a tick of a lot is worth follows from the scales and the contract size, and is
refused where it is no positive whole number of cash units.
-/
import OpenQuanter.Fixed

/-- A contract as far as money is concerned. -/
structure Instrument where
  priceScale : UInt8
  qtyScale : UInt8
  /-- How much of the underlying one quantity unit is, in `contractScale`. -/
  contractSize : Int64
  deriving DecidableEq, Repr

/-- A contract with the grid it trades on and its floor. -/
structure ListedInstrument extends Instrument where
  priceTick : Int64
  qtyStep : Int64
  minNotional : Cash
  deriving DecidableEq, Repr

/-- Units per whole unit of the underlying. -/
def contractScale : Int := 100000000

/-- Cash per one price tick and one quantity lot, if it is worth a unit at all. -/
def Instrument.tickCash (i : Instrument) : Option Int64 :=
  if 18 < i.priceScale ∨ 18 < i.qtyScale then none
  else
    let divisor := contractScale * 10 ^ i.priceScale.toNat * 10 ^ i.qtyScale.toNat
    if FitsI128 divisor then
      let v := (cashScale * i.contractSize.toInt).tdiv divisor
      if 0 < v ∧ FitsI64 v then some (Int64.ofInt v) else none
    else none

namespace Instrument

/-- A result of `i128` arithmetic, if it is one. -/
def checkedWide (v : Int) : Option Int := if FitsI128 v then some v else none

/-- What a quantity is worth at a price, whichever side it is on. -/
def notional (i : Instrument) (price : PriceTicks) (qty : QtyLots) : Option Cash := do
  let tickCash ← i.tickCash
  let sized ← checkedWide (price.toInt * (satAbs qty).toInt)
  let v ← checkedWide (sized * tickCash.toInt)
  if FitsI64 v then some (Int64.ofInt v) else none

theorem tickCash_pos {i : Instrument} {tickCash : Int64} (h : i.tickCash = some tickCash) :
    0 < tickCash.toInt := by
  unfold Instrument.tickCash at h
  split at h
  · cases h
  · simp only [Option.ite_none_right_eq_some, Option.some.injEq] at h
    obtain ⟨-, ⟨hpos, hfits⟩, rfl⟩ := h
    rw [Int64.toInt_ofInt_of_le hfits.1 hfits.2]
    exact hpos

theorem abs_mul_le (a b : Int64) : |a.toInt * b.toInt| ≤ 2 ^ 126 := by
  have ha := fitsI64_toInt a
  have hb := fitsI64_toInt b
  rw [abs_mul]
  calc |a.toInt| * |b.toInt| ≤ 2 ^ 63 * 2 ^ 63 :=
        mul_le_mul (abs_le.mpr ⟨ha.1, ha.2.le⟩) (abs_le.mpr ⟨hb.1, hb.2.le⟩) (abs_nonneg _)
          (by norm_num)
    _ = 2 ^ 126 := by norm_num

/-- The product of two 64-bit integers has 128 bits. -/
theorem fitsI128_mul (a b : Int64) : FitsI128 (a.toInt * b.toInt) := by
  obtain ⟨hlow, hhigh⟩ := abs_le.mp (abs_mul_le a b)
  constructor
  · omega
  · omega

/-- **A notional is the exact product**, where that is an amount of cash. -/
theorem notional_eq_some {i : Instrument} {price : PriceTicks} {qty : QtyLots} {n : Cash} :
    i.notional price qty = some n ↔ ∃ tickCash, i.tickCash = some tickCash ∧
      n.toInt = price.toInt * (satAbs qty).toInt * tickCash.toInt := by
  unfold notional checkedWide
  simp only [Option.bind_eq_bind, Option.bind_eq_some_iff, Option.ite_none_right_eq_some,
    Option.some.injEq]
  constructor
  · rintro ⟨tickCash, htick, sized, ⟨-, rfl⟩, v, ⟨-, rfl⟩, hfits, rfl⟩
    exact ⟨tickCash, htick, Int64.toInt_ofInt_of_le hfits.1 hfits.2⟩
  · rintro ⟨tickCash, htick, hn⟩
    have hfits : FitsI64 (price.toInt * (satAbs qty).toInt * tickCash.toInt) :=
      hn ▸ fitsI64_toInt n
    have hwide : FitsI128 (price.toInt * (satAbs qty).toInt * tickCash.toInt) :=
      ⟨le_trans (by norm_num) hfits.1, lt_trans hfits.2 (by norm_num)⟩
    exact ⟨tickCash, htick, _, ⟨fitsI128_mul price (satAbs qty), rfl⟩, _, ⟨hwide, rfl⟩, hfits,
      by rw [← hn, Int64.ofInt_toInt]⟩

end Instrument
