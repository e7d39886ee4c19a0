/-
# What an account holds, by currency (`oq-types/src/currency.rs`)

A `Balances` is a list of amounts kept sorted by currency.  The source finds a
currency by binary search, which on a sorted list ends where `SortedAssoc.find`
does; the order is carried as a field, so that no unsorted list can be built.
-/
import OpenQuanter.Fixed
import OpenQuanter.SortedAssoc

/-! ## Currencies and balances -/

/-- A settlement currency: its ticker, padded with zeros to eight bytes. -/
structure Currency where
  bytes : List UInt8
  length_eq : bytes.length = 8
  deriving DecidableEq

namespace Currency

/-- The ticker as numbers, which currencies are compared by. -/
def key (c : Currency) : List Nat := c.bytes.map UInt8.toNat

theorem key_injective : Function.Injective key := by
  intro a b h
  have hbytes : a.bytes = b.bytes :=
    List.map_injective_iff.mpr (fun x y hxy => UInt8.toNat_inj.mp hxy) h
  cases a
  cases b
  cases hbytes
  rfl

instance : LinearOrder Currency := LinearOrder.lift' key key_injective

/-- Tether: the ASCII letters `USDT`. -/
def usdt : Currency := ⟨[85, 83, 68, 84, 0, 0, 0, 0], rfl⟩

end Currency

/-- What an account holds, sorted by currency. -/
structure Balances where
  held : List (Currency × Cash)
  sorted : held.Pairwise (fun a b => a.1 < b.1)

namespace Balances

/-- An account holding one amount in one currency. -/
def of (currency : Currency) (amount : Cash) : Balances :=
  ⟨[(currency, amount)], List.pairwise_singleton _ _⟩

/-- The amount held in `currency`, zero when none is. -/
def get (b : Balances) (currency : Currency) : Cash :=
  (SortedAssoc.find currency b.held).getD 0

/-- Add to one currency's balance, leaving the others alone. -/
def add (b : Balances) (currency : Currency) (amount : Cash) : Balances where
  held := SortedAssoc.upsert currency (fun x => Cash.add x amount) amount b.held
  sorted := SortedAssoc.pairwise_upsert _ _ _ b.sorted

@[simp] theorem get_of (currency : Currency) (amount : Cash) :
    (of currency amount).get currency = amount := by
  simp [of, get, SortedAssoc.find]

/-- The balance of the currency added to moves by the amount. -/
@[simp] theorem get_add_self (b : Balances) (currency : Currency) (amount : Cash) :
    (b.add currency amount).get currency = Cash.add (b.get currency) amount := by
  unfold get add
  rw [SortedAssoc.find_upsert_self]
  cases SortedAssoc.find currency b.held <;> simp

end Balances
