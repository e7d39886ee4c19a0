/-
# Funding over an interval (`oq-margin/funding.rs`)

A schedule is sorted once, and an interval of it is found by two searches.  The interval is
open on the left and closed on the right:

* `between_eq_filter` : it holds the settlements whose instants are in it, and in order;
* `between_append` : two intervals that meet hold together what their union holds;
* `flatten_parts` : so does any number of them.

What an interval accrues is kept as cash, so the sum over the parts is the whole where no
addition saturates (`accrual_is_additive`), and need not be elsewhere.
-/
import OpenQuanter.Backtest

namespace Backtest

namespace FundingSchedule

/-- `FundingSchedule::new`: sorted by instant, and settlements at one instant as they came. -/
def new (rates : List FundingRate) : FundingSchedule where
  rates := rates.mergeSort (fun a b => a.at_ ≤ b.at_)
  sorted := by
    apply List.Pairwise.imp (R := fun a b : FundingRate => decide (a.at_ ≤ b.at_) = true)
    · exact of_decide_eq_true
    · apply List.pairwise_mergeSort
      · intro a b c hab hbc
        exact decide_eq_true (Int64.le_trans (of_decide_eq_true hab) (of_decide_eq_true hbc))
      · intro a b
        rw [Bool.or_eq_true, decide_eq_true_iff, decide_eq_true_iff]
        exact Int64.le_total a.at_ b.at_

/-- Total cash flow for holding `qty` across the interval. -/
def accrue (s : FundingSchedule) (contract : Contract) (qty : QtyLots) (from_ until_ : Nanos) :
    Cash :=
  (s.between from_ until_).foldl (fun acc r => Cash.add acc (r.settle contract qty)) 0

/-! ## An interval -/

/-- Two searches on a list whose predicates turn false once and for all: between the cuts is
what passes the second predicate and not the first. -/
theorem take_drop_eq_filter {α : Type} {p q : α → Bool} {l : List α}
    (hp : l.Pairwise (fun a b => p b = true → p a = true))
    (hq : l.Pairwise (fun a b => q b = true → q a = true))
    (hpq : ∀ a, p a = true → q a = true) :
    (l.takeWhile p).length ≤ (l.takeWhile q).length ∧
      (l.drop (l.takeWhile p).length).take ((l.takeWhile q).length - (l.takeWhile p).length) =
        l.filter (fun a => !p a && q a) := by
  induction l with
  | nil => exact ⟨le_rfl, rfl⟩
  | cons a rest ih =>
    obtain ⟨hphead, hptail⟩ := List.pairwise_cons.mp hp
    obtain ⟨hqhead, hqtail⟩ := List.pairwise_cons.mp hq
    obtain ⟨ihle, iheq⟩ := ih hptail hqtail
    by_cases hpa : p a = true
    · -- Both cuts pass it.
      have hqa := hpq a hpa
      have hout : (a :: rest).filter (fun a => !p a && q a) = rest.filter fun a => !p a && q a :=
        List.filter_cons_of_neg (by simp [hpa])
      rw [List.takeWhile_cons_of_pos hpa, List.takeWhile_cons_of_pos hqa,
        hout, List.length_cons, List.length_cons, List.drop_succ_cons,
        Nat.add_sub_add_right]
      exact ⟨by omega, iheq⟩
    · have hzero : (rest.takeWhile p).length = 0 := by
        cases rest with
        | nil => rfl
        | cons b rest =>
          rw [List.takeWhile_cons_of_neg fun hpb => hpa (hphead b List.mem_cons_self hpb)]
          rfl
      rw [List.takeWhile_cons_of_neg hpa, List.length_nil, Nat.sub_zero, List.drop_zero]
      refine ⟨Nat.zero_le _, ?_⟩
      by_cases hqa : q a = true
      · -- The second cut passes it.
        have hin : (a :: rest).filter (fun a => !p a && q a) =
            a :: rest.filter fun a => !p a && q a :=
          List.filter_cons_of_pos (by simp [hpa, hqa])
        rw [hzero, Nat.sub_zero, List.drop_zero] at iheq
        rw [List.takeWhile_cons_of_pos hqa, hin, List.length_cons, List.take_succ_cons,
          iheq]
      · -- Neither does, nor does either pass anything behind it.
        rw [List.takeWhile_cons_of_neg hqa, List.length_nil, List.take_zero]
        symm
        rw [List.filter_eq_nil_iff]
        intro b hb hin
        rw [Bool.and_eq_true] at hin
        rcases List.mem_cons.mp hb with rfl | hb
        · exact hqa hin.2
        · exact hqa (hqhead b hb hin.2)

/-- Whether a settlement falls after the one instant and not after the other. -/
def within (from_ until_ : Nanos) (r : FundingRate) : Bool :=
  !decide (r.at_ ≤ from_) && decide (r.at_ ≤ until_)

theorem within_iff {from_ until_ : Nanos} {r : FundingRate} :
    within from_ until_ r = true ↔ from_ < r.at_ ∧ r.at_ ≤ until_ := by
  unfold within
  rw [Bool.and_eq_true, Bool.not_eq_true', decide_eq_false_iff_not, decide_eq_true_iff,
    Int64.not_le]

/-- The searches of two instants, the later one second. -/
theorem cuts_eq_filter (s : FundingSchedule) {a b : Nanos} (hab : a ≤ b) :
    s.partitionPoint a ≤ s.partitionPoint b ∧
      (s.rates.drop (s.partitionPoint a)).take (s.partitionPoint b - s.partitionPoint a) =
        s.rates.filter (within a b) := by
  have hturn : ∀ t : Nanos, s.rates.Pairwise fun x y =>
      decide (y.at_ ≤ t) = true → decide (x.at_ ≤ t) = true := fun t =>
    s.sorted.imp fun hxy hy => decide_eq_true (Int64.le_trans hxy (of_decide_eq_true hy))
  exact take_drop_eq_filter (hturn a) (hturn b) fun x hx =>
    decide_eq_true (Int64.le_trans (of_decide_eq_true hx) hab)

/-- An interval that runs backwards, or nowhere. -/
theorem between_backwards (s : FundingSchedule) {from_ until_ : Nanos} (h : until_ ≤ from_) :
    s.between from_ until_ = [] := by
  have hcuts := (s.cuts_eq_filter h).1
  unfold between
  dsimp only
  split
  · rw [Nat.sub_eq_zero_of_le hcuts, List.take_zero]
  · rfl

/-- **An interval holds what falls in it.** -/
theorem between_eq_filter (s : FundingSchedule) (from_ until_ : Nanos) :
    s.between from_ until_ = s.rates.filter (within from_ until_) := by
  rcases Int64.le_total from_ until_ with hle | hge
  · obtain ⟨hcuts, heq⟩ := s.cuts_eq_filter hle
    unfold between
    dsimp only
    rw [if_pos hcuts, heq]
  · rw [s.between_backwards hge]
    symm
    rw [List.filter_eq_nil_iff]
    intro r _ hin
    obtain ⟨hafter, hbefore⟩ := within_iff.mp hin
    exact Int64.lt_irrefl (Int64.lt_of_lt_of_le hafter (Int64.le_trans hbefore hge))

/-- **Intervals that meet** hold together what their union holds. -/
theorem between_append (s : FundingSchedule) {a b c : Nanos} (hab : a ≤ b) (hbc : b ≤ c) :
    s.between a b ++ s.between b c = s.between a c := by
  rw [between_eq_filter, between_eq_filter, between_eq_filter]
  have hsorted := s.sorted
  generalize s.rates = l at hsorted
  induction l with
  | nil => rfl
  | cons r rest ih =>
    obtain ⟨hhead, htail⟩ := List.pairwise_cons.mp hsorted
    have ih := ih htail
    by_cases hb : r.at_ ≤ b
    · -- Up to `b` a settlement is in the first interval if it is in the union at all.
      have hsecond : ¬ within b c r = true := fun hin =>
        absurd hb (Int64.not_le.mpr (within_iff.mp hin).1)
      rw [List.filter_cons_of_neg hsecond]
      by_cases ha : a < r.at_
      · rw [List.filter_cons_of_pos (within_iff.mpr ⟨ha, hb⟩),
          List.filter_cons_of_pos (within_iff.mpr ⟨ha, Int64.le_trans hb hbc⟩),
            List.cons_append, ih]
      · rw [List.filter_cons_of_neg fun hin => ha (within_iff.mp hin).1,
          List.filter_cons_of_neg fun hin => ha (within_iff.mp hin).1, ih]
    · -- Past `b` the first interval is over, for this settlement and for all behind it.
      have hafter := Int64.not_le.mp hb
      have hall : ∀ x ∈ r :: rest, b < x.at_ := by
        intro x hx
        rcases List.mem_cons.mp hx with rfl | hx
        · exact hafter
        · exact Int64.lt_of_lt_of_le hafter (hhead x hx)
      have hdone : (r :: rest).filter (within a b) = [] := by
        rw [List.filter_eq_nil_iff]
        intro x hx hin
        exact Int64.lt_irrefl (Int64.lt_of_lt_of_le (hall x hx) (within_iff.mp hin).2)
      rw [hdone, List.nil_append]
      apply List.filter_congr
      intro x hx
      have hx' := hall x hx
      rw [Bool.eq_iff_iff, within_iff, within_iff]
      constructor
      · intro ⟨_, hc⟩
        exact ⟨Int64.lt_of_le_of_lt hab hx', hc⟩
      · intro ⟨_, hc⟩
        exact ⟨hx', hc⟩

/-! ## Cut into steps -/

/-- What each step of a run settles, from one instant to the next. -/
def parts (s : FundingSchedule) (from_ : Nanos) : List Nanos → List (List FundingRate)
  | [] => []
  | t :: ts => s.between from_ t :: s.parts t ts

/-- Where the last step ends. -/
def last (from_ : Nanos) : List Nanos → Nanos
  | [] => from_
  | t :: ts => last t ts

theorem le_last {from_ : Nanos} {ts : List Nanos} (h : (from_ :: ts).IsChain (· ≤ ·)) :
    from_ ≤ last from_ ts := by
  induction ts generalizing from_ with
  | nil => exact Int64.le_refl from_
  | cons t ts ih =>
    obtain ⟨hle, htail⟩ := List.isChain_cons_cons.mp h
    exact Int64.le_trans hle (ih htail)

/-- **However the run is cut into steps**, they settle what the whole settles, in order. -/
theorem flatten_parts (s : FundingSchedule) {from_ : Nanos} {ts : List Nanos}
    (h : (from_ :: ts).IsChain (· ≤ ·)) :
    (s.parts from_ ts).flatten = s.between from_ (last from_ ts) := by
  induction ts generalizing from_ with
  | nil => exact (s.between_backwards (Int64.le_refl from_)).symm
  | cons t ts ih =>
    obtain ⟨hle, htail⟩ := List.isChain_cons_cons.mp h
    unfold parts last
    rw [List.flatten_cons, ih htail]
    exact s.between_append hle (le_last htail)

/-! ## What accrues -/

variable (contract : Contract) (qty : QtyLots)

/-- What settlements move, as integers. -/
def flow (rates : List FundingRate) : Int :=
  (rates.map fun r => (r.settle contract qty).toInt).sum

/-- No addition of these settlements saturates. -/
def Exact (rates : List FundingRate) : Prop := ∀ k, FitsI64 (flow contract qty (rates.take k))

/-- What each step of a run accrues. -/
def accruals (s : FundingSchedule) (from_ : Nanos) : List Nanos → List Cash
  | [] => []
  | t :: ts => s.accrue contract qty from_ t :: s.accruals t ts

variable {contract qty}

theorem flow_append (l l' : List FundingRate) :
    flow contract qty (l ++ l') = flow contract qty l + flow contract qty l' := by
  unfold flow
  rw [List.map_append, List.sum_append]

/-- Settlements added up without saturation are added up exactly. -/
theorem toInt_foldl {rates : List FundingRate} (h : Exact contract qty rates) :
    (rates.foldl (fun acc r => Cash.add acc (r.settle contract qty)) 0).toInt =
      flow contract qty rates := by
  induction rates using List.reverseRecOn with
  | nil => rfl
  | append_singleton rates r ih =>
    have hbefore : Exact contract qty rates := by
      intro k
      by_cases hk : k ≤ rates.length
      · have := h k
        rwa [List.take_append_of_le_length hk] at this
      · have := h rates.length
        rw [List.take_append_of_le_length le_rfl, List.take_length] at this
        rwa [List.take_of_length_le (by omega)]
    have hall := h (rates ++ [r]).length
    rw [List.take_length, flow_append] at hall
    rw [List.foldl_append, List.foldl_cons, List.foldl_nil, Cash.add, ih hbefore, flow_append]
    unfold flow at *
    rw [List.map_singleton, List.sum_singleton] at *
    exact toInt_ofIntClamp_of_fits hall

/-- The parts accrue what flows in all of them together. -/
theorem sum_accruals (s : FundingSchedule) (from_ : Nanos) (ts : List Nanos)
    (h : ∀ part ∈ s.parts from_ ts, Exact contract qty part) :
    ((s.accruals contract qty from_ ts).map Int64.toInt).sum =
      flow contract qty (s.parts from_ ts).flatten := by
  induction ts generalizing from_ with
  | nil => rfl
  | cons t ts ih =>
    have hhead := h _ List.mem_cons_self
    have htail := ih t fun part hpart => h part (List.mem_cons_of_mem _ hpart)
    unfold accruals parts
    rw [List.map_cons, List.sum_cons, List.flatten_cons, flow_append, htail]
    exact congrArg (· + _) (toInt_foldl hhead)

/-- **Funding is additive over time.**  The steps settle what the whole settles, each
settlement once; and where no addition saturates they accrue what the whole accrues. -/
theorem accrual_is_additive (s : FundingSchedule) (contract : Contract) (qty : QtyLots)
    (from_ : Nanos) (ts : List Nanos) (h : (from_ :: ts).IsChain (· ≤ ·)) :
    (s.parts from_ ts).flatten = s.between from_ (last from_ ts) ∧
      (Exact contract qty (s.between from_ (last from_ ts)) →
        (∀ part ∈ s.parts from_ ts, Exact contract qty part) →
        (s.accrue contract qty from_ (last from_ ts)).toInt =
          ((s.accruals contract qty from_ ts).map Int64.toInt).sum) := by
  refine ⟨s.flatten_parts h, fun hwhole hparts => ?_⟩
  rw [s.sum_accruals from_ ts hparts, s.flatten_parts h]
  exact toInt_foldl hwhole

/-- A schedule with two settlements at one instant, and a step that ends there. -/
theorem accrual_is_additive_twice :
    let s := new [⟨5, 1000000, 100⟩, ⟨3, 2000000, 100⟩, ⟨5, -1000000, 100⟩]
    (s.parts 0 [3, 5, 5, 9]).flatten = s.between 0 9 :=
  (accrual_is_additive _ ⟨1⟩ 1 0 [3, 5, 5, 9] (by decide)).1

/-- **Not additive** is what accrues in cash that saturates: two settlements of all there is and
one back leave nothing taken together, and everything if the first is a step of its own. -/
theorem accrual_not_additive :
    let s : FundingSchedule := ⟨[⟨1, 1000000000, Int64.maxValue⟩, ⟨2, 1000000000, Int64.maxValue⟩,
      ⟨3, -1000000000, Int64.maxValue⟩], by decide⟩
    (0 :: [1, 3] : List Nanos).IsChain (· ≤ ·) ∧
      s.accrue ⟨1⟩ (-1) 0 3 = 0 ∧ s.accruals ⟨1⟩ (-1) 0 [1, 3] = [Int64.maxValue, 0] := by
  decide

end FundingSchedule

end Backtest
