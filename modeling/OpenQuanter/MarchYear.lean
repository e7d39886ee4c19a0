/-
# The calendar from March on

Days are counted from the first of March of the year zero, so that the leap day is the last of its
year. A year begins at `yearStart` and a month of it at `monthStart`; every day has one year, one
month and one day of the month.

* The year is found by a quotient that is corrected for the leap days of a cycle of 400 years
  (`cycleYear_spec`).
* The date of a number is that of the calendar, where every date is followed by the next one
  (`dateOf_succ`), and dates are numbered in their order (`dateOf_before_iff`).

Nothing here names the program under verification.
-/
import Mathlib

namespace MarchYear

/-! ## Years -/

/-- The first day of a year that begins in March. -/
def yearStart (year : ℤ) : ℤ := 365 * year + year / 4 - year / 100 + year / 400

theorem yearStart_lt (year : ℤ) : yearStart year < yearStart (year + 1) := by
  unfold yearStart
  omega

theorem yearStart_mono {year other : ℤ} (h : year ≤ other) : yearStart year ≤ yearStart other :=
  monotone_int_of_le_succ (fun y => Int.le_of_lt (yearStart_lt y)) h

theorem yearStart_cycle (year cycles : ℤ) :
    yearStart (year + 400 * cycles) = yearStart year + 146097 * cycles := by
  unfold yearStart
  omega

/-- The year of a day of a cycle: what is taken off are the leap days before it. -/
def cycleYear (day : ℤ) : ℤ := (day - day / 1460 + day / 36524 - day / 146096) / 365

theorem cycleYear_mono {day later : ℤ} (hpos : 0 ≤ day) (h : day ≤ later) (hend : later < 146097) :
    cycleYear day ≤ cycleYear later := by
  have hdays : day - day / 1460 ≤ later - later / 1460 := by omega
  have hcenturies : day / 36524 - day / 146096 ≤ later / 36524 - later / 146096 := by omega
  exact Int.ediv_le_ediv (by decide) (by omega)

/-- Where a year of the cycle begins, the quotient turns to it. -/
theorem cycleYear_turn {year : ℤ} (hpos : 0 ≤ year) (hlt : year < 400) :
    cycleYear (yearStart year) = year ∧ cycleYear (yearStart (year + 1) - 1) = year := by
  have hall : ∀ n : Fin 400, cycleYear (yearStart (n : ℕ)) = (n : ℕ) ∧
      cycleYear (yearStart ((n : ℕ) + 1) - 1) = (n : ℕ) := by decide +kernel
  obtain ⟨n, rfl⟩ := Int.eq_ofNat_of_zero_le hpos
  exact hall ⟨n, by omega⟩

theorem yearStart_400 : yearStart 400 = 146097 := rfl

theorem cycleYear_spec {day : ℤ} (hpos : 0 ≤ day) (hend : day < 146097) :
    0 ≤ cycleYear day ∧ cycleYear day < 400 ∧ yearStart (cycleYear day) ≤ day ∧
      day < yearStart (cycleYear day + 1) := by
  have hzero : 0 ≤ cycleYear day := cycleYear_mono le_rfl hpos hend
  have hlast : cycleYear day ≤ 399 := cycleYear_mono hpos (Int.le_sub_one_of_lt hend) (by decide)
  refine ⟨hzero, by omega, ?_, ?_⟩
  · by_contra hbefore
    -- The last day of the year before would not be later.
    have hle : day ≤ yearStart (cycleYear day - 1 + 1) - 1 := by
      rw [Int.sub_add_cancel]
      omega
    have hfirst : 0 < cycleYear day := by
      by_contra hzero'
      rw [Int.le_antisymm (Int.not_lt.mp hzero') hzero] at hbefore
      exact hbefore hpos
    have hturn := (cycleYear_turn (by omega : 0 ≤ cycleYear day - 1) (by omega)).2
    have hbound : yearStart (cycleYear day - 1 + 1) ≤ yearStart 400 := yearStart_mono (by omega)
    rw [yearStart_400] at hbound
    have hmono := cycleYear_mono hpos hle (by omega)
    omega
  · by_contra hbehind
    have hle : yearStart (cycleYear day + 1) ≤ day := Int.not_lt.mp hbehind
    have hnext : cycleYear day + 1 < 400 := by
      by_contra hover
      have hbound : yearStart 400 ≤ yearStart (cycleYear day + 1) := yearStart_mono (by omega)
      rw [yearStart_400] at hbound
      omega
    have hturn := (cycleYear_turn (by omega : 0 ≤ cycleYear day + 1) hnext).1
    have hstart : 0 ≤ yearStart (cycleYear day + 1) :=
      (by decide : (0 : ℤ) ≤ yearStart 0).trans (yearStart_mono (by omega))
    have hmono := cycleYear_mono hstart hle hend
    omega

/-! ## Months -/

/-- The first day of a month in its year, where the months are counted from March. -/
def monthStart (month : ℤ) : ℤ := (153 * month + 2) / 5

/-- The month of a day of its year. -/
def monthOf (day : ℤ) : ℤ := (5 * day + 2) / 153

theorem monthOf_spec {day : ℤ} (hpos : 0 ≤ day) (hend : day < 366) :
    0 ≤ monthOf day ∧ monthOf day < 12 ∧ monthStart (monthOf day) ≤ day ∧
      day < monthStart (monthOf day + 1) := by
  unfold monthOf monthStart
  omega

/-- The first day of a month, where the months are counted through the years. -/
def start (month : ℤ) : ℤ := yearStart (month / 12) + monthStart (month % 12)

theorem start_of_year (year : ℤ) {month : ℤ} (hpos : 0 ≤ month) (hlt : month < 12) :
    start (12 * year + month) = yearStart year + monthStart month := by
  have hdiv : (12 * year + month) / 12 = year := by omega
  have hmod : (12 * year + month) % 12 = month := by omega
  rw [start, hdiv, hmod]

/-! ## Dates -/

structure Date where
  year : ℤ
  month : ℕ
  day : ℕ
  deriving DecidableEq, Repr

def isLeap (year : ℤ) : Bool := year % 4 = 0 && (year % 100 ≠ 0 || year % 400 = 0)

def monthLength (year : ℤ) (month : ℕ) : ℕ :=
  if month = 2 then (if isLeap year then 29 else 28)
  else if month = 4 ∨ month = 6 ∨ month = 9 ∨ month = 11 then 30 else 31

namespace Date

/-- A date of the calendar. -/
structure Valid (d : Date) : Prop where
  month_pos : 1 ≤ d.month
  month_le : d.month ≤ 12
  day_pos : 1 ≤ d.day
  day_le : d.day ≤ monthLength d.year d.month

/-- The day after a date. -/
def next (d : Date) : Date :=
  if d.day < monthLength d.year d.month then { d with day := d.day + 1 }
  else if d.month < 12 then ⟨d.year, d.month + 1, 1⟩
  else ⟨d.year + 1, 1, 1⟩

/-- Dates are ordered by year, month and day. -/
def Before (a b : Date) : Prop :=
  a.year < b.year ∨ a.year = b.year ∧ (a.month < b.month ∨ a.month = b.month ∧ a.day < b.day)

/-- The month of a date, counted from the March of the year zero. -/
def months (d : Date) : ℤ := 12 * d.year + d.month - 3

/-- The number of a date, counted from the first of that March. -/
def number (d : Date) : ℤ := start d.months + d.day - 1

/-- A month is as long as the calendar says. -/
theorem start_succ {d : Date} (hpos : 1 ≤ d.month) (hle : d.month ≤ 12) :
    start (d.months + 1) = start d.months + monthLength d.year d.month := by
  obtain ⟨year, month, day⟩ := d
  dsimp only [months] at *
  have hleap : isLeap year = true ↔ year % 4 = 0 ∧ (year % 100 ≠ 0 ∨ year % 400 = 0) := by
    simp [isLeap]
  unfold start yearStart monthStart monthLength
  by_cases hfeb : month = 2
  · -- The last month of a year from March on has the leap day.
    subst hfeb
    rw [if_pos rfl]
    by_cases h : isLeap year = true
    · have hyear := hleap.mp h
      rw [if_pos h]
      omega
    · have hyear := mt hleap.mpr h
      rw [if_neg h]
      omega
  · interval_cases month <;> first | exact absurd rfl hfeb | (norm_num; omega)

theorem monthLength_pos (year : ℤ) (month : ℕ) : 1 ≤ monthLength year month := by
  unfold monthLength
  split
  · split <;> decide
  · split <;> decide

theorem monthLength_le (year : ℤ) (month : ℕ) : monthLength year month ≤ 31 := by
  unfold monthLength
  split
  · split <;> decide
  · split <;> decide

theorem start_lt (month : ℤ) : start month < start (month + 1) := by
  -- Every month is that of a date.
  let d : Date := ⟨(month + 2) / 12, ((month + 2) % 12).toNat + 1, 1⟩
  have hmonths : d.months = month := by
    simp only [months, d]
    omega
  have hsucc := start_succ (d := d) (by simp [d]) (by simp only [d]; omega)
  have hpos := monthLength_pos d.year d.month
  rw [hmonths] at hsucc
  omega

theorem start_mono {month later : ℤ} (h : month ≤ later) : start month ≤ start later :=
  monotone_int_of_le_succ (fun m => Int.le_of_lt (start_lt m)) h

theorem before_of_months_lt {a b : Date} (ha : a.Valid) (hb : b.Valid)
    (h : a.months < b.months) : a.Before b := by
  obtain ⟨_, _, _, _⟩ := ha
  obtain ⟨_, _, _, _⟩ := hb
  unfold months at h
  unfold Before
  omega

/-- **Dates are numbered in their order.** -/
theorem before_iff {a b : Date} (ha : a.Valid) (hb : b.Valid) :
    a.Before b ↔ a.number < b.number := by
  have hlt : ∀ {a b : Date}, a.Valid → b.Valid → a.months < b.months → a.number < b.number := by
    intro a b ha hb h
    have hmonth := start_succ ha.month_pos ha.month_le
    have hstart := start_mono (Int.add_one_le_of_lt h)
    have hfirst := ha.day_le
    have hsecond := hb.day_pos
    unfold number
    omega
  constructor
  · intro h
    have hmonths : a.months < b.months ∨ a.months = b.months ∧ a.day < b.day := by
      obtain ⟨_, _, _, _⟩ := ha
      obtain ⟨_, _, _, _⟩ := hb
      unfold Before at h
      unfold months
      omega
    rcases hmonths with h | ⟨hsame, h⟩
    · exact hlt ha hb h
    · unfold number
      rw [hsame]
      omega
  · intro h
    rcases lt_trichotomy a.months b.months with hmonths | hsame | hmonths
    · exact before_of_months_lt ha hb hmonths
    · have hday : a.day < b.day := by
        unfold number at h
        rw [hsame] at h
        omega
      obtain ⟨_, _, _, _⟩ := ha
      obtain ⟨_, _, _, _⟩ := hb
      unfold months at hsame
      unfold Before
      omega
    · have hback := hlt hb ha hmonths
      omega

/-- No two dates have one number. -/
theorem number_inj {a b : Date} (ha : a.Valid) (hb : b.Valid) (h : a.number = b.number) :
    a = b := by
  have hab : ¬ a.Before b := fun hbefore => by
    have hlt := (before_iff ha hb).mp hbefore
    omega
  have hba : ¬ b.Before a := fun hbefore => by
    have hlt := (before_iff hb ha).mp hbefore
    omega
  obtain ⟨year, month, day⟩ := a
  obtain ⟨year', month', day'⟩ := b
  unfold Before at hab hba
  dsimp only at hab hba
  obtain ⟨rfl, rfl, rfl⟩ : year = year' ∧ month = month' ∧ day = day' := by omega
  rfl

theorem next_valid {d : Date} (h : d.Valid) : d.next.Valid := by
  obtain ⟨hpos, hle, hday, hlength⟩ := h
  have hfirst := monthLength_pos
  unfold next
  split
  · exact ⟨hpos, hle, by dsimp only; omega, by dsimp only; omega⟩
  · split
    · exact ⟨by dsimp only; omega, by dsimp only; omega, le_rfl, hfirst _ _⟩
    · exact ⟨le_rfl, by dsimp only; omega, le_rfl, hfirst _ _⟩

/-- **The next date has the next number.** -/
theorem number_next {d : Date} (h : d.Valid) : d.next.number = d.number + 1 := by
  have hsucc := start_succ h.month_pos h.month_le
  obtain ⟨hpos, hle, hday, hlength⟩ := h
  unfold next
  split
  · unfold number months
    dsimp only
    omega
  · have hlast : d.day = monthLength d.year d.month := by omega
    split
    · have hmonths : months ⟨d.year, d.month + 1, 1⟩ = d.months + 1 := by
        unfold months
        dsimp only
        omega
      unfold number
      rw [hmonths, hsucc, hlast]
      dsimp only
      omega
    · have hmonths : months ⟨d.year + 1, 1, 1⟩ = d.months + 1 := by
        unfold months
        dsimp only
        omega
      unfold number
      rw [hmonths, hsucc, hlast]
      dsimp only
      omega

end Date

/-! ## The date of a number -/

/-- The year that begins in March, of any day. -/
def yearOf (day : ℤ) : ℤ := cycleYear (day % 146097) + 400 * (day / 146097)

theorem yearOf_spec (day : ℤ) :
    yearStart (yearOf day) ≤ day ∧ day < yearStart (yearOf day + 1) := by
  obtain ⟨-, -, hstart, hend⟩ := cycleYear_spec (Int.emod_nonneg day (by decide))
    (Int.emod_lt_of_pos day (by decide : (0 : ℤ) < 146097))
  have hdiv := Int.emod_add_mul_ediv day 146097
  have hnext : yearOf day + 1 = cycleYear (day % 146097) + 1 + 400 * (day / 146097) := by
    unfold yearOf
    omega
  rw [hnext, yearOf, yearStart_cycle, yearStart_cycle]
  omega

theorem yearStart_succ_le (year : ℤ) : yearStart (year + 1) ≤ yearStart year + 366 := by
  unfold yearStart
  omega

/-- The date of a day that is counted from the first of March of the year zero. -/
def dateOf (day : ℤ) : Date :=
  let year := yearOf day
  let rest := day - yearStart year
  let month := monthOf rest
  { year := if month < 10 then year else year + 1
    month := (if month < 10 then month + 3 else month - 9).toNat
    day := (rest - monthStart month + 1).toNat }

/-- The month of a day, in the year of the day. -/
theorem monthOf_rest (day : ℤ) :
    0 ≤ monthOf (day - yearStart (yearOf day)) ∧ monthOf (day - yearStart (yearOf day)) < 12 ∧
      yearStart (yearOf day) + monthStart (monthOf (day - yearStart (yearOf day))) ≤ day ∧
      day < yearStart (yearOf day) + monthStart (monthOf (day - yearStart (yearOf day)) + 1) := by
  obtain ⟨hstart, hend⟩ := yearOf_spec day
  have hyear := yearStart_succ_le (yearOf day)
  obtain ⟨hpos, hlt, hmonth, hnext⟩ := monthOf_spec
    (by omega : 0 ≤ day - yearStart (yearOf day)) (by omega)
  omega

theorem dateOf_months (day : ℤ) :
    (dateOf day).months = 12 * yearOf day + monthOf (day - yearStart (yearOf day)) := by
  obtain ⟨hpos, hlt, -, -⟩ := monthOf_rest day
  unfold Date.months dateOf
  dsimp only
  split <;> omega

/-- A day has the number of its date. -/
theorem number_dateOf (day : ℤ) : (dateOf day).number = day := by
  obtain ⟨hpos, hlt, hmonth, -⟩ := monthOf_rest day
  rw [Date.number, dateOf_months, start_of_year _ hpos hlt]
  unfold dateOf
  dsimp only
  omega

/-- A day is before the next month, which begins in the same year or with the next one. -/
theorem lt_start_succ (day : ℤ) : day < start ((dateOf day).months + 1) := by
  obtain ⟨-, hend⟩ := yearOf_spec day
  obtain ⟨hpos, hlt, -, hnext⟩ := monthOf_rest day
  rw [dateOf_months]
  by_cases hlast : monthOf (day - yearStart (yearOf day)) = 11
  · have hyear : 12 * yearOf day + 11 + 1 = 12 * (yearOf day + 1) + 0 := by omega
    rw [hlast, hyear, start_of_year _ le_rfl (by decide)]
    exact hend.trans_le (by simp [monthStart])
  · rw [Int.add_assoc, start_of_year _ (by omega) (by omega)]
    exact hnext

theorem dateOf_valid (day : ℤ) : (dateOf day).Valid := by
  obtain ⟨hpos, hlt, hmonth, hnext⟩ := monthOf_rest day
  have hmonth_pos : 1 ≤ (dateOf day).month := by
    unfold dateOf
    dsimp only
    split <;> omega
  have hmonth_le : (dateOf day).month ≤ 12 := by
    unfold dateOf
    dsimp only
    split <;> omega
  have hday_pos : 1 ≤ (dateOf day).day := by
    unfold dateOf
    dsimp only
    omega
  have hbefore := lt_start_succ day
  have hsucc := Date.start_succ hmonth_pos hmonth_le
  have hnumber := number_dateOf day
  unfold Date.number at hnumber
  exact ⟨hmonth_pos, hmonth_le, hday_pos, by omega⟩

/-- Every date of the calendar is found. -/
theorem dateOf_number {d : Date} (h : d.Valid) : dateOf d.number = d :=
  Date.number_inj (dateOf_valid _) h (number_dateOf _)

-- The first day of 1970.
example : dateOf 719468 = ⟨1970, 1, 1⟩ := by decide +kernel

/-- **Day by day, the dates are those of the calendar.** -/
theorem dateOf_succ (day : ℤ) : dateOf (day + 1) = (dateOf day).next := by
  have hnext := Date.number_next (dateOf_valid day)
  rw [number_dateOf] at hnext
  rw [← hnext, dateOf_number (Date.next_valid (dateOf_valid day))]

theorem dateOf_before_iff (day other : ℤ) : (dateOf day).Before (dateOf other) ↔ day < other := by
  rw [Date.before_iff (dateOf_valid day) (dateOf_valid other), number_dateOf, number_dateOf]

/-- A year begins with its first of January. -/
theorem year_lt_iff {day year : ℤ} :
    (dateOf day).year < year ↔ day < Date.number ⟨year, 1, 1⟩ := by
  have hnew : Date.Valid ⟨year, 1, 1⟩ :=
    ⟨le_rfl, by dsimp only; omega, le_rfl, Date.monthLength_pos _ _⟩
  have hvalid := dateOf_valid day
  have hbefore := Date.before_iff hvalid hnew
  rw [number_dateOf] at hbefore
  rw [← hbefore, Date.Before]
  obtain ⟨hmonth, -, hday, -⟩ := hvalid
  dsimp only
  omega

end MarchYear
