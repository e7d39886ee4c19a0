/-
# Days and windows (`oq-l2feed/src/day.rs`, with `parse_day` of `oq-resequence.rs`)

A day is counted from 1970, rendered as a date and read back by another program. Both are the
calendar's numbering of dates (`ymd_calendar`, `daysFromCivil_eq`), so the round trip is that of
the numbering, and dates of four digits are ordered as texts as their days are.

A window is the day, or the hour of it, that a stamp falls in; where the first nanosecond of the
day is representable it is the period the stamp lies in (`fromNanos_eq_iff`).
-/
import OpenQuanter.CaptureManifest
import OpenQuanter.MarchYear
import OpenQuanter.PaddedDecimal

namespace Capture

open MarchYear

/-! ## Dates -/

/-- Calendar date as year, month and day. -/
def toYmd (day : Int) : Int × Nat × Nat :=
  let z := day + 719468
  let era := z / 146097
  let doe := z % 146097
  let yoe := (doe - doe.tdiv 1460 + doe.tdiv 36524 - doe.tdiv 146096).tdiv 365
  let y := yoe + era * 400
  let doy := doe - (365 * yoe + yoe.tdiv 4 - yoe.tdiv 100)
  let mp := (5 * doy + 2).tdiv 153
  let d := (doy - (153 * mp + 2).tdiv 5 + 1).toNat
  let m := (if mp < 10 then mp + 3 else mp - 9).toNat
  (if m ≤ 2 then y + 1 else y, m, d)

/-- `{:0width$}`, of a number with a sign. -/
def pad (width : Nat) (v : Int) : Text :=
  if v < 0 then '-' :: Decimal.padded (width - 1) v.natAbs else Decimal.padded width v.natAbs

/-- `YYYY-MM-DD` -/
def display (day : Int) : Text :=
  let (y, m, d) := toYmd day
  pad 4 y ++ '-' :: (Decimal.padded 2 m ++ '-' :: Decimal.padded 2 d)

/-- `str::parse::<u32>`: digits with a plus or without, that fit. -/
def parseU32 (text : Text) : Option UInt32 :=
  let n := match text with
    | '+' :: rest => Decimal.parse rest
    | _ => Decimal.parse text
  (n.filter fun n => n < 2 ^ 32).map UInt32.ofNat

/-- A sum or product of the program, which panics if it does not fit. -/
def checkedI64 (v : Int) : Option Int := if FitsI64 v then some v else none

/-- The day of a date, with what overflows as `none`. -/
def daysFromCivil (y : Int64) (m d : UInt32) : Option Int := do
  let y ← (if m ≤ 2 then checkedI64 (y.toInt - 1) else some y.toInt)
  let numerator ← (if 0 ≤ y then some y else checkedI64 (y - 399))
  let era := numerator.tdiv 400
  let yoe := y - era * 400
  let mp ← (if m.toNat + 9 < 2 ^ 32 then some ((m.toNat + 9) % 12 : Int) else none)
  let doy := (153 * mp + 2).tdiv 5 + d.toNat - 1
  let doe := yoe * 365 + yoe.tdiv 4 - yoe.tdiv 100 + doy
  let days ← checkedI64 (era * 146097)
  let days ← checkedI64 (days + doe)
  checkedI64 (days - 719468)

/-- `YYYY-MM-DD` to a day, with a panic as the outer `none`. -/
def parseDay (text : Text) : Option (Option Int) :=
  match text.splitOn '-' with
  | [y, m, d] =>
    match Coverage.parseI64 y, parseU32 m, parseU32 d with
    | some y, some m, some d => (daysFromCivil y m d).map some
    | _, _, _ => some none
  | _ => some none

section Dates

/-- The day of its year, as the program has it. -/
theorem day_of_year (z : Int) :
    z % 146097 - (365 * cycleYear (z % 146097) + cycleYear (z % 146097) / 4 -
      cycleYear (z % 146097) / 100) = z - yearStart (yearOf z) := by
  have hdiv := Int.emod_add_mul_ediv z 146097
  obtain ⟨hpos, hlt, -, -⟩ := cycleYear_spec (Int.emod_nonneg z (by decide))
    (Int.emod_lt_of_pos z (by decide : (0 : ℤ) < 146097))
  have hcycle : cycleYear (z % 146097) / 400 = 0 := Int.ediv_eq_zero_of_lt hpos hlt
  rw [yearOf, yearStart_cycle]
  unfold yearStart
  omega

/-- The days of the program are counted from 1970, those of the calendar from the year zero. -/
theorem toYmd_eq (day : Int) : toYmd day =
    ((dateOf (day + 719468)).year, (dateOf (day + 719468)).month, (dateOf (day + 719468)).day) := by
  have htdiv : ∀ {a : Int} (b : Int), 0 ≤ a → a.tdiv b = a / b :=
    fun b ha => Int.tdiv_eq_ediv_of_nonneg ha
  unfold toYmd dateOf
  generalize day + 719468 = z
  have hdoe := Int.emod_nonneg z (by decide : (146097 : ℤ) ≠ 0)
  have hlt := Int.emod_lt_of_pos z (by decide : (0 : ℤ) < 146097)
  obtain ⟨hpos, -, -, -⟩ := cycleYear_spec hdoe hlt
  obtain ⟨hstart, hend⟩ := yearOf_spec z
  obtain ⟨hmonth, htwelve, -, -⟩ := monthOf_rest z
  have hsum : 0 ≤ z % 146097 - z % 146097 / 1460 + z % 146097 / 36524 - z % 146097 / 146096 := by
    omega
  -- No division of the program is of a negative number.
  have hyoe : (z % 146097 - (z % 146097).tdiv 1460 + (z % 146097).tdiv 36524 -
      (z % 146097).tdiv 146096).tdiv 365 = cycleYear (z % 146097) := by
    rw [htdiv 1460 hdoe, htdiv 36524 hdoe, htdiv 146096 hdoe, htdiv 365 hsum, cycleYear]
  have hmp : (5 * (z - yearStart (yearOf z)) + 2).tdiv 153 =
      monthOf (z - yearStart (yearOf z)) := htdiv 153 (by omega)
  have hd : (153 * monthOf (z - yearStart (yearOf z)) + 2).tdiv 5 =
      monthStart (monthOf (z - yearStart (yearOf z))) := htdiv 5 (by omega)
  have hyear : cycleYear (z % 146097) + z / 146097 * 400 = yearOf z := by
    rw [yearOf, Int.mul_comm]
  simp only [hyoe, htdiv 4 hpos, htdiv 100 hpos, day_of_year, hmp, hd, hyear, Prod.mk.injEq,
    and_true]
  by_cases hten : monthOf (z - yearStart (yearOf z)) < 10
  · rw [if_pos hten, if_pos hten, if_neg (by omega)]
  · rw [if_neg hten, if_neg hten, if_pos (by omega)]

/-- The date of a day, as the program has it. -/
def ymd (day : Int) : Date := ⟨(toYmd day).1, (toYmd day).2.1, (toYmd day).2.2⟩

/-- **The dates of the program are those of the calendar**, from the first of January 1970 on and
back. -/
theorem ymd_calendar : ymd 0 = ⟨1970, 1, 1⟩ ∧ ∀ day, ymd (day + 1) = (ymd day).next := by
  have hdate : ∀ day, ymd day = dateOf (day + 719468) := fun day => by rw [ymd, toYmd_eq]
  refine ⟨by decide, fun day => ?_⟩
  rw [hdate, hdate, ← dateOf_succ]
  congr 1
  omega

theorem checkedI64_of_small {v : Int} (hlow : -10000000 ≤ v) (hhigh : v ≤ 10000000) :
    checkedI64 v = some v := if_pos ⟨by omega, by omega⟩

/-- The number of a date by the program's era and its year. -/
theorem start_of_era (year : ℤ) {month : ℤ} (hpos : 0 ≤ month) (hlt : month < 12) :
    start (12 * year + month) = year / 400 * 146097 + ((year - year / 400 * 400) * 365 +
      (year - year / 400 * 400) / 4 - (year - year / 400 * 400) / 100 + (153 * month + 2) / 5) := by
  rw [start_of_year year hpos hlt]
  unfold yearStart monthStart
  omega

/-- The dates of years of four digits have their days. -/
theorem daysFromCivil_eq {y : Int64} {m d : UInt32} (hyear : 0 ≤ y.toInt) (hfour : y.toInt ≤ 9999)
    (hpos : 1 ≤ m.toNat) (hle : m.toNat ≤ 12) (hday : d.toNat ≤ 31) :
    daysFromCivil y m d = some (Date.number ⟨y.toInt, m.toNat, d.toNat⟩ - 719468) := by
  have hsmall : m ≤ 2 ↔ m.toNat ≤ 2 := UInt32.le_iff_toNat_le
  -- The year that begins in March.
  obtain ⟨year, hmarch⟩ : ∃ year : Int, year = if m ≤ 2 then y.toInt - 1 else y.toInt := ⟨_, rfl⟩
  have hfirst : (if m ≤ 2 then checkedI64 (y.toInt - 1) else some y.toInt) = some year := by
    rw [hmarch]
    split
    · exact checkedI64_of_small (by omega) (by omega)
    · rfl
  have hbounds : -1 ≤ year ∧ year ≤ 9999 := by
    rw [hmarch]
    split <;> omega
  have hnumerator : (if 0 ≤ year then some year else checkedI64 (year - 399)) =
      some (if 0 ≤ year then year else year - 399) := by
    split
    · rfl
    · exact checkedI64_of_small (by omega) (by omega)
  have hera : (if 0 ≤ year then year else year - 399).tdiv 400 = year / 400 := by
    split
    · exact Int.tdiv_eq_ediv_of_nonneg ‹_›
    · obtain rfl : year = -1 := by omega
      decide
  have hmonths : 12 * y.toInt + m.toNat - 3 = 12 * year + ((m.toNat + 9) % 12 : Int) := by
    rw [hmarch]
    split <;> rename_i h <;> rw [hsmall] at h <;> omega
  have hmp : (if m.toNat + 9 < 2 ^ 32 then some ((m.toNat + 9) % 12 : Int) else none) =
      some ((m.toNat + 9) % 12 : Int) := if_pos (by omega)
  have hyoe : 0 ≤ year - year / 400 * 400 := by omega
  have hdoy : (0 : Int) ≤ 153 * (((m.toNat : Int) + 9) % 12) + 2 := by omega
  have hnumber := start_of_era year (by omega : (0 : Int) ≤ ((m.toNat : Int) + 9) % 12)
    (by omega)
  unfold daysFromCivil
  simp only [hfirst, hnumerator, hera, hmp, Option.bind_eq_bind, Option.bind_some,
    Int.tdiv_eq_ediv_of_nonneg hyoe, Int.tdiv_eq_ediv_of_nonneg hdoy]
  rw [checkedI64_of_small (by omega) (by omega), Option.bind_some,
    checkedI64_of_small (by omega) (by omega), Option.bind_some,
    checkedI64_of_small (by omega) (by omega), Date.number, Date.months, hmonths, hnumber]
  congr 1
  dsimp only
  omega

end Dates

/-! ## Renderings -/

section Renderings

/-- A day of a year of four digits. -/
def FourDigits (day : Int) : Prop := 0 ≤ (toYmd day).1 ∧ (toYmd day).1 ≤ 9999

instance (day : Int) : Decidable (FourDigits day) := inferInstanceAs (Decidable (_ ∧ _))

/-- The days whose years have four digits. -/
theorem fourDigits_iff {day : Int} : FourDigits day ↔ -719528 ≤ day ∧ day ≤ 2932896 := by
  have hfirst : (dateOf (day + 719468)).year < 0 ↔ day + 719468 < -60 := year_lt_iff
  have hlast : (dateOf (day + 719468)).year < 10000 ↔ day + 719468 < 3652365 := year_lt_iff
  rw [FourDigits, toYmd_eq]
  dsimp only
  omega

theorem FourDigits.year {day : Int} (h : FourDigits day) :
    0 ≤ (dateOf (day + 719468)).year ∧ (dateOf (day + 719468)).year ≤ 9999 := by
  rw [FourDigits, toYmd_eq] at h
  exact h

theorem hyphen_not_mem (width n : Nat) : '-' ∉ Decimal.padded width n :=
  fun h => absurd (Decimal.isDigit_of_mem_padded h) (by decide)

theorem display_eq {day : Int} (h : FourDigits day) : display day =
    Decimal.padded 4 (dateOf (day + 719468)).year.toNat ++
      '-' :: (Decimal.padded 2 (dateOf (day + 719468)).month ++
        '-' :: Decimal.padded 2 (dateOf (day + 719468)).day) := by
  have hyear := h.year.1
  have hnat : (dateOf (day + 719468)).year.natAbs = (dateOf (day + 719468)).year.toNat := by omega
  rw [display, toYmd_eq]
  dsimp only
  rw [pad, if_neg (Int.not_lt.mpr hyear), hnat]

theorem isDigit_of_padded {width n : Nat} {c : Char} {rest : Text}
    (h : Decimal.padded width n = c :: rest) : c.isDigit = true :=
  Decimal.isDigit_of_mem_padded (by rw [h]; exact List.mem_cons_self)

theorem parseI64_padded {width n : Nat} (h : n ≤ 9999) :
    Coverage.parseI64 (Decimal.padded width n) = some (Int64.ofInt n) := by
  unfold Coverage.parseI64
  -- A sign is no digit, so there is none.
  split
  · exact absurd (isDigit_of_padded ‹_›) (by decide)
  · exact absurd (isDigit_of_padded ‹_›) (by decide)
  · have hfits : FitsI64 n := ⟨by omega, by omega⟩
    simp [Decimal.parse_padded, Option.filter, hfits]

theorem parseU32_padded {width n : Nat} (h : n < 2 ^ 32) :
    parseU32 (Decimal.padded width n) = some (UInt32.ofNat n) := by
  unfold parseU32
  split
  · exact absurd (isDigit_of_padded ‹_›) (by decide)
  · rw [Decimal.parse_padded]
    dsimp only
    rw [Option.filter_some, if_pos (decide_eq_true h), Option.map_some]

/-- **A day that is rendered is read back.** -/
theorem parseDay_display {day : Int} (h : FourDigits day) :
    parseDay (display day) = some (some day) := by
  have hvalid := dateOf_valid (day + 719468)
  have hnumber := number_dateOf (day + 719468)
  have hlength := hvalid.day_le.trans (Date.monthLength_le _ _)
  have hfour := h.year
  rw [display_eq h]
  generalize dateOf (day + 719468) = d at *
  obtain ⟨year, month, date⟩ := d
  obtain ⟨hpos, hle, -, -⟩ := hvalid
  dsimp only at *
  have hsplit : (Decimal.padded 4 year.toNat ++ '-' :: (Decimal.padded 2 month ++
      '-' :: Decimal.padded 2 date)).splitOn '-' =
      [Decimal.padded 4 year.toNat, Decimal.padded 2 month, Decimal.padded 2 date] := by
    rw [List.splitOn_append_cons_self_of_not_mem (hyphen_not_mem _ _),
      List.splitOn_append_cons_self_of_not_mem (hyphen_not_mem _ _),
      List.splitOn_eq_singleton (hyphen_not_mem _ _)]
  have hyear : (Int64.ofInt year.toNat).toInt = year := by
    rw [Int64.toInt_ofInt_of_le] <;> omega
  have hsize : UInt32.size = 4294967296 := rfl
  have hmonth : (UInt32.ofNat month).toNat = month := UInt32.toNat_ofNat_of_lt' (by omega)
  have hdate : (UInt32.ofNat date).toNat = date := UInt32.toNat_ofNat_of_lt' (by omega)
  have hdays := daysFromCivil_eq (y := Int64.ofInt year.toNat) (m := UInt32.ofNat month)
    (d := UInt32.ofNat date) (by omega) (by omega) (by omega) (by omega) (by omega)
  rw [hyear, hmonth, hdate, hnumber] at hdays
  rw [parseDay, hsplit]
  simp only [parseI64_padded (by omega : year.toNat ≤ 9999),
    parseU32_padded (by omega : month < 2 ^ 32), parseU32_padded (by omega : date < 2 ^ 32), hdays,
    Option.map_some]
  congr 2
  omega

/-- **Renderings are ordered as their days.** -/
theorem display_lt_iff {day other : Int} (h : FourDigits day) (h' : FourDigits other) :
    display day < display other ↔ day < other := by
  have hbefore := dateOf_before_iff (day + 719468) (other + 719468)
  have hvalid := dateOf_valid (day + 719468)
  have hvalid' := dateOf_valid (other + 719468)
  rw [add_lt_add_iff_right] at hbefore
  rw [display_eq h, display_eq h', ← hbefore]
  have hyear := h.year
  have hyear' := h'.year
  have hlength := hvalid.day_le.trans (Date.monthLength_le _ _)
  have hlength' := hvalid'.day_le.trans (Date.monthLength_le _ _)
  have hmonth := hvalid.month_le
  have hmonth' := hvalid'.month_le
  generalize dateOf (day + 719468) = d at *
  generalize dateOf (other + 719468) = d' at *
  have hrest : ∀ {s t : Text}, '-' :: s < '-' :: t ↔ s < t := List.cons_lt_cons_self
  rw [Decimal.padded_append_lt_iff (by decide) (by omega) (by omega), hrest,
    Decimal.padded_append_lt_iff (by decide) (by omega) (by omega), hrest,
    Decimal.padded_lt_iff (by decide) (by omega) (by omega), Date.Before]
  omega

end Renderings

/-! ## Windows -/

section Windows

/-- How long a window is. -/
def Rotation.period : Rotation → Int
  | .daily => nsPerDay
  | .hourly => nsPerHour

/-- The first nanosecond of the day of a stamp is representable. -/
def Representable (ts : Int64) : Prop := FitsI64 (ts.toInt / nsPerDay * nsPerDay)

instance (ts : Int64) : Decidable (Representable ts) := inferInstanceAs (Decidable (FitsI64 _))

theorem dayStart_of_representable {ts : Int64} (h : Representable ts) :
    (Window.dayStart (ts.toInt / nsPerDay)).toInt = ts.toInt / nsPerDay * nsPerDay :=
  toInt_ofIntClamp_of_fits h

/-- The hours of a day do not go past its end. -/
theorem hour_of_period (t : Int) :
    (((t - t / nsPerDay * nsPerDay) / nsPerHour).toNat : Int) = t / nsPerHour - t / nsPerDay * 24 ∧
      t / nsPerDay * 24 ≤ t / nsPerHour ∧ t / nsPerHour < t / nsPerDay * 24 + 24 := by
  unfold nsPerDay nsPerHour
  omega

/-- The window of a stamp, and its hour counted through the days. -/
theorem fromNanos_hourly {ts : Int64} (h : Representable ts) :
    ∃ hour : Nat, Window.fromNanos ts .hourly = ⟨ts.toInt / nsPerDay, some hour⟩ ∧
      (hour : Int) = ts.toInt / nsPerHour - ts.toInt / nsPerDay * 24 := by
  refine ⟨_, rfl, ?_⟩
  rw [dayStart_of_representable h]
  exact (hour_of_period ts.toInt).1

/-- A window begins with the period that a stamp of it lies in. -/
theorem startNanos_fromNanos {ts : Int64} (h : Representable ts) (rotation : Rotation) :
    (Window.fromNanos ts rotation).startNanos = ts.toInt / rotation.period * rotation.period := by
  cases rotation with
  | daily =>
    rw [Window.fromNanos, Window.startNanos]
    dsimp only
    rw [dayStart_of_representable h]
    exact Int.add_zero _
  | hourly =>
    obtain ⟨hour, hwindow, hhour⟩ := fromNanos_hourly h
    rw [hwindow, Window.startNanos, Option.getD_some]
    dsimp only [Rotation.period]
    rw [dayStart_of_representable h, hhour]
    unfold nsPerDay nsPerHour
    omega

theorem period_pos (rotation : Rotation) : 0 < rotation.period := by
  cases rotation <;> decide

/-- **A window has its stamps in it.** -/
theorem mem_fromNanos {ts : Int64} (h : Representable ts) (rotation : Rotation) :
    (Window.fromNanos ts rotation).startNanos ≤ ts.toInt ∧
      ts.toInt < (Window.fromNanos ts rotation).startNanos + rotation.period := by
  have hpos := period_pos rotation
  rw [startNanos_fromNanos h]
  exact ⟨Int.ediv_mul_le _ hpos.ne', Int.lt_ediv_add_one_mul_self _ hpos |>.trans_eq (by ring)⟩

/-- **Two stamps have one window if they lie in one period.** -/
theorem fromNanos_eq_iff {ts us : Int64} (hts : Representable ts) (hus : Representable us)
    (rotation : Rotation) : Window.fromNanos ts rotation = Window.fromNanos us rotation ↔
      ts.toInt / rotation.period = us.toInt / rotation.period := by
  cases rotation with
  | daily => simp [Window.fromNanos, Rotation.period]
  | hourly =>
    obtain ⟨hour, hwindow, hhour⟩ := fromNanos_hourly hts
    obtain ⟨hour', hwindow', hhour'⟩ := fromNanos_hourly hus
    have hday := hour_of_period ts.toInt
    have hday' := hour_of_period us.toInt
    rw [hwindow, hwindow', Window.mk.injEq, Option.some.injEq, Rotation.period]
    omega

/-- **Windows are ordered as the periods are.** -/
theorem before_fromNanos_iff {ts us : Int64} (hts : Representable ts) (hus : Representable us)
    (rotation : Rotation) :
    (Window.fromNanos ts rotation).before (Window.fromNanos us rotation) = true ↔
      ts.toInt / rotation.period < us.toInt / rotation.period := by
  cases rotation with
  | daily =>
    simp only [Window.fromNanos, Window.before, Rotation.period, Bool.and_false, Bool.or_false]
    exact decide_eq_true_iff
  | hourly =>
    obtain ⟨hour, hwindow, hhour⟩ := fromNanos_hourly hts
    obtain ⟨hour', hwindow', hhour'⟩ := fromNanos_hourly hus
    have hday := hour_of_period ts.toInt
    have hday' := hour_of_period us.toInt
    rw [hwindow, hwindow', Window.before, Rotation.period]
    simp only [Bool.or_eq_true, Bool.and_eq_true, decide_eq_true_eq]
    omega

end Windows

/-- **Days and windows round-trip.**  A day of a year of four digits is read back from its date and
dates are ordered as their days; a stamp is in its window, and the windows of two stamps are the
same or in order as the periods of the two are. -/
theorem days_and_windows {day other : Int} (hday : FourDigits day) (hother : FourDigits other)
    {ts us : Int64} (hts : Representable ts) (hus : Representable us) (rotation : Rotation) :
    parseDay (display day) = some (some day) ∧
    (display day < display other ↔ day < other) ∧
    ((Window.fromNanos ts rotation).startNanos ≤ ts.toInt ∧
      ts.toInt < (Window.fromNanos ts rotation).startNanos + rotation.period) ∧
    (Window.fromNanos ts rotation = Window.fromNanos us rotation ↔
      ts.toInt / rotation.period = us.toInt / rotation.period) ∧
    ((Window.fromNanos ts rotation).before (Window.fromNanos us rotation) = true ↔
      ts.toInt / rotation.period < us.toInt / rotation.period) ∧
    (ts ≤ us → Window.fromNanos ts rotation = Window.fromNanos us rotation ∨
      (Window.fromNanos ts rotation).before (Window.fromNanos us rotation) = true) := by
  refine ⟨parseDay_display hday, display_lt_iff hday hother, mem_fromNanos hts rotation,
    fromNanos_eq_iff hts hus rotation, before_fromNanos_iff hts hus rotation, ?_⟩
  intro hle
  rw [fromNanos_eq_iff hts hus, before_fromNanos_iff hts hus]
  have hperiods := Int.ediv_le_ediv (period_pos rotation) (Int64.le_iff_toInt_le.mp hle)
  omega

/-- The leap day of 2000 and the first of March, and two stamps before 1970. -/
theorem days_and_windows_leap :
    parseDay (display 11016) = some (some 11016) ∧
    (display 11016 < display 11017 ↔ (11016 : Int) < 11017) ∧
    (Window.fromNanos (-1) .hourly = Window.fromNanos (-3600000000001) .hourly ↔
      (-1 : Int64).toInt / nsPerHour = (-3600000000001 : Int64).toInt / nsPerHour) := by
  have hday : FourDigits 11016 := by decide
  have hother : FourDigits 11017 := by decide
  have hts : Representable (-1) := by decide
  have hus : Representable (-3600000000001) := by decide
  have h := days_and_windows hday hother hts hus .hourly
  exact ⟨h.1, h.2.1, h.2.2.2.1⟩

end Capture
