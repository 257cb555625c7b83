import Mathlib.Tactic.IntervalCases
import Mathlib.Tactic.Ring

namespace MootMemory

/-- The leap years of the Gregorian calendar, which is taken to hold for all years. -/
def IsLeapYear (year : Int) : Prop := year % 4 = 0 ∧ year % 100 ≠ 0 ∨ year % 400 = 0

instance (year : Int) : Decidable (IsLeapYear year) := inferInstanceAs (Decidable (_ ∨ _))

def monthLength (year month : Int) : Int :=
  if month = 2 then (if IsLeapYear year then 29 else 28)
  else if month = 4 ∨ month = 6 ∨ month = 9 ∨ month = 11 then 30
  else 31

structure IsDate (year month day : Int) : Prop where
  one_le_month : 1 ≤ month
  month_le : month ≤ 12
  one_le_day : 1 ≤ day
  day_le : day ≤ monthLength year month

/-- The first of March of a year, in days from that of the year 0. -/
def marchFirst (year : Int) : Int := 365 * year + year / 4 - year / 100 + year / 400

/-- The year that a month is of if years begin in March. -/
def marchYear (year month : Int) : Int := if month ≤ 2 then year - 1 else year

/-- The number of a month, from 0 on, if years begin in March. -/
def marchMonth (month : Int) : Int := if month ≤ 2 then month + 9 else month - 3

/-- A date in days from the first of March of the year 0. -/
def dayNumber (year month day : Int) : Int :=
  marchFirst (marchYear year month) + (153 * marchMonth month + 2) / 5 + day - 1

theorem monthLength_bounds (year month : Int) :
    28 ≤ monthLength year month ∧ monthLength year month ≤ 31 := by
  unfold monthLength
  split
  next => split <;> omega
  next => split <;> omega

/-- The first of March is a leap day later after a leap year. -/
theorem marchFirst_sub_one (year : Int) :
    marchFirst year = marchFirst (year - 1) + if IsLeapYear year then 366 else 365 := by
  by_cases hleap : IsLeapYear year
  · rw [if_pos hleap]
    unfold IsLeapYear at hleap
    unfold marchFirst
    omega
  · rw [if_neg hleap]
    unfold IsLeapYear at hleap
    unfold marchFirst
    omega

theorem dayNumber_add_days (year month day days : Int) :
    dayNumber year month (day + days) = dayNumber year month day + days := by
  unfold dayNumber
  omega

theorem dayNumber_next_month {year month : Int} (h1 : 1 ≤ month) (h11 : month ≤ 11) :
    dayNumber year (month + 1) 1 = dayNumber year month 1 + monthLength year month := by
  have hmarch := marchFirst_sub_one year
  unfold dayNumber marchYear marchMonth monthLength
  by_cases hleap : IsLeapYear year
  · rw [if_pos hleap] at hmarch
    interval_cases month <;> simp [hleap] <;> omega
  · rw [if_neg hleap] at hmarch
    interval_cases month <;> simp [hleap] <;> omega

theorem dayNumber_next_year (year : Int) :
    dayNumber (year + 1) 1 1 = dayNumber year 12 1 + monthLength year 12 := by
  unfold dayNumber marchYear marchMonth monthLength
  simp
  omega

section Order

/-- The first day of a month, the months counted through all years. -/
def monthStart (index : Int) : Int := dayNumber (index / 12) (index % 12 + 1) 1

theorem monthStart_succ (index : Int) :
    monthStart (index + 1) = monthStart index + monthLength (index / 12) (index % 12 + 1) := by
  unfold monthStart
  by_cases hlast : index % 12 = 11
  · have hyear : (index + 1) / 12 = index / 12 + 1 := by omega
    have hmonth : (index + 1) % 12 + 1 = 1 := by omega
    rw [hyear, hmonth, hlast]
    exact dayNumber_next_year _
  · have hyear : (index + 1) / 12 = index / 12 := by omega
    have hmonth : (index + 1) % 12 + 1 = index % 12 + 1 + 1 := by omega
    rw [hyear, hmonth]
    exact dayNumber_next_month (by omega) (by omega)

theorem monthStart_add_le (index : Int) (more : Nat) :
    monthStart index + more ≤ monthStart (index + more) := by
  induction more with
  | zero => simp
  | succ more ih =>
    have hnext := monthStart_succ (index + more)
    have hlength := (monthLength_bounds ((index + more) / 12) ((index + more) % 12 + 1)).1
    rw [Nat.cast_succ, ← Int.add_assoc, ← Int.add_assoc]
    omega

variable {year month day year' month' day' : Int}

theorem IsDate.dayNumber_eq (h : IsDate year month day) :
    dayNumber year month day = monthStart (12 * year + (month - 1)) + (day - 1) ∧
      monthLength year month = monthLength ((12 * year + (month - 1)) / 12)
        ((12 * year + (month - 1)) % 12 + 1) := by
  obtain ⟨h1, h12, -, -⟩ := h
  have hyear : (12 * year + (month - 1)) / 12 = year := by omega
  have hmonth : (12 * year + (month - 1)) % 12 + 1 = month := by omega
  rw [monthStart, hyear, hmonth, ← dayNumber_add_days, show 1 + (day - 1) = day by omega]
  exact ⟨rfl, rfl⟩

/-- A date in a later month is later. -/
theorem IsDate.dayNumber_lt_of_month (h : IsDate year month day) (h' : IsDate year' month' day')
    (hlt : 12 * year + month < 12 * year' + month') :
    dayNumber year month day < dayNumber year' month' day' := by
  obtain ⟨hday, hlength⟩ := h.dayNumber_eq
  obtain ⟨hday', -⟩ := h'.dayNumber_eq
  obtain ⟨more, hmore⟩ := Int.eq_ofNat_of_zero_le
    (show 0 ≤ (12 * year' + (month' - 1)) - (12 * year + (month - 1) + 1) by omega)
  have hlater := monthStart_add_le (12 * year + (month - 1) + 1) more
  rw [show 12 * year + (month - 1) + 1 + (more : Int) = 12 * year' + (month' - 1) by omega,
    monthStart_succ, ← hlength] at hlater
  have hle := h.day_le
  have hone := h'.one_le_day
  omega

theorem dayNumber_lt_of_day (hlt : day < day') :
    dayNumber year month day < dayNumber year month day' := by
  have hdays := dayNumber_add_days year month day (day' - day)
  rw [show day + (day' - day) = day' by omega] at hdays
  omega

/-- Dates are in the order of year, month and day. -/
theorem IsDate.dayNumber_lt (h : IsDate year month day) (h' : IsDate year' month' day')
    (hlt : year < year' ∨ year = year' ∧ (month < month' ∨ month = month' ∧ day < day')) :
    dayNumber year month day < dayNumber year' month' day' := by
  have h1 := h.one_le_month
  have h12 := h.month_le
  have h1' := h'.one_le_month
  rcases hlt with hyear | ⟨rfl, hmonth | ⟨rfl, hday⟩⟩
  · exact h.dayNumber_lt_of_month h' (by omega)
  · exact h.dayNumber_lt_of_month h' (by omega)
  · exact dayNumber_lt_of_day hday

theorem IsDate.lt_or_eq_or_gt (year month day year' month' day' : Int) :
    (year < year' ∨ year = year' ∧ (month < month' ∨ month = month' ∧ day < day')) ∨
      (year = year' ∧ month = month' ∧ day = day') ∨
        (year' < year ∨ year' = year ∧ (month' < month ∨ month' = month ∧ day' < day)) := by
  omega

theorem IsDate.dayNumber_lt_iff (h : IsDate year month day) (h' : IsDate year' month' day') :
    dayNumber year month day < dayNumber year' month' day' ↔
      year < year' ∨ year = year' ∧ (month < month' ∨ month = month' ∧ day < day') := by
  refine ⟨fun hlt => ?_, h.dayNumber_lt h'⟩
  rcases IsDate.lt_or_eq_or_gt year month day year' month' day' with hdate | ⟨rfl, rfl, rfl⟩ | hdate
  · exact hdate
  · exact absurd hlt (lt_irrefl _)
  · exact absurd (h'.dayNumber_lt h hdate) (not_lt_of_gt hlt)

/-- A day has one date. -/
theorem IsDate.eq_of_dayNumber_eq (h : IsDate year month day) (h' : IsDate year' month' day')
    (heq : dayNumber year month day = dayNumber year' month' day') :
    year = year' ∧ month = month' ∧ day = day' := by
  rcases IsDate.lt_or_eq_or_gt year month day year' month' day' with hdate | hdate | hdate
  · exact absurd heq (h.dayNumber_lt h' hdate).ne
  · exact hdate
  · exact absurd heq (h'.dayNumber_lt h hdate).ne'

end Order

section Eras

/-- Years from March to March are found where they start. -/
theorem exists_marchYear {day : Int} {years : Nat} (h0 : 0 ≤ day) (hlt : day < marchFirst years) :
    ∃ year : Nat, year < years ∧ marchFirst year ≤ day ∧ day < marchFirst (year + 1) := by
  induction years with
  | zero =>
    have hzero : marchFirst ((0 : Nat) : Int) = 0 := by simp [marchFirst]
    omega
  | succ years ih =>
    by_cases hearlier : day < marchFirst years
    · obtain ⟨year, hyear, hstart, hend⟩ := ih hearlier
      exact ⟨year, by omega, hstart, hend⟩
    · exact ⟨years, Nat.lt_succ_self years, Int.not_lt.mp hearlier, by exact_mod_cast hlt⟩

theorem marchFirst_split (century quad rest : Int) (h0 : 0 ≤ quad) (h24 : quad ≤ 24)
    (hr0 : 0 ≤ rest) (hr3 : rest ≤ 3) (hc0 : 0 ≤ century) (hc3 : century ≤ 3) :
    marchFirst (100 * century + 4 * quad + rest) =
      36524 * century + 1461 * quad + 365 * rest := by
  have hquads : (100 * century + 4 * quad + rest) / 4 = 25 * century + quad := by omega
  have hcenturies : (100 * century + 4 * quad + rest) / 100 = century := by omega
  have heras : (100 * century + 4 * quad + rest) / 400 = 0 := by omega
  rw [marchFirst, hquads, hcenturies, heras]
  omega

/-- The number of the year of a day among the 146097 days of four hundred years. -/
theorem yearOfEra {century quad rest day : Int} (hc0 : 0 ≤ century) (hc3 : century ≤ 3)
    (hq0 : 0 ≤ quad) (hq24 : quad ≤ 24) (hr0 : 0 ≤ rest) (hr3 : rest ≤ 3) (hd0 : 0 ≤ day)
    (hd : day ≤ 364 ∨ day = 365 ∧ rest = 3 ∧ (quad ≤ 23 ∨ century = 3)) :
    (36524 * century + 1461 * quad + 365 * rest + day -
        (36524 * century + 1461 * quad + 365 * rest + day) / 1460 +
        (36524 * century + 1461 * quad + 365 * rest + day) / 36524 -
        (36524 * century + 1461 * quad + 365 * rest + day) / 146096) / 365 =
      100 * century + 4 * quad + rest := by
  have hcenturies : (36524 * century + 1461 * quad + 365 * rest + day) / 36524 -
      (36524 * century + 1461 * quad + 365 * rest + day) / 146096 = century := by
    -- The last day of the era is the first after the century by this count.
    have hin : 0 ≤ 1461 * quad + 365 * rest + day ∧ (1461 * quad + 365 * rest + day ≤ 36523 ∨
        1461 * quad + 365 * rest + day = 36524 ∧ century = 3) := by omega
    rw [show 36524 * century + 1461 * quad + 365 * rest + day =
      36524 * century + (1461 * quad + 365 * rest + day) by omega]
    generalize 1461 * quad + 365 * rest + day = within at hin
    rcases hin with ⟨h0, hle | ⟨rfl, rfl⟩⟩
    · omega
    · decide
  have hquads : (36524 * century + 1461 * quad + 365 * rest + day) / 1460 = 25 * century + quad +
      (24 * century + quad + 365 * rest + day) / 1460 := by omega
  have hextra : (24 * century + quad + 365 * rest + day) / 1460 = 0 ∨
      (24 * century + quad + 365 * rest + day) / 1460 = 1 ∧ 1 ≤ day := by omega
  omega

theorem marchFirst_add_eras (year eras : Int) :
    marchFirst (year + eras * 400) = marchFirst year + eras * 146097 := by
  unfold marchFirst
  omega

theorem sub_years_nonneg {doe : Int} (h0 : 0 ≤ doe) (hlt : doe < 146097) :
    0 ≤ doe - doe / 1460 + doe / 36524 - doe / 146096 := by
  omega

/-- The day of a month of a year that begins in March. -/
theorem isDate_of_march {year day : Int} (hd0 : 0 ≤ day)
    (hd : marchFirst year + day < marchFirst (year + 1)) :
    IsDate (if (5 * day + 2) / 153 < 10 then year else year + 1)
        (if (5 * day + 2) / 153 < 10 then (5 * day + 2) / 153 + 3 else (5 * day + 2) / 153 - 9)
        (day - (153 * ((5 * day + 2) / 153) + 2) / 5 + 1) ∧
      dayNumber (if (5 * day + 2) / 153 < 10 then year else year + 1)
        (if (5 * day + 2) / 153 < 10 then (5 * day + 2) / 153 + 3 else (5 * day + 2) / 153 - 9)
        (day - (153 * ((5 * day + 2) / 153) + 2) / 5 + 1) = marchFirst year + day := by
  have hlength := marchFirst_sub_one (year + 1)
  rw [Int.add_sub_cancel] at hlength
  have hday : day ≤ 364 ∨ day = 365 ∧ IsLeapYear (year + 1) := by
    by_cases hleap : IsLeapYear (year + 1)
    · rw [if_pos hleap] at hlength
      by_cases hlast : day = 365
      · exact Or.inr ⟨hlast, hleap⟩
      · exact Or.inl (by omega)
    · rw [if_neg hleap] at hlength
      exact Or.inl (by omega)
  have hbounds : 153 * ((5 * day + 2) / 153) ≤ 5 * day + 2 ∧
      5 * day + 2 < 153 * ((5 * day + 2) / 153) + 153 := by omega
  have hm0 : 0 ≤ (5 * day + 2) / 153 := by omega
  have hm11 : (5 * day + 2) / 153 ≤ 11 := by omega
  generalize (5 * day + 2) / 153 = month at *
  clear hlength hd
  constructor
  · refine ⟨?_, ?_, by omega, ?_⟩
    · split <;> omega
    · split <;> omega
    · by_cases hfeb : month = 11
      · subst hfeb
        rcases hday with hday | ⟨rfl, hleap⟩
        · have hlength := (monthLength_bounds (year + 1) 2).1
          exact le_trans (by omega) hlength
        · have hlength : monthLength (year + 1) 2 = 29 := if_pos hleap
          exact le_trans (by omega) hlength.ge
      · unfold monthLength
        interval_cases month <;> simp <;> omega
  · unfold dayNumber marchYear marchMonth
    by_cases hmarch : month < 10
    · rw [if_pos hmarch, if_pos hmarch, if_neg (by omega), if_neg (by omega)]
      rw [show month + 3 - 3 = month by omega]
      omega
    · rw [if_neg hmarch, if_neg hmarch, if_pos (by omega), if_pos (by omega)]
      rw [show month - 9 + 9 = month by omega, Int.add_sub_cancel]
      omega

end Eras

end MootMemory
