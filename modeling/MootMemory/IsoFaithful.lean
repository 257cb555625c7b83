import MootMemory.IsoStamps

namespace MootMemory

section Civil

/-- Division that is rounded down, by division that is rounded toward zero. -/
theorem tdiv_shifted {x n : Int} (hn : 0 < n) :
    (if 0 ≤ x then x else x - (n - 1)).tdiv n = x / n := by
  split
  next h => exact Int.tdiv_eq_ediv_of_nonneg h
  next h =>
    have hpos : 0 ≤ n - 1 - x := by omega
    rw [show x - (n - 1) = -(n - 1 - x) by omega, Int.neg_tdiv, Int.tdiv_eq_ediv_of_nonneg hpos]
    have hparts := Int.emod_add_mul_ediv (n - 1 - x) n
    have h0 := Int.emod_nonneg (n - 1 - x) hn.ne'
    have hlt := Int.emod_lt_of_pos (n - 1 - x) hn
    refine ((Int.ediv_emod_unique (r := n - 1 - (n - 1 - x) % n) hn).mpr
      ⟨?_, by omega, by omega⟩).1.symm
    rw [Int.mul_neg]
    omega

theorem daysFromCivil_eq {y m d : Int} (h1 : 1 ≤ m) (h12 : m ≤ 12) :
    daysFromCivil y m d = dayNumber y m d - 719468 := by
  have hyear : (if m ≤ 2 then y - 1 else y) = marchYear y m := rfl
  have hmonth : (if 2 < m then m - 3 else m + 9) = marchMonth m := by
    unfold marchMonth
    split <;> split <;> omega
  have hmonths : 0 ≤ marchMonth m := by
    unfold marchMonth
    split <;> omega
  unfold daysFromCivil dayNumber marchFirst
  dsimp only
  rw [hyear, hmonth, show (399 : Int) = 400 - 1 by rfl, tdiv_shifted (by decide)]
  generalize marchYear y m = year
  have hrest : 0 ≤ year - year / 400 * 400 := by omega
  rw [Int.tdiv_eq_ediv_of_nonneg hrest, Int.tdiv_eq_ediv_of_nonneg hrest,
    Int.tdiv_eq_ediv_of_nonneg (by omega)]
  omega
/-- The date of a day that is given by its era, its year in the era and its day in the year. -/
theorem civilFromDays_of_era {era year day : Int} (h0 : 0 ≤ year) (hlt : year < 400)
    (hd0 : 0 ≤ day) (hd : marchFirst year + day < marchFirst (year + 1)) :
    civilFromDays (era * 146097 + marchFirst year + day - 719468) =
      (if (5 * day + 2) / 153 < 10 then year + era * 400 else year + era * 400 + 1,
        if (5 * day + 2) / 153 < 10 then (5 * day + 2) / 153 + 3 else (5 * day + 2) / 153 - 9,
        day - (153 * ((5 * day + 2) / 153) + 2) / 5 + 1) := by
  obtain ⟨century, quad, rest, rfl, hc0, hc3, hq0, hq24, hr0, hr3⟩ : ∃ century quad rest : Int,
      year = 100 * century + 4 * quad + rest ∧ 0 ≤ century ∧ century ≤ 3 ∧ 0 ≤ quad ∧ quad ≤ 24 ∧
        0 ≤ rest ∧ rest ≤ 3 :=
    ⟨year / 100, year % 100 / 4, year % 4, by omega, by omega, by omega, by omega, by omega,
      by omega, by omega⟩
  have hstart := marchFirst_split century quad rest hq0 hq24 hr0 hr3 hc0 hc3
  have hlength := marchFirst_sub_one (100 * century + 4 * quad + rest + 1)
  rw [show 100 * century + 4 * quad + rest + 1 - 1 = 100 * century + 4 * quad + rest by omega]
    at hlength
  have hday : day ≤ 364 ∨ day = 365 ∧ rest = 3 ∧ (quad ≤ 23 ∨ century = 3) := by
    by_cases hleap : IsLeapYear (100 * century + 4 * quad + rest + 1)
    · rw [if_pos hleap] at hlength
      unfold IsLeapYear at hleap
      omega
    · rw [if_neg hleap] at hlength
      omega
  have hyoe := yearOfEra hc0 hc3 hq0 hq24 hr0 hr3 hd0 hday
  rw [← hstart] at hyoe
  have hrange : 0 ≤ marchFirst (100 * century + 4 * quad + rest) + day ∧
      marchFirst (100 * century + 4 * quad + rest) + day < 146097 := by omega
  have hdoy : 365 * (100 * century + 4 * quad + rest) + (100 * century + 4 * quad + rest) / 4 -
      (100 * century + 4 * quad + rest) / 100 = marchFirst (100 * century + 4 * quad + rest) := by
    unfold marchFirst
    omega
  generalize marchFirst (100 * century + 4 * quad + rest) = start at *
  generalize 100 * century + 4 * quad + rest = year at *
  have hera : (if 0 ≤ era * 146097 + start + day - 719468 + 719468 then
      era * 146097 + start + day - 719468 + 719468
      else era * 146097 + start + day - 719468 + 719468 - 146096).tdiv 146097 = era := by
    refine (tdiv_shifted (by decide : (0 : Int) < 146097)).trans ?_
    omega
  unfold civilFromDays
  dsimp only
  rw [hera,
    show era * 146097 + start + day - 719468 + 719468 - era * 146097 = start + day by omega]
  simp only [Int.tdiv_eq_ediv_of_nonneg hrange.1]
  rw [Int.tdiv_eq_ediv_of_nonneg (sub_years_nonneg hrange.1 hrange.2), hyoe]
  simp only [Int.tdiv_eq_ediv_of_nonneg h0]
  rw [hdoy, show start + day - start = day by omega]
  have hmonths : 0 ≤ 5 * day + 2 := by omega
  simp only [Int.tdiv_eq_ediv_of_nonneg hmonths]
  rw [Int.tdiv_eq_ediv_of_nonneg (show 0 ≤ 153 * ((5 * day + 2) / 153) + 2 by omega)]
  by_cases hmarch : (5 * day + 2) / 153 < 10
  · rw [if_pos hmarch, if_pos hmarch, if_neg (by omega)]
  · rw [if_neg hmarch, if_neg hmarch, if_pos (by omega)]

/-- Every day has a date. -/
theorem civilFromDays_spec (z : Int) :
    IsDate (civilFromDays z).1 (civilFromDays z).2.1 (civilFromDays z).2.2 ∧
      dayNumber (civilFromDays z).1 (civilFromDays z).2.1 (civilFromDays z).2.2 = z + 719468 := by
  have heras : marchFirst ((400 : Nat) : Int) = 146097 := by decide
  have h0 : 0 ≤ (z + 719468) % 146097 := by omega
  have h400 : (z + 719468) % 146097 < marchFirst ((400 : Nat) : Int) := by omega
  obtain ⟨year, hlt, hstart, hnext⟩ := exists_marchYear h0 h400
  obtain ⟨era, day, hz, hd0, hd⟩ : ∃ era day : Int,
      z = era * 146097 + marchFirst year + day - 719468 ∧ 0 ≤ day ∧
        marchFirst year + day < marchFirst ((year : Int) + 1) :=
    ⟨(z + 719468) / 146097, (z + 719468) % 146097 - marchFirst year, by omega, by omega, by omega⟩
  have hyears : marchFirst (year + era * 400) = marchFirst year + era * 146097 :=
    marchFirst_add_eras year era
  have hnexts : marchFirst (year + era * 400 + 1) = marchFirst (year + 1) + era * 146097 := by
    rw [← marchFirst_add_eras, show (year : Int) + 1 + era * 400 = year + era * 400 + 1 by omega]
  have hdate := @isDate_of_march (year + era * 400) day hd0 (by omega)
  rw [hz, civilFromDays_of_era (by omega) (by omega) hd0 hd]
  refine ⟨hdate.1, hdate.2.trans ?_⟩
  omega

/-- Days are read back from their dates. -/
theorem daysFromCivil_civilFromDays (z : Int) :
    daysFromCivil (civilFromDays z).1 (civilFromDays z).2.1 (civilFromDays z).2.2 = z := by
  obtain ⟨hdate, hnumber⟩ := civilFromDays_spec z
  rw [daysFromCivil_eq hdate.one_le_month hdate.month_le, hnumber]
  omega

end Civil

section Text

/-- Fixed digits are read back as their number. -/
theorem parseInt_fixedDigits {width n : Nat} (hpos : 1 ≤ width) (h : n < 10 ^ width) :
    parseInt (fixedDigits width n) = some (n : Int) := by
  have hall := all_isAsciiDigit_fixedDigits width n
  have hvalue := digitsValue_fixedDigits h
  have hne := fixedDigits_ne_nil hpos n
  generalize fixedDigits width n = digits at hall hvalue hne
  have hdigits : digits.all (fun b => 48 ≤ b && b ≤ 57) = true := by
    refine List.all_eq_true.mpr fun b hb => ?_
    have hdigit := List.all_eq_true.mp hall b hb
    rw [isAsciiDigit, decide_eq_true_eq] at hdigit
    simp [hdigit]
  unfold parseInt
  dsimp only
  split
  next => simp [isAsciiDigit] at hall
  next => simp [isAsciiDigit] at hall
  next =>
    rw [if_pos ⟨hne, hdigits⟩]
    exact congrArg (fun n : Nat => some (n : Int)) hvalue

theorem parseI64_eq {bytes : List UInt8} {n : Nat} (h : parseInt bytes = some (n : Int))
    (hmax : n < 2 ^ 63) : parseI64 bytes = some (n : Int) := by
  rw [parseI64, h, Option.filter_some, if_pos]
  exact decide_eq_true ⟨by omega, by omega⟩

/-- The components of a time within the years of four digits, with its milliseconds. -/
structure FourDigitTime where
  year : Nat
  month : Nat
  day : Nat
  hour : Nat
  minute : Nat
  second : Nat
  millis : Nat
  year_lt : year < 10000
  month_lt : month < 100
  day_lt : day < 100
  hour_lt : hour < 100
  minute_lt : minute < 100
  second_lt : second < 100
  millis_lt : millis < 1000

namespace FourDigitTime

variable (time : FourDigitTime)

def components : TimeComponents :=
  { year := time.year, month := time.month, day := time.day,
    hour := time.hour, minute := time.minute, second := time.second }

def text : List UInt8 :=
  fixedDigits 4 time.year ++ '-'.toUInt8 :: (fixedDigits 2 time.month ++ '-'.toUInt8 ::
    (fixedDigits 2 time.day ++ 'T'.toUInt8 :: (fixedDigits 2 time.hour ++ ':'.toUInt8 ::
      (fixedDigits 2 time.minute ++ ':'.toUInt8 :: (fixedDigits 2 time.second ++ '.'.toUInt8 ::
        (fixedDigits 3 time.millis ++ ['Z'.toUInt8]))))))

theorem stampText_components : stampText time.components time.millis = asciiText time.text := by
  unfold stampText stampBytes components text
  dsimp only
  rw [zeroPadded_eq (by decide) time.year_lt, zeroPadded_eq (by decide) time.month_lt,
    zeroPadded_eq (by decide) time.day_lt, zeroPadded_eq (by decide) time.hour_lt,
    zeroPadded_eq (by decide) time.minute_lt, zeroPadded_eq (by decide) time.second_lt,
    zeroPadded_eq (by decide) time.millis_lt]

theorem ascii_text : ∀ b ∈ time.text, b < 128 := by
  intro b hb
  unfold text at hb
  simp only [List.mem_append, List.mem_cons, List.not_mem_nil, or_false] at hb
  rcases hb with h | rfl | h | rfl | h | rfl | h | rfl | h | rfl | h | rfl | h | rfl
  all_goals first | exact lt_of_mem_fixedDigits h | decide

/-- The fields of a text are where both parsers look for them. -/
theorem parseInt_fields :
    parseInt (byteRange time.text 0 4) = some (time.year : Int) ∧
      parseInt (byteRange time.text 5 7) = some (time.month : Int) ∧
      parseInt (byteRange time.text 8 10) = some (time.day : Int) ∧
      parseInt (byteRange time.text 11 13) = some (time.hour : Int) ∧
      parseInt (byteRange time.text 14 16) = some (time.minute : Int) ∧
      parseInt (byteRange time.text 17 19) = some (time.second : Int) ∧
      parseInt (byteRange time.text 20 23) = some (time.millis : Int) := by
  have hyear : byteRange time.text 0 4 = fixedDigits 4 time.year := rfl
  have hmonth : byteRange time.text 5 7 = fixedDigits 2 time.month := rfl
  have hday : byteRange time.text 8 10 = fixedDigits 2 time.day := rfl
  have hhour : byteRange time.text 11 13 = fixedDigits 2 time.hour := rfl
  have hminute : byteRange time.text 14 16 = fixedDigits 2 time.minute := rfl
  have hsecond : byteRange time.text 17 19 = fixedDigits 2 time.second := rfl
  have hmillis : byteRange time.text 20 23 = fixedDigits 3 time.millis := rfl
  rw [hyear, hmonth, hday, hhour, hminute, hsecond, hmillis]
  exact ⟨parseInt_fixedDigits (by decide) time.year_lt,
    parseInt_fixedDigits (by decide) time.month_lt, parseInt_fixedDigits (by decide) time.day_lt,
    parseInt_fixedDigits (by decide) time.hour_lt, parseInt_fixedDigits (by decide) time.minute_lt,
    parseInt_fixedDigits (by decide) time.second_lt,
    parseInt_fixedDigits (by decide) time.millis_lt⟩

theorem parseFraction_text :
    DrawerStoreInmemory.parseFraction time.text = some (time.millis : Int) := by
  have hdrop : time.text.drop 20 = fixedDigits 3 time.millis ++ ['Z'.toUInt8] := rfl
  have hdigits : (time.text.drop 20).takeWhile isAsciiDigit = fixedDigits 3 time.millis := by
    rw [hdrop, List.takeWhile_append_of_pos
      (List.all_eq_true.mp (all_isAsciiDigit_fixedDigits 3 time.millis))]
    exact List.append_nil _
  have hlength : time.text.length = 24 := rfl
  unfold DrawerStoreInmemory.parseFraction
  rw [if_pos ⟨by omega, rfl⟩, hdigits]
  dsimp only
  rw [parseI64_eq (parseInt_fixedDigits (by decide) time.millis_lt)
    (show time.millis < 2 ^ 63 by have := time.millis_lt; omega), length_fixedDigits]
  simp

theorem parseIso8601_text : DrawerStoreInmemory.parseIso8601 (asciiText time.text) =
    some ((DrawerStoreInmemory.componentsToEpoch time.year time.month time.day time.hour time.minute
      time.second * 1000 + time.millis).bmod (2 ^ 64)) := by
  obtain ⟨hyear, hmonth, hday, hhour, hminute, hsecond, -⟩ := time.parseInt_fields
  have hlength : time.text.length = 24 := rfl
  have hy := time.year_lt
  have hm := time.month_lt
  have hd := time.day_lt
  have hh := time.hour_lt
  have hmin := time.minute_lt
  have hs := time.second_lt
  unfold DrawerStoreInmemory.parseIso8601
  rw [strBytes_asciiText time.ascii_text]
  dsimp only
  rw [if_neg (by omega), parseI64_eq hyear (by omega), parseI64_eq hmonth (by omega),
    parseI64_eq hday (by omega), parseI64_eq hhour (by omega), parseI64_eq hminute (by omega),
    parseI64_eq hsecond (by omega), time.parseFraction_text]
  rfl

theorem iso8601ToMillis_text : iso8601ToMillis (asciiText time.text) =
    some (DrawerStoreInmemory.componentsToEpoch time.year time.month time.day time.hour time.minute
      time.second * 1000 + time.millis) := by
  obtain ⟨hyear, hmonth, hday, hhour, hminute, hsecond, hmillis⟩ := time.parseInt_fields
  have hplaces : time.text.length = 24 ∧ time.text[4]? = some 45 ∧ time.text[7]? = some 45 ∧
      time.text[10]? = some 84 ∧ time.text[13]? = some 58 ∧ time.text[16]? = some 58 ∧
      time.text[19]? = some 46 ∧ time.text[23]? = some 90 :=
    ⟨rfl, rfl, rfl, rfl, rfl, rfl, rfl, rfl⟩
  have hshape : ¬(time.text.length ≠ 24 ∨ time.text[4]? ≠ some 45 ∨ time.text[7]? ≠ some 45 ∨
      time.text[10]? ≠ some 84 ∨ time.text[13]? ≠ some 58 ∨ time.text[16]? ≠ some 58 ∨
      time.text[19]? ≠ some 46 ∨ time.text[23]? ≠ some 90) := by
    obtain ⟨hlength, h4, h7, h10, h13, h16, h19, h23⟩ := hplaces
    simp only [hlength, h4, h7, h10, h13, h16, h19, h23, ne_eq, not_true_eq_false, or_self,
      not_false_eq_true]
  have hbytes : (asciiText time.text).toUTF8.data.toList = time.text :=
    strBytes_asciiText time.ascii_text
  unfold byteRange at hyear hmonth hday hhour hminute hsecond hmillis
  unfold iso8601ToMillis
  rw [hbytes]
  dsimp only
  rw [if_neg hshape, hyear, hmonth, hday, hhour, hminute, hsecond, hmillis]
  rfl

/-- The order of the fields, the first that differs deciding. -/
def Before (time time' : FourDigitTime) : Prop :=
  time.year < time'.year ∨ time.year = time'.year ∧ (time.month < time'.month ∨
    time.month = time'.month ∧ (time.day < time'.day ∨ time.day = time'.day ∧
      (time.hour < time'.hour ∨ time.hour = time'.hour ∧ (time.minute < time'.minute ∨
        time.minute = time'.minute ∧ (time.second < time'.second ∨
          time.second = time'.second ∧ time.millis < time'.millis)))))

theorem field_lt {width a b : Nat} {c : UInt8} {rest rest' : List UInt8} (hb : b < 10 ^ width)
    (h : a < b ∨ a = b ∧ rest < rest') :
    fixedDigits width a ++ c :: rest < fixedDigits width b ++ c :: rest' := by
  rcases h with hlt | ⟨rfl, hrest⟩
  · exact append_lt_append_of_lt (by simp) (fixedDigits_lt hb hlt) _ _
  · exact append_lt_append_left _ (List.cons_lt_cons_iff.mpr (Or.inr ⟨rfl, hrest⟩))

/-- Texts are in the order of their fields. -/
theorem text_lt {time time' : FourDigitTime} (h : time.Before time') :
    asciiText time.text < asciiText time'.text := by
  refine asciiText_lt time.ascii_text time'.ascii_text ?_
  unfold text
  refine field_lt time'.year_lt (h.imp_right fun ⟨heq, h⟩ => ⟨heq, ?_⟩)
  refine field_lt time'.month_lt (h.imp_right fun ⟨heq, h⟩ => ⟨heq, ?_⟩)
  refine field_lt time'.day_lt (h.imp_right fun ⟨heq, h⟩ => ⟨heq, ?_⟩)
  refine field_lt time'.hour_lt (h.imp_right fun ⟨heq, h⟩ => ⟨heq, ?_⟩)
  refine field_lt time'.minute_lt (h.imp_right fun ⟨heq, h⟩ => ⟨heq, ?_⟩)
  refine field_lt time'.second_lt (h.imp_right fun ⟨heq, h⟩ => ⟨heq, ?_⟩)
  exact append_lt_append_of_lt (by simp) (fixedDigits_lt time'.millis_lt h) _ _

end FourDigitTime

end Text

section Stamps

/-- The year of a time, in milliseconds since 1970, is one of 0 to 9999. -/
def WithinYears (t : Int) : Prop :=
  dayNumber 0 1 1 ≤ t / 86400000 + 719468 ∧ t / 86400000 + 719468 < dayNumber 10000 1 1

/-- What is written down for a time. -/
structure StampOf (t : Int) (time : FourDigitTime) : Prop where
  date : IsDate time.year time.month time.day
  dayNumber_eq : dayNumber time.year time.month time.day = t / 86400000 + 719468
  second_lt : time.second < 60
  minute_lt : time.minute < 60
  clock : (time.hour * 3600 + time.minute * 60 + time.second : Int) = t / 1000 % 86400
  millis : (time.millis : Int) = t % 1000

theorem exists_stampOf {t : Int} (h : WithinYears t) : ∃ time, StampOf t time ∧
    DrawerStoreInmemory.epochToComponents (t / 1000) = time.components := by
  obtain ⟨hlow, hhigh⟩ := h
  obtain ⟨hdate, hnumber⟩ := civilFromDays_spec (t / 1000 / 86400)
  have hdays : t / 1000 / 86400 = t / 86400000 := by omega
  rw [hdays] at hdate hnumber
  have hfirst : IsDate 0 1 1 := by constructor <;> decide
  have hlast : IsDate 10000 1 1 := by constructor <;> decide
  have hmonths := (monthLength_bounds (civilFromDays (t / 86400000)).1
    (civilFromDays (t / 86400000)).2.1).2
  have hyear0 : 0 ≤ (civilFromDays (t / 86400000)).1 := by
    by_contra hneg
    have hlt := hdate.dayNumber_lt hfirst (Or.inl (by omega))
    omega
  have hyear : (civilFromDays (t / 86400000)).1 < 10000 := by
    rw [← hnumber] at hhigh
    have h1 := hdate.one_le_month
    have h1' := hdate.one_le_day
    rcases (hdate.dayNumber_lt_iff hlast).mp hhigh with hlt | ⟨-, hlt | ⟨-, hlt⟩⟩ <;> omega
  have hclock0 : 0 ≤ t / 1000 % 86400 := by omega
  have hclock : t / 1000 % 86400 < 86400 := by omega
  have h1 := hdate.one_le_month
  have h12 := hdate.month_le
  have h1' := hdate.one_le_day
  have hle := hdate.day_le
  obtain ⟨year, hy⟩ := Int.eq_ofNat_of_zero_le hyear0
  obtain ⟨month, hm⟩ := Int.eq_ofNat_of_zero_le (Int.le_trans (by decide) h1)
  obtain ⟨day, hd⟩ := Int.eq_ofNat_of_zero_le (Int.le_trans (by decide) h1')
  rw [hy, hm, hd] at hdate hnumber
  let time : FourDigitTime :=
    { year, month, day,
      hour := (t / 1000 % 86400).toNat / 3600
      minute := (t / 1000 % 86400).toNat % 3600 / 60
      second := (t / 1000 % 86400).toNat % 60
      millis := (t % 1000).toNat
      year_lt := by omega
      month_lt := by omega
      day_lt := by omega
      hour_lt := by omega
      minute_lt := by omega
      second_lt := by omega
      millis_lt := by omega }
  refine ⟨time, ⟨hdate, hnumber, ?_, ?_, ?_, ?_⟩, ?_⟩
  · show (t / 1000 % 86400).toNat % 60 < 60
    omega
  · show (t / 1000 % 86400).toNat % 3600 / 60 < 60
    omega
  · show (((t / 1000 % 86400).toNat / 3600 : Nat) * 3600 +
      ((t / 1000 % 86400).toNat % 3600 / 60 : Nat) * 60 +
        ((t / 1000 % 86400).toNat % 60 : Nat) : Int) = t / 1000 % 86400
    omega
  · show ((t % 1000).toNat : Int) = t % 1000
    omega
  · have hhour : t / 1000 % 86400 / 3600 = ((t / 1000 % 86400).toNat / 3600 : Nat) := by omega
    have hminute : t / 1000 % 86400 % 3600 / 60 =
        ((t / 1000 % 86400).toNat % 3600 / 60 : Nat) := by omega
    have hsecond : t / 1000 % 86400 % 60 = ((t / 1000 % 86400).toNat % 60 : Nat) := by omega
    unfold DrawerStoreInmemory.epochToComponents
    dsimp only
    rw [hdays, hy, hm, hd, Int.tdiv_eq_ediv_of_nonneg hclock0, Int.tmod_eq_emod_of_nonneg hclock0,
      Int.tmod_eq_emod_of_nonneg hclock0, Int.tdiv_eq_ediv_of_nonneg (by omega), hhour, hminute,
      hsecond]
    rfl

theorem StampOf.formatIso8601 {t : Int} {time : FourDigitTime} (h : StampOf t time)
    (hcomponents : DrawerStoreInmemory.epochToComponents (t / 1000) = time.components) :
    DrawerStoreInmemory.formatIso8601 t = asciiText time.text := by
  rw [DrawerStoreInmemory.formatIso8601, hcomponents, ← h.millis, time.stampText_components]

/-- The fields of a stamp make up its time. -/
theorem StampOf.epoch {t : Int} {time : FourDigitTime} (h : StampOf t time) :
    DrawerStoreInmemory.componentsToEpoch time.year time.month time.day time.hour time.minute
      time.second * 1000 + time.millis = t := by
  have hclock := h.clock
  have hmillis := h.millis
  rw [DrawerStoreInmemory.componentsToEpoch, daysFromCivil_eq h.date.one_le_month h.date.month_le,
    h.dayNumber_eq]
  omega

/-- Earlier times have earlier fields. -/
theorem StampOf.before {s t : Int} {time time' : FourDigitTime} (h : StampOf s time)
    (h' : StampOf t time') (hlt : s < t) : time.Before time' := by
  have hclock := h.clock
  have hclock' := h'.clock
  have hmillis := h.millis
  have hmillis' := h'.millis
  have hsecond := h.second_lt
  have hsecond' := h'.second_lt
  have hminute := h.minute_lt
  have hminute' := h'.minute_lt
  unfold FourDigitTime.Before
  rcases Int.lt_or_eq_of_le (show s / 86400000 ≤ t / 86400000 by omega) with hday | hday
  · have hnumber : dayNumber time.year time.month time.day <
        dayNumber time'.year time'.month time'.day := by
      rw [h.dayNumber_eq, h'.dayNumber_eq]
      omega
    have hdate := (h.date.dayNumber_lt_iff h'.date).mp hnumber
    omega
  · have hnumber : dayNumber time.year time.month time.day =
        dayNumber time'.year time'.month time'.day := by
      rw [h.dayNumber_eq, h'.dayNumber_eq, hday]
    have hdate := h.date.eq_of_dayNumber_eq h'.date hnumber
    omega

theorem withinYears_bounds {t : Int} (h : WithinYears t) :
    -62167219200000 ≤ t ∧ t < 253402300800000 := by
  have hfirst : dayNumber 0 1 1 = -60 := by decide
  have hlast : dayNumber 10000 1 1 = 3652365 := by decide
  obtain ⟨hlow, hhigh⟩ := h
  omega

/-- Both parsers read a time back from its stamp. -/
theorem parse_formatIso8601 {t : Int} (h : WithinYears t) :
    DrawerStoreInmemory.parseIso8601 (DrawerStoreInmemory.formatIso8601 t) = some t ∧
      iso8601ToMillis (DrawerStoreInmemory.formatIso8601 t) = some t := by
  obtain ⟨time, hstamp, hcomponents⟩ := exists_stampOf h
  obtain ⟨hlow, hhigh⟩ := withinYears_bounds h
  rw [hstamp.formatIso8601 hcomponents, time.parseIso8601_text, time.iso8601ToMillis_text,
    hstamp.epoch, Int.bmod_eq_of_le (by omega) (by omega)]
  exact ⟨rfl, rfl⟩

/-- Stamps are in the order of their times. -/
theorem formatIso8601_lt_iff {s t : Int} (hs : WithinYears s) (ht : WithinYears t) :
    DrawerStoreInmemory.formatIso8601 s < DrawerStoreInmemory.formatIso8601 t ↔ s < t := by
  have hmono : ∀ {s t : Int}, WithinYears s → WithinYears t → s < t →
      DrawerStoreInmemory.formatIso8601 s < DrawerStoreInmemory.formatIso8601 t := by
    intro s t hs ht hlt
    obtain ⟨time, hstamp, hcomponents⟩ := exists_stampOf hs
    obtain ⟨time', hstamp', hcomponents'⟩ := exists_stampOf ht
    rw [hstamp.formatIso8601 hcomponents, hstamp'.formatIso8601 hcomponents']
    exact FourDigitTime.text_lt (hstamp.before hstamp' hlt)
  refine ⟨fun htext => ?_, hmono hs ht⟩
  rcases lt_trichotomy s t with hlt | rfl | hgt
  · exact hlt
  · exact absurd htext (lt_irrefl _)
  · exact absurd (hmono ht hs hgt) (not_lt_of_gt htext)

/-- The queue writes the stamps that the store writes. -/
theorem millisToIso8601_eq (t : Int) :
    CorpusIngestQueue.millisToIso8601 t = DrawerStoreInmemory.formatIso8601 t := rfl

end Stamps

end MootMemory
