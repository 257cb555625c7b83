import MootMemory.IsoFaithful

namespace MootMemory

namespace EstateVerbs

theorem isLeap_iff (year : Int) : isLeap year = true ↔ IsLeapYear year := by
  have h4 : year.tmod 4 = 0 ↔ year % 4 = 0 := by
    rw [← Int.dvd_iff_tmod_eq_zero, Int.dvd_iff_emod_eq_zero]
  have h100 : year.tmod 100 = 0 ↔ year % 100 = 0 := by
    rw [← Int.dvd_iff_tmod_eq_zero, Int.dvd_iff_emod_eq_zero]
  have h400 : year.tmod 400 = 0 ↔ year % 400 = 0 := by
    rw [← Int.dvd_iff_tmod_eq_zero, Int.dvd_iff_emod_eq_zero]
  rw [isLeap, decide_eq_true_eq, IsLeapYear, h4, h400, Ne, h100]

theorem daysInYear_eq (year : Int) :
    dayNumber (year + 1) 1 1 = dayNumber year 1 1 + daysInYear year := by
  have hmarch := marchFirst_sub_one year
  have hnext : dayNumber (year + 1) 1 1 = marchFirst year + 306 := by
    unfold dayNumber marchYear marchMonth
    simp
  have hthis : dayNumber year 1 1 = marchFirst (year - 1) + 306 := by
    unfold dayNumber marchYear marchMonth
    simp
  rw [hnext, hthis, hmarch, daysInYear]
  simp only [isLeap_iff]
  omega

/-- The year in which days after the first of January are. -/
theorem yearLoop_spec (year days : Int) (h0 : 0 ≤ days) :
    0 ≤ (yearLoop year days).2 ∧ (yearLoop year days).2 < daysInYear (yearLoop year days).1 ∧
      dayNumber (yearLoop year days).1 1 1 + (yearLoop year days).2 =
        dayNumber year 1 1 + days := by
  fun_induction yearLoop with
  | case1 year days hlt => exact ⟨h0, hlt, rfl⟩
  | case2 year days hge ih =>
    obtain ⟨hpos, hlt, heq⟩ := ih (by omega)
    refine ⟨hpos, hlt, heq.trans ?_⟩
    rw [daysInYear_eq]
    omega

/-- The month in which days after the first of a month are, where it is in the months that are
looked through. -/
theorem monthLoop_spec {year : Int} (lengths : List Int) (month days : Int) (h1 : 1 ≤ month)
    (hend : month + lengths.length = 13)
    (hlengths : ∀ i (h : i < lengths.length), lengths[i] = monthLength year (month + i))
    (h0 : 0 ≤ days) (hlt : days < lengths.sum) :
    IsDate year (monthLoop month days lengths).1 ((monthLoop month days lengths).2 + 1) ∧
      dayNumber year (monthLoop month days lengths).1 ((monthLoop month days lengths).2 + 1) =
        dayNumber year month 1 + days := by
  induction lengths generalizing month days with
  | nil =>
    rw [List.sum_nil] at hlt
    omega
  | cons length lengths ih =>
    have hfirst : length = monthLength year month := by
      have h := hlengths 0 (by simp)
      simpa using h
    rw [List.length_cons] at hend
    unfold monthLoop
    by_cases hin : days < length
    · rw [if_pos hin]
      have hle : days + 1 ≤ monthLength year month := by omega
      have hone : 1 ≤ days + 1 := by omega
      refine ⟨⟨h1, by omega, hone, hle⟩, ?_⟩
      rw [← dayNumber_add_days, Int.add_comm days 1]
    · rw [if_neg hin]
      rw [List.sum_cons] at hlt
      have hmore : lengths ≠ [] := by
        rintro rfl
        rw [List.sum_nil] at hlt
        omega
      have hlen := List.length_pos_iff.mpr hmore
      obtain ⟨hdate, heq⟩ := ih (month + 1) (days - length) (by omega) (by omega)
        (fun i hi => by
          have h := hlengths (i + 1) (by simpa using hi)
          rw [List.getElem_cons_succ] at h
          rw [h]
          congr 1
          omega) (by omega) (by omega)
      refine ⟨hdate, heq.trans ?_⟩
      rw [dayNumber_next_month h1 (by omega), ← hfirst]
      omega

theorem months_getElem (year : Int) (i : Nat) (h : i < (months year).length) :
    (months year)[i] = monthLength year (1 + i) := by
  have hfeb : (if isLeap year then (29 : Int) else 28) = monthLength year 2 := by
    rw [monthLength, if_pos rfl]
    simp only [isLeap_iff]
  have hlen : i < 12 := h
  interval_cases i
  · rfl
  · exact hfeb
  all_goals rfl

theorem sum_months (year : Int) : (months year).sum = daysInYear year := by
  unfold months daysInYear
  cases isLeap year <;> rfl

/-- After 1970 began, both calendars have the same date and time. -/
theorem epochToComponents_eq {t : Int} (h : 0 ≤ t) :
    epochToComponents t = DrawerStoreInmemory.epochToComponents t := by
  have hepoch : dayNumber 1970 1 1 = 719468 := by decide
  obtain ⟨hdays0, hdays, hyear⟩ := yearLoop_spec 1970 (t / 60 / 60 / 24) (by omega)
  generalize hyears : yearLoop 1970 (t / 60 / 60 / 24) = years at hdays0 hdays hyear
  rw [← sum_months] at hdays
  obtain ⟨hdate, hmonth⟩ := monthLoop_spec (months years.1) 1 years.2 (le_refl 1) rfl
    (months_getElem years.1) hdays0 hdays
  obtain ⟨hcivil, hnumber⟩ := civilFromDays_spec (t / 86400)
  obtain ⟨hy, hm, hd⟩ := hdate.eq_of_dayNumber_eq hcivil (by omega)
  have h60 : 0 ≤ t / 60 := by omega
  have h3600 : 0 ≤ t / 60 / 60 := by omega
  have hclock : 0 ≤ t % 86400 := by omega
  have hclock' : 0 ≤ t % 86400 % 3600 := by omega
  unfold epochToComponents DrawerStoreInmemory.epochToComponents
  dsimp only
  rw [Int.tdiv_eq_ediv_of_nonneg h, Int.tdiv_eq_ediv_of_nonneg h60,
    Int.tdiv_eq_ediv_of_nonneg h3600, Int.tmod_eq_emod_of_nonneg h, Int.tmod_eq_emod_of_nonneg h60,
    Int.tmod_eq_emod_of_nonneg h3600, hyears, ← hy, ← hm, ← hd, Int.tdiv_eq_ediv_of_nonneg hclock,
    Int.tmod_eq_emod_of_nonneg hclock, Int.tmod_eq_emod_of_nonneg hclock,
    Int.tdiv_eq_ediv_of_nonneg hclock']
  have hhour : t / 60 / 60 % 24 = t % 86400 / 3600 := by omega
  have hminute : t / 60 % 60 = t % 86400 % 3600 / 60 := by omega
  have hsecond : t % 60 = t % 86400 % 60 := by omega
  rw [hhour, hminute, hsecond]

theorem tdiv_nonpos {a n : Int} (ha : a ≤ 0) (hn : 0 < n) : a.tdiv n ≤ 0 := by
  have hneg : 0 ≤ -a := by omega
  have hquotient := Int.ediv_nonneg hneg hn.le
  rw [← Int.neg_neg a, Int.neg_tdiv, Int.tdiv_eq_ediv_of_nonneg hneg]
  omega

/-- Before 1970 began, the year stays. -/
theorem year_epochToComponents {t : Int} (h : t < 0) : (epochToComponents t).year = 1970 := by
  have hdays : ((t.tdiv 60).tdiv 60).tdiv 24 ≤ 0 :=
    tdiv_nonpos (tdiv_nonpos (tdiv_nonpos h.le (by decide)) (by decide)) (by decide)
  unfold epochToComponents
  dsimp only
  unfold yearLoop
  have hlt : ((t.tdiv 60).tdiv 60).tdiv 24 < daysInYear 1970 := by
    have hyear : daysInYear 1970 = 365 := by decide
    omega
  rw [if_pos hlt]

end EstateVerbs

section RecallTraces

/-- A row of the recall trace. -/
structure RecallTraceItem where
  id : String
  target : String
  recalledAt : String
  operationalBitmap : BitVec 64
deriving DecidableEq

def RecallTraceItem.used (item : RecallTraceItem) : Bool := item.operationalBitmap &&& 1 ≠ 0

def RecallTraceItem.withUsed (item : RecallTraceItem) : RecallTraceItem :=
  { item with operationalBitmap := item.operationalBitmap ||| 1 }

/-- The rows that are left, and how many are not. -/
def pruneRecallTraces (cutoff : String) (rows : List RecallTraceItem) :
    List RecallTraceItem × Nat :=
  (rows.filter fun row => !decide (row.recalledAt < cutoff),
    rows.countP fun row => row.recalledAt < cutoff)

/-- The rows of a target between two stamps. -/
def recallTraceWindow (target since now : String) (rows : List RecallTraceItem) :
    List RecallTraceItem :=
  rows.filter fun row => row.target = target ∧ since ≤ row.recalledAt ∧ row.recalledAt ≤ now

/-- The rows of the window that are not used yet are marked, each by its id. -/
def markRecallTracesUsed (target since now : String) (rows : List RecallTraceItem) :
    List RecallTraceItem × Nat :=
  let fresh := (recallTraceWindow target since now rows).filter fun row => !row.used
  (fresh.foldl (fun rows item => rows.map fun row => if row.id = item.id then item.withUsed else row)
    rows, fresh.length)

variable {rows : List RecallTraceItem} {timeOf : RecallTraceItem → Int}

/-- Pruning by stamps is pruning by times. -/
theorem pruneRecallTraces_eq {cutoff : Int} (hcutoff : WithinYears cutoff)
    (h : ∀ row ∈ rows, WithinYears (timeOf row) ∧
      row.recalledAt = DrawerStoreInmemory.formatIso8601 (timeOf row)) :
    pruneRecallTraces (DrawerStoreInmemory.formatIso8601 cutoff) rows =
      (rows.filter fun row => !decide (timeOf row < cutoff),
        rows.countP fun row => timeOf row < cutoff) := by
  have horder : ∀ row ∈ rows, (row.recalledAt < DrawerStoreInmemory.formatIso8601 cutoff ↔
      timeOf row < cutoff) := by
    intro row hrow
    obtain ⟨hwithin, hstamp⟩ := h row hrow
    rw [hstamp]
    exact formatIso8601_lt_iff hwithin hcutoff
  refine Prod.ext (List.filter_congr fun row hrow => ?_) (List.countP_congr fun row hrow => ?_)
  · rw [decide_eq_decide.mpr (horder row hrow)]
  · rw [decide_eq_decide.mpr (horder row hrow)]

/-- A window of stamps is one of times. -/
theorem recallTraceWindow_eq {since now : Int} (hsince : WithinYears since) (hnow : WithinYears now)
    (h : ∀ row ∈ rows, WithinYears (timeOf row) ∧
      row.recalledAt = DrawerStoreInmemory.formatIso8601 (timeOf row)) (target : String) :
    recallTraceWindow target (DrawerStoreInmemory.formatIso8601 since)
        (DrawerStoreInmemory.formatIso8601 now) rows =
      rows.filter fun row => row.target = target ∧ since ≤ timeOf row ∧ timeOf row ≤ now := by
  refine List.filter_congr fun row hrow => decide_eq_decide.mpr ?_
  obtain ⟨hwithin, hstamp⟩ := h row hrow
  rw [hstamp, ← not_lt, ← not_lt, formatIso8601_lt_iff hwithin hsince,
    formatIso8601_lt_iff hnow hwithin, not_lt, not_lt]

end RecallTraces

/-- The stamps of two times are alike in all formats, are read back as the times, and are in their
order. -/
def StampsFaithful (s t : Int) : Prop :=
  (∀ u ∈ [s, t],
    EstateVerbs.epochToIso8601 u = DrawerStoreInmemory.formatIso8601 u ∧
      CorpusIngestQueue.millisToIso8601 u = DrawerStoreInmemory.formatIso8601 u ∧
      DrawerStoreInmemory.parseIso8601 (EstateVerbs.epochToIso8601 u) = some u ∧
      iso8601ToMillis (EstateVerbs.epochToIso8601 u) = some u) ∧
    (s < t ↔ EstateVerbs.epochToIso8601 s < EstateVerbs.epochToIso8601 t)

/-- A stamp before 1970 is not of its year in the format of the estate. -/
theorem epochToIso8601_ne {t : Int} (ht : WithinYears t) (hneg : t < 0) :
    EstateVerbs.epochToIso8601 t ≠ DrawerStoreInmemory.formatIso8601 t := by
  intro heq
  obtain ⟨time, hstamp, hcomponents⟩ := exists_stampOf ht
  have hyear : time.year < 1970 := by
    have hdate : IsDate 1970 1 1 := by constructor <;> decide
    have hnumber : dayNumber 1970 1 1 = 719468 := by decide
    have hlt : dayNumber time.year time.month time.day < dayNumber 1970 1 1 := by
      rw [hstamp.dayNumber_eq]
      omega
    have h1 := hstamp.date.one_le_month
    have h1' := hstamp.date.one_le_day
    rcases (hstamp.date.dayNumber_lt_iff hdate).mp hlt with h | ⟨-, h | ⟨-, h⟩⟩ <;> omega
  have h1970 : zeroPadded 4 1970 = fixedDigits 4 1970 :=
    zeroPadded_eq (n := 1970) (by decide) (by decide)
  rw [hstamp.formatIso8601 hcomponents, EstateVerbs.epochToIso8601, stampText, stampBytes,
    EstateVerbs.year_epochToComponents (by omega), h1970, FourDigitTime.text, asciiText, asciiText,
    List.map_append, List.map_append] at heq
  have hfields : asciiText (fixedDigits 4 1970) = asciiText (fixedDigits 4 time.year) :=
    congrArg String.ofList (List.append_inj (String.ofList_injective heq) (by simp)).1
  have hbytes := congrArg strBytes hfields
  rw [strBytes_asciiText fun b => lt_of_mem_fixedDigits,
    strBytes_asciiText fun b => lt_of_mem_fixedDigits] at hbytes
  have hvalues := congrArg digitsValue hbytes
  rw [digitsValue_fixedDigits (by decide), digitsValue_fixedDigits time.year_lt] at hvalues
  omega

theorem epochToIso8601_eq {t : Int} (h : 0 ≤ t) :
    EstateVerbs.epochToIso8601 t = DrawerStoreInmemory.formatIso8601 t := by
  rw [EstateVerbs.epochToIso8601, DrawerStoreInmemory.formatIso8601,
    EstateVerbs.epochToComponents_eq (by omega)]

/-- Within the years of four digits, stamps are faithful exactly from 1970 on. -/
theorem stampsFaithful_iff {s t : Int} (hs : WithinYears s) (ht : WithinYears t) :
    StampsFaithful s t ↔ 0 ≤ s ∧ 0 ≤ t := by
  constructor
  · rintro ⟨hall, -⟩
    constructor
    · by_contra hneg
      exact epochToIso8601_ne hs (by omega) (hall s (by simp)).1
    · by_contra hneg
      exact epochToIso8601_ne ht (by omega) (hall t (by simp)).1
  · rintro ⟨hs0, ht0⟩
    refine ⟨fun u hu => ?_, ?_⟩
    · have hwithin : WithinYears u ∧ 0 ≤ u := by
        rcases List.mem_cons.mp hu with rfl | hu
        · exact ⟨hs, hs0⟩
        · rw [List.mem_singleton.mp hu]
          exact ⟨ht, ht0⟩
      have heq := epochToIso8601_eq hwithin.2
      rw [heq]
      exact ⟨rfl, rfl, parse_formatIso8601 hwithin.1⟩
    · rw [epochToIso8601_eq hs0, epochToIso8601_eq ht0]
      exact (formatIso8601_lt_iff hs ht).symm

theorem stampsFaithful_iff_leapDay : StampsFaithful 951782400000 4102444799999 :=
  (stampsFaithful_iff (by constructor <;> decide) (by constructor <;> decide)).mpr
    ⟨by decide, by decide⟩

/-- The last millisecond before 1970. -/
theorem not_stampsFaithful :
    ¬∀ s t : Int, WithinYears s → WithinYears t → StampsFaithful s t := by
  intro h
  have hbefore : WithinYears (-1) := by constructor <;> decide
  obtain ⟨hall, -⟩ := h (-1) (-1) hbefore hbefore
  exact epochToIso8601_ne hbefore (by decide) (hall (-1) (by simp)).1

end MootMemory
