import MootMemory.BitSeries

namespace MootMemory

section Statement

variable (library : RowLibrary) (drawers : List DrawerRow) (bit : UInt64) (bucketSeconds : Int64)
  (bucketCount : UInt64) (endingAt : Int64)

/-- The length of the window, in milliseconds. -/
def seriesSpan : Int := bucketCount.toNat * (bucketSeconds.toInt * 1000)

/-- The drawer is live and its effective time lies in the window. -/
def InSeriesWindow (row : DrawerRow) : Prop :=
  row.tombstonedAt = none ∧ endingAt.toInt - seriesSpan bucketSeconds bucketCount ≤
    row.effectiveTime ∧ row.effectiveTime ≤ endingAt.toInt

/-- The drawer is live and falls in the bucket, which is half open unless it is the last. -/
def InSeriesBucket (i : Nat) (row : DrawerRow) : Prop :=
  row.tombstonedAt = none ∧
    InBucket (evenEdge endingAt.toInt (bucketSeconds.toInt * 1000) bucketCount.toNat)
      bucketCount.toNat i row.effectiveTime

/-- The arguments for which there are buckets and the length of the window is an `i64`. -/
structure ValidSeries : Prop where
  bit : bit.toNat ≤ 255
  width : 1 ≤ bucketSeconds.toInt
  count : 0 < bucketCount.toNat
  span : FitsI64 (seriesSpan bucketSeconds bucketCount)

/-- What the call answers with is one entry for each bucket, true just where some drawer of the
bucket has the bit set. The call has an error only from a row of the window that cannot be read. -/
def AnswersBuckets : Except (Stop LocusKitError) (List Bool) → Prop
  | .ok entries => entries.length = bucketCount.toNat ∧ ∀ i < bucketCount.toNat,
      entries[i]? = some true ↔ ∃ row ∈ drawers,
        InSeriesBucket bucketSeconds bucketCount endingAt i row ∧ row.HasBit library bit.toNat
  | .error (.err e) => ∃ row ∈ drawers, InSeriesWindow bucketSeconds bucketCount endingAt row ∧
      captureOfRow library row = .error e
  | .error .panic => False

/-- The buckets partition the live drawers of the window and the series is read off them. -/
structure SeriesPartitions : Prop where
  covered : ∀ row ∈ drawers, InSeriesWindow bucketSeconds bucketCount endingAt row →
    ∃! i, i < bucketCount.toNat ∧ InSeriesBucket bucketSeconds bucketCount endingAt i row
  others : ∀ row ∈ drawers, ¬InSeriesWindow bucketSeconds bucketCount endingAt row →
    ∀ i < bucketCount.toNat, ¬InSeriesBucket bucketSeconds bucketCount endingAt i row
  answers : AnswersBuckets library drawers bit bucketSeconds bucketCount endingAt
    (fingerprintBitSeries library drawers bit bucketSeconds bucketCount endingAt)

/-- The series partitions its window, and all other arguments have an error or no buckets. -/
structure BitSeriesSound : Prop where
  partitions : ValidSeries bit bucketSeconds bucketCount →
    SeriesPartitions library drawers bit bucketSeconds bucketCount endingAt
  refuses : ¬ValidSeries bit bucketSeconds bucketCount →
    (∃ e, fingerprintBitSeries library drawers bit bucketSeconds bucketCount endingAt =
      .error (.err e)) ∨
    fingerprintBitSeries library drawers bit bucketSeconds bucketCount endingAt = .ok []

end Statement

section Buckets

variable {bucketSeconds : Int64} {bucketCount : UInt64} {endingAt : Int64} {row : DrawerRow}
  {i : Nat}

theorem InSeriesBucket.inWindow (hwidth : 1 ≤ bucketSeconds.toInt) (hi : i < bucketCount.toNat)
    (h : InSeriesBucket bucketSeconds bucketCount endingAt i row) :
    InSeriesWindow bucketSeconds bucketCount endingAt row := by
  have hmono := monotone_evenEdge endingAt.toInt (by omega : 0 ≤ bucketSeconds.toInt * 1000)
    bucketCount.toNat
  have hwindow := h.2.mem_window hmono hi
  rw [evenEdge_zero, evenEdge_last] at hwindow
  exact ⟨h.1, hwindow⟩

theorem InSeriesWindow.existsUnique (hwidth : 1 ≤ bucketSeconds.toInt)
    (hcount : 0 < bucketCount.toNat) (h : InSeriesWindow bucketSeconds bucketCount endingAt row) :
    ∃! i, i < bucketCount.toNat ∧ InSeriesBucket bucketSeconds bucketCount endingAt i row := by
  have hmono := monotone_evenEdge endingAt.toInt (by omega : 0 ≤ bucketSeconds.toInt * 1000)
    bucketCount.toNat
  obtain ⟨hlive, hlower, hupper⟩ := h
  have hunique : ∃! i, i < bucketCount.toNat ∧
      InBucket (evenEdge endingAt.toInt (bucketSeconds.toInt * 1000) bucketCount.toNat)
        bucketCount.toNat i row.effectiveTime := by
    apply existsUnique_inBucket hmono hcount
    · rwa [evenEdge_zero]
    · rwa [evenEdge_last]
  obtain ⟨i, ⟨hi, hbucket⟩, honly⟩ := hunique
  exact ⟨i, ⟨hi, hlive, hbucket⟩, fun j hj => honly j ⟨hj.1, hj.2.2⟩⟩

end Buckets

section Runs

variable {library : RowLibrary} {drawers : List DrawerRow} {bit : UInt64} {bucketSeconds : Int64}
  {bucketCount : UInt64} {endingAt : Int64}

/-- The rows the call reads once its arguments are accepted. -/
def seriesRows (drawers : List DrawerRow) (bucketSeconds : Int64) (bucketCount : UInt64)
    (endingAt : Int64) : List DrawerRow :=
  drawers.filter (capturedWithin (endingAt.toInt - seriesSpan bucketSeconds bucketCount)
    endingAt.toInt)

theorem mem_seriesRows {row : DrawerRow} :
    row ∈ seriesRows drawers bucketSeconds bucketCount endingAt ↔
      row ∈ drawers ∧ InSeriesWindow bucketSeconds bucketCount endingAt row := by
  rw [seriesRows, List.mem_filter, capturedWithin_iff]
  rfl

theorem fitsI64_toInt (x : Int64) : FitsI64 x.toInt := ⟨x.le_toInt, x.toInt_lt⟩

/-- A call whose window starts at an `i64` runs through without overflow. -/
theorem fingerprintBitSeries_eq (hvalid : ValidSeries bit bucketSeconds bucketCount)
    (hstart : FitsI64 (endingAt.toInt - seriesSpan bucketSeconds bucketCount)) :
    fingerprintBitSeries library drawers bit bucketSeconds bucketCount endingAt =
      (((seriesRows drawers bucketSeconds bucketCount endingAt).mapM
        (captureOfRow library)).mapError Stop.err).map fun captures =>
          (List.range bucketCount.toNat).map fun i => captures.any
            (countedIn endingAt.toInt (bucketSeconds.toInt * 1000) bucketCount.toNat bit.toNat i) := by
  obtain ⟨hbit, hwidth, hcount, hspan⟩ := hvalid
  have hpos : 0 < bucketSeconds.toInt * 1000 := by omega
  have hone : bucketSeconds.toInt * 1000 ≤ bucketCount.toNat * (bucketSeconds.toInt * 1000) :=
    le_mul_of_one_le_left hpos.le (by omega)
  have hmillis : FitsI64 (bucketSeconds.toInt * 1000) := by
    obtain ⟨_, hspan⟩ := hspan
    rw [seriesSpan] at hspan
    exact ⟨by omega, by omega⟩
  have hbit' : ¬255 < bit.toNat := hbit.not_gt
  have hwidth' : ¬bucketSeconds.toInt < 1 := hwidth.not_gt
  unfold fingerprintBitSeries
  rw [if_neg hbit', if_neg hwidth', if_neg hcount.ne', checkedI64_of_fits hmillis,
    except_ok_bind, bucketEdge_ok hpos (fitsI64_toInt _) hspan hstart le_rfl, except_ok_bind]
  unfold seriesRows seriesSpan
  dsimp only
  cases (drawers.filter _).mapM (captureOfRow library) with
  | error e => rfl
  | ok captures => exact collectSeries_ok hpos (fitsI64_toInt _) hspan hstart

/-- A window that starts outside `i64`, or whose length is outside it, ends the call in a panic. -/
theorem fingerprintBitSeries_panics (hbit : bit.toNat ≤ 255) (hwidth : 1 ≤ bucketSeconds.toInt)
    (hcount : 0 < bucketCount.toNat)
    (hout : ¬(FitsI64 (seriesSpan bucketSeconds bucketCount) ∧
      FitsI64 (endingAt.toInt - seriesSpan bucketSeconds bucketCount))) :
    fingerprintBitSeries library drawers bit bucketSeconds bucketCount endingAt =
      .error .panic := by
  have hbit' : ¬255 < bit.toNat := hbit.not_gt
  have hwidth' : ¬bucketSeconds.toInt < 1 := hwidth.not_gt
  unfold fingerprintBitSeries
  rw [if_neg hbit', if_neg hwidth', if_neg hcount.ne']
  by_cases hmillis : FitsI64 (bucketSeconds.toInt * 1000)
  · rw [checkedI64_of_fits hmillis, except_ok_bind, bucketEdge]
    by_cases hoffset : FitsI64 (asI64 bucketCount.toNat * (bucketSeconds.toInt * 1000))
    · rw [checkedI64_of_fits hoffset, except_ok_bind]
      by_cases hstart : FitsI64
          (endingAt.toInt - asI64 bucketCount.toNat * (bucketSeconds.toInt * 1000))
      · -- A count past the largest `i64` is cast to a negative number: the window is empty.
        have hlarge : 2 ^ 63 ≤ bucketCount.toNat := by
          by_contra hsmall
          rw [asI64_of_lt (not_le.mp hsmall)] at hoffset hstart
          exact hout ⟨hoffset, hstart⟩
        have hafter : endingAt.toInt <
            endingAt.toInt - asI64 bucketCount.toNat * (bucketSeconds.toInt * 1000) := by
          have hneg : asI64 bucketCount.toNat * (bucketSeconds.toInt * 1000) < 0 :=
            Int.mul_neg_of_neg_of_pos (asI64_neg hlarge bucketCount.toNat_lt) (by omega)
          omega
        have hnone : drawers.filter (capturedWithin (endingAt.toInt -
            asI64 bucketCount.toNat * (bucketSeconds.toInt * 1000)) endingAt.toInt) = [] := by
          apply List.filter_eq_nil_iff.mpr
          intro row _ hrow
          obtain ⟨_, hlower, hupper⟩ := capturedWithin_iff.mp hrow
          omega
        rw [checkedI64_of_fits hstart, except_ok_bind, hnone]
        exact if_neg hlarge.not_gt
      · rw [checkedI64_of_not_fits hstart]
        rfl
    · rw [checkedI64_of_not_fits hoffset]
      rfl
  · rw [checkedI64_of_not_fits hmillis]
    rfl

/-- Some capture of the rows is counted in a bucket just where a drawer of it has the bit. -/
theorem any_countedIn {captures : List (Int × Fingerprint256)} {i : Nat}
    (hbit : bit.toNat ≤ 255) (hwidth : 1 ≤ bucketSeconds.toInt) (hi : i < bucketCount.toNat)
    (hcaptures : (seriesRows drawers bucketSeconds bucketCount endingAt).mapM
      (captureOfRow library) = .ok captures) :
    captures.any (countedIn endingAt.toInt (bucketSeconds.toInt * 1000) bucketCount.toNat
      bit.toNat i) = true ↔
    ∃ row ∈ drawers, InSeriesBucket bucketSeconds bucketCount endingAt i row ∧
      row.HasBit library bit.toNat := by
  rw [List.any_eq_true]
  simp only [countedIn, Bool.and_eq_true, decide_eq_true_eq, temporalBitSet_eq _ hbit]
  constructor
  · rintro ⟨capture, hmem, hbucket, hset⟩
    obtain ⟨row, hrow, hcapture⟩ := mem_of_mapM_ok hcaptures hmem
    obtain ⟨htime, hprint⟩ := captureOfRow_ok hcapture
    obtain ⟨hstored, hlive, _⟩ := mem_seriesRows.mp hrow
    rw [htime] at hbucket
    exact ⟨row, hstored, ⟨hlive, hbucket⟩, capture.2, hprint, hset⟩
  · rintro ⟨row, hstored, hbucket, print, hprint, hset⟩
    have hrow := mem_seriesRows.mpr ⟨hstored, hbucket.inWindow hwidth hi⟩
    obtain ⟨capture, hmem, hcapture⟩ := mapM_defined hcaptures row hrow
    obtain ⟨htime, hprint'⟩ := captureOfRow_ok hcapture
    have heq : capture.2 = print := Except.ok.inj (hprint'.symm.trans hprint)
    refine ⟨capture, hmem, ?_, ?_⟩
    · rw [htime]
      exact hbucket.2
    · rw [heq]
      exact hset

/-- A call with a refused argument or no buckets reads nothing. -/
theorem fingerprintBitSeries_refused
    (h : 255 < bit.toNat ∨ bucketSeconds.toInt < 1 ∨ bucketCount.toNat = 0) :
    (∃ e, fingerprintBitSeries library drawers bit bucketSeconds bucketCount endingAt =
      .error (.err e)) ∨
    fingerprintBitSeries library drawers bit bucketSeconds bucketCount endingAt = .ok [] := by
  unfold fingerprintBitSeries
  by_cases hbit : 255 < bit.toNat
  · rw [if_pos hbit]
    exact Or.inl ⟨_, rfl⟩
  · rw [if_neg hbit]
    by_cases hwidth : bucketSeconds.toInt < 1
    · rw [if_pos hwidth]
      exact Or.inl ⟨_, rfl⟩
    · rw [if_neg hwidth, if_pos ((h.resolve_left hbit).resolve_left hwidth)]
      exact Or.inr rfl

theorem answersBuckets_of_fits (hvalid : ValidSeries bit bucketSeconds bucketCount)
    (hstart : FitsI64 (endingAt.toInt - seriesSpan bucketSeconds bucketCount)) :
    AnswersBuckets library drawers bit bucketSeconds bucketCount endingAt
      (fingerprintBitSeries library drawers bit bucketSeconds bucketCount endingAt) := by
  rw [fingerprintBitSeries_eq hvalid hstart]
  cases hcaptures : (seriesRows drawers bucketSeconds bucketCount endingAt).mapM
    (captureOfRow library) with
  | error e =>
    obtain ⟨row, hrow, herror⟩ := mapM_error hcaptures
    obtain ⟨hstored, hwindow⟩ := mem_seriesRows.mp hrow
    exact ⟨row, hstored, hwindow, herror⟩
  | ok captures =>
    refine ⟨by simp, fun i hi => ?_⟩
    rw [← any_countedIn hvalid.bit hvalid.width hi hcaptures]
    simp [hi]

-- A capture on an edge counts for the later bucket and one at the end for the last; a row without
-- an event time counts by the time it was filed at.
example :
    let row (eventTime : Option Int) (filedAt : Int) (print : UInt8) : DrawerRow :=
      ⟨"", "", "", "", "", filedAt, eventTime, "", none, ⟨0, 0, 0⟩, "", none, none, none,
        some [print]⟩
    let library : RowLibrary :=
      ⟨fun _ => none, fun _ => 0, fun bytes => bytes.head?.map fun b => BitVec.ofNat 256 b.toNat⟩
    (fingerprintBitSeries library [row (some 100000) 0 1, row none 300000 1, row (some 0) 7 2]
      0 100 3 300000).toOption = some [false, true, true] := by
  decide +kernel

/-- A window that is not one of `i64` values leaves the series without an answer. -/
theorem BitSeriesSound.fits (h : BitSeriesSound library drawers bit bucketSeconds bucketCount endingAt)
    (hbit : bit.toNat ≤ 255) (hwidth : 1 ≤ bucketSeconds.toInt) (hcount : 0 < bucketCount.toNat) :
    FitsI64 (seriesSpan bucketSeconds bucketCount) ∧
      FitsI64 (endingAt.toInt - seriesSpan bucketSeconds bucketCount) := by
  by_contra hout
  have hpanics : fingerprintBitSeries library drawers bit bucketSeconds bucketCount endingAt =
      .error .panic := fingerprintBitSeries_panics hbit hwidth hcount hout
  by_cases hspan : FitsI64 (seriesSpan bucketSeconds bucketCount)
  · have hanswers := (h.partitions ⟨hbit, hwidth, hcount, hspan⟩).answers
    rw [hpanics] at hanswers
    exact hanswers
  · rcases h.refuses fun hvalid => hspan hvalid.span with ⟨e, he⟩ | hnil
    · cases hpanics.symm.trans he
    · cases hpanics.symm.trans hnil

theorem bitSeriesSound_of_refused
    (h : 255 < bit.toNat ∨ bucketSeconds.toInt < 1 ∨ bucketCount.toNat = 0) :
    BitSeriesSound library drawers bit bucketSeconds bucketCount endingAt := by
  refine ⟨fun hvalid => ?_, fun _ => fingerprintBitSeries_refused h⟩
  obtain ⟨hbit, hwidth, hcount, _⟩ := hvalid
  omega

theorem bitSeriesSound_of_fits (hvalid : ValidSeries bit bucketSeconds bucketCount)
    (hstart : FitsI64 (endingAt.toInt - seriesSpan bucketSeconds bucketCount)) :
    BitSeriesSound library drawers bit bucketSeconds bucketCount endingAt := by
  refine ⟨fun _ => ?_, fun hinvalid => absurd hvalid hinvalid⟩
  exact
    { covered := fun row _ hrow => hrow.existsUnique hvalid.width hvalid.count
      others := fun row _ hrow i hi hbucket => hrow (hbucket.inWindow hvalid.width hi)
      answers := answersBuckets_of_fits hvalid hstart }

end Runs

/-- The series partitions its window, and every other call has an error or no buckets, just where an
argument is refused, there are no buckets, or the length and the start of the window are values of
`i64`. Past that the arithmetic overflows. -/
theorem bitSeriesSound_iff (library : RowLibrary) (drawers : List DrawerRow) (bit : UInt64)
    (bucketSeconds : Int64) (bucketCount : UInt64) (endingAt : Int64) :
    BitSeriesSound library drawers bit bucketSeconds bucketCount endingAt ↔
      255 < bit.toNat ∨ bucketSeconds.toInt < 1 ∨ bucketCount.toNat = 0 ∨
        (FitsI64 (seriesSpan bucketSeconds bucketCount) ∧
          FitsI64 (endingAt.toInt - seriesSpan bucketSeconds bucketCount)) := by
  by_cases hrefused : 255 < bit.toNat ∨ bucketSeconds.toInt < 1 ∨ bucketCount.toNat = 0
  · refine ⟨fun _ => ?_, fun _ => bitSeriesSound_of_refused hrefused⟩
    rcases hrefused with h | h | h
    · exact Or.inl h
    · exact Or.inr (Or.inl h)
    · exact Or.inr (Or.inr (Or.inl h))
  · simp only [not_or, not_lt] at hrefused
    obtain ⟨hbit, hwidth, hcount⟩ := hrefused
    have hpos := Nat.pos_of_ne_zero hcount
    constructor
    · intro h
      exact Or.inr (Or.inr (Or.inr (h.fits hbit hwidth hpos)))
    · rintro (h | h | h | ⟨hspan, hstart⟩)
      · omega
      · omega
      · exact absurd h hcount
      · exact bitSeriesSound_of_fits ⟨hbit, hwidth, hpos, hspan⟩ hstart

/-- On an estate without drawers one bucket of 9223372036854776 seconds overflows in its width, and
one bucket of a second that ends at the first instant overflows in its start. -/
theorem not_bitSeriesSound :
    ¬BitSeriesSound ⟨fun _ => none, fun _ => 0, fun _ => none⟩ [] 0 9223372036854776 1 0 ∧
      ¬BitSeriesSound ⟨fun _ => none, fun _ => 0, fun _ => none⟩ [] 0 1 1 Int64.minValue := by
  constructor
  · intro h
    have hspan := (h.fits (by decide) (by decide) (by decide)).1
    exact absurd hspan (by decide)
  · intro h
    have hstart := (h.fits (by decide) (by decide) (by decide)).2
    exact absurd hstart (by decide)

end MootMemory
