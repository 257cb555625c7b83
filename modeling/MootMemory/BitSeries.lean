import MootMemory.BasisCodec
import MootMemory.DrawerFingerprint
import MootMemory.EffectRun
import MootMemory.IntervalBuckets
import Mathlib.Tactic.Linarith

namespace MootMemory

/-- A row of the table `drawers`, with the columns that a decoded drawer and its fingerprint need. -/
structure DrawerRow where
  id : String
  lineageId : String
  content : String
  parentNodeId : String
  addedBy : String
  filedAt : Int
  eventTime : Option Int
  embeddingModelId : String
  tombstonedAt : Option Int
  bitmaps : BitmapFields
  udcCode : String
  udcFacets : Option String
  wikidataQid : Option String
  wikidataQidsSecondary : Option String
  contentFingerprint : Option (List UInt8)

/-- The functions of outside libraries that the decoding of a row calls. -/
structure RowLibrary where
  parseUuid : String → Option Uuid
  /-- The fresh UUID that a row without a lineage is read with. -/
  newUuid : String → Uuid
  fromWireBytes : List UInt8 → Option Fingerprint256

def lineageOfRow (library : RowLibrary) (row : DrawerRow) : Except LocusKitError Uuid :=
  if row.lineageId = "" then .ok (library.newUuid row.id)
  else
    match library.parseUuid row.lineageId with
    | some uuid => .ok uuid
    | none => .error (.corruptStoredValue "drawers" "lineageID" row.lineageId)

def drawerFromRow (library : RowLibrary) (row : DrawerRow) : Except LocusKitError Drawer := do
  let lineageId ← lineageOfRow library row
  pure
    { id := row.id
      lineageId := lineageId
      content := row.content
      parentNodeId := row.parentNodeId
      addedBy := row.addedBy
      filedAt := row.filedAt
      eventTime := row.eventTime.getD row.filedAt
      embeddingModelId := row.embeddingModelId
      tombstonedAt := row.tombstonedAt
      bitmaps := row.bitmaps
      udcCode := row.udcCode
      udcFacets := row.udcFacets
      wikidataQid := row.wikidataQid
      wikidataQidsSecondary := row.wikidataQidsSecondary }

def storedFingerprint (library : RowLibrary) (row : DrawerRow) (drawerId : String) :
    Except LocusKitError Fingerprint256 :=
  match row.contentFingerprint with
  | some bytes =>
    match library.fromWireBytes bytes with
    | some print => .ok print
    | none => .error (.invalidContent ("drawer " ++ drawerId ++
        " content_fingerprint is malformed (expected 32 bytes, got " ++
        toString bytes.length ++ ")"))
  | none => .error (.invalidContent ("drawer " ++ drawerId ++
      " has no content_fingerprint (LocusKitSchema v9) — write path did not persist it"))

def Fingerprint256.block (print : Fingerprint256) (k : Nat) : BitVec 64 :=
  print.extractLsb' (64 * k) 64

def temporalBitSet (print : Fingerprint256) (bit : Nat) : Bool :=
  if bit ≤ 63 then Fingerprint256.block print 0 >>> bit &&& 1 != 0
  else if bit ≤ 127 then Fingerprint256.block print 1 >>> (bit - 64) &&& 1 != 0
  else if bit ≤ 191 then Fingerprint256.block print 2 >>> (bit - 128) &&& 1 != 0
  else Fingerprint256.block print 3 >>> (bit - 192) &&& 1 != 0

def FitsI64 (x : Int) : Prop := -2 ^ 63 ≤ x ∧ x < 2 ^ 63

instance (x : Int) : Decidable (FitsI64 x) := inferInstanceAs (Decidable (_ ∧ _))

/-- An operation of `i64` whose exact value is `x`. -/
def checkedI64 {ε : Type} (x : Int) : Except (Stop ε) Int :=
  if FitsI64 x then .ok x else .error .panic

/-- The cast `as i64` of a `usize`. -/
def asI64 (n : Nat) : Int := (n : Int).bmod (2 ^ 64)

/-- The predicate of the query: a row is taken by its event time, or where that is NULL by the time
it was filed at. -/
def capturedWithin (windowStart endingAt : Int) (row : DrawerRow) : Bool :=
  (row.eventTime.isSome && row.eventTime.any (windowStart ≤ ·) && row.eventTime.any (· ≤ endingAt) ||
    row.eventTime.isNone && decide (windowStart ≤ row.filedAt) && decide (row.filedAt ≤ endingAt)) &&
  row.tombstonedAt.isNone

def captureOfRow (library : RowLibrary) (row : DrawerRow) :
    Except LocusKitError (Int × Fingerprint256) := do
  let d ← drawerFromRow library row
  let print ← storedFingerprint library row d.id
  pure (d.eventTime, print)

/-- The edge `back` buckets before the end. -/
def bucketEdge (endingAt bucketMillis : Int) (back : Nat) : Except (Stop LocusKitError) Int := do
  let offset ← checkedI64 (asI64 back * bucketMillis)
  checkedI64 (endingAt - offset)

def seriesEntry (captures : List (Int × Fingerprint256)) (bit : Nat) (bucketMillis endingAt : Int)
    (bucketCount i : Nat) : Except (Stop LocusKitError) Bool := do
  let bucketLower ← bucketEdge endingAt bucketMillis (bucketCount - i)
  captures.anyM fun capture => do
    let inBucket ←
      if i = bucketCount - 1 then
        pure (decide (bucketLower ≤ capture.1 ∧ capture.1 ≤ endingAt))
      else do
        let bucketUpper ← bucketEdge endingAt bucketMillis (bucketCount - i - 1)
        pure (decide (bucketLower ≤ capture.1 ∧ capture.1 < bucketUpper))
    pure (inBucket && temporalBitSet capture.2 bit)

/-- The entries are collected into a vector of exactly their number, which is at most the largest
`isize`. -/
def collectSeries (captures : List (Int × Fingerprint256)) (bit : Nat)
    (bucketMillis endingAt : Int) (bucketCount : Nat) : Except (Stop LocusKitError) (List Bool) :=
  if bucketCount < 2 ^ 63 then
    (List.range bucketCount).mapM (seriesEntry captures bit bucketMillis endingAt bucketCount)
  else .error .panic

def fingerprintBitSeries (library : RowLibrary) (drawers : List DrawerRow) (bit : UInt64)
    (bucketSeconds : Int64) (bucketCount : UInt64) (endingAt : Int64) :
    Except (Stop LocusKitError) (List Bool) := do
  if 255 < bit.toNat then
    throw (.err (.invalidContent ("fingerprint_bit_series: bit " ++ toString bit.toNat ++
      " out of range [0, 255]")))
  else if bucketSeconds.toInt < 1 then
    throw (.err (.invalidContent ("fingerprint_bit_series: bucket_seconds " ++
      toString bucketSeconds.toInt ++ " must be ≥ 1")))
  else if bucketCount.toNat = 0 then
    pure []
  else do
    let bucketMillis ← checkedI64 (bucketSeconds.toInt * 1000)
    let windowStart ← bucketEdge endingAt.toInt bucketMillis bucketCount.toNat
    let rows := drawers.filter (capturedWithin windowStart endingAt.toInt)
    let captures ← (rows.mapM (captureOfRow library)).mapError .err
    collectSeries captures bit.toNat bucketMillis endingAt.toInt bucketCount.toNat

section Bits

theorem shifted_bit (block : BitVec 64) (k : Nat) :
    (block >>> k &&& 1 != 0) = block.getLsbD k := by
  have hone : block >>> k &&& 1 = BitVec.setWidth 64 (BitVec.ofBool (block.getLsbD k)) := by
    ext i hi
    rw [BitVec.getElem_and, BitVec.getElem_ushiftRight, BitVec.getElem_setWidth,
      BitVec.getLsbD_ofBool]
    rcases Nat.eq_zero_or_pos i with rfl | hpos
    · simp
    · simp [BitVec.getElem_one, hpos.ne']
  rw [hone]
  cases block.getLsbD k <;> rfl

theorem getLsbD_block (print : Fingerprint256) (k : Nat) {j : Nat} (hj : j < 64) :
    (Fingerprint256.block print k).getLsbD j = print.getLsbD (64 * k + j) := by
  rw [Fingerprint256.block, BitVec.getLsbD_extractLsb', decide_eq_true hj, Bool.true_and]

/-- The four blocks are the bits of the fingerprint in order. -/
theorem temporalBitSet_eq (print : Fingerprint256) {bit : Nat} (hbit : bit ≤ 255) :
    temporalBitSet print bit = print.getLsbD bit := by
  have hblock : ∀ k j, j < 64 → 64 * k + j = bit →
      (Fingerprint256.block print k >>> j &&& 1 != 0) = print.getLsbD bit := by
    intro k j hj heq
    rw [shifted_bit, getLsbD_block print k hj, heq]
  unfold temporalBitSet
  by_cases h0 : bit ≤ 63
  · rw [if_pos h0]
    exact hblock 0 bit (by omega) (by omega)
  · by_cases h1 : bit ≤ 127
    · rw [if_neg h0, if_pos h1]
      exact hblock 1 (bit - 64) (by omega) (by omega)
    · by_cases h2 : bit ≤ 191
      · rw [if_neg h0, if_neg h1, if_pos h2]
        exact hblock 2 (bit - 128) (by omega) (by omega)
      · rw [if_neg h0, if_neg h1, if_neg h2]
        exact hblock 3 (bit - 192) (by omega) (by omega)

end Bits

namespace DrawerRow

/-- The time a drawer counts for. -/
def effectiveTime (row : DrawerRow) : Int := row.eventTime.getD row.filedAt

/-- The row has a fingerprint with the bit set. -/
def HasBit (library : RowLibrary) (row : DrawerRow) (bit : Nat) : Prop :=
  ∃ print, storedFingerprint library row row.id = .ok print ∧ print.getLsbD bit = true

end DrawerRow

section Arithmetic

theorem checkedI64_of_fits {ε : Type} {x : Int} (h : FitsI64 x) :
    (checkedI64 x : Except (Stop ε) Int) = .ok x := if_pos h

theorem checkedI64_of_not_fits {ε : Type} {x : Int} (h : ¬FitsI64 x) :
    (checkedI64 x : Except (Stop ε) Int) = .error .panic := if_neg h

theorem asI64_of_lt {n : Nat} (h : n < 2 ^ 63) : asI64 n = n := by
  apply Int.bmod_eq_of_le
  · omega
  · omega

/-- A count past the largest `i64` is cast to a negative number. -/
theorem asI64_neg {n : Nat} (h : 2 ^ 63 ≤ n) (hn : n < 2 ^ 64) : asI64 n < 0 := by
  have heq : asI64 n = (n : Int) - 2 ^ 64 := by
    apply (Int.bmod_eq_iff (by decide)).mpr
    refine ⟨by omega, by omega, ⟨-1, by omega⟩⟩
  omega

variable {endingAt width : Int} {back count : Nat}

/-- The edges between the start of the window and its end are all computed without overflow. -/
theorem bucketEdge_ok (hwidth : 0 < width) (hend : FitsI64 endingAt)
    (hspan : FitsI64 (count * width)) (hstart : FitsI64 (endingAt - count * width))
    (hback : back ≤ count) : bucketEdge endingAt width back = .ok (endingAt - back * width) := by
  have hle : (back : Int) * width ≤ count * width :=
    Int.mul_le_mul_of_nonneg_right (by omega) hwidth.le
  have hzero : (0 : Int) ≤ back * width := Int.mul_nonneg (by omega) hwidth.le
  have hself : (back : Int) ≤ back * width := le_mul_of_one_le_right (by omega) hwidth
  obtain ⟨_, hspan⟩ := hspan
  obtain ⟨hstart, _⟩ := hstart
  obtain ⟨_, hend⟩ := hend
  rw [bucketEdge, asI64_of_lt (by omega), checkedI64_of_fits ⟨by omega, by omega⟩]
  exact checkedI64_of_fits ⟨by omega, by omega⟩

end Arithmetic

section Rows

variable {library : RowLibrary} {row : DrawerRow} {windowStart endingAt : Int}

/-- The query takes the live rows whose effective time is in the window. -/
theorem capturedWithin_iff : capturedWithin windowStart endingAt row = true ↔
    row.tombstonedAt = none ∧ windowStart ≤ row.effectiveTime ∧ row.effectiveTime ≤ endingAt := by
  unfold capturedWithin DrawerRow.effectiveTime
  cases row.eventTime with
  | none => simp [and_comm]
  | some t => simp [and_comm]

/-- A row is read with its effective time and its stored fingerprint. -/
theorem captureOfRow_ok {capture : Int × Fingerprint256}
    (h : captureOfRow library row = .ok capture) :
    capture.1 = row.effectiveTime ∧ storedFingerprint library row row.id = .ok capture.2 := by
  obtain ⟨d, hd, h⟩ := except_bind_ok.mp h
  obtain ⟨print, hprint, h⟩ := except_bind_ok.mp h
  obtain ⟨lineageId, _, hd⟩ := except_bind_ok.mp hd
  cases hd
  cases h
  exact ⟨rfl, hprint⟩

end Rows

section Entries

variable {captures : List (Int × Fingerprint256)} {bit count i : Nat} {width endingAt : Int}

/-- The capture lies in the bucket and has the bit set. -/
def countedIn (endingAt width : Int) (count bit i : Nat) (capture : Int × Fingerprint256) : Bool :=
  decide (InBucket (evenEdge endingAt width count) count i capture.1) &&
    temporalBitSet capture.2 bit

theorem seriesEntry_ok (hwidth : 0 < width) (hend : FitsI64 endingAt)
    (hspan : FitsI64 (count * width)) (hstart : FitsI64 (endingAt - count * width))
    (hi : i < count) : seriesEntry captures bit width endingAt count i =
      .ok (captures.any (countedIn endingAt width count bit i)) := by
  have hlower : endingAt - ((count - i : Nat) : Int) * width = evenEdge endingAt width count i := by
    rw [evenEdge, Int.ofNat_sub hi.le]
  rw [seriesEntry, bucketEdge_ok hwidth hend hspan hstart (by omega), hlower]
  refine anyM_ok fun capture _ => ?_
  by_cases hlast : i = count - 1
  · rw [if_pos hlast]
    simp only [countedIn, InBucket, evenEdge_last, if_pos (show i + 1 = count by omega)]
    rfl
  · have hupper : endingAt - ((count - i - 1 : Nat) : Int) * width =
        evenEdge endingAt width count (i + 1) := by
      rw [evenEdge, Nat.sub_sub, Int.ofNat_sub hi]
    rw [if_neg hlast, bucketEdge_ok hwidth hend hspan hstart (by omega), hupper]
    simp only [countedIn, InBucket, if_neg (show i + 1 ≠ count by omega)]
    rfl

theorem collectSeries_ok (hwidth : 0 < width) (hend : FitsI64 endingAt)
    (hspan : FitsI64 (count * width)) (hstart : FitsI64 (endingAt - count * width)) :
    collectSeries captures bit width endingAt count =
      .ok ((List.range count).map fun i =>
        captures.any (countedIn endingAt width count bit i)) := by
  have hself : (count : Int) ≤ count * width := le_mul_of_one_le_right (by omega) hwidth
  have hcount : count < 2 ^ 63 := by
    obtain ⟨_, hspan⟩ := hspan
    omega
  rw [collectSeries, if_pos hcount]
  refine mapM_ok fun i hi => ?_
  exact seriesEntry_ok hwidth hend hspan hstart (List.mem_range.mp hi)

end Entries

end MootMemory
