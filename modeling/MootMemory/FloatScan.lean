import MootMemory.StableSort
import MootMemory.VectorTable

namespace MootMemory

/-- A float row: its key and its payload. -/
abbrev FloatRecord := VectorRecordKey × VectorPayload

/-- The float rows of one model, sorted by key. -/
def fetchFloatRecords (table : VectorTable) (modelId : String) : List FloatRecord :=
  stableSort Prod.fst <|
    (table.rows.filter fun row =>
      row.input.payload.kind == .float32 && row.key.modelId == modelId).map fun row =>
      (row.key, row.input.payload)

/-- The numbers of the row's bytes, four each. -/
def FloatRecord.dim (r : FloatRecord) : Nat := r.2.bytes.length / 4

variable {D : Type*} [LinearOrder D]

/-- Whether the first distance ranks ahead: the smaller one, or the larger. -/
def ranksAhead (nearest : Bool) (a b : D) : Bool := if nearest then a < b else a > b

/-- The scan over the rows of a model, where `distance` is a row's cosine distance to the probe. -/
def floatScan (distance : FloatRecord → D) (probeLen k : Nat) (nearest : Bool)
    (records : List FloatRecord) : List (D × String) :=
  records.foldl (fun top r =>
    if r.dim ≠ probeLen then top
    else boundedInsert (fun a b => ranksAhead nearest a.1 b.1) k top (distance r, r.1.itemId)) []

def floatScanFromTable (table : VectorTable) (distance : FloatRecord → D) (probeLen : Nat)
    (modelId : String) (k : Nat) (nearest : Bool) : List (D × String) :=
  floatScan distance probeLen k nearest (fetchFloatRecords table modelId)

variable {distance : FloatRecord → D} {probeLen k : Nat} {records : List FloatRecord}

theorem fetchFloatRecords_sorted (table : VectorTable) (modelId : String) :
    (fetchFloatRecords table modelId).Pairwise fun a b => a.1 ≤ b.1 :=
  stableSort_pairwise _ _

theorem mem_fetchFloatRecords {table : VectorTable} {modelId : String} {r : FloatRecord} :
    r ∈ fetchFloatRecords table modelId ↔ ∃ row ∈ table.rows,
      row.input.payload.kind = .float32 ∧ row.key.modelId = modelId ∧
        (row.key, row.input.payload) = r := by
  rw [fetchFloatRecords, (stableSort_perm _ _).mem_iff, List.mem_map]
  simp only [List.mem_filter, Bool.and_eq_true, beq_iff_eq, and_assoc]

omit [LinearOrder D] in
/-- The scan with the distances under any ranking. -/
theorem foldl_scan {β : Type*} [LinearOrder β] (rank : D → β) (distance : FloatRecord → D)
    (probeLen k : Nat) (records : List FloatRecord) :
    records.foldl (fun top r =>
      if r.dim ≠ probeLen then top
      else boundedInsert (fun a b : D × String => rank a.1 < rank b.1) k top
        (distance r, r.1.itemId)) [] =
      ((stableSort (fun r => rank (distance r)) (records.filter fun r => r.dim = probeLen)).take
        k).map fun r => (distance r, r.1.itemId) := by
  have hfold : records.foldl (fun top r =>
      if r.dim ≠ probeLen then top
      else boundedInsert (fun a b : D × String => rank a.1 < rank b.1) k top
        (distance r, r.1.itemId)) [] =
      ((records.filter fun r => r.dim = probeLen).map fun r => (distance r, r.1.itemId)).foldl
        (boundedInsert (fun a b => rank a.1 < rank b.1) k) [] := by
    rw [List.foldl_map, List.foldl_filter]
    simp only [ne_eq, ite_not, decide_eq_true_eq]
  rw [hfold, foldl_boundedInsert (fun e : D × String => rank e.1), stableSort_map, List.map_take]

/-- The rows of the probe's dimension, ranked by distance. -/
def rankedRows (distance : FloatRecord → D) (probeLen : Nat) (nearest : Bool)
    (records : List FloatRecord) : List FloatRecord :=
  (records.filter fun r => r.dim = probeLen).mergeSort fun a b =>
    if nearest then distance a ≤ distance b else distance a ≥ distance b

theorem rankedRows_nearest (distance : FloatRecord → D) (probeLen : Nat)
    (records : List FloatRecord) : rankedRows distance probeLen true records =
      stableSort distance (records.filter fun r => r.dim = probeLen) := rfl

theorem rankedRows_farthest (distance : FloatRecord → D) (probeLen : Nat)
    (records : List FloatRecord) : rankedRows distance probeLen false records =
      stableSort (fun r => OrderDual.toDual (distance r))
        (records.filter fun r => r.dim = probeLen) := rfl

theorem floatScan_eq_take_rankedRows (distance : FloatRecord → D) (probeLen k : Nat)
    (nearest : Bool) (records : List FloatRecord) :
    floatScan distance probeLen k nearest records =
      ((rankedRows distance probeLen nearest records).take k).map fun r =>
        (distance r, r.1.itemId) := by
  cases nearest with
  | true => exact foldl_scan id distance probeLen k records
  | false => exact foldl_scan OrderDual.toDual distance probeLen k records

theorem rankedRows_ties (hsorted : records.Pairwise fun a b => a.1 ≤ b.1) (nearest : Bool) :
    (rankedRows distance probeLen nearest records).Pairwise fun a b =>
      ranksAhead nearest (distance a) (distance b) ∨ (distance a = distance b ∧ a.1 ≤ b.1) := by
  have hmatching := hsorted.sublist
    (List.filter_sublist (p := fun r : FloatRecord => decide (r.dim = probeLen)))
  cases nearest with
  | true =>
    exact ((stableSort_order distance _).pairwise hmatching).imp fun h => by
      simpa [ranksAhead] using h
  | false =>
    exact ((stableSort_order (fun r => OrderDual.toDual (distance r)) _).pairwise
      hmatching).imp fun h => by simpa [ranksAhead] using h

/-- The scan returns the front of the full sort by distance, equal distances in key order. -/
theorem floatScan_eq_front (distance : FloatRecord → D) (probeLen k : Nat) (nearest : Bool)
    {records : List FloatRecord} (hsorted : records.Pairwise fun a b => a.1 ≤ b.1) :
    floatScan distance probeLen k nearest records =
        (((records.filter fun r => r.2.bytes.length / 4 = probeLen).mergeSort fun a b =>
          if nearest then distance a ≤ distance b else distance a ≥ distance b).take k).map
          (fun r => (distance r, r.1.itemId)) ∧
      ((records.filter fun r => r.2.bytes.length / 4 = probeLen).mergeSort fun a b =>
        if nearest then distance a ≤ distance b else distance a ≥ distance b).Pairwise
          fun a b => (if nearest then distance a < distance b else distance a > distance b) ∨
            (distance a = distance b ∧ a.1 ≤ b.1) := by
  refine ⟨floatScan_eq_take_rankedRows distance probeLen k nearest records, ?_⟩
  refine (rankedRows_ties hsorted nearest).imp fun h => ?_
  cases nearest <;> simpa [ranksAhead] using h

/-- A row of one number, its distance in the first byte. -/
def byteRow (itemId : String) (distance : UInt8) : FloatRecord :=
  (⟨itemId, 0, "m", "v1"⟩, ⟨.float32, 1, [distance, 0, 0, 0], none⟩)

def byteRows : List FloatRecord := [byteRow "a" 3, byteRow "b" 7, byteRow "c" 7, byteRow "d" 9]

theorem floatScan_eq_front_byteRows :
    (((byteRows.filter fun r => r.2.bytes.length / 4 = 1).mergeSort fun a b =>
      (a.2.bytes.headD 0).toNat ≥ (b.2.bytes.headD 0).toNat).take 2).map
        (fun r => ((r.2.bytes.headD 0).toNat, r.1.itemId)) = [(9, "d"), (7, "b")] := by
  have hsorted : byteRows.Pairwise fun a b => a.1 ≤ b.1 := by decide +kernel
  have hfront := (floatScan_eq_front (fun r => (r.2.bytes.headD 0).toNat) 1 2 false hsorted).1
  have hscan : floatScan (fun r => (r.2.bytes.headD 0).toNat) 1 2 false byteRows =
      [(9, "d"), (7, "b")] := by decide +kernel
  exact hfront.symm.trans hscan

end MootMemory
