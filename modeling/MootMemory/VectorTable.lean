import MootMemory.IndexAgreement

namespace MootMemory

/-- What a write stores in a row, all but the row's own id. -/
structure VectorPayloadInput where
  itemId : String
  vectorIndex : UInt32
  payload : VectorPayload
  modelId : String
  modelVersion : String
  filedAt : Int
deriving DecidableEq, Repr

def VectorPayloadInput.key (input : VectorPayloadInput) : VectorRecordKey :=
  ⟨input.itemId, input.vectorIndex, input.modelId, input.modelVersion⟩

/-- A row of the `vectors` table. -/
structure VectorRow where
  id : Nat
  input : VectorPayloadInput
deriving DecidableEq, Repr

def VectorRow.key (row : VectorRow) : VectorRecordKey := row.input.key

def VectorRow.triple (row : VectorRow) : String × UInt32 × String := row.key.triple

/-- The table: no two rows share item, index and model, and every write takes a fresh id. -/
structure VectorTable where
  rows : List VectorRow
  nextId : Nat
  unique : (rows.map (·.triple)).Nodup
  fresh : ∀ row ∈ rows, row.id < nextId

namespace VectorTable

def empty : VectorTable := ⟨[], 0, by simp, by simp⟩

/-- Delete the rows that satisfy a predicate. -/
def delete (table : VectorTable) (p : VectorRow → Bool) : VectorTable where
  rows := table.rows.filter fun row => !p row
  nextId := table.nextId
  unique := table.unique.sublist ((List.filter_sublist).map _)
  fresh := fun row hrow => table.fresh row (List.mem_filter.mp hrow).1

/-- A row goes in where no other has its item, index and model. -/
def put (table : VectorTable) (input : VectorPayloadInput)
    (h : ∀ row ∈ table.rows, row.triple ≠ input.key.triple) : VectorTable where
  rows := table.rows ++ [⟨table.nextId, input⟩]
  nextId := table.nextId + 1
  unique := by
    rw [List.map_append, List.map_singleton]
    refine List.nodup_append.mpr ⟨table.unique, by simp, ?_⟩
    intro x hx y hy
    obtain ⟨row, hrow, rfl⟩ := List.mem_map.mp hx
    rw [List.mem_singleton.mp hy]
    exact h row hrow
  fresh := by
    intro row hrow
    rcases List.mem_append.mp hrow with hrow | hrow
    · exact Nat.lt_succ_of_lt (table.fresh row hrow)
    · rw [List.mem_singleton.mp hrow]
      exact Nat.lt_succ_self _

/-- `upsert` on item, index and model: the row that has them gives way to the new one. -/
def upsert (table : VectorTable) (input : VectorPayloadInput) : VectorTable :=
  (table.delete fun row => row.triple = input.key.triple).put input (by
    intro row hrow
    simpa using (List.mem_filter.mp hrow).2)

def upsertAll (table : VectorTable) (batch : List VectorPayloadInput) : VectorTable :=
  batch.foldl upsert table

/-- A plain insert fails on a row with the same item, index and model. -/
def insert (table : VectorTable) (input : VectorPayloadInput) : Option VectorTable :=
  if h : ∀ row ∈ table.rows, row.triple ≠ input.key.triple then some (table.put input h) else none

/-- One transaction: delete the rows of a model and insert the new ones. -/
def replaceModel (table : VectorTable) (modelId : String) (batch : List VectorPayloadInput) :
    Option VectorTable :=
  batch.foldlM insert (table.delete fun row => row.key.modelId = modelId)

/-- The keys and bytes of the binary rows. -/
def binaryRecords (table : VectorTable) : List VectorRecord :=
  (table.rows.filter fun row => row.input.payload.kind = .binary).map fun row =>
    (row.key, row.input.payload.bytes)

/-- The rows of one kind in number. -/
def binaryRowCount (table : VectorTable) : Nat :=
  (table.rows.filter fun row => row.input.payload.kind = .binary).length

theorem length_binaryRecords (table : VectorTable) :
    table.binaryRecords.length = table.binaryRowCount := by
  simp [binaryRecords, binaryRowCount]

theorem binaryRecords_triples_nodup (table : VectorTable) :
    (table.binaryRecords.map (·.1.triple)).Nodup := by
  have h : table.binaryRecords.map (·.1.triple) =
      (table.rows.filter fun row => row.input.payload.kind = .binary).map (·.triple) := by
    rw [binaryRecords, List.map_map]
    rfl
  rw [h]
  exact table.unique.sublist ((List.filter_sublist).map _)

theorem binaryRecords_keys_nodup (table : VectorTable) :
    (table.binaryRecords.map (·.1)).Nodup := by
  apply List.Nodup.of_map VectorRecordKey.triple
  rw [List.map_map]
  exact binaryRecords_triples_nodup table

theorem triple_injOn {table : VectorTable} {r r' : VectorRecord} (hr : r ∈ table.binaryRecords)
    (hr' : r' ∈ table.binaryRecords) (h : r.1.triple = r'.1.triple) : r = r' :=
  List.inj_on_of_nodup_map table.binaryRecords_triples_nodup hr hr' h

/-- A predicate on rows that only looks at the key acts on the records. -/
theorem binaryRecords_delete (table : VectorTable) (p : VectorRecordKey → Bool) :
    (table.delete fun row => p row.key).binaryRecords =
      table.binaryRecords.filter fun r => !p r.1 := by
  simp only [binaryRecords, delete, List.filter_map, List.filter_filter]
  congr 1
  apply List.filter_congr
  intro row _
  simp [Bool.and_comm]

theorem binaryRecords_upsert (table : VectorTable) (input : VectorPayloadInput) :
    (table.upsert input).binaryRecords =
      table.binaryRecords.filter (fun r => r.1.triple ≠ input.key.triple) ++
        if input.payload.kind = .binary then [(input.key, input.payload.bytes)] else [] := by
  have hdelete := binaryRecords_delete table fun key => decide (key.triple = input.key.triple)
  have hsplit : (table.upsert input).binaryRecords =
      (table.delete fun row => decide (row.key.triple = input.key.triple)).binaryRecords ++
        if input.payload.kind = .binary then [(input.key, input.payload.bytes)] else [] := by
    simp only [upsert, put, binaryRecords, List.filter_append, List.map_append, VectorRow.triple]
    congr 1
    by_cases hkind : input.payload.kind = .binary <;> simp [hkind, VectorRow.key]
  rw [hsplit, hdelete]
  congr 1
  apply List.filter_congr
  intro r _
  simp

/-- Every write gives the table a row it did not have. -/
theorem upsert_ne (table : VectorTable) (input : VectorPayloadInput) :
    (table.upsert input).rows ≠ table.rows := by
  intro h
  have hmem : (⟨table.nextId, input⟩ : VectorRow) ∈ (table.upsert input).rows := by
    simp [upsert, put, delete]
  rw [h] at hmem
  exact absurd (table.fresh _ hmem) (lt_irrefl _)

theorem upsertAll_ne (table : VectorTable) {batch : List VectorPayloadInput} (h : batch ≠ []) :
    (table.upsertAll batch).rows ≠ table.rows := by
  obtain ⟨init, last, rfl⟩ := List.eq_nil_or_concat batch |>.resolve_left h
  have hid : table.nextId ≤ (table.upsertAll init).nextId := by
    clear h
    induction init using List.reverseRecOn with
    | nil => exact le_rfl
    | append_singleton init input ih =>
      rw [upsertAll, List.foldl_append]
      exact le_trans ih (Nat.le_succ _)
  rw [upsertAll, List.concat_eq_append, List.foldl_append]
  intro hrows
  have hmem : (⟨(table.upsertAll init).nextId, last⟩ : VectorRow) ∈
      ((table.upsertAll init).upsert last).rows := by
    simp [upsert, put, delete]
  have hlt := table.fresh _ (hrows ▸ hmem)
  exact absurd hlt (Nat.not_lt.mpr hid)

end VectorTable

end MootMemory
