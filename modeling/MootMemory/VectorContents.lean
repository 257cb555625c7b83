import MootMemory.RecordMap
import MootMemory.VectorStore

namespace MootMemory

/-- The bytes under each key. -/
abbrev Contents := VectorRecordKey → Option (List UInt8)

/-- The contents without the keys that satisfy a predicate. -/
def Contents.drop (m : Contents) (p : VectorRecordKey → Bool) : Contents :=
  fun x => if p x then none else m x

/-- Every vector is as long as a binary code. -/
def Contents.Fills (m : Contents) : Prop := ∀ x v, m x = some v → v.length = 32

theorem Contents.Fills.drop {m : Contents} (h : m.Fills) (p : VectorRecordKey → Bool) :
    (m.drop p).Fills := by
  intro x v hx
  rw [Contents.drop] at hx
  split at hx
  next => cases hx
  next => exact h x v hx

theorem Contents.Fills.store {m : Contents} (h : m.Fills) {r : VectorRecord} (hr : r.2.length = 32) :
    Contents.Fills (storeRecord m r) := by
  intro x v hx
  rw [storeRecord] at hx
  by_cases heq : x = r.1
  · rw [heq, Function.update_self] at hx
    rw [← Option.some.inj hx]
    exact hr
  · rw [Function.update_of_ne heq] at hx
    exact h x v hx

theorem Contents.Fills.foldl {m : Contents} (h : m.Fills) {records : List VectorRecord}
    (hfill : FillsSlots 32 records) : Contents.Fills (records.foldl storeRecord m) := by
  induction records generalizing m with
  | nil => exact h
  | cons r rs ih =>
    exact ih (h.store (hfill r (by simp))) fun x hx => hfill x (by simp [hx])

theorem Represents.fillsSlots {records : List VectorRecord} {m : Contents}
    (h : Represents records m) (hfills : m.Fills) : FillsSlots 32 records :=
  fun r hr => hfills r.1 r.2 (h.mem.mp hr)

namespace VectorTable

/-- The binary rows as a map. -/
def contents (table : VectorTable) : Contents := recordMap table.binaryRecords

theorem represents_contents (table : VectorTable) :
    Represents table.binaryRecords table.contents :=
  represents_recordMap table.binaryRecords_keys_nodup

theorem contents_delete (table : VectorTable) (p : VectorRecordKey → Bool) :
    (table.delete fun row => p row.key).contents = table.contents.drop p := by
  funext x
  rw [contents, binaryRecords_delete, recordMap_filter (fun k => !p k), Contents.drop, contents]
  cases p x <;> rfl

/-- The row that gives way to the input, if it is binary, has the very key of the input, and a
binary row takes its place. -/
def Replaces (table : VectorTable) (input : VectorPayloadInput) : Prop :=
  ∀ r ∈ table.binaryRecords, r.1.triple = input.key.triple →
    input.payload.kind = .binary ∧ r.1 = input.key

/-- Every input of a batch replaces rows in this way when it is its turn. -/
def ReplacesAll : VectorTable → List VectorPayloadInput → Prop
  | _, [] => True
  | table, input :: batch => table.Replaces input ∧ (table.upsert input).ReplacesAll batch

/-- The contents after an input. -/
def written (m : Contents) (input : VectorPayloadInput) : Contents :=
  if input.payload.kind = .binary then storeRecord m (input.key, input.payload.bytes) else m

theorem contents_upsert {table : VectorTable} {input : VectorPayloadInput}
    (h : table.Replaces input) : (table.upsert input).contents = written table.contents input := by
  rw [contents, binaryRecords_upsert, written]
  by_cases hkind : input.payload.kind = .binary
  · rw [if_pos hkind, if_pos hkind, recordMap_concat]
    funext x
    by_cases hx : x = input.key
    · rw [hx, storeRecord, storeRecord, Function.update_self, Function.update_self]
    · rw [storeRecord, storeRecord, Function.update_of_ne hx, Function.update_of_ne hx,
        recordMap_filter (fun k : VectorRecordKey => decide (k.triple ≠ input.key.triple))]
      by_cases htriple : x.triple = input.key.triple
      · have hnone : table.contents x = none := by
          cases hv : table.contents x with
          | none => rfl
          | some v =>
            have hmem := table.represents_contents.mem.mpr hv
            exact absurd (h _ hmem htriple).2 hx
        rw [if_neg (by simpa using htriple), hnone]
      · rw [if_pos (by simpa using htriple), contents]
  · rw [if_neg hkind, if_neg hkind, List.append_nil]
    have hsame : table.binaryRecords.filter (fun r => r.1.triple ≠ input.key.triple) =
        table.binaryRecords := by
      apply List.filter_eq_self.mpr
      intro r hr
      simpa using fun htriple => hkind (h r hr htriple).1
    rw [hsame, contents]

theorem contents_upsertAll {table : VectorTable} {batch : List VectorPayloadInput}
    (h : table.ReplacesAll batch) : (table.upsertAll batch).contents =
      (VectorStore.binaryInputs batch).foldl storeRecord table.contents := by
  induction batch generalizing table with
  | nil => rfl
  | cons input batch ih =>
    have hrest := ih h.2
    rw [contents_upsert h.1] at hrest
    have hcons : table.upsertAll (input :: batch) = (table.upsert input).upsertAll batch := rfl
    rw [hcons, hrest, written, VectorStore.binaryInputs, VectorStore.binaryInputs]
    by_cases hkind : input.payload.kind = .binary
    · rw [if_pos hkind, List.filter_cons_of_pos (by simpa using hkind)]
      rfl
    · rw [if_neg hkind, List.filter_cons_of_neg (by simpa using hkind)]

end VectorTable

namespace VectorStore

theorem mem_binaryInputs {batch : List VectorPayloadInput} {r : VectorRecord} :
    r ∈ binaryInputs batch ↔
      ∃ input ∈ batch, input.payload.kind = .binary ∧ r = (input.key, input.payload.bytes) := by
  simp only [binaryInputs, List.mem_map, List.mem_filter, decide_eq_true_eq, and_assoc]
  constructor
  · rintro ⟨input, hinput, hkind, rfl⟩
    exact ⟨input, hinput, hkind, rfl⟩
  · rintro ⟨input, hinput, hkind, rfl⟩
    exact ⟨input, hinput, hkind, rfl⟩

theorem keys_dedupLastWins (records : List VectorRecord) (x : VectorRecordKey) :
    x ∈ (dedupLastWins records).map (·.1) ↔ x ∈ records.map (·.1) := by
  induction records with
  | nil => rfl
  | cons r rs ih =>
    rw [dedupLastWins]
    split
    next hmem =>
      rw [ih, List.map_cons, List.mem_cons]
      refine ⟨Or.inr, fun hx => hx.elim (fun heq => ?_) id⟩
      rw [heq]
      exact hmem
    next => rw [List.map_cons, List.map_cons, List.mem_cons, List.mem_cons, ih]

theorem dedupLastWins_nodup (records : List VectorRecord) :
    ((dedupLastWins records).map (·.1)).Nodup := by
  induction records with
  | nil => exact List.nodup_nil
  | cons r rs ih =>
    rw [dedupLastWins]
    split
    next => exact ih
    next hmem =>
      rw [List.map_cons, List.nodup_cons]
      exact ⟨fun hx => hmem ((keys_dedupLastWins rs r.1).mp hx), ih⟩

/-- The last record of each key writes what all the records write. -/
theorem foldl_dedupLastWins (m : Contents) (records : List VectorRecord) :
    (dedupLastWins records).foldl storeRecord m = records.foldl storeRecord m := by
  induction records generalizing m with
  | nil => rfl
  | cons r rs ih =>
    rw [dedupLastWins]
    split
    next hmem =>
      rw [ih, List.foldl_cons]
      apply foldl_storeRecord_congr
      intro x hx
      have hne : x ≠ r.1 := fun heq => hx (heq ▸ hmem)
      rw [storeRecord, Function.update_of_ne hne]
    next => rw [List.foldl_cons, List.foldl_cons, ih]

end VectorStore

end MootMemory
