import MootMemory.ResidentPartitions

namespace MootMemory

/-- Every record of a list fills a slot exactly. -/
def FillsSlots (stride : Nat) (records : List VectorRecord) : Prop :=
  ∀ r ∈ records, r.2.length = stride

theorem FillsSlots.flatMap_length {stride : Nat} {records : List VectorRecord}
    (h : FillsSlots stride records) :
    (records.flatMap (·.2)).length = records.length * stride := by
  induction records with
  | nil => simp
  | cons r rs ih =>
    rw [List.flatMap_cons, List.length_append, h r (by simp), ih fun x hx => h x (by simp [hx]),
      List.length_cons, Nat.succ_mul]
    omega

theorem FillsSlots.sliceAt_flatMap {stride : Nat} {records : List VectorRecord}
    (h : FillsSlots stride records) {i : Nat} {r : VectorRecord} (hr : records[i]? = some r) :
    sliceAt (records.flatMap (·.2)) (i * stride) stride = r.2 := by
  induction records generalizing i with
  | nil => simp at hr
  | cons x xs ih =>
    have hx : x.2.length = stride := h x (by simp)
    cases i with
    | zero =>
      obtain rfl : x = r := by simpa using hr
      simp [sliceAt, hx]
    | succ i =>
      have hrec := ih (fun y hy => h y (by simp [hy])) (by simpa using hr)
      rw [← hrec, List.flatMap_cons, sliceAt, sliceAt, Nat.succ_mul, Nat.add_comm, ← List.drop_drop,
        List.drop_left' hx]

namespace ResidentVectorArray

/-- The array with `words` as its bitset and the partitions built again. -/
def retire (base : ResidentVectorArray) (words : List UInt64) : ResidentVectorArray :=
  { base with modelPartitions := buildPartitions base.keys words, tombstones := words }

/-- The array with `words` as its bitset, padded, and `records` in new slots behind the others. -/
def extend (base : ResidentVectorArray) (words : List UInt64) (records : List VectorRecord) :
    ResidentVectorArray :=
  let keys := base.keys ++ records.map (·.1)
  let tombstones := padWords words ((keys.length + 63) / 64)
  { kind := base.kind
    stride := base.stride
    count := keys.length
    storage := base.storage ++ records.flatMap (·.2)
    keys := keys
    modelPartitions := buildPartitions keys tombstones
    tombstones := tombstones }

@[simp] theorem kind_retire (base : ResidentVectorArray) (words : List UInt64) :
    (base.retire words).kind = base.kind := by rw [retire]

@[simp] theorem stride_retire (base : ResidentVectorArray) (words : List UInt64) :
    (base.retire words).stride = base.stride := by rw [retire]

@[simp] theorem kind_extend (base : ResidentVectorArray) (words : List UInt64)
    (records : List VectorRecord) : (base.extend words records).kind = base.kind := by rw [extend]

@[simp] theorem stride_extend (base : ResidentVectorArray) (words : List UInt64)
    (records : List VectorRecord) : (base.extend words records).stride = base.stride := by rw [extend]

/-- An array as every operation builds it. -/
structure Built (arr : ResidentVectorArray) : Prop extends Sized arr where
  spare : ∀ i, arr.count ≤ i → arr.isTombstoned i = false
  partitions : arr.modelPartitions = buildPartitions arr.keys arr.tombstones

theorem Built.partitioned {arr : ResidentVectorArray} (h : arr.Built) : Partitioned arr :=
  partitioned_of_eq h.keys_length h.partitions

theorem Built.wellFormed {arr : ResidentVectorArray} (h : arr.Built) : WellFormed arr :=
  ⟨h.toSized, h.partitioned.sorted, h.partitioned.bounds, h.partitioned.covered⟩

theorem built_empty (kind : VectorKind) (stride : Nat) : (empty kind stride).Built := by
  refine ⟨⟨by simp [empty], rfl, by simp [empty]⟩, ?_, ?_⟩
  · intro i _
    simp [isTombstoned, empty]
  · simp [empty, buildPartitions, partitionExtents]

theorem filterMap_getElem?_range {α : Type*} (xs : List α) :
    (List.range xs.length).filterMap (fun i => xs[i]?) = xs := by
  induction xs using List.reverseRecOn with
  | nil => rfl
  | append_singleton xs x ih =>
    rw [List.length_append, List.length_singleton, List.range_succ, List.filterMap_append]
    congr 1
    · refine Eq.trans (List.filterMap_congr ?_) ih
      intro i hi
      exact List.getElem?_append_left (List.mem_range.mp hi)
    · simp

theorem Built.retire {base : ResidentVectorArray} (h : base.Built) {words : List UInt64}
    (hlen : words.length = base.tombstones.length)
    (hspare : ∀ i, base.count ≤ i → wordsBit words i = false) : (base.retire words).Built :=
  ⟨⟨h.storage_length, h.keys_length, hlen.trans h.tombstones_length⟩, hspare, rfl⟩

theorem Built.extend {base : ResidentVectorArray} (h : base.Built) {words : List UInt64}
    {records : List VectorRecord} (hlen : words.length = base.tombstones.length)
    (hspare : ∀ i, base.count ≤ i → wordsBit words i = false)
    (hfill : FillsSlots base.stride records) : (base.extend words records).Built := by
  have hkeys := h.keys_length
  have hstorage := h.storage_length
  have hwords := h.tombstones_length
  refine ⟨⟨?_, rfl, ?_⟩, ?_, rfl⟩
  · simp only [ResidentVectorArray.extend, List.length_append, List.length_map, hkeys, hstorage,
      hfill.flatMap_length, Nat.add_mul]
  · simp only [ResidentVectorArray.extend, length_padWords, List.length_append, List.length_map]
    omega
  · intro i hi
    simp only [isTombstoned, ResidentVectorArray.extend, wordsBit_padWords, List.length_append,
      List.length_map] at hi ⊢
    exact hspare i (by omega)

/-- Setting the bits of the slots with matching keys removes their records. -/
theorem liveRecords_retire {base : ResidentVectorArray} {words : List UInt64}
    {p : VectorRecordKey → Bool}
    (hbits : ∀ i, i < base.count →
      wordsBit words i = (base.isTombstoned i || base.keys[i]?.any p)) :
    (base.retire words).liveRecords = base.liveRecords.filter fun r => !p r.1 := by
  rw [liveRecords, liveRecords, List.filter_filterMap]
  apply List.filterMap_congr
  intro i hi
  have hbit := hbits i (List.mem_range.mp hi)
  have hdead : (base.retire words).isTombstoned i = wordsBit words i := rfl
  have hrec : (base.retire words).slotRecord i = base.slotRecord i := rfl
  simp only [liveSlot, hdead, hbit, hrec]
  cases hd : base.isTombstoned i with
  | true => simp
  | false =>
    cases hk : base.keys[i]? with
    | none => simp [slotRecord, hk]
    | some key => cases hp : p key <;> simp [slotRecord, hk, hp, Option.filter]

/-- New slots hold the new records, and the old slots are as before. -/
theorem liveRecords_extend {base : ResidentVectorArray} {words : List UInt64}
    {records : List VectorRecord} (hk : base.keys.length = base.count)
    (hs : base.storage.length = base.count * base.stride)
    (hspare : ∀ i, base.count ≤ i → wordsBit words i = false)
    (hfill : FillsSlots base.stride records) :
    (base.extend words records).liveRecords = (base.retire words).liveRecords ++ records := by
  have hcount : (base.extend words records).count = base.count + records.length := by
    simp [ResidentVectorArray.extend, hk]
  rw [liveRecords, hcount, List.range_add, List.filterMap_append, List.filterMap_map]
  congr 1
  · apply List.filterMap_congr
    intro i hi
    have hi : i < base.count := List.mem_range.mp hi
    have hend := slot_end_le base.stride hi
    simp only [liveSlot, isTombstoned, slotRecord, ResidentVectorArray.extend,
      ResidentVectorArray.retire, wordsBit_padWords, sliceAt]
    rw [List.getElem?_append_left (by omega), List.drop_append_of_le_length (by omega),
      List.take_append_of_le_length (by simp; omega)]
    rfl
  · refine Eq.trans (List.filterMap_congr ?_) (filterMap_getElem?_range records)
    intro j hj
    obtain ⟨r, hr⟩ : ∃ r, records[j]? = some r :=
      ⟨_, List.getElem?_eq_getElem (List.mem_range.mp hj)⟩
    have hlive : (base.extend words records).isTombstoned (base.count + j) = false := by
      simp only [isTombstoned, ResidentVectorArray.extend, wordsBit_padWords]
      exact hspare _ (by omega)
    have hkey : (base.extend words records).keys[base.count + j]? = some r.1 := by
      rw [ResidentVectorArray.extend, ← hk, List.getElem?_append_right (by omega),
        Nat.add_sub_cancel_left, List.getElem?_map, hr]
      rfl
    have hbytes : sliceAt (base.storage ++ records.flatMap (·.2)) ((base.count + j) * base.stride)
        base.stride = r.2 := by
      rw [← hfill.sliceAt_flatMap hr, Nat.add_mul, sliceAt, sliceAt, ← hs, ← List.drop_drop,
        List.drop_left]
    simp only [Function.comp_apply, liveSlot, hlive, slotRecord, hkey, hr]
    simp only [ResidentVectorArray.extend, hbytes]
    simp

theorem liveCount_eq {arr : ResidentVectorArray} (hk : arr.keys.length = arr.count) :
    arr.liveCount = arr.liveRecords.length := by
  rw [liveCount, liveRecords, List.length_filterMap_eq_countP, ← List.countP_eq_length_filter]
  apply List.countP_congr
  intro i hi
  obtain ⟨key, hkey, _⟩ := Sized.keyAt_eq hk (List.mem_range.mp hi)
  cases hd : arr.isTombstoned i <;> simp [liveSlot, slotRecord, hd, hkey]

section Mark

variable {base : ResidentVectorArray} {p : VectorRecordKey → Bool}

/-- The bitset after the loop that retires the slots with matching keys. -/
def marked (base : ResidentVectorArray) (p : VectorRecordKey → Bool) : List UInt64 :=
  (markedWords base.keys base.tombstones p base.count).1

theorem wordsBit_marked {i : Nat} (hi : i < base.count) :
    wordsBit (base.marked p) i = (base.isTombstoned i || base.keys[i]?.any p) := by
  rw [marked, wordsBit_markedWords, decide_eq_true hi, Bool.true_and, isTombstoned]

theorem wordsBit_marked_spare (h : base.Built) {i : Nat} (hi : base.count ≤ i) :
    wordsBit (base.marked p) i = false := by
  have hspare := h.spare i hi
  rw [isTombstoned] at hspare
  simp [marked, wordsBit_markedWords, hspare, show ¬i < base.count by omega]

theorem length_marked (h : base.Built) : (base.marked p).length = base.tombstones.length :=
  length_markedWords _ _ _ (by rw [h.tombstones_length])

theorem Built.retireMarked (h : base.Built) : (base.retire (base.marked p)).Built :=
  h.retire (length_marked h) fun _ hi => wordsBit_marked_spare h hi

theorem Built.extendMarked (h : base.Built) {records : List VectorRecord}
    (hfill : FillsSlots base.stride records) : (base.extend (base.marked p) records).Built :=
  h.extend (length_marked h) (fun _ hi => wordsBit_marked_spare h hi) hfill

theorem liveRecords_retireMarked :
    (base.retire (base.marked p)).liveRecords = base.liveRecords.filter fun r => !p r.1 :=
  liveRecords_retire fun _ hi => wordsBit_marked hi

theorem liveRecords_extendMarked (h : base.Built) {records : List VectorRecord}
    (hfill : FillsSlots base.stride records) :
    (base.extend (base.marked p) records).liveRecords =
      base.liveRecords.filter (fun r => !p r.1) ++ records := by
  rw [liveRecords_extend h.keys_length h.storage_length
    (fun _ hi => wordsBit_marked_spare h hi) hfill, liveRecords_retireMarked]

/-- Without a match the bitset stays as it is. -/
theorem marked_of_unchanged (h : base.keys.any p = false) : base.marked p = base.tombstones := by
  rw [marked]
  induction base.count with
  | zero => rfl
  | succ n ih =>
    have hnone : base.keys[n]?.any p = false := by
      cases hk : base.keys[n]? with
      | none => rfl
      | some key => exact List.any_eq_false.mp h key (List.mem_of_getElem? hk) |> Bool.eq_false_iff.mpr
    rw [markedWords_succ, hnone]
    exact ih

end Mark

section Append

variable {base : ResidentVectorArray}

theorem Built.append (h : base.Built) {records : List VectorRecord}
    (hfill : FillsSlots base.stride records) : (base.extend base.tombstones records).Built :=
  h.extend rfl (fun i hi => h.spare i hi) hfill

theorem liveRecords_append (h : base.Built) {records : List VectorRecord}
    (hfill : FillsSlots base.stride records) :
    (base.extend base.tombstones records).liveRecords = base.liveRecords ++ records := by
  rw [liveRecords_extend h.keys_length h.storage_length (fun i hi => h.spare i hi) hfill]
  rfl

end Append

/-- An array of the given records in fresh slots. -/
def ofRecords (kind : VectorKind) (stride : Nat) (records : List VectorRecord) :
    ResidentVectorArray :=
  (empty kind stride).extend [] records

@[simp] theorem kind_ofRecords (kind : VectorKind) (stride : Nat) (records : List VectorRecord) :
    (ofRecords kind stride records).kind = kind := by rw [ofRecords, kind_extend, empty]

@[simp] theorem stride_ofRecords (kind : VectorKind) (stride : Nat) (records : List VectorRecord) :
    (ofRecords kind stride records).stride = stride := by rw [ofRecords, stride_extend, empty]

theorem built_ofRecords (kind : VectorKind) {stride : Nat} {records : List VectorRecord}
    (hfill : FillsSlots stride records) : (ofRecords kind stride records).Built :=
  (built_empty kind stride).append hfill

theorem liveRecords_ofRecords (kind : VectorKind) {stride : Nat} {records : List VectorRecord}
    (hfill : FillsSlots stride records) : (ofRecords kind stride records).liveRecords = records := by
  have h := liveRecords_append (built_empty kind stride) hfill
  exact h

end ResidentVectorArray

end MootMemory
