import MootMemory.ResidentStoreEffects
import MootMemory.SidecarParse
import Mathlib.Data.Multiset.Filter

namespace MootMemory

open ResidentVectorArray

inductive StoreOp where
  | append (key : VectorRecordKey) (bytes : List UInt8)
  | appendDeferred (key : VectorRecordKey) (bytes : List UInt8)
  | appendBatch (records : List VectorRecord)
  | tombstone (key : VectorRecordKey)
  | tombstoneDeferred (keys : List VectorRecordKey)
  | flush
  | compact
  | rebuildFrom (records : List VectorRecord)

namespace StoreOp

def run : StoreOp → EStateM Fault ResidentArrayStore Unit
  | append key bytes => ResidentArrayStore.append key bytes
  | appendDeferred key bytes => ResidentArrayStore.appendDeferred key bytes
  | appendBatch records => ResidentArrayStore.appendBatch records
  | tombstone key => ResidentArrayStore.tombstone key
  | tombstoneDeferred keys => ResidentArrayStore.tombstoneDeferred keys
  | flush => ResidentArrayStore.flush
  | compact => ResidentArrayStore.compact
  | rebuildFrom records => ResidentArrayStore.rebuildFrom records

instance (stride : Nat) (records : List VectorRecord) : Decidable (FillsSlots stride records) :=
  inferInstanceAs (Decidable (∀ r ∈ records, r.2.length = stride))

/-- The records that an operation puts into new slots; a record of another length is refused. -/
def records (stride : Nat) : StoreOp → List VectorRecord
  | append key bytes => if bytes.length = stride then [(key, bytes)] else []
  | appendDeferred key bytes => if bytes.length = stride then [(key, bytes)] else []
  | appendBatch records => if FillsSlots stride records then records else []
  | rebuildFrom records => records
  | _ => []

/-- The operation on the multiset of records. -/
def apply (stride : Nat) (op : StoreOp) (live : Multiset VectorRecord) : Multiset VectorRecord :=
  match op with
  | rebuildFrom records => records
  | tombstone key => live.filter fun r => r.1 ≠ key
  | tombstoneDeferred keys => live.filter fun r => r.1 ∉ keys
  | op => live + op.records stride

/-- The number of slots an operation leaves at most. -/
def slots (arr : ResidentVectorArray) : StoreOp → Nat
  | rebuildFrom records => records.length
  | op => arr.count + (op.records arr.stride).length

/-- The records that replace the array fill their slots, and the sizes fit the fields of the file. -/
structure Meets (op : StoreOp) (arr : ResidentVectorArray) : Prop where
  fills : ∀ records, op = rebuildFrom records → FillsSlots arr.stride records
  stride : arr.stride < 2 ^ 32
  slots : op.slots arr < 2 ^ 32
  keys : ∀ r ∈ op.records arr.stride, KeyFits r.1

end StoreOp

/-- The states that a run reaches; a call that panics ends it. -/
inductive StoreRun (meets : StoreOp → ResidentVectorArray → Prop) (start : ResidentArrayStore) :
    List StoreOp → ResidentArrayStore → Prop where
  | nil : StoreRun meets start [] start
  | step {ops : List StoreOp} {s s' : ResidentArrayStore} {op : StoreOp}
      (before : StoreRun meets start ops s) (hmeets : meets op s.array)
      (hrun : ResidentArrayStore.endState op.run s = some s') : StoreRun meets start (ops ++ [op]) s'

namespace ResidentArrayStore

/-- What every step preserves. -/
structure Inv (s : ResidentArrayStore) : Prop where
  built : s.array.Built
  count : s.array.count < 2 ^ 32
  keys : ∀ key ∈ s.array.keys, KeyFits key
  saved : s.isDirty = false → 0 < s.sidecarWriteCount → s.OnDisk ∧ s.array.stride < 2 ^ 32
  faults : s.faults = []

theorem inv_new (file : Option (List UInt8)) (kind : VectorKind) (stride : Nat)
    (exceeds : Nat → Nat → Bool) : (new file kind stride exceeds).Inv := by
  refine ⟨built_empty kind stride, ?_, ?_, ?_, rfl⟩
  · simp [new, empty]
  · simp [new, empty]
  · intro _ h
    simp [new] at h

variable {s s' : ResidentArrayStore}

theorem Inv.of_wrote (h : s.Inv) {arr : ResidentVectorArray} (hwrote : Wrote s arr s')
    (hcount : arr.count < 2 ^ 32) (hkeys : ∀ key ∈ arr.keys, KeyFits key)
    (hshape : arr.stride = s.array.stride) (hstride : s.array.stride < 2 ^ 32) : s'.Inv := by
  refine ⟨hwrote.repacked.built, lt_of_le_of_lt hwrote.repacked.count hcount,
    fun key hk => hkeys key (hwrote.repacked.keys key hk), fun _ _ => ⟨hwrote.onDisk, ?_⟩,
    hwrote.faults h.faults⟩
  rw [hwrote.repacked.stride, hshape]
  exact hstride

theorem Inv.deferred (h : s.Inv) {arr : ResidentVectorArray} (hbuilt : arr.Built)
    (hcount : arr.count < 2 ^ 32) (hkeys : ∀ key ∈ arr.keys, KeyFits key) :
    Inv { s with array := arr, isDirty := true } :=
  ⟨hbuilt, hcount, hkeys, fun hdirty => (by cases hdirty), h.faults⟩

/-- An array with new slots for `records` fits when the old array and the records do. -/
theorem extend_fits (h : s.Inv) {records : List VectorRecord}
    (hslots : s.array.count + records.length < 2 ^ 32) (hkeys : ∀ r ∈ records, KeyFits r.1) :
    (s.array.extend s.array.tombstones records).count < 2 ^ 32 ∧
      ∀ key ∈ (s.array.extend s.array.tombstones records).keys, KeyFits key := by
  constructor
  · simpa [extend, h.built.keys_length] using hslots
  · intro key hkey
    rcases List.mem_append.mp hkey with hkey | hkey
    · exact h.keys key hkey
    · obtain ⟨r, hr, rfl⟩ := List.mem_map.mp hkey
      exact hkeys r hr

/-- The invariant and the records of the state after `op`. -/
def Steps (op : StoreOp) (s s' : ResidentArrayStore) : Prop :=
  s'.Inv ∧ s'.array.stride = s.array.stride ∧
    (s'.array.liveRecords : Multiset VectorRecord) = op.apply s.array.stride s.array.liveRecords

theorem coe_append (xs ys : List VectorRecord) :
    ((xs ++ ys : List VectorRecord) : Multiset VectorRecord) = ↑xs + ↑ys :=
  (Multiset.coe_add xs ys).symm

theorem steps_append {key : VectorRecordKey} {bytes : List UInt8} (h : s.Inv)
    (hmeets : (StoreOp.append key bytes).Meets s.array)
    (hrun : endState (append key bytes) s = some s') : Steps (.append key bytes) s s' := by
  by_cases hlen : bytes.length = s.array.stride
  · rw [endState_congr ((append_eq key bytes).trans (if_pos hlen))] at hrun
    have hfill : FillsSlots s.array.stride [(key, bytes)] := by simpa [FillsSlots] using hlen
    have hrecords : (StoreOp.append key bytes).records s.array.stride = [(key, bytes)] := if_pos hlen
    have hslots := hmeets.slots
    have hkeys := hmeets.keys
    rw [hrecords] at hkeys
    simp only [StoreOp.slots, hrecords] at hslots
    obtain ⟨hcount, hkeys⟩ := extend_fits h hslots hkeys
    have hwrote := persistAndCompact_end (h.built.append hfill) h.faults hrun
    have hstride : s'.array.stride = s.array.stride := hwrote.repacked.stride.trans (stride_extend _ _ _)
    refine ⟨h.of_wrote hwrote hcount hkeys (stride_extend _ _ _) hmeets.stride, hstride, ?_⟩
    rw [Multiset.coe_eq_coe.mpr hwrote.repacked.live, liveRecords_append h.built hfill, coe_append]
    simp only [StoreOp.apply, hrecords]
  · rw [endState_error ((append_eq key bytes).trans (if_neg hlen))] at hrun
    cases hrun
    refine ⟨h, rfl, ?_⟩
    simp [StoreOp.apply, StoreOp.records, hlen]

theorem steps_appendDeferred {key : VectorRecordKey} {bytes : List UInt8} (h : s.Inv)
    (hmeets : (StoreOp.appendDeferred key bytes).Meets s.array)
    (hrun : endState (appendDeferred key bytes) s = some s') :
    Steps (.appendDeferred key bytes) s s' := by
  by_cases hlen : bytes.length = s.array.stride
  · rw [endState_ok ((appendDeferred_eq key bytes).trans (if_pos hlen))] at hrun
    cases hrun
    have hfill : FillsSlots s.array.stride [(key, bytes)] := by simpa [FillsSlots] using hlen
    have hrecords : (StoreOp.appendDeferred key bytes).records s.array.stride = [(key, bytes)] :=
      if_pos hlen
    have hslots := hmeets.slots
    have hkeys := hmeets.keys
    rw [hrecords] at hkeys
    simp only [StoreOp.slots, hrecords] at hslots
    obtain ⟨hcount, hkeys⟩ := extend_fits h hslots hkeys
    refine ⟨h.deferred (h.built.append hfill) hcount hkeys, rfl, ?_⟩
    simp only [StoreOp.apply, hrecords, appendingArray, liveRecords_append h.built hfill, coe_append]
  · rw [endState_error ((appendDeferred_eq key bytes).trans (if_neg hlen))] at hrun
    cases hrun
    refine ⟨h, rfl, ?_⟩
    simp [StoreOp.apply, StoreOp.records, hlen]

theorem steps_appendBatch {records : List VectorRecord} (h : s.Inv)
    (hmeets : (StoreOp.appendBatch records).Meets s.array)
    (hrun : endState (appendBatch records) s = some s') : Steps (.appendBatch records) s s' := by
  by_cases hfill : FillsSlots s.array.stride records
  · have hrecords : (StoreOp.appendBatch records).records s.array.stride = records := if_pos hfill
    by_cases hnil : records = []
    · subst hnil
      cases hrun
      exact ⟨h, rfl, by simp [StoreOp.apply, hrecords]⟩
    have hslots := hmeets.slots
    have hkeys := hmeets.keys
    rw [hrecords] at hkeys
    simp only [StoreOp.slots, hrecords] at hslots
    obtain ⟨hcount, hkeys⟩ := extend_fits h hslots hkeys
    rw [endState_congr (appendBatch_of_fills hnil hfill)] at hrun
    have hwrote := persistAndCompact_end (h.built.append hfill) h.faults hrun
    have hstride : s'.array.stride = s.array.stride := hwrote.repacked.stride.trans (stride_extend _ _ _)
    refine ⟨h.of_wrote hwrote hcount hkeys (stride_extend _ _ _) hmeets.stride, hstride, ?_⟩
    rw [Multiset.coe_eq_coe.mpr hwrote.repacked.live, liveRecords_append h.built hfill, coe_append]
    simp only [StoreOp.apply, hrecords]
  · obtain ⟨text, herr⟩ := appendBatch_of_not_fills hfill
    rw [endState_error herr] at hrun
    cases hrun
    refine ⟨h, rfl, ?_⟩
    simp [StoreOp.apply, StoreOp.records, hfill]

theorem steps_tombstone {key : VectorRecordKey} (h : s.Inv)
    (hmeets : (StoreOp.tombstone key).Meets s.array)
    (hrun : endState (tombstone key) s = some s') : Steps (.tombstone key) s s' := by
  have hlive : (Multiset.filter (fun r : VectorRecord => r.1 ≠ key) s.array.liveRecords) =
      ↑(s.array.liveRecords.filter fun r => !decide (r.1 = key)) := by
    rw [Multiset.filter_coe]
    simp
  have heq := tombstone_eq h.built.keys_length key
  by_cases hany : s.array.keys.any (· = key)
  · rw [endState_congr (heq.trans (if_pos hany))] at hrun
    have hwrote := persistAndCompact_end (h.built.retireMarked (p := (· = key))) h.faults hrun
    have hstride : s'.array.stride = s.array.stride := hwrote.repacked.stride.trans (stride_retire _ _)
    refine ⟨h.of_wrote hwrote h.count h.keys (stride_retire _ _) hmeets.stride, hstride, ?_⟩
    rw [Multiset.coe_eq_coe.mpr hwrote.repacked.live, liveRecords_retireMarked]
    exact hlive.symm
  · rw [endState_ok (heq.trans (if_neg hany))] at hrun
    cases hrun
    refine ⟨h, rfl, ?_⟩
    have hsame := filter_liveRecords_of_not_any hany
    exact (hlive.trans (congrArg _ hsame)).symm

theorem steps_tombstoneDeferred {keys : List VectorRecordKey} (h : s.Inv)
    (hrun : endState (tombstoneDeferred keys) s = some s') :
    Steps (.tombstoneDeferred keys) s s' := by
  have hlive : (Multiset.filter (fun r : VectorRecord => r.1 ∉ keys) s.array.liveRecords) =
      ↑(s.array.liveRecords.filter fun r => !decide (r.1 ∈ keys)) := by
    rw [Multiset.filter_coe]
    simp
  have heq := tombstoneDeferred_eq h.built.keys_length keys
  by_cases hany : s.array.keys.any (· ∈ keys)
  · rw [endState_ok (heq.trans (if_pos hany))] at hrun
    cases hrun
    refine ⟨h.deferred (h.built.retireMarked (p := (· ∈ keys))) h.count h.keys, rfl, ?_⟩
    rw [liveRecords_retireMarked]
    exact hlive.symm
  · rw [endState_ok (heq.trans (if_neg hany))] at hrun
    cases hrun
    refine ⟨h, rfl, ?_⟩
    have hsame := filter_liveRecords_of_not_any hany
    exact (hlive.trans (congrArg _ hsame)).symm

theorem steps_flush (h : s.Inv) (hmeets : StoreOp.flush.Meets s.array)
    (hrun : endState flush s = some s') : Steps .flush s s' := by
  by_cases hdirty : s.isDirty
  · rw [endState_congr (flush_eq.trans (if_pos hdirty))] at hrun
    have hwrote := persistAndCompact_end h.built h.faults hrun
    refine ⟨h.of_wrote hwrote h.count h.keys rfl hmeets.stride, hwrote.repacked.stride, ?_⟩
    rw [Multiset.coe_eq_coe.mpr hwrote.repacked.live]
    simp [StoreOp.apply, StoreOp.records]
  · rw [endState_ok (flush_eq.trans (if_neg hdirty))] at hrun
    cases hrun
    exact ⟨h, rfl, by simp [StoreOp.apply, StoreOp.records]⟩

theorem steps_compact (h : s.Inv) (hmeets : StoreOp.compact.Meets s.array)
    (hrun : endState compact s = some s') : Steps .compact s s' := by
  rw [endState_congr (compact_eq h.built.toSized)] at hrun
  have hpacked := repacked_packed h.built
  have hwrote := persist_end hpacked.built h.faults hrun
  refine ⟨h.of_wrote hwrote (lt_of_le_of_lt hpacked.count h.count)
    (fun key hk => h.keys key (hpacked.keys key hk)) hpacked.stride hmeets.stride,
    hwrote.repacked.stride.trans hpacked.stride, ?_⟩
  rw [Multiset.coe_eq_coe.mpr (hwrote.repacked.live.trans hpacked.live)]
  simp [StoreOp.apply, StoreOp.records]

theorem steps_rebuildFrom {records : List VectorRecord} (h : s.Inv)
    (hmeets : (StoreOp.rebuildFrom records).Meets s.array)
    (hrun : endState (rebuildFrom records) s = some s') : Steps (.rebuildFrom records) s s' := by
  have hfill := hmeets.fills records rfl
  rw [endState_congr (rebuildFrom_eq records)] at hrun
  have hwrote := persist_end (built_ofRecords s.array.kind hfill) h.faults hrun
  have hkeys : (ofRecords s.array.kind s.array.stride records).keys = records.map (·.1) := by
    simp [ofRecords, extend, empty]
  have hstride : s'.array.stride = s.array.stride :=
    hwrote.repacked.stride.trans (stride_ofRecords _ _ _)
  refine ⟨h.of_wrote hwrote ?_ ?_ (stride_ofRecords _ _ _) hmeets.stride, hstride, ?_⟩
  · have hslots := hmeets.slots
    simpa [ofRecords, extend, empty, StoreOp.slots] using hslots
  · intro key hk
    rw [hkeys] at hk
    obtain ⟨r, hr, rfl⟩ := List.mem_map.mp hk
    exact hmeets.keys r hr
  · rw [Multiset.coe_eq_coe.mpr hwrote.repacked.live, liveRecords_ofRecords _ hfill]
    rfl

theorem Inv.step {op : StoreOp} (h : s.Inv) (hmeets : op.Meets s.array)
    (hrun : endState op.run s = some s') : Steps op s s' := by
  cases op with
  | append key bytes => exact steps_append h hmeets hrun
  | appendDeferred key bytes => exact steps_appendDeferred h hmeets hrun
  | appendBatch records => exact steps_appendBatch h hmeets hrun
  | tombstone key => exact steps_tombstone h hmeets hrun
  | tombstoneDeferred keys => exact steps_tombstoneDeferred h hrun
  | flush => exact steps_flush h hmeets hrun
  | compact => exact steps_compact h hmeets hrun
  | rebuildFrom records => exact steps_rebuildFrom h hmeets hrun

theorem Inv.fieldsFit (h : s.Inv) (hstride : s.array.stride < 2 ^ 32) : FieldsFit s.array := by
  have hwords := h.built.tombstones_length
  have hcount := h.count
  refine ⟨hstride, hcount, by omega, h.keys, ?_⟩
  intro p hp
  have hbounds := h.built.partitioned.bounds p hp
  rw [h.built.partitions] at hp
  obtain ⟨lo, _, hlo, _⟩ := mem_buildPartitions.mp hp
  obtain ⟨key, hkey, hid⟩ := exists_key_of_lookup hlo
  exact ⟨by rw [← hid]; exact (h.keys key hkey).modelId, by omega, by omega⟩

theorem Inv.partitions_length (h : s.Inv) : s.array.modelPartitions.length < 2 ^ 32 := by
  have hle := buildPartitions_length_le s.array.keys s.array.tombstones
  rw [h.built.partitions]
  have hkeys := h.built.keys_length
  have hcount := h.count
  omega

/-- The file that a clean store wrote parses to the array in memory. -/
theorem Inv.parse_file (h : s.Inv) (hclean : s.isDirty = false) (hwritten : 0 < s.sidecarWriteCount) :
    ∃ data, s.file = some data ∧ parseSidecar data = .ok s.array := by
  obtain ⟨hdisk, hstride⟩ := h.saved hclean hwritten
  refine ⟨sidecarBytes s.array, hdisk.file, ?_⟩
  exact (parseSidecar_ok ⟨_, hdisk.size⟩).mpr
    ⟨_, laysOut_sidecarBytes h.built.toSized (h.fieldsFit hstride) h.partitions_length⟩

end ResidentArrayStore

open ResidentArrayStore

/-- The records after a run of operations on an empty multiset. -/
def specRun (stride : Nat) (ops : List StoreOp) : Multiset VectorRecord :=
  ops.foldl (fun live op => op.apply stride live) 0

theorem StoreRun.inv {start s : ResidentArrayStore} {ops : List StoreOp} (hstart : start.Inv)
    (hempty : start.array.liveRecords = []) (h : StoreRun StoreOp.Meets start ops s) :
    s.Inv ∧ s.array.stride = start.array.stride ∧
      (s.array.liveRecords : Multiset VectorRecord) = specRun start.array.stride ops := by
  induction h with
  | nil => exact ⟨hstart, rfl, by rw [hempty]; rfl⟩
  | step before hmeets hrun ih =>
    obtain ⟨hinv, hstride, hlive⟩ := ih
    obtain ⟨hinv', hstride', hlive'⟩ := hinv.step hmeets hrun
    refine ⟨hinv', hstride'.trans hstride, ?_⟩
    rw [hlive', hlive, hstride, specRun, specRun, List.foldl_append]
    rfl

/-- The four promises of the store after a run. -/
structure Refines (stride : Nat) (ops : List StoreOp) (s : ResidentArrayStore) : Prop where
  wellFormed : WellFormed s.array
  live : (s.array.liveRecords : Multiset VectorRecord) = specRun stride ops
  covers : ∀ i key, i < s.array.count → s.array.keys[i]? = some key →
    s.array.isTombstoned i = false →
    ∃ lo hi, s.array.partitionRange key.modelId = some (lo, hi) ∧ lo ≤ i ∧ i < hi
  onDisk : s.isDirty = false → 0 < s.sidecarWriteCount →
    ∃ data, s.file = some data ∧ parseSidecar data = .ok s.array

/-- A store that is only rebuilt from records that fill its slots refines a multiset of records. -/
theorem storeRun_refines {file : Option (List UInt8)} {kind : VectorKind} {stride : Nat}
    {exceeds : Nat → Nat → Bool} {ops : List StoreOp} {s : ResidentArrayStore}
    (h : StoreRun StoreOp.Meets (new file kind stride exceeds) ops s) : Refines stride ops s := by
  obtain ⟨hinv, _, hlive⟩ := h.inv (inv_new file kind stride exceeds) rfl
  refine ⟨hinv.built.wellFormed, hlive, ?_, hinv.parse_file⟩
  intro i key hi hkey hdead
  obtain ⟨lo, hi', hrange, hlo, hlt, _⟩ := hinv.built.partitioned.covers hi hkey hdead
  exact ⟨lo, hi', hrange, hlo, hlt⟩

instance (key : VectorRecordKey) : Decidable (KeyFits key) :=
  decidable_of_iff ((strBytes key.itemId).length < 2 ^ 32 ∧ (strBytes key.modelId).length < 2 ^ 32 ∧
    (strBytes key.modelVersion).length < 2 ^ 32)
    ⟨fun h => ⟨h.1, h.2.1, h.2.2⟩, fun h => ⟨h.itemId, h.modelId, h.modelVersion⟩⟩

def emptyStore : ResidentArrayStore :=
  new none .binary 2 fun dead count => decide (count < 2 * dead)

/-- The store an operation ends in, unless it panics. -/
def storeAfter (s : ResidentArrayStore) (op : StoreOp) : ResidentArrayStore :=
  (endState op.run s).getD s

theorem StoreRun.ended {meets : StoreOp → ResidentVectorArray → Prop}
    {start s : ResidentArrayStore} {ops : List StoreOp} (h : StoreRun meets start ops s)
    (op : StoreOp) (hmeets : meets op s.array)
    (hends : (endState op.run s).isSome = true) :
    StoreRun meets start (ops ++ [op]) (storeAfter s op) := by
  obtain ⟨s', hs'⟩ := Option.isSome_iff_exists.mp hends
  refine h.step hmeets ?_
  rw [storeAfter, hs']
  rfl

def wrapKey (itemId : String) : VectorRecordKey := ⟨itemId, 0, "m", "1"⟩

/-- A store is built from two records, of which one is deleted before a third is written. -/
def rewriting : List StoreOp :=
  [.rebuildFrom [(wrapKey "a", [7, 9]), (wrapKey "b", [1, 2])], .tombstone (wrapKey "a"),
    .append (wrapKey "c") [3, 4]]

theorem storeRun_refines_rewriting :
    Refines 2 rewriting (rewriting.foldl storeAfter emptyStore) ∧
      (rewriting.foldl storeAfter emptyStore).array.liveRecords =
        [(wrapKey "b", [1, 2]), (wrapKey "c", [3, 4])] ∧
      (rewriting.foldl storeAfter emptyStore).sidecarWriteCount = 3 := by
  have hstart : StoreRun StoreOp.Meets emptyStore [] emptyStore := .nil
  have hbuilt := hstart.ended (.rebuildFrom [(wrapKey "a", [7, 9]), (wrapKey "b", [1, 2])])
    ⟨by rintro records ⟨⟩; decide, by decide, by decide, by decide +kernel⟩ (by decide +kernel)
  have hdeleted := hbuilt.ended (.tombstone (wrapKey "a"))
    ⟨fun records hop => (by cases hop), by decide +kernel, by decide +kernel, by decide +kernel⟩
    (by decide +kernel)
  have hwritten := hdeleted.ended (.append (wrapKey "c") [3, 4])
    ⟨fun records hop => (by cases hop), by decide +kernel, by decide +kernel, by decide +kernel⟩
    (by decide +kernel)
  refine ⟨?_, by decide +kernel, by decide +kernel⟩
  rw [rewriting, List.foldl_cons, List.foldl_cons, List.foldl_cons, List.foldl_nil]
  exact @storeRun_refines none .binary 2 (fun dead count => decide (count < 2 * dead)) _ _ hwritten

/-- Rebuilt from a record of no bytes, the store holds a slot without storage. -/
theorem not_storeRun_refines :
    ¬ ∀ (ops : List StoreOp) (s : ResidentArrayStore),
      StoreRun (fun _ _ => True) (newBinary none) ops s → Refines 32 ops s := by
  intro h
  have hsize : (sidecarBytes (.ofRecords .binary 32 [(⟨"a", 0, "m", "1"⟩, [])])).length < 2 ^ 63 := by
    decide +kernel
  have hrun : endState (StoreOp.run (.rebuildFrom [(⟨"a", 0, "m", "1"⟩, [])])) (newBinary none) =
      some (saved (newBinary none) (.ofRecords .binary 32 [(⟨"a", 0, "m", "1"⟩, [])])) :=
    endState_ok ((rebuildFrom_eq _).trans (persist_of_fits rfl hsize))
  have hrefines := h _ _ (.step .nil trivial hrun)
  exact absurd hrefines.wellFormed.storage_length (by decide +kernel)

end MootMemory
