import MootMemory.ResidentStoreEffects
import MootMemory.VectorContents

namespace MootMemory.ResidentArrayStore

open ResidentVectorArray

/-- The live slots of the store are 32-byte codes that hold a map. -/
structure Holds (store : ResidentArrayStore) (m : Contents) : Prop where
  built : store.array.Built
  kind : store.array.kind = .binary
  stride : store.array.stride = 32
  live : Represents store.array.liveRecords m

variable {store store' : ResidentArrayStore} {m : Contents}

theorem Holds.fillsSlots (h : store.Holds m) : FillsSlots 32 store.array.liveRecords := by
  have hfill := h.built.toSized.fillsSlots
  rwa [h.stride] at hfill

theorem Holds.fills (h : store.Holds m) : m.Fills :=
  fun x v hx => h.fillsSlots (x, v) (h.live.mem.mpr hx)

theorem Holds.liveCount (h : store.Holds m) :
    store.array.liveCount = store.array.liveRecords.length := liveCount_eq h.built.keys_length

/-- What a write leaves in place of the array `arr`. -/
theorem Wrote.holds {arr : ResidentVectorArray} (h : Wrote store arr store') (hkind : arr.kind = .binary)
    (hstride : arr.stride = 32) (hlive : Represents arr.liveRecords m) : store'.Holds m :=
  ⟨h.repacked.built, h.repacked.kind.trans hkind, h.repacked.stride.trans hstride,
    hlive.of_perm h.repacked.live.symm⟩

theorem represents_retireMarked {arr : ResidentVectorArray} (hlive : Represents arr.liveRecords m)
    (p : VectorRecordKey → Bool) :
    Represents (arr.retire (arr.marked p)).liveRecords (m.drop p) := by
  rw [liveRecords_retireMarked]
  have hdrop : m.drop p = fun x => if !p x then m x else none := by
    funext x
    rw [Contents.drop]
    cases p x <;> rfl
  rw [hdrop]
  exact hlive.filter fun x => !p x

/-- Keys that no slot has can be dropped for nothing. -/
theorem drop_eq_self {arr : ResidentVectorArray} (hlive : Represents arr.liveRecords m)
    {p : VectorRecordKey → Bool} (hany : ¬arr.keys.any p) : m.drop p = m := by
  have hsame := filter_liveRecords_of_not_any hany
  have hdrop := represents_retireMarked hlive p
  rw [liveRecords_retireMarked, hsame] at hdrop
  exact hdrop.map.symm.trans hlive.map

theorem Holds.tombstoneDeferred (h : store.Holds m) {keys : List VectorRecordKey}
    (hrun : tombstoneDeferred keys store = .ok () store') : store'.Holds (m.drop (· ∈ keys)) := by
  rw [tombstoneDeferred_eq h.built.keys_length] at hrun
  by_cases hany : store.array.keys.any (· ∈ keys)
  · rw [if_pos hany] at hrun
    cases hrun
    exact ⟨h.built.retireMarked, h.kind, h.stride, represents_retireMarked h.live _⟩
  · rw [if_neg hany] at hrun
    cases hrun
    rw [drop_eq_self h.live hany]
    exact h

theorem Holds.tombstone (h : store.Holds m) {key : VectorRecordKey}
    (hrun : tombstone key store = .ok () store') : store'.Holds (m.drop (· = key)) := by
  rw [tombstone_eq h.built.keys_length] at hrun
  by_cases hany : store.array.keys.any (· = key)
  · rw [if_pos hany] at hrun
    have hwrote := persistAndCompact_wrote (h.built.retireMarked (p := (· = key))) hrun
    exact hwrote.holds h.kind h.stride (represents_retireMarked h.live _)
  · rw [if_neg hany] at hrun
    cases hrun
    rw [drop_eq_self h.live hany]
    exact h

/-- New records go behind the old ones, whose keys they do not have. -/
theorem Holds.represents_append (h : store.Holds m) {records : List VectorRecord}
    (hfill : FillsSlots 32 records) (hnodup : (records.map (·.1)).Nodup)
    (hnew : ∀ r ∈ records, m r.1 = none) :
    Represents (store.array.extend store.array.tombstones records).liveRecords
      (records.foldl storeRecord m) := by
  have hfill' : FillsSlots store.array.stride records := by rwa [h.stride]
  rw [liveRecords_append h.built hfill']
  refine ⟨?_, by rw [recordMap_append_eq, h.live.map]⟩
  rw [List.map_append]
  refine List.nodup_append.mpr ⟨h.live.nodup, hnodup, ?_⟩
  intro x hx y hy hxy
  obtain ⟨r, hr, rfl⟩ := List.mem_map.mp hy
  exact h.live.mem_keys.mp hx (hxy ▸ hnew r hr)

theorem Holds.appendDeferred (h : store.Holds m) {key : VectorRecordKey} {bytes : List UInt8}
    (hnew : m key = none) (hrun : appendDeferred key bytes store = .ok () store') :
    store'.Holds (storeRecord m (key, bytes)) := by
  rw [appendDeferred_eq] at hrun
  by_cases hlen : bytes.length = store.array.stride
  · rw [if_pos hlen] at hrun
    cases hrun
    have hfill : FillsSlots 32 [(key, bytes)] := by
      intro r hr
      rw [List.mem_singleton.mp hr, ← h.stride]
      exact hlen
    have hlive := h.represents_append hfill (by simp) (by simpa using hnew)
    exact ⟨h.built.append (by rwa [h.stride]), h.kind, h.stride, hlive⟩
  · rw [if_neg hlen] at hrun
    cases hrun

theorem fillsSlots_of_appendBatch_ok {records : List VectorRecord}
    (hrun : appendBatch records store = .ok () store') : FillsSlots store.array.stride records := by
  by_contra hfill
  obtain ⟨text, herr⟩ := appendBatch_of_not_fills hfill
  rw [herr] at hrun
  cases hrun

theorem Holds.appendBatch (h : store.Holds m) {records : List VectorRecord}
    (hnodup : (records.map (·.1)).Nodup) (hnew : ∀ r ∈ records, m r.1 = none)
    (hrun : appendBatch records store = .ok () store') :
    store'.Holds (records.foldl storeRecord m) := by
  have hfill := fillsSlots_of_appendBatch_ok hrun
  by_cases hnil : records = []
  · subst hnil
    cases hrun
    exact h
  rw [appendBatch_of_fills hnil hfill] at hrun
  have hwrote := persistAndCompact_wrote (h.built.append hfill) hrun
  rw [h.stride] at hfill
  exact hwrote.holds h.kind h.stride (h.represents_append hfill hnodup hnew)

theorem Holds.flush (h : store.Holds m) (hrun : flush store = .ok () store') : store'.Holds m := by
  rw [flush_eq] at hrun
  by_cases hdirty : store.isDirty
  · rw [if_pos hdirty] at hrun
    exact (persistAndCompact_wrote h.built hrun).holds h.kind h.stride h.live
  · rw [if_neg hdirty] at hrun
    cases hrun
    exact h

theorem holds_rebuildFrom {records : List VectorRecord} (hkind : store.array.kind = .binary)
    (hstride : store.array.stride = 32) (hfill : FillsSlots 32 records)
    (hlive : Represents records m) (hrun : rebuildFrom records store = .ok () store') :
    store'.Holds m := by
  rw [rebuildFrom_eq, hkind, hstride] at hrun
  have hwrote := persist_wrote (built_ofRecords .binary hfill) hrun
  refine hwrote.holds rfl rfl ?_
  rw [liveRecords_ofRecords .binary hfill]
  exact hlive

theorem holds_newBinary (file : Option (List UInt8)) : (newBinary file).Holds fun _ => none :=
  ⟨built_empty _ _, rfl, rfl, represents_nil⟩

end MootMemory.ResidentArrayStore
