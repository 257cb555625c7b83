import MootMemory.VectorHeld

namespace MootMemory

open ResidentVectorArray

theorem Represents.upsert {records : List VectorRecord} {m : Contents} (h : Represents records m)
    (r : VectorRecord) : Represents (upsertRecord records r) (storeRecord m r) :=
  ⟨upsertRecord_nodup h.nodup r, by rw [recordMap_upsertRecord, h.map]⟩

theorem Represents.drop {records : List VectorRecord} {m : Contents} (h : Represents records m)
    (p : VectorRecordKey → Bool) : Represents (records.filter fun r => !p r.1) (m.drop p) := by
  have hfilter := h.filter fun x => !p x
  have hdrop : m.drop p = fun x => if !p x then m x else none := by
    funext x
    rw [Contents.drop]
    cases p x <;> rfl
  rwa [hdrop]

/-- Records of distinct keys are all found under their keys. -/
theorem foldl_storeRecord_self {records : List VectorRecord} (hnodup : (records.map (·.1)).Nodup)
    {r : VectorRecord} (hr : r ∈ records) (m : Contents) :
    records.foldl storeRecord m r.1 = some r.2 := by
  rw [foldl_storeRecord_of_mem (List.mem_map_of_mem hr) m fun _ => none]
  exact (recordMap_eq_some hnodup).mpr hr

namespace Contents

variable {m : Contents} {records : List VectorRecord}

/-- What a write drops first it writes again. -/
theorem foldl_drop {p : VectorRecordKey → Bool} (h : ∀ x, p x = true → x ∈ records.map (·.1)) :
    records.foldl storeRecord (m.drop p) = records.foldl storeRecord m := by
  apply foldl_storeRecord_congr
  intro x hx
  rw [drop, if_neg fun hp => hx (h x hp)]

/-- Once the keys that it holds are dropped, the records find their places free. -/
theorem drop_free {p : VectorRecordKey → Bool}
    (h : ∀ x ∈ records.map (·.1), m x ≠ none → p x = true) : ∀ r ∈ records, m.drop p r.1 = none := by
  intro r hr
  rw [drop]
  split
  next => rfl
  next hp =>
    by_contra hne
    exact hp (h r.1 (List.mem_map_of_mem hr) hne)

theorem store_drop (m : Contents) (r : VectorRecord) :
    storeRecord (m.drop (· ∈ [r.1])) r = storeRecord m r := by
  have hsame : [r].foldl storeRecord (m.drop (· ∈ [r.1])) = [r].foldl storeRecord m :=
    foldl_drop (by simp)
  simpa only [List.foldl_cons, List.foldl_nil] using hsame

theorem drop_drop (m : Contents) (p q : VectorRecordKey → Bool) :
    (m.drop p).drop q = m.drop fun x => p x || q x := by
  funext x
  rw [drop, drop, drop]
  cases p x <;> cases q x <;> rfl

theorem drop_congr {p q : VectorRecordKey → Bool} (h : ∀ x, m x ≠ none → p x = q x) :
    m.drop p = m.drop q := by
  funext x
  rw [drop, drop]
  by_cases hx : m x = none
  · rw [hx, ite_self, ite_self]
  · rw [h x hx]

end Contents

theorem Agree.add {idx idx' : BruteForceIndex} {mih mih' : MIHIndex} (h : Agree idx mih)
    {key : VectorRecordKey} {vector : VectorPayload} (hv : vector.IsCode)
    (hidx : idx.add key vector = .ok idx') (hmih : mih.add key vector = .ok mih') :
    Agree idx' mih' ∧ idx'.live = upsertRecord idx.live (key, vector.bytes) := by
  obtain ⟨idx₁, hidx₁, hinv, hlive⟩ := BruteForceIndex.add_ok h.1 key hv
  obtain ⟨mih₁, hmih₁, _, htracks⟩ := h.2.add key hv
  cases hidx₁.symm.trans hidx
  cases hmih₁.symm.trans hmih
  exact ⟨⟨hinv, by rw [hlive]; exact htracks⟩, hlive⟩

theorem Agree.remove {idx idx' : BruteForceIndex} {mih : MIHIndex} (h : Agree idx mih)
    {key : VectorRecordKey} (hidx : idx.remove key = .ok idx') :
    Agree idx' (mih.remove key) ∧ idx'.live = idx.live.filter fun r => r.1 ≠ key := by
  obtain ⟨idx₁, hidx₁, hinv, hlive⟩ := BruteForceIndex.remove_ok h.1 key
  cases hidx₁.symm.trans hidx
  exact ⟨⟨hinv, by rw [hlive]; exact h.2.remove key⟩, hlive⟩

namespace VectorStore

variable {s s' : VectorStore} {m m' : Contents} {records : List VectorRecord}

/-- A call on the array store changes nothing else, and does to it what it does to every store that
holds the same. -/
theorem runStore_holds {x : EStateM Fault ResidentArrayStore Unit}
    (hx : ∀ store store', store.Holds m → x store = .ok () store' → store'.Holds m')
    (hstore : ∀ store, s.state.arrayStore = some store → store.Holds m)
    (hrun : runStore x s = .ok () s') :
    ∃ arrayStore, s' = { s with state.arrayStore := arrayStore } ∧
      ∀ store, arrayStore = some store → store.Holds m' := by
  cases harray : s.state.arrayStore with
  | none =>
    rw [runStore_of_none harray] at hrun
    cases hrun
    refine ⟨none, by rw [← harray], fun store hsome => ?_⟩
    cases hsome
  | some store =>
    obtain ⟨store', hcall, hs'⟩ := runStore_ok harray hrun
    refine ⟨some store', hs', fun store₁ hsome => ?_⟩
    cases hsome
    exact hx store store' (hstore store harray) hcall

/-- The keys of the live slots that satisfy `p`. -/
theorem liveKeysWhere_eq {arr : ResidentVectorArray} (h : arr.Sized) (p : VectorRecordKey → Bool) :
    liveKeysWhere arr p = .ok ((arr.liveRecords.map (·.1)).filter p) := by
  have hloop : (arr.liveRecords.map (·.1)).filter p =
      (List.range arr.count).filterMap fun i => ((arr.liveSlot i).map (·.1)).filter p := by
    rw [liveRecords, List.map_filterMap, List.filter_filterMap]
  rw [hloop, liveKeysWhere,
    foldlM_ok (g := fun keys i => keys ++ (((arr.liveSlot i).map (·.1)).filter p).toList) _ [],
    ResidentArrayStore.foldl_append_toList]
  · rfl
  · intro i hi keys
    obtain ⟨key, hget, hkey⟩ := Sized.keyAt_eq h.keys_length (List.mem_range.mp hi)
    unfold liveSlot slotRecord
    split
    next => simp
    next =>
      rw [hkey, except_ok_bind, hget]
      by_cases hp : p key <;> simp [hp, Option.filter]

/-- The merged array holds the records in place of the slots with their keys. -/
theorem mergeBatchIntoSnapshot_eq {arr : ResidentVectorArray} (h : arr.Built)
    (hstride : arr.stride = 32) (hfill : FillsSlots 32 records) :
    ∃ merged, mergeBatchIntoSnapshot arr records = .ok merged ∧ merged.Built ∧
      merged.stride = 32 ∧ merged.liveRecords = mergeRecords arr.liveRecords records := by
  rw [← hstride] at hfill
  refine ⟨arr.extend (arr.marked (· ∈ records.map (·.1))) records, ?_, h.extendMarked hfill,
    hstride, ?_⟩
  · rw [mergeBatchIntoSnapshot, tombstoneMatching_eq h.keys_length]
    rfl
  · rw [liveRecords_extendMarked h hfill, mergeRecords]
    simp only [decide_not]

/-- A binary write outside of a window puts its record into every resident. -/
theorem mirrorBinary_synced {key : VectorRecordKey} {payload : VectorPayload}
    (hcode : payload.IsCode) (hopen : ∀ s₁, ensureIndexBuiltLocked s = .ok () s₁ →
      s₁.state.Synced m ∧ s₁.state.indexBuilt = true)
    (hrun : mirrorBinary key payload s = .ok () s') :
    s'.state.Synced (storeRecord m (key, payload.bytes)) ∧ s'.state.indexBuilt = true := by
  obtain ⟨_, s₁, hensure, hrun⟩ := estate_bind_ok.mp hrun
  obtain ⟨h, hbuilt⟩ := hopen s₁ hensure
  rw [get_bind] at hrun
  obtain ⟨_, s₂, hretire, hrun⟩ := estate_bind_ok.mp hrun
  obtain ⟨store₂, rfl, hstore₂⟩ := runStore_holds
    (fun _ _ hholds hcall => hholds.tombstoneDeferred hcall) h.store hretire
  obtain ⟨_, s₃, hput, hrun⟩ := estate_bind_ok.mp hrun
  have hfree : m.drop (· ∈ [key]) key = none := by
    rw [Contents.drop, if_pos (by simp)]
  obtain ⟨store₃, rfl, hstore₃⟩ := runStore_holds
    (fun _ _ hholds hcall => hholds.appendDeferred hfree hcall) hstore₂ hput
  rw [Contents.store_drop m (key, payload.bytes)] at hstore₃
  obtain ⟨idx, hidx, hrun⟩ := runBrute_bind_ok hrun
  obtain ⟨mih, hmih, hrun⟩ := runMih_bind_ok hrun
  obtain ⟨hagree, hlive⟩ := h.agree.add hcode hidx hmih
  have hrep := h.live.upsert (key, payload.bytes)
  rw [← hlive] at hrep
  rw [modifyState_bind, selectIndex_eq] at hrun
  cases hrun
  split
  next => exact ⟨⟨hagree, hrep, hstore₃⟩, hbuilt⟩
  next => exact ⟨⟨hagree, hrep, hstore₃⟩, hbuilt⟩

/-- Retiring a key takes its record out of every resident. -/
theorem removeKey_synced {key : VectorRecordKey} (h : s.state.Synced m)
    (hrun : removeKey key s = .ok () s') : s'.state.Synced (m.drop (· = key)) ∧
      s'.state.indexBuilt = s.state.indexBuilt := by
  obtain ⟨_, s₁, hretire, hrun⟩ := estate_bind_ok.mp hrun
  obtain ⟨store₁, rfl, hstore₁⟩ := runStore_holds
    (fun _ _ hholds hcall => hholds.tombstone hcall) h.store hretire
  obtain ⟨idx, hidx, hrun⟩ := runBrute_bind_ok hrun
  obtain ⟨hagree, hlive⟩ := h.agree.remove hidx
  have hrep := h.live.drop (· = key)
  simp only [← decide_not] at hrep
  rw [← hlive] at hrep
  cases hrun
  exact ⟨⟨hagree, hrep, hstore₁⟩, rfl⟩

theorem forM_removeKey_synced {keys : List VectorRecordKey} (h : s.state.Synced m)
    (hrun : keys.forM removeKey s = .ok () s') : s'.state.Synced (m.drop (· ∈ keys)) ∧
      s'.state.indexBuilt = s.state.indexBuilt := by
  induction keys generalizing s m with
  | nil =>
    cases hrun
    have hsame : m.drop (· ∈ ([] : List VectorRecordKey)) = m := by
      funext x
      simp [Contents.drop]
    exact ⟨by rwa [hsame], rfl⟩
  | cons key keys ih =>
    obtain ⟨_, s₁, hfirst, hrest⟩ := estate_bind_ok.mp hrun
    obtain ⟨h₁, hbuilt₁⟩ := removeKey_synced h hfirst
    obtain ⟨h', hbuilt'⟩ := ih h₁ hrest
    rw [Contents.drop_drop] at h'
    have hkeys : m.drop (· ∈ key :: keys) = m.drop fun x => decide (x = key) || decide (x ∈ keys) :=
      Contents.drop_congr fun x _ => by simp
    exact ⟨by rwa [hkeys], hbuilt'.trans hbuilt₁⟩

/-- A batch outside of a window goes into the array store, or into the snapshot without one. -/
theorem rebuildWith_synced (h : s.state.Synced m) (hnodup : (records.map (·.1)).Nodup)
    (hfill : FillsSlots 32 records) {liveKeys : List VectorRecordKey}
    (hkeys : ∀ x, m x ≠ none → x ∈ liveKeys) (hrun : rebuildWith liveKeys records s = .ok () s') :
    s'.state.Synced (records.foldl storeRecord m) ∧ s'.state.indexBuilt = s.state.indexBuilt := by
  have htables := h.agree.2.inv.tables_length
  have hfills : Contents.Fills (records.foldl storeRecord m) := h.fills.foldl hfill
  rw [rebuildWith, get_bind] at hrun
  cases harray : s.state.arrayStore with
  | none =>
    simp only [harray, Option.isSome_none, Bool.false_eq_true, if_false] at hrun
    obtain ⟨merged, hmerge, hmerged⟩ := liftExcept_bind_ok hrun
    obtain ⟨merged', hmerge', hbuilt, hstride, hlive⟩ :=
      mergeBatchIntoSnapshot_eq h.agree.1.built h.agree.1.stride hfill
    cases hmerge'.symm.trans hmerge
    have hrep := h.live.merge hnodup
    rw [← hlive] at hrep
    rw [buildFromArray_eq hbuilt.toSized (hrep.fillsSlots hfills)] at hmerged
    cases hmerged
    refine ⟨HotState.synced_indexed htables hrep hfills fun store hsome => ?_, rfl⟩
    rw [harray] at hsome
    cases hsome
  | some store =>
    simp only [harray, Option.isSome_some, if_true] at hrun
    obtain ⟨store₁, hretire, hrun⟩ := runStore_bind_ok harray hrun
    have hholds₁ := (h.store store harray).tombstoneDeferred hretire
    obtain ⟨store₂, hput, hbuild⟩ := runStore_bind_ok rfl hrun
    have hfree : ∀ r ∈ records,
        m.drop (· ∈ (records.map (·.1)).filter (· ∈ liveKeys)) r.1 = none :=
      Contents.drop_free fun x hx hne => by
        simpa only [decide_eq_true_eq, List.mem_filter] using ⟨hx, hkeys x hne⟩
    have hholds₂ := hholds₁.appendBatch hnodup hfree hput
    have hsame : records.foldl storeRecord
        (m.drop (· ∈ (records.map (·.1)).filter (· ∈ liveKeys))) = records.foldl storeRecord m :=
      Contents.foldl_drop fun x hx => by
        simp only [decide_eq_true_eq, List.mem_filter] at hx
        exact hx.1
    rw [hsame] at hholds₂
    rw [buildFromStore_eq rfl hholds₂] at hbuild
    cases hbuild
    refine ⟨HotState.synced_indexed htables hholds₂.live hfills fun store₃ hsome => ?_, rfl⟩
    cases hsome
    exact hholds₂

/-- A batch outside of a window puts its records into every resident. -/
theorem mirrorBatch_synced (h : s.state.Synced m) (hnodup : (records.map (·.1)).Nodup)
    (hfill : FillsSlots 32 records) (hrun : mirrorBatch records s = .ok () s') :
    s'.state.Synced (records.foldl storeRecord m) ∧ s'.state.indexBuilt = s.state.indexBuilt := by
  have hlive := liveKeysWhere_eq h.agree.1.built.toSized fun _ => true
  rw [List.filter_true] at hlive
  rw [mirrorBatch, get_bind, liftExcept_bind_eq hlive] at hrun
  obtain ⟨newKeyCount, _, hrun⟩ := liftExcept_bind_ok hrun
  obtain ⟨_, s₁, hbuild, hrun⟩ := estate_bind_ok.mp hrun
  obtain ⟨h₁, hbuilt₁⟩ := rebuildWith_synced h hnodup hfill (fun x hx => h.live.mem_keys.mpr hx) hbuild
  rw [modifyState_bind, selectIndex_eq] at hrun
  cases hrun
  exact ⟨⟨h₁.agree, h₁.live, h₁.store⟩, hbuilt₁⟩

/-- What a window keeps back is merged into the indexes. -/
theorem merge_synced (h : s.state.Held m) (hnone : s.state.arrayStore = none)
    {arr : ResidentVectorArray} (hmerge : mergeBatchIntoSnapshot s.state.bruteForceIndex.array
      (dedupLastWins s.state.deferredPendingRecords) = .ok arr) :
    arr.Built ∧ arr.stride = 32 ∧ Represents arr.liveRecords m := by
  have hpending := h.pending hnone
  have hlive : Represents s.state.bruteForceIndex.live (recordMap s.state.bruteForceIndex.live) :=
    represents_recordMap h.agree.2.nodup
  have hwritten : (dedupLastWins s.state.deferredPendingRecords).foldl storeRecord
      (recordMap s.state.bruteForceIndex.live) = m := by
    rw [foldl_dedupLastWins, ← recordMap_append_eq, hpending]
  have hfill : FillsSlots 32 (dedupLastWins s.state.deferredPendingRecords) := by
    intro r hr
    have hself := foldl_storeRecord_self (dedupLastWins_nodup _) hr
      (recordMap s.state.bruteForceIndex.live)
    rw [hwritten] at hself
    exact h.fills r.1 r.2 hself
  obtain ⟨merged, hmerge', hbuilt, hstride, hrecords⟩ :=
    mergeBatchIntoSnapshot_eq h.agree.1.built h.agree.1.stride hfill
  cases hmerge'.symm.trans hmerge
  have hrep := hlive.merge (dedupLastWins_nodup s.state.deferredPendingRecords)
  rw [hwritten, ← hrecords] at hrep
  exact ⟨hbuilt, hstride, hrep⟩

/-- The window closed with nothing kept back. -/
def closed (s : VectorStore) : VectorStore :=
  { s with state := { s.state with
      deferredIndexActive := false, deferredIndexDirty := false, deferredLiveKeys := none,
      deferredPendingRecords := [] } }

theorem held_closed (h : s.state.Held m) (hdirty : s.state.deferredIndexDirty = false) :
    (closed s).state.Held m := by
  obtain ⟨hpending, hlive⟩ := h.clean hdirty
  refine ⟨h.agree, h.store, fun _ => ?_, fun _ => ⟨rfl, hlive⟩, fun _ => rfl, fun hbuilt => ?_,
    h.fills⟩
  · show recordMap (s.state.bruteForceIndex.live ++ []) = m
    rw [List.append_nil, hlive.map]
  · obtain ⟨_, hnone, hfile⟩ := h.fresh hbuilt
    exact ⟨rfl, hnone, hfile⟩

/-- What is published holds all that the window kept back. -/
theorem publishedArray_represents (h : s.state.Held m) {snap : ResidentVectorArray}
    (hsnap : publishedArray s.state = .ok snap) :
    snap.Built ∧ snap.stride = 32 ∧ Represents snap.liveRecords m := by
  rw [publishedArray] at hsnap
  cases harray : s.state.arrayStore with
  | none =>
    rw [harray] at hsnap
    exact merge_synced h harray hsnap
  | some store =>
    rw [harray] at hsnap
    cases hsnap
    have hholds := h.store store harray
    exact ⟨hholds.built, hholds.stride, hholds.live⟩

theorem built_of_dirty (h : s.state.Held m) (hdirty : s.state.deferredIndexDirty = true) :
    s.state.indexBuilt = true := by
  by_contra hbuilt
  obtain ⟨hactive, _, _⟩ := h.fresh (by simpa using hbuilt)
  rw [h.idle hactive] at hdirty
  cases hdirty

/-- Publishing ends the window and keeps the contents. -/
theorem publishResidentIndex_held (h : s.state.Held m)
    (hrun : publishResidentIndex s = .ok () s') : s'.state.Held m ∧ s'.table = s.table ∧
      s'.state.indexBuilt = s.state.indexBuilt ∧ s'.state.deferredIndexActive = false := by
  rw [publishResidentIndex, get_bind, modifyState_bind] at hrun
  cases hdirty : s.state.deferredIndexDirty with
  | false =>
    simp only [hdirty, Bool.not_false, if_true] at hrun
    cases hrun
    exact ⟨held_closed h hdirty, rfl, rfl, rfl⟩
  | true =>
    simp only [hdirty, Bool.not_true, Bool.false_eq_true, if_false] at hrun
    obtain ⟨snap, hsnap, hrun⟩ := liftExcept_bind_ok hrun
    obtain ⟨hbuilt, hstride, hlive⟩ := publishedArray_represents h hsnap
    obtain ⟨_, s₁, hbuild, hrun⟩ := estate_bind_ok.mp hrun
    rw [buildFromArray_eq hbuilt.toSized (hlive.fillsSlots h.fills)] at hbuild
    cases hbuild
    rw [modifyState_bind, selectIndex_eq] at hrun
    cases hrun
    have hopen := built_of_dirty h hdirty
    have hsynced : ((closed s).state.indexed snap.liveRecords).Synced m :=
      HotState.synced_indexed h.agree.2.inv.tables_length hlive h.fills h.store
    refine ⟨?_, rfl, rfl, rfl⟩
    exact HotState.Synced.held ⟨hsynced.agree, hsynced.live, hsynced.store⟩ rfl (fun _ => rfl) hopen

theorem live_deferredStep (acc : KeyScan) (r : VectorRecord) :
    (deferredStep acc r).live = r.1 :: acc.live := by
  unfold deferredStep
  split
  next => rfl
  next => split <;> rfl

theorem replaced_deferredStep (acc : KeyScan) (r : VectorRecord) :
    (deferredStep acc r).replaced = if r.1 ∈ acc.live then r.1 :: acc.replaced else acc.replaced := by
  unfold deferredStep
  split
  next => rfl
  next => split <;> rfl

/-- The keys of a batch of distinct keys that were live before it. -/
theorem mem_replaced_iff (hnodup : (records.map (·.1)).Nodup) (acc : KeyScan)
    (x : VectorRecordKey) : x ∈ (records.foldl deferredStep acc).replaced ↔
      x ∈ acc.replaced ∨ x ∈ records.map (·.1) ∧ x ∈ acc.live := by
  induction records generalizing acc with
  | nil => simp
  | cons r rs ih =>
    rw [List.map_cons, List.nodup_cons] at hnodup
    rw [List.foldl_cons, ih hnodup.2, replaced_deferredStep, live_deferredStep, List.map_cons,
      List.mem_cons, List.mem_cons]
    by_cases hx : x = r.1
    · by_cases hlive : r.1 ∈ acc.live <;> simp [hx, hlive, hnodup.1]
    · by_cases hlive : r.1 ∈ acc.live <;> simp [hx, hlive]

theorem mem_live_iff (acc : KeyScan) (x : VectorRecordKey) :
    x ∈ (records.foldl deferredStep acc).live ↔ x ∈ acc.live ∨ x ∈ records.map (·.1) := by
  induction records generalizing acc with
  | nil => simp
  | cons r rs ih =>
    rw [List.foldl_cons, ih, live_deferredStep, List.mem_cons, List.map_cons, List.mem_cons]
    tauto

/-- Every key that the table of a window has is known to the window of a sidecar. -/
def Tracked (s : VectorStore) (m : Contents) : Prop :=
  s.state.deferredIndexActive = true → s.state.arrayStore.isSome = true →
    ∀ x, m x ≠ none → x ∈ s.state.deferredLiveKeys.getD []

/-- The records of a window go into the array store, or wait without one. -/
theorem stageRecords_holds (h : s.state.Held m) (hnodup : (records.map (·.1)).Nodup)
    {replaced : List VectorRecordKey} (hsub : ∀ x ∈ replaced, x ∈ records.map (·.1))
    (hall : s.state.arrayStore.isSome = true →
      ∀ x ∈ records.map (·.1), m x ≠ none → x ∈ replaced)
    (hrun : stageRecords replaced records s = .ok () s') :
    ∃ arrayStore pending, s' = { s with state := { s.state with
        arrayStore := arrayStore, deferredPendingRecords := pending } } ∧
      arrayStore.isSome = s.state.arrayStore.isSome ∧
      (∀ store, arrayStore = some store → store.Holds (records.foldl storeRecord m)) ∧
      (arrayStore = none → recordMap (s.state.bruteForceIndex.live ++ pending) =
        records.foldl storeRecord m) := by
  rw [stageRecords, get_bind] at hrun
  cases harray : s.state.arrayStore with
  | none =>
    simp only [harray, Option.isSome_none, Bool.false_eq_true, if_false] at hrun
    cases hrun
    refine ⟨none, s.state.deferredPendingRecords ++ records, by rw [← harray], rfl,
      fun store hsome => ?_, fun _ => ?_⟩
    · cases hsome
    · rw [← List.append_assoc, recordMap_append_eq, h.pending harray]
  | some store =>
    simp only [harray, Option.isSome_some, if_true] at hrun
    obtain ⟨store₁, hretire, hrun⟩ := runStore_bind_ok harray hrun
    have hholds₁ := (h.store store harray).tombstoneDeferred hretire
    obtain ⟨store₂, hput, hs'⟩ := runStore_ok rfl hrun
    have hfree : ∀ r ∈ records, m.drop (· ∈ replaced) r.1 = none :=
      Contents.drop_free fun x hx hne => by
        simpa only [decide_eq_true_eq] using hall (by rw [harray]; rfl) x hx hne
    have hholds₂ := hholds₁.appendBatch hnodup hfree hput
    have hsame : records.foldl storeRecord (m.drop (· ∈ replaced)) = records.foldl storeRecord m :=
      Contents.foldl_drop fun x hx => hsub x (by simpa only [decide_eq_true_eq] using hx)
    rw [hsame] at hholds₂
    refine ⟨some store₂, s.state.deferredPendingRecords, hs', rfl, fun store₃ hsome => ?_,
      fun hnone => ?_⟩
    · cases hsome
      exact hholds₂
    · cases hnone

/-- A flush within a window leaves nothing pending and the contents as they are. -/
theorem flushDeferredPending_held (h : s.state.Held m) (hnone : s.state.arrayStore = none)
    (hactive : s.state.deferredIndexActive = true) (hdirty : s.state.deferredIndexDirty = true)
    (hrun : flushDeferredPending s = .ok () s') : s'.state.Held m ∧ s'.table = s.table ∧
      s'.state.indexBuilt = s.state.indexBuilt ∧ s'.state.arrayStore = none := by
  rw [flushDeferredPending, get_bind] at hrun
  by_cases hnil : s.state.deferredPendingRecords = []
  · rw [if_pos hnil] at hrun
    cases hrun
    exact ⟨h, rfl, rfl, hnone⟩
  · rw [if_neg hnil, modifyState_bind] at hrun
    obtain ⟨arr, hmerge, hrun⟩ := liftExcept_bind_ok hrun
    obtain ⟨hbuilt, hstride, hlive⟩ := merge_synced h hnone hmerge
    obtain ⟨_, s₁, hbuild, hrun⟩ := estate_bind_ok.mp hrun
    rw [buildFromArray_eq hbuilt.toSized (hlive.fillsSlots h.fills)] at hbuild
    cases hbuild
    obtain ⟨liveKeys, _, hrun⟩ := liftExcept_bind_ok hrun
    obtain ⟨liveCount, _, hrun⟩ := liftExcept_bind_ok hrun
    cases hrun
    have hopen := built_of_dirty h hdirty
    have hsynced : (s.state.indexed arr.liveRecords).Synced m :=
      HotState.synced_indexed h.agree.2.inv.tables_length hlive h.fills h.store
    refine ⟨⟨hsynced.agree, hsynced.store, fun _ => ?_, fun hclean => ?_, fun hidle => ?_,
      fun hnot => ?_, h.fills⟩, rfl, rfl, hnone⟩
    · show recordMap ((s.state.indexed arr.liveRecords).bruteForceIndex.live ++ []) = m
      rw [List.append_nil, hsynced.live.map]
    · cases hdirty.symm.trans hclean
    · cases hactive.symm.trans hidle
    · cases hopen.symm.trans hnot

theorem flushIfOverLimit_held (h : s.state.Held m) (htracked : s.Tracked m)
    (hactive : s.state.deferredIndexActive = true) (hdirty : s.state.deferredIndexDirty = true)
    (hrun : flushIfOverLimit s = .ok () s') : s'.state.Held m ∧ s'.Tracked m ∧
      s'.table = s.table ∧ s'.state.indexBuilt = s.state.indexBuilt := by
  rw [flushIfOverLimit, get_bind] at hrun
  split at hrun
  next hover =>
    have hnone : s.state.arrayStore = none := Option.isNone_iff_eq_none.mp hover.1
    obtain ⟨hheld, htable, hbuilt, hnone'⟩ := flushDeferredPending_held h hnone hactive hdirty hrun
    refine ⟨hheld, fun _ hsidecar => ?_, htable, hbuilt⟩
    rw [hnone'] at hsidecar
    cases hsidecar
  next =>
    cases hrun
    exact ⟨h, htracked, rfl, rfl⟩

/-- A batch within a window is held back or staged, and tracked. -/
theorem stageDeferred_held (h : s.state.Held m) (htracked : s.Tracked m)
    (hactive : s.state.deferredIndexActive = true) (hbuilt : s.state.indexBuilt = true)
    (hnodup : (records.map (·.1)).Nodup) (hfill : FillsSlots 32 records)
    (hrun : stageDeferred records s = .ok () s') :
    s'.state.Held (records.foldl storeRecord m) ∧ s'.Tracked (records.foldl storeRecord m) ∧
      s'.table = s.table ∧ s'.state.indexBuilt = s.state.indexBuilt := by
  have hfills : Contents.Fills (records.foldl storeRecord m) := h.fills.foldl hfill
  have hreplaced := fun x => mem_replaced_iff hnodup
    ⟨s.state.deferredLiveKeys.getD [], [], 0, []⟩ x
  have hlive := fun x => @mem_live_iff records ⟨s.state.deferredLiveKeys.getD [], [], 0, []⟩ x
  rw [stageDeferred, get_bind, modifyState_bind] at hrun
  obtain ⟨newKeyCount, _, hrun⟩ := liftExcept_bind_ok hrun
  obtain ⟨_, s₁, hstage, hrun⟩ := estate_bind_ok.mp hrun
  have hwindow : { s with state.deferredLiveKeys := none }.state.Held m :=
    ⟨h.agree, h.store, h.pending, h.clean, h.idle, h.fresh, h.fills⟩
  obtain ⟨arrayStore, pending, rfl, hsome, hstore, hpending⟩ := stageRecords_holds hwindow hnodup
    (fun x hx => by
      rcases (hreplaced x).mp hx with hx | hx
      · exact absurd hx List.not_mem_nil
      · exact hx.1)
    (fun hsidecar x hx hne => (hreplaced x).mpr (Or.inr ⟨hx, htracked hactive hsidecar x hne⟩)) hstage
  obtain ⟨_, s₂, hmark, hflush⟩ := estate_bind_ok.mp hrun
  have hheld : s₂.state.Held (records.foldl storeRecord m) := by
    cases hmark
    refine ⟨h.agree, hstore, hpending, fun hclean => ?_, fun hidle => ?_, fun hnot => ?_, hfills⟩
    · cases hclean
    · cases hactive.symm.trans hidle
    · cases hbuilt.symm.trans hnot
  have hknown : s₂.Tracked (records.foldl storeRecord m) := by
    cases hmark
    intro _ hsidecar x hne
    refine (hlive x).mpr ?_
    by_cases hx : x ∈ records.map (·.1)
    · exact Or.inr hx
    · rw [foldl_storeRecord_of_notMem hx] at hne
      exact Or.inl (htracked hactive (hsome ▸ hsidecar) x hne)
  obtain ⟨htable, hsame, hactive', hdirty'⟩ : s₂.table = s.table ∧
      s₂.state.indexBuilt = s.state.indexBuilt ∧ s₂.state.deferredIndexActive = true ∧
      s₂.state.deferredIndexDirty = true := by
    cases hmark
    exact ⟨rfl, rfl, hactive, rfl⟩
  obtain ⟨hheld', hknown', htable', hbuilt'⟩ :=
    flushIfOverLimit_held hheld hknown hactive' hdirty' hflush
  exact ⟨hheld', hknown', htable'.trans htable, hbuilt'.trans hsame⟩

end VectorStore

end MootMemory
