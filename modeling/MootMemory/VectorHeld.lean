import MootMemory.IndexAgreement
import MootMemory.ResidentStoreHolds
import MootMemory.VectorStoreEffects

namespace MootMemory

open ResidentVectorArray

namespace HotState

/-- The state after both indexes were built from records. -/
def indexed (st : HotState) (records : List VectorRecord) : HotState :=
  { st with
    bruteForceIndex := ⟨.ofRecords .binary 32 records⟩
    mihIndex := st.mihIndex.cleared.putAll (codesOf records) }

def counted (st : HotState) (n : Nat) : HotState :=
  { st with liveBinaryCount := VectorStore.asU32 n }

/-- Both indexes and the array store hold the same contents. -/
structure Synced (st : HotState) (m : Contents) : Prop where
  agree : Agree st.bruteForceIndex st.mihIndex
  live : Represents st.bruteForceIndex.live m
  store : ∀ store, st.arrayStore = some store → store.Holds m

/-- The residents hold the contents `m`, up to what a deferred window keeps back. -/
structure Held (st : HotState) (m : Contents) : Prop where
  agree : Agree st.bruteForceIndex st.mihIndex
  store : ∀ store, st.arrayStore = some store → store.Holds m
  pending : st.arrayStore = none →
    recordMap (st.bruteForceIndex.live ++ st.deferredPendingRecords) = m
  clean : st.deferredIndexDirty = false →
    st.deferredPendingRecords = [] ∧ Represents st.bruteForceIndex.live m
  idle : st.deferredIndexActive = false → st.deferredIndexDirty = false
  fresh : st.indexBuilt = false → st.deferredIndexActive = false ∧ (m = fun _ => none) ∧
    ∀ store, st.arrayStore = some store → store.file = none ∧ store.isDirty = false
  fills : m.Fills

variable {st : HotState} {m : Contents} {records : List VectorRecord}

theorem Synced.fills (h : st.Synced m) : m.Fills := by
  intro x v hx
  have hfill := h.agree.1.built.toSized.fillsSlots
  rw [h.agree.1.stride] at hfill
  exact hfill (x, v) (h.live.mem.mpr hx)

theorem Held.synced (h : st.Held m) (hdirty : st.deferredIndexDirty = false) : st.Synced m :=
  ⟨h.agree, (h.clean hdirty).2, h.store⟩

theorem Synced.held (h : st.Synced m) (hpending : st.deferredPendingRecords = [])
    (hidle : st.deferredIndexActive = false → st.deferredIndexDirty = false)
    (hbuilt : st.indexBuilt = true) : st.Held m := by
  refine ⟨h.agree, h.store, fun _ => ?_, fun _ => ⟨hpending, h.live⟩, hidle, fun hnot => ?_, h.fills⟩
  · rw [hpending, List.append_nil, h.live.map]
  · rw [hbuilt] at hnot
    cases hnot

theorem agree_indexed (htables : st.mihIndex.tables.length = st.mihIndex.m)
    (hfill : FillsSlots 32 records) (hnodup : (records.map (·.1)).Nodup) :
    Agree (st.indexed records).bruteForceIndex (st.indexed records).mihIndex := by
  have hlive : (st.indexed records).bruteForceIndex.live = records :=
    liveRecords_ofRecords .binary hfill
  refine ⟨BruteForceIndex.inv_ofRecords hfill, ?_⟩
  rw [hlive]
  refine ⟨MIHIndex.inv_putAll htables ?_, hnodup, MIHIndex.codeOf_cleared_putAll _ _⟩
  rw [MIHIndex.map_fst_codesOf]
  exact hnodup

theorem synced_indexed (htables : st.mihIndex.tables.length = st.mihIndex.m)
    (hlive : Represents records m) (hfills : m.Fills)
    (hstore : ∀ store, st.arrayStore = some store → store.Holds m) : (st.indexed records).Synced m := by
  have hfill := hlive.fillsSlots hfills
  refine ⟨agree_indexed htables hfill hlive.nodup, ?_, hstore⟩
  have hsame : (st.indexed records).bruteForceIndex.live = records :=
    liveRecords_ofRecords .binary hfill
  rw [hsame]
  exact hlive

end HotState

namespace VectorStore

variable {s s' : VectorStore} {m : Contents} {records : List VectorRecord}

theorem buildIndexes_eq (hfill : FillsSlots 32 records) :
    buildIndexes (records.map fun r => binaryPayload r.2) (records.map (·.1)) s =
      .ok () { s with state := s.state.indexed records } := by
  have hlen : (records.map fun r => binaryPayload r.2).length = (records.map (·.1)).length := by simp
  have hcodes : ∀ v ∈ records.map (fun r => binaryPayload r.2), v.IsCode := by
    intro v hv
    obtain ⟨r, hr, rfl⟩ := List.mem_map.mp hv
    exact ⟨rfl, hfill r hr⟩
  have hzip : (records.map (·.1)).zip ((records.map fun r => binaryPayload r.2).map (·.bytes)) =
      records := by
    rw [List.map_map, List.zip_map']
    exact List.map_id' records
  have hbrute := BruteForceIndex.build_eq s.state.bruteForceIndex hlen hcodes
  have hmih := MIHIndex.build_eq s.state.mihIndex hlen hcodes
  rw [hzip] at hbrute hmih
  simp only [buildIndexes, bind, EStateM.bind, runBrute, hbrute, buildMih, hmih]
  rfl

theorem buildFromRecords_eq (hfill : FillsSlots 32 records) :
    buildFromRecords records s = .ok () { s with state := s.state.indexed records } :=
  buildIndexes_eq hfill

theorem buildFromArray_eq {arr : ResidentVectorArray} (hsized : arr.Sized)
    (hfill : FillsSlots 32 arr.liveRecords) :
    buildFromArray arr s = .ok () { s with state := s.state.indexed arr.liveRecords } := by
  have hread : arrayToPayloadsKeys arr = .ok (arr.liveRecords.map fun r => binaryPayload r.2,
      arr.liveRecords.map (·.1)) := by
    rw [arrayToPayloadsKeys, ResidentArrayStore.collect_eq hsized]
    rfl
  rw [buildFromArray, liftExcept_bind_eq hread]
  exact buildIndexes_eq hfill

theorem buildFromStore_eq {store : ResidentArrayStore} (hstore : s.state.arrayStore = some store)
    (hholds : store.Holds m) : buildFromStore s =
      .ok () { s with state := s.state.indexed store.array.liveRecords } := by
  have hbuild := buildFromArray_eq (s := s) hholds.built.toSized hholds.fillsSlots
  rw [buildFromStore, get_bind, hstore]
  exact hbuild

/-- The sorted rows of the table are its contents. -/
theorem represents_fetchAll (table : VectorTable) :
    Represents (fetchAllBinaryRecords table) table.contents :=
  table.represents_contents.of_perm (ResidentArrayStore.sortByKey_perm _).symm

/-- A rebuild that succeeds leaves the residents with the rows. -/
theorem rebuildFromTable_synced (htables : s.state.mihIndex.tables.length = s.state.mihIndex.m)
    (hfills : s.table.contents.Fills) (hstore : ∀ store, s.state.arrayStore = some store →
      store.array.kind = .binary ∧ store.array.stride = 32)
    (hrun : rebuildFromTable s = .ok () s') : s'.state.Synced s.table.contents := by
  have hlive := represents_fetchAll s.table
  have hfill := hlive.fillsSlots hfills
  rw [rebuildFromTable, get_bind, modifyState_bind] at hrun
  cases harray : s.state.arrayStore with
  | none =>
    simp only [harray, Option.isSome_none, Bool.false_eq_true, if_false] at hrun
    rw [buildFromRecords_eq hfill] at hrun
    cases hrun
    refine HotState.synced_indexed htables hlive hfills fun store hsome => ?_
    cases hsome
  | some store =>
    obtain ⟨hkind, hstride⟩ := hstore store harray
    simp only [harray, Option.isSome_some, if_true] at hrun
    obtain ⟨store', hrebuild, hbuild⟩ := runStore_bind_ok rfl hrun
    have hholds := ResidentArrayStore.holds_rebuildFrom hkind hstride hfill hlive hrebuild
    rw [buildFromStore_eq rfl hholds] at hbuild
    cases hbuild
    refine HotState.synced_indexed htables hholds.live hfills fun store hsome => ?_
    cases hsome
    exact hholds

theorem ensureIndexBuiltLocked_of_built (h : s.state.indexBuilt = true) :
    ensureIndexBuiltLocked s = .ok () s := by
  rw [ensureIndexBuiltLocked, get_bind, if_pos h]
  rfl

/-- The state after the residents were built. -/
def opened (s : VectorStore) : VectorStore :=
  { s with state := { s.state with
      indexBuilt := true, isMihActive := decide (s.state.mihThreshold ≤ s.state.liveBinaryCount) } }

theorem ensureIndexBuiltLocked_of_not_built (h : s.state.indexBuilt = false) :
    ensureIndexBuiltLocked s = match buildResidents s with
      | .ok _ s₁ => .ok () (opened s₁)
      | .error e s₁ => .error e s₁ := by
  rw [ensureIndexBuiltLocked, get_bind, if_neg (by simp [h])]
  simp only [bind, EStateM.bind]
  cases buildResidents s with
  | error e s₁ => rfl
  | ok _ s₁ => simp only [modifyState, selectIndex_eq, opened]

theorem ensureIndexBuiltLocked_ok (h : s.state.indexBuilt = false)
    (hrun : ensureIndexBuiltLocked s = .ok () s') :
    ∃ s₁, buildResidents s = .ok () s₁ ∧ s' = opened s₁ := by
  rw [ensureIndexBuiltLocked_of_not_built h] at hrun
  cases hbuild : buildResidents s with
  | error e s₁ => simp [hbuild] at hrun
  | ok _ s₁ =>
    simp only [hbuild, EStateM.Result.ok.injEq, true_and] at hrun
    exact ⟨s₁, rfl, hrun.symm⟩

theorem adoptOrRebuild_of_eq {store : ResidentArrayStore} (hstore : s.state.arrayStore = some store)
    (hholds : store.Holds m) (hcount : store.array.liveCount = s.table.binaryRowCount) :
    adoptOrRebuild s = .ok ()
      { s with state := (s.state.counted store.array.liveCount).indexed store.array.liveRecords } := by
  have hlive : (s.state.arrayStore.map fun store => store.array.liveCount).getD 0 =
      store.array.liveCount := by rw [hstore]; rfl
  rw [adoptOrRebuild, get_bind, hlive]
  simp only [if_pos hcount]
  rw [modifyState_bind]
  exact buildFromStore_eq hstore hholds

theorem adoptOrRebuild_of_ne {store : ResidentArrayStore} (hstore : s.state.arrayStore = some store)
    (hcount : store.array.liveCount ≠ s.table.binaryRowCount) : adoptOrRebuild s =
      rebuildFromTable { s with state.sidecarRebuildCount := s.state.sidecarRebuildCount + 1 } := by
  have hlive : (s.state.arrayStore.map fun store => store.array.liveCount).getD 0 =
      store.array.liveCount := by rw [hstore]; rfl
  rw [adoptOrRebuild, get_bind, hlive]
  simp only [if_neg hcount]
  rw [modifyState_bind]

theorem buildResidents_of_none (h : s.state.arrayStore = none) :
    buildResidents s = rebuildFromTable s := by
  rw [buildResidents, get_bind, if_neg (by simp [h])]

/-- Without a file the array store stays as it is. -/
theorem buildResidents_of_no_file {store : ResidentArrayStore}
    (h : s.state.arrayStore = some store) (hfile : store.file = none) :
    buildResidents s = adoptOrRebuild s := by
  have hload : ResidentArrayStore.load store = .ok () store := by
    simp only [ResidentArrayStore.load, hfile]
  have htry : tryLoad store = .ok () store := by simp only [tryLoad, hload]
  have hsame : { s with state.arrayStore := some store } = s := by rw [← h]
  rw [buildResidents, get_bind, if_pos (by simp [h])]
  simp only [bind, EStateM.bind, runStore, h, htry, hsame]

theorem contents_eq_none {table : VectorTable} (h : table.binaryRowCount = 0) :
    table.contents = fun _ => none := by
  have hnil : table.binaryRecords = [] := by
    rw [← table.length_binaryRecords] at h
    exact List.eq_nil_of_length_eq_zero h
  rw [VectorTable.contents, hnil]
  rfl

/-- The first build leaves the residents with the rows. -/
theorem buildResidents_synced (h : s.state.Held m) (hbuilt : s.state.indexBuilt = false)
    (hfills : s.table.contents.Fills) (hrun : buildResidents s = .ok () s') :
    s'.state.Synced s.table.contents := by
  obtain ⟨_, rfl, hfile⟩ := h.fresh hbuilt
  have htables := h.agree.2.inv.tables_length
  cases hstore : s.state.arrayStore with
  | none =>
    rw [buildResidents_of_none hstore] at hrun
    refine rebuildFromTable_synced htables hfills (fun store hsome => ?_) hrun
    rw [hstore] at hsome
    cases hsome
  | some store =>
    have hholds := h.store store hstore
    have hnil := hholds.live.eq_nil
    rw [buildResidents_of_no_file hstore (hfile store hstore).1] at hrun
    by_cases hcount : store.array.liveCount = s.table.binaryRowCount
    · rw [adoptOrRebuild_of_eq hstore hholds hcount] at hrun
      cases hrun
      rw [hholds.liveCount, hnil] at hcount
      rw [contents_eq_none hcount.symm]
      exact HotState.synced_indexed htables hholds.live hholds.fills h.store
    · rw [adoptOrRebuild_of_ne hstore hcount] at hrun
      exact rebuildFromTable_synced
        (s := { s with state.sidecarRebuildCount := s.state.sidecarRebuildCount + 1 }) htables hfills
        (fun store' hsome => ⟨(h.store store' hsome).kind, (h.store store' hsome).stride⟩) hrun

/-- What the residents hold once they are built. -/
def openedContents (s : VectorStore) (m : Contents) : Contents :=
  if s.state.indexBuilt then m else s.table.contents

theorem ensureIndexBuiltLocked_held (h : s.state.Held m)
    (hfills : s.state.indexBuilt = false → s.table.contents.Fills)
    (hrun : ensureIndexBuiltLocked s = .ok () s') :
    s'.state.Held (openedContents s m) ∧ s'.state.indexBuilt = true ∧ s'.outside = s.outside := by
  have houtside := keepsOutside_ensureIndexBuiltLocked.of_ok hrun
  cases hbuilt : s.state.indexBuilt with
  | true =>
    rw [ensureIndexBuiltLocked_of_built hbuilt] at hrun
    cases hrun
    rw [openedContents, if_pos hbuilt]
    exact ⟨h, hbuilt, houtside⟩
  | false =>
    obtain ⟨hactive, _, _⟩ := h.fresh hbuilt
    have hdirty := h.idle hactive
    obtain ⟨s₁, hbuild, hopened⟩ := ensureIndexBuiltLocked_ok hbuilt hrun
    have hsynced := buildResidents_synced h hbuilt (hfills hbuilt) hbuild
    have hwindow : s'.state.window = s.state.window := congrArg Prod.snd houtside
    have hpending : s'.state.deferredPendingRecords = s.state.deferredPendingRecords :=
      congrArg DeferredWindow.pendingRecords hwindow
    have hflag : s'.state.deferredIndexDirty = s.state.deferredIndexDirty :=
      congrArg DeferredWindow.dirty hwindow
    rw [openedContents, if_neg (by simp [hbuilt])]
    refine ⟨?_, by rw [hopened]; rfl, houtside⟩
    rw [(h.clean hdirty).1] at hpending
    rw [hdirty] at hflag
    have hsynced' : s'.state.Synced s.table.contents := by
      rw [hopened]
      exact ⟨hsynced.agree, hsynced.live, hsynced.store⟩
    exact hsynced'.held hpending (fun _ => hflag) (by rw [hopened]; rfl)

end VectorStore

end MootMemory
