import MootMemory.VectorMirror
import MootMemory.VectorRows
import MootMemory.VectorWriteFailure

namespace MootMemory

open ResidentVectorArray

/-- A binary payload is a code of 32 bytes. -/
def VectorPayloadInput.WellSized (input : VectorPayloadInput) : Prop :=
  input.payload.kind = .binary → input.payload.bytes.length = 32

/-- The `k` binary rows of a model that are nearest to a probe, ties broken by key. -/
def VectorTable.nearestRows (table : VectorTable) (probe : Engram) (modelId : String) (k : Nat) :
    List VectorMatch :=
  (nearest probe k (some { modelId := some modelId, modelVersion := none })
    (codesOf table.binaryRecords)).map fun h =>
      { itemId := h.key.itemId, distance := h.rawDistance, modelId }

/-- An array store that was never written. -/
structure ResidentArrayStore.Blank (store : ResidentArrayStore) : Prop where
  array : store.array = .empty .binary 32
  file : store.file = none
  clean : store.isDirty = false

namespace VectorStore

variable {s s' : VectorStore} {m m' : Contents}

/-- What the residents are to hold: the rows once they are built, and nothing before. -/
def mirrored (s : VectorStore) : Contents :=
  if s.state.indexBuilt then s.table.contents else fun _ => none

/-- The residents follow the table, up to what a window keeps back. -/
structure Coherent (s : VectorStore) : Prop where
  held : s.state.Held s.mirrored
  fills : s.table.contents.Fills
  tracked : s.Tracked s.table.contents

theorem Tracked.of_window (h : s.Tracked m) (hwindow : s'.state.window = s.state.window)
    (hsub : ∀ x, m' x ≠ none → m x ≠ none) : s'.Tracked m' := by
  intro hactive hsidecar x hx
  have hkeys : s'.state.deferredLiveKeys = s.state.deferredLiveKeys :=
    congrArg DeferredWindow.liveKeys hwindow
  rw [hkeys]
  exact h ((congrArg DeferredWindow.active hwindow).symm.trans hactive)
    ((congrArg DeferredWindow.hasSidecar hwindow).symm.trans hsidecar) x (hsub x hx)

theorem tracked_of_idle (h : s.state.deferredIndexActive = false) : s.Tracked m := by
  intro hactive
  cases h.symm.trans hactive

theorem coherent_of_synced (h : s.state.Synced s.table.contents) (hbuilt : s.state.indexBuilt = true)
    (hpending : s.state.deferredPendingRecords = []) (hclean : s.state.deferredIndexDirty = false)
    (htracked : s.Tracked s.table.contents) : s.Coherent := by
  refine ⟨?_, h.fills, htracked⟩
  rw [mirrored, if_pos hbuilt]
  exact h.held hpending (fun _ => hclean) hbuilt

theorem Coherent.synced (h : s.Coherent) (hbuilt : s.state.indexBuilt = true)
    (hclean : s.state.deferredIndexDirty = false) : s.state.Synced s.table.contents := by
  have hheld := h.held
  rw [mirrored, if_pos hbuilt] at hheld
  exact hheld.synced hclean

theorem Coherent.pending (h : s.Coherent) (hclean : s.state.deferredIndexDirty = false) :
    s.state.deferredPendingRecords = [] := (h.held.clean hclean).1

/-- The residents follow the table again after a step that leaves a clean window alone. -/
theorem Coherent.resynced (h : s.Coherent) (hclean : s.state.deferredIndexDirty = false)
    (hwindow : s'.state.window = s.state.window) (hsynced : s'.state.Synced s'.table.contents)
    (hbuilt : s'.state.indexBuilt = true) (htracked : s'.Tracked s'.table.contents) :
    s'.Coherent :=
  coherent_of_synced hsynced hbuilt
    ((congrArg DeferredWindow.pendingRecords hwindow).trans (h.pending hclean))
    ((congrArg DeferredWindow.dirty hwindow).trans hclean) htracked

theorem openedContents_mirrored (s : VectorStore) : openedContents s s.mirrored = s.table.contents := by
  rw [openedContents, mirrored]
  split <;> rfl

theorem ensureIndexBuiltLocked_coherent (h : s.Coherent)
    (hrun : ensureIndexBuiltLocked s = .ok () s') :
    s'.Coherent ∧ s'.state.indexBuilt = true ∧ s'.outside = s.outside := by
  obtain ⟨hheld, hbuilt, houtside⟩ := ensureIndexBuiltLocked_held h.held (fun _ => h.fills) hrun
  have htable : s'.table = s.table := congrArg Prod.fst houtside
  have hwindow : s'.state.window = s.state.window := congrArg Prod.snd houtside
  rw [openedContents_mirrored, ← htable] at hheld
  refine ⟨⟨?_, by rw [htable]; exact h.fills, ?_⟩, hbuilt, houtside⟩
  · rw [mirrored, if_pos hbuilt]
    exact hheld
  · rw [htable]
    exact h.tracked.of_window hwindow fun _ hx => hx

section Writes

variable {input : VectorPayloadInput} {batch : List VectorPayloadInput}

theorem fillsSlots_binaryInputs (h : ∀ input ∈ batch, input.WellSized) :
    FillsSlots 32 (binaryInputs batch) := by
  intro r hr
  obtain ⟨input, hinput, hkind, rfl⟩ := mem_binaryInputs.mp hr
  exact h input hinput hkind

/-- The store once the rows of a batch are written and nothing else is done. -/
def wrote (s : VectorStore) (batch : List VectorPayloadInput) : VectorStore :=
  { s with table := s.table.upsertAll batch }

theorem fills_wrote (h : s.Coherent) (hsizes : ∀ input ∈ batch, input.WellSized)
    (hreplaces : s.table.ReplacesAll batch) : (s.wrote batch).table.contents.Fills := by
  have hwritten := VectorTable.contents_upsertAll hreplaces
  rw [wrote, hwritten]
  exact h.fills.foldl (fillsSlots_binaryInputs hsizes)

/-- Whether the residents are built before or after a write, with its records they hold the rows. -/
theorem foldl_opened (hreplaces : s.table.ReplacesAll batch) :
    (binaryInputs batch).foldl storeRecord (openedContents (s.wrote batch) s.mirrored) =
      (s.wrote batch).table.contents := by
  have hwritten : (s.wrote batch).table.contents =
      (binaryInputs batch).foldl storeRecord s.table.contents :=
    VectorTable.contents_upsertAll hreplaces
  cases hbuilt : s.state.indexBuilt with
  | true =>
    have hopened : openedContents (s.wrote batch) s.mirrored = s.table.contents := by
      rw [openedContents, mirrored, if_pos hbuilt]
      exact if_pos hbuilt
    rw [hopened, hwritten]
  | false =>
    have hopened : openedContents (s.wrote batch) s.mirrored = (s.wrote batch).table.contents :=
      if_neg (by rw [wrote, hbuilt]; simp)
    rw [hopened, hwritten, foldl_storeRecord_idem]

theorem ensureIndexBuiltLocked_wrote (h : s.Coherent) (hsizes : ∀ input ∈ batch, input.WellSized)
    (hreplaces : s.table.ReplacesAll batch) {s₁ : VectorStore}
    (hrun : ensureIndexBuiltLocked (s.wrote batch) = .ok () s₁) :
    s₁.state.Held (openedContents (s.wrote batch) s.mirrored) ∧ s₁.state.indexBuilt = true ∧
      s₁.table = (s.wrote batch).table ∧ s₁.state.window = s.state.window := by
  have hheld : (s.wrote batch).state.Held s.mirrored := h.held
  obtain ⟨hheld₁, hbuilt, houtside⟩ :=
    ensureIndexBuiltLocked_held hheld (fun _ => fills_wrote h hsizes hreplaces) hrun
  exact ⟨hheld₁, hbuilt, congrArg Prod.fst houtside, congrArg Prod.snd houtside⟩

/-- Nothing resident changes, and nothing binary in the table. -/
theorem coherent_wrote_nothing (h : s.Coherent) (hreplaces : s.table.ReplacesAll batch)
    (hnil : binaryInputs batch = []) : (s.wrote batch).Coherent := by
  have hsame : (s.wrote batch).table.contents = s.table.contents := by
    have hwritten := VectorTable.contents_upsertAll hreplaces
    rw [hnil] at hwritten
    exact hwritten
  refine ⟨?_, by rw [hsame]; exact h.fills, ?_⟩
  · rw [mirrored, hsame]
    exact h.held
  · rw [hsame]
    exact h.tracked

theorem addPayload_coherent (h : s.Coherent) (hsize : input.WellSized)
    (hreplaces : s.table.Replaces input)
    (hidle : input.payload.kind = .binary → s.state.deferredIndexActive = false)
    (hrun : addPayload input s = .ok () s') : s'.Coherent := by
  have hsizes : ∀ x ∈ [input], x.WellSized := fun x hx => by
    rw [List.mem_singleton.mp hx]
    exact hsize
  have hall : s.table.ReplacesAll [input] := ⟨hreplaces, trivial⟩
  rw [addPayload] at hrun
  split at hrun
  next => cases hrun
  next hint8 =>
    rw [modifyTable_bind] at hrun
    split at hrun
    next hkind =>
      have hrecords : binaryInputs [input] = [(input.key, input.payload.bytes)] := by
        rw [binaryInputs, List.filter_cons_of_pos (by simpa using hkind)]
        rfl
      have hactive := hidle hkind
      have hclean := h.held.idle hactive
      have houtside := (keepsOutside_mirrorBinary input.key input.payload).of_ok hrun
      have hwindow : s'.state.window = s.state.window := congrArg Prod.snd houtside
      have htable : s'.table = (s.wrote [input]).table := congrArg Prod.fst houtside
      have hactive' : s'.state.deferredIndexActive = false :=
        (congrArg DeferredWindow.active hwindow).trans hactive
      obtain ⟨hsynced, hbuilt⟩ := mirrorBinary_synced ⟨hkind, hsize hkind⟩ (fun s₁ hopen => by
        obtain ⟨hheld₁, hbuilt₁, _, hwindow₁⟩ := ensureIndexBuiltLocked_wrote h hsizes hall hopen
        exact ⟨hheld₁.synced ((congrArg DeferredWindow.dirty hwindow₁).trans hclean), hbuilt₁⟩) hrun
      have hrows := foldl_opened hall
      rw [hrecords, List.foldl_cons, List.foldl_nil, ← htable] at hrows
      rw [hrows] at hsynced
      exact h.resynced hclean hwindow hsynced hbuilt (tracked_of_idle hactive')
    next hkind =>
      cases hrun
      refine coherent_wrote_nothing h hall ?_
      rw [binaryInputs, List.filter_cons_of_neg (by simpa using hkind)]
      rfl

theorem addPayloads_coherent (h : s.Coherent) (hsizes : ∀ input ∈ batch, input.WellSized)
    (hreplaces : s.table.ReplacesAll batch) (hnodup : ((binaryInputs batch).map (·.1)).Nodup)
    (hrun : addPayloads batch s = .ok () s') : s'.Coherent := by
  rw [addPayloads] at hrun
  split at hrun
  next =>
    cases hrun
    exact h
  next =>
    cases hint8 : batch.find? fun input => input.payload.kind = .int8 with
    | some bad =>
      rw [hint8] at hrun
      cases hrun
    | none =>
      rw [hint8] at hrun
      simp only at hrun
      rw [modifyTable_bind, mirrorInputs] at hrun
      split at hrun
      next hnil =>
        cases hrun
        exact coherent_wrote_nothing h hreplaces hnil
      next =>
        obtain ⟨_, s₁, hopen, hrun⟩ := estate_bind_ok.mp hrun
        obtain ⟨hheld, hbuilt, htable, hwindow⟩ :=
          ensureIndexBuiltLocked_wrote h hsizes hreplaces hopen
        have hrows := foldl_opened (s := s) hreplaces
        have hactive : s₁.state.deferredIndexActive = s.state.deferredIndexActive :=
          congrArg DeferredWindow.active hwindow
        have hfill := fillsSlots_binaryInputs hsizes
        rw [get_bind] at hrun
        split at hrun
        next hon =>
          have hopened : openedContents (s.wrote batch) s.mirrored = s.table.contents := by
            have hbuilt₀ : s.state.indexBuilt = true := by
              by_contra hnot
              obtain ⟨hoff, _, _⟩ := h.held.fresh (by simpa using hnot)
              cases hoff.symm.trans (hactive.symm.trans hon)
            rw [openedContents, mirrored, if_pos hbuilt₀]
            exact if_pos hbuilt₀
          rw [hopened] at hheld hrows
          obtain ⟨hheld', htracked', htable', hbuilt'⟩ := stageDeferred_held hheld
            (h.tracked.of_window hwindow fun _ hx => hx) hon hbuilt hnodup hfill hrun
          rw [hrows] at hheld' htracked'
          have hsame : s'.table = (s.wrote batch).table := htable'.trans htable
          rw [← hsame] at hheld' htracked'
          refine ⟨?_, ?_, htracked'⟩
          · rw [mirrored, if_pos (hbuilt'.trans hbuilt)]
            exact hheld'
          · exact hheld'.fills
        next hoff =>
          have hoff₀ : s.state.deferredIndexActive = false := by
            rw [← hactive]
            simpa using hoff
          have hclean := h.held.idle hoff₀
          have hsynced := hheld.synced ((congrArg DeferredWindow.dirty hwindow).trans hclean)
          obtain ⟨hsynced', hbuilt'⟩ := mirrorBatch_synced hsynced hnodup hfill hrun
          have houtside := (keepsOutside_mirrorBatch (binaryInputs batch)).of_ok hrun
          have hwindow' : s'.state.window = s.state.window :=
            (congrArg Prod.snd houtside).trans hwindow
          have htable' : s'.table = (s.wrote batch).table := (congrArg Prod.fst houtside).trans htable
          rw [hrows, ← htable'] at hsynced'
          exact h.resynced hclean hwindow' hsynced' (hbuilt'.trans hbuilt)
            (tracked_of_idle ((congrArg DeferredWindow.active hwindow').trans hoff₀))

end Writes

/-- Publishing ends the window, and the residents follow the table without it. -/
theorem publishResidentIndex_coherent (h : s.Coherent) (hrun : publishResidentIndex s = .ok () s') :
    s'.Coherent ∧ s'.state.deferredIndexActive = false ∧ s'.table = s.table := by
  obtain ⟨hheld, htable, hbuilt, hactive⟩ := publishResidentIndex_held h.held hrun
  have hsame : s'.mirrored = s.mirrored := by rw [mirrored, mirrored, hbuilt, htable]
  exact ⟨⟨by rw [hsame]; exact hheld, by rw [htable]; exact h.fills, tracked_of_idle hactive⟩,
    hactive, htable⟩

/-- Before a delete nothing is kept back; the window is as it was, or closed. -/
theorem publishIfDeferredDirty_coherent (h : s.Coherent)
    (hrun : publishIfDeferredDirty s = .ok () s') : s'.Coherent ∧
      s'.state.deferredIndexDirty = false ∧ s'.table = s.table ∧
      (s.state.deferredIndexDirty = true → s'.state.deferredIndexActive = false) ∧
      (s.state.deferredIndexDirty = false → s' = s) := by
  rw [publishIfDeferredDirty, get_bind] at hrun
  cases hdirty : s.state.deferredIndexDirty with
  | false =>
    rw [hdirty] at hrun
    cases hrun
    refine ⟨h, hdirty, rfl, fun htrue => ?_, fun _ => rfl⟩
    cases htrue
  | true =>
    rw [hdirty] at hrun
    obtain ⟨h', hactive, htable⟩ := publishResidentIndex_coherent h hrun
    refine ⟨h', h'.held.idle hactive, htable, fun _ => hactive, fun hfalse => ?_⟩
    cases hfalse

theorem beginDeferredIndex_coherent (h : s.Coherent) (hrun : beginDeferredIndex s = .ok () s') :
    s'.Coherent := by
  rw [beginDeferredIndex, get_bind] at hrun
  split at hrun
  next =>
    cases hrun
    exact h
  next hoff =>
    obtain ⟨_, s₁, hopen, hrun⟩ := estate_bind_ok.mp hrun
    obtain ⟨h₁, hbuilt, houtside⟩ := ensureIndexBuiltLocked_coherent h hopen
    have hwindow : s₁.state.window = s.state.window := congrArg Prod.snd houtside
    have hoff₀ : s.state.deferredIndexActive = false := by simpa using hoff
    have hoff₁ : s₁.state.deferredIndexActive = false :=
      (congrArg DeferredWindow.active hwindow).trans hoff₀
    have hsynced := h₁.synced hbuilt (h₁.held.idle hoff₁)
    have hkeys := liveKeysWhere_eq hsynced.agree.1.built.toSized fun _ => true
    rw [List.filter_true] at hkeys
    rw [get_bind, liftExcept_bind_eq hkeys] at hrun
    cases hrun
    refine coherent_of_synced ⟨hsynced.agree, hsynced.live, hsynced.store⟩ hbuilt rfl rfl ?_
    intro _ _ x hx
    exact hsynced.live.mem_keys.mpr hx

theorem flush_coherent (h : s.Coherent) (hrun : flush s = .ok () s') : s'.Coherent := by
  rw [flush] at hrun
  cases harray : s.state.arrayStore with
  | none =>
    rw [runStore_of_none harray] at hrun
    cases hrun
    exact h
  | some store =>
    obtain ⟨store', hflush, hs'⟩ := runStore_ok harray hrun
    subst hs'
    have hholds := (h.held.store store harray).flush hflush
    refine ⟨⟨h.held.agree, fun store₁ hsome => ?_, fun hnone => ?_, h.held.clean, h.held.idle,
      fun hnot => ?_, h.held.fills⟩, h.fills, fun hactive _ => ?_⟩
    · cases hsome
      exact hholds
    · cases hnone
    · obtain ⟨hoff, hnil, hfile⟩ := h.held.fresh hnot
      refine ⟨hoff, hnil, fun store₁ hsome => ?_⟩
      cases hsome
      obtain ⟨hfile, hdirty⟩ := hfile store harray
      rw [ResidentArrayStore.flush_eq, if_neg (by simp [hdirty])] at hflush
      cases hflush
      exact ⟨hfile, hdirty⟩
    · exact h.tracked hactive (by rw [harray]; rfl)

section Deletes

/-- The store once some rows are gone and nothing else is done. -/
def deleted (s : VectorStore) (p : VectorRecordKey → Bool) : VectorStore :=
  { s with table := s.table.delete fun row => p row.key }

variable {p : VectorRecordKey → Bool}

theorem contents_deleted (s : VectorStore) (p : VectorRecordKey → Bool) :
    (s.deleted p).table.contents = s.table.contents.drop p := VectorTable.contents_delete s.table p

theorem ne_none_of_drop {x : VectorRecordKey} (h : m.drop p x ≠ none) : m x ≠ none := by
  rw [Contents.drop] at h
  split at h
  next => exact absurd rfl h
  next => exact h

/-- Before the residents are built a delete has nothing to retire. -/
theorem deleted_coherent_of_not_built (h : s.Coherent) (hbuilt : s.state.indexBuilt = false) :
    (s.deleted p).Coherent := by
  refine ⟨?_, by rw [contents_deleted]; exact h.fills.drop p, ?_⟩
  · have hheld := h.held
    rw [mirrored, if_neg (by rw [hbuilt]; simp)] at hheld
    rw [mirrored, if_neg (by rw [deleted, hbuilt]; simp)]
    exact hheld
  · rw [contents_deleted]
    exact h.tracked.of_window rfl fun _ hx => ne_none_of_drop hx

/-- Once the residents dropped what the table dropped, they follow it again. -/
theorem deleted_coherent (h : s.Coherent) (hclean : s.state.deferredIndexDirty = false)
    (hsynced : s'.state.Synced (s.table.contents.drop p)) (hbuilt : s'.state.indexBuilt = true)
    (htable : s'.table = (s.deleted p).table) (hwindow : s'.state.window = s.state.window) :
    s'.Coherent := by
  rw [← contents_deleted, ← htable] at hsynced
  refine h.resynced hclean hwindow hsynced hbuilt (h.tracked.of_window hwindow fun x hx => ?_)
  rw [htable, contents_deleted] at hx
  exact ne_none_of_drop hx

theorem keepsOutside_removeKey (key : VectorRecordKey) : KeepsOutside (removeKey key) :=
  (keepsOutside_runStore _).bind fun _ => (keepsOutside_runBrute _).bind fun _ =>
    keepsOutside_runMih _

theorem keepsOutside_forM_removeKey (keys : List VectorRecordKey) :
    KeepsOutside (keys.forM removeKey) := by
  induction keys with
  | nil => exact keeps_pure ()
  | cons key keys ih => exact (keepsOutside_removeKey key).bind fun _ => ih

/-- The table has one binary row at most for an item, an index and a model. -/
theorem contents_triple {table : VectorTable} {x y : VectorRecordKey}
    (hx : table.contents x ≠ none) (hy : table.contents y ≠ none) (h : x.triple = y.triple) :
    x = y := by
  obtain ⟨v, hv⟩ := Option.ne_none_iff_exists'.mp hx
  obtain ⟨w, hw⟩ := Option.ne_none_iff_exists'.mp hy
  have hrow := VectorTable.triple_injOn (table.represents_contents.mem.mpr hv)
    (table.represents_contents.mem.mpr hw) h
  exact congrArg Prod.fst hrow

theorem deleteAndTombstone_coherent (h : s.Coherent) (hclean : s.state.deferredIndexDirty = false)
    {itemId modelId : String} {vectorIndex : UInt32}
    (hrun : deleteAndTombstone itemId vectorIndex modelId s = .ok () s') : s'.Coherent := by
  rw [deleteAndTombstone, modifyTable_bind, get_bind] at hrun
  cases hbuilt : s.state.indexBuilt with
  | false =>
    simp only [hbuilt, Bool.not_false, if_true] at hrun
    cases hrun
    exact deleted_coherent_of_not_built (p := fun k => k.triple = (itemId, vectorIndex, modelId))
      h hbuilt
  | true =>
    simp only [hbuilt, Bool.not_true, Bool.false_eq_true, if_false] at hrun
    have hsynced := h.synced hbuilt hclean
    have hkeys := liveKeysWhere_eq hsynced.agree.1.built.toSized fun k =>
      k.triple = (itemId, vectorIndex, modelId)
    rw [liftExcept_bind_eq hkeys] at hrun
    cases hhead : ((s.state.bruteForceIndex.live.map (·.1)).filter fun k =>
        k.triple = (itemId, vectorIndex, modelId)).head? with
    | none =>
      have hnil := List.head?_eq_none_iff.mp hhead
      have hsame : s.table.contents.drop (fun k => k.triple = (itemId, vectorIndex, modelId)) =
          s.table.contents := by
        have hfalse := Contents.drop_congr (m := s.table.contents)
          (p := fun k => k.triple = (itemId, vectorIndex, modelId)) (q := fun _ => false)
          fun x hx => by
            have hnot := List.filter_eq_nil_iff.mp hnil x (hsynced.live.mem_keys.mpr hx)
            simpa using hnot
        rw [hfalse]
        funext x
        simp [Contents.drop]
      simp only [hhead] at hrun
      cases hrun
      exact deleted_coherent h hclean (by rw [hsame]; exact hsynced) hbuilt rfl rfl
    | some key =>
      simp only [hhead] at hrun
      obtain ⟨hlive, htriple⟩ := List.mem_filter.mp (List.mem_of_head? hhead)
      rw [decide_eq_true_eq] at htriple
      obtain ⟨_, s₁, hremove, hrun⟩ := estate_bind_ok.mp hrun
      obtain ⟨hsynced₁, hbuilt₁⟩ := removeKey_synced (m := s.table.contents)
        (s := s.deleted fun k => k.triple = (itemId, vectorIndex, modelId)) hsynced hremove
      have houtside := (keepsOutside_removeKey key).of_ok hremove
      have hdrop : s.table.contents.drop (· = key) =
          s.table.contents.drop fun k => k.triple = (itemId, vectorIndex, modelId) :=
        Contents.drop_congr fun x hx => by
          refine decide_eq_decide.mpr ⟨fun heq => heq ▸ htriple, fun hx' => ?_⟩
          exact contents_triple hx (hsynced.live.mem_keys.mp hlive) (hx'.trans htriple.symm)
      rw [hdrop] at hsynced₁
      rw [modifyState_bind, selectIndex_eq] at hrun
      cases hrun
      exact deleted_coherent h hclean ⟨hsynced₁.agree, hsynced₁.live, hsynced₁.store⟩
        (hbuilt₁.trans hbuilt) (congrArg Prod.fst houtside) (congrArg Prod.snd houtside)

theorem deletePayload_coherent (h : s.Coherent) {itemId modelId : String} {vectorIndex : UInt32}
    (hrun : deletePayload itemId vectorIndex modelId s = .ok () s') : s'.Coherent := by
  obtain ⟨_, s₁, hpublish, hrun⟩ := estate_bind_ok.mp hrun
  obtain ⟨h₁, hclean, _⟩ := publishIfDeferredDirty_coherent h hpublish
  exact deleteAndTombstone_coherent h₁ hclean hrun

theorem deleteAllVectors_coherent (h : s.Coherent) {itemId modelId : String}
    (hrun : deleteAllVectors itemId modelId s = .ok () s') : s'.Coherent := by
  obtain ⟨_, s₁, hpublish, hrun⟩ := estate_bind_ok.mp hrun
  obtain ⟨h₁, hclean, _⟩ := publishIfDeferredDirty_coherent h hpublish
  rw [modifyTable_bind, get_bind] at hrun
  cases hbuilt : s₁.state.indexBuilt with
  | false =>
    simp only [hbuilt, Bool.not_false, if_true] at hrun
    cases hrun
    exact deleted_coherent_of_not_built
      (p := fun k => decide (k.itemId = itemId ∧ k.modelId = modelId)) h₁ hbuilt
  | true =>
    simp only [hbuilt, Bool.not_true, Bool.false_eq_true, if_false] at hrun
    have hsynced := h₁.synced hbuilt hclean
    have hkeys := liveKeysWhere_eq hsynced.agree.1.built.toSized fun k =>
      decide (k.itemId = itemId ∧ k.modelId = modelId)
    rw [liftExcept_bind_eq hkeys] at hrun
    obtain ⟨_, s₂, hremove, hrun⟩ := estate_bind_ok.mp hrun
    obtain ⟨hsynced₂, hbuilt₂⟩ := forM_removeKey_synced (m := s₁.table.contents)
      (s := s₁.deleted fun k => decide (k.itemId = itemId ∧ k.modelId = modelId)) hsynced hremove
    have houtside := (keepsOutside_forM_removeKey _).of_ok hremove
    have hdrop := Contents.drop_congr (m := s₁.table.contents)
      (p := (· ∈ (s₁.state.bruteForceIndex.live.map (·.1)).filter fun k =>
        decide (k.itemId = itemId ∧ k.modelId = modelId)))
      (q := fun k => decide (k.itemId = itemId ∧ k.modelId = modelId)) fun x hx => by
        have hlive := hsynced.live.mem_keys.mpr hx
        refine decide_eq_decide.mpr ⟨fun hmem => ?_, fun hx' => ?_⟩
        · simpa using (List.mem_filter.mp hmem).2
        · exact List.mem_filter.mpr ⟨hlive, by simpa using hx'⟩
    rw [hdrop] at hsynced₂
    obtain ⟨removedCount, _, hrun⟩ := liftExcept_bind_ok hrun
    rw [modifyState_bind, selectIndex_eq] at hrun
    cases hrun
    exact deleted_coherent h₁ hclean ⟨hsynced₂.agree, hsynced₂.live, hsynced₂.store⟩
      (hbuilt₂.trans hbuilt) (congrArg Prod.fst houtside) (congrArg Prod.snd houtside)

end Deletes

section Rebuilds

theorem fills_replaceModel {table t : VectorTable} {modelId : String}
    {batch : List VectorPayloadInput} (h : table.contents.Fills)
    (hsizes : ∀ input ∈ batch, input.WellSized)
    (hreplace : table.replaceModel modelId batch = some t) : t.contents.Fills := by
  intro x v hx
  obtain ⟨row, hrow, hrecord⟩ := List.mem_map.mp (t.represents_contents.mem.mpr hx)
  obtain ⟨hrow, hkind⟩ := List.mem_filter.mp hrow
  rw [decide_eq_true_eq] at hkind
  have hbytes : row.input.payload.bytes = v := congrArg Prod.snd hrecord
  rw [← hbytes]
  rcases VectorTable.of_mem_replaceModel hreplace (List.mem_map_of_mem hrow) with hmem | hmem
  · exact hsizes _ hmem hkind
  · obtain ⟨row', hrow', hsame⟩ := List.mem_map.mp hmem
    refine h row'.key row.input.payload.bytes (table.represents_contents.mem.mp ?_)
    rw [← hsame] at hkind ⊢
    exact List.mem_map.mpr ⟨row', List.mem_filter.mpr ⟨hrow', by simpa using hkind⟩, rfl⟩

theorem replaceModelVectors_coherent (h : s.Coherent) {modelId : String}
    {batch : List VectorPayloadInput} (hsizes : ∀ input ∈ batch, input.WellSized)
    (hwindow : s.state.deferredIndexActive = true → s.state.deferredIndexDirty = true)
    (hrun : replaceModelVectors modelId batch s = .ok () s') : s'.Coherent := by
  rw [replaceModelVectors] at hrun
  cases hint8 : batch.find? fun input => input.payload.kind = .int8 with
  | some bad =>
    rw [hint8] at hrun
    cases hrun
  | none =>
    rw [hint8] at hrun
    simp only at hrun
    obtain ⟨_, s₁, hpublish, hrun⟩ := estate_bind_ok.mp hrun
    obtain ⟨h₁, hclean, htable₁, hclosed, hsame⟩ := publishIfDeferredDirty_coherent h hpublish
    have hoff : s₁.state.deferredIndexActive = false := by
      cases hdirty : s.state.deferredIndexDirty with
      | true => exact hclosed hdirty
      | false =>
        rw [hsame hdirty]
        by_contra hon
        cases hdirty.symm.trans (hwindow (by simpa using hon))
    rw [get_bind] at hrun
    cases hreplace : s₁.table.replaceModel modelId batch with
    | none =>
      rw [hreplace] at hrun
      cases hrun
    | some table =>
      rw [hreplace] at hrun
      simp only at hrun
      rw [modifyTable_bind] at hrun
      obtain ⟨_, s₂, hrebuild, hrun⟩ := estate_bind_ok.mp hrun
      have hfills := fills_replaceModel h₁.fills hsizes hreplace
      have hsynced := rebuildFromTable_synced (s := { s₁ with table := table })
        h₁.held.agree.2.inv.tables_length hfills (fun store hstore =>
          ⟨(h₁.held.store store hstore).kind, (h₁.held.store store hstore).stride⟩) hrebuild
      have houtside := keepsOutside_rebuildFromTable.of_ok hrebuild
      have htable : s₂.table = table := congrArg Prod.fst houtside
      have hwindow₂ : s₂.state.window = s₁.state.window := congrArg Prod.snd houtside
      rw [modifyState_bind, selectIndex_eq] at hrun
      cases hrun
      refine h₁.resynced hclean hwindow₂ ?_ rfl
        (tracked_of_idle ((congrArg DeferredWindow.active hwindow₂).trans hoff))
      show HotState.Synced _ s₂.table.contents
      rw [htable]
      exact ⟨hsynced.agree, hsynced.live, hsynced.store⟩

/-- The emptied residents hold nothing. -/
theorem clearResidents_synced (htables : s.state.mihIndex.tables.length = s.state.mihIndex.m)
    (hstore : ∀ store, s.state.arrayStore = some store →
      store.array.kind = .binary ∧ store.array.stride = 32)
    (hrun : clearResidents s = .ok () s') :
    s'.state.Synced (fun _ => none) ∧ s'.table = s.table := by
  have hfill : FillsSlots 32 [] := fun r hr => absurd hr List.not_mem_nil
  have hnil : Contents.Fills fun _ => none := fun x v hx => by cases hx
  rw [clearResidents, get_bind] at hrun
  cases harray : s.state.arrayStore with
  | none =>
    simp only [harray, Option.isSome_none, Bool.false_eq_true, if_false] at hrun
    have hbuild : buildIndexes [] [] s = .ok () { s with state := s.state.indexed [] } :=
      @buildIndexes_eq s [] hfill
    rw [hbuild] at hrun
    cases hrun
    refine ⟨HotState.synced_indexed htables represents_nil hnil fun store hsome => ?_, rfl⟩
    rw [harray] at hsome
    cases hsome
  | some store =>
    simp only [harray, Option.isSome_some, if_true] at hrun
    obtain ⟨hkind, hstride⟩ := hstore store harray
    obtain ⟨store', hrebuild, hbuild⟩ := runStore_bind_ok harray hrun
    have hholds := ResidentArrayStore.holds_rebuildFrom hkind hstride hfill represents_nil hrebuild
    rw [buildFromStore_eq rfl hholds] at hbuild
    cases hbuild
    refine ⟨HotState.synced_indexed htables hholds.live hnil fun store₁ hsome => ?_, rfl⟩
    cases hsome
    exact hholds

theorem destroyAllVectors_coherent (h : s.Coherent) (hrun : destroyAllVectors s = .ok () s') :
    s'.Coherent := by
  rw [destroyAllVectors, modifyTable_bind] at hrun
  obtain ⟨_, s₁, hclear, hrun⟩ := estate_bind_ok.mp hrun
  obtain ⟨hsynced, htable⟩ := clearResidents_synced (s := s.deleted fun _ => true)
    h.held.agree.2.inv.tables_length (fun store hstore =>
      ⟨(h.held.store store hstore).kind, (h.held.store store hstore).stride⟩) hclear
  have hnone : s₁.table.contents = fun _ => none := by
    have hcontents : s₁.table.contents = s.table.contents.drop fun _ => true := by
      rw [htable]
      exact contents_deleted s fun _ => true
    rw [hcontents]
    funext x
    rfl
  cases hrun
  refine coherent_of_synced ?_ rfl rfl rfl (tracked_of_idle rfl)
  show HotState.Synced _ s₁.table.contents
  rw [hnone]
  exact ⟨hsynced.agree, hsynced.live, hsynced.store⟩

end Rebuilds

section Searches

variable {order : IterationOrder CodeEntry} {probe : Engram} {modelId : String} {k : Nat}
  {found : List VectorMatch}

/-- Either index answers with the nearest rows. -/
theorem search_synced (h : s.state.Synced s.table.contents) (order : IterationOrder CodeEntry)
    (probe : Engram) (k : Nat) (filter : Option MetadataFilter) :
    (if s.state.isMihActive then
        s.state.mihIndex.search order (.fromEngram probe) DenseMetric.HAMMING k filter
      else s.state.bruteForceIndex.search (.fromEngram probe) DenseMetric.HAMMING k filter) =
      .ok (nearest probe k filter (codesOf s.table.binaryRecords)) := by
  have hcode : (VectorPayload.fromEngram probe).IsCode := ⟨rfl, probe.length_wireBytes⟩
  have hrows : (codesOf s.state.bruteForceIndex.live).Perm (codesOf s.table.binaryRecords) :=
    (h.live.perm s.table.represents_contents).map _
  have hprobe : Engram.ofLeBytes (VectorPayload.fromEngram probe).bytes = probe :=
    probe.ofLeBytes_wireBytes
  have hbrute := BruteForceIndex.search_eq h.agree.1 hcode k filter
  rw [nearest_perm hrows, hprobe] at hbrute
  split
  next => exact (h.agree.search order hcode k filter).trans hbrute
  next => exact hbrute

theorem findNearest_zero :
    findNearest order probe modelId 0 s = .ok (s.table.nearestRows probe modelId 0) s := by
  rw [findNearest, if_pos rfl, VectorTable.nearestRows, nearest_zero]
  rfl

/-- Over opened residents with nothing kept back a search answers with the nearest rows. -/
theorem findNearest_opened (h : s.Coherent) (hclean : s.state.deferredIndexDirty = false)
    (hk : k ≠ 0) {s₁ : VectorStore} (hopen : ensureIndexBuiltLocked s = .ok () s₁) :
    findNearest order probe modelId k s = .ok (s.table.nearestRows probe modelId k) s₁ := by
  obtain ⟨h₁, hbuilt, houtside⟩ := ensureIndexBuiltLocked_coherent h hopen
  have htable : s₁.table = s.table := congrArg Prod.fst houtside
  have hwindow : s₁.state.window = s.state.window := congrArg Prod.snd houtside
  have hsynced := h₁.synced hbuilt ((congrArg DeferredWindow.dirty hwindow).trans hclean)
  have hrows := search_synced hsynced order probe k
    (some { modelId := some modelId, modelVersion := none })
  rw [findNearest, if_neg hk]
  refine estate_bind_ok.mpr ⟨(), s₁, hopen, ?_⟩
  rw [get_bind, liftExcept_bind_eq hrows, htable]
  rfl

/-- A search may build the residents; with nothing kept back it answers with the nearest rows. -/
theorem findNearest_coherent (h : s.Coherent)
    (hrun : findNearest order probe modelId k s = .ok found s') : s'.Coherent ∧
      s'.table = s.table ∧ (s.state.deferredIndexDirty = false →
        found = s.table.nearestRows probe modelId k) := by
  by_cases hk : k = 0
  · rw [hk, findNearest_zero] at hrun
    cases hrun
    rw [hk]
    exact ⟨h, rfl, fun _ => rfl⟩
  · have hsearch := hrun
    rw [findNearest, if_neg hk] at hrun
    obtain ⟨_, s₁, hopen, hrun⟩ := estate_bind_ok.mp hrun
    obtain ⟨h₁, _, houtside⟩ := ensureIndexBuiltLocked_coherent h hopen
    rw [get_bind] at hrun
    obtain ⟨hits, _, hrun⟩ := liftExcept_bind_ok hrun
    cases hrun
    refine ⟨h₁, congrArg Prod.fst houtside, fun hclean => ?_⟩
    exact (EStateM.Result.ok.inj (hsearch.symm.trans (findNearest_opened h hclean hk hopen))).1

theorem exists_ensureIndexBuiltLocked (h : s.Coherent)
    (hready : s.state.indexBuilt = true ∨ s.state.arrayStore = none) :
    ∃ s', ensureIndexBuiltLocked s = .ok () s' := by
  cases hbuilt : s.state.indexBuilt with
  | true => exact ⟨s, ensureIndexBuiltLocked_of_built hbuilt⟩
  | false =>
    have hnone : s.state.arrayStore = none := by
      rcases hready with hready | hready
      · cases hbuilt.symm.trans hready
      · exact hready
    have hfill := (represents_fetchAll s.table).fillsSlots h.fills
    have hbuild := buildFromRecords_eq (s := { s with
      state.liveBinaryCount := asU32 (fetchAllBinaryRecords s.table).length }) hfill
    obtain ⟨s₁, hrebuild⟩ : ∃ s₁, rebuildFromTable s = .ok () s₁ := by
      rw [rebuildFromTable, get_bind, modifyState_bind, if_neg (by simp [hnone])]
      exact ⟨_, hbuild⟩
    refine ⟨opened s₁, ?_⟩
    rw [ensureIndexBuiltLocked_of_not_built hbuilt, buildResidents_of_none hnone, hrebuild]

/-- Over built residents, and over a store without a sidecar, no search fails. -/
theorem findNearest_answers (h : s.Coherent) (hclean : s.state.deferredIndexDirty = false)
    (hready : s.state.indexBuilt = true ∨ s.state.arrayStore = none) :
    ∃ s', findNearest order probe modelId k s = .ok (s.table.nearestRows probe modelId k) s' := by
  obtain ⟨s₁, hopen⟩ := exists_ensureIndexBuiltLocked h hready
  by_cases hk : k = 0
  · rw [hk]
    exact ⟨s, findNearest_zero⟩
  · exact ⟨s₁, findNearest_opened h hclean hk hopen⟩

end Searches

end VectorStore

/-- A call on a vector store. -/
inductive VectorCall where
  | addPayload (input : VectorPayloadInput)
  | addPayloads (batch : List VectorPayloadInput)
  | deletePayload (itemId : String) (vectorIndex : UInt32) (modelId : String)
  | deleteVector (itemId modelId : String)
  | deleteAllVectors (itemId modelId : String)
  | replaceModelVectors (modelId : String) (batch : List VectorPayloadInput)
  | destroyAllVectors
  | beginDeferredIndex
  | publishResidentIndex
  | flush
  | findNearest (order : IterationOrder CodeEntry) (probe : Engram) (modelId : String) (k : Nat)

namespace VectorCall

def run : VectorCall → EStateM Fault VectorStore Unit
  | addPayload input => VectorStore.addPayload input
  | addPayloads batch => VectorStore.addPayloads batch
  | deletePayload itemId vectorIndex modelId => VectorStore.deletePayload itemId vectorIndex modelId
  | deleteVector itemId modelId => VectorStore.deleteVector itemId modelId
  | deleteAllVectors itemId modelId => VectorStore.deleteAllVectors itemId modelId
  | replaceModelVectors modelId batch => VectorStore.replaceModelVectors modelId batch
  | destroyAllVectors => VectorStore.destroyAllVectors
  | beginDeferredIndex => VectorStore.beginDeferredIndex
  | publishResidentIndex => VectorStore.publishResidentIndex
  | flush => VectorStore.flush
  | findNearest order probe modelId k => do
    let _ ← VectorStore.findNearest order probe modelId k

/-- The store a call ends in, unless it fails. -/
def outcome (call : VectorCall) (s : VectorStore) : Option VectorStore :=
  match call.run s with
  | .ok _ s' => some s'
  | .error _ _ => none

theorem run_of_outcome {call : VectorCall} {s : VectorStore} (h : (call.outcome s).isSome = true) :
    call.run s = .ok () ((call.outcome s).getD s) := by
  rw [outcome] at h ⊢
  cases hrun : call.run s with
  | ok a s' => rfl
  | error e s' =>
    rw [hrun] at h
    cases h

/-- Binary payloads are codes; a row is rewritten under the version it has; the binary keys of a
batch are distinct; within a window binary payloads come in batches, and a model is only replaced
when something is kept back, which ends the window. -/
def Ready (s : VectorStore) : VectorCall → Prop
  | addPayload input => input.WellSized ∧ s.table.Replaces input ∧
      (input.payload.kind = .binary → s.state.deferredIndexActive = false)
  | addPayloads batch => (∀ input ∈ batch, input.WellSized) ∧ s.table.ReplacesAll batch ∧
      ((VectorStore.binaryInputs batch).map (·.1)).Nodup
  | replaceModelVectors _ batch => (∀ input ∈ batch, input.WellSized) ∧
      (s.state.deferredIndexActive = true → s.state.deferredIndexDirty = true)
  | _ => True

end VectorCall

namespace VectorStore

variable {s s' : VectorStore} {calls : List VectorCall}

theorem coherent_call (h : s.Coherent) {call : VectorCall} (hready : call.Ready s)
    (hrun : call.run s = .ok () s') : s'.Coherent := by
  cases call with
  | addPayload input => exact addPayload_coherent h hready.1 hready.2.1 hready.2.2 hrun
  | addPayloads batch => exact addPayloads_coherent h hready.1 hready.2.1 hready.2.2 hrun
  | deletePayload itemId vectorIndex modelId => exact deletePayload_coherent h hrun
  | deleteVector itemId modelId => exact deletePayload_coherent h hrun
  | deleteAllVectors itemId modelId => exact deleteAllVectors_coherent h hrun
  | replaceModelVectors modelId batch =>
    exact replaceModelVectors_coherent h hready.1 hready.2 hrun
  | destroyAllVectors => exact destroyAllVectors_coherent h hrun
  | beginDeferredIndex => exact beginDeferredIndex_coherent h hrun
  | publishResidentIndex => exact (publishResidentIndex_coherent h hrun).1
  | flush => exact flush_coherent h hrun
  | findNearest order probe modelId k =>
    obtain ⟨found, s₁, hsearch, hrest⟩ := estate_bind_ok.mp hrun
    cases hrest
    exact (findNearest_coherent h hsearch).1

/-- Calls that end well one after the other, each made when it is ready. -/
inductive ReadyRun : VectorStore → List VectorCall → VectorStore → Prop
  | nil (s : VectorStore) : ReadyRun s [] s
  | cons {s s₁ s' : VectorStore} {call : VectorCall} {calls : List VectorCall}
      (ready : call.Ready s) (ran : call.run s = .ok () s₁) (rest : ReadyRun s₁ calls s') :
      ReadyRun s (call :: calls) s'

theorem coherent_run (h : s.Coherent) (hrun : ReadyRun s calls s') : s'.Coherent := by
  induction hrun with
  | nil s => exact h
  | cons ready ran rest ih => exact ih (coherent_call h ready ran)

theorem ReadyRun.append {s₁ : VectorStore} {later : List VectorCall} (h : ReadyRun s calls s₁)
    (hlater : ReadyRun s₁ later s') : ReadyRun s (calls ++ later) s' := by
  induction h with
  | nil s => exact hlater
  | cons ready ran rest ih => exact .cons ready ran (ih hlater)

section FirstProcess

variable {table : VectorTable} {arrayStore : Option ResidentArrayStore} {mihThreshold : Nat}
  {mihBandCount : MIHBandCount} {deferredPendingLimit : Nat} {insertConflict : String}

/-- The first process over a table of codes, with a blank sidecar or with none. -/
theorem coherent_newInternal (hfills : table.contents.Fills)
    (hblank : ∀ store, arrayStore = some store → store.Blank) :
    (newInternal table arrayStore mihThreshold mihBandCount deferredPendingLimit
      insertConflict).Coherent := by
  have hagree : Agree .new (.new mihBandCount) :=
    ⟨BruteForceIndex.inv_new, MIHIndex.tracks_empty (MIHIndex.inv_newWithBudget mihBandCount none) rfl⟩
  have hholds : ∀ store, arrayStore = some store → store.Holds fun _ => none := by
    intro store hstore
    have harray := (hblank store hstore).array
    refine ⟨?_, ?_, ?_, ?_⟩
    · rw [harray]
      exact built_empty _ _
    · rw [harray]
      rfl
    · rw [harray]
      rfl
    · rw [harray]
      exact represents_nil
  refine ⟨⟨hagree, hholds, fun _ => rfl, fun _ => ⟨rfl, represents_nil⟩, fun _ => rfl, fun _ =>
    ⟨rfl, rfl, fun store hstore => ⟨(hblank store hstore).file, (hblank store hstore).clean⟩⟩,
    fun x v hx => ?_⟩, hfills, tracked_of_idle rfl⟩
  cases hx

/-- The rows that the residents are to hold. -/
def residentRows (s : VectorStore) : List VectorRecord :=
  if s.state.indexBuilt then s.table.binaryRecords else []

/-- The live slots of the linear scan, the entries of the hashing index and the live slots of the
array store are the binary rows of the table, one for each. -/
structure MirrorsTable (s : VectorStore) : Prop where
  bruteForce : s.state.bruteForceIndex.live.Perm s.residentRows
  mih : s.state.mihIndex.entries.Perm (codesOf s.residentRows)
  arrayStore : ∀ store, s.state.arrayStore = some store →
    store.array.liveRecords.Perm s.residentRows

theorem represents_residentRows (s : VectorStore) : Represents s.residentRows s.mirrored := by
  rw [residentRows, mirrored]
  split
  next => exact s.table.represents_contents
  next => exact represents_nil

theorem Coherent.mirrorsTable (h : s.Coherent) (hclean : s.state.deferredIndexDirty = false) :
    s.MirrorsTable := by
  have hsynced := h.held.synced hclean
  have hrows := represents_residentRows s
  refine ⟨hsynced.live.perm hrows, ?_, fun store hstore => (hsynced.store store hstore).live.perm hrows⟩
  exact hsynced.agree.2.perm_entries.trans ((hsynced.live.perm hrows).map _)

/-- In every run of ready calls the residents mirror the table whenever no window keeps something
back, and publishing a window makes them. -/
theorem mirrorsTable_of_readyRun (hfills : table.contents.Fills)
    (hblank : ∀ store, arrayStore = some store → store.Blank)
    (hrun : ReadyRun (newInternal table arrayStore mihThreshold mihBandCount deferredPendingLimit
      insertConflict) calls s) :
    (s.state.deferredIndexDirty = false → s.MirrorsTable) ∧
      ∀ s', publishResidentIndex s = .ok () s' → s'.table = s.table ∧ s'.MirrorsTable := by
  have h := coherent_run (coherent_newInternal hfills hblank) hrun
  refine ⟨h.mirrorsTable, fun s' hpublish => ?_⟩
  obtain ⟨h', hactive, htable⟩ := publishResidentIndex_coherent h hpublish
  exact ⟨htable, h'.mirrorsTable (h'.held.idle hactive)⟩

def codeInput : VectorPayloadInput := ⟨"a", 0, .fromEngram ⟨5, 0, 0, 0⟩, "m", "1", 0⟩

/-- A window is opened. -/
def windowOpened : VectorStore := (VectorCall.beginDeferredIndex.outcome freshStore).getD freshStore

/-- A code is kept back. -/
def windowKept : VectorStore :=
  ((VectorCall.addPayloads [codeInput]).outcome windowOpened).getD windowOpened

/-- The window is published. -/
def windowPublished : VectorStore :=
  (VectorCall.publishResidentIndex.outcome windowKept).getD windowKept

theorem fills_empty : VectorTable.empty.contents.Fills := fun x v hx => by cases hx

theorem blank_none : ∀ store, (none : Option ResidentArrayStore) = some store → store.Blank :=
  fun store h => by cases h

theorem readyRun_kept :
    ReadyRun freshStore [.beginDeferredIndex, .addPayloads [codeInput]] windowKept := by
  have hbinary : windowOpened.table.binaryRecords = [] := by decide +kernel
  have hready : (VectorCall.addPayloads [codeInput]).Ready windowOpened := by
    refine ⟨fun input hinput _ => ?_, ⟨fun r hr => ?_, trivial⟩, by decide +kernel⟩
    · rw [List.mem_singleton.mp hinput]
      rfl
    · rw [hbinary] at hr
      cases hr
  have hopened : VectorCall.beginDeferredIndex.run freshStore = .ok () windowOpened :=
    VectorCall.run_of_outcome (by decide +kernel)
  have hkept : (VectorCall.addPayloads [codeInput]).run windowOpened = .ok () windowKept :=
    VectorCall.run_of_outcome (by decide +kernel)
  exact .cons trivial hopened (.cons hready hkept (.nil _))

theorem run_published : publishResidentIndex windowKept = .ok () windowPublished :=
  @VectorCall.run_of_outcome .publishResidentIndex windowKept (by decide +kernel)

theorem mirrorsTable_of_readyRun_window : windowKept.state.deferredIndexDirty = true ∧
    windowPublished.table = windowKept.table ∧ windowPublished.MirrorsTable :=
  ⟨by decide +kernel, (mirrorsTable_of_readyRun fills_empty blank_none readyRun_kept).2 _
    run_published⟩

/-- In every run of ready calls a search with nothing kept back answers with the nearest rows of
the table, and it answers when the residents are built or there is no sidecar. -/
theorem findNearest_of_readyRun (hfills : table.contents.Fills)
    (hblank : ∀ store, arrayStore = some store → store.Blank)
    (hrun : ReadyRun (newInternal table arrayStore mihThreshold mihBandCount deferredPendingLimit
      insertConflict) calls s) (hclean : s.state.deferredIndexDirty = false)
    (order : IterationOrder CodeEntry) (probe : Engram) (modelId : String) (k : Nat) :
    (∀ found s', findNearest order probe modelId k s = .ok found s' →
      found = s.table.nearestRows probe modelId k) ∧
    (s.state.indexBuilt = true ∨ s.state.arrayStore = none →
      ∃ s', findNearest order probe modelId k s = .ok (s.table.nearestRows probe modelId k) s') := by
  have h := coherent_run (coherent_newInternal hfills hblank) hrun
  refine ⟨fun found s' hsearch => ?_, findNearest_answers h hclean⟩
  obtain ⟨_, _, hfound⟩ := findNearest_coherent h hsearch
  exact hfound hclean

theorem findNearest_of_readyRun_window :
    ∃ s', findNearest .stored ⟨4, 0, 0, 0⟩ "m" 1 windowPublished = .ok [⟨"a", 1, "m"⟩] s' := by
  have hrun : ReadyRun freshStore
      [.beginDeferredIndex, .addPayloads [codeInput], .publishResidentIndex] windowPublished :=
    readyRun_kept.append (.cons trivial run_published (.nil _))
  have hrows : windowPublished.table.nearestRows ⟨4, 0, 0, 0⟩ "m" 1 = [⟨"a", 1, "m"⟩] := by
    decide +kernel
  have h := (findNearest_of_readyRun fills_empty blank_none hrun (by decide +kernel) .stored
    ⟨4, 0, 0, 0⟩ "m" 1).2 (.inl (by decide +kernel))
  rw [hrows] at h
  exact h

end FirstProcess

end VectorStore

end MootMemory
