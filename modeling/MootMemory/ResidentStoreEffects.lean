import MootMemory.ResidentStore

namespace MootMemory.ResidentArrayStore

open ResidentVectorArray

variable {s s' : ResidentArrayStore} {e : VectorKitError}

theorem checkStride_ok {caller : String} {stride : Nat} {bytes : List UInt8} {u : Unit} :
    checkStride caller stride bytes = .ok u ↔ bytes.length = stride := by
  unfold checkStride
  split
  next h => simp [h]
  next h => simp [not_not.mp h]

theorem forM_checkStride_ok {caller : String} {stride : Nat} {records : List VectorRecord}
    {u : Unit} : (records.forM fun r => checkStride caller stride r.2) = .ok u ↔
      FillsSlots stride records := by
  induction records with
  | nil => simp [FillsSlots, pure, Except.pure]
  | cons r rs ih =>
    have hcons : (r :: rs).forM (fun r => checkStride caller stride r.2) =
        (checkStride caller stride r.2 >>= fun _ => rs.forM fun r => checkStride caller stride r.2) :=
      rfl
    rw [hcons, except_bind_ok]
    simp only [checkStride_ok, ih, FillsSlots, List.mem_cons, forall_eq_or_imp]
    exact ⟨fun ⟨_, h⟩ => h, fun h => ⟨(), h⟩⟩

/-- The state that a call leaves, unless it panics. -/
def endState (x : EStateM Fault ResidentArrayStore Unit) (s : ResidentArrayStore) :
    Option ResidentArrayStore :=
  match x s with
  | .ok _ s' => some s'
  | .error (.err _) s' => some s'
  | .error .panic _ => none

theorem endState_congr {x y : EStateM Fault ResidentArrayStore Unit} (h : x s = y s) :
    endState x s = endState y s := by rw [endState, h, endState]

theorem endState_ok {x : EStateM Fault ResidentArrayStore Unit} (h : x s = .ok () s') :
    endState x s = some s' := by rw [endState, h]

theorem endState_error {x : EStateM Fault ResidentArrayStore Unit}
    (h : x s = .error (.err e) s') : endState x s = some s' := by rw [endState, h]

theorem append_eq (key : VectorRecordKey) (bytes : List UInt8) :
    append key bytes s = if bytes.length = s.array.stride then
      persistAndCompact (appendingArray s.array key bytes) s
    else .error (.err (.invalidPayload
      s!"ResidentArrayStore.append: bytes.len()={bytes.length} != stride={s.array.stride}")) s := by
  simp only [append, bind, EStateM.bind, get_eq, checkStride]
  by_cases h : bytes.length = s.array.stride
  · rw [if_neg (not_not.mpr h), if_pos h]
  · rw [if_pos h, if_neg h]
    rfl

theorem appendDeferred_eq (key : VectorRecordKey) (bytes : List UInt8) :
    appendDeferred key bytes s = if bytes.length = s.array.stride then
      .ok () { s with array := appendingArray s.array key bytes, isDirty := true }
    else .error (.err (.invalidPayload
      s!"ResidentArrayStore.append_deferred: bytes.len()={bytes.length} != stride={s.array.stride}"))
      s := by
  simp only [appendDeferred, bind, EStateM.bind, get_eq, checkStride]
  by_cases h : bytes.length = s.array.stride
  · rw [if_neg (not_not.mpr h), if_pos h]
    rfl
  · rw [if_pos h, if_neg h]
    rfl

theorem tombstoned_eq {arr : ResidentVectorArray} (h : arr.keys.length = arr.count)
    (p : VectorRecordKey → Bool) : tombstoned arr p =
      .ok (if arr.keys.any p then some (arr.retire (arr.marked p)) else none) := by
  have hchanged : (markedWords arr.keys arr.tombstones p arr.count).2 = arr.keys.any p := by
    rw [markedWords_changed, ← h, List.take_length]
  simp only [tombstoned, tombstoneMatching_eq h, bind, Except.bind, hchanged]
  cases arr.keys.any p <;> rfl

theorem forM_checkStride_error {caller : String} {stride : Nat} {records : List VectorRecord}
    {f : Fault} (h : (records.forM fun r => checkStride caller stride r.2) = .error f) :
    ¬ FillsSlots stride records ∧ ∃ text, f = .err (.invalidPayload text) := by
  constructor
  · intro hfill
    rw [forM_checkStride_ok (u := ()) |>.mpr hfill] at h
    cases h
  · induction records with
    | nil => cases h
    | cons r rs ih =>
      rcases except_bind_error.mp h with hr | ⟨_, _, hrs⟩
      · simp only [checkStride] at hr
        split at hr
        next => exact ⟨_, (Except.error.inj hr).symm⟩
        next => cases hr
      · exact ih hrs

theorem appendBatch_of_fills {records : List VectorRecord} (hne : records ≠ [])
    (hfill : FillsSlots s.array.stride records) :
    appendBatch records s = persistAndCompact (s.array.extend s.array.tombstones records) s := by
  have hcheck : (records.forM fun r => checkStride "append_batch" s.array.stride r.2) = .ok () :=
    forM_checkStride_ok.mpr hfill
  simp only [appendBatch, if_neg hne, bind, EStateM.bind, get_eq, hcheck]

theorem appendBatch_of_not_fills {records : List VectorRecord}
    (hfill : ¬ FillsSlots s.array.stride records) :
    ∃ text, appendBatch records s = .error (.err (.invalidPayload text)) s := by
  have hne : records ≠ [] := by
    rintro rfl
    exact hfill (by simp [FillsSlots])
  cases hcheck : records.forM fun r => checkStride "append_batch" s.array.stride r.2 with
  | ok u => exact absurd (forM_checkStride_ok.mp hcheck) hfill
  | error f =>
    obtain ⟨_, text, rfl⟩ := forM_checkStride_error hcheck
    refine ⟨text, ?_⟩
    simp only [appendBatch, if_neg hne, bind, EStateM.bind, get_eq, hcheck]
    rfl

theorem flush_eq : flush s = if s.isDirty then persistAndCompact s.array s else .ok () s := by
  simp only [flush, bind, EStateM.bind, get_eq]
  cases s.isDirty <;> rfl

theorem tombstone_eq (h : s.array.keys.length = s.array.count) (key : VectorRecordKey) :
    tombstone key s = if s.array.keys.any (· = key) then
      persistAndCompact (s.array.retire (s.array.marked (· = key))) s else .ok () s := by
  simp only [tombstone, bind, EStateM.bind, get_eq, tombstoned_eq h]
  cases s.array.keys.any (· = key) <;> rfl

theorem tombstoneDeferred_eq (h : s.array.keys.length = s.array.count)
    (keys : List VectorRecordKey) : tombstoneDeferred keys s =
      if s.array.keys.any (· ∈ keys) then
        .ok () { s with array := s.array.retire (s.array.marked (· ∈ keys)), isDirty := true }
      else .ok () s := by
  by_cases hnil : keys = []
  · subst hnil
    have hany : s.array.keys.any (fun key => decide (key ∈ ([] : List VectorRecordKey))) = false := by
      simp
    rw [hany]
    rfl
  · simp only [tombstoneDeferred, if_neg hnil, bind, EStateM.bind, get_eq, tombstoned_eq h]
    cases s.array.keys.any (· ∈ keys) <;> rfl

theorem rebuildFrom_eq (records : List VectorRecord) :
    rebuildFrom records s = persist (.ofRecords s.array.kind s.array.stride records) s := by
  simp only [rebuildFrom, bind, EStateM.bind, get_eq, buildArray]

theorem persist_end {arr : ResidentVectorArray} (hbuilt : arr.Built) (hfaults : s.faults = [])
    (h : endState (persist arr) s = some s') : Wrote s arr s' := by
  unfold endState at h
  cases hrun : persist arr s with
  | ok u s₁ =>
    rw [hrun] at h
    cases h
    exact persist_wrote hbuilt hrun
  | error f s₁ =>
    obtain rfl := persist_error hfaults hrun
    rw [hrun] at h
    cases h

theorem persistAndCompact_end {arr : ResidentVectorArray} (hbuilt : arr.Built)
    (hfaults : s.faults = []) (h : endState (persistAndCompact arr) s = some s') :
    Wrote s arr s' := by
  unfold endState at h
  cases hrun : persistAndCompact arr s with
  | ok u s₁ =>
    rw [hrun] at h
    cases h
    exact persistAndCompact_wrote hbuilt hrun
  | error f s₁ =>
    obtain rfl := persistAndCompact_error hbuilt hfaults hrun
    rw [hrun] at h
    cases h

/-- Retiring keys that no slot has changes no record. -/
theorem filter_liveRecords_of_not_any {arr : ResidentVectorArray} {p : VectorRecordKey → Bool}
    (h : ¬ arr.keys.any p) : (arr.liveRecords.filter fun r => !p r.1) = arr.liveRecords := by
  apply List.filter_eq_self.mpr
  intro r hr
  obtain ⟨i, _, hget, _⟩ := Sized.mem_liveRecords hr
  have hkey := List.mem_of_getElem? hget
  cases hp : p r.1 with
  | false => rfl
  | true => exact absurd (List.any_eq_true.mpr ⟨_, hkey, hp⟩) h

end MootMemory.ResidentArrayStore
