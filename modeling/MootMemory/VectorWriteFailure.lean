import MootMemory.VectorStoreEffects

namespace MootMemory

open VectorStore ResidentArrayStore

/-- A call that writes payloads. -/
inductive WriteCall where
  | addPayload (input : VectorPayloadInput)
  | addPayloads (batch : List VectorPayloadInput)

namespace WriteCall

def run : WriteCall → EStateM Fault VectorStore Unit
  | addPayload input => VectorStore.addPayload input
  | addPayloads batch => VectorStore.addPayloads batch

def inputs : WriteCall → List VectorPayloadInput
  | addPayload input => [input]
  | addPayloads batch => batch

/-- A payload of the call has the kind that is refused before any write. -/
def HasInt8 (call : WriteCall) : Prop := ∃ input ∈ call.inputs, input.payload.kind = .int8

end WriteCall

/-- The parts of the store that a failed write is to leave alone. -/
structure Untouched (s s' : VectorStore) : Prop where
  table : s'.table = s.table
  arrayStore : s'.state.arrayStore = s.state.arrayStore
  bruteForceIndex : s'.state.bruteForceIndex = s.state.bruteForceIndex
  mihIndex : s'.state.mihIndex = s.state.mihIndex
  liveBinaryCount : s'.state.liveBinaryCount = s.state.liveBinaryCount

namespace VectorStore

/-- A fresh process over the table and the file that a store leaves behind. -/
def reopen (s : VectorStore) : VectorStore :=
  newInternal s.table (s.state.arrayStore.map fun store => .newBinary store.file)
    s.state.mihThreshold s.state.mihIndex.bandCount s.state.deferredPendingLimit s.insertConflict

/-- Both indexes can be built. -/
def Builds (s : VectorStore) : Prop := ∃ s', ensureIndexBuiltLocked s = .ok () s'

variable {s s' : VectorStore} {e : Fault}

theorem addPayload_of_int8 {input : VectorPayloadInput} (h : input.payload.kind = .int8) :
    addPayload input s = .error (.err (.int8QuantizationPolicyUndefined int8Rejected)) s := by
  rw [addPayload, if_pos h]
  rfl

theorem addPayload_of_not_int8 {input : VectorPayloadInput} (h : input.payload.kind ≠ .int8) :
    addPayload input s =
      (if input.payload.kind = .binary then mirrorBinary input.key input.payload else pure ())
        { s with table := s.table.upsert input } := by
  rw [addPayload, if_neg h]
  rfl

theorem addPayloads_of_int8 {batch : List VectorPayloadInput}
    (h : ∃ input ∈ batch, input.payload.kind = .int8) :
    ∃ e, addPayloads batch s = .error (.err e) s := by
  obtain ⟨input, hinput, hkind⟩ := h
  have hne : batch ≠ [] := List.ne_nil_of_mem hinput
  have hsome : (batch.find? fun input => input.payload.kind = .int8).isSome := by
    rw [List.find?_isSome]
    exact ⟨input, hinput, by simpa using hkind⟩
  obtain ⟨bad, hbad⟩ := Option.isSome_iff_exists.mp hsome
  refine ⟨.int8QuantizationPolicyUndefined (int8BatchRejected bad.itemId), ?_⟩
  rw [addPayloads, if_neg hne, hbad]
  rfl

theorem addPayloads_of_not_int8 {batch : List VectorPayloadInput} (hne : batch ≠ [])
    (h : ¬∃ input ∈ batch, input.payload.kind = .int8) :
    addPayloads batch s = mirrorInputs batch { s with table := s.table.upsertAll batch } := by
  have hnone : (batch.find? fun input => input.payload.kind = .int8) = none := by
    rw [List.find?_eq_none]
    intro input hinput
    simpa using fun hkind => h ⟨input, hinput, hkind⟩
  rw [addPayloads, if_neg hne, hnone]
  rfl

/-- A failing write that refuses no kind has written its rows. -/
theorem rows_ne_of_addPayload_error {input : VectorPayloadInput} (h : input.payload.kind ≠ .int8)
    (hrun : addPayload input s = .error e s') : s'.table.rows ≠ s.table.rows := by
  rw [addPayload_of_not_int8 h] at hrun
  have hmirror := keepsTable_of_outside (keepsOutside_mirrorBinary input.key input.payload)
  rw [(hmirror.ite (keeps_pure ())).of_error hrun]
  exact s.table.upsert_ne input

theorem rows_ne_of_addPayloads_error {batch : List VectorPayloadInput}
    (h : ¬∃ input ∈ batch, input.payload.kind = .int8)
    (hrun : addPayloads batch s = .error e s') : s'.table.rows ≠ s.table.rows := by
  have hne : batch ≠ [] := by
    rintro rfl
    cases hrun
  rw [addPayloads_of_not_int8 hne h] at hrun
  rw [(keepsTable_mirrorInputs batch).of_error hrun]
  exact s.table.upsertAll_ne hne

theorem table_of_addPayloads_ok {batch : List VectorPayloadInput}
    (hrun : addPayloads batch s = .ok () s') : s'.table = s.table.upsertAll batch := by
  by_cases hne : batch = []
  · subst hne
    cases hrun
    rfl
  · by_cases hint8 : ∃ input ∈ batch, input.payload.kind = .int8
    · obtain ⟨e, herror⟩ := addPayloads_of_int8 (s := s) hint8
      cases herror.symm.trans hrun
    · rw [addPayloads_of_not_int8 hne hint8] at hrun
      exact (keepsTable_mirrorInputs batch).of_ok hrun

/-- Without a sidecar a binary row that is not 32 bytes long stops every build. -/
theorem ensureIndexBuiltLocked_error {r : VectorRecord} (hbuilt : s.state.indexBuilt = false)
    (hnone : s.state.arrayStore = none) (hr : r ∈ s.table.binaryRecords) (hlen : r.2.length ≠ 32) :
    ∃ e s', ensureIndexBuiltLocked s = .error (.err e) s' := by
  have hbad : ∃ v ∈ (fetchAllBinaryRecords s.table).map (fun r => binaryPayload r.2), ¬v.IsCode := by
    refine ⟨binaryPayload r.2, List.mem_map_of_mem ?_, fun h => hlen h.2⟩
    exact (sortByKey_perm _).mem_iff.mpr hr
  have hlen : ((fetchAllBinaryRecords s.table).map fun r => binaryPayload r.2).length =
      ((fetchAllBinaryRecords s.table).map (·.1)).length := by simp
  have hfail := BruteForceIndex.build_error s.state.bruteForceIndex hlen hbad
  have hrebuild : ∃ e s', rebuildFromTable s = .error (.err e) s' := by
    refine ⟨.invalidPayload "BruteForceIndex.build: all vectors must be Binary with 32 bytes",
      { s with state.liveBinaryCount := asU32 (fetchAllBinaryRecords s.table).length }, ?_⟩
    simp only [rebuildFromTable, bind, EStateM.bind, get_eq, modifyState, hnone, Option.isSome_none,
      Bool.false_eq_true, if_false, buildFromRecords, buildIndexes, runBrute, hfail]
  obtain ⟨e, s₁, hrebuild⟩ := hrebuild
  have hresidents : buildResidents s = .error (.err e) s₁ := by
    simp only [buildResidents, bind, EStateM.bind, get_eq, hnone, Option.isSome_none,
      Bool.false_eq_true, if_false, hrebuild]
  refine ⟨e, s₁, ?_⟩
  simp only [ensureIndexBuiltLocked, bind, EStateM.bind, get_eq, hbuilt, Bool.false_eq_true, if_false,
    hresidents]

/-- So it stops the build of every later reopen. -/
theorem not_builds_reopen {r : VectorRecord} (hnone : s.state.arrayStore = none)
    (hr : r ∈ s.table.binaryRecords) (hlen : r.2.length ≠ 32) : ¬(reopen s).Builds := by
  rintro ⟨s', hbuild⟩
  have hstore : (reopen s).state.arrayStore = none := by
    simp only [reopen, newInternal, hnone, Option.map_none]
  obtain ⟨e, s₁, hfail⟩ := ensureIndexBuiltLocked_error (s := reopen s) rfl hstore hr hlen
  rw [hfail] at hbuild
  cases hbuild

end VectorStore

/-- What a failed write is to be: no part has changed, and a later reopen builds as before. -/
structure LeavesNoTrace (s s' : VectorStore) : Prop extends Untouched s s' where
  builds : (reopen s).Builds → (reopen s').Builds

theorem leavesNoTrace_refl (s : VectorStore) : LeavesNoTrace s s :=
  ⟨⟨rfl, rfl, rfl, rfl, rfl⟩, id⟩

/-- A write that returns an error leaves no trace exactly when it was refused for its kind. -/
theorem failedWrite_leavesNoTrace_iff {call : WriteCall} {s s' : VectorStore} {e : VectorKitError}
    (h : call.run s = .error (.err e) s') : LeavesNoTrace s s' ↔ call.HasInt8 := by
  cases call with
  | addPayload input =>
    constructor
    · intro hsame
      by_contra hint8
      have hkind : input.payload.kind ≠ .int8 := fun hkind => hint8 ⟨input, by simp [WriteCall.inputs], hkind⟩
      exact rows_ne_of_addPayload_error hkind h (congrArg VectorTable.rows hsame.table)
    · rintro ⟨input', hinput, hkind⟩
      obtain rfl := List.mem_singleton.mp hinput
      have hrun : addPayload input' s = .error (.err e) s' := h
      rw [addPayload_of_int8 hkind] at hrun
      cases hrun
      exact leavesNoTrace_refl s
  | addPayloads batch =>
    constructor
    · intro hsame
      by_contra hint8
      exact rows_ne_of_addPayloads_error hint8 h (congrArg VectorTable.rows hsame.table)
    · intro hint8
      have hrun : addPayloads batch s = .error (.err e) s' := h
      have hbad : ∃ input ∈ batch, input.payload.kind = .int8 := hint8
      obtain ⟨_, hrefused⟩ := addPayloads_of_int8 (s := s) hbad
      rw [hrefused] at hrun
      cases hrun
      exact leavesNoTrace_refl s

/-- A fresh store without a sidecar over an empty table. -/
def freshStore : VectorStore := newInternal .empty none 50000 .m16 50000 ""

def int8Input : VectorPayloadInput :=
  ⟨"a", 0, { kind := .int8, dim := 1, bytes := [0], scale := none }, "m", "1", 0⟩

theorem failedWrite_leavesNoTrace_iff_int8Input :
    LeavesNoTrace freshStore freshStore ↔ (WriteCall.addPayload int8Input).HasInt8 :=
  failedWrite_leavesNoTrace_iff (addPayload_of_int8 rfl)

/-- A binary payload that is one byte short. -/
def shortInput : VectorPayloadInput :=
  ⟨"a", 0, { kind := .binary, dim := 248, bytes := List.replicate 31 0, scale := none }, "m", "1", 0⟩

/-- The row of a payload that is too short stays although the call fails. -/
theorem not_failedWrite_leavesNoTrace :
    ¬ ∀ (call : WriteCall) (s s' : VectorStore) (e : VectorKitError),
      call.run s = .error (.err e) s' → LeavesNoTrace s s' := by
  intro h
  have hrow : (shortInput.key, shortInput.payload.bytes) ∈
      (freshStore.table.upsert shortInput).binaryRecords := by decide
  obtain ⟨e, s', hensure⟩ := ensureIndexBuiltLocked_error
    (s := { freshStore with table := freshStore.table.upsert shortInput }) rfl rfl hrow (by decide)
  have hrun : addPayload shortInput freshStore = .error (.err e) s' := by
    rw [addPayload_of_not_int8 (by decide), if_pos (by decide)]
    exact estate_bind_error.mpr (.inl hensure)
  have hnotrace := h (.addPayload shortInput) _ _ _ hrun
  exact rows_ne_of_addPayload_error (by decide) hrun (congrArg VectorTable.rows hnotrace.table)

end MootMemory
