import MootMemory.ResidentSlots
import MootMemory.SidecarFormat

namespace MootMemory

/-- How writing the file can fail: at one of four calls, with the system's text. -/
inductive WriteFault where
  | create (tmpPath e : String)
  | write (e : String)
  | flush (e : String)
  | rename (e : String)
deriving DecidableEq, Repr

def WriteFault.error : WriteFault → VectorKitError
  | .create tmpPath e => .storeUnavailable
      s!"ResidentArrayStore.write_sidecar: could not create tmp file {tmpPath}: {e}"
  | .write e => .storeUnavailable s!"ResidentArrayStore.write_sidecar: write failed: {e}"
  | .flush e => .storeUnavailable s!"ResidentArrayStore.write_sidecar: flush failed: {e}"
  | .rename e => .storeUnavailable s!"ResidentArrayStore.write_sidecar: rename failed: {e}"

/-- The array in memory and the file at the sidecar path. The threshold stands as the test of the
dead and all slots that it makes, and `faults` says how the coming writes go. -/
structure ResidentArrayStore where
  exceeds : Nat → Nat → Bool
  array : ResidentVectorArray
  sidecarWriteCount : Nat
  isDirty : Bool
  file : Option (List UInt8)
  faults : List (Option WriteFault)

namespace ResidentArrayStore

def new (file : Option (List UInt8)) (kind : VectorKind) (stride : Nat)
    (exceeds : Nat → Nat → Bool) : ResidentArrayStore :=
  { exceeds, array := .empty kind stride, sidecarWriteCount := 0, isDirty := false, file,
    faults := [] }

/-- More than a quarter of the slots dead. -/
def DEFAULT_COMPACTION_THRESHOLD (dead total : Nat) : Bool := decide (total < 4 * dead)

def newBinary (file : Option (List UInt8)) : ResidentArrayStore :=
  new file .binary 32 DEFAULT_COMPACTION_THRESHOLD

/-- Write to a temporary file and rename it: the file is as before or new as a whole. -/
def writeSidecar (arr : ResidentVectorArray) : EStateM Fault ResidentArrayStore Unit := fun s =>
  match sidecarBuffer arr with
  | .error e => .error e s
  | .ok buf =>
    match s.faults with
    | some fault :: faults => .error (.err fault.error) { s with faults }
    | none :: faults => .ok () { s with file := some buf, faults }
    | [] => .ok () { s with file := some buf }

/-- An absent file leaves the array as it is, an invalid one empties it. -/
def load : EStateM Fault ResidentArrayStore Unit := fun s =>
  match s.file with
  | none => .ok () s
  | some data =>
    match parseSidecar data with
    | .ok loaded => .ok () { s with array := loaded, isDirty := false }
    | .error .panic => .error .panic s
    | .error e =>
      .error e { s with array := .empty s.array.kind s.array.stride, isDirty := false }

def buildArray (records : List VectorRecord) (kind : VectorKind) (stride : Nat) :
    ResidentVectorArray :=
  .ofRecords kind stride records

/-- Write an array to the file and take it over. -/
def persist (newArray : ResidentVectorArray) : EStateM Fault ResidentArrayStore Unit := do
  writeSidecar newArray
  modify fun s => { s with
    array := newArray, sidecarWriteCount := s.sidecarWriteCount + 1, isDirty := false }

def rebuildFrom (records : List VectorRecord) : EStateM Fault ResidentArrayStore Unit := do
  let s ← get
  persist (buildArray records s.array.kind s.array.stride)

/-- The key and bytes of slot `i`, as a list of at most one; none for a dead slot. -/
def collectStep (arr : ResidentVectorArray) (live : List VectorRecord) (i : Nat) :
    Except Fault (List VectorRecord) :=
  if arr.isTombstoned i then .ok live
  else do
    let bytes ← arr.vectorBytes i
    let key ← arr.keyAt i
    .ok (live ++ [(key, bytes)])

/-- The records sorted by key; the sort is stable. -/
def sortByKey (records : List VectorRecord) : List VectorRecord :=
  records.insertionSort fun a b => a.1 ≤ b.1

/-- The array of the live records, sorted by key. -/
def compacted (arr : ResidentVectorArray) : Except Fault ResidentVectorArray := do
  let live ← (List.range arr.count).foldlM (collectStep arr) []
  .ok (buildArray (sortByKey live) arr.kind arr.stride)

def compact : EStateM Fault ResidentArrayStore Unit := do
  let s ← get
  match compacted s.array with
  | .ok newArray => persist newArray
  | .error e => throw e

def deadCount (arr : ResidentVectorArray) : Nat :=
  ((List.range arr.count).filter fun i => arr.isTombstoned i).length

/-- What follows every write: compact when the share of dead slots exceeds the threshold. -/
def compactIfExceeded : EStateM Fault ResidentArrayStore Unit := do
  let s ← get
  if s.exceeds (deadCount s.array) s.array.count then compact else pure ()

def persistAndCompact (newArray : ResidentVectorArray) : EStateM Fault ResidentArrayStore Unit := do
  persist newArray
  compactIfExceeded

def appendingArray (base : ResidentVectorArray) (key : VectorRecordKey) (bytes : List UInt8) :
    ResidentVectorArray :=
  base.extend base.tombstones [(key, bytes)]

/-- The bytes must fill a slot exactly. -/
def checkStride (caller : String) (stride : Nat) (bytes : List UInt8) : Except Fault Unit :=
  if bytes.length ≠ stride then
    .error (.err (.invalidPayload
      s!"ResidentArrayStore.{caller}: bytes.len()={bytes.length} != stride={stride}"))
  else .ok ()

def append (key : VectorRecordKey) (bytes : List UInt8) :
    EStateM Fault ResidentArrayStore Unit := do
  let s ← get
  match checkStride "append" s.array.stride bytes with
  | .error e => throw e
  | .ok () => persistAndCompact (appendingArray s.array key bytes)

/-- The file is not written. -/
def appendDeferred (key : VectorRecordKey) (bytes : List UInt8) :
    EStateM Fault ResidentArrayStore Unit := do
  let s ← get
  match checkStride "append_deferred" s.array.stride bytes with
  | .error e => throw e
  | .ok () => set { s with array := appendingArray s.array key bytes, isDirty := true }

/-- One write for all the records. -/
def appendBatch (records : List VectorRecord) : EStateM Fault ResidentArrayStore Unit := do
  if records = [] then pure ()
  else
    let s ← get
    match records.forM fun r => checkStride "append_batch" s.array.stride r.2 with
    | .error e => throw e
    | .ok () => persistAndCompact (s.array.extend s.array.tombstones records)

def flush : EStateM Fault ResidentArrayStore Unit := do
  let s ← get
  if !s.isDirty then pure () else persistAndCompact s.array

/-- The array with the slots of matching keys dead, unless no key matches. -/
def tombstoned (arr : ResidentVectorArray) (p : VectorRecordKey → Bool) :
    Except Fault (Option ResidentVectorArray) := do
  let (words, changed) ← arr.tombstoneMatching p
  if !changed then .ok none else .ok (some (arr.retire words))

def tombstone (key : VectorRecordKey) : EStateM Fault ResidentArrayStore Unit := do
  let s ← get
  match tombstoned s.array (· = key) with
  | .error e => throw e
  | .ok none => pure ()
  | .ok (some newArray) => persistAndCompact newArray

/-- The file is not written. -/
def tombstoneDeferred (keys : List VectorRecordKey) : EStateM Fault ResidentArrayStore Unit := do
  if keys = [] then pure ()
  else
    let s ← get
    match tombstoned s.array (· ∈ keys) with
    | .error e => throw e
    | .ok none => pure ()
    | .ok (some newArray) => set { s with array := newArray, isDirty := true }

end ResidentArrayStore

namespace ResidentVectorArray

theorem Sized.mem_liveRecords {arr : ResidentVectorArray} {r : VectorRecord}
    (hr : r ∈ arr.liveRecords) :
    ∃ i, i < arr.count ∧ arr.keys[i]? = some r.1 ∧
      r.2 = sliceAt arr.storage (i * arr.stride) arr.stride := by
  obtain ⟨i, hi, hslot⟩ := List.mem_filterMap.mp hr
  unfold liveSlot slotRecord at hslot
  split at hslot
  next => cases hslot
  next =>
    obtain ⟨key, hkey, rfl⟩ := Option.map_eq_some_iff.mp hslot
    exact ⟨i, List.mem_range.mp hi, hkey, rfl⟩

theorem Sized.fillsSlots {arr : ResidentVectorArray} (h : arr.Sized) :
    FillsSlots arr.stride arr.liveRecords := by
  intro r hr
  obtain ⟨i, hi, _, hbytes⟩ := mem_liveRecords hr
  have hend := slot_end_le arr.stride hi
  rw [hbytes, length_sliceAt (by rw [h.storage_length]; omega)]

theorem liveRecords_length_le (arr : ResidentVectorArray) : arr.liveRecords.length ≤ arr.count := by
  have h := List.length_filterMap_le arr.liveSlot (List.range arr.count)
  rwa [List.length_range] at h

end ResidentVectorArray

namespace ResidentArrayStore

open ResidentVectorArray

theorem foldl_append_toList {α β : Type} (f : α → Option β) (l : List α) (acc : List β) :
    l.foldl (fun acc x => acc ++ (f x).toList) acc = acc ++ l.filterMap f := by
  induction l generalizing acc with
  | nil => simp
  | cons x xs ih =>
    rw [List.foldl_cons, ih, List.filterMap_cons]
    cases f x <;> simp

theorem sortByKey_perm (records : List VectorRecord) : (sortByKey records).Perm records :=
  List.perm_insertionSort _ _

/-- The array that compaction builds. -/
def packed (arr : ResidentVectorArray) : ResidentVectorArray :=
  .ofRecords arr.kind arr.stride (sortByKey arr.liveRecords)

theorem collect_eq {arr : ResidentVectorArray} (h : arr.Sized) :
    (List.range arr.count).foldlM (collectStep arr) [] = .ok arr.liveRecords := by
  rw [foldlM_ok (g := fun live i => live ++ (arr.liveSlot i).toList) _ [], foldl_append_toList]
  · rfl
  · intro i hi live
    obtain ⟨key, get_eq, hkey⟩ := Sized.keyAt_eq h.keys_length (List.mem_range.mp hi)
    have hbytes := h.vectorBytes_eq (List.mem_range.mp hi)
    unfold collectStep liveSlot slotRecord
    split
    next => simp
    next => simp [hkey, get_eq, hbytes, bind, Except.bind]

theorem compacted_eq {arr : ResidentVectorArray} (h : arr.Sized) :
    compacted arr = .ok (packed arr) := by
  rw [compacted, collect_eq h]
  rfl

/-- The array is the same or compacted: the same records in no more slots. -/
structure Repacked (arr arr' : ResidentVectorArray) : Prop where
  built : arr'.Built
  kind : arr'.kind = arr.kind
  stride : arr'.stride = arr.stride
  live : arr'.liveRecords.Perm arr.liveRecords
  count : arr'.count ≤ arr.count
  keys : ∀ key ∈ arr'.keys, key ∈ arr.keys

theorem Repacked.refl {arr : ResidentVectorArray} (h : arr.Built) : Repacked arr arr :=
  ⟨h, rfl, rfl, List.Perm.refl _, le_rfl, fun _ hk => hk⟩

theorem repacked_packed {arr : ResidentVectorArray} (h : arr.Built) : Repacked arr (packed arr) := by
  have hperm := sortByKey_perm arr.liveRecords
  have hfill : FillsSlots arr.stride (sortByKey arr.liveRecords) :=
    fun r hr => h.toSized.fillsSlots r (hperm.mem_iff.mp hr)
  have hkeys : (packed arr).keys = (sortByKey arr.liveRecords).map (·.1) := by
    simp [packed, ofRecords, extend, empty]
  refine ⟨built_ofRecords _ hfill, rfl, rfl, ?_, ?_, ?_⟩
  · rw [packed, liveRecords_ofRecords _ hfill]
    exact hperm
  · have hcount : (packed arr).count = (packed arr).keys.length := rfl
    rw [hcount, hkeys, List.length_map, hperm.length_eq]
    exact liveRecords_length_le arr
  · intro key hkey
    rw [hkeys] at hkey
    obtain ⟨r, hr, rfl⟩ := List.mem_map.mp hkey
    obtain ⟨i, _, hget, _⟩ := Sized.mem_liveRecords (hperm.mem_iff.mp hr)
    exact List.mem_of_getElem? hget

/-- The store after `arr` was written and taken over. -/
def saved (s : ResidentArrayStore) (arr : ResidentVectorArray) : ResidentArrayStore :=
  { s with
    array := arr, sidecarWriteCount := s.sidecarWriteCount + 1, isDirty := false,
    file := some (sidecarBytes arr), faults := s.faults.tail }

theorem writeSidecar_ok {arr : ResidentVectorArray} {s s' : ResidentArrayStore}
    (h : writeSidecar arr s = .ok () s') : (sidecarBytes arr).length < 2 ^ 63 ∧
      s' = { s with file := some (sidecarBytes arr), faults := s.faults.tail } := by
  unfold writeSidecar sidecarBuffer at h
  by_cases hsize : (sidecarBytes arr).length < 2 ^ 63
  · rw [if_pos hsize] at h
    refine ⟨hsize, ?_⟩
    cases hfaults : s.faults with
    | nil => rw [hfaults] at h; cases h; simp
    | cons fault faults =>
      rw [hfaults] at h
      cases fault with
      | none => cases h; simp
      | some fault => cases h
  · rw [if_neg hsize] at h
    cases h

/-- Only a buffer that is too long stops a write when no fault is to come. -/
theorem writeSidecar_error {arr : ResidentVectorArray} {s s' : ResidentArrayStore} {e : Fault}
    (hfaults : s.faults = []) (h : writeSidecar arr s = .error e s') : e = .panic := by
  unfold writeSidecar sidecarBuffer at h
  by_cases hsize : (sidecarBytes arr).length < 2 ^ 63
  · rw [if_pos hsize, hfaults] at h
    cases h
  · rw [if_neg hsize] at h
    cases h
    rfl

theorem persist_ok {arr : ResidentVectorArray} {s s' : ResidentArrayStore}
    (h : persist arr s = .ok () s') : (sidecarBytes arr).length < 2 ^ 63 ∧ s' = saved s arr := by
  obtain ⟨_, s₁, hwrite, hset⟩ := estate_bind_ok.mp h
  obtain ⟨hsize, rfl⟩ := writeSidecar_ok hwrite
  cases hset
  exact ⟨hsize, rfl⟩

theorem persist_error {arr : ResidentVectorArray} {s s' : ResidentArrayStore} {e : Fault}
    (hfaults : s.faults = []) (h : persist arr s = .error e s') : e = .panic := by
  rcases estate_bind_error.mp h with hwrite | ⟨_, s₁, _, hset⟩
  · exact writeSidecar_error hfaults hwrite
  · cases hset

theorem persist_of_fits {arr : ResidentVectorArray} {s : ResidentArrayStore}
    (hfaults : s.faults = []) (hsize : (sidecarBytes arr).length < 2 ^ 63) :
    persist arr s = .ok () (saved s arr) := by
  have hwrite : writeSidecar arr s = .ok () { s with file := some (sidecarBytes arr) } := by
    simp only [writeSidecar, sidecarBuffer, if_pos hsize, hfaults]
  refine estate_bind_ok.mpr ⟨(), _, hwrite, ?_⟩
  rw [saved, hfaults]
  rfl

/-- The file holds the array in memory. -/
structure OnDisk (s : ResidentArrayStore) : Prop where
  clean : s.isDirty = false
  written : 0 < s.sidecarWriteCount
  file : s.file = some (sidecarBytes s.array)
  size : (sidecarBytes s.array).length < 2 ^ 63

theorem onDisk_saved (s : ResidentArrayStore) {arr : ResidentVectorArray}
    (hsize : (sidecarBytes arr).length < 2 ^ 63) : (saved s arr).OnDisk :=
  ⟨rfl, Nat.succ_pos _, rfl, hsize⟩

/-- What a write leaves behind: the array or its compacted form, in memory and in the file. -/
structure Wrote (s : ResidentArrayStore) (arr : ResidentVectorArray) (s' : ResidentArrayStore) :
    Prop where
  repacked : Repacked arr s'.array
  onDisk : s'.OnDisk
  exceeds : s'.exceeds = s.exceeds
  faults : s.faults = [] → s'.faults = []

theorem compact_eq {s : ResidentArrayStore} (h : s.array.Sized) :
    compact s = persist (packed s.array) s := by
  simp only [compact, bind, EStateM.bind, get_eq, compacted_eq h]

theorem compactIfExceeded_eq {s : ResidentArrayStore} (h : s.array.Sized) :
    compactIfExceeded s =
      if s.exceeds (deadCount s.array) s.array.count then persist (packed s.array) s
      else .ok () s := by
  simp only [compactIfExceeded, bind, EStateM.bind, get_eq]
  split
  next => exact compact_eq h
  next => rfl

theorem persist_wrote {arr : ResidentVectorArray} {s s' : ResidentArrayStore} (hbuilt : arr.Built)
    (h : persist arr s = .ok () s') : Wrote s arr s' := by
  obtain ⟨hsize, rfl⟩ := persist_ok h
  exact ⟨.refl hbuilt, onDisk_saved s hsize, rfl, fun hf => by simp [saved, hf]⟩

theorem persistAndCompact_wrote {arr : ResidentVectorArray} {s s' : ResidentArrayStore}
    (hbuilt : arr.Built) (h : persistAndCompact arr s = .ok () s') : Wrote s arr s' := by
  obtain ⟨_, s₁, hpersist, hcompact⟩ := estate_bind_ok.mp h
  have hwrote := persist_wrote hbuilt hpersist
  obtain ⟨_, rfl⟩ := persist_ok hpersist
  have hsized : (saved s arr).array.Sized := hbuilt.toSized
  rw [compactIfExceeded_eq hsized] at hcompact
  split at hcompact
  next =>
    obtain ⟨hsize, rfl⟩ := persist_ok hcompact
    exact ⟨repacked_packed hbuilt, onDisk_saved _ hsize, rfl, fun hf => by simp [saved, hf]⟩
  next =>
    cases hcompact
    exact hwrote

theorem persistAndCompact_error {arr : ResidentVectorArray} {s s' : ResidentArrayStore} {e : Fault}
    (hbuilt : arr.Built) (hfaults : s.faults = []) (h : persistAndCompact arr s = .error e s') :
    e = .panic := by
  rcases estate_bind_error.mp h with hpersist | ⟨_, s₁, hpersist, hcompact⟩
  · exact persist_error hfaults hpersist
  · obtain ⟨_, rfl⟩ := persist_ok hpersist
    have hsized : (saved s arr).array.Sized := hbuilt.toSized
    rw [compactIfExceeded_eq hsized] at hcompact
    split at hcompact
    next => exact persist_error (by simp [saved, hfaults]) hcompact
    next => cases hcompact

end ResidentArrayStore

end MootMemory
