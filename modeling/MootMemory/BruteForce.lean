import MootMemory.Nearest
import MootMemory.ResidentSlots

namespace MootMemory

/-- The linear-scan index over a resident array. -/
structure BruteForceIndex where
  array : ResidentVectorArray
deriving DecidableEq, Repr

/-- The vector of a 32-byte binary code. -/
def VectorPayload.IsCode (payload : VectorPayload) : Prop :=
  payload.kind = .binary ∧ payload.bytes.length = 32

instance (payload : VectorPayload) : Decidable payload.IsCode :=
  inferInstanceAs (Decidable (_ ∧ _))

namespace BruteForceIndex

def new : BruteForceIndex := ⟨.empty .binary 32⟩

def bytesToEngram (bytes : List UInt8) : Option Engram :=
  if bytes.length ≠ 32 then none else some (Engram.ofLeBytes bytes)

def payloadToEngram (payload : VectorPayload) : Except Fault Engram :=
  if payload.kind ≠ .binary then
    .error (.err (.invalidPayload
      s!"BruteForceIndex: payload.kind must be Binary, got {payload.kind.debug}"))
  else if payload.bytes.length ≠ 32 then
    .error (.err (.invalidPayload
      s!"BruteForceIndex: binary payload must be 32 bytes, got {payload.bytes.length}"))
  else
    match bytesToEngram payload.bytes with
    | some e => .ok e
    | none => .error (.err (.invalidPayload "BruteForceIndex: could not decode Engram"))

/-- The slots to scan: those of the filter's model if it names one. -/
def scanRange (idx : BruteForceIndex) (filter : Option MetadataFilter) : Nat × Nat :=
  match filter with
  | some { modelId := some mid, .. } => (idx.array.partitionRange mid).getD (0, 0)
  | _ => (0, idx.array.count)

/-- One turn of the loop that packs the bytes of the vectors. -/
def packStep (storage : List UInt8) (v : VectorPayload) : Except Fault (List UInt8) :=
  if v.kind ≠ .binary ∨ v.bytes.length ≠ 32 then
    .error (.err (.invalidPayload
      "BruteForceIndex.build: all vectors must be Binary with 32 bytes"))
  else .ok (storage ++ v.bytes)

/-- A failed build leaves the index as it is. -/
def build (_idx : BruteForceIndex) (vectors : List VectorPayload) (keys : List VectorRecordKey) :
    Except Fault BruteForceIndex := do
  if vectors.length ≠ keys.length then
    .error (.err (.invalidPayload
      s!"BruteForceIndex.build: vectors.len()={vectors.length} != keys.len()={keys.length}"))
  else
    let storage ← vectors.foldlM packStep []
    let tombstones := List.replicate ((vectors.length + 63) / 64) 0
    .ok ⟨{ kind := .binary, stride := 32, count := vectors.length, storage, keys,
           modelPartitions := buildPartitions keys tombstones, tombstones }⟩

/-- One turn of the scan: collect the code of a live slot that the filter accepts. -/
def scanStep (idx : BruteForceIndex) (filter : Option MetadataFilter)
    (acc : List Engram × List Nat) (slot : Nat) : Except Fault (List Engram × List Nat) :=
  if idx.array.isTombstoned slot then .ok acc
  else do
    let key ← idx.array.keyAt slot
    if !acceptedBy filter key then .ok acc
    else
      let bytes ← idx.array.vectorBytes slot
      match bytesToEngram bytes with
      | some e => .ok (acc.1 ++ [e], acc.2 ++ [slot])
      | none => .ok acc

def hitAt (idx : BruteForceIndex) (metric : DenseMetric) (c : Nat × Nat) : Except Fault DenseHit := do
  let key ← idx.array.keyAt c.1
  .ok { key, rawDistance := c.2, metric }

def search (idx : BruteForceIndex) (probe : VectorPayload) (metric : DenseMetric) (k : Nat)
    (filter : Option MetadataFilter) : Except Fault (List DenseHit) :=
  if probe.kind ≠ .binary then
    .error (.err (.invalidPayload
      s!"BruteForceIndex.search: probe.kind must be Binary, got {probe.kind.debug}"))
  else if metric ≠ .binary .hamming then
    .error (.err (.invalidPayload
      s!"BruteForceIndex.search: Lane A only supports Binary(Hamming); got {metric.debug}"))
  else if k = 0 then .ok []
  else do
    let probeEngram ← payloadToEngram probe
    let scan := idx.scanRange filter
    if scan.2 ≤ scan.1 then .ok []
    else
      let (engrams, slotIndices) ← (List.range' scan.1 (scan.2 - scan.1)).foldlM
        (idx.scanStep filter) ([], [])
      if engrams = [] then .ok []
      else
        let distances := EngramLib.distances probeEngram engrams
        let allHits ← (slotIndices.zip distances).mapM (idx.hitAt metric)
        .ok ((sortByRank DenseHit.rank allHits).take k)

/-- Upsert: slots that hold the key die, and the vector goes to a new slot. -/
def add (idx : BruteForceIndex) (key : VectorRecordKey) (vector : VectorPayload) :
    Except Fault BruteForceIndex :=
  if vector.kind ≠ .binary ∨ vector.bytes.length ≠ 32 then
    .error (.err (.invalidPayload "BruteForceIndex.add: vector must be Binary with 32 bytes"))
  else do
    let (words, _) ← idx.array.tombstoneMatching (· = key)
    .ok ⟨{ idx.array.extend words [(key, vector.bytes)] with kind := .binary, stride := 32 }⟩

def remove (idx : BruteForceIndex) (key : VectorRecordKey) : Except Fault BruteForceIndex := do
  let (words, changed) ← idx.array.tombstoneMatching (· = key)
  if !changed then .ok idx else .ok ⟨idx.array.retire words⟩

/-- What holds of the index after any of its operations. -/
structure Inv (idx : BruteForceIndex) : Prop where
  built : idx.array.Built
  kind : idx.array.kind = .binary
  stride : idx.array.stride = 32

/-- The records the index searches. -/
abbrev live (idx : BruteForceIndex) : List VectorRecord := idx.array.liveRecords

theorem inv_new : Inv new := ⟨ResidentVectorArray.built_empty _ _, rfl, rfl⟩

theorem live_new : new.live = [] := rfl

theorem foldlM_packStep {vectors : List VectorPayload} (h : ∀ v ∈ vectors, v.IsCode) :
    vectors.foldlM packStep [] = .ok (vectors.flatMap (·.bytes)) := by
  have hstep : ∀ v ∈ vectors, ∀ s, packStep s v = .ok (s ++ v.bytes) := by
    intro v hv s
    obtain ⟨hkind, hlen⟩ := h v hv
    rw [packStep, if_neg (by simp [hkind, hlen])]
  rw [foldlM_ok hstep, List.foldl_append_eq_append, List.nil_append, List.flatMap_def]

theorem foldlM_packStep_error {vectors : List VectorPayload} (h : ∃ v ∈ vectors, ¬v.IsCode)
    (storage : List UInt8) : vectors.foldlM packStep storage = .error (.err (.invalidPayload
      "BruteForceIndex.build: all vectors must be Binary with 32 bytes")) := by
  induction vectors generalizing storage with
  | nil => simp at h
  | cons v vs ih =>
    rw [List.foldlM_cons, packStep]
    by_cases hv : v.IsCode
    · rw [if_neg (by simp [hv.1, hv.2])]
      refine ih ?_ _
      obtain ⟨w, hw, hbad⟩ := h
      rcases List.mem_cons.mp hw with rfl | hw
      · exact absurd hv hbad
      · exact ⟨w, hw, hbad⟩
    · rw [if_pos (by simpa only [VectorPayload.IsCode, not_and_or] using hv)]
      rfl

/-- A vector of another kind or length fails the build. -/
theorem build_error (idx : BruteForceIndex) {vectors : List VectorPayload}
    {keys : List VectorRecordKey} (hlen : vectors.length = keys.length)
    (h : ∃ v ∈ vectors, ¬v.IsCode) : idx.build vectors keys = .error (.err (.invalidPayload
      "BruteForceIndex.build: all vectors must be Binary with 32 bytes")) := by
  rw [build, if_neg (not_not.mpr hlen), foldlM_packStep_error h]
  rfl

theorem ofRecords_zip {vectors : List VectorPayload} {keys : List VectorRecordKey}
    (hlen : vectors.length = keys.length) :
    ResidentVectorArray.ofRecords .binary 32 (keys.zip (vectors.map (·.bytes))) =
      { kind := .binary, stride := 32, count := vectors.length,
        storage := vectors.flatMap (·.bytes), keys := keys,
        modelPartitions := buildPartitions keys (List.replicate ((vectors.length + 63) / 64) 0),
        tombstones := List.replicate ((vectors.length + 63) / 64) 0 } := by
  have hkeys : (keys.zip (vectors.map (·.bytes))).map (·.1) = keys :=
    List.map_fst_zip (by simp [hlen])
  have hbytes : (keys.zip (vectors.map (·.bytes))).map (·.2) = vectors.map (·.bytes) :=
    List.map_snd_zip (by simp [hlen])
  simp only [ResidentVectorArray.ofRecords, ResidentVectorArray.extend, ResidentVectorArray.empty,
    List.nil_append, hkeys, List.flatMap_def, hbytes, padWords, hlen, List.length_nil, Nat.sub_zero]

theorem fillsSlots_zip {vectors : List VectorPayload} (keys : List VectorRecordKey)
    (h : ∀ v ∈ vectors, v.IsCode) : FillsSlots 32 (keys.zip (vectors.map (·.bytes))) := by
  intro r hr
  obtain ⟨v, hv, hbytes⟩ := List.mem_map.mp (List.of_mem_zip hr).2
  rw [← hbytes, (h v hv).2]

theorem inv_ofRecords {records : List VectorRecord} (hfill : FillsSlots 32 records) :
    Inv ⟨.ofRecords .binary 32 records⟩ :=
  ⟨ResidentVectorArray.built_ofRecords .binary hfill, rfl, rfl⟩

theorem build_eq (idx : BruteForceIndex) {vectors : List VectorPayload}
    {keys : List VectorRecordKey} (hlen : vectors.length = keys.length)
    (h : ∀ v ∈ vectors, v.IsCode) :
    idx.build vectors keys = .ok ⟨.ofRecords .binary 32 (keys.zip (vectors.map (·.bytes)))⟩ := by
  rw [build, if_neg (not_not.mpr hlen), foldlM_packStep h, ofRecords_zip hlen]
  simp only [bind, Except.bind]

theorem build_ok (idx : BruteForceIndex) {vectors : List VectorPayload}
    {keys : List VectorRecordKey} (hlen : vectors.length = keys.length)
    (h : ∀ v ∈ vectors, v.IsCode) :
    ∃ idx', idx.build vectors keys = .ok idx' ∧ idx'.Inv ∧
      idx'.live = keys.zip (vectors.map (·.bytes)) :=
  ⟨_, build_eq idx hlen h, inv_ofRecords (fillsSlots_zip keys h),
    ResidentVectorArray.liveRecords_ofRecords .binary (fillsSlots_zip keys h)⟩

theorem add_ok {idx : BruteForceIndex} (hinv : idx.Inv) (key : VectorRecordKey)
    {vector : VectorPayload} (hv : vector.IsCode) :
    ∃ idx', idx.add key vector = .ok idx' ∧ idx'.Inv ∧
      idx'.live = idx.live.filter (fun r => r.1 ≠ key) ++ [(key, vector.bytes)] := by
  have hfill : FillsSlots idx.array.stride [(key, vector.bytes)] := by
    intro r hr
    rw [List.mem_singleton.mp hr, hinv.stride]
    exact hv.2
  have hsame : { idx.array.extend (idx.array.marked (· = key)) [(key, vector.bytes)] with
      kind := .binary, stride := 32 } =
        idx.array.extend (idx.array.marked (· = key)) [(key, vector.bytes)] := by
    simp only [ResidentVectorArray.extend, hinv.kind, hinv.stride]
  refine ⟨⟨idx.array.extend (idx.array.marked (· = key)) [(key, vector.bytes)]⟩, ?_,
    ⟨hinv.built.extendMarked hfill, hinv.kind, hinv.stride⟩, ?_⟩
  · rw [add, if_neg (by simp [hv.1, hv.2]),
      ResidentVectorArray.tombstoneMatching_eq hinv.built.keys_length, ← hsame]
    rfl
  · rw [live, ResidentVectorArray.liveRecords_extendMarked hinv.built hfill]
    simp only [decide_not]

theorem remove_ok {idx : BruteForceIndex} (hinv : idx.Inv) (key : VectorRecordKey) :
    ∃ idx', idx.remove key = .ok idx' ∧ idx'.Inv ∧
      idx'.live = idx.live.filter fun r => r.1 ≠ key := by
  have hrun : idx.remove key = .ok (if (idx.array.keys.take idx.array.count).any (· = key) then
      ⟨idx.array.retire (idx.array.marked (· = key))⟩ else idx) := by
    rw [remove, ResidentVectorArray.tombstoneMatching_eq hinv.built.keys_length]
    simp only [bind, Except.bind, ResidentVectorArray.markedWords_changed]
    cases (idx.array.keys.take idx.array.count).any (· = key) <;> rfl
  rw [List.take_of_length_le (le_of_eq hinv.built.keys_length)] at hrun
  have hlive : (idx.array.retire (idx.array.marked (· = key))).liveRecords =
      idx.array.liveRecords.filter fun r => !decide (r.1 = key) :=
    ResidentVectorArray.liveRecords_retireMarked
  cases hany : idx.array.keys.any (· = key) with
  | true =>
    rw [hany] at hrun
    refine ⟨_, hrun, ⟨hinv.built.retireMarked, hinv.kind, hinv.stride⟩, ?_⟩
    simp only [if_true, live, hlive, decide_not]
  | false =>
    rw [hany] at hrun
    refine ⟨_, hrun, hinv, ?_⟩
    rw [ResidentVectorArray.marked_of_unchanged hany] at hlive
    have hself : (idx.array.retire idx.array.tombstones).liveRecords = idx.array.liveRecords := rfl
    rw [hself] at hlive
    simp only [Bool.false_eq_true, if_false, live]
    simpa only [decide_not] using hlive

end BruteForceIndex

end MootMemory
