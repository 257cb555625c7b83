import MootMemory.ResidentStore
import MootMemory.VectorTable

namespace MootMemory

/-- The resident structures; sets of keys are lists that are only asked for membership. -/
structure HotState where
  arrayStore : Option ResidentArrayStore
  bruteForceIndex : BruteForceIndex
  mihIndex : MIHIndex
  liveBinaryCount : Nat
  mihThreshold : Nat
  isMihActive : Bool
  indexBuilt : Bool
  deferredIndexActive : Bool
  deferredIndexDirty : Bool
  deferredLiveKeys : Option (List VectorRecordKey)
  deferredPendingRecords : List VectorRecord
  deferredPendingLimit : Nat
  sidecarRebuildCount : Nat

/-- The store over its table. `insertConflict` is what the row store says to an insert that breaks
the uniqueness of the table; its other calls do not fail. -/
structure VectorStore where
  table : VectorTable
  state : HotState
  insertConflict : String

structure VectorMatch where
  itemId : String
  distance : Int
  modelId : String
deriving DecidableEq, Repr

namespace VectorStore

/-- A fresh process over a table and the file at the sidecar path, if there is one. -/
def newInternal (table : VectorTable) (arrayStore : Option ResidentArrayStore)
    (mihThreshold : Nat) (mihBandCount : MIHBandCount) (deferredPendingLimit : Nat)
    (insertConflict : String) : VectorStore where
  table := table
  insertConflict := insertConflict
  state :=
    { arrayStore, bruteForceIndex := .new, mihIndex := .new mihBandCount, liveBinaryCount := 0,
      mihThreshold, isMihActive := false, indexBuilt := false, deferredIndexActive := false,
      deferredIndexDirty := false, deferredLiveKeys := none, deferredPendingRecords := [],
      deferredPendingLimit, sidecarRebuildCount := 0 }

/-- A count cut to 32 bits. -/
def asU32 (n : Nat) : Nat := n % 2 ^ 32

def saturatingAddU32 (a b : Nat) : Nat := min (a + b) (2 ^ 32 - 1)

def modifyState (f : HotState → HotState) : EStateM Fault VectorStore Unit :=
  fun s => .ok () { s with state := f s.state }

def modifyTable (f : VectorTable → VectorTable) : EStateM Fault VectorStore Unit :=
  fun s => .ok () { s with table := f s.table }

def liftExcept {α : Type} (x : Except Fault α) : EStateM Fault VectorStore α := fun s =>
  match x with
  | .ok a => .ok a s
  | .error e => .error e s

def runBrute (f : BruteForceIndex → Except Fault BruteForceIndex) :
    EStateM Fault VectorStore Unit := fun s =>
  match f s.state.bruteForceIndex with
  | .ok idx => .ok () { s with state.bruteForceIndex := idx }
  | .error e => .error e s

def runMih (f : MIHIndex → Except Fault MIHIndex) : EStateM Fault VectorStore Unit := fun s =>
  match f s.state.mihIndex with
  | .ok mih => .ok () { s with state.mihIndex := mih }
  | .error e => .error e s

/-- A build that fails keeps what it put in so far. -/
def buildMih (payloads : List VectorPayload) (keys : List VectorRecordKey) :
    EStateM Fault VectorStore Unit := fun s =>
  match MIHIndex.build payloads keys s.state.mihIndex with
  | .ok () mih => .ok () { s with state.mihIndex := mih }
  | .error e mih => .error e { s with state.mihIndex := mih }

/-- A call on the array store, if there is one. -/
def runStore (x : EStateM Fault ResidentArrayStore Unit) : EStateM Fault VectorStore Unit := fun s =>
  match s.state.arrayStore with
  | none => .ok () s
  | some store =>
    match x store with
    | .ok () store => .ok () { s with state.arrayStore := some store }
    | .error e store => .error e { s with state.arrayStore := some store }

/-- The slots that are not dead and whose key satisfies `p`. -/
def liveKeysWhere (arr : ResidentVectorArray) (p : VectorRecordKey → Bool) :
    Except Fault (List VectorRecordKey) :=
  (List.range arr.count).foldlM (fun keys i =>
    if arr.isTombstoned i then .ok keys
    else do
      let key ← arr.keyAt i
      if p key then .ok (keys ++ [key]) else .ok keys) []

def binaryPayload (bytes : List UInt8) : VectorPayload :=
  { kind := .binary, dim := 256, bytes, scale := none }

/-- The vectors and keys of the live slots. -/
def arrayToPayloadsKeys (arr : ResidentVectorArray) :
    Except Fault (List VectorPayload × List VectorRecordKey) := do
  let live ← (List.range arr.count).foldlM (ResidentArrayStore.collectStep arr) []
  .ok (live.map fun r => binaryPayload r.2, live.map (·.1))

def selectIndex : EStateM Fault VectorStore Unit :=
  modifyState fun st =>
    let useMih := decide (st.mihThreshold ≤ st.liveBinaryCount)
    if useMih && !st.isMihActive then { st with isMihActive := true }
    else if !useMih && st.isMihActive then { st with isMihActive := false }
    else st

def buildIndexes (payloads : List VectorPayload) (keys : List VectorRecordKey) :
    EStateM Fault VectorStore Unit := do
  runBrute fun idx => idx.build payloads keys
  buildMih payloads keys

def buildFromArray (arr : ResidentVectorArray) : EStateM Fault VectorStore Unit := do
  let (payloads, keys) ← liftExcept (arrayToPayloadsKeys arr)
  buildIndexes payloads keys

def buildFromRecords (records : List VectorRecord) : EStateM Fault VectorStore Unit :=
  buildIndexes (records.map fun r => binaryPayload r.2) (records.map (·.1))

def buildFromStore : EStateM Fault VectorStore Unit := do
  let s ← get
  match s.state.arrayStore with
  | some store => buildFromArray store.array
  | none => pure ()

/-- All binary rows, sorted by key. -/
def fetchAllBinaryRecords (table : VectorTable) : List VectorRecord :=
  ResidentArrayStore.sortByKey table.binaryRecords

/-- Rebuild the array store, if there is one, and the indexes from the binary rows. -/
def rebuildFromTable : EStateM Fault VectorStore Unit := do
  let s ← get
  let records := fetchAllBinaryRecords s.table
  modifyState fun st => { st with liveBinaryCount := asU32 records.length }
  if s.state.arrayStore.isSome then
    runStore (ResidentArrayStore.rebuildFrom records)
    buildFromStore
  else buildFromRecords records

/-- `load` with its error dropped. -/
def tryLoad : EStateM Fault ResidentArrayStore Unit := fun store =>
  match ResidentArrayStore.load store with
  | .ok () store => .ok () store
  | .error .panic store => .error .panic store
  | .error _ store => .ok () store

/-- Take the loaded array if it has as many live slots as the table has binary rows. -/
def adoptOrRebuild : EStateM Fault VectorStore Unit := do
  let s ← get
  let liveCount := (s.state.arrayStore.map fun store => store.array.liveCount).getD 0
  if liveCount = s.table.binaryRowCount then
    modifyState fun st => { st with liveBinaryCount := asU32 liveCount }
    buildFromStore
  else
    modifyState fun st => { st with sidecarRebuildCount := st.sidecarRebuildCount + 1 }
    rebuildFromTable

def buildResidents : EStateM Fault VectorStore Unit := do
  let s ← get
  if s.state.arrayStore.isSome then
    runStore tryLoad
    adoptOrRebuild
  else rebuildFromTable

def ensureIndexBuiltLocked : EStateM Fault VectorStore Unit := do
  let s ← get
  if s.state.indexBuilt then pure ()
  else
    buildResidents
    modifyState fun st => { st with indexBuilt := true }
    selectIndex

def int8Rejected : String :=
  "int8 writes are rejected: quantization policy is unspecified. " ++
    "Use Float32 or the Binary Engram lane. See VECTORKIT_SPEC §I-4a."

def int8BatchRejected (itemId : String) : String :=
  "int8 writes are rejected: quantization policy is unspecified. " ++
    s!"Offending item: {itemId}. " ++
    "Use Float32 or the Binary Engram lane. See VECTORKIT_SPEC §I-4a."

/-- What `add_payload` does to the resident structures after the row is written. -/
def mirrorBinary (key : VectorRecordKey) (payload : VectorPayload) :
    EStateM Fault VectorStore Unit := do
  ensureIndexBuiltLocked
  let s ← get
  let arr := s.state.bruteForceIndex.array
  let isReplacement := arr.keys.zipIdx.any fun (k, i) => !arr.isTombstoned i && decide (k = key)
  runStore (ResidentArrayStore.tombstoneDeferred [key])
  runStore (ResidentArrayStore.appendDeferred key payload.bytes)
  runBrute fun idx => idx.add key payload
  runMih fun mih => mih.add key payload
  modifyState fun st =>
    if isReplacement then st
    else { st with liveBinaryCount := saturatingAddU32 st.liveBinaryCount 1 }
  selectIndex

/-- Write one row and mirror it; the float lane keeps nothing resident. -/
def addPayload (input : VectorPayloadInput) : EStateM Fault VectorStore Unit := do
  if input.payload.kind = .int8 then
    throw (.err (.int8QuantizationPolicyUndefined int8Rejected))
  else
    modifyTable fun table => table.upsert input
    if input.payload.kind = .binary then mirrorBinary input.key input.payload else pure ()

/-- What the loop of the deferred path keeps over the keys of a batch. -/
structure KeyScan where
  live : List VectorRecordKey
  seen : List VectorRecordKey
  newKeyCount : Nat
  replaced : List VectorRecordKey

def deferredStep (acc : KeyScan) (r : VectorRecord) : KeyScan :=
  let acc :=
    if r.1 ∈ acc.live then { acc with replaced := r.1 :: acc.replaced }
    else if r.1 ∉ acc.seen then { acc with newKeyCount := acc.newKeyCount + 1 }
    else acc
  { acc with seen := r.1 :: acc.seen, live := r.1 :: acc.live }

/-- One turn of the loop of the immediate path: the keys seen and the number of new ones. -/
def newKeyStep (live : List VectorRecordKey) (acc : List VectorRecordKey × Nat)
    (r : VectorRecord) : List VectorRecordKey × Nat :=
  (r.1 :: acc.1, if r.1 ∉ live ∧ r.1 ∉ acc.1 then acc.2 + 1 else acc.2)

/-- A 32-bit counter that counted to `n` by ones. -/
def countedU32 (n : Nat) : EStateM Fault VectorStore Nat :=
  liftExcept (if n < 2 ^ 32 then .ok n else .error .panic)

/-- The slots with a key of the records die, and the records go to new slots. -/
def mergeBatchIntoSnapshot (snapshot : ResidentVectorArray) (records : List VectorRecord) :
    Except Fault ResidentVectorArray := do
  let (words, _) ← snapshot.tombstoneMatching (· ∈ records.map (·.1))
  .ok (snapshot.extend words records)

/-- The last record of each key, in order. -/
def dedupLastWins : List VectorRecord → List VectorRecord
  | [] => []
  | r :: rs => if r.1 ∈ rs.map (·.1) then dedupLastWins rs else r :: dedupLastWins rs

/-- Merge the pending records into the index; the window stays open. -/
def flushDeferredPending : EStateM Fault VectorStore Unit := do
  let s ← get
  if s.state.deferredPendingRecords = [] then pure ()
  else
    modifyState fun st => { st with deferredPendingRecords := [] }
    let merged ← liftExcept (mergeBatchIntoSnapshot s.state.bruteForceIndex.array
      (dedupLastWins s.state.deferredPendingRecords))
    buildFromArray merged
    let liveKeys ← liftExcept (liveKeysWhere merged fun _ => true)
    let liveCount ← countedU32 liveKeys.length
    modifyState fun st => { st with liveBinaryCount := liveCount, deferredLiveKeys := some liveKeys }

/-- Put the records of a window into the array store, or keep them pending without one. -/
def stageRecords (replaced : List VectorRecordKey) (records : List VectorRecord) :
    EStateM Fault VectorStore Unit := do
  let s ← get
  if s.state.arrayStore.isSome then
    runStore (ResidentArrayStore.tombstoneDeferred replaced)
    runStore (ResidentArrayStore.appendBatch records)
  else
    modifyState fun st =>
      { st with deferredPendingRecords := st.deferredPendingRecords ++ records }

def flushIfOverLimit : EStateM Fault VectorStore Unit := do
  let s ← get
  if s.state.arrayStore.isNone ∧
      s.state.deferredPendingLimit < s.state.deferredPendingRecords.length then
    flushDeferredPending
  else pure ()

/-- `add_payloads` within a deferred window, after the rows are written. -/
def stageDeferred (records : List VectorRecord) : EStateM Fault VectorStore Unit := do
  let s ← get
  let scan := records.foldl deferredStep ⟨s.state.deferredLiveKeys.getD [], [], 0, []⟩
  modifyState fun st => { st with deferredLiveKeys := none }
  let newKeyCount ← countedU32 scan.newKeyCount
  stageRecords scan.replaced records
  modifyState fun st => { st with
    deferredLiveKeys := some scan.live
    liveBinaryCount := saturatingAddU32 st.liveBinaryCount newKeyCount
    deferredIndexDirty := true }
  flushIfOverLimit

/-- Put the records into the array store, or into the snapshot without one, and build from it. -/
def rebuildWith (liveKeys : List VectorRecordKey) (records : List VectorRecord) :
    EStateM Fault VectorStore Unit := do
  let s ← get
  if s.state.arrayStore.isSome then
    runStore (ResidentArrayStore.tombstoneDeferred ((records.map (·.1)).filter (· ∈ liveKeys)))
    runStore (ResidentArrayStore.appendBatch records)
    buildFromStore
  else
    let merged ← liftExcept (mergeBatchIntoSnapshot s.state.bruteForceIndex.array records)
    buildFromArray merged

/-- `add_payloads` outside a deferred window, after the rows are written. -/
def mirrorBatch (records : List VectorRecord) : EStateM Fault VectorStore Unit := do
  let s ← get
  let liveKeys ← liftExcept (liveKeysWhere s.state.bruteForceIndex.array fun _ => true)
  let newKeyCount ← countedU32 (records.foldl (newKeyStep liveKeys) ([], 0)).2
  rebuildWith liveKeys records
  modifyState fun st =>
    { st with liveBinaryCount := saturatingAddU32 st.liveBinaryCount newKeyCount }
  selectIndex

/-- The keys and bytes of the binary inputs. -/
def binaryInputs (batch : List VectorPayloadInput) : List VectorRecord :=
  (batch.filter fun input => input.payload.kind = .binary).map fun input =>
    (input.key, input.payload.bytes)

/-- What `add_payloads` does once the rows are written. -/
def mirrorInputs (batch : List VectorPayloadInput) : EStateM Fault VectorStore Unit := do
  if binaryInputs batch = [] then pure ()
  else
    ensureIndexBuiltLocked
    let s ← get
    if s.state.deferredIndexActive then stageDeferred (binaryInputs batch)
    else mirrorBatch (binaryInputs batch)

def addPayloads (batch : List VectorPayloadInput) : EStateM Fault VectorStore Unit := do
  if batch = [] then pure ()
  else
    match batch.find? fun input => input.payload.kind = .int8 with
    | some bad => throw (.err (.int8QuantizationPolicyUndefined (int8BatchRejected bad.itemId)))
    | none =>
      modifyTable fun table => table.upsertAll batch
      mirrorInputs batch

def beginDeferredIndex : EStateM Fault VectorStore Unit := do
  let s ← get
  if s.state.deferredIndexActive then pure ()
  else
    ensureIndexBuiltLocked
    let s ← get
    let keys ← liftExcept (liveKeysWhere s.state.bruteForceIndex.array fun _ => true)
    modifyState fun st => { st with
      deferredLiveKeys := some keys, deferredPendingRecords := [], deferredIndexDirty := false,
      deferredIndexActive := true }

/-- The array with the writes of a window: that of the store, or the snapshot and the pending. -/
def publishedArray (st : HotState) : Except Fault ResidentVectorArray :=
  match st.arrayStore with
  | some store => .ok store.array
  | none => mergeBatchIntoSnapshot st.bruteForceIndex.array
      (dedupLastWins st.deferredPendingRecords)

def publishResidentIndex : EStateM Fault VectorStore Unit := do
  let s ← get
  modifyState fun st => { st with
    deferredIndexActive := false, deferredIndexDirty := false, deferredLiveKeys := none,
    deferredPendingRecords := [] }
  if !s.state.deferredIndexDirty then pure ()
  else
    let snap ← liftExcept (publishedArray s.state)
    buildFromArray snap
    modifyState fun st => { st with liveBinaryCount := asU32 snap.liveCount }
    selectIndex

def publishIfDeferredDirty : EStateM Fault VectorStore Unit := do
  let s ← get
  if s.state.deferredIndexDirty then publishResidentIndex else pure ()

def flush : EStateM Fault VectorStore Unit := runStore ResidentArrayStore.flush

/-- Retire the slots of a key everywhere. -/
def removeKey (key : VectorRecordKey) : EStateM Fault VectorStore Unit := do
  runStore (ResidentArrayStore.tombstone key)
  runBrute fun idx => idx.remove key
  runMih fun mih => .ok (mih.remove key)

/-- Delete one row and retire the first live slot that matches it. -/
def deleteAndTombstone (itemId : String) (vectorIndex : UInt32) (modelId : String) :
    EStateM Fault VectorStore Unit := do
  modifyTable fun table => table.delete fun row => row.triple = (itemId, vectorIndex, modelId)
  let s ← get
  if !s.state.indexBuilt then pure ()
  else
    let keys ← liftExcept (liveKeysWhere s.state.bruteForceIndex.array fun k =>
      k.triple = (itemId, vectorIndex, modelId))
    match keys.head? with
    | none => pure ()
    | some key =>
      removeKey key
      modifyState fun st => { st with liveBinaryCount := st.liveBinaryCount - 1 }
      selectIndex

def deletePayload (itemId : String) (vectorIndex : UInt32) (modelId : String) :
    EStateM Fault VectorStore Unit := do
  publishIfDeferredDirty
  deleteAndTombstone itemId vectorIndex modelId

def deleteVector (itemId modelId : String) : EStateM Fault VectorStore Unit := do
  publishIfDeferredDirty
  deleteAndTombstone itemId 0 modelId

def deleteAllVectors (itemId modelId : String) : EStateM Fault VectorStore Unit := do
  publishIfDeferredDirty
  modifyTable fun table => table.delete fun row =>
    decide (row.key.itemId = itemId ∧ row.key.modelId = modelId)
  let s ← get
  if !s.state.indexBuilt then pure ()
  else
    let keys ← liftExcept (liveKeysWhere s.state.bruteForceIndex.array fun k =>
      decide (k.itemId = itemId ∧ k.modelId = modelId))
    keys.forM removeKey
    let removedCount ← countedU32 keys.length
    modifyState fun st => { st with liveBinaryCount := st.liveBinaryCount - removedCount }
    selectIndex

def replaceModelVectors (modelId : String) (batch : List VectorPayloadInput) :
    EStateM Fault VectorStore Unit := do
  match batch.find? fun input => input.payload.kind = .int8 with
  | some bad => throw (.err (.int8QuantizationPolicyUndefined
      ("int8 writes are rejected: quantization policy is unspecified. " ++
        s!"Offending item: {bad.itemId}. See VECTORKIT_SPEC §I-4a.")))
  | none =>
    publishIfDeferredDirty
    let s ← get
    match s.table.replaceModel modelId batch with
    | none => throw (.err (.storeUnavailable s.insertConflict))
    | some table =>
      modifyTable fun _ => table
      rebuildFromTable
      modifyState fun st => { st with indexBuilt := true }
      selectIndex

/-- Empty the array store, if there is one, and the indexes. -/
def clearResidents : EStateM Fault VectorStore Unit := do
  let s ← get
  if s.state.arrayStore.isSome then
    runStore (ResidentArrayStore.rebuildFrom [])
    buildFromStore
  else buildIndexes [] []

def destroyAllVectors : EStateM Fault VectorStore Unit := do
  modifyTable fun table => table.delete fun _ => true
  clearResidents
  modifyState fun st => { st with
    liveBinaryCount := 0, isMihActive := false, indexBuilt := true, deferredIndexActive := false,
    deferredIndexDirty := false, deferredLiveKeys := none, deferredPendingRecords := [] }

/-- The `k` nearest vectors of a model by the active index. -/
def findNearest (order : IterationOrder CodeEntry) (probe : Engram) (modelId : String) (k : Nat) :
    EStateM Fault VectorStore (List VectorMatch) := do
  if k = 0 then pure []
  else
    ensureIndexBuiltLocked
    let s ← get
    let payload := VectorPayload.fromEngram probe
    let filter : MetadataFilter := { modelId := some modelId, modelVersion := none }
    let hits ← liftExcept (
      if s.state.isMihActive then
        s.state.mihIndex.search order payload DenseMetric.HAMMING k (some filter)
      else s.state.bruteForceIndex.search payload DenseMetric.HAMMING k (some filter))
    pure (hits.map fun h => { itemId := h.key.itemId, distance := h.rawDistance, modelId })

end VectorStore

end MootMemory
