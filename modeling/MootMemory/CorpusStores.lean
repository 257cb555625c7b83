import MootMemory.Chunker
import MootMemory.CorpusSession

namespace MootMemory

variable {sub : CorpusSubstrate}

section Tables

namespace Corpus

variable (c : Corpus sub)

def withChunks (chunks : KeyedTable (@ChunkRow.id sub)) : Corpus sub :=
  { c with storage.chunks := chunks }

def dropCache : Corpus sub := { c with invertedIndex.cached := none }

def putTermFreq (row : TermFreq) : Corpus sub :=
  c.withTables fun t => { t with termFreqs := t.termFreqs.replace row }

def putDocLen (row : DocLen) : Corpus sub :=
  c.withTables fun t => { t with docLens := t.docLens.replace row }

def clearRemoved (sourceId : String) : Corpus sub :=
  { c with storage.removedSources := c.storage.removedSources.erase sourceId }

def markRemoved (sourceId : String) : Corpus sub :=
  { c with storage.removedSources := insert sourceId c.storage.removedSources }

def sourceRows (sourceId : String) : List (ChunkRow sub) :=
  c.storage.chunks.rows.filter fun row => row.chunk.sourceId = sourceId

/-- The root over the stored hashes of a source's chunks. -/
def rollup (sourceId : String) : Corpus sub :=
  let children := (c.sourceRows sourceId).map fun row => (row.id, row.contentHash)
  { c with
    storage.corpusMetadata := c.storage.corpusMetadata.put ⟨sourceId, sub.interior children⟩ }

def scrubText (sourceId : String) : Corpus sub :=
  c.withChunks ⟨c.storage.chunks.rows.map fun row =>
    if row.chunk.sourceId = sourceId then { row with chunk.text := "" } else row, by
      have hids : (c.storage.chunks.rows.map fun row =>
          if row.chunk.sourceId = sourceId then { row with chunk.text := "" } else row).map
            ChunkRow.id = c.storage.chunks.rows.map ChunkRow.id := by
        rw [List.map_map]
        refine List.map_congr_left fun row _ => ?_
        rw [Function.comp_apply]
        split <;> rfl
      rw [hids]
      exact c.storage.chunks.nodup⟩

/-- All chunks by their clock stamps. -/
def allChunks : List (Chunk sub) :=
  (c.storage.chunks.rows.map (·.chunk)).insertionSort fun a b =>
    sub.packed a.hlc ≤ sub.packed b.hlc

/-- The chunks of a source by their offsets. -/
def chunksForSource (sourceId : String) : List (Chunk sub) :=
  ((c.sourceRows sourceId).map (·.chunk)).insertionSort fun a b => a.startOffset ≤ b.startOffset

/-- The chunks whose source is not removed. -/
def activeChunks : List (Chunk sub) :=
  c.allChunks.filter fun chunk => chunk.sourceId ∉ c.storage.removedSources

def mapChunks (chunks : List (Chunk sub)) (sourceId : String) : Corpus sub :=
  { c with
    chunkSourceMap := chunks.foldl (fun csm chunk => Function.update csm chunk.id (some sourceId))
      c.chunkSourceMap }

def unmapChunks (chunks : List (Chunk sub)) : Corpus sub :=
  { c with
    chunkSourceMap := chunks.foldl (fun csm chunk => Function.update csm chunk.id none)
      c.chunkSourceMap }

def hasBasis (slot : ProviderSlot sub) : Bool := (c.storage.basis.find? slot.key).isSome

def putBasis (row : PersistedBasis) : Corpus sub :=
  { c with storage.basis := c.storage.basis.put row }

def putCounts (row : PersistedCounts) : Corpus sub :=
  { c with storage.counts := c.storage.counts.put row }

def withVectors (vectors : VectorTable) : Corpus sub := { c with storage.vectors := vectors }

def putVector (input : VectorPayloadInput) : Corpus sub :=
  c.withVectors (c.storage.vectors.upsert input)

/-- Rows with the item and model are deleted. -/
def deleteVectors (itemId modelId : String) : Corpus sub :=
  c.withVectors (c.storage.vectors.delete fun row =>
    row.key.itemId = itemId && row.key.modelId = modelId)

/-- A trained state takes over the serving of a slot. -/
def install (slotIndex : Nat) (trained : sub.State) : Corpus sub :=
  { c with slots := c.slots.modify slotIndex fun slot => { slot with handle := trained } }

end Corpus

end Tables

section Bundle

/-- A second row under an id is refused; the answer tells whether the chunk went in. -/
def insertChunk (chunk : Chunk sub) : CorpusM sub Bool := do
  attempt
  let c ← getCorpus
  match c.storage.chunks.insert? ⟨chunk, sub.leaf chunk.id chunk.text⟩ with
  | some chunks =>
    modifyCorpus fun c => c.withChunks chunks
    pure true
  | none => pure false

/-- Insert chunks one by one; the answer is those that were not there. -/
def insertChunks : List (Chunk sub) → CorpusM sub (List (Chunk sub))
  | [] => pure []
  | chunk :: chunks => do
    let new ← insertChunk chunk
    let inserted ← insertChunks chunks
    pure (if new then chunk :: inserted else inserted)

def rollupCorpusMerkleRoot (sourceId : String) : CorpusM sub Unit := do
  attempt
  writeCorpus fun c => c.rollup sourceId

/-- `BundleStore::insert`. -/
def bundleInsert (chunks : List (Chunk sub)) : CorpusM sub (List (Chunk sub)) :=
  if chunks = [] then pure []
  else do
    let inserted ← insertChunks chunks
    (chunks.map (·.sourceId)).dedup.forM rollupCorpusMerkleRoot
    pure inserted

end Bundle

section Index

/-- `delete_from_db`, a statement for each table. -/
def deleteFromDb (itemId : String) : CorpusM sub Unit := do
  writeCorpus fun c => c.withTables fun t =>
    { t with termFreqs := t.termFreqs.deleteWhere (·.itemId == itemId) }
  writeCorpus fun c => c.withTables fun t =>
    { t with docLens := t.docLens.deleteWhere (·.itemId == itemId) }

/-- `InvertedIndexStore::index`, a statement for each row. -/
def indexItem (itemId : String) (tokens : List String) : CorpusM sub Unit := do
  deleteFromDb itemId
  if tokens = [] then modifyCorpus Corpus.dropCache
  else do
    (termFreqsOf itemId tokens).forM fun row => writeCorpus fun c => c.putTermFreq row
    writeCorpus fun c => c.putDocLen ⟨itemId, tokens.length⟩
    modifyCorpus Corpus.dropCache

/-- `InvertedIndexStore::remove`. -/
def removeItem (itemId : String) : CorpusM sub Unit := do
  deleteFromDb itemId
  modifyCorpus Corpus.dropCache

end Index

section Vectors

def VectorPayload.fromF32 (values : List UInt32) : VectorPayload :=
  { kind := .float32
    dim := UInt32.ofNat values.length
    bytes := values.flatMap fun value => leBytes 4 value.toNat
    scale := none }

/-- The rows of a chunk under a provider: its code, and its float vector if there is one. -/
def chunkRows (kind : sub.Kind) (state : sub.State) (filedAtSecs : Int) (chunk : Chunk sub) :
    List VectorPayloadInput :=
  let pair := sub.embedPair kind state chunk.text
  let row (vectorIndex : UInt32) (payload : VectorPayload) : VectorPayloadInput :=
    { itemId := sub.idText chunk.id, vectorIndex, payload, modelId := (sub.key kind).modelId,
      modelVersion := (sub.key kind).modelVersion, filedAt := filedAtSecs }
  row 0 (.fromEngram pair.1) :: if pair.2 = [] then [] else [row 1 (.fromF32 pair.2)]

/-- The embedding of a chunk is a step of its own. -/
def embedChunk (kind : sub.Kind) (state : sub.State) (filedAtSecs : Int) (chunk : Chunk sub) :
    CorpusM sub (List VectorPayloadInput) := do
  attempt
  pure (chunkRows kind state filedAtSecs chunk)

def embedChunks (kind : sub.Kind) (state : sub.State) (filedAtSecs : Int)
    (chunks : List (Chunk sub)) : CorpusM sub (List VectorPayloadInput) := do
  let rows ← chunks.mapM (embedChunk kind state filedAtSecs)
  pure rows.flatten

/-- `VectorStore::add_payloads`: every row for itself, then the resident vectors. -/
def addPayloads (batch : List VectorPayloadInput) : CorpusM sub Unit :=
  if batch = [] then pure ()
  else do
    batch.forM fun input => writeCorpus fun c => c.putVector input
    attempt

/-- `VectorStore::replace_model_vectors`: one transaction, then the resident vectors. -/
def replaceModelVectors (modelId : String) (batch : List VectorPayloadInput) :
    CorpusM sub Unit := do
  attempt
  let c ← getCorpus
  match c.storage.vectors.replaceModel modelId batch with
  | some vectors => modifyCorpus fun c => c.withVectors vectors
  | none => throw (.err (.storeUnavailable sub.insertConflict))
  attempt

end Vectors

def ProviderSlot.foldCounts (slot : ProviderSlot sub) (chunks : List (Chunk sub)) :
    ProviderSlot sub :=
  { slot with
    counts := slot.counts.map fun state =>
      { accumulator := chunks.foldl (fun acc chunk => sub.addToCounts slot.kind acc chunk.text)
          state.accumulator
        documentCount := state.documentCount + chunks.length }
    trainable := by rw [Option.isSome_map, slot.trainable] }

def Corpus.foldCounts (c : Corpus sub) (chunks : List (Chunk sub)) : Corpus sub :=
  if chunks = [] then c else { c with slots := c.slots.map (·.foldCounts chunks) }

def foldChunksIntoCounts (chunks : List (Chunk sub)) : CorpusM sub Unit :=
  modifyCorpus fun c => c.foldCounts chunks

/-- The row that a slot's maintained counts are stored as. -/
def ProviderSlot.countsRow (slot : ProviderSlot sub) (nowSecs : Int) (state : CountsState sub) :
    PersistedCounts :=
  { key := slot.key
    counts := sub.serializeCounts slot.kind state.accumulator
    documentCount := state.documentCount
    vocabSize := sub.countsVocabularySize slot.kind state.accumulator
    updatedAtSecs := nowSecs }

def persistSlotCounts (nowSecs : Int) (slot : ProviderSlot sub) : CorpusM sub Unit :=
  match slot.counts with
  | some state => writeCorpus fun c => c.putCounts (slot.countsRow nowSecs state)
  | none => pure ()

def persistMaintainedCounts (nowSecs : Int) : CorpusM sub Unit := do
  let c ← getCorpus
  c.slots.forM (persistSlotCounts nowSecs)

def noAccumulator : CorpusKitError :=
  .notTrainable "slot has no counts accumulator — basis seam invariant violated"

/-- A fresh provider from the untrained basis, trained on the texts. -/
def ProviderSlot.trained (slot : ProviderSlot sub) (blob : Blob) (chunks : List (Chunk sub)) :
    sub.State :=
  sub.trainOnCorpus slot.kind (sub.reconstructBasis slot.kind blob) (chunks.map (·.text))

/-- The trained provider is installed before its basis is stored. Here and below a slot's index is
one of a slot there is. -/
def trainSlot (slotIndex : Nat) (slot : ProviderSlot sub) (blob : Blob) (chunks : List (Chunk sub))
    (nowSecs : Int) : CorpusM sub Unit := do
  attempt
  let trained := slot.trained blob chunks
  modifyCorpus fun c => c.install slotIndex trained
  writeCorpus fun c => c.putBasis
    { key := slot.key, basis := sub.serializeBasis slot.kind trained, trainedAtSecs := nowSecs,
      trainedChunkCount := chunks.length }

def trainAndPersistBasis (slotIndex : Nat) (chunks : List (Chunk sub)) (nowSecs : Int) :
    CorpusM sub Unit := do
  let c ← getCorpus
  match c.slots[slotIndex]? with
  | none => pure ()
  | some slot =>
    match slot.freshBasisBlob, slot.counts with
    | none, _ => pure ()
    | some _, none => throw (.err noAccumulator)
    | some blob, some _ => trainSlot slotIndex slot blob chunks nowSecs

def reembedBatchSize : Nat := 3000

def batchNotProduced (i : Nat) : CorpusKitError :=
  .embeddingFailed s!"re-embed batch {i} was never produced (worker exited early)"

/-- The batches a worker claims, each with its rows. -/
def embedClaimed (slot : ProviderSlot sub) (filedAtSecs : Int) (batches : List (List (Chunk sub)))
    (claimed : List Nat) : CorpusM sub (List (Nat × List VectorPayloadInput)) :=
  claimed.mapM fun i => do
    let rows ← embedChunks slot.kind slot.handle filedAtSecs (batches.getD i [])
    pure (i, rows)

/-- The rows of all batches, in their order, embedded by the workers of a pool. -/
def embedBatches (slot : ProviderSlot sub) (filedAtSecs : Int) (batches : List (List (Chunk sub)))
    {workers : Nat} (claims : WorkClaims workers batches.length) :
    CorpusM sub (List (List VectorPayloadInput)) := do
  let outs ← claims.byWorker.mapM (embedClaimed slot filedAtSecs batches)
  match reassemble batches.length outs.flatten with
  | .ok rows => pure rows
  | .error i => throw (.err (batchNotProduced i))

def poolSize (cap pieces : Nat) : Nat := min cap (max pieces 1)

theorem poolSize_pos {cap : Nat} (h : 0 < cap) (pieces : Nat) : 0 < poolSize cap pieces := by
  unfold poolSize
  omega

/-- The stale rows of the slot's model give way to rows under its present provider. -/
def reembedChunks (threads : Threads) (slotIndex : Nat) (chunks : List (Chunk sub))
    (filedAtSecs : Int) : CorpusM sub Unit := do
  let c ← getCorpus
  match c.slots[slotIndex]? with
  | none => pure ()
  | some slot =>
    let batches := windows reembedBatchSize chunks
    let claims := threads.claims slotIndex _ batches.length
      (poolSize_pos (threads.embedConcurrencyCap_pos c.encodeSpeed) batches.length)
    let rows ← embedBatches slot filedAtSecs batches claims
    replaceModelVectors slot.modelId rows.flatten

def needsTraining (c : Corpus sub) (slotIndex : Nat) : Bool :=
  match c.slots[slotIndex]? with
  | some slot => slot.freshBasisBlob.isSome && !c.hasBasis slot
  | none => false

/-- All actions run to their ends; the first error among them is the error. -/
def runAll : List (CorpusM sub Unit) → CorpusM sub Unit
  | [] => pure ()
  | x :: xs => fun s =>
    match x s with
    | .ok () s' => runAll xs s'
    | .error e s' =>
      match runAll xs s' with
      | .ok () s'' => .error e s''
      | .error _ s'' => .error e s''

/-- `active_chunks`: the removed sources, then the chunks. -/
def activeChunks : CorpusM sub (List (Chunk sub)) := do
  attempt
  readCorpus Corpus.activeChunks

/-- Every trainable slot is trained anew in a thread of its own, then every slot re-embedded. -/
def reindex (threads : Threads) (nowMillis : Int) : CorpusM sub Unit := do
  let chunks ← activeChunks
  let filedAtSecs := nowMillis.tdiv 1000
  let c ← getCorpus
  let slots := List.range c.slots.length
  runAll (slots.map fun i => trainAndPersistBasis i chunks filedAtSecs)
  slots.forM fun i => reembedChunks threads i chunks filedAtSecs
  persistMaintainedCounts filedAtSecs

end MootMemory
