import MootMemory.CorpusIngest

namespace MootMemory

variable {sub : CorpusSubstrate}

section Removal

/-- The postings of a chunk and its vectors under every held model. -/
def removeChunk (modelIds : List String) (chunk : Chunk sub) : CorpusM sub Unit := do
  removeItem (sub.idText chunk.id)
  modelIds.forM fun modelId => do
    writeCorpus fun c => c.deleteVectors (sub.idText chunk.id) modelId
    attempt

def remove (sourceId : String) : CorpusM sub Unit := do
  let chunks ← readCorpus fun c => c.chunksForSource sourceId
  let c ← getCorpus
  chunks.forM (removeChunk (c.slots.map (·.modelId)))
  modifyCorpus fun c => c.unmapChunks chunks
  writeCorpus fun c => c.markRemoved sourceId

/-- The text goes first, so that it is gone even where the rest fails. -/
def expunge (sourceId : String) : CorpusM sub Unit := do
  writeCorpus fun c => c.scrubText sourceId
  remove sourceId

end Removal

section Opening

/-- The source of the row under an id, where there is one. -/
def CorpusStorage.sourceOf (storage : CorpusStorage sub) (id : sub.ChunkId) : Option String :=
  (storage.chunks.find? id).map (·.chunk.sourceId)

/-- The counts of a trainable model: its untrained basis, and what is stored of its counts. -/
def loadCounts (storage : CorpusStorage sub) (kind : sub.Kind) (factory : Blob) : CountsState sub :=
  let accumulator := sub.reconstructBasis kind factory
  match storage.counts.find? (sub.key kind) with
  | some row => ⟨sub.restoreCounts kind accumulator row.counts, row.documentCount⟩
  | none => ⟨accumulator, 0⟩

/-- The provider of a trainable model: the one of the stored basis, if there is one. -/
def loadProvider (storage : CorpusStorage sub) (kind : sub.Kind) (state : sub.State) : sub.State :=
  match storage.basis.find? (sub.key kind) with
  | some row => sub.reconstructBasis kind row.basis
  | none => state

def buildSlot (storage : CorpusStorage sub) : EmbeddingModelConfig sub → ProviderSlot sub
  | .plain kind state => ⟨kind, state, none, none, rfl⟩
  | .trainable kind state =>
    let factory := sub.serializeBasis kind state
    { kind
      handle := loadProvider storage kind state
      freshBasisBlob := some factory
      counts := some (loadCounts storage kind factory)
      trainable := rfl }

def noModel : CorpusKitError :=
  .storeUnavailable "Corpus requires at least one embedding model"

/-- Opens the tables of an estate, and the postings of its file. -/
def openMany (storage : CorpusStorage sub) (postings : PostingTables)
    (models : List (EmbeddingModelConfig sub)) : Except CorpusKitError (Corpus sub) :=
  if models = [] then .error noModel
  else .ok
    { storage, invertedIndex := .opened postings, chunkSourceMap := storage.sourceOf
      slots := models.map (buildSlot storage), encodeSpeed := .foreground }

end Opening

end MootMemory
