import MootMemory.AuditTypes
import MootMemory.InvertedIndexStore
import MootMemory.KeyedTable
import MootMemory.VectorTable
import MootMemory.WorkClaims

namespace MootMemory

inductive CorpusKitError where
  | encodingFailure (reason : String)
  | decodingFailure (reason : String)
  | tokenizerUnavailable (reason : String)
  | modelUnavailable (reason : String)
  | embeddingFailed (reason : String)
  | storeUnavailable (reason : String)
  | notTrainable (reason : String)
deriving DecidableEq, Repr

/-- How a call can fail: with an error it returns, or by a panic. -/
inductive CorpusFault where
  | err (e : CorpusKitError)
  | panic
deriving DecidableEq, Repr

abbrev Blob := List UInt8

/-- What a provider's rows are kept under. -/
structure ModelKey where
  modelId : String
  modelVersion : String
deriving DecidableEq, Repr

/-- What the corpus is built on. A provider is a kind, which fixes its key for good, with a state;
its functions are given where they do not fail. -/
structure CorpusSubstrate where
  ChunkId : Type
  ContentHash : Type
  Kind : Type
  State : Type
  chunkIdEq : DecidableEq ChunkId
  newV5 : String → ChunkId
  idText : ChunkId → String
  parseId : String → Option ChunkId
  parseId_idText : ∀ id, parseId (idText id) = some id
  sentences : String → List String
  send : HlcGenerator → Int → Hlc × HlcGenerator
  packed : Hlc → Int
  toLowercase : String → List Char
  isAlphabetic : Char → Bool
  leaf : ChunkId → String → ContentHash
  interior : List (ChunkId × ContentHash) → ContentHash
  insertConflict : String
  key : Kind → ModelKey
  embedPair : Kind → State → String → Engram × List UInt32
  trainOnCorpus : Kind → State → List String → State
  serializeBasis : Kind → State → Blob
  reconstructBasis : Kind → Blob → State
  addToCounts : Kind → State → String → State
  serializeCounts : Kind → State → Blob
  restoreCounts : Kind → State → Blob → State
  countsVocabularySize : Kind → State → Nat

instance (sub : CorpusSubstrate) : DecidableEq sub.ChunkId := sub.chunkIdEq

theorem CorpusSubstrate.idText_injective (sub : CorpusSubstrate) :
    Function.Injective sub.idText := by
  intro a b h
  have hparse := sub.parseId_idText b
  rw [← h, sub.parseId_idText] at hparse
  exact Option.some.inj hparse

variable (sub : CorpusSubstrate)

structure Chunk where
  id : sub.ChunkId
  sourceId : String
  startOffset : Nat
  length : Nat
  text : String
  hlc : Hlc

/-- A row of `chunks`; the hash is the one of the text it was stored with. -/
structure ChunkRow where
  chunk : Chunk sub
  contentHash : sub.ContentHash

def ChunkRow.id {sub : CorpusSubstrate} (row : ChunkRow sub) : sub.ChunkId := row.chunk.id

/-- A row of `corpus_metadata`. -/
structure CorpusMetadata where
  sourceId : String
  merkleRoot : sub.ContentHash

/-- A row of `corpus_provider_basis`. -/
structure PersistedBasis where
  key : ModelKey
  basis : Blob
  trainedAtSecs : Int
  trainedChunkCount : Nat
deriving DecidableEq, Repr

/-- A row of `corpus_provider_counts`. -/
structure PersistedCounts where
  key : ModelKey
  counts : Blob
  documentCount : Nat
  vocabSize : Nat
  updatedAtSecs : Int
deriving DecidableEq, Repr

/-- The tables of the estate that the corpus writes. -/
structure CorpusStorage where
  chunks : KeyedTable (@ChunkRow.id sub)
  corpusMetadata : KeyedTable (@CorpusMetadata.sourceId sub)
  removedSources : Finset String
  basis : KeyedTable PersistedBasis.key
  counts : KeyedTable PersistedCounts.key
  vectors : VectorTable

/-- The maintained counts of a trainable slot, apart from its serving provider. -/
structure CountsState where
  accumulator : sub.State
  documentCount : Nat

/-- A held provider. The blob is the untrained basis of a trainable one, which has counts too. -/
structure ProviderSlot where
  kind : sub.Kind
  handle : sub.State
  freshBasisBlob : Option Blob
  counts : Option (CountsState sub)
  trainable : counts.isSome = freshBasisBlob.isSome

inductive EncodeSpeed where
  | foreground
  | background
deriving DecidableEq, Repr

structure Corpus where
  storage : CorpusStorage sub
  invertedIndex : InvertedIndexStore
  chunkSourceMap : sub.ChunkId → Option String
  slots : List (ProviderSlot sub)
  encodeSpeed : EncodeSpeed

/-- A model as the caller hands it in; the distributional ones can be trained. -/
inductive EmbeddingModelConfig where
  | trainable (kind : sub.Kind) (state : sub.State)
  | plain (kind : sub.Kind) (state : sub.State)

variable {sub}

def ProviderSlot.key (slot : ProviderSlot sub) : ModelKey := sub.key slot.kind

def ProviderSlot.modelId (slot : ProviderSlot sub) : String := slot.key.modelId

def CorpusStorage.empty : CorpusStorage sub := ⟨.empty, .empty, ∅, .empty, .empty, .empty⟩

/-- What the machine and the order its threads run in decide: the number of cores, if it is known,
and which worker claims which piece of work of a slot. -/
structure Threads where
  availableParallelism : Option Nat
  positive : ∀ n ∈ availableParallelism, 0 < n
  claims : (slot workers pieces : Nat) → 0 < workers → WorkClaims workers pieces

def Threads.embedConcurrencyCap (threads : Threads) : EncodeSpeed → Nat
  | .foreground => max (threads.availableParallelism.getD 1) 1
  | .background => max (threads.availableParallelism.getD 1 / 4) 1

theorem Threads.embedConcurrencyCap_pos (threads : Threads) (speed : EncodeSpeed) :
    0 < threads.embedConcurrencyCap speed := by
  cases speed with
  | foreground => exact Nat.lt_of_lt_of_le Nat.zero_lt_one (Nat.le_max_right _ _)
  | background => exact Nat.lt_of_lt_of_le Nat.zero_lt_one (Nat.le_max_right _ _)

end MootMemory
