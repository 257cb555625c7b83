import MootMemory.CorpusCalls
import MootMemory.SourceRanking

namespace MootMemory

/-- The providers of the reference substrate. -/
inductive ReferenceKind where
  | trained (modelVersion : String)
  | fixed (modelId : String)
deriving DecidableEq

/-- A substrate for runs on fixed inputs: ids are names, a text is one sentence, a provider's state
is its blob, and what a trained provider embeds a text to shows what it was trained on. -/
@[reducible] def referenceCorpus : CorpusSubstrate where
  ChunkId := String
  ContentHash := String
  Kind := ReferenceKind
  State := Blob
  chunkIdEq := inferInstance
  newV5 := id
  idText := id
  parseId := some
  parseId_idText _ := rfl
  sentences text := if text = "" then [] else [text]
  send clock nowMillis :=
    let sent := { clock with
      physicalTime := max clock.physicalTime nowMillis
      logicalCount := clock.logicalCount + 1 }
    (sent.stamp, sent)
  packed stamp := stamp.physicalTime * 65536 + stamp.logicalCount
  toLowercase := String.toList
  isAlphabetic := Char.isAlpha
  leaf id text := id ++ ":" ++ text
  interior children := String.join (children.map (·.2))
  insertConflict := "DuplicateKey"
  key
    | .trained modelVersion => ⟨"ri", modelVersion⟩
    | .fixed modelId => ⟨modelId, "1.0.0"⟩
  embedPair _ state text :=
    if text = "" then (⟨0, 0, 0, 0⟩, [])
    else
      (⟨UInt64.ofNat text.length, UInt64.ofNat state.length, 0, 0⟩,
        if state = [] then [] else [UInt32.ofNat text.length])
  trainOnCorpus _ state texts := state ++ texts.map fun text => UInt8.ofNat text.length
  serializeBasis _ state := state
  reconstructBasis _ blob := blob
  addToCounts _ state text := [state.headD 0 + UInt8.ofNat text.length]
  serializeCounts _ state := state
  restoreCounts _ _ counts := counts
  countsVocabularySize _ state := (state.headD 0).toNat

namespace ReferenceCorpus

/-- One core, and the one worker there is does everything. -/
def oneThread : Threads where
  availableParallelism := some 1
  positive := by simp
  claims _ workers pieces hpos :=
    { byWorker := List.range pieces :: List.replicate (workers - 1) []
      count := by
        rw [List.length_cons, List.length_replicate]
        omega
      once := by simp
      ordered := by
        intro claimed h
        rcases List.mem_cons.mp h with rfl | h
        · exact List.pairwise_lt_range
        · rw [List.eq_of_mem_replicate h]
          exact List.Pairwise.nil }

/-- Postings weigh what their terms occur. -/
def floats : QueryFloats where
  weighting _ _ _ _ _ freq := freq
  lawful _ _ _ := rfl
  Score := Int
  order := inferInstance
  zero := 0
  impact := id

def trainedModels : List (EmbeddingModelConfig referenceCorpus) := [.trainable (.trained "1") []]

def fixedModels : List (EmbeddingModelConfig referenceCorpus) := [.plain (.fixed "m") []]

/-- A corpus over an empty estate. -/
def opened (models : List (EmbeddingModelConfig referenceCorpus)) : Corpus referenceCorpus where
  storage := .empty
  invertedIndex := .opened .empty
  chunkSourceMap := CorpusStorage.empty.sourceOf
  slots := models.map (buildSlot .empty)
  encodeSpeed := .foreground

end ReferenceCorpus

end MootMemory
