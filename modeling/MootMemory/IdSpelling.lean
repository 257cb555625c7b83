import MootMemory.CountedCalls
import MootMemory.ShardAgreement

namespace MootMemory

variable {sub : CorpusSubstrate}

/-- An item id that reads as a chunk's is the text that the id is written as. -/
def Spelled (sub : CorpusSubstrate) (itemId : String) : Prop :=
  ∀ id, sub.parseId itemId = some id → itemId = sub.idText id

theorem spelled_idText (id : sub.ChunkId) : Spelled sub (sub.idText id) := by
  intro id' h
  rw [sub.parseId_idText] at h
  rw [Option.some.inj h]

namespace Corpus

/-- All postings and vectors are under ids as they are written. -/
structure Spelled (c : Corpus sub) : Prop where
  termFreqs : ∀ row ∈ c.invertedIndex.tables.termFreqs.rows, MootMemory.Spelled sub row.itemId
  docLens : ∀ row ∈ c.invertedIndex.tables.docLens.rows, MootMemory.Spelled sub row.itemId
  vectors : ∀ input ∈ c.storage.vectors.inputs, MootMemory.Spelled sub input.itemId

/-- The id is that of a chunk of the source. -/
def HasChunk (c : Corpus sub) (sourceId : String) (id : sub.ChunkId) : Prop :=
  ∃ row ∈ c.sourceRows sourceId, row.id = id

def modelIds (c : Corpus sub) : List String := c.slots.map (·.modelId)

/-- No posting, and no vector under a held model, reads as one of a chunk of the source. -/
structure Erased (c : Corpus sub) (sourceId : String) : Prop where
  termFreqs : ∀ row ∈ c.invertedIndex.tables.termFreqs.rows, ∀ id, c.HasChunk sourceId id →
    sub.parseId row.itemId ≠ some id
  docLens : ∀ row ∈ c.invertedIndex.tables.docLens.rows, ∀ id, c.HasChunk sourceId id →
    sub.parseId row.itemId ≠ some id
  vectors : ∀ input ∈ c.storage.vectors.inputs, input.modelId ∈ c.modelIds →
    ∀ id, c.HasChunk sourceId id → sub.parseId input.itemId ≠ some id

/-- The postings, and the vectors under held models, that read as ones of chunks of the source are
under ids as they are written. -/
structure SpelledFor (c : Corpus sub) (sourceId : String) : Prop where
  termFreqs : ∀ row ∈ c.invertedIndex.tables.termFreqs.rows, ∀ id, c.HasChunk sourceId id →
    sub.parseId row.itemId = some id → row.itemId = sub.idText id
  docLens : ∀ row ∈ c.invertedIndex.tables.docLens.rows, ∀ id, c.HasChunk sourceId id →
    sub.parseId row.itemId = some id → row.itemId = sub.idText id
  vectors : ∀ input ∈ c.storage.vectors.inputs, input.modelId ∈ c.modelIds →
    ∀ id, c.HasChunk sourceId id → sub.parseId input.itemId = some id →
      input.itemId = sub.idText id

theorem Spelled.spelledFor {c : Corpus sub} (h : c.Spelled) (sourceId : String) :
    c.SpelledFor sourceId where
  termFreqs row hrow id _ := h.termFreqs row hrow id
  docLens row hrow id _ := h.docLens row hrow id
  vectors input hinput _ id _ := h.vectors input hinput id

section Removal

theorem mem_chunksForSource {c : Corpus sub} {sourceId : String} {chunk : Chunk sub} :
    chunk ∈ c.chunksForSource sourceId ↔ ∃ row ∈ c.sourceRows sourceId, row.chunk = chunk := by
  rw [chunksForSource, List.mem_insertionSort, List.mem_map]

theorem hasChunk_iff {c : Corpus sub} {sourceId : String} {id : sub.ChunkId} :
    c.HasChunk sourceId id ↔ ∃ chunk ∈ c.chunksForSource sourceId, chunk.id = id := by
  constructor
  · rintro ⟨row, hrow, rfl⟩
    exact ⟨row.chunk, mem_chunksForSource.mpr ⟨row, hrow, rfl⟩, rfl⟩
  · rintro ⟨chunk, hchunk, rfl⟩
    obtain ⟨row, hrow, rfl⟩ := mem_chunksForSource.mp hchunk
    exact ⟨row, hrow, rfl⟩

theorem mem_removedIndex {store : InvertedIndexStore} {chunks : List (Chunk sub)} :
    (∀ row, row ∈ (removedIndex store chunks).tables.termFreqs.rows ↔
      row ∈ store.tables.termFreqs.rows ∧ ∀ chunk ∈ chunks, row.itemId ≠ sub.idText chunk.id) ∧
    ∀ row, row ∈ (removedIndex store chunks).tables.docLens.rows ↔
      row ∈ store.tables.docLens.rows ∧ ∀ chunk ∈ chunks, row.itemId ≠ sub.idText chunk.id := by
  induction chunks generalizing store with
  | nil => exact ⟨fun _ => by simp [removedIndex], fun _ => by simp [removedIndex]⟩
  | cons chunk chunks ih =>
    obtain ⟨hterms, hlens⟩ := @ih (store.removed (sub.idText chunk.id))
    have hcons : removedIndex store (chunk :: chunks) =
        removedIndex (store.removed (sub.idText chunk.id)) chunks := rfl
    rw [hcons]
    refine ⟨fun row => ?_, fun row => ?_⟩
    · rw [hterms, InvertedIndexStore.removed, PostingTables.deleteItem, RowSet.mem_deleteWhere,
        beq_eq_false_iff_ne, List.forall_mem_cons, and_assoc]
    · rw [hlens, InvertedIndexStore.removed, PostingTables.deleteItem, RowSet.mem_deleteWhere,
        beq_eq_false_iff_ne, List.forall_mem_cons, and_assoc]

theorem mem_inputs_deleteVectors {c : Corpus sub} {itemId modelId : String}
    {input : VectorPayloadInput} :
    input ∈ (c.deleteVectors itemId modelId).storage.vectors.inputs ↔
      input ∈ c.storage.vectors.inputs ∧ ¬(input.itemId = itemId ∧ input.modelId = modelId) := by
  have hdelete := VectorTable.inputs_delete c.storage.vectors fun key =>
    decide (key.itemId = itemId) && decide (key.modelId = modelId)
  show input ∈ (c.storage.vectors.delete fun row =>
    decide (row.key.itemId = itemId) && decide (row.key.modelId = modelId)).inputs ↔ _
  rw [hdelete, List.mem_filter]
  by_cases hitem : input.itemId = itemId
  · by_cases hmodel : input.modelId = modelId
    · simp [VectorPayloadInput.key, hitem, hmodel]
    · simp [VectorPayloadInput.key, hmodel]
  · simp [VectorPayloadInput.key, hitem]

theorem mem_inputs_withoutChunk {c : Corpus sub} {modelIds : List String} {chunk : Chunk sub}
    {input : VectorPayloadInput} :
    input ∈ (c.withoutChunk modelIds chunk).storage.vectors.inputs ↔
      input ∈ c.storage.vectors.inputs ∧
        ¬(input.itemId = sub.idText chunk.id ∧ input.modelId ∈ modelIds) := by
  have hfold : ∀ (modelIds : List String) (d : Corpus sub), input ∈ (modelIds.foldl
      (fun c modelId => c.deleteVectors (sub.idText chunk.id) modelId) d).storage.vectors.inputs ↔
        input ∈ d.storage.vectors.inputs ∧
          ¬(input.itemId = sub.idText chunk.id ∧ input.modelId ∈ modelIds) := by
    intro modelIds
    induction modelIds with
    | nil => exact fun d => by simp
    | cons modelId modelIds ih =>
      intro d
      rw [List.foldl_cons, ih, mem_inputs_deleteVectors, List.mem_cons]
      tauto
  exact hfold modelIds (c.unindexed chunk)

theorem mem_inputs_removed {c : Corpus sub} {sourceId : String} {input : VectorPayloadInput} :
    input ∈ (c.removed sourceId).storage.vectors.inputs ↔ input ∈ c.storage.vectors.inputs ∧
      ¬((∃ chunk ∈ c.chunksForSource sourceId, input.itemId = sub.idText chunk.id) ∧
        input.modelId ∈ c.modelIds) := by
  have hfold : ∀ (chunks : List (Chunk sub)) (d : Corpus sub), input ∈ (chunks.foldl
      (fun c' => c'.withoutChunk c.modelIds) d).storage.vectors.inputs ↔
        input ∈ d.storage.vectors.inputs ∧
          ¬((∃ chunk ∈ chunks, input.itemId = sub.idText chunk.id) ∧ input.modelId ∈ c.modelIds) := by
    intro chunks
    induction chunks with
    | nil => exact fun d => by simp
    | cons chunk chunks ih =>
      intro d
      rw [List.foldl_cons, ih, mem_inputs_withoutChunk, List.exists_mem_cons_iff, or_and_right,
        not_or, and_assoc]
  exact hfold (c.chunksForSource sourceId) c

/-- A removal leaves nothing behind just where everything that reads as one of the source's chunks
is under its id as it is written. -/
theorem erased_removed_iff (c : Corpus sub) (sourceId : String) :
    (c.removed sourceId).Erased sourceId ↔ c.SpelledFor sourceId := by
  obtain ⟨vectors, heq⟩ := removed_eq c sourceId
  have hindex : (c.removed sourceId).invertedIndex =
      removedIndex c.invertedIndex (c.chunksForSource sourceId) := by rw [heq]
  have hchunk : ∀ id, (c.removed sourceId).HasChunk sourceId id ↔ c.HasChunk sourceId id := by
    rw [heq]
    exact fun _ => Iff.rfl
  have hmodels : (c.removed sourceId).modelIds = c.modelIds := by rw [heq]; rfl
  obtain ⟨hterms, hlens⟩ :=
    @mem_removedIndex sub c.invertedIndex (c.chunksForSource sourceId)
  constructor
  · intro h
    refine ⟨fun row hrow id hid hparse => ?_, fun row hrow id hid hparse => ?_,
      fun input hinput hmodel id hid hparse => ?_⟩
    · by_contra hne
      refine h.termFreqs row ?_ id ((hchunk id).mpr hid) hparse
      rw [hindex, hterms]
      refine ⟨hrow, fun chunk _ htext => hne ?_⟩
      rw [htext, sub.parseId_idText] at hparse
      rw [htext, Option.some.inj hparse]
    · by_contra hne
      refine h.docLens row ?_ id ((hchunk id).mpr hid) hparse
      rw [hindex, hlens]
      refine ⟨hrow, fun chunk _ htext => hne ?_⟩
      rw [htext, sub.parseId_idText] at hparse
      rw [htext, Option.some.inj hparse]
    · by_contra hne
      refine h.vectors input ?_ (hmodels ▸ hmodel) id ((hchunk id).mpr hid) hparse
      rw [mem_inputs_removed]
      refine ⟨hinput, fun ⟨⟨chunk, _, htext⟩, _⟩ => hne ?_⟩
      rw [htext, sub.parseId_idText] at hparse
      rw [htext, Option.some.inj hparse]
  · intro h
    refine ⟨fun row hrow id hid hparse => ?_, fun row hrow id hid hparse => ?_,
      fun input hinput hmodel id hid hparse => ?_⟩
    · rw [hindex, hterms] at hrow
      obtain ⟨chunk, hchunk', rfl⟩ := hasChunk_iff.mp ((hchunk id).mp hid)
      exact hrow.2 chunk hchunk' (h.termFreqs row hrow.1 _ ((hchunk _).mp hid) hparse)
    · rw [hindex, hlens] at hrow
      obtain ⟨chunk, hchunk', rfl⟩ := hasChunk_iff.mp ((hchunk id).mp hid)
      exact hrow.2 chunk hchunk' (h.docLens row hrow.1 _ ((hchunk _).mp hid) hparse)
    · rw [mem_inputs_removed] at hinput
      rw [hmodels] at hmodel
      obtain ⟨chunk, hchunk', rfl⟩ := hasChunk_iff.mp ((hchunk id).mp hid)
      exact hinput.2 ⟨⟨chunk, hchunk', h.vectors input hinput.1 hmodel _ ((hchunk _).mp hid) hparse⟩,
        hmodel⟩

theorem hasChunk_scrubText (c : Corpus sub) (scrubbed sourceId : String) (id : sub.ChunkId) :
    (c.scrubText scrubbed).HasChunk sourceId id ↔ c.HasChunk sourceId id := by
  have hrow : ∀ row : ChunkRow sub, (if row.chunk.sourceId = scrubbed then
      { row with chunk.text := "" } else row).id = row.id ∧
        (if row.chunk.sourceId = scrubbed then { row with chunk.text := "" }
          else row).chunk.sourceId = row.chunk.sourceId := by
    intro row
    split
    next => exact ⟨rfl, rfl⟩
    next => exact ⟨rfl, rfl⟩
  constructor
  · rintro ⟨row, hmem, rfl⟩
    obtain ⟨hmem, hsource⟩ := List.mem_filter.mp hmem
    obtain ⟨old, hold, rfl⟩ := List.mem_map.mp hmem
    rw [decide_eq_true_eq, (hrow old).2] at hsource
    exact ⟨old, List.mem_filter.mpr ⟨hold, decide_eq_true hsource⟩, (hrow old).1.symm⟩
  · rintro ⟨row, hmem, rfl⟩
    obtain ⟨hmem, hsource⟩ := List.mem_filter.mp hmem
    rw [decide_eq_true_eq] at hsource
    refine ⟨_, List.mem_filter.mpr ⟨List.mem_map_of_mem hmem, ?_⟩, (hrow row).1⟩
    rw [decide_eq_true_eq, (hrow row).2, hsource]

theorem erased_expunged_iff (c : Corpus sub) (sourceId : String) :
    (c.expunged sourceId).Erased sourceId ↔ c.SpelledFor sourceId := by
  rw [expunged, erased_removed_iff]
  have hchunk := hasChunk_scrubText c sourceId sourceId
  constructor
  · intro h
    exact ⟨fun row hrow id hid => h.termFreqs row hrow id ((hchunk id).mpr hid),
      fun row hrow id hid => h.docLens row hrow id ((hchunk id).mpr hid),
      fun input hinput hmodel id hid => h.vectors input hinput hmodel id ((hchunk id).mpr hid)⟩
  · intro h
    exact ⟨fun row hrow id hid => h.termFreqs row hrow id ((hchunk id).mp hid),
      fun row hrow id hid => h.docLens row hrow id ((hchunk id).mp hid),
      fun input hinput hmodel id hid => h.vectors input hinput hmodel id ((hchunk id).mp hid)⟩

end Removal

end Corpus

end MootMemory
