import MootMemory.CorpusEffects

namespace MootMemory

variable {sub : CorpusSubstrate}

/-- A slot without its counts. -/
def ProviderSlot.serving (slot : ProviderSlot sub) : sub.Kind × sub.State × Option Blob :=
  (slot.kind, slot.handle, slot.freshBasisBlob)

/-- What of a slot is fixed when it is built. -/
def ProviderSlot.origin (slot : ProviderSlot sub) : sub.Kind × Option Blob :=
  (slot.kind, slot.freshBasisBlob)

/-- The postings after chunks are indexed one after another. -/
def InvertedIndexStore.indexAll (store : InvertedIndexStore) (chunks : List (Chunk sub)) :
    InvertedIndexStore :=
  chunks.foldl (fun store chunk =>
    store.indexed (sub.idText chunk.id) (defaultKeywordTokens sub chunk.text)) store

namespace Corpus

/-- The tables of chunks with the map to their sources. -/
structure Estate (sub : CorpusSubstrate) where
  chunks : KeyedTable (@ChunkRow.id sub)
  corpusMetadata : KeyedTable (@CorpusMetadata.sourceId sub)
  removedSources : Finset String
  chunkSourceMap : sub.ChunkId → Option String

def estate (c : Corpus sub) : Estate sub where
  chunks := c.storage.chunks
  corpusMetadata := c.storage.corpusMetadata
  removedSources := c.storage.removedSources
  chunkSourceMap := c.chunkSourceMap

def serving (c : Corpus sub) : List (sub.Kind × sub.State × Option Blob) :=
  c.slots.map (·.serving)

def origins (c : Corpus sub) : List (sub.Kind × Option Blob) := c.slots.map (·.origin)

/-- The maintained counts of the slots. -/
def countStates (c : Corpus sub) : List (Option (CountsState sub)) := c.slots.map (·.counts)

variable {c c' : Corpus sub} {i : Nat} {chunks : List (Chunk sub)} {nowSecs : Int}

theorem activeChunks_congr (h : c.estate = c'.estate) : c.activeChunks = c'.activeChunks := by
  have hchunks : c.storage.chunks = c'.storage.chunks := congrArg Estate.chunks h
  have hremoved : c.storage.removedSources = c'.storage.removedSources :=
    congrArg Estate.removedSources h
  rw [activeChunks, activeChunks, allChunks, allChunks, hchunks, hremoved]

theorem origins_of_serving (h : c.serving = c'.serving) : c.origins = c'.origins := by
  have hmap : ∀ c : Corpus sub, c.origins = c.serving.map fun s => (s.1, s.2.2) := by
    intro c
    rw [serving, List.map_map]
    rfl
  rw [hmap, hmap, h]

theorem length_slots_of_origins (h : c.origins = c'.origins) :
    c.slots.length = c'.slots.length := by
  have hlen := congrArg List.length h
  rwa [origins, origins, List.length_map, List.length_map] at hlen

section Retrained

/-- What does not look at the serving provider does not see one installed. -/
theorem map_slots_install {α : Type} {g : ProviderSlot sub → α}
    (h : ∀ slot trained, g { slot with handle := trained } = g slot) (c : Corpus sub) (i : Nat)
    (trained : sub.State) : (c.install i trained).slots.map g = c.slots.map g := by
  unfold install
  apply List.ext_getElem?
  intro j
  rw [List.getElem?_map, List.getElem?_map, List.getElem?_modify]
  split
  next => cases c.slots[j]? <;> simp [h]
  next => cases c.slots[j]? <;> simp

/-- What training a slot leaves alone. -/
theorem retrained_frame (c : Corpus sub) (i : Nat) (chunks : List (Chunk sub)) (nowSecs : Int) :
    (c.retrained i chunks nowSecs).estate = c.estate ∧
      (c.retrained i chunks nowSecs).invertedIndex = c.invertedIndex ∧
      (c.retrained i chunks nowSecs).storage.vectors = c.storage.vectors ∧
      (c.retrained i chunks nowSecs).storage.counts = c.storage.counts ∧
      (c.retrained i chunks nowSecs).origins = c.origins ∧
      (c.retrained i chunks nowSecs).countStates = c.countStates ∧
      (c.retrained i chunks nowSecs).encodeSpeed = c.encodeSpeed := by
  unfold retrained
  cases c.slots[i]? with
  | none => exact ⟨rfl, rfl, rfl, rfl, rfl, rfl, rfl⟩
  | some slot =>
    dsimp only
    cases slot.freshBasisBlob with
    | none => exact ⟨rfl, rfl, rfl, rfl, rfl, rfl, rfl⟩
    | some blob =>
      dsimp only
      refine ⟨rfl, rfl, rfl, rfl, ?_, ?_, rfl⟩
      · exact map_slots_install (g := ProviderSlot.origin) (fun _ _ => rfl) c i _
      · exact map_slots_install (g := ProviderSlot.counts) (fun _ _ => rfl) c i _

@[simp] theorem estate_retrained : (c.retrained i chunks nowSecs).estate = c.estate :=
  (retrained_frame c i chunks nowSecs).1

@[simp] theorem invertedIndex_retrained :
    (c.retrained i chunks nowSecs).invertedIndex = c.invertedIndex :=
  (retrained_frame c i chunks nowSecs).2.1

@[simp] theorem vectors_retrained :
    (c.retrained i chunks nowSecs).storage.vectors = c.storage.vectors :=
  (retrained_frame c i chunks nowSecs).2.2.1

@[simp] theorem counts_retrained :
    (c.retrained i chunks nowSecs).storage.counts = c.storage.counts :=
  (retrained_frame c i chunks nowSecs).2.2.2.1

@[simp] theorem origins_retrained : (c.retrained i chunks nowSecs).origins = c.origins :=
  (retrained_frame c i chunks nowSecs).2.2.2.2.1

@[simp] theorem countStates_retrained :
    (c.retrained i chunks nowSecs).countStates = c.countStates :=
  (retrained_frame c i chunks nowSecs).2.2.2.2.2.1

end Retrained

section Reembedded

/-- Re-embedding a slot writes the vectors only. -/
theorem reembedded_eq (c : Corpus sub) (i : Nat) (chunks : List (Chunk sub)) (nowSecs : Int) :
    c.reembedded i chunks nowSecs =
      c.withVectors (c.reembedded i chunks nowSecs).storage.vectors := by
  unfold reembedded
  cases c.slots[i]? with
  | none => rfl
  | some slot => rfl

@[simp] theorem estate_reembedded : (c.reembedded i chunks nowSecs).estate = c.estate := by
  rw [reembedded_eq]
  rfl

@[simp] theorem slots_reembedded : (c.reembedded i chunks nowSecs).slots = c.slots := by
  rw [reembedded_eq]
  rfl

@[simp] theorem invertedIndex_reembedded :
    (c.reembedded i chunks nowSecs).invertedIndex = c.invertedIndex := by
  rw [reembedded_eq]
  rfl

@[simp] theorem basis_reembedded :
    (c.reembedded i chunks nowSecs).storage.basis = c.storage.basis := by
  rw [reembedded_eq]
  rfl

@[simp] theorem counts_reembedded :
    (c.reembedded i chunks nowSecs).storage.counts = c.storage.counts := by
  rw [reembedded_eq]
  rfl

end Reembedded

section Persisted

/-- Storing the counts writes their table only. -/
theorem foldl_persistedSlot (slots : List (ProviderSlot sub)) (c : Corpus sub) (nowSecs : Int) :
    ∃ counts, slots.foldl (fun c => c.persistedSlot nowSecs) c =
      { c with storage.counts := counts } := by
  induction slots generalizing c with
  | nil => exact ⟨c.storage.counts, rfl⟩
  | cons slot slots ih =>
    have hone : ∃ counts, c.persistedSlot nowSecs slot = { c with storage.counts := counts } := by
      unfold persistedSlot
      cases slot.counts with
      | none => exact ⟨c.storage.counts, rfl⟩
      | some state => exact ⟨c.storage.counts.put (slot.countsRow nowSecs state), rfl⟩
    obtain ⟨counts, hcounts⟩ := hone
    rw [List.foldl_cons, hcounts]
    obtain ⟨counts', hrest⟩ := ih { c with storage.counts := counts }
    exact ⟨counts', hrest⟩

theorem persisted_eq (c : Corpus sub) (nowSecs : Int) :
    ∃ counts, c.persisted nowSecs = { c with storage.counts := counts } :=
  foldl_persistedSlot c.slots c nowSecs

@[simp] theorem estate_persisted : (c.persisted nowSecs).estate = c.estate := by
  obtain ⟨counts, h⟩ := persisted_eq c nowSecs
  rw [h]
  rfl

@[simp] theorem slots_persisted : (c.persisted nowSecs).slots = c.slots := by
  obtain ⟨counts, h⟩ := persisted_eq c nowSecs
  rw [h]

@[simp] theorem invertedIndex_persisted :
    (c.persisted nowSecs).invertedIndex = c.invertedIndex := by
  obtain ⟨counts, h⟩ := persisted_eq c nowSecs
  rw [h]

@[simp] theorem vectors_persisted :
    (c.persisted nowSecs).storage.vectors = c.storage.vectors := by
  obtain ⟨counts, h⟩ := persisted_eq c nowSecs
  rw [h]

@[simp] theorem basis_persisted : (c.persisted nowSecs).storage.basis = c.storage.basis := by
  obtain ⟨counts, h⟩ := persisted_eq c nowSecs
  rw [h]

end Persisted

section Upserted

variable {rows : List VectorPayloadInput}

@[simp] theorem estate_upserted : (c.upserted rows).estate = c.estate := rfl

@[simp] theorem slots_upserted : (c.upserted rows).slots = c.slots := rfl

@[simp] theorem invertedIndex_upserted : (c.upserted rows).invertedIndex = c.invertedIndex := rfl

@[simp] theorem basis_upserted : (c.upserted rows).storage.basis = c.storage.basis := rfl

theorem vectors_upserted : (c.upserted rows).storage.vectors = c.storage.vectors.upsertAll rows :=
  rfl

end Upserted

section Indexed

variable {chunk : Chunk sub}

@[simp] theorem storage_indexed : (c.indexed chunk).storage = c.storage := rfl

@[simp] theorem estate_indexed : (c.indexed chunk).estate = c.estate := rfl

@[simp] theorem slots_indexed : (c.indexed chunk).slots = c.slots := rfl

/-- Postings are written apart from everything else. -/
theorem foldl_indexed_eq (chunks : List (Chunk sub)) (c : Corpus sub) :
    ∃ index, chunks.foldl indexed c = { c with invertedIndex := index } := by
  induction chunks generalizing c with
  | nil => exact ⟨c.invertedIndex, rfl⟩
  | cons chunk chunks ih =>
    obtain ⟨index, hindex⟩ := ih (c.indexed chunk)
    exact ⟨index, hindex⟩

@[simp] theorem storage_foldl_indexed : (chunks.foldl indexed c).storage = c.storage := by
  obtain ⟨index, h⟩ := foldl_indexed_eq chunks c
  rw [h]

@[simp] theorem estate_foldl_indexed : (chunks.foldl indexed c).estate = c.estate := by
  obtain ⟨index, h⟩ := foldl_indexed_eq chunks c
  rw [h]
  rfl

@[simp] theorem slots_foldl_indexed : (chunks.foldl indexed c).slots = c.slots := by
  obtain ⟨index, h⟩ := foldl_indexed_eq chunks c
  rw [h]

theorem invertedIndex_foldl_indexed (c : Corpus sub) (chunks : List (Chunk sub)) :
    (chunks.foldl indexed c).invertedIndex = c.invertedIndex.indexAll chunks :=
  (List.foldl_hom (fun c : Corpus sub => c.invertedIndex) fun _ _ => rfl).symm

end Indexed

section Stored

variable {sourceId : String}

theorem foldl_rollup_eq (sources : List String) (c : Corpus sub) :
    ∃ metadata, sources.foldl rollup c = { c with storage.corpusMetadata := metadata } := by
  induction sources generalizing c with
  | nil => exact ⟨c.storage.corpusMetadata, rfl⟩
  | cons source sources ih =>
    obtain ⟨metadata, h⟩ := ih (c.rollup source)
    exact ⟨metadata, h⟩

theorem addChunks_eq (chunks : List (Chunk sub)) (c : Corpus sub) :
    ∃ rows, c.addChunks chunks = c.withChunks rows := by
  induction chunks generalizing c with
  | nil => exact ⟨c.storage.chunks, rfl⟩
  | cons chunk chunks ih =>
    have hone : ∃ rows, c.addChunk chunk = c.withChunks rows := by
      unfold addChunk
      cases c.storage.chunks.insert? ⟨chunk, sub.leaf chunk.id chunk.text⟩ with
      | none => exact ⟨c.storage.chunks, rfl⟩
      | some rows => exact ⟨rows, rfl⟩
    obtain ⟨rows, hrows⟩ := hone
    obtain ⟨rows', hrest⟩ := ih (c.addChunk chunk)
    rw [addChunks, List.foldl_cons]
    refine ⟨rows', hrest.trans ?_⟩
    rw [hrows]
    rfl

theorem bundled_eq (chunks : List (Chunk sub)) (c : Corpus sub) :
    ∃ rows metadata, c.bundled chunks =
      { c with storage.chunks := rows, storage.corpusMetadata := metadata } := by
  obtain ⟨rows, hrows⟩ := addChunks_eq chunks c
  obtain ⟨metadata, hmetadata⟩ := foldl_rollup_eq ((chunks.map (·.sourceId)).dedup)
    (c.addChunks chunks)
  refine ⟨rows, metadata, ?_⟩
  rw [bundled, hmetadata, hrows]
  rfl

theorem serving_foldCounts (c : Corpus sub) (chunks : List (Chunk sub)) :
    (c.foldCounts chunks).serving = c.serving := by
  unfold foldCounts
  split
  next => rfl
  next =>
    rw [serving, serving, List.map_map]
    rfl

/-- Counting chunks leaves all but the slots alone. -/
theorem foldCounts_frame (c : Corpus sub) (chunks : List (Chunk sub)) :
    (c.foldCounts chunks).invertedIndex = c.invertedIndex ∧
      (c.foldCounts chunks).storage = c.storage ∧
      (c.foldCounts chunks).encodeSpeed = c.encodeSpeed := by
  unfold foldCounts
  split <;> exact ⟨rfl, rfl, rfl⟩

/-- What storing chunks leaves alone. -/
theorem stored_frame (c : Corpus sub) (sourceId : String) (chunks : List (Chunk sub)) :
    (c.stored sourceId chunks).invertedIndex = c.invertedIndex ∧
      (c.stored sourceId chunks).storage.vectors = c.storage.vectors ∧
      (c.stored sourceId chunks).storage.basis = c.storage.basis ∧
      (c.stored sourceId chunks).storage.counts = c.storage.counts ∧
      (c.stored sourceId chunks).serving = c.serving ∧
      (c.stored sourceId chunks).encodeSpeed = c.encodeSpeed := by
  unfold stored
  split
  next => exact ⟨rfl, rfl, rfl, rfl, rfl, rfl⟩
  next =>
    obtain ⟨rows, metadata, hbundled⟩ := bundled_eq chunks (c.clearRemoved sourceId)
    rw [hbundled]
    have hfold := fun d : Corpus sub => foldCounts_frame d ((c.clearRemoved sourceId).newChunks chunks)
    obtain ⟨hindex, hstorage, hspeed⟩ := hfold _
    rw [hindex, hstorage, hspeed, serving_foldCounts]
    exact ⟨rfl, rfl, rfl, rfl, rfl, rfl⟩

@[simp] theorem invertedIndex_stored :
    (c.stored sourceId chunks).invertedIndex = c.invertedIndex :=
  (stored_frame c sourceId chunks).1

@[simp] theorem vectors_stored : (c.stored sourceId chunks).storage.vectors = c.storage.vectors :=
  (stored_frame c sourceId chunks).2.1

@[simp] theorem basis_stored : (c.stored sourceId chunks).storage.basis = c.storage.basis :=
  (stored_frame c sourceId chunks).2.2.1

@[simp] theorem counts_stored : (c.stored sourceId chunks).storage.counts = c.storage.counts :=
  (stored_frame c sourceId chunks).2.2.2.1

@[simp] theorem serving_stored : (c.stored sourceId chunks).serving = c.serving :=
  (stored_frame c sourceId chunks).2.2.2.2.1

/-- What storing items leaves alone. -/
theorem storedAll_frame (c : Corpus sub) (items : List IngestItem) :
    (c.storedAll items).invertedIndex = c.invertedIndex ∧
      (c.storedAll items).storage.vectors = c.storage.vectors ∧
      (c.storedAll items).storage.basis = c.storage.basis ∧
      (c.storedAll items).serving = c.serving := by
  induction items generalizing c with
  | nil => exact ⟨rfl, rfl, rfl, rfl⟩
  | cons item items ih =>
    obtain ⟨hindex, hvectors, hbasis, hserving⟩ := ih (c.stored item.sourceId (item.chunks sub))
    exact ⟨hindex.trans invertedIndex_stored, hvectors.trans vectors_stored,
      hbasis.trans basis_stored, hserving.trans serving_stored⟩

end Stored

end Corpus

end MootMemory
