import MootMemory.CorpusCalls

namespace MootMemory

variable {sub : CorpusSubstrate}

namespace Corpus

variable {c : Corpus sub}

section Ingest

theorem firstTrained_frame (chunks : List (Chunk sub)) (nowSecs : Int) (slots : List Nat)
    (c : Corpus sub) :
    (firstTrained chunks nowSecs slots c).2.estate = c.estate ∧
      (firstTrained chunks nowSecs slots c).2.invertedIndex = c.invertedIndex ∧
      (firstTrained chunks nowSecs slots c).2.origins = c.origins ∧
      (firstTrained chunks nowSecs slots c).2.countStates = c.countStates := by
  induction slots generalizing c with
  | nil => exact ⟨rfl, rfl, rfl, rfl⟩
  | cons i slots ih =>
    unfold firstTrained
    split
    next =>
      obtain ⟨hestate, hindex, horigins, hcounts⟩ :=
        ih ((c.retrained i chunks nowSecs).reembedded i chunks nowSecs)
      refine ⟨hestate.trans ?_, hindex.trans ?_, horigins.trans ?_, hcounts.trans ?_⟩
      · rw [estate_reembedded, estate_retrained]
      · rw [invertedIndex_reembedded, invertedIndex_retrained]
      · rw [origins, slots_reembedded]
        exact origins_retrained
      · rw [countStates, slots_reembedded]
        exact countStates_retrained
    next => exact ih c

theorem serving_filed (c : Corpus sub) (item : IngestItem) : (c.filed item).serving = c.serving := by
  rw [filed, serving, slots_foldl_indexed]
  exact serving_stored

theorem ingested_frame (c : Corpus sub) (item : IngestItem) :
    (c.ingested item).estate = (c.stored item.sourceId (item.chunks sub)).estate ∧
      (c.ingested item).invertedIndex = c.invertedIndex.indexAll (item.chunks sub) ∧
      (c.ingested item).origins = c.origins ∧
      (c.ingested item).countStates = (c.stored item.sourceId (item.chunks sub)).countStates := by
  unfold ingested
  split
  next hchunks =>
    rw [hchunks]
    exact ⟨rfl, rfl, rfl, rfl⟩
  next =>
    obtain ⟨hestate, hindex, horigins, hcounts⟩ := firstTrained_frame (c.filed item).activeChunks
      item.nowSecs (List.range c.slots.length) (c.filed item)
    refine ⟨?_, ?_, ?_, ?_⟩
    · rw [estate_persisted, foldedIn, estate_upserted, hestate, filed, estate_foldl_indexed]
    · rw [invertedIndex_persisted, foldedIn, invertedIndex_upserted, hindex, filed,
        invertedIndex_foldl_indexed, invertedIndex_stored]
    · rw [origins, slots_persisted, foldedIn, slots_upserted]
      exact horigins.trans (origins_of_serving (serving_filed c item))
    · rw [countStates, slots_persisted, foldedIn, slots_upserted]
      refine hcounts.trans ?_
      rw [filed, countStates, slots_foldl_indexed]
      rfl

/-- A property that training a slot keeps is kept by training the slots without a basis. -/
theorem bootstrapped_induction {P : Corpus sub → Prop} {nowSecs : Int} (h : P c)
    (hstep : ∀ d i, P d → P (d.retrained i c.activeChunks nowSecs)) :
    P (c.bootstrapped nowSecs) := by
  unfold bootstrapped
  dsimp only
  split
  next =>
    induction List.range c.slots.length using List.reverseRecOn with
    | nil => exact h
    | append_singleton slots i ih =>
      rw [List.foldl_append, List.foldl_cons, List.foldl_nil]
      split
      next => exact hstep _ i ih
      next => exact ih
  next => exact h

theorem bootstrapped_frame (c : Corpus sub) (nowSecs : Int) :
    (c.bootstrapped nowSecs).estate = c.estate ∧
      (c.bootstrapped nowSecs).invertedIndex = c.invertedIndex ∧
      (c.bootstrapped nowSecs).storage.vectors = c.storage.vectors ∧
      (c.bootstrapped nowSecs).origins = c.origins ∧
      (c.bootstrapped nowSecs).countStates = c.countStates := by
  refine bootstrapped_induction (P := fun d => d.estate = c.estate ∧
    d.invertedIndex = c.invertedIndex ∧ d.storage.vectors = c.storage.vectors ∧
    d.origins = c.origins ∧ d.countStates = c.countStates) ⟨rfl, rfl, rfl, rfl, rfl⟩ ?_
  rintro d i ⟨hestate, hindex, hvectors, horigins, hcounts⟩
  refine ⟨?_, ?_, ?_, ?_, ?_⟩
  · rw [estate_retrained, hestate]
  · rw [invertedIndex_retrained, hindex]
  · rw [vectors_retrained, hvectors]
  · rw [origins_retrained, horigins]
  · rw [countStates_retrained, hcounts]

theorem filedAll_frame (c : Corpus sub) (items : List IngestItem) :
    (c.filedAll items).estate = (c.storedAll items).estate ∧
      (c.filedAll items).invertedIndex =
        c.invertedIndex.indexAll (items.flatMap (·.chunks sub)) ∧
      (c.filedAll items).storage.vectors = c.storage.vectors ∧
      (c.filedAll items).serving = c.serving ∧
      (c.filedAll items).countStates = (c.storedAll items).countStates := by
  obtain ⟨hindex, hvectors, -, hserving⟩ := storedAll_frame c items
  refine ⟨?_, ?_, ?_, ?_, ?_⟩
  · rw [filedAll, estate_foldl_indexed]
  · rw [filedAll, invertedIndex_foldl_indexed, hindex]
  · rw [filedAll, storage_foldl_indexed, hvectors]
  · rw [filedAll, serving, slots_foldl_indexed]
    exact hserving
  · rw [filedAll, countStates, slots_foldl_indexed]
    rfl

theorem batchIngested_frame (c : Corpus sub) (items : List IngestItem) :
    (c.batchIngested items).estate = (c.storedAll items).estate ∧
      (c.batchIngested items).invertedIndex =
        c.invertedIndex.indexAll (items.flatMap (·.chunks sub)) ∧
      (c.batchIngested items).origins = c.origins ∧
      (c.batchIngested items).countStates = (c.storedAll items).countStates := by
  cases items with
  | nil => exact ⟨rfl, rfl, rfl, rfl⟩
  | cons first rest =>
    obtain ⟨hestate, hindex, -, horigins, hcounts⟩ :=
      bootstrapped_frame (c.filedAll (first :: rest)) first.nowSecs
    obtain ⟨hestate', hindex', -, hserving, hcounts'⟩ := filedAll_frame c (first :: rest)
    unfold batchIngested
    dsimp only
    refine ⟨?_, ?_, ?_, ?_⟩
    · rw [estate_persisted, estate_upserted, hestate, hestate']
    · rw [invertedIndex_persisted, invertedIndex_upserted, hindex, hindex']
    · rw [origins, slots_persisted, slots_upserted]
      exact horigins.trans (origins_of_serving hserving)
    · rw [countStates, slots_persisted, slots_upserted]
      exact hcounts.trans hcounts'

end Ingest

section Reindex

theorem reindexed_frame (c : Corpus sub) (nowSecs : Int) :
    (c.reindexed nowSecs).estate = c.estate ∧
      (c.reindexed nowSecs).invertedIndex = c.invertedIndex ∧
      (c.reindexed nowSecs).origins = c.origins ∧
      (c.reindexed nowSecs).countStates = c.countStates := by
  have htrained : ∀ (l : List Nat) (d : Corpus sub),
      (l.foldl (fun c' i => c'.retrained i c.activeChunks nowSecs) d).estate = d.estate ∧
        (l.foldl (fun c' i => c'.retrained i c.activeChunks nowSecs) d).invertedIndex =
          d.invertedIndex ∧
        (l.foldl (fun c' i => c'.retrained i c.activeChunks nowSecs) d).origins = d.origins ∧
        (l.foldl (fun c' i => c'.retrained i c.activeChunks nowSecs) d).countStates =
          d.countStates := by
    intro l
    induction l with
    | nil => exact fun d => ⟨rfl, rfl, rfl, rfl⟩
    | cons i l ih =>
      intro d
      obtain ⟨hestate, hindex, horigins, hcounts⟩ := ih (d.retrained i c.activeChunks nowSecs)
      exact ⟨hestate.trans estate_retrained, hindex.trans invertedIndex_retrained,
        horigins.trans origins_retrained, hcounts.trans countStates_retrained⟩
  have hembedded : ∀ (l : List Nat) (d : Corpus sub),
      (l.foldl (fun c' i => c'.reembedded i c.activeChunks nowSecs) d).estate = d.estate ∧
        (l.foldl (fun c' i => c'.reembedded i c.activeChunks nowSecs) d).invertedIndex =
          d.invertedIndex ∧
        (l.foldl (fun c' i => c'.reembedded i c.activeChunks nowSecs) d).slots = d.slots := by
    intro l
    induction l with
    | nil => exact fun d => ⟨rfl, rfl, rfl⟩
    | cons i l ih =>
      intro d
      obtain ⟨hestate, hindex, hslots⟩ := ih (d.reembedded i c.activeChunks nowSecs)
      exact ⟨hestate.trans estate_reembedded, hindex.trans invertedIndex_reembedded,
        hslots.trans slots_reembedded⟩
  unfold reindexed
  dsimp only
  obtain ⟨hestate, hindex, horigins, hcounts⟩ := htrained (List.range c.slots.length) c
  obtain ⟨hestate', hindex', hslots⟩ := hembedded (List.range c.slots.length)
    ((List.range c.slots.length).foldl (fun c' i => c'.retrained i c.activeChunks nowSecs) c)
  refine ⟨?_, ?_, ?_, ?_⟩
  · rw [estate_persisted, hestate', hestate]
  · rw [invertedIndex_persisted, hindex', hindex]
  · rw [origins, slots_persisted, hslots]
    exact horigins
  · rw [countStates, slots_persisted, hslots]
    exact hcounts

end Reindex

section Serving

/-- A property of what is served and of the stored bases that training a slot keeps. -/
structure ServingInvariant (P : Corpus sub → Prop) : Prop where
  congr : ∀ {c d}, P c → d.serving = c.serving → d.storage.basis = c.storage.basis → P d
  retrained : ∀ {c}, P c → ∀ i chunks nowSecs, P (c.retrained i chunks nowSecs)

namespace ServingInvariant

variable {P : Corpus sub → Prop}

theorem reembedded (hP : ServingInvariant P) (h : P c) (i : Nat) (chunks : List (Chunk sub))
    (nowSecs : Int) : P (c.reembedded i chunks nowSecs) := by
  refine hP.congr h ?_ basis_reembedded
  rw [serving, slots_reembedded]
  rfl

theorem persisted (hP : ServingInvariant P) (h : P c) (nowSecs : Int) :
    P (c.persisted nowSecs) := by
  refine hP.congr h ?_ basis_persisted
  rw [serving, slots_persisted]
  rfl

theorem firstTrained (hP : ServingInvariant P) (h : P c) (chunks : List (Chunk sub))
    (nowSecs : Int) (slots : List Nat) : P (firstTrained chunks nowSecs slots c).2 := by
  induction slots generalizing c with
  | nil => exact h
  | cons i slots ih =>
    unfold Corpus.firstTrained
    split
    next => exact ih (hP.reembedded (hP.retrained h i chunks nowSecs) i chunks nowSecs)
    next => exact ih h

theorem ingested (hP : ServingInvariant P) (h : P c) (item : IngestItem) :
    P (c.ingested item) := by
  unfold Corpus.ingested
  split
  next => exact h
  next =>
    have hfiled : P (c.filed item) := by
      refine hP.congr h (serving_filed c item) ?_
      rw [filed, storage_foldl_indexed, basis_stored]
    have htrained := hP.firstTrained hfiled (c.filed item).activeChunks item.nowSecs
      (List.range c.slots.length)
    refine hP.persisted (hP.congr htrained ?_ ?_) item.nowSecs
    · rw [foldedIn, serving, slots_upserted, serving]
    · rw [foldedIn, basis_upserted]

theorem filedAll (hP : ServingInvariant P) (h : P c) (items : List IngestItem) :
    P (c.filedAll items) := by
  refine hP.congr h (filedAll_frame c items).2.2.2.1 ?_
  rw [Corpus.filedAll, storage_foldl_indexed, (storedAll_frame c items).2.2.1]

theorem batchIngested (hP : ServingInvariant P) (h : P c) (items : List IngestItem) :
    P (c.batchIngested items) := by
  cases items with
  | nil => exact h
  | cons first rest =>
    have htrained : P ((c.filedAll (first :: rest)).bootstrapped first.nowSecs) :=
      bootstrapped_induction (hP.filedAll h _) fun d i hd => hP.retrained hd i _ _
    unfold Corpus.batchIngested
    refine hP.persisted (hP.congr htrained ?_ ?_) first.nowSecs
    · rw [serving, slots_upserted, serving]
    · rw [basis_upserted]

theorem reindexed (hP : ServingInvariant P) (h : P c) (nowSecs : Int) :
    P (c.reindexed nowSecs) := by
  have htrained : ∀ (l : List Nat) (d : Corpus sub), P d →
      P (l.foldl (fun c' i => c'.retrained i c.activeChunks nowSecs) d) := by
    intro l
    induction l with
    | nil => exact fun _ hd => hd
    | cons i l ih => exact fun d hd => ih _ (hP.retrained hd i _ _)
  have hembedded : ∀ (l : List Nat) (d : Corpus sub), P d →
      P (l.foldl (fun c' i => c'.reembedded i c.activeChunks nowSecs) d) := by
    intro l
    induction l with
    | nil => exact fun _ hd => hd
    | cons i l ih => exact fun d hd => ih _ (hP.reembedded hd i _ _)
  exact hP.persisted (hembedded _ _ (htrained _ _ h)) nowSecs

end ServingInvariant

end Serving

section Removal

/-- The postings after chunks are taken out one after another. -/
def removedIndex (store : InvertedIndexStore) (chunks : List (Chunk sub)) : InvertedIndexStore :=
  chunks.foldl (fun store chunk => store.removed (sub.idText chunk.id)) store

/-- Chunks are taken out of postings and vectors. -/
theorem foldl_withoutChunk (modelIds : List String) (chunks : List (Chunk sub)) (c : Corpus sub) :
    ∃ vectors, chunks.foldl (fun c chunk => c.withoutChunk modelIds chunk) c =
      { c with storage.vectors := vectors, invertedIndex := removedIndex c.invertedIndex chunks } := by
  have hmodels : ∀ (modelIds : List String) (itemId : String) (c : Corpus sub),
      ∃ vectors, modelIds.foldl (fun c modelId => c.deleteVectors itemId modelId) c =
        c.withVectors vectors := by
    intro modelIds itemId
    induction modelIds with
    | nil => exact fun c => ⟨c.storage.vectors, rfl⟩
    | cons modelId modelIds ih =>
      intro c
      obtain ⟨vectors, h⟩ := ih (c.deleteVectors itemId modelId)
      exact ⟨vectors, h⟩
  induction chunks generalizing c with
  | nil => exact ⟨c.storage.vectors, rfl⟩
  | cons chunk chunks ih =>
    obtain ⟨vectors, hone⟩ := hmodels modelIds (sub.idText chunk.id) (c.unindexed chunk)
    obtain ⟨vectors', hrest⟩ := ih (c.withoutChunk modelIds chunk)
    refine ⟨vectors', ?_⟩
    rw [List.foldl_cons, hrest, withoutChunk, hone]
    rfl

/-- What a removal comes to, apart from the vectors. -/
theorem removed_eq (c : Corpus sub) (sourceId : String) :
    ∃ vectors, c.removed sourceId =
      { c with
        storage.vectors := vectors
        storage.removedSources := insert sourceId c.storage.removedSources
        invertedIndex := removedIndex c.invertedIndex (c.chunksForSource sourceId)
        chunkSourceMap := (c.unmapChunks (c.chunksForSource sourceId)).chunkSourceMap } := by
  obtain ⟨vectors, h⟩ := foldl_withoutChunk (c.slots.map (·.modelId)) (c.chunksForSource sourceId) c
  refine ⟨vectors, ?_⟩
  unfold removed
  dsimp only
  rw [h]
  rfl

end Removal

end Corpus

end MootMemory
