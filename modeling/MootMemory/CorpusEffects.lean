import MootMemory.CorpusSteady
import MootMemory.VectorRows

namespace MootMemory

variable {sub : CorpusSubstrate}

namespace Corpus

variable (c : Corpus sub)

section Bundle

def addChunk (chunk : Chunk sub) : Corpus sub :=
  match c.storage.chunks.insert? ⟨chunk, sub.leaf chunk.id chunk.text⟩ with
  | some chunks => c.withChunks chunks
  | none => c

def isNew (chunk : Chunk sub) : Bool :=
  (c.storage.chunks.insert? ⟨chunk, sub.leaf chunk.id chunk.text⟩).isSome

def addChunks (chunks : List (Chunk sub)) : Corpus sub := chunks.foldl addChunk c

/-- The chunks that go in, of chunks put in one after another. -/
def newChunks (c : Corpus sub) : List (Chunk sub) → List (Chunk sub)
  | [] => []
  | chunk :: chunks =>
    if c.isNew chunk then chunk :: (c.addChunk chunk).newChunks chunks
    else (c.addChunk chunk).newChunks chunks

def bundled (chunks : List (Chunk sub)) : Corpus sub :=
  (chunks.map (·.sourceId)).dedup.foldl rollup (c.addChunks chunks)

/-- What an item's chunks do to the estate, apart from postings and vectors. -/
def stored (sourceId : String) (chunks : List (Chunk sub)) : Corpus sub :=
  if chunks = [] then c
  else
    (((c.clearRemoved sourceId).bundled chunks).mapChunks chunks sourceId).foldCounts
      ((c.clearRemoved sourceId).newChunks chunks)

end Bundle

section Index

def indexed (chunk : Chunk sub) : Corpus sub :=
  { c with invertedIndex :=
      c.invertedIndex.indexed (sub.idText chunk.id) (defaultKeywordTokens sub chunk.text) }

def unindexed (chunk : Chunk sub) : Corpus sub :=
  { c with invertedIndex := c.invertedIndex.removed (sub.idText chunk.id) }

end Index

section Slots

def upserted (rows : List VectorPayloadInput) : Corpus sub :=
  c.withVectors (c.storage.vectors.upsertAll rows)

def persistedSlot (nowSecs : Int) (slot : ProviderSlot sub) : Corpus sub :=
  match slot.counts with
  | some state => c.putCounts (slot.countsRow nowSecs state)
  | none => c

def persisted (nowSecs : Int) : Corpus sub := c.slots.foldl (fun c => c.persistedSlot nowSecs) c

/-- The rows of chunks under what a slot serves at present. -/
def slotRows (slot : ProviderSlot sub) (filedAtSecs : Int) (chunks : List (Chunk sub)) :
    List VectorPayloadInput :=
  chunks.flatMap (chunkRows slot.kind slot.handle filedAtSecs)

def retrained (slotIndex : Nat) (chunks : List (Chunk sub)) (nowSecs : Int) : Corpus sub :=
  match c.slots[slotIndex]? with
  | none => c
  | some slot =>
    match slot.freshBasisBlob with
    | none => c
    | some blob =>
      (c.install slotIndex (slot.trained blob chunks)).putBasis
        { key := slot.key
          basis := sub.serializeBasis slot.kind (slot.trained blob chunks)
          trainedAtSecs := nowSecs
          trainedChunkCount := chunks.length }

def reembedded (slotIndex : Nat) (chunks : List (Chunk sub)) (filedAtSecs : Int) : Corpus sub :=
  match c.slots[slotIndex]? with
  | none => c
  | some slot =>
    c.withVectors ((c.storage.vectors.replaceModel slot.modelId
      (slotRows slot filedAtSecs chunks)).getD c.storage.vectors)

def reindexed (nowSecs : Int) : Corpus sub :=
  let slots := List.range c.slots.length
  let trained := slots.foldl (fun c' i => c'.retrained i c.activeChunks nowSecs) c
  (slots.foldl (fun c' i => c'.reembedded i c.activeChunks nowSecs) trained).persisted nowSecs

end Slots

section Ingest

/-- The slots without a basis are trained on the chunks and re-embedded; the others are left. -/
def firstTrained (chunks : List (Chunk sub)) (nowSecs : Int) :
    List Nat → Corpus sub → List Nat × Corpus sub
  | [], c => ([], c)
  | i :: slots, c =>
    if needsTraining c i then
      firstTrained chunks nowSecs slots ((c.retrained i chunks nowSecs).reembedded i chunks nowSecs)
    else
      let rest := firstTrained chunks nowSecs slots c
      (i :: rest.1, rest.2)

def rowsOfSlot (chunks : List (Chunk sub)) (filedAtSecs : Int) (slotIndex : Nat) :
    List VectorPayloadInput :=
  match c.slots[slotIndex]? with
  | none => []
  | some slot => slotRows slot filedAtSecs chunks

def foldedIn (chunks : List (Chunk sub)) (filedAtSecs : Int) (slots : List Nat) : Corpus sub :=
  c.upserted (slots.flatMap (c.rowsOfSlot chunks filedAtSecs))

/-- What an item does to the estate and the postings. -/
def filed (item : IngestItem) : Corpus sub :=
  (item.chunks sub).foldl indexed (c.stored item.sourceId (item.chunks sub))

def ingested (item : IngestItem) : Corpus sub :=
  if item.chunks sub = [] then c
  else
    let filed := c.filed item
    let trained := firstTrained filed.activeChunks item.nowSecs (List.range c.slots.length) filed
    (trained.2.foldedIn (item.chunks sub) item.nowSecs trained.1).persisted item.nowSecs

def storedAll (items : List IngestItem) : Corpus sub :=
  items.foldl (fun c item => c.stored item.sourceId (item.chunks sub)) c

/-- What a batch does to the estate and the postings. -/
def filedAll (items : List IngestItem) : Corpus sub :=
  (items.flatMap (·.chunks sub)).foldl indexed (c.storedAll items)

def bootstrapped (nowSecs : Int) : Corpus sub :=
  let slots := List.range c.slots.length
  if slots.any (needsTraining c) ∧ c.activeChunks ≠ [] then
    slots.foldl (fun c' i =>
      if needsTraining c' i then c'.retrained i c.activeChunks nowSecs else c') c
  else c

def itemRows (slots : List (ProviderSlot sub)) (item : IngestItem) : List VectorPayloadInput :=
  slots.flatMap fun slot => slotRows slot item.nowSecs (item.chunks sub)

def batchIngested (items : List IngestItem) : Corpus sub :=
  match items with
  | [] => c
  | first :: _ =>
    let trained := (c.filedAll items).bootstrapped first.nowSecs
    (trained.upserted (items.flatMap (itemRows trained.slots))).persisted first.nowSecs

end Ingest

section Removal

def withoutChunk (modelIds : List String) (chunk : Chunk sub) : Corpus sub :=
  modelIds.foldl (fun c modelId => c.deleteVectors (sub.idText chunk.id) modelId)
    (c.unindexed chunk)

def removed (sourceId : String) : Corpus sub :=
  let chunks := c.chunksForSource sourceId
  ((chunks.foldl (fun c' => c'.withoutChunk (c.slots.map (·.modelId))) c).unmapChunks
    chunks).markRemoved sourceId

def expunged (sourceId : String) : Corpus sub := (c.scrubText sourceId).removed sourceId

end Removal

end Corpus

section Does

variable {c : Corpus sub}

theorem insertChunk_faultless (chunk : Chunk sub) (c : Corpus sub) :
    insertChunk chunk ⟨c, []⟩ = .ok (c.isNew chunk) ⟨c.addChunk chunk, []⟩ := by
  unfold insertChunk Corpus.isNew Corpus.addChunk
  rw [bind_of_ok (attempt_faultless c), getCorpus_bind]
  dsimp only
  cases c.storage.chunks.insert? ⟨chunk, sub.leaf chunk.id chunk.text⟩ with
  | none => rfl
  | some chunks => rfl

theorem insertChunks_faultless (chunks : List (Chunk sub)) (c : Corpus sub) :
    insertChunks chunks ⟨c, []⟩ = .ok (c.newChunks chunks) ⟨c.addChunks chunks, []⟩ := by
  induction chunks generalizing c with
  | nil => rfl
  | cons chunk chunks ih =>
    unfold insertChunks Corpus.newChunks
    rw [bind_of_ok (insertChunk_faultless chunk c), bind_of_ok (ih (c.addChunk chunk))]
    rfl

theorem bundleInsert_faultless (chunks : List (Chunk sub)) (c : Corpus sub) :
    bundleInsert chunks ⟨c, []⟩ = .ok (c.newChunks chunks) ⟨c.bundled chunks, []⟩ := by
  unfold bundleInsert
  split
  next h =>
    subst h
    rfl
  next =>
    have hroll : Does ((chunks.map (·.sourceId)).dedup.forM (@rollupCorpusMerkleRoot sub))
        fun c => (chunks.map (·.sourceId)).dedup.foldl Corpus.rollup c :=
      .forM fun _ _ => Does.attempt.bind (.writeCorpus _)
    rw [bind_of_ok (insertChunks_faultless chunks c), bind_of_ok (hroll (c.addChunks chunks))]
    rfl

theorem does_storeItem (sourceId : String) (chunks : List (Chunk sub)) :
    Does (storeItem sourceId chunks) fun c => c.stored sourceId chunks := by
  intro c
  unfold storeItem Corpus.stored
  split
  next => rfl
  next =>
    rw [bind_of_ok (Does.writeCorpus _ c), bind_of_ok (bundleInsert_faultless _ _)]
    rfl

theorem foldl_replaceTerm (rows : List TermFreq) (c : Corpus sub) :
    rows.foldl Corpus.putTermFreq c =
      c.withTables fun t => { t with termFreqs := t.termFreqs.replaceAll rows } := by
  induction rows generalizing c with
  | nil => rfl
  | cons row rows ih =>
    rw [List.foldl_cons, ih]
    rfl

theorem does_deleteFromDb (itemId : String) : Does (@deleteFromDb sub itemId)
    fun c => c.withTables fun t => t.deleteItem itemId :=
  (Does.writeCorpus _).bind (.writeCorpus _)

theorem does_indexChunk (chunk : Chunk sub) : Does (indexChunk chunk) fun c => c.indexed chunk := by
  intro c
  unfold indexChunk indexItem Corpus.indexed InvertedIndexStore.indexed PostingTables.indexItem
  rw [bind_of_ok (does_deleteFromDb _ c)]
  split
  next => rfl
  next =>
    rw [bind_of_ok (Does.forM_write Corpus.putTermFreq _ _)]
    dsimp only
    rw [foldl_replaceTerm]
    rfl

theorem embedChunks_faultless (kind : sub.Kind) (state : sub.State) (filedAtSecs : Int)
    (chunks : List (Chunk sub)) (c : Corpus sub) :
    embedChunks kind state filedAtSecs chunks ⟨c, []⟩ =
      .ok (chunks.flatMap (chunkRows kind state filedAtSecs)) ⟨c, []⟩ := by
  have hrows : chunks.mapM (embedChunk kind state filedAtSecs) ⟨c, []⟩ =
      .ok (chunks.map (chunkRows kind state filedAtSecs)) ⟨c, []⟩ := mapM_faultless fun _ _ => rfl
  unfold embedChunks
  rw [bind_of_ok hrows]
  rfl

theorem does_addPayloads (batch : List VectorPayloadInput) :
    Does (@addPayloads sub batch) fun c => c.upserted batch := by
  intro c
  have hfold : ∀ (batch : List VectorPayloadInput) (c : Corpus sub),
      batch.foldl Corpus.putVector c = c.upserted batch := by
    intro batch
    induction batch with
    | nil => exact fun _ => rfl
    | cons input batch ih =>
      intro c
      rw [List.foldl_cons, ih]
      rfl
  unfold addPayloads
  split
  next h =>
    subst h
    rfl
  next =>
    rw [bind_of_ok (Does.forM_write Corpus.putVector batch c)]
    dsimp only
    rw [hfold]
    rfl

theorem does_persistMaintainedCounts (nowSecs : Int) :
    Does (@persistMaintainedCounts sub nowSecs) fun c => c.persisted nowSecs := by
  intro c
  refine Does.forM (g := fun c slot => c.persistedSlot nowSecs slot) (fun slot _ c => ?_) c
  unfold persistSlotCounts Corpus.persistedSlot
  cases slot.counts with
  | none => rfl
  | some state => rfl

theorem does_trainAndPersistBasis (slotIndex : Nat) (chunks : List (Chunk sub)) (nowSecs : Int) :
    Does (trainAndPersistBasis slotIndex chunks nowSecs)
      fun c => c.retrained slotIndex chunks nowSecs := by
  intro c
  unfold trainAndPersistBasis Corpus.retrained
  rw [getCorpus_bind]
  dsimp only
  cases c.slots[slotIndex]? with
  | none => rfl
  | some slot =>
    have htrainable := slot.trainable
    cases hblob : slot.freshBasisBlob with
    | none => simp only [hblob]; rfl
    | some blob =>
      cases hcounts : slot.counts with
      | none => simp [hblob, hcounts] at htrainable
      | some state => simp only [hblob, hcounts]; rfl

theorem nodup_activeChunks (c : Corpus sub) : (c.activeChunks.map (·.id)).Nodup := by
  have hrows : ((c.storage.chunks.rows.map (·.chunk)).map (·.id)).Nodup := by
    rw [List.map_map]
    exact c.storage.chunks.nodup
  have hall : (c.allChunks.map (·.id)).Nodup :=
    ((List.perm_insertionSort _ _).map _).nodup_iff.mpr hrows
  exact hall.sublist (List.filter_sublist.map _)

/-- The rows of different chunks have different places. -/
theorem nodup_slotRows (slot : ProviderSlot sub) (filedAtSecs : Int) {chunks : List (Chunk sub)}
    (h : (chunks.map (·.id)).Nodup) :
    ((Corpus.slotRows slot filedAtSecs chunks).map (·.key.triple)).Nodup := by
  have hitem : ∀ chunk : Chunk sub, ∀ row ∈ chunkRows slot.kind slot.handle filedAtSecs chunk,
      row.key.triple.1 = sub.idText chunk.id := by
    intro chunk row hrow
    unfold chunkRows at hrow
    dsimp only at hrow
    split at hrow
    next => rw [List.mem_singleton.mp hrow]; rfl
    next =>
      rcases List.mem_pair.mp hrow with rfl | rfl
      · rfl
      · rfl
  have hone : ∀ chunk : Chunk sub,
      ((chunkRows slot.kind slot.handle filedAtSecs chunk).map (·.key.triple)).Nodup := by
    intro chunk
    unfold chunkRows
    dsimp only
    split
    next => exact List.nodup_singleton _
    next => simp [VectorPayloadInput.key, VectorRecordKey.triple]
  rw [Corpus.slotRows, List.map_flatMap, List.nodup_flatMap]
  refine ⟨fun chunk _ => hone chunk, ?_⟩
  rw [List.Nodup, List.pairwise_map] at h
  refine h.imp fun {a b} hne => ?_
  rw [Function.onFun, List.disjoint_left]
  intro triple ha hb
  obtain ⟨row, hrow, rfl⟩ := List.mem_map.mp ha
  obtain ⟨row', hrow', heq⟩ := List.mem_map.mp hb
  have hids : sub.idText a.id = sub.idText b.id := by
    rw [← hitem a row hrow, ← hitem b row' hrow', heq]
  exact hne (sub.idText_injective hids)

theorem modelId_of_mem_slotRows {slot : ProviderSlot sub} {filedAtSecs : Int}
    {chunks : List (Chunk sub)} {row : VectorPayloadInput}
    (h : row ∈ Corpus.slotRows slot filedAtSecs chunks) : row.modelId = slot.modelId := by
  obtain ⟨chunk, -, hrow⟩ := List.mem_flatMap.mp h
  unfold chunkRows at hrow
  dsimp only at hrow
  split at hrow
  next => rw [List.mem_singleton.mp hrow]; rfl
  next =>
    rcases List.mem_pair.mp hrow with rfl | rfl
    · rfl
    · rfl

theorem flatMap_getD {α β : Type} (f : List α → List β) (batches : List (List α)) :
    ((List.range batches.length).map fun i => f (batches.getD i [])) = batches.map f := by
  apply List.ext_getElem
  · simp
  · intro i h₁ h₂
    simp at h₁ h₂
    simp [h₂]

theorem embedBatches_faultless (slot : ProviderSlot sub) (filedAtSecs : Int)
    (batches : List (List (Chunk sub))) {workers : Nat}
    (claims : WorkClaims workers batches.length) (c : Corpus sub) :
    embedBatches slot filedAtSecs batches claims ⟨c, []⟩ =
      .ok (batches.map (Corpus.slotRows slot filedAtSecs)) ⟨c, []⟩ := by
  have hworker : ∀ claimed : List Nat, embedClaimed slot filedAtSecs batches claimed ⟨c, []⟩ =
      .ok (claimed.map fun i => (i, Corpus.slotRows slot filedAtSecs (batches.getD i [])))
        ⟨c, []⟩ := by
    intro claimed
    refine mapM_faultless fun i _ => ?_
    rw [bind_of_ok (embedChunks_faultless _ _ _ _ c)]
    rfl
  have houts : claims.byWorker.mapM (embedClaimed slot filedAtSecs batches) ⟨c, []⟩ =
      .ok (claims.byWorker.map fun claimed =>
        claimed.map fun i => (i, Corpus.slotRows slot filedAtSecs (batches.getD i []))) ⟨c, []⟩ :=
    mapM_faultless fun claimed _ => hworker claimed
  unfold embedBatches
  rw [bind_of_ok houts, reassemble_claims claims, flatMap_getD]
  rfl

theorem reembedChunks_faultless (threads : Threads) (slotIndex : Nat) {chunks : List (Chunk sub)}
    (filedAtSecs : Int) (h : (chunks.map (·.id)).Nodup) :
    Does (reembedChunks threads slotIndex chunks filedAtSecs)
      fun c => c.reembedded slotIndex chunks filedAtSecs := by
  intro c
  unfold reembedChunks Corpus.reembedded
  rw [getCorpus_bind]
  dsimp only
  cases c.slots[slotIndex]? with
  | none => rfl
  | some slot =>
    have hrows : ((windows reembedBatchSize chunks).map
        (Corpus.slotRows slot filedAtSecs)).flatten = Corpus.slotRows slot filedAtSecs chunks := by
      have hsize : 0 < reembedBatchSize := by decide
      rw [← List.flatMap_def]
      conv_rhs => rw [← flatten_windows hsize chunks]
      simp only [Corpus.slotRows, List.flatMap_def, List.map_flatten, List.flatten_flatten,
        List.map_map, Function.comp_def]
      rfl
    dsimp only
    rw [bind_of_ok (embedBatches_faultless _ _ _ _ c), hrows]
    obtain ⟨vectors, hreplace, -⟩ := @VectorTable.replaceModel_eq_some
      c.storage.vectors _ _ (nodup_slotRows slot filedAtSecs h)
      fun row hrow => modelId_of_mem_slotRows hrow
    unfold replaceModelVectors
    rw [bind_of_ok (attempt_faultless c), getCorpus_bind]
    dsimp only
    rw [hreplace]
    rfl

end Does

end MootMemory
