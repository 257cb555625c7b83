import MootMemory.CorpusFrames

namespace MootMemory

variable {sub : CorpusSubstrate}

section Reindex

variable {c : Corpus sub} {chunks : List (Chunk sub)} {nowSecs : Int}

theorem activeChunks_faultless (c : Corpus sub) :
    activeChunks ⟨c, []⟩ = .ok c.activeChunks ⟨c, []⟩ := rfl

theorem Does.runAll {ι : Type} {f : ι → CorpusM sub Unit} {g : Corpus sub → ι → Corpus sub}
    (h : ∀ i, Does (f i) fun c => g c i) (l : List ι) :
    Does (runAll (l.map f)) fun c => l.foldl g c := by
  induction l with
  | nil => exact fun _ => rfl
  | cons i is ih =>
    intro c
    rw [List.map_cons]
    unfold MootMemory.runAll
    rw [h i c]
    exact ih (g c i)

theorem does_reindex (threads : Threads) (nowMillis : Int) :
    Does (@reindex sub threads nowMillis)
      fun c => c.reindexed (nowMillis.tdiv 1000) := by
  intro c
  have htrain := Does.runAll (f := fun i =>
    trainAndPersistBasis i c.activeChunks (nowMillis.tdiv 1000))
    (g := fun c' i => c'.retrained i c.activeChunks (nowMillis.tdiv 1000))
    (fun i => does_trainAndPersistBasis i _ _) (List.range c.slots.length)
  have hembed := Does.forM (f := fun i =>
    reembedChunks threads i c.activeChunks (nowMillis.tdiv 1000))
    (g := fun c' i => c'.reembedded i c.activeChunks (nowMillis.tdiv 1000))
    (l := List.range c.slots.length)
    (fun i _ => reembedChunks_faultless threads i _ (nodup_activeChunks c))
  unfold reindex
  rw [bind_of_ok (activeChunks_faultless c), getCorpus_bind, bind_of_ok (htrain c),
    bind_of_ok (hembed _), does_persistMaintainedCounts]
  rfl

end Reindex

section Ingest

variable {c : Corpus sub} {chunks : List (Chunk sub)} {nowSecs : Int}

theorem needsTraining_of_none {i : Nat} (h : (c.slots[i]?).bind (·.freshBasisBlob) = none) :
    needsTraining c i = false := by
  unfold needsTraining
  cases hslot : c.slots[i]? with
  | none => rfl
  | some slot =>
    rw [hslot, Option.bind_some] at h
    simp [h]

theorem trainFirst_faultless (threads : Threads) (filedAtSecs : Int) {all : List (Chunk sub)}
    (hnodup : (all.map (·.id)).Nodup) (slots : List Nat) (cached : Option (List (Chunk sub)))
    (c : Corpus sub) (hcached : ∀ a ∈ cached, a = all) (hall : c.activeChunks = all) :
    trainFirst threads filedAtSecs cached slots ⟨c, []⟩ =
      .ok (Corpus.firstTrained all filedAtSecs slots c).1
        ⟨(Corpus.firstTrained all filedAtSecs slots c).2, []⟩ := by
  induction slots generalizing cached c with
  | nil => rfl
  | cons i slots ih =>
    unfold trainFirst Corpus.firstTrained
    rw [getCorpus_bind]
    cases hblob : (c.slots[i]?).bind (·.freshBasisBlob) with
    | none =>
      dsimp only
      rw [bind_of_ok (ih cached c hcached hall), needsTraining_of_none hblob]
      rfl
    | some blob =>
      dsimp only
      rw [bind_of_ok (readCorpus_faultless (fun c => needsTraining c i) c)]
      cases hneeds : needsTraining c i with
      | false =>
        rw [if_neg (by simp), if_neg (by simp), bind_of_ok (ih cached c hcached hall)]
        rfl
      | true =>
        rw [if_pos rfl, if_pos rfl]
        have hrest : (trainAndPersistBasis i all filedAtSecs >>= fun _ =>
            reembedChunks threads i all filedAtSecs >>= fun _ =>
              trainFirst threads filedAtSecs (some all) slots) ⟨c, []⟩ =
            .ok (Corpus.firstTrained all filedAtSecs slots
              ((c.retrained i all filedAtSecs).reembedded i all filedAtSecs)).1
              ⟨(Corpus.firstTrained all filedAtSecs slots
                ((c.retrained i all filedAtSecs).reembedded i all filedAtSecs)).2, []⟩ := by
          rw [bind_of_ok (does_trainAndPersistBasis i all filedAtSecs c),
            bind_of_ok (reembedChunks_faultless threads i filedAtSecs hnodup _)]
          refine ih (some all) _ (fun a ha => (Option.some.inj ha).symm) ?_
          rw [← hall]
          exact Corpus.activeChunks_congr (by simp)
        cases cached with
        | none =>
          subst hall
          dsimp only
          rw [bind_of_ok (activeChunks_faultless c)]
          exact hrest
        | some a =>
          have ha := hcached a rfl
          subst ha
          exact hrest

theorem embedSlot_faultless (chunks : List (Chunk sub)) (filedAtSecs : Int) (i : Nat)
    (c : Corpus sub) : embedSlot chunks filedAtSecs i ⟨c, []⟩ =
      .ok (c.rowsOfSlot chunks filedAtSecs i) ⟨c, []⟩ := by
  unfold embedSlot Corpus.rowsOfSlot
  rw [getCorpus_bind]
  dsimp only
  cases c.slots[i]? with
  | none => rfl
  | some slot => exact embedChunks_faultless _ _ _ _ c

theorem does_foldIn (threads : Threads) (chunks : List (Chunk sub)) (filedAtSecs : Int)
    (slots : List Nat) : Does (foldIn threads chunks filedAtSecs slots)
      fun c => c.foldedIn chunks filedAtSecs slots := by
  intro c
  unfold foldIn Corpus.foldedIn
  split
  next h =>
    subst h
    rfl
  next =>
    have hbatches : ∀ batches : List (List Nat),
        batches.mapM (fun batch => batch.mapM (embedSlot chunks filedAtSecs)) ⟨c, []⟩ =
          .ok (batches.map fun batch => batch.map (c.rowsOfSlot chunks filedAtSecs)) ⟨c, []⟩ :=
      fun batches => mapM_faultless fun batch _ =>
        mapM_faultless fun i _ => embedSlot_faultless chunks filedAtSecs i c
    have hrows : (((windows (threads.embedConcurrencyCap c.encodeSpeed) slots).map
        fun batch => batch.map (c.rowsOfSlot chunks filedAtSecs)).flatten).flatten =
          slots.flatMap (c.rowsOfSlot chunks filedAtSecs) := by
      conv_rhs => rw [← flatten_windows (threads.embedConcurrencyCap_pos c.encodeSpeed) slots]
      rw [List.flatMap_def, List.map_flatten]
    rw [getCorpus_bind, bind_of_ok (hbatches _), hrows]
    exact does_addPayloads _ c

theorem foldl_indexed_comm (chunks chunks' new : List (Chunk sub)) (sourceId : String)
    (c : Corpus sub) :
    ((chunks.foldl Corpus.indexed c).mapChunks chunks' sourceId).foldCounts new =
      chunks.foldl Corpus.indexed ((c.mapChunks chunks' sourceId).foldCounts new) := by
  induction chunks generalizing c with
  | nil => rfl
  | cons chunk chunks ih =>
    have hone : ((c.indexed chunk).mapChunks chunks' sourceId).foldCounts new =
        ((c.mapChunks chunks' sourceId).foldCounts new).indexed chunk := by
      unfold Corpus.foldCounts
      split <;> rfl
    rw [List.foldl_cons, ih, hone, List.foldl_cons]

/-- Where the clock is not before the epoch, or there is nothing to ingest, an ingest without
failures comes to its end. -/
theorem ingest_faultless (threads : Threads) {item : IngestItem}
    (h : item.chunks sub ≠ [] → 0 ≤ item.nowSecs) (c : Corpus sub) : ingest threads item ⟨c, []⟩ = .ok () ⟨c.ingested item, []⟩ := by
  unfold ingest Corpus.ingested
  dsimp only
  split
  next => rfl
  next hchunks =>
    have hclock : ∀ c : Corpus sub, @clockString sub item.nowSecs ⟨c, []⟩ =
        .ok () ⟨c, []⟩ := by
      intro c
      unfold clockString
      rw [if_neg (Int.not_lt.mpr (h hchunks))]
      rfl
    have hindex := Does.forM (f := indexChunk) (g := Corpus.indexed) (l := item.chunks sub)
      (fun chunk _ => does_indexChunk chunk)
    have hfiled : (((item.chunks sub).foldl Corpus.indexed ((c.clearRemoved item.sourceId).bundled
        (item.chunks sub))).mapChunks (item.chunks sub) item.sourceId).foldCounts
          ((c.clearRemoved item.sourceId).newChunks (item.chunks sub)) = c.filed item := by
      rw [foldl_indexed_comm, Corpus.filed, Corpus.stored, if_neg hchunks]
    have hlen : (c.filed item).slots.length = c.slots.length := by
      refine Corpus.length_slots_of_origins (Corpus.origins_of_serving ?_)
      rw [Corpus.filed, Corpus.serving, Corpus.slots_foldl_indexed]
      exact Corpus.serving_stored
    rw [bind_of_ok (Does.writeCorpus _ c), bind_of_ok (bundleInsert_faultless _ _),
      bind_of_ok (hclock _), bind_of_ok (hindex _), bind_of_ok (Does.modifyCorpus _ _)]
    dsimp only
    unfold foldChunksIntoCounts
    rw [bind_of_ok (Does.modifyCorpus _ _), hfiled, getCorpus_bind, hlen,
      bind_of_ok (trainFirst_faultless threads _ (nodup_activeChunks _) _ none _
        (fun a ha => absurd ha (by simp)) rfl),
      bind_of_ok (does_foldIn threads _ _ _ _)]
    exact does_persistMaintainedCounts _ _

/-- A clock before the epoch ends an ingest of anything in a panic. -/
theorem ingest_panics (threads : Threads) {item : IngestItem} (h : item.nowSecs < 0)
    (hchunks : item.chunks sub ≠ []) (c : Corpus sub) :
    ∃ c', ingest threads item ⟨c, []⟩ = .error .panic ⟨c', []⟩ := by
  refine ⟨(c.clearRemoved item.sourceId).bundled (item.chunks sub), ?_⟩
  unfold ingest
  rw [if_neg hchunks, bind_of_ok (Does.writeCorpus _ c), bind_of_ok (bundleInsert_faultless _ _)]
  unfold clockString
  rw [if_pos h]
  rfl

end Ingest

section Batch

variable {c : Corpus sub}

theorem does_storeItems (items : List IngestItem) :
    Does (@storeItems sub items) fun c => c.storedAll items := by
  intro c
  have hwindow : ∀ window : List IngestItem, Does (inTransaction (window.forM fun item =>
      storeItem item.sourceId (item.chunks sub))) fun c => c.storedAll window :=
    fun window => (Does.forM fun item _ => does_storeItem item.sourceId _).inTransaction
  have hall := Does.forM (l := windows commitChunkItems items)
    (g := fun c window => c.storedAll window) (fun window _ => hwindow window) c
  rw [storeItems, hall]
  unfold Corpus.storedAll
  dsimp only
  rw [foldl_windows (by decide)]

theorem does_indexChunks (chunks : List (Chunk sub)) :
    Does (indexChunks chunks) fun c => chunks.foldl Corpus.indexed c := by
  intro c
  have hwindow : ∀ window : List (Chunk sub), Does (inIndexBatch (window.forM indexChunk))
      fun c => window.foldl Corpus.indexed c :=
    fun window => (Does.forM fun chunk _ => does_indexChunk chunk).inIndexBatch
  have hall := Does.forM (l := windows commitChunkItems chunks)
    (g := fun c window => window.foldl Corpus.indexed c) (fun window _ => hwindow window) c
  rw [indexChunks, hall]
  dsimp only
  rw [foldl_windows (by decide)]

theorem needsBootstrap_faultless (slots : List Nat) (c : Corpus sub) :
    needsBootstrap slots ⟨c, []⟩ = .ok (slots.any (needsTraining c)) ⟨c, []⟩ := by
  induction slots with
  | nil => rfl
  | cons i slots ih =>
    unfold needsBootstrap
    rw [getCorpus_bind, List.any_cons]
    cases hblob : (c.slots[i]?).bind (·.freshBasisBlob) with
    | none =>
      rw [needsTraining_of_none hblob, Bool.false_or]
      exact ih
    | some blob =>
      dsimp only
      rw [bind_of_ok (readCorpus_faultless (fun c => needsTraining c i) c)]
      cases hneeds : needsTraining c i with
      | false => exact ih
      | true => rfl

theorem does_bootstrapSlot (chunks : List (Chunk sub)) (nowSecs : Int) (i : Nat) :
    Does (bootstrapSlot chunks nowSecs i)
      fun c => if needsTraining c i then c.retrained i chunks nowSecs else c := by
  intro c
  unfold bootstrapSlot
  rw [getCorpus_bind]
  cases hblob : (c.slots[i]?).bind (·.freshBasisBlob) with
  | none =>
    dsimp only
    rw [needsTraining_of_none hblob]
    rfl
  | some blob =>
    dsimp only
    rw [bind_of_ok (readCorpus_faultless (fun c => needsTraining c i) c)]
    cases hneeds : needsTraining c i with
    | false => rfl
    | true => exact does_trainAndPersistBasis i chunks nowSecs c

theorem does_bootstrap (nowSecs : Int) :
    Does (@bootstrap sub nowSecs) fun c => c.bootstrapped nowSecs := by
  intro c
  unfold bootstrap Corpus.bootstrapped
  rw [getCorpus_bind, bind_of_ok (needsBootstrap_faultless _ c)]
  dsimp only
  cases hneeds : (List.range c.slots.length).any (needsTraining c) with
  | false => rfl
  | true =>
    rw [if_pos rfl, bind_of_ok (activeChunks_faultless c)]
    by_cases hempty : c.activeChunks = []
    · rw [if_pos hempty, if_neg (fun h => h.2 hempty)]
      rfl
    · rw [if_neg hempty, if_pos ⟨rfl, hempty⟩]
      exact Does.forM (g := fun c' i =>
        if needsTraining c' i then c'.retrained i c.activeChunks nowSecs else c')
        (fun i _ => does_bootstrapSlot _ _ i) c

theorem embedItems_faultless (threads : Threads) (items : List IngestItem) (c : Corpus sub) :
    embedItems threads items ⟨c, []⟩ =
      .ok (items.flatMap (Corpus.itemRows c.slots)) ⟨c, []⟩ := by
  have hitem : ∀ item : IngestItem, embedItem c.slots item ⟨c, []⟩ =
      .ok (Corpus.itemRows c.slots item) ⟨c, []⟩ := by
    intro item
    have hslots : c.slots.mapM (fun slot =>
        embedChunks slot.kind slot.handle item.nowSecs (item.chunks sub)) ⟨c, []⟩ =
          .ok (c.slots.map fun slot => Corpus.slotRows slot item.nowSecs (item.chunks sub))
            ⟨c, []⟩ := mapM_faultless fun slot _ => embedChunks_faultless _ _ _ _ c
    unfold embedItem
    rw [bind_of_ok hslots]
    rfl
  have hslices : ∀ slices : List (List IngestItem),
      slices.mapM (fun slice => slice.mapM (embedItem c.slots)) ⟨c, []⟩ =
        .ok (slices.map fun slice => slice.map (Corpus.itemRows c.slots)) ⟨c, []⟩ :=
    fun slices => mapM_faultless fun slice _ => mapM_faultless fun item _ => hitem item
  unfold embedItems
  rw [getCorpus_bind, bind_of_ok (hslices _)]
  rw [← List.map_flatten, flatten_windows (by omega)]
  rfl

theorem does_writeRows (rows : List VectorPayloadInput) :
    Does (@writeRows sub rows) fun c => c.upserted rows := by
  intro c
  have hall := Does.forM (l := windows commitChunkRows rows)
    (g := fun (c : Corpus sub) window => c.upserted window)
    (fun window _ => (does_addPayloads window).inTransaction) c
  have hfold : ∀ (windows : List (List VectorPayloadInput)) (c : Corpus sub),
      windows.foldl (fun c window => c.upserted window) c = c.upserted windows.flatten := by
    intro windows
    induction windows with
    | nil => exact fun _ => rfl
    | cons window windows ih =>
      intro c
      rw [List.foldl_cons, ih, List.flatten_cons]
      unfold Corpus.upserted
      rw [VectorTable.upsertAll_append]
      rfl
  rw [writeRows, hall]
  dsimp only
  rw [hfold, flatten_windows (by decide)]

theorem does_ingestBatch (threads : Threads) (items : List IngestItem) :
    Does (@ingestBatch sub threads items) fun c => c.batchIngested items := by
  intro c
  cases items with
  | nil => rfl
  | cons first rest =>
    unfold ingestBatch Corpus.batchIngested
    dsimp only
    rw [bind_of_ok (does_storeItems _ c), bind_of_ok (does_indexChunks _ _),
      bind_of_ok (does_bootstrap _ _), bind_of_ok (embedItems_faultless _ _ _),
      bind_of_ok (does_writeRows _ _)]
    exact does_persistMaintainedCounts _ _

theorem does_ingestBatchImportSerial (items : List IngestItem) :
    Does (@ingestBatchImportSerial sub items) fun c => c.filedAll items := by
  intro c
  unfold ingestBatchImportSerial
  rw [bind_of_ok (does_storeItems _ c)]
  exact does_indexChunks _ _

end Batch

section Removal

theorem does_removeChunk (modelIds : List String) (chunk : Chunk sub) :
    Does (removeChunk modelIds chunk) fun c => c.withoutChunk modelIds chunk := by
  intro c
  have hitem : Does (@removeItem sub (sub.idText chunk.id)) fun c => c.unindexed chunk :=
    fun c => bind_of_ok (does_deleteFromDb _ c)
  have hmodels := Does.forM (l := modelIds)
    (f := fun modelId => do
      writeCorpus fun c : Corpus sub => c.deleteVectors (sub.idText chunk.id) modelId
      attempt)
    (g := fun c modelId => c.deleteVectors (sub.idText chunk.id) modelId)
    (fun _ _ => (Does.writeCorpus _).bind .attempt)
  unfold removeChunk
  rw [bind_of_ok (hitem c)]
  exact hmodels _

theorem does_remove (sourceId : String) :
    Does (@remove sub sourceId) fun c => c.removed sourceId := by
  intro c
  have hchunks := Does.forM (l := c.chunksForSource sourceId)
    (f := removeChunk (c.slots.map (·.modelId)))
    (g := fun c' => c'.withoutChunk (c.slots.map (·.modelId)))
    (fun chunk _ => does_removeChunk _ chunk) c
  unfold remove
  rw [bind_of_ok (readCorpus_faultless (fun c => c.chunksForSource sourceId) c), getCorpus_bind,
    bind_of_ok hchunks]
  rfl

theorem does_expunge (sourceId : String) :
    Does (@expunge sub sourceId) fun c => c.expunged sourceId :=
  (Does.writeCorpus _).bind (does_remove sourceId)

end Removal

end MootMemory
