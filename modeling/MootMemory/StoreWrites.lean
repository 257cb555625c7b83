import MootMemory.NamedWrites

namespace MootMemory

variable {sub : CorpusSubstrate} {P : Corpus sub → Prop}

/-- A property that no write but those of chunks, and of counts in memory, can end. -/
structure SideInvariant (P : Corpus sub → Prop) : Prop where
  withTables : ∀ {c : Corpus sub} (f : PostingTables → PostingTables), P c → P (c.withTables f)
  dropCache : ∀ {c : Corpus sub}, P c → P c.dropCache
  withVectors : ∀ {c : Corpus sub} (vectors : VectorTable), P c → P (c.withVectors vectors)
  install : ∀ {c : Corpus sub} (i : Nat) (trained : sub.State), P c → P (c.install i trained)
  putBasis : ∀ {c : Corpus sub} (row : PersistedBasis), P c → P (c.putBasis row)
  putCounts : ∀ {c : Corpus sub} (row : PersistedCounts), P c → P (c.putCounts row)
  remapped : ∀ {c : Corpus sub} (chunkSourceMap : sub.ChunkId → Option String), P c →
    P { c with chunkSourceMap }
  suppressed : ∀ {c : Corpus sub} (removedSources : Finset String), P c →
    P { c with storage := { c.storage with removedSources } }
  rolledBack : ∀ before after : Corpus sub, P before → P after →
    P (after.withStorage before.storage)

namespace SideInvariant

variable (hP : SideInvariant P)

include hP

/-- It does not look at the names of what is written. -/
theorem anyNames : NamedInvariant (fun _ => True) P where
  named _ := trivial
  putTermFreq _ h := hP.withTables _ h
  putDocLen _ h := hP.withTables _ h
  deletedTerms _ h := hP.withTables _ h
  deletedLens _ h := hP.withTables _ h
  merged _ _ h := hP.withTables _ h
  unposted _ _ _ h := hP.withTables _ h
  dropCache h := hP.dropCache h
  putVector _ h := hP.withVectors _ h
  deletedVectors _ h := hP.withVectors _ h
  replaced _ _ h := hP.withVectors _ h
  install := hP.install
  putBasis := hP.putBasis
  putCounts := hP.putCounts
  remapped := hP.remapped
  suppressed := hP.suppressed
  rolledBack := hP.rolledBack

theorem indexChunk (chunk : Chunk sub) : KeepsCorpus P (indexChunk chunk) :=
  hP.anyNames.indexChunk chunk

theorem persistMaintainedCounts (nowSecs : Int) : KeepsCorpus P (persistMaintainedCounts nowSecs) :=
  hP.anyNames.persistMaintainedCounts nowSecs

theorem trainFirst (threads : Threads) (filedAtSecs : Int) (cached : Option (List (Chunk sub)))
    (slots : List Nat) : KeepsCorpus P (trainFirst threads filedAtSecs cached slots) :=
  hP.anyNames.trainFirst threads filedAtSecs cached slots

theorem foldIn (threads : Threads) (chunks : List (Chunk sub)) (filedAtSecs : Int)
    (slots : List Nat) : KeepsCorpus P (foldIn threads chunks filedAtSecs slots) :=
  hP.anyNames.foldIn threads chunks filedAtSecs slots

theorem indexChunks (chunks : List (Chunk sub)) : KeepsCorpus P (indexChunks chunks) :=
  hP.anyNames.indexChunks chunks

theorem bootstrap (nowSecs : Int) : KeepsCorpus P (bootstrap nowSecs) :=
  hP.anyNames.bootstrap nowSecs

theorem embedItems (threads : Threads) (items : List IngestItem) :
    KeepsCorpus P (@embedItems sub threads items) :=
  (hP.anyNames.embedItems threads items).keeps

theorem writeRows (rows : List VectorPayloadInput) : KeepsCorpus P (writeRows rows) :=
  hP.anyNames.writeRows fun _ _ => trivial

theorem mergeShards (shards : List PostingTables) : KeepsCorpus P (shards.forM mergeShard) :=
  hP.anyNames.mergeShards fun _ _ => ⟨fun _ _ => trivial, fun _ _ => trivial⟩

theorem foldAllPostings {ι : Type} (l : List ι) : KeepsCorpus P (l.forM fun _ => foldPostings) :=
  hP.anyNames.foldAllPostings l

theorem reindex (threads : Threads) (nowMillis : Int) : KeepsCorpus P (reindex threads nowMillis) :=
  hP.anyNames.reindex threads nowMillis

theorem remove (sourceId : String) : KeepsCorpus P (remove sourceId) := hP.anyNames.remove sourceId

end SideInvariant

/-- A property that no write of chunks, of their roots and counts, and of what goes with them can
end. -/
structure ChunkInvariant (P : Corpus sub → Prop) : Prop where
  inserted : ∀ {c : Corpus sub} {chunk : Chunk sub} {sourceId : String}
    {chunks : KeyedTable (@ChunkRow.id sub)}, chunk.MadeFor sourceId →
    c.storage.chunks.insert? ⟨chunk, sub.leaf chunk.id chunk.text⟩ = some chunks → P c →
      P (c.withChunks chunks)
  rolledUp : ∀ {c : Corpus sub} (sourceId : String), P c → P (c.rollup sourceId)
  counted : ∀ {c : Corpus sub} (chunks : List (Chunk sub)), P c → P (c.foldCounts chunks)
  remapped : ∀ {c : Corpus sub} (chunkSourceMap : sub.ChunkId → Option String), P c →
    P { c with chunkSourceMap }
  suppressed : ∀ {c : Corpus sub} (removedSources : Finset String), P c →
    P { c with storage := { c.storage with removedSources } }
  rolledBack : ∀ before after : Corpus sub, P before → P after →
    P (after.withStorage before.storage)

/-- A property that no write of an ingest, a removal or a reindex can end. -/
structure StoreInvariant (P : Corpus sub → Prop) : Prop extends SideInvariant P where
  inserted : ∀ {c : Corpus sub} {chunk : Chunk sub} {sourceId : String}
    {chunks : KeyedTable (@ChunkRow.id sub)}, chunk.MadeFor sourceId →
    c.storage.chunks.insert? ⟨chunk, sub.leaf chunk.id chunk.text⟩ = some chunks → P c →
      P (c.withChunks chunks)
  rolledUp : ∀ {c : Corpus sub} (sourceId : String), P c → P (c.rollup sourceId)
  counted : ∀ {c : Corpus sub} (chunks : List (Chunk sub)), P c → P (c.foldCounts chunks)

namespace ChunkInvariant

variable (hP : ChunkInvariant P)

include hP

section Steps

theorem insertChunk {chunk : Chunk sub} {sourceId : String} (hchunk : chunk.MadeFor sourceId) :
    KeepsCorpus P (insertChunk chunk) := by
  refine KeepsCorpus.bind KeepsCorpus.attempt fun _ => ?_
  intro s h
  rw [getCorpus_bind]
  cases hinsert : s.corpus.storage.chunks.insert? ⟨chunk, sub.leaf chunk.id chunk.text⟩ with
  | none => exact h
  | some chunks => exact hP.inserted hchunk hinsert h

theorem insertChunks {chunks : List (Chunk sub)} {sourceId : String}
    (hchunks : ∀ chunk ∈ chunks, chunk.MadeFor sourceId) : KeepsCorpus P (insertChunks chunks) := by
  induction chunks with
  | nil => exact .pure []
  | cons chunk chunks ih =>
    rw [List.forall_mem_cons] at hchunks
    exact KeepsCorpus.bind (hP.insertChunk hchunks.1) fun _ =>
      KeepsCorpus.bind (ih hchunks.2) fun _ => .pure _

theorem bundleInsert {chunks : List (Chunk sub)} {sourceId : String}
    (hchunks : ∀ chunk ∈ chunks, chunk.MadeFor sourceId) : KeepsCorpus P (bundleInsert chunks) := by
  refine KeepsCorpus.ite (.pure []) (KeepsCorpus.bind (hP.insertChunks hchunks) fun _ => ?_)
  refine KeepsCorpus.bind (.forM (fun _ => ?_) _) fun _ => .pure _
  exact KeepsCorpus.bind KeepsCorpus.attempt fun _ => KeepsCorpus.writeCorpus fun _ h =>
    hP.rolledUp _ h

theorem clearRemoved (sourceId : String) :
    KeepsCorpus P (writeCorpus fun c => c.clearRemoved sourceId) :=
  KeepsCorpus.writeCorpus fun _ h => hP.suppressed _ h

theorem mapChunks (chunks : List (Chunk sub)) (sourceId : String) :
    KeepsCorpus P (modifyCorpus fun c => c.mapChunks chunks sourceId) :=
  KeepsCorpus.modifyCorpus fun _ h => hP.remapped _ h

theorem foldChunksIntoCounts (chunks : List (Chunk sub)) :
    KeepsCorpus P (foldChunksIntoCounts chunks) :=
  KeepsCorpus.modifyCorpus fun _ h => hP.counted _ h

theorem storeItem {sourceId : String} {chunks : List (Chunk sub)}
    (hchunks : ∀ chunk ∈ chunks, chunk.MadeFor sourceId) :
    KeepsCorpus P (storeItem sourceId chunks) := by
  refine KeepsCorpus.ite (.pure ()) (KeepsCorpus.bind (hP.clearRemoved _) fun _ => ?_)
  refine KeepsCorpus.bind (hP.bundleInsert hchunks) fun inserted => ?_
  exact KeepsCorpus.bind (hP.mapChunks _ _) fun _ => hP.foldChunksIntoCounts _

theorem storeItems (items : List IngestItem) : KeepsCorpus P (@storeItems sub items) :=
  .forM (fun _ => KeepsCorpus.inTransaction hP.rolledBack
    (.forM (fun _ => hP.storeItem madeFor_chunkWithDefaultHlc) _)) _

theorem storeChunked {items : List (String × List (Chunk sub))}
    (hitems : ∀ item ∈ items, ∀ chunk ∈ item.2, chunk.MadeFor item.1) :
    KeepsCorpus P (storeChunked items) := by
  have hwindows : ∀ wins : List (List (String × List (Chunk sub))),
      (∀ window ∈ wins, ∀ item ∈ window, ∀ chunk ∈ item.2, chunk.MadeFor item.1) →
        KeepsCorpus P (wins.forM fun window =>
          inTransaction (window.forM fun item => MootMemory.storeItem item.1 item.2)) := by
    intro wins
    induction wins with
    | nil => exact fun _ => .pure ()
    | cons window wins ih =>
      intro h
      rw [List.forall_mem_cons] at h
      refine KeepsCorpus.bind (KeepsCorpus.inTransaction hP.rolledBack ?_) fun _ => ih h.2
      have hwindow := h.1
      clear h ih
      induction window with
      | nil => exact .pure ()
      | cons item window ih =>
        rw [List.forall_mem_cons] at hwindow
        exact KeepsCorpus.bind (hP.storeItem hwindow.1) fun _ => ih hwindow.2
  refine hwindows _ fun window hwindow item hitem => hitems item ?_
  rw [← flatten_windows (by decide : 0 < commitChunkItems) items]
  exact List.mem_flatten.mpr ⟨window, hwindow, hitem⟩

end Steps

end ChunkInvariant

section Calls

variable {N : String → Prop} (hP : NamedInvariant N P) (hC : ChunkInvariant P)

include hP hC

theorem NamedInvariant.ingest (threads : Threads) (item : IngestItem) :
    KeepsCorpus P (@MootMemory.ingest sub threads item) := by
  refine KeepsCorpus.ite (.pure ()) (KeepsCorpus.bind (hC.clearRemoved _) fun _ => ?_)
  refine KeepsCorpus.bind (hC.bundleInsert madeFor_chunkWithDefaultHlc) fun inserted => ?_
  refine KeepsCorpus.bind (.ite (.throw _) (.pure ())) fun _ => ?_
  refine KeepsCorpus.bind (.forM hP.indexChunk _) fun _ => KeepsCorpus.bind (hC.mapChunks _ _)
    fun _ => ?_
  refine KeepsCorpus.bind (hC.foldChunksIntoCounts _) fun _ =>
    KeepsCorpus.bind KeepsCorpus.getCorpus fun c => ?_
  refine KeepsCorpus.bind (hP.trainFirst _ _ _ _) fun _ => ?_
  exact KeepsCorpus.bind (hP.foldIn _ _ _ _) fun _ => hP.persistMaintainedCounts _

theorem NamedInvariant.ingestBatch (threads : Threads) (items : List IngestItem) :
    KeepsCorpus P (@MootMemory.ingestBatch sub threads items) := by
  cases items with
  | nil => exact .pure ()
  | cons first rest =>
    refine KeepsCorpus.bind (hC.storeItems _) fun _ => KeepsCorpus.bind (hP.indexChunks _)
      fun _ => ?_
    refine KeepsCorpus.bind (hP.bootstrap _) fun _ => ?_
    refine ((hP.embedItems _ _).bind fun rows hrows => KeepsCorpus.yields ?_).keeps
    exact KeepsCorpus.bind (hP.writeRows hrows) fun _ => hP.persistMaintainedCounts _

theorem NamedInvariant.ingestBatchImportSharded (threads : Threads) (items : List IngestItem) :
    KeepsCorpus P (@MootMemory.ingestBatchImportSharded sub threads items) := by
  rw [ingestBatchImportSharded_eq]
  refine KeepsCorpus.bind (.mapM (fun _ => KeepsCorpus.bind .attempt fun _ => .pure _) _)
    fun _ => KeepsCorpus.bind (hC.storeChunked fun pair hpair => ?_) fun _ =>
      KeepsCorpus.bind (hP.mergeShards fun shard hshard => ?_) fun _ => hP.foldAllPostings _
  · obtain ⟨item, -, rfl⟩ := List.mem_map.mp hpair
    exact madeFor_chunkWithDefaultHlc
  · obtain ⟨parts, hparts, -⟩ := @exists_importShards sub threads items
    rw [hparts] at hshard
    obtain ⟨part, -, rfl⟩ := List.mem_map.mp hshard
    refine ⟨fun row hrow => ?_, fun row hrow => ?_⟩
    · obtain ⟨id, hid⟩ := itemId_of_mem_shardOf.1 row hrow
      exact hid ▸ hP.named id
    · obtain ⟨id, hid⟩ := itemId_of_mem_shardOf.2 row hrow
      exact hid ▸ hP.named id

theorem NamedInvariant.ingestBatchImport (threads : Threads) (onDisk : Bool)
    (items : List IngestItem) :
    KeepsCorpus P (@MootMemory.ingestBatchImport sub threads onDisk items) := by
  refine .ite (.pure ()) (.ite (hP.ingestBatchImportSharded hC threads items) ?_)
  exact KeepsCorpus.bind (hC.storeItems _) fun _ => hP.indexChunks _

end Calls

namespace StoreInvariant

variable (hP : StoreInvariant P)

include hP

theorem chunkInvariant : ChunkInvariant P where
  inserted := hP.inserted
  rolledUp := hP.rolledUp
  counted := hP.counted
  remapped := hP.remapped
  suppressed := hP.suppressed
  rolledBack := hP.rolledBack

theorem ingest (threads : Threads) (item : IngestItem) :
    KeepsCorpus P (@ingest sub threads item) := hP.anyNames.ingest hP.chunkInvariant threads item

theorem ingestBatch (threads : Threads) (items : List IngestItem) :
    KeepsCorpus P (@ingestBatch sub threads items) :=
  hP.anyNames.ingestBatch hP.chunkInvariant threads items

theorem ingestBatchImport (threads : Threads) (onDisk : Bool) (items : List IngestItem) :
    KeepsCorpus P (@ingestBatchImport sub threads onDisk items) :=
  hP.anyNames.ingestBatchImport hP.chunkInvariant threads onDisk items

end StoreInvariant

end MootMemory
