import MootMemory.IdSpelling
import MootMemory.ReferenceSubstrate

namespace MootMemory

variable {sub : CorpusSubstrate}

namespace PostingTables

/-- A chunk's terms and length are under its id. -/
def PostsText (tables : PostingTables) (id : sub.ChunkId) (text : String) : Prop :=
  (∀ term ∈ defaultKeywordTokens sub text,
      ∃ row ∈ tables.termFreqs.rows, row.key = (term, sub.idText id)) ∧
    (defaultKeywordTokens sub text ≠ [] → ∃ row ∈ tables.docLens.rows, row.itemId = sub.idText id)

/-- Under the id of each chunk are its postings, or those of another with the id. -/
def Posts (tables : PostingTables) (chunks : List (Chunk sub)) : Prop :=
  ∀ chunk ∈ chunks, ∃ same ∈ chunks, same.id = chunk.id ∧ tables.PostsText chunk.id same.text

theorem posts_indexAll (store : InvertedIndexStore) (chunks : List (Chunk sub)) :
    (store.indexAll chunks).tables.Posts chunks := by
  induction chunks using List.reverseRecOn with
  | nil => exact fun _ h => absurd h List.not_mem_nil
  | append_singleton chunks last ih =>
    have hlast : (store.indexAll (chunks ++ [last])).tables =
        (store.indexAll chunks).tables.indexItem (sub.idText last.id)
          (defaultKeywordTokens sub last.text) := by
      rw [InvertedIndexStore.indexAll, List.foldl_append]
      rfl
    have hmem : last ∈ chunks ++ [last] := List.mem_append_right _ (List.mem_singleton.mpr rfl)
    intro chunk hchunk
    rw [hlast]
    by_cases hid : last.id = chunk.id
    · refine ⟨last, hmem, hid, fun term hterm => ?_, fun hne => ?_⟩
      · refine ⟨⟨term, sub.idText last.id, (defaultKeywordTokens sub last.text).count term⟩, ?_, ?_⟩
        · rw [mem_termFreqs_indexItem_iff, if_pos rfl, mem_termFreqsOf]
          exact ⟨rfl, hterm, rfl⟩
        · rw [TermFreq.key, hid]
      · refine ⟨⟨sub.idText last.id, (defaultKeywordTokens sub last.text).length⟩, ?_, ?_⟩
        · rw [mem_docLens_indexItem_iff, if_pos rfl]
          exact ⟨hne, rfl⟩
        · rw [hid]
    · have hother : ∀ {itemId}, itemId = sub.idText chunk.id → itemId ≠ sub.idText last.id :=
        fun h h' => hid (sub.idText_injective (h'.symm.trans h))
      have hchunk' : chunk ∈ chunks := (List.mem_append.mp hchunk).resolve_right fun h =>
        hid (congrArg (·.id) (List.mem_singleton.mp h)).symm
      obtain ⟨same, hsame, hsameId, hterms, hlens⟩ := ih chunk hchunk'
      refine ⟨same, List.mem_append_left _ hsame, hsameId, fun term hterm => ?_, fun hne => ?_⟩
      · obtain ⟨row, hrow, hkey⟩ := hterms term hterm
        refine ⟨row, ?_, hkey⟩
        have hitem : row.itemId = sub.idText chunk.id := congrArg Prod.snd hkey
        rwa [mem_termFreqs_indexItem_iff, if_neg (hother hitem)]
      · obtain ⟨row, hrow, hkey⟩ := hlens hne
        refine ⟨row, ?_, hkey⟩
        rwa [mem_docLens_indexItem_iff, if_neg (hother hkey)]

theorem PostsText.overwrite_left {tables shard : PostingTables} {id : sub.ChunkId} {text : String}
    (h : tables.PostsText id text) : (tables.overwrite shard).PostsText id text :=
  ⟨fun term hterm => RowSet.exists_key_overwrite (Or.inl (h.1 term hterm)),
    fun hne => RowSet.exists_key_overwrite (Or.inl (h.2 hne))⟩

theorem PostsText.overwrite_right {tables shard : PostingTables} {id : sub.ChunkId} {text : String}
    (h : shard.PostsText id text) : (tables.overwrite shard).PostsText id text :=
  ⟨fun term hterm => RowSet.exists_key_overwrite (Or.inr (h.1 term hterm)),
    fun hne => RowSet.exists_key_overwrite (Or.inr (h.2 hne))⟩

theorem postsText_shardOf {part : List (Chunk sub)} {chunk : Chunk sub} (h : chunk ∈ part) :
    (shardOf (slicePostings part)).PostsText chunk.id chunk.text := by
  have hposting : ∀ hne : defaultKeywordTokens sub chunk.text ≠ [],
      Posting.ofChunk chunk ∈ slicePostings part := fun hne =>
    List.mem_filter.mpr ⟨List.mem_map_of_mem h, decide_eq_true hne⟩
  refine ⟨fun term hterm => ?_, fun hne => ?_⟩
  · refine RowSet.exists_key_replaceAll (Or.inr ?_)
    refine ⟨⟨term, sub.idText chunk.id, (defaultKeywordTokens sub chunk.text).count term⟩, ?_, rfl⟩
    rw [List.mem_insertionSort, List.mem_flatMap]
    exact ⟨_, hposting (List.ne_nil_of_mem hterm), mem_termFreqsOf.mpr ⟨rfl, hterm, rfl⟩⟩
  · refine RowSet.exists_key_replaceAll (Or.inr ?_)
    refine ⟨⟨sub.idText chunk.id, (defaultKeywordTokens sub chunk.text).length⟩, ?_, rfl⟩
    rw [List.mem_insertionSort, List.mem_map]
    exact ⟨_, hposting hne, rfl⟩

/-- Shards merged one after another leave the postings of all their chunks. -/
theorem postsText_shards {id : sub.ChunkId} {text : String} (parts : List (List (Chunk sub))) :
    ∀ tables : PostingTables, (tables.PostsText id text ∨
      ∃ part ∈ parts, (shardOf (slicePostings part)).PostsText id text) →
        ((parts.map fun part => shardOf (slicePostings part)).foldl .overwrite
          tables).PostsText id text := by
  induction parts with
  | nil =>
    rintro tables (h | ⟨part, hpart, -⟩)
    · exact h
    · exact absurd hpart List.not_mem_nil
  | cons part parts ih =>
    intro tables h
    refine ih _ ?_
    rcases h with h | ⟨part', hpart', h⟩
    · exact Or.inl h.overwrite_left
    · rcases List.mem_cons.mp hpart' with rfl | hpart'
      · exact Or.inl h.overwrite_right
      · exact Or.inr ⟨part', hpart', h⟩

end PostingTables

namespace Corpus

variable {c : Corpus sub}

/-- A call that stores items leaves the postings of their chunks. -/
theorem posts_effect {weighting : ImpactWeighting} (threads : Threads) (call : CorpusCall sub) :
    (call.effect weighting threads c).invertedIndex.tables.Posts
      (call.items.flatMap (·.chunks sub)) := by
  have hserial : ∀ {c' : Corpus sub} {items : List IngestItem},
      c'.invertedIndex = c.invertedIndex.indexAll (items.flatMap (·.chunks sub)) →
        c'.invertedIndex.tables.Posts (items.flatMap (·.chunks sub)) := by
    intro c' items h
    rw [h]
    exact PostingTables.posts_indexAll _ _
  have hnone : ∀ tables : PostingTables, tables.Posts ([] : List (Chunk sub)) :=
    fun _ _ h => absurd h List.not_mem_nil
  cases call with
  | ingest item =>
    refine hserial ?_
    rw [CorpusCall.items, List.flatMap_singleton]
    exact (ingested_frame c item).2.1
  | ingestBatch items => exact hserial (batchIngested_frame c items).2.1
  | ingestBatchImport onDisk items =>
    show (if items = [] then c else if onDisk then c.shardImported threads items
      else c.filedAll items).invertedIndex.tables.Posts (items.flatMap (·.chunks sub))
    by_cases hnil : items = []
    · rw [hnil]
      exact hnone _
    rw [if_neg hnil]
    cases onDisk with
    | false => exact hserial (filedAll_frame c items).2.1
    | true =>
      rw [if_pos rfl, shardImported_eq c threads hnil]
      obtain ⟨parts, hshards, hparts⟩ := @exists_importShards sub threads items
      intro chunk hchunk
      refine ⟨chunk, hchunk, rfl, ?_⟩
      rw [hshards]
      obtain ⟨part, hpart, hmem⟩ := List.mem_flatten.mp ((hparts chunk).mpr hchunk)
      exact PostingTables.postsText_shards parts _
        (Or.inr ⟨part, hpart, PostingTables.postsText_shardOf hmem⟩)
  | _ => exact hnone _

theorem Spelled.congr {c' : Corpus sub} (h : c.Spelled)
    (htables : c'.invertedIndex.tables = c.invertedIndex.tables)
    (hvectors : c'.storage.vectors = c.storage.vectors) : c'.Spelled where
  termFreqs := htables ▸ h.termFreqs
  docLens := htables ▸ h.docLens
  vectors := hvectors ▸ h.vectors

theorem Spelled.withVectors {vectors : VectorTable} (h : c.Spelled)
    (hvectors : ∀ input ∈ vectors.inputs, MootMemory.Spelled sub input.itemId) :
    (c.withVectors vectors).Spelled where
  termFreqs := h.termFreqs
  docLens := h.docLens
  vectors := hvectors

/-- Nothing but a row under an id as it is not written ends it. -/
theorem spelled_namedInvariant : NamedInvariant (MootMemory.Spelled sub) (@Spelled sub) where
  named := spelled_idText
  putTermFreq hrow h := by
    refine ⟨fun row hmem => ?_, h.docLens, h.vectors⟩
    rcases RowSet.mem_replace.mp hmem with rfl | ⟨hmem, -⟩
    · exact hrow
    · exact h.termFreqs row hmem
  putDocLen hrow h := by
    refine ⟨h.termFreqs, fun row hmem => ?_, h.vectors⟩
    rcases RowSet.mem_replace.mp hmem with rfl | ⟨hmem, -⟩
    · exact hrow
    · exact h.docLens row hmem
  deletedTerms _ h :=
    ⟨fun row hmem => h.termFreqs row (RowSet.mem_deleteWhere.mp hmem).1, h.docLens, h.vectors⟩
  deletedLens _ h :=
    ⟨h.termFreqs, fun row hmem => h.docLens row (RowSet.mem_deleteWhere.mp hmem).1, h.vectors⟩
  merged hterms hlens h := by
    refine ⟨fun row hmem => ?_, fun row hmem => ?_, h.vectors⟩
    · exact (RowSet.mem_overwrite.mp hmem).elim (hterms row) fun hmem => h.termFreqs row hmem.1
    · exact (RowSet.mem_overwrite.mp hmem).elim (hlens row) fun hmem => h.docLens row hmem.1
  unposted before after hbefore hafter := ⟨hbefore.termFreqs, hbefore.docLens, hafter.vectors⟩
  dropCache h := h.congr rfl rfl
  putVector hinput h := by
    refine h.withVectors fun input hmem => ?_
    rcases VectorTable.mem_upsert.mp hmem with rfl | ⟨hmem, -⟩
    · exact hinput
    · exact h.vectors input hmem
  deletedVectors p h := by
    refine h.withVectors fun input hmem => ?_
    obtain ⟨row, hrow, rfl⟩ := List.mem_map.mp hmem
    exact h.vectors _ (List.mem_map_of_mem (List.mem_filter.mp hrow).1)
  replaced hbatch hreplace h :=
    h.withVectors fun input hmem => (VectorTable.of_mem_replaceModel hreplace hmem).elim
      (hbatch input) (h.vectors input)
  install _ _ h := h.congr rfl rfl
  putBasis _ h := h.congr rfl rfl
  putCounts _ h := h.congr rfl rfl
  remapped _ h := h.congr rfl rfl
  suppressed _ h := h.congr rfl rfl
  rolledBack before after hbefore hafter := ⟨hafter.termFreqs, hafter.docLens, hbefore.vectors⟩

theorem spelled_chunkInvariant : ChunkInvariant (@Spelled sub) where
  inserted _ _ h := h.congr rfl rfl
  rolledUp _ h := h.congr rfl rfl
  counted chunks h := by
    obtain ⟨hindex, hstorage, -⟩ := foldCounts_frame _ chunks
    exact h.congr (congrArg (·.tables) hindex) (congrArg (·.vectors) hstorage)
  remapped _ h := h.congr rfl rfl
  suppressed _ h := h.congr rfl rfl
  rolledBack := spelled_namedInvariant.rolledBack

theorem keepsSpelled_destroyRecallIndex : KeepsCorpus Spelled (@destroyRecallIndex sub) := by
  have hcleared : KeepsCorpus Spelled (@clearAll sub) := by
    refine KeepsCorpus.bind (KeepsCorpus.writeCorpus fun c h => ?_) fun _ =>
      KeepsCorpus.bind (KeepsCorpus.writeCorpus fun c h => ?_) fun _ =>
        KeepsCorpus.modifyCorpus fun _ h => h.congr rfl rfl
    · exact ⟨fun _ hrow => absurd hrow (Finset.notMem_empty _), h.docLens, h.vectors⟩
    · exact ⟨h.termFreqs, fun _ hrow => absurd hrow (Finset.notMem_empty _), h.vectors⟩
  have hwritten : ∀ f : Corpus sub → Corpus sub,
      (∀ c, (f c).invertedIndex.tables = c.invertedIndex.tables) →
        (∀ c, (f c).storage.vectors = c.storage.vectors) → KeepsCorpus Spelled (writeCorpus f) :=
    fun _ htables hvectors => KeepsCorpus.writeCorpus fun c h => h.congr (htables c) (hvectors c)
  refine KeepsCorpus.bind hcleared fun _ =>
    KeepsCorpus.bind (KeepsCorpus.modifyCorpus fun _ h => h.congr rfl rfl) fun _ => ?_
  refine KeepsCorpus.bind (KeepsCorpus.writeCorpus fun _ h =>
    spelled_namedInvariant.deletedVectors _ h) fun _ => KeepsCorpus.bind .attempt fun _ => ?_
  refine KeepsCorpus.bind (hwritten _ (fun _ => rfl) fun _ => rfl) fun _ => ?_
  exact KeepsCorpus.bind (hwritten _ (fun _ => rfl) fun _ => rfl) fun _ =>
    hwritten _ (fun _ => rfl) fun _ => rfl

theorem keepsSpelled_reopen (models : List (EmbeddingModelConfig sub)) :
    KeepsCorpus Spelled (MootMemory.reopen models) := by
  intro s h
  unfold MootMemory.reopen openMany
  rw [getCorpus_bind]
  by_cases hmodels : models = []
  · rw [if_pos hmodels]
    exact h
  · rw [if_neg hmodels]
    exact h.congr rfl rfl

theorem Spelled.outcome {weighting : ImpactWeighting} {s : Session sub} (h : s.corpus.Spelled)
    (threads : Threads) (call : CorpusCall sub) :
    (call.outcome weighting threads s).Spelled := by
  have hN := @spelled_namedInvariant sub
  have hC := @spelled_chunkInvariant sub
  refine after_outcome (After.of_keeps ?_ h)
  cases call with
  | ingest item => exact hN.ingest hC threads item
  | ingestBatch items => exact hN.ingestBatch hC threads items
  | ingestBatchImport onDisk items => exact hN.ingestBatchImport hC threads onDisk items
  | remove sourceId => exact hN.remove sourceId
  | expunge sourceId =>
    exact KeepsCorpus.bind (KeepsCorpus.writeCorpus fun _ h => h.congr rfl rfl) fun _ =>
      hN.remove sourceId
  | reindex nowMillis => exact hN.reindex threads nowMillis
  | setEncodeSpeed speed =>
    show KeepsCorpus Spelled (modifyCorpus fun c => { c with encodeSpeed := speed })
    exact KeepsCorpus.modifyCorpus fun _ h => h.congr rfl rfl
  | search tokens k =>
    show KeepsCorpus Spelled (modifyCorpus fun c => (c.search weighting tokens k).2)
    exact KeepsCorpus.modifyCorpus fun _ h => ⟨h.termFreqs, h.docLens, h.vectors⟩
  | destroyRecallIndex => exact keepsSpelled_destroyRecallIndex
  | reopen models => exact keepsSpelled_reopen models

/-- Calls lead from the first corpus to the second, however they end. -/
def Follows (weighting : ImpactWeighting) : Corpus sub → Corpus sub → Prop :=
  Relation.ReflTransGen fun c c' => ∃ (call : CorpusCall sub) (threads : Threads)
    (faults : List (Option CorpusKitError)), c' = call.outcome weighting threads ⟨c, faults⟩

theorem Spelled.follows {weighting : ImpactWeighting} {c' : Corpus sub} (h : c.Spelled)
    (hfollows : c.Follows weighting c') : c'.Spelled := by
  induction hfollows with
  | refl => exact h
  | tail _ hcall ih =>
    obtain ⟨call, threads, faults, rfl⟩ := hcall
    exact @Spelled.outcome sub weighting ⟨_, faults⟩ ih threads call

/-- Of all that reads as one id there is one posting for a term, one length and one vector for a
place, and the chunks have their postings, or those of a chunk with their id. -/
structure HeldOnce (c : Corpus sub) (chunks : List (Chunk sub)) : Prop where
  termFreqs : ∀ a ∈ c.invertedIndex.tables.termFreqs.rows,
    ∀ b ∈ c.invertedIndex.tables.termFreqs.rows, ∀ id, sub.parseId a.itemId = some id →
      sub.parseId b.itemId = some id → a.term = b.term → a = b
  docLens : ∀ a ∈ c.invertedIndex.tables.docLens.rows, ∀ b ∈ c.invertedIndex.tables.docLens.rows,
    ∀ id, sub.parseId a.itemId = some id → sub.parseId b.itemId = some id → a = b
  vectors : ∀ a ∈ c.storage.vectors.inputs, ∀ b ∈ c.storage.vectors.inputs, ∀ id,
    sub.parseId a.itemId = some id → sub.parseId b.itemId = some id → a.modelId = b.modelId →
      a.vectorIndex = b.vectorIndex → a = b
  posted : c.invertedIndex.tables.Posts chunks

theorem Spelled.heldOnce (h : c.Spelled) {chunks : List (Chunk sub)}
    (hposted : c.invertedIndex.tables.Posts chunks) : c.HeldOnce chunks where
  termFreqs a ha b hb id hid hid' hterm := by
    refine c.invertedIndex.tables.termFreqs.unique a ha b hb ?_
    rw [TermFreq.key, TermFreq.key, hterm, h.termFreqs a ha id hid, h.termFreqs b hb id hid']
  docLens a ha b hb id hid hid' := by
    refine c.invertedIndex.tables.docLens.unique a ha b hb ?_
    rw [h.docLens a ha id hid, h.docLens b hb id hid']
  vectors a ha b hb id hid hid' hmodel hindex := by
    refine VectorTable.inputs_unique ha hb ?_
    have hitem : a.itemId = b.itemId := by rw [h.vectors a ha id hid, h.vectors b hb id hid']
    show (a.itemId, a.vectorIndex, a.modelId) = (b.itemId, b.vectorIndex, b.modelId)
    rw [hitem, hindex, hmodel]
  posted := hposted

end Corpus

/-- The call takes down a source. -/
def CorpusCall.Erases (call : CorpusCall sub) (sourceId : String) : Prop :=
  call = .remove sourceId ∨ call = .expunge sourceId

/-- Where ids are as they are written, in a corpus that calls lead to a call that takes down a source
leaves nothing of it and one that stores items leaves each of their chunks once; a call that takes
down a source leaves nothing of it just where what reads as its chunks' ids is as they are
written. -/
theorem erases_iff_spelled {weighting : ImpactWeighting} {threads : Threads} {s s' : Session sub}
    {call : CorpusCall sub} (hrun : call.run weighting threads s = .ok () s') :
    (∀ sourceId, call.Erases sourceId →
        (s'.corpus.Erased sourceId ↔ s.corpus.SpelledFor sourceId)) ∧
      ∀ c : Corpus sub, c.Spelled → c.Follows weighting s.corpus →
        (∀ sourceId, call.Erases sourceId → s'.corpus.Erased sourceId) ∧
          s'.corpus.HeldOnce (call.items.flatMap (·.chunks sub)) := by
  have heffect := corpus_of_run call hrun
  have herased : ∀ sourceId, call.Erases sourceId →
      (s'.corpus.Erased sourceId ↔ s.corpus.SpelledFor sourceId) := by
    rintro sourceId (rfl | rfl)
    · rw [heffect]
      exact Corpus.erased_removed_iff _ _
    · rw [heffect]
      exact Corpus.erased_expunged_iff _ _
  refine ⟨herased, fun c hspelled hfollows => ?_⟩
  have hbefore : s.corpus.Spelled := hspelled.follows hfollows
  refine ⟨fun sourceId h => (herased sourceId h).mpr (hbefore.spelledFor sourceId), ?_⟩
  have hafter : s'.corpus.Spelled := by
    have houtcome := @Corpus.Spelled.outcome sub weighting s hbefore threads call
    rwa [CorpusCall.outcome, hrun] at houtcome
  refine hafter.heldOnce ?_
  rw [heffect]
  exact Corpus.posts_effect threads call

/-- The reference substrate with ids in hex digits, that are read in either case. -/
@[reducible] def casedCorpus : CorpusSubstrate where
  ChunkId := List (Fin 16)
  ContentHash := String
  Kind := ReferenceKind
  State := Blob
  chunkIdEq := inferInstance
  newV5 name := name.toList.map fun c => Fin.ofNat 16 c.toNat
  idText id := String.ofList (id.map fun digit : Fin 16 => Nat.digitChar digit.val)
  parseId text := text.toList.mapM fun c => (hexDigit c).map (Fin.ofNat 16)
  parseId_idText id := by
    rw [String.toList_ofList]
    induction id with
    | nil => rfl
    | cons digit id ih =>
      have hdigit : (hexDigit (Nat.digitChar digit.val)).map (Fin.ofNat 16) = some digit := by
        revert digit
        decide
      rw [List.map_cons, List.mapM_cons, hdigit, ih]
      rfl
  sentences := referenceCorpus.sentences
  send := referenceCorpus.send
  packed := referenceCorpus.packed
  toLowercase := referenceCorpus.toLowercase
  isAlphabetic := referenceCorpus.isAlphabetic
  leaf _ text := text
  interior children := String.join (children.map (·.2))
  insertConflict := referenceCorpus.insertConflict
  key := referenceCorpus.key
  embedPair := referenceCorpus.embedPair
  trainOnCorpus := referenceCorpus.trainOnCorpus
  serializeBasis := referenceCorpus.serializeBasis
  reconstructBasis := referenceCorpus.reconstructBasis
  addToCounts := referenceCorpus.addToCounts
  serializeCounts := referenceCorpus.serializeCounts
  restoreCounts := referenceCorpus.restoreCounts
  countsVocabularySize := referenceCorpus.countsVocabularySize

namespace CasedCorpus

def chunk : Chunk casedCorpus := ⟨[10], "s", 0, 5, "alpha", ⟨0, 0, 0⟩⟩

/-- A chunk with the id "a", whose postings are under the item. -/
def filed (itemId : String) : Corpus casedCorpus where
  storage := { CorpusStorage.empty with
    chunks := ⟨[⟨chunk, casedCorpus.leaf chunk.id chunk.text⟩], List.nodup_singleton _⟩ }
  invertedIndex := .opened (PostingTables.empty.indexItem itemId ["alpha"])
  chunkSourceMap id := if id = chunk.id then some "s" else none
  slots := []
  encodeSpeed := .foreground

theorem hasChunk_filed (itemId : String) : (filed itemId).HasChunk "s" [10] :=
  ⟨_, List.mem_filter.mpr ⟨List.mem_singleton.mpr rfl, rfl⟩, rfl⟩

theorem spelled_filed : (filed "a").Spelled := by
  have hwritten : casedCorpus.idText [10] = "a" := by decide +kernel
  have htext : Spelled casedCorpus "a" := hwritten ▸ @spelled_idText casedCorpus [10]
  refine ⟨fun row hrow => ?_, fun row hrow => ?_, fun _ h => absurd h List.not_mem_nil⟩
  · have hmem := (PostingTables.mem_termFreqs_indexItem_iff .empty "a" ["alpha"] row).mp hrow
    split at hmem
    next hitem => rwa [hitem]
    next => exact absurd hmem (Finset.notMem_empty _)
  · have hmem := (PostingTables.mem_docLens_indexItem_iff .empty "a" ["alpha"] row).mp hrow
    split at hmem
    next hitem => rwa [hitem]
    next => exact absurd hmem (Finset.notMem_empty _)

end CasedCorpus

/-- Postings under an id in lower case go, and a text that is stored after it is posted once. -/
theorem erases_iff_spelled_cased :
    ((CasedCorpus.filed "a").removed "s").Erased "s" ∧
      ((CasedCorpus.filed "a").batchIngested [⟨"alpha", "s", 0⟩]).HeldOnce
        ((⟨"alpha", "s", 0⟩ : IngestItem).chunks casedCorpus) := by
  let threads := ReferenceCorpus.oneThread
  let weighting := ReferenceCorpus.floats.weighting
  have hremove : (CorpusCall.remove "s").run weighting threads ⟨CasedCorpus.filed "a", []⟩ = _ :=
    does_remove "s" (CasedCorpus.filed "a")
  have hbatch : (CorpusCall.ingestBatch [⟨"alpha", "s", 0⟩]).run weighting threads
      ⟨CasedCorpus.filed "a", []⟩ = _ :=
    does_ingestBatch threads [⟨"alpha", "s", 0⟩] (CasedCorpus.filed "a")
  have hspelled := CasedCorpus.spelled_filed
  obtain ⟨herased, -⟩ := (erases_iff_spelled hremove).2 _ hspelled .refl
  obtain ⟨-, hheld⟩ := (erases_iff_spelled hbatch).2 _ hspelled .refl
  refine ⟨herased "s" (Or.inl rfl), ?_⟩
  rw [CorpusCall.items, List.flatMap_singleton] at hheld
  exact hheld

/-- Postings under the id in upper case stay. -/
theorem not_erased_of_upperCase :
    ¬∀ (weighting : ImpactWeighting) (threads : Threads) (s s' : Session casedCorpus)
      (call : CorpusCall casedCorpus) (sourceId : String), call.Erases sourceId →
        call.run weighting threads s = .ok () s' → s'.corpus.Erased sourceId := by
  intro h
  have herased := h ReferenceCorpus.floats.weighting ReferenceCorpus.oneThread
    ⟨CasedCorpus.filed "A", []⟩ _ (.remove "s") "s" (Or.inl rfl)
    (does_remove "s" (CasedCorpus.filed "A"))
  have hleft : (⟨"A", 1⟩ : DocLen) ∈
      ((CasedCorpus.filed "A").removed "s").invertedIndex.tables.docLens.rows := by decide +kernel
  have hreads : casedCorpus.parseId "A" = some [10] := by decide +kernel
  exact herased.docLens _ hleft [10] (CasedCorpus.hasChunk_filed "A") hreads

end MootMemory
