import MootMemory.CallFrames
import MootMemory.NamedPostings
import MootMemory.ReferenceCorpus

namespace MootMemory

variable {sub : CorpusSubstrate}

/-- The chunk's id is made from its text, for a clean source. -/
def Chunk.Named (chunk : Chunk sub) : Prop := TextOf sub (sub.idText chunk.id) chunk.text

theorem named_of_mem_chunks {item : IngestItem} (hclean : CleanSource item.sourceId) :
    ∀ chunk ∈ item.chunks sub, chunk.Named := by
  intro chunk hchunk
  obtain ⟨-, hid⟩ := madeFor_chunkWithDefaultHlc chunk hchunk
  exact ⟨item.sourceId, chunk.startOffset, hclean, by rw [hid]⟩

theorem named_of_mem_flatMap {items : List IngestItem}
    (hclean : ∀ item ∈ items, CleanSource item.sourceId) :
    ∀ chunk ∈ items.flatMap (·.chunks sub), chunk.Named := by
  intro chunk hchunk
  obtain ⟨item, hitem, hmem⟩ := List.mem_flatMap.mp hchunk
  exact named_of_mem_chunks (hclean item hitem) chunk hmem

/-- The postings of chunks. -/
def PostedTerm (chunks : List (Chunk sub)) (row : TermFreq) : Prop :=
  ∃ chunk ∈ chunks, row ∈ termFreqsOf (sub.idText chunk.id) (defaultKeywordTokens sub chunk.text)

def PostedLen (chunks : List (Chunk sub)) (row : DocLen) : Prop :=
  ∃ chunk ∈ chunks, defaultKeywordTokens sub chunk.text ≠ [] ∧
    row = ⟨sub.idText chunk.id, (defaultKeywordTokens sub chunk.text).length⟩

section Serial

variable {store : InvertedIndexStore} {chunks : List (Chunk sub)}

/-- Chunks indexed one after another add their postings. -/
theorem indexAll_spec (hv5 : Function.Injective sub.newV5) (h : store.tables.Named sub)
    (hchunks : ∀ chunk ∈ chunks, chunk.Named) :
    (store.indexAll chunks).tables.Named sub ∧
      (∀ row, row ∈ (store.indexAll chunks).tables.termFreqs.rows ↔
        row ∈ store.tables.termFreqs.rows ∨ PostedTerm chunks row) ∧
      ∀ row, row ∈ (store.indexAll chunks).tables.docLens.rows ↔
        row ∈ store.tables.docLens.rows ∨ PostedLen chunks row := by
  induction chunks generalizing store with
  | nil =>
    refine ⟨h, fun row => ?_, fun row => ?_⟩
    · simp [InvertedIndexStore.indexAll, PostedTerm]
    · simp [InvertedIndexStore.indexAll, PostedLen]
  | cons chunk chunks ih =>
    rw [List.forall_mem_cons] at hchunks
    have hnamed : (store.indexed (sub.idText chunk.id)
        (defaultKeywordTokens sub chunk.text)).tables.Named sub := h.indexItem hv5 hchunks.1
    obtain ⟨hall, hterms, hlens⟩ := ih hnamed hchunks.2
    refine ⟨hall, fun row => (hterms row).trans ?_, fun row => (hlens row).trans ?_⟩
    · rw [PostedTerm, PostedTerm, List.exists_mem_cons_iff, ← or_assoc]
      exact or_congr_left (PostingTables.mem_termFreqs_indexItem hv5 h hchunks.1)
    · rw [PostedLen, PostedLen, List.exists_mem_cons_iff, ← or_assoc]
      exact or_congr_left (PostingTables.mem_docLens_indexItem hv5 h hchunks.1)

end Serial

section Sharded

variable {chunks : List (Chunk sub)}

theorem PostedTerm.named (hchunks : ∀ chunk ∈ chunks, chunk.Named) {row : TermFreq}
    (h : PostedTerm chunks row) : row.Named sub := by
  obtain ⟨chunk, hchunk, hrow⟩ := h
  exact PostingTables.named_of_mem_termFreqsOf (hchunks chunk hchunk) hrow

theorem PostedLen.named (hchunks : ∀ chunk ∈ chunks, chunk.Named) {row : DocLen}
    (h : PostedLen chunks row) : row.Named sub := by
  obtain ⟨chunk, hchunk, hne, rfl⟩ := h
  exact ⟨chunk.text, hchunks chunk hchunk, hne, rfl⟩

/-- A shard holds the postings of its chunks. -/
theorem shardOf_spec (hv5 : Function.Injective sub.newV5)
    (hchunks : ∀ chunk ∈ chunks, chunk.Named) :
    (∀ row, row ∈ (shardOf (slicePostings chunks)).termFreqs.rows ↔ PostedTerm chunks row) ∧
      ∀ row, row ∈ (shardOf (slicePostings chunks)).docLens.rows ↔ PostedLen chunks row := by
  have hterms : ∀ row : TermFreq, row ∈ ((slicePostings chunks).flatMap fun p =>
      termFreqsOf p.itemId p.tokens) ↔ PostedTerm chunks row := by
    intro row
    simp only [slicePostings, List.mem_flatMap, List.mem_filter, List.mem_map, decide_eq_true_eq,
      PostedTerm]
    constructor
    · rintro ⟨_, ⟨⟨chunk, hchunk, rfl⟩, -⟩, hrow⟩
      exact ⟨chunk, hchunk, hrow⟩
    · rintro ⟨chunk, hchunk, hrow⟩
      refine ⟨.ofChunk chunk, ⟨⟨chunk, hchunk, rfl⟩, fun hnil => ?_⟩, hrow⟩
      have hterm := (mem_termFreqsOf.mp hrow).2.1
      rw [show defaultKeywordTokens sub chunk.text = [] from hnil] at hterm
      exact absurd hterm List.not_mem_nil
  have hlens : ∀ row : DocLen, row ∈ ((slicePostings chunks).map fun p =>
      (⟨p.itemId, p.tokens.length⟩ : DocLen)) ↔ PostedLen chunks row := by
    intro row
    simp only [slicePostings, List.mem_filter, List.mem_map, decide_eq_true_eq, PostedLen]
    constructor
    · rintro ⟨_, ⟨⟨chunk, hchunk, rfl⟩, hne⟩, rfl⟩
      exact ⟨chunk, hchunk, hne, rfl⟩
    · rintro ⟨chunk, hchunk, hne, rfl⟩
      exact ⟨.ofChunk chunk, ⟨⟨chunk, hchunk, rfl⟩, hne⟩, rfl⟩
  refine ⟨fun row => ?_, fun row => ?_⟩
  · have hmem := @RowSet.mem_replaceAll_of_consistent _ _ TermFreq.key RowSet.empty row _ _
      (TermFreq.Named sub) (((slicePostings chunks).flatMap fun p =>
        termFreqsOf p.itemId p.tokens).insertionSort fun a b => termFreqLe a b) (TermFreq.Named.eq hv5)
      (fun a ha => absurd ha (Finset.notMem_empty a))
      (fun a ha => ((hterms a).mp ((List.mem_insertionSort _).mp ha)).named hchunks)
    rw [List.mem_insertionSort, hterms] at hmem
    exact hmem.trans (or_iff_right (Finset.notMem_empty row))
  · have hmem := @RowSet.mem_replaceAll_of_consistent _ _ DocLen.itemId RowSet.empty row _ _
      (DocLen.Named sub) (((slicePostings chunks).map fun p =>
        (⟨p.itemId, p.tokens.length⟩ : DocLen)).insertionSort fun a b => docLenLe a b) (DocLen.Named.eq hv5)
      (fun a ha => absurd ha (Finset.notMem_empty a))
      (fun a ha => ((hlens a).mp ((List.mem_insertionSort _).mp ha)).named hchunks)
    rw [List.mem_insertionSort, hlens] at hmem
    exact hmem.trans (or_iff_right (Finset.notMem_empty row))

/-- Shards merged one after another add the postings of their chunks. -/
theorem overwrite_spec (hv5 : Function.Injective sub.newV5) {tables : PostingTables}
    (h : tables.Named sub) {parts : List (List (Chunk sub))}
    (hparts : ∀ part ∈ parts, ∀ chunk ∈ part, chunk.Named) :
    let merged := parts.foldl (fun t part => t.overwrite (shardOf (slicePostings part))) tables
    merged.Named sub ∧
      (∀ row, row ∈ merged.termFreqs.rows ↔
        row ∈ tables.termFreqs.rows ∨ PostedTerm parts.flatten row) ∧
      ∀ row, row ∈ merged.docLens.rows ↔
        row ∈ tables.docLens.rows ∨ PostedLen parts.flatten row := by
  induction parts generalizing tables with
  | nil =>
    refine ⟨h, fun row => ?_, fun row => ?_⟩
    · simp [PostedTerm]
    · simp [PostedLen]
  | cons part parts ih =>
    rw [List.forall_mem_cons] at hparts
    obtain ⟨hshardTerms, hshardLens⟩ := shardOf_spec hv5 hparts.1
    have hterms : ∀ row, row ∈ (tables.overwrite
        (shardOf (slicePostings part))).termFreqs.rows ↔
          row ∈ tables.termFreqs.rows ∨ PostedTerm part row := by
      intro row
      rw [← hshardTerms]
      exact RowSet.mem_overwrite_of_consistent (TermFreq.Named.eq hv5) h.1
        fun a ha => ((hshardTerms a).mp ha).named hparts.1
    have hlens : ∀ row, row ∈ (tables.overwrite (shardOf (slicePostings part))).docLens.rows ↔
        row ∈ tables.docLens.rows ∨ PostedLen part row := by
      intro row
      rw [← hshardLens]
      exact RowSet.mem_overwrite_of_consistent (DocLen.Named.eq hv5) h.2
        fun a ha => ((hshardLens a).mp ha).named hparts.1
    have hnamed : (tables.overwrite (shardOf (slicePostings part))).Named sub := by
      refine ⟨fun row hrow => ?_, fun row hrow => ?_⟩
      · exact ((hterms row).mp hrow).elim (h.1 row) fun hp => hp.named hparts.1
      · exact ((hlens row).mp hrow).elim (h.2 row) fun hp => hp.named hparts.1
    obtain ⟨hmerged, hmergedTerms, hmergedLens⟩ := ih hnamed hparts.2
    refine ⟨hmerged, fun row => (hmergedTerms row).trans ?_, fun row => (hmergedLens row).trans ?_⟩
    · rw [hterms, or_assoc, List.flatten_cons]
      refine or_congr_right ?_
      simp only [PostedTerm, List.mem_append, or_and_right, exists_or]
    · rw [hlens, or_assoc, List.flatten_cons]
      refine or_congr_right ?_
      simp only [PostedLen, List.mem_append, or_and_right, exists_or]

end Sharded

section Import

variable {c : Corpus sub} {items : List IngestItem}

theorem Corpus.foldl_overwritten (shards : List PostingTables) (c : Corpus sub) :
    shards.foldl Corpus.overwritten c = c.withTables fun t => shards.foldl .overwrite t := by
  induction shards generalizing c with
  | nil => rfl
  | cons shard shards ih =>
    rw [List.foldl_cons, ih]
    rfl

theorem Corpus.foldl_dropCache {ι : Type} (l : List ι) (c : Corpus sub) :
    l.foldl (fun c _ => c.dropCache) c = if l = [] then c else c.dropCache := by
  induction l generalizing c with
  | nil => rfl
  | cons i l ih =>
    rw [List.foldl_cons, ih, if_neg (List.cons_ne_nil i l)]
    split <;> rfl

theorem windows_ne_nil {α : Type} {size : Nat} (hsize : 0 < size) {l : List α} (h : l ≠ []) :
    windows size l ≠ [] := by
  intro hnil
  have hflat := flatten_windows hsize l
  rw [hnil] at hflat
  exact h hflat.symm

theorem Corpus.shardImported_eq (c : Corpus sub) (threads : Threads) (hitems : items ≠ []) :
    c.shardImported threads items =
      { c.storedAll items with
        invertedIndex := { c.invertedIndex with
          tables := (importShards sub threads items).foldl .overwrite c.invertedIndex.tables
          cached := none } } := by
  rw [shardImported, foldl_overwritten, foldl_dropCache,
    if_neg (windows_ne_nil (by decide) hitems)]
  unfold withTables dropCache
  dsimp only
  rw [(storedAll_frame c items).1]

/-- Over named postings the sharded import stores the postings that the serial one stores. -/
theorem Corpus.shardImported_tables (hv5 : Function.Injective sub.newV5)
    (h : c.invertedIndex.tables.Named sub) (hclean : ∀ item ∈ items, CleanSource item.sourceId)
    (threads : Threads) :
    (importShards sub threads items).foldl .overwrite c.invertedIndex.tables =
      (c.invertedIndex.indexAll (items.flatMap (·.chunks sub))).tables := by
  obtain ⟨parts, hshards, hparts⟩ := @exists_importShards sub threads items
  have hnamed := @named_of_mem_flatMap sub items hclean
  have hpartsNamed : ∀ part ∈ parts, ∀ chunk ∈ part, chunk.Named := fun part hpart chunk hchunk =>
    hnamed chunk ((hparts chunk).mp (List.mem_flatten.mpr ⟨part, hpart, hchunk⟩))
  obtain ⟨-, hterms, hlens⟩ := indexAll_spec hv5 h hnamed
  obtain ⟨-, hterms', hlens'⟩ := overwrite_spec hv5 h hpartsNamed
  rw [hshards, List.foldl_map]
  apply PostingTables.ext
  · apply RowSet.ext
    intro row
    rw [hterms, hterms']
    refine or_congr_right ?_
    simp only [PostedTerm, hparts]
  · apply RowSet.ext
    intro row
    rw [hlens, hlens']
    refine or_congr_right ?_
    simp only [PostedLen, hparts]

end Import

section Invariant

variable {weighting : ImpactWeighting} {c : Corpus sub}

/-- The items that a call brings. -/
def CorpusCall.items : CorpusCall sub → List IngestItem
  | .ingest item => [item]
  | .ingestBatch items | .ingestBatchImport _ items => items
  | _ => []

/-- The items a call brings are of clean sources. -/
def CorpusCall.Clean (call : CorpusCall sub) : Prop :=
  ∀ item ∈ call.items, CleanSource item.sourceId

/-- The postings are named, and no cached index is older than they are. -/
structure Corpus.Posted (weighting : ImpactWeighting) (c : Corpus sub) : Prop where
  named : c.invertedIndex.tables.Named sub
  fresh : c.invertedIndex.Fresh weighting

theorem Corpus.Posted.congr {c' : Corpus sub} (h : c.Posted weighting)
    (hindex : c'.invertedIndex = c.invertedIndex) : c'.Posted weighting :=
  ⟨hindex ▸ h.named, hindex ▸ h.fresh⟩

theorem Corpus.Posted.indexAll (hv5 : Function.Injective sub.newV5) {c' : Corpus sub}
    (h : c.Posted weighting) {items : List IngestItem}
    (hclean : ∀ item ∈ items, CleanSource item.sourceId)
    (hindex : c'.invertedIndex = c.invertedIndex.indexAll (items.flatMap (·.chunks sub))) :
    c'.Posted weighting := by
  have hfresh : ∀ chunks : List (Chunk sub), (c.invertedIndex.indexAll chunks).Fresh weighting := by
    intro chunks
    induction chunks using List.reverseRecOn with
    | nil => exact h.fresh
    | append_singleton chunks chunk _ =>
      rw [InvertedIndexStore.indexAll, List.foldl_append]
      exact .of_none rfl
  constructor
  · rw [hindex]
    exact (indexAll_spec hv5 h.named (named_of_mem_flatMap hclean)).1
  · rw [hindex]
    exact hfresh _

theorem Corpus.Posted.removed (h : c.Posted weighting) (sourceId : String) :
    (c.removed sourceId).Posted weighting := by
  have hall : ∀ (chunks : List (Chunk sub)) (store : InvertedIndexStore),
      store.tables.Named sub ∧ store.Fresh weighting →
        (removedIndex store chunks).tables.Named sub ∧
          (removedIndex store chunks).Fresh weighting := by
    intro chunks
    induction chunks with
    | nil => exact fun _ h => h
    | cons chunk chunks ih =>
      exact fun store h => ih _ ⟨h.1.deleteItem _, .of_none rfl⟩
  obtain ⟨vectors, heq⟩ := removed_eq c sourceId
  obtain ⟨hnamed, hfresh⟩ := hall (c.chunksForSource sourceId) _ ⟨h.named, h.fresh⟩
  rw [heq]
  exact ⟨hnamed, hfresh⟩

/-- Calls on clean sources keep the postings named and the cached index fresh. -/
theorem Corpus.Posted.effect (hv5 : Function.Injective sub.newV5) (h : c.Posted weighting)
    (threads : Threads) {call : CorpusCall sub} (hclean : call.Clean) :
    (call.effect weighting threads c).Posted weighting := by
  cases call with
  | ingest item =>
    refine h.indexAll hv5 hclean ?_
    rw [CorpusCall.items, List.flatMap_singleton]
    exact (ingested_frame c item).2.1
  | ingestBatch items => exact h.indexAll hv5 hclean (batchIngested_frame c items).2.1
  | ingestBatchImport onDisk items =>
    show Corpus.Posted weighting (if items = [] then c
      else if onDisk then c.shardImported threads items else c.filedAll items)
    by_cases hnil : items = []
    · rw [if_pos hnil]
      exact h
    rw [if_neg hnil]
    cases onDisk with
    | false => exact h.indexAll hv5 hclean (filedAll_frame c items).2.1
    | true =>
      rw [if_pos rfl, shardImported_eq c threads hnil]
      have hitems : ∀ item ∈ items, CleanSource item.sourceId := hclean
      refine ⟨?_, .of_none rfl⟩
      dsimp only
      rw [shardImported_tables hv5 h.named hitems threads]
      exact (indexAll_spec hv5 h.named (named_of_mem_flatMap hitems)).1
  | remove sourceId => exact h.removed sourceId
  | expunge sourceId =>
    have hscrubbed : (c.scrubText sourceId).Posted weighting := h.congr rfl
    exact hscrubbed.removed sourceId
  | reindex nowMillis => exact h.congr (reindexed_frame c _).2.1
  | setEncodeSpeed speed => exact h.congr rfl
  | search tokens k =>
    exact ⟨h.named, h.fresh.after_queried tokens k .default .blockMaxWand⟩
  | destroyRecallIndex => exact ⟨PostingTables.named_empty, .of_none rfl⟩
  | reopen models => exact ⟨h.named, .of_none rfl⟩

theorem Reachable.posted (hv5 : Function.Injective sub.newV5)
    (h : Reachable weighting CorpusCall.Clean c) : c.Posted weighting := by
  refine h.invariant (fun models c hopen => ?_) fun call threads c ih hclean =>
    ih.effect hv5 threads hclean
  unfold openMany at hopen
  split at hopen
  next => cases hopen
  next =>
    cases hopen
    exact ⟨PostingTables.named_empty, .of_none rfl⟩

end Invariant

theorem ReferenceCorpus.reachable_opened {weighting : ImpactWeighting}
    {allowed : CorpusCall referenceCorpus → Prop}
    {models : List (EmbeddingModelConfig referenceCorpus)} (h : models ≠ []) :
    Reachable weighting allowed (ReferenceCorpus.opened models) :=
  .opened (if_neg h)

section Agreement

/-- The sharded import comes to what the serial one comes to, whatever the workers do: the chunks,
the roots, the removed sources, the map to sources, the postings, the counts, and every answer of a
keyword search. -/
theorem ingestBatchImportSharded_eq_serial (floats : QueryFloats)
    (hv5 : Function.Injective sub.newV5) {c : Corpus sub}
    (hreach : Reachable floats.weighting CorpusCall.Clean c) (threads : Threads)
    {items : List IngestItem} (hclean : ∀ item ∈ items, CleanSource item.sourceId)
    {s s' t t' : Session sub} (hs : s.corpus = c) (ht : t.corpus = c)
    (hsharded : ingestBatchImportSharded threads items s = .ok () s')
    (hserial : ingestBatchImportSerial items t = .ok () t') :
    s'.corpus.estate = t'.corpus.estate ∧
      s'.corpus.invertedIndex.tables = t'.corpus.invertedIndex.tables ∧
      s'.corpus.countStates = t'.corpus.countStates ∧
      ∀ query limit, (s'.corpus.bm25TopKBySource floats query limit).1 =
        (t'.corpus.bm25TopKBySource floats query limit).1 := by
  have hposted := hreach.posted hv5
  have hs' := (does_ingestBatchImportSharded threads items).of_ok
    (steady_ingestBatchImportSharded threads items) hsharded
  have ht' := (does_ingestBatchImportSerial items).of_ok
    (steady_ingestBatchImportSerial items) hserial
  rw [hs] at hs'
  rw [ht] at ht'
  by_cases hnil : items = []
  · subst hnil
    have hnone : c.shardImported threads [] = c := by
      have htables := Corpus.shardImported_tables hv5 hposted.named hclean threads
      rw [Corpus.shardImported, Corpus.foldl_overwritten]
      exact congrArg (fun tables => c.withTables fun _ => tables) htables
    have hsame : s'.corpus = t'.corpus := by
      rw [hs', ht', hnone]
      rfl
    rw [hsame]
    exact ⟨rfl, rfl, rfl, fun _ _ => rfl⟩
  obtain ⟨hestate, hindex, -, -, hcounts⟩ := Corpus.filedAll_frame c items
  have heq := Corpus.shardImported_eq c threads hnil
  have htables : s'.corpus.invertedIndex.tables = t'.corpus.invertedIndex.tables := by
    rw [hs', ht', heq, hindex]
    exact Corpus.shardImported_tables hv5 hposted.named hclean threads
  have hmap : s'.corpus.chunkSourceMap = t'.corpus.chunkSourceMap := by
    rw [hs', ht', heq]
    exact (congrArg Corpus.Estate.chunkSourceMap hestate).symm
  refine ⟨?_, htables, ?_, fun query limit => ?_⟩
  · rw [hs', ht', heq, hestate]
    rfl
  · rw [hs', ht', heq, hcounts]
    rfl
  · refine Corpus.bm25TopKBySource_congr ?_ ?_ htables hmap query limit
    · rw [hs', heq]
      exact .of_none rfl
    · rw [ht']
      exact (hposted.indexAll hv5 hclean hindex).fresh

theorem ingestBatchImportSharded_eq_serial_reference :
    (((ReferenceCorpus.opened [.plain (.fixed "m") []]).shardImported ReferenceCorpus.oneThread
        [⟨"alpha", "s", 0⟩, ⟨"alpha beta", "t", 7⟩]).bm25TopKBySource
          ReferenceCorpus.floats "alpha" 3).1 =
      (((ReferenceCorpus.opened [.plain (.fixed "m") []]).filedAll
        [⟨"alpha", "s", 0⟩, ⟨"alpha beta", "t", 7⟩]).bm25TopKBySource
          ReferenceCorpus.floats "alpha" 3).1 :=
  (ingestBatchImportSharded_eq_serial ReferenceCorpus.floats Function.injective_id
    (ReferenceCorpus.reachable_opened (List.cons_ne_nil _ _)) ReferenceCorpus.oneThread
    (by decide +kernel) rfl rfl
    (does_ingestBatchImportSharded _ _ _) (does_ingestBatchImportSerial _ _)).2.2.2 "alpha" 3

/-- Two chunks of one id: the sources and texts run together to one name. The serial import leaves
the postings of the second, the sharded one those of both. -/
theorem sharded_ne_serial :
    ∃ (c : Corpus referenceCorpus) (items : List IngestItem)
      (s t : Session referenceCorpus),
      Reachable ReferenceCorpus.floats.weighting (fun _ => True) c ∧
        ingestBatchImportSharded ReferenceCorpus.oneThread items ⟨c, []⟩ = .ok () s ∧
        ingestBatchImportSerial items ⟨c, []⟩ = .ok () t ∧
        s.corpus.invertedIndex.tables ≠ t.corpus.invertedIndex.tables := by
  refine ⟨ReferenceCorpus.opened [.plain (.fixed "m") []],
    [⟨"beta\x1f0\x1falpha", "x", 0⟩, ⟨"alpha", "x\x1f0\x1fbeta", 0⟩], _, _,
    ReferenceCorpus.reachable_opened (List.cons_ne_nil _ _),
    does_ingestBatchImportSharded _ _ _, does_ingestBatchImportSerial _ _, ?_⟩
  intro h
  have hsharded : (⟨"beta", "x\x1f0\x1fbeta\x1f0\x1falpha", 1⟩ : TermFreq) ∈
      ((ReferenceCorpus.opened [.plain (.fixed "m") []]).shardImported ReferenceCorpus.oneThread
        [⟨"beta\x1f0\x1falpha", "x", 0⟩,
          ⟨"alpha", "x\x1f0\x1fbeta", 0⟩]).invertedIndex.tables.termFreqs.rows := by
    decide +kernel
  have hserial : (⟨"beta", "x\x1f0\x1fbeta\x1f0\x1falpha", 1⟩ : TermFreq) ∉
      ((ReferenceCorpus.opened [.plain (.fixed "m") []]).filedAll
        [⟨"beta\x1f0\x1falpha", "x", 0⟩,
          ⟨"alpha", "x\x1f0\x1fbeta", 0⟩]).invertedIndex.tables.termFreqs.rows := by
    decide +kernel
  exact hserial (h ▸ hsharded)

end Agreement

end MootMemory
