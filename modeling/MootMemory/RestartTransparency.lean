import MootMemory.CorpusAnswers
import MootMemory.CorpusBooks
import MootMemory.ShardAgreement
import MootMemory.VectorRuns

namespace MootMemory

variable {sub : CorpusSubstrate} {floats : QueryFloats} {probes : Probes sub floats}

namespace Corpus

variable {c : Corpus sub} {models : List (EmbeddingModelConfig sub)}

section Sources

variable {item : IngestItem} {items : List IngestItem} {chunks : List (Chunk sub)}

/-- No chunk has the id of a stored chunk, or of another one of them, that is of another source. -/
def KeepsSources (c : Corpus sub) (chunks : List (Chunk sub)) : Prop :=
  ∀ chunk ∈ chunks,
    (∀ row ∈ c.storage.chunks.rows, row.id = chunk.id → row.chunk.sourceId = chunk.sourceId) ∧
      ∀ other ∈ chunks, other.id = chunk.id → other.sourceId = chunk.sourceId

theorem chunkSourceMap_stored (c : Corpus sub) (sourceId : String) (chunks : List (Chunk sub))
    (id : sub.ChunkId) : (c.stored sourceId chunks).chunkSourceMap id =
      if ∃ chunk ∈ chunks, chunk.id = id then some sourceId else c.chunkSourceMap id := by
  have hfold : ∀ (chunks : List (Chunk sub)) (csm : sub.ChunkId → Option String),
      chunks.foldl (fun (csm : sub.ChunkId → Option String) (chunk : Chunk sub) =>
        Function.update csm chunk.id (some sourceId)) csm id =
        if ∃ chunk ∈ chunks, chunk.id = id then some sourceId else csm id := by
    intro chunks
    induction chunks using List.reverseRecOn with
    | nil => simp
    | append_singleton chunks chunk ih =>
      intro csm
      rw [List.foldl_append, List.foldl_cons, List.foldl_nil]
      by_cases hid : id = chunk.id
      · rw [hid, Function.update_self, if_pos ⟨chunk, by simp, rfl⟩]
      · have hiff : (∃ chunk' ∈ chunks ++ [chunk], chunk'.id = id) ↔
            ∃ chunk' ∈ chunks, chunk'.id = id := by
          simp [List.mem_append, or_and_right, exists_or, Ne.symm hid]
        rw [Function.update_of_ne hid, ih]
        simp only [hiff]
  unfold stored
  split
  next hnil => simp [hnil]
  next =>
    obtain ⟨rows, metadata, hbundled⟩ := bundled_eq chunks (c.clearRemoved sourceId)
    rw [hbundled]
    unfold foldCounts
    split <;> exact hfold chunks c.chunkSourceMap

/-- Stored chunks are in the map as they are in the table. -/
theorem mapped_stored (h : c.chunkSourceMap = c.storage.sourceOf) {sourceId : String}
    (hsource : ∀ chunk ∈ chunks, chunk.sourceId = sourceId) (hkeeps : c.KeepsSources chunks) :
    (c.stored sourceId chunks).chunkSourceMap = (c.stored sourceId chunks).storage.sourceOf := by
  funext id
  rw [chunkSourceMap_stored, CorpusStorage.sourceOf, chunks_stored]
  split
  next hex =>
    obtain ⟨chunk, hchunk, rfl⟩ := hex
    obtain ⟨row, hrow, hid⟩ := exists_mem_addChunks hchunk c
    have hfind := KeyedTable.find?_of_mem hrow
    rw [show ChunkRow.id row = chunk.id from hid] at hfind
    rw [hfind, Option.map_some]
    rcases mem_addChunks hrow with hold | ⟨chunk', hchunk', rfl⟩
    · rw [(hkeeps chunk hchunk).1 row hold hid, hsource chunk hchunk]
    · rw [hsource chunk' hchunk']
  next hnone =>
    have hfind : (c.addChunks chunks).storage.chunks.find? id = c.storage.chunks.find? id := by
      cases hold : c.storage.chunks.find? id with
      | none =>
        rw [KeyedTable.find?_eq_none_iff] at hold ⊢
        intro row hrow
        rcases mem_addChunks hrow with hmem | ⟨chunk, hchunk, rfl⟩
        · exact hold row hmem
        · exact fun hid => hnone ⟨chunk, hchunk, hid⟩
      | some row =>
        rw [KeyedTable.find?_eq_some_iff] at hold ⊢
        exact ⟨mem_addChunks_of_mem hold.1 chunks, hold.2⟩
    rw [hfind, h]
    rfl

theorem mapped_storedAll (h : c.chunkSourceMap = c.storage.sourceOf)
    (hkeeps : c.KeepsSources (items.flatMap (·.chunks sub))) :
    (c.storedAll items).chunkSourceMap = (c.storedAll items).storage.sourceOf := by
  induction items generalizing c with
  | nil => exact h
  | cons item items ih =>
    rw [List.flatMap_cons] at hkeeps
    have hleft : c.KeepsSources (item.chunks sub) := fun chunk hchunk =>
      ⟨(hkeeps chunk (List.mem_append_left _ hchunk)).1, fun other hother =>
        (hkeeps chunk (List.mem_append_left _ hchunk)).2 other (List.mem_append_left _ hother)⟩
    refine ih (mapped_stored h (fun chunk hchunk =>
      (madeFor_chunkWithDefaultHlc chunk hchunk).1) hleft) fun chunk hchunk => ⟨?_, ?_⟩
    · intro row hrow hid
      rw [chunks_stored] at hrow
      rcases mem_addChunks hrow with hold | ⟨chunk', hchunk', rfl⟩
      · exact (hkeeps chunk (List.mem_append_right _ hchunk)).1 row hold hid
      · exact (hkeeps chunk (List.mem_append_right _ hchunk)).2 chunk'
          (List.mem_append_left _ hchunk') hid
    · exact fun other hother =>
        (hkeeps chunk (List.mem_append_right _ hchunk)).2 other (List.mem_append_right _ hother)

theorem mapped_of_estate {d e : Corpus sub} (hestate : d.estate = e.estate)
    (h : e.chunkSourceMap = e.storage.sourceOf) : d.chunkSourceMap = d.storage.sourceOf := by
  have hmap : d.chunkSourceMap = e.chunkSourceMap := congrArg Estate.chunkSourceMap hestate
  have hchunks : d.storage.chunks = e.storage.chunks := congrArg Estate.chunks hestate
  rw [hmap, h]
  funext id
  rw [CorpusStorage.sourceOf, CorpusStorage.sourceOf, hchunks]

/-- A source without chunks is only marked. -/
theorem removed_of_empty {sourceId : String} (h : c.sourceRows sourceId = []) :
    c.removed sourceId = c.markRemoved sourceId := by
  have hchunks : c.chunksForSource sourceId = [] := by
    rw [chunksForSource, h]
    rfl
  unfold removed
  rw [hchunks]
  rfl

theorem scrubText_of_empty {sourceId : String} (h : c.sourceRows sourceId = []) :
    c.scrubText sourceId = c := by
  have hrows : (c.storage.chunks.rows.map fun row =>
      if row.chunk.sourceId = sourceId then { row with chunk.text := "" } else row) =
        c.storage.chunks.rows := by
    conv_rhs => rw [← List.map_id c.storage.chunks.rows]
    refine List.map_congr_left fun row hrow => ?_
    have hne := List.filter_eq_nil_iff.mp h row hrow
    rw [decide_eq_true_eq] at hne
    rw [if_neg hne]
    rfl
  have htable : (c.scrubText sourceId).storage.chunks = c.storage.chunks :=
    KeyedTable.eq_of_rows_eq hrows
  show c.withChunks (c.scrubText sourceId).storage.chunks = c
  rw [htable]
  rfl

end Sources

section Serving

/-- What loading a model from the stored basis would serve. -/
def loaded (c : Corpus sub) (model : EmbeddingModelConfig sub) : sub.State :=
  (buildSlot c.storage model).handle

/-- The slots are those of the models, and serve what would be loaded. -/
def ServesLoaded (probes : Probes sub floats) (models : List (EmbeddingModelConfig sub))
    (c : Corpus sub) : Prop :=
  c.origins = models.map (fun model => (model.kind, model.factory)) ∧
    ∀ (i : Nat) (model : EmbeddingModelConfig sub) (served : sub.Kind × sub.State × Option Blob),
      models[i]? = some model → c.serving[i]? = some served →
        probes.Alike served.1 served.2.1 (c.loaded model)

theorem loaded_congr {d : Corpus sub} {model : EmbeddingModelConfig sub}
    (h : d.storage.basis.find? (sub.key model.kind) = c.storage.basis.find? (sub.key model.kind)) :
    d.loaded model = c.loaded model := by
  cases model with
  | plain kind state => rfl
  | trainable kind state =>
    show loadProvider d.storage kind state = loadProvider c.storage kind state
    unfold loadProvider
    rw [show d.storage.basis.find? (sub.key kind) = c.storage.basis.find? (sub.key kind) from h]

theorem servesLoaded_invariant (hdistinct : (models.map (·.modelId)).Nodup)
    (hbasis : ∀ kind state, probes.Alike kind state
      (sub.reconstructBasis kind (sub.serializeBasis kind state))) :
    ServingInvariant (ServesLoaded probes models) := by
  constructor
  · rintro c d ⟨horigins, hserves⟩ hserving hsame
    refine ⟨(origins_of_serving hserving).trans horigins, fun i model served hmodel hserved => ?_⟩
    rw [hserving] at hserved
    rw [loaded_congr (c := c) (by rw [hsame])]
    exact hserves i model served hmodel hserved
  · rintro c ⟨horigins, hserves⟩ i chunks nowSecs
    refine ⟨origins_retrained.trans horigins, fun j model served hmodel hserved => ?_⟩
    rw [serving, List.getElem?_map, slots_retrained, List.getElem?_modify] at hserved
    obtain ⟨slot', hslot', rfl⟩ := Option.map_eq_some_iff.mp hserved
    obtain ⟨slot, hslot, rfl⟩ := Option.map_eq_some_iff.mp hslot'
    have horigin : slot.origin = (model.kind, model.factory) := by
      have hget := congrArg (·[j]?) horigins
      rw [origins] at hget
      simpa [hslot, hmodel] using hget
    have hkind : slot.kind = model.kind := congrArg Prod.fst horigin
    have hblob : slot.freshBasisBlob = model.factory := congrArg Prod.snd horigin
    have hold := hserves j model slot.serving hmodel (by rw [serving, List.getElem?_map, hslot]; rfl)
    by_cases hi : i = j
    · subst hi
      rw [if_pos rfl]
      cases model with
      | plain kind state =>
        rw [ProviderSlot.retrained_of_none hblob]
        exact hold
      | trainable kind state =>
        have hblob' : slot.freshBasisBlob = some (sub.serializeBasis kind state) := hblob
        have hkind' : slot.kind = kind := hkind
        subst hkind'
        have hrow : (c.retrained i chunks nowSecs).storage.basis.find? slot.key =
            some ⟨slot.key, sub.serializeBasis slot.kind
              (slot.trained (sub.serializeBasis slot.kind state) chunks), nowSecs,
              chunks.length⟩ := by
          rw [basis_retrained, hslot, Option.bind_some, ProviderSlot.basisRow, hblob']
          exact KeyedTable.find?_put_self
        have hloaded : (c.retrained i chunks nowSecs).loaded (.trainable slot.kind state) =
            sub.reconstructBasis slot.kind (sub.serializeBasis slot.kind
              (slot.trained (sub.serializeBasis slot.kind state) chunks)) := by
          show loadProvider _ slot.kind state = _
          unfold loadProvider
          rw [show sub.key slot.kind = slot.key from rfl, hrow]
        rw [hloaded, ProviderSlot.serving_retrained hblob']
        exact hbasis slot.kind _
    · rw [if_neg hi]
      have hfind : (c.retrained i chunks nowSecs).storage.basis.find? (sub.key model.kind) =
          c.storage.basis.find? (sub.key model.kind) := by
        rw [basis_retrained]
        cases hrow : (c.slots[i]?).bind fun slot => slot.basisRow chunks nowSecs with
        | none => rfl
        | some row =>
          refine KeyedTable.find?_put_of_ne fun hkey => hi ?_
          obtain ⟨trained, htrained, hbasisRow⟩ := Option.bind_eq_some_iff.mp hrow
          obtain ⟨blob, -, rfl⟩ := Option.map_eq_some_iff.mp hbasisRow
          have hids := modelIds_of_models horigins
          have hnodup : (c.slots.map (·.modelId)).Nodup := hids ▸ hdistinct
          have hsame : trained.modelId = slot.modelId := by
            rw [← hkind] at hkey
            exact congrArg ModelKey.modelId hkey.symm
          have hlt : i < (c.slots.map (·.modelId)).length := by
            rw [List.length_map]
            exact (List.getElem?_eq_some_iff.mp htrained).1
          refine (List.getElem?_inj hlt hnodup).mp ?_
          rw [List.getElem?_map, List.getElem?_map, htrained, hslot, Option.map_some,
            Option.map_some, hsame]
      rw [loaded_congr hfind]
      exact hold

end Serving

section Resident

variable {slots : List (ProviderSlot sub)} {items : List IngestItem} {v v' : VectorStore}

/-- Residents that follow the table answer as the table does. -/
theorem findNearest_of_coherent (h : v.Coherent) (htable : v.table = c.storage.vectors)
    (hclean : v.state.deferredIndexDirty = false) {order : IterationOrder CodeEntry}
    {probe : Engram} {modelId : String} {k : Nat} {found : List VectorMatch}
    (hrun : VectorStore.findNearest order probe modelId k v = .ok found v') :
    found = c.findNearest probe modelId k := by
  obtain ⟨-, -, hfound⟩ := VectorStore.findNearest_coherent h hrun
  rw [hfound hclean, htable, findNearest]
  split
  next hk =>
    rw [hk, VectorTable.nearestRows, nearest_zero]
    rfl
  next => rfl

theorem of_mem_chunkRows {kind : sub.Kind} {state : sub.State} {filedAtSecs : Int}
    {chunk : Chunk sub} {row : VectorPayloadInput}
    (h : row ∈ chunkRows kind state filedAtSecs chunk) :
    row.itemId = sub.idText chunk.id ∧ row.WellSized := by
  unfold chunkRows at h
  dsimp only at h
  rcases List.mem_cons.mp h with rfl | hfloats
  · exact ⟨rfl, fun _ => Engram.length_wireBytes _⟩
  · split at hfloats
    next => cases hfloats
    next =>
      obtain rfl := List.mem_singleton.mp hfloats
      exact ⟨rfl, fun hkind => by cases hkind⟩

theorem of_mem_itemRows {item : IngestItem} {row : VectorPayloadInput}
    (h : row ∈ itemRows slots item) :
    (∃ chunk ∈ item.chunks sub, row.itemId = sub.idText chunk.id) ∧ row.WellSized := by
  obtain ⟨slot, -, hslot⟩ := List.mem_flatMap.mp h
  obtain ⟨chunk, hchunk, hrow⟩ := List.mem_flatMap.mp hslot
  obtain ⟨hitem, hsize⟩ := of_mem_chunkRows hrow
  exact ⟨⟨chunk, hchunk, hitem⟩, hsize⟩

theorem nodup_rowsOfItem (hslots : (slots.map (·.modelId)).Nodup) (item : IngestItem)
    (h : ((item.chunks sub).map (·.id)).Nodup) :
    ((itemRows slots item).map (·.key.triple)).Nodup := by
  rw [itemRows, List.map_flatMap, List.nodup_flatMap]
  refine ⟨fun slot _ => nodup_slotRows slot item.nowSecs h, ?_⟩
  rw [List.Nodup, List.pairwise_map] at hslots
  refine hslots.imp fun {a b} hne => ?_
  rw [Function.onFun, List.disjoint_left]
  intro triple ha hb
  obtain ⟨row, hrow, rfl⟩ := List.mem_map.mp ha
  obtain ⟨row', hrow', heq⟩ := List.mem_map.mp hb
  have hmodel : row'.modelId = row.modelId := congrArg (fun triple => triple.2.2) heq
  exact hne ((modelId_of_mem_slotRows hrow).symm.trans
    (hmodel.symm.trans (modelId_of_mem_slotRows hrow')))

/-- The rows of chunks with distinct ids have distinct places. -/
theorem nodup_itemRows (hslots : (slots.map (·.modelId)).Nodup)
    (h : ((items.flatMap (·.chunks sub)).map (·.id)).Nodup) :
    ((items.flatMap (itemRows slots)).map (·.key.triple)).Nodup := by
  rw [List.map_flatMap, List.nodup_flatMap] at h ⊢
  refine ⟨fun item hitem => nodup_rowsOfItem hslots item (h.1 item hitem), ?_⟩
  refine h.2.imp fun {a b} hdisjoint => ?_
  rw [Function.onFun, List.disjoint_left] at hdisjoint ⊢
  intro triple ha hb
  obtain ⟨row, hrow, rfl⟩ := List.mem_map.mp ha
  obtain ⟨row', hrow', heq⟩ := List.mem_map.mp hb
  obtain ⟨⟨chunk, hchunk, hid⟩, -⟩ := of_mem_itemRows hrow
  obtain ⟨⟨chunk', hchunk', hid'⟩, -⟩ := of_mem_itemRows hrow'
  have hitem : row'.itemId = row.itemId := congrArg Prod.fst heq
  have hsame : chunk.id = chunk'.id :=
    sub.idText_injective (hid.symm.trans (hitem.symm.trans hid'))
  exact hdisjoint (List.mem_map_of_mem hchunk) (hsame ▸ List.mem_map_of_mem hchunk')

/-- Where the ids of the chunks are distinct, the residents answer as the table does once the rows
of a batch are written. -/
theorem findNearest_afterItemRows (h : v.Coherent) (htable : v.table = c.storage.vectors)
    (hslots : (slots.map (·.modelId)).Nodup)
    (hids : ((items.flatMap (·.chunks sub)).map (·.id)).Nodup)
    (hreplaces : v.table.ReplacesAll (items.flatMap (itemRows slots)))
    (hrun : VectorStore.addPayloads (items.flatMap (itemRows slots)) v = .ok () v')
    (hclean : v'.state.deferredIndexDirty = false) {order : IterationOrder CodeEntry}
    {probe : Engram} {modelId : String} {k : Nat} {found : List VectorMatch} {v'' : VectorStore}
    (hsearch : VectorStore.findNearest order probe modelId k v' = .ok found v'') :
    found = (c.upserted (items.flatMap (itemRows slots))).findNearest probe modelId k := by
  have hkeys : ((VectorStore.binaryInputs (items.flatMap (itemRows slots))).map (·.1)).Nodup := by
    have hall := nodup_itemRows hslots hids
    rw [← Function.comp_def VectorRecordKey.triple, ← List.map_map] at hall
    rw [VectorStore.binaryInputs, List.map_map]
    exact (hall.of_map _).sublist (List.filter_sublist.map _)
  have hsizes : ∀ input ∈ items.flatMap (itemRows slots), input.WellSized := by
    intro input hinput
    obtain ⟨item, -, hrow⟩ := List.mem_flatMap.mp hinput
    exact (of_mem_itemRows hrow).2
  have hcoherent := VectorStore.addPayloads_coherent h hsizes hreplaces hkeys hrun
  refine findNearest_of_coherent hcoherent ?_ hclean hsearch
  rw [VectorStore.table_of_addPayloads_ok hrun, htable]
  rfl

end Resident

end Corpus

section Restart

variable {c : Corpus sub} {models : List (EmbeddingModelConfig sub)}

/-- The corpus has in memory what would be loaded from its tables. -/
structure Corpus.AsLoaded (probes : Probes sub floats) (models : List (EmbeddingModelConfig sub))
    (c : Corpus sub) : Prop where
  held : models ≠ []
  chunkSourceMap : c.chunkSourceMap = c.storage.sourceOf
  fresh : c.invertedIndex.Fresh floats.weighting
  serves : c.ServesLoaded probes models
  accumulated : c.Accumulated
  counts : c.countStates = models.map fun model => (buildSlot c.storage model).counts

theorem Corpus.asLoaded_reopened (hheld : models ≠ []) (c : Corpus sub) :
    (c.reopened models).AsLoaded probes models := by
  refine ⟨hheld, rfl, .of_none rfl, ⟨?_, ?_⟩, ?_, ?_⟩
  · rw [origins, reopened, List.map_map]
    exact List.map_congr_left fun model _ => origin_buildSlot c.storage model
  · intro i model served hmodel hserved
    rw [serving, reopened, List.map_map, List.getElem?_map, hmodel] at hserved
    obtain rfl := Option.some.inj hserved
    exact fun query => ⟨rfl, rfl⟩
  · intro book hbook blob hblob state hstate
    rw [books, reopened, List.map_map, List.mem_map] at hbook
    obtain ⟨model, -, rfl⟩ := hbook
    cases model with
    | plain kind st => cases hblob
    | trainable kind st =>
      obtain rfl := Option.some.inj hblob
      obtain rfl := Option.some.inj hstate
      show Accumulator kind _ (loadCounts c.storage kind _).accumulator
      unfold loadCounts
      dsimp only
      cases c.storage.counts.find? (sub.key kind) with
      | none => exact .base
      | some row => exact .restored row.counts
  · rw [countStates, reopened, List.map_map]
    rfl

/-- The step lets a restart go unnoticed: an import folds no counts, what is removed has no chunks,
no id is shared by two sources, and no two chunks whose rows go to the vector store in one batch
have one id. -/
def CorpusCall.RestartSafe (models : List (EmbeddingModelConfig sub)) (c : Corpus sub) :
    CorpusCall sub → Prop
  | .ingest item => c.KeepsSources (item.chunks sub) ∧ ((item.chunks sub).map (·.id)).Nodup
  | .ingestBatch items => c.KeepsSources (items.flatMap (·.chunks sub)) ∧
      ((items.flatMap (·.chunks sub)).map (·.id)).Nodup
  | .ingestBatchImport _ items => c.KeepsSources (items.flatMap (·.chunks sub)) ∧
      c.CountsNothing (items.flatMap (·.chunks sub))
  | .remove sourceId | .expunge sourceId => c.sourceRows sourceId = []
  | .reindex _ | .setEncodeSpeed _ | .search _ _ => True
  | .destroyRecallIndex => False
  | .reopen models' => models' = models

namespace Corpus.AsLoaded

theorem congr {d : Corpus sub} (h : c.AsLoaded probes models) (hestate : d.estate = c.estate)
    (hfresh : d.invertedIndex.Fresh floats.weighting) (hserving : d.serving = c.serving)
    (hbasis : d.storage.basis = c.storage.basis) (hcounts : d.countStates = c.countStates)
    (hstored : d.storage.counts = c.storage.counts) : d.AsLoaded probes models := by
  have hloaded : ∀ model : EmbeddingModelConfig sub,
      (buildSlot d.storage model).counts = (buildSlot c.storage model).counts := by
    intro model
    cases model with
    | plain kind state => rfl
    | trainable kind state =>
      refine congrArg some ?_
      unfold loadCounts
      rw [hstored]
  have horigins := origins_of_serving hserving
  refine ⟨h.held, mapped_of_estate hestate h.chunkSourceMap, hfresh, ⟨?_, ?_⟩,
    h.accumulated.congr horigins hcounts, ?_⟩
  · exact horigins.trans h.serves.1
  · intro i model served hmodel hserved
    have hsame : d.loaded model = c.loaded model := loaded_congr (by rw [hbasis])
    rw [hserving] at hserved
    rw [hsame]
    exact h.serves.2 i model served hmodel hserved
  · rw [hcounts, h.counts]
    exact List.map_congr_left fun model _ => (hloaded model).symm

/-- What holds after a call that ends by storing the counts. -/
theorem of_persisted (hdistinct : (models.map (·.modelId)).Nodup)
    (hcounts : ∀ kind factory acc, Accumulator kind factory acc →
      sub.restoreCounts kind (sub.reconstructBasis kind factory) (sub.serializeCounts kind acc) = acc)
    {d e : Corpus sub} {nowSecs : Int} (he : e = d.persisted nowSecs) (hheld : models ≠ [])
    (hmap : e.chunkSourceMap = e.storage.sourceOf)
    (hfresh : e.invertedIndex.Fresh floats.weighting) (hserves : e.ServesLoaded probes models)
    (haccumulated : e.Accumulated) : e.AsLoaded probes models := by
  subst he
  have horigins : d.origins = (d.persisted nowSecs).origins := by
    rw [origins, origins, slots_persisted]
  have hstates : d.countStates = (d.persisted nowSecs).countStates := by
    rw [countStates, countStates, slots_persisted]
  refine ⟨hheld, hmap, hfresh, hserves, haccumulated, ?_⟩
  rw [← hstates]
  exact countStates_persisted hdistinct hcounts (horigins.trans hserves.1)
    (haccumulated.congr horigins hstates) nowSecs

variable (hdistinct : (models.map (·.modelId)).Nodup)
  (hbasis : ∀ kind state, probes.Alike kind state
    (sub.reconstructBasis kind (sub.serializeBasis kind state)))
  (hcounts : ∀ kind factory acc, Accumulator kind factory acc →
    sub.restoreCounts kind (sub.reconstructBasis kind factory) (sub.serializeCounts kind acc) = acc)

theorem fresh_indexAll {store : InvertedIndexStore} (h : store.Fresh floats.weighting)
    (chunks : List (Chunk sub)) : (store.indexAll chunks).Fresh floats.weighting := by
  induction chunks using List.reverseRecOn with
  | nil => exact h
  | append_singleton chunks chunk _ =>
    rw [InvertedIndexStore.indexAll, List.foldl_append]
    exact .of_none rfl

include hdistinct hbasis hcounts

theorem ingested (h : c.AsLoaded probes models) {item : IngestItem}
    (hkeeps : c.KeepsSources (item.chunks sub)) : (c.ingested item).AsLoaded probes models := by
  by_cases hchunks : item.chunks sub = []
  · unfold Corpus.ingested
    rw [if_pos hchunks]
    exact h
  obtain ⟨hestate, hindex, horigins, hstates⟩ := ingested_frame c item
  refine of_persisted hdistinct hcounts (if_neg hchunks) h.held ?_ ?_ ?_ ?_
  · exact mapped_of_estate hestate (mapped_stored h.chunkSourceMap
      (fun chunk hchunk => (madeFor_chunkWithDefaultHlc chunk hchunk).1) hkeeps)
  · rw [hindex]
    exact fresh_indexAll h.fresh _
  · exact (servesLoaded_invariant hdistinct hbasis).ingested h.serves item
  · exact (h.accumulated.stored item.sourceId (item.chunks sub)).congr
      (horigins.trans (origins_of_serving serving_stored).symm) hstates

theorem batchIngested (h : c.AsLoaded probes models) {items : List IngestItem}
    (hkeeps : c.KeepsSources (items.flatMap (·.chunks sub))) :
    (c.batchIngested items).AsLoaded probes models := by
  cases items with
  | nil => exact h
  | cons first rest =>
    obtain ⟨hestate, hindex, horigins, hstates⟩ := batchIngested_frame c (first :: rest)
    refine of_persisted hdistinct hcounts rfl h.held ?_ ?_ ?_ ?_
    · exact mapped_of_estate hestate (mapped_storedAll h.chunkSourceMap hkeeps)
    · rw [hindex]
      exact fresh_indexAll h.fresh _
    · exact (servesLoaded_invariant hdistinct hbasis).batchIngested h.serves _
    · exact (h.accumulated.storedAll (first :: rest)).congr
        (horigins.trans (origins_of_serving (storedAll_frame c _).2.2.2).symm) hstates

theorem reindexed (h : c.AsLoaded probes models) (nowSecs : Int) :
    (c.reindexed nowSecs).AsLoaded probes models := by
  obtain ⟨hestate, hindex, horigins, hstates⟩ := reindexed_frame c nowSecs
  refine of_persisted hdistinct hcounts rfl h.held (mapped_of_estate hestate h.chunkSourceMap) ?_
    ((servesLoaded_invariant hdistinct hbasis).reindexed h.serves nowSecs)
    (h.accumulated.congr horigins hstates)
  rw [hindex]
  exact h.fresh

omit hdistinct hbasis hcounts

/-- What an import does to everything but the postings, where it folds no counts. -/
theorem filed (h : c.AsLoaded probes models) {items : List IngestItem}
    (hkeeps : c.KeepsSources (items.flatMap (·.chunks sub)))
    (hnothing : c.CountsNothing (items.flatMap (·.chunks sub))) {index : InvertedIndexStore}
    (hfresh : index.Fresh floats.weighting) :
    Corpus.AsLoaded probes models { c.storedAll items with invertedIndex := index } := by
  obtain ⟨-, -, hbasis, hserving⟩ := storedAll_frame c items
  have hstates := countStates_storedAll hnothing
  have hstored : (c.storedAll items).storage.counts = c.storage.counts := by
    have hall : ∀ (items : List IngestItem) (c : Corpus sub),
        (c.storedAll items).storage.counts = c.storage.counts := by
      intro items
      induction items with
      | nil => exact fun _ => rfl
      | cons item items ih => exact fun c => (ih _).trans counts_stored
    exact hall items c
  have horigins := origins_of_serving hserving
  refine ⟨h.held, mapped_storedAll h.chunkSourceMap hkeeps, hfresh, ⟨horigins.trans h.serves.1, ?_⟩,
    h.accumulated.congr horigins hstates, ?_⟩
  · intro i model served hmodel hserved
    have hsame : (c.storedAll items).loaded model = c.loaded model :=
      loaded_congr (by rw [hbasis])
    have hserved' : (c.storedAll items).serving[i]? = some served := hserved
    rw [hserving] at hserved'
    exact hsame ▸ h.serves.2 i model served hmodel hserved'
  · refine hstates.trans (h.counts.trans (List.map_congr_left fun model _ => ?_))
    cases model with
    | plain kind state => rfl
    | trainable kind state =>
      refine congrArg some ?_
      unfold loadCounts
      dsimp only
      rw [hstored]

theorem marked (h : c.AsLoaded probes models) (sourceId : String) :
    (c.markRemoved sourceId).AsLoaded probes models :=
  ⟨h.held, h.chunkSourceMap, h.fresh, h.serves, h.accumulated, h.counts⟩

include hdistinct hbasis hcounts

theorem effect (h : c.AsLoaded probes models) (threads : Threads) {call : CorpusCall sub}
    (hsafe : call.RestartSafe models c) :
    (call.effect floats.weighting threads c).AsLoaded probes models := by
  cases call with
  | ingest item => exact h.ingested hdistinct hbasis hcounts hsafe.1
  | ingestBatch items => exact h.batchIngested hdistinct hbasis hcounts hsafe.1
  | ingestBatchImport onDisk items =>
    obtain ⟨hkeeps, hnothing⟩ := hsafe
    show Corpus.AsLoaded probes models (if items = [] then c
      else if onDisk then c.shardImported threads items else c.filedAll items)
    by_cases hnil : items = []
    · rw [if_pos hnil]
      exact h
    rw [if_neg hnil]
    cases onDisk with
    | true =>
      rw [if_pos rfl, shardImported_eq c threads hnil]
      exact h.filed hkeeps hnothing (.of_none rfl)
    | false =>
      rw [if_neg Bool.false_ne_true]
      obtain ⟨index, hindex⟩ := foldl_indexed_eq (items.flatMap (·.chunks sub)) (c.storedAll items)
      have hfiled : (c.filedAll items).invertedIndex = index := by
        rw [filedAll, hindex]
      rw [filedAll, hindex, ← hfiled, (filedAll_frame c items).2.1]
      exact h.filed hkeeps hnothing (fresh_indexAll h.fresh _)
  | remove sourceId =>
    show (c.removed sourceId).AsLoaded probes models
    rw [removed_of_empty hsafe]
    exact h.marked sourceId
  | expunge sourceId =>
    show ((c.scrubText sourceId).removed sourceId).AsLoaded probes models
    rw [scrubText_of_empty hsafe, removed_of_empty hsafe]
    exact h.marked sourceId
  | reindex nowMillis => exact h.reindexed hdistinct hbasis hcounts _
  | setEncodeSpeed speed =>
    exact ⟨h.held, h.chunkSourceMap, h.fresh, h.serves, h.accumulated, h.counts⟩
  | search tokens k =>
    have hfresh := h.fresh.after_queried tokens k .default .blockMaxWand
    exact ⟨h.held, h.chunkSourceMap, hfresh, h.serves, h.accumulated, h.counts⟩
  | destroyRecallIndex => exact absurd hsafe id
  | reopen models' =>
    obtain rfl := hsafe
    exact asLoaded_reopened h.held c

end Corpus.AsLoaded

end Restart

end MootMemory
