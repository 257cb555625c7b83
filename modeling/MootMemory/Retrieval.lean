import MootMemory.CallFrames
import MootMemory.ChunkProvenance
import MootMemory.NamedPostings
import MootMemory.Reindexing

namespace MootMemory

variable {sub : CorpusSubstrate}

namespace Corpus

variable {c : Corpus sub} {chunks : List (Chunk sub)} {chunk : Chunk sub} {row : ChunkRow sub}

/-- A stored row under the id of one of the chunks has the chunk's text. -/
def KeepsTexts (c : Corpus sub) (chunks : List (Chunk sub)) : Prop :=
  ∀ chunk ∈ chunks, ∀ row ∈ c.storage.chunks.rows, row.id = chunk.id → row.chunk.text = chunk.text

/-- The chunk can be found and read: its row has its text, its postings are those of the text, and
every slot has a code for it. -/
structure Retrieves (c : Corpus sub) (chunk : Chunk sub) : Prop where
  row : ∃ row ∈ c.storage.chunks.rows, row.id = chunk.id ∧ row.chunk.text = chunk.text
  terms : ∀ row : TermFreq, row.itemId = sub.idText chunk.id →
    (row ∈ c.invertedIndex.tables.termFreqs.rows ↔
      row ∈ termFreqsOf (sub.idText chunk.id) (defaultKeywordTokens sub chunk.text))
  length : ∀ row : DocLen, row.itemId = sub.idText chunk.id →
    (row ∈ c.invertedIndex.tables.docLens.rows ↔ defaultKeywordTokens sub chunk.text ≠ [] ∧
      row.length = (defaultKeywordTokens sub chunk.text).length)
  vectors : ∀ slot ∈ c.slots, ∃ x ∈ c.storage.vectors.inputs,
    x.itemId = sub.idText chunk.id ∧ x.vectorIndex = 0 ∧ x.modelId = slot.modelId

section Rows

theorem rows_addChunk (c : Corpus sub) (chunk : Chunk sub) :
    (c.addChunk chunk).storage.chunks.rows = c.storage.chunks.rows ∧
        (∃ row ∈ c.storage.chunks.rows, row.id = chunk.id) ∨
      (c.addChunk chunk).storage.chunks.rows =
        c.storage.chunks.rows ++ [⟨chunk, sub.leaf chunk.id chunk.text⟩] := by
  unfold addChunk
  cases hinsert : c.storage.chunks.insert? ⟨chunk, sub.leaf chunk.id chunk.text⟩ with
  | none => exact Or.inl ⟨rfl, KeyedTable.insert?_eq_none_iff.mp hinsert⟩
  | some rows => exact Or.inr (KeyedTable.insert?_eq_some_iff.mp hinsert).2

/-- Rows stay, and those that come are of the chunks. -/
theorem mem_addChunks (h : row ∈ (c.addChunks chunks).storage.chunks.rows) :
    row ∈ c.storage.chunks.rows ∨
      ∃ chunk ∈ chunks, row = ⟨chunk, sub.leaf chunk.id chunk.text⟩ := by
  induction chunks generalizing c with
  | nil => exact Or.inl h
  | cons chunk chunks ih =>
    rcases ih h with hrow | ⟨chunk', hmem, hrow⟩
    · rcases rows_addChunk c chunk with ⟨hrows, -⟩ | hrows
      · exact Or.inl (hrows ▸ hrow)
      · rw [hrows, List.mem_append, List.mem_singleton] at hrow
        exact hrow.imp_right fun hrow => ⟨chunk, List.mem_cons_self, hrow⟩
    · exact Or.inr ⟨chunk', List.mem_cons_of_mem _ hmem, hrow⟩

theorem mem_addChunks_of_mem (h : row ∈ c.storage.chunks.rows) (chunks : List (Chunk sub)) :
    row ∈ (c.addChunks chunks).storage.chunks.rows := by
  induction chunks generalizing c with
  | nil => exact h
  | cons chunk chunks ih =>
    refine ih ?_
    rcases rows_addChunk c chunk with ⟨hrows, -⟩ | hrows
    · rwa [hrows]
    · rw [hrows]
      exact List.mem_append_left _ h

theorem exists_mem_addChunks (h : chunk ∈ chunks) (c : Corpus sub) :
    ∃ row ∈ (c.addChunks chunks).storage.chunks.rows, row.id = chunk.id := by
  induction chunks generalizing c with
  | nil => exact absurd h List.not_mem_nil
  | cons first chunks ih =>
    rcases List.mem_cons.mp h with rfl | h
    · rcases rows_addChunk c chunk with ⟨hrows, row, hrow, hid⟩ | hrows
      · exact ⟨row, mem_addChunks_of_mem (hrows ▸ hrow) chunks, hid⟩
      · refine ⟨⟨chunk, sub.leaf chunk.id chunk.text⟩, mem_addChunks_of_mem ?_ chunks, rfl⟩
        rw [hrows]
        exact List.mem_append_right _ (List.mem_singleton.mpr rfl)
    · exact ih h (c.addChunk first)

theorem chunks_stored (c : Corpus sub) (sourceId : String) (chunks : List (Chunk sub)) :
    (c.stored sourceId chunks).storage.chunks = (c.addChunks chunks).storage.chunks := by
  have hroll : ∀ (sources : List String) (d : Corpus sub),
      (sources.foldl rollup d).storage.chunks = d.storage.chunks := by
    intro sources d
    obtain ⟨metadata, h⟩ := foldl_rollup_eq sources d
    rw [h]
  have hclear : ∀ (chunks : List (Chunk sub)) (c d : Corpus sub),
      c.storage.chunks = d.storage.chunks →
        (c.addChunks chunks).storage.chunks = (d.addChunks chunks).storage.chunks := by
    intro chunks
    induction chunks with
    | nil => exact fun _ _ h => h
    | cons chunk chunks ih =>
      intro c d h
      refine ih _ _ ?_
      unfold addChunk
      rw [h]
      cases d.storage.chunks.insert? ⟨chunk, sub.leaf chunk.id chunk.text⟩ with
      | none => exact h
      | some rows => rfl
  unfold stored
  split
  next hnil => rw [hnil]; rfl
  next =>
    rw [(foldCounts_frame _ _).2.1]
    exact (hroll _ _).trans (hclear chunks _ _ rfl)

theorem removedSources_stored (c : Corpus sub) (sourceId : String) (hchunks : chunks ≠ []) :
    (c.stored sourceId chunks).storage.removedSources =
      c.storage.removedSources.erase sourceId := by
  obtain ⟨rows, metadata, h⟩ := bundled_eq chunks (c.clearRemoved sourceId)
  unfold stored
  rw [if_neg hchunks, (foldCounts_frame _ _).2.1, h]
  rfl

end Rows

section Postings

/-- Where the chunks of one id have one list of tokens, that list decides the postings. -/
theorem indexAll_postings {store : InvertedIndexStore} {itemId : String} {tokens : List String}
    (hsame : ∀ chunk ∈ chunks, sub.idText chunk.id = itemId →
      defaultKeywordTokens sub chunk.text = tokens)
    (hex : ∃ chunk ∈ chunks, sub.idText chunk.id = itemId) :
    (∀ row : TermFreq, row.itemId = itemId →
      (row ∈ (store.indexAll chunks).tables.termFreqs.rows ↔ row ∈ termFreqsOf itemId tokens)) ∧
      ∀ row : DocLen, row.itemId = itemId →
        (row ∈ (store.indexAll chunks).tables.docLens.rows ↔
          tokens ≠ [] ∧ row.length = tokens.length) := by
  induction chunks using List.reverseRecOn with
  | nil =>
    obtain ⟨chunk, hchunk, -⟩ := hex
    exact absurd hchunk List.not_mem_nil
  | append_singleton chunks chunk ih =>
    have hlast : (store.indexAll (chunks ++ [chunk])).tables =
        (store.indexAll chunks).tables.indexItem (sub.idText chunk.id)
          (defaultKeywordTokens sub chunk.text) := by
      rw [InvertedIndexStore.indexAll, List.foldl_append]
      rfl
    rw [hlast]
    by_cases hitem : sub.idText chunk.id = itemId
    · rw [hsame chunk (List.mem_append_right _ (List.mem_singleton.mpr rfl)) hitem, hitem]
      refine ⟨fun row hrow => ?_, fun row hrow => ?_⟩
      · rw [PostingTables.mem_termFreqs_indexItem_iff, if_pos hrow]
      · rw [PostingTables.mem_docLens_indexItem_iff, if_pos hrow]
    · have hex' : ∃ chunk ∈ chunks, sub.idText chunk.id = itemId := by
        obtain ⟨chunk', hchunk', hid⟩ := hex
        rcases List.mem_append.mp hchunk' with hchunk' | hchunk'
        · exact ⟨chunk', hchunk', hid⟩
        · exact absurd (List.mem_singleton.mp hchunk' ▸ hid) hitem
      obtain ⟨hterms, hlens⟩ := ih (fun c hc => hsame c (List.mem_append_left _ hc)) hex'
      refine ⟨fun row hrow => ?_, fun row hrow => ?_⟩
      · rw [PostingTables.mem_termFreqs_indexItem_iff, if_neg (by rw [hrow]; exact Ne.symm hitem)]
        exact hterms row hrow
      · rw [PostingTables.mem_docLens_indexItem_iff, if_neg (by rw [hrow]; exact Ne.symm hitem)]
        exact hlens row hrow

end Postings

section Codes

/-- The table has a code for the item under the model. -/
def HasCode (table : VectorTable) (itemId modelId : String) : Prop :=
  ∃ x ∈ table.inputs, x.itemId = itemId ∧ x.vectorIndex = 0 ∧ x.modelId = modelId

variable {table : VectorTable} {itemId modelId : String} {batch : List VectorPayloadInput}

theorem HasCode.of_triple {x y : VectorPayloadInput} (hy : y ∈ table.inputs)
    (h : y.key.triple = x.key.triple) (hitem : x.itemId = itemId) (hindex : x.vectorIndex = 0)
    (hmodel : x.modelId = modelId) : HasCode table itemId modelId :=
  ⟨y, hy, (congrArg Prod.fst h).trans hitem, (congrArg (·.2.1) h).trans hindex,
    (congrArg (·.2.2) h).trans hmodel⟩

theorem HasCode.upsertAll (h : HasCode table itemId modelId) :
    HasCode (table.upsertAll batch) itemId modelId := by
  obtain ⟨x, hx, hitem, hindex, hmodel⟩ := h
  by_cases hex : ∃ b ∈ batch, b.key.triple = x.key.triple
  · obtain ⟨b, hb, hkey⟩ := hex
    obtain ⟨y, -, hy, hmem⟩ := @VectorTable.exists_mem_upsertAll table b batch hb
    exact .of_triple hmem (hy.trans hkey) hitem hindex hmodel
  · push Not at hex
    exact ⟨x, VectorTable.mem_upsertAll_of_mem hx hex, hitem, hindex, hmodel⟩

theorem hasCode_upsertAll {x : VectorPayloadInput} (hx : x ∈ batch) (hitem : x.itemId = itemId)
    (hindex : x.vectorIndex = 0) (hmodel : x.modelId = modelId) :
    HasCode (table.upsertAll batch) itemId modelId := by
  obtain ⟨y, -, hy, hmem⟩ := @VectorTable.exists_mem_upsertAll table x batch hx
  exact .of_triple hmem hy hitem hindex hmodel

/-- Among the rows of a chunk under a slot is a code. -/
theorem exists_code_mem_slotRows (slot : ProviderSlot sub) (filedAtSecs : Int)
    (h : chunk ∈ chunks) : ∃ x ∈ slotRows slot filedAtSecs chunks,
      x.itemId = sub.idText chunk.id ∧ x.vectorIndex = 0 ∧ x.modelId = slot.modelId := by
  refine ⟨_, List.mem_flatMap.mpr ⟨chunk, h, List.mem_cons_self⟩, rfl, rfl, rfl⟩

/-- A slot re-embedded for chunks has codes for them, and the codes of other slots stay. -/
theorem hasCode_reembedded {all : List (Chunk sub)} (hnodup : (all.map (·.id)).Nodup)
    (hchunk : ∃ active ∈ all, active.id = chunk.id) (c : Corpus sub) (i : Nat)
    (filedAtSecs : Int) :
    (∀ modelId, HasCode c.storage.vectors (sub.idText chunk.id) modelId →
      HasCode (c.reembedded i all filedAtSecs).storage.vectors (sub.idText chunk.id) modelId) ∧
    ∀ slot, c.slots[i]? = some slot →
      HasCode (c.reembedded i all filedAtSecs).storage.vectors (sub.idText chunk.id)
        slot.modelId := by
  have hinputs := inputs_reembedded hnodup c i filedAtSecs
  obtain ⟨active, hactive, hid⟩ := hchunk
  cases hslot : c.slots[i]? with
  | none =>
    rw [hslot, Option.elim_none] at hinputs
    refine ⟨fun modelId h => ?_, fun slot h => by cases h⟩
    obtain ⟨x, hx, hcode⟩ := h
    exact ⟨x, hinputs ▸ hx, hcode⟩
  | some slot =>
    rw [hslot, Option.elim_some, replaceBatch, slotBatch] at hinputs
    obtain ⟨new, hnew, hitem, hindex, hmodel⟩ := exists_code_mem_slotRows slot filedAtSecs hactive
    rw [hid] at hitem
    have hmem : new ∈ (c.reembedded i all filedAtSecs).storage.vectors.inputs := by
      rw [hinputs]
      exact List.mem_append_right _ hnew
    refine ⟨fun modelId h => ?_, fun slot' h => ?_⟩
    · by_cases hsame : modelId = slot.modelId
      · exact ⟨new, hmem, hitem, hindex, hmodel.trans hsame.symm⟩
      · obtain ⟨x, hx, hitem', hindex', hmodel'⟩ := h
        refine ⟨x, ?_, hitem', hindex', hmodel'⟩
        rw [hinputs]
        refine List.mem_append_left _ (List.mem_filter.mpr ⟨hx, ?_⟩)
        rw [decide_eq_true_eq, hmodel']
        exact hsame
    · obtain rfl := Option.some.inj h
      exact ⟨new, hmem, hitem, hindex, hmodel⟩

theorem modelIds_retrained (c : Corpus sub) (i : Nat) (all : List (Chunk sub)) (nowSecs : Int) :
    (c.retrained i all nowSecs).slots.map (·.modelId) = c.slots.map (·.modelId) := by
  have horigins : (c.retrained i all nowSecs).origins = c.origins := origins_retrained
  have hmap : ∀ c : Corpus sub, c.slots.map (·.modelId) =
      c.origins.map fun origin => (sub.key origin.1).modelId := by
    intro c
    rw [origins, List.map_map]
    rfl
  rw [hmap, hmap, horigins]

/-- Of the slots gone through, those that are trained have codes for the chunks trained on. -/
theorem hasCode_firstTrained {all : List (Chunk sub)} (hnodup : (all.map (·.id)).Nodup)
    (hchunk : ∃ active ∈ all, active.id = chunk.id) (nowSecs : Int) (slots : List Nat)
    (c : Corpus sub) :
    (∀ modelId, HasCode c.storage.vectors (sub.idText chunk.id) modelId →
      HasCode (firstTrained all nowSecs slots c).2.storage.vectors (sub.idText chunk.id)
        modelId) ∧
    ∀ i ∈ slots, ∀ modelId, (c.slots.map (·.modelId))[i]? = some modelId →
      i ∈ (firstTrained all nowSecs slots c).1 ∨
        HasCode (firstTrained all nowSecs slots c).2.storage.vectors (sub.idText chunk.id)
          modelId := by
  induction slots generalizing c with
  | nil => exact ⟨fun _ h => h, fun _ hi => absurd hi List.not_mem_nil⟩
  | cons j slots ih =>
    unfold firstTrained
    split
    next =>
      obtain ⟨hkept, hslots⟩ := ih ((c.retrained j all nowSecs).reembedded j all nowSecs)
      obtain ⟨hkept', hnew⟩ := hasCode_reembedded hnodup hchunk (c.retrained j all nowSecs) j
        nowSecs
      rw [vectors_retrained] at hkept'
      have hmodels : ((c.retrained j all nowSecs).reembedded j all nowSecs).slots.map (·.modelId) =
          c.slots.map (·.modelId) := by
        rw [slots_reembedded, modelIds_retrained]
      refine ⟨fun modelId h => hkept modelId (hkept' modelId h), fun i hi modelId hmodel => ?_⟩
      rcases List.mem_cons.mp hi with rfl | hi
      · right
        refine hkept modelId ?_
        rw [← modelIds_retrained c i all nowSecs, List.getElem?_map, Option.map_eq_some_iff]
          at hmodel
        obtain ⟨slot, hslot, rfl⟩ := hmodel
        exact hnew slot hslot
      · exact hslots i hi modelId (by rw [hmodels]; exact hmodel)
    next =>
      obtain ⟨hkept, hslots⟩ := ih c
      refine ⟨hkept, fun i hi modelId hmodel => ?_⟩
      rcases List.mem_cons.mp hi with rfl | hi
      · exact Or.inl List.mem_cons_self
      · exact (hslots i hi modelId hmodel).imp_left (List.mem_cons_of_mem _)

end Codes

section Item

variable {item : IngestItem}

theorem text_eq_of_id_eq (hv5 : Function.Injective sub.newV5) {chunk' : Chunk sub}
    (h : chunk ∈ item.chunks sub) (h' : chunk' ∈ item.chunks sub) (hid : chunk.id = chunk'.id) :
    chunk.text = chunk'.text := by
  rw [(madeFor_chunkWithDefaultHlc chunk h).2, (madeFor_chunkWithDefaultHlc chunk' h').2] at hid
  exact (chunkName_inj (hv5 hid)).2

/-- Where stored rows keep their texts, the row under a chunk's id has its text and source. -/
theorem row_of_stored (hv5 : Function.Injective sub.newV5) (hmade : c.Made)
    (htexts : c.KeepsTexts (item.chunks sub)) (hchunk : chunk ∈ item.chunks sub)
    (hrow : row ∈ (c.stored item.sourceId (item.chunks sub)).storage.chunks.rows)
    (hid : row.id = chunk.id) :
    row.chunk.text = chunk.text ∧ row.chunk.sourceId = item.sourceId := by
  rw [chunks_stored] at hrow
  rcases mem_addChunks hrow with hold | ⟨chunk', hchunk', rfl⟩
  · have htext := htexts chunk hchunk row hold hid
    obtain ⟨text, hmadeId, hmadeText⟩ := hmade row hold
    have hsame : text = chunk.text := by
      rcases hmadeText with h | h
      · rw [← h, htext]
      · exact absurd (htext.symm.trans h) (text_ne_of_mem_chunkWithDefaultHlc chunk hchunk)
    rw [hmadeId, (madeFor_chunkWithDefaultHlc chunk hchunk).2, hsame] at hid
    exact ⟨htext, (chunkName_inj_of_text (hv5 hid)).1⟩
  · exact ⟨text_eq_of_id_eq hv5 hchunk' hchunk hid,
      (madeFor_chunkWithDefaultHlc chunk' hchunk').1⟩

/-- Of each chunk there is an active one in the estate that it was stored in. -/
theorem exists_active (hv5 : Function.Injective sub.newV5) (hmade : c.Made)
    (htexts : c.KeepsTexts (item.chunks sub)) (hchunk : chunk ∈ item.chunks sub) {d : Corpus sub}
    (hestate : d.estate = (c.stored item.sourceId (item.chunks sub)).estate) :
    ∃ active ∈ d.activeChunks, active.id = chunk.id := by
  have hrows : d.storage.chunks = (c.stored item.sourceId (item.chunks sub)).storage.chunks :=
    congrArg Estate.chunks hestate
  have hremoved : d.storage.removedSources =
      (c.stored item.sourceId (item.chunks sub)).storage.removedSources :=
    congrArg Estate.removedSources hestate
  obtain ⟨row, hrow, hid⟩ := exists_mem_addChunks hchunk c
  rw [← chunks_stored c item.sourceId] at hrow
  obtain ⟨-, hsource⟩ := row_of_stored hv5 hmade htexts hchunk hrow hid
  refine ⟨row.chunk, List.mem_filter.mpr ⟨?_, ?_⟩, hid⟩
  · rw [allChunks, List.mem_insertionSort, hrows]
    exact List.mem_map_of_mem hrow
  · rw [decide_eq_true_eq, hremoved, removedSources_stored c _ (List.ne_nil_of_mem hchunk), hsource]
    exact Finset.notMem_erase _ _

theorem modelIds_of_origins {d : Corpus sub} (h : c.origins = d.origins) :
    c.slots.map (·.modelId) = d.slots.map (·.modelId) := by
  have hmap : ∀ c : Corpus sub, c.slots.map (·.modelId) =
      c.origins.map fun origin => (sub.key origin.1).modelId := by
    intro c
    rw [origins, List.map_map]
    rfl
  rw [hmap, hmap, h]

/-- An ingested item has codes for its chunks under every slot. -/
theorem hasCode_ingested (hv5 : Function.Injective sub.newV5) (hmade : c.Made)
    (htexts : c.KeepsTexts (item.chunks sub)) (hchunk : chunk ∈ item.chunks sub)
    {slot : ProviderSlot sub} (hslot : slot ∈ (c.ingested item).slots) :
    HasCode (c.ingested item).storage.vectors (sub.idText chunk.id) slot.modelId := by
  have hne : item.chunks sub ≠ [] := List.ne_nil_of_mem hchunk
  have hestate : (c.filed item).estate = (c.stored item.sourceId (item.chunks sub)).estate := by
    rw [filed, estate_foldl_indexed]
  have hactive := exists_active hv5 hmade htexts hchunk hestate
  have hfiled : (c.filed item).origins = c.origins :=
    origins_of_serving (serving_filed c item)
  unfold ingested at hslot ⊢
  rw [if_neg hne] at hslot ⊢
  dsimp only at hslot ⊢
  rw [slots_persisted, foldedIn, slots_upserted] at hslot
  rw [vectors_persisted, foldedIn, vectors_upserted]
  obtain ⟨i, hi⟩ := List.mem_iff_getElem?.mp hslot
  obtain ⟨-, hslots⟩ := hasCode_firstTrained (nodup_activeChunks (c.filed item)) hactive
    item.nowSecs (List.range c.slots.length) (c.filed item)
  obtain ⟨-, -, horigins, -⟩ := firstTrained_frame (c.filed item).activeChunks item.nowSecs
    (List.range c.slots.length) (c.filed item)
  have hmodel : ((c.filed item).slots.map (·.modelId))[i]? = some slot.modelId := by
    rw [← modelIds_of_origins horigins, List.getElem?_map, hi]
    rfl
  have hrange : i ∈ List.range c.slots.length := by
    rw [List.mem_range, ← length_slots_of_origins hfiled]
    by_contra hout
    rw [List.getElem?_eq_none (by rw [List.length_map]; omega)] at hmodel
    cases hmodel
  rcases hslots i hrange slot.modelId hmodel with hleft | hcode
  · obtain ⟨x, hx, hitem, hindex, hmodelId⟩ :=
      exists_code_mem_slotRows slot item.nowSecs hchunk
    refine hasCode_upsertAll (List.mem_flatMap.mpr ⟨i, hleft, ?_⟩) hitem hindex hmodelId
    unfold rowsOfSlot
    rw [hi]
    exact hx
  · exact hcode.upsertAll

theorem hasCode_batchIngested (hchunk : chunk ∈ item.chunks sub) {slot : ProviderSlot sub}
    (hslot : slot ∈ (c.batchIngested [item]).slots) :
    HasCode (c.batchIngested [item]).storage.vectors (sub.idText chunk.id) slot.modelId := by
  unfold batchIngested at hslot ⊢
  dsimp only at hslot ⊢
  rw [slots_persisted, slots_upserted] at hslot
  rw [vectors_persisted, vectors_upserted]
  obtain ⟨x, hx, hitem, hindex, hmodel⟩ := exists_code_mem_slotRows slot item.nowSecs hchunk
  refine hasCode_upsertAll ?_ hitem hindex hmodel
  exact List.mem_flatMap.mpr ⟨item, List.mem_singleton.mpr rfl,
    List.mem_flatMap.mpr ⟨slot, hslot, hx⟩⟩

/-- After an item is filed its chunks can be found and read just when the rows that were there under
their ids have their texts. -/
theorem retrieves_iff_of_effect (hv5 : Function.Injective sub.newV5) (hmade : c.Made)
    {d : Corpus sub} (hestate : d.estate = (c.stored item.sourceId (item.chunks sub)).estate)
    (hindex : d.invertedIndex = c.invertedIndex.indexAll (item.chunks sub))
    (hcodes : c.KeepsTexts (item.chunks sub) → ∀ chunk ∈ item.chunks sub, ∀ slot ∈ d.slots,
      HasCode d.storage.vectors (sub.idText chunk.id) slot.modelId) :
    (∀ chunk ∈ item.chunks sub, d.Retrieves chunk) ↔ c.KeepsTexts (item.chunks sub) := by
  have hrows : d.storage.chunks = (c.stored item.sourceId (item.chunks sub)).storage.chunks :=
    congrArg Estate.chunks hestate
  constructor
  · intro h chunk hchunk row hrow hid
    obtain ⟨row', hrow', hid', htext⟩ := (h chunk hchunk).row
    have hkept : row ∈ d.storage.chunks.rows := by
      rw [hrows, chunks_stored]
      exact mem_addChunks_of_mem hrow _
    rw [KeyedTable.eq_of_key_eq hkept hrow' (hid.trans hid'.symm)]
    exact htext
  · intro htexts chunk hchunk
    obtain ⟨row, hrow, hid⟩ := exists_mem_addChunks hchunk c
    rw [← chunks_stored c item.sourceId] at hrow
    obtain ⟨hterms, hlens⟩ := @indexAll_postings sub (item.chunks sub) c.invertedIndex
      (sub.idText chunk.id) (defaultKeywordTokens sub chunk.text)
      (fun chunk' hchunk' hid' => congrArg (defaultKeywordTokens sub)
        (text_eq_of_id_eq hv5 hchunk' hchunk (sub.idText_injective hid')))
      ⟨chunk, hchunk, rfl⟩
    refine ⟨⟨row, hrows ▸ hrow, hid, (row_of_stored hv5 hmade htexts hchunk hrow hid).1⟩,
      fun row hrow => ?_, fun row hrow => ?_, hcodes htexts chunk hchunk⟩
    · rw [hindex]
      exact hterms row hrow
    · rw [hindex]
      exact hlens row hrow

end Item

end Corpus

section Calls

/-- An item that is ingested, alone or as a batch, can be found and read by all its chunks just when
no row under one of their ids has another text: such a row, as an expunge leaves it, stays. -/
theorem ingest_retrieves_iff {weighting : ImpactWeighting} {allowed : CorpusCall sub → Prop}
    (hv5 : Function.Injective sub.newV5) {s s' : Session sub}
    (hvisited : Visited weighting allowed s.corpus) {item : IngestItem} {call : CorpusCall sub}
    (hcall : call = .ingest item ∨ call = .ingestBatch [item]) {threads : Threads}
    (hrun : call.run weighting threads s = .ok () s') :
    (∀ chunk ∈ item.chunks sub, s'.corpus.Retrieves chunk) ↔
      s.corpus.KeepsTexts (item.chunks sub) := by
  have heffect := corpus_of_run call hrun
  rcases hcall with rfl | rfl
  · obtain ⟨hestate, hindex, -, -⟩ := Corpus.ingested_frame s.corpus item
    rw [heffect]
    exact Corpus.retrieves_iff_of_effect hv5 hvisited.made hestate hindex
      fun htexts chunk hchunk slot hslot =>
        Corpus.hasCode_ingested hv5 hvisited.made htexts hchunk hslot
  · obtain ⟨hestate, hindex, -, -⟩ := Corpus.batchIngested_frame s.corpus [item]
    rw [List.flatMap_singleton] at hindex
    rw [heffect]
    exact Corpus.retrieves_iff_of_effect hv5 hvisited.made hestate hindex
      fun _ chunk hchunk slot hslot => Corpus.hasCode_batchIngested hchunk hslot

/-- A corpus from which the one source it had was removed. -/
def ReferenceCorpus.removedOnce : Corpus referenceCorpus :=
  ((opened [.trainable (.trained "1") []]).ingested ⟨"alpha beta", "s", 0⟩).removed "s"

/-- A text that is ingested again after it was removed is there: its row still has the text. -/
theorem ingest_retrieves_iff_removed :
    (∀ chunk ∈ (⟨"alpha beta", "s", 0⟩ : IngestItem).chunks referenceCorpus,
      ¬ReferenceCorpus.removedOnce.Retrieves chunk) ∧
    ∀ chunk ∈ (⟨"alpha beta", "s", 0⟩ : IngestItem).chunks referenceCorpus,
      (ReferenceCorpus.removedOnce.ingested ⟨"alpha beta", "s", 0⟩).Retrieves chunk := by
  have hopened : Visited ReferenceCorpus.floats.weighting (fun _ => True)
      (ReferenceCorpus.opened [.trainable (.trained "1") []]) :=
    .opened (if_neg (List.cons_ne_nil _ _))
  have hingest : ∀ c : Corpus referenceCorpus,
      ingest ReferenceCorpus.oneThread ⟨"alpha beta", "s", 0⟩ ⟨c, []⟩ =
        .ok () ⟨c.ingested ⟨"alpha beta", "s", 0⟩, []⟩ :=
    ingest_faultless _ fun _ => by decide
  have hfirst := @Visited.of_ok _ _ _ ReferenceCorpus.oneThread ⟨_, []⟩ ⟨_, []⟩ hopened
    (.ingest ⟨"alpha beta", "s", 0⟩) trivial (hingest _)
  have hremoved := @Visited.of_ok _ _ _ ReferenceCorpus.oneThread ⟨_, []⟩ ⟨_, []⟩ hfirst
    (.remove "s") trivial (does_remove "s" _)
  have hdark : ∀ chunk ∈ (⟨"alpha beta", "s", 0⟩ : IngestItem).chunks referenceCorpus,
      ¬ReferenceCorpus.removedOnce.Retrieves chunk := by
    have hcodes : ∀ chunk ∈ (⟨"alpha beta", "s", 0⟩ : IngestItem).chunks referenceCorpus,
        ¬∀ slot ∈ ReferenceCorpus.removedOnce.slots,
          ∃ x ∈ ReferenceCorpus.removedOnce.storage.vectors.inputs,
            x.itemId = chunk.id ∧ x.vectorIndex = 0 ∧ x.modelId = slot.modelId := by
      decide +kernel
    exact fun chunk hchunk h => hcodes chunk hchunk h.vectors
  have htexts : ∀ chunk ∈ (⟨"alpha beta", "s", 0⟩ : IngestItem).chunks referenceCorpus,
      ∀ row ∈ ReferenceCorpus.removedOnce.storage.chunks.rows, row.id = chunk.id →
        row.chunk.text = chunk.text := by
    decide +kernel
  have hrun : (CorpusCall.ingest ⟨"alpha beta", "s", 0⟩).run ReferenceCorpus.floats.weighting
      ReferenceCorpus.oneThread ⟨ReferenceCorpus.removedOnce, []⟩ = .ok () ⟨_, []⟩ := hingest _
  exact ⟨hdark, (ingest_retrieves_iff Function.injective_id hremoved (Or.inl rfl) hrun).mpr htexts⟩

/-- A text that is ingested again after it was expunged is not there: its row is empty. -/
theorem reingest_not_retrieves :
    ∃ (c : Corpus referenceCorpus) (s' : Session referenceCorpus),
      Visited ReferenceCorpus.floats.weighting (fun _ => True) c ∧
        ingest ReferenceCorpus.oneThread ⟨"alpha", "s", 0⟩ ⟨c, []⟩ = .ok () s' ∧
        ¬∀ chunk ∈ (⟨"alpha", "s", 0⟩ : IngestItem).chunks referenceCorpus,
          s'.corpus.Retrieves chunk := by
  have hopened : Visited ReferenceCorpus.floats.weighting (fun _ => True)
      (ReferenceCorpus.opened [.plain (.fixed "m") []]) :=
    .opened (if_neg (List.cons_ne_nil _ _))
  have hingest : ∀ c : Corpus referenceCorpus,
      ingest ReferenceCorpus.oneThread ⟨"alpha", "s", 0⟩ ⟨c, []⟩ =
        .ok () ⟨c.ingested ⟨"alpha", "s", 0⟩, []⟩ :=
    ingest_faultless _ fun _ => by decide
  have hfirst := @Visited.of_ok _ _ _ ReferenceCorpus.oneThread ⟨_, []⟩ ⟨_, []⟩ hopened
    (.ingest ⟨"alpha", "s", 0⟩) trivial (hingest _)
  have hexpunged := @Visited.of_ok _ _ _ ReferenceCorpus.oneThread ⟨_, []⟩ ⟨_, []⟩ hfirst
    (.expunge "s") trivial (does_expunge "s" _)
  refine ⟨_, _, hexpunged, hingest _, fun h => ?_⟩
  have hempty : ¬∀ chunk ∈ (⟨"alpha", "s", 0⟩ : IngestItem).chunks referenceCorpus,
      ∃ row ∈ ((((ReferenceCorpus.opened [.plain (.fixed "m") []]).ingested
        ⟨"alpha", "s", 0⟩).expunged "s").ingested ⟨"alpha", "s", 0⟩).storage.chunks.rows,
          row.id = chunk.id ∧ row.chunk.text = chunk.text := by
    decide +kernel
  exact hempty fun chunk hchunk => (h chunk hchunk).row

end Calls

end MootMemory
