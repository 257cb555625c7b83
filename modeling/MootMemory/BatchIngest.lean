import MootMemory.CallFrames
import MootMemory.ReferenceCorpus

namespace MootMemory

variable {sub : CorpusSubstrate}

namespace Corpus

variable {c c' : Corpus sub}

section Trained

theorem needsTraining_congr (hbasis : c.storage.basis = c'.storage.basis)
    (horigins : c.origins = c'.origins) (i : Nat) : needsTraining c i = needsTraining c' i := by
  have hslot : c.slots[i]?.map (·.origin) = c'.slots[i]?.map (·.origin) := by
    have hget := congrArg (·[i]?) horigins
    simpa only [origins, List.getElem?_map] using hget
  unfold needsTraining
  cases h : c.slots[i]? with
  | none =>
    cases h' : c'.slots[i]? with
    | none => rfl
    | some slot' => rw [h, h'] at hslot; cases hslot
  | some slot =>
    cases h' : c'.slots[i]? with
    | none => rw [h, h'] at hslot; cases hslot
    | some slot' =>
      rw [h, h', Option.map_some, Option.map_some, Option.some.injEq] at hslot
      have hkind : slot.kind = slot'.kind := congrArg Prod.fst hslot
      have hblob : slot.freshBasisBlob = slot'.freshBasisBlob := congrArg Prod.snd hslot
      simp only [hasBasis, ProviderSlot.key, hkind, hblob, hbasis]

/-- No trainable slot is without a stored basis. -/
def Trained (c : Corpus sub) : Prop := ∀ i, needsTraining c i = false

theorem Trained.congr (h : c.Trained) (hbasis : c.storage.basis = c'.storage.basis)
    (horigins : c.origins = c'.origins) : c'.Trained := fun i =>
  (needsTraining_congr hbasis horigins i).symm.trans (h i)

theorem Trained.firstTrained (h : c.Trained) (chunks : List (Chunk sub)) (nowSecs : Int)
    (slots : List Nat) : firstTrained chunks nowSecs slots c = (slots, c) := by
  induction slots with
  | nil => rfl
  | cons i slots ih =>
    unfold Corpus.firstTrained
    rw [h i, if_neg (by simp), ih]

theorem Trained.bootstrapped (h : c.Trained) (nowSecs : Int) : c.bootstrapped nowSecs = c := by
  have hnone : (List.range c.slots.length).any (needsTraining c) = false := by
    rw [List.any_eq_false]
    exact fun i _ => by rw [h i]; simp
  unfold Corpus.bootstrapped
  dsimp only
  rw [hnone, if_neg (by simp)]

theorem flatMap_rowsOfSlot (c : Corpus sub) (chunks : List (Chunk sub)) (filedAtSecs : Int) :
    (List.range c.slots.length).flatMap (c.rowsOfSlot chunks filedAtSecs) =
      c.slots.flatMap fun slot => slotRows slot filedAtSecs chunks := by
  rw [List.flatMap_def, List.flatMap_def]
  congr 1
  apply List.ext_getElem
  · simp
  · intro i h₁ h₂
    have hi : i < c.slots.length := by simpa using h₂
    simp [rowsOfSlot, List.getElem?_eq_getElem hi]

theorem itemRows_congr (h : c.serving = c'.serving) (item : IngestItem) :
    itemRows c.slots item = itemRows c'.slots item := by
  have hmap : ∀ slots : List (ProviderSlot sub), itemRows slots item =
      (slots.map (·.serving)).flatMap fun s =>
        (item.chunks sub).flatMap (chunkRows s.1 s.2.1 item.nowSecs) := by
    intro slots
    rw [List.flatMap_map]
    rfl
  rw [hmap, hmap]
  exact congrArg (List.flatMap _) h

theorem Trained.filed (h : c.Trained) (item : IngestItem) : (c.filed item).Trained :=
  h.congr (by rw [Corpus.filed, storage_foldl_indexed, basis_stored])
    (origins_of_serving (serving_filed c item).symm)

/-- With every basis there, an item is filed, embedded for under every slot, and the counts are
stored. -/
theorem Trained.ingested (h : c.Trained) {item : IngestItem} (hchunks : item.chunks sub ≠ []) :
    c.ingested item = ((c.filed item).upserted (itemRows c.slots item)).persisted item.nowSecs := by
  have hlen : c.slots.length = (c.filed item).slots.length :=
    length_slots_of_origins (origins_of_serving (serving_filed c item).symm)
  have hrows : (List.range c.slots.length).flatMap ((c.filed item).rowsOfSlot (item.chunks sub)
      item.nowSecs) = itemRows c.slots item := by
    rw [hlen, flatMap_rowsOfSlot]
    exact itemRows_congr (serving_filed c item) item
  unfold Corpus.ingested foldedIn
  dsimp only
  rw [if_neg hchunks, (h.filed item).firstTrained, hrows]

theorem ingested_of_no_chunks {item : IngestItem} (h : item.chunks sub = []) :
    c.ingested item = c := if_pos h

end Trained

section Parts

/-- The corpus without postings, vectors and what is stored for providers. -/
def storePart (c : Corpus sub) : Corpus sub where
  storage :=
    { chunks := c.storage.chunks
      corpusMetadata := c.storage.corpusMetadata
      removedSources := c.storage.removedSources
      basis := .empty
      counts := .empty
      vectors := .empty }
  invertedIndex := .opened .empty
  chunkSourceMap := c.chunkSourceMap
  slots := c.slots
  encodeSpeed := .foreground

theorem storePart_addChunk (c : Corpus sub) (chunk : Chunk sub) :
    (c.addChunk chunk).storePart = c.storePart.addChunk chunk := by
  have hinsert : c.storePart.storage.chunks = c.storage.chunks := rfl
  unfold addChunk
  rw [hinsert]
  cases c.storage.chunks.insert? ⟨chunk, sub.leaf chunk.id chunk.text⟩ with
  | none => rfl
  | some rows => rfl

theorem storePart_bundled (c : Corpus sub) (chunks : List (Chunk sub)) :
    (c.bundled chunks).storePart = c.storePart.bundled chunks := by
  have hadd : (c.addChunks chunks).storePart = c.storePart.addChunks chunks :=
    (List.foldl_hom storePart fun c chunk => (storePart_addChunk c chunk).symm).symm
  have hroll : ∀ (sources : List String) (c : Corpus sub),
      (sources.foldl rollup c).storePart = sources.foldl rollup c.storePart :=
    fun sources c => (List.foldl_hom storePart fun _ _ => rfl).symm
  rw [bundled, bundled, hroll, hadd]

theorem newChunks_storePart (c : Corpus sub) (chunks : List (Chunk sub)) :
    c.storePart.newChunks chunks = c.newChunks chunks := by
  induction chunks generalizing c with
  | nil => rfl
  | cons chunk chunks ih =>
    have hnew : c.storePart.isNew chunk = c.isNew chunk := rfl
    unfold newChunks
    rw [hnew, ← storePart_addChunk, ih]

/-- What becomes of the chunks and of the counts does not depend on the other parts. -/
theorem storePart_stored (c : Corpus sub) (sourceId : String) (chunks : List (Chunk sub)) :
    (c.stored sourceId chunks).storePart = c.storePart.stored sourceId chunks := by
  have hfold : ∀ (c : Corpus sub) (new : List (Chunk sub)),
      (c.foldCounts new).storePart = c.storePart.foldCounts new := by
    intro c new
    unfold foldCounts
    split <;> rfl
  have hmap : ∀ c : Corpus sub,
      (c.mapChunks chunks sourceId).storePart = c.storePart.mapChunks chunks sourceId :=
    fun _ => rfl
  have hclear : (c.clearRemoved sourceId).storePart = c.storePart.clearRemoved sourceId := rfl
  unfold stored
  split
  next => rfl
  next => rw [hfold, hmap, storePart_bundled, hclear, ← newChunks_storePart, hclear]

theorem storePart_storedAll (c : Corpus sub) (items : List IngestItem) :
    (c.storedAll items).storePart = c.storePart.storedAll items :=
  (List.foldl_hom storePart fun c item =>
    (storePart_stored c item.sourceId (item.chunks sub)).symm).symm

theorem storePart_foldl_indexed (c : Corpus sub) (chunks : List (Chunk sub)) :
    (chunks.foldl indexed c).storePart = c.storePart := by
  obtain ⟨index, h⟩ := foldl_indexed_eq chunks c
  rw [h]
  rfl

theorem storePart_persisted (c : Corpus sub) (nowSecs : Int) :
    (c.persisted nowSecs).storePart = c.storePart := by
  obtain ⟨counts, h⟩ := persisted_eq c nowSecs
  rw [h]
  rfl

end Parts

section Contents

/-- What one can see of a corpus: the estate's tables of chunks, the postings, the counts, and the
vector rows. -/
structure Contents (sub : CorpusSubstrate) where
  estate : Estate sub
  tables : PostingTables
  counts : List (Option (CountsState sub))
  vectors : VectorTable

def contents (c : Corpus sub) : Contents sub :=
  ⟨c.estate, c.invertedIndex.tables, c.countStates, c.storage.vectors⟩

theorem contents_congr (hstore : c.storePart = c'.storePart)
    (hindex : c.invertedIndex = c'.invertedIndex)
    (hvectors : c.storage.vectors = c'.storage.vectors) : c.contents = c'.contents := by
  have hestate := congrArg estate hstore
  have hcounts := congrArg countStates hstore
  unfold contents
  rw [hindex, hvectors]
  exact congrArg₂ (fun estate counts => Contents.mk estate _ counts _) hestate hcounts

/-- Items one after another, where the bases are there: the three parts are brought forward each for
itself. -/
theorem Trained.foldl_ingested (h : c.Trained) (items : List IngestItem) :
    (items.foldl Corpus.ingested c).storePart = (c.storedAll items).storePart ∧
      (items.foldl Corpus.ingested c).invertedIndex =
        c.invertedIndex.indexAll (items.flatMap (·.chunks sub)) ∧
      (items.foldl Corpus.ingested c).storage.vectors =
        c.storage.vectors.upsertAll (items.flatMap (itemRows c.slots)) := by
  induction items generalizing c with
  | nil => exact ⟨rfl, rfl, rfl⟩
  | cons item items ih =>
    have hone : (c.ingested item).Trained ∧ (c.ingested item).serving = c.serving ∧
        (c.ingested item).storePart = (c.stored item.sourceId (item.chunks sub)).storePart ∧
        (c.ingested item).invertedIndex = c.invertedIndex.indexAll (item.chunks sub) ∧
        (c.ingested item).storage.vectors = c.storage.vectors.upsertAll (itemRows c.slots item) := by
      by_cases hchunks : item.chunks sub = []
      · have hrows : itemRows c.slots item = [] := by
          rw [itemRows, hchunks]
          simp [slotRows]
        rw [ingested_of_no_chunks hchunks, hchunks, hrows]
        exact ⟨h, rfl, rfl, rfl, rfl⟩
      · have hserving : ((c.filed item).upserted (itemRows c.slots item)).serving = c.serving :=
          serving_filed c item
        rw [h.ingested hchunks]
        refine ⟨(h.filed item).congr (by simp) ?_, ?_, ?_, ?_, ?_⟩
        · rw [origins, origins, slots_persisted, slots_upserted]
        · rw [serving, slots_persisted]
          exact hserving
        · rw [storePart_persisted]
          exact storePart_foldl_indexed _ _
        · rw [invertedIndex_persisted, invertedIndex_upserted, Corpus.filed,
            invertedIndex_foldl_indexed,
            invertedIndex_stored]
        · rw [vectors_persisted, vectors_upserted, Corpus.filed, storage_foldl_indexed,
            vectors_stored]
    obtain ⟨htrained, hserving, hstore, hindex, hvectors⟩ := hone
    obtain ⟨ihstore, ihindex, ihvectors⟩ := ih htrained
    have hrows : items.flatMap (itemRows (c.ingested item).slots) =
        items.flatMap (itemRows c.slots) :=
      congrArg (List.flatMap · items) (funext fun item => itemRows_congr hserving item)
    rw [List.foldl_cons, List.flatMap_cons, List.flatMap_cons]
    refine ⟨?_, ?_, ?_⟩
    · rw [ihstore, storePart_storedAll, hstore, ← storePart_storedAll]
      rfl
    · rw [ihindex, hindex]
      exact List.foldl_append.symm
    · rw [ihvectors, hvectors, hrows, VectorTable.upsertAll_append]

/-- A batch brings the parts forward as its items one after another do. -/
theorem Trained.contents_batchIngested (h : c.Trained) (items : List IngestItem) :
    (c.batchIngested items).contents = (items.foldl Corpus.ingested c).contents := by
  cases items with
  | nil => rfl
  | cons first rest =>
    obtain ⟨hstore, hindex, hvectors⟩ := h.foldl_ingested (first :: rest)
    obtain ⟨hkept, hkeptVectors, hbasis, hserving⟩ := storedAll_frame c (first :: rest)
    have hfiled : (c.filedAll (first :: rest)).serving = c.serving := by
      rw [filedAll, serving, slots_foldl_indexed]
      exact hserving
    have htrained : (c.filedAll (first :: rest)).Trained :=
      h.congr (by rw [filedAll, storage_foldl_indexed, hbasis]) (origins_of_serving hfiled.symm)
    have hrows : (first :: rest).flatMap (itemRows (c.filedAll (first :: rest)).slots) =
        (first :: rest).flatMap (itemRows c.slots) :=
      congrArg (List.flatMap · (first :: rest)) (funext fun item => itemRows_congr hfiled item)
    unfold batchIngested
    dsimp only
    rw [htrained.bootstrapped, hrows]
    refine contents_congr ?_ ?_ ?_
    · rw [hstore, storePart_persisted]
      exact storePart_foldl_indexed _ _
    · rw [hindex, invertedIndex_persisted, invertedIndex_upserted, filedAll,
        invertedIndex_foldl_indexed, hkept]
    · rw [hvectors, vectors_persisted, vectors_upserted, filedAll, storage_foldl_indexed,
        hkeptVectors]

end Contents

end Corpus

section Single

/-- The clock is not before the epoch by its full seconds, or there is nothing to stamp with it. -/
def IngestItem.Timely (sub : CorpusSubstrate) (item : IngestItem) : Prop :=
  item.chunks sub ≠ [] → -1000 < item.nowMillis

theorem IngestItem.nowSecs_nonneg_iff (item : IngestItem) :
    0 ≤ item.nowSecs ↔ -1000 < item.nowMillis := by
  unfold IngestItem.nowSecs
  rcases Int.le_total 0 item.nowMillis with h | h
  · have hdiv : 0 ≤ item.nowMillis.tdiv 1000 := Int.tdiv_nonneg h (by decide)
    omega
  · have hdiv : item.nowMillis.tdiv 1000 = -(-item.nowMillis / 1000) := by
      rw [← Int.tdiv_eq_ediv_of_nonneg (by omega), Int.neg_tdiv, neg_neg]
    omega

/-- Items are ingested one after another without a failure just when all are timely. -/
theorem forM_ingest_iff (threads : Threads) (items : List IngestItem) (c c' : Corpus sub) :
    items.forM (ingest threads) ⟨c, []⟩ = .ok () ⟨c', []⟩ ↔
      (∀ item ∈ items, item.Timely sub) ∧ c' = items.foldl Corpus.ingested c := by
  induction items generalizing c with
  | nil =>
    constructor
    · intro h
      cases h
      exact ⟨fun _ h => absurd h List.not_mem_nil, rfl⟩
    · rintro ⟨-, rfl⟩
      rfl
  | cons item items ih =>
    have hcons : (item :: items).forM (ingest threads) ⟨c, []⟩ =
        (ingest threads item >>= fun _ => items.forM (ingest threads)) ⟨c, []⟩ := rfl
    rw [List.forall_mem_cons, List.foldl_cons, and_assoc, hcons]
    by_cases htimely : item.Timely sub
    · have hclock : item.chunks sub ≠ [] → 0 ≤ item.nowSecs :=
        fun hchunks => item.nowSecs_nonneg_iff.mpr (htimely hchunks)
      rw [bind_of_ok (ingest_faultless threads hclock c), ih]
      exact ⟨fun h => ⟨htimely, h⟩, fun h => h.2⟩
    · obtain ⟨hchunks, hlate⟩ := Classical.not_imp.mp htimely
      have hneg : item.nowSecs < 0 :=
        Int.not_le.mp fun h => hlate (item.nowSecs_nonneg_iff.mp h)
      obtain ⟨c₁, hpanic⟩ := ingest_panics threads hneg hchunks c
      have hrun : (ingest threads item >>= fun _ => items.forM (ingest threads)) ⟨c, []⟩ =
          .error .panic ⟨c₁, []⟩ := by
        simp only [bind, EStateM.bind, hpanic]
      rw [hrun]
      constructor
      · intro h
        cases h
      · intro h
        exact absurd h.1 htimely

/-- Where no slot lacks a basis, a batch does without failures what its items one by one do, just
when none has its clock a second or more before the epoch: on one that has, `ingest` panics. -/
theorem ingestBatch_eq_ingest_iff {c : Corpus sub} (hbasis : c.Trained)
    (threads threads' : Threads) (items : List IngestItem) :
    (∃ c₁ c₂, ingestBatch threads items ⟨c, []⟩ = .ok () ⟨c₁, []⟩ ∧
        items.forM (ingest threads') ⟨c, []⟩ = .ok () ⟨c₂, []⟩ ∧ c₁.contents = c₂.contents) ↔
      ∀ item ∈ items, item.Timely sub := by
  constructor
  · rintro ⟨c₁, c₂, -, hsingle, -⟩
    exact ((forM_ingest_iff threads' items c c₂).mp hsingle).1
  · intro h
    exact ⟨c.batchIngested items, items.foldl Corpus.ingested c,
      does_ingestBatch threads items c,
      (forM_ingest_iff threads' items c _).mpr ⟨h, rfl⟩,
      hbasis.contents_batchIngested items⟩

theorem ingestBatch_eq_ingest_in_time :
    ∃ c₁ c₂, ingestBatch ReferenceCorpus.oneThread [⟨"a", "s", 0⟩, ⟨"b", "s", -999⟩, ⟨"a", "s", 7⟩]
          ⟨ReferenceCorpus.opened [.plain (.fixed "m") []], []⟩ = .ok () ⟨c₁, []⟩ ∧
        [⟨"a", "s", 0⟩, ⟨"b", "s", -999⟩, ⟨"a", "s", 7⟩].forM (ingest ReferenceCorpus.oneThread)
          ⟨ReferenceCorpus.opened [.plain (.fixed "m") []], []⟩ = .ok () ⟨c₂, []⟩ ∧
        c₁.contents = c₂.contents := by
  refine (ingestBatch_eq_ingest_iff ?_ _ _ _).mpr ?_
  · intro i
    cases i with
    | zero => rfl
    | succ i => rfl
  · have hclocks : ∀ item ∈ ([⟨"a", "s", 0⟩, ⟨"b", "s", -999⟩, ⟨"a", "s", 7⟩] : List IngestItem),
        -1000 < item.nowMillis := by decide
    exact fun item hitem _ => hclocks item hitem

/-- A batch with a clock of one second before the epoch is ingested; its item alone is not. -/
theorem ingestBatch_ne_ingest :
    (ReferenceCorpus.opened [.plain (.fixed "m") []]).Trained ∧
      (∃ c₁, ingestBatch ReferenceCorpus.oneThread [⟨"a", "s", -1000⟩]
        ⟨ReferenceCorpus.opened [.plain (.fixed "m") []], []⟩ = .ok () ⟨c₁, []⟩) ∧
      ∃ c₂, ingest ReferenceCorpus.oneThread ⟨"a", "s", -1000⟩
        ⟨ReferenceCorpus.opened [.plain (.fixed "m") []], []⟩ = .error .panic ⟨c₂, []⟩ := by
  refine ⟨fun i => ?_, ⟨_, does_ingestBatch _ _ _⟩, ?_⟩
  · cases i with
    | zero => rfl
    | succ i => rfl
  · exact ingest_panics _ (by decide) (by decide +kernel) _

end Single

end MootMemory
