import MootMemory.CorpusCalls

namespace MootMemory

variable {sub : CorpusSubstrate}

theorem importWorkers_items_pos (threads : Threads) (items : List IngestItem) :
    0 < importWorkers threads (windows importShardItems items).length := importWorkers_pos _ _

/-- The shards that the workers leave behind, in their order. -/
def importShards (sub : CorpusSubstrate) (threads : Threads) (items : List IngestItem) :
    List PostingTables :=
  let slices := windows importShardItems items
  (threads.claims 0 _ slices.length
    (importWorkers_items_pos threads items)).byWorker.filterMap (workerShard sub slices)

namespace Corpus

def overwritten (c : Corpus sub) (shard : PostingTables) : Corpus sub :=
  c.withTables fun t => t.overwrite shard

/-- What a sharded import does. -/
def shardImported (c : Corpus sub) (threads : Threads) (items : List IngestItem) : Corpus sub :=
  (windows importShardItems items).foldl (fun c _ => c.dropCache)
    ((importShards sub threads items).foldl overwritten (c.storedAll items))

end Corpus

section Effect

theorem does_storeChunked (items : List (String × List (Chunk sub))) :
    Does (storeChunked items) fun c => items.foldl (fun c item => c.stored item.1 item.2) c := by
  intro c
  have hwindow : ∀ window : List (String × List (Chunk sub)),
      Does (inTransaction (window.forM fun item => storeItem item.1 item.2))
        fun c => window.foldl (fun c item => c.stored item.1 item.2) c :=
    fun window => (Does.forM fun item _ => does_storeItem item.1 _).inTransaction
  have hall := Does.forM (l := windows commitChunkItems items)
    (g := fun (c : Corpus sub) window => window.foldl (fun c item => c.stored item.1 item.2) c)
    (fun window _ => hwindow window) c
  rw [storeChunked, hall]
  dsimp only
  rw [foldl_windows (by decide)]

/-- The slices with their chunks are the items with theirs. -/
theorem flatMap_zip_sliceChunks (slices : List (List IngestItem)) :
    ((slices.zip (slices.map (sliceChunks sub))).flatMap fun slice =>
      (slice.1.map (·.sourceId)).zip slice.2) =
      slices.flatten.map fun item => (item.sourceId, item.chunks sub) := by
  induction slices with
  | nil => rfl
  | cons slice slices ih =>
    rw [List.map_cons, List.zip_cons_cons, List.flatMap_cons, ih, List.flatten_cons,
      List.map_append, sliceChunks, List.zip_map']

/-- What the workers hand back does not depend on the corpus. -/
theorem mapM_attempt_ok {α β : Type} {g : β → α} {l : List β} {s s' : Session sub} {outs : List α}
    (h : l.mapM (fun b => do attempt; pure (g b) : β → CorpusM sub α) s = .ok outs s') :
    outs = l.map g ∧ s'.corpus = s.corpus := by
  induction l generalizing s outs with
  | nil =>
    cases h
    exact ⟨rfl, rfl⟩
  | cons b l ih =>
    rw [List.mapM_cons] at h
    obtain ⟨a, s₁, hfirst, hrest⟩ := estate_bind_ok.mp h
    obtain ⟨as, s₂, hall, hpure⟩ := estate_bind_ok.mp hrest
    cases hpure
    obtain ⟨u, s₃, hattempt, hresult⟩ := estate_bind_ok.mp hfirst
    cases hresult
    have hcorpus : s₁.corpus = s.corpus := by
      rcases s with ⟨c, - | ⟨- | e, faults⟩⟩ <;> cases hattempt <;> rfl
    obtain ⟨hmap, hsame⟩ := ih hall
    exact ⟨by rw [hmap, List.map_cons], hsame.trans hcorpus⟩

/-- What the workers do, each of whom may fail. -/
def importWork (sub : CorpusSubstrate) (threads : Threads) (items : List IngestItem) :
    CorpusM sub (List (Option PostingTables × List (Nat × List (List (Chunk sub))))) :=
  let slices := windows importShardItems items
  (threads.claims 0 _ slices.length
    (importWorkers_items_pos threads items)).byWorker.mapM fun claimed => do
      attempt
      pure (workerOut sub slices claimed)

/-- After the workers the chunks are stored as they are for the items, then the shards merged. -/
theorem ingestBatchImportSharded_eq (threads : Threads) (items : List IngestItem) :
    @ingestBatchImportSharded sub threads items =
      importWork sub threads items >>= fun _ =>
      storeChunked (items.map fun item => (item.sourceId, item.chunks sub)) >>= fun _ =>
      (importShards sub threads items).forM mergeShard >>= fun _ =>
      (windows importShardItems items).forM fun _ => foldPostings := by
  funext s
  let slices := windows importShardItems items
  let claims := threads.claims 0 _ slices.length (importWorkers_pos threads slices.length)
  rw [ingestBatchImportSharded]
  change (importWork sub threads items >>= _) s = _
  cases hrun : importWork sub threads items s with
  | error e s₁ => simp only [bind, EStateM.bind, hrun]
  | ok outs s₁ =>
    rw [bind_of_ok hrun, bind_of_ok hrun]
    obtain ⟨rfl, -⟩ := mapM_attempt_ok hrun
    have hresults : (claims.byWorker.map (workerOut sub slices)).flatMap (·.2) =
        (claims.byWorker.map fun claimed => claimed.map fun i =>
          (i, sliceChunks sub (slices.getD i []))).flatten := by
      rw [List.flatMap_map]
      rfl
    have hreassemble : reassemble slices.length
        ((claims.byWorker.map (workerOut sub slices)).flatMap (·.2)) =
          .ok (slices.map (sliceChunks sub)) := by
      rw [hresults, reassemble_claims, flatMap_getD]
    rw [hreassemble]
    dsimp only
    rw [flatMap_zip_sliceChunks, flatten_windows (by decide), List.filterMap_map]
    rfl

theorem does_ingestBatchImportSharded (threads : Threads) (items : List IngestItem) :
    Does (@ingestBatchImportSharded sub threads items)
      fun c => c.shardImported threads items := by
  intro c
  have hwork : importWork sub threads items ⟨c, []⟩ = .ok _ ⟨c, []⟩ :=
    mapM_faultless fun _ _ => rfl
  have hstored : storeChunked (items.map fun item => (item.sourceId, item.chunks sub)) ⟨c, []⟩ =
      .ok () ⟨c.storedAll items, []⟩ := by
    rw [does_storeChunked]
    dsimp only
    rw [List.foldl_map]
    rfl
  have hshards : Does ((importShards sub threads items).forM (@mergeShard sub))
      fun c => (importShards sub threads items).foldl Corpus.overwritten c :=
    .forM fun shard _ => .writeCorpus fun c => c.overwritten shard
  have hfold : Does ((windows importShardItems items).forM fun _ => @foldPostings sub)
      fun c => (windows importShardItems items).foldl (fun c _ => c.dropCache) c :=
    .forM fun _ _ => .modifyCorpus _
  rw [ingestBatchImportSharded_eq, bind_of_ok hwork, bind_of_ok hstored]
  exact (bind_of_ok (hshards _)).trans (hfold _)

end Effect

section Shards

theorem slicePostings_flatMap {ι : Type} (l : List ι) (f : ι → List (Chunk sub)) :
    (l.flatMap fun i => slicePostings (f i)) = slicePostings (l.flatMap f) := by
  induction l with
  | nil => rfl
  | cons i l ih =>
    rw [List.flatMap_cons, List.flatMap_cons, ih]
    unfold slicePostings
    rw [List.map_append, List.filter_append]

/-- The chunks of a slice. -/
def chunksAt (sub : CorpusSubstrate) (slices : List (List IngestItem)) (i : Nat) :
    List (Chunk sub) :=
  (sliceChunks sub (slices.getD i [])).flatten

theorem mem_chunksAt {slices : List (List IngestItem)} {chunk : Chunk sub} :
    (∃ i < slices.length, chunk ∈ chunksAt sub slices i) ↔
      chunk ∈ slices.flatten.flatMap (·.chunks sub) := by
  have hslices := flatMap_getD (sliceChunks sub) slices
  have hall : ((List.range slices.length).map fun i =>
      chunksAt sub slices i).flatten = slices.flatten.flatMap (·.chunks sub) := by
    have hflat : ((List.range slices.length).map fun i => chunksAt sub slices i) =
        (slices.map (sliceChunks sub)).map List.flatten := by
      rw [← hslices, List.map_map]
      rfl
    rw [hflat, List.flatMap_def, List.map_flatten, List.flatten_flatten]
    rfl
  rw [← hall, ← List.flatMap_def]
  simp

/-- The shards of an import are shards of chunks, which together are those of the items. -/
theorem exists_importShards (threads : Threads) (items : List IngestItem) :
    ∃ parts : List (List (Chunk sub)),
      importShards sub threads items = parts.map (fun part => shardOf (slicePostings part)) ∧
        ∀ chunk, chunk ∈ parts.flatten ↔ chunk ∈ items.flatMap (·.chunks sub) := by
  let slices := windows importShardItems items
  let claims := threads.claims 0 _ slices.length (importWorkers_pos threads slices.length)
  have hworker : ∀ claimed, workerShard sub slices claimed =
      if claimed = [] then none
      else some (shardOf (slicePostings (claimed.flatMap (chunksAt sub slices)))) := by
    intro claimed
    unfold workerShard
    split
    next => rfl
    next => rw [slicePostings_flatMap]; rfl
  have hshards : ∀ l : List (List Nat), l.filterMap (workerShard sub slices) =
      ((l.filter (· ≠ [])).map (·.flatMap (chunksAt sub slices))).map fun part =>
        shardOf (slicePostings part) := by
    intro l
    induction l with
    | nil => rfl
    | cons claimed l ih =>
      by_cases hnil : claimed = []
      · rw [List.filterMap_cons_none (by rw [hworker, if_pos hnil]), ih,
          List.filter_cons_of_neg (by simpa using hnil)]
      · rw [List.filterMap_cons_some (by rw [hworker, if_neg hnil]), ih,
          List.filter_cons_of_pos (by simpa using hnil)]
        rfl
  have himport : importShards sub threads items = _ := hshards claims.byWorker
  refine ⟨_, himport, fun chunk => ?_⟩
  have hitems : slices.flatten = items := flatten_windows (by decide) items
  rw [← hitems, ← mem_chunksAt]
  constructor
  · intro h
    obtain ⟨part, hpart, hchunk⟩ := List.mem_flatten.mp h
    obtain ⟨claimed, hclaimed, rfl⟩ := List.mem_map.mp hpart
    obtain ⟨i, hi, hmem⟩ := List.mem_flatMap.mp hchunk
    have hrange : i ∈ List.range slices.length := claims.once.mem_iff.mp
      (List.mem_flatten.mpr ⟨claimed, (List.mem_filter.mp hclaimed).1, hi⟩)
    exact ⟨i, List.mem_range.mp hrange, hmem⟩
  · rintro ⟨i, hi, hmem⟩
    obtain ⟨claimed, hclaimed, hiclaimed⟩ := List.mem_flatten.mp
      (claims.once.mem_iff.mpr (List.mem_range.mpr hi))
    refine List.mem_flatten.mpr ⟨claimed.flatMap (chunksAt sub slices), List.mem_map_of_mem
      (List.mem_filter.mpr ⟨hclaimed, ?_⟩), List.mem_flatMap.mpr ⟨i, hiclaimed, hmem⟩⟩
    rw [decide_eq_true_eq]
    exact List.ne_nil_of_mem hiclaimed

/-- What a shard holds is under the names of its chunks. -/
theorem itemId_of_mem_shardOf {chunks : List (Chunk sub)} :
    (∀ row ∈ (shardOf (slicePostings chunks)).termFreqs.rows, ∃ id, row.itemId = sub.idText id) ∧
      ∀ row ∈ (shardOf (slicePostings chunks)).docLens.rows, ∃ id, row.itemId = sub.idText id := by
  have hposting : ∀ posting ∈ slicePostings chunks, ∃ id, posting.itemId = sub.idText id := by
    intro posting h
    obtain ⟨chunk, -, rfl⟩ := List.mem_map.mp (List.mem_filter.mp h).1
    exact ⟨chunk.id, rfl⟩
  refine ⟨fun row hrow => ?_, fun row hrow => ?_⟩
  · rcases RowSet.of_mem_replaceAll hrow with hrow | hrow
    · rw [List.mem_insertionSort, List.mem_flatMap] at hrow
      obtain ⟨posting, hmem, hrow⟩ := hrow
      obtain ⟨term, -, rfl⟩ := List.mem_map.mp hrow
      exact hposting posting hmem
    · exact absurd hrow (Finset.notMem_empty _)
  · rcases RowSet.of_mem_replaceAll hrow with hrow | hrow
    · rw [List.mem_insertionSort, List.mem_map] at hrow
      obtain ⟨posting, hmem, rfl⟩ := hrow
      exact hposting posting hmem
    · exact absurd hrow (Finset.notMem_empty _)

end Shards

end MootMemory
