import MootMemory.CountedCalls

namespace MootMemory

variable {sub : CorpusSubstrate}

namespace Corpus

section Roots

variable (empty : sub.ContentHash) (corpusUuid : String → sub.ChunkId) (c : Corpus sub)

/-- The root that is stored for a source, which is empty where none is. -/
def corpusMerkleRoot (sourceId : String) : sub.ContentHash :=
  match c.storage.corpusMetadata.find? sourceId with
  | some row => row.merkleRoot
  | none => empty

/-- The root over the stored roots. -/
def globalCorpusMerkleRoot : sub.ContentHash :=
  sub.interior (c.storage.corpusMetadata.rows.map fun row => (corpusUuid row.sourceId, row.merkleRoot))

/-- The root over the chunks that a source has. -/
def rootOf (sourceId : String) : sub.ContentHash :=
  sub.interior ((c.sourceRows sourceId).map fun row => (row.id, row.contentHash))

/-- The sources that have chunks. -/
def allSourceIds : List String := (c.storage.chunks.rows.map (·.chunk.sourceId)).dedup

/-- The roots that are read are those over the chunks that there are. -/
structure RootsFollow : Prop where
  corpus : ∀ sourceId, c.sourceRows sourceId ≠ [] →
    c.corpusMerkleRoot empty sourceId = c.rootOf sourceId
  global : c.globalCorpusMerkleRoot corpusUuid =
    sub.interior (c.allSourceIds.map fun sourceId => (corpusUuid sourceId, c.rootOf sourceId))

end Roots

variable {c d : Corpus sub} {sourceId : String} {chunks : List (Chunk sub)}

/-- There is a root for the sources that have chunks, and only for these. -/
def Rooted (c : Corpus sub) : Prop :=
  ∀ sourceId, (c.storage.corpusMetadata.find? sourceId).map (·.merkleRoot) =
    if c.sourceRows sourceId = [] then none else some (c.rootOf sourceId)

theorem Rooted.congr (h : c.Rooted) (hchunks : d.storage.chunks = c.storage.chunks)
    (hmetadata : d.storage.corpusMetadata = c.storage.corpusMetadata) : d.Rooted := by
  intro sourceId
  unfold rootOf sourceRows
  rw [hchunks, hmetadata]
  exact h sourceId

theorem mem_sourceRows {row : ChunkRow sub} :
    row ∈ c.sourceRows sourceId ↔ row ∈ c.storage.chunks.rows ∧ row.chunk.sourceId = sourceId := by
  rw [sourceRows, List.mem_filter, decide_eq_true_eq]

theorem mem_allSourceIds : sourceId ∈ c.allSourceIds ↔ c.sourceRows sourceId ≠ [] := by
  rw [allSourceIds, List.mem_dedup, List.mem_map]
  constructor
  · rintro ⟨row, hrow⟩
    exact List.ne_nil_of_mem (mem_sourceRows.mpr hrow)
  · intro hrows
    obtain ⟨row, hrow⟩ := List.exists_mem_of_ne_nil _ hrows
    exact ⟨row, mem_sourceRows.mp hrow⟩

/-- What a row of the roots says. -/
theorem Rooted.of_mem (h : c.Rooted) {row : CorpusMetadata sub}
    (hrow : row ∈ c.storage.corpusMetadata.rows) :
    c.sourceRows row.sourceId ≠ [] ∧ row.merkleRoot = c.rootOf row.sourceId := by
  have hfind := h row.sourceId
  rw [KeyedTable.find?_of_mem hrow, Option.map_some] at hfind
  split at hfind
  next => cases hfind
  next hrows => exact ⟨hrows, Option.some.inj hfind⟩

theorem Rooted.corpusMerkleRoot_eq (h : c.Rooted) (empty : sub.ContentHash) (sourceId : String) :
    c.corpusMerkleRoot empty sourceId =
      if c.sourceRows sourceId = [] then empty else c.rootOf sourceId := by
  have hfind := h sourceId
  unfold corpusMerkleRoot
  cases hrow : c.storage.corpusMetadata.find? sourceId with
  | none =>
    rw [hrow] at hfind
    split at hfind
    next hrows => exact (if_pos hrows).symm
    next => cases hfind
  | some row =>
    rw [hrow] at hfind
    split at hfind
    next => cases hfind
    next hrows =>
      rw [if_neg hrows]
      exact Option.some.inj hfind

/-- The sources with roots are, in some order, those with chunks. -/
theorem Rooted.perm (h : c.Rooted) :
    (c.storage.corpusMetadata.rows.map CorpusMetadata.sourceId).Perm c.allSourceIds := by
  have hnodup : c.allSourceIds.Nodup := List.nodup_dedup _
  refine (List.perm_ext_iff_of_nodup c.storage.corpusMetadata.nodup hnodup).mpr fun sourceId => ?_
  rw [mem_allSourceIds]
  constructor
  · intro hmem
    obtain ⟨row, hrow, rfl⟩ := List.mem_map.mp hmem
    exact (h.of_mem hrow).1
  · intro hrows
    have hfind := h sourceId
    rw [if_neg hrows, Option.map_eq_some_iff] at hfind
    obtain ⟨row, hrow, -⟩ := hfind
    obtain ⟨hmem, hkey⟩ := KeyedTable.find?_eq_some_iff.mp hrow
    exact hkey ▸ List.mem_map_of_mem hmem

theorem Rooted.follow (hinterior : ∀ l l' : List (sub.ChunkId × sub.ContentHash),
    l.Perm l' → sub.interior l = sub.interior l') (h : c.Rooted) (empty : sub.ContentHash)
    (corpusUuid : String → sub.ChunkId) : c.RootsFollow empty corpusUuid where
  corpus sourceId hrows := by rw [h.corpusMerkleRoot_eq, if_neg hrows]
  global := by
    have hpairs : (c.storage.corpusMetadata.rows.map fun row =>
        (corpusUuid row.sourceId, row.merkleRoot)) =
          (c.storage.corpusMetadata.rows.map CorpusMetadata.sourceId).map fun sourceId =>
            (corpusUuid sourceId, c.rootOf sourceId) := by
      rw [List.map_map]
      refine List.map_congr_left fun row hrow => ?_
      rw [Function.comp_apply, (h.of_mem hrow).2]
    rw [globalCorpusMerkleRoot, hpairs]
    exact hinterior _ _ (h.perm.map _)

/-- The same chunks, in whatever order they came, are told by the same roots. -/
theorem Rooted.ext (hinterior : ∀ l l' : List (sub.ChunkId × sub.ContentHash),
    l.Perm l' → sub.interior l = sub.interior l') (hc : c.Rooted) (hd : d.Rooted)
    (hrows : ∀ row, row ∈ c.storage.chunks.rows ↔ row ∈ d.storage.chunks.rows)
    (empty : sub.ContentHash) (corpusUuid : String → sub.ChunkId) :
    (∀ sourceId, c.corpusMerkleRoot empty sourceId = d.corpusMerkleRoot empty sourceId) ∧
      c.globalCorpusMerkleRoot corpusUuid = d.globalCorpusMerkleRoot corpusUuid := by
  have hperm : c.storage.chunks.rows.Perm d.storage.chunks.rows :=
    (List.perm_ext_iff_of_nodup (List.Nodup.of_map _ c.storage.chunks.nodup)
      (List.Nodup.of_map _ d.storage.chunks.nodup)).mpr hrows
  have hsource : ∀ sourceId, (c.sourceRows sourceId).Perm (d.sourceRows sourceId) := fun _ =>
    hperm.filter _
  have hroot : ∀ sourceId, c.rootOf sourceId = d.rootOf sourceId := fun sourceId =>
    hinterior _ _ ((hsource sourceId).map _)
  refine ⟨fun sourceId => ?_, ?_⟩
  · have hnil : c.sourceRows sourceId = [] ↔ d.sourceRows sourceId = [] := by
      rw [← List.length_eq_zero_iff, ← List.length_eq_zero_iff, (hsource sourceId).length_eq]
    rw [hc.corpusMerkleRoot_eq, hd.corpusMerkleRoot_eq, hroot]
    exact if_congr hnil rfl rfl
  · rw [(hc.follow hinterior empty corpusUuid).global, (hd.follow hinterior empty corpusUuid).global]
    simp only [hroot]
    exact hinterior _ _ ((hperm.map _).dedup.map _)

/-- A root is made anew over chunks that there are. -/
theorem Rooted.rollup (h : ∀ other, other ≠ sourceId →
      (c.storage.corpusMetadata.find? other).map (·.merkleRoot) =
        if c.sourceRows other = [] then none else some (c.rootOf other))
    (hrows : c.sourceRows sourceId ≠ []) : (c.rollup sourceId).Rooted := by
  intro other
  show ((c.storage.corpusMetadata.put ⟨sourceId, c.rootOf sourceId⟩).find? other).map _ =
    if c.sourceRows other = [] then none else some (c.rootOf other)
  by_cases hother : other = sourceId
  · rw [hother, if_neg hrows]
    have hfind := @KeyedTable.find?_put_self _ _ _ CorpusMetadata.sourceId
      c.storage.corpusMetadata ⟨sourceId, c.rootOf sourceId⟩
    exact congrArg (Option.map (·.merkleRoot)) hfind
  · rw [KeyedTable.find?_put_of_ne hother]
    exact h other hother

/-- The source has a chunk once these are stored. -/
def Backed (c : Corpus sub) (sourceId : String) (chunks : List (Chunk sub)) : Prop :=
  chunks = [] ∨ c.newChunks chunks ≠ [] ∨ c.sourceRows sourceId ≠ []

theorem sourceId_of_mem_newChunks (hsource : ∀ chunk ∈ chunks, chunk.sourceId = sourceId) :
    ∀ chunk ∈ c.newChunks chunks, chunk.sourceId = sourceId := by
  induction chunks generalizing c with
  | nil => exact fun _ h => absurd h List.not_mem_nil
  | cons chunk chunks ih =>
    rw [List.forall_mem_cons] at hsource
    intro other hother
    unfold newChunks at hother
    split at hother
    next =>
      rcases List.mem_cons.mp hother with rfl | hother
      · exact hsource.1
      · exact ih hsource.2 other hother
    next => exact ih hsource.2 other hother

theorem dedup_sourceIds (hchunks : chunks ≠ [])
    (hsource : ∀ chunk ∈ chunks, chunk.sourceId = sourceId) :
    (chunks.map (·.sourceId)).dedup = [sourceId] := by
  have hmap : chunks.map (·.sourceId) = List.replicate chunks.length sourceId := by
    rw [List.map_eq_replicate_iff]
    exact hsource
  rw [hmap, List.replicate_dedup]
  exact fun h => hchunks (List.length_eq_zero_iff.mp h)

/-- Chunks of a source go in, and its root is made anew. -/
theorem Rooted.bundled (h : c.Rooted) (hbacked : c.Backed sourceId chunks)
    (hsource : ∀ chunk ∈ chunks, chunk.sourceId = sourceId) : (c.bundled chunks).Rooted := by
  by_cases hchunks : chunks = []
  · rw [hchunks]
    exact h
  have hbacked := hbacked.resolve_left hchunks
  unfold Corpus.bundled
  rw [dedup_sourceIds hchunks hsource]
  show ((c.addChunks chunks).rollup sourceId).Rooted
  obtain ⟨rows, hadd⟩ := addChunks_eq chunks c
  have hmetadata : (c.addChunks chunks).storage.corpusMetadata = c.storage.corpusMetadata := by
    rw [hadd]
    rfl
  have hrows : ∀ other, (c.addChunks chunks).sourceRows other = c.sourceRows other ++
      ((c.newChunks chunks).map fun chunk : Chunk sub =>
        (⟨chunk, sub.leaf chunk.id chunk.text⟩ : ChunkRow sub)).filter
          fun row => row.chunk.sourceId = other := by
    intro other
    rw [sourceRows, rows_addChunks, List.filter_append]
    rfl
  refine Rooted.rollup (fun other hother => ?_) ?_
  · have hsame : (c.addChunks chunks).sourceRows other = c.sourceRows other := by
      rw [hrows, List.filter_eq_nil_iff.mpr, List.append_nil]
      intro row hrow
      obtain ⟨chunk, hchunk, rfl⟩ := List.mem_map.mp hrow
      rw [decide_eq_true_eq]
      exact fun h => hother (h.symm.trans (sourceId_of_mem_newChunks hsource chunk hchunk))
    rw [hmetadata, rootOf, hsame]
    exact h other
  · intro hnil
    rw [hrows, List.append_eq_nil_iff, List.filter_eq_nil_iff] at hnil
    rcases hbacked with hnew | hold
    · obtain ⟨chunk, hchunk⟩ := List.exists_mem_of_ne_nil _ hnew
      refine hnil.2 _ (List.mem_map_of_mem hchunk) ?_
      rw [decide_eq_true_eq]
      exact sourceId_of_mem_newChunks hsource chunk hchunk
    · exact hold hnil.1

theorem Rooted.stored (h : c.Rooted) (hbacked : c.Backed sourceId chunks)
    (hsource : ∀ chunk ∈ chunks, chunk.sourceId = sourceId) :
    (c.stored sourceId chunks).Rooted := by
  have hcleared : (c.clearRemoved sourceId).Rooted := h.congr rfl rfl
  have hbundled : ((c.clearRemoved sourceId).bundled chunks).Rooted := by
    refine hcleared.bundled ?_ hsource
    unfold Backed
    rw [newChunks_clearRemoved]
    exact hbacked
  unfold Corpus.stored
  split
  next => exact h
  next =>
    unfold foldCounts
    split
    next => exact hbundled.congr rfl rfl
    next => exact hbundled.congr rfl rfl

/-- Of each item in turn its source has a chunk once it is stored. -/
def BackedWindow (c : Corpus sub) : StoreWindow sub → Prop
  | [] => True
  | item :: items => c.Backed item.1 item.2 ∧ (c.stored item.1 item.2).BackedWindow items

/-- The same for the windows that are come to. -/
def BackedWindows (c : Corpus sub) :
    List (StoreWindow sub) → List (Option CorpusKitError) → Prop
  | [], _ => True
  | window :: windows, faults => Clear (windowSteps window) faults →
    c.BackedWindow window ∧
      (c.storedWindow window).BackedWindows windows (faults.drop (windowSteps window))

theorem Rooted.storedWindow {window : StoreWindow sub} (h : c.Rooted)
    (hbacked : c.BackedWindow window)
    (hsource : ∀ item ∈ window, ∀ chunk ∈ item.2, chunk.sourceId = item.1) :
    (c.storedWindow window).Rooted := by
  induction window generalizing c with
  | nil => exact h
  | cons item items ih =>
    rw [List.forall_mem_cons] at hsource
    exact ih (h.stored hbacked.1 hsource.1) hbacked.2 hsource.2

end Corpus

section Actions

variable {s s' : Session sub} {e : CorpusFault}

/-- No write but those of chunks and their roots sees them. -/
theorem rooting_sideInvariant (chunks : KeyedTable (@ChunkRow.id sub))
    (metadata : KeyedTable (@CorpusMetadata.sourceId sub)) :
    SideInvariant fun c : Corpus sub =>
      c.storage.chunks = chunks ∧ c.storage.corpusMetadata = metadata where
  withTables _ h := h
  dropCache h := h
  withVectors _ h := h
  install _ _ h := h
  putBasis _ h := h
  putCounts _ h := h
  remapped _ h := h
  suppressed _ h := h
  rolledBack _ _ hbefore _ := hbefore

theorem Corpus.Rooted.after {α : Type} {x : CorpusM sub α} (h : s.corpus.Rooted)
    (hx : KeepsCorpus (fun c => c.storage.chunks = s.corpus.storage.chunks ∧
      c.storage.corpusMetadata = s.corpus.storage.corpusMetadata) x) :
    After Corpus.Rooted x s :=
  (After.of_keeps hx ⟨rfl, rfl⟩).mono fun _ hkept => h.congr hkept.1 hkept.2

theorem sided_rooted : Sided (@Corpus.Rooted sub) where
  after h hx := h.after (hx (rooting_sideInvariant _ _))
  indexed _ h := h
  paced _ h := h

theorem storage_of_inTransaction_error {α : Type} {x : CorpusM sub α}
    (h : inTransaction x s = .error e s') : s'.corpus.storage = s.corpus.storage := by
  have hsame : ∀ {r : EStateM.Result CorpusFault (Session sub) Unit}, attempt s = r →
      After (fun c => c = s.corpus) attempt s := fun _ => After.of_keeps KeepsCorpus.attempt rfl
  rcases estate_bind_error.mp h with hbegin | ⟨u, s₁, hbegin, hbody⟩
  · rw [(hsame hbegin).of_error hbegin]
  rw [← (hsame hbegin).of_ok hbegin]
  unfold undoing at hbody
  cases hinner : (do let a ← x; attempt; pure a : CorpusM sub α) s₁ with
  | ok a s₂ =>
    rw [hinner] at hbody
    cases hbody
  | error e₂ s₂ =>
    rw [hinner] at hbody
    cases hbody
    rfl

/-- Windows that fail leave chunks and roots alone. -/
theorem rooted_storeWindows (windows : List (StoreWindow sub)) (s : Session sub)
    (h : s.corpus.Rooted) (hbacked : s.corpus.BackedWindows windows s.faults)
    (hsource : ∀ window ∈ windows, ∀ item ∈ window, ∀ chunk ∈ item.2, chunk.sourceId = item.1) :
    After Corpus.Rooted (windows.forM storeWindow) s := by
  induction windows generalizing s with
  | nil => exact h
  | cons window windows ih =>
    rw [List.forall_mem_cons] at hsource
    refine After.bind (fun u s₁ hrun => ?_) fun e s₁ hrun => ?_
    · obtain ⟨hclear, hfaults⟩ := (takes_storeWindow window).of_ok hrun
      have hcorpus := (does_storeWindow window).of_ok (steady_storeWindow window) hrun
      obtain ⟨hwindow, hrest⟩ := hbacked hclear
      refine ih s₁ ?_ ?_ hsource.2
      · rw [hcorpus]
        exact h.storedWindow hwindow hsource.1
      · rw [hcorpus, hfaults]
        exact hrest
    · have hstorage := storage_of_inTransaction_error hrun
      refine h.congr ?_ ?_
      · rw [hstorage]
      · rw [hstorage]

theorem sourceId_of_itemWindows {items : List IngestItem} :
    ∀ window ∈ itemWindows sub items, ∀ item ∈ window, ∀ chunk ∈ item.2,
      chunk.sourceId = item.1 := by
  intro window hwindow item hitem
  have hmem : item ∈ items.map fun item => (item.sourceId, item.chunks sub) := by
    rw [← flatten_windows (by decide : 0 < commitChunkItems) (items.map _)]
    exact List.mem_flatten.mpr ⟨window, hwindow, hitem⟩
  obtain ⟨source, -, rfl⟩ := List.mem_map.mp hmem
  exact fun chunk hchunk => (madeFor_chunkWithDefaultHlc chunk hchunk).1

/-- An ingest until the root of its source is made. -/
def storing (item : IngestItem) : CorpusM sub (List (Chunk sub)) := do
  writeCorpus fun c => c.clearRemoved item.sourceId
  bundleInsert (item.chunks sub)

theorem takes_storing (item : IngestItem) :
    Takes (1 + bundleSteps (item.chunks sub)) (@storing sub item) :=
  (Takes.writeCorpus _).bind fun _ => takes_bundleInsert _

theorem corpus_of_storing {item : IngestItem} {inserted : List (Chunk sub)}
    (h : storing item s = .ok inserted s') :
    s'.corpus = (s.corpus.clearRemoved item.sourceId).bundled (item.chunks sub) := by
  have hsteady : Steady (@storing sub item) :=
    (Steady.writeCorpus _).bind fun _ => steady_bundleInsert _
  have hrun := hsteady s inserted s' h
  unfold storing at hrun
  rw [bind_of_ok (Does.writeCorpus _ _), bundleInsert_faultless, EStateM.Result.ok.injEq,
    Session.mk.injEq] at hrun
  exact hrun.2.1.symm

theorem corpus_of_write_error {f : Corpus sub → Corpus sub} (h : writeCorpus f s = .error e s') :
    s'.corpus = s.corpus := by
  rcases estate_bind_error.mp h with h | ⟨u, s₁, -, h⟩
  · exact (After.of_keeps (P := fun c => c = s.corpus) KeepsCorpus.attempt rfl).of_error h
  · cases h

/-- A root that fails to be made stays what it was. -/
theorem corpus_of_rollup_error {sourceId : String}
    (h : rollupCorpusMerkleRoot sourceId s = .error e s') : s'.corpus = s.corpus := by
  have hsame : After (fun c => c = s.corpus) attempt s := After.of_keeps KeepsCorpus.attempt rfl
  rcases estate_bind_error.mp h with h | ⟨u, s₁, hok, h⟩
  · exact hsame.of_error h
  · rw [corpus_of_write_error h, hsame.of_ok hok]

/-- An ingest that fails before its first new chunk goes in, or has none, does not store anything. -/
theorem corpus_of_storing_error {item : IngestItem}
    (hquiet : ∀ n ∈ s.corpus.firstNew (item.chunks sub), ¬Clear (n + 2) s.faults)
    (h : storing item s = .error e s') :
    s'.corpus = s.corpus ∨ s'.corpus = s.corpus.clearRemoved item.sourceId := by
  rcases estate_bind_error.mp h with h | ⟨u, s₁, hfirst, h⟩
  · exact Or.inl (corpus_of_write_error h)
  right
  have hcleared : s₁.corpus = s.corpus.clearRemoved item.sourceId :=
    (Does.writeCorpus _).of_ok (Steady.writeCorpus _) hfirst
  obtain ⟨hclear, hfaults⟩ := (Takes.writeCorpus _).of_ok hfirst
  have hinserts := insertChunks_quiet (item.chunks sub) s₁ fun n hn hclear' => by
    have hfirstNew : (s.corpus.clearRemoved item.sourceId).firstNew (item.chunks sub) =
        s.corpus.firstNew (item.chunks sub) := by
      refine Corpus.firstNew_congr ?_ _
      rfl
    rw [hcleared, hfirstNew] at hn
    rw [hfaults] at hclear'
    refine hquiet n hn ?_
    rw [show n + 2 = 1 + (n + 1) by omega]
    exact clear_add.mpr ⟨hclear, hclear'⟩
  rw [← hcleared]
  unfold bundleInsert at h
  split at h
  next => cases h
  next hchunks =>
    have hdedup := Corpus.dedup_sourceIds hchunks fun chunk hchunk =>
      (madeFor_chunkWithDefaultHlc chunk hchunk).1
    rw [hdedup] at h
    rcases hinserts with ⟨s₂, hok, hsame⟩ | ⟨e₂, s₂, herror, hsame⟩
    · rw [bind_of_ok hok] at h
      rcases estate_bind_error.mp h with h | ⟨u, s₃, -, h⟩
      · rcases estate_bind_error.mp h with h | ⟨u, s₃, -, h⟩
        · rw [corpus_of_rollup_error h, hsame]
        · cases h
      · cases h
    · rcases estate_bind_error.mp h with h | ⟨inserted, s₃, hok, -⟩
      · rw [herror, EStateM.Result.error.injEq] at h
        rw [← h.2, hsame]
      · rw [herror] at hok
        cases hok

/-- An ingest keeps chunks and roots in step, unless it fails between the two, or makes a root for
a source without chunks. -/
theorem rooted_ingest (threads : Threads) {item : IngestItem} (h : s.corpus.Rooted)
    (hwhole : ∀ n ∈ s.corpus.firstNew (item.chunks sub), Clear (n + 2) s.faults →
      Clear (1 + bundleSteps (item.chunks sub)) s.faults)
    (hbacked : Clear (1 + bundleSteps (item.chunks sub)) s.faults →
      s.corpus.Backed item.sourceId (item.chunks sub)) :
    After Corpus.Rooted (ingest threads item) s := by
  by_cases hchunks : item.chunks sub = []
  · unfold ingest
    rw [if_pos hchunks]
    exact h
  have hingest : @ingest sub threads item = storing item >>= fun inserted => (do
      clockString item.nowSecs
      (item.chunks sub).forM indexChunk
      modifyCorpus fun c => c.mapChunks (item.chunks sub) item.sourceId
      foldChunksIntoCounts inserted
      let c ← getCorpus
      let slots ← trainFirst threads item.nowSecs none (List.range c.slots.length)
      foldIn threads (item.chunks sub) item.nowSecs slots
      persistMaintainedCounts item.nowSecs : CorpusM sub Unit) := by
    unfold ingest storing
    rw [if_neg hchunks]
    simp only [bind_assoc]
  rw [hingest]
  refine After.bind (fun inserted s₁ hrun => ?_) fun e s₁ hrun => ?_
  · obtain ⟨hclear, -⟩ := (takes_storing item).of_ok hrun
    have hrooted : s₁.corpus.Rooted := by
      have hcleared : (s.corpus.clearRemoved item.sourceId).Rooted := h.congr rfl rfl
      rw [corpus_of_storing hrun]
      refine hcleared.bundled ?_ fun chunk hchunk => (madeFor_chunkWithDefaultHlc chunk hchunk).1
      unfold Corpus.Backed
      rw [Corpus.newChunks_clearRemoved]
      exact hbacked hclear
    refine hrooted.after ?_
    have hP := rooting_sideInvariant s₁.corpus.storage.chunks s₁.corpus.storage.corpusMetadata
    refine KeepsCorpus.bind (.ite (.throw _) (.pure ())) fun _ =>
      KeepsCorpus.bind (.forM hP.indexChunk _) fun _ => ?_
    refine KeepsCorpus.bind (KeepsCorpus.modifyCorpus fun _ hc => hP.remapped _ hc) fun _ => ?_
    refine KeepsCorpus.bind (KeepsCorpus.modifyCorpus fun c hc => ?_) fun _ =>
      KeepsCorpus.bind .getCorpus fun c => KeepsCorpus.bind (hP.trainFirst _ _ _ _) fun _ =>
        KeepsCorpus.bind (hP.foldIn _ _ _ _) fun _ => hP.persistMaintainedCounts _
    unfold Corpus.foldCounts
    split
    next => exact hc
    next => exact hc
  · have hbroken := (takes_storing item).of_error hrun
    have hquiet : ∀ n ∈ s.corpus.firstNew (item.chunks sub), ¬Clear (n + 2) s.faults :=
      fun n hn hclear => hbroken (hwhole n hn hclear)
    rcases corpus_of_storing_error hquiet hrun with hcorpus | hcorpus
    · rw [hcorpus]
      exact h
    · rw [hcorpus]
      exact h.congr rfl rfl

/-- A call on one corpus that is not broken off between a new chunk's going in and the root of its
source, and makes no root for a source without chunks. -/
def CorpusCall.RollsUp (threads : Threads) (s : Session sub) (call : CorpusCall sub) : Prop :=
  call.OnOneCorpus ∧
    (∀ item, call = .ingest item →
      (∀ n ∈ s.corpus.firstNew (item.chunks sub), Clear (n + 2) s.faults →
        Clear (1 + bundleSteps (item.chunks sub)) s.faults) ∧
      (Clear (1 + bundleSteps (item.chunks sub)) s.faults →
        s.corpus.Backed item.sourceId (item.chunks sub))) ∧
    (Clear (call.windowed threads).2 s.faults →
      s.corpus.BackedWindows (itemWindows sub (call.windowed threads).1)
        (s.faults.drop (call.windowed threads).2))

theorem rooted_call {weighting : ImpactWeighting} {threads : Threads} {call : CorpusCall sub}
    (h : s.corpus.Rooted) (hrolls : call.RollsUp threads s) :
    (call.outcome weighting threads s).Rooted := by
  obtain ⟨hone, hingest, hwindows⟩ := hrolls
  refine after_call sided_rooted hone h (fun item hitem => ?_) fun σ hcorpus hclear hfaults => ?_
  · obtain ⟨hwhole, hbacked⟩ := hingest item hitem
    exact rooted_ingest threads h hwhole hbacked
  · refine rooted_storeWindows _ σ (hcorpus ▸ h) ?_ sourceId_of_itemWindows
    rw [hcorpus, hfaults]
    exact hwindows hclear

end Actions

/-- The corpora that calls lead to from tables that are opened with a root for every source that
has chunks, and for no other, however the calls end, where all of them roll up. -/
inductive Attested (weighting : ImpactWeighting) : Corpus sub → Prop
  | opened {storage : CorpusStorage sub} {postings : PostingTables}
      {models : List (EmbeddingModelConfig sub)} {c : Corpus sub}
      (h : openMany storage postings models = .ok c) (hrooted : c.Rooted) : Attested weighting c
  | call {call : CorpusCall sub} {threads : Threads} {s : Session sub}
      (h : Attested weighting s.corpus) (hrolls : call.RollsUp threads s) :
      Attested weighting (call.outcome weighting threads s)

theorem Attested.rooted {weighting : ImpactWeighting} {c : Corpus sub}
    (h : Attested weighting c) : c.Rooted := by
  induction h with
  | opened _ hrooted => exact hrooted
  | call _ hrolls ih => exact rooted_call ih hrolls

/-- The roots that are read follow the chunks, and the same chunks have the same roots. -/
theorem roots_follow {weighting : ImpactWeighting}
    (hinterior : ∀ l l' : List (sub.ChunkId × sub.ContentHash),
      l.Perm l' → sub.interior l = sub.interior l')
    (empty : sub.ContentHash) (corpusUuid : String → sub.ChunkId) {c d : Corpus sub}
    (hc : Attested weighting c) (hd : Attested weighting d) :
    c.RootsFollow empty corpusUuid ∧
      ((∀ row, row ∈ c.storage.chunks.rows ↔ row ∈ d.storage.chunks.rows) →
        (∀ sourceId, c.corpusMerkleRoot empty sourceId = d.corpusMerkleRoot empty sourceId) ∧
          c.globalCorpusMerkleRoot corpusUuid = d.globalCorpusMerkleRoot corpusUuid) :=
  ⟨hc.rooted.follow hinterior empty corpusUuid, fun hrows =>
    hc.rooted.ext hinterior hd.rooted hrows empty corpusUuid⟩

/-- The reference substrate, with a hash over a set of children. -/
@[reducible] def rootingCorpus : CorpusSubstrate :=
  { referenceCorpus with
    interior := fun children => String.join ((children.map (·.2)).insertionSort (· ≤ ·)) }

theorem rootingCorpus_interior (l l' : List (rootingCorpus.ChunkId × rootingCorpus.ContentHash))
    (h : l.Perm l') : rootingCorpus.interior l = rootingCorpus.interior l' := by
  have hsorted : (l.map (·.2)).insertionSort (· ≤ ·) = (l'.map (·.2)).insertionSort (· ≤ ·) := by
    refine @List.Perm.eq_of_pairwise' _ (· ≤ ·) _ _ _ ?_ ?_ ?_
    · exact List.pairwise_insertionSort _ _
    · exact List.pairwise_insertionSort _ _
    · exact (List.perm_insertionSort _ _).trans ((h.map _).trans (List.perm_insertionSort _ _).symm)
  exact congrArg String.join hsorted

namespace ReferenceCorpus

def rootingModels : List (EmbeddingModelConfig rootingCorpus) := [.plain (.fixed "m") []]

/-- The tables of an estate that was filled before there were roots. -/
def upgraded : CorpusStorage rootingCorpus :=
  { CorpusStorage.empty with
    chunks := KeyedTable.empty.put ⟨⟨"x", "s", 0, 5, "alpha", ⟨0, 0, 0⟩⟩, "x:alpha"⟩ }

def openedOn (storage : CorpusStorage rootingCorpus) : Corpus rootingCorpus where
  storage := storage
  invertedIndex := .opened .empty
  chunkSourceMap := storage.sourceOf
  slots := rootingModels.map (buildSlot storage)
  encodeSpeed := .foreground

/-- The call under the faults, on an estate with the tables. -/
def left (storage : CorpusStorage rootingCorpus) (call : CorpusCall rootingCorpus)
    (faults : List (Option CorpusKitError)) : Corpus rootingCorpus :=
  call.outcome floats.weighting oneThread ⟨openedOn storage, faults⟩

/-- A text ingested on its own. -/
def single : Corpus rootingCorpus := left .empty (.ingest ⟨"alpha beta", "s", 0⟩) []

/-- The same as a batch. -/
def batched : Corpus rootingCorpus := left .empty (.ingestBatch [⟨"alpha beta", "s", 0⟩]) []

theorem attested_single : Attested floats.weighting single ∧ Attested floats.weighting batched := by
  have hopened : Attested floats.weighting (openedOn .empty) :=
    .opened (if_neg (List.cons_ne_nil _ _)) fun _ => rfl
  have hclear : ∀ n, Clear n [] := fun n k _ e => by simp
  constructor
  · refine @Attested.call _ floats.weighting (.ingest ⟨"alpha beta", "s", 0⟩) oneThread
      ⟨openedOn .empty, []⟩ hopened ⟨trivial, fun item hitem => ?_, fun _ => trivial⟩
    cases hitem
    exact ⟨fun _ _ _ => hclear _, fun _ => Or.inr (Or.inl (by decide +kernel))⟩
  · refine @Attested.call _ floats.weighting (.ingestBatch [⟨"alpha beta", "s", 0⟩]) oneThread
      ⟨openedOn .empty, []⟩ hopened
        ⟨trivial, fun item hitem => ?_, fun _ _ => ⟨⟨?_, trivial⟩, trivial⟩⟩
    · cases hitem
    · exact Or.inr (Or.inl (by decide +kernel))

end ReferenceCorpus

/-- The roots after an ingest, and after the same as a batch. -/
theorem roots_follow_reference :
    ReferenceCorpus.single.RootsFollow "" id ∧
      ((∀ row, row ∈ ReferenceCorpus.single.storage.chunks.rows ↔
          row ∈ ReferenceCorpus.batched.storage.chunks.rows) →
        (∀ sourceId, ReferenceCorpus.single.corpusMerkleRoot "" sourceId =
            ReferenceCorpus.batched.corpusMerkleRoot "" sourceId) ∧
          ReferenceCorpus.single.globalCorpusMerkleRoot id =
            ReferenceCorpus.batched.globalCorpusMerkleRoot id) :=
  roots_follow rootingCorpus_interior "" id ReferenceCorpus.attested_single.1
    ReferenceCorpus.attested_single.2

/-- Tables from before there were roots have none after they are opened, nor has a source whose
ingest failed between its chunk and its root. -/
theorem not_roots_follow :
    openMany ReferenceCorpus.upgraded .empty ReferenceCorpus.rootingModels =
        .ok (ReferenceCorpus.openedOn ReferenceCorpus.upgraded) ∧
      ¬(ReferenceCorpus.left ReferenceCorpus.upgraded (.remove "t") []).RootsFollow "" id ∧
      ¬(ReferenceCorpus.left .empty (.ingest ⟨"alpha beta", "s", 0⟩)
        [none, none, some ReferenceCorpus.lockedOut]).RootsFollow "" id := by
  refine ⟨if_neg (List.cons_ne_nil _ _), fun h => ?_, fun h => ?_⟩
  · have hroot := h.corpus "s" (by decide +kernel)
    revert hroot
    decide +kernel
  · have hroot := h.corpus "s" (by decide +kernel)
    revert hroot
    decide +kernel

end MootMemory
