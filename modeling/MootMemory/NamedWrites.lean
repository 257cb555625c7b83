import MootMemory.CorpusReach
import MootMemory.EffectViews

namespace MootMemory

variable {sub : CorpusSubstrate} {P : Corpus sub → Prop}

/-- However the action ends, the corpus has the property after it if it had it before. -/
def KeepsCorpus {α : Type} (P : Corpus sub → Prop) (x : CorpusM sub α) : Prop :=
  Preserves (fun s => P s.corpus) x

section Combinators

variable {α β : Type}

theorem KeepsCorpus.pure (a : α) : KeepsCorpus P (pure a : CorpusM sub α) := Preserves.pure a

theorem KeepsCorpus.throw (e : CorpusFault) : KeepsCorpus P (throw e : CorpusM sub α) :=
  Preserves.throw e

theorem KeepsCorpus.bind {x : CorpusM sub α} {f : α → CorpusM sub β} (hx : KeepsCorpus P x)
    (hf : ∀ a, KeepsCorpus P (f a)) : KeepsCorpus P (x >>= f) := Preserves.bind hx hf

theorem KeepsCorpus.ite {p : Prop} [Decidable p] {x y : CorpusM sub α} (hx : KeepsCorpus P x)
    (hy : KeepsCorpus P y) : KeepsCorpus P (if p then x else y) := Preserves.ite hx hy

theorem KeepsCorpus.forM {ι : Type} {f : ι → CorpusM sub Unit} (h : ∀ i, KeepsCorpus P (f i))
    (l : List ι) : KeepsCorpus P (l.forM f) := Preserves.forM h l

theorem KeepsCorpus.attempt : KeepsCorpus P (attempt : CorpusM sub Unit) := by
  rintro ⟨c, faults⟩ h
  rcases faults with - | ⟨- | e, faults⟩
  · exact h
  · exact h
  · exact h

theorem KeepsCorpus.getCorpus : KeepsCorpus P (getCorpus : CorpusM sub (Corpus sub)) := fun _ h => h

theorem KeepsCorpus.modifyCorpus {f : Corpus sub → Corpus sub} (hf : ∀ c, P c → P (f c)) :
    KeepsCorpus P (modifyCorpus f) := fun s h => hf s.corpus h

theorem KeepsCorpus.readCorpus (f : Corpus sub → α) : KeepsCorpus P (readCorpus f) :=
  KeepsCorpus.bind .attempt fun _ => KeepsCorpus.bind .getCorpus fun _ => .pure _

theorem KeepsCorpus.writeCorpus {f : Corpus sub → Corpus sub} (hf : ∀ c, P c → P (f c)) :
    KeepsCorpus P (writeCorpus f) := KeepsCorpus.bind .attempt fun _ => KeepsCorpus.modifyCorpus hf

theorem KeepsCorpus.mapM {f : β → CorpusM sub α} (h : ∀ i, KeepsCorpus P (f i)) (l : List β) :
    KeepsCorpus P (l.mapM f) := by
  induction l with
  | nil => exact .pure []
  | cons i is ih =>
    rw [List.mapM_cons]
    exact KeepsCorpus.bind (h i) fun _ => KeepsCorpus.bind ih fun _ => .pure _

/-- What is undone has the tables of before or after it. -/
theorem KeepsCorpus.undoing {undo : Corpus sub → Corpus sub → Corpus sub} {x : CorpusM sub α}
    (hundo : ∀ before after, P before → P after → P (undo before after))
    (hx : KeepsCorpus P x) : KeepsCorpus P (undoing undo x) := by
  have hy : KeepsCorpus P (do let a ← x; MootMemory.attempt; Pure.pure a : CorpusM sub α) :=
    KeepsCorpus.bind hx fun _ => KeepsCorpus.bind .attempt fun _ => .pure _
  intro s h
  have hs := hy s h
  unfold MootMemory.undoing
  cases hrun : (do let a ← x; MootMemory.attempt; Pure.pure a : CorpusM sub α) s with
  | ok a s' => rw [hrun] at hs; exact hs
  | error e s' => rw [hrun] at hs; exact hundo _ _ h hs

theorem KeepsCorpus.inTransaction {x : CorpusM sub α}
    (hundo : ∀ before after, P before → P after → P (after.withStorage before.storage))
    (hx : KeepsCorpus P x) : KeepsCorpus P (inTransaction x) :=
  KeepsCorpus.bind .attempt fun _ => hx.undoing hundo

theorem KeepsCorpus.runAll {xs : List (CorpusM sub Unit)} (h : ∀ x ∈ xs, KeepsCorpus P x) :
    KeepsCorpus P (runAll xs) := by
  induction xs with
  | nil => exact .pure ()
  | cons x xs ih =>
    have hx := h x List.mem_cons_self
    have hxs := ih fun y hy => h y (List.mem_cons_of_mem _ hy)
    intro s hs
    have hfirst := hx s hs
    unfold MootMemory.runAll
    cases hrun : x s with
    | ok u s₁ =>
      rw [hrun] at hfirst
      exact hxs s₁ hfirst
    | error e s₁ =>
      rw [hrun] at hfirst
      have hrest := hxs s₁ hfirst
      dsimp only
      cases hrunAll : MootMemory.runAll xs s₁ with
      | ok u s₂ => rw [hrunAll] at hrest; exact hrest
      | error e s₂ => rw [hrunAll] at hrest; exact hrest

end Combinators

section Answers

variable {α β : Type} {R : α → Prop}

/-- However the action ends the corpus keeps the property, and where it ends well its answer is as
it should be. -/
def Yields (P : Corpus sub → Prop) (R : α → Prop) (x : CorpusM sub α) : Prop :=
  ∀ s, P s.corpus → match x s with
    | .ok a s' => P s'.corpus ∧ R a
    | .error _ s' => P s'.corpus

theorem Yields.pure {a : α} (h : R a) : Yields P R (pure a : CorpusM sub α) := fun _ hs => ⟨hs, h⟩

theorem Yields.throw (e : CorpusFault) : Yields P R (throw e : CorpusM sub α) := fun _ hs => hs

theorem Yields.bind {Q : β → Prop} {x : CorpusM sub α} {f : α → CorpusM sub β}
    (hx : Yields P R x) (hf : ∀ a, R a → Yields P Q (f a)) : Yields P Q (x >>= f) := by
  intro s hs
  have hfirst := hx s hs
  cases hrun : x s with
  | ok a s₁ =>
    rw [hrun] at hfirst
    rw [bind_of_ok hrun]
    exact hf a hfirst.2 s₁ hfirst.1
  | error e s₁ =>
    rw [hrun] at hfirst
    simp only [Bind.bind, EStateM.bind, hrun]
    exact hfirst

theorem KeepsCorpus.yields {x : CorpusM sub α} (hx : KeepsCorpus P x) :
    Yields P (fun _ => True) x := by
  intro s hs
  have hrun := hx s hs
  cases hx' : x s with
  | ok a s' =>
    rw [hx'] at hrun
    exact ⟨hrun, trivial⟩
  | error e s' =>
    rw [hx'] at hrun
    exact hrun

theorem Yields.keeps {x : CorpusM sub α} (hx : Yields P R x) : KeepsCorpus P x := by
  intro s hs
  have hrun := hx s hs
  cases hx' : x s with
  | ok a s' =>
    rw [hx'] at hrun
    exact hrun.1
  | error e s' =>
    rw [hx'] at hrun
    exact hrun

/-- Before an action that keeps the property, whatever the answers are. -/
theorem KeepsCorpus.andThen {Q : β → Prop} {x : CorpusM sub α} {f : α → CorpusM sub β}
    (hx : KeepsCorpus P x) (hf : ∀ a, Yields P Q (f a)) : Yields P Q (x >>= f) :=
  hx.yields.bind fun a _ => hf a

theorem Yields.mapM {f : β → CorpusM sub α} (h : ∀ b, Yields P R (f b)) (l : List β) :
    Yields P (fun as => ∀ a ∈ as, R a) (l.mapM f) := by
  induction l with
  | nil => exact .pure fun _ ha => absurd ha List.not_mem_nil
  | cons b l ih =>
    rw [List.mapM_cons]
    refine (h b).bind fun a ha => ih.bind fun as has => .pure ?_
    exact List.forall_mem_cons.mpr ⟨ha, has⟩

end Answers

/-- A property that no write ends that is under a name as it should be, but those of chunks and of
counts in memory. -/
structure NamedInvariant (N : String → Prop) (P : Corpus sub → Prop) : Prop where
  named : ∀ id, N (sub.idText id)
  putTermFreq : ∀ {c : Corpus sub} {row : TermFreq}, N row.itemId → P c → P (c.putTermFreq row)
  putDocLen : ∀ {c : Corpus sub} {row : DocLen}, N row.itemId → P c → P (c.putDocLen row)
  deletedTerms : ∀ {c : Corpus sub} (p : TermFreq → Bool), P c →
    P (c.withTables fun t => { t with termFreqs := t.termFreqs.deleteWhere p })
  deletedLens : ∀ {c : Corpus sub} (p : DocLen → Bool), P c →
    P (c.withTables fun t => { t with docLens := t.docLens.deleteWhere p })
  merged : ∀ {c : Corpus sub} {shard : PostingTables},
    (∀ row ∈ shard.termFreqs.rows, N row.itemId) → (∀ row ∈ shard.docLens.rows, N row.itemId) →
      P c → P (c.withTables fun t => t.overwrite shard)
  unposted : ∀ before after : Corpus sub, P before → P after →
    P (after.withTables fun _ => before.invertedIndex.tables)
  dropCache : ∀ {c : Corpus sub}, P c → P c.dropCache
  putVector : ∀ {c : Corpus sub} {input : VectorPayloadInput}, N input.itemId → P c →
    P (c.putVector input)
  deletedVectors : ∀ {c : Corpus sub} (p : VectorRow → Bool), P c →
    P (c.withVectors (c.storage.vectors.delete p))
  replaced : ∀ {c : Corpus sub} {modelId : String} {batch : List VectorPayloadInput}
    {vectors : VectorTable}, (∀ input ∈ batch, N input.itemId) →
      c.storage.vectors.replaceModel modelId batch = some vectors → P c → P (c.withVectors vectors)
  install : ∀ {c : Corpus sub} (i : Nat) (trained : sub.State), P c → P (c.install i trained)
  putBasis : ∀ {c : Corpus sub} (row : PersistedBasis), P c → P (c.putBasis row)
  putCounts : ∀ {c : Corpus sub} (row : PersistedCounts), P c → P (c.putCounts row)
  remapped : ∀ {c : Corpus sub} (chunkSourceMap : sub.ChunkId → Option String), P c →
    P { c with chunkSourceMap }
  suppressed : ∀ {c : Corpus sub} (removedSources : Finset String), P c →
    P { c with storage := { c.storage with removedSources } }
  rolledBack : ∀ before after : Corpus sub, P before → P after →
    P (after.withStorage before.storage)

/-- The rows are under names as they should be. -/
def RowsNamed (N : String → Prop) (rows : List VectorPayloadInput) : Prop :=
  ∀ row ∈ rows, N row.itemId

theorem rowsNamed_flatten {N : String → Prop} {batches : List (List VectorPayloadInput)}
    (h : ∀ rows ∈ batches, RowsNamed N rows) : RowsNamed N batches.flatten := by
  intro row hrow
  obtain ⟨rows, hrows, hmem⟩ := List.mem_flatten.mp hrow
  exact h rows hrows row hmem

/-- What is put together was handed back. -/
theorem exists_of_reassemble {α : Type} {pieces : Nat} {results : List (Nat × α)} {all : List α}
    (h : reassemble pieces results = .ok all) : ∀ a ∈ all, ∃ i, (i, a) ∈ results := by
  have hplaces : ∀ (results : List (Nat × α)) (places : List (Option α)) (a : α),
      some a ∈ results.foldl (fun places result => places.set result.1 (some result.2)) places →
        some a ∈ places ∨ ∃ i, (i, a) ∈ results := by
    intro results
    induction results with
    | nil => exact fun _ _ h => Or.inl h
    | cons result results ih =>
      intro places a ha
      rcases ih _ _ ha with ha | ⟨i, hi⟩
      · rcases List.mem_or_eq_of_mem_set ha with ha | ha
        · exact Or.inl ha
        · exact Or.inr ⟨result.1, by rw [Option.some.inj ha]; exact List.mem_cons_self⟩
      · exact Or.inr ⟨i, List.mem_cons_of_mem _ hi⟩
  intro a ha
  obtain ⟨⟨b | b, i⟩, hi, hplace⟩ := mem_of_mapM_ok h ha <;> cases hplace
  have hmem : some a ∈ results.foldl (fun places result => places.set result.1 (some result.2))
      (List.replicate pieces none) := by
    have hget := List.mem_zipIdx hi
    rw [hget.2.2]
    exact List.getElem_mem _
  rcases hplaces results _ a hmem with hnone | hfound
  · cases List.eq_of_mem_replicate hnone
  · exact hfound

namespace NamedInvariant

variable {N : String → Prop} (hP : NamedInvariant N P)

include hP

section Steps

theorem deleteFromDb (itemId : String) : KeepsCorpus P (deleteFromDb itemId) :=
  KeepsCorpus.bind (KeepsCorpus.writeCorpus fun _ h => hP.deletedTerms _ h) fun _ =>
    KeepsCorpus.writeCorpus fun _ h => hP.deletedLens _ h

theorem indexChunk (chunk : Chunk sub) : KeepsCorpus P (indexChunk chunk) := by
  refine KeepsCorpus.bind (hP.deleteFromDb _) fun _ =>
    KeepsCorpus.ite (KeepsCorpus.modifyCorpus fun _ h => hP.dropCache h) ?_
  have hrows : ∀ rows : List TermFreq, (∀ row ∈ rows, row.itemId = sub.idText chunk.id) →
      KeepsCorpus P (rows.forM fun row => writeCorpus fun c : Corpus sub => c.putTermFreq row) := by
    intro rows
    induction rows with
    | nil => exact fun _ => .pure ()
    | cons row rows ih =>
      intro h
      rw [List.forall_mem_cons] at h
      refine KeepsCorpus.bind (KeepsCorpus.writeCorpus fun _ hc => ?_) fun _ => ih h.2
      exact hP.putTermFreq (h.1 ▸ hP.named chunk.id) hc
  refine KeepsCorpus.bind (hrows _ fun row hrow => ?_) fun _ => ?_
  · obtain ⟨term, -, rfl⟩ := List.mem_map.mp hrow
    rfl
  · refine KeepsCorpus.bind (KeepsCorpus.writeCorpus fun _ h => ?_) fun _ =>
      KeepsCorpus.modifyCorpus fun _ h => hP.dropCache h
    exact hP.putDocLen (hP.named chunk.id) h

theorem inIndexBatch {α : Type} {x : CorpusM sub α} (hx : KeepsCorpus P x) :
    KeepsCorpus P (inIndexBatch x) :=
  KeepsCorpus.bind .attempt fun _ => hx.undoing hP.unposted

theorem embedChunks (kind : sub.Kind) (state : sub.State) (filedAtSecs : Int)
    (chunks : List (Chunk sub)) :
    Yields P (RowsNamed N) (embedChunks kind state filedAtSecs chunks) := by
  have hchunk : ∀ chunk : Chunk sub,
      Yields P (RowsNamed N) (embedChunk kind state filedAtSecs chunk) := by
    refine fun chunk => KeepsCorpus.attempt.andThen fun _ => .pure fun row hrow => ?_
    have hitem : row.itemId = sub.idText chunk.id := by
      unfold chunkRows at hrow
      rcases List.mem_cons.mp hrow with rfl | hrow
      · rfl
      · split at hrow
        next => exact absurd hrow List.not_mem_nil
        next =>
          rw [List.mem_singleton.mp hrow]
    exact hitem ▸ hP.named chunk.id
  exact (Yields.mapM hchunk chunks).bind fun rows hrows => .pure (rowsNamed_flatten hrows)

theorem addPayloads {batch : List VectorPayloadInput} (hbatch : RowsNamed N batch) :
    KeepsCorpus P (addPayloads batch) := by
  have hrows : KeepsCorpus P
      (batch.forM fun input => writeCorpus fun c : Corpus sub => c.putVector input) := by
    induction batch with
    | nil => exact .pure ()
    | cons input batch ih =>
      obtain ⟨hinput, hrest⟩ := List.forall_mem_cons.mp hbatch
      exact KeepsCorpus.bind (KeepsCorpus.writeCorpus fun _ h => hP.putVector hinput h) fun _ =>
        ih hrest
  exact KeepsCorpus.ite (.pure ()) (KeepsCorpus.bind hrows fun _ => .attempt)

theorem replaceModelVectors (modelId : String) {batch : List VectorPayloadInput}
    (hbatch : RowsNamed N batch) : KeepsCorpus P (replaceModelVectors modelId batch) := by
  refine KeepsCorpus.bind KeepsCorpus.attempt fun _ => ?_
  intro s h
  rw [getCorpus_bind]
  cases hreplace : s.corpus.storage.vectors.replaceModel modelId batch with
  | none => exact h
  | some vectors => exact KeepsCorpus.attempt _ (hP.replaced hbatch hreplace h)

theorem persistMaintainedCounts (nowSecs : Int) :
    KeepsCorpus P (persistMaintainedCounts nowSecs) := by
  refine KeepsCorpus.bind KeepsCorpus.getCorpus fun c => .forM (fun slot => ?_) _
  unfold persistSlotCounts
  cases slot.counts with
  | none => exact .pure ()
  | some state => exact KeepsCorpus.writeCorpus fun _ h => hP.putCounts _ h

theorem trainAndPersistBasis (slotIndex : Nat) (chunks : List (Chunk sub)) (nowSecs : Int) :
    KeepsCorpus P (trainAndPersistBasis slotIndex chunks nowSecs) := by
  refine KeepsCorpus.bind KeepsCorpus.getCorpus fun c => ?_
  cases c.slots[slotIndex]? with
  | none => exact .pure ()
  | some slot =>
    cases hblob : slot.freshBasisBlob with
    | none => simp only [hblob]; exact .pure ()
    | some blob =>
      cases hcounts : slot.counts with
      | none => simp only [hblob, hcounts]; exact .throw _
      | some state =>
        simp only [hblob, hcounts]
        refine KeepsCorpus.bind KeepsCorpus.attempt fun _ => ?_
        exact KeepsCorpus.bind (KeepsCorpus.modifyCorpus fun _ h => hP.install _ _ h) fun _ =>
          KeepsCorpus.writeCorpus fun _ h => hP.putBasis _ h

theorem reembedChunks (threads : Threads) (slotIndex : Nat) (chunks : List (Chunk sub))
    (filedAtSecs : Int) : KeepsCorpus P (reembedChunks threads slotIndex chunks filedAtSecs) := by
  refine KeepsCorpus.bind KeepsCorpus.getCorpus fun c => ?_
  cases c.slots[slotIndex]? with
  | none => exact .pure ()
  | some slot =>
    have hclaimed : ∀ claimed : List Nat, Yields P
        (fun outs => ∀ out ∈ outs, RowsNamed N out.2)
        (embedClaimed slot filedAtSecs (windows reembedBatchSize chunks) claimed) := by
      refine fun claimed => Yields.mapM (fun i => ?_) claimed
      exact (hP.embedChunks _ _ _ _).bind fun rows hrows => .pure hrows
    refine Yields.keeps (R := fun _ => True) (Yields.bind (R := RowsNamed N ∘ List.flatten) ?_
      fun rows hrows => (hP.replaceModelVectors _ hrows).yields)
    refine (Yields.mapM hclaimed _).bind fun outs houts => ?_
    cases hall : reassemble (windows reembedBatchSize chunks).length outs.flatten with
    | error i => exact .throw _
    | ok rows =>
      refine .pure (rowsNamed_flatten fun batch hbatch => ?_)
      obtain ⟨i, hmem⟩ := exists_of_reassemble hall batch hbatch
      obtain ⟨out, hout, hmem⟩ := List.mem_flatten.mp hmem
      exact houts out hout _ hmem

omit hP in
theorem activeChunks : KeepsCorpus P (@activeChunks sub) :=
  KeepsCorpus.bind KeepsCorpus.attempt fun _ => KeepsCorpus.readCorpus _

theorem trainFirst (threads : Threads) (filedAtSecs : Int) (cached : Option (List (Chunk sub)))
    (slots : List Nat) : KeepsCorpus P (trainFirst threads filedAtSecs cached slots) := by
  induction slots generalizing cached with
  | nil => exact .pure []
  | cons i slots ih =>
    refine KeepsCorpus.bind KeepsCorpus.getCorpus fun c => ?_
    cases (c.slots[i]?).bind (·.freshBasisBlob) with
    | none => exact KeepsCorpus.bind (ih cached) fun _ => .pure _
    | some blob =>
      refine KeepsCorpus.bind (KeepsCorpus.readCorpus _) fun needed =>
        KeepsCorpus.ite ?_ (KeepsCorpus.bind (ih cached) fun _ => .pure _)
      have hrest : ∀ all : List (Chunk sub), KeepsCorpus P (do
          MootMemory.trainAndPersistBasis i all filedAtSecs
          MootMemory.reembedChunks threads i all filedAtSecs
          MootMemory.trainFirst threads filedAtSecs (some all) slots) := fun all =>
        KeepsCorpus.bind (hP.trainAndPersistBasis _ _ _) fun _ =>
          KeepsCorpus.bind (hP.reembedChunks _ _ _ _) fun _ => ih _
      cases cached with
      | none => exact KeepsCorpus.bind activeChunks hrest
      | some all => exact hrest all

theorem foldIn (threads : Threads) (chunks : List (Chunk sub)) (filedAtSecs : Int)
    (slots : List Nat) : KeepsCorpus P (foldIn threads chunks filedAtSecs slots) := by
  refine KeepsCorpus.ite (.pure ()) (KeepsCorpus.bind KeepsCorpus.getCorpus fun c => ?_)
  have hslot : ∀ i, Yields P (RowsNamed N) (embedSlot chunks filedAtSecs i) := by
    refine fun i => KeepsCorpus.getCorpus.andThen fun c => ?_
    cases c.slots[i]? with
    | none => exact .pure fun _ h => absurd h List.not_mem_nil
    | some slot => exact hP.embedChunks _ _ _ _
  have hbatches := Yields.mapM (fun batch : List Nat => Yields.mapM hslot batch)
    (windows (threads.embedConcurrencyCap c.encodeSpeed) slots)
  refine (hbatches.bind fun rows hrows => (hP.addPayloads ?_).yields).keeps
  refine rowsNamed_flatten fun batch hbatch => ?_
  obtain ⟨outs, houts, hbatch⟩ := List.mem_flatten.mp hbatch
  exact hrows outs houts batch hbatch

theorem indexChunks (chunks : List (Chunk sub)) : KeepsCorpus P (indexChunks chunks) :=
  .forM (fun _ => hP.inIndexBatch (.forM hP.indexChunk _)) _

omit hP in
theorem needsBootstrap (slots : List Nat) : KeepsCorpus P (@needsBootstrap sub slots) := by
  induction slots with
  | nil => exact .pure false
  | cons i slots ih =>
    refine KeepsCorpus.bind KeepsCorpus.getCorpus fun c => ?_
    cases (c.slots[i]?).bind (·.freshBasisBlob) with
    | none => exact ih
    | some blob => exact KeepsCorpus.bind (KeepsCorpus.readCorpus _) fun _ => .ite (.pure true) ih

theorem bootstrap (nowSecs : Int) : KeepsCorpus P (bootstrap nowSecs) := by
  refine KeepsCorpus.bind KeepsCorpus.getCorpus fun c =>
    KeepsCorpus.bind (needsBootstrap _) fun _ => ?_
  refine KeepsCorpus.ite (KeepsCorpus.bind activeChunks fun _ =>
    .ite (.pure ()) (.forM (fun i => ?_) _)) (.pure ())
  refine KeepsCorpus.bind KeepsCorpus.getCorpus fun c => ?_
  cases (c.slots[i]?).bind (·.freshBasisBlob) with
  | none => exact .pure ()
  | some blob =>
    refine KeepsCorpus.bind (KeepsCorpus.readCorpus _) fun _ => .ite ?_ (.pure ())
    exact hP.trainAndPersistBasis _ _ _

theorem embedItems (threads : Threads) (items : List IngestItem) :
    Yields P (RowsNamed N) (@embedItems sub threads items) := by
  refine KeepsCorpus.getCorpus.andThen fun c => ?_
  have hitem : ∀ item, Yields P (RowsNamed N) (embedItem c.slots item) := fun item =>
    (Yields.mapM (fun slot => hP.embedChunks _ _ _ _) c.slots).bind fun rows hrows =>
      .pure (rowsNamed_flatten hrows)
  refine (Yields.mapM (fun slice => Yields.mapM hitem slice) _).bind fun rows hrows => .pure ?_
  refine rowsNamed_flatten fun batch hbatch => ?_
  obtain ⟨outs, houts, hbatch⟩ := List.mem_flatten.mp hbatch
  exact hrows outs houts batch hbatch

theorem writeRows {rows : List VectorPayloadInput} (hrows : RowsNamed N rows) :
    KeepsCorpus P (writeRows rows) := by
  have hwindows : ∀ wins : List (List VectorPayloadInput), (∀ window ∈ wins, RowsNamed N window) →
      KeepsCorpus P (wins.forM fun window =>
        inTransaction (MootMemory.addPayloads window : CorpusM sub Unit)) := by
    intro wins
    induction wins with
    | nil => exact fun _ => .pure ()
    | cons window wins ih =>
      intro h
      rw [List.forall_mem_cons] at h
      exact KeepsCorpus.bind ((hP.addPayloads h.1).inTransaction hP.rolledBack) fun _ => ih h.2
  refine hwindows _ fun window hwindow row hrow => hrows row ?_
  rw [← flatten_windows (by decide : 0 < commitChunkRows) rows]
  exact List.mem_flatten.mpr ⟨window, hwindow, hrow⟩

theorem mergeShards {shards : List PostingTables}
    (hshards : ∀ shard ∈ shards, (∀ row ∈ shard.termFreqs.rows, N row.itemId) ∧
      ∀ row ∈ shard.docLens.rows, N row.itemId) :
    KeepsCorpus P (shards.forM mergeShard) := by
  induction shards with
  | nil => exact .pure ()
  | cons shard shards ih =>
    rw [List.forall_mem_cons] at hshards
    exact KeepsCorpus.bind (KeepsCorpus.writeCorpus fun _ h =>
      hP.merged hshards.1.1 hshards.1.2 h) fun _ => ih hshards.2

theorem foldAllPostings {ι : Type} (l : List ι) : KeepsCorpus P (l.forM fun _ => foldPostings) :=
  .forM (fun _ => KeepsCorpus.modifyCorpus fun _ h => hP.dropCache h) _

end Steps

section Calls

theorem reindex (threads : Threads) (nowMillis : Int) :
    KeepsCorpus P (reindex threads nowMillis) := by
  refine KeepsCorpus.bind activeChunks fun chunks =>
    KeepsCorpus.bind KeepsCorpus.getCorpus fun c => ?_
  refine KeepsCorpus.bind (KeepsCorpus.runAll fun x hx => ?_) fun _ => ?_
  · obtain ⟨i, -, rfl⟩ := List.mem_map.mp hx
    exact hP.trainAndPersistBasis _ _ _
  · refine KeepsCorpus.bind (.forM (fun _ => hP.reembedChunks _ _ _ _) _) fun _ => ?_
    exact hP.persistMaintainedCounts _

theorem remove (sourceId : String) : KeepsCorpus P (remove sourceId) := by
  refine KeepsCorpus.bind (KeepsCorpus.readCorpus _) fun chunks =>
    KeepsCorpus.bind KeepsCorpus.getCorpus fun c => ?_
  refine KeepsCorpus.bind (.forM (fun chunk => ?_) _) fun _ => ?_
  · refine KeepsCorpus.bind (KeepsCorpus.bind (hP.deleteFromDb _) fun _ =>
      KeepsCorpus.modifyCorpus fun _ h => hP.dropCache h) fun _ => ?_
    refine .forM (fun _ => KeepsCorpus.bind ?_ fun _ => .attempt) _
    exact KeepsCorpus.writeCorpus fun _ h => hP.deletedVectors _ h
  · exact KeepsCorpus.bind (KeepsCorpus.modifyCorpus fun _ h => hP.remapped _ h) fun _ =>
      KeepsCorpus.writeCorpus fun _ h => hP.suppressed _ h

end Calls

end NamedInvariant

end MootMemory
