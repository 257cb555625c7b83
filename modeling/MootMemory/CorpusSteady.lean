import MootMemory.CorpusLifecycle
import MootMemory.CorpusRuns

namespace MootMemory

variable {sub : CorpusSubstrate}

section Steady

theorem steady_insertChunk (chunk : Chunk sub) : Steady (insertChunk chunk) := by
  refine Steady.attempt.bind fun _ => Steady.getCorpus.bind fun c => ?_
  cases c.storage.chunks.insert? ⟨chunk, sub.leaf chunk.id chunk.text⟩ with
  | none => exact .pure false
  | some chunks => exact (Steady.modifyCorpus _).bind fun _ => .pure true

theorem steady_insertChunks (chunks : List (Chunk sub)) : Steady (insertChunks chunks) := by
  induction chunks with
  | nil => exact .pure []
  | cons chunk chunks ih =>
    exact (steady_insertChunk chunk).bind fun _ => ih.bind fun _ => .pure _

theorem steady_bundleInsert (chunks : List (Chunk sub)) : Steady (bundleInsert chunks) := by
  refine .ite (.pure []) ((steady_insertChunks chunks).bind fun _ => ?_)
  refine Steady.bind (.forM (fun _ => ?_) _) fun _ => .pure _
  exact Steady.attempt.bind fun _ => .writeCorpus _

theorem steady_deleteFromDb (itemId : String) : Steady (@deleteFromDb sub itemId) :=
  (Steady.writeCorpus _).bind fun _ => .writeCorpus _

theorem steady_indexChunk (chunk : Chunk sub) : Steady (indexChunk chunk) := by
  refine (steady_deleteFromDb _).bind fun _ => .ite (.modifyCorpus _) ?_
  refine Steady.bind (.forM (fun _ => .writeCorpus _) _) fun _ => ?_
  exact (Steady.writeCorpus _).bind fun _ => .modifyCorpus _

theorem steady_embedChunks (kind : sub.Kind) (state : sub.State) (filedAtSecs : Int)
    (chunks : List (Chunk sub)) : Steady (embedChunks kind state filedAtSecs chunks) := by
  refine Steady.bind (.mapM (fun _ => ?_) _) fun _ => .pure _
  exact Steady.attempt.bind fun _ => .pure _

theorem steady_addPayloads (batch : List VectorPayloadInput) :
    Steady (@addPayloads sub batch) := by
  refine .ite (.pure ()) ?_
  exact Steady.bind (.forM (fun _ => .writeCorpus _) _) fun _ => .attempt

theorem steady_replaceModelVectors (modelId : String) (batch : List VectorPayloadInput) :
    Steady (@replaceModelVectors sub modelId batch) := by
  refine Steady.attempt.bind fun _ => Steady.getCorpus.bind fun c => ?_
  cases c.storage.vectors.replaceModel modelId batch with
  | none => exact Steady.bind (.throw _) fun _ => .attempt
  | some vectors => exact (Steady.modifyCorpus _).bind fun _ => .attempt

theorem steady_persistMaintainedCounts (nowSecs : Int) :
    Steady (@persistMaintainedCounts sub nowSecs) := by
  refine Steady.getCorpus.bind fun c => .forM (fun slot => ?_) _
  unfold persistSlotCounts
  cases slot.counts with
  | none => exact .pure ()
  | some state => exact .writeCorpus _

theorem steady_trainAndPersistBasis (slotIndex : Nat) (chunks : List (Chunk sub))
    (nowSecs : Int) : Steady (trainAndPersistBasis slotIndex chunks nowSecs) := by
  refine Steady.getCorpus.bind fun c => ?_
  cases c.slots[slotIndex]? with
  | none => exact .pure ()
  | some slot =>
    cases hblob : slot.freshBasisBlob with
    | none => simp only [hblob]; exact .pure ()
    | some blob =>
      cases hcounts : slot.counts with
      | none => simp only [hblob, hcounts]; exact .throw _
      | some state =>
        simp only [hblob, hcounts]
        refine Steady.attempt.bind fun _ => ?_
        exact (Steady.modifyCorpus _).bind fun _ => .writeCorpus _

theorem steady_embedBatches (slot : ProviderSlot sub) (filedAtSecs : Int)
    (batches : List (List (Chunk sub))) {workers : Nat}
    (claims : WorkClaims workers batches.length) :
    Steady (embedBatches slot filedAtSecs batches claims) := by
  refine Steady.bind (.mapM (fun claimed => .mapM (fun i => ?_) _) _) fun outs => ?_
  · exact (steady_embedChunks _ _ _ _).bind fun _ => .pure _
  · cases reassemble batches.length outs.flatten with
    | error i => exact .throw _
    | ok rows => exact .pure rows

theorem steady_reembedChunks (threads : Threads) (slotIndex : Nat) (chunks : List (Chunk sub))
    (filedAtSecs : Int) : Steady (reembedChunks threads slotIndex chunks filedAtSecs) := by
  refine Steady.getCorpus.bind fun c => ?_
  cases c.slots[slotIndex]? with
  | none => exact .pure ()
  | some slot =>
    exact (steady_embedBatches _ _ _ _).bind fun _ => steady_replaceModelVectors _ _

theorem steady_activeChunks : Steady (@activeChunks sub) :=
  Steady.attempt.bind fun _ => .readCorpus _

theorem Steady.runAll {xs : List (CorpusM sub Unit)} (h : ∀ x ∈ xs, Steady x) :
    Steady (runAll xs) := by
  induction xs with
  | nil => exact .pure ()
  | cons x xs ih =>
    have hx := h x List.mem_cons_self
    have hxs := ih fun y hy => h y (List.mem_cons_of_mem _ hy)
    intro s u s' hrun
    unfold MootMemory.runAll at hrun ⊢
    cases hfirst : x s with
    | ok _ s₁ =>
      rw [hfirst] at hrun
      rw [hx s () s₁ hfirst]
      exact hxs s₁ u s' hrun
    | error e s₁ =>
      simp only [hfirst] at hrun
      cases hrest : MootMemory.runAll xs s₁ with
      | ok _ s₂ => simp only [hrest] at hrun; cases hrun
      | error _ s₂ => simp only [hrest] at hrun; cases hrun

theorem steady_reindex (threads : Threads) (nowMillis : Int) :
    Steady (@reindex sub threads nowMillis) := by
  refine steady_activeChunks.bind fun chunks => Steady.getCorpus.bind fun c => ?_
  refine Steady.bind (.runAll fun x hx => ?_) fun _ => ?_
  · obtain ⟨i, -, rfl⟩ := List.mem_map.mp hx
    exact steady_trainAndPersistBasis _ _ _
  · refine Steady.bind (.forM (fun _ => steady_reembedChunks _ _ _ _) _) fun _ => ?_
    exact steady_persistMaintainedCounts _

theorem steady_trainFirst (threads : Threads) (filedAtSecs : Int)
    (cached : Option (List (Chunk sub))) (slots : List Nat) :
    Steady (trainFirst threads filedAtSecs cached slots) := by
  induction slots generalizing cached with
  | nil => exact .pure []
  | cons i slots ih =>
    refine Steady.getCorpus.bind fun c => ?_
    cases (c.slots[i]?).bind (·.freshBasisBlob) with
    | none => exact (ih cached).bind fun _ => .pure _
    | some blob =>
      refine (Steady.readCorpus _).bind fun needed => .ite ?_ ((ih cached).bind fun _ => .pure _)
      have hrest : ∀ all : List (Chunk sub), Steady (do
          trainAndPersistBasis i all filedAtSecs
          reembedChunks threads i all filedAtSecs
          trainFirst threads filedAtSecs (some all) slots) := fun all =>
        (steady_trainAndPersistBasis _ _ _).bind fun _ =>
          (steady_reembedChunks _ _ _ _).bind fun _ => ih _
      cases cached with
      | none => exact steady_activeChunks.bind hrest
      | some all => exact hrest all

theorem steady_foldIn (threads : Threads) (chunks : List (Chunk sub)) (filedAtSecs : Int)
    (slots : List Nat) : Steady (foldIn threads chunks filedAtSecs slots) := by
  refine .ite (.pure ()) (Steady.getCorpus.bind fun c => ?_)
  refine Steady.bind (.mapM (fun _ => .mapM (fun i => ?_) _) _) fun _ => steady_addPayloads _
  refine Steady.getCorpus.bind fun c => ?_
  cases c.slots[i]? with
  | none => exact .pure []
  | some slot => exact steady_embedChunks _ _ _ _

theorem steady_ingest (threads : Threads) (item : IngestItem) :
    Steady (@ingest sub threads item) := by
  refine .ite (.pure ()) ((Steady.writeCorpus _).bind fun _ => ?_)
  refine (steady_bundleInsert _).bind fun _ => Steady.bind (.ite (.throw _) (.pure ())) fun _ => ?_
  refine Steady.bind (.forM steady_indexChunk _) fun _ => (Steady.modifyCorpus _).bind fun _ => ?_
  refine (Steady.modifyCorpus _).bind fun _ => Steady.getCorpus.bind fun c => ?_
  refine (steady_trainFirst _ _ _ _).bind fun _ => (steady_foldIn _ _ _ _).bind fun _ => ?_
  exact steady_persistMaintainedCounts _

theorem steady_storeItem (sourceId : String) (chunks : List (Chunk sub)) :
    Steady (storeItem sourceId chunks) := by
  refine .ite (.pure ()) ((Steady.writeCorpus _).bind fun _ => ?_)
  refine (steady_bundleInsert _).bind fun _ => (Steady.modifyCorpus _).bind fun _ => ?_
  exact .modifyCorpus _

theorem steady_storeChunked (items : List (String × List (Chunk sub))) :
    Steady (storeChunked items) :=
  .forM (fun _ => .inTransaction (.forM (fun _ => steady_storeItem _ _) _)) _

theorem steady_storeItems (items : List IngestItem) : Steady (@storeItems sub items) :=
  .forM (fun _ => .inTransaction (.forM (fun _ => steady_storeItem _ _) _)) _

theorem steady_indexChunks (chunks : List (Chunk sub)) : Steady (indexChunks chunks) :=
  .forM (fun _ => .inIndexBatch (.forM steady_indexChunk _)) _

theorem steady_needsBootstrap (slots : List Nat) : Steady (@needsBootstrap sub slots) := by
  induction slots with
  | nil => exact .pure false
  | cons i slots ih =>
    refine Steady.getCorpus.bind fun c => ?_
    cases (c.slots[i]?).bind (·.freshBasisBlob) with
    | none => exact ih
    | some blob => exact (Steady.readCorpus _).bind fun _ => .ite (.pure true) ih

theorem steady_bootstrap (nowSecs : Int) : Steady (@bootstrap sub nowSecs) := by
  refine Steady.getCorpus.bind fun c => (steady_needsBootstrap _).bind fun _ => ?_
  refine .ite (steady_activeChunks.bind fun _ => .ite (.pure ()) (.forM (fun i => ?_) _)) (.pure ())
  refine Steady.getCorpus.bind fun c => ?_
  cases (c.slots[i]?).bind (·.freshBasisBlob) with
  | none => exact .pure ()
  | some blob =>
    refine (Steady.readCorpus _).bind fun _ => .ite ?_ (.pure ())
    exact steady_trainAndPersistBasis _ _ _

theorem steady_embedItems (threads : Threads) (items : List IngestItem) :
    Steady (@embedItems sub threads items) := by
  refine Steady.getCorpus.bind fun c => ?_
  refine Steady.bind (.mapM (fun _ => .mapM (fun _ => ?_) _) _) fun _ => .pure _
  exact Steady.bind (.mapM (fun _ => steady_embedChunks _ _ _ _) _) fun _ => .pure _

theorem steady_ingestBatch (threads : Threads) (items : List IngestItem) :
    Steady (@ingestBatch sub threads items) := by
  cases items with
  | nil => exact .pure ()
  | cons first rest =>
    refine (steady_storeItems _).bind fun _ => (steady_indexChunks _).bind fun _ => ?_
    refine (steady_bootstrap _).bind fun _ => (steady_embedItems _ _).bind fun _ => ?_
    refine Steady.bind (.forM (fun _ => (steady_addPayloads _).inTransaction) _) fun _ => ?_
    exact steady_persistMaintainedCounts _

theorem steady_ingestBatchImportSerial (items : List IngestItem) :
    Steady (@ingestBatchImportSerial sub items) :=
  (steady_storeItems _).bind fun _ => steady_indexChunks _

theorem steady_ingestBatchImportSharded (threads : Threads) (items : List IngestItem) :
    Steady (@ingestBatchImportSharded sub threads items) := by
  refine Steady.bind (.mapM (fun _ => Steady.attempt.bind fun _ => .pure _) _) fun outs => ?_
  cases reassemble (windows importShardItems items).length (outs.flatMap (·.2)) with
  | error i => exact .throw _
  | ok perSlice =>
    refine (steady_storeChunked _).bind fun _ => ?_
    exact Steady.bind (.forM (fun _ => .writeCorpus _) _) fun _ => .forM (fun _ => .modifyCorpus _) _

theorem steady_ingestBatchImport (threads : Threads) (onDisk : Bool) (items : List IngestItem) :
    Steady (@ingestBatchImport sub threads onDisk items) :=
  .ite (.pure ()) (.ite (steady_ingestBatchImportSharded _ _) (steady_ingestBatchImportSerial _))

theorem steady_remove (sourceId : String) : Steady (@remove sub sourceId) := by
  refine (Steady.readCorpus _).bind fun chunks => Steady.getCorpus.bind fun c => ?_
  refine Steady.bind (.forM (fun chunk => ?_) _) fun _ => ?_
  · refine Steady.bind ((steady_deleteFromDb _).bind fun _ => .modifyCorpus _) fun _ => ?_
    exact .forM (fun _ => (Steady.writeCorpus _).bind fun _ => .attempt) _
  · exact (Steady.modifyCorpus _).bind fun _ => .writeCorpus _

theorem steady_expunge (sourceId : String) : Steady (@expunge sub sourceId) :=
  (Steady.writeCorpus _).bind fun _ => steady_remove _

end Steady

end MootMemory
