import MootMemory.StoreWrites

namespace MootMemory

variable {sub : CorpusSubstrate}

/-- The row's id was derived from a text for its source and offset, and the row still has that text
or has been emptied. -/
def ChunkRow.Made (row : ChunkRow sub) : Prop :=
  ∃ text, row.id = deriveId sub row.chunk.sourceId row.chunk.startOffset text ∧
    (row.chunk.text = text ∨ row.chunk.text = "")

def Corpus.Made (c : Corpus sub) : Prop := ∀ row ∈ c.storage.chunks.rows, row.Made

/-- However the action ends, all rows of chunks are made as they should be. -/
def KeepsMade {α : Type} (x : CorpusM sub α) : Prop := Preserves (fun s => s.corpus.Made) x

section Steps

theorem Corpus.Made.scrubText {c : Corpus sub} (h : c.Made) (sourceId : String) :
    (c.scrubText sourceId).Made := by
  intro row hrow
  obtain ⟨row', hrow', rfl⟩ := List.mem_map.mp hrow
  obtain ⟨text, hid, htext⟩ := h row' hrow'
  split
  next => exact ⟨text, hid, Or.inr rfl⟩
  next => exact ⟨text, hid, htext⟩

theorem Chunk.MadeFor.row {chunk : Chunk sub} {sourceId : String} (h : chunk.MadeFor sourceId)
    (contentHash : sub.ContentHash) : (⟨chunk, contentHash⟩ : ChunkRow sub).Made :=
  ⟨chunk.text, by rw [ChunkRow.id, h.2, h.1], Or.inl rfl⟩

theorem made_foldCounts {c : Corpus sub} (h : c.Made) (chunks : List (Chunk sub)) :
    (c.foldCounts chunks).Made := by
  unfold Corpus.foldCounts
  split
  next => exact h
  next => exact h

theorem made_storeInvariant : StoreInvariant (@Corpus.Made sub) where
  withTables _ h := h
  dropCache h := h
  withVectors _ h := h
  install _ _ h := h
  putBasis _ h := h
  putCounts _ h := h
  remapped _ h := h
  suppressed _ h := h
  rolledBack _ _ h _ := h
  inserted := by
    intro c chunk sourceId chunks hchunk hinsert h row hrow
    change row ∈ chunks.rows at hrow
    rw [(KeyedTable.insert?_eq_some_iff.mp hinsert).2] at hrow
    rcases List.mem_append.mp hrow with hrow | hrow
    · exact h row hrow
    · rw [List.mem_singleton.mp hrow]
      exact hchunk.row _
  rolledUp _ h := h
  counted chunks h := made_foldCounts h chunks

end Steps

section Calls

theorem keepsMade_destroyRecallIndex : KeepsMade (@destroyRecallIndex sub) := by
  refine KeepsCorpus.bind (KeepsCorpus.bind (KeepsCorpus.writeCorpus fun _ h => h) fun _ =>
    KeepsCorpus.bind (KeepsCorpus.writeCorpus fun _ h => h) fun _ =>
      KeepsCorpus.modifyCorpus fun _ h => h) fun _ => ?_
  refine KeepsCorpus.bind (KeepsCorpus.modifyCorpus fun _ h => h) fun _ => ?_
  refine KeepsCorpus.bind (KeepsCorpus.writeCorpus fun _ h => h) fun _ =>
    KeepsCorpus.bind .attempt fun _ => ?_
  refine KeepsCorpus.bind (KeepsCorpus.writeCorpus fun _ h => h) fun _ => ?_
  exact KeepsCorpus.bind (KeepsCorpus.writeCorpus fun _ h => h) fun _ =>
    KeepsCorpus.writeCorpus fun _ h => h

theorem keepsMade_reopen (models : List (EmbeddingModelConfig sub)) :
    KeepsMade (MootMemory.reopen models) := by
  intro s h
  unfold MootMemory.reopen openMany
  rw [getCorpus_bind]
  by_cases hmodels : models = []
  · rw [if_pos hmodels]
    exact h
  · rw [if_neg hmodels]
    exact h

theorem keepsMade_expunge (sourceId : String) : KeepsMade (@expunge sub sourceId) :=
  KeepsCorpus.bind (KeepsCorpus.writeCorpus fun _ h => h.scrubText sourceId) fun _ =>
    made_storeInvariant.remove _

theorem Corpus.Made.outcome {weighting : ImpactWeighting} {s : Session sub} (h : s.corpus.Made)
    (threads : Threads) (call : CorpusCall sub) : (call.outcome weighting threads s).Made := by
  have hrun : KeepsMade (call.run weighting threads) := by
    cases call with
    | ingest item => exact made_storeInvariant.ingest threads item
    | ingestBatch items => exact made_storeInvariant.ingestBatch threads items
    | ingestBatchImport onDisk items =>
      exact made_storeInvariant.ingestBatchImport threads onDisk items
    | remove sourceId => exact made_storeInvariant.remove sourceId
    | expunge sourceId => exact keepsMade_expunge sourceId
    | reindex nowMillis => exact made_storeInvariant.reindex threads nowMillis
    | setEncodeSpeed speed => exact KeepsCorpus.modifyCorpus fun _ h => h
    | search tokens k => exact KeepsCorpus.modifyCorpus fun _ h => h
    | destroyRecallIndex => exact keepsMade_destroyRecallIndex
    | reopen models => exact keepsMade_reopen models
  have hs := hrun s h
  unfold CorpusCall.outcome
  cases hresult : call.run weighting threads s with
  | ok u s' => rw [hresult] at hs; exact hs
  | error e s' => rw [hresult] at hs; exact hs

/-- Every row of chunks in a corpus that calls lead to is made as it should be. -/
theorem Visited.made {weighting : ImpactWeighting} {allowed : CorpusCall sub → Prop}
    {c : Corpus sub} (h : Visited weighting allowed c) : c.Made := by
  induction h with
  | opened h =>
    unfold openMany at h
    split at h
    next => cases h
    next =>
      cases h
      exact fun _ hrow => absurd hrow List.not_mem_nil
  | call _ _ ih => exact ih.outcome _ _

end Calls

end MootMemory
