import MootMemory.ShardedImport
import MootMemory.SourceRanking

namespace MootMemory

variable {sub : CorpusSubstrate}

section Destroying

/-- `clear_all`, a statement for each table. -/
def clearAll : CorpusM sub Unit := do
  writeCorpus fun c => c.withTables fun t => { t with termFreqs := .empty }
  writeCorpus fun c => c.withTables fun t => { t with docLens := .empty }
  modifyCorpus Corpus.dropCache

def destroyRecallIndex : CorpusM sub Unit := do
  clearAll
  modifyCorpus fun c => { c with chunkSourceMap := fun _ => none }
  writeCorpus fun c => c.withVectors (c.storage.vectors.delete fun _ => true)
  attempt
  writeCorpus fun c => { c with storage.basis := .empty }
  writeCorpus fun c => { c with storage.counts := .empty }
  writeCorpus fun c => { c with storage.removedSources := ∅ }

/-- What taking down the index does. -/
def Corpus.destroyed (c : Corpus sub) : Corpus sub :=
  { c with
    storage := { c.storage with
      removedSources := ∅, basis := .empty, counts := .empty
      vectors := c.storage.vectors.delete fun _ => true }
    invertedIndex := c.invertedIndex.cleared
    chunkSourceMap := fun _ => none }

theorem does_destroyRecallIndex :
    Does (@destroyRecallIndex sub) fun c => c.destroyed := fun _ => rfl

theorem steady_destroyRecallIndex : Steady (@destroyRecallIndex sub) := by
  refine Steady.bind ((Steady.writeCorpus _).bind fun _ => (Steady.writeCorpus _).bind fun _ =>
    .modifyCorpus _) fun _ => ?_
  refine (Steady.modifyCorpus _).bind fun _ => (Steady.writeCorpus _).bind fun _ => ?_
  refine Steady.attempt.bind fun _ => (Steady.writeCorpus _).bind fun _ => ?_
  exact (Steady.writeCorpus _).bind fun _ => .writeCorpus _

end Destroying

/-- The calls on a corpus that change it. A search leaves an index behind, and to reopen is to drop
the corpus and open its tables with models again. -/
inductive CorpusCall (sub : CorpusSubstrate) where
  | ingest (item : IngestItem)
  | ingestBatch (items : List IngestItem)
  | ingestBatchImport (onDisk : Bool) (items : List IngestItem)
  | remove (sourceId : String)
  | expunge (sourceId : String)
  | reindex (nowMillis : Int)
  | setEncodeSpeed (speed : EncodeSpeed)
  | search (tokens : List String) (k : Nat)
  | destroyRecallIndex
  | reopen (models : List (EmbeddingModelConfig sub))

section Run

variable (weighting : ImpactWeighting) (threads : Threads)

def reopen (models : List (EmbeddingModelConfig sub)) : CorpusM sub Unit := do
  let c ← getCorpus
  match openMany c.storage c.invertedIndex.tables models with
  | .ok c' => modifyCorpus fun _ => c'
  | .error e => throw (.err e)

def CorpusCall.run : CorpusCall sub → CorpusM sub Unit
  | .ingest item => MootMemory.ingest threads item
  | .ingestBatch items => MootMemory.ingestBatch threads items
  | .ingestBatchImport onDisk items => MootMemory.ingestBatchImport threads onDisk items
  | .remove sourceId => MootMemory.remove sourceId
  | .expunge sourceId => MootMemory.expunge sourceId
  | .reindex nowMillis => MootMemory.reindex threads nowMillis
  | .setEncodeSpeed encodeSpeed => modifyCorpus fun c => { c with encodeSpeed }
  | .search tokens k => modifyCorpus fun c => (c.search weighting tokens k).2
  | .destroyRecallIndex => MootMemory.destroyRecallIndex
  | .reopen models => MootMemory.reopen models

/-- What opening the same tables again comes to. -/
def Corpus.reopened (c : Corpus sub) (models : List (EmbeddingModelConfig sub)) : Corpus sub where
  storage := c.storage
  invertedIndex := .opened c.invertedIndex.tables
  chunkSourceMap := c.storage.sourceOf
  slots := models.map (buildSlot c.storage)
  encodeSpeed := .foreground

/-- The corpus after a call, however that ends. -/
def CorpusCall.outcome (call : CorpusCall sub) (s : Session sub) : Corpus sub :=
  match call.run weighting threads s with
  | .ok _ s' => s'.corpus
  | .error _ s' => s'.corpus

/-- What a call that ends well does. -/
def CorpusCall.effect (c : Corpus sub) : CorpusCall sub → Corpus sub
  | .ingest item => c.ingested item
  | .ingestBatch items => c.batchIngested items
  | .ingestBatchImport onDisk items =>
    if items = [] then c
    else if onDisk then c.shardImported threads items
    else c.filedAll items
  | .remove sourceId => c.removed sourceId
  | .expunge sourceId => c.expunged sourceId
  | .reindex nowMillis => c.reindexed (nowMillis.tdiv 1000)
  | .setEncodeSpeed encodeSpeed => { c with encodeSpeed }
  | .search tokens k => (c.search weighting tokens k).2
  | .destroyRecallIndex => c.destroyed
  | .reopen models => c.reopened models

variable {weighting threads} {s s' : Session sub}

theorem timely_of_ingest {item : IngestItem} (h : ingest threads item s = .ok () s') :
    item.chunks sub ≠ [] → 0 ≤ item.nowSecs := by
  intro hchunks
  by_contra hneg
  obtain ⟨c', hpanic⟩ := ingest_panics threads (Int.not_le.mp hneg) hchunks s.corpus
  rw [steady_ingest threads item s () s' h] at hpanic
  cases hpanic

theorem corpus_of_ingest {item : IngestItem} (h : ingest threads item s = .ok () s') :
    s'.corpus = s.corpus.ingested item := by
  have hrun := steady_ingest threads item s () s' h
  rw [ingest_faultless threads (timely_of_ingest h), EStateM.Result.ok.injEq,
    Session.mk.injEq] at hrun
  exact hrun.2.1.symm

theorem corpus_of_reopen {models : List (EmbeddingModelConfig sub)}
    (h : reopen models s = .ok () s') : s'.corpus = s.corpus.reopened models := by
  unfold reopen openMany at h
  obtain ⟨c, s₁, hget, h⟩ := estate_bind_ok.mp h
  cases hget
  by_cases hmodels : models = []
  · rw [if_pos hmodels] at h
    cases h
  · rw [if_neg hmodels] at h
    cases h
    rfl

theorem corpus_of_run (call : CorpusCall sub) (h : call.run weighting threads s = .ok () s') :
    s'.corpus = call.effect weighting threads s.corpus := by
  cases call with
  | ingest item => exact corpus_of_ingest h
  | ingestBatch items =>
    exact (does_ingestBatch threads items).of_ok (steady_ingestBatch threads items) h
  | ingestBatchImport onDisk items =>
    have hrun : ingestBatchImport threads onDisk items s = .ok () s' := h
    show s'.corpus = if items = [] then s.corpus
      else if onDisk then s.corpus.shardImported threads items else s.corpus.filedAll items
    unfold ingestBatchImport at hrun
    by_cases hnil : items = []
    · rw [if_pos hnil] at hrun ⊢
      cases hrun
      rfl
    rw [if_neg hnil] at hrun ⊢
    cases onDisk with
    | true =>
      exact (does_ingestBatchImportSharded threads items).of_ok
        (steady_ingestBatchImportSharded threads items) hrun
    | false =>
      exact (does_ingestBatchImportSerial items).of_ok (steady_ingestBatchImportSerial items) hrun
  | remove sourceId => exact (does_remove sourceId).of_ok (steady_remove sourceId) h
  | expunge sourceId => exact (does_expunge sourceId).of_ok (steady_expunge sourceId) h
  | reindex nowMillis =>
    exact (does_reindex threads nowMillis).of_ok (steady_reindex threads nowMillis) h
  | setEncodeSpeed speed => cases h; rfl
  | search tokens k => cases h; rfl
  | destroyRecallIndex => exact does_destroyRecallIndex.of_ok steady_destroyRecallIndex h
  | reopen models => exact corpus_of_reopen h

end Run

/-- The corpora that calls which all end well lead to, from one over an empty estate. -/
inductive Reachable (weighting : ImpactWeighting) (allowed : CorpusCall sub → Prop) :
    Corpus sub → Prop
  | opened {models : List (EmbeddingModelConfig sub)} {c : Corpus sub}
      (h : openMany .empty .empty models = .ok c) : Reachable weighting allowed c
  | call {call : CorpusCall sub} {threads : Threads} {s s' : Session sub}
      (h : Reachable weighting allowed s.corpus) (hallowed : allowed call)
      (hrun : call.run weighting threads s = .ok () s') : Reachable weighting allowed s'.corpus

/-- The corpora that calls lead to, whether they end well or not. -/
inductive Visited (weighting : ImpactWeighting) (allowed : CorpusCall sub → Prop) :
    Corpus sub → Prop
  | opened {models : List (EmbeddingModelConfig sub)} {c : Corpus sub}
      (h : openMany .empty .empty models = .ok c) : Visited weighting allowed c
  | call {call : CorpusCall sub} {threads : Threads} {s : Session sub}
      (h : Visited weighting allowed s.corpus) (hallowed : allowed call) :
      Visited weighting allowed (call.outcome weighting threads s)

theorem Visited.of_ok {weighting : ImpactWeighting} {allowed : CorpusCall sub → Prop}
    {threads : Threads} {s s' : Session sub} (h : Visited weighting allowed s.corpus)
    (call : CorpusCall sub) (hallowed : allowed call)
    (hrun : call.run weighting threads s = .ok () s') : Visited weighting allowed s'.corpus := by
  have hcall := @Visited.call sub weighting allowed call threads s h hallowed
  rwa [CorpusCall.outcome, hrun] at hcall

/-- The corpora that calls which all end well lead to from an empty estate opened with the models,
where every call is allowed in the state it finds. -/
inductive GuardedReach (weighting : ImpactWeighting) (models : List (EmbeddingModelConfig sub))
    (allowed : Corpus sub → CorpusCall sub → Prop) : Corpus sub → Prop
  | opened {c : Corpus sub} (h : openMany .empty .empty models = .ok c) :
      GuardedReach weighting models allowed c
  | call {call : CorpusCall sub} {threads : Threads} {s s' : Session sub}
      (h : GuardedReach weighting models allowed s.corpus) (hallowed : allowed s.corpus call)
      (hrun : call.run weighting threads s = .ok () s') :
      GuardedReach weighting models allowed s'.corpus

theorem GuardedReach.invariant {weighting : ImpactWeighting}
    {models : List (EmbeddingModelConfig sub)} {allowed : Corpus sub → CorpusCall sub → Prop}
    {P : Corpus sub → Prop} (hopened : ∀ c, openMany .empty .empty models = .ok c → P c)
    (hcall : ∀ (call : CorpusCall sub) (threads : Threads) (c : Corpus sub), P c →
      allowed c call → P (call.effect weighting threads c))
    {c : Corpus sub} (h : GuardedReach weighting models allowed c) : P c := by
  induction h with
  | opened h => exact hopened _ h
  | call _ hallowed hrun ih =>
    rw [corpus_of_run _ hrun]
    exact hcall _ _ _ ih hallowed

/-- The corpora that calls lead to from an empty estate opened with the models, however the calls
end, where every call is allowed in the state it finds and with the failures that come. -/
inductive GuardedVisit (weighting : ImpactWeighting) (models : List (EmbeddingModelConfig sub))
    (allowed : Threads → Session sub → CorpusCall sub → Prop) : Corpus sub → Prop
  | opened {c : Corpus sub} (h : openMany .empty .empty models = .ok c) :
      GuardedVisit weighting models allowed c
  | call {call : CorpusCall sub} {threads : Threads} {s : Session sub}
      (h : GuardedVisit weighting models allowed s.corpus) (hallowed : allowed threads s call) :
      GuardedVisit weighting models allowed (call.outcome weighting threads s)

theorem GuardedVisit.invariant {weighting : ImpactWeighting}
    {models : List (EmbeddingModelConfig sub)}
    {allowed : Threads → Session sub → CorpusCall sub → Prop} {P : Corpus sub → Prop}
    (hopened : ∀ c, openMany .empty .empty models = .ok c → P c)
    (hcall : ∀ (call : CorpusCall sub) (threads : Threads) (s : Session sub), P s.corpus →
      allowed threads s call → P (call.outcome weighting threads s))
    {c : Corpus sub} (h : GuardedVisit weighting models allowed c) : P c := by
  induction h with
  | opened h => exact hopened _ h
  | call _ hallowed ih => exact hcall _ _ _ ih hallowed

/-- What holds of an empty corpus and is kept by the calls holds of every corpus they lead to. -/
theorem Reachable.invariant {weighting : ImpactWeighting} {allowed : CorpusCall sub → Prop}
    {P : Corpus sub → Prop}
    (hopened : ∀ (models : List (EmbeddingModelConfig sub)) (c : Corpus sub),
      openMany .empty .empty models = .ok c → P c)
    (hcall : ∀ (call : CorpusCall sub) (threads : Threads) (c : Corpus sub), P c → allowed call →
      P (call.effect weighting threads c))
    {c : Corpus sub} (h : Reachable weighting allowed c) : P c := by
  induction h with
  | opened h => exact hopened _ _ h
  | call _ hallowed hrun ih =>
    rw [corpus_of_run _ hrun]
    exact hcall _ _ _ ih hallowed

end MootMemory
