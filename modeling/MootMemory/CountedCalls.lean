import MootMemory.CountedRuns
import MootMemory.ReferenceCorpus

namespace MootMemory

variable {sub : CorpusSubstrate}

/-- What a slot is built from stays. -/
theorem origins_storeInvariant (origins : List (sub.Kind × Option Blob)) :
    StoreInvariant fun c : Corpus sub => c.origins = origins where
  withTables _ h := h
  dropCache h := h
  withVectors _ h := h
  install i trained h := Eq.trans (Corpus.map_slots_install (fun _ _ => rfl) _ i trained) h
  putBasis _ h := h
  putCounts _ h := h
  remapped _ h := h
  suppressed _ h := h
  rolledBack _ _ _ h := h
  inserted _ _ h := h
  rolledUp _ h := h
  counted chunks h := by
    refine Eq.trans ?_ h
    unfold Corpus.foldCounts
    split
    next => rfl
    next =>
      rw [Corpus.origins, List.map_map]
      rfl

/-- The calls on one corpus that store chunks, or store none. -/
def CorpusCall.OnOneCorpus : CorpusCall sub → Prop
  | .expunge _ | .destroyRecallIndex | .reopen _ => False
  | _ => True

/-- No step of a call fails between the first of its chunks going in and their being counted, or in
a window after its chunks are counted, and an ingest's clock is not before the epoch. -/
def CorpusCall.Unbroken (threads : Threads) (s : Session sub) : CorpusCall sub → Prop
  | .ingest item =>
    ∀ n ∈ s.corpus.firstNew (item.chunks sub), Clear (n + 2) s.faults →
      Clear (filingSteps (item.chunks sub)) s.faults ∧ 0 ≤ item.nowSecs
  | .ingestBatch items => s.corpus.Unbroken (itemWindows sub items) s.faults
  | .ingestBatchImport onDisk items =>
    let workers := importWorkers threads (windows importShardItems items).length
    if onDisk then
      Clear workers s.faults → s.corpus.Unbroken (itemWindows sub items) (s.faults.drop workers)
    else s.corpus.Unbroken (itemWindows sub items) s.faults
  | _ => True

section Calls

variable {s : Session sub}

/-- What is not told by writes on the side is kept by actions that make no other. -/
structure Sided (Q : Corpus sub → Prop) : Prop where
  after : ∀ {s : Session sub} {x : CorpusM sub Unit}, Q s.corpus →
    (∀ {P : Corpus sub → Prop}, SideInvariant P → KeepsCorpus P x) → After Q x s
  indexed : ∀ {c : Corpus sub} (invertedIndex : InvertedIndexStore), Q c →
    Q { c with invertedIndex }
  paced : ∀ {c : Corpus sub} (encodeSpeed : EncodeSpeed), Q c → Q { c with encodeSpeed }

theorem sided_counted : Sided (@Corpus.Counted sub) where
  after h hx := h.after (hx (counting_sideInvariant _ _))
  indexed _ h := h
  paced _ h := h

theorem takes_importWork (threads : Threads) (items : List IngestItem) :
    Takes (importWorkers threads (windows importShardItems items).length)
      (importWork sub threads items) := by
  let slices := windows importShardItems items
  let claims := threads.claims 0 _ slices.length (importWorkers_pos threads slices.length)
  have hwork : Takes claims.byWorker.length (importWork sub threads items) :=
    Takes.mapM (fun _ => Takes.attempt.bind fun _ => .pure _) _
  exact hwork.cast claims.count

/-- The items that a call stores in windows, and its steps before these. -/
def CorpusCall.windowed (threads : Threads) : CorpusCall sub → List IngestItem × Nat
  | .ingestBatch items => (items, 0)
  | .ingestBatchImport onDisk items =>
    (items, if onDisk then importWorkers threads (windows importShardItems items).length else 0)
  | _ => ([], 0)

variable {Q : Corpus sub → Prop} {threads : Threads}

theorem after_ingestBatch (hQ : Sided Q) {items : List IngestItem} (h : Q s.corpus)
    (hstored : After Q ((itemWindows sub items).forM storeWindow) s) :
    After Q (ingestBatch threads items) s := by
  cases items with
  | nil => exact h
  | cons first rest =>
    rw [← storeItems_eq] at hstored
    refine After.bind (fun u s₁ hrun => ?_) fun e s₁ hrun => hstored.of_error hrun
    refine hQ.after (hstored.of_ok hrun) fun hP => ?_
    refine KeepsCorpus.bind (hP.indexChunks _) fun _ => KeepsCorpus.bind (hP.bootstrap _) fun _ => ?_
    refine KeepsCorpus.bind (hP.embedItems _ _) fun _ =>
      KeepsCorpus.bind (hP.writeRows _) fun _ => ?_
    exact hP.persistMaintainedCounts _

theorem after_ingestBatchImportSerial (hQ : Sided Q) {items : List IngestItem}
    (hstored : After Q ((itemWindows sub items).forM storeWindow) s) :
    After Q (ingestBatchImportSerial items) s := by
  rw [← storeItems_eq] at hstored
  refine After.bind (fun u s₁ hrun => ?_) fun e s₁ hrun => hstored.of_error hrun
  exact hQ.after (hstored.of_ok hrun) fun hP => hP.indexChunks _

theorem after_ingestBatchImportSharded (hQ : Sided Q) {items : List IngestItem} (h : Q s.corpus)
    (hstored : ∀ σ : Session sub, σ.corpus = s.corpus →
      Clear (importWorkers threads (windows importShardItems items).length) s.faults →
      σ.faults = s.faults.drop (importWorkers threads (windows importShardItems items).length) →
        After Q ((itemWindows sub items).forM storeWindow) σ) :
    After Q (ingestBatchImportSharded threads items) s := by
  have hwork : ∀ R : Corpus sub → Prop, KeepsCorpus R (importWork sub threads items) := fun _ =>
    .mapM (fun _ => KeepsCorpus.bind .attempt fun _ => .pure _) _
  rw [ingestBatchImportSharded_eq]
  refine After.bind (fun outs s₁ hrun => ?_) fun e s₁ hrun => (After.of_keeps (hwork _) h).of_error hrun
  obtain ⟨hclear, hfaults⟩ := (takes_importWork threads items).of_ok hrun
  have hcorpus : s₁.corpus = s.corpus :=
    (After.of_keeps (hwork fun c => c = s.corpus) rfl).of_ok hrun
  have hafter : After Q (storeChunked (items.map fun item => (item.sourceId, item.chunks sub))) s₁ :=
    hstored s₁ hcorpus hclear hfaults
  refine After.bind (fun u s₂ hrun' => ?_) fun e s₂ hrun' => hafter.of_error hrun'
  refine hQ.after (hafter.of_ok hrun') fun hP => ?_
  exact KeepsCorpus.bind (hP.mergeShards _) fun _ => hP.foldAllPostings _

/-- A call on one corpus keeps what writes on the side do not end, if its storing does. -/
theorem after_call {weighting : ImpactWeighting} {call : CorpusCall sub} (hQ : Sided Q)
    (hone : call.OnOneCorpus) (h : Q s.corpus)
    (hingest : ∀ item, call = .ingest item → After Q (ingest threads item) s)
    (hwindows : ∀ σ : Session sub, σ.corpus = s.corpus → Clear (call.windowed threads).2 s.faults →
      σ.faults = s.faults.drop (call.windowed threads).2 →
        After Q ((itemWindows sub (call.windowed threads).1).forM storeWindow) σ) :
    Q (call.outcome weighting threads s) := by
  refine after_outcome ?_
  cases call with
  | ingest item => exact hingest item rfl
  | ingestBatch items => exact after_ingestBatch hQ h (hwindows s rfl (clear_zero _) rfl)
  | ingestBatchImport onDisk items =>
    show After Q (ingestBatchImport threads onDisk items) s
    unfold ingestBatchImport
    split
    next => exact h
    next =>
      cases onDisk with
      | true => exact after_ingestBatchImportSharded hQ h hwindows
      | false => exact after_ingestBatchImportSerial hQ (hwindows s rfl (clear_zero _) rfl)
  | remove sourceId => exact hQ.after h fun hP => hP.remove sourceId
  | reindex nowMillis => exact hQ.after h fun hP => hP.reindex threads nowMillis
  | setEncodeSpeed speed => exact hQ.paced speed h
  | search tokens k => exact hQ.indexed _ h
  | expunge sourceId => exact hone.elim
  | destroyRecallIndex => exact hone.elim
  | reopen models => exact hone.elim

theorem counted_call {weighting : ImpactWeighting} {call : CorpusCall sub}
    (h : s.corpus.Counted) (hone : call.OnOneCorpus) (hunbroken : call.Unbroken threads s) :
    (call.outcome weighting threads s).Counted := by
  refine after_call sided_counted hone h (fun item hitem => ?_) fun σ hcorpus hclear hfaults => ?_
  · subst hitem
    exact counted_ingest threads h hunbroken
  · refine counted_storeWindows _ σ (hcorpus ▸ h) ?_
    rw [hcorpus, hfaults]
    cases call with
    | ingestBatch items => exact hunbroken
    | ingestBatchImport onDisk items =>
      cases onDisk with
      | true => exact hunbroken hclear
      | false => exact hunbroken
    | _ => trivial

/-- Where no slot is trainable, none is after a call. -/
theorem origins_call {weighting : ImpactWeighting} {threads : Threads} {call : CorpusCall sub}
    (hone : call.OnOneCorpus) :
    (call.outcome weighting threads s).origins = s.corpus.origins := by
  have hP := origins_storeInvariant s.corpus.origins
  refine after_outcome (Q := fun c => c.origins = s.corpus.origins) (After.of_keeps ?_ rfl)
  cases call with
  | ingest item => exact hP.ingest threads item
  | ingestBatch items => exact hP.ingestBatch threads items
  | ingestBatchImport onDisk items => exact hP.ingestBatchImport threads onDisk items
  | remove sourceId => exact hP.remove sourceId
  | reindex nowMillis => exact hP.reindex threads nowMillis
  | setEncodeSpeed speed => exact fun _ h => h
  | search tokens k => exact fun _ h => h
  | expunge sourceId => exact hone.elim
  | destroyRecallIndex => exact hone.elim
  | reopen models => exact hone.elim

end Calls

/-- The call is one on a single corpus, and it is not broken off between storing and counting, or
there is nothing to count for. -/
def CorpusCall.CountsOnce (threads : Threads) (s : Session sub) (call : CorpusCall sub) : Prop :=
  call.OnOneCorpus ∧
    (call.Unbroken threads s ∨ ∀ origin ∈ s.corpus.origins, origin.2 = none)

/-- Every stored chunk is counted once for every trainable slot, in every run of calls that are not
broken off between storing chunks and counting them. -/
theorem countedOnce {weighting : ImpactWeighting} {models : List (EmbeddingModelConfig sub)}
    {c : Corpus sub}
    (h : GuardedVisit weighting models (fun threads s call => call.CountsOnce threads s) c) :
    ∀ slot ∈ c.slots, ∀ blob ∈ slot.freshBasisBlob,
      slot.counts = some (Corpus.countsOf slot.kind blob c.storage.chunks.rows) := by
  refine h.invariant (P := Corpus.Counted) (fun c hopen => ?_) fun call threads s hcounted hallowed => ?_
  · intro slot hslot blob hblob
    unfold openMany at hopen
    split at hopen
    next => cases hopen
    next =>
      cases hopen
      obtain ⟨model, -, rfl⟩ := List.mem_map.mp hslot
      cases model with
      | plain kind state => cases hblob
      | trainable kind state =>
        cases hblob
        rfl
  · obtain ⟨hone, hunbroken | huntrained⟩ := hallowed
    · exact counted_call hcounted hone hunbroken
    · intro slot hslot blob hblob
      rw [← @origins_call _ s weighting threads call hone] at huntrained
      have hnone := huntrained slot.origin (List.mem_map_of_mem hslot)
      rw [show slot.freshBasisBlob = none from hnone] at hblob
      cases hblob

namespace ReferenceCorpus

def lockedOut : CorpusKitError := .storeUnavailable "database is locked"

def batch : CorpusCall referenceCorpus := .ingestBatch [⟨"alpha beta", "s", 0⟩]

/-- The batch under the faults. -/
def tried (faults : List (Option CorpusKitError)) : Corpus referenceCorpus :=
  batch.outcome floats.weighting oneThread ⟨opened trainedModels, faults⟩

/-- The batch under the faults, and again without any. -/
def retried (faults : List (Option CorpusKitError)) : Corpus referenceCorpus :=
  batch.outcome floats.weighting oneThread ⟨tried faults, []⟩

theorem visited_retried (faults : List (Option CorpusKitError)) :
    Visited floats.weighting CorpusCall.OnOneCorpus (retried faults) := by
  have hopened : Visited floats.weighting CorpusCall.OnOneCorpus (opened trainedModels) :=
    .opened (if_neg (List.cons_ne_nil _ _))
  have htried : Visited floats.weighting CorpusCall.OnOneCorpus (tried faults) :=
    @Visited.call _ _ _ batch oneThread ⟨opened trainedModels, faults⟩ hopened trivial
  exact @Visited.call _ _ _ batch oneThread ⟨tried faults, []⟩ htried trivial

end ReferenceCorpus

/-- A batch whose transaction does not begin, and is then tried again. -/
theorem countedOnce_reference :
    (ReferenceCorpus.retried [some ReferenceCorpus.lockedOut]).Counted := by
  let allowed : Threads → Session referenceCorpus → CorpusCall referenceCorpus → Prop :=
    fun threads s call => call.CountsOnce threads s
  have hopened : GuardedVisit ReferenceCorpus.floats.weighting ReferenceCorpus.trainedModels allowed
      (ReferenceCorpus.opened ReferenceCorpus.trainedModels) := .opened (if_neg (List.cons_ne_nil _ _))
  have hlocked : ∀ n, ¬Clear (1 + n) [some ReferenceCorpus.lockedOut] := fun n h =>
    h 0 (by omega) ReferenceCorpus.lockedOut rfl
  have hclear : ∀ n, Clear n [] := fun n k _ e => by simp
  have htried : GuardedVisit ReferenceCorpus.floats.weighting ReferenceCorpus.trainedModels allowed
      (ReferenceCorpus.tried [some ReferenceCorpus.lockedOut]) :=
    @GuardedVisit.call _ _ _ allowed ReferenceCorpus.batch ReferenceCorpus.oneThread
      ⟨ReferenceCorpus.opened ReferenceCorpus.trainedModels, [some ReferenceCorpus.lockedOut]⟩
      hopened ⟨trivial, Or.inl ⟨fun n _ h => absurd h (hlocked n), fun h => absurd h (hlocked _)⟩⟩
  exact countedOnce (@GuardedVisit.call _ _ _ allowed ReferenceCorpus.batch
    ReferenceCorpus.oneThread ⟨ReferenceCorpus.tried [some ReferenceCorpus.lockedOut], []⟩ htried
    ⟨trivial, Or.inl ⟨fun _ _ _ => hclear _, fun _ => trivial⟩⟩)

/-- A batch whose commit fails is counted again when it is tried again. -/
theorem not_countedOnce :
    Visited ReferenceCorpus.floats.weighting CorpusCall.OnOneCorpus (ReferenceCorpus.retried
        [none, none, none, none, none, some ReferenceCorpus.lockedOut]) ∧
      (ReferenceCorpus.retried [none, none, none, none, none,
        some ReferenceCorpus.lockedOut]).storage.chunks.rows.length = 1 ∧
      (ReferenceCorpus.retried [none, none, none, none, none,
        some ReferenceCorpus.lockedOut]).slots.map
          (fun slot => slot.counts.map (·.documentCount)) = [some 2] :=
  ⟨ReferenceCorpus.visited_retried _, by decide +kernel, by decide +kernel⟩

end MootMemory
