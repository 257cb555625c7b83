import MootMemory.EffectViews
import MootMemory.InvertedIndexStore

namespace MootMemory

/-- Parameters that are equal as floats weigh postings alike. -/
def LawfulWeighting (weighting : ImpactWeighting) : Prop :=
  ∀ p q : BM25Parameters, (p == q) = true → weighting p = weighting q

theorem BM25Weighting.build_congr {weighting : ImpactWeighting} {p q : BM25Parameters}
    (h : weighting p = weighting q) (tables : PostingTables) :
    build weighting tables p = build weighting tables q := by
  have hpostings (term : String) :
      termPostings weighting p tables term = termPostings weighting q tables term := by
    unfold termPostings
    rw [h]
  unfold build
  simp only [funext hpostings]

namespace InvertedIndexStore

variable {weighting : ImpactWeighting} {store : InvertedIndexStore}

section Freshness

/-- The cached index, if there is one, is that of the tables as they are. -/
def Fresh (weighting : ImpactWeighting) (store : InvertedIndexStore) : Prop :=
  ∀ cached, store.cached = some cached → cached = store.freshIndex weighting cached.parameters

theorem Fresh.of_none (h : store.cached = none) : store.Fresh weighting := by
  intro cached hcached
  rw [h] at hcached
  cases hcached

/-- Freshness looks at the tables and the cache alone. -/
theorem Fresh.congr {other : InvertedIndexStore} (h : store.Fresh weighting)
    (htables : other.tables = store.tables) (hcached : other.cached = store.cached) :
    other.Fresh weighting := by
  intro cached hsome
  rw [hcached] at hsome
  rw [freshIndex, htables]
  exact h cached hsome

theorem cachedFor_eq_some {parameters : BM25Parameters} {cached : CachedIndex}
    (h : store.cachedFor parameters = some cached) :
    store.cached = some cached ∧ (cached.parameters == parameters) = true :=
  Option.filter_eq_some_iff.mp h

/-- The index of the tables answers alike under parameters that are equal as floats. -/
theorem freshIndex_answer_congr (hlaw : LawfulWeighting weighting) {p q : BM25Parameters}
    (h : (p == q) = true) (queryTerms : List String) (k : Nat) (algorithm : Algorithm) :
    (store.freshIndex weighting p).answer queryTerms k algorithm =
      (store.freshIndex weighting q).answer queryTerms k algorithm := by
  unfold CachedIndex.answer
  rw [freshIndex, freshIndex, BM25Weighting.build_congr (hlaw p q h) store.tables]

/-- A cached index that is fresh answers as the index of the tables does. -/
theorem Fresh.answer (h : store.Fresh weighting) (hlaw : LawfulWeighting weighting)
    {parameters : BM25Parameters} {cached : CachedIndex}
    (hcached : store.cachedFor parameters = some cached) (queryTerms : List String) (k : Nat)
    (algorithm : Algorithm) : cached.answer queryTerms k algorithm =
      (store.freshIndex weighting parameters).answer queryTerms k algorithm := by
  obtain ⟨hsome, hsame⟩ := cachedFor_eq_some hcached
  rw [← freshIndex_answer_congr hlaw hsame, ← h cached hsome]

theorem Fresh.queriedIndex (h : store.Fresh weighting) (parameters : BM25Parameters) :
    store.queriedIndex weighting parameters = store.freshIndex weighting
      (store.queriedIndex weighting parameters).parameters := by
  unfold InvertedIndexStore.queriedIndex
  cases hcached : store.cachedFor parameters with
  | none => rfl
  | some cached => exact h cached (cachedFor_eq_some hcached).1

/-- A query that can load the tables is answered from the tables as they are. -/
theorem Fresh.queried (h : store.Fresh weighting) (hlaw : LawfulWeighting weighting)
    (queryTerms : List String) (k : Nat) (parameters : BM25Parameters) (algorithm : Algorithm) :
    (store.queried weighting queryTerms k parameters algorithm).1 =
      (store.freshIndex weighting parameters).answer queryTerms k algorithm := by
  unfold InvertedIndexStore.queried InvertedIndexStore.queriedIndex
  cases hcached : store.cachedFor parameters with
  | none => rfl
  | some cached => exact h.answer hlaw hcached queryTerms k algorithm

theorem Fresh.after_queried (h : store.Fresh weighting) (queryTerms : List String) (k : Nat)
    (parameters : BM25Parameters) (algorithm : Algorithm) :
    (store.queried weighting queryTerms k parameters algorithm).2.Fresh weighting := by
  intro cached hcached
  cases hcached
  exact h.queriedIndex parameters

end Freshness

section Caches

/-- The cached index is the given one, if there is any. -/
def CachedFrom (cached : Option CachedIndex) (s : IndexSession) : Prop :=
  s.store.cached = none ∨ s.store.cached = cached

variable {cached : Option CachedIndex}

theorem cached_rolledBack : store.rolledBack.cached = store.cached := by
  unfold rolledBack
  cases store.saved <;> rfl

theorem preserves_statement {f : InvertedIndexStore → InvertedIndexStore}
    (hf : ∀ store, (f store).cached = store.cached) :
    Preserves (CachedFrom cached) (statement f) := by
  rintro ⟨store, faults⟩ h
  have hback : CachedFrom cached ⟨store.rolledBack, faults⟩ := by
    rw [CachedFrom, cached_rolledBack]
    exact h
  match faults with
  | [] =>
    show (f store).cached = none ∨ (f store).cached = cached
    rw [hf]
    exact h
  | none :: faults =>
    show (f store).cached = none ∨ (f store).cached = cached
    rw [hf]
    exact h
  | some e :: faults =>
    unfold statement
    dsimp only
    split
    next => exact hback
    next => exact h

theorem preserves_writeTables (f : PostingTables → PostingTables) :
    Preserves (CachedFrom cached) (writeTables f) := preserves_statement fun _ => rfl

theorem preserves_dropCache : Preserves (CachedFrom cached) dropCache :=
  .modify fun _ _ => Or.inl rfl

theorem preserves_tryStatement {f : InvertedIndexStore → InvertedIndexStore}
    (hf : ∀ store, (f store).cached = store.cached) :
    Preserves (CachedFrom cached) (tryStatement f) := fun _ hs => (preserves_statement hf).stateAfter hs

theorem preserves_followedBy {x next : IndexM Unit} (hx : Preserves (CachedFrom cached) x)
    (hnext : Preserves (CachedFrom cached) next) :
    Preserves (CachedFrom cached) (followedBy x next) := by
  intro s hs
  have hmid := hx s hs
  unfold followedBy
  cases hrun : x s with
  | ok _ s' =>
    rw [hrun] at hmid
    exact hnext.stateAfter hmid
  | error e s' =>
    rw [hrun] at hmid
    exact hnext.stateAfter hmid

theorem preserves_onError {x undo : IndexM Unit} (hx : Preserves (CachedFrom cached) x)
    (hundo : Preserves (CachedFrom cached) undo) :
    Preserves (CachedFrom cached) (onError x undo) := by
  intro s hs
  have hmid := hx s hs
  unfold onError
  cases hrun : x s with
  | ok _ s' => rwa [hrun] at hmid
  | error e s' =>
    rw [hrun] at hmid
    exact hundo.stateAfter hmid

theorem preserves_deleteFromDb (itemId : String) :
    Preserves (CachedFrom cached) (deleteFromDb itemId) :=
  (preserves_writeTables _).bind fun _ => preserves_writeTables _

theorem preserves_beginBatch : Preserves (CachedFrom cached) beginBatch :=
  .bind .get fun _ => .ite (.throw _) (preserves_statement fun _ => rfl)

theorem preserves_commitBatch : Preserves (CachedFrom cached) commitBatch :=
  .bind .get fun _ => .ite (.throw _) (preserves_statement fun _ => rfl)

theorem preserves_rollbackBatch : Preserves (CachedFrom cached) rollbackBatch :=
  preserves_tryStatement fun _ => cached_rolledBack

theorem preserves_copyShard (shard : PostingTables) :
    Preserves (CachedFrom cached) (copyShard shard) := by
  refine preserves_beginBatch.bind fun _ => ?_
  refine (preserves_onError ?_ preserves_rollbackBatch).bind fun _ => preserves_commitBatch
  exact (preserves_writeTables _).bind fun _ => preserves_writeTables _

/-- A call that is no query drops the cached index or leaves it. -/
theorem preserves_run {call : IndexCall}
    (hcall : ∀ queryTerms k parameters algorithm, call ≠ .topK queryTerms k parameters algorithm) :
    Preserves (CachedFrom cached) (call.run weighting) := by
  cases call with
  | index order itemId tokens =>
    refine (preserves_deleteFromDb itemId).bind fun _ => .ite preserves_dropCache ?_
    refine .bind (.forM (fun row => preserves_writeTables _) _) fun _ => ?_
    exact (preserves_writeTables _).bind fun _ => preserves_dropCache
  | remove itemId => exact (preserves_deleteFromDb itemId).bind fun _ => preserves_dropCache
  | mergeShard shard =>
    refine .bind .get fun _ => .ite (.throw _) ?_
    refine (preserves_statement fun _ => rfl).bind fun _ => ?_
    exact preserves_followedBy (preserves_copyShard shard) (preserves_tryStatement fun _ => rfl)
  | foldPostings => exact preserves_dropCache
  | clearAll =>
    refine (preserves_writeTables _).bind fun _ => ?_
    exact (preserves_writeTables _).bind fun _ => preserves_dropCache
  | beginBatch => exact preserves_beginBatch
  | commitBatch => exact preserves_commitBatch
  | rollbackBatch => exact preserves_rollbackBatch
  | topK queryTerms k parameters algorithm => exact absurd rfl (hcall queryTerms k parameters algorithm)

end Caches

end InvertedIndexStore

namespace IndexSession

open InvertedIndexStore

variable {weighting : ImpactWeighting} {s : IndexSession}

end IndexSession

namespace InvertedIndexStore

open IndexSession

end InvertedIndexStore

end MootMemory
