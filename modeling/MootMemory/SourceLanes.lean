import MootMemory.CorpusAnswers
import MootMemory.FloatBruteForce
import MootMemory.GroupRanking

namespace MootMemory

/-- The probes of both directions: the table is searched for its farthest vectors as well. -/
structure DirectedProbes (sub : CorpusSubstrate) (floats : QueryFloats)
    extends Probes sub floats where
  findFarthestFloat : VectorTable → List UInt32 → String → Nat → Except String (List (String × Int))
  posInfinity : floats.Score

variable {sub : CorpusSubstrate} {floats : QueryFloats}

/-- The sources an outcome gives; a lane that is dark gives none. -/
def FloatLaneOutcome.sources : FloatLaneOutcome floats → List (String × floats.Score)
  | .hits found => found
  | _ => []

namespace Corpus

variable (probes : DirectedProbes sub floats) (c : Corpus sub) (direction : SearchDirection)

def findFloat (probe : List UInt32) (modelId : String) (k : Nat) :
    Except String (List (String × Int)) :=
  match direction with
  | .nearest => probes.findNearestFloat c.storage.vectors probe modelId k
  | .farthest => probes.findFarthestFloat c.storage.vectors probe modelId k

/-- Hits by source, each with its score. -/
def credit {Score : Type} (score : Int → Score) (hits : List (String × Int)) :
    List (String × Score) :=
  hits.filterMap fun hit =>
    ((sub.parseId hit.1).bind c.chunkSourceMap).map fun sourceId => (sourceId, score hit.2)

/-- Every source once, with the least similar of its chunks, the least similar sources first. -/
def leastSimilar (credits : List (String × floats.Score)) : List (String × floats.Score) :=
  (((credits.map (·.1)).dedup).map fun sourceId =>
    (sourceId, ((credits.filter (·.1 = sourceId)).map (·.2)).foldl min probes.posInfinity)
      ).insertionSort fun a b => a.2 < b.2 ∨ (a.2 = b.2 ∧ a.1 ≤ b.1)

def rankedSources (credits : List (String × floats.Score)) : List (String × floats.Score) :=
  match direction with
  | .nearest => mostSimilar probes.toProbes credits
  | .farthest => leastSimilar probes credits

/-- `float_nearest_for_slot` in either direction. -/
def floatNearestForSlotBy (slot : ProviderSlot sub) (query : String) (limit : Nat) :
    FloatLaneOutcome floats :=
  match probes.embedFloat slot.kind slot.handle query with
  | .error .vocabMiss => .unavailableNoVocabHit
  | .error .other => .unavailableProviderOptOut
  | .ok [] => .unavailableProviderOptOut
  | .ok probe =>
    match c.findFloat probes direction probe slot.modelId (saturatingMul limit 4) with
    | .error reason => .storeError reason
    | .ok found =>
      let credits := c.credit probes.similarity found
      if credits = [] then .unavailableNoFloatRows
      else .hits ((rankedSources probes direction credits).take limit)

theorem floatNearestForSlotBy_nearest (slot : ProviderSlot sub) (query : String) (limit : Nat) :
    c.floatNearestForSlotBy probes .nearest slot query limit =
      c.floatNearestForSlot probes.toProbes slot query limit := rfl

section Chunks

variable (floats) in
/-- The best chunks for the terms of a query. -/
def keywordHits (query : String) (k : Nat) : List (String × Int) :=
  if query = "" ∨ defaultKeywordTokens sub query = [] then []
  else (c.search floats.weighting (defaultKeywordTokens sub query) k).1

/-- The chunks at one end of the ranking by similarity to a query. -/
def floatHits (slot : ProviderSlot sub) (query : String) (k : Nat) : List (String × Int) :=
  match probes.embedFloat slot.kind slot.handle query with
  | .error _ => []
  | .ok [] => []
  | .ok probe =>
    match c.findFloat probes direction probe slot.modelId k with
    | .error _ => []
    | .ok found => found

/-- The most similar chunks of the first model. -/
def nearestHits (query : String) (k : Nat) : List (String × Int) :=
  if query = "" then []
  else
    match c.slots.head? with
    | none => []
    | some slot => c.floatHits probes .nearest slot query k

end Chunks

end Corpus

section TopSources

variable {Score R : Type} [LinearOrder R] {rank : Score → R}

/-- Chunks are retrieved exactly: whatever number is asked for, it is the first of the matching
chunks, best first, and no score is worse than any can be. -/
structure RetrievesExactly (rank : Score → R) (worst : Score) (score : Int → Score)
    (retrieve : Nat → List (String × Int)) (matching : List (String × Int)) : Prop where
  found : ∀ k, retrieve k = matching.take k
  bestFirst : matching.Pairwise fun a b => rank (score a.2) ≤ rank (score b.2)
  bounded : ∀ hit ∈ matching, rank (score hit.2) ≤ rank worst

/-- An answer is the first `limit` of the ranking of all sources with a matching chunk. -/
def AnswersTopSources (rank : Score → R) (matching : List (String × Score)) (limit : Nat)
    (answer : List (String × Score)) : Prop :=
  ∃ ranking, RanksGroups rank matching ranking ∧ answer = ranking.take limit

/-- Each of the first `limit` of all sources has a chunk among those that are fetched. -/
def FetchesTopSources (rank : Score → R) (matching : List (String × Score)) (limit : Nat)
    (fetched : List (String × Score)) : Prop :=
  ∃ ranking, RanksGroups rank matching ranking ∧
    ∀ p ∈ ranking.take limit, p.1 ∈ fetched.map Prod.fst

variable {worst : Score} {better : Score → Score → Score}
  {before : String × Score → String × Score → Prop} [DecidableRel before] {score : Int → Score}
  {retrieve : Nat → List (String × Int)} {matching : List (String × Int)}

theorem RetrievesExactly.credit_ranks (c : Corpus sub) (hrank : Function.Injective rank)
    (hbetter : ∀ a b, rank (better a b) = min (rank a) (rank b))
    (hbefore : ∀ p q, before p q ↔ groupKey rank p ≤ groupKey rank q)
    (h : RetrievesExactly rank worst score retrieve matching) {hits : List (String × Int)}
    (hhits : hits ⊆ matching) : RanksGroups rank (c.credit score hits)
      (groupRanking better worst before (c.credit score hits)) := by
  refine groupRanking_ranks hrank hbetter (fun p hp => ?_) hbefore
  obtain ⟨hit, hhit, hcredit⟩ := List.mem_filterMap.mp hp
  obtain ⟨sourceId, -, rfl⟩ := Option.map_eq_some_iff.mp hcredit
  exact h.bounded hit (hhits hhit)

/-- What is aggregated of the chunks that are fetched are the top sources exactly if each of these
has a chunk among them. -/
theorem RetrievesExactly.aggregates_iff (c : Corpus sub) (hrank : Function.Injective rank)
    (hbetter : ∀ a b, rank (better a b) = min (rank a) (rank b))
    (hbefore : ∀ p q, before p q ↔ groupKey rank p ≤ groupKey rank q)
    (h : RetrievesExactly rank worst score retrieve matching) (limit k : Nat) :
    AnswersTopSources rank (c.credit score matching) limit
        ((groupRanking better worst before (c.credit score (retrieve k))).take limit) ↔
      FetchesTopSources rank (c.credit score matching) limit
        (c.credit score (matching.take k)) := by
  have hbest : (c.credit score matching).Pairwise fun p q => rank p.2 ≤ rank q.2 := by
    refine h.bestFirst.filterMap _ fun a b hle p hp q hq => ?_
    obtain ⟨_, -, rfl⟩ := Option.map_eq_some_iff.mp hp
    obtain ⟨_, -, rfl⟩ := Option.map_eq_some_iff.mp hq
    exact hle
  have htop : c.credit score (matching.take k) <+: c.credit score matching :=
    (List.take_prefix k matching).filterMap _
  have hall := h.credit_ranks c hrank hbetter hbefore (List.Subset.refl matching)
  have hfetched := h.credit_ranks c hrank hbetter hbefore (List.take_subset k matching)
  have hiff := hall.take_eq_take_iff hrank hbest htop hfetched limit
  rw [h.found k]
  constructor
  · rintro ⟨ranking, hranks, heq⟩
    rw [hranks.unique hrank hall] at heq
    exact ⟨_, hall, hiff.mp heq⟩
  · rintro ⟨ranking, hranks, hmet⟩
    rw [hranks.unique hrank hall] at hmet
    exact ⟨_, hall, hiff.mpr hmet⟩

end TopSources

section Lanes

variable (floats) (probes : DirectedProbes sub floats) (c : Corpus sub)

theorem Corpus.bm25TopKBySource_eq (query : String) (limit : Nat) :
    (c.bm25TopKBySource floats query limit).1 =
      (ranked floats (c.credit floats.impact
        (c.keywordHits floats query (saturatingMul limit 4)))).take limit := by
  unfold bm25TopKBySource keywordHits
  dsimp only
  by_cases hdark : query = "" ∨ defaultKeywordTokens sub query = []
  · rw [if_pos (Or.inr hdark), if_pos hdark]
    exact List.take_nil.symm
  · rw [if_neg hdark]
    by_cases hlimit : limit = 0
    · rw [if_pos (Or.inl hlimit), hlimit, List.take_zero]
    · rw [if_neg (by tauto)]
      rfl

variable {floats}

theorem Corpus.rankedSources_nil (direction : SearchDirection) :
    rankedSources probes direction [] = [] := by
  cases direction <;> rfl

theorem Corpus.sources_floatNearestForSlotBy (direction : SearchDirection)
    (slot : ProviderSlot sub) (query : String) (limit : Nat) :
    (c.floatNearestForSlotBy probes direction slot query limit).sources =
      (rankedSources probes direction (c.credit probes.similarity
        (c.floatHits probes direction slot query (saturatingMul limit 4)))).take limit := by
  have hdark : ([] : List (String × floats.Score)) =
      (rankedSources probes direction (c.credit probes.similarity [])).take limit := by
    have hnil : c.credit probes.similarity [] = [] := rfl
    rw [hnil, rankedSources_nil, List.take_nil]
  unfold floatNearestForSlotBy floatHits
  cases hprobe : probes.embedFloat slot.kind slot.handle query with
  | error failure => cases failure <;> exact hdark
  | ok probe =>
    cases probe with
    | nil => exact hdark
    | cons x xs =>
      dsimp only
      cases hfound : c.findFloat probes direction (x :: xs) slot.modelId
          (saturatingMul limit 4) with
      | error reason => exact hdark
      | ok found =>
        dsimp only
        by_cases hcredits : c.credit probes.similarity found = []
        · rw [if_pos hcredits, hcredits, rankedSources_nil, List.take_nil]
          rfl
        · rw [if_neg hcredits]
          rfl

theorem Corpus.sources_floatNearest (query : String) (limit : Nat) :
    (c.floatNearest probes.toProbes query limit).sources =
      (mostSimilar probes.toProbes (c.credit probes.similarity
        (c.nearestHits probes query (saturatingMul limit 4)))).take limit := by
  have hdark : ([] : List (String × floats.Score)) =
      (mostSimilar probes.toProbes (c.credit probes.similarity [])).take limit :=
    List.take_nil.symm
  unfold floatNearest nearestHits
  by_cases hquery : query = ""
  · rw [if_pos (Or.inr hquery), if_pos hquery]
    exact hdark
  · rw [if_neg hquery]
    by_cases hlimit : limit = 0
    · rw [if_pos (Or.inl hlimit), hlimit, List.take_zero]
      rfl
    · rw [if_neg (by tauto)]
      cases c.slots.head? with
      | none => exact hdark
      | some slot => exact c.sources_floatNearestForSlotBy probes .nearest slot query limit

theorem before_descending (p q : String × floats.Score) :
    (q.2 < p.2 ∨ (p.2 = q.2 ∧ p.1 ≤ q.1)) ↔
      groupKey OrderDual.toDual p ≤ groupKey OrderDual.toDual q := by
  rw [groupKey_le_iff, OrderDual.toDual_lt_toDual, OrderDual.toDual_inj]

/-- Each source lane returns the top sources exactly if the chunks that are fetched, four for each
source asked for, have one of each of them. -/
theorem Corpus.answersTopSources_iff (query : String) (limit : Nat) :
    (∀ matching, RetrievesExactly OrderDual.toDual floats.zero floats.impact
        (c.keywordHits floats query) matching →
      (AnswersTopSources OrderDual.toDual (c.credit floats.impact matching) limit
          (c.bm25TopKBySource floats query limit).1 ↔
        FetchesTopSources OrderDual.toDual (c.credit floats.impact matching) limit
          (c.credit floats.impact (matching.take (saturatingMul limit 4))))) ∧
    (∀ matching, RetrievesExactly OrderDual.toDual probes.negInfinity probes.similarity
        (c.nearestHits probes query) matching →
      (AnswersTopSources OrderDual.toDual (c.credit probes.similarity matching) limit
          (c.floatNearest probes.toProbes query limit).sources ↔
        FetchesTopSources OrderDual.toDual (c.credit probes.similarity matching) limit
          (c.credit probes.similarity (matching.take (saturatingMul limit 4))))) ∧
    ∀ slot matching, RetrievesExactly id probes.posInfinity probes.similarity
        (c.floatHits probes .farthest slot query) matching →
      (AnswersTopSources id (c.credit probes.similarity matching) limit
          (c.floatNearestForSlotBy probes .farthest slot query limit).sources ↔
        FetchesTopSources id (c.credit probes.similarity matching) limit
          (c.credit probes.similarity (matching.take (saturatingMul limit 4)))) := by
  refine ⟨fun matching h => ?_, fun matching h => ?_, fun slot matching h => ?_⟩
  · rw [bm25TopKBySource_eq]
    exact h.aggregates_iff c OrderDual.toDual.injective (fun _ _ => rfl)
      before_descending limit _
  · rw [sources_floatNearest]
    exact h.aggregates_iff c OrderDual.toDual.injective (fun _ _ => rfl)
      before_descending limit _
  · rw [sources_floatNearestForSlotBy]
    exact h.aggregates_iff c Function.injective_id (fun _ _ => rfl)
      (fun _ _ => groupKey_le_iff.symm) limit _

end Lanes

section TwoSources

open ReferenceCorpus

/-- The reference probes, and a vector at the far end as near as all others. -/
def ReferenceCorpus.directedProbes : DirectedProbes referenceCorpus ReferenceCorpus.floats where
  toProbes := probes
  findFarthestFloat := probes.findNearestFloat
  posInfinity := (20000 : Int)

/-- A source of four chunks, and one of a single chunk after it. -/
def ReferenceCorpus.twoSources : Corpus referenceCorpus :=
  (["alpha", "beta", "gamma", "delta"].foldl (fun c text => c.ingested ⟨text, "b", 0⟩)
    (opened [.plain (.fixed "m") [1]])).ingested ⟨"alpha", "a", 0⟩

theorem ReferenceCorpus.nearestHits_exactly :
    RetrievesExactly OrderDual.toDual directedProbes.negInfinity directedProbes.similarity
      (twoSources.nearestHits directedProbes "alpha")
      (twoSources.nearestHits directedProbes "alpha" 5) where
  found _ := rfl
  bestFirst := by decide +kernel
  bounded := by decide +kernel

section KeywordLane

open BM25Weighting InvertedIndex

/-- The postings of the term that both sources have. -/
def ReferenceCorpus.alphaPostings : List ImpactPosting :=
  [⟨"a\x1f0\x1falpha", 1⟩, ⟨"b\x1f0\x1falpha", 1⟩]

def ReferenceCorpus.alphaHits : List (String × Int) :=
  [("a\x1f0\x1falpha", 100), ("b\x1f0\x1falpha", 100)]

def ReferenceCorpus.alphaCursor (position : Nat) : PostingCursor where
  termId := 0
  termUb := 100
  queryWeight := 100
  postings := alphaPostings
  blockMax := [1]
  blockLastId := ["b\x1f0\x1falpha"]
  position := position

theorem ReferenceCorpus.terms_twoSources :
    terms twoSources.invertedIndex.tables = ["alpha", "beta", "delta", "gamma"] := by
  have hterms : twoSources.invertedIndex.tables.termFreqs.rows.image (·.term) =
      ["alpha", "beta", "delta", "gamma"].toFinset := by decide +kernel
  rw [terms, hterms]
  exact (List.toFinset_sort (· ≤ ·) (by decide)).mpr (by decide)

theorem ReferenceCorpus.termPostings_twoSources :
    termPostings ReferenceCorpus.floats.weighting .default twoSources.invertedIndex.tables "alpha" =
      alphaPostings := by
  have hentries : (twoSources.invertedIndex.tables.termFreqs.rows.filter (·.term = "alpha")).image
      (fun row => toLex (row.itemId, row.freq)) =
        (alphaPostings.map fun p => toLex (p.itemId, 1)).toFinset := by decide +kernel
  have hsort := (List.toFinset_sort (· ≤ ·)
    (l := alphaPostings.map fun p => toLex (p.itemId, 1)) (by decide)).mpr (by decide)
  rw [termPostings, hentries, hsort]
  rfl

variable {postings : Nat → Option (List ImpactPosting)}

theorem ReferenceCorpus.buildCursors_alpha (h : postings 0 = some alphaPostings) :
    (new postings).buildCursors [(0, 100)] = [alphaCursor 0] := by
  have hcursor : (new postings).cursorFor 0 100 = some (alphaCursor 0) := by
    simp only [cursorFor, new, h, Option.map_some]
    rfl
  simp only [buildCursors, List.filterMap_cons, hcursor, List.filterMap_nil]

theorem ReferenceCorpus.postingCount_alpha (h : postings 0 = some alphaPostings) :
    (new postings).postingCount [(0, 100)] = 2 := by
  simp only [postingCount, List.flatMap_singleton, termEntries, new, h, Option.map_some]
  rfl

/-- However many are asked for, the search for the term gives the first of its two postings. -/
theorem ReferenceCorpus.loopFuel_alpha (k : Nat) :
    (loopFuel bmwStep 3 ⟨[alphaCursor 0], TopKHeap.new (k + 1), 0⟩).map (·.heap.sorted) =
      some (alphaHits.take (k + 1)) := by
  have hfirst : ∀ heap, bmwStep ⟨[alphaCursor 0], heap, 0⟩ = some ⟨[alphaCursor 1],
      (heap.offer "a\x1f0\x1falpha" 100 0).1, (heap.offer "a\x1f0\x1falpha" 100 0).2⟩ :=
    fun _ => rfl
  have hsecond : ∀ heap, bmwStep ⟨[alphaCursor 1], heap, 0⟩ = some ⟨[alphaCursor 2],
      (heap.offer "b\x1f0\x1falpha" 100 0).1, (heap.offer "b\x1f0\x1falpha" 100 0).2⟩ :=
    fun _ => rfl
  have hend : ∀ heap, bmwStep ⟨[alphaCursor 2], heap, 0⟩ = none := fun _ => rfl
  rcases k with _ | _ | k
  · decide +kernel
  · decide +kernel
  · -- the heap has room for both
    have hone : (TopKHeap.new (k + 3)).offer "a\x1f0\x1falpha" 100 0 =
        (⟨[("a\x1f0\x1falpha", 100)], k + 3⟩, 0) := by
      have hsift : siftUp TopKHeap.isWeaker ([] ++ [("a\x1f0\x1falpha", 100)]) 0 =
          [("a\x1f0\x1falpha", 100)] := by decide +kernel
      rw [← hsift]
      exact TopKHeap.offer_of_room (by rw [List.length_nil]; omega)
    have hboth : TopKHeap.offer ⟨[("a\x1f0\x1falpha", 100)], k + 3⟩ "b\x1f0\x1falpha" 100 0 =
        (⟨[("b\x1f0\x1falpha", 100), ("a\x1f0\x1falpha", 100)], k + 3⟩, 0) := by
      have hsift : siftUp TopKHeap.isWeaker
          ([("a\x1f0\x1falpha", 100)] ++ [("b\x1f0\x1falpha", 100)]) 1 =
            [("b\x1f0\x1falpha", 100), ("a\x1f0\x1falpha", 100)] := by decide +kernel
      rw [← hsift]
      exact TopKHeap.offer_of_room (by rw [List.length_singleton]; omega)
    rw [loopFuel, hfirst, hone]
    dsimp only
    rw [loopFuel, hsecond, hboth]
    dsimp only
    rw [loopFuel, hend]
    rfl

theorem ReferenceCorpus.keywordHits_alpha (k : Nat) :
    twoSources.keywordHits ReferenceCorpus.floats "alpha" k = alphaHits.take k := by
  have htokens : defaultKeywordTokens referenceCorpus "alpha" = ["alpha"] := by rfl
  have hcached : twoSources.invertedIndex.cachedFor .default = none := by rfl
  have hindex : twoSources.invertedIndex.queriedIndex ReferenceCorpus.floats.weighting .default =
      ⟨.default, new fun termId => ["alpha", "beta", "delta", "gamma"][termId]?.map
        (termPostings ReferenceCorpus.floats.weighting .default twoSources.invertedIndex.tables),
        buildTermIdMap twoSources.invertedIndex.tables⟩ := by
    rw [InvertedIndexStore.queriedIndex, hcached, Option.getD_none, InvertedIndexStore.freshIndex,
      build, if_neg (by decide), terms_twoSources]
  have hposts : ["alpha", "beta", "delta", "gamma"][0]?.map (termPostings
      ReferenceCorpus.floats.weighting .default twoSources.invertedIndex.tables) =
        some alphaPostings := congrArg some termPostings_twoSources
  have hpairs : queryPairs ["alpha"] (buildTermIdMap twoSources.invertedIndex.tables) =
      [(0, 100)] := by
    have hid : buildTermIdMap twoSources.invertedIndex.tables "alpha" = some 0 := by
      rw [buildTermIdMap, terms_twoSources]
      rfl
    rw [queryPairs, List.filterMap_cons_some hid]
    rfl
  rw [Corpus.keywordHits, if_neg (by decide), htokens]
  change (twoSources.invertedIndex.queriedIndex ReferenceCorpus.floats.weighting .default).answer
    ["alpha"] k .blockMaxWand = _
  rw [hindex, CachedIndex.answer, hpairs, topK, buildCursors_alpha hposts]
  cases k with
  | zero => rfl
  | succ k =>
    rw [if_neg (by simp), postingCount_alpha hposts]
    dsimp only
    rw [runBmw, startState, buildCursors_alpha hposts, loopFuel_alpha]
    rfl

theorem ReferenceCorpus.keywordHits_exactly :
    RetrievesExactly OrderDual.toDual ReferenceCorpus.floats.zero ReferenceCorpus.floats.impact
      (twoSources.keywordHits ReferenceCorpus.floats "alpha") alphaHits where
  found := keywordHits_alpha
  bestFirst := by decide
  bounded := by decide

end KeywordLane

def ReferenceCorpus.trainedSlot : ProviderSlot referenceCorpus :=
  buildSlot .empty (.plain (.fixed "m") [1])

theorem ReferenceCorpus.farthestHits_exactly :
    RetrievesExactly id directedProbes.posInfinity directedProbes.similarity
      (twoSources.floatHits directedProbes .farthest trainedSlot "alpha")
      (twoSources.floatHits directedProbes .farthest trainedSlot "alpha" 5) where
  found _ := rfl
  bestFirst := by decide +kernel
  bounded := by decide +kernel

/-- With two sources asked for, eight chunks are fetched, which is all there are; both sources have a
chunk with the term. -/
theorem Corpus.answersTopSources_iff_twoSources :
    AnswersTopSources OrderDual.toDual
      (twoSources.credit ReferenceCorpus.floats.impact alphaHits) 2
      (twoSources.bm25TopKBySource ReferenceCorpus.floats "alpha" 2).1 ∧
    AnswersTopSources OrderDual.toDual
      (twoSources.credit directedProbes.similarity (twoSources.nearestHits directedProbes "alpha" 5))
      2 (twoSources.floatNearest directedProbes.toProbes "alpha" 2).sources ∧
    AnswersTopSources id
      (twoSources.credit directedProbes.similarity
        (twoSources.floatHits directedProbes .farthest trainedSlot "alpha" 5)) 2
      (twoSources.floatNearestForSlotBy directedProbes .farthest trainedSlot "alpha" 2).sources := by
  obtain ⟨hkeyword, hnearest, hfarthest⟩ :=
    Corpus.answersTopSources_iff directedProbes twoSources "alpha" 2
  refine ⟨(hkeyword _ keywordHits_exactly).mpr ⟨_, keywordHits_exactly.credit_ranks _
      OrderDual.toDual.injective (fun _ _ => rfl) before_descending (List.Subset.refl _), ?_⟩,
    (hnearest _ nearestHits_exactly).mpr ⟨_, nearestHits_exactly.credit_ranks _
      OrderDual.toDual.injective (fun _ _ => rfl) before_descending (List.Subset.refl _), ?_⟩,
    (hfarthest _ _ farthestHits_exactly).mpr ⟨_, farthestHits_exactly.credit_ranks _
      Function.injective_id (fun _ _ => rfl) (fun _ _ => groupKey_le_iff.symm)
      (List.Subset.refl _), ?_⟩⟩
  · decide +kernel
  · decide +kernel
  · decide +kernel

/-- With one source asked for, four chunks are fetched, which are all of the source that is second
to the other by its name. -/
theorem Corpus.not_answersTopSources :
    ∃ (c : Corpus referenceCorpus) (query : String) (matching : List (String × Int)),
      RetrievesExactly OrderDual.toDual directedProbes.negInfinity directedProbes.similarity
        (c.nearestHits directedProbes query) matching ∧
      ¬AnswersTopSources OrderDual.toDual (c.credit directedProbes.similarity matching) 1
        (c.floatNearest directedProbes.toProbes query 1).sources := by
  refine ⟨twoSources, "alpha", _, nearestHits_exactly, ?_⟩
  rintro ⟨ranking, hranks, hanswer⟩
  have hall := nearestHits_exactly.credit_ranks twoSources OrderDual.toDual.injective
    (fun _ _ => rfl) before_descending (List.Subset.refl _)
  rw [hranks.unique OrderDual.toDual.injective hall] at hanswer
  revert hanswer
  decide +kernel

end TwoSources

end MootMemory
