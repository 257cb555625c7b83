import MootMemory.CorpusLifecycle
import MootMemory.IndexFreshness
import MootMemory.MihKnn

namespace MootMemory

/-- The floating-point part of keyword search: the weights of postings, and the scores that impacts
are read as. -/
structure QueryFloats where
  weighting : ImpactWeighting
  lawful : LawfulWeighting weighting
  Score : Type
  order : LinearOrder Score
  zero : Score
  impact : Int → Score

instance (floats : QueryFloats) : LinearOrder floats.Score := floats.order

variable {sub : CorpusSubstrate}

namespace Corpus

variable (c : Corpus sub) (floats : QueryFloats)

/-- The postings are searched, which leaves the index of them behind. -/
def search (weighting : ImpactWeighting) (tokens : List String) (k : Nat) :
    List (String × Int) × Corpus sub :=
  let found := c.invertedIndex.queried weighting tokens k .default .blockMaxWand
  (found.1, { c with invertedIndex := found.2 })

/-- Hits by source, each with its score; a hit whose id is of no source counts for nothing. -/
def credited (hits : List (String × Int)) : List (String × floats.Score) :=
  hits.filterMap fun hit =>
    ((sub.parseId hit.1).bind c.chunkSourceMap).map fun sourceId => (sourceId, floats.impact hit.2)

/-- Every source once, with the best of its scores, the best sources first. -/
def ranked (credits : List (String × floats.Score)) : List (String × floats.Score) :=
  (((credits.map (·.1)).dedup).map fun sourceId =>
    (sourceId, ((credits.filter (·.1 = sourceId)).map (·.2)).foldl max floats.zero)).insertionSort
      fun a b => b.2 < a.2 ∨ (a.2 = b.2 ∧ a.1 ≤ b.1)

def bm25TopKBySource (query : String) (limit : Nat) :
    List (String × floats.Score) × Corpus sub :=
  let tokens := defaultKeywordTokens sub query
  if limit = 0 ∨ query = "" ∨ tokens = [] then ([], c)
  else
    let found := c.search floats.weighting tokens (saturatingMul limit 4)
    ((ranked floats (c.credited floats found.1)).take limit, found.2)

end Corpus

/-- The answers depend on the tables and on the map to sources, where the indexes are fresh. -/
theorem Corpus.bm25TopKBySource_congr {floats : QueryFloats} {c c' : Corpus sub}
    (hfresh : c.invertedIndex.Fresh floats.weighting)
    (hfresh' : c'.invertedIndex.Fresh floats.weighting)
    (htables : c.invertedIndex.tables = c'.invertedIndex.tables)
    (hmap : c.chunkSourceMap = c'.chunkSourceMap) (query : String) (limit : Nat) :
    (c.bm25TopKBySource floats query limit).1 = (c'.bm25TopKBySource floats query limit).1 := by
  have hindex : c.invertedIndex.freshIndex floats.weighting .default =
      c'.invertedIndex.freshIndex floats.weighting .default := by
    rw [InvertedIndexStore.freshIndex, InvertedIndexStore.freshIndex, htables]
  have hhits : ∀ tokens k, (c.search floats.weighting tokens k).1 =
      (c'.search floats.weighting tokens k).1 := by
    intro tokens k
    unfold search
    dsimp only
    rw [hfresh.queried floats.lawful, hfresh'.queried floats.lawful, hindex]
  unfold bm25TopKBySource
  dsimp only
  split
  next => rfl
  next => rw [hhits, credited, credited, hmap]

end MootMemory
