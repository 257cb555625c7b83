import MootMemory.PivotSteps

namespace MootMemory

namespace InvertedIndex

variable {postings : Nat → Option (List ImpactPosting)} {query : List (Nat × Int)}
  {posts : List ImpactPosting} {k : Nat}

/-- The entries of one query term. -/
def termEntries (index : InvertedIndex) (term : Nat × Int) : List (String × Int) :=
  ((index.sortedPostings term.1).getD []).map fun p => (p.itemId, term.2 * p.impact)

/-- How many postings the terms of the query have. -/
def postingCount (index : InvertedIndex) (query : List (Nat × Int)) : Nat :=
  (query.flatMap index.termEntries).length

/-- The scan is intact: nothing of the result was passed. -/
def ScanIntact (k : Nat) (E₀ : List (String × Int)) (s : PivotState) : Prop :=
  ∃ O, Scan k E₀ O s ∧ Intact k E₀ (remaining s.cursors) O

theorem ScanIntact.scoreOrSeek {E₀ : List (String × Int)} {s : PivotState} {i : Nat} {d : String}
    (h : ScanIntact k E₀ s) (hk : 1 ≤ k)
    (hpivot : findPivot s.arranged.cursors s.threshold = some (i, d)) :
    ScanIntact k E₀ (s.arranged.scoreOrSeek i d) ∧
      (remaining (s.arranged.scoreOrSeek i d).cursors).length < (remaining s.cursors).length := by
  obtain ⟨O, hscan, hintact⟩ := h
  obtain ⟨hsound, hoffers | ⟨passed, hmoves, hsafe⟩⟩ := hscan.scoreOrSeek hk hpivot
  · exact ⟨⟨_, hscan.offers hk hoffers hsound, hoffers.intact hintact⟩, hoffers.shorter⟩
  · exact ⟨⟨O, hscan.moves hmoves hsound, hmoves.intact hintact hsafe⟩, hmoves.shorter⟩

end InvertedIndex

end MootMemory
