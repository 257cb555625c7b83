import MootMemory.WandExactness

namespace MootMemory

theorem string_lt_push (s : String) (c : Char) : s < s.push c := by
  rw [String.lt_iff_toList_lt, String.toList_push]
  induction s.toList with
  | nil => exact List.nil_lt_cons _ _
  | cons a l ih => exact List.cons_lt_cons_iff.mpr (Or.inr ⟨rfl, ih⟩)

section Blocks

open InvertedIndex

variable {posts block : List ImpactPosting} {p : ImpactPosting} {i : Nat}

/-- The blocks are those of the postings, and the weight is positive. -/
structure PostingCursor.Blocked (c : PostingCursor) : Prop where
  weight : 0 < c.queryWeight
  maxes : c.blockMax = (blocksOf c.postings).map maxImpact
  lasts : c.blockLastId = (blocksOf c.postings).map blockLast

namespace PostingCursor

variable {c : PostingCursor} {d x : String}

theorem Blocked.move {position : Nat} (h : c.Blocked) :
    ({ c with position := position }).Blocked := ⟨h.weight, h.maxes, h.lasts⟩

end PostingCursor

end Blocks

namespace InvertedIndex

variable {postings : Nat → Option (List ImpactPosting)} {query : List (Nat × Int)}
  {k i : Nat} {s s' : PivotState} {d : String} {E₀ O : List (String × Int)} {t : String × Int}

/-- The ids that the chosen cursor leaves behind where the step jumps past a block. -/
def PivotState.jumpPasses (s : PivotState) : List String :=
  match findPivot s.arranged.cursors s.threshold with
  | none => []
  | some (pivotIdx, pivotId) =>
    if computeBlockUb s.arranged.cursors pivotIdx pivotId ≤ s.threshold then
      match s.arranged.cursors[chooseAdvance s.arranged.cursors pivotIdx pivotId]? with
      | none => []
      | some c =>
        (c.passed (nextBlockTarget s.arranged.cursors pivotIdx pivotId)).map Prod.fst
    else []

theorem lt_nextBlockTarget (cursors : List PostingCursor) (i : Nat) (d : String) :
    d < nextBlockTarget cursors i d := by
  refine lt_of_le_of_lt ?_ (string_lt_push _ _)
  cases hmin : minBlockLast (involved cursors i d) d with
  | none => exact le_rfl
  | some last =>
    have hmem := (List.min?_eq_some_iff.mp hmin).1
    obtain ⟨c, -, hfind⟩ := List.mem_filterMap.mp hmem
    have hle := List.find?_some hfind
    exact of_decide_eq_true hle

/-- A step of the block search is one of the plain search, or a jump. -/
theorem Scan.bmwStep_cases (h : Scan k E₀ O s) (hk : 1 ≤ k) (hstep : bmwStep s = some s') :
    (s.jumpPasses = [] ∧ ∃ i d, findPivot s.arranged.cursors s.threshold = some (i, d) ∧
      s' = s.arranged.scoreOrSeek i d) ∨
    ∃ passed, Moves s s' passed ∧ (∀ c ∈ s'.cursors, c.Sound) ∧
      s.jumpPasses = passed.map Prod.fst := by
  rw [bmwStep] at hstep
  split at hstep
  next => cases hstep
  next i d hpivot =>
    split at hstep
    next hbound =>
      obtain ⟨c, id, hc, hid, hle⟩ := (h.pivotAt hk hpivot).chosen
      have hlt := lt_of_le_of_lt hle (lt_nextBlockTarget s.arranged.cursors i d)
      cases hstep
      refine Or.inr ⟨_, (moves_seekChosen hc hid hlt).of_arranged,
        seekChosen_sound (arranged_arrange h.sound).sound, ?_⟩
      rw [PivotState.jumpPasses, hpivot]
      dsimp only
      rw [if_pos hbound, hc]
    next hbound =>
      refine Or.inl ⟨?_, i, d, hpivot, (Option.some.inj hstep).symm⟩
      rw [PivotState.jumpPasses, hpivot]
      exact if_neg hbound

/-- Each step takes the scan on and leaves less to come. -/
theorem Scan.bmwStep (h : Scan k E₀ O s) (hk : 1 ≤ k) (hstep : bmwStep s = some s') :
    (∃ O', Scan k E₀ O' s') ∧ (remaining s'.cursors).length < (remaining s.cursors).length := by
  rcases h.bmwStep_cases hk hstep with ⟨-, i, d, hpivot, rfl⟩ | ⟨passed, hmoves, hsound, -⟩
  · obtain ⟨hsound, hoffers | ⟨passed, hmoves, -⟩⟩ := h.scoreOrSeek hk hpivot
    · exact ⟨⟨_, h.offers hk hoffers hsound⟩, hoffers.shorter⟩
    · exact ⟨⟨O, h.moves hmoves hsound⟩, hmoves.shorter⟩
  · exact ⟨⟨O, h.moves hmoves hsound⟩, hmoves.shorter⟩

theorem ScanIntact.bmwStep (h : ScanIntact k E₀ s) (hk : 1 ≤ k) (hstep : bmwStep s = some s')
    (hsafe : ∀ id ∈ s.jumpPasses, id ∉ (topScores k E₀).map Prod.fst) : ScanIntact k E₀ s' := by
  obtain ⟨O, hscan, hintact⟩ := h
  rcases hscan.bmwStep_cases hk hstep with ⟨-, i, d, hpivot, rfl⟩ | ⟨passed, hmoves, hsound, heq⟩
  · exact (ScanIntact.scoreOrSeek ⟨O, hscan, hintact⟩ hk hpivot).1
  · refine ⟨O, hscan.moves hmoves hsound, hmoves.intact hintact fun t ht _ hin => ?_⟩
    exact hsafe t.1 (heq ▸ hin) (List.mem_map_of_mem ht)

/-- One of the result is lost to the scan. -/
def ScanLost (k : Nat) (E₀ : List (String × Int)) (t : String × Int) (s : PivotState) : Prop :=
  ∃ O, Scan k E₀ O s ∧ Lost (remaining s.cursors) O t

theorem Scan.remaining_pos (h : Scan k E₀ O s) : ∀ e ∈ remaining s.cursors, 0 < e.2 :=
  fun e he => h.scanned.positive e (h.scanned.within.subset he)

theorem Moves.lost {passed : List (String × Int)} (h : Scan k E₀ O s) (hmoves : Moves s s' passed)
    (hlost : Lost (remaining s.cursors) O t) : Lost (remaining s'.cursors) O t :=
  hlost.drop h.remaining_pos
    ((List.sublist_append_right _ _).subperm.trans hmoves.split.symm.subperm)

theorem ScanLost.bmwStep (h : ScanLost k E₀ t s) (hk : 1 ≤ k) (hstep : bmwStep s = some s') :
    ScanLost k E₀ t s' := by
  obtain ⟨O, hscan, hlost⟩ := h
  rcases hscan.bmwStep_cases hk hstep with ⟨-, i, d, hpivot, rfl⟩ | ⟨passed, hmoves, hsound, -⟩
  · obtain ⟨hsound, hoffers | ⟨passed, hmoves, -⟩⟩ := hscan.scoreOrSeek hk hpivot
    · obtain ⟨hout, hless⟩ := hlost.offer (d := d) hscan.remaining_pos
      exact ⟨_, hscan.offers hk hoffers hsound, hout, by rwa [amountAt_perm hoffers.rest]⟩
    · exact ⟨O, hscan.moves hmoves hsound, hmoves.lost hscan hlost⟩
  · exact ⟨O, hscan.moves hmoves hsound, hmoves.lost hscan hlost⟩

variable {cursors : List PostingCursor} {x : String} {threshold : Int}

end InvertedIndex

end MootMemory
