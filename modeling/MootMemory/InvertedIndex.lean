import MootMemory.LoopRuns
import MootMemory.TopScan
import Mathlib.Data.String.Basic

namespace MootMemory

structure ImpactPosting where
  itemId : String
  impact : Int
deriving DecidableEq, Repr

def blockSize : Nat := 128

def i32Max : Int := 2 ^ 31 - 1

/-- A place in a term's postings. -/
structure PostingCursor where
  termId : Nat
  termUb : Int
  queryWeight : Int
  postings : List ImpactPosting
  blockMax : List Int
  blockLastId : List String
  position : Nat
deriving DecidableEq, Repr

namespace PostingCursor

variable (cursor : PostingCursor)

def currentId : Option String := cursor.postings[cursor.position]?.map (·.itemId)

def isExhausted : Bool := decide (cursor.postings.length ≤ cursor.position)

/-- Read only where there is a current posting. -/
def currentImpact : Int := (cursor.postings[cursor.position]?.map (·.impact)).getD 0

def advance : PostingCursor := { cursor with position := cursor.position + 1 }

/-- How many postings the loop of a seek passes. -/
def seekSteps (target : String) : List ImpactPosting → Nat
  | [] => 0
  | posting :: rest => if posting.itemId < target then seekSteps target rest + 1 else 0

/-- To the first posting that is not before the target. -/
def seek (target : String) : PostingCursor :=
  { cursor with
    position := cursor.position + seekSteps target (cursor.postings.drop cursor.position) }

/-- The bound of the first block that ends at the id or after it. -/
def blockMaxContribution (itemId : String) : Int :=
  match cursor.blockLastId.findIdx? (itemId ≤ ·) with
  | some blockIdx => cursor.blockMax[blockIdx]?.getD 0 * cursor.queryWeight
  | none => 0

end PostingCursor

structure InvertedIndex where
  sortedPostings : Nat → Option (List ImpactPosting)
  globalMaxImpact : Nat → Option Int
  blockMaxImpacts : Nat → Option (List Int)
  blockLastIds : Nat → Option (List String)

def sortPostings (posts : List ImpactPosting) : List ImpactPosting :=
  posts.insertionSort fun a b => a.itemId ≤ b.itemId

def maxImpact (posts : List ImpactPosting) : Int := (posts.map (·.impact)).max?.getD 0

/-- The postings in blocks, the last of which may be shorter. -/
def blocksOf (posts : List ImpactPosting) : List (List ImpactPosting) :=
  (List.range ((posts.length + (blockSize - 1)) / blockSize)).map fun i =>
    (posts.drop (i * blockSize)).take blockSize

def blockLast (posts : List ImpactPosting) : String := (posts.getLast?.map (·.itemId)).getD ""

namespace InvertedIndex

def new (postings : Nat → Option (List ImpactPosting)) : InvertedIndex where
  sortedPostings termId := (postings termId).map sortPostings
  globalMaxImpact termId := (postings termId).map fun posts => maxImpact (sortPostings posts)
  blockMaxImpacts termId :=
    (postings termId).map fun posts => (blocksOf (sortPostings posts)).map maxImpact
  blockLastIds termId :=
    (postings termId).map fun posts => (blocksOf (sortPostings posts)).map blockLast

/-- A term without postings has no cursor. -/
def cursorFor (index : InvertedIndex) (termId : Nat) (weight : Int) : Option PostingCursor :=
  match index.sortedPostings termId with
  | none => none
  | some posts =>
    if posts.isEmpty then none
    else some
      { termId := termId
        termUb := min ((index.globalMaxImpact termId).getD 0 * weight) i32Max
        queryWeight := weight
        postings := posts
        blockMax := (index.blockMaxImpacts termId).getD []
        blockLastId := (index.blockLastIds termId).getD []
        position := 0 }

def buildCursors (index : InvertedIndex) (query : List (Nat × Int)) : List PostingCursor :=
  query.filterMap fun term => index.cursorFor term.1 term.2

end InvertedIndex

/-- The best entries so far, the weakest at the root. -/
structure TopKHeap where
  entries : List (String × Int)
  capacity : Nat
deriving DecidableEq, Repr

namespace TopKHeap

def new (capacity : Nat) : TopKHeap := ⟨[], capacity⟩

def minScore (heap : TopKHeap) : Int := (heap.entries.head?.map (·.2)).getD 0

def isWeaker (a b : String × Int) : Bool :=
  if a.2 ≠ b.2 then decide (a.2 < b.2) else decide (b.1 < a.1)

/-- The largest id with the score. -/
def worstId (heap : TopKHeap) (score : Int) : String :=
  (((heap.entries.filter fun e => e.2 == score).map (·.1)).max?).getD ""

def wouldEnter (heap : TopKHeap) (score : Int) (itemId : String) (threshold : Int) : Bool :=
  if heap.entries.length < heap.capacity then true
  else if threshold < score then true
  else if score = threshold then decide (itemId < heap.worstId score)
  else false

/-- The heap and the threshold after an offer. -/
def offer (heap : TopKHeap) (itemId : String) (score threshold : Int) : TopKHeap × Int :=
  if heap.entries.length < heap.capacity then
    let heap := { heap with
      entries := siftUp isWeaker (heap.entries ++ [(itemId, score)]) heap.entries.length }
    (heap, if heap.entries.length = heap.capacity then heap.minScore else threshold)
  else if heap.wouldEnter score itemId threshold then
    let heap := { heap with
      entries := siftDown isWeaker (heap.entries.set 0 (itemId, score)) 0 }
    (heap, heap.minScore)
  else (heap, threshold)

def sorted (heap : TopKHeap) : List (String × Int) := sortByRank scoreRank heap.entries

end TopKHeap

namespace InvertedIndex

/-- By current id, and by term among equal ones. -/
def cursorLe (a b : PostingCursor) : Prop :=
  a.currentId.getD "" < b.currentId.getD "" ∨
    (a.currentId.getD "" = b.currentId.getD "" ∧ a.termId ≤ b.termId)

instance : DecidableRel cursorLe := fun _ _ => inferInstanceAs (Decidable (_ ∨ _))

/-- The cursors with postings left, in order. -/
def arrange (cursors : List PostingCursor) : List PostingCursor :=
  (cursors.filter fun c => !c.isExhausted).insertionSort cursorLe

/-- The first cursor at which the bounds together pass the threshold. -/
def findPivotFrom (threshold : Int) : Nat → Int → List PostingCursor → Option (Nat × String)
  | _, _, [] => none
  | i, acc, c :: cursors =>
    match c.currentId with
    | none => findPivotFrom threshold (i + 1) acc cursors
    | some id =>
      if threshold < acc + c.termUb then some (i, id)
      else findPivotFrom threshold (i + 1) (acc + c.termUb) cursors

def findPivot (cursors : List PostingCursor) (threshold : Int) : Option (Nat × String) :=
  findPivotFrom threshold 0 0 cursors

/-- The score of the pivot, and the cursors past it. -/
def scoreAligned (cursors : List PostingCursor) (pivotId : String) : Int × List PostingCursor :=
  ((cursors.map fun c =>
      if c.currentId = some pivotId then c.queryWeight * c.currentImpact else 0).sum,
    cursors.map fun c => if c.currentId = some pivotId then c.advance else c)

/-- One step of the search for the cursor to move. -/
def chooseStep (cursors : List PostingCursor) (pivotId : String) (best : Option Nat) (i : Nat) :
    Option Nat :=
  match cursors[i]? with
  | none => best
  | some c =>
    match c.currentId with
    | none => best
    | some id =>
      if pivotId ≤ id then best
      else
        match best.bind (cursors[·]?) with
        | none => some i
        | some b => if c.termId < b.termId then some i else best

/-- Of the cursors before the pivot that are behind it, the one with the smallest term. -/
def chooseAdvance (cursors : List PostingCursor) (pivotIdx : Nat) (pivotId : String) : Nat :=
  ((List.range pivotIdx).foldl (chooseStep cursors pivotId) none).getD 0

/-- The cursors up to the pivot's that are not beyond it. -/
def involved (cursors : List PostingCursor) (pivotIdx : Nat) (pivotId : String) :
    List PostingCursor :=
  (cursors.take (pivotIdx + 1)).filter fun c =>
    match c.currentId with
    | none => false
    | some id => decide (id ≤ pivotId)

def computeBlockUb (cursors : List PostingCursor) (pivotIdx : Nat) (pivotId : String) : Int :=
  ((involved cursors pivotIdx pivotId).map (·.blockMaxContribution pivotId)).sum

/-- The end of the earliest block that ends at the pivot or after it. -/
def minBlockLast (cursors : List PostingCursor) (pivotId : String) : Option String :=
  (cursors.filterMap fun c => c.blockLastId.find? (pivotId ≤ ·)).min?

/-- Past the end of the first block that any involved cursor is in. -/
def nextBlockTarget (cursors : List PostingCursor) (pivotIdx : Nat) (pivotId : String) : String :=
  ((minBlockLast (involved cursors pivotIdx pivotId) pivotId).getD pivotId).push '\x01'

structure PivotState where
  cursors : List PostingCursor
  heap : TopKHeap
  threshold : Int
deriving DecidableEq, Repr

/-- Moves the chosen cursor. -/
def PivotState.seekChosen (s : PivotState) (pivotIdx : Nat) (pivotId target : String) :
    PivotState :=
  { s with
    cursors := s.cursors.modify (chooseAdvance s.cursors pivotIdx pivotId) (·.seek target) }

/-- Scores the pivot if the first cursor is there, else moves a cursor towards it. -/
def PivotState.scoreOrSeek (s : PivotState) (pivotIdx : Nat) (pivotId : String) : PivotState :=
  if s.cursors.head?.bind (·.currentId) = some pivotId then
    let aligned := scoreAligned s.cursors pivotId
    let offered := s.heap.offer pivotId aligned.1 s.threshold
    ⟨aligned.2, offered.1, offered.2⟩
  else s.seekChosen pivotIdx pivotId pivotId

def PivotState.arranged (s : PivotState) : PivotState := { s with cursors := arrange s.cursors }

def wandStep (s : PivotState) : Option PivotState :=
  match findPivot s.arranged.cursors s.threshold with
  | none => none
  | some (pivotIdx, pivotId) => some (s.arranged.scoreOrSeek pivotIdx pivotId)

def bmwStep (s : PivotState) : Option PivotState :=
  match findPivot s.arranged.cursors s.threshold with
  | none => none
  | some (pivotIdx, pivotId) =>
    if computeBlockUb s.arranged.cursors pivotIdx pivotId ≤ s.threshold then
      some (s.arranged.seekChosen pivotIdx pivotId
        (nextBlockTarget s.arranged.cursors pivotIdx pivotId))
    else some (s.arranged.scoreOrSeek pivotIdx pivotId)

def startState (index : InvertedIndex) (query : List (Nat × Int)) (k : Nat) : PivotState :=
  ⟨index.buildCursors query, TopKHeap.new k, 0⟩

def runWand (fuel : Nat) (index : InvertedIndex) (query : List (Nat × Int)) (k : Nat) :
    Option (List (String × Int)) :=
  (loopFuel wandStep fuel (index.startState query k)).map (·.heap.sorted)

def runBmw (fuel : Nat) (index : InvertedIndex) (query : List (Nat × Int)) (k : Nat) :
    Option (List (String × Int)) :=
  (loopFuel bmwStep fuel (index.startState query k)).map (·.heap.sorted)

end InvertedIndex

namespace TopKHeap

variable {heap : TopKHeap} {k : Nat} {O : List (String × Int)} {threshold : Int}

/-- The heap holds a best choice of the offers, and the threshold is its weakest score once it is
full. -/
structure Holds (heap : TopKHeap) (k : Nat) (O : List (String × Int)) (threshold : Int) : Prop where
  capacity : heap.capacity = k
  best : BestHeap scoreRank k O heap.entries
  threshold : threshold = if heap.entries.length < k then 0 else heap.minScore

theorem isWeaker_iff (a b : String × Int) : isWeaker a b ↔ scoreRank b < scoreRank a := by
  rw [scoreRank_lt, isWeaker]
  by_cases h : a.2 = b.2
  · simp [h]
  · simp [h, Ne.symm h]

/-- A heap with room left takes an offer and keeps the threshold. -/
theorem offer_of_room {entries : List (String × Int)} {capacity : Nat} {itemId : String}
    {score : Int} (h : entries.length + 1 < capacity) :
    TopKHeap.offer ⟨entries, capacity⟩ itemId score threshold =
      (⟨siftUp isWeaker (entries ++ [(itemId, score)]) entries.length, capacity⟩, threshold) := by
  have hlength := (siftUp_perm isWeaker (entries ++ [(itemId, score)]) entries.length).length_eq
  rw [List.length_append, List.length_singleton] at hlength
  rw [offer, if_pos (Nat.lt_of_succ_lt h)]
  dsimp only
  rw [hlength, if_neg h.ne]

theorem holds_new (hk : 1 ≤ k) : (new k).Holds k [] 0 :=
  ⟨rfl, BestHeap.nil, (if_pos hk).symm⟩

theorem Holds.length_le (h : heap.Holds k O threshold) : heap.entries.length ≤ k := by
  obtain ⟨_, _, hle, _⟩ := h.best.best
  exact hle

theorem Holds.root (h : heap.Holds k O threshold) (hk : 1 ≤ k)
    (hfull : ¬heap.entries.length < k) :
    ∃ root, heap.entries[0]? = some root ∧ threshold = root.2 := by
  have hlen : 0 < heap.entries.length := by omega
  refine ⟨heap.entries[0], List.getElem?_eq_getElem hlen, ?_⟩
  rw [h.threshold, if_neg hfull, minScore, List.head?_eq_getElem?, List.getElem?_eq_getElem hlen]
  rfl

theorem rank_root_le {root a : String × Int} (h : BestHeap scoreRank k O heap.entries)
    (hroot : heap.entries[0]? = some root) (ha : a ∈ heap.entries) :
    root.2 < a.2 ∨ (a.2 = root.2 ∧ a.1 ≤ root.1) := by
  rcases (h.order.le_root hroot a ha).lt_or_eq with hlt | heq
  · exact (scoreRank_lt.mp hlt).imp_right fun hs => ⟨hs.1, hs.2.le⟩
  · obtain rfl := scoreRank_injective heq
    exact Or.inr ⟨rfl, le_rfl⟩

/-- The scores of a full heap are not under the threshold. -/
theorem Holds.threshold_le (h : heap.Holds k O threshold) (hk : 1 ≤ k)
    (hfull : ¬heap.entries.length < k) : ∀ a ∈ heap.entries, threshold ≤ a.2 := by
  intro a ha
  obtain ⟨root, hroot, hthreshold⟩ := h.root hk hfull
  rw [hthreshold]
  rcases rank_root_le h.best hroot ha with hlt | heq
  · exact hlt.le
  · exact heq.1.ge

theorem worstId_eq {root : String × Int} (h : BestHeap scoreRank k O heap.entries)
    (hroot : heap.entries[0]? = some root) : heap.worstId root.2 = root.1 := by
  have hmax : ((heap.entries.filter fun e => e.2 == root.2).map (·.1)).max? = some root.1 := by
    rw [List.max?_eq_some_iff]
    refine ⟨List.mem_map.mpr ⟨root, List.mem_filter.mpr ⟨?_, beq_self_eq_true _⟩, rfl⟩, ?_⟩
    · exact List.mem_of_getElem? hroot
    · intro id hid
      obtain ⟨a, ha, rfl⟩ := List.mem_map.mp hid
      obtain ⟨ha, hscore⟩ := List.mem_filter.mp ha
      rw [beq_iff_eq] at hscore
      rcases rank_root_le h hroot ha with hlt | heq
      · exact absurd hlt (hscore ▸ lt_irrefl _)
      · exact heq.2
  rw [worstId, hmax]
  rfl

/-- An offer enters a full heap just if it is better than the root. -/
theorem Holds.wouldEnter_iff (h : heap.Holds k O threshold) (hfull : ¬heap.entries.length < k)
    {root : String × Int} (hroot : heap.entries[0]? = some root) (hthreshold : threshold = root.2)
    (itemId : String) (score : Int) :
    heap.wouldEnter score itemId threshold = true ↔
      scoreRank (itemId, score) < scoreRank root := by
  rw [wouldEnter, h.capacity, if_neg hfull, scoreRank_lt, hthreshold]
  by_cases hlt : root.2 < score
  · simp [hlt]
  · by_cases heq : score = root.2
    · subst heq
      simp [worstId_eq h.best hroot]
    · simp [hlt, heq]

theorem Holds.offer (h : heap.Holds k O threshold) (hk : 1 ≤ k) (itemId : String) (score : Int) :
    (heap.offer itemId score threshold).1.Holds k ((itemId, score) :: O)
      (heap.offer itemId score threshold).2 := by
  rw [TopKHeap.offer, h.capacity]
  split
  next hroom =>
    refine ⟨rfl, h.best.push isWeaker_iff hroom (itemId, score), ?_⟩
    have hlen : (siftUp isWeaker (heap.entries ++ [(itemId, score)]) heap.entries.length).length =
        heap.entries.length + 1 := by
      rw [(siftUp_perm isWeaker _ _).length_eq, List.length_append, List.length_singleton]
    dsimp only
    rw [hlen]
    by_cases hnow : heap.entries.length + 1 = k
    · rw [if_pos hnow, if_neg (by omega)]
    · rw [if_neg hnow, if_pos (by omega), h.threshold, if_pos hroom]
  next hfull =>
    obtain ⟨root, hroot, hthreshold⟩ := h.root hk hfull
    have hlen : heap.entries.length = k := le_antisymm h.length_le (not_lt.mp hfull)
    have henter := h.wouldEnter_iff hfull hroot hthreshold itemId score
    split
    next hin =>
      have hnew := h.best.replace isWeaker_iff hlen hroot (henter.mp hin)
      refine ⟨rfl, hnew, ?_⟩
      rw [if_neg]
      dsimp only
      rw [(siftDown_perm isWeaker _ _).length_eq, List.length_set]
      exact hfull
    next hout =>
      exact ⟨h.capacity, h.best.keep hlen hroot (not_lt.mp (mt henter.mpr hout)), h.threshold⟩

end TopKHeap

end MootMemory
