import MootMemory.KeyedTable
import MootMemory.StableSort
import Mathlib.Algebra.Order.Field.Rat
import Mathlib.Algebra.BigOperators.Group.List.Basic
import Mathlib.Data.Prod.Lex
import Mathlib.Data.String.Basic

namespace MootMemory.Fusion

inductive LaneTag
  | binaryDense
  | floatDense
  | sparse
  | lateInteraction
  deriving DecidableEq

structure FusedHit where
  itemId : String
  fusedScore : ℚ
  perLane : HashMap LaneTag ℚ

/-- Higher scores first, then the smaller item. -/
def FusedHit.rank (hit : FusedHit) : ℚᵒᵈ ×ₗ String :=
  toLex (OrderDual.toDual hit.fusedScore, hit.itemId)

/-- What the lanes have contributed so far. -/
structure Fusing where
  fusedScores : HashMap String ℚ
  perLaneByItem : HashMap String (HashMap LaneTag ℚ)

section Fuse

variable (laneScores : Option (HashMap LaneTag (HashMap String ℚ))) (weights : HashMap LaneTag ℚ)
  (rrfK : ℚ)

/-- One item of a ranked list, with the items of the lane seen before it. -/
def fuseItem (lane : LaneTag) (st : Fusing × List String) (item : String × Nat) :
    Fusing × List String :=
  if item.1 ∈ st.2 then st
  else
    let weight := (HashMap.get? weights lane).getD 0
    let rrfTerm := weight / (rrfK + item.2)
    let score := (HashMap.get? st.1.fusedScores item.1).getD 0
    let perLane := (HashMap.get? st.1.perLaneByItem item.1).getD .empty
    ({ fusedScores := st.1.fusedScores.put (item.1, score + rrfTerm)
       perLaneByItem :=
        match (laneScores.bind (HashMap.get? · lane)).bind (HashMap.get? · item.1) with
        | some rawScore => st.1.perLaneByItem.put (item.1, perLane.put (lane, rawScore))
        | none => st.1.perLaneByItem },
      item.1 :: st.2)

def fuseLane (st : Fusing) (lane : LaneTag × List (String × Nat)) : Fusing :=
  (lane.2.foldl (fuseItem laneScores weights rrfK lane.1) (st, [])).1

/-- The lists and the scores are met in the order in which their hash maps yield them. -/
def fuse (lists : IterationOrder (LaneTag × List (String × Nat)))
    (scores : IterationOrder (String × ℚ)) (rankedLists : HashMap LaneTag (List (String × Nat))) :
    Option (List FusedHit) :=
  -- the assertion at the head of the function
  if rrfK ≤ 0 then none
  else
    let fused := (lists.run rankedLists.rows).foldl (fuseLane laneScores weights rrfK)
      ⟨.empty, .empty⟩
    some <| stableSort FusedHit.rank <| (scores.run fused.fusedScores.rows).map fun entry =>
      ⟨entry.1, entry.2, (HashMap.get? fused.perLaneByItem entry.1).getD .empty⟩

end Fuse

/-- The positions of a scored list as ranks. -/
def rankedOf (scoredList : List (String × ℚ)) : List (String × Nat) :=
  scoredList.zipIdx.map fun entry => (entry.1.1, entry.2 + 1)

def rawScoresOf (scoredList : List (String × ℚ)) : HashMap String ℚ :=
  scoredList.foldl KeyedTable.put .empty

/-- The orders in which the hash maps of a fusion are walked. -/
structure FusionOrders where
  scored : IterationOrder (LaneTag × List (String × ℚ))
  ranked : IterationOrder (LaneTag × List (String × Nat))
  fused : IterationOrder (String × ℚ)

def fuseScored (orders : FusionOrders) (scoredLists : HashMap LaneTag (List (String × ℚ)))
    (weights : HashMap LaneTag ℚ) (rrfK : ℚ) : Option (List FusedHit) :=
  let lanes := orders.scored.run scoredLists.rows
  let rankedLists := lanes.foldl (fun m lane => m.put (lane.1, rankedOf lane.2)) .empty
  let laneScores := lanes.foldl (fun m lane => m.put (lane.1, rawScoresOf lane.2)) .empty
  fuse (some laneScores) weights rrfK orders.ranked orders.fused rankedLists

/-- The score an item has so far. -/
def Fusing.scoreAt (st : Fusing) (id : String) : Option ℚ := HashMap.get? st.fusedScores id

/-- The raw score a lane has noted for an item so far. -/
def Fusing.notedAt (st : Fusing) (id : String) (lane : LaneTag) : Option ℚ :=
  (HashMap.get? st.perLaneByItem id).bind (HashMap.get? · lane)

/-- The position of an item that its lane counts. -/
def firstRank (items : List (String × Nat)) (id : String) : Option Nat :=
  (items.find? fun item => item.1 = id).map Prod.snd

theorem firstRank_cons (item : String × Nat) (items : List (String × Nat)) (id : String) :
    firstRank (item :: items) id = if id = item.1 then some item.2 else firstRank items id := by
  by_cases h : id = item.1
  · simp [firstRank, h]
  · have hne : ¬item.1 = id := fun heq => h heq.symm
    simp [firstRank, h, hne]

section Lanes

variable {laneScores : Option (HashMap LaneTag (HashMap String ℚ))} {weights : HashMap LaneTag ℚ}
  {rrfK : ℚ} {lane : LaneTag}

/-- The raw score a caller gives an item in a lane. -/
def rawScoreAt (laneScores : Option (HashMap LaneTag (HashMap String ℚ))) (lane : LaneTag)
    (id : String) : Option ℚ :=
  (laneScores.bind (HashMap.get? · lane)).bind (HashMap.get? · id)

/-- What a lane adds to the score of an item. -/
def laneTerm (weights : HashMap LaneTag ℚ) (rrfK : ℚ) (lane : LaneTag × List (String × Nat))
    (id : String) : Option ℚ :=
  (firstRank lane.2 id).map fun rank => (HashMap.get? weights lane.1).getD 0 / (rrfK + rank)

theorem scoreAt_fuseItem {st : Fusing} {seen : List String} {item : String × Nat}
    (h : item.1 ∉ seen) (id : String) :
    (fuseItem laneScores weights rrfK lane (st, seen) item).1.scoreAt id =
      if id = item.1 then
        some ((st.scoreAt id).getD 0 + (HashMap.get? weights lane).getD 0 / (rrfK + item.2))
      else st.scoreAt id := by
  rw [fuseItem, if_neg h, Fusing.scoreAt, HashMap.get?_put]
  split
  next heq => rw [heq]; rfl
  next => rfl

theorem notedAt_fuseItem {st : Fusing} {seen : List String} {item : String × Nat}
    (h : item.1 ∉ seen) (id : String) (lane' : LaneTag) :
    (fuseItem laneScores weights rrfK lane (st, seen) item).1.notedAt id lane' =
      if id = item.1 ∧ lane' = lane then
        (rawScoreAt laneScores lane id).or (st.notedAt id lane')
      else st.notedAt id lane' := by
  have hraw : rawScoreAt laneScores lane item.1 =
    (laneScores.bind (HashMap.get? · lane)).bind (HashMap.get? · item.1) := rfl
  rw [fuseItem, if_neg h, Fusing.notedAt]
  dsimp only
  rw [← hraw]
  cases hscore : rawScoreAt laneScores lane item.1 with
  | none =>
    dsimp only
    split
    next heq => rw [heq.1, hscore]; rfl
    next => rfl
  | some rawScore =>
    dsimp only
    rw [HashMap.get?_put]
    by_cases hid : id = item.1
    · subst hid
      rw [if_pos rfl, Option.bind_some, HashMap.get?_put, hscore]
      by_cases hlane : lane' = lane
      · simp [hlane]
      · rw [if_neg hlane, if_neg fun hand => hlane hand.2, Fusing.notedAt]
        cases HashMap.get? st.perLaneByItem item.1 <;> rfl
    · rw [if_neg hid, if_neg fun hand => hid hand.1]
      rfl

theorem fuseItem_seen {st : Fusing × List String} {item : String × Nat} (h : item.1 ∈ st.2) :
    fuseItem laneScores weights rrfK lane st item = st := if_pos h

theorem snd_fuseItem {st : Fusing × List String} {item : String × Nat} {id : String} :
    id ∈ (fuseItem laneScores weights rrfK lane st item).2 ↔ id = item.1 ∨ id ∈ st.2 := by
  rw [fuseItem]
  split
  next h =>
    constructor
    · exact Or.inr
    · rintro (rfl | hid)
      · exact h
      · exact hid
  next => exact List.mem_cons

/-- Over a ranked list an item is credited once, with its first rank. -/
theorem scoreAt_foldl_fuseItem (items : List (String × Nat)) (st : Fusing × List String)
    (id : String) : (items.foldl (fuseItem laneScores weights rrfK lane) st).1.scoreAt id =
      if id ∈ st.2 then st.1.scoreAt id
      else ((laneTerm weights rrfK (lane, items) id).map ((st.1.scoreAt id).getD 0 + ·)).or
        (st.1.scoreAt id) := by
  induction items generalizing st with
  | nil => simp [laneTerm, firstRank]
  | cons item items ih =>
    obtain ⟨st, seen⟩ := st
    rw [List.foldl_cons, ih]
    by_cases hseen : item.1 ∈ seen
    · rw [fuseItem_seen hseen]
      split
      next => rfl
      next hid =>
        have hne : id ≠ item.1 := fun heq => hid (heq ▸ hseen)
        rw [laneTerm, laneTerm, firstRank_cons, if_neg hne]
    · rw [scoreAt_fuseItem hseen]
      simp only [snd_fuseItem]
      by_cases hid : id = item.1
      · subst hid
        simp [laneTerm, firstRank_cons, hseen]
      · simp [laneTerm, firstRank_cons, hid]

theorem notedAt_foldl_fuseItem (items : List (String × Nat)) (st : Fusing × List String)
    (id : String) (lane' : LaneTag) :
    (items.foldl (fuseItem laneScores weights rrfK lane) st).1.notedAt id lane' =
      if id ∉ st.2 ∧ lane' = lane ∧ (firstRank items id).isSome then
        (rawScoreAt laneScores lane id).or (st.1.notedAt id lane')
      else st.1.notedAt id lane' := by
  induction items generalizing st with
  | nil => simp [firstRank]
  | cons item items ih =>
    obtain ⟨st, seen⟩ := st
    rw [List.foldl_cons, ih]
    by_cases hseen : item.1 ∈ seen
    · rw [fuseItem_seen hseen]
      by_cases hid : id ∈ seen
      · simp [hid]
      · have hne : id ≠ item.1 := fun heq => hid (heq ▸ hseen)
        rw [firstRank_cons, if_neg hne]
    · rw [notedAt_fuseItem hseen]
      simp only [snd_fuseItem]
      by_cases hid : id = item.1
      · subst hid
        simp [firstRank_cons, hseen]
      · simp [firstRank_cons, hid]

theorem scoreAt_fuseLane (st : Fusing) (lane : LaneTag × List (String × Nat)) (id : String) :
    (fuseLane laneScores weights rrfK st lane).scoreAt id =
      ((laneTerm weights rrfK lane id).map ((st.scoreAt id).getD 0 + ·)).or (st.scoreAt id) := by
  rw [fuseLane, scoreAt_foldl_fuseItem, if_neg List.not_mem_nil]

theorem notedAt_fuseLane (st : Fusing) (lane : LaneTag × List (String × Nat)) (id : String)
    (lane' : LaneTag) : (fuseLane laneScores weights rrfK st lane).notedAt id lane' =
      if lane' = lane.1 ∧ (firstRank lane.2 id).isSome then
        (rawScoreAt laneScores lane.1 id).or (st.notedAt id lane')
      else st.notedAt id lane' := by
  rw [fuseLane, notedAt_foldl_fuseItem]
  simp

/-- Over the lanes an item gathers one term from each lane that ranks it. -/
theorem scoreAt_foldl_fuseLane (lanes : List (LaneTag × List (String × Nat))) (st : Fusing)
    (id : String) : (lanes.foldl (fuseLane laneScores weights rrfK) st).scoreAt id =
      if ∃ lane ∈ lanes, (laneTerm weights rrfK lane id).isSome then
        some ((st.scoreAt id).getD 0 +
          (lanes.map fun lane => (laneTerm weights rrfK lane id).getD 0).sum)
      else st.scoreAt id := by
  induction lanes generalizing st with
  | nil => simp
  | cons lane lanes ih =>
    rw [List.foldl_cons, ih, scoreAt_fuseLane, List.map_cons, List.sum_cons]
    cases hterm : laneTerm weights rrfK lane id with
    | none =>
      have hrest : (∃ lane' ∈ lane :: lanes, (laneTerm weights rrfK lane' id).isSome) ↔
          ∃ lane' ∈ lanes, (laneTerm weights rrfK lane' id).isSome := by
        simp [hterm]
      rw [if_congr hrest rfl rfl]
      simp
    | some term =>
      simp only [List.exists_mem_cons_iff, hterm, Option.map_some, Option.some_or,
        Option.getD_some, Option.isSome_some, true_or, if_true, ← add_assoc]
      split
      next => rfl
      next hno =>
        have hzero : (lanes.map fun lane => (laneTerm weights rrfK lane id).getD 0).sum = 0 := by
          refine List.sum_eq_zero fun x hx => ?_
          obtain ⟨lane', hlane, rfl⟩ := List.mem_map.mp hx
          cases hnone : laneTerm weights rrfK lane' id with
          | none => rfl
          | some term' => exact absurd ⟨lane', hlane, by rw [hnone]; rfl⟩ hno
        rw [hzero, add_zero]

/-- A lane notes its raw scores once, whatever lanes come before or after it. -/
theorem notedAt_foldl_fuseLane (lanes : List (LaneTag × List (String × Nat)))
    (hnodup : (lanes.map Prod.fst).Nodup) (st : Fusing) (id : String) (tag : LaneTag) :
    (lanes.foldl (fuseLane laneScores weights rrfK) st).notedAt id tag =
      if ∃ lane ∈ lanes, lane.1 = tag ∧ (firstRank lane.2 id).isSome then
        (rawScoreAt laneScores tag id).or (st.notedAt id tag)
      else st.notedAt id tag := by
  induction lanes generalizing st with
  | nil => simp
  | cons lane lanes ih =>
    rw [List.map_cons, List.nodup_cons] at hnodup
    rw [List.foldl_cons, ih hnodup.2, notedAt_fuseLane]
    simp only [List.exists_mem_cons_iff]
    by_cases htag : lane.1 = tag
    · subst htag
      have hrest : ¬∃ lane' ∈ lanes, lane'.1 = lane.1 ∧ (firstRank lane'.2 id).isSome := by
        rintro ⟨lane', hlane, heq, -⟩
        exact hnodup.1 (heq ▸ List.mem_map_of_mem hlane)
      simp [hrest]
    · have hrest : (lane.1 = tag ∧ (firstRank lane.2 id).isSome ∨
          ∃ lane' ∈ lanes, lane'.1 = tag ∧ (firstRank lane'.2 id).isSome) ↔
          ∃ lane' ∈ lanes, lane'.1 = tag ∧ (firstRank lane'.2 id).isSome := by
        simp [htag]
      have hskip : ¬(tag = lane.1 ∧ (firstRank lane.2 id).isSome) := fun hand => htag hand.1.symm
      rw [if_congr hrest rfl rfl, if_neg hskip]

variable (laneScores weights rrfK) in
/-- The contributions of all lanes together. -/
def fusedLanes (lanes : List (LaneTag × List (String × Nat))) : Fusing :=
  lanes.foldl (fuseLane laneScores weights rrfK) ⟨.empty, .empty⟩

theorem scoreAt_fusedLanes {lanes : List (LaneTag × List (String × Nat))} {id : String} {s : ℚ} :
    (fusedLanes laneScores weights rrfK lanes).scoreAt id = some s ↔
      (∃ lane ∈ lanes, (laneTerm weights rrfK lane id).isSome) ∧
        s = (lanes.map fun lane => (laneTerm weights rrfK lane id).getD 0).sum := by
  have hempty : Fusing.scoreAt ⟨.empty, .empty⟩ id = none := HashMap.get?_empty
  rw [fusedLanes, scoreAt_foldl_fuseLane, hempty, Option.getD_none, zero_add]
  split
  next h =>
    exact ⟨fun heq => ⟨h, (Option.some.inj heq).symm⟩, fun hand => congrArg some hand.2.symm⟩
  next h => exact ⟨fun heq => (nomatch heq), fun hand => absurd hand.1 h⟩

theorem notedAt_fusedLanes {lanes : List (LaneTag × List (String × Nat))}
    (hnodup : (lanes.map Prod.fst).Nodup) (id : String) (tag : LaneTag) :
    (fusedLanes laneScores weights rrfK lanes).notedAt id tag =
      if ∃ lane ∈ lanes, lane.1 = tag ∧ (firstRank lane.2 id).isSome then
        rawScoreAt laneScores tag id
      else none := by
  have hempty : Fusing.notedAt ⟨.empty, .empty⟩ id tag = none := rfl
  rw [fusedLanes, notedAt_foldl_fuseLane lanes hnodup, hempty, Option.or_none]

/-- Whatever the orders of the maps, an item gathers its terms and notes. -/
structure FusesLanes (laneScores : Option (HashMap LaneTag (HashMap String ℚ)))
    (weights : HashMap LaneTag ℚ) (rrfK : ℚ) (rows : List (LaneTag × List (String × Nat)))
    (hits : List FusedHit) : Prop where
  once : (hits.map (·.itemId)).Nodup
  sorted : hits.Pairwise fun a b => a.rank ≤ b.rank
  items : ∀ id, id ∈ hits.map (·.itemId) ↔
    ∃ lane ∈ rows, (laneTerm weights rrfK lane id).isSome
  scores : ∀ hit ∈ hits, hit.fusedScore =
    (rows.map fun lane => (laneTerm weights rrfK lane hit.itemId).getD 0).sum
  notes : ∀ hit ∈ hits, ∀ tag, HashMap.get? hit.perLane tag =
    if ∃ lane ∈ rows, lane.1 = tag ∧ (firstRank lane.2 hit.itemId).isSome then
      rawScoreAt laneScores tag hit.itemId
    else none

theorem fuse_fusesLanes {lists : IterationOrder (LaneTag × List (String × Nat))}
    {scores : IterationOrder (String × ℚ)} {rankedLists : HashMap LaneTag (List (String × Nat))}
    {hits : List FusedHit}
    (h : fuse laneScores weights rrfK lists scores rankedLists = some hits) :
    FusesLanes laneScores weights rrfK rankedLists.rows hits := by
  have hrows := lists.perm rankedLists.rows
  let fused := fusedLanes laneScores weights rrfK (lists.run rankedLists.rows)
  let hitOf := fun entry : String × ℚ => FusedHit.mk entry.1 entry.2
    ((HashMap.get? fused.perLaneByItem entry.1).getD .empty)
  have hhits : stableSort FusedHit.rank ((scores.run fused.fusedScores.rows).map hitOf) =
      hits := by
    rw [fuse] at h
    split at h
    next => cases h
    next => exact Option.some.inj h
  have hperm : hits.Perm (fused.fusedScores.rows.map hitOf) := by
    rw [← hhits]
    exact (stableSort_perm _ _).trans ((scores.perm _).map hitOf)
  have hids : (hits.map (·.itemId)).Perm (fused.fusedScores.rows.map Prod.fst) := by
    have hmap := hperm.map (·.itemId)
    rwa [List.map_map] at hmap
  -- the rows of the scores are what the lanes gave
  have hscore : ∀ id s, (id, s) ∈ fused.fusedScores.rows ↔
      (∃ lane ∈ rankedLists.rows, (laneTerm weights rrfK lane id).isSome) ∧
        s = (rankedLists.rows.map fun lane => (laneTerm weights rrfK lane id).getD 0).sum := by
    intro id s
    rw [← HashMap.get?_eq_some_iff]
    refine scoreAt_fusedLanes.trans (and_congr ?_ ?_)
    · simp only [hrows.mem_iff]
    · rw [(hrows.map _).sum_eq]
  have hrow : ∀ hit ∈ hits, (hit.itemId, hit.fusedScore) ∈ fused.fusedScores.rows ∧
      hit.perLane = (HashMap.get? fused.perLaneByItem hit.itemId).getD .empty := by
    intro hit hhit
    obtain ⟨entry, hentry, rfl⟩ := List.mem_map.mp (hperm.mem_iff.mp hhit)
    exact ⟨hentry, rfl⟩
  constructor
  · exact hids.nodup_iff.mpr fused.fusedScores.nodup
  · rw [← hhits]
    exact stableSort_pairwise _ _
  · intro id
    rw [hids.mem_iff, List.mem_map]
    constructor
    · rintro ⟨entry, hentry, rfl⟩
      exact ((hscore entry.1 entry.2).mp hentry).1
    · intro hlane
      exact ⟨(id, _), (hscore id _).mpr ⟨hlane, rfl⟩, rfl⟩
  · intro hit hhit
    exact ((hscore _ _).mp (hrow hit hhit).1).2
  · intro hit hhit tag
    have hnoted : HashMap.get? hit.perLane tag = fused.notedAt hit.itemId tag := by
      rw [(hrow hit hhit).2, Fusing.notedAt]
      cases HashMap.get? fused.perLaneByItem hit.itemId with
      | none => rfl
      | some perLane => rfl
    rw [hnoted, notedAt_fusedLanes ((hrows.map _).nodup_iff.mpr rankedLists.nodup)]
    simp only [hrows.mem_iff]

end Lanes

/-- The score of the first occurrence of an item. -/
def firstScore (scoredList : List (String × ℚ)) (id : String) : Option ℚ :=
  (scoredList.find? fun entry => entry.1 = id).map Prod.snd

/-- The score of the last occurrence of an item. -/
def lastScore (scoredList : List (String × ℚ)) (id : String) : Option ℚ :=
  firstScore scoredList.reverse id

theorem isSome_firstScore {scoredList : List (String × ℚ)} {id : String} :
    (firstScore scoredList id).isSome ↔ id ∈ scoredList.map Prod.fst := by
  rw [firstScore, Option.isSome_map, List.find?_isSome, List.mem_map]
  simp only [decide_eq_true_eq]

theorem isSome_lastScore {scoredList : List (String × ℚ)} {id : String} :
    (lastScore scoredList id).isSome ↔ id ∈ scoredList.map Prod.fst := by
  rw [lastScore, isSome_firstScore, List.map_reverse, List.mem_reverse]

theorem get?_rawScoresOf (scoredList : List (String × ℚ)) (id : String) :
    HashMap.get? (rawScoresOf scoredList) id = lastScore scoredList id := by
  rw [rawScoresOf, HashMap.get?_foldl_put, HashMap.get?_empty, Option.or_none]
  rfl

/-- The rank of an item is the position of its first occurrence. -/
theorem firstRank_rankedOf (scoredList : List (String × ℚ)) (id : String) :
    firstRank (rankedOf scoredList) id =
      if id ∈ scoredList.map Prod.fst then some ((scoredList.map Prod.fst).idxOf id + 1)
      else none := by
  have hfrom : ∀ k, firstRank ((scoredList.zipIdx k).map fun e => (e.1.1, e.2 + 1)) id =
      if id ∈ scoredList.map Prod.fst then some (k + (scoredList.map Prod.fst).idxOf id + 1)
      else none := by
    induction scoredList with
    | nil => intro k; rfl
    | cons entry rest ih =>
      intro k
      rw [List.zipIdx_cons, List.map_cons, firstRank_cons, ih (k + 1), List.map_cons,
        List.idxOf_cons]
      by_cases h : id = entry.1
      · simp [h]
      · have hmem : id ∈ entry.1 :: rest.map Prod.fst ↔ id ∈ rest.map Prod.fst := by simp [h]
        have hbeq : (entry.1 == id) = false := beq_eq_false_iff_ne.mpr (Ne.symm h)
        rw [if_neg h, if_congr hmem rfl rfl, hbeq, cond_false, Nat.add_right_comm k 1,
          Nat.add_assoc k]
  have h := hfrom 0
  rwa [Nat.zero_add] at h

/-- The share of a lane in the score of an item: its weight, by the position of the item. -/
def rankTerm (weights : HashMap LaneTag ℚ) (rrfK : ℚ) (lane : LaneTag × List (String × ℚ))
    (id : String) : ℚ :=
  if id ∈ lane.2.map Prod.fst then
    (HashMap.get? weights lane.1).getD 0 / (rrfK + ((lane.2.map Prod.fst).idxOf id + 1 : Nat))
  else 0

/-- Every item of a lane once, scored by the formula and best first; each lane notes the score
that `noted` picks among the occurrences of the item. -/
structure FusesBy (noted : List (String × ℚ) → String → Option ℚ)
    (scoredLists : HashMap LaneTag (List (String × ℚ))) (weights : HashMap LaneTag ℚ) (rrfK : ℚ)
    (hits : List FusedHit) : Prop where
  once : (hits.map (·.itemId)).Nodup
  items : ∀ id, id ∈ hits.map (·.itemId) ↔ ∃ lane ∈ scoredLists.rows, id ∈ lane.2.map Prod.fst
  scores : ∀ hit ∈ hits, hit.fusedScore =
    (scoredLists.rows.map fun lane => rankTerm weights rrfK lane hit.itemId).sum
  perLane : ∀ hit ∈ hits, ∀ tag, HashMap.get? hit.perLane tag =
    (HashMap.get? scoredLists tag).bind (noted · hit.itemId)
  sorted : hits.Pairwise fun a b => b.fusedScore < a.fusedScore ∨
    (a.fusedScore = b.fusedScore ∧ a.itemId < b.itemId)

theorem laneTerm_rankedOf (weights : HashMap LaneTag ℚ) (rrfK : ℚ)
    (lane : LaneTag × List (String × ℚ)) (id : String) :
    (laneTerm weights rrfK (lane.1, rankedOf lane.2) id).getD 0 = rankTerm weights rrfK lane id := by
  rw [laneTerm, rankTerm, firstRank_rankedOf]
  split
  next => rfl
  next => rfl

theorem isSome_laneTerm_rankedOf (weights : HashMap LaneTag ℚ) (rrfK : ℚ)
    (lane : LaneTag × List (String × ℚ)) (id : String) :
    (laneTerm weights rrfK (lane.1, rankedOf lane.2) id).isSome ↔ id ∈ lane.2.map Prod.fst := by
  rw [laneTerm, firstRank_rankedOf, Option.isSome_map]
  split
  next h => simp [h]
  next h => simp [h]

/-- A hash map rebuilt entry by entry has the entries in the order of the walk. -/
theorem rows_rebuilt {ν μ : Type} (order : IterationOrder (LaneTag × ν)) (m : HashMap LaneTag ν)
    (f : ν → μ) : ((order.run m.rows).foldl
      (fun m' lane => m'.put (lane.1, f lane.2)) (.empty : HashMap LaneTag μ)).rows =
      (order.run m.rows).map fun lane => (lane.1, f lane.2) := by
  have hnodup : ((order.run m.rows).map Prod.fst).Nodup :=
    ((order.perm m.rows).map Prod.fst).nodup_iff.mpr m.nodup
  have hput : (((order.run m.rows).map fun lane => (lane.1, f lane.2)).foldl KeyedTable.put
      (.empty : HashMap LaneTag μ)).rows = (order.run m.rows).map fun lane => (lane.1, f lane.2) :=
    HashMap.rows_foldl_put (by
      rw [KeyedTable.rows_empty, List.nil_append, List.map_map]
      exact hnodup)
  rw [List.foldl_map] at hput
  exact hput

theorem get?_rebuilt {ν μ : Type} (order : IterationOrder (LaneTag × ν)) (m : HashMap LaneTag ν)
    (f : ν → μ) (tag : LaneTag) : HashMap.get? ((order.run m.rows).foldl
      (fun m' lane => m'.put (lane.1, f lane.2)) (.empty : HashMap LaneTag μ)) tag =
      (HashMap.get? m tag).map f := by
  refine Option.ext fun v => ?_
  rw [HashMap.get?_eq_some_iff, rows_rebuilt, List.mem_map, Option.map_eq_some_iff]
  constructor
  · rintro ⟨lane, hlane, heq⟩
    cases heq
    exact ⟨lane.2, HashMap.get?_eq_some_iff.mpr ((order.perm _).mem_iff.mp hlane), rfl⟩
  · rintro ⟨w, hw, rfl⟩
    exact ⟨(tag, w), (order.perm _).mem_iff.mpr (HashMap.get?_eq_some_iff.mp hw), rfl⟩

theorem FusedHit.rank_le_iff {a b : FusedHit} : a.rank ≤ b.rank ↔
    b.fusedScore < a.fusedScore ∨ (a.fusedScore = b.fusedScore ∧ a.itemId ≤ b.itemId) := by
  rw [FusedHit.rank, FusedHit.rank, Prod.Lex.toLex_le_toLex, OrderDual.toDual_lt_toDual,
    OrderDual.toDual_inj]

variable {scoredLists : HashMap LaneTag (List (String × ℚ))} {weights : HashMap LaneTag ℚ}
  {rrfK : ℚ} {hits : List FusedHit}

/-- The lanes of scored lists, fused: the last score of an item is what its lane notes. -/
theorem FusesLanes.fusesBy {rows : List (LaneTag × List (String × Nat))}
    {laneScores : Option (HashMap LaneTag (HashMap String ℚ))}
    (h : FusesLanes laneScores weights rrfK rows hits)
    (hrows : rows.Perm (scoredLists.rows.map fun lane => (lane.1, rankedOf lane.2)))
    (hraw : ∀ tag id, rawScoreAt laneScores tag id =
      (HashMap.get? scoredLists tag).bind (lastScore · id)) :
    FusesBy lastScore scoredLists weights rrfK hits where
  once := h.once
  items id := by
    rw [h.items]
    simp only [hrows.mem_iff, List.mem_map]
    constructor
    · rintro ⟨_, ⟨lane, hlane, rfl⟩, hterm⟩
      exact ⟨lane, hlane, List.mem_map.mp ((isSome_laneTerm_rankedOf weights rrfK lane id).mp hterm)⟩
    · rintro ⟨lane, hlane, hid⟩
      exact ⟨_, ⟨lane, hlane, rfl⟩,
        (isSome_laneTerm_rankedOf weights rrfK lane id).mpr (List.mem_map.mpr hid)⟩
  scores hit hhit := by
    rw [h.scores hit hhit, (hrows.map _).sum_eq, List.map_map]
    exact congrArg List.sum
      (List.map_congr_left fun lane _ => laneTerm_rankedOf weights rrfK lane hit.itemId)
  perLane hit hhit tag := by
    rw [h.notes hit hhit, hraw]
    split
    next => rfl
    next hno =>
      symm
      rw [Option.bind_eq_none_iff]
      intro scoredList hlist
      by_contra hsome
      refine hno ⟨(tag, rankedOf scoredList), hrows.mem_iff.mpr ?_, rfl, ?_⟩
      · exact List.mem_map.mpr ⟨(tag, scoredList), HashMap.get?_eq_some_iff.mp hlist, rfl⟩
      · have hmem := isSome_lastScore.mp (Option.isSome_iff_ne_none.mpr hsome)
        rw [firstRank_rankedOf, if_pos hmem]
        rfl
  sorted := by
    refine (h.sorted.and (List.pairwise_map.mp h.once)).imp fun {a b} hab => ?_
    rcases FusedHit.rank_le_iff.mp hab.1 with hlt | ⟨heq, hle⟩
    · exact Or.inl hlt
    · exact Or.inr ⟨heq, lt_of_le_of_ne hle hab.2⟩

variable (scoredLists weights rrfK) in
theorem fuseScored_fusesBy (orders : FusionOrders) (hk : 0 < rrfK) :
    ∃ hits, fuseScored orders scoredLists weights rrfK = some hits ∧
      FusesBy lastScore scoredLists weights rrfK hits := by
  let lanes := orders.scored.run scoredLists.rows
  let rankedLists : HashMap LaneTag (List (String × Nat)) :=
    lanes.foldl (fun m lane => m.put (lane.1, rankedOf lane.2)) .empty
  let laneScores : HashMap LaneTag (HashMap String ℚ) :=
    lanes.foldl (fun m lane => m.put (lane.1, rawScoresOf lane.2)) .empty
  have hfuse : ∃ hits, fuse (some laneScores) weights rrfK orders.ranked orders.fused rankedLists =
      some hits := by
    rw [fuse, if_neg (not_le.mpr hk)]
    exact ⟨_, rfl⟩
  obtain ⟨hits, hhits⟩ := hfuse
  have hrows : rankedLists.rows.Perm
      (scoredLists.rows.map fun lane => (lane.1, rankedOf lane.2)) := by
    rw [rows_rebuilt orders.scored scoredLists rankedOf]
    exact (orders.scored.perm _).map _
  have hraw : ∀ tag id, rawScoreAt (some laneScores) tag id =
      (HashMap.get? scoredLists tag).bind (lastScore · id) := by
    intro tag id
    have hget := get?_rebuilt orders.scored scoredLists rawScoresOf tag
    rw [rawScoreAt, Option.bind_some, hget, Option.bind_map]
    exact Option.bind_congr fun scoredList _ => get?_rawScoresOf scoredList id
  exact ⟨hits, hhits, (fuse_fusesLanes hhits).fusesBy hrows hraw⟩

/-- In every lane a repeated item ends with the score it begins with. -/
def RepeatsAgree (scoredLists : HashMap LaneTag (List (String × ℚ))) : Prop :=
  ∀ lane ∈ scoredLists.rows, ∀ id, lastScore lane.2 id = firstScore lane.2 id

theorem fuseScored_firstScores_iff (orders : FusionOrders)
    (scoredLists : HashMap LaneTag (List (String × ℚ))) (weights : HashMap LaneTag ℚ) (rrfK : ℚ)
    (hk : 0 < rrfK) : (∃ hits, fuseScored orders scoredLists weights rrfK = some hits ∧
      FusesBy firstScore scoredLists weights rrfK hits) ↔ RepeatsAgree scoredLists := by
  obtain ⟨hits, hhits, hlast⟩ := fuseScored_fusesBy scoredLists weights rrfK orders hk
  constructor
  · rintro ⟨hits', hhits', hfirst⟩ lane hlane id
    rw [hhits, Option.some.injEq] at hhits'
    subst hhits'
    have hget : HashMap.get? scoredLists lane.1 = some lane.2 :=
      HashMap.get?_eq_some_iff.mpr hlane
    by_cases hid : id ∈ lane.2.map Prod.fst
    · obtain ⟨hit, hhit, rfl⟩ := List.mem_map.mp ((hlast.items id).mpr ⟨lane, hlane, hid⟩)
      have h := (hlast.perLane hit hhit lane.1).symm.trans (hfirst.perLane hit hhit lane.1)
      rwa [hget, Option.bind_some, Option.bind_some] at h
    · have hnone := mt isSome_firstScore.mp hid
      have hnone' := mt isSome_lastScore.mp hid
      rw [Option.not_isSome_iff_eq_none] at hnone hnone'
      rw [hnone, hnone']
  · intro hagree
    refine ⟨hits, hhits, { hlast with perLane := fun hit hhit tag => ?_ }⟩
    rw [hlast.perLane hit hhit tag]
    refine Option.bind_congr fun scoredList hlist => ?_
    exact hagree (tag, scoredList) (HashMap.get?_eq_some_iff.mp hlist) hit.itemId

/-- All maps walked in the order in which they are stored. -/
def FusionOrders.stored : FusionOrders := ⟨.stored, .stored, .stored⟩

/-- A sparse lane that scores one item twice. -/
def twiceScored : HashMap LaneTag (List (String × ℚ)) :=
  ⟨[(.sparse, [("a", 3), ("a", 1)])], by decide⟩

def sparseWeight : HashMap LaneTag ℚ := ⟨[(.sparse, 1)], by decide⟩

theorem fuseScored_firstScores_iff_twice :
    (∃ hits, fuseScored .stored twiceScored sparseWeight 60 = some hits ∧
      FusesBy firstScore twiceScored sparseWeight 60 hits) ↔ RepeatsAgree twiceScored :=
  fuseScored_firstScores_iff .stored twiceScored sparseWeight 60 (by decide +kernel)

theorem fuseScored_notes_lastScore :
    ¬∃ hits, fuseScored .stored twiceScored sparseWeight 60 = some hits ∧
      FusesBy firstScore twiceScored sparseWeight 60 hits := by
  rintro ⟨hits, hhits, hfirst⟩
  obtain ⟨hits', hhits', hlast⟩ := fuseScored_fusesBy twiceScored sparseWeight 60 .stored
    (by decide +kernel)
  rw [hhits, Option.some.injEq] at hhits'
  subst hhits'
  have hitem : "a" ∈ hits.map (·.itemId) :=
    (hfirst.items "a").mpr ⟨_, List.mem_cons_self, List.mem_cons_self⟩
  obtain ⟨hit, hhit, hid⟩ := List.mem_map.mp hitem
  have h := (hlast.perLane hit hhit .sparse).symm.trans (hfirst.perLane hit hhit .sparse)
  rw [hid] at h
  exact absurd h (by decide +kernel)

end MootMemory.Fusion
