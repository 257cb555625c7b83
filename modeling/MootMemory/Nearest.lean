import MootMemory.BestOf
import MootMemory.VectorTypes

namespace MootMemory

/-- A key and its code. -/
abbrev CodeEntry := VectorRecordKey × Engram

def codesOf (records : List VectorRecord) : List CodeEntry :=
  records.map fun r => (r.1, Engram.ofLeBytes r.2)

/-- The pair by which a code is ranked: distance first, then key. -/
def ranked (probe : Engram) (c : CodeEntry) : Nat × VectorRecordKey :=
  (EngramLib.distance probe c.2, c.1)

def hitOf (p : Nat × VectorRecordKey) : DenseHit :=
  { key := p.2, rawDistance := p.1, metric := DenseMetric.HAMMING }

/-- The `k` accepted codes nearest to the probe, ties broken by key. -/
def nearest (probe : Engram) (k : Nat) (filter : Option MetadataFilter) (codes : List CodeEntry) :
    List DenseHit :=
  ((sortByRank toLex ((codes.filter fun c => acceptedBy filter c.1).map (ranked probe))).take k).map
    hitOf

/-- The order in which the codes are given does not matter. -/
theorem nearest_perm {codes codes' : List CodeEntry} (h : codes.Perm codes') (probe : Engram)
    (k : Nat) (filter : Option MetadataFilter) :
    nearest probe k filter codes = nearest probe k filter codes' := by
  rw [nearest, nearest, sortByRank_congr toLex.injective ((h.filter _).map _)]

theorem nearest_zero (probe : Engram) (filter : Option MetadataFilter) (codes : List CodeEntry) :
    nearest probe 0 filter codes = [] := by
  simp [nearest]

/-- Every hit is an accepted code with its distance. -/
theorem mem_nearest {probe : Engram} {k : Nat} {filter : Option MetadataFilter}
    {codes : List CodeEntry} {hit : DenseHit} (h : hit ∈ nearest probe k filter codes) :
    ∃ c ∈ codes, acceptedBy filter c.1 ∧ hit = hitOf (ranked probe c) := by
  obtain ⟨p, hp, rfl⟩ := List.mem_map.mp h
  have hmem := (sortByRank_perm _).mem_iff.mp (List.mem_of_mem_take hp)
  obtain ⟨c, hc, rfl⟩ := List.mem_map.mp hmem
  obtain ⟨hc, hacc⟩ := List.mem_filter.mp hc
  exact ⟨c, hc, hacc, rfl⟩

/-- With enough room every accepted code is among the hits. -/
theorem mem_nearest_of_le {probe : Engram} {k : Nat} {filter : Option MetadataFilter}
    {codes : List CodeEntry} (hk : codes.length ≤ k) {c : CodeEntry} (hc : c ∈ codes)
    (hacc : acceptedBy filter c.1) : hitOf (ranked probe c) ∈ nearest probe k filter codes := by
  have hlen : (sortByRank toLex ((codes.filter fun c => acceptedBy filter c.1).map
      (ranked probe))).length ≤ k := by
    rw [(sortByRank_perm _).length_eq, List.length_map]
    exact (List.length_filter_le _ _).trans hk
  rw [nearest, List.take_of_length_le hlen]
  apply List.mem_map_of_mem
  apply (sortByRank_perm _).mem_iff.mpr
  exact List.mem_map_of_mem (List.mem_filter.mpr ⟨hc, hacc⟩)

/-- How hits are ordered by the sort in the search. -/
def DenseHit.rank (h : DenseHit) : Int ×ₗ VectorRecordKey := toLex (h.rawDistance, h.key)

theorem rank_hitOf_le {p q : Nat × VectorRecordKey} :
    (hitOf p).rank ≤ (hitOf q).rank ↔ toLex p ≤ toLex q := by
  simp only [DenseHit.rank, hitOf, Prod.Lex.toLex_le_toLex, Nat.cast_lt, Nat.cast_inj]

/-- Sorting the hits is sorting the pairs they come from. -/
theorem sortByRank_map_hitOf (ps : List (Nat × VectorRecordKey)) :
    sortByRank DenseHit.rank (ps.map hitOf) = (sortByRank toLex ps).map hitOf := by
  have hle : ∀ p ∈ ps, ∀ q ∈ ps, toLex p ≤ toLex q ↔ (hitOf p).rank ≤ (hitOf q).rank :=
    fun p _ q _ => rank_hitOf_le.symm
  exact (List.map_insertionSort _ _ hitOf ps hle).symm

/-- The best `capacity` pairs of distance and key offered so far, worst first. -/
structure BoundedMaxHeap where
  capacity : Nat
  capacity_pos : 0 < capacity
  elements : List (Nat × VectorRecordKey)

namespace BoundedMaxHeap

def new (capacity : Nat) (h : 0 < capacity) : BoundedMaxHeap := ⟨capacity, h, []⟩

def size (heap : BoundedMaxHeap) : Nat := heap.elements.length

/-- The distance of the root. -/
def worstDist (heap : BoundedMaxHeap) : Option Nat := heap.elements.head?.map (·.1)

def isWorse (a b : Nat × VectorRecordKey) : Bool :=
  if a.1 ≠ b.1 then b.1 < a.1 else b.2 < a.2

def offer (heap : BoundedMaxHeap) (dist : Nat) (key : VectorRecordKey) : BoundedMaxHeap :=
  if heap.elements.length < heap.capacity then
    { heap with elements := siftUp isWorse (heap.elements ++ [(dist, key)]) heap.elements.length }
  else
    match heap.elements with
    -- not reached: an empty heap has room
    | [] => heap
    | (wd, wk) :: _ =>
      if dist < wd ∨ (dist = wd ∧ key < wk) then
        { heap with elements := siftDown isWorse (heap.elements.set 0 (dist, key)) 0 }
      else heap

def sortedAscending (heap : BoundedMaxHeap) : List (Nat × VectorRecordKey) :=
  sortByRank toLex heap.elements

theorem isWorse_iff (a b : Nat × VectorRecordKey) : isWorse a b ↔ toLex b < toLex a := by
  rw [Prod.Lex.toLex_lt_toLex, isWorse]
  by_cases h : a.1 = b.1
  · simp [h]
  · simp [h, Ne.symm h]

theorem better_iff {dist wd : Nat} {key wk : VectorRecordKey} :
    (dist < wd ∨ (dist = wd ∧ key < wk)) ↔ toLex (dist, key) < toLex (wd, wk) := by
  rw [Prod.Lex.toLex_lt_toLex]

/-- The heap holds a best choice of the offered pairs. -/
def Holds (heap : BoundedMaxHeap) (offered : List (Nat × VectorRecordKey)) : Prop :=
  BestHeap toLex heap.capacity offered heap.elements

theorem holds_new {capacity : Nat} (h : 0 < capacity) : (new capacity h).Holds [] := BestHeap.nil

theorem capacity_offer (heap : BoundedMaxHeap) (dist : Nat) (key : VectorRecordKey) :
    (heap.offer dist key).capacity = heap.capacity := by
  unfold offer
  split
  next => rfl
  next =>
    split
    next => rfl
    next => split <;> rfl

theorem Holds.offer {heap : BoundedMaxHeap} {offered : List (Nat × VectorRecordKey)}
    (h : heap.Holds offered) (dist : Nat) (key : VectorRecordKey) :
    (heap.offer dist key).Holds ((dist, key) :: offered) := by
  unfold Holds at h ⊢
  rw [capacity_offer]
  unfold BoundedMaxHeap.offer
  split
  next hroom => exact h.push isWorse_iff hroom (dist, key)
  next hfull =>
    have hlen : heap.elements.length = heap.capacity := by
      obtain ⟨_, _, hle, _⟩ := h.best
      omega
    split
    next hnil =>
      rw [hnil] at hlen
      have := heap.capacity_pos
      simp at hlen
      omega
    next wd wk tail heq =>
      have hroot : heap.elements[0]? = some (wd, wk) := by rw [heq]; rfl
      split
      next hbetter => exact h.replace isWorse_iff hlen hroot (better_iff.mp hbetter)
      next hworse => exact h.keep hlen hroot (not_lt.mp (mt better_iff.mpr hworse))

/-- A pair outside a full heap does not rank below its root. -/
theorem Holds.root_le {heap : BoundedMaxHeap} {offered : List (Nat × VectorRecordKey)}
    (h : heap.Holds offered) {p : Nat × VectorRecordKey} (hp : p ∈ heap.elements) :
    ∃ wd, heap.worstDist = some wd ∧ p.1 ≤ wd := by
  cases hel : heap.elements with
  | nil => rw [hel] at hp; simp at hp
  | cons root tail =>
    have hroot : heap.elements[0]? = some root := by rw [hel]; rfl
    have hle := h.order.le_root hroot p hp
    refine ⟨root.1, by simp [worstDist, hel], ?_⟩
    rcases Prod.Lex.toLex_le_toLex.mp hle with hlt | ⟨heq, _⟩
    · exact hlt.le
    · exact heq.le

theorem Holds.sortedAscending_eq {heap : BoundedMaxHeap} {offered : List (Nat × VectorRecordKey)}
    (h : heap.Holds offered) :
    heap.sortedAscending = (sortByRank toLex offered).take heap.capacity :=
  h.best.sort_eq_take toLex.injective

/-- Pairs that are farther than the root of a full heap do not change its answer. -/
theorem Holds.append {heap : BoundedMaxHeap} {offered rest : List (Nat × VectorRecordKey)}
    (h : heap.Holds offered) (hfull : heap.size = heap.capacity) {wd : Nat}
    (hwd : heap.worstDist = some wd) (hrest : ∀ p ∈ rest, wd < p.1) :
    heap.Holds (offered ++ rest) := by
  refine ⟨h.order, h.best.append (fun _ => hfull) ?_⟩
  intro a ha b hb
  obtain ⟨wd', hwd', hle⟩ := h.root_le ha
  rw [hwd] at hwd'
  cases hwd'
  exact (Prod.Lex.toLex_lt_toLex.mpr (Or.inl (lt_of_le_of_lt hle (hrest b hb)))).le

end BoundedMaxHeap

end MootMemory
