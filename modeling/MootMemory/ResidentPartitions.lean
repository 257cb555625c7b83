import MootMemory.ResidentArray
import MootMemory.SortedSearch
import Mathlib.Data.List.AList
import Mathlib.Data.List.Sort

namespace MootMemory

/-- A map from model ids to slot indices. -/
abbrev SlotMap := AList fun _ : String => Nat

/-- One turn of the loop over the keys: widen the range of a live slot's model. -/
def partitionStep (tombstones : List UInt64) (acc : SlotMap × SlotMap)
    (entry : VectorRecordKey × Nat) : SlotMap × SlotMap :=
  let (key, idx) := entry
  if wordsBit tombstones idx then acc
  else
    let lo := (acc.1.lookup key.modelId).getD idx
    let hi := (acc.2.lookup key.modelId).getD idx
    (acc.1.insert key.modelId (if idx < lo then idx else lo),
      acc.2.insert key.modelId (if hi < idx then idx else hi))

/-- The least and greatest live slot of every model. -/
def partitionExtents (keys : List VectorRecordKey) (tombstones : List UInt64) : SlotMap × SlotMap :=
  keys.zipIdx.foldl (partitionStep tombstones) (∅, ∅)

def partitionEntry (extents : SlotMap × SlotMap) (mid : String) : Option ModelPartitionEntry := do
  let lo ← extents.1.lookup mid
  let hi ← extents.2.lookup mid
  some ⟨mid, lo, hi + 1⟩

/-- The range of live slots of every model, in the order of the model ids. -/
def buildPartitions (keys : List VectorRecordKey) (tombstones : List UInt64) :
    List ModelPartitionEntry :=
  let extents := partitionExtents keys tombstones
  (extents.1.keys.insertionSort (· ≤ ·)).filterMap (partitionEntry extents)

/-- The range of a model by binary search on the partitions. -/
def ResidentVectorArray.partitionRange (arr : ResidentVectorArray) (modelId : String) :
    Option (Nat × Nat) :=
  match binarySearchBy (fun p => compare p.modelId modelId) arr.modelPartitions with
  | .ok i => arr.modelPartitions[i]?.map fun p => (p.start, p.stop)
  | .error _ => none

/-- What the extents say about the slots looked at so far. -/
structure ExtentsOk (keys : List VectorRecordKey) (tombstones : List UInt64)
    (extents : SlotMap × SlotMap) : Prop where
  same : ∀ mid, extents.1.lookup mid = none → extents.2.lookup mid = none
  bounds : ∀ mid lo, extents.1.lookup mid = some lo →
    ∃ hi, extents.2.lookup mid = some hi ∧ lo ≤ hi ∧ hi < keys.length
  covered : ∀ i key, keys[i]? = some key → wordsBit tombstones i = false →
    ∃ lo hi, extents.1.lookup key.modelId = some lo ∧ extents.2.lookup key.modelId = some hi ∧
      lo ≤ i ∧ i ≤ hi

/-- What the loop makes of a model's range when it meets a live slot `idx`. -/
theorem ExtentsOk.widen {keys : List VectorRecordKey} {tombstones : List UInt64}
    {extents : SlotMap × SlotMap} (h : ExtentsOk keys tombstones extents) (mid : String) :
    ∃ lo hi, (extents.1.lookup mid).getD keys.length = lo ∧
      (extents.2.lookup mid).getD keys.length = hi ∧ lo ≤ keys.length ∧ hi ≤ keys.length ∧
      lo ≤ hi := by
  cases hlo : extents.1.lookup mid with
  | none => exact ⟨_, _, rfl, rfl, le_rfl, by simp [h.same mid hlo], by simp [h.same mid hlo]⟩
  | some lo =>
    obtain ⟨hi, hhi, hle, hlt⟩ := h.bounds mid lo hlo
    exact ⟨lo, hi, rfl, by rw [hhi]; rfl, by omega, by omega, hle⟩

theorem getElem?_push_cases {α : Type*} {xs : List α} {x y : α} {i : Nat}
    (h : (xs ++ [x])[i]? = some y) : xs[i]? = some y ∨ (i = xs.length ∧ y = x) := by
  by_cases hlt : i < xs.length
  · exact Or.inl (by rwa [List.getElem?_append_left hlt] at h)
  · have hlen := (List.getElem?_eq_some_iff.mp h).1
    rw [List.length_append, List.length_singleton] at hlen
    obtain rfl : i = xs.length := by omega
    exact Or.inr ⟨rfl, by simpa using h.symm⟩

theorem ExtentsOk.skip {keys : List VectorRecordKey} {tombstones : List UInt64}
    {extents : SlotMap × SlotMap} (h : ExtentsOk keys tombstones extents) (key : VectorRecordKey)
    (hdead : wordsBit tombstones keys.length = true) :
    ExtentsOk (keys ++ [key]) tombstones extents := by
  refine ⟨h.same, ?_, ?_⟩
  · intro mid lo hlo
    obtain ⟨hi, hhi, hle, hlt⟩ := h.bounds mid lo hlo
    exact ⟨hi, hhi, hle, by simp; omega⟩
  · intro i k hik hlive
    rcases getElem?_push_cases hik with hik | ⟨rfl, rfl⟩
    · exact h.covered i k hik hlive
    · rw [hdead] at hlive; cases hlive

theorem ExtentsOk.step {keys : List VectorRecordKey} {tombstones : List UInt64}
    {extents : SlotMap × SlotMap} (h : ExtentsOk keys tombstones extents) (key : VectorRecordKey) :
    ExtentsOk (keys ++ [key]) tombstones (partitionStep tombstones extents (key, keys.length)) := by
  by_cases hdead : wordsBit tombstones keys.length
  · rw [partitionStep, if_pos hdead]
    exact h.skip key hdead
  rw [partitionStep, if_neg hdead]
  obtain ⟨lo₀, hi₀, hlo₀, hhi₀, hlolen, hhilen, hlohi⟩ := h.widen key.modelId
  rw [hlo₀, hhi₀]
  refine ⟨?_, ?_, ?_⟩
  · intro mid hnone
    by_cases hmid : mid = key.modelId
    · subst hmid; simp at hnone
    · rw [AList.lookup_insert_ne hmid] at hnone ⊢
      exact h.same mid hnone
  · intro mid lo hlo
    by_cases hmid : mid = key.modelId
    · subst hmid
      rw [AList.lookup_insert, Option.some.injEq] at hlo
      refine ⟨_, AList.lookup_insert _, ?_, ?_⟩
      · subst hlo
        split <;> split <;> omega
      · rw [List.length_append, List.length_singleton]
        split <;> omega
    · rw [AList.lookup_insert_ne hmid] at hlo
      obtain ⟨hi, hhi, hle, hlt⟩ := h.bounds mid lo hlo
      exact ⟨hi, by rw [AList.lookup_insert_ne hmid, hhi], hle, by simp; omega⟩
  · intro i k hik hlive
    by_cases hmid : k.modelId = key.modelId
    · rw [hmid, AList.lookup_insert, AList.lookup_insert]
      have hin : (i = keys.length) ∨ (lo₀ ≤ i ∧ i ≤ hi₀) := by
        rcases getElem?_push_cases hik with hik | ⟨rfl, rfl⟩
        · obtain ⟨lo, hi, hlo, hhi, hle, hge⟩ := h.covered i k hik hlive
          rw [hmid] at hlo hhi
          rw [hlo, Option.getD_some] at hlo₀
          rw [hhi, Option.getD_some] at hhi₀
          omega
        · exact Or.inl rfl
      refine ⟨_, _, rfl, rfl, ?_, ?_⟩
      · split <;> omega
      · split <;> omega
    · rw [AList.lookup_insert_ne hmid, AList.lookup_insert_ne hmid]
      rcases getElem?_push_cases hik with hik | ⟨rfl, rfl⟩
      · exact h.covered i k hik hlive
      · exact absurd rfl hmid

theorem partitionExtents_concat (keys : List VectorRecordKey) (key : VectorRecordKey)
    (tombstones : List UInt64) : partitionExtents (keys ++ [key]) tombstones =
      partitionStep tombstones (partitionExtents keys tombstones) (key, keys.length) := by
  simp only [partitionExtents, List.zipIdx_append, List.foldl_append, Nat.zero_add,
    List.zipIdx_singleton, List.foldl_cons, List.foldl_nil]

theorem extentsOk_partitionExtents (keys : List VectorRecordKey) (tombstones : List UInt64) :
    ExtentsOk keys tombstones (partitionExtents keys tombstones) := by
  induction keys using List.reverseRecOn with
  | nil => exact ⟨by simp [partitionExtents], by simp [partitionExtents], by simp⟩
  | append_singleton keys key ih =>
    rw [partitionExtents_concat]
    exact ih.step key

/-- Every range belongs to the model of a key. -/
theorem exists_key_of_lookup {keys : List VectorRecordKey} {tombstones : List UInt64} {mid : String}
    {lo : Nat} (h : (partitionExtents keys tombstones).1.lookup mid = some lo) :
    ∃ key ∈ keys, key.modelId = mid := by
  induction keys using List.reverseRecOn generalizing lo with
  | nil => simp [partitionExtents] at h
  | append_singleton keys key ih =>
    rw [partitionExtents_concat, partitionStep] at h
    by_cases hmid : mid = key.modelId
    · exact ⟨key, by simp, hmid.symm⟩
    · have hold : (partitionExtents keys tombstones).1.lookup mid = some lo := by
        split at h
        next => exact h
        next => rwa [AList.lookup_insert_ne hmid] at h
      obtain ⟨key', hkey', hid⟩ := ih hold
      exact ⟨key', by simp [hkey'], hid⟩

theorem partitionEntry_eq_some {extents : SlotMap × SlotMap} {mid : String}
    {p : ModelPartitionEntry} : partitionEntry extents mid = some p ↔
      ∃ lo hi, extents.1.lookup mid = some lo ∧ extents.2.lookup mid = some hi ∧
        p = ⟨mid, lo, hi + 1⟩ := by
  simp only [partitionEntry, Option.bind_eq_bind, Option.bind_eq_some_iff, Option.some.injEq]
  constructor
  · rintro ⟨lo, hlo, hi, hhi, rfl⟩
    exact ⟨lo, hi, hlo, hhi, rfl⟩
  · rintro ⟨lo, hi, hlo, hhi, rfl⟩
    exact ⟨lo, hlo, hi, hhi, rfl⟩

theorem mem_buildPartitions {keys : List VectorRecordKey} {tombstones : List UInt64}
    {p : ModelPartitionEntry} : p ∈ buildPartitions keys tombstones ↔
      ∃ lo hi, (partitionExtents keys tombstones).1.lookup p.modelId = some lo ∧
        (partitionExtents keys tombstones).2.lookup p.modelId = some hi ∧
        p.start = lo ∧ p.stop = hi + 1 := by
  simp only [buildPartitions, List.mem_filterMap, List.mem_insertionSort, partitionEntry_eq_some]
  constructor
  · rintro ⟨mid, _, lo, hi, hlo, hhi, rfl⟩
    exact ⟨lo, hi, hlo, hhi, rfl, rfl⟩
  · rintro ⟨lo, hi, hlo, hhi, rfl, hstop⟩
    refine ⟨p.modelId, ?_, p.start, hi, hlo, hhi, by cases p; cases hstop; rfl⟩
    have hsome : ((partitionExtents keys tombstones).1.lookup p.modelId).isSome := by rw [hlo]; rfl
    exact AList.mem_keys.mp (AList.lookup_isSome.mp hsome)

theorem buildPartitions_sorted (keys : List VectorRecordKey) (tombstones : List UInt64) :
    (buildPartitions keys tombstones).Pairwise fun p q => p.modelId < q.modelId := by
  rw [buildPartitions, List.pairwise_filterMap]
  have hsorted := List.pairwise_insertionSort (· ≤ ·) (partitionExtents keys tombstones).1.keys
  have hnd := (List.perm_insertionSort (· ≤ ·) (partitionExtents keys tombstones).1.keys).nodup_iff.mpr
    (partitionExtents keys tombstones).1.keys_nodup
  have hlt := (hsorted.and hnd).imp fun h => lt_of_le_of_ne h.1 h.2
  apply hlt.imp
  intro a b hab p hp q hq
  obtain ⟨_, _, _, _, rfl⟩ := partitionEntry_eq_some.mp hp
  obtain ⟨_, _, _, _, rfl⟩ := partitionEntry_eq_some.mp hq
  exact hab

theorem buildPartitions_length_le (keys : List VectorRecordKey) (tombstones : List UInt64) :
    (buildPartitions keys tombstones).length ≤ keys.length := by
  have hnodup : ((buildPartitions keys tombstones).map (·.modelId)).Nodup :=
    List.pairwise_map.mpr ((buildPartitions_sorted keys tombstones).imp fun hlt => ne_of_lt hlt)
  have hsubset : (buildPartitions keys tombstones).map (·.modelId) ⊆ keys.map (·.modelId) := by
    intro mid hmid
    obtain ⟨p, hp, rfl⟩ := List.mem_map.mp hmid
    obtain ⟨lo, _, hlo, _⟩ := mem_buildPartitions.mp hp
    obtain ⟨key, hkey, hid⟩ := exists_key_of_lookup hlo
    exact List.mem_map.mpr ⟨key, hkey, hid⟩
  simpa using (List.subperm_of_subset hnodup hsubset).length_le

/-- The documented shape of the partition index. -/
structure Partitioned (arr : ResidentVectorArray) : Prop where
  sorted : arr.modelPartitions.Pairwise fun p q => p.modelId < q.modelId
  bounds : ∀ p ∈ arr.modelPartitions, p.start ≤ p.stop ∧ p.stop ≤ arr.count
  covered : ∀ i key, i < arr.count → arr.keys[i]? = some key → arr.isTombstoned i = false →
    ∃ p ∈ arr.modelPartitions, p.modelId = key.modelId ∧ p.start ≤ i ∧ i < p.stop

/-- The documented invariant of the resident array. -/
structure WellFormed (arr : ResidentVectorArray) : Prop extends arr.Sized, Partitioned arr

theorem partitioned_of_eq {arr : ResidentVectorArray} (hk : arr.keys.length = arr.count)
    (hp : arr.modelPartitions = buildPartitions arr.keys arr.tombstones) : Partitioned arr := by
  have hext := extentsOk_partitionExtents arr.keys arr.tombstones
  constructor
  · rw [hp]; exact buildPartitions_sorted _ _
  · intro p hmem
    rw [hp, mem_buildPartitions] at hmem
    obtain ⟨lo, hi, hlo, hhi, hstart, hstop⟩ := hmem
    obtain ⟨hi', hhi', hle, hlt⟩ := hext.bounds _ lo hlo
    rw [hhi] at hhi'
    cases hhi'
    omega
  · intro i key _ hik hlive
    obtain ⟨lo, hi, hlo, hhi, hle, hge⟩ := hext.covered i key hik hlive
    refine ⟨⟨key.modelId, lo, hi + 1⟩, ?_, rfl, hle, by simp; omega⟩
    rw [hp, mem_buildPartitions]
    exact ⟨lo, hi, hlo, hhi, rfl, rfl⟩

/-- A range that the search returns is that of a partition of the model. -/
theorem ResidentVectorArray.partitionRange_eq_some {arr : ResidentVectorArray} {modelId : String}
    {lo hi : Nat} (h : arr.partitionRange modelId = some (lo, hi)) :
    ∃ p ∈ arr.modelPartitions, p.modelId = modelId ∧ p.start = lo ∧ p.stop = hi := by
  unfold partitionRange at h
  split at h
  next i hi =>
    obtain ⟨p, hget, hcmp⟩ := binarySearchBy_ok hi
    rw [hget] at h
    cases h
    exact ⟨p, List.mem_of_getElem? hget, compare_eq_iff_eq.mp hcmp, rfl, rfl⟩
  next => cases h

theorem Partitioned.graded {arr : ResidentVectorArray} (h : Partitioned arr) (modelId : String) :
    Graded (fun p : ModelPartitionEntry => compare p.modelId modelId) arr.modelPartitions := by
  apply h.sorted.imp
  intro p q hpq
  simp only [compare_lt_iff_lt, compare_gt_iff_gt]
  exact ⟨fun hq => hpq.trans hq, fun hp => lt_trans hp hpq⟩

/-- Every live slot lies in the range found for its model. -/
theorem Partitioned.covers {arr : ResidentVectorArray} (h : Partitioned arr) {i : Nat}
    {key : VectorRecordKey} (hi : i < arr.count) (hkey : arr.keys[i]? = some key)
    (hlive : arr.isTombstoned i = false) :
    ∃ lo hi, arr.partitionRange key.modelId = some (lo, hi) ∧ lo ≤ i ∧ i < hi ∧ hi ≤ arr.count := by
  obtain ⟨p, hp, hmid, hstart, hstop⟩ := h.covered i key hi hkey hlive
  obtain ⟨j, hj⟩ := binarySearchBy_of_mem (h.graded key.modelId) hp
    (compare_eq_iff_eq.mpr hmid)
  obtain ⟨q, hq, hcmp⟩ := binarySearchBy_ok hj
  have hqmem := List.mem_of_getElem? hq
  -- The ids are strictly sorted, so the entry found is the model's own.
  have hnodup : (arr.modelPartitions.map (·.modelId)).Nodup :=
    List.pairwise_map.mpr (h.sorted.imp fun hlt => ne_of_lt hlt)
  have hpq : q = p := List.inj_on_of_nodup_map hnodup hqmem hp
    ((compare_eq_iff_eq.mp hcmp).trans hmid.symm)
  subst hpq
  exact ⟨q.start, q.stop, by simp only [ResidentVectorArray.partitionRange, hj, hq]; rfl, hstart,
    hstop, (h.bounds q hqmem).2⟩

end MootMemory
