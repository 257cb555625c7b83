import MootMemory.BruteForce

namespace MootMemory

/-- A filter map over a range skips the indices outside a window that are all dropped. -/
theorem filterMap_range_window {α : Type*} {f : Nat → Option α} {lo hi count : Nat}
    (hhi : hi ≤ count) (hf : ∀ i x, i < count → f i = some x → lo ≤ i ∧ i < hi) :
    (List.range count).filterMap f = (List.range' lo (hi - lo)).filterMap f := by
  have hnone : ∀ l : List Nat, (∀ i ∈ l, i < count ∧ (i < lo ∨ hi ≤ i)) → l.filterMap f = [] := by
    intro l hl
    rw [List.filterMap_eq_nil_iff]
    intro i hi
    obtain ⟨hlt, hout⟩ := hl i hi
    cases hfi : f i with
    | none => rfl
    | some x =>
      have := hf i x hlt hfi
      omega
  by_cases hle : lo ≤ hi
  · have hsplit : List.range count =
        List.range' 0 lo ++ (List.range' lo (hi - lo) ++ List.range' hi (count - hi)) := by
      have h1 := List.range'_append_1 (s := lo) (m := hi - lo) (n := count - hi)
      have h2 := List.range'_append_1 (s := 0) (m := lo) (n := hi - lo + (count - hi))
      rw [show lo + (hi - lo) = hi by omega] at h1
      rw [Nat.zero_add, show lo + (hi - lo + (count - hi)) = count by omega] at h2
      rw [h1, h2, List.range_eq_range']
    rw [hsplit, List.filterMap_append, List.filterMap_append, hnone (List.range' 0 lo),
      hnone (List.range' hi (count - hi)), List.nil_append, List.append_nil]
    · intro i hi
      simp only [List.mem_range'_1] at hi
      omega
    · intro i hi
      simp only [List.mem_range'_1] at hi
      omega
  · rw [hnone (List.range count), show hi - lo = 0 by omega]
    · rfl
    · intro i hi
      have := List.mem_range.mp hi
      omega

namespace BruteForceIndex

variable {idx : BruteForceIndex} {filter : Option MetadataFilter}

/-- A slot with its record, if it is live and the filter accepts its key. -/
def acceptedSlot (idx : BruteForceIndex) (filter : Option MetadataFilter) (slot : Nat) :
    Option (Nat × VectorRecord) :=
  ((idx.array.liveSlot slot).filter fun r => acceptedBy filter r.1).map fun r => (slot, r)

theorem acceptedSlot_eq_some {slot : Nat} {c : Nat × VectorRecord} :
    idx.acceptedSlot filter slot = some c ↔
      c.1 = slot ∧ idx.array.isTombstoned slot = false ∧ idx.array.keys[slot]? = some c.2.1 ∧
        c.2.2 = sliceAt idx.array.storage (slot * idx.array.stride) idx.array.stride ∧
        acceptedBy filter c.2.1 := by
  obtain ⟨slot', key, bytes⟩ := c
  simp only [acceptedSlot, Option.map_eq_some_iff, Option.filter_eq_some_iff,
    ResidentVectorArray.liveSlot, ResidentVectorArray.slotRecord, Prod.mk.injEq]
  constructor
  · rintro ⟨r, ⟨hr, hacc⟩, rfl, rfl⟩
    split at hr
    next => cases hr
    next hlive =>
      obtain ⟨key', hkey, heq⟩ := Option.map_eq_some_iff.mp hr
      obtain ⟨rfl, rfl⟩ := Prod.mk.inj heq
      exact ⟨rfl, by simpa using hlive, hkey, rfl, hacc⟩
  · rintro ⟨rfl, hlive, hkey, rfl, hacc⟩
    exact ⟨_, ⟨by simp [hlive, hkey], hacc⟩, rfl, rfl⟩

theorem scanStep_eq (hinv : idx.Inv) {slot : Nat} (hslot : slot < idx.array.count)
    (acc : List Engram × List Nat) :
    idx.scanStep filter acc slot = .ok (match idx.acceptedSlot filter slot with
      | some c => (acc.1 ++ [Engram.ofLeBytes c.2.2], acc.2 ++ [c.1])
      | none => acc) := by
  obtain ⟨key, hget, hkey⟩ := ResidentVectorArray.Sized.keyAt_eq hinv.built.keys_length hslot
  have hbytes := hinv.built.toSized.vectorBytes_eq hslot
  have hend := ResidentVectorArray.slot_end_le idx.array.stride hslot
  have hlen : (sliceAt idx.array.storage (slot * idx.array.stride) idx.array.stride).length =
      idx.array.stride := length_sliceAt (by rw [hinv.built.storage_length]; exact hend)
  have hcode : bytesToEngram (sliceAt idx.array.storage (slot * idx.array.stride)
      idx.array.stride) = some (Engram.ofLeBytes (sliceAt idx.array.storage
        (slot * idx.array.stride) idx.array.stride)) := by
    rw [bytesToEngram, if_neg (by rw [hlen, hinv.stride]; simp)]
  rw [scanStep]
  cases hd : idx.array.isTombstoned slot with
  | true => simp [acceptedSlot, ResidentVectorArray.liveSlot, hd]
  | false =>
    cases hacc : acceptedBy filter key with
    | false =>
      simp [acceptedSlot, ResidentVectorArray.liveSlot, ResidentVectorArray.slotRecord, hd, hget,
        hkey, hacc, Option.filter_some, bind, Except.bind]
    | true =>
      simp [acceptedSlot, ResidentVectorArray.liveSlot, ResidentVectorArray.slotRecord, hd, hget,
        hkey, hacc, hbytes, hcode, Option.filter_some, bind, Except.bind]

/-- The scan collects the accepted slots and their codes in slot order. -/
theorem scan_eq (hinv : idx.Inv) {slots : List Nat} (hslots : ∀ i ∈ slots, i < idx.array.count)
    (acc : List Engram × List Nat) :
    slots.foldlM (idx.scanStep filter) acc =
      .ok (acc.1 ++ (slots.filterMap (idx.acceptedSlot filter)).map fun c => Engram.ofLeBytes c.2.2,
        acc.2 ++ (slots.filterMap (idx.acceptedSlot filter)).map (·.1)) := by
  induction slots generalizing acc with
  | nil => simp; rfl
  | cons slot slots ih =>
    rw [List.foldlM_cons, scanStep_eq hinv (hslots slot (by simp))]
    simp only [bind, Except.bind]
    rw [ih fun i hi => hslots i (by simp [hi])]
    cases hs : idx.acceptedSlot filter slot with
    | none => simp [hs]
    | some c => simp [hs]

/-- Every accepted slot lies in the scanned range. -/
theorem acceptedSlot_in_scanRange (hinv : idx.Inv) :
    (idx.scanRange filter).2 ≤ idx.array.count ∧
      ∀ i c, i < idx.array.count → idx.acceptedSlot filter i = some c →
        (idx.scanRange filter).1 ≤ i ∧ i < (idx.scanRange filter).2 := by
  have hpart := hinv.built.partitioned
  unfold scanRange
  split
  next mid version =>
    constructor
    · cases hr : idx.array.partitionRange mid with
      | none => simp
      | some range =>
        obtain ⟨p, hp, _, _, hstop⟩ := ResidentVectorArray.partitionRange_eq_some hr
        have := (hpart.bounds p hp).2
        simp only [Option.getD_some]
        omega
    · intro i c hi hc
      obtain ⟨_, hlive, hkey, _, hacc⟩ := acceptedSlot_eq_some.mp hc
      have hmid : c.2.1.modelId = mid := by
        simp only [acceptedBy, MetadataFilter.accepts, Bool.and_eq_true, beq_iff_eq] at hacc
        exact hacc.1
      obtain ⟨lo, hi', hrange, hlo, hhi, _⟩ := hpart.covers hi hkey hlive
      rw [← hmid, hrange]
      exact ⟨hlo, hhi⟩
  next => exact ⟨le_rfl, fun i c hi _ => ⟨Nat.zero_le i, hi⟩⟩

/-- The accepted slots over the whole array. -/
def candidates (idx : BruteForceIndex) (filter : Option MetadataFilter) :
    List (Nat × VectorRecord) :=
  (List.range idx.array.count).filterMap (idx.acceptedSlot filter)

theorem candidates_map_snd :
    (idx.candidates filter).map (·.2) = idx.live.filter fun r => acceptedBy filter r.1 := by
  rw [candidates, List.map_filterMap, live, ResidentVectorArray.liveRecords, List.filter_filterMap]
  apply List.filterMap_congr
  intro i _
  simp only [acceptedSlot, Option.map_map]
  exact Option.map_id' ..

theorem scanned_eq (hinv : idx.Inv) :
    (List.range' (idx.scanRange filter).1
      ((idx.scanRange filter).2 - (idx.scanRange filter).1)).filterMap (idx.acceptedSlot filter) =
      idx.candidates filter := by
  obtain ⟨hle, hin⟩ := @acceptedSlot_in_scanRange idx filter hinv
  exact (filterMap_range_window hle hin).symm

theorem hits_eq (metric : DenseMetric) (probe : Engram) :
    ((idx.candidates filter).map fun c =>
        (c.1, EngramLib.distance probe (Engram.ofLeBytes c.2.2))).mapM (idx.hitAt metric) =
      .ok ((idx.candidates filter).map fun c =>
        { key := c.2.1
          rawDistance := EngramLib.distance probe (Engram.ofLeBytes c.2.2)
          metric }) := by
  rw [List.mapM_map]
  apply mapM_ok
  intro c hc
  obtain ⟨slot, _, hslot⟩ := List.mem_filterMap.mp hc
  obtain ⟨rfl, _, hkey, _, _⟩ := acceptedSlot_eq_some.mp hslot
  simp [hitAt, ResidentVectorArray.keyAt, hkey, bind, Except.bind]

theorem payloadToEngram_eq {payload : VectorPayload} (h : payload.IsCode) :
    payloadToEngram payload = .ok (Engram.ofLeBytes payload.bytes) := by
  rw [payloadToEngram, if_neg (not_not.mpr h.1), if_neg (not_not.mpr h.2)]
  simp only [bytesToEngram, h.2, ne_eq, not_true, if_false]

/-- The search returns the nearest of the live records. -/
theorem search_eq (hinv : idx.Inv) {probe : VectorPayload} (hprobe : probe.IsCode) (k : Nat)
    (filter : Option MetadataFilter) :
    idx.search probe DenseMetric.HAMMING k filter =
      .ok (nearest (Engram.ofLeBytes probe.bytes) k filter (codesOf idx.live)) := by
  have hnearest : nearest (Engram.ofLeBytes probe.bytes) k filter (codesOf idx.live) =
      (sortByRank DenseHit.rank ((idx.candidates filter).map fun c =>
        { key := c.2.1
          rawDistance := EngramLib.distance (Engram.ofLeBytes probe.bytes) (Engram.ofLeBytes c.2.2)
          metric := DenseMetric.HAMMING })).take k := by
    rw [nearest, codesOf, List.filter_map, List.map_map, List.map_take, ← sortByRank_map_hitOf,
      List.map_map]
    have h := @candidates_map_snd idx filter
    simp only [Function.comp_def] at h ⊢
    rw [← h, List.map_map]
    rfl
  rw [search, if_neg (not_not.mpr hprobe.1), if_neg (by simp [DenseMetric.HAMMING])]
  by_cases hk : k = 0
  · rw [if_pos hk, hk, nearest_zero]
  rw [if_neg hk, payloadToEngram_eq hprobe, hnearest]
  simp only [bind, Except.bind]
  by_cases hscan : (idx.scanRange filter).2 ≤ (idx.scanRange filter).1
  · have hnil : idx.candidates filter = [] := by
      rw [← scanned_eq hinv, Nat.sub_eq_zero_of_le hscan]
      rfl
    rw [if_pos hscan, hnil]
    simp [sortByRank]
  have hslots : ∀ i ∈ List.range' (idx.scanRange filter).1
      ((idx.scanRange filter).2 - (idx.scanRange filter).1), i < idx.array.count := by
    intro i hi
    have := (@acceptedSlot_in_scanRange idx filter hinv).1
    simp only [List.mem_range'_1] at hi
    omega
  rw [if_neg hscan, scan_eq hinv hslots, scanned_eq hinv]
  simp only [List.nil_append, List.map_eq_nil_iff, EngramLib.distances, List.map_map]
  by_cases hnil : idx.candidates filter = []
  · rw [if_pos hnil, hnil]
    simp [sortByRank]
  · rw [if_neg hnil, List.zip_map']
    have h := @hits_eq idx filter DenseMetric.HAMMING
      (Engram.ofLeBytes probe.bytes)
    simp only [Function.comp_def]
    rw [h]

end BruteForceIndex

end MootMemory
