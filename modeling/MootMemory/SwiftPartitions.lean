import MootMemory.SwiftSidecarTraps

namespace MootMemory.Swift

theorem hasAt_le {bytes : List UInt8} {pos : Nat} {bs : List UInt8} (h : HasAt bytes pos bs) :
    pos ≤ bytes.length := by
  have := h.1
  omega

section Partitions

variable (data : SwiftData)

/-- The entry at a position is built, or traps when its bounds are inverted. -/
theorem decodePartition_of_hasAt {pos : Nat} {p : ModelPartitionEntry} (hfits : PartitionFits p)
    (hat : HasAt data.1 pos (encodePartition p)) :
    decodePartition data.1 pos =
      if p.stop < p.start then .error .panic else .ok (p, (encodePartition p).length) := by
  have hdata := data.2
  have hlen := length_encodePartition p
  have hall := hat.1
  rw [encodePartition, hasAt_append, hasAt_append, List.length_append, length_leBytes] at hat
  obtain ⟨⟨hmidAt, hloAt⟩, hhiAt⟩ := hat
  rw [length_encodeStr] at hloAt hhiAt
  have hmid : readModelID data.1 pos = .ok (p.modelId, pos + (4 + (strBytes p.modelId).length)) :=
    (readString_ok data).mpr ⟨hfits.modelId, hmidAt, by rw [length_encodeStr]⟩
  have hguard : guardEnd data.1 (pos + (4 + (strBytes p.modelId).length)) 8
      "ResidentArrayStore.decodePartitions: truncated at range bounds" = .ok () :=
    (guardEnd_ok data).mpr (by omega)
  obtain ⟨hloEnd, hlo⟩ := hasAt_leBytes.mp ⟨hfits.start, hloAt⟩
  obtain ⟨hhiEnd, hhi⟩ := hasAt_leBytes.mp ⟨hfits.stop, hhiAt⟩
  have hloRead := readLE_eq data hloEnd
  have hhiRead := readLE_eq data hhiEnd
  rw [hlo] at hloRead
  rw [hhi, ← Nat.add_assoc] at hhiRead
  have hadd₁ : add (pos + (4 + (strBytes p.modelId).length)) 4 =
      .ok (pos + (4 + (strBytes p.modelId).length) + 4) := add_ok.mpr ⟨by unfold intMax; omega, rfl⟩
  have hadd₂ : add (pos + (4 + (strBytes p.modelId).length) + 4) 4 =
      .ok (pos + (4 + (strBytes p.modelId).length) + 4 + 4) :=
    add_ok.mpr ⟨by unfold intMax; omega, rfl⟩
  simp only [decodePartition, hmid, hguard, hloRead, hadd₁, hhiRead, hadd₂, partitionEntry, bind,
    Except.bind]
  by_cases hlt : p.stop < p.start
  · rw [if_pos hlt, if_pos hlt]
  · rw [if_neg hlt, if_neg hlt, hlen]
    simp only [Except.ok.injEq, Prod.mk.injEq, true_and]
    omega

/-- The decoder builds an entry or traps only where an entry stands. -/
theorem exists_hasAt_of_decodePartition {pos : Nat} (hpos : pos ≤ data.1.length)
    (h : decodePartition data.1 pos = .error .panic ∨ ∃ x, decodePartition data.1 pos = .ok x) :
    ∃ p, PartitionFits p ∧ HasAt data.1 pos (encodePartition p) := by
  have hdata := data.2
  cases hmid : readModelID data.1 pos with
  | error e =>
    have hrun : decodePartition data.1 pos = .error e := by
      simp only [decodePartition, hmid, bind, Except.bind]
    rw [hrun] at h
    rcases h with h | ⟨x, h⟩
    · exact absurd (hmid.trans (by rw [Except.error.inj h])) (readString_ne_panic data hpos)
    · cases h
  | ok r =>
    obtain ⟨s, q⟩ := r
    obtain ⟨hs, hsAt, rfl⟩ := (readString_ok data).mp hmid
    have hq := hsAt.1
    cases hguard : guardEnd data.1 (pos + (encodeStr s).length) 8
        "ResidentArrayStore.decodePartitions: truncated at range bounds" with
    | error e =>
      have hrun : decodePartition data.1 pos = .error e := by
        simp only [decodePartition, hmid, hguard, bind, Except.bind]
      rw [hrun] at h
      rcases h with h | ⟨x, h⟩
      · have hover := (guardEnd_panic data).mp (hguard.trans (by rw [Except.error.inj h]))
        unfold intMax at hover
        omega
      · cases h
    | ok u =>
      have hend := (guardEnd_ok data).mp hguard
      obtain ⟨hlo, hloAt⟩ := hasAt_leBytes.mpr
        ⟨show pos + (encodeStr s).length + 4 ≤ data.1.length by omega, rfl⟩
      obtain ⟨hhi, hhiAt⟩ := hasAt_leBytes.mpr
        ⟨show pos + (encodeStr s).length + 4 + 4 ≤ data.1.length by omega, rfl⟩
      refine ⟨⟨s, _, _⟩, ⟨hs, hlo, hhi⟩, ?_⟩
      rw [encodePartition, hasAt_append, hasAt_append, List.length_append, length_leBytes,
        ← Nat.add_assoc]
      exact ⟨⟨hsAt, hloAt⟩, hhiAt⟩

/-- An entry whose bounds are not inverted. -/
def RangeFits (p : ModelPartitionEntry) : Prop := PartitionFits p ∧ p.start ≤ p.stop

theorem reads_decodePartition :
    Reads data.1 encodePartition RangeFits (decodePartition data.1) := by
  intro pos p c
  constructor
  · intro h
    have hpos : pos ≤ data.1.length := by
      simp only [decodePartition, except_bind_ok, Prod.exists] at h
      obtain ⟨s, q, hmid, _⟩ := h
      exact hasAt_le ((readString_ok data).mp hmid).2.1
    obtain ⟨p', hfits, hat⟩ := exists_hasAt_of_decodePartition data hpos (Or.inr ⟨_, h⟩)
    rw [decodePartition_of_hasAt data hfits hat] at h
    split at h
    next => cases h
    next hle =>
      obtain ⟨rfl, rfl⟩ := Prod.mk.inj (Except.ok.inj h)
      exact ⟨⟨hfits, by omega⟩, hat, rfl⟩
  · rintro ⟨⟨hfits, hle⟩, hat, rfl⟩
    rw [decodePartition_of_hasAt data hfits hat, if_neg (by omega)]

theorem decodePartition_panic {pos : Nat} (hpos : pos ≤ data.1.length) :
    decodePartition data.1 pos = .error .panic ↔
      ∃ p, PartitionFits p ∧ HasAt data.1 pos (encodePartition p) ∧ p.stop < p.start := by
  constructor
  · intro h
    obtain ⟨p, hfits, hat⟩ := exists_hasAt_of_decodePartition data hpos (Or.inl h)
    rw [decodePartition_of_hasAt data hfits hat] at h
    split at h
    next hlt => exact ⟨p, hfits, hat, hlt⟩
    next => cases h
  · rintro ⟨p, hfits, hat, hlt⟩
    rw [decodePartition_of_hasAt data hfits hat, if_pos hlt]

/-- At `pos` stands a partition index of which one entry, within the count, is inverted. -/
def InvertedAt (bytes : List UInt8) (pos : Nat) : Prop :=
  ∃ (n : Nat) (ps : List ModelPartitionEntry), n < 2 ^ 32 ∧ ps.length ≤ n ∧ (∀ p ∈ ps, PartitionFits p) ∧
    HasAt bytes pos (leBytes 4 n ++ ps.flatMap encodePartition) ∧ ∃ p ∈ ps, p.stop < p.start

/-- The decoder stops at the first inverted entry. -/
theorem readMany_decodePartition_panic {n pos : Nat} (hpos : pos ≤ data.1.length) :
    readMany (decodePartition data.1) n pos = .error .panic ↔
      ∃ ps : List ModelPartitionEntry, ps.length ≤ n ∧ (∀ p ∈ ps, PartitionFits p) ∧
        HasAt data.1 pos (ps.flatMap encodePartition) ∧ ∃ p ∈ ps, p.stop < p.start := by
  rw [readMany_error_iff (reads_decodePartition data) hpos]
  constructor
  · rintro ⟨ps, hlen, hfits, hat, hpanic⟩
    obtain ⟨p, hp, hpAt, hlt⟩ := (decodePartition_panic data hat.1).mp hpanic
    refine ⟨ps ++ [p], by simp; omega, ?_, ?_, p, by simp, hlt⟩
    · intro q hq
      rcases List.mem_append.mp hq with hq | hq
      · exact (hfits q hq).1
      · rw [List.mem_singleton.mp hq]; exact hp
    · rw [List.flatMap_append, List.flatMap_singleton, hasAt_append]
      exact ⟨hat, hpAt⟩
  · rintro ⟨ps, hlen, hfits, hat, p, hp, hlt⟩
    have hsome : (ps.find? fun q => decide (q.stop < q.start)).isSome :=
      List.find?_isSome.mpr ⟨p, hp, by simpa using hlt⟩
    obtain ⟨q, hq⟩ := Option.isSome_iff_exists.mp hsome
    obtain ⟨hbad, front, rest, rfl, hfront⟩ := List.find?_eq_some_iff_append.mp hq
    rw [List.flatMap_append, List.flatMap_cons, hasAt_append, hasAt_append] at hat
    refine ⟨front, by simp at hlen; omega, ?_, hat.1, ?_⟩
    · intro x hx
      exact ⟨hfits x (by simp [hx]), by simpa using hfront x hx⟩
    · exact (decodePartition_panic data hat.1.1).mpr
        ⟨q, hfits q (by simp), hat.2.1, by simpa using hbad⟩

theorem decodePartitions_panic {pos : Nat} (hpos : pos ≤ data.1.length) :
    decodePartitions data.1 pos = .error .panic ↔ InvertedAt data.1 pos := by
  have hdata := data.2
  have hadd : add pos 4 = .ok (pos + 4) := add_ok.mpr ⟨by unfold intMax; omega, rfl⟩
  by_cases hend : data.1.length < pos + 4
  · have hrun : decodePartitions data.1 pos = .ok ([], 0) := by
      simp only [decodePartitions, hadd, bind, Except.bind, if_pos hend]
    rw [hrun]
    constructor
    · intro h
      cases h
    · rintro ⟨n, ps, _, _, _, hat, _⟩
      have hle := (hasAt_append.mp hat).1.1
      rw [length_leBytes] at hle
      omega
  · have hread := readLE_eq data (show pos + 4 ≤ data.1.length by omega)
    obtain ⟨hlt, hcountAt⟩ :=
      hasAt_leBytes.mpr ⟨show pos + 4 ≤ data.1.length by omega, rfl⟩
    have hrun : decodePartitions data.1 pos = .error .panic ↔
        readMany (decodePartition data.1) (leNat (sliceAt data.1 pos 4)) (pos + 4) =
          .error .panic := by
      simp only [decodePartitions, hadd, bind, Except.bind, if_neg hend, hread]
      cases readMany (decodePartition data.1) (leNat (sliceAt data.1 pos 4)) (pos + 4) <;> simp
    rw [hrun, readMany_decodePartition_panic data (by omega)]
    constructor
    · rintro ⟨ps, hlen, hfits, hat, hbad⟩
      exact ⟨_, ps, hlt, hlen, hfits, hasAt_append.mpr ⟨hcountAt, by rwa [length_leBytes]⟩, hbad⟩
    · rintro ⟨n, ps, hn, hlen, hfits, hat, hbad⟩
      obtain ⟨hnAt, hpsAt⟩ := hasAt_append.mp hat
      obtain ⟨_, rfl⟩ := hasAt_leBytes.mp ⟨hn, hnAt⟩
      rw [length_leBytes] at hpsAt
      exact ⟨ps, hlen, hfits, hpsAt, hbad⟩

end Partitions

end MootMemory.Swift
