import MootMemory.BruteForceSearch
import MootMemory.MihKnn

namespace MootMemory

/-- Store a record under its key, dropping the ones that were there. -/
def upsertRecord (records : List VectorRecord) (r : VectorRecord) : List VectorRecord :=
  records.filter (fun x => x.1 ≠ r.1) ++ [r]

theorem upsertRecord_nodup {records : List VectorRecord} (h : (records.map (·.1)).Nodup)
    (r : VectorRecord) : ((upsertRecord records r).map (·.1)).Nodup := by
  rw [upsertRecord, List.map_append, List.map_singleton]
  refine List.nodup_append.mpr ⟨h.sublist ((List.filter_sublist).map _), by simp, ?_⟩
  intro x hx y hy
  rw [List.mem_singleton.mp hy]
  obtain ⟨z, hz, rfl⟩ := List.mem_map.mp hx
  simpa using (List.mem_filter.mp hz).2

theorem recordMap_upsertRecord (records : List VectorRecord) (r : VectorRecord) :
    recordMap (upsertRecord records r) = storeRecord (recordMap records) r := by
  funext x
  rw [upsertRecord, recordMap_concat, storeRecord, storeRecord]
  by_cases hx : x = r.1
  · rw [hx, Function.update_self, Function.update_self]
  · rw [Function.update_of_ne hx, Function.update_of_ne hx,
      recordMap_filter (fun k => decide (k ≠ r.1)), if_pos (by simpa using hx)]

theorem recordMap_codesOf (records : List VectorRecord) (x : VectorRecordKey) :
    recordMap (codesOf records) x = (recordMap records x).map Engram.ofLeBytes := by
  induction records using List.reverseRecOn with
  | nil => rfl
  | append_singleton records r ih =>
    have hcodes : codesOf (records ++ [r]) = codesOf records ++ [(r.1, Engram.ofLeBytes r.2)] := by
      simp [codesOf]
    rw [hcodes, recordMap_concat, recordMap_concat, storeRecord, storeRecord]
    by_cases hx : x = r.1
    · rw [hx, Function.update_self, Function.update_self]; rfl
    · rw [Function.update_of_ne hx, Function.update_of_ne hx, ih]

/-- The hashing index holds the codes of the records, each under its own key. -/
structure MIHIndex.Tracks (mih : MIHIndex) (records : List VectorRecord) : Prop where
  inv : mih.Inv
  nodup : (records.map (·.1)).Nodup
  codes : mih.codeOf = recordMap (codesOf records)

theorem MIHIndex.Tracks.perm_entries {mih : MIHIndex} {records : List VectorRecord}
    (h : mih.Tracks records) : mih.entries.Perm (codesOf records) :=
  entries_perm (by rw [map_fst_codesOf]; exact h.nodup) h.codes

theorem MIHIndex.Tracks.perm {mih : MIHIndex} {records records' : List VectorRecord}
    (h : mih.Tracks records) (hp : records.Perm records') : mih.Tracks records' := by
  refine ⟨h.inv, (hp.map _).nodup_iff.mp h.nodup, h.codes.trans ?_⟩
  exact recordMap_perm (by rw [map_fst_codesOf]; exact h.nodup) (hp.map _)

theorem MIHIndex.tracks_empty {mih : MIHIndex} (h : mih.Inv) (hcodes : mih.codes = ∅) :
    mih.Tracks [] := by
  refine ⟨h, List.nodup_nil, ?_⟩
  funext x
  rw [codeOf, hcodes]
  rfl

/-- `add` upserts a record. -/
theorem MIHIndex.Tracks.add {mih : MIHIndex} {records : List VectorRecord} (h : mih.Tracks records)
    (key : VectorRecordKey) {vector : VectorPayload} (hv : vector.IsCode) :
    ∃ mih', mih.add key vector = .ok mih' ∧ SameConfig mih mih' ∧
      mih'.Tracks (upsertRecord records (key, vector.bytes)) := by
  obtain ⟨mih', hrun, hinv, hconfig, hcode⟩ := add_ok h.inv key hv
  refine ⟨mih', hrun, hconfig, hinv, upsertRecord_nodup h.nodup _, ?_⟩
  funext x
  rw [hcode, h.codes, recordMap_codesOf, recordMap_upsertRecord, storeRecord, storeRecord]
  by_cases hx : x = key
  · rw [hx, Function.update_self, Function.update_self]; rfl
  · rw [Function.update_of_ne hx, Function.update_of_ne hx, recordMap_codesOf]

/-- `remove` drops a record. -/
theorem MIHIndex.Tracks.remove {mih : MIHIndex} {records : List VectorRecord}
    (h : mih.Tracks records) (key : VectorRecordKey) :
    (mih.remove key).Tracks (records.filter fun r => r.1 ≠ key) := by
  refine ⟨h.inv.remove key, h.nodup.sublist ((List.filter_sublist).map _), ?_⟩
  funext x
  rw [codeOf_remove, h.codes, recordMap_codesOf, recordMap_codesOf,
    recordMap_filter (fun k => decide (k ≠ key))]
  by_cases hx : x = key <;> simp [hx]

/-- `build` takes the records of distinct keys. -/
theorem MIHIndex.tracks_build {mih : MIHIndex} (h : mih.tables.length = mih.m)
    {vectors : List VectorPayload} {keys : List VectorRecordKey}
    (hlen : vectors.length = keys.length) (hv : ∀ v ∈ vectors, v.IsCode) (hnodup : keys.Nodup) :
    ∃ mih', MIHIndex.build vectors keys mih = .ok () mih' ∧ SameConfig mih mih' ∧
      mih'.Tracks (keys.zip (vectors.map (·.bytes))) := by
  have hkeys : (keys.zip (vectors.map (·.bytes))).map (·.1) = keys :=
    List.map_fst_zip (by simp [hlen])
  refine ⟨_, build_eq mih hlen hv, sameConfig_putAll mih.cleared _, inv_putAll h ?_, ?_,
    codeOf_cleared_putAll mih _⟩
  · rw [map_fst_codesOf, hkeys]; exact hnodup
  · rw [hkeys]; exact hnodup

/-- A payload that the binary lane takes. -/
abbrev CodeVector := { v : VectorPayload // v.IsCode }

/-- Vectors with pairwise distinct keys. -/
abbrev BuildList := { l : List (CodeVector × VectorRecordKey) // (l.map (·.2)).Nodup }

inductive IndexOp where
  | add (key : VectorRecordKey) (vector : CodeVector)
  | remove (key : VectorRecordKey)

namespace BruteForceIndex

def step (idx : BruteForceIndex) : IndexOp → Except Fault BruteForceIndex
  | .add key vector => idx.add key vector.1
  | .remove key => idx.remove key

/-- An empty index, or one built from a list. -/
def start : Option BuildList → Except Fault BruteForceIndex
  | none => .ok new
  | some l => new.build (l.1.map fun p => p.1.1) (l.1.map (·.2))

def run (from? : Option BuildList) (ops : List IndexOp) : Except Fault BruteForceIndex := do
  ops.foldlM step (← start from?)

end BruteForceIndex

namespace MIHIndex

def step (mih : MIHIndex) : IndexOp → Except Fault MIHIndex
  | .add key vector => mih.add key vector.1
  | .remove key => .ok (mih.remove key)

def start (bandCount : MIHBandCount) (maskBudget : Option Nat) :
    Option BuildList → Except Fault MIHIndex
  | none => .ok (newWithBudget bandCount maskBudget)
  | some l =>
    match build (l.1.map fun p => p.1.1) (l.1.map (·.2)) (newWithBudget bandCount maskBudget) with
    | .ok () mih => .ok mih
    | .error e _ => .error e

def run (bandCount : MIHBandCount) (maskBudget : Option Nat) (from? : Option BuildList)
    (ops : List IndexOp) : Except Fault MIHIndex := do
  ops.foldlM step (← start bandCount maskBudget from?)

end MIHIndex

/-- Both indexes hold the same records. -/
def Agree (idx : BruteForceIndex) (mih : MIHIndex) : Prop := idx.Inv ∧ mih.Tracks idx.live

theorem Agree.step {idx : BruteForceIndex} {mih : MIHIndex} (h : Agree idx mih) (op : IndexOp) :
    ∃ idx' mih', idx.step op = .ok idx' ∧ mih.step op = .ok mih' ∧ Agree idx' mih' := by
  cases op with
  | add key vector =>
    obtain ⟨idx', hidx, hinv, hlive⟩ := BruteForceIndex.add_ok h.1 key vector.2
    obtain ⟨mih', hmih, _, htracks⟩ := h.2.add key vector.2
    exact ⟨idx', mih', hidx, hmih, hinv, by rw [hlive]; exact htracks⟩
  | remove key =>
    obtain ⟨idx', hidx, hinv, hlive⟩ := BruteForceIndex.remove_ok h.1 key
    exact ⟨idx', _, hidx, rfl, hinv, by rw [hlive]; exact h.2.remove key⟩

theorem Agree.run {idx : BruteForceIndex} {mih : MIHIndex} (h : Agree idx mih)
    (ops : List IndexOp) : ∃ idx' mih', ops.foldlM BruteForceIndex.step idx = .ok idx' ∧
      ops.foldlM MIHIndex.step mih = .ok mih' ∧ Agree idx' mih' := by
  induction ops generalizing idx mih with
  | nil => exact ⟨idx, mih, rfl, rfl, h⟩
  | cons op ops ih =>
    obtain ⟨idx₁, mih₁, hidx, hmih, h₁⟩ := h.step op
    obtain ⟨idx', mih', hidx', hmih', h'⟩ := ih h₁
    refine ⟨idx', mih', ?_, ?_, h'⟩
    · rw [List.foldlM_cons, hidx]; exact hidx'
    · rw [List.foldlM_cons, hmih]; exact hmih'

theorem agree_start (bandCount : MIHBandCount) (maskBudget : Option Nat)
    (from? : Option BuildList) : ∃ idx mih, BruteForceIndex.start from? = .ok idx ∧
      MIHIndex.start bandCount maskBudget from? = .ok mih ∧ Agree idx mih := by
  have hinv := MIHIndex.inv_newWithBudget bandCount maskBudget
  cases from? with
  | none =>
    refine ⟨_, _, rfl, rfl, BruteForceIndex.inv_new, ?_⟩
    rw [BruteForceIndex.live_new]
    exact MIHIndex.tracks_empty hinv rfl
  | some l =>
    have hlen : (l.1.map fun p => p.1.1).length = (l.1.map (·.2)).length := by simp
    have hcodes : ∀ v ∈ l.1.map (fun p => p.1.1), v.IsCode := by
      intro v hv
      obtain ⟨p, _, rfl⟩ := List.mem_map.mp hv
      exact p.1.2
    obtain ⟨idx, hidx, hidxinv, hlive⟩ := BruteForceIndex.build_ok .new hlen hcodes
    obtain ⟨mih, hmih, _, htracks⟩ := MIHIndex.tracks_build hinv.tables_length hlen hcodes l.2
    exact ⟨idx, mih, hidx, by simp only [MIHIndex.start, hmih], hidxinv,
      by rw [hlive]; exact htracks⟩

/-- Both searches return the nearest of the records that the indexes hold. -/
theorem Agree.search {idx : BruteForceIndex} {mih : MIHIndex} (h : Agree idx mih)
    (order : IterationOrder CodeEntry) {probe : VectorPayload} (hp : probe.IsCode) (k : Nat)
    (filter : Option MetadataFilter) :
    mih.search order probe DenseMetric.HAMMING k filter =
      idx.search probe DenseMetric.HAMMING k filter := by
  rw [MIHIndex.search_eq h.2.inv.toSearchable order hp, BruteForceIndex.search_eq h.1 hp,
    nearest_perm h.2.perm_entries]

/-- After the same operations the hashing index answers every search as the linear scan does. -/
theorem mihSearch_eq_bruteForceSearch (bandCount : MIHBandCount) (maskBudget : Option Nat)
    (from? : Option BuildList) (ops : List IndexOp) (order : IterationOrder CodeEntry)
    (probe : CodeVector) (k : Nat) (filter : Option MetadataFilter) :
    ∃ idx mih hits, BruteForceIndex.run from? ops = .ok idx ∧
      MIHIndex.run bandCount maskBudget from? ops = .ok mih ∧
      idx.search probe.1 DenseMetric.HAMMING k filter = .ok hits ∧
      mih.search order probe.1 DenseMetric.HAMMING k filter = .ok hits := by
  obtain ⟨idx₀, mih₀, hidx₀, hmih₀, h₀⟩ := agree_start bandCount maskBudget from?
  obtain ⟨idx, mih, hidx, hmih, h⟩ := h₀.run ops
  refine ⟨idx, mih, _, ?_, ?_, BruteForceIndex.search_eq h.1 probe.2 k filter,
    (h.search order probe.2 k filter).trans (BruteForceIndex.search_eq h.1 probe.2 k filter)⟩
  · exact except_bind_ok.mpr ⟨idx₀, hidx₀, hidx⟩
  · exact except_bind_ok.mpr ⟨mih₀, hmih₀, hmih⟩

end MootMemory
