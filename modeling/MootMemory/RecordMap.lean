import Mathlib.Data.List.Induction
import Mathlib.Data.List.Nodup
import Mathlib.Logic.Function.Basic

namespace MootMemory

variable {κ ν : Type*} [DecidableEq κ]

/-- Store a record in a map. -/
def storeRecord (m : κ → Option ν) (r : κ × ν) : κ → Option ν := Function.update m r.1 (some r.2)

/-- The map a list of records writes when they are stored in order. -/
def recordMap (rs : List (κ × ν)) : κ → Option ν := rs.foldl storeRecord fun _ => none

theorem foldl_storeRecord_of_notMem {rs : List (κ × ν)} {x : κ} (h : x ∉ rs.map (·.1))
    (m : κ → Option ν) : rs.foldl storeRecord m x = m x := by
  induction rs generalizing m with
  | nil => rfl
  | cons r rs ih =>
    rw [List.map_cons, List.mem_cons, not_or] at h
    rw [List.foldl_cons, ih h.2, storeRecord, Function.update_of_ne h.1]

/-- What is stored under a key that the records write does not depend on the map before. -/
theorem foldl_storeRecord_of_mem {rs : List (κ × ν)} {x : κ} (h : x ∈ rs.map (·.1))
    (m m' : κ → Option ν) : rs.foldl storeRecord m x = rs.foldl storeRecord m' x := by
  induction rs generalizing m m' with
  | nil => simp at h
  | cons r rs ih =>
    by_cases hx : x ∈ rs.map (·.1)
    · exact ih hx _ _
    · obtain rfl : x = r.1 := by simpa [hx] using h
      rw [List.foldl_cons, List.foldl_cons, foldl_storeRecord_of_notMem hx,
        foldl_storeRecord_of_notMem hx, storeRecord, storeRecord, Function.update_self,
        Function.update_self]

theorem recordMap_concat (rs : List (κ × ν)) (r : κ × ν) :
    recordMap (rs ++ [r]) = storeRecord (recordMap rs) r := by
  rw [recordMap, List.foldl_append]
  rfl

theorem recordMap_eq_none {rs : List (κ × ν)} {x : κ} :
    recordMap rs x = none ↔ x ∉ rs.map (·.1) := by
  induction rs using List.reverseRecOn with
  | nil => simp [recordMap]
  | append_singleton rs r ih =>
    rw [recordMap_concat, storeRecord]
    by_cases h : x = r.1
    · subst h; simp
    · rw [Function.update_of_ne h, ih]; simp [h]

theorem mem_of_recordMap {rs : List (κ × ν)} {x : κ} {v : ν} (h : recordMap rs x = some v) :
    (x, v) ∈ rs := by
  induction rs using List.reverseRecOn with
  | nil => simp [recordMap] at h
  | append_singleton rs r ih =>
    rw [recordMap_concat, storeRecord] at h
    by_cases hx : x = r.1
    · subst hx
      rw [Function.update_self] at h
      cases h
      simp
    · rw [Function.update_of_ne hx] at h
      exact List.mem_append_left _ (ih h)

/-- With distinct keys the map holds exactly the records. -/
theorem recordMap_eq_some {rs : List (κ × ν)} (h : (rs.map (·.1)).Nodup) {x : κ} {v : ν} :
    recordMap rs x = some v ↔ (x, v) ∈ rs := by
  refine ⟨mem_of_recordMap, fun hx => ?_⟩
  cases hv : recordMap rs x with
  | none => exact absurd (List.mem_map_of_mem hx) (recordMap_eq_none.mp hv)
  | some w =>
    have := List.inj_on_of_nodup_map h (mem_of_recordMap hv) hx rfl
    cases this
    rfl

/-- Lists of records with distinct keys that write the same map are permutations. -/
theorem perm_of_recordMap_eq {rs ts : List (κ × ν)} (hr : (rs.map (·.1)).Nodup)
    (ht : (ts.map (·.1)).Nodup) (h : recordMap rs = recordMap ts) : rs.Perm ts := by
  rw [List.perm_ext_iff_of_nodup (List.Nodup.of_map _ hr) (List.Nodup.of_map _ ht)]
  rintro ⟨x, v⟩
  rw [← recordMap_eq_some hr, ← recordMap_eq_some ht, h]

theorem recordMap_perm {rs ts : List (κ × ν)} (hr : (rs.map (·.1)).Nodup) (h : rs.Perm ts) :
    recordMap rs = recordMap ts := by
  have ht : (ts.map (·.1)).Nodup := (h.map _).nodup_iff.mp hr
  funext x
  apply Option.ext
  intro v
  rw [recordMap_eq_some hr, recordMap_eq_some ht, h.mem_iff]

/-- Dropping the records of some keys drops their entries. -/
theorem recordMap_filter (p : κ → Bool) (rs : List (κ × ν)) (x : κ) :
    recordMap (rs.filter fun r => p r.1) x = if p x then recordMap rs x else none := by
  induction rs using List.reverseRecOn with
  | nil => simp [recordMap]
  | append_singleton rs r ih =>
    rw [List.filter_append]
    by_cases hr : p r.1
    · rw [List.filter_cons_of_pos (by simpa using hr), List.filter_nil, recordMap_concat,
        recordMap_concat, storeRecord, storeRecord]
      by_cases hx : x = r.1
      · subst hx; simp [hr]
      · rw [Function.update_of_ne hx, Function.update_of_ne hx, ih]
    · rw [List.filter_cons_of_neg (by simpa using hr), List.filter_nil, List.append_nil, ih,
        recordMap_concat, storeRecord]
      by_cases hx : x = r.1
      · subst hx; simp [hr]
      · rw [Function.update_of_ne hx]

/-- Records with distinct keys, in any order, that hold a map. -/
structure Represents (rs : List (κ × ν)) (m : κ → Option ν) : Prop where
  nodup : (rs.map (·.1)).Nodup
  map : recordMap rs = m

section Represents

variable {rs ts : List (κ × ν)} {m : κ → Option ν}

theorem represents_nil : Represents ([] : List (κ × ν)) fun _ => none := ⟨by simp, rfl⟩

theorem represents_recordMap (h : (rs.map (·.1)).Nodup) : Represents rs (recordMap rs) := ⟨h, rfl⟩

theorem Represents.mem (h : Represents rs m) {x : κ} {v : ν} : (x, v) ∈ rs ↔ m x = some v := by
  rw [← h.map, recordMap_eq_some h.nodup]

theorem Represents.mem_keys (h : Represents rs m) {x : κ} : x ∈ rs.map (·.1) ↔ m x ≠ none := by
  rw [← h.map, ne_eq, recordMap_eq_none, not_not]

theorem Represents.perm (hr : Represents rs m) (ht : Represents ts m) : rs.Perm ts :=
  perm_of_recordMap_eq hr.nodup ht.nodup (hr.map.trans ht.map.symm)

theorem Represents.of_perm (h : Represents rs m) (hp : rs.Perm ts) : Represents ts m :=
  ⟨(hp.map _).nodup_iff.mp h.nodup, (recordMap_perm h.nodup hp).symm.trans h.map⟩

theorem Represents.eq_nil (h : Represents rs fun _ => none) : rs = [] := by
  have hperm := h.perm represents_nil
  exact hperm.eq_nil

theorem Represents.filter (h : Represents rs m) (p : κ → Bool) :
    Represents (rs.filter fun r => p r.1) fun x => if p x then m x else none := by
  refine ⟨h.nodup.sublist ((List.filter_sublist).map _), ?_⟩
  funext x
  rw [recordMap_filter, h.map]

end Represents

/-- New records take the place of those with the same keys. -/
def mergeRecords (rs ts : List (κ × ν)) : List (κ × ν) :=
  rs.filter (fun r => r.1 ∉ ts.map (·.1)) ++ ts

section Merge

/-- What the records write does not depend on what was there under their keys. -/
theorem foldl_storeRecord_congr {m m' : κ → Option ν} {ts : List (κ × ν)}
    (h : ∀ x, x ∉ ts.map (·.1) → m x = m' x) :
    ts.foldl storeRecord m = ts.foldl storeRecord m' := by
  funext x
  by_cases hx : x ∈ ts.map (·.1)
  · exact foldl_storeRecord_of_mem hx m m'
  · rw [foldl_storeRecord_of_notMem hx, foldl_storeRecord_of_notMem hx, h x hx]

theorem recordMap_append_eq (rs ts : List (κ × ν)) :
    recordMap (rs ++ ts) = ts.foldl storeRecord (recordMap rs) := List.foldl_append

theorem recordMap_mergeRecords (rs ts : List (κ × ν)) :
    recordMap (mergeRecords rs ts) = ts.foldl storeRecord (recordMap rs) := by
  rw [mergeRecords, recordMap_append_eq]
  apply foldl_storeRecord_congr
  intro x hx
  rw [recordMap_filter (fun k => decide (k ∉ ts.map (·.1))), if_pos (by simpa using hx)]

theorem mergeRecords_nodup {rs ts : List (κ × ν)} (hr : (rs.map (·.1)).Nodup)
    (ht : (ts.map (·.1)).Nodup) : ((mergeRecords rs ts).map (·.1)).Nodup := by
  rw [mergeRecords, List.map_append]
  refine List.nodup_append.mpr ⟨hr.sublist ((List.filter_sublist).map _), ht, ?_⟩
  intro x hx y hy hxy
  obtain ⟨r, hr, rfl⟩ := List.mem_map.mp hx
  have hnot := (List.mem_filter.mp hr).2
  rw [hxy] at hnot
  exact absurd hy (by simpa using hnot)

theorem Represents.merge {rs ts : List (κ × ν)} {m : κ → Option ν} (h : Represents rs m)
    (ht : (ts.map (·.1)).Nodup) : Represents (mergeRecords rs ts) (ts.foldl storeRecord m) :=
  ⟨mergeRecords_nodup h.nodup ht, by rw [recordMap_mergeRecords, h.map]⟩

theorem foldl_storeRecord_idem (m : κ → Option ν) (ts : List (κ × ν)) :
    ts.foldl storeRecord (ts.foldl storeRecord m) = ts.foldl storeRecord m := by
  funext x
  by_cases hx : x ∈ ts.map (·.1)
  · exact foldl_storeRecord_of_mem hx _ _
  · rw [foldl_storeRecord_of_notMem hx]

end Merge

end MootMemory
