import Mathlib.Data.Finmap
import MootMemory.EffectRun
import MootMemory.MihIndex
import MootMemory.RecordMap

namespace MootMemory

namespace MIHIndex

theorem payloadToEngram_eq {payload : VectorPayload} (h : payload.IsCode) :
    payloadToEngram payload = .ok (Engram.ofLeBytes payload.bytes) := by
  rw [payloadToEngram, if_neg (not_not.mpr h.1), if_neg (not_not.mpr h.2)]

/-- Two indexes of one configuration. -/
def SameConfig (mih mih' : MIHIndex) : Prop :=
  mih'.bandCount = mih.bandCount ∧ mih'.maskBudget = mih.maskBudget

theorem SameConfig.trans {a b c : MIHIndex} (hab : SameConfig a b) (hbc : SameConfig b c) :
    SameConfig a c := ⟨hbc.1.trans hab.1, hbc.2.trans hab.2⟩

/-- The codes as a function of the key. -/
def codeOf (mih : MIHIndex) (x : VectorRecordKey) : Option Engram := mih.codes.lookup x

theorem codeOf_put (mih : MIHIndex) (id : VectorRecordKey) (engram : Engram) :
    (mih.put id engram).codeOf = storeRecord mih.codeOf (id, engram) := by
  funext x
  by_cases h : x = id
  · subst h; simp [codeOf, put, storeRecord]
  · simp [codeOf, put, storeRecord, AList.lookup_insert_ne h, Function.update_of_ne h]

theorem codeOf_remove (mih : MIHIndex) (key x : VectorRecordKey) :
    (mih.remove key).codeOf x = if x = key then none else mih.codeOf x := by
  unfold remove
  split
  next =>
    by_cases h : x = key
    · subst h; simp [codeOf, removeFromTables]
    · simp [codeOf, removeFromTables, h, AList.lookup_erase_ne h]
  next hnone =>
    by_cases h : x = key
    · subst h; simpa [codeOf] using hnone
    · simp [h]

theorem sameConfig_remove (mih : MIHIndex) (key : VectorRecordKey) :
    SameConfig mih (mih.remove key) := by
  unfold remove
  split <;> exact ⟨rfl, rfl⟩

/-- Adding takes the key out of the tables if it is there, and posts it with its new code. -/
theorem add_ok {mih : MIHIndex} (h : mih.Inv) (key : VectorRecordKey) {vector : VectorPayload}
    (hv : vector.IsCode) :
    ∃ mih', mih.add key vector = .ok mih' ∧ mih'.Inv ∧ SameConfig mih mih' ∧
      mih'.codeOf = storeRecord mih.codeOf (key, Engram.ofLeBytes vector.bytes) := by
  have hrun : mih.add key vector = .ok
      (((mih.codes.lookup key).elim mih (mih.removeFromTables key)).put key
        (Engram.ofLeBytes vector.bytes)) := by
    rw [add, if_neg (by simp [hv.1, hv.2]), payloadToEngram_eq hv]
    cases mih.codes.lookup key <;> rfl
  cases hcode : mih.codes.lookup key with
  | none =>
    rw [hcode, Option.elim_none] at hrun
    refine ⟨_, hrun, h.put ?_ _, ⟨rfl, rfl⟩, codeOf_put _ _ _⟩
    intro t k hk
    obtain ⟨e, he⟩ := h.known t k key hk
    rw [hcode] at he
    cases he
  | some existing =>
    rw [hcode, Option.elim_some] at hrun
    have hremove := h.remove key
    -- Removal also drops the code, which the insertion then writes again.
    have hput : (mih.removeFromTables key existing).put key (Engram.ofLeBytes vector.bytes) =
        (mih.remove key).put key (Engram.ofLeBytes vector.bytes) := by
      have hcodes : (mih.codes.erase key).insert key (Engram.ofLeBytes vector.bytes) =
          mih.codes.insert key (Engram.ofLeBytes vector.bytes) := by
        apply AList.ext
        rw [AList.entries_insert, AList.entries_insert, AList.erase,
          List.kerase_of_notMem_keys (List.notMem_keys_kerase key mih.codes.nodupKeys)]
      simp only [MIHIndex.remove, hcode, put, insertIntoTables, removeFromTables, subBits, hcodes]
    rw [hput] at hrun
    refine ⟨_, hrun, hremove.put ?_ _, ?_, ?_⟩
    · intro t k hk
      obtain ⟨e, he⟩ := hremove.known t k key hk
      have := codeOf_remove mih key key
      rw [codeOf, he] at this
      simp at this
    · have := sameConfig_remove mih key
      exact this
    · rw [codeOf_put]
      funext x
      by_cases hx : x = key
      · subst hx; simp [storeRecord]
      · simp [storeRecord, codeOf_remove, hx]

/-- The empty index of the same configuration, which `build` starts from. -/
def cleared (mih : MIHIndex) : MIHIndex :=
  { mih with tables := mih.tables.map fun _ => ⟨∅⟩, codes := ∅ }

theorem inv_cleared {mih : MIHIndex} (h : mih.tables.length = mih.m) : mih.cleared.Inv := by
  refine inv_of_empty (by simpa [cleared, m] using h) (postings_of_empty_tables ?_) rfl
  intro table htable
  obtain ⟨_, _, rfl⟩ := List.mem_map.mp htable
  rfl

/-- Post the codes in order. -/
def putAll (mih : MIHIndex) (codes : List CodeEntry) : MIHIndex :=
  codes.foldl (fun mih c => mih.put c.1 c.2) mih

theorem putAll_concat (mih : MIHIndex) (codes : List CodeEntry) (c : CodeEntry) :
    mih.putAll (codes ++ [c]) = (mih.putAll codes).put c.1 c.2 := by
  rw [putAll, List.foldl_append]
  rfl

theorem Searchable.putAll {mih : MIHIndex} (h : mih.Searchable) (codes : List CodeEntry) :
    (mih.putAll codes).Searchable := by
  induction codes using List.reverseRecOn with
  | nil => exact h
  | append_singleton codes c ih =>
    rw [putAll_concat]
    exact ih.put c.1 c.2

theorem sameConfig_putAll (mih : MIHIndex) (codes : List CodeEntry) :
    SameConfig mih (mih.putAll codes) := by
  induction codes using List.reverseRecOn with
  | nil => exact ⟨rfl, rfl⟩
  | append_singleton codes c ih =>
    rw [putAll_concat]
    exact ih

theorem codeOf_putAll (mih : MIHIndex) (codes : List CodeEntry) :
    (mih.putAll codes).codeOf = codes.foldl storeRecord mih.codeOf := by
  induction codes using List.reverseRecOn with
  | nil => rfl
  | append_singleton codes c ih =>
    rw [putAll_concat, codeOf_put, ih, List.foldl_append]
    rfl

theorem codeOf_cleared_putAll (mih : MIHIndex) (codes : List CodeEntry) :
    (mih.cleared.putAll codes).codeOf = recordMap codes := by
  rw [codeOf_putAll, recordMap]
  congr 1

/-- Distinct keys are posted once each. -/
theorem inv_putAll {mih : MIHIndex} (h : mih.tables.length = mih.m) {codes : List CodeEntry}
    (hnodup : (codes.map (·.1)).Nodup) : (mih.cleared.putAll codes).Inv := by
  induction codes using List.reverseRecOn with
  | nil => exact inv_cleared h
  | append_singleton codes c ih =>
    rw [List.map_append, List.map_singleton, List.nodup_append] at hnodup
    obtain ⟨hcodes, _, hdisj⟩ := hnodup
    rw [putAll_concat]
    refine (ih hcodes).put (fun t key hc => ?_) c.2
    obtain ⟨e, he⟩ := (ih hcodes).known t key c.1 hc
    have hcode : recordMap codes c.1 = some e := by
      rw [← codeOf_cleared_putAll mih]
      exact he
    have hmem : c.1 ∈ codes.map (·.1) := List.mem_map.mpr ⟨_, mem_of_recordMap hcode, rfl⟩
    exact hdisj c.1 hmem c.1 (by simp) rfl

theorem codesOf_zip (vectors : List VectorPayload) (keys : List VectorRecordKey) :
    codesOf (keys.zip (vectors.map (·.bytes))) =
      (vectors.zip keys).map fun p => (p.2, Engram.ofLeBytes p.1.bytes) := by
  induction vectors generalizing keys with
  | nil => simp [codesOf]
  | cons v vectors ih =>
    cases keys with
    | nil => rfl
    | cons key keys =>
      have hrest := ih keys
      simp only [codesOf, List.map_cons, List.zip_cons_cons] at hrest ⊢
      rw [hrest]

theorem build_eq (mih : MIHIndex) {vectors : List VectorPayload} {keys : List VectorRecordKey}
    (hlen : vectors.length = keys.length) (hv : ∀ v ∈ vectors, v.IsCode) :
    build vectors keys mih =
      .ok () (mih.cleared.putAll (codesOf (keys.zip (vectors.map (·.bytes))))) := by
  have hstep : ∀ p ∈ vectors.zip keys, ∀ s, buildStep p s =
      .ok () (put s p.2 (Engram.ofLeBytes p.1.bytes)) := by
    intro p hp s
    rw [buildStep, payloadToEngram_eq (hv p.1 (List.of_mem_zip hp).1)]
    rfl
  have hloop := forM_ok hstep mih.cleared
  have hbuild : build vectors keys mih = (vectors.zip keys).forM buildStep mih.cleared := by
    rw [build, if_neg (not_not.mpr hlen)]
    rfl
  rw [hbuild, hloop, codesOf_zip, putAll, List.foldl_map]

theorem map_fst_codesOf (records : List VectorRecord) :
    (codesOf records).map (·.1) = records.map (·.1) := by
  rw [codesOf, List.map_map]
  rfl

theorem entries_nodup (mih : MIHIndex) : (mih.entries.map (·.1)).Nodup := by
  have h := mih.codes.keys_nodup
  rw [entries, List.map_map]
  exact h

theorem recordMap_entries (mih : MIHIndex) : recordMap mih.entries = mih.codeOf := by
  funext x
  apply Option.ext
  intro e
  rw [recordMap_eq_some mih.entries_nodup, codeOf, ← Option.mem_def, AList.mem_lookup_iff,
    entries, List.mem_map]
  constructor
  · rintro ⟨s, hs, heq⟩
    obtain ⟨rfl, rfl⟩ := Prod.mk.inj heq
    exact hs
  · exact fun hs => ⟨_, hs, rfl⟩

/-- The entries are those of any list of distinct keys that writes the same codes. -/
theorem entries_perm {mih : MIHIndex} {codes : List CodeEntry} (hnodup : (codes.map (·.1)).Nodup)
    (h : mih.codeOf = recordMap codes) : mih.entries.Perm codes :=
  perm_of_recordMap_eq mih.entries_nodup hnodup ((recordMap_entries mih).trans h)

end MIHIndex

end MootMemory
