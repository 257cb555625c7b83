import MootMemory.BruteForce
import MootMemory.SortedSearch

namespace MootMemory

inductive MIHBandCount where
  | m4
  | m8
  | m16
  | m32
deriving DecidableEq, Repr

def MIHBandCount.bands : MIHBandCount → Nat
  | .m4 => 4
  | .m8 => 8
  | .m16 => 16
  | .m32 => 32

def MIHBandCount.subBits (bandCount : MIHBandCount) : Nat := 256 / bandCount.bands

/-- The posting lists of one band, by the value of the band. -/
structure SubstringTable where
  map : AList fun _ : Nat => List VectorRecordKey

namespace SubstringTable

def postings (table : SubstringTable) (key : Nat) : List VectorRecordKey :=
  (table.map.lookup key).getD []

def insert (table : SubstringTable) (key : Nat) (id : VectorRecordKey) : SubstringTable :=
  ⟨table.map.insert key (insertSorted id (table.postings key))⟩

/-- An emptied posting list is dropped. -/
def remove (table : SubstringTable) (key : Nat) (id : VectorRecordKey) : SubstringTable :=
  match table.map.lookup key with
  | some list =>
    let list := removeSorted (fun x => x.cmp id) list
    if list = [] then ⟨table.map.erase key⟩ else ⟨table.map.insert key list⟩
  | none => table

theorem postings_insert (table : SubstringTable) (key : Nat) (id : VectorRecordKey) (key' : Nat) :
    (table.insert key id).postings key' =
      if key' = key then insertSorted id (table.postings key) else table.postings key' := by
  by_cases h : key' = key
  · subst h; simp [insert, postings]
  · simp [insert, postings, h, AList.lookup_insert_ne h]

theorem postings_remove (table : SubstringTable) (key : Nat) (id : VectorRecordKey) (key' : Nat) :
    (table.remove key id).postings key' =
      if key' = key then removeSorted (fun x => compare x id) (table.postings key)
      else table.postings key' := by
  have hcmp : (fun x : VectorRecordKey => x.cmp id) = fun x => compare x id := by
    funext x
    exact VectorRecordKey.cmp_eq_compare x id
  unfold remove
  rw [hcmp]
  split
  next list hlist =>
    have hold : table.postings key = list := by rw [postings, hlist]; rfl
    rw [hold]
    dsimp only
    split
    next hnil =>
      by_cases h : key' = key
      · subst h; simp [postings, hnil]
      · simp [postings, h, AList.lookup_erase_ne h]
    next =>
      by_cases h : key' = key
      · subst h; simp [postings]
      · simp [postings, h, AList.lookup_insert_ne h]
  next hnone =>
    by_cases h : key' = key
    · subst h
      have hold : table.postings key' = [] := by rw [postings, hnone]; rfl
      rw [if_pos rfl, hold]
      rfl
    · rw [if_neg h]

end SubstringTable

/-- Bits `bandIndex * subBits` and up of a code, as many as a band has. -/
def extractBand (engram : Engram) (bandIndex subBits : Nat) : Nat :=
  let start := bandIndex * subBits
  let loWord := start / 64
  let loOff := start % 64
  let word := match loWord with
    | 0 => engram.block0
    | 1 => engram.block1
    | 2 => engram.block2
    | 3 => engram.block3
    | _ => 0
  let mask := if subBits = 64 then 2 ^ 64 - 1 else 2 ^ subBits - 1
  (word.toNat >>> loOff) &&& mask

/-- Multi-index hashing: one posting table for each band, and the full codes. -/
structure MIHIndex where
  bandCount : MIHBandCount
  maskBudget : Option Nat
  tables : List SubstringTable
  codes : AList fun _ : VectorRecordKey => Engram

namespace MIHIndex

def newWithBudget (bandCount : MIHBandCount) (maskBudget : Option Nat) : MIHIndex :=
  { bandCount, maskBudget, tables := List.replicate bandCount.bands ⟨∅⟩, codes := ∅ }

def new (bandCount : MIHBandCount) : MIHIndex := newWithBudget bandCount none

def m (mih : MIHIndex) : Nat := mih.bandCount.bands

def subBits (mih : MIHIndex) : Nat := mih.bandCount.subBits

def insertIntoTables (mih : MIHIndex) (id : VectorRecordKey) (engram : Engram) : MIHIndex :=
  { mih with tables := mih.tables.mapIdx fun t table =>
      table.insert (extractBand engram t mih.subBits) id }

def removeFromTables (mih : MIHIndex) (id : VectorRecordKey) (engram : Engram) : MIHIndex :=
  { mih with tables := mih.tables.mapIdx fun t table =>
      table.remove (extractBand engram t mih.subBits) id }

def payloadToEngram (payload : VectorPayload) : Except Fault Engram :=
  if payload.kind ≠ .binary then
    .error (.err (.invalidPayload
      s!"MIHIndex: payload.kind must be Binary, got {payload.kind.debug}"))
  else if payload.bytes.length ≠ 32 then
    .error (.err (.invalidPayload
      s!"MIHIndex: binary payload must be 32 bytes, got {payload.bytes.length}"))
  else .ok (Engram.ofLeBytes payload.bytes)

/-- One turn of the loop of `build`. -/
def buildStep (entry : VectorPayload × VectorRecordKey) : EStateM Fault MIHIndex Unit := fun mih =>
  match payloadToEngram entry.1 with
  | .error e => .error e mih
  | .ok engram =>
    let mih := mih.insertIntoTables entry.2 engram
    .ok () { mih with codes := mih.codes.insert entry.2 engram }

/-- The index is cleared first, so a payload that fails leaves a part of the entries. -/
def build (vectors : List VectorPayload) (keys : List VectorRecordKey) :
    EStateM Fault MIHIndex Unit := do
  if vectors.length ≠ keys.length then
    throw (.err (.invalidPayload
      s!"MIHIndex.build: vectors.len()={vectors.length} != keys.len()={keys.length}"))
  else
    modify fun mih => { mih with tables := mih.tables.map fun _ => ⟨∅⟩, codes := ∅ }
    (vectors.zip keys).forM buildStep

/-- Upsert of exactly this key. -/
def add (mih : MIHIndex) (key : VectorRecordKey) (vector : VectorPayload) :
    Except Fault MIHIndex :=
  if vector.kind ≠ .binary ∨ vector.bytes.length ≠ 32 then
    .error (.err (.invalidPayload "MIHIndex.add: vector must be Binary with 32 bytes"))
  else do
    let engram ← payloadToEngram vector
    let mih := match mih.codes.lookup key with
      | some existing => mih.removeFromTables key existing
      | none => mih
    let mih := mih.insertIntoTables key engram
    .ok { mih with codes := mih.codes.insert key engram }

def remove (mih : MIHIndex) (key : VectorRecordKey) : MIHIndex :=
  match mih.codes.lookup key with
  | some engram => ({ mih with codes := mih.codes.erase key }).removeFromTables key engram
  | none => mih

/-- The posting list of a band value. -/
def postings (mih : MIHIndex) (t key : Nat) : List VectorRecordKey :=
  match mih.tables[t]? with
  | some table => table.postings key
  | none => []

/-- The codes as a list of entries. -/
def entries (mih : MIHIndex) : List CodeEntry := mih.codes.entries.map fun s => (s.1, s.2)

/-- What the search relies on: every code is posted in each band. -/
structure Searchable (mih : MIHIndex) : Prop where
  tables_length : mih.tables.length = mih.m
  sorted : ∀ t key, (mih.postings t key).Pairwise (· ≤ ·)
  posted : ∀ x e t, mih.codes.lookup x = some e → t < mih.m →
    x ∈ mih.postings t (extractBand e t mih.subBits)
  known : ∀ t key x, x ∈ mih.postings t key → ∃ e, mih.codes.lookup x = some e

/-- The invariant of the index: a key is posted once in each band, under its code's value. -/
structure Inv (mih : MIHIndex) : Prop extends Searchable mih where
  nodup : ∀ t key, (mih.postings t key).Nodup
  exact : ∀ t key x e, x ∈ mih.postings t key → mih.codes.lookup x = some e →
    extractBand e t mih.subBits = key

theorem postings_insertIntoTables (mih : MIHIndex) (id : VectorRecordKey) (engram : Engram)
    {t : Nat} (ht : t < mih.tables.length) (key : Nat) :
    (mih.insertIntoTables id engram).postings t key =
      if key = extractBand engram t mih.subBits then insertSorted id (mih.postings t key)
      else mih.postings t key := by
  simp only [postings, insertIntoTables, List.getElem?_mapIdx, List.getElem?_eq_getElem ht,
    Option.map_some, SubstringTable.postings_insert]
  split
  next h => rw [h]
  next => rfl

theorem postings_removeFromTables (mih : MIHIndex) (id : VectorRecordKey) (engram : Engram)
    {t : Nat} (ht : t < mih.tables.length) (key : Nat) :
    (mih.removeFromTables id engram).postings t key =
      if key = extractBand engram t mih.subBits then
        removeSorted (fun x => compare x id) (mih.postings t key)
      else mih.postings t key := by
  simp only [postings, removeFromTables, List.getElem?_mapIdx, List.getElem?_eq_getElem ht,
    Option.map_some, SubstringTable.postings_remove]
  split
  next h => rw [h]
  next => rfl

theorem postings_of_length_le {mih : MIHIndex} {t : Nat} (ht : mih.tables.length ≤ t) (key : Nat) :
    mih.postings t key = [] := by
  rw [postings, List.getElem?_eq_none ht]

theorem inv_of_empty {mih : MIHIndex} (hlen : mih.tables.length = mih.m)
    (hpost : ∀ t key, mih.postings t key = []) (hcodes : mih.codes = ∅) : mih.Inv := by
  refine ⟨⟨hlen, ?_, ?_, ?_⟩, ?_, ?_⟩
  · intro t key; rw [hpost]; exact List.Pairwise.nil
  · intro x e t hx; rw [hcodes] at hx; simp at hx
  · intro t key x hx; rw [hpost] at hx; simp at hx
  · intro t key; rw [hpost]; exact List.nodup_nil
  · intro t key x e hx; rw [hpost] at hx; simp at hx

theorem postings_of_empty_tables {mih : MIHIndex} (h : ∀ table ∈ mih.tables, table.map = ∅)
    (t key : Nat) : mih.postings t key = [] := by
  rw [postings]
  split
  next table htable =>
    rw [SubstringTable.postings, h table (List.mem_of_getElem? htable)]
    rfl
  next => rfl

theorem inv_newWithBudget (bandCount : MIHBandCount) (maskBudget : Option Nat) :
    (newWithBudget bandCount maskBudget).Inv := by
  refine inv_of_empty (by simp [newWithBudget, m]) (postings_of_empty_tables ?_) rfl
  intro table htable
  rw [List.eq_of_mem_replicate htable]

/-- Post a code and record it. -/
def put (mih : MIHIndex) (id : VectorRecordKey) (engram : Engram) : MIHIndex :=
  { mih.insertIntoTables id engram with codes := mih.codes.insert id engram }

theorem postings_put {mih : MIHIndex} (h : mih.tables.length = mih.m) (id : VectorRecordKey)
    (engram : Engram) (t key : Nat) : (mih.put id engram).postings t key =
      if t < mih.m ∧ key = extractBand engram t mih.subBits then
        insertSorted id (mih.postings t key)
      else mih.postings t key := by
  have hsame : (mih.put id engram).postings t key =
      (mih.insertIntoTables id engram).postings t key := rfl
  rw [hsame]
  by_cases ht : t < mih.m
  · rw [postings_insertIntoTables mih id engram (by omega)]
    simp only [ht, true_and]
  · rw [postings_of_length_le (by simp [insertIntoTables]; omega), if_neg (by simp [ht]),
      postings_of_length_le (by omega)]

theorem mem_postings_put {mih : MIHIndex} (h : mih.Searchable) {id x : VectorRecordKey}
    {engram : Engram} {t key : Nat} : x ∈ (mih.put id engram).postings t key ↔
      x ∈ mih.postings t key ∨
        (t < mih.m ∧ key = extractBand engram t mih.subBits ∧ x = id) := by
  rw [postings_put h.tables_length]
  split
  next hcond => rw [mem_insertSorted (h.sorted t key)]; tauto
  next hcond => tauto

/-- Posting any code keeps the index searchable. -/
theorem Searchable.put {mih : MIHIndex} (h : mih.Searchable) (id : VectorRecordKey)
    (engram : Engram) : (mih.put id engram).Searchable := by
  refine ⟨by simpa [MIHIndex.put, insertIntoTables, m] using h.tables_length, ?_, ?_, ?_⟩
  · intro t key
    rw [postings_put h.tables_length]
    split
    next => exact insertSorted_sorted (h.sorted t key) id
    next => exact h.sorted t key
  · intro x e t hx ht
    apply (mem_postings_put h).mpr
    by_cases hid : x = id
    · subst hid
      obtain rfl : engram = e := by simpa [MIHIndex.put] using hx
      exact Or.inr ⟨ht, rfl, rfl⟩
    · have hx : mih.codes.lookup x = some e := by
        simpa [MIHIndex.put, AList.lookup_insert_ne hid] using hx
      exact Or.inl (h.posted x e t hx ht)
  · intro t key x hx
    by_cases hid : x = id
    · subst hid
      exact ⟨engram, by simp [MIHIndex.put]⟩
    · rcases (mem_postings_put h).mp hx with hx | ⟨_, _, rfl⟩
      · obtain ⟨e, he⟩ := h.known t key x hx
        exact ⟨e, by simpa [MIHIndex.put, AList.lookup_insert_ne hid] using he⟩
      · exact absurd rfl hid

/-- Posting the code of a new key keeps the invariant. -/
theorem Inv.put {mih : MIHIndex} (h : mih.Inv) {id : VectorRecordKey}
    (hnew : ∀ t key, id ∉ mih.postings t key) (engram : Engram) : (mih.put id engram).Inv := by
  refine ⟨h.toSearchable.put id engram, ?_, ?_⟩
  · intro t key
    rw [postings_put h.tables_length]
    split
    next => exact insertSorted_nodup (h.sorted t key) (h.nodup t key) (hnew t key)
    next => exact h.nodup t key
  · intro t key x e hx he
    rcases (mem_postings_put h.toSearchable).mp hx with hold | ⟨_, hkey, rfl⟩
    · have hid : x ≠ id := by rintro rfl; exact hnew t key hold
      exact h.exact t key x e hold (by simpa [MIHIndex.put, AList.lookup_insert_ne hid] using he)
    · obtain rfl : engram = e := by simpa [MIHIndex.put] using he
      exact hkey.symm

/-- Taking a key with its recorded code out of the tables takes it out of every posting list. -/
theorem mem_postings_removeFromTables {mih : MIHIndex} (h : mih.Inv) {id x : VectorRecordKey}
    {engram : Engram} (hid : mih.codes.lookup id = some engram) {t key : Nat} :
    x ∈ (mih.removeFromTables id engram).postings t key ↔ x ∈ mih.postings t key ∧ x ≠ id := by
  by_cases ht : t < mih.tables.length
  · rw [postings_removeFromTables mih id engram ht]
    split
    next => exact mem_removeSorted (h.sorted t key) (h.nodup t key)
    next hkey =>
      refine ⟨fun hx => ⟨hx, ?_⟩, fun hx => hx.1⟩
      rintro rfl
      exact hkey (h.exact t key x engram hx hid).symm
  · rw [postings_of_length_le (by simp [removeFromTables]; omega),
      postings_of_length_le (by omega)]
    simp

theorem postings_removeFromTables_sublist (mih : MIHIndex) (id : VectorRecordKey) (engram : Engram)
    (t key : Nat) :
    ((mih.removeFromTables id engram).postings t key).Sublist (mih.postings t key) := by
  by_cases ht : t < mih.tables.length
  · rw [postings_removeFromTables mih id engram ht]
    split
    next => exact removeSorted_sublist _ _
    next => exact List.Sublist.refl _
  · rw [postings_of_length_le (by simp [removeFromTables]; omega)]
    exact List.nil_sublist _

theorem Inv.remove {mih : MIHIndex} (h : mih.Inv) (key : VectorRecordKey) :
    (mih.remove key).Inv := by
  unfold MIHIndex.remove
  split
  next engram hcode =>
    have hmem := fun {t k x} => @mem_postings_removeFromTables mih h key x engram hcode t k
    have hsub := postings_removeFromTables_sublist mih key engram
    refine ⟨⟨?_, ?_, ?_, ?_⟩, ?_, ?_⟩
    · simpa [removeFromTables, m] using h.tables_length
    · exact fun t k => (h.sorted t k).sublist (hsub t k)
    · intro x e t hx ht
      have hne : x ≠ key := by rintro rfl; simp [removeFromTables] at hx
      have hx : mih.codes.lookup x = some e := by
        simpa [removeFromTables, AList.lookup_erase_ne hne] using hx
      exact hmem.mpr ⟨h.posted x e t hx ht, hne⟩
    · intro t k x hx
      obtain ⟨hx, hne⟩ := hmem.mp hx
      obtain ⟨e, he⟩ := h.known t k x hx
      exact ⟨e, by simpa [removeFromTables, AList.lookup_erase_ne hne] using he⟩
    · exact fun t k => (h.nodup t k).sublist (hsub t k)
    · intro t k x e hx he
      obtain ⟨hx, hne⟩ := hmem.mp hx
      exact h.exact t k x e hx (by simpa [removeFromTables, AList.lookup_erase_ne hne] using he)
  next => exact h

end MIHIndex

end MootMemory
