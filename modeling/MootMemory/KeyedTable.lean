import Mathlib.Data.List.Nodup

namespace MootMemory

/-- Rows in the order they were stored, no two under one key. -/
structure KeyedTable {α κ : Type} (key : α → κ) where
  rows : List α
  nodup : (rows.map key).Nodup

namespace KeyedTable

variable {α κ : Type} [DecidableEq κ] {key : α → κ}

omit [DecidableEq κ] in
theorem eq_of_rows_eq {table t : KeyedTable key} (h : table.rows = t.rows) : table = t := by
  cases table
  cases t
  cases h
  rfl

def empty : KeyedTable key := ⟨[], List.nodup_nil⟩

def find? (table : KeyedTable key) (k : κ) : Option α := table.rows.find? fun a => key a == k

omit [DecidableEq κ] in
theorem nodup_append_single {rows : List α} {row : α} (h : (rows.map key).Nodup)
    (hrow : key row ∉ rows.map key) : ((rows ++ [row]).map key).Nodup := by
  rw [List.map_append, List.map_singleton, List.nodup_append]
  refine ⟨h, List.nodup_singleton _, fun k hk k' hk' heq => hrow ?_⟩
  rw [List.mem_singleton] at hk'
  rwa [← hk', ← heq]

/-- A second row under a key is refused. -/
def insert? (table : KeyedTable key) (row : α) : Option (KeyedTable key) :=
  if h : key row ∈ table.rows.map key then none
  else some ⟨table.rows ++ [row], nodup_append_single table.nodup h⟩

theorem map_key_rewrite {rows : List α} {k : κ} {f : α → α} (hf : ∀ a, key (f a) = key a) :
    (rows.map fun a => if key a = k then f a else a).map key = rows.map key := by
  rw [List.map_map]
  refine List.map_congr_left fun a _ => ?_
  rw [Function.comp_apply]
  split
  next => exact hf a
  next => rfl

/-- Rewrites the row under the key, if there is one. -/
def update (table : KeyedTable key) (k : κ) (f : α → α) (hf : ∀ a, key (f a) = key a) :
    KeyedTable key :=
  ⟨table.rows.map fun a => if key a = k then f a else a, by
    rw [map_key_rewrite hf]; exact table.nodup⟩

def erase (table : KeyedTable key) (k : κ) : KeyedTable key :=
  ⟨table.rows.filter fun a => key a ≠ k,
    (List.Sublist.map key List.filter_sublist).nodup table.nodup⟩

theorem map_key_replace {rows : List α} {row : α} :
    (rows.map fun a => if key a = key row then row else a).map key = rows.map key := by
  rw [List.map_map]
  refine List.map_congr_left fun a _ => ?_
  rw [Function.comp_apply]
  split
  next h => exact h.symm
  next => rfl

/-- Replaces the row under the same key, or adds the row. -/
def put (table : KeyedTable key) (row : α) : KeyedTable key :=
  if h : key row ∈ table.rows.map key then
    ⟨table.rows.map fun a => if key a = key row then row else a, by
      rw [map_key_replace]; exact table.nodup⟩
  else ⟨table.rows ++ [row], nodup_append_single table.nodup h⟩

variable {table t : KeyedTable key} {k : κ} {a b row : α}

omit [DecidableEq κ] in
theorem eq_of_key_eq (ha : a ∈ table.rows) (hb : b ∈ table.rows) (h : key a = key b) : a = b :=
  List.inj_on_of_nodup_map table.nodup ha hb h

theorem find?_eq_some_iff : table.find? k = some a ↔ a ∈ table.rows ∧ key a = k := by
  constructor
  · intro h
    exact ⟨List.mem_of_find?_eq_some h, by simpa using List.find?_some h⟩
  · rintro ⟨ha, rfl⟩
    cases h : table.find? (key a) with
    | none => exact absurd (List.find?_eq_none.mp h a ha) (by simp)
    | some b =>
      have hb : key b = key a := by simpa using List.find?_some h
      rw [eq_of_key_eq (List.mem_of_find?_eq_some h) ha hb]

theorem find?_eq_none_iff : table.find? k = none ↔ ∀ a ∈ table.rows, key a ≠ k := by
  rw [find?, List.find?_eq_none]
  simp

theorem find?_of_mem (ha : a ∈ table.rows) : table.find? (key a) = some a :=
  find?_eq_some_iff.mpr ⟨ha, rfl⟩

omit [DecidableEq κ] in
@[simp] theorem rows_empty : (empty : KeyedTable key).rows = [] := rfl

theorem insert?_eq_some_iff : table.insert? row = some t ↔
    (∀ a ∈ table.rows, key a ≠ key row) ∧ t.rows = table.rows ++ [row] := by
  rw [insert?]
  have hmem : (key row ∈ table.rows.map key) ↔ ∃ a ∈ table.rows, key a = key row := List.mem_map
  split
  next h =>
    obtain ⟨a, ha, hk⟩ := hmem.mp h
    simp only [reduceCtorEq, false_iff, not_and]
    exact fun hall => absurd hk (hall a ha)
  next h =>
    rw [hmem] at h
    push Not at h
    constructor
    · intro heq
      cases heq
      exact ⟨h, rfl⟩
    · rintro ⟨_, ht⟩
      cases t
      simp only at ht
      subst ht
      rfl

theorem insert?_eq_none_iff : table.insert? row = none ↔ ∃ a ∈ table.rows, key a = key row := by
  rw [insert?]
  split
  next h => exact ⟨fun _ => List.mem_map.mp h, fun _ => rfl⟩
  next h => exact ⟨fun hno => (nomatch hno), fun hex => absurd (List.mem_map.mpr hex) h⟩

omit [DecidableEq κ] in
theorem mem_map_rewrite {rows : List α} {p : α → Prop} [DecidablePred p] {f : α → α} :
    (b ∈ rows.map fun a => if p a then f a else a) ↔
      (∃ a ∈ rows, p a ∧ b = f a) ∨ (b ∈ rows ∧ ¬p b) := by
  rw [List.mem_map]
  constructor
  · rintro ⟨a, ha, hab⟩
    split at hab
    next h => exact Or.inl ⟨a, ha, h, hab.symm⟩
    next h => exact Or.inr (hab ▸ ⟨ha, h⟩)
  · rintro (⟨a, ha, hk, rfl⟩ | ⟨hb, hk⟩)
    · exact ⟨a, ha, if_pos hk⟩
    · exact ⟨b, hb, if_neg hk⟩

theorem mem_update {f : α → α} {hf : ∀ a, key (f a) = key a} :
    b ∈ (table.update k f hf).rows ↔
      (∃ a ∈ table.rows, key a = k ∧ b = f a) ∨ (b ∈ table.rows ∧ key b ≠ k) := mem_map_rewrite

/-- With the row at hand, an update replaces it and keeps the others. -/
theorem mem_update_of_find? {f : α → α} {hf : ∀ a, key (f a) = key a}
    (hrow : table.find? k = some row) :
    b ∈ (table.update k f hf).rows ↔ b = f row ∨ (b ∈ table.rows ∧ key b ≠ k) := by
  obtain ⟨hmem, hkey⟩ := find?_eq_some_iff.mp hrow
  rw [mem_update]
  refine or_congr_left ⟨?_, fun h => ⟨row, hmem, hkey, h⟩⟩
  rintro ⟨a, ha, hk, rfl⟩
  rw [eq_of_key_eq ha hmem (hk.trans hkey.symm)]

theorem mem_erase : b ∈ (table.erase k).rows ↔ b ∈ table.rows ∧ key b ≠ k := by
  rw [erase, List.mem_filter, decide_eq_true_eq]

/-- Taking a new row away again gives the table it was put into. -/
theorem erase_of_insert? (h : table.insert? row = some t) : t.erase (key row) = table := by
  obtain ⟨hfree, hrows⟩ := insert?_eq_some_iff.mp h
  have hfilter : t.rows.filter (fun a => key a ≠ key row) = table.rows := by
    rw [hrows, List.filter_append, List.filter_eq_self.mpr fun a ha => by simpa using hfree a ha]
    simp
  exact eq_of_rows_eq hfilter

theorem mem_put : b ∈ (table.put row).rows ↔ b = row ∨ (b ∈ table.rows ∧ key b ≠ key row) := by
  rw [put]
  split
  next h =>
    obtain ⟨c, hc, hck⟩ := List.mem_map.mp h
    simp only [List.mem_map]
    constructor
    · rintro ⟨a, ha, hab⟩
      split at hab
      next => exact Or.inl hab.symm
      next hk => exact Or.inr (hab ▸ ⟨ha, hk⟩)
    · rintro (rfl | ⟨hb, hk⟩)
      · exact ⟨c, hc, if_pos hck⟩
      · exact ⟨b, hb, if_neg hk⟩
  next h =>
    simp only [List.mem_append, List.mem_singleton]
    constructor
    · rintro (hb | rfl)
      · exact Or.inr ⟨hb, fun hk => h (List.mem_map.mpr ⟨b, hb, hk⟩)⟩
      · exact Or.inl rfl
    · rintro (rfl | ⟨hb, -⟩)
      · exact Or.inr rfl
      · exact Or.inl hb

theorem find?_put_self : (table.put row).find? (key row) = some row :=
  find?_eq_some_iff.mpr ⟨mem_put.mpr (Or.inl rfl), rfl⟩

theorem find?_put_of_ne (h : k ≠ key row) : (table.put row).find? k = table.find? k := by
  refine Option.ext fun a => ?_
  rw [find?_eq_some_iff, find?_eq_some_iff, mem_put]
  constructor
  · rintro ⟨rfl | ⟨ha, -⟩, hk⟩
    · exact absurd hk.symm h
    · exact ⟨ha, hk⟩
  · rintro ⟨ha, rfl⟩
    exact ⟨Or.inr ⟨ha, h⟩, rfl⟩

section PutAll

/-- Two tables with the same keys in the same order and the same row under each are one. -/
theorem eq_of_find? (hkeys : table.rows.map key = t.rows.map key)
    (hfind : ∀ k, table.find? k = t.find? k) : table = t := by
  apply eq_of_rows_eq
  have hlen : table.rows.length = t.rows.length := by
    have h := congrArg List.length hkeys
    rwa [List.length_map, List.length_map] at h
  refine List.ext_getElem hlen fun i hi hi' => ?_
  have hkey : key table.rows[i] = key t.rows[i] := by
    have h := congrArg (·[i]?) hkeys
    simpa [hi, hi'] using h
  have hrow := find?_of_mem (List.getElem_mem hi)
  rw [hkey, hfind, find?_of_mem (List.getElem_mem hi'), Option.some.injEq] at hrow
  exact hrow.symm

theorem map_key_put_of_mem (h : key row ∈ table.rows.map key) :
    (table.put row).rows.map key = table.rows.map key := by
  rw [put, dif_pos h]
  exact map_key_replace

theorem mem_map_key_put : k ∈ (table.put row).rows.map key ↔
    k = key row ∨ k ∈ table.rows.map key := by
  simp only [List.mem_map, mem_put]
  constructor
  · rintro ⟨a, rfl | ⟨ha, -⟩, rfl⟩
    · exact Or.inl rfl
    · exact Or.inr ⟨a, ha, rfl⟩
  · rintro (rfl | ⟨a, ha, rfl⟩)
    · exact ⟨row, Or.inl rfl, rfl⟩
    · by_cases hk : key a = key row
      · exact ⟨row, Or.inl rfl, hk.symm⟩
      · exact ⟨a, Or.inr ⟨ha, hk⟩, rfl⟩

def putAll (table : KeyedTable key) (rows : List α) : KeyedTable key := rows.foldl put table

theorem map_key_putAll_of_mem {rows : List α} (h : ∀ row ∈ rows, key row ∈ table.rows.map key) :
    (table.putAll rows).rows.map key = table.rows.map key := by
  induction rows generalizing table with
  | nil => rfl
  | cons row rows ih =>
    rw [List.forall_mem_cons] at h
    have hput := map_key_put_of_mem h.1
    exact (@ih (table.put row) (by rw [hput]; exact h.2)).trans hput

theorem mem_map_key_putAll {rows : List α} :
    k ∈ (table.putAll rows).rows.map key ↔ k ∈ rows.map key ∨ k ∈ table.rows.map key := by
  induction rows generalizing table with
  | nil => simp [putAll]
  | cons row rows ih =>
    have hrest := @ih (table.put row)
    rw [mem_map_key_put] at hrest
    rw [putAll, List.foldl_cons]
    rw [putAll] at hrest
    rw [hrest, List.map_cons, List.mem_cons]
    tauto

/-- What lies under a key after rows are put in only depends on what lay there before if none of
them has the key. -/
theorem find?_putAll_congr {rows : List α}
    (h : ∀ k, k ∉ rows.map key → table.find? k = t.find? k) (k : κ) :
    (table.putAll rows).find? k = (t.putAll rows).find? k := by
  induction rows generalizing table t with
  | nil => exact h k List.not_mem_nil
  | cons row rows ih =>
    refine ih fun k hk => ?_
    by_cases heq : k = key row
    · rw [heq, find?_put_self, find?_put_self]
    · rw [find?_put_of_ne heq, find?_put_of_ne heq]
      refine h k ?_
      rw [List.map_cons, List.mem_cons]
      exact not_or.mpr ⟨heq, hk⟩

theorem find?_putAll_of_notMem {rows : List α} (h : k ∉ rows.map key) :
    (table.putAll rows).find? k = table.find? k := by
  induction rows generalizing table with
  | nil => rfl
  | cons row rows ih =>
    rw [List.map_cons, List.mem_cons, not_or] at h
    exact (@ih (table.put row) h.2).trans (find?_put_of_ne h.1)

theorem find?_putAll_of_mem {rows : List α} (hnodup : (rows.map key).Nodup) (h : row ∈ rows) :
    (table.putAll rows).find? (key row) = some row := by
  induction rows generalizing table with
  | nil => exact absurd h List.not_mem_nil
  | cons first rows ih =>
    rw [List.map_cons, List.nodup_cons] at hnodup
    rcases List.mem_cons.mp h with rfl | hmem
    · exact (@find?_putAll_of_notMem _ _ _ _ (table.put row) _ _ hnodup.1).trans find?_put_self
    · exact @ih (table.put first) hnodup.2 hmem

/-- Rows that were put in leave the table as it is when they are put in again. -/
theorem putAll_putAll (table : KeyedTable key) (rows : List α) :
    (table.putAll rows).putAll rows = table.putAll rows := by
  refine eq_of_find? (map_key_putAll_of_mem fun row hrow => ?_)
    (find?_putAll_congr fun k hk => find?_putAll_of_notMem hk)
  exact mem_map_key_putAll.mpr (Or.inl (List.mem_map_of_mem hrow))

end PutAll

end KeyedTable

/-- An order in which a hash map yields its entries. -/
structure IterationOrder (α : Type*) where
  run : List α → List α
  perm : ∀ l, (run l).Perm l

/-- The order in which the entries happen to be stored. -/
def IterationOrder.stored {α : Type*} : IterationOrder α := ⟨id, fun l => List.Perm.refl l⟩

/-- Entries under distinct keys. -/
abbrev HashMap (κ ν : Type) := KeyedTable (Prod.fst : κ × ν → κ)

namespace HashMap

variable {κ ν : Type} [DecidableEq κ] {m : HashMap κ ν} {k k' : κ} {v : ν}

def get? (m : HashMap κ ν) (k : κ) : Option ν := (m.find? k).map Prod.snd

theorem get?_eq_some_iff : get? m k = some v ↔ (k, v) ∈ m.rows := by
  rw [get?, Option.map_eq_some_iff]
  constructor
  · rintro ⟨e, he, rfl⟩
    obtain ⟨hmem, rfl⟩ := KeyedTable.find?_eq_some_iff.mp he
    exact hmem
  · intro h
    exact ⟨(k, v), KeyedTable.find?_of_mem h, rfl⟩

theorem get?_empty : get? (KeyedTable.empty : HashMap κ ν) k = none := rfl

theorem get?_put : get? (m.put (k', v)) k = if k = k' then some v else get? m k := by
  by_cases h : k = k'
  · rw [if_pos h, h, get?]
    exact congrArg (Option.map Prod.snd) (@KeyedTable.find?_put_self _ _ _ _ m (k', v))
  · rw [if_neg h, get?, get?]
    exact congrArg (Option.map Prod.snd) (@KeyedTable.find?_put_of_ne _ _ _ _ m k (k', v) h)

/-- The last entry of a key is the one that stays. -/
theorem get?_foldl_put (entries : List (κ × ν)) : get? (entries.foldl KeyedTable.put m) k =
    ((entries.reverse.find? fun e => e.1 = k).map Prod.snd).or (get? m k) := by
  induction entries generalizing m with
  | nil => rfl
  | cons e entries ih =>
    rw [List.foldl_cons, ih, @get?_put _ _ _ m k e.1 e.2, List.reverse_cons,
      List.find?_append]
    cases entries.reverse.find? fun e => e.1 = k with
    | some found => rfl
    | none =>
      by_cases h : k = e.1
      · simp [h]
      · simp [h, Ne.symm h]

/-- Entries under distinct keys stay in the order in which they are put in. -/
theorem rows_foldl_put {entries : List (κ × ν)}
    (h : ((m.rows ++ entries).map Prod.fst).Nodup) :
    (entries.foldl KeyedTable.put m).rows = m.rows ++ entries := by
  induction entries generalizing m with
  | nil => exact (List.append_nil _).symm
  | cons e entries ih =>
    have hfresh : e.1 ∉ m.rows.map Prod.fst := by
      rw [List.map_append, List.nodup_append] at h
      intro hmem
      exact h.2.2 _ hmem _ (List.mem_map_of_mem List.mem_cons_self) rfl
    have hput : (m.put e).rows = m.rows ++ [e] := by rw [KeyedTable.put, dif_neg hfresh]
    rw [List.foldl_cons, ih, hput, List.append_assoc, List.singleton_append]
    rwa [hput, List.append_assoc, List.singleton_append]

end HashMap

end MootMemory
