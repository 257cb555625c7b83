import Mathlib.Data.List.Nodup
import Mathlib.Order.Lattice

namespace MootMemory

/-- What is picked out of entries under distinct keys has distinct keys. -/
theorem nodup_map_filterMap {α β κ : Type} {f : α → Option β} {key : α → κ} {key' : β → κ}
    {xs : List α} (hkey : ∀ x y, f x = some y → key' y = key x) (h : (xs.map key).Nodup) :
    ((xs.filterMap f).map key').Nodup := by
  have hsub : ((xs.filterMap f).map key').Sublist (xs.map key) := by
    clear h
    induction xs with
    | nil => exact List.Sublist.refl _
    | cons x xs ih =>
      cases hx : f x with
      | none =>
        rw [List.filterMap_cons_none hx]
        exact ih.cons _
      | some y =>
        rw [List.filterMap_cons_some hx, List.map_cons, hkey x y hx]
        exact ih.cons_cons _
  exact h.sublist hsub

/-- A map as its entries, in the order of their keys' ranks. -/
structure OrderedMap {κ β : Type} [LinearOrder β] (rank : κ → β) (ν : Type) where
  entries : List (κ × ν)
  ordered : entries.Pairwise fun a b => rank a.1 < rank b.1

namespace OrderedMap

variable {κ β ν : Type} [LinearOrder β] {rank : κ → β}

theorem eq_of_entries_eq {m m' : OrderedMap rank ν} (h : m.entries = m'.entries) : m = m' := by
  cases m
  cases m'
  cases h
  rfl

def empty : OrderedMap rank ν := ⟨[], List.Pairwise.nil⟩

def size (m : OrderedMap rank ν) : Nat := m.entries.length

def get? (m : OrderedMap rank ν) (k : κ) : Option ν :=
  (m.entries.find? fun e => rank e.1 = rank k).map (·.2)

def contains (m : OrderedMap rank ν) (k : κ) : Bool := (m.get? k).isSome

def insertEntry (rank : κ → β) (k : κ) (v : ν) : List (κ × ν) → List (κ × ν)
  | [] => [(k, v)]
  | e :: es =>
    if rank e.1 < rank k then e :: insertEntry rank k v es
    else if rank k < rank e.1 then (k, v) :: e :: es
    else (k, v) :: es

theorem mem_insertEntry {k : κ} {v : ν} {es : List (κ × ν)} {e : κ × ν}
    (h : e ∈ insertEntry rank k v es) : e = (k, v) ∨ e ∈ es := by
  induction es with
  | nil => exact Or.inl (List.mem_singleton.mp h)
  | cons e' es ih =>
    rw [insertEntry] at h
    split at h
    next =>
      rcases List.mem_cons.mp h with rfl | h
      · exact Or.inr List.mem_cons_self
      · exact (ih h).imp_right (List.mem_cons_of_mem _)
    next =>
      split at h
      next => exact List.mem_cons.mp h
      next => exact (List.mem_cons.mp h).imp_right (List.mem_cons_of_mem _)

theorem ordered_insertEntry {k : κ} {v : ν} {es : List (κ × ν)}
    (h : es.Pairwise fun a b => rank a.1 < rank b.1) :
    (insertEntry rank k v es).Pairwise fun a b => rank a.1 < rank b.1 := by
  induction es with
  | nil => exact List.pairwise_singleton _ _
  | cons e es ih =>
    obtain ⟨hhead, htail⟩ := List.pairwise_cons.mp h
    rw [insertEntry]
    split
    next hlt =>
      refine List.pairwise_cons.mpr ⟨fun a ha => ?_, ih htail⟩
      rcases mem_insertEntry ha with rfl | ha
      · exact hlt
      · exact hhead a ha
    next hle =>
      split
      next hlt =>
        refine List.pairwise_cons.mpr ⟨fun a ha => ?_, h⟩
        rcases List.mem_cons.mp ha with rfl | ha
        · exact hlt
        · exact lt_trans hlt (hhead a ha)
      next hge =>
        have heq : rank k = rank e.1 := le_antisymm (not_lt.mp hle) (not_lt.mp hge)
        exact List.pairwise_cons.mpr ⟨fun a ha => heq ▸ hhead a ha, htail⟩

/-- Stores the value under the key, in place of the one that stands there. -/
def insert (m : OrderedMap rank ν) (k : κ) (v : ν) : OrderedMap rank ν :=
  ⟨insertEntry rank k v m.entries, ordered_insertEntry m.ordered⟩

/-- One more under the key. -/
def increment (m : OrderedMap rank Nat) (k : κ) : OrderedMap rank Nat :=
  m.insert k ((m.get? k).getD 0 + 1)

variable {m : OrderedMap rank ν} {k : κ} {v : ν}

theorem mem_insert {e : κ × ν} (h : e ∈ (m.insert k v).entries) : e = (k, v) ∨ e ∈ m.entries :=
  mem_insertEntry h

theorem mem_of_get? (h : m.get? k = some v) : ∃ e ∈ m.entries, rank e.1 = rank k ∧ e.2 = v := by
  obtain ⟨e, hfound, rfl⟩ := Option.map_eq_some_iff.mp h
  exact ⟨e, List.mem_of_find?_eq_some hfound, by simpa using List.find?_some hfound, rfl⟩

theorem exists_key_insertEntry (hrank : Function.Injective rank) {es : List (κ × ν)} {k' : κ} :
    (∃ e ∈ insertEntry rank k v es, e.1 = k') ↔ k' = k ∨ ∃ e ∈ es, e.1 = k' := by
  induction es with
  | nil => simp [insertEntry, eq_comm]
  | cons e es ih =>
    rw [insertEntry]
    split
    next =>
      rw [List.exists_mem_cons_iff, ih, List.exists_mem_cons_iff]
      exact or_left_comm
    next hle =>
      split
      next => rw [List.exists_mem_cons_iff, eq_comm]
      next hge =>
        have heq : e.1 = k := hrank (le_antisymm (not_lt.mp hge) (not_lt.mp hle))
        rw [List.exists_mem_cons_iff, List.exists_mem_cons_iff, heq]
        constructor
        · rintro (rfl | h)
          · exact Or.inl rfl
          · exact Or.inr (Or.inr h)
        · rintro (rfl | rfl | h)
          · exact Or.inl rfl
          · exact Or.inl rfl
          · exact Or.inr h

/-- The keys of a map behind an insertion. -/
theorem exists_key_insert (hrank : Function.Injective rank) {k' : κ} :
    (∃ e ∈ (m.insert k v).entries, e.1 = k') ↔ k' = k ∨ ∃ e ∈ m.entries, e.1 = k' :=
  exists_key_insertEntry hrank

/-- A property of all values is kept by storing one more that has it. -/
theorem forall_values_insert {P : ν → Prop} (h : ∀ e ∈ m.entries, P e.2) (hv : P v) :
    ∀ e ∈ (m.insert k v).entries, P e.2 := by
  intro e he
  rcases mem_insert he with rfl | he
  · exact hv
  · exact h e he

/-- A key behind all others goes to the end. -/
theorem entries_insert_last (h : ∀ e ∈ m.entries, rank e.1 < rank k) :
    (m.insert k v).entries = m.entries ++ [(k, v)] := by
  show insertEntry rank k v m.entries = _
  generalize m.entries = es at h ⊢
  induction es with
  | nil => rfl
  | cons e es ih =>
    rw [insertEntry, if_pos (h e List.mem_cons_self),
      ih fun a ha => h a (List.mem_cons_of_mem _ ha)]
    rfl

theorem entries_foldl_insert {es : List (κ × ν)}
    (h : (m.entries ++ es).Pairwise fun a b => rank a.1 < rank b.1) :
    (es.foldl (fun m e => m.insert e.1 e.2) m).entries = m.entries ++ es := by
  induction es generalizing m with
  | nil => simp
  | cons e es ih =>
    have hlast : ∀ a ∈ m.entries, rank a.1 < rank e.1 := fun a ha =>
      (List.pairwise_append.mp h).2.2 a ha e List.mem_cons_self
    have hentries : (m.insert e.1 e.2).entries = m.entries ++ [e] := entries_insert_last hlast
    rw [List.foldl_cons, ih (by rw [hentries]; simpa using h), hentries, List.append_assoc]
    rfl

/-- Storing the entries of a map one after another in an empty one gives the map. -/
theorem foldl_insert_entries : m.entries.foldl (fun m e => m.insert e.1 e.2) empty = m :=
  eq_of_entries_eq (entries_foldl_insert m.ordered)

section Lookup

variable {m' : OrderedMap rank ν} {k' : κ}

/-- No two entries stand at one rank. -/
theorem eq_of_rank_eq {a b : κ × ν} (ha : a ∈ m.entries) (hb : b ∈ m.entries)
    (h : rank a.1 = rank b.1) : a = b :=
  List.Pairwise.forall_of_forall_of_flip (R := fun a b => rank a.1 = rank b.1 → a = b)
    (fun _ _ _ => rfl) (m.ordered.imp fun hlt heq => absurd heq (ne_of_lt hlt))
    (m.ordered.imp fun hlt heq => absurd heq.symm (ne_of_lt hlt)) ha hb h

theorem nodup_keys : (m.entries.map Prod.fst).Nodup := by
  refine List.pairwise_map.mpr (m.ordered.imp fun hlt heq => ?_)
  rw [heq] at hlt
  exact lt_irrefl _ hlt

theorem nodup_entries : m.entries.Nodup := List.Nodup.of_map Prod.fst nodup_keys

variable (hrank : Function.Injective rank)
include hrank

theorem mem_insertEntry_iff {es : List (κ × ν)} (h : es.Pairwise fun a b => rank a.1 < rank b.1)
    {e : κ × ν} : e ∈ insertEntry rank k v es ↔ e = (k, v) ∨ e.1 ≠ k ∧ e ∈ es := by
  induction es with
  | nil => simp [insertEntry]
  | cons a es ih =>
    obtain ⟨hhead, htail⟩ := List.pairwise_cons.mp h
    rw [insertEntry]
    split
    next hlt =>
      have ha : a.1 ≠ k := fun heq => lt_irrefl _ (heq ▸ hlt)
      rw [List.mem_cons, ih htail, List.mem_cons]
      constructor
      · rintro (rfl | rfl | ⟨hne, he⟩)
        · exact Or.inr ⟨ha, Or.inl rfl⟩
        · exact Or.inl rfl
        · exact Or.inr ⟨hne, Or.inr he⟩
      · rintro (rfl | ⟨hne, rfl | he⟩)
        · exact Or.inr (Or.inl rfl)
        · exact Or.inl rfl
        · exact Or.inr (Or.inr ⟨hne, he⟩)
    next hle =>
      split
      next hlt =>
        have hne : ∀ b ∈ a :: es, b.1 ≠ k := by
          intro b hb heq
          rcases List.mem_cons.mp hb with rfl | hb
          · exact lt_irrefl _ (heq ▸ hlt)
          · exact lt_irrefl _ (heq ▸ lt_trans hlt (hhead b hb))
        rw [List.mem_cons]
        exact or_congr_right ⟨fun he => ⟨hne e he, he⟩, fun he => he.2⟩
      next hge =>
        have heq : a.1 = k := hrank (le_antisymm (not_lt.mp hge) (not_lt.mp hle))
        have hne : ∀ b ∈ es, b.1 ≠ k := by
          intro b hb hbk
          have hlt := hhead b hb
          rw [heq, hbk] at hlt
          exact lt_irrefl _ hlt
        rw [List.mem_cons, List.mem_cons]
        refine or_congr_right ⟨fun he => ⟨hne e he, Or.inr he⟩, ?_⟩
        rintro ⟨hek, rfl | he⟩
        · exact absurd heq hek
        · exact he

theorem mem_insert_iff {e : κ × ν} :
    e ∈ (m.insert k v).entries ↔ e = (k, v) ∨ e.1 ≠ k ∧ e ∈ m.entries :=
  mem_insertEntry_iff hrank m.ordered

theorem get?_eq_some_iff : m.get? k = some v ↔ (k, v) ∈ m.entries := by
  constructor
  · intro h
    obtain ⟨e, he, hk, rfl⟩ := mem_of_get? h
    rwa [← hrank hk]
  · intro h
    cases hfind : m.entries.find? fun e => rank e.1 = rank k with
    | none => exact absurd (List.find?_eq_none.mp hfind _ h) (by simp)
    | some e =>
      have hk : rank e.1 = rank k := by simpa using List.find?_some hfind
      have heq : e = (k, v) := eq_of_rank_eq (List.mem_of_find?_eq_some hfind) h hk
      rw [get?, hfind, heq]
      rfl

theorem get?_insert_self : (m.insert k v).get? k = some v :=
  (get?_eq_some_iff hrank).mpr ((mem_insert_iff hrank).mpr (Or.inl rfl))

theorem get?_insert_of_ne (hne : k' ≠ k) : (m.insert k v).get? k' = m.get? k' := by
  refine Option.ext fun w => ?_
  rw [get?_eq_some_iff hrank, get?_eq_some_iff hrank, mem_insert_iff hrank]
  constructor
  · rintro (heq | ⟨_, he⟩)
    · exact absurd (congrArg Prod.fst heq) hne
    · exact he
  · intro he
    exact Or.inr ⟨hne, he⟩

/-- Maps that answer alike are one. -/
theorem ext_get? (h : ∀ k, m.get? k = m'.get? k) : m = m' := by
  refine eq_of_entries_eq ?_
  have hmem : ∀ e, e ∈ m.entries ↔ e ∈ m'.entries := by
    rintro ⟨k, v⟩
    rw [← get?_eq_some_iff hrank, ← get?_eq_some_iff hrank, h k]
  have hperm : m.entries.Perm m'.entries :=
    (List.perm_ext_iff_of_nodup nodup_entries nodup_entries).mpr hmem
  exact hperm.eq_of_pairwise (fun a b _ _ hab hba => absurd hab (lt_asymm hba))
    m.ordered m'.ordered

theorem insert_comm {w : ν} (hne : k ≠ k') :
    (m.insert k v).insert k' w = (m.insert k' w).insert k v := by
  refine ext_get? hrank fun a => ?_
  by_cases ha : a = k
  · rw [ha, get?_insert_of_ne hrank hne, get?_insert_self hrank, get?_insert_self hrank]
  · rw [get?_insert_of_ne hrank ha (m := m.insert k' w)]
    by_cases ha' : a = k'
    · rw [ha', get?_insert_self hrank, get?_insert_self hrank]
    · rw [get?_insert_of_ne hrank ha', get?_insert_of_ne hrank ha', get?_insert_of_ne hrank ha]

/-- A new key makes one more entry. -/
theorem size_insert (hnew : m.get? k = none) : (m.insert k v).size = m.size + 1 := by
  have hkey : ∀ e ∈ m.entries, e.1 ≠ k := by
    rintro e he rfl
    rw [(get?_eq_some_iff hrank).mpr he] at hnew
    cases hnew
  have hfresh : (k, v) ∉ m.entries := fun he => hkey _ he rfl
  have hperm : (m.insert k v).entries.Perm ((k, v) :: m.entries) := by
    refine (List.perm_ext_iff_of_nodup nodup_entries
      (List.nodup_cons.mpr ⟨hfresh, nodup_entries⟩)).mpr fun e => ?_
    rw [mem_insert_iff hrank, List.mem_cons]
    exact or_congr_right ⟨fun he => he.2, fun he => ⟨hkey e he, he⟩⟩
  exact hperm.length_eq

/-- What a map holds after a loop that stored under distinct keys. -/
theorem get?_foldl_insert {α : Type} {key : α → κ} {value : α → ν} {xs : List α}
    (h : (xs.map key).Nodup) :
    (xs.foldl (fun m x => m.insert (key x) (value x)) m).get? k = some v ↔
      (∃ x ∈ xs, key x = k ∧ value x = v) ∨ k ∉ xs.map key ∧ m.get? k = some v := by
  induction xs generalizing m with
  | nil => simp
  | cons x xs ih =>
    rw [List.map_cons, List.nodup_cons] at h
    rw [List.foldl_cons, ih h.2, List.exists_mem_cons_iff, List.map_cons, List.mem_cons, not_or]
    by_cases hk : k = key x
    · rw [hk, get?_insert_self hrank, Option.some.injEq]
      have hlater : ¬∃ y ∈ xs, key y = key x ∧ value y = v := by
        rintro ⟨y, hy, heq, _⟩
        exact h.1 (heq ▸ List.mem_map_of_mem hy)
      simp [h.1, hlater]
    · rw [get?_insert_of_ne hrank hk]
      simp [hk, Ne.symm hk]

theorem increment_comm {m : OrderedMap rank Nat} :
    (m.increment k).increment k' = (m.increment k').increment k := by
  by_cases hk : k = k'
  · rw [hk]
  · rw [increment, increment, increment, increment, get?_insert_of_ne hrank (Ne.symm hk),
      get?_insert_of_ne hrank hk, insert_comm hrank hk]

end Lookup

end OrderedMap

end MootMemory
