import Mathlib.Data.Finset.Image

namespace MootMemory

/-- The rows of a table with a primary key; what order they are stored in is not looked at. -/
structure RowSet {α κ : Type} (key : α → κ) where
  rows : Finset α
  unique : ∀ a ∈ rows, ∀ b ∈ rows, key a = key b → a = b
deriving DecidableEq

namespace RowSet

variable {α κ : Type} {key : α → κ} {table other : RowSet key} {a b row : α}

@[ext] theorem ext (h : ∀ a, a ∈ table.rows ↔ a ∈ other.rows) : table = other := by
  cases table
  cases other
  congr 1
  exact Finset.ext h

def empty : RowSet key := ⟨∅, fun _ ha => absurd ha (Finset.notMem_empty _)⟩

@[simp] theorem rows_empty : (empty : RowSet key).rows = ∅ := rfl

def deleteWhere (table : RowSet key) (p : α → Bool) : RowSet key where
  rows := table.rows.filter fun a => p a = false
  unique a ha b hb h :=
    table.unique a (Finset.mem_filter.mp ha).1 b (Finset.mem_filter.mp hb).1 h

@[simp] theorem mem_deleteWhere {p : α → Bool} :
    a ∈ (table.deleteWhere p).rows ↔ a ∈ table.rows ∧ p a = false := Finset.mem_filter

variable [DecidableEq α] [DecidableEq κ]

/-- The rows of the second table, and those of the first under other keys. -/
def overwrite (table other : RowSet key) : RowSet key where
  rows := other.rows ∪ table.rows.filter fun a => key a ∉ other.rows.image key
  unique a ha b hb h := by
    have hside {c : α} (hc : c ∈ other.rows ∪ table.rows.filter fun a => key a ∉ other.rows.image key) :
        c ∈ other.rows ∨ (c ∈ table.rows ∧ key c ∉ other.rows.image key) := by
      rw [Finset.mem_union, Finset.mem_filter] at hc
      exact hc
    rcases hside ha with ha | ⟨ha, hfree⟩ <;> rcases hside hb with hb | ⟨hb, hfree'⟩
    · exact other.unique a ha b hb h
    · exact absurd (h ▸ Finset.mem_image_of_mem key ha) hfree'
    · exact absurd (h ▸ Finset.mem_image_of_mem key hb) hfree
    · exact table.unique a ha b hb h

theorem mem_overwrite : a ∈ (table.overwrite other).rows ↔
    a ∈ other.rows ∨ (a ∈ table.rows ∧ ∀ b ∈ other.rows, key b ≠ key a) := by
  rw [overwrite, Finset.mem_union, Finset.mem_filter, Finset.mem_image]
  simp only [not_exists, not_and]

/-- The row takes the place of the one under its key. -/
def replace (table : RowSet key) (row : α) : RowSet key where
  rows := insert row (table.rows.filter fun a => key a ≠ key row)
  unique a ha b hb h := by
    rw [Finset.mem_insert, Finset.mem_filter] at ha hb
    rcases ha with rfl | ⟨ha, hfree⟩ <;> rcases hb with rfl | ⟨hb, hfree'⟩
    · rfl
    · exact absurd h.symm hfree'
    · exact absurd h hfree
    · exact table.unique a ha b hb h

theorem mem_replace : a ∈ (table.replace row).rows ↔
    a = row ∨ (a ∈ table.rows ∧ key a ≠ key row) := by
  rw [replace, Finset.mem_insert, Finset.mem_filter]

def replaceAll (table : RowSet key) (rows : List α) : RowSet key := rows.foldl replace table

theorem of_mem_replaceAll {rows : List α} (h : a ∈ (table.replaceAll rows).rows) :
    a ∈ rows ∨ a ∈ table.rows := by
  induction rows generalizing table with
  | nil => exact Or.inr h
  | cons row rows ih =>
    rcases ih h with h | h
    · exact Or.inl (List.mem_cons_of_mem _ h)
    · rcases mem_replace.mp h with rfl | ⟨h, -⟩
      · exact Or.inl List.mem_cons_self
      · exact Or.inr h

/-- A key that a table has is not lost by writes over it. -/
theorem exists_key_overwrite {k : κ} (h : (∃ a ∈ table.rows, key a = k) ∨ ∃ a ∈ other.rows, key a = k) :
    ∃ a ∈ (table.overwrite other).rows, key a = k := by
  by_cases hother : ∃ a ∈ other.rows, key a = k
  · obtain ⟨a, ha, hk⟩ := hother
    exact ⟨a, mem_overwrite.mpr (Or.inl ha), hk⟩
  · obtain ⟨a, ha, rfl⟩ := h.resolve_right hother
    push Not at hother
    exact ⟨a, mem_overwrite.mpr (Or.inr ⟨ha, hother⟩), rfl⟩

theorem exists_key_replaceAll {rows : List α} {k : κ}
    (h : (∃ a ∈ table.rows, key a = k) ∨ ∃ a ∈ rows, key a = k) :
    ∃ a ∈ (table.replaceAll rows).rows, key a = k := by
  induction rows generalizing table with
  | nil => exact h.resolve_right fun ⟨a, ha, _⟩ => absurd ha List.not_mem_nil
  | cons row rows ih =>
    apply @ih (table.replace row)
    by_cases hrow : key row = k
    · exact Or.inl ⟨row, mem_replace.mpr (Or.inl rfl), hrow⟩
    · rcases h with ⟨a, ha, rfl⟩ | ⟨a, ha, hk⟩
      · exact Or.inl ⟨a, mem_replace.mpr (Or.inr ⟨ha, Ne.symm hrow⟩), rfl⟩
      · rcases List.mem_cons.mp ha with rfl | ha
        · exact absurd hk hrow
        · exact Or.inr ⟨a, ha, hk⟩

/-- Where rows of one key are one row, their order does not matter. -/
theorem mem_replaceAll {rows : List α} (h : ∀ a ∈ rows, ∀ b ∈ rows, key a = key b → a = b) :
    a ∈ (table.replaceAll rows).rows ↔
      a ∈ rows ∨ (a ∈ table.rows ∧ ∀ b ∈ rows, key b ≠ key a) := by
  induction rows generalizing table with
  | nil => simp [replaceAll]
  | cons row rows ih =>
    have hrest := @ih (table.replace row) fun a ha b hb =>
      h a (List.mem_cons_of_mem _ ha) b (List.mem_cons_of_mem _ hb)
    rw [replaceAll, List.foldl_cons]
    rw [replaceAll] at hrest
    rw [hrest, mem_replace, List.forall_mem_cons, List.mem_cons]
    constructor
    · rintro (ha | ⟨rfl | ⟨ha, hne⟩, hfree⟩)
      · exact Or.inl (Or.inr ha)
      · exact Or.inl (Or.inl rfl)
      · exact Or.inr ⟨ha, hne.symm, hfree⟩
    · rintro ((rfl | ha) | ⟨ha, hne, hfree⟩)
      · by_cases hmem : ∃ b ∈ rows, key b = key a
        · obtain ⟨b, hb, hkey⟩ := hmem
          rw [← h b (List.mem_cons_of_mem _ hb) a List.mem_cons_self hkey]
          exact Or.inl hb
        · push Not at hmem
          exact Or.inr ⟨Or.inl rfl, hmem⟩
      · exact Or.inl ha
      · exact Or.inr ⟨Or.inr ⟨ha, hne.symm⟩, hfree⟩

section Consistent

variable {p : α → Prop}

/-- Where all rows tell what their keys do, rows written over others are added to them. -/
theorem mem_overwrite_of_consistent (hp : ∀ a b, p a → p b → key a = key b → a = b)
    (htable : ∀ a ∈ table.rows, p a) (hother : ∀ a ∈ other.rows, p a) :
    a ∈ (table.overwrite other).rows ↔ a ∈ table.rows ∨ a ∈ other.rows := by
  rw [mem_overwrite]
  constructor
  · rintro (ha | ⟨ha, -⟩)
    · exact Or.inr ha
    · exact Or.inl ha
  · rintro (ha | ha)
    · by_cases hmem : ∃ b ∈ other.rows, key b = key a
      · obtain ⟨b, hb, hkey⟩ := hmem
        rw [← hp b a (hother b hb) (htable a ha) hkey]
        exact Or.inl hb
      · push Not at hmem
        exact Or.inr ⟨ha, hmem⟩
    · exact Or.inl ha

theorem mem_replaceAll_of_consistent {rows : List α}
    (hp : ∀ a b, p a → p b → key a = key b → a = b) (htable : ∀ a ∈ table.rows, p a)
    (hrows : ∀ a ∈ rows, p a) :
    a ∈ (table.replaceAll rows).rows ↔ a ∈ table.rows ∨ a ∈ rows := by
  rw [mem_replaceAll fun a ha b hb => hp a b (hrows a ha) (hrows b hb)]
  constructor
  · rintro (ha | ⟨ha, -⟩)
    · exact Or.inr ha
    · exact Or.inl ha
  · rintro (ha | ha)
    · by_cases hmem : ∃ b ∈ rows, key b = key a
      · obtain ⟨b, hb, hkey⟩ := hmem
        rw [← hp b a (hrows b hb) (htable a ha) hkey]
        exact Or.inl hb
      · push Not at hmem
        exact Or.inr ⟨ha, hmem⟩
    · exact Or.inl ha

end Consistent

end RowSet

end MootMemory
