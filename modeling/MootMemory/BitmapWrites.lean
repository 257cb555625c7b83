import MootMemory.DrawerWrites
import MootMemory.GateLaws

namespace MootMemory

@[simp] theorem BitmapFields.get_set (fields : BitmapFields) (column : AuditColumn)
    (value : Bitmap) : (fields.set column value).get column = value := by
  cases column <;> rfl

theorem BitmapFields.get_set_of_ne {fields : BitmapFields} {column c : AuditColumn}
    {value : Bitmap} (h : c ≠ column) : (fields.set column value).get c = fields.get c := by
  cases column <;> cases c <;> first | rfl | exact absurd rfl h

theorem BitmapFields.ext_get {a b : BitmapFields} (h : ∀ c, a.get c = b.get c) : a = b := by
  cases a
  cases b
  simp only [BitmapFields.mk.injEq]
  exact ⟨h .adjective, h .operational, h .provenance⟩

@[simp] theorem FieldSlot.write_slot (slot : FieldSlot) (value : Bitmap) :
    (slot.write value).slot = slot := rfl

theorem BitmapFields.applyWrites_cons (fields : BitmapFields) (w : FieldWrite)
    (ws : List FieldWrite) :
    fields.applyWrites (w :: ws) = (fields.set w.slot.column (writeField w.value
      (fields.get w.slot.column) w.slot.shift w.slot.width)).applyWrites ws := rfl

/-- A column that no write goes into is kept. -/
theorem BitmapFields.get_applyWrites_of_ne {fields : BitmapFields} {writes : List FieldWrite}
    {c : AuditColumn} (h : ∀ w ∈ writes, w.slot.column ≠ c) :
    (fields.applyWrites writes).get c = fields.get c := by
  induction writes generalizing fields with
  | nil => rfl
  | cons w ws ih =>
    rw [applyWrites_cons, ih fun w' hw' => h w' (List.mem_cons_of_mem _ hw')]
    exact get_set_of_ne (h w List.mem_cons_self).symm

/-- Writes into one column give what is written back when only that column is read. -/
theorem BitmapFields.set_get_applyWrites {fields : BitmapFields} {writes : List FieldWrite}
    {column : AuditColumn} (h : ∀ w ∈ writes, w.slot.column = column) :
    fields.set column ((fields.applyWrites writes).get column) = fields.applyWrites writes := by
  refine ext_get fun c => ?_
  rcases eq_or_ne c column with rfl | hc
  · rw [get_set]
  · rw [get_set_of_ne hc, get_applyWrites_of_ne fun w hw => h w hw ▸ hc.symm]

/-- A bit of a column that a slot takes in. -/
def FieldSlot.Covers (slot : FieldSlot) (column : AuditColumn) (i : Nat) : Prop :=
  slot.column = column ∧ slot.shift ≤ i ∧ i < slot.shift + slot.width

instance (slot : FieldSlot) (column : AuditColumn) (i : Nat) : Decidable (slot.Covers column i) :=
  inferInstanceAs (Decidable (_ ∧ _))

theorem getLsbD_set_writeField {fields bitmaps : BitmapFields} {slot : FieldSlot}
    {column : AuditColumn} {i : Nat} (hi : i < 64) :
    ((fields.set slot.column (writeField (slot.write (bitmaps.get slot.column)).value
      (fields.get slot.column) slot.shift slot.width)).get column).getLsbD i =
        if slot.Covers column i then (bitmaps.get column).getLsbD i
        else (fields.get column).getLsbD i := by
  rcases eq_or_ne column slot.column with rfl | hc
  · rw [BitmapFields.get_set, getLsbD_writeField, FieldSlot.write, getLsbD_extractField]
    by_cases h : slot.shift ≤ i ∧ i < slot.shift + slot.width
    · have hwidth : i - slot.shift < slot.width := by omega
      rw [if_pos ⟨h.1, h.2, hi⟩, if_pos ⟨rfl, h.1, h.2⟩, Nat.add_sub_cancel' h.1]
      simp [hwidth]
    · rw [if_neg fun hin => h ⟨hin.1, hin.2.1⟩, if_neg fun hcov => h hcov.2]
  · rw [BitmapFields.get_set_of_ne hc, if_neg fun hcov => hc hcov.1.symm]

/-- Of a bitmap copied slot by slot, the bits arrive that some slot takes in. -/
theorem getLsbD_applyWrites_write {slots : List FieldSlot} {fields bitmaps : BitmapFields}
    {column : AuditColumn} {i : Nat} (hi : i < 64) :
    ((fields.applyWrites (slots.map fun slot => slot.write (bitmaps.get slot.column))).get
      column).getLsbD i =
        if ∃ slot ∈ slots, slot.Covers column i then (bitmaps.get column).getLsbD i
        else (fields.get column).getLsbD i := by
  induction slots generalizing fields with
  | nil => rw [if_neg (by simp)]; rfl
  | cons slot slots ih =>
    rw [List.map_cons, BitmapFields.applyWrites_cons, ih, FieldSlot.write_slot,
      getLsbD_set_writeField hi]
    by_cases hrest : ∃ slot ∈ slots, slot.Covers column i
    · obtain ⟨other, hmem, hcov⟩ := hrest
      rw [if_pos ⟨other, hmem, hcov⟩, if_pos ⟨other, List.mem_cons_of_mem _ hmem, hcov⟩]
    · rw [if_neg hrest]
      by_cases hslot : slot.Covers column i
      · rw [if_pos hslot, if_pos ⟨slot, List.mem_cons_self, hslot⟩]
      · rw [if_neg hslot, if_neg]
        rintro ⟨other, hmem, hcov⟩
        rcases List.mem_cons.mp hmem with rfl | hmem
        · exact hslot hcov
        · exact hrest ⟨other, hmem, hcov⟩

/-- Every bit of the three columns belongs to a field that a capture declares. -/
def Declared (substrate : Substrate) (bitmaps : BitmapFields) : Prop :=
  ∀ column i, (bitmaps.get column).getLsbD i = true →
    ∃ slot ∈ captureSlots substrate, slot.Covers column i

/-- A capture seals the bitmaps of its drawer exactly if every bit of them is declared. -/
theorem applyWrites_captureWrites_iff {substrate : Substrate} {bitmaps : BitmapFields} :
    BitmapFields.zero.applyWrites (captureWrites substrate bitmaps) = bitmaps ↔
      Declared substrate bitmaps := by
  constructor
  · intro h column i hbit
    by_contra hnone
    have hi : i < 64 := by
      by_contra hge
      rw [BitVec.getLsbD_of_ge _ _ (by omega)] at hbit
      cases hbit
    have hcopy := @getLsbD_applyWrites_write (captureSlots substrate) .zero bitmaps column i hi
    rw [if_neg hnone, ← captureWrites, h, hbit] at hcopy
    cases column <;> simp [BitmapFields.zero, BitmapFields.get] at hcopy
  · intro h
    refine BitmapFields.ext_get fun column => BitVec.eq_of_getLsbD_eq fun i hi => ?_
    rw [captureWrites, getLsbD_applyWrites_write hi]
    split
    next => rfl
    next hnone =>
      cases hbit : (bitmaps.get column).getLsbD i with
      | true => exact absurd (h column i hbit) hnone
      | false => cases column <;> simp [BitmapFields.zero, BitmapFields.get]

end MootMemory
