import MootMemory.BitmapWrites
import MootMemory.EstateVerbs

namespace MootMemory

/-- The declared fields of the adjective column take in the sensitivity whole or not at all. -/
def KeepsSensitivityWhole (substrate : Substrate) : Prop :=
  ∀ slot ∈ substrate.basis, slot.column = .adjective →
    (slot.shift = 6 ∧ slot.width = 6) ∨ slot.shift + slot.width ≤ 6 ∨ 12 ≤ slot.shift

instance (substrate : Substrate) : Decidable (KeepsSensitivityWhole substrate) :=
  inferInstanceAs (Decidable (∀ slot ∈ substrate.basis, _))

/-- The sensitivity field of a drawer's adjective column. -/
def Drawer.tierField (drawer : Drawer) : Bitmap := sensitivityField drawer.bitmaps.adjective

section Fields

variable {substrate : Substrate} {fields : BitmapFields} {value : Bitmap}

@[simp] theorem sensitivityField_writeField (tier : AdjectiveSensitivity) (adjective : Bitmap) :
    sensitivityField (writeField tier.rawValue adjective 6 6) = tier.rawValue := by
  rw [sensitivityField, extractField_writeField (by decide)]
  cases tier <;> decide

theorem sensitivityField_writeField_above {field adjective : Bitmap} {shift width : Nat}
    (h : 12 ≤ shift) :
    sensitivityField (writeField field adjective shift width) = sensitivityField adjective :=
  extractField_writeField_of_disjoint (Or.inl h)

theorem getLsbD_sensitivityField {adjective : Bitmap} {i : Nat} :
    (sensitivityField adjective).getLsbD i = (adjective.getLsbD (6 + i) && decide (i < 6)) :=
  getLsbD_extractField

/-- A state transition leaves the sensitivity alone. -/
theorem sensitivityField_stateWrite (state : Bitmap) :
    sensitivityField (fields.applyWrites [⟨stateSlot, state⟩]).adjective =
      sensitivityField fields.adjective :=
  extractField_writeField_of_disjoint (Or.inr (Nat.le_refl 6))

theorem editableSlots_adjective {slot : FieldSlot}
    (h : slot ∈ editableSlots substrate .adjective) : slot ∈ substrate.basis :=
  (List.mem_filter.mp h).1

/-- An edit of the adjective column keeps the sensitivity, or takes all of it from the value. -/
theorem sensitivityField_edit (hwhole : KeepsSensitivityWhole substrate) :
    sensitivityField (fields.applyWrites
        ((editableSlots substrate .adjective).map (·.write value))).adjective =
      sensitivityField fields.adjective ∨
    sensitivityField (fields.applyWrites
        ((editableSlots substrate .adjective).map (·.write value))).adjective =
      sensitivityField value := by
  have hwrites : (editableSlots substrate .adjective).map (·.write value) =
      (editableSlots substrate .adjective).map fun slot =>
        slot.write ((⟨value, value, value⟩ : BitmapFields).get slot.column) := by
    refine List.map_congr_left fun slot _ => ?_
    cases slot.column <;> rfl
  have hcopy (i : Nat) (hi : i < 64) :=
    @getLsbD_applyWrites_write (editableSlots substrate .adjective) fields ⟨value, value, value⟩
      .adjective i hi
  rw [hwrites]
  by_cases hslot : ∃ slot ∈ editableSlots substrate .adjective,
      slot.column = .adjective ∧ slot.shift = 6 ∧ slot.width = 6
  · obtain ⟨slot, hmem, hcolumn, hshift, hwidth⟩ := hslot
    refine Or.inr (BitVec.eq_of_getLsbD_eq fun i _ => ?_)
    rw [getLsbD_sensitivityField, getLsbD_sensitivityField]
    by_cases hi : i < 6
    · have hcovered : slot.Covers .adjective (6 + i) := ⟨hcolumn, by omega, by omega⟩
      exact congrArg (· && decide (i < 6))
        ((hcopy (6 + i) (by omega)).trans (if_pos ⟨slot, hmem, hcovered⟩))
    · simp [hi]
  · refine Or.inl (BitVec.eq_of_getLsbD_eq fun i _ => ?_)
    rw [getLsbD_sensitivityField, getLsbD_sensitivityField]
    by_cases hi : i < 6
    · refine congrArg (· && decide (i < 6)) ((hcopy (6 + i) (by omega)).trans (if_neg ?_))
      rintro ⟨slot, hmem, hcolumn, hlow, hhigh⟩
      obtain hfield | hbelow | habove := hwhole slot (editableSlots_adjective hmem) hcolumn
      · exact hslot ⟨slot, hmem, hcolumn, hfield⟩
      · omega
      · omega
    · simp [hi]

end Fields

/-- Each row has the sensitivity that the row of its id had, or it is the one row with the tier. -/
def RetieredAt (rowId : String) (tier : Bitmap) (rows rows' : List Drawer) : Prop :=
  ∀ row ∈ rows', (∃ old ∈ rows, old.id = row.id ∧ old.tierField = row.tierField) ∨
    (row.id = rowId ∧ row.tierField = tier)

/-- Each row has the sensitivity that the row of its id had. -/
def SameTiers (rows rows' : List Drawer) : Prop :=
  ∀ row ∈ rows', ∃ old ∈ rows, old.id = row.id ∧ old.tierField = row.tierField

section Rows

variable {rows rows' rows'' : List Drawer} {rowId : String} {tier : Bitmap}

theorem SameTiers.refl : SameTiers rows rows := fun row hrow => ⟨row, hrow, rfl, rfl⟩

theorem SameTiers.retieredAt (h : SameTiers rows rows') : RetieredAt rowId tier rows rows' :=
  fun row hrow => Or.inl (h row hrow)

theorem RetieredAt.trans_same (h : RetieredAt rowId tier rows rows')
    (h' : SameTiers rows' rows'') : RetieredAt rowId tier rows rows'' := by
  intro row hrow
  obtain ⟨mid, hmid, hid, htier⟩ := h' row hrow
  obtain ⟨old, hold, hoid, hotier⟩ | ⟨hmidId, hmidTier⟩ := h mid hmid
  · exact Or.inl ⟨old, hold, hoid.trans hid, hotier.trans htier⟩
  · exact Or.inr ⟨hid ▸ hmidId, htier ▸ hmidTier⟩

theorem SameTiers.update {drawers : KeyedTable Drawer.id} {f : Drawer → Drawer}
    (hf : ∀ d, (f d).id = d.id)
    (hsame : ∀ d ∈ drawers.rows, d.id = rowId → (f d).tierField = d.tierField) :
    SameTiers drawers.rows (drawers.update rowId f hf).rows := by
  intro row hrow
  obtain ⟨old, hold, hid, rfl⟩ | ⟨hrow, -⟩ := KeyedTable.mem_update.mp hrow
  · exact ⟨old, hold, (hf old).symm, (hsame old hold hid).symm⟩
  · exact ⟨row, hrow, rfl, rfl⟩

theorem RetieredAt.update {drawers : KeyedTable Drawer.id} {f : Drawer → Drawer}
    (hf : ∀ d, (f d).id = d.id)
    (htier : ∀ d ∈ drawers.rows, d.id = rowId →
      (f d).tierField = d.tierField ∨ (f d).tierField = tier) :
    RetieredAt rowId tier drawers.rows (drawers.update rowId f hf).rows := by
  intro row hrow
  obtain ⟨old, hold, hid, rfl⟩ | ⟨hrow, -⟩ := KeyedTable.mem_update.mp hrow
  · obtain hkept | hset := htier old hold hid
    · exact Or.inl ⟨old, hold, (hf old).symm, hkept.symm⟩
    · exact Or.inr ⟨(hf old).trans hid, hset⟩
  · exact Or.inl ⟨row, hrow, rfl, rfl⟩

theorem RetieredAt.insert {drawers drawers' : KeyedTable Drawer.id} {drawer : Drawer}
    (h : drawers.insert? drawer = some drawers') :
    RetieredAt drawer.id drawer.tierField drawers.rows drawers'.rows := by
  intro row hrow
  rw [(KeyedTable.insert?_eq_some_iff.mp h).2, List.mem_append, List.mem_singleton] at hrow
  obtain hrow | rfl := hrow
  · exact Or.inl ⟨row, hrow, rfl, rfl⟩
  · exact Or.inr ⟨rfl, rfl⟩

end Rows

namespace DrawerStore

variable {substrate : Substrate} {s : DrawerStore} {now : Int}

theorem refused_tables {α : Type} {r : EStateM.Result LocusKitError DrawerStore α}
    (h : Refused substrate s now r) :
    (stateAfter r).drawers = s.drawers ∧ (stateAfter r).tunnels = s.tunnels := by
  obtain ⟨e, rfl | rfl⟩ := h <;> exact ⟨rfl, rfl⟩

/-- The row an admitted write is about. -/
theorem Admitted.eq_row {row old : Drawer} {verb : RowVerb} {writes : List FieldWrite}
    {anchor : AuditAnchor} {changedBy : String} {event : AuditEvent}
    (h : Admitted substrate s now row verb writes anchor changedBy event)
    (hold : old ∈ s.drawers.rows) (hid : old.id = row.id) : old = row :=
  KeyedTable.eq_of_key_eq hold (KeyedTable.find?_eq_some_iff.mp h.found).1 hid

theorem Admitted.after_eq {row : Drawer} {verb : RowVerb} {writes : List FieldWrite}
    {anchor : AuditAnchor} {changedBy : String} {event : AuditEvent} (hgate : LawfulGate substrate)
    (h : Admitted substrate s now row verb writes anchor changedBy event) :
    event.afterBitmaps = row.bitmaps.applyWrites writes := by
  obtain ⟨rowUuid, -, hok⟩ := h.gate
  exact hgate.after hok

/-- A state transition keeps every sensitivity. -/
theorem Admitted.sameTiers {row : Drawer} {verb : RowVerb} {state : Bitmap}
    {anchor : AuditAnchor} {changedBy : String} {event : AuditEvent} (hgate : LawfulGate substrate)
    (h : Admitted substrate s now row verb [⟨stateSlot, state⟩] anchor changedBy event) :
    SameTiers s.drawers.rows (s.drawers.update row.id
      (·.setAdjective event.afterBitmaps.adjective) fun _ => rfl).rows := by
  refine SameTiers.update (f := (·.setAdjective event.afterBitmaps.adjective)) (fun _ => rfl)
    fun d hd hid => ?_
  rw [h.eq_row hd hid, h.after_eq hgate]
  exact sensitivityField_stateWrite state

theorem mutateState_tables {drawerId changedBy : String} {newState : State} {via : RowVerb}
    {reason : Option String} (hgate : LawfulGate substrate)
    {r : EStateM.Result LocusKitError DrawerStore Unit}
    (h : mutateState substrate drawerId newState via changedBy reason now s = r) :
    SameTiers s.drawers.rows (stateAfter r).drawers.rows ∧ (stateAfter r).tunnels = s.tunnels := by
  obtain hr | ⟨row, event, rfl, hadm, rfl⟩ := mutateState_cases h
  · rw [(refused_tables hr).1]
    exact ⟨.refl, (refused_tables hr).2⟩
  · exact ⟨hadm.sameTiers hgate, rfl⟩

/-- An edit of another column keeps every sensitivity. -/
theorem mutateColumn_tables {c : AuditColumn} {drawerId changedBy : String} {value : Bitmap}
    {reason : Option String} (hcolumn : c ≠ .adjective)
    {r : EStateM.Result LocusKitError DrawerStore Unit}
    (h : mutateColumn substrate c drawerId value changedBy reason now s = r) :
    SameTiers s.drawers.rows (stateAfter r).drawers.rows ∧ (stateAfter r).tunnels = s.tunnels := by
  obtain hr | ⟨row, event, rfl, hadm, rfl⟩ := mutateColumn_cases h
  · rw [(refused_tables hr).1]
    exact ⟨.refl, (refused_tables hr).2⟩
  · refine ⟨SameTiers.update (f := (·.setColumn c (event.afterBitmaps.get c)))
      (fun _ => rfl) fun d _ _ => ?_, rfl⟩
    exact congrArg sensitivityField (BitmapFields.get_set_of_ne (c := .adjective) hcolumn.symm)

/-- An edit of the adjective column gives its row the sensitivity of the value, if it changes it. -/
theorem mutateAdjective_tables {drawerId changedBy : String} {value : Bitmap}
    {reason : Option String} (hgate : LawfulGate substrate)
    (hwhole : KeepsSensitivityWhole substrate)
    {r : EStateM.Result LocusKitError DrawerStore Unit}
    (h : mutateAdjective substrate drawerId value changedBy reason now s = r) :
    (stateAfter r).tunnels = s.tunnels ∧ ((stateAfter r).drawers = s.drawers ∨
      RetieredAt drawerId (sensitivityField value) s.drawers.rows (stateAfter r).drawers.rows ∧
        ∃ row event, row.id = drawerId ∧ Admitted substrate s now row .mutate
          ((editableSlots substrate .adjective).map (·.write value))
          (substrate.udcAnchor row.udcCode) changedBy event) := by
  obtain hr | ⟨row, event, rfl, hadm, rfl⟩ := mutateColumn_cases h
  · exact ⟨(refused_tables hr).2, Or.inl (refused_tables hr).1⟩
  · refine ⟨rfl, Or.inr ⟨RetieredAt.update (f := (·.setAdjective event.afterBitmaps.adjective))
      (fun _ => rfl) fun d hd hid => ?_, row, event, rfl, hadm⟩⟩
    rw [hadm.eq_row hd hid, hadm.after_eq hgate]
    exact sensitivityField_edit hwhole

theorem FlipOutcome.sameTiers {drawer : Drawer} {priorId : String} (hgate : LawfulGate substrate)
    {r : EStateM.Result LocusKitError DrawerStore Unit}
    (h : FlipOutcome substrate s drawer priorId r) :
    SameTiers s.drawers.rows (stateAfter r).drawers.rows := by
  cases h with
  | refused hr => rw [(refused_tables hr).1]; exact .refl
  | flipped hid hadm => subst hid; exact hadm.sameTiers hgate

theorem CascadeOutcome.retieredAt {drawer : Drawer} {priorId : String}
    (hgate : LawfulGate substrate) {r : EStateM.Result LocusKitError DrawerStore Unit}
    (h : CascadeOutcome substrate s drawer priorId r) :
    RetieredAt drawer.id drawer.tierField s.drawers.rows (stateAfter r).drawers.rows := by
  cases h with
  | refused hr => rw [(refused_tables hr).1]; exact SameTiers.refl.retieredAt
  | undone hcaptured =>
    have herased := KeyedTable.erase_of_insert? hcaptured.inserted
    rw [stateAfter_error, withDrawers_drawers, herased]
    exact SameTiers.refl.retieredAt
  | stored hcaptured hflip =>
    exact (RetieredAt.insert hcaptured.inserted).trans_same (hflip.sameTiers hgate)

theorem InsertOutcome.retieredAt {drawer : Drawer} (hgate : LawfulGate substrate)
    {r : EStateM.Result LocusKitError DrawerStore Unit}
    (h : InsertOutcome substrate s drawer now r) :
    RetieredAt drawer.id drawer.tierField s.drawers.rows (stateAfter r).drawers.rows := by
  cases h with
  | refused hr => rw [(refused_tables hr).1]; exact SameTiers.refl.retieredAt
  | captured _ hcaptured => exact .insert hcaptured.inserted
  | cascade _ hcascade => exact hcascade.retieredAt hgate

/-- Adding a drawer gives no other row a new sensitivity. -/
theorem AddOutcome.retieredAt {drawer : Drawer} (hgate : LawfulGate substrate)
    {r : EStateM.Result LocusKitError DrawerStore Unit}
    (h : AddOutcome substrate s drawer now r) :
    RetieredAt drawer.id drawer.tierField s.drawers.rows (stateAfter r).drawers.rows := by
  cases h with
  | invalid => exact SameTiers.refl.retieredAt
  | failed hinsert => exact hinsert.retieredAt hgate
  | added hinsert => exact hinsert.retieredAt hgate

theorem ReanchorOutcome.tables {drawerId : String} {toRoom toWing : Option String}
    {toLattice : Option LatticeAnchor} {changedBy : String} {reason : Option String}
    {minted : MintedIds} {r : EStateM.Result LocusKitError DrawerStore Unit}
    (h : ReanchorOutcome substrate s drawerId toRoom toWing toLattice changedBy reason now minted
      r) :
    SameTiers s.drawers.rows (stateAfter r).drawers.rows ∧ (stateAfter r).tunnels = s.tunnels := by
  cases h with
  | refused hr =>
    rw [(refused_tables hr).1]
    exact ⟨.refl, (refused_tables hr).2⟩
  | failed => exact ⟨.refl, rfl⟩
  | moved =>
    refine ⟨SameTiers.update (Drawer.replace_id _ _) fun d _ _ => ?_, rfl⟩
    rw [Drawer.tierField, Drawer.replace_bitmaps, Drawer.tierField]

end DrawerStore

end MootMemory
