import MootMemory.DrawerEffects

namespace MootMemory

namespace DrawerStore

variable {substrate : Substrate} {s : DrawerStore}

theorem requireUuid_eq_ok {text label : String} {rowUuid : Uuid}
    (h : requireUuid substrate text label = .ok rowUuid) :
    substrate.parseUuid text = some rowUuid := by
  rw [requireUuid] at h
  split at h
  next uuid huuid => cases h; exact huuid
  next => cases h

theorem validateNonEmpty_eq_ok {value label : String} {u : Unit} :
    validateNonEmpty value label = .ok u ↔ value ≠ "" := by
  rw [validateNonEmpty]
  split
  next h => exact ⟨fun hno => (nomatch hno), fun hne => absurd h hne⟩
  next h => exact ⟨fun _ => h, fun _ => rfl⟩

theorem Refused.here {α : Type} {now : Int} (e : LocusKitError) :
    Refused substrate s now (.error e s : EStateM.Result LocusKitError DrawerStore α) :=
  ⟨e, Or.inl rfl⟩

theorem Refused.ticked {α : Type} {now : Int} (e : LocusKitError) :
    Refused substrate s now
      (.error e (s.ticked substrate now) : EStateM.Result LocusKitError DrawerStore α) :=
  ⟨e, Or.inr rfl⟩

/-- What a column edit can do: nothing, or one admitted write. -/
theorem gatedColumnWrite_cases {drawerId changedBy : String} {column : AuditColumn}
    {value : Bitmap} {reason : Option String} {now : Int}
    {r : EStateM.Result LocusKitError DrawerStore Unit}
    (h : gatedColumnWrite substrate drawerId column value changedBy reason now s = r) :
    Refused substrate s now r ∨ ∃ row event, row.id = drawerId ∧
      Admitted substrate s now row .mutate ((editableSlots substrate column).map (·.write value))
        (substrate.udcAnchor row.udcCode) changedBy event ∧
      r = .ok () (((s.ticked substrate now).rewritten drawerId
        (·.setColumn column (event.afterBitmaps.get column)) fun _ => rfl).logged
          (event.withReason reason)) := by
  rw [gatedColumnWrite] at h
  obtain ⟨e, -, hr⟩ | ⟨rowUuid, huuid, h⟩ := ofExcept_bind_cases h
  · exact Or.inl (hr ▸ .here e)
  obtain ⟨-, hr⟩ | ⟨row, hfind, hid, h⟩ := readDrawer_bind_cases h
  · exact Or.inl (hr ▸ .here _)
  change (admitWrite substrate _ _ now >>= _) s = r at h
  obtain ⟨violation, -, hr⟩ | ⟨event, hadm, h⟩ := admitWrite_bind_cases h
  · exact Or.inl (hr ▸ .ticked _)
  refine Or.inr ⟨row, event, hid, ⟨hid ▸ hfind, rowUuid, ?_, hadm⟩, h.symm⟩
  rw [hid]
  exact requireUuid_eq_ok huuid

/-- An edit checks its arguments first. -/
theorem mutateColumn_cases {drawerId changedBy : String} {column : AuditColumn} {value : Bitmap}
    {reason : Option String} {now : Int} {r : EStateM.Result LocusKitError DrawerStore Unit}
    (h : mutateColumn substrate column drawerId value changedBy reason now s = r) :
    Refused substrate s now r ∨ ∃ row event, row.id = drawerId ∧
      Admitted substrate s now row .mutate ((editableSlots substrate column).map (·.write value))
        (substrate.udcAnchor row.udcCode) changedBy event ∧
      r = .ok () (((s.ticked substrate now).rewritten drawerId
        (·.setColumn column (event.afterBitmaps.get column)) fun _ => rfl).logged
          (event.withReason reason)) := by
  rw [mutateColumn] at h
  obtain ⟨e, -, hr⟩ | ⟨_, -, h⟩ := ofExcept_bind_cases h
  · exact Or.inl (hr ▸ .here e)
  obtain ⟨e, -, hr⟩ | ⟨_, -, h⟩ := ofExcept_bind_cases h
  · exact Or.inl (hr ▸ .here e)
  exact gatedColumnWrite_cases h

/-- What a state transition can do: nothing, or one admitted write. -/
theorem mutateState_cases {drawerId changedBy : String} {newState : State} {via : RowVerb}
    {reason : Option String} {now : Int} {r : EStateM.Result LocusKitError DrawerStore Unit}
    (h : mutateState substrate drawerId newState via changedBy reason now s = r) :
    Refused substrate s now r ∨ ∃ row event, row.id = drawerId ∧
      Admitted substrate s now row via [⟨stateSlot, newState.rawValue⟩]
        (substrate.udcAnchor row.udcCode) changedBy event ∧
      r = .ok () (((s.ticked substrate now).rewritten drawerId
        (·.setAdjective event.afterBitmaps.adjective) fun _ => rfl).logged
          (event.withReason reason)) := by
  rw [mutateState] at h
  obtain ⟨e, -, hr⟩ | ⟨_, -, h⟩ := ofExcept_bind_cases h
  · exact Or.inl (hr ▸ .here e)
  obtain ⟨e, -, hr⟩ | ⟨_, -, h⟩ := ofExcept_bind_cases h
  · exact Or.inl (hr ▸ .here e)
  obtain ⟨-, hr⟩ | ⟨row, hfind, hid, h⟩ := readDrawer_bind_cases h
  · exact Or.inl (hr ▸ .here _)
  obtain ⟨e, -, hr⟩ | ⟨rowUuid, huuid, h⟩ := ofExcept_bind_cases h
  · exact Or.inl (hr ▸ .here e)
  change (admitWrite substrate _ _ now >>= _) s = r at h
  obtain ⟨violation, -, hr⟩ | ⟨event, hadm, h⟩ := admitWrite_bind_cases h
  · exact Or.inl (hr ▸ .ticked _)
  refine Or.inr ⟨row, event, hid, ⟨hid ▸ hfind, rowUuid, ?_, hadm⟩, h.symm⟩
  rw [hid]
  exact requireUuid_eq_ok huuid

/-- A transition that the gate admits is carried out. -/
theorem mutateState_eq_ok {row : Drawer} {changedBy : String} {newState : State} {via : RowVerb}
    {reason : Option String} {now : Int} {event : AuditEvent} (hid : row.id ≠ "")
    (hby : changedBy ≠ "")
    (h : Admitted substrate s now row via [⟨stateSlot, newState.rawValue⟩]
      (substrate.udcAnchor row.udcCode) changedBy event) :
    mutateState substrate row.id newState via changedBy reason now s =
      .ok () (((s.ticked substrate now).rewritten row.id
        (·.setAdjective event.afterBitmaps.adjective) fun _ => rfl).logged
          (event.withReason reason)) := by
  obtain ⟨rowUuid, hparse, hadm⟩ := h.gate
  rw [nextStamp] at hadm
  have hidOk : validateNonEmpty row.id "drawerId" = .ok () := validateNonEmpty_eq_ok.mpr hid
  have hbyOk : validateNonEmpty changedBy "changedBy" = .ok () := validateNonEmpty_eq_ok.mpr hby
  have huuid : requireUuid substrate row.id "drawerId" = .ok rowUuid := by rw [requireUuid, hparse]
  simp only [mutateState, hidOk, hbyOk, huuid, StoreM.ofExcept, readDrawer, h.found, admitWrite,
    sendStamp, hadm, bind, EStateM.bind, pure, EStateM.pure, get_eq, modify_eq]
  rfl

/-- What a capture can do: nothing, or one admitted insertion. -/
theorem gatedCapture_cases {drawer : Drawer} {now : Int}
    {r : EStateM.Result LocusKitError DrawerStore Unit}
    (h : gatedCapture substrate drawer now s = r) :
    Refused substrate s now r ∨ ∃ drawers event, Captured substrate s now drawer drawers event ∧
      r = .ok () (((s.ticked substrate now).withDrawers drawers).logged event) := by
  rw [gatedCapture] at h
  obtain ⟨e, -, hr⟩ | ⟨rowUuid, huuid, h⟩ := ofExcept_bind_cases h
  · exact Or.inl (hr ▸ .here e)
  change (admitWrite substrate _ _ now >>= _) s = r at h
  obtain ⟨violation, -, hr⟩ | ⟨event, hadm, h⟩ := admitWrite_bind_cases h
  · exact Or.inl (hr ▸ .ticked _)
  change (insertDrawer drawer >>= _) (s.ticked substrate now) = r at h
  cases hinsert : s.drawers.insert? drawer with
  | none =>
    simp only [insertDrawer, bind, EStateM.bind, get_eq,
      ticked_drawers, hinsert] at h
    exact Or.inl (h ▸ .ticked _)
  | some drawers =>
    simp only [insertDrawer, bind, EStateM.bind, get_eq,
      ticked_drawers, hinsert] at h
    exact Or.inr ⟨drawers, event, ⟨hinsert, rowUuid, requireUuid_eq_ok huuid, hadm⟩, h.symm⟩

end DrawerStore

end MootMemory
