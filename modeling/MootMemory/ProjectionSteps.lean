import MootMemory.AuditHistory
import MootMemory.AuditStamps

namespace MootMemory

/-- The basis of the outside library declares fields of the adjective column. -/
def AdjectiveBasis (substrate : Substrate) : Prop :=
  ∀ slot ∈ substrate.basis, slot.column = .adjective

theorem adjectiveBasis_referenceSubstrate : AdjectiveBasis referenceSubstrate := by
  rw [AdjectiveBasis]
  decide

theorem editableSlots_column {substrate : Substrate} (hbasis : AdjectiveBasis substrate)
    {column : AuditColumn} {slot : FieldSlot} (h : slot ∈ editableSlots substrate column) :
    slot.column = column := by
  cases column with
  | adjective => exact hbasis slot (List.mem_filter.mp h).1
  | operational => simpa using (List.mem_filter.mp h).2
  | provenance => simpa using (List.mem_filter.mp h).2

theorem expungeWrites_column {adjective : Bitmap} {w : FieldWrite}
    (h : w ∈ expungeWrites adjective) : w.slot.column = .adjective := by
  rcases List.mem_pair.mp h with rfl | rfl <;> rfl

namespace DrawerStore

section Steps

variable {substrate : Substrate} {s : DrawerStore} {now : Int} {log : List AuditEvent}
  (hgate : LawfulGate substrate)

include hgate

/-- An admitted write, put into the row whole. -/
theorem Admitted.projected {row : Drawer} {verb : RowVerb} {writes : List FieldWrite}
    {anchor : AuditAnchor} {changedBy : String} {event : AuditEvent}
    (hadm : Admitted substrate s now row verb writes anchor changedBy event)
    (h : Projected substrate s.drawers log) (hsettled : QidSettled substrate log row)
    (f : Drawer → Drawer) (hf : ∀ d, (f d).id = d.id) (reason : Option String)
    (hbitmaps : (f row).bitmaps = row.bitmaps.applyWrites writes)
    (hanchor : anchor = substrate.udcAnchor (f row).udcCode) :
    Projected substrate (s.drawers.update row.id f hf) (log ++ [event.withReason reason]) := by
  obtain ⟨rowUuid, hparse, hok⟩ := hadm.gate
  refine h.write hadm.found ?_ ?_ ?_ hsettled f hf ?_ ?_
  · rw [hparse]; exact congrArg some (hgate.rowId hok).symm
  · exact hgate.before hok
  · exact hgate.beforeAnchor hok
  · rw [hbitmaps]; exact (hgate.after hok).symm
  · rw [← hanchor]; exact hgate.afterAnchor hok

/-- An admitted write into one column, of which only that column is stored. -/
theorem Admitted.projectedColumn {row : Drawer} {verb : RowVerb} {writes : List FieldWrite}
    {changedBy : String} {event : AuditEvent}
    (hadm : Admitted substrate s now row verb writes (substrate.udcAnchor row.udcCode) changedBy
      event)
    (h : Projected substrate s.drawers log) (hsettled : QidSettled substrate log row)
    (column : AuditColumn) (hcolumn : ∀ w ∈ writes, w.slot.column = column)
    (f : Drawer → Drawer) (hf : ∀ d, (f d).id = d.id) (reason : Option String)
    (hbitmaps : (f row).bitmaps = row.bitmaps.set column (event.afterBitmaps.get column))
    (hudc : (f row).udcCode = row.udcCode) :
    Projected substrate (s.drawers.update row.id f hf) (log ++ [event.withReason reason]) := by
  obtain ⟨rowUuid, hparse, hok⟩ := hadm.gate
  refine hadm.projected hgate h hsettled f hf reason ?_ (by rw [hudc])
  rw [hbitmaps, hgate.after hok]
  exact BitmapFields.set_get_applyWrites hcolumn

theorem Captured.projected {drawer : Drawer} {drawers : KeyedTable Drawer.id} {event : AuditEvent}
    (hcaptured : Captured substrate s now drawer drawers event)
    (h : Projected substrate s.drawers log) (hdeclared : Declared substrate drawer.bitmaps)
    (hfree : ∀ row ∈ s.drawers.rows, substrate.parseUuid row.id ≠ substrate.parseUuid drawer.id) :
    Projected substrate drawers (log ++ [event]) := by
  obtain ⟨rowUuid, hparse, hok⟩ := hcaptured.gate
  refine h.insert (KeyedTable.insert?_eq_some_iff.mp hcaptured.inserted).2 hfree ?_ ?_ ?_
  · rw [hparse]; exact congrArg some (hgate.rowId hok).symm
  · rw [hgate.after hok]; exact (applyWrites_captureWrites_iff.mpr hdeclared).symm
  · exact hgate.afterAnchor hok

theorem FlipOutcome.projected {drawer : Drawer} {priorId : String} {s' : DrawerStore}
    (hflip : FlipOutcome substrate s drawer priorId (.ok () s'))
    (h : Projected substrate s.drawers s.auditLog)
    (hsettled : ∀ row ∈ s.drawers.rows, row.id = priorId → QidSettled substrate s.auditLog row) :
    Projected substrate s'.drawers s'.auditLog := by
  cases hflip with
  | refused hr => exact hr.not_ok.elim
  | @flipped row event hid hadm =>
    subst hid
    have hmem := (KeyedTable.find?_eq_some_iff.mp hadm.found).1
    exact hadm.projectedColumn hgate h (hsettled row hmem rfl) .adjective
      (fun w hw => by rw [List.mem_singleton.mp hw]; rfl)
      (·.setAdjective event.afterBitmaps.adjective) (fun _ => rfl) _ rfl rfl

theorem InsertOutcome.projected {drawer : Drawer} {s' : DrawerStore}
    (hinsert : InsertOutcome substrate s drawer now (.ok () s'))
    (h : Projected substrate s.drawers s.auditLog) (hdeclared : Declared substrate drawer.bitmaps)
    (hfree : ∀ row ∈ s.drawers.rows, substrate.parseUuid row.id ≠ substrate.parseUuid drawer.id)
    (hsettled : ∀ row ∈ s.drawers.rows,
      s.findActivePredecessor drawer.lineageId drawer.id = some row.id →
        QidSettled substrate s.auditLog row) :
    Projected substrate s'.drawers s'.auditLog := by
  cases hinsert with
  | refused hr => exact hr.not_ok.elim
  | captured _ hcaptured => exact hcaptured.projected hgate h hdeclared hfree
  | @cascade priorId _ hprior hcascade =>
    cases hcascade with
    | refused hr => exact hr.not_ok.elim
    | @stored drawers event tunnels _ hcaptured hflip =>
      have hstored := hcaptured.projected hgate h hdeclared hfree
      refine hflip.projected hgate hstored fun row hrow hid => ?_
      have hrows := (KeyedTable.insert?_eq_some_iff.mp hcaptured.inserted).2
      have hrow' : row ∈ drawers.rows := hrow
      rw [hrows, List.mem_append, List.mem_singleton] at hrow'
      rcases hrow' with hold | rfl
      · exact (hsettled row hold (hid ▸ hprior)).mono (List.sublist_append_left _ _)
      · obtain ⟨_, -, -, -, hne, -⟩ := findActivePredecessor_eq_some hprior
        exact absurd hid.symm hne

omit hgate in
/-- A row that the gate lets be scrubbed was not kept back. -/
theorem Scrubbable.settled {row : Drawer} {changedBy : String} {event : AuditEvent}
    (hadm : Scrubbable substrate s now row changedBy event)
    (hstate : row.stateRaw ≠ State.tombstoned.rawValue)
    (h : QidSettled substrate log row ∨ KeptBack substrate s changedBy row) :
    QidSettled substrate log row := by
  obtain ⟨rowUuid, -, hok⟩ := hadm.gate
  rcases h with hsettled | hkept | hkept
  · exact hsettled
  · exact absurd hkept hstate
  · exact absurd hok (hkept _ _ _)

section Siblings

variable {s' : DrawerStore} {headId changedBy : String} {headStamp : Hlc} {head : AuditEvent}

/-- A member of the lineage is scrubbed while the event of the head is still to be sealed. -/
theorem SiblingOutcome.projected {siblingId : String}
    (hsibling : SiblingOutcome substrate headId changedBy now true headStamp s siblingId (.ok () s'))
    (h : Projected substrate s.drawers (s.auditLog ++ [head]))
    (hhead : substrate.parseUuid headId = some head.rowId) (hne : siblingId ≠ headId)
    (hmem : headId ∈ s.drawers.rows.map Drawer.id)
    (hsettled : ∀ row ∈ s.drawers.rows, row.id = siblingId →
      QidSettled substrate (s.auditLog ++ [head]) row ∨ KeptBack substrate s changedBy row) :
    Projected substrate s'.drawers (s'.auditLog ++ [head]) := by
  cases hsibling with
  | missing => exact h
  | cleared => exact h.silent (·.clearContent) (fun _ => rfl) (fun _ => rfl) (fun _ => rfl) fun _ => rfl
  | kept => exact h
  | @scrubbed row event hid hstate hadm =>
    subst hid
    have hrow := (KeyedTable.find?_eq_some_iff.mp hadm.found).1
    obtain ⟨rowUuid, hparse, hok⟩ := hadm.gate
    have hprojected := hadm.projectedColumn hgate h (hadm.settled hstate (hsettled row hrow rfl))
      .adjective (fun w hw => expungeWrites_column hw)
      (·.scrub event.afterBitmaps.adjective now) (fun _ => rfl) (cascadeExpungeReason headId) rfl rfl
    refine hprojected.congr fun u => eventsOf_swap ?_
    intro heq
    have hsame : event.rowId = head.rowId := heq
    have hrowUuid : substrate.parseUuid row.id = some head.rowId := by
      rw [hparse, ← hsame]; exact congrArg some (hgate.rowId hok).symm
    exact hne (h.apart _ (List.mem_map_of_mem hrow) _ hmem _ hrowUuid hhead)

omit hgate in
/-- The members still to come are settled as before. -/
theorem SiblingOutcome.settled {siblingId : String} {ids : List String}
    (hsibling : SiblingOutcome substrate headId changedBy now true headStamp s siblingId (.ok () s'))
    (hsettled : ∀ row ∈ s.drawers.rows, row.id ∈ siblingId :: ids →
      QidSettled substrate (s.auditLog ++ [head]) row ∨ KeptBack substrate s changedBy row) :
    ∀ row ∈ s'.drawers.rows, row.id ∈ ids →
      QidSettled substrate (s'.auditLog ++ [head]) row ∨ KeptBack substrate s' changedBy row := by
  intro row' hrow' hid'
  have hcons := List.mem_cons_of_mem siblingId hid'
  cases hsibling with
  | missing => exact hsettled row' hrow' hcons
  | cleared =>
    rcases mem_rewritten.mp hrow' with ⟨old, hold, -, rfl⟩ | ⟨hold, -⟩
    · exact (hsettled old hold hcons).imp (·.transfer rfl rfl rfl) (·.transfer rfl rfl rfl)
    · exact (hsettled row' hold hcons).imp_right (·.transfer rfl rfl rfl)
  | kept => exact (hsettled row' hrow' hcons).imp_right (·.transfer rfl rfl rfl)
  | @scrubbed row event hid hstate hadm =>
    have hgrow : (s.auditLog ++ [head]).Sublist
        (s.auditLog ++ [event.withReason (cascadeExpungeReason headId)] ++ [head]) :=
      (List.sublist_append_left _ _).append_right _
    rcases mem_rewritten.mp hrow' with ⟨old, hold, hkey, rfl⟩ | ⟨hold, -⟩
    · have heq : old = row := KeyedTable.eq_of_key_eq hold
        (KeyedTable.find?_eq_some_iff.mp hadm.found).1 (hkey.trans hid.symm)
      have hrow := hadm.settled hstate (hsettled row (heq ▸ hold) (heq ▸ hcons))
      rw [heq]
      exact Or.inl ((hrow.mono hgrow).transfer rfl rfl rfl)
    · exact (hsettled row' hold hcons).imp (·.mono hgrow) (·.transfer rfl rfl rfl)

omit hgate in
/-- No row leaves the table. -/
theorem SiblingOutcome.ids_eq {siblingId : String}
    (hsibling : SiblingOutcome substrate headId changedBy now true headStamp s siblingId
      (.ok () s')) : s'.drawers.rows.map Drawer.id = s.drawers.rows.map Drawer.id := by
  cases hsibling with
  | missing => rfl
  | cleared => exact KeyedTable.map_key_rewrite fun _ => rfl
  | kept => rfl
  | scrubbed => exact KeyedTable.map_key_rewrite fun _ => rfl

theorem SiblingsRun.projected {ids : List String}
    (hrun : SiblingsRun substrate headId changedBy now true headStamp s ids (.ok () s'))
    (h : Projected substrate s.drawers (s.auditLog ++ [head]))
    (hhead : substrate.parseUuid headId = some head.rowId) (hne : headId ∉ ids)
    (hmem : headId ∈ s.drawers.rows.map Drawer.id)
    (hsettled : ∀ row ∈ s.drawers.rows, row.id ∈ ids →
      QidSettled substrate (s.auditLog ++ [head]) row ∨ KeptBack substrate s changedBy row) :
    Projected substrate s'.drawers (s'.auditLog ++ [head]) := by
  induction ids generalizing s with
  | nil => cases hrun; exact h
  | cons x xs ih =>
    rw [List.mem_cons, not_or] at hne
    cases hrun with
    | next hsibling hrest =>
      refine ih hrest (hsibling.projected hgate h hhead (Ne.symm hne.1) hmem fun row hrow hid => ?_)
        hne.2 (hsibling.ids_eq ▸ hmem) (hsibling.settled hsettled)
      exact hsettled row hrow (hid ▸ List.mem_cons_self)

end Siblings

theorem ExpungeOutcome.projected {drawerId changedBy : String} {reason : Option String}
    {event : AuditEvent} {s' : DrawerStore}
    (hexpunge : ExpungeOutcome substrate s drawerId changedBy reason now true (.ok event s'))
    (h : Projected substrate s.drawers s.auditLog)
    (hsettled : ∀ row ∈ s.drawers.rows, row.id ∈ s.lineageChain drawerId →
      QidSettled substrate s.auditLog row ∨ row.id ≠ drawerId ∧ KeptBack substrate s changedBy row) :
    Projected substrate s'.drawers s'.auditLog := by
  cases hexpunge with
  | refused hr => exact hr.not_ok.elim
  | @done row event s' hid hadm hrun =>
    subst hid
    have hrow := (KeyedTable.find?_eq_some_iff.mp hadm.found).1
    obtain ⟨rowUuid, hparse, hok⟩ := hadm.gate
    have hchain : row.id ∈ s.lineageChain row.id := by
      rw [lineageChain, hadm.found]
      exact List.mem_map_of_mem (List.mem_filter.mpr ⟨hrow, beq_self_eq_true _⟩)
    have hself : QidSettled substrate s.auditLog row :=
      (hsettled row hrow hchain).resolve_right fun hkept => hkept.1 rfl
    have hhead := hadm.projectedColumn hgate h hself .adjective
      (fun w hw => expungeWrites_column hw) (·.scrub event.afterBitmaps.adjective now)
      (fun _ => rfl) event.reason rfl rfl
    refine hrun.projected hgate hhead ?_ ?_ ?_ fun row' hrow' hid' => ?_
    · rw [hparse]; exact congrArg some (hgate.rowId hok).symm
    · exact fun hmem => bne_iff_ne.mp (List.mem_filter.mp hmem).2 rfl
    · have hids : (s.withHead substrate now row.id event).drawers.rows.map Drawer.id =
          s.drawers.rows.map Drawer.id := KeyedTable.map_key_rewrite fun _ => rfl
      rw [hids]
      exact List.mem_map_of_mem hrow
    · obtain ⟨hchain', hne⟩ := List.mem_filter.mp hid'
      rcases mem_rewritten.mp hrow' with ⟨old, -, hkey, rfl⟩ | ⟨hold, -⟩
      · exact absurd hkey (bne_iff_ne.mp hne)
      · refine (hsettled row' hold hchain').imp (·.mono (List.sublist_append_left _ _)) ?_
        exact fun hkept => hkept.2.transfer rfl rfl rfl

theorem ReanchorOutcome.projected {drawerId : String} {toRoom toWing : Option String}
    {toLattice : Option LatticeAnchor} {changedBy : String} {reason : Option String}
    {minted : MintedIds} {s' : DrawerStore}
    (hmove : ReanchorOutcome substrate s drawerId toRoom toWing toLattice changedBy reason now
      minted (.ok () s'))
    (h : Projected substrate s.drawers s.auditLog)
    (hsettled : ∀ row ∈ s.drawers.rows, row.id = drawerId → QidSettled substrate s.auditLog row) :
    Projected substrate s'.drawers s'.auditLog := by
  cases hmove with
  | refused hr => exact hr.not_ok.elim
  | @moved row event nodes toParent hid hadm hnodes hdest =>
    subst hid
    have hrow := (KeyedTable.find?_eq_some_iff.mp hadm.found).1
    refine hadm.projected hgate h (hsettled row hrow rfl) (·.replace toLattice toParent)
      (Drawer.replace_id toLattice toParent) reason ?_ ?_
    · cases toLattice <;> cases toParent <;> rfl
    · cases toLattice <;> cases toParent <;> rfl

end Steps

end DrawerStore

end MootMemory
