import MootMemory.DrawerPlacementCases
import MootMemory.SensitivityWrites

namespace MootMemory

/-- What the kit relies on of the automaton behind the gate. -/
structure AutomatonGate (substrate : Substrate) : Prop extends LawfulGate substrate where
  /-- An active row may be superseded. -/
  supersedes : ∀ {request prior}, request.prior = some prior → prior.state = .active →
    request.verb = .supersede → (prior.applyWrites request.writes).state = .superseded →
      ∃ event, substrate.gateAdmit request = .ok event
  /-- Only a current row is contested, resolved or promoted. -/
  current : ∀ {request event prior}, substrate.gateAdmit request = .ok event →
    request.prior = some prior →
    request.verb = .contest ∨ request.verb = .resolveContest ∨ request.verb = .promote →
      prior.state.rawValue.toNat < 16
  /-- A tombstoned row goes nowhere. -/
  terminal : ∀ {request event prior}, substrate.gateAdmit request = .ok event →
    request.prior = some prior → request.verb ≠ .mutate → prior.state ≠ .tombstoned

/-- Apart from the state, the declared fields of the adjective column lie above it. -/
def KeepsStateWhole (substrate : Substrate) : Prop :=
  ∀ slot ∈ substrate.basis, slot.column = .adjective → slot.shift = 0 ∨ 6 ≤ slot.shift

instance (substrate : Substrate) : Decidable (KeepsStateWhole substrate) :=
  inferInstanceAs (Decidable (∀ slot ∈ substrate.basis, _))

theorem automatonGate_referenceSubstrate : AutomatonGate referenceSubstrate where
  toLawfulGate := lawfulGate_referenceSubstrate
  supersedes := by
    intro request prior hprior hactive hverb hafter
    refine ⟨request.event (prior.applyWrites request.writes), ?_⟩
    change referenceAdmit request = _
    rw [referenceAdmit, hprior]
    dsimp only
    rw [if_pos (by rw [hactive, hverb, hafter]; rfl)]
  current := by
    intro request event prior hadm hprior hverb
    change referenceAdmit request = _ at hadm
    rw [referenceAdmit, hprior] at hadm
    dsimp only at hadm
    split at hadm
    next htransition =>
      by_contra hhigh
      cases hstate : prior.state <;> rw [hstate] at htransition hhigh <;>
        first
        | exact hhigh (by decide)
        | obtain h | h | h := hverb <;> rw [h] at htransition <;>
            simp [referenceTransition] at htransition
    next => cases hadm
  terminal := by
    intro request event prior hadm hprior _ hstate
    change referenceAdmit request = _ at hadm
    rw [referenceAdmit, hprior] at hadm
    dsimp only at hadm
    rw [hstate, if_neg (by cases request.verb <;> simp [referenceTransition])] at hadm
    cases hadm

namespace Drawer

theorem replace_content (toLattice : Option LatticeAnchor) (toParent : Option String)
    (drawer : Drawer) : (drawer.replace toLattice toParent).content = drawer.content := by
  cases toLattice <;> cases toParent <;> rfl

theorem replace_lineageId (toLattice : Option LatticeAnchor) (toParent : Option String)
    (drawer : Drawer) : (drawer.replace toLattice toParent).lineageId = drawer.lineageId := by
  cases toLattice <;> cases toParent <;> rfl

/-- Not tombstoned, and in a state of the current cluster. -/
def Living (row : Drawer) : Prop := row.tombstonedAt = none ∧ row.stateRaw.toNat < 16

instance (row : Drawer) : Decidable row.Living := inferInstanceAs (Decidable (_ ∧ _))

/-- The state field names a state, and a row with a tombstone is in the tombstoned one. -/
structure StateSound (row : Drawer) : Prop where
  named : row.stateRaw = row.state.rawValue
  erased : row.tombstonedAt ≠ none → row.state = .tombstoned

theorem StateSound.living {row : Drawer} (h : row.StateSound) (hlow : row.stateRaw.toNat < 16) :
    row.Living := by
  refine ⟨?_, hlow⟩
  by_contra htombstone
  rw [h.named, h.erased htombstone] at hlow
  exact absurd hlow (by decide)

end Drawer

/-- No two living rows share a lineage. -/
def OneLivingHead (rows : List Drawer) : Prop :=
  ∀ a ∈ rows, ∀ b ∈ rows, a.lineageId = b.lineageId → a.Living → b.Living → a.id = b.id

instance (rows : List Drawer) : Decidable (OneLivingHead rows) :=
  inferInstanceAs (Decidable (∀ a ∈ rows, _))

/-- Each lineage has at most one living row, and in the lineages named it is active. -/
structure HeadsKept (substrate : Substrate) (inLineage : Uuid → Prop)
    (drawers : KeyedTable Drawer.id) : Prop where
  sound : ∀ row ∈ drawers.rows, row.StateSound
  parsed : ∀ row ∈ drawers.rows, ∃ rowUuid, substrate.parseUuid row.id = some rowUuid
  oneHead : OneLivingHead drawers.rows
  ready : ∀ row ∈ drawers.rows, inLineage row.lineageId → row.Living → row.state = .active

section Fields

variable {substrate : Substrate} {fields : BitmapFields}

theorem stateField_stateWrite (fields : BitmapFields) (state : State) :
    extractField (fields.applyWrites [⟨stateSlot, state.rawValue⟩]).adjective 0 6 =
      state.rawValue := by
  change extractField (writeField state.rawValue fields.adjective 0 6) 0 6 = _
  rw [extractField_writeField (by decide), State.rawValue_lowMask]

theorem state_stateWrite (fields : BitmapFields) (state : State) :
    (fields.applyWrites [⟨stateSlot, state.rawValue⟩]).state = state := by
  rw [BitmapFields.state, stateField_stateWrite, State.fromRaw_rawValue]

/-- Writes that stay off the lowest six bits keep the state. -/
theorem stateField_applyWrites {writes : List FieldWrite}
    (h : ∀ w ∈ writes, w.slot.column = .adjective → 6 ≤ w.slot.shift) :
    extractField (fields.applyWrites writes).adjective 0 6 = extractField fields.adjective 0 6 := by
  induction writes generalizing fields with
  | nil => rfl
  | cons w ws ih =>
    rw [BitmapFields.applyWrites_cons, ih fun w' hw' => h w' (List.mem_cons_of_mem _ hw')]
    have hw := h w List.mem_cons_self
    cases hcolumn : w.slot.column with
    | adjective => exact extractField_writeField_of_disjoint (Or.inl (hw hcolumn))
    | operational => rfl
    | provenance => rfl

/-- A field edit keeps the state. -/
theorem stateField_edit (hwhole : KeepsStateWhole substrate) (column : AuditColumn)
    (value : Bitmap) :
    extractField (fields.applyWrites
      ((editableSlots substrate column).map (·.write value))).adjective 0 6 =
        extractField fields.adjective 0 6 := by
  refine stateField_applyWrites fun w hw hadjective => ?_
  obtain ⟨slot, hslot, rfl⟩ := List.mem_map.mp hw
  rw [FieldSlot.write_slot] at hadjective ⊢
  cases column with
  | adjective =>
    obtain ⟨hbasis, hstate⟩ := List.mem_filter.mp hslot
    rcases hwhole slot hbasis hadjective with hzero | hsix
    · simp [FieldSlot.isState, hadjective, hzero] at hstate
    · exact hsix
  | operational =>
    have hcolumn := (List.mem_filter.mp hslot).2
    rw [hadjective] at hcolumn
    cases hcolumn
  | provenance =>
    have hcolumn := (List.mem_filter.mp hslot).2
    rw [hadjective] at hcolumn
    cases hcolumn

end Fields

section Rows

variable {substrate : Substrate} {inLineage : Uuid → Prop} {drawers t : KeyedTable Drawer.id}
  {rowId : String} {f : Drawer → Drawer}

/-- The living rows of a lineage are at most the row of an id. -/
def AloneIn (rows : List Drawer) (rowId : String) (lineageId : Uuid) : Prop :=
  ∀ other ∈ rows, other.lineageId = lineageId → other.Living → other.id = rowId

theorem HeadsKept.weaken (h : HeadsKept substrate inLineage drawers) :
    HeadsKept substrate (fun _ => False) drawers :=
  ⟨h.sound, h.parsed, h.oneHead, fun _ _ hno => hno.elim⟩

theorem HeadsKept.aloneIn (h : HeadsKept substrate inLineage drawers) {row : Drawer}
    (hrow : row ∈ drawers.rows) (hliving : row.Living) :
    AloneIn drawers.rows row.id row.lineageId :=
  fun other hother hlineage hother' => h.oneHead other hother row hrow hlineage hother' hliving

/-- What a rewritten row has to be for the heads to be kept. -/
structure KeepsHead (inLineage : Uuid → Prop) (rows : List Drawer) (old new : Drawer) : Prop where
  lineage : new.lineageId = old.lineageId
  sound : new.StateSound
  alone : new.Living → AloneIn rows old.id old.lineageId
  ready : inLineage old.lineageId → new.Living → new.state = .active

/-- A row that keeps its lineage, its state and its tombstone keeps the heads. -/
theorem HeadsKept.keepsHead_same (h : HeadsKept substrate inLineage drawers) {old new : Drawer}
    (hold : old ∈ drawers.rows) (hlineage : new.lineageId = old.lineageId)
    (hraw : new.stateRaw = old.stateRaw) (htombstone : new.tombstonedAt = old.tombstonedAt) :
    KeepsHead inLineage drawers.rows old new := by
  have hstate : new.state = old.state := congrArg State.fromRaw hraw
  have hsound := h.sound old hold
  have hliving : new.Living → old.Living :=
    fun hliving => ⟨htombstone ▸ hliving.1, hraw ▸ hliving.2⟩
  exact {
    lineage := hlineage
    sound := {
      named := by rw [hraw, hstate, hsound.named]
      erased := fun hno => by rw [hstate, hsound.erased (htombstone ▸ hno)] }
    alone := fun hnew => h.aloneIn hold (hliving hnew)
    ready := fun hin hnew => hstate.trans (h.ready old hold hin (hliving hnew)) }

theorem HeadsKept.update (h : HeadsKept substrate inLineage drawers) (hf : ∀ d, (f d).id = d.id)
    (hnew : ∀ d ∈ drawers.rows, d.id = rowId → KeepsHead inLineage drawers.rows d (f d)) :
    HeadsKept substrate inLineage (drawers.update rowId f hf) where
  sound row hrow := by
    obtain ⟨old, hold, hid, rfl⟩ | ⟨hrow, -⟩ := KeyedTable.mem_update.mp hrow
    · exact (hnew old hold hid).sound
    · exact h.sound row hrow
  parsed row hrow := by
    obtain ⟨old, hold, hid, rfl⟩ | ⟨hrow, -⟩ := KeyedTable.mem_update.mp hrow
    · rw [hf]
      exact h.parsed old hold
    · exact h.parsed row hrow
  oneHead a ha b hb hlineage hliveA hliveB := by
    obtain ⟨old, hold, hid, rfl⟩ | ⟨ha, hane⟩ := KeyedTable.mem_update.mp ha
    · have hkept := hnew old hold hid
      obtain ⟨old', hold', hid', rfl⟩ | ⟨hb, hbne⟩ := KeyedTable.mem_update.mp hb
      · rw [hf, hf, hid, hid']
      · have halone := hkept.alone hliveA b hb (hlineage.symm.trans hkept.lineage) hliveB
        exact absurd (halone.trans hid) hbne
    · obtain ⟨old, hold, hid, rfl⟩ | ⟨hb, -⟩ := KeyedTable.mem_update.mp hb
      · have hkept := hnew old hold hid
        have halone := hkept.alone hliveB a ha (hlineage.trans hkept.lineage) hliveA
        exact absurd (halone.trans hid) hane
      · exact h.oneHead a ha b hb hlineage hliveA hliveB
  ready row hrow hin hliving := by
    obtain ⟨old, hold, hid, rfl⟩ | ⟨hrow, -⟩ := KeyedTable.mem_update.mp hrow
    · have hkept := hnew old hold hid
      exact hkept.ready (hkept.lineage ▸ hin) hliving
    · exact h.ready row hrow hin hliving

/-- A new active drawer is the head of a lineage in which nothing lives. -/
theorem HeadsKept.adjoin (h : HeadsKept substrate inLineage drawers) (drawer : Drawer)
    (hmem : ∀ row ∈ t.rows, row ∈ drawers.rows ∨ row = drawer) (hsound : drawer.StateSound)
    (hactive : drawer.state = .active)
    (hparse : ∃ rowUuid, substrate.parseUuid drawer.id = some rowUuid)
    (hvacant : ∀ row ∈ drawers.rows, row.lineageId = drawer.lineageId → ¬row.Living) :
    HeadsKept substrate inLineage t where
  sound row hrow := by
    obtain hrow | rfl := hmem row hrow
    · exact h.sound row hrow
    · exact hsound
  parsed row hrow := by
    obtain hrow | rfl := hmem row hrow
    · exact h.parsed row hrow
    · exact hparse
  oneHead a ha b hb hlineage hliveA hliveB := by
    obtain ha | rfl := hmem a ha
    · obtain hb | rfl := hmem b hb
      · exact h.oneHead a ha b hb hlineage hliveA hliveB
      · exact absurd hliveA (hvacant a ha hlineage)
    · obtain hb | rfl := hmem b hb
      · exact absurd hliveB (hvacant b hb hlineage.symm)
      · rfl
  ready row hrow hin hliving := by
    obtain hrow | rfl := hmem row hrow
    · exact h.ready row hrow hin hliving
    · exact hactive

end Rows

namespace DrawerStore

variable {substrate : Substrate} {inLineage : Uuid → Prop} {s : DrawerStore} {now : Int}

theorem Admitted.mem {row : Drawer} {verb : RowVerb} {writes : List FieldWrite}
    {anchor : AuditAnchor} {changedBy : String} {event : AuditEvent}
    (h : Admitted substrate s now row verb writes anchor changedBy event) :
    row ∈ s.drawers.rows := (KeyedTable.find?_eq_some_iff.mp h.found).1

theorem Admitted.not_tombstoned {row : Drawer} {verb : RowVerb} {writes : List FieldWrite}
    {anchor : AuditAnchor} {changedBy : String} {event : AuditEvent}
    (hgate : AutomatonGate substrate) (hverb : verb ≠ .mutate)
    (h : Admitted substrate s now row verb writes anchor changedBy event) :
    row.state ≠ .tombstoned := by
  obtain ⟨rowUuid, -, hadm⟩ := h.gate
  exact hgate.terminal hadm rfl hverb

theorem stateRaw_transition {row : Drawer} {verb : RowVerb} {newState : State}
    {anchor : AuditAnchor} {changedBy : String} {event : AuditEvent} (hgate : LawfulGate substrate)
    (h : Admitted substrate s now row verb [⟨stateSlot, newState.rawValue⟩] anchor changedBy
      event) : (row.setAdjective event.afterBitmaps.adjective).stateRaw = newState.rawValue := by
  rw [h.after_eq hgate]
  exact stateField_stateWrite row.bitmaps newState

/-- A row that went to another state is of the kind it has to be. -/
theorem keepsHead_transition {row : Drawer} {verb : RowVerb} {newState : State}
    {anchor : AuditAnchor} {changedBy : String} {event : AuditEvent} {rows : List Drawer}
    (hgate : AutomatonGate substrate) (hverb : verb ≠ .mutate)
    (h : Admitted substrate s now row verb [⟨stateSlot, newState.rawValue⟩] anchor changedBy event)
    (hsound : row.StateSound)
    (halone : newState.rawValue.toNat < 16 → AloneIn rows row.id row.lineageId)
    (hready : newState.rawValue.toNat < 16 → inLineage row.lineageId → newState = .active) :
    KeepsHead inLineage rows row (row.setAdjective event.afterBitmaps.adjective) := by
  have hraw := stateRaw_transition hgate.toLawfulGate h
  have hstate : (row.setAdjective event.afterBitmaps.adjective).state = newState := by
    rw [Drawer.state, hraw, State.fromRaw_rawValue]
  have herased : row.tombstonedAt = none := by
    by_contra htombstone
    exact h.not_tombstoned hgate hverb (hsound.erased htombstone)
  exact {
    lineage := rfl
    sound := ⟨hraw.trans (congrArg State.rawValue hstate.symm), fun hno => absurd herased hno⟩
    alone := fun hliving => halone (hraw ▸ hliving.2)
    ready := fun hin hliving => hstate.trans (hready (hraw ▸ hliving.2) hin) }

theorem stateField_expungeWrites (fields : BitmapFields) :
    extractField (fields.applyWrites (expungeWrites fields.adjective)).adjective 0 6 =
      State.tombstoned.rawValue := by
  rw [expungeWrites, BitmapFields.applyWrites_cons, stateField_applyWrites ?_]
  · exact stateField_stateWrite fields .tombstoned
  · intro w hw _
    rw [List.mem_singleton.mp hw]
    show 6 ≤ flagsSlot.shift
    decide

/-- A row that an expunge scrubbed lives no more. -/
theorem keepsHead_scrub (hgate : LawfulGate substrate) {row : Drawer} {changedBy : String}
    {event : AuditEvent} {rows : List Drawer}
    (hscrub : Scrubbable substrate s now row changedBy event) :
    KeepsHead inLineage rows row (row.scrub event.afterBitmaps.adjective now) := by
  have hraw : (row.scrub event.afterBitmaps.adjective now).stateRaw =
      State.tombstoned.rawValue := by
    show extractField event.afterBitmaps.adjective 0 6 = _
    rw [hscrub.after_eq hgate]
    exact stateField_expungeWrites row.bitmaps
  have hstate : (row.scrub event.afterBitmaps.adjective now).state = .tombstoned := by
    rw [Drawer.state, hraw, State.fromRaw_rawValue]
  have hdead : ¬(row.scrub event.afterBitmaps.adjective now).Living := by
    intro hliving
    cases hliving.1
  exact {
    lineage := rfl
    sound := ⟨by rw [hraw, hstate], fun _ => hstate⟩
    alone := fun hliving => absurd hliving hdead
    ready := fun _ hliving => absurd hliving hdead }

section Verbs

variable (h : HeadsKept substrate inLineage s.drawers)

include h

theorem headsKept_refused {α : Type} {r : EStateM.Result LocusKitError DrawerStore α}
    (hr : Refused substrate s now r) : HeadsKept substrate inLineage (stateAfter r).drawers := by
  rw [(refused_tables hr).1]
  exact h

/-- A transition keeps the heads where a row that comes to live is alone in its lineage. -/
theorem headsKept_mutateState (hgate : AutomatonGate substrate) {rowId changedBy : String}
    {newState : State} {via : RowVerb} {reason : Option String} (hvia : via ≠ .mutate)
    (halone : newState.rawValue.toNat < 16 → ∀ row ∈ s.drawers.rows, row.id = rowId →
      ¬row.Living → AloneIn s.drawers.rows row.id row.lineageId)
    (hready : newState.rawValue.toNat < 16 → ∀ lineageId, inLineage lineageId →
      newState = .active) :
    HeadsKept substrate inLineage (stateAfter
      (DrawerStore.mutateState substrate rowId newState via changedBy reason now s)).drawers := by
  generalize hresult :
    DrawerStore.mutateState substrate rowId newState via changedBy reason now s = r
  obtain hrefused | ⟨row, event, rfl, hadm, rfl⟩ := mutateState_cases hresult
  · exact headsKept_refused h hrefused
  · refine h.update (f := (·.setAdjective event.afterBitmaps.adjective)) (fun _ => rfl)
      fun d hd hid => ?_
    obtain rfl := hadm.eq_row hd hid
    refine keepsHead_transition hgate hvia hadm (h.sound d hd) (fun hlow => ?_)
      fun hlow hin => hready hlow _ hin
    by_cases hliving : d.Living
    · exact h.aloneIn hd hliving
    · exact halone hlow d hd rfl hliving

/-- A field edit keeps the heads. -/
theorem headsKept_mutateColumn (hgate : LawfulGate substrate) (hwhole : KeepsStateWhole substrate)
    {column : AuditColumn} {rowId changedBy : String} {value : Bitmap} {reason : Option String} :
    HeadsKept substrate inLineage (stateAfter
      (DrawerStore.mutateColumn substrate column rowId value changedBy reason now s)).drawers := by
  generalize hresult :
    DrawerStore.mutateColumn substrate column rowId value changedBy reason now s = r
  obtain hrefused | ⟨row, event, rfl, hadm, rfl⟩ := mutateColumn_cases hresult
  · exact headsKept_refused h hrefused
  · refine h.update (f := (·.setColumn column (event.afterBitmaps.get column))) (fun _ => rfl)
      fun d hd hid => ?_
    obtain rfl := hadm.eq_row hd hid
    refine h.keepsHead_same hd rfl ?_ rfl
    rw [hadm.after_eq hgate]
    cases column with
    | adjective => exact stateField_edit hwhole .adjective value
    | operational => rfl
    | provenance => rfl

/-- A move keeps the heads. -/
theorem headsKept_reanchorGated {rowId : String} {toRoom toWing : Option String}
    {toLattice : Option LatticeAnchor} {changedBy : String} {reason : Option String}
    {minted : MintedIds} : HeadsKept substrate inLineage (stateAfter (reanchorGated substrate rowId
      toRoom toWing toLattice changedBy reason now minted s)).drawers := by
  generalize hresult : reanchorGated substrate rowId toRoom toWing toLattice changedBy reason now
    minted s = r
  cases reanchorGated_outcome hresult with
  | refused hrefused => exact headsKept_refused h hrefused
  | failed => exact h
  | moved hid hgate hnodes hdest =>
    refine h.update (f := (·.replace toLattice _)) (Drawer.replace_id _ _) fun d hd _ => ?_
    refine h.keepsHead_same hd (Drawer.replace_lineageId _ _ d) ?_
      (Drawer.replace_tombstonedAt _ _ d)
    rw [Drawer.stateRaw, Drawer.replace_bitmaps, Drawer.stateRaw]

theorem headsKept_withScrub (hgate : LawfulGate substrate) {row : Drawer} {changedBy : String}
    {event : AuditEvent} (hscrub : Scrubbable substrate s now row changedBy event) :
    HeadsKept substrate inLineage (s.withScrub substrate now row.id event).drawers := by
  refine h.update (f := (·.scrub event.afterBitmaps.adjective now)) (fun _ => rfl)
    fun d hd hid => ?_
  obtain rfl := hscrub.eq_row hd hid
  exact keepsHead_scrub hgate hscrub

theorem SiblingOutcome.headsKept (hgate : LawfulGate substrate)
    {headId changedBy siblingId : String} {sealAudit : Bool} {headStamp : Hlc}
    {r : EStateM.Result LocusKitError DrawerStore Unit}
    (hsibling : SiblingOutcome substrate headId changedBy now sealAudit headStamp s siblingId r) :
    HeadsKept substrate inLineage (stateAfter r).drawers := by
  cases hsibling with
  | missing => exact h
  | cleared =>
    exact h.update (f := (·.clearContent)) (fun _ => rfl)
      fun d hd _ => h.keepsHead_same hd rfl rfl rfl
  | invalid => exact h
  | kept => exact h
  | scrubbed hid _ hscrub =>
    subst hid
    cases sealAudit with
    | false => exact headsKept_withScrub h hgate hscrub
    | true => exact headsKept_withScrub h hgate hscrub

end Verbs

theorem SiblingsRun.headsKept (hgate : LawfulGate substrate) {headId changedBy : String}
    {sealAudit : Bool} {headStamp : Hlc} {ids : List String}
    {r : EStateM.Result LocusKitError DrawerStore Unit}
    (hrun : SiblingsRun substrate headId changedBy now sealAudit headStamp s ids r)
    (h : HeadsKept substrate inLineage s.drawers) :
    HeadsKept substrate inLineage (stateAfter r).drawers := by
  induction hrun with
  | done => exact h
  | next hsibling _ ih => exact ih (SiblingOutcome.headsKept h hgate hsibling)
  | failed hsibling => exact SiblingOutcome.headsKept h hgate hsibling

/-- An expunge keeps the heads, however it ends. -/
theorem headsKept_expungeGated (hgate : LawfulGate substrate)
    (h : HeadsKept substrate inLineage s.drawers) {rowId changedBy : String}
    {reason : Option String} {sealAudit : Bool} : HeadsKept substrate inLineage (stateAfter
      (expungeGated substrate rowId changedBy reason now sealAudit s)).drawers := by
  have hhead {row : Drawer} {event : AuditEvent} (hid : row.id = rowId)
      (hscrub : Scrubbable substrate s now row changedBy event) :
      HeadsKept substrate inLineage (s.withHead substrate now rowId event).drawers := by
    subst hid
    exact headsKept_withScrub h hgate hscrub
  generalize hresult : expungeGated substrate rowId changedBy reason now sealAudit s = r
  cases expungeGated_outcome hresult with
  | refused hrefused => exact headsKept_refused h hrefused
  | failed hid hscrub hrun => exact hrun.headsKept hgate (hhead hid hscrub)
  | done hid hscrub hrun =>
    have hafter := hrun.headsKept hgate (hhead hid hscrub)
    cases sealAudit with
    | false => exact hafter
    | true => exact hafter

end DrawerStore

end MootMemory
