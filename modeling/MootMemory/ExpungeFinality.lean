import MootMemory.EstateRemoval
import MootMemory.LineageHeads

namespace MootMemory

/-- A field edit that the gate lets pass leaves the state alone. -/
structure FinalGate (substrate : Substrate) : Prop extends AutomatonGate substrate where
  edit : ∀ {request event prior}, substrate.gateAdmit request = .ok event →
    request.prior = some prior → request.verb = .mutate → event.afterBitmaps.state = prior.state

/-- The gate decides about the tombstoning of a row by its bitmaps. -/
def TombstoneVerdict (substrate : Substrate) (lets : BitmapFields → Prop) : Prop :=
  ∀ request prior, request.verb = .tombstone → request.prior = some prior →
    request.writes = expungeWrites prior.adjective →
      ((∃ event, substrate.gateAdmit request = .ok event) ↔ lets prior)

theorem State.rawValue_of_fromRaw_tombstoned {raw : Bitmap} (h : State.fromRaw raw = .tombstoned) :
    raw = State.tombstoned.rawValue := by
  rw [State.fromRaw] at h
  split at h <;> cases h
  next hraw => exact BitVec.eq_of_toNat_eq hraw

/-- Tombstoned, with nothing left of the content. -/
structure Drawer.Erased (row : Drawer) : Prop where
  tombstoned : row.stateRaw = State.tombstoned.rawValue
  empty : row.content = ""

theorem Drawer.state_of_tombstoned {row : Drawer}
    (h : row.stateRaw = State.tombstoned.rawValue) : row.state = .tombstoned := by
  rw [Drawer.state, h, State.fromRaw_rawValue]

/-- The row that a call expunges. -/
def StoreCall.expunged : StoreCall → Option String
  | .expungeGated drawerId _ _ _ _ => some drawerId
  | _ => none

namespace DrawerStore

/-- The row of an id is erased. -/
def ErasedIn (s : DrawerStore) (id : String) : Prop :=
  ∃ row ∈ s.drawers.rows, row.id = id ∧ row.Erased

/-- The ledger has the id. -/
def Recorded (s : DrawerStore) (id : String) : Prop :=
  ∃ entry ∈ s.erasureLedger.rows, entry.drawerId = id

/-- What is erased stays erased, and what is recorded stays recorded. -/
structure ErasureKept (s s' : DrawerStore) : Prop where
  erased : ∀ id, s.ErasedIn id → s'.ErasedIn id
  recorded : ∀ id, s.Recorded id → s'.Recorded id

/-- Besides, only what is erased gets recorded. -/
structure LedgerKept (s s' : DrawerStore) : Prop extends ErasureKept s s' where
  fresh : ∀ id, s'.Recorded id → s.Recorded id ∨ s'.ErasedIn id

variable {substrate : Substrate} {s s' s'' : DrawerStore} {now : Int}

theorem ErasureKept.refl (s : DrawerStore) : s.ErasureKept s := ⟨fun _ h => h, fun _ h => h⟩

theorem ErasureKept.trans (h : s.ErasureKept s') (h' : s'.ErasureKept s'') : s.ErasureKept s'' :=
  ⟨fun id hid => h'.erased id (h.erased id hid), fun id hid => h'.recorded id (h.recorded id hid)⟩

theorem LedgerKept.refl (s : DrawerStore) : s.LedgerKept s := ⟨.refl s, fun _ h => Or.inl h⟩

theorem LedgerKept.trans (h : s.LedgerKept s') (h' : s'.LedgerKept s'') : s.LedgerKept s'' := by
  refine ⟨h.toErasureKept.trans h'.toErasureKept, fun id hid => ?_⟩
  obtain hid | hid := h'.fresh id hid
  · obtain hid | hid := h.fresh id hid
    · exact Or.inl hid
    · exact Or.inr (h'.erased id hid)
  · exact Or.inr hid

theorem LedgerKept.of_rows (hrows : ∀ row ∈ s.drawers.rows, row ∈ s'.drawers.rows)
    (hledger : s'.erasureLedger = s.erasureLedger) : s.LedgerKept s' where
  erased id h := by
    obtain ⟨row, hrow, hid, herased⟩ := h
    exact ⟨row, hrows row hrow, hid, herased⟩
  recorded id h := by
    rw [Recorded, hledger]
    exact h
  fresh id h := by
    rw [Recorded, hledger] at h
    exact Or.inl h

theorem LedgerKept.of_update {rowId : String} {f : Drawer → Drawer} (hf : ∀ d, (f d).id = d.id)
    (hdrawers : s'.drawers = s.drawers.update rowId f hf)
    (hledger : s'.erasureLedger = s.erasureLedger)
    (hkeep : ∀ row ∈ s.drawers.rows, row.id = rowId → row.Erased → (f row).Erased) :
    s.LedgerKept s' where
  erased id h := by
    obtain ⟨row, hrow, hid, herased⟩ := h
    by_cases hrowId : row.id = rowId
    · refine ⟨f row, ?_, (hf row).trans hid, hkeep row hrow hrowId herased⟩
      rw [hdrawers]
      exact KeyedTable.mem_update.mpr (Or.inl ⟨row, hrow, hrowId, rfl⟩)
    · refine ⟨row, ?_, hid, herased⟩
      rw [hdrawers]
      exact KeyedTable.mem_update.mpr (Or.inr ⟨hrow, hrowId⟩)
  recorded id h := by
    rw [Recorded, hledger]
    exact h
  fresh id h := by
    rw [Recorded, hledger] at h
    exact Or.inl h

theorem mem_update_row {drawers : KeyedTable Drawer.id} {row : Drawer} {f : Drawer → Drawer}
    (hf : ∀ d, (f d).id = d.id) (hrow : row ∈ drawers.rows) :
    f row ∈ (drawers.update row.id f hf).rows :=
  KeyedTable.mem_update.mpr (Or.inl ⟨row, hrow, rfl, rfl⟩)

theorem mem_update_of_ne {drawers : KeyedTable Drawer.id} {row : Drawer} {rowId : String}
    {f : Drawer → Drawer} (hf : ∀ d, (f d).id = d.id) (hrow : row ∈ drawers.rows)
    (hne : row.id ≠ rowId) : row ∈ (drawers.update rowId f hf).rows :=
  KeyedTable.mem_update.mpr (Or.inr ⟨hrow, hne⟩)

theorem mem_of_mem_update {drawers : KeyedTable Drawer.id} {row : Drawer} {rowId : String}
    {f : Drawer → Drawer} (hf : ∀ d, (f d).id = d.id)
    (hrow : row ∈ (drawers.update rowId f hf).rows) (hne : row.id ≠ rowId) :
    row ∈ drawers.rows := by
  obtain ⟨old, -, hid, rfl⟩ | ⟨hrow, -⟩ := KeyedTable.mem_update.mp hrow
  · exact absurd ((hf old).trans hid) hne
  · exact hrow

theorem ledgerKept_refused {α : Type} {r : EStateM.Result LocusKitError DrawerStore α}
    (h : Refused substrate s now r) : s.LedgerKept (stateAfter r) := by
  obtain ⟨e, rfl | rfl⟩ := h
  · exact .refl s
  · exact .of_rows (fun _ hrow => hrow) rfl

theorem recorded_entered {rowId : String} {stamp : Hlc} :
    (s.entered rowId stamp).Recorded rowId := by
  rw [Recorded, entered_erasureLedger]
  cases hinsert : s.erasureLedger.insert? ⟨rowId, stamp⟩ with
  | none =>
    obtain ⟨entry, hentry, hid⟩ := KeyedTable.insert?_eq_none_iff.mp hinsert
    exact ⟨entry, hentry, hid⟩
  | some ledger =>
    refine ⟨⟨rowId, stamp⟩, ?_, rfl⟩
    rw [Option.getD_some, (KeyedTable.insert?_eq_some_iff.mp hinsert).2]
    exact List.mem_append_right _ (List.mem_singleton_self _)

theorem recorded_of_entered {rowId id : String} {stamp : Hlc}
    (h : (s.entered rowId stamp).Recorded id) : s.Recorded id ∨ id = rowId := by
  obtain ⟨entry, hentry, rfl⟩ := h
  rw [entered_erasureLedger] at hentry
  cases hinsert : s.erasureLedger.insert? ⟨rowId, stamp⟩ with
  | none =>
    rw [hinsert] at hentry
    exact Or.inl ⟨entry, hentry, rfl⟩
  | some ledger =>
    rw [hinsert, Option.getD_some, (KeyedTable.insert?_eq_some_iff.mp hinsert).2, List.mem_append,
      List.mem_singleton] at hentry
    obtain hentry | rfl := hentry
    · exact Or.inl ⟨entry, hentry, rfl⟩
    · exact Or.inr rfl

theorem erasureKept_entered (s : DrawerStore) (rowId : String) (stamp : Hlc) :
    s.ErasureKept (s.entered rowId stamp) where
  erased id h := h
  recorded id h := by
    obtain ⟨entry, hentry, rfl⟩ := h
    refine ⟨entry, ?_, rfl⟩
    rw [entered_erasureLedger]
    cases hinsert : s.erasureLedger.insert? ⟨rowId, stamp⟩ with
    | none => exact hentry
    | some ledger =>
      rw [Option.getD_some, (KeyedTable.insert?_eq_some_iff.mp hinsert).2]
      exact List.mem_append_left _ hentry

section Writes

variable {row : Drawer} {verb : RowVerb} {writes : List FieldWrite} {anchor : AuditAnchor}
  {changedBy : String} {event : AuditEvent}

/-- A verb other than an edit does not touch an erased row, and an edit leaves it erased. -/
theorem Admitted.erased_state (hgate : FinalGate substrate)
    (h : Admitted substrate s now row verb writes anchor changedBy event) (herased : row.Erased) :
    verb = .mutate ∧
      extractField event.afterBitmaps.adjective 0 6 = State.tombstoned.rawValue := by
  have hstate := Drawer.state_of_tombstoned herased.tombstoned
  obtain ⟨rowUuid, -, hadm⟩ := h.gate
  have hverb : verb = .mutate := by
    by_contra hverb
    exact hgate.terminal hadm rfl hverb hstate
  exact ⟨hverb, State.rawValue_of_fromRaw_tombstoned ((hgate.edit hadm rfl hverb).trans hstate)⟩

theorem ledgerKept_mutateState (hgate : FinalGate substrate) {rowId changedBy : String}
    {newState : State} {via : RowVerb} {reason : Option String} : s.LedgerKept
      (stateAfter (mutateState substrate rowId newState via changedBy reason now s)) := by
  generalize hresult : mutateState substrate rowId newState via changedBy reason now s = r
  obtain hrefused | ⟨row, event, rfl, hadm, rfl⟩ := mutateState_cases hresult
  · exact ledgerKept_refused hrefused
  · refine .of_update (f := (·.setAdjective event.afterBitmaps.adjective)) (fun _ => rfl) rfl rfl
      fun d hd hid herased => ?_
    obtain rfl := hadm.eq_row hd hid
    exact ⟨(hadm.erased_state hgate herased).2, herased.empty⟩

theorem ledgerKept_mutateColumn (hgate : FinalGate substrate) {column : AuditColumn}
    {rowId changedBy : String} {value : Bitmap} {reason : Option String} : s.LedgerKept
      (stateAfter (mutateColumn substrate column rowId value changedBy reason now s)) := by
  generalize hresult : mutateColumn substrate column rowId value changedBy reason now s = r
  obtain hrefused | ⟨row, event, rfl, hadm, rfl⟩ := mutateColumn_cases hresult
  · exact ledgerKept_refused hrefused
  · refine .of_update (f := (·.setColumn column (event.afterBitmaps.get column))) (fun _ => rfl)
      rfl rfl fun d hd hid herased => ?_
    obtain rfl := hadm.eq_row hd hid
    refine ⟨?_, herased.empty⟩
    cases column with
    | adjective => exact (hadm.erased_state hgate herased).2
    | operational => exact herased.tombstoned
    | provenance => exact herased.tombstoned

theorem ledgerKept_reanchorGated {rowId : String} {toRoom toWing : Option String}
    {toLattice : Option LatticeAnchor} {changedBy : String} {reason : Option String}
    {minted : MintedIds} : s.LedgerKept (stateAfter (reanchorGated substrate rowId toRoom toWing
      toLattice changedBy reason now minted s)) := by
  generalize hresult : reanchorGated substrate rowId toRoom toWing toLattice changedBy reason now
    minted s = r
  cases reanchorGated_outcome hresult with
  | refused hrefused => exact ledgerKept_refused hrefused
  | failed => exact .of_rows (fun _ hrow => hrow) rfl
  | @moved row event nodes toParent =>
    refine .of_update (f := (·.replace toLattice toParent))
      (Drawer.replace_id toLattice toParent) rfl rfl fun d _ _ herased => ?_
    refine ⟨?_, (Drawer.replace_content toLattice toParent d).trans herased.empty⟩
    rw [Drawer.stateRaw, Drawer.replace_bitmaps]
    exact herased.tombstoned

theorem ledgerKept_inserted {drawer : Drawer} {drawers : KeyedTable Drawer.id}
    (hcaptured : Captured substrate s now drawer drawers event) :
    s.LedgerKept (s.withCapture substrate now drawers event) := by
  refine .of_rows (fun row hrow => ?_) rfl
  rw [withCapture_drawers, (KeyedTable.insert?_eq_some_iff.mp hcaptured.inserted).2]
  exact List.mem_append_left _ hrow

theorem InsertOutcome.ledgerKept (hgate : FinalGate substrate) {drawer : Drawer}
    {r : EStateM.Result LocusKitError DrawerStore Unit}
    (hinsert : InsertOutcome substrate s drawer now r) : s.LedgerKept (stateAfter r) := by
  cases hinsert with
  | refused hrefused => exact ledgerKept_refused hrefused
  | captured _ hcaptured => exact ledgerKept_inserted hcaptured
  | cascade _ hcascade =>
    cases hcascade with
    | refused hrefused => exact ledgerKept_refused hrefused
    | undone hcaptured =>
      refine .of_rows (fun row hrow => ?_) rfl
      rw [stateAfter_error, withDrawers_drawers, KeyedTable.erase_of_insert? hcaptured.inserted]
      exact hrow
    | @stored drawers event tunnels r hcaptured hflip =>
      have htunnel : (s.withCapture substrate drawer.filedAt drawers event).LedgerKept
          ((s.withCapture substrate drawer.filedAt drawers event).withTunnels tunnels) :=
        .of_rows (fun _ hrow => hrow) rfl
      refine ((ledgerKept_inserted hcaptured).trans htunnel).trans ?_
      cases hflip with
      | refused hrefused => exact ledgerKept_refused hrefused
      | @flipped row event hid hadm =>
        refine .of_update (f := (·.setAdjective event.afterBitmaps.adjective)) (fun _ => rfl)
          rfl rfl fun d hd hdid herased => ?_
        obtain rfl := hadm.eq_row hd (hdid.trans hid.symm)
        exact absurd (hadm.erased_state hgate herased).1 (by decide)

theorem ledgerKept_addDrawer (hgate : FinalGate substrate) {drawer : Drawer} :
    s.LedgerKept (stateAfter (addDrawer substrate drawer now s)) := by
  generalize hresult : addDrawer substrate drawer now s = r
  cases addDrawer_outcome hresult with
  | invalid => exact .refl s
  | failed hinsert => exact hinsert.ledgerKept hgate
  | added hinsert =>
    have hkept := hinsert.ledgerKept hgate
    exact ⟨⟨hkept.erased, hkept.recorded⟩, hkept.fresh⟩

theorem erased_scrub (hgate : LawfulGate substrate)
    (hscrub : Scrubbable substrate s now row changedBy event) :
    (row.scrub event.afterBitmaps.adjective now).Erased := by
  refine ⟨?_, rfl⟩
  show extractField event.afterBitmaps.adjective 0 6 = _
  rw [hscrub.after_eq hgate]
  exact stateField_expungeWrites row.bitmaps

theorem ledgerKept_withScrub (hgate : LawfulGate substrate)
    (hscrub : Scrubbable substrate s now row changedBy event) :
    s.LedgerKept (s.withScrub substrate now row.id event) := by
  refine .of_update (f := (·.scrub event.afterBitmaps.adjective now)) (fun _ => rfl) rfl rfl
    fun d hd hid _ => ?_
  obtain rfl := hscrub.eq_row hd hid
  exact erased_scrub hgate hscrub

theorem erasedIn_withScrub (hgate : LawfulGate substrate)
    (hscrub : Scrubbable substrate s now row changedBy event) :
    (s.withScrub substrate now row.id event).ErasedIn row.id := by
  have hmem := mem_update_row (f := (·.scrub event.afterBitmaps.adjective now)) (fun _ => rfl)
    hscrub.mem
  exact ⟨row.scrub event.afterBitmaps.adjective now, hmem, rfl, erased_scrub hgate hscrub⟩

end Writes

section Loop

variable {headId changedBy siblingId : String} {sealAudit : Bool} {headStamp : Hlc}
  {lets : BitmapFields → Prop} {r : EStateM.Result LocusKitError DrawerStore Unit}

theorem ledgerKept_loggedIf (s : DrawerStore) (sealAudit : Bool) (event : AuditEvent) :
    s.LedgerKept (s.loggedIf sealAudit event) := by
  cases sealAudit with
  | false => exact .refl s
  | true => exact .of_rows (fun _ hrow => hrow) rfl

/-- The row is gone for good if it is tombstoned already or the gate lets it go. -/
def Goes (lets : BitmapFields → Prop) (row : Drawer) : Prop :=
  row.stateRaw = State.tombstoned.rawValue ∨ lets row.bitmaps

theorem SiblingOutcome.erasureKept (hgate : LawfulGate substrate)
    (h : SiblingOutcome substrate headId changedBy now sealAudit headStamp s siblingId r) :
    s.ErasureKept (stateAfter r) := by
  cases h with
  | missing => exact .refl s
  | cleared hfind hstate =>
    have hcleared : s.LedgerKept (s.rewritten siblingId (·.clearContent) fun _ => rfl) :=
      .of_update (f := (·.clearContent)) (fun _ => rfl) rfl rfl
        fun _ _ _ herased => ⟨herased.tombstoned, rfl⟩
    exact hcleared.toErasureKept.trans (erasureKept_entered _ siblingId headStamp)
  | invalid => exact .refl s
  | kept hfind hstate =>
    have hticked : s.LedgerKept (s.ticked substrate now) := .of_rows (fun _ hrow => hrow) rfl
    exact hticked.toErasureKept.trans (erasureKept_entered _ siblingId headStamp)
  | @scrubbed row event hid hstate hscrub =>
    subst hid
    have hscrubbed := (ledgerKept_withScrub hgate hscrub).trans (ledgerKept_loggedIf _ sealAudit
      (event.withReason (cascadeExpungeReason headId)))
    exact hscrubbed.toErasureKept.trans (erasureKept_entered _ _ headStamp)

/-- What a round of the loop does to the row that it is about. -/
theorem SiblingOutcome.reached (hgate : LawfulGate substrate)
    (hverdict : TombstoneVerdict substrate lets) {row : Drawer} (hrow : row ∈ s.drawers.rows)
    (h : SiblingOutcome substrate headId changedBy now sealAudit headStamp s row.id (.ok () s')) :
    s'.Recorded row.id ∧ (Goes lets row → s'.ErasedIn row.id) ∧
      (¬Goes lets row → s'.drawers.find? row.id = some row) := by
  have hfound : s.drawers.find? row.id = some row := KeyedTable.find?_of_mem hrow
  cases h with
  | missing hfind =>
    rw [hfound] at hfind
    cases hfind
  | cleared hfind hstate =>
    obtain rfl := Option.some.inj (hfound.symm.trans hfind)
    have hmem := mem_update_row (f := (·.clearContent)) (fun _ => rfl) hrow
    exact ⟨recorded_entered, fun _ => ⟨row.clearContent, hmem, rfl, hstate, rfl⟩,
      fun hstays => absurd (Or.inl hstate) hstays⟩
  | kept hfind hstate hrefused =>
    obtain rfl := Option.some.inj (hfound.symm.trans hfind)
    obtain ⟨rowUuid, violation, -, hviolation⟩ := hrefused
    refine ⟨recorded_entered, fun hgoes => ?_, fun _ => hfound⟩
    obtain hstate' | hlets := hgoes
    · exact absurd hstate' hstate
    · obtain ⟨event, hevent⟩ := (hverdict (rowRequest substrate s rowUuid row .tombstone
        (expungeWrites row.bitmaps.adjective) (substrate.udcAnchor row.udcCode) changedBy
        (s.nextStamp substrate now)) row.bitmaps rfl rfl rfl).mpr hlets
      rw [hviolation] at hevent
      cases hevent
  | @scrubbed other event hid hstate hscrub =>
    obtain rfl := hscrub.eq_row hrow hid.symm
    obtain ⟨rowUuid, -, hevent⟩ := hscrub.gate
    refine ⟨recorded_entered, fun _ => ?_, fun hstays => ?_⟩
    · exact (ledgerKept_loggedIf _ _ _).erased _ (erasedIn_withScrub hgate hscrub)
    · exact absurd (Or.inr ((hverdict _ row.bitmaps rfl rfl rfl).mp ⟨event, hevent⟩)) hstays

theorem RewritesOnly.find?_of_not_mem {ids : List String} (h : s.RewritesOnly ids s') {row : Drawer}
    (hrow : row ∈ s.drawers.rows) (hid : row.id ∉ ids) : s'.drawers.find? row.id = some row := by
  obtain ⟨f, hrows, hkeep, -⟩ := h.rows
  refine KeyedTable.find?_eq_some_iff.mpr ⟨?_, rfl⟩
  rw [hrows]
  exact List.mem_map.mpr ⟨row, hrow, hkeep row hid⟩

theorem SiblingsRun.erasureKept {ids : List String} (hgate : LawfulGate substrate)
    (hrun : SiblingsRun substrate headId changedBy now sealAudit headStamp s ids r) :
    s.ErasureKept (stateAfter r) := by
  induction hrun with
  | done => exact .refl _
  | next h _ ih => exact (h.erasureKept hgate).trans ih
  | failed h => exact h.erasureKept hgate

/-- What the loop does to a row that it is about. -/
theorem SiblingsRun.reached {ids : List String} (hgate : LawfulGate substrate)
    (hverdict : TombstoneVerdict substrate lets)
    (hrun : SiblingsRun substrate headId changedBy now sealAudit headStamp s ids r)
    (hr : r = .ok () s') (hnodup : ids.Nodup) {row : Drawer} (hrow : row ∈ s.drawers.rows)
    (hid : row.id ∈ ids) :
    s'.Recorded row.id ∧ (Goes lets row → s'.ErasedIn row.id) ∧
      (¬Goes lets row → s'.drawers.find? row.id = some row) := by
  induction hrun with
  | done => cases hid
  | failed h => cases hr
  | @next s s₁ x xs r h hrest ih =>
    subst hr
    obtain ⟨hx, hxs⟩ := List.nodup_cons.mp hnodup
    by_cases heq : row.id = x
    · subst heq
      obtain ⟨hrecorded, herased, hstays⟩ := h.reached hgate hverdict hrow
      have hkept := hrest.erasureKept hgate
      refine ⟨hkept.recorded _ hrecorded, fun hgoes => hkept.erased _ (herased hgoes),
        fun hno => ?_⟩
      have hmem := (KeyedTable.find?_eq_some_iff.mp (hstays hno)).1
      exact (hrest.rewritesOnly fun _ hmem => hmem).find?_of_not_mem hmem hx
    · have hkeep : s₁.drawers.find? row.id = some row :=
        (h.rewritesOnly (List.mem_singleton_self x)).find?_of_not_mem hrow
          fun hmem => heq (List.mem_singleton.mp hmem)
      exact ih rfl hxs (KeyedTable.find?_eq_some_iff.mp hkeep).1
        ((List.mem_cons.mp hid).resolve_left heq)

/-- A round about a row that goes records nothing that is not erased. -/
theorem SiblingOutcome.ledgerKept (hgate : LawfulGate substrate)
    (hverdict : TombstoneVerdict substrate lets)
    (hgoes : ∀ row ∈ s.drawers.rows, row.id = siblingId → Goes lets row)
    (h : SiblingOutcome substrate headId changedBy now sealAudit headStamp s siblingId r) :
    s.LedgerKept (stateAfter r) := by
  refine ⟨h.erasureKept hgate, fun id hid => ?_⟩
  have hreached {row : Drawer} {s' : DrawerStore} (hfind : s.drawers.find? siblingId = some row)
      (hr : r = .ok () s') : s'.ErasedIn siblingId := by
    obtain ⟨hrow, rfl⟩ := KeyedTable.find?_eq_some_iff.mp hfind
    rw [hr] at h
    exact (h.reached hgate hverdict hrow).2.1 (hgoes row hrow rfl)
  cases h with
  | missing => exact Or.inl hid
  | invalid => exact Or.inl hid
  | cleared hfind =>
    obtain hid | rfl := recorded_of_entered hid
    · exact Or.inl hid
    · exact Or.inr (hreached hfind rfl)
  | kept hfind =>
    obtain hid | rfl := recorded_of_entered hid
    · exact Or.inl hid
    · exact Or.inr (hreached hfind rfl)
  | scrubbed hrowId hstate hscrub =>
    subst hrowId
    obtain hid | rfl := recorded_of_entered hid
    · cases sealAudit with
      | false => exact Or.inl hid
      | true => exact Or.inl hid
    · exact Or.inr (hreached hscrub.found rfl)

theorem SiblingsRun.ledgerKept {ids : List String} (hgate : LawfulGate substrate)
    (hverdict : TombstoneVerdict substrate lets)
    (hrun : SiblingsRun substrate headId changedBy now sealAudit headStamp s ids r)
    (hnodup : ids.Nodup) (hgoes : ∀ row ∈ s.drawers.rows, row.id ∈ ids → Goes lets row) :
    s.LedgerKept (stateAfter r) := by
  induction hrun with
  | done => exact .refl _
  | @next s s₁ x xs r h _ ih =>
    obtain ⟨hx, hxs⟩ := List.nodup_cons.mp hnodup
    have hfirst : ∀ row ∈ s.drawers.rows, row.id = x → Goes lets row := by
      rintro row hrow rfl
      exact hgoes row hrow List.mem_cons_self
    refine (h.ledgerKept hgate hverdict hfirst).trans (ih hxs fun row hrow hid => ?_)
    -- The rows of the later rounds are as they were.
    obtain ⟨old, hold, hold_id, -⟩ :=
      (h.rewritesOnly (List.mem_singleton_self x)).exists_row hrow
    have hne : old.id ∉ [x] := fun hmem => hx (List.mem_singleton.mp hmem ▸ hold_id ▸ hid)
    have hkeep := (h.rewritesOnly (List.mem_singleton_self x)).find?_of_not_mem hold hne
    obtain rfl : row = old :=
      KeyedTable.eq_of_key_eq hrow (KeyedTable.find?_eq_some_iff.mp hkeep).1 hold_id
    exact hgoes row hold (List.mem_cons_of_mem _ hid)
  | @failed s s₁ x xs e h =>
    refine h.ledgerKept hgate hverdict ?_
    rintro row hrow rfl
    exact hgoes row hrow List.mem_cons_self

end Loop

section Expunge

variable {drawerId changedBy : String} {reason : Option String} {sealAudit : Bool}
  {lets : BitmapFields → Prop}

theorem nodup_siblingIds (s : DrawerStore) (drawerId : String) : (s.siblingIds drawerId).Nodup := by
  refine List.Nodup.filter _ ?_
  rw [lineageChain]
  split
  next row =>
    exact s.drawers.nodup.sublist (List.filter_sublist.map Drawer.id)
  next => exact List.nodup_nil

theorem erasureKept_withHead (hgate : LawfulGate substrate) {row : Drawer} {event : AuditEvent}
    (hscrub : Scrubbable substrate s now row changedBy event) :
    s.ErasureKept (s.withHead substrate now row.id event) :=
  (ledgerKept_withScrub hgate hscrub).toErasureKept.trans (erasureKept_entered _ _ _)

theorem erasureKept_expungeGated (hgate : LawfulGate substrate) : s.ErasureKept
    (stateAfter (expungeGated substrate drawerId changedBy reason now sealAudit s)) := by
  generalize hresult : expungeGated substrate drawerId changedBy reason now sealAudit s = r
  cases expungeGated_outcome hresult with
  | refused hrefused => exact (ledgerKept_refused hrefused).toErasureKept
  | failed hid hscrub hrun =>
    subst hid
    exact (erasureKept_withHead hgate hscrub).trans (hrun.erasureKept hgate)
  | done hid hscrub hrun =>
    subst hid
    exact ((erasureKept_withHead hgate hscrub).trans (hrun.erasureKept hgate)).trans
      (ledgerKept_loggedIf _ _ _).toErasureKept

/-- An expunge of a lineage whose rows all go records nothing that is not erased. -/
theorem ledgerKept_expungeGated (hgate : LawfulGate substrate)
    (hverdict : TombstoneVerdict substrate lets)
    (hgoes : ∀ row ∈ s.drawers.rows, row.id ∈ s.lineageChain drawerId → Goes lets row) :
    s.LedgerKept
      (stateAfter (expungeGated substrate drawerId changedBy reason now sealAudit s)) := by
  have hhead {row : Drawer} {event : AuditEvent}
      (hscrub : Scrubbable substrate s now row changedBy event) :
      s.LedgerKept (s.withHead substrate now row.id event) := by
    refine ⟨erasureKept_withHead hgate hscrub, fun id hid => ?_⟩
    obtain hid | rfl := recorded_of_entered hid
    · exact Or.inl hid
    · exact Or.inr (erasedIn_withScrub hgate hscrub)
  have hsiblings {row : Drawer} {event : AuditEvent} :
      ∀ other ∈ (s.withHead substrate now row.id event).drawers.rows,
        other.id ∈ s.siblingIds row.id → row.id = drawerId → Goes lets other := by
    rintro other hother hid rfl
    obtain ⟨hchain, hne⟩ := List.mem_filter.mp hid
    have hmem := mem_of_mem_update (f := (·.scrub event.afterBitmaps.adjective now)) (fun _ => rfl)
      hother (bne_iff_ne.mp hne)
    exact hgoes other hmem hchain
  generalize hresult : expungeGated substrate drawerId changedBy reason now sealAudit s = r
  cases expungeGated_outcome hresult with
  | refused hrefused => exact ledgerKept_refused hrefused
  | failed hid hscrub hrun =>
    subst hid
    exact (hhead hscrub).trans (hrun.ledgerKept hgate hverdict (nodup_siblingIds s _)
      fun other hother hin => hsiblings other hother hin rfl)
  | done hid hscrub hrun =>
    subst hid
    exact ((hhead hscrub).trans (hrun.ledgerKept hgate hverdict (nodup_siblingIds s _)
      fun other hother hin => hsiblings other hother hin rfl)).trans (ledgerKept_loggedIf _ _ _)

/-- Every row of the lineage is recorded by an expunge that succeeds; it is erased if the gate lets
it go, and as it was if not. -/
theorem expungeGated_reached (hgate : LawfulGate substrate)
    (hverdict : TombstoneVerdict substrate lets) {event : AuditEvent}
    (h : expungeGated substrate drawerId changedBy reason now sealAudit s = .ok event s')
    {row : Drawer} (hrow : row ∈ s.drawers.rows) (hchain : row.id ∈ s.lineageChain drawerId) :
    s'.Recorded row.id ∧ (Goes lets row → s'.ErasedIn row.id) ∧
      (¬Goes lets row → s'.drawers.find? row.id = some row) := by
  cases expungeGated_outcome h with
  | refused hrefused => exact hrefused.not_ok.elim
  | @done head headEvent s₁ hid hscrub hrun =>
    subst hid
    have hlogged := (ledgerKept_loggedIf s₁ sealAudit headEvent).toErasureKept
    by_cases heq : row.id = head.id
    · obtain rfl := hscrub.eq_row hrow heq
      have hkept := (hrun.erasureKept hgate).trans hlogged
      refine ⟨hkept.recorded _ recorded_entered, fun _ => ?_, fun hstays => ?_⟩
      · exact hkept.erased _
          ((erasureKept_entered _ _ _).erased _ (erasedIn_withScrub hgate hscrub))
      · obtain ⟨rowUuid, -, hevent⟩ := hscrub.gate
        exact absurd (Or.inr ((hverdict _ row.bitmaps rfl rfl rfl).mp ⟨headEvent, hevent⟩)) hstays
    · have hsibling : row.id ∈ s.siblingIds head.id := by
        refine List.mem_filter.mpr ⟨hchain, ?_⟩
        simpa using heq
      have hmem : row ∈ (s.withHead substrate now head.id headEvent).drawers.rows :=
        mem_update_of_ne (f := (·.scrub headEvent.afterBitmaps.adjective now)) (fun _ => rfl)
          hrow heq
      obtain ⟨hrecorded, herased, hstays⟩ :=
        hrun.reached hgate hverdict rfl (nodup_siblingIds s head.id) hmem hsibling
      refine ⟨hlogged.recorded _ hrecorded, fun hgoes => hlogged.erased _ (herased hgoes),
        fun hno => ?_⟩
      rw [← hstays hno]
      cases sealAudit <;> rfl

end Expunge

section Runs

variable {lets : BitmapFields → Prop}

theorem ledgerKept_step (hgate : FinalGate substrate) {call : StoreCall}
    (hcall : call.expunged = none) : s.LedgerKept (s.step substrate call) := by
  rw [step]
  cases call with
  | addDrawer drawer now => exact ledgerKept_addDrawer hgate
  | mutateColumn column drawerId newValue changedBy reason now =>
    exact ledgerKept_mutateColumn hgate
  | mutateState drawerId newState via changedBy reason now => exact ledgerKept_mutateState hgate
  | expungeGated drawerId changedBy reason now sealAudit => cases hcall
  | reanchorGated drawerId toRoom toWing toLattice changedBy reason now minted =>
    exact ledgerKept_reanchorGated
  | sealExpungeAudit event => exact .of_rows (fun _ hrow => hrow) rfl
  | sealExpungeOrphanAudit event changedBy now => exact .of_rows (fun _ hrow => hrow) rfl
  | sealExpungeOrphanForSweep drawerId changedBy now =>
    obtain ⟨e, hr⟩ | ⟨row, rowUuid, eventId, -, -, hr⟩ := sealExpungeOrphanForSweep_cases
      (rfl : sealExpungeOrphanForSweep substrate drawerId changedBy now s = _)
    · rw [StoreCall.run, hr]
      exact .refl s
    · rw [StoreCall.run, hr]
      exact .of_rows (fun _ hrow => hrow) rfl
  | rebuildContainerFingerprints => exact .of_rows (fun _ hrow => hrow) rfl
  | reopen mintedUuidText now =>
    obtain ⟨e, hr⟩ | ⟨uuid, -, hr⟩ := reopen_cases
      (rfl : DrawerStore.reopen substrate mintedUuidText now s = _)
    · rw [StoreCall.run, hr]
      exact .refl s
    · rw [StoreCall.run, hr]
      exact .of_rows (fun _ hrow => hrow) rfl
  | createNode displayName parentId mintedId =>
    rw [StoreCall.run, stateAfter_dropAnswer]
    obtain ⟨e, hr⟩ | ⟨node, nodes, -, hr⟩ := createNode_cases
      (rfl : DrawerStore.createNode substrate displayName parentId mintedId s = _)
    · rw [hr]
      exact .refl s
    · rw [hr]
      exact .of_rows (fun _ hrow => hrow) rfl
  | createRoot displayName mintedId =>
    rw [StoreCall.run, stateAfter_dropAnswer]
    obtain ⟨e, hr⟩ | ⟨node, nodes, -, hr⟩ := createRoot_cases
      (rfl : DrawerStore.createRoot substrate displayName mintedId s = _)
    · rw [hr]
      exact .refl s
    · rw [hr]
      exact .of_rows (fun _ hrow => hrow) rfl

theorem erasureKept_step (hgate : FinalGate substrate) (call : StoreCall) :
    s.ErasureKept (s.step substrate call) := by
  cases hcall : call.expunged with
  | none => exact (ledgerKept_step hgate hcall).toErasureKept
  | some rowId =>
    cases call with
    | expungeGated drawerId changedBy reason now sealAudit =>
      rw [step, StoreCall.run, stateAfter_dropAnswer]
      exact erasureKept_expungeGated hgate.toLawfulGate
    | _ => cases hcall

theorem erasureKept_run (hgate : FinalGate substrate) (s : DrawerStore) (calls : List StoreCall) :
    s.ErasureKept (calls.foldl (step substrate) s) := by
  induction calls generalizing s with
  | nil => exact .refl s
  | cons call calls ih => exact (erasureKept_step hgate call).trans (ih (s.step substrate call))

/-- An expunge that succeeds reaches every row of the lineage. A row that the gate does not let go
is left as it was; each other one is erased, and after any further calls still is. The ledger has
both kinds, and keeps them. -/
theorem expungeGated_final (hgate : FinalGate substrate)
    (hverdict : TombstoneVerdict substrate lets)
    {drawerId changedBy : String} {reason : Option String} {sealAudit : Bool} {event : AuditEvent}
    (h : expungeGated substrate drawerId changedBy reason now sealAudit s = .ok event s')
    {row : Drawer} (hrow : row ∈ s.drawers.rows) (hchain : row.id ∈ s.lineageChain drawerId) :
    (¬Goes lets row → s'.drawers.find? row.id = some row) ∧ ∀ calls : List StoreCall,
      (calls.foldl (step substrate) s').Recorded row.id ∧
        (Goes lets row → (calls.foldl (step substrate) s').ErasedIn row.id) := by
  obtain ⟨hrecorded, herased, hstays⟩ :=
    expungeGated_reached hgate.toLawfulGate hverdict h hrow hchain
  refine ⟨hstays, fun calls => ?_⟩
  have hkept := erasureKept_run hgate s' calls
  exact ⟨hkept.recorded _ hrecorded, fun hgoes => hkept.erased _ (herased hgoes)⟩

theorem expunged_iff {P : String → Prop} {call : StoreCall} :
    (∀ drawerId ∈ call.expunged.toList, P drawerId) ↔ ∀ drawerId ∈ call.expunged, P drawerId :=
  forall_congr' fun _ => imp_congr_left Option.mem_toList

/-- No expunge of the run meets a row that the gate does not let go. -/
def ExpungesWhole (substrate : Substrate) (lets : BitmapFields → Prop) (s : DrawerStore) :
    List StoreCall → Prop
  | [] => True
  | call :: calls =>
    (∀ drawerId ∈ call.expunged, ∀ row ∈ s.drawers.rows, row.id ∈ s.lineageChain drawerId →
      Goes lets row) ∧ ExpungesWhole substrate lets (s.step substrate call) calls

theorem ledgerKept_run (hgate : FinalGate substrate) (hverdict : TombstoneVerdict substrate lets)
    {s : DrawerStore} {calls : List StoreCall} (hwhole : s.ExpungesWhole substrate lets calls) :
    s.LedgerKept (calls.foldl (step substrate) s) := by
  induction calls generalizing s with
  | nil => exact .refl s
  | cons call calls ih =>
    refine LedgerKept.trans ?_ (ih hwhole.2)
    cases hcall : call.expunged with
    | none => exact ledgerKept_step hgate hcall
    | some rowId =>
      cases call with
      | expungeGated drawerId changedBy reason now sealAudit =>
        rw [step, StoreCall.run, stateAfter_dropAnswer]
        exact ledgerKept_expungeGated hgate.toLawfulGate hverdict (hwhole.1 drawerId rfl)
      | _ => cases hcall

/-- In every state of a run whose expunges meet only rows that the gate lets go, each id of the
ledger is that of an erased drawer. -/
theorem erasedIn_of_recorded (hgate : FinalGate substrate)
    (hverdict : TombstoneVerdict substrate lets)
    (owner : String) {calls : List StoreCall}
    (hwhole : (fresh owner).ExpungesWhole substrate lets calls) {id : String}
    (hrecorded : (calls.foldl (step substrate) (fresh owner)).Recorded id) :
    (calls.foldl (step substrate) (fresh owner)).ErasedIn id := by
  obtain ⟨entry, hentry, -⟩ | herased := (ledgerKept_run hgate hverdict hwhole).fresh id hrecorded
  · cases hentry
  · exact herased

end Runs

end DrawerStore

theorem finalGate_referenceSubstrate : FinalGate referenceSubstrate where
  toAutomatonGate := automatonGate_referenceSubstrate
  edit := by
    intro request event prior hadm hprior hverb
    change referenceAdmit request = _ at hadm
    have hevent := referenceAdmit_eq_ok hadm
    rw [referenceAdmit, hprior] at hadm
    dsimp only at hadm
    split at hadm
    next htransition =>
      rw [hevent, hprior]
      rw [hverb] at htransition
      show (prior.applyWrites request.writes).state = prior.state
      cases hstate : prior.state <;> rw [hstate] at htransition <;>
        first
        | exact (Option.some.inj htransition).symm
        | simp [referenceTransition] at htransition
    next => cases hadm

/-- The rows that may be tombstoned. -/
def referenceLets (fields : BitmapFields) : Prop :=
  fields.state = .active ∨ fields.state = .superseded

instance (fields : BitmapFields) : Decidable (referenceLets fields) :=
  inferInstanceAs (Decidable (_ ∨ _))

theorem tombstoneVerdict_referenceSubstrate :
    TombstoneVerdict referenceSubstrate referenceLets := by
  intro request prior hverb hprior hwrites
  have hafter : (prior.applyWrites (expungeWrites prior.adjective)).state = .tombstoned := by
    rw [BitmapFields.state, DrawerStore.stateField_expungeWrites, State.fromRaw_rawValue]
  show (∃ event, referenceAdmit request = .ok event) ↔ _
  rw [referenceAdmit, hprior]
  dsimp only
  rw [hverb, hwrites, hafter, referenceLets]
  cases prior.state <;> simp [referenceTransition]

namespace DrawerStore

instance (lets : BitmapFields → Prop) [DecidablePred lets] (row : Drawer) :
    Decidable (Goes lets row) := inferInstanceAs (Decidable (_ ∨ _))

/-- Three rows of a lineage, the oldest accepted and hence kept back by the gate. -/
def keptBack : DrawerStore :=
  [StoreCall.mutateState (referenceUuidText "1") .accepted .promote "alice" none 6,
    .addDrawer (referenceDrawer "2" 1 7) 7, .addDrawer (referenceDrawer "3" 1 8) 8].foldl
      (step referenceSubstrate) capturedRoom

/-- The expunge of the superseded row leaves the accepted one alone; the active one stays erased. -/
theorem expungeGated_final_keptBack : ∃ event s',
    expungeGated referenceSubstrate (referenceUuidText "2") "alice" none 9 true keptBack =
      .ok event s' ∧
    (∃ row, row.content = "content" ∧ s'.drawers.find? (referenceUuidText "1") = some row) ∧
    ∀ calls : List StoreCall,
      (calls.foldl (step referenceSubstrate) s').ErasedIn (referenceUuidText "3") := by
  have hsucceeds : Succeeds referenceSubstrate keptBack
      (.expungeGated (referenceUuidText "2") "alice" none 9 true) := by decide +kernel
  obtain ⟨s', hrun⟩ := hsucceeds
  obtain ⟨event, hok⟩ := dropAnswer_eq_ok hrun
  have hrows : ∃ kept ∈ keptBack.drawers.rows, ∃ gone ∈ keptBack.drawers.rows,
      kept.id = referenceUuidText "1" ∧ kept.content = "content" ∧ ¬Goes referenceLets kept ∧
      kept.id ∈ keptBack.lineageChain (referenceUuidText "2") ∧
      gone.id = referenceUuidText "3" ∧ Goes referenceLets gone ∧
      gone.id ∈ keptBack.lineageChain (referenceUuidText "2") := by decide +kernel
  obtain ⟨kept, hkept, gone, hgone, hkeptId, hcontent, hstays, hkeptChain, hgoneId, hgoes,
    hgoneChain⟩ := hrows
  refine ⟨event, s', hok, ⟨kept, hcontent, ?_⟩, fun calls => ?_⟩
  · rw [← hkeptId]
    exact (expungeGated_final finalGate_referenceSubstrate tombstoneVerdict_referenceSubstrate hok
      hkept hkeptChain).1 hstays
  · rw [← hgoneId]
    exact ((expungeGated_final finalGate_referenceSubstrate tombstoneVerdict_referenceSubstrate hok
      hgone hgoneChain).2 calls).2 hgoes

instance decidableExpungesWhole (substrate : Substrate) (lets : BitmapFields → Prop)
    [DecidablePred lets] : ∀ (calls : List StoreCall) (s : DrawerStore),
      Decidable (s.ExpungesWhole substrate lets calls)
  | [], _ => isTrue trivial
  | call :: calls, s =>
    have := decidableExpungesWhole substrate lets calls (s.step substrate call)
    have : Decidable (∀ drawerId ∈ call.expunged, ∀ row ∈ s.drawers.rows,
        row.id ∈ s.lineageChain drawerId → Goes lets row) :=
      decidable_of_iff _ expunged_iff
    inferInstanceAs (Decidable (_ ∧ _))

/-- A lineage of two rows, expunged whole. -/
def expungedWhole : List StoreCall :=
  [.createRoot "estate" "root", .createNode "Wing" "root" "wing", .createNode "Room" "wing" "room",
    .addDrawer (referenceDrawer "1" 1 5) 5, .addDrawer (referenceDrawer "2" 1 7) 7,
    .expungeGated (referenceUuidText "2") "alice" none 9 true]

theorem erasedIn_of_recorded_expungedWhole :
    (expungedWhole.foldl (step referenceSubstrate) (fresh "alice")).ErasedIn
      (referenceUuidText "1") := by
  refine erasedIn_of_recorded finalGate_referenceSubstrate tombstoneVerdict_referenceSubstrate
    "alice" (by decide +kernel) ?_
  have hrecorded : ∃ entry ∈
      (expungedWhole.foldl (step referenceSubstrate) (fresh "alice")).erasureLedger.rows,
        entry.drawerId = referenceUuidText "1" := by decide +kernel
  exact hrecorded

end DrawerStore

end MootMemory
