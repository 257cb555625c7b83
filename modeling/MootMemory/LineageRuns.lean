import MootMemory.BatchCapture
import MootMemory.EffectViews
import MootMemory.EstateRemoval
import MootMemory.LineageHeads

namespace MootMemory

namespace DrawerStore

variable {substrate : Substrate} {inLineage : Uuid → Prop} {s : DrawerStore} {now : Int}

section Captures

variable {drawer : Drawer} {r : EStateM.Result LocusKitError DrawerStore Unit}

/-- A lineage in which a capture finds no predecessor has no living row. -/
theorem vacant_of_no_predecessor (h : HeadsKept substrate inLineage s.drawers)
    (hin : inLineage drawer.lineageId) (hfresh : ∀ row ∈ s.drawers.rows, row.id ≠ drawer.id)
    (hnone : s.findActivePredecessor drawer.lineageId drawer.id = none) :
    ∀ row ∈ s.drawers.rows, row.lineageId = drawer.lineageId → ¬row.Living := by
  intro row hrow hlineage hliving
  have hactive := h.ready row hrow (hlineage ▸ hin) hliving
  have hraw : row.stateRaw.toNat < 3 := by
    rw [(h.sound row hrow).named, hactive]
    decide
  have hfind := List.find?_eq_none.mp (Option.map_eq_none_iff.mp hnone) row hrow
  refine hfind ?_
  simp only [Bool.and_eq_true, beq_iff_eq, bne_iff_ne, decide_eq_true_eq]
  exact ⟨⟨hlineage, hfresh row hrow⟩, hraw⟩

/-- What holds of a drawer that a capture is about to add. -/
structure NewHead (inLineage : Uuid → Prop) (drawer : Drawer) : Prop where
  sound : drawer.StateSound
  active : drawer.state = .active
  inLineage : inLineage drawer.lineageId

theorem headsKept_captured (h : HeadsKept substrate inLineage s.drawers)
    (hnew : NewHead inLineage drawer) {drawers : KeyedTable Drawer.id} {event : AuditEvent}
    (hcaptured : Captured substrate s now drawer drawers event)
    (hnone : s.findActivePredecessor drawer.lineageId drawer.id = none) :
    HeadsKept substrate inLineage drawers := by
  obtain ⟨hfresh, hrows⟩ := KeyedTable.insert?_eq_some_iff.mp hcaptured.inserted
  obtain ⟨rowUuid, hparse, -⟩ := hcaptured.gate
  refine h.adjoin drawer (fun row hrow => ?_) hnew.sound hnew.active ⟨rowUuid, hparse⟩
    (vacant_of_no_predecessor h hnew.inLineage hfresh hnone)
  rwa [hrows, List.mem_append, List.mem_singleton] at hrow

/-- A predecessor that was flipped leaves its lineage to the new drawer. -/
theorem headsKept_flipped (hgate : AutomatonGate substrate)
    (h : HeadsKept substrate inLineage s.drawers) (hnew : NewHead inLineage drawer)
    {drawers : KeyedTable Drawer.id} {event flip : AuditEvent} {prior row : Drawer}
    {tunnels : KeyedTable Tunnel.id}
    (hcaptured : Captured substrate s now drawer drawers event)
    (hprior : prior ∈ s.drawers.rows) (hlineage : prior.lineageId = drawer.lineageId)
    (hliving : prior.Living) (hid : row.id = prior.id)
    (hflip : Admitted substrate ((s.withCapture substrate now drawers event).withTunnels tunnels)
      now row .supersede [⟨stateSlot, State.superseded.rawValue⟩] (substrate.udcAnchor row.udcCode)
      drawer.addedBy flip) :
    HeadsKept substrate inLineage (drawers.update prior.id
      (·.setAdjective flip.afterBitmaps.adjective) flip.id_setAdjective) := by
  obtain ⟨hfresh, hrows⟩ := KeyedTable.insert?_eq_some_iff.mp hcaptured.inserted
  obtain ⟨rowUuid, hparse, -⟩ := hcaptured.gate
  have hmem (d : Drawer) : d ∈ drawers.rows ↔ d ∈ s.drawers.rows ∨ d = drawer := by
    rw [hrows, List.mem_append, List.mem_singleton]
  have hne : drawer.id ≠ prior.id := fun heq => hfresh prior hprior heq.symm
  obtain rfl : prior = row :=
    KeyedTable.eq_of_key_eq ((hmem prior).mpr (Or.inl hprior)) hflip.mem hid.symm
  have hraw := stateRaw_transition hgate.toLawfulGate hflip
  have hkept : KeepsHead inLineage s.drawers.rows prior
      (prior.setAdjective flip.afterBitmaps.adjective) :=
    keepsHead_transition hgate (by decide) hflip (h.sound prior hprior)
      (fun hlow => absurd hlow (by decide)) fun hlow => absurd hlow (by decide)
  have hflipped : HeadsKept substrate inLineage (s.drawers.update prior.id
      (·.setAdjective flip.afterBitmaps.adjective) flip.id_setAdjective) := by
    refine h.update (f := (·.setAdjective flip.afterBitmaps.adjective)) flip.id_setAdjective
      fun d hd hdid => ?_
    obtain rfl := KeyedTable.eq_of_key_eq hd hprior hdid
    exact hkept
  refine hflipped.adjoin drawer (fun d hd => ?_) hnew.sound hnew.active ⟨rowUuid, hparse⟩
    fun d hd hdlineage hdliving => ?_
  · obtain ⟨old, hold, hoid, rfl⟩ | ⟨hd, hdne⟩ := KeyedTable.mem_update.mp hd
    · obtain hold | rfl := (hmem old).mp hold
      · exact Or.inl (KeyedTable.mem_update.mpr (Or.inl ⟨old, hold, hoid, rfl⟩))
      · exact absurd hoid hne
    · obtain hd | rfl := (hmem d).mp hd
      · exact Or.inl (KeyedTable.mem_update.mpr (Or.inr ⟨hd, hdne⟩))
      · exact Or.inr rfl
  · obtain ⟨old, hold, hoid, rfl⟩ | ⟨hd, hdne⟩ := KeyedTable.mem_update.mp hd
    · obtain rfl := KeyedTable.eq_of_key_eq hold hprior hoid
      have hlow := hdliving.2
      rw [hraw] at hlow
      exact absurd hlow (by decide)
    · exact hdne (h.oneHead d hd prior hprior (hdlineage.trans hlineage.symm) hdliving hliving)

/-- The gate lets the active predecessor of a new drawer be superseded. -/
theorem exists_flip (hgate : AutomatonGate substrate) (s : DrawerStore) (now : Int) {prior : Drawer}
    (hprior : prior ∈ s.drawers.rows) (hactive : prior.state = .active)
    (hparse : ∃ rowUuid, substrate.parseUuid prior.id = some rowUuid) (changedBy : String) :
    ∃ event, Admitted substrate s now prior .supersede [⟨stateSlot, State.superseded.rawValue⟩]
      (substrate.udcAnchor prior.udcCode) changedBy event := by
  obtain ⟨rowUuid, hparse⟩ := hparse
  have hadmits : ∃ event, substrate.gateAdmit (rowRequest substrate s rowUuid prior .supersede
      [⟨stateSlot, State.superseded.rawValue⟩] (substrate.udcAnchor prior.udcCode) changedBy
      (s.nextStamp substrate now)) = .ok event :=
    hgate.supersedes rfl hactive rfl (state_stateWrite prior.bitmaps .superseded)
  obtain ⟨event, hevent⟩ := hadmits
  exact ⟨event, KeyedTable.find?_of_mem hprior, rowUuid, hparse, hevent⟩

theorem InsertOutcome.headsKept (hgate : AutomatonGate substrate)
    (hempty : substrate.parseUuid "" = none) (h : HeadsKept substrate inLineage s.drawers)
    (hnew : NewHead inLineage drawer) (hinsert : InsertOutcome substrate s drawer now r)
    (hby : ∀ e s', r = .error e s' → drawer.addedBy ≠ "") :
    HeadsKept substrate inLineage (stateAfter r).drawers := by
  cases hinsert with
  | refused hrefused => exact headsKept_refused h hrefused
  | captured hnone hcaptured => exact headsKept_captured h hnew hcaptured hnone
  | cascade hfind hcascade =>
    obtain ⟨prior, hprior, rfl, hlineage, hne, hlow⟩ := findActivePredecessor_eq_some hfind
    have hliving := (h.sound prior hprior).living (by omega)
    cases hcascade with
    | refused hrefused => exact headsKept_refused h hrefused
    | undone hcaptured =>
      show HeadsKept substrate inLineage (KeyedTable.erase _ drawer.id)
      rw [KeyedTable.erase_of_insert? hcaptured.inserted]
      exact h
    | @stored drawers event tunnels _ hcaptured hflip =>
      cases hflip with
      | flipped hid hflip =>
        exact headsKept_flipped hgate h hnew hcaptured hprior hlineage hliving hid hflip
      | refused hrefused hno =>
        -- The gate would have to refuse an active row.
        obtain ⟨e, hr⟩ := hrefused
        have hparsed := h.parsed prior hprior
        have hmem : prior ∈ drawers.rows := by
          rw [(KeyedTable.insert?_eq_some_iff.mp hcaptured.inserted).2]
          exact List.mem_append_left _ hprior
        have hid : prior.id ≠ "" := by
          intro hid
          obtain ⟨rowUuid, hparse⟩ := hparsed
          rw [hid, hempty] at hparse
          cases hparse
        have haddedBy : drawer.addedBy ≠ "" := by
          obtain rfl | rfl := hr
          · exact hby _ _ rfl
          · exact hby _ _ rfl
        obtain ⟨event, hevent⟩ := exists_flip hgate
          ((s.withCapture substrate drawer.filedAt drawers event).withTunnels tunnels)
          drawer.filedAt hmem
          (h.ready prior hprior (hlineage ▸ hnew.inLineage) hliving) hparsed drawer.addedBy
        exact absurd ⟨prior, event, rfl, hevent⟩ (hno hid haddedBy)

/-- A new drawer is the only head of its lineage, where the old one was active. -/
theorem headsKept_addDrawer (hgate : AutomatonGate substrate)
    (hempty : substrate.parseUuid "" = none) (h : HeadsKept substrate inLineage s.drawers)
    (hnew : NewHead inLineage drawer) :
    HeadsKept substrate inLineage (stateAfter (addDrawer substrate drawer now s)).drawers := by
  generalize hresult : addDrawer substrate drawer now s = r
  cases addDrawer_outcome hresult with
  | invalid => exact h
  | failed hinsert hby => exact hinsert.headsKept hgate hempty h hnew fun _ _ _ => hby
  | added hinsert =>
    have hafter := hinsert.headsKept hgate hempty h hnew fun _ _ hno => by cases hno
    exact hafter

theorem newHead_drawer {frame : CaptureFrame} {parentNodeId : String} {ids : CaptureIds}
    (hin : inLineage (frame.lineageId.getD ids.lineage)) :
    NewHead inLineage (frame.drawer parentNodeId ids now) := by
  have hraw : (frame.drawer parentNodeId ids now).stateRaw = 0 := by
    show extractField (writeField _ (writeField _ 0 6 6) 12 6) 0 6 = 0
    rw [extractField_writeField_of_disjoint (Or.inl (by decide)),
      extractField_writeField_of_disjoint (Or.inl (by decide))]
    rfl
  have hstate : (frame.drawer parentNodeId ids now).state = .active := by
    rw [Drawer.state, hraw]
    rfl
  exact {
    sound := ⟨by rw [hraw, hstate]; rfl, fun hno => absurd rfl hno⟩
    active := hstate
    inLineage := hin }

theorem resolveRoom_drawers (substrate : Substrate) (s : DrawerStore) (frame : CaptureFrame)
    (root : Node) (minted : MintedIds) :
    (stateAfter (resolveRoom substrate frame root minted s)).drawers = s.drawers := by
  obtain ⟨nodes, -, -, ⟨e, hr⟩ | ⟨room, hr, -⟩⟩ :=
    resolveRoom_cases (rfl : resolveRoom substrate frame root minted s = _)
  · rw [hr]
    rfl
  · rw [hr]
    rfl

theorem headsKept_capture (hgate : AutomatonGate substrate) (hempty : substrate.parseUuid "" = none)
    (h : HeadsKept substrate inLineage s.drawers) {frame : CaptureFrame} {ids : CaptureIds}
    (hin : inLineage (frame.lineageId.getD ids.lineage)) :
    HeadsKept substrate inLineage (stateAfter (capture substrate frame ids now s)).drawers := by
  cases hvalid : frame.validate with
  | error e =>
    rw [capture_invalid hvalid]
    exact h
  | ok u =>
    cases hroot : s.nodes.rootNode with
    | none =>
      simp only [capture, requireRoot, hvalid, StoreM.ofExcept, bind, EStateM.bind, pure,
        EStateM.pure, get_eq, hroot]
      exact h
    | some root =>
      rw [capture_eq hvalid hroot]
      have hdrawers := resolveRoom_drawers substrate s frame root ids.nodes
      cases hr : resolveRoom substrate frame root ids.nodes s with
      | error e s₁ =>
        simp only [bind, EStateM.bind, hr]
        rw [hr] at hdrawers
        exact hdrawers ▸ h
      | ok room s₁ =>
        rw [hr] at hdrawers
        have hadded : HeadsKept substrate inLineage
            (stateAfter (addDrawer substrate (frame.drawer room.id ids now) now s₁)).drawers :=
          headsKept_addDrawer hgate hempty (hdrawers ▸ h) (newHead_drawer hin)
        simp only [bind, EStateM.bind, hr]
        cases hadd : addDrawer substrate (frame.drawer room.id ids now) now s₁ with
        | error e s₂ =>
          rw [hadd] at hadded
          exact hadded
        | ok u s₂ =>
          rw [hadd] at hadded
          exact hadded

theorem cachedRoom_drawers (substrate : Substrate) (s : DrawerStore) (root : Node)
    (cache : List (String × Node)) (frame : CaptureFrame) (minted : MintedIds) :
    (stateAfter (cachedRoom substrate root cache frame minted s)).drawers = s.drawers := by
  cases hlookup : cache.lookup frame.cacheKey with
  | some room => rw [cachedRoom_hit hlookup, stateAfter_ok]
  | none =>
    rw [cachedRoom_miss hlookup, stateAfter_bind_pure]
    exact resolveRoom_drawers substrate s frame root minted

theorem headsKept_captureBatchLoop (hgate : AutomatonGate substrate)
    (hempty : substrate.parseUuid "" = none) {root : Node} {cache : List (String × Node)}
    {frames : List (CaptureFrame × CaptureIds)} (h : HeadsKept substrate inLineage s.drawers)
    (hin : ∀ p ∈ frames, inLineage (p.1.lineageId.getD p.2.lineage)) :
    HeadsKept substrate inLineage
      (stateAfter (captureBatchLoop substrate root now cache frames s)).drawers := by
  induction frames generalizing s cache with
  | nil => exact h
  | cons p frames ih =>
    obtain ⟨frame, ids⟩ := p
    cases hvalid : frame.validate with
    | error e =>
      simp only [captureBatchLoop, bind, EStateM.bind, hvalid, StoreM.ofExcept]
      exact h
    | ok u =>
      have hdrawers := cachedRoom_drawers substrate s root cache frame ids.nodes
      cases hroom : cachedRoom substrate root cache frame ids.nodes s with
      | error e s₁ =>
        rw [captureBatchLoop_of_error hvalid hroom]
        rw [hroom] at hdrawers
        exact hdrawers ▸ h
      | ok answer s₁ =>
        obtain ⟨room, cache'⟩ := answer
        rw [hroom] at hdrawers
        rw [captureBatchLoop_of_room hvalid hroom]
        have hadded : HeadsKept substrate inLineage
            (stateAfter (addDrawer substrate (frame.drawer room.id ids now) now s₁)).drawers :=
          headsKept_addDrawer hgate hempty (hdrawers ▸ h)
            (newHead_drawer (hin (frame, ids) List.mem_cons_self))
        cases hadd : addDrawer substrate (frame.drawer room.id ids now) now s₁ with
        | error e s₂ =>
          simp only [bind, EStateM.bind, hadd]
          rw [hadd] at hadded
          exact hadded
        | ok u s₂ =>
          rw [hadd] at hadded
          have hrest : HeadsKept substrate inLineage
              (stateAfter (captureBatchLoop substrate root now cache' frames s₂)).drawers :=
            ih hadded fun p hp => hin p (List.mem_cons_of_mem _ hp)
          rw [← stateAfter_bind_pure _ (frame.drawer room.id ids now :: ·)] at hrest
          simp only [bind, EStateM.bind, hadd]
          exact hrest

theorem headsKept_captureBatch (hgate : AutomatonGate substrate)
    (hempty : substrate.parseUuid "" = none) (h : HeadsKept substrate inLineage s.drawers)
    {frames : List (CaptureFrame × CaptureIds)}
    (hin : ∀ p ∈ frames, inLineage (p.1.lineageId.getD p.2.lineage)) :
    HeadsKept substrate inLineage (stateAfter (captureBatch substrate frames now s)).drawers := by
  cases hroot : s.nodes.rootNode with
  | none =>
    simp only [captureBatch, requireRoot, bind, EStateM.bind, get_eq, hroot]
    exact h
  | some root =>
    simp only [captureBatch, requireRoot, bind, EStateM.bind, get_eq, hroot, pure, EStateM.pure]
    exact headsKept_captureBatchLoop hgate hempty h hin

end Captures

section Estate

variable (substrate : Substrate)

/-- What the withdraw verb of an estate does to its drawers. -/
def withdraw (rowId : String) (reason : Option String) (now : Int) : StoreM Unit := do
  let _ ← readDrawer rowId
  mutateState substrate rowId .withdrawn .retract (← get).changedByOrEstate
    (some (reason.getD "withdrawn via Estate.withdraw")) now

/-- What the expunge verb of an estate does to its drawers. -/
def expunge (rowId reason : String) (confirmation : Bool) (now : Int) (sealAudit : Bool) :
    StoreM AuditEvent := do
  if confirmation then
    let _ ← readDrawer rowId
    expungeGated substrate rowId (← get).changedByOrEstate
      (some (if reason = "" then "expunged via Estate.expunge" else reason)) now sealAudit
  else throw (.invalidContent "expunge requires confirmation: true (destructive op)")

end Estate

/-- A row that is revived is alone in its lineage; for a superseded one the verb checks it. -/
def RevivesAlone (rows : List Drawer) (rowId : String) : Prop :=
  ∀ row ∈ rows, row.id = rowId → row.state ∈ [State.decayed, .withdrawn, .expired] →
    AloneIn rows row.id row.lineageId

instance (rows : List Drawer) (rowId : String) : Decidable (RevivesAlone rows rowId) :=
  inferInstanceAs (Decidable (∀ row ∈ rows, _ → _ → ∀ other ∈ rows, _ → _ → _))

section Verbs

variable {rowId : String}

theorem aloneIn_of_no_successor {row : Drawer}
    (hnone : s.livingSuccessorInLineage row.lineageId row.id = none) :
    AloneIn s.drawers.rows row.id row.lineageId := by
  intro other hother hlineage hliving
  by_contra hne
  have hfind := List.find?_eq_none.mp (Option.map_eq_none_iff.mp hnone) other hother
  refine hfind ?_
  simp only [Bool.and_eq_true, beq_iff_eq, bne_iff_ne, decide_eq_true_eq]
  exact ⟨⟨hlineage, hne⟩, hliving.2⟩

theorem aloneIn_of_revivable {row : Drawer} (hrow : row ∈ s.drawers.rows)
    (hrevives : RevivesAlone s.drawers.rows row.id) (hok : s.requireRevivable row = .ok ()) :
    AloneIn s.drawers.rows row.id row.lineageId := by
  rw [requireRevivable] at hok
  cases hstate : row.state with
  | decayed => exact hrevives row hrow rfl (by rw [hstate]; decide)
  | withdrawn => exact hrevives row hrow rfl (by rw [hstate]; decide)
  | expired => exact hrevives row hrow rfl (by rw [hstate]; decide)
  | superseded =>
    cases hnone : s.livingSuccessorInLineage row.lineageId row.id with
    | none => exact aloneIn_of_no_successor hnone
    | some successorId =>
      rw [hstate] at hok
      simp only [hnone, reviveRefused] at hok
      cases hok
  | active | pending | contested | accepted | rejected | tombstoned =>
    rw [hstate] at hok
    cases hok

variable (h : HeadsKept substrate (fun _ => False) s.drawers)

include h

theorem headsKept_current (hgate : AutomatonGate substrate) {changedBy : String} {newState : State}
    {via : RowVerb} {reason : Option String}
    (hvia : via = .contest ∨ via = .resolveContest ∨ via = .promote) :
    HeadsKept substrate (fun _ => False) (stateAfter
      (mutateState substrate rowId newState via changedBy reason now s)).drawers := by
  generalize hresult : mutateState substrate rowId newState via changedBy reason now s = r
  obtain hrefused | ⟨row, event, rfl, hadm, rfl⟩ := mutateState_cases hresult
  · exact headsKept_refused h hrefused
  · refine h.update (f := (·.setAdjective event.afterBitmaps.adjective)) (fun _ => rfl)
      fun d hd hid => ?_
    obtain rfl := hadm.eq_row hd hid
    have hsound := h.sound d hd
    have hliving : d.Living := by
      obtain ⟨rowUuid, -, hok⟩ := hadm.gate
      refine hsound.living ?_
      rw [hsound.named]
      exact hgate.current hok rfl hvia
    have hne : via ≠ .mutate := by
      obtain rfl | rfl | rfl := hvia
      · decide
      · decide
      · decide
    exact keepsHead_transition hgate hne hadm hsound (fun _ => h.aloneIn hd hliving)
      fun _ hno => hno.elim

/-- A row that stops living leaves the other heads alone. -/
theorem headsKept_retired (hgate : AutomatonGate substrate) {changedBy : String} {newState : State}
    {via : RowVerb} {reason : Option String} (hvia : via ≠ .mutate)
    (hretired : ¬newState.rawValue.toNat < 16) :
    HeadsKept substrate (fun _ => False) (stateAfter
      (mutateState substrate rowId newState via changedBy reason now s)).drawers :=
  headsKept_mutateState h hgate hvia (fun hlow => absurd hlow hretired)
    fun hlow => absurd hlow hretired

/-- What stands behind a check keeps the heads where the check is passed. -/
theorem headsKept_checked {check : Except LocusKitError Unit} {action : StoreM Unit}
    (haction : check = .ok () →
      HeadsKept substrate (fun _ => False) (stateAfter (action s)).drawers) :
    HeadsKept substrate (fun _ => False)
      (stateAfter ((StoreM.ofExcept check >>= fun _ => action) s)).drawers := by
  cases check with
  | error e => exact h
  | ok u => exact haction rfl

theorem headsKept_mutate (hgate : AutomatonGate substrate) (hwhole : KeepsStateWhole substrate)
    {kind : MutationKind} {payload : Option String}
    (hrevives : kind = .revive → RevivesAlone s.drawers.rows rowId) :
    HeadsKept substrate (fun _ => False)
      (stateAfter (mutate substrate rowId kind payload now s)).drawers := by
  obtain ⟨-, hr⟩ | ⟨row, hfind, rfl, hr⟩ := readDrawer_bind_cases
    (rfl : mutate substrate rowId kind payload now s = _)
  · rw [hr]
    exact h
  have hrow : row ∈ s.drawers.rows := (KeyedTable.find?_eq_some_iff.mp hfind).1
  have hlaws := hgate.toLawfulGate
  rw [← hr]
  cases kind with
  | confirm => exact headsKept_mutateColumn h hlaws hwhole
  | correctSensitivity sensitivity => exact headsKept_mutateColumn h hlaws hwhole
  | correctTrust trust => exact headsKept_mutateColumn h hlaws hwhole
  | correctExportability exportability => exact headsKept_mutateColumn h hlaws hwhole
  | reject => exact headsKept_retired h hgate (by decide) (by decide)
  | supersede => exact headsKept_retired h hgate (by decide) (by decide)
  | contest => exact headsKept_current h hgate (Or.inl rfl)
  | resolve =>
    exact headsKept_checked h fun _ => headsKept_current h hgate (Or.inr (Or.inl rfl))
  | accept =>
    exact headsKept_checked h fun _ => headsKept_current h hgate (Or.inr (Or.inr rfl))
  | revive =>
    refine headsKept_checked h fun hok => ?_
    refine headsKept_mutateState h hgate (by decide) (fun _ d hd hid _ => ?_) fun _ _ _ => rfl
    obtain rfl := KeyedTable.eq_of_key_eq hd hrow hid
    exact aloneIn_of_revivable hd (hrevives rfl) hok

theorem headsKept_withdraw (hgate : AutomatonGate substrate) {reason : Option String} :
    HeadsKept substrate (fun _ => False)
      (stateAfter (withdraw substrate rowId reason now s)).drawers := by
  obtain ⟨-, hr⟩ | ⟨row, -, -, hr⟩ := readDrawer_bind_cases
    (rfl : withdraw substrate rowId reason now s = _)
  · rw [hr]
    exact h
  · rw [← hr]
    exact headsKept_retired h hgate (by decide) (by decide)

theorem headsKept_reanchor {toRoom toWing : Option String} {toLattice : Option LatticeAnchor}
    {minted : MintedIds} : HeadsKept substrate (fun _ => False)
      (stateAfter (reanchor substrate rowId toRoom toWing toLattice now minted s)).drawers := by
  obtain ⟨e, -, hr⟩ | ⟨_, -, hr⟩ := ofExcept_bind_cases
    (rfl : reanchor substrate rowId toRoom toWing toLattice now minted s = _)
  · rw [hr]
    exact h
  rw [← hr]
  obtain ⟨-, hr⟩ | ⟨row, -, -, hr⟩ := readDrawer_bind_cases rfl
  · rw [hr]
    exact h
  · rw [← hr]
    exact headsKept_reanchorGated h

theorem headsKept_expunge (hgate : LawfulGate substrate) {reason : String}
    {confirmation sealAudit : Bool} : HeadsKept substrate (fun _ => False)
      (stateAfter (expunge substrate rowId reason confirmation now sealAudit s)).drawers := by
  cases confirmation with
  | false => exact h
  | true =>
    obtain ⟨-, hr⟩ | ⟨row, -, -, hr⟩ := readDrawer_bind_cases
      (rfl : expunge substrate rowId reason true now sealAudit s = _)
    · rw [hr]
      exact h
    · rw [← hr]
      exact headsKept_expungeGated hgate h

end Verbs

end DrawerStore

/-- What follows an action without a trace in the view may be left out. -/
theorem SimulatesAt.followed {ε σ τ α : Type} {view : σ → τ} {s : σ} {x : EStateM ε σ α}
    {y : EStateM ε τ α} {f : σ → σ} (h : SimulatesAt view s x y) (hf : ∀ s, view (f s) = view s) :
    SimulatesAt view s (x >>= fun a => modify f >>= fun _ => pure a) y := by
  rw [SimulatesAt] at h ⊢
  rw [← h]
  cases hx : x s with
  | error e s' => simp only [Bind.bind, EStateM.bind, hx, viewResult]
  | ok a s' =>
    simp only [Bind.bind, EStateM.bind, hx, modify_eq, Pure.pure, EStateM.pure, viewResult, hf]

namespace MerkleStore

variable {library : MerkleLibrary} {substrate : Substrate}
  {hashOnWrite : Drawer → Option ContentHash} {s : MerkleStore} {now : Int}

theorem store_rollupMerkleRoots (roomNodeId : String) :
    (s.rollupMerkleRoots library substrate roomNodeId now).store = s.store := by
  simp only [rollupMerkleRoots, store_updateMerkleRoot]
  split
  next => exact store_updateMerkleRoot
  next =>
    split
    next => rw [store_updateMerkleRoot, store_updateMerkleRoot]
    next => rw [store_updateMerkleRoot, store_updateMerkleRoot, store_updateMerkleRoot]

theorem store_rollupParent (parentNodeId : String) :
    (s.rollupParent library substrate parentNodeId now).store = s.store := by
  rw [rollupParent]
  split
  next => exact store_rollupMerkleRoots _
  next => rfl

theorem store_rollups (rooms : List Uuid) :
    (rooms.foldl (fun s room => s.rollupMerkleRoots library substrate (Uuid.hyphenated room) now)
      s).store = s.store := by
  induction rooms generalizing s with
  | nil => rfl
  | cons room rooms ih => rw [List.foldl_cons, ih, store_rollupMerkleRoots]

theorem simulatesAt_onStore {α : Type} (action : StoreM α) :
    SimulatesAt store s (onStore hashOnWrite action) action := by
  rw [SimulatesAt, onStore]
  cases action s.store <;> rfl

/-- With the rollup of its room, the withdraw verb does the same to the drawers. -/
theorem simulatesAt_withdraw (rowId : String) (reason : Option String) :
    SimulatesAt store s (withdraw library substrate hashOnWrite rowId reason now)
      (DrawerStore.withdraw substrate rowId reason now) := by
  refine (simulatesAt_onStore _).bind fun drawer s' _ => simulatesAt_get_bind ?_
  exact (simulatesAt_onStore _).followed fun _ => store_rollupParent _

/-- With the rollups of its rooms, the expunge verb does the same to the drawers. -/
theorem simulatesAt_expunge (order : IterationOrder Uuid) (rowId reason : String)
    (confirmation sealAudit : Bool) :
    SimulatesAt store s
      (expunge library substrate hashOnWrite order rowId reason confirmation now sealAudit)
      (DrawerStore.expunge substrate rowId reason confirmation now sealAudit) := by
  cases confirmation with
  | false => rfl
  | true =>
    refine (simulatesAt_onStore _).bind fun drawer s' _ => simulatesAt_get_bind ?_
    exact (simulatesAt_onStore _).followed fun _ => store_rollups _

end MerkleStore

/-- The verbs of an open estate that write its drawers. -/
inductive EstateOperation where
  | capture (frame : CaptureFrame) (ids : CaptureIds) (now : Int)
  | captureBatch (frames : List (CaptureFrame × CaptureIds)) (now : Int)
  | withdraw (rowId : String) (reason : Option String) (now : Int)
  | mutate (rowId : String) (kind : MutationKind) (payload : Option String) (now : Int)
  | reanchor (rowId : String) (toRoom toWing : Option String) (toLattice : Option LatticeAnchor)
      (now : Int) (minted : MintedIds)
  | expunge (rowId reason : String) (confirmation : Bool) (now : Int) (sealAudit : Bool)

namespace EstateOperation

def run (substrate : Substrate) : EstateOperation → StoreM Unit
  | .capture frame ids now => (DrawerStore.capture substrate frame ids now).dropAnswer
  | .captureBatch frames now => (DrawerStore.captureBatch substrate frames now).dropAnswer
  | .withdraw rowId reason now => DrawerStore.withdraw substrate rowId reason now
  | .mutate rowId kind payload now => DrawerStore.mutate substrate rowId kind payload now
  | .reanchor rowId toRoom toWing toLattice now minted =>
    DrawerStore.reanchor substrate rowId toRoom toWing toLattice now minted
  | .expunge rowId reason confirmation now sealAudit =>
    (DrawerStore.expunge substrate rowId reason confirmation now sealAudit).dropAnswer

/-- The lineages that a verb captures into. -/
def lineages : EstateOperation → List Uuid
  | .capture frame ids _ => [frame.lineageId.getD ids.lineage]
  | .captureBatch frames _ => frames.map fun p => p.1.lineageId.getD p.2.lineage
  | _ => []

/-- The row that a verb revives. -/
def revived : EstateOperation → Option String
  | .mutate rowId .revive _ _ => some rowId
  | _ => none

/-- A capture is into lineages whose living rows are active, and a row is revived alone. -/
structure Ready (s : DrawerStore) (operation : EstateOperation) : Prop where
  active : ∀ row ∈ s.drawers.rows, row.lineageId ∈ operation.lineages → row.Living →
    row.state = .active
  alone : ∀ rowId ∈ operation.revived, DrawerStore.RevivesAlone s.drawers.rows rowId

theorem ready_iff {s : DrawerStore} {operation : EstateOperation} : operation.Ready s ↔
    (∀ row ∈ s.drawers.rows, row.lineageId ∈ operation.lineages → row.Living →
      row.state = .active) ∧
      ∀ rowId ∈ operation.revived.toList, DrawerStore.RevivesAlone s.drawers.rows rowId := by
  constructor
  · intro h
    exact ⟨h.active, fun rowId hrowId => h.alone rowId (Option.mem_toList.mp hrowId)⟩
  · rintro ⟨hactive, halone⟩
    exact ⟨hactive, fun rowId hrowId => halone rowId (Option.mem_toList.mpr hrowId)⟩

end EstateOperation

namespace DrawerStore

def operate (substrate : Substrate) (s : DrawerStore) (operation : EstateOperation) : DrawerStore :=
  stateAfter (operation.run substrate s)

/-- Every verb of a run is ready in the store that it finds. -/
def ReadyRun (substrate : Substrate) (s : DrawerStore) : List EstateOperation → Prop
  | [] => True
  | operation :: operations =>
    operation.Ready s ∧ ReadyRun substrate (s.operate substrate operation) operations

variable {substrate : Substrate} {s : DrawerStore}

theorem headsKept_operate (hgate : AutomatonGate substrate) (hwhole : KeepsStateWhole substrate)
    (hempty : substrate.parseUuid "" = none) (h : HeadsKept substrate (fun _ => False) s.drawers)
    {operation : EstateOperation} (hready : operation.Ready s) :
    HeadsKept substrate (fun _ => False) (s.operate substrate operation).drawers := by
  have hactive : HeadsKept substrate (· ∈ operation.lineages) s.drawers :=
    ⟨h.sound, h.parsed, h.oneHead, hready.active⟩
  rw [operate]
  cases operation with
  | capture frame ids now =>
    rw [EstateOperation.run, stateAfter_dropAnswer]
    exact (headsKept_capture hgate hempty hactive (List.mem_singleton_self _)).weaken
  | captureBatch frames now =>
    rw [EstateOperation.run, stateAfter_dropAnswer]
    exact (headsKept_captureBatch hgate hempty hactive fun p hp => List.mem_map_of_mem hp).weaken
  | withdraw rowId reason now => exact headsKept_withdraw h hgate
  | mutate rowId kind payload now =>
    refine headsKept_mutate h hgate hwhole fun hrevive => ?_
    subst hrevive
    exact hready.alone rowId rfl
  | reanchor rowId toRoom toWing toLattice now minted => exact headsKept_reanchor h
  | expunge rowId reason confirmation now sealAudit =>
    rw [EstateOperation.run, stateAfter_dropAnswer]
    exact headsKept_expunge h hgate.toLawfulGate

theorem headsKept_operations (hgate : AutomatonGate substrate) (hwhole : KeepsStateWhole substrate)
    (hempty : substrate.parseUuid "" = none) {operations : List EstateOperation}
    (h : HeadsKept substrate (fun _ => False) s.drawers)
    (hready : s.ReadyRun substrate operations) :
    HeadsKept substrate (fun _ => False) (operations.foldl (operate substrate) s).drawers := by
  induction operations generalizing s with
  | nil => exact h
  | cons operation operations ih =>
    exact ih (headsKept_operate hgate hwhole hempty h hready.1) hready.2

/-- Whatever verbs are called from an estate without drawers on, no two living rows share a
lineage, as long as captures meet active rows only and no row is revived beside a living one. -/
theorem oneLivingHead_of_readyRun (hgate : AutomatonGate substrate)
    (hwhole : KeepsStateWhole substrate) (hempty : substrate.parseUuid "" = none)
    (operations : List EstateOperation) (hstart : s.drawers.rows = [])
    (hready : s.ReadyRun substrate operations) :
    OneLivingHead (operations.foldl (operate substrate) s).drawers.rows := by
  have hno {row : Drawer} (hrow : row ∈ s.drawers.rows) : False := by
    rw [hstart] at hrow
    cases hrow
  have h : HeadsKept substrate (fun _ => False) s.drawers :=
    ⟨fun _ hrow => (hno hrow).elim, fun _ hrow => (hno hrow).elim, fun _ ha => (hno ha).elim,
      fun _ hrow => (hno hrow).elim⟩
  exact (headsKept_operations hgate hwhole hempty h hready).oneHead

instance (operation : EstateOperation) : Decidable (operation.Ready s) :=
  decidable_of_iff _ EstateOperation.ready_iff.symm

instance decidableReadyRun (substrate : Substrate) :
    ∀ (operations : List EstateOperation) (s : DrawerStore),
      Decidable (s.ReadyRun substrate operations)
  | [], _ => isTrue trivial
  | _ :: operations, _ =>
    have := decidableReadyRun substrate operations
    inferInstanceAs (Decidable (_ ∧ _))

/-- A lineage captured twice, whose new head is withdrawn and whose old one is then revived. -/
def handedOver : List EstateOperation :=
  let frame := { referenceFrame "a" "b" with lineageId := some 7 }
  [.capture frame (referenceIds "1" 1) 6, .capture frame (referenceIds "2" 2) 7,
    .withdraw (referenceUuidText "2") none 8, .mutate (referenceUuidText "1") .revive none 9]

theorem oneLivingHead_of_readyRun_handedOver :
    let after := handedOver.foldl (operate referenceSubstrate) provisioned
    OneLivingHead after.drawers.rows ∧
      after.drawers.rows.map (·.state) = [.active, .withdrawn] := by
  intro after
  refine ⟨oneLivingHead_of_readyRun automatonGate_referenceSubstrate (by decide +kernel)
    (by decide +kernel) handedOver (by decide +kernel) (by decide +kernel), ?_⟩
  decide +kernel

/-- Reviving the withdrawn one as well is not ready, and gives the lineage two heads. -/
example :
    let revive := EstateOperation.mutate (referenceUuidText "2") .revive none 10
    let after := handedOver.foldl (operate referenceSubstrate) provisioned
    ¬revive.Ready after ∧
      ¬OneLivingHead (after.operate referenceSubstrate revive).drawers.rows := by
  decide +kernel

end DrawerStore

end MootMemory
