import MootMemory.BatchCapture
import MootMemory.SensitivityCeiling
import MootMemory.SensitivityWrites

namespace MootMemory

/-- The drawer is returned without a grant. -/
def Drawer.Shown (drawer : Drawer) : Prop := atMostElevated drawer.adjectiveSensitivity = true

instance (drawer : Drawer) : Decidable drawer.Shown := inferInstanceAs (Decidable (_ = true))

def Tunnel.endpointIds (tunnel : Tunnel) : List String :=
  [tunnel.sourceDrawerId, tunnel.targetDrawerId].filterMap fun endpoint => endpoint

/-- The tunnel is in force and returned without a grant. -/
def Tunnel.Shown (tunnel : Tunnel) : Prop :=
  tunnel.tombstonedAt = none ∧ atMostElevated tunnel.adjectiveSensitivity = true

instance (tunnel : Tunnel) : Decidable tunnel.Shown := inferInstanceAs (Decidable (_ ∧ _))

/-- A tunnel that is shown leads only to drawers that are shown. -/
def Tunnel.EndpointsShown (tunnel : Tunnel) (rows : List Drawer) : Prop :=
  tunnel.Shown → ∀ row ∈ rows, row.id ∈ tunnel.endpointIds → row.Shown

namespace DrawerStore

/-- A tunnel that is shown leads to the id. -/
def NamedByShown (s : DrawerStore) (rowId : String) : Prop :=
  ∃ tunnel ∈ s.tunnels.rows, tunnel.Shown ∧ rowId ∈ tunnel.endpointIds

instance (s : DrawerStore) (rowId : String) : Decidable (s.NamedByShown rowId) :=
  inferInstanceAs (Decidable (∃ tunnel ∈ s.tunnels.rows, _))

/-- The frame's room is found or created, and the store takes its drawer. -/
def TakesFrame (substrate : Substrate) (s : DrawerStore) (frame : CaptureFrame) (ids : CaptureIds)
    (now : Int) : Prop :=
  frame.validate = .ok () ∧ ∃ root room s', s.nodes.rootNode = some root ∧
    resolveRoom substrate frame root ids.nodes s = .ok room s' ∧
    StoresDrawer substrate .none s' (frame.drawer room.id ids now) now

/-- The gate admits the edit that a correction of a row's sensitivity asks for. -/
def CorrectionAdmitted (substrate : Substrate) (s : DrawerStore) (rowId : String)
    (tier : AdjectiveSensitivity) (now : Int) : Prop :=
  ∃ row event, row.id = rowId ∧ Admitted substrate s now row .mutate
    ((editableSlots substrate .adjective).map
      (·.write (writeField tier.rawValue row.bitmaps.adjective 6 6)))
    (substrate.udcAnchor row.udcCode) s.changedByOrEstate event

/-- No drawer is hidden while a shown tunnel leads to it, and a hidden drawer neither supersedes
nor is superseded. -/
def HidesFirst (substrate : Substrate) (s : DrawerStore) : EstateCall → Prop
  | .capture frame ids now => TakesFrame substrate s frame ids now →
    (atMostElevated frame.sensitivity = true ∨ ¬s.NamedByShown ids.drawer) ∧
      ∀ prior ∈ s.drawers.rows,
        s.findActivePredecessor (frame.lineageId.getD ids.lineage) ids.drawer = some prior.id →
          atMostElevated frame.sensitivity = true ∧ prior.Shown
  | .mutate rowId (.correctSensitivity tier) _ now =>
    CorrectionAdmitted substrate s rowId tier now →
      atMostElevated tier = true ∨ ¬s.NamedByShown rowId
  | _ => True

/-- Sensitivities are tiers, and no shown tunnel leads to a hidden drawer. -/
structure Sheltered (s : DrawerStore) : Prop where
  tiered : ∀ row ∈ s.drawers.rows, ∃ tier : AdjectiveSensitivity, row.tierField = tier.rawValue
  endpoints : ∀ tunnel ∈ s.tunnels.rows, tunnel.EndpointsShown s.drawers.rows

section Tiers

variable {s : DrawerStore} {rows rows' : List Drawer} {row old : Drawer} {rowId : String}
  {tier : AdjectiveSensitivity}

theorem adjectiveSensitivity_of_tierField (h : row.tierField = tier.rawValue) :
    row.adjectiveSensitivity = tier := by
  rw [← AdjectiveSensitivity.fromRaw_rawValue tier, ← h]
  rfl

theorem shown_congr (h : old.tierField = row.tierField) : old.Shown ↔ row.Shown := by
  have hsame : old.adjectiveSensitivity = row.adjectiveSensitivity :=
    congrArg AdjectiveSensitivity.fromRaw h
  rw [Drawer.Shown, Drawer.Shown, hsame]

theorem atMostElevated_of_le {tier' : AdjectiveSensitivity} (hle : tier.rawValue ≤ tier'.rawValue)
    (h : atMostElevated tier' = true) : atMostElevated tier = true := by
  cases tier <;> cases tier' <;> first | rfl | exact absurd h (by decide) | exact absurd hle (by decide)

/-- A row that gets a tier of its own was there before with that tier. -/
theorem sameTiers_of_retieredAt {field : Bitmap} (h : RetieredAt rowId field rows rows')
    (hold : old ∈ rows) (hid : old.id = rowId) (htier : old.tierField = field) :
    SameTiers rows rows' := by
  intro row hrow
  obtain hsame | ⟨hrowId, hrowTier⟩ := h row hrow
  · exact hsame
  · exact ⟨old, hold, hid.trans hrowId.symm, htier.trans hrowTier.symm⟩

/-- The old tunnels still shelter once one row is retiered that they may lead to. -/
theorem Sheltered.retieredAt (h : Sheltered s)
    (hrows : RetieredAt rowId tier.rawValue s.drawers.rows rows')
    (htier : atMostElevated tier = true ∨ ¬s.NamedByShown rowId) :
    (∀ row ∈ rows', ∃ tier : AdjectiveSensitivity, row.tierField = tier.rawValue) ∧
      ∀ tunnel ∈ s.tunnels.rows, tunnel.EndpointsShown rows' := by
  refine ⟨fun row hrow => ?_, fun tunnel htunnel hshown row hrow hend => ?_⟩
  · obtain ⟨old, hold, -, hfield⟩ | ⟨-, hfield⟩ := hrows row hrow
    · exact hfield ▸ h.tiered old hold
    · exact ⟨tier, hfield⟩
  · obtain ⟨old, hold, hid, hfield⟩ | ⟨hid, hfield⟩ := hrows row hrow
    · exact (shown_congr hfield).mp (h.endpoints tunnel htunnel hshown old hold (hid ▸ hend))
    · obtain hlow | hunnamed := htier
      · rw [Drawer.Shown, adjectiveSensitivity_of_tierField hfield]
        exact hlow
      · exact absurd ⟨tunnel, htunnel, hshown, hid ▸ hend⟩ hunnamed

theorem Sheltered.same {s' : DrawerStore} (h : Sheltered s)
    (hrows : SameTiers s.drawers.rows s'.drawers.rows) (htunnels : s'.tunnels = s.tunnels) :
    Sheltered s' := by
  have hretiered : RetieredAt "" AdjectiveSensitivity.normal.rawValue s.drawers.rows
      s'.drawers.rows := hrows.retieredAt
  obtain ⟨htiered, hend⟩ := h.retieredAt hretiered (Or.inl rfl)
  exact ⟨htiered, htunnels ▸ hend⟩

end Tiers

section Captures

variable {substrate : Substrate} {s : DrawerStore} {now : Int}

theorem tierField_drawer (frame : CaptureFrame) (parentNodeId : String) (ids : CaptureIds) :
    (frame.drawer parentNodeId ids now).tierField = frame.sensitivity.rawValue := by
  change sensitivityField (writeField _ _ 12 6) = _
  rw [sensitivityField_writeField_above (by decide), sensitivityField_writeField]

theorem mem_endpointIds_supersedesTunnel {drawer : Drawer} {priorId id : String}
    {sourceNames priorNames : String × String}
    (h : id ∈ (supersedesTunnel drawer priorId sourceNames priorNames).endpointIds) :
    id = drawer.id ∨ id = priorId := by
  simpa [Tunnel.endpointIds, supersedesTunnel] using h

/-- A stored drawer that shows whatever its tunnel leads to keeps the tables sheltered. -/
theorem Sheltered.addDrawer {frame : CaptureFrame} {parentNodeId : String} {ids : CaptureIds}
    (hgate : LawfulGate substrate) (h : Sheltered s)
    (hfree : atMostElevated frame.sensitivity = true ∨ ¬s.NamedByShown ids.drawer)
    (hprior : ∀ prior ∈ s.drawers.rows,
      s.findActivePredecessor (frame.lineageId.getD ids.lineage) ids.drawer = some prior.id →
        atMostElevated frame.sensitivity = true ∧ prior.Shown)
    (hends : s.EndsStored (frame.drawer parentNodeId ids now)
      (CompletesCapture substrate .none s (frame.drawer parentNodeId ids now))
      (DrawerStore.addDrawer substrate (frame.drawer parentNodeId ids now) now s)) :
    Sheltered (stateAfter (DrawerStore.addDrawer substrate (frame.drawer parentNodeId ids now) now s)) := by
  have hrows := AddOutcome.retieredAt hgate
    (addDrawer_outcome (rfl : DrawerStore.addDrawer substrate (frame.drawer parentNodeId ids now) now s = _))
  rw [tierField_drawer] at hrows
  obtain ⟨htiered, hold⟩ := h.retieredAt hrows hfree
  refine ⟨htiered, fun tunnel htunnel => ?_⟩
  obtain hmem | ⟨priorId, sourceNames, priorNames, hfind, rfl⟩ := hends.tunnels tunnel htunnel
  · exact hold tunnel hmem
  intro hshown row hrow hend
  obtain ⟨prior, hpriorMem, hpriorId, -⟩ := findActivePredecessor_eq_some hfind
  obtain ⟨hframe, hpriorShown⟩ := hprior prior hpriorMem (hpriorId ▸ hfind)
  obtain ⟨old, holdMem, hid, hfield⟩ | ⟨-, hfield⟩ := hrows row hrow
  · obtain heq | heq := mem_endpointIds_supersedesTunnel hend
    · exact absurd (hid.trans heq) (hends.free old holdMem)
    · obtain rfl : old = prior :=
        KeyedTable.eq_of_key_eq holdMem hpriorMem (hid.trans (heq.trans hpriorId.symm))
      exact (shown_congr hfield).mp hpriorShown
  · rw [Drawer.Shown, adjectiveSensitivity_of_tierField hfield]
    exact hframe

theorem Sheltered.capture {frame : CaptureFrame} {ids : CaptureIds} (hgate : LawfulGate substrate)
    (h : Sheltered s) (hguard : HidesFirst substrate s (.capture frame ids now)) :
    Sheltered (stateAfter (DrawerStore.capture substrate frame ids now s)) := by
  cases hvalid : frame.validate with
  | error e => rw [capture_invalid hvalid]; exact h
  | ok u =>
    cases hroot : s.nodes.rootNode with
    | none =>
      simp only [DrawerStore.capture, requireRoot, hvalid, StoreM.ofExcept, bind, EStateM.bind,
        pure, EStateM.pure, get_eq, hroot]
      exact h
    | some root =>
      rw [capture_eq hvalid hroot]
      obtain ⟨nodes, -, -, ⟨e, hr⟩ | ⟨room, hr, -⟩⟩ := resolveRoom_cases
        (rfl : resolveRoom substrate frame root ids.nodes s = _)
      · simp only [bind, EStateM.bind, hr]
        exact h.same .refl rfl
      · have hgrown : Sheltered (s.withNodes nodes) := h.same .refl rfl
        have hafter : stateAfter ((resolveRoom substrate frame root ids.nodes >>= fun room =>
            DrawerStore.addDrawer substrate (frame.drawer room.id ids now) now >>= fun _ =>
              pure (frame.drawer room.id ids now)) s) =
            stateAfter (DrawerStore.addDrawer substrate (frame.drawer room.id ids now) now
              (s.withNodes nodes)) := by
          simp only [bind, EStateM.bind, hr]
          cases DrawerStore.addDrawer substrate (frame.drawer room.id ids now) now
            (s.withNodes nodes) <;> rfl
        rw [hafter]
        obtain ⟨-, e, s', hr', hdrawers, htunnels, -⟩ | ⟨hstores, hends⟩ :=
          addDrawer_cases substrate (s.withNodes nodes) (frame.drawer room.id ids now) now
        · rw [hr', stateAfter_error]
          refine hgrown.same ?_ htunnels
          rw [hdrawers]
          exact .refl
        · obtain ⟨hfree, hprior⟩ := hguard ⟨hvalid, root, room, _, hroot, hr, hstores⟩
          exact hgrown.addDrawer hgate hfree hprior hends

end Captures

section Tunnels

variable {s : DrawerStore} {frame : TunnelCaptureFrame} {mintedId : String} {now : Int}

/-- The higher of a field and the sensitivity of the row of an id. -/
def raiseTo (s : DrawerStore) (highest : Bitmap) (drawerId : String) : Bitmap :=
  match s.drawers.find? drawerId with
  | some drawer =>
    if highest < sensitivityField drawer.bitmaps.adjective then
      sensitivityField drawer.bitmaps.adjective
    else highest
  | none => highest

theorem maxSensitivity_eq (s : DrawerStore) (endpointIds : List String) :
    s.maxSensitivity endpointIds = endpointIds.foldl s.raiseTo 0 := rfl

theorem le_raiseTo (s : DrawerStore) (highest : Bitmap) (drawerId : String) :
    highest ≤ s.raiseTo highest drawerId := by
  rw [raiseTo]
  split
  next =>
    split
    next hlt => exact BitVec.le_of_lt hlt
    next => exact BitVec.le_refl _
  next => exact BitVec.le_refl _

theorem tierField_le_raiseTo {row : Drawer} (hrow : row ∈ s.drawers.rows) (highest : Bitmap) :
    row.tierField ≤ s.raiseTo highest row.id := by
  rw [raiseTo, KeyedTable.find?_of_mem hrow]
  dsimp only
  split
  next => exact BitVec.le_refl _
  next hlt => exact BitVec.not_lt.mp hlt

theorem le_foldl_raiseTo (endpointIds : List String) (highest : Bitmap) :
    highest ≤ endpointIds.foldl s.raiseTo highest := by
  induction endpointIds generalizing highest with
  | nil => exact BitVec.le_refl _
  | cons drawerId endpointIds ih =>
    exact BitVec.le_trans (le_raiseTo s highest drawerId) (ih _)

/-- The highest field is as high as that of any row among the ids. -/
theorem tierField_le_foldl {row : Drawer} (hrow : row ∈ s.drawers.rows) {endpointIds : List String}
    (hid : row.id ∈ endpointIds) (highest : Bitmap) :
    row.tierField ≤ endpointIds.foldl s.raiseTo highest := by
  induction endpointIds generalizing highest with
  | nil => cases hid
  | cons drawerId endpointIds ih =>
    obtain rfl | hid := List.mem_cons.mp hid
    · exact BitVec.le_trans (tierField_le_raiseTo hrow highest) (le_foldl_raiseTo _ _)
    · exact ih hid _

theorem Sheltered.raiseTo_tier (h : Sheltered s) (tier : AdjectiveSensitivity) (drawerId : String) :
    ∃ tier' : AdjectiveSensitivity, s.raiseTo tier.rawValue drawerId = tier'.rawValue := by
  rw [raiseTo]
  split
  next row hfind =>
    split
    next => exact h.tiered row (KeyedTable.find?_eq_some_iff.mp hfind).1
    next => exact ⟨tier, rfl⟩
  next => exact ⟨tier, rfl⟩

theorem Sheltered.foldl_tier (h : Sheltered s) (endpointIds : List String)
    (tier : AdjectiveSensitivity) : ∃ tier' : AdjectiveSensitivity,
      endpointIds.foldl s.raiseTo tier.rawValue = tier'.rawValue := by
  induction endpointIds generalizing tier with
  | nil => exact ⟨tier, rfl⟩
  | cons drawerId endpointIds ih =>
    obtain ⟨tier', htier⟩ := h.raiseTo_tier tier drawerId
    rw [List.foldl_cons, htier]
    exact ih tier'

/-- A captured tunnel is as hidden as the most hidden of its endpoints. -/
theorem Sheltered.endpointsShown_capturedTunnel (h : Sheltered s) :
    (s.capturedTunnel frame mintedId now).EndpointsShown s.drawers.rows := by
  intro hshown row hrow hid
  obtain ⟨tier, htier⟩ := h.foldl_tier frame.endpointIds .normal
  have hmax : (s.capturedTunnel frame mintedId now).adjectiveSensitivity = tier := by
    have hfield : sensitivityField (s.capturedTunnel frame mintedId now).adjectiveBitmap =
        tier.rawValue := by
      rw [capturedTunnel, maxSensitivity_eq]
      exact htier ▸ sensitivityField_writeField tier 0
    rw [Tunnel.adjectiveSensitivity, hfield, AdjectiveSensitivity.fromRaw_rawValue]
  obtain ⟨rowTier, hrowTier⟩ := h.tiered row hrow
  have hle : rowTier.rawValue ≤ tier.rawValue :=
    hrowTier ▸ htier ▸ tierField_le_foldl hrow hid _
  rw [Drawer.Shown, adjectiveSensitivity_of_tierField hrowTier]
  exact atMostElevated_of_le hle (hmax ▸ hshown.2)

theorem Sheltered.captureTunnel (h : Sheltered s) :
    Sheltered (stateAfter (captureTunnel frame mintedId now s)) := by
  cases hvalid : frame.validate with
  | error e =>
    simp only [DrawerStore.captureTunnel, hvalid, StoreM.ofExcept, bind, EStateM.bind]
    exact h
  | ok u =>
    have hafter : stateAfter (DrawerStore.captureTunnel frame mintedId now s) =
        stateAfter (addTunnel (s.capturedTunnel frame mintedId now) s) := by
      simp only [DrawerStore.captureTunnel, hvalid, StoreM.ofExcept, bind, EStateM.bind, pure,
        EStateM.pure, get_eq]
      cases addTunnel (s.capturedTunnel frame mintedId now) s <;> rfl
    rw [hafter]
    obtain ⟨e, hr⟩ | ⟨tunnels, -, hinsert, hr⟩ := addTunnel_cases
      (rfl : addTunnel (s.capturedTunnel frame mintedId now) s = _)
    · rw [hr]
      exact h
    · rw [hr]
      refine ⟨h.tiered, fun tunnel htunnel => ?_⟩
      rw [stateAfter_ok, withTunnels_tunnels, (KeyedTable.insert?_eq_some_iff.mp hinsert).2,
        List.mem_append, List.mem_singleton] at htunnel
      obtain htunnel | rfl := htunnel
      · exact h.endpoints tunnel htunnel
      · exact h.endpointsShown_capturedTunnel

end Tunnels

section Mutations

variable {substrate : Substrate} {s : DrawerStore} {rowId : String} {payload : Option String}
  {now : Int}

/-- An edit that asks for the sensitivity the row has keeps every sensitivity. -/
theorem Sheltered.editKeeping {drawer : Drawer} {value : Bitmap} {changedBy : String}
    {reason : Option String} (hgate : LawfulGate substrate)
    (hwhole : KeepsSensitivityWhole substrate) (h : Sheltered s)
    (hfind : s.drawers.find? rowId = some drawer)
    (hvalue : sensitivityField value = drawer.tierField) :
    Sheltered (stateAfter (mutateAdjective substrate rowId value changedBy reason now s)) := by
  obtain ⟨hmem, hid⟩ := KeyedTable.find?_eq_some_iff.mp hfind
  obtain ⟨htunnels, hdrawers | ⟨hrows, -⟩⟩ := mutateAdjective_tables hgate hwhole
    (rfl : mutateAdjective substrate rowId value changedBy reason now s = _)
  · refine h.same ?_ htunnels
    rw [hdrawers]
    exact .refl
  · exact h.same (sameTiers_of_retieredAt hrows hmem hid hvalue.symm) htunnels

/-- A row may be hidden once no shown tunnel leads to it. -/
theorem Sheltered.correctSensitivity {drawer : Drawer} {tier : AdjectiveSensitivity}
    {reason : Option String} (hgate : LawfulGate substrate)
    (hwhole : KeepsSensitivityWhole substrate) (h : Sheltered s)
    (hfind : s.drawers.find? rowId = some drawer)
    (hguard : HidesFirst substrate s (.mutate rowId (.correctSensitivity tier) payload now)) :
    Sheltered (stateAfter (mutateAdjective substrate rowId
      (writeField tier.rawValue drawer.bitmaps.adjective 6 6) s.changedByOrEstate reason now s)) := by
  obtain ⟨htunnels, hdrawers | ⟨hrows, row, event, hrowId, hadm⟩⟩ :=
    mutateAdjective_tables hgate hwhole (rfl : mutateAdjective substrate rowId
      (writeField tier.rawValue drawer.bitmaps.adjective 6 6) s.changedByOrEstate reason now s = _)
  · refine h.same ?_ htunnels
    rw [hdrawers]
    exact .refl
  · have hrow : row = drawer := by
      have hfound := hadm.found
      rw [hrowId, hfind] at hfound
      exact (Option.some.inj hfound).symm
    rw [sensitivityField_writeField] at hrows
    obtain ⟨htiered, hend⟩ := h.retieredAt hrows (hguard ⟨row, event, hrowId, hrow ▸ hadm⟩)
    exact ⟨htiered, htunnels ▸ hend⟩

theorem Sheltered.mutateState {newState : State} {via : RowVerb} {changedBy : String}
    {reason : Option String} (hgate : LawfulGate substrate) (h : Sheltered s) :
    Sheltered (stateAfter (mutateState substrate rowId newState via changedBy reason now s)) := by
  obtain ⟨hrows, htunnels⟩ := mutateState_tables hgate
    (rfl : DrawerStore.mutateState substrate rowId newState via changedBy reason now s = _)
  exact h.same hrows htunnels

/-- A state transition behind a check of the row. -/
theorem Sheltered.checkedState {check : Except LocusKitError Unit} {newState : State}
    {via : RowVerb} {changedBy : String} {reason : Option String} (hgate : LawfulGate substrate)
    (h : Sheltered s) : Sheltered (stateAfter ((StoreM.ofExcept check >>= fun _ =>
      DrawerStore.mutateState substrate rowId newState via changedBy reason now) s)) := by
  cases check with
  | error e => exact h
  | ok u => exact h.mutateState hgate

theorem Sheltered.mutate {kind : MutationKind} (hgate : LawfulGate substrate)
    (hwhole : KeepsSensitivityWhole substrate) (h : Sheltered s)
    (hguard : HidesFirst substrate s (.mutate rowId kind payload now)) :
    Sheltered (stateAfter (mutate substrate rowId kind payload now s)) := by
  obtain ⟨-, hr⟩ | ⟨drawer, hfind, hid, hr⟩ := readDrawer_bind_cases
    (rfl : DrawerStore.mutate substrate rowId kind payload now s = _)
  · rw [hr]
    exact h
  rw [← hr]
  cases kind with
  | confirm =>
    obtain ⟨hrows, htunnels⟩ := mutateColumn_tables (c := .provenance) nofun rfl
    exact h.same hrows htunnels
  | reject => exact h.mutateState hgate
  | contest => exact h.mutateState hgate
  | supersede => exact h.mutateState hgate
  | resolve => exact h.checkedState hgate
  | accept => exact h.checkedState hgate
  | revive => exact h.checkedState hgate
  | correctTrust trust =>
    exact h.editKeeping hgate hwhole hfind (sensitivityField_writeField_above (by decide))
  | correctExportability exportability =>
    exact h.editKeeping hgate hwhole hfind (sensitivityField_writeField_above (by decide))
  | correctSensitivity tier =>
    exact h.correctSensitivity hgate hwhole hfind hguard

theorem Sheltered.reanchor {toRoom toWing : Option String} {toLattice : Option LatticeAnchor}
    {minted : MintedIds} (h : Sheltered s) :
    Sheltered (stateAfter (reanchor substrate rowId toRoom toWing toLattice now minted s)) := by
  obtain ⟨e, -, hr⟩ | ⟨_, -, hr⟩ := ofExcept_bind_cases
    (rfl : DrawerStore.reanchor substrate rowId toRoom toWing toLattice now minted s = _)
  · rw [hr]
    exact h
  rw [← hr]
  obtain ⟨-, hr⟩ | ⟨drawer, -, -, hr⟩ := readDrawer_bind_cases rfl
  · rw [hr]
    exact h
  rw [← hr]
  obtain ⟨hrows, htunnels⟩ := ReanchorOutcome.tables (reanchorGated_outcome rfl)
  exact h.same hrows htunnels

theorem openEstate_tables (mintedUuidText mintedRootId : String) :
    (stateAfter (openEstate substrate mintedUuidText mintedRootId now s)).drawers = s.drawers ∧
      (stateAfter (openEstate substrate mintedUuidText mintedRootId now s)).tunnels =
        s.tunnels := by
  obtain ⟨e, hr⟩ | ⟨uuid, -, hr⟩ := reopen_cases
    (rfl : reopen substrate mintedUuidText now s = _)
  · simp only [openEstate, bind, EStateM.bind, hr]
    exact ⟨rfl, rfl⟩
  · simp only [openEstate, bind, EStateM.bind, hr, rebuildContainerFingerprints, modify_eq]
    generalize hopened : ({ s.withOpening substrate _ uuid now with fingerprints := _ } :
      DrawerStore) = opened
    obtain ⟨e, hroot⟩ | ⟨node, nodes, -, hroot⟩ := createRoot_cases
      (rfl : createRoot substrate "Estate" mintedRootId opened = _) <;>
    · rw [hroot, ← hopened]
      exact ⟨rfl, rfl⟩

end Mutations

theorem Sheltered.step {substrate : Substrate} {s : DrawerStore} {call : EstateCall}
    (hgate : LawfulGate substrate) (hwhole : KeepsSensitivityWhole substrate) (h : Sheltered s)
    (hguard : HidesFirst substrate s call) : Sheltered (s.estateStep substrate call) := by
  rw [estateStep]
  cases call with
  | openEstate mintedUuidText mintedRootId =>
    obtain ⟨hdrawers, htunnels⟩ := openEstate_tables mintedUuidText mintedRootId
    exact h.same (hdrawers ▸ .refl) htunnels
  | capture =>
    rw [EstateCall.run, stateAfter_dropAnswer]
    exact h.capture hgate hguard
  | captureTunnel =>
    rw [EstateCall.run, stateAfter_dropAnswer]
    exact h.captureTunnel
  | mutate => exact h.mutate hgate hwhole hguard
  | reanchor => exact h.reanchor

theorem sheltered_fresh (owner : String) : Sheltered (fresh owner) :=
  ⟨fun _ hrow => (nomatch hrow), fun _ htunnel => (nomatch htunnel)⟩

theorem mem_tunnelsFromWing {s : DrawerStore} {wing : String} {tunnel : Tunnel}
    (h : tunnel ∈ s.tunnelsFromWing wing) : tunnel ∈ s.tunnels.rows ∧ tunnel.Shown := by
  obtain ⟨hmem, htier⟩ := List.mem_filter.mp h
  obtain ⟨hmem, hlive⟩ := List.mem_filter.mp (List.mem_mergeSort.mp hmem)
  simp only [Bool.and_eq_true, beq_iff_eq, Option.isNone_iff_eq_none] at hlive
  refine ⟨hmem, hlive.2, ?_⟩
  cases hsens : tunnel.adjectiveSensitivity with
  | normal => rfl
  | elevated => rfl
  | restricted => simp [hsens] at htier
  | secret => simp [hsens] at htier

/-- Where no drawer is hidden behind a tunnel that shows, the tunnels of a wing lead only to drawers
that show. -/
theorem tunnelsFromWing_endpoints_shown {substrate : Substrate} (hgate : LawfulGate substrate)
    (hwhole : KeepsSensitivityWhole substrate) {owner : String} {s : DrawerStore}
    (hrun : GuardedRun (estateStep substrate) (HidesFirst substrate) (fresh owner) s)
    (wing : String) :
    ∀ tunnel ∈ s.tunnelsFromWing wing, ∀ row ∈ s.drawers.rows, row.id ∈ tunnel.endpointIds →
      row.adjectiveSensitivity = .normal ∨ row.adjectiveSensitivity = .elevated := by
  have hsheltered : Sheltered s := hrun.invariant (sheltered_fresh owner)
    fun s call h hcall => h.step hgate hwhole hcall
  intro tunnel htunnel row hrow hid
  obtain ⟨hmem, hshown⟩ := mem_tunnelsFromWing htunnel
  have hrowShown := hsheltered.endpoints tunnel hmem hshown row hrow hid
  rw [Drawer.Shown] at hrowShown
  cases hsens : row.adjectiveSensitivity with
  | normal => exact Or.inl rfl
  | elevated => exact Or.inr rfl
  | restricted => rw [hsens] at hrowShown; cases hrowShown
  | secret => rw [hsens] at hrowShown; cases hrowShown

def openingCall : EstateCall := .openEstate (referenceUuidText "a") (referenceUuidText "b") 5

def firstCapture (sensitivity : AdjectiveSensitivity) : EstateCall :=
  .capture { referenceFrame "wing" "room" with sensitivity := sensitivity } (referenceIds "1" 1) 6

def successorCapture : EstateCall :=
  .capture { referenceFrame "wing" "room" with lineageId := some 1 } (referenceIds "2" 2) 7

/-- An estate with a drawer of the sensitivity and one that supersedes it. -/
def supersededEstate (sensitivity : AdjectiveSensitivity) : DrawerStore :=
  (((fresh "alice").estateStep referenceSubstrate openingCall).estateStep referenceSubstrate
    (firstCapture sensitivity)).estateStep referenceSubstrate successorCapture

theorem tunnelsFromWing_endpoints_shown_superseded :
    (supersededEstate .elevated).tunnelsFromWing "wing" ≠ [] ∧
    ∀ tunnel ∈ (supersededEstate .elevated).tunnelsFromWing "wing",
      ∀ row ∈ (supersededEstate .elevated).drawers.rows, row.id ∈ tunnel.endpointIds →
        row.adjectiveSensitivity = .normal ∨ row.adjectiveSensitivity = .elevated := by
  refine ⟨by decide +kernel, tunnelsFromWing_endpoints_shown lawfulGate_referenceSubstrate
    (by decide) (.next successorCapture (.next (firstCapture .elevated)
      (.next openingCall .start trivial) fun _ => ?_) fun _ => ?_) "wing"⟩
  · exact ⟨Or.inl rfl, by decide +kernel⟩
  · exact ⟨Or.inl rfl, by decide +kernel⟩

theorem not_tunnelsFromWing_endpoints_shown :
    ¬∀ (substrate : Substrate) (owner : String) (s : DrawerStore), LawfulGate substrate →
      KeepsSensitivityWhole substrate →
      GuardedRun (estateStep substrate) (fun _ _ => True) (fresh owner) s → ∀ wing,
      ∀ tunnel ∈ s.tunnelsFromWing wing, ∀ row ∈ s.drawers.rows, row.id ∈ tunnel.endpointIds →
        row.adjectiveSensitivity = .normal ∨ row.adjectiveSensitivity = .elevated := by
  intro h
  have hall := h referenceSubstrate "alice" (supersededEstate .restricted)
    lawfulGate_referenceSubstrate (by decide)
    (.next successorCapture (.next (firstCapture .restricted)
      (.next openingCall .start trivial) trivial) trivial) "wing"
  exact absurd hall (by decide +kernel)

end DrawerStore

end MootMemory
