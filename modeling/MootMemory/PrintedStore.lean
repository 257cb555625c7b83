import MootMemory.DrawerFingerprint
import MootMemory.EffectViews
import MootMemory.StoreCalls

namespace MootMemory

/-- A store together with the fingerprint column of its drawers. -/
structure PrintedStore where
  store : DrawerStore
  /-- The column `content_fingerprint`, by the id of the row. -/
  contentFingerprint : String → Option Fingerprint256

abbrev PrintM (α : Type) := EStateM LocusKitError PrintedStore α

namespace PrintedStore

def putStore (s : PrintedStore) (store : DrawerStore) : PrintedStore := { s with store := store }

/-- An access that does not write the rows of drawers. -/
def onStore {α : Type} (x : StoreM α) : PrintM α := zoom PrintedStore.store putStore x

def setPrint (s : PrintedStore) (drawerId : String) (print : Option Fingerprint256) :
    PrintedStore :=
  { s with contentFingerprint := Function.update s.contentFingerprint drawerId print }

/-- Writes columns of a row, the fingerprint among them where one is given. -/
def updateRow (drawerId : String) (f : Drawer → Drawer) (hf : ∀ d, (f d).id = d.id)
    (print : Option Fingerprint256) : PrintM Unit := do
  modify fun s =>
    match print with
    | some print => s.setPrint drawerId (some print)
    | none => s
  onStore (DrawerStore.updateDrawer drawerId f hf)

def deleteRow (drawerId : String) : PrintM Unit := do
  onStore (DrawerStore.deleteDrawer drawerId)
  modify (·.setPrint drawerId none)

variable (library : FingerprintLibrary) (substrate : Substrate)

def families (s : PrintedStore) : EstateFingerprintFamilies library :=
  .new library (Uuid.text s.store.estateUuid)

/-- The fingerprint of a stored row with the fields patched that are about to be written. -/
def recomputedFingerprint (s : PrintedStore) (drawerId : String) (patch : Drawer → Drawer) :
    Except LocusKitError Fingerprint256 :=
  match s.store.drawers.find? drawerId with
  | some row => .ok ((s.families library).fingerprint (patch row))
  | none => .error (.drawerNotFound drawerId)

/-- Recomputes the fingerprint from the patched row and writes it with the other columns. -/
def refreshRow (drawerId : String) (patch f : Drawer → Drawer) (hf : ∀ d, (f d).id = d.id) :
    PrintM Unit := do
  match (← get).recomputedFingerprint library drawerId patch with
  | .ok print => updateRow drawerId f hf (some print)
  | .error e => throw e

/-- The same, going on without a fingerprint where the row cannot be read. -/
def refreshRowIfRead (drawerId : String) (patch f : Drawer → Drawer)
    (hf : ∀ d, (f d).id = d.id) : PrintM Unit := do
  let print := ((← get).recomputedFingerprint library drawerId patch).toOption
  updateRow drawerId f hf print

def insertRow (drawer : Drawer) : PrintM Unit := do
  let print := ((← get).families library).fingerprint drawer
  onStore (DrawerStore.insertDrawer drawer)
  modify (·.setPrint drawer.id (some print))

def gatedColumnWrite (drawerId : String) (column : AuditColumn) (newColumnValue : Bitmap)
    (changedBy : String) (reason : Option String) (now : Int) : PrintM Unit := do
  let rowUuid ← onStore (StoreM.ofExcept (requireUuid substrate drawerId "drawerId"))
  let writes := (editableSlots substrate column).map (·.write newColumnValue)
  let row ← onStore (DrawerStore.readDrawer drawerId)
  let anchor := substrate.udcAnchor row.udcCode
  let event ← onStore (DrawerStore.admitWrite substrate
    (DrawerStore.rowRequest substrate (← get).store rowUuid row .mutate writes anchor changedBy)
    (column.label ++ " mutation rejected by gate: ") now)
  let merged := event.afterBitmaps.get column
  refreshRow library drawerId (·.setColumn column merged) (·.setColumn column merged)
    (event.id_setColumn column)
  onStore (DrawerStore.appendAudit (event.withReason reason))

def mutateColumn (column : AuditColumn) (drawerId : String) (newValue : Bitmap)
    (changedBy : String) (reason : Option String) (now : Int) : PrintM Unit := do
  onStore (StoreM.ofExcept (validateNonEmpty drawerId "drawerId"))
  onStore (StoreM.ofExcept (validateNonEmpty changedBy "changedBy"))
  gatedColumnWrite library substrate drawerId column newValue changedBy reason now

def mutateState (drawerId : String) (newState : State) (via : RowVerb) (changedBy : String)
    (reason : Option String) (now : Int) : PrintM Unit := do
  onStore (StoreM.ofExcept (validateNonEmpty drawerId "drawerId"))
  onStore (StoreM.ofExcept (validateNonEmpty changedBy "changedBy"))
  let row ← onStore (DrawerStore.readDrawer drawerId)
  let rowUuid ← onStore (StoreM.ofExcept (requireUuid substrate drawerId "drawerId"))
  let anchor := substrate.udcAnchor row.udcCode
  let event ← onStore (DrawerStore.admitWrite substrate
    (DrawerStore.rowRequest substrate (← get).store rowUuid row via
      [⟨stateSlot, newState.rawValue⟩] anchor changedBy)
    "state mutation rejected by gate: " now)
  refreshRow library drawerId (·.setAdjective event.afterBitmaps.adjective)
    (·.setAdjective event.afterBitmaps.adjective) event.id_setAdjective
  onStore (DrawerStore.appendAudit (event.withReason reason))

def gatedCapture (drawer : Drawer) (now : Int) : PrintM Unit := do
  let rowUuid ← onStore (StoreM.ofExcept (requireUuid substrate drawer.id "id"))
  let event ← onStore (DrawerStore.admitWrite substrate
    (DrawerStore.captureRequest substrate (← get).store rowUuid drawer)
    "capture rejected by gate: " now)
  insertRow library drawer
  onStore (DrawerStore.appendAudit event)

def insertTunnelOrUndo (tunnel : Tunnel) (newDrawerId : String) : PrintM Unit := do
  match (← get).store.tunnels.insert? tunnel with
  | some tunnels => onStore (modify fun s => { s with tunnels := tunnels })
  | none =>
    deleteRow newDrawerId
    throw (.databaseUnavailable "UNIQUE constraint failed: tunnels.id")

def addDrawerWithCascade (newDrawer : Drawer) (priorId : String) : PrintM Unit := do
  let prior ← onStore (DrawerStore.readDrawer priorId)
  let nodes := (← get).store.nodes
  let sourceNames := (nodes.resolveNodeNames newDrawer.parentNodeId).getD ("", "")
  let priorNames := (nodes.resolveNodeNames prior.parentNodeId).getD ("", "")
  gatedCapture library substrate newDrawer newDrawer.filedAt
  insertTunnelOrUndo (DrawerStore.supersedesTunnel newDrawer priorId sourceNames priorNames)
    newDrawer.id
  mutateState library substrate priorId .superseded .supersede newDrawer.addedBy
    (some ("supersession cascade, lineageID " ++ Uuid.text newDrawer.lineageId)) newDrawer.filedAt

def insertWithPredecessor (drawer : Drawer) (now : Int) : PrintM Unit := do
  match (← get).store.findActivePredecessor drawer.lineageId drawer.id with
  | some priorId => addDrawerWithCascade library substrate drawer priorId
  | none => gatedCapture library substrate drawer now

def addDrawer (drawer : Drawer) (now : Int) : PrintM Unit := do
  onStore (StoreM.ofExcept (validateNonEmpty drawer.parentNodeId "parent_node_id"))
  onStore (StoreM.ofExcept (validateNonEmpty drawer.content "content"))
  onStore (StoreM.ofExcept (validateNonEmpty drawer.addedBy "addedBy"))
  onStore (StoreM.ofExcept (validateNonEmpty drawer.embeddingModelId "embeddingModelID"))
  insertWithPredecessor library substrate drawer now
  onStore (DrawerStore.orInContainer drawer)

def tombstoneSibling (headId siblingId : String) (now : Int) (sealAudit : Bool)
    (event : AuditEvent) : PrintM Unit := do
  refreshRowIfRead library siblingId (·.scrub event.afterBitmaps.adjective now)
    (·.scrub event.afterBitmaps.adjective now) (event.id_scrub now)
  if sealAudit then
    onStore (DrawerStore.appendAudit
      (event.withReason (some ("lineage expunge cascade from " ++ headId))))
  else pure ()

def expungeLiveSibling (headId changedBy : String) (now : Int) (sealAudit : Bool) (headStamp : Hlc)
    (row : Drawer) (siblingId : String) : PrintM Unit := do
  let rowUuid ← onStore (StoreM.ofExcept (requireUuid substrate siblingId "siblingId"))
  match ← onStore (DrawerStore.admitTombstone substrate rowUuid row changedBy now) with
  | .ok event => tombstoneSibling library headId siblingId now sealAudit event
  | .error _ => pure ()
  onStore (DrawerStore.recordErasure siblingId headStamp)

def expungeSibling (headId changedBy : String) (now : Int) (sealAudit : Bool) (headStamp : Hlc)
    (siblingId : String) : PrintM Unit := do
  match (← get).store.drawers.find? siblingId with
  | none => pure ()
  | some row =>
    if row.stateRaw = State.tombstoned.rawValue then
      refreshRowIfRead library siblingId (·.clearContent) (·.clearContent)
        Drawer.id_clearContent
      onStore (DrawerStore.recordErasure siblingId headStamp)
    else
      expungeLiveSibling library substrate headId changedBy now sealAudit headStamp row siblingId

def expungeGated (drawerId changedBy : String) (reason : Option String) (now : Int)
    (sealAudit : Bool) : PrintM AuditEvent := do
  onStore (StoreM.ofExcept (validateNonEmpty drawerId "drawerId"))
  onStore (StoreM.ofExcept (validateNonEmpty changedBy "changedBy"))
  let lineageIds := (← get).store.lineageChain drawerId
  let row ← onStore (DrawerStore.readDrawer drawerId)
  let rowUuid ← onStore (StoreM.ofExcept (requireUuid substrate drawerId "drawerId"))
  let anchor := substrate.udcAnchor row.udcCode
  let stamp := (← get).store.nextStamp substrate now
  let event ← onStore (DrawerStore.admitWrite substrate
    (DrawerStore.rowRequest substrate (← get).store rowUuid row .tombstone
      (expungeWrites row.bitmaps.adjective) anchor changedBy)
    "expunge rejected by gate: " now)
  refreshRow library drawerId (·.scrub event.afterBitmaps.adjective now)
    (·.scrub event.afterBitmaps.adjective now) (event.id_scrub now)
  onStore (DrawerStore.recordErasure drawerId stamp)
  (lineageIds.filter (· != drawerId)).forM
    (expungeSibling library substrate drawerId changedBy now sealAudit stamp)
  if sealAudit then onStore (DrawerStore.appendAudit event) else pure ()
  return event.withReason reason

/-- What a move patches: the fingerprint reads the code and the id of a new lattice position. -/
def patchLattice (toLattice : Option LatticeAnchor) (drawer : Drawer) : Drawer :=
  match toLattice with
  | some lattice =>
    { drawer with udcCode := lattice.udcCode, wikidataQid := lattice.wikidataQid }
  | none => drawer

def reanchorGated (drawerId : String) (toRoom toWing : Option String)
    (toLattice : Option LatticeAnchor) (changedBy : String) (reason : Option String) (now : Int)
    (minted : MintedIds) : PrintM Unit := do
  onStore (StoreM.ofExcept (validateNonEmpty drawerId "drawerId"))
  onStore (StoreM.ofExcept (validateNonEmpty changedBy "changedBy"))
  let row ← onStore (DrawerStore.readDrawer drawerId)
  let rowUuid ← onStore (StoreM.ofExcept (requireUuid substrate drawerId "drawerId"))
  let afterUdc := (toLattice.map (·.udcCode)).getD row.udcCode
  let event ← onStore (DrawerStore.admitWrite substrate
    (DrawerStore.rowRequest substrate (← get).store rowUuid row .mutate []
      (substrate.udcAnchor afterUdc) changedBy)
    "reanchor rejected by gate: " now)
  let toParent ← onStore (DrawerStore.destinationRoom substrate row toRoom toWing minted)
  if toLattice.isSome ∨ toParent.isSome then
    refreshRow library drawerId (patchLattice toLattice) (·.replace toLattice toParent)
      (Drawer.replace_id toLattice toParent)
  else pure ()
  onStore (DrawerStore.appendAudit (event.withReason reason))

/-- The calls on a store, with the fingerprints they write. -/
def run : StoreCall → PrintM Unit
  | .addDrawer drawer now => addDrawer library substrate drawer now
  | .mutateColumn column drawerId newValue changedBy reason now =>
    mutateColumn library substrate column drawerId newValue changedBy reason now
  | .mutateState drawerId newState via changedBy reason now =>
    mutateState library substrate drawerId newState via changedBy reason now
  | .expungeGated drawerId changedBy reason now sealAudit => do
    let _ ← expungeGated library substrate drawerId changedBy reason now sealAudit
  | .reanchorGated drawerId toRoom toWing toLattice changedBy reason now minted =>
    reanchorGated library substrate drawerId toRoom toWing toLattice changedBy reason now minted
  | call => onStore (call.run substrate)

def step (s : PrintedStore) (call : StoreCall) : PrintedStore :=
  stateAfter (run library substrate call s)

end PrintedStore

end MootMemory
