import MootMemory.DrawerStore

namespace MootMemory

/-- The column an edit replaces, as the gate's refusal names it. -/
def AuditColumn.label : AuditColumn → String
  | .adjective => "Adjective"
  | .operational => "Operational"
  | .provenance => "Provenance"

def Drawer.setColumn (drawer : Drawer) (column : AuditColumn) (value : Bitmap) : Drawer :=
  { drawer with bitmaps := drawer.bitmaps.set column value }

def Drawer.setAdjective (drawer : Drawer) (value : Bitmap) : Drawer :=
  drawer.setColumn .adjective value

theorem AuditEvent.id_setColumn (event : AuditEvent) (column : AuditColumn) (drawer : Drawer) :
    (drawer.setColumn column (event.afterBitmaps.get column)).id = drawer.id := rfl

theorem AuditEvent.id_setAdjective (event : AuditEvent) (drawer : Drawer) :
    (drawer.setAdjective event.afterBitmaps.adjective).id = drawer.id := rfl

def AuditEvent.withReason (event : AuditEvent) (reason : Option String) : AuditEvent :=
  { event with reason := reason }

/-- The hyphenated text of a UUID. -/
def Uuid.text (uuid : Uuid) : String :=
  let digits := uuid.toHex.toList
  String.ofList <| digits.take 8 ++ '-' :: (digits.drop 8).take 4 ++ '-' :: (digits.drop 12).take 4 ++
    '-' :: (digits.drop 16).take 4 ++ '-' :: digits.drop 20

namespace DrawerStore

variable (substrate : Substrate)

/-- Replaces a column of a row, each declared field through the gate; the state field is left out. -/
def gatedColumnWrite (drawerId : String) (column : AuditColumn) (newColumnValue : Bitmap)
    (changedBy : String) (reason : Option String) (now : Int) : StoreM Unit := do
  let rowUuid ← StoreM.ofExcept (requireUuid substrate drawerId "drawerId")
  let writes := (editableSlots substrate column).map (·.write newColumnValue)
  let row ← readDrawer drawerId
  let anchor := substrate.udcAnchor row.udcCode
  let event ← admitWrite substrate
    (rowRequest substrate (← get) rowUuid row .mutate writes anchor changedBy)
    (column.label ++ " mutation rejected by gate: ") now
  updateDrawer drawerId (·.setColumn column (event.afterBitmaps.get column))
    (event.id_setColumn column)
  appendAudit (event.withReason reason)

def mutateColumn (column : AuditColumn) (drawerId : String) (newValue : Bitmap)
    (changedBy : String) (reason : Option String) (now : Int) : StoreM Unit := do
  StoreM.ofExcept (validateNonEmpty drawerId "drawerId")
  StoreM.ofExcept (validateNonEmpty changedBy "changedBy")
  gatedColumnWrite substrate drawerId column newValue changedBy reason now

def mutateProvenance := mutateColumn substrate .provenance

def mutateAdjective := mutateColumn substrate .adjective

def mutateOperational := mutateColumn substrate .operational

/-- Moves a row to another state by a verb of the automaton. -/
def mutateState (drawerId : String) (newState : State) (via : RowVerb) (changedBy : String)
    (reason : Option String) (now : Int) : StoreM Unit := do
  StoreM.ofExcept (validateNonEmpty drawerId "drawerId")
  StoreM.ofExcept (validateNonEmpty changedBy "changedBy")
  let row ← readDrawer drawerId
  let rowUuid ← StoreM.ofExcept (requireUuid substrate drawerId "drawerId")
  let anchor := substrate.udcAnchor row.udcCode
  let event ← admitWrite substrate
    (rowRequest substrate (← get) rowUuid row via [⟨stateSlot, newState.rawValue⟩] anchor changedBy)
    "state mutation rejected by gate: " now
  updateDrawer drawerId (·.setAdjective event.afterBitmaps.adjective) event.id_setAdjective
  appendAudit (event.withReason reason)

/-- The genesis event of a new drawer and its row. -/
def gatedCapture (drawer : Drawer) (now : Int) : StoreM Unit := do
  let rowUuid ← StoreM.ofExcept (requireUuid substrate drawer.id "id")
  let event ← admitWrite substrate (captureRequest substrate (← get) rowUuid drawer)
    "capture rejected by gate: " now
  insertDrawer drawer
  appendAudit event

/-- A row of the lineage, apart from the one being inserted, in a state below 3. -/
def findActivePredecessor (s : DrawerStore) (lineageId : Uuid) (excludingId : String) :
    Option String :=
  (s.drawers.rows.find? fun d =>
    d.lineageId == lineageId && d.id != excludingId && decide (d.stateRaw.toNat < 3)).map (·.id)

/-- A row of the lineage, apart from the excluded one, in a state of the living cluster. -/
def livingSuccessorInLineage (s : DrawerStore) (lineageId : Uuid) (excludingId : String) :
    Option String :=
  (s.drawers.rows.find? fun d =>
    d.lineageId == lineageId && d.id != excludingId && decide (d.stateRaw.toNat < 16)).map (·.id)

def supersedesTunnel (newDrawer : Drawer) (priorId : String)
    (sourceNames priorNames : String × String) : Tunnel where
  id := "supersedes:" ++ newDrawer.id ++ ":" ++ priorId
  sourceWing := sourceNames.1
  sourceRoom := sourceNames.2
  targetWing := priorNames.1
  targetRoom := priorNames.2
  label := "supersedes"
  addedBy := newDrawer.addedBy
  filedAt := newDrawer.filedAt
  kind := .supersedes
  sourceDrawerId := some newDrawer.id
  targetDrawerId := some priorId
  adjectiveBitmap := 0
  tombstonedAt := none

/-- A tunnel that cannot be stored takes the new drawer's row with it. -/
def insertTunnelOrUndo (tunnel : Tunnel) (newDrawerId : String) : StoreM Unit := do
  match (← get).tunnels.insert? tunnel with
  | some tunnels => modify fun s => { s with tunnels := tunnels }
  | none =>
    deleteDrawer newDrawerId
    throw (.databaseUnavailable "UNIQUE constraint failed: tunnels.id")

/-- Stores the successor and its tunnel, then flips the predecessor. -/
def addDrawerWithCascade (newDrawer : Drawer) (priorId : String) : StoreM Unit := do
  let prior ← readDrawer priorId
  let nodes := (← get).nodes
  let sourceNames := (nodes.resolveNodeNames newDrawer.parentNodeId).getD ("", "")
  let priorNames := (nodes.resolveNodeNames prior.parentNodeId).getD ("", "")
  gatedCapture substrate newDrawer newDrawer.filedAt
  insertTunnelOrUndo (supersedesTunnel newDrawer priorId sourceNames priorNames) newDrawer.id
  mutateState substrate priorId .superseded .supersede newDrawer.addedBy
    (some ("supersession cascade, lineageID " ++ Uuid.text newDrawer.lineageId)) newDrawer.filedAt

def insertWithPredecessor (drawer : Drawer) (now : Int) : StoreM Unit := do
  match (← get).findActivePredecessor drawer.lineageId drawer.id with
  | some priorId => addDrawerWithCascade substrate drawer priorId
  | none => gatedCapture substrate drawer now

/-- Adds the drawer's bitmaps to the fingerprints of its container. -/
def orInContainer (drawer : Drawer) : StoreM Unit :=
  modify fun s =>
    let names := (s.nodes.resolveNodeNames drawer.parentNodeId).getD ("", "")
    { s with fingerprints := s.fingerprints.orIn names.1 names.2 drawer.bitmaps }

def addDrawer (drawer : Drawer) (now : Int) : StoreM Unit := do
  StoreM.ofExcept (validateNonEmpty drawer.parentNodeId "parent_node_id")
  StoreM.ofExcept (validateNonEmpty drawer.content "content")
  StoreM.ofExcept (validateNonEmpty drawer.addedBy "addedBy")
  StoreM.ofExcept (validateNonEmpty drawer.embeddingModelId "embeddingModelID")
  insertWithPredecessor substrate drawer now
  orInContainer drawer

end DrawerStore

end MootMemory
