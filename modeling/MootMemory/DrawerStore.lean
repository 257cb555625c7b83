import MootMemory.ContainerFingerprints
import MootMemory.EffectRun
import MootMemory.NodeTree
import MootMemory.Vocabulary

namespace MootMemory

inductive TunnelKind where
  | supersedes
  | references
  | blocks
  | validates
  | contradicts
  | derivesFrom
  | covers
  | elaborates
  | respondsTo
  | parent
deriving DecidableEq, Repr

structure Tunnel where
  id : String
  sourceWing : String
  sourceRoom : String
  targetWing : String
  targetRoom : String
  label : String
  addedBy : String
  filedAt : Int
  kind : TunnelKind
  sourceDrawerId : Option String
  targetDrawerId : Option String
  adjectiveBitmap : Bitmap
  tombstonedAt : Option Int
deriving DecidableEq, Repr

structure ErasureRow where
  drawerId : String
  erasedHlc : Hlc
deriving DecidableEq, Repr

/-- The tables of the storage, and the clock and identity an open store holds. -/
structure DrawerStore where
  drawers : KeyedTable Drawer.id
  tunnels : KeyedTable Tunnel.id
  nodes : NodeTable
  fingerprints : ContainerTable
  erasureLedger : KeyedTable ErasureRow.drawerId
  auditLog : List AuditEvent
  estateUuidText : Option String
  ownerIdentifier : String
  clock : HlcGenerator
  estateUuid : Uuid

/-- Calls that may fail after they have written. -/
abbrev StoreM (α : Type) := EStateM LocusKitError DrawerStore α

def StoreM.ofExcept {α : Type} : Except LocusKitError α → StoreM α
  | .ok a => pure a
  | .error e => throw e

namespace DrawerStore

def readDrawer (drawerId : String) : StoreM Drawer := do
  match (← get).drawers.find? drawerId with
  | some row => return row
  | none => throw (.drawerNotFound drawerId)

def insertDrawer (drawer : Drawer) : StoreM Unit := do
  match (← get).drawers.insert? drawer with
  | some drawers => modify fun s => { s with drawers := drawers }
  | none => throw (.databaseUnavailable "UNIQUE constraint failed: drawers.id")

def updateDrawer (drawerId : String) (f : Drawer → Drawer) (hf : ∀ d, (f d).id = d.id) :
    StoreM Unit :=
  modify fun s => { s with drawers := s.drawers.update drawerId f hf }

def deleteDrawer (drawerId : String) : StoreM Unit :=
  modify fun s => { s with drawers := s.drawers.erase drawerId }

def appendAudit (event : AuditEvent) : StoreM Unit :=
  modify fun s => { s with auditLog := s.auditLog ++ [event] }

/-- A drawer already in the ledger stays as it is. -/
def recordErasure (drawerId : String) (stamp : Hlc) : StoreM Unit :=
  modify fun s => { s with erasureLedger := (s.erasureLedger.insert? ⟨drawerId, stamp⟩).getD s.erasureLedger }

variable (substrate : Substrate)

/-- The stamp that the next write takes. -/
def nextStamp (s : DrawerStore) (now : Int) : Hlc := (substrate.send s.clock now).1

/-- Takes the next stamp off the store's clock. -/
def sendStamp (now : Int) : StoreM Hlc := do
  let (stamp, clock) := substrate.send (← get).clock now
  modify fun s => { s with clock := clock }
  return stamp

/-- Takes a stamp and asks the gate; a refusal names what was refused. -/
def admitWrite (request : Hlc → AdmitRequest) (refused : String) (now : Int) :
    StoreM AuditEvent := do
  let stamp ← sendStamp substrate now
  match substrate.gateAdmit (request stamp) with
  | .ok event => return event
  | .error violation => throw (.invalidContent (refused ++ violation))

/-- What a write to a stored row asks of the gate. -/
def rowRequest (s : DrawerStore) (rowUuid : Uuid) (row : Drawer) (verb : RowVerb)
    (writes : List FieldWrite) (afterAnchor : AuditAnchor) (changedBy : String) (stamp : Hlc) :
    AdmitRequest where
  estateUuid := s.estateUuid
  rowId := rowUuid
  verb := verb
  prior := some row.bitmaps
  priorLatticeAnchor := some (substrate.udcAnchor row.udcCode)
  writes := writes
  afterLatticeAnchor := afterAnchor
  stamp := stamp
  actor := changedBy

/-- The new drawer of a capture has no state before it. -/
def captureRequest (s : DrawerStore) (rowUuid : Uuid) (drawer : Drawer) (stamp : Hlc) :
    AdmitRequest where
  estateUuid := s.estateUuid
  rowId := rowUuid
  verb := .capture
  prior := none
  priorLatticeAnchor := none
  writes := captureWrites substrate drawer.bitmaps
  afterLatticeAnchor := substrate.udcQidAnchor drawer.udcCode (drawer.wikidataQid.getD "")
  stamp := stamp
  actor := drawer.addedBy

end DrawerStore

end MootMemory
