import MootMemory.DrawerWrites

namespace MootMemory

/-- Scrubs the content of a row and moves it to the tombstoned state. -/
def Drawer.scrub (drawer : Drawer) (adjective : Bitmap) (now : Int) : Drawer :=
  { drawer.setAdjective adjective with content := "", tombstonedAt := some now }

def Drawer.clearContent (drawer : Drawer) : Drawer := { drawer with content := "" }

theorem AuditEvent.id_scrub (event : AuditEvent) (now : Int) (drawer : Drawer) :
    (drawer.scrub event.afterBitmaps.adjective now).id = drawer.id := rfl

theorem Drawer.id_clearContent (drawer : Drawer) : drawer.clearContent.id = drawer.id := rfl

/-- The state and the flags an expunge writes; the two lower flag bits are kept. -/
def expungeWrites (adjective : Bitmap) : List FieldWrite :=
  [⟨stateSlot, State.tombstoned.rawValue⟩,
    ⟨flagsSlot, (extractField adjective 24 3 &&& 0b011) ||| 0b100⟩]

/-- The record of an expunge whose rows outside this kit could not be deleted. -/
def AuditEvent.orphan (event : AuditEvent) (eventId : Uuid) (stamp : Hlc) (changedBy : String) :
    AuditEvent :=
  { event with
      eventId := eventId
      hlc := stamp
      verb := "expungeOrphan"
      actor := changedBy
      reason := none }

/-- The same record made from the row as it is now; its state before is unknown. -/
def AuditEvent.orphanOfRow (eventId estateUuid rowUuid : Uuid) (stamp : Hlc) (row : Drawer)
    (anchor : AuditAnchor) (changedBy : String) : AuditEvent where
  eventId := eventId
  estateUuid := estateUuid
  rowId := rowUuid
  hlc := stamp
  verb := "expungeOrphan"
  beforeBitmaps := none
  afterBitmaps := row.bitmaps
  beforeLatticeAnchor := none
  afterLatticeAnchor := anchor
  actor := changedBy
  reason := none

namespace DrawerStore

/-- The ids of the rows that share the row's lineage, the row itself among them. -/
def lineageChain (s : DrawerStore) (drawerId : String) : List String :=
  match s.drawers.find? drawerId with
  | some row => (s.drawers.rows.filter fun d => d.lineageId == row.lineageId).map (·.id)
  | none => []

variable (substrate : Substrate)

/-- Asks the gate for the tombstoning of a row; takes a stamp also when it is refused. -/
def admitTombstone (rowUuid : Uuid) (row : Drawer) (changedBy : String) (now : Int) :
    StoreM (Except String AuditEvent) := do
  let stamp ← sendStamp substrate now
  let anchor := substrate.udcAnchor row.udcCode
  return substrate.gateAdmit <| rowRequest substrate (← get) rowUuid row .tombstone
    (expungeWrites row.bitmaps.adjective) anchor changedBy stamp

/-- A sibling that the gate lets go is scrubbed, and sealed when the head is. -/
def tombstoneSibling (headId siblingId : String) (now : Int) (sealAudit : Bool)
    (event : AuditEvent) : StoreM Unit := do
  updateDrawer siblingId (·.scrub event.afterBitmaps.adjective now) (event.id_scrub now)
  if sealAudit then
    appendAudit (event.withReason (some ("lineage expunge cascade from " ++ headId)))
  else pure ()

/-- A sibling that is not tombstoned yet goes through the gate; one that it keeps back survives. -/
def expungeLiveSibling (headId changedBy : String) (now : Int) (sealAudit : Bool) (headStamp : Hlc)
    (row : Drawer) (siblingId : String) : StoreM Unit := do
  let rowUuid ← StoreM.ofExcept (requireUuid substrate siblingId "siblingId")
  match ← admitTombstone substrate rowUuid row changedBy now with
  | .ok event => tombstoneSibling headId siblingId now sealAudit event
  | .error _ => pure ()
  recordErasure siblingId headStamp

/-- One round of the loop over the lineage; `headStamp` goes into the ledger. -/
def expungeSibling (headId changedBy : String) (now : Int) (sealAudit : Bool) (headStamp : Hlc)
    (siblingId : String) : StoreM Unit := do
  match (← get).drawers.find? siblingId with
  | none => pure ()
  | some row =>
    if row.stateRaw = State.tombstoned.rawValue then
      updateDrawer siblingId (·.clearContent) Drawer.id_clearContent
      recordErasure siblingId headStamp
    else expungeLiveSibling substrate headId changedBy now sealAudit headStamp row siblingId

/-- Tombstones and scrubs a row and its lineage; gives back the event of the row. -/
def expungeGated (drawerId changedBy : String) (reason : Option String) (now : Int)
    (sealAudit : Bool) : StoreM AuditEvent := do
  StoreM.ofExcept (validateNonEmpty drawerId "drawerId")
  StoreM.ofExcept (validateNonEmpty changedBy "changedBy")
  let lineageIds := (← get).lineageChain drawerId
  let row ← readDrawer drawerId
  let rowUuid ← StoreM.ofExcept (requireUuid substrate drawerId "drawerId")
  let anchor := substrate.udcAnchor row.udcCode
  let stamp := (← get).nextStamp substrate now
  let event ← admitWrite substrate
    (rowRequest substrate (← get) rowUuid row .tombstone (expungeWrites row.bitmaps.adjective) anchor
      changedBy)
    "expunge rejected by gate: " now
  updateDrawer drawerId (·.scrub event.afterBitmaps.adjective now) (event.id_scrub now)
  recordErasure drawerId stamp
  (lineageIds.filter (· != drawerId)).forM
    (expungeSibling substrate drawerId changedBy now sealAudit stamp)
  if sealAudit then appendAudit event else pure ()
  return event.withReason reason

def sealExpungeAudit (event : AuditEvent) : StoreM Unit := appendAudit event

def sealExpungeOrphanAudit (successEvent : AuditEvent) (changedBy : String) (now : Int) :
    StoreM Unit := do
  let stamp ← sendStamp substrate now
  let eventId := substrate.contentId successEvent.estateUuid successEvent.rowId stamp
    "expungeOrphan" successEvent.afterBitmaps successEvent.afterLatticeAnchor
  appendAudit (successEvent.orphan eventId stamp changedBy)

def sealExpungeOrphanForSweep (drawerId changedBy : String) (now : Int) : StoreM Unit := do
  let rowUuid ← StoreM.ofExcept (requireUuid substrate drawerId "drawerId")
  let row ← readDrawer drawerId
  let anchor := substrate.udcAnchor row.udcCode
  let stamp ← sendStamp substrate now
  let estateUuid := (← get).estateUuid
  let eventId := substrate.contentId estateUuid rowUuid stamp "expungeOrphan" row.bitmaps anchor
  appendAudit (.orphanOfRow eventId estateUuid rowUuid stamp row anchor changedBy)

def hasExpungeAudit (s : DrawerStore) (rowUuid : Uuid) : Bool :=
  s.auditLog.any fun e => e.rowId == rowUuid && (e.verb == "tombstone" || e.verb == "expungeOrphan")

/-- The tombstoned rows of which no expunge is recorded, by the time they were tombstoned. -/
def tombstonedRowsWithoutExpungeAudit (s : DrawerStore) : Except LocusKitError (List Drawer) := do
  let tombstoned := (s.drawers.rows.filter (·.tombstonedAt.isSome)).mergeSort fun a b =>
    a.tombstonedAt.getD 0 ≤ b.tombstonedAt.getD 0
  let rowKeys ← tombstoned.mapM fun d => requireUuid substrate d.id "drawerId"
  return ((tombstoned.zip rowKeys).filter fun p => !s.hasExpungeAudit p.2).map (·.1)

end DrawerStore

end MootMemory
