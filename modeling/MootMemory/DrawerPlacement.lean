import MootMemory.DrawerExpunge

namespace MootMemory

def Drawer.setLattice (drawer : Drawer) (lattice : LatticeAnchor) : Drawer :=
  { drawer with
      udcCode := lattice.udcCode
      udcFacets := lattice.udcFacets
      wikidataQid := lattice.wikidataQid
      wikidataQidsSecondary := lattice.wikidataQidsSecondary }

def Drawer.setParent (drawer : Drawer) (parentNodeId : String) : Drawer :=
  { drawer with parentNodeId := parentNodeId }

/-- What a move writes into the placement columns. -/
def Drawer.replace (drawer : Drawer) (toLattice : Option LatticeAnchor) (toParent : Option String) :
    Drawer :=
  let drawer := match toLattice with
    | some lattice => drawer.setLattice lattice
    | none => drawer
  match toParent with
    | some parentNodeId => drawer.setParent parentNodeId
    | none => drawer

theorem Drawer.replace_id (toLattice : Option LatticeAnchor) (toParent : Option String)
    (drawer : Drawer) : (drawer.replace toLattice toParent).id = drawer.id := by
  cases toLattice <;> cases toParent <;> rfl

@[simp] theorem Drawer.replace_bitmaps (toLattice : Option LatticeAnchor)
    (toParent : Option String) (drawer : Drawer) :
    (drawer.replace toLattice toParent).bitmaps = drawer.bitmaps := by
  cases toLattice <;> cases toParent <;> rfl

@[simp] theorem Drawer.replace_tombstonedAt (toLattice : Option LatticeAnchor)
    (toParent : Option String) (drawer : Drawer) :
    (drawer.replace toLattice toParent).tombstonedAt = drawer.tombstonedAt := by
  cases toLattice <;> cases toParent <;> rfl

@[simp] theorem Drawer.replace_parentNodeId (toLattice : Option LatticeAnchor)
    (toParent : Option String) (drawer : Drawer) :
    (drawer.replace toLattice toParent).parentNodeId = toParent.getD drawer.parentNodeId := by
  cases toLattice <;> cases toParent <;> rfl

/-- The ids minted for a wing and a room, used where these are created. -/
structure MintedIds where
  wing : String
  room : String
deriving DecidableEq, Repr

namespace DrawerStore

variable (substrate : Substrate)

def createNode (displayName parentId mintedId : String) : StoreM Node := do
  let (node, nodes) ← StoreM.ofExcept
    (NodeTable.createNode substrate (← get).nodes displayName parentId mintedId)
  modify fun s => { s with nodes := nodes }
  return node

def createRoot (displayName mintedId : String) : StoreM Node := do
  let (node, nodes) ← StoreM.ofExcept
    (NodeTable.createRoot substrate (← get).nodes displayName mintedId)
  modify fun s => { s with nodes := nodes }
  return node

/-- The room node of a move, created on demand; none without a root. -/
def destinationRoom (row : Drawer) (toRoom toWing : Option String) (minted : MintedIds) :
    StoreM (Option String) := do
  if toRoom.isSome ∨ toWing.isSome then
    let nodes := (← get).nodes
    let current := (nodes.resolveNodeNames row.parentNodeId).getD ("", "")
    match nodes.rootNode with
    | some root => do
      let wing ← createNode substrate (toWing.getD current.1) root.id minted.wing
      let room ← createNode substrate (toRoom.getD current.2) wing.id minted.room
      return some room.id
    | none => return none
  else return none

/-- Moves a row to another room or lattice position; its bitmaps stay. -/
def reanchorGated (drawerId : String) (toRoom toWing : Option String)
    (toLattice : Option LatticeAnchor) (changedBy : String) (reason : Option String) (now : Int)
    (minted : MintedIds) : StoreM Unit := do
  StoreM.ofExcept (validateNonEmpty drawerId "drawerId")
  StoreM.ofExcept (validateNonEmpty changedBy "changedBy")
  let row ← readDrawer drawerId
  let rowUuid ← StoreM.ofExcept (requireUuid substrate drawerId "drawerId")
  let afterUdc := (toLattice.map (·.udcCode)).getD row.udcCode
  let event ← admitWrite substrate
    (rowRequest substrate (← get) rowUuid row .mutate [] (substrate.udcAnchor afterUdc) changedBy)
    "reanchor rejected by gate: " now
  let toParent ← destinationRoom substrate row toRoom toWing minted
  updateDrawer drawerId (·.replace toLattice toParent) (Drawer.replace_id toLattice toParent)
  appendAudit (event.withReason reason)

/-- Rebuilds the fingerprints from the rows that are not tombstoned, at every opening. -/
def rebuildContainerFingerprints : StoreM Unit :=
  modify fun s =>
    let active := s.drawers.rows.filter (·.tombstonedAt.isNone)
    { s with fingerprints := s.fingerprints.rebuildAll active s.nodes.resolveNodeNames }

/-- The node id of the clock, from the text of the estate's UUID. -/
def makerNodeId (estateUuidText : String) : Nat := substrate.hash32 estateUuidText % 2 ^ 31

/-- The clock a store makes for itself when it is opened. -/
def makeClock (estateUuidText : String) (now : Int) : HlcGenerator :=
  (substrate.send (.new (makerNodeId substrate estateUuidText)) now).2

/-- Opens the storage with a clock of its own; the first opening mints the estate's UUID. -/
def reopen (mintedUuidText : String) (now : Int) : StoreM Unit := do
  let text := (← get).estateUuidText.getD mintedUuidText
  match substrate.parseUuid text with
  | none => throw (.corruptStoredValue "manifest" "estate_uuid" text)
  | some uuid => modify fun s =>
    { s with
        estateUuidText := some text
        estateUuid := uuid
        clock := makeClock substrate text now }

end DrawerStore

end MootMemory
