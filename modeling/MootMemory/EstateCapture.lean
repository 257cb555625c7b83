import MootMemory.DrawerPlacement

namespace MootMemory

/-- What a capture is given. -/
structure CaptureFrame where
  content : String
  channel : CaptureChannel
  sensitivity : AdjectiveSensitivity
  kind : ContentKind
  provenanceChannel : Channel
  sourceType : SourceType
  provenanceSensitivity : Sensitivity
  confirmation : Confirmation
  confidence : Confidence
  lineageId : Option Uuid
  room : String
  latticeAnchor : LatticeAnchor
  addedBy : String
  embeddingModelId : String
  featureFlags : Bitmap
  eventTime : Option Int
  exportability : AdjectiveExportability
  wing : Option String
deriving DecidableEq, Repr

def defaultWingName : String := "Agentic Memory"

/-- The ids minted for a capture, used where neither the frame nor the tree has one. -/
structure CaptureIds where
  nodes : MintedIds
  drawer : String
  lineage : Uuid
deriving DecidableEq, Repr

namespace CaptureFrame

def validate (frame : CaptureFrame) : Except LocusKitError Unit := do
  validateNonEmpty frame.content "content"
  validateNonEmpty frame.room "room"
  if frame.latticeAnchor.udcCode = "" then
    .error (.invalidContent "latticeAnchor.udcCode must not be empty (spec I-5)")
  validateNonEmpty frame.addedBy "addedBy"
  validateNonEmpty frame.embeddingModelId "embeddingModelID"

def wingName (frame : CaptureFrame) : String := frame.wing.getD defaultWingName

/-- The three columns of the new drawer; its state is 0. -/
def bitmaps (frame : CaptureFrame) : BitmapFields where
  adjective := writeField frame.exportability.rawValue
    (writeField frame.sensitivity.rawValue 0 6 6) 12 6
  operational := writeField frame.kind.rawValue (writeField frame.channel.rawValue 0 0 6) 6 6 |||
    (frame.featureFlags &&& DrawerFeatureFlags.fieldMask)
  provenance := writeField frame.provenanceSensitivity.rawValue
    (writeField frame.confidence.rawValue
      (writeField frame.confirmation.rawValue
        (writeField frame.provenanceChannel.rawValue
          (writeField frame.sourceType.rawValue 0 0 6) 6 6) 18 6) 24 6) 30 6

def drawer (frame : CaptureFrame) (parentNodeId : String) (ids : CaptureIds) (now : Int) :
    Drawer where
  id := ids.drawer
  lineageId := frame.lineageId.getD ids.lineage
  content := frame.content
  parentNodeId := parentNodeId
  addedBy := frame.addedBy
  filedAt := now
  eventTime := frame.eventTime.getD now
  embeddingModelId := frame.embeddingModelId
  tombstonedAt := none
  bitmaps := frame.bitmaps
  udcCode := frame.latticeAnchor.udcCode
  udcFacets := frame.latticeAnchor.udcFacets
  wikidataQid := frame.latticeAnchor.wikidataQid
  wikidataQidsSecondary := frame.latticeAnchor.wikidataQidsSecondary

/-- The key of the batch's cache: the names as given, with a null character between them. -/
def cacheKey (frame : CaptureFrame) : String := frame.wingName ++ "\x00" ++ frame.room

end CaptureFrame

namespace DrawerStore

variable (substrate : Substrate)

def requireRoot (verb : String) : StoreM Node := do
  match (← get).nodes.rootNode with
  | some root => return root
  | none =>
    throw (.databaseUnavailable (verb ++ ": estate root node not found — estate not provisioned"))

/-- The room of a frame, created on demand under its wing. -/
def resolveRoom (frame : CaptureFrame) (root : Node) (minted : MintedIds) : StoreM Node := do
  let wing ← createNode substrate frame.wingName root.id minted.wing
  createNode substrate frame.room wing.id minted.room

/-- The capture verb of an estate. -/
def capture (frame : CaptureFrame) (ids : CaptureIds) (now : Int) : StoreM Drawer := do
  StoreM.ofExcept frame.validate
  let root ← requireRoot "capture"
  let room ← resolveRoom substrate frame root ids.nodes
  addDrawer substrate (frame.drawer room.id ids now) now
  return frame.drawer room.id ids now

/-- One capture after the other, up to the first that fails. -/
def captureEach (now : Int) : List (CaptureFrame × CaptureIds) → StoreM (List Drawer)
  | [] => return []
  | (frame, ids) :: frames => do
    let drawer ← capture substrate frame ids now
    let drawers ← captureEach now frames
    return drawer :: drawers

/-- The room the cache has under the frame's key, or else the resolved one, then cached. -/
def cachedRoom (root : Node) (cache : List (String × Node)) (frame : CaptureFrame)
    (minted : MintedIds) : StoreM (Node × List (String × Node)) :=
  match cache.lookup frame.cacheKey with
  | some room => return (room, cache)
  | none => do
    let room ← resolveRoom substrate frame root minted
    return (room, (frame.cacheKey, room) :: cache)

def captureBatchLoop (root : Node) (now : Int) (cache : List (String × Node)) :
    List (CaptureFrame × CaptureIds) → StoreM (List Drawer)
  | [] => return []
  | (frame, ids) :: frames => do
    StoreM.ofExcept frame.validate
    let (room, cache) ← cachedRoom substrate root cache frame ids.nodes
    addDrawer substrate (frame.drawer room.id ids now) now
    let drawers ← captureBatchLoop root now cache frames
    return frame.drawer room.id ids now :: drawers

def captureBatch (frames : List (CaptureFrame × CaptureIds)) (now : Int) :
    StoreM (List Drawer) := do
  let root ← requireRoot "capture_batch"
  captureBatchLoop substrate root now [] frames

end DrawerStore

end MootMemory
