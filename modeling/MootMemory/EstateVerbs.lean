import MootMemory.DrawerTunnels
import MootMemory.EstateCapture
import MootMemory.StoreCalls

namespace MootMemory

/-- Values that name no tier are read as normal. -/
def AdjectiveSensitivity.fromRaw (v : Bitmap) : AdjectiveSensitivity :=
  match v.toNat with
  | 0 => .normal
  | 16 => .elevated
  | 32 => .restricted
  | 48 => .secret
  | _ => .normal

@[simp] theorem AdjectiveSensitivity.fromRaw_rawValue (tier : AdjectiveSensitivity) :
    fromRaw tier.rawValue = tier := by
  cases tier <;> rfl

/-- The sensitivity field of an adjective column. -/
def sensitivityField (adjective : Bitmap) : Bitmap := extractField adjective 6 6

def Drawer.adjectiveSensitivity (drawer : Drawer) : AdjectiveSensitivity :=
  .fromRaw (sensitivityField drawer.bitmaps.adjective)

def Tunnel.adjectiveSensitivity (tunnel : Tunnel) : AdjectiveSensitivity :=
  .fromRaw (sensitivityField tunnel.adjectiveBitmap)

structure TunnelCaptureFrame where
  sourceWing : String
  sourceRoom : String
  sourceDrawerId : Option String
  targetWing : String
  targetRoom : String
  targetDrawerId : Option String
  label : String
  kind : TunnelKind
  addedBy : String
deriving DecidableEq, Repr

def TunnelCaptureFrame.validate (frame : TunnelCaptureFrame) : Except LocusKitError Unit := do
  validateNonEmpty frame.sourceWing "sourceWing"
  validateNonEmpty frame.sourceRoom "sourceRoom"
  validateNonEmpty frame.targetWing "targetWing"
  validateNonEmpty frame.targetRoom "targetRoom"
  validateNonEmpty frame.label "label"
  validateNonEmpty frame.addedBy "addedBy"

def TunnelCaptureFrame.endpointIds (frame : TunnelCaptureFrame) : List String :=
  [frame.sourceDrawerId, frame.targetDrawerId].filterMap id

/-- The named changes of a drawer. -/
inductive MutationKind where
  | confirm
  | reject
  | contest
  | resolve
  | supersede
  | revive
  | accept
  | correctSensitivity (sensitivity : AdjectiveSensitivity)
  | correctTrust (trust : Trust)
  | correctExportability (exportability : AdjectiveExportability)
deriving DecidableEq, Repr

/-- The name of a state as an error prints it. -/
def State.debugName : State → String
  | .active => "Active"
  | .pending => "Pending"
  | .contested => "Contested"
  | .accepted => "Accepted"
  | .superseded => "Superseded"
  | .decayed => "Decayed"
  | .withdrawn => "Withdrawn"
  | .expired => "Expired"
  | .rejected => "Rejected"
  | .tombstoned => "Tombstoned"

def Trust.debugName : Trust → String
  | .verbatim => "Verbatim"
  | .observed => "Observed"
  | .imported => "Imported"
  | .canonical => "Canonical"
  | .derived => "Derived"
  | .proposed => "Proposed"
  | .ambient => "Ambient"

def Drawer.trust (drawer : Drawer) : Trust := .fromRaw (extractField drawer.bitmaps.adjective 18 6)

namespace DrawerStore

/-- The highest sensitivity field among the stored drawers of the ids. -/
def maxSensitivity (s : DrawerStore) (endpointIds : List String) : Bitmap :=
  endpointIds.foldl (fun highest drawerId =>
    match s.drawers.find? drawerId with
    | some drawer =>
      if highest < sensitivityField drawer.bitmaps.adjective then
        sensitivityField drawer.bitmaps.adjective
      else highest
    | none => highest) 0

def capturedTunnel (s : DrawerStore) (frame : TunnelCaptureFrame) (mintedId : String) (now : Int) :
    Tunnel where
  id := mintedId
  sourceWing := frame.sourceWing
  sourceRoom := frame.sourceRoom
  targetWing := frame.targetWing
  targetRoom := frame.targetRoom
  label := frame.label
  addedBy := frame.addedBy
  filedAt := now
  kind := frame.kind
  sourceDrawerId := frame.sourceDrawerId
  targetDrawerId := frame.targetDrawerId
  adjectiveBitmap := writeField (s.maxSensitivity frame.endpointIds) 0 6 6
  tombstonedAt := none

/-- Files a tunnel at the highest sensitivity of its endpoints. -/
def captureTunnel (frame : TunnelCaptureFrame) (mintedId : String) (now : Int) : StoreM Tunnel := do
  StoreM.ofExcept frame.validate
  let tunnel := (← get).capturedTunnel frame mintedId now
  addTunnel tunnel
  return tunnel

/-- The tunnels of a wing that are not tombstoned, in the order of their filing. -/
def tunnelsOfWing (s : DrawerStore) (wing : String) : List Tunnel :=
  (s.tunnels.rows.filter fun t => t.sourceWing == wing && t.tombstonedAt.isNone).mergeSort
    fun a b => a.filedAt ≤ b.filedAt

def tunnelsFromWingWithCeiling (s : DrawerStore) (wing : String) (includingRestricted : Bool) :
    List Tunnel :=
  (s.tunnelsOfWing wing).filter fun t =>
    match t.adjectiveSensitivity with
    | .normal | .elevated => true
    | .restricted => includingRestricted
    | .secret => false

def tunnelsFromWing (s : DrawerStore) (wing : String) : List Tunnel :=
  s.tunnelsFromWingWithCeiling wing false

def changedByOrEstate (s : DrawerStore) : String :=
  if s.ownerIdentifier = "" then "estate" else s.ownerIdentifier

def requireContested (drawer : Drawer) : Except LocusKitError Unit :=
  if drawer.state = .contested then .ok ()
  else .error (.invalidContent
    ("resolve: only valid from Contested (current: " ++ drawer.state.debugName ++ ")"))

def requireCanonical (drawer : Drawer) : Except LocusKitError Unit :=
  if drawer.trust.rawValue < Trust.canonical.rawValue then
    .error (.invalidContent
      ("accept: S-1 requires trust >= Canonical (current: " ++ drawer.trust.debugName ++ ")"))
  else .ok ()

def reviveRefused (state : State) (reason : String) : Except LocusKitError Unit :=
  .error (.disciplineViolation state.rawValue State.active.rawValue reason)

/-- A superseded row is revived only where no other row of its lineage lives. -/
def requireRevivable (s : DrawerStore) (drawer : Drawer) : Except LocusKitError Unit :=
  match drawer.state with
  | .decayed | .withdrawn | .expired => .ok ()
  | .superseded =>
    match s.livingSuccessorInLineage drawer.lineageId drawer.id with
    | some successorId => reviveRefused drawer.state
      ("revive: superseded row has a living successor (" ++ successorId ++
        ") holding the lineage head; revive the lineage head or withdraw/expunge the successor first")
    | none => .ok ()
  | .active | .pending | .contested | .accepted => reviveRefused drawer.state
    ("revive: row is already live (" ++ drawer.state.debugName ++
      "); revive applies only to historical Cluster-B states")
  | .rejected => reviveRefused drawer.state
    ("revive: rejected rows are not revivable; a rejection is a review verdict — " ++
      "re-propose the content instead")
  | .tombstoned => reviveRefused drawer.state
    "revive: tombstoned rows are unrecoverable; the content blob has been expunged"

variable (substrate : Substrate)

/-- The mutate verb of an estate. -/
def mutate (rowId : String) (kind : MutationKind) (payload : Option String) (now : Int) :
    StoreM Unit := do
  let drawer ← readDrawer rowId
  let s ← get
  let changedBy := s.changedByOrEstate
  let reason (text : String) : Option String := some (payload.getD text)
  let adjective := drawer.bitmaps.adjective
  match kind with
  | .confirm =>
    mutateProvenance substrate rowId
      (writeField Confirmation.userConfirmed.rawValue drawer.bitmaps.provenance 18 6) changedBy
      (some "confirmed via Estate.mutate") now
  | .reject =>
    mutateState substrate rowId .rejected .reject changedBy
      (reason "rejected via Estate.mutate") now
  | .contest =>
    mutateState substrate rowId .contested .contest changedBy
      (reason "contested via Estate.mutate") now
  | .resolve =>
    StoreM.ofExcept (requireContested drawer)
    mutateState substrate rowId .active .resolveContest changedBy
      (reason "resolved via Estate.mutate") now
  | .accept =>
    StoreM.ofExcept (requireCanonical drawer)
    mutateState substrate rowId .accepted .promote changedBy
      (reason "accepted via Estate.mutate") now
  | .supersede =>
    mutateState substrate rowId .superseded .supersede changedBy
      (reason "superseded via Estate.mutate") now
  | .revive =>
    StoreM.ofExcept (requireRevivable s drawer)
    mutateState substrate rowId .active .observe changedBy
      (reason "revived via Estate.mutate") now
  | .correctSensitivity sensitivity =>
    mutateAdjective substrate rowId (writeField sensitivity.rawValue adjective 6 6) changedBy
      (reason "sensitivity corrected via Estate.mutate") now
  | .correctTrust trust =>
    mutateAdjective substrate rowId (writeField trust.rawValue adjective 18 6) changedBy
      (reason "trust corrected via Estate.mutate") now
  | .correctExportability exportability =>
    mutateAdjective substrate rowId (writeField exportability.rawValue adjective 12 6) changedBy
      (reason "exportability corrected via Estate.mutate") now

/-- What a move may be asked for. -/
def validateReanchor (toRoom toWing : Option String) (toLattice : Option LatticeAnchor) :
    Except LocusKitError Unit := do
  if toRoom.isNone ∧ toWing.isNone ∧ toLattice.isNone then
    .error (.invalidContent "reanchor requires toRoom, toWing, or toLattice")
  if toWing.any (·.toList.all isWhitespace) then
    .error (.invalidContent "reanchor: to_wing must not be empty or whitespace-only")
  if toRoom = some "" then
    .error (.invalidContent "reanchor: to_room must not be empty")
  if toLattice.any (·.udcCode == "") then
    .error (.invalidContent "reanchor: to_lattice.udc_code must not be empty (spec I-5)")

def reanchor (rowId : String) (toRoom toWing : Option String) (toLattice : Option LatticeAnchor)
    (now : Int) (minted : MintedIds) : StoreM Unit := do
  StoreM.ofExcept (validateReanchor toRoom toWing toLattice)
  let _ ← readDrawer rowId
  reanchorGated substrate rowId toRoom toWing toLattice (← get).changedByOrEstate
    (some "reanchored via Estate.reanchor") now minted

/-- Opens an estate: the store, its fingerprints, and the root of its tree. -/
def openEstate (mintedUuidText mintedRootId : String) (now : Int) : StoreM Unit := do
  reopen substrate mintedUuidText now
  rebuildContainerFingerprints
  let _ ← createRoot substrate "Estate" mintedRootId

end DrawerStore

/-- The opening of an estate and the verbs that write drawers and tunnels. -/
inductive EstateCall where
  | openEstate (mintedUuidText mintedRootId : String) (now : Int)
  | capture (frame : CaptureFrame) (ids : CaptureIds) (now : Int)
  | captureTunnel (frame : TunnelCaptureFrame) (mintedId : String) (now : Int)
  | mutate (rowId : String) (kind : MutationKind) (payload : Option String) (now : Int)
  | reanchor (rowId : String) (toRoom toWing : Option String) (toLattice : Option LatticeAnchor)
      (now : Int) (minted : MintedIds)

def EstateCall.run (substrate : Substrate) : EstateCall → StoreM Unit
  | .openEstate mintedUuidText mintedRootId now =>
    DrawerStore.openEstate substrate mintedUuidText mintedRootId now
  | .capture frame ids now => (DrawerStore.capture substrate frame ids now).dropAnswer
  | .captureTunnel frame mintedId now => (DrawerStore.captureTunnel frame mintedId now).dropAnswer
  | .mutate rowId kind payload now => DrawerStore.mutate substrate rowId kind payload now
  | .reanchor rowId toRoom toWing toLattice now minted =>
    DrawerStore.reanchor substrate rowId toRoom toWing toLattice now minted

def DrawerStore.estateStep (substrate : Substrate) (s : DrawerStore) (call : EstateCall) :
    DrawerStore := stateAfter (call.run substrate s)

end MootMemory
