import MootMemory.DrawerLineageCases

namespace MootMemory

/-- The accesses of one capture to the storage, in the order in which they are made. -/
inductive CaptureAccess where
  | findPredecessor
  | readPredecessor
  | resolveNames
  | captureTransaction
  | insertTunnel
  | undoCapture
  | readState
  | readUdc
  | readPrint
  | flipTransaction
  | openContainers
  | resolveContainer
  | readRoom
  | writeRoom
  | readWing
  | writeWing
deriving DecidableEq, Repr

/-- The accesses that fail, with the message of the storage. -/
abbrev StorageFaults := CaptureAccess → Option String

def StorageFaults.none : StorageFaults := fun _ => Option.none

namespace DrawerStore

def touch {Access : Type} (faults : Access → Option String) (access : Access) : StoreM Unit :=
  match faults access with
  | some message => throw (.databaseUnavailable message)
  | none => pure ()

theorem touch_bind_cases {Access α : Type} {faults : Access → Option String} {access : Access}
    {f : Unit → StoreM α} {s : DrawerStore} {r : EStateM.Result LocusKitError DrawerStore α}
    (h : (touch faults access >>= f) s = r) :
    (faults access ≠ none ∧ ∃ e, r = .error e s) ∨ (faults access = none ∧ f () s = r) := by
  cases hfault : faults access with
  | some message =>
    simp only [touch, hfault, bind, EStateM.bind] at h
    exact Or.inl ⟨Option.some_ne_none message, _, h.symm⟩
  | none =>
    simp only [touch, hfault, bind, EStateM.bind] at h
    exact Or.inr ⟨rfl, h⟩

variable (substrate : Substrate) (faults : StorageFaults)

/-- The row and its event are written in one transaction. -/
def gatedCaptureUnder (drawer : Drawer) (now : Int) : StoreM Unit := do
  let rowUuid ← StoreM.ofExcept (requireUuid substrate drawer.id "id")
  let event ← admitWrite substrate (captureRequest substrate (← get) rowUuid drawer)
    "capture rejected by gate: " now
  touch faults .captureTransaction
  insertDrawer drawer
  appendAudit event

def mutateStateUnder (drawerId : String) (newState : State) (via : RowVerb) (changedBy : String)
    (reason : Option String) (now : Int) : StoreM Unit := do
  StoreM.ofExcept (validateNonEmpty drawerId "drawerId")
  StoreM.ofExcept (validateNonEmpty changedBy "changedBy")
  touch faults .readState
  let row ← readDrawer drawerId
  let rowUuid ← StoreM.ofExcept (requireUuid substrate drawerId "drawerId")
  touch faults .readUdc
  let anchor := substrate.udcAnchor row.udcCode
  let event ← admitWrite substrate
    (rowRequest substrate (← get) rowUuid row via [⟨stateSlot, newState.rawValue⟩] anchor changedBy)
    "state mutation rejected by gate: " now
  touch faults .readPrint
  touch faults .flipTransaction
  updateDrawer drawerId (·.setAdjective event.afterBitmaps.adjective) event.id_setAdjective
  appendAudit (event.withReason reason)

/-- What the insertion of a tunnel gives: the new table, or why it failed. -/
def insertTunnelUnder (tunnels : KeyedTable Tunnel.id) (tunnel : Tunnel) :
    Except String (KeyedTable Tunnel.id) :=
  match faults .insertTunnel with
  | some message => .error message
  | none =>
    match tunnels.insert? tunnel with
    | some tunnels => .ok tunnels
    | none => .error "UNIQUE constraint failed: tunnels.id"

/-- The compensating delete is tried once, and its own failure is not looked at. -/
def undoCaptureUnder (newDrawerId : String) : StoreM Unit :=
  match faults .undoCapture with
  | some _ => pure ()
  | none => deleteDrawer newDrawerId

def insertTunnelOrUndoUnder (tunnel : Tunnel) (newDrawerId : String) : StoreM Unit := do
  match insertTunnelUnder faults (← get).tunnels tunnel with
  | .ok tunnels => modify fun s => { s with tunnels := tunnels }
  | .error message =>
    undoCaptureUnder faults newDrawerId
    throw (.databaseUnavailable message)

def addDrawerWithCascadeUnder (newDrawer : Drawer) (priorId : String) : StoreM Unit := do
  touch faults .readPredecessor
  let prior ← readDrawer priorId
  touch faults .resolveNames
  let nodes := (← get).nodes
  let sourceNames := (nodes.resolveNodeNames newDrawer.parentNodeId).getD ("", "")
  let priorNames := (nodes.resolveNodeNames prior.parentNodeId).getD ("", "")
  gatedCaptureUnder substrate faults newDrawer newDrawer.filedAt
  insertTunnelOrUndoUnder faults (supersedesTunnel newDrawer priorId sourceNames priorNames)
    newDrawer.id
  mutateStateUnder substrate faults priorId .superseded .supersede newDrawer.addedBy
    (cascadeReason newDrawer) newDrawer.filedAt

def insertWithPredecessorUnder (drawer : Drawer) (now : Int) : StoreM Unit := do
  touch faults .findPredecessor
  match (← get).findActivePredecessor drawer.lineageId drawer.id with
  | some priorId => addDrawerWithCascadeUnder substrate faults drawer priorId
  | none => gatedCaptureUnder substrate faults drawer now

def orIntoUnder (reading writing : CaptureAccess) (wing room : String) (bitmaps : BitmapFields) :
    StoreM Unit := do
  touch faults reading
  touch faults writing
  modify fun s => { s with fingerprints := s.fingerprints.orInto wing room bitmaps }

def orInContainerUnder (drawer : Drawer) : StoreM Unit := do
  touch faults .openContainers
  touch faults .resolveContainer
  let names := ((← get).nodes.resolveNodeNames drawer.parentNodeId).getD ("", "")
  orIntoUnder faults .readRoom .writeRoom names.1 names.2 drawer.bitmaps
  orIntoUnder faults .readWing .writeWing names.1 wingRollupRoom drawer.bitmaps

/-- The adding of a drawer over a storage whose accesses may fail. -/
def addDrawerUnder (drawer : Drawer) (now : Int) : StoreM Unit := do
  StoreM.ofExcept (validateNonEmpty drawer.parentNodeId "parent_node_id")
  StoreM.ofExcept (validateNonEmpty drawer.content "content")
  StoreM.ofExcept (validateNonEmpty drawer.addedBy "addedBy")
  StoreM.ofExcept (validateNonEmpty drawer.embeddingModelId "embeddingModelID")
  insertWithPredecessorUnder substrate faults drawer now
  orInContainerUnder faults drawer

section NoFaults

variable {substrate}

@[simp] theorem touch_none (access : CaptureAccess) :
    touch StorageFaults.none access = pure () := rfl

theorem gatedCaptureUnder_none (drawer : Drawer) (now : Int) :
    gatedCaptureUnder substrate .none drawer now = gatedCapture substrate drawer now := by
  simp only [gatedCaptureUnder, gatedCapture, touch_none, pure_bind]

theorem mutateStateUnder_none (drawerId : String) (newState : State) (via : RowVerb)
    (changedBy : String) (reason : Option String) (now : Int) :
    mutateStateUnder substrate .none drawerId newState via changedBy reason now =
      mutateState substrate drawerId newState via changedBy reason now := by
  simp only [mutateStateUnder, mutateState, touch_none, pure_bind]

theorem insertTunnelOrUndoUnder_none (tunnel : Tunnel) (newDrawerId : String) :
    insertTunnelOrUndoUnder .none tunnel newDrawerId = insertTunnelOrUndo tunnel newDrawerId := by
  funext s
  simp only [insertTunnelOrUndoUnder, insertTunnelOrUndo, insertTunnelUnder, StorageFaults.none,
    undoCaptureUnder, bind, EStateM.bind, get_eq]
  cases s.tunnels.insert? tunnel <;> rfl

theorem orInContainerUnder_none (drawer : Drawer) :
    orInContainerUnder .none drawer = orInContainer drawer := by
  funext s
  rfl

theorem addDrawerWithCascadeUnder_none (newDrawer : Drawer) (priorId : String) :
    addDrawerWithCascadeUnder substrate .none newDrawer priorId =
      addDrawerWithCascade substrate newDrawer priorId := by
  simp only [addDrawerWithCascadeUnder, addDrawerWithCascade, touch_none, pure_bind,
    gatedCaptureUnder_none, mutateStateUnder_none, insertTunnelOrUndoUnder_none, cascadeReason]

theorem insertWithPredecessorUnder_none (drawer : Drawer) (now : Int) :
    insertWithPredecessorUnder substrate .none drawer now =
      insertWithPredecessor substrate drawer now := by
  simp only [insertWithPredecessorUnder, touch_none, pure_bind, addDrawerWithCascadeUnder_none,
    gatedCaptureUnder_none]
  rfl

/-- Over a storage without failures it is the plain one. -/
theorem addDrawerUnder_none (drawer : Drawer) (now : Int) :
    addDrawerUnder substrate .none drawer now = addDrawer substrate drawer now := by
  simp only [addDrawerUnder, addDrawer, insertWithPredecessorUnder_none, orInContainerUnder_none]

end NoFaults

section Follows

variable {α β : Type}

/-- Where the one action succeeds the other does the same. -/
def Follows (action sound : StoreM α) : Prop :=
  ∀ s a s', action s = .ok a s' → sound s = .ok a s'

theorem Follows.refl (action : StoreM α) : Follows action action := fun _ _ _ h => h

theorem Follows.bind {action sound : StoreM α} {f g : α → StoreM β} (h : Follows action sound)
    (hf : ∀ a, Follows (f a) (g a)) : Follows (action >>= f) (sound >>= g) := by
  intro s b s' hrun
  obtain ⟨a, s₁, haction, hrest⟩ := estate_bind_ok.mp hrun
  exact estate_bind_ok.mpr ⟨a, s₁, h s a s₁ haction, hf a s₁ b s' hrest⟩

theorem Follows.touch {Access : Type} {faults : Access → Option String} {access : Access}
    {f : Unit → StoreM α} {sound : StoreM α} (h : Follows (f ()) sound) :
    Follows (DrawerStore.touch faults access >>= f) sound := by
  intro s a s' hrun
  obtain ⟨-, e, he⟩ | ⟨-, hrun⟩ := touch_bind_cases hrun
  · cases he
  · exact h s a s' hrun

theorem gatedCaptureUnder_follows (drawer : Drawer) (now : Int) :
    Follows (gatedCaptureUnder substrate faults drawer now) (gatedCapture substrate drawer now) :=
  (Follows.refl _).bind fun _ => (Follows.refl _).bind fun _ => (Follows.refl _).bind fun _ =>
    .touch (.refl _)

theorem mutateStateUnder_follows (drawerId : String) (newState : State) (via : RowVerb)
    (changedBy : String) (reason : Option String) (now : Int) :
    Follows (mutateStateUnder substrate faults drawerId newState via changedBy reason now)
      (mutateState substrate drawerId newState via changedBy reason now) :=
  (Follows.refl _).bind fun _ => (Follows.refl _).bind fun _ => .touch <|
    (Follows.refl _).bind fun _ => (Follows.refl _).bind fun _ => .touch <|
      (Follows.refl _).bind fun _ => (Follows.refl _).bind fun _ => .touch (.touch (.refl _))

theorem insertTunnelOrUndoUnder_follows (tunnel : Tunnel) (newDrawerId : String) :
    Follows (insertTunnelOrUndoUnder faults tunnel newDrawerId)
      (insertTunnelOrUndo tunnel newDrawerId) := by
  intro s a s' hrun
  simp only [insertTunnelOrUndoUnder, insertTunnelUnder, bind, EStateM.bind, get_eq] at hrun
  cases hfault : faults .insertTunnel with
  | some message =>
    simp only [hfault, undoCaptureUnder] at hrun
    cases hundo : faults .undoCapture with
    | some text => rw [hundo] at hrun; cases hrun
    | none => rw [hundo] at hrun; cases hrun
  | none =>
    rw [hfault] at hrun
    cases hinsert : s.tunnels.insert? tunnel with
    | some tunnels =>
      simp only [hinsert] at hrun
      simp only [insertTunnelOrUndo, bind, EStateM.bind, get_eq, hinsert]
      exact hrun
    | none =>
      simp only [hinsert, undoCaptureUnder] at hrun
      cases hundo : faults .undoCapture with
      | some text => rw [hundo] at hrun; cases hrun
      | none => rw [hundo] at hrun; cases hrun

theorem insertWithPredecessorUnder_follows (drawer : Drawer) (now : Int) :
    Follows (insertWithPredecessorUnder substrate faults drawer now)
      (insertWithPredecessor substrate drawer now) := by
  refine .touch ((Follows.refl _).bind fun s => ?_)
  cases s.findActivePredecessor drawer.lineageId drawer.id with
  | none => exact gatedCaptureUnder_follows substrate faults drawer now
  | some priorId =>
    exact .touch <| (Follows.refl _).bind fun _ => .touch <| (Follows.refl _).bind fun _ =>
      (gatedCaptureUnder_follows substrate faults drawer _).bind fun _ =>
        (insertTunnelOrUndoUnder_follows faults _ _).bind fun _ =>
          mutateStateUnder_follows substrate faults _ _ _ _ _ _

theorem orIntoUnder_follows (reading writing : CaptureAccess) (wing room : String)
    (bitmaps : BitmapFields) : Follows (orIntoUnder faults reading writing wing room bitmaps)
      (modify fun s => { s with fingerprints := s.fingerprints.orInto wing room bitmaps }) :=
  .touch (.touch (.refl _))

theorem orInContainerUnder_follows (drawer : Drawer) :
    Follows (orInContainerUnder faults drawer) (orInContainer drawer) := by
  refine .touch (.touch fun s a s' hrun => ?_)
  have hfollows := (orIntoUnder_follows faults .readRoom .writeRoom
      ((s.nodes.resolveNodeNames drawer.parentNodeId).getD ("", "")).1
      ((s.nodes.resolveNodeNames drawer.parentNodeId).getD ("", "")).2 drawer.bitmaps).bind
    fun _ => orIntoUnder_follows faults .readWing .writeWing
      ((s.nodes.resolveNodeNames drawer.parentNodeId).getD ("", "")).1 wingRollupRoom drawer.bitmaps
  exact hfollows s a s' hrun

/-- An adding that goes through over a storage with failures is the one over a sound storage. -/
theorem addDrawerUnder_follows (drawer : Drawer) (now : Int) :
    Follows (addDrawerUnder substrate faults drawer now) (addDrawer substrate drawer now) :=
  (Follows.refl _).bind fun _ => (Follows.refl _).bind fun _ => (Follows.refl _).bind fun _ =>
    (Follows.refl _).bind fun _ => (insertWithPredecessorUnder_follows substrate faults _ _).bind
      fun _ => orInContainerUnder_follows faults drawer

end Follows

end DrawerStore

end MootMemory
