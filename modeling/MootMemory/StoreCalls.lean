import MootMemory.DrawerLineageCases
import MootMemory.DrawerPlacementCases
import MootMemory.LoopRuns

namespace MootMemory

/-- The writing calls on a store, its opening and the nodes its owner creates among them. -/
inductive StoreCall where
  | addDrawer (drawer : Drawer) (now : Int)
  | mutateColumn (column : AuditColumn) (drawerId : String) (newValue : Bitmap) (changedBy : String)
      (reason : Option String) (now : Int)
  | mutateState (drawerId : String) (newState : State) (via : RowVerb) (changedBy : String)
      (reason : Option String) (now : Int)
  | expungeGated (drawerId changedBy : String) (reason : Option String) (now : Int)
      (sealAudit : Bool)
  | sealExpungeAudit (event : AuditEvent)
  | sealExpungeOrphanAudit (event : AuditEvent) (changedBy : String) (now : Int)
  | sealExpungeOrphanForSweep (drawerId changedBy : String) (now : Int)
  | reanchorGated (drawerId : String) (toRoom toWing : Option String)
      (toLattice : Option LatticeAnchor) (changedBy : String) (reason : Option String) (now : Int)
      (minted : MintedIds)
  | rebuildContainerFingerprints
  | reopen (mintedUuidText : String) (now : Int)
  | createNode (displayName parentId mintedId : String)
  | createRoot (displayName mintedId : String)

/-- The clock value a call is given. -/
def StoreCall.now? : StoreCall → Option Int
  | .addDrawer _ now | .mutateColumn _ _ _ _ _ now | .mutateState _ _ _ _ _ now
  | .expungeGated _ _ _ now _ | .sealExpungeOrphanAudit _ _ now
  | .sealExpungeOrphanForSweep _ _ now | .reanchorGated _ _ _ _ _ _ now _ | .reopen _ now =>
    some now
  | .sealExpungeAudit _ | .rebuildContainerFingerprints | .createNode _ _ _ | .createRoot _ _ => none

/-- Runs an action and drops its answer. -/
def StoreM.dropAnswer {α : Type} (action : StoreM α) : StoreM Unit := do
  let _ ← action

def StoreCall.run (substrate : Substrate) : StoreCall → StoreM Unit
  | .addDrawer drawer now => DrawerStore.addDrawer substrate drawer now
  | .mutateColumn column drawerId newValue changedBy reason now =>
    DrawerStore.mutateColumn substrate column drawerId newValue changedBy reason now
  | .mutateState drawerId newState via changedBy reason now =>
    DrawerStore.mutateState substrate drawerId newState via changedBy reason now
  | .expungeGated drawerId changedBy reason now sealAudit =>
    (DrawerStore.expungeGated substrate drawerId changedBy reason now sealAudit).dropAnswer
  | .sealExpungeAudit event => DrawerStore.sealExpungeAudit event
  | .sealExpungeOrphanAudit event changedBy now =>
    DrawerStore.sealExpungeOrphanAudit substrate event changedBy now
  | .sealExpungeOrphanForSweep drawerId changedBy now =>
    DrawerStore.sealExpungeOrphanForSweep substrate drawerId changedBy now
  | .reanchorGated drawerId toRoom toWing toLattice changedBy reason now minted =>
    DrawerStore.reanchorGated substrate drawerId toRoom toWing toLattice changedBy reason now minted
  | .rebuildContainerFingerprints => DrawerStore.rebuildContainerFingerprints
  | .reopen mintedUuidText now => DrawerStore.reopen substrate mintedUuidText now
  | .createNode displayName parentId mintedId =>
    (DrawerStore.createNode substrate displayName parentId mintedId).dropAnswer
  | .createRoot displayName mintedId =>
    (DrawerStore.createRoot substrate displayName mintedId).dropAnswer

namespace DrawerStore

/-- A storage that was never opened. -/
def fresh (ownerIdentifier : String) : DrawerStore where
  drawers := .empty
  tunnels := .empty
  nodes := .empty
  fingerprints := .empty
  erasureLedger := .empty
  auditLog := []
  estateUuidText := none
  ownerIdentifier := ownerIdentifier
  clock := .new 0
  estateUuid := 0

def step (substrate : Substrate) (s : DrawerStore) (call : StoreCall) : DrawerStore :=
  stateAfter (call.run substrate s)

def Succeeds (substrate : Substrate) (s : DrawerStore) (call : StoreCall) : Prop :=
  ∃ s', call.run substrate s = .ok () s'

instance (substrate : Substrate) (s : DrawerStore) (call : StoreCall) :
    Decidable (Succeeds substrate s call) :=
  match h : call.run substrate s with
  | .ok () s' => isTrue ⟨s', h⟩
  | .error _ _ => isFalse fun ⟨_, hok⟩ => nomatch h.symm.trans hok

variable {substrate : Substrate} {s : DrawerStore} {now : Int}

theorem stateAfter_dropAnswer {α : Type} (action : StoreM α) (s : DrawerStore) :
    stateAfter (action.dropAnswer s) = stateAfter (action s) := by
  rw [StoreM.dropAnswer]
  cases h : action s <;> simp [bind, EStateM.bind, h, pure, EStateM.pure]

theorem dropAnswer_eq_ok {α : Type} {action : StoreM α} {s' : DrawerStore}
    (h : action.dropAnswer s = .ok () s') : ∃ a, action s = .ok a s' := by
  obtain ⟨a, s₁, hrun, hrest⟩ := estate_bind_ok.mp h
  cases hrest
  exact ⟨a, hrun⟩

theorem Refused.stateAfter {α : Type} {r : EStateM.Result LocusKitError DrawerStore α}
    (h : Refused substrate s now r) : stateAfter r = s ∨ stateAfter r = s.ticked substrate now := by
  obtain ⟨e, rfl | rfl⟩ := h
  · exact Or.inl rfl
  · exact Or.inr rfl

theorem Refused.not_ok {α : Type} {a : α} {s' : DrawerStore}
    (h : Refused substrate s now (.ok a s')) : False := by
  obtain ⟨e, h | h⟩ := h <;> cases h

end DrawerStore

end MootMemory
