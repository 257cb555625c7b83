import MootMemory.PrintedStore
import MootMemory.ReferenceSubstrate

namespace MootMemory

namespace PrintedStore

/-- What the fingerprints depend on: the rows and the identity of the estate. -/
def rowsAndIdentity (store : DrawerStore) : KeyedTable Drawer.id × Uuid × Option String :=
  (store.drawers, store.estateUuid, store.estateUuidText)

/-- The estate keeps its identity, and the fingerprint column of every row is the fingerprint of the
row in that estate. -/
structure PrintsHold (library : FingerprintLibrary) (text : String) (uuid : Uuid)
    (s : PrintedStore) : Prop where
  sameText : s.store.estateUuidText = some text
  sameUuid : s.store.estateUuid = uuid
  prints : ∀ row ∈ s.store.drawers.rows, s.contentFingerprint row.id =
    some ((EstateFingerprintFamilies.new library (Uuid.text uuid)).fingerprint row)

/-- The action leaves the rows and the identity of the estate alone. -/
abbrev KeepsRows {α : Type} (x : StoreM α) : Prop := Keeps rowsAndIdentity x

section Accesses

variable {substrate : Substrate} {now : Int}

theorem keepsRows_ofExcept {α : Type} (x : Except LocusKitError α) :
    KeepsRows (StoreM.ofExcept x) := by
  intro s
  cases x <;> rfl

theorem keepsRows_readDrawer (drawerId : String) : KeepsRows (DrawerStore.readDrawer drawerId) := by
  refine keeps_get.bind fun s => ?_
  cases s.drawers.find? drawerId <;> exact fun _ => rfl

theorem keepsRows_sendStamp : KeepsRows (DrawerStore.sendStamp substrate now) := fun _ => rfl

theorem keepsRows_admitWrite {request : Hlc → AdmitRequest} {refused : String} :
    KeepsRows (DrawerStore.admitWrite substrate request refused now) := by
  refine keepsRows_sendStamp.bind fun stamp => ?_
  cases substrate.gateAdmit (request stamp) <;> exact fun _ => rfl

theorem keepsRows_admitTombstone {rowUuid : Uuid} {row : Drawer} {changedBy : String} :
    KeepsRows (DrawerStore.admitTombstone substrate rowUuid row changedBy now) :=
  keepsRows_sendStamp.bind fun _ => keeps_get.bind fun _ => keeps_pure _

theorem keepsRows_appendAudit (event : AuditEvent) : KeepsRows (DrawerStore.appendAudit event) :=
  fun _ => rfl

theorem keepsRows_recordErasure (drawerId : String) (stamp : Hlc) :
    KeepsRows (DrawerStore.recordErasure drawerId stamp) := fun _ => rfl

theorem keepsRows_orInContainer (drawer : Drawer) : KeepsRows (DrawerStore.orInContainer drawer) :=
  fun _ => rfl

theorem keepsRows_createNode (displayName parentId mintedId : String) :
    KeepsRows (DrawerStore.createNode substrate displayName parentId mintedId) :=
  keeps_get.bind fun _ => (keepsRows_ofExcept _).bind fun _ =>
    Keeps.bind (fun _ => rfl) fun _ => keeps_pure _

theorem keepsRows_createRoot (displayName mintedId : String) :
    KeepsRows (DrawerStore.createRoot substrate displayName mintedId) :=
  keeps_get.bind fun _ => (keepsRows_ofExcept _).bind fun _ =>
    Keeps.bind (fun _ => rfl) fun _ => keeps_pure _

theorem keepsRows_destinationRoom {row : Drawer} {toRoom toWing : Option String}
    {minted : MintedIds} :
    KeepsRows (DrawerStore.destinationRoom substrate row toRoom toWing minted) := by
  refine .ite (keeps_get.bind fun s => ?_) (keeps_pure _)
  cases hroot : s.nodes.rootNode with
  | none =>
    simp only [hroot]
    exact keeps_pure _
  | some root =>
    simp only [hroot]
    exact (keepsRows_createNode _ _ _).bind fun _ => (keepsRows_createNode _ _ _).bind fun _ =>
      keeps_pure _

end Accesses

section Steps

variable {library : FingerprintLibrary} {substrate : Substrate} {text : String} {uuid : Uuid}
  {now : Int} {α : Type}

/-- An access that leaves the rows alone leaves their fingerprints right. -/
theorem preserves_onStore {x : StoreM α} (h : KeepsRows x) :
    Preserves (PrintsHold library text uuid) (onStore x) := by
  refine .zoom h fun s t hkept hprints => ?_
  obtain ⟨hrows, hkept⟩ := Prod.mk.inj hkept
  obtain ⟨huuid, htext⟩ := Prod.mk.inj hkept
  refine ⟨htext.trans hprints.sameText, huuid.trans hprints.sameUuid, ?_⟩
  rw [putStore, hrows]
  exact hprints.prints

theorem preserves_ofExcept {x : Except LocusKitError α} :
    Preserves (PrintsHold library text uuid) (onStore (StoreM.ofExcept x)) :=
  preserves_onStore (keepsRows_ofExcept x)

theorem preserves_readDrawer {drawerId : String} :
    Preserves (PrintsHold library text uuid) (onStore (DrawerStore.readDrawer drawerId)) :=
  preserves_onStore (keepsRows_readDrawer drawerId)

theorem preserves_admitWrite {request : Hlc → AdmitRequest} {refused : String} :
    Preserves (PrintsHold library text uuid)
      (onStore (DrawerStore.admitWrite substrate request refused now)) :=
  preserves_onStore keepsRows_admitWrite

theorem preserves_appendAudit {event : AuditEvent} :
    Preserves (PrintsHold library text uuid) (onStore (DrawerStore.appendAudit event)) :=
  preserves_onStore (keepsRows_appendAudit event)

theorem preserves_recordErasure {drawerId : String} {stamp : Hlc} :
    Preserves (PrintsHold library text uuid)
      (onStore (DrawerStore.recordErasure drawerId stamp)) :=
  preserves_onStore (keepsRows_recordErasure drawerId stamp)

/-- The store after columns of a row were written. -/
def updated (s : PrintedStore) (drawerId : String) (f : Drawer → Drawer)
    (hf : ∀ d, (f d).id = d.id) (print : Option Fingerprint256) : PrintedStore where
  store := s.store.rewritten drawerId f hf
  contentFingerprint id :=
    if id = drawerId then print.or (s.contentFingerprint id) else s.contentFingerprint id

theorem updateRow_eq (s : PrintedStore) (drawerId : String) (f : Drawer → Drawer)
    (hf : ∀ d, (f d).id = d.id) (print : Option Fingerprint256) :
    updateRow drawerId f hf print s = .ok () (s.updated drawerId f hf print) := by
  have hcolumn : (s.updated drawerId f hf print).contentFingerprint =
      print.elim s.contentFingerprint fun print =>
        Function.update s.contentFingerprint drawerId (some print) := by
    funext id
    cases print with
    | none => exact (congrArg _ (Option.none_or)).trans (ite_self _)
    | some print => exact (Function.update_apply _ _ _ _).symm
  have hstate : s.updated drawerId f hf print =
      ⟨s.store.rewritten drawerId f hf, (s.updated drawerId f hf print).contentFingerprint⟩ := rfl
  rw [hstate, hcolumn]
  cases print <;> rfl

/-- The fingerprint that goes with an update is that of the row as updated. -/
theorem PrintsHold.updated {s : PrintedStore} {drawerId : String} {f : Drawer → Drawer}
    {hf : ∀ d, (f d).id = d.id} {print : Option Fingerprint256}
    (h : PrintsHold library text uuid s)
    (hprint : ∀ row ∈ s.store.drawers.rows, row.id = drawerId →
      print = some ((s.families library).fingerprint (f row))) :
    PrintsHold library text uuid (s.updated drawerId f hf print) := by
  refine ⟨h.sameText, h.sameUuid, fun row hrow => ?_⟩
  rw [families, h.sameUuid] at hprint
  change (if row.id = drawerId then _ else _) = _
  obtain ⟨old, hold, hid, rfl⟩ | ⟨hrow, hne⟩ := DrawerStore.mem_rewritten.mp hrow
  · rw [hf, if_pos hid, hprint old hold hid]
    rfl
  · rw [if_neg hne]
    exact h.prints row hrow

/-- A refresh is right where the patch and the update agree for the fingerprint. -/
theorem preserves_refreshRow {drawerId : String} {patch f : Drawer → Drawer}
    {hf : ∀ d, (f d).id = d.id}
    (hpatch : ∀ (families : EstateFingerprintFamilies library) d,
      families.fingerprint (patch d) = families.fingerprint (f d)) :
    Preserves (PrintsHold library text uuid) (refreshRow library drawerId patch f hf) := by
  intro s h
  cases hfind : s.store.drawers.find? drawerId with
  | none =>
    simp only [refreshRow, Bind.bind, EStateM.bind, get_eq, recomputedFingerprint, hfind]
    exact h
  | some row =>
    obtain ⟨hmem, hid⟩ := KeyedTable.find?_eq_some_iff.mp hfind
    simp only [refreshRow, Bind.bind, EStateM.bind, get_eq, recomputedFingerprint, hfind,
      updateRow_eq]
    refine h.updated fun other hother hotherId => ?_
    rw [KeyedTable.eq_of_key_eq hother hmem (hotherId.trans hid.symm), hpatch]

theorem preserves_refreshRowIfRead {drawerId : String} {patch f : Drawer → Drawer}
    {hf : ∀ d, (f d).id = d.id}
    (hpatch : ∀ (families : EstateFingerprintFamilies library) d,
      families.fingerprint (patch d) = families.fingerprint (f d)) :
    Preserves (PrintsHold library text uuid) (refreshRowIfRead library drawerId patch f hf) := by
  intro s h
  simp only [refreshRowIfRead, Bind.bind, EStateM.bind, get_eq, updateRow_eq]
  refine h.updated fun row hrow hid => ?_
  rw [recomputedFingerprint, ← hid, KeyedTable.find?_of_mem hrow]
  exact congrArg some (hpatch _ row)

/-- A new row comes with its fingerprint. -/
theorem preserves_insertRow {drawer : Drawer} :
    Preserves (PrintsHold library text uuid) (insertRow library drawer) := by
  intro s h
  cases hinsert : s.store.drawers.insert? drawer with
  | none =>
    simp only [insertRow, onStore, zoom, DrawerStore.insertDrawer, Bind.bind, EStateM.bind, get_eq,
      hinsert]
    exact h
  | some drawers =>
    obtain ⟨hfree, hrows⟩ := KeyedTable.insert?_eq_some_iff.mp hinsert
    simp only [insertRow, onStore, zoom, DrawerStore.insertDrawer, Bind.bind, EStateM.bind, get_eq,
      hinsert]
    refine ⟨h.sameText, h.sameUuid, fun row hrow => ?_⟩
    change row ∈ drawers.rows at hrow
    change Function.update s.contentFingerprint drawer.id _ row.id = _
    rw [hrows, List.mem_append, List.mem_singleton] at hrow
    obtain hrow | rfl := hrow
    · rw [Function.update_of_ne (hfree row hrow)]
      exact h.prints row hrow
    · rw [Function.update_self, families, h.sameUuid]

theorem preserves_deleteRow {drawerId : String} :
    Preserves (PrintsHold library text uuid) (deleteRow drawerId) := by
  intro s h
  refine ⟨h.sameText, h.sameUuid, fun row hrow => ?_⟩
  obtain ⟨hrow, hne⟩ := KeyedTable.mem_erase.mp hrow
  exact (Function.update_of_ne hne _ _).trans (h.prints row hrow)

theorem preserves_gatedColumnWrite {drawerId changedBy : String} {column : AuditColumn}
    {value : Bitmap} {reason : Option String} : Preserves (PrintsHold library text uuid)
      (gatedColumnWrite library substrate drawerId column value changedBy reason now) :=
  preserves_ofExcept.bind fun _ => preserves_readDrawer.bind fun _ => Preserves.get.bind fun _ =>
    preserves_admitWrite.bind fun _ => (preserves_refreshRow fun _ _ => rfl).bind fun _ =>
      preserves_appendAudit

theorem preserves_mutateColumn {drawerId changedBy : String} {column : AuditColumn}
    {value : Bitmap} {reason : Option String} : Preserves (PrintsHold library text uuid)
      (mutateColumn library substrate column drawerId value changedBy reason now) :=
  preserves_ofExcept.bind fun _ => preserves_ofExcept.bind fun _ => preserves_gatedColumnWrite

theorem preserves_mutateState {drawerId changedBy : String} {newState : State} {via : RowVerb}
    {reason : Option String} : Preserves (PrintsHold library text uuid)
      (mutateState library substrate drawerId newState via changedBy reason now) :=
  preserves_ofExcept.bind fun _ => preserves_ofExcept.bind fun _ => preserves_readDrawer.bind
    fun _ => preserves_ofExcept.bind fun _ => Preserves.get.bind fun _ =>
      preserves_admitWrite.bind fun _ => (preserves_refreshRow fun _ _ => rfl).bind fun _ =>
        preserves_appendAudit

theorem preserves_gatedCapture {drawer : Drawer} :
    Preserves (PrintsHold library text uuid) (gatedCapture library substrate drawer now) :=
  preserves_ofExcept.bind fun _ => Preserves.get.bind fun _ => preserves_admitWrite.bind fun _ =>
    preserves_insertRow.bind fun _ => preserves_appendAudit

theorem preserves_insertTunnelOrUndo {tunnel : Tunnel} {newDrawerId : String} :
    Preserves (PrintsHold library text uuid) (insertTunnelOrUndo tunnel newDrawerId) := by
  refine Preserves.get.bind fun s => ?_
  cases s.store.tunnels.insert? tunnel with
  | some tunnels => exact preserves_onStore fun _ => rfl
  | none => exact preserves_deleteRow.bind fun _ => .throw _

theorem preserves_addDrawerWithCascade {drawer : Drawer} {priorId : String} :
    Preserves (PrintsHold library text uuid)
      (addDrawerWithCascade library substrate drawer priorId) :=
  preserves_readDrawer.bind fun _ => Preserves.get.bind fun _ => preserves_gatedCapture.bind
    fun _ => preserves_insertTunnelOrUndo.bind fun _ => preserves_mutateState

theorem preserves_insertWithPredecessor {drawer : Drawer} :
    Preserves (PrintsHold library text uuid)
      (insertWithPredecessor library substrate drawer now) := by
  refine Preserves.get.bind fun s => ?_
  cases s.store.findActivePredecessor drawer.lineageId drawer.id with
  | some priorId => exact preserves_addDrawerWithCascade
  | none => exact preserves_gatedCapture

theorem preserves_addDrawer {drawer : Drawer} :
    Preserves (PrintsHold library text uuid) (addDrawer library substrate drawer now) :=
  preserves_ofExcept.bind fun _ => preserves_ofExcept.bind fun _ => preserves_ofExcept.bind
    fun _ => preserves_ofExcept.bind fun _ => preserves_insertWithPredecessor.bind fun _ =>
      preserves_onStore (keepsRows_orInContainer drawer)

theorem preserves_tombstoneSibling {headId siblingId : String} {sealAudit : Bool}
    {event : AuditEvent} : Preserves (PrintsHold library text uuid)
      (tombstoneSibling library headId siblingId now sealAudit event) :=
  (preserves_refreshRowIfRead fun _ _ => rfl).bind fun _ =>
    .ite preserves_appendAudit (.pure ())

theorem preserves_expungeLiveSibling {headId changedBy siblingId : String} {sealAudit : Bool}
    {headStamp : Hlc} {row : Drawer} : Preserves (PrintsHold library text uuid)
      (expungeLiveSibling library substrate headId changedBy now sealAudit headStamp row
        siblingId) := by
  refine preserves_ofExcept.bind fun rowUuid =>
    (preserves_onStore keepsRows_admitTombstone).bind fun answer => ?_
  cases answer with
  | ok event => exact preserves_tombstoneSibling.bind fun _ => preserves_recordErasure
  | error violation => exact preserves_recordErasure

/-- A sibling in any state comes out of the loop with its fingerprint. -/
theorem preserves_expungeSibling {headId changedBy siblingId : String} {sealAudit : Bool}
    {headStamp : Hlc} : Preserves (PrintsHold library text uuid)
      (expungeSibling library substrate headId changedBy now sealAudit headStamp siblingId) := by
  refine Preserves.get.bind fun s => ?_
  cases s.store.drawers.find? siblingId with
  | none => exact .pure ()
  | some row =>
    exact .ite ((preserves_refreshRowIfRead fun _ _ => rfl).bind fun _ => preserves_recordErasure)
      preserves_expungeLiveSibling

theorem preserves_expungeGated {drawerId changedBy : String} {reason : Option String}
    {sealAudit : Bool} : Preserves (PrintsHold library text uuid)
      (expungeGated library substrate drawerId changedBy reason now sealAudit) :=
  preserves_ofExcept.bind fun _ => preserves_ofExcept.bind fun _ => Preserves.get.bind fun _ =>
    preserves_readDrawer.bind fun _ => preserves_ofExcept.bind fun _ => Preserves.get.bind fun _ =>
      Preserves.get.bind fun _ => preserves_admitWrite.bind fun _ =>
        (preserves_refreshRow fun _ _ => rfl).bind fun _ => preserves_recordErasure.bind fun _ =>
          (Preserves.forM (fun _ => preserves_expungeSibling) _).bind fun _ =>
            .ite (preserves_appendAudit.bind fun _ => .pure _) (.pure _)

/-- A move patches all that it changes of what the fingerprint reads. -/
theorem fingerprint_patchLattice (families : EstateFingerprintFamilies library)
    (toLattice : Option LatticeAnchor) (toParent : Option String) (drawer : Drawer) :
    families.fingerprint (patchLattice toLattice drawer) =
      families.fingerprint (drawer.replace toLattice toParent) := by
  cases toLattice <;> cases toParent <;> rfl

theorem preserves_reanchorGated {drawerId changedBy : String} {toRoom toWing : Option String}
    {toLattice : Option LatticeAnchor} {reason : Option String} {minted : MintedIds} :
    Preserves (PrintsHold library text uuid) (reanchorGated library substrate drawerId toRoom
      toWing toLattice changedBy reason now minted) :=
  preserves_ofExcept.bind fun _ => preserves_ofExcept.bind fun _ => preserves_readDrawer.bind
    fun _ => preserves_ofExcept.bind fun _ => Preserves.get.bind fun _ =>
      preserves_admitWrite.bind fun _ => (preserves_onStore keepsRows_destinationRoom).bind
        fun toParent => .ite ((preserves_refreshRow fun families drawer =>
          fingerprint_patchLattice families toLattice toParent drawer).bind
            fun _ => preserves_appendAudit) preserves_appendAudit

/-- Opening the storage again takes the persisted identity. -/
theorem preserves_reopen {mintedUuidText : String} (hparse : substrate.parseUuid text = some uuid) :
    Preserves (PrintsHold library text uuid)
      (onStore (DrawerStore.reopen substrate mintedUuidText now)) := by
  intro s h
  simp only [onStore, zoom, DrawerStore.reopen, Bind.bind, EStateM.bind, get_eq, h.sameText,
    Option.getD_some, hparse]
  exact ⟨rfl, rfl, h.prints⟩

theorem preserves_run (hparse : substrate.parseUuid text = some uuid) (call : StoreCall) :
    Preserves (PrintsHold library text uuid) (run library substrate call) := by
  cases call with
  | addDrawer => exact preserves_addDrawer
  | mutateColumn => exact preserves_mutateColumn
  | mutateState => exact preserves_mutateState
  | expungeGated => exact preserves_expungeGated.bind fun _ => .pure ()
  | sealExpungeAudit => exact preserves_appendAudit
  | sealExpungeOrphanAudit =>
    exact preserves_onStore (keepsRows_sendStamp.bind fun _ => keepsRows_appendAudit _)
  | sealExpungeOrphanForSweep =>
    exact preserves_onStore ((keepsRows_ofExcept _).bind fun _ => (keepsRows_readDrawer _).bind
      fun _ => keepsRows_sendStamp.bind fun _ => keeps_get.bind fun _ => keepsRows_appendAudit _)
  | reanchorGated => exact preserves_reanchorGated
  | rebuildContainerFingerprints => exact preserves_onStore fun _ => rfl
  | reopen => exact preserves_reopen hparse
  | createNode =>
    exact preserves_onStore ((keepsRows_createNode _ _ _).bind fun _ => keeps_pure _)
  | createRoot => exact preserves_onStore ((keepsRows_createRoot _ _).bind fun _ => keeps_pure _)

end Steps

/-- The storage of an owner right after its first opening, which minted the estate's UUID. -/
def opened (substrate : Substrate) (owner mintedUuidText : String) (now : Int) : PrintedStore where
  store := stateAfter (DrawerStore.reopen substrate mintedUuidText now (DrawerStore.fresh owner))
  contentFingerprint _ := none

theorem printsHold_opened {library : FingerprintLibrary} {substrate : Substrate}
    {owner mintedUuidText : String} {uuid : Uuid} {now : Int}
    (hparse : substrate.parseUuid mintedUuidText = some uuid) :
    PrintsHold library mintedUuidText uuid (opened substrate owner mintedUuidText now) := by
  have hstore : (opened substrate owner mintedUuidText now).store =
      (DrawerStore.fresh owner).withOpening substrate mintedUuidText uuid now := by
    simp only [opened, DrawerStore.reopen, Bind.bind, EStateM.bind, get_eq, DrawerStore.fresh,
      Option.getD_none, hparse]
    rfl
  refine ⟨?_, ?_, ?_⟩ <;> rw [hstore]
  · rfl
  · rfl
  · exact fun row hrow => absurd hrow List.not_mem_nil

theorem PrintsHold.foldl {library : FingerprintLibrary} {substrate : Substrate} {text : String}
    {uuid : Uuid} {s : PrintedStore} (hparse : substrate.parseUuid text = some uuid)
    (h : PrintsHold library text uuid s) (calls : List StoreCall) :
    PrintsHold library text uuid (calls.foldl (step library substrate) s) := by
  induction calls generalizing s with
  | nil => exact h
  | cons call calls ih =>
    refine ih ?_
    have hrun := @preserves_run library substrate text uuid hparse call s h
    rw [step]
    cases hresult : run library substrate call s <;> rw [hresult] at hrun <;> exact hrun

/-- After any calls on an estate that was opened, reopenings among them, the fingerprint column of
every row is the fingerprint of the row. -/
theorem contentFingerprint_eq_fingerprint (library : FingerprintLibrary) {substrate : Substrate}
    (owner : String) {mintedUuidText : String} {uuid : Uuid} (now : Int)
    (hparse : substrate.parseUuid mintedUuidText = some uuid) (calls : List StoreCall) :
    ∀ row ∈ (calls.foldl (step library substrate)
        (opened substrate owner mintedUuidText now)).store.drawers.rows,
      (calls.foldl (step library substrate)
        (opened substrate owner mintedUuidText now)).contentFingerprint row.id =
          some ((EstateFingerprintFamilies.new library (Uuid.text uuid)).fingerprint row) :=
  ((printsHold_opened hparse).foldl hparse calls).prints

/-- A library that packs what it is given. -/
def referenceFingerprintLibrary : FingerprintLibrary where
  Family := BitVec 8
  hash64 text := BitVec.ofNat 64 (packText text)
  hash16 text := BitVec.ofNat 16 (packText text)
  expandSeed64 seed := [seed.setWidth 8]
  blockFamilies seed := seed
  ancestors _ := []
  simhash bitmaps lattice lineage channel families :=
    bitmaps.adjective ++ bitmaps.operational ++ bitmaps.provenance ++ lattice.udcPrefixHash ++
      lattice.qidHash ++ lineage.lineageHash ++ channel.estateHash ++ families.headD 0

/-- A drawer, a successor, an edit and the expunge of both. -/
def erasingCalls : List StoreCall :=
  [.addDrawer (referenceDrawer "1" 1 6) 6, .addDrawer (referenceDrawer "2" 1 7) 7,
    .mutateColumn .operational (referenceUuidText "2") 0x41 "alice" none 8,
    .reopen (referenceUuidText "c") 9, .expungeGated (referenceUuidText "2") "alice" none 10 true]

theorem contentFingerprint_eq_fingerprint_erasing :
    ((erasingCalls.foldl (step referenceFingerprintLibrary referenceSubstrate)
      (opened referenceSubstrate "alice" (referenceUuidText "a") 5)).store.drawers.rows.length = 2) ∧
    ∀ row ∈ (erasingCalls.foldl (step referenceFingerprintLibrary referenceSubstrate)
        (opened referenceSubstrate "alice" (referenceUuidText "a") 5)).store.drawers.rows,
      (erasingCalls.foldl (step referenceFingerprintLibrary referenceSubstrate)
        (opened referenceSubstrate "alice" (referenceUuidText "a") 5)).contentFingerprint row.id =
          some ((EstateFingerprintFamilies.new referenceFingerprintLibrary (Uuid.text 10)).fingerprint
            row) :=
  ⟨by decide +kernel, contentFingerprint_eq_fingerprint referenceFingerprintLibrary "alice" 5
    (by decide +kernel) erasingCalls⟩

end PrintedStore

end MootMemory
