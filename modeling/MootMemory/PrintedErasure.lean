import MootMemory.StoredFingerprints

namespace MootMemory

namespace PrintedStore

/-- Without the fingerprint column the action does what the other does. -/
abbrev Erases {α : Type} (s : PrintedStore) (x : PrintM α) (y : StoreM α) : Prop :=
  SimulatesAt PrintedStore.store s x y

section Writes

variable {library : FingerprintLibrary} {substrate : Substrate} {s : PrintedStore} {now : Int}
  {α : Type}

theorem store_putStore (s : PrintedStore) (store : DrawerStore) :
    (s.putStore store).store = store := rfl

theorem erases_onStore (x : StoreM α) : s.Erases (onStore x) x := simulatesAt_zoom store_putStore x

theorem onStore_eq_ok {x : StoreM α} {a : α} {s' : PrintedStore} (h : onStore x s = .ok a s') :
    x s.store = .ok a s'.store := zoom_eq_ok store_putStore h

/-- A row that was read is still there after an access that keeps the rows. -/
theorem find?_of_keepsRows {x : StoreM α} {a : α} {s' : PrintedStore} {drawerId : String}
    {row : Drawer} (hx : KeepsRows x) (h : onStore x s = .ok a s')
    (hfind : s.store.drawers.find? drawerId = some row) :
    s'.store.drawers.find? drawerId = some row := by
  have hkept := hx.of_ok (onStore_eq_ok h)
  rw [(Prod.mk.inj hkept).1]
  exact hfind

theorem find?_of_readDrawer {drawerId : String} {row : Drawer} {s' : PrintedStore}
    (h : onStore (DrawerStore.readDrawer drawerId) s = .ok row s') :
    s'.store.drawers.find? drawerId = some row := by
  have hread := onStore_eq_ok h
  cases hfind : s.store.drawers.find? drawerId with
  | none =>
    simp only [DrawerStore.readDrawer, Bind.bind, EStateM.bind, get_eq, hfind] at hread
    cases hread
  | some found =>
    simp only [DrawerStore.readDrawer, Bind.bind, EStateM.bind, get_eq, hfind] at hread
    obtain ⟨rfl, -⟩ := EStateM.Result.ok.inj hread
    exact find?_of_keepsRows (keepsRows_readDrawer drawerId) h hfind

theorem erases_updateRow {drawerId : String} {f : Drawer → Drawer} {hf : ∀ d, (f d).id = d.id}
    {print : Option Fingerprint256} :
    s.Erases (updateRow drawerId f hf print) (DrawerStore.updateDrawer drawerId f hf) := by
  rw [Erases, SimulatesAt, updateRow_eq]
  rfl

theorem erases_refreshRow {drawerId : String} {patch f : Drawer → Drawer}
    {hf : ∀ d, (f d).id = d.id} {row : Drawer}
    (hfind : s.store.drawers.find? drawerId = some row) :
    s.Erases (refreshRow library drawerId patch f hf) (DrawerStore.updateDrawer drawerId f hf) := by
  have hrun : refreshRow library drawerId patch f hf s =
      updateRow drawerId f hf (some ((s.families library).fingerprint (patch row))) s := by
    simp only [refreshRow, Bind.bind, EStateM.bind, get_eq, recomputedFingerprint, hfind]
  rw [Erases, SimulatesAt, hrun]
  exact erases_updateRow

theorem erases_refreshRowIfRead {drawerId : String} {patch f : Drawer → Drawer}
    {hf : ∀ d, (f d).id = d.id} :
    s.Erases (refreshRowIfRead library drawerId patch f hf)
      (DrawerStore.updateDrawer drawerId f hf) := by
  have hrun : refreshRowIfRead library drawerId patch f hf s = updateRow drawerId f hf
      (s.recomputedFingerprint library drawerId patch).toOption s := by
    simp only [refreshRowIfRead, Bind.bind, EStateM.bind, get_eq]
  rw [Erases, SimulatesAt, hrun]
  exact erases_updateRow

theorem erases_insertRow {drawer : Drawer} :
    s.Erases (insertRow library drawer) (DrawerStore.insertDrawer drawer) := by
  cases hinsert : s.store.drawers.insert? drawer <;>
  · simp only [Erases, SimulatesAt, insertRow, onStore, zoom, DrawerStore.insertDrawer, Bind.bind,
      EStateM.bind, get_eq, hinsert]
    rfl

theorem erases_deleteRow {drawerId : String} :
    s.Erases (deleteRow drawerId) (DrawerStore.deleteDrawer drawerId) := rfl

theorem erases_gatedColumnWrite {drawerId changedBy : String} {column : AuditColumn}
    {value : Bitmap} {reason : Option String} :
    s.Erases (gatedColumnWrite library substrate drawerId column value changedBy reason now)
      (DrawerStore.gatedColumnWrite substrate drawerId column value changedBy reason now) := by
  refine (erases_onStore _).bind fun rowUuid s₁ _ => (erases_onStore _).bind fun row s₂ hread => ?_
  refine simulatesAt_get_bind ((erases_onStore _).bind fun event s₃ hadm => ?_)
  have hfind := find?_of_keepsRows keepsRows_admitWrite hadm (find?_of_readDrawer hread)
  exact (erases_refreshRow hfind).bind fun _ _ _ => erases_onStore _

theorem erases_mutateColumn {drawerId changedBy : String} {column : AuditColumn}
    {value : Bitmap} {reason : Option String} :
    s.Erases (mutateColumn library substrate column drawerId value changedBy reason now)
      (DrawerStore.mutateColumn substrate column drawerId value changedBy reason now) :=
  (erases_onStore _).bind fun _ _ _ => (erases_onStore _).bind fun _ _ _ =>
    erases_gatedColumnWrite

theorem erases_mutateState {drawerId changedBy : String} {newState : State} {via : RowVerb}
    {reason : Option String} :
    s.Erases (mutateState library substrate drawerId newState via changedBy reason now)
      (DrawerStore.mutateState substrate drawerId newState via changedBy reason now) := by
  refine (erases_onStore _).bind fun _ _ _ => (erases_onStore _).bind fun _ _ _ =>
    (erases_onStore _).bind fun row s₁ hread => (erases_onStore _).bind fun rowUuid s₂ huuid => ?_
  refine simulatesAt_get_bind ((erases_onStore _).bind fun event s₃ hadm => ?_)
  have hfind := find?_of_keepsRows keepsRows_admitWrite hadm
    (find?_of_keepsRows (keepsRows_ofExcept _) huuid (find?_of_readDrawer hread))
  exact (erases_refreshRow hfind).bind fun _ _ _ => erases_onStore _

theorem erases_gatedCapture {drawer : Drawer} :
    s.Erases (gatedCapture library substrate drawer now)
      (DrawerStore.gatedCapture substrate drawer now) :=
  (erases_onStore _).bind fun _ _ _ => simulatesAt_get_bind <| (erases_onStore _).bind
    fun _ _ _ => erases_insertRow.bind fun _ _ _ => erases_onStore _

theorem erases_insertTunnelOrUndo {tunnel : Tunnel} {newDrawerId : String} :
    s.Erases (insertTunnelOrUndo tunnel newDrawerId)
      (DrawerStore.insertTunnelOrUndo tunnel newDrawerId) := by
  refine simulatesAt_get_bind ?_
  cases s.store.tunnels.insert? tunnel with
  | some tunnels => exact erases_onStore _
  | none => exact erases_deleteRow.bind fun _ _ _ => rfl

theorem erases_addDrawerWithCascade {drawer : Drawer} {priorId : String} :
    s.Erases (addDrawerWithCascade library substrate drawer priorId)
      (DrawerStore.addDrawerWithCascade substrate drawer priorId) :=
  (erases_onStore _).bind fun _ _ _ => simulatesAt_get_bind <| erases_gatedCapture.bind
    fun _ _ _ => erases_insertTunnelOrUndo.bind fun _ _ _ => erases_mutateState

theorem erases_insertWithPredecessor {drawer : Drawer} :
    s.Erases (insertWithPredecessor library substrate drawer now)
      (DrawerStore.insertWithPredecessor substrate drawer now) := by
  refine simulatesAt_get_bind ?_
  cases s.store.findActivePredecessor drawer.lineageId drawer.id with
  | some priorId => exact erases_addDrawerWithCascade
  | none => exact erases_gatedCapture

theorem erases_addDrawer {drawer : Drawer} :
    s.Erases (addDrawer library substrate drawer now)
      (DrawerStore.addDrawer substrate drawer now) :=
  (erases_onStore _).bind fun _ _ _ => (erases_onStore _).bind fun _ _ _ =>
    (erases_onStore _).bind fun _ _ _ => (erases_onStore _).bind fun _ _ _ =>
      erases_insertWithPredecessor.bind fun _ _ _ => erases_onStore _

theorem erases_tombstoneSibling {headId siblingId : String} {sealAudit : Bool}
    {event : AuditEvent} :
    s.Erases (tombstoneSibling library headId siblingId now sealAudit event)
      (DrawerStore.tombstoneSibling headId siblingId now sealAudit event) :=
  erases_refreshRowIfRead.bind fun _ _ _ => .ite (erases_onStore _) (simulatesAt_pure ())

theorem erases_expungeLiveSibling {headId changedBy siblingId : String} {sealAudit : Bool}
    {headStamp : Hlc} {row : Drawer} :
    s.Erases
      (expungeLiveSibling library substrate headId changedBy now sealAudit headStamp row siblingId)
      (DrawerStore.expungeLiveSibling substrate headId changedBy now sealAudit headStamp row
        siblingId) := by
  refine (erases_onStore _).bind fun rowUuid _ _ => (erases_onStore _).bind fun answer _ _ => ?_
  cases answer with
  | ok event => exact erases_tombstoneSibling.bind fun _ _ _ => erases_onStore _
  | error violation => exact erases_onStore _

theorem erases_expungeSibling {headId changedBy siblingId : String} {sealAudit : Bool}
    {headStamp : Hlc} :
    s.Erases (expungeSibling library substrate headId changedBy now sealAudit headStamp siblingId)
      (DrawerStore.expungeSibling substrate headId changedBy now sealAudit headStamp
        siblingId) := by
  refine simulatesAt_get_bind ?_
  cases s.store.drawers.find? siblingId with
  | none => exact simulatesAt_pure ()
  | some row =>
    exact .ite (erases_refreshRowIfRead.bind fun _ _ _ => erases_onStore _)
      erases_expungeLiveSibling

theorem erases_expungeGated {drawerId changedBy : String} {reason : Option String}
    {sealAudit : Bool} :
    s.Erases (expungeGated library substrate drawerId changedBy reason now sealAudit)
      (DrawerStore.expungeGated substrate drawerId changedBy reason now sealAudit) := by
  refine (erases_onStore _).bind fun _ s₀ _ => (erases_onStore _).bind fun _ s₁ _ =>
    simulatesAt_get_bind <| (erases_onStore _).bind fun row s₂ hread =>
      (erases_onStore _).bind fun rowUuid s₃ huuid => ?_
  refine simulatesAt_get_bind <| simulatesAt_get_bind <| (erases_onStore _).bind
    fun event s₄ hadm => ?_
  have hfind := find?_of_keepsRows keepsRows_admitWrite hadm
    (find?_of_keepsRows (keepsRows_ofExcept _) huuid (find?_of_readDrawer hread))
  refine (erases_refreshRow hfind).bind fun _ _ _ => (erases_onStore _).bind fun _ s₅ _ =>
    (simulatesAt_forM (fun _ _ => erases_expungeSibling) _ _).bind fun _ _ _ => ?_
  exact .ite ((erases_onStore _).bind fun _ _ _ => simulatesAt_pure _) (simulatesAt_pure _)

/-- A move to nowhere writes what is there. -/
theorem updateDrawer_replace_none (drawerId : String) (store : DrawerStore) :
    DrawerStore.updateDrawer drawerId (·.replace none none) (Drawer.replace_id none none) store =
      .ok () store := by
  have hrows : (store.drawers.rows.map fun d =>
      if d.id = drawerId then d.replace none none else d) = store.drawers.rows :=
    (List.map_congr_left fun d _ => ite_self d).trans (List.map_id _)
  have htable : store.drawers.update drawerId (·.replace none none) (Drawer.replace_id none none) =
      store.drawers := KeyedTable.eq_of_rows_eq hrows
  exact congrArg (fun drawers => EStateM.Result.ok () { store with drawers := drawers }) htable

theorem erases_reanchorGated {drawerId changedBy : String} {toRoom toWing : Option String}
    {toLattice : Option LatticeAnchor} {reason : Option String} {minted : MintedIds} :
    s.Erases (reanchorGated library substrate drawerId toRoom toWing toLattice changedBy reason now
        minted)
      (DrawerStore.reanchorGated substrate drawerId toRoom toWing toLattice changedBy reason now
        minted) := by
  refine (erases_onStore _).bind fun _ _ _ => (erases_onStore _).bind fun _ _ _ =>
    (erases_onStore _).bind fun row s₁ hread => (erases_onStore _).bind fun rowUuid s₂ huuid => ?_
  refine simulatesAt_get_bind <| (erases_onStore _).bind fun event s₃ hadm =>
    (erases_onStore _).bind fun toParent s₄ hdest => ?_
  have hfind := find?_of_keepsRows keepsRows_destinationRoom hdest
    (find?_of_keepsRows keepsRows_admitWrite hadm
      (find?_of_keepsRows (keepsRows_ofExcept _) huuid (find?_of_readDrawer hread)))
  by_cases hwrites : toLattice.isSome ∨ toParent.isSome
  · simp only [if_pos hwrites]
    exact (erases_refreshRow hfind).bind fun _ _ _ => erases_onStore _
  · obtain ⟨hlattice, hparent⟩ := not_or.mp hwrites
    rw [Bool.not_eq_true, Option.isSome_eq_false_iff, Option.isNone_iff_eq_none] at hlattice hparent
    subst hlattice hparent
    simp only [if_neg hwrites]
    simp only [SimulatesAt, Bind.bind, EStateM.bind, updateDrawer_replace_none]
    exact erases_onStore _

/-- Every call does to the store what it does without the fingerprint column. -/
theorem erases_run (call : StoreCall) :
    s.Erases (run library substrate call) (call.run substrate) := by
  cases call with
  | addDrawer => exact erases_addDrawer
  | mutateColumn => exact erases_mutateColumn
  | mutateState => exact erases_mutateState
  | expungeGated => exact erases_expungeGated.bind fun _ _ _ => simulatesAt_pure ()
  | reanchorGated => exact erases_reanchorGated
  | _ => exact erases_onStore _

end Writes

section Runs

variable (library : FingerprintLibrary) (substrate : Substrate)

theorem store_step (s : PrintedStore) (call : StoreCall) :
    (s.step library substrate call).store = s.store.step substrate call := by
  have herases : viewResult PrintedStore.store (run library substrate call s) =
      call.run substrate s.store := erases_run call
  rw [step, DrawerStore.step, ← herases]
  cases run library substrate call s <;> rfl

/-- The fingerprints of the drawers stand beside the runs of the store and change none of them. -/
theorem store_foldl (calls : List StoreCall) (s : PrintedStore) :
    (calls.foldl (step library substrate) s).store =
      calls.foldl (DrawerStore.step substrate) s.store := by
  induction calls generalizing s with
  | nil => rfl
  | cons call calls ih =>
    rw [List.foldl_cons, ih, store_step]
    rfl

end Runs

end PrintedStore

end MootMemory
