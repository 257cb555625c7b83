import MootMemory.ProjectionSteps

namespace MootMemory

/-- The calls that seal what they write, and those that write no drawer. -/
def StoreCall.SealsAtOnce : StoreCall → Prop
  | .expungeGated _ _ _ _ sealAudit => sealAudit = true
  | .sealExpungeAudit _ | .sealExpungeOrphanAudit _ _ _ | .sealExpungeOrphanForSweep _ _ _ => False
  | _ => True

namespace DrawerStore

/-- The last event about each row has its bitmaps. -/
def LastEventTells (substrate : Substrate) (s : DrawerStore) : Prop :=
  ∀ row ∈ s.drawers.rows, ∃ rowUuid last, substrate.parseUuid row.id = some rowUuid ∧
    (eventsOf s.auditLog rowUuid).getLast? = some last ∧ row.bitmaps = last.afterBitmaps

/-- Each event about a row starts where the one before it ended. -/
def EventsChained (substrate : Substrate) (s : DrawerStore) : Prop :=
  ∀ row ∈ s.drawers.rows, ∀ rowUuid, substrate.parseUuid row.id = some rowUuid →
    (eventsOf s.auditLog rowUuid).IsChain AuditEvent.Follows

/-- A capture declares all bits and names a new UUID, and no write goes to a row whose capture
sealed a Q-ID and that was not written since. -/
def ProjectionGuarded (substrate : Substrate) (s : DrawerStore) : StoreCall → Prop
  | .addDrawer drawer _ => Declared substrate drawer.bitmaps ∧
      (∀ row ∈ s.drawers.rows, substrate.parseUuid row.id ≠ substrate.parseUuid drawer.id) ∧
      ∀ row ∈ s.drawers.rows, s.findActivePredecessor drawer.lineageId drawer.id = some row.id →
        QidSettled substrate s.auditLog row
  | .mutateColumn _ drawerId _ _ _ _ | .mutateState drawerId _ _ _ _ _
  | .reanchorGated drawerId _ _ _ _ _ _ _ => ∀ row ∈ s.drawers.rows, row.id = drawerId →
      QidSettled substrate s.auditLog row
  | .expungeGated drawerId changedBy _ _ _ => ∀ row ∈ s.drawers.rows,
      row.id ∈ s.lineageChain drawerId → QidSettled substrate s.auditLog row ∨
        row.id ≠ drawerId ∧ KeptBack substrate s changedBy row
  | _ => True

theorem projected_step {substrate : Substrate} {s s' : DrawerStore} {call : StoreCall}
    (hgate : LawfulGate substrate)
    (hrun : call.run substrate s = .ok () s') (h : Projected substrate s.drawers s.auditLog)
    (hbasis : AdjectiveBasis substrate) (hseals : call.SealsAtOnce)
    (hcall : ProjectionGuarded substrate s call) : Projected substrate s'.drawers s'.auditLog := by
  cases call with
  | addDrawer drawer now =>
    have hadd := addDrawer_outcome hrun
    cases hadd with
    | added hinsert => exact hinsert.projected hgate h hcall.1 hcall.2.1 hcall.2.2
  | mutateColumn column =>
    obtain hr | ⟨row, event, hid, hadm, hr⟩ := mutateColumn_cases hrun
    · exact hr.not_ok.elim
    · cases hr
      subst hid
      refine hadm.projectedColumn hgate h
        (hcall row (KeyedTable.find?_eq_some_iff.mp hadm.found).1 rfl) _ ?_
        (·.setColumn column (event.afterBitmaps.get column)) (fun _ => rfl) _ rfl rfl
      intro w hw
      obtain ⟨slot, hslot, rfl⟩ := List.mem_map.mp hw
      exact editableSlots_column hbasis hslot
  | mutateState =>
    obtain hr | ⟨row, event, hid, hadm, hr⟩ := mutateState_cases hrun
    · exact hr.not_ok.elim
    · cases hr
      subst hid
      exact hadm.projectedColumn hgate h
        (hcall row (KeyedTable.find?_eq_some_iff.mp hadm.found).1 rfl) .adjective
        (fun w hw => by rw [List.mem_singleton.mp hw]; rfl)
        (·.setAdjective event.afterBitmaps.adjective) (fun _ => rfl) _ rfl rfl
  | expungeGated drawerId changedBy reason now sealAudit =>
    cases hseals
    obtain ⟨event, hrun⟩ := dropAnswer_eq_ok hrun
    exact (expungeGated_outcome hrun).projected hgate h hcall
  | sealExpungeAudit => exact hseals.elim
  | sealExpungeOrphanAudit => exact hseals.elim
  | sealExpungeOrphanForSweep => exact hseals.elim
  | reanchorGated => exact (reanchorGated_outcome hrun).projected hgate h hcall
  | rebuildContainerFingerprints => cases hrun; exact h
  | reopen =>
    obtain ⟨e, hr⟩ | ⟨uuid, -, hr⟩ := reopen_cases hrun <;> cases hr
    exact h
  | createNode =>
    obtain ⟨node, hrun⟩ := dropAnswer_eq_ok hrun
    obtain ⟨e, hr⟩ | ⟨_, nodes, -, hr⟩ := createNode_cases hrun <;> cases hr
    exact h
  | createRoot =>
    obtain ⟨node, hrun⟩ := dropAnswer_eq_ok hrun
    obtain ⟨e, hr⟩ | ⟨_, nodes, -, hr⟩ := createRoot_cases hrun <;> cases hr
    exact h

theorem projected_fresh {substrate : Substrate} (owner : String) :
    Projected substrate (fresh owner).drawers (fresh owner).auditLog :=
  ⟨fun _ hrow => (nomatch hrow), fun _ => List.isChain_nil, fun _ ha => (nomatch ha),
    fun _ hsome => absurd rfl hsome⟩

/-- In a run of calls that succeed and seal at once, the log determines the rows as long as captures
declare all their bits under new UUIDs and no Q-ID that a capture sealed is written over. -/
theorem auditLog_determines_drawers {substrate : Substrate} (hgate : LawfulGate substrate)
    (hbasis : AdjectiveBasis substrate) {owner : String} {s : DrawerStore}
    (hrun : GuardedRun (step substrate)
      (fun s call => Succeeds substrate s call ∧ call.SealsAtOnce ∧ ProjectionGuarded substrate s call)
      (fresh owner) s) : LastEventTells substrate s ∧ EventsChained substrate s := by
  have hprojected := hrun.invariant (P := fun s => Projected substrate s.drawers s.auditLog)
    (projected_fresh owner) fun s call h hcall => by
      obtain ⟨⟨s', hok⟩, hseals, hguard⟩ := hcall
      rw [step, hok]
      exact projected_step hgate hok h hbasis hseals hguard
  refine ⟨fun row hrow => ?_, fun _ _ rowUuid _ => hprojected.chained rowUuid⟩
  obtain ⟨rowUuid, last, hparse, hlast⟩ := hprojected.stored row hrow
  exact ⟨rowUuid, last, hparse, hlast.sealed, hlast.bitmaps⟩

theorem declared_zero (substrate : Substrate) : Declared substrate ⟨0, 0, 0⟩ := by
  intro column i hbit
  cases column <;> simp [BitmapFields.get] at hbit

/-- A plain capture, and a change of the operational column of its row. -/
def plainCapture : StoreCall := .addDrawer (referenceDrawer "1" 1 5) 5

def plainEdit : StoreCall := .mutateColumn .operational (referenceUuidText "1") 1 "alice" none 6

theorem auditLog_determines_drawers_plainEdit :
    LastEventTells referenceSubstrate
      (((fresh "alice").step referenceSubstrate plainCapture).step referenceSubstrate plainEdit) ∧
    EventsChained referenceSubstrate
      (((fresh "alice").step referenceSubstrate plainCapture).step referenceSubstrate plainEdit) := by
  have hcapture : Succeeds referenceSubstrate (fresh "alice") plainCapture := by decide +kernel
  have hedit : Succeeds referenceSubstrate ((fresh "alice").step referenceSubstrate plainCapture)
      plainEdit := by decide +kernel
  have hplain : ∀ row ∈ ((fresh "alice").step referenceSubstrate plainCapture).drawers.rows,
      row.Unpointed referenceSubstrate := by decide +kernel
  refine @auditLog_determines_drawers _ lawfulGate_referenceSubstrate
    adjectiveBasis_referenceSubstrate "alice" _ (.next _ (.next _ .start ?_) ?_)
  · exact ⟨hcapture, trivial, declared_zero _, fun _ hrow => (nomatch hrow),
      fun _ hrow => (nomatch hrow)⟩
  · exact ⟨hedit, trivial, fun row hrow _ => Or.inr (hplain row hrow)⟩

/-- A capture with a bit that no field declares. -/
def undeclaredCapture : StoreCall :=
  .addDrawer { referenceDrawer "1" 1 5 with bitmaps := ⟨0, 0x40000000, 0⟩ } 5

/-- A capture with a Q-ID, and a state transition of its row. -/
def pointedCapture : StoreCall :=
  .addDrawer { referenceDrawer "1" 1 5 with wikidataQid := some "Q42" } 5

def contestation : StoreCall :=
  .mutateState (referenceUuidText "1") .contested .contest "alice" none 6

theorem not_auditLog_determines_drawers :
    (¬∀ (substrate : Substrate) (owner : String) (s : DrawerStore), LawfulGate substrate →
      AdjectiveBasis substrate → GuardedRun (step substrate)
        (fun s call => Succeeds substrate s call ∧ call.SealsAtOnce) (fresh owner) s →
      LastEventTells substrate s) ∧
    ¬∀ (substrate : Substrate) (owner : String) (s : DrawerStore), LawfulGate substrate →
      AdjectiveBasis substrate → GuardedRun (step substrate)
        (fun s call => Succeeds substrate s call ∧ call.SealsAtOnce) (fresh owner) s →
      EventsChained substrate s := by
  constructor
  · intro h
    have hcapture : Succeeds referenceSubstrate (fresh "alice") undeclaredCapture := by
      decide +kernel
    have htells := h referenceSubstrate "alice" _ lawfulGate_referenceSubstrate
      adjectiveBasis_referenceSubstrate (.next _ .start ⟨hcapture, trivial⟩)
    obtain ⟨row, hrow, hne⟩ : ∃ row ∈ ((fresh "alice").step referenceSubstrate
        undeclaredCapture).drawers.rows, ∀ e ∈ ((fresh "alice").step referenceSubstrate
          undeclaredCapture).auditLog, row.bitmaps ≠ e.afterBitmaps := by decide +kernel
    obtain ⟨rowUuid, last, -, hlast, hbitmaps⟩ := htells row hrow
    exact hne last (List.mem_filter.mp (List.mem_of_getLast? hlast)).1 hbitmaps
  · intro h
    have hcapture : Succeeds referenceSubstrate (fresh "alice") pointedCapture := by decide +kernel
    have hcontest : Succeeds referenceSubstrate ((fresh "alice").step referenceSubstrate
        pointedCapture) contestation := by decide +kernel
    have hchained := h referenceSubstrate "alice" _ lawfulGate_referenceSubstrate
      adjectiveBasis_referenceSubstrate
      (.next _ (.next _ .start ⟨hcapture, trivial⟩) ⟨hcontest, trivial⟩)
    obtain ⟨row, hrow, hparse⟩ : ∃ row ∈ (((fresh "alice").step referenceSubstrate
        pointedCapture).step referenceSubstrate contestation).drawers.rows,
        referenceSubstrate.parseUuid row.id = some 1 := by decide +kernel
    exact absurd (hchained row hrow 1 hparse) (by decide +kernel)

end DrawerStore

end MootMemory
