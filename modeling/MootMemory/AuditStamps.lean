import MootMemory.GateLaws
import MootMemory.StoreCalls

namespace MootMemory

namespace DrawerStore

/-- The sealed stamps grow in the order of sealing, and the clock has reached the last one. -/
structure StampsInOrder (s : DrawerStore) : Prop where
  ordered : s.auditLog.Pairwise fun a b => a.hlc < b.hlc
  bounded : ∀ e ∈ s.auditLog, e.hlc ≤ s.clock.stamp

/-- The gate keeps the row back whatever the stamp, or there is nothing left to tombstone. -/
def KeptBack (substrate : Substrate) (s : DrawerStore) (changedBy : String) (row : Drawer) : Prop :=
  row.stateRaw = State.tombstoned.rawValue ∨ ∀ rowUuid stamp event,
    substrate.gateAdmit (rowRequest substrate s rowUuid row .tombstone
      (expungeWrites row.bitmaps.adjective) (substrate.udcAnchor row.udcCode) changedBy stamp) ≠
        .ok event

/-- No other member of the row's lineage is sealed along with it. -/
def SealsAlone (substrate : Substrate) (s : DrawerStore) (drawerId changedBy : String) : Prop :=
  ∀ head, s.drawers.find? drawerId = some head → ∀ row ∈ s.drawers.rows,
    row.lineageId = head.lineageId → row.id ≠ drawerId → KeptBack substrate s changedBy row

/-- An opening comes after every sealed stamp, a self-sealing expunge seals one event, and a stamp
that is sealed later is still the greatest. -/
def StampsGuarded (substrate : Substrate) (s : DrawerStore) : StoreCall → Prop
  | .reopen mintedUuidText now => ∀ e ∈ s.auditLog,
      e.hlc ≤ (makeClock substrate (s.estateUuidText.getD mintedUuidText) now).stamp
  | .expungeGated drawerId changedBy _ _ true => SealsAlone substrate s drawerId changedBy
  | .sealExpungeAudit event => (∀ e ∈ s.auditLog, e.hlc < event.hlc) ∧ event.hlc ≤ s.clock.stamp
  | _ => True

section Steps

variable {substrate : Substrate} {s s' : DrawerStore} {now : Int}

theorem StampsInOrder.keep (h : StampsInOrder s) (hlog : s'.auditLog = s.auditLog)
    (hclock : s.clock.stamp ≤ s'.clock.stamp) : StampsInOrder s' := by
  refine ⟨by rw [hlog]; exact h.ordered, fun e he => ?_⟩
  rw [hlog] at he
  exact (h.bounded e he).trans hclock

theorem StampsInOrder.append (h : StampsInOrder s) {event : AuditEvent}
    (hlog : s'.auditLog = s.auditLog ++ [event]) (hlt : ∀ e ∈ s.auditLog, e.hlc < event.hlc)
    (hle : event.hlc ≤ s'.clock.stamp) : StampsInOrder s' := by
  refine ⟨?_, fun e he => ?_⟩
  · rw [hlog, List.pairwise_append]
    exact ⟨h.ordered, List.pairwise_singleton _ _, fun a ha b hb =>
      List.mem_singleton.mp hb ▸ hlt a ha⟩
  · rw [hlog, List.mem_append, List.mem_singleton] at he
    rcases he with he | rfl
    · exact ((hlt e he).trans_le hle).le
    · exact hle

variable (hsend : LawfulSend substrate)

include hsend

theorem stamp_lt_nextStamp : s.clock.stamp < s.nextStamp substrate now := by
  rw [nextStamp, hsend]
  exact lt_referenceSend _ _

theorem ticked_stamp : (s.ticked substrate now).clock.stamp = s.nextStamp substrate now := by
  rw [ticked_clock, nextStamp, hsend]
  rfl

theorem StampsInOrder.ticked (h : StampsInOrder s) : StampsInOrder (s.ticked substrate now) :=
  h.keep rfl (by rw [ticked_stamp hsend]; exact (stamp_lt_nextStamp hsend).le)

/-- The event of the next stamp is appended. -/
theorem StampsInOrder.appendNext (h : StampsInOrder s) {event : AuditEvent}
    (hlog : s'.auditLog = s.auditLog ++ [event]) (hstamp : event.hlc = s.nextStamp substrate now)
    (hclock : s.nextStamp substrate now ≤ s'.clock.stamp) : StampsInOrder s' := by
  refine h.append hlog (fun e he => ?_) (hstamp ▸ hclock)
  rw [hstamp]
  exact (h.bounded e he).trans_lt (stamp_lt_nextStamp hsend)

theorem StampsInOrder.refused {α : Type} {r : EStateM.Result LocusKitError DrawerStore α}
    (h : StampsInOrder s) (hr : Refused substrate s now r) : StampsInOrder (stateAfter r) := by
  rcases hr.stateAfter with he | he <;> rw [he]
  · exact h
  · exact h.ticked hsend

variable (hgate : LawfulGate substrate)

omit hsend in
include hgate in
theorem Admitted.hlc {row : Drawer} {verb : RowVerb} {writes : List FieldWrite}
    {anchor : AuditAnchor} {changedBy : String} {event : AuditEvent}
    (h : Admitted substrate s now row verb writes anchor changedBy event) :
    event.hlc = s.nextStamp substrate now := by
  obtain ⟨rowUuid, -, hadm⟩ := h.gate
  exact hgate.hlc hadm

omit hsend in
include hgate in
theorem Captured.hlc {drawer : Drawer} {drawers : KeyedTable Drawer.id} {event : AuditEvent}
    (h : Captured substrate s now drawer drawers event) :
    event.hlc = s.nextStamp substrate now := by
  obtain ⟨rowUuid, -, hadm⟩ := h.gate
  exact hgate.hlc hadm

include hgate

theorem StampsInOrder.withCapture {drawer : Drawer} {drawers : KeyedTable Drawer.id}
    {event : AuditEvent} (h : StampsInOrder s)
    (hcaptured : Captured substrate s now drawer drawers event) :
    StampsInOrder (s.withCapture substrate now drawers event) :=
  h.appendNext hsend rfl (hcaptured.hlc hgate) (ticked_stamp hsend).ge

theorem FlipOutcome.stampsInOrder {drawer : Drawer} {priorId : String}
    {r : EStateM.Result LocusKitError DrawerStore Unit}
    (h : FlipOutcome substrate s drawer priorId r) (hs : StampsInOrder s) :
    StampsInOrder (stateAfter r) := by
  cases h with
  | refused hr => exact hs.refused hsend hr
  | flipped _ hadm =>
    exact hs.appendNext hsend rfl (hadm.hlc hgate) (ticked_stamp hsend).ge

theorem InsertOutcome.stampsInOrder {drawer : Drawer}
    {r : EStateM.Result LocusKitError DrawerStore Unit}
    (h : InsertOutcome substrate s drawer now r) (hs : StampsInOrder s) :
    StampsInOrder (stateAfter r) := by
  cases h with
  | refused hr => exact hs.refused hsend hr
  | captured _ hcaptured => exact hs.withCapture hsend hgate hcaptured
  | cascade _ hcascade =>
    cases hcascade with
    | refused hr => exact hs.refused hsend hr
    | undone hcaptured => exact (hs.withCapture hsend hgate hcaptured).keep rfl le_rfl
    | stored hcaptured hflip =>
      refine hflip.stampsInOrder hsend hgate ?_
      exact (hs.withCapture hsend hgate hcaptured).keep rfl le_rfl

theorem AddOutcome.stampsInOrder {drawer : Drawer}
    {r : EStateM.Result LocusKitError DrawerStore Unit}
    (h : AddOutcome substrate s drawer now r) (hs : StampsInOrder s) :
    StampsInOrder (stateAfter r) := by
  cases h with
  | invalid => exact hs
  | failed hinsert => exact hinsert.stampsInOrder hsend hgate hs
  | added hinsert => exact (hinsert.stampsInOrder hsend hgate hs).keep rfl le_rfl

end Steps

section Siblings

variable {substrate : Substrate} {s s' : DrawerStore} {now : Int} {headId changedBy : String}
  {sealAudit : Bool} {headStamp : Hlc}

theorem KeptBack.transfer {row row' : Drawer} (h : KeptBack substrate s changedBy row)
    (hestate : s'.estateUuid = s.estateUuid) (hbitmaps : row'.bitmaps = row.bitmaps)
    (hudc : row'.udcCode = row.udcCode) : KeptBack substrate s' changedBy row' := by
  rcases h with h | h
  · left
    rw [Drawer.stateRaw, hbitmaps]
    exact h
  · right
    intro rowUuid stamp
    rw [rowRequest, hestate, hbitmaps, hudc]
    exact h rowUuid stamp

/-- The rows keep what the gate looks at while a member of the lineage is passed over. -/
theorem keptBack_cleared {ids : List String} {siblingId : String}
    (h : ∀ row ∈ s.drawers.rows, row.id ∈ ids → KeptBack substrate s changedBy row) :
    ∀ row ∈ ((s.rewritten siblingId (·.clearContent) fun _ => rfl).entered siblingId
      headStamp).drawers.rows, row.id ∈ ids → KeptBack substrate
        ((s.rewritten siblingId (·.clearContent) fun _ => rfl).entered siblingId headStamp)
        changedBy row := by
  intro row hrow hid
  rcases mem_rewritten.mp hrow with ⟨old, hold, hkey, rfl⟩ | ⟨hold, -⟩
  · exact (h old hold hid).transfer rfl rfl rfl
  · exact (h row hold hid).transfer rfl rfl rfl

variable (hsend : LawfulSend substrate)

include hsend

/-- Members that are not sealed leave the log alone. -/
theorem SiblingsRun.silent {ids : List String} {r : EStateM.Result LocusKitError DrawerStore Unit}
    (h : SiblingsRun substrate headId changedBy now sealAudit headStamp s ids r)
    (hquiet : sealAudit = true → ∀ row ∈ s.drawers.rows, row.id ∈ ids →
      KeptBack substrate s changedBy row) :
    (stateAfter r).auditLog = s.auditLog ∧ s.clock.stamp ≤ (stateAfter r).clock.stamp := by
  induction h with
  | done => exact ⟨rfl, le_rfl⟩
  | failed h => cases h; exact ⟨rfl, le_rfl⟩
  | @next s s₁ x xs r h _ ih =>
    have hrest : sealAudit = true → ∀ row ∈ s.drawers.rows, row.id ∈ xs →
        KeptBack substrate s changedBy row :=
      fun hseal row hrow hid => hquiet hseal row hrow (List.mem_cons_of_mem _ hid)
    cases h with
    | missing => exact ih hrest
    | cleared => exact ih fun hseal => keptBack_cleared (hrest hseal)
    | kept =>
      obtain ⟨hlog, hclock⟩ := ih fun hseal row hrow hid =>
        (hrest hseal row hrow hid).transfer rfl rfl rfl
      refine ⟨hlog, le_trans ?_ hclock⟩
      exact (ticked_stamp hsend ).ge.trans' (stamp_lt_nextStamp hsend).le
    | @scrubbed row event hid hstate hgate =>
      cases hseal : sealAudit with
      | true =>
        rcases hquiet hseal row (KeyedTable.find?_eq_some_iff.mp hgate.found).1
          (by rw [hid]; exact List.mem_cons_self) with hkept | hkept
        · exact absurd hkept hstate
        · obtain ⟨rowUuid, -, hadm⟩ := hgate.gate
          exact absurd hadm (hkept rowUuid _ event)
      | false =>
        subst hseal
        obtain ⟨hlog, hclock⟩ := ih (fun hno => nomatch hno)
        refine ⟨hlog, le_trans ?_ hclock⟩
        exact (ticked_stamp hsend ).ge.trans' (stamp_lt_nextStamp hsend).le

omit hsend in
/-- The others of the lineage are still as they were once the head is tombstoned. -/
theorem SealsAlone.withHead {drawerId : String} {head : Drawer} {event : AuditEvent}
    (h : SealsAlone substrate s drawerId changedBy) (hhead : s.drawers.find? drawerId = some head) :
    ∀ row ∈ (s.withHead substrate now drawerId event).drawers.rows,
      row.id ∈ s.siblingIds drawerId →
        KeptBack substrate (s.withHead substrate now drawerId event) changedBy row := by
  intro row hrow hid
  obtain ⟨hchain, hne⟩ := List.mem_filter.mp hid
  have hne : row.id ≠ drawerId := by simpa using hne
  rcases mem_rewritten.mp hrow with ⟨old, -, hkey, rfl⟩ | ⟨hold, -⟩
  · exact absurd hkey hne
  · rw [lineageChain, hhead] at hchain
    obtain ⟨member, hmember, hmid⟩ := List.mem_map.mp hchain
    obtain ⟨hmember, hlineage⟩ := List.mem_filter.mp hmember
    have heq : member = row := KeyedTable.eq_of_key_eq hmember hold hmid
    rw [heq] at hlineage
    exact (h head hhead row hold (by simpa using hlineage) hne).transfer rfl rfl rfl

end Siblings

section Calls

variable {substrate : Substrate} {s : DrawerStore} {now : Int} (hsend : LawfulSend substrate)
  (hgate : LawfulGate substrate)

include hsend hgate

theorem ExpungeOutcome.stampsInOrder {drawerId changedBy : String} {reason : Option String}
    {sealAudit : Bool} {r : EStateM.Result LocusKitError DrawerStore AuditEvent}
    (h : ExpungeOutcome substrate s drawerId changedBy reason now sealAudit r)
    (hs : StampsInOrder s)
    (halone : sealAudit = true → SealsAlone substrate s drawerId changedBy) :
    StampsInOrder (stateAfter r) := by
  cases h with
  | refused hr => exact hs.refused hsend hr
  | @failed row event s' e hid hadm hrun =>
    obtain ⟨hlog, hclock⟩ := hrun.silent hsend fun hseal =>
      (halone hseal).withHead (hid ▸ hadm.found)
    have hhead : StampsInOrder (s.withHead substrate now drawerId event) :=
      (hs.ticked hsend).keep rfl le_rfl
    exact hhead.keep hlog hclock
  | @done row event s' hid hadm hrun =>
    obtain ⟨hlog, hclock⟩ := hrun.silent hsend fun hseal =>
      (halone hseal).withHead (hid ▸ hadm.found)
    have hhead : StampsInOrder (s.withHead substrate now drawerId event) :=
      (hs.ticked hsend).keep rfl le_rfl
    cases sealAudit with
    | false => exact hhead.keep hlog hclock
    | true =>
      have hstamp := hadm.hlc hgate
      refine hs.appendNext hsend ?_ hstamp ?_
      · change s'.auditLog ++ [event] = _
        rw [show s'.auditLog = s.auditLog from hlog]
      · exact (ticked_stamp hsend ).ge.trans hclock

theorem ReanchorOutcome.stampsInOrder {drawerId : String} {toRoom toWing : Option String}
    {toLattice : Option LatticeAnchor} {changedBy : String} {reason : Option String}
    {minted : MintedIds} {r : EStateM.Result LocusKitError DrawerStore Unit}
    (h : ReanchorOutcome substrate s drawerId toRoom toWing toLattice changedBy reason now minted r)
    (hs : StampsInOrder s) : StampsInOrder (stateAfter r) := by
  cases h with
  | refused hr => exact hs.refused hsend hr
  | failed => exact (hs.ticked hsend).keep rfl le_rfl
  | moved _ hadm => exact hs.appendNext hsend rfl (hadm.hlc hgate) (ticked_stamp hsend).ge

theorem StampsInOrder.step {call : StoreCall} (hs : StampsInOrder s)
    (hcall : StampsGuarded substrate s call) : StampsInOrder (s.step substrate call) := by
  rw [DrawerStore.step]
  cases call with
  | addDrawer drawer now => exact (addDrawer_outcome rfl).stampsInOrder hsend hgate hs
  | mutateColumn =>
    obtain hr | ⟨row, event, -, hadm, hr⟩ := mutateColumn_cases rfl
    · exact hs.refused hsend hr
    · rw [StoreCall.run, hr]
      exact hs.appendNext hsend rfl (hadm.hlc hgate) (ticked_stamp hsend).ge
  | mutateState =>
    obtain hr | ⟨row, event, -, hadm, hr⟩ := mutateState_cases rfl
    · exact hs.refused hsend hr
    · rw [StoreCall.run, hr]
      exact hs.appendNext hsend rfl (hadm.hlc hgate) (ticked_stamp hsend).ge
  | expungeGated drawerId changedBy reason now sealAudit =>
    rw [StoreCall.run, stateAfter_dropAnswer]
    refine (expungeGated_outcome rfl).stampsInOrder hsend hgate hs fun hseal => ?_
    subst hseal
    exact hcall
  | sealExpungeAudit event => exact hs.append rfl hcall.1 hcall.2
  | sealExpungeOrphanAudit event changedBy now =>
    exact hs.appendNext hsend rfl rfl (ticked_stamp hsend).ge
  | sealExpungeOrphanForSweep drawerId changedBy now =>
    obtain ⟨e, hr⟩ | ⟨row, rowUuid, eventId, -, -, hr⟩ := sealExpungeOrphanForSweep_cases rfl
    · rw [StoreCall.run, hr]; exact hs
    · rw [StoreCall.run, hr]; exact hs.appendNext hsend rfl rfl (ticked_stamp hsend).ge
  | reanchorGated =>
    exact (reanchorGated_outcome rfl).stampsInOrder hsend hgate hs
  | rebuildContainerFingerprints => exact hs.keep rfl le_rfl
  | reopen mintedUuidText now =>
    obtain ⟨e, hr⟩ | ⟨uuid, -, hr⟩ := reopen_cases rfl
    · rw [StoreCall.run, hr]; exact hs
    · rw [StoreCall.run, hr]; exact ⟨hs.ordered, hcall⟩
  | createNode =>
    rw [StoreCall.run, stateAfter_dropAnswer]
    obtain ⟨e, hr⟩ | ⟨node, nodes, -, hr⟩ := createNode_cases rfl <;> rw [hr]
    · exact hs
    · exact hs.keep rfl le_rfl
  | createRoot =>
    rw [StoreCall.run, stateAfter_dropAnswer]
    obtain ⟨e, hr⟩ | ⟨node, nodes, -, hr⟩ := createRoot_cases rfl <;> rw [hr]
    · exact hs
    · exact hs.keep rfl le_rfl

end Calls

theorem stampsInOrder_fresh (owner : String) : StampsInOrder (fresh owner) :=
  ⟨List.Pairwise.nil, fun _ he => nomatch he⟩

/-- In a run whose openings come after the sealed stamps and whose expunges seal one event each, the
stamps of the audit log grow strictly. -/
theorem auditLog_stamps_increasing {substrate : Substrate} (hsend : LawfulSend substrate)
    (hgate : LawfulGate substrate) {owner : String} {s : DrawerStore}
    (hrun : GuardedRun (step substrate) (StampsGuarded substrate) (fresh owner) s) :
    s.auditLog.Pairwise fun a b => a.hlc < b.hlc :=
  (hrun.invariant (stampsInOrder_fresh owner) fun _ _ hs hcall =>
    hs.step hsend hgate hcall).ordered

/-- Two sessions, the second one opened at a later instant. -/
def laterSessions : List StoreCall :=
  [.reopen (referenceUuidText "a") 5, .addDrawer (referenceDrawer "1" 1 5) 5,
    .reopen (referenceUuidText "a") 6, .addDrawer (referenceDrawer "2" 2 6) 6]

theorem auditLog_stamps_increasing_laterSessions :
    (laterSessions.foldl (step referenceSubstrate) (fresh "alice")).auditLog.Pairwise
      fun a b => a.hlc < b.hlc := by
  have hfirst : StampsGuarded referenceSubstrate (fresh "alice")
      (.reopen (referenceUuidText "a") 5) := fun e he => nomatch he
  have hlater : StampsGuarded referenceSubstrate ([StoreCall.reopen (referenceUuidText "a") 5,
      .addDrawer (referenceDrawer "1" 1 5) 5].foldl (step referenceSubstrate) (fresh "alice"))
      (.reopen (referenceUuidText "a") 6) := by
    have hlog : ∀ e ∈ (([StoreCall.reopen (referenceUuidText "a") 5,
        .addDrawer (referenceDrawer "1" 1 5) 5].foldl (step referenceSubstrate)
          (fresh "alice")).auditLog), e.hlc ≤ (makeClock referenceSubstrate
            (referenceUuidText "a") 6).stamp := by decide +kernel
    exact hlog
  exact auditLog_stamps_increasing lawfulSend_referenceSubstrate lawfulGate_referenceSubstrate
    (.next (StoreCall.addDrawer (referenceDrawer "2" 2 6) 6) (.next
      (StoreCall.reopen (referenceUuidText "a") 6) (.next
        (StoreCall.addDrawer (referenceDrawer "1" 1 5) 5) (.next
          (StoreCall.reopen (referenceUuidText "a") 5) .start hfirst) trivial) hlater) trivial)

/-- Two sessions opened in the same tick. -/
def sameTickSessions : List StoreCall :=
  [.reopen (referenceUuidText "a") 5, .addDrawer (referenceDrawer "1" 1 5) 5,
    .reopen (referenceUuidText "a") 5, .addDrawer (referenceDrawer "2" 2 5) 5]

theorem not_auditLog_stamps_increasing :
    ¬∀ (substrate : Substrate) (owner : String) (calls : List StoreCall), LawfulSend substrate →
      LawfulGate substrate → (calls.filterMap StoreCall.now?).Pairwise (· ≤ ·) →
      (calls.foldl (step substrate) (fresh owner)).auditLog.Pairwise fun a b => a.hlc < b.hlc := by
  intro h
  have hlog := h referenceSubstrate "alice" sameTickSessions lawfulSend_referenceSubstrate
    lawfulGate_referenceSubstrate (by decide)
  exact absurd hlog (by decide +kernel)

end DrawerStore

end MootMemory
