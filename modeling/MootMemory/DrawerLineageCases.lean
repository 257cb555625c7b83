import MootMemory.DrawerWriteCases

namespace MootMemory

namespace DrawerStore

/-- The store right after a capture. -/
@[simps!] def withCapture (substrate : Substrate) (s : DrawerStore) (now : Int)
    (drawers : KeyedTable Drawer.id) (event : AuditEvent) : DrawerStore :=
  ((s.ticked substrate now).withDrawers drawers).logged event

/-- The store after a state transition of a row. -/
@[simps!] def withState (substrate : Substrate) (s : DrawerStore) (now : Int) (drawerId : String)
    (event : AuditEvent) (reason : Option String) : DrawerStore :=
  ((s.ticked substrate now).rewritten drawerId
    (·.setAdjective event.afterBitmaps.adjective) event.id_setAdjective).logged
      (event.withReason reason)

/-- The reason a cascade gives for the flip. -/
def cascadeReason (drawer : Drawer) : Option String :=
  some ("supersession cascade, lineageID " ++ Uuid.text drawer.lineageId)

/-- How the flip of the predecessor ends, once the successor and the tunnel are stored. -/
inductive FlipOutcome (substrate : Substrate) (s : DrawerStore) (drawer : Drawer)
    (priorId : String) : EStateM.Result LocusKitError DrawerStore Unit → Prop
  | refused {r} (h : Refused substrate s drawer.filedAt r)
      (hno : priorId ≠ "" → drawer.addedBy ≠ "" → ¬∃ row event, row.id = priorId ∧
        Admitted substrate s drawer.filedAt row .supersede
          [⟨stateSlot, State.superseded.rawValue⟩] (substrate.udcAnchor row.udcCode) drawer.addedBy
          event) :
      FlipOutcome substrate s drawer priorId r
  | flipped {row event} (hid : row.id = priorId)
      (h : Admitted substrate s drawer.filedAt row .supersede
        [⟨stateSlot, State.superseded.rawValue⟩] (substrate.udcAnchor row.udcCode) drawer.addedBy
        event) :
      FlipOutcome substrate s drawer priorId
        (.ok () (s.withState substrate drawer.filedAt priorId event (cascadeReason drawer)))

/-- How a capture over a predecessor ends. -/
inductive CascadeOutcome (substrate : Substrate) (s : DrawerStore) (drawer : Drawer)
    (priorId : String) : EStateM.Result LocusKitError DrawerStore Unit → Prop
  | refused {r} (h : Refused substrate s drawer.filedAt r) :
      CascadeOutcome substrate s drawer priorId r
  | undone {drawers event e} (h : Captured substrate s drawer.filedAt drawer drawers event) :
      CascadeOutcome substrate s drawer priorId
        (.error e ((s.withCapture substrate drawer.filedAt drawers event).withDrawers
          (drawers.erase drawer.id)))
  | stored {drawers event tunnels r}
      (h : Captured substrate s drawer.filedAt drawer drawers event)
      (hflip : FlipOutcome substrate
        ((s.withCapture substrate drawer.filedAt drawers event).withTunnels tunnels)
        drawer priorId r) :
      CascadeOutcome substrate s drawer priorId r

/-- How an insertion ends: refused, captured alone, or captured over a predecessor. -/
inductive InsertOutcome (substrate : Substrate) (s : DrawerStore) (drawer : Drawer) (now : Int) :
    EStateM.Result LocusKitError DrawerStore Unit → Prop
  | refused {r} (h : Refused substrate s now r) : InsertOutcome substrate s drawer now r
  | captured {drawers event}
      (hnone : s.findActivePredecessor drawer.lineageId drawer.id = none)
      (h : Captured substrate s now drawer drawers event) :
      InsertOutcome substrate s drawer now (.ok () (s.withCapture substrate now drawers event))
  | cascade {priorId r}
      (hprior : s.findActivePredecessor drawer.lineageId drawer.id = some priorId)
      (h : CascadeOutcome substrate s drawer priorId r) : InsertOutcome substrate s drawer now r

/-- The store after the bitmaps of a drawer were added to its container. -/
@[simps!] def withOrIn (s : DrawerStore) (drawer : Drawer) : DrawerStore :=
  let names := (s.nodes.resolveNodeNames drawer.parentNodeId).getD ("", "")
  { s with fingerprints := s.fingerprints.orIn names.1 names.2 drawer.bitmaps }

/-- How the adding of a drawer ends: only an insertion that succeeded reaches the fingerprints. -/
inductive AddOutcome (substrate : Substrate) (s : DrawerStore) (drawer : Drawer) (now : Int) :
    EStateM.Result LocusKitError DrawerStore Unit → Prop
  | invalid {e} : AddOutcome substrate s drawer now (.error e s)
  | failed {e s'} (h : InsertOutcome substrate s drawer now (.error e s'))
      (hby : drawer.addedBy ≠ "") : AddOutcome substrate s drawer now (.error e s')
  | added {s'} (h : InsertOutcome substrate s drawer now (.ok () s')) :
      AddOutcome substrate s drawer now (.ok () (s'.withOrIn drawer))

variable {substrate : Substrate} {s : DrawerStore}

theorem findActivePredecessor_eq_some {lineageId : Uuid} {excludingId priorId : String}
    (h : s.findActivePredecessor lineageId excludingId = some priorId) :
    ∃ row ∈ s.drawers.rows, row.id = priorId ∧ row.lineageId = lineageId ∧ priorId ≠ excludingId ∧
      row.stateRaw.toNat < 3 := by
  obtain ⟨row, hfind, rfl⟩ := Option.map_eq_some_iff.mp h
  have hp := List.find?_some hfind
  simp only [Bool.and_eq_true, beq_iff_eq, bne_iff_ne, decide_eq_true_eq] at hp
  exact ⟨row, List.mem_of_find?_eq_some hfind, rfl, hp.1.1, hp.1.2, hp.2⟩

theorem mutateState_flip {drawer : Drawer} {priorId : String}
    {r : EStateM.Result LocusKitError DrawerStore Unit}
    (h : mutateState substrate priorId .superseded .supersede drawer.addedBy
      (cascadeReason drawer) drawer.filedAt s = r) : FlipOutcome substrate s drawer priorId r := by
  obtain hr | ⟨row, event, hid, hadm, rfl⟩ := mutateState_cases h
  · refine .refused hr ?_
    rintro hprior hby ⟨row, event, rfl, hadm⟩
    rw [← h, mutateState_eq_ok hprior hby hadm] at hr
    obtain ⟨e, hr | hr⟩ := hr <;> cases hr
  · exact .flipped hid hadm

theorem addDrawerWithCascade_outcome {drawer : Drawer} {priorId : String}
    {r : EStateM.Result LocusKitError DrawerStore Unit}
    (h : addDrawerWithCascade substrate drawer priorId s = r) :
    CascadeOutcome substrate s drawer priorId r := by
  rw [addDrawerWithCascade] at h
  obtain ⟨-, hr⟩ | ⟨prior, -, -, h⟩ := readDrawer_bind_cases h
  · exact .refused (hr ▸ .here _)
  change (gatedCapture substrate drawer drawer.filedAt >>= _) s = r at h
  cases hcapture : gatedCapture substrate drawer drawer.filedAt s with
  | error e s₁ =>
    simp only [bind, EStateM.bind, hcapture] at h
    obtain hr | ⟨_, _, _, hr⟩ := gatedCapture_cases hcapture
    · exact .refused (h ▸ hr)
    · cases hr
  | ok u s₁ =>
    simp only [bind, EStateM.bind, hcapture] at h
    obtain hr | ⟨drawers, event, hcaptured, hr⟩ := gatedCapture_cases hcapture
    · obtain ⟨_, hr | hr⟩ := hr <;> cases hr
    cases hr
    cases htunnel : s.tunnels.insert? (supersedesTunnel drawer priorId
        ((s.nodes.resolveNodeNames drawer.parentNodeId).getD ("", ""))
        ((s.nodes.resolveNodeNames prior.parentNodeId).getD ("", ""))) with
    | none =>
      simp only [insertTunnelOrUndo, bind, EStateM.bind, get_eq, logged_tunnels, withDrawers_tunnels, ticked_tunnels, htunnel] at h
      exact h ▸ .undone hcaptured
    | some tunnels =>
      simp only [insertTunnelOrUndo, bind, EStateM.bind, get_eq, logged_tunnels, withDrawers_tunnels, ticked_tunnels, htunnel] at h
      exact .stored hcaptured (mutateState_flip h)

theorem insertWithPredecessor_outcome {drawer : Drawer} {now : Int}
    {r : EStateM.Result LocusKitError DrawerStore Unit}
    (h : insertWithPredecessor substrate drawer now s = r) :
    InsertOutcome substrate s drawer now r := by
  cases hprior : s.findActivePredecessor drawer.lineageId drawer.id with
  | some priorId =>
    simp only [insertWithPredecessor, bind, EStateM.bind, get_eq, hprior] at h
    exact .cascade hprior (addDrawerWithCascade_outcome h)
  | none =>
    simp only [insertWithPredecessor, bind, EStateM.bind, get_eq, hprior] at h
    obtain hr | ⟨drawers, event, hcaptured, rfl⟩ := gatedCapture_cases h
    · exact .refused hr
    · exact .captured hprior hcaptured

theorem addDrawer_outcome {drawer : Drawer} {now : Int}
    {r : EStateM.Result LocusKitError DrawerStore Unit}
    (h : addDrawer substrate drawer now s = r) : AddOutcome substrate s drawer now r := by
  rw [addDrawer] at h
  obtain ⟨e, -, hr⟩ | ⟨_, -, h⟩ := ofExcept_bind_cases h
  · exact hr ▸ .invalid
  obtain ⟨e, -, hr⟩ | ⟨_, -, h⟩ := ofExcept_bind_cases h
  · exact hr ▸ .invalid
  obtain ⟨e, -, hr⟩ | ⟨_, hby, h⟩ := ofExcept_bind_cases h
  · exact hr ▸ .invalid
  obtain ⟨e, -, hr⟩ | ⟨_, -, h⟩ := ofExcept_bind_cases h
  · exact hr ▸ .invalid
  cases hinsert : insertWithPredecessor substrate drawer now s with
  | error e s' =>
    simp only [bind, EStateM.bind, hinsert] at h
    exact h ▸ .failed (insertWithPredecessor_outcome hinsert) (validateNonEmpty_eq_ok.mp hby)
  | ok u s' =>
    simp only [bind, EStateM.bind, hinsert] at h
    exact h ▸ .added (insertWithPredecessor_outcome hinsert)

end DrawerStore

namespace DrawerStore

/-- The store with an event appended where the expunge seals its own audit. -/
def loggedIf (s : DrawerStore) (sealAudit : Bool) (event : AuditEvent) : DrawerStore :=
  if sealAudit then s.logged event else s

/-- The store after a row was tombstoned and its content scrubbed. -/
@[simps!] def withScrub (substrate : Substrate) (s : DrawerStore) (now : Int) (rowId : String)
    (event : AuditEvent) : DrawerStore :=
  (s.ticked substrate now).rewritten rowId (·.scrub event.afterBitmaps.adjective now)
    (event.id_scrub now)

/-- The gate lets a row be tombstoned. -/
abbrev Scrubbable (substrate : Substrate) (s : DrawerStore) (now : Int) (row : Drawer)
    (changedBy : String) (event : AuditEvent) : Prop :=
  Admitted substrate s now row .tombstone (expungeWrites row.bitmaps.adjective)
    (substrate.udcAnchor row.udcCode) changedBy event

/-- The gate does not let a row be tombstoned. -/
def TombstoneRefused (substrate : Substrate) (s : DrawerStore) (now : Int) (row : Drawer)
    (changedBy : String) : Prop :=
  ∃ rowUuid violation, substrate.parseUuid row.id = some rowUuid ∧
    substrate.gateAdmit (rowRequest substrate s rowUuid row .tombstone
      (expungeWrites row.bitmaps.adjective) (substrate.udcAnchor row.udcCode) changedBy
      (s.nextStamp substrate now)) = .error violation

def cascadeExpungeReason (headId : String) : Option String :=
  some ("lineage expunge cascade from " ++ headId)

/-- What an expunge does to one member of the lineage other than its head. -/
inductive SiblingOutcome (substrate : Substrate) (headId changedBy : String) (now : Int)
    (sealAudit : Bool) (headStamp : Hlc) (s : DrawerStore) (siblingId : String) :
    EStateM.Result LocusKitError DrawerStore Unit → Prop
  | missing (h : s.drawers.find? siblingId = none) :
      SiblingOutcome substrate headId changedBy now sealAudit headStamp s siblingId (.ok () s)
  | cleared {row} (h : s.drawers.find? siblingId = some row)
      (hstate : row.stateRaw = State.tombstoned.rawValue) :
      SiblingOutcome substrate headId changedBy now sealAudit headStamp s siblingId
        (.ok () ((s.rewritten siblingId (·.clearContent) fun _ => rfl).entered siblingId headStamp))
  | invalid {e} :
      SiblingOutcome substrate headId changedBy now sealAudit headStamp s siblingId (.error e s)
  | kept {row} (h : s.drawers.find? siblingId = some row)
      (hstate : row.stateRaw ≠ State.tombstoned.rawValue)
      (hgate : TombstoneRefused substrate s now row changedBy) :
      SiblingOutcome substrate headId changedBy now sealAudit headStamp s siblingId
        (.ok () ((s.ticked substrate now).entered siblingId headStamp))
  | scrubbed {row event} (hid : row.id = siblingId)
      (hstate : row.stateRaw ≠ State.tombstoned.rawValue)
      (hgate : Scrubbable substrate s now row changedBy event) :
      SiblingOutcome substrate headId changedBy now sealAudit headStamp s siblingId
        (.ok () (((s.withScrub substrate now siblingId event).loggedIf sealAudit
          (event.withReason (cascadeExpungeReason headId))).entered siblingId headStamp))

/-- The loop over the other members, up to the first one that fails. -/
inductive SiblingsRun (substrate : Substrate) (headId changedBy : String) (now : Int)
    (sealAudit : Bool) (headStamp : Hlc) :
    DrawerStore → List String → EStateM.Result LocusKitError DrawerStore Unit → Prop
  | done {s} : SiblingsRun substrate headId changedBy now sealAudit headStamp s [] (.ok () s)
  | next {s s' x xs r}
      (h : SiblingOutcome substrate headId changedBy now sealAudit headStamp s x (.ok () s'))
      (hrest : SiblingsRun substrate headId changedBy now sealAudit headStamp s' xs r) :
      SiblingsRun substrate headId changedBy now sealAudit headStamp s (x :: xs) r
  | failed {s s' x xs e}
      (h : SiblingOutcome substrate headId changedBy now sealAudit headStamp s x (.error e s')) :
      SiblingsRun substrate headId changedBy now sealAudit headStamp s (x :: xs) (.error e s')

/-- The store after the head of an expunge was tombstoned. -/
@[simps!] def withHead (substrate : Substrate) (s : DrawerStore) (now : Int) (rowId : String)
    (event : AuditEvent) : DrawerStore :=
  (s.withScrub substrate now rowId event).entered rowId (s.nextStamp substrate now)

def siblingIds (s : DrawerStore) (drawerId : String) : List String :=
  (s.lineageChain drawerId).filter (· != drawerId)

/-- How an expunge ends: refused with nothing written, or the head and then the others. -/
inductive ExpungeOutcome (substrate : Substrate) (s : DrawerStore) (drawerId changedBy : String)
    (reason : Option String) (now : Int) (sealAudit : Bool) :
    EStateM.Result LocusKitError DrawerStore AuditEvent → Prop
  | refused {r} (h : Refused substrate s now r) :
      ExpungeOutcome substrate s drawerId changedBy reason now sealAudit r
  | failed {row event e s'} (hid : row.id = drawerId)
      (hgate : Scrubbable substrate s now row changedBy event)
      (hrun : SiblingsRun substrate drawerId changedBy now sealAudit (s.nextStamp substrate now)
        (s.withHead substrate now drawerId event) (s.siblingIds drawerId) (.error e s')) :
      ExpungeOutcome substrate s drawerId changedBy reason now sealAudit (.error e s')
  | done {row event s'} (hid : row.id = drawerId)
      (hgate : Scrubbable substrate s now row changedBy event)
      (hrun : SiblingsRun substrate drawerId changedBy now sealAudit (s.nextStamp substrate now)
        (s.withHead substrate now drawerId event) (s.siblingIds drawerId) (.ok () s')) :
      ExpungeOutcome substrate s drawerId changedBy reason now sealAudit
        (.ok (event.withReason reason) (s'.loggedIf sealAudit event))

variable {substrate : Substrate} {s : DrawerStore}

theorem expungeLiveSibling_outcome {headId changedBy : String} {now : Int} {sealAudit : Bool}
    {headStamp : Hlc} {row : Drawer} {siblingId : String}
    {r : EStateM.Result LocusKitError DrawerStore Unit}
    (hfind : s.drawers.find? siblingId = some row)
    (hstate : row.stateRaw ≠ State.tombstoned.rawValue)
    (h : expungeLiveSibling substrate headId changedBy now sealAudit headStamp row siblingId s = r) :
    SiblingOutcome substrate headId changedBy now sealAudit headStamp s siblingId r := by
  have hid : row.id = siblingId := (KeyedTable.find?_eq_some_iff.mp hfind).2
  rw [expungeLiveSibling] at h
  obtain ⟨e, -, hr⟩ | ⟨rowUuid, huuid, h⟩ := ofExcept_bind_cases h
  · exact hr ▸ .invalid
  have hparse := requireUuid_eq_ok huuid
  cases hadm : substrate.gateAdmit (rowRequest substrate s rowUuid row .tombstone
      (expungeWrites row.bitmaps.adjective) (substrate.udcAnchor row.udcCode) changedBy
      (s.nextStamp substrate now)) with
  | error violation =>
    have hrun : admitTombstone substrate rowUuid row changedBy now s =
        .ok (.error violation) (s.ticked substrate now) :=
      congrArg (EStateM.Result.ok · (s.ticked substrate now)) hadm
    simp only [bind, EStateM.bind, hrun] at h
    exact h ▸ .kept hfind hstate ⟨rowUuid, violation, hid ▸ hparse, hadm⟩
  | ok event =>
    have hrun : admitTombstone substrate rowUuid row changedBy now s =
        .ok (.ok event) (s.ticked substrate now) :=
      congrArg (EStateM.Result.ok · (s.ticked substrate now)) hadm
    simp only [bind, EStateM.bind, hrun] at h
    have hout : r = .ok () (((s.withScrub substrate now siblingId event).loggedIf sealAudit
        (event.withReason (cascadeExpungeReason headId))).entered siblingId headStamp) := by
      rw [← h]
      cases sealAudit <;> rfl
    rw [hout]
    exact .scrubbed hid hstate ⟨hid ▸ hfind, rowUuid, hid ▸ hparse, hadm⟩

theorem expungeSibling_outcome {headId changedBy : String} {now : Int} {sealAudit : Bool}
    {headStamp : Hlc} {siblingId : String} {r : EStateM.Result LocusKitError DrawerStore Unit}
    (h : expungeSibling substrate headId changedBy now sealAudit headStamp siblingId s = r) :
    SiblingOutcome substrate headId changedBy now sealAudit headStamp s siblingId r := by
  cases hfind : s.drawers.find? siblingId with
  | none =>
    simp only [expungeSibling, bind, EStateM.bind, get_eq,
      hfind] at h
    exact h ▸ .missing hfind
  | some row =>
    simp only [expungeSibling, bind, EStateM.bind, get_eq,
      hfind] at h
    split at h
    next hstate => exact h ▸ .cleared hfind hstate
    next hstate => exact expungeLiveSibling_outcome hfind hstate h

theorem expungeSiblings_run {headId changedBy : String} {now : Int} {sealAudit : Bool}
    {headStamp : Hlc} {ids : List String} {r : EStateM.Result LocusKitError DrawerStore Unit}
    (h : ids.forM (expungeSibling substrate headId changedBy now sealAudit headStamp) s = r) :
    SiblingsRun substrate headId changedBy now sealAudit headStamp s ids r := by
  induction ids generalizing s with
  | nil => exact h ▸ .done
  | cons x xs ih =>
    change ((expungeSibling substrate headId changedBy now sealAudit headStamp x) >>= fun _ =>
      xs.forM (expungeSibling substrate headId changedBy now sealAudit headStamp)) s = r at h
    cases hx : expungeSibling substrate headId changedBy now sealAudit headStamp x s with
    | error e s' =>
      simp only [bind, EStateM.bind, hx] at h
      exact h ▸ .failed (expungeSibling_outcome hx)
    | ok u s' =>
      simp only [bind, EStateM.bind, hx] at h
      exact .next (expungeSibling_outcome hx) (ih h)

theorem expungeGated_outcome {drawerId changedBy : String} {reason : Option String} {now : Int}
    {sealAudit : Bool} {r : EStateM.Result LocusKitError DrawerStore AuditEvent}
    (h : expungeGated substrate drawerId changedBy reason now sealAudit s = r) :
    ExpungeOutcome substrate s drawerId changedBy reason now sealAudit r := by
  rw [expungeGated] at h
  obtain ⟨e, -, hr⟩ | ⟨_, -, h⟩ := ofExcept_bind_cases h
  · exact .refused (hr ▸ .here e)
  obtain ⟨e, -, hr⟩ | ⟨_, -, h⟩ := ofExcept_bind_cases h
  · exact .refused (hr ▸ .here e)
  change (readDrawer drawerId >>= _) s = r at h
  obtain ⟨-, hr⟩ | ⟨row, hfind, hid, h⟩ := readDrawer_bind_cases h
  · exact .refused (hr ▸ .here _)
  obtain ⟨e, -, hr⟩ | ⟨rowUuid, huuid, h⟩ := ofExcept_bind_cases h
  · exact .refused (hr ▸ .here e)
  change (admitWrite substrate _ _ now >>= _) s = r at h
  obtain ⟨violation, -, hr⟩ | ⟨event, hadm, h⟩ := admitWrite_bind_cases h
  · exact .refused (hr ▸ .ticked _)
  have hgate : Scrubbable substrate s now row changedBy event :=
    ⟨hid ▸ hfind, rowUuid, hid ▸ requireUuid_eq_ok huuid, hadm⟩
  change ((s.siblingIds drawerId).forM (expungeSibling substrate drawerId changedBy now sealAudit
    (s.nextStamp substrate now)) >>= _) (s.withHead substrate now drawerId event) = r at h
  cases hrun : (s.siblingIds drawerId).forM (expungeSibling substrate drawerId changedBy now
      sealAudit (s.nextStamp substrate now)) (s.withHead substrate now drawerId event) with
  | error e s' =>
    simp only [bind, EStateM.bind, hrun] at h
    exact h ▸ .failed hid hgate (expungeSiblings_run hrun)
  | ok u s' =>
    simp only [bind, EStateM.bind, hrun] at h
    have hout : r = .ok (event.withReason reason) (s'.loggedIf sealAudit event) := by
      rw [← h]
      cases sealAudit <;> rfl
    exact hout ▸ .done hid hgate (expungeSiblings_run hrun)

/-- A seal for the sweep fails, or appends an event about the row as it is. -/
theorem sealExpungeOrphanForSweep_cases {drawerId changedBy : String} {now : Int}
    {r : EStateM.Result LocusKitError DrawerStore Unit}
    (h : sealExpungeOrphanForSweep substrate drawerId changedBy now s = r) :
    (∃ e, r = .error e s) ∨ ∃ row rowUuid eventId, s.drawers.find? drawerId = some row ∧
      substrate.parseUuid drawerId = some rowUuid ∧
      r = .ok () ((s.ticked substrate now).logged (.orphanOfRow eventId s.estateUuid rowUuid
        (s.nextStamp substrate now) row (substrate.udcAnchor row.udcCode) changedBy)) := by
  rw [sealExpungeOrphanForSweep] at h
  obtain ⟨e, -, hr⟩ | ⟨rowUuid, huuid, h⟩ := ofExcept_bind_cases h
  · exact Or.inl ⟨e, hr⟩
  obtain ⟨-, hr⟩ | ⟨row, hfind, -, h⟩ := readDrawer_bind_cases h
  · exact Or.inl ⟨_, hr⟩
  · exact Or.inr ⟨row, rowUuid, _, hfind, requireUuid_eq_ok huuid, h.symm⟩

end DrawerStore

end MootMemory
