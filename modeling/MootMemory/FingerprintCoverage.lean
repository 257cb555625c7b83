import MootMemory.CoverageSteps
import MootMemory.FailedCapture
import MootMemory.LoopRuns

namespace MootMemory

namespace DrawerStore

/-- The fingerprints cover every drawer that is not tombstoned. -/
structure Covered (s : DrawerStore) : Prop where
  rows : AllCovered s.fingerprints s.nodes s.drawers.rows
  rolledUp : s.fingerprints.RolledUp

/-- Ids that no node and no drawer refers to, as freshly minted ones are. -/
def IdsUnused (s : DrawerStore) (minted : List String) : Prop :=
  s.nodes.Unused minted ∧ ∀ row ∈ s.drawers.rows, row.parentNodeId ∉ minted

instance (s : DrawerStore) (minted : List String) : Decidable (IdsUnused s minted) :=
  inferInstanceAs (Decidable (_ ∧ _))

/-- A node that a call creates gets a new id. -/
def MintsUnused (s : DrawerStore) : StoreCall → Prop
  | .reanchorGated _ _ _ _ _ _ _ minted => IdsUnused s [minted.wing, minted.room]
  | .createNode _ _ mintedId | .createRoot _ mintedId => IdsUnused s [mintedId]
  | _ => True

/-- The drawer is not put into a container without a name. -/
def NamesRoom (s : DrawerStore) (drawer : Drawer) : Prop :=
  drawer.tombstonedAt = none → ∀ names,
    s.nodes.resolveNodeNames drawer.parentNodeId = some names → names.2 ≠ wingRollupRoom

/-- The entry of the drawer's room has all its bits already. -/
def HasBits (s : DrawerStore) (drawer : Drawer) : Prop :=
  ∀ names, s.nodes.resolveNodeNames drawer.parentNodeId = some names →
    s.fingerprints.Covers names drawer.bitmaps

/-- Where a capture stores its drawer, the flip of a predecessor sets no bit that its room lacks, and
either all that follows the stored row goes through and the room has a name, or the entry of the room
has the bits already. -/
def CaptureFits (substrate : Substrate) (faults : StorageFaults) (s : DrawerStore) (drawer : Drawer)
    (now : Int) : Prop :=
  StoresDrawer substrate faults s drawer now →
    (∀ prior ∈ s.drawers.rows, s.findActivePredecessor drawer.lineageId drawer.id = some prior.id →
      EditFits substrate s prior.id .supersede .adjective [⟨stateSlot, State.superseded.rawValue⟩]
        drawer.addedBy) ∧
    (CompletesCapture substrate faults s drawer ∧ NamesRoom s drawer ∨
      CoversRow s.fingerprints s.nodes drawer drawer.bitmaps ∧
        (WritesRoomOnly faults → HasBits s drawer))

/-- A move goes to a room whose entry has all bits of the row already. -/
def MoveFits (substrate : Substrate) (s : DrawerStore) (row : Drawer)
    (toRoom toWing : Option String) : Prop :=
  row.tombstonedAt = none → ∀ names,
    s.nodes.destinationNames substrate row toRoom toWing = some names →
      s.fingerprints.Covers names row.bitmaps

/-- No step sets a bit of a row, or files or moves a row, past the entry of its room. -/
def CoverageGuarded (substrate : Substrate) (faults : StorageFaults) (s : DrawerStore) :
    StoreCall → Prop
  | .addDrawer drawer now => CaptureFits substrate faults s drawer now
  | .mutateColumn column drawerId newValue changedBy _ _ =>
    EditFits substrate s drawerId .mutate column
      ((editableSlots substrate column).map (·.write newValue)) changedBy
  | .mutateState drawerId newState via changedBy _ _ =>
    EditFits substrate s drawerId via .adjective [⟨stateSlot, newState.rawValue⟩] changedBy
  | .reanchorGated drawerId toRoom toWing toLattice changedBy _ _ _ =>
    ∀ row ∈ s.drawers.rows, row.id = drawerId →
      WriteRefused substrate s row .mutate []
        (substrate.udcAnchor ((toLattice.map (·.udcCode)).getD row.udcCode)) changedBy ∨
      MoveFits substrate s row toRoom toWing
  | _ => True

/-- A call over a storage whose accesses may fail while a drawer is added. -/
def stepUnder (substrate : Substrate) (s : DrawerStore) (call : StorageFaults × StoreCall) :
    DrawerStore :=
  match call.2 with
  | .addDrawer drawer now => stateAfter (addDrawerUnder substrate call.1 drawer now s)
  | sound => s.step substrate sound

section Calls

variable {substrate : Substrate} {s : DrawerStore} {now : Int}

theorem stepUnder_none (call : StoreCall) :
    s.stepUnder substrate (.none, call) = s.step substrate call := by
  cases call with
  | addDrawer drawer now =>
    change stateAfter (addDrawerUnder substrate .none drawer now s) = _
    rw [addDrawerUnder_none]
    rfl
  | _ => rfl

/-- A run over a storage without failures. -/
theorem guardedRun_under {allowed : DrawerStore → StoreCall → Prop}
    {allowed' : DrawerStore → StorageFaults × StoreCall → Prop} {start : DrawerStore}
    (h : GuardedRun (step substrate) allowed start s)
    (hallowed : ∀ s call, allowed s call → allowed' s (.none, call)) :
    GuardedRun (stepUnder substrate) allowed' start s := by
  induction h with
  | start => exact .start
  | next call _ hcall ih =>
    rw [← stepUnder_none]
    exact .next _ ih (hallowed _ call hcall)

/-- The tables and the entries are what the cover speaks of. -/
theorem Covered.congr {s' : DrawerStore} (h : Covered s) (hdrawers : s'.drawers = s.drawers)
    (hnodes : s'.nodes = s.nodes) (hprints : s'.fingerprints = s.fingerprints) : Covered s' :=
  ⟨by rw [hdrawers, hnodes, hprints]; exact h.rows, by rw [hprints]; exact h.rolledUp⟩

theorem Covered.refused {α : Type} {r : EStateM.Result LocusKitError DrawerStore α}
    (h : Covered s) (hr : Refused substrate s now r) : Covered (stateAfter r) := by
  rcases hr.stateAfter with he | he <;> rw [he]
  · exact h
  · exact ⟨h.rows, h.rolledUp⟩

theorem Covered.grown {minted : List String} {nodes : NodeTable} (h : Covered s)
    (hunused : IdsUnused s minted) (hgrown : s.nodes.Grown minted nodes) :
    Covered (s.withNodes nodes) :=
  ⟨h.rows.grown hgrown hunused.1 hunused.2, h.rolledUp⟩

/-- The entries still cover once the bitmaps of a new drawer were added to its room. -/
theorem coversRow_orIn {drawer : Drawer} (hroom : drawer.tombstonedAt = none → ∀ names,
    s.nodes.resolveNodeNames drawer.parentNodeId = some names → names.2 ≠ wingRollupRoom) :
    CoversRow (s.withOrIn drawer).fingerprints s.nodes drawer drawer.bitmaps := by
  intro hlive names hnames
  have hname := hroom hlive names hnames
  rw [withOrIn_fingerprints, hnames, Option.getD_some]
  exact ContainerTable.covers_orIn hname

/-- A tombstoned row need not be covered. -/
theorem AllCovered.scrub {fingerprints : ContainerTable} {nodes : NodeTable}
    {drawers : KeyedTable Drawer.id} (h : AllCovered fingerprints nodes drawers.rows)
    (rowId : String) (adjective : Bitmap) (now : Int) :
    AllCovered fingerprints nodes
      (drawers.update rowId (·.scrub adjective now) fun _ => rfl).rows :=
  h.update _ _ fun _ _ _ hlive => nomatch hlive

theorem SiblingOutcome.covered {headId changedBy : String} {sealAudit : Bool} {headStamp : Hlc}
    {siblingId : String} {r : EStateM.Result LocusKitError DrawerStore Unit}
    (hsibling : SiblingOutcome substrate headId changedBy now sealAudit headStamp s siblingId r)
    (h : Covered s) : Covered (stateAfter r) := by
  cases hsibling with
  | missing => exact h
  | cleared =>
    refine ⟨h.rows.update (·.clearContent) (fun _ => rfl) fun row hrow _ => ?_, h.rolledUp⟩
    exact (h.rows row hrow).transfer rfl id
  | invalid => exact h
  | kept => exact ⟨h.rows, h.rolledUp⟩
  | scrubbed => cases sealAudit <;> exact ⟨h.rows.scrub _ _ _, h.rolledUp⟩

theorem SiblingsRun.covered {headId changedBy : String} {sealAudit : Bool} {headStamp : Hlc}
    {ids : List String} {r : EStateM.Result LocusKitError DrawerStore Unit}
    (hrun : SiblingsRun substrate headId changedBy now sealAudit headStamp s ids r)
    (h : Covered s) : Covered (stateAfter r) := by
  induction hrun with
  | done => exact h
  | next hsibling _ ih => exact ih (hsibling.covered h)
  | failed hsibling => exact hsibling.covered h

theorem ExpungeOutcome.covered {drawerId changedBy : String} {reason : Option String}
    {sealAudit : Bool} {r : EStateM.Result LocusKitError DrawerStore AuditEvent}
    (hexpunge : ExpungeOutcome substrate s drawerId changedBy reason now sealAudit r)
    (h : Covered s) : Covered (stateAfter r) := by
  have hhead : ∀ event, Covered (s.withHead substrate now drawerId event) :=
    fun event => ⟨h.rows.scrub _ _ _, h.rolledUp⟩
  cases hexpunge with
  | refused hr => exact h.refused hr
  | failed _ _ hrun => exact hrun.covered (hhead _)
  | done _ _ hrun =>
    have hs' := hrun.covered (hhead _)
    cases sealAudit
    · exact hs'
    · exact ⟨hs'.rows, hs'.rolledUp⟩

variable (hgate : LawfulGate substrate)

include hgate

/-- The rows after an insertion are covered by larger entries that have the bits of the drawer. -/
theorem Covered.insert {drawer : Drawer} {stored : DrawerStore} {fingerprints : ContainerTable}
    (h : Covered s) (hinsert : InsertOutcome substrate s drawer now (.ok () stored))
    (hgrow : ∀ names bitmaps, s.fingerprints.Covers names bitmaps →
      fingerprints.Covers names bitmaps)
    (hnew : CoversRow fingerprints s.nodes drawer drawer.bitmaps)
    (hflip : ∀ prior ∈ s.drawers.rows,
      s.findActivePredecessor drawer.lineageId drawer.id = some prior.id →
        EditFits substrate s prior.id .supersede .adjective
          [⟨stateSlot, State.superseded.rawValue⟩] drawer.addedBy) :
    AllCovered fingerprints stored.nodes stored.drawers.rows ∧ stored.nodes = s.nodes ∧
      stored.fingerprints = s.fingerprints :=
  hinsert.covered hgate (h.rows.mono hgrow) hnew fun row hrow hprior =>
    (hflip row hrow hprior row hrow rfl).imp_right (·.mono fun names => hgrow names _)

/-- Bits that a room has already may go into its entry and not into the roll-up. -/
theorem Covered.insert_roomOnly {drawer : Drawer} {stored : DrawerStore} {wing room : String}
    (h : Covered s) (hinsert : InsertOutcome substrate s drawer now (.ok () stored))
    (hcovers : CoversRow s.fingerprints s.nodes drawer drawer.bitmaps) (hroom : HasBits s drawer)
    (hflip : ∀ prior ∈ s.drawers.rows,
      s.findActivePredecessor drawer.lineageId drawer.id = some prior.id →
        EditFits substrate s prior.id .supersede .adjective
          [⟨stateSlot, State.superseded.rawValue⟩] drawer.addedBy)
    (hnames : (wing, room) =
      (stored.nodes.resolveNodeNames drawer.parentNodeId).getD ("", "")) :
    AllCovered (s.fingerprints.orInto wing room drawer.bitmaps) stored.nodes stored.drawers.rows ∧
      stored.fingerprints = s.fingerprints ∧
      (s.fingerprints.orInto wing room drawer.bitmaps).RolledUp := by
  have hgrow : ∀ names bitmaps, s.fingerprints.Covers names bitmaps →
      (s.fingerprints.orInto wing room drawer.bitmaps).Covers names bitmaps :=
    fun _ _ hcov => hcov.orInto
  obtain ⟨hrows, hnodes, hprints⟩ := h.insert hgate hinsert hgrow
    (hcovers.mono fun names => hgrow names _) hflip
  rw [hnodes] at hnames
  refine ⟨hrows, hprints, h.rolledUp.orInto ?_⟩
  cases hresolve : s.nodes.resolveNodeNames drawer.parentNodeId with
  | none =>
    rw [hresolve] at hnames
    exact Or.inl (congrArg Prod.snd hnames)
  | some names =>
    rw [hresolve] at hnames
    exact Or.inr (hnames ▸ hroom names hresolve)

theorem Covered.addDrawerUnder {faults : StorageFaults} {drawer : Drawer} (h : Covered s)
    (hfits : CaptureFits substrate faults s drawer now) :
    Covered (stateAfter (DrawerStore.addDrawerUnder substrate faults drawer now s)) := by
  obtain ⟨-, e, s', hr, hdrawers, -, hnodes, hprints⟩ | ⟨hstores, hends⟩ :=
    @addDrawerUnder_cases substrate faults s drawer now _ rfl
  · rw [hr, stateAfter_error]
    exact h.congr hdrawers hnodes hprints
  obtain ⟨hflip, hbits⟩ := hfits hstores
  cases hrun : DrawerStore.addDrawerUnder substrate faults drawer now s with
  | ok u s' =>
    have hplain := addDrawerUnder_follows substrate faults drawer now s () s' hrun
    cases addDrawer_outcome hplain with
    | @added stored hinsert =>
      have hgrow : ∀ names bitmaps, s.fingerprints.Covers names bitmaps →
          (s.withOrIn drawer).fingerprints.Covers names bitmaps := fun _ _ hcov => hcov.orIn
      have hnew : CoversRow (s.withOrIn drawer).fingerprints s.nodes drawer drawer.bitmaps :=
        hbits.elim (fun hnamed => coversRow_orIn hnamed.2) fun hcovers =>
          hcovers.1.mono fun names => hgrow names _
      obtain ⟨hrows, hnodes, hprints⟩ := h.insert hgate hinsert hgrow hnew hflip
      have hsame : (stored.withOrIn drawer).fingerprints = (s.withOrIn drawer).fingerprints := by
        rw [withOrIn_fingerprints, withOrIn_fingerprints, hprints, hnodes]
      refine ⟨?_, ?_⟩
      · rw [stateAfter_ok, hsame]; exact hrows
      · rw [stateAfter_ok, hsame]; exact h.rolledUp.orIn
  | error e s' =>
    obtain ⟨hcovers, hroom⟩ := hbits.resolve_left fun hcompletes => by
      obtain ⟨s₁, hok⟩ := hends.ok_iff.mpr hcompletes.1
      cases hrun.symm.trans hok
    rw [stateAfter_error]
    obtain rfl | ⟨hby, hinsert | ⟨stored, hinsert, horIn⟩⟩ := addDrawerUnder_error hrun
    · exact h
    · obtain ⟨hdrawers | hinserted, hnodes, hprints⟩ := insertWithPredecessorUnder_error hby hinsert
      · exact h.congr hdrawers hnodes hprints
      · refine ⟨?_, by rw [hprints]; exact h.rolledUp⟩
        rw [hnodes, hprints, (KeyedTable.insert?_eq_some_iff.mp hinserted).2]
        exact h.rows.append hcovers
    · have houtcome := insertWithPredecessor_outcome
        (insertWithPredecessorUnder_follows substrate faults drawer now s () stored hinsert)
      obtain rfl | ⟨halone, wing, room, hnames, rfl⟩ := orInContainerUnder_error horIn
      · obtain ⟨hrows, hnodes, hprints⟩ := h.insert hgate houtcome (fun _ _ => id) hcovers hflip
        exact ⟨by rw [hprints]; exact hrows, by rw [hprints]; exact h.rolledUp⟩
      · obtain ⟨hrows, hprints, hrolled⟩ :=
          h.insert_roomOnly hgate houtcome hcovers (hroom halone) hflip hnames
        rw [← hprints] at hrows hrolled
        exact ⟨hrows, hrolled⟩

omit hgate in
theorem ReanchorOutcome.covered {drawerId : String} {toRoom toWing : Option String}
    {toLattice : Option LatticeAnchor} {changedBy : String} {reason : Option String}
    {minted : MintedIds} {r : EStateM.Result LocusKitError DrawerStore Unit}
    (hmove : ReanchorOutcome substrate s drawerId toRoom toWing toLattice changedBy reason now
      minted r)
    (h : Covered s) (hunused : IdsUnused s [minted.wing, minted.room])
    (hfits : ∀ row ∈ s.drawers.rows, row.id = drawerId →
      WriteRefused substrate s row .mutate []
        (substrate.udcAnchor ((toLattice.map (·.udcCode)).getD row.udcCode)) changedBy ∨
      MoveFits substrate s row toRoom toWing) :
    Covered (stateAfter r) := by
  cases hmove with
  | refused hr => exact h.refused hr
  | failed hnodes => exact ⟨(h.grown hunused hnodes).rows, h.rolledUp⟩
  | @moved row event nodes toParent hid hadm hnodes hdest =>
    subst hid
    have hrow := (KeyedTable.find?_eq_some_iff.mp hadm.found).1
    obtain ⟨rowUuid, hparse, hok⟩ := hadm.gate
    have hmoves := (hfits row hrow rfl).resolve_left fun hrefused => hrefused _ _ _ hparse hok
    have hgrown := (h.grown hunused hnodes).rows
    have hnames := destinationRoom_names (s := s.ticked substrate now) hunused.1 hdest
    refine ⟨hgrown.update (·.replace toLattice toParent) (Drawer.replace_id toLattice toParent)
      fun old hold hid => ?_, h.rolledUp⟩
    obtain rfl : old = row := KeyedTable.eq_of_key_eq hold hrow hid
    rw [Drawer.replace_bitmaps]
    cases toParent with
    | none => exact (hgrown old hold).transfer (by simp) (by simp)
    | some parentNodeId =>
      intro hlive names hresolve
      rw [Drawer.replace_tombstonedAt] at hlive
      rw [Drawer.replace_parentNodeId, Option.getD_some] at hresolve
      exact hmoves hlive names (hnames ▸ hresolve)

theorem Covered.step {call : StoreCall} (h : Covered s) (hmints : MintsUnused s call)
    (hcall : CoverageGuarded substrate .none s call) : Covered (s.step substrate call) := by
  rw [DrawerStore.step]
  cases call with
  | addDrawer drawer now =>
    have hadded := h.addDrawerUnder hgate hcall
    rwa [addDrawerUnder_none] at hadded
  | mutateColumn column =>
    obtain hr | ⟨row, event, hid, hadm, hr⟩ := mutateColumn_cases rfl
    · exact h.refused hr
    · rw [StoreCall.run, hr]
      subst hid
      exact ⟨hadm.covered hgate _ h.rows (hcall.covers hadm), h.rolledUp⟩
  | mutateState =>
    obtain hr | ⟨row, event, hid, hadm, hr⟩ := mutateState_cases rfl
    · exact h.refused hr
    · rw [StoreCall.run, hr]
      subst hid
      exact ⟨hadm.covered hgate _ h.rows (hcall.covers hadm), h.rolledUp⟩
  | expungeGated =>
    rw [StoreCall.run, stateAfter_dropAnswer]
    exact (expungeGated_outcome rfl).covered h
  | sealExpungeAudit => exact ⟨h.rows, h.rolledUp⟩
  | sealExpungeOrphanAudit => exact ⟨h.rows, h.rolledUp⟩
  | sealExpungeOrphanForSweep =>
    obtain ⟨e, hr⟩ | ⟨row, rowUuid, eventId, -, -, hr⟩ := sealExpungeOrphanForSweep_cases rfl <;>
      rw [StoreCall.run, hr]
    · exact h
    · exact ⟨h.rows, h.rolledUp⟩
  | reanchorGated => exact (reanchorGated_outcome rfl).covered h hmints hcall
  | rebuildContainerFingerprints =>
    refine ⟨fun row hrow hlive names hnames => ?_, h.rolledUp.rebuildAll⟩
    -- a covered drawer does not lie in a room without a name
    obtain ⟨entry, hentry, heq, -⟩ := h.rows row hrow hlive names hnames
    refine ContainerTable.covers_rebuildAll (List.mem_filter.mpr ⟨hrow, ?_⟩) hnames ?_
    · rw [hlive]; rfl
    · rw [← heq]; exact (ContainerTable.mem_roomLevelEntries.mp hentry).1
  | reopen =>
    obtain ⟨e, hr⟩ | ⟨uuid, -, hr⟩ := reopen_cases rfl <;> rw [StoreCall.run, hr]
    · exact h
    · exact ⟨h.rows, h.rolledUp⟩
  | createNode =>
    rw [StoreCall.run, stateAfter_dropAnswer]
    obtain ⟨e, hr⟩ | ⟨node, nodes, hok, hr⟩ := createNode_cases rfl <;> rw [hr]
    · exact h
    · exact h.grown hmints (NodeTable.createNode_ok hok).1
  | createRoot =>
    rw [StoreCall.run, stateAfter_dropAnswer]
    obtain ⟨e, hr⟩ | ⟨node, nodes, hok, hr⟩ := createRoot_cases rfl <;> rw [hr]
    · exact h
    · exact h.grown hmints (NodeTable.createRoot_grown hok)

theorem Covered.stepUnder {call : StorageFaults × StoreCall} (h : Covered s)
    (hmints : MintsUnused s call.2) (hcall : CoverageGuarded substrate call.1 s call.2) :
    Covered (s.stepUnder substrate call) := by
  obtain ⟨faults, call⟩ := call
  cases call with
  | addDrawer => exact h.addDrawerUnder hgate hcall
  | _ => exact h.step hgate hmints hcall

end Calls

theorem covered_fresh (owner : String) : Covered (fresh owner) :=
  ⟨fun _ hrow => (nomatch hrow), fun entry hentry => by
    obtain ⟨-, hget⟩ := ContainerTable.mem_roomLevelEntries.mp hentry
    cases hget⟩

/-- In a run that sets no bit and moves no row past the entry of its room, the entries cover every
drawer that is not tombstoned, and the roll-up of a wing covers its rooms. -/
theorem fingerprints_cover_drawers {substrate : Substrate} (hgate : LawfulGate substrate)
    {owner : String} {s : DrawerStore}
    (hrun : GuardedRun (stepUnder substrate)
      (fun s call => MintsUnused s call.2 ∧ CoverageGuarded substrate call.1 s call.2)
      (fresh owner) s) :
    (∀ row ∈ s.drawers.rows, row.tombstonedAt = none → ∀ names,
      s.nodes.resolveNodeNames row.parentNodeId = some names →
        s.fingerprints.Covers names row.bitmaps) ∧
    ∀ entry ∈ s.fingerprints.roomLevelEntries, ∀ rollup,
      s.fingerprints.get entry.wing wingRollupRoom = some rollup → entry.fingerprint ≤ rollup := by
  have hcovered := hrun.invariant (covered_fresh owner) fun _ _ h hcall =>
    h.stepUnder hgate hcall.1 hcall.2
  refine ⟨hcovered.rows, fun entry hentry rollup hrollup => ?_⟩
  obtain ⟨found, hfound, hle⟩ := hcovered.rolledUp entry hentry
  rw [hrollup, Option.some.injEq] at hfound
  exact hfound ▸ hle

/-- A store with one room. -/
def furnished : DrawerStore :=
  [StoreCall.createRoot "estate" "root", .createNode "Wing" "root" "wing",
    .createNode "Room" "wing" "room"].foldl (step referenceSubstrate) (fresh "alice")

theorem furnished_run {allowed : DrawerStore → StoreCall → Prop}
    (hroot : ∀ s name minted, IdsUnused s [minted] → allowed s (.createRoot name minted))
    (hnode : ∀ s name parentId minted, IdsUnused s [minted] →
      allowed s (.createNode name parentId minted)) :
    GuardedRun (step referenceSubstrate) allowed (fresh "alice") furnished := by
  have hwing : IdsUnused ((fresh "alice").step referenceSubstrate (.createRoot "estate" "root"))
      ["wing"] := by decide +kernel
  have hroom : IdsUnused (((fresh "alice").step referenceSubstrate (.createRoot "estate" "root")).step
      referenceSubstrate (.createNode "Wing" "root" "wing")) ["room"] := by decide +kernel
  exact .next (StoreCall.createNode "Room" "wing" "room")
    (.next _ (.next _ .start (hroot _ _ _ (by decide))) (hnode _ _ _ _ hwing))
    (hnode _ _ _ _ hroom)

/-- A capture of a flagged drawer into the room. -/
def flaggedCapture (digit : String) (lineageId : Uuid) (now : Int) : StoreCall :=
  .addDrawer { referenceDrawer digit lineageId now with bitmaps := ⟨0, 0x1000, 0⟩ } now

/-- The roll-up of a wing cannot be written. -/
def rollupFault : StorageFaults :=
  fun access => if access = .writeWing then some "disk I/O error" else none

/-- The room after a flagged capture. -/
def flaggedRoom : DrawerStore := furnished.stepUnder referenceSubstrate (.none, flaggedCapture "1" 1 5)

/-- The room after another one, which fails at the roll-up. -/
def brokenRollup : DrawerStore :=
  flaggedRoom.stepUnder referenceSubstrate (rollupFault, flaggedCapture "2" 2 6)

theorem captureFits_first : CoverageGuarded referenceSubstrate .none furnished
    (flaggedCapture "1" 1 5) := by
  have hempty : furnished.drawers.rows = [] := by decide +kernel
  have hnames : furnished.nodes.resolveNodeNames "room" = some ("Wing", "Room") := by
    decide +kernel
  refine fun _ => ⟨fun prior hprior => ?_, Or.inl ⟨?_, fun _ names hresolve => ?_⟩⟩
  · rw [hempty] at hprior
    cases hprior
  · rw [CompletesCapture, show furnished.findActivePredecessor _ _ = none by decide +kernel]
    exact fun _ _ => rfl
  · rw [show names = ("Wing", "Room") from Option.some.inj (hresolve.symm.trans hnames)]
    decide

theorem captureFits_second : CoverageGuarded referenceSubstrate rollupFault flaggedRoom
    (flaggedCapture "2" 2 6) := by
  have hnames : flaggedRoom.nodes.resolveNodeNames "room" = some ("Wing", "Room") := by
    decide +kernel
  have hprint : flaggedRoom.fingerprints.get "Wing" "Room" = some ⟨0, 0x1000, 0⟩ := by
    decide +kernel
  have hbits : HasBits flaggedRoom
      { referenceDrawer "2" 2 6 with bitmaps := ⟨0, 0x1000, 0⟩ } := by
    intro names hresolve
    rw [show names = ("Wing", "Room") from Option.some.inj (hresolve.symm.trans hnames)]
    exact ContainerTable.covers_iff.mpr ⟨by decide, _, hprint, le_rfl⟩
  have hnone : flaggedRoom.findActivePredecessor 2 (referenceUuidText "2") = none := by
    decide +kernel
  refine fun _ => ⟨fun prior _ hprior => ?_, Or.inr ⟨fun _ => hbits, fun _ => hbits⟩⟩
  cases hnone.symm.trans hprior

theorem fingerprints_cover_drawers_brokenRollup :
    brokenRollup.drawers.rows.length = 2 ∧
    (∀ row ∈ brokenRollup.drawers.rows, row.tombstonedAt = none → ∀ names,
      brokenRollup.nodes.resolveNodeNames row.parentNodeId = some names →
        brokenRollup.fingerprints.Covers names row.bitmaps) ∧
    ∀ entry ∈ brokenRollup.fingerprints.roomLevelEntries, ∀ rollup,
      brokenRollup.fingerprints.get entry.wing wingRollupRoom = some rollup →
        entry.fingerprint ≤ rollup := by
  have hsound : GuardedRun (step referenceSubstrate)
      (fun s call => MintsUnused s call ∧ CoverageGuarded referenceSubstrate .none s call)
      (fresh "alice") furnished :=
    furnished_run (fun _ _ _ h => ⟨h, trivial⟩) fun _ _ _ _ h => ⟨h, trivial⟩
  have hfurnished : GuardedRun (stepUnder referenceSubstrate)
      (fun s call => MintsUnused s call.2 ∧ CoverageGuarded referenceSubstrate call.1 s call.2)
      (fresh "alice") furnished := guardedRun_under hsound fun _ _ h => h
  have hflagged := hfurnished.next (.none, flaggedCapture "1" 1 5) ⟨trivial, captureFits_first⟩
  have hbroken := hflagged.next (rollupFault, flaggedCapture "2" 2 6) ⟨trivial, captureFits_second⟩
  exact ⟨by decide +kernel,
    fingerprints_cover_drawers lawfulGate_referenceSubstrate hbroken⟩

/-- A plain capture into the room. -/
def roomCapture : StoreCall := .addDrawer (referenceDrawer "1" 1 5) 5

/-- The drawer gets a feature flag that it was captured without. -/
def flagging : StoreCall :=
  .mutateColumn .operational (referenceUuidText "1") 0x1000 "alice" none 6

theorem not_fingerprints_cover_drawers :
    ¬∀ (substrate : Substrate) (owner : String) (s : DrawerStore), LawfulGate substrate →
      GuardedRun (step substrate) MintsUnused (fresh owner) s →
      ∀ row ∈ s.drawers.rows, row.tombstonedAt = none → ∀ names,
        s.nodes.resolveNodeNames row.parentNodeId = some names →
          s.fingerprints.Covers names row.bitmaps := by
  intro h
  have hcovers := h referenceSubstrate "alice" _ lawfulGate_referenceSubstrate
    (.next flagging (.next roomCapture (furnished_run (fun _ _ _ h => h) fun _ _ _ _ h => h)
      trivial) trivial)
  obtain ⟨row, hrow, hlive, hnames, hnone⟩ : ∃ row ∈ ((furnished.step referenceSubstrate
      roomCapture).step referenceSubstrate flagging).drawers.rows, row.tombstonedAt = none ∧
      ((furnished.step referenceSubstrate roomCapture).step referenceSubstrate
        flagging).nodes.resolveNodeNames row.parentNodeId = some ("Wing", "Room") ∧
      ∀ entry ∈ ((furnished.step referenceSubstrate roomCapture).step referenceSubstrate
        flagging).fingerprints.rows, ¬row.bitmaps ≤ entry.fingerprint := by decide +kernel
  obtain ⟨entry, hentry, -, hle⟩ := hcovers row hrow hlive _ hnames
  obtain ⟨-, hget⟩ := ContainerTable.mem_roomLevelEntries.mp hentry
  exact hnone entry (ContainerTable.get_eq_some.mp hget) hle

end DrawerStore

end MootMemory
