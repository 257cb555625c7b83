import MootMemory.ReferenceSubstrate
import MootMemory.StorageFaults
import MootMemory.StoreCalls

namespace MootMemory

/-- Which drawer lies where. -/
def Drawer.placement (drawer : Drawer) : String × String := (drawer.id, drawer.parentNodeId)

namespace DrawerStore

/-- The accesses of the flip of a predecessor. -/
def flipAccesses : List CaptureAccess := [.readState, .readUdc, .readPrint, .flipTransaction]

/-- The accesses that add a stored drawer to the fingerprints of its container. -/
def containerAccesses : List CaptureAccess :=
  [.openContainers, .resolveContainer, .readRoom, .writeRoom, .readWing, .writeWing]

/-- The bitmaps get into the room, but not into the roll-up of its wing. -/
def WritesRoomOnly (faults : StorageFaults) : Prop :=
  (∀ access ∈ [CaptureAccess.openContainers, .resolveContainer, .readRoom, .writeRoom],
    faults access = none) ∧ (faults .readWing ≠ none ∨ faults .writeWing ≠ none)

/-- The arguments are accepted. -/
def ValidDrawer (drawer : Drawer) : Prop :=
  drawer.parentNodeId ≠ "" ∧ drawer.content ≠ "" ∧ drawer.addedBy ≠ "" ∧
    drawer.embeddingModelId ≠ ""

section Stages

variable (substrate : Substrate) (faults : StorageFaults) (s : DrawerStore) (drawer : Drawer)

def Intact (accesses : List CaptureAccess) : Prop := ∀ access ∈ accesses, faults access = none

/-- The id is free, the gate admits the capture, and its transaction goes through. -/
def StoresRow (now : Int) : Prop :=
  faults .captureTransaction = none ∧ ∃ drawers event, Captured substrate s now drawer drawers event

/-- The insertion of the tunnel goes through. -/
def StoresTunnel (priorId : String) : Prop :=
  faults .insertTunnel = none ∧
    ∀ tunnel ∈ s.tunnels.rows, tunnel.id ≠ "supersedes:" ++ drawer.id ++ ":" ++ priorId

/-- The gate lets the drawer supersede its predecessor. -/
def SupersedeAdmitted (priorId : String) : Prop :=
  priorId ≠ "" ∧ ∃ row event, row.id = priorId ∧
    Admitted substrate s drawer.filedAt row .supersede [⟨stateSlot, State.superseded.rawValue⟩]
      (substrate.udcAnchor row.udcCode) drawer.addedBy event

/-- The predecessor is flipped, and the containers get the bitmaps. -/
def Completes (priorId : String) : Prop :=
  SupersedeAdmitted substrate (s.ticked substrate drawer.filedAt) drawer priorId ∧
    Intact faults (flipAccesses ++ containerAccesses)

/-- The call stores the row of the drawer and does not take it away again. -/
def StoresDrawer (now : Int) : Prop :=
  ValidDrawer drawer ∧ faults .findPredecessor = none ∧
    match s.findActivePredecessor drawer.lineageId drawer.id with
    | none => StoresRow substrate faults s drawer now
    | some priorId =>
      Intact faults [.readPredecessor, .resolveNames] ∧
        StoresRow substrate faults s drawer drawer.filedAt ∧
        (StoresTunnel faults s drawer priorId ∨ faults .undoCapture ≠ none)

/-- What follows the stored row goes through: the containers get the bitmaps, and with a
predecessor the tunnel is stored and the predecessor is flipped. -/
def CompletesCapture : Prop :=
  match s.findActivePredecessor drawer.lineageId drawer.id with
  | none => Intact faults containerAccesses
  | some priorId =>
    StoresTunnel faults s drawer priorId ∧ Completes substrate faults s drawer priorId

/-- A call that fails has left the drawers and the tunnels as they were. -/
def KeepsTables {α : Type} (r : EStateM.Result LocusKitError DrawerStore α) : Prop :=
  ∀ e s', r = .error e s' → s'.drawers = s.drawers ∧ s'.tunnels = s.tunnels

/-- The call fails and leaves the tables as they were. -/
def EndsUntouched (r : EStateM.Result LocusKitError DrawerStore Unit) : Prop :=
  ∃ e s', r = .error e s' ∧ s'.drawers = s.drawers ∧ s'.tunnels = s.tunnels ∧
    s'.nodes = s.nodes ∧ s'.fingerprints = s.fingerprints

/-- The call ends with the row of the drawer stored behind the others, and well exactly if it
completes. -/
structure EndsStored (completes : Prop) (r : EStateM.Result LocusKitError DrawerStore Unit) :
    Prop where
  free : ∀ row ∈ s.drawers.rows, row.id ≠ drawer.id
  stored : (stateAfter r).drawers.rows.map Drawer.placement =
    s.drawers.rows.map Drawer.placement ++ [drawer.placement]
  nodes : (stateAfter r).nodes = s.nodes
  tunnels : ∀ tunnel ∈ (stateAfter r).tunnels.rows, tunnel ∈ s.tunnels.rows ∨
    ∃ priorId sourceNames priorNames,
      s.findActivePredecessor drawer.lineageId drawer.id = some priorId ∧
      tunnel = supersedesTunnel drawer priorId sourceNames priorNames
  ok_iff : (∃ s', r = .ok () s') ↔ completes

end Stages

section Outcomes

variable {substrate : Substrate} {faults : StorageFaults} {s : DrawerStore} {drawer : Drawer}
  {now : Int} {α : Type}

theorem keepsTables_ok (a : α) (s' : DrawerStore) : s.KeepsTables (.ok a s') :=
  fun _ _ h => nomatch h

theorem keepsTables_error {e : LocusKitError} {s' : DrawerStore} :
    s.KeepsTables (.error e s' : EStateM.Result LocusKitError DrawerStore α) ↔
      s'.drawers = s.drawers ∧ s'.tunnels = s.tunnels := by
  constructor
  · exact fun h => h e s' rfl
  · rintro h _ _ ⟨⟩
    exact h

theorem Refused.endsUntouched {r : EStateM.Result LocusKitError DrawerStore Unit}
    (h : Refused substrate s now r) : s.EndsUntouched r := by
  obtain ⟨e, rfl | rfl⟩ := h <;> exact ⟨e, _, rfl, rfl, rfl, rfl, rfl⟩

theorem EndsUntouched.here (e : LocusKitError) : s.EndsUntouched (.error e s) :=
  ⟨e, s, rfl, rfl, rfl, rfl, rfl⟩

theorem EndsUntouched.keepsTables {r : EStateM.Result LocusKitError DrawerStore Unit}
    (h : s.EndsUntouched r) : s.KeepsTables r := by
  obtain ⟨e, s', rfl, hdrawers, htunnels, -⟩ := h
  exact keepsTables_error.mpr ⟨hdrawers, htunnels⟩

/-- A stored row shows that the call was not undone. -/
theorem EndsStored.keepsTables_iff {completes : Prop}
    {r : EStateM.Result LocusKitError DrawerStore Unit} (h : s.EndsStored drawer completes r) :
    s.KeepsTables r ↔ completes := by
  rw [← h.ok_iff]
  cases r with
  | ok u s' => exact iff_of_true (keepsTables_ok u s') ⟨s', rfl⟩
  | error e s' =>
    refine iff_of_false (fun hkeeps => ?_) fun hok => (nomatch hok)
    have hstored := congrArg List.length h.stored
    rw [stateAfter_error, (keepsTables_error.mp hkeeps).1] at hstored
    simp at hstored

/-- A capture stores its row, or nothing. -/
theorem gatedCaptureUnder_cases {r : EStateM.Result LocusKitError DrawerStore Unit}
    (h : gatedCaptureUnder substrate faults drawer now s = r) :
    (¬StoresRow substrate faults s drawer now ∧ Refused substrate s now r) ∨
      (StoresRow substrate faults s drawer now ∧ ∃ drawers event,
        Captured substrate s now drawer drawers event ∧
        r = .ok () (s.withCapture substrate now drawers event)) := by
  rw [gatedCaptureUnder] at h
  obtain ⟨e, huuid, hr⟩ | ⟨rowUuid, huuid, h⟩ := ofExcept_bind_cases h
  · refine Or.inl ⟨?_, hr ▸ .here e⟩
    rintro ⟨-, drawers, event, -, rowUuid, hparse, -⟩
    rw [requireUuid, hparse] at huuid
    cases huuid
  have hparse := requireUuid_eq_ok huuid
  change (admitWrite substrate _ _ now >>= _) s = r at h
  obtain ⟨violation, hno, hr⟩ | ⟨event, hadm, h⟩ := admitWrite_bind_cases h
  · refine Or.inl ⟨?_, hr ▸ .ticked _⟩
    rintro ⟨-, drawers, event, -, rowUuid', hparse', hadm⟩
    cases hparse.symm.trans hparse'
    cases hno.symm.trans hadm
  obtain ⟨hfault, e, hr⟩ | ⟨hfault, h⟩ := touch_bind_cases h
  · exact Or.inl ⟨fun hstores => hfault hstores.1, hr ▸ .ticked e⟩
  change (insertDrawer drawer >>= _) (s.ticked substrate now) = r at h
  cases hinsert : s.drawers.insert? drawer with
  | none =>
    simp only [insertDrawer, bind, EStateM.bind, get_eq,
      ticked_drawers, hinsert] at h
    refine Or.inl ⟨?_, h ▸ .ticked _⟩
    rintro ⟨-, drawers, event, hcaptured⟩
    cases hinsert.symm.trans hcaptured.inserted
  | some drawers =>
    simp only [insertDrawer, bind, EStateM.bind, get_eq,
      ticked_drawers, hinsert] at h
    have hcaptured : Captured substrate s now drawer drawers event :=
      ⟨hinsert, rowUuid, hparse, hadm⟩
    exact Or.inr ⟨⟨hfault, _, _, hcaptured⟩, drawers, event, hcaptured, h.symm⟩

/-- A flip is carried out, or nothing is written. -/
theorem mutateStateUnder_cases {priorId : String}
    {r : EStateM.Result LocusKitError DrawerStore Unit} (hby : drawer.addedBy ≠ "")
    (h : mutateStateUnder substrate faults priorId .superseded .supersede drawer.addedBy
      (cascadeReason drawer) drawer.filedAt s = r) :
    (¬(SupersedeAdmitted substrate s drawer priorId ∧ Intact faults flipAccesses) ∧
        ∃ e s', r = .error e s' ∧ s'.drawers = s.drawers ∧ s'.nodes = s.nodes ∧
          s'.tunnels = s.tunnels ∧ s'.fingerprints = s.fingerprints) ∨
      ((SupersedeAdmitted substrate s drawer priorId ∧ Intact faults flipAccesses) ∧
        ∃ event, r = .ok () (s.withState substrate drawer.filedAt priorId event
          (cascadeReason drawer))) := by
  rw [mutateStateUnder] at h
  obtain ⟨e, hid, hr⟩ | ⟨_, hid, h⟩ := ofExcept_bind_cases h
  · refine Or.inl ⟨?_, e, s, hr, rfl, rfl, rfl, rfl⟩
    rintro ⟨⟨hne, -⟩, -⟩
    cases hid.symm.trans (validateNonEmpty_eq_ok (u := ()) |>.mpr hne)
  obtain ⟨e, hno, -⟩ | ⟨_, -, h⟩ := ofExcept_bind_cases h
  · cases hno.symm.trans (validateNonEmpty_eq_ok (u := ()) |>.mpr hby)
  obtain ⟨hfault, e, hr⟩ | ⟨hstate, h⟩ := touch_bind_cases h
  · exact Or.inl ⟨fun hall => hfault (hall.2 _ (by decide)), e, s, hr, rfl, rfl, rfl, rfl⟩
  obtain ⟨hmissing, hr⟩ | ⟨row, hfind, hrow, h⟩ := readDrawer_bind_cases h
  · refine Or.inl ⟨?_, _, s, hr, rfl, rfl, rfl, rfl⟩
    rintro ⟨⟨-, row, event, rfl, hadm⟩, -⟩
    cases hmissing.symm.trans hadm.found
  obtain ⟨e, huuid, hr⟩ | ⟨rowUuid, huuid, h⟩ := ofExcept_bind_cases h
  · refine Or.inl ⟨?_, e, s, hr, rfl, rfl, rfl, rfl⟩
    rintro ⟨⟨-, row, event, rfl, hadm⟩, -⟩
    obtain ⟨rowUuid, hparse, -⟩ := hadm.gate
    rw [requireUuid, hparse] at huuid
    cases huuid
  obtain ⟨hfault, e, hr⟩ | ⟨hudc, h⟩ := touch_bind_cases h
  · exact Or.inl ⟨fun hall => hfault (hall.2 _ (by decide)), e, s, hr, rfl, rfl, rfl, rfl⟩
  have hparse := requireUuid_eq_ok huuid
  subst hrow
  change (admitWrite substrate _ _ drawer.filedAt >>= _) s = r at h
  obtain ⟨violation, hno, hr⟩ | ⟨event, hadm, h⟩ := admitWrite_bind_cases h
  · refine Or.inl ⟨?_, _, _, hr, rfl, rfl, rfl, rfl⟩
    rintro ⟨⟨-, row', event, hid', hadm'⟩, -⟩
    have hsame : row' = row := by
      have hfound := hadm'.found
      rw [hid', hfind] at hfound
      exact (Option.some.inj hfound).symm
    subst hsame
    obtain ⟨rowUuid', hparse', hadm'⟩ := hadm'.gate
    cases hparse.symm.trans hparse'
    cases hno.symm.trans hadm'
  obtain ⟨hfault, e, hr⟩ | ⟨hprint, h⟩ := touch_bind_cases h
  · exact Or.inl ⟨fun hall => hfault (hall.2 _ (by decide)), e, _, hr, rfl, rfl, rfl, rfl⟩
  obtain ⟨hfault, e, hr⟩ | ⟨hflip, h⟩ := touch_bind_cases h
  · exact Or.inl ⟨fun hall => hfault (hall.2 _ (by decide)), e, _, hr, rfl, rfl, rfl, rfl⟩
  refine Or.inr ⟨⟨⟨validateNonEmpty_eq_ok.mp hid, row, event, rfl, hfind, rowUuid, hparse, hadm⟩,
    ?_⟩, event, h.symm⟩
  intro access haccess
  simp only [flipAccesses, List.mem_cons, List.not_mem_nil, or_false] at haccess
  obtain rfl | rfl | rfl | rfl := haccess <;> assumption

theorem orIntoUnder_bind_cases {reading writing : CaptureAccess} {wing room : String}
    {bitmaps : BitmapFields} {f : Unit → StoreM α}
    {r : EStateM.Result LocusKitError DrawerStore α}
    (h : (orIntoUnder faults reading writing wing room bitmaps >>= f) s = r) :
    (¬Intact faults [reading, writing] ∧ ∃ e, r = .error e s) ∨
      (Intact faults [reading, writing] ∧
        f () { s with fingerprints := s.fingerprints.orInto wing room bitmaps } = r) := by
  rw [orIntoUnder, bind_assoc] at h
  obtain ⟨hfault, hr⟩ | ⟨hreading, h⟩ := touch_bind_cases h
  · exact Or.inl ⟨fun hall => hfault (hall _ (by simp)), hr⟩
  rw [bind_assoc] at h
  obtain ⟨hfault, hr⟩ | ⟨hwriting, h⟩ := touch_bind_cases h
  · exact Or.inl ⟨fun hall => hfault (hall _ (by simp)), hr⟩
  refine Or.inr ⟨?_, h⟩
  simpa [Intact] using ⟨hreading, hwriting⟩

/-- The containers get the bitmaps, or an access fails; the drawers stay. -/
theorem orInContainerUnder_cases {r : EStateM.Result LocusKitError DrawerStore Unit}
    (h : orInContainerUnder faults drawer s = r) :
    ((stateAfter r).drawers = s.drawers ∧ (stateAfter r).nodes = s.nodes ∧
        (stateAfter r).tunnels = s.tunnels) ∧
      ((∃ s', r = .ok () s') ↔ Intact faults containerAccesses) := by
  have hfail {e : LocusKitError} {s' : DrawerStore} (hr : r = .error e s')
      (hsame : s'.drawers = s.drawers ∧ s'.nodes = s.nodes ∧ s'.tunnels = s.tunnels)
      (hno : ¬Intact faults containerAccesses) :
      ((stateAfter r).drawers = s.drawers ∧ (stateAfter r).nodes = s.nodes ∧
          (stateAfter r).tunnels = s.tunnels) ∧
        ((∃ s', r = .ok () s') ↔ Intact faults containerAccesses) := by
    subst hr
    exact ⟨hsame, iff_of_false (fun hok => nomatch hok) hno⟩
  rw [orInContainerUnder] at h
  obtain ⟨hfault, e, hr⟩ | ⟨hopen, h⟩ := touch_bind_cases h
  · exact hfail hr ⟨rfl, rfl, rfl⟩ fun hall => hfault (hall _ (by decide))
  obtain ⟨hfault, e, hr⟩ | ⟨hnames, h⟩ := touch_bind_cases h
  · exact hfail hr ⟨rfl, rfl, rfl⟩ fun hall => hfault (hall _ (by decide))
  change (orIntoUnder faults .readRoom .writeRoom _ _ _ >>= _) s = r at h
  obtain ⟨hfault, e, hr⟩ | ⟨hroom, h⟩ := orIntoUnder_bind_cases h
  · exact hfail hr ⟨rfl, rfl, rfl⟩ fun hall => hfault fun access ha =>
      hall _ (by revert ha; cases access <;> decide)
  rw [← bind_pure (orIntoUnder _ _ _ _ _ _)] at h
  obtain ⟨hfault, e, hr⟩ | ⟨hwing, h⟩ := orIntoUnder_bind_cases h
  · exact hfail hr ⟨rfl, rfl, rfl⟩ fun hall => hfault fun access ha =>
      hall _ (by revert ha; cases access <;> decide)
  subst h
  refine ⟨⟨rfl, rfl, rfl⟩, iff_of_true ⟨_, rfl⟩ ?_⟩
  intro access haccess
  simp only [Intact, List.forall_mem_cons] at hroom hwing
  simp only [containerAccesses, List.mem_cons, List.not_mem_nil, or_false] at haccess
  obtain rfl | rfl | rfl | rfl | rfl | rfl := haccess
  · exact hopen
  · exact hnames
  · exact hroom.1
  · exact hroom.2.1
  · exact hwing.1
  · exact hwing.2.1

theorem insertTunnelUnder_cases {priorId : String} {sourceNames priorNames : String × String} :
    (StoresTunnel faults s drawer priorId ∧ ∃ tunnels, insertTunnelUnder faults s.tunnels
        (supersedesTunnel drawer priorId sourceNames priorNames) = .ok tunnels ∧
        tunnels.rows = s.tunnels.rows ++ [supersedesTunnel drawer priorId sourceNames priorNames]) ∨
      (¬StoresTunnel faults s drawer priorId ∧ ∃ message, insertTunnelUnder faults s.tunnels
        (supersedesTunnel drawer priorId sourceNames priorNames) = .error message) := by
  rw [insertTunnelUnder]
  cases hfault : faults .insertTunnel with
  | some message =>
    refine Or.inr ⟨fun hstores => ?_, message, rfl⟩
    cases hfault.symm.trans hstores.1
  | none =>
    cases hinsert : s.tunnels.insert? (supersedesTunnel drawer priorId sourceNames priorNames) with
    | some tunnels =>
      obtain ⟨hfree, hrows⟩ := KeyedTable.insert?_eq_some_iff.mp hinsert
      exact Or.inl ⟨⟨hfault, hfree⟩, _, rfl, hrows⟩
    | none =>
      obtain ⟨tunnel, hmem, hid⟩ := KeyedTable.insert?_eq_none_iff.mp hinsert
      exact Or.inr ⟨fun hstores => hstores.2 tunnel hmem hid, _, rfl⟩

theorem map_placement_rewrite {rows : List Drawer} {rowId : String} {f : Drawer → Drawer}
    (hf : ∀ d, (f d).placement = d.placement) :
    (rows.map fun d => if d.id = rowId then f d else d).map Drawer.placement =
      rows.map Drawer.placement := by
  rw [List.map_map]
  refine List.map_congr_left fun d _ => ?_
  rw [Function.comp_apply]
  split
  next => exact hf d
  next => rfl

/-- The gate is asked the same about the predecessor before and after the row is stored. -/
theorem supersedeAdmitted_withCapture {priorId : String} {drawers : KeyedTable Drawer.id}
    {event : AuditEvent} (tunnels : KeyedTable Tunnel.id) (hne : priorId ≠ drawer.id)
    (hcaptured : Captured substrate s drawer.filedAt drawer drawers event) :
    SupersedeAdmitted substrate
        ((s.withCapture substrate drawer.filedAt drawers event).withTunnels tunnels) drawer priorId ↔
      SupersedeAdmitted substrate (s.ticked substrate drawer.filedAt) drawer priorId := by
  obtain ⟨-, hrows⟩ := KeyedTable.insert?_eq_some_iff.mp hcaptured.inserted
  have hfind : ∀ row : Drawer, row.id = priorId →
      (drawers.find? row.id = some row ↔ s.drawers.find? row.id = some row) := by
    intro row hid
    rw [KeyedTable.find?_eq_some_iff, KeyedTable.find?_eq_some_iff, hrows, List.mem_append,
      List.mem_singleton]
    refine and_congr_left fun _ => or_iff_left ?_
    rintro rfl
    exact hne hid.symm
  refine and_congr_right fun _ => exists_congr fun row => exists_congr fun flip =>
    and_congr_right fun hid => ?_
  exact ⟨fun h => ⟨(hfind row hid).mp h.found, h.gate⟩, fun h => ⟨(hfind row hid).mpr h.found, h.gate⟩⟩

/-- What follows a stored row and tunnel keeps the row, and succeeds exactly if it completes. -/
theorem endsStored_completion {priorId : String} {drawers : KeyedTable Drawer.id}
    {event : AuditEvent} {tunnels : KeyedTable Tunnel.id} (hne : priorId ≠ drawer.id)
    (hby : drawer.addedBy ≠ "")
    (hcaptured : Captured substrate s drawer.filedAt drawer drawers event)
    (htunnels : ∀ tunnel ∈ tunnels.rows, tunnel ∈ s.tunnels.rows ∨
      ∃ priorId sourceNames priorNames,
        s.findActivePredecessor drawer.lineageId drawer.id = some priorId ∧
        tunnel = supersedesTunnel drawer priorId sourceNames priorNames) :
    s.EndsStored drawer (Completes substrate faults s drawer priorId)
      ((mutateStateUnder substrate faults priorId .superseded .supersede drawer.addedBy
        (cascadeReason drawer) drawer.filedAt >>= fun _ => orInContainerUnder faults drawer)
          ((s.withCapture substrate drawer.filedAt drawers event).withTunnels tunnels)) := by
  obtain ⟨hfree, hrows⟩ := KeyedTable.insert?_eq_some_iff.mp hcaptured.inserted
  have hplaced : drawers.rows.map Drawer.placement =
      s.drawers.rows.map Drawer.placement ++ [drawer.placement] := by simp [hrows]
  have hadmitted := supersedeAdmitted_withCapture tunnels hne hcaptured
  rw [Completes, ← hadmitted]
  cases hflip : mutateStateUnder substrate faults priorId .superseded .supersede drawer.addedBy
      (cascadeReason drawer) drawer.filedAt
      ((s.withCapture substrate drawer.filedAt drawers event).withTunnels tunnels) with
  | error e s' =>
    simp only [bind, EStateM.bind, hflip]
    obtain ⟨hno, _, _, hr, hdrawers, hnodes, hsame, -⟩ | ⟨-, _, hr⟩ :=
      mutateStateUnder_cases hby hflip
    · cases hr
      refine ⟨hfree, hdrawers ▸ hplaced, hnodes, hsame ▸ htunnels, ?_⟩
      refine iff_of_false (fun hok => nomatch hok) fun hcompletes => hno ⟨hcompletes.1, ?_⟩
      exact fun access ha => hcompletes.2 access (List.mem_append_left _ ha)
    · cases hr
  | ok u s' =>
    simp only [bind, EStateM.bind, hflip]
    obtain ⟨-, _, _, hr, -⟩ | ⟨⟨hgate, hflips⟩, flip, hr⟩ := mutateStateUnder_cases hby hflip
    · cases hr
    cases hr
    generalize hrun : orInContainerUnder faults drawer _ = r
    obtain ⟨⟨hdrawers, hnodes, hsame⟩, hok⟩ := orInContainerUnder_cases hrun
    refine ⟨hfree, ?_, hnodes, hsame ▸ htunnels, hok.trans ?_⟩
    · rw [hdrawers]
      exact (map_placement_rewrite (f := (·.setAdjective flip.afterBitmaps.adjective))
        fun _ => rfl).trans hplaced
    · rw [and_iff_right hgate]
      refine ⟨fun hall access ha => ?_, fun hall access ha =>
        hall access (List.mem_append_right _ ha)⟩
      obtain ha | ha := List.mem_append.mp ha
      · exact hflips access ha
      · exact hall access ha

/-- What follows a capture runs over the stored row, unless the capture stores nothing. -/
theorem gatedCaptureUnder_bind_cases {f : Unit → StoreM Unit}
    {r : EStateM.Result LocusKitError DrawerStore Unit}
    (hrun : (gatedCaptureUnder substrate faults drawer now >>= f) s = r) :
    (¬StoresRow substrate faults s drawer now ∧ s.EndsUntouched r) ∨
      (StoresRow substrate faults s drawer now ∧ ∃ drawers event,
        Captured substrate s now drawer drawers event ∧
        f () (s.withCapture substrate now drawers event) = r) := by
  cases hcapture : gatedCaptureUnder substrate faults drawer now s with
  | error e s₁ =>
    simp only [bind, EStateM.bind, hcapture] at hrun
    subst hrun
    obtain ⟨hno, hr⟩ | ⟨-, _, _, -, hr⟩ := gatedCaptureUnder_cases hcapture
    · exact Or.inl ⟨hno, hr.endsUntouched⟩
    · cases hr
  | ok u s₁ =>
    simp only [bind, EStateM.bind, hcapture] at hrun
    obtain ⟨-, _, hr | hr⟩ | ⟨hstores, drawers, event, hcaptured, hr⟩ :=
      gatedCaptureUnder_cases hcapture
    · cases hr
    · cases hr
    cases hr
    exact Or.inr ⟨hstores, drawers, event, hcaptured, hrun⟩

/-- Over the stored row the tunnel is stored, or the row is taken back where that goes through. -/
theorem insertTunnelOrUndoUnder_bind_cases {priorId : String}
    {sourceNames priorNames : String × String} {drawers : KeyedTable Drawer.id} {event : AuditEvent}
    {f : Unit → StoreM Unit} {r : EStateM.Result LocusKitError DrawerStore Unit}
    (hinserted : s.drawers.insert? drawer = some drawers)
    (hrun : (insertTunnelOrUndoUnder faults (supersedesTunnel drawer priorId sourceNames priorNames)
      drawer.id >>= f) (s.withCapture substrate now drawers event) = r) :
    (StoresTunnel faults s drawer priorId ∧ ∃ tunnels,
        tunnels.rows = s.tunnels.rows ++ [supersedesTunnel drawer priorId sourceNames priorNames] ∧
        f () ((s.withCapture substrate now drawers event).withTunnels tunnels) = r) ∨
      (¬StoresTunnel faults s drawer priorId ∧
        ((faults .undoCapture ≠ none ∧
            ∃ e, r = .error e (s.withCapture substrate now drawers event)) ∨
          (faults .undoCapture = none ∧ s.EndsUntouched r))) := by
  obtain ⟨htunnel, tunnels, hinsert, htunnels⟩ | ⟨htunnel, message, hinsert⟩ :=
    @insertTunnelUnder_cases faults s drawer priorId sourceNames priorNames
  · simp only [insertTunnelOrUndoUnder, bind, EStateM.bind, get_eq, withCapture_tunnels,
      hinsert] at hrun
    exact Or.inl ⟨htunnel, tunnels, htunnels, hrun⟩
  refine Or.inr ⟨htunnel, ?_⟩
  cases hundo : faults .undoCapture with
  | some text =>
    simp only [insertTunnelOrUndoUnder, undoCaptureUnder, hundo, bind, EStateM.bind, get_eq,
      withCapture_tunnels, hinsert] at hrun
    exact Or.inl ⟨Option.some_ne_none text, _, hrun.symm⟩
  | none =>
    simp only [insertTunnelOrUndoUnder, undoCaptureUnder, hundo, bind, EStateM.bind, get_eq,
      withCapture_tunnels, hinsert] at hrun
    exact Or.inr ⟨rfl, _, _, hrun.symm, KeyedTable.erase_of_insert? hinserted, rfl, rfl, rfl⟩

/-- A capture over a predecessor. -/
theorem addDrawerWithCascadeUnder_cases {priorId : String} (hby : drawer.addedBy ≠ "")
    (hlookup : s.findActivePredecessor drawer.lineageId drawer.id = some priorId)
    {r : EStateM.Result LocusKitError DrawerStore Unit}
    (hrun : (addDrawerWithCascadeUnder substrate faults drawer priorId >>= fun _ =>
      orInContainerUnder faults drawer) s = r) :
    (¬(Intact faults [.readPredecessor, .resolveNames] ∧
        StoresRow substrate faults s drawer drawer.filedAt ∧
        (StoresTunnel faults s drawer priorId ∨ faults .undoCapture ≠ none)) ∧
      s.EndsUntouched r) ∨
    ((Intact faults [.readPredecessor, .resolveNames] ∧
        StoresRow substrate faults s drawer drawer.filedAt ∧
        (StoresTunnel faults s drawer priorId ∨ faults .undoCapture ≠ none)) ∧
      s.EndsStored drawer
        (StoresTunnel faults s drawer priorId ∧ Completes substrate faults s drawer priorId) r) := by
  obtain ⟨row, hrow, hid, -, hne, -⟩ := findActivePredecessor_eq_some hlookup
  simp only [addDrawerWithCascadeUnder, bind_assoc] at hrun
  obtain ⟨hfault, e, rfl⟩ | ⟨hread, hrun⟩ := touch_bind_cases hrun
  · exact Or.inl ⟨fun h => hfault (h.1 _ (by simp)), .here e⟩
  obtain ⟨hmissing, -⟩ | ⟨prior, -, -, hrun⟩ := readDrawer_bind_cases hrun
  · exact absurd hid (KeyedTable.find?_eq_none_iff.mp hmissing row hrow)
  obtain ⟨hfault, e, rfl⟩ | ⟨hnames, hrun⟩ := touch_bind_cases hrun
  · exact Or.inl ⟨fun h => hfault (h.1 _ (by simp)), .here e⟩
  have hintact : Intact faults [.readPredecessor, .resolveNames] := by
    simpa [Intact] using ⟨hread, hnames⟩
  obtain ⟨hno, hends⟩ | ⟨hstores, drawers, event, hcaptured, hrun⟩ :=
    gatedCaptureUnder_bind_cases hrun
  · exact Or.inl ⟨fun h => hno h.2.1, hends⟩
  obtain ⟨htunnel, tunnels, htunnels, hrun⟩ | ⟨htunnel, ⟨hundo, e, hr⟩ | ⟨hundo, hends⟩⟩ :=
    insertTunnelOrUndoUnder_bind_cases hcaptured.inserted hrun
  · subst hrun
    rw [and_iff_right htunnel]
    refine Or.inr ⟨⟨hintact, hstores, Or.inl htunnel⟩,
      endsStored_completion hne hby hcaptured fun tunnel hmem => ?_⟩
    rw [htunnels, List.mem_append, List.mem_singleton] at hmem
    exact hmem.imp_right fun heq => ⟨priorId, _, _, hlookup, heq⟩
  · subst hr
    obtain ⟨hfree, hrows⟩ := KeyedTable.insert?_eq_some_iff.mp hcaptured.inserted
    refine Or.inr ⟨⟨hintact, hstores, Or.inr hundo⟩, hfree, ?_, rfl, fun _ => Or.inl, ?_⟩
    · change drawers.rows.map Drawer.placement = _
      simp [hrows]
    · refine iff_of_false ?_ fun h => htunnel h.1
      rintro ⟨_, hok⟩
      cases hok
  · refine Or.inl ⟨?_, hends⟩
    rintro ⟨-, -, hno | hno⟩
    · exact htunnel hno
    · exact hno hundo

/-- A capture without a predecessor. -/
theorem gatedCaptureUnder_orIn_cases {r : EStateM.Result LocusKitError DrawerStore Unit}
    (hrun : (gatedCaptureUnder substrate faults drawer now >>= fun _ =>
      orInContainerUnder faults drawer) s = r) :
    (¬StoresRow substrate faults s drawer now ∧ s.EndsUntouched r) ∨
      (StoresRow substrate faults s drawer now ∧
        s.EndsStored drawer (Intact faults containerAccesses) r) := by
  obtain hno | ⟨hstores, drawers, event, hcaptured, hrun⟩ := gatedCaptureUnder_bind_cases hrun
  · exact Or.inl hno
  obtain ⟨hfree, hrows⟩ := KeyedTable.insert?_eq_some_iff.mp hcaptured.inserted
  obtain ⟨⟨hdrawers, hnodes, hsame⟩, hok⟩ := orInContainerUnder_cases hrun
  refine Or.inr ⟨hstores, hfree, ?_, hnodes, fun _ h => Or.inl (hsame ▸ h), hok⟩
  rw [hdrawers]
  change drawers.rows.map Drawer.placement = _
  simp [hrows]

/-- An adding stores the drawer, or fails and leaves the tables. -/
theorem addDrawerUnder_cases {r : EStateM.Result LocusKitError DrawerStore Unit}
    (hrun : addDrawerUnder substrate faults drawer now s = r) :
    (¬StoresDrawer substrate faults s drawer now ∧ s.EndsUntouched r) ∨
      (StoresDrawer substrate faults s drawer now ∧
        s.EndsStored drawer (CompletesCapture substrate faults s drawer) r) := by
  rw [addDrawerUnder] at hrun
  have hrefused {value label : String} {e : LocusKitError}
      (he : validateNonEmpty value label = .error e) (hvalid : ValidDrawer drawer → value ≠ "") :
      ¬StoresDrawer substrate faults s drawer now ∧ s.EndsUntouched (.error e s) := by
    refine ⟨fun h => ?_, .here e⟩
    cases he.symm.trans (validateNonEmpty_eq_ok.mpr (hvalid h.1) : _ = .ok ())
  obtain ⟨e, he, rfl⟩ | ⟨_, hparent, hrun⟩ := ofExcept_bind_cases hrun
  · exact Or.inl (hrefused he (·.1))
  obtain ⟨e, he, rfl⟩ | ⟨_, hcontent, hrun⟩ := ofExcept_bind_cases hrun
  · exact Or.inl (hrefused he (·.2.1))
  obtain ⟨e, he, rfl⟩ | ⟨_, hby, hrun⟩ := ofExcept_bind_cases hrun
  · exact Or.inl (hrefused he (·.2.2.1))
  obtain ⟨e, he, rfl⟩ | ⟨_, hmodel, hrun⟩ := ofExcept_bind_cases hrun
  · exact Or.inl (hrefused he (·.2.2.2))
  rw [validateNonEmpty_eq_ok] at hparent hcontent hby hmodel
  have hvalid : ValidDrawer drawer := ⟨hparent, hcontent, hby, hmodel⟩
  simp only [insertWithPredecessorUnder, bind_assoc] at hrun
  obtain ⟨hfault, e, rfl⟩ | ⟨hfind, hrun⟩ := touch_bind_cases hrun
  · exact Or.inl ⟨fun h => hfault h.2.1, .here e⟩
  rw [StoresDrawer, CompletesCapture, and_iff_right hvalid, and_iff_right hfind]
  cases hprior : s.findActivePredecessor drawer.lineageId drawer.id with
  | some priorId =>
    simp only [bind, EStateM.bind, get_eq, hprior] at hrun
    exact addDrawerWithCascadeUnder_cases hby hprior hrun
  | none =>
    simp only [bind, EStateM.bind, get_eq, hprior] at hrun
    exact gatedCaptureUnder_orIn_cases hrun

/-- An insertion that fails leaves the rows as they were, or with the new one behind them. -/
theorem insertWithPredecessorUnder_error {e : LocusKitError} {s' : DrawerStore}
    (hby : drawer.addedBy ≠ "")
    (hrun : insertWithPredecessorUnder substrate faults drawer now s = .error e s') :
    (s'.drawers = s.drawers ∨ s.drawers.insert? drawer = some s'.drawers) ∧ s'.nodes = s.nodes ∧
      s'.fingerprints = s.fingerprints := by
  have huntouched (h : s.EndsUntouched (.error e s')) :
      (s'.drawers = s.drawers ∨ s.drawers.insert? drawer = some s'.drawers) ∧
        s'.nodes = s.nodes ∧ s'.fingerprints = s.fingerprints := by
    obtain ⟨_, _, hsame, hdrawers, -, hnodes, hprints⟩ := h
    cases hsame
    exact ⟨Or.inl hdrawers, hnodes, hprints⟩
  rw [insertWithPredecessorUnder] at hrun
  obtain ⟨-, _, hr⟩ | ⟨-, hrun⟩ := touch_bind_cases hrun
  · exact huntouched (hr ▸ .here _)
  cases hprior : s.findActivePredecessor drawer.lineageId drawer.id with
  | none =>
    simp only [bind, EStateM.bind, get_eq, hprior] at hrun
    rw [← bind_pure (gatedCaptureUnder _ _ _ _)] at hrun
    obtain ⟨-, hends⟩ | ⟨-, _, _, -, hr⟩ := gatedCaptureUnder_bind_cases hrun
    · exact huntouched hends
    · cases hr
  | some priorId =>
    simp only [bind, EStateM.bind, get_eq, hprior] at hrun
    rw [addDrawerWithCascadeUnder] at hrun
    obtain ⟨-, _, hr⟩ | ⟨-, hrun⟩ := touch_bind_cases hrun
    · exact huntouched (hr ▸ .here _)
    obtain ⟨-, hr⟩ | ⟨prior, -, -, hrun⟩ := readDrawer_bind_cases hrun
    · exact huntouched (hr ▸ .here _)
    obtain ⟨-, _, hr⟩ | ⟨-, hrun⟩ := touch_bind_cases hrun
    · exact huntouched (hr ▸ .here _)
    obtain ⟨-, hends⟩ | ⟨-, drawers, event, hcaptured, hrun⟩ := gatedCaptureUnder_bind_cases hrun
    · exact huntouched hends
    obtain ⟨-, tunnels, -, hrun⟩ | ⟨-, ⟨-, _, hr⟩ | ⟨-, hends⟩⟩ :=
      insertTunnelOrUndoUnder_bind_cases hcaptured.inserted hrun
    · obtain ⟨-, _, _, hr, hdrawers, hnodes, -, hprints⟩ | ⟨-, _, hr⟩ :=
        mutateStateUnder_cases hby hrun
      · cases hr
        exact ⟨Or.inr (hdrawers ▸ hcaptured.inserted), hnodes, hprints⟩
      · cases hr
    · cases hr
      exact ⟨Or.inr hcaptured.inserted, rfl, rfl⟩
    · exact huntouched hends

/-- The containers fail before the room is written, or between the room and its wing. -/
theorem orInContainerUnder_error {e : LocusKitError} {s' : DrawerStore}
    (hrun : orInContainerUnder faults drawer s = .error e s') :
    s' = s ∨ WritesRoomOnly faults ∧ ∃ wing room,
      (wing, room) = (s.nodes.resolveNodeNames drawer.parentNodeId).getD ("", "") ∧
      s' = { s with fingerprints := s.fingerprints.orInto wing room drawer.bitmaps } := by
  rw [orInContainerUnder] at hrun
  obtain ⟨-, _, hr⟩ | ⟨hopen, hrun⟩ := touch_bind_cases hrun
  · cases hr
    exact Or.inl rfl
  obtain ⟨-, _, hr⟩ | ⟨hnames, hrun⟩ := touch_bind_cases hrun
  · cases hr
    exact Or.inl rfl
  change (orIntoUnder faults .readRoom .writeRoom _ _ _ >>= _) s = .error e s' at hrun
  obtain ⟨-, _, hr⟩ | ⟨hroom, hrun⟩ := orIntoUnder_bind_cases hrun
  · cases hr
    exact Or.inl rfl
  rw [← bind_pure (orIntoUnder _ _ _ _ _ _)] at hrun
  obtain ⟨hwing, _, hr⟩ | ⟨-, hr⟩ := orIntoUnder_bind_cases hrun
  · cases hr
    refine Or.inr ⟨⟨?_, ?_⟩, _, _, rfl, rfl⟩
    · simp only [Intact, List.forall_mem_cons] at hroom
      simpa using ⟨hopen, hnames, hroom.1, hroom.2.1⟩
    · by_contra hnone
      exact hwing (by simpa [Intact, not_or] using hnone)
  · cases hr

/-- An adding fails before it writes, where it inserts, or where it comes to the containers. -/
theorem addDrawerUnder_error {e : LocusKitError} {s' : DrawerStore}
    (hrun : addDrawerUnder substrate faults drawer now s = .error e s') :
    s' = s ∨ drawer.addedBy ≠ "" ∧
      (insertWithPredecessorUnder substrate faults drawer now s = .error e s' ∨
        ∃ stored, insertWithPredecessorUnder substrate faults drawer now s = .ok () stored ∧
          orInContainerUnder faults drawer stored = .error e s') := by
  rw [addDrawerUnder] at hrun
  obtain ⟨_, -, hr⟩ | ⟨_, -, hrun⟩ := ofExcept_bind_cases hrun
  · cases hr
    exact Or.inl rfl
  obtain ⟨_, -, hr⟩ | ⟨_, -, hrun⟩ := ofExcept_bind_cases hrun
  · cases hr
    exact Or.inl rfl
  obtain ⟨_, -, hr⟩ | ⟨_, hby, hrun⟩ := ofExcept_bind_cases hrun
  · cases hr
    exact Or.inl rfl
  obtain ⟨_, -, hr⟩ | ⟨_, -, hrun⟩ := ofExcept_bind_cases hrun
  · cases hr
    exact Or.inl rfl
  refine Or.inr ⟨validateNonEmpty_eq_ok.mp hby, ?_⟩
  change (insertWithPredecessorUnder substrate faults drawer now >>= _) s = .error e s' at hrun
  cases hinsert : insertWithPredecessorUnder substrate faults drawer now s with
  | error e₁ s₁ =>
    simp only [bind, EStateM.bind, hinsert] at hrun
    exact Or.inl hrun
  | ok u stored =>
    simp only [bind, EStateM.bind, hinsert] at hrun
    exact Or.inr ⟨stored, rfl, hrun⟩

end Outcomes

/-- A failing capture leaves the drawers and the tunnels as they were exactly when a stored row of
its drawer is followed by steps that go through. -/
theorem addDrawer_keepsTables_iff (substrate : Substrate) (faults : StorageFaults)
    (s : DrawerStore) (drawer : Drawer) (now : Int) :
    (∀ e s', addDrawerUnder substrate faults drawer now s = .error e s' →
        s'.drawers = s.drawers ∧ s'.tunnels = s.tunnels) ↔
      (StoresDrawer substrate faults s drawer now → CompletesCapture substrate faults s drawer) := by
  change s.KeepsTables (addDrawerUnder substrate faults drawer now s) ↔ _
  obtain ⟨hno, hends⟩ | ⟨hstores, hends⟩ := @addDrawerUnder_cases substrate faults s drawer now _ rfl
  · exact iff_of_true hends.keepsTables fun h => absurd h hno
  · exact hends.keepsTables_iff.trans ⟨fun h _ => h, fun h => h hstores⟩

/-- The gate lets only active and accepted rows be superseded. -/
def SupersedesLiveOnly (substrate : Substrate) : Prop :=
  ∀ request event prior, substrate.gateAdmit request = .ok event → request.verb = .supersede →
    request.prior = some prior → prior.state = .active ∨ prior.state = .accepted

theorem supersedesLiveOnly_referenceSubstrate : SupersedesLiveOnly referenceSubstrate := by
  intro request event prior hadm hverb hprior
  change referenceAdmit request = .ok event at hadm
  simp only [referenceAdmit, hprior, hverb] at hadm
  split at hadm
  next htransition =>
    cases hstate : prior.state <;> simp [hstate, referenceTransition] at htransition ⊢
  next => cases hadm

/-- A drawer whose lineage has a pending member. -/
def pendingPredecessor : List StoreCall :=
  [.reopen (referenceUuidText "a") 5,
    .addDrawer { referenceDrawer "1" 1 5 with bitmaps := ⟨1, 0, 0⟩ } 5]

theorem not_addDrawer_keepsTables :
    ¬∀ (substrate : Substrate) (owner : String) (calls : List StoreCall) (drawer : Drawer)
      (now : Int) (e : LocusKitError) (s' : DrawerStore), SupersedesLiveOnly substrate →
      addDrawer substrate drawer now (calls.foldl (step substrate) (fresh owner)) = .error e s' →
      s'.drawers = (calls.foldl (step substrate) (fresh owner)).drawers ∧
        s'.tunnels = (calls.foldl (step substrate) (fresh owner)).tunnels := by
  intro h
  cases hrun : addDrawer referenceSubstrate (referenceDrawer "2" 1 6) 6
      (pendingPredecessor.foldl (step referenceSubstrate) (fresh "alice")) with
  | ok _ s' =>
    have herror : (match addDrawer referenceSubstrate (referenceDrawer "2" 1 6) 6
        (pendingPredecessor.foldl (step referenceSubstrate) (fresh "alice")) with
      | .ok _ _ => true
      | .error _ _ => false) = false := by decide +kernel
    rw [hrun] at herror
    cases herror
  | error e s' =>
    have hsame := (h referenceSubstrate "alice" pendingPredecessor _ 6 e s'
      supersedesLiveOnly_referenceSubstrate hrun).1
    have hcount : (stateAfter (addDrawer referenceSubstrate (referenceDrawer "2" 1 6) 6
        (pendingPredecessor.foldl (step referenceSubstrate) (fresh "alice")))).drawers.rows.length =
          2 := by decide +kernel
    have hbefore : (pendingPredecessor.foldl (step referenceSubstrate)
        (fresh "alice")).drawers.rows.length = 1 := by decide +kernel
    rw [hrun, stateAfter_error, hsame, hbefore] at hcount
    cases hcount

end DrawerStore

end MootMemory
