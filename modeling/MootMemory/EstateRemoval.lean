import MootMemory.DrawerLineageCases
import MootMemory.EstateVerbs
import MootMemory.MerkleRollup

namespace MootMemory

namespace DrawerStore

variable {substrate : Substrate} {s s' s'' : DrawerStore} {ids : List String}

/-- Rows rewritten where they stand, all of them under the given ids; the nodes stay. -/
structure RewritesOnly (ids : List String) (s s' : DrawerStore) : Prop where
  nodes : s'.nodes = s.nodes
  rows : ∃ f : Drawer → Drawer, s'.drawers.rows = s.drawers.rows.map f ∧
    (∀ d, d.id ∉ ids → f d = d) ∧
    ∀ d, (f d).id = d.id ∧ (f d).parentNodeId = d.parentNodeId ∧ (f d).lineageId = d.lineageId

theorem RewritesOnly.of_same (hnodes : s'.nodes = s.nodes)
    (hrows : s'.drawers.rows = s.drawers.rows) : s.RewritesOnly ids s' :=
  ⟨hnodes, id, hrows.trans (List.map_id _).symm, fun _ _ => rfl, fun _ => ⟨rfl, rfl, rfl⟩⟩

theorem RewritesOnly.trans (h : s.RewritesOnly ids s') (h' : s'.RewritesOnly ids s'') :
    s.RewritesOnly ids s'' := by
  obtain ⟨f, hrows, hkeep, hfix⟩ := h.rows
  obtain ⟨f', hrows', hkeep', hfix'⟩ := h'.rows
  refine ⟨h'.nodes.trans h.nodes, f' ∘ f, by rw [hrows', hrows, List.map_map], fun d hd => ?_,
    fun d => ?_⟩
  · rw [Function.comp_apply, hkeep d hd, hkeep' d hd]
  · obtain ⟨hid, hparent, hlineage⟩ := hfix d
    obtain ⟨hid', hparent', hlineage'⟩ := hfix' (f d)
    exact ⟨hid'.trans hid, hparent'.trans hparent, hlineage'.trans hlineage⟩

theorem RewritesOnly.of_rewritten {rowId : String} {f : Drawer → Drawer}
    (hrows : s'.drawers.rows = s.drawers.rows.map fun d => if d.id = rowId then f d else d)
    (hnodes : s'.nodes = s.nodes) (hmem : rowId ∈ ids) (hid : ∀ d, (f d).id = d.id)
    (hparent : ∀ d, (f d).parentNodeId = d.parentNodeId)
    (hlineage : ∀ d, (f d).lineageId = d.lineageId) : s.RewritesOnly ids s' := by
  refine ⟨hnodes, _, hrows, fun d hd => ?_, fun d => ?_⟩
  · exact if_neg fun heq : d.id = rowId => hd (heq ▸ hmem)
  · show (if d.id = rowId then f d else d).id = _ ∧ (if d.id = rowId then f d else d).parentNodeId = _ ∧
      (if d.id = rowId then f d else d).lineageId = _
    split
    next => exact ⟨hid d, hparent d, hlineage d⟩
    next => exact ⟨rfl, rfl, rfl⟩

theorem RewritesOnly.of_refused {α : Type} {now : Int}
    {r : EStateM.Result LocusKitError DrawerStore α} (h : Refused substrate s now r) :
    s.RewritesOnly ids (stateAfter r) := by
  obtain ⟨e, rfl | rfl⟩ := h
  · exact .of_same rfl rfl
  · exact .of_same rfl rfl

theorem rewritesOnly_mutateState {drawerId changedBy : String} {newState : State} {via : RowVerb}
    {reason : Option String} {now : Int} (hmem : drawerId ∈ ids) :
    s.RewritesOnly ids
      (stateAfter (mutateState substrate drawerId newState via changedBy reason now s)) := by
  generalize hresult : mutateState substrate drawerId newState via changedBy reason now s = r
  obtain hrefused | ⟨row, event, -, -, rfl⟩ := mutateState_cases hresult
  · exact .of_refused hrefused
  · exact .of_rewritten rfl rfl hmem (fun _ => rfl) (fun _ => rfl) fun _ => rfl

theorem SiblingOutcome.rewritesOnly {headId changedBy siblingId : String} {now : Int}
    {sealAudit : Bool} {headStamp : Hlc} {r : EStateM.Result LocusKitError DrawerStore Unit}
    (h : SiblingOutcome substrate headId changedBy now sealAudit headStamp s siblingId r)
    (hmem : siblingId ∈ ids) : s.RewritesOnly ids (stateAfter r) := by
  cases h with
  | missing => exact .of_same rfl rfl
  | cleared => exact .of_rewritten rfl rfl hmem (fun _ => rfl) (fun _ => rfl) fun _ => rfl
  | invalid => exact .of_same rfl rfl
  | kept => exact .of_same rfl rfl
  | scrubbed =>
    cases sealAudit with
    | false => exact .of_rewritten rfl rfl hmem (fun _ => rfl) (fun _ => rfl) fun _ => rfl
    | true => exact .of_rewritten rfl rfl hmem (fun _ => rfl) (fun _ => rfl) fun _ => rfl

theorem SiblingsRun.rewritesOnly {headId changedBy : String} {now : Int} {sealAudit : Bool}
    {headStamp : Hlc} {siblings : List String} {r : EStateM.Result LocusKitError DrawerStore Unit}
    (h : SiblingsRun substrate headId changedBy now sealAudit headStamp s siblings r)
    (hsub : ∀ id ∈ siblings, id ∈ ids) : s.RewritesOnly ids (stateAfter r) := by
  induction h with
  | done => exact .of_same rfl rfl
  | next h hrest ih =>
    exact (h.rewritesOnly (hsub _ List.mem_cons_self)).trans
      (ih fun id hid => hsub id (List.mem_cons_of_mem _ hid))
  | failed h => exact h.rewritesOnly (hsub _ List.mem_cons_self)

theorem mem_lineageChain_self {drawerId : String} {row : Drawer}
    (h : s.drawers.find? drawerId = some row) : drawerId ∈ s.lineageChain drawerId := by
  obtain ⟨hmem, hid⟩ := KeyedTable.find?_eq_some_iff.mp h
  rw [lineageChain, h]
  exact List.mem_map.mpr ⟨row, List.mem_filter.mpr ⟨hmem, beq_self_eq_true _⟩, hid⟩

/-- An expunge rewrites rows of the lineage only, however it ends. -/
theorem rewritesOnly_expungeGated {drawerId changedBy : String} {reason : Option String} {now : Int}
    {sealAudit : Bool} : s.RewritesOnly (s.lineageChain drawerId)
      (stateAfter (expungeGated substrate drawerId changedBy reason now sealAudit s)) := by
  have hsub : ∀ id ∈ s.siblingIds drawerId, id ∈ s.lineageChain drawerId :=
    fun id hid => (List.mem_filter.mp hid).1
  have hhead : ∀ {row event}, row.id = drawerId → Scrubbable substrate s now row changedBy event →
      s.RewritesOnly (s.lineageChain drawerId) (s.withHead substrate now drawerId event) :=
    fun hid hgate => .of_rewritten rfl rfl (mem_lineageChain_self (hid ▸ hgate.found))
      (fun _ => rfl) (fun _ => rfl) fun _ => rfl
  generalize hr : expungeGated substrate drawerId changedBy reason now sealAudit s = r
  cases expungeGated_outcome hr with
  | refused h => exact .of_refused h
  | failed hid hgate hrun => exact (hhead hid hgate).trans (hrun.rewritesOnly hsub)
  | done hid hgate hrun =>
    refine ((hhead hid hgate).trans (hrun.rewritesOnly hsub)).trans ?_
    rw [stateAfter_ok, stateAfter_ok, loggedIf]
    split
    next => exact .of_same rfl rfl
    next => exact .of_same rfl rfl

/-- Every stored drawer has a UUID for its id. -/
def UuidIds (substrate : Substrate) (s : DrawerStore) : Prop :=
  ∀ row ∈ s.drawers.rows, (substrate.parseUuid row.id).isSome

theorem RewritesOnly.exists_row (h : s.RewritesOnly ids s') {row : Drawer}
    (hrow : row ∈ s'.drawers.rows) : ∃ old ∈ s.drawers.rows, row.id = old.id ∧
      row.parentNodeId = old.parentNodeId ∧ row.lineageId = old.lineageId := by
  obtain ⟨f, hrows, -, hfix⟩ := h.rows
  rw [hrows] at hrow
  obtain ⟨old, hold, rfl⟩ := List.mem_map.mp hrow
  exact ⟨old, hold, hfix old⟩

theorem UuidIds.rewrites (h : s.UuidIds substrate) (hwrites : s.RewritesOnly ids s') :
    s'.UuidIds substrate := by
  intro row hrow
  obtain ⟨old, hold, hid, -⟩ := hwrites.exists_row hrow
  rw [hid]
  exact h old hold

theorem expungeSibling_ne_error {headId changedBy siblingId : String} {now : Int}
    {sealAudit : Bool} {headStamp : Hlc} {e : LocusKitError} (huuids : s.UuidIds substrate) :
    expungeSibling substrate headId changedBy now sealAudit headStamp siblingId s ≠ .error e s' := by
  intro h
  cases hfind : s.drawers.find? siblingId with
  | none =>
    simp only [expungeSibling, bind, EStateM.bind, get_eq, hfind] at h
    cases h
  | some row =>
    obtain ⟨hmem, rfl⟩ := KeyedTable.find?_eq_some_iff.mp hfind
    obtain ⟨parsed, hparse⟩ := Option.isSome_iff_exists.mp (huuids row hmem)
    simp only [expungeSibling, bind, EStateM.bind, get_eq, hfind] at h
    split at h
    next => cases h
    next =>
      rw [expungeLiveSibling] at h
      obtain ⟨e', huuid, -⟩ | ⟨rowUuid, -, h⟩ := ofExcept_bind_cases h
      · rw [requireUuid, hparse] at huuid
        cases huuid
      · generalize hgate : substrate.gateAdmit (rowRequest substrate s rowUuid row .tombstone
          (expungeWrites row.bitmaps.adjective) (substrate.udcAnchor row.udcCode) changedBy
          (s.nextStamp substrate now)) = answer at h
        have hrun : admitTombstone substrate rowUuid row changedBy now s =
            .ok answer (s.ticked substrate now) :=
          congrArg (EStateM.Result.ok · (s.ticked substrate now)) hgate
        simp only [bind, EStateM.bind, hrun] at h
        cases answer with
        | error violation => cases h
        | ok event =>
          cases sealAudit with
          | false => cases h
          | true => cases h

theorem expungeSiblings_ne_error {headId changedBy : String} {now : Int} {sealAudit : Bool}
    {headStamp : Hlc} {e : LocusKitError} (siblings : List String) (huuids : s.UuidIds substrate) :
    siblings.forM (expungeSibling substrate headId changedBy now sealAudit headStamp) s ≠
      .error e s' := by
  induction siblings generalizing s with
  | nil =>
    intro h
    cases h
  | cons id siblings ih =>
    intro h
    change ((expungeSibling substrate headId changedBy now sealAudit headStamp id) >>= fun _ =>
      siblings.forM (expungeSibling substrate headId changedBy now sealAudit headStamp)) s = _ at h
    cases hid : expungeSibling substrate headId changedBy now sealAudit headStamp id s with
    | error e after => exact expungeSibling_ne_error huuids hid
    | ok u after =>
      have hrewrites := (expungeSibling_outcome hid).rewritesOnly (List.mem_singleton_self id)
      simp only [bind, EStateM.bind, hid] at h
      exact ih (huuids.rewrites hrewrites) h

/-- An expunge that fails has written nothing. -/
theorem refused_of_expungeGated_error {drawerId changedBy : String} {reason : Option String}
    {now : Int} {sealAudit : Bool} {e : LocusKitError} (huuids : s.UuidIds substrate)
    (h : expungeGated substrate drawerId changedBy reason now sealAudit s = .error e s') :
    Refused substrate s now (.error e s' : EStateM.Result LocusKitError DrawerStore AuditEvent) := by
  rw [expungeGated] at h
  obtain ⟨e', -, hr⟩ | ⟨_, -, h⟩ := ofExcept_bind_cases h
  · exact hr ▸ .here e'
  obtain ⟨e', -, hr⟩ | ⟨_, -, h⟩ := ofExcept_bind_cases h
  · exact hr ▸ .here e'
  change (readDrawer drawerId >>= _) s = _ at h
  obtain ⟨-, hr⟩ | ⟨row, -, -, h⟩ := readDrawer_bind_cases h
  · exact hr ▸ .here _
  obtain ⟨e', -, hr⟩ | ⟨rowUuid, -, h⟩ := ofExcept_bind_cases h
  · exact hr ▸ .here e'
  change (admitWrite substrate _ _ now >>= _) s = _ at h
  obtain ⟨violation, -, hr⟩ | ⟨event, -, h⟩ := admitWrite_bind_cases h
  · exact hr ▸ .ticked _
  change ((s.siblingIds drawerId).forM (expungeSibling substrate drawerId changedBy now sealAudit
    (s.nextStamp substrate now)) >>= _) (s.withHead substrate now drawerId event) = _ at h
  have hhead : s.RewritesOnly [drawerId] (s.withHead substrate now drawerId event) :=
    .of_rewritten rfl rfl (List.mem_singleton_self _) (fun _ => rfl) (fun _ => rfl) fun _ => rfl
  cases hrun : (s.siblingIds drawerId).forM (expungeSibling substrate drawerId changedBy now
      sealAudit (s.nextStamp substrate now)) (s.withHead substrate now drawerId event) with
  | error e' after => exact absurd hrun (expungeSiblings_ne_error _ (huuids.rewrites hhead))
  | ok u after =>
    simp only [bind, EStateM.bind, hrun] at h
    cases sealAudit with
    | false => cases h
    | true => cases h

end DrawerStore

abbrev MerkleM (α : Type) := EStateM LocusKitError MerkleStore α

namespace MerkleStore

section Verbs

variable (library : MerkleLibrary) (substrate : Substrate)
  (hashOnWrite : Drawer → Option ContentHash)

/-- A store after a write; a row that was rewritten has the hash that the storage gives it. -/
def rehashed (s : MerkleStore) (store : DrawerStore) : MerkleStore :=
  { s with
      store := store
      contentHashes := fun id =>
        if store.drawers.find? id = s.store.drawers.find? id then s.contentHashes id
        else (store.drawers.find? id).bind hashOnWrite }

def onStore {α : Type} (action : StoreM α) : MerkleM α := fun s =>
  match action s.store with
  | .ok a store => .ok a (s.rehashed hashOnWrite store)
  | .error e store => .error e (s.rehashed hashOnWrite store)

/-- A parent that is no UUID is passed over. -/
def rollupParent (parentNodeId : String) (now : Int) (s : MerkleStore) : MerkleStore :=
  match substrate.parseUuid parentNodeId with
  | some room => s.rollupMerkleRoots library substrate (Uuid.hyphenated room) now
  | none => s

/-- The withdraw verb of an estate. -/
def withdraw (rowId : String) (reason : Option String) (now : Int) : MerkleM Unit := do
  let drawer ← onStore hashOnWrite (DrawerStore.readDrawer rowId)
  let changedBy := (← get).store.changedByOrEstate
  onStore hashOnWrite <| DrawerStore.mutateState substrate rowId .withdrawn .retract changedBy
    (some (reason.getD "withdrawn via Estate.withdraw")) now
  modify (rollupParent library substrate drawer.parentNodeId now)

/-- The rooms of the given rows, each once. -/
def affectedRooms (s : DrawerStore) (ids : List String) : List Uuid :=
  (ids.filterMap fun id => (s.drawers.find? id).bind fun d =>
    substrate.parseUuid d.parentNodeId).dedup

/-- The expunge verb of an estate; the rooms of the lineage are noted before it is scrubbed. -/
def expunge (order : IterationOrder Uuid) (rowId reason : String) (confirmation : Bool) (now : Int)
    (sealAudit : Bool) : MerkleM AuditEvent := do
  if confirmation then
    let _ ← onStore hashOnWrite (DrawerStore.readDrawer rowId)
    let s := (← get).store
    let reason := if reason = "" then "expunged via Estate.expunge" else reason
    let lineageIds := s.lineageChain rowId
    let rooms := affectedRooms substrate s (if lineageIds = [] then [rowId] else lineageIds)
    let event ← onStore hashOnWrite <| DrawerStore.expungeGated substrate rowId s.changedByOrEstate
      (some reason) now sealAudit
    modify fun s => (order.run rooms).foldl
      (fun s room => s.rollupMerkleRoots library substrate (Uuid.hyphenated room) now) s
    return event
  else throw (.invalidContent "expunge requires confirmation: true (destructive op)")

end Verbs

variable {library : MerkleLibrary} {substrate : Substrate}
  {hashOnWrite : Drawer → Option ContentHash} {s s' : MerkleStore} {pending : Set String}

/-- Rooms under canonical ids, drawers in rooms, and ids that are UUIDs. -/
structure Placed (substrate : Substrate) (s : MerkleStore) : Prop where
  canonical : ∀ id, s.IsRoom id → ∃ uuid, substrate.parseUuid id = some uuid ∧ Uuid.hyphenated uuid = id
  below : ∀ row ∈ s.store.drawers.rows, ∀ uuid, substrate.parseUuid row.parentNodeId = some uuid →
    s.BelowWing (Uuid.hyphenated uuid)
  uuids : s.store.UuidIds substrate

theorem Placed.alike (h : s.Placed substrate) (halike : s.Alike s') : s'.Placed substrate := by
  refine ⟨fun id hid => h.canonical id (halike.isRoom.mp hid), fun row hrow uuid huuid => ?_, ?_⟩
  · rw [halike.store] at hrow
    exact halike.belowWing.mpr (h.below row hrow uuid huuid)
  · rw [halike.store]
    exact h.uuids

section Writes

variable {ids : List String} {store : DrawerStore}

theorem isRoot_congr (h : s'.store.nodes = s.store.nodes) {id : String} :
    s'.IsRoot id ↔ s.IsRoot id := by
  rw [IsRoot, IsRoot, h]

theorem childIds_congr (h : s'.store.nodes = s.store.nodes) (parent : String) :
    s'.childIds parent = s.childIds parent := by
  rw [childIds, childIds, h]

theorem isWing_congr (h : s'.store.nodes = s.store.nodes) {id : String} :
    s'.IsWing id ↔ s.IsWing id := by
  simp only [IsWing, isRoot_congr h, childIds_congr h]

theorem isRoom_congr (h : s'.store.nodes = s.store.nodes) {id : String} :
    s'.IsRoom id ↔ s.IsRoom id := by
  simp only [IsRoom, isWing_congr h, childIds_congr h]

theorem belowWing_congr (h : s'.store.nodes = s.store.nodes) {id : String} :
    s'.BelowWing id ↔ s.BelowWing id := by
  simp only [BelowWing, parentOf, h, isRoot_congr h]

theorem settled_congr (h : s'.store.nodes = s.store.nodes) (roomId : String) :
    s'.settled roomId = s.settled roomId := by
  simp only [settled, parentOf, h, isRoot_congr h]

theorem Placed.rehashed (h : s.Placed substrate) (hwrites : s.store.RewritesOnly ids store) :
    (s.rehashed hashOnWrite store).Placed substrate := by
  have hnodes : (s.rehashed hashOnWrite store).store.nodes = s.store.nodes := hwrites.nodes
  refine ⟨fun id hid => h.canonical id ((isRoom_congr hnodes).mp hid),
    fun row hrow uuid huuid => ?_, h.uuids.rewrites hwrites⟩
  obtain ⟨old, hold, -, hparent, -⟩ := hwrites.exists_row hrow
  exact (belowWing_congr hnodes).mpr (h.below old hold uuid (hparent ▸ huuid))

/-- A room none of whose rows is rewritten keeps its hashes. -/
theorem childHashes_rehashed (hwrites : s.store.RewritesOnly ids store) {roomId : String}
    (hroom : ∀ row ∈ s.store.drawers.rows, row.parentNodeId = roomId → row.id ∉ ids) :
    (s.rehashed hashOnWrite store).childHashes library substrate roomId =
      s.childHashes library substrate roomId := by
  obtain ⟨f, hrows, hkeep, hfix⟩ := hwrites.rows
  have hstay : ∀ row ∈ liveRows s.store roomId, f row = row := by
    intro row hrow
    obtain ⟨hmem, hlive⟩ := List.mem_filter.mp hrow
    simp only [Bool.and_eq_true, beq_iff_eq] at hlive
    exact hkeep row (hroom row hmem hlive.1.1)
  have hlive : liveRows store roomId = (liveRows s.store roomId).map f := by
    rw [liveRows, liveRows, hrows, List.filter_map]
    refine congrArg (List.map f) (List.filter_congr fun row hrow => ?_)
    rw [Function.comp_apply, (hfix row).2.1]
    by_cases hparent : row.parentNodeId = roomId
    · rw [hkeep row (hroom row hrow hparent)]
    · have hne : (row.parentNodeId == roomId) = false := beq_eq_false_iff_ne.mpr hparent
      rw [hne, Bool.false_and, Bool.false_and, Bool.false_and, Bool.false_and]
  have hhash : ∀ row ∈ liveRows s.store roomId,
      (s.rehashed hashOnWrite store).childHash library substrate (f row) =
        s.childHash library substrate row := by
    intro row hrow
    have hmem := (List.mem_filter.mp hrow).1
    have hsame : store.drawers.find? row.id = s.store.drawers.find? row.id := by
      rw [KeyedTable.find?_of_mem hmem, KeyedTable.find?_eq_some_iff]
      refine ⟨?_, rfl⟩
      rw [hrows, ← hstay row hrow]
      exact List.mem_map_of_mem (hstay row hrow ▸ hmem)
    rw [hstay row hrow, childHash, childHash]
    simp only [MerkleStore.rehashed, if_pos hsame]
  rw [childHashes, childHashes]
  show (liveRows store roomId).map _ = _
  rw [hlive, List.map_map]
  exact List.map_congr_left hhash

/-- A write that rewrites rows, with rollups of all their rooms after it, leaves nothing to be done
that was not to be done before. -/
theorem RolledUp.rewrite (h : s.RolledUp library substrate pending) (hplaced : s.Placed substrate)
    (hwrites : s.store.RewritesOnly ids store) {rooms : List Uuid} (now : Int)
    (hrooms : ∀ row ∈ s.store.drawers.rows, row.id ∈ ids → ∀ uuid,
      substrate.parseUuid row.parentNodeId = some uuid → uuid ∈ rooms)
    (hbelow : ∀ uuid ∈ rooms, s.BelowWing (Uuid.hyphenated uuid)) :
    (rooms.foldl (fun s room => s.rollupMerkleRoots library substrate (Uuid.hyphenated room) now)
      (s.rehashed hashOnWrite store)).RolledUp library substrate pending := by
  have hnodes : (s.rehashed hashOnWrite store).store.nodes = s.store.nodes := hwrites.nodes
  have hwritten : (s.rehashed hashOnWrite store).RolledUp library substrate
      (pending ∪ disturbed library substrate s (s.rehashed hashOnWrite store)) := h.write rfl
  have hrolled := hwritten.foldl_rollup (rooms.map fun room => (room, now)) fun entry hentry => by
    obtain ⟨uuid, huuid, rfl⟩ := List.mem_map.mp hentry
    exact (belowWing_congr hnodes).mpr (hbelow uuid huuid)
  rw [List.foldl_map] at hrolled
  refine hrolled.mono fun id hid _ => ?_
  obtain ⟨hold | hnew, hnot⟩ := hid
  · exact hold
  · refine absurd ⟨fun hroom => ?_, fun hparent => ?_⟩ hnew
    · have hroom' := (isRoom_congr hnodes).mp hroom
      refine ⟨hroom', childHashes_rehashed hwrites fun row hrow hparent hid => ?_⟩
      obtain ⟨uuid, huuid, htext⟩ := hplaced.canonical id hroom'
      have hmem := hrooms row hrow hid uuid (hparent ▸ huuid)
      refine hnot (uuid, now) (List.mem_map_of_mem hmem) ?_
      rw [settled_congr hnodes, htext]
      obtain ⟨wingId, hwing, -⟩ := hroom'.parentOf
      exact ⟨isSome_of_parentOf hwing, Or.inl rfl⟩
    · rw [isWing_congr hnodes, isRoot_congr hnodes] at hparent
      exact ⟨hparent, childIds_congr hnodes id⟩

theorem alike_foldl_rollup (rooms : List Uuid) (now : Int)
    (hbelow : ∀ room ∈ rooms, s.BelowWing (Uuid.hyphenated room)) :
    s.Alike (rooms.foldl (fun s room =>
      s.rollupMerkleRoots library substrate (Uuid.hyphenated room) now) s) := by
  induction rooms generalizing s with
  | nil => exact .refl s
  | cons room rooms ih =>
    have halike := alike_rollupMerkleRoots library substrate now (hbelow room List.mem_cons_self)
    exact halike.trans (ih fun other hother =>
      halike.belowWing.mpr (hbelow other (List.mem_cons_of_mem _ hother)))

theorem Placed.rewrite (h : s.Placed substrate) (hwrites : s.store.RewritesOnly ids store)
    (rooms : List Uuid) (now : Int) (hbelow : ∀ uuid ∈ rooms, s.BelowWing (Uuid.hyphenated uuid)) :
    (rooms.foldl (fun s room => s.rollupMerkleRoots library substrate (Uuid.hyphenated room) now)
      (s.rehashed hashOnWrite store)).Placed substrate := by
  have hnodes : (s.rehashed hashOnWrite store).store.nodes = s.store.nodes := hwrites.nodes
  exact (h.rehashed hwrites).alike (alike_foldl_rollup rooms now fun uuid huuid =>
    (belowWing_congr hnodes).mpr (hbelow uuid huuid))

end Writes

/-- What every removal keeps: the nodes to be done, and drawers in their place. -/
structure Sound (library : MerkleLibrary) (substrate : Substrate) (pending : Set String)
    (s : MerkleStore) : Prop where
  rolledUp : s.RolledUp library substrate pending
  placed : s.Placed substrate

theorem Sound.rewrite {ids : List String} {store : DrawerStore}
    (h : s.Sound library substrate pending) (hashOnWrite : Drawer → Option ContentHash)
    (hwrites : s.store.RewritesOnly ids store)
    {rooms : List Uuid} (now : Int)
    (hrooms : ∀ row ∈ s.store.drawers.rows, row.id ∈ ids → ∀ uuid,
      substrate.parseUuid row.parentNodeId = some uuid → uuid ∈ rooms)
    (hbelow : ∀ uuid ∈ rooms, s.BelowWing (Uuid.hyphenated uuid)) :
    (rooms.foldl (fun s room => s.rollupMerkleRoots library substrate (Uuid.hyphenated room) now)
      (s.rehashed hashOnWrite store)).Sound library substrate pending :=
  ⟨h.rolledUp.rewrite h.placed hwrites now hrooms hbelow, h.placed.rewrite hwrites rooms now hbelow⟩

/-- A call that wrote nothing. -/
theorem Sound.refused {α : Type} {r : EStateM.Result LocusKitError DrawerStore α} {now : Int}
    (h : s.Sound library substrate pending) (hrefused : DrawerStore.Refused substrate s.store now r) :
    (s.rehashed hashOnWrite (stateAfter r)).Sound library substrate pending :=
  have hwrites : s.store.RewritesOnly [] (stateAfter r) := .of_refused hrefused
  have hbelow : ∀ uuid ∈ ([] : List Uuid), s.BelowWing (Uuid.hyphenated uuid) :=
    fun _ hroom => absurd hroom List.not_mem_nil
  h.rewrite hashOnWrite hwrites now (fun _ _ hid => absurd hid List.not_mem_nil) hbelow

theorem rehashed_self : s.rehashed hashOnWrite s.store = s := by
  simp only [rehashed, if_true]

theorem onStore_ok {α : Type} {action : StoreM α} {a : α} {store : DrawerStore}
    (h : action s.store = .ok a store) :
    onStore hashOnWrite action s = .ok a (s.rehashed hashOnWrite store) := by
  rw [onStore, h]

theorem onStore_error {α : Type} {action : StoreM α} {e : LocusKitError} {store : DrawerStore}
    (h : action s.store = .error e store) :
    onStore hashOnWrite action s = .error e (s.rehashed hashOnWrite store) := by
  rw [onStore, h]

theorem onStore_readDrawer (hashOnWrite : Drawer → Option ContentHash) (s : MerkleStore)
    (rowId : String) :
    (∃ e, onStore hashOnWrite (DrawerStore.readDrawer rowId) s = .error e s) ∨
      ∃ row, s.store.drawers.find? rowId = some row ∧
        onStore hashOnWrite (DrawerStore.readDrawer rowId) s = .ok row s := by
  cases hfind : s.store.drawers.find? rowId with
  | none =>
    have hread : DrawerStore.readDrawer rowId s.store = .error (.drawerNotFound rowId) s.store := by
      simp only [DrawerStore.readDrawer, bind, EStateM.bind, get_eq, hfind]
      rfl
    exact Or.inl ⟨_, by rw [onStore_error hread, rehashed_self]⟩
  | some row =>
    have hread : DrawerStore.readDrawer rowId s.store = .ok row s.store := by
      simp only [DrawerStore.readDrawer, bind, EStateM.bind, get_eq, hfind]
      rfl
    exact Or.inr ⟨row, rfl, by rw [onStore_ok hread, rehashed_self]⟩

theorem Sound.withdraw (h : s.Sound library substrate pending) (rowId : String)
    (reason : Option String) (now : Int) :
    (stateAfter (MerkleStore.withdraw library substrate hashOnWrite rowId reason now s)).Sound library
      substrate pending := by
  rw [MerkleStore.withdraw]
  obtain ⟨e, hread⟩ | ⟨row, hfind, hread⟩ := onStore_readDrawer hashOnWrite s rowId
  · simp only [bind, EStateM.bind, hread]
    exact h
  simp only [bind, EStateM.bind, hread, get_eq]
  cases hresult : DrawerStore.mutateState substrate rowId .withdrawn .retract
      s.store.changedByOrEstate (some (reason.getD "withdrawn via Estate.withdraw")) now s.store with
  | error e store =>
    simp only [onStore_error hresult]
    obtain hrefused | ⟨row, event, -, -, hr⟩ := DrawerStore.mutateState_cases hresult
    · exact h.refused hrefused
    · cases hr
  | ok u store =>
    simp only [onStore_ok hresult, modify_eq]
    have hwrites : s.store.RewritesOnly [rowId] store := by
      have hrewrites := @DrawerStore.rewritesOnly_mutateState substrate s.store [rowId] rowId
        s.store.changedByOrEstate .withdrawn .retract
        (some (reason.getD "withdrawn via Estate.withdraw")) now (List.mem_singleton_self _)
      rw [hresult] at hrewrites
      exact hrewrites
    obtain ⟨hmem, hid⟩ := KeyedTable.find?_eq_some_iff.mp hfind
    have hrooms : ∀ other ∈ s.store.drawers.rows, other.id ∈ [rowId] → ∀ uuid,
        substrate.parseUuid other.parentNodeId = some uuid →
          uuid ∈ (substrate.parseUuid row.parentNodeId).toList := by
      intro other hother hsame uuid huuid
      obtain rfl := KeyedTable.eq_of_key_eq hother hmem ((List.mem_singleton.mp hsame).trans hid.symm)
      rw [huuid]
      exact List.mem_singleton_self _
    have hsound := h.rewrite hashOnWrite hwrites now hrooms fun uuid huuid =>
      h.placed.below row hmem uuid (Option.mem_toList.mp huuid)
    rw [stateAfter_ok, rollupParent]
    cases hparse : substrate.parseUuid row.parentNodeId with
    | none =>
      rw [hparse] at hsound
      exact hsound
    | some uuid =>
      rw [hparse] at hsound
      exact hsound

theorem mem_affectedRooms {store : DrawerStore} {ids : List String} {room : Uuid} :
    room ∈ affectedRooms substrate store ids ↔ ∃ row ∈ store.drawers.rows, row.id ∈ ids ∧
      substrate.parseUuid row.parentNodeId = some room := by
  rw [affectedRooms, List.mem_dedup, List.mem_filterMap]
  constructor
  · rintro ⟨id, hid, hroom⟩
    obtain ⟨row, hfind, hparse⟩ := Option.bind_eq_some_iff.mp hroom
    obtain ⟨hmem, rfl⟩ := KeyedTable.find?_eq_some_iff.mp hfind
    exact ⟨row, hmem, hid, hparse⟩
  · rintro ⟨row, hmem, hid, hparse⟩
    refine ⟨row.id, hid, ?_⟩
    rw [KeyedTable.find?_of_mem hmem]
    exact hparse

theorem Sound.expunge (h : s.Sound library substrate pending) (order : IterationOrder Uuid)
    (rowId reason : String) (confirmation : Bool) (now : Int) (sealAudit : Bool) :
    (stateAfter (MerkleStore.expunge library substrate hashOnWrite order rowId reason confirmation now
      sealAudit s)).Sound library substrate pending := by
  rw [MerkleStore.expunge]
  cases confirmation with
  | false => exact h
  | true =>
    rw [if_pos rfl]
    obtain ⟨e, hread⟩ | ⟨row, hfind, hread⟩ := onStore_readDrawer hashOnWrite s rowId
    · simp only [bind, EStateM.bind, hread]
      exact h
    simp only [bind, EStateM.bind, hread, get_eq]
    have hlineage : s.store.lineageChain rowId ≠ [] :=
      List.ne_nil_of_mem (DrawerStore.mem_lineageChain_self hfind)
    rw [if_neg hlineage]
    generalize (if reason = "" then "expunged via Estate.expunge" else reason) = reason
    cases hresult : DrawerStore.expungeGated substrate rowId s.store.changedByOrEstate (some reason) now
        sealAudit s.store with
    | error e store =>
      simp only [onStore_error hresult]
      exact h.refused (DrawerStore.refused_of_expungeGated_error h.placed.uuids hresult)
    | ok event store =>
      simp only [onStore_ok hresult, modify_eq]
      have hwrites : s.store.RewritesOnly (s.store.lineageChain rowId) store := by
        have hrewrites := @DrawerStore.rewritesOnly_expungeGated substrate s.store rowId
          s.store.changedByOrEstate (some reason) now sealAudit
        rw [hresult] at hrewrites
        exact hrewrites
      have hperm := order.perm (affectedRooms substrate s.store (s.store.lineageChain rowId))
      refine h.rewrite hashOnWrite hwrites now (fun other hother hid uuid huuid => ?_) fun uuid huuid => ?_
      · exact hperm.mem_iff.mpr (mem_affectedRooms.mpr ⟨other, hother, hid, huuid⟩)
      · obtain ⟨other, hother, -, hparse⟩ := mem_affectedRooms.mp (hperm.mem_iff.mp huuid)
        exact h.placed.below other hother uuid hparse

/-- The verbs of an estate that take drawers away. -/
inductive RemovalCall where
  | withdraw (rowId : String) (reason : Option String) (now : Int)
  | expunge (order : IterationOrder Uuid) (rowId reason : String) (confirmation : Bool) (now : Int)
      (sealAudit : Bool)

def removalStep (library : MerkleLibrary) (substrate : Substrate)
    (hashOnWrite : Drawer → Option ContentHash) (s : MerkleStore) : RemovalCall → MerkleStore
  | .withdraw rowId reason now =>
    stateAfter (s.withdraw library substrate hashOnWrite rowId reason now)
  | .expunge order rowId reason confirmation now sealAudit =>
    stateAfter (expunge library substrate hashOnWrite order rowId reason confirmation now sealAudit s)

theorem Sound.removalStep (h : s.Sound library substrate pending) (call : RemovalCall) :
    (s.removalStep library substrate hashOnWrite call).Sound library substrate pending := by
  cases call with
  | withdraw rowId reason now => exact h.withdraw rowId reason now
  | expunge order rowId reason confirmation now sealAudit =>
    exact h.expunge order rowId reason confirmation now sealAudit

theorem Sound.removals (h : s.Sound library substrate pending) (calls : List RemovalCall) :
    (calls.foldl (MerkleStore.removalStep library substrate hashOnWrite) s).Sound library substrate
      pending := by
  induction calls generalizing s with
  | nil => exact h
  | cons call calls ih => exact ih (h.removalStep call)

/-- Once the tree is computed, withdrawals and expunges of any rows, also those that are refused,
leave every room, wing and the estate with the root that its drawers give. -/
theorem merkleRoots_removals (library : MerkleLibrary) (hashOnWrite : Drawer → Option ContentHash)
    (hplaced : s.Placed substrate) (now : Int) (calls : List RemovalCall) :
    let after := calls.foldl (MerkleStore.removalStep library substrate hashOnWrite)
      (s.recomputeAllMerkleRoots library substrate now)
    (∀ id, after.IsRoom id →
      after.merkleRoots id = some (after.computeRoomMerkleRoot library substrate id)) ∧
    (∀ id, after.IsWing id → after.merkleRoots id = some (after.wingTree library substrate id)) ∧
    ∀ id, after.IsRoot id → after.merkleRoots id = some (after.estateTree library substrate id) := by
  intro after
  obtain ⟨halike, hrolled⟩ := rolledUp_recomputeAllMerkleRoots library substrate s now
  have hstart : (s.recomputeAllMerkleRoots library substrate now).Sound library substrate ∅ :=
    ⟨hrolled, hplaced.alike halike⟩
  have hafter : after.RolledUp library substrate ∅ := (hstart.removals calls).rolledUp
  have hno : ∀ node : String, node ∉ (∅ : Set String) := fun node => Set.notMem_empty node
  exact ⟨fun id hid => hafter.room id hid (hno id),
    fun id hid => hafter.wing_eq hid (hno id) fun room _ => hno room,
    fun id hid => hafter.root_eq hid (hno id) fun wing _ => ⟨hno wing, fun room _ => hno room⟩⟩

/-- A room under UUIDs, with one drawer. -/
def uuidRoom : MerkleStore where
  store := [StoreCall.createRoot "estate" (referenceUuidText "a"),
    .createNode "Wing" (referenceUuidText "a") (referenceUuidText "b"),
    .createNode "Room" (referenceUuidText "b") (referenceUuidText "c"),
    .addDrawer { referenceDrawer "1" 1 5 with parentNodeId := referenceUuidText "c" } 5].foldl
      (DrawerStore.step referenceSubstrate) (DrawerStore.fresh "alice")
  contentHashes _ := none
  merkleRoots _ := none
  updatedAt _ := 0

theorem placed_uuidRoom : uuidRoom.Placed referenceSubstrate := by
  have hroot : uuidRoom.store.nodes.rootNode =
      some ⟨referenceUuidText "a", none, "estate", "estate", 0, 0, none⟩ := by decide +kernel
  have hwings : uuidRoom.store.nodes.childNodes (referenceUuidText "a") =
      [⟨referenceUuidText "b", some (referenceUuidText "a"), "Wing", "wing", 1, 0, none⟩] :=
    childNodes_eq_singleton (by decide +kernel)
  have hrooms : uuidRoom.store.nodes.childNodes (referenceUuidText "b") =
      [⟨referenceUuidText "c", some (referenceUuidText "b"), "Room", "room", 2, 0, none⟩] :=
    childNodes_eq_singleton (by decide +kernel)
  have hroom : uuidRoom.store.nodes.find? (referenceUuidText "c") =
      some ⟨referenceUuidText "c", some (referenceUuidText "b"), "Room", "room", 2, 0, none⟩ := by
    decide +kernel
  have hwing : uuidRoom.parentOf (referenceUuidText "b") = some (referenceUuidText "a") := by
    decide +kernel
  have hparse : ∀ row ∈ uuidRoom.store.drawers.rows,
      referenceSubstrate.parseUuid row.parentNodeId = some 12 := by decide +kernel
  have htext : Uuid.hyphenated 12 = referenceUuidText "c" := by decide +kernel
  refine ⟨fun id hid => ?_, fun row hrow uuid huuid => ?_, ?_⟩
  · obtain ⟨wingId, ⟨rootId, ⟨root, hfound, rfl⟩, hmemWing⟩, hmemRoom⟩ := hid
    rw [hroot, Option.some.injEq] at hfound
    rw [← hfound, childIds, hwings] at hmemWing
    obtain rfl := List.mem_singleton.mp hmemWing
    rw [childIds, hrooms] at hmemRoom
    obtain rfl := List.mem_singleton.mp hmemRoom
    exact ⟨12, by decide +kernel, htext⟩
  · rw [hparse row hrow, Option.some.injEq] at huuid
    subst huuid
    rw [htext]
    intro node hnode
    rw [hroom, Option.some.injEq] at hnode
    subst hnode
    exact ⟨_, _, rfl, hwing, _, hroot, rfl⟩
  · exact (by decide +kernel : ∀ row ∈ uuidRoom.store.drawers.rows,
      (referenceSubstrate.parseUuid row.id).isSome)

theorem merkleRoots_removals_uuidRoom :
    let after := [RemovalCall.withdraw (referenceUuidText "1") none 6,
        .expunge .stored (referenceUuidText "1") "" true 7 true].foldl
      (MerkleStore.removalStep referenceMerkleLibrary referenceSubstrate fun _ => none)
      (uuidRoom.recomputeAllMerkleRoots referenceMerkleLibrary referenceSubstrate 5)
    ∀ id, after.IsRoot id →
      after.merkleRoots id = some (after.estateTree referenceMerkleLibrary referenceSubstrate id) :=
  (merkleRoots_removals referenceMerkleLibrary (fun _ => none) placed_uuidRoom 5 _).2.2

end MerkleStore

end MootMemory
