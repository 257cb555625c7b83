import MootMemory.ByIdAgreement
import MootMemory.NodeLifecycle
import MootMemory.StableSort
import Mathlib.Data.Set.Basic
import Mathlib.Data.String.Basic

namespace MootMemory

abbrev ContentHash := BitVec 256

abbrev MerkleRoot := BitVec 256

/-- The text of an id, digit by digit. -/
def Uuid.hyphenated (uuid : Uuid) : String :=
  let digits := (List.range 32).map fun i => Nat.digitChar (uuid.toNat / 16 ^ (31 - i) % 16)
  String.ofList <| digits.take 8 ++ '-' :: (digits.drop 8).take 4 ++ '-' :: (digits.drop 12).take 4 ++
    '-' :: (digits.drop 16).take 4 ++ '-' :: digits.drop 20

/-- The hashing of the outside libraries; a node stands there by the text of its id. -/
structure MerkleLibrary where
  empty : MerkleRoot
  leaf : Uuid → String → ContentHash
  interior : List (Uuid × ContentHash) → MerkleRoot
  interiorRoots : List (String × MerkleRoot) → MerkleRoot
  sha256 : String → BitVec 256

/-- A store with the hash columns of its drawers and nodes. -/
structure MerkleStore where
  store : DrawerStore
  contentHashes : String → Option ContentHash
  merkleRoots : String → Option MerkleRoot
  updatedAt : String → Int

structure SnapshotAttestation where
  subjectKind : String
  subjectId : String
  merkleRoot : String
deriving DecidableEq, Repr

/-- Active children by their lookup name. -/
def NodeTable.childNodes (nodes : NodeTable) (parentId : String) : List Node :=
  stableSort (·.lookupName) (nodes.rows.filter fun n =>
    n.parentId == some parentId && n.lifecycle == 0)

namespace MerkleStore

variable (library : MerkleLibrary) (substrate : Substrate)

/-- The id itself where it is a UUID, else the head of its hash as one of version 5. -/
def deterministicUuid (stringId : String) : Uuid :=
  match substrate.parseUuid stringId with
  | some uuid => uuid
  | none =>
    let bytes : Uuid := (library.sha256 stringId).extractLsb' 128 128
    let bytes := (bytes &&& ~~~((0xF0 : Uuid) <<< 72)) ||| (0x50 : Uuid) <<< 72
    (bytes &&& ~~~((0xC0 : Uuid) <<< 56)) ||| (0x80 : Uuid) <<< 56

/-- Tombstoned and withdrawn drawers are out. -/
def liveRows (s : DrawerStore) (roomNodeId : String) : List Drawer :=
  s.drawers.rows.filter fun d => d.parentNodeId == roomNodeId && d.tombstonedAt.isNone &&
    !(d.bitmaps.adjective &&& 0x3F == 18)

/-- The stored hash of a drawer, or else that of its content. -/
def childHash (s : MerkleStore) (drawer : Drawer) : Uuid × ContentHash :=
  let drawerUuid := deterministicUuid library substrate drawer.id
  (drawerUuid, (s.contentHashes drawer.id).getD (library.leaf drawerUuid drawer.content))

def childHashes (s : MerkleStore) (roomNodeId : String) : List (Uuid × ContentHash) :=
  (liveRows s.store roomNodeId).map (s.childHash library substrate)

def computeRoomMerkleRoot (s : MerkleStore) (roomNodeId : String) : MerkleRoot :=
  library.interior (s.childHashes library substrate roomNodeId)

def childIds (s : MerkleStore) (parentNodeId : String) : List String :=
  (s.store.nodes.childNodes parentNodeId).map (·.id)

/-- A child without a root counts as empty. -/
def computeEstateOrWingMerkleRoot (s : MerkleStore) (parentNodeId : String) : MerkleRoot :=
  library.interiorRoots ((s.childIds parentNodeId).map fun id =>
    (id, (s.merkleRoots id).getD library.empty))

/-- No row, no column. -/
def updateMerkleRoot (s : MerkleStore) (nodeId : String) (merkleRoot : MerkleRoot) (now : Int) :
    MerkleStore :=
  if (s.store.nodes.find? nodeId).isSome then
    { s with
      merkleRoots := fun id => if id = nodeId then some merkleRoot else s.merkleRoots id
      updatedAt := fun id => if id = nodeId then now else s.updatedAt id }
  else s

/-- The roots from a room up to the estate. -/
def rollupMerkleRoots (s : MerkleStore) (roomNodeId : String) (now : Int) : MerkleStore :=
  let s := s.updateMerkleRoot roomNodeId (s.computeRoomMerkleRoot library substrate roomNodeId) now
  match (s.store.nodes.find? roomNodeId).bind (·.parentId) with
  | none => s
  | some wingNodeId =>
    let s := s.updateMerkleRoot wingNodeId (s.computeEstateOrWingMerkleRoot library wingNodeId) now
    match s.store.nodes.rootNode with
    | none => s
    | some root =>
      s.updateMerkleRoot root.id (s.computeEstateOrWingMerkleRoot library root.id) now

/-- Enters the room of a drawer, with the later of the filing times. -/
def enterRoom (s : DrawerStore) (rooms : HashMap Uuid Int) (drawerId : String) : HashMap Uuid Int :=
  match s.drawers.find? drawerId with
  | none => rooms
  | some drawer =>
    match substrate.parseUuid drawer.parentNodeId with
    | none => rooms
    | some room =>
      KeyedTable.put rooms (room, max ((HashMap.get? rooms room).getD drawer.filedAt) drawer.filedAt)

def latestInRooms (s : DrawerStore) (drawerIds : List String) : HashMap Uuid Int :=
  drawerIds.foldl (enterRoom substrate s) KeyedTable.empty

/-- Each room of a batch once, in the order the hash map happens to have. -/
def rollupRoomsForDrawers (order : IterationOrder (Uuid × Int)) (s : MerkleStore)
    (drawerIds : List String) : MerkleStore :=
  (order.run (latestInRooms substrate s.store drawerIds).rows).foldl
    (fun s room => s.rollupMerkleRoots library substrate (Uuid.hyphenated room.1) room.2) s

def recomputeWing (now : Int) (s : MerkleStore) (wingId : String) : MerkleStore :=
  let s := (s.childIds wingId).foldl (fun s roomId =>
    s.updateMerkleRoot roomId (s.computeRoomMerkleRoot library substrate roomId) now) s
  s.updateMerkleRoot wingId (s.computeEstateOrWingMerkleRoot library wingId) now

/-- Every root, bottom up. -/
def recomputeAllMerkleRoots (s : MerkleStore) (now : Int) : MerkleStore :=
  match s.store.nodes.rootNode with
  | none => s
  | some root =>
    let s := (s.childIds root.id).foldl (recomputeWing library substrate now) s
    s.updateMerkleRoot root.id (s.computeEstateOrWingMerkleRoot library root.id) now

/-- What a snapshot attests, after a recompute. -/
def createSnapshot (s : MerkleStore) (now : Int) (additional : List SnapshotAttestation) :
    List SnapshotAttestation × MerkleStore :=
  let s := s.recomputeAllMerkleRoots library substrate now
  let attest (kind id : String) : SnapshotAttestation :=
    ⟨kind, id, ((s.merkleRoots id).getD library.empty).toHex⟩
  match s.store.nodes.rootNode with
  | none => (additional, s)
  | some root => (attest "estate" root.id :: (s.childIds root.id).map (attest "wing") ++ additional, s)

variable {library substrate} {s s' : MerkleStore} {id nodeId roomId parent : String}
  {merkleRoot : MerkleRoot} {now : Int}

def IsRoot (s : MerkleStore) (id : String) : Prop :=
  ∃ root, s.store.nodes.rootNode = some root ∧ root.id = id

def IsWing (s : MerkleStore) (id : String) : Prop := ∃ rootId, s.IsRoot rootId ∧ id ∈ s.childIds rootId

def IsRoom (s : MerkleStore) (id : String) : Prop := ∃ wingId, s.IsWing wingId ∧ id ∈ s.childIds wingId

def parentOf (s : MerkleStore) (id : String) : Option String :=
  (s.store.nodes.find? id).bind (·.parentId)

/-- Below a child of the root, or not there at all. -/
def BelowWing (s : MerkleStore) (id : String) : Prop := ∀ node, s.store.nodes.find? id = some node →
  ∃ wingId rootId, node.parentId = some wingId ∧ s.parentOf wingId = some rootId ∧ s.IsRoot rootId

theorem parentOf_of_mem_childIds (h : id ∈ s.childIds parent) : s.parentOf id = some parent := by
  obtain ⟨node, hnode, rfl⟩ := List.mem_map.mp h
  rw [NodeTable.childNodes, (stableSort_perm _ _).mem_iff, List.mem_filter, Bool.and_eq_true,
    beq_iff_eq] at hnode
  rw [parentOf, KeyedTable.find?_of_mem hnode.1]
  exact hnode.2.1

theorem IsRoot.parentOf (h : s.IsRoot id) : s.parentOf id = none := by
  obtain ⟨root, hroot, rfl⟩ := h
  have hmem := List.mem_of_find?_eq_some hroot
  have hplace := List.find?_some hroot
  simp only [Bool.and_eq_true, Option.isNone_iff_eq_none] at hplace
  rw [MerkleStore.parentOf, KeyedTable.find?_of_mem hmem]
  exact hplace.1.1

theorem IsRoot.unique (h : s.IsRoot id) (h' : s.IsRoot nodeId) : id = nodeId := by
  obtain ⟨root, hroot, rfl⟩ := h
  obtain ⟨root', hroot', rfl⟩ := h'
  rw [hroot] at hroot'
  rw [Option.some.inj hroot']

theorem IsWing.parentOf (h : s.IsWing id) : ∃ rootId, s.parentOf id = some rootId ∧ s.IsRoot rootId := by
  obtain ⟨rootId, hroot, hmem⟩ := h
  exact ⟨rootId, parentOf_of_mem_childIds hmem, hroot⟩

theorem IsRoom.parentOf (h : s.IsRoom id) :
    ∃ wingId, s.parentOf id = some wingId ∧ s.IsWing wingId := by
  obtain ⟨wingId, hwing, hmem⟩ := h
  exact ⟨wingId, parentOf_of_mem_childIds hmem, hwing⟩

theorem IsWing.not_isRoot (h : s.IsWing id) : ¬s.IsRoot id := by
  obtain ⟨rootId, hparent, -⟩ := h.parentOf
  intro hroot
  rw [hroot.parentOf] at hparent
  cases hparent

theorem IsRoom.not_isRoot (h : s.IsRoom id) : ¬s.IsRoot id := by
  obtain ⟨wingId, hparent, -⟩ := h.parentOf
  intro hroot
  rw [hroot.parentOf] at hparent
  cases hparent

theorem IsRoom.not_isWing (h : s.IsRoom id) : ¬s.IsWing id := by
  obtain ⟨wingId, hparent, hwing⟩ := h.parentOf
  intro hwing'
  obtain ⟨rootId, hparent', hroot⟩ := hwing'.parentOf
  rw [hparent] at hparent'
  exact hwing.not_isRoot (Option.some.inj hparent' ▸ hroot)

@[simp] theorem store_updateMerkleRoot :
    (s.updateMerkleRoot nodeId merkleRoot now).store = s.store := by
  rw [updateMerkleRoot]
  split <;> rfl

@[simp] theorem contentHashes_updateMerkleRoot :
    (s.updateMerkleRoot nodeId merkleRoot now).contentHashes = s.contentHashes := by
  rw [updateMerkleRoot]
  split <;> rfl

theorem merkleRoots_updateMerkleRoot (h : (s.store.nodes.find? nodeId).isSome) :
    (s.updateMerkleRoot nodeId merkleRoot now).merkleRoots id =
      if id = nodeId then some merkleRoot else s.merkleRoots id := by
  rw [updateMerkleRoot, if_pos h]

theorem merkleRoots_updateMerkleRoot_of_ne (h : id ≠ nodeId) :
    (s.updateMerkleRoot nodeId merkleRoot now).merkleRoots id = s.merkleRoots id := by
  rw [updateMerkleRoot]
  split
  next => exact if_neg h
  next => rfl

/-- The same rows and hashes. -/
structure Alike (s s' : MerkleStore) : Prop where
  store : s'.store = s.store
  contentHashes : s'.contentHashes = s.contentHashes

theorem Alike.refl (s : MerkleStore) : s.Alike s := ⟨rfl, rfl⟩

theorem Alike.trans {s'' : MerkleStore} (h : s.Alike s') (h' : s'.Alike s'') : s.Alike s'' :=
  ⟨h'.store.trans h.store, h'.contentHashes.trans h.contentHashes⟩

theorem alike_updateMerkleRoot (s : MerkleStore) (nodeId : String) (merkleRoot : MerkleRoot)
    (now : Int) : s.Alike (s.updateMerkleRoot nodeId merkleRoot now) :=
  ⟨store_updateMerkleRoot, contentHashes_updateMerkleRoot⟩

theorem Alike.computeRoomMerkleRoot (h : s.Alike s') (roomId : String) :
    s'.computeRoomMerkleRoot library substrate roomId =
      s.computeRoomMerkleRoot library substrate roomId := by
  have hhash : ∀ drawer, s'.childHash library substrate drawer = s.childHash library substrate drawer :=
    fun drawer => by rw [childHash, childHash, h.contentHashes]
  rw [MerkleStore.computeRoomMerkleRoot, MerkleStore.computeRoomMerkleRoot, childHashes, childHashes,
    h.store, List.map_congr_left fun drawer _ => hhash drawer]

theorem Alike.childIds (h : s.Alike s') (parent : String) : s'.childIds parent = s.childIds parent := by
  rw [MerkleStore.childIds, MerkleStore.childIds, h.store]

theorem Alike.isRoot (h : s.Alike s') : s'.IsRoot id ↔ s.IsRoot id := by
  rw [IsRoot, IsRoot, h.store]

theorem Alike.isWing (h : s.Alike s') : s'.IsWing id ↔ s.IsWing id := by
  simp only [IsWing, h.isRoot, h.childIds]

theorem Alike.isRoom (h : s.Alike s') : s'.IsRoom id ↔ s.IsRoom id := by
  simp only [IsRoom, h.isWing, h.childIds]

theorem Alike.parentOf (h : s.Alike s') : s'.parentOf id = s.parentOf id := by
  rw [MerkleStore.parentOf, MerkleStore.parentOf, h.store]

theorem Alike.belowWing (h : s.Alike s') : s'.BelowWing id ↔ s.BelowWing id := by
  simp only [BelowWing, h.store, h.parentOf, h.isRoot]

/-- The root over the children depends on their roots alone. -/
theorem Alike.computeEstateOrWingMerkleRoot (h : s.Alike s')
    (hroots : ∀ id ∈ s.childIds parent, s'.merkleRoots id = s.merkleRoots id) :
    s'.computeEstateOrWingMerkleRoot library parent =
      s.computeEstateOrWingMerkleRoot library parent := by
  rw [MerkleStore.computeEstateOrWingMerkleRoot, MerkleStore.computeEstateOrWingMerkleRoot,
    h.childIds, List.map_congr_left fun id hid => by rw [hroots id hid]]

theorem isSome_of_parentOf (h : s.parentOf id = some parent) :
    (s.store.nodes.find? id).isSome := by
  rw [parentOf] at h
  obtain ⟨node, hnode, -⟩ := Option.bind_eq_some_iff.mp h
  rw [hnode]
  rfl

theorem IsRoot.isSome (h : s.IsRoot id) : (s.store.nodes.find? id).isSome := by
  obtain ⟨root, hroot, rfl⟩ := h
  rw [KeyedTable.find?_of_mem (List.mem_of_find?_eq_some hroot)]
  rfl

/-- Outside of the pending nodes, every room has the root of its drawers, and every wing and the
estate that of the stored roots of their children. -/
structure RolledUp (library : MerkleLibrary) (substrate : Substrate) (pending : Set String)
    (s : MerkleStore) : Prop where
  room : ∀ id, s.IsRoom id → id ∉ pending →
    s.merkleRoots id = some (s.computeRoomMerkleRoot library substrate id)
  parent : ∀ id, s.IsWing id ∨ s.IsRoot id → id ∉ pending →
    s.merkleRoots id = some (s.computeEstateOrWingMerkleRoot library id)

/-- The nodes a rollup of a room settles. -/
def settled (s : MerkleStore) (roomId : String) : Set String :=
  {id | (s.store.nodes.find? roomId).isSome ∧
    (id = roomId ∨ s.parentOf roomId = some id ∨ s.IsRoot id)}

/-- The nodes that a write gives a new place or new children. -/
def disturbed (library : MerkleLibrary) (substrate : Substrate) (s s' : MerkleStore) : Set String :=
  {id | ¬((s'.IsRoom id → s.IsRoom id ∧
      s'.childHashes library substrate id = s.childHashes library substrate id) ∧
    (s'.IsWing id ∨ s'.IsRoot id → (s.IsWing id ∨ s.IsRoot id) ∧ s'.childIds id = s.childIds id))}

theorem RolledUp.write {pending : Set String} (h : s.RolledUp library substrate pending)
    (hroots : s'.merkleRoots = s.merkleRoots) :
    s'.RolledUp library substrate (pending ∪ disturbed library substrate s s') := by
  refine ⟨fun id hroom hid => ?_, fun id hparent hid => ?_⟩
  · obtain ⟨hold, hnew⟩ := not_or.mp hid
    obtain ⟨hroom', hhashes⟩ := (not_not.mp hnew).1 hroom
    rw [hroots, h.room id hroom' hold, computeRoomMerkleRoot, computeRoomMerkleRoot, hhashes]
  · obtain ⟨hold, hnew⟩ := not_or.mp hid
    obtain ⟨hparent', hids⟩ := (not_not.mp hnew).2 hparent
    rw [hroots, h.parent id hparent' hold, computeEstateOrWingMerkleRoot,
      computeEstateOrWingMerkleRoot, hids, hroots]

/-- Only the nodes of the tree count as pending. -/
theorem RolledUp.mono {pending pending' : Set String} (h : s.RolledUp library substrate pending)
    (hsub : ∀ id ∈ pending, s.IsRoom id ∨ s.IsWing id ∨ s.IsRoot id → id ∈ pending') :
    s.RolledUp library substrate pending' :=
  ⟨fun id hroom hid => h.room id hroom fun hp => hid (hsub id hp (Or.inl hroom)),
    fun id hparent hid => h.parent id hparent fun hp => hid (hsub id hp (Or.inr hparent))⟩

/-- A root put right settles its node and unsettles the one above. -/
theorem RolledUp.updateMerkleRoot {pending : Set String} (h : s.RolledUp library substrate pending)
    (hroom : s.IsRoom nodeId → merkleRoot = s.computeRoomMerkleRoot library substrate nodeId)
    (hparent : s.IsWing nodeId ∨ s.IsRoot nodeId →
      merkleRoot = s.computeEstateOrWingMerkleRoot library nodeId) (now : Int) :
    (s.updateMerkleRoot nodeId merkleRoot now).RolledUp library substrate
      {id | (id ∈ pending ∧ id ≠ nodeId) ∨ s.parentOf nodeId = some id} := by
  have halike : s.Alike (s.updateMerkleRoot nodeId merkleRoot now) := alike_updateMerkleRoot ..
  refine ⟨fun id hid hpending => ?_, fun id hid hpending => ?_⟩ <;>
    obtain ⟨hold, hup⟩ := not_or.mp hpending
  · rw [halike.isRoom] at hid
    rw [halike.computeRoomMerkleRoot]
    by_cases heq : id = nodeId
    · subst heq
      obtain ⟨wingId, hwing, -⟩ := hid.parentOf
      rw [merkleRoots_updateMerkleRoot (isSome_of_parentOf hwing), if_pos rfl, hroom hid]
    · rw [merkleRoots_updateMerkleRoot_of_ne heq, h.room id hid fun hp => hold ⟨hp, heq⟩]
  · rw [halike.isWing, halike.isRoot] at hid
    have hchildren : ∀ child ∈ s.childIds id,
        (s.updateMerkleRoot nodeId merkleRoot now).merkleRoots child = s.merkleRoots child := by
      intro child hmem
      refine merkleRoots_updateMerkleRoot_of_ne ?_
      rintro rfl
      exact hup (parentOf_of_mem_childIds hmem)
    rw [halike.computeEstateOrWingMerkleRoot hchildren]
    by_cases heq : id = nodeId
    · subst heq
      have hsome : (s.store.nodes.find? id).isSome := by
        rcases hid with hwing | hroot
        · obtain ⟨rootId, hup', -⟩ := hwing.parentOf
          exact isSome_of_parentOf hup'
        · exact hroot.isSome
      rw [merkleRoots_updateMerkleRoot hsome, if_pos rfl, hparent hid]
    · rw [merkleRoots_updateMerkleRoot_of_ne heq, h.parent id hid fun hp => hold ⟨hp, heq⟩]

/-- What a rollup does: nothing for a room that is not there, else it writes the roots of the room,
of its wing and of the estate. -/
theorem rollupMerkleRoots_cases (library : MerkleLibrary) (substrate : Substrate) (now : Int)
    (hbelow : s.BelowWing roomId) :
    (s.store.nodes.find? roomId = none ∧ s.rollupMerkleRoots library substrate roomId now = s) ∨
    ∃ wingId rootId s₁ s₂, s.parentOf roomId = some wingId ∧ s.parentOf wingId = some rootId ∧
      s.IsRoot rootId ∧
      s₁ = s.updateMerkleRoot roomId (s.computeRoomMerkleRoot library substrate roomId) now ∧
      s₂ = s₁.updateMerkleRoot wingId (s₁.computeEstateOrWingMerkleRoot library wingId) now ∧
      s.rollupMerkleRoots library substrate roomId now =
        s₂.updateMerkleRoot rootId (s₂.computeEstateOrWingMerkleRoot library rootId) now := by
  cases hfind : s.store.nodes.find? roomId with
  | none =>
    refine Or.inl ⟨rfl, ?_⟩
    have hsame : s.updateMerkleRoot roomId (s.computeRoomMerkleRoot library substrate roomId) now =
        s := by
      rw [updateMerkleRoot, hfind]
      rfl
    rw [rollupMerkleRoots, hsame, hfind]
    rfl
  | some node =>
    obtain ⟨wingId, rootId, hwing, hroot, root, hrootNode, hid⟩ := hbelow node hfind
    have hbind : (s.store.nodes.find? roomId).bind (·.parentId) = some wingId := by
      rw [hfind]
      exact hwing
    refine Or.inr ⟨wingId, rootId, _, _, hbind, hroot, ⟨root, hrootNode, hid⟩, rfl, rfl, ?_⟩
    simp only [rollupMerkleRoots, store_updateMerkleRoot, hbind, hrootNode, hid]

theorem alike_rollupMerkleRoots (library : MerkleLibrary) (substrate : Substrate) (now : Int)
    (hbelow : s.BelowWing roomId) : s.Alike (s.rollupMerkleRoots library substrate roomId now) := by
  rcases rollupMerkleRoots_cases library substrate now hbelow with
    ⟨-, hsame⟩ | ⟨wingId, rootId, s₁, s₂, -, -, -, rfl, rfl, hafter⟩
  · rw [hsame]
    exact .refl s
  · rw [hafter]
    exact ((alike_updateMerkleRoot ..).trans (alike_updateMerkleRoot ..)).trans
      (alike_updateMerkleRoot ..)

/-- A rollup of a room settles it, its wing and the estate, and unsettles nothing. -/
theorem RolledUp.rollupMerkleRoots {pending : Set String}
    (h : s.RolledUp library substrate pending) (hbelow : s.BelowWing roomId) (now : Int) :
    (s.rollupMerkleRoots library substrate roomId now).RolledUp library substrate
      {id | id ∈ pending ∧ id ∉ s.settled roomId} := by
  rcases rollupMerkleRoots_cases library substrate now hbelow with
    ⟨hnone, hsame⟩ | ⟨wingId, rootId, s₁, s₂, hwing, hroot, hisRoot, h₁, h₂, hafter⟩
  · rw [hsame]
    refine h.mono fun id hid _ => ⟨hid, ?_⟩
    rintro ⟨hsome, -⟩
    rw [hnone] at hsome
    cases hsome
  · have halike₁ : s.Alike s₁ := h₁ ▸ alike_updateMerkleRoot ..
    have halike₂ : s.Alike s₂ := halike₁.trans (h₂ ▸ alike_updateMerkleRoot ..)
    -- The room is no wing and no root, the wing no room: each gets the root it should have.
    have hroomOnly : ¬(s.IsWing roomId ∨ s.IsRoot roomId) := by
      rintro (hisWing | hisRoot')
      · obtain ⟨above, habove, hisRoot'⟩ := hisWing.parentOf
        rw [hwing, Option.some.injEq] at habove
        rw [habove, hisRoot'.parentOf] at hroot
        cases hroot
      · rw [hisRoot'.parentOf] at hwing
        cases hwing
    have hwingOnly : ¬s.IsRoom wingId := by
      intro hroom
      obtain ⟨above, habove, hisWing⟩ := hroom.parentOf
      rw [hroot, Option.some.injEq] at habove
      exact hisWing.not_isRoot (habove ▸ hisRoot)
    have hrolled₁ := h₁ ▸ h.updateMerkleRoot (fun _ => rfl) (fun hp => absurd hp hroomOnly) now
    have hrolled₂ := h₂ ▸ hrolled₁.updateMerkleRoot
      (fun hroom => absurd (halike₁.isRoom.mp hroom) hwingOnly) (fun _ => rfl) now
    have hrolled₃ := hrolled₂.updateMerkleRoot
      (fun hroom => absurd hisRoot (halike₂.isRoom.mp hroom).not_isRoot) (fun _ => rfl) now
    rw [hafter]
    refine hrolled₃.mono fun id hid _ => ?_
    simp only [Set.mem_ofPred_eq, halike₁.parentOf, halike₂.parentOf, hwing, hroot,
      hisRoot.parentOf, Option.some.injEq] at hid
    rcases hid with ⟨⟨hid | hid, hneWing⟩ | hid, hneRoot⟩ | hid
    · refine ⟨hid.1, ?_⟩
      rintro ⟨-, heq | heq | heq⟩
      · exact hid.2 heq
      · exact hneWing (Option.some.inj (heq.symm.trans hwing))
      · exact hneRoot (heq.unique hisRoot)
    · exact absurd hid.symm hneWing
    · exact absurd hid.symm hneRoot
    · cases hid

theorem Alike.settled (h : s.Alike s') (roomId : String) : s'.settled roomId = s.settled roomId := by
  simp only [MerkleStore.settled, h.store, h.parentOf, h.isRoot]

/-- Rollups of one room after the other. -/
theorem RolledUp.foldl_rollup {pending : Set String} (h : s.RolledUp library substrate pending)
    (rooms : List (Uuid × Int)) (hbelow : ∀ room ∈ rooms, s.BelowWing (Uuid.hyphenated room.1)) :
    (rooms.foldl (fun s room => s.rollupMerkleRoots library substrate (Uuid.hyphenated room.1) room.2)
      s).RolledUp library substrate
        {id | id ∈ pending ∧ ∀ room ∈ rooms, id ∉ s.settled (Uuid.hyphenated room.1)} := by
  induction rooms generalizing s pending with
  | nil => exact h.mono fun id hid _ => ⟨hid, fun room hroom => absurd hroom List.not_mem_nil⟩
  | cons room rooms ih =>
    have hroom := hbelow room List.mem_cons_self
    have halike := alike_rollupMerkleRoots library substrate room.2 hroom
    rw [List.foldl_cons]
    refine (ih (h.rollupMerkleRoots hroom room.2) fun other hother =>
      halike.belowWing.mpr (hbelow other (List.mem_cons_of_mem _ hother))).mono fun id hid _ => ?_
    obtain ⟨⟨hpending, hfirst⟩, hrest⟩ := hid
    refine ⟨hpending, fun other hother => ?_⟩
    rcases List.mem_cons.mp hother with rfl | hother
    · exact hfirst
    · rw [← halike.settled]
      exact hrest other hother

/-- The rooms that the drawers of a batch are in. -/
def Touches (substrate : Substrate) (s : DrawerStore) (drawerIds : List String) (room : Uuid) : Prop :=
  ∃ drawerId ∈ drawerIds, ∃ drawer, s.drawers.find? drawerId = some drawer ∧
    substrate.parseUuid drawer.parentNodeId = some room

theorem mem_enterRoom {s : DrawerStore} {rooms : HashMap Uuid Int} {drawerId : String} {room : Uuid} :
    room ∈ (enterRoom substrate s rooms drawerId).rows.map Prod.fst ↔
      room ∈ rooms.rows.map Prod.fst ∨ ∃ drawer, s.drawers.find? drawerId = some drawer ∧
        substrate.parseUuid drawer.parentNodeId = some room := by
  rw [enterRoom]
  split
  next hfind => simp [hfind]
  next drawer hfind =>
    split
    next hparse => simp [hfind, hparse]
    next parsed hparse =>
      rw [KeyedTable.mem_map_key_put]
      simp [hfind, hparse, eq_comm, or_comm]

theorem mem_latestInRooms {s : DrawerStore} {drawerIds : List String} {room : Uuid} :
    room ∈ (latestInRooms substrate s drawerIds).rows.map Prod.fst ↔
      Touches substrate s drawerIds room := by
  have hfold : ∀ rooms, room ∈ (drawerIds.foldl (enterRoom substrate s) rooms).rows.map Prod.fst ↔
      room ∈ rooms.rows.map Prod.fst ∨ Touches substrate s drawerIds room := by
    induction drawerIds with
    | nil => simp [Touches]
    | cons id drawerIds ih =>
      intro rooms
      rw [List.foldl_cons, ih, mem_enterRoom, or_assoc]
      simp only [Touches, List.mem_cons, exists_eq_or_imp]
  rw [latestInRooms, hfold]
  exact or_iff_right List.not_mem_nil

theorem RolledUp.rollupRoomsForDrawers {pending : Set String}
    (h : s.RolledUp library substrate pending) (order : IterationOrder (Uuid × Int))
    (drawerIds : List String)
    (hbelow : ∀ room, Touches substrate s.store drawerIds room → s.BelowWing (Uuid.hyphenated room)) :
    (s.rollupRoomsForDrawers library substrate order drawerIds).RolledUp library substrate
      {id | id ∈ pending ∧ ∀ room, Touches substrate s.store drawerIds room →
        id ∉ s.settled (Uuid.hyphenated room)} := by
  have hmem : ∀ entry ∈ order.run (latestInRooms substrate s.store drawerIds).rows,
      Touches substrate s.store drawerIds entry.1 := by
    intro entry hentry
    rw [← mem_latestInRooms]
    exact List.mem_map_of_mem ((order.perm _).mem_iff.mp hentry)
  refine (h.foldl_rollup _ fun entry hentry => hbelow _ (hmem entry hentry)).mono
    fun id hid _ => ⟨hid.1, fun room hroom => ?_⟩
  obtain ⟨entry, hentry, rfl⟩ := List.mem_map.mp (mem_latestInRooms.mpr hroom)
  exact hid.2 entry ((order.perm _).mem_iff.mpr hentry)

theorem RolledUp.updateRooms {pending : Set String} (h : s.RolledUp library substrate pending)
    (ids : List String) (hrooms : ∀ id ∈ ids, s.IsRoom id) (now : Int) :
    ∃ after, ids.foldl (fun s roomId => s.updateMerkleRoot roomId
        (s.computeRoomMerkleRoot library substrate roomId) now) s = after ∧ s.Alike after ∧
      after.RolledUp library substrate
        {id | (id ∈ pending ∧ id ∉ ids) ∨ ∃ roomId ∈ ids, s.parentOf roomId = some id} := by
  induction ids generalizing s pending with
  | nil => exact ⟨s, rfl, .refl s, h.mono fun id hid _ => Or.inl ⟨hid, List.not_mem_nil⟩⟩
  | cons roomId ids ih =>
    have hroom := hrooms roomId List.mem_cons_self
    have halike : s.Alike (s.updateMerkleRoot roomId
      (s.computeRoomMerkleRoot library substrate roomId) now) := alike_updateMerkleRoot ..
    have hno : ¬(s.IsWing roomId ∨ s.IsRoot roomId) := not_or.mpr ⟨hroom.not_isWing, hroom.not_isRoot⟩
    obtain ⟨after, hafter, hlike, hrolled⟩ := ih
      (h.updateMerkleRoot (fun _ => rfl) (fun hp => absurd hp hno) now)
      fun id hid => halike.isRoom.mpr (hrooms id (List.mem_cons_of_mem _ hid))
    refine ⟨after, hafter, halike.trans hlike, hrolled.mono fun id hid _ => ?_⟩
    simp only [Set.mem_ofPred_eq, halike.parentOf] at hid ⊢
    rcases hid with ⟨⟨hpending, hne⟩ | hup, hrest⟩ | ⟨other, hother, hup⟩
    · exact Or.inl ⟨hpending, fun hmem => (List.mem_cons.mp hmem).elim hne hrest⟩
    · exact Or.inr ⟨roomId, List.mem_cons_self, hup⟩
    · exact Or.inr ⟨other, List.mem_cons_of_mem _ hother, hup⟩

/-- A wing recomputed with its rooms leaves at most the estate to be done. -/
theorem RolledUp.recomputeWing {pending : Set String} {wingId : String}
    (h : s.RolledUp library substrate pending) (hwing : s.IsWing wingId) (now : Int) :
    s.Alike (s.recomputeWing library substrate now wingId) ∧
      (s.recomputeWing library substrate now wingId).RolledUp library substrate
        {id | (id ∈ pending ∧ id ∉ s.childIds wingId ∧ id ≠ wingId) ∨ s.IsRoot id} := by
  obtain ⟨after, hafter, hlike, hrolled⟩ := h.updateRooms (s.childIds wingId)
    (fun id hid => ⟨wingId, hwing, hid⟩) now
  rw [MerkleStore.recomputeWing, hafter]
  have hno : ¬after.IsRoom wingId := fun hroom => (hlike.isRoom.mp hroom).not_isWing hwing
  refine ⟨hlike.trans (alike_updateMerkleRoot ..), ?_⟩
  have hlast := hrolled.updateMerkleRoot (fun hroom => absurd hroom hno) (fun _ => rfl) now
  refine hlast.mono fun id hid _ => ?_
  simp only [Set.mem_ofPred_eq, hlike.parentOf] at hid ⊢
  rcases hid with ⟨⟨hpending, hnot⟩ | ⟨roomId, hmem, hup⟩, hne⟩ | hup
  · exact Or.inl ⟨hpending, hnot, hne⟩
  · rw [parentOf_of_mem_childIds hmem, Option.some.injEq] at hup
    exact absurd hup.symm hne
  · obtain ⟨rootId, hup', hisRoot⟩ := hwing.parentOf
    rw [hup', Option.some.injEq] at hup
    exact Or.inr (hup ▸ hisRoot)

theorem RolledUp.recomputeWings {pending : Set String} (h : s.RolledUp library substrate pending)
    (wings : List String) (hwings : ∀ id ∈ wings, s.IsWing id) (now : Int) :
    s.Alike (wings.foldl (MerkleStore.recomputeWing library substrate now) s) ∧
      (wings.foldl (MerkleStore.recomputeWing library substrate now) s).RolledUp library substrate
        {id | (id ∈ pending ∧ ∀ wingId ∈ wings, id ∉ s.childIds wingId ∧ id ≠ wingId) ∨ s.IsRoot id} := by
  induction wings generalizing s pending with
  | nil => exact ⟨.refl s, h.mono fun id hid _ => Or.inl ⟨hid, fun w hw => absurd hw List.not_mem_nil⟩⟩
  | cons wingId wings ih =>
    obtain ⟨halike, hrolled⟩ := h.recomputeWing (hwings wingId List.mem_cons_self) now
    obtain ⟨hlike, hall⟩ := ih hrolled fun id hid =>
      halike.isWing.mpr (hwings id (List.mem_cons_of_mem _ hid))
    refine ⟨halike.trans hlike, hall.mono fun id hid _ => ?_⟩
    simp only [Set.mem_ofPred_eq, halike.childIds, halike.isRoot] at hid ⊢
    rcases hid with ⟨⟨hpending, hfirst⟩ | hroot, hrest⟩ | hroot
    · refine Or.inl ⟨hpending, fun w hw => ?_⟩
      rcases List.mem_cons.mp hw with rfl | hw
      · exact hfirst
      · exact hrest w hw
    · exact Or.inr hroot
    · exact Or.inr hroot

/-- Recomputing every root leaves nothing to be done, whatever was stored. -/
theorem rolledUp_recomputeAllMerkleRoots (library : MerkleLibrary) (substrate : Substrate)
    (s : MerkleStore) (now : Int) :
    s.Alike (s.recomputeAllMerkleRoots library substrate now) ∧
      (s.recomputeAllMerkleRoots library substrate now).RolledUp library substrate ∅ := by
  have hany : s.RolledUp library substrate Set.univ :=
    ⟨fun id _ hid => absurd (Set.mem_univ id) hid, fun id _ hid => absurd (Set.mem_univ id) hid⟩
  rw [recomputeAllMerkleRoots]
  cases hroot : s.store.nodes.rootNode with
  | none =>
    have hnone : ∀ id, ¬s.IsRoot id := by
      rintro id ⟨root, hfound, -⟩
      rw [hroot] at hfound
      cases hfound
    refine ⟨.refl s, hany.mono fun id _ hid => ?_⟩
    rcases hid with ⟨w, ⟨r, hr, -⟩, -⟩ | ⟨r, hr, -⟩ | hr
    · exact absurd hr (hnone r)
    · exact absurd hr (hnone r)
    · exact absurd hr (hnone id)
  | some root =>
    have hisRoot : s.IsRoot root.id := ⟨root, hroot, rfl⟩
    obtain ⟨hlike, hall⟩ := hany.recomputeWings (s.childIds root.id)
      (fun id hid => ⟨root.id, hisRoot, hid⟩) now
    have hlast := hall.updateMerkleRoot
      (fun hroom => absurd hisRoot (hlike.isRoom.mp hroom).not_isRoot) (fun _ => rfl) now
    refine ⟨hlike.trans (alike_updateMerkleRoot ..), hlast.mono fun id hid htree => ?_⟩
    have hafter := hlike.trans (alike_updateMerkleRoot
      ((s.childIds root.id).foldl (MerkleStore.recomputeWing library substrate now) s) root.id
      (computeEstateOrWingMerkleRoot library ((s.childIds root.id).foldl
        (MerkleStore.recomputeWing library substrate now) s) root.id) now)
    rw [hafter.isRoom, hafter.isWing, hafter.isRoot] at htree
    simp only [Set.mem_ofPred_eq, hlike.parentOf, hisRoot.parentOf] at hid
    rcases hid with ⟨⟨-, hnot⟩ | hid, hne⟩ | hup
    · rcases htree with ⟨w, ⟨r, hr, hw⟩, hmem⟩ | ⟨r, hr, hmem⟩ | hr
      · obtain rfl := hr.unique hisRoot
        exact absurd hmem (hnot w hw).1
      · obtain rfl := hr.unique hisRoot
        exact absurd rfl (hnot id hmem).2
      · exact absurd (hr.unique hisRoot) hne
    · exact absurd (hid.unique hisRoot) hne
    · cases hup

/-- The root of a wing from its drawers up. -/
def wingTree (library : MerkleLibrary) (substrate : Substrate) (s : MerkleStore) (wingId : String) :
    MerkleRoot :=
  library.interiorRoots ((s.childIds wingId).map fun id =>
    (id, s.computeRoomMerkleRoot library substrate id))

/-- The root of the estate from its drawers up. -/
def estateTree (library : MerkleLibrary) (substrate : Substrate) (s : MerkleStore) (rootId : String) :
    MerkleRoot :=
  library.interiorRoots ((s.childIds rootId).map fun id => (id, s.wingTree library substrate id))

theorem Alike.wingTree (h : s.Alike s') (wingId : String) :
    s'.wingTree library substrate wingId = s.wingTree library substrate wingId := by
  rw [MerkleStore.wingTree, MerkleStore.wingTree, h.childIds,
    List.map_congr_left fun id _ => by rw [h.computeRoomMerkleRoot]]

theorem Alike.estateTree (h : s.Alike s') (rootId : String) :
    s'.estateTree library substrate rootId = s.estateTree library substrate rootId := by
  rw [MerkleStore.estateTree, MerkleStore.estateTree, h.childIds,
    List.map_congr_left fun id _ => by rw [h.wingTree]]

theorem RolledUp.wing_eq {pending : Set String} (h : s.RolledUp library substrate pending)
    (hwing : s.IsWing id) (hid : id ∉ pending) (hrooms : ∀ room ∈ s.childIds id, room ∉ pending) :
    s.merkleRoots id = some (s.wingTree library substrate id) := by
  rw [h.parent id (Or.inl hwing) hid, computeEstateOrWingMerkleRoot, wingTree,
    List.map_congr_left fun room hroom => by
      rw [h.room room ⟨id, hwing, hroom⟩ (hrooms room hroom), Option.getD_some]]

theorem RolledUp.root_eq {pending : Set String} (h : s.RolledUp library substrate pending)
    (hroot : s.IsRoot id) (hid : id ∉ pending) (hwings : ∀ wing ∈ s.childIds id, wing ∉ pending ∧
      ∀ room ∈ s.childIds wing, room ∉ pending) :
    s.merkleRoots id = some (s.estateTree library substrate id) := by
  rw [h.parent id (Or.inr hroot) hid, computeEstateOrWingMerkleRoot, estateTree,
    List.map_congr_left fun wing hwing => by
      rw [h.wing_eq ⟨id, hroot, hwing⟩ (hwings wing hwing).1 (hwings wing hwing).2,
        Option.getD_some]]

/-- Writes that leave the roots alone, and rollups of all kinds, in any order; each keeps the nodes
whose roots are still to be done. -/
inductive Run (library : MerkleLibrary) (substrate : Substrate) : Set String → MerkleStore → Prop
  | opened (s : MerkleStore) : Run library substrate Set.univ s
  | write {pending : Set String} {s s' : MerkleStore} (h : Run library substrate pending s)
      (roots : s'.merkleRoots = s.merkleRoots) :
      Run library substrate (pending ∪ disturbed library substrate s s') s'
  | rollupMerkleRoots {pending : Set String} {s : MerkleStore} (h : Run library substrate pending s)
      (roomId : String) (now : Int) (below : s.BelowWing roomId) :
      Run library substrate {id | id ∈ pending ∧ id ∉ s.settled roomId}
        (s.rollupMerkleRoots library substrate roomId now)
  | rollupRoomsForDrawers {pending : Set String} {s : MerkleStore}
      (h : Run library substrate pending s) (order : IterationOrder (Uuid × Int))
      (drawerIds : List String)
      (below : ∀ room, Touches substrate s.store drawerIds room → s.BelowWing (Uuid.hyphenated room)) :
      Run library substrate {id | id ∈ pending ∧ ∀ room, Touches substrate s.store drawerIds room →
        id ∉ s.settled (Uuid.hyphenated room)} (s.rollupRoomsForDrawers library substrate order drawerIds)
  | recomputeAllMerkleRoots {pending : Set String} {s : MerkleStore}
      (h : Run library substrate pending s) (now : Int) :
      Run library substrate ∅ (s.recomputeAllMerkleRoots library substrate now)

theorem Run.rolledUp {pending : Set String} (h : Run library substrate pending s) :
    s.RolledUp library substrate pending := by
  induction h with
  | opened s =>
    exact ⟨fun id _ hid => absurd (Set.mem_univ id) hid, fun id _ hid => absurd (Set.mem_univ id) hid⟩
  | write h roots ih => exact ih.write roots
  | rollupMerkleRoots h roomId now below ih => exact ih.rollupMerkleRoots below now
  | rollupRoomsForDrawers h order drawerIds below ih =>
    exact ih.rollupRoomsForDrawers order drawerIds below
  | recomputeAllMerkleRoots h now ih =>
    exact (rolledUp_recomputeAllMerkleRoots library substrate _ now).2

/-- In every run, a node below which nothing is to be done has the root that its drawers give; with
nothing to be done at all, recomputing the tree would change no root of it. -/
theorem merkleRoots_of_run {pending : Set String} (h : Run library substrate pending s) :
    (∀ id, s.IsRoom id → id ∉ pending →
      s.merkleRoots id = some (s.computeRoomMerkleRoot library substrate id)) ∧
    (∀ id, s.IsWing id → id ∉ pending → (∀ room ∈ s.childIds id, room ∉ pending) →
      s.merkleRoots id = some (s.wingTree library substrate id)) ∧
    (∀ id, s.IsRoot id → id ∉ pending → (∀ wing ∈ s.childIds id, wing ∉ pending ∧
        ∀ room ∈ s.childIds wing, room ∉ pending) →
      s.merkleRoots id = some (s.estateTree library substrate id)) ∧
    (pending = ∅ → ∀ now id, s.IsRoom id ∨ s.IsWing id ∨ s.IsRoot id →
      (s.recomputeAllMerkleRoots library substrate now).merkleRoots id = s.merkleRoots id) := by
  have hrolled := h.rolledUp
  refine ⟨hrolled.room, fun id hwing hid hrooms => hrolled.wing_eq hwing hid hrooms,
    fun id hroot hid hwings => hrolled.root_eq hroot hid hwings, ?_⟩
  rintro rfl now id hid
  obtain ⟨halike, hdone⟩ := rolledUp_recomputeAllMerkleRoots library substrate s now
  have hno : ∀ node : String, node ∉ (∅ : Set String) := fun node => Set.notMem_empty node
  rcases hid with hroom | hwing | hroot
  · rw [hdone.room id (halike.isRoom.mpr hroom) (hno id), hrolled.room id hroom (hno id),
      halike.computeRoomMerkleRoot]
  · rw [hdone.wing_eq (halike.isWing.mpr hwing) (hno id) fun room _ => hno room,
      hrolled.wing_eq hwing (hno id) fun room _ => hno room, halike.wingTree]
  · rw [hdone.root_eq (halike.isRoot.mpr hroot) (hno id) fun wing _ =>
        ⟨hno wing, fun room _ => hno room⟩,
      hrolled.root_eq hroot (hno id) fun wing _ => ⟨hno wing, fun room _ => hno room⟩,
      halike.estateTree]

/-- A library that packs what it is given. -/
def referenceMerkleLibrary : MerkleLibrary where
  empty := 0
  leaf uuid content := BitVec.ofNat 256 (uuid.toNat + packText content)
  interior children := BitVec.ofNat 256 (children.map fun child => child.1.toNat + child.2.toNat).sum
  interiorRoots children := BitVec.ofNat 256 (children.map fun child =>
    packText child.1 + child.2.toNat).sum
  sha256 text := BitVec.ofNat 256 (packText text)

/-- A room with a drawer, none of it rolled up. -/
def unrolledRoom : MerkleStore := ⟨DrawerStore.capturedRoom, fun _ => none, fun _ => none, fun _ => 0⟩

/-- The room after the one drawer was withdrawn. -/
def withdrawnRoom : MerkleStore :=
  { unrolledRoom with
      store := DrawerStore.capturedRoom.step referenceSubstrate
        (.mutateState (referenceUuidText "1") .withdrawn .retract "alice" none 6) }

theorem childNodes_eq_singleton {nodes : NodeTable} {node : Node}
    (h : nodes.rows.filter (fun n => n.parentId == some parent && n.lifecycle == 0) = [node]) :
    nodes.childNodes parent = [node] := by
  rw [NodeTable.childNodes, h, stableSort, List.mergeSort_singleton]

theorem merkleRoots_of_run_withdrawnRoom :
    (withdrawnRoom.rollupMerkleRoots referenceMerkleLibrary referenceSubstrate "room" 7).merkleRoots
        "root" =
      some ((withdrawnRoom.rollupMerkleRoots referenceMerkleLibrary referenceSubstrate "room"
        7).estateTree referenceMerkleLibrary referenceSubstrate "root") := by
  have hroot : withdrawnRoom.store.nodes.rootNode =
      some ⟨"root", none, "estate", "estate", 0, 0, none⟩ := by decide +kernel
  have hwings : withdrawnRoom.store.nodes.childNodes "root" =
      [⟨"wing", some "root", "Wing", "wing", 1, 0, none⟩] :=
    childNodes_eq_singleton (by decide +kernel)
  have hrooms : withdrawnRoom.store.nodes.childNodes "wing" =
      [⟨"room", some "wing", "Room", "room", 2, 0, none⟩] :=
    childNodes_eq_singleton (by decide +kernel)
  have hroom : withdrawnRoom.store.nodes.find? "room" =
      some ⟨"room", some "wing", "Room", "room", 2, 0, none⟩ := by decide +kernel
  have hwing : withdrawnRoom.parentOf "wing" = some "root" := by decide +kernel
  have hisRoot : withdrawnRoom.IsRoot "root" := ⟨_, hroot, rfl⟩
  have hbelow : withdrawnRoom.BelowWing "room" := by
    intro node hnode
    rw [hroom, Option.some.injEq] at hnode
    subst hnode
    exact ⟨"wing", "root", rfl, hwing, hisRoot⟩
  have hwrite : Run referenceMerkleLibrary referenceSubstrate _ withdrawnRoom :=
    .write (.opened unrolledRoom) rfl
  have hrun := hwrite.rollupMerkleRoots "room" 7 hbelow
  have halike := alike_rollupMerkleRoots referenceMerkleLibrary referenceSubstrate 7 hbelow
  have hsettled : ∀ id, id = "room" ∨ some "wing" = some id ∨ withdrawnRoom.IsRoot id →
      id ∈ withdrawnRoom.settled "room" := by
    intro id hid
    refine ⟨hroom ▸ rfl, ?_⟩
    rw [parentOf, hroom]
    exact hid
  refine (merkleRoots_of_run hrun).2.2.1 "root" (halike.isRoot.mpr hisRoot)
    (fun hpending => hpending.2 (hsettled _ (Or.inr (Or.inr hisRoot)))) fun wing hmem => ?_
  rw [halike.childIds, childIds, hwings] at hmem
  obtain rfl := List.mem_singleton.mp hmem
  refine ⟨fun hpending => hpending.2 (hsettled _ (Or.inr (Or.inl rfl))), fun room hmem => ?_⟩
  rw [halike.childIds, childIds, hrooms] at hmem
  obtain rfl := List.mem_singleton.mp hmem
  exact fun hpending => hpending.2 (hsettled _ (Or.inl rfl))

/-- However stale the stored roots, a snapshot attests those of the drawers as they are. -/
theorem createSnapshot_attests (s : MerkleStore) (now : Int)
    (additional : List SnapshotAttestation) :
    (s.store.nodes.rootNode = none →
      (s.createSnapshot library substrate now additional).1 = additional) ∧
    ∀ root, s.store.nodes.rootNode = some root →
      (s.createSnapshot library substrate now additional).1 =
        ⟨"estate", root.id, (s.estateTree library substrate root.id).toHex⟩ ::
          (s.childIds root.id).map (fun wing =>
            ⟨"wing", wing, (s.wingTree library substrate wing).toHex⟩) ++ additional := by
  obtain ⟨halike, hdone⟩ := rolledUp_recomputeAllMerkleRoots library substrate s now
  have hno : ∀ node : String, node ∉ (∅ : Set String) := fun node => Set.notMem_empty node
  refine ⟨fun hroot => by simp only [createSnapshot, halike.store, hroot], fun root hroot => ?_⟩
  have hisRoot : s.IsRoot root.id := ⟨root, hroot, rfl⟩
  have hestate := hdone.root_eq (halike.isRoot.mpr hisRoot) (hno root.id) fun wing _ =>
    ⟨hno wing, fun room _ => hno room⟩
  have hwings : ∀ wing ∈ s.childIds root.id,
      (s.recomputeAllMerkleRoots library substrate now).merkleRoots wing =
        some (s.wingTree library substrate wing) := by
    intro wing hwing
    have hisWing : s.IsWing wing := ⟨root.id, hisRoot, hwing⟩
    rw [hdone.wing_eq (halike.isWing.mpr hisWing) (hno wing) fun room _ => hno room,
      halike.wingTree]
  simp only [createSnapshot, halike.store, hroot]
  rw [hestate, halike.estateTree, halike.childIds, Option.getD_some,
    List.map_congr_left fun wing hwing => by rw [hwings wing hwing, Option.getD_some]]

end MerkleStore

end MootMemory
