import MootMemory.DestinationNames
import MootMemory.EstateCapture

namespace MootMemory

namespace NodeTable

/-- New nodes stand behind the old ones. -/
def Extended (nodes nodes' : NodeTable) : Prop := nodes.rows <+: nodes'.rows

/-- The node that a name stands for under a parent, already there and reached without creating. -/
structure Known (substrate : Substrate) (nodes : NodeTable) (name parentId : String) (node : Node) :
    Prop where
  parent : ∃ parent, nodes.find? parentId = some parent ∧ ¬parent.depth + 1 > 2
  found : nodes.findActiveNode (normalizeLookupName substrate name) parentId = some node

/-- The normalized names of the wing and the room of a parent node. -/
def placeOf (nodes : NodeTable) (parentNodeId : String) : Option (String × String) := do
  let room ← nodes.find? parentNodeId
  let wing ← nodes.find? (room.parentId.getD "")
  return (wing.lookupName, room.lookupName)

variable {substrate : Substrate} {nodes nodes' nodes'' : NodeTable} {name parentId mintedId : String}
  {node : Node}

theorem Extended.refl : nodes.Extended nodes := List.prefix_rfl

theorem Extended.trans (h : nodes.Extended nodes') (h' : nodes'.Extended nodes'') :
    nodes.Extended nodes'' := List.IsPrefix.trans h h'

theorem Extended.first {p : Node → Bool} (h : nodes.Extended nodes')
    (hfind : nodes.rows.find? p = some node) : nodes'.rows.find? p = some node := by
  obtain ⟨rest, hrest⟩ := h
  rw [← hrest, List.find?_append, hfind, Option.some_or]

theorem Extended.find? {id : String} (h : nodes.Extended nodes')
    (hfind : nodes.find? id = some node) : nodes'.find? id = some node := h.first hfind

theorem Known.mono (hknown : Known substrate nodes name parentId node)
    (h : nodes.Extended nodes') : Known substrate nodes' name parentId node := by
  obtain ⟨⟨parent, hparent, hdepth⟩, hfound⟩ := hknown
  exact ⟨⟨parent, h.find? hparent, hdepth⟩, h.first hfound⟩

theorem Known.congr {name' : String} (hknown : Known substrate nodes name parentId node)
    (h : normalizeLookupName substrate name = normalizeLookupName substrate name') :
    Known substrate nodes name' parentId node := ⟨hknown.parent, h ▸ hknown.found⟩

/-- A node that is known is not created again. -/
theorem Known.createNode_eq (h : Known substrate nodes name parentId node) :
    createNode substrate nodes name parentId mintedId = .ok (node, nodes) := by
  obtain ⟨⟨parent, hparent, hdepth⟩, hfound⟩ := h
  simp only [createNode, hparent, requireNode, hfound, bind, Except.bind, if_neg hdepth]

theorem Known.mem (h : Known substrate nodes name parentId node) :
    node ∈ nodes.rows ∧ node.parentId = some parentId ∧
      node.lookupName = normalizeLookupName substrate name := by
  refine ⟨List.mem_of_find?_eq_some h.found, ?_⟩
  have hnode := List.find?_some h.found
  simp only [Bool.and_eq_true, beq_iff_eq] at hnode
  exact hnode.1

/-- A node asked for is known from then on. -/
theorem createNode_known
    (h : createNode substrate nodes name parentId mintedId = .ok (node, nodes')) :
    nodes.Extended nodes' ∧ Known substrate nodes' name parentId node := by
  have hextended : nodes.Extended nodes' := by
    rcases createNode_node h with ⟨-, rfl⟩ | ⟨-, -, -, hrows⟩
    · exact .refl
    · exact ⟨[node], hrows.symm⟩
  refine ⟨hextended, ?_, (createNode_ok h).2.1⟩
  obtain ⟨parent, hparent, h⟩ := except_bind_ok.mp h
  refine ⟨parent, hextended.find? (requireNode_eq_ok hparent), ?_⟩
  split at h
  next => cases h
  next hdepth => exact hdepth

theorem Extended.placeOf {place : String × String} {id : String} (h : nodes.Extended nodes')
    (hplace : nodes.placeOf id = some place) : nodes'.placeOf id = some place := by
  obtain ⟨room, hroom, hplace⟩ := Option.bind_eq_some_iff.mp hplace
  obtain ⟨wing, hwing, hplace⟩ := Option.bind_eq_some_iff.mp hplace
  rw [NodeTable.placeOf, h.find? hroom, Option.bind_eq_bind, Option.bind_some, h.find? hwing]
  exact hplace

/-- A place that minted ids have no part in stays as it is. -/
theorem Grown.placeOf_eq {minted : List String} {id : String} (h : Grown minted nodes nodes')
    (hid : id ∉ minted) (hparent : ∀ n ∈ nodes.rows, n.id = id → n.parentId.getD "" ∉ minted) :
    nodes'.placeOf id = nodes.placeOf id := by
  rw [placeOf, placeOf, h.find?_eq hid]
  cases hroom : nodes.find? id with
  | none => rfl
  | some room =>
    obtain ⟨hmem, hroomId⟩ := KeyedTable.find?_eq_some_iff.mp hroom
    rw [Option.bind_eq_bind, Option.bind_some, Option.bind_some,
      h.find?_eq (hparent room hmem hroomId)]

end NodeTable

/-- The normalized names of the wing and the room a frame names. -/
def CaptureFrame.place (substrate : Substrate) (frame : CaptureFrame) : String × String :=
  (normalizeLookupName substrate frame.wingName, normalizeLookupName substrate frame.room)

namespace DrawerStore

/-- The room of a frame is there already. -/
def KnownRoom (substrate : Substrate) (nodes : NodeTable) (root : Node) (frame : CaptureFrame)
    (room : Node) : Prop :=
  ∃ wing, NodeTable.Known substrate nodes frame.wingName root.id wing ∧
    NodeTable.Known substrate nodes frame.room wing.id room

variable {substrate : Substrate} {nodes nodes' : NodeTable} {root room room' : Node}
  {frame frame' : CaptureFrame} {s : DrawerStore} {minted : MintedIds}

theorem KnownRoom.mono (hknown : KnownRoom substrate nodes root frame room)
    (h : nodes.Extended nodes') : KnownRoom substrate nodes' root frame room := by
  obtain ⟨wing, hwing, hroom⟩ := hknown
  exact ⟨wing, hwing.mono h, hroom.mono h⟩

theorem KnownRoom.congr (hknown : KnownRoom substrate nodes root frame room)
    (h : frame.place substrate = frame'.place substrate) :
    KnownRoom substrate nodes root frame' room := by
  obtain ⟨wing, hwing, hroom⟩ := hknown
  obtain ⟨hwingName, hroomName⟩ := Prod.mk.inj h
  exact ⟨wing, hwing.congr hwingName, hroom.congr hroomName⟩

/-- A room that is there is placed by its frame's names. -/
theorem KnownRoom.placeOf (h : KnownRoom substrate nodes root frame room) :
    nodes.placeOf room.id = some (frame.place substrate) := by
  obtain ⟨wing, hwing, hroom⟩ := h
  obtain ⟨hwingMem, -, hwingName⟩ := hwing.mem
  obtain ⟨hroomMem, hparent, hroomName⟩ := hroom.mem
  rw [NodeTable.placeOf, KeyedTable.find?_of_mem hroomMem, Option.bind_eq_bind, Option.bind_some,
    hparent, Option.getD_some, KeyedTable.find?_of_mem hwingMem, CaptureFrame.place, ← hwingName,
    ← hroomName]
  rfl

theorem createNode_of_known {name parentId mintedId : String} {node : Node}
    (h : NodeTable.Known substrate s.nodes name parentId node) :
    createNode substrate name parentId mintedId s = .ok node s := by
  simp only [createNode, bind, EStateM.bind, get_eq,
    h.createNode_eq, StoreM.ofExcept]
  rfl

theorem KnownRoom.resolveRoom_eq (h : KnownRoom substrate s.nodes root frame room) :
    resolveRoom substrate frame root minted s = .ok room s := by
  obtain ⟨wing, hwing, hroom⟩ := h
  simp only [resolveRoom, bind, EStateM.bind, createNode_of_known hwing, createNode_of_known hroom]

/-- Resolving a room grows the tree; the room is known from then on. -/
theorem resolveRoom_cases {r : EStateM.Result LocusKitError DrawerStore Node}
    (h : resolveRoom substrate frame root minted s = r) :
    ∃ nodes, s.nodes.Extended nodes ∧ s.nodes.Grown [minted.wing, minted.room] nodes ∧
      ((∃ e, r = .error e (s.withNodes nodes)) ∨
        ∃ room, r = .ok room (s.withNodes nodes) ∧ KnownRoom substrate nodes root frame room) := by
  rw [resolveRoom] at h
  cases hw : createNode substrate frame.wingName root.id minted.wing s with
  | error e s₁ =>
    obtain ⟨e', hr⟩ | ⟨_, _, _, hr⟩ := createNode_cases hw
    · cases hr
      simp only [bind, EStateM.bind, hw] at h
      exact ⟨s.nodes, .refl, .refl, Or.inl ⟨e, h.symm⟩⟩
    · cases hr
  | ok wing s₁ =>
    obtain ⟨e', hr⟩ | ⟨_, nodes, hwing, hr⟩ := createNode_cases hw
    · cases hr
    cases hr
    obtain ⟨hextended, hknown⟩ := NodeTable.createNode_known hwing
    have hgrown : s.nodes.Grown [minted.wing, minted.room] nodes :=
      (NodeTable.createNode_ok hwing).1.mono (by simp)
    simp only [bind, EStateM.bind, hw] at h
    obtain ⟨e, hr⟩ | ⟨room, nodes', hroom, hr⟩ := createNode_cases h
    · exact ⟨nodes, hextended, hgrown, Or.inl ⟨e, hr⟩⟩
    · obtain ⟨hextended', hknown'⟩ := NodeTable.createNode_known hroom
      have hgrown' : nodes.Grown [minted.wing, minted.room] nodes' :=
        (NodeTable.createNode_ok hroom).1.mono (by simp)
      exact ⟨nodes', hextended.trans hextended', hgrown.trans hgrown',
        Or.inr ⟨room, hr, wing, hknown.mono hextended', hknown'⟩⟩

end DrawerStore

end MootMemory
