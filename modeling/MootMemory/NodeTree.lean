import MootMemory.AuditTypes
import MootMemory.KeyedTable
import MootMemory.EffectRun

namespace MootMemory

/-- A node of the containment tree; its id is the text of a UUID. -/
structure Node where
  id : String
  parentId : Option String
  displayName : String
  lookupName : String
  depth : Nat
  lifecycle : Nat
  tombstonedHlc : Option Hlc
deriving DecidableEq, Repr

abbrev NodeTable := KeyedTable Node.id

/-- The Unicode property White_Space. -/
def isWhitespace (c : Char) : Bool :=
  let n := c.toNat
  (9 ≤ n && n ≤ 13) || n == 0x20 || n == 0x85 || n == 0xA0 || n == 0x1680 ||
    (0x2000 ≤ n && n ≤ 0x200A) || n == 0x2028 || n == 0x2029 || n == 0x202F || n == 0x205F ||
    n == 0x3000

def trimChars (chars : List Char) : List Char :=
  ((chars.dropWhile isWhitespace).reverse.dropWhile isWhitespace).reverse

/-- Runs of whitespace become one space. -/
def collapseChars (prevWasSpace : Bool) : List Char → List Char
  | [] => []
  | c :: cs =>
    if isWhitespace c then
      if prevWasSpace then collapseChars true cs else ' ' :: collapseChars true cs
    else c :: collapseChars false cs

def normalizeLookupName (substrate : Substrate) (displayName : String) : String :=
  substrate.toLowercase <| String.ofList <|
    collapseChars false (trimChars (substrate.nfc displayName).toList)

namespace NodeTable

def rootNode (nodes : NodeTable) : Option Node :=
  nodes.rows.find? fun n => n.parentId.isNone && n.depth == 0 && n.lifecycle == 0

def findActiveNode (nodes : NodeTable) (lookupName parentId : String) : Option Node :=
  nodes.rows.find? fun n =>
    n.parentId == some parentId && n.lookupName == lookupName && n.lifecycle == 0

def insertNode (nodes : NodeTable) (node : Node) : Except LocusKitError NodeTable :=
  match nodes.insert? node with
  | some nodes => .ok nodes
  | none => .error (.databaseUnavailable "UNIQUE constraint failed: nodes.id")

/-- A row that has to be there. -/
def requireNode (found : Option Node) (missing : LocusKitError) : Except LocusKitError Node :=
  match found with
  | some node => .ok node
  | none => .error missing

def insertAndRefetch (nodes : NodeTable) (node : Node) (refetch : NodeTable → Option Node)
    (missing : String) : Except LocusKitError (Node × NodeTable) := do
  let nodes ← insertNode nodes node
  let node ← requireNode (refetch nodes) (.databaseUnavailable missing)
  return (node, nodes)

/-- The node of that name under the parent, created under the minted id where there is none. -/
def createNode (substrate : Substrate) (nodes : NodeTable) (displayName parentId mintedId : String) :
    Except LocusKitError (Node × NodeTable) := do
  let lookupName := normalizeLookupName substrate displayName
  let parent ← requireNode (nodes.find? parentId) <| .invalidContent <|
    "NodeStore: parent node " ++ parentId ++ " does not exist (I-NT-5)"
  if parent.depth + 1 > 2 then
    .error <| .invalidContent <|
      "NodeStore: depth " ++ toString (parent.depth + 1) ++ " exceeds maximum 2 (I-NT-2)"
  else match findActiveNode nodes lookupName parentId with
    | some existing => .ok (existing, nodes)
    | none =>
      insertAndRefetch nodes
        ⟨mintedId, some parentId, displayName, lookupName, parent.depth + 1, 0, none⟩
        (findActiveNode · lookupName parentId)
        "NodeStore: create-on-demand resolution failed after insert"

/-- The one root of the estate, created under the minted id where there is none. -/
def createRoot (substrate : Substrate) (nodes : NodeTable) (displayName mintedId : String) :
    Except LocusKitError (Node × NodeTable) :=
  match rootNode nodes with
  | some existing => .ok (existing, nodes)
  | none =>
    insertAndRefetch nodes
      ⟨mintedId, none, displayName, normalizeLookupName substrate displayName, 0, 0, none⟩
      rootNode "NodeStore: root creation failed"

def wingNodeId (substrate : Substrate) (nodes : NodeTable) (wing : String) : Option String :=
  (nodes.rows.find? fun n => n.lookupName == normalizeLookupName substrate wing && n.depth == 1 &&
    n.tombstonedHlc.isNone).map (·.id)

/-- The room node of the names, if both are there. -/
def roomNodeId (substrate : Substrate) (nodes : NodeTable) (wing room : String) : Option String := do
  let wingId ← wingNodeId substrate nodes wing
  let node ← nodes.rows.find? fun n => n.parentId == some wingId &&
    n.lookupName == normalizeLookupName substrate room && n.depth == 2 && n.tombstonedHlc.isNone
  return node.id

/-- The display names of a parent node and of the node above it, the latter empty where that node
is missing. -/
def resolveNodeNames (nodes : NodeTable) (parentNodeId : String) : Option (String × String) :=
  (nodes.find? parentNodeId).map fun room =>
    (((nodes.find? (room.parentId.getD "")).map (·.displayName)).getD "", room.displayName)

end NodeTable

namespace NodeTable

/-- The rows stay, and new ones carry minted ids. -/
structure Grown (minted : List String) (nodes nodes' : NodeTable) : Prop where
  old : ∀ n ∈ nodes.rows, n ∈ nodes'.rows
  new : ∀ n ∈ nodes'.rows, n ∈ nodes.rows ∨ n.id ∈ minted

variable {substrate : Substrate} {nodes nodes' nodes'' : NodeTable} {minted : List String}

theorem Grown.refl : Grown minted nodes nodes := ⟨fun _ h => h, fun _ h => Or.inl h⟩

theorem Grown.trans (h : Grown minted nodes nodes') (h' : Grown minted nodes' nodes'') :
    Grown minted nodes nodes'' := by
  refine ⟨fun n hn => h'.old n (h.old n hn), fun n hn => ?_⟩
  rcases h'.new n hn with hn | hn
  · exact h.new n hn
  · exact Or.inr hn

theorem Grown.mono {minted' : List String} (h : Grown minted nodes nodes')
    (hsub : ∀ id ∈ minted, id ∈ minted') : Grown minted' nodes nodes' :=
  ⟨h.old, fun n hn => (h.new n hn).imp_right (hsub _)⟩

theorem insertNode_eq_ok {node : Node} (h : insertNode nodes node = .ok nodes') :
    nodes.insert? node = some nodes' := by
  rw [insertNode] at h
  split at h
  next hinsert => cases h; exact hinsert
  next => cases h

theorem requireNode_eq_ok {found : Option Node} {missing : LocusKitError} {node : Node}
    (h : requireNode found missing = .ok node) : found = some node := by
  cases found with
  | none => cases h
  | some n => cases h; rfl

theorem insertAndRefetch_grown {node new : Node} {refetch : NodeTable → Option Node}
    {missing : String} (h : insertAndRefetch nodes new refetch missing = .ok (node, nodes')) :
    Grown [new.id] nodes nodes' ∧ refetch nodes' = some node := by
  obtain ⟨grown, hinsert, h⟩ := except_bind_ok.mp h
  obtain ⟨found, hfound, h⟩ := except_bind_ok.mp h
  cases h
  obtain ⟨-, hrows⟩ := KeyedTable.insert?_eq_some_iff.mp (insertNode_eq_ok hinsert)
  refine ⟨⟨fun n hn => ?_, fun n hn => ?_⟩, requireNode_eq_ok hfound⟩
  · rw [hrows]
    exact List.mem_append_left _ hn
  · rw [hrows, List.mem_append, List.mem_singleton] at hn
    rcases hn with hn | rfl
    · exact Or.inl hn
    · exact Or.inr (List.mem_singleton_self _)

/-- A node asked for is found among the active ones under its parent. -/
theorem createNode_ok {displayName parentId mintedId : String} {node : Node}
    (h : createNode substrate nodes displayName parentId mintedId = .ok (node, nodes')) :
    Grown [mintedId] nodes nodes' ∧
      findActiveNode nodes' (normalizeLookupName substrate displayName) parentId = some node ∧
      ∃ parent, nodes.find? parentId = some parent := by
  obtain ⟨parent, hparent, h⟩ := except_bind_ok.mp h
  have hparent := requireNode_eq_ok hparent
  split at h
  next => cases h
  next =>
    cases hfind : findActiveNode nodes (normalizeLookupName substrate displayName) parentId with
    | some existing =>
      simp only [hfind] at h
      cases h
      exact ⟨.refl, hfind, parent, hparent⟩
    | none =>
      simp only [hfind] at h
      obtain ⟨hgrown, hfound⟩ := insertAndRefetch_grown h
      exact ⟨hgrown, hfound, parent, hparent⟩

theorem createRoot_grown {displayName mintedId : String} {node : Node}
    (h : createRoot substrate nodes displayName mintedId = .ok (node, nodes')) :
    Grown [mintedId] nodes nodes' := by
  rw [createRoot] at h
  split at h
  next => cases h; exact .refl
  next => exact (insertAndRefetch_grown h).1

theorem findActiveNode_eq_some {lookupName parentId : String} {node : Node}
    (h : findActiveNode nodes lookupName parentId = some node) :
    node ∈ nodes.rows ∧ node.parentId = some parentId := by
  refine ⟨List.mem_of_find?_eq_some h, ?_⟩
  have hnode := List.find?_some h
  simp only [Bool.and_eq_true, beq_iff_eq] at hnode
  exact hnode.1.1

/-- Ids that were not minted stand for what they stood for. -/
theorem Grown.find?_eq {id : String} (h : Grown minted nodes nodes') (hid : id ∉ minted) :
    nodes'.find? id = nodes.find? id := by
  refine Option.ext fun n => ?_
  rw [KeyedTable.find?_eq_some_iff, KeyedTable.find?_eq_some_iff]
  constructor
  · rintro ⟨hn, rfl⟩
    exact ⟨(h.new n hn).resolve_right hid, rfl⟩
  · rintro ⟨hn, rfl⟩
    exact ⟨h.old n hn, rfl⟩

/-- A node keeps its names while no minted id is one that it or its parent goes by. -/
theorem Grown.resolveNodeNames_eq {parentNodeId : String} (h : Grown minted nodes nodes')
    (hid : parentNodeId ∉ minted)
    (hparent : ∀ n ∈ nodes.rows, n.parentId.getD "" ∉ minted) :
    resolveNodeNames nodes' parentNodeId = resolveNodeNames nodes parentNodeId := by
  rw [resolveNodeNames, resolveNodeNames, h.find?_eq hid]
  cases hroom : nodes.find? parentNodeId with
  | none => rfl
  | some room =>
    rw [Option.map_some, Option.map_some,
      h.find?_eq (hparent room (KeyedTable.find?_eq_some_iff.mp hroom).1)]

end NodeTable

end MootMemory
