import MootMemory.DrawerPlacementCases

namespace MootMemory

namespace NodeTable

/-- The display name of the active node that goes by a name, or else the name itself. -/
def displayNameOf (substrate : Substrate) (nodes : NodeTable) (name parentId : String) : String :=
  ((nodes.findActiveNode (normalizeLookupName substrate name) parentId).map (·.displayName)).getD
    name

/-- The wing and the room that a move leads to; none where the drawer stays. -/
def destinationNames (substrate : Substrate) (nodes : NodeTable) (row : Drawer)
    (toRoom toWing : Option String) : Option (String × String) :=
  if toRoom.isSome ∨ toWing.isSome then
    nodes.rootNode.map fun root =>
      let current := (nodes.resolveNodeNames row.parentNodeId).getD ("", "")
      let wing := toWing.getD current.1
      let room := toRoom.getD current.2
      (displayNameOf substrate nodes wing root.id,
        match nodes.findActiveNode (normalizeLookupName substrate wing) root.id with
        | some wingNode => displayNameOf substrate nodes room wingNode.id
        | none => room)
  else none

/-- No node carries one of the ids or has one as its parent. -/
def Unused (nodes : NodeTable) (minted : List String) : Prop :=
  ∀ n ∈ nodes.rows, n.id ∉ minted ∧ n.parentId.getD "" ∉ minted

instance (nodes : NodeTable) (minted : List String) : Decidable (nodes.Unused minted) :=
  inferInstanceAs (Decidable (∀ n ∈ nodes.rows, _))

variable {substrate : Substrate} {nodes nodes' : NodeTable} {name parentId mintedId : String}
  {node : Node}

theorem Unused.mono {minted minted' : List String} (h : nodes.Unused minted)
    (hsub : ∀ id ∈ minted', id ∈ minted) : nodes.Unused minted' := fun n hn =>
  ⟨fun hid => (h n hn).1 (hsub _ hid), fun hparent => (h n hn).2 (hsub _ hparent)⟩

/-- A node asked for is the active one of that name, or a new one under the minted id. -/
theorem createNode_node (h : createNode substrate nodes name parentId mintedId = .ok (node, nodes')) :
    (nodes.findActiveNode (normalizeLookupName substrate name) parentId = some node ∧
      nodes' = nodes) ∨
    (nodes.findActiveNode (normalizeLookupName substrate name) parentId = none ∧
      node.id = mintedId ∧ node.displayName = name ∧ nodes'.rows = nodes.rows ++ [node]) := by
  obtain ⟨parent, -, h⟩ := except_bind_ok.mp h
  split at h
  next => cases h
  next =>
    cases hfind : findActiveNode nodes (normalizeLookupName substrate name) parentId with
    | some existing =>
      simp only [hfind] at h
      cases h
      exact Or.inl ⟨rfl, rfl⟩
    | none =>
      simp only [hfind] at h
      obtain ⟨grown, hinsert, h⟩ := except_bind_ok.mp h
      obtain ⟨found, hfound, h⟩ := except_bind_ok.mp h
      cases h
      obtain ⟨-, hrows⟩ := KeyedTable.insert?_eq_some_iff.mp (insertNode_eq_ok hinsert)
      have hfound := requireNode_eq_ok hfound
      have hnone := hfind
      unfold findActiveNode at hfound hnone
      beta_reduce at hfound
      rw [hrows, List.find?_append, hnone, Option.none_or] at hfound
      simp only [List.find?_singleton, beq_self_eq_true, Bool.and_self, if_true,
        Option.some.injEq] at hfound
      subst hfound
      exact Or.inr ⟨rfl, rfl, rfl, hrows⟩

theorem createNode_displayName
    (h : createNode substrate nodes name parentId mintedId = .ok (node, nodes')) :
    node.displayName = displayNameOf substrate nodes name parentId := by
  rw [displayNameOf]
  rcases createNode_node h with ⟨hfind, -⟩ | ⟨hfind, -, hname, -⟩
  · rw [hfind]; rfl
  · rw [hfind]; exact hname

/-- A node created under a wing has the names of both. -/
theorem resolveNodeNames_of_mem {wing room : Node} (hwing : wing ∈ nodes.rows)
    (hroom : room ∈ nodes.rows) (hparent : room.parentId = some wing.id) :
    nodes.resolveNodeNames room.id = some (wing.displayName, room.displayName) := by
  rw [resolveNodeNames, KeyedTable.find?_of_mem hroom, Option.map_some, hparent, Option.getD_some,
    KeyedTable.find?_of_mem hwing]
  rfl

/-- The room name is looked up in the table as it was before the wing was created. -/
theorem displayNameOf_created {root wing : Node} {room : String}
    (hunused : nodes.Unused [mintedId])
    (h : createNode substrate nodes name root.id mintedId = .ok (wing, nodes')) :
    displayNameOf substrate nodes' room wing.id =
      match nodes.findActiveNode (normalizeLookupName substrate name) root.id with
      | some wingNode => displayNameOf substrate nodes room wingNode.id
      | none => room := by
  obtain ⟨-, hfound, parent, hparent⟩ := createNode_ok h
  rcases createNode_node h with ⟨hfind, rfl⟩ | ⟨hfind, hid, -, hrows⟩
  · rw [hfind]
  · rw [hfind, displayNameOf]
    have hnone : nodes'.findActiveNode (normalizeLookupName substrate room) wing.id = none := by
      rw [findActiveNode, List.find?_eq_none, hrows]
      intro n hn
      simp only [Bool.and_eq_true, beq_iff_eq, not_and]
      intro hkey
      have hpar := hkey.1
      exfalso
      rw [List.mem_append, List.mem_singleton] at hn
      rcases hn with hn | rfl
      · exact (hunused n hn).2 (by rw [hpar, Option.getD_some, hid]; exact List.mem_singleton_self _)
      · obtain ⟨hmem, hroot⟩ := KeyedTable.find?_eq_some_iff.mp hparent
        rw [(findActiveNode_eq_some hfound).2, Option.some.injEq] at hpar
        refine (hunused parent hmem).1 ?_
        rw [hroot, hpar, hid]
        exact List.mem_singleton_self _
    rw [hnone]
    rfl

end NodeTable

namespace DrawerStore

variable {substrate : Substrate} {s s' : DrawerStore}

/-- The room that a move finds or creates has the destination's names. -/
theorem destinationRoom_names {row : Drawer} {toRoom toWing : Option String} {minted : MintedIds}
    {toParent : Option String} (hunused : s.nodes.Unused [minted.wing, minted.room])
    (h : destinationRoom substrate row toRoom toWing minted s = .ok toParent s') :
    toParent.bind s'.nodes.resolveNodeNames =
      s.nodes.destinationNames substrate row toRoom toWing := by
  rw [destinationRoom] at h
  rw [NodeTable.destinationNames]
  split at h
  next hmoves =>
    rw [if_pos hmoves]
    cases hroot : s.nodes.rootNode with
    | none =>
      simp only [bind, EStateM.bind, get_eq, hroot] at h
      cases h
      rfl
    | some root =>
      simp only [bind, EStateM.bind, get_eq, hroot] at h
      cases hw : createNode substrate (toWing.getD
          ((s.nodes.resolveNodeNames row.parentNodeId).getD ("", "")).1) root.id minted.wing s with
      | error e s₁ => rw [hw] at h; cases h
      | ok wing s₁ =>
        rw [hw] at h
        obtain ⟨e', hr⟩ | ⟨_, nodes, hwing, hr⟩ := createNode_cases hw
        · cases hr
        cases hr
        simp only at h
        cases hr : createNode substrate (toRoom.getD
            ((s.nodes.resolveNodeNames row.parentNodeId).getD ("", "")).2) wing.id minted.room
            (s.withNodes nodes) with
        | error e s₂ => rw [hr] at h; cases h
        | ok room s₂ =>
          rw [hr] at h
          obtain ⟨e', hr⟩ | ⟨_, nodes₂, hroom, hr⟩ := createNode_cases hr
          · cases hr
          cases hr
          cases h
          have hgrown := (NodeTable.createNode_ok hroom).1
          have hwingMem := (NodeTable.findActiveNode_eq_some (NodeTable.createNode_ok hwing).2.1).1
          obtain ⟨hroomMem, hparent⟩ :=
            NodeTable.findActiveNode_eq_some (NodeTable.createNode_ok hroom).2.1
          have hfirst : s.nodes.Unused [minted.wing] := hunused.mono (by simp)
          rw [Option.bind_some, Option.map_some]
          change nodes₂.resolveNodeNames room.id = _
          rw [NodeTable.resolveNodeNames_of_mem (hgrown.old _ hwingMem) hroomMem hparent,
            NodeTable.createNode_displayName hwing, NodeTable.createNode_displayName hroom]
          exact congrArg some (Prod.ext rfl (NodeTable.displayNameOf_created hfirst hwing))
  next hstays =>
    rw [if_neg hstays]
    cases h
    rfl

end DrawerStore

end MootMemory
