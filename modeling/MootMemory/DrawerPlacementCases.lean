import MootMemory.DrawerWriteCases
import MootMemory.NodeTree

namespace MootMemory

namespace DrawerStore

/-- How a move ends: refused, failed while its rooms were created, or done. -/
inductive ReanchorOutcome (substrate : Substrate) (s : DrawerStore) (drawerId : String)
    (toRoom toWing : Option String) (toLattice : Option LatticeAnchor) (changedBy : String)
    (reason : Option String) (now : Int) (minted : MintedIds) :
    EStateM.Result LocusKitError DrawerStore Unit → Prop
  | refused {r} (h : Refused substrate s now r) :
      ReanchorOutcome substrate s drawerId toRoom toWing toLattice changedBy reason now minted r
  | failed {e nodes} (hnodes : s.nodes.Grown [minted.wing, minted.room] nodes) :
      ReanchorOutcome substrate s drawerId toRoom toWing toLattice changedBy reason now minted
        (.error e ((s.ticked substrate now).withNodes nodes))
  | moved {row event nodes toParent} (hid : row.id = drawerId)
      (hgate : Admitted substrate s now row .mutate []
        (substrate.udcAnchor ((toLattice.map (·.udcCode)).getD row.udcCode)) changedBy event)
      (hnodes : s.nodes.Grown [minted.wing, minted.room] nodes)
      (hdest : destinationRoom substrate row toRoom toWing minted (s.ticked substrate now) =
        .ok toParent ((s.ticked substrate now).withNodes nodes)) :
      ReanchorOutcome substrate s drawerId toRoom toWing toLattice changedBy reason now minted
        (.ok () ((((s.ticked substrate now).withNodes nodes).rewritten drawerId
          (·.replace toLattice toParent) (Drawer.replace_id toLattice toParent)).logged
            (event.withReason reason)))

variable {substrate : Substrate} {s : DrawerStore}

theorem createNode_cases {displayName parentId mintedId : String}
    {r : EStateM.Result LocusKitError DrawerStore Node}
    (h : createNode substrate displayName parentId mintedId s = r) :
    (∃ e, r = .error e s) ∨ ∃ node nodes,
      NodeTable.createNode substrate s.nodes displayName parentId mintedId = .ok (node, nodes) ∧
        r = .ok node (s.withNodes nodes) := by
  change (StoreM.ofExcept (NodeTable.createNode substrate s.nodes displayName parentId mintedId) >>=
    _) s = r at h
  obtain ⟨e, -, hr⟩ | ⟨⟨node, nodes⟩, hok, h⟩ := ofExcept_bind_cases h
  · exact Or.inl ⟨e, hr⟩
  · exact Or.inr ⟨node, nodes, hok, h.symm⟩

theorem createRoot_cases {displayName mintedId : String}
    {r : EStateM.Result LocusKitError DrawerStore Node}
    (h : createRoot substrate displayName mintedId s = r) :
    (∃ e, r = .error e s) ∨ ∃ node nodes,
      NodeTable.createRoot substrate s.nodes displayName mintedId = .ok (node, nodes) ∧
        r = .ok node (s.withNodes nodes) := by
  change (StoreM.ofExcept (NodeTable.createRoot substrate s.nodes displayName mintedId) >>=
    _) s = r at h
  obtain ⟨e, -, hr⟩ | ⟨⟨node, nodes⟩, hok, h⟩ := ofExcept_bind_cases h
  · exact Or.inl ⟨e, hr⟩
  · exact Or.inr ⟨node, nodes, hok, h.symm⟩

/-- The wing and the room of a move; without one of them nothing is looked up. -/
theorem destinationRoom_cases {row : Drawer} {toRoom toWing : Option String} {minted : MintedIds}
    {r : EStateM.Result LocusKitError DrawerStore (Option String)}
    (h : destinationRoom substrate row toRoom toWing minted s = r) :
    (∃ e nodes, s.nodes.Grown [minted.wing, minted.room] nodes ∧ r = .error e (s.withNodes nodes)) ∨
      ∃ toParent nodes, s.nodes.Grown [minted.wing, minted.room] nodes ∧
        r = .ok toParent (s.withNodes nodes) := by
  have hwing : ∀ id ∈ [minted.wing], id ∈ [minted.wing, minted.room] := by simp
  have hroom : ∀ id ∈ [minted.room], id ∈ [minted.wing, minted.room] := by simp
  rw [destinationRoom] at h
  split at h
  next =>
    cases hroot : s.nodes.rootNode with
    | none =>
      simp only [bind, EStateM.bind, get_eq, hroot] at h
      exact Or.inr ⟨none, s.nodes, .refl, h.symm⟩
    | some root =>
      simp only [bind, EStateM.bind, get_eq, hroot] at h
      cases hw : createNode substrate (toWing.getD
          ((s.nodes.resolveNodeNames row.parentNodeId).getD ("", "")).1) root.id minted.wing s with
      | error e s₁ =>
        rw [hw] at h
        obtain ⟨e', hr⟩ | ⟨_, _, _, hr⟩ := createNode_cases hw
        · cases hr; exact Or.inl ⟨e, s.nodes, .refl, h.symm⟩
        · cases hr
      | ok wing s₁ =>
        rw [hw] at h
        obtain ⟨e', hr⟩ | ⟨_, nodes, hok, hr⟩ := createNode_cases hw
        · cases hr
        cases hr
        have hgrown := (NodeTable.createNode_ok hok).1.mono hwing
        simp only at h
        cases hr : createNode substrate (toRoom.getD
            ((s.nodes.resolveNodeNames row.parentNodeId).getD ("", "")).2) wing.id minted.room
            (s.withNodes nodes) with
        | error e s₂ =>
          rw [hr] at h
          obtain ⟨e', hr⟩ | ⟨_, _, _, hr⟩ := createNode_cases hr
          · cases hr; exact Or.inl ⟨e, nodes, hgrown, h.symm⟩
          · cases hr
        | ok room s₂ =>
          rw [hr] at h
          obtain ⟨e', hr⟩ | ⟨_, nodes₂, hok, hr⟩ := createNode_cases hr
          · cases hr
          cases hr
          exact Or.inr ⟨some room.id, nodes₂,
            hgrown.trans ((NodeTable.createNode_ok hok).1.mono hroom), h.symm⟩
  next => exact Or.inr ⟨none, s.nodes, .refl, h.symm⟩

theorem reanchorGated_outcome {drawerId : String} {toRoom toWing : Option String}
    {toLattice : Option LatticeAnchor} {changedBy : String} {reason : Option String} {now : Int}
    {minted : MintedIds} {r : EStateM.Result LocusKitError DrawerStore Unit}
    (h : reanchorGated substrate drawerId toRoom toWing toLattice changedBy reason now minted s =
      r) :
    ReanchorOutcome substrate s drawerId toRoom toWing toLattice changedBy reason now minted r := by
  rw [reanchorGated] at h
  obtain ⟨e, -, hr⟩ | ⟨_, -, h⟩ := ofExcept_bind_cases h
  · exact .refused (hr ▸ .here e)
  obtain ⟨e, -, hr⟩ | ⟨_, -, h⟩ := ofExcept_bind_cases h
  · exact .refused (hr ▸ .here e)
  obtain ⟨-, hr⟩ | ⟨row, hfind, hid, h⟩ := readDrawer_bind_cases h
  · exact .refused (hr ▸ .here _)
  obtain ⟨e, -, hr⟩ | ⟨rowUuid, huuid, h⟩ := ofExcept_bind_cases h
  · exact .refused (hr ▸ .here e)
  change (admitWrite substrate _ _ now >>= _) s = r at h
  obtain ⟨violation, -, hr⟩ | ⟨event, hadm, h⟩ := admitWrite_bind_cases h
  · exact .refused (hr ▸ .ticked _)
  have hgate : Admitted substrate s now row .mutate []
      (substrate.udcAnchor ((toLattice.map (·.udcCode)).getD row.udcCode)) changedBy event :=
    ⟨hid ▸ hfind, rowUuid, hid ▸ requireUuid_eq_ok huuid, hadm⟩
  cases hdest : destinationRoom substrate row toRoom toWing minted (s.ticked substrate now) with
  | error e s' =>
    simp only [bind, EStateM.bind, hdest] at h
    obtain ⟨e', nodes, hgrown, hr⟩ | ⟨_, _, _, hr⟩ := destinationRoom_cases hdest
    · cases hr; exact h ▸ .failed hgrown
    · cases hr
  | ok toParent s' =>
    simp only [bind, EStateM.bind, hdest] at h
    obtain ⟨_, _, _, hr⟩ | ⟨toParent', nodes, hgrown, hr⟩ := destinationRoom_cases hdest
    · cases hr
    · cases hr; exact h ▸ .moved hid hgate hgrown hdest

/-- The store right after an opening. -/
@[simps] def withOpening (substrate : Substrate) (s : DrawerStore) (text : String) (uuid : Uuid)
    (now : Int) : DrawerStore :=
  { s with
      estateUuidText := some text
      estateUuid := uuid
      clock := makeClock substrate text now }

theorem reopen_cases {mintedUuidText : String} {now : Int}
    {r : EStateM.Result LocusKitError DrawerStore Unit}
    (h : reopen substrate mintedUuidText now s = r) :
    (∃ e, r = .error e s) ∨ ∃ uuid,
      substrate.parseUuid (s.estateUuidText.getD mintedUuidText) = some uuid ∧
      r = .ok () (s.withOpening substrate (s.estateUuidText.getD mintedUuidText) uuid now) := by
  cases hparse : substrate.parseUuid (s.estateUuidText.getD mintedUuidText) with
  | none =>
    simp only [reopen, bind, EStateM.bind, get_eq, hparse] at h
    exact Or.inl ⟨_, h.symm⟩
  | some uuid =>
    simp only [reopen, bind, EStateM.bind, get_eq, hparse] at h
    exact Or.inr ⟨uuid, rfl, h.symm⟩

end DrawerStore

end MootMemory
