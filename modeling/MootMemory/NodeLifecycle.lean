import MootMemory.NodeTree

namespace MootMemory

def Node.isActive (node : Node) : Bool := node.lifecycle == 0

def Node.isTombstoned (node : Node) : Bool := node.lifecycle == 1

def Node.tombstone (node : Node) (stamp : Hlc) : Node :=
  { node with lifecycle := 1, tombstonedHlc := some stamp }

namespace NodeTable

/-- The node as it is stored afterwards, if there is one. -/
def tombstoneNode (nodes : NodeTable) (id : String) (stamp : Hlc) : Option Node × NodeTable :=
  match nodes.find? id with
  | none => (none, nodes)
  | some node =>
    if node.isTombstoned then (some node, nodes)
    else
      let nodes := nodes.update id (·.tombstone stamp) fun _ => rfl
      (nodes.find? id, nodes)

/-- The calls that write nodes, with the id or the stamp each one draws. -/
inductive NodeCall where
  | createRoot (displayName mintedId : String)
  | createNode (displayName parentId mintedId : String)
  | tombstoneNode (id : String) (stamp : Hlc)

/-- A call that fails leaves the table as it was. -/
def written (nodes : NodeTable) : Except LocusKitError (Node × NodeTable) → NodeTable
  | .ok (_, nodes) => nodes
  | .error _ => nodes

def step (substrate : Substrate) (nodes : NodeTable) : NodeCall → NodeTable
  | .createRoot displayName mintedId =>
    written nodes (createRoot substrate nodes displayName mintedId)
  | .createNode displayName parentId mintedId =>
    written nodes (createNode substrate nodes displayName parentId mintedId)
  | .tombstoneNode id stamp => (tombstoneNode nodes id stamp).2

/-- What one call can do to the table. -/
inductive Change (nodes : NodeTable) : NodeTable → Prop
  | same : Change nodes nodes
  | root {nodes' : NodeTable} (node : Node) (rows : nodes'.rows = nodes.rows ++ [node])
      (parentless : node.parentId = none) (depth : node.depth = 0) (active : node.lifecycle = 0)
      (free : rootNode nodes = none) : Change nodes nodes'
  | child {nodes' : NodeTable} (node parent : Node) (rows : nodes'.rows = nodes.rows ++ [node])
      (found : nodes.find? parent.id = some parent) (hangs : node.parentId = some parent.id)
      (depth : node.depth = parent.depth + 1) (shallow : parent.depth + 1 ≤ 2)
      (active : node.lifecycle = 0)
      (free : findActiveNode nodes node.lookupName parent.id = none) : Change nodes nodes'
  | tombstoned (node : Node) (stamp : Hlc) (found : nodes.find? node.id = some node)
      (active : node.lifecycle ≠ 1) :
      Change nodes (nodes.update node.id (·.tombstone stamp) fun _ => rfl)

variable {substrate : Substrate} {nodes nodes' nodes'' : NodeTable} {node : Node}
  {displayName parentId mintedId missing : String} {refetch : NodeTable → Option Node}

/-- The row that was just inserted is found, so only the insert itself can fail. -/
theorem insertAndRefetch_error {e : LocusKitError} {p : Node → Bool} (hp : p node = true)
    (h : insertAndRefetch nodes node (fun nodes => nodes.rows.find? p) missing = .error e) :
    ∃ n ∈ nodes.rows, n.id = node.id := by
  cases hinsert : nodes.insert? node with
  | none => exact KeyedTable.insert?_eq_none_iff.mp hinsert
  | some nodes' =>
    have hrows : nodes'.rows = nodes.rows ++ [node] :=
      (KeyedTable.insert?_eq_some_iff.mp hinsert).2
    have hsome : (nodes'.rows.find? p).isSome := by
      rw [List.find?_isSome]
      exact ⟨node, hrows ▸ List.mem_append_right _ (List.mem_singleton_self _), hp⟩
    obtain ⟨found, hfound⟩ := Option.isSome_iff_exists.mp hsome
    rw [insertAndRefetch, insertNode, hinsert] at h
    change (requireNode (nodes'.rows.find? p) _ >>= _) = _ at h
    rw [hfound] at h
    cases h

theorem insertAndRefetch_rows {new : Node}
    (h : insertAndRefetch nodes new refetch missing = .ok (node, nodes')) :
    nodes'.rows = nodes.rows ++ [new] := by
  obtain ⟨grown, hinsert, h⟩ := except_bind_ok.mp h
  obtain ⟨found, -, h⟩ := except_bind_ok.mp h
  cases h
  exact (KeyedTable.insert?_eq_some_iff.mp (insertNode_eq_ok hinsert)).2

/-- A node is refused for want of a parent, for its depth or for a minted id in use; in each case
before anything is stored. -/
theorem createNode_error {e : LocusKitError}
    (h : createNode substrate nodes displayName parentId mintedId = .error e) :
    nodes.find? parentId = none ∨
      (∃ parent, nodes.find? parentId = some parent ∧ 2 < parent.depth + 1) ∨
      ∃ n ∈ nodes.rows, n.id = mintedId := by
  rw [createNode] at h
  cases hparent : nodes.find? parentId with
  | none => exact Or.inl rfl
  | some parent =>
    rw [hparent] at h
    change (if parent.depth + 1 > 2 then _ else _) = _ at h
    split at h
    next hdeep => exact Or.inr (Or.inl ⟨parent, rfl, hdeep⟩)
    next =>
      split at h
      next => cases h
      next =>
        exact Or.inr (Or.inr (insertAndRefetch_error (by simp) h))

/-- The root is refused only for a minted id in use. -/
theorem createRoot_error {e : LocusKitError}
    (h : createRoot substrate nodes displayName mintedId = .error e) :
    ∃ n ∈ nodes.rows, n.id = mintedId := by
  rw [createRoot] at h
  split at h
  next => cases h
  next =>
    exact insertAndRefetch_error (by simp) h

theorem createNode_change (h : createNode substrate nodes displayName parentId mintedId =
    .ok (node, nodes')) : Change nodes nodes' := by
  obtain ⟨parent, hparent, h⟩ := except_bind_ok.mp h
  have hfound := requireNode_eq_ok hparent
  have hid : parent.id = parentId := (KeyedTable.find?_eq_some_iff.mp hfound).2
  split at h
  next => cases h
  next hdepth =>
    cases hfind : findActiveNode nodes (normalizeLookupName substrate displayName) parentId with
    | some existing =>
      simp only [hfind] at h
      cases h
      exact .same
    | none =>
      simp only [hfind] at h
      subst hid
      exact .child _ parent (insertAndRefetch_rows h) hfound rfl rfl (by omega) rfl hfind

theorem createRoot_change (h : createRoot substrate nodes displayName mintedId =
    .ok (node, nodes')) : Change nodes nodes' := by
  rw [createRoot] at h
  split at h
  next => cases h; exact .same
  next hfree => exact .root _ (insertAndRefetch_rows h) rfl rfl rfl hfree

theorem tombstoneNode_change (nodes : NodeTable) (id : String) (stamp : Hlc) :
    Change nodes (tombstoneNode nodes id stamp).2 := by
  rw [tombstoneNode]
  split
  next => exact .same
  next node hfound =>
    split
    next => exact .same
    next hactive =>
      have hid : node.id = id := (KeyedTable.find?_eq_some_iff.mp hfound).2
      subst hid
      exact .tombstoned node stamp hfound (by simpa [Node.isTombstoned] using hactive)

theorem step_change (substrate : Substrate) (nodes : NodeTable) (call : NodeCall) :
    Change nodes (step substrate nodes call) := by
  cases call with
  | createRoot displayName mintedId =>
    rw [step]
    cases h : createRoot substrate nodes displayName mintedId with
    | error e => exact .same
    | ok made => exact createRoot_change h
  | createNode displayName parentId mintedId =>
    rw [step]
    cases h : createNode substrate nodes displayName parentId mintedId with
    | error e => exact .same
    | ok made => exact createNode_change h
  | tombstoneNode id stamp => exact tombstoneNode_change nodes id stamp

/-- The invariants of the containment tree. -/
structure Sound (nodes : NodeTable) : Prop where
  oneRoot : ∀ n ∈ nodes.rows, ∀ m ∈ nodes.rows, n.parentId = none → m.parentId = none →
    n.lifecycle = 0 → m.lifecycle = 0 → n = m
  rootDepth : ∀ n ∈ nodes.rows, n.parentId = none → n.depth = 0
  hangs : ∀ n ∈ nodes.rows, ∀ parentId, n.parentId = some parentId →
    ∃ parent ∈ nodes.rows, parent.id = parentId ∧ n.depth = parent.depth + 1 ∧ n.depth ≤ 2
  oneName : ∀ n ∈ nodes.rows, ∀ m ∈ nodes.rows, ∀ parentId, n.parentId = some parentId →
    m.parentId = some parentId → n.lookupName = m.lookupName → n.lifecycle = 0 →
    m.lifecycle = 0 → n = m

theorem sound_empty : Sound .empty where
  oneRoot := by simp
  rootDepth := by simp
  hangs := by simp
  oneName := by simp

/-- An active node may be added as a root where there is none, and under a parent where no active
node has its name. -/
theorem Sound.insert (h : Sound nodes) (rows : nodes'.rows = nodes.rows ++ [node])
    (asRoot : node.parentId = none → node.depth = 0 ∧
      ∀ n ∈ nodes.rows, n.parentId = none → n.lifecycle ≠ 0)
    (asChild : ∀ parentId, node.parentId = some parentId →
      (∃ parent ∈ nodes.rows, parent.id = parentId ∧ node.depth = parent.depth + 1 ∧
        node.depth ≤ 2) ∧
      ∀ n ∈ nodes.rows, n.parentId = some parentId → n.lookupName = node.lookupName →
        n.lifecycle ≠ 0) : Sound nodes' := by
  have hmem : ∀ n, n ∈ nodes'.rows ↔ n ∈ nodes.rows ∨ n = node := by
    intro n
    rw [rows, List.mem_append, List.mem_singleton]
  constructor
  · intro n hn m hm hnone hmone hna hma
    rcases (hmem n).mp hn with hn | rfl
    · rcases (hmem m).mp hm with hm | rfl
      · exact h.oneRoot n hn m hm hnone hmone hna hma
      · exact absurd hna ((asRoot hmone).2 n hn hnone)
    · rcases (hmem m).mp hm with hm | rfl
      · exact absurd hma ((asRoot hnone).2 m hm hmone)
      · rfl
  · intro n hn hnone
    rcases (hmem n).mp hn with hn | rfl
    · exact h.rootDepth n hn hnone
    · exact (asRoot hnone).1
  · intro n hn parentId hparent
    have hold : ∃ parent ∈ nodes.rows, parent.id = parentId ∧ n.depth = parent.depth + 1 ∧
        n.depth ≤ 2 := by
      rcases (hmem n).mp hn with hn | rfl
      · exact h.hangs n hn parentId hparent
      · exact (asChild parentId hparent).1
    obtain ⟨parent, hmemp, hrest⟩ := hold
    exact ⟨parent, (hmem parent).mpr (Or.inl hmemp), hrest⟩
  · intro n hn m hm parentId hnp hmp hname hna hma
    rcases (hmem n).mp hn with hn | rfl
    · rcases (hmem m).mp hm with hm | rfl
      · exact h.oneName n hn m hm parentId hnp hmp hname hna hma
      · exact absurd hna ((asChild parentId hmp).2 n hn hnp hname)
    · rcases (hmem m).mp hm with hm | rfl
      · exact absurd hma ((asChild parentId hnp).2 m hm hmp hname.symm)
      · rfl

theorem mem_tombstoned {stamp : Hlc} {n : Node} (hfound : nodes.find? node.id = some node) :
    n ∈ (nodes.update node.id (·.tombstone stamp) fun _ => rfl).rows ↔
      n = node.tombstone stamp ∨ (n ∈ nodes.rows ∧ n.id ≠ node.id) :=
  KeyedTable.mem_update_of_find? hfound

theorem Sound.tombstoned (h : Sound nodes) {stamp : Hlc}
    (hfound : nodes.find? node.id = some node) :
    Sound (nodes.update node.id (·.tombstone stamp) fun _ => rfl) := by
  have hnode : node ∈ nodes.rows := (KeyedTable.find?_eq_some_iff.mp hfound).1
  have hactive : ∀ n ∈ (nodes.update node.id (·.tombstone stamp) fun _ => rfl).rows,
      n.lifecycle = 0 → n ∈ nodes.rows := by
    intro n hn hzero
    rcases (mem_tombstoned hfound).mp hn with rfl | hn
    · exact absurd hzero Nat.one_ne_zero
    · exact hn.1
  have hold : ∀ n ∈ (nodes.update node.id (·.tombstone stamp) fun _ => rfl).rows,
      ∃ old ∈ nodes.rows, old.parentId = n.parentId ∧ old.depth = n.depth := by
    intro n hn
    rcases (mem_tombstoned hfound).mp hn with rfl | hn
    · exact ⟨node, hnode, rfl, rfl⟩
    · exact ⟨n, hn.1, rfl, rfl⟩
  have hnew : ∀ old ∈ nodes.rows, ∃ n ∈ (nodes.update node.id (·.tombstone stamp)
      fun _ => rfl).rows, n.id = old.id ∧ n.depth = old.depth := by
    intro old hmem
    by_cases hid : old.id = node.id
    · obtain rfl : old = node := KeyedTable.eq_of_key_eq hmem hnode hid
      exact ⟨_, (mem_tombstoned hfound).mpr (Or.inl rfl), rfl, rfl⟩
    · exact ⟨old, (mem_tombstoned hfound).mpr (Or.inr ⟨hmem, hid⟩), rfl, rfl⟩
  constructor
  · intro n hn m hm hnone hmone hna hma
    exact h.oneRoot n (hactive n hn hna) m (hactive m hm hma) hnone hmone hna hma
  · intro n hn hnone
    obtain ⟨old, hmem, hparent, hdepth⟩ := hold n hn
    rw [← hdepth]
    exact h.rootDepth old hmem (hparent.trans hnone)
  · intro n hn parentId hparent
    obtain ⟨old, hmem, hsame, hdepth⟩ := hold n hn
    obtain ⟨parent, hpmem, hpid, hstep, hmax⟩ := h.hangs old hmem parentId (hsame.trans hparent)
    obtain ⟨now, hnow, hid, hkept⟩ := hnew parent hpmem
    rw [hdepth] at hstep hmax
    rw [← hkept] at hstep
    exact ⟨now, hnow, hid.trans hpid, hstep, hmax⟩
  · intro n hn m hm parentId hnp hmp hname hna hma
    exact h.oneName n (hactive n hn hna) m (hactive m hm hma) parentId hnp hmp hname hna hma

theorem findActiveNode_eq_none {lookupName parentId : String}
    (h : findActiveNode nodes lookupName parentId = none) {n : Node} (hn : n ∈ nodes.rows)
    (hparent : n.parentId = some parentId) (hname : n.lookupName = lookupName) :
    n.lifecycle ≠ 0 := by
  have hno := List.find?_eq_none.mp h n hn
  simpa [hparent, hname] using hno

theorem Sound.change (h : Sound nodes) (hchange : Change nodes nodes') : Sound nodes' := by
  cases hchange with
  | same => exact h
  | root node rows parentless depth active free =>
    apply h.insert rows
    · intro _
      refine ⟨depth, fun n hn hnone => ?_⟩
      have hno := List.find?_eq_none.mp free n hn
      simpa [hnone, h.rootDepth n hn hnone] using hno
    · intro parentId hparent
      rw [parentless] at hparent
      cases hparent
  | child node parent rows found hangs depth shallow active free =>
    apply h.insert rows
    · intro hnone
      rw [hangs] at hnone
      cases hnone
    · intro parentId hparent
      obtain rfl : parent.id = parentId := Option.some.inj (hangs.symm.trans hparent)
      have hmem := (KeyedTable.find?_eq_some_iff.mp found).1
      refine ⟨⟨parent, hmem, rfl, depth, by omega⟩, fun n hn hnp hname => ?_⟩
      exact findActiveNode_eq_none free hn hnp hname
  | tombstoned node stamp found active => exact h.tombstoned found

/-- Rows are never lost: each stays as it is, or is tombstoned once and then stays. -/
def Later (nodes nodes' : NodeTable) : Prop :=
  ∀ n ∈ nodes.rows, n ∈ nodes'.rows ∨
    (n.lifecycle ≠ 1 ∧ ∃ stamp, n.tombstone stamp ∈ nodes'.rows)

theorem Later.refl : Later nodes nodes := fun _ h => Or.inl h

theorem Later.trans (h : Later nodes nodes') (h' : Later nodes' nodes'') :
    Later nodes nodes'' := by
  intro n hn
  rcases h n hn with hn | ⟨hactive, stamp, hn⟩
  · exact h' n hn
  · rcases h' _ hn with hn | ⟨hnot, -⟩
    · exact Or.inr ⟨hactive, stamp, hn⟩
    · exact absurd rfl hnot

theorem Change.later (h : Change nodes nodes') : Later nodes nodes' := by
  intro n hn
  cases h with
  | same => exact Or.inl hn
  | root node rows => exact Or.inl (rows ▸ List.mem_append_left _ hn)
  | child node parent rows => exact Or.inl (rows ▸ List.mem_append_left _ hn)
  | tombstoned node stamp found active =>
    by_cases hid : n.id = node.id
    · have hmem := (KeyedTable.find?_eq_some_iff.mp found).1
      obtain rfl : n = node := KeyedTable.eq_of_key_eq hn hmem hid
      exact Or.inr ⟨active, stamp, (mem_tombstoned found).mpr (Or.inl rfl)⟩
    · exact Or.inl ((mem_tombstoned found).mpr (Or.inr ⟨hn, hid⟩))

def run (substrate : Substrate) (nodes : NodeTable) (calls : List NodeCall) : NodeTable :=
  calls.foldl (step substrate) nodes

theorem Sound.run (h : Sound nodes) (calls : List NodeCall) :
    Sound (run substrate nodes calls) := by
  induction calls generalizing nodes with
  | nil => exact h
  | cons call calls ih => exact ih (h.change (step_change substrate nodes call))

theorem later_run (nodes : NodeTable) (calls : List NodeCall) :
    Later nodes (run substrate nodes calls) := by
  induction calls generalizing nodes with
  | nil => exact .refl
  | cons call calls ih => exact (step_change substrate nodes call).later.trans (ih _)

/-- A node that is still active is the one that the call finds. -/
theorem createNode_of_mem (h : Sound nodes) {parentId : String} (hnode : node ∈ nodes.rows)
    (hactive : node.lifecycle = 0) (hparent : node.parentId = some parentId)
    (hname : node.lookupName = normalizeLookupName substrate displayName) :
    createNode substrate nodes displayName parentId mintedId = .ok (node, nodes) := by
  obtain ⟨parent, hpmem, rfl, hdepth, hmax⟩ := h.hangs node hnode parentId hparent
  have hfind : findActiveNode nodes (normalizeLookupName substrate displayName) parent.id =
      some node := by
    cases hfound : findActiveNode nodes (normalizeLookupName substrate displayName) parent.id with
    | none => exact absurd hactive (findActiveNode_eq_none hfound hnode hparent hname)
    | some other =>
      have hother := List.find?_some hfound
      simp only [Bool.and_eq_true, beq_iff_eq] at hother
      have hsame : other = node := h.oneName other (List.mem_of_find?_eq_some hfound) node hnode
        parent.id hother.1.1 hparent (hother.1.2.trans hname.symm) hother.2 hactive
      rw [hsame]
  have hshallow : ¬parent.depth + 1 > 2 := by omega
  rw [createNode, KeyedTable.find?_of_mem hpmem]
  change (if parent.depth + 1 > 2 then _ else _) = _
  rw [if_neg hshallow, hfind]

/-- A node that was handed out is handed out again for every name of its normal form, as long as it
is active. -/
def HandsOut (substrate : Substrate) (nodes : NodeTable) : Prop :=
  ∀ displayName parentId mintedId node nodes',
    createNode substrate nodes displayName parentId mintedId = .ok (node, nodes') →
    node ∈ nodes'.rows ∧ node.isActive ∧ node.parentId = some parentId ∧
      node.lookupName = normalizeLookupName substrate displayName ∧
      ∀ (later : List NodeCall) (otherName otherId : String),
        normalizeLookupName substrate otherName = normalizeLookupName substrate displayName →
        (∃ row ∈ (run substrate nodes' later).rows, row.id = node.id ∧ row.isActive) →
        createNode substrate (run substrate nodes' later) otherName parentId otherId =
          .ok (node, run substrate nodes' later)

theorem Sound.handsOut (h : Sound nodes) : HandsOut substrate nodes := by
  intro displayName parentId mintedId node nodes' hcreate
  have hfound := (createNode_ok hcreate).2.1
  have hmem := List.mem_of_find?_eq_some hfound
  have hnode := List.find?_some hfound
  simp only [Bool.and_eq_true, beq_iff_eq] at hnode
  obtain ⟨⟨hparent, hname⟩, hactive⟩ := hnode
  refine ⟨hmem, beq_iff_eq.mpr hactive, hparent, hname, ?_⟩
  intro later otherName otherId hsame ⟨row, hrow, hid, hrowActive⟩
  have hlater : Sound (NodeTable.run substrate nodes' later) :=
    (h.change (createNode_change hcreate)).run later
  have hkept : node ∈ (NodeTable.run substrate nodes' later).rows := by
    rcases later_run nodes' later node hmem with hkept | ⟨-, stamp, hgone⟩
    · exact hkept
    · have hrowGone : row = node.tombstone stamp := KeyedTable.eq_of_key_eq hrow hgone hid
      rw [hrowGone] at hrowActive
      exact absurd hrowActive (by simp [Node.isActive, Node.tombstone])
  exact createNode_of_mem hlater hkept hactive hparent (hname.trans hsame.symm)

/-- A node is created under every parent that is there and not too deep, for every unused id. -/
def CreatesUnderParents (substrate : Substrate) (nodes : NodeTable) : Prop :=
  ∀ displayName parentId mintedId parent, nodes.find? parentId = some parent →
    parent.depth + 1 ≤ 2 → (∀ n ∈ nodes.rows, n.id ≠ mintedId) →
    ∃ node nodes', createNode substrate nodes displayName parentId mintedId = .ok (node, nodes')

theorem createsUnderParents (substrate : Substrate) (nodes : NodeTable) :
    CreatesUnderParents substrate nodes := by
  intro displayName parentId mintedId parent hparent hshallow hunused
  cases hcreate : createNode substrate nodes displayName parentId mintedId with
  | ok made => exact ⟨made.1, made.2, rfl⟩
  | error e =>
    obtain hnone | ⟨other, hother, hdeep⟩ | ⟨n, hn, hid⟩ := createNode_error hcreate
    · cases hparent.symm.trans hnone
    · cases hparent.symm.trans hother
      omega
    · exact absurd hid (hunused n hn)

/-- Whatever calls came before: the tree is sound, a tombstoned node keeps its row through all
later calls, nodes are handed out by the normal form of their names, and under a parent that is
there one is always made. -/
theorem nodeTree_sound (substrate : Substrate) (calls : List NodeCall) :
    Sound (run substrate .empty calls) ∧
      (∀ later, ∀ n ∈ (run substrate .empty calls).rows, n.isTombstoned →
        ∀ m ∈ (run substrate (run substrate .empty calls) later).rows, m.id = n.id → m = n) ∧
      HandsOut substrate (run substrate .empty calls) ∧
      CreatesUnderParents substrate (run substrate .empty calls) := by
  have hsound : Sound (NodeTable.run substrate .empty calls) := sound_empty.run calls
  refine ⟨hsound, fun later n hn hgone m hm hid => ?_, hsound.handsOut,
    createsUnderParents substrate _⟩
  have hkept : n ∈ (NodeTable.run substrate (NodeTable.run substrate .empty calls) later).rows := by
    rcases later_run _ later n hn with hkept | ⟨hactive, -⟩
    · exact hkept
    · exact absurd (beq_iff_eq.mp hgone) hactive
  exact KeyedTable.eq_of_key_eq hm hkept hid

end NodeTable

end MootMemory
