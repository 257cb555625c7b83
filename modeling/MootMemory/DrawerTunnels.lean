import MootMemory.DrawerWriteCases
import MootMemory.ParentForest

namespace MootMemory

/-- The tunnel is a parent edge in force, and the drawer hangs by it. -/
def Tunnel.isActiveParentOf (tunnel : Tunnel) (childId : String) : Bool :=
  tunnel.kind == .parent && tunnel.sourceDrawerId == some childId && tunnel.tombstonedAt == none

def Tunnel.tombstone (tunnel : Tunnel) (now : Int) : Tunnel :=
  { tunnel with tombstonedAt := some now }

/-- The edge that a move of the child writes. -/
def outlineTunnel (childId parentId wing room addedBy : String) (now : Int) (mintedId : String) :
    Tunnel where
  id := mintedId
  sourceWing := wing
  sourceRoom := room
  targetWing := wing
  targetRoom := room
  label := "parent"
  addedBy := addedBy
  filedAt := now
  kind := .parent
  sourceDrawerId := some childId
  targetDrawerId := some parentId
  adjectiveBitmap := 0
  tombstonedAt := none

namespace DrawerStore

def activeParentTunnels (s : DrawerStore) (childId : String) : List Tunnel :=
  s.tunnels.rows.filter (·.isActiveParentOf childId)

/-- The first parent edge of the drawer, as a query for one row finds it. -/
def activeParentTunnel (s : DrawerStore) (childId : String) : Option Tunnel :=
  s.tunnels.rows.find? (·.isActiveParentOf childId)

def validateTunnel (tunnel : Tunnel) : Except LocusKitError Unit := do
  validateNonEmpty tunnel.sourceWing "sourceWing"
  validateNonEmpty tunnel.sourceRoom "sourceRoom"
  validateNonEmpty tunnel.targetWing "targetWing"
  validateNonEmpty tunnel.targetRoom "targetRoom"
  validateNonEmpty tunnel.label "label"
  validateNonEmpty tunnel.addedBy "addedBy"

/-- A child with a parent edge takes no second one; the edge's own tombstone is not looked at. -/
def requireNoParent (s : DrawerStore) (tunnel : Tunnel) : Except LocusKitError Unit :=
  match tunnel.kind, tunnel.sourceDrawerId with
  | .parent, some childId =>
    match s.activeParentTunnel childId with
    | some _ => .error (.invalidContent ("Drawer " ++ childId ++ " already has a parent tunnel"))
    | none => .ok ()
  | _, _ => .ok ()

def insertTunnel (tunnel : Tunnel) : StoreM Unit := do
  match (← get).tunnels.insert? tunnel with
  | some tunnels => modify fun s => { s with tunnels := tunnels }
  | none => throw (.databaseUnavailable "UNIQUE constraint failed: tunnels.id")

def addTunnel (tunnel : Tunnel) : StoreM Unit := do
  StoreM.ofExcept (validateTunnel tunnel)
  StoreM.ofExcept (requireNoParent (← get) tunnel)
  insertTunnel tunnel

/-- Tombstones the drawer's parent edge, if it has one. -/
def cutFromParent (childId : String) (now : Int) : StoreM Unit :=
  modify fun s =>
    match s.activeParentTunnel childId with
    | some tunnel =>
      { s with tunnels := s.tunnels.update tunnel.id (·.tombstone now) fun _ => rfl }
    | none => s

def reparentDrawer (childId : String) (newParentId : Option String) (wing room addedBy : String)
    (now : Int) (mintedId : String) : StoreM Unit := do
  cutFromParent childId now
  match newParentId with
  | some parentId => addTunnel (outlineTunnel childId parentId wing room addedBy now mintedId)
  | none => pure ()

/-- The walk up along parent edges, for as many steps as are left. -/
def outlineLoop (s : DrawerStore) : Nat → List String → String → List String
  | 0, ancestors, _ => ancestors
  | left + 1, ancestors, current =>
    match s.activeParentTunnel current with
    | none => ancestors
    | some tunnel =>
      match tunnel.targetDrawerId with
      | some parentId => outlineLoop s left (ancestors ++ [parentId]) parentId
      | none => ancestors

def outlineMaxDepth : Nat := 256

def outlineAncestors (s : DrawerStore) (drawerId : String) : List String :=
  (s.outlineLoop outlineMaxDepth [] drawerId).reverse

/-- The drawer that a drawer hangs under. -/
def parentOf (s : DrawerStore) (drawerId : String) : Option String :=
  (s.activeParentTunnel drawerId).bind (·.targetDrawerId)

variable {s s' : DrawerStore} {tunnel : Tunnel} {tunnels : KeyedTable Tunnel.id}
  {childId drawerId : String}

theorem outlineLoop_eq (n : Nat) (ancestors : List String) (drawerId : String) :
    s.outlineLoop n ancestors drawerId = ancestors ++ climb s.parentOf n drawerId := by
  induction n generalizing ancestors drawerId with
  | zero => exact (List.append_nil _).symm
  | succ n ih =>
    rw [outlineLoop, climb, parentOf]
    cases s.activeParentTunnel drawerId with
    | none => exact (List.append_nil _).symm
    | some tunnel =>
      rw [Option.bind_some]
      dsimp only
      cases tunnel.targetDrawerId with
      | none => exact (List.append_nil _).symm
      | some parentId =>
        refine (ih (ancestors ++ [parentId]) parentId).trans ?_
        rw [List.append_assoc, List.singleton_append]

theorem outlineAncestors_eq (s : DrawerStore) (drawerId : String) :
    s.outlineAncestors drawerId = (climb s.parentOf outlineMaxDepth drawerId).reverse := by
  rw [outlineAncestors, outlineLoop_eq, List.nil_append]

theorem activeParentTunnel_eq (s : DrawerStore) (childId : String) :
    s.activeParentTunnel childId = (s.activeParentTunnels childId).head? :=
  (List.head?_filter ..).symm

theorem requireNoParent_eq_ok {u : Unit} (h : requireNoParent s tunnel = .ok u)
    (hchild : tunnel.isActiveParentOf childId = true) : s.activeParentTunnels childId = [] := by
  simp only [Tunnel.isActiveParentOf, Bool.and_eq_true, beq_iff_eq] at hchild
  obtain ⟨⟨hkind, hsource⟩, -⟩ := hchild
  rw [requireNoParent, hkind, hsource] at h
  cases hfind : s.activeParentTunnel childId with
  | some t => simp only [hfind, reduceCtorEq] at h
  | none =>
    rw [activeParentTunnel_eq] at hfind
    exact List.head?_eq_none_iff.mp hfind

theorem insertTunnel_cases {r : EStateM.Result LocusKitError DrawerStore Unit}
    (h : insertTunnel tunnel s = r) :
    (∃ e, r = .error e s) ∨
      ∃ tunnels, s.tunnels.insert? tunnel = some tunnels ∧ r = .ok () (s.withTunnels tunnels) := by
  cases hinsert : s.tunnels.insert? tunnel with
  | none =>
    simp only [insertTunnel, bind, EStateM.bind, get_eq,
      hinsert] at h
    exact Or.inl ⟨_, h.symm⟩
  | some tunnels =>
    simp only [insertTunnel, bind, EStateM.bind, get_eq,
      hinsert] at h
    exact Or.inr ⟨tunnels, rfl, h.symm⟩

/-- What the addition of a tunnel can do: nothing, or one row for a child without a parent. -/
theorem addTunnel_cases {r : EStateM.Result LocusKitError DrawerStore Unit}
    (h : addTunnel tunnel s = r) :
    (∃ e, r = .error e s) ∨
      ∃ tunnels, requireNoParent s tunnel = .ok () ∧
        s.tunnels.insert? tunnel = some tunnels ∧ r = .ok () (s.withTunnels tunnels) := by
  rw [addTunnel] at h
  obtain ⟨e, -, hr⟩ | ⟨_, -, h⟩ := ofExcept_bind_cases h
  · exact Or.inl ⟨e, hr⟩
  change (StoreM.ofExcept (requireNoParent s tunnel) >>= _) s = r at h
  obtain ⟨e, -, hr⟩ | ⟨_, hfree, h⟩ := ofExcept_bind_cases h
  · exact Or.inl ⟨e, hr⟩
  obtain ⟨e, hr⟩ | ⟨tunnels, hinsert, hr⟩ := insertTunnel_cases h
  · exact Or.inl ⟨e, hr⟩
  · exact Or.inr ⟨tunnels, hfree, hinsert, hr⟩

/-- Only the child of a new edge has other parents than before. -/
theorem activeParentTunnels_insert (h : s.tunnels.insert? tunnel = some tunnels)
    (hfree : requireNoParent s tunnel = .ok ()) (childId : String) :
    (s.withTunnels tunnels).activeParentTunnels childId =
      if tunnel.isActiveParentOf childId then [tunnel] else s.activeParentTunnels childId := by
  rw [activeParentTunnels, withTunnels_tunnels, (KeyedTable.insert?_eq_some_iff.mp h).2,
    List.filter_append]
  split
  next hchild =>
    have hnone := requireNoParent_eq_ok hfree hchild
    rw [activeParentTunnels] at hnone
    rw [hnone, List.nil_append, List.filter_cons, if_pos hchild, List.filter_nil]
  next hchild =>
    rw [List.filter_cons, if_neg hchild, List.filter_nil, List.append_nil, activeParentTunnels]

/-- No drawer hangs by a tombstoned edge. -/
theorem filter_tombstone (rows : List Tunnel) (id childId : String) (now : Int) :
    (rows.map fun t => if t.id = id then t.tombstone now else t).filter
        (·.isActiveParentOf childId) =
      (rows.filter (·.isActiveParentOf childId)).filter fun t => t.id != id := by
  induction rows with
  | nil => rfl
  | cons t rows ih =>
    rw [List.map_cons, List.filter_cons, List.filter_cons, ih]
    by_cases hid : t.id = id
    · have hcut : (t.tombstone now).isActiveParentOf childId = false := by
        simp [Tunnel.isActiveParentOf, Tunnel.tombstone]
      rw [if_pos hid, hcut, if_neg Bool.false_ne_true]
      split
      next => rw [List.filter_cons, if_neg (by simpa using hid)]
      next => rfl
    · rw [if_neg hid]
      split
      next => rw [List.filter_cons, if_pos (by simpa using hid)]
      next => rfl

/-- Each drawer hangs by at most one edge. -/
def OneParent (s : DrawerStore) : Prop :=
  ∀ childId, (s.activeParentTunnels childId).length ≤ 1

theorem cutFromParent_eq (childId : String) (now : Int) (s : DrawerStore) :
    ∃ s', cutFromParent childId now s = .ok () s' ∧ (s.OneParent → ∀ other,
      s'.activeParentTunnels other =
        if other = childId then [] else s.activeParentTunnels other) := by
  cases hfind : s.activeParentTunnel childId with
  | none =>
    refine ⟨s, ?_, fun _ other => ?_⟩
    · simp only [cutFromParent, modify_eq, hfind]
    · split
      next heq =>
        rw [activeParentTunnel_eq] at hfind
        rw [heq]
        exact List.head?_eq_none_iff.mp hfind
      next => rfl
  | some tunnel =>
    refine ⟨s.withTunnels (s.tunnels.update tunnel.id (·.tombstone now) fun _ => rfl), ?_,
      fun hone other => ?_⟩
    · simp only [cutFromParent, modify_eq, hfind,
        withTunnels]
    · have hmem := List.mem_of_find?_eq_some hfind
      rw [activeParentTunnel] at hfind
      have hactive := List.find?_some hfind
      have hrows := filter_tombstone s.tunnels.rows tunnel.id other now
      refine hrows.trans ?_
      change (s.activeParentTunnels other).filter _ = _
      split
      next heq =>
        subst heq
        rw [← activeParentTunnel, activeParentTunnel_eq] at hfind
        match hlist : s.activeParentTunnels other, hone other with
        | [], _ => rfl
        | [t], _ =>
          rw [hlist] at hfind
          cases hfind
          simp
        | _ :: _ :: _, hlen => exact absurd hlen (by simp)
      next hne =>
        refine List.filter_eq_self.mpr fun t ht => bne_iff_ne.mpr fun hid => hne ?_
        obtain ⟨htmem, htactive⟩ := List.mem_filter.mp ht
        rw [KeyedTable.eq_of_key_eq htmem hmem hid] at htactive
        simp only [Tunnel.isActiveParentOf, Bool.and_eq_true, beq_iff_eq] at hactive htactive
        exact Option.some.inj (htactive.1.2.symm.trans hactive.1.2)

end DrawerStore

end MootMemory
