import MootMemory.OutlineForest
import MootMemory.StorageFaults

namespace MootMemory

/-- The accesses of one move of a drawer to the storage, in the order in which they are made. -/
inductive ReparentAccess where
  | findEdge
  | cutEdge
  | checkParent
  | insertEdge
deriving DecidableEq, Repr

/-- The accesses that fail, with the message of the storage. -/
abbrev ReparentFaults := ReparentAccess → Option String

namespace DrawerStore

section Under

variable (faults : ReparentFaults)

def touchWhen (needed : Prop) [Decidable needed] (access : ReparentAccess) : StoreM Unit :=
  if needed then touch faults access else pure ()

/-- The table is asked only about parent edges. -/
def requireNoParentUnder (tunnel : Tunnel) : StoreM Unit := do
  touchWhen faults (tunnel.kind = .parent ∧ tunnel.sourceDrawerId ≠ none) .checkParent
  StoreM.ofExcept (requireNoParent (← get) tunnel)

def addTunnelUnder (tunnel : Tunnel) : StoreM Unit := do
  StoreM.ofExcept (validateTunnel tunnel)
  requireNoParentUnder faults tunnel
  touch faults .insertEdge
  insertTunnel tunnel

def cutFromParentUnder (childId : String) (now : Int) : StoreM Unit := do
  touch faults .findEdge
  touchWhen faults ((← get).activeParentTunnel childId ≠ none) .cutEdge
  cutFromParent childId now

/-- The move of a drawer over a storage whose accesses may fail. -/
def reparentDrawerUnder (childId : String) (newParentId : Option String)
    (wing room addedBy : String) (now : Int) (mintedId : String) : StoreM Unit := do
  cutFromParentUnder faults childId now
  match newParentId with
  | some parentId =>
    addTunnelUnder faults (outlineTunnel childId parentId wing room addedBy now mintedId)
  | none => pure ()

end Under

variable {faults : ReparentFaults} {s s' : DrawerStore} {tunnel : Tunnel}
  {tunnels : KeyedTable Tunnel.id} {childId parentId wing room addedBy mintedId : String}
  {now : Int}

theorem touch_of_eq_none {access : ReparentAccess} (h : faults access = none) :
    touch faults access = pure () := by
  rw [touch, h]

theorem touchWhen_of_eq_none {access : ReparentAccess} {needed : Prop} [Decidable needed]
    (h : ¬needed ∨ faults access = none) : touchWhen faults needed access = pure () := by
  rw [touchWhen]
  rcases h with hno | hnone
  · rw [if_neg hno]
  · rw [touch_of_eq_none hnone, ite_self]

theorem addTunnelUnder_of_none (hcheck : faults .checkParent = none)
    (hinsert : faults .insertEdge = none) (tunnel : Tunnel) :
    addTunnelUnder faults tunnel = addTunnel tunnel := by
  simp only [addTunnelUnder, addTunnel, requireNoParentUnder, touch_of_eq_none hinsert,
    touchWhen_of_eq_none (Or.inr hcheck), pure_bind, bind_assoc]

theorem cutFromParentUnder_of_none (hfind : faults .findEdge = none)
    (hcut : s.activeParentTunnel childId = none ∨ faults .cutEdge = none) (now : Int) :
    cutFromParentUnder faults childId now s = cutFromParent childId now s := by
  rw [cutFromParentUnder, touch_of_eq_none hfind, pure_bind]
  change (touchWhen faults (s.activeParentTunnel childId ≠ none) .cutEdge >>=
    fun _ => cutFromParent childId now) s = _
  rw [touchWhen_of_eq_none (hcut.imp not_not_intro id), pure_bind]

/-- Over a storage without failures it is the plain one. -/
theorem reparentDrawerUnder_none (childId : String) (newParentId : Option String)
    (wing room addedBy : String) (now : Int) (mintedId : String) :
    reparentDrawerUnder (fun _ => none) childId newParentId wing room addedBy now mintedId =
      reparentDrawer childId newParentId wing room addedBy now mintedId := by
  have hcut : cutFromParentUnder (fun _ => none) childId now = cutFromParent childId now :=
    funext fun s => cutFromParentUnder_of_none rfl (Or.inr rfl) now
  unfold reparentDrawerUnder reparentDrawer
  rw [hcut]
  cases newParentId with
  | none => rfl
  | some parentId => simp only [@addTunnelUnder_of_none (fun _ => none) rfl rfl]

theorem validateTunnel_outlineTunnel :
    validateTunnel (outlineTunnel childId parentId wing room addedBy now mintedId) = .ok () ↔
      wing ≠ "" ∧ room ≠ "" ∧ addedBy ≠ "" := by
  by_cases hw : wing = ""
  · simp [validateTunnel, outlineTunnel, validateNonEmpty, hw, bind, Except.bind]
  · by_cases hr : room = ""
    · simp [validateTunnel, outlineTunnel, validateNonEmpty, hw, hr, bind, Except.bind]
    · by_cases ha : addedBy = ""
      · simp [validateTunnel, outlineTunnel, validateNonEmpty, hw, hr, ha, bind, Except.bind]
      · simp [validateTunnel, outlineTunnel, validateNonEmpty, hw, hr, ha, bind, Except.bind]

theorem requireNoParent_eq_ok_iff (hchild : tunnel.isActiveParentOf childId = true) :
    requireNoParent s tunnel = .ok () ↔ s.activeParentTunnels childId = [] := by
  constructor
  · intro h
    exact requireNoParent_eq_ok h hchild
  · intro h
    simp only [Tunnel.isActiveParentOf, Bool.and_eq_true, beq_iff_eq] at hchild
    have hnone : s.activeParentTunnel childId = none := by
      rw [activeParentTunnel_eq, h, List.head?_nil]
    simp only [requireNoParent, hchild.1.1, hchild.1.2, hnone]

theorem isActiveParentOf_outlineTunnel : (outlineTunnel childId parentId wing room addedBy now
    mintedId).isActiveParentOf childId = true := by
  simp [Tunnel.isActiveParentOf, outlineTunnel]

/-- When the addition of a tunnel succeeds, and what it leaves. -/
theorem addTunnel_eq_ok_iff : addTunnel tunnel s = .ok () s' ↔
    validateTunnel tunnel = .ok () ∧ requireNoParent s tunnel = .ok () ∧
      ∃ tunnels, s.tunnels.insert? tunnel = some tunnels ∧ s' = s.withTunnels tunnels := by
  constructor
  · intro h
    rw [addTunnel] at h
    obtain ⟨e, -, hr⟩ | ⟨_, hvalid, h⟩ := ofExcept_bind_cases h
    · exact absurd hr (by simp)
    change (StoreM.ofExcept (requireNoParent s tunnel) >>= _) s = _ at h
    obtain ⟨e, -, hr⟩ | ⟨_, hfree, h⟩ := ofExcept_bind_cases h
    · exact absurd hr (by simp)
    obtain ⟨e, hr⟩ | ⟨tunnels, hinsert, hr⟩ := insertTunnel_cases h
    · exact absurd hr (by simp)
    · cases hr
      exact ⟨hvalid, hfree, tunnels, hinsert, rfl⟩
  · rintro ⟨hvalid, hfree, tunnels, hinsert, rfl⟩
    rw [addTunnel, hvalid]
    change (StoreM.ofExcept (requireNoParent s tunnel) >>= fun _ => insertTunnel tunnel) s = _
    rw [hfree]
    change insertTunnel tunnel s = _
    simp only [insertTunnel, bind, EStateM.bind, get_eq,
      hinsert]
    rfl

/-- The first parent edge is the one that goes; the ids of all rows stay. -/
theorem cutFromParent_tail (childId : String) (now : Int) (s : DrawerStore) :
    ∃ s', cutFromParent childId now s = .ok () s' ∧
      s'.activeParentTunnels childId = (s.activeParentTunnels childId).tail ∧
      s'.tunnels.rows.map (·.id) = s.tunnels.rows.map (·.id) := by
  cases hfind : s.activeParentTunnel childId with
  | none =>
    refine ⟨s, ?_, ?_, rfl⟩
    · simp only [cutFromParent, modify_eq, hfind]
    · rw [activeParentTunnel_eq] at hfind
      rw [List.head?_eq_none_iff.mp hfind, List.tail_nil]
  | some tunnel =>
    refine ⟨s.withTunnels (s.tunnels.update tunnel.id (·.tombstone now) fun _ => rfl), ?_, ?_, ?_⟩
    · simp only [cutFromParent, modify_eq, hfind,
        withTunnels]
    · have hcut : (s.withTunnels (s.tunnels.update tunnel.id (·.tombstone now)
          fun _ => rfl)).activeParentTunnels childId =
          (s.activeParentTunnels childId).filter fun t => t.id != tunnel.id :=
        filter_tombstone s.tunnels.rows tunnel.id childId now
      have hnodup : ((s.activeParentTunnels childId).map (·.id)).Nodup :=
        (List.filter_sublist.map _).nodup s.tunnels.nodup
      rw [activeParentTunnel_eq] at hfind
      rw [hcut]
      cases hlist : s.activeParentTunnels childId with
      | nil => rfl
      | cons first others =>
        rw [hlist] at hfind hnodup
        obtain rfl : first = tunnel := Option.some.inj hfind
        rw [List.filter_cons, if_neg (by simp), List.tail_cons, List.filter_eq_self]
        intro t ht
        have hne := (List.nodup_cons.mp hnodup).1
        exact bne_iff_ne.mpr fun hid => hne (List.mem_map.mpr ⟨t, ht, hid⟩)
    · exact KeyedTable.map_key_rewrite fun _ => rfl

/-- A call that fails keeps the parent edges of the child; one that succeeds leaves the parent that
was asked for, and no other. -/
def ReparentsWhole (faults : ReparentFaults) (s : DrawerStore) (childId : String)
    (newParentId : Option String) (wing room addedBy : String) (now : Int) (mintedId : String) :
    Prop :=
  match reparentDrawerUnder faults childId newParentId wing room addedBy now mintedId s with
  | .error _ s' => ∀ t, t ∈ s'.activeParentTunnels childId ↔ t ∈ s.activeParentTunnels childId
  | .ok _ s' => (s'.activeParentTunnels childId).map (·.targetDrawerId) =
      newParentId.toList.map some

/-- The new edge would be stored: its texts are not empty, no row has its id and the storage answers
the two accesses. -/
def EdgeAccepted (faults : ReparentFaults) (s : DrawerStore) (wing room addedBy mintedId : String) :
    Prop :=
  wing ≠ "" ∧ room ≠ "" ∧ addedBy ≠ "" ∧ (∀ t ∈ s.tunnels.rows, t.id ≠ mintedId) ∧
    faults .checkParent = none ∧ faults .insertEdge = none

/-- The storage refuses an access before the old edge is cut. -/
def RefusedBeforeCut (faults : ReparentFaults) (s : DrawerStore) (childId : String) : Prop :=
  faults .findEdge ≠ none ∨ (s.activeParentTunnels childId ≠ [] ∧ faults .cutEdge ≠ none)

theorem insert?_isSome_iff {table : KeyedTable Tunnel.id} :
    (∃ tunnels, table.insert? tunnel = some tunnels) ↔ tunnel.id ∉ table.rows.map (·.id) := by
  rw [← Option.isSome_iff_exists, ← not_iff_not, Bool.not_eq_true, Option.isSome_eq_false_iff,
    Option.isNone_iff_eq_none, KeyedTable.insert?_eq_none_iff, not_not, List.mem_map]

/-- The addition either changes nothing or gives the child the parent. -/
theorem addTunnel_outlineTunnel_cases (s : DrawerStore) :
    (∃ e, addTunnel (outlineTunnel childId parentId wing room addedBy now mintedId) s =
        .error e s) ∨
      ∃ s', addTunnel (outlineTunnel childId parentId wing room addedBy now mintedId) s =
        .ok () s' ∧ (s'.activeParentTunnels childId).map (·.targetDrawerId) = [some parentId] := by
  obtain ⟨e, hr⟩ | ⟨tunnels, hfree, hinsert, hr⟩ := addTunnel_cases
    (rfl : addTunnel (outlineTunnel childId parentId wing room addedBy now mintedId) s = _)
  · exact Or.inl ⟨e, hr⟩
  · refine Or.inr ⟨_, hr, ?_⟩
    rw [activeParentTunnels_insert hinsert hfree, if_pos isActiveParentOf_outlineTunnel]
    rfl

/-- Over a storage that fails an access of the addition nothing is added. -/
theorem addTunnelUnder_of_fault (h : ¬(faults .checkParent = none ∧ faults .insertEdge = none))
    (s : DrawerStore) :
    ∃ e, addTunnelUnder faults (outlineTunnel childId parentId wing room addedBy now mintedId) s =
      .error e s := by
  generalize hrun : addTunnelUnder faults (outlineTunnel childId parentId wing room addedBy now
    mintedId) s = r
  rw [addTunnelUnder, requireNoParentUnder, touchWhen,
    if_pos ⟨rfl, Option.some_ne_none childId⟩] at hrun
  simp only [bind_assoc] at hrun
  obtain ⟨e, -, hr⟩ | ⟨_, -, hrun⟩ := ofExcept_bind_cases hrun
  · exact ⟨e, hr⟩
  obtain ⟨-, hr⟩ | ⟨hcheck, hrun⟩ := touch_bind_cases hrun
  · exact hr
  change (StoreM.ofExcept (requireNoParent s _) >>= _) s = r at hrun
  obtain ⟨e, -, hr⟩ | ⟨_, -, hrun⟩ := ofExcept_bind_cases hrun
  · exact ⟨e, hr⟩
  obtain ⟨-, hr⟩ | ⟨hinsert, -⟩ := touch_bind_cases hrun
  · exact hr
  · exact absurd ⟨hcheck, hinsert⟩ h

theorem addTunnelUnder_outlineTunnel_cases (s : DrawerStore) :
    (∃ e, addTunnelUnder faults (outlineTunnel childId parentId wing room addedBy now mintedId) s =
        .error e s) ∨
      ∃ s', addTunnelUnder faults (outlineTunnel childId parentId wing room addedBy now mintedId)
        s = .ok () s' ∧
          (s'.activeParentTunnels childId).map (·.targetDrawerId) = [some parentId] := by
  by_cases hanswers : faults .checkParent = none ∧ faults .insertEdge = none
  · rw [addTunnelUnder_of_none hanswers.1 hanswers.2]
    exact addTunnel_outlineTunnel_cases s
  · exact Or.inl (addTunnelUnder_of_fault hanswers s)

/-- The store that the second half of a call finds decides whether the new edge is stored. -/
theorem addTunnelUnder_outlineTunnel_iff (hrows : s'.tunnels.rows.map (·.id) =
    s.tunnels.rows.map (·.id)) : (∃ t, addTunnelUnder faults (outlineTunnel childId parentId wing
      room addedBy now mintedId) s' = .ok () t) ↔
    s'.activeParentTunnels childId = [] ∧ EdgeAccepted faults s wing room addedBy mintedId := by
  by_cases hanswers : faults .checkParent = none ∧ faults .insertEdge = none
  · have hfresh : (∃ tunnels, s'.tunnels.insert? (outlineTunnel childId parentId wing room addedBy
        now mintedId) = some tunnels) ↔ ∀ t ∈ s.tunnels.rows, t.id ≠ mintedId := by
      rw [insert?_isSome_iff, hrows]
      simp [outlineTunnel]
    rw [addTunnelUnder_of_none hanswers.1 hanswers.2]
    constructor
    · rintro ⟨t, h⟩
      obtain ⟨hvalid, hfree, tunnels, hinsert, -⟩ := addTunnel_eq_ok_iff.mp h
      obtain ⟨hw, hr, ha⟩ := validateTunnel_outlineTunnel.mp hvalid
      exact ⟨(requireNoParent_eq_ok_iff isActiveParentOf_outlineTunnel).mp hfree, hw, hr, ha,
        hfresh.mp ⟨tunnels, hinsert⟩, hanswers⟩
    · rintro ⟨hfree, hw, hr, ha, hnew, -⟩
      obtain ⟨tunnels, hinsert⟩ := hfresh.mpr hnew
      exact ⟨_, addTunnel_eq_ok_iff.mpr ⟨validateTunnel_outlineTunnel.mpr ⟨hw, hr, ha⟩,
        (requireNoParent_eq_ok_iff isActiveParentOf_outlineTunnel).mpr hfree, tunnels, hinsert,
        rfl⟩⟩
  · obtain ⟨e, herror⟩ : ∃ e, addTunnelUnder faults (outlineTunnel childId parentId wing room
        addedBy now mintedId) s' = .error e s' := addTunnelUnder_of_fault hanswers s'
    rw [herror]
    refine iff_of_false ?_ fun haccepted => hanswers haccepted.2.2.2.2.2
    rintro ⟨t, ht⟩
    cases ht

theorem activeParentTunnel_eq_none_iff :
    s.activeParentTunnel childId = none ↔ s.activeParentTunnels childId = [] := by
  rw [activeParentTunnel_eq, List.head?_eq_none_iff]

/-- A call that the storage refuses before the old edge is cut changes nothing. -/
theorem reparentDrawerUnder_of_refused (h : RefusedBeforeCut faults s childId)
    (newParentId : Option String) : ∃ e, reparentDrawerUnder faults childId newParentId wing room
      addedBy now mintedId s = .error e s := by
  generalize hrun :
    reparentDrawerUnder faults childId newParentId wing room addedBy now mintedId s = r
  unfold reparentDrawerUnder cutFromParentUnder at hrun
  simp only [bind_assoc] at hrun
  obtain ⟨-, hr⟩ | ⟨hfind, hrun⟩ := touch_bind_cases hrun
  · exact hr
  obtain ⟨hedges, hcut⟩ := h.resolve_left (not_not_intro hfind)
  have hneeded : s.activeParentTunnel childId ≠ none := fun hnone =>
    hedges (activeParentTunnel_eq_none_iff.mp hnone)
  change (touchWhen faults (s.activeParentTunnel childId ≠ none) .cutEdge >>= _) s = r at hrun
  rw [touchWhen, if_pos hneeded] at hrun
  obtain ⟨-, hr⟩ | ⟨hanswers, -⟩ := touch_bind_cases hrun
  · exact hr
  · exact absurd hanswers hcut

/-- Otherwise the old edge is cut, and the new one is added to what is left. -/
theorem reparentDrawerUnder_of_cut (h : ¬RefusedBeforeCut faults s childId)
    (newParentId : Option String) : ∃ s', reparentDrawerUnder faults childId newParentId wing room
        addedBy now mintedId s = (newParentId.elim (pure ()) fun parentId => addTunnelUnder faults
          (outlineTunnel childId parentId wing room addedBy now mintedId)) s' ∧
      s'.activeParentTunnels childId = (s.activeParentTunnels childId).tail ∧
      s'.tunnels.rows.map (·.id) = s.tunnels.rows.map (·.id) := by
  obtain ⟨hfind, hedges⟩ := not_or.mp h
  have hcut : s.activeParentTunnel childId = none ∨ faults .cutEdge = none := by
    rw [activeParentTunnel_eq_none_iff]
    by_contra hneither
    obtain ⟨hsome, hfault⟩ := not_or.mp hneither
    exact hedges ⟨hsome, hfault⟩
  obtain ⟨s', hrun, htail, hrows⟩ := cutFromParent_tail childId now s
  refine ⟨s', ?_, htail, hrows⟩
  have hunder := (cutFromParentUnder_of_none (not_not.mp hfind) hcut now).trans hrun
  simp only [reparentDrawerUnder, bind, EStateM.bind, hunder]
  cases newParentId <;> rfl

theorem reparentsWhole_none (hcut : ¬RefusedBeforeCut faults s childId) :
    ReparentsWhole faults s childId none wing room addedBy now mintedId ↔
      (s.activeParentTunnels childId).length ≤ 1 := by
  obtain ⟨s', hcall, htail, -⟩ := @reparentDrawerUnder_of_cut faults s childId wing room addedBy
    mintedId now hcut none
  rw [ReparentsWhole, hcall]
  change (s'.activeParentTunnels childId).map (·.targetDrawerId) = [] ↔ _
  rw [List.map_eq_nil_iff, htail]
  cases s.activeParentTunnels childId with
  | nil => simp
  | cons first others => simp

theorem reparentsWhole_some (hcut : ¬RefusedBeforeCut faults s childId) :
    ReparentsWhole faults s childId (some parentId) wing room addedBy now mintedId ↔
      s.activeParentTunnels childId = [] ∨ ((s.activeParentTunnels childId).length = 1 ∧
        EdgeAccepted faults s wing room addedBy mintedId) := by
  obtain ⟨s', hcall, htail, hrows⟩ := @reparentDrawerUnder_of_cut faults s childId wing room addedBy
    mintedId now hcut (some parentId)
  have haccept : (∃ t, addTunnelUnder faults (outlineTunnel childId parentId wing room addedBy now
      mintedId) s' = .ok () t) ↔
      s'.activeParentTunnels childId = [] ∧ EdgeAccepted faults s wing room addedBy mintedId :=
    addTunnelUnder_outlineTunnel_iff hrows
  have hcases : (∃ e, addTunnelUnder faults (outlineTunnel childId parentId wing room addedBy now
      mintedId) s' = .error e s') ∨ ∃ t, addTunnelUnder faults (outlineTunnel childId parentId wing
        room addedBy now mintedId) s' = .ok () t ∧
          (t.activeParentTunnels childId).map (·.targetDrawerId) = [some parentId] :=
    addTunnelUnder_outlineTunnel_cases s'
  rw [ReparentsWhole, hcall, Option.elim_some]
  generalize addTunnelUnder faults (outlineTunnel childId parentId wing room addedBy now mintedId)
    s' = r at haccept hcases
  obtain ⟨e, rfl⟩ | ⟨t, rfl, hparent⟩ := hcases
  · -- the old edge is gone, whatever stopped the new one
    have hrefused : ¬(s'.activeParentTunnels childId = [] ∧
        EdgeAccepted faults s wing room addedBy mintedId) := by
      rw [← haccept]
      simp
    dsimp only
    rw [htail] at hrefused ⊢
    have hnodup : (s.activeParentTunnels childId).Nodup :=
      (List.Nodup.of_map _ s.tunnels.nodup).filter _
    cases hlist : s.activeParentTunnels childId with
    | nil => simp
    | cons first others =>
      rw [hlist] at hrefused hnodup
      have hlost : ¬∀ t, t ∈ others ↔ t ∈ first :: others := fun h =>
        (List.nodup_cons.mp hnodup).1 ((h first).mpr List.mem_cons_self)
      constructor
      · intro h
        exact absurd h hlost
      · rintro (h | ⟨hlen, haccepted⟩)
        · exact absurd h (List.cons_ne_nil _ _)
        · have hothers : others = [] := by simpa using hlen
          exact absurd ⟨hothers, haccepted⟩ hrefused
  · obtain ⟨hempty, haccepted⟩ := haccept.mp ⟨t, rfl⟩
    rw [htail] at hempty
    dsimp only
    rw [hparent]
    simp only [Option.toList_some, List.map_cons, List.map_nil, true_iff]
    cases hlist : s.activeParentTunnels childId with
    | nil => exact Or.inl rfl
    | cons first others =>
      rw [hlist] at hempty
      have hothers : others = [] := hempty
      exact Or.inr ⟨by rw [hothers]; rfl, haccepted⟩

/-- A call does all or nothing where the storage refuses it before the cut, or where the child has
at most one parent edge and either none, or no new one to get, or the new edge is accepted. -/
theorem reparentsWhole_iff (faults : ReparentFaults) (s : DrawerStore) (childId : String)
    (newParentId : Option String) (wing room addedBy : String) (now : Int) (mintedId : String) :
    ReparentsWhole faults s childId newParentId wing room addedBy now mintedId ↔
      RefusedBeforeCut faults s childId ∨
        (s.activeParentTunnels childId).length ≤ 1 ∧ (s.activeParentTunnels childId = [] ∨
          newParentId = none ∨ EdgeAccepted faults s wing room addedBy mintedId) := by
  by_cases hcut : RefusedBeforeCut faults s childId
  · refine iff_of_true ?_ (Or.inl hcut)
    obtain ⟨e, herror⟩ := @reparentDrawerUnder_of_refused faults s childId wing room addedBy
      mintedId now hcut newParentId
    rw [ReparentsWhole, herror]
    exact fun t => Iff.rfl
  rw [or_iff_right hcut]
  cases newParentId with
  | none =>
    rw [reparentsWhole_none hcut]
    simp
  | some parentId =>
    rw [reparentsWhole_some hcut]
    cases s.activeParentTunnels childId with
    | nil => simp
    | cons first others => simp

/-- With no room to hang it in, the move of a drawer takes it off its parent and fails, and the
storage need not fail for that. -/
theorem not_reparentsWhole : ¬∀ (s : DrawerStore) (childId : String) (newParentId : Option String)
    (wing room addedBy : String) (now : Int) (mintedId : String),
    ReparentsWhole (fun _ => none) s childId newParentId wing room addedBy now mintedId := by
  intro h
  have hnested := (reparentsWhole_iff (fun _ => none) nested "a" (some "c") "" "r" "me" 5 "t3").mp
    (h nested "a" (some "c") "" "r" "me" 5 "t3")
  have hhangs : nested.activeParentTunnels "a" ≠ [] := by decide +kernel
  obtain (hfind | ⟨-, hcut⟩) | ⟨-, hnone | hnone | haccepted⟩ := hnested
  · exact hfind rfl
  · exact hcut rfl
  · exact hhangs hnone
  · cases hnone
  · exact haccepted.1 rfl

end DrawerStore

end MootMemory
