import MootMemory.FailedCapture
import MootMemory.KnownRooms

namespace MootMemory

namespace DrawerStore

/-- The drawers with the normalized names of their rooms in place of the ids of these. -/
def placedDrawers (s : DrawerStore) : List (Drawer × Option (String × String)) :=
  s.drawers.rows.map fun d => (d.setParent "", s.nodes.placeOf d.parentNodeId)

/-- The same drawers at the same places, and the same tunnels. -/
def SameOutcome (s s' : DrawerStore) : Prop :=
  s.placedDrawers = s'.placedDrawers ∧ s.tunnels = s'.tunnels

/-- The node ids minted for the frames. -/
def mintedNodeIds (frames : List (CaptureFrame × CaptureIds)) : List String :=
  frames.flatMap fun p => [p.2.nodes.wing, p.2.nodes.room]

/-- The ids minted for nodes do not occur in the store yet. -/
def FreshFor (s : DrawerStore) (frames : List (CaptureFrame × CaptureIds)) : Prop :=
  s.nodes.Unused (mintedNodeIds frames) ∧
    ∀ d ∈ s.drawers.rows, d.parentNodeId ∉ mintedNodeIds frames

instance (s : DrawerStore) (frames : List (CaptureFrame × CaptureIds)) :
    Decidable (s.FreshFor frames) := inferInstanceAs (Decidable (_ ∧ _))

/-- Each frame whose drawer the store takes, once those before it are captured, names the room that
the earlier frames with its cache key name. -/
def KeepsRooms (substrate : Substrate) (now : Int) (earlier : List CaptureFrame) :
    List (CaptureFrame × CaptureIds) → DrawerStore → Prop
  | [], _ => True
  | (frame, ids) :: frames, s =>
    (frame.validate = .ok () →
      (∃ parentNodeId, StoresDrawer substrate .none s (frame.drawer parentNodeId ids now) now) →
      ∀ g ∈ earlier, g.cacheKey = frame.cacheKey → g.place substrate = frame.place substrate) ∧
    ∀ d s', capture substrate frame ids now s = .ok d s' →
      KeepsRooms substrate now (earlier ++ [frame]) frames s'

/-- Nodes and placed drawers are only added to. -/
def Persists (s s' : DrawerStore) : Prop :=
  s.nodes.Extended s'.nodes ∧
    ∀ p ∈ s.drawers.rows.map Drawer.placement, p ∈ s'.drawers.rows.map Drawer.placement

section Adding

variable {substrate : Substrate} {s : DrawerStore} {drawer : Drawer} {now : Int}

theorem Persists.refl : s.Persists s := ⟨.refl, fun _ h => h⟩

theorem Persists.trans {s' s'' : DrawerStore} (h : s.Persists s') (h' : s'.Persists s'') :
    s.Persists s'' := ⟨h.1.trans h'.1, fun p hp => h'.2 p (h.2 p hp)⟩

theorem addDrawer_cases (substrate : Substrate) (s : DrawerStore) (drawer : Drawer) (now : Int) :
    (¬StoresDrawer substrate .none s drawer now ∧
      s.EndsUntouched (addDrawer substrate drawer now s)) ∨
    (StoresDrawer substrate .none s drawer now ∧
      s.EndsStored drawer (CompletesCapture substrate .none s drawer)
        (addDrawer substrate drawer now s)) :=
  addDrawerUnder_cases (congrFun (addDrawerUnder_none drawer now) s)

theorem addDrawer_persists : s.Persists (stateAfter (addDrawer substrate drawer now s)) := by
  obtain ⟨-, e, s', hr, hdrawers, -, hnodes, -⟩ | ⟨-, hends⟩ := addDrawer_cases substrate s drawer now
  · rw [hr, stateAfter_error, Persists, hdrawers, hnodes]
    exact ⟨.refl, fun _ h => h⟩
  · rw [Persists, hends.nodes, hends.stored]
    exact ⟨.refl, fun _ h => List.mem_append_left _ h⟩

theorem storesRow_iff {faults : StorageFaults} :
    StoresRow substrate faults s drawer now ↔ faults .captureTransaction = none ∧
      (∀ row ∈ s.drawers.rows, row.id ≠ drawer.id) ∧ ∃ rowUuid event,
        substrate.parseUuid drawer.id = some rowUuid ∧ substrate.gateAdmit
          (captureRequest substrate s rowUuid drawer (s.nextStamp substrate now)) = .ok event := by
  refine and_congr_right fun _ => ⟨?_, ?_⟩
  · rintro ⟨drawers, event, hinserted, rowUuid, hparse, hadm⟩
    exact ⟨(KeyedTable.insert?_eq_some_iff.mp hinserted).1, rowUuid, event, hparse, hadm⟩
  · rintro ⟨hfree, rowUuid, event, hparse, hadm⟩
    cases hinsert : s.drawers.insert? drawer with
    | some drawers => exact ⟨drawers, event, hinsert, rowUuid, hparse, hadm⟩
    | none =>
      obtain ⟨row, hrow, hid⟩ := KeyedTable.insert?_eq_none_iff.mp hinsert
      exact absurd hid (hfree row hrow)

theorem storesRow_setParent {frame : CaptureFrame} {ids : CaptureIds} {parent parent' : String}
    (nodes : NodeTable) (h : StoresRow substrate .none s (frame.drawer parent ids now) now) :
    StoresRow substrate .none (s.withNodes nodes) (frame.drawer parent' ids now) now := by
  obtain ⟨hfault, hfree, hgate⟩ := storesRow_iff.mp h
  exact storesRow_iff.mpr ⟨hfault, hfree, hgate⟩

/-- Whether a frame's drawer is taken does not depend on the room or on the tree. -/
theorem storesDrawer_setParent {frame : CaptureFrame} {ids : CaptureIds} {parent parent' : String}
    (nodes : NodeTable) (hne : parent' ≠ "")
    (h : StoresDrawer substrate .none s (frame.drawer parent ids now) now) :
    StoresDrawer substrate .none (s.withNodes nodes) (frame.drawer parent' ids now) now := by
  obtain ⟨⟨-, hvalid⟩, hlookup, hstores⟩ := h
  refine ⟨⟨hne, hvalid⟩, hlookup, ?_⟩
  have hprior' : (s.withNodes nodes).findActivePredecessor (frame.drawer parent' ids now).lineageId
      (frame.drawer parent' ids now).id = s.findActivePredecessor
        (frame.drawer parent ids now).lineageId (frame.drawer parent ids now).id := rfl
  rw [hprior']
  cases hprior : s.findActivePredecessor (frame.drawer parent ids now).lineageId
      (frame.drawer parent ids now).id with
  | none =>
    simp only [hprior] at hstores ⊢
    exact storesRow_setParent nodes hstores
  | some priorId =>
    simp only [hprior] at hstores ⊢
    exact ⟨hstores.1, storesRow_setParent nodes hstores.2.1, hstores.2.2⟩

end Adding

section Runs

variable {substrate : Substrate} {s : DrawerStore} {root : Node} {frame : CaptureFrame}
  {ids : CaptureIds} {now : Int} {α β : Type}

/-- Every run of the action only adds to nodes and placed drawers. -/
def Keeps (action : StoreM α) : Prop := ∀ s, Persists s (stateAfter (action s))

theorem Keeps.bind {x : StoreM α} {f : α → StoreM β} (hx : Keeps x) (hf : ∀ a, Keeps (f a)) :
    Keeps (x >>= f) := by
  intro s
  have hs := hx s
  cases hrun : x s with
  | error e s₁ =>
    rw [hrun] at hs
    simp only [Bind.bind, EStateM.bind, hrun]
    exact hs
  | ok a s₁ =>
    rw [hrun] at hs
    simp only [Bind.bind, EStateM.bind, hrun]
    exact hs.trans (hf a s₁)

/-- What an action leaves is only added to by what comes after it. -/
theorem Keeps.after {x : StoreM α} {f : α → StoreM β} (hf : ∀ a, Keeps (f a)) (s : DrawerStore) :
    Persists (stateAfter (x s)) (stateAfter ((x >>= f) s)) := by
  cases hrun : x s with
  | error e s₁ =>
    simp only [Bind.bind, EStateM.bind, hrun]
    exact .refl
  | ok a s₁ =>
    simp only [Bind.bind, EStateM.bind, hrun]
    exact hf a s₁

theorem Keeps.ofExcept {x : Except LocusKitError α} : Keeps (StoreM.ofExcept x) := by
  intro s
  cases x <;> exact .refl

theorem Keeps.requireRoot {verb : String} : Keeps (requireRoot verb) := by
  intro s
  rw [DrawerStore.requireRoot]
  cases hroot : s.nodes.rootNode <;>
    simp only [Bind.bind, EStateM.bind, get_eq, hroot] <;>
    exact .refl

theorem Keeps.resolveRoom {minted : MintedIds} : Keeps (resolveRoom substrate frame root minted) := by
  intro s
  obtain ⟨nodes, hextended, -, ⟨e, hr⟩ | ⟨room, hr, -⟩⟩ :=
    resolveRoom_cases (rfl : DrawerStore.resolveRoom substrate frame root minted s = _) <;>
  · rw [hr]
    exact ⟨hextended, fun _ h => h⟩

theorem Keeps.addDrawer {drawer : Drawer} : Keeps (addDrawer substrate drawer now) :=
  fun _ => addDrawer_persists

theorem Keeps.pure {a : α} : Keeps (pure a : StoreM α) := fun _ => .refl

theorem Keeps.capture : Keeps (capture substrate frame ids now) :=
  .bind .ofExcept fun _ => .bind .requireRoot fun _ => .bind .resolveRoom fun _ =>
    .bind .addDrawer fun _ => .pure

theorem Keeps.captureEach {frames : List (CaptureFrame × CaptureIds)} :
    Keeps (captureEach substrate now frames) := by
  induction frames with
  | nil => exact .pure
  | cons p frames ih => exact .bind .capture fun _ => .bind ih fun _ => .pure

theorem Keeps.cachedRoom {cache : List (String × Node)} {minted : MintedIds} :
    Keeps (cachedRoom substrate root cache frame minted) := by
  rw [DrawerStore.cachedRoom]
  split
  next => exact .pure
  next => exact .bind .resolveRoom fun _ => .pure

theorem Keeps.captureBatchLoop {frames : List (CaptureFrame × CaptureIds)}
    {cache : List (String × Node)} :
    Keeps (captureBatchLoop substrate root now cache frames) := by
  induction frames generalizing cache with
  | nil => exact .pure
  | cons p frames ih =>
    exact .bind .ofExcept fun _ => .bind .cachedRoom fun _ => .bind .addDrawer fun _ =>
      .bind ih fun _ => .pure

/-- With a root and a valid frame a capture resolves the room and adds the drawer. -/
theorem capture_eq (hvalid : frame.validate = .ok ()) (hroot : s.nodes.rootNode = some root) :
    capture substrate frame ids now s = (resolveRoom substrate frame root ids.nodes >>= fun room =>
      addDrawer substrate (frame.drawer room.id ids now) now >>= fun _ =>
        pure (frame.drawer room.id ids now)) s := by
  simp only [capture, requireRoot, hvalid, StoreM.ofExcept, bind, EStateM.bind, pure, EStateM.pure,
    get_eq, hroot]

theorem captureBatchLoop_of_room {cache cache' : List (String × Node)} {room : Node}
    {frames : List (CaptureFrame × CaptureIds)} {s₁ : DrawerStore}
    (hvalid : frame.validate = .ok ())
    (hroom : cachedRoom substrate root cache frame ids.nodes s = .ok (room, cache') s₁) :
    captureBatchLoop substrate root now cache ((frame, ids) :: frames) s =
      (addDrawer substrate (frame.drawer room.id ids now) now >>= fun _ =>
        captureBatchLoop substrate root now cache' frames >>= fun drawers =>
          pure (frame.drawer room.id ids now :: drawers)) s₁ := by
  simp only [captureBatchLoop, hvalid, StoreM.ofExcept, bind, EStateM.bind, pure, EStateM.pure,
    hroom]

theorem captureBatchLoop_of_error {cache : List (String × Node)} {e : LocusKitError}
    {frames : List (CaptureFrame × CaptureIds)} {s₁ : DrawerStore}
    (hvalid : frame.validate = .ok ())
    (hroom : cachedRoom substrate root cache frame ids.nodes s = .error e s₁) :
    captureBatchLoop substrate root now cache ((frame, ids) :: frames) s = .error e s₁ := by
  simp only [captureBatchLoop, hvalid, StoreM.ofExcept, bind, EStateM.bind, pure, EStateM.pure,
    hroom]

theorem cachedRoom_hit {cache : List (String × Node)} {room : Node} {minted : MintedIds}
    (h : cache.lookup frame.cacheKey = some room) :
    cachedRoom substrate root cache frame minted s = .ok (room, cache) s := by
  rw [cachedRoom, h]
  rfl

theorem cachedRoom_miss {cache : List (String × Node)} {minted : MintedIds}
    (h : cache.lookup frame.cacheKey = none) :
    cachedRoom substrate root cache frame minted s = (resolveRoom substrate frame root minted >>=
      fun room => pure (room, (frame.cacheKey, room) :: cache)) s := by
  rw [cachedRoom, h]

theorem capture_invalid {e : LocusKitError} (hvalid : frame.validate = .error e) :
    capture substrate frame ids now s = .error e s := by
  simp only [capture, hvalid, StoreM.ofExcept, bind, EStateM.bind]
  rfl

end Runs

/-- The cache knows the rooms of the frames captured so far, and no others. -/
structure CacheHolds (substrate : Substrate) (nodes : NodeTable) (root : Node)
    (cache : List (String × Node)) (earlier : List CaptureFrame) : Prop where
  covers : ∀ g ∈ earlier, ∃ room, cache.lookup g.cacheKey = some room ∧
    KnownRoom substrate nodes root g room ∧ room.id ≠ ""
  owned : ∀ key room, cache.lookup key = some room → ∃ g ∈ earlier, g.cacheKey = key

/-- The minted ids have no part in where a drawer lies. -/
def Settled (s : DrawerStore) (minted : List String) : Prop :=
  ∀ p ∈ s.drawers.rows.map Drawer.placement, (s.nodes.placeOf p.2).isSome ∨
    (p.2 ∉ minted ∧ ∀ n ∈ s.nodes.rows, n.id = p.2 → n.parentId.getD "" ∉ minted)

section Invariants

variable {substrate : Substrate} {s : DrawerStore} {nodes nodes' : NodeTable} {root room : Node}
  {cache : List (String × Node)} {earlier : List CaptureFrame} {frame : CaptureFrame}
  {minted : List String} {drawer : Drawer} {now : Int}

theorem CacheHolds.nil : CacheHolds substrate nodes root [] [] :=
  ⟨fun _ h => (nomatch h), fun _ _ h => (nomatch h)⟩

theorem CacheHolds.mono (h : CacheHolds substrate nodes root cache earlier)
    (hextended : nodes.Extended nodes') : CacheHolds substrate nodes' root cache earlier := by
  refine ⟨fun g hg => ?_, h.owned⟩
  obtain ⟨room, hlookup, hknown, hne⟩ := h.covers g hg
  exact ⟨room, hlookup, hknown.mono hextended, hne⟩

/-- A room resolved for a new key is put into the cache. -/
theorem CacheHolds.insert (h : CacheHolds substrate nodes root cache earlier)
    (hnone : cache.lookup frame.cacheKey = none)
    (hknown : KnownRoom substrate nodes root frame room) (hne : room.id ≠ "") :
    CacheHolds substrate nodes root ((frame.cacheKey, room) :: cache) (earlier ++ [frame]) := by
  constructor
  · intro g hg
    rw [List.mem_append, List.mem_singleton] at hg
    by_cases hkey : g.cacheKey = frame.cacheKey
    · obtain hg | rfl := hg
      · obtain ⟨other, hlookup, -⟩ := h.covers g hg
        rw [hkey, hnone] at hlookup
        cases hlookup
      · exact ⟨room, List.lookup_cons_self, hknown, hne⟩
    · obtain hg | rfl := hg
      · obtain ⟨other, hlookup, hother⟩ := h.covers g hg
        refine ⟨other, ?_, hother⟩
        rw [List.lookup_cons, beq_false_of_ne hkey]
        exact hlookup
      · exact absurd rfl hkey
  · intro key other hlookup
    rw [List.lookup_cons] at hlookup
    split at hlookup
    next hkey => exact ⟨frame, by simp, (by simpa using hkey : key = frame.cacheKey).symm⟩
    next =>
      obtain ⟨g, hg, hkey⟩ := h.owned key other hlookup
      exact ⟨g, List.mem_append_left _ hg, hkey⟩

/-- A frame whose room is in the cache joins the frames that it is known for. -/
theorem CacheHolds.join (h : CacheHolds substrate nodes root cache earlier)
    (hlookup : cache.lookup frame.cacheKey = some room)
    (hknown : KnownRoom substrate nodes root frame room) (hne : room.id ≠ "") :
    CacheHolds substrate nodes root cache (earlier ++ [frame]) := by
  constructor
  · intro g hg
    rw [List.mem_append, List.mem_singleton] at hg
    obtain hg | rfl := hg
    · exact h.covers g hg
    · exact ⟨room, hlookup, hknown, hne⟩
  · intro key other hother
    obtain ⟨g, hg, hkey⟩ := h.owned key other hother
    exact ⟨g, List.mem_append_left _ hg, hkey⟩

theorem Settled.withNodes (h : s.Settled minted) (hextended : s.nodes.Extended nodes)
    (hgrown : s.nodes.Grown minted nodes) : (s.withNodes nodes).Settled minted := by
  intro p hp
  obtain hsome | ⟨hparent, hroom⟩ := h p hp
  · obtain ⟨place, hplace⟩ := Option.isSome_iff_exists.mp hsome
    exact Or.inl (Option.isSome_iff_exists.mpr ⟨place, hextended.placeOf hplace⟩)
  · refine Or.inr ⟨hparent, fun n hn hid => ?_⟩
    obtain hold | hnew := hgrown.new n hn
    · exact hroom n hold hid
    · exact absurd (hid ▸ hnew) hparent

/-- Growing the tree by minted nodes moves no drawer. -/
theorem Settled.placedDrawers_withNodes (h : s.Settled minted)
    (hextended : s.nodes.Extended nodes) (hgrown : s.nodes.Grown minted nodes) :
    (s.withNodes nodes).placedDrawers = s.placedDrawers := by
  refine List.map_congr_left fun d hd => Prod.ext rfl ?_
  obtain hsome | ⟨hparent, hroom⟩ := h d.placement (List.mem_map.mpr ⟨d, hd, rfl⟩)
  · obtain ⟨place, hplace⟩ := Option.isSome_iff_exists.mp hsome
    exact (hextended.placeOf hplace).trans hplace.symm
  · exact hgrown.placeOf_eq hparent hroom

theorem Settled.endsStored (h : s.Settled minted) {completes : Prop}
    {r : EStateM.Result LocusKitError DrawerStore Unit} (hends : s.EndsStored drawer completes r)
    (hplace : (s.nodes.placeOf drawer.parentNodeId).isSome) :
    (stateAfter r).Settled minted := by
  intro p hp
  rw [hends.stored, List.mem_append, List.mem_singleton] at hp
  rw [hends.nodes]
  obtain hp | rfl := hp
  · exact h p hp
  · exact Or.inl hplace

end Invariants

section Batch

variable {substrate : Substrate} {now : Int} {s a b : DrawerStore} {root room : Node}
  {frame g : CaptureFrame} {ids : CaptureIds} {minted : List String}

theorem SameOutcome.refl : s.SameOutcome s := ⟨rfl, rfl⟩

theorem SameOutcome.trans (h : a.SameOutcome b) (h' : b.SameOutcome s) : a.SameOutcome s :=
  ⟨h.1.trans h'.1, h.2.trans h'.2⟩

/-- A drawer that lies in one room in the one outcome and in another, or nowhere, in the other. -/
theorem not_sameOutcome {id : String} {place : String × String} {parent : String}
    (hmem : (id, parent) ∈ a.drawers.rows.map Drawer.placement)
    (hplace : a.nodes.placeOf parent = some place)
    (hother : ∀ parent', (id, parent') ∈ b.drawers.rows.map Drawer.placement →
      b.nodes.placeOf parent' ≠ some place) : ¬a.SameOutcome b := by
  rintro ⟨hplaced, -⟩
  obtain ⟨d, hd, hplacement⟩ := List.mem_map.mp hmem
  obtain ⟨rfl, rfl⟩ := Prod.mk.inj hplacement
  have hin : (d.setParent "", a.nodes.placeOf d.parentNodeId) ∈ b.placedDrawers :=
    hplaced ▸ List.mem_map.mpr ⟨d, hd, rfl⟩
  obtain ⟨d', hd', heq⟩ := List.mem_map.mp hin
  obtain ⟨hrow, hsame⟩ := Prod.mk.inj heq
  have hid : (d'.setParent "").id = (d.setParent "").id := congrArg Drawer.id hrow
  exact hother d'.parentNodeId (List.mem_map.mpr ⟨d', hd', Prod.ext hid rfl⟩) (hsame.trans hplace)

/-- A placement is the only one of its drawer. -/
theorem placement_unique {id parent parent' : String}
    (h : (id, parent) ∈ s.drawers.rows.map Drawer.placement)
    (h' : (id, parent') ∈ s.drawers.rows.map Drawer.placement) : parent = parent' := by
  obtain ⟨d, hd, hplacement⟩ := List.mem_map.mp h
  obtain ⟨d', hd', hplacement'⟩ := List.mem_map.mp h'
  obtain ⟨hid, rfl⟩ := Prod.mk.inj hplacement
  obtain ⟨hid', rfl⟩ := Prod.mk.inj hplacement'
  rw [KeyedTable.eq_of_key_eq hd hd' (hid.trans hid'.symm)]

/-- A frame put into another frame's room, whose drawer the store does not take, ends both ways of
capturing alike. -/
theorem capture_untouched (hvalid : frame.validate = .ok ())
    (hroot : s.nodes.rootNode = some root) (hsettled : s.Settled minted)
    (hminted : ids.nodes.wing ∈ minted ∧ ids.nodes.room ∈ minted)
    (hno : ∀ parent, ¬StoresDrawer substrate .none s (frame.drawer parent ids now) now) :
    ∃ e s', capture substrate frame ids now s = .error e s' ∧ s.SameOutcome s' := by
  have hsub : ∀ id ∈ [ids.nodes.wing, ids.nodes.room], id ∈ minted := by
    simpa using hminted
  rw [capture_eq hvalid hroot]
  obtain ⟨nodes, hextended, hgrown, ⟨e, hr⟩ | ⟨own, hr, hown⟩⟩ :=
    resolveRoom_cases (rfl : resolveRoom substrate frame root ids.nodes s = _)
  · simp only [bind, EStateM.bind, hr]
    exact ⟨e, _, rfl, (hsettled.placedDrawers_withNodes hextended (hgrown.mono hsub)).symm, rfl⟩
  · simp only [bind, EStateM.bind, hr]
    obtain ⟨-, e, s', hadd, hdrawers, htunnels, hnodes, -⟩ | ⟨hstores, -⟩ :=
      addDrawer_cases substrate (s.withNodes nodes) (frame.drawer own.id ids now) now
    · simp only [hadd]
      refine ⟨e, s', rfl, ?_, htunnels.symm⟩
      rw [← hsettled.placedDrawers_withNodes hextended (hgrown.mono hsub), placedDrawers,
        placedDrawers, hdrawers, hnodes]
    · exact absurd (storesDrawer_setParent s.nodes hstores.1.1 hstores) (hno own.id)

/-- A capture files the drawer in the room of its frame, or fails without storing it. -/
theorem capture_place (hvalid : frame.validate = .ok ())
    (hroot : s.nodes.rootNode = some root)
    (hfree : ∀ row ∈ s.drawers.rows, row.id ≠ ids.drawer) :
    (∃ e s', capture substrate frame ids now s = .error e s' ∧
      ∀ row ∈ s'.drawers.rows, row.id ≠ ids.drawer) ∨
    ∃ parent, (ids.drawer, parent) ∈
        (stateAfter (capture substrate frame ids now s)).drawers.rows.map Drawer.placement ∧
      (stateAfter (capture substrate frame ids now s)).nodes.placeOf parent =
        some (frame.place substrate) := by
  rw [capture_eq hvalid hroot]
  obtain ⟨nodes, hextended, hgrown, ⟨e, hr⟩ | ⟨own, hr, hown⟩⟩ :=
    resolveRoom_cases (rfl : resolveRoom substrate frame root ids.nodes s = _)
  · simp only [bind, EStateM.bind, hr]
    exact Or.inl ⟨e, _, rfl, hfree⟩
  · simp only [bind, EStateM.bind, hr]
    obtain ⟨-, e, s', hadd, hdrawers, -, -⟩ | ⟨-, hends⟩ := addDrawer_cases substrate
      (s.withNodes nodes) (frame.drawer own.id ids now) now
    · simp only [hadd]
      exact Or.inl ⟨e, s', rfl, by rw [hdrawers]; exact hfree⟩
    · refine Or.inr ⟨own.id, ?_⟩
      have hmem : (ids.drawer, own.id) ∈ (stateAfter (addDrawer substrate
          (frame.drawer own.id ids now) now (s.withNodes nodes))).drawers.rows.map
            Drawer.placement := by
        rw [hends.stored]
        exact List.mem_append_right _ (List.mem_singleton.mpr rfl)
      have hplace := hown.placeOf
      have hnodes := hends.nodes
      cases hadd : addDrawer substrate (frame.drawer own.id ids now) now (s.withNodes nodes) with
      | ok u s' =>
        rw [hadd] at hmem hnodes
        exact ⟨hmem, hnodes ▸ hplace⟩
      | error e s' =>
        rw [hadd] at hmem hnodes
        exact ⟨hmem, hnodes ▸ hplace⟩

/-- A drawer that the batch stores in a room of other names than its frame's. -/
theorem not_sameOutcome_of_misfiled {frames : List (CaptureFrame × CaptureIds)}
    {cache : List (String × Node)} (hvalid : frame.validate = .ok ())
    (hroot : s.nodes.rootNode = some root) (hlookup : cache.lookup frame.cacheKey = some room)
    (hknown : KnownRoom substrate s.nodes root g room)
    (hplace : g.place substrate ≠ frame.place substrate)
    (hstores : StoresDrawer substrate .none s (frame.drawer room.id ids now) now) :
    ¬(stateAfter (captureBatchLoop substrate root now cache ((frame, ids) :: frames) s)).SameOutcome
      (stateAfter (captureEach substrate now ((frame, ids) :: frames) s)) := by
  obtain ⟨hno, -⟩ | ⟨-, hends⟩ := addDrawer_cases substrate s (frame.drawer room.id ids now) now
  · exact absurd hstores hno
  have hafter : Persists (stateAfter (addDrawer substrate (frame.drawer room.id ids now) now s))
      (stateAfter (captureBatchLoop substrate root now cache ((frame, ids) :: frames) s)) := by
    rw [captureBatchLoop_of_room hvalid (cachedRoom_hit hlookup)]
    exact Keeps.after (fun _ => .bind .captureBatchLoop fun _ => .pure) s
  have hmem : (ids.drawer, room.id) ∈ (stateAfter (addDrawer substrate
      (frame.drawer room.id ids now) now s)).drawers.rows.map Drawer.placement := by
    rw [hends.stored]
    exact List.mem_append_right _ (List.mem_singleton.mpr rfl)
  have hwrong : (stateAfter (addDrawer substrate (frame.drawer room.id ids now) now
      s)).nodes.placeOf room.id = some (g.place substrate) := by
    rw [hends.nodes]
    exact hknown.placeOf
  refine not_sameOutcome (hafter.2 _ hmem) (hafter.1.placeOf hwrong) fun parent' hmem' => ?_
  obtain ⟨e, s', hr, hfree⟩ | ⟨parent, hown, hright⟩ := @capture_place substrate now s root frame ids
    hvalid hroot hends.free
  · simp only [captureEach, bind, EStateM.bind, hr] at hmem'
    obtain ⟨d, hd, hplacement⟩ := List.mem_map.mp hmem'
    exact absurd (Prod.mk.inj hplacement).1 (hfree d hd)
  · have hrest : Persists (stateAfter (capture substrate frame ids now s))
        (stateAfter (captureEach substrate now ((frame, ids) :: frames) s)) :=
      Keeps.after (fun _ => .bind .captureEach fun _ => .pure) s
    rw [← placement_unique (hrest.2 _ hown) hmem', hrest.1.placeOf hright]
    exact fun heq => hplace (Option.some.inj heq).symm

theorem stateAfter_bind_pure {α β : Type} (x : StoreM α) (f : α → β) (s : DrawerStore) :
    stateAfter ((x >>= fun a => pure (f a)) s) = stateAfter (x s) := by
  cases hx : x s <;> simp only [bind, EStateM.bind, hx] <;> rfl

/-- Where both ways add the same drawer to the same store, they stay alike by what follows. -/
theorem sameOutcome_step {frames : List (CaptureFrame × CaptureIds)}
    {cache cache' : List (String × Node)} {earlier : List CaptureFrame} {s₁ : DrawerStore}
    (hcapture : capture substrate frame ids now s = (addDrawer substrate
      (frame.drawer room.id ids now) now >>= fun _ => pure (frame.drawer room.id ids now)) s₁)
    (hbatch : captureBatchLoop substrate root now cache ((frame, ids) :: frames) s =
      (addDrawer substrate (frame.drawer room.id ids now) now >>= fun _ =>
        captureBatchLoop substrate root now cache' frames >>= fun drawers =>
          pure (frame.drawer room.id ids now :: drawers)) s₁)
    (hroom : ∀ g ∈ earlier, g.cacheKey = frame.cacheKey →
      g.place substrate = frame.place substrate)
    (ih : ∀ {s₂}, s₂.nodes = s₁.nodes → room.id ≠ "" → s₂.Settled minted →
      ((stateAfter (captureBatchLoop substrate root now cache' frames s₂)).SameOutcome
          (stateAfter (captureEach substrate now frames s₂)) ↔
        KeepsRooms substrate now (earlier ++ [frame]) frames s₂))
    (hknown : KnownRoom substrate s₁.nodes root frame room) (hsettled : s₁.Settled minted) :
    (stateAfter (captureBatchLoop substrate root now cache ((frame, ids) :: frames) s)).SameOutcome
        (stateAfter (captureEach substrate now ((frame, ids) :: frames) s)) ↔
      KeepsRooms substrate now earlier ((frame, ids) :: frames) s := by
  rw [KeepsRooms, and_iff_right fun _ _ => hroom, hbatch]
  cases hadd : addDrawer substrate (frame.drawer room.id ids now) now s₁ with
  | error e s₂ =>
    simp only [bind, EStateM.bind, hadd] at hcapture
    simp only [captureEach, bind, EStateM.bind, hcapture, hadd]
    exact iff_of_true .refl fun d s' h => nomatch h
  | ok u s₂ =>
    simp only [bind, EStateM.bind, hadd] at hcapture
    obtain ⟨-, e, s', hr, -⟩ | ⟨hstores, hends⟩ := addDrawer_cases substrate s₁
      (frame.drawer room.id ids now) now
    · cases hadd.symm.trans hr
    rw [hadd] at hends
    have hplaced : (s₁.nodes.placeOf (frame.drawer room.id ids now).parentNodeId).isSome :=
      Option.isSome_iff_exists.mpr ⟨_, hknown.placeOf⟩
    have hbatchEnd : stateAfter ((addDrawer substrate (frame.drawer room.id ids now) now >>= fun _ =>
        captureBatchLoop substrate root now cache' frames >>= fun drawers =>
          pure (frame.drawer room.id ids now :: drawers)) s₁) =
        stateAfter (captureBatchLoop substrate root now cache' frames s₂) := by
      rw [← stateAfter_bind_pure _ (frame.drawer room.id ids now :: ·) s₂]
      simp only [bind, EStateM.bind, hadd]
    have heachEnd : stateAfter (captureEach substrate now ((frame, ids) :: frames) s) =
        stateAfter (captureEach substrate now frames s₂) := by
      rw [← stateAfter_bind_pure _ (frame.drawer room.id ids now :: ·) s₂]
      simp only [captureEach, bind, EStateM.bind, hcapture, pure, EStateM.pure]
    rw [hbatchEnd, heachEnd]
    refine (ih hends.nodes hstores.1.1 (hsettled.endsStored hends hplaced)).trans ⟨fun h d s' hok => ?_, fun h => h _ s₂ hcapture⟩
    cases hcapture.symm.trans hok
    exact h

/-- With a cache that holds, the two ways end alike exactly if every frame keeps to its room. -/
theorem captureBatchLoop_same_iff {frames : List (CaptureFrame × CaptureIds)}
    {cache : List (String × Node)} {earlier : List CaptureFrame}
    (hroot : s.nodes.rootNode = some root)
    (hcache : CacheHolds substrate s.nodes root cache earlier) (hsettled : s.Settled minted)
    (hminted : ∀ p ∈ frames, p.2.nodes.wing ∈ minted ∧ p.2.nodes.room ∈ minted) :
    (stateAfter (captureBatchLoop substrate root now cache frames s)).SameOutcome
        (stateAfter (captureEach substrate now frames s)) ↔
      KeepsRooms substrate now earlier frames s := by
  induction frames generalizing s cache earlier with
  | nil => exact iff_of_true .refl trivial
  | cons p frames ih =>
    obtain ⟨frame, ids⟩ := p
    have hids := hminted (frame, ids) List.mem_cons_self
    have hrest : ∀ p ∈ frames, p.2.nodes.wing ∈ minted ∧ p.2.nodes.room ∈ minted :=
      fun p hp => hminted p (List.mem_cons_of_mem _ hp)
    cases hvalid : frame.validate with
    | error e =>
      have hcapture : capture substrate frame ids now s = .error e s := capture_invalid hvalid
      rw [KeepsRooms]
      simp only [captureBatchLoop, captureEach, bind, EStateM.bind, hcapture, hvalid,
        StoreM.ofExcept]
      exact iff_of_true .refl ⟨fun h => (by cases h), fun _ _ h => by cases h⟩
    | ok _ =>
      have hcapture := @capture_eq substrate s root frame ids now hvalid hroot
      cases hlookup : cache.lookup frame.cacheKey with
      | none =>
        have hroom : ∀ g ∈ earlier, g.cacheKey = frame.cacheKey →
            g.place substrate = frame.place substrate := by
          intro g hg hkey
          obtain ⟨other, hother, -⟩ := hcache.covers g hg
          rw [hkey, hlookup] at hother
          cases hother
        obtain ⟨nodes, hextended, hgrown, ⟨e, hr⟩ | ⟨own, hr, hown⟩⟩ :=
          resolveRoom_cases (rfl : resolveRoom substrate frame root ids.nodes s = _)
        · have hmiss : cachedRoom substrate root cache frame ids.nodes s =
              .error e (s.withNodes nodes) := by
            rw [cachedRoom_miss hlookup]
            simp only [bind, EStateM.bind, hr]
          simp only [bind, EStateM.bind, hr] at hcapture
          rw [KeepsRooms, and_iff_right fun _ _ => hroom, captureBatchLoop_of_error hvalid hmiss]
          simp only [captureEach, bind, EStateM.bind, hcapture]
          exact iff_of_true .refl fun _ _ h => by cases h
        · have hmiss : cachedRoom substrate root cache frame ids.nodes s =
              .ok (own, (frame.cacheKey, own) :: cache) (s.withNodes nodes) := by
            rw [cachedRoom_miss hlookup]
            simp only [bind, EStateM.bind, hr, pure, EStateM.pure]
          have hsettled₁ : (s.withNodes nodes).Settled minted :=
            hsettled.withNodes hextended (hgrown.mono (by simpa using hids))
          have hcapture₁ : capture substrate frame ids now s = (addDrawer substrate
              (frame.drawer own.id ids now) now >>= fun _ =>
                pure (frame.drawer own.id ids now)) (s.withNodes nodes) := by
            rw [hcapture]
            simp only [bind, EStateM.bind, hr]
          refine sameOutcome_step hcapture₁ (captureBatchLoop_of_room hvalid hmiss) hroom ?_ hown
            hsettled₁
          intro s₂ hnodes hne hsettled₂
          rw [withNodes_nodes] at hnodes
          refine ih (hnodes ▸ hextended.first hroot) ?_ hsettled₂ hrest
          rw [hnodes]
          exact (hcache.mono hextended).insert hlookup hown hne
      | some room =>
        obtain ⟨g, hg, hkey⟩ := hcache.owned _ _ hlookup
        obtain ⟨room', hlookup', hknown, hne⟩ := hcache.covers g hg
        rw [hkey, hlookup] at hlookup'
        cases hlookup'
        by_cases hplace : g.place substrate = frame.place substrate
        · have hroom : ∀ g' ∈ earlier, g'.cacheKey = frame.cacheKey →
              g'.place substrate = frame.place substrate := by
            intro g' hg' hkey'
            obtain ⟨room', hlookup', hknown', -⟩ := hcache.covers g' hg'
            rw [hkey', hlookup] at hlookup'
            cases hlookup'
            rw [← hplace]
            exact Option.some.inj (hknown'.placeOf.symm.trans hknown.placeOf)
          have hown := hknown.congr hplace
          have hcapture₁ : capture substrate frame ids now s = (addDrawer substrate
              (frame.drawer room.id ids now) now >>= fun _ =>
                pure (frame.drawer room.id ids now)) s := by
            rw [hcapture]
            simp only [bind, EStateM.bind, hown.resolveRoom_eq]
          refine sameOutcome_step hcapture₁ (captureBatchLoop_of_room hvalid
            (cachedRoom_hit hlookup)) hroom ?_ hown hsettled
          intro s₂ hnodes hne hsettled₂
          refine ih (hnodes ▸ hroot) ?_ hsettled₂ hrest
          rw [hnodes]
          exact hcache.join hlookup hown hne
        · by_cases hstores : StoresDrawer substrate .none s (frame.drawer room.id ids now) now
          · refine iff_of_false
              (not_sameOutcome_of_misfiled hvalid hroot hlookup hknown hplace hstores) fun h => ?_
            exact hplace (h.1 hvalid ⟨room.id, hstores⟩ g hg hkey)
          · have hno : ∀ parent, ¬StoresDrawer substrate .none s (frame.drawer parent ids now) now :=
              fun parent h => hstores (storesDrawer_setParent s.nodes hne h)
            obtain ⟨e, s', hr, hsame⟩ := capture_untouched hvalid hroot hsettled hids hno
            obtain ⟨-, e', s'', hadd, hdrawers, htunnels, hnodes, -⟩ | ⟨hyes, -⟩ :=
              addDrawer_cases substrate s (frame.drawer room.id ids now) now
            · rw [KeepsRooms, captureBatchLoop_of_room hvalid (cachedRoom_hit hlookup)]
              simp only [captureEach, bind, EStateM.bind, hadd, hr]
              refine iff_of_true ?_ ⟨fun _ hex => hex.elim fun parent h => absurd h (hno parent),
                fun _ _ h => by cases h⟩
              refine SameOutcome.trans ?_ hsame
              exact ⟨by rw [placedDrawers, placedDrawers, stateAfter_error, hdrawers, hnodes],
                htunnels⟩
            · exact absurd hyes hstores

end Batch

/-- A batch of captures ends with the same drawers at the same places and the same tunnels as the
captures one by one, exactly if no drawer is stored under a cache key that an earlier frame with
other names has put there. -/
theorem captureBatch_sameOutcome_iff (substrate : Substrate) (now : Int) {s : DrawerStore}
    {frames : List (CaptureFrame × CaptureIds)} (hfresh : s.FreshFor frames) :
    (stateAfter (captureBatch substrate frames now s)).SameOutcome
        (stateAfter (captureEach substrate now frames s)) ↔
      KeepsRooms substrate now [] frames s := by
  cases hroot : s.nodes.rootNode with
  | none =>
    have hbatch : stateAfter (captureBatch substrate frames now s) = s := by
      simp only [captureBatch, requireRoot, bind, EStateM.bind, get_eq, hroot]
      rfl
    rw [hbatch]
    cases frames with
    | nil => exact iff_of_true .refl trivial
    | cons p frames =>
      obtain ⟨frame, ids⟩ := p
      have hcapture : ∃ e, capture substrate frame ids now s = .error e s := by
        cases hvalid : frame.validate with
        | error e => exact ⟨e, capture_invalid hvalid⟩
        | ok _ =>
          simp only [capture, requireRoot, hvalid, StoreM.ofExcept, bind, EStateM.bind, pure,
            EStateM.pure, get_eq, hroot]
          exact ⟨_, rfl⟩
      obtain ⟨e, hcapture⟩ := hcapture
      rw [KeepsRooms]
      simp only [captureEach, bind, EStateM.bind, hcapture]
      exact iff_of_true .refl ⟨fun _ _ _ h => (by cases h), fun _ _ h => by cases h⟩
  | some root =>
    have hbatch : captureBatch substrate frames now s =
        captureBatchLoop substrate root now [] frames s := by
      simp only [captureBatch, requireRoot, bind, EStateM.bind, get_eq, hroot, pure, EStateM.pure]
    have hsettled : s.Settled (mintedNodeIds frames) := by
      intro p hp
      obtain ⟨d, hd, rfl⟩ := List.mem_map.mp hp
      exact Or.inr ⟨hfresh.2 d hd, fun n hn _ => (hfresh.1 n hn).2⟩
    rw [hbatch]
    refine captureBatchLoop_same_iff hroot .nil hsettled fun p hp => ?_
    have hin : ∀ id ∈ [p.2.nodes.wing, p.2.nodes.room], id ∈ mintedNodeIds frames :=
      fun id hid => List.mem_flatMap.mpr ⟨p, hp, hid⟩
    exact ⟨hin _ (by simp), hin _ (by simp)⟩

/-- A plain frame for a room. -/
def referenceFrame (wing room : String) : CaptureFrame where
  content := "content"
  channel := .typed
  sensitivity := .normal
  kind := .prose
  provenanceChannel := .uiTyped
  sourceType := .user
  provenanceSensitivity := .normal
  confirmation := .unconfirmed
  confidence := .null
  lineageId := none
  room := room
  latticeAnchor := ⟨"001", none, none, none⟩
  addedBy := "alice"
  embeddingModelId := "test-v1"
  featureFlags := 0
  eventTime := none
  exportability := .private
  wing := some wing

def referenceIds (digit : String) (lineage : Uuid) : CaptureIds where
  nodes := ⟨"wing " ++ digit, "room " ++ digit⟩
  drawer := referenceUuidText digit
  lineage := lineage

/-- An estate with its root and nothing else. -/
def provisioned : DrawerStore :=
  [StoreCall.reopen (referenceUuidText "a") 5, .createRoot "Estate" (referenceUuidText "b")].foldl
    (step referenceSubstrate) (fresh "alice")

/-- Two pairs of names that are joined to one text. -/
def joinedAlike : List (CaptureFrame × CaptureIds) :=
  [(referenceFrame "a" "b\x00c", referenceIds "1" 1),
    (referenceFrame "a\x00b" "c", referenceIds "2" 2)]

theorem captureBatch_sameOutcome_iff_joinedAlike :
    (stateAfter (captureBatch referenceSubstrate joinedAlike 6 provisioned)).SameOutcome
        (stateAfter (captureEach referenceSubstrate 6 joinedAlike provisioned)) ↔
      KeepsRooms referenceSubstrate 6 [] joinedAlike provisioned :=
  captureBatch_sameOutcome_iff referenceSubstrate 6 (by decide +kernel)

theorem not_captureBatch_sameOutcome :
    ¬∀ (substrate : Substrate) (owner : String) (calls : List StoreCall)
      (frames : List (CaptureFrame × CaptureIds)) (now : Int),
      (calls.foldl (step substrate) (fresh owner)).FreshFor frames →
      (stateAfter (captureBatch substrate frames now
        (calls.foldl (step substrate) (fresh owner)))).SameOutcome
          (stateAfter (captureEach substrate now frames
            (calls.foldl (step substrate) (fresh owner)))) := by
  intro h
  have hsame := (h referenceSubstrate "alice"
    [.reopen (referenceUuidText "a") 5, .createRoot "Estate" (referenceUuidText "b")] joinedAlike 6
      (by decide +kernel)).1
  exact absurd hsame (by decide +kernel)

end DrawerStore

end MootMemory
