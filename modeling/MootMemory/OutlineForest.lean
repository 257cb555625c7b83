import MootMemory.DrawerTunnels
import MootMemory.StoreCalls

namespace MootMemory

/-- The calls that write parent edges. -/
inductive OutlineCall where
  | addTunnel (tunnel : Tunnel)
  | reparentDrawer (childId : String) (newParentId : Option String) (wing room addedBy : String)
      (now : Int) (mintedId : String)

def OutlineCall.run : OutlineCall → StoreM Unit
  | .addTunnel tunnel => DrawerStore.addTunnel tunnel
  | .reparentDrawer childId newParentId wing room addedBy now mintedId =>
    DrawerStore.reparentDrawer childId newParentId wing room addedBy now mintedId

namespace DrawerStore

def outlineStep (s : DrawerStore) (call : OutlineCall) : DrawerStore := stateAfter (call.run s)

/-- The call hangs no drawer under itself or under one of its descendants. -/
def HangsNoLoop (s : DrawerStore) : OutlineCall → Prop
  | .addTunnel tunnel => ∀ childId parentId, tunnel.isActiveParentOf childId →
      tunnel.targetDrawerId = some parentId → ¬AtOrAbove s.parentOf childId parentId
  | .reparentDrawer childId newParentId _ _ _ _ _ => ∀ parentId, newParentId = some parentId →
      ¬AtOrAbove s.parentOf childId parentId

variable {s s' start : DrawerStore} {tunnel : Tunnel} {tunnels : KeyedTable Tunnel.id}
  {childId drawerId : String}

theorem parentOf_eq (s : DrawerStore) (drawerId : String) :
    s.parentOf drawerId = (s.activeParentTunnels drawerId).head?.bind (·.targetDrawerId) := by
  rw [parentOf, activeParentTunnel_eq]

theorem parentOf_congr (h : s'.activeParentTunnels drawerId = s.activeParentTunnels drawerId) :
    s'.parentOf drawerId = s.parentOf drawerId := by
  rw [parentOf_eq, parentOf_eq, h]

theorem isActiveParentOf_unique {other : String} (h : tunnel.isActiveParentOf childId = true)
    (hother : tunnel.isActiveParentOf other = true) : other = childId := by
  simp only [Tunnel.isActiveParentOf, Bool.and_eq_true, beq_iff_eq] at h hother
  exact Option.some.inj (hother.1.2.symm.trans h.1.2)

theorem OneParent.addTunnel (h : s.OneParent) (tunnel : Tunnel) :
    (stateAfter (addTunnel tunnel s)).OneParent := by
  obtain ⟨e, hr⟩ | ⟨tunnels, hfree, hinsert, hr⟩ := addTunnel_cases
    (rfl : DrawerStore.addTunnel tunnel s = _)
  · rw [hr]
    exact h
  · rw [hr]
    intro childId
    rw [stateAfter_ok, activeParentTunnels_insert hinsert hfree]
    split
    next => exact le_rfl
    next => exact h childId

theorem OneParent.cut {childId : String} (h : s.OneParent)
    (hcut : ∀ other, s'.activeParentTunnels other =
      if other = childId then [] else s.activeParentTunnels other) : s'.OneParent := by
  intro other
  rw [hcut]
  split
  next => exact Nat.zero_le _
  next => exact h other

theorem OneParent.step (h : s.OneParent) (call : OutlineCall) :
    (outlineStep s call).OneParent := by
  cases call with
  | addTunnel tunnel => exact h.addTunnel tunnel
  | reparentDrawer childId newParentId wing room addedBy now mintedId =>
    obtain ⟨s', hrun, hcut⟩ := cutFromParent_eq childId now s
    have hone := h.cut (hcut h)
    simp only [outlineStep, OutlineCall.run, reparentDrawer, bind, EStateM.bind, hrun]
    cases newParentId with
    | none => exact hone
    | some parentId => exact hone.addTunnel _

theorem forest_addTunnel (h : Forest s.parentOf)
    (hloop : HangsNoLoop s (.addTunnel tunnel)) :
    Forest (stateAfter (addTunnel tunnel s)).parentOf := by
  obtain ⟨e, hr⟩ | ⟨tunnels, hfree, hinsert, hr⟩ := addTunnel_cases
    (rfl : DrawerStore.addTunnel tunnel s = _)
  · rw [hr]
    exact h
  · rw [hr, stateAfter_ok]
    have hparents := activeParentTunnels_insert hinsert hfree
    by_cases hchild : ∃ childId, tunnel.isActiveParentOf childId = true
    · obtain ⟨childId, hchild⟩ := hchild
      have hsame : ∀ b, b ≠ childId → (s.withTunnels tunnels).parentOf b = s.parentOf b := by
        intro b hb
        refine parentOf_congr ((hparents b).trans (if_neg fun hactive => hb ?_))
        exact isActiveParentOf_unique hchild hactive
      have hnew : (s.withTunnels tunnels).parentOf childId = tunnel.targetDrawerId := by
        rw [parentOf_eq, hparents, if_pos hchild, List.head?_cons, Option.bind_some]
      cases htarget : tunnel.targetDrawerId with
      | none => exact h.cut hsame (hnew.trans htarget)
      | some parentId =>
        exact h.hang hsame (hnew.trans htarget) (hloop childId parentId hchild htarget)
    · have hsame : (s.withTunnels tunnels).parentOf = s.parentOf := by
        funext b
        exact parentOf_congr ((hparents b).trans (if_neg fun hactive => hchild ⟨b, hactive⟩))
      rw [hsame]
      exact h

theorem forest_step (hone : s.OneParent) (h : Forest s.parentOf) {call : OutlineCall}
    (hcall : HangsNoLoop s call) : Forest (outlineStep s call).parentOf := by
  cases call with
  | addTunnel tunnel => exact forest_addTunnel h hcall
  | reparentDrawer childId newParentId wing room addedBy now mintedId =>
    obtain ⟨s', hrun, hcut⟩ := cutFromParent_eq childId now s
    have hcut := hcut hone
    have hsame : ∀ b, b ≠ childId → s'.parentOf b = s.parentOf b := fun b hb =>
      parentOf_congr ((hcut b).trans (if_neg hb))
    have hnone : s'.parentOf childId = none := by
      rw [parentOf_eq, hcut, if_pos rfl, List.head?_nil, Option.bind_none]
    have hforest := h.cut hsame hnone
    simp only [outlineStep, OutlineCall.run, reparentDrawer, bind, EStateM.bind, hrun]
    cases newParentId with
    | none => exact hforest
    | some parentId =>
      refine forest_addTunnel hforest fun child target hchild htarget => ?_
      obtain rfl : child = childId := by
        simp only [Tunnel.isActiveParentOf, outlineTunnel, Bool.and_eq_true, beq_iff_eq] at hchild
        exact (Option.some.inj hchild.1.2).symm
      obtain rfl : parentId = target := Option.some.inj htarget
      -- the child is already cut off: whatever is above the new parent now was so before
      exact fun habove => hcall parentId rfl (habove.of_cut hsame h)

theorem noParents_of_empty (h : start.tunnels = .empty) (childId : String) :
    start.activeParentTunnels childId = [] := by
  rw [activeParentTunnels, h, KeyedTable.rows_empty, List.filter_nil]

/-- Each drawer hangs by at most one edge. The outline of a drawer whose way up ends is that way,
root first and cut at the bound; any other outline is as long as the bound. While no drawer is hung
under itself or its descendants, all ways up end. -/
theorem outline_forest (hempty : start.tunnels = .empty)
    (hrun : GuardedRun outlineStep (fun _ _ => True) start s) :
    s.OneParent ∧
      (∀ drawerId chain, Ancestors s.parentOf drawerId chain → (drawerId :: chain).Nodup ∧
        s.outlineAncestors drawerId = (chain.take 256).reverse) ∧
      (∀ drawerId, (¬∃ chain, Ancestors s.parentOf drawerId chain) →
        (s.outlineAncestors drawerId).length = 256) ∧
      (GuardedRun outlineStep HangsNoLoop start s →
        ∀ drawerId, ∃ chain, Ancestors s.parentOf drawerId chain) := by
  have hstart : start.OneParent := fun childId => by
    rw [noParents_of_empty hempty]
    exact Nat.zero_le _
  refine ⟨hrun.invariant hstart fun _ call h _ => h.step call, fun drawerId chain hchain => ?_,
    fun drawerId hno => ?_, fun hguarded => ?_⟩
  · rw [outlineAncestors_eq, hchain.climb_eq]
    exact ⟨List.nodup_cons.mpr ⟨hchain.not_mem, hchain.nodup⟩, rfl⟩
  · rw [outlineAncestors_eq, List.length_reverse]
    refine le_antisymm (length_climb_le _ _) ?_
    by_contra hlt
    exact hno ⟨_, ancestors_climb (Nat.lt_of_not_le hlt)⟩
  · have hroots : start.parentOf = fun _ => none := by
      funext b
      rw [parentOf_eq, noParents_of_empty hempty, List.head?_nil, Option.bind_none]
    have hboth := hguarded.invariant (P := fun s => s.OneParent ∧ Forest s.parentOf)
      ⟨hstart, hroots ▸ forest_none⟩ fun _ call h hcall =>
        ⟨h.1.step call, forest_step h.1 h.2 hcall⟩
    exact hboth.2

def hang (childId parentId mintedId : String) : OutlineCall :=
  .reparentDrawer childId (some parentId) "w" "r" "me" 0 mintedId

/-- A drawer under a second one, and that under a third. -/
def nested : DrawerStore :=
  [hang "a" "b" "t1", hang "b" "c" "t2"].foldl outlineStep (fresh "me")

theorem outline_forest_nested :
    nested.OneParent ∧ nested.outlineAncestors "a" = ["c", "b"] ∧
      ∀ drawerId, ∃ chain, Ancestors nested.parentOf drawerId chain := by
  have hrun : GuardedRun outlineStep (fun _ _ => True) (fresh "me") nested :=
    GuardedRun.foldl .start fun _ _ _ _ => trivial
  have hfirst : HangsNoLoop (fresh "me") (hang "a" "b" "t1") := by
    intro parentId hp
    cases hp
    exact not_atOrAbove_of_root (by decide +kernel) (by decide)
  have hsecond : HangsNoLoop (outlineStep (fresh "me") (hang "a" "b" "t1"))
      (hang "b" "c" "t2") := by
    intro parentId hp
    cases hp
    exact not_atOrAbove_of_root (by decide +kernel) (by decide)
  obtain ⟨hone, hchain, -, hforest⟩ := outline_forest rfl hrun
  have ha : nested.parentOf "a" = some "b" := by decide +kernel
  have hb : nested.parentOf "b" = some "c" := by decide +kernel
  have hc : nested.parentOf "c" = none := by decide +kernel
  exact ⟨hone, (hchain "a" _ (.step ha (.step hb (.root hc)))).2,
    hforest (.next _ (.next _ .start hfirst) hsecond)⟩

/-- Two drawers, each hung under the other. -/
def looped : DrawerStore :=
  [hang "a" "b" "t1", hang "b" "a" "t2"].foldl outlineStep (fresh "me")

/-- Nothing keeps two drawers from being hung under each other. -/
theorem not_outline_forest :
    ¬∀ start s : DrawerStore, start.tunnels = .empty →
      GuardedRun outlineStep (fun _ _ => True) start s →
      s.OneParent ∧ ∀ drawerId, ∃ chain, Ancestors s.parentOf drawerId chain ∧
        (drawerId :: chain).Nodup ∧ s.outlineAncestors drawerId = (chain.take 256).reverse := by
  intro h
  have hrun : GuardedRun outlineStep (fun _ _ => True) (fresh "me") looped :=
    GuardedRun.foldl .start fun _ _ _ _ => trivial
  obtain ⟨-, hall⟩ := h (fresh "me") looped rfl hrun
  have ha : looped.parentOf "a" = some "b" := by decide +kernel
  have hb : looped.parentOf "b" = some "a" := by decide +kernel
  obtain ⟨chain, hchain, -, -⟩ := hall "a"
  refine hchain.not_mem ?_
  cases hchain with
  | root hroot => rw [ha] at hroot; cases hroot
  | step hstep hrest =>
    rw [ha] at hstep
    cases hstep
    cases hrest with
    | root hroot => rw [hb] at hroot; cases hroot
    | step hstep hrest =>
      rw [hb] at hstep
      cases hstep
      exact List.mem_cons_of_mem _ List.mem_cons_self

end DrawerStore

end MootMemory
