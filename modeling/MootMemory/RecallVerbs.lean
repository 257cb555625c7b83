import MootMemory.DrawerExpunge
import MootMemory.FormulaLeaves
import MootMemory.PlainEvaluation

namespace MootMemory

def recallCandidateCap : Nat := 256

def RecallFrame.scanBound (frame : RecallFrame) : Nat := max (frame.limit.getD 0) recallCandidateCap

/-- The newest drawer first, of two filed at once the one with the greater id. -/
def newestFirst (a b : Drawer) : Bool :=
  b.filedAt < a.filedAt || (a.filedAt == b.filedAt && b.id ≤ a.id)

structure FrameFilteredDrawers where
  admissible : List Drawer
  loadedIds : List String

namespace DrawerStore

variable (substrate : Substrate) (s : DrawerStore)

/-- The names of a drawer's wing and room, as far as its parent's id is that of a node. -/
def nodeNamesForDrawers : NodeNames := fun parentNodeId =>
  if parentNodeId = "" then none
  else (substrate.parseUuid parentNodeId).bind fun uuid => s.nodes.resolveNodeNames (Uuid.text uuid)

/-- The drawers of a room that are not tombstoned. -/
def drawersInWingRoom (wing room : String) : List Drawer :=
  match s.nodes.roomNodeId substrate wing room with
  | some roomId =>
    (s.drawers.rows.filter fun d => d.parentNodeId == roomId && d.tombstonedAt.isNone).mergeSort
      fun a b => a.filedAt ≤ b.filedAt
  | none => []

/-- A wing without a rollup is not pruned. -/
def wingSurvives (chain : List Filter) (wing : String) : Bool :=
  match s.fingerprints.get wing wingRollupRoom with
  | some fp => containerSurvives chain fp
  | none => true

/-- The rooms that a recall reads where the chain can be pruned by fingerprints. -/
def survivingRooms (chain : List Filter) : List ContainerRow :=
  s.fingerprints.roomLevelEntries.filter fun entry =>
    s.wingSurvives chain entry.wing && containerSurvives chain entry.fingerprint

/-- The drawers of the surviving rooms. -/
def prunedRows (chain : List Filter) : List Drawer :=
  (s.survivingRooms chain).flatMap fun entry => s.drawersInWingRoom substrate entry.wing entry.room

def allDrawersBoundedDesc (limit : Nat) : List Drawer :=
  (s.drawers.rows.mergeSort newestFirst).take limit

/-- The scan that leaves the content column out. -/
def allDrawersBoundedProjectedDesc (limit : Nat) : List Drawer :=
  (s.allDrawersBoundedDesc limit).map (·.clearContent)

/-- The candidates of a recall: the drawers of the surviving rooms, or a scan of all drawers. -/
def liveRows (frame : RecallFrame) : List Drawer :=
  if chainHasPrunableFilter frame.filterChain then
    (s.prunedRows substrate frame.filterChain).take frame.scanBound
  else
    let scanned :=
      if chainHasContentPredicate frame.filterChain ∨ frame.hydrationLevel = .full then
        s.allDrawersBoundedDesc frame.scanBound
      else s.allDrawersBoundedProjectedDesc frame.scanBound
    scanned.filter (·.tombstonedAt.isNone)

/-- The rows of a recall's stream; an evaluation that fails is a degraded stage without rows. -/
def recallRows (frame : RecallFrame) : Except LocusKitError (List Drawer) :=
  evaluate substrate frame (s.liveRows substrate frame) s.auditLog
    (s.nodeNamesForDrawers substrate)

/-- Loads rows by their ids and keeps those that the frame admits. -/
def getDrawersMatchingFrame (ids : List String) (frame : RecallFrame) :
    Except LocusKitError FrameFilteredDrawers := do
  let loaded := ids.filterMap s.drawers.find?
  let admissible ← evaluate substrate frame loaded s.auditLog (s.nodeNamesForDrawers substrate)
  return {
    admissible :=
      if frame.hydrationLevel = .bitmapOnly then admissible.map (·.clearContent) else admissible
    loadedIds := (loaded.map (·.id)).dedup }

/-- The bitmaps the row had at the asked time pass the chain. -/
def passesBitmaps (asOf : Option Hlc) (chain : List Filter) (drawer : Drawer) : Bool :=
  match bitmapsAt substrate s.auditLog asOf drawer with
  | .ok (some fields) => evaluateBitmapTier chain fields
  | _ => false

/-- The row passes the three tiers of the frame. -/
def passesFrame (frame : RecallFrame) (drawer : Drawer) : Bool :=
  let chain := insertDefaults frame.filterChain
  s.passesBitmaps substrate frame.asOf chain drawer &&
    (evaluateStructuredTier chain drawer (s.nodeNamesForDrawers substrate) &&
      evaluateContentTier substrate.toLowercase chain drawer)

variable {substrate s}

theorem bitmapCandidates_eq_ok {asOf : Option Hlc} {chain : List Filter}
    {drawers candidates : List Drawer}
    (h : bitmapCandidates substrate s.auditLog asOf chain drawers = .ok candidates) :
    candidates = drawers.filter (s.passesBitmaps substrate asOf chain) := by
  induction drawers generalizing candidates with
  | nil => exact (Except.ok.inj h).symm
  | cons drawer rest ih =>
    obtain ⟨fields, hfields, h⟩ := except_bind_ok.mp h
    obtain ⟨others, hothers, h⟩ := except_bind_ok.mp h
    obtain rfl := Except.ok.inj h
    rw [List.filter_cons, ← ih hothers, passesBitmaps, hfields]
    cases fields <;> rfl

variable {frame : RecallFrame} {drawers result : List Drawer} {drawer : Drawer}

/-- An evaluation that succeeds filters the rows and sorts what is left. -/
theorem evaluate_eq_ok
    (h : evaluate substrate frame drawers s.auditLog (s.nodeNamesForDrawers substrate) =
      .ok result) :
    result = sortDrawers (drawers.filter (s.passesFrame substrate frame)) frame.ordering
      (s.nodeNamesForDrawers substrate) := by
  obtain ⟨candidates, hcandidates, h⟩ := except_bind_ok.mp h
  obtain rfl := Except.ok.inj h
  refine congrArg (sortDrawers · _ _) ?_
  rw [bitmapCandidates_eq_ok hcandidates, List.filter_filter, List.filter_filter]
  refine List.filter_congr fun drawer _ => ?_
  rw [passesFrame, Bool.and_comm, Bool.and_comm (evaluateContentTier _ _ _)]

theorem mem_evaluate
    (h : evaluate substrate frame drawers s.auditLog (s.nodeNamesForDrawers substrate) =
      .ok result) :
    drawer ∈ result ↔ drawer ∈ drawers ∧ s.passesFrame substrate frame drawer = true := by
  rw [evaluate_eq_ok h, sortDrawers, List.mem_mergeSort, List.mem_filter]

/-- Without a content filter the content tier does not look at the content. -/
theorem evaluateContent_clearContent {toLowercase : String → String} {filter : Filter}
    (h : isContentFilter filter = false) :
    evaluateContent toLowercase filter drawer.clearContent =
      evaluateContent toLowercase filter drawer := by
  refine Formula.holdsOf_congr_leaves fun leaf hleaf hcontent => ?_
  rw [isContentFilter, Formula.mentions_eq_false_iff] at h
  rw [h leaf hleaf] at hcontent
  cases hcontent

theorem isContentFilter_insertDefaults (h : chainHasContentPredicate frame.filterChain = false) :
    ∀ filter ∈ insertDefaults frame.filterChain, isContentFilter filter = false := by
  intro filter hfilter
  rw [chainHasContentPredicate, List.any_eq_false] at h
  obtain rfl | rfl | rfl | hfilter := mem_insertDefaults hfilter
  · rfl
  · rfl
  · rfl
  · exact Bool.eq_false_iff.mpr (h filter hfilter)

theorem evaluateContentTier_clearContent
    (h : chainHasContentPredicate frame.filterChain = false) :
    evaluateContentTier substrate.toLowercase (insertDefaults frame.filterChain)
        drawer.clearContent =
      evaluateContentTier substrate.toLowercase (insertDefaults frame.filterChain) drawer := by
  rw [evaluateContentTier, evaluateContentTier, Bool.eq_iff_iff, List.all_eq_true, List.all_eq_true]
  refine forall₂_congr fun filter hfilter => ?_
  rw [evaluateContent_clearContent (isContentFilter_insertDefaults h filter hfilter)]

/-- A scan without the content column admits the same rows where no filter reads the content. -/
theorem passesFrame_clearContent (h : chainHasContentPredicate frame.filterChain = false) :
    s.passesFrame substrate frame drawer.clearContent = s.passesFrame substrate frame drawer := by
  rw [passesFrame, evaluateContentTier_clearContent h]
  rfl

end DrawerStore

end MootMemory
