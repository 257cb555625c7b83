import MootMemory.RecallVerbs
import MootMemory.ReferenceSubstrate
import MootMemory.StoreCalls

namespace MootMemory

namespace DrawerStore

/-- The bound of the recall cuts nothing off. -/
def Unbounded (substrate : Substrate) (s : DrawerStore) (frame : RecallFrame) : Prop :=
  s.drawers.rows.length ≤ frame.scanBound ∧
    (s.prunedRows substrate frame.filterChain).length ≤ frame.scanBound

instance (substrate : Substrate) (s : DrawerStore) (frame : RecallFrame) :
    Decidable (s.Unbounded substrate frame) := inferInstanceAs (Decidable (_ ∧ _))

/-- The row is not tombstoned now and, where a recall prunes, lies in a room that survives. -/
def RowScanned (substrate : Substrate) (s : DrawerStore) (chain : List Filter) (row : Drawer) :
    Prop :=
  row.tombstonedAt = none ∧ (chainHasPrunableFilter chain = true →
    ∃ entry ∈ s.survivingRooms chain,
      s.nodes.roomNodeId substrate entry.wing entry.room = some row.parentNodeId)

/-- The load by ids gives what the recall gives of the ids, each once, and says which were found. -/
structure Agrees (s : DrawerStore) (ids : List String) (recalled : List Drawer)
    (byId : FrameFilteredDrawers) : Prop where
  admissible : ∀ id, id ∈ byId.admissible.map (·.id) ↔ id ∈ recalled.map (·.id) ∧ id ∈ ids
  once : (byId.admissible.map (·.id)).Nodup
  loadedIds : ∀ id, id ∈ byId.loadedIds ↔ id ∈ ids ∧ ∃ row ∈ s.drawers.rows, row.id = id

variable {substrate : Substrate} {s : DrawerStore} {frame : RecallFrame} {row : Drawer}
  {ids : List String} {recalled : List Drawer} {byId : FrameFilteredDrawers}

theorem mem_drawersInWingRoom {wing room : String} :
    row ∈ s.drawersInWingRoom substrate wing room ↔ row ∈ s.drawers.rows ∧
      row.tombstonedAt = none ∧
        s.nodes.roomNodeId substrate wing room = some row.parentNodeId := by
  rw [drawersInWingRoom]
  cases hroom : s.nodes.roomNodeId substrate wing room with
  | none => simp
  | some roomId =>
    dsimp only
    rw [List.mem_mergeSort, List.mem_filter, Bool.and_eq_true, beq_iff_eq, Option.isNone_iff_eq_none,
      Option.some.injEq]
    constructor
    · rintro ⟨hrow, hparent, hlive⟩
      exact ⟨hrow, hlive, hparent.symm⟩
    · rintro ⟨hrow, hlive, hparent⟩
      exact ⟨hrow, hparent.symm, hlive⟩

theorem mem_prunedRows {chain : List Filter} : row ∈ s.prunedRows substrate chain ↔
    row ∈ s.drawers.rows ∧ row.tombstonedAt = none ∧ ∃ entry ∈ s.survivingRooms chain,
      s.nodes.roomNodeId substrate entry.wing entry.room = some row.parentNodeId := by
  rw [prunedRows, List.mem_flatMap]
  constructor
  · rintro ⟨entry, hentry, hrow⟩
    obtain ⟨hrow, hlive, hroom⟩ := mem_drawersInWingRoom.mp hrow
    exact ⟨hrow, hlive, entry, hentry, hroom⟩
  · rintro ⟨hrow, hlive, entry, hentry, hroom⟩
    exact ⟨entry, hentry, mem_drawersInWingRoom.mpr ⟨hrow, hlive, hroom⟩⟩

theorem mem_allDrawersBoundedDesc (h : s.drawers.rows.length ≤ frame.scanBound) :
    row ∈ s.allDrawersBoundedDesc frame.scanBound ↔ row ∈ s.drawers.rows := by
  rw [allDrawersBoundedDesc, List.take_of_length_le (by rwa [List.length_mergeSort]),
    List.mem_mergeSort]

/-- The candidates of an unbounded recall that pass are the scanned rows that pass. -/
theorem exists_liveRows_iff (hunbounded : s.Unbounded substrate frame) {id : String} :
    (∃ row ∈ s.liveRows substrate frame, row.id = id ∧ s.passesFrame substrate frame row = true) ↔
      ∃ row ∈ s.drawers.rows, row.id = id ∧ s.RowScanned substrate frame.filterChain row ∧
        s.passesFrame substrate frame row = true := by
  rw [liveRows]
  cases hprune : chainHasPrunableFilter frame.filterChain with
  | true =>
    rw [if_pos rfl, List.take_of_length_le hunbounded.2]
    refine exists_congr fun row => ?_
    rw [mem_prunedRows, RowScanned, hprune]
    simp only [forall_const]
    tauto
  | false =>
    rw [if_neg Bool.false_ne_true]
    have hscanned (row : Drawer) : s.RowScanned substrate frame.filterChain row ↔
        row.tombstonedAt = none := by
      rw [RowScanned, hprune]
      exact and_iff_left fun h => absurd h Bool.false_ne_true
    by_cases hcontent : chainHasContentPredicate frame.filterChain ∨ frame.hydrationLevel = .full
    · simp only [if_pos hcontent]
      refine exists_congr fun row => ?_
      rw [List.mem_filter, mem_allDrawersBoundedDesc hunbounded.1, Option.isNone_iff_eq_none,
        hscanned]
      tauto
    · simp only [if_neg hcontent]
      have hno := Bool.eq_false_iff.mpr (not_or.mp hcontent).1
      constructor
      · rintro ⟨projected, hprojected, rfl, hpass⟩
        obtain ⟨hmem, hlive⟩ := List.mem_filter.mp hprojected
        obtain ⟨row, hrow, rfl⟩ := List.mem_map.mp hmem
        rw [passesFrame_clearContent hno] at hpass
        exact ⟨row, (mem_allDrawersBoundedDesc hunbounded.1).mp hrow, rfl,
          (hscanned row).mpr (Option.isNone_iff_eq_none.mp hlive), hpass⟩
      · rintro ⟨row, hrow, rfl, hlive, hpass⟩
        refine ⟨row.clearContent, List.mem_filter.mpr ⟨List.mem_map.mpr ⟨row, ?_, rfl⟩, ?_⟩, rfl, ?_⟩
        · exact (mem_allDrawersBoundedDesc hunbounded.1).mpr hrow
        · exact Option.isNone_iff_eq_none.mpr ((hscanned row).mp hlive)
        · rw [passesFrame_clearContent hno]
          exact hpass

theorem mem_recallRows_ids (h : s.recallRows substrate frame = .ok recalled)
    (hunbounded : s.Unbounded substrate frame) {id : String} :
    id ∈ recalled.map (·.id) ↔ ∃ row ∈ s.drawers.rows, row.id = id ∧
      s.RowScanned substrate frame.filterChain row ∧ s.passesFrame substrate frame row = true := by
  rw [← exists_liveRows_iff hunbounded, List.mem_map]
  refine exists_congr fun row => ?_
  rw [mem_evaluate h, and_assoc, and_comm (b := row.id = id)]

/-- The rows loaded by ids that pass, by their ids. -/
theorem map_id_filter_loaded (p : Drawer → Bool) :
    ((ids.filterMap s.drawers.find?).filter p).map (·.id) =
      ids.filter fun id => (s.drawers.find? id).any p := by
  induction ids with
  | nil => rfl
  | cons id ids ih =>
    cases hfind : s.drawers.find? id with
    | none => rw [List.filterMap_cons_none hfind, ih, List.filter_cons, hfind]; rfl
    | some row =>
      have hid := (KeyedTable.find?_eq_some_iff.mp hfind).2
      rw [List.filterMap_cons_some hfind, List.filter_cons, List.filter_cons, hfind, Option.any_some]
      cases p row with
      | true => rw [if_pos rfl, if_pos rfl, List.map_cons, ih, hid]
      | false => rw [if_neg Bool.false_ne_true, if_neg Bool.false_ne_true, ih]

theorem getDrawersMatchingFrame_ids
    (h : s.getDrawersMatchingFrame substrate ids frame = .ok byId) :
    (byId.admissible.map (·.id)).Perm
      (ids.filter fun id => (s.drawers.find? id).any (s.passesFrame substrate frame)) ∧
    byId.loadedIds = ((ids.filterMap s.drawers.find?).map (·.id)).dedup := by
  obtain ⟨admissible, hadmissible, h⟩ := except_bind_ok.mp h
  obtain rfl := Except.ok.inj h
  refine ⟨?_, rfl⟩
  have hids : (if frame.hydrationLevel = .bitmapOnly then admissible.map (·.clearContent)
      else admissible).map (·.id) = admissible.map (·.id) := by
    split
    next => rw [List.map_map]; rfl
    next => rfl
  dsimp only
  rw [hids, evaluate_eq_ok hadmissible, ← map_id_filter_loaded]
  exact (List.mergeSort_perm _ _).map _

/-- How often an id is admitted, if its row passes. -/
theorem count_filter_find? {p : Drawer → Bool} {id : String}
    (h : (s.drawers.find? id).any p = true) :
    (ids.filter fun id => (s.drawers.find? id).any p).count id = ids.count id :=
  List.count_filter (p := fun id => (s.drawers.find? id).any p) h

theorem mem_admissible_ids (h : s.getDrawersMatchingFrame substrate ids frame = .ok byId)
    {id : String} : id ∈ byId.admissible.map (·.id) ↔
      id ∈ ids ∧ ∃ row ∈ s.drawers.rows, row.id = id ∧
        s.passesFrame substrate frame row = true := by
  rw [(getDrawersMatchingFrame_ids h).1.mem_iff, List.mem_filter, Option.any_eq_true]
  refine and_congr_right fun _ => exists_congr fun row => ?_
  rw [KeyedTable.find?_eq_some_iff, and_assoc]

theorem count_admissible_ids (h : s.getDrawersMatchingFrame substrate ids frame = .ok byId)
    (hrow : row ∈ s.drawers.rows) (hpass : s.passesFrame substrate frame row = true) :
    (byId.admissible.map (·.id)).count row.id = ids.count row.id := by
  have hfind : s.drawers.find? row.id = some row := KeyedTable.find?_of_mem hrow
  rw [(getDrawersMatchingFrame_ids h).1.count_eq]
  exact count_filter_find? (by rw [hfind, Option.any_some, hpass])

theorem mem_loadedIds (h : s.getDrawersMatchingFrame substrate ids frame = .ok byId)
    {id : String} : id ∈ byId.loadedIds ↔ id ∈ ids ∧ ∃ row ∈ s.drawers.rows, row.id = id := by
  rw [(getDrawersMatchingFrame_ids h).2, List.mem_dedup, List.mem_map]
  constructor
  · rintro ⟨row, hrow, rfl⟩
    obtain ⟨id, hid, hfind⟩ := List.mem_filterMap.mp hrow
    obtain ⟨hrow, hrowId⟩ := KeyedTable.find?_eq_some_iff.mp hfind
    exact ⟨hrowId ▸ hid, row, hrow, rfl⟩
  · rintro ⟨hid, row, hrow, rfl⟩
    exact ⟨row, List.mem_filterMap.mpr ⟨row.id, hid, KeyedTable.find?_of_mem hrow⟩, rfl⟩

/-- The load by ids agrees with an unbounded recall exactly if every row among the ids that passes
the frame is named once and is one the recall scans. -/
theorem getDrawersMatchingFrame_agrees_iff {limit : Option Nat}
    (hbyId : s.getDrawersMatchingFrame substrate ids frame = .ok byId)
    (hrecall : s.recallRows substrate { frame with limit } = .ok recalled)
    (hunbounded : s.Unbounded substrate { frame with limit }) :
    s.Agrees ids recalled byId ↔ ∀ row ∈ s.drawers.rows, row.id ∈ ids →
      s.passesFrame substrate frame row = true →
        ids.count row.id = 1 ∧ s.RowScanned substrate frame.filterChain row := by
  constructor
  · intro hagrees row hrow hid hpass
    have hadmitted := (mem_admissible_ids hbyId).mpr ⟨hid, row, hrow, rfl, hpass⟩
    constructor
    · rw [← count_admissible_ids hbyId hrow hpass]
      exact List.count_eq_one_of_mem hagrees.once hadmitted
    · obtain ⟨other, hother, hsame, hscanned, -⟩ :=
        (mem_recallRows_ids hrecall hunbounded).mp ((hagrees.admissible row.id).mp hadmitted).1
      rwa [KeyedTable.eq_of_key_eq hother hrow hsame] at hscanned
  · intro hall
    refine ⟨fun id => ?_, List.nodup_iff_count_le_one.mpr fun id => ?_, fun _ => mem_loadedIds hbyId⟩
    · rw [mem_admissible_ids hbyId, mem_recallRows_ids hrecall hunbounded]
      constructor
      · rintro ⟨hid, row, hrow, rfl, hpass⟩
        exact ⟨⟨row, hrow, rfl, (hall row hrow hid hpass).2, hpass⟩, hid⟩
      · rintro ⟨⟨row, hrow, hrowId, -, hpass⟩, hid⟩
        exact ⟨hid, row, hrow, hrowId, hpass⟩
    · by_cases hin : id ∈ byId.admissible.map (·.id)
      · obtain ⟨hid, row, hrow, rfl, hpass⟩ := (mem_admissible_ids hbyId).mp hin
        rw [count_admissible_ids hbyId hrow hpass, (hall row hrow hid hpass).1]
      · rw [List.count_eq_zero_of_not_mem hin]
        exact Nat.zero_le 1

theorem exists_eq_ok {ε α : Type} {x : Except ε α} (h : x.isOk = true) : ∃ a, x = .ok a := by
  cases x with
  | ok a => exact ⟨a, rfl⟩
  | error e => cases h

/-- A room after a plain capture. -/
def capturedRoom : DrawerStore :=
  [StoreCall.createRoot "estate" "root", .createNode "Wing" "root" "wing",
    .createNode "Room" "wing" "room", .addDrawer (referenceDrawer "1" 1 5) 5].foldl
      (step referenceSubstrate) (fresh "alice")

/-- The defaults alone, asked for at a time. -/
def frameAt (asOf : Option Hlc) : RecallFrame := ⟨[], .full, none, .byCaptureTimeDesc, asOf⟩

theorem getDrawersMatchingFrame_agrees_capturedRoom : ∃ byId recalled,
    capturedRoom.getDrawersMatchingFrame referenceSubstrate [referenceUuidText "1"]
      (frameAt none) = .ok byId ∧
    capturedRoom.recallRows referenceSubstrate (frameAt none) = .ok recalled ∧
    (capturedRoom.Agrees [referenceUuidText "1"] recalled byId ↔
      ∀ row ∈ capturedRoom.drawers.rows, row.id ∈ [referenceUuidText "1"] →
        capturedRoom.passesFrame referenceSubstrate (frameAt none) row = true →
          [referenceUuidText "1"].count row.id = 1 ∧
            capturedRoom.RowScanned referenceSubstrate (frameAt none).filterChain row) := by
  obtain ⟨byId, hbyId⟩ := exists_eq_ok (x := capturedRoom.getDrawersMatchingFrame
    referenceSubstrate [referenceUuidText "1"] (frameAt none)) (by decide +kernel)
  obtain ⟨recalled, hrecall⟩ := exists_eq_ok (x := capturedRoom.recallRows referenceSubstrate
    (frameAt none)) (by decide +kernel)
  have hunbounded : capturedRoom.Unbounded referenceSubstrate (frameAt none) := by decide +kernel
  exact ⟨byId, recalled, hbyId, hrecall, getDrawersMatchingFrame_agrees_iff hbyId hrecall hunbounded⟩

/-- The capture and its expunge. -/
def expungedCapture : List StoreCall :=
  [.addDrawer (referenceDrawer "1" 1 5) 5,
    .expungeGated (referenceUuidText "1") "alice" none 8 true]

theorem not_getDrawersMatchingFrame_agrees :
    ¬∀ (substrate : Substrate) (owner : String) (calls : List StoreCall) (ids : List String)
      (frame : RecallFrame) (byId : FrameFilteredDrawers) (recalled : List Drawer),
      (calls.foldl (step substrate) (fresh owner)).getDrawersMatchingFrame substrate ids frame =
        .ok byId →
      (calls.foldl (step substrate) (fresh owner)).recallRows substrate frame = .ok recalled →
      (calls.foldl (step substrate) (fresh owner)).Unbounded substrate frame →
      (calls.foldl (step substrate) (fresh owner)).Agrees ids recalled byId := by
  intro h
  let s := expungedCapture.foldl (step referenceSubstrate) (fresh "alice")
  obtain ⟨byId, hbyId⟩ := exists_eq_ok (x := s.getDrawersMatchingFrame referenceSubstrate
    [referenceUuidText "1"] (frameAt (some ⟨6, 0, 0⟩))) (by decide +kernel)
  obtain ⟨recalled, hrecall⟩ := exists_eq_ok (x := s.recallRows referenceSubstrate
    (frameAt (some ⟨6, 0, 0⟩))) (by decide +kernel)
  have hunbounded : s.Unbounded referenceSubstrate (frameAt (some ⟨6, 0, 0⟩)) := by decide +kernel
  have hagrees := h referenceSubstrate "alice" expungedCapture _ _ byId recalled hbyId hrecall
    hunbounded
  have hpass : ∃ row ∈ s.drawers.rows, row.id = referenceUuidText "1" ∧
      s.passesFrame referenceSubstrate (frameAt (some ⟨6, 0, 0⟩)) row = true := by decide +kernel
  have hnone : ∀ row ∈ s.drawers.rows, row.tombstonedAt ≠ none := by decide +kernel
  -- the row was live at the asked time, so the load by ids admits it
  have hadmitted := (mem_admissible_ids hbyId).mpr ⟨List.mem_singleton_self _, hpass⟩
  obtain ⟨row, hrow, -, hscanned, -⟩ :=
    (mem_recallRows_ids hrecall hunbounded).mp ((hagrees.admissible _).mp hadmitted).1
  exact hnone row hrow hscanned.1

end DrawerStore

end MootMemory
