import MootMemory.SensitivityCeiling

namespace MootMemory

theorem someProvablyExcluded_iff {fp : BitmapFields} {fs : List Filter} :
    someProvablyExcluded fp fs = true ↔ ∃ f ∈ fs, containerProvablyExcludes fp f = true := by
  induction fs with
  | nil => simp [someProvablyExcluded]
  | cons f fs ih => rw [someProvablyExcluded, Bool.or_eq_true, ih, List.exists_mem_cons_iff]

theorem allProvablyExcluded_iff {fp : BitmapFields} {fs : List Filter} :
    allProvablyExcluded fp fs = true ↔ ∀ f ∈ fs, containerProvablyExcludes fp f = true := by
  induction fs with
  | nil => simp [allProvablyExcluded]
  | cons f fs ih => rw [allProvablyExcluded, Bool.and_eq_true, ih, List.forall_mem_cons]

/-- A feature flag outside the operational word of the container is on no row below it. -/
theorem flag_absent {op container flag : Bitmap} (covered : op &&& container = op)
    (absent : container &&& flag = 0) : op &&& flag = 0 := by
  have h : op &&& flag = op &&& (container &&& flag) := by
    rw [← BitVec.and_assoc, covered]
  rw [h, absent]
  exact BitVec.and_zero

/-- What the fingerprint excludes fails the bitmap tier on every row that it covers. -/
theorem evaluateOne_of_excluded {fp fields : BitmapFields}
    (covered : fields.operational &&& fp.operational = fields.operational) {f : Filter}
    (excluded : containerProvablyExcludes fp f = true) : evaluateOne f fields = false := by
  unfold evaluateOne
  induction f using Formula.induction with
  | leaf a =>
    -- only a feature flag is ever excluded
    cases a <;> simp only [containerProvablyExcludes, Bool.false_eq_true] at excluded
    next flag =>
      have absent : fields.operational &&& flag = 0 :=
        flag_absent covered (beq_iff_eq.mp excluded)
      simp [evaluateBitmapLeaf, absent]
  | all fs ih =>
    rw [containerProvablyExcludes, someProvablyExcluded_iff] at excluded
    obtain ⟨f, hf, hx⟩ := excluded
    rw [Formula.holds_all, List.all_eq_false]
    exact ⟨f, hf, by simp [ih f hf hx]⟩
  | any fs ih =>
    rw [containerProvablyExcludes, Bool.and_eq_true, allProvablyExcluded_iff] at excluded
    rw [Formula.holds_any, List.any_eq_false]
    intro f hf
    simp [ih f hf (excluded.2 f hf)]
  | not f _ =>
    rw [containerProvablyExcludes] at excluded
    exact absurd excluded Bool.false_ne_true

/-- The fingerprint covers the operational bitmap of a row. -/
def BitmapFields.CoversRow (fp : BitmapFields) (d : Drawer) : Prop :=
  d.bitmaps.operational &&& fp.operational = d.bitmaps.operational

theorem not_passesTiers_of_pruned {fp : BitmapFields} {chain : List Filter}
    (pruned : containerSurvives chain fp = false) {d : Drawer} (covered : fp.CoversRow d)
    (toLowercase : String → String) (nodeNames : NodeNames) :
    passesTiers toLowercase (insertDefaults chain) nodeNames d = false := by
  rw [containerSurvives, Bool.not_eq_false', List.any_eq_true] at pruned
  obtain ⟨f, hf, excluded⟩ := pruned
  have fails : evaluateOne f d.bitmaps = false := evaluateOne_of_excluded covered excluded
  rw [Bool.eq_false_iff]
  intro passes
  have holds := ((passesTiers_iff.mp passes).2 f (subset_insertDefaults chain hf)).1
  rw [fails] at holds
  exact absurd holds Bool.false_ne_true

/-- Rows of a pruned container add nothing to what an evaluation of other rows finds. -/
theorem evaluate_append_pruned {fp : BitmapFields} {frame : RecallFrame}
    (present : frame.asOf = none) (pruned : containerSurvives frame.filterChain fp = false)
    {drawers rows : List Drawer} (covered : ∀ d ∈ rows, fp.CoversRow d) (substrate : Substrate)
    (auditLog : List AuditEvent) (nodeNames : NodeNames) :
    evaluate substrate frame (drawers ++ rows) auditLog nodeNames =
      evaluate substrate frame drawers auditLog nodeNames := by
  have none_pass : rows.filter (passesTiers substrate.toLowercase
      (insertDefaults frame.filterChain) nodeNames) = [] := by
    rw [List.filter_eq_nil_iff]
    intro d hd
    rw [not_passesTiers_of_pruned pruned (covered d hd)]
    exact Bool.false_ne_true
  rw [evaluate_none present, evaluate_none present, List.filter_append, none_pass,
    List.append_nil]

/-- A container that does not survive the chain holds no row that an evaluation returns. -/
theorem evaluate_of_pruned {fp : BitmapFields} {frame : RecallFrame}
    (present : frame.asOf = none) (pruned : containerSurvives frame.filterChain fp = false)
    {drawers : List Drawer}
    (covered : ∀ d ∈ drawers, d.bitmaps.operational &&& fp.operational = d.bitmaps.operational)
    (substrate : Substrate) (auditLog : List AuditEvent) (nodeNames : NodeNames) :
    evaluate substrate frame drawers auditLog nodeNames = .ok [] := by
  have same : evaluate substrate frame ([] ++ drawers) auditLog nodeNames =
      evaluate substrate frame [] auditLog nodeNames :=
    evaluate_append_pruned present pruned covered substrate auditLog nodeNames
  rw [List.nil_append] at same
  rw [same, evaluate_none present]
  simp [sortDrawers]

/-- A drawer of the first channel, under a fingerprint without the flag asked for. -/
def channelDrawer : Drawer := { normalDrawer with bitmaps := ⟨0, 1, 0⟩ }

def flaggedFrame : RecallFrame where
  filterChain := [.all [.leaf .trustworthy, .any [.leaf (.hasFeatureFlag 0x1000)]]]
  hydrationLevel := .structured
  limit := none
  ordering := .byRoomAsc
  asOf := none

theorem evaluate_of_pruned_channelDrawer :
    evaluate referenceSubstrate flaggedFrame [channelDrawer] [] (fun _ => some ("w", "r")) =
      .ok [] := by
  have pruned : containerSurvives flaggedFrame.filterChain ⟨0, 0x2001, 0⟩ = false := by decide
  apply evaluate_of_pruned rfl pruned
  intro d hd
  rw [List.mem_singleton.mp hd]
  decide

end MootMemory
