import MootMemory.PlainEvaluation
import MootMemory.ReferenceSubstrate

namespace MootMemory

/-- The two tiers that need an explicit grant. -/
def RestrictedOrSecret (fields : BitmapFields) : Prop :=
  extractField fields.adjective 6 6 = AdjectiveSensitivity.restricted.rawValue ∨
    extractField fields.adjective 6 6 = AdjectiveSensitivity.secret.rawValue

instance (fields : BitmapFields) : Decidable (RestrictedOrSecret fields) :=
  inferInstanceAs (Decidable (_ ∨ _))

def atMostElevated : AdjectiveSensitivity → Bool
  | .normal | .elevated => true
  | .restricted | .secret => false

/-- A leaf that admits no tier above elevated. -/
def boundsSensitivityLeaf : FilterLeaf → Bool
  | .sensitivity s | .sensitivityAtMost s => atMostElevated s
  | _ => false

/-- A filter that only rows up to elevated satisfy. -/
inductive BoundsSensitivity : Filter → Prop
  | leaf {a} (h : boundsSensitivityLeaf a = true) : BoundsSensitivity (.leaf a)
  | all {fs f} (hf : f ∈ fs) (h : BoundsSensitivity f) : BoundsSensitivity (.all fs)
  | any {fs} (h : ∀ f ∈ fs, BoundsSensitivity f) : BoundsSensitivity (.any fs)

theorem extractField_sens_eq (adj : Bitmap) :
    extractField adj 6 6 = (adj &&& adjSensMask) >>> 6 := by
  have hmask : adjSensMask >>> 6 = lowMask 6 := by decide
  rw [extractField, BitVec.ushiftRight_and_distrib, hmask]

theorem thresholdCompare_sens (adj value : Bitmap) :
    thresholdCompare adj adjSensMask 6 .lessThanOrEqual value =
      decide ((extractField adj 6 6).toInt ≤ value.toInt) := by
  have hpop : popcount adjSensMask = 6 := by decide
  have hne : adjSensMask ≠ 0 := by decide
  rw [thresholdCompare, if_neg hne, hpop]

theorem not_restrictedOrSecret_of_leaf {a : FilterLeaf} {fields : BitmapFields}
    (ha : boundsSensitivityLeaf a = true) (h : evaluateBitmapLeaf fields a = true) :
    ¬RestrictedOrSecret fields := by
  intro hsecret
  cases a with
  | sensitivity s =>
    have heq : extractField fields.adjective 6 6 = (s.rawValue <<< 6) >>> 6 := by
      rw [extractField_sens_eq, eq_of_beq h]
    rw [RestrictedOrSecret, heq] at hsecret
    cases s with
    | normal => exact absurd hsecret (by decide)
    | elevated => exact absurd hsecret (by decide)
    | restricted => cases ha
    | secret => cases ha
  | sensitivityAtMost s =>
    rw [evaluateBitmapLeaf, thresholdCompare_sens, decide_eq_true_eq] at h
    rcases hsecret with hs | hs <;> rw [hs] at h <;> cases s with
    | normal => exact absurd h (by decide)
    | elevated => exact absurd h (by decide)
    | restricted => cases ha
    | secret => cases ha
  | _ => cases ha

theorem BoundsSensitivity.not_restrictedOrSecret {f : Filter} (hf : BoundsSensitivity f)
    {fields : BitmapFields} (h : evaluateOne f fields = true) : ¬RestrictedOrSecret fields := by
  rw [evaluateOne] at h
  induction hf with
  | leaf ha =>
    rw [Formula.holds_leaf] at h
    exact not_restrictedOrSecret_of_leaf ha h
  | all hf _ ih =>
    rw [Formula.holds_all, List.all_eq_true] at h
    exact ih (h _ hf)
  | any _ ih =>
    rw [Formula.holds_any, List.any_eq_true] at h
    obtain ⟨g, hg, hholds⟩ := h
    exact ih g hg hholds

/-- The default ceiling is itself such a bound. -/
theorem exists_bound_insertDefaults {chain : List Filter}
    (hchain : (∃ f ∈ chain, isBitmapSensitivityFilter f = true) →
      ∃ f ∈ chain, BoundsSensitivity f) :
    ∃ f ∈ insertDefaults chain, BoundsSensitivity f := by
  cases h : chain.any isBitmapSensitivityFilter with
  | false => exact ⟨_, mem_insertDefault_of_not_covered h, .leaf rfl⟩
  | true =>
    obtain ⟨f, hf, hbound⟩ := hchain (List.any_eq_true.mp h)
    exact ⟨f, subset_insertDefaults chain hf, hbound⟩

def secretDrawer : Drawer where
  id := "d1"
  lineageId := 1
  content := "content"
  parentNodeId := "test-parent"
  addedBy := "alice"
  filedAt := 0
  eventTime := 0
  embeddingModelId := "test-v1"
  tombstonedAt := none
  bitmaps := ⟨48 <<< 6, 0, 0⟩
  udcCode := ""
  udcFacets := none
  wikidataQid := none
  wikidataQidsSecondary := none

/-- Where the chain names sensitivity at all, one of its filters bounds it: then no restricted or
secret drawer is recalled. -/
theorem evaluate_not_restrictedOrSecret {substrate : Substrate} {frame : RecallFrame}
    (hframe : frame.asOf = none)
    (hchain : (∃ f ∈ frame.filterChain, isBitmapSensitivityFilter f = true) →
      ∃ f ∈ frame.filterChain, BoundsSensitivity f)
    {drawers result : List Drawer} {auditLog : List AuditEvent} {nodeNames : NodeNames}
    (h : evaluate substrate frame drawers auditLog nodeNames = .ok result) :
    ∀ d ∈ result, ¬RestrictedOrSecret d.bitmaps := by
  intro d hd
  obtain ⟨f, hf, hbound⟩ := exists_bound_insertDefaults hchain
  have hpass := (passesTiers_iff.mp ((mem_evaluate_none hframe h).mp hd).2).2 f hf
  exact hbound.not_restrictedOrSecret hpass.1

def normalDrawer : Drawer := { secretDrawer with id := "d2", bitmaps := ⟨0, 0, 0⟩ }

theorem evaluate_not_restrictedOrSecret_normalDrawer :
    ¬RestrictedOrSecret normalDrawer.bitmaps := by
  have hbound : BoundsSensitivity (.any [.leaf (.sensitivityAtMost .elevated)]) :=
    .any fun f hf => (List.mem_singleton.mp hf).symm ▸ .leaf rfl
  have hrows : [secretDrawer, normalDrawer].filter (passesTiers referenceSubstrate.toLowercase
      (insertDefaults [.any [.leaf (.sensitivityAtMost .elevated)]]) fun _ => none) =
      [normalDrawer] := by decide
  refine @evaluate_not_restrictedOrSecret referenceSubstrate
    ⟨[.any [.leaf (.sensitivityAtMost .elevated)]], .structured, none, .byCaptureTimeDesc, none⟩
    rfl (fun _ => ⟨_, List.mem_singleton_self _, hbound⟩) [secretDrawer, normalDrawer]
    [normalDrawer] [] (fun _ => none) ?_ normalDrawer (List.mem_singleton_self _)
  rw [evaluate_none rfl, hrows, sortDrawers, List.mergeSort_singleton]

/-- Every sensitivity leaf names a tier up to elevated and stands under no negation. -/
inductive NamesLowTiersOnly : Filter → Prop
  | leaf {a} (h : isSensitivityLeaf a = true → boundsSensitivityLeaf a = true) :
      NamesLowTiersOnly (.leaf a)
  | all {fs} (h : ∀ f ∈ fs, NamesLowTiersOnly f) : NamesLowTiersOnly (.all fs)
  | any {fs} (h : ∀ f ∈ fs, NamesLowTiersOnly f) : NamesLowTiersOnly (.any fs)
  | not {f} (h : isBitmapSensitivityFilter f = false) : NamesLowTiersOnly (.not f)

/-- The other part of a disjunction lets secret rows through. -/
def disjunctiveChain : List Filter :=
  [.any [.leaf (.sensitivityAtMost .elevated), .leaf .trustworthy]]

theorem not_evaluate_not_restrictedOrSecret :
    ¬∀ (substrate : Substrate) (frame : RecallFrame) (drawers result : List Drawer)
      (auditLog : List AuditEvent) (nodeNames : NodeNames), frame.asOf = none →
      (∀ f ∈ frame.filterChain, NamesLowTiersOnly f) →
      evaluate substrate frame drawers auditLog nodeNames = .ok result →
      ∀ d ∈ result, ¬RestrictedOrSecret d.bitmaps := by
  intro h
  have hchain : ∀ f ∈ disjunctiveChain, NamesLowTiersOnly f := by
    intro f hf
    rw [List.mem_singleton.mp hf]
    refine .any fun g hg => ?_
    rcases List.mem_pair.mp hg with rfl | rfl
    · exact .leaf fun _ => rfl
    · exact .leaf fun hleaf => nomatch hleaf
  have hrow : [secretDrawer].filter (passesTiers referenceSubstrate.toLowercase
      (insertDefaults disjunctiveChain) fun _ => none) = [secretDrawer] := by decide
  refine h referenceSubstrate ⟨disjunctiveChain, .structured, none, .byCaptureTimeDesc, none⟩
    [secretDrawer] [secretDrawer] [] (fun _ => none) rfl hchain ?_ secretDrawer
    (List.mem_singleton_self _) (by decide)
  rw [evaluate_none rfl, hrow, sortDrawers, List.mergeSort_singleton]

end MootMemory
