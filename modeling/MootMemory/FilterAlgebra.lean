import MootMemory.PlainEvaluation
import MootMemory.SensitivityCeiling
import MootMemory.TieredSeparable

namespace MootMemory

/-- Evaluation of the chain gives the live rows that satisfy it and its defaults, in the asked
order. -/
def EvaluatesPlainly (substrate : Substrate) (chain : List Filter) : Prop :=
  ∀ (frame : RecallFrame) (drawers : List Drawer) (auditLog : List AuditEvent)
    (nodeNames : NodeNames), frame.filterChain = chain → frame.asOf = none →
    (drawers.map (·.id)).Nodup → ∃ result,
      evaluate substrate frame drawers auditLog nodeNames = .ok result ∧
      result.Perm
        (drawers.filter (satisfies substrate.toLowercase (insertDefaults chain) nodeNames)) ∧
      result.Pairwise fun a b => frame.ordering.precedes nodeNames a b = true

/-- A filter of which the three passes together say what its boolean reading says. -/
abbrev DecidedByTiers (f : Filter) : Prop := f.Separable FilterLeaf.tier .bitmap true

theorem DecidedByTiers.passesAll {f : Filter} (h : DecidedByTiers f) (v : FilterLeaf → Bool) :
    f.passesAll FilterLeaf.tier .bitmap laterTiers v = f.holds v :=
  h.passes bitmap_notMem_laterTiers fun a => tier_bitmap_or_later a.tier

theorem decidedByTiers_leaf (a : FilterLeaf) : DecidedByTiers (.leaf a) :=
  .uniform (.leaf rfl) Formula.holds_leaf

theorem evaluatesPlainly_of_passesAll {substrate : Substrate} {chain : List Filter}
    (h : ∀ f ∈ chain, ∀ v, f.passesAll FilterLeaf.tier .bitmap laterTiers v = f.holds v) :
    EvaluatesPlainly substrate chain := by
  intro frame drawers auditLog nodeNames hchain hframe _
  have hall : ∀ f ∈ insertDefaults chain, ∀ v,
      f.passesAll FilterLeaf.tier .bitmap laterTiers v = f.holds v := by
    intro f hf
    rcases mem_insertDefaults hf with rfl | rfl | rfl | hf
    · exact (decidedByTiers_leaf _).passesAll
    · exact (decidedByTiers_leaf _).passesAll
    · exact (decidedByTiers_leaf _).passesAll
    · exact h f hf
  have hrows : passesTiers substrate.toLowercase (insertDefaults chain) nodeNames =
      satisfies substrate.toLowercase (insertDefaults chain) nodeNames := by
    funext drawer
    rw [passesTiers_eq, satisfies]
    congr 1
    rw [Bool.eq_iff_iff, List.all_eq_true, List.all_eq_true]
    exact forall₂_congr fun f hf => by rw [hall f hf]
  refine ⟨_, evaluate_none hframe drawers auditLog nodeNames, ?_, sortDrawers_pairwise _ _ _⟩
  rw [hchain, hrows]
  exact List.mergeSort_perm _ _

theorem all_insertDefault {p : Filter → Bool} {covers : Filter → Bool} {default : FilterLeaf}
    {chain result : List Filter} (h : p (.leaf default) = true) :
    (insertDefault covers default chain result).all p = result.all p := by
  rw [insertDefault]
  split
  next => rfl
  next => rw [List.all_cons, h, Bool.true_and]

theorem all_insertDefaults {p : Filter → Bool} {chain : List Filter}
    (hs : p (.leaf (.sensitivityAtMost .elevated)) = true) (ht : p (.leaf .trustworthy) = true)
    (hc : p (.leaf .currentlyBelieve) = true) : (insertDefaults chain).all p = chain.all p := by
  rw [insertDefaults, all_insertDefault hs, all_insertDefault ht, all_insertDefault hc]

/-- A row of which every leaf chosen below has the truth value asked for. -/
def blankDrawer : Drawer := { secretDrawer with content := "", bitmaps := ⟨0, 1, 0⟩ }

/-- A leaf of the tier with the truth value on the blank row. -/
def constantLeaf : Tier → Bool → FilterLeaf
  | .bitmap, b => .hasFeatureFlag (if b then 1 else 0)
  | .structured, b => .inRoom (if b then "" else "x")
  | .content, b => .contentMatches (if b then "" else "x")

theorem tier_constantLeaf (tier : Tier) (b : Bool) : (constantLeaf tier b).tier = tier := by
  cases tier <;> rfl

theorem leafHolds_constantLeaf {toLowercase : String → String} (hempty : toLowercase "" = "")
    (hx : toLowercase "x" = "x") (tier : Tier) (b : Bool) :
    leafHolds toLowercase (fun _ => none) blankDrawer (constantLeaf tier b) = b := by
  cases tier with
  | bitmap => cases b <;> rfl
  | structured => cases b <;> rfl
  | content =>
    change containsText (toLowercase "") (toLowercase (if b then "" else "x")) = b
    cases b with
    | true => rw [if_pos rfl, hempty]; decide
    | false => rw [if_neg Bool.false_ne_true, hempty, hx]; decide

/-- The filters of a shape with a leaf put in each of its places. -/
def fillPlaces (fill : Tier × Nat → FilterLeaf) (shape : List (Formula (Tier × Nat))) :
    List Filter := shape.map (Formula.map fill)

theorem passesAll_fill {fill : Tier × Nat → FilterLeaf} (htier : ∀ p, (fill p).tier = p.1)
    {f : Formula (Tier × Nat)} {v : FilterLeaf → Bool} :
    (f.map fill).passesAll FilterLeaf.tier .bitmap laterTiers v =
      f.passesAll Prod.fst .bitmap laterTiers (v ∘ fill) := by
  rw [Formula.passesAll_map]
  congr 1
  exact funext htier

/-- What plain evaluation of all fillings says about the passes over the whole chain. -/
theorem passesAll_shape {substrate : Substrate} (hempty : substrate.toLowercase "" = "")
    (hx : substrate.toLowercase "x" = "x") {shape : List (Formula (Tier × Nat))}
    (h : ∀ fill : Tier × Nat → FilterLeaf, (∀ p, (fill p).tier = p.1) →
      EvaluatesPlainly substrate (fillPlaces fill shape)) (v : Tier × Nat → Bool) :
    (Formula.all shape).passesAll Prod.fst .bitmap laterTiers v = (Formula.all shape).holds v := by
  let fill : Tier × Nat → FilterLeaf := fun p => constantLeaf p.1 (v p)
  have htier : ∀ p, (fill p).tier = p.1 := fun p => tier_constantLeaf _ _
  have hleaf : leafHolds substrate.toLowercase (fun _ => none) blankDrawer ∘ fill = v :=
    funext fun p => leafHolds_constantLeaf hempty hx _ _
  obtain ⟨result, heval, hperm, -⟩ := h fill htier
    ⟨fillPlaces fill shape, .full, none, .byCaptureTimeAsc, none⟩ [blankDrawer] []
    (fun _ => none) rfl rfl (List.nodup_singleton _)
  have hsame := (mem_evaluate_none rfl heval).symm.trans (hperm.mem_iff (a := blankDrawer))
  rw [List.mem_filter] at hsame
  have hmem : blankDrawer ∈ [blankDrawer] := List.mem_singleton_self _
  have hrow : passesTiers substrate.toLowercase (insertDefaults (fillPlaces fill shape))
      (fun _ => none) blankDrawer = satisfies substrate.toLowercase
        (insertDefaults (fillPlaces fill shape)) (fun _ => none) blankDrawer := by
    rw [Bool.eq_iff_iff]
    exact ⟨fun hp => (hsame.mp ⟨hmem, hp⟩).2, fun hs => (hsame.mpr ⟨hmem, hs⟩).2⟩
  have hpass : ∀ a : FilterLeaf,
      leafHolds substrate.toLowercase (fun _ => none) blankDrawer a = true →
      (Formula.leaf a).passesAll FilterLeaf.tier .bitmap laterTiers
        (leafHolds substrate.toLowercase (fun _ => none) blankDrawer) = true := by
    intro a ha
    rw [(decidedByTiers_leaf a).passesAll, Formula.holds_leaf, ha]
  rw [passesTiers_eq, satisfies, show (blankDrawer.state != .tombstoned) = true from rfl,
    Bool.true_and, Bool.true_and,
    all_insertDefaults (hpass _ rfl) (hpass _ rfl) (hpass _ rfl),
    all_insertDefaults (by rw [Formula.holds_leaf]; rfl) (by rw [Formula.holds_leaf]; rfl)
      (by rw [Formula.holds_leaf]; rfl), fillPlaces, List.all_map, List.all_map] at hrow
  rw [Formula.passesAll_all, Formula.holds_all]
  rw [← hleaf]
  convert hrow using 2
  · exact funext fun f => (passesAll_fill htier).symm
  · exact funext fun f => Formula.holds_map.symm

/-- A chain of separable filters is evaluated plainly, and a chain shape with distinct places is
evaluated plainly under every filling only when its filters are separable. -/
theorem evaluatesPlainly_iff {substrate : Substrate} (hempty : substrate.toLowercase "" = "")
    (hx : substrate.toLowercase "x" = "x") :
    (∀ chain, (∀ f ∈ chain, DecidedByTiers f) → EvaluatesPlainly substrate chain) ∧
      ∀ shape : List (Formula (Tier × Nat)), (∀ f ∈ shape, f.Proper) →
        (shape.flatMap Formula.leaves).Nodup →
        ((∀ fill : Tier × Nat → FilterLeaf, (∀ p, (fill p).tier = p.1) →
            EvaluatesPlainly substrate (fillPlaces fill shape)) ↔
          ∀ f ∈ shape, f.Separable Prod.fst .bitmap true) := by
  refine ⟨fun chain h => evaluatesPlainly_of_passesAll fun f hf => (h f hf).passesAll,
    fun shape hproper hnodup => ⟨fun h f hf => ?_, fun h fill htier => ?_⟩⟩
  · have hpasses := passesAll_shape hempty hx h
    exact (hproper f hf).separable bitmap_notMem_laterTiers (fun p => tier_bitmap_or_later p.1)
      (Formula.nodup_of_mem hnodup hf) fun v =>
        Formula.passesAll_part hproper hnodup hpasses hf v
  · refine evaluatesPlainly_of_passesAll fun f hf v => ?_
    obtain ⟨g, hg, rfl⟩ := List.mem_map.mp hf
    rw [passesAll_fill htier, Formula.holds_map]
    exact (h g hg).passes bitmap_notMem_laterTiers fun p => tier_bitmap_or_later p.1

/-- One conjunction of a bitmap and a structured leaf. -/
theorem evaluatesPlainly_iff_all : EvaluatesPlainly referenceSubstrate
    [.all [.leaf .trustworthy, .leaf (.inRoom "kitchen")]] := by
  refine (@evaluatesPlainly_iff referenceSubstrate rfl rfl).1 _ fun f hf => ?_
  rw [List.mem_singleton.mp hf]
  refine .all fun g hg => ?_
  rcases List.mem_pair.mp hg with rfl | rfl
  · exact decidedByTiers_leaf _
  · exact decidedByTiers_leaf _

/-- A negated room filter lets nothing through, also rows of other rooms. -/
theorem not_evaluatesPlainly :
    ¬EvaluatesPlainly referenceSubstrate [.not (.leaf (.inRoom "kitchen"))] := by
  intro h
  obtain ⟨result, heval, hperm, -⟩ := h
    ⟨[.not (.leaf (.inRoom "kitchen"))], .full, none, .byCaptureTimeAsc, none⟩ [blankDrawer] []
    (fun _ => none) rfl rfl (List.nodup_singleton _)
  have hin : blankDrawer ∈ result := by
    rw [hperm.mem_iff, List.mem_filter]
    exact ⟨List.mem_singleton_self _, by decide⟩
  exact absurd ((mem_evaluate_none rfl heval).mp hin).2 (by decide)

end MootMemory
