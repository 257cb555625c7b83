import MootMemory.BitmapEvaluator
import MootMemory.EffectRun
import MootMemory.FormulaLeaves
import Mathlib.Data.List.Sort

namespace MootMemory

/-- A row passes the three tiers of the chain, with its bitmaps as they are now. -/
def passesTiers (toLowercase : String → String) (chain : List Filter) (nodeNames : NodeNames)
    (drawer : Drawer) : Bool :=
  evaluateBitmapTier chain drawer.bitmaps && evaluateStructuredTier chain drawer nodeNames &&
    evaluateContentTier toLowercase chain drawer

theorem bitmapCandidates_none (substrate : Substrate) (auditLog : List AuditEvent)
    (chain : List Filter) (drawers : List Drawer) :
    bitmapCandidates substrate auditLog none chain drawers =
      .ok (drawers.filter fun d => evaluateBitmapTier chain d.bitmaps) := by
  induction drawers with
  | nil => rfl
  | cons drawer rest ih =>
    rw [bitmapCandidates, ih, List.filter_cons]
    rfl

/-- Without a time to go back to, evaluation filters the rows and sorts what is left. -/
theorem evaluate_none {substrate : Substrate} {frame : RecallFrame} (hframe : frame.asOf = none)
    (drawers : List Drawer) (auditLog : List AuditEvent) (nodeNames : NodeNames) :
    evaluate substrate frame drawers auditLog nodeNames =
      .ok (sortDrawers (drawers.filter (passesTiers substrate.toLowercase
        (insertDefaults frame.filterChain) nodeNames)) frame.ordering nodeNames) := by
  rw [evaluate, hframe, bitmapCandidates_none]
  show Except.ok _ = Except.ok _
  rw [List.filter_filter, List.filter_filter]
  congr 3
  funext d
  rw [passesTiers, Bool.and_comm, Bool.and_assoc]
  cases evaluateBitmapTier (insertDefaults frame.filterChain) d.bitmaps <;> simp [Bool.and_comm]

theorem mem_evaluate_none {substrate : Substrate} {frame : RecallFrame}
    (hframe : frame.asOf = none) {drawers result : List Drawer} {auditLog : List AuditEvent}
    {nodeNames : NodeNames}
    (h : evaluate substrate frame drawers auditLog nodeNames = .ok result) {d : Drawer} :
    d ∈ result ↔ d ∈ drawers ∧ passesTiers substrate.toLowercase
      (insertDefaults frame.filterChain) nodeNames d = true := by
  rw [evaluate_none hframe] at h
  cases h
  rw [sortDrawers, List.mem_mergeSort, List.mem_filter]

theorem evaluateBitmapTier_iff {chain : List Filter} {fields : BitmapFields} :
    evaluateBitmapTier chain fields = true ↔
      isTombstonedField fields = false ∧ ∀ f ∈ chain, evaluateOne f fields = true := by
  rw [evaluateBitmapTier]
  cases isTombstonedField fields <;> simp

theorem passesTiers_iff {toLowercase : String → String} {chain : List Filter}
    {nodeNames : NodeNames} {drawer : Drawer} :
    passesTiers toLowercase chain nodeNames drawer = true ↔
      isTombstonedField drawer.bitmaps = false ∧ ∀ f ∈ chain,
        evaluateOne f drawer.bitmaps = true ∧ evaluateStructured f drawer nodeNames = true ∧
          evaluateContent toLowercase f drawer = true := by
  rw [passesTiers, Bool.and_eq_true, Bool.and_eq_true, evaluateBitmapTier_iff,
    evaluateStructuredTier, evaluateContentTier, List.all_eq_true, List.all_eq_true]
  constructor
  · rintro ⟨⟨⟨ht, hb⟩, hs⟩, hc⟩
    exact ⟨ht, fun f hf => ⟨hb f hf, hs f hf, hc f hf⟩⟩
  · rintro ⟨ht, h⟩
    exact ⟨⟨⟨ht, fun f hf => (h f hf).1⟩, fun f hf => (h f hf).2.1⟩, fun f hf => (h f hf).2.2⟩

theorem mem_insertDefault_of_not_covered {covers : Filter → Bool} {default : FilterLeaf}
    {chain result : List Filter} (h : chain.any covers = false) :
    .leaf default ∈ insertDefault covers default chain result := by
  rw [insertDefault, h]
  exact List.mem_cons_self

theorem subset_insertDefault {covers : Filter → Bool} {default : FilterLeaf}
    {chain result : List Filter} : result ⊆ insertDefault covers default chain result := by
  rw [insertDefault]
  split
  next => exact List.Subset.refl _
  next => exact List.subset_cons_self _ _

theorem subset_insertDefaults (chain : List Filter) : chain ⊆ insertDefaults chain :=
  List.Subset.trans subset_insertDefault (List.Subset.trans subset_insertDefault subset_insertDefault)

/-- A leaf on its own, decided in its own tier. -/
def leafHolds (toLowercase : String → String) (nodeNames : NodeNames) (drawer : Drawer)
    (leaf : FilterLeaf) : Bool :=
  match leaf.tier with
  | .bitmap => evaluateBitmapLeaf drawer.bitmaps leaf
  | .structured => evaluateStructuredLeaf drawer nodeNames leaf
  | .content => evaluateContentLeaf toLowercase drawer leaf

/-- Live, and every filter is true under the ordinary boolean reading. -/
def satisfies (toLowercase : String → String) (chain : List Filter) (nodeNames : NodeNames)
    (drawer : Drawer) : Bool :=
  drawer.state != .tombstoned &&
    chain.all fun f => f.holds (leafHolds toLowercase nodeNames drawer)

/-- The tiers that are asked after the bitmaps. -/
def laterTiers : List Tier := [.structured, .content]

theorem bitmap_notMem_laterTiers : Tier.bitmap ∉ laterTiers := by decide

theorem tier_bitmap_or_later (tier : Tier) : tier = .bitmap ∨ tier ∈ laterTiers := by
  cases tier <;> decide

section Tiers

variable {toLowercase : String → String} {nodeNames : NodeNames} {drawer : Drawer} {f : Filter}

theorem evaluateOne_eq : evaluateOne f drawer.bitmaps =
    f.holdsInBase FilterLeaf.tier .bitmap (leafHolds toLowercase nodeNames drawer) := by
  refine Formula.holds_congr fun a => ?_
  cases a <;> rfl

theorem evaluateStructured_eq : evaluateStructured f drawer nodeNames =
    f.holdsOf (FilterLeaf.tier · == .structured) (leafHolds toLowercase nodeNames drawer) := by
  refine Formula.holdsOf_congr_leaves fun a _ ha => ?_
  have htier : a.tier = .structured := eq_of_beq ha
  rw [leafHolds, htier]

theorem evaluateContent_eq : evaluateContent toLowercase f drawer =
    f.holdsOf (FilterLeaf.tier · == .content) (leafHolds toLowercase nodeNames drawer) := by
  refine Formula.holdsOf_congr_leaves fun a _ ha => ?_
  have htier : a.tier = .content := eq_of_beq ha
  rw [leafHolds, htier]

theorem isTombstonedField_iff : isTombstonedField drawer.bitmaps = true ↔
    drawer.state = .tombstoned := by
  have hmask : adjStateMask ≠ 0 := by decide
  have hwidth : popcount adjStateMask = 6 := by decide
  rw [isTombstonedField, shiftExtract, if_neg hmask, hwidth, Drawer.state, Drawer.stateRaw,
    beq_iff_eq]
  constructor
  · intro h
    rw [h]
    rfl
  · intro h
    rw [State.fromRaw] at h
    split at h <;> try cases h
    next hnat => exact BitVec.eq_of_toNat_eq hnat

/-- A row passes the three tiers when it passes those of every filter. -/
theorem passesTiers_eq {chain : List Filter} : passesTiers toLowercase chain nodeNames drawer =
    (drawer.state != .tombstoned && chain.all fun f => f.passesAll FilterLeaf.tier .bitmap
      laterTiers (leafHolds toLowercase nodeNames drawer)) := by
  rw [Bool.eq_iff_iff, passesTiers_iff, Bool.and_eq_true, bne_iff_ne, ← Bool.not_eq_true,
    isTombstonedField_iff, List.all_eq_true]
  refine and_congr_right fun _ => forall₂_congr fun f _ => ?_
  rw [@evaluateOne_eq toLowercase nodeNames, @evaluateStructured_eq toLowercase nodeNames,
    @evaluateContent_eq toLowercase nodeNames, Formula.passesAll_iff]
  simp [laterTiers]

end Tiers

theorem mem_insertDefault {covers : Filter → Bool} {default : FilterLeaf}
    {chain result : List Filter} {f : Filter} (h : f ∈ insertDefault covers default chain result) :
    f = .leaf default ∨ f ∈ result := by
  rw [insertDefault] at h
  split at h
  next => exact Or.inr h
  next => exact List.mem_cons.mp h

theorem mem_insertDefaults {chain : List Filter} {f : Filter} (h : f ∈ insertDefaults chain) :
    f = .leaf (.sensitivityAtMost .elevated) ∨ f = .leaf .trustworthy ∨
      f = .leaf .currentlyBelieve ∨ f ∈ chain := by
  rcases mem_insertDefault h with h | h
  · exact Or.inl h
  rcases mem_insertDefault h with h | h
  · exact Or.inr (Or.inl h)
  rcases mem_insertDefault h with h | h
  · exact Or.inr (Or.inr (Or.inl h))
  · exact Or.inr (Or.inr (Or.inr h))

section Ordering

variable {α β : Type} [LinearOrder α] [LinearOrder β]

/-- Ordered by the first component, ties by the second. -/
def firstThenSecond (p q : α × β) : Bool := p.1 < q.1 || (p.1 == q.1 && p.2 ≤ q.2)

theorem firstThenSecond_iff {p q : α × β} :
    firstThenSecond p q = true ↔ p.1 < q.1 ∨ p.1 = q.1 ∧ p.2 ≤ q.2 := by
  simp [firstThenSecond]

theorem firstThenSecond_trans (p q r : α × β) (hpq : firstThenSecond p q = true)
    (hqr : firstThenSecond q r = true) : firstThenSecond p r = true := by
  rw [firstThenSecond_iff] at *
  rcases hpq with hpq | ⟨hpq, hpq'⟩
  · rcases hqr with hqr | ⟨hqr, _⟩
    · exact Or.inl (hpq.trans hqr)
    · exact Or.inl (hqr ▸ hpq)
  · rcases hqr with hqr | ⟨hqr, hqr'⟩
    · exact Or.inl (hpq ▸ hqr)
    · exact Or.inr ⟨hpq.trans hqr, hpq'.trans hqr'⟩

theorem firstThenSecond_total (p q : α × β) :
    (firstThenSecond p q || firstThenSecond q p) = true := by
  rw [Bool.or_eq_true, firstThenSecond_iff, firstThenSecond_iff]
  rcases lt_trichotomy p.1 q.1 with h | h | h
  · exact Or.inl (Or.inl h)
  · rcases le_total p.2 q.2 with h' | h'
    · exact Or.inl (Or.inr ⟨h, h'⟩)
    · exact Or.inr (Or.inr ⟨h.symm, h'⟩)
  · exact Or.inr (Or.inl h)

end Ordering

theorem precedes_byCaptureTimeDesc {nodeNames : NodeNames} {a b : Drawer} :
    RecallOrdering.byCaptureTimeDesc.precedes nodeNames a b =
      firstThenSecond (-a.filedAt, a.id) (-b.filedAt, b.id) := by
  rw [Bool.eq_iff_iff, firstThenSecond_iff]
  simp [RecallOrdering.precedes]

theorem RecallOrdering.precedes_trans (ordering : RecallOrdering) (nodeNames : NodeNames)
    (a b c : Drawer) (hab : ordering.precedes nodeNames a b = true)
    (hbc : ordering.precedes nodeNames b c = true) : ordering.precedes nodeNames a c = true := by
  cases ordering with
  | byCaptureTimeDesc =>
    rw [precedes_byCaptureTimeDesc] at *
    exact firstThenSecond_trans _ _ _ hab hbc
  | byCaptureTimeAsc => exact firstThenSecond_trans (_, _) (_, _) (_, _) hab hbc
  | byRoomAsc => exact firstThenSecond_trans (_, _) (_, _) (_, _) hab hbc

theorem RecallOrdering.precedes_total (ordering : RecallOrdering) (nodeNames : NodeNames)
    (a b : Drawer) :
    (ordering.precedes nodeNames a b || ordering.precedes nodeNames b a) = true := by
  cases ordering with
  | byCaptureTimeDesc =>
    rw [precedes_byCaptureTimeDesc, precedes_byCaptureTimeDesc]
    exact firstThenSecond_total _ _
  | byCaptureTimeAsc => exact firstThenSecond_total (_, _) (_, _)
  | byRoomAsc => exact firstThenSecond_total (_, _) (_, _)

theorem sortDrawers_pairwise (drawers : List Drawer) (ordering : RecallOrdering)
    (nodeNames : NodeNames) : (sortDrawers drawers ordering nodeNames).Pairwise
      fun a b => ordering.precedes nodeNames a b = true :=
  List.pairwise_mergeSort (ordering.precedes_trans nodeNames) (ordering.precedes_total nodeNames)
    drawers

end MootMemory
