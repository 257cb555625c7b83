import MootMemory.TieredFormula
import Mathlib.Data.List.Nodup

namespace MootMemory

namespace Formula

variable {α β T : Type}

mutual

/-- The leaves in the order they are written. -/
def leaves : Formula α → List α
  | leaf a => [a]
  | all fs => leavesList fs
  | any fs => leavesList fs
  | not f => leaves f

def leavesList : List (Formula α) → List α
  | [] => []
  | f :: fs => leaves f ++ leavesList fs

end

mutual

/-- Puts other leaves in place. -/
def map (h : α → β) : Formula α → Formula β
  | leaf a => leaf (h a)
  | all fs => all (mapList h fs)
  | any fs => any (mapList h fs)
  | not f => not (map h f)

def mapList (h : α → β) : List (Formula α) → List (Formula β)
  | [] => []
  | f :: fs => map h f :: mapList h fs

end

/-- No conjunction or disjunction is empty. -/
inductive Proper : Formula α → Prop
  | leaf (a) : Proper (leaf a)
  | all {fs} (hne : fs ≠ []) (h : ∀ f ∈ fs, Proper f) : Proper (all fs)
  | any {fs} (hne : fs ≠ []) (h : ∀ f ∈ fs, Proper f) : Proper (any fs)
  | not {f} (h : Proper f) : Proper (not f)

variable {fs : List (Formula α)} {f : Formula α} {v w kind : α → Bool} {a : α}

theorem leavesList_eq : leavesList fs = fs.flatMap leaves := by
  induction fs with
  | nil => rfl
  | cons f fs ih => rw [List.flatMap_cons, ← ih]; rfl

theorem mapList_eq {h : α → β} : mapList h fs = fs.map (map h) := by
  induction fs with
  | nil => rfl
  | cons f fs ih => rw [List.map_cons, ← ih]; rfl

theorem leaves_leaf : leaves (leaf a) = [a] := rfl

theorem leaves_all : leaves (all fs) = fs.flatMap leaves := leavesList_eq

theorem leaves_any : leaves (any fs) = fs.flatMap leaves := leavesList_eq

theorem leaves_not : leaves (not f) = leaves f := rfl

theorem map_leaf {h : α → β} : map h (leaf a) = leaf (h a) := rfl

theorem map_all {h : α → β} : map h (all fs) = all (fs.map (map h)) :=
  congrArg all mapList_eq

theorem map_any {h : α → β} : map h (any fs) = any (fs.map (map h)) :=
  congrArg any mapList_eq

theorem map_not {h : α → β} : map h (not f) = not (map h f) := rfl

theorem holds_map {h : α → β} {v : β → Bool} : holds v (map h f) = holds (v ∘ h) f := by
  induction f with
  | leaf a => rw [map_leaf, holds_leaf, holds_leaf, Function.comp_apply]
  | all fs ih =>
    rw [map_all, holds_all, holds_all, List.all_map, Bool.eq_iff_iff, List.all_eq_true,
      List.all_eq_true]
    exact forall₂_congr fun g hg => by rw [Function.comp_apply, ih g hg]
  | any fs ih =>
    rw [map_any, holds_any, holds_any, List.any_map, Bool.eq_iff_iff, List.any_eq_true,
      List.any_eq_true]
    exact exists_congr fun g => and_congr_right fun hg => by rw [Function.comp_apply, ih g hg]
  | not f ih => rw [map_not, holds_not, holds_not, ih]

theorem mentions_iff : mentions kind f = true ↔ ∃ a ∈ leaves f, kind a = true := by
  induction f with
  | leaf a => simp [leaves_leaf]
  | all fs ih =>
    rw [mentions_all, List.any_eq_true, leaves_all]
    constructor
    · rintro ⟨g, hg, hm⟩
      obtain ⟨a, ha, hk⟩ := (ih g hg).mp hm
      exact ⟨a, List.mem_flatMap.mpr ⟨g, hg, ha⟩, hk⟩
    · rintro ⟨a, ha, hk⟩
      obtain ⟨g, hg, ha⟩ := List.mem_flatMap.mp ha
      exact ⟨g, hg, (ih g hg).mpr ⟨a, ha, hk⟩⟩
  | any fs ih =>
    rw [mentions_any, List.any_eq_true, leaves_any]
    constructor
    · rintro ⟨g, hg, hm⟩
      obtain ⟨a, ha, hk⟩ := (ih g hg).mp hm
      exact ⟨a, List.mem_flatMap.mpr ⟨g, hg, ha⟩, hk⟩
    · rintro ⟨a, ha, hk⟩
      obtain ⟨g, hg, ha⟩ := List.mem_flatMap.mp ha
      exact ⟨g, hg, (ih g hg).mpr ⟨a, ha, hk⟩⟩
  | not f ih => rw [mentions_not, leaves_not]; exact ih

theorem mentions_eq_false_iff : mentions kind f = false ↔ ∀ a ∈ leaves f, kind a = false := by
  rw [← Bool.not_eq_true, mentions_iff]
  simp

theorem mentions_map {h : α → β} {kind : β → Bool} :
    mentions kind (map h f) = mentions (kind ∘ h) f := by
  induction f with
  | leaf a => rw [map_leaf, mentions_leaf, mentions_leaf, Function.comp_apply]
  | all fs ih =>
    rw [map_all, mentions_all, mentions_all, List.any_map, Bool.eq_iff_iff, List.any_eq_true,
      List.any_eq_true]
    exact exists_congr fun g => and_congr_right fun hg => by rw [Function.comp_apply, ih g hg]
  | any fs ih =>
    rw [map_any, mentions_any, mentions_any, List.any_map, Bool.eq_iff_iff, List.any_eq_true,
      List.any_eq_true]
    exact exists_congr fun g => and_congr_right fun hg => by rw [Function.comp_apply, ih g hg]
  | not f ih => rw [map_not, mentions_not, mentions_not, ih]

/-- A reading looks at the leaves only. -/
theorem holds_congr_leaves (h : ∀ a ∈ leaves f, v a = w a) : holds v f = holds w f := by
  induction f with
  | leaf a => rw [holds_leaf, holds_leaf]; exact h a (by simp [leaves_leaf])
  | all fs ih =>
    rw [holds_all, holds_all, Bool.eq_iff_iff, List.all_eq_true, List.all_eq_true]
    refine forall₂_congr fun g hg => ?_
    rw [ih g hg fun a ha => h a (by rw [leaves_all]; exact List.mem_flatMap.mpr ⟨g, hg, ha⟩)]
  | any fs ih =>
    rw [holds_any, holds_any, Bool.eq_iff_iff, List.any_eq_true, List.any_eq_true]
    refine exists_congr fun g => and_congr_right fun hg => ?_
    rw [ih g hg fun a ha => h a (by rw [leaves_any]; exact List.mem_flatMap.mpr ⟨g, hg, ha⟩)]
  | not f ih =>
    rw [holds_not, holds_not, ih fun a ha => h a (by rwa [leaves_not])]

theorem holdsOf_congr_leaves (h : ∀ a ∈ leaves f, kind a = true → v a = w a) :
    holdsOf kind v f = holdsOf kind w f := by
  induction f with
  | leaf a =>
    rw [holdsOf_leaf, holdsOf_leaf]
    cases hk : kind a with
    | false => rfl
    | true => rw [h a (by simp [leaves_leaf]) hk]
  | all fs ih =>
    rw [holdsOf_all_eq_all, holdsOf_all_eq_all, Bool.eq_iff_iff, List.all_eq_true,
      List.all_eq_true]
    refine forall₂_congr fun g hg => ?_
    rw [ih g hg fun a ha => h a (by rw [leaves_all]; exact List.mem_flatMap.mpr ⟨g, hg, ha⟩)]
  | any fs ih =>
    rw [holdsOf_any, holdsOf_any]
    congr 1
    rw [Bool.eq_iff_iff, List.any_eq_true, List.any_eq_true]
    refine exists_congr fun g => and_congr_right fun hg => ?_
    have hg := List.mem_of_mem_filter hg
    rw [ih g hg fun a ha => h a (by rw [leaves_any]; exact List.mem_flatMap.mpr ⟨g, hg, ha⟩)]
  | not f ih =>
    rw [holdsOf_not, holdsOf_not, ih fun a ha => h a (by rwa [leaves_not])]

theorem holdsOf_map {h : α → β} {kind v : β → Bool} :
    holdsOf kind v (map h f) = holdsOf (kind ∘ h) (v ∘ h) f := by
  induction f with
  | leaf a =>
    rw [map_leaf, holdsOf_leaf, holdsOf_leaf, Function.comp_apply, Function.comp_apply]
  | all fs ih =>
    rw [map_all, holdsOf_all_eq_all, holdsOf_all_eq_all, List.all_map, Bool.eq_iff_iff,
      List.all_eq_true, List.all_eq_true]
    exact forall₂_congr fun g hg => by rw [Function.comp_apply, ih g hg]
  | any fs ih =>
    have hm := @mentions_map _ _ (any fs) h kind
    rw [map_any, mentions_any, mentions_any] at hm
    rw [map_any, holdsOf_any, holdsOf_any, hm, List.filter_map, List.any_map]
    congr 1
    have hkind : (mentions kind ∘ map h) = mentions (kind ∘ h) := funext fun g => mentions_map
    rw [hkind, Bool.eq_iff_iff, List.any_eq_true, List.any_eq_true]
    refine exists_congr fun g => and_congr_right fun hg => ?_
    rw [Function.comp_apply, ih g (List.mem_of_mem_filter hg)]
  | not f ih => rw [map_not, holdsOf_not, holdsOf_not, mentions_map, ih]

theorem passesAll_map [DecidableEq T] {h : α → β} {tier : β → T} {base : T} {others : List T}
    {v : β → Bool} :
    passesAll tier base others v (map h f) = passesAll (tier ∘ h) base others (v ∘ h) f := by
  rw [passesAll, passesAll, holdsInBase, holdsInBase, holds_map]
  congr 2
  funext t
  exact holdsOf_map

end Formula

end MootMemory
