import MootMemory.TieredNecessity

namespace MootMemory

namespace Formula

section Separability

variable {α T : Type} [DecidableEq T] {tier : α → T} {base t : T} {others : List T}
  {fs : List (Formula α)} {f : Formula α} {v : α → Bool}

theorem exists_eq_singleton (hp : ∀ f ∈ fs, Proper f) (hn : (fs.flatMap leaves).Nodup)
    (hne : fs ≠ []) (heq : ∀ f ∈ fs, ∀ g ∈ fs, f = g) : ∃ f, fs = [f] := by
  cases fs with
  | nil => exact absurd rfl hne
  | cons f rest =>
    cases rest with
    | nil => exact ⟨f, rfl⟩
    | cons g rest =>
      obtain ⟨a, ha⟩ := List.exists_mem_of_ne_nil _ (hp f List.mem_cons_self).leaves_ne_nil
      have hfg : f = g := heq f List.mem_cons_self g (by simp)
      rw [List.flatMap_cons, List.flatMap_cons, List.nodup_append] at hn
      exact absurd rfl (hn.2.2 a ha a (List.mem_append_left _ (hfg ▸ ha)))

variable (hbase : base ∉ others) (htiers : ∀ a, tier a = base ∨ tier a ∈ others)

include hbase in
theorem separable_of_uniform {pol : Bool} (hp : Proper f) (hn : (leaves f).Nodup)
    (ht : t ∈ others) (hu : ∀ a ∈ leaves f, tier a = t)
    (h : ∀ v, (if pol then passesAll tier base others v f else passesSome tier base others v f) =
      holds v f) : Separable tier base pol f := by
  have hu := hp.uniform hu
  have htb : t ≠ base := fun he => hbase (he ▸ ht)
  refine .uniform hu ?_
  obtain ⟨v, hv⟩ := hp.exists_holds hn pol
  have hv' := h v
  rw [hv] at hv'
  cases pol
  · rw [if_neg Bool.false_ne_true, passesSome_of_uniform hu ht htb, hv, Bool.or_false] at hv'
    exact hv'
  · rw [if_pos rfl, passesAll_of_uniform hu ht htb, hv, Bool.and_true] at hv'
    exact hv'

omit [DecidableEq T] in
theorem leaves_of_parts (hlf : leaves f = fs.flatMap leaves)
    (h : ∀ g ∈ fs, ∀ a ∈ leaves g, tier a = t) : ∀ a ∈ leaves f, tier a = t := by
  intro a ha
  rw [hlf] at ha
  obtain ⟨g, hg, ha⟩ := List.mem_flatMap.mp ha
  exact h g hg a ha

theorem separable_of_base {pol : Bool} (h : ∀ a ∈ leaves f, tier a = base) :
    Separable tier base pol f :=
  .base (mentions_eq_false_iff.mpr fun a ha => by simp [h a ha])

theorem passesAll_any_map_not : passesAll tier base others v (any (fs.map not)) =
    passesAll tier base others v (not (all fs)) := by
  rw [Bool.eq_iff_iff, passesAll_iff, passesAll_iff, holdsInBase_any, holdsInBase_not,
    holdsInBase_all, List.any_map]
  refine and_congr ?_ (forall₂_congr fun t _ => ?_)
  · simp [holdsInBase_not]
  · rw [holdsOf_any, holdsOf_not, mentions_all, holdsOf_all, List.any_map, List.filter_map,
      List.any_map]
    have hcomp : mentions (tier · == t) ∘ not = mentions (tier · == t) :=
      funext fun g => mentions_not
    rw [hcomp, Bool.or_eq_true, Bool.or_eq_true]
    refine or_congr_right ?_
    rw [Bool.not_eq_true', List.any_eq_true, ← Bool.not_eq_true, List.all_eq_true]
    push Not
    refine exists_congr fun g => and_congr_right fun hg => ?_
    rw [Function.comp_apply, holdsOf_not, (List.mem_filter.mp hg).2]
    simp

/-- What the parts of a passed conjunction need not be asked about one of them. -/
theorem passesAll_part (hp : ∀ f ∈ fs, Proper f) (hn : (fs.flatMap leaves).Nodup)
    (h : ∀ v, passesAll tier base others v (all fs) = holds v (all fs)) (hf : f ∈ fs)
    (v : α → Bool) : passesAll tier base others v f = holds v f := by
  classical
  choose! r hr using fun g hg => (hp g hg).exists_holds (nodup_of_mem hn hg) true
  obtain ⟨x, hx, -⟩ := exists_glue hn r v
  obtain ⟨y, hy, -⟩ := exists_glue hn (Function.update r f v) v
  have hxall : holds x (all fs) = true := by
    rw [holds_all, List.all_eq_true]
    exact fun g hg => by rw [holds_congr_leaves (hx g hg), hr g hg]
  have hxpass := h x
  rw [hxall, passesAll_all, List.all_eq_true] at hxpass
  have hother : ∀ g ∈ fs, g ≠ f → holds y g = true ∧ passesAll tier base others y g = true := by
    intro g hg hne
    have hyg : ∀ a ∈ leaves g, y a = x a := fun a ha => by
      rw [hy g hg a ha, hx g hg a ha, Function.update_of_ne hne]
    rw [holds_congr_leaves hyg, passesAll_congr_leaves hyg, hxpass g hg,
      holds_congr_leaves (hx g hg), hr g hg]
    exact ⟨rfl, rfl⟩
  have hyf : ∀ a ∈ leaves f, y a = v a := fun a ha => by
    rw [hy f hf a ha, Function.update_self]
  have hall := h y
  rw [passesAll_all, holds_all, Bool.eq_iff_iff, List.all_eq_true, List.all_eq_true] at hall
  rw [← holds_congr_leaves hyf, ← passesAll_congr_leaves hyf, Bool.eq_iff_iff]
  constructor
  · intro hpass
    refine hall.mp (fun g hg => ?_) f hf
    rcases eq_or_ne g f with rfl | hne
    · exact hpass
    · exact (hother g hg hne).2
  · intro hhold
    refine hall.mpr (fun g hg => ?_) f hf
    rcases eq_or_ne g f with rfl | hne
    · exact hhold
    · exact (hother g hg hne).1

theorem passesAll_all_map_not : passesAll tier base others v (all (fs.map not)) =
    passesAll tier base others v (not (any fs)) := by
  rw [passesAll_all, passesAll_not, passesSome_any, List.all_map, List.not_any_eq_all_not]
  congr 1
  exact funext fun g => passesAll_not

theorem flatMap_leaves_map_not : (fs.map not).flatMap leaves = fs.flatMap leaves := by
  rw [List.flatMap_map]
  congr 1

theorem proper_of_mem_map_not (hp : ∀ f ∈ fs, Proper f) : ∀ f ∈ fs.map not, Proper f := by
  intro f hf
  obtain ⟨g, hg, rfl⟩ := List.mem_map.mp hf
  exact .not (hp g hg)

theorem passesSome_part (hp : ∀ f ∈ fs, Proper f) (hn : (fs.flatMap leaves).Nodup)
    (h : ∀ v, passesSome tier base others v (any fs) = holds v (any fs)) (hf : f ∈ fs)
    (v : α → Bool) : passesSome tier base others v f = holds v f := by
  have hnot : ∀ v, passesAll tier base others v (all (fs.map not)) =
      holds v (all (fs.map not)) := by
    intro v
    rw [passesAll_all_map_not, passesAll_not, h v, holds_any, holds_all, List.all_map,
      List.not_any_eq_all_not]
    congr 1
  have hpart := passesAll_part (proper_of_mem_map_not hp) (by rwa [flatMap_leaves_map_not]) hnot
    (List.mem_map_of_mem hf) v
  rw [passesAll_not, holds_not] at hpart
  exact Bool.not_inj hpart

include hbase htiers in
/-- A disjunction asked for by all the passes. -/
theorem separable_any (hp : ∀ f ∈ fs, Proper f) (hne : fs ≠ [])
    (hn : (fs.flatMap leaves).Nodup)
    (h : ∀ v, passesAll tier base others v (any fs) = holds v (any fs))
    (ih : ∀ f ∈ fs, (∀ v, passesAll tier base others v f = holds v f) →
      Separable tier base true f) : Separable tier base true (any fs) := by
  have hdec : Decided tier base others fs := ⟨hp, hn, h⟩
  rcases hdec.alternatives hbase htiers with heq | hb | ⟨t, ht, hu⟩
  · obtain ⟨f, rfl⟩ := exists_eq_singleton hp hn hne heq
    refine .singleAny (ih f List.mem_cons_self fun v => ?_)
    rw [← passesAll_single, h v, holds_any, List.any_cons, List.any_nil, Bool.or_false]
  · exact separable_of_base (leaves_of_parts leaves_any hb)
  · exact separable_of_uniform hbase (.any hne hp) (by rwa [leaves_any]) ht
      (leaves_of_parts leaves_any hu) h

include hbase htiers in
/-- A conjunction asked for under a negation. -/
theorem separable_all (hp : ∀ f ∈ fs, Proper f) (hne : fs ≠ [])
    (hn : (fs.flatMap leaves).Nodup)
    (h : ∀ v, passesSome tier base others v (all fs) = holds v (all fs))
    (ih : ∀ f ∈ fs, (∀ v, passesSome tier base others v f = holds v f) →
      Separable tier base false f) : Separable tier base false (all fs) := by
  have hdec : Decided tier base others (fs.map not) := by
    refine ⟨proper_of_mem_map_not hp, by rwa [flatMap_leaves_map_not], fun v => ?_⟩
    rw [passesAll_any_map_not, passesAll_not, h v, holds_all, holds_any, List.any_map,
      List.not_all_eq_any_not]
    congr 1
  have hparts : ∀ {t}, (∀ f ∈ fs.map not, ∀ a ∈ leaves f, tier a = t) →
      ∀ f ∈ fs, ∀ a ∈ leaves f, tier a = t := by
    intro t ht f hf a ha
    exact ht (not f) (List.mem_map_of_mem hf) a (by rwa [leaves_not])
  rcases hdec.alternatives hbase htiers with heq | hb | ⟨t, ht, hu⟩
  · have heq : ∀ f ∈ fs, ∀ g ∈ fs, f = g := fun f hf g hg =>
      Formula.not.inj (heq _ (List.mem_map_of_mem hf) _ (List.mem_map_of_mem hg))
    obtain ⟨f, rfl⟩ := exists_eq_singleton hp hn hne heq
    refine .singleAll (ih f List.mem_cons_self fun v => ?_)
    rw [← passesSome_single, h v, holds_all, List.all_cons, List.all_nil, Bool.and_true]
  · exact separable_of_base (leaves_of_parts leaves_all (hparts hb))
  · exact separable_of_uniform hbase (.all hne hp) (by rwa [leaves_all]) ht
      (leaves_of_parts leaves_all (hparts hu)) h

include hbase htiers in
/-- With every leaf written once, only separable formulas are decided by the passes. -/
theorem Proper.separable (hp : Proper f) (hn : (leaves f).Nodup) {pol : Bool}
    (h : ∀ v, (if pol then passesAll tier base others v f else passesSome tier base others v f) =
      holds v f) : Separable tier base pol f := by
  induction hp generalizing pol with
  | leaf a =>
    rcases htiers a with ha | ha
    · exact separable_of_base fun b hb => by
        rw [leaves_leaf, List.mem_singleton] at hb
        rw [hb, ha]
    · refine separable_of_uniform hbase (.leaf a) hn ha (fun b hb => ?_) h
      rw [leaves_leaf, List.mem_singleton] at hb
      rw [hb]
  | @all fs hne hfs ih =>
    rw [leaves_all] at hn
    cases pol
    · exact separable_all hbase htiers hfs hne hn h fun f hf hv =>
        ih f hf (nodup_of_mem hn hf) hv
    · exact .all fun f hf => ih f hf (nodup_of_mem hn hf) fun v => passesAll_part hfs hn h hf v
  | @any fs hne hfs ih =>
    rw [leaves_any] at hn
    cases pol
    · exact .any fun f hf => ih f hf (nodup_of_mem hn hf) fun v => passesSome_part hfs hn h hf v
    · exact separable_any hbase htiers hfs hne hn h fun f hf hv =>
        ih f hf (nodup_of_mem hn hf) hv
  | @not f _ ih =>
    rw [leaves_not] at hn
    refine .not (ih hn fun v => ?_)
    have hv := h v
    cases pol
    · rw [if_neg Bool.false_ne_true, passesSome_not, holds_not] at hv
      exact Bool.not_inj hv
    · rw [if_pos rfl, passesAll_not, holds_not] at hv
      exact Bool.not_inj hv

end Separability

end Formula

end MootMemory
