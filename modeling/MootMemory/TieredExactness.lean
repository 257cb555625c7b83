import MootMemory.FormulaLeaves
import Mathlib.Logic.Function.Basic

namespace MootMemory

namespace Formula

section Exactness

variable {α T : Type} [DecidableEq T] {tier : α → T} {base t u : T} {others : List T}
  {fs : List (Formula α)} {f g : Formula α} {v w : α → Bool}

theorem Proper.leaves_ne_nil (h : Proper f) : leaves f ≠ [] := by
  induction h with
  | leaf a => rw [leaves_leaf]; exact List.cons_ne_nil _ _
  | all hne _ ih =>
    obtain ⟨g, hg⟩ := List.exists_mem_of_ne_nil _ hne
    obtain ⟨a, ha⟩ := List.exists_mem_of_ne_nil _ (ih g hg)
    rw [leaves_all]
    exact List.ne_nil_of_mem (List.mem_flatMap.mpr ⟨g, hg, ha⟩)
  | any hne _ ih =>
    obtain ⟨g, hg⟩ := List.exists_mem_of_ne_nil _ hne
    obtain ⟨a, ha⟩ := List.exists_mem_of_ne_nil _ (ih g hg)
    rw [leaves_any]
    exact List.ne_nil_of_mem (List.mem_flatMap.mpr ⟨g, hg, ha⟩)
  | not _ ih => rwa [leaves_not]

omit [DecidableEq T] in
theorem Proper.uniform (h : Proper f) (ht : ∀ a ∈ leaves f, tier a = t) : Uniform tier t f := by
  induction h with
  | leaf a => exact .leaf (ht a (by simp [leaves_leaf]))
  | all hne _ ih =>
    refine .all hne fun g hg => ih g hg fun a ha => ht a ?_
    rw [leaves_all]
    exact List.mem_flatMap.mpr ⟨g, hg, ha⟩
  | any hne _ ih =>
    refine .any hne fun g hg => ih g hg fun a ha => ht a ?_
    rw [leaves_any]
    exact List.mem_flatMap.mpr ⟨g, hg, ha⟩
  | not _ ih => exact .not (ih fun a ha => ht a (by rwa [leaves_not]))

theorem nodup_of_mem (hn : (fs.flatMap leaves).Nodup) (hf : f ∈ fs) : (leaves f).Nodup :=
  (List.nodup_flatMap.mp hn).1 f hf

/-- Parts that share a leaf are the same part. -/
theorem eq_of_mem_leaves (hn : (fs.flatMap leaves).Nodup) (hf : f ∈ fs) (hg : g ∈ fs) {a : α}
    (haf : a ∈ leaves f) (hag : a ∈ leaves g) : f = g := by
  have hdisj := List.pairwise_iff_getElem.mp (List.nodup_flatMap.mp hn).2
  obtain ⟨i, hi, rfl⟩ := List.getElem_of_mem hf
  obtain ⟨j, hj, rfl⟩ := List.getElem_of_mem hg
  rcases Nat.lt_trichotomy i j with hij | rfl | hij
  · exact absurd hag (hdisj i j hi hj hij haf)
  · rfl
  · exact absurd haf (hdisj j i hj hi hij hag)

/-- Valuations of the parts together make one of the whole. -/
theorem exists_glue (hn : (fs.flatMap leaves).Nodup) (w : Formula α → α → Bool) (d : α → Bool) :
    ∃ v : α → Bool, (∀ f ∈ fs, ∀ a ∈ leaves f, v a = w f a) ∧
      ∀ a, (∀ f ∈ fs, a ∉ leaves f) → v a = d a := by
  classical
  refine ⟨fun a => if h : ∃ f ∈ fs, a ∈ leaves f then w h.choose a else d a, ?_, ?_⟩
  · intro f hf a ha
    have hex : ∃ g ∈ fs, a ∈ leaves g := ⟨f, hf, ha⟩
    have heq := eq_of_mem_leaves hn hf hex.choose_spec.1 ha hex.choose_spec.2
    simp only [dif_pos hex]
    rw [← heq]
  · intro a hnone
    have hex : ¬∃ g ∈ fs, a ∈ leaves g := fun ⟨g, hg, ha⟩ => hnone g hg ha
    simp only [dif_neg hex]

/-- Gluing keeps what all the parts agree on. -/
theorem exists_glue_agree (hn : (fs.flatMap leaves).Nodup) {w : Formula α → α → Bool}
    {d : α → Bool} {keep : α → Prop} (hw : ∀ f ∈ fs, ∀ a, keep a → w f a = d a) :
    ∃ v : α → Bool, (∀ f ∈ fs, ∀ a ∈ leaves f, v a = w f a) ∧ ∀ a, keep a → v a = d a := by
  obtain ⟨v, hv, hd⟩ := exists_glue hn w d
  refine ⟨v, hv, fun a ha => ?_⟩
  by_cases hex : ∃ f ∈ fs, a ∈ leaves f
  · obtain ⟨f, hf, haf⟩ := hex
    rw [hv f hf a haf, hw f hf a ha]
  · exact hd a fun f hf haf => hex ⟨f, hf, haf⟩

theorem all_eq_const {p : Formula α → Bool} {b : Bool} (hne : fs ≠ [])
    (h : ∀ f ∈ fs, p f = b) : fs.all p = b := by
  obtain ⟨f, hf⟩ := List.exists_mem_of_ne_nil _ hne
  cases b with
  | true => exact List.all_eq_true.mpr h
  | false => exact List.all_eq_false.mpr ⟨f, hf, by simp [h f hf]⟩

theorem any_eq_const {p : Formula α → Bool} {b : Bool} (hne : fs ≠ [])
    (h : ∀ f ∈ fs, p f = b) : fs.any p = b := by
  obtain ⟨f, hf⟩ := List.exists_mem_of_ne_nil _ hne
  cases b with
  | true => exact List.any_eq_true.mpr ⟨f, hf, h f hf⟩
  | false => exact List.any_eq_false.mpr fun g hg => by simp [h g hg]

/-- With every leaf written once, both truth values are taken. -/
theorem Proper.exists_holds (h : Proper f) (hn : (leaves f).Nodup) (b : Bool) :
    ∃ v, holds v f = b := by
  induction h generalizing b with
  | leaf a => exact ⟨fun _ => b, holds_leaf⟩
  | @all fs hne _ ih =>
    rw [leaves_all] at hn
    choose! w hw using fun f hf => ih f hf (nodup_of_mem hn hf) b
    obtain ⟨v, hv, -⟩ := exists_glue hn w fun _ => b
    refine ⟨v, ?_⟩
    rw [holds_all]
    exact all_eq_const hne fun f hf => by rw [holds_congr_leaves (hv f hf), hw f hf]
  | @any fs hne _ ih =>
    rw [leaves_any] at hn
    choose! w hw using fun f hf => ih f hf (nodup_of_mem hn hf) b
    obtain ⟨v, hv, -⟩ := exists_glue hn w fun _ => b
    refine ⟨v, ?_⟩
    rw [holds_any]
    exact any_eq_const hne fun f hf => by rw [holds_congr_leaves (hv f hf), hw f hf]
  | not _ ih =>
    rw [leaves_not] at hn
    obtain ⟨v, hv⟩ := ih hn (!b)
    exact ⟨v, by rw [holds_not, hv, Bool.not_not]⟩

/-- The leaves of a tier alone give its reading both truth values. -/
theorem Proper.exists_holdsOf (h : Proper f) (hn : (leaves f).Nodup)
    (hm : mentions (tier · == t) f = true) (p : α → Bool) (b : Bool) :
    ∃ v, (∀ a, tier a ≠ t → v a = p a) ∧ holdsOf (tier · == t) v f = b := by
  induction h generalizing b with
  | leaf a =>
    have ha : tier a = t := by simpa using hm
    refine ⟨fun x => if tier x = t then b else p x, fun x hx => if_neg hx, ?_⟩
    simp [holdsOf_leaf, ha]
  | @all fs hne _ ih =>
    rw [leaves_all] at hn
    rw [mentions_all, List.any_eq_true] at hm
    obtain ⟨g, hg, hgm⟩ := hm
    have hpart : ∀ f ∈ fs, ∃ v, (∀ a, tier a ≠ t → v a = p a) ∧
        (mentions (tier · == t) f = true → holdsOf (tier · == t) v f = b) := by
      intro f hf
      cases hfm : mentions (tier · == t) f with
      | false => exact ⟨p, fun _ _ => rfl, fun h => nomatch h⟩
      | true =>
        obtain ⟨v, hv, hb⟩ := ih f hf (nodup_of_mem hn hf) hfm b
        exact ⟨v, hv, fun _ => hb⟩
    choose! w hw hb using hpart
    obtain ⟨v, hv, hkeep⟩ := exists_glue_agree hn hw
    refine ⟨v, hkeep, ?_⟩
    rw [holdsOf_all]
    refine all_eq_const (List.ne_nil_of_mem (List.mem_filter.mpr ⟨hg, hgm⟩)) fun f hf => ?_
    obtain ⟨hf, hfm⟩ := List.mem_filter.mp hf
    rw [holdsOf_congr_leaves fun a ha _ => hv f hf a ha, hb f hf hfm]
  | @any fs hne _ ih =>
    rw [leaves_any] at hn
    rw [mentions_any] at hm
    have hsome := hm
    rw [List.any_eq_true] at hm
    obtain ⟨g, hg, hgm⟩ := hm
    have hpart : ∀ f ∈ fs, ∃ v, (∀ a, tier a ≠ t → v a = p a) ∧
        (mentions (tier · == t) f = true → holdsOf (tier · == t) v f = b) := by
      intro f hf
      cases hfm : mentions (tier · == t) f with
      | false => exact ⟨p, fun _ _ => rfl, fun h => nomatch h⟩
      | true =>
        obtain ⟨v, hv, hb⟩ := ih f hf (nodup_of_mem hn hf) hfm b
        exact ⟨v, hv, fun _ => hb⟩
    choose! w hw hb using hpart
    obtain ⟨v, hv, hkeep⟩ := exists_glue_agree hn hw
    refine ⟨v, hkeep, ?_⟩
    rw [holdsOf_any, hsome, Bool.not_true, Bool.false_or]
    refine any_eq_const (List.ne_nil_of_mem (List.mem_filter.mpr ⟨hg, hgm⟩)) fun f hf => ?_
    obtain ⟨hf, hfm⟩ := List.mem_filter.mp hf
    rw [holdsOf_congr_leaves fun a ha _ => hv f hf a ha, hb f hf hfm]
  | not _ ih =>
    rw [leaves_not] at hn
    rw [mentions_not] at hm
    obtain ⟨v, hv, hb⟩ := ih hn hm (!b)
    exact ⟨v, hv, by rw [holdsOf_not, hm, hb, Bool.not_true, Bool.false_or, Bool.not_not]⟩

/-- A tier with a leaf in the formula can decide it. -/
theorem Proper.exists_flip (h : Proper f) (hn : (leaves f).Nodup)
    (hm : mentions (tier · == u) f = true) :
    ∃ p q, (∀ a, tier a ≠ u → q a = p a) ∧ holds p f = true ∧ holds q f = false := by
  classical
  induction h with
  | leaf a =>
    have ha : tier a = u := by simpa using hm
    refine ⟨fun _ => true, fun x => decide (tier x ≠ u), fun x hx => by simpa using hx, ?_, ?_⟩
    · rw [holds_leaf]
    · rw [holds_leaf]; simpa using ha
  | @all fs hne hfs ih =>
    rw [leaves_all] at hn
    rw [mentions_all, List.any_eq_true] at hm
    obtain ⟨g, hg, hgm⟩ := hm
    obtain ⟨p, q, hpq, hp, hq⟩ := ih g hg (nodup_of_mem hn hg) hgm
    choose! r hr using fun f hf => (hfs f hf).exists_holds (nodup_of_mem hn hf) true
    obtain ⟨vp, hvp, -⟩ := exists_glue hn (Function.update r g p) fun _ => true
    have hagree : ∀ f ∈ fs, ∀ a, a ∈ leaves f → tier a ≠ u →
        Function.update r g q f a = vp a := by
      intro f hf a ha hau
      rw [hvp f hf a ha]
      rcases eq_or_ne f g with rfl | hne
      · rw [Function.update_self, Function.update_self, hpq a hau]
      · rw [Function.update_of_ne hne, Function.update_of_ne hne]
    obtain ⟨vq, hvq, hd⟩ := exists_glue hn (Function.update r g q) vp
    refine ⟨vp, vq, ?_, ?_, ?_⟩
    · intro a hau
      by_cases hex : ∃ f ∈ fs, a ∈ leaves f
      · obtain ⟨f, hf, ha⟩ := hex
        rw [hvq f hf a ha, hagree f hf a ha hau]
      · exact hd a fun f hf ha => hex ⟨f, hf, ha⟩
    · rw [holds_all, List.all_eq_true]
      intro f hf
      rw [holds_congr_leaves (hvp f hf)]
      rcases eq_or_ne f g with rfl | hne
      · rw [Function.update_self, hp]
      · rw [Function.update_of_ne hne, hr f hf]
    · rw [holds_all, List.all_eq_false]
      refine ⟨g, hg, ?_⟩
      rw [holds_congr_leaves (hvq g hg), Function.update_self, hq]
      exact Bool.false_ne_true
  | @any fs hne hfs ih =>
    rw [leaves_any] at hn
    rw [mentions_any, List.any_eq_true] at hm
    obtain ⟨g, hg, hgm⟩ := hm
    obtain ⟨p, q, hpq, hp, hq⟩ := ih g hg (nodup_of_mem hn hg) hgm
    choose! r hr using fun f hf => (hfs f hf).exists_holds (nodup_of_mem hn hf) false
    obtain ⟨vp, hvp, -⟩ := exists_glue hn (Function.update r g p) fun _ => true
    have hagree : ∀ f ∈ fs, ∀ a, a ∈ leaves f → tier a ≠ u →
        Function.update r g q f a = vp a := by
      intro f hf a ha hau
      rw [hvp f hf a ha]
      rcases eq_or_ne f g with rfl | hne
      · rw [Function.update_self, Function.update_self, hpq a hau]
      · rw [Function.update_of_ne hne, Function.update_of_ne hne]
    obtain ⟨vq, hvq, hd⟩ := exists_glue hn (Function.update r g q) vp
    refine ⟨vp, vq, ?_, ?_, ?_⟩
    · intro a hau
      by_cases hex : ∃ f ∈ fs, a ∈ leaves f
      · obtain ⟨f, hf, ha⟩ := hex
        rw [hvq f hf a ha, hagree f hf a ha hau]
      · exact hd a fun f hf ha => hex ⟨f, hf, ha⟩
    · rw [holds_any, List.any_eq_true]
      exact ⟨g, hg, by rw [holds_congr_leaves (hvp g hg), Function.update_self, hp]⟩
    · rw [holds_any, List.any_eq_false]
      intro f hf
      rw [holds_congr_leaves (hvq f hf)]
      rcases eq_or_ne f g with rfl | hne
      · rw [Function.update_self, hq]; exact Bool.false_ne_true
      · rw [Function.update_of_ne hne, hr f hf]; exact Bool.false_ne_true
  | not _ ih =>
    rw [leaves_not] at hn
    rw [mentions_not] at hm
    obtain ⟨p, q, hpq, hp, hq⟩ := ih hn hm
    exact ⟨q, p, fun a ha => (hpq a ha).symm, by rw [holds_not, hq]; rfl, by rw [holds_not, hp]; rfl⟩

end Exactness

end Formula

end MootMemory
