import MootMemory.TieredExactness

namespace MootMemory

namespace Formula

section Alternatives

variable {α T : Type} [DecidableEq T] {tier : α → T} {base t u : T} {others : List T}
  {fs : List (Formula α)} {f g : Formula α} {v w : α → Bool}

theorem holdsInBase_congr_leaves (h : ∀ a ∈ leaves f, tier a = base → v a = w a) :
    holdsInBase tier base v f = holdsInBase tier base w f := by
  refine holds_congr_leaves fun a ha => ?_
  by_cases hb : tier a = base
  · rw [h a ha hb]
  · have hb : (tier a != base) = true := bne_iff_ne.mpr hb
    rw [hb, Bool.true_or, Bool.true_or]

theorem passesAll_congr_leaves (h : ∀ a ∈ leaves f, v a = w a) :
    passesAll tier base others v f = passesAll tier base others w f := by
  rw [Bool.eq_iff_iff, passesAll_iff, passesAll_iff,
    holdsInBase_congr_leaves fun a ha _ => h a ha]
  refine and_congr_right fun _ => forall₂_congr fun t _ => ?_
  rw [holdsOf_congr_leaves fun a ha _ => h a ha]

theorem passesAll_any_iff : passesAll tier base others v (any fs) = true ↔
    (∃ f ∈ fs, holdsInBase tier base v f = true) ∧
      ∀ t ∈ others, (∃ f ∈ fs, mentions (tier · == t) f = true) →
        ∃ f ∈ fs, mentions (tier · == t) f = true ∧ holdsOf (tier · == t) v f = true := by
  rw [passesAll_iff, holdsInBase_any, List.any_eq_true]
  refine and_congr_right fun _ => forall₂_congr fun t _ => ?_
  rw [holdsOf_any, Bool.or_eq_true, Bool.not_eq_true', ← Bool.not_eq_true, List.any_eq_true,
    List.any_eq_true]
  simp only [List.mem_filter, and_assoc]
  rw [← Decidable.imp_iff_not_or]

/-- A disjunction of which the passes say what its boolean reading says. -/
structure Decided (tier : α → T) (base : T) (others : List T) (fs : List (Formula α)) : Prop where
  proper : ∀ f ∈ fs, Proper f
  nodup : (fs.flatMap leaves).Nodup
  passes : ∀ v, passesAll tier base others v (any fs) = holds v (any fs)

namespace Decided

variable (h : Decided tier base others fs)

include h

theorem exists_holds (hf : f ∈ fs) (b : Bool) : ∃ v, holds v f = b :=
  (h.proper f hf).exists_holds (nodup_of_mem h.nodup hf) b

theorem passes_of_holds (hf : f ∈ fs) (hv : holds v f = true) :
    passesAll tier base others v (any fs) = true := by
  rw [h.passes, holds_any]
  exact List.any_eq_true.mpr ⟨f, hf, hv⟩

theorem not_passes (hv : ∀ f ∈ fs, holds v f = false) :
    passesAll tier base others v (any fs) = false := by
  rw [h.passes, holds_any]
  exact List.any_eq_false.mpr fun f hf => by simp [hv f hf]

/-- A part that holds passes alone in every other tier of the disjunction. -/
theorem holdsOf_of_holds (hf : f ∈ fs) (hv : holds v f = true) (ht : t ∈ others)
    (hm : ∃ g ∈ fs, mentions (tier · == t) g = true) :
    mentions (tier · == t) f = true ∧ holdsOf (tier · == t) v f = true := by
  classical
  -- the other parts are made to fail in the tier
  have hpart : ∀ g ∈ fs, ∃ w, (g = f → w = v) ∧
      (g ≠ f → mentions (tier · == t) g = true → holdsOf (tier · == t) w g = false) := by
    intro g hg
    rcases eq_or_ne g f with rfl | hne
    · exact ⟨v, fun _ => rfl, fun hne => absurd rfl hne⟩
    · cases hgm : mentions (tier · == t) g with
      | false => exact ⟨v, fun he => absurd he hne, fun _ hno => nomatch hno⟩
      | true =>
        obtain ⟨w, -, hw⟩ :=
          (h.proper g hg).exists_holdsOf (nodup_of_mem h.nodup hg) hgm v false
        exact ⟨w, fun he => absurd he hne, fun _ _ => hw⟩
  choose! w hself hother using hpart
  obtain ⟨x, hx, -⟩ := exists_glue h.nodup w v
  have hxf : holds x f = true := by
    rw [holds_congr_leaves (hx f hf), hself f hf rfl, hv]
  obtain ⟨g, hg, hgm, hgo⟩ := (passesAll_any_iff.mp (h.passes_of_holds hf hxf)).2 t ht hm
  rw [holdsOf_congr_leaves fun a ha _ => hx g hg a ha] at hgo
  rcases eq_or_ne g f with rfl | hne
  · rw [hself g hg rfl] at hgo
    exact ⟨hgm, hgo⟩
  · rw [hother g hg hne hgm] at hgo
    cases hgo

/-- All parts mention the same other tiers. -/
theorem mentions_of_mentions (hf : f ∈ fs) (ht : t ∈ others)
    (hm : ∃ g ∈ fs, mentions (tier · == t) g = true) : mentions (tier · == t) f = true := by
  obtain ⟨v, hv⟩ := h.exists_holds hf true
  exact (h.holdsOf_of_holds hf hv ht hm).1

/-- A part can be changed inside one other tier so that it no longer holds. -/
theorem exists_falsify (hf : f ∈ fs) (ht : t ∈ others)
    (hm : ∃ g ∈ fs, mentions (tier · == t) g = true) (v : α → Bool) :
    ∃ w, (∀ a, tier a ≠ t → w a = v a) ∧ holds w f = false := by
  obtain ⟨w, hw, hwo⟩ := (h.proper f hf).exists_holdsOf (nodup_of_mem h.nodup hf)
    (h.mentions_of_mentions hf ht hm) v false
  refine ⟨w, hw, Bool.eq_false_iff.mpr fun hwf => ?_⟩
  rw [(h.holdsOf_of_holds hf hwf ht hm).2] at hwo
  cases hwo

/-- Two parts cannot both have leaves of two other tiers. -/
theorem eq_of_two_tiers (hf : f ∈ fs) (hg : g ∈ fs) (ht : t ∈ others) (hu : u ∈ others)
    (hub : u ≠ base) (htm : ∃ g ∈ fs, mentions (tier · == t) g = true)
    (hum : ∃ g ∈ fs, mentions (tier · == u) g = true) (hut : u ≠ t) : f = g := by
  classical
  by_contra hne
  obtain ⟨p, hp⟩ := h.exists_holds hf true
  obtain ⟨p', hp', hp'f⟩ := h.exists_falsify hf hu hum p
  obtain ⟨q, hq⟩ := h.exists_holds hg true
  obtain ⟨q', hq', hq'g⟩ := h.exists_falsify hg ht htm q
  choose! r hr using fun k hk => h.exists_holds (f := k) hk false
  let before := Function.update (Function.update r g q') f p
  let after := Function.update (Function.update r g q') f p'
  obtain ⟨x, hx, -⟩ := exists_glue h.nodup before p
  obtain ⟨y, hy, -⟩ := exists_glue h.nodup after p
  -- the two valuations differ in the tier `u` only
  have hxy : ∀ k ∈ fs, ∀ a ∈ leaves k, tier a ≠ u → y a = x a := by
    intro k hk a ha hau
    rw [hx k hk a ha, hy k hk a ha]
    rcases eq_or_ne k f with rfl | hkf
    · simp [before, after, hp' a hau]
    · simp [before, after, Function.update_of_ne hkf]
  have hxf : holds x f = true := by
    rw [holds_congr_leaves (hx f hf)]
    simp [before, hp]
  have hyfail : ∀ k ∈ fs, holds y k = false := by
    intro k hk
    rw [holds_congr_leaves (hy k hk)]
    rcases eq_or_ne k f with rfl | hkf
    · simp [after, hp'f]
    · rcases eq_or_ne k g with rfl | hkg
      · simp [after, Function.update_of_ne hkf, hq'g]
      · simp [after, Function.update_of_ne hkf, Function.update_of_ne hkg, hr k hk]
  obtain ⟨hbase, hother⟩ := passesAll_any_iff.mp (h.passes_of_holds hf hxf)
  have hpass : passesAll tier base others y (any fs) = true := by
    refine passesAll_any_iff.mpr ⟨?_, fun s hs hsm => ?_⟩
    · obtain ⟨k, hk, hkb⟩ := hbase
      refine ⟨k, hk, ?_⟩
      rw [← hkb]
      exact holdsInBase_congr_leaves fun a ha hab => hxy k hk a ha (hab ▸ hub.symm)
    · rcases eq_or_ne s u with rfl | hsu
      · obtain ⟨hgm, hgo⟩ := h.holdsOf_of_holds hg hq hs hsm
        refine ⟨g, hg, hgm, ?_⟩
        rw [← hgo]
        refine holdsOf_congr_leaves fun a ha has => ?_
        have has : tier a = s := by simpa using has
        rw [hy g hg a ha]
        simp only [after, Function.update_of_ne (Ne.symm hne), Function.update_self]
        exact hq' a (has ▸ hut)
      · obtain ⟨k, hk, hkm, hko⟩ := hother s hs hsm
        refine ⟨k, hk, hkm, ?_⟩
        rw [← hko]
        refine holdsOf_congr_leaves fun a ha has => hxy k hk a ha ?_
        have has : tier a = s := by simpa using has
        rwa [has]
  rw [h.not_passes hyfail] at hpass
  cases hpass

/-- Where base leaves occur, a part fails in the base pass as soon as it fails. -/
theorem holdsInBase_of_not_holds (hbase : base ∉ others) (hg : g ∈ fs)
    (hgb : mentions (tier · == base) g = true) (hf : f ∈ fs) (hne : f ≠ g)
    (hv : holds v f = false) :
    holdsInBase tier base v f = false ∧ ∃ w, holdsInBase tier base w g = false := by
  classical
  obtain ⟨p, q, hpq, hp, hq⟩ := (h.proper g hg).exists_flip (nodup_of_mem h.nodup hg) hgb
  choose! r hr using fun k hk => h.exists_holds (f := k) hk false
  let before := Function.update (Function.update r f v) g p
  let after := Function.update (Function.update r f v) g q
  obtain ⟨x, hx, -⟩ := exists_glue h.nodup before p
  obtain ⟨y, hy, -⟩ := exists_glue h.nodup after p
  have hxy : ∀ k ∈ fs, ∀ a ∈ leaves k, tier a ≠ base → y a = x a := by
    intro k hk a ha hab
    rw [hx k hk a ha, hy k hk a ha]
    rcases eq_or_ne k g with rfl | hkg
    · simp [before, after, hpq a hab]
    · simp [before, after, Function.update_of_ne hkg]
  have hxg : holds x g = true := by
    rw [holds_congr_leaves (hx g hg)]
    simp [before, hp]
  have hyfail : ∀ k ∈ fs, holds y k = false := by
    intro k hk
    rw [holds_congr_leaves (hy k hk)]
    rcases eq_or_ne k g with rfl | hkg
    · simp [after, hq]
    · rcases eq_or_ne k f with rfl | hkf
      · simp [after, Function.update_of_ne hkg, hv]
      · simp [after, Function.update_of_ne hkf, Function.update_of_ne hkg, hr k hk]
  have hother := (passesAll_any_iff.mp (h.passes_of_holds hg hxg)).2
  have hnone : ∀ k ∈ fs, holdsInBase tier base y k = false := by
    by_contra hsome
    push Not at hsome
    obtain ⟨k, hk, hkb⟩ := hsome
    have hpass : passesAll tier base others y (any fs) = true := by
      refine passesAll_any_iff.mpr ⟨⟨k, hk, Bool.not_eq_false _ ▸ hkb⟩, fun s hs hsm => ?_⟩
      obtain ⟨j, hj, hjm, hjo⟩ := hother s hs hsm
      refine ⟨j, hj, hjm, ?_⟩
      rw [← hjo]
      refine holdsOf_congr_leaves fun a ha has => hxy j hj a ha ?_
      have has : tier a = s := by simpa using has
      exact fun hab => hbase (hab ▸ has ▸ hs)
    rw [h.not_passes hyfail] at hpass
    cases hpass
  refine ⟨?_, y, hnone g hg⟩
  rw [← hnone f hf]
  refine holdsInBase_congr_leaves fun a ha _ => ?_
  rw [hy f hf a ha]
  simp [after, Function.update_of_ne hne]

/-- Two parts cannot mix base leaves with leaves of another tier. -/
theorem eq_of_base_tier (hbase : base ∉ others) (hg : g ∈ fs)
    (hgb : mentions (tier · == base) g = true) (hf : f ∈ fs) (ht : t ∈ others)
    (htm : ∃ g ∈ fs, mentions (tier · == t) g = true) : f = g := by
  classical
  by_contra hne
  obtain ⟨s, hs⟩ := h.exists_holds hf true
  obtain ⟨s', hs', hs'f⟩ := h.exists_falsify hf ht htm s
  choose! r hr using fun k hk => h.exists_holds (f := k) hk false
  obtain ⟨hs'b, q, hq⟩ := h.holdsInBase_of_not_holds hbase hg hgb hf hne hs'f
  obtain ⟨x, hx, -⟩ := exists_glue h.nodup (Function.update (Function.update r g q) f s) s
  have hxf : holds x f = true := by
    rw [holds_congr_leaves (hx f hf), Function.update_self, hs]
  obtain ⟨k, hk, hkb⟩ := (passesAll_any_iff.mp (h.passes_of_holds hf hxf)).1
  rw [holdsInBase_congr_leaves fun a ha _ => hx k hk a ha] at hkb
  rcases eq_or_ne k f with rfl | hkf
  · rw [Function.update_self, holdsInBase_congr_leaves fun a _ hab => (hs' a ?_).symm, hs'b] at hkb
    · cases hkb
    · exact fun hat => hbase (hab ▸ hat ▸ ht)
  · rw [Function.update_of_ne hkf] at hkb
    rcases eq_or_ne k g with rfl | hkg
    · rw [Function.update_self, hq] at hkb
      cases hkb
    · rw [Function.update_of_ne hkg,
        (h.holdsInBase_of_not_holds hbase hg hgb hk hkg (hr k hk)).1] at hkb
      cases hkb

/-- A decided disjunction has one part, or only base leaves, or only leaves of one tier. -/
theorem alternatives (hbase : base ∉ others) (htiers : ∀ a, tier a = base ∨ tier a ∈ others) :
    (∀ f ∈ fs, ∀ g ∈ fs, f = g) ∨ (∀ f ∈ fs, ∀ a ∈ leaves f, tier a = base) ∨
      ∃ t ∈ others, ∀ f ∈ fs, ∀ a ∈ leaves f, tier a = t := by
  by_cases hother : ∃ g ∈ fs, ∃ a ∈ leaves g, tier a ≠ base
  · obtain ⟨g, hg, a, ha, hab⟩ := hother
    have hta : tier a ∈ others := (htiers a).resolve_left hab
    have htm : ∃ k ∈ fs, mentions (tier · == tier a) k = true :=
      ⟨g, hg, mentions_iff.mpr ⟨a, ha, by simp⟩⟩
    by_cases huni : ∀ f ∈ fs, ∀ b ∈ leaves f, tier b = tier a
    · exact Or.inr (Or.inr ⟨tier a, hta, huni⟩)
    · push Not at huni
      obtain ⟨k, hk, b, hb, hbt⟩ := huni
      have hkm : mentions (tier · == tier b) k = true := mentions_iff.mpr ⟨b, hb, by simp⟩
      left
      rcases htiers b with hbb | hbo
      · rw [hbb] at hkm
        intro f hf j hj
        rw [h.eq_of_base_tier hbase hk hkm hf hta htm, h.eq_of_base_tier hbase hk hkm hj hta htm]
      · have hbb : tier b ≠ base := fun he => hbase (he ▸ hbo)
        exact fun f hf j hj => h.eq_of_two_tiers hf hj hta hbo hbb htm ⟨k, hk, hkm⟩ hbt
  · push Not at hother
    exact Or.inr (Or.inl hother)

end Decided

end Alternatives

end Formula

end MootMemory
