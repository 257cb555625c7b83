import MootMemory.Formula

namespace MootMemory

namespace Formula

section Tiers

variable {α T : Type} [DecidableEq T]

/-- Every leaf is of the tier, and no conjunction or disjunction is empty. -/
inductive Uniform (tier : α → T) (t : T) : Formula α → Prop
  | leaf {a} (h : tier a = t) : Uniform tier t (leaf a)
  | all {fs} (hne : fs ≠ []) (h : ∀ f ∈ fs, Uniform tier t f) : Uniform tier t (all fs)
  | any {fs} (hne : fs ≠ []) (h : ∀ f ∈ fs, Uniform tier t f) : Uniform tier t (any fs)
  | not {f} (h : Uniform tier t f) : Uniform tier t (not f)

/-- The reading in which leaves outside the base tier count as true. -/
def holdsInBase (tier : α → T) (base : T) (v : α → Bool) (f : Formula α) : Bool :=
  holds (fun a => tier a != base || v a) f

/-- One pass for the base tier and one for each other tier, all of them passed. -/
def passesAll (tier : α → T) (base : T) (others : List T) (v : α → Bool) (f : Formula α) : Bool :=
  holdsInBase tier base v f && others.all fun t => holdsOf (tier · == t) v f

/-- The passes under a negation: some tier with leaves in the formula is passed. -/
def passesSome (tier : α → T) (base : T) (others : List T) (v : α → Bool) (f : Formula α) : Bool :=
  holdsInBase tier base v f ||
    others.any fun t => mentions (tier · == t) f && holdsOf (tier · == t) v f

/-- The formulas that tier by tier passes decide as a whole; the flag is false under an odd number
of negations. -/
inductive Separable (tier : α → T) (base : T) : Bool → Formula α → Prop
  | base {pol f} (h : mentions (tier · != base) f = false) : Separable tier base pol f
  | uniform {pol f t} (h : Uniform tier t f) (hpol : holds (fun _ => true) f = pol) :
      Separable tier base pol f
  | not {pol f} (h : Separable tier base (!pol) f) : Separable tier base pol (not f)
  | all {fs} (h : ∀ f ∈ fs, Separable tier base true f) : Separable tier base true (all fs)
  | any {fs} (h : ∀ f ∈ fs, Separable tier base false f) : Separable tier base false (any fs)
  | singleAll {pol f} (h : Separable tier base pol f) : Separable tier base pol (all [f])
  | singleAny {pol f} (h : Separable tier base pol f) : Separable tier base pol (any [f])

variable {tier : α → T} {base : T} {others : List T} {v : α → Bool} {t : T}
  {fs : List (Formula α)} {f : Formula α}

theorem passesAll_iff : passesAll tier base others v f = true ↔
    holdsInBase tier base v f = true ∧ ∀ t ∈ others, holdsOf (tier · == t) v f = true := by
  simp [passesAll]

theorem passesSome_iff : passesSome tier base others v f = true ↔
    holdsInBase tier base v f = true ∨
      ∃ t ∈ others, mentions (tier · == t) f = true ∧ holdsOf (tier · == t) v f = true := by
  simp [passesSome]

theorem holdsInBase_all :
    holdsInBase tier base v (all fs) = fs.all (holdsInBase tier base v) := holds_all

theorem holdsInBase_any :
    holdsInBase tier base v (any fs) = fs.any (holdsInBase tier base v) := holds_any

theorem holdsInBase_not : holdsInBase tier base v (not f) = !holdsInBase tier base v f := holds_not

/-- A conjunction passes when every part does. -/
theorem passesAll_all :
    passesAll tier base others v (all fs) = fs.all (passesAll tier base others v) := by
  rw [Bool.eq_iff_iff, passesAll_iff, holdsInBase_all, List.all_eq_true, List.all_eq_true]
  simp only [passesAll_iff, holdsOf_all_eq_all, List.all_eq_true]
  constructor
  · intro h f hf
    exact ⟨h.1 f hf, fun t ht => h.2 t ht f hf⟩
  · intro h
    exact ⟨fun f hf => (h f hf).1, fun t ht f hf => (h f hf).2 t ht⟩

/-- Under a negation a disjunction passes when some part does. -/
theorem passesSome_any :
    passesSome tier base others v (any fs) = fs.any (passesSome tier base others v) := by
  rw [Bool.eq_iff_iff, passesSome_iff, holdsInBase_any, List.any_eq_true, List.any_eq_true]
  simp only [passesSome_iff, mentions_any, List.any_eq_true]
  constructor
  · intro h
    rcases h with ⟨f, hf, hb⟩ | ⟨t, ht, hm, ho⟩
    · exact ⟨f, hf, Or.inl hb⟩
    · rw [holdsOf_any, List.any_eq_true.mpr hm, Bool.not_true, Bool.false_or] at ho
      obtain ⟨f, hf, ho⟩ := List.any_eq_true.mp ho
      obtain ⟨hf, hfm⟩ := List.mem_filter.mp hf
      exact ⟨f, hf, Or.inr ⟨t, ht, hfm, ho⟩⟩
  · intro h
    obtain ⟨f, hf, hb | ⟨t, ht, hm, ho⟩⟩ := h
    · exact Or.inl ⟨f, hf, hb⟩
    · refine Or.inr ⟨t, ht, ⟨f, hf, hm⟩, ?_⟩
      rw [holdsOf_any, Bool.or_eq_true]
      exact Or.inr (List.any_eq_true.mpr ⟨f, List.mem_filter.mpr ⟨hf, hm⟩, ho⟩)

theorem passesAll_not :
    passesAll tier base others v (not f) = !passesSome tier base others v f := by
  rw [Bool.eq_iff_iff, Bool.not_eq_true', ← Bool.not_eq_true, passesAll_iff, passesSome_iff,
    holdsInBase_not]
  simp only [holdsOf_not, Bool.not_eq_true', not_or, not_exists, not_and, Bool.not_eq_true,
    Bool.or_eq_true]
  constructor
  · intro h
    refine ⟨h.1, fun t ht hm => ?_⟩
    rcases h.2 t ht with hn | ho
    · rw [hm] at hn; cases hn
    · exact ho
  · intro h
    refine ⟨h.1, fun t ht => ?_⟩
    cases hm : mentions (tier · == t) f with
    | false => exact Or.inl rfl
    | true => exact Or.inr (h.2 t ht hm)

theorem passesSome_not :
    passesSome tier base others v (not f) = !passesAll tier base others v f := by
  rw [Bool.eq_iff_iff, Bool.not_eq_true', ← Bool.not_eq_true, passesAll_iff, passesSome_iff,
    holdsInBase_not]
  simp only [holdsOf_not, Bool.not_eq_true', mentions_not, Bool.or_eq_true]
  constructor
  · intro h hall
    rcases h with hb | ⟨t, ht, hm, hn | ho⟩
    · rw [hall.1] at hb; cases hb
    · rw [hm] at hn; cases hn
    · rw [hall.2 t ht] at ho; cases ho
  · intro h
    cases hb : holdsInBase tier base v f with
    | false => exact Or.inl rfl
    | true =>
      have hsome : ∃ t ∈ others, holdsOf (tier · == t) v f = false := by
        by_contra hnone
        refine h ⟨hb, fun t ht => ?_⟩
        cases ho : holdsOf (tier · == t) v f with
        | false => exact absurd ⟨t, ht, ho⟩ hnone
        | true => rfl
      obtain ⟨t, ht, ho⟩ := hsome
      refine Or.inr ⟨t, ht, ?_, Or.inr ho⟩
      cases hm : mentions (tier · == t) f with
      | false => rw [holdsOf_of_not_mentions hm] at ho; cases ho
      | true => rfl

/-- A single part is read the same in a conjunction and in a disjunction. -/
theorem passesAll_single : passesAll tier base others v (any [f]) =
    passesAll tier base others v f := by
  rw [Bool.eq_iff_iff, passesAll_iff, passesAll_iff, holdsInBase_any, List.any_cons, List.any_nil,
    Bool.or_false]
  refine and_congr_right fun _ => forall₂_congr fun t _ => ?_
  rw [holdsOf_any]
  cases hm : mentions (tier · == t) f with
  | false => simp [hm, holdsOf_of_not_mentions hm]
  | true => simp [hm]

theorem passesSome_single : passesSome tier base others v (all [f]) =
    passesSome tier base others v f := by
  rw [Bool.eq_iff_iff, passesSome_iff, passesSome_iff, holdsInBase_all, List.all_cons,
    List.all_nil, Bool.and_true]
  refine or_congr_right (exists_congr fun t => and_congr_right fun _ => ?_)
  rw [mentions_all, holdsOf_all_eq_all]
  simp

theorem Uniform.mentions (h : Uniform tier t f) : mentions (tier · == t) f = true := by
  induction h with
  | leaf h => simp [h]
  | all hne _ ih =>
    obtain ⟨g, hg⟩ := List.exists_mem_of_ne_nil _ hne
    rw [mentions_all]
    exact List.any_eq_true.mpr ⟨g, hg, ih g hg⟩
  | any hne _ ih =>
    obtain ⟨g, hg⟩ := List.exists_mem_of_ne_nil _ hne
    rw [mentions_any]
    exact List.any_eq_true.mpr ⟨g, hg, ih g hg⟩
  | not _ ih => rw [mentions_not]; exact ih

theorem Uniform.mentions_of_ne (h : Uniform tier t f) {u : T} (hu : u ≠ t) :
    Formula.mentions (tier · == u) f = false := by
  induction h with
  | leaf h => simp [h, Ne.symm hu]
  | all _ _ ih => rw [mentions_all]; exact List.any_eq_false.mpr fun g hg => by simp [ih g hg]
  | any _ _ ih => rw [mentions_any]; exact List.any_eq_false.mpr fun g hg => by simp [ih g hg]
  | not _ ih => rw [mentions_not]; exact ih

theorem Uniform.holdsOf (h : Uniform tier t f) : holdsOf (tier · == t) v f = holds v f := by
  induction h with
  | leaf h => simp [holdsOf_leaf, h]
  | all _ _ ih =>
    rw [holdsOf_all_eq_all, holds_all, Bool.eq_iff_iff, List.all_eq_true, List.all_eq_true]
    exact forall₂_congr fun g hg => by rw [ih g hg]
  | @any fs hne hfs ih =>
    have hall : fs.filter (Formula.mentions (tier · == t)) = fs :=
      List.filter_eq_self.mpr fun g hg => (hfs g hg).mentions
    have hsome := (Uniform.any hne hfs).mentions
    rw [mentions_any] at hsome
    rw [holdsOf_any, hsome, hall, Bool.not_true, Bool.false_or, holds_any, Bool.eq_iff_iff,
      List.any_eq_true, List.any_eq_true]
    exact exists_congr fun g => and_congr_right fun hg => by rw [ih g hg]
  | not h ih => rw [holdsOf_not, h.mentions, Bool.not_true, Bool.false_or, ih, holds_not]

/-- Outside the base tier a uniform formula is read with every leaf true. -/
theorem Uniform.holdsInBase (h : Uniform tier t f) (ht : t ≠ base) :
    holdsInBase tier base v f = holds (fun _ => true) f := by
  induction h with
  | leaf h => simp [Formula.holdsInBase, h, ht]
  | all _ _ ih =>
    rw [holdsInBase_all, holds_all, Bool.eq_iff_iff, List.all_eq_true, List.all_eq_true]
    exact forall₂_congr fun g hg => by rw [ih g hg]
  | any _ _ ih =>
    rw [holdsInBase_any, holds_any, Bool.eq_iff_iff, List.any_eq_true, List.any_eq_true]
    exact exists_congr fun g => and_congr_right fun hg => by rw [ih g hg]
  | not _ ih => rw [holdsInBase_not, holds_not, ih]

theorem holdsInBase_of_base (h : mentions (tier · != base) f = false) :
    holdsInBase tier base v f = holds v f := by
  induction f with
  | leaf a =>
    have ha : tier a = base := by simpa using h
    simp [holdsInBase, ha]
  | all fs ih =>
    rw [mentions_all, List.any_eq_false] at h
    rw [holdsInBase_all, holds_all, Bool.eq_iff_iff, List.all_eq_true, List.all_eq_true]
    exact forall₂_congr fun g hg => by rw [ih g hg (Bool.eq_false_iff.mpr (h g hg))]
  | any fs ih =>
    rw [mentions_any, List.any_eq_false] at h
    rw [holdsInBase_any, holds_any, Bool.eq_iff_iff, List.any_eq_true, List.any_eq_true]
    exact exists_congr fun g => and_congr_right fun hg => by
      rw [ih g hg (Bool.eq_false_iff.mpr (h g hg))]
  | not f ih => rw [holdsInBase_not, holds_not, ih (by rwa [mentions_not] at h)]

theorem mentions_mono {k k' : α → Bool} (hk : ∀ a, k a = true → k' a = true)
    (h : mentions k f = true) : mentions k' f = true := by
  induction f with
  | leaf a => rw [mentions_leaf] at h ⊢; exact hk a h
  | all fs ih =>
    rw [mentions_all, List.any_eq_true] at h ⊢
    obtain ⟨g, hg, hm⟩ := h
    exact ⟨g, hg, ih g hg hm⟩
  | any fs ih =>
    rw [mentions_any, List.any_eq_true] at h ⊢
    obtain ⟨g, hg, hm⟩ := h
    exact ⟨g, hg, ih g hg hm⟩
  | not f ih => rw [mentions_not] at h ⊢; exact ih h

/-- A formula without leaves outside the base tier mentions no other tier. -/
theorem not_mentions_of_base (h : mentions (tier · != base) f = false) (ht : t ≠ base) :
    mentions (tier · == t) f = false := by
  rw [← Bool.not_eq_true] at h ⊢
  refine fun hm => h (mentions_mono (fun a ha => ?_) hm)
  have hta : tier a = t := by simpa using ha
  simp [hta, ht]

variable (hbase : base ∉ others)

include hbase in
theorem passes_of_base (h : mentions (tier · != base) f = false) :
    passesAll tier base others v f = holds v f ∧ passesSome tier base others v f = holds v f := by
  have hnone : ∀ t ∈ others, mentions (tier · == t) f = false := fun t ht =>
    not_mentions_of_base h fun he => hbase (he ▸ ht)
  have hall : (others.all fun t => holdsOf (tier · == t) v f) = true :=
    List.all_eq_true.mpr fun t ht => holdsOf_of_not_mentions (hnone t ht)
  have hsome : (others.any fun t => mentions (tier · == t) f && holdsOf (tier · == t) v f) =
      false := List.any_eq_false.mpr fun t ht => by simp [hnone t ht]
  exact ⟨by rw [passesAll, hall, Bool.and_true, holdsInBase_of_base h],
    by rw [passesSome, hsome, Bool.or_false, holdsInBase_of_base h]⟩

theorem passesAll_of_uniform (h : Uniform tier t f) (ht : t ∈ others) (htb : t ≠ base) :
    passesAll tier base others v f = (holds (fun _ => true) f && holds v f) := by
  rw [passesAll, h.holdsInBase htb]
  congr 1
  rw [Bool.eq_iff_iff, List.all_eq_true]
  constructor
  · intro hall
    rw [← h.holdsOf]
    exact hall t ht
  · intro hv u hu
    rcases eq_or_ne u t with rfl | hne
    · rw [h.holdsOf, hv]
    · exact holdsOf_of_not_mentions (h.mentions_of_ne hne)

theorem passesSome_of_uniform (h : Uniform tier t f) (ht : t ∈ others) (htb : t ≠ base) :
    passesSome tier base others v f = (holds (fun _ => true) f || holds v f) := by
  rw [passesSome, h.holdsInBase htb]
  congr 1
  rw [Bool.eq_iff_iff, List.any_eq_true]
  constructor
  · rintro ⟨u, hu, hw⟩
    rcases eq_or_ne u t with rfl | hne
    · rw [h.mentions, Bool.true_and, h.holdsOf] at hw
      exact hw
    · rw [h.mentions_of_ne hne] at hw
      cases hw
  · intro hv
    exact ⟨t, ht, by rw [h.mentions, h.holdsOf, hv, Bool.and_true]⟩

omit [DecidableEq T] in
theorem Uniform.mem_or_base (htiers : ∀ a, tier a = base ∨ tier a ∈ others)
    (h : Uniform tier t f) : t = base ∨ t ∈ others := by
  induction h with
  | leaf h => exact h ▸ htiers _
  | all hne _ ih => obtain ⟨g, hg⟩ := List.exists_mem_of_ne_nil _ hne; exact ih g hg
  | any hne _ ih => obtain ⟨g, hg⟩ := List.exists_mem_of_ne_nil _ hne; exact ih g hg
  | not _ ih => exact ih

theorem Uniform.not_mentions (h : Uniform tier base f) :
    Formula.mentions (tier · != base) f = false := by
  induction h with
  | leaf h => simp [h]
  | all _ _ ih => rw [mentions_all]; exact List.any_eq_false.mpr fun g hg => by simp [ih g hg]
  | any _ _ ih => rw [mentions_any]; exact List.any_eq_false.mpr fun g hg => by simp [ih g hg]
  | not _ ih => rw [mentions_not]; exact ih

include hbase in
/-- The passes decide a separable formula as its boolean reading does. -/
theorem Separable.passes (htiers : ∀ a, tier a = base ∨ tier a ∈ others) {pol : Bool}
    (h : Separable tier base pol f) :
    (if pol then passesAll tier base others v f else passesSome tier base others v f) =
      holds v f := by
  induction h with
  | @base pol f h =>
    obtain ⟨hall, hsome⟩ := passes_of_base (v := v) hbase h
    cases pol
    · exact hsome
    · exact hall
  | @uniform pol f t h hpol =>
    rcases h.mem_or_base htiers with rfl | ht
    · obtain ⟨hall, hsome⟩ := passes_of_base (v := v) hbase h.not_mentions
      cases pol
      · exact hsome
      · exact hall
    · have htb : t ≠ base := fun he => hbase (he ▸ ht)
      cases pol
      · rw [if_neg Bool.false_ne_true, passesSome_of_uniform h ht htb, hpol, Bool.false_or]
      · rw [if_pos rfl, passesAll_of_uniform h ht htb, hpol, Bool.true_and]
  | @not pol f _ ih =>
    cases pol
    · rw [if_neg Bool.false_ne_true, passesSome_not, holds_not, ← ih]; rfl
    · rw [if_pos rfl, passesAll_not, holds_not, ← ih]; rfl
  | all _ ih =>
    rw [if_pos rfl, passesAll_all, holds_all, Bool.eq_iff_iff, List.all_eq_true, List.all_eq_true]
    exact forall₂_congr fun g hg => by rw [← ih g hg]; rfl
  | any _ ih =>
    rw [if_neg Bool.false_ne_true, passesSome_any, holds_any, Bool.eq_iff_iff, List.any_eq_true,
      List.any_eq_true]
    exact exists_congr fun g => and_congr_right fun hg => by rw [← ih g hg]; rfl
  | @singleAll pol f _ ih =>
    rw [passesSome_single, passesAll_all, holds_all, List.all_cons, List.all_nil, Bool.and_true,
      List.all_cons, List.all_nil, Bool.and_true]
    exact ih
  | @singleAny pol f _ ih =>
    rw [passesAll_single, passesSome_any, holds_any, List.any_cons, List.any_nil, Bool.or_false,
      List.any_cons, List.any_nil, Bool.or_false]
    exact ih

end Tiers

end Formula

end MootMemory
