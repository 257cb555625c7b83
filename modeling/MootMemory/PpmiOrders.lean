import Mathlib.Data.List.Permutation
import MootMemory.CountsResumption
import MootMemory.ReducedVocabulary

namespace MootMemory

/-- Every arrangement of what a partial map picks out of a list comes from one of the list. -/
theorem exists_perm_filterMap {α β : Type*} {f : α → Option β} {xs : List α} {l : List β}
    (h : l.Perm (xs.filterMap f)) : ∃ ys : List α, ys.Perm xs ∧ ys.filterMap f = l := by
  induction l generalizing xs with
  | nil => exact ⟨xs, List.Perm.refl xs, List.nil_perm.mp h⟩
  | cons b l ih =>
    obtain ⟨x, hx, hb⟩ := List.mem_filterMap.mp (h.subset List.mem_cons_self)
    obtain ⟨before, behind, rfl⟩ := List.append_of_mem hx
    have hrest : l.Perm ((before ++ behind).filterMap f) := by
      rw [List.filterMap_append, List.filterMap_cons_some hb] at h
      rw [List.filterMap_append]
      exact (h.trans List.perm_middle).cons_inv
    obtain ⟨ys, hys, rfl⟩ := ih hrest
    exact ⟨x :: ys, (hys.cons x).trans List.perm_middle.symm, List.filterMap_cons_some hb⟩

/-- The numbers add up to the same in every order. -/
def AddsUpAlike (add : F32 → F32 → F32) (summands : List F32) : Prop :=
  ∀ l : List F32, l.Perm summands → l.foldl add 0 = summands.foldl add 0

/-- Two numbers always do. -/
theorem addsUpAlike_of_two {add : F32 → F32 → F32} (hcomm : ∀ x y, add x y = add y x)
    {summands : List F32} (hzero : ∀ x ∈ summands, add 0 x = x) (h : summands.length ≤ 2) :
    AddsUpAlike add summands := by
  intro l hl
  match summands, h with
  | [], _ => rw [List.perm_nil.mp hl]
  | [x], _ => rw [List.perm_singleton.mp hl]
  | [x, y], _ =>
    have hx := hzero x (by simp)
    have hy := hzero y (by simp)
    rcases List.perm_pair.mp hl with rfl | rfl
    · rfl
    · show add (add 0 y) x = add (add 0 x) y
      rw [hx, hy, hcomm]

/-- Zeros between the numbers do not count, where each sum on the way can do without them. -/
theorem foldl_add_filter {add : F32 → F32 → F32} {l : List F32} {acc : F32}
    (h : ∀ pre, pre <+: l.filter (· ≠ 0) → add (pre.foldl add acc) 0 = pre.foldl add acc) :
    l.foldl add acc = (l.filter (· ≠ 0)).foldl add acc := by
  induction l generalizing acc with
  | nil => rfl
  | cons x l ih =>
    by_cases hx : x = 0
    · rw [List.filter_cons_of_neg (by simpa using hx)] at h ⊢
      have hacc : add acc 0 = acc := h [] List.nil_prefix
      rw [List.foldl_cons, hx, hacc]
      exact ih h
    · rw [List.filter_cons_of_pos (by simpa using hx)] at h ⊢
      rw [List.foldl_cons, List.foldl_cons]
      exact ih fun pre hpre => h (x :: pre) ((List.prefix_cons_inj x).mpr hpre)

/-- A finite number above zero. -/
def PositiveFinite (x : F32) : Prop := 0 < x ∧ x < 0x7F800000

instance : DecidablePred PositiveFinite := fun _ => inferInstanceAs (Decidable (_ ∧ _))

/-- A finite number other than zero. -/
def NonzeroFinite (x : F32) : Prop := PositiveFinite x ∨ PositiveFinite (x ^^^ 0x80000000)

/-- What the machine's numbers do at zero and one: nothing but the order of additions is open. -/
structure BasisMath.SingleLaws (math : BasisMath) : Prop where
  add_comm : ∀ x y, math.add x y = math.add y x
  zero_add : math.add 0 0 = 0
  add_zero : ∀ x, NonzeroFinite x → math.add x 0 = x
  add_add_zero : ∀ x y, NonzeroFinite x → NonzeroFinite y →
    math.add (math.add x y) 0 = math.add x y
  mul_zero : ∀ x, PositiveFinite x → math.mul x 0 = 0
  mul_one : ∀ x, PositiveFinite x → NonzeroFinite (math.mul x f32One)
  mul_negOne : ∀ x, PositiveFinite x → NonzeroFinite (math.mul x f32NegOne)

/-- Zeros and at most two other numbers add up to the same in every order. -/
theorem addsUpAlike_of_two_nonzero {math : BasisMath} (hmath : math.SingleLaws)
    {summands : List F32} (hfinite : ∀ x ∈ summands, x ≠ 0 → NonzeroFinite x)
    (htwo : (summands.filter (· ≠ 0)).length ≤ 2) : AddsUpAlike math.add summands := by
  have hzero : ∀ x, NonzeroFinite x → math.add 0 x = x := fun x hx => by
    rw [hmath.add_comm, hmath.add_zero x hx]
  have hfilter : ∀ l : List F32, l.Perm summands →
      l.foldl math.add 0 = (l.filter (· ≠ 0)).foldl math.add 0 := by
    intro l hl
    have hlen : (l.filter (· ≠ 0)).length ≤ 2 := (hl.filter _).length_eq ▸ htwo
    have hall : ∀ x ∈ l.filter (· ≠ 0), NonzeroFinite x := fun x hx =>
      hfinite x (hl.mem_iff.mp (List.mem_of_mem_filter hx)) (by simpa using List.of_mem_filter hx)
    refine foldl_add_filter fun pre hpre => ?_
    have hpreLen := hpre.length_le.trans hlen
    have hpreAll : ∀ x ∈ pre, NonzeroFinite x := fun x hx => hall x (hpre.subset hx)
    cases pre with
    | nil => exact hmath.zero_add
    | cons x pre =>
      have hx := hpreAll x List.mem_cons_self
      cases pre with
      | nil =>
        rw [List.foldl_cons, List.foldl_nil, hzero x hx]
        exact hmath.add_zero x hx
      | cons y pre =>
        have hy := hpreAll y (List.mem_cons_of_mem _ List.mem_cons_self)
        obtain rfl : pre = [] := by
          rw [List.length_cons, List.length_cons] at hpreLen
          exact List.length_eq_zero_iff.mp (by omega)
        rw [List.foldl_cons, List.foldl_cons, List.foldl_nil, hzero x hx]
        exact hmath.add_add_zero x y hx hy
  intro l hl
  rw [hfilter l hl, hfilter summands (List.Perm.refl _)]
  refine addsUpAlike_of_two hmath.add_comm (fun x hx => hzero x (hfinite x ?_ ?_)) htwo _
    (hl.filter _)
  · exact List.mem_of_mem_filter hx
  · simpa using List.of_mem_filter hx

section IndexPlaces

variable {math : BasisMath} {sub : CorpusSubstrate}

variable (math sub) in
/-- The places drawn for the index vector of a term. -/
def indexPlaces (term : String) : List Nat :=
  (List.range riNonzeros).map fun i =>
    (math.splitMix (math.hash64 (lowered sub term)) (2 * i)).toNat % riDimension

/-- Away from the drawn places an index vector is zero; there it is one or minus one. -/
theorem riIndexVector_getD (term : String) (d : Nat) :
    (riIndexVector math sub term).getD d 0 = 0 ∨ d ∈ indexPlaces math sub term ∧
      ((riIndexVector math sub term).getD d 0 = f32One ∨
        (riIndexVector math sub term).getD d 0 = f32NegOne) := by
  rw [riIndexVector]
  dsimp only
  refine List.foldlRecOn (motive := fun vec : List F32 => vec.getD d 0 = 0 ∨
    d ∈ indexPlaces math sub term ∧ (vec.getD d 0 = f32One ∨ vec.getD d 0 = f32NegOne)) _ _
    (Or.inl ?_) fun vec hvec i hi => ?_
  · rw [List.getD_eq_getElem?_getD, List.getElem?_replicate]
    split <;> rfl
  · rw [List.getD_eq_getElem?_getD, List.getElem?_set]
    split
    next hpos =>
      split
      next =>
        refine Or.inr ⟨List.mem_map.mpr ⟨i, hi, hpos⟩, ?_⟩
        rw [Option.getD_some]
        split
        next => exact Or.inl rfl
        next => exact Or.inr rfl
      next => exact Or.inl rfl
    next =>
      rw [← List.getD_eq_getElem?_getD]
      exact hvec

end IndexPlaces

/-- The orders in which the two levels of the co-occurrence map are gone through. -/
structure EnumerationOrders where
  targets : IterationOrder (String × TermMap Nat)
  contexts : String → IterationOrder (String × Nat)

namespace PpmiProvider

variable (math : BasisMath) (sub : CorpusSubstrate)

/-- `finalize` with both orders left open. -/
def finalizeIn (orders : EnumerationOrders) (p : PpmiProvider) : PpmiProvider :=
  if p.totalPairs = 0 ∨ p.totalTerms = 0 then p
  else
    { p with
      ppmiVectors := (orders.targets.run p.coCount.entries).foldl (fun vectors target =>
        let tc := (p.termCount.get? target.1).getD 0
        if tc = 0 then vectors
        else
          let logPt := math.ln (math.div (math.ofNat tc) (math.ofNat p.totalTerms))
          let (vec, hasNonzero) := ((orders.contexts target.1).run target.2.entries).foldl
            (weigh math sub p.toPpmiCounts logPt) (List.replicate ppmiDimension 0, false)
          if hasNonzero then vectors.insert target.1 vec else vectors) .empty }

theorem finalizeIn_stored (contexts : String → IterationOrder (String × Nat)) (p : PpmiProvider) :
    p.finalizeIn math sub ⟨.stored, contexts⟩ =
      p.finalize math sub fun target => (contexts target).run := rfl

/-- The weight of a context of the target, if it has one. -/
def weightOf (counts : PpmiCounts) (logPt : F32) (context : String × Nat) : Option F32 :=
  let cc := (counts.termCount.get? context.1).getD 0
  if context.2 = 0 ∨ cc = 0 then none
  else
    let logPc := math.ln (math.div (math.ofNat cc) (math.ofNat counts.totalTerms))
    let logPtc := math.ln (math.div (math.ofNat context.2) (math.ofNat counts.totalPairs))
    let weight := math.max (math.sub (math.sub logPtc logPt) logPc) 0
    if math.isZero weight then none else some weight

/-- What the context adds to the target's vector at `d`. -/
def summandAt (counts : PpmiCounts) (logPt : F32) (d : Nat) (context : String × Nat) :
    Option F32 :=
  (weightOf math counts logPt context).map fun weight =>
    math.mul weight ((riIndexVector math sub context.1).getD d 0)

def logPt (counts : PpmiCounts) (target : String) : F32 :=
  math.ln (math.div (math.ofNat ((counts.termCount.get? target).getD 0))
    (math.ofNat counts.totalTerms))

/-- The numbers that are added up at `d`. -/
def summands (counts : PpmiCounts) (target : String) (contexts : List (String × Nat)) (d : Nat) :
    List F32 :=
  contexts.filterMap (summandAt math sub counts (logPt math counts target) d)

/-- For every target that was counted, and at every place of its vector, what its contexts add
up to does not depend on their order. -/
def SumsAlike (counts : PpmiCounts) : Prop :=
  counts.totalPairs ≠ 0 → counts.totalTerms ≠ 0 → ∀ target ∈ counts.coCount.entries,
    (counts.termCount.get? target.1).getD 0 ≠ 0 → ∀ d < ppmiDimension,
      AddsUpAlike math.add (summands math sub counts target.1 target.2.entries d)

variable {math sub} {counts : PpmiCounts}

/-- The fold over the contexts, as what the weights do. -/
theorem weigh_eq (logPt : F32) (acc : List F32 × Bool) (context : String × Nat) :
    weigh math sub counts logPt acc context =
      match weightOf math counts logPt context with
      | none => acc
      | some weight => (List.zipWith (fun a x => math.add a (math.mul weight x)) acc.1
          (riIndexVector math sub context.1), true) := by
  unfold weigh weightOf
  dsimp only
  split
  next => rfl
  next =>
    split
    next => rfl
    next => rfl

theorem length_foldl_weigh {logPt : F32} {contexts : List (String × Nat)}
    {acc : List F32 × Bool} (hacc : acc.1.length = ppmiDimension) :
    (contexts.foldl (weigh math sub counts logPt) acc).1.length = ppmiDimension := by
  refine List.foldlRecOn (motive := fun acc : List F32 × Bool => acc.1.length = ppmiDimension)
    _ _ hacc fun acc hacc context _ => ?_
  rw [weigh_eq]
  split
  next => exact hacc
  next =>
    rw [List.length_zipWith, hacc, length_riIndexVector]
    exact Nat.min_self _

/-- At one place, the fold adds up the summands. -/
theorem getElem?_foldl_weigh {logPt : F32} {contexts : List (String × Nat)} {d : Nat}
    {acc : List F32 × Bool} {x : F32} (hacc : acc.1.length = ppmiDimension)
    (hd : d < ppmiDimension) (hx : acc.1[d]? = some x) :
    (contexts.foldl (weigh math sub counts logPt) acc).1[d]? =
      some ((contexts.filterMap (summandAt math sub counts logPt d)).foldl math.add x) := by
  induction contexts generalizing acc x with
  | nil => exact hx
  | cons context contexts ih =>
    have hstep : (weigh math sub counts logPt acc context).1.length = ppmiDimension :=
      @length_foldl_weigh math sub counts logPt [context] acc hacc
    rw [List.foldl_cons]
    have hweigh := @weigh_eq math sub counts logPt acc context
    cases hweight : weightOf math counts logPt context with
    | none =>
      rw [hweight] at hweigh
      rw [hweigh, List.filterMap_cons_none (by rw [summandAt, hweight]; rfl)]
      exact ih hacc hx
    | some weight =>
      have hsummand : summandAt math sub counts logPt d context =
          some (math.mul weight ((riIndexVector math sub context.1).getD d 0)) := by
        rw [summandAt, hweight]
        rfl
      rw [List.filterMap_cons_some hsummand, List.foldl_cons]
      refine ih hstep ?_
      have hlen : d < (riIndexVector math sub context.1).length := by
        rw [length_riIndexVector]
        exact hd
      rw [hweight] at hweigh
      rw [hweigh, List.getElem?_zipWith, hx, List.getElem?_eq_getElem hlen,
        List.getD_eq_getElem _ _ hlen]

theorem hasNonzero_foldl_weigh {logPt : F32} {contexts : List (String × Nat)}
    {acc : List F32 × Bool} : (contexts.foldl (weigh math sub counts logPt) acc).2 =
      (acc.2 || contexts.any fun context => (weightOf math counts logPt context).isSome) := by
  induction contexts generalizing acc with
  | nil => exact (Bool.or_false _).symm
  | cons context contexts ih =>
    rw [List.foldl_cons, ih, weigh_eq, List.any_cons]
    cases weightOf math counts logPt context with
    | none => simp
    | some weight => simp

variable (math sub counts) in
/-- The vector of a target whose contexts are gone through in this order, if it gets one. -/
def targetVector (target : String) (contexts : List (String × Nat)) : Option (List F32) :=
  if (counts.termCount.get? target).getD 0 = 0 then none
  else
    let (vec, hasNonzero) := contexts.foldl (weigh math sub counts (logPt math counts target))
      (List.replicate ppmiDimension 0, false)
    if hasNonzero then some vec else none

/-- At every place stands the sum of the summands there. -/
theorem targetVector_some {target : String} {contexts : List (String × Nat)} {vec : List F32}
    (h : targetVector math sub counts target contexts = some vec) :
    vec.length = ppmiDimension ∧ ∀ d < ppmiDimension,
      vec[d]? = some ((summands math sub counts target contexts d).foldl math.add 0) := by
  have hstart : (List.replicate ppmiDimension (0 : F32)).length = ppmiDimension :=
    List.length_replicate
  unfold targetVector at h
  split at h
  next => cases h
  next =>
    dsimp only at h
    split at h
    next =>
      cases h
      refine ⟨length_foldl_weigh hstart, fun d hd => getElem?_foldl_weigh hstart hd ?_⟩
      exact List.getElem?_replicate_of_lt hd
    next => cases h

/-- A target has a vector if it was counted and one of its contexts has a weight. -/
theorem isSome_targetVector {target : String} {contexts : List (String × Nat)} :
    (targetVector math sub counts target contexts).isSome ↔
      (counts.termCount.get? target).getD 0 ≠ 0 ∧
        ∃ context ∈ contexts,
          (weightOf math counts (logPt math counts target) context).isSome := by
  unfold targetVector
  split
  next hzero => simp [hzero]
  next hcounted =>
    dsimp only
    rw [hasNonzero_foldl_weigh, Bool.false_or]
    split
    next hany => exact iff_of_true rfl ⟨hcounted, List.any_eq_true.mp hany⟩
    next hnone =>
      refine iff_of_false (by simp) fun h => hnone (List.any_eq_true.mpr h.2)

/-- Orders whose sums agree give one vector. -/
theorem targetVector_eq {target : String} {contexts contexts' : List (String × Nat)}
    (hperm : contexts.Perm contexts') (h : (counts.termCount.get? target).getD 0 ≠ 0 →
      ∀ d < ppmiDimension, (summands math sub counts target contexts d).foldl math.add 0 =
        (summands math sub counts target contexts' d).foldl math.add 0) :
    targetVector math sub counts target contexts =
      targetVector math sub counts target contexts' := by
  have hsome : (targetVector math sub counts target contexts).isSome ↔
      (targetVector math sub counts target contexts').isSome := by
    rw [isSome_targetVector, isSome_targetVector]
    exact and_congr_right fun _ => exists_congr fun context => and_congr_left' hperm.mem_iff
  cases hvec : targetVector math sub counts target contexts with
  | none =>
    rw [hvec] at hsome
    exact (Option.not_isSome_iff_eq_none.mp (fun h => by simpa using hsome.mpr h)).symm
  | some vec =>
    have hcounted := (isSome_targetVector.mp (hvec ▸ rfl :
      (targetVector math sub counts target contexts).isSome)).1
    obtain ⟨vec', hvec'⟩ := Option.isSome_iff_exists.mp (hsome.mp (hvec ▸ rfl))
    obtain ⟨hlen, hat⟩ := targetVector_some hvec
    obtain ⟨hlen', hat'⟩ := targetVector_some hvec'
    rw [hvec', Option.some.injEq]
    refine List.ext_getElem? fun d => ?_
    by_cases hd : d < ppmiDimension
    · rw [hat d hd, hat' d hd, h hcounted d hd]
    · rw [List.getElem?_eq_none (by omega), List.getElem?_eq_none (by omega)]

variable {p : PpmiProvider}

/-- The vector of a term depends on the order of its own contexts alone. -/
theorem get?_finalizeIn (orders : EnumerationOrders) (hpairs : p.totalPairs ≠ 0)
    (hterms : p.totalTerms ≠ 0) (term : String) :
    (p.finalizeIn math sub orders).ppmiVectors.get? term =
      (p.coCount.get? term).bind fun contexts => targetVector math sub p.toPpmiCounts term
        ((orders.contexts term).run contexts.entries) := by
  have hstep : (p.finalizeIn math sub orders).ppmiVectors =
      ((orders.targets.run p.coCount.entries).filterMap fun target =>
        (targetVector math sub p.toPpmiCounts target.1
          ((orders.contexts target.1).run target.2.entries)).map (Prod.mk target.1)).foldl
            (fun vectors entry => vectors.insert entry.1 entry.2) .empty := by
    unfold finalizeIn
    rw [if_neg (not_or.mpr ⟨hpairs, hterms⟩), List.foldl_filterMap]
    refine congrArg (fun step => List.foldl step _ _) (funext fun vectors => funext fun target => ?_)
    unfold targetVector
    dsimp only
    split
    next => rfl
    next =>
      have hlog : logPt math p.toPpmiCounts target.1 = math.ln (math.div (math.ofNat
        ((p.termCount.get? target.1).getD 0)) (math.ofNat p.totalTerms)) := rfl
      rw [← hlog]
      generalize ((orders.contexts target.1).run target.2.entries).foldl
        (weigh math sub p.toPpmiCounts (logPt math p.toPpmiCounts target.1))
        (List.replicate ppmiDimension 0, false) = run
      obtain ⟨vec, hasNonzero⟩ := run
      cases hasNonzero with
      | false => rfl
      | true => rfl
  have hkeys : (((orders.targets.run p.coCount.entries).filterMap fun target =>
      (targetVector math sub p.toPpmiCounts target.1
        ((orders.contexts target.1).run target.2.entries)).map (Prod.mk target.1)).map
          Prod.fst).Nodup := by
    refine nodup_map_filterMap (fun target entry hentry => ?_)
      (((orders.targets.perm _).map Prod.fst).nodup_iff.mpr OrderedMap.nodup_keys)
    obtain ⟨vec, _, rfl⟩ := Option.map_eq_some_iff.mp hentry
    rfl
  refine Option.ext fun vec => ?_
  rw [hstep, OrderedMap.get?_foldl_insert utf8Rank_injective hkeys, Option.bind_eq_some_iff]
  constructor
  · rintro (⟨⟨t, v⟩, hentry, rfl, rfl⟩ | ⟨_, hempty⟩)
    · obtain ⟨⟨target, contexts⟩, htarget, hvec⟩ := List.mem_filterMap.mp hentry
      obtain ⟨v', hv', heq⟩ := Option.map_eq_some_iff.mp hvec
      cases heq
      refine ⟨contexts, (OrderedMap.get?_eq_some_iff utf8Rank_injective).mpr ?_, hv'⟩
      exact (orders.targets.perm _).mem_iff.mp htarget
    · cases hempty
  · rintro ⟨contexts, hcontexts, hvec⟩
    refine Or.inl ⟨(term, vec), List.mem_filterMap.mpr ⟨(term, contexts), ?_, ?_⟩, rfl, rfl⟩
    · exact (orders.targets.perm _).mem_iff.mpr
        ((OrderedMap.get?_eq_some_iff utf8Rank_injective).mp hcontexts)
    · rw [hvec]
      rfl

variable (math sub) in
/-- The pass leaves the same vectors, and the same blob, in whatever order the maps are gone
through. -/
def TrainsAlike (p : PpmiProvider) : Prop :=
  ∀ orders orders' : EnumerationOrders,
    (p.finalizeIn math sub orders).ppmiVectors = (p.finalizeIn math sub orders').ppmiVectors ∧
      (p.finalizeIn math sub orders).serializeBasis =
        (p.finalizeIn math sub orders').serializeBasis

/-- Nothing but the vectors depends on the orders. -/
theorem finalizeIn_congr {orders orders' : EnumerationOrders}
    (h : (p.finalizeIn math sub orders).ppmiVectors =
      (p.finalizeIn math sub orders').ppmiVectors) :
    p.finalizeIn math sub orders = p.finalizeIn math sub orders' := by
  have hrest : ∀ orders : EnumerationOrders, p.finalizeIn math sub orders =
      { p with ppmiVectors := (p.finalizeIn math sub orders).ppmiVectors } := by
    intro orders
    unfold finalizeIn
    split
    next => rfl
    next => rfl
  rw [hrest orders, hrest orders', h]

theorem trainsAlike_of_sumsAlike (h : SumsAlike math sub p.toPpmiCounts) :
    p.TrainsAlike math sub := by
  intro orders orders'
  have hvectors : (p.finalizeIn math sub orders).ppmiVectors =
      (p.finalizeIn math sub orders').ppmiVectors := by
    by_cases htotals : p.totalPairs = 0 ∨ p.totalTerms = 0
    · rw [finalizeIn, if_pos htotals, finalizeIn, if_pos htotals]
    · obtain ⟨hpairs, hterms⟩ := not_or.mp htotals
      refine OrderedMap.ext_get? utf8Rank_injective fun term => ?_
      rw [get?_finalizeIn orders hpairs hterms, get?_finalizeIn orders' hpairs hterms]
      cases hcontexts : p.coCount.get? term with
      | none => rfl
      | some contexts =>
        have hentry := (OrderedMap.get?_eq_some_iff utf8Rank_injective).mp hcontexts
        have hperm := (orders.contexts term).perm contexts.entries
        have hperm' := (orders'.contexts term).perm contexts.entries
        refine targetVector_eq (hperm.trans hperm'.symm) fun hcounted d hd => ?_
        have halike := h hpairs hterms _ hentry hcounted d hd
        exact (halike _ (hperm.filterMap _)).trans (halike _ (hperm'.filterMap _)).symm
  exact ⟨hvectors, congrArg serializeBasis (finalizeIn_congr hvectors)⟩

theorem sumsAlike_of_trainsAlike (h : p.TrainsAlike math sub) :
    SumsAlike math sub p.toPpmiCounts := by
  intro hpairs hterms target htarget hcounted d hd l hl
  obtain ⟨contexts, hperm, rfl⟩ := exists_perm_filterMap hl
  -- One order goes through the contexts as they are stored, the other as the sum does.
  let reordered : IterationOrder (String × Nat) :=
    ⟨fun entries => if entries = target.2.entries then contexts else entries, fun entries => by
      split
      next heq => exact heq ▸ hperm
      next => exact List.Perm.refl entries⟩
  have hvectors := congrArg (fun vectors => vectors.get? target.1)
    (h ⟨.stored, fun _ => reordered⟩ ⟨.stored, fun _ => .stored⟩).1
  have hget := (OrderedMap.get?_eq_some_iff utf8Rank_injective).mpr htarget
  rw [get?_finalizeIn _ hpairs hterms, get?_finalizeIn _ hpairs hterms, hget, Option.bind_some,
    Option.bind_some] at hvectors
  have hreordered : reordered.run target.2.entries = contexts := if_pos rfl
  rw [show (IterationOrder.stored.run target.2.entries) = target.2.entries from rfl,
    hreordered] at hvectors
  cases hvec : targetVector math sub p.toPpmiCounts target.1 contexts with
  | none =>
    -- Without a weight there is nothing to add up.
    have hnone : contexts.filterMap (summandAt math sub p.toPpmiCounts
        (logPt math p.toPpmiCounts target.1) d) = [] := by
      refine List.filterMap_eq_nil_iff.mpr fun context hcontext => ?_
      have hweight : weightOf math p.toPpmiCounts (logPt math p.toPpmiCounts target.1) context =
          none := by
        by_contra hsome
        have hvecSome : (targetVector math sub p.toPpmiCounts target.1 contexts).isSome :=
          isSome_targetVector.mpr
            ⟨hcounted, context, hcontext, Option.isSome_iff_ne_none.mpr hsome⟩
        rw [hvec] at hvecSome
        cases hvecSome
      rw [summandAt, hweight]
      rfl
    have hperm' := hperm.filterMap (summandAt math sub p.toPpmiCounts
      (logPt math p.toPpmiCounts target.1) d)
    rw [hnone] at hperm' ⊢
    rw [summands, List.nil_perm.mp hperm']
  | some vec =>
    rw [hvec] at hvectors
    have hat := (targetVector_some hvec).2 d hd
    have hat' := (targetVector_some hvectors.symm).2 d hd
    exact Option.some.inj (hat.symm.trans hat')

variable (math sub) in
/-- What training on documents leaves, each as its terms and a window. -/
def trainedOn (modelId modelVersion : String) (projectionSeed : UInt64)
    (docs : List (List String × Nat)) : PpmiProvider :=
  docs.foldl (fun p doc => p.train sub doc.1 doc.2)
    (withParameters modelId modelVersion projectionSeed)

/-- Training depends on the documents alone exactly if no sum depends on its order. -/
theorem trainsAlike_iff (math : BasisMath) (sub : CorpusSubstrate) (modelId modelVersion : String)
    (projectionSeed : UInt64) (docs : List (List String × Nat)) :
    (trainedOn sub modelId modelVersion projectionSeed docs).TrainsAlike math sub ↔
      SumsAlike math sub (trainedOn sub modelId modelVersion projectionSeed docs).toPpmiCounts :=
  ⟨sumsAlike_of_trainsAlike, trainsAlike_of_sumsAlike⟩

variable (math sub counts) in
/-- The contexts of a target that are above chance and have a number at `d`. -/
def contextsAt (target : String) (contexts : List (String × Nat)) (d : Nat) :
    List (String × Nat) :=
  contexts.filter fun context =>
    (weightOf math counts (logPt math counts target) context).isSome &&
      decide (d ∈ indexPlaces math sub context.1)

variable (math sub counts) in
/-- No three contexts of a counted target that are above chance meet at a place. -/
def MeetInPairs : Prop :=
  ∀ target ∈ counts.coCount.entries, (counts.termCount.get? target.1).getD 0 ≠ 0 →
    ∀ d < ppmiDimension, (contextsAt math sub counts target.1 target.2.entries d).length ≤ 2

variable (math counts) in
/-- The weights are finite. -/
def WeightsFinite : Prop :=
  ∀ target ∈ counts.coCount.entries, ∀ context ∈ target.2.entries, ∀ weight,
    weightOf math counts (logPt math counts target.1) context = some weight → PositiveFinite weight

/-- What a context adds is zero, or it has a number at the place. -/
theorem summandAt_cases (hmath : math.SingleLaws) {logPt : F32} {d : Nat} {context : String × Nat}
    {x : F32} (hfinite : ∀ weight, weightOf math counts logPt context = some weight →
      PositiveFinite weight) (h : summandAt math sub counts logPt d context = some x) :
    (weightOf math counts logPt context).isSome ∧
      (x = 0 ∨ d ∈ indexPlaces math sub context.1 ∧ NonzeroFinite x) := by
  obtain ⟨weight, hweight, rfl⟩ := Option.map_eq_some_iff.mp h
  have hpos := hfinite weight hweight
  refine ⟨hweight ▸ rfl, ?_⟩
  rcases @riIndexVector_getD math sub context.1 d with hzero | ⟨hplace, hone | hneg⟩
  · rw [hzero]
    exact Or.inl (hmath.mul_zero weight hpos)
  · rw [hone]
    exact Or.inr ⟨hplace, hmath.mul_one weight hpos⟩
  · rw [hneg]
    exact Or.inr ⟨hplace, hmath.mul_negOne weight hpos⟩

theorem length_summands_le (hmath : math.SingleLaws) {target : String}
    {contexts : List (String × Nat)} {d : Nat} (hfinite : ∀ context ∈ contexts, ∀ weight,
      weightOf math counts (logPt math counts target) context = some weight →
        PositiveFinite weight) :
    ((summands math sub counts target contexts d).filter (· ≠ 0)).length ≤
      (contextsAt math sub counts target contexts d).length := by
  have honly : (summands math sub counts target contexts d).filter (· ≠ 0) =
      (contextsAt math sub counts target contexts d).filterMap fun context =>
        (summandAt math sub counts (logPt math counts target) d context).filter (· ≠ 0) := by
    rw [summands, contextsAt, List.filter_filterMap, List.filterMap_filter]
    refine List.filterMap_congr fun context hcontext => ?_
    split
    next => rfl
    next hnot =>
      rw [Option.filter_eq_none_iff]
      intro x hx hne
      obtain ⟨hweight, hcases⟩ := summandAt_cases hmath (hfinite context hcontext) hx
      have hplace := (hcases.resolve_left (by simpa using hne)).1
      exact hnot (by simp [hweight, hplace])
  rw [honly]
  exact List.length_filterMap_le _ _

theorem sumsAlike_of_meetInPairs (hmath : math.SingleLaws) (hfinite : WeightsFinite math counts)
    (hpairs : MeetInPairs math sub counts) : SumsAlike math sub counts := by
  intro _ _ target htarget hcounted d hd
  have hweights := hfinite target htarget
  refine addsUpAlike_of_two_nonzero hmath (fun x hx hne => ?_)
    ((length_summands_le hmath hweights).trans (hpairs target htarget hcounted d hd))
  obtain ⟨context, hcontext, hsummand⟩ := List.mem_filterMap.mp hx
  exact ((summandAt_cases hmath (hweights context hcontext) hsummand).2.resolve_left hne).2

/-- Only the places that a context draws need a look. -/
theorem length_contextsAt_le {target : String} {contexts : List (String × Nat)}
    (h : ∀ d ∈ contexts.flatMap fun context => indexPlaces math sub context.1,
      (contextsAt math sub counts target contexts d).length ≤ 2) (d : Nat) :
    (contextsAt math sub counts target contexts d).length ≤ 2 := by
  cases hcontexts : contextsAt math sub counts target contexts d with
  | nil => exact Nat.zero_le _
  | cons context rest =>
    have hmem : context ∈ contextsAt math sub counts target contexts d :=
      hcontexts ▸ List.mem_cons_self
    obtain ⟨hin, hplace⟩ := List.mem_filter.mp hmem
    rw [← hcontexts]
    refine h d (List.mem_flatMap.mpr ⟨context, hin, ?_⟩)
    simpa using (Bool.and_eq_true_iff.mp hplace).2

end PpmiProvider

namespace SingleFloat

/-- The quotient, rounded to the nearer number, and to the even one in between. -/
def halfEven (a d : Nat) : Nat :=
  if d < 2 * (a % d) ∨ 2 * (a % d) = d ∧ a / d % 2 = 1 then a / d + 1 else a / d

/-- The float nearest to `m * 2 ^ e`, for numbers of normal size. -/
def round (m e : Int) : F32 :=
  if m = 0 then 0
  else
    let shift : Int := (m.natAbs.log2 : Int) - 23
    let significand := if shift ≤ 0 then m.natAbs * 2 ^ (-shift).toNat
      else halfEven m.natAbs (2 ^ shift.toNat)
    UInt32.ofNat ((if m < 0 then 2 ^ 31 else 0) + (e + shift + 150).toNat * 2 ^ 23 +
      (significand - 2 ^ 23))

/-- A finite float as a whole number and a power of two. -/
def parts (x : F32) : Int × Int :=
  let exponent : Nat := x.toNat / 2 ^ 23 % 256
  let fraction : Nat := x.toNat % 2 ^ 23
  let m : Nat := if exponent = 0 then fraction else 2 ^ 23 + fraction
  (if 2 ^ 31 ≤ x.toNat then -(m : Int) else m, if exponent = 0 then -149 else exponent - 150)

def add (x y : F32) : F32 :=
  let base := min (parts x).2 (parts y).2
  round ((parts x).1 * 2 ^ ((parts x).2 - base).toNat +
    (parts y).1 * 2 ^ ((parts y).2 - base).toNat) base

theorem add_comm (x y : F32) : add x y = add y x := by
  unfold add
  dsimp only
  rw [min_comm, Int.add_comm]

def sub (x y : F32) : F32 := add x (y ^^^ 0x80000000)

def mul (x y : F32) : F32 := round ((parts x).1 * (parts y).1) ((parts x).2 + (parts y).2)

def div (x y : F32) : F32 :=
  let n := (parts x).1.natAbs * 2 ^ 64
  let d := (parts y).1.natAbs
  let q : Int := 2 * (n / d) + if n % d = 0 then 0 else 1
  round ((parts x).1.sign * (parts y).1.sign * q) ((parts x).2 - (parts y).2 - 65)

def lt (x y : F32) : Bool :=
  let base := min (parts x).2 (parts y).2
  decide ((parts x).1 * 2 ^ ((parts x).2 - base).toNat <
    (parts y).1 * 2 ^ ((parts y).2 - base).toNat)

/-- Addition with its zeros written out. -/
def addZeros (x y : F32) : F32 := if y = 0 then x else if x = 0 then y else add x y

/-- Multiplication with its zero and units written out. -/
def mulUnits (x y : F32) : F32 :=
  if y = 0 then 0
  else if y = f32One then x
  else if y = f32NegOne then x ^^^ 0x80000000
  else mul x y

theorem addZeros_zero (x : F32) : addZeros x 0 = x := if_pos rfl

theorem addZeros_comm (x y : F32) : addZeros x y = addZeros y x := by
  unfold addZeros
  by_cases hx : x = 0
  · by_cases hy : y = 0
    · rw [if_pos hy, if_pos hx, hx, hy]
    · rw [if_neg hy, if_pos hx, if_pos hx]
  · rw [if_neg hx, if_neg hx, add_comm]

end SingleFloat

/-- FNV-1a over the bytes of a string. -/
def fnv1a (s : String) : UInt64 :=
  (strBytes s).foldl (fun hash b => (hash ^^^ b.toUInt64) * 0x100000001b3) 0xcbf29ce484222325

/-- The `k`-th draw of SplitMix64. -/
def splitMix64 (seed : UInt64) (k : Nat) : UInt64 :=
  let z := seed + UInt64.ofNat (k + 1) * 0x9E3779B97F4A7C15
  let z := (z ^^^ (z >>> 30)) * 0xBF58476D1CE4E5B9
  let z := (z ^^^ (z >>> 27)) * 0x94D049BB133111EB
  z ^^^ (z >>> 31)

/-- Hashing, drawing and rounding as the machine does them; the logarithm is known at four
fractions. -/
def singleMath : BasisMath :=
  { referenceMath with
    hash64 := fnv1a
    splitMix := splitMix64
    ofNat := fun n => SingleFloat.round n 0
    add := SingleFloat.add
    sub := SingleFloat.sub
    mul := SingleFloat.mul
    div := SingleFloat.div
    ln := fun x =>
      if x = 0x3e124925 then 0xbff91395
      else if x = 0x3e924925 then 0xbfa05a89
      else if x = 0x3edb6db7 then 0xbf58e883
      else if x = 0x3daaaaab then 0xc01f08b6
      else 0
    max := fun x y => if SingleFloat.lt x y then y else x
    lt := SingleFloat.lt
    isZero := fun x => x = 0 || x = 0x80000000 }

/-- As the machine computes, with the cases that the laws speak of written out. -/
def lawfulMath : BasisMath :=
  { singleMath with
    add := SingleFloat.addZeros
    mul := SingleFloat.mulUnits }

theorem singleLaws_lawfulMath : lawfulMath.SingleLaws where
  add_comm := SingleFloat.addZeros_comm
  zero_add := SingleFloat.addZeros_zero 0
  add_zero := fun x _ => SingleFloat.addZeros_zero x
  add_add_zero := fun x y _ _ => SingleFloat.addZeros_zero (SingleFloat.addZeros x y)
  mul_zero := fun x _ => by
    show SingleFloat.mulUnits x 0 = 0
    rw [SingleFloat.mulUnits, if_pos rfl]
  mul_one := fun x hx => by
    show NonzeroFinite (SingleFloat.mulUnits x f32One)
    rw [SingleFloat.mulUnits, if_neg (by decide), if_pos rfl]
    exact Or.inl hx
  mul_negOne := fun x hx => by
    show NonzeroFinite (SingleFloat.mulUnits x f32NegOne)
    rw [SingleFloat.mulUnits, if_neg (by decide), if_neg (by decide), if_pos rfl]
    refine Or.inr ?_
    rwa [UInt32.xor_assoc, UInt32.xor_self, UInt32.xor_zero]

namespace PpmiProvider

/-- Training depends on the documents alone where no three contexts of a target that are above
chance meet at a place: no sum is then long enough for its order to matter. -/
theorem trainsAlike_of_meetInPairs {math : BasisMath} (hmath : math.SingleLaws)
    (sub : CorpusSubstrate) (modelId modelVersion : String) (projectionSeed : UInt64)
    (docs : List (List String × Nat))
    (hfinite : WeightsFinite math
      (trainedOn sub modelId modelVersion projectionSeed docs).toPpmiCounts)
    (hpairs : MeetInPairs math sub
      (trainedOn sub modelId modelVersion projectionSeed docs).toPpmiCounts) :
    (trainedOn sub modelId modelVersion projectionSeed docs).TrainsAlike math sub :=
  trainsAlike_of_sumsAlike (sumsAlike_of_meetInPairs hmath hfinite hpairs)

/-- One document of four terms, and three of a term each: two of the terms meet at a place. -/
def pairedDocuments : List (List String × Nat) :=
  [(["pet", "cow", "rose", "hen"], 4), (["rose"], 4), (["hen"], 4), (["hen"], 4)]

def pairedTrained : PpmiProvider := trainedOn referenceCorpus "ppmi-v1" "1.0.0" 0 pairedDocuments

theorem trainsAlike_of_meetInPairs_paired :
    ((pairedTrained.coCount.get? "pet").map fun contexts =>
        (contextsAt lawfulMath referenceCorpus pairedTrained.toPpmiCounts "pet" contexts.entries
          1311).length) = some 2 ∧
      pairedTrained.TrainsAlike lawfulMath referenceCorpus := by
  have hfinite : ∀ target ∈ pairedTrained.toPpmiCounts.coCount.entries,
      ∀ context ∈ target.2.entries, (weightOf lawfulMath pairedTrained.toPpmiCounts
        (logPt lawfulMath pairedTrained.toPpmiCounts target.1) context).all
          (fun weight => decide (PositiveFinite weight)) := by
    decide +kernel
  have hplaces : ∀ target ∈ pairedTrained.toPpmiCounts.coCount.entries,
      ∀ d ∈ target.2.entries.flatMap fun context =>
          indexPlaces lawfulMath referenceCorpus context.1,
        (contextsAt lawfulMath referenceCorpus pairedTrained.toPpmiCounts target.1
          target.2.entries d).length ≤ 2 := by
    decide +kernel
  have hweights : WeightsFinite lawfulMath pairedTrained.toPpmiCounts := by
    intro target htarget context hcontext weight hweight
    have hall := hfinite target htarget context hcontext
    rw [hweight, Option.all_some] at hall
    exact of_decide_eq_true hall
  refine ⟨by decide +kernel, ?_⟩
  exact trainsAlike_of_meetInPairs singleLaws_lawfulMath referenceCorpus "ppmi-v1" "1.0.0" 0
    pairedDocuments hweights fun target htarget _ d _ => length_contextsAt_le (hplaces target htarget) d

/-- As before with another fourth term. -/
def fourDocuments : List (List String × Nat) :=
  [(["pet", "cow", "rose", "tick"], 4), (["rose"], 4), (["tick"], 4), (["tick"], 4)]

def fourTrained : PpmiProvider := trainedOn referenceCorpus "ppmi-v1" "1.0.0" 0 fourDocuments

/-- The three contexts of the first term meet at one place. -/
theorem summands_fourTrained :
    (fourTrained.coCount.get? "pet").map (fun contexts =>
      summands singleMath referenceCorpus fourTrained.toPpmiCounts "pet" contexts.entries 1311) =
        some [0x3fb415be, 0xbf36b964, 0xbe9dd9aa] := by
  decide +kernel

/-- There, the last bits of the sum tell in which order it was taken. -/
theorem not_trainsAlike :
    ¬∀ (math : BasisMath) (sub : CorpusSubstrate) (modelId modelVersion : String)
      (projectionSeed : UInt64) (docs : List (List String × Nat)),
      (∀ x y, math.add x y = math.add y x) →
        (trainedOn sub modelId modelVersion projectionSeed docs).TrainsAlike math sub := by
  intro h
  have hsums : SumsAlike singleMath referenceCorpus fourTrained.toPpmiCounts :=
    sumsAlike_of_trainsAlike (h singleMath referenceCorpus _ _ _ _ SingleFloat.add_comm)
  obtain ⟨contexts, hget, hsummands⟩ := Option.map_eq_some_iff.mp summands_fourTrained
  have hcounted : (fourTrained.termCount.get? "pet").getD 0 ≠ 0 := by decide +kernel
  have halike := hsums (by decide +kernel) (by decide +kernel) ("pet", contexts)
    ((OrderedMap.get?_eq_some_iff utf8Rank_injective).mp hget) hcounted 1311 (by decide)
  rw [hsummands] at halike
  have hsum := halike [0x3fb415be, 0xbe9dd9aa, 0xbf36b964] (by decide)
  exact absurd hsum (by decide +kernel)

end PpmiProvider

end MootMemory
