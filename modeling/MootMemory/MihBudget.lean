import MootMemory.CumulativeChoose

namespace MootMemory

namespace MIHIndex

/-- A full heap is within a distance exactly if enough of what it was offered is. -/
theorem isExact_iff_of_holds {heap : BoundedMaxHeap} {offered : List (Nat × VectorRecordKey)}
    {k : Nat} (h : heap.Holds offered) (hcap : heap.capacity = k) (hk : 0 < k) (distance : Nat) :
    isExact heap k distance ↔ k ≤ offered.countP (·.1 ≤ distance) := by
  obtain ⟨rest, hperm, hlen, hfull, hle⟩ := h.best
  rw [hcap] at hlen hfull
  have hcount : offered.countP (·.1 ≤ distance) =
      heap.elements.countP (·.1 ≤ distance) + rest.countP (·.1 ≤ distance) := by
    rw [hperm.countP_eq, List.countP_append]
  rw [hcount]
  simp only [isExact, Bool.and_eq_true, decide_eq_true_eq]
  constructor
  · rintro ⟨hsize, hworst⟩
    have hnear : heap.elements.countP (·.1 ≤ distance) = heap.elements.length := by
      refine List.countP_eq_length.mpr fun p hp => ?_
      obtain ⟨wd, hwd, hpw⟩ := h.root_le hp
      rw [hwd, Option.any_some, decide_eq_true_eq] at hworst
      exact decide_eq_true (hpw.trans hworst)
    rw [BoundedMaxHeap.size] at hsize
    omega
  · intro hk'
    have helements := List.countP_le_length (p := fun q => q.1 ≤ distance) (l := heap.elements)
    have hsize : heap.elements.length = k := by
      by_cases hrest : rest = []
      · rw [hrest, List.countP_nil] at hk'
        omega
      · exact hfull hrest
    refine ⟨hsize, ?_⟩
    cases hel : heap.elements with
    | nil =>
      rw [hel, List.length_nil] at hsize
      omega
    | cons root tail =>
      rw [BoundedMaxHeap.worstDist, hel, List.head?_cons, Option.map_some, Option.any_some,
        decide_eq_true_eq]
      by_contra hfar
      -- The root and all that did not come in are farther, so too few are left.
      have hrest : rest.countP (·.1 ≤ distance) = 0 := by
        refine List.countP_eq_zero.mpr fun q hq => ?_
        have hrank := hle root (hel ▸ List.mem_cons_self) q hq
        rcases Prod.Lex.toLex_le_toLex.mp hrank with hlt | ⟨heq, -⟩
        · simpa using by omega
        · simpa using by omega
      have htail := List.countP_le_length (p := fun q => q.1 ≤ distance) (l := tail)
      rw [hel, List.countP_cons_of_neg (by simpa using hfar), hrest] at hk'
      rw [hel, List.length_cons] at hsize
      omega

variable (mih : MIHIndex) (order : IterationOrder CodeEntry) (probe : Engram) (k : Nat) (hk : 0 < k)
  (filter : Option MetadataFilter) (budget : Nat)

section Counted

/-- The masks that are evaluated at one radius. -/
def masksAt (r : Nat) : Nat :=
  (mih.tables.zipIdx.map fun p => (flipMasks mih.subBits (bandRho mih.m r p.2)).length).sum

/-- The masks that are evaluated at the radii below one. -/
def masksBefore (r : Nat) : Nat := ((List.range r).map mih.masksAt).sum

/-- The radius of the widest bands. -/
def maxBandRho (r : Nat) : Nat := r / mih.m + if 0 < r % mih.m then 1 else 0

/-- What is projected for a radius before it is entered. -/
def projected (r : Nat) : Nat :=
  saturatingMul mih.m (cumulativeChoose mih.subBits (mih.maxBandRho r))

/-- The loop over the total radius, with the number of masks it evaluates. -/
def knnLoopCounted (r : Nat) (st : KnnState) (evaluated : Nat) : List DenseHit × Nat :=
  if budget < saturatingAdd st.maskCount (mih.projected r) ∧ !isExact st.heap k r then
    (mih.bruteScan order probe k hk filter, evaluated)
  else
    let st := mih.radiusStep probe filter r st
    let evaluated := evaluated + mih.masksAt r
    if isExact st.heap k r ∨ mih.codes.entries.length ≤ st.seen.card ∨ 256 ≤ r then
      (st.heap.sortedAscending.map hitOf, evaluated)
    else knnLoopCounted (r + 1) st evaluated
termination_by 256 - r
decreasing_by omega

/-- The budget of a search. -/
def budgetOf : Nat := mih.maskBudget.getD (max mih.codes.entries.length (2 ^ 20))

/-- `knn` with the number of masks it evaluates before it returns or falls back. -/
def knnCounted : List DenseHit × Nat :=
  mih.knnLoopCounted order probe k hk filter mih.budgetOf 0 ⟨∅, BoundedMaxHeap.new k hk, 0⟩ 0

theorem fst_knnLoopCounted (r : Nat) (st : KnnState) (evaluated : Nat) :
    (mih.knnLoopCounted order probe k hk filter budget r st evaluated).1 =
      mih.knnLoop order probe k hk filter budget r st := by
  fun_induction knnLoopCounted with
  | case1 r st evaluated hguard =>
    unfold knnLoop
    exact (if_pos hguard).symm
  | case2 r st evaluated hguard _ _ hstop =>
    unfold knnLoop
    exact ((if_neg hguard).trans (if_pos hstop)).symm
  | case3 r st evaluated hguard _ _ hstop ih =>
    unfold knnLoop
    rw [ih]
    exact ((if_neg hguard).trans (if_neg hstop)).symm

/-- Counting changes no answer. -/
theorem fst_knnCounted :
    (mih.knnCounted order probe k hk filter).1 = mih.knn order probe k hk filter :=
  mih.fst_knnLoopCounted order probe k hk filter _ 0 _ 0

end Counted

section Met

/-- The keys that are posted near the probe at one radius, in the order in which they come. -/
def keysAt (r : Nat) : List VectorRecordKey :=
  mih.tables.zipIdx.flatMap fun p =>
    (flipMasks mih.subBits (bandRho mih.m r p.2)).flatMap fun mask =>
      p.1.postings (extractBand probe p.2 mih.subBits ^^^ mask)

/-- The keys that are met at the radii below one. -/
def metKeys (r : Nat) : Finset VectorRecordKey :=
  ((List.range r).flatMap (mih.keysAt probe)).toFinset

/-- How many accepted codes within a distance are met at the radii below one. -/
def nearMet (r distance : Nat) : Nat :=
  (mih.offeredOf probe filter fun x => x ∈ mih.metKeys probe r).countP (·.1 ≤ distance)

variable {mih probe k filter} {st : KnnState} {r : Nat}

theorem candidateStep_maskCount (st : KnnState) (count : Nat) (x : VectorRecordKey) :
    mih.candidateStep probe filter { st with maskCount := count } x =
      { mih.candidateStep probe filter st x with maskCount := count } := by
  unfold candidateStep
  dsimp only
  split
  next => rfl
  next =>
    split
    next => rfl
    next => cases mih.codes.lookup x <;> rfl

theorem foldl_candidateStep_maskCount (keys : List VectorRecordKey) (st : KnnState) (count : Nat) :
    keys.foldl (mih.candidateStep probe filter) { st with maskCount := count } =
      { keys.foldl (mih.candidateStep probe filter) st with maskCount := count } := by
  induction keys generalizing st with
  | nil => rfl
  | cons x keys ih =>
    rw [List.foldl_cons, List.foldl_cons, candidateStep_maskCount, ih]

/-- Masks are counted, and the keys posted under them are candidates. -/
theorem foldl_maskStep (table : SubstringTable) (querySub : Nat) (masks : List Nat) (st : KnnState)
    (n : Nat) :
    masks.foldl (fun st mask => mih.maskStep table querySub probe filter mask st)
        { st with maskCount := n % 2 ^ 64 } =
      { (masks.flatMap fun mask => table.postings (querySub ^^^ mask)).foldl
          (mih.candidateStep probe filter) st with maskCount := (n + masks.length) % 2 ^ 64 } := by
  induction masks generalizing st n with
  | nil => rfl
  | cons mask masks ih =>
    rw [List.foldl_cons, maskStep]
    dsimp only
    rw [Nat.mod_add_mod, foldl_candidateStep_maskCount, ih, List.flatMap_cons, List.foldl_append,
      List.length_cons, show n + (masks.length + 1) = n + 1 + masks.length by omega]

theorem radiusStep_eq (st : KnnState) (n r : Nat) :
    mih.radiusStep probe filter r { st with maskCount := n % 2 ^ 64 } =
      { (mih.keysAt probe r).foldl (mih.candidateStep probe filter) st with
        maskCount := (n + mih.masksAt r) % 2 ^ 64 } := by
  unfold radiusStep keysAt masksAt
  induction mih.tables.zipIdx generalizing st n with
  | nil => rfl
  | cons p tables ih =>
    rw [List.foldl_cons]
    dsimp only
    rw [enumerateBandCandidatesCounted, colexFlipMasks_eq_foldl, foldl_maskStep, ih,
      List.flatMap_cons, List.foldl_append, List.map_cons, List.sum_cons, Nat.add_assoc]

/-- The state in which a radius is entered. -/
structure Entering (mih : MIHIndex) (probe : Engram) (filter : Option MetadataFilter) (k r : Nat)
    (st : KnnState) : Prop extends Offered mih probe filter k st where
  seen : st.seen = mih.metKeys probe r
  maskCount : st.maskCount = mih.masksBefore r % 2 ^ 64

theorem Offered.foldl (h : Offered mih probe filter k st) (keys : List VectorRecordKey) :
    Offered mih probe filter k (keys.foldl (mih.candidateStep probe filter) st) ∧
      (keys.foldl (mih.candidateStep probe filter) st).seen = st.seen ∪ keys.toFinset := by
  induction keys generalizing st with
  | nil => exact ⟨h, by simp⟩
  | cons x keys ih =>
    obtain ⟨hstep, hseen⟩ := h.candidateStep x
    obtain ⟨hrest, hall⟩ := ih hstep
    refine ⟨hrest, hall.trans ?_⟩
    rw [hseen, List.toFinset_cons, Finset.insert_union, Finset.union_insert]

theorem Entering.start (hk : 0 < k) :
    Entering mih probe filter k 0 ⟨∅, BoundedMaxHeap.new k hk, 0⟩ where
  capacity := rfl
  holds := (KnnInv.start hk).holds
  seen := rfl
  maskCount := rfl

theorem masksBefore_succ (r : Nat) :
    mih.masksBefore (r + 1) = mih.masksBefore r + mih.masksAt r := by
  rw [masksBefore, masksBefore, List.range_succ, List.map_append, List.sum_append]
  simp

theorem metKeys_succ (r : Nat) :
    mih.metKeys probe (r + 1) = mih.metKeys probe r ∪ (mih.keysAt probe r).toFinset := by
  rw [metKeys, metKeys, List.range_succ, List.flatMap_append, List.toFinset_append]
  simp

/-- A radius that is processed leads to the next one. -/
theorem Entering.step (h : Entering mih probe filter k r st) :
    Entering mih probe filter k (r + 1) (mih.radiusStep probe filter r st) := by
  obtain ⟨⟨hcap, hholds⟩, hseen⟩ := h.toOffered.foldl (mih.keysAt probe r)
  have hstep := @radiusStep_eq mih probe filter st (mih.masksBefore r) r
  rw [← h.maskCount] at hstep
  rw [hstep]
  refine ⟨⟨hcap, hholds⟩, ?_, ?_⟩
  · rw [hseen, h.seen, metKeys_succ]
  · rw [masksBefore_succ]

/-- The heap is judged exact exactly if as many accepted codes as asked for were met within the
radius. -/
theorem Entering.isExact_iff (h : Entering mih probe filter k r st) (hk : 0 < k) (distance : Nat) :
    isExact st.heap k distance ↔ k ≤ mih.nearMet probe filter r distance := by
  have hholds := h.holds
  rw [h.seen] at hholds
  rw [nearMet]
  exact isExact_iff_of_holds hholds h.capacity hk distance

end Met

section Processed

/-- The projection for a radius takes the count over the budget. -/
def OverBudget (r : Nat) : Prop :=
  budget < saturatingAdd (mih.masksBefore r % 2 ^ 64) (mih.projected r)

/-- As many accepted codes within a radius as asked for were met before it. -/
def Settled (r : Nat) : Prop := k ≤ mih.nearMet probe filter r r

variable {mih probe k filter budget} {st : KnnState} {r : Nat}

/-- A guard that lets a radius pass over the budget finds the heap settled. -/
theorem Entering.settled_of_passes (h : Entering mih probe filter k r st) (hk : 0 < k)
    (hguard : ¬(budget < saturatingAdd st.maskCount (mih.projected r) ∧ !isExact st.heap k r))
    (hover : mih.OverBudget budget r) : mih.Settled probe k filter r := by
  refine (h.isExact_iff hk r).mp ?_
  rw [OverBudget, ← h.maskCount] at hover
  by_contra hexact
  exact hguard ⟨hover, by simpa using hexact⟩

theorem bandRho_le_maxBandRho (mih : MIHIndex) (r t : Nat) :
    bandRho mih.m r t ≤ mih.maxBandRho r := by
  unfold bandRho maxBandRho
  split <;> split <;> omega

/-- With a table for each band, a radius has at most the masks that its widest bands would have. -/
theorem masksAt_le (h : mih.tables.length = mih.m) (r : Nat) :
    mih.masksAt r ≤ mih.m * masksUpTo mih.subBits (mih.maxBandRho r) := by
  have hsum := List.sum_le_card_nsmul (mih.tables.zipIdx.map fun p =>
    (flipMasks mih.subBits (bandRho mih.m r p.2)).length)
    (masksUpTo mih.subBits (mih.maxBandRho r)) fun n hn => by
      obtain ⟨p, -, rfl⟩ := List.mem_map.mp hn
      have hlength := length_flipMasks mih.bandCount.subBits_pos mih.bandCount.subBits_le
        (bandRho mih.m r p.2)
      exact hlength.trans_le (masksUpTo_mono _ (bandRho_le_maxBandRho mih r p.2))
  rwa [List.length_map, List.length_zipIdx, h] at hsum

/-- Each band takes at least the masks of the narrowest. -/
theorem le_masksAt (h : mih.tables.length = mih.m) (r : Nat) :
    mih.m * masksUpTo mih.subBits (r / mih.m) ≤ mih.masksAt r := by
  have hsum := List.card_nsmul_le_sum (mih.tables.zipIdx.map fun p =>
    (flipMasks mih.subBits (bandRho mih.m r p.2)).length)
    (masksUpTo mih.subBits (r / mih.m)) fun n hn => by
      obtain ⟨p, -, rfl⟩ := List.mem_map.mp hn
      have hlength := length_flipMasks mih.bandCount.subBits_pos mih.bandCount.subBits_le
        (bandRho mih.m r p.2)
      rw [subBits, hlength]
      exact masksUpTo_mono _ (Nat.le_add_right _ _)
  rwa [List.length_map, List.length_zipIdx, h] at hsum

theorem masksBefore_mono {r' : Nat} (h : r ≤ r') : mih.masksBefore r ≤ mih.masksBefore r' := by
  induction r', h using Nat.le_induction with
  | base => exact le_rfl
  | succ r' _ ih => exact ih.trans (masksBefore_succ r' ▸ Nat.le_add_right _ _)

/-- Bands of 64 bits take all masks up to a weight at each of the four radii of the weight. -/
theorem masksBefore_weight (h : mih.tables.length = mih.m) (hm : mih.bandCount = .m4) (q : Nat) :
    4 * masksUpTo 64 q ≤ mih.masksAt (4 * q) ∧
      mih.masksBefore (4 * q) + 16 * masksUpTo 64 q ≤ mih.masksBefore (4 * (q + 1)) := by
  have hat : ∀ e < 4, 4 * masksUpTo 64 q ≤ mih.masksAt (4 * q + e) := by
    intro e he
    have hle := le_masksAt h (4 * q + e)
    have hbands : mih.m = 4 := by rw [m, hm]; rfl
    have hbits : mih.subBits = 64 := by rw [subBits, hm]; rfl
    rwa [hbands, hbits, show (4 * q + e) / 4 = q by omega] at hle
  have h0 : 4 * masksUpTo 64 q ≤ mih.masksAt (4 * q) := hat 0 (by decide)
  have h1 := hat 1 (by decide)
  have h2 := hat 2 (by decide)
  have h3 := hat 3 (by decide)
  rw [show 4 * (q + 1) = 4 * q + 1 + 1 + 1 + 1 by omega]
  simp only [masksBefore_succ]
  omega

/-- Bands of 64 bits have taken more masks than a `usize` counts before one gets a radius of 27. -/
theorem usizeMax_le_masksBefore (h : mih.tables.length = mih.m) (hm : mih.bandCount = .m4)
    (hr : 105 ≤ r) : usizeMax ≤ mih.masksBefore r := by
  have hcounts : usizeMax ≤ 16 * masksUpTo 64 24 + 16 * masksUpTo 64 25 + 4 * masksUpTo 64 26 := by
    simp only [masksUpTo, funext (Nat.choose_eq_descFactorial_div_factorial 64)]
    decide +kernel
  have h24 : mih.masksBefore 96 + 16 * masksUpTo 64 24 ≤ mih.masksBefore 100 :=
    (masksBefore_weight h hm 24).2
  have h25 : mih.masksBefore 100 + 16 * masksUpTo 64 25 ≤ mih.masksBefore 104 :=
    (masksBefore_weight h hm 25).2
  have h26 : 4 * masksUpTo 64 26 ≤ mih.masksAt 104 := (masksBefore_weight h hm 26).1
  refine le_trans ?_ (masksBefore_mono hr)
  rw [masksBefore_succ]
  omega

/-- The projection is exact, unless more masks came before than a `usize` counts. -/
theorem cumulativeChoose_maxBandRho (h : mih.tables.length = mih.m)
    (hbefore : mih.masksBefore r < usizeMax) :
    cumulativeChoose mih.subBits (mih.maxBandRho r) = masksUpTo mih.subBits (mih.maxBandRho r) := by
  by_cases hm : mih.bandCount = .m4
  · have hr : r < 105 := by
      by_contra hge
      exact absurd (usizeMax_le_masksBefore h hm (not_lt.mp hge)) (not_le.mpr hbefore)
    have hbands : mih.m = 4 := by rw [m, hm]; rfl
    rw [subBits, hm]
    refine cumulativeChoose_eq_masksUpTo (by decide) (by decide) (productsFit_sixtyFour ?_)
    rw [maxBandRho, hbands]
    split <;> omega
  · have hbits : mih.subBits ≤ 32 := by
      rw [subBits]
      cases hcount : mih.bandCount with
      | m4 => exact absurd hcount hm
      | m8 => decide
      | m16 => decide
      | m32 => decide
    exact cumulativeChoose_eq_masksUpTo mih.bandCount.subBits_pos (by omega)
      (productsFit_of_narrow hbits _)

/-- A radius that the guard lets pass stays within the budget. -/
theorem masksBefore_succ_le (h : mih.tables.length = mih.m) (hbudget : budget < usizeMax)
    (hbefore : mih.masksBefore r ≤ budget) (hunder : ¬mih.OverBudget budget r) :
    mih.masksBefore (r + 1) ≤ budget := by
  have hmax : usizeMax = 2 ^ 64 - 1 := rfl
  rw [OverBudget, Nat.mod_eq_of_lt (by omega), saturatingAdd, projected, saturatingMul,
    cumulativeChoose_maxBandRho h (by omega)] at hunder
  have hat := masksAt_le h r
  rw [masksBefore_succ]
  omega

theorem nearMet_succ_le (r distance : Nat) :
    mih.nearMet probe filter r distance ≤ mih.nearMet probe filter (r + 1) distance := by
  rw [nearMet, nearMet, offeredOf, offeredOf]
  refine List.Sublist.countP_le (((List.monotone_filter_right _ fun c hc => ?_).filter _).map _)
  simp only [decide_eq_true_eq, metKeys_succ, Finset.mem_union] at hc ⊢
  exact Or.inl hc

/-- The radius at which the guard is waived is the last. -/
theorem Entering.isExact_of_settled (hk : 0 < k) (h : Entering mih probe filter k r st)
    (hsettled : mih.Settled probe k filter r) :
    isExact (mih.radiusStep probe filter r st).heap k r :=
  (h.step.isExact_iff hk r).mpr (hsettled.trans (nearMet_succ_le r r))

/-- From a radius on, the masks stay within the budget, or the search ends with one radius more,
which was entered with the heap settled. -/
theorem Entering.evaluated_le_or_settled (order : IterationOrder CodeEntry) (hk : 0 < k)
    (htables : mih.tables.length = mih.m) (hbudget : budget < usizeMax)
    (h : Entering mih probe filter k r st) (hbefore : mih.masksBefore r ≤ budget) :
    (mih.knnLoopCounted order probe k hk filter budget r st (mih.masksBefore r)).2 ≤ budget ∨
      ∃ last, mih.Settled probe k filter last ∧ mih.masksBefore last ≤ budget ∧
        (mih.knnLoopCounted order probe k hk filter budget r st (mih.masksBefore r)).2 =
          mih.masksBefore (last + 1) := by
  generalize hn : mih.masksBefore r = n at hbefore
  fun_induction knnLoopCounted with
  | case1 r st n hguard => exact Or.inl hbefore
  | case2 r st n hguard st' n' hstop =>
    have hn' : n' = mih.masksBefore (r + 1) := by rw [masksBefore_succ, hn]
    by_cases hover : mih.OverBudget budget r
    · exact Or.inr ⟨r, h.settled_of_passes hk hguard hover, hn ▸ hbefore, hn'⟩
    · exact Or.inl (hn' ▸ masksBefore_succ_le htables hbudget (hn ▸ hbefore) hover)
  | case3 r st n hguard st' n' hstop ih =>
    have hn' : n' = mih.masksBefore (r + 1) := by rw [masksBefore_succ, hn]
    have hunder : ¬mih.OverBudget budget r := fun hover =>
      hstop (Or.inl (h.isExact_of_settled hk (h.settled_of_passes hk hguard hover)))
    exact ih h.step hn'.symm (hn' ▸ masksBefore_succ_le htables hbudget (hn ▸ hbefore) hunder)

end Processed

end MIHIndex

/-- The calls that write an index. -/
inductive MIHCall where
  | build (vectors : List VectorPayload) (keys : List VectorRecordKey)
  | add (key : VectorRecordKey) (vector : VectorPayload)
  | remove (key : VectorRecordKey)

namespace MIHIndex

/-- The index that a build leaves, whether it succeeds or not. -/
def afterBuild : EStateM.Result Fault MIHIndex Unit → MIHIndex
  | .ok _ mih => mih
  | .error _ mih => mih

/-- The index after a call; what a failed build has done stays. -/
def after (mih : MIHIndex) : MIHCall → MIHIndex
  | .build vectors keys => afterBuild (build vectors keys mih)
  | .add key vector => (mih.add key vector).toOption.getD mih
  | .remove key => mih.remove key

section Tables

variable {mih mih' : MIHIndex}

/-- As many bands and as many tables. -/
def SameShape (mih mih' : MIHIndex) : Prop :=
  mih'.bandCount = mih.bandCount ∧ mih'.tables.length = mih.tables.length

theorem SameShape.rfl : SameShape mih mih := ⟨Eq.refl _, Eq.refl _⟩

theorem SameShape.trans {mih'' : MIHIndex} (h : SameShape mih mih') (h' : SameShape mih' mih'') :
    SameShape mih mih'' :=
  ⟨h'.1.trans h.1, h'.2.trans h.2⟩

theorem sameShape_insert (mih : MIHIndex) (id : VectorRecordKey) (engram : Engram)
    (codes : AList fun _ : VectorRecordKey => Engram) :
    SameShape mih { mih.insertIntoTables id engram with codes := codes } :=
  ⟨Eq.refl _, List.length_mapIdx⟩

theorem sameShape_removeFromTables (mih : MIHIndex) (id : VectorRecordKey) (engram : Engram) :
    SameShape mih (mih.removeFromTables id engram) :=
  ⟨Eq.refl _, List.length_mapIdx⟩

theorem sameShape_remove (mih : MIHIndex) (key : VectorRecordKey) :
    SameShape mih (mih.remove key) := by
  unfold remove
  split
  next => exact sameShape_removeFromTables { mih with codes := mih.codes.erase key } key _
  next => exact SameShape.rfl

theorem sameShape_add {key : VectorRecordKey} {vector : VectorPayload}
    (h : mih.add key vector = .ok mih') : SameShape mih mih' := by
  unfold add at h
  split at h
  next => cases h
  next =>
    obtain ⟨engram, -, h⟩ := except_bind_ok.mp h
    cases h
    cases mih.codes.lookup key with
    | none => exact sameShape_insert mih key engram _
    | some existing =>
      exact (sameShape_removeFromTables mih key existing).trans (sameShape_insert _ key engram _)

theorem sameShape_buildSteps (entries : List (VectorPayload × VectorRecordKey)) (mih : MIHIndex) :
    SameShape mih (afterBuild (entries.forM buildStep mih)) := by
  induction entries generalizing mih with
  | nil => exact SameShape.rfl
  | cons entry entries ih =>
    cases hengram : payloadToEngram entry.1 with
    | error e =>
      have hfails : (entry :: entries).forM buildStep mih = .error e mih := by
        have hstep : buildStep entry mih = .error e mih := by rw [buildStep, hengram]
        show EStateM.bind (buildStep entry) _ mih = _
        rw [EStateM.bind, hstep]
      rw [hfails]
      exact SameShape.rfl
    | ok engram =>
      have hgoes : (entry :: entries).forM buildStep mih =
          entries.forM buildStep { mih.insertIntoTables entry.2 engram with
            codes := (mih.insertIntoTables entry.2 engram).codes.insert entry.2 engram } := by
        have hstep : buildStep entry mih = .ok () { mih.insertIntoTables entry.2 engram with
            codes := (mih.insertIntoTables entry.2 engram).codes.insert entry.2 engram } := by
          rw [buildStep, hengram]
        show EStateM.bind (buildStep entry) _ mih = _
        rw [EStateM.bind, hstep]
      rw [hgoes]
      exact (sameShape_insert mih entry.2 engram _).trans (ih _)

theorem sameShape_build (mih : MIHIndex) (vectors : List VectorPayload)
    (keys : List VectorRecordKey) : SameShape mih (afterBuild (build vectors keys mih)) := by
  unfold build
  split
  next => exact SameShape.rfl
  next =>
    have hcleared : SameShape mih mih.cleared := ⟨Eq.refl _, List.length_map _⟩
    exact hcleared.trans (sameShape_buildSteps (vectors.zip keys) mih.cleared)

/-- Every call keeps the tables and the bands. -/
theorem sameShape_after (mih : MIHIndex) (call : MIHCall) : SameShape mih (mih.after call) := by
  cases call with
  | build vectors keys => exact sameShape_build mih vectors keys
  | add key vector =>
    cases hadd : mih.add key vector with
    | error e =>
      rw [after, hadd]
      exact SameShape.rfl
    | ok mih' =>
      rw [after, hadd]
      exact sameShape_add hadd
  | remove key => exact sameShape_remove mih key

/-- There is a table for each band after any calls. -/
theorem length_tables_run (bandCount : MIHBandCount) (maskBudget : Option Nat)
    (calls : List MIHCall) :
    (calls.foldl after (newWithBudget bandCount maskBudget)).tables.length =
      (calls.foldl after (newWithBudget bandCount maskBudget)).m := by
  have hshape : ∀ mih : MIHIndex, SameShape mih (calls.foldl after mih) := by
    induction calls with
    | nil => exact fun mih => SameShape.rfl
    | cons call calls ih => exact fun mih => (sameShape_after mih call).trans (ih _)
  obtain ⟨hbands, htables⟩ := hshape (newWithBudget bandCount maskBudget)
  rw [htables, m, hbands]
  exact List.length_replicate

end Tables

section Budget

/-- A search evaluates no more masks than its budget, but for those of a last radius that it enters
with the heap settled: as many accepted codes within the radius as asked for were met before. -/
theorem evaluated_le_budget_or_settled (bandCount : MIHBandCount) (maskBudget : Option Nat)
    (calls : List MIHCall) (order : IterationOrder CodeEntry) (probe : Engram) (k : Nat)
    (hk : 0 < k) (filter : Option MetadataFilter)
    (hbudget : (calls.foldl after (newWithBudget bandCount maskBudget)).budgetOf < usizeMax) :
    let mih := calls.foldl after (newWithBudget bandCount maskBudget)
    (mih.knnCounted order probe k hk filter).2 ≤ mih.budgetOf ∨
      ∃ last, mih.Settled probe k filter last ∧ mih.masksBefore last ≤ mih.budgetOf ∧
        (mih.knnCounted order probe k hk filter).2 = mih.masksBefore (last + 1) :=
  (Entering.start hk).evaluated_le_or_settled order hk
    (length_tables_run bandCount maskBudget calls) hbudget (Nat.zero_le _)

/-- A code at distance one from zero, and one that is far from it in every band. -/
def nearAndFar : List MIHCall :=
  [.add ⟨"near", 0, "m", "1"⟩ ⟨.binary, 256, 1 :: List.replicate 31 0, none⟩,
    .add ⟨"far", 0, "m", "1"⟩ ⟨.binary, 256, List.replicate 32 255, none⟩]

/-- The second radius is entered over the budget, since the near code was met, and is the last. -/
theorem evaluated_le_budget_or_settled_nearAndFar :
    ∃ last, (nearAndFar.foldl after (newWithBudget .m4 (some 4))).masksBefore last ≤ 4 ∧
      ((nearAndFar.foldl after (newWithBudget .m4 (some 4))).knnCounted .stored ⟨0, 0, 0, 0⟩ 1
        (by decide) none).2 =
        (nearAndFar.foldl after (newWithBudget .m4 (some 4))).masksBefore (last + 1) := by
  have hbound := evaluated_le_budget_or_settled .m4 (some 4) nearAndFar .stored ⟨0, 0, 0, 0⟩ 1
    (by decide) none (by decide +kernel)
  obtain ⟨last, -, hbefore, hlast⟩ := hbound.resolve_left (by decide +kernel)
  exact ⟨last, hbefore, hlast⟩

/-- With a budget of four masks the first radius takes all of them; the second is entered since the
code that was met is at its distance, and takes 68 more. -/
theorem not_evaluated_le_budget :
    ¬∀ (bandCount : MIHBandCount) (maskBudget : Option Nat) (calls : List MIHCall)
      (order : IterationOrder CodeEntry) (probe : Engram) (k : Nat) (hk : 0 < k)
      (filter : Option MetadataFilter),
      ((calls.foldl after (newWithBudget bandCount maskBudget)).knnCounted order probe k hk
          filter).2 ≤
        (calls.foldl after (newWithBudget bandCount maskBudget)).budgetOf := by
  intro h
  have hbound := h .m4 (some 4) nearAndFar .stored ⟨0, 0, 0, 0⟩ 1 (by decide) none
  revert hbound
  decide +kernel

end Budget

end MIHIndex

end MootMemory
