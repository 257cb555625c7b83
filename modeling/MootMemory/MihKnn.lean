import MootMemory.KeyedTable
import MootMemory.MihBands
import MootMemory.Nearest
import MootMemory.MihMasks
import MootMemory.MihUpdate
import Mathlib.Data.Finset.Card

namespace MootMemory

def saturatingMul (a b : Nat) : Nat := min (a * b) usizeMax

def saturatingAdd (a b : Nat) : Nat := min (a + b) usizeMax

/-- The loop over `d` with `remaining` turns left. -/
def cumulativeChooseLoop (n : Nat) : Nat → Nat → Nat → Nat → Nat
  | 0, _, _, sum => sum
  | remaining + 1, d, c, sum =>
    if n < d then sum
    else
      let c := saturatingMul c (n - d + 1) / d
      let sum := saturatingAdd sum c
      if sum = usizeMax then usizeMax else cumulativeChooseLoop n remaining (d + 1) c sum

/-- The sum of the binomials of `subBits` up to `rho`, saturating. -/
def cumulativeChoose (subBits rho : Nat) : Nat :=
  if subBits = 0 then 0 else cumulativeChooseLoop subBits rho 1 1 1

namespace MIHIndex

/-- What the enumeration carries along. -/
structure KnnState where
  seen : Finset VectorRecordKey
  heap : BoundedMaxHeap
  maskCount : Nat

/-- A key of a posting list is marked as seen, and offered if the filter accepts it. -/
def candidateStep (mih : MIHIndex) (probe : Engram) (filter : Option MetadataFilter)
    (st : KnnState) (key : VectorRecordKey) : KnnState :=
  if key ∈ st.seen then st
  else
    let st := { st with seen := insert key st.seen }
    if !acceptedBy filter key then st
    else
      match mih.codes.lookup key with
      | some code => { st with heap := st.heap.offer (EngramLib.distance probe code) key }
      | none => st

/-- The work for one flip mask; the counter wraps like a `usize`. -/
def maskStep (mih : MIHIndex) (table : SubstringTable) (querySub : Nat) (probe : Engram)
    (filter : Option MetadataFilter) (flipMask : Nat) (st : KnnState) : KnnState :=
  (table.postings (querySub ^^^ flipMask)).foldl (mih.candidateStep probe filter)
    { st with maskCount := (st.maskCount + 1) % 2 ^ 64 }

def enumerateBandCandidatesCounted (mih : MIHIndex) (table : SubstringTable) (querySub rho : Nat)
    (probe : Engram) (filter : Option MetadataFilter) (st : KnnState) : KnnState :=
  colexFlipMasks mih.subBits rho (mih.maskStep table querySub probe filter) st

/-- All bands of one radius, in order. -/
def radiusStep (mih : MIHIndex) (probe : Engram) (filter : Option MetadataFilter) (r : Nat)
    (st : KnnState) : KnnState :=
  mih.tables.zipIdx.foldl (fun st (table, t) =>
    mih.enumerateBandCandidatesCounted table (extractBand probe t mih.subBits)
      (bandRho mih.m r t) probe filter st) st

def bruteScanStep (probe : Engram) (filter : Option MetadataFilter) (heap : BoundedMaxHeap)
    (c : CodeEntry) : BoundedMaxHeap :=
  if !acceptedBy filter c.1 then heap else heap.offer (EngramLib.distance probe c.2) c.1

/-- The scan over all codes, in the order in which the map yields them. -/
def bruteScan (mih : MIHIndex) (order : IterationOrder CodeEntry) (probe : Engram) (k : Nat)
    (hk : 0 < k) (filter : Option MetadataFilter) : List DenseHit :=
  let heap := (order.run mih.entries).foldl (bruteScanStep probe filter) (BoundedMaxHeap.new k hk)
  heap.sortedAscending.map hitOf

/-- The heap is full and its worst distance is within the radius. -/
def isExact (heap : BoundedMaxHeap) (k r : Nat) : Bool :=
  heap.size = k && heap.worstDist.any (· ≤ r)

/-- The loop over the total radius. -/
def knnLoop (mih : MIHIndex) (order : IterationOrder CodeEntry) (probe : Engram) (k : Nat)
    (hk : 0 < k) (filter : Option MetadataFilter) (budget r : Nat) (st : KnnState) :
    List DenseHit :=
  let maxBandRho := r / mih.m + if 0 < r % mih.m then 1 else 0
  let projected := saturatingMul mih.m (cumulativeChoose mih.subBits maxBandRho)
  if budget < saturatingAdd st.maskCount projected ∧ !isExact st.heap k r then
    mih.bruteScan order probe k hk filter
  else
    let st := mih.radiusStep probe filter r st
    if isExact st.heap k r ∨ mih.codes.entries.length ≤ st.seen.card ∨ 256 ≤ r then
      st.heap.sortedAscending.map hitOf
    else knnLoop mih order probe k hk filter budget (r + 1) st
termination_by 256 - r
decreasing_by omega

def knn (mih : MIHIndex) (order : IterationOrder CodeEntry) (probe : Engram) (k : Nat) (hk : 0 < k)
    (filter : Option MetadataFilter) : List DenseHit :=
  let budget := mih.maskBudget.getD (max mih.codes.entries.length (2 ^ 20))
  mih.knnLoop order probe k hk filter budget 0 ⟨∅, BoundedMaxHeap.new k hk, 0⟩

def search (mih : MIHIndex) (order : IterationOrder CodeEntry) (probe : VectorPayload)
    (metric : DenseMetric) (k : Nat) (filter : Option MetadataFilter) :
    Except Fault (List DenseHit) :=
  if probe.kind ≠ .binary then
    .error (.err (.invalidPayload
      s!"MIHIndex.search: probe.kind must be Binary, got {probe.kind.debug}"))
  else if metric ≠ .binary .hamming then
    .error (.err (.invalidPayload
      s!"MIHIndex.search: only Binary(Hamming) is supported; got {metric.debug}"))
  else if hk : k = 0 then .ok []
  else if mih.codes.entries = [] then .ok []
  else do
    let probeEngram ← payloadToEngram probe
    .ok (mih.knn order probeEngram k (Nat.pos_of_ne_zero hk) filter)

/-- The ranked pairs of the accepted entries with a given property. -/
def offeredOf (mih : MIHIndex) (probe : Engram) (filter : Option MetadataFilter)
    (p : VectorRecordKey → Bool) : List (Nat × VectorRecordKey) :=
  ((mih.entries.filter fun c => p c.1).filter fun c => acceptedBy filter c.1).map (ranked probe)

/-- Only keys of codes are seen, and the heap was offered exactly the accepted ones of them. -/
structure KnnInv (mih : MIHIndex) (probe : Engram) (filter : Option MetadataFilter) (k : Nat)
    (st : KnnState) : Prop where
  capacity : st.heap.capacity = k
  known : ∀ x ∈ st.seen, x ∈ mih.entries.map (·.1)
  holds : st.heap.Holds (mih.offeredOf probe filter fun x => x ∈ st.seen)

variable {mih : MIHIndex} {probe : Engram} {filter : Option MetadataFilter} {k : Nat}
  {st : KnnState}

theorem mem_entries {x : VectorRecordKey} {e : Engram} :
    (x, e) ∈ mih.entries ↔ mih.codes.lookup x = some e := by
  rw [← recordMap_eq_some mih.entries_nodup, recordMap_entries, codeOf]

/-- Marking one more key adds its entry to those marked before. -/
theorem filter_seen_insert {x : VectorRecordKey} {e : Engram} {seen : Finset VectorRecordKey}
    (hx : mih.codes.lookup x = some e) (hnew : x ∉ seen) :
    (mih.entries.filter fun c => decide (c.1 ∈ insert x seen)).Perm
      ((x, e) :: mih.entries.filter fun c => decide (c.1 ∈ seen)) := by
  have hnodup := List.Nodup.of_map _ mih.entries_nodup
  rw [List.perm_ext_iff_of_nodup (hnodup.filter _)]
  · rintro ⟨y, f⟩
    simp only [List.mem_filter, List.mem_cons, mem_entries, Finset.mem_insert, Prod.mk.injEq,
      decide_eq_true_eq]
    constructor
    · rintro ⟨hy, rfl | hseen⟩
      · rw [hx] at hy; cases hy; exact Or.inl ⟨rfl, rfl⟩
      · exact Or.inr ⟨hy, hseen⟩
    · rintro (⟨rfl, rfl⟩ | ⟨hy, hseen⟩)
      · exact ⟨hx, Or.inl rfl⟩
      · exact ⟨hy, Or.inr hseen⟩
  · refine List.nodup_cons.mpr ⟨?_, hnodup.filter _⟩
    simp [List.mem_filter, hnew]

/-- The heap has room for `k`, and was offered exactly the accepted codes that are seen. -/
structure Offered (mih : MIHIndex) (probe : Engram) (filter : Option MetadataFilter) (k : Nat)
    (st : KnnState) : Prop where
  capacity : st.heap.capacity = k
  holds : st.heap.Holds (mih.offeredOf probe filter fun x => x ∈ st.seen)

/-- A candidate is seen afterwards, and offered if it is an accepted code. -/
theorem Offered.candidateStep (h : Offered mih probe filter k st) (x : VectorRecordKey) :
    Offered mih probe filter k (mih.candidateStep probe filter st x) ∧
      (mih.candidateStep probe filter st x).seen = insert x st.seen := by
  unfold MIHIndex.candidateStep
  split
  next hseen => exact ⟨h, (Finset.insert_eq_of_mem hseen).symm⟩
  next hnew =>
    cases hx : mih.codes.lookup x with
    | none =>
      have hsame : mih.offeredOf probe filter (fun y => y ∈ insert x st.seen) =
          mih.offeredOf probe filter fun y => y ∈ st.seen := by
        unfold offeredOf
        congr 2
        refine List.filter_congr fun c hc => ?_
        have hne : c.1 ≠ x := by
          rintro rfl
          rw [mem_entries.mp hc] at hx
          cases hx
        simp [Finset.mem_insert, hne]
      have hholds := h.holds
      rw [← hsame] at hholds
      cases acceptedBy filter x <;> exact ⟨⟨h.capacity, hholds⟩, rfl⟩
    | some e =>
      have hperm := filter_seen_insert hx hnew
      have hoffered := (hperm.filter fun c => acceptedBy filter c.1).map (ranked probe)
      cases hacc : acceptedBy filter x with
      | false =>
        rw [List.filter_cons_of_neg (by simp [hacc])] at hoffered
        exact ⟨⟨h.capacity, h.holds.congr hoffered.symm⟩, rfl⟩
      | true =>
        rw [List.filter_cons_of_pos (by simpa using hacc)] at hoffered
        refine ⟨⟨(BoundedMaxHeap.capacity_offer _ _ _).trans h.capacity, ?_⟩, rfl⟩
        exact (h.holds.offer _ _).congr hoffered.symm

/-- One candidate keeps the invariant, and is seen afterwards. -/
theorem KnnInv.candidateStep (h : KnnInv mih probe filter k st) {x : VectorRecordKey}
    {e : Engram} (hx : mih.codes.lookup x = some e) :
    KnnInv mih probe filter k (mih.candidateStep probe filter st x) ∧
      (mih.candidateStep probe filter st x).seen = insert x st.seen := by
  obtain ⟨⟨hcap, hholds⟩, hseen⟩ :=
    Offered.candidateStep (⟨h.capacity, h.holds⟩ : Offered mih probe filter k st) x
  refine ⟨⟨hcap, fun y hy => ?_, hholds⟩, hseen⟩
  rw [hseen] at hy
  rcases Finset.mem_insert.mp hy with rfl | hy
  · exact List.mem_map.mpr ⟨_, mem_entries.mpr hx, rfl⟩
  · exact h.known y hy

/-- A list of candidates keeps the invariant, and all of them are seen afterwards. -/
theorem KnnInv.candidates (h : KnnInv mih probe filter k st) {posting : List VectorRecordKey}
    (hposting : ∀ x ∈ posting, ∃ e, mih.codes.lookup x = some e) :
    KnnInv mih probe filter k (posting.foldl (mih.candidateStep probe filter) st) ∧
      ∀ x, x ∈ (posting.foldl (mih.candidateStep probe filter) st).seen ↔
        x ∈ posting ∨ x ∈ st.seen := by
  induction posting generalizing st with
  | nil => exact ⟨h, by simp⟩
  | cons y posting ih =>
    obtain ⟨e, he⟩ := hposting y (by simp)
    obtain ⟨hinv, hseen⟩ := h.candidateStep he
    obtain ⟨hinv', hseen'⟩ := ih hinv fun x hx => hposting x (by simp [hx])
    refine ⟨hinv', fun x => ?_⟩
    rw [List.foldl_cons, hseen', hseen, Finset.mem_insert, List.mem_cons]
    tauto

/-- The masks of one band keep the invariant; the postings under all of them are seen. -/
theorem KnnInv.masks (h : KnnInv mih probe filter k st) {table : SubstringTable}
    (querySub : Nat) (htable : ∀ key, ∀ x ∈ table.postings key, ∃ e, mih.codes.lookup x = some e)
    (masks : List Nat) :
    KnnInv mih probe filter k
        (masks.foldl (fun st mask => mih.maskStep table querySub probe filter mask st) st) ∧
      ∀ x, x ∈ (masks.foldl (fun st mask =>
          mih.maskStep table querySub probe filter mask st) st).seen ↔
        (∃ mask ∈ masks, x ∈ table.postings (querySub ^^^ mask)) ∨ x ∈ st.seen := by
  induction masks generalizing st with
  | nil => exact ⟨h, by simp⟩
  | cons mask masks ih =>
    have hcount : KnnInv mih probe filter k { st with maskCount := (st.maskCount + 1) % 2 ^ 64 } :=
      ⟨h.capacity, h.known, h.holds⟩
    have hstep : KnnInv mih probe filter k (mih.maskStep table querySub probe filter mask st) ∧
        ∀ x, x ∈ (mih.maskStep table querySub probe filter mask st).seen ↔
          x ∈ table.postings (querySub ^^^ mask) ∨ x ∈ st.seen :=
      hcount.candidates (htable (querySub ^^^ mask))
    obtain ⟨hinv', hseen'⟩ := ih hstep.1
    refine ⟨hinv', fun x => ?_⟩
    rw [List.foldl_cons, hseen', hstep.2]
    simp only [List.mem_cons, exists_eq_or_imp, or_assoc]
    exact or_left_comm

/-- The bands of one radius keep the invariant; close postings of every band are seen. -/
theorem KnnInv.bands (h : KnnInv mih probe filter k st) {r : Nat}
    {tables : List (SubstringTable × Nat)}
    (htables : ∀ p ∈ tables, ∀ key, ∀ x ∈ p.1.postings key, ∃ e, mih.codes.lookup x = some e) :
    KnnInv mih probe filter k (tables.foldl (fun st (table, t) =>
        mih.enumerateBandCandidatesCounted table (extractBand probe t mih.subBits)
          (bandRho mih.m r t) probe filter st) st) ∧
      ∀ x, x ∈ (tables.foldl (fun st (table, t) =>
          mih.enumerateBandCandidatesCounted table (extractBand probe t mih.subBits)
            (bandRho mih.m r t) probe filter st) st).seen ↔
        (∃ p ∈ tables, ∃ mask ∈ flipMasks mih.subBits (bandRho mih.m r p.2),
          x ∈ p.1.postings (extractBand probe p.2 mih.subBits ^^^ mask)) ∨ x ∈ st.seen := by
  induction tables generalizing st with
  | nil => exact ⟨h, by simp⟩
  | cons p tables ih =>
    have hstep := h.masks (extractBand probe p.2 mih.subBits) (htables p (by simp))
      (flipMasks mih.subBits (bandRho mih.m r p.2))
    rw [← colexFlipMasks_eq_foldl] at hstep
    obtain ⟨hinv', hseen'⟩ := ih hstep.1 fun q hq => htables q (by simp [hq])
    refine ⟨hinv', fun x => ?_⟩
    rw [List.foldl_cons]
    refine (hseen' x).trans ?_
    rw [hstep.2]
    simp only [List.mem_cons, exists_eq_or_imp, or_assoc]
    exact or_left_comm

theorem mem_zipIdx_tables {p : SubstringTable × Nat} (hp : p ∈ mih.tables.zipIdx) (key : Nat) :
    p.1.postings key = mih.postings p.2 key := by
  have hget : mih.tables[p.2]? = some p.1 := List.mem_zipIdx_iff_getElem?.mp hp
  rw [postings, hget]

/-- One radius keeps the invariant, keeps what was seen, and sees every code within it. -/
theorem KnnInv.radiusStep (hs : mih.Searchable) (h : KnnInv mih probe filter k st) (r : Nat) :
    KnnInv mih probe filter k (mih.radiusStep probe filter r st) ∧
      ∀ x e, mih.codes.lookup x = some e → EngramLib.distance probe e ≤ r →
        x ∈ (mih.radiusStep probe filter r st).seen := by
  have hknown : ∀ p ∈ mih.tables.zipIdx, ∀ key, ∀ x ∈ p.1.postings key,
      ∃ e, mih.codes.lookup x = some e := by
    intro p hp key x hx
    rw [mem_zipIdx_tables hp] at hx
    exact hs.known p.2 key x hx
  obtain ⟨hinv, hseen⟩ := h.bands (r := r) hknown
  refine ⟨hinv, fun x e hx hdist => (hseen x).mpr (Or.inl ?_)⟩
  obtain ⟨t, ht, hclose⟩ := exists_close_band mih.bandCount hdist
  obtain ⟨table, htable⟩ : ∃ table, mih.tables[t]? = some table :=
    ⟨_, List.getElem?_eq_getElem (by rw [hs.tables_length]; exact ht)⟩
  have hp : (table, t) ∈ mih.tables.zipIdx := List.mem_zipIdx_iff_getElem?.mpr htable
  have hlt := Nat.xor_lt_two_pow (extractBand_lt probe mih.bandCount ht)
    (extractBand_lt e mih.bandCount ht)
  -- The mask that turns the probe's band into the code's band is enumerated.
  refine ⟨(table, t), hp, extractBand probe t mih.subBits ^^^ extractBand e t mih.subBits,
    (mem_flipMasks mih.bandCount.subBits_pos mih.bandCount.subBits_le).mpr ⟨hlt, ?_⟩, ?_⟩
  · have hwide := bitCount_of_lt (64 - mih.bandCount.subBits) hlt
    rw [Nat.add_sub_cancel' mih.bandCount.subBits_le] at hwide
    exact hwide.trans_le hclose
  · rw [mem_zipIdx_tables hp, Nat.xor_xor_cancel_left]
    exact hs.posted x e t hx ht

theorem KnnInv.start (hk : 0 < k) :
    KnnInv mih probe filter k ⟨∅, BoundedMaxHeap.new k hk, 0⟩ := by
  refine ⟨rfl, by simp, ?_⟩
  have hnil : mih.offeredOf probe filter (fun x => decide (x ∈ (∅ : Finset VectorRecordKey))) =
      [] := by
    simp [offeredOf]
  rw [hnil]
  exact BoundedMaxHeap.holds_new hk

/-- A heap that holds all accepted entries gives the nearest of them. -/
theorem hits_of_holds {heap : BoundedMaxHeap} (hcap : heap.capacity = k)
    (h : heap.Holds ((mih.entries.filter fun c => acceptedBy filter c.1).map (ranked probe))) :
    heap.sortedAscending.map hitOf = nearest probe k filter mih.entries := by
  rw [h.sortedAscending_eq, hcap, nearest]

theorem offeredOf_all {p : VectorRecordKey → Bool} (h : ∀ c ∈ mih.entries, p c.1) :
    mih.offeredOf probe filter p =
      (mih.entries.filter fun c => acceptedBy filter c.1).map (ranked probe) := by
  rw [offeredOf, List.filter_eq_self.mpr h]

/-- What is left out when some keys are unseen. -/
theorem offeredOf_append (p : VectorRecordKey → Bool) :
    ((mih.entries.filter fun c => acceptedBy filter c.1).map (ranked probe)).Perm
      (mih.offeredOf probe filter p ++ mih.offeredOf probe filter fun x => !p x) := by
  have h := List.filter_append_perm (fun c : CodeEntry => p c.1) mih.entries
  have h' := ((h.symm.filter fun c => acceptedBy filter c.1).map (ranked probe))
  rwa [List.filter_append, List.map_append] at h'

theorem seen_all_of_card {seen : Finset VectorRecordKey}
    (hknown : ∀ x ∈ seen, x ∈ mih.entries.map (·.1))
    (hcard : mih.codes.entries.length ≤ seen.card) : ∀ c ∈ mih.entries, c.1 ∈ seen := by
  have hlen : (mih.entries.map (·.1)).toFinset.card = mih.codes.entries.length := by
    rw [List.toFinset_card_of_nodup mih.entries_nodup, List.length_map, entries, List.length_map]
  have hsub : seen ⊆ (mih.entries.map (·.1)).toFinset :=
    fun x hx => List.mem_toFinset.mpr (hknown x hx)
  have heq := Finset.eq_of_subset_of_card_le hsub (by omega)
  intro c hc
  rw [heq]
  exact List.mem_toFinset.mpr (List.mem_map_of_mem hc)

/-- When the loop stops, the heap holds the nearest codes. -/
theorem KnnInv.stop (h : KnnInv mih probe filter k st) {r : Nat}
    (hcover : ∀ x e, mih.codes.lookup x = some e → EngramLib.distance probe e ≤ r → x ∈ st.seen)
    (hstop : isExact st.heap k r ∨ mih.codes.entries.length ≤ st.seen.card ∨ 256 ≤ r) :
    st.heap.sortedAscending.map hitOf = nearest probe k filter mih.entries := by
  rcases hstop with hexact | hcard | hr
  · simp only [isExact, Bool.and_eq_true, decide_eq_true_eq] at hexact
    obtain ⟨hsize, hworst⟩ := hexact
    obtain ⟨wd, hwd, hle⟩ : ∃ wd, st.heap.worstDist = some wd ∧ wd ≤ r := by
      cases hw : st.heap.worstDist with
      | none => simp [hw] at hworst
      | some wd => exact ⟨wd, rfl, by simpa [hw] using hworst⟩
    apply hits_of_holds h.capacity
    have hfar : ∀ q ∈ mih.offeredOf probe filter (fun x => !decide (x ∈ st.seen)), wd < q.1 := by
      intro q hq
      obtain ⟨c, hc, rfl⟩ := List.mem_map.mp hq
      obtain ⟨hc, hunseen⟩ := List.mem_filter.mp (List.mem_filter.mp hc).1
      by_contra hnear
      have hdist : EngramLib.distance probe c.2 ≤ r := by
        simp only [ranked] at hnear
        omega
      have := hcover c.1 c.2 (mem_entries.mp hc) hdist
      simp [this] at hunseen
    exact (h.holds.append (hsize.trans h.capacity.symm) hwd hfar).congr (offeredOf_append _).symm
  · apply hits_of_holds h.capacity
    have hall := seen_all_of_card h.known hcard
    rw [← offeredOf_all (p := fun x => decide (x ∈ st.seen)) fun c hc => by simpa using hall c hc]
    exact h.holds
  · apply hits_of_holds h.capacity
    rw [← offeredOf_all (p := fun x => decide (x ∈ st.seen))]
    · exact h.holds
    · intro c hc
      have hdist := EngramLib.distance_le probe c.2
      simpa using hcover c.1 c.2 (mem_entries.mp hc) (by omega)

theorem holds_bruteScan (probe : Engram) (filter : Option MetadataFilter)
    (codes : List CodeEntry) {heap : BoundedMaxHeap}
    {offered : List (Nat × VectorRecordKey)} (h : heap.Holds offered) :
    (codes.foldl (bruteScanStep probe filter) heap).capacity = heap.capacity ∧
      (codes.foldl (bruteScanStep probe filter) heap).Holds
        (offered ++ (codes.filter fun c => acceptedBy filter c.1).map (ranked probe)) := by
  induction codes generalizing heap offered with
  | nil => exact ⟨rfl, by simpa using h⟩
  | cons c codes ih =>
    rw [List.foldl_cons, bruteScanStep]
    cases hacc : acceptedBy filter c.1 with
    | false =>
      rw [List.filter_cons_of_neg (by simp [hacc])]
      exact ih h
    | true =>
      rw [List.filter_cons_of_pos (by simpa using hacc)]
      obtain ⟨hcap, hholds⟩ := ih (h.offer (EngramLib.distance probe c.2) c.1)
      refine ⟨hcap.trans (BoundedMaxHeap.capacity_offer _ _ _), hholds.congr ?_⟩
      exact (@List.perm_middle _ _ offered _).symm

/-- The scan gives the nearest codes in whatever order the map yields them. -/
theorem bruteScan_eq (order : IterationOrder CodeEntry) (hk : 0 < k) :
    mih.bruteScan order probe k hk filter = nearest probe k filter mih.entries := by
  obtain ⟨hcap, hholds⟩ := holds_bruteScan probe filter (order.run mih.entries)
    (BoundedMaxHeap.holds_new hk)
  have hperm := ((order.perm mih.entries).filter fun c => acceptedBy filter c.1).map (ranked probe)
  exact hits_of_holds hcap (hholds.congr hperm)

/-- Every run of the radius loop gives the nearest codes. -/
theorem knnLoop_eq (hs : mih.Searchable) (order : IterationOrder CodeEntry) (hk : 0 < k)
    (budget r : Nat) (h : KnnInv mih probe filter k st) :
    mih.knnLoop order probe k hk filter budget r st = nearest probe k filter mih.entries := by
  fun_induction knnLoop with
  | case1 => exact bruteScan_eq order hk
  | case2 r st _ _ _ _ hstop =>
    obtain ⟨hinv, hcover⟩ := h.radiusStep hs r
    exact hinv.stop hcover hstop
  | case3 r st _ _ _ _ _ ih => exact ih (h.radiusStep hs r).1

theorem knn_eq (hs : mih.Searchable) (order : IterationOrder CodeEntry) (hk : 0 < k) :
    mih.knn order probe k hk filter = nearest probe k filter mih.entries :=
  knnLoop_eq hs order hk _ 0 (KnnInv.start hk)

/-- The search returns the nearest of the codes. -/
theorem search_eq (hs : mih.Searchable) (order : IterationOrder CodeEntry)
    {payload : VectorPayload} (hp : payload.IsCode) (k : Nat) (filter : Option MetadataFilter) :
    mih.search order payload DenseMetric.HAMMING k filter =
      .ok (nearest (Engram.ofLeBytes payload.bytes) k filter mih.entries) := by
  rw [search, if_neg (not_not.mpr hp.1), if_neg (by simp [DenseMetric.HAMMING])]
  by_cases hk : k = 0
  · rw [dif_pos hk, hk, nearest_zero]
  rw [dif_neg hk]
  by_cases hnil : mih.codes.entries = []
  · rw [if_pos hnil, entries, hnil]
    simp [nearest, sortByRank]
  · rw [if_neg hnil, payloadToEngram_eq hp]
    simp only [bind, Except.bind, knn_eq hs]

end MIHIndex

end MootMemory
