import MootMemory.EffectRun
import MootMemory.OrderedMap
import MootMemory.StableSort
import MootMemory.VectorTypes
import Mathlib.Algebra.Order.BigOperators.Group.List
import Mathlib.Data.Prod.Lex

namespace MootMemory

structure MaxSimHit where
  itemId : String
  score : UInt32
deriving DecidableEq, Repr

/-- The id and the number of a hit. -/
def MaxSimHit.scored (hit : MaxSimHit) : String × Nat := (hit.itemId, hit.score.toNat)

/-- Larger scores rank first, then smaller ids. -/
def MaxSimHit.rank (hit : MaxSimHit) : Natᵒᵈ ×ₗ String :=
  toLex (OrderDual.toDual hit.score.toNat, hit.itemId)

theorem MaxSimHit.rank_le_iff {a b : MaxSimHit} : a.rank ≤ b.rank ↔
    b.score.toNat < a.score.toNat ∨ (a.score.toNat = b.score.toNat ∧ a.itemId ≤ b.itemId) := by
  rw [rank, rank, Prod.Lex.toLex_le_toLex]
  simp

/-- The documents of a call by their ids: the tokens of each. -/
abbrev TokenDocuments := OrderedMap (id : String → String) (List Engram)

namespace MaxSimScorer

/-- The 32-bit sum; past the range a build with overflow checks panics and one without wraps. -/
def addU32 (checks : Bool) (total : UInt32) (n : Nat) : Except Fault UInt32 :=
  if checks && 2 ^ 32 ≤ total.toNat + n then .error .panic
  else .ok (UInt32.ofNat (total.toNat + n))

/-- The least distance of the token to one of the document; there has to be one. -/
def minDistance (queryToken : Engram) (docTokens : List Engram) : Except Fault Nat :=
  match (docTokens.map (EngramLib.distance queryToken)).min? with
  | some d => .ok d
  | none => .error .panic

def addToken (checks : Bool) (docTokens : List Engram) (totalScore : UInt32)
    (queryToken : Engram) : Except Fault UInt32 := do
  let minDist ← minDistance queryToken docTokens
  addU32 checks totalScore (256 - minDist)

def computeMaxSim (checks : Bool) (queryTokens docTokens : List Engram) : Except Fault UInt32 :=
  if queryTokens.isEmpty || docTokens.isEmpty then .ok 0
  else queryTokens.foldlM (addToken checks docTokens) 0

/-- Larger scores first, the smaller id first among equal ones. -/
def hitCmp (a b : MaxSimHit) : Ordering :=
  (compare b.score.toNat a.score.toNat).then (compare a.itemId b.itemId)

def scoreDocument (checks : Bool) (queryTokens : List Engram) (doc : String × List Engram) :
    Except Fault MaxSimHit := do
  let score ← computeMaxSim checks queryTokens doc.2
  .ok ⟨doc.1, score⟩

def score (checks : Bool) (queryTokens : List Engram) (documents : TokenDocuments) (k : Nat) :
    Except Fault (List MaxSimHit) :=
  if k = 0 || documents.entries.isEmpty then .ok []
  else do
    let results ← documents.entries.mapM (scoreDocument checks queryTokens)
    .ok ((results.mergeSort fun a b => (hitCmp a b).isLE).take k)

/-- The similarity as a natural number; a document without tokens is at distance 256. -/
def maxSim (queryTokens docTokens : List Engram) : Nat :=
  (queryTokens.map fun q =>
    256 - ((docTokens.map (EngramLib.distance q)).min?.getD 256)).sum

/-- The hits are the front of the documents ranked by similarity, with their similarities. -/
def Exact (queryTokens : List Engram) (documents : TokenDocuments) (k : Nat)
    (hits : List MaxSimHit) : Prop :=
  ∃ ranked : List (String × Nat),
    ranked.Perm (documents.entries.map fun d => (d.1, maxSim queryTokens d.2)) ∧
      ranked.Pairwise (fun a b => b.2 < a.2 ∨ (a.2 = b.2 ∧ a.1 < b.1)) ∧
      hits.map (fun h => (h.itemId, h.score.toNat)) = ranked.take k

variable {checks : Bool} {queryTokens docTokens : List Engram} {documents : TokenDocuments}
  {k : Nat} {hits : List MaxSimHit}

@[simp] theorem maxSim_nil_query (docTokens : List Engram) : maxSim [] docTokens = 0 := rfl

@[simp] theorem maxSim_nil_doc (queryTokens : List Engram) : maxSim queryTokens [] = 0 := by
  simp [maxSim]

theorem maxSim_cons (q : Engram) (queryTokens docTokens : List Engram) :
    maxSim (q :: queryTokens) docTokens =
      256 - ((docTokens.map (EngramLib.distance q)).min?.getD 256) +
        maxSim queryTokens docTokens := by
  rw [maxSim, List.map_cons, List.sum_cons]
  rfl

/-- A query of fewer than 2^24 tokens stays in the range of 32 bits. -/
theorem maxSim_le (queryTokens docTokens : List Engram) :
    maxSim queryTokens docTokens ≤ queryTokens.length * 256 := by
  induction queryTokens with
  | nil => exact Nat.zero_le _
  | cons q queryTokens ih =>
    rw [maxSim_cons, List.length_cons]
    omega

theorem minDistance_eq (hdoc : docTokens ≠ []) (q : Engram) :
    minDistance q docTokens = .ok ((docTokens.map (EngramLib.distance q)).min?.getD 256) := by
  have hne : docTokens.map (EngramLib.distance q) ≠ [] := by simpa using hdoc
  rw [minDistance]
  cases hmin : (docTokens.map (EngramLib.distance q)).min? with
  | none => exact absurd (List.min?_eq_none_iff.mp hmin) hne
  | some d => rfl

theorem toNat_ofNat_of_lt {n : Nat} (h : n < 2 ^ 32) : (UInt32.ofNat n).toNat = n := by
  rw [UInt32.toNat_ofNat', Nat.mod_eq_of_lt h]

theorem addU32_of_lt {total : UInt32} {n : Nat} (h : total.toNat + n < 2 ^ 32) :
    addU32 checks total n = .ok (UInt32.ofNat (total.toNat + n)) := by
  rw [addU32, if_neg]
  rw [Bool.and_eq_true, decide_eq_true_eq]
  omega

/-- While the sum stays in the range, the loop adds up the similarity. -/
theorem foldlM_addToken (hdoc : docTokens ≠ []) {total : UInt32}
    (h : total.toNat + maxSim queryTokens docTokens < 2 ^ 32) :
    queryTokens.foldlM (addToken checks docTokens) total =
      .ok (UInt32.ofNat (total.toNat + maxSim queryTokens docTokens)) := by
  induction queryTokens generalizing total with
  | nil =>
    rw [maxSim_nil_query, Nat.add_zero, UInt32.ofNat_toNat]
    rfl
  | cons q queryTokens ih =>
    rw [maxSim_cons] at h ⊢
    generalize hd : (docTokens.map (EngramLib.distance q)).min?.getD 256 = d at h ⊢
    have hstep : addToken checks docTokens total q =
        .ok (UInt32.ofNat (total.toNat + (256 - d))) := by
      have hadd : addU32 checks total (256 - d) =
          .ok (UInt32.ofNat (total.toNat + (256 - d))) := addU32_of_lt (by omega)
      rw [addToken, minDistance_eq hdoc, hd]
      exact hadd
    have hnext : (UInt32.ofNat (total.toNat + (256 - d))).toNat = total.toNat + (256 - d) :=
      toNat_ofNat_of_lt (by omega)
    rw [List.foldlM_cons, hstep]
    refine (ih (by rw [hnext]; omega)).trans ?_
    rw [hnext, Nat.add_assoc]

theorem computeMaxSim_eq (h : maxSim queryTokens docTokens < 2 ^ 32) :
    computeMaxSim checks queryTokens docTokens =
      .ok (UInt32.ofNat (maxSim queryTokens docTokens)) := by
  rw [computeMaxSim]
  split
  next hempty =>
    rw [Bool.or_eq_true, List.isEmpty_iff, List.isEmpty_iff] at hempty
    rcases hempty with rfl | rfl
    · rfl
    · rw [maxSim_nil_doc]
      rfl
  next hfull =>
    rw [Bool.or_eq_true, List.isEmpty_iff, List.isEmpty_iff, not_or] at hfull
    have hloop : queryTokens.foldlM (addToken checks docTokens) 0 =
        .ok (UInt32.ofNat ((0 : UInt32).toNat + maxSim queryTokens docTokens)) :=
      foldlM_addToken hfull.2 (by simpa using h)
    rw [hloop, UInt32.toNat_zero, Nat.zero_add]

/-- The hit of a document whose similarity is in the range. -/
def exactHit (queryTokens : List Engram) (doc : String × List Engram) : MaxSimHit :=
  ⟨doc.1, UInt32.ofNat (maxSim queryTokens doc.2)⟩

theorem hitCmp_isLE (a b : MaxSimHit) : (hitCmp a b).isLE = decide (a.rank ≤ b.rank) := by
  rw [Bool.eq_iff_iff, decide_eq_true_eq, MaxSimHit.rank_le_iff, hitCmp, Ordering.isLE_then_iff_or,
    compare_lt_iff_lt, compare_eq_iff_eq, Ordering.isLE_iff_ne_gt, ← ne_eq, compare_le_iff_le,
    eq_comm (a := b.score.toNat)]

theorem sorted_hits (results : List MaxSimHit) :
    (results.mergeSort fun a b => (hitCmp a b).isLE) = stableSort MaxSimHit.rank results := by
  simp only [hitCmp_isLE]
  rfl

/-- While no similarity leaves the range, the result is exact. -/
theorem score_of_lt (hrange : ∀ d ∈ documents.entries, maxSim queryTokens d.2 < 2 ^ 32) (k : Nat) :
    ∃ hits, score checks queryTokens documents k = .ok hits ∧
      Exact queryTokens documents k hits := by
  have hresults : documents.entries.mapM (scoreDocument checks queryTokens) =
      .ok (documents.entries.map (exactHit queryTokens)) := by
    refine mapM_ok fun d hd => ?_
    rw [scoreDocument, computeMaxSim_eq (hrange d hd)]
    rfl
  have hscored : (documents.entries.map (exactHit queryTokens)).map MaxSimHit.scored =
      documents.entries.map fun d => (d.1, maxSim queryTokens d.2) := by
    rw [List.map_map]
    refine List.map_congr_left fun d hd => ?_
    rw [Function.comp_apply, MaxSimHit.scored, exactHit, toNat_ofNat_of_lt (hrange d hd)]
  have hids : (documents.entries.map (exactHit queryTokens)).Pairwise
      fun a b => a.itemId ≠ b.itemId :=
    List.pairwise_map.mpr (documents.ordered.imp fun h => h.ne)
  obtain ⟨results, hdef⟩ : ∃ results, documents.entries.map (exactHit queryTokens) = results :=
    ⟨_, rfl⟩
  rw [hdef] at hresults hscored hids
  have hperm := stableSort_perm MaxSimHit.rank results
  have hranked : ((stableSort MaxSimHit.rank results).map MaxSimHit.scored).Pairwise
      fun a b => b.2 < a.2 ∨ (a.2 = b.2 ∧ a.1 < b.1) := by
    rw [List.pairwise_map]
    have hdistinct := hids.perm hperm.symm fun h => h.symm
    refine ((stableSort_pairwise MaxSimHit.rank results).and hdistinct).imp fun h => ?_
    rcases MaxSimHit.rank_le_iff.mp h.1 with hlt | ⟨heq, hle⟩
    · exact Or.inl hlt
    · exact Or.inr ⟨heq, lt_of_le_of_ne hle h.2⟩
  refine ⟨(stableSort MaxSimHit.rank results).take k, ?_,
    (stableSort MaxSimHit.rank results).map MaxSimHit.scored, ?_, hranked, List.map_take⟩
  · rw [score]
    split
    next hnone =>
      rw [Bool.or_eq_true, decide_eq_true_eq, List.isEmpty_iff] at hnone
      rcases hnone with rfl | hnone
      · rw [List.take_zero]
      · rw [hnone, List.map_nil] at hdef
        rw [← hdef, List.perm_nil.mp (stableSort_perm MaxSimHit.rank []), List.take_nil]
    next =>
      rw [hresults]
      change Except.ok _ = _
      rw [sorted_hits]
  · rw [← hscored]
    exact hperm.map _

/-- An exact result has all similarities in the range: the front hit carries the largest. -/
theorem Exact.lt (hk : 1 ≤ k) (h : Exact queryTokens documents k hits) :
    ∀ d ∈ documents.entries, maxSim queryTokens d.2 < 2 ^ 32 := by
  intro d hd
  obtain ⟨ranked, hperm, hranked, hhits⟩ := h
  have hmem : (d.1, maxSim queryTokens d.2) ∈ ranked :=
    hperm.mem_iff.mpr (List.mem_map_of_mem hd)
  cases ranked with
  | nil => cases hmem
  | cons best rest =>
    obtain ⟨n, rfl⟩ := Nat.exists_eq_add_of_le' hk
    rw [List.take_succ_cons] at hhits
    have hbest : best ∈ hits.map fun h => (h.itemId, h.score.toNat) := by
      rw [hhits]
      exact List.mem_cons_self
    obtain ⟨hit, -, rfl⟩ := List.mem_map.mp hbest
    have hrange : hit.score.toNat < 2 ^ 32 := hit.score.toNat_lt
    rcases List.mem_cons.mp hmem with heq | hrest
    · rw [show maxSim queryTokens d.2 = hit.score.toNat from congrArg Prod.snd heq]
      exact hrange
    · rcases (List.pairwise_cons.mp hranked).1 _ hrest with hlt | ⟨heq, -⟩
      · exact lt_trans hlt hrange
      · exact lt_of_eq_of_lt heq.symm hrange

/-- Scoring is exact where every similarity fits into 32 bits, and nowhere else. -/
theorem score_exact_iff (checks : Bool) (queryTokens : List Engram) (documents : TokenDocuments)
    {k : Nat} (hk : 1 ≤ k) :
    (∃ hits, score checks queryTokens documents k = .ok hits ∧
      Exact queryTokens documents k hits) ↔
      ∀ d ∈ documents.entries, maxSim queryTokens d.2 < 2 ^ 32 := by
  constructor
  · rintro ⟨hits, -, hexact⟩
    exact hexact.lt hk
  · intro hrange
    exact score_of_lt hrange k

def zeroToken : Engram := ⟨0, 0, 0, 0⟩

/-- One document of one token. -/
def oneDocument : TokenDocuments := OrderedMap.empty.insert "d" [zeroToken]

def lowToken : Engram := ⟨0, 0, 0, 15⟩

/-- A document of two tokens, one of a single token and one without any. -/
def threeDocuments : TokenDocuments :=
  ((OrderedMap.empty.insert "d" [zeroToken]).insert "e" [lowToken, zeroToken]).insert "f" []

/-- For a query of two tokens the documents have the similarities 508, 512 and 0. -/
theorem score_exact_iff_threeDocuments :
    threeDocuments.entries.map (fun d => (d.1, maxSim [zeroToken, lowToken] d.2)) =
        [("d", 508), ("e", 512), ("f", 0)] ∧
      ∃ hits, score true [zeroToken, lowToken] threeDocuments 2 = .ok hits ∧
        Exact [zeroToken, lowToken] threeDocuments 2 hits := by
  refine ⟨by decide +kernel, ?_⟩
  refine (score_exact_iff true [zeroToken, lowToken] threeDocuments (by decide)).mpr ?_
  intro d _
  exact lt_of_le_of_lt (maxSim_le [zeroToken, lowToken] d.2) (by decide)

theorem maxSim_replicate (n : Nat) :
    maxSim (List.replicate n zeroToken) [zeroToken] = n * 256 := by
  rw [maxSim, List.map_replicate, List.sum_replicate]
  rfl

/-- A query of 2^24 tokens that the document has is past the range. -/
theorem not_score_exact : ¬∀ (checks : Bool) (queryTokens : List Engram)
    (documents : TokenDocuments) (k : Nat), 1 ≤ k →
    ∃ hits, score checks queryTokens documents k = .ok hits ∧
      Exact queryTokens documents k hits := by
  intro h
  obtain ⟨hits, -, hexact⟩ := h true (List.replicate (2 ^ 24) zeroToken) oneDocument 1 le_rfl
  have hmem : ("d", [zeroToken]) ∈ oneDocument.entries := by decide
  have hlt := hexact.lt le_rfl _ hmem
  rw [maxSim_replicate] at hlt
  omega

end MaxSimScorer

end MootMemory
