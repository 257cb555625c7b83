import MootMemory.MihKnn
import Mathlib.Data.Nat.Choose.Basic

namespace MootMemory

/-- There are as many numbers of a width and a weight as ways to choose the set bits. -/
theorem countP_bitCount (n d : Nat) :
    (List.range (2 ^ n)).countP (fun x => bitCount n x = d) = n.choose d := by
  induction n generalizing d with
  | zero => cases d <;> simp
  | succ n ih =>
    have hlow : (List.range (2 ^ n)).countP (fun x => bitCount (n + 1) x = d) =
        (List.range (2 ^ n)).countP fun x => bitCount n x = d := by
      refine List.countP_congr fun x hx => ?_
      rw [bitCount_of_lt 1 (List.mem_range.mp hx)]
    have hhigh : ∀ x ∈ List.range (2 ^ n), bitCount (n + 1) (2 ^ n + x) = bitCount n x + 1 := by
      intro x hx
      have h := bitCount_two_pow_mul_add 1 1 (List.mem_range.mp hx)
      rwa [Nat.mul_one] at h
    rw [show 2 ^ (n + 1) = 2 ^ n + 2 ^ n by ring, List.range_add, List.countP_append,
      List.countP_map, hlow, ih]
    cases d with
    | zero =>
      have hnone : (List.range (2 ^ n)).countP
          ((fun x => decide (bitCount (n + 1) x = 0)) ∘ fun x => 2 ^ n + x) = 0 := by
        refine List.countP_eq_zero.mpr fun x hx => ?_
        rw [Function.comp_apply, hhigh x hx]
        simp
      rw [hnone, Nat.choose_zero_right, Nat.choose_zero_right]
    | succ d =>
      have hshift : (List.range (2 ^ n)).countP
          ((fun x => decide (bitCount (n + 1) x = d + 1)) ∘ fun x => 2 ^ n + x) =
            n.choose d := by
        rw [← ih d]
        refine List.countP_congr fun x hx => ?_
        rw [Function.comp_apply, hhigh x hx]
        simp
      rw [hshift, Nat.choose_succ_succ, Nat.add_comm]

theorem masksOfWeight_sorted (n d : Nat) : (masksOfWeight n d).Pairwise (· < ·) := by
  rw [masksOfWeight]
  split
  next => exact List.pairwise_singleton _ _
  next =>
    split
    next => exact List.Pairwise.nil
    next => exact gosperRun_sorted n _ _

theorem nodup_masksOfWeight (n d : Nat) : (masksOfWeight n d).Nodup :=
  (masksOfWeight_sorted n d).imp fun h => Nat.ne_of_lt h

theorem length_masksOfWeight {n : Nat} (hn : n ≤ 64) (d : Nat) :
    (masksOfWeight n d).length = n.choose d := by
  rw [← countP_bitCount, List.countP_eq_length_filter]
  refine List.Perm.length_eq ((List.perm_ext_iff_of_nodup (nodup_masksOfWeight n d)
    (List.nodup_range.filter _)).mpr fun x => ?_)
  rw [mem_masksOfWeight hn, List.mem_filter, List.mem_range, decide_eq_true_eq]
  refine and_congr_right fun hx => ?_
  have hwide := bitCount_of_lt (64 - n) hx
  rw [Nat.add_sub_cancel' hn] at hwide
  rw [hwide]

/-- The number of masks of a width up to a weight. -/
def masksUpTo (n rho : Nat) : Nat := ((List.range (rho + 1)).map n.choose).sum

theorem length_flipMasks {n : Nat} (h0 : 0 < n) (hn : n ≤ 64) (rho : Nat) :
    (flipMasks n rho).length = masksUpTo n rho := by
  rw [flipMasks, if_neg (by omega), List.length_flatMap, masksUpTo]
  congr 1
  exact List.map_congr_left fun d _ => length_masksOfWeight hn d

/-- Lighter masks come first, and among masks of one weight the smaller ones. -/
def VisitedBefore (x y : Nat) : Prop :=
  bitCount 64 x < bitCount 64 y ∨ bitCount 64 x = bitCount 64 y ∧ x < y

theorem flipMasks_pairwise {n : Nat} (h0 : 0 < n) (hn : n ≤ 64) (rho : Nat) :
    (flipMasks n rho).Pairwise VisitedBefore := by
  have hweights : ∀ d, ((List.range d).flatMap (masksOfWeight n)).Pairwise VisitedBefore := by
    intro d
    induction d with
    | zero => exact List.Pairwise.nil
    | succ d ih =>
      rw [List.range_succ, List.flatMap_append, List.flatMap_singleton, List.pairwise_append]
      refine ⟨ih, ?_, ?_⟩
      · refine (masksOfWeight_sorted n d).imp_of_mem fun {x y} hx hy hlt => Or.inr ⟨?_, hlt⟩
        have hcx := ((mem_masksOfWeight hn).mp hx).2
        have hcy := ((mem_masksOfWeight hn).mp hy).2
        omega
      · intro x hx y hy
        obtain ⟨e, he, hxe⟩ := List.mem_flatMap.mp hx
        have hlt := List.mem_range.mp he
        have hcx := ((mem_masksOfWeight hn).mp hxe).2
        have hcy := ((mem_masksOfWeight hn).mp hy).2
        left
        omega
  rw [flipMasks, if_neg (by omega)]
  exact hweights (rho + 1)

theorem masksUpTo_mono (n : Nat) {rho rho' : Nat} (h : rho ≤ rho') :
    masksUpTo n rho ≤ masksUpTo n rho' := by
  obtain ⟨more, rfl⟩ := Nat.exists_eq_add_of_le h
  have hsplit : List.range (rho + more + 1) =
      List.range (rho + 1) ++ (List.range more).map fun i => rho + 1 + i := by
    rw [← List.range_add]
    congr 1
    omega
  rw [masksUpTo, masksUpTo, hsplit, List.map_append, List.sum_append]
  exact Nat.le_add_right _ _

theorem masksUpTo_succ (n rho : Nat) :
    masksUpTo n (rho + 1) = masksUpTo n rho + n.choose (rho + 1) := by
  rw [masksUpTo, masksUpTo, List.range_succ, List.map_append, List.sum_append]
  simp

theorem one_le_masksUpTo (n rho : Nat) : 1 ≤ masksUpTo n rho :=
  le_trans (by simp [masksUpTo]) (masksUpTo_mono n (Nat.zero_le rho))

/-- There are no masks heavier than they are wide. -/
theorem masksUpTo_add {n rho : Nat} (h : n ≤ rho) (more : Nat) :
    masksUpTo n (rho + more) = masksUpTo n rho := by
  induction more with
  | zero => rfl
  | succ more ih =>
    rw [← Nat.add_assoc, masksUpTo_succ, ih, Nat.choose_eq_zero_of_lt (by omega), Nat.add_zero]

theorem masksUpTo_min (n rho : Nat) : masksUpTo n (min rho n) = masksUpTo n rho := by
  rcases Nat.le_total rho n with h | h
  · rw [min_eq_left h]
  · rw [min_eq_right h]
    obtain ⟨more, rfl⟩ := Nat.exists_eq_add_of_le h
    exact (masksUpTo_add le_rfl more).symm

/-- The calls of the enumeration, in order. -/
def flipMaskCalls (subBits maxHamming : Nat) : List Nat :=
  colexFlipMasks subBits maxHamming (fun mask calls => calls ++ [mask]) []

theorem flipMaskCalls_eq (subBits maxHamming : Nat) :
    flipMaskCalls subBits maxHamming = flipMasks subBits maxHamming := by
  have happend : ∀ ms acc : List Nat,
      ms.foldl (fun calls mask => calls ++ [mask]) acc = acc ++ ms := by
    intro ms
    induction ms with
    | nil => simp
    | cons m ms ih => intro acc; rw [List.foldl_cons, ih]; simp
  rw [flipMaskCalls, colexFlipMasks_eq_foldl, happend, List.nil_append]

/-- Every mask of the width and at most the weight is visited once, light ones first and
    in increasing order within a weight. -/
theorem colexFlipMasks_enumerates {n : Nat} (h0 : 1 ≤ n) (hn : n ≤ 64) (maxHamming : Nat) :
    (∀ (σ : Type) (f : Nat → σ → σ) (s : σ), colexFlipMasks n maxHamming f s =
      (flipMaskCalls n maxHamming).foldl (fun s mask => f mask s) s) ∧
    (∀ x, x ∈ flipMaskCalls n maxHamming ↔ x < 2 ^ n ∧ bitCount 64 x ≤ maxHamming) ∧
    (flipMaskCalls n maxHamming).Nodup ∧
    (flipMaskCalls n maxHamming).Pairwise VisitedBefore ∧
    (flipMaskCalls n maxHamming).length =
      ((List.range (min maxHamming n + 1)).map n.choose).sum := by
  rw [flipMaskCalls_eq]
  refine ⟨fun σ f s => colexFlipMasks_eq_foldl n maxHamming f s, fun x => mem_flipMasks h0 hn,
    ?_, flipMasks_pairwise h0 hn maxHamming, ?_⟩
  · refine (flipMasks_pairwise h0 hn maxHamming).imp ?_
    rintro x y (hlt | ⟨_, hlt⟩) rfl
    · exact lt_irrefl _ hlt
    · exact lt_irrefl _ hlt
  · rw [length_flipMasks h0 hn, ← masksUpTo_min]
    rfl

theorem colexFlipMasks_enumerates_full :
    (∀ x, x ∈ flipMaskCalls 64 64 ↔ x < 2 ^ 64 ∧ bitCount 64 x ≤ 64) ∧
    (flipMaskCalls 64 64).length = ((List.range 65).map (Nat.choose 64)).sum :=
  have h := colexFlipMasks_enumerates (by decide : 1 ≤ 64) le_rfl 64
  ⟨h.2.1, h.2.2.2.2⟩

theorem le_cumulativeChooseLoop {n sum : Nat} (remaining d c : Nat) (h : sum ≤ usizeMax) :
    sum ≤ cumulativeChooseLoop n remaining d c sum := by
  induction remaining generalizing d c sum with
  | zero => exact le_refl sum
  | succ remaining ih =>
    unfold cumulativeChooseLoop
    dsimp only
    split
    next => exact le_refl sum
    next =>
      split
      next => exact h
      next =>
        have hle : sum ≤ saturatingAdd sum (saturatingMul c (n - d + 1) / d) :=
          le_min (Nat.le_add_right _ _) h
        exact hle.trans (ih _ _ (min_le_right _ _))

/-- The binomials are summed exactly, or the sum is huge. -/
theorem cumulativeChooseLoop_eq_or {n : Nat} (hn : n ≤ 64) (remaining d : Nat) :
    cumulativeChooseLoop n remaining (d + 1) (n.choose d) (masksUpTo n d) =
        masksUpTo n (d + remaining) ∨
      2 ^ 58 ≤ cumulativeChooseLoop n remaining (d + 1) (n.choose d) (masksUpTo n d) := by
  induction remaining generalizing d with
  | zero => exact Or.inl rfl
  | succ remaining ih =>
    unfold cumulativeChooseLoop
    dsimp only
    split
    next hlt => exact Or.inl (masksUpTo_add (by omega) _).symm
    next hle =>
      have hnext : n.choose d * (n - (d + 1) + 1) = n.choose (d + 1) * (d + 1) := by
        rw [Nat.choose_succ_right_eq]
        congr 1
        omega
      have hmax : usizeMax = 2 ^ 64 - 1 := rfl
      rw [saturatingMul, hnext]
      by_cases hfits : n.choose (d + 1) * (d + 1) ≤ usizeMax
      · rw [min_eq_left hfits, Nat.mul_div_cancel _ (Nat.succ_pos d), saturatingAdd,
          ← masksUpTo_succ]
        by_cases hsum : masksUpTo n (d + 1) < usizeMax
        · rw [min_eq_left hsum.le, if_neg hsum.ne, show d + (remaining + 1) = d + 1 + remaining by
            omega]
          exact ih (d + 1)
        · rw [min_eq_right (by omega), if_pos rfl]
          exact Or.inr (by omega)
      · rw [min_eq_right (by omega)]
        right
        have hquotient : 2 ^ 58 - 1 ≤ usizeMax / (d + 1) := by
          rw [Nat.le_div_iff_mul_le (Nat.succ_pos d)]
          calc (2 ^ 58 - 1) * (d + 1) ≤ (2 ^ 58 - 1) * 64 := Nat.mul_le_mul_left _ (by omega)
            _ ≤ usizeMax := by omega
        have hone := one_le_masksUpTo n d
        split
        next => omega
        next =>
          refine le_trans ?_ (le_cumulativeChooseLoop _ _ _ (min_le_right _ _))
          exact le_min (by omega) (by omega)

theorem cumulativeChoose_eq_or {n : Nat} (h0 : 0 < n) (hn : n ≤ 64) (rho : Nat) :
    cumulativeChoose n rho = masksUpTo n rho ∨ 2 ^ 58 ≤ cumulativeChoose n rho := by
  rw [cumulativeChoose, if_neg (by omega)]
  have h := cumulativeChooseLoop_eq_or hn rho 0
  rwa [Nat.zero_add, Nat.choose_zero_right, show masksUpTo n 0 = 1 by simp [masksUpTo],
    Nat.zero_add] at h

end MootMemory
