import MootMemory.MihProjection
import Mathlib.Data.Nat.Choose.Bounds

namespace MootMemory

/-- The running binomial after `d` turns; past the width it is zero. -/
def runningChoose (n : Nat) : Nat → Nat
  | 0 => 1
  | d + 1 => saturatingMul (runningChoose n d) (n - d) / (d + 1)

/-- The sum of the running binomials, uncapped. -/
def runningSum (n : Nat) : Nat → Nat
  | 0 => 1
  | rho + 1 => runningSum n rho + runningChoose n (rho + 1)

theorem runningSum_mono (n : Nat) {rho rho' : Nat} (h : rho ≤ rho') :
    runningSum n rho ≤ runningSum n rho' := by
  induction rho', h using Nat.le_induction with
  | base => exact le_refl _
  | succ rho' _ ih => exact ih.trans (Nat.le_add_right _ _)

theorem runningChoose_eq_zero {n d : Nat} (h : n < d) : runningChoose n d = 0 := by
  cases d with
  | zero => omega
  | succ d => simp [runningChoose, saturatingMul, show n - d = 0 by omega]

/-- Past the width nothing is added. -/
theorem runningSum_add (n more : Nat) : runningSum n (n + more) = runningSum n n := by
  induction more with
  | zero => rfl
  | succ more ih =>
    rw [← Nat.add_assoc, runningSum, ih, runningChoose_eq_zero (by omega), Nat.add_zero]

theorem runningSum_le_width (n rho : Nat) : runningSum n rho ≤ runningSum n n := by
  rw [← runningSum_add n rho]
  exact runningSum_mono n (Nat.le_add_left rho n)

/-- The loop adds the running binomials up and stops at the cap. -/
theorem cumulativeChooseLoop_eq {n : Nat} (remaining d : Nat) (h : runningSum n d < usizeMax) :
    cumulativeChooseLoop n remaining (d + 1) (runningChoose n d) (runningSum n d) =
      min (runningSum n (d + remaining)) usizeMax := by
  induction remaining generalizing d with
  | zero => exact (min_eq_left h.le).symm
  | succ remaining ih =>
    unfold cumulativeChooseLoop
    dsimp only
    split
    next hwide =>
      have hend : runningSum n (d + (remaining + 1)) = runningSum n d := by
        have hd := runningSum_add n (d - n)
        have hmore := runningSum_add n (d - n + (remaining + 1))
        rw [show n + (d - n) = d by omega] at hd
        rw [show n + (d - n + (remaining + 1)) = d + (remaining + 1) by omega] at hmore
        rw [hmore, hd]
      rw [hend, min_eq_left h.le]
    next hle =>
      have hc : saturatingMul (runningChoose n d) (n - (d + 1) + 1) / (d + 1) =
          runningChoose n (d + 1) := by
        rw [runningChoose, show n - (d + 1) + 1 = n - d by omega]
      have hsum : saturatingAdd (runningSum n d) (runningChoose n (d + 1)) =
          min (runningSum n (d + 1)) usizeMax := rfl
      rw [hc, hsum]
      split
      next hcap =>
        have hmono := runningSum_mono n (show d + 1 ≤ d + (remaining + 1) by omega)
        rw [min_eq_right ((min_eq_right_iff.mp hcap).trans hmono)]
      next hcap =>
        have hlt : runningSum n (d + 1) < usizeMax := by
          by_contra hge
          exact hcap (min_eq_right (not_lt.mp hge))
        rw [min_eq_left hlt.le, ih (d + 1) hlt, Nat.add_right_comm, Nat.add_assoc]

theorem cumulativeChoose_eq {n : Nat} (h0 : 1 ≤ n) (rho : Nat) :
    cumulativeChoose n rho = min (runningSum n rho) usizeMax := by
  have hone : runningSum n 0 < usizeMax := show 1 < usizeMax by decide
  have h := cumulativeChooseLoop_eq rho 0 hone
  rw [Nat.zero_add, Nat.zero_add] at h
  rw [cumulativeChoose, if_neg (by omega)]
  exact h

/-- No product of the recurrence overflows up to the radius. -/
def ProductsFit (n rho : Nat) : Prop := ∀ d, d ≤ rho → n.choose d * d ≤ usizeMax

theorem choose_mul_sub (n d : Nat) : n.choose d * (n - d) = n.choose (d + 1) * (d + 1) :=
  (Nat.choose_succ_right_eq n d).symm

theorem runningChoose_le (n d : Nat) : runningChoose n d ≤ n.choose d := by
  induction d with
  | zero => simp [runningChoose]
  | succ d ih =>
    calc runningChoose n (d + 1)
        ≤ n.choose d * (n - d) / (d + 1) := by
          refine Nat.div_le_div_right ((min_le_left _ _).trans ?_)
          exact Nat.mul_le_mul_right _ ih
      _ = n.choose (d + 1) := by
          rw [choose_mul_sub, Nat.mul_div_cancel _ (Nat.succ_pos d)]

theorem runningChoose_le_cap (n d : Nat) : runningChoose n (d + 1) ≤ usizeMax / (d + 1) :=
  Nat.div_le_div_right (min_le_right _ _)

/-- While the last binomial is exact, the next one is exact up to its cap. -/
theorem runningChoose_succ_of_exact {n d : Nat} (h : runningChoose n d = n.choose d) :
    runningChoose n (d + 1) = min (n.choose (d + 1)) (usizeMax / (d + 1)) := by
  rw [runningChoose, h, saturatingMul, choose_mul_sub]
  rcases Nat.le_total (n.choose (d + 1) * (d + 1)) usizeMax with hle | hle
  · rw [min_eq_left hle, Nat.mul_div_cancel _ (Nat.succ_pos d), min_eq_left]
    exact (Nat.le_div_iff_mul_le (Nat.succ_pos d)).mpr hle
  · rw [min_eq_right hle, min_eq_right]
    exact Nat.div_le_of_le_mul (by rwa [Nat.mul_comm] at hle)

theorem runningChoose_eq_choose {n d : Nat} (h : ProductsFit n d) :
    runningChoose n d = n.choose d := by
  induction d with
  | zero => simp [runningChoose]
  | succ d ih =>
    rw [runningChoose_succ_of_exact (ih fun e he => h e (by omega)), min_eq_left]
    exact (Nat.le_div_iff_mul_le (Nat.succ_pos d)).mpr (h (d + 1) le_rfl)

theorem runningSum_eq_masksUpTo {n rho : Nat} (h : ProductsFit n rho) :
    runningSum n rho = masksUpTo n rho := by
  induction rho with
  | zero => simp [runningSum, masksUpTo]
  | succ rho ih =>
    rw [runningSum, masksUpTo_succ, ih fun d hd => h d (by omega), runningChoose_eq_choose h]

theorem runningSum_le_masksUpTo (n rho : Nat) : runningSum n rho ≤ masksUpTo n rho := by
  induction rho with
  | zero => simp [runningSum, masksUpTo]
  | succ rho ih =>
    rw [runningSum, masksUpTo_succ]
    exact Nat.add_le_add ih (runningChoose_le n (rho + 1))

/-- An overflowing product loses a part of its binomial for good. -/
theorem runningSum_lt_masksUpTo {n rho : Nat} (h : ¬ProductsFit n rho) :
    runningSum n rho < masksUpTo n rho := by
  induction rho with
  | zero =>
    exact absurd (fun d hd => by simp [Nat.le_zero.mp hd]) h
  | succ rho ih =>
    rw [runningSum, masksUpTo_succ]
    by_cases hfits : ProductsFit n rho
    · have hover : usizeMax < n.choose (rho + 1) * (rho + 1) := by
        by_contra hle
        refine h fun d hd => ?_
        rcases Nat.lt_or_eq_of_le hd with hlt | rfl
        · exact hfits d (by omega)
        · exact not_lt.mp hle
      have hlost : usizeMax / (rho + 1) < n.choose (rho + 1) :=
        (Nat.div_lt_iff_lt_mul (Nat.succ_pos rho)).mpr hover
      have hcap := runningChoose_le_cap n rho
      have hle := runningSum_le_masksUpTo n rho
      omega
    · have hlt := ih hfits
      have hle := runningChoose_le n (rho + 1)
      omega

/-- The result is right unless a product overflowed and the rest did not reach the cap. -/
theorem min_runningSum_iff (n rho : Nat) :
    min (runningSum n rho) usizeMax = min (masksUpTo n rho) usizeMax ↔
      ProductsFit n rho ∨ usizeMax ≤ runningSum n rho := by
  by_cases h : ProductsFit n rho
  · simp [h, runningSum_eq_masksUpTo h]
  · have hlt := runningSum_lt_masksUpTo h
    simp only [h, false_or]
    omega

/-- The binomials up to the radius, each at most the quotient an overflow leaves. -/
def cappedSum (n rho : Nat) : Nat :=
  1 + ((List.range rho).map fun d => min (n.choose (d + 1)) (usizeMax / (d + 1))).sum

theorem cappedSum_succ (n rho : Nat) : cappedSum n (rho + 1) =
    cappedSum n rho + min (n.choose (rho + 1)) (usizeMax / (rho + 1)) := by
  simp [cappedSum, List.range_succ, Nat.add_assoc]

/-- Up to the middle an overflow is followed by overflows only. -/
theorem runningChoose_rising {n d : Nat} (hn : n < 2 ^ 32) (h : 2 * (d + 1) ≤ n + 1) :
    runningChoose n (d + 1) = min (n.choose (d + 1)) (usizeMax / (d + 1)) := by
  induction d with
  | zero => exact runningChoose_succ_of_exact (by simp [runningChoose])
  | succ d ih =>
    have hd := ih (by omega)
    rcases Nat.le_total (n.choose (d + 1)) (usizeMax / (d + 1)) with hle | hle
    · rw [min_eq_left hle] at hd
      exact runningChoose_succ_of_exact hd
    · rw [min_eq_right hle] at hd
      have hprod : usizeMax ≤ usizeMax / (d + 1) * (n - (d + 1)) := by
        have hq : 2 ^ 32 ≤ usizeMax / (d + 1) := by
          rw [Nat.le_div_iff_mul_le (Nat.succ_pos d)]
          calc 2 ^ 32 * (d + 1) ≤ 2 ^ 32 * (2 ^ 32 - 1) := Nat.mul_le_mul_left _ (by omega)
            _ ≤ usizeMax := by decide
        have hsplit := Nat.div_add_mod usizeMax (d + 1)
        have hmod : usizeMax % (d + 1) < d + 1 := Nat.mod_lt usizeMax (Nat.succ_pos d)
        calc usizeMax ≤ (d + 1) * (usizeMax / (d + 1)) + usizeMax / (d + 1) := by omega
          _ = usizeMax / (d + 1) * (d + 2) := by ring
          _ ≤ usizeMax / (d + 1) * (n - (d + 1)) := Nat.mul_le_mul_left _ (by omega)
      have hnext : usizeMax / (d + 1 + 1) ≤ n.choose (d + 1 + 1) := by
        refine Nat.div_le_of_le_mul ?_
        rw [Nat.mul_comm, ← choose_mul_sub]
        exact hprod.trans (Nat.mul_le_mul_right _ hle)
      rw [runningChoose, hd, saturatingMul, min_eq_right hprod, min_eq_right hnext]

theorem runningSum_eq_cappedSum {n rho : Nat} (hn : n < 2 ^ 32) (h : 2 * rho ≤ n + 1) :
    runningSum n rho = cappedSum n rho := by
  induction rho with
  | zero => simp [runningSum, cappedSum]
  | succ rho ih =>
    rw [runningSum, cappedSum_succ, ih (by omega), runningChoose_rising hn h]

theorem cappedSum_mono {n n' rho : Nat} (h : n ≤ n') : cappedSum n rho ≤ cappedSum n' rho := by
  induction rho with
  | zero => simp [cappedSum]
  | succ rho ih =>
    rw [cappedSum_succ, cappedSum_succ]
    exact Nat.add_le_add ih (min_le_min_right _ (Nat.choose_le_choose _ h))

/-- The widths whose falling half is what reaches the cap, and the radii where it does. -/
def SaturatesLate (n rho : Nat) : Prop :=
  n = 83 ∧ 56 ≤ rho ∨ n = 84 ∧ 48 ≤ rho ∨ n = 85 ∧ 47 ≤ rho ∨ 86 ≤ n ∧ n ≤ 88 ∧ 46 ≤ rho

theorem usizeMax_le_runningSum_iff {n : Nat} (h0 : 1 ≤ n) (rho : Nat) :
    usizeMax ≤ runningSum n rho ↔ cumulativeChoose n rho = usizeMax := by
  rw [cumulativeChoose_eq h0, min_eq_right_iff]

/-- No width up to 82 ever reaches the cap. -/
theorem runningSum_lt_of_narrow {n : Nat} (h0 : 1 ≤ n) (hn : n < 83) (rho : Nat) :
    runningSum n rho < usizeMax := by
  have hend : ∀ w < 83, cumulativeChoose w w ≠ usizeMax := by decide +kernel
  refine lt_of_le_of_lt (runningSum_le_width n rho) ?_
  by_contra hge
  exact hend n hn ((usizeMax_le_runningSum_iff h0 n).mp (not_lt.mp hge))

/-- Without products beyond a `usize` the binomials of a narrow band are summed exactly. -/
theorem cumulativeChoose_eq_masksUpTo {n rho : Nat} (h0 : 1 ≤ n) (hn : n < 83)
    (h : ProductsFit n rho) : cumulativeChoose n rho = masksUpTo n rho := by
  rw [cumulativeChoose_eq h0, min_eq_left (runningSum_lt_of_narrow h0 hn rho).le,
    runningSum_eq_masksUpTo h]

theorem productsFit_of_narrow {n : Nat} (hn : n ≤ 32) (rho : Nat) : ProductsFit n rho := by
  intro d _
  rcases Nat.lt_or_ge n d with hlt | hge
  · rw [Nat.choose_eq_zero_of_lt hlt, Nat.zero_mul]
    exact Nat.zero_le _
  · calc n.choose d * d ≤ 2 ^ 32 * 32 := Nat.mul_le_mul
          ((Nat.choose_le_two_pow n d).trans (Nat.pow_le_pow_right (by decide) hn)) (hge.trans hn)
      _ ≤ usizeMax := by decide

theorem productsFit_sixtyFour {rho : Nat} (h : rho ≤ 26) : ProductsFit 64 rho := by
  have hall : ∀ d < 27, Nat.choose 64 d * d ≤ usizeMax := by
    simp only [Nat.choose_eq_descFactorial_div_factorial]
    decide +kernel
  exact fun d hd => hall d (by omega)

/-- A sum that reaches the cap at a radius and not below it. -/
theorem usizeMax_le_runningSum_of_first {n first : Nat} (h0 : 1 ≤ n)
    (hbelow : cumulativeChoose n first ≠ usizeMax)
    (hat : cumulativeChoose n (first + 1) = usizeMax) (rho : Nat) :
    usizeMax ≤ runningSum n rho ↔ first + 1 ≤ rho := by
  constructor
  · intro h
    by_contra hlt
    have hmono := runningSum_mono n (show rho ≤ first by omega)
    exact hbelow ((usizeMax_le_runningSum_iff h0 first).mp (h.trans hmono))
  · intro h
    exact ((usizeMax_le_runningSum_iff h0 _).mpr hat).trans (runningSum_mono n h)

theorem usizeMax_le_runningSum_late {n : Nat} (h83 : 83 ≤ n) (h88 : n ≤ 88) (rho : Nat) :
    usizeMax ≤ runningSum n rho ↔ SaturatesLate n rho := by
  have hfirst : ∀ first, cumulativeChoose n first ≠ usizeMax →
      cumulativeChoose n (first + 1) = usizeMax →
      (usizeMax ≤ runningSum n rho ↔ first + 1 ≤ rho) := fun first hbelow hat =>
    usizeMax_le_runningSum_of_first (by omega) hbelow hat rho
  have hcases : n = 83 ∨ n = 84 ∨ n = 85 ∨ n = 86 ∨ n = 87 ∨ n = 88 := by omega
  unfold SaturatesLate
  rcases hcases with rfl | rfl | rfl | rfl | rfl | rfl
  · rw [hfirst 55 (by decide +kernel) (by decide +kernel)]; omega
  · rw [hfirst 47 (by decide +kernel) (by decide +kernel)]; omega
  · rw [hfirst 46 (by decide +kernel) (by decide +kernel)]; omega
  · rw [hfirst 45 (by decide +kernel) (by decide +kernel)]; omega
  · rw [hfirst 45 (by decide +kernel) (by decide +kernel)]; omega
  · rw [hfirst 45 (by decide +kernel) (by decide +kernel)]; omega

/-- From width 89 on the rising half alone reaches the cap. -/
theorem usizeMax_le_runningSum_wide {n : Nat} (h89 : 89 ≤ n) (hn : n < 2 ^ 32) (rho : Nat) :
    usizeMax ≤ runningSum n rho ↔ usizeMax ≤ cappedSum n (min rho ((n + 1) / 2)) := by
  rcases Nat.le_total rho ((n + 1) / 2) with h | h
  · rw [min_eq_left h, runningSum_eq_cappedSum hn (by omega)]
  · have hhalf : usizeMax ≤ runningSum n ((n + 1) / 2) := by
      have hleast : usizeMax ≤ cappedSum 89 45 := by
        rw [← runningSum_eq_cappedSum (by decide) (by decide),
          usizeMax_le_runningSum_iff (by decide)]
        decide +kernel
      calc usizeMax ≤ cappedSum 89 45 := hleast
        _ ≤ cappedSum n 45 := cappedSum_mono h89
        _ = runningSum n 45 := (runningSum_eq_cappedSum hn (by omega)).symm
        _ ≤ runningSum n ((n + 1) / 2) := runningSum_mono n (by omega)
    rw [min_eq_right h, ← runningSum_eq_cappedSum hn (by omega)]
    exact iff_of_true (hhalf.trans (runningSum_mono n h)) hhalf

/-- The capped terms reach the cap at the radius. -/
def SaturatesAt (n rho : Nat) : Prop :=
  usizeMax ≤ cappedSum n (min rho ((n + 1) / 2)) ∨ SaturatesLate n rho

theorem usizeMax_le_runningSum {n : Nat} (h0 : 1 ≤ n) (hn : n < 2 ^ 32) (rho : Nat) :
    usizeMax ≤ runningSum n rho ↔ SaturatesAt n rho := by
  have hrising : usizeMax ≤ cappedSum n (min rho ((n + 1) / 2)) → usizeMax ≤ runningSum n rho := by
    intro h
    rw [← runningSum_eq_cappedSum hn (by omega)] at h
    exact h.trans (runningSum_mono n (min_le_left _ _))
  have hlate : ∀ w : Nat, SaturatesLate w rho → 83 ≤ w ∧ w ≤ 88 := by
    unfold SaturatesLate
    omega
  unfold SaturatesAt
  constructor
  · intro h
    rcases Nat.lt_or_ge n 83 with hlow | h83
    · exact absurd h (not_le.mpr (runningSum_lt_of_narrow h0 hlow rho))
    · rcases Nat.lt_or_ge n 89 with hmid | h89
      · exact Or.inr ((usizeMax_le_runningSum_late h83 (by omega) rho).mp h)
      · exact Or.inl ((usizeMax_le_runningSum_wide h89 hn rho).mp h)
  · rintro (h | h)
    · exact hrising h
    · obtain ⟨h83, h88⟩ := hlate n h
      exact (usizeMax_le_runningSum_late h83 h88 rho).mpr h

/-- The sum of the binomials up to the radius if a `usize` holds it, and the cap otherwise. -/
def ChoosesExactly (n rho : Nat) : Prop :=
  cumulativeChoose n rho =
    if masksUpTo n (min rho n) ≤ usizeMax then masksUpTo n (min rho n) else usizeMax

theorem choosesExactly_iff_min (n rho : Nat) :
    ChoosesExactly n rho ↔ cumulativeChoose n rho = min (masksUpTo n rho) usizeMax := by
  rw [ChoosesExactly, masksUpTo_min, min_def]

/-- Exact, unless a product overflowed on the way and the capped terms stay below the cap. -/
theorem choosesExactly_iff {n : Nat} (h0 : 1 ≤ n) (hn : n < 2 ^ 32) (rho : Nat) :
    ChoosesExactly n rho ↔ ProductsFit n rho ∨ SaturatesAt n rho := by
  rw [choosesExactly_iff_min, cumulativeChoose_eq h0, min_runningSum_iff,
    usizeMax_le_runningSum h0 hn]

theorem choosesExactly_iff_quarter :
    ChoosesExactly 64 4 ↔ ProductsFit 64 4 ∨ SaturatesAt 64 4 :=
  choosesExactly_iff (by decide) (by decide) 4

/-- The widest band loses masks at radius 27, where `64 choose 27` still fits. -/
theorem not_choosesExactly_sixtyFour : masksUpTo 64 27 = 2402093292062053101 ∧
    cumulativeChoose 64 27 = 2238669057057460562 ∧ ¬ChoosesExactly 64 27 := by
  have hsum : masksUpTo 64 27 = 2402093292062053101 := by
    simp only [masksUpTo, funext (Nat.choose_eq_descFactorial_div_factorial 64)]
    decide +kernel
  have hcode : cumulativeChoose 64 27 = 2238669057057460562 := by decide +kernel
  refine ⟨hsum, hcode, fun h => ?_⟩
  rw [choosesExactly_iff_min, hcode, hsum] at h
  exact absurd h (by decide)

end MootMemory
