import MootMemory.BitCount
import Mathlib.Algebra.Ring.Parity

namespace MootMemory

/-- The word with the bits of `a` above a zero, and `s` set bits starting at position `t`. -/
def runMask (a t s : Nat) : Nat := 2 ^ (t + s + 1) * a + 2 ^ t * (2 ^ s - 1)

theorem odd_eq_runMask (y : Nat) : ∃ a s, 1 ≤ s ∧ 2 * y + 1 = runMask a 0 s := by
  induction y using Nat.strongRecOn with
  | ind y ih =>
    rcases Nat.even_or_odd' y with ⟨z, hz | hz⟩
    · exact ⟨z, 1, le_rfl, by simp [runMask, hz]; ring⟩
    · obtain ⟨a, s, hs, he⟩ := ih z (by omega)
      refine ⟨a, s + 1, by omega, ?_⟩
      have hp := Nat.two_pow_pos s
      simp only [runMask, Nat.zero_add, pow_zero, Nat.one_mul] at he ⊢
      rw [hz, he, pow_succ 2 (s + 1), pow_succ 2 s]
      have : 2 ^ s * 2 * 2 * a = 2 * (2 ^ s * 2 * a) := by ring
      omega

/-- Every nonzero word has a lowest run of set bits. -/
theorem exists_runMask {x : Nat} (hx : 0 < x) : ∃ a t s, 1 ≤ s ∧ x = runMask a t s := by
  induction x using Nat.strongRecOn with
  | ind x ih =>
    rcases Nat.even_or_odd' x with ⟨y, hy | hy⟩
    · obtain ⟨a, t, s, hs, he⟩ := ih y (by omega) (by omega)
      refine ⟨a, t + 1, s, hs, ?_⟩
      rw [hy, he]
      simp only [runMask]
      ring
    · obtain ⟨a, s, hs, he⟩ := odd_eq_runMask y
      exact ⟨a, 0, s, hs, hy.trans he⟩

theorem runMask_low_lt (t s : Nat) : 2 ^ t * (2 ^ s - 1) < 2 ^ (t + s) := by
  rw [pow_add]
  exact (Nat.mul_lt_mul_left (Nat.two_pow_pos t)).mpr (Nat.sub_lt (Nat.two_pow_pos s) (by decide))

theorem runMask_eq_two_pow_mul {a t s : Nat} (hs : 1 ≤ s) :
    runMask a t s = 2 ^ t * (2 * (2 ^ s * a + (2 ^ (s - 1) - 1)) + 1) := by
  have hp := Nat.two_pow_pos (s - 1)
  have he : 2 ^ s = 2 * 2 ^ (s - 1) := by rw [← pow_succ', Nat.sub_add_cancel hs]
  have hlow : 2 ^ s - 1 = 2 * (2 ^ (s - 1) - 1) + 1 := by omega
  simp only [runMask, hlow]
  ring

/-- `x & -x` in `w`-bit arithmetic isolates the lowest set bit. -/
theorem and_two_pow_sub_self {w t q : Nat} (hx : 2 ^ t * (2 * q + 1) < 2 ^ w) :
    2 ^ t * (2 * q + 1) &&& (2 ^ w - 2 ^ t * (2 * q + 1)) = 2 ^ t := by
  have hp := Nat.two_pow_pos t
  have htw : t < w := by
    apply (Nat.pow_lt_pow_iff_right (by decide : 1 < 2)).mp
    calc 2 ^ t = 2 ^ t * 1 := by ring
      _ ≤ 2 ^ t * (2 * q + 1) := Nat.mul_le_mul_left _ (by omega)
      _ < 2 ^ w := hx
  have hpred : 2 ^ t * (2 * q + 1) = 2 ^ t * (2 * q) + (2 ^ t - 1) + 1 := by
    rw [Nat.mul_add]; omega
  apply Nat.eq_of_testBit_eq
  intro i
  rw [Nat.testBit_and, hpred, Nat.testBit_two_pow_sub_succ (by omega), ← hpred,
    Nat.testBit_two_pow_mul_add _ (by omega), Nat.testBit_two_pow_mul, Nat.testBit_two_pow]
  rcases lt_trichotomy i t with hlt | rfl | hgt
  · simp [hlt, Nat.ne_of_gt hlt, Nat.not_le.mpr hlt]
  · simp [htw]
  · obtain ⟨j, rfl⟩ : ∃ j, i = t + 1 + j := ⟨i - (t + 1), by omega⟩
    have hsub : t + 1 + j - t = j + 1 := by omega
    rw [hsub, if_neg (by omega), Nat.testBit_succ, Nat.testBit_succ,
      show (2 * q + 1) / 2 = q by omega, show 2 * q / 2 = q by omega]
    cases q.testBit j <;> simp [show t ≠ t + 1 + j by omega]

theorem xor_two_pow_mul_add {i a b x y : Nat} (hx : x < 2 ^ i) (hy : y < 2 ^ i) :
    (2 ^ i * a + x) ^^^ (2 ^ i * b + y) = 2 ^ i * (a ^^^ b) + (x ^^^ y) := by
  apply Nat.eq_of_testBit_eq
  intro j
  rw [Nat.testBit_xor, Nat.testBit_two_pow_mul_add _ hx, Nat.testBit_two_pow_mul_add _ hy,
    Nat.testBit_two_pow_mul_add _ (Nat.xor_lt_two_pow hx hy)]
  split <;> simp

/-- The word after `runMask a t s` in the enumeration: the run's top bit moves up by one and the
rest of the run drops to the bottom. -/
def runNext (a t s : Nat) : Nat := 2 ^ (t + s) * (2 * a + 1) + (2 ^ (s - 1) - 1)

theorem runMask_add_lowBit {a t s : Nat} : runMask a t s + 2 ^ t = 2 ^ (t + s) * (2 * a + 1) := by
  have hp := Nat.two_pow_pos s
  have hlow : 2 ^ t * (2 ^ s - 1) + 2 ^ t = 2 ^ t * 2 ^ s := by
    rw [← Nat.mul_succ]; congr 1; omega
  rw [runMask, Nat.add_assoc, hlow, pow_succ, pow_add]
  ring

theorem runNext_low_lt {t s : Nat} : 2 ^ (s - 1) - 1 < 2 ^ (t + s) := by
  have hp := Nat.two_pow_pos (s - 1)
  have hle : 2 ^ (s - 1) ≤ 2 ^ (t + s) := Nat.pow_le_pow_right (by decide) (by omega)
  omega

theorem runMask_xor_add_lowBit {a t s : Nat} :
    (2 ^ (t + s) * (2 * a + 1)) ^^^ runMask a t s = 2 ^ t * (2 ^ (s + 1) - 1) := by
  have hmask : runMask a t s = 2 ^ (t + s) * (2 * a) + 2 ^ t * (2 ^ s - 1) := by
    rw [runMask, pow_succ]; ring
  have hbit : (2 * a + 1) ^^^ (2 * a) = 1 := by
    apply Nat.eq_of_testBit_eq
    intro i
    cases i with
    | zero => simp
    | succ i =>
      rw [Nat.testBit_xor, Nat.testBit_succ, Nat.testBit_succ, show (2 * a + 1) / 2 = a by omega,
        show 2 * a / 2 = a by omega]
      simp [Nat.testBit_succ]
  have h := xor_two_pow_mul_add (a := 2 * a + 1) (b := 2 * a) (Nat.two_pow_pos (t + s))
    (runMask_low_lt t s)
  rw [Nat.add_zero, hbit, Nat.zero_xor] at h
  rw [hmask, h, Nat.mul_one, pow_add, ← Nat.mul_add]
  congr 1
  have := Nat.two_pow_pos s
  rw [pow_succ]
  omega

/-- Gosper's step computes `runNext` on the lowest run. -/
theorem gosper_step_eq {a t s : Nat} (hs : 1 ≤ s) :
    ((2 ^ (t + s) * (2 * a + 1)) ^^^ runMask a t s) >>> 2 / 2 ^ t |||
      2 ^ (t + s) * (2 * a + 1) = runNext a t s := by
  have hp := Nat.two_pow_pos (s - 1)
  have he : 2 ^ (s + 1) = 4 * 2 ^ (s - 1) := by
    rw [show s + 1 = s - 1 + 2 by omega, pow_add]; ring
  have hlow : 2 ^ t * (2 ^ (s + 1) - 1) / 2 ^ 2 / 2 ^ t = 2 ^ (s - 1) - 1 := by
    rw [Nat.div_div_eq_div_mul, Nat.mul_comm (2 ^ 2), Nat.mul_div_mul_left _ _ (Nat.two_pow_pos t)]
    omega
  rw [runMask_xor_add_lowBit, Nat.shiftRight_eq_div_pow, hlow, Nat.lor_comm,
    ← Nat.two_pow_add_eq_or_of_lt runNext_low_lt, runNext]

theorem runMask_lt_runNext {a t s : Nat} : runMask a t s < runNext a t s := by
  have h := runMask_add_lowBit (a := a) (t := t) (s := s)
  have hp := Nat.two_pow_pos t
  simp only [runNext]
  omega

theorem bitCount_run_low (t s : Nat) : bitCount (t + s) (2 ^ t * (2 ^ s - 1)) = s := by
  have h := bitCount_two_pow_mul_add (2 ^ s - 1) s (Nat.two_pow_pos t)
  rw [Nat.add_zero] at h
  rw [h, bitCount_two_pow_sub_one]
  simp [bitCount]

theorem bitCount_runMask (a t s b : Nat) :
    bitCount (t + s + 1 + b) (runMask a t s) = s + bitCount b a := by
  have hlow := runMask_low_lt t s
  have hlt : 2 ^ t * (2 ^ s - 1) < 2 ^ (t + s + 1) := by rw [pow_succ]; omega
  rw [runMask, bitCount_two_pow_mul_add a b hlt, bitCount_of_lt 1 hlow, bitCount_run_low]

theorem runNext_eq {a t s : Nat} :
    runNext a t s = 2 ^ (t + s + 1) * a + (2 ^ (t + s) + (2 ^ (s - 1) - 1)) := by
  rw [runNext, pow_succ]; ring

theorem bitCount_runNext {a t s : Nat} (b : Nat) (hs : 1 ≤ s) :
    bitCount (t + s + 1 + b) (runNext a t s) = s + bitCount b a := by
  have hlow := runNext_low_lt (t := t) (s := s)
  have hlt : 2 ^ (t + s) + (2 ^ (s - 1) - 1) < 2 ^ (t + s + 1) := by rw [pow_succ]; omega
  have htop := bitCount_two_pow_mul_add 1 1 hlow
  have hlen : bitCount (t + s) (2 ^ (s - 1) - 1) = s - 1 := by
    have h := bitCount_of_lt (w := s - 1) (t + 1) (Nat.sub_lt (Nat.two_pow_pos (s - 1)) Nat.one_pos)
    rwa [show s - 1 + (t + 1) = t + s by omega, bitCount_two_pow_sub_one] at h
  rw [Nat.mul_one, hlen] at htop
  rw [runNext_eq, bitCount_two_pow_mul_add a b hlt, htop]
  have hone : bitCount 1 1 = 1 := rfl
  omega

/-- No word with the same number of set bits lies between a word and its Gosper successor. -/
theorem runNext_le_of_bitCount_eq {a t s b x : Nat}
    (hx : runMask a t s < x)
    (hcount : bitCount (t + s + 1 + b) x = bitCount (t + s + 1 + b) (runMask a t s)) :
    runNext a t s ≤ x := by
  by_contra hlt
  have hlow := runMask_low_lt t s
  have hnext := runNext_low_lt (t := t) (s := s)
  have hbit : 2 ^ (t + s + 1) = 2 * 2 ^ (t + s) := pow_succ' ..
  rw [runNext_eq] at hlt
  obtain ⟨y, rfl⟩ : ∃ y, x = 2 ^ (t + s + 1) * a + y :=
    ⟨x - 2 ^ (t + s + 1) * a, by simp only [runMask] at hx; omega⟩
  have hy : y < 2 ^ (t + s + 1) := by omega
  rw [bitCount_runMask, bitCount_two_pow_mul_add a b hy] at hcount
  have hys : bitCount (t + s + 1) y = s := by omega
  by_cases hsmall : y < 2 ^ (t + s)
  · rw [bitCount_of_lt 1 hsmall] at hys
    have htop := add_two_pow_sub_bitCount_le hsmall
    have hrun : 2 ^ t * (2 ^ s - 1) + 2 ^ t = 2 ^ (t + s) := by
      rw [← Nat.mul_succ, pow_add]; congr 1; have := Nat.two_pow_pos s; omega
    rw [hys, Nat.add_sub_cancel] at htop
    simp only [runMask] at hx
    omega
  · obtain ⟨z, rfl⟩ : ∃ z, y = 2 ^ (t + s) * 1 + z := ⟨y - 2 ^ (t + s), by omega⟩
    have hz : z < 2 ^ (t + s) := by omega
    rw [bitCount_two_pow_mul_add 1 1 hz] at hys
    have hone : bitCount 1 1 = 1 := rfl
    have hbot := two_pow_bitCount_sub_one_le (t + s) z
    rw [show bitCount (t + s) z = s - 1 by omega] at hbot
    omega

end MootMemory
