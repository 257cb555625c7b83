import MootMemory.GosperStep
import MootMemory.MihIndex
import Mathlib.Algebra.BigOperators.Ring.Finset
import Mathlib.Algebra.Order.BigOperators.Group.Finset

namespace MootMemory

open Finset in
/-- Counting the bits of a number field by field. -/
theorem bitCount_mul (n w x : Nat) :
    bitCount (n * w) x = ∑ t ∈ range n, bitCount w (x >>> (t * w)) := by
  induction n with
  | zero => simp
  | succ n ih => rw [Nat.succ_mul, bitCount_add, ih, sum_range_succ]

namespace Engram

def block : Engram → Nat → UInt64
  | e, 0 => e.block0
  | e, 1 => e.block1
  | e, 2 => e.block2
  | e, 3 => e.block3
  | _, _ => 0

/-- The code as one 256-bit number. -/
def toNat (e : Engram) : Nat :=
  2 ^ 64 * (2 ^ 64 * (2 ^ 64 * e.block3.toNat + e.block2.toNat) + e.block1.toNat) + e.block0.toNat

theorem testBit_toNat (e : Engram) {j p : Nat} (hj : j < 4) (hp : p < 64) :
    e.toNat.testBit (64 * j + p) = (e.block j).toNat.testBit p := by
  have h0 := e.block0.toNat_lt
  have h1 := e.block1.toNat_lt
  have h2 := e.block2.toNat_lt
  rw [toNat, Nat.testBit_two_pow_mul_add _ h0]
  obtain rfl | rfl | rfl | rfl : j = 0 ∨ j = 1 ∨ j = 2 ∨ j = 3 := by omega
  · rw [if_pos (by omega), Nat.mul_zero, Nat.zero_add]; rfl
  · rw [if_neg (by omega), Nat.testBit_two_pow_mul_add _ h1, if_pos (by omega),
      show 64 * 1 + p - 64 = p by omega]
    rfl
  · rw [if_neg (by omega), Nat.testBit_two_pow_mul_add _ h1, if_neg (by omega),
      Nat.testBit_two_pow_mul_add _ h2, if_pos (by omega), show 64 * 2 + p - 64 - 64 = p by omega]
    rfl
  · rw [if_neg (by omega), Nat.testBit_two_pow_mul_add _ h1, if_neg (by omega),
      Nat.testBit_two_pow_mul_add _ h2, if_neg (by omega),
      show 64 * 3 + p - 64 - 64 - 64 = p by omega]
    rfl

theorem distance_eq (a b : Engram) :
    EngramLib.distance a b = bitCount 256 (a.toNat ^^^ b.toNat) := by
  have hx : ∀ x y : UInt64, (x ^^^ y).toNat = x.toNat ^^^ y.toNat := UInt64.toNat_xor
  have hlt : ∀ x y : UInt64, x.toNat ^^^ y.toNat < 2 ^ 64 := fun x y =>
    Nat.xor_lt_two_pow x.toNat_lt y.toNat_lt
  rw [toNat, toNat, xor_two_pow_mul_add a.block0.toNat_lt b.block0.toNat_lt,
    xor_two_pow_mul_add a.block1.toNat_lt b.block1.toNat_lt,
    xor_two_pow_mul_add a.block2.toNat_lt b.block2.toNat_lt,
    show 256 = 64 + (64 + (64 + 64)) by rfl, bitCount_two_pow_mul_add _ _ (hlt _ _),
    bitCount_two_pow_mul_add _ _ (hlt _ _), bitCount_two_pow_mul_add _ _ (hlt _ _),
    EngramLib.distance, hx, hx, hx, hx]
  omega

end Engram

namespace MIHBandCount

theorem subBits_pos (bandCount : MIHBandCount) : 0 < bandCount.subBits := by
  cases bandCount <;> decide

theorem subBits_le (bandCount : MIHBandCount) : bandCount.subBits ≤ 64 := by
  cases bandCount <;> decide

theorem bands_pos (bandCount : MIHBandCount) : 0 < bandCount.bands := by
  cases bandCount <;> decide

theorem bands_mul_subBits (bandCount : MIHBandCount) :
    bandCount.bands * bandCount.subBits = 256 := by
  cases bandCount <;> rfl

/-- A band lies within one block. -/
theorem band_in_block (bandCount : MIHBandCount) {t : Nat} (ht : t < bandCount.bands) :
    t * bandCount.subBits / 64 < 4 ∧
      t * bandCount.subBits % 64 + bandCount.subBits ≤ 64 := by
  cases bandCount <;> simp only [bands, subBits] at ht ⊢ <;> omega

end MIHBandCount

theorem extractBand_eq_and (e : Engram) {t subBits : Nat} :
    extractBand e t subBits =
      ((e.block (t * subBits / 64)).toNat >>> (t * subBits % 64)) &&& (2 ^ subBits - 1) := by
  unfold extractBand
  dsimp only
  congr 1
  · congr 2
    match t * subBits / 64 with
    | 0 => rfl
    | 1 => rfl
    | 2 => rfl
    | 3 => rfl
    | n + 4 => rfl
  · split
    next h => rw [h]
    next => rfl

/-- A band is a field of the code as one number. -/
theorem extractBand_eq (e : Engram) (bandCount : MIHBandCount) {t : Nat}
    (ht : t < bandCount.bands) :
    extractBand e t bandCount.subBits =
      (e.toNat >>> (t * bandCount.subBits)) % 2 ^ bandCount.subBits := by
  obtain ⟨hblock, hoff⟩ := bandCount.band_in_block ht
  rw [extractBand_eq_and, Nat.and_two_pow_sub_one_eq_mod]
  apply Nat.eq_of_testBit_eq
  intro i
  rw [Nat.testBit_mod_two_pow, Nat.testBit_mod_two_pow]
  by_cases hi : i < bandCount.subBits
  · have hsplit : t * bandCount.subBits + i =
        64 * (t * bandCount.subBits / 64) + (t * bandCount.subBits % 64 + i) := by
      have := Nat.div_add_mod (t * bandCount.subBits) 64
      omega
    rw [Nat.testBit_shiftRight, Nat.testBit_shiftRight, hsplit,
      e.testBit_toNat hblock (by omega)]
  · simp [hi]

theorem extractBand_lt (e : Engram) (bandCount : MIHBandCount) {t : Nat}
    (ht : t < bandCount.bands) :
    extractBand e t bandCount.subBits < 2 ^ bandCount.subBits := by
  rw [extractBand_eq e bandCount ht]
  exact Nat.mod_lt _ (Nat.two_pow_pos _)

open Finset in
/-- The distance of two codes is the sum of the distances of their bands. -/
theorem distance_eq_sum (a b : Engram) (bandCount : MIHBandCount) :
    EngramLib.distance a b = ∑ t ∈ range bandCount.bands,
      bitCount bandCount.subBits
        (extractBand a t bandCount.subBits ^^^ extractBand b t bandCount.subBits) := by
  rw [Engram.distance_eq, ← bandCount.bands_mul_subBits, bitCount_mul]
  apply sum_congr rfl
  intro t ht
  have ht := mem_range.mp ht
  rw [extractBand_eq a bandCount ht, extractBand_eq b bandCount ht, ← Nat.xor_mod_two_pow,
    bitCount_mod, Nat.shiftRight_xor_distrib]

/-- The radius of band `t` when the total radius is `r`. -/
def bandRho (m r t : Nat) : Nat := r / m + if t < r % m then 1 else 0

open Finset in
theorem sum_ite_lt (n e : Nat) : ∑ t ∈ range n, (if t < e then 1 else 0) = min n e := by
  induction n with
  | zero => simp
  | succ n ih =>
    rw [sum_range_succ, ih]
    split <;> omega

open Finset in
theorem sum_bandRho {m : Nat} (hm : 0 < m) (r : Nat) :
    ∑ t ∈ range m, (bandRho m r t + 1) = r + m := by
  have hmod := Nat.mod_lt r hm
  have hdiv := Nat.div_add_mod r m
  simp only [bandRho, sum_add_distrib, sum_const, card_range, nsmul_eq_mul, Nat.cast_id, mul_one,
    sum_ite_lt]
  omega

open Finset in
/-- Two codes at distance at most `r` agree on some band up to that band's radius. -/
theorem exists_close_band {a b : Engram} (bandCount : MIHBandCount) {r : Nat}
    (h : EngramLib.distance a b ≤ r) :
    ∃ t, t < bandCount.bands ∧ bitCount bandCount.subBits
      (extractBand a t bandCount.subBits ^^^ extractBand b t bandCount.subBits) ≤
        bandRho bandCount.bands r t := by
  by_contra hnone
  push Not at hnone
  have hsum : ∑ t ∈ range bandCount.bands, (bandRho bandCount.bands r t + 1) ≤
      EngramLib.distance a b := by
    rw [distance_eq_sum a b bandCount]
    exact sum_le_sum fun t ht => hnone t (mem_range.mp ht)
  rw [sum_bandRho bandCount.bands_pos] at hsum
  have := bandCount.bands_pos
  omega

end MootMemory
