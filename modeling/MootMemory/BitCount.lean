import Mathlib.Data.Nat.Bitwise
import Mathlib.Data.List.Range
import Mathlib.Tactic.Ring
import Mathlib.Data.List.Basic

namespace MootMemory

/-- The number of set bits of `x` among its lowest `w` positions. -/
def bitCount (w x : Nat) : Nat := (List.range w).countP x.testBit

@[simp] theorem bitCount_zero_width (x : Nat) : bitCount 0 x = 0 := rfl

theorem bitCount_succ (w x : Nat) :
    bitCount (w + 1) x = bitCount w x + (x.testBit w).toNat := by
  simp only [bitCount, List.range_succ, List.countP_append, List.countP_singleton]
  cases x.testBit w <;> rfl

theorem bitCount_le_width (w x : Nat) : bitCount w x ≤ w := by
  simpa [bitCount] using List.countP_le_length (p := x.testBit) (l := List.range w)

theorem bitCount_congr {w x y : Nat} (h : ∀ i < w, x.testBit i = y.testBit i) :
    bitCount w x = bitCount w y := by
  apply List.countP_congr
  intro i hi
  rw [h i (List.mem_range.mp hi)]

/-- Bits above the width do not count. -/
theorem bitCount_mod (w x : Nat) : bitCount w (x % 2 ^ w) = bitCount w x :=
  bitCount_congr fun i hi => by simp [Nat.testBit_mod_two_pow, hi]

/-- Counting splits at any position into the low bits and the shifted rest. -/
theorem bitCount_add (a b x : Nat) :
    bitCount (a + b) x = bitCount a x + bitCount b (x >>> a) := by
  induction b with
  | zero => simp
  | succ b ih =>
    rw [← Nat.add_assoc, bitCount_succ, bitCount_succ, ih, Nat.testBit_shiftRight]
    omega

theorem bitCount_of_lt {w x : Nat} (v : Nat) (hx : x < 2 ^ w) :
    bitCount (w + v) x = bitCount w x := by
  have hshift : x >>> w = 0 := by
    rw [Nat.shiftRight_eq_div_pow]
    exact Nat.div_eq_of_lt hx
  rw [bitCount_add, hshift]
  simp [bitCount]

/-- A block of high bits over a block of low bits contributes both counts. -/
theorem bitCount_two_pow_mul_add (a b : Nat) {i x : Nat} (hx : x < 2 ^ i) :
    bitCount (i + b) (2 ^ i * a + x) = bitCount i x + bitCount b a := by
  have hlow : bitCount i (2 ^ i * a + x) = bitCount i x := by
    rw [← bitCount_mod i (2 ^ i * a + x), Nat.mul_add_mod, Nat.mod_eq_of_lt hx]
  have hhigh : (2 ^ i * a + x) >>> i = a := by
    rw [Nat.shiftRight_eq_div_pow, Nat.mul_add_div (Nat.two_pow_pos i), Nat.div_eq_of_lt hx,
      Nat.add_zero]
  rw [bitCount_add, hlow, hhigh]

theorem bitCount_two_pow_sub_one (w : Nat) : bitCount w (2 ^ w - 1) = w := by
  have hall : ∀ i ∈ List.range w, (2 ^ w - 1).testBit i = true := by
    intro i hi
    simpa using List.mem_range.mp hi
  rw [bitCount, List.countP_eq_length.mpr hall, List.length_range]

/-- The least number with a given count has all its bits at the bottom. -/
theorem two_pow_bitCount_sub_one_le (w x : Nat) : 2 ^ bitCount w x - 1 ≤ x := by
  induction w generalizing x with
  | zero => simp
  | succ w ih =>
    rw [bitCount_succ]
    cases hb : x.testBit w with
    | false => simpa using ih x
    | true =>
      have hge : 2 ^ w ≤ x := Nat.ge_two_pow_of_testBit hb
      have hlow := ih (x % 2 ^ w)
      rw [bitCount_mod] at hlow
      have hpow : 2 ^ bitCount w x ≤ 2 ^ w := Nat.pow_le_pow_right (by decide) (bitCount_le_width w x)
      have hrest : 2 ^ w + x % 2 ^ w ≤ x := by
        have := Nat.div_add_mod x (2 ^ w)
        have hq : 1 ≤ x / 2 ^ w := (Nat.one_le_div_iff (Nat.two_pow_pos w)).mpr hge
        have := Nat.mul_le_mul_left (2 ^ w) hq
        omega
      simp only [Bool.toNat_true, pow_succ]
      omega

/-- The greatest number with a given count has all its bits at the top. -/
theorem add_two_pow_sub_bitCount_le {w x : Nat} (hx : x < 2 ^ w) :
    x + 2 ^ (w - bitCount w x) ≤ 2 ^ w := by
  induction w generalizing x with
  | zero =>
    have hx0 : x = 0 := by simpa using hx
    simp [hx0]
  | succ w ih =>
    have hle := bitCount_le_width w x
    rw [bitCount_succ]
    cases hb : x.testBit w with
    | false =>
      have hlt : x < 2 ^ w := by
        by_contra hge
        have hq : x / 2 ^ w = 1 := by
          have h1 : 1 ≤ x / 2 ^ w := (Nat.one_le_div_iff (Nat.two_pow_pos w)).mpr (by omega)
          have h2 : x / 2 ^ w < 2 := Nat.div_lt_of_lt_mul (by rw [pow_succ] at hx; omega)
          omega
        simp [Nat.testBit_eq_decide_div_mod_eq, hq] at hb
      have hrec := ih hlt
      have hexp : w + 1 - (bitCount w x + false.toNat) = w - bitCount w x + 1 := by
        simp only [Bool.toNat_false]; omega
      rw [hexp, pow_succ, pow_succ]
      omega
    | true =>
      have hge : 2 ^ w ≤ x := Nat.ge_two_pow_of_testBit hb
      have hmod : x % 2 ^ w = x - 2 ^ w := by
        rw [Nat.mod_eq_sub_mod hge, Nat.mod_eq_of_lt (by rw [pow_succ] at hx; omega)]
      have hrec := ih (Nat.mod_lt x (Nat.two_pow_pos w))
      rw [bitCount_mod, hmod] at hrec
      have hexp : w + 1 - (bitCount w x + true.toNat) = w - bitCount w x := by
        simp only [Bool.toNat_true]; omega
      rw [hexp, pow_succ]
      omega

/-- Bit `i` of a bitset packed into 64-bit words; bits past the last word read as unset. -/
def wordsBit (ws : List UInt64) (i : Nat) : Bool :=
  if ws.length ≤ i / 64 then false
  else ((ws[i / 64]?.getD 0) >>> UInt64.ofNat (i % 64)) &&& 1 == 1

/-- Append zero words until there are `n` words. -/
def padWords (ws : List UInt64) (n : Nat) : List UInt64 := ws ++ List.replicate (n - ws.length) 0

/-- Set bit `i`, padding the words up to the one that holds it. -/
def setWordsBit (ws : List UInt64) (i : Nat) : List UInt64 :=
  (padWords ws (i / 64 + 1)).modify (i / 64) (· ||| ((1 : UInt64) <<< UInt64.ofNat (i % 64)))

theorem toNat_ofNat_mod {b : Nat} (hb : b < 64) : (UInt64.ofNat b).toNat % 64 = b := by
  rw [UInt64.toNat_ofNat', Nat.mod_eq_of_lt (by omega : b < 2 ^ 64), Nat.mod_eq_of_lt hb]

theorem word_bit_eq_testBit (w : UInt64) {b : Nat} (hb : b < 64) :
    ((w >>> UInt64.ofNat b) &&& 1 == 1) = w.toNat.testBit b := by
  have hand : ((w >>> UInt64.ofNat b) &&& 1).toNat = w.toNat / 2 ^ b % 2 := by
    rw [UInt64.toNat_and, UInt64.toNat_shiftRight, toNat_ofNat_mod hb, Nat.shiftRight_eq_div_pow]
    exact Nat.and_one_is_mod _
  rw [Nat.testBit_eq_decide_div_mod_eq, ← hand]
  apply Bool.eq_iff_iff.mpr
  rw [beq_iff_eq, decide_eq_true_iff]
  exact UInt64.toNat_inj.symm

theorem wordsBit_eq (ws : List UInt64) (i : Nat) :
    wordsBit ws i = (ws[i / 64]?.getD 0).toNat.testBit (i % 64) := by
  unfold wordsBit
  split
  next h => simp [List.getElem?_eq_none h]
  next => exact word_bit_eq_testBit _ (Nat.mod_lt i (by decide))

@[simp] theorem wordsBit_nil (i : Nat) : wordsBit [] i = false := by simp [wordsBit]

@[simp] theorem length_padWords (ws : List UInt64) (n : Nat) :
    (padWords ws n).length = max ws.length n := by
  simp only [padWords, List.length_append, List.length_replicate]
  omega

@[simp] theorem wordsBit_padWords (ws : List UInt64) (n i : Nat) :
    wordsBit (padWords ws n) i = wordsBit ws i := by
  rw [wordsBit_eq, wordsBit_eq, padWords]
  by_cases h : i / 64 < ws.length
  · rw [List.getElem?_append_left h]
  · rw [List.getElem?_append_right (by omega), List.getElem?_eq_none (Nat.le_of_not_lt h),
      List.getElem?_replicate]
    split <;> rfl

theorem length_setWordsBit (ws : List UInt64) (i : Nat) :
    (setWordsBit ws i).length = max ws.length (i / 64 + 1) := by
  simp [setWordsBit]

/-- Setting a bit changes that bit only. -/
theorem wordsBit_setWordsBit (ws : List UInt64) (i j : Nat) :
    wordsBit (setWordsBit ws i) j = (decide (i = j) || wordsBit ws j) := by
  rw [← wordsBit_padWords ws (i / 64 + 1) j, wordsBit_eq, wordsBit_eq, setWordsBit,
    List.getElem?_modify]
  have hlen : i / 64 < (padWords ws (i / 64 + 1)).length := by
    rw [length_padWords]; omega
  by_cases hw : i / 64 = j / 64
  · have hget := List.getElem?_eq_getElem hlen
    rw [← hw, hget]
    have hb : i % 64 < 64 := Nat.mod_lt i (by decide)
    have hshift : ((1 : UInt64) <<< UInt64.ofNat (i % 64)).toNat = 2 ^ (i % 64) := by
      rw [UInt64.toNat_shiftLeft, toNat_ofNat_mod hb, Nat.shiftLeft_eq, UInt64.toNat_one,
        Nat.one_mul, Nat.mod_eq_of_lt (Nat.pow_lt_pow_right (by decide) hb)]
    have hij : (i % 64 = j % 64) ↔ i = j := by omega
    simp only [if_true, Option.map_eq_map, Option.map_some, Option.getD_some, UInt64.toNat_or, Nat.testBit_or, hshift,
      Nat.testBit_two_pow, hij]
    exact Bool.or_comm _ _
  · have hij : i ≠ j := by rintro rfl; exact hw rfl
    simp [hw, hij]

end MootMemory
