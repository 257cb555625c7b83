import Mathlib.Data.BitVec

namespace MootMemory

/-- A 64-bit column of packed fields. -/
abbrev Bitmap := BitVec 64

/-- The lowest `width` bits. -/
def lowMask (width : Nat) : Bitmap := BitVec.ofNat 64 (2 ^ width - 1)

/-- The field of `width` bits from bit `shift` up. -/
def extractField (value : Bitmap) (shift width : Nat) : Bitmap :=
  (value >>> shift) &&& lowMask width

/-- Clears the field and puts the value in its place. -/
def writeField (field bitmap : Bitmap) (shift width : Nat) : Bitmap :=
  (bitmap &&& ~~~(lowMask width <<< shift)) ||| ((field &&& lowMask width) <<< shift)

@[simp] theorem getLsbD_lowMask {width i : Nat} :
    (lowMask width).getLsbD i = (decide (i < 64) && decide (i < width)) := by
  rw [lowMask, BitVec.getLsbD_ofNat, Nat.testBit_two_pow_sub_one]

theorem getLsbD_extractField {value : Bitmap} {shift width i : Nat} :
    (extractField value shift width).getLsbD i =
      (value.getLsbD (shift + i) && decide (i < width)) := by
  rw [extractField, BitVec.getLsbD_and, BitVec.getLsbD_ushiftRight, getLsbD_lowMask]
  by_cases hi : i < 64
  · simp [hi]
  · rw [BitVec.getLsbD_of_ge _ _ (by omega : 64 ≤ shift + i), Bool.false_and, Bool.false_and]

theorem getLsbD_writeField {field bitmap : Bitmap} {shift width i : Nat} :
    (writeField field bitmap shift width).getLsbD i =
      if shift ≤ i ∧ i < shift + width ∧ i < 64 then field.getLsbD (i - shift)
      else bitmap.getLsbD i := by
  rw [writeField]
  simp only [BitVec.getLsbD_or, BitVec.getLsbD_and, BitVec.getLsbD_not, BitVec.getLsbD_shiftLeft,
    getLsbD_lowMask]
  by_cases hi : i < 64
  · by_cases hs : shift ≤ i
    · have hsub : i - shift < 64 := by omega
      by_cases hw : i < shift + width
      · have hsw : i - shift < width := by omega
        simp [hi, hs, hw, hsub, hsw, Nat.not_lt.mpr hs]
      · have hsw : ¬i - shift < width := by omega
        simp [hi, hw, hsw]
    · simp [hi, hs, Nat.lt_of_not_le hs]
  · simp [hi, BitVec.getLsbD_of_ge bitmap i (by omega)]

theorem extractField_writeField {field bitmap : Bitmap} {shift width : Nat}
    (h : shift + width ≤ 64) :
    extractField (writeField field bitmap shift width) shift width = field &&& lowMask width := by
  refine BitVec.eq_of_getLsbD_eq fun i hi => ?_
  rw [getLsbD_extractField, getLsbD_writeField, BitVec.getLsbD_and, getLsbD_lowMask]
  by_cases hw : i < width
  · have hrange : shift ≤ shift + i ∧ shift + i < shift + width ∧ shift + i < 64 := by omega
    rw [if_pos hrange, Nat.add_sub_cancel_left]
    simp [hi]
  · simp [hw]

/-- A field apart from the one written is kept. -/
theorem extractField_writeField_of_disjoint {field bitmap : Bitmap} {shift width s w : Nat}
    (h : s + w ≤ shift ∨ shift + width ≤ s) :
    extractField (writeField field bitmap shift width) s w = extractField bitmap s w := by
  refine BitVec.eq_of_getLsbD_eq fun i _ => ?_
  rw [getLsbD_extractField, getLsbD_extractField, getLsbD_writeField]
  by_cases hw : i < w
  · have hout : ¬(shift ≤ s + i ∧ s + i < shift + width ∧ s + i < 64) := by omega
    rw [if_neg hout]
  · simp [hw]

end MootMemory
