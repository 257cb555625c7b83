import MootMemory.Utf8Text
import Mathlib.Data.List.Basic

namespace MootMemory

/-- The decimal digits of a number, as bytes. -/
def decimal (n : Nat) : List UInt8 :=
  if n < 10 then [UInt8.ofNat (48 + n)] else decimal (n / 10) ++ [UInt8.ofNat (48 + n % 10)]

/-- A number in at least `width` bytes, with zeros after its sign. -/
def zeroPadded (width : Nat) (n : Int) : List UInt8 :=
  let sign : List UInt8 := if n < 0 then [45] else []
  let digits := decimal n.natAbs
  sign ++ List.replicate (width - sign.length - digits.length) 48 ++ digits

def isAsciiDigit (c : UInt8) : Bool := 48 ≤ c ∧ c ≤ 57

def digitsValue (digits : List UInt8) : Nat :=
  digits.foldl (fun value c => value * 10 + (c.toNat - 48)) 0

/-- The text of ASCII bytes. -/
def asciiText (bytes : List UInt8) : String :=
  String.ofList (bytes.map fun b => Char.ofNat b.toNat)

/-- The last `width` digits of a number. -/
def fixedDigits : Nat → Nat → List UInt8
  | 0, _ => []
  | width + 1, n => fixedDigits width (n / 10) ++ [UInt8.ofNat (48 + n % 10)]

variable {width a b n : Nat}

@[simp] theorem length_fixedDigits (width n : Nat) : (fixedDigits width n).length = width := by
  induction width generalizing n with
  | zero => rfl
  | succ width ih => simp [fixedDigits, ih]

theorem fixedDigits_zero (width : Nat) : fixedDigits width 0 = List.replicate width 48 := by
  induction width with
  | zero => rfl
  | succ width ih =>
    rw [fixedDigits, Nat.zero_div, ih, List.replicate_succ']
    rfl

/-- A number that is not too wide is padded to its fixed digits. -/
theorem replicate_append_decimal (hwidth : 1 ≤ width) (h : n < 10 ^ width) :
    List.replicate (width - (decimal n).length) 48 ++ decimal n = fixedDigits width n := by
  induction width generalizing n with
  | zero => omega
  | succ width ih =>
    unfold decimal
    split
    next hone =>
      rw [fixedDigits, Nat.div_eq_of_lt hone, fixedDigits_zero, Nat.mod_eq_of_lt hone]
      simp
    next hmore =>
      have hpos : 1 ≤ width := by
        by_contra hzero
        obtain rfl : width = 0 := by omega
        omega
      have hdiv : n / 10 < 10 ^ width := by
        rw [Nat.pow_succ] at h
        omega
      rw [fixedDigits, ← ih hpos hdiv, ← List.append_assoc, List.length_append,
        List.length_singleton, Nat.add_sub_add_right]

theorem zeroPadded_eq (hwidth : 1 ≤ width) (h : n < 10 ^ width) :
    zeroPadded width (n : Int) = fixedDigits width n := by
  have hsign : ¬((n : Int) < 0) := by omega
  rw [zeroPadded]
  simp only [hsign, if_false, List.nil_append, List.length_nil, Nat.sub_zero, Int.natAbs_natCast]
  exact replicate_append_decimal hwidth h

section Digits

theorem toNat_digit (n : Nat) : (UInt8.ofNat (48 + n % 10)).toNat = 48 + n % 10 := by
  rw [UInt8.toNat_ofNat']
  omega

theorem isAsciiDigit_digit (n : Nat) : isAsciiDigit (UInt8.ofNat (48 + n % 10)) = true := by
  rw [isAsciiDigit, decide_eq_true_eq, UInt8.le_iff_toNat_le, UInt8.le_iff_toNat_le, toNat_digit]
  constructor
  · show 48 ≤ 48 + n % 10
    omega
  · show 48 + n % 10 ≤ 57
    omega

theorem all_isAsciiDigit_fixedDigits (width n : Nat) :
    (fixedDigits width n).all isAsciiDigit = true := by
  induction width generalizing n with
  | zero => rfl
  | succ width ih =>
    rw [fixedDigits, List.all_append, ih, List.all_cons, List.all_nil, isAsciiDigit_digit]
    rfl

theorem digitsValue_fixedDigits (h : n < 10 ^ width) : digitsValue (fixedDigits width n) = n := by
  induction width generalizing n with
  | zero =>
    rw [Nat.pow_zero] at h
    obtain rfl : n = 0 := by omega
    rfl
  | succ width ih =>
    have hdiv : n / 10 < 10 ^ width := by
      rw [Nat.pow_succ] at h
      omega
    have hrest := ih hdiv
    unfold digitsValue at hrest ⊢
    rw [fixedDigits, List.foldl_append, hrest, List.foldl_cons, List.foldl_nil, toNat_digit]
    omega

theorem lt_of_mem_fixedDigits {c : UInt8} (h : c ∈ fixedDigits width n) : c < 128 := by
  have hdigit := List.all_eq_true.mp (all_isAsciiDigit_fixedDigits width n) c h
  rw [isAsciiDigit, decide_eq_true_eq] at hdigit
  exact Nat.lt_of_le_of_lt hdigit.2 (by decide)

theorem fixedDigits_ne_nil (hpos : 1 ≤ width) (n : Nat) : fixedDigits width n ≠ [] := by
  intro hnil
  have hlen := length_fixedDigits width n
  rw [hnil, List.length_nil] at hlen
  omega

end Digits

section Order

theorem append_lt_append_of_lt {x y : List UInt8} (hlen : x.length = y.length) (h : x < y)
    (u v : List UInt8) : x ++ u < y ++ v := by
  induction x generalizing y with
  | nil =>
    rw [List.length_nil] at hlen
    rw [List.eq_nil_of_length_eq_zero hlen.symm] at h
    exact absurd h (List.not_lt_nil _)
  | cons a x ih =>
    cases y with
    | nil => simp at hlen
    | cons b y =>
      rw [List.cons_append, List.cons_append, List.cons_lt_cons_iff]
      rw [List.length_cons, List.length_cons] at hlen
      rcases List.cons_lt_cons_iff.mp h with hlt | ⟨heq, hlt⟩
      · exact Or.inl hlt
      · exact Or.inr ⟨heq, ih (by omega) hlt⟩

theorem append_lt_append_left (x : List UInt8) {u v : List UInt8} (h : u < v) :
    x ++ u < x ++ v := by
  induction x with
  | nil => exact h
  | cons a x ih => exact List.cons_lt_cons_iff.mpr (Or.inr ⟨rfl, ih⟩)

/-- Fixed digits are in the order of their numbers. -/
theorem fixedDigits_lt (hb : b < 10 ^ width) (h : a < b) :
    fixedDigits width a < fixedDigits width b := by
  induction width generalizing a b with
  | zero =>
    rw [Nat.pow_zero] at hb
    omega
  | succ width ih =>
    have hdiv : b / 10 < 10 ^ width := by
      rw [Nat.pow_succ] at hb
      omega
    rw [fixedDigits, fixedDigits]
    rcases Nat.lt_or_ge (a / 10) (b / 10) with hlt | hge
    · exact append_lt_append_of_lt (by simp) (ih hdiv hlt) _ _
    · have hsame : a / 10 = b / 10 := by omega
      rw [hsame]
      refine append_lt_append_left _ (List.cons_lt_cons_iff.mpr (Or.inl ?_))
      rw [UInt8.lt_iff_toNat_lt, toNat_digit, toNat_digit]
      omega

end Order

section Ascii

variable {bytes x y : List UInt8}

theorem utf8EncodeChar_ascii :
    ∀ n < 128, String.utf8EncodeChar (Char.ofNat n) = [UInt8.ofNat n] := by decide

theorem toNat_asciiChar : ∀ n < 128, (Char.ofNat n).toNat = n := by decide

/-- An ASCII text has its bytes. -/
theorem strBytes_asciiText (h : ∀ b ∈ bytes, b < 128) : strBytes (asciiText bytes) = bytes := by
  have hchars : (bytes.map fun b => Char.ofNat b.toNat).flatMap String.utf8EncodeChar = bytes := by
    induction bytes with
    | nil => rfl
    | cons b bytes ih =>
      have hb : b.toNat < 128 := h b List.mem_cons_self
      rw [List.map_cons, List.flatMap_cons, ih fun c hc => h c (List.mem_cons_of_mem _ hc),
        utf8EncodeChar_ascii _ hb, UInt8.ofNat_toNat]
      rfl
  rw [strBytes, asciiText, String.toByteArray_ofList, List.utf8Encode, hchars]
  simp

/-- ASCII texts are in the order of their bytes. -/
theorem asciiText_lt (hx : ∀ b ∈ x, b < 128) (hy : ∀ b ∈ y, b < 128) (h : x < y) :
    asciiText x < asciiText y := by
  rw [String.lt_iff, asciiText, asciiText, String.toList_ofList, String.toList_ofList]
  induction x generalizing y with
  | nil =>
    cases y with
    | nil => exact absurd h (List.lt_irrefl _)
    | cons b y => exact List.nil_lt_cons _ _
  | cons a x ih =>
    cases y with
    | nil => exact absurd h (List.not_lt_nil _)
    | cons b y =>
      rw [List.map_cons, List.map_cons, List.cons_lt_cons_iff]
      rcases List.cons_lt_cons_iff.mp h with hlt | ⟨rfl, hlt⟩
      · have ha := toNat_asciiChar a.toNat (hx a List.mem_cons_self)
        have hb := toNat_asciiChar b.toNat (hy b List.mem_cons_self)
        refine Or.inl ?_
        show (Char.ofNat a.toNat).toNat < (Char.ofNat b.toNat).toNat
        rw [ha, hb]
        exact hlt
      · exact Or.inr ⟨rfl, ih (fun c hc => hx c (List.mem_cons_of_mem _ hc))
          (fun c hc => hy c (List.mem_cons_of_mem _ hc)) hlt⟩

end Ascii

end MootMemory
