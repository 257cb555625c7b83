import MootMemory.ByteCodec

namespace MootMemory

/-- The UTF-8 bytes of a string. -/
def strBytes (s : String) : List UInt8 := s.toByteArray.data.toList

/-- The ranges of the bytes that follow a first byte, or `none` where no sequence starts with it. -/
def utf8Tails (first : UInt8) : Option (List (UInt8 × UInt8)) :=
  let tail := (0x80, 0xBF)
  if first ≤ 0x7F then some []
  else if 0xC2 ≤ first && first ≤ 0xDF then some [tail]
  else if first == 0xE0 then some [(0xA0, 0xBF), tail]
  else if first == 0xED then some [(0x80, 0x9F), tail]
  else if 0xE1 ≤ first && first ≤ 0xEF then some [tail, tail]
  else if first == 0xF0 then some [(0x90, 0xBF), tail, tail]
  else if 0xF1 ≤ first && first ≤ 0xF3 then some [tail, tail, tail]
  else if first == 0xF4 then some [(0x80, 0x8F), tail, tail]
  else none

/-- The number of bytes before the first one outside its range, `none` if the input ends first. -/
def utf8Mismatch : List (UInt8 × UInt8) → List UInt8 → Nat → Option (Option Nat)
  | [], _, _ => none
  | _ :: _, [], _ => some none
  | (lo, hi) :: tails, b :: bytes, n =>
    if lo ≤ b && b ≤ hi then utf8Mismatch tails bytes (n + 1) else some (some n)

/-- Where decoding stops: the index, and the length of the wrong sequence unless the input ends. -/
def utf8Stop : Nat → List UInt8 → Nat → Option (Nat × Option Nat)
  | 0, _, _ => none
  | _ + 1, [], _ => none
  | fuel + 1, first :: rest, index =>
    match utf8Tails first with
    | none => some (index, some 1)
    | some tails =>
      match utf8Mismatch tails rest 1 with
      | some errorLen => some (index, errorLen)
      | none => utf8Stop fuel (rest.drop tails.length) (index + 1 + tails.length)

/-- The text of the standard library's error for bytes that are not UTF-8. -/
def utf8ErrorText (bytes : List UInt8) : String :=
  match utf8Stop bytes.length bytes 0 with
  | some (index, some errorLen) => s!"invalid utf-8 sequence of {errorLen} bytes from index {index}"
  | some (index, none) => s!"incomplete utf-8 byte sequence from index {index}"
  | none => ""

/-- The string that the bytes encode. -/
def strOfBytes (bytes : List UInt8) : Except String String :=
  match String.fromUTF8? ⟨bytes.toArray⟩ with
  | some s => .ok s
  | none => .error (utf8ErrorText bytes)

theorem strOfBytes_ok {bytes : List UInt8} {s : String} :
    strOfBytes bytes = .ok s ↔ strBytes s = bytes := by
  unfold strOfBytes String.fromUTF8?
  by_cases hvalid : ByteArray.IsValidUTF8 ⟨bytes.toArray⟩
  · rw [dif_pos hvalid]
    constructor
    · intro h
      cases h
      rfl
    · rintro rfl
      rfl
  · rw [dif_neg hvalid]
    constructor
    · intro h
      cases h
    · rintro rfl
      exact absurd s.isValidUTF8 hvalid

/-- A text whose last sequence is cut off. -/
example : strOfBytes [0x61, 0xE2, 0x82] =
    .error "incomplete utf-8 byte sequence from index 1" := by decide +kernel

end MootMemory
