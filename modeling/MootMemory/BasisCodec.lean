import Mathlib.Data.List.Lex
import MootMemory.OrderedMap
import MootMemory.Utf8Text

namespace MootMemory

/-- How a call can end early: with an error value it returns, or by a panic. -/
inductive Stop (ε : Type) where
  | err (e : ε)
  | panic
deriving DecidableEq, Repr

/-- What comes of indexing that the source does not guard. -/
def orPanic {ε α : Type} : Option α → Except (Stop ε) α
  | some a => .ok a
  | none => .error .panic

inductive BasisCodecError where
  | truncated (m : String)
  | magicMismatch (m : String)
  | unsupportedVersion (m : String)
  | invalidUtf8 (m : String)
deriving DecidableEq, Repr

/-- The bit pattern of a 32-bit float. -/
abbrev F32 := UInt32

/-- Keys are sorted by their UTF-8 bytes. -/
def utf8Rank (s : String) : List Nat := (strBytes s).map UInt8.toNat

/-- `HashMap<String, V>`, kept in the order in which the writer emits it. -/
abbrev TermMap := OrderedMap utf8Rank

def basisFormatVersion : UInt8 := 1

section Writer

def writeU32 (v : Nat) : List UInt8 := leBytes 4 v

def writeU64 (v : UInt64) : List UInt8 := leBytes 8 v.toNat

def writeF32 (v : F32) : List UInt8 := leBytes 4 v.toNat

def writeString (s : String) : List UInt8 := writeU32 (strBytes s).length ++ strBytes s

/-- A count, and the items behind it. -/
def writeMany {α : Type} (write : α → List UInt8) (items : List α) : List UInt8 :=
  writeU32 items.length ++ items.flatMap write

def writeF32Array (a : List F32) : List UInt8 := writeMany writeF32 a

def writeF32Matrix (m : List (List F32)) : List UInt8 := writeMany writeF32Array m

def writeMap {ν : Type} (write : ν → List UInt8) (map : TermMap ν) : List UInt8 :=
  writeMany (fun entry => writeString entry.1 ++ write entry.2) map.entries

def writeStringF32VectorMap (map : TermMap (List F32)) : List UInt8 := writeMap writeF32Array map

def writeStringU32Map (map : TermMap Nat) : List UInt8 := writeMap writeU32 map

end Writer

section Reader

structure BasisReader where
  bytes : List UInt8
  cursor : Nat

abbrev BasisRead := StateT BasisReader (Except (Stop BasisCodecError))

def BasisRead.fail {α : Type} (e : BasisCodecError) : BasisRead α := fun _ => .error (.err e)

/-- `bytes[cursor..cursor + len]`, and the cursor moves behind it. -/
def takeBytes (len : Nat) : BasisRead (List UInt8) := fun r =>
  if r.cursor + len ≤ r.bytes.length then
    .ok (sliceAt r.bytes r.cursor len, { r with cursor := r.cursor + len })
  else .error .panic

/-- The guard that `len` bytes are left. -/
def guardLeft (len : Nat) (reading : Nat → String) : BasisRead Unit := fun r =>
  if r.bytes.length < r.cursor + len then .error (.err (.truncated (reading r.cursor)))
  else .ok ((), r)

/-- `bytes[cursor]`, and the cursor moves behind it. -/
def byteAtCursor : BasisRead UInt8 := fun r => do
  let b ← orPanic r.bytes[r.cursor]?
  .ok (b, { r with cursor := r.cursor + 1 })

def readByte : BasisRead UInt8 := do
  guardLeft 1 fun cursor => s!"reading byte at offset {cursor}"
  byteAtCursor

/-- Bytes as a debugger prints them. -/
def debugBytes (bytes : List UInt8) : String := toString (bytes.map UInt8.toNat)

def expectMagic (expected : List UInt8) : BasisRead Unit := do
  guardLeft 4 fun _ => "reading magic"
  let got ← takeBytes 4
  if got ≠ expected then
    .fail (.magicMismatch s!"expected {debugBytes expected}, got {debugBytes got}")

def expectVersion (expected : UInt8) : BasisRead Unit := do
  let v ← readByte
  if v ≠ expected then
    .fail (.unsupportedVersion s!"version {v.toNat} (expected {expected.toNat})")

/-- A little-endian number of `k` bytes; the source has one such function for each width. -/
def readLE (k : Nat) (reading : Nat → String) : BasisRead Nat := do
  guardLeft k reading
  let buf ← takeBytes k
  pure (leNat buf)

def readU32 : BasisRead Nat := readLE 4 fun cursor => s!"reading u32 at offset {cursor}"

def readU64 : BasisRead UInt64 := do
  pure (UInt64.ofNat (← readLE 8 fun cursor => s!"reading u64 at offset {cursor}"))

def readF32 : BasisRead F32 := do pure (UInt32.ofNat (← readU32))

def readString : BasisRead String := do
  let len ← readU32
  guardLeft len fun _ => s!"reading string of length {len}"
  let slice ← takeBytes len
  match strOfBytes slice with
  | .ok s => pure s
  | .error m => .fail (.invalidUtf8 m)

/-- A loop of `n` rounds over what has been read so far. -/
def readTimes {α : Type} (step : α → BasisRead α) : Nat → α → BasisRead α
  | 0, out => pure out
  | n + 1, out => do readTimes step n (← step out)

/-- A count, and that many rounds. -/
def readCounted {α : Type} (step : α → BasisRead α) (out : α) : BasisRead α := do
  let count ← readU32
  readTimes step count out

def readF32Array : BasisRead (List F32) :=
  readCounted (fun out => do pure (out ++ [← readF32])) []

def readF32Matrix : BasisRead (List (List F32)) :=
  readCounted (fun out => do pure (out ++ [← readF32Array])) []

def readMap {ν : Type} (read : BasisRead ν) : BasisRead (TermMap ν) :=
  readCounted (fun out => do
    let key ← readString
    let value ← read
    pure (out.insert key value)) .empty

def readStringF32VectorMap : BasisRead (TermMap (List F32)) := readMap readF32Array

def readStringU32Map : BasisRead (TermMap Nat) := readMap readU32

/-- A reading of the bytes from their start; what is left behind it is not looked at. -/
def BasisRead.over {α : Type} (read : BasisRead α) (bytes : List UInt8) :
    Except (Stop BasisCodecError) α :=
  (read ⟨bytes, 0⟩).map (·.1)

end Reader

end MootMemory
