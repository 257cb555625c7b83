import MootMemory.BitCount
import MootMemory.ByteCodec
import Mathlib.Data.Prod.Lex
import Mathlib.Data.String.Basic

namespace MootMemory

inductive VectorKitError where
  | embeddingFailed (reason : String)
  | modelUnavailable (model : String)
  | storeUnavailable (reason : String)
  | notFound
  | invalidPayload (violation : String)
  | decodingFailure (failure : String)
  | int8QuantizationPolicyUndefined (reason : String)
  | embedFloatVocabMiss (reason : String)
deriving DecidableEq, Repr

/-- How a call can fail: with an error value it returns, or by a panic. -/
inductive Fault where
  | err (e : VectorKitError)
  | panic
deriving DecidableEq, Repr

def decodingFailure (failure : String) : Fault := .err (.decodingFailure failure)

/-- The greatest value of the source's 64-bit unsigned words. -/
def usizeMax : Nat := 2 ^ 64 - 1

inductive VectorKind where
  | binary
  | float32
  | int8
deriving DecidableEq, Repr

def VectorKind.raw : VectorKind → Nat
  | .binary => 0
  | .float32 => 1
  | .int8 => 2

def VectorKind.fromRaw : Nat → Option VectorKind
  | 0 => some .binary
  | 1 => some .float32
  | 2 => some .int8
  | _ => none

theorem VectorKind.raw_lt (kind : VectorKind) : kind.raw < 256 := by
  cases kind <;> decide

theorem VectorKind.fromRaw_eq_some {n : Nat} {kind : VectorKind} :
    VectorKind.fromRaw n = some kind ↔ n = kind.raw := by
  constructor
  · intro h
    unfold VectorKind.fromRaw at h
    split at h <;> cases h <;> rfl
  · rintro rfl
    cases kind <;> rfl

def VectorKind.debug : VectorKind → String
  | .binary => "Binary"
  | .float32 => "Float32"
  | .int8 => "Int8"

/-- `scale` is the bit pattern of the 32-bit float. -/
structure VectorPayload where
  kind : VectorKind
  dim : UInt32
  bytes : List UInt8
  scale : Option UInt32
deriving DecidableEq, Repr

/-- A 256-bit code as four 64-bit blocks; bit 0 is the lowest bit of `block0`. -/
structure Engram where
  block0 : UInt64
  block1 : UInt64
  block2 : UInt64
  block3 : UInt64
deriving DecidableEq, Repr

def leU64 (bytes : List UInt8) (pos : Nat) : UInt64 := UInt64.ofNat (leNat (sliceAt bytes pos 8))

/-- The four little-endian blocks of the 32-byte wire form. -/
def Engram.ofLeBytes (bytes : List UInt8) : Engram :=
  ⟨leU64 bytes 0, leU64 bytes 8, leU64 bytes 16, leU64 bytes 24⟩

def Engram.wireBytes (e : Engram) : List UInt8 :=
  leBytes 8 e.block0.toNat ++ leBytes 8 e.block1.toNat ++ leBytes 8 e.block2.toNat ++
    leBytes 8 e.block3.toNat

@[simp] theorem Engram.length_wireBytes (e : Engram) : e.wireBytes.length = 32 := by
  simp [Engram.wireBytes]

theorem leU64_of_hasAt {data : List UInt8} {pos : Nat} {w : UInt64}
    (h : HasAt data pos (leBytes 8 w.toNat)) : leU64 data pos = w := by
  obtain ⟨_, hread⟩ := hasAt_leBytes.mp ⟨w.toNat_lt, h⟩
  rw [leU64, hread, UInt64.ofNat_toNat]

theorem Engram.ofLeBytes_wireBytes (e : Engram) : Engram.ofLeBytes e.wireBytes = e := by
  have h : HasAt e.wireBytes 0 e.wireBytes := by
    simpa using hasAt_mid [] e.wireBytes []
  conv at h => rhs; rw [Engram.wireBytes]
  simp only [hasAt_append, length_leBytes, List.length_append] at h
  obtain ⟨⟨⟨h0, h1⟩, h2⟩, h3⟩ := h
  rw [Engram.ofLeBytes, leU64_of_hasAt h0, leU64_of_hasAt h1, leU64_of_hasAt h2,
    leU64_of_hasAt h3]

def VectorPayload.fromEngram (engram : Engram) : VectorPayload :=
  { kind := .binary, dim := 256, bytes := engram.wireBytes, scale := none }

namespace EngramLib

/-- The number of differing bits of two codes. -/
def distance (a b : Engram) : Nat :=
  bitCount 64 (a.block0 ^^^ b.block0).toNat + bitCount 64 (a.block1 ^^^ b.block1).toNat +
    bitCount 64 (a.block2 ^^^ b.block2).toNat + bitCount 64 (a.block3 ^^^ b.block3).toNat

def distances (probe : Engram) (codes : List Engram) : List Nat := codes.map (distance probe)

theorem distance_le (a b : Engram) : distance a b ≤ 256 := by
  have h0 := bitCount_le_width 64 (a.block0 ^^^ b.block0).toNat
  have h1 := bitCount_le_width 64 (a.block1 ^^^ b.block1).toNat
  have h2 := bitCount_le_width 64 (a.block2 ^^^ b.block2).toNat
  have h3 := bitCount_le_width 64 (a.block3 ^^^ b.block3).toNat
  unfold distance
  omega

end EngramLib

structure VectorRecordKey where
  itemId : String
  vectorIndex : UInt32
  modelId : String
  modelVersion : String
deriving Repr

namespace VectorRecordKey

/-- Strings compare by their UTF-8 bytes in the source, which is the order of their code points. -/
def cmp (a b : VectorRecordKey) : Ordering :=
  (((compare a.itemId b.itemId).then (compare a.vectorIndex.toNat b.vectorIndex.toNat)).then
    (compare a.modelId b.modelId)).then (compare a.modelVersion b.modelVersion)

/-- The tuple whose lexicographic order is the order of the keys. -/
def tuple (k : VectorRecordKey) : String ×ₗ Nat ×ₗ String ×ₗ String :=
  toLex (k.itemId, toLex (k.vectorIndex.toNat, toLex (k.modelId, k.modelVersion)))

theorem tuple_injective : Function.Injective tuple := by
  rintro ⟨item, index, model, version⟩ ⟨item', index', model', version'⟩ h
  simp only [tuple, EmbeddingLike.apply_eq_iff_eq, Prod.mk.injEq] at h
  obtain ⟨rfl, hindex, rfl, rfl⟩ := h
  rw [UInt32.toNat_inj.mp hindex]

instance : LinearOrder VectorRecordKey := LinearOrder.lift' tuple tuple_injective

instance : LawfulBEq VectorRecordKey := inferInstance

theorem cmp_eq_compare (a b : VectorRecordKey) : a.cmp b = compare a b := by
  have hcompare : compare a b = compare a.tuple b.tuple := rfl
  rw [hcompare]
  simp only [cmp, tuple, Prod.Lex.compare_def, compareLex, compareOn, ofLex_toLex,
    Ordering.then_assoc]

/-- The columns a row of the `vectors` table is unique in. -/
def triple (k : VectorRecordKey) : String × UInt32 × String := (k.itemId, k.vectorIndex, k.modelId)

end VectorRecordKey

inductive BinaryMetric where
  | hamming
  | jaccard
deriving DecidableEq, Repr

inductive FloatMetric where
  | cosine
  | l2
  | dot
deriving DecidableEq, Repr

inductive DenseMetric where
  | binary (m : BinaryMetric)
  | float (m : FloatMetric)
deriving DecidableEq, Repr

namespace DenseMetric

def HAMMING : DenseMetric := .binary .hamming

def debug : DenseMetric → String
  | .binary .hamming => "Binary(Hamming)"
  | .binary .jaccard => "Binary(Jaccard)"
  | .float .cosine => "Float(Cosine)"
  | .float .l2 => "Float(L2)"
  | .float .dot => "Float(Dot)"

end DenseMetric

structure DenseHit where
  key : VectorRecordKey
  rawDistance : Int
  metric : DenseMetric
deriving DecidableEq, Repr

structure MetadataFilter where
  modelId : Option String
  modelVersion : Option String
deriving DecidableEq, Repr

def MetadataFilter.accepts (f : MetadataFilter) (key : VectorRecordKey) : Bool :=
  (match f.modelId with
    | some mid => key.modelId == mid
    | none => true) &&
  (match f.modelVersion with
    | some ver => key.modelVersion == ver
    | none => true)

/-- An absent filter accepts every key. -/
def acceptedBy (filter : Option MetadataFilter) (key : VectorRecordKey) : Bool :=
  match filter with
  | some f => f.accepts key
  | none => true

/-- A key and the bytes of its vector. -/
abbrev VectorRecord := VectorRecordKey × List UInt8

end MootMemory
