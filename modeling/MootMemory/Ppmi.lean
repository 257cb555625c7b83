import MootMemory.RandomIndexing

namespace MootMemory

def ppmiDimension : Nat := 2048

def ppmiWindow : Nat := 4

def ppmiBasisMagic : List UInt8 := [0x50, 0x50, 0x42, 0x31]

def ppmiCountsMagic : List UInt8 := [0x50, 0x50, 0x4D, 0x43]

/-- The raw counts that training accumulates. -/
structure PpmiCounts where
  coCount : TermMap (TermMap Nat)
  termCount : TermMap Nat
  totalPairs : Nat
  totalTerms : Nat

structure PpmiProvider extends PpmiCounts where
  modelId : String
  modelVersion : String
  projectionSeed : UInt64
  ppmiVectors : TermMap (List F32)

variable (math : BasisMath) (sub : CorpusSubstrate)

namespace PpmiCounts

def empty : PpmiCounts := ⟨.empty, .empty, 0, 0⟩

/-- The context stands in the window of the target. -/
def countPair (counts : PpmiCounts) (target context : String) : PpmiCounts :=
  let contexts := (counts.coCount.get? (lowered sub target)).getD .empty
  { counts with
    coCount := counts.coCount.insert (lowered sub target)
      (contexts.increment (lowered sub context))
    totalPairs := counts.totalPairs + 1 }

/-- The pairs of the term at `i`, and the term itself. -/
def countAt (terms : List String) (window : Nat) (counts : PpmiCounts) (position : String × Nat) :
    PpmiCounts :=
  let (target, i) := position
  let lo := i - window
  let hi := min (i + window) (terms.length - 1)
  let contexts := (terms.zipIdx.drop lo).take (hi + 1 - lo)
  let counts := contexts.foldl (fun counts context =>
    if context.2 = i then counts else counts.countPair sub target context.1) counts
  { counts with
    termCount := counts.termCount.increment (lowered sub target)
    totalTerms := counts.totalTerms + 1 }

def train (counts : PpmiCounts) (terms : List String) (window : Nat) : PpmiCounts :=
  terms.zipIdx.foldl (countAt sub terms window) counts

end PpmiCounts

namespace PpmiProvider

def withParameters (modelId modelVersion : String) (projectionSeed : UInt64) : PpmiProvider :=
  { PpmiCounts.empty with modelId, modelVersion, projectionSeed, ppmiVectors := .empty }

def train (p : PpmiProvider) (terms : List String) (window : Nat) : PpmiProvider :=
  { p with toPpmiCounts := p.toPpmiCounts.train sub terms window }

/-- What one context adds to its target's vector: nothing if it was not counted, or not above
chance. -/
def weigh (counts : PpmiCounts) (logPt : F32) (acc : List F32 × Bool) (context : String × Nat) :
    List F32 × Bool :=
  let cc := (counts.termCount.get? context.1).getD 0
  if context.2 = 0 ∨ cc = 0 then acc
  else
    let logPc := math.ln (math.div (math.ofNat cc) (math.ofNat counts.totalTerms))
    let logPtc := math.ln (math.div (math.ofNat context.2) (math.ofNat counts.totalPairs))
    let weight := math.max (math.sub (math.sub logPtc logPt) logPc) 0
    if math.isZero weight then acc
    else (List.zipWith (fun a x => math.add a (math.mul weight x)) acc.1
      (riIndexVector math sub context.1), true)

/-- The vectors of the targets. `order` is the order in which the hash map of a target's contexts
is gone through, which the source leaves open. -/
def finalize (order : String → List (String × Nat) → List (String × Nat)) (p : PpmiProvider) :
    PpmiProvider :=
  if p.totalPairs = 0 ∨ p.totalTerms = 0 then p
  else
    { p with
      ppmiVectors := p.coCount.entries.foldl (fun vectors target =>
        let tc := (p.termCount.get? target.1).getD 0
        if tc = 0 then vectors
        else
          let logPt := math.ln (math.div (math.ofNat tc) (math.ofNat p.totalTerms))
          let (vec, hasNonzero) := (order target.1 target.2.entries).foldl
            (weigh math sub p.toPpmiCounts logPt) (List.replicate ppmiDimension 0, false)
          if hasNonzero then vectors.insert target.1 vec else vectors) .empty }

def addToCounts (p : PpmiProvider) (text : String) : PpmiProvider :=
  p.train sub (defaultKeywordTokens sub text) ppmiWindow

def trainOnCorpus (order : String → List (String × Nat) → List (String × Nat)) (p : PpmiProvider)
    (texts : List String) : PpmiProvider :=
  (texts.foldl (fun p text => p.train sub (defaultKeywordTokens sub text) ppmiWindow) p).finalize
    math sub order

def serializeBasis (p : PpmiProvider) : List UInt8 :=
  ppmiBasisMagic ++ ([basisFormatVersion] ++ (writeString p.modelId ++
    (writeString p.modelVersion ++ (writeU64 p.projectionSeed ++
    writeStringF32VectorMap p.ppmiVectors))))

def readBasis : BasisRead PpmiProvider := do
  expectMagic ppmiBasisMagic
  expectVersion basisFormatVersion
  let modelId ← readString
  let modelVersion ← readString
  let projectionSeed ← readU64
  let ppmiVectors ← readStringF32VectorMap
  pure { withParameters modelId modelVersion projectionSeed with ppmiVectors }

def fromSerializedBasis (bytes : List UInt8) : Except (Stop BasisCodecError) PpmiProvider :=
  readBasis.over bytes

def serializeCounts (p : PpmiProvider) : List UInt8 :=
  ppmiCountsMagic ++ ([basisFormatVersion] ++ (writeString p.modelId ++
    (writeString p.modelVersion ++ (writeU64 p.projectionSeed ++
    (writeU64 (UInt64.ofNat p.totalPairs) ++ (writeU64 (UInt64.ofNat p.totalTerms) ++
    (writeStringU32Map p.termCount ++ writeMap writeStringU32Map p.coCount)))))))

def readCounts : BasisRead PpmiProvider := do
  expectMagic ppmiCountsMagic
  expectVersion basisFormatVersion
  let modelId ← readString
  let modelVersion ← readString
  let projectionSeed ← readU64
  let totalPairs ← readU64
  let totalTerms ← readU64
  let termCount ← readStringU32Map
  let coCount ← readMap readStringU32Map
  pure { withParameters modelId modelVersion projectionSeed with
    toPpmiCounts := ⟨coCount, termCount, totalPairs.toNat, totalTerms.toNat⟩ }

def fromSerializedCounts (bytes : List UInt8) : Except (Stop BasisCodecError) PpmiProvider :=
  readCounts.over bytes

/-- The vectors stay as they are. -/
def restoreCounts (p : PpmiProvider) (bytes : List UInt8) :
    Except (Stop BasisCodecError) PpmiProvider := do
  let restored ← readCounts.over bytes
  .ok { p with toPpmiCounts := restored.toPpmiCounts }

def ppmiContextVector (p : PpmiProvider) (text : String) : Lane (Option (List F32)) :=
  contextVector math sub ppmiDimension p.ppmiVectors text

def embed (p : PpmiProvider) (text : String) : Lane Engram := do
  match ← p.ppmiContextVector math sub text with
  | none => .ok zeroEngram
  | some v => .ok (math.project v p.projectionSeed)

def embedFloat (p : PpmiProvider) (text : String) : Lane (List F32) :=
  floatLane sub (p.ppmiVectors.size = 0) "ppmi: vocab" p.ppmiVectors text
    (p.ppmiContextVector math sub text)

def embedPair (p : PpmiProvider) (text : String) : Lane (Engram × List F32) := do
  match ← p.ppmiContextVector math sub text with
  | none => .ok (zeroEngram, [])
  | some v => .ok (math.project v p.projectionSeed, v)

/-- What the basis blob writes in 32 bits fits them. -/
def BasisFits (p : PpmiProvider) : Prop :=
  StringFits p.modelId ∧ StringFits p.modelVersion ∧ MapFits ArrayFits p.ppmiVectors

/-- What the counts blob writes fits its width. -/
def CountsFit (p : PpmiProvider) : Prop :=
  StringFits p.modelId ∧ StringFits p.modelVersion ∧ p.totalPairs < 2 ^ 64 ∧
    p.totalTerms < 2 ^ 64 ∧ MapFits U32Fits p.termCount ∧ MapFits (MapFits U32Fits) p.coCount

theorem fromSerializedBasis_serializeBasis {p : PpmiProvider} (h : p.BasisFits) :
    fromSerializedBasis p.serializeBasis = .ok
      { withParameters p.modelId p.modelVersion p.projectionSeed with
        ppmiVectors := p.ppmiVectors } := by
  have hread : Decodes readBasis p.serializeBasis
      { withParameters p.modelId p.modelVersion p.projectionSeed with
        ppmiVectors := p.ppmiVectors } :=
    (decodes_expectMagic rfl).bind <| (decodes_expectVersion _).bind <|
      (decodes_readString h.1).bind <| (decodes_readString h.2.1).bind <|
      (decodes_readU64 _).bind <| (decodes_readStringF32VectorMap h.2.2).map _
  exact hread.over

theorem guarded_readBasis : readBasis.Guarded :=
  (guarded_expectMagic _).bind fun _ => (guarded_expectVersion _).bind fun _ =>
    guarded_readString.bind fun _ => guarded_readString.bind fun _ =>
    guarded_readU64.bind fun _ => guarded_readStringF32VectorMap.bind fun _ => guarded_pure _

theorem decodes_readCounts {p : PpmiProvider} (h : p.CountsFit) :
    Decodes readCounts p.serializeCounts
      { withParameters p.modelId p.modelVersion p.projectionSeed with
        toPpmiCounts := p.toPpmiCounts } := by
  obtain ⟨hid, hversion, hpairs, hterms, htermCount, hcoCount⟩ := h
  have hread : Decodes readCounts p.serializeCounts
      { withParameters p.modelId p.modelVersion p.projectionSeed with
        toPpmiCounts := ⟨p.coCount, p.termCount, (UInt64.ofNat p.totalPairs).toNat,
          (UInt64.ofNat p.totalTerms).toNat⟩ } :=
    (decodes_expectMagic rfl).bind <| (decodes_expectVersion _).bind <|
      (decodes_readString hid).bind <| (decodes_readString hversion).bind <|
      (decodes_readU64 _).bind <| (decodes_readU64 _).bind <| (decodes_readU64 _).bind <|
      (decodes_readStringU32Map htermCount).bind <|
      (decodes_readMap (fun _ => decodes_readStringU32Map) hcoCount).map _
  rwa [UInt64.toNat_ofNat_of_lt' hpairs, UInt64.toNat_ofNat_of_lt' hterms] at hread

theorem guarded_readCounts : readCounts.Guarded :=
  (guarded_expectMagic _).bind fun _ => (guarded_expectVersion _).bind fun _ =>
    guarded_readString.bind fun _ => guarded_readString.bind fun _ =>
    guarded_readU64.bind fun _ => guarded_readU64.bind fun _ => guarded_readU64.bind fun _ =>
    guarded_readStringU32Map.bind fun _ =>
    (guarded_readMap guarded_readStringU32Map).bind fun _ => guarded_pure _

theorem restoreCounts_serializeCounts {p q : PpmiProvider} (h : q.CountsFit) :
    p.restoreCounts q.serializeCounts = .ok { p with toPpmiCounts := q.toPpmiCounts } := by
  rw [restoreCounts, (decodes_readCounts h).over]
  rfl

end PpmiProvider

end MootMemory
