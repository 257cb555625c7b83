import MootMemory.BasisRoundTrip
import MootMemory.EmbeddingLanes

namespace MootMemory

def riDimension : Nat := 2048

def riNonzeros : Nat := 10

def riWindow : Nat := 4

def riBasisMagic : List UInt8 := [0x52, 0x49, 0x42, 0x31]

def riCountsMagic : List UInt8 := [0x52, 0x49, 0x43, 0x54]

variable (math : BasisMath) (sub : CorpusSubstrate)

/-- Ten draws of a place and a sign; where two meet, the last one stands. -/
def riIndexVector (term : String) : List F32 :=
  let seed := math.hash64 (lowered sub term)
  (List.range riNonzeros).foldl (fun vec i =>
    let pos := (math.splitMix seed (2 * i)).toNat % riDimension
    let sign := if math.splitMix seed (2 * i + 1) &&& 1 = 1 then f32One else f32NegOne
    vec.set pos sign) (List.replicate riDimension 0)

structure RandomIndexingProvider where
  modelId : String
  modelVersion : String
  projectionSeed : UInt64
  vocab : TermMap (List F32)

namespace RandomIndexingProvider

def withParameters (modelId modelVersion : String) (projectionSeed : UInt64) :
    RandomIndexingProvider :=
  ⟨modelId, modelVersion, projectionSeed, .empty⟩

/-- A term is no neighbour of itself. -/
def addNeighbour (i : Nat) (cv : List F32) (neighbour : List F32 × Nat) : Option (List F32) :=
  if neighbour.2 = i then some cv else addInto math riDimension cv neighbour.1

/-- The neighbours' index vectors are added to the context vector of the term at `i`. -/
def trainAt (idxVecs : List (List F32)) (window : Nat) (p : RandomIndexingProvider)
    (position : String × Nat) : Option RandomIndexingProvider :=
  let (key, i) := position
  let lo := i - window
  let hi := min (i + window) (idxVecs.length - 1)
  if hi ≤ lo then some p
  else do
    let cv := (p.vocab.get? key).getD (List.replicate riDimension 0)
    let neighbours := (idxVecs.zipIdx.drop lo).take (hi + 1 - lo)
    let cv ← neighbours.foldlM (addNeighbour math i) cv
    some { p with vocab := p.vocab.insert key cv }

def train (p : RandomIndexingProvider) (terms : List String) (window : Nat) :
    Option RandomIndexingProvider :=
  let idxVecs := terms.map (riIndexVector math sub)
  let keys := terms.map (lowered sub)
  keys.zipIdx.foldlM (trainAt math idxVecs window) p

def addToCounts (p : RandomIndexingProvider) (text : String) : Option RandomIndexingProvider :=
  p.train math sub (defaultKeywordTokens sub text) riWindow

def trainOnCorpus (p : RandomIndexingProvider) (texts : List String) :
    Option RandomIndexingProvider :=
  texts.foldlM (fun p text => p.train math sub (defaultKeywordTokens sub text) riWindow) p

/-- The two blobs differ in their magic. -/
def serialize (magic : List UInt8) (p : RandomIndexingProvider) : List UInt8 :=
  magic ++ ([basisFormatVersion] ++ (writeString p.modelId ++ (writeString p.modelVersion ++
    (writeU64 p.projectionSeed ++ writeStringF32VectorMap p.vocab))))

def serializeBasis (p : RandomIndexingProvider) : List UInt8 := p.serialize riBasisMagic

def serializeCounts (p : RandomIndexingProvider) : List UInt8 := p.serialize riCountsMagic

def read (magic : List UInt8) : BasisRead RandomIndexingProvider := do
  expectMagic magic
  expectVersion basisFormatVersion
  let modelId ← readString
  let modelVersion ← readString
  let projectionSeed ← readU64
  let vocab ← readStringF32VectorMap
  pure { withParameters modelId modelVersion projectionSeed with vocab }

def fromSerializedBasis (bytes : List UInt8) :
    Except (Stop BasisCodecError) RandomIndexingProvider :=
  (read riBasisMagic).over bytes

def restoreCounts (p : RandomIndexingProvider) (bytes : List UInt8) :
    Except (Stop BasisCodecError) RandomIndexingProvider := do
  let restored ← (read riCountsMagic).over bytes
  .ok { p with vocab := restored.vocab }

def contextVector (p : RandomIndexingProvider) (text : String) : Lane (Option (List F32)) :=
  MootMemory.contextVector math sub riDimension p.vocab text

def embed (p : RandomIndexingProvider) (text : String) : Lane Engram := do
  match ← p.contextVector math sub text with
  | none => .ok zeroEngram
  | some v => .ok (math.project v p.projectionSeed)

/-- Here it is the vector itself, not a look at the terms, that tells whether one is known. -/
def embedFloat (p : RandomIndexingProvider) (text : String) : Lane (List F32) :=
  let terms := defaultKeywordTokens sub text
  if p.vocab.size = 0 ∨ text = "" ∨ terms = [] then .ok []
  else do
    match ← p.contextVector math sub text with
    | some v => .ok v
    | none => .error (.err (.embedFloatVocabMiss
        (s!"random-indexing: vocab size {p.vocab.size}, " ++
          s!"but 0 of {terms.length} query token(s) matched")))

def embedPair (p : RandomIndexingProvider) (text : String) : Lane (Engram × List F32) := do
  match ← p.contextVector math sub text with
  | none => .ok (zeroEngram, [])
  | some v => .ok (math.project v p.projectionSeed, v)

/-- What the blob writes in 32 bits fits them. -/
def Fits (p : RandomIndexingProvider) : Prop :=
  StringFits p.modelId ∧ StringFits p.modelVersion ∧ MapFits ArrayFits p.vocab

theorem decodes_read {magic : List UInt8} (hmagic : magic.length = 4) {p : RandomIndexingProvider}
    (h : p.Fits) : Decodes (read magic) (p.serialize magic) p :=
  (decodes_expectMagic hmagic).bind <| (decodes_expectVersion _).bind <|
    (decodes_readString h.1).bind <| (decodes_readString h.2.1).bind <|
    (decodes_readU64 _).bind <| (decodes_readStringF32VectorMap h.2.2).map _

theorem guarded_read (magic : List UInt8) : (read magic).Guarded :=
  (guarded_expectMagic magic).bind fun _ => (guarded_expectVersion _).bind fun _ =>
    guarded_readString.bind fun _ => guarded_readString.bind fun _ =>
    guarded_readU64.bind fun _ => guarded_readStringF32VectorMap.bind fun _ => guarded_pure _

theorem fromSerializedBasis_serializeBasis {p : RandomIndexingProvider} (h : p.Fits) :
    fromSerializedBasis p.serializeBasis = .ok p :=
  (decodes_read rfl h).over

theorem restoreCounts_serializeCounts {p q : RandomIndexingProvider} (h : q.Fits) :
    p.restoreCounts q.serializeCounts = .ok { p with vocab := q.vocab } := by
  rw [restoreCounts, serializeCounts, (decodes_read rfl h).over]
  rfl

end RandomIndexingProvider

end MootMemory
