import MootMemory.BasisRoundTrip
import MootMemory.EmbeddingLanes

namespace MootMemory

def lsaBasisMagic : List UInt8 := [0x4C, 0x53, 0x42, 0x31]

def lsaCountsMagic : List UInt8 := [0x4C, 0x53, 0x41, 0x43]

structure LsaProvider where
  modelId : String
  modelVersion : String
  rank : Nat
  svdSweeps : Nat
  projectionSeed : UInt64
  counts : TermDocumentCounts
  idfWeights : List F32
  u : List (List F32)
  vt : List (List F32)
  sigma : List F32
  docVecs : List (List F32)
  effectiveRank : Nat
  reducedVocabCap : Nat
  basisVocab : TermMap Nat

/-- What the basis blob holds. -/
structure LsaBasis where
  modelId : String
  modelVersion : String
  rank : Nat
  svdSweeps : Nat
  projectionSeed : UInt64
  documentCount : Nat
  effectiveRank : Nat
  vocab : TermMap Nat
  idfWeights : List F32
  u : List (List F32)
  sigma : List F32
  vt : List (List F32)

variable (math : BasisMath) (sub : CorpusSubstrate)

namespace LsaProvider

def new (rank svdSweeps : Nat) (projectionSeed : UInt64) : LsaProvider :=
  { modelId := "lsa-v1", modelVersion := "1.0.0", rank := max rank 1, svdSweeps, projectionSeed,
    counts := .new, idfWeights := [], u := [], vt := [], sigma := [], docVecs := [],
    effectiveRank := 0, reducedVocabCap := defaultReducedVocabCap, basisVocab := .empty }

def isFinalized (p : LsaProvider) : Prop := p.vt ≠ []

instance (p : LsaProvider) : Decidable p.isFinalized := inferInstanceAs (Decidable (p.vt ≠ []))

def train (p : LsaProvider) (document : String) : LsaProvider :=
  { p with counts := p.counts.addDocument sub document }

def addToCounts (p : LsaProvider) (text : String) : LsaProvider :=
  { p with counts := p.counts.addDocumentForCountsAnchor sub text }

/-- `normalize(U[d] · Σ)`. -/
def docVec (u : List (List F32)) (sigma : List F32) (k d : Nat) : Option (List F32) := do
  let v ← (List.range k).mapM fun r => do
    let x ← cell u d r
    some (math.mul x (← sigma[r]?))
  some (math.l2Normalize v)

def docVecsOf (u : List (List F32)) (sigma : List F32) (k rows : Nat) :
    Option (List (List F32)) :=
  (List.range rows).mapM (docVec math u sigma k)

/-- The weight of each column of the reduced vocabulary. -/
def idfOf (counts : TermDocumentCounts) (reduced : ReducedVocabulary) : Option (List F32) :=
  reduced.fullIndexToColumn.entries.foldlM (fun idf entry =>
    let df := (counts.dfCounts.get? entry.1).getD 0
    let weight := math.ln (math.div (math.ofNat (counts.documentCount + 1)) (math.ofNat (df + 1)))
    setAt idf entry.2 (math.max weight 0)) (List.replicate reduced.size 0)

/-- A document's row of the matrix; terms outside the reduced vocabulary are dropped. -/
def tfidfRow (reduced : ReducedVocabulary) (idfWeights : List F32) (m : List (List F32))
    (doc : IndexMap Nat × Nat) : Option (List (List F32)) :=
  doc.1.entries.foldlM (fun m entry =>
    match reduced.fullIndexToColumn.get? entry.1 with
    | some col => do
      let idf ← idfWeights[col]?
      setCell m doc.2 col (math.mul (termFrequency math entry.2) idf)
    | none => some m) m

/-- The decomposition needs as many rows as columns: a wide matrix goes in transposed. -/
def decomposed (m : List (List F32)) (n vocabSize rank sweeps : Nat) : Option SvdResult :=
  if vocabSize ≤ n then some (math.decompose m rank sweeps)
  else do
    let transposed := math.decompose (← flipped m n vocabSize) rank sweeps
    let k := transposed.rank
    let uNew ← flipped transposed.vt k n
    let vtNew ← flipped transposed.u vocabSize k
    some ⟨uNew, transposed.singularValues, vtNew, k⟩

def finalize (p : LsaProvider) : Option LsaProvider :=
  let n := p.counts.documentCount
  if n = 0 ∨ p.counts.vocabularySize = 0 then some p
  else
    let reduced := selectReducedVocabulary p.counts.vocab p.counts.dfCounts n p.reducedVocabCap
    let vocabSize := reduced.size
    -- Only the right vectors and the weights are cleared; the rest stays from before.
    if vocabSize = 0 then some { p with vt := [], idfWeights := [] }
    else do
      let idfWeights ← idfOf math p.counts reduced
      let m ← p.counts.tfCounts.zipIdx.foldlM (tfidfRow math reduced idfWeights)
        (List.replicate n (List.replicate vocabSize 0))
      let effectiveRank := min p.rank (min n vocabSize)
      let svd ← decomposed math m n vocabSize effectiveRank p.svdSweeps
      let docVecs ← docVecsOf math svd.u svd.singularValues svd.rank n
      some { p with
        idfWeights, basisVocab := reduced.termToColumn, sigma := svd.singularValues,
        vt := svd.vt, effectiveRank := svd.rank, u := svd.u, docVecs }

def trainOnCorpus (p : LsaProvider) (texts : List String) : Option LsaProvider :=
  (texts.foldl (train sub) p).finalize math

def anchor (p : LsaProvider) : CountsAnchor :=
  ⟨p.modelId, p.modelVersion, p.projectionSeed, p.counts.documentCount, p.counts.vocab⟩

def serializeCounts (p : LsaProvider) : List UInt8 := p.anchor.serialize lsaCountsMagic

def restoreCounts (p : LsaProvider) (bytes : List UInt8) :
    Except (Stop BasisCodecError) LsaProvider := do
  let anchor ← (CountsAnchor.read lsaCountsMagic).over bytes
  .ok { p with counts := .fromRestored anchor.vocab anchor.documentCount }

theorem restoreCounts_serializeCounts {p q : LsaProvider} (h : q.anchor.Fits) :
    p.restoreCounts q.serializeCounts =
      .ok { p with counts := .fromRestored q.counts.vocab q.counts.documentCount } := by
  rw [restoreCounts, serializeCounts, (CountsAnchor.decodes_read rfl h).over]
  rfl

/-- What a provider writes of itself. -/
def basis (p : LsaProvider) : LsaBasis :=
  { modelId := p.modelId, modelVersion := p.modelVersion, rank := p.rank,
    svdSweeps := p.svdSweeps, projectionSeed := p.projectionSeed,
    documentCount := p.counts.documentCount, effectiveRank := p.effectiveRank,
    vocab := p.basisVocab, idfWeights := p.idfWeights, u := p.u, sigma := p.sigma, vt := p.vt }

end LsaProvider

namespace LsaBasis

def serialize (b : LsaBasis) : List UInt8 :=
  lsaBasisMagic ++ ([basisFormatVersion] ++ (writeString b.modelId ++
    (writeString b.modelVersion ++ (writeU32 b.rank ++ (writeU32 b.svdSweeps ++
    (writeU64 b.projectionSeed ++ (writeU32 b.documentCount ++ (writeU32 b.effectiveRank ++
    (writeStringU32Map b.vocab ++ (writeF32Array b.idfWeights ++ (writeF32Matrix b.u ++
    (writeF32Array b.sigma ++ writeF32Matrix b.vt))))))))))))

def read : BasisRead LsaBasis := do
  expectMagic lsaBasisMagic
  expectVersion basisFormatVersion
  let modelId ← readString
  let modelVersion ← readString
  let rank ← readU32
  let svdSweeps ← readU32
  let projectionSeed ← readU64
  let documentCount ← readU32
  let effectiveRank ← readU32
  let vocab ← readStringU32Map
  let idfWeights ← readF32Array
  let u ← readF32Matrix
  let sigma ← readF32Array
  let vt ← readF32Matrix
  pure ⟨modelId, modelVersion, rank, svdSweeps, projectionSeed, documentCount, effectiveRank,
    vocab, idfWeights, u, sigma, vt⟩

/-- The lengths and indices that the blob writes in 32 bits fit them. -/
structure Fits (b : LsaBasis) : Prop where
  modelId : StringFits b.modelId
  modelVersion : StringFits b.modelVersion
  documentCount : U32Fits b.documentCount
  effectiveRank : U32Fits b.effectiveRank
  vocab : MapFits U32Fits b.vocab
  idfWeights : ArrayFits b.idfWeights
  u : MatrixFits b.u
  sigma : ArrayFits b.sigma
  vt : MatrixFits b.vt

/-- The provider that stands on the fields of a blob. -/
def provider (b : LsaBasis) (docVecs : List (List F32)) : LsaProvider :=
  { modelId := b.modelId, modelVersion := b.modelVersion, rank := max b.rank 1,
    svdSweeps := b.svdSweeps, projectionSeed := b.projectionSeed,
    counts := .fromRestored b.vocab b.documentCount, idfWeights := b.idfWeights, u := b.u,
    vt := b.vt, sigma := b.sigma, docVecs, effectiveRank := b.effectiveRank,
    reducedVocabCap := defaultReducedVocabCap, basisVocab := b.vocab }

/-- The two parameters that no length or index bounds come back as their low 32 bits. -/
theorem decodes_read {b : LsaBasis} (h : b.Fits) : Decodes read b.serialize
    { b with rank := b.rank % 2 ^ 32, svdSweeps := b.svdSweeps % 2 ^ 32 } :=
  (decodes_expectMagic rfl).bind <| (decodes_expectVersion _).bind <|
    (decodes_readString h.modelId).bind <| (decodes_readString h.modelVersion).bind <|
    (decodes_readU32_mod _).bind <| (decodes_readU32_mod _).bind <| (decodes_readU64 _).bind <|
    (decodes_readU32 h.documentCount).bind <| (decodes_readU32 h.effectiveRank).bind <|
    (decodes_readStringU32Map h.vocab).bind <| (decodes_readF32Array h.idfWeights).bind <|
    (decodes_readF32Matrix h.u).bind <| (decodes_readF32Array h.sigma).bind <|
    (decodes_readF32Matrix h.vt).map _

theorem guarded_read : read.Guarded :=
  (guarded_expectMagic _).bind fun _ => (guarded_expectVersion _).bind fun _ =>
    guarded_readString.bind fun _ => guarded_readString.bind fun _ =>
    guarded_readU32.bind fun _ => guarded_readU32.bind fun _ => guarded_readU64.bind fun _ =>
    guarded_readU32.bind fun _ => guarded_readU32.bind fun _ =>
    guarded_readStringU32Map.bind fun _ => guarded_readF32Array.bind fun _ =>
    guarded_readF32Matrix.bind fun _ => guarded_readF32Array.bind fun _ =>
    guarded_readF32Matrix.bind fun _ => guarded_pure _

end LsaBasis

namespace LsaProvider

def serializeBasis (p : LsaProvider) : List UInt8 := p.basis.serialize

def fromSerializedBasis (bytes : List UInt8) : Except (Stop BasisCodecError) LsaProvider := do
  let b ← LsaBasis.read.over bytes
  let docVecs ← orPanic (docVecsOf math b.u b.sigma b.effectiveRank b.u.length)
  .ok (b.provider docVecs)

/-- The weight of each term of a query, under its index. -/
def queryTfidf (p : LsaProvider) (rawCounts : IndexMap Nat) : Option (List F32) :=
  rawCounts.entries.foldlM (fun q entry => do
    let idf ← p.idfWeights[entry.1]?
    setAt q entry.1 (math.mul (termFrequency math entry.2) idf))
    (List.replicate p.basisVocab.size 0)

/-- `(1 / σ_r) * dot(Vt[r], query)`; a factor that weighs next to nothing is left out. -/
def foldIn (p : LsaProvider) (query : List F32) (r : Nat) : Option (F32 × Bool) := do
  let sigma ← p.sigma[r]?
  if math.lt sigma f32Eps then some (0, false)
  else do
    let row ← p.vt[r]?
    let dot := math.sum (List.zipWith math.mul row query)
    let x := math.div dot sigma
    some (x, ¬ math.isZero x)

/-- The inherent `embed_float`, which the embedding lanes stand on. -/
def embedFloatInherent (p : LsaProvider) (text : String) : Lane (Option (List F32)) :=
  let terms := defaultKeywordTokens sub text
  if ¬ p.isFinalized ∨ text = "" ∨ terms = [] then .ok none
  else
    let (rawCounts, hasInVocab) := countHits p.basisVocab terms
    if ¬ hasInVocab then .ok none
    else do
      let query ← orPanic (p.queryTfidf math rawCounts)
      let folded ← orPanic ((List.range p.effectiveRank).mapM (p.foldIn math query))
      .ok (normalised math folded)

def embed (p : LsaProvider) (text : String) : Lane Engram := do
  .ok (pairOf math p.projectionSeed (← p.embedFloatInherent math sub text)).1

def embedFloat (p : LsaProvider) (text : String) : Lane (List F32) :=
  floatLane sub (¬ p.isFinalized ∨ p.basisVocab.size = 0) "lsa: reduced vocab" p.basisVocab text
    (p.embedFloatInherent math sub text)

def embedPair (p : LsaProvider) (text : String) : Lane (Engram × List F32) := do
  .ok (pairOf math p.projectionSeed (← p.embedFloatInherent math sub text))

def documentEmbedding (p : LsaProvider) (docIdx : Nat) : Lane (Option (List F32)) :=
  if ¬ p.isFinalized ∨ p.counts.documentCount ≤ docIdx then .ok none
  else do .ok (some (← orPanic p.docVecs[docIdx]?))

end LsaProvider

end MootMemory
