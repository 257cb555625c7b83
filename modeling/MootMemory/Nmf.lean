import MootMemory.BasisRoundTrip
import MootMemory.EmbeddingLanes

namespace MootMemory

def nmfBasisMagic : List UInt8 := [0x4E, 0x4D, 0x42, 0x31]

def nmfCountsMagic : List UInt8 := [0x4E, 0x4D, 0x46, 0x43]

structure NmfProvider where
  modelId : String
  modelVersion : String
  rank : Nat
  maxIterations : Nat
  seed : UInt64
  projectionSeed : UInt64
  counts : TermDocumentCounts
  w : List (List F32)
  h : List (List F32)
  docEmbeddings : List (List F32)
  effectiveRank : Nat
  reducedVocabCap : Nat
  basisVocab : TermMap Nat

/-- What the basis blob holds. -/
structure NmfBasis where
  modelId : String
  modelVersion : String
  rank : Nat
  maxIterations : Nat
  seed : UInt64
  projectionSeed : UInt64
  documentCount : Nat
  effectiveRank : Nat
  vocab : TermMap Nat
  w : List (List F32)
  h : List (List F32)

variable (math : BasisMath) (sub : CorpusSubstrate)

namespace NmfProvider

def new (rank maxIterations : Nat) (seed projectionSeed : UInt64) : NmfProvider :=
  { modelId := "nmf-v1", modelVersion := "1.0.0", rank := max rank 1,
    maxIterations := max maxIterations 1, seed, projectionSeed, counts := .new, w := [], h := [],
    docEmbeddings := [], effectiveRank := 0, reducedVocabCap := defaultReducedVocabCap,
    basisVocab := .empty }

def isFinalized (p : NmfProvider) : Prop := p.w ≠ []

instance (p : NmfProvider) : Decidable p.isFinalized := inferInstanceAs (Decidable (p.w ≠ []))

def train (p : NmfProvider) (document : String) : NmfProvider :=
  { p with counts := p.counts.addDocument sub document }

def addToCounts (p : NmfProvider) (text : String) : NmfProvider :=
  { p with counts := p.counts.addDocumentForCountsAnchor sub text }

/-- Column `d` of the first `k` rows of `H`, normalised. -/
def docEmbedding (h : List (List F32)) (k d : Nat) : Option (List F32) := do
  let col ← (List.range k).mapM fun r => cell h r d
  some (math.l2Normalize col)

def docEmbeddingsOf (h : List (List F32)) (k docs : Nat) : Option (List (List F32)) :=
  (List.range docs).mapM (docEmbedding math h k)

/-- A document's column of the matrix; terms outside the reduced vocabulary are dropped. -/
def tfColumn (reduced : ReducedVocabulary) (v : List (List F32)) (doc : IndexMap Nat × Nat) :
    Option (List (List F32)) :=
  doc.1.entries.foldlM (fun v entry =>
    match reduced.fullIndexToColumn.get? entry.1 with
    | some row => setCell v row doc.2 (termFrequency math entry.2)
    | none => some v) v

def finalize (p : NmfProvider) : Option NmfProvider :=
  let numDocs := p.counts.documentCount
  if numDocs = 0 ∨ p.counts.vocabularySize = 0 then some p
  else
    let reduced :=
      selectReducedVocabulary p.counts.vocab p.counts.dfCounts numDocs p.reducedVocabCap
    let vocabSize := reduced.size
    if vocabSize = 0 then
      some { p with w := [], h := [], docEmbeddings := [], effectiveRank := 0,
                    basisVocab := .empty }
    else do
      let v ← p.counts.tfCounts.zipIdx.foldlM (tfColumn math reduced)
        (List.replicate vocabSize (List.replicate numDocs 0))
      let effectiveRank := min p.rank (min vocabSize numDocs)
      let result := math.factorize v effectiveRank p.maxIterations p.seed
      let docEmbeddings ← docEmbeddingsOf math result.h effectiveRank numDocs
      some { p with
        basisVocab := reduced.termToColumn, effectiveRank := result.rank, w := result.w,
        h := result.h, docEmbeddings }

def trainOnCorpus (p : NmfProvider) (texts : List String) : Option NmfProvider :=
  (texts.foldl (train sub) p).finalize math

def anchor (p : NmfProvider) : CountsAnchor :=
  ⟨p.modelId, p.modelVersion, p.projectionSeed, p.counts.documentCount, p.counts.vocab⟩

def serializeCounts (p : NmfProvider) : List UInt8 := p.anchor.serialize nmfCountsMagic

def restoreCounts (p : NmfProvider) (bytes : List UInt8) :
    Except (Stop BasisCodecError) NmfProvider := do
  let anchor ← (CountsAnchor.read nmfCountsMagic).over bytes
  .ok { p with counts := .fromRestored anchor.vocab anchor.documentCount }

theorem restoreCounts_serializeCounts {p q : NmfProvider} (h : q.anchor.Fits) :
    p.restoreCounts q.serializeCounts =
      .ok { p with counts := .fromRestored q.counts.vocab q.counts.documentCount } := by
  rw [restoreCounts, serializeCounts, (CountsAnchor.decodes_read rfl h).over]
  rfl

/-- What a provider writes of itself. -/
def basis (p : NmfProvider) : NmfBasis :=
  { modelId := p.modelId, modelVersion := p.modelVersion, rank := p.rank,
    maxIterations := p.maxIterations, seed := p.seed, projectionSeed := p.projectionSeed,
    documentCount := p.counts.documentCount, effectiveRank := p.effectiveRank,
    vocab := p.basisVocab, w := p.w, h := p.h }

end NmfProvider

namespace NmfBasis

def serialize (b : NmfBasis) : List UInt8 :=
  nmfBasisMagic ++ ([basisFormatVersion] ++ (writeString b.modelId ++
    (writeString b.modelVersion ++ (writeU32 b.rank ++ (writeU32 b.maxIterations ++
    (writeU64 b.seed ++ (writeU64 b.projectionSeed ++ (writeU32 b.documentCount ++
    (writeU32 b.effectiveRank ++ (writeStringU32Map b.vocab ++ (writeF32Matrix b.w ++
    writeF32Matrix b.h)))))))))))

def read : BasisRead NmfBasis := do
  expectMagic nmfBasisMagic
  expectVersion basisFormatVersion
  let modelId ← readString
  let modelVersion ← readString
  let rank ← readU32
  let maxIterations ← readU32
  let seed ← readU64
  let projectionSeed ← readU64
  let documentCount ← readU32
  let effectiveRank ← readU32
  let vocab ← readStringU32Map
  let w ← readF32Matrix
  let h ← readF32Matrix
  pure ⟨modelId, modelVersion, rank, maxIterations, seed, projectionSeed, documentCount,
    effectiveRank, vocab, w, h⟩

/-- The lengths and indices that the blob writes in 32 bits fit them. -/
structure Fits (b : NmfBasis) : Prop where
  modelId : StringFits b.modelId
  modelVersion : StringFits b.modelVersion
  documentCount : U32Fits b.documentCount
  effectiveRank : U32Fits b.effectiveRank
  vocab : MapFits U32Fits b.vocab
  w : MatrixFits b.w
  h : MatrixFits b.h

/-- The provider that stands on the fields of a blob. -/
def provider (b : NmfBasis) (docEmbeddings : List (List F32)) : NmfProvider :=
  { modelId := b.modelId, modelVersion := b.modelVersion, rank := max b.rank 1,
    maxIterations := max b.maxIterations 1, seed := b.seed, projectionSeed := b.projectionSeed,
    counts := .fromRestored b.vocab b.documentCount, w := b.w, h := b.h, docEmbeddings,
    effectiveRank := b.effectiveRank, reducedVocabCap := defaultReducedVocabCap,
    basisVocab := b.vocab }

/-- The two parameters that no length or index bounds come back as their low 32 bits. -/
theorem decodes_read {b : NmfBasis} (h : b.Fits) : Decodes read b.serialize
    { b with rank := b.rank % 2 ^ 32, maxIterations := b.maxIterations % 2 ^ 32 } :=
  (decodes_expectMagic rfl).bind <| (decodes_expectVersion _).bind <|
    (decodes_readString h.modelId).bind <| (decodes_readString h.modelVersion).bind <|
    (decodes_readU32_mod _).bind <| (decodes_readU32_mod _).bind <| (decodes_readU64 _).bind <|
    (decodes_readU64 _).bind <| (decodes_readU32 h.documentCount).bind <|
    (decodes_readU32 h.effectiveRank).bind <| (decodes_readStringU32Map h.vocab).bind <|
    (decodes_readF32Matrix h.w).bind <| (decodes_readF32Matrix h.h).map _

theorem guarded_read : read.Guarded :=
  (guarded_expectMagic _).bind fun _ => (guarded_expectVersion _).bind fun _ =>
    guarded_readString.bind fun _ => guarded_readString.bind fun _ =>
    guarded_readU32.bind fun _ => guarded_readU32.bind fun _ => guarded_readU64.bind fun _ =>
    guarded_readU64.bind fun _ => guarded_readU32.bind fun _ => guarded_readU32.bind fun _ =>
    guarded_readStringU32Map.bind fun _ => guarded_readF32Matrix.bind fun _ =>
    guarded_readF32Matrix.bind fun _ => guarded_pure _

end NmfBasis

namespace NmfProvider

def serializeBasis (p : NmfProvider) : List UInt8 := p.basis.serialize

def fromSerializedBasis (bytes : List UInt8) : Except (Stop BasisCodecError) NmfProvider := do
  let b ← NmfBasis.read.over bytes
  let docEmbeddings ← orPanic (docEmbeddingsOf math b.h b.effectiveRank b.documentCount)
  .ok (b.provider docEmbeddings)

/-- The frequency of each term of a query, under its index. -/
def queryTf (p : NmfProvider) (rawCounts : IndexMap Nat) : Option (List F32) :=
  rawCounts.entries.foldlM (fun q entry => setAt q entry.1 (termFrequency math entry.2))
    (List.replicate p.basisVocab.size 0)

/-- One term's part of the product with column `r` of `W`, and of the column's norm. -/
def addCell (p : NmfProvider) (query : List F32) (r : Nat) (acc : F32 × F32) (i : Nat) :
    Option (F32 × F32) := do
  let wir ← cell p.w i r
  let qi ← query[i]?
  some (math.add acc.1 (math.mul wir qi), math.add acc.2 (math.mul wir wir))

/-- `dot(W[:, r], q) / (||W[:, r]||^2 + eps)`. -/
def foldIn (p : NmfProvider) (query : List F32) (r : Nat) : Option (F32 × Bool) := do
  let (dot, normSq) ← (List.range p.basisVocab.size).foldlM (p.addCell math query r) (0, 0)
  let x := math.div dot (math.add normSq f32Eps)
  some (x, ¬ math.isZero x)

def embedFloatNmf (p : NmfProvider) (text : String) : Lane (Option (List F32)) :=
  let terms := defaultKeywordTokens sub text
  if ¬ p.isFinalized ∨ text = "" ∨ terms = [] then .ok none
  else
    let (rawCounts, hasInVocab) := countHits p.basisVocab terms
    if ¬ hasInVocab then .ok none
    else do
      let query ← orPanic (p.queryTf math rawCounts)
      let folded ← orPanic ((List.range p.effectiveRank).mapM (p.foldIn math query))
      .ok (normalised math folded)

def embed (p : NmfProvider) (text : String) : Lane Engram := do
  .ok (pairOf math p.projectionSeed (← p.embedFloatNmf math sub text)).1

def embedFloat (p : NmfProvider) (text : String) : Lane (List F32) :=
  floatLane sub (¬ p.isFinalized ∨ p.basisVocab.size = 0) "nmf: reduced vocab" p.basisVocab text
    (p.embedFloatNmf math sub text)

def embedPair (p : NmfProvider) (text : String) : Lane (Engram × List F32) := do
  .ok (pairOf math p.projectionSeed (← p.embedFloatNmf math sub text))

def documentEmbedding (p : NmfProvider) (docIdx : Nat) : Lane (Option (List F32)) :=
  if ¬ p.isFinalized ∨ p.counts.documentCount ≤ docIdx then .ok none
  else do .ok (some (← orPanic p.docEmbeddings[docIdx]?))

end NmfProvider

end MootMemory
