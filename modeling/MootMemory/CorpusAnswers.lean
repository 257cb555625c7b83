import MootMemory.CorpusReach
import MootMemory.Nearest
import MootMemory.ReferenceCorpus
import MootMemory.VectorStore

namespace MootMemory

/-- Why a provider has no float vector for a query. -/
inductive EmbedFloatFailure where
  | vocabMiss
  | other

/-- A hit of both lanes together, with what each lane gave it. -/
structure FusedHit (floats : QueryFloats) where
  itemId : String
  fusedScore : floats.Score
  vectorScore : Option Int
  keywordScore : Option floats.Score

/-- A lane: its items by rank, and what it gave to each. -/
structure FusionLane (Score : Type) where
  ranked : List (String × Nat)
  scores : String → Option Score

/-- What of recall the providers and the floating-point arithmetic decide. The float vectors of the
table are searched by cosine, and the lanes are fused with the weights of the default
configuration. -/
structure Probes (sub : CorpusSubstrate) (floats : QueryFloats) where
  embed : sub.Kind → sub.State → String → Except String Engram
  embedFloat : sub.Kind → sub.State → String → Except EmbedFloatFailure (List UInt32)
  findNearestFloat : VectorTable → List UInt32 → String → Nat → Except String (List (String × Int))
  similarity : Int → floats.Score
  negInfinity : floats.Score
  fuse : FusionLane Int → FusionLane floats.Score → List (FusedHit floats)

inductive FloatLaneOutcome (floats : QueryFloats) where
  | hits (found : List (String × floats.Score))
  | emptyQuery
  | unavailableProviderOptOut
  | unavailableNoVocabHit
  | unavailableNoFloatRows
  | storeError (reason : String)

variable {sub : CorpusSubstrate} {floats : QueryFloats}

namespace Corpus

variable (probes : Probes sub floats) (c : Corpus sub)

section Recall

/-- `VectorStore::find_nearest`, over the rows of the table: the resident index it searches holds their
codes as long as no batch brings a key twice. -/
def findNearest (probe : Engram) (modelId : String) (k : Nat) : List VectorMatch :=
  if k = 0 then []
  else
    (nearest probe k (some { modelId := some modelId, modelVersion := none })
      (codesOf c.storage.vectors.binaryRecords)).map fun hit =>
        { itemId := hit.key.itemId, distance := hit.rawDistance, modelId }

end Recall

section FloatLane

/-- Every source once, with the most similar of its chunks, the most similar sources first. -/
def mostSimilar (credits : List (String × floats.Score)) : List (String × floats.Score) :=
  (((credits.map (·.1)).dedup).map fun sourceId =>
    (sourceId, ((credits.filter (·.1 = sourceId)).map (·.2)).foldl max probes.negInfinity)
      ).insertionSort fun a b => b.2 < a.2 ∨ (a.2 = b.2 ∧ a.1 ≤ b.1)

def floatNearestForSlot (slot : ProviderSlot sub) (query : String) (limit : Nat) :
    FloatLaneOutcome floats :=
  match probes.embedFloat slot.kind slot.handle query with
  | .error .vocabMiss => .unavailableNoVocabHit
  | .error .other => .unavailableProviderOptOut
  | .ok [] => .unavailableProviderOptOut
  | .ok probe =>
    match probes.findNearestFloat c.storage.vectors probe slot.modelId (saturatingMul limit 4) with
    | .error reason => .storeError reason
    | .ok found =>
      let credits := found.filterMap fun hit =>
        ((sub.parseId hit.1).bind c.chunkSourceMap).map fun sourceId =>
          (sourceId, probes.similarity hit.2)
      if credits = [] then .unavailableNoFloatRows
      else .hits ((mostSimilar probes credits).take limit)

def floatNearest (query : String) (limit : Nat) : FloatLaneOutcome floats :=
  if limit = 0 ∨ query = "" then .emptyQuery
  else
    match c.slots.head? with
    | none => .emptyQuery
    | some slot => c.floatNearestForSlot probes slot query limit

end FloatLane

section Books

/-- The chunks of sources that are not removed; all rows are counted where none is. -/
def count : Nat :=
  if c.storage.removedSources = ∅ then c.storage.chunks.rows.length
  else (c.allChunks.filter fun chunk => chunk.sourceId ∉ c.storage.removedSources).length

end Books

end Corpus

/-- The two states of a provider embed every query alike. -/
def Probes.Alike (probes : Probes sub floats) (kind : sub.Kind) (state state' : sub.State) : Prop :=
  ∀ query, probes.embed kind state query = probes.embed kind state' query ∧
    probes.embedFloat kind state query = probes.embedFloat kind state' query

/-- Providers of the reference substrate: probes are its codes and vectors, all float vectors of a
model are alike, and the vector lane comes out as it goes in. -/
def ReferenceCorpus.probes : Probes referenceCorpus ReferenceCorpus.floats where
  embed kind state text := .ok (referenceCorpus.embedPair kind state text).1
  embedFloat kind state text := .ok (referenceCorpus.embedPair kind state text).2
  findNearestFloat table _ modelId k :=
    .ok (((table.inputs.filter fun input =>
      input.modelId = modelId ∧ input.payload.kind = .float32).map fun input =>
        (input.itemId, (0 : Int))).take k)
  similarity distance := (10000 - distance : Int)
  negInfinity := (-10000 : Int)
  fuse vectors keywords := vectors.ranked.map fun hit =>
    { itemId := hit.1
      fusedScore := (0 : Int)
      vectorScore := vectors.scores hit.1
      keywordScore := keywords.scores hit.1 }

end MootMemory
