import MootMemory.Lsa
import MootMemory.Nmf
import MootMemory.Ppmi

namespace MootMemory

inductive BasisProvider where
  | randomIndexing (p : RandomIndexingProvider)
  | ppmi (p : PpmiProvider)
  | lsa (p : LsaProvider)
  | nmf (p : NmfProvider)

inductive BasisKind where
  | randomIndexing
  | ppmi
  | lsa
  | nmf

variable (math : BasisMath) (sub : CorpusSubstrate)

namespace BasisProvider

def kind : BasisProvider → BasisKind
  | .randomIndexing _ => .randomIndexing
  | .ppmi _ => .ppmi
  | .lsa _ => .lsa
  | .nmf _ => .nmf

/-- A provider as it is made. -/
inductive Fresh : BasisProvider → Prop
  | randomIndexing (modelId modelVersion : String) (projectionSeed : UInt64) :
      Fresh (.randomIndexing (.withParameters modelId modelVersion projectionSeed))
  | ppmi (modelId modelVersion : String) (projectionSeed : UInt64) :
      Fresh (.ppmi (.withParameters modelId modelVersion projectionSeed))
  | lsa (rank svdSweeps : Nat) (projectionSeed : UInt64) :
      Fresh (.lsa (.new rank svdSweeps projectionSeed))
  | nmf (rank maxIterations : Nat) (seed projectionSeed : UInt64) :
      Fresh (.nmf (.new rank maxIterations seed projectionSeed))

/-- Random indexing has no such pass. -/
def finalize (order : String → List (String × Nat) → List (String × Nat)) :
    BasisProvider → Option BasisProvider
  | .randomIndexing p => some (.randomIndexing p)
  | .ppmi p => some (.ppmi (p.finalize math sub order))
  | .lsa p => (p.finalize math).map .lsa
  | .nmf p => (p.finalize math).map .nmf

def trainOnCorpus (order : String → List (String × Nat) → List (String × Nat))
    (texts : List String) : BasisProvider → Option BasisProvider
  | .randomIndexing p => (p.trainOnCorpus math sub texts).map .randomIndexing
  | .ppmi p => some (.ppmi (p.trainOnCorpus math sub order texts))
  | .lsa p => (p.trainOnCorpus math sub texts).map .lsa
  | .nmf p => (p.trainOnCorpus math sub texts).map .nmf

def addToCounts (text : String) : BasisProvider → Option BasisProvider
  | .randomIndexing p => (p.addToCounts math sub text).map .randomIndexing
  | .ppmi p => some (.ppmi (p.addToCounts sub text))
  | .lsa p => some (.lsa (p.addToCounts sub text))
  | .nmf p => some (.nmf (p.addToCounts sub text))

def serializeCounts : BasisProvider → List UInt8
  | .randomIndexing p => p.serializeCounts
  | .ppmi p => p.serializeCounts
  | .lsa p => p.serializeCounts
  | .nmf p => p.serializeCounts

def restoreCounts (bytes : List UInt8) :
    BasisProvider → Except (Stop BasisCodecError) BasisProvider
  | .randomIndexing p => do .ok (.randomIndexing (← p.restoreCounts bytes))
  | .ppmi p => do .ok (.ppmi (← p.restoreCounts bytes))
  | .lsa p => do .ok (.lsa (← p.restoreCounts bytes))
  | .nmf p => do .ok (.nmf (← p.restoreCounts bytes))

def serializeBasis : BasisProvider → List UInt8
  | .randomIndexing p => p.serializeBasis
  | .ppmi p => p.serializeBasis
  | .lsa p => p.serializeBasis
  | .nmf p => p.serializeBasis

def fromSerializedBasis (bytes : List UInt8) :
    BasisKind → Except (Stop BasisCodecError) BasisProvider
  | .randomIndexing => do .ok (.randomIndexing (← RandomIndexingProvider.fromSerializedBasis bytes))
  | .ppmi => do .ok (.ppmi (← PpmiProvider.fromSerializedBasis bytes))
  | .lsa => do .ok (.lsa (← LsaProvider.fromSerializedBasis math bytes))
  | .nmf => do .ok (.nmf (← NmfProvider.fromSerializedBasis math bytes))

def embed (text : String) : BasisProvider → Lane Engram
  | .randomIndexing p => p.embed math sub text
  | .ppmi p => p.embed math sub text
  | .lsa p => p.embed math sub text
  | .nmf p => p.embed math sub text

def embedFloat (text : String) : BasisProvider → Lane (List F32)
  | .randomIndexing p => p.embedFloat math sub text
  | .ppmi p => p.embedFloat math sub text
  | .lsa p => p.embedFloat math sub text
  | .nmf p => p.embedFloat math sub text

def embedPair (text : String) : BasisProvider → Lane (Engram × List F32)
  | .randomIndexing p => p.embedPair math sub text
  | .ppmi p => p.embedPair math sub text
  | .lsa p => p.embedPair math sub text
  | .nmf p => p.embedPair math sub text

/-- The two dense providers have embeddings of their documents. -/
def documentEmbedding (docIdx : Nat) : BasisProvider → Lane (Option (List F32))
  | .randomIndexing _ => .ok none
  | .ppmi _ => .ok none
  | .lsa p => p.documentEmbedding docIdx
  | .nmf p => p.documentEmbedding docIdx

/-- What the counts blob writes fits its width. -/
def CountsFit : BasisProvider → Prop
  | .randomIndexing p => p.Fits
  | .ppmi p => p.CountsFit
  | .lsa p => p.anchor.Fits
  | .nmf p => p.anchor.Fits

instance (p : BasisProvider) : Decidable p.CountsFit :=
  match p with
  | .randomIndexing p => inferInstanceAs (Decidable (_ ∧ _ ∧ MapFits ArrayFits p.vocab))
  | .ppmi p => inferInstanceAs (Decidable (_ ∧ _ ∧ _ ∧ _ ∧ _ ∧ MapFits (MapFits U32Fits) p.coCount))
  | .lsa p => inferInstanceAs (Decidable (_ ∧ _ ∧ _ ∧ MapFits U32Fits p.anchor.vocab))
  | .nmf p => inferInstanceAs (Decidable (_ ∧ _ ∧ _ ∧ MapFits U32Fits p.anchor.vocab))

/-- The lengths and indices that the basis blob writes fit their width. -/
def BasisFits : BasisProvider → Prop
  | .randomIndexing p => p.Fits
  | .ppmi p => p.BasisFits
  | .lsa p => p.basis.Fits
  | .nmf p => p.basis.Fits

end BasisProvider

end MootMemory
