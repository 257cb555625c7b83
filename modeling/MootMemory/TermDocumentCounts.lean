import MootMemory.BasisCodec
import MootMemory.Chunker

namespace MootMemory

/-- `HashMap<usize, V>`. -/
abbrev IndexMap := OrderedMap (id : Nat → Nat)

structure TermDocumentCounts where
  vocab : TermMap Nat
  tfCounts : List (IndexMap Nat)
  dfCounts : IndexMap Nat

namespace TermDocumentCounts

def new : TermDocumentCounts := ⟨.empty, [], .empty⟩

/-- One empty row per document stands for the counts that are not kept. -/
def fromRestored (vocab : TermMap Nat) (documentCount : Nat) : TermDocumentCounts :=
  ⟨vocab, List.replicate documentCount .empty, .empty⟩

def documentCount (counts : TermDocumentCounts) : Nat := counts.tfCounts.length

def vocabularySize (counts : TermDocumentCounts) : Nat := counts.vocab.size

/-- One term of a document: a new one gets the next index. -/
def countTerm (scan : TermMap Nat × IndexMap Nat) (term : String) : TermMap Nat × IndexMap Nat :=
  match scan.1.get? term with
  | some existing => (scan.1, scan.2.increment existing)
  | none => (scan.1.insert term scan.1.size, scan.2.increment scan.1.size)

variable (sub : CorpusSubstrate)

def addDocument (counts : TermDocumentCounts) (text : String) : TermDocumentCounts :=
  let terms := defaultKeywordTokens sub text
  if terms = [] then counts
  else
    let (vocab, docTf) := terms.foldl countTerm (counts.vocab, .empty)
    { vocab
      tfCounts := counts.tfCounts ++ [docTf]
      dfCounts := docTf.entries.foldl (fun df entry => df.increment entry.1) counts.dfCounts }

def growVocab (vocab : TermMap Nat) (term : String) : TermMap Nat :=
  if vocab.contains term then vocab else vocab.insert term vocab.size

/-- The document is counted, but not what it says. -/
def addDocumentForCountsAnchor (counts : TermDocumentCounts) (text : String) :
    TermDocumentCounts :=
  let terms := defaultKeywordTokens sub text
  if terms = [] then counts
  else
    { counts with
      vocab := terms.foldl growVocab counts.vocab
      tfCounts := counts.tfCounts ++ [.empty] }

@[simp] theorem documentCount_fromRestored (vocab : TermMap Nat) (n : Nat) :
    (fromRestored vocab n).documentCount = n := List.length_replicate

/-- Counts that were only anchored are what their vocabulary and number of documents restore. -/
theorem fromRestored_addDocumentForCountsAnchor {counts : TermDocumentCounts} {text : String}
    (h : counts = fromRestored counts.vocab counts.documentCount) :
    let counts' := counts.addDocumentForCountsAnchor sub text
    counts' = fromRestored counts'.vocab counts'.documentCount := by
  intro counts'
  rw [show counts' = counts.addDocumentForCountsAnchor sub text by rfl]
  unfold addDocumentForCountsAnchor
  dsimp only
  split
  next => exact h
  next =>
    have htf : counts.tfCounts = List.replicate counts.documentCount .empty :=
      congrArg tfCounts h
    have hdf : counts.dfCounts = .empty := congrArg dfCounts h
    rw [fromRestored, hdf]
    simp only [documentCount, List.length_append, List.length_singleton, List.replicate_succ']
    rw [← documentCount, ← htf]

end TermDocumentCounts

def defaultReducedVocabCap : Nat := 512

structure ReducedVocabulary where
  keptTerms : List String
  termToColumn : TermMap Nat
  fullIndexToColumn : IndexMap Nat

def ReducedVocabulary.size (reduced : ReducedVocabulary) : Nat := reduced.keptTerms.length

/-- A term that could be kept. -/
structure VocabCandidate where
  term : String
  fullIndex : Nat
  df : Nat

/-- More documents go first, then the smaller term. -/
def VocabCandidate.before (a b : VocabCandidate) : Bool :=
  b.df < a.df || (a.df == b.df && utf8Rank a.term ≤ utf8Rank b.term)

/-- All terms where they fit the cap; otherwise those in the most documents, none in fewer than
two of them. -/
def selectReducedVocabulary (vocab : TermMap Nat) (dfCounts : IndexMap Nat)
    (_documentCount cap : Nat) : ReducedVocabulary :=
  let fullSize := vocab.size
  if fullSize ≤ max cap 1 then
    { keptTerms := vocab.entries.foldl (fun kept entry =>
        if entry.2 < fullSize then kept.set entry.2 entry.1 else kept) (List.replicate fullSize "")
      termToColumn := vocab
      fullIndexToColumn := (List.range fullSize).foldl (fun map i => map.insert i i) .empty }
  else
    let candidates := vocab.entries.filterMap fun entry =>
      let df := (dfCounts.get? entry.2).getD 0
      if 2 ≤ df then some ⟨entry.1, entry.2, df⟩ else none
    let kept := (candidates.mergeSort VocabCandidate.before).take (min cap candidates.length)
    { keptTerms := kept.map (·.term)
      termToColumn := kept.zipIdx.foldl (fun map entry => map.insert entry.1.term entry.2) .empty
      fullIndexToColumn :=
        kept.zipIdx.foldl (fun map entry => map.insert entry.1.fullIndex entry.2) .empty }

end MootMemory
