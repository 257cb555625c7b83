import MootMemory.BasisLifecycle
import MootMemory.ReducedVocabulary

namespace MootMemory

/-- The factorizations keep to the rank they are asked for, as far as the matrix allows it. -/
structure BasisMath.RanksAsAsked (math : BasisMath) : Prop where
  decompose : ∀ m rank sweeps rows cols, Shaped m rows cols → 1 ≤ rank → rank ≤ cols →
    cols ≤ rows → (math.decompose m rank sweeps).rank = rank
  factorize : ∀ v rank maxIterations seed rows cols, Shaped v rows cols → 1 ≤ rank →
    rank ≤ min rows cols → (math.factorize v rank maxIterations seed).rank = rank

def LsaProvider.releaseBasis (p : LsaProvider) : LsaProvider :=
  { p with idfWeights := [], u := [], vt := [], sigma := [], docVecs := [] }

def NmfProvider.releaseBasis (p : NmfProvider) : NmfProvider :=
  { p with w := [], h := [], docEmbeddings := [] }

/-- The two providers that factor a matrix of terms and documents. -/
inductive LatentProvider where
  | lsa (p : LsaProvider)
  | nmf (p : NmfProvider)

/-- What is done with such a provider; counts are restored from what a provider writes. -/
inductive LatentCall where
  | train (document : String)
  | finalize
  | trainOnCorpus (texts : List String)
  | addToCounts (text : String)
  | restoreCounts (donor : LatentProvider)
  | releaseBasis

namespace LatentProvider

def basis : LatentProvider → BasisProvider
  | .lsa p => .lsa p
  | .nmf p => .nmf p

def counts : LatentProvider → TermDocumentCounts
  | .lsa p => p.counts
  | .nmf p => p.counts

def isFinalized : LatentProvider → Prop
  | .lsa p => p.isFinalized
  | .nmf p => p.isFinalized

def reducedVocabCap : LatentProvider → Nat
  | .lsa p => p.reducedVocabCap
  | .nmf p => p.reducedVocabCap

def anchor : LatentProvider → CountsAnchor
  | .lsa p => p.anchor
  | .nmf p => p.anchor

variable (math : BasisMath) (sub : CorpusSubstrate)

def train (document : String) : LatentProvider → LatentProvider
  | .lsa p => .lsa (p.train sub document)
  | .nmf p => .nmf (p.train sub document)

def finalize : LatentProvider → Option LatentProvider
  | .lsa p => (p.finalize math).map .lsa
  | .nmf p => (p.finalize math).map .nmf

def addToCounts (text : String) : LatentProvider → LatentProvider
  | .lsa p => .lsa (p.addToCounts sub text)
  | .nmf p => .nmf (p.addToCounts sub text)

/-- Bytes that are refused change nothing. -/
def restoreCounts (bytes : List UInt8) (p : LatentProvider) : Option LatentProvider :=
  let restored : Except (Stop BasisCodecError) LatentProvider := match p with
    | .lsa q => do .ok (.lsa (← q.restoreCounts bytes))
    | .nmf q => do .ok (.nmf (← q.restoreCounts bytes))
  match restored with
  | .ok q => some q
  | .error (.err _) => some p
  | .error .panic => none

def releaseBasis : LatentProvider → LatentProvider
  | .lsa p => .lsa p.releaseBasis
  | .nmf p => .nmf p.releaseBasis

/-- One call; `none` where it goes out of bounds. -/
def call (p : LatentProvider) : LatentCall → Option LatentProvider
  | .train document => some (p.train sub document)
  | .finalize => p.finalize math
  | .trainOnCorpus texts => (texts.foldl (fun p text => p.train sub text) p).finalize math
  | .addToCounts text => some (p.addToCounts sub text)
  | .restoreCounts donor => p.restoreCounts donor.basis.serializeCounts
  | .releaseBasis => some p.releaseBasis

/-- The documents that have embeddings behind a pass over the counts, where `docs` had them: a
pass over no documents or terms is none, and one that keeps no term leaves nothing. -/
def passDocuments (p : LatentProvider) (docs : Nat) : Nat :=
  if p.counts.documentCount = 0 ∨ p.counts.vocabularySize = 0 then docs
  else if (selectReducedVocabulary p.counts.vocab p.counts.dfCounts p.counts.documentCount
    p.reducedVocabCap).size = 0 then 0
  else p.counts.documentCount

/-- The documents of the last pass, behind one more call. -/
def documentsAfter (p : LatentProvider) (docs : Nat) : LatentCall → Nat
  | .finalize => p.passDocuments docs
  | .trainOnCorpus texts => (texts.foldl (fun p text => p.train sub text) p).passDocuments docs
  | .releaseBasis => 0
  | _ => docs

/-- What a provider becomes, with the number of documents that its last pass embedded. -/
inductive Lived : LatentProvider → Nat → Prop
  | fresh {p : LatentProvider} (h : p.basis.Fresh) : Lived p 0
  | call {p p' : LatentProvider} {docs donated : Nat} (h : Lived p docs) (c : LatentCall)
      (hdonor : ∀ donor, c = .restoreCounts donor → Lived donor donated)
      (hfit : ∀ donor, c = .restoreCounts donor → donor.anchor.Fits)
      (hcall : p.call math sub c = some p') : Lived p' (p.documentsAfter sub docs c)

/-- Every text and every document index is answered within bounds, and the documents that have
embeddings are the first `docs`. -/
def SelfConsistent (p : LatentProvider) (docs : Nat) : Prop :=
  p.basis.Serves math sub ∧
    ∀ docIdx, (∃ v, p.basis.documentEmbedding docIdx = .ok (some v)) ↔ docIdx < docs

/-- No document is added or dropped while there is a basis. -/
def KeepsDocuments (p : LatentProvider) (c : LatentCall) : Prop :=
  p.isFinalized → match c with
    | .train document => defaultKeywordTokens sub document = []
    | .addToCounts text => defaultKeywordTokens sub text = []
    | .restoreCounts donor => donor.basis.kind = p.basis.kind →
        donor.counts.documentCount = p.counts.documentCount
    | _ => True

/-- The lives in which all calls are such. -/
inductive Kept : LatentProvider → Nat → Prop
  | fresh {p : LatentProvider} (h : p.basis.Fresh) : Kept p 0
  | call {p p' : LatentProvider} {docs donated : Nat} (h : Kept p docs) (c : LatentCall)
      (hdonor : ∀ donor, c = .restoreCounts donor → Lived math sub donor donated)
      (hfit : ∀ donor, c = .restoreCounts donor → donor.anchor.Fits)
      (hkeeps : p.KeepsDocuments sub c) (hcall : p.call math sub c = some p') :
      Kept p' (p.documentsAfter sub docs c)

end LatentProvider

section Passes

variable {math : BasisMath}

theorem Shaped.isSome_cell {m : List (List F32)} {rows cols i j : Nat} (hm : Shaped m rows cols)
    (hi : i < rows) (hj : j < cols) : (cell m i j).isSome := by
  have hi : i < m.length := hm.1.symm ▸ hi
  refine MootMemory.isSome_cell.mpr ⟨m[i], List.getElem?_eq_getElem hi, ?_⟩
  rwa [hm.2 _ (List.getElem_mem hi)]

theorem Shaped.flipped_some {m : List (List F32)} {rows cols : Nat} (hm : Shaped m rows cols) :
    ∃ t, flipped m rows cols = some t ∧ Shaped t cols rows := by
  have hsome : (flipped m rows cols).isSome := by
    rw [flipped, isSome_mapM]
    intro j hj
    rw [isSome_mapM]
    intro i hi
    exact hm.isSome_cell (List.mem_range.mp hi) (List.mem_range.mp hj)
  obtain ⟨t, ht⟩ := Option.isSome_iff_exists.mp hsome
  exact ⟨t, ht, shaped_flipped ht⟩

/-- The reduced vocabulary of a provider's counts. -/
theorem inverse_reduced {counts : TermDocumentCounts} (h : Contiguous counts.vocab) (cap : Nat) :
    (selectReducedVocabulary counts.vocab counts.dfCounts counts.documentCount cap).Inverse
      counts.vocab :=
  @inverse_select counts.vocab counts.dfCounts counts.documentCount cap .stored h

namespace LsaProvider

theorem idfOf_some {counts : TermDocumentCounts} {reduced : ReducedVocabulary}
    (h : reduced.Inverse counts.vocab) :
    ∃ idf, idfOf math counts reduced = some idf ∧ idf.length = reduced.size := by
  refine foldlM_runs (P := fun idf : List F32 => idf.length = reduced.size)
    (fun entry hentry idf hidf => ?_) List.length_replicate
  have hcol : entry.2 < idf.length := by
    rw [hidf]
    exact h.index_lt ((OrderedMap.get?_eq_some_iff Function.injective_id).mpr hentry)
  dsimp only
  rw [setAt, if_pos hcol]
  exact ⟨_, rfl, by rw [List.length_set, hidf]⟩

theorem tfidf_some {counts : TermDocumentCounts} {reduced : ReducedVocabulary} {idf : List F32}
    (h : reduced.Inverse counts.vocab) (hidf : idf.length = reduced.size) :
    ∃ m, counts.tfCounts.zipIdx.foldlM (tfidfRow math reduced idf)
        (List.replicate counts.documentCount (List.replicate reduced.size 0)) = some m ∧
      Shaped m counts.documentCount reduced.size := by
  refine foldlM_runs (P := fun m => Shaped m counts.documentCount reduced.size)
    (fun doc hdoc m hm => ?_) (shaped_replicate _ _ _)
  have hrow : doc.2 < counts.documentCount := by
    obtain ⟨hlt, _⟩ := List.getElem?_eq_some_iff.mp (List.mem_zipIdx_iff_getElem?.mp hdoc)
    exact hlt
  refine foldlM_runs (P := fun m => Shaped m counts.documentCount reduced.size)
    (fun entry _ m hm => ?_) hm
  split
  next col hcol =>
    have hcol := h.index_lt hcol
    rw [List.getElem?_eq_getElem (hidf.symm ▸ hcol)]
    exact hm.setCell_some hrow hcol _
  next => exact ⟨m, rfl, hm⟩

theorem decomposed_some (hmath : math.RanksAsAsked) {m : List (List F32)}
    {n vocabSize rank sweeps : Nat} (hm : Shaped m n vocabSize) (hn : 0 < n)
    (hvocab : 0 < vocabSize) (hrank : 1 ≤ rank) (hle : rank ≤ min n vocabSize) :
    ∃ svd, decomposed math m n vocabSize rank sweeps = some svd ∧ svd.rank = rank ∧
      Shaped svd.u n rank ∧ svd.singularValues.length = rank ∧ svd.vt.length = rank := by
  unfold decomposed
  split
  next htall =>
    obtain ⟨hu, hsigma, hvt⟩ := math.decompose_shaped m rank sweeps n vocabSize hn hm
    have hask := hmath.decompose m rank sweeps n vocabSize hm hrank (by omega) htall
    rw [hask] at hu hsigma hvt
    exact ⟨_, rfl, hask, hu, hsigma, hvt.1⟩
  next hwide =>
    obtain ⟨mt, hmt, hshaped⟩ := hm.flipped_some
    obtain ⟨hu, hsigma, hvt⟩ := math.decompose_shaped mt rank sweeps vocabSize n hvocab hshaped
    have hask := hmath.decompose mt rank sweeps vocabSize n hshaped hrank (by omega) (by omega)
    obtain ⟨uNew, huNew, hleft⟩ := hvt.flipped_some
    obtain ⟨vtNew, hvtNew, hright⟩ := hu.flipped_some
    have hrun : (do
        let transposed := math.decompose (← flipped m n vocabSize) rank sweeps
        let k := transposed.rank
        let uNew ← flipped transposed.vt k n
        let vtNew ← flipped transposed.u vocabSize k
        some (SvdResult.mk uNew transposed.singularValues vtNew k)) =
          some ⟨uNew, (math.decompose mt rank sweeps).singularValues, vtNew,
            (math.decompose mt rank sweeps).rank⟩ :=
      Option.bind_eq_some_iff.mpr ⟨mt, hmt, Option.bind_eq_some_iff.mpr
        ⟨uNew, huNew, Option.bind_eq_some_iff.mpr ⟨vtNew, hvtNew, rfl⟩⟩⟩
    exact ⟨_, hrun, hask, hask ▸ hleft, hsigma.trans hask, hright.1.trans hask⟩

variable {p : LsaProvider}

theorem finalize_skipped (h : p.counts.documentCount = 0 ∨ p.counts.vocabularySize = 0) :
    p.finalize math = some p := by
  unfold finalize
  dsimp only
  rw [if_pos h]

theorem finalize_emptied (h : ¬(p.counts.documentCount = 0 ∨ p.counts.vocabularySize = 0))
    (hsize : (selectReducedVocabulary p.counts.vocab p.counts.dfCounts p.counts.documentCount
      p.reducedVocabCap).size = 0) :
    p.finalize math = some { p with vt := [], idfWeights := [] } := by
  unfold finalize
  dsimp only
  rw [if_neg h, if_pos hsize]

/-- A pass over something runs to its end, and its tables have the sizes of the matrix. -/
theorem finalize_factored (hmath : math.RanksAsAsked) (hvocab : Contiguous p.counts.vocab)
    (hrank : 1 ≤ p.rank) (h : ¬(p.counts.documentCount = 0 ∨ p.counts.vocabularySize = 0))
    (hsize : (selectReducedVocabulary p.counts.vocab p.counts.dfCounts p.counts.documentCount
      p.reducedVocabCap).size ≠ 0) :
    let reduced := selectReducedVocabulary p.counts.vocab p.counts.dfCounts
      p.counts.documentCount p.reducedVocabCap
    ∃ (idf : List F32) (svd : SvdResult) (docVecs : List (List F32)), p.finalize math = some { p with
        idfWeights := idf, basisVocab := reduced.termToColumn, sigma := svd.singularValues,
        vt := svd.vt, effectiveRank := svd.rank, u := svd.u, docVecs } ∧
      idf.length = reduced.size ∧ svd.singularValues.length = svd.rank ∧
      svd.vt.length = svd.rank ∧ 1 ≤ svd.rank ∧ docVecs.length = p.counts.documentCount := by
  intro reduced
  have hinverse : reduced.Inverse p.counts.vocab := inverse_reduced hvocab _
  have hpos : 0 < reduced.size := Nat.pos_of_ne_zero hsize
  obtain ⟨idf, hidf, hlen⟩ := @idfOf_some math _ _ hinverse
  obtain ⟨m, hm, hshaped⟩ := @tfidf_some math _ _ _ hinverse hlen
  obtain ⟨svd, hsvd, hask, hu, hsigma, hvt⟩ := @decomposed_some math hmath m _ _
    (min p.rank (min p.counts.documentCount reduced.size)) p.svdSweeps hshaped (by omega) hpos
    (by omega) (by omega)
  have hdocs :
      (docVecsOf math svd.u svd.singularValues svd.rank p.counts.documentCount).isSome := by
    rw [isSome_docVecsOf, hask]
    intro d hd r hr
    exact ⟨hu.isSome_cell hd hr, hsigma.symm ▸ hr⟩
  obtain ⟨docVecs, hdocs⟩ := Option.isSome_iff_exists.mp hdocs
  refine ⟨idf, svd, docVecs, ?_, hlen, hask.symm ▸ hsigma, hask.symm ▸ hvt, by omega, ?_⟩
  · unfold finalize
    dsimp only
    rw [if_neg h, if_neg hsize]
    exact Option.bind_eq_some_iff.mpr ⟨idf, hidf, Option.bind_eq_some_iff.mpr ⟨m, hm,
      Option.bind_eq_some_iff.mpr ⟨svd, hsvd, Option.bind_eq_some_iff.mpr ⟨docVecs, hdocs, rfl⟩⟩⟩⟩
  · rw [mapM_some_length hdocs, List.length_range]

end LsaProvider

namespace NmfProvider

theorem tf_some {counts : TermDocumentCounts} {reduced : ReducedVocabulary}
    (h : reduced.Inverse counts.vocab) :
    ∃ v, counts.tfCounts.zipIdx.foldlM (tfColumn math reduced)
        (List.replicate reduced.size (List.replicate counts.documentCount 0)) = some v ∧
      Shaped v reduced.size counts.documentCount := by
  refine foldlM_runs (P := fun v => Shaped v reduced.size counts.documentCount)
    (fun doc hdoc v hv => ?_) (shaped_replicate _ _ _)
  have hcol : doc.2 < counts.documentCount := by
    obtain ⟨hlt, _⟩ := List.getElem?_eq_some_iff.mp (List.mem_zipIdx_iff_getElem?.mp hdoc)
    exact hlt
  refine foldlM_runs (P := fun v => Shaped v reduced.size counts.documentCount)
    (fun entry _ v hv => ?_) hv
  split
  next row hrow => exact hv.setCell_some (h.index_lt hrow) hcol _
  next => exact ⟨v, rfl, hv⟩

variable {p : NmfProvider}

theorem finalize_skipped (h : p.counts.documentCount = 0 ∨ p.counts.vocabularySize = 0) :
    p.finalize math = some p := by
  unfold finalize
  dsimp only
  rw [if_pos h]

theorem finalize_emptied (h : ¬(p.counts.documentCount = 0 ∨ p.counts.vocabularySize = 0))
    (hsize : (selectReducedVocabulary p.counts.vocab p.counts.dfCounts p.counts.documentCount
      p.reducedVocabCap).size = 0) :
    p.finalize math = some { p with w := [], h := [], docEmbeddings := [], effectiveRank := 0,
                                    basisVocab := .empty } := by
  unfold finalize
  dsimp only
  rw [if_neg h, if_pos hsize]

/-- A pass over something runs to its end, and its tables have the sizes of the matrix. -/
theorem finalize_factored (hmath : math.RanksAsAsked) (hvocab : Contiguous p.counts.vocab)
    (hrank : 1 ≤ p.rank) (h : ¬(p.counts.documentCount = 0 ∨ p.counts.vocabularySize = 0))
    (hsize : (selectReducedVocabulary p.counts.vocab p.counts.dfCounts p.counts.documentCount
      p.reducedVocabCap).size ≠ 0) :
    let reduced := selectReducedVocabulary p.counts.vocab p.counts.dfCounts
      p.counts.documentCount p.reducedVocabCap
    ∃ (result : NmfFactorization) (docEmbeddings : List (List F32)), p.finalize math = some { p with
        basisVocab := reduced.termToColumn, effectiveRank := result.rank, w := result.w,
        h := result.h, docEmbeddings } ∧
      Shaped result.w reduced.size result.rank ∧
      docEmbeddings.length = p.counts.documentCount := by
  intro reduced
  have hinverse : reduced.Inverse p.counts.vocab := inverse_reduced hvocab _
  obtain ⟨v, hv, hshaped⟩ := @tf_some math _ _ hinverse
  have hpos : 0 < reduced.size := Nat.pos_of_ne_zero hsize
  obtain ⟨hw, hh⟩ := math.factorize_shaped v
    (min p.rank (min reduced.size p.counts.documentCount)) p.maxIterations p.seed _ _ hpos hshaped
  have hask := hmath.factorize v (min p.rank (min reduced.size p.counts.documentCount))
    p.maxIterations p.seed _ _ hshaped (by omega) (by omega)
  have hdocs : (docEmbeddingsOf math (math.factorize v
      (min p.rank (min reduced.size p.counts.documentCount)) p.maxIterations p.seed).h
      (min p.rank (min reduced.size p.counts.documentCount)) p.counts.documentCount).isSome := by
    rw [isSome_docEmbeddingsOf]
    intro d hd r hr
    exact hh.isSome_cell (hask.symm ▸ hr) hd
  obtain ⟨docEmbeddings, hdocs⟩ := Option.isSome_iff_exists.mp hdocs
  refine ⟨_, docEmbeddings, ?_, hw, ?_⟩
  · unfold finalize
    dsimp only
    rw [if_neg h, if_neg hsize]
    exact Option.bind_eq_some_iff.mpr ⟨v, hv,
      Option.bind_eq_some_iff.mpr ⟨docEmbeddings, hdocs, rfl⟩⟩
  · rw [mapM_some_length hdocs, List.length_range]

end NmfProvider

end Passes

namespace LatentProvider

variable {math : BasisMath} {sub : CorpusSubstrate} {p p' : LatentProvider} {docs : Nat}

def rank : LatentProvider → Nat
  | .lsa p => p.rank
  | .nmf p => p.rank

/-- The embeddings of the documents. -/
def documentVectors : LatentProvider → List (List F32)
  | .lsa p => p.docVecs
  | .nmf p => p.docEmbeddings

/-- The tables of the last pass fit its vocabulary and its rank. -/
def TablesFit : LatentProvider → Prop
  | .lsa p => (∀ t c, p.basisVocab.get? t = some c → c < p.basisVocab.size) ∧
      p.idfWeights.length = p.basisVocab.size ∧ p.sigma.length = p.effectiveRank ∧
        p.vt.length = p.effectiveRank
  | .nmf p => (∀ t c, p.basisVocab.get? t = some c → c < p.basisVocab.size) ∧
      Shaped p.w p.basisVocab.size p.effectiveRank

/-- What every call keeps. -/
structure Sound (p : LatentProvider) (docs : Nat) : Prop where
  vocab : Contiguous p.counts.vocab
  rank : 1 ≤ p.rank
  unfinished : ¬p.isFinalized → docs = 0
  documents : p.isFinalized → p.documentVectors.length = docs
  tables : p.isFinalized → p.TablesFit

theorem sound_fresh (h : p.basis.Fresh) : p.Sound 0 := by
  cases p with
  | lsa p =>
    obtain ⟨⟩ | ⟨⟩ | ⟨rank, sweeps, seed⟩ | ⟨⟩ := h
    exact ⟨contiguous_empty, Nat.le_max_right _ _, fun _ => rfl, fun h => absurd rfl h,
      fun h => absurd rfl h⟩
  | nmf p =>
    obtain ⟨⟩ | ⟨⟩ | ⟨⟩ | ⟨rank, iterations, seed, projectionSeed⟩ := h
    exact ⟨contiguous_empty, Nat.le_max_right _ _, fun _ => rfl, fun h => absurd rfl h,
      fun h => absurd rfl h⟩

/-- A provider with other counts. -/
def withCounts (counts : TermDocumentCounts) : LatentProvider → LatentProvider
  | .lsa p => .lsa { p with counts }
  | .nmf p => .nmf { p with counts }

theorem train_eq (document : String) :
    p.train sub document = p.withCounts (p.counts.addDocument sub document) := by
  cases p with
  | lsa p => rfl
  | nmf p => rfl

theorem addToCounts_eq (text : String) :
    p.addToCounts sub text = p.withCounts (p.counts.addDocumentForCountsAnchor sub text) := by
  cases p with
  | lsa p => rfl
  | nmf p => rfl

@[simp] theorem counts_withCounts (counts : TermDocumentCounts) :
    (p.withCounts counts).counts = counts := by
  cases p with
  | lsa p => rfl
  | nmf p => rfl

@[simp] theorem isFinalized_withCounts (counts : TermDocumentCounts) :
    (p.withCounts counts).isFinalized ↔ p.isFinalized := by
  cases p with
  | lsa p => exact Iff.rfl
  | nmf p => exact Iff.rfl

/-- Counts that are numbered alike leave a provider sound. -/
theorem Sound.withCounts (h : p.Sound docs) {counts : TermDocumentCounts}
    (hvocab : Contiguous counts.vocab) : (p.withCounts counts).Sound docs := by
  cases p with
  | lsa p => exact ⟨hvocab, h.rank, h.unfinished, h.documents, h.tables⟩
  | nmf p => exact ⟨hvocab, h.rank, h.unfinished, h.documents, h.tables⟩

theorem Sound.train (h : p.Sound docs) (document : String) : (p.train sub document).Sound docs :=
  train_eq document ▸ h.withCounts (TermDocumentCounts.contiguous_addDocument h.vocab)

theorem Sound.trained (h : p.Sound docs) (texts : List String) :
    (texts.foldl (fun p text => p.train sub text) p).Sound docs :=
  List.foldlRecOn (motive := fun q : LatentProvider => q.Sound docs) _ _ h
    fun _ hq text _ => hq.train text

theorem Sound.releaseBasis (h : p.Sound docs) : p.releaseBasis.Sound 0 := by
  cases p with
  | lsa p => exact ⟨h.vocab, h.rank, fun _ => rfl, fun hf => absurd rfl hf, fun hf => absurd rfl hf⟩
  | nmf p => exact ⟨h.vocab, h.rank, fun _ => rfl, fun hf => absurd rfl hf, fun hf => absurd rfl hf⟩

/-- Whether a pass has something to work on. -/
def HasCounts (p : LatentProvider) : Prop :=
  ¬(p.counts.documentCount = 0 ∨ p.counts.vocabularySize = 0)

theorem passDocuments_skipped (h : ¬p.HasCounts) : p.passDocuments docs = docs :=
  if_pos (not_not.mp h)

/-- A pass over nothing changes nothing. -/
theorem finalize_skipped (h : ¬p.HasCounts) : p.finalize math = some p := by
  cases p with
  | lsa p => exact congrArg (Option.map lsa) (LsaProvider.finalize_skipped (not_not.mp h))
  | nmf p => exact congrArg (Option.map nmf) (NmfProvider.finalize_skipped (not_not.mp h))

/-- A pass over something runs to its end, and what it leaves is of its documents. -/
theorem Sound.finalize_effective (hmath : math.RanksAsAsked) (h : p.Sound docs)
    (hcounts : p.HasCounts) : ∃ p', p.finalize math = some p' ∧ p'.Sound (p.passDocuments docs) ∧
      (p'.isFinalized → p'.counts.documentCount = p.passDocuments docs) := by
  by_cases hsize : (selectReducedVocabulary p.counts.vocab p.counts.dfCounts
      p.counts.documentCount p.reducedVocabCap).size = 0
  · have hdocs : p.passDocuments docs = 0 := by rw [passDocuments, if_neg hcounts, if_pos hsize]
    rw [hdocs]
    cases p with
    | lsa p =>
      exact ⟨_, congrArg (Option.map lsa) (LsaProvider.finalize_emptied hcounts hsize),
        ⟨h.vocab, h.rank, fun _ => rfl, fun hf => absurd rfl hf, fun hf => absurd rfl hf⟩,
        fun hf => absurd rfl hf⟩
    | nmf p =>
      exact ⟨_, congrArg (Option.map nmf) (NmfProvider.finalize_emptied hcounts hsize),
        ⟨h.vocab, h.rank, fun _ => rfl, fun hf => absurd rfl hf, fun hf => absurd rfl hf⟩,
        fun hf => absurd rfl hf⟩
  · have hdocs : p.passDocuments docs = p.counts.documentCount := by
      rw [passDocuments, if_neg hcounts, if_neg hsize]
    have hinverse := inverse_reduced h.vocab p.reducedVocabCap
    have hcolumns : ∀ t c, (selectReducedVocabulary p.counts.vocab p.counts.dfCounts
        p.counts.documentCount p.reducedVocabCap).termToColumn.get? t = some c →
        c < (selectReducedVocabulary p.counts.vocab p.counts.dfCounts p.counts.documentCount
          p.reducedVocabCap).termToColumn.size :=
      fun t c ht => hinverse.size_termToColumn.symm ▸ hinverse.column_lt ht
    rw [hdocs]
    cases p with
    | lsa p =>
      obtain ⟨idf, svd, docVecs, hrun, hidf, hsigma, hvt, hrank, hlen⟩ :=
        LsaProvider.finalize_factored hmath h.vocab h.rank hcounts hsize
      refine ⟨_, congrArg (Option.map lsa) hrun, ⟨h.vocab, h.rank, fun hf => ?_, fun _ => hlen,
        fun _ => ⟨hcolumns, hidf.trans hinverse.size_termToColumn.symm, hsigma, hvt⟩⟩,
        fun _ => rfl⟩
      have hnil : svd.vt = [] := not_not.mp hf
      rw [hnil, List.length_nil] at hvt
      omega
    | nmf p =>
      obtain ⟨result, docEmbeddings, hrun, hw, hlen⟩ :=
        NmfProvider.finalize_factored hmath h.vocab h.rank hcounts hsize
      refine ⟨_, congrArg (Option.map nmf) hrun, ⟨h.vocab, h.rank, fun hf => ?_, fun _ => hlen,
        fun _ => ⟨hcolumns, hinverse.size_termToColumn.symm ▸ hw⟩⟩, fun _ => rfl⟩
      have hnil : result.w = [] := not_not.mp hf
      have hrows := hw.1
      rw [hnil] at hrows
      exact absurd hrows.symm hsize

theorem Sound.finalize (hmath : math.RanksAsAsked) (h : p.Sound docs) :
    ∃ p', p.finalize math = some p' ∧ p'.Sound (p.passDocuments docs) := by
  by_cases hcounts : p.HasCounts
  · obtain ⟨p', hrun, hsound, _⟩ := h.finalize_effective hmath hcounts
    exact ⟨p', hrun, hsound⟩
  · rw [passDocuments_skipped hcounts]
    exact ⟨p, finalize_skipped hcounts, h⟩

/-- A donor's blob brings its documents and its vocabulary, or is refused by the other kind. -/
theorem restoreCounts_eq {donor : LatentProvider} (hfit : donor.anchor.Fits) :
    p.restoreCounts donor.basis.serializeCounts = some p ∧ donor.basis.kind ≠ p.basis.kind ∨
      p.restoreCounts donor.basis.serializeCounts = some (p.withCounts
        (.fromRestored donor.counts.vocab donor.counts.documentCount)) ∧
          donor.basis.kind = p.basis.kind := by
  cases p with
  | lsa p =>
    cases donor with
    | lsa q =>
      refine Or.inr ⟨?_, rfl⟩
      unfold restoreCounts
      dsimp only [basis, BasisProvider.serializeCounts]
      rw [LsaProvider.restoreCounts_serializeCounts hfit]
      rfl
    | nmf q =>
      refine Or.inl ⟨?_, by intro h; cases h⟩
      obtain ⟨e, he⟩ : ∃ e, (CountsAnchor.read lsaCountsMagic).over q.serializeCounts =
          .error (.err e) := refused_magic rfl (by decide) _
      unfold restoreCounts
      dsimp only [basis, BasisProvider.serializeCounts]
      rw [LsaProvider.restoreCounts, he]
      rfl
  | nmf p =>
    cases donor with
    | lsa q =>
      refine Or.inl ⟨?_, by intro h; cases h⟩
      obtain ⟨e, he⟩ : ∃ e, (CountsAnchor.read nmfCountsMagic).over q.serializeCounts =
          .error (.err e) := refused_magic rfl (by decide) _
      unfold restoreCounts
      dsimp only [basis, BasisProvider.serializeCounts]
      rw [NmfProvider.restoreCounts, he]
      rfl
    | nmf q =>
      refine Or.inr ⟨?_, rfl⟩
      unfold restoreCounts
      dsimp only [basis, BasisProvider.serializeCounts]
      rw [NmfProvider.restoreCounts_serializeCounts hfit]
      rfl

/-- Every call returns, and leaves a sound provider. -/
theorem Sound.call (hmath : math.RanksAsAsked) (h : p.Sound docs) (c : LatentCall)
    (hdonor : ∀ donor, c = .restoreCounts donor →
      Contiguous donor.counts.vocab ∧ donor.anchor.Fits) :
    ∃ p', p.call math sub c = some p' ∧ p'.Sound (p.documentsAfter sub docs c) := by
  cases c with
  | train document => exact ⟨_, rfl, h.train document⟩
  | finalize => exact h.finalize hmath
  | trainOnCorpus texts => exact (h.trained texts).finalize hmath
  | addToCounts text =>
    exact ⟨_, rfl, addToCounts_eq text ▸
      h.withCounts (TermDocumentCounts.contiguous_addDocumentForCountsAnchor h.vocab)⟩
  | restoreCounts donor =>
    obtain ⟨hvocab, hfit⟩ := hdonor donor rfl
    rcases restoreCounts_eq (p := p) hfit with ⟨hrun, _⟩ | ⟨hrun, _⟩
    · exact ⟨p, hrun, h⟩
    · exact ⟨_, hrun, h.withCounts hvocab⟩
  | releaseBasis => exact ⟨_, rfl, h.releaseBasis⟩

theorem Lived.sound (hmath : math.RanksAsAsked) (h : Lived math sub p docs) : p.Sound docs := by
  induction h with
  | fresh h => exact sound_fresh h
  | call h c hdonor hfit hcall ih ihdonor =>
    obtain ⟨p', hrun, hsound⟩ := ih.call hmath c fun donor hc =>
      ⟨(ihdonor donor hc).vocab, hfit donor hc⟩
    rw [hcall, Option.some.injEq] at hrun
    exact hrun ▸ hsound

theorem Sound.serves (h : p.Sound docs) : (∀ text, Safe (p.basis.laneVector math sub text)) := by
  intro text
  cases p with
  | lsa p =>
    refine LsaProvider.safe_embedFloatInherent.mpr fun hf _ term _ idx hidx => ?_
    obtain ⟨hcolumns, hidf, hsigma, hvt⟩ := h.tables hf
    have hlt := hcolumns term idx hidx
    refine ⟨⟨hidf.symm ▸ hlt, hlt⟩, fun r hr => ?_⟩
    exact ⟨_, List.getElem?_eq_getElem (hsigma.symm ▸ hr), Or.inr (hvt.symm ▸ hr)⟩
  | nmf p =>
    refine NmfProvider.safe_embedFloatNmf.mpr fun hf _ term _ idx hidx => ?_
    obtain ⟨hcolumns, hw⟩ := h.tables hf
    exact ⟨hcolumns term idx hidx, fun r hr i hi => hw.isSome_cell hi hr⟩

/-- A lookup below the number of documents. -/
theorem documentEmbedding_iff {docIdx : Nat} :
    (∃ v, p.basis.documentEmbedding docIdx = .ok (some v)) ↔
      p.isFinalized ∧ docIdx < p.counts.documentCount ∧ docIdx < p.documentVectors.length := by
  have hlookup : ∀ {finalized : Prop} [Decidable finalized] {n : Nat} {vectors : List (List F32)},
      (∃ v, (if ¬finalized ∨ n ≤ docIdx then .ok none
        else do .ok (some (← orPanic vectors[docIdx]?)) : Lane (Option (List F32))) =
          .ok (some v)) ↔ finalized ∧ docIdx < n ∧ docIdx < vectors.length := by
    intro finalized _ n vectors
    split
    next hguard =>
      refine iff_of_false (by rintro ⟨v, hv⟩; cases hv) ?_
      rintro ⟨hf, hn, _⟩
      exact hguard.elim (fun h => h hf) (by omega)
    next hguard =>
      push Not at hguard
      cases hget : vectors[docIdx]? with
      | none =>
        have hlen := List.getElem?_eq_none_iff.mp hget
        exact iff_of_false (by rintro ⟨v, hv⟩; cases hv) (by omega)
      | some v =>
        obtain ⟨hlen, _⟩ := List.getElem?_eq_some_iff.mp hget
        exact iff_of_true ⟨v, rfl⟩ ⟨hguard.1, hguard.2, hlen⟩
  cases p with
  | lsa p => exact hlookup
  | nmf p => exact hlookup

theorem safe_documentEmbedding : (∀ docIdx, Safe (p.basis.documentEmbedding docIdx)) ↔
    (p.isFinalized → p.counts.documentCount ≤ p.documentVectors.length) := by
  cases p with
  | lsa p => exact safe_documentVectors
  | nmf p => exact safe_documentVectors

/-- A sound provider is self-consistent exactly while it counts the documents of its basis. -/
theorem Sound.consistent_iff (h : p.Sound docs) : p.SelfConsistent math sub docs ↔
    (p.isFinalized → p.counts.documentCount = docs) := by
  rw [SelfConsistent, BasisProvider.serves_iff, and_iff_right h.serves, safe_documentEmbedding]
  simp only [documentEmbedding_iff]
  constructor
  · rintro ⟨hsafe, hdocs⟩ hf
    have hle := hsafe hf
    rw [h.documents hf] at hle
    refine Nat.le_antisymm hle (Nat.le_of_not_lt fun hlt => ?_)
    have hlast := ((hdocs p.counts.documentCount).mpr hlt).2.1
    omega
  · intro hcurrent
    by_cases hf : p.isFinalized
    · rw [h.documents hf, hcurrent hf]
      exact ⟨fun _ => le_refl _, fun docIdx => ⟨fun hi => hi.2.1, fun hi => ⟨hf, hi, hi⟩⟩⟩
    · refine ⟨fun hf' => absurd hf' hf, fun docIdx => iff_of_false (fun hi => hf hi.1) ?_⟩
      rw [h.unfinished hf]
      exact Nat.not_lt_zero _

theorem Kept.lived (h : Kept math sub p docs) : Lived math sub p docs := by
  induction h with
  | fresh h => exact .fresh h
  | call _ c hdonor hfit _ hcall ih => exact .call ih c hdonor hfit hcall

section Currency

theorem isFinalized_trained (texts : List String) :
    (texts.foldl (fun p text => p.train sub text) p).isFinalized ↔ p.isFinalized := by
  refine List.foldlRecOn (motive := fun q : LatentProvider => q.isFinalized ↔ p.isFinalized)
    _ _ Iff.rfl fun q hq text _ => ?_
  rw [train_eq, isFinalized_withCounts, hq]

/-- Training adds no document, or gives a pass something to work on. -/
theorem trained_cases (texts : List String) :
    (texts.foldl (fun p text => p.train sub text) p).counts.documentCount =
      p.counts.documentCount ∨ (texts.foldl (fun p text => p.train sub text) p).HasCounts := by
  refine List.foldlRecOn (motive := fun q : LatentProvider =>
    q.counts.documentCount = p.counts.documentCount ∨ q.HasCounts) _ _ (Or.inl rfl)
    fun q hq text _ => ?_
  rw [HasCounts, train_eq, counts_withCounts]
  rcases TermDocumentCounts.addDocument_cases q.counts text with heq | hpos
  · rw [heq]
    exact hq
  · exact Or.inr (not_or.mpr hpos)

/-- In a life that keeps the documents, a basis is of all documents that are counted. -/
theorem Kept.current (hmath : math.RanksAsAsked) (h : Kept math sub p docs) :
    p.isFinalized → p.counts.documentCount = docs := by
  induction h with
  | @fresh p h =>
    intro hf
    cases p with
    | lsa p =>
      obtain ⟨⟩ | ⟨⟩ | ⟨rank, sweeps, seed⟩ | ⟨⟩ := h
      exact absurd rfl hf
    | nmf p =>
      obtain ⟨⟩ | ⟨⟩ | ⟨⟩ | ⟨rank, iterations, seed, projectionSeed⟩ := h
      exact absurd rfl hf
  | @call p p' docs donated h c hdonor hfit hkeeps hcall ih =>
    have hsound := h.lived.sound hmath
    cases c with
    | train document =>
      cases hcall
      rw [train_eq, isFinalized_withCounts, counts_withCounts]
      intro hf
      have hterms : defaultKeywordTokens sub document = [] := hkeeps hf
      rw [TermDocumentCounts.addDocument]
      dsimp only
      rw [if_pos hterms]
      exact ih hf
    | finalize =>
      by_cases hcounts : p.HasCounts
      · obtain ⟨q, hrun, _, hdocs⟩ := hsound.finalize_effective hmath hcounts
        rw [show p.finalize math = some p' from hcall, Option.some.injEq] at hrun
        exact hrun ▸ hdocs
      · rw [show p.call math sub .finalize = some p from finalize_skipped hcounts] at hcall
        cases hcall
        rw [documentsAfter, passDocuments_skipped hcounts]
        exact ih
    | trainOnCorpus texts =>
      by_cases hcounts : (texts.foldl (fun p text => p.train sub text) p).HasCounts
      · obtain ⟨q, hrun, _, hdocs⟩ := (hsound.trained texts).finalize_effective hmath hcounts
        rw [show LatentProvider.finalize math _ = some p' from hcall, Option.some.injEq] at hrun
        exact hrun ▸ hdocs
      · rw [show p.call math sub (.trainOnCorpus texts) = some _ from
          finalize_skipped hcounts] at hcall
        cases hcall
        rw [documentsAfter, passDocuments_skipped hcounts, isFinalized_trained,
          (trained_cases texts).resolve_right hcounts]
        exact ih
    | addToCounts text =>
      cases hcall
      rw [addToCounts_eq, isFinalized_withCounts, counts_withCounts]
      intro hf
      have hterms : defaultKeywordTokens sub text = [] := hkeeps hf
      rw [TermDocumentCounts.addDocumentForCountsAnchor, if_pos hterms]
      exact ih hf
    | restoreCounts donor =>
      rcases restoreCounts_eq (p := p) (hfit donor rfl) with ⟨hrun, _⟩ | ⟨hrun, hkind⟩
      · rw [show p.call math sub (.restoreCounts donor) = some p from hrun] at hcall
        cases hcall
        exact ih
      · rw [show p.call math sub (.restoreCounts donor) = some _ from hrun] at hcall
        cases hcall
        rw [isFinalized_withCounts, counts_withCounts,
          TermDocumentCounts.documentCount_fromRestored]
        intro hf
        have hsame : donor.counts.documentCount = p.counts.documentCount := hkeeps hf hkind
        exact hsame.trans (ih hf)
    | releaseBasis =>
      cases hcall
      intro hf
      cases p with
      | lsa p => exact absurd rfl hf
      | nmf p => exact absurd rfl hf

end Currency

/-- In every life, a provider is self-consistent exactly while the documents it counts are those
of its basis; no call ends the life; and where no call adds or drops documents of a basis, it
always is. -/
theorem selfConsistent_iff (hmath : math.RanksAsAsked) :
    (∀ p docs, Lived math sub p docs →
      (p.SelfConsistent math sub docs ↔ (p.isFinalized → p.counts.documentCount = docs))) ∧
    ∀ p docs, Kept math sub p docs → p.SelfConsistent math sub docs := by
  refine ⟨fun p docs h => (h.sound hmath).consistent_iff, fun p docs h => ?_⟩
  exact (h.lived.sound hmath).consistent_iff.mpr (h.current hmath)

theorem ranksAsAsked_reference : referenceMath.RanksAsAsked where
  decompose _ _ _ _ _ _ _ _ _ := rfl
  factorize _ _ _ _ _ _ _ _ _ := rfl

/-- One document, the pass over it, and one more document. -/
def trained : LatentProvider := (lsa (.new 2 30 5)).train referenceCorpus "ab c"

def finalized : LatentProvider := (trained.finalize referenceMath).get (by decide +kernel)

def trainedOn : LatentProvider := finalized.train referenceCorpus "d"

theorem kept_finalized : Kept referenceMath referenceCorpus finalized 1 := by
  have hfresh : Kept referenceMath referenceCorpus (lsa (.new 2 30 5)) 0 :=
    @Kept.fresh _ _ (lsa (.new 2 30 5)) (.lsa 2 30 5)
  have htrained : Kept referenceMath referenceCorpus trained 0 :=
    @Kept.call _ _ _ _ _ 0 hfresh (.train "ab c") (fun _ h => by cases h) (fun _ h => by cases h)
      (fun h => absurd rfl h) rfl
  have hdocs : trained.documentsAfter referenceCorpus 0 .finalize = 1 := by decide +kernel
  rw [← hdocs]
  exact @Kept.call _ _ _ _ _ 0 htrained .finalize (fun _ h => by cases h) (fun _ h => by cases h)
    (fun _ => trivial) (Option.some_get _).symm

theorem lived_trainedOn : Lived referenceMath referenceCorpus trainedOn 1 :=
  @Lived.call _ _ _ _ _ 0 kept_finalized.lived (.train "d") (fun _ h => by cases h)
    (fun _ h => by cases h) rfl

theorem selfConsistent_iff_life :
    (trainedOn.SelfConsistent referenceMath referenceCorpus 1 ↔
      (trainedOn.isFinalized → trainedOn.counts.documentCount = 1)) ∧
    finalized.SelfConsistent referenceMath referenceCorpus 1 :=
  ⟨(selfConsistent_iff ranksAsAsked_reference).1 trainedOn 1 lived_trainedOn,
    (selfConsistent_iff ranksAsAsked_reference).2 finalized 1 kept_finalized⟩

/-- A document that was trained behind the pass is looked up among the embeddings. -/
theorem not_selfConsistent :
    ¬∀ (math : BasisMath) (sub : CorpusSubstrate), math.RanksAsAsked →
      ∀ (p : LatentProvider) (docs : Nat), Lived math sub p docs →
        p.SelfConsistent math sub docs := by
  intro h
  have hconsistent := h _ _ ranksAsAsked_reference trainedOn 1 lived_trainedOn
  refine hconsistent.1.2 1 ?_
  decide +kernel

end LatentProvider

end MootMemory
