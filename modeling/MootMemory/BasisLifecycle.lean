import MootMemory.BasisSafety

namespace MootMemory

variable {math : BasisMath} {sub : CorpusSubstrate}

namespace LsaProvider

/-- The left vectors are as wide as the rank, and there are as many singular values. -/
def Factored (p : LsaProvider) : Prop :=
  Shaped p.u p.u.length p.effectiveRank ∧ p.sigma.length = p.effectiveRank

theorem shaped_tfidf {counts : TermDocumentCounts} {reduced : ReducedVocabulary}
    {idfWeights : List F32} {m m' : List (List F32)} {rows cols : Nat} (hm : Shaped m rows cols)
    (h : counts.tfCounts.zipIdx.foldlM (tfidfRow math reduced idfWeights) m = some m') :
    Shaped m' rows cols := by
  refine foldlM_keeps (P := fun m => Shaped m rows cols) (fun m doc m' hm hrow => ?_) hm h
  refine foldlM_keeps (P := fun m => Shaped m rows cols) (fun m entry m' hm hentry => ?_) hm hrow
  split at hentry
  next col _ =>
    obtain ⟨idf, _, hentry⟩ := Option.bind_eq_some_iff.mp hentry
    exact shaped_setCell hm hentry
  next =>
    cases hentry
    exact hm

/-- Whichever way round the matrix goes in, there is one row of left vectors per document. -/
theorem decomposed_shaped {m : List (List F32)} {n vocabSize rank sweeps : Nat} {svd : SvdResult}
    (hn : 0 < n) (hm : Shaped m n vocabSize)
    (h : decomposed math m n vocabSize rank sweeps = some svd) :
    Shaped svd.u n svd.rank ∧ svd.singularValues.length = svd.rank := by
  unfold decomposed at h
  split at h
  next =>
    cases h
    obtain ⟨hu, hsigma, _⟩ := math.decompose_shaped m rank sweeps n vocabSize hn hm
    exact ⟨hu, hsigma⟩
  next hwide =>
    obtain ⟨mt, hmt, h⟩ := Option.bind_eq_some_iff.mp h
    obtain ⟨u, hu, h⟩ := Option.bind_eq_some_iff.mp h
    obtain ⟨vt, _, h⟩ := Option.bind_eq_some_iff.mp h
    cases h
    obtain ⟨_, hsigma, _⟩ := math.decompose_shaped mt rank sweeps vocabSize n (by omega)
      (shaped_flipped hmt)
    exact ⟨shaped_flipped hu, hsigma⟩

theorem factored_finalize {p p' : LsaProvider} (hp : p.Factored)
    (h : p.finalize math = some p') : p'.Factored := by
  unfold finalize at h
  dsimp only at h
  split at h
  next =>
    cases h
    exact hp
  next hsome =>
    split at h
    next =>
      cases h
      exact hp
    next =>
      obtain ⟨idf, _, h⟩ := Option.bind_eq_some_iff.mp h
      obtain ⟨m, hm, h⟩ := Option.bind_eq_some_iff.mp h
      obtain ⟨svd, hsvd, h⟩ := Option.bind_eq_some_iff.mp h
      obtain ⟨docVecs, _, h⟩ := Option.bind_eq_some_iff.mp h
      cases h
      obtain ⟨hu, hsigma⟩ := decomposed_shaped (by omega)
        (shaped_tfidf (shaped_replicate _ _ _) hm) hsvd
      exact ⟨⟨rfl, hu.2⟩, hsigma⟩

theorem factored_trainOnCorpus {p p' : LsaProvider} {texts : List String} (hp : p.Factored)
    (h : p.trainOnCorpus math sub texts = some p') : p'.Factored := by
  refine factored_finalize ?_ h
  clear h
  induction texts generalizing p with
  | nil => exact hp
  | cons text texts ih => exact ih (p := p.train sub text) hp

end LsaProvider

namespace NmfProvider

/-- There is one row of `H` for each factor. -/
def Factored (p : NmfProvider) : Prop := p.h.length = p.effectiveRank

theorem shaped_tf {counts : TermDocumentCounts} {reduced : ReducedVocabulary}
    {v v' : List (List F32)} {rows cols : Nat} (hv : Shaped v rows cols)
    (h : counts.tfCounts.zipIdx.foldlM (tfColumn math reduced) v = some v') :
    Shaped v' rows cols := by
  refine foldlM_keeps (P := fun v => Shaped v rows cols) (fun v doc v' hv hcol => ?_) hv h
  refine foldlM_keeps (P := fun v => Shaped v rows cols) (fun v entry v' hv hentry => ?_) hv hcol
  split at hentry
  next => exact shaped_setCell hv hentry
  next =>
    cases hentry
    exact hv

theorem factored_finalize {p p' : NmfProvider} (hp : p.Factored)
    (h : p.finalize math = some p') : p'.Factored := by
  unfold finalize at h
  dsimp only at h
  split at h
  next =>
    cases h
    exact hp
  next =>
    split at h
    next =>
      cases h
      rfl
    next hsize =>
      obtain ⟨v, hv, h⟩ := Option.bind_eq_some_iff.mp h
      obtain ⟨docEmbeddings, _, h⟩ := Option.bind_eq_some_iff.mp h
      cases h
      exact (math.factorize_shaped v _ _ _ _ _ (by omega)
        (shaped_tf (shaped_replicate _ _ _) hv)).2.1

theorem factored_trainOnCorpus {p p' : NmfProvider} {texts : List String} (hp : p.Factored)
    (h : p.trainOnCorpus math sub texts = some p') : p'.Factored := by
  refine factored_finalize ?_ h
  clear h
  induction texts generalizing p with
  | nil => exact hp
  | cons text texts ih => exact ih (p := p.train sub text) hp

end NmfProvider

namespace BasisProvider

variable (math sub) in
/-- What a provider can become over its life. -/
inductive Reached : BasisProvider → Prop
  | fresh {p : BasisProvider} (h : p.Fresh) : Reached p
  | trainRandomIndexing {p p' : RandomIndexingProvider} (h : Reached (.randomIndexing p))
      (terms : List String) (window : Nat) (htrain : p.train math sub terms window = some p') :
      Reached (.randomIndexing p')
  | trainPpmi {p : PpmiProvider} (h : Reached (.ppmi p)) (terms : List String) (window : Nat) :
      Reached (.ppmi (p.train sub terms window))
  | trainLsa {p : LsaProvider} (h : Reached (.lsa p)) (document : String) :
      Reached (.lsa (p.train sub document))
  | trainNmf {p : NmfProvider} (h : Reached (.nmf p)) (document : String) :
      Reached (.nmf (p.train sub document))
  | finalize {p p' : BasisProvider} (h : Reached p)
      (order : String → List (String × Nat) → List (String × Nat))
      (horder : ∀ term entries, (order term entries).Perm entries)
      (hfinalize : p.finalize math sub order = some p') : Reached p'
  | trainOnCorpus {p p' : BasisProvider} (h : Reached p)
      (order : String → List (String × Nat) → List (String × Nat))
      (horder : ∀ term entries, (order term entries).Perm entries) (texts : List String)
      (htrain : p.trainOnCorpus math sub order texts = some p') : Reached p'
  | addToCounts {p p' : BasisProvider} (h : Reached p) (text : String)
      (hadd : p.addToCounts math sub text = some p') : Reached p'
  | restoreCounts {p q p' : BasisProvider} (h : Reached p) (hq : Reached q)
      (hrestore : p.restoreCounts q.serializeCounts = .ok p') : Reached p'

def Factored : BasisProvider → Prop
  | .randomIndexing _ => True
  | .ppmi _ => True
  | .lsa p => p.Factored
  | .nmf p => p.Factored

theorem Factored.finalize {p p' : BasisProvider} (hp : p.Factored)
    {order : String → List (String × Nat) → List (String × Nat)}
    (h : p.finalize math sub order = some p') : p'.Factored := by
  cases p with
  | randomIndexing p =>
    cases h
    trivial
  | ppmi p =>
    cases h
    trivial
  | lsa p =>
    obtain ⟨q, hq, rfl⟩ := Option.map_eq_some_iff.mp h
    exact LsaProvider.factored_finalize hp hq
  | nmf p =>
    obtain ⟨q, hq, rfl⟩ := Option.map_eq_some_iff.mp h
    exact NmfProvider.factored_finalize hp hq

theorem Factored.trainOnCorpus {p p' : BasisProvider} (hp : p.Factored) {texts : List String}
    {order : String → List (String × Nat) → List (String × Nat)}
    (h : p.trainOnCorpus math sub order texts = some p') : p'.Factored := by
  cases p with
  | randomIndexing p =>
    obtain ⟨q, _, rfl⟩ := Option.map_eq_some_iff.mp h
    trivial
  | ppmi p =>
    cases h
    trivial
  | lsa p =>
    obtain ⟨q, hq, rfl⟩ := Option.map_eq_some_iff.mp h
    exact LsaProvider.factored_trainOnCorpus hp hq
  | nmf p =>
    obtain ⟨q, hq, rfl⟩ := Option.map_eq_some_iff.mp h
    exact NmfProvider.factored_trainOnCorpus hp hq

theorem Factored.addToCounts {p p' : BasisProvider} (hp : p.Factored) {text : String}
    (h : p.addToCounts math sub text = some p') : p'.Factored := by
  cases p with
  | randomIndexing p =>
    obtain ⟨q, _, rfl⟩ := Option.map_eq_some_iff.mp h
    trivial
  | ppmi p =>
    cases h
    trivial
  | lsa p =>
    cases h
    exact hp
  | nmf p =>
    cases h
    exact hp

theorem Factored.restoreCounts {p p' : BasisProvider} (hp : p.Factored) {bytes : List UInt8}
    (h : p.restoreCounts bytes = .ok p') : p'.Factored := by
  cases p with
  | randomIndexing p =>
    obtain ⟨q, _, h⟩ := except_bind_ok.mp h
    cases h
    trivial
  | ppmi p =>
    obtain ⟨q, _, h⟩ := except_bind_ok.mp h
    cases h
    trivial
  | lsa p =>
    obtain ⟨q, hq, h⟩ := except_bind_ok.mp h
    obtain ⟨anchor, _, hq⟩ := except_bind_ok.mp hq
    cases hq
    cases h
    exact hp
  | nmf p =>
    obtain ⟨q, hq, h⟩ := except_bind_ok.mp h
    obtain ⟨anchor, _, hq⟩ := except_bind_ok.mp hq
    cases hq
    cases h
    exact hp

theorem Reached.factored {p : BasisProvider} (h : Reached math sub p) : p.Factored := by
  induction h with
  | fresh h =>
    cases h with
    | randomIndexing => trivial
    | ppmi => trivial
    | lsa => exact ⟨⟨rfl, fun row hrow => by cases hrow⟩, rfl⟩
    | nmf => exact rfl
  | trainRandomIndexing => trivial
  | trainPpmi => trivial
  | trainLsa _ _ ih => exact ih
  | trainNmf _ _ ih => exact ih
  | finalize _ _ _ hfinalize ih => exact ih.finalize hfinalize
  | trainOnCorpus _ _ _ _ htrain ih => exact ih.trainOnCorpus htrain
  | addToCounts _ _ hadd ih => exact ih.addToCounts hadd
  | restoreCounts _ _ hrestore ih _ => exact ih.restoreCounts hrestore

variable (math sub) in
/-- The blob of the provider brings it back: it answers alike, and writes the same blob again. -/
def RoundTrips (p : BasisProvider) : Prop :=
  ∃ q, fromSerializedBasis math p.serializeBasis p.kind = .ok q ∧
    (∀ text, q.embed math sub text = p.embed math sub text ∧
      q.embedFloat math sub text = p.embedFloat math sub text ∧
      q.embedPair math sub text = p.embedPair math sub text) ∧
    q.serializeBasis = p.serializeBasis

/-- No document was added behind the factors of the last pass, and no parameter is written as
zero. -/
def Current : BasisProvider → Prop
  | .randomIndexing _ => True
  | .ppmi _ => True
  | .lsa p => p.rank % 2 ^ 32 ≠ 0
  | .nmf p => (p.rank % 2 ^ 32 ≠ 0 ∧ p.maxIterations % 2 ^ 32 ≠ 0) ∧
      ∀ row ∈ p.h, p.counts.documentCount ≤ row.length

/-- What a parameter that must not be zero is written as, behind a decoding. -/
theorem writeU32_max (n : Nat) :
    writeU32 (max (n % 2 ^ 32) 1) = writeU32 n ↔ n % 2 ^ 32 ≠ 0 := by
  constructor
  · intro h hzero
    rw [hzero] at h
    have hnat := congrArg leNat h
    rw [writeU32, writeU32, leNat_leBytes, leNat_leBytes] at hnat
    omega
  · intro h
    rw [Nat.max_eq_left (by omega)]
    exact leBytes_mod 4 n

end BasisProvider

theorem isSome_cell {m : List (List F32)} {i j : Nat} :
    (cell m i j).isSome ↔ ∃ row, m[i]? = some row ∧ j < row.length := by
  unfold cell
  cases m[i]? with
  | none => simp
  | some row => simp

namespace LsaProvider

theorem fromSerializedBasis_serializeBasis {p : LsaProvider} (hp : p.Factored)
    (hfit : p.basis.Fits) : ∃ docVecs, fromSerializedBasis math p.serializeBasis = .ok
      (LsaBasis.provider { p.basis with
        rank := p.rank % 2 ^ 32, svdSweeps := p.svdSweeps % 2 ^ 32 } docVecs) := by
  have hread := (LsaBasis.decodes_read hfit).over
  have hsome : (docVecsOf math p.u p.sigma p.effectiveRank p.u.length).isSome := by
    rw [isSome_docVecsOf]
    intro d hd r hr
    refine ⟨isSome_cell.mpr ⟨p.u[d], List.getElem?_eq_getElem hd, ?_⟩, hp.2 ▸ hr⟩
    rwa [hp.1.2 _ (List.getElem_mem hd)]
  obtain ⟨docVecs, hvecs⟩ := Option.isSome_iff_exists.mp hsome
  refine ⟨docVecs, ?_⟩
  rw [fromSerializedBasis, serializeBasis, hread]
  show (orPanic (docVecsOf math p.u p.sigma p.effectiveRank p.u.length) >>= _) = _
  rw [hvecs]
  rfl

/-- The bytes tell a rank that came back as another one. -/
theorem serialize_restored {p : LsaProvider} {docVecs : List (List F32)} :
    serializeBasis (LsaBasis.provider { p.basis with
        rank := p.rank % 2 ^ 32, svdSweeps := p.svdSweeps % 2 ^ 32 } docVecs) =
      p.serializeBasis ↔ p.rank % 2 ^ 32 ≠ 0 := by
  rw [← BasisProvider.writeU32_max]
  simp only [serializeBasis, LsaBasis.serialize, basis, LsaBasis.provider,
    TermDocumentCounts.documentCount_fromRestored, List.append_cancel_left_eq]
  have hsweeps : writeU32 (p.svdSweeps % 2 ^ 32) = writeU32 p.svdSweeps := leBytes_mod 4 _
  rw [hsweeps]
  exact List.append_left_inj _

end LsaProvider

namespace NmfProvider

/-- The embeddings of the documents can be derived again if every row reaches all of them. -/
theorem isSome_docEmbeddings {p : NmfProvider} (hp : p.Factored) :
    (docEmbeddingsOf math p.h p.effectiveRank p.counts.documentCount).isSome ↔
      ∀ row ∈ p.h, p.counts.documentCount ≤ row.length := by
  rw [isSome_docEmbeddingsOf]
  constructor
  · intro h row hrow
    by_contra hlt
    obtain ⟨r, hr, rfl⟩ := List.getElem_of_mem hrow
    obtain ⟨row, hget, hlast⟩ := isSome_cell.mp
      (h p.h[r].length (by omega) r (hp ▸ hr))
    rw [List.getElem?_eq_getElem hr, Option.some.injEq] at hget
    rw [hget] at hlast
    omega
  · intro h d hd r hr
    have hr : r < p.h.length := hp.symm ▸ hr
    have hlen := h _ (List.getElem_mem hr)
    exact isSome_cell.mpr ⟨p.h[r], List.getElem?_eq_getElem hr, by omega⟩

/-- The blob is read, and what is derived from it decides. -/
theorem fromSerializedBasis_serializeBasis {p : NmfProvider} (hfit : p.basis.Fits) :
    fromSerializedBasis math p.serializeBasis = (do
      .ok (NmfBasis.provider { p.basis with
          rank := p.rank % 2 ^ 32, maxIterations := p.maxIterations % 2 ^ 32 }
        (← orPanic (docEmbeddingsOf math p.h p.effectiveRank p.counts.documentCount)))) := by
  rw [fromSerializedBasis, serializeBasis, (NmfBasis.decodes_read hfit).over]
  rfl

/-- The bytes tell parameters that came back as others. -/
theorem serialize_restored {p : NmfProvider} {docEmbeddings : List (List F32)} :
    serializeBasis (NmfBasis.provider { p.basis with
        rank := p.rank % 2 ^ 32, maxIterations := p.maxIterations % 2 ^ 32 } docEmbeddings) =
      p.serializeBasis ↔ p.rank % 2 ^ 32 ≠ 0 ∧ p.maxIterations % 2 ^ 32 ≠ 0 := by
  rw [← BasisProvider.writeU32_max, ← BasisProvider.writeU32_max]
  simp only [serializeBasis, NmfBasis.serialize, basis, NmfBasis.provider,
    TermDocumentCounts.documentCount_fromRestored, List.append_cancel_left_eq]
  constructor
  · intro h
    obtain ⟨hrank, h⟩ := List.append_inj h (by simp only [writeU32, length_leBytes])
    exact ⟨hrank, (List.append_inj h (by simp only [writeU32, length_leBytes])).1⟩
  · rintro ⟨hrank, hiterations⟩
    rw [hrank, hiterations]

end NmfProvider

namespace BasisProvider

/-- A provider comes back from its blob, in every state it can reach, exactly if it is current. -/
theorem roundTrips_iff {p : BasisProvider} (hp : Reached math sub p) (hfit : p.BasisFits) :
    p.RoundTrips math sub ↔ p.Current := by
  have hfactored := hp.factored
  cases p with
  | randomIndexing p =>
    refine iff_of_true ⟨.randomIndexing p, ?_, fun _ => ⟨rfl, rfl, rfl⟩, rfl⟩ trivial
    show (RandomIndexingProvider.fromSerializedBasis p.serializeBasis >>= _) = _
    rw [RandomIndexingProvider.fromSerializedBasis_serializeBasis hfit]
    rfl
  | ppmi p =>
    have hdecoded : fromSerializedBasis math (ppmi p).serializeBasis .ppmi = .ok (.ppmi
        { PpmiProvider.withParameters p.modelId p.modelVersion p.projectionSeed with
          ppmiVectors := p.ppmiVectors }) := by
      show (PpmiProvider.fromSerializedBasis p.serializeBasis >>= _) = _
      rw [PpmiProvider.fromSerializedBasis_serializeBasis hfit]
      rfl
    exact iff_of_true ⟨_, hdecoded, fun _ => ⟨rfl, rfl, rfl⟩, rfl⟩ trivial
  | lsa p =>
    obtain ⟨docVecs, hread⟩ :=
      @LsaProvider.fromSerializedBasis_serializeBasis math p hfactored hfit
    have hdecoded : fromSerializedBasis math (lsa p).serializeBasis .lsa = .ok (.lsa
        (LsaBasis.provider { p.basis with
          rank := p.rank % 2 ^ 32, svdSweeps := p.svdSweeps % 2 ^ 32 } docVecs)) := by
      show (LsaProvider.fromSerializedBasis math p.serializeBasis >>= _) = _
      rw [hread]
      rfl
    constructor
    · rintro ⟨q, hq, _, hbytes⟩
      obtain rfl := Except.ok.inj (hdecoded.symm.trans hq)
      exact LsaProvider.serialize_restored.mp hbytes
    · intro hrank
      exact ⟨_, hdecoded, fun _ => ⟨rfl, rfl, rfl⟩, LsaProvider.serialize_restored.mpr hrank⟩
  | nmf p =>
    have hdecoded : fromSerializedBasis math (nmf p).serializeBasis .nmf = (do
        .ok (.nmf (NmfBasis.provider { p.basis with
            rank := p.rank % 2 ^ 32, maxIterations := p.maxIterations % 2 ^ 32 }
          (← orPanic (NmfProvider.docEmbeddingsOf math p.h p.effectiveRank
            p.counts.documentCount))))) := by
      show (NmfProvider.fromSerializedBasis math p.serializeBasis >>= _) = _
      rw [NmfProvider.fromSerializedBasis_serializeBasis hfit]
      exact bind_assoc _ _ _
    have hderived := @NmfProvider.isSome_docEmbeddings math p hfactored
    constructor
    · rintro ⟨q, hq, _, hbytes⟩
      obtain ⟨docEmbeddings, hdocs, hq⟩ := except_bind_ok.mp (hdecoded.symm.trans hq)
      cases hq
      refine ⟨NmfProvider.serialize_restored.mp hbytes, hderived.mp ?_⟩
      exact safe_orPanic.mp (hdocs ▸ safe_ok docEmbeddings)
    · rintro ⟨hparameters, hcolumns⟩
      obtain ⟨docEmbeddings, hdocs⟩ := Option.isSome_iff_exists.mp (hderived.mpr hcolumns)
      rw [hdocs] at hdecoded
      exact ⟨_, hdecoded, fun _ => ⟨rfl, rfl, rfl⟩,
        NmfProvider.serialize_restored.mpr hparameters⟩

namespace NmfLife

/-- One document, and the pass over it. -/
def finalized : NmfProvider :=
  (((NmfProvider.new 2 100 5 6).train referenceCorpus "ab c").finalize referenceMath).get
    (by decide +kernel)

/-- One more document behind it. -/
def trainedOn : NmfProvider := finalized.train referenceCorpus "d"

theorem reached_finalized : Reached referenceMath referenceCorpus (.nmf finalized) := by
  have htrained : Reached referenceMath referenceCorpus
      (.nmf ((NmfProvider.new 2 100 5 6).train referenceCorpus "ab c")) :=
    .trainNmf (.fresh (.nmf 2 100 5 6)) "ab c"
  refine .finalize htrained (fun _ entries => entries) (fun _ entries => List.Perm.refl entries) ?_
  exact Option.map_eq_some_iff.mpr ⟨finalized, (Option.some_get _).symm, rfl⟩

theorem fits_finalized : finalized.basis.Fits where
  modelId := by decide +kernel
  modelVersion := by decide +kernel
  documentCount := by decide +kernel
  effectiveRank := by decide +kernel
  vocab := by decide +kernel
  w := by decide +kernel
  h := by decide +kernel

end NmfLife

theorem roundTrips_iff_nmf :
    (nmf NmfLife.finalized).RoundTrips referenceMath referenceCorpus ↔
      (nmf NmfLife.finalized).Current :=
  roundTrips_iff NmfLife.reached_finalized NmfLife.fits_finalized

/-- Training that goes on behind the pass leaves a blob that cannot be read. -/
theorem not_roundTrips :
    ¬∀ (math : BasisMath) (sub : CorpusSubstrate) (p : BasisProvider), Reached math sub p →
      p.BasisFits → p.RoundTrips math sub := by
  intro h
  have hfits : (nmf NmfLife.trainedOn).BasisFits := by
    have hdocs : U32Fits NmfLife.trainedOn.counts.documentCount := by decide +kernel
    exact { NmfLife.fits_finalized with documentCount := hdocs }
  obtain ⟨q, hq, _⟩ := h referenceMath referenceCorpus (.nmf NmfLife.trainedOn)
    (.trainNmf NmfLife.reached_finalized "d") hfits
  have hderived : NmfProvider.docEmbeddingsOf referenceMath NmfLife.trainedOn.h
      NmfLife.trainedOn.effectiveRank NmfLife.trainedOn.counts.documentCount = none := by
    decide +kernel
  have hpanics : NmfProvider.fromSerializedBasis referenceMath NmfLife.trainedOn.serializeBasis =
      .error .panic := by
    rw [NmfProvider.fromSerializedBasis_serializeBasis hfits, hderived]
    rfl
  obtain ⟨_, hq, _⟩ := except_bind_ok.mp hq
  exact absurd (hpanics.symm.trans hq) (by intro heq; cases heq)

end BasisProvider

end MootMemory
