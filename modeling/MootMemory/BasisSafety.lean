import MootMemory.BasisProvider
import MootMemory.ReferenceCorpus

namespace MootMemory

/-- The call returns, with a value or an error. -/
def Safe {ε α : Type} (r : Except (Stop ε) α) : Prop := r ≠ .error .panic

section Calls

variable {ε α β : Type}

theorem safe_ok (x : α) : Safe (.ok x : Except (Stop ε) α) := by
  intro h
  cases h

theorem safe_err (e : ε) : Safe (.error (.err e) : Except (Stop ε) α) := by
  intro h
  cases h

theorem safe_orPanic {o : Option α} : Safe (orPanic o : Except (Stop ε) α) ↔ o.isSome := by
  cases o with
  | none => simp [Safe, orPanic]
  | some x => simp [Safe, orPanic]

theorem safe_bind {r : Except (Stop ε) α} {f : α → Except (Stop ε) β} :
    Safe (r >>= f) ↔ Safe r ∧ ∀ x, r = .ok x → Safe (f x) := by
  cases r with
  | error e =>
    show (Except.error e : Except (Stop ε) β) ≠ _ ↔ _
    simp [Safe]
  | ok x =>
    show Safe (f x) ↔ _
    simp [safe_ok]

/-- What only rearranges a value adds no way to go out of bounds. -/
theorem safe_bind_ok {r : Except (Stop ε) α} {f : α → Except (Stop ε) β}
    (hf : ∀ x, Safe (f x)) : Safe (r >>= f) ↔ Safe r := by
  rw [safe_bind, and_iff_left fun x _ => hf x]

/-- A step whose result does not matter to the next. -/
theorem safe_orPanic_bind {o : Option α} {f : α → Except (Stop ε) β} {Q : Prop}
    (hf : ∀ x, o = some x → (Safe (f x) ↔ Q)) : Safe (orPanic o >>= f) ↔ o.isSome ∧ Q := by
  rw [safe_bind, safe_orPanic]
  cases o with
  | none => simp
  | some x => simpa [orPanic] using hf x rfl

end Calls

section Lookups

variable (sub : CorpusSubstrate)

/-- Some text has a term under which the table holds the value. -/
def Asked {ν : Type} (table : TermMap ν) (v : ν) : Prop :=
  ∃ text, text ≠ "" ∧ ∃ term ∈ defaultKeywordTokens sub text, table.get? term = some v

variable {sub}

/-- A condition on all lookups that only matters behind a guard. -/
theorem forall_asked_guarded {ν : Type} {table : TermMap ν} {F : Prop} {P : ν → Prop} :
    (∀ text, F → text ≠ "" → ∀ term ∈ defaultKeywordTokens sub text, ∀ v,
      table.get? term = some v → P v) ↔ (F → ∀ v, Asked sub table v → P v) := by
  constructor
  · rintro h hF v ⟨text, htext, term, hterm, hget⟩
    exact h text hF htext term hterm v hget
  · intro h text hF htext term hterm v hget
    exact h hF v ⟨text, htext, term, hterm, hget⟩

theorem forall_asked {ν : Type} {table : TermMap ν} {P : ν → Prop} :
    (∀ text, text ≠ "" → ∀ term ∈ defaultKeywordTokens sub text, ∀ v,
      table.get? term = some v → P v) ↔ ∀ v, Asked sub table v → P v := by
  simpa using forall_asked_guarded (F := True) (P := P)

end Lookups

section Vectors

variable {math : BasisMath} {sub : CorpusSubstrate}

theorem addTerm_keeps {dim : Nat} {table : TermMap (List F32)} {acc acc' : List F32 × Nat}
    {term : String} (hacc : acc.1.length = dim) (h : addTerm math dim table acc term = some acc') :
    acc'.1.length = dim := by
  unfold addTerm at h
  split at h
  next cv _ =>
    obtain ⟨sum, hsum, h⟩ := Option.bind_eq_some_iff.mp h
    cases h
    exact (length_addInto hsum).trans hacc
  next =>
    cases h
    exact hacc

theorem isSome_addTerm {dim : Nat} {table : TermMap (List F32)} {acc : List F32 × Nat}
    (hacc : acc.1.length = dim) (term : String) :
    (addTerm math dim table acc term).isSome ↔
      ∀ cv, table.get? term = some cv → dim ≤ cv.length := by
  unfold addTerm
  cases table.get? term with
  | none => simp
  | some cv =>
    have hruns : (addInto math dim acc.1 cv).isSome ↔ dim ≤ cv.length := isSome_addInto math hacc
    have hmap : ((addInto math dim acc.1 cv).bind fun sum => some (sum, acc.2 + 1)).isSome =
        (addInto math dim acc.1 cv).isSome := by
      cases addInto math dim acc.1 cv <;> rfl
    simp only [Option.some.injEq, forall_eq', ← hruns, ← hmap]
    exact Iff.rfl

theorem safe_contextVector {dim : Nat} {table : TermMap (List F32)} {text : String} :
    Safe (contextVector math sub dim table text) ↔ (text ≠ "" →
      ∀ term ∈ defaultKeywordTokens sub text, ∀ cv, table.get? term = some cv → dim ≤ cv.length) := by
  unfold contextVector
  dsimp only
  split
  next h =>
    refine iff_of_true (safe_ok _) fun htext term hterm => ?_
    rw [h.resolve_left htext] at hterm
    cases hterm
  next h =>
    rw [safe_bind_ok fun _ => safe_ok _, safe_orPanic,
      isSome_foldlM (fun _ _ _ => addTerm_keeps) (fun _ term hacc => isSome_addTerm hacc term)
        List.length_replicate]
    exact ⟨fun h _ => h, fun h' => h' fun htext => h (Or.inl htext)⟩

/-- The lane asks for the vector only behind its own guards. -/
theorem safe_floatLane {ν : Type} {untrained : Prop} [Decidable untrained] {named text : String}
    {table : TermMap ν} {vector : Lane (Option (List F32))} (h : Safe vector) :
    Safe (floatLane sub untrained named table text vector) := by
  unfold floatLane
  dsimp only
  split
  next => exact safe_ok _
  next =>
    split
    next => exact safe_err _
    next => exact (safe_bind_ok fun _ => safe_ok _).mpr h

end Vectors

section Hits

variable {basisVocab : TermMap Nat} {terms : List String}

theorem exists_key_countHits {idx : Nat} :
    (∃ e ∈ (countHits basisVocab terms).1.entries, e.1 = idx) ↔
      ∃ term ∈ terms, basisVocab.get? term = some idx := by
  induction terms using List.reverseRecOn with
  | nil => simp [countHits, OrderedMap.empty]
  | append_singleton terms term ih =>
    rw [countHits, List.foldl_append, ← countHits, List.foldl_cons, List.foldl_nil]
    cases hget : basisVocab.get? term with
    | none => simp [ih, or_and_right, exists_or, hget]
    | some idx' =>
      dsimp only
      rw [OrderedMap.increment, OrderedMap.exists_key_insert Function.injective_id, ih]
      simp [or_and_right, exists_or, hget, or_comm, eq_comm]

theorem countHits_found :
    (countHits basisVocab terms).2 = true ↔ ∃ term ∈ terms, ∃ idx, basisVocab.get? term = some idx := by
  induction terms using List.reverseRecOn with
  | nil => simp [countHits]
  | append_singleton terms term ih =>
    rw [countHits, List.foldl_append, ← countHits, List.foldl_cons, List.foldl_nil]
    cases hget : basisVocab.get? term with
    | none => simp [ih, or_and_right, exists_or, hget]
    | some idx' => simp [or_and_right, exists_or, hget]

/-- What holds of every key that is counted holds of every index that is found. -/
theorem forall_countHits {P : Nat → Prop} :
    (∀ e ∈ (countHits basisVocab terms).1.entries, P e.1) ↔
      ∀ term ∈ terms, ∀ idx, basisVocab.get? term = some idx → P idx := by
  constructor
  · intro h term hterm idx hget
    obtain ⟨e, he, rfl⟩ := exists_key_countHits.mpr ⟨term, hterm, hget⟩
    exact h e he
  · intro h e he
    obtain ⟨term, hterm, hget⟩ := exists_key_countHits.mp ⟨e, he, rfl⟩
    exact h term hterm e.1 hget

/-- A query that is built and then folded in factor by factor. -/
theorem safe_folded {math : BasisMath} {query : Option (List F32)}
    {fold : List F32 → Nat → Option (F32 × Bool)} {k : Nat} {C : Prop} {Q : Nat → Prop}
    (hquery : query.isSome ↔ C) (hfold : ∀ q, query = some q → ∀ r, (fold q r).isSome ↔ Q r) :
    Safe (do
      let query ← orPanic query
      let folded ← orPanic ((List.range k).mapM (fold query))
      .ok (normalised math folded) : Lane (Option (List F32))) ↔ C ∧ ∀ r < k, Q r := by
  rw [← hquery]
  refine safe_orPanic_bind fun q hq => ?_
  rw [safe_bind_ok fun _ => safe_ok _, safe_orPanic, isSome_mapM]
  simp only [List.mem_range, hfold q hq]

/-- The inherent lookup of a text is safe exactly if every term it finds can be worked with. -/
theorem safe_lookup {math : BasisMath} {sub : CorpusSubstrate} {text : String} {finalized : Prop}
    [Decidable finalized] {query : IndexMap Nat → Option (List F32)}
    {fold : List F32 → Nat → Option (F32 × Bool)} {k : Nat} {P Q : Nat → Prop}
    (hquery : ∀ rawCounts, (query rawCounts).isSome ↔ ∀ e ∈ rawCounts.entries, P e.1)
    (hfold : ∀ rawCounts q, query rawCounts = some q → ∀ r, (fold q r).isSome ↔ Q r) :
    Safe (let terms := defaultKeywordTokens sub text
      if ¬ finalized ∨ text = "" ∨ terms = [] then .ok none
      else
        let (rawCounts, hasInVocab) := countHits basisVocab terms
        if ¬ hasInVocab then .ok none
        else do
          let query ← orPanic (query rawCounts)
          let folded ← orPanic ((List.range k).mapM (fold query))
          .ok (normalised math folded) : Lane (Option (List F32))) ↔
      (finalized → text ≠ "" → ∀ term ∈ defaultKeywordTokens sub text, ∀ idx,
        basisVocab.get? term = some idx → P idx ∧ ∀ r < k, Q r) := by
  dsimp only
  split
  next h =>
    refine iff_of_true (safe_ok _) fun hfinal htext term hterm => ?_
    rw [(h.resolve_left (not_not_intro hfinal)).resolve_left htext] at hterm
    cases hterm
  next h =>
    push Not at h
    split
    next hnone =>
      rw [countHits_found] at hnone
      refine iff_of_true (safe_ok _) fun _ _ term hterm idx hget => ?_
      exact absurd ⟨term, hterm, idx, hget⟩ hnone
    next hfound =>
      rw [not_not, countHits_found] at hfound
      obtain ⟨term, hterm, idx, hget⟩ := hfound
      rw [safe_folded ((hquery _).trans forall_countHits) (hfold _)]
      constructor
      · rintro ⟨hidx, hfactors⟩ _ _ term hterm idx hget
        exact ⟨hidx term hterm idx hget, hfactors⟩
      · intro hall
        have hall := hall h.1 h.2.1
        exact ⟨fun term hterm idx hget => (hall term hterm idx hget).1,
          (hall term hterm idx hget).2⟩

end Hits

namespace LsaProvider

variable {math : BasisMath} {sub : CorpusSubstrate} {p : LsaProvider}

theorem isSome_queryTfidf {rawCounts : IndexMap Nat} :
    (p.queryTfidf math rawCounts).isSome ↔
      ∀ e ∈ rawCounts.entries, e.1 < p.idfWeights.length ∧ e.1 < p.basisVocab.size := by
  refine isSome_foldlM (P := fun q => q.length = p.basisVocab.size) (fun q e q' hq hstep => ?_)
    (fun q e hq => ?_) List.length_replicate
  · obtain ⟨idf, _, hstep⟩ := Option.bind_eq_some_iff.mp hstep
    obtain ⟨_, rfl⟩ := setAt_some hstep
    rw [List.length_set, hq]
  · by_cases hidf : e.1 < p.idfWeights.length
    · by_cases hsize : e.1 < q.length
      · simp [setAt, hidf, hsize, ← hq]
      · simp [setAt, hidf, hsize, ← hq]
    · simp [hidf]

/-- The factor `r` can be folded in, or is left out. -/
def HasFactor (math : BasisMath) (sigma : List F32) (vt : List (List F32)) (r : Nat) : Prop :=
  ∃ s, sigma[r]? = some s ∧ (math.lt s f32Eps ∨ r < vt.length)

theorem isSome_foldIn {query : List F32} {r : Nat} :
    (p.foldIn math query r).isSome ↔ HasFactor math p.sigma p.vt r := by
  unfold foldIn HasFactor
  cases hs : p.sigma[r]? with
  | none => simp
  | some s =>
    by_cases hlt : math.lt s f32Eps
    · simp [hlt]
    · by_cases hr : r < p.vt.length
      · simp [hlt, hr]
      · simp [hlt, hr]

theorem safe_embedFloatInherent {text : String} :
    Safe (p.embedFloatInherent math sub text) ↔ (p.isFinalized → text ≠ "" →
      ∀ term ∈ defaultKeywordTokens sub text, ∀ idx, p.basisVocab.get? term = some idx →
        (idx < p.idfWeights.length ∧ idx < p.basisVocab.size) ∧
          ∀ r < p.effectiveRank, HasFactor math p.sigma p.vt r) :=
  safe_lookup (fun _ => isSome_queryTfidf) fun _ _ _ _ => isSome_foldIn

theorem isSome_docVec {u : List (List F32)} {sigma : List F32} {k d : Nat} :
    (docVec math u sigma k d).isSome ↔ ∀ r < k, (cell u d r).isSome ∧ r < sigma.length := by
  have hvec : ((List.range k).mapM (fun r => do
      let x ← cell u d r
      some (math.mul x (← sigma[r]?)))).isSome ↔
        ∀ r ∈ List.range k, (cell u d r).isSome ∧ r < sigma.length := by
    rw [isSome_mapM]
    refine forall_congr' fun r => imp_congr_right fun _ => ?_
    cases cell u d r with
    | none => simp
    | some x => by_cases hr : r < sigma.length <;> simp [hr]
  simp only [List.mem_range] at hvec
  rw [← hvec]
  unfold docVec
  cases (List.range k).mapM (fun r => do
      let x ← cell u d r
      some (math.mul x (← sigma[r]?))) <;> simp

theorem isSome_docVecsOf {u : List (List F32)} {sigma : List F32} {k rows : Nat} :
    (docVecsOf math u sigma k rows).isSome ↔
      ∀ d < rows, ∀ r < k, (cell u d r).isSome ∧ r < sigma.length := by
  rw [docVecsOf, isSome_mapM]
  exact forall_congr' fun d => imp_congr List.mem_range isSome_docVec

end LsaProvider

namespace NmfProvider

variable {math : BasisMath} {sub : CorpusSubstrate} {p : NmfProvider}

theorem queryTf_keeps {q q' : List F32} {e : Nat × Nat} {n : Nat} (hq : q.length = n)
    (h : setAt q e.1 (termFrequency math e.2) = some q') : q'.length = n := by
  obtain ⟨_, rfl⟩ := setAt_some h
  rw [List.length_set, hq]

theorem isSome_queryTf {rawCounts : IndexMap Nat} :
    (p.queryTf math rawCounts).isSome ↔ ∀ e ∈ rawCounts.entries, e.1 < p.basisVocab.size := by
  refine isSome_foldlM (P := fun q => q.length = p.basisVocab.size) (fun _ _ _ => queryTf_keeps)
    (fun q e hq => ?_) List.length_replicate
  by_cases hsize : e.1 < q.length <;> simp [setAt, hsize, ← hq]

theorem isSome_foldIn {rawCounts : IndexMap Nat} {query : List F32}
    (hquery : p.queryTf math rawCounts = some query) (r : Nat) :
    (p.foldIn math query r).isSome ↔ ∀ i < p.basisVocab.size, (cell p.w i r).isSome := by
  have hlen : query.length = p.basisVocab.size :=
    foldlM_keeps (P := fun q => q.length = p.basisVocab.size) (fun _ _ _ => queryTf_keeps)
      List.length_replicate hquery
  have hloop : ((List.range p.basisVocab.size).foldlM (p.addCell math query r) (0, 0)).isSome ↔
      ∀ i ∈ List.range p.basisVocab.size, (cell p.w i r).isSome ∧ i < query.length := by
    refine isSome_foldlM (P := fun _ => True) (fun _ _ _ _ _ => trivial) (fun acc i _ => ?_) trivial
    unfold addCell
    cases cell p.w i r with
    | none => simp
    | some x => by_cases hi : i < query.length <;> simp [hi]
  have hmap : (p.foldIn math query r).isSome =
      ((List.range p.basisVocab.size).foldlM (p.addCell math query r) (0, 0)).isSome := by
    unfold foldIn
    cases (List.range p.basisVocab.size).foldlM (p.addCell math query r) (0, 0) <;> rfl
  rw [hmap, hloop]
  simp only [List.mem_range, hlen]
  exact forall_congr' fun i => imp_congr_right fun hi => and_iff_left hi

theorem safe_embedFloatNmf {text : String} :
    Safe (p.embedFloatNmf math sub text) ↔ (p.isFinalized → text ≠ "" →
      ∀ term ∈ defaultKeywordTokens sub text, ∀ idx, p.basisVocab.get? term = some idx →
        idx < p.basisVocab.size ∧
          ∀ r < p.effectiveRank, ∀ i < p.basisVocab.size, (cell p.w i r).isSome) :=
  safe_lookup (fun _ => isSome_queryTf) fun _ _ hquery r => isSome_foldIn hquery r

theorem isSome_docEmbedding {h : List (List F32)} {k d : Nat} :
    (docEmbedding math h k d).isSome ↔ ∀ r < k, (cell h r d).isSome := by
  have hcol : ((List.range k).mapM fun r => cell h r d).isSome ↔
      ∀ r ∈ List.range k, (cell h r d).isSome := isSome_mapM
  simp only [List.mem_range] at hcol
  rw [← hcol]
  unfold docEmbedding
  cases (List.range k).mapM fun r => cell h r d <;> simp

theorem isSome_docEmbeddingsOf {h : List (List F32)} {k docs : Nat} :
    (docEmbeddingsOf math h k docs).isSome ↔ ∀ d < docs, ∀ r < k, (cell h r d).isSome := by
  rw [docEmbeddingsOf, isSome_mapM]
  exact forall_congr' fun d => imp_congr List.mem_range isSome_docEmbedding

end NmfProvider

variable (math : BasisMath) (sub : CorpusSubstrate)

namespace BasisProvider

/-- The vector from which the embedding lanes of a provider are made. -/
def laneVector (text : String) : BasisProvider → Lane (Option (List F32))
  | .randomIndexing p => p.contextVector math sub text
  | .ppmi p => p.ppmiContextVector math sub text
  | .lsa p => p.embedFloatInherent math sub text
  | .nmf p => p.embedFloatNmf math sub text

/-- No text and no document index takes the provider out of bounds. -/
def Serves (p : BasisProvider) : Prop :=
  (∀ text, Safe (p.embed math sub text) ∧ Safe (p.embedFloat math sub text) ∧
    Safe (p.embedPair math sub text)) ∧ ∀ docIdx, Safe (p.documentEmbedding docIdx)

variable {math sub}

theorem safe_embed {p : BasisProvider} {text : String} :
    Safe (p.embed math sub text) ↔ Safe (p.laneVector math sub text) := by
  cases p with
  | randomIndexing p => exact safe_bind_ok fun v => by cases v <;> exact safe_ok _
  | ppmi p => exact safe_bind_ok fun v => by cases v <;> exact safe_ok _
  | lsa p => exact safe_bind_ok fun v => safe_ok _
  | nmf p => exact safe_bind_ok fun v => safe_ok _

theorem safe_embedPair {p : BasisProvider} {text : String} :
    Safe (p.embedPair math sub text) ↔ Safe (p.laneVector math sub text) := by
  cases p with
  | randomIndexing p => exact safe_bind_ok fun v => by cases v <;> exact safe_ok _
  | ppmi p => exact safe_bind_ok fun v => by cases v <;> exact safe_ok _
  | lsa p => exact safe_bind_ok fun v => safe_ok _
  | nmf p => exact safe_bind_ok fun v => safe_ok _

theorem safe_embedFloat {p : BasisProvider} {text : String}
    (h : Safe (p.laneVector math sub text)) : Safe (p.embedFloat math sub text) := by
  cases p with
  | randomIndexing p =>
    show Safe (p.embedFloat math sub text)
    unfold RandomIndexingProvider.embedFloat
    dsimp only
    split
    next => exact safe_ok _
    next =>
      refine (safe_bind_ok fun v => ?_).mpr h
      cases v with
      | none => exact safe_err _
      | some v => exact safe_ok _
  | ppmi p => exact safe_floatLane h
  | lsa p => exact safe_floatLane h
  | nmf p => exact safe_floatLane h

theorem serves_iff {p : BasisProvider} : p.Serves math sub ↔
    (∀ text, Safe (p.laneVector math sub text)) ∧ ∀ docIdx, Safe (p.documentEmbedding docIdx) := by
  refine and_congr_left fun _ => forall_congr' fun text => ?_
  rw [safe_embed, safe_embedPair]
  exact ⟨fun h => h.1, fun h => ⟨h, safe_embedFloat h, h⟩⟩

end BasisProvider

section Blobs

/-- The lengths and indices that an LSA blob brings fit one another. -/
structure LsaBasis.Fitting (b : LsaBasis) : Prop where
  factors : ∀ d < b.u.length, ∀ r < b.effectiveRank, (cell b.u d r).isSome ∧ r < b.sigma.length
  documents : b.vt ≠ [] → b.documentCount ≤ b.u.length
  terms : b.vt ≠ [] → ∀ idx, Asked sub b.vocab idx →
    (idx < b.idfWeights.length ∧ idx < b.vocab.size) ∧
      ∀ r < b.effectiveRank, LsaProvider.HasFactor math b.sigma b.vt r

/-- The lengths and indices that an NMF blob brings fit one another. -/
structure NmfBasis.Fitting (b : NmfBasis) : Prop where
  factors : ∀ d < b.documentCount, ∀ r < b.effectiveRank, (cell b.h r d).isSome
  terms : b.w ≠ [] → ∀ idx, Asked sub b.vocab idx →
    idx < b.vocab.size ∧ ∀ r < b.effectiveRank, ∀ i < b.vocab.size, (cell b.w i r).isSome

/-- The parts of a blob that its provider works with fit one another, if the blob is one. -/
def PartsFit (bytes : List UInt8) : BasisKind → Prop
  | .randomIndexing => ∀ b, (RandomIndexingProvider.read riBasisMagic).over bytes = .ok b →
      ∀ cv, Asked sub b.vocab cv → riDimension ≤ cv.length
  | .ppmi => ∀ b, PpmiProvider.readBasis.over bytes = .ok b →
      ∀ cv, Asked sub b.ppmiVectors cv → ppmiDimension ≤ cv.length
  | .lsa => ∀ b, LsaBasis.read.over bytes = .ok b → b.Fitting math sub
  | .nmf => ∀ b, NmfBasis.read.over bytes = .ok b → b.Fitting sub

/-- Whatever is done with the bytes returns, and so does whatever is asked of what they make. -/
def BlobSafe (bytes : List UInt8) (kind : BasisKind) : Prop :=
  Safe (BasisProvider.fromSerializedBasis math bytes kind) ∧
    (∀ p : BasisProvider, p.kind = kind → Safe (p.restoreCounts bytes)) ∧
    (kind = .ppmi → Safe (PpmiProvider.fromSerializedCounts bytes)) ∧
    ∀ p, BasisProvider.fromSerializedBasis math bytes kind = .ok p → p.Serves math sub

variable {math sub} {bytes : List UInt8}

theorem safe_restoreCounts (p : BasisProvider) : Safe (p.restoreCounts bytes) := by
  cases p with
  | randomIndexing p =>
    refine (safe_bind_ok fun _ => safe_ok _).mpr ((safe_bind_ok fun _ => safe_ok _).mpr ?_)
    exact (RandomIndexingProvider.guarded_read _).over
  | ppmi p =>
    refine (safe_bind_ok fun _ => safe_ok _).mpr ((safe_bind_ok fun _ => safe_ok _).mpr ?_)
    exact PpmiProvider.guarded_readCounts.over
  | lsa p =>
    refine (safe_bind_ok fun _ => safe_ok _).mpr ((safe_bind_ok fun _ => safe_ok _).mpr ?_)
    exact (CountsAnchor.guarded_read _).over
  | nmf p =>
    refine (safe_bind_ok fun _ => safe_ok _).mpr ((safe_bind_ok fun _ => safe_ok _).mpr ?_)
    exact (CountsAnchor.guarded_read _).over

/-- A provider that is read in two steps: its fields, and what is derived from them. -/
theorem decoded_serves {F : Type} {read : BasisRead F} (hread : read.Guarded)
    {build : F → Except (Stop BasisCodecError) BasisProvider} {Fit : F → Prop}
    (hbuild : ∀ b, (Safe (build b) ∧ ∀ p, build b = .ok p → p.Serves math sub) ↔ Fit b) :
    (Safe (read.over bytes >>= build) ∧
      ∀ p, read.over bytes >>= build = .ok p → p.Serves math sub) ↔
        ∀ b, read.over bytes = .ok b → Fit b := by
  cases hb : read.over bytes with
  | error e =>
    have hsafe : e ≠ .panic := by
      rintro rfl
      exact hread.over hb
    refine iff_of_true ⟨fun h => ?_, fun p h => ?_⟩ fun b h => ?_
    · exact hsafe (Except.error.inj h)
    · cases h
    · cases h
  | ok b =>
    show (Safe (build b) ∧ ∀ p, build b = .ok p → p.Serves math sub) ↔ _
    rw [hbuild b]
    simp

theorem serves_table {p : BasisProvider} {dim : Nat} {table : TermMap (List F32)}
    (hlane : ∀ text, p.laneVector math sub text = contextVector math sub dim table text)
    (hdoc : ∀ docIdx, p.documentEmbedding docIdx = .ok none) :
    p.Serves math sub ↔ ∀ cv, Asked sub table cv → dim ≤ cv.length := by
  rw [BasisProvider.serves_iff, and_iff_left fun docIdx => hdoc docIdx ▸ safe_ok _]
  simp only [hlane, safe_contextVector]
  exact forall_asked

/-- A document's vector is looked up below the number of documents. -/
theorem safe_documentVectors {finalized : Prop} [Decidable finalized] {n : Nat}
    {vectors : List (List F32)} :
    (∀ docIdx, Safe (if ¬ finalized ∨ n ≤ docIdx then .ok none
      else do .ok (some (← orPanic vectors[docIdx]?)) : Lane (Option (List F32)))) ↔
      (finalized → n ≤ vectors.length) := by
  constructor
  · intro h hfinal
    by_contra hlt
    have hlast := h vectors.length
    rw [if_neg (by simpa [hfinal] using hlt), safe_bind_ok fun _ => safe_ok _, safe_orPanic] at hlast
    simp at hlast
  · intro h docIdx
    split
    next => exact safe_ok _
    next hguard =>
      push Not at hguard
      have hlen := h hguard.1
      rw [safe_bind_ok fun _ => safe_ok _, safe_orPanic, List.getElem?_eq_getElem (by omega)]
      rfl

theorem serves_lsa {b : LsaBasis} {docVecs : List (List F32)}
    (hlen : docVecs.length = b.u.length) :
    (BasisProvider.lsa (b.provider docVecs)).Serves math sub ↔
      (b.vt ≠ [] → b.documentCount ≤ b.u.length) ∧ (b.vt ≠ [] → ∀ idx, Asked sub b.vocab idx →
        (idx < b.idfWeights.length ∧ idx < b.vocab.size) ∧
          ∀ r < b.effectiveRank, LsaProvider.HasFactor math b.sigma b.vt r) := by
  have hdoc : (∀ docIdx, Safe ((b.provider docVecs).documentEmbedding docIdx)) ↔
      (b.vt ≠ [] → (b.provider docVecs).counts.documentCount ≤ docVecs.length) :=
    safe_documentVectors
  rw [show (b.provider docVecs).counts.documentCount = b.documentCount from
    TermDocumentCounts.documentCount_fromRestored _ _, hlen] at hdoc
  rw [BasisProvider.serves_iff, and_comm]
  refine and_congr hdoc (Iff.trans ?_ forall_asked_guarded)
  exact forall_congr' fun text => LsaProvider.safe_embedFloatInherent

theorem serves_nmf {b : NmfBasis} {docEmbeddings : List (List F32)}
    (hlen : docEmbeddings.length = b.documentCount) :
    (BasisProvider.nmf (b.provider docEmbeddings)).Serves math sub ↔
      (b.w ≠ [] → ∀ idx, Asked sub b.vocab idx →
        idx < b.vocab.size ∧ ∀ r < b.effectiveRank, ∀ i < b.vocab.size, (cell b.w i r).isSome) := by
  have hdoc : (∀ docIdx, Safe ((b.provider docEmbeddings).documentEmbedding docIdx)) ↔
      (b.w ≠ [] → (b.provider docEmbeddings).counts.documentCount ≤ docEmbeddings.length) :=
    safe_documentVectors
  rw [show (b.provider docEmbeddings).counts.documentCount = b.documentCount from
    TermDocumentCounts.documentCount_fromRestored _ _, hlen] at hdoc
  have hdocs : ∀ docIdx, Safe
      (BasisProvider.documentEmbedding docIdx (.nmf (b.provider docEmbeddings))) :=
    hdoc.mpr fun _ => le_refl _
  rw [BasisProvider.serves_iff, and_iff_left hdocs]
  refine Iff.trans ?_ forall_asked_guarded
  exact forall_congr' fun text => NmfProvider.safe_embedFloatNmf

/-- What is derived from the fields, and what is built on it. -/
theorem built_serves {α : Type} {derived : Option α} {provider : α → BasisProvider} {Q : Prop}
    (h : ∀ x, derived = some x → ((provider x).Serves math sub ↔ Q)) :
    (Safe (do .ok (provider (← orPanic derived)) : Except (Stop BasisCodecError) BasisProvider) ∧
      ∀ p, (do .ok (provider (← orPanic derived)) : Except (Stop BasisCodecError) BasisProvider) =
        .ok p → p.Serves math sub) ↔ derived.isSome ∧ Q := by
  rw [safe_bind_ok fun _ => safe_ok _, safe_orPanic]
  refine and_congr_right fun hsome => ?_
  obtain ⟨x, hx⟩ := Option.isSome_iff_exists.mp hsome
  rw [← h x hx, hx]
  constructor
  · intro hall
    exact hall _ rfl
  · rintro hx p ⟨⟩
    exact hx

/-- The two kinds whose blob is all there is to them. -/
theorem pure_serves {F : Type} {read : BasisRead F} (hread : read.Guarded)
    {provider : F → BasisProvider} :
    (Safe (do .ok (provider (← read.over bytes)) : Except (Stop BasisCodecError) BasisProvider) ∧
      ∀ p, (do .ok (provider (← read.over bytes)) : Except (Stop BasisCodecError) BasisProvider) =
        .ok p → p.Serves math sub) ↔
      ∀ b, read.over bytes = .ok b → (provider b).Serves math sub :=
  decoded_serves hread fun b => by
    constructor
    · intro h
      exact h.2 _ rfl
    · intro h
      refine ⟨safe_ok _, ?_⟩
      rintro p ⟨⟩
      exact h

theorem blob_serves_iff (kind : BasisKind) :
    (Safe (BasisProvider.fromSerializedBasis math bytes kind) ∧
      ∀ p, BasisProvider.fromSerializedBasis math bytes kind = .ok p → p.Serves math sub) ↔
        PartsFit math sub bytes kind := by
  cases kind with
  | randomIndexing =>
    refine (pure_serves (RandomIndexingProvider.guarded_read _)).trans ?_
    exact forall_congr' fun b => imp_congr_right fun _ =>
      serves_table (fun _ => rfl) fun _ => rfl
  | ppmi =>
    refine (pure_serves PpmiProvider.guarded_readBasis).trans ?_
    exact forall_congr' fun b => imp_congr_right fun _ =>
      serves_table (fun _ => rfl) fun _ => rfl
  | lsa =>
    have heq : BasisProvider.fromSerializedBasis math bytes .lsa =
        LsaBasis.read.over bytes >>= fun b => (do
          .ok (.lsa (b.provider (← orPanic
            (LsaProvider.docVecsOf math b.u b.sigma b.effectiveRank b.u.length))))) := by
      show (LsaProvider.fromSerializedBasis math bytes >>= _) = _
      rw [LsaProvider.fromSerializedBasis, bind_assoc]
      exact bind_congr fun b => bind_assoc _ _ _
    rw [heq]
    refine decoded_serves LsaBasis.guarded_read fun b => ?_
    refine (built_serves fun docVecs h => serves_lsa (by
      rw [mapM_some_length h, List.length_range])).trans ?_
    rw [LsaProvider.isSome_docVecsOf]
    exact ⟨fun h => ⟨h.1, h.2.1, h.2.2⟩, fun h => ⟨h.factors, h.documents, h.terms⟩⟩
  | nmf =>
    have heq : BasisProvider.fromSerializedBasis math bytes .nmf =
        NmfBasis.read.over bytes >>= fun b => (do
          .ok (.nmf (b.provider (← orPanic
            (NmfProvider.docEmbeddingsOf math b.h b.effectiveRank b.documentCount))))) := by
      show (NmfProvider.fromSerializedBasis math bytes >>= _) = _
      rw [NmfProvider.fromSerializedBasis, bind_assoc]
      exact bind_congr fun b => bind_assoc _ _ _
    rw [heq]
    refine decoded_serves NmfBasis.guarded_read fun b => ?_
    refine (built_serves fun docEmbeddings h => serves_nmf (by
      rw [mapM_some_length h, List.length_range])).trans ?_
    rw [NmfProvider.isSome_docEmbeddingsOf]
    exact ⟨fun h => ⟨h.1, h.2⟩, fun h => ⟨h.factors, h.terms⟩⟩

/-- Bytes are handled without going out of bounds exactly if the parts they bring fit. -/
theorem blobSafe_iff (math : BasisMath) (sub : CorpusSubstrate) (bytes : List UInt8)
    (kind : BasisKind) : BlobSafe math sub bytes kind ↔ PartsFit math sub bytes kind := by
  rw [← blob_serves_iff]
  constructor
  · rintro ⟨hbasis, _, _, hserves⟩
    exact ⟨hbasis, hserves⟩
  · rintro ⟨hbasis, hserves⟩
    exact ⟨hbasis, fun p _ => safe_restoreCounts p,
      fun _ => PpmiProvider.guarded_readCounts.over, hserves⟩

/-- A blob that has documents and a rank, but no factors. -/
def factorlessBlob : List UInt8 :=
  NmfBasis.serialize ⟨"nmf-v1", "1.0.0", 1, 1, 0, 0, 1, 1, .empty, [], []⟩

theorem not_blobSafe :
    ¬∀ (math : BasisMath) (sub : CorpusSubstrate) (bytes : List UInt8) (kind : BasisKind),
      BlobSafe math sub bytes kind := by
  intro h
  have hbasis := (h referenceMath referenceCorpus factorlessBlob .nmf).1
  have hpanics : NmfProvider.fromSerializedBasis referenceMath factorlessBlob = .error .panic := by
    have hread : NmfBasis.read.over factorlessBlob =
        .ok ⟨"nmf-v1", "1.0.0", 1, 1, 0, 0, 1, 1, .empty, [], []⟩ :=
      (NmfBasis.decodes_read ⟨by decide +kernel, by decide +kernel, by decide, by decide,
        ⟨by decide, fun e he => by cases he⟩, ⟨by decide, fun e he => by cases he⟩,
        ⟨by decide, fun e he => by cases he⟩⟩).over
    rw [NmfProvider.fromSerializedBasis, hread]
    rfl
  refine hbasis ?_
  show (NmfProvider.fromSerializedBasis referenceMath factorlessBlob >>= _) = _
  rw [hpanics]
  rfl

end Blobs

end MootMemory
