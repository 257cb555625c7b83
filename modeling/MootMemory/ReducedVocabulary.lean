import MootMemory.ReferenceCorpus
import MootMemory.TermDocumentCounts

namespace MootMemory

theorem utf8Rank_injective : Function.Injective utf8Rank := by
  intro s t h
  have hbytes : strBytes s = strBytes t :=
    List.map_injective_iff.mpr (fun a b hab => UInt8.toNat_inj.mp hab) h
  exact Except.ok.inj ((strOfBytes_ok.mpr hbytes).symm.trans (strOfBytes_ok.mpr rfl))

/-- The indices of a vocabulary count its terms. -/
structure Contiguous (vocab : TermMap Nat) : Prop where
  inj : ∀ s t i, vocab.get? s = some i → vocab.get? t = some i → s = t
  onto : ∀ i, (∃ t, vocab.get? t = some i) ↔ i < vocab.size

theorem contiguous_empty : Contiguous .empty where
  inj s t i hs := by cases hs
  onto i := by
    constructor
    · rintro ⟨t, ht⟩
      cases ht
    · intro hi
      exact absurd hi (Nat.not_lt_zero i)

/-- A new term that gets the next index. -/
theorem Contiguous.insert {vocab : TermMap Nat} {term : String} (h : Contiguous vocab)
    (hnew : vocab.get? term = none) : Contiguous (vocab.insert term vocab.size) := by
  have hindex : ∀ t i, (vocab.insert term vocab.size).get? t = some i ↔
      (t = term ∧ i = vocab.size) ∨ (t ≠ term ∧ vocab.get? t = some i) := by
    intro t i
    by_cases ht : t = term
    · rw [ht, OrderedMap.get?_insert_self utf8Rank_injective, Option.some.injEq]
      simp [eq_comm]
    · rw [OrderedMap.get?_insert_of_ne utf8Rank_injective ht]
      simp [ht]
  have hlt : ∀ t i, vocab.get? t = some i → i < vocab.size := fun t i ht => (h.onto i).mp ⟨t, ht⟩
  refine ⟨fun s t i hs ht => ?_, fun i => ?_⟩
  · rcases (hindex s i).mp hs with ⟨hsterm, hi⟩ | ⟨_, hs'⟩
    · rcases (hindex t i).mp ht with ⟨htterm, _⟩ | ⟨_, ht'⟩
      · rw [hsterm, htterm]
      · have := hlt t i ht'
        omega
    · rcases (hindex t i).mp ht with ⟨_, hi⟩ | ⟨_, ht'⟩
      · have := hlt s i hs'
        omega
      · exact h.inj s t i hs' ht'
  · rw [OrderedMap.size_insert utf8Rank_injective hnew]
    constructor
    · rintro ⟨t, ht⟩
      rcases (hindex t i).mp ht with ⟨_, hi⟩ | ⟨_, ht⟩
      · omega
      · have := hlt t i ht
        omega
    · intro hi
      rcases Nat.lt_succ_iff_lt_or_eq.mp hi with hi | hi
      · obtain ⟨t, ht⟩ := (h.onto i).mpr hi
        refine ⟨t, (hindex t i).mpr (Or.inr ⟨?_, ht⟩)⟩
        rintro rfl
        rw [hnew] at ht
        cases ht
      · exact ⟨term, (hindex term i).mpr (Or.inl ⟨rfl, hi⟩)⟩

namespace TermDocumentCounts

variable {sub : CorpusSubstrate}

theorem contiguous_countTerm {scan : TermMap Nat × IndexMap Nat} {term : String}
    (h : Contiguous scan.1) : Contiguous (countTerm scan term).1 := by
  unfold countTerm
  split
  next => exact h
  next hnew => exact h.insert hnew

theorem contiguous_growVocab {vocab : TermMap Nat} {term : String} (h : Contiguous vocab) :
    Contiguous (growVocab vocab term) := by
  unfold growVocab
  split
  next => exact h
  next hnew => exact h.insert (Option.not_isSome_iff_eq_none.mp hnew)

/-- `add_document` with the document's counts read in the given order. -/
def addDocumentIn (order : IterationOrder (Nat × Nat)) (counts : TermDocumentCounts)
    (sub : CorpusSubstrate) (text : String) : TermDocumentCounts :=
  let terms := defaultKeywordTokens sub text
  if terms = [] then counts
  else
    let (vocab, docTf) := terms.foldl countTerm (counts.vocab, .empty)
    { vocab
      tfCounts := counts.tfCounts ++ [docTf]
      dfCounts := (order.run docTf.entries).foldl (fun df entry => df.increment entry.1)
        counts.dfCounts }

/-- The order does not matter: every key is counted once. -/
theorem addDocumentIn_eq (order : IterationOrder (Nat × Nat)) (counts : TermDocumentCounts)
    (text : String) : counts.addDocumentIn order sub text = counts.addDocument sub text := by
  have hcomm : RightCommutative fun (df : IndexMap Nat) (entry : Nat × Nat) =>
      df.increment entry.1 := ⟨fun df a b => OrderedMap.increment_comm Function.injective_id⟩
  unfold addDocumentIn addDocument
  dsimp only
  split
  next => rfl
  next => rw [(order.perm _).foldl_eq counts.dfCounts]

variable (sub) in
/-- What a builder can become. -/
inductive Reached : TermDocumentCounts → Prop
  | new : Reached new
  | fromRestored {vocab : TermMap Nat} (h : Contiguous vocab) (documentCount : Nat) :
      Reached (fromRestored vocab documentCount)
  | addDocument {counts : TermDocumentCounts} (h : Reached counts)
      (order : IterationOrder (Nat × Nat)) (text : String) :
      Reached (counts.addDocumentIn order sub text)
  | addDocumentForCountsAnchor {counts : TermDocumentCounts} (h : Reached counts)
      (text : String) : Reached (counts.addDocumentForCountsAnchor sub text)

theorem contiguous_addDocument {counts : TermDocumentCounts} {text : String}
    (h : Contiguous counts.vocab) : Contiguous (counts.addDocument sub text).vocab := by
  unfold addDocument
  dsimp only
  split
  next => exact h
  next =>
    exact List.foldlRecOn (motive := fun scan : TermMap Nat × IndexMap Nat => Contiguous scan.1)
      _ _ h fun _ hscan _ _ => contiguous_countTerm hscan

theorem contiguous_addDocumentForCountsAnchor {counts : TermDocumentCounts} {text : String}
    (h : Contiguous counts.vocab) :
    Contiguous (counts.addDocumentForCountsAnchor sub text).vocab := by
  unfold addDocumentForCountsAnchor
  dsimp only
  split
  next => exact h
  next => exact List.foldlRecOn _ _ h fun _ hvocab _ _ => contiguous_growVocab hvocab

/-- Both ways of adding a document number the terms alike. -/
theorem Reached.contiguous {counts : TermDocumentCounts} (h : Reached sub counts) :
    Contiguous counts.vocab := by
  induction h with
  | new => exact contiguous_empty
  | fromRestored h => exact h
  | addDocument _ order text ih => exact addDocumentIn_eq order _ text ▸ contiguous_addDocument ih
  | addDocumentForCountsAnchor _ _ ih => exact contiguous_addDocumentForCountsAnchor ih

theorem countTerm_pos (scan : TermMap Nat × IndexMap Nat) (term : String) :
    0 < (countTerm scan term).1.size := by
  unfold countTerm
  split
  next i hi =>
    exact List.length_pos_of_mem ((OrderedMap.get?_eq_some_iff utf8Rank_injective).mp hi)
  next hnew =>
    rw [OrderedMap.size_insert utf8Rank_injective hnew]
    exact Nat.succ_pos _

/-- A document is left out, or there are a document and a term. -/
theorem addDocument_cases (counts : TermDocumentCounts) (text : String) :
    counts.addDocument sub text = counts ∨ (counts.addDocument sub text).documentCount ≠ 0 ∧
      (counts.addDocument sub text).vocabularySize ≠ 0 := by
  unfold addDocument
  dsimp only
  split
  next => exact Or.inl rfl
  next hterms =>
    refine Or.inr ⟨?_, ?_⟩
    · simp [documentCount]
    · obtain ⟨term, terms, heq⟩ := List.exists_cons_of_ne_nil hterms
      rw [heq, List.foldl_cons]
      have hpos : 0 < (terms.foldl countTerm
          (countTerm (counts.vocab, .empty) term)).1.size :=
        List.foldlRecOn (motive := fun scan : TermMap Nat × IndexMap Nat => 0 < scan.1.size)
          terms _ (countTerm_pos _ _) fun scan _ t _ => countTerm_pos scan t
      exact Nat.ne_of_gt hpos

end TermDocumentCounts

section Selection

variable {vocab : TermMap Nat} {dfCounts : IndexMap Nat} {n cap : Nat}

/-- `select_reduced_vocabulary` with the vocabulary read in the given order. -/
def selectReducedVocabularyIn (order : IterationOrder (String × Nat)) (vocab : TermMap Nat)
    (dfCounts : IndexMap Nat) (_documentCount cap : Nat) : ReducedVocabulary :=
  let fullSize := vocab.size
  if fullSize ≤ max cap 1 then
    { keptTerms := (order.run vocab.entries).foldl (fun kept entry =>
        if entry.2 < fullSize then kept.set entry.2 entry.1 else kept) (List.replicate fullSize "")
      termToColumn := vocab
      fullIndexToColumn := (List.range fullSize).foldl (fun map i => map.insert i i) .empty }
  else
    let candidates := (order.run vocab.entries).filterMap fun entry =>
      let df := (dfCounts.get? entry.2).getD 0
      if 2 ≤ df then some ⟨entry.1, entry.2, df⟩ else none
    let kept := (candidates.mergeSort VocabCandidate.before).take (min cap candidates.length)
    { keptTerms := kept.map (·.term)
      termToColumn := kept.zipIdx.foldl (fun map entry => map.insert entry.1.term entry.2) .empty
      fullIndexToColumn :=
        kept.zipIdx.foldl (fun map entry => map.insert entry.1.fullIndex entry.2) .empty }

theorem selectReducedVocabularyIn_stored : selectReducedVocabularyIn .stored vocab dfCounts n cap =
    selectReducedVocabulary vocab dfCounts n cap := rfl

/-- The three parts of a reduced vocabulary tell the same columns. -/
structure ReducedVocabulary.Inverse (reduced : ReducedVocabulary) (vocab : TermMap Nat) :
    Prop where
  columns : ∀ t c, reduced.keptTerms[c]? = some t ↔ reduced.termToColumn.get? t = some c
  indices : ∀ i c, reduced.fullIndexToColumn.get? i = some c ↔
    ∃ t, vocab.get? t = some i ∧ reduced.keptTerms[c]? = some t
  known : ∀ t ∈ reduced.keptTerms, ∃ i, vocab.get? t = some i

/-- A term's column is the one of its index. -/
theorem ReducedVocabulary.Inverse.column_iff {reduced : ReducedVocabulary}
    (h : reduced.Inverse vocab) (hvocab : Contiguous vocab) (t : String) (c : Nat) :
    reduced.termToColumn.get? t = some c ↔
      (vocab.get? t).bind reduced.fullIndexToColumn.get? = some c := by
  rw [← h.columns, Option.bind_eq_some_iff]
  constructor
  · intro ht
    obtain ⟨i, hi⟩ := h.known t (List.mem_of_getElem? ht)
    exact ⟨i, hi, (h.indices i c).mpr ⟨t, hi, ht⟩⟩
  · rintro ⟨i, hi, hc⟩
    obtain ⟨t', ht', hkept⟩ := (h.indices i c).mp hc
    rwa [hvocab.inj t t' i hi ht']

/-- No two places hold one term. -/
theorem ReducedVocabulary.Inverse.nodup {reduced : ReducedVocabulary} (h : reduced.Inverse vocab) :
    reduced.keptTerms.Nodup := by
  refine List.nodup_iff_injective_getElem.mpr fun a b hab => ?_
  have ha := (h.columns _ _).mp (List.getElem?_eq_getElem a.isLt)
  have hb := (h.columns _ _).mp (List.getElem?_eq_getElem b.isLt)
  have hcolumn := ha.symm.trans ((congrArg reduced.termToColumn.get? hab).trans hb)
  exact Fin.ext (Option.some.inj hcolumn)

theorem ReducedVocabulary.Inverse.size_termToColumn {reduced : ReducedVocabulary}
    (h : reduced.Inverse vocab) : reduced.termToColumn.size = reduced.size := by
  have hperm : (reduced.termToColumn.entries.map Prod.fst).Perm reduced.keptTerms := by
    refine (List.perm_ext_iff_of_nodup OrderedMap.nodup_keys h.nodup).mpr fun t => ?_
    rw [List.mem_map, List.mem_iff_getElem?]
    constructor
    · rintro ⟨⟨t, c⟩, he, rfl⟩
      exact ⟨c, (h.columns t c).mpr ((OrderedMap.get?_eq_some_iff utf8Rank_injective).mpr he)⟩
    · rintro ⟨c, hc⟩
      exact ⟨(t, c), (OrderedMap.get?_eq_some_iff utf8Rank_injective).mp ((h.columns t c).mp hc),
        rfl⟩
  rw [OrderedMap.size, ← List.length_map Prod.fst, hperm.length_eq, ReducedVocabulary.size]

/-- A column of a term is one of the matrix. -/
theorem ReducedVocabulary.Inverse.column_lt {reduced : ReducedVocabulary}
    (h : reduced.Inverse vocab) {t : String} {c : Nat} (ht : reduced.termToColumn.get? t = some c) :
    c < reduced.size :=
  (List.getElem?_eq_some_iff.mp ((h.columns t c).mpr ht)).1

/-- So is a column of an index. -/
theorem ReducedVocabulary.Inverse.index_lt {reduced : ReducedVocabulary}
    (h : reduced.Inverse vocab) {i c : Nat} (hi : reduced.fullIndexToColumn.get? i = some c) :
    c < reduced.size := by
  obtain ⟨t, _, hc⟩ := (h.indices i c).mp hi
  exact (List.getElem?_eq_some_iff.mp hc).1

/-- Every term of the vocabulary is written into the place of its index. -/
theorem length_foldl_placed {α : Type} {bound : Nat} {entries : List (α × Nat)} {kept : List α} :
    (entries.foldl (fun kept entry =>
      if entry.2 < bound then kept.set entry.2 entry.1 else kept) kept).length = kept.length := by
  refine List.foldlRecOn (motive := fun out : List α => out.length = kept.length) _ _ rfl
    fun out hout entry _ => ?_
  split
  next => rw [List.length_set, hout]
  next => exact hout

theorem getElem?_foldl_placed {α : Type} {bound c : Nat} {entries : List (α × Nat)} {kept : List α}
    (hlen : kept.length = bound) (hnodup : (entries.map Prod.snd).Nodup) (hc : c < bound) {x : α}
    (hx : (x, c) ∈ entries) :
    (entries.foldl (fun kept entry =>
      if entry.2 < bound then kept.set entry.2 entry.1 else kept) kept)[c]? = some x := by
  -- Nothing behind the entry's own turn touches its place.
  obtain ⟨before, behind, rfl⟩ := List.append_of_mem hx
  rw [List.map_append, List.map_cons, List.nodup_append, List.nodup_cons] at hnodup
  rw [List.foldl_append, List.foldl_cons, if_pos hc]
  refine List.foldlRecOn (motive := fun out : List α => out[c]? = some x) _ _ ?_
    fun out hout entry hentry => ?_
  · rw [List.getElem?_set_self]
    rwa [length_foldl_placed, hlen]
  · have hne : entry.2 ≠ c := fun heq =>
      hnodup.2.1.1 (List.mem_map.mpr ⟨entry, hentry, heq⟩)
    split
    next => rwa [List.getElem?_set_ne hne]
    next => exact hout

/-- Within the cap, the columns are the indices. -/
theorem inverse_all {order : IterationOrder (String × Nat)} (h : Contiguous vocab)
    (hcap : vocab.size ≤ max cap 1) :
    (selectReducedVocabularyIn order vocab dfCounts n cap).Inverse vocab := by
  have hindices : ((order.run vocab.entries).map Prod.snd).Nodup := by
    refine ((order.perm _).map _).nodup_iff.mpr ?_
    refine List.Nodup.map_on (fun a ha b hb hab => ?_) OrderedMap.nodup_entries
    have ha' := (OrderedMap.get?_eq_some_iff utf8Rank_injective).mpr ha
    have hb' := (OrderedMap.get?_eq_some_iff utf8Rank_injective).mpr hb
    exact Prod.ext (h.inj a.1 b.1 a.2 ha' (hab ▸ hb')) hab
  unfold selectReducedVocabularyIn
  dsimp only
  rw [if_pos hcap]
  have hkept : ∀ t c, vocab.get? t = some c →
      ((order.run vocab.entries).foldl (fun kept entry =>
        if entry.2 < vocab.size then kept.set entry.2 entry.1 else kept)
        (List.replicate vocab.size ""))[c]? = some t := by
    intro t c ht
    refine getElem?_foldl_placed List.length_replicate hindices ((h.onto c).mp ⟨t, ht⟩) ?_
    exact (order.perm _).mem_iff.mpr ((OrderedMap.get?_eq_some_iff utf8Rank_injective).mp ht)
  have hcolumns : ∀ t c, ((order.run vocab.entries).foldl (fun kept entry =>
        if entry.2 < vocab.size then kept.set entry.2 entry.1 else kept)
        (List.replicate vocab.size ""))[c]? = some t ↔ vocab.get? t = some c := by
    intro t c
    refine ⟨fun ht => ?_, hkept t c⟩
    obtain ⟨hc, _⟩ := List.getElem?_eq_some_iff.mp ht
    rw [length_foldl_placed, List.length_replicate] at hc
    obtain ⟨t', ht'⟩ := (h.onto c).mpr hc
    rw [hkept t' c ht', Option.some.injEq] at ht
    rwa [← ht]
  refine ⟨hcolumns, fun i c => ?_, fun t ht => ?_⟩
  · have hnodup : ((List.range vocab.size).map id).Nodup := by
      rw [List.map_id]
      exact List.nodup_range
    have hid : ((List.range vocab.size).foldl (fun map i => map.insert (id i) (id i))
        (.empty : IndexMap Nat)).get? i = some c ↔ _ :=
      OrderedMap.get?_foldl_insert Function.injective_id hnodup
    refine hid.trans ?_
    simp only [hcolumns]
    constructor
    · rintro (⟨x, hx, rfl, rfl⟩ | ⟨_, hempty⟩)
      · obtain ⟨t, ht⟩ := (h.onto x).mpr (List.mem_range.mp hx)
        exact ⟨t, ht, ht⟩
      · cases hempty
    · rintro ⟨t, hi, hc⟩
      refine Or.inl ⟨i, List.mem_range.mpr ((h.onto i).mp ⟨t, hi⟩), rfl, ?_⟩
      exact Option.some.inj (hi.symm.trans hc)
  · obtain ⟨c, hc, rfl⟩ := List.getElem_of_mem ht
    exact ⟨c, (hcolumns _ c).mp (List.getElem?_eq_getElem hc)⟩

/-- In how many documents a term stands, as far as it is known. -/
def documentFrequency (vocab : TermMap Nat) (dfCounts : IndexMap Nat) (term : String) : Nat :=
  ((vocab.get? term).bind dfCounts.get?).getD 0

/-- The terms of at least two documents: those of more documents first, then by their bytes. -/
structure RankedTerms (vocab : TermMap Nat) (dfCounts : IndexMap Nat) (ranked : List String) :
    Prop where
  informative : ∀ t, t ∈ ranked ↔ 2 ≤ documentFrequency vocab dfCounts t
  sorted : ranked.Pairwise fun s t =>
    documentFrequency vocab dfCounts t < documentFrequency vocab dfCounts s ∨
      documentFrequency vocab dfCounts s = documentFrequency vocab dfCounts t ∧
        utf8Rank s < utf8Rank t

/-- There is one such list. -/
theorem RankedTerms.unique {ranked ranked' : List String} (h : RankedTerms vocab dfCounts ranked)
    (h' : RankedTerms vocab dfCounts ranked') : ranked = ranked' := by
  have hnodup : ∀ l : List String, RankedTerms vocab dfCounts l → l.Nodup := by
    intro l hl
    refine hl.sorted.imp ?_
    rintro s t hst rfl
    rcases hst with hlt | ⟨_, hlt⟩
    · exact lt_irrefl _ hlt
    · exact lt_irrefl _ hlt
  have hperm : ranked.Perm ranked' :=
    (List.perm_ext_iff_of_nodup (hnodup _ h) (hnodup _ h')).mpr fun t =>
      (h.informative t).trans (h'.informative t).symm
  refine hperm.eq_of_pairwise (fun s t _ _ hst hts => ?_) h.sorted h'.sorted
  rcases hst with hst | ⟨hdf, hst⟩
  · rcases hts with hts | ⟨hdf, _⟩
    · omega
    · omega
  · rcases hts with hts | ⟨_, hts⟩
    · omega
    · exact absurd hst (lt_asymm hts)

theorem VocabCandidate.before_iff {a b : VocabCandidate} : a.before b = true ↔
    b.df < a.df ∨ a.df = b.df ∧ utf8Rank a.term ≤ utf8Rank b.term := by
  simp [VocabCandidate.before]

theorem VocabCandidate.before_trans (a b c : VocabCandidate) (hab : a.before b = true)
    (hbc : b.before c = true) : a.before c = true := by
  rw [before_iff] at *
  rcases hab with hab | ⟨hab, hrank⟩
  · rcases hbc with hbc | ⟨hbc, _⟩
    · exact Or.inl (by omega)
    · exact Or.inl (by omega)
  · rcases hbc with hbc | ⟨hbc, hrank'⟩
    · exact Or.inl (by omega)
    · exact Or.inr ⟨hab.trans hbc, le_trans hrank hrank'⟩

theorem VocabCandidate.before_total (a b : VocabCandidate) :
    (a.before b || b.before a) = true := by
  rw [Bool.or_eq_true, before_iff, before_iff]
  rcases Nat.lt_trichotomy a.df b.df with hlt | heq | hlt
  · exact Or.inr (Or.inl hlt)
  · rcases le_total (utf8Rank a.term) (utf8Rank b.term) with hle | hle
    · exact Or.inl (Or.inr ⟨heq, hle⟩)
    · exact Or.inr (Or.inr ⟨heq.symm, hle⟩)
  · exact Or.inl (Or.inl hlt)

/-- The candidates in the order of their columns. -/
def rankedCandidates (order : IterationOrder (String × Nat)) (vocab : TermMap Nat)
    (dfCounts : IndexMap Nat) : List VocabCandidate :=
  ((order.run vocab.entries).filterMap fun entry =>
    let df := (dfCounts.get? entry.2).getD 0
    if 2 ≤ df then some ⟨entry.1, entry.2, df⟩ else none).mergeSort VocabCandidate.before

variable {order : IterationOrder (String × Nat)}

theorem mem_rankedCandidates {x : VocabCandidate} : x ∈ rankedCandidates order vocab dfCounts ↔
    vocab.get? x.term = some x.fullIndex ∧ x.df = documentFrequency vocab dfCounts x.term ∧
      2 ≤ x.df := by
  rw [rankedCandidates, (List.mergeSort_perm _ _).mem_iff, List.mem_filterMap,
    OrderedMap.get?_eq_some_iff utf8Rank_injective]
  constructor
  · rintro ⟨⟨t, i⟩, hentry, hx⟩
    have hentry := (order.perm _).mem_iff.mp hentry
    have hget := (OrderedMap.get?_eq_some_iff utf8Rank_injective).mpr hentry
    dsimp only at hx
    split at hx
    next hdf =>
      cases hx
      refine ⟨hentry, ?_, hdf⟩
      rw [documentFrequency, hget]
      rfl
    next => cases hx
  · rintro ⟨hentry, hdf, htwo⟩
    have hget := (OrderedMap.get?_eq_some_iff utf8Rank_injective).mpr hentry
    refine ⟨(x.term, x.fullIndex), (order.perm _).mem_iff.mpr hentry, ?_⟩
    rw [documentFrequency, hget, Option.bind_some] at hdf
    dsimp only
    rw [← hdf, if_pos htwo]

/-- A candidate is known by its term. -/
theorem nodup_terms : ((rankedCandidates order vocab dfCounts).map (·.term)).Nodup := by
  refine ((List.mergeSort_perm _ _).map _).nodup_iff.mpr ?_
  refine nodup_map_filterMap (fun entry x hx => ?_)
    (((order.perm _).map Prod.fst).nodup_iff.mpr OrderedMap.nodup_keys)
  dsimp only at hx
  split at hx
  next =>
    cases hx
    rfl
  next => cases hx

theorem nodup_fullIndices (h : Contiguous vocab) :
    ((rankedCandidates order vocab dfCounts).map (·.fullIndex)).Nodup := by
  refine List.Nodup.map_on (fun a ha b hb hab => ?_) (List.Nodup.of_map _ nodup_terms)
  obtain ⟨hgeta, hdfa, _⟩ := mem_rankedCandidates.mp ha
  obtain ⟨hgetb, hdfb, _⟩ := mem_rankedCandidates.mp hb
  have hterm : a.term = b.term := h.inj _ _ _ hgeta (hab ▸ hgetb)
  cases a
  cases b
  dsimp only at *
  rw [hterm, hab, hdfa, hdfb, hterm]

variable (order) in
theorem rankedTerms_candidates :
    RankedTerms vocab dfCounts ((rankedCandidates order vocab dfCounts).map (·.term)) := by
  constructor
  · intro t
    rw [List.mem_map]
    constructor
    · rintro ⟨x, hx, rfl⟩
      obtain ⟨_, hdf, htwo⟩ := mem_rankedCandidates.mp hx
      rwa [← hdf]
    · intro htwo
      cases hget : vocab.get? t with
      | none =>
        rw [documentFrequency, hget] at htwo
        exact absurd htwo (show ¬2 ≤ 0 by decide)
      | some i =>
        exact ⟨⟨t, i, documentFrequency vocab dfCounts t⟩,
          mem_rankedCandidates.mpr ⟨hget, rfl, htwo⟩, rfl⟩
  · have hsorted := List.pairwise_mergeSort VocabCandidate.before_trans
      VocabCandidate.before_total ((order.run vocab.entries).filterMap fun entry =>
        let df := (dfCounts.get? entry.2).getD 0
        if 2 ≤ df then some ⟨entry.1, entry.2, df⟩ else none)
    have hdistinct := List.pairwise_map.mp (@nodup_terms vocab dfCounts order)
    refine List.pairwise_map.mpr ((hsorted.and hdistinct).imp_of_mem ?_)
    rintro a b ha hb ⟨hbefore, hne⟩
    obtain ⟨_, hdfa, _⟩ := mem_rankedCandidates.mp ha
    obtain ⟨_, hdfb, _⟩ := mem_rankedCandidates.mp hb
    rw [← hdfa, ← hdfb]
    rcases VocabCandidate.before_iff.mp hbefore with hlt | ⟨heq, hle⟩
    · exact Or.inl hlt
    · exact Or.inr ⟨heq, lt_of_le_of_ne hle fun hrank => hne (utf8Rank_injective hrank)⟩

theorem selectReducedVocabularyIn_capped (hcap : max cap 1 < vocab.size) :
    selectReducedVocabularyIn order vocab dfCounts n cap =
      let kept := (rankedCandidates order vocab dfCounts).take cap
      { keptTerms := kept.map (·.term)
        termToColumn := kept.zipIdx.foldl (fun map entry => map.insert entry.1.term entry.2) .empty
        fullIndexToColumn :=
          kept.zipIdx.foldl (fun map entry => map.insert entry.1.fullIndex entry.2) .empty } := by
  unfold selectReducedVocabularyIn
  dsimp only
  rw [if_neg (by omega), rankedCandidates, ← List.length_mergeSort, ← List.take_eq_take_min]

/-- The column of a kept item, under a key that no other has. -/
theorem get?_columns {κ β : Type} [LinearOrder β] {rank : κ → β} (hrank : Function.Injective rank)
    {α : Type} {key : α → κ} {kept : List α} (h : (kept.map key).Nodup) {k : κ} {c : Nat} :
    (kept.zipIdx.foldl (fun (map : OrderedMap rank Nat) entry => map.insert (key entry.1) entry.2)
      .empty).get? k = some c ↔ (kept.map key)[c]? = some k := by
  have hkeys : kept.zipIdx.map (fun entry => key entry.1) = kept.map key := by
    show kept.zipIdx.map (key ∘ Prod.fst) = _
    rw [← List.map_map, List.zipIdx_map_fst]
  refine (OrderedMap.get?_foldl_insert hrank (hkeys ▸ h)).trans ?_
  rw [List.getElem?_map, Option.map_eq_some_iff]
  constructor
  · rintro (⟨⟨x, i⟩, hx, rfl, rfl⟩ | ⟨_, hempty⟩)
    · exact ⟨x, List.mem_zipIdx_iff_getElem?.mp hx, rfl⟩
    · cases hempty
  · rintro ⟨x, hx, rfl⟩
    exact Or.inl ⟨(x, c), List.mem_zipIdx_iff_getElem?.mpr hx, rfl, rfl⟩

/-- Above the cap, the columns are the places in the ranking. -/
theorem inverse_capped (h : Contiguous vocab) (hcap : max cap 1 < vocab.size) :
    (selectReducedVocabularyIn order vocab dfCounts n cap).Inverse vocab := by
  rw [selectReducedVocabularyIn_capped hcap]
  have hsub := List.take_sublist cap (rankedCandidates order vocab dfCounts)
  refine ⟨fun t c => ?_, fun i c => ?_, fun t ht => ?_⟩
  · exact (get?_columns utf8Rank_injective (nodup_terms.sublist (hsub.map _))).symm
  · refine (get?_columns Function.injective_id
      ((nodup_fullIndices h).sublist (hsub.map _))).trans ?_
    simp only [List.getElem?_map, Option.map_eq_some_iff]
    constructor
    · rintro ⟨x, hx, rfl⟩
      exact ⟨x.term, (mem_rankedCandidates.mp (hsub.subset (List.mem_of_getElem? hx))).1,
        x, hx, rfl⟩
    · rintro ⟨t, hi, x, hx, rfl⟩
      have hget := (mem_rankedCandidates.mp (hsub.subset (List.mem_of_getElem? hx))).1
      exact ⟨x, hx, Option.some.inj (hget.symm.trans hi)⟩
  · obtain ⟨x, hx, rfl⟩ := List.mem_map.mp ht
    exact ⟨_, (mem_rankedCandidates.mp (hsub.subset hx)).1⟩

theorem inverse_select (h : Contiguous vocab) :
    (selectReducedVocabularyIn order vocab dfCounts n cap).Inverse vocab := by
  rcases Nat.lt_or_ge (max cap 1) vocab.size with hcap | hcap
  · exact inverse_capped h hcap
  · exact inverse_all h hcap

theorem size_select_le (hcap : 1 ≤ cap) :
    (selectReducedVocabularyIn order vocab dfCounts n cap).size ≤ cap := by
  rcases Nat.lt_or_ge (max cap 1) vocab.size with hlt | hle
  · rw [selectReducedVocabularyIn_capped hlt]
    simp only [ReducedVocabulary.size, List.length_map]
    exact List.length_take_le _ _
  · unfold selectReducedVocabularyIn
    dsimp only
    rw [if_pos hle, ReducedVocabulary.size]
    dsimp only
    rw [length_foldl_placed, List.length_replicate]
    omega

end Selection

/-- What is kept of the terms, and under which columns. -/
def TermDocumentCounts.SelectsConsistently (counts : TermDocumentCounts)
    (order : IterationOrder (String × Nat)) (cap : Nat) : Prop :=
  let reduced := selectReducedVocabularyIn order counts.vocab counts.dfCounts
    counts.documentCount cap
  reduced.size ≤ cap ∧
    (∀ t c, (reduced.keptTerms[c]? = some t ↔ reduced.termToColumn.get? t = some c) ∧
      (reduced.termToColumn.get? t = some c ↔
        (counts.vocab.get? t).bind reduced.fullIndexToColumn.get? = some c)) ∧
    (cap < counts.vocab.size → ∃ ranked, RankedTerms counts.vocab counts.dfCounts ranked ∧
      reduced.keptTerms = ranked.take (min cap ranked.length))

/-- The reduced vocabulary of all counts that can arise is consistent, in whatever order the maps
are read. -/
theorem selectReducedVocabulary_consistent {sub : CorpusSubstrate} {counts : TermDocumentCounts}
    (h : counts.Reached sub) (order : IterationOrder (String × Nat)) {cap : Nat} (hcap : 1 ≤ cap) :
    Contiguous counts.vocab ∧ counts.SelectsConsistently order cap := by
  have hvocab := h.contiguous
  have hinverse : (selectReducedVocabularyIn order counts.vocab counts.dfCounts
      counts.documentCount cap).Inverse counts.vocab := inverse_select hvocab
  refine ⟨hvocab, size_select_le hcap, fun t c => ⟨hinverse.columns t c,
    hinverse.column_iff hvocab t c⟩, fun hlt => ⟨_, rankedTerms_candidates order, ?_⟩⟩
  rw [selectReducedVocabularyIn_capped (by omega), ← List.take_eq_take_min]
  exact List.map_take

/-- Three terms in two documents, one of them in both. -/
def sharedTerm : TermDocumentCounts :=
  (TermDocumentCounts.new.addDocumentIn .stored referenceCorpus "b a").addDocumentIn .stored
    referenceCorpus "a c"

theorem selectReducedVocabulary_consistent_shared :
    1 < sharedTerm.vocab.size ∧ Contiguous sharedTerm.vocab ∧
      sharedTerm.SelectsConsistently .stored 1 :=
  ⟨by decide +kernel, selectReducedVocabulary_consistent
    (.addDocument (.addDocument .new .stored "b a") .stored "a c") .stored (by decide)⟩

example : (selectReducedVocabularyIn .stored sharedTerm.vocab sharedTerm.dfCounts 2 1).keptTerms =
    ["a"] := by decide +kernel

end MootMemory
