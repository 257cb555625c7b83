import MootMemory.CorpusReach

namespace MootMemory

variable {sub : CorpusSubstrate}

/-- The id is that of a chunk with the text, of a clean source. -/
def TextOf (sub : CorpusSubstrate) (itemId text : String) : Prop :=
  ∃ sourceId startOffset, CleanSource sourceId ∧
    itemId = sub.idText (deriveId sub sourceId startOffset text)

theorem TextOf.unique (hv5 : Function.Injective sub.newV5) {itemId text text' : String}
    (h : TextOf sub itemId text) (h' : TextOf sub itemId text') : text = text' := by
  obtain ⟨sourceId, startOffset, hclean, rfl⟩ := h
  obtain ⟨sourceId', startOffset', hclean', heq⟩ := h'
  exact (chunkName_inj_of_clean hclean hclean' (hv5 (sub.idText_injective heq))).2.2

theorem mem_termFreqsOf {itemId : String} {tokens : List String} {row : TermFreq} :
    row ∈ termFreqsOf itemId tokens ↔
      row.itemId = itemId ∧ row.term ∈ tokens ∧ row.freq = tokens.count row.term := by
  rw [termFreqsOf, List.mem_map]
  constructor
  · rintro ⟨term, hterm, rfl⟩
    exact ⟨rfl, List.mem_dedup.mp hterm, rfl⟩
  · rintro ⟨rfl, hterm, hfreq⟩
    refine ⟨row.term, List.mem_dedup.mpr hterm, ?_⟩
    rw [← hfreq]

/-- The row is a posting of the text that its id is made from. -/
def TermFreq.Named (sub : CorpusSubstrate) (row : TermFreq) : Prop :=
  ∃ text, TextOf sub row.itemId text ∧
    row ∈ termFreqsOf row.itemId (defaultKeywordTokens sub text)

def DocLen.Named (sub : CorpusSubstrate) (row : DocLen) : Prop :=
  ∃ text, TextOf sub row.itemId text ∧ defaultKeywordTokens sub text ≠ [] ∧
    row.length = (defaultKeywordTokens sub text).length

theorem TermFreq.Named.eq (hv5 : Function.Injective sub.newV5) (a b : TermFreq)
    (ha : a.Named sub) (hb : b.Named sub) (h : a.key = b.key) : a = b := by
  obtain ⟨text, htext, hmem⟩ := ha
  obtain ⟨text', htext', hmem'⟩ := hb
  have hterm : a.term = b.term := congrArg Prod.fst h
  have hitem : a.itemId = b.itemId := congrArg Prod.snd h
  rw [hitem] at htext
  obtain rfl := htext.unique hv5 htext'
  have hfreq := (mem_termFreqsOf.mp hmem).2.2
  have hfreq' := (mem_termFreqsOf.mp hmem').2.2
  rw [hterm, ← hfreq'] at hfreq
  cases a
  cases b
  simp only at hterm hitem hfreq
  rw [hterm, hitem, hfreq]

theorem DocLen.Named.eq (hv5 : Function.Injective sub.newV5) (a b : DocLen)
    (ha : a.Named sub) (hb : b.Named sub) (h : a.itemId = b.itemId) : a = b := by
  obtain ⟨text, htext, -, hlen⟩ := ha
  obtain ⟨text', htext', -, hlen'⟩ := hb
  rw [h] at htext
  obtain rfl := htext.unique hv5 htext'
  cases a
  cases b
  simp only at h hlen hlen'
  rw [h, hlen, hlen']

namespace PostingTables

def Named (sub : CorpusSubstrate) (tables : PostingTables) : Prop :=
  (∀ row ∈ tables.termFreqs.rows, row.Named sub) ∧ ∀ row ∈ tables.docLens.rows, row.Named sub

theorem named_empty : empty.Named sub :=
  ⟨fun _ h => absurd h (Finset.notMem_empty _), fun _ h => absurd h (Finset.notMem_empty _)⟩

variable {tables : PostingTables} {itemId text : String}

theorem Named.deleteItem (h : tables.Named sub) (itemId : String) :
    (tables.deleteItem itemId).Named sub :=
  ⟨fun row hrow => h.1 row (RowSet.mem_deleteWhere.mp hrow).1,
    fun row hrow => h.2 row (RowSet.mem_deleteWhere.mp hrow).1⟩

theorem named_of_mem_termFreqsOf (htext : TextOf sub itemId text) {row : TermFreq}
    (hrow : row ∈ termFreqsOf itemId (defaultKeywordTokens sub text)) : row.Named sub := by
  obtain rfl := (mem_termFreqsOf.mp hrow).1
  exact ⟨text, htext, hrow⟩

/-- Indexing an item decides its postings and leaves the others alone. -/
theorem mem_termFreqs_indexItem_iff (tables : PostingTables)
    (itemId : String) (tokens : List String) (row : TermFreq) :
    row ∈ (tables.indexItem itemId tokens).termFreqs.rows ↔
      if row.itemId = itemId then row ∈ termFreqsOf itemId tokens
      else row ∈ tables.termFreqs.rows := by
  have hdeleted : row ∈ (deleteItem tables itemId).termFreqs.rows ↔
      row ∈ tables.termFreqs.rows ∧ row.itemId ≠ itemId := by
    rw [deleteItem, RowSet.mem_deleteWhere, beq_eq_false_iff_ne]
  unfold indexItem
  dsimp only
  split
  next hnil =>
    rw [hdeleted, hnil]
    by_cases hitem : row.itemId = itemId
    · simp [hitem, termFreqsOf]
    · simp [hitem]
  next hne =>
    have hkeys : ∀ a ∈ termFreqsOf itemId tokens, ∀ b ∈ termFreqsOf itemId tokens,
        a.key = b.key → a = b := by
      intro a ha b hb h
      obtain ⟨hid, -, hfreq⟩ := mem_termFreqsOf.mp ha
      obtain ⟨hid', -, hfreq'⟩ := mem_termFreqsOf.mp hb
      have hterm : a.term = b.term := congrArg Prod.fst h
      cases a
      cases b
      simp only at hid hid' hfreq hfreq' hterm
      rw [hid, hid', hfreq, hfreq', hterm]
    rw [RowSet.mem_replaceAll hkeys, hdeleted]
    by_cases hitem : row.itemId = itemId
    · simp [hitem]
    · rw [if_neg hitem]
      constructor
      · rintro (hrow | ⟨⟨hrow, -⟩, -⟩)
        · exact absurd (mem_termFreqsOf.mp hrow).1 hitem
        · exact hrow
      · intro hrow
        refine Or.inr ⟨⟨hrow, hitem⟩, fun b hb hkey => hitem ?_⟩
        have hid : b.itemId = row.itemId := congrArg Prod.snd hkey
        rw [← hid, (mem_termFreqsOf.mp hb).1]

theorem mem_docLens_indexItem_iff (tables : PostingTables)
    (itemId : String) (tokens : List String) (row : DocLen) :
    row ∈ (tables.indexItem itemId tokens).docLens.rows ↔
      if row.itemId = itemId then tokens ≠ [] ∧ row.length = tokens.length
      else row ∈ tables.docLens.rows := by
  have hdeleted : row ∈ (deleteItem tables itemId).docLens.rows ↔
      row ∈ tables.docLens.rows ∧ row.itemId ≠ itemId := by
    rw [deleteItem, RowSet.mem_deleteWhere, beq_eq_false_iff_ne]
  unfold indexItem
  dsimp only
  split
  next hnil =>
    rw [hdeleted]
    by_cases hitem : row.itemId = itemId
    · simp [hitem, hnil]
    · simp [hitem]
  next hne =>
    rw [RowSet.mem_replace, hdeleted]
    by_cases hitem : row.itemId = itemId
    · cases row
      simp only at hitem
      simp [hitem, hne]
    · have hrow : row ≠ ⟨itemId, tokens.length⟩ := fun h => hitem (congrArg DocLen.itemId h)
      simp [hitem, hrow]

/-- Over named rows an item's postings are added: the rows it had are among them. -/
theorem mem_termFreqs_indexItem (hv5 : Function.Injective sub.newV5) (h : tables.Named sub)
    (htext : TextOf sub itemId text) {row : TermFreq} :
    row ∈ (tables.indexItem itemId (defaultKeywordTokens sub text)).termFreqs.rows ↔
      row ∈ tables.termFreqs.rows ∨ row ∈ termFreqsOf itemId (defaultKeywordTokens sub text) := by
  rw [mem_termFreqs_indexItem_iff]
  split
  next hitem =>
    subst hitem
    refine ⟨Or.inr, fun hrow => hrow.elim (fun hmem => ?_) id⟩
    obtain ⟨text', htext', hposting⟩ := h.1 row hmem
    rwa [htext'.unique hv5 htext] at hposting
  next hitem =>
    exact ⟨Or.inl, fun hrow => hrow.elim id fun hmem =>
      absurd (mem_termFreqsOf.mp hmem).1 hitem⟩

theorem mem_docLens_indexItem (hv5 : Function.Injective sub.newV5) (h : tables.Named sub)
    (htext : TextOf sub itemId text) {row : DocLen} :
    row ∈ (tables.indexItem itemId (defaultKeywordTokens sub text)).docLens.rows ↔
      row ∈ tables.docLens.rows ∨ (defaultKeywordTokens sub text ≠ [] ∧
        row = ⟨itemId, (defaultKeywordTokens sub text).length⟩) := by
  rw [mem_docLens_indexItem_iff]
  split
  next hitem =>
    subst hitem
    constructor
    · rintro ⟨hne, hlen⟩
      exact Or.inr ⟨hne, by rw [← hlen]⟩
    · rintro (hrow | ⟨hne, hrow⟩)
      · obtain ⟨text', htext', hne, hlen⟩ := h.2 row hrow
        rw [htext'.unique hv5 htext] at hne hlen
        exact ⟨hne, hlen⟩
      · exact ⟨hne, congrArg DocLen.length hrow⟩
  next hitem =>
    exact ⟨Or.inl, fun hrow => hrow.elim id fun hposted =>
      absurd (congrArg DocLen.itemId hposted.2) hitem⟩

theorem Named.indexItem (hv5 : Function.Injective sub.newV5) (h : tables.Named sub)
    (htext : TextOf sub itemId text) :
    (tables.indexItem itemId (defaultKeywordTokens sub text)).Named sub := by
  refine ⟨fun row hrow => ?_, fun row hrow => ?_⟩
  · rcases (mem_termFreqs_indexItem hv5 h htext).mp hrow with hrow | hrow
    · exact h.1 row hrow
    · exact named_of_mem_termFreqsOf htext hrow
  · rcases (mem_docLens_indexItem hv5 h htext).mp hrow with hrow | ⟨hne, rfl⟩
    · exact h.2 row hrow
    · exact ⟨text, htext, hne, rfl⟩

end PostingTables

end MootMemory
