import MootMemory.Retrieval

namespace MootMemory

/-- What the id of a chunk is derived from. -/
structure ChunkContent where
  sourceId : String
  startOffset : Nat
  text : String

namespace ChunkContent

variable {x y : ChunkContent}

def name (x : ChunkContent) : String := chunkName x.sourceId x.startOffset x.text

/-- The source id of `y` goes on where that of `x` ends, over the offset of `x` and perhaps the
beginning of its text; the rest of the text spells the offset and the text of `y`. -/
def RunsOn (x y : ChunkContent) : Prop :=
  (y.sourceId = x.sourceId ++ String.singleton unitSeparator ++ toString x.startOffset ∧
    x.text = toString y.startOffset ++ String.singleton unitSeparator ++ y.text) ∨
  ∃ between, y.sourceId = chunkName x.sourceId x.startOffset between ∧
    x.text = chunkName between y.startOffset y.text

def Collides (x y : ChunkContent) : Prop := RunsOn x y ∨ RunsOn y x

theorem toList_name (x : ChunkContent) : x.name.toList = x.sourceId.toList ++
    unitSeparator :: ((toString x.startOffset).toList ++ unitSeparator :: x.text.toList) :=
  toList_chunkName x.sourceId x.startOffset x.text

theorem RunsOn.length_lt (h : RunsOn x y) : x.sourceId.length < y.sourceId.length := by
  rcases h with ⟨hsource, -⟩ | ⟨between, hsource, -⟩
  · rw [hsource, String.length_append, String.length_append, String.length_singleton]
    omega
  · rw [hsource, ← String.length_toList (s := chunkName _ _ _), toList_chunkName,
      List.length_append, List.length_cons, String.length_toList]
    omega

theorem Collides.ne (h : Collides x y) : x.sourceId ≠ y.sourceId := by
  intro heq
  rcases h with h | h
  · exact absurd h.length_lt (by rw [heq]; exact lt_irrefl _)
  · exact absurd h.length_lt (by rw [heq]; exact lt_irrefl _)

theorem RunsOn.name_eq (h : RunsOn x y) : x.name = y.name := by
  apply String.toList_injective
  rw [toList_name, toList_name]
  rcases h with ⟨hsource, htext⟩ | ⟨between, hsource, htext⟩
  · rw [hsource, htext]
    simp [String.toList_append]
  · rw [hsource, htext, toList_chunkName, toList_chunkName]
    simp

/-- Two ways to part a list before a separator: the same, or one goes on past the other. -/
theorem append_cons_eq_append_cons {α : Type} {a : α} {xs ys xs' ys' : List α}
    (h : xs ++ a :: ys = xs' ++ a :: ys') : xs = xs' ∧ ys = ys' ∨
      (∃ mid, xs' = xs ++ a :: mid ∧ ys = mid ++ a :: ys') ∨
      ∃ mid, xs = xs' ++ a :: mid ∧ ys' = mid ++ a :: ys := by
  have hgo : ∀ {us vs us' vs' : List α} {rest : List α}, us' = us ++ rest →
      a :: vs = rest ++ a :: vs' → us = us' ∧ vs = vs' ∨
        ∃ mid, us' = us ++ a :: mid ∧ vs = mid ++ a :: vs' := by
    intro us vs us' vs' rest hus hvs
    cases rest with
    | nil =>
      rw [List.append_nil] at hus
      exact Or.inl ⟨hus.symm, (List.cons.inj hvs).2⟩
    | cons b mid =>
      obtain ⟨rfl, hmid⟩ := List.cons.inj hvs
      exact Or.inr ⟨mid, hus, hmid⟩
  rcases List.append_eq_append_iff.mp h with ⟨rest, hxs, hys⟩ | ⟨rest, hxs, hys⟩
  · exact (hgo hxs hys).imp_right Or.inl
  · rcases hgo hxs hys with ⟨hsame, hsame'⟩ | hmid
    · exact Or.inl ⟨hsame.symm, hsame'.symm⟩
    · exact Or.inr (Or.inr hmid)

/-- Past the shorter source id the names go on as the fields of the other. -/
theorem runsOn_of_append {mid : List Char}
    (hsource : y.sourceId.toList = x.sourceId.toList ++ unitSeparator :: mid)
    (hrest : (toString x.startOffset).toList ++ unitSeparator :: x.text.toList =
      mid ++ unitSeparator :: ((toString y.startOffset).toList ++ unitSeparator :: y.text.toList)) :
    RunsOn x y := by
  rcases append_cons_eq_append_cons hrest with ⟨rfl, htext⟩ | ⟨between, rfl, htext⟩ | ⟨_, hdigits, _⟩
  · left
    constructor
    · apply String.toList_injective
      simp [hsource, String.toList_append]
    · apply String.toList_injective
      simp [htext, String.toList_append]
  · right
    refine ⟨String.ofList between, ?_, ?_⟩
    · apply String.toList_injective
      rw [hsource, toList_chunkName, String.toList_ofList]
    · apply String.toList_injective
      rw [htext, toList_chunkName, String.toList_ofList]
  · -- an offset has no separator in it
    exact absurd (hdigits ▸ List.mem_append_right _ List.mem_cons_self)
      (unitSeparator_notMem_toString x.startOffset)

theorem name_eq_iff : x.name = y.name ↔ x = y ∨ Collides x y := by
  constructor
  · intro h
    have hlist := congrArg String.toList h
    rw [toList_name, toList_name] at hlist
    rcases append_cons_eq_append_cons hlist with ⟨hsource, -⟩ | ⟨mid, hsource, hrest⟩ |
        ⟨mid, hsource, hrest⟩
    · left
      obtain ⟨source, offset, text⟩ := x
      obtain ⟨source', offset', text'⟩ := y
      obtain rfl : source = source' := String.toList_injective hsource
      obtain ⟨rfl, rfl⟩ := chunkName_inj h
      rfl
    · exact Or.inr (Or.inl (runsOn_of_append hsource hrest))
    · exact Or.inr (Or.inr (runsOn_of_append hsource hrest))
  · rintro (rfl | h | h)
    · rfl
    · exact h.name_eq
    · exact h.name_eq.symm

/-- A name tells its fields from those of another exactly if the two do not collide. -/
theorem eq_of_name_iff : (x.name = y.name → x = y) ↔ ¬Collides x y := by
  rw [name_eq_iff]
  constructor
  · intro h hcollides
    exact hcollides.ne (congrArg sourceId (h (Or.inr hcollides)))
  · rintro h (heq | hcollides)
    · exact heq
    · exact absurd hcollides h

end ChunkContent

variable {sub : CorpusSubstrate}

def Chunk.content (c : Chunk sub) : ChunkContent := ⟨c.sourceId, c.startOffset, c.text⟩

/-- The row stands for a content: its id is derived from it, and it is of its source. -/
def ChunkRow.StandsFor (row : ChunkRow sub) (x : ChunkContent) : Prop :=
  row.id = sub.newV5 x.name ∧ row.chunk.sourceId = x.sourceId

/-- Each chunk finds under its id a row of its own source. -/
def OwnRows (c : Corpus sub) (chunks : List (Chunk sub)) : Prop :=
  ∀ chunk ∈ chunks, ∃ row ∈ c.storage.chunks.rows,
    row.id = chunk.id ∧ row.chunk.sourceId = chunk.sourceId

/-- No chunk collides with another one, or with what a row of the table stands for. -/
def NoCollision (c : Corpus sub) (chunks : List (Chunk sub)) : Prop :=
  ∀ chunk ∈ chunks, ∀ x : ChunkContent,
    (x ∈ chunks.map Chunk.content ∨ ∃ row ∈ c.storage.chunks.rows, row.StandsFor x) →
      ¬chunk.content.Collides x

theorem rows_bundled (c : Corpus sub) (chunks : List (Chunk sub)) :
    (c.bundled chunks).storage.chunks = (c.addChunks chunks).storage.chunks := by
  obtain ⟨metadata, h⟩ := Corpus.foldl_rollup_eq ((chunks.map (·.sourceId)).dedup)
    (c.addChunks chunks)
  rw [Corpus.bundled, h]

theorem ownRows_iff (hv5 : Function.Injective sub.newV5) {c : Corpus sub} (hc : c.Made)
    {chunks : List (Chunk sub)} (hchunks : ∀ chunk ∈ chunks, chunk.MadeFor chunk.sourceId) :
    OwnRows (c.addChunks chunks) chunks ↔ NoCollision c chunks := by
  have hid : ∀ chunk ∈ chunks, chunk.id = sub.newV5 chunk.content.name := fun chunk hchunk =>
    (hchunks chunk hchunk).2
  constructor
  · intro hown chunk hchunk x hx hcollides
    obtain ⟨row, hrow, hrowid, hrowsource⟩ := hown chunk hchunk
    have hname : chunk.content.name = x.name := ChunkContent.name_eq_iff.mpr (Or.inr hcollides)
    have hother : ∃ row' ∈ (c.addChunks chunks).storage.chunks.rows,
        row'.id = sub.newV5 x.name ∧ row'.chunk.sourceId = x.sourceId := by
      rcases hx with hx | ⟨row', hrow', hstands⟩
      · obtain ⟨chunk', hchunk', rfl⟩ := List.mem_map.mp hx
        obtain ⟨row', hrow', hrowid', hrowsource'⟩ := hown chunk' hchunk'
        exact ⟨row', hrow', hrowid'.trans (hid chunk' hchunk'), hrowsource'⟩
      · exact ⟨row', Corpus.mem_addChunks_of_mem hrow' chunks, hstands⟩
    obtain ⟨row', hrow', hrowid', hrowsource'⟩ := hother
    have hsame : row = row' := KeyedTable.eq_of_key_eq hrow hrow'
      (by rw [hrowid, hrowid', hid chunk hchunk, hname])
    exact hcollides.ne (by rw [← hrowsource', ← hsame]; exact hrowsource.symm)
  · intro hno chunk hchunk
    obtain ⟨row, hrow, hrowid⟩ := Corpus.exists_mem_addChunks hchunk c
    refine ⟨row, hrow, hrowid, ?_⟩
    have hname : ∀ x : ChunkContent, row.id = sub.newV5 x.name →
        chunk.content.name = x.name := fun x hx =>
      hv5 ((hid chunk hchunk).symm.trans (hrowid.symm.trans hx))
    rcases Corpus.mem_addChunks hrow with hold | ⟨chunk', hchunk', rfl⟩
    · obtain ⟨text, hmade, -⟩ := hc row hold
      let x : ChunkContent := ⟨row.chunk.sourceId, row.chunk.startOffset, text⟩
      have hfree := hno chunk hchunk x (Or.inr ⟨row, hold, hmade, rfl⟩)
      exact (congrArg ChunkContent.sourceId
        (ChunkContent.eq_of_name_iff.mpr hfree (hname x hmade))).symm
    · have hfree := hno chunk hchunk chunk'.content (Or.inl (List.mem_map_of_mem hchunk'))
      exact (congrArg ChunkContent.sourceId (ChunkContent.eq_of_name_iff.mpr hfree
        (hname chunk'.content (hid chunk' hchunk')))).symm

/-- Ids identify their content, and an insert no chunk of another source, where nothing
collides. -/
theorem deriveId_identifies_iff (sub : CorpusSubstrate) (hv5 : Function.Injective sub.newV5) :
    (∀ x y : ChunkContent, (x.name = y.name → x = y) ↔ ¬x.Collides y) ∧
    ∀ (s s' : Session sub) (chunks inserted : List (Chunk sub)), s.corpus.Made →
      (∀ chunk ∈ chunks, chunk.MadeFor chunk.sourceId) →
      bundleInsert chunks s = .ok inserted s' →
      (OwnRows s'.corpus chunks ↔ NoCollision s.corpus chunks) := by
  refine ⟨fun x y => ChunkContent.eq_of_name_iff, fun s s' chunks inserted hmade hchunks h => ?_⟩
  have hrun := steady_bundleInsert chunks s inserted s' h
  rw [bundleInsert_faultless] at hrun
  have hcorpus : s'.corpus = s.corpus.bundled chunks := by
    injection hrun with _ hsession
    exact (congrArg Session.corpus hsession).symm
  rw [← ownRows_iff hv5 hmade hchunks, OwnRows, OwnRows, hcorpus, rows_bundled]

namespace ReferenceCorpus

def firstChunk : Chunk referenceCorpus :=
  .contentAddressed referenceCorpus "a" 1 3 "2\x1fx" ⟨0, 0, 1⟩

/-- Its source id takes in the offset of the first chunk. -/
def runOnChunk : Chunk referenceCorpus :=
  .contentAddressed referenceCorpus "a\x1f1" 2 1 "x" ⟨0, 0, 1⟩

/-- Chunks of two further sources. -/
def otherChunks : List (Chunk referenceCorpus) :=
  [.contentAddressed referenceCorpus "b" 0 4 "beta" ⟨0, 0, 1⟩,
    .contentAddressed referenceCorpus "c" 1 1 "x" ⟨0, 0, 1⟩]

/-- A corpus that has the first chunk. -/
def oneChunk : Corpus referenceCorpus := (opened []).bundled [firstChunk]

theorem made_oneChunk : oneChunk.Made := by
  intro row hrow
  rw [oneChunk, rows_bundled] at hrow
  obtain hold | ⟨chunk, hchunk, rfl⟩ := Corpus.mem_addChunks hrow
  · exact absurd hold List.not_mem_nil
  · rw [List.mem_singleton.mp hchunk]
    exact @Chunk.MadeFor.row _ firstChunk "a" ⟨rfl, rfl⟩ _

end ReferenceCorpus

/-- Two chunks of different sources go in beside a stored one, and collide with none. -/
theorem deriveId_identifies_iff_reference :
    OwnRows (ReferenceCorpus.oneChunk.bundled ReferenceCorpus.otherChunks)
        ReferenceCorpus.otherChunks ∧
      NoCollision ReferenceCorpus.oneChunk ReferenceCorpus.otherChunks := by
  have hiff := (deriveId_identifies_iff referenceCorpus fun _ _ h => h).2
    ⟨ReferenceCorpus.oneChunk, []⟩
    ⟨ReferenceCorpus.oneChunk.bundled ReferenceCorpus.otherChunks, []⟩ _ _
    ReferenceCorpus.made_oneChunk
    (fun chunk h => by
      obtain rfl | rfl : chunk = _ ∨ chunk = _ := by simpa [ReferenceCorpus.otherChunks] using h
      · exact ⟨rfl, rfl⟩
      · exact ⟨rfl, rfl⟩)
    (bundleInsert_faultless _ _)
  have hown : OwnRows (ReferenceCorpus.oneChunk.bundled ReferenceCorpus.otherChunks)
      ReferenceCorpus.otherChunks := by
    unfold OwnRows
    decide +kernel
  exact ⟨hown, hiff.mp hown⟩

/-- Two contents of one name: the second chunk is taken for the first and left out. -/
theorem deriveId_collides :
    ReferenceCorpus.firstChunk.content.name = ReferenceCorpus.runOnChunk.content.name ∧
    ReferenceCorpus.firstChunk.sourceId ≠ ReferenceCorpus.runOnChunk.sourceId ∧
    ∃ inserted s', bundleInsert [ReferenceCorpus.firstChunk, ReferenceCorpus.runOnChunk]
        ⟨ReferenceCorpus.opened [], []⟩ = .ok inserted s' ∧
      inserted.map (·.sourceId) = ["a"] ∧
      s'.corpus.storage.chunks.rows.map (·.chunk.sourceId) = ["a"] :=
  ⟨by decide +kernel, by decide +kernel, _, _, bundleInsert_faultless _ _, by decide +kernel,
    by decide +kernel⟩

end MootMemory
