import MootMemory.Retrieval
import MootMemory.Reindexing

namespace MootMemory

variable {sub : CorpusSubstrate}

section Models

namespace EmbeddingModelConfig

def kind : EmbeddingModelConfig sub → sub.Kind
  | .trainable kind _ | .plain kind _ => kind

/-- The untrained basis of a trainable model. -/
def factory : EmbeddingModelConfig sub → Option Blob
  | .trainable kind state => some (sub.serializeBasis kind state)
  | .plain _ _ => none

def modelId (model : EmbeddingModelConfig sub) : String := (sub.key model.kind).modelId

end EmbeddingModelConfig

theorem origin_buildSlot (storage : CorpusStorage sub) (model : EmbeddingModelConfig sub) :
    (buildSlot storage model).origin = (model.kind, model.factory) := by
  cases model <;> rfl

theorem ProviderSlot.retrained_of_none {slot : ProviderSlot sub} (h : slot.freshBasisBlob = none)
    (chunks : List (Chunk sub)) : slot.retrained chunks = slot := by
  unfold ProviderSlot.retrained
  split
  next => rfl
  next blob hblob => cases h.symm.trans hblob

theorem ProviderSlot.serving_retrained {slot : ProviderSlot sub} {blob : Blob}
    (h : slot.freshBasisBlob = some blob) (chunks : List (Chunk sub)) :
    (slot.retrained chunks).serving = (slot.kind, slot.trained blob chunks, some blob) := by
  unfold ProviderSlot.retrained
  split
  next hblob => cases h.symm.trans hblob
  next blob' hblob =>
    obtain rfl := Option.some.inj (h.symm.trans hblob)
    show (slot.kind, slot.trained blob chunks, slot.freshBasisBlob) = _
    rw [h]

/-- What loading and folding make of the counts of a model. -/
inductive Accumulator (kind : sub.Kind) (factory : Blob) : sub.State → Prop
  | base : Accumulator kind factory (sub.reconstructBasis kind factory)
  | restored (counts : Blob) : Accumulator kind factory
      (sub.restoreCounts kind (sub.reconstructBasis kind factory) counts)
  | added {acc : sub.State} (text : String) (h : Accumulator kind factory acc) :
      Accumulator kind factory (sub.addToCounts kind acc text)

theorem Accumulator.foldl {kind : sub.Kind} {factory : Blob} {acc : sub.State}
    (h : Accumulator kind factory acc) (chunks : List (Chunk sub)) :
    Accumulator kind factory
      (chunks.foldl (fun acc chunk => sub.addToCounts kind acc chunk.text) acc) := by
  induction chunks generalizing acc with
  | nil => exact h
  | cons chunk chunks ih => exact ih (h.added chunk.text)

end Models

namespace Corpus

variable {c : Corpus sub} {models : List (EmbeddingModelConfig sub)}

section Counts

/-- The kinds and untrained bases of the slots with their counts. -/
def books (c : Corpus sub) : List ((sub.Kind × Option Blob) × Option (CountsState sub)) :=
  c.slots.map fun slot => (slot.origin, slot.counts)

theorem books_eq (c : Corpus sub) : c.books = c.origins.zip c.countStates := by
  rw [origins, countStates, List.zip_map']
  rfl

/-- All counts come from the untrained bases. -/
def Accumulated (c : Corpus sub) : Prop :=
  ∀ book ∈ c.books, ∀ blob ∈ book.1.2, ∀ state ∈ book.2,
    Accumulator book.1.1 blob state.accumulator

theorem Accumulated.congr {c' : Corpus sub} (h : c.Accumulated) (horigins : c'.origins = c.origins)
    (hcounts : c'.countStates = c.countStates) : c'.Accumulated := by
  have hbooks : c'.books = c.books := by rw [books_eq, books_eq, horigins, hcounts]
  unfold Accumulated
  rw [hbooks]
  exact h

theorem slots_stored (c : Corpus sub) (sourceId : String) (chunks : List (Chunk sub)) :
    (c.stored sourceId chunks).slots = c.slots ∨
      ∃ new, (c.stored sourceId chunks).slots = c.slots.map (·.foldCounts new) := by
  unfold stored
  split
  next => exact Or.inl rfl
  next =>
    obtain ⟨rows, metadata, hbundled⟩ := bundled_eq chunks (c.clearRemoved sourceId)
    rw [hbundled]
    unfold foldCounts
    split
    next => exact Or.inl rfl
    next => exact Or.inr ⟨_, rfl⟩

theorem Accumulated.stored (h : c.Accumulated) (sourceId : String) (chunks : List (Chunk sub)) :
    (c.stored sourceId chunks).Accumulated := by
  rcases slots_stored c sourceId chunks with hslots | ⟨new, hslots⟩
  · unfold Accumulated books
    rw [hslots]
    exact h
  · intro book hbook blob hblob state hstate
    rw [books, hslots, List.map_map, List.mem_map] at hbook
    obtain ⟨slot, hslot, rfl⟩ := hbook
    obtain ⟨old, hold, rfl⟩ := Option.map_eq_some_iff.mp hstate
    exact (h (slot.origin, slot.counts) (List.mem_map_of_mem hslot) blob hblob old hold).foldl new

theorem Accumulated.storedAll (h : c.Accumulated) (items : List IngestItem) :
    (c.storedAll items).Accumulated := by
  induction items generalizing c with
  | nil => exact h
  | cons item items ih => exact ih (h.stored item.sourceId (item.chunks sub))

theorem counts_foldCounts_of_none {slot : ProviderSlot sub} (h : slot.counts = none)
    (new : List (Chunk sub)) : (slot.foldCounts new).counts = none := by
  show Option.map _ slot.counts = none
  rw [h]
  rfl

/-- The counts are folded for no slot or with nothing. -/
def CountsNothing (c : Corpus sub) (chunks : List (Chunk sub)) : Prop :=
  (∀ slot ∈ c.slots, slot.counts = none) ∨
    ∀ chunk ∈ chunks, ∃ row ∈ c.storage.chunks.rows, row.id = chunk.id

theorem newChunks_of_known (chunks : List (Chunk sub)) (c : Corpus sub)
    (h : ∀ chunk ∈ chunks, ∃ row ∈ c.storage.chunks.rows, row.id = chunk.id) :
    c.newChunks chunks = [] := by
  induction chunks generalizing c with
  | nil => rfl
  | cons chunk chunks ih =>
    have hnone : c.storage.chunks.insert? ⟨chunk, sub.leaf chunk.id chunk.text⟩ = none :=
      KeyedTable.insert?_eq_none_iff.mpr (h chunk List.mem_cons_self)
    have hnew : c.isNew chunk = false := by
      rw [isNew, hnone]
      rfl
    have hadd : c.addChunk chunk = c := by
      unfold addChunk
      rw [hnone]
    unfold newChunks
    rw [hnew, hadd]
    exact ih c fun chunk' hchunk' => h chunk' (List.mem_cons_of_mem _ hchunk')

theorem countStates_stored (sourceId : String) {chunks : List (Chunk sub)}
    (h : c.CountsNothing chunks) : (c.stored sourceId chunks).countStates = c.countStates := by
  rcases h with hnone | hknown
  · rcases slots_stored c sourceId chunks with hslots | ⟨new, hslots⟩
    · rw [countStates, hslots, countStates]
    · rw [countStates, hslots, countStates, List.map_map]
      refine List.map_congr_left fun slot hslot => ?_
      rw [Function.comp_apply, counts_foldCounts_of_none (hnone slot hslot), hnone slot hslot]
  · have hnew : (c.clearRemoved sourceId).newChunks chunks = [] :=
      newChunks_of_known chunks (c.clearRemoved sourceId) hknown
    unfold stored
    split
    next => rfl
    next =>
      obtain ⟨rows, metadata, hbundled⟩ := bundled_eq chunks (c.clearRemoved sourceId)
      rw [hnew, hbundled]
      rfl

theorem countStates_storedAll {items : List IngestItem}
    (h : c.CountsNothing (items.flatMap (·.chunks sub))) :
    (c.storedAll items).countStates = c.countStates := by
  induction items generalizing c with
  | nil => rfl
  | cons item items ih =>
    rw [List.flatMap_cons] at h
    have hone := countStates_stored item.sourceId (h.imp_right fun hknown chunk hchunk =>
      hknown chunk (List.mem_append_left _ hchunk))
    refine (ih ?_).trans hone
    rcases h with hnone | hknown
    · left
      rcases slots_stored c item.sourceId (item.chunks sub) with hslots | ⟨new, hslots⟩
      · rw [hslots]
        exact hnone
      · rw [hslots]
        intro slot hslot
        obtain ⟨old, hold, rfl⟩ := List.mem_map.mp hslot
        exact counts_foldCounts_of_none (hnone old hold) new
    · right
      intro chunk hchunk
      obtain ⟨row, hrow, hid⟩ := hknown chunk (List.mem_append_right _ hchunk)
      rw [chunks_stored]
      exact ⟨row, mem_addChunks_of_mem hrow _, hid⟩

/-- Every trainable slot has its counts stored. -/
theorem counts_persisted (c : Corpus sub) (nowSecs : Int) :
    (c.persisted nowSecs).storage.counts = c.storage.counts.putAll
      (c.slots.filterMap fun slot => slot.counts.map (slot.countsRow nowSecs)) := by
  have hall : ∀ (slots : List (ProviderSlot sub)) (d : Corpus sub),
      (slots.foldl (fun c => c.persistedSlot nowSecs) d).storage.counts =
        d.storage.counts.putAll
          (slots.filterMap fun slot => slot.counts.map (slot.countsRow nowSecs)) := by
    intro slots
    induction slots with
    | nil => exact fun _ => rfl
    | cons slot slots ih =>
      intro d
      rw [List.foldl_cons, ih, List.filterMap_cons]
      unfold persistedSlot
      cases slot.counts with
      | none => rfl
      | some state => rfl
  exact hall c.slots c

theorem modelIds_of_models (h : c.origins = models.map fun model => (model.kind, model.factory)) :
    c.slots.map (·.modelId) = models.map (·.modelId) := by
  have hmap : c.slots.map (·.modelId) = c.origins.map fun origin => (sub.key origin.1).modelId := by
    rw [origins, List.map_map]
    rfl
  rw [hmap, h, List.map_map]
  rfl

/-- The counts that are loaded after they are stored are those in memory. -/
theorem countStates_persisted (hdistinct : (models.map (·.modelId)).Nodup)
    (hcounts : ∀ kind factory acc, Accumulator kind factory acc →
      sub.restoreCounts kind (sub.reconstructBasis kind factory) (sub.serializeCounts kind acc) = acc)
    (horigins : c.origins = models.map fun model => (model.kind, model.factory))
    (haccumulated : c.Accumulated) (nowSecs : Int) :
    c.countStates = models.map fun model => (buildSlot (c.persisted nowSecs).storage model).counts := by
  have hids := modelIds_of_models horigins
  have hrows : ((c.slots.filterMap fun slot =>
      slot.counts.map (slot.countsRow nowSecs)).map PersistedCounts.key).Nodup := by
    have hsub : ∀ slots : List (ProviderSlot sub), List.Sublist ((slots.filterMap fun slot =>
        slot.counts.map (slot.countsRow nowSecs)).map PersistedCounts.key) (slots.map (·.key)) := by
      intro slots
      induction slots with
      | nil => exact .slnil
      | cons slot slots ih =>
        rw [List.filterMap_cons, List.map_cons]
        cases slot.counts with
        | none => exact ih.cons _
        | some state => exact ih.cons_cons _
    have hkeys : (c.slots.map (·.key)).Nodup := by
      refine List.Nodup.of_map ModelKey.modelId ?_
      rw [List.map_map]
      exact hids ▸ hdistinct
    exact hkeys.sublist (hsub c.slots)
  apply List.ext_getElem?
  intro i
  have horigin : (c.slots[i]?).map (·.origin) =
      (models[i]?).map fun model => (model.kind, model.factory) := by
    have hget := congrArg (·[i]?) horigins
    simpa only [origins, List.getElem?_map] using hget
  rw [countStates, List.getElem?_map, List.getElem?_map]
  cases hmodel : models[i]? with
  | none =>
    rw [hmodel, Option.map_none, Option.map_eq_none_iff] at horigin
    rw [horigin]
    rfl
  | some model =>
    rw [hmodel, Option.map_some, Option.map_eq_some_iff] at horigin
    obtain ⟨slot, hslot, horigin⟩ := horigin
    rw [hslot, Option.map_some, Option.map_some]
    have hkind : slot.kind = model.kind := congrArg Prod.fst horigin
    have hblob : slot.freshBasisBlob = model.factory := congrArg Prod.snd horigin
    have htrainable := slot.trainable
    congr 1
    cases model with
    | plain kind state =>
      rw [hblob] at htrainable
      exact Option.isNone_iff_eq_none.mp (by rw [← Option.not_isSome, htrainable]; rfl)
    | trainable kind state =>
      rw [hblob] at htrainable
      obtain ⟨counts, hsome⟩ := Option.isSome_iff_exists.mp (htrainable.trans rfl)
      have hmem : slot.countsRow nowSecs counts ∈ c.slots.filterMap fun slot =>
          slot.counts.map (slot.countsRow nowSecs) :=
        List.mem_filterMap.mpr ⟨slot, List.mem_of_getElem? hslot, by rw [hsome]; rfl⟩
      have hfind := @KeyedTable.find?_putAll_of_mem _ _ _ _ c.storage.counts _ _ hrows hmem
      rw [← counts_persisted] at hfind
      have hacc := haccumulated (slot.origin, slot.counts)
        (List.mem_map_of_mem (List.mem_of_getElem? hslot)) _ hblob counts hsome
      have hrestored := hcounts _ _ _ hacc
      have hkind' : slot.kind = kind := hkind
      subst hkind'
      have hload : loadCounts (c.persisted nowSecs).storage slot.kind
          (sub.serializeBasis slot.kind state) = counts := by
        unfold loadCounts
        have hkey : (c.persisted nowSecs).storage.counts.find? (sub.key slot.kind) =
          some (slot.countsRow nowSecs counts) := hfind
        rw [hkey]
        dsimp only
        cases counts with
        | mk accumulator documentCount => exact congrArg (CountsState.mk · documentCount) hrestored
      rw [hsome, ← hload]
      rfl

end Counts

end Corpus

end MootMemory
