import MootMemory.ReferenceCorpus

namespace MootMemory

variable {sub : CorpusSubstrate}

section Folds

variable {α β : Type}

/-- Going through the places of a list is going through the list. -/
theorem foldl_range_getElem? (g : β → α → β) (l : List α) (b : β) :
    (List.range l.length).foldl (fun b i => (l[i]?).elim b (g b)) b = l.foldl g b := by
  induction l using List.reverseRecOn with
  | nil => rfl
  | append_singleton l a ih =>
    rw [List.length_append, List.length_singleton, List.range_succ, List.foldl_append,
      List.foldl_append, ← ih]
    have hinit : (List.range l.length).foldl (fun b i => ((l ++ [a])[i]?).elim b (g b)) b =
        (List.range l.length).foldl (fun b i => (l[i]?).elim b (g b)) b := by
      refine List.foldl_ext _ _ _ fun b i hi => ?_
      rw [List.getElem?_append_left (List.mem_range.mp hi)]
    rw [hinit]
    simp

theorem foldl_range_modify (f : α → α) (l : List α) :
    (List.range l.length).foldl (fun l i => l.modify i f) l = l.map f := by
  have hinit : ∀ n, ∀ j : Nat, ((List.range n).foldl (fun l i => l.modify i f) l)[j]? =
      if j < n then l[j]?.map f else l[j]? := by
    intro n
    induction n with
    | zero => exact fun j => rfl
    | succ n ih =>
      intro j
      rw [List.range_succ, List.foldl_append, List.foldl_cons, List.foldl_nil,
        List.getElem?_modify, ih]
      by_cases hj : n = j
      · subst hj
        simp
      · have hlt : j < n + 1 ↔ j < n := by omega
        simp only [hj, if_false, hlt]
        split
        next => rw [Option.map_eq_map, Option.map_id']
        next => rw [Option.map_eq_map, Option.map_id']
  apply List.ext_getElem?
  intro j
  rw [hinit, List.getElem?_map]
  split
  next => rfl
  next h => rw [List.getElem?_eq_none (Nat.le_of_not_lt h)]; rfl

theorem filterMap_range_getElem? (f : α → Option β) (l : List α) :
    ((List.range l.length).filterMap fun i => (l[i]?).bind f) = l.filterMap f := by
  induction l using List.reverseRecOn with
  | nil => rfl
  | append_singleton l a ih =>
    have hinit : ((List.range l.length).filterMap fun i => ((l ++ [a])[i]?).bind f) =
        (List.range l.length).filterMap fun i => (l[i]?).bind f := by
      refine List.filterMap_congr fun i hi => ?_
      rw [List.getElem?_append_left (List.mem_range.mp hi)]
    rw [List.length_append, List.length_singleton, List.range_succ, List.filterMap_append,
      hinit, ih, List.filterMap_append]
    congr 1
    rw [List.filterMap_cons, List.filterMap_cons, List.getElem?_concat_length, Option.bind_some]
    rfl

end Folds

/-- The slot with its provider trained from the untrained basis, if it is a trainable one. -/
def ProviderSlot.retrained (slot : ProviderSlot sub) (chunks : List (Chunk sub)) :
    ProviderSlot sub :=
  match slot.freshBasisBlob with
  | none => slot
  | some blob => { slot with handle := slot.trained blob chunks }

/-- The row that a trained slot's basis is stored as. -/
def ProviderSlot.basisRow (slot : ProviderSlot sub) (chunks : List (Chunk sub)) (nowSecs : Int) :
    Option PersistedBasis :=
  slot.freshBasisBlob.map fun blob =>
    { key := slot.key
      basis := sub.serializeBasis slot.kind (slot.trained blob chunks)
      trainedAtSecs := nowSecs
      trainedChunkCount := chunks.length }

namespace ProviderSlot

variable {slot : ProviderSlot sub} {chunks : List (Chunk sub)}

theorem origin_retrained (slot : ProviderSlot sub) (chunks : List (Chunk sub)) :
    (slot.retrained chunks).origin = slot.origin := by
  unfold retrained
  split <;> rfl

theorem key_retrained (slot : ProviderSlot sub) (chunks : List (Chunk sub)) :
    (slot.retrained chunks).key = slot.key := by
  unfold retrained
  split <;> rfl

theorem retrained_retrained (slot : ProviderSlot sub) (chunks : List (Chunk sub)) :
    (slot.retrained chunks).retrained chunks = slot.retrained chunks := by
  cases slot with
  | mk kind handle freshBasisBlob counts trainable =>
    cases freshBasisBlob with
    | none => rfl
    | some blob => rfl

theorem basisRow_congr {slot' : ProviderSlot sub} (h : slot.origin = slot'.origin) :
    slot.basisRow = slot'.basisRow := by
  have hkind : slot.kind = slot'.kind := congrArg Prod.fst h
  have hblob : slot.freshBasisBlob = slot'.freshBasisBlob := congrArg Prod.snd h
  funext chunks nowSecs
  simp only [basisRow, trained, key, hkind, hblob]

end ProviderSlot

namespace Corpus

section Effect

variable {c : Corpus sub} {i : Nat} {chunks : List (Chunk sub)} {nowSecs : Int}

theorem slots_retrained (c : Corpus sub) (i : Nat) (chunks : List (Chunk sub)) (nowSecs : Int) :
    (c.retrained i chunks nowSecs).slots = c.slots.modify i (·.retrained chunks) := by
  apply List.ext_getElem?
  intro j
  rw [List.getElem?_modify]
  unfold Corpus.retrained
  cases hslot : c.slots[i]? with
  | none =>
    by_cases hj : i = j
    · subst hj
      simp [hslot]
    · simp [hj]
  | some slot =>
    dsimp only
    cases hblob : slot.freshBasisBlob with
    | none =>
      by_cases hj : i = j
      · subst hj
        simp [hslot, ProviderSlot.retrained, hblob]
      · simp [hj]
    | some blob =>
      dsimp only
      unfold putBasis install
      dsimp only
      rw [List.getElem?_modify]
      by_cases hj : i = j
      · subst hj
        simp [hslot, ProviderSlot.retrained, hblob]
      · simp [hj]

theorem basis_retrained (c : Corpus sub) (i : Nat) (chunks : List (Chunk sub)) (nowSecs : Int) :
    (c.retrained i chunks nowSecs).storage.basis =
      c.storage.basis.putAll
        ((c.slots[i]?).bind fun slot => slot.basisRow chunks nowSecs).toList := by
  unfold Corpus.retrained
  cases hslot : c.slots[i]? with
  | none => rfl
  | some slot =>
    rw [Option.bind_some]
    unfold ProviderSlot.basisRow
    dsimp only
    cases slot.freshBasisBlob with
    | none => rfl
    | some blob => rfl

/-- All slots are trained, each for itself. -/
theorem slots_foldl_retrained (c : Corpus sub) (chunks : List (Chunk sub)) (nowSecs : Int) :
    ((List.range c.slots.length).foldl (fun c i => c.retrained i chunks nowSecs) c).slots =
      c.slots.map (·.retrained chunks) := by
  rw [← foldl_range_modify]
  exact (List.foldl_hom Corpus.slots fun c i => (slots_retrained c i chunks nowSecs).symm).symm

theorem basis_foldl_retrained (c : Corpus sub) (chunks : List (Chunk sub)) (nowSecs : Int) :
    ((List.range c.slots.length).foldl
        (fun c i => c.retrained i chunks nowSecs) c).storage.basis =
      c.storage.basis.putAll (c.slots.filterMap (·.basisRow chunks nowSecs)) := by
  have hrow : ∀ (d : Corpus sub) (i : Nat), d.origins = c.origins →
      ((d.slots[i]?).bind fun slot => slot.basisRow chunks nowSecs) =
        (c.slots[i]?).bind fun slot => slot.basisRow chunks nowSecs := by
    intro d i h
    have hget : d.slots[i]?.map (·.origin) = c.slots[i]?.map (·.origin) := by
      have hget := congrArg (·[i]?) h
      simpa only [origins, List.getElem?_map] using hget
    cases hc : c.slots[i]? with
    | none =>
      rw [hc, Option.map_none, Option.map_eq_none_iff] at hget
      rw [hget]
    | some slot =>
      rw [hc, Option.map_some, Option.map_eq_some_iff] at hget
      obtain ⟨slot', hd, horigin⟩ := hget
      rw [hd, Option.bind_some, Option.bind_some, ProviderSlot.basisRow_congr horigin]
  have hsteps : ∀ (l : List Nat) (d : Corpus sub), d.origins = c.origins →
      (l.foldl (fun c i => c.retrained i chunks nowSecs) d).storage.basis =
        d.storage.basis.putAll (l.filterMap fun i =>
          (c.slots[i]?).bind fun slot => slot.basisRow chunks nowSecs) := by
    intro l
    induction l with
    | nil => exact fun _ _ => rfl
    | cons i l ih =>
      intro d h
      rw [List.foldl_cons, ih _ (origins_retrained.trans h), basis_retrained, hrow d i h,
        List.filterMap_cons]
      cases (c.slots[i]?).bind fun slot => slot.basisRow chunks nowSecs with
      | none => rfl
      | some row => rfl
  rw [hsteps _ c rfl, filterMap_range_getElem?]

/-- The rows a slot is embedded to, under its model id. -/
def slotBatch (chunks : List (Chunk sub)) (filedAtSecs : Int) (slot : ProviderSlot sub) :
    String × List VectorPayloadInput :=
  (slot.modelId, slotRows slot filedAtSecs chunks)

theorem inputs_reembedded (hnodup : (chunks.map (·.id)).Nodup) (c : Corpus sub) (i : Nat)
    (filedAtSecs : Int) :
    (c.reembedded i chunks filedAtSecs).storage.vectors.inputs =
      (c.slots[i]?).elim c.storage.vectors.inputs fun slot =>
        replaceBatch c.storage.vectors.inputs (slotBatch chunks filedAtSecs slot) := by
  unfold reembedded
  cases c.slots[i]? with
  | none => rfl
  | some slot =>
    obtain ⟨vectors, hreplace, hinputs⟩ := @VectorTable.replaceModel_eq_some c.storage.vectors _ _
      (nodup_slotRows slot filedAtSecs hnodup) fun row hrow => modelId_of_mem_slotRows hrow
    dsimp only
    rw [hreplace]
    exact hinputs

theorem inputs_foldl_reembedded (hnodup : (chunks.map (·.id)).Nodup) (c : Corpus sub)
    (filedAtSecs : Int) :
    ((List.range c.slots.length).foldl
        (fun c i => c.reembedded i chunks filedAtSecs) c).storage.vectors.inputs =
      replaceBatches c.storage.vectors.inputs (c.slots.map (slotBatch chunks filedAtSecs)) := by
  have hsteps : ∀ (l : List Nat) (d : Corpus sub), d.slots = c.slots →
      (l.foldl (fun c i => c.reembedded i chunks filedAtSecs) d).storage.vectors.inputs =
        l.foldl (fun rows i => (c.slots[i]?).elim rows fun slot =>
          replaceBatch rows (slotBatch chunks filedAtSecs slot)) d.storage.vectors.inputs := by
    intro l
    induction l with
    | nil => exact fun _ _ => rfl
    | cons i l ih =>
      intro d h
      rw [List.foldl_cons, ih _ (slots_reembedded.trans h), inputs_reembedded hnodup, h,
        List.foldl_cons]
  rw [hsteps _ c rfl, foldl_range_getElem? fun rows slot =>
    replaceBatch rows (slotBatch chunks filedAtSecs slot), replaceBatches, List.foldl_map]

theorem slots_foldl_reembedded (c : Corpus sub) (l : List Nat) (chunks : List (Chunk sub))
    (filedAtSecs : Int) :
    (l.foldl (fun c i => c.reembedded i chunks filedAtSecs) c).slots = c.slots ∧
      (l.foldl (fun c i => c.reembedded i chunks filedAtSecs) c).estate = c.estate ∧
      (l.foldl (fun c i => c.reembedded i chunks filedAtSecs) c).storage.basis =
        c.storage.basis := by
  induction l generalizing c with
  | nil => exact ⟨rfl, rfl, rfl⟩
  | cons i l ih =>
    obtain ⟨hslots, hestate, hbasis⟩ := ih (c.reembedded i chunks filedAtSecs)
    exact ⟨hslots.trans slots_reembedded, hestate.trans estate_reembedded,
      hbasis.trans basis_reembedded⟩

theorem foldl_retrained_frame (c : Corpus sub) (l : List Nat) (chunks : List (Chunk sub))
    (nowSecs : Int) :
    (l.foldl (fun c i => c.retrained i chunks nowSecs) c).estate = c.estate ∧
      (l.foldl (fun c i => c.retrained i chunks nowSecs) c).storage.vectors =
        c.storage.vectors := by
  induction l generalizing c with
  | nil => exact ⟨rfl, rfl⟩
  | cons i l ih =>
    obtain ⟨hestate, hvectors⟩ := ih (c.retrained i chunks nowSecs)
    exact ⟨hestate.trans estate_retrained, hvectors.trans vectors_retrained⟩

/-- What a reindex makes of slots, bases and vectors. -/
theorem reindexed_spec (c : Corpus sub) (nowSecs : Int) :
    (c.reindexed nowSecs).estate = c.estate ∧
      (c.reindexed nowSecs).slots = c.slots.map (·.retrained c.activeChunks) ∧
      (c.reindexed nowSecs).storage.basis =
        c.storage.basis.putAll (c.slots.filterMap (·.basisRow c.activeChunks nowSecs)) ∧
      (c.reindexed nowSecs).storage.vectors.inputs =
        replaceBatches c.storage.vectors.inputs
          ((c.slots.map (·.retrained c.activeChunks)).map (slotBatch c.activeChunks nowSecs)) := by
  have hslots := slots_foldl_retrained c c.activeChunks nowSecs
  have hbasis := basis_foldl_retrained c c.activeChunks nowSecs
  obtain ⟨hestate, hvectors⟩ := foldl_retrained_frame c (List.range c.slots.length) c.activeChunks
    nowSecs
  unfold reindexed
  dsimp only
  generalize (List.range c.slots.length).foldl
    (fun c' i => c'.retrained i c.activeChunks nowSecs) c = trained at *
  have hlen : c.slots.length = trained.slots.length := by rw [hslots, List.length_map]
  obtain ⟨hslots', hestate', hbasis'⟩ := slots_foldl_reembedded trained
    (List.range c.slots.length) c.activeChunks nowSecs
  rw [estate_persisted, slots_persisted, basis_persisted, vectors_persisted, hestate', hslots',
    hbasis', hlen, inputs_foldl_reembedded (nodup_activeChunks c), hslots, hvectors]
  exact ⟨hestate, rfl, hbasis, rfl⟩

/-- A second reindex at the same time finds the bases and rows that it would make. -/
theorem reindexed_reindexed (c : Corpus sub) (nowSecs : Int) :
    ((c.reindexed nowSecs).reindexed nowSecs).storage.basis = (c.reindexed nowSecs).storage.basis ∧
      ((c.reindexed nowSecs).reindexed nowSecs).storage.vectors.inputs =
        (c.reindexed nowSecs).storage.vectors.inputs := by
  obtain ⟨hestate, hslots, hbasis, hinputs⟩ := reindexed_spec c nowSecs
  obtain ⟨-, -, hbasis', hinputs'⟩ := reindexed_spec (c.reindexed nowSecs) nowSecs
  have hactive : (c.reindexed nowSecs).activeChunks = c.activeChunks := activeChunks_congr hestate
  have hsame : (c.slots.map (·.retrained c.activeChunks)).map (·.retrained c.activeChunks) =
      c.slots.map (·.retrained c.activeChunks) := by
    rw [List.map_map]
    exact List.map_congr_left fun slot _ => slot.retrained_retrained _
  have hrows : (c.slots.map (·.retrained c.activeChunks)).filterMap
      (·.basisRow c.activeChunks nowSecs) =
        c.slots.filterMap (·.basisRow c.activeChunks nowSecs) := by
    rw [List.filterMap_map]
    refine List.filterMap_congr fun slot _ => ?_
    rw [Function.comp_apply, ProviderSlot.basisRow_congr (slot.origin_retrained _)]
  rw [hbasis', hinputs', hactive, hslots, hsame, hrows, hbasis, hinputs]
  refine ⟨KeyedTable.putAll_putAll _ _, replaceBatches_replaceBatches fun batch hbatch x hx => ?_⟩
  obtain ⟨slot, -, rfl⟩ := List.mem_map.mp hbatch
  exact modelId_of_mem_slotRows hx

/-- After a reindex a model's rows are those of the last slot it has. -/
theorem filter_inputs_reindexed (c : Corpus sub) (nowSecs : Int) {i : Nat}
    {slot : ProviderSlot sub} (hslot : c.slots[i]? = some slot)
    (hlast : ∀ (j : Nat) (later : ProviderSlot sub), i < j → c.slots[j]? = some later →
      later.modelId ≠ slot.modelId) :
    (c.reindexed nowSecs).storage.vectors.inputs.filter (fun x => x.modelId = slot.modelId) =
      slotRows (slot.retrained c.activeChunks) nowSecs c.activeChunks := by
  have hbatches : ∀ slots : List (ProviderSlot sub),
      ∀ batch ∈ slots.map (slotBatch c.activeChunks nowSecs), ∀ x ∈ batch.2,
        x.modelId = batch.1 := by
    intro slots batch hbatch x hx
    obtain ⟨slot, -, rfl⟩ := List.mem_map.mp hbatch
    exact modelId_of_mem_slotRows hx
  have hmodel : ∀ slot : ProviderSlot sub,
      (slot.retrained c.activeChunks).modelId = slot.modelId := fun slot =>
    congrArg ModelKey.modelId (slot.key_retrained _)
  obtain ⟨hi, hget⟩ := List.getElem?_eq_some_iff.mp hslot
  have hbatch : ((c.slots.map (·.retrained c.activeChunks)).map
      (slotBatch c.activeChunks nowSecs)) =
        ((c.slots.take i).map (·.retrained c.activeChunks)).map
            (slotBatch c.activeChunks nowSecs) ++
          slotBatch c.activeChunks nowSecs (slot.retrained c.activeChunks) ::
            ((c.slots.drop (i + 1)).map (·.retrained c.activeChunks)).map
              (slotBatch c.activeChunks nowSecs) := by
    have hslots : c.slots = c.slots.take i ++ slot :: c.slots.drop (i + 1) := by
      rw [← hget, List.getElem_cons_drop, List.take_append_drop]
    conv_lhs => rw [hslots]
    rw [List.map_append, List.map_append, List.map_cons, List.map_cons]
  rw [(reindexed_spec c nowSecs).2.2.2, hbatch, ← hmodel]
  refine @filter_replaceBatches c.storage.vectors.inputs _ _
    (slotBatch c.activeChunks nowSecs (slot.retrained c.activeChunks))
    (fun x hx => modelId_of_mem_slotRows hx) ?_ (hbatches _)
  intro later hlater
  rw [List.map_map] at hlater
  obtain ⟨other, hother, rfl⟩ := List.mem_map.mp hlater
  obtain ⟨j, hj⟩ := List.mem_iff_getElem?.mp hother
  rw [List.getElem?_drop] at hj
  have hne := hlast _ other (by omega) hj
  rw [← hmodel, ← hmodel slot] at hne
  exact hne

end Effect

end Corpus

section Reindex

variable {threads : Threads} {nowMillis : Int} {s s' : Session sub}

theorem corpus_of_reindex (h : reindex threads nowMillis s = .ok () s') :
    s'.corpus = s.corpus.reindexed (nowMillis.tdiv 1000) :=
  (does_reindex threads nowMillis).of_ok (steady_reindex threads nowMillis) h

/-- A reindex that comes to its end trains every trainable slot from its untrained basis on the
active chunks and leaves each model with the rows of these chunks under the last of its slots,
whatever the threads. A second one at the same time stores the same bases and the same rows. -/
theorem reindex_canonical (h : reindex threads nowMillis s = .ok () s') :
    (∀ (i : Nat) (slot : ProviderSlot sub), s.corpus.slots[i]? = some slot →
      s'.corpus.slots[i]? = some (slot.retrained s.corpus.activeChunks) ∧
      ((∀ (j : Nat) (later : ProviderSlot sub), i < j → s.corpus.slots[j]? = some later →
          later.modelId ≠ slot.modelId) →
        s'.corpus.storage.vectors.inputs.filter (fun x => x.modelId = slot.modelId) =
          Corpus.slotRows (slot.retrained s.corpus.activeChunks) (nowMillis.tdiv 1000)
            s.corpus.activeChunks)) ∧
    (∀ threads' t t', t.corpus = s.corpus → reindex threads' nowMillis t = .ok () t' →
      t'.corpus = s'.corpus) ∧
    ∀ threads' t t', t.corpus = s'.corpus → reindex threads' nowMillis t = .ok () t' →
      t'.corpus.storage.basis = s'.corpus.storage.basis ∧
        t'.corpus.storage.vectors.inputs = s'.corpus.storage.vectors.inputs := by
  have hcorpus := corpus_of_reindex h
  refine ⟨fun i slot hslot => ⟨?_, fun hlast => ?_⟩, fun threads' t t' ht hrun => ?_,
    fun threads' t t' ht hrun => ?_⟩
  · rw [hcorpus, (Corpus.reindexed_spec _ _).2.1, List.getElem?_map, hslot]
    rfl
  · rw [hcorpus]
    exact Corpus.filter_inputs_reindexed _ _ hslot hlast
  · rw [corpus_of_reindex hrun, ht, hcorpus]
  · rw [corpus_of_reindex hrun, ht, hcorpus]
    exact Corpus.reindexed_reindexed _ _

theorem reindex_canonical_reference :
    let c := (ReferenceCorpus.opened [.trainable (.trained "1") []]).ingested ⟨"a", "s", 0⟩
    ∃ slot s', c.slots[0]? = some slot ∧
      reindex ReferenceCorpus.oneThread 5000 ⟨c, []⟩ = .ok () s' ∧
      s'.corpus.storage.vectors.inputs.filter (fun x => x.modelId = slot.modelId) =
        Corpus.slotRows (slot.retrained c.activeChunks) 5 c.activeChunks := by
  intro c
  have hlen : c.slots.length = 1 := by decide +kernel
  have hslot : c.slots[0]? = some c.slots[0] := List.getElem?_eq_getElem _
  have hlast : ∀ (j : Nat) (later : ProviderSlot referenceCorpus), 0 < j →
      c.slots[j]? = some later → later.modelId ≠ c.slots[0].modelId := by
    intro j later hj hlater
    rw [List.getElem?_eq_none (by omega)] at hlater
    cases hlater
  have hrun := does_reindex ReferenceCorpus.oneThread 5000 c
  exact ⟨c.slots[0], _, hslot, hrun, ((reindex_canonical hrun).1 0 _ hslot).2 hlast⟩

/-- A second reindex gives the vector rows new ids, and of two slots with one model id the second
takes the rows of the first away. -/
theorem reindex_renews_ids_and_shares_models :
    (let c := (ReferenceCorpus.opened [.plain (.fixed "m") []]).ingested ⟨"a", "s", 0⟩
      ∃ s' s'', reindex ReferenceCorpus.oneThread 0 ⟨c, []⟩ = .ok () s' ∧
        reindex ReferenceCorpus.oneThread 0 s' = .ok () s'' ∧
        s''.corpus.storage.vectors.rows ≠ s'.corpus.storage.vectors.rows) ∧
    let c := (ReferenceCorpus.opened [.plain (.fixed "m") [], .plain (.fixed "m") [1]]).ingested
      ⟨"a", "s", 0⟩
    ∃ s', reindex ReferenceCorpus.oneThread 0 ⟨c, []⟩ = .ok () s' ∧
      ∃ slot ∈ c.slots, ∃ row ∈ Corpus.slotRows slot 0 c.activeChunks,
        row ∉ s'.corpus.storage.vectors.inputs := by
  refine ⟨⟨_, _, does_reindex _ _ _, does_reindex _ _ _, by decide +kernel⟩,
    ⟨_, does_reindex _ _ _, by decide +kernel⟩⟩

end Reindex

end MootMemory
