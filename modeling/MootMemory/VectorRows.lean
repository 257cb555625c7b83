import MootMemory.VectorTable

namespace MootMemory

namespace VectorTable

/-- The rows without their own ids. -/
def inputs (table : VectorTable) : List VectorPayloadInput := table.rows.map (·.input)

variable {table : VectorTable} {input x y : VectorPayloadInput} {batch : List VectorPayloadInput}

theorem triples_inputs (table : VectorTable) :
    table.inputs.map (·.key.triple) = table.rows.map (·.triple) := by
  rw [inputs, List.map_map]
  rfl

theorem inputs_unique (hx : x ∈ table.inputs) (hy : y ∈ table.inputs)
    (h : x.key.triple = y.key.triple) : x = y := by
  have hnodup : (table.inputs.map (·.key.triple)).Nodup := by
    rw [triples_inputs]
    exact table.unique
  exact List.inj_on_of_nodup_map hnodup hx hy h

theorem inputs_delete (table : VectorTable) (p : VectorRecordKey → Bool) :
    (table.delete fun row => p row.key).inputs = table.inputs.filter fun x => !p x.key := by
  rw [inputs, inputs, delete, List.filter_map]
  rfl

theorem inputs_upsert (table : VectorTable) (input : VectorPayloadInput) :
    (table.upsert input).inputs =
      table.inputs.filter (fun x => x.key.triple ≠ input.key.triple) ++ [input] := by
  have hdelete := inputs_delete table fun key => decide (key.triple = input.key.triple)
  have hput : (table.upsert input).inputs =
      (table.delete fun row => decide (row.key.triple = input.key.triple)).inputs ++ [input] := by
    rw [inputs, upsert, put, List.map_append]
    rfl
  rw [hput, hdelete]
  congr 1
  refine List.filter_congr fun x _ => ?_
  simp

theorem mem_upsert : x ∈ (table.upsert input).inputs ↔
    x = input ∨ (x ∈ table.inputs ∧ x.key.triple ≠ input.key.triple) := by
  rw [inputs_upsert, List.mem_append, List.mem_filter, List.mem_singleton, or_comm,
    decide_eq_true_eq]

/-- What the batch has nothing for stays. -/
theorem mem_upsertAll_of_mem (h : x ∈ table.inputs)
    (hfree : ∀ b ∈ batch, b.key.triple ≠ x.key.triple) : x ∈ (table.upsertAll batch).inputs := by
  induction batch using List.reverseRecOn with
  | nil => exact h
  | append_singleton batch b ih =>
    rw [upsertAll, List.foldl_append, List.foldl_cons, List.foldl_nil]
    refine mem_upsert.mpr (Or.inr ⟨ih fun b' hb' => hfree b' (List.mem_append_left _ hb'), ?_⟩)
    exact (hfree b (List.mem_append_right _ (List.mem_singleton.mpr rfl))).symm

/-- For every row of a batch the table then has one of the batch in its place. -/
theorem exists_mem_upsertAll (h : x ∈ batch) :
    ∃ y ∈ batch, y.key.triple = x.key.triple ∧ y ∈ (table.upsertAll batch).inputs := by
  induction batch using List.reverseRecOn with
  | nil => exact absurd h List.not_mem_nil
  | append_singleton batch b ih =>
    rw [upsertAll, List.foldl_append, List.foldl_cons, List.foldl_nil]
    by_cases hb : x.key.triple = b.key.triple
    · exact ⟨b, List.mem_append_right _ (List.mem_singleton.mpr rfl), hb.symm,
        mem_upsert.mpr (Or.inl rfl)⟩
    · rcases List.mem_append.mp h with h | h
      · obtain ⟨y, hy, hkey, hmem⟩ := ih h
        refine ⟨y, List.mem_append_left _ hy, hkey, mem_upsert.mpr (Or.inr ⟨hmem, ?_⟩)⟩
        rwa [hkey]
      · exact absurd (congrArg (·.key.triple) (List.mem_singleton.mp h)) hb

theorem upsertAll_append (table : VectorTable) (batch batch' : List VectorPayloadInput) :
    table.upsertAll (batch ++ batch') = (table.upsertAll batch).upsertAll batch' :=
  List.foldl_append

/-- Inserts of rows whose places are free and distinct go well. -/
theorem foldlM_insert (hnodup : (batch.map (·.key.triple)).Nodup)
    (hfree : ∀ b ∈ batch, ∀ x ∈ table.inputs, x.key.triple ≠ b.key.triple) :
    ∃ t, batch.foldlM insert table = some t ∧ t.inputs = table.inputs ++ batch := by
  induction batch generalizing table with
  | nil => exact ⟨table, rfl, (List.append_nil _).symm⟩
  | cons b batch ih =>
    have hplace : ∀ row ∈ table.rows, row.triple ≠ b.key.triple := fun row hrow =>
      hfree b List.mem_cons_self row.input (List.mem_map_of_mem hrow)
    have hput : (table.put b hplace).inputs = table.inputs ++ [b] := by
      rw [inputs, put, List.map_append]
      rfl
    rw [List.map_cons, List.nodup_cons] at hnodup
    obtain ⟨t, hrun, hinputs⟩ := @ih (table.put b hplace) hnodup.2 (by
      intro b' hb' x hx
      rw [hput] at hx
      rcases List.mem_append.mp hx with hx | hx
      · exact hfree b' (List.mem_cons_of_mem _ hb') x hx
      · rw [List.mem_singleton.mp hx]
        intro heq
        exact hnodup.1 (heq ▸ List.mem_map_of_mem hb'))
    refine ⟨t, ?_, by rw [hinputs, hput, List.append_assoc]; rfl⟩
    rw [List.foldlM_cons, insert, dif_pos hplace]
    exact hrun

/-- What inserts leave was there or is inserted. -/
theorem of_mem_foldlM_insert {t : VectorTable} (h : batch.foldlM insert table = some t)
    (hx : x ∈ t.inputs) : x ∈ batch ∨ x ∈ table.inputs := by
  induction batch generalizing table with
  | nil =>
    cases h
    exact Or.inr hx
  | cons b batch ih =>
    rw [List.foldlM_cons, Option.bind_eq_bind, Option.bind_eq_some_iff] at h
    obtain ⟨table', hinsert, hrest⟩ := h
    rcases ih hrest with hmem | hmem
    · exact Or.inl (List.mem_cons_of_mem _ hmem)
    · unfold insert at hinsert
      split at hinsert
      next hplace =>
        cases hinsert
        rw [inputs, put, List.map_append, List.mem_append] at hmem
        rcases hmem with hmem | hmem
        · exact Or.inr hmem
        · rw [List.mem_singleton.mp hmem]
          exact Or.inl List.mem_cons_self
      next => cases hinsert

theorem of_mem_replaceModel {modelId : String} {t : VectorTable}
    (h : table.replaceModel modelId batch = some t) (hx : x ∈ t.inputs) :
    x ∈ batch ∨ x ∈ table.inputs := by
  refine (of_mem_foldlM_insert h hx).imp_right fun hmem => ?_
  have hdelete := inputs_delete table fun key => decide (key.modelId = modelId)
  have hkept : x ∈ (table.delete fun row => decide (row.key.modelId = modelId)).inputs := hmem
  rw [hdelete] at hkept
  exact (List.mem_filter.mp hkept).1

/-- A model's rows give way to the batch, where that has no two rows for one place. -/
theorem replaceModel_eq_some {modelId : String} (hnodup : (batch.map (·.key.triple)).Nodup)
    (hmodel : ∀ b ∈ batch, b.modelId = modelId) :
    ∃ t, table.replaceModel modelId batch = some t ∧
      t.inputs = table.inputs.filter (fun x => x.modelId ≠ modelId) ++ batch := by
  have hdelete := inputs_delete table fun key => decide (key.modelId = modelId)
  have hkept : (table.delete fun row => decide (row.key.modelId = modelId)).inputs =
      table.inputs.filter fun x => x.modelId ≠ modelId := by
    rw [hdelete]
    refine List.filter_congr fun x _ => ?_
    by_cases hx : x.modelId = modelId <;> simp [VectorPayloadInput.key, hx]
  obtain ⟨t, hrun, hinputs⟩ := @foldlM_insert
    (table.delete fun row => decide (row.key.modelId = modelId)) batch hnodup (by
      intro b hb x hx heq
      rw [hkept, List.mem_filter, decide_eq_true_eq] at hx
      have htriple : x.modelId = b.modelId := congrArg (·.2.2) heq
      exact hx.2 (htriple.trans (hmodel b hb)))
  exact ⟨t, hrun, by rw [hinputs, hkept]⟩

end VectorTable

section Batches

/-- A model's rows give way to its batch. -/
def replaceBatch (rows : List VectorPayloadInput) (batch : String × List VectorPayloadInput) :
    List VectorPayloadInput :=
  rows.filter (fun x => x.modelId ≠ batch.1) ++ batch.2

def replaceBatches (rows : List VectorPayloadInput)
    (batches : List (String × List VectorPayloadInput)) : List VectorPayloadInput :=
  batches.foldl replaceBatch rows

variable {rows : List VectorPayloadInput} {batches : List (String × List VectorPayloadInput)}

/-- What was there is only seen in the rows of other models. -/
theorem replaceBatches_eq (rows : List VectorPayloadInput)
    (batches : List (String × List VectorPayloadInput)) :
    replaceBatches rows batches =
      rows.filter (fun x => x.modelId ∉ batches.map (·.1)) ++ replaceBatches [] batches := by
  induction batches using List.reverseRecOn with
  | nil => simp [replaceBatches]
  | append_singleton batches batch ih =>
    have hstep : ∀ rows, replaceBatches rows (batches ++ [batch]) =
        replaceBatch (replaceBatches rows batches) batch := fun rows => by
      rw [replaceBatches, List.foldl_append]
      rfl
    rw [hstep, hstep, ih, replaceBatch, replaceBatch, List.filter_append, List.append_assoc,
      List.filter_filter]
    congr 1
    refine List.filter_congr fun x _ => ?_
    have hmem : x.modelId ∈ (batches ++ [batch]).map (·.1) ↔
        x.modelId ∈ batches.map (·.1) ∨ x.modelId = batch.1 := by
      rw [List.map_append, List.mem_append, List.map_singleton, List.mem_singleton]
    simp only [hmem, not_or, Bool.decide_and, Bool.and_comm]

theorem modelId_mem_of_mem_replaceBatches (h : ∀ batch ∈ batches, ∀ x ∈ batch.2, x.modelId = batch.1)
    {x : VectorPayloadInput} (hx : x ∈ replaceBatches [] batches) :
    x.modelId ∈ batches.map (·.1) := by
  induction batches using List.reverseRecOn with
  | nil => exact absurd hx List.not_mem_nil
  | append_singleton batches batch ih =>
    rw [replaceBatches, List.foldl_append, List.foldl_cons, List.foldl_nil, replaceBatch,
      List.mem_append] at hx
    rw [List.map_append, List.mem_append]
    rcases hx with hx | hx
    · exact Or.inl (ih (fun b hb => h b (List.mem_append_left _ hb)) (List.mem_filter.mp hx).1)
    · refine Or.inr ?_
      rw [h batch (List.mem_append_right _ (List.mem_singleton.mpr rfl)) x hx]
      exact List.mem_singleton.mpr rfl

/-- Batches in place are replaced by themselves. -/
theorem replaceBatches_replaceBatches
    (h : ∀ batch ∈ batches, ∀ x ∈ batch.2, x.modelId = batch.1) :
    replaceBatches (replaceBatches rows batches) batches = replaceBatches rows batches := by
  have hown : (replaceBatches [] batches).filter (fun x => x.modelId ∉ batches.map (·.1)) = [] := by
    rw [List.filter_eq_nil_iff]
    intro x hx
    simpa using modelId_mem_of_mem_replaceBatches h hx
  rw [replaceBatches_eq (replaceBatches rows batches), replaceBatches_eq rows, List.filter_append,
    hown, List.append_nil, List.filter_filter]
  simp

/-- A model's rows are those of the last batch it has. -/
theorem filter_replaceBatches {before after : List (String × List VectorPayloadInput)}
    {batch : String × List VectorPayloadInput} (hown : ∀ x ∈ batch.2, x.modelId = batch.1)
    (hlast : ∀ later ∈ after, later.1 ≠ batch.1)
    (hafter : ∀ later ∈ after, ∀ x ∈ later.2, x.modelId = later.1) :
    (replaceBatches rows (before ++ batch :: after)).filter (fun x => x.modelId = batch.1) =
      batch.2 := by
  induction after using List.reverseRecOn with
  | nil =>
    have hkept : batch.2.filter (fun x => x.modelId = batch.1) = batch.2 :=
      List.filter_eq_self.mpr (by simpa using hown)
    rw [replaceBatches, List.foldl_append, List.foldl_cons, List.foldl_nil, replaceBatch,
      List.filter_append, List.filter_filter, hkept]
    simp
  | append_singleton after later ih =>
    have hmem : later ∈ after ++ [later] := List.mem_append_right _ (List.mem_singleton.mpr rfl)
    have hother : later.2.filter (fun x => x.modelId = batch.1) = [] := by
      rw [List.filter_eq_nil_iff]
      intro x hx
      rw [hafter later hmem x hx]
      simpa using hlast later hmem
    have hprev := ih (fun l hl => hlast l (List.mem_append_left _ hl))
      (fun l hl => hafter l (List.mem_append_left _ hl))
    rw [← List.cons_append, ← List.append_assoc, replaceBatches, List.foldl_append,
      List.foldl_cons, List.foldl_nil, replaceBatch, List.filter_append, hother, List.append_nil,
      List.filter_filter]
    rw [replaceBatches] at hprev
    rw [← hprev]
    refine List.filter_congr fun x _ => ?_
    by_cases hx : x.modelId = batch.1
    · simp [hx, (hlast later hmem).symm]
    · simp [hx]

end Batches

end MootMemory
