import MootMemory.IndexStages

namespace MootMemory

namespace IndexActor

variable {actor : IndexActor}

theorem mirror_purge (itemId : String) :
    (actor.purge itemId).mirror = actor.mirror.map (·.deleteItem itemId) := by
  unfold purge mirror
  rcases hterms : actor.ramTermFreqs with - | termFreqs
  · simp only [hterms]
    rfl
  · rcases hlens : actor.ramDocLengths with - | docLens
    · rfl
    · rfl

theorem mirror_remember (item : IndexedItem) :
    (actor.remember item).mirror = actor.mirror.map fun maps =>
      ⟨maps.termFreqs.replaceAll item.tf, maps.docLens.replace item.docLen⟩ := by
  unfold remember mirror
  rcases hterms : actor.ramTermFreqs with - | termFreqs
  · simp only [hterms]
    rfl
  · rcases hlens : actor.ramDocLengths with - | docLens
    · rfl
    · rfl

theorem purge_frame (itemId : String) :
    (actor.purge itemId).tables = actor.tables ∧ (actor.purge itemId).served = actor.served ∧
      (actor.purge itemId).mutations = actor.mutations := by
  unfold purge
  cases actor.ramTermFreqs with
  | none => exact ⟨rfl, rfl, rfl⟩
  | some termFreqs => exact ⟨rfl, rfl, rfl⟩

theorem remember_frame (item : IndexedItem) :
    (actor.remember item).tables = actor.tables ∧
      (actor.remember item).mutations = actor.mutations := by
  unfold remember
  cases actor.ramTermFreqs with
  | none => exact ⟨rfl, rfl⟩
  | some termFreqs => exact ⟨rfl, rfl⟩

end IndexActor

namespace IndexWorld

/-- No call in progress has changed the tables. -/
def Untouched (running : List RunningTask) : Prop := ∀ r ∈ running, r.wrote = false

/-- What is in memory is what the tables have, but for items that calls in progress have changed, and
these are as far as their calls are; unless a call in progress will have it all let go. -/
def Mirrored (tables maps : PostingTables) (running : List RunningTask) : Prop :=
  (∀ r ∈ running, r.wrote = true → r.task.item? ≠ none) →
    (∀ itemId, (∀ r ∈ running, r.wrote = true → r.task.itemId? ≠ some itemId) →
      tables.SameAt itemId maps) ∧
    ∀ r ∈ running, r.task.Stage tables maps

/-- What is held in memory, and what builds have read, is what the tables have where no call in
progress has changed them. -/
structure Sound (weighting : ImpactWeighting) (actor : IndexActor) (running : List RunningTask) :
    Prop where
  served : Untouched running → ∀ pair ∈ actor.served,
    pair = .ofTables weighting actor.tables pair.parameters
  clean : ∀ r ∈ running, r.task.Clean → r.wrote = false
  began : ∀ r ∈ running, ∀ builtFrom ∈ r.task.builtFrom?, builtFrom ≤ actor.mutations
  read : Untouched running → ∀ r ∈ running, actor.mutations ∈ r.task.builtFrom? →
    r.task.ReadWell actor.tables
  distinct : actor.mirror.isSome → (running.filterMap (·.task.itemId?)).Nodup
  mirrored : ∀ maps ∈ actor.mirror, Mirrored actor.tables maps running

/-- Where nothing fails that changed the tables before, unless nothing is held of what they had;
where no call begins to index an item that another one has begun to index while it is in memory; and
where no build takes so long that the count of mutations wraps around. -/
def Harmless (w : IndexWorld) : IndexEvent → Prop
  | .turn ⟨.deleteTermFreqs (.index item), _⟩ others =>
    w.actor.mirror.isSome → ∀ r ∈ others, r.task.itemId? ≠ some item.itemId
  | .turn ⟨.publish _ builtFrom _, _⟩ _ => w.actor.mutations < builtFrom + 2 ^ 64
  | .fail task others =>
    task.wrote = true → w.actor.served = none ∧ w.actor.mirror = none ∧
      ∀ r ∈ others, w.actor.mutations ∉ r.task.builtFrom?
  | _ => True

variable {weighting : ImpactWeighting} {actor : IndexActor} {r : RunningTask}
  {rest running : List RunningTask} {tables maps : PostingTables}

theorem Mirrored.perm (h : Mirrored tables maps running) {running' : List RunningTask}
    (hperm : running.Perm running') : Mirrored tables maps running' := by
  unfold Mirrored at h ⊢
  simp only [hperm.mem_iff] at h
  exact h

theorem Sound.perm (h : Sound weighting actor running) {running' : List RunningTask}
    (hperm : running.Perm running') : Sound weighting actor running' := by
  have huntouched : Untouched running' → Untouched running := fun hrest r hr =>
    hrest r (hperm.mem_iff.mp hr)
  exact
    { served := fun hrest => h.served (huntouched hrest)
      clean := fun r hr => h.clean r (hperm.mem_iff.mpr hr)
      began := fun r hr => h.began r (hperm.mem_iff.mpr hr)
      read := fun hrest r hr => h.read (huntouched hrest) r (hperm.mem_iff.mpr hr)
      distinct := fun hlive => (hperm.filterMap _).nodup_iff.mp (h.distinct hlive)
      mirrored := fun maps hmaps => (h.mirrored maps hmaps).perm hperm }

theorem mirror_opened (hint : ResidencyHint) (tables : PostingTables) :
    ∀ maps ∈ (IndexActor.opened hint tables).mirror, maps = tables := by
  intro maps hmaps
  cases hint with
  | diskBacked => cases hmaps
  | ramResident =>
    cases hmaps
    rfl

theorem tables_opened (hint : ResidencyHint) (tables : PostingTables) :
    (IndexActor.opened hint tables).tables = tables := by
  cases hint with
  | diskBacked => rfl
  | ramResident => rfl

theorem sound_opened (hint : ResidencyHint) (tables : PostingTables) :
    Sound weighting (.opened hint tables) [] where
  served _ pair hpair := by cases hint <;> cases hpair
  clean _ h := absurd h List.not_mem_nil
  began _ h := absurd h List.not_mem_nil
  read _ _ h := absurd h List.not_mem_nil
  distinct _ := List.nodup_nil
  mirrored maps hmaps _ := by
    rw [mirror_opened hint tables maps hmaps, tables_opened]
    exact ⟨fun _ _ => .refl, fun _ h => absurd h List.not_mem_nil⟩

section Calls

/-- A call that is made is at its first step. -/
theorem Sound.call (h : Sound weighting actor running) (call : IndexActorCall) :
    Sound weighting actor (⟨.ofCall call, false⟩ :: running) where
  served hrest := h.served fun r hr => hrest r (List.mem_cons_of_mem _ hr)
  clean r hr hclean := by
    rcases List.mem_cons.mp hr with rfl | hr
    · rfl
    · exact h.clean r hr hclean
  began r hr builtFrom hbuilt := by
    rcases List.mem_cons.mp hr with rfl | hr
    · cases call <;> cases hbuilt
    · exact h.began r hr builtFrom hbuilt
  read hrest r hr hbuilt := by
    rcases List.mem_cons.mp hr with rfl | hr
    · cases call <;> cases hbuilt
    · exact h.read (fun r hr => hrest r (List.mem_cons_of_mem _ hr)) r hr hbuilt
  distinct hlive := by
    have hdistinct := h.distinct hlive
    cases call <;> exact hdistinct
  mirrored maps hmaps hforgets := by
    obtain ⟨hsame, hstage⟩ := h.mirrored maps hmaps fun r hr =>
      hforgets r (List.mem_cons_of_mem _ hr)
    refine ⟨fun itemId hitem => hsame itemId fun r hr => hitem r (List.mem_cons_of_mem _ hr), ?_⟩
    intro r hr
    rcases List.mem_cons.mp hr with rfl | hr
    · cases call <;> trivial
    · exact hstage r hr

/-- A call that fails is gone. -/
theorem Sound.fail (h : Sound weighting actor (r :: rest))
    (hharmless : Harmless ⟨actor, r :: rest⟩ (.fail r rest)) : Sound weighting actor rest := by
  have hall : ∀ {P : RunningTask → Prop}, (∀ r' ∈ r :: rest, P r') → ∀ r' ∈ rest, P r' :=
    fun h r' hr' => h r' (List.mem_cons_of_mem _ hr')
  have huntouched : r.wrote = false → Untouched rest → Untouched (r :: rest) := fun hr hrest =>
    List.forall_mem_cons.mpr ⟨hr, hrest⟩
  refine ⟨fun hrest pair hpair => ?_, hall h.clean, hall h.began, fun hrest r' hr' hbuilt => ?_,
    fun hlive => ?_, fun maps hmaps hforgets => ?_⟩
  · cases hwrote : r.wrote with
    | false => exact h.served (huntouched hwrote hrest) pair hpair
    | true =>
      rw [(hharmless hwrote).1] at hpair
      cases hpair
  · cases hwrote : r.wrote with
    | false =>
      exact h.read (huntouched hwrote hrest) r' (List.mem_cons_of_mem _ hr') hbuilt
    | true => exact absurd hbuilt ((hharmless hwrote).2.2 r' hr')
  · exact (h.distinct hlive).sublist ((List.sublist_cons_self _ _).filterMap _)
  · cases hwrote : r.wrote with
    | false =>
      have hnone : ∀ P : Prop, r.wrote = true → P := fun _ htrue =>
        absurd (htrue.symm.trans hwrote) (by decide)
      obtain ⟨hsame, hstage⟩ := h.mirrored maps hmaps
        (List.forall_mem_cons.mpr ⟨hnone _, hforgets⟩)
      exact ⟨fun itemId hitem => hsame itemId (List.forall_mem_cons.mpr ⟨hnone _, hitem⟩),
        hall hstage⟩
    | true =>
      rw [(hharmless hwrote).2.1] at hmaps
      cases hmaps

end Calls

section Turns

variable {item : IndexedItem} {task : IndexTask} {maps' : PostingTables} {actor' : IndexActor}

theorem Sound.others (h : Sound weighting actor (r :: rest)) (hlive : actor.mirror.isSome)
    (hitem : r.task.item? = some item) : ∀ r' ∈ rest, r'.task.itemId? ≠ some item.itemId := by
  have hid : r.task.itemId? = some item.itemId := by rw [IndexTask.itemId?, hitem]; rfl
  have hdistinct := h.distinct hlive
  simp only [List.filterMap_cons, hid, List.nodup_cons] at hdistinct
  intro r' hr' hid'
  exact hdistinct.1 (List.mem_filterMap.mpr ⟨r', hr', hid'⟩)

/-- Before a call that indexes an item is at its end, what is in memory need only be right for the
other items. -/
theorem Mirrored.ofItem (h : Mirrored tables maps (r :: rest)) (hitem : r.task.item? = some item)
    (hothers : ∀ r' ∈ rest, r'.task.itemId? ≠ some item.itemId)
    (hsame : ∀ itemId, itemId ≠ item.itemId → maps.SameAt itemId maps')
    (hown : r.task.Stage tables maps → tables.SameAt item.itemId maps') :
    Mirrored tables maps' rest := by
  intro hforgets
  have hindexes : r.wrote = true → r.task.item? ≠ none := fun _ => by
    rw [hitem]
    exact Option.some_ne_none item
  obtain ⟨hagree, hstage⟩ := h (List.forall_mem_cons.mpr ⟨hindexes, hforgets⟩)
  have hid : r.task.itemId? = some item.itemId := by rw [IndexTask.itemId?, hitem]; rfl
  refine ⟨fun itemId hfree => ?_, fun r' hr' => ?_⟩
  · by_cases heq : itemId = item.itemId
    · rw [heq]
      exact hown (hstage r List.mem_cons_self)
    · refine (hagree itemId (List.forall_mem_cons.mpr ⟨fun _ h => heq ?_, hfree⟩)).trans
        (hsame itemId heq)
      rw [hid] at h
      exact (Option.some.inj h).symm
  · refine (hstage r' (List.mem_cons_of_mem _ hr')).same fun itemId hitemId =>
      ⟨.refl, hsame itemId fun heq => hothers r' hr' ?_⟩
    rw [← heq]
    exact hitemId

/-- A task changes the tables, for its item or for what is let go later, and goes on. Its item is the
one it wrote for before, and no other task has begun to index it. -/
theorem Sound.writeFor (h : Sound weighting actor (r :: rest)) {tables' : PostingTables}
    (hkeeps : r.wrote = true → task.item? = r.task.item?)
    (hothers : actor.mirror.isSome → ∀ item ∈ task.item?, ∀ r' ∈ rest,
      r'.task.itemId? ≠ some item.itemId)
    (hclean : ¬task.Clean) (hbuilt : task.builtFrom? = none)
    (hsame : ∀ item ∈ task.item?, ∀ maps, r.task.Stage actor.tables maps →
      ∀ itemId, itemId ≠ item.itemId → actor.tables.SameAt itemId tables')
    (hstage : ∀ maps, r.task.Stage actor.tables maps → task.Stage tables' maps) :
    Sound weighting { actor with tables := tables' }
      (⟨task, r.wrote || decide (tables' ≠ actor.tables)⟩ :: rest) := by
  have hunwritten : (r.wrote || decide (tables' ≠ actor.tables)) = false →
      r.wrote = false ∧ tables' = actor.tables := fun hnone => by
    rw [Bool.or_eq_false_iff, decide_eq_false_iff_not, not_not] at hnone
    exact hnone
  have huntouched : Untouched (⟨task, r.wrote || decide (tables' ≠ actor.tables)⟩ :: rest) →
      Untouched (r :: rest) ∧ tables' = actor.tables := fun hall => by
    obtain ⟨hhead, hrest⟩ := List.forall_mem_cons.mp hall
    exact ⟨List.forall_mem_cons.mpr ⟨(hunwritten hhead).1, hrest⟩, (hunwritten hhead).2⟩
  have hdistinctRest : actor.mirror.isSome → (rest.filterMap (·.task.itemId?)).Nodup := fun hlive =>
    (h.distinct hlive).sublist ((List.sublist_cons_self _ _).filterMap _)
  refine
    { served := fun hall => ?_
      clean := List.forall_mem_cons.mpr ⟨fun h => absurd h hclean, fun r' hr' =>
        h.clean r' (List.mem_cons_of_mem _ hr')⟩
      began := List.forall_mem_cons.mpr ⟨fun b hb => ?_, fun r' hr' =>
        h.began r' (List.mem_cons_of_mem _ hr')⟩
      read := fun hall => List.forall_mem_cons.mpr ⟨fun hb => ?_, fun r' hr' hb => ?_⟩
      distinct := fun hlive => ?_
      mirrored := fun maps hmaps hforgets => ?_ }
  · obtain ⟨hbefore, rfl⟩ := huntouched hall
    exact h.served hbefore
  · rw [hbuilt] at hb
    cases hb
  · rw [hbuilt] at hb
    cases hb
  · obtain ⟨hbefore, rfl⟩ := huntouched hall
    exact h.read hbefore r' (List.mem_cons_of_mem _ hr') hb
  · cases hitem : task.item? with
    | none =>
      have hid : task.itemId? = none := by rw [IndexTask.itemId?, hitem]; rfl
      simp only [List.filterMap_cons, hid]
      exact hdistinctRest hlive
    | some item =>
      have hid : task.itemId? = some item.itemId := by rw [IndexTask.itemId?, hitem]; rfl
      simp only [List.filterMap_cons, hid]
      refine List.nodup_cons.mpr ⟨fun hmem => ?_, hdistinctRest hlive⟩
      obtain ⟨r', hr', hitem'⟩ := List.mem_filterMap.mp hmem
      exact hothers hlive item hitem r' hr' hitem'
  · obtain ⟨hforgets, hforgetsRest⟩ := List.forall_mem_cons.mp hforgets
    have hmirrored := h.mirrored maps hmaps
    by_cases hnone : task.item? = none
    · -- A call that will have the maps let go has changed nothing yet.
      have hfalse : (r.wrote || decide (tables' ≠ actor.tables)) = false :=
        Bool.eq_false_iff.mpr fun htrue => hforgets htrue hnone
      obtain ⟨hwrote, rfl⟩ := hunwritten hfalse
      have hhead : r.wrote = true → ∀ P : Prop, P := fun htrue =>
        absurd (htrue.symm.trans hwrote) (by decide)
      obtain ⟨hagree, hstages⟩ := hmirrored (List.forall_mem_cons.mpr
        ⟨fun htrue => hhead htrue _, hforgetsRest⟩)
      obtain ⟨-, hstagesRest⟩ := List.forall_mem_cons.mp hstages
      refine ⟨fun itemId hfree => hagree itemId (List.forall_mem_cons.mpr
        ⟨fun htrue => hhead htrue _, (List.forall_mem_cons.mp hfree).2⟩), ?_⟩
      exact List.forall_mem_cons.mpr ⟨IndexTask.stage_of_item?_eq_none hnone, hstagesRest⟩
    · obtain ⟨item, hsome⟩ := Option.ne_none_iff_exists'.mp hnone
      obtain ⟨hagree, hstages⟩ := hmirrored (List.forall_mem_cons.mpr
        ⟨fun htrue => hkeeps htrue ▸ hnone, hforgetsRest⟩)
      obtain ⟨hstageHead, hstagesRest⟩ := List.forall_mem_cons.mp hstages
      have hmaps' : maps ∈ actor.mirror := hmaps
      have hothers := hothers (by rw [hmaps']; rfl) item hsome
      have hid : task.itemId? = some item.itemId := by rw [IndexTask.itemId?, hsome]; rfl
      have hrid : r.wrote = true → r.task.itemId? = some item.itemId := fun htrue => by
        rw [IndexTask.itemId?, ← hkeeps htrue, hsome]
        rfl
      refine ⟨fun itemId hfree => ?_, List.forall_mem_cons.mpr ⟨hstage maps hstageHead, ?_⟩⟩
      · obtain ⟨hfreeHead, hfreeRest⟩ := List.forall_mem_cons.mp hfree
        by_cases heq : itemId = item.itemId
        · have hfalse : (r.wrote || decide (tables' ≠ actor.tables)) = false :=
            Bool.eq_false_iff.mpr fun htrue => hfreeHead htrue (by rw [hid, heq])
          obtain ⟨hwrote, rfl⟩ := hunwritten hfalse
          exact hagree itemId (List.forall_mem_cons.mpr
            ⟨fun htrue => absurd (htrue.symm.trans hwrote) (by decide), hfreeRest⟩)
        · refine (hsame item hsome maps hstageHead itemId heq).symm.trans (hagree itemId
            (List.forall_mem_cons.mpr ⟨fun htrue h => heq ?_, hfreeRest⟩))
          rw [hrid htrue] at h
          exact (Option.some.inj h).symm
      · intro r' hr'
        refine (hstagesRest r' hr').same fun itemId hitemId =>
          ⟨hsame item hsome maps hstageHead itemId fun heq => hothers r' hr' ?_, .refl⟩
        rw [← heq]
        exact hitemId

/-- A task that has begun goes on for its item. -/
theorem Sound.write (h : Sound weighting actor (r :: rest)) {tables' : PostingTables}
    (hitem : task.item? = r.task.item?) (hclean : ¬task.Clean) (hbuilt : task.builtFrom? = none)
    (hsame : ∀ item ∈ r.task.item?, ∀ maps, r.task.Stage actor.tables maps →
      ∀ itemId, itemId ≠ item.itemId → actor.tables.SameAt itemId tables')
    (hstage : ∀ maps, r.task.Stage actor.tables maps → task.Stage tables' maps) :
    Sound weighting { actor with tables := tables' }
      (⟨task, r.wrote || decide (tables' ≠ actor.tables)⟩ :: rest) :=
  h.writeFor (fun _ => hitem) (fun hlive _ hsome => h.others hlive (hitem ▸ hsome)) hclean hbuilt
    (hitem ▸ hsame) hstage

/-- A task ends that marks the index dirty. -/
theorem Sound.mark (h : Sound weighting actor (r :: rest)) (htables : actor'.tables = actor.tables)
    (hserved : actor'.served = none) (hmutations : actor'.mutations = actor.mutations + 1)
    (hlive : actor'.mirror.isSome → actor.mirror.isSome)
    (hmirrored : ∀ maps ∈ actor'.mirror, Mirrored actor.tables maps rest) :
    Sound weighting actor' rest where
  served _ pair hpair := by
    rw [hserved] at hpair
    cases hpair
  clean r' hr' := h.clean r' (List.mem_cons_of_mem _ hr')
  began r' hr' builtFrom hbuilt := by
    have hle := h.began r' (List.mem_cons_of_mem _ hr') builtFrom hbuilt
    omega
  read _ r' hr' hbuilt := by
    have hle := h.began r' (List.mem_cons_of_mem _ hr') _ hbuilt
    omega
  distinct hlive' :=
    (h.distinct (hlive hlive')).sublist ((List.sublist_cons_self _ _).filterMap _)
  mirrored maps hmaps := by
    rw [htables]
    exact hmirrored maps hmaps

theorem item?_of_clean (h : task.Clean) : task.item? = none := by
  cases task with
  | deleteTermFreqs deletion => rfl
  | buildIndex parameters => rfl
  | loadTermFreqs parameters builtFrom => rfl
  | loadDocLengths parameters builtFrom termFreqs => rfl
  | publish parameters builtFrom loaded => rfl
  | _ => cases h

theorem itemId?_of_clean (h : task.Clean) : task.itemId? = none := by
  rw [IndexTask.itemId?, item?_of_clean h]
  rfl

/-- A build ends. -/
theorem Sound.done (h : Sound weighting actor (r :: rest)) (hclean : r.task.Clean) :
    Sound weighting actor rest := by
  have hwrote := h.clean r List.mem_cons_self hclean
  refine h.fail fun htrue => ?_
  rw [hwrote] at htrue
  cases htrue

/-- A build goes on, and what it has read is right if nothing was written since it began. -/
theorem Sound.goesOn (h : Sound weighting actor rest) {builtFrom : Nat} (hclean : task.Clean)
    (hbuilt : task.builtFrom? = some builtFrom) (hbegan : builtFrom ≤ actor.mutations)
    (hread : Untouched rest → builtFrom = actor.mutations → task.ReadWell actor.tables) :
    Sound weighting actor (⟨task, false⟩ :: rest) where
  served hall := h.served (List.forall_mem_cons.mp hall).2
  clean := List.forall_mem_cons.mpr ⟨fun _ => rfl, h.clean⟩
  began := by
    refine List.forall_mem_cons.mpr ⟨fun b hb => ?_, h.began⟩
    rw [hbuilt] at hb
    exact Option.some.inj hb ▸ hbegan
  read hall := by
    obtain ⟨-, hrest⟩ := List.forall_mem_cons.mp hall
    refine List.forall_mem_cons.mpr ⟨fun hb => hread hrest ?_, h.read hrest⟩
    rw [hbuilt] at hb
    exact Option.some.inj hb
  distinct hlive := by
    simp only [List.filterMap_cons, itemId?_of_clean hclean]
    exact h.distinct hlive
  mirrored maps hmaps hforgets := by
    obtain ⟨hagree, hstage⟩ := h.mirrored maps hmaps (List.forall_mem_cons.mp hforgets).2
    exact ⟨fun itemId hfree => hagree itemId (List.forall_mem_cons.mp hfree).2,
      List.forall_mem_cons.mpr ⟨IndexTask.stage_of_item?_eq_none (item?_of_clean hclean), hstage⟩⟩

/-- A pair of the tables as they are is cached. -/
theorem Sound.cache (h : Sound weighting actor rest) {pair : CachedIndex}
    (hpair : Untouched rest → pair = .ofTables weighting actor.tables pair.parameters) :
    Sound weighting (actor.cache pair) rest where
  served hall pair' hpair' := by
    cases hpair'
    exact hpair hall
  clean := h.clean
  began := h.began
  read := h.read
  distinct := h.distinct
  mirrored := h.mirrored

end Turns

end IndexWorld

end MootMemory
