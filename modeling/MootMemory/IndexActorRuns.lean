import MootMemory.IndexActorSound

namespace MootMemory

namespace PostingTables

variable {tables maps : PostingTables} {item : IndexedItem}

theorem HasAt.putTermFreq {put : List TermFreq} {lens : List DocLen} {row : TermFreq}
    (h : tables.HasAt row.itemId put lens) (hkey : ∀ a ∈ put, a.key = row.key → a = row) :
    HasAt row.itemId { tables with termFreqs := tables.termFreqs.replace row } (put ++ [row])
      lens := by
  refine ⟨fun a ha => ?_, h.2⟩
  rw [RowSet.mem_replace, h.1 a ha, List.mem_append, List.mem_singleton]
  constructor
  · rintro (rfl | ⟨hmem, -⟩)
    · exact Or.inr rfl
    · exact Or.inl hmem
  · rintro (hmem | rfl)
    · by_cases heq : a.key = row.key
      · exact Or.inl (hkey a hmem heq)
      · exact Or.inr ⟨hmem, heq⟩
    · exact Or.inl rfl

theorem HasAt.putDocLen {tf : List TermFreq} {row : DocLen} (h : tables.HasAt row.itemId tf []) :
    HasAt row.itemId { tables with docLens := tables.docLens.replace row } tf [row] := by
  refine ⟨h.1, fun a ha => ?_⟩
  rw [RowSet.mem_replace, List.mem_singleton]
  exact or_iff_left fun hold => hold.2 ha

theorem HasAt.remember (h : maps.HasAt item.itemId [] []) :
    HasAt item.itemId ⟨maps.termFreqs.replaceAll item.tf, maps.docLens.replace item.docLen⟩ item.tf
      [item.docLen] := by
  refine ⟨fun a ha => ?_, (@HasAt.putDocLen maps [] item.docLen h).2⟩
  rw [RowSet.mem_replaceAll fun a ha b hb => item.key_inj_of_mem_tf ha hb]
  exact or_iff_left fun hold => absurd ((h.1 a ha).mp hold.1) List.not_mem_nil

theorem sameAt_remember {itemId : String} (h : itemId ≠ item.itemId) :
    SameAt itemId maps
      ⟨maps.termFreqs.replaceAll item.tf, maps.docLens.replace item.docLen⟩ := by
  have hterms : SameAt itemId maps { maps with termFreqs := maps.termFreqs.replaceAll item.tf } := by
    refine ⟨fun a ha => ?_, fun _ _ => Iff.rfl⟩
    rw [RowSet.mem_replaceAll fun a ha b hb => item.key_inj_of_mem_tf ha hb]
    have hitem : ∀ b ∈ item.tf, b.itemId ≠ a.itemId := fun b hb heq => by
      rw [item.itemId_of_mem_tf hb, ha] at heq
      exact h heq.symm
    constructor
    · exact fun hmem => Or.inr ⟨hmem, fun b hb hkey => hitem b hb (congrArg Prod.snd hkey)⟩
    · rintro (hmem | ⟨hmem, -⟩)
      · exact absurd rfl (hitem a hmem)
      · exact hmem
  exact hterms.trans (sameAt_putDocLen h)

end PostingTables

namespace IndexWorld

variable {weighting : ImpactWeighting} {actor : IndexActor} {r : RunningTask}
  {rest : List RunningTask} {item : IndexedItem} {wrote : Bool}

/-- Where nothing in progress has changed the tables, what is in memory is what they have. -/
theorem Sound.maps_eq (h : Sound weighting actor rest) (hall : Untouched rest)
    {maps : PostingTables} (hmaps : maps ∈ actor.mirror) : maps = actor.tables := by
  have hnone : ∀ r ∈ rest, ∀ P : Prop, r.wrote = true → P := fun r hr _ htrue =>
    absurd (htrue.symm.trans (hall r hr)) (by decide)
  obtain ⟨hagree, -⟩ := h.mirrored maps hmaps fun r hr => hnone r hr _
  refine (PostingTables.eq_of_sameAt fun itemId => ?_).symm
  exact hagree itemId fun r hr => hnone r hr _

/-- Before the count wraps around, the generation tells what number of mutations there had been. -/
theorem eq_of_dirtyGeneration {builtFrom : Nat} (hle : builtFrom ≤ actor.mutations)
    (hlt : actor.mutations < builtFrom + 2 ^ 64)
    (h : actor.dirtyGeneration = UInt64.ofNat builtFrom) : builtFrom = actor.mutations := by
  have hmod : actor.mutations % 2 ^ 64 = builtFrom % 2 ^ 64 := by
    have hnat := congrArg UInt64.toNat h
    rwa [IndexActor.dirtyGeneration, UInt64.toNat_ofNat', UInt64.toNat_ofNat'] at hnat
  omega

/-- An item's old entries are taken out of memory, and its frequencies are put. -/
theorem Sound.purge (h : Sound weighting actor (⟨.deleted (.index item), wrote⟩ :: rest)) :
    (∀ maps ∈ (actor.purge item.itemId).mirror, Mirrored actor.tables maps rest) ∧
      Sound weighting (actor.purge item.itemId)
        (⟨.putTermFreqs item item.tf, wrote⟩ :: rest) := by
  obtain ⟨htables, hserved, hmutations⟩ := @IndexActor.purge_frame actor item.itemId
  have hmirror := @IndexActor.mirror_purge actor item.itemId
  have hlive : (actor.purge item.itemId).mirror.isSome → actor.mirror.isSome := fun hlive => by
    rwa [hmirror, Option.isSome_map] at hlive
  have hitem := @IndexTask.item?_putTermFreqs item item.tf
  have hid : (IndexTask.putTermFreqs item item.tf).itemId? = some item.itemId := by
    rw [IndexTask.itemId?, hitem]
    rfl
  have hclean : ¬(IndexTask.putTermFreqs item item.tf).Clean := fun hclean => by
    rw [item?_of_clean hclean] at hitem
    cases hitem
  have hbuilt : (IndexTask.putTermFreqs item item.tf).builtFrom? = none := by
    cases item.tf <;> rfl
  have huntouched : Untouched (⟨.putTermFreqs item item.tf, wrote⟩ :: rest) →
      Untouched (⟨.deleted (.index item), wrote⟩ :: rest) := fun hall =>
    List.forall_mem_cons.mpr (List.forall_mem_cons.mp hall)
  have hmaps' : ∀ maps' ∈ (actor.purge item.itemId).mirror, ∃ maps ∈ actor.mirror,
      maps' = maps.deleteItem item.itemId := fun maps' hmaps' => by
    rw [hmirror] at hmaps'
    obtain ⟨maps, hmaps, rfl⟩ := Option.map_eq_some_iff.mp hmaps'
    exact ⟨maps, hmaps, rfl⟩
  have hrest : ∀ maps' ∈ (actor.purge item.itemId).mirror, Mirrored actor.tables maps' rest := by
    intro maps' hmem
    obtain ⟨maps, hmaps, rfl⟩ := hmaps' maps' hmem
    refine (h.mirrored maps hmaps).ofItem rfl (h.others (by rw [hmaps]; rfl) rfl)
      (fun itemId hne => PostingTables.sameAt_deleteItem hne) fun hstage => ?_
    exact PostingTables.HasAt.sameAt hstage (PostingTables.hasAt_deleteItem _ _)
  refine ⟨hrest, ?_⟩
  exact
    { served := fun hall pair hpair => by
        rw [hserved] at hpair
        rw [htables]
        exact h.served (huntouched hall) pair hpair
      clean := List.forall_mem_cons.mpr ⟨fun hr => absurd hr hclean, fun r hr =>
        h.clean r (List.mem_cons_of_mem _ hr)⟩
      began := by
        rw [hmutations]
        refine List.forall_mem_cons.mpr ⟨fun b hb => ?_, fun r hr =>
          h.began r (List.mem_cons_of_mem _ hr)⟩
        rw [hbuilt] at hb
        cases hb
      read := fun hall => by
        rw [hmutations, htables]
        refine List.forall_mem_cons.mpr ⟨fun hb => ?_, fun r hr =>
          h.read (huntouched hall) r (List.mem_cons_of_mem _ hr)⟩
        rw [hbuilt] at hb
        cases hb
      distinct := fun hlive' => by
        have hdistinct := h.distinct (hlive hlive')
        simp only [List.filterMap_cons, hid] at hdistinct ⊢
        exact hdistinct
      mirrored := fun maps' hmem hforgets => by
        obtain ⟨-, hforgetsRest⟩ := List.forall_mem_cons.mp hforgets
        rw [htables]
        obtain ⟨hagree, hstages⟩ := hrest maps' hmem hforgetsRest
        obtain ⟨maps, hmaps, rfl⟩ := hmaps' maps' hmem
        obtain ⟨-, hstages'⟩ := h.mirrored maps hmaps (List.forall_mem_cons.mpr
          ⟨fun _ hnone => Option.some_ne_none item hnone, hforgetsRest⟩)
        refine ⟨fun itemId hfree => hagree itemId (List.forall_mem_cons.mp hfree).2,
          List.forall_mem_cons.mpr ⟨?_, hstages⟩⟩
        exact IndexTask.stage_putTermFreqs.mpr ⟨[], rfl, (List.forall_mem_cons.mp hstages').1,
          PostingTables.hasAt_deleteItem _ _⟩ }

/-- Each step keeps what is held right. -/
theorem Sound.turn {w : IndexWorld} (h : Sound weighting w.actor (r :: rest))
    (hharmless : w.Harmless (.turn r rest)) :
    Sound weighting (after weighting w (.turn r rest)).actor
      (after weighting w (.turn r rest)).running := by
  obtain ⟨actor, running⟩ := w
  replace h : Sound weighting actor (r :: rest) := h
  have hgone : ∀ {item : IndexedItem} {itemId : String}, itemId ≠ item.itemId →
      itemId ≠ item.docLen.itemId := fun h => h
  obtain ⟨task, wrote⟩ := r
  cases task with
  | deleteTermFreqs deletion =>
    cases deletion with
    | index item =>
      obtain rfl : wrote = false := h.clean _ List.mem_cons_self trivial
      refine h.writeFor (fun hwrote => by cases hwrote) (fun hlive _ hitem => ?_) id rfl
        (fun _ hitem maps hstage itemId hne => ?_) fun maps _ row hrow hitem => ?_
      · cases hitem
        exact hharmless hlive
      · cases hitem
        exact PostingTables.sameAt_deleteTermFreqs hne
      · exact absurd (RowSet.mem_deleteWhere.mp hrow).2 (by simp [Deletion.covers, hitem])
    | remove itemId => exact h.write rfl id rfl (fun _ hitem => nomatch hitem) fun _ _ => trivial
    | deleteAll => exact h.write rfl id rfl (fun _ hitem => nomatch hitem) fun _ _ => trivial
  | deleteDocLens deletion =>
    cases deletion with
    | index item =>
      refine h.write rfl id rfl (fun _ hitem maps hstage itemId hne => ?_) fun maps hstage =>
        ⟨fun row hrow => ?_, fun row hrow => ?_⟩
      · cases hitem
        exact PostingTables.sameAt_deleteDocLens hne
      · exact ⟨fun hmem => absurd hrow (hstage row hmem), fun hmem => absurd hmem List.not_mem_nil⟩
      · refine ⟨fun hmem => ?_, fun hmem => absurd hmem List.not_mem_nil⟩
        exact absurd (RowSet.mem_deleteWhere.mp hmem).2 (by simp [Deletion.covers, hrow])
    | remove itemId => exact h.write rfl id rfl (fun _ hitem => nomatch hitem) fun _ _ => trivial
    | deleteAll => exact h.write rfl id rfl (fun _ hitem => nomatch hitem) fun _ _ => trivial
  | deleted deletion =>
    cases deletion with
    | index item =>
      obtain ⟨hmirrored, hgoesOn⟩ := h.purge
      obtain ⟨htables, hserved, hmutations⟩ := @IndexActor.purge_frame actor item.itemId
      have hmirror := @IndexActor.mirror_purge actor item.itemId
      by_cases htokens : item.tokens = []
      · simp only [after, IndexActor.turn, if_pos htokens]
        refine h.mark htables rfl (congrArg (· + 1) hmutations) (fun hlive => ?_) hmirrored
        have hlive' : (actor.purge item.itemId).mirror.isSome := hlive
        rwa [hmirror, Option.isSome_map] at hlive'
      · simp only [after, IndexActor.turn, if_neg htokens, htables, ne_eq, not_true_eq_false,
          decide_false, Bool.or_false]
        exact hgoesOn
    | remove itemId => exact h.mark rfl rfl rfl (fun hlive => nomatch hlive) fun _ hmaps => nomatch hmaps
    | deleteAll => exact h.mark rfl rfl rfl (fun hlive => nomatch hlive) fun _ hmaps => nomatch hmaps
  | putTermFreq item row rows =>
    refine h.write IndexTask.item?_putTermFreqs (fun hclean => ?_) (by cases rows <;> rfl)
      (fun _ hitem maps hstage itemId hne => ?_) fun maps hstage => IndexTask.stage_putTermFreqs.mpr ?_
    · have hitem := @IndexTask.item?_putTermFreqs item rows
      rw [item?_of_clean hclean] at hitem
      cases hitem
    · cases hitem
      obtain ⟨put, hput, -, -⟩ := hstage
      have hrow : row ∈ item.tf := by rw [hput]; simp
      exact PostingTables.sameAt_putTermFreq (item.itemId_of_mem_tf hrow ▸ hne)
    · obtain ⟨put, hput, htables, hmaps⟩ := hstage
      have hrow : row ∈ item.tf := by rw [hput]; simp
      have hitem := item.itemId_of_mem_tf hrow
      refine ⟨put ++ [row], by rw [hput, List.append_assoc]; rfl, ?_, hmaps⟩
      rw [← hitem] at htables ⊢
      refine htables.putTermFreq fun a ha hkey => item.key_inj_of_mem_tf ?_ hrow hkey
      rw [hput]
      exact List.mem_append_left _ ha
  | putDocLen item =>
    refine h.write rfl id rfl (fun _ hitem maps hstage itemId hne => ?_) fun maps hstage => ?_
    · cases hitem
      exact PostingTables.sameAt_putDocLen (hgone hne)
    · obtain ⟨put, hput, htables, hmaps⟩ := hstage
      rw [List.append_nil] at hput
      rw [← hput] at htables
      exact ⟨@PostingTables.HasAt.putDocLen _ _ item.docLen htables, hmaps⟩
  | indexed item =>
    obtain ⟨htables, hmutations⟩ := @IndexActor.remember_frame actor item
    have hmirror := @IndexActor.mirror_remember actor item
    refine h.mark htables rfl (congrArg (· + 1) hmutations) (fun hlive => ?_) fun maps' hmaps' => ?_
    · have hlive' : (actor.remember item).mirror.isSome := hlive
      rwa [hmirror, Option.isSome_map] at hlive'
    · have hmem : maps' ∈ (actor.remember item).mirror := hmaps'
      rw [hmirror] at hmem
      obtain ⟨maps, hmaps, rfl⟩ := Option.map_eq_some_iff.mp hmem
      refine (h.mirrored maps hmaps).ofItem rfl (h.others (by rw [hmaps]; rfl) rfl)
        (fun itemId hne => PostingTables.sameAt_remember hne) fun hstage => ?_
      exact hstage.1.sameAt hstage.2.remember
  | mergeShard shard => exact h.write rfl id rfl (fun _ hitem => nomatch hitem) fun _ _ => trivial
  | foldPostings => exact h.mark rfl rfl rfl (fun hlive => nomatch hlive) fun _ hmaps => nomatch hmaps
  | buildIndex parameters =>
    obtain rfl : wrote = false := h.clean _ List.mem_cons_self trivial
    have hdone := h.done trivial
    cases hserved : actor.served with
    | some cached =>
      simp only [after, IndexActor.turn, hserved]
      exact hdone
    | none =>
      cases hmirror : actor.mirror with
      | some maps =>
        simp only [after, IndexActor.turn, hserved, hmirror]
        refine hdone.cache fun hall => ?_
        rw [hdone.maps_eq hall hmirror]
        rfl
      | none =>
        simp only [after, IndexActor.turn, hserved, hmirror, ne_eq, not_true_eq_false,
          decide_false, Bool.or_false]
        exact hdone.goesOn trivial rfl le_rfl fun _ _ => trivial
  | loadTermFreqs parameters builtFrom =>
    obtain rfl : wrote = false := h.clean _ List.mem_cons_self trivial
    have hbegan := h.began _ List.mem_cons_self builtFrom rfl
    simp only [after, IndexActor.turn, ne_eq, not_true_eq_false, decide_false, Bool.or_false]
    exact (h.done trivial).goesOn trivial rfl hbegan fun _ _ => rfl
  | loadDocLengths parameters builtFrom termFreqs =>
    obtain rfl : wrote = false := h.clean _ List.mem_cons_self trivial
    have hbegan := h.began _ List.mem_cons_self builtFrom rfl
    simp only [after, IndexActor.turn, ne_eq, not_true_eq_false, decide_false, Bool.or_false]
    refine (h.done trivial).goesOn trivial rfl hbegan fun hrest hsame => ?_
    have hread := h.read (List.forall_mem_cons.mpr ⟨rfl, hrest⟩) _ List.mem_cons_self
      (congrArg some hsame)
    have htermFreqs : termFreqs = actor.tables.termFreqs := hread
    rw [htermFreqs]
    exact rfl
  | publish parameters builtFrom loaded =>
    obtain rfl : wrote = false := h.clean _ List.mem_cons_self trivial
    have hdone := h.done trivial
    by_cases hgeneration : actor.dirtyGeneration = UInt64.ofNat builtFrom
    · simp only [after, IndexActor.turn, if_pos hgeneration]
      refine hdone.cache fun hrest => ?_
      have hsame : builtFrom = actor.mutations := eq_of_dirtyGeneration
        (h.began _ List.mem_cons_self builtFrom rfl) hharmless hgeneration
      have hread := h.read (List.forall_mem_cons.mpr ⟨rfl, hrest⟩) _ List.mem_cons_self
        (congrArg some hsame)
      have hloaded : loaded = actor.tables := hread
      rw [hloaded]
      rfl
    · simp only [after, IndexActor.turn, if_neg hgeneration]
      exact hdone

theorem Reached.mono {hint : ResidencyHint} {tables : PostingTables}
    {allowed allowed' : IndexWorld → IndexEvent → Prop} (hle : ∀ w event, allowed w event → allowed' w event)
    {w : IndexWorld} (h : Reached weighting hint tables allowed w) :
    Reached weighting hint tables allowed' w := by
  induction h with
  | opened => exact .opened
  | step _ hpossible hallowed ih => exact ih.step hpossible (hle _ _ hallowed)

/-- In every world that harmless events lead to, what is held is right. -/
theorem Reached.sound {hint : ResidencyHint} {tables : PostingTables} {w : IndexWorld}
    (h : Reached weighting hint tables Harmless w) : Sound weighting w.actor w.running := by
  induction h with
  | opened => exact sound_opened hint tables
  | @step w event _ hpossible hharmless ih =>
    cases event with
    | call call => exact ih.call call
    | turn r rest => exact (ih.perm hpossible).turn hharmless
    | fail r rest => exact (ih.perm hpossible.1).fail hharmless

end IndexWorld

namespace IndexActor

variable {weighting : ImpactWeighting} {actor : IndexActor} {parameters : BM25Parameters}

/-- What a build returns that runs alone. -/
def builtAlone (weighting : ImpactWeighting) (actor : IndexActor) (parameters : BM25Parameters) :
    CachedIndex :=
  match actor.served with
  | some cached => cached
  | none => .ofTables weighting (actor.mirror.getD actor.tables) parameters

theorem answers_publish {builtFrom : Nat} {loaded : PostingTables} {pair : CachedIndex} :
    Answers weighting actor (.publish parameters builtFrom loaded) pair ↔
      pair = .ofTables weighting loaded parameters := by
  constructor
  · intro h
    cases h with
    | now h => cases h; rfl
    | later h rest => cases h
  · rintro rfl
    exact .now rfl

theorem answers_buildIndex {pair : CachedIndex} :
    Answers weighting actor (.buildIndex parameters) pair ↔
      pair = builtAlone weighting actor parameters := by
  unfold builtAlone
  cases hserved : actor.served with
  | some cached =>
    constructor
    · intro h
      cases h with
      | now h => simp only [turn, hserved] at h; cases h; rfl
      | later h rest => simp only [turn, hserved] at h; cases h
    · rintro rfl
      have hturn : actor.turn weighting (.buildIndex parameters) = (actor, .returns pair) := by
        simp only [turn, hserved]
      exact .now hturn
  | none =>
    cases hmirror : actor.mirror with
    | some maps =>
      constructor
      · intro h
        cases h with
        | now h => simp only [turn, hserved, hmirror] at h; cases h; rfl
        | later h rest => simp only [turn, hserved, hmirror] at h; cases h
      · rintro rfl
        exact .now (by simp only [turn, hserved, hmirror]; rfl)
    | none =>
      constructor
      · intro h
        cases h with
        | now h => simp only [turn, hserved, hmirror] at h; cases h
        | later h rest =>
          simp only [turn, hserved, hmirror] at h
          cases h
          cases rest with
          | now h => cases h
          | later h rest =>
            cases h
            cases rest with
            | now h => cases h
            | later h rest =>
              cases h
              exact answers_publish.mp rest
      · rintro rfl
        have hturn : actor.turn weighting (.buildIndex parameters) =
            (actor, .goesOn (.loadTermFreqs parameters actor.mutations)) := by
          simp only [turn, hserved, hmirror]
        exact .later hturn <| .later rfl (.later rfl (answers_publish.mpr rfl))

end IndexActor

/-- The index and the ids of its terms. -/
def CachedIndex.pair (cached : CachedIndex) : InvertedIndex × (String → Option Nat) :=
  (cached.index, cached.termMapping)

/-- In every run where nothing fails that changed the tables while something is held of what they
had, no call begins to index an item that is in memory while another one does, and no build sees the
count of mutations wrap around, a build that runs alone returns the index of the tables as they are,
unless a pair for other parameters is served. -/
theorem buildIndex_fresh {weighting : ImpactWeighting} {hint : ResidencyHint}
    {tables : PostingTables} {w : IndexWorld}
    (h : IndexWorld.Reached weighting hint tables IndexWorld.Harmless w) (hquiet : w.running = [])
    {parameters : BM25Parameters}
    (hserved : ∀ cached ∈ w.actor.served, cached.parameters = parameters) :
    (∃ cached, w.actor.Answers weighting (.buildIndex parameters) cached) ∧
      ∀ cached, w.actor.Answers weighting (.buildIndex parameters) cached →
        cached.pair = BM25Weighting.build weighting w.actor.tables parameters := by
  have hsound := h.sound
  rw [hquiet] at hsound
  have hall : IndexWorld.Untouched [] := fun _ h => absurd h List.not_mem_nil
  refine ⟨⟨_, IndexActor.answers_buildIndex.mpr rfl⟩, fun cached hcached => ?_⟩
  rw [IndexActor.answers_buildIndex.mp hcached, IndexActor.builtAlone]
  cases hpair : w.actor.served with
  | some cached =>
    dsimp only
    rw [hsound.served hall cached hpair, hserved cached hpair]
    rfl
  | none =>
    cases hmirror : w.actor.mirror with
    | some maps =>
      dsimp only
      rw [Option.getD_some, hsound.maps_eq hall hmirror]
      rfl
    | none => rfl

namespace IndexRuns

/-- A posting weighs what the first parameter and its frequency make. -/
def weighting : ImpactWeighting := fun parameters _ _ _ _ freq => parameters.k1.toNat + freq

def tables : PostingTables := PostingTables.empty.indexItem "x" ["alpha"]

def parameters : BM25Parameters := .default

def loaded (built : List RunningTask) : IndexWorld := ⟨.opened .diskBacked tables, built⟩

/-- A build for the parameters has run. -/
def built : IndexWorld :=
  (loaded [⟨.publish parameters 0 tables, false⟩]).after weighting
    (.turn ⟨.publish parameters 0 tables, false⟩ [])

theorem reached_built :
    IndexWorld.Reached weighting .diskBacked tables IndexWorld.Harmless built := by
  have hopened : IndexWorld.Reached weighting .diskBacked tables IndexWorld.Harmless (loaded []) :=
    .opened
  have hturn : ∀ {task next : IndexTask},
      IndexWorld.Reached weighting .diskBacked tables IndexWorld.Harmless (loaded [⟨task, false⟩]) →
      (loaded [⟨task, false⟩]).Harmless (.turn ⟨task, false⟩ []) →
      IndexActor.turn (.opened .diskBacked tables) weighting task =
        (.opened .diskBacked tables, .goesOn next) →
        IndexWorld.Reached weighting .diskBacked tables IndexWorld.Harmless
          (loaded [⟨next, false⟩]) := by
    intro task next h hharmless hnext
    have hstep := @IndexWorld.Reached.step _ _ _ _ _ (.turn ⟨task, false⟩ []) h (List.Perm.refl _)
      hharmless
    simp only [IndexWorld.after, loaded, hnext, ne_eq, not_true_eq_false, decide_false,
      Bool.or_false] at hstep
    exact hstep
  have hcalled : IndexWorld.Reached weighting .diskBacked tables IndexWorld.Harmless
      (loaded [⟨.buildIndex parameters, false⟩]) :=
    @IndexWorld.Reached.step _ _ _ _ _ (.call (.buildIndex parameters)) hopened trivial trivial
  have hbegun := hturn hcalled trivial rfl
  have hterms := hturn hbegun trivial rfl
  have hlens := hturn hterms trivial rfl
  have hwraps : (0 : Nat) < 0 + 2 ^ 64 := by decide
  exact @IndexWorld.Reached.step _ _ _ _ _ (.turn ⟨.publish parameters 0 tables, false⟩ []) hlens
    (List.Perm.refl _) hwraps

end IndexRuns

/-- A build for the parameters of the pair that is served. -/
theorem buildIndex_fresh_reference :
    (∃ cached, IndexRuns.built.actor.Answers IndexRuns.weighting (.buildIndex IndexRuns.parameters)
        cached) ∧
      ∀ cached, IndexRuns.built.actor.Answers IndexRuns.weighting
          (.buildIndex IndexRuns.parameters) cached →
        cached.pair = BM25Weighting.build IndexRuns.weighting IndexRuns.built.actor.tables
          IndexRuns.parameters :=
  buildIndex_fresh IndexRuns.reached_built rfl fun cached hcached => by cases hcached; rfl

/-- For other parameters the pair of the first ones is served. -/
theorem not_buildIndex_fresh :
    ¬∀ (weighting : ImpactWeighting) (hint : ResidencyHint) (tables : PostingTables) (w : IndexWorld)
      (parameters : BM25Parameters) (cached : CachedIndex),
      IndexWorld.Reached weighting hint tables (fun _ _ => True) w → w.running = [] →
        w.actor.Answers weighting (.buildIndex parameters) cached →
          cached.pair = BM25Weighting.build weighting w.actor.tables parameters := by
  intro h
  have hpair := h IndexRuns.weighting .diskBacked IndexRuns.tables IndexRuns.built ⟨0, 0⟩ _
    (IndexRuns.reached_built.mono fun _ _ _ => trivial) rfl (.now rfl)
  have hfirst : (CachedIndex.ofTables IndexRuns.weighting IndexRuns.tables
      IndexRuns.parameters).pair.1.sortedPostings 0 = some [⟨"x", 0x3FF8000000000001⟩] := by
    decide +kernel
  have hother : (BM25Weighting.build IndexRuns.weighting IndexRuns.tables ⟨0, 0⟩).1.sortedPostings 0 =
      some [⟨"x", 1⟩] := by
    decide +kernel
  have hsame : (CachedIndex.ofTables IndexRuns.weighting IndexRuns.tables
      IndexRuns.parameters).pair.1.sortedPostings 0 =
        (BM25Weighting.build IndexRuns.weighting IndexRuns.tables ⟨0, 0⟩).1.sortedPostings 0 :=
    congrArg (fun pair => pair.1.sortedPostings 0) hpair
  exact absurd (hfirst.symm.trans (hsame.trans hother)) (by decide)

end MootMemory
