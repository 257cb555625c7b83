import MootMemory.MaintainedCounts

namespace MootMemory

variable {sub : CorpusSubstrate}

/-- No write but those of chunks, and of counts in memory, sees them. -/
theorem counting_sideInvariant (chunks : KeyedTable (@ChunkRow.id sub))
    (books : List ((sub.Kind × Option Blob) × Option (CountsState sub))) :
    SideInvariant fun c : Corpus sub => c.storage.chunks = chunks ∧ c.books = books where
  withTables _ h := h
  dropCache h := h
  withVectors _ h := h
  install i trained h := by
    refine ⟨h.1, Eq.trans ?_ h.2⟩
    exact Corpus.map_slots_install (fun _ _ => rfl) _ i trained
  putBasis _ h := h
  putCounts _ h := h
  remapped _ h := h
  suppressed _ h := h
  rolledBack _ _ hbefore hafter := ⟨hbefore.1, hafter.2⟩

/-- An action that keeps chunks and counts keeps them in step. -/
theorem Corpus.Counted.after {α : Type} {s : Session sub} {x : CorpusM sub α}
    (h : s.corpus.Counted)
    (hx : KeepsCorpus (fun c => c.storage.chunks = s.corpus.storage.chunks ∧
      c.books = s.corpus.books) x) : After Corpus.Counted x s :=
  (After.of_keeps hx ⟨rfl, rfl⟩).mono fun _ hkept => h.congr hkept.1 hkept.2

section Windows

/-- The items of a window with their chunks. -/
abbrev StoreWindow (sub : CorpusSubstrate) := List (String × List (Chunk sub))

/-- The transaction of a window. -/
def storeWindow (window : StoreWindow sub) : CorpusM sub Unit :=
  inTransaction (window.forM fun item => storeItem item.1 item.2)

def windowSteps (window : StoreWindow sub) : Nat :=
  1 + ((window.map fun item => storeSteps item.2).sum + 1)

namespace Corpus

/-- The steps of a window, after its begin, until chunks are counted, if any of it are new. -/
def firstFold (c : Corpus sub) : StoreWindow sub → Option Nat
  | [] => none
  | item :: items =>
    if c.newChunks item.2 = [] then (c.firstFold items).map (storeSteps item.2 + ·)
    else some (storeSteps item.2)

def storedWindow (c : Corpus sub) (window : StoreWindow sub) : Corpus sub :=
  window.foldl (fun c item => c.stored item.1 item.2) c

/-- Once chunks of a window are counted, no step fails until the window is committed. -/
def Unbroken (c : Corpus sub) : List (StoreWindow sub) → List (Option CorpusKitError) → Prop
  | [], _ => True
  | window :: windows, faults =>
    (∀ n ∈ c.firstFold window, Clear (1 + n) faults → Clear (windowSteps window) faults) ∧
      (Clear (windowSteps window) faults →
        (c.storedWindow window).Unbroken windows (faults.drop (windowSteps window)))

theorem firstFold_congr {c d : Corpus sub} (h : c.storage.chunks = d.storage.chunks)
    (window : StoreWindow sub) : c.firstFold window = d.firstFold window := by
  induction window with
  | nil => rfl
  | cons item items ih =>
    unfold firstFold
    rw [newChunks_congr h, ih]

theorem Counted.storedWindow {c : Corpus sub} (h : c.Counted) (window : StoreWindow sub) :
    (c.storedWindow window).Counted := by
  induction window generalizing c with
  | nil => exact h
  | cons item items ih => exact ih (h.stored item.1 item.2)

end Corpus

theorem takes_storeWindow (window : StoreWindow sub) :
    Takes (windowSteps window) (storeWindow window) :=
  (Takes.forM (fun item : String × List (Chunk sub) => takes_storeItem item.1 item.2)
    window).inTransaction

theorem does_storeWindow (window : StoreWindow sub) :
    Does (storeWindow window) fun c => c.storedWindow window :=
  (Does.forM fun item _ => does_storeItem item.1 item.2).inTransaction

theorem steady_storeWindow (window : StoreWindow sub) : Steady (storeWindow window) :=
  (Steady.forM (fun item : String × List (Chunk sub) =>
    steady_storeItem item.1 item.2) window).inTransaction

variable {s s' : Session sub} {e : CorpusFault}

theorem keepsBooks_bundleInsert (books : List ((sub.Kind × Option Blob) × Option (CountsState sub)))
    (chunks : List (Chunk sub)) :
    KeepsCorpus (fun c => c.books = books) (bundleInsert chunks) := by
  have hinsert : ∀ chunk : Chunk sub, KeepsCorpus (fun c => c.books = books) (insertChunk chunk) := by
    intro chunk
    refine KeepsCorpus.bind .attempt fun _ => KeepsCorpus.bind .getCorpus fun c => ?_
    cases c.storage.chunks.insert? ⟨chunk, sub.leaf chunk.id chunk.text⟩ with
    | none => exact .pure false
    | some rows => exact KeepsCorpus.bind (KeepsCorpus.modifyCorpus fun _ h => h) fun _ => .pure true
  have hinserts : KeepsCorpus (fun c => c.books = books) (insertChunks chunks) := by
    induction chunks with
    | nil => exact .pure []
    | cons chunk chunks ih =>
      exact KeepsCorpus.bind (hinsert chunk) fun _ => KeepsCorpus.bind ih fun _ => .pure _
  refine KeepsCorpus.ite (.pure []) (KeepsCorpus.bind hinserts fun _ => ?_)
  refine KeepsCorpus.bind (.forM (fun _ => ?_) _) fun _ => .pure _
  exact KeepsCorpus.bind .attempt fun _ => KeepsCorpus.writeCorpus fun _ h => h

/-- An item that fails was not counted. -/
theorem books_of_storeItem_error {sourceId : String} {chunks : List (Chunk sub)}
    (hrun : storeItem sourceId chunks s = .error e s') : s'.corpus.books = s.corpus.books := by
  unfold storeItem at hrun
  split at hrun
  next => cases hrun
  next =>
    have hclear : KeepsCorpus (fun c => c.books = s.corpus.books)
        (writeCorpus fun c => c.clearRemoved sourceId) := KeepsCorpus.writeCorpus fun _ h => h
    rcases estate_bind_error.mp hrun with hrun | ⟨u, s₁, hfirst, hrun⟩
    · exact (After.of_keeps hclear rfl).of_error hrun
    have hkept := (After.of_keeps hclear rfl).of_ok hfirst
    rcases estate_bind_error.mp hrun with hrun | ⟨inserted, s₂, -, hrun⟩
    · exact (After.of_keeps (keepsBooks_bundleInsert s.corpus.books chunks) hkept).of_error hrun
    · cases hrun

/-- Where a window fails before chunks of it are counted, or has none to count, the counts stay. -/
theorem after_window_books (window : StoreWindow sub) (s : Session sub)
    (h : ∀ n ∈ s.corpus.firstFold window, ¬Clear n s.faults) :
    After (fun c => c.books = s.corpus.books)
      (window.forM fun item => storeItem item.1 item.2) s := by
  induction window generalizing s with
  | nil => rfl
  | cons item items ih =>
    refine After.bind (fun u s₁ hrun => ?_) fun e s₁ hrun => books_of_storeItem_error hrun
    obtain ⟨hclear, hfaults⟩ := (takes_storeItem item.1 item.2).of_ok hrun
    have hcorpus := (does_storeItem item.1 item.2).of_ok (steady_storeItem item.1 item.2) hrun
    unfold Corpus.firstFold at h
    by_cases hnew : s.corpus.newChunks item.2 = []
    · rw [if_pos hnew] at h
      have hbooks : s₁.corpus.books = s.corpus.books := by
        rw [hcorpus]
        exact Corpus.books_stored_of_nil _ _ hnew
      have hchunks : s₁.corpus.storage.chunks = s.corpus.storage.chunks := by
        rw [hcorpus]
        refine KeyedTable.eq_of_rows_eq ?_
        rw [Corpus.rows_stored, hnew, List.map_nil, List.append_nil]
      rw [← hbooks]
      refine ih s₁ fun n hn hclear' => ?_
      rw [Corpus.firstFold_congr hchunks] at hn
      rw [hfaults] at hclear'
      exact h _ (Option.mem_map_of_mem _ hn) (clear_add.mpr ⟨hclear, hclear'⟩)
    · rw [if_neg hnew] at h
      exact absurd hclear (h _ rfl)

/-- A window that fails leaves chunks and counts in step, unless it fails after some of its chunks
were counted: then the chunks are rolled back and the counts are not. -/
theorem counted_of_storeWindow_error (h : s.corpus.Counted) {window : StoreWindow sub}
    (hguard : ∀ n ∈ s.corpus.firstFold window,
      Clear (1 + n) s.faults → Clear (windowSteps window) s.faults)
    (hrun : storeWindow window s = .error e s') : s'.corpus.Counted := by
  have hbroken := (takes_storeWindow window).of_error hrun
  rcases estate_bind_error.mp hrun with hbegin | ⟨u, s₁, hbegin, hbody⟩
  · exact (After.of_keeps KeepsCorpus.attempt h).of_error hbegin
  obtain ⟨hclear, hfaults⟩ := Takes.attempt.of_ok hbegin
  have hcorpus : s₁.corpus = s.corpus :=
    (After.of_keeps (P := fun c => c = s.corpus) KeepsCorpus.attempt rfl).of_ok hbegin
  have hwindow : After (fun c => c.books = s₁.corpus.books) (do
      window.forM fun item => storeItem item.1 item.2
      attempt
      pure () : CorpusM sub Unit) s₁ := by
    have hitems := after_window_books window s₁ fun n hn hclear' => by
      rw [hcorpus] at hn
      rw [hfaults] at hclear'
      exact hbroken (hguard n hn (clear_add.mpr ⟨hclear, hclear'⟩))
    refine After.bind (fun u s₂ hok => ?_) fun e s₂ herror => hitems.of_error herror
    exact After.of_keeps (KeepsCorpus.bind .attempt fun _ => .pure ()) (hitems.of_ok hok)
  unfold undoing at hbody
  cases hinner : (do
      let a ← window.forM fun item => storeItem item.1 item.2
      attempt
      pure a : CorpusM sub Unit) s₁ with
  | ok a s₂ =>
    rw [hinner] at hbody
    cases hbody
  | error e₂ s₂ =>
    rw [hinner] at hbody
    cases hbody
    have hbooks := hwindow.of_error hinner
    rw [hcorpus] at hbooks
    refine h.congr ?_ hbooks
    exact congrArg (·.storage.chunks) hcorpus

theorem counted_storeWindows (windows : List (StoreWindow sub)) (s : Session sub)
    (h : s.corpus.Counted) (hunbroken : s.corpus.Unbroken windows s.faults) :
    After Corpus.Counted (windows.forM storeWindow) s := by
  induction windows generalizing s with
  | nil => exact h
  | cons window windows ih =>
    obtain ⟨hguard, hrest⟩ := hunbroken
    refine After.bind (fun u s₁ hrun => ?_) fun e s₁ hrun =>
      counted_of_storeWindow_error h hguard hrun
    obtain ⟨hclear, hfaults⟩ := (takes_storeWindow window).of_ok hrun
    have hcorpus := (does_storeWindow window).of_ok (steady_storeWindow window) hrun
    refine ih s₁ ?_ ?_
    · rw [hcorpus]
      exact h.storedWindow window
    · rw [hcorpus, hfaults]
      exact hrest hclear

/-- The windows of items. -/
def itemWindows (sub : CorpusSubstrate) (items : List IngestItem) : List (StoreWindow sub) :=
  windows commitChunkItems (items.map fun item => (item.sourceId, item.chunks sub))

theorem storeItems_eq (items : List IngestItem) :
    @storeItems sub items = (itemWindows sub items).forM storeWindow := by
  have hwindow : ∀ window : List IngestItem,
      storeWindow (window.map fun item => (item.sourceId, item.chunks sub)) =
        inTransaction (window.forM fun item => storeItem item.sourceId (item.chunks sub)) := by
    intro window
    rw [storeWindow, List.forM_eq_forM, List.forM_map, List.forM_eq_forM]
  rw [itemWindows, windows_map, List.forM_eq_forM, List.forM_map, storeItems, List.forM_eq_forM]
  simp only [hwindow]

end Windows

section Ingest

/-- The place of the first chunk that is new. -/
def Corpus.firstNew (c : Corpus sub) : List (Chunk sub) → Option Nat
  | [] => none
  | chunk :: chunks => if c.isNew chunk then some 0 else (c.firstNew chunks).map (· + 1)

/-- The steps of an ingest until its chunks are counted. -/
def filingSteps (chunks : List (Chunk sub)) : Nat :=
  1 + (bundleSteps chunks + (chunks.map indexSteps).sum)

variable {s s' : Session sub} {e : CorpusFault}

/-- An ingest until its chunks are counted. -/
def filing (item : IngestItem) : CorpusM sub Unit := do
  writeCorpus fun c => c.clearRemoved item.sourceId
  let inserted ← bundleInsert (item.chunks sub)
  clockString item.nowSecs
  (item.chunks sub).forM indexChunk
  modifyCorpus fun c => c.mapChunks (item.chunks sub) item.sourceId
  foldChunksIntoCounts inserted

/-- An ingest after its chunks are counted. -/
def embedding (threads : Threads) (item : IngestItem) : CorpusM sub Unit := do
  let c ← getCorpus
  let slots ← trainFirst threads item.nowSecs none (List.range c.slots.length)
  foldIn threads (item.chunks sub) item.nowSecs slots
  persistMaintainedCounts item.nowSecs

theorem ingest_eq (threads : Threads) {item : IngestItem} (h : item.chunks sub ≠ []) :
    @ingest sub threads item = filing item >>= fun _ => embedding threads item := by
  unfold ingest filing embedding
  rw [if_neg h]
  simp only [bind_assoc]

theorem takes_filing {item : IngestItem} (h : 0 ≤ item.nowSecs) :
    Takes (filingSteps (item.chunks sub)) (@filing sub item) := by
  have hclock : Takes 0 (@clockString sub item.nowSecs) := by
    unfold clockString
    rw [if_neg (Int.not_lt.mpr h)]
    exact .pure ()
  refine ((Takes.writeCorpus _).bind fun _ => (takes_bundleInsert _).bind fun _ =>
    hclock.bind fun _ => (Takes.forM takes_indexChunk _).bind fun _ =>
      (Takes.modifyCorpus _).bind fun _ => .modifyCorpus _).cast ?_
  rw [filingSteps]
  omega

theorem steady_filing (item : IngestItem) : Steady (@filing sub item) := by
  refine (Steady.writeCorpus _).bind fun _ => (steady_bundleInsert _).bind fun _ => ?_
  refine (Steady.ite (.throw _) (.pure ())).bind fun _ => ?_
  exact (Steady.forM steady_indexChunk _).bind fun _ => (Steady.modifyCorpus _).bind fun _ =>
    .modifyCorpus _

theorem does_filing {item : IngestItem} (h : 0 ≤ item.nowSecs) (hchunks : item.chunks sub ≠ []) :
    Does (@filing sub item) fun c => c.filed item := by
  intro c
  have hclock : ∀ c : Corpus sub, @clockString sub item.nowSecs ⟨c, []⟩ = .ok () ⟨c, []⟩ := by
    intro c
    unfold clockString
    rw [if_neg (Int.not_lt.mpr h)]
    rfl
  have hindex := Does.forM (f := indexChunk) (g := Corpus.indexed) (l := item.chunks sub)
    (fun chunk _ => does_indexChunk chunk)
  unfold filing
  rw [bind_of_ok (Does.writeCorpus _ c), bind_of_ok (bundleInsert_faultless _ _),
    bind_of_ok (hclock _), bind_of_ok (hindex _), bind_of_ok (Does.modifyCorpus _ _)]
  refine (Does.modifyCorpus _ _).trans ?_
  dsimp only
  rw [foldl_indexed_comm, Corpus.filed, Corpus.stored, if_neg hchunks]

theorem Corpus.firstNew_congr {c d : Corpus sub} (h : c.storage.chunks = d.storage.chunks)
    (chunks : List (Chunk sub)) : c.firstNew chunks = d.firstNew chunks := by
  induction chunks with
  | nil => rfl
  | cons chunk chunks ih =>
    have hnew : c.isNew chunk = d.isNew chunk := by rw [isNew, isNew, h]
    rw [firstNew, firstNew, hnew, ih]

/-- Where chunks fail to go in before the first that is new, or none is new, nothing goes in. -/
theorem insertChunks_quiet (chunks : List (Chunk sub)) (s : Session sub)
    (h : ∀ n ∈ s.corpus.firstNew chunks, ¬Clear (n + 1) s.faults) :
    (∃ s', insertChunks chunks s = .ok [] s' ∧ s'.corpus = s.corpus) ∨
      ∃ e s', insertChunks chunks s = .error e s' ∧ s'.corpus = s.corpus := by
  induction chunks generalizing s with
  | nil => exact Or.inl ⟨s, rfl, rfl⟩
  | cons chunk chunks ih =>
    have hattempt : After (fun c => c = s.corpus) attempt s := After.of_keeps KeepsCorpus.attempt rfl
    cases hrun : attempt s with
    | error e s₁ =>
      refine Or.inr ⟨e, s₁, ?_, hattempt.of_error hrun⟩
      simp only [insertChunks, insertChunk, Bind.bind, EStateM.bind, hrun]
    | ok u s₁ =>
      obtain ⟨hclear, hfaults⟩ := Takes.attempt.of_ok hrun
      have hcorpus := hattempt.of_ok hrun
      unfold Corpus.firstNew at h
      cases hinsert : s.corpus.storage.chunks.insert? ⟨chunk, sub.leaf chunk.id chunk.text⟩ with
      | some rows =>
        have hnew : s.corpus.isNew chunk = true := by
          rw [Corpus.isNew, hinsert]
          rfl
        rw [if_pos hnew] at h
        exact absurd hclear (h 0 rfl)
      | none =>
        have hnew : ¬s.corpus.isNew chunk = true := by
          rw [Corpus.isNew, hinsert]
          exact Bool.false_ne_true
        rw [if_neg hnew] at h
        have hone : insertChunk chunk s = .ok false s₁ := by
          unfold insertChunk
          rw [bind_of_ok hrun, getCorpus_bind, hcorpus, hinsert]
          rfl
        have hrest : ∀ n ∈ s₁.corpus.firstNew chunks, ¬Clear (n + 1) s₁.faults := by
          intro n hn hclear'
          rw [hcorpus] at hn
          rw [hfaults] at hclear'
          refine h _ (Option.mem_map_of_mem _ hn) ?_
          rw [Nat.add_comm]
          exact clear_add.mpr ⟨hclear, hclear'⟩
        unfold insertChunks
        rw [bind_of_ok hone]
        rcases ih s₁ hrest with ⟨s₂, hok, hsame⟩ | ⟨e, s₂, herror, hsame⟩
        · exact Or.inl ⟨s₂, by rw [bind_of_ok hok]; rfl, hsame.trans hcorpus⟩
        · refine Or.inr ⟨e, s₂, ?_, hsame.trans hcorpus⟩
          simp only [Bind.bind, EStateM.bind, herror]

theorem counted_of_filing_error (h : s.corpus.Counted) {item : IngestItem}
    (hquiet : ∀ n ∈ s.corpus.firstNew (item.chunks sub), ¬Clear (n + 2) s.faults) :
    After Corpus.Counted (filing item) s := by
  let P : Corpus sub → Prop := fun c =>
    c.storage.chunks = s.corpus.storage.chunks ∧ c.books = s.corpus.books
  have hside : SideInvariant P := counting_sideInvariant _ _
  have hclear : After P (writeCorpus fun c => c.clearRemoved item.sourceId) s :=
    After.of_keeps (KeepsCorpus.writeCorpus fun _ hc => hside.suppressed _ hc) ⟨rfl, rfl⟩
  have hfiling : After P (filing item) s := by
    refine After.bind (fun u s₁ hrun => ?_) fun e s₁ hrun => hclear.of_error hrun
    obtain ⟨hfirst, hfaults⟩ := (Takes.writeCorpus _).of_ok hrun
    have hkept := hclear.of_ok hrun
    have hinserts := insertChunks_quiet (item.chunks sub) s₁ fun n hn hclear' => by
      rw [Corpus.firstNew_congr hkept.1] at hn
      rw [hfaults] at hclear'
      refine hquiet n hn ?_
      rw [show n + 2 = 1 + (n + 1) by omega]
      exact clear_add.mpr ⟨hfirst, hclear'⟩
    have hroll : KeepsCorpus P (((item.chunks sub).map (·.sourceId)).dedup.forM
        (@rollupCorpusMerkleRoot sub)) :=
      .forM (fun sourceId => KeepsCorpus.bind .attempt fun _ =>
        KeepsCorpus.writeCorpus (f := fun c => c.rollup sourceId) fun _ hc => hc) _
    have hbundle : (∃ s', bundleInsert (item.chunks sub) s₁ = .ok [] s' ∧ P s'.corpus) ∨
        ∃ e s', bundleInsert (item.chunks sub) s₁ = .error e s' ∧ P s'.corpus := by
      unfold bundleInsert
      split
      next => exact Or.inl ⟨s₁, rfl, hkept⟩
      next =>
        rcases hinserts with ⟨s₂, hok, hsame⟩ | ⟨e, s₂, herror, hsame⟩
        · rw [bind_of_ok hok]
          have hP : P s₂.corpus := hsame ▸ hkept
          have hafter := After.of_keeps hroll hP
          cases hrolled : ((item.chunks sub).map (·.sourceId)).dedup.forM
              (@rollupCorpusMerkleRoot sub) s₂ with
          | ok u s₃ =>
            rw [bind_of_ok hrolled]
            exact Or.inl ⟨s₃, rfl, hafter.of_ok hrolled⟩
          | error e s₃ =>
            refine Or.inr ⟨e, s₃, ?_, hafter.of_error hrolled⟩
            simp only [Bind.bind, EStateM.bind, hrolled]
        · refine Or.inr ⟨e, s₂, ?_, hsame ▸ hkept⟩
          simp only [Bind.bind, EStateM.bind, herror]
    refine After.bind (fun inserted s₂ hok => ?_) fun e s₂ herror => ?_
    · rcases hbundle with ⟨s₃, hok', hP⟩ | ⟨e, s₃, herror, -⟩
      · rw [hok, EStateM.Result.ok.injEq] at hok'
        obtain ⟨rfl, rfl⟩ := hok'
        refine After.of_keeps (KeepsCorpus.bind (.ite (.throw _) (.pure ())) fun _ =>
          KeepsCorpus.bind (.forM hside.indexChunk _) fun _ => ?_) hP
        exact KeepsCorpus.bind (KeepsCorpus.modifyCorpus fun _ hc => hside.remapped _ hc) fun _ =>
          KeepsCorpus.modifyCorpus fun _ hc => hc
      · rw [hok] at herror
        cases herror
    · rcases hbundle with ⟨s₃, hok', -⟩ | ⟨e', s₃, herror', hP⟩
      · rw [herror] at hok'
        cases hok'
      · rw [herror, EStateM.Result.error.injEq] at herror'
        obtain ⟨-, rfl⟩ := herror'
        exact hP
  exact hfiling.mono fun _ hc => h.congr hc.1 hc.2

theorem Corpus.Counted.filed {c : Corpus sub} (h : c.Counted) (item : IngestItem) :
    (c.filed item).Counted := by
  refine (h.stored item.sourceId (item.chunks sub)).congr ?_ ?_
  · rw [Corpus.filed, storage_foldl_indexed]
  · rw [Corpus.filed, Corpus.books, Corpus.books, slots_foldl_indexed]

/-- An ingest keeps chunks and counts in step, unless it fails between the two. -/
theorem counted_ingest (threads : Threads) {item : IngestItem} (h : s.corpus.Counted)
    (hguard : ∀ n ∈ s.corpus.firstNew (item.chunks sub), Clear (n + 2) s.faults →
      Clear (filingSteps (item.chunks sub)) s.faults ∧ 0 ≤ item.nowSecs) :
    After Corpus.Counted (ingest threads item) s := by
  by_cases hchunks : item.chunks sub = []
  · unfold ingest
    rw [if_pos hchunks]
    exact h
  rw [ingest_eq threads hchunks]
  have hrest : ∀ s₁ : Session sub, s₁.corpus.Counted →
      After Corpus.Counted (embedding threads item) s₁ := by
    intro s₁ h₁
    have hside := counting_sideInvariant s₁.corpus.storage.chunks s₁.corpus.books
    refine h₁.after (KeepsCorpus.bind .getCorpus fun c => ?_)
    exact KeepsCorpus.bind (hside.trainFirst _ _ _ _) fun _ =>
      KeepsCorpus.bind (hside.foldIn _ _ _ _) fun _ => hside.persistMaintainedCounts _
  by_cases hbroken : ∀ n ∈ s.corpus.firstNew (item.chunks sub), ¬Clear (n + 2) s.faults
  · have hfiling := counted_of_filing_error h hbroken
    exact After.bind (fun u s₁ hrun => hrest s₁ (hfiling.of_ok hrun)) fun e s₁ hrun =>
      hfiling.of_error hrun
  · push Not at hbroken
    obtain ⟨n, hn, hclear⟩ := hbroken
    obtain ⟨hsteps, hclock⟩ := hguard n hn hclear
    obtain ⟨u, s₁, hrun, -⟩ := (takes_filing hclock).ok hsteps
    have hcorpus := (does_filing hclock hchunks).of_ok (steady_filing item) hrun
    refine After.bind (fun u' s₂ hok => ?_) fun e s₂ herror => ?_
    · rw [hrun, EStateM.Result.ok.injEq] at hok
      obtain ⟨-, rfl⟩ := hok
      refine hrest _ ?_
      rw [hcorpus]
      exact h.filed item
    · rw [hrun] at herror
      cases herror

end Ingest

end MootMemory
