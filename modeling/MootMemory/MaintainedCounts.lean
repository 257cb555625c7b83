import MootMemory.ChunkProvenance
import MootMemory.CorpusBooks
import MootMemory.FaultSteps

namespace MootMemory

variable {sub : CorpusSubstrate}

section After

variable {α β : Type} {Q : Corpus sub → Prop} {s : Session sub}

/-- However the action ends in this state, the corpus has the property after it. -/
def After (Q : Corpus sub → Prop) (x : CorpusM sub α) (s : Session sub) : Prop :=
  match x s with
  | .ok _ s' => Q s'.corpus
  | .error _ s' => Q s'.corpus

theorem After.of_keeps {P : Corpus sub → Prop} {x : CorpusM sub α} (hx : KeepsCorpus P x)
    (h : P s.corpus) : After P x s := by
  have hs := hx s h
  unfold After
  cases hrun : x s with
  | ok a s' => rw [hrun] at hs; exact hs
  | error e s' => rw [hrun] at hs; exact hs

theorem After.mono {Q' : Corpus sub → Prop} {x : CorpusM sub α} (h : After Q x s)
    (himp : ∀ c, Q c → Q' c) : After Q' x s := by
  unfold After at h ⊢
  cases hrun : x s with
  | ok a s' => rw [hrun] at h; exact himp _ h
  | error e s' => rw [hrun] at h; exact himp _ h

theorem After.of_ok {x : CorpusM sub α} {a : α} {s' : Session sub} (h : After Q x s)
    (hrun : x s = .ok a s') : Q s'.corpus := by
  unfold After at h
  rwa [hrun] at h

theorem After.of_error {x : CorpusM sub α} {e : CorpusFault} {s' : Session sub} (h : After Q x s)
    (hrun : x s = .error e s') : Q s'.corpus := by
  unfold After at h
  rwa [hrun] at h

theorem After.bind {x : CorpusM sub α} {f : α → CorpusM sub β}
    (hok : ∀ a s', x s = .ok a s' → After Q (f a) s')
    (herror : ∀ e s', x s = .error e s' → Q s'.corpus) : After Q (x >>= f) s := by
  unfold After
  cases hrun : x s with
  | ok a s' =>
    rw [bind_of_ok hrun]
    exact hok a s' hrun
  | error e s' =>
    simp only [Bind.bind, EStateM.bind, hrun]
    exact herror e s' hrun

theorem after_outcome {weighting : ImpactWeighting} {threads : Threads} {call : CorpusCall sub}
    (h : After Q (call.run weighting threads) s) : Q (call.outcome weighting threads s) := by
  unfold CorpusCall.outcome
  cases hrun : call.run weighting threads s with
  | ok u s' => exact h.of_ok hrun
  | error e s' => exact h.of_error hrun

end After

section Steps

variable {chunks : List (Chunk sub)}

/-- The steps of storing the chunks of an item. -/
def bundleSteps (chunks : List (Chunk sub)) : Nat :=
  chunks.length + 2 * (chunks.map (·.sourceId)).dedup.length

def storeSteps (chunks : List (Chunk sub)) : Nat :=
  if chunks = [] then 0 else 1 + bundleSteps chunks

/-- The steps of indexing a chunk. -/
def indexSteps (chunk : Chunk sub) : Nat :=
  let tokens := defaultKeywordTokens sub chunk.text
  if tokens = [] then 2 else 2 + ((termFreqsOf (sub.idText chunk.id) tokens).length + 1)

theorem takes_insertChunk (chunk : Chunk sub) : Takes 1 (insertChunk chunk) := by
  refine Takes.attempt.bind (n := 0) fun _ => Takes.getCorpus.bind (n := 0) fun c => ?_
  cases c.storage.chunks.insert? ⟨chunk, sub.leaf chunk.id chunk.text⟩ with
  | none => exact .pure false
  | some chunks => exact (Takes.modifyCorpus _).bind fun _ => .pure true

theorem takes_insertChunks (chunks : List (Chunk sub)) :
    Takes chunks.length (insertChunks chunks) := by
  induction chunks with
  | nil => exact .pure []
  | cons chunk chunks ih =>
    refine ((takes_insertChunk chunk).bind fun _ => ih.bind fun _ => .pure _).cast ?_
    rw [List.length_cons]
    omega

theorem takes_bundleInsert (chunks : List (Chunk sub)) :
    Takes (bundleSteps chunks) (bundleInsert chunks) := by
  unfold bundleInsert
  split
  next h =>
    subst h
    exact .pure []
  next =>
    have hroll : Takes ((chunks.map (·.sourceId)).dedup.map fun _ => 2).sum
        ((chunks.map (·.sourceId)).dedup.forM (@rollupCorpusMerkleRoot sub)) :=
      .forM (fun _ => Takes.attempt.bind fun _ => .writeCorpus _) _
    refine ((takes_insertChunks chunks).bind fun _ => hroll.bind fun _ => .pure _).cast ?_
    rw [List.map_const', List.sum_replicate_nat, bundleSteps]
    omega

theorem takes_storeItem (sourceId : String) (chunks : List (Chunk sub)) :
    Takes (storeSteps chunks) (storeItem sourceId chunks) := by
  unfold storeItem storeSteps
  split
  next => exact .pure ()
  next =>
    exact (Takes.writeCorpus _).bind fun _ => (takes_bundleInsert chunks).bind fun _ =>
      (Takes.modifyCorpus _).bind fun _ => .modifyCorpus _

theorem takes_indexChunk (chunk : Chunk sub) : Takes (indexSteps chunk) (indexChunk chunk) := by
  have hdelete : Takes 2 (@deleteFromDb sub (sub.idText chunk.id)) :=
    (Takes.writeCorpus _).bind fun _ => .writeCorpus _
  unfold indexChunk indexItem indexSteps
  dsimp only
  split
  next => exact hdelete.bind fun _ => .modifyCorpus _
  next =>
    have hterms : Takes ((termFreqsOf (sub.idText chunk.id)
        (defaultKeywordTokens sub chunk.text)).map fun _ => 1).sum
          ((termFreqsOf (sub.idText chunk.id) (defaultKeywordTokens sub chunk.text)).forM fun row =>
            writeCorpus fun c : Corpus sub => c.putTermFreq row) :=
      .forM (fun _ => .writeCorpus _) _
    refine hdelete.bind fun _ => (hterms.bind fun _ => (Takes.writeCorpus _).bind fun _ =>
      .modifyCorpus _).cast ?_
    rw [List.map_const', List.sum_replicate_nat]
    omega

end Steps

namespace Corpus

variable {c : Corpus sub}

section Counted

/-- The counts of rows folded one after another into an untrained provider's. -/
def countsOf (kind : sub.Kind) (blob : Blob) (rows : List (ChunkRow sub)) : CountsState sub where
  accumulator := rows.foldl (fun acc row => sub.addToCounts kind acc row.chunk.text)
    (sub.reconstructBasis kind blob)
  documentCount := rows.length

/-- The counts of every trainable slot are those of the stored chunks, each folded once. -/
def Counted (c : Corpus sub) : Prop :=
  ∀ slot ∈ c.slots, ∀ blob ∈ slot.freshBasisBlob,
    slot.counts = some (countsOf slot.kind blob c.storage.chunks.rows)

theorem counted_iff : c.Counted ↔ ∀ book ∈ c.books, ∀ blob ∈ book.1.2,
    book.2 = some (countsOf book.1.1 blob c.storage.chunks.rows) := by
  unfold books
  rw [List.forall_mem_map]
  rfl

theorem Counted.congr {d : Corpus sub} (h : c.Counted)
    (hchunks : d.storage.chunks = c.storage.chunks) (hbooks : d.books = c.books) : d.Counted := by
  rw [counted_iff] at h ⊢
  rw [hchunks, hbooks]
  exact h

theorem newChunks_congr {d : Corpus sub} (h : c.storage.chunks = d.storage.chunks)
    (chunks : List (Chunk sub)) : c.newChunks chunks = d.newChunks chunks := by
  induction chunks generalizing c d with
  | nil => rfl
  | cons chunk chunks ih =>
    have hnew : c.isNew chunk = d.isNew chunk := by rw [isNew, isNew, h]
    have hadd : (c.addChunk chunk).storage.chunks = (d.addChunk chunk).storage.chunks := by
      unfold addChunk
      rw [← h]
      cases c.storage.chunks.insert? ⟨chunk, sub.leaf chunk.id chunk.text⟩ with
      | none => exact h
      | some rows => rfl
    unfold newChunks
    rw [hnew, ih hadd]

theorem newChunks_clearRemoved (c : Corpus sub) (sourceId : String) (chunks : List (Chunk sub)) :
    (c.clearRemoved sourceId).newChunks chunks = c.newChunks chunks := by
  refine newChunks_congr ?_ chunks
  rfl

/-- The rows of the new chunks go to the end of the table. -/
theorem rows_addChunks (c : Corpus sub) (chunks : List (Chunk sub)) :
    (c.addChunks chunks).storage.chunks.rows = c.storage.chunks.rows ++
      (c.newChunks chunks).map fun chunk => ⟨chunk, sub.leaf chunk.id chunk.text⟩ := by
  induction chunks generalizing c with
  | nil => exact (List.append_nil _).symm
  | cons chunk chunks ih =>
    have hrest := ih (c.addChunk chunk)
    have hcons : c.newChunks (chunk :: chunks) =
        if c.isNew chunk then chunk :: (c.addChunk chunk).newChunks chunks
        else (c.addChunk chunk).newChunks chunks := rfl
    rw [addChunks] at hrest
    rw [addChunks, List.foldl_cons, hrest, hcons]
    cases hinsert : c.storage.chunks.insert? ⟨chunk, sub.leaf chunk.id chunk.text⟩ with
    | none =>
      have hnew : c.isNew chunk = false := by
        rw [isNew, hinsert]
        rfl
      have hadd : c.addChunk chunk = c := by
        unfold addChunk
        rw [hinsert]
      rw [hadd, hnew, if_neg Bool.false_ne_true]
    | some rows =>
      have hnew : c.isNew chunk = true := by
        rw [isNew, hinsert]
        rfl
      have hadd : (c.addChunk chunk).storage.chunks = rows := by
        unfold addChunk
        rw [hinsert]
        rfl
      rw [hadd, (KeyedTable.insert?_eq_some_iff.mp hinsert).2, hnew, if_pos rfl,
        List.map_cons, List.append_assoc, List.singleton_append]

theorem rows_stored (c : Corpus sub) (sourceId : String) (chunks : List (Chunk sub)) :
    (c.stored sourceId chunks).storage.chunks.rows = c.storage.chunks.rows ++
      (c.newChunks chunks).map fun chunk => ⟨chunk, sub.leaf chunk.id chunk.text⟩ := by
  rw [chunks_stored, rows_addChunks]

theorem slots_stored_eq (c : Corpus sub) (sourceId : String) {chunks : List (Chunk sub)}
    (h : c.newChunks chunks ≠ []) : (c.stored sourceId chunks).slots =
      c.slots.map (·.foldCounts (c.newChunks chunks)) := by
  have hchunks : chunks ≠ [] := fun hnil => h (by rw [hnil]; rfl)
  have hnew := newChunks_clearRemoved c sourceId chunks
  obtain ⟨rows, metadata, hbundled⟩ := bundled_eq chunks (c.clearRemoved sourceId)
  unfold stored
  rw [if_neg hchunks, hnew, hbundled]
  unfold foldCounts
  rw [if_neg h]
  rfl

theorem books_stored_of_nil (c : Corpus sub) (sourceId : String) {chunks : List (Chunk sub)}
    (h : c.newChunks chunks = []) : (c.stored sourceId chunks).books = c.books := by
  have hnew : (c.clearRemoved sourceId).newChunks chunks = [] :=
    (newChunks_clearRemoved c sourceId chunks).trans h
  unfold stored
  split
  next => rfl
  next =>
    obtain ⟨rows, metadata, hbundled⟩ := bundled_eq chunks (c.clearRemoved sourceId)
    rw [hnew, hbundled]
    rfl

/-- Stored chunks are counted as they go in. -/
theorem Counted.stored (h : c.Counted) (sourceId : String) (chunks : List (Chunk sub)) :
    (c.stored sourceId chunks).Counted := by
  by_cases hnew : c.newChunks chunks = []
  · refine h.congr (KeyedTable.eq_of_rows_eq ?_) (books_stored_of_nil c sourceId hnew)
    rw [rows_stored, hnew, List.map_nil, List.append_nil]
  · intro slot hslot blob hblob
    rw [slots_stored_eq c sourceId hnew] at hslot
    obtain ⟨old, hold, rfl⟩ := List.mem_map.mp hslot
    rw [rows_stored]
    show old.counts.map _ = _
    rw [h old hold blob hblob, Option.map_some]
    simp only [countsOf, List.foldl_append, List.foldl_map, List.length_append, List.length_map]
    rfl

end Counted

end Corpus

end MootMemory
