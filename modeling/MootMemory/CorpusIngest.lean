import MootMemory.CorpusStores

namespace MootMemory

variable {sub : CorpusSubstrate}

/-- A text with its source and the caller's clock. -/
structure IngestItem where
  text : String
  sourceId : String
  nowMillis : Int
deriving DecidableEq, Repr

def IngestItem.nowSecs (item : IngestItem) : Int := item.nowMillis.tdiv 1000

variable (sub) in
def IngestItem.chunks (item : IngestItem) : List (Chunk sub) :=
  chunkWithDefaultHlc sub item.text item.sourceId .default item.nowMillis

section Single

def indexChunk (chunk : Chunk sub) : CorpusM sub Unit :=
  indexItem (sub.idText chunk.id) (defaultKeywordTokens sub chunk.text)

/-- The clock in seconds is taken for an unsigned number and added to the epoch, which overflows
where it is negative. -/
def clockString (nowSecs : Int) : CorpusM sub Unit :=
  if nowSecs < 0 then throw .panic else pure ()

/-- The first ingest of a trainable slot trains it on all active chunks, which are loaded once; the
slots that are left are those to fold the new chunks into. -/
def trainFirst (threads : Threads) (filedAtSecs : Int) :
    Option (List (Chunk sub)) → List Nat → CorpusM sub (List Nat)
  | _, [] => pure []
  | cached, i :: slots => do
    let c ← getCorpus
    match (c.slots[i]?).bind (·.freshBasisBlob) with
    | none =>
      let rest ← trainFirst threads filedAtSecs cached slots
      pure (i :: rest)
    | some _ =>
      let needed ← readCorpus fun c => needsTraining c i
      if needed then
        let all ← match cached with
          | some all => pure all
          | none => activeChunks
        trainAndPersistBasis i all filedAtSecs
        reembedChunks threads i all filedAtSecs
        trainFirst threads filedAtSecs (some all) slots
      else
        let rest ← trainFirst threads filedAtSecs cached slots
        pure (i :: rest)

def embedSlot (chunks : List (Chunk sub)) (filedAtSecs : Int) (slotIndex : Nat) :
    CorpusM sub (List VectorPayloadInput) := do
  let c ← getCorpus
  match c.slots[slotIndex]? with
  | none => pure []
  | some slot => embedChunks slot.kind slot.handle filedAtSecs chunks

/-- The slots are embedded for in batches that have a thread for each. -/
def foldIn (threads : Threads) (chunks : List (Chunk sub)) (filedAtSecs : Int)
    (slots : List Nat) : CorpusM sub Unit :=
  if slots = [] then pure ()
  else do
    let c ← getCorpus
    let batches := windows (threads.embedConcurrencyCap c.encodeSpeed) slots
    let perSlotRows ← batches.mapM fun batch => batch.mapM (embedSlot chunks filedAtSecs)
    addPayloads perSlotRows.flatten.flatten

def ingest (threads : Threads) (item : IngestItem) : CorpusM sub Unit :=
  let chunks := item.chunks sub
  if chunks = [] then pure ()
  else do
    writeCorpus fun c => c.clearRemoved item.sourceId
    let inserted ← bundleInsert chunks
    clockString item.nowSecs
    chunks.forM indexChunk
    modifyCorpus fun c => c.mapChunks chunks item.sourceId
    foldChunksIntoCounts inserted
    let c ← getCorpus
    let slots ← trainFirst threads item.nowSecs none (List.range c.slots.length)
    foldIn threads chunks item.nowSecs slots
    persistMaintainedCounts item.nowSecs

end Single

section Batch

def commitChunkItems : Nat := 512

def commitChunkRows : Nat := 4096

/-- What the first window of a batch does for the chunks of an item. -/
def storeItem (sourceId : String) (chunks : List (Chunk sub)) : CorpusM sub Unit :=
  if chunks = [] then pure ()
  else do
    writeCorpus fun c => c.clearRemoved sourceId
    let inserted ← bundleInsert chunks
    modifyCorpus fun c => c.mapChunks chunks sourceId
    foldChunksIntoCounts inserted

/-- Window 1: the items go into the estate, a transaction for each so many of them. -/
def storeItems (items : List IngestItem) : CorpusM sub Unit :=
  (windows commitChunkItems items).forM fun window =>
    inTransaction (window.forM fun item => storeItem item.sourceId (item.chunks sub))

/-- Window 2: the postings, a transaction for each so many chunks. -/
def indexChunks (chunks : List (Chunk sub)) : CorpusM sub Unit :=
  (windows commitChunkItems chunks).forM fun window => inIndexBatch (window.forM indexChunk)

/-- The slots are asked one after another until one needs its first basis. -/
def needsBootstrap : List Nat → CorpusM sub Bool
  | [] => pure false
  | i :: slots => do
    let c ← getCorpus
    match (c.slots[i]?).bind (·.freshBasisBlob) with
    | none => needsBootstrap slots
    | some _ =>
      let needed ← readCorpus fun c => needsTraining c i
      if needed then pure true else needsBootstrap slots

def bootstrapSlot (chunks : List (Chunk sub)) (nowSecs : Int) (slotIndex : Nat) :
    CorpusM sub Unit := do
  let c ← getCorpus
  match (c.slots[slotIndex]?).bind (·.freshBasisBlob) with
  | none => pure ()
  | some _ =>
    let needed ← readCorpus fun c => needsTraining c slotIndex
    if needed then trainAndPersistBasis slotIndex chunks nowSecs else pure ()

/-- Phase 1b: the slots without a basis are trained on all active chunks. -/
def bootstrap (nowSecs : Int) : CorpusM sub Unit := do
  let c ← getCorpus
  let needed ← needsBootstrap (List.range c.slots.length)
  if needed then
    let all ← activeChunks
    if all = [] then pure ()
    else (List.range c.slots.length).forM (bootstrapSlot all nowSecs)
  else pure ()

/-- The rows of an item, slot by slot. -/
def embedItem (slots : List (ProviderSlot sub)) (item : IngestItem) :
    CorpusM sub (List VectorPayloadInput) := do
  let rows ← slots.mapM fun slot =>
    embedChunks slot.kind slot.handle item.nowSecs (item.chunks sub)
  pure rows.flatten

/-- Phase 2: every worker embeds a slice of the items. -/
def embedItems (threads : Threads) (items : List IngestItem) :
    CorpusM sub (List VectorPayloadInput) := do
  let c ← getCorpus
  let cap := threads.embedConcurrencyCap c.encodeSpeed
  let sliceLen := max ((items.length + cap - 1) / cap) 1
  let rows ← (windows sliceLen items).mapM fun slice => slice.mapM (embedItem c.slots)
  pure rows.flatten.flatten

/-- Phase 3: the vector rows, a transaction for each so many of them. -/
def writeRows (rows : List VectorPayloadInput) : CorpusM sub Unit :=
  (windows commitChunkRows rows).forM fun window => inTransaction (addPayloads window)

def ingestBatch (threads : Threads) (items : List IngestItem) : CorpusM sub Unit :=
  match items with
  | [] => pure ()
  | first :: _ => do
    storeItems items
    indexChunks (items.flatMap (·.chunks sub))
    bootstrap first.nowSecs
    let rows ← embedItems threads items
    writeRows rows
    persistMaintainedCounts first.nowSecs

end Batch

section Import

def ingestBatchImportSerial (items : List IngestItem) : CorpusM sub Unit := do
  storeItems items
  indexChunks (items.flatMap (·.chunks sub))

def importShardItems : Nat := 2500

/-- A document's postings as a worker computes them. -/
structure Posting where
  itemId : String
  tokens : List String

def Posting.ofChunk (chunk : Chunk sub) : Posting :=
  ⟨sub.idText chunk.id, defaultKeywordTokens sub chunk.text⟩

/-- The postings of the chunks that have tokens. -/
def slicePostings (chunks : List (Chunk sub)) : List Posting :=
  (chunks.map .ofChunk).filter fun posting => posting.tokens ≠ []

def termFreqLe (a b : TermFreq) : Bool :=
  toLex (a.term, toLex (a.itemId, a.freq)) ≤ toLex (b.term, toLex (b.itemId, b.freq))

def docLenLe (a b : DocLen) : Bool := toLex (a.itemId, a.length) ≤ toLex (b.itemId, b.length)

/-- `IngestPostingsShard`: the rows are sorted and written over one another. -/
def shardOf (postings : List Posting) : PostingTables where
  termFreqs := RowSet.empty.replaceAll
    ((postings.flatMap fun p => termFreqsOf p.itemId p.tokens).insertionSort fun a b =>
      termFreqLe a b)
  docLens := RowSet.empty.replaceAll
    ((postings.map fun p => ⟨p.itemId, p.tokens.length⟩).insertionSort fun a b => docLenLe a b)

variable (sub) in
def sliceChunks (slice : List IngestItem) : List (List (Chunk sub)) := slice.map (·.chunks sub)

variable (sub) in
/-- The shard of a worker, which it only creates for the first slice it claims. -/
def workerShard (slices : List (List IngestItem)) (claimed : List Nat) : Option PostingTables :=
  if claimed = [] then none
  else some (shardOf (claimed.flatMap fun i =>
    slicePostings (sliceChunks sub (slices.getD i [])).flatten))

variable (sub) in
/-- What a worker hands back: its shard, and the chunks of the slices it claimed. -/
def workerOut (slices : List (List IngestItem)) (claimed : List Nat) :
    Option PostingTables × List (Nat × List (List (Chunk sub))) :=
  (workerShard sub slices claimed, claimed.map fun i => (i, sliceChunks sub (slices.getD i [])))

def sliceNotProduced (i : Nat) : CorpusKitError :=
  .storeUnavailable s!"import slice {i} was never produced (worker exited early)"

/-- Window 1 of the sharded import: the chunks are already made. -/
def storeChunked (items : List (String × List (Chunk sub))) : CorpusM sub Unit :=
  (windows commitChunkItems items).forM fun window =>
    inTransaction (window.forM fun item => storeItem item.1 item.2)

def mergeShard (shard : PostingTables) : CorpusM sub Unit :=
  writeCorpus fun c => c.withTables fun t => t.overwrite shard

/-- `fold_postings`. -/
def foldPostings : CorpusM sub Unit := modifyCorpus Corpus.dropCache

def importWorkers (threads : Threads) (slices : Nat) : Nat :=
  min (threads.availableParallelism.getD 4) (max slices 1)

theorem importWorkers_pos (threads : Threads) (slices : Nat) : 0 < importWorkers threads slices := by
  have hcores : 0 < threads.availableParallelism.getD 4 := by
    cases h : threads.availableParallelism with
    | none => exact Nat.zero_lt_succ 3
    | some n => exact threads.positive n h
  unfold importWorkers
  omega

/-- The postings go to the shards of the workers, which are merged in the order of the workers. -/
def ingestBatchImportSharded (threads : Threads) (items : List IngestItem) : CorpusM sub Unit := do
  let slices := windows importShardItems items
  let claims := threads.claims 0 _ slices.length (importWorkers_pos threads slices.length)
  let outs ← claims.byWorker.mapM fun claimed => do
    attempt
    pure (workerOut sub slices claimed)
  match reassemble slices.length (outs.flatMap (·.2)) with
  | .error i => throw (.err (sliceNotProduced i))
  | .ok perSlice =>
    storeChunked ((slices.zip perSlice).flatMap fun slice =>
      (slice.1.map (·.sourceId)).zip slice.2)
    (outs.filterMap (·.1)).forM mergeShard
    slices.forM fun _ => foldPostings

/-- The shards lie beside the file of the estate, if it has one. -/
def ingestBatchImport (threads : Threads) (onDisk : Bool) (items : List IngestItem) :
    CorpusM sub Unit :=
  if items = [] then pure ()
  else if onDisk then ingestBatchImportSharded threads items
  else ingestBatchImportSerial items

end Import

end MootMemory
