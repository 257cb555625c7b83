import MootMemory.RowSet
import MootMemory.KeyedTable
import MootMemory.EffectRun
import MootMemory.WandExactness
import MootMemory.LoopRuns
import Mathlib.Algebra.BigOperators.Group.Finset.Basic
import Mathlib.Data.Finset.Sort

namespace MootMemory

/-- A row of `iix_termfreqs`. -/
structure TermFreq where
  term : String
  itemId : String
  freq : Nat
deriving DecidableEq, Repr

def TermFreq.key (row : TermFreq) : String × String := (row.term, row.itemId)

/-- A row of `iix_doclens`. -/
structure DocLen where
  itemId : String
  length : Nat
deriving DecidableEq, Repr

/-- The two tables of the sidecar. -/
@[ext] structure PostingTables where
  termFreqs : RowSet TermFreq.key
  docLens : RowSet DocLen.itemId
deriving DecidableEq

/-- How often each term occurs among the tokens. -/
def termFreqsOf (itemId : String) (tokens : List String) : List TermFreq :=
  tokens.dedup.map fun term => ⟨term, itemId, tokens.count term⟩

namespace PostingTables

def empty : PostingTables := ⟨.empty, .empty⟩

/-- `delete_from_db`. -/
def deleteItem (tables : PostingTables) (itemId : String) : PostingTables where
  termFreqs := tables.termFreqs.deleteWhere (·.itemId == itemId)
  docLens := tables.docLens.deleteWhere (·.itemId == itemId)

/-- The postings of an item are deleted, and those of its tokens stored; an item without tokens
gets none. -/
def indexItem (tables : PostingTables) (itemId : String) (tokens : List String) : PostingTables :=
  let tables := tables.deleteItem itemId
  if tokens = [] then tables
  else
    { termFreqs := tables.termFreqs.replaceAll (termFreqsOf itemId tokens)
      docLens := tables.docLens.replace ⟨itemId, tokens.length⟩ }

/-- The copy of the tables of an attached shard. -/
def overwrite (tables shard : PostingTables) : PostingTables where
  termFreqs := tables.termFreqs.overwrite shard.termFreqs
  docLens := tables.docLens.overwrite shard.docLens

end PostingTables

/-- The floats of a parameter set, as their bits. -/
structure BM25Parameters where
  k1 : UInt64
  b : UInt64
deriving DecidableEq, Repr

def floatIsNan (bits : UInt64) : Bool :=
  bits &&& 0x7FF0000000000000 == 0x7FF0000000000000 && bits &&& 0x000FFFFFFFFFFFFF != 0

def floatIsZero (bits : UInt64) : Bool := bits &&& 0x7FFFFFFFFFFFFFFF == 0

/-- Equality of floats: a NaN equals nothing, and the zeros are equal. -/
def floatEq (a b : UInt64) : Bool :=
  !floatIsNan a && (a == b || floatIsZero a && floatIsZero b)

instance : BEq BM25Parameters := ⟨fun p q => floatEq p.k1 q.k1 && floatEq p.b q.b⟩

def BM25Parameters.default : BM25Parameters := ⟨0x3FF8000000000000, 0x3FE8000000000000⟩

def quantScale : Int := 100

/-- The quantized impact of a posting, computed in floating point from the number of documents, the
sum of their lengths, the document frequency of the term, the length of the document and the
frequency of the term in it. -/
abbrev ImpactWeighting := BM25Parameters → Nat → Nat → Nat → Nat → Nat → Int

namespace BM25Weighting

/-- The terms of the index; a term's place is its id. -/
def terms (tables : PostingTables) : List String := (tables.termFreqs.rows.image (·.term)).sort

def buildTermIdMap (tables : PostingTables) (term : String) : Option Nat :=
  (terms tables).findIdx? (· == term)

def docLength (tables : PostingTables) (itemId : String) : Nat :=
  ((tables.docLens.rows.filter (·.itemId = itemId)).sum (·.length))

/-- The postings of a term, by item. -/
def termPostings (weighting : ImpactWeighting) (parameters : BM25Parameters)
    (tables : PostingTables) (term : String) : List ImpactPosting :=
  let rows := tables.termFreqs.rows.filter (·.term = term)
  let totalLen := tables.docLens.rows.sum (·.length)
  ((rows.image fun row => toLex (row.itemId, row.freq)).sort).map fun entry =>
    { itemId := (ofLex entry).1
      impact := weighting parameters tables.docLens.rows.card totalLen rows.card
        (docLength tables (ofLex entry).1) (ofLex entry).2 }

/-- The index of the tables and the ids of its terms; without documents there are no terms. -/
def build (weighting : ImpactWeighting) (tables : PostingTables) (parameters : BM25Parameters) :
    InvertedIndex × (String → Option Nat) :=
  if tables.docLens.rows.card = 0 then (.new fun _ => none, fun _ => none)
  else
    (.new fun termId => (terms tables)[termId]?.map (termPostings weighting parameters tables),
      buildTermIdMap tables)

/-- Every known term of the query once, with the weight of all of them. -/
def queryPairs (queryTerms : List String) (termMapping : String → Option Nat) :
    List (Nat × Int) :=
  (queryTerms.filterMap termMapping).reverse.dedup.reverse.map fun termId => (termId, quantScale)

end BM25Weighting

inductive Algorithm where
  | wand
  | blockMaxWand
deriving DecidableEq, Repr

namespace InvertedIndex

/-- The best items; their scores are in hundredths. -/
def topK (index : InvertedIndex) (query : List (Nat × Int)) (k : Nat) (algorithm : Algorithm) :
    List (String × Int) :=
  if k = 0 ∨ query = [] ∨ index.buildCursors query = [] then []
  else
    let fuel := index.postingCount query + 1
    match algorithm with
    | .wand => (index.runWand fuel query k).getD []
    | .blockMaxWand => (index.runBmw fuel query k).getD []

end InvertedIndex

/-- A cached index with the parameters it was built for. -/
structure CachedIndex where
  parameters : BM25Parameters
  index : InvertedIndex
  termMapping : String → Option Nat

/-- The sidecar: its tables, those at the begin of an open transaction, and the cached index. -/
structure InvertedIndexStore where
  tables : PostingTables
  saved : Option PostingTables
  cached : Option CachedIndex

/-- The best items for the terms of a query. -/
def CachedIndex.answer (cached : CachedIndex) (queryTerms : List String) (k : Nat)
    (algorithm : Algorithm) : List (String × Int) :=
  cached.index.topK (BM25Weighting.queryPairs queryTerms cached.termMapping) k algorithm

namespace InvertedIndexStore

def opened (tables : PostingTables) : InvertedIndexStore := ⟨tables, none, none⟩

variable (weighting : ImpactWeighting) (store : InvertedIndexStore)

/-- The sidecar once an item is indexed. -/
def indexed (itemId : String) (tokens : List String) : InvertedIndexStore :=
  { store with tables := store.tables.indexItem itemId tokens, cached := none }

/-- The sidecar once an item is removed. -/
def removed (itemId : String) : InvertedIndexStore :=
  { store with tables := store.tables.deleteItem itemId, cached := none }

/-- The sidecar once all items are removed. -/
def cleared : InvertedIndexStore := { store with tables := .empty, cached := none }

/-- The sidecar once its open transaction is rolled back; the cached index is not looked at. -/
def rolledBack : InvertedIndexStore :=
  match store.saved with
  | some tables => { store with tables := tables, saved := none }
  | none => store

/-- The index of the tables as they are. -/
def freshIndex (parameters : BM25Parameters) : CachedIndex :=
  let built := BM25Weighting.build weighting store.tables parameters
  ⟨parameters, built.1, built.2⟩

/-- The cached index, if it is for the parameters. -/
def cachedFor (parameters : BM25Parameters) : Option CachedIndex :=
  store.cached.filter (·.parameters == parameters)

/-- The index a query is answered from. -/
def queriedIndex (parameters : BM25Parameters) : CachedIndex :=
  (store.cachedFor parameters).getD (store.freshIndex weighting parameters)

/-- A query that can load the tables, and the sidecar after it. -/
def queried (queryTerms : List String) (k : Nat) (parameters : BM25Parameters)
    (algorithm : Algorithm) : List (String × Int) × InvertedIndexStore :=
  let cached := store.queriedIndex weighting parameters
  (cached.answer queryTerms k algorithm, { store with cached := some cached })

end InvertedIndexStore

/-- A statement that fails: what a query had read of the tables before, and whether the open
transaction is rolled back with it. -/
structure SqliteError where
  reason : String
  readTermFreq : TermFreq → Bool
  readDocLen : DocLen → Bool
  rollsBack : Bool

/-- A sidecar and what becomes of the coming statements: each goes well or fails. Those past the end
of the list go well. -/
structure IndexSession where
  store : InvertedIndexStore
  faults : List (Option SqliteError)

abbrev IndexM := EStateM SqliteError IndexSession

namespace InvertedIndexStore

section Statements

/-- A statement on the connection. -/
def statement (f : InvertedIndexStore → InvertedIndexStore) : IndexM Unit := fun s =>
  match s.faults with
  | [] => .ok () { s with store := f s.store }
  | none :: faults => .ok () ⟨f s.store, faults⟩
  | some e :: faults =>
    .error e ⟨if e.rollsBack then s.store.rolledBack else s.store, faults⟩

def writeTables (f : PostingTables → PostingTables) : IndexM Unit :=
  statement fun store => { store with tables := f store.tables }

def dropCache : IndexM Unit := modify fun s => { s with store.cached := none }

/-- A statement whose error is dropped. -/
def tryStatement (f : InvertedIndexStore → InvertedIndexStore) : IndexM Unit := fun s =>
  .ok () (stateAfter (statement f s))

/-- What follows an action whether it went well or not. -/
def followedBy (x : IndexM Unit) (next : IndexM Unit) : IndexM Unit := fun s =>
  match x s with
  | .ok () s' => .ok () (stateAfter (next s'))
  | .error e s' => .error e (stateAfter (next s'))

/-- What follows an action that failed. -/
def onError (x : IndexM Unit) (undo : IndexM Unit) : IndexM Unit := fun s =>
  match x s with
  | .ok () s' => .ok () s'
  | .error e s' => .error e (stateAfter (undo s'))

/-- A statement that is refused within or without a transaction. -/
def refused (reason : String) : SqliteError := ⟨reason, fun _ => false, fun _ => false, false⟩

end Statements

section Calls

/-- `delete_from_db`, a statement for each table. -/
def deleteFromDb (itemId : String) : IndexM Unit := do
  writeTables fun t => { t with termFreqs := t.termFreqs.deleteWhere (·.itemId == itemId) }
  writeTables fun t => { t with docLens := t.docLens.deleteWhere (·.itemId == itemId) }

/-- A statement for each row, the terms in the order of their map; the cached index is dropped
last. -/
def index (order : IterationOrder TermFreq) (itemId : String) (tokens : List String) :
    IndexM Unit := do
  deleteFromDb itemId
  if tokens = [] then dropCache
  else do
    (order.run (termFreqsOf itemId tokens)).forM fun row =>
      writeTables fun t => { t with termFreqs := t.termFreqs.replace row }
    writeTables fun t => { t with docLens := t.docLens.replace ⟨itemId, tokens.length⟩ }
    dropCache

def remove (itemId : String) : IndexM Unit := do
  deleteFromDb itemId
  dropCache

def clearAll : IndexM Unit := do
  writeTables fun t => { t with termFreqs := .empty }
  writeTables fun t => { t with docLens := .empty }
  dropCache

def beginBatch : IndexM Unit := do
  let s ← get
  if s.store.saved.isSome then
    throw (refused "cannot start a transaction within a transaction")
  else statement fun store => { store with saved := some store.tables }

def commitBatch : IndexM Unit := do
  let s ← get
  if s.store.saved.isNone then throw (refused "cannot commit - no transaction is active")
  else statement fun store => { store with saved := none }

/-- A rollback that fails is not looked at, nor is the cached index. -/
def rollbackBatch : IndexM Unit := tryStatement rolledBack

/-- The copy of an attached shard, in a transaction of its own. -/
def copyShard (shard : PostingTables) : IndexM Unit := do
  beginBatch
  onError (do
    writeTables fun t => { t with termFreqs := t.termFreqs.overwrite shard.termFreqs }
    writeTables fun t => { t with docLens := t.docLens.overwrite shard.docLens }) rollbackBatch
  commitBatch

/-- A shard cannot be attached within a transaction; it is detached whether the copy went well or
not. The cached index is not looked at. -/
def mergeShard (shard : PostingTables) : IndexM Unit := do
  let s ← get
  if s.store.saved.isSome then throw (refused "cannot ATTACH database within transaction")
  else do
    statement id
    followedBy (copyShard shard) (tryStatement id)

/-- The tables were written by the merge. -/
def foldPostings : IndexM Unit := dropCache

/-- `load_state`: a table that cannot be read to its end ends the load, with what was read. -/
def loadState (s : IndexSession) : PostingTables × IndexSession :=
  let tables := s.store.tables
  match statement id s with
  | .error e s' => (⟨tables.termFreqs.deleteWhere (!e.readTermFreq ·), .empty⟩, s')
  | .ok () s' =>
    match statement id s' with
    | .error e s'' => (⟨tables.termFreqs, tables.docLens.deleteWhere (!e.readDocLen ·)⟩, s'')
    | .ok () s'' => (tables, s'')

/-- The error of a load is dropped, and what it read is cached. -/
def topK (weighting : ImpactWeighting) (queryTerms : List String) (k : Nat)
    (parameters : BM25Parameters) (algorithm : Algorithm) : IndexM (List (String × Int)) := fun s =>
  match s.store.cachedFor parameters with
  | some cached => .ok (cached.answer queryTerms k algorithm) s
  | none =>
    let loaded := loadState s
    let cached := (opened loaded.1).freshIndex weighting parameters
    .ok (cached.answer queryTerms k algorithm) { loaded.2 with store.cached := some cached }

end Calls

end InvertedIndexStore

/-- The calls on a sidecar. -/
inductive IndexCall where
  | index (order : IterationOrder TermFreq) (itemId : String) (tokens : List String)
  | remove (itemId : String)
  | mergeShard (shard : PostingTables)
  | foldPostings
  | clearAll
  | beginBatch
  | commitBatch
  | rollbackBatch
  | topK (queryTerms : List String) (k : Nat) (parameters : BM25Parameters) (algorithm : Algorithm)

def IndexCall.run (weighting : ImpactWeighting) : IndexCall → IndexM Unit
  | .index order itemId tokens => InvertedIndexStore.index order itemId tokens
  | .remove itemId => InvertedIndexStore.remove itemId
  | .mergeShard shard => InvertedIndexStore.mergeShard shard
  | .foldPostings => InvertedIndexStore.foldPostings
  | .clearAll => InvertedIndexStore.clearAll
  | .beginBatch => InvertedIndexStore.beginBatch
  | .commitBatch => InvertedIndexStore.commitBatch
  | .rollbackBatch => InvertedIndexStore.rollbackBatch
  | .topK queryTerms k parameters algorithm => do
    let _ ← InvertedIndexStore.topK weighting queryTerms k parameters algorithm

/-- The sidecar after a call, also when it failed. -/
def IndexSession.step (weighting : ImpactWeighting) (s : IndexSession) (call : IndexCall) :
    IndexSession :=
  stateAfter (call.run weighting s)

end MootMemory
