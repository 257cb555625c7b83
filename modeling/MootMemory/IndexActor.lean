import MootMemory.InvertedIndexStore

namespace MootMemory

/-- Whether what an index is built from is held in memory. -/
inductive ResidencyHint where
  | diskBacked
  | ramResident
deriving DecidableEq, Repr

/-- The index of tables. -/
def CachedIndex.ofTables (weighting : ImpactWeighting) (tables : PostingTables)
    (parameters : BM25Parameters) : CachedIndex :=
  let built := BM25Weighting.build weighting tables parameters
  ⟨parameters, built.1, built.2⟩

/-- The Swift store. Texts that Swift holds for equal are one text here. The parameters that the
cached pair was built for are not looked at, and of the number of mutations the store has 64 bits. -/
structure IndexActor where
  tables : PostingTables
  ramTermFreqs : Option (RowSet TermFreq.key)
  ramDocLengths : Option (RowSet DocLen.itemId)
  cachedPair : Option CachedIndex
  isDirty : Bool
  mutations : Nat

/-- An item to index, with its frequencies in the order that the dictionary is gone through. -/
structure IndexedItem where
  itemId : String
  tokens : List String
  tf : List TermFreq
  perm : tf.Perm (termFreqsOf itemId tokens)

/-- What rows are deleted for. -/
inductive Deletion where
  | index (item : IndexedItem)
  | remove (itemId : String)
  | deleteAll

def Deletion.covers : Deletion → String → Bool
  | .index item, itemId => itemId == item.itemId
  | .remove removed, itemId => itemId == removed
  | .deleteAll, _ => true

/-- How far a call is: what it does next, up to its next await. -/
inductive IndexTask where
  | deleteTermFreqs (deletion : Deletion)
  | deleteDocLens (deletion : Deletion)
  | deleted (deletion : Deletion)
  | putTermFreq (item : IndexedItem) (row : TermFreq) (rest : List TermFreq)
  | putDocLen (item : IndexedItem)
  | indexed (item : IndexedItem)
  | mergeShard (shard : PostingTables)
  | foldPostings
  | buildIndex (parameters : BM25Parameters)
  | loadTermFreqs (parameters : BM25Parameters) (builtFrom : Nat)
  | loadDocLengths (parameters : BM25Parameters) (builtFrom : Nat)
      (termFreqs : RowSet TermFreq.key)
  | publish (parameters : BM25Parameters) (builtFrom : Nat) (loaded : PostingTables)

/-- What comes of a task's next step. -/
inductive IndexTurn where
  | goesOn (task : IndexTask)
  | ends
  | returns (pair : CachedIndex)

/-- The calls; postings are folded once a shard is merged into the tables, and the best items are
looked up in an index that is built. -/
inductive IndexActorCall where
  | index (item : IndexedItem)
  | remove (itemId : String)
  | foldPostings (shard : PostingTables)
  | deleteAll
  | buildIndex (parameters : BM25Parameters)

namespace IndexTask

/-- The frequencies that are left to put, and the length after them. -/
def putTermFreqs (item : IndexedItem) : List TermFreq → IndexTask
  | [] => .putDocLen item
  | row :: rest => .putTermFreq item row rest

def ofCall : IndexActorCall → IndexTask
  | .index item => .deleteTermFreqs (.index item)
  | .remove itemId => .deleteTermFreqs (.remove itemId)
  | .foldPostings shard => .mergeShard shard
  | .deleteAll => .deleteTermFreqs .deleteAll
  | .buildIndex parameters => .buildIndex parameters

/-- The steps that storage takes, and may fail. -/
def OnStorage : IndexTask → Prop
  | .deleted _ | .indexed _ | .foldPostings | .buildIndex _ | .publish _ _ _ => False
  | _ => True

end IndexTask

namespace IndexActor

def opened (hint : ResidencyHint) (tables : PostingTables) : IndexActor :=
  match hint with
  | .ramResident => ⟨tables, some tables.termFreqs, some tables.docLens, none, true, 0⟩
  | .diskBacked => ⟨tables, none, none, none, true, 0⟩

variable (actor : IndexActor)

/-- The counter of mutations, which wraps around. -/
def dirtyGeneration : UInt64 := .ofNat actor.mutations

def markDirty : IndexActor := { actor with isDirty := true, mutations := actor.mutations + 1 }

/-- The pair that is served without building one. -/
def served : Option CachedIndex := if actor.isDirty then none else actor.cachedPair

/-- What is in memory to build an index from. -/
def mirror : Option PostingTables :=
  match actor.ramTermFreqs, actor.ramDocLengths with
  | some termFreqs, some docLens => some ⟨termFreqs, docLens⟩
  | _, _ => none

/-- The item's entries are taken out of memory. -/
def purge (itemId : String) : IndexActor :=
  match actor.ramTermFreqs with
  | none => actor
  | some termFreqs =>
    { actor with
      ramTermFreqs := some (termFreqs.deleteWhere (·.itemId == itemId))
      ramDocLengths := actor.ramDocLengths.map (·.deleteWhere (·.itemId == itemId)) }

/-- The item's entries are put into memory. -/
def remember (item : IndexedItem) : IndexActor :=
  match actor.ramTermFreqs with
  | none => actor
  | some termFreqs =>
    { actor with
      ramTermFreqs := some (termFreqs.replaceAll item.tf)
      ramDocLengths := actor.ramDocLengths.map (·.replace ⟨item.itemId, item.tokens.length⟩) }

/-- Nothing is held in memory any more. -/
def release : IndexActor :=
  { actor with cachedPair := none, ramTermFreqs := none, ramDocLengths := none }

def cache (pair : CachedIndex) : IndexActor :=
  { actor with cachedPair := some pair, isDirty := false }

/-- The next step of a task. -/
def turn (weighting : ImpactWeighting) : IndexTask → IndexActor × IndexTurn
  | .deleteTermFreqs deletion =>
    ({ actor with
        tables.termFreqs := actor.tables.termFreqs.deleteWhere fun row =>
          deletion.covers row.itemId },
      .goesOn (.deleteDocLens deletion))
  | .deleteDocLens deletion =>
    ({ actor with
        tables.docLens := actor.tables.docLens.deleteWhere fun row => deletion.covers row.itemId },
      .goesOn (.deleted deletion))
  | .deleted (.index item) =>
    let purged := actor.purge item.itemId
    if item.tokens = [] then (purged.markDirty, .ends)
    else (purged, .goesOn (.putTermFreqs item item.tf))
  | .deleted _ => (actor.release.markDirty, .ends)
  | .putTermFreq item row rest =>
    ({ actor with tables.termFreqs := actor.tables.termFreqs.replace row },
      .goesOn (.putTermFreqs item rest))
  | .putDocLen item =>
    ({ actor with tables.docLens := actor.tables.docLens.replace ⟨item.itemId, item.tokens.length⟩ },
      .goesOn (.indexed item))
  | .indexed item => ((actor.remember item).markDirty, .ends)
  | .mergeShard shard =>
    ({ actor with tables := actor.tables.overwrite shard }, .goesOn .foldPostings)
  | .foldPostings => ({ actor.markDirty with ramTermFreqs := none, ramDocLengths := none }, .ends)
  | .buildIndex parameters =>
    match actor.served with
    | some cached => (actor, .returns cached)
    | none =>
      match actor.mirror with
      | some maps =>
        let pair := CachedIndex.ofTables weighting maps parameters
        (actor.cache pair, .returns pair)
      | none => (actor, .goesOn (.loadTermFreqs parameters actor.mutations))
  | .loadTermFreqs parameters builtFrom =>
    (actor, .goesOn (.loadDocLengths parameters builtFrom actor.tables.termFreqs))
  | .loadDocLengths parameters builtFrom termFreqs =>
    (actor, .goesOn (.publish parameters builtFrom ⟨termFreqs, actor.tables.docLens⟩))
  | .publish parameters builtFrom loaded =>
    let pair := CachedIndex.ofTables weighting loaded parameters
    (if actor.dirtyGeneration = UInt64.ofNat builtFrom then actor.cache pair else actor,
      .returns pair)

/-- What a task returns when no other runs and storage does not fail. -/
inductive Answers (weighting : ImpactWeighting) : IndexActor → IndexTask → CachedIndex → Prop
  | now {actor actor' : IndexActor} {task : IndexTask} {pair : CachedIndex}
      (h : actor.turn weighting task = (actor', .returns pair)) : Answers weighting actor task pair
  | later {actor actor' : IndexActor} {task task' : IndexTask} {pair : CachedIndex}
      (h : actor.turn weighting task = (actor', .goesOn task'))
      (rest : Answers weighting actor' task' pair) : Answers weighting actor task pair

end IndexActor

/-- A call in progress, and whether it has changed the tables. -/
structure RunningTask where
  task : IndexTask
  wrote : Bool

/-- The store and the calls in progress on it. -/
structure IndexWorld where
  actor : IndexActor
  running : List RunningTask

/-- What happens next: a call is made, or one of those in progress takes its next step, or fails. -/
inductive IndexEvent where
  | call (call : IndexActorCall)
  | turn (task : RunningTask) (others : List RunningTask)
  | fail (task : RunningTask) (others : List RunningTask)

namespace IndexWorld

def Possible (w : IndexWorld) : IndexEvent → Prop
  | .call _ => True
  | .turn task others => w.running.Perm (task :: others)
  | .fail task others => w.running.Perm (task :: others) ∧ task.task.OnStorage

def after (weighting : ImpactWeighting) (w : IndexWorld) : IndexEvent → IndexWorld
  | .call call => { w with running := ⟨.ofCall call, false⟩ :: w.running }
  | .turn task others =>
    let (actor, turn) := w.actor.turn weighting task.task
    match turn with
    | .goesOn next =>
      ⟨actor, ⟨next, task.wrote || decide (actor.tables ≠ w.actor.tables)⟩ :: others⟩
    | .ends => ⟨actor, others⟩
    | .returns _ => ⟨actor, others⟩
  | .fail _ others => { w with running := others }

/-- The worlds that events lead to from a store over tables, where each is allowed. -/
inductive Reached (weighting : ImpactWeighting) (hint : ResidencyHint) (tables : PostingTables)
    (allowed : IndexWorld → IndexEvent → Prop) : IndexWorld → Prop
  | opened : Reached weighting hint tables allowed ⟨.opened hint tables, []⟩
  | step {w : IndexWorld} {event : IndexEvent} (h : Reached weighting hint tables allowed w)
      (hpossible : w.Possible event) (hallowed : allowed w event) :
      Reached weighting hint tables allowed (w.after weighting event)

end IndexWorld

end MootMemory
