import MootMemory.CorpusTypes
import MootMemory.EffectViews

namespace MootMemory

variable (sub : CorpusSubstrate)

/-- A corpus and what becomes of the coming steps on storage and providers: each goes well or fails
with an error. Those past the end of the list go well. -/
structure Session where
  corpus : Corpus sub
  faults : List (Option CorpusKitError)

abbrev CorpusM := EStateM CorpusFault (Session sub)

variable {sub}

/-- A step that may fail. -/
def attempt : CorpusM sub Unit := fun s =>
  match s.faults with
  | [] => .ok () s
  | none :: faults => .ok () { s with faults }
  | some e :: faults => .error (.err e) { s with faults }

def getCorpus : CorpusM sub (Corpus sub) := fun s => .ok s.corpus s

def modifyCorpus (f : Corpus sub → Corpus sub) : CorpusM sub Unit := fun s =>
  .ok () { s with corpus := f s.corpus }

def readCorpus {α : Type} (f : Corpus sub → α) : CorpusM sub α := do
  attempt
  let c ← getCorpus
  pure (f c)

def writeCorpus (f : Corpus sub → Corpus sub) : CorpusM sub Unit := do
  attempt
  modifyCorpus f

/-- The tables as they were in another corpus; what is in memory stays. -/
def Corpus.withStorage (c : Corpus sub) (storage : CorpusStorage sub) : Corpus sub :=
  { c with storage }

def Corpus.withTables (c : Corpus sub) (f : PostingTables → PostingTables) : Corpus sub :=
  { c with invertedIndex.tables := f c.invertedIndex.tables }

/-- An action that is undone where it or an attempt after it fails. -/
def undoing {α : Type} (undo : Corpus sub → Corpus sub → Corpus sub) (x : CorpusM sub α) :
    CorpusM sub α := fun s =>
  match (do let a ← x; attempt; pure a : CorpusM sub α) s with
  | .ok a s' => .ok a s'
  | .error e s' => .error e { s' with corpus := undo s.corpus s'.corpus }

/-- The tables are rolled back where the action or the commit fails. -/
def inTransaction {α : Type} (x : CorpusM sub α) : CorpusM sub α := do
  attempt
  undoing (fun before after => after.withStorage before.storage) x

/-- The same on the connection of the inverted index; its cached index is not looked at. -/
def inIndexBatch {α : Type} (x : CorpusM sub α) : CorpusM sub α := do
  attempt
  undoing (fun before after => after.withTables fun _ => before.invertedIndex.tables) x

end MootMemory
