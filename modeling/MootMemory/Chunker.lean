import MootMemory.CorpusTypes

namespace MootMemory

variable (sub : CorpusSubstrate)

/-- The character that parts the fields of a chunk's name. -/
def unitSeparator : Char := '\x1f'

/-- The name of a chunk, from which its id is derived. -/
def chunkName (sourceId : String) (startOffset : Nat) (text : String) : String :=
  sourceId ++ String.singleton unitSeparator ++ toString startOffset ++
    String.singleton unitSeparator ++ text

def deriveId (sourceId : String) (startOffset : Nat) (text : String) : sub.ChunkId :=
  sub.newV5 (chunkName sourceId startOffset text)

def Chunk.contentAddressed (sourceId : String) (startOffset length : Nat) (text : String)
    (hlc : Hlc) : Chunk sub :=
  { id := deriveId sub sourceId startOffset text, sourceId, startOffset, length, text, hlc }

structure ChunkerConfiguration where
  targetChars : Nat
  overlapChars : Nat
  respectSentences : Bool
deriving DecidableEq, Repr

def ChunkerConfiguration.new (targetChars overlapChars : Nat) (respectSentences : Bool) :
    ChunkerConfiguration :=
  let target := max targetChars 1
  { targetChars := target, overlapChars := min overlapChars (target - 1), respectSentences }

def ChunkerConfiguration.default : ChunkerConfiguration := .new 800 100 true

/-- What the chunker keeps over the segments of a text. -/
structure ChunkScan where
  chunks : List (Chunk sub)
  buffer : String
  bufferStart : Nat
  currentOffset : Nat
  clock : HlcGenerator

/-- A chunk of what is in the buffer. -/
def emit (sourceId : String) (nowMillis : Int) (scan : ChunkScan sub) : ChunkScan sub :=
  let sent := sub.send scan.clock nowMillis
  { scan with
    chunks := scan.chunks ++ [.contentAddressed sub sourceId scan.bufferStart scan.buffer.length
      scan.buffer sent.1]
    clock := sent.2 }

/-- The buffer goes out as a chunk; its end stays as the overlap with the next. -/
def flush (sourceId : String) (config : ChunkerConfiguration) (nowMillis : Int)
    (scan : ChunkScan sub) : ChunkScan sub :=
  if scan.buffer = "" then scan
  else
    let bufLen := scan.buffer.length
    let overlap := min config.overlapChars bufLen
    { emit sub sourceId nowMillis scan with
      buffer :=
        if 0 < overlap then String.ofList (scan.buffer.toList.drop (bufLen - overlap)) else ""
      bufferStart := scan.bufferStart + bufLen - overlap }

/-- An empty buffer starts where the text is. -/
def startBuffer (scan : ChunkScan sub) : ChunkScan sub :=
  if scan.buffer = "" then { scan with bufferStart := scan.currentOffset } else scan

/-- Room for a segment: what it would not fit in with goes out first. -/
def makeRoom (sourceId : String) (config : ChunkerConfiguration) (nowMillis : Int)
    (scan : ChunkScan sub) (segLen : Nat) : ChunkScan sub :=
  if scan.buffer.length + segLen ≤ config.targetChars ∨ scan.buffer = "" then scan
  else startBuffer sub (flush sub sourceId config nowMillis scan)

def push (scan : ChunkScan sub) (segment : String) : ChunkScan sub :=
  { scan with
    buffer := scan.buffer ++ segment
    currentOffset := scan.currentOffset + segment.length }

def chunkSegment (sourceId : String) (config : ChunkerConfiguration) (nowMillis : Int)
    (scan : ChunkScan sub) (segment : String) : ChunkScan sub :=
  let scan := makeRoom sub sourceId config nowMillis (startBuffer sub scan) segment.length
  let scan := push sub scan segment
  if config.targetChars ≤ scan.buffer.length then flush sub sourceId config nowMillis scan
  else scan

def scanText (text sourceId : String) (config : ChunkerConfiguration) (clock : HlcGenerator)
    (nowMillis : Int) : ChunkScan sub :=
  let segments := if config.respectSentences then sub.sentences text else [text]
  segments.foldl (chunkSegment sub sourceId config nowMillis) ⟨[], "", 0, 0, clock⟩

def chunk (text sourceId : String) (config : ChunkerConfiguration) (clock : HlcGenerator)
    (nowMillis : Int) : List (Chunk sub) :=
  let scan := scanText sub text sourceId config clock nowMillis
  if scan.buffer = "" then scan.chunks else (emit sub sourceId nowMillis scan).chunks

def chunkWithDefaultHlc (text sourceId : String) (config : ChunkerConfiguration)
    (nowMillis : Int) : List (Chunk sub) :=
  chunk sub text sourceId config (.new 1) nowMillis

/-- Runs of letters and digits, in lower case. -/
def defaultKeywordTokens (text : String) : List String :=
  let scan := (sub.toLowercase text).foldl (fun scan c =>
    if sub.isAlphabetic c || c.isDigit then (scan.1, scan.2 ++ [c])
    else if scan.2 ≠ [] then (scan.1 ++ [String.ofList scan.2], [])
    else scan) (([] : List String), ([] : List Char))
  if scan.2 ≠ [] then scan.1 ++ [String.ofList scan.2] else scan.1

section Names

variable {sub}

/-- A chunk is made for the source, and its id is derived from what it says. -/
def Chunk.MadeFor (sourceId : String) (chunk : Chunk sub) : Prop :=
  chunk.sourceId = sourceId ∧ chunk.id = deriveId sub sourceId chunk.startOffset chunk.text

variable {sourceId : String} {config : ChunkerConfiguration} {nowMillis : Int}
  {scan : ChunkScan sub} {segment : String} {P : Chunk sub → Prop}

/-- The property holds of whatever is made of a text that is not empty. -/
def HoldsOfMade (sourceId : String) (P : Chunk sub → Prop) : Prop :=
  ∀ startOffset text hlc, text ≠ "" →
    P (.contentAddressed sub sourceId startOffset text.length text hlc)

theorem forall_emit (hP : HoldsOfMade sourceId P) (hbuffer : scan.buffer ≠ "")
    (h : ∀ c ∈ scan.chunks, P c) : ∀ c ∈ (emit sub sourceId nowMillis scan).chunks, P c := by
  intro c hc
  rcases List.mem_append.mp hc with hc | hc
  · exact h c hc
  · rw [List.mem_singleton.mp hc]
    exact hP _ _ _ hbuffer

theorem forall_flush (hP : HoldsOfMade sourceId P) (h : ∀ c ∈ scan.chunks, P c) :
    ∀ c ∈ (flush sub sourceId config nowMillis scan).chunks, P c := by
  unfold flush
  split
  next => exact h
  next hbuffer => exact forall_emit hP hbuffer h

theorem chunks_startBuffer : (startBuffer sub scan).chunks = scan.chunks := by
  unfold startBuffer
  split <;> rfl

theorem forall_chunkSegment (hP : HoldsOfMade sourceId P) (h : ∀ c ∈ scan.chunks, P c) :
    ∀ c ∈ (chunkSegment sub sourceId config nowMillis scan segment).chunks, P c := by
  have hstart : ∀ c ∈ (startBuffer sub scan).chunks, P c := by
    rw [chunks_startBuffer]
    exact h
  have hroom : ∀ c ∈ (makeRoom sub sourceId config nowMillis (startBuffer sub scan)
      segment.length).chunks, P c := by
    unfold makeRoom
    split
    next => exact hstart
    next =>
      rw [chunks_startBuffer]
      exact forall_flush hP hstart
  unfold chunkSegment
  dsimp only
  split
  next => exact forall_flush hP hroom
  next => exact hroom

theorem forall_chunk (hP : HoldsOfMade sourceId P) {text : String} {clock : HlcGenerator} :
    ∀ c ∈ chunk sub text sourceId config clock nowMillis, P c := by
  have hscan : ∀ (segments : List String) (scan : ChunkScan sub), (∀ c ∈ scan.chunks, P c) →
      ∀ c ∈ (segments.foldl (chunkSegment sub sourceId config nowMillis) scan).chunks, P c := by
    intro segments
    induction segments with
    | nil => exact fun _ h => h
    | cons segment segments ih => exact fun scan h => ih _ (forall_chunkSegment hP h)
  have hend : ∀ c ∈ (scanText sub text sourceId config clock nowMillis).chunks, P c :=
    hscan _ _ fun _ h => absurd h List.not_mem_nil
  unfold chunk
  dsimp only
  split
  next => exact hend
  next hbuffer => exact forall_emit hP hbuffer hend

theorem madeFor_chunkWithDefaultHlc {text : String} :
    ∀ c ∈ chunkWithDefaultHlc sub text sourceId config nowMillis, c.MadeFor sourceId :=
  forall_chunk fun _ _ _ _ => ⟨rfl, rfl⟩

theorem text_ne_of_mem_chunkWithDefaultHlc {text : String} :
    ∀ c ∈ chunkWithDefaultHlc sub text sourceId config nowMillis, c.text ≠ "" :=
  forall_chunk fun _ _ _ htext => htext

/-- The parts of two lists before and after the first separator. -/
theorem append_cons_inj {α : Type} {a : α} {xs ys xs' ys' : List α} (hx : a ∉ xs) (hx' : a ∉ xs')
    (h : xs ++ a :: ys = xs' ++ a :: ys') : xs = xs' ∧ ys = ys' := by
  induction xs generalizing xs' with
  | nil =>
    cases xs' with
    | nil => exact ⟨rfl, (List.cons.inj h).2⟩
    | cons b xs' => exact absurd ((List.cons.inj h).1 ▸ List.mem_cons_self) hx'
  | cons b xs ih =>
    cases xs' with
    | nil => exact absurd ((List.cons.inj h).1 ▸ List.mem_cons_self) hx
    | cons b' xs' =>
      obtain ⟨rfl, htail⟩ := List.cons.inj h
      obtain ⟨rfl, rfl⟩ := ih (fun hm => hx (List.mem_cons_of_mem _ hm))
        (fun hm => hx' (List.mem_cons_of_mem _ hm)) htail
      exact ⟨rfl, rfl⟩

theorem unitSeparator_notMem_toString (n : Nat) : unitSeparator ∉ (toString n).toList := by
  intro h
  rw [Nat.toString_eq_repr, Nat.toList_repr] at h
  exact absurd (Nat.isDigit_of_mem_toDigits (b := 10) (by decide) (by decide) h) (by decide)

theorem toList_toString_injective {n n' : Nat} (h : (toString n).toList = (toString n').toList) :
    n = n' := by
  simp only [Nat.toString_eq_repr, Nat.toList_repr] at h
  rw [← Nat.ofDigitChars_ten_toDigits (n := n), h, Nat.ofDigitChars_ten_toDigits]

theorem toList_chunkName (sourceId : String) (offset : Nat) (text : String) :
    (chunkName sourceId offset text).toList =
      sourceId.toList ++ unitSeparator :: ((toString offset).toList ++
        unitSeparator :: text.toList) := by
  simp only [chunkName, String.toList_append, String.toList_singleton, List.append_assoc,
    List.cons_append, List.nil_append]

/-- Within a source the name tells offset and text. -/
theorem chunkName_inj {offset offset' : Nat} {text text' : String}
    (h : chunkName sourceId offset text = chunkName sourceId offset' text') :
    offset = offset' ∧ text = text' := by
  have hlist := congrArg String.toList h
  rw [toList_chunkName, toList_chunkName, List.append_cancel_left_eq, List.cons.injEq] at hlist
  obtain ⟨hoffset, htext⟩ := append_cons_inj (unitSeparator_notMem_toString offset)
    (unitSeparator_notMem_toString offset') hlist.2
  exact ⟨toList_toString_injective hoffset, String.toList_injective htext⟩

/-- A source id without the character that parts the fields. -/
def CleanSource (sourceId : String) : Prop := unitSeparator ∉ sourceId.toList

instance (sourceId : String) : Decidable (CleanSource sourceId) :=
  inferInstanceAs (Decidable (unitSeparator ∉ sourceId.toList))

/-- The name of a chunk of a clean source tells source, offset and text. -/
theorem chunkName_inj_of_clean {sourceId' : String} (hclean : CleanSource sourceId)
    (hclean' : CleanSource sourceId') {offset offset' : Nat} {text text' : String}
    (h : chunkName sourceId offset text = chunkName sourceId' offset' text') :
    sourceId = sourceId' ∧ offset = offset' ∧ text = text' := by
  have hlist := congrArg String.toList h
  rw [toList_chunkName, toList_chunkName] at hlist
  obtain rfl := String.toList_injective (append_cons_inj hclean hclean' hlist).1
  exact ⟨rfl, chunkName_inj h⟩

/-- A name with a text is that of one source and offset. -/
theorem chunkName_inj_of_text {sourceId' : String} {offset offset' : Nat} {text : String}
    (h : chunkName sourceId offset text = chunkName sourceId' offset' text) :
    sourceId = sourceId' ∧ offset = offset' := by
  have hlist := congrArg (fun s => s.toList.reverse) h
  simp only [toList_chunkName, List.reverse_append, List.reverse_cons, List.append_assoc,
    List.append_cancel_left_eq, List.cons_append, List.nil_append, List.cons.injEq,
    true_and] at hlist
  obtain ⟨hoffset, hsource⟩ := append_cons_inj
    (fun hm => unitSeparator_notMem_toString offset (List.mem_reverse.mp hm))
    (fun hm => unitSeparator_notMem_toString offset' (List.mem_reverse.mp hm)) hlist
  exact ⟨String.toList_injective (List.reverse_injective hsource),
    toList_toString_injective (List.reverse_injective hoffset)⟩

end Names

end MootMemory
