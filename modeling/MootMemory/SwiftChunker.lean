import MootMemory.ReferenceCorpus

namespace MootMemory

variable {sub : CorpusSubstrate}

/-- A character as Swift counts them, a cluster of scalars. -/
structure Grapheme where
  scalars : List Char
  nonempty : scalars ≠ []

/-- The scalars of a text one after another. -/
def scalarsOf (text : List Grapheme) : String := String.ofList (text.flatMap (·.scalars))

namespace Swift

/-- `ChunkerConfiguration.init`; the bound on the overlap is the target as it was handed in. -/
def chunkerConfiguration (targetChars overlapChars : Int) (respectSentences : Bool) :
    ChunkerConfiguration where
  targetChars := (max 1 targetChars).toNat
  overlapChars := (max 0 (min overlapChars (targetChars - 1))).toNat
  respectSentences := respectSentences

variable (sub)

structure ChunkScan where
  chunks : List (Chunk sub)
  buffer : List Grapheme
  bufferStart : Nat
  currentOffset : Nat
  clock : HlcGenerator

/-- Every chunk reads the clock anew. -/
def emit (sourceId : String) (readings : Nat → Int) (scan : ChunkScan sub) : ChunkScan sub :=
  let sent := sub.send scan.clock (readings scan.chunks.length)
  { scan with
    chunks := scan.chunks ++ [.contentAddressed sub sourceId scan.bufferStart scan.buffer.length
      (scalarsOf scan.buffer) sent.1]
    clock := sent.2 }

def flush (sourceId : String) (config : ChunkerConfiguration) (readings : Nat → Int)
    (scan : ChunkScan sub) : ChunkScan sub :=
  if scan.buffer.isEmpty then scan
  else
    let overlap := min config.overlapChars scan.buffer.length
    { emit sub sourceId readings scan with
      buffer := if 0 < overlap then scan.buffer.drop (scan.buffer.length - overlap) else []
      bufferStart := scan.bufferStart + scan.buffer.length - overlap }

def startBuffer (scan : ChunkScan sub) : ChunkScan sub :=
  if scan.buffer.isEmpty then { scan with bufferStart := scan.currentOffset } else scan

def makeRoom (sourceId : String) (config : ChunkerConfiguration) (readings : Nat → Int)
    (scan : ChunkScan sub) (segmentLen : Nat) : ChunkScan sub :=
  if scan.buffer.length + segmentLen ≤ config.targetChars ∨ scan.buffer.isEmpty then scan
  else startBuffer sub (flush sub sourceId config readings scan)

def push (scan : ChunkScan sub) (segment : List Grapheme) : ChunkScan sub :=
  { scan with
    buffer := scan.buffer ++ segment
    currentOffset := scan.currentOffset + segment.length }

def chunkSegment (sourceId : String) (config : ChunkerConfiguration) (readings : Nat → Int)
    (scan : ChunkScan sub) (segment : List Grapheme) : ChunkScan sub :=
  let scan := makeRoom sub sourceId config readings (startBuffer sub scan) segment.length
  let scan := push sub scan segment
  if config.targetChars ≤ scan.buffer.length then flush sub sourceId config readings scan
  else scan

/-- `Chunker.chunk`, of a text in the pieces that the sentence segmenter cuts it into. -/
def chunk (pieces : List (List Grapheme)) (sourceId : String) (config : ChunkerConfiguration)
    (clock : HlcGenerator) (readings : Nat → Int) : List (Chunk sub) :=
  let segments := if config.respectSentences then pieces else [pieces.flatten]
  let scan := segments.foldl (chunkSegment sub sourceId config readings) ⟨[], [], 0, 0, clock⟩
  if scan.buffer.isEmpty then scan.chunks else (emit sub sourceId readings scan).chunks

end Swift

section Counting

variable {text text' : List Grapheme}

theorem toList_scalarsOf (text : List Grapheme) :
    (scalarsOf text).toList = text.flatMap (·.scalars) := String.toList_ofList

theorem scalarsOf_append (text text' : List Grapheme) :
    scalarsOf (text ++ text') = scalarsOf text ++ scalarsOf text' := by
  rw [scalarsOf, List.flatMap_append, String.ofList_append]
  rfl

theorem length_scalarsOf (text : List Grapheme) :
    (scalarsOf text).length = (text.map (·.scalars.length)).sum := by
  rw [← String.length_toList, toList_scalarsOf, List.length_flatMap]

/-- A text has at least as many scalars as characters. -/
theorem length_le_length_scalarsOf (text : List Grapheme) :
    text.length ≤ (scalarsOf text).length := by
  rw [length_scalarsOf]
  induction text with
  | nil => exact Nat.le_refl 0
  | cons g text ih =>
    have hpos : 0 < g.scalars.length := List.length_pos_iff.mpr g.nonempty
    rw [List.map_cons, List.sum_cons, List.length_cons]
    omega

theorem scalarsOf_eq_empty_iff : scalarsOf text = "" ↔ text.isEmpty = true := by
  constructor
  · intro h
    have hlen := length_le_length_scalarsOf text
    rw [h] at hlen
    exact List.isEmpty_iff.mpr (List.eq_nil_of_length_eq_zero (Nat.le_zero.mp hlen))
  · intro h
    rw [List.isEmpty_iff.mp h]
    rfl

/-- Every character is one scalar. -/
def Plain (text : List Grapheme) : Prop := ∀ g ∈ text, g.scalars.length = 1

/-- The two counts of a text agree where every character is one scalar, and nowhere else. -/
theorem length_scalarsOf_eq_iff : (scalarsOf text).length = text.length ↔ Plain text := by
  induction text with
  | nil => exact ⟨fun _ _ h => absurd h List.not_mem_nil, fun _ => rfl⟩
  | cons g text ih =>
    have hpos : 0 < g.scalars.length := List.length_pos_iff.mpr g.nonempty
    have hle := length_le_length_scalarsOf text
    have hcons : (scalarsOf (g :: text)).length = g.scalars.length + (scalarsOf text).length := by
      rw [length_scalarsOf, length_scalarsOf, List.map_cons, List.sum_cons]
    rw [Plain, List.forall_mem_cons, hcons, List.length_cons]
    constructor
    · intro h
      exact ⟨by omega, ih.mp (by omega)⟩
    · rintro ⟨hg, hplain⟩
      have hrest := ih.mpr hplain
      omega

theorem Plain.append (h : Plain text) (h' : Plain text') : Plain (text ++ text') := fun g hg =>
  (List.mem_append.mp hg).elim (h g) (h' g)

theorem Plain.drop (h : Plain text) (n : Nat) : Plain (text.drop n) := fun g hg =>
  h g (List.mem_of_mem_drop hg)

/-- Of plain text as many scalars are dropped as characters. -/
theorem Plain.scalarsOf_drop (h : Plain text) (n : Nat) :
    String.ofList ((scalarsOf text).toList.drop n) = scalarsOf (text.drop n) := by
  induction text generalizing n with
  | nil =>
    rw [toList_scalarsOf, List.flatMap_nil, List.drop_nil, List.drop_nil]
    rfl
  | cons g text ih =>
    cases n with
    | zero => rw [List.drop_zero, List.drop_zero, String.ofList_toList]
    | succ n =>
      obtain ⟨c, hc⟩ := List.length_eq_one_iff.mp (h g List.mem_cons_self)
      have hrest := ih (fun g' hg' => h g' (List.mem_cons_of_mem _ hg')) n
      rw [toList_scalarsOf, List.flatMap_cons, hc, List.singleton_append, List.drop_succ_cons,
        List.drop_succ_cons, ← toList_scalarsOf]
      exact hrest

end Counting

section Agreement

/-- What a chunk says of itself. -/
def Chunk.span (chunk : Chunk sub) : Nat × Nat × String :=
  (chunk.startOffset, chunk.length, chunk.text)

variable {sourceId : String} {config : ChunkerConfiguration} {readings : Nat → Int}
  {nowMillis : Int} {scan : Swift.ChunkScan sub} {scan' : ChunkScan sub}

/-- The two scans have made the same chunks of a plain text, and are at the same place. -/
structure Alike (scan : Swift.ChunkScan sub) (scan' : ChunkScan sub) : Prop where
  ids : scan.chunks.map (·.id) = scan'.chunks.map (·.id)
  spans : scan.chunks.map Chunk.span = scan'.chunks.map Chunk.span
  buffer : scalarsOf scan.buffer = scan'.buffer
  plain : Plain scan.buffer
  bufferStart : scan.bufferStart = scan'.bufferStart
  currentOffset : scan.currentOffset = scan'.currentOffset

theorem Alike.length (h : Alike scan scan') : scan'.buffer.length = scan.buffer.length := by
  rw [← h.buffer]
  exact length_scalarsOf_eq_iff.mpr h.plain

theorem Alike.isEmpty (h : Alike scan scan') : scan'.buffer = "" ↔ scan.buffer.isEmpty = true := by
  rw [← h.buffer]
  exact scalarsOf_eq_empty_iff

theorem Alike.emit (h : Alike scan scan') :
    Alike (Swift.emit sub sourceId readings scan) (emit sub sourceId nowMillis scan') where
  ids := by
    unfold Swift.emit MootMemory.emit Chunk.contentAddressed
    rw [List.map_append, List.map_append, h.ids, h.buffer, h.bufferStart]
    rfl
  spans := by
    unfold Swift.emit MootMemory.emit Chunk.contentAddressed
    rw [List.map_append, List.map_append, h.spans, h.buffer, h.bufferStart, h.length]
    rfl
  buffer := h.buffer
  plain := h.plain
  bufferStart := h.bufferStart
  currentOffset := h.currentOffset

theorem Alike.flush (h : Alike scan scan') :
    Alike (Swift.flush sub sourceId config readings scan)
      (flush sub sourceId config nowMillis scan') := by
  unfold Swift.flush MootMemory.flush
  by_cases hempty : scan.buffer.isEmpty
  · rw [if_pos hempty, if_pos (h.isEmpty.mpr hempty)]
    exact h
  rw [if_neg hempty, if_neg fun hbuffer => hempty (h.isEmpty.mp hbuffer)]
  have hemit : Alike (Swift.emit sub sourceId readings scan)
      (MootMemory.emit sub sourceId nowMillis scan') := h.emit
  dsimp only
  rw [h.length]
  refine ⟨hemit.ids, hemit.spans, ?_, ?_, ?_, hemit.currentOffset⟩
  · dsimp only
    split
    next => rw [← h.buffer, h.plain.scalarsOf_drop]
    next => rfl
  · dsimp only
    split
    next => exact h.plain.drop _
    next => exact fun g hg => absurd hg List.not_mem_nil
  · dsimp only
    rw [h.bufferStart]

theorem Alike.startBuffer (h : Alike scan scan') :
    Alike (Swift.startBuffer sub scan) (startBuffer sub scan') := by
  unfold Swift.startBuffer MootMemory.startBuffer
  by_cases hempty : scan.buffer.isEmpty
  · rw [if_pos hempty, if_pos (h.isEmpty.mpr hempty)]
    exact ⟨h.ids, h.spans, h.buffer, h.plain, h.currentOffset, h.currentOffset⟩
  · rw [if_neg hempty, if_neg fun hbuffer => hempty (h.isEmpty.mp hbuffer)]
    exact h

theorem Alike.makeRoom (h : Alike scan scan') (segmentLen : Nat) :
    Alike (Swift.makeRoom sub sourceId config readings scan segmentLen)
      (makeRoom sub sourceId config nowMillis scan' segmentLen) := by
  unfold Swift.makeRoom MootMemory.makeRoom
  rw [h.length]
  by_cases hroom : scan.buffer.length + segmentLen ≤ config.targetChars ∨ scan.buffer.isEmpty
  · rw [if_pos hroom, if_pos (hroom.imp_right h.isEmpty.mpr)]
    exact h
  · rw [if_neg hroom, if_neg fun hroom' => hroom (hroom'.imp_right h.isEmpty.mp)]
    exact h.flush.startBuffer

theorem Alike.push (h : Alike scan scan') {segment : List Grapheme} (hsegment : Plain segment) :
    Alike (Swift.push sub scan segment) (push sub scan' (scalarsOf segment)) where
  ids := h.ids
  spans := h.spans
  buffer := by
    unfold Swift.push MootMemory.push
    rw [scalarsOf_append, h.buffer]
  plain := h.plain.append hsegment
  bufferStart := h.bufferStart
  currentOffset := by
    unfold Swift.push MootMemory.push
    dsimp only
    rw [h.currentOffset, length_scalarsOf_eq_iff.mpr hsegment]

theorem Alike.chunkSegment (h : Alike scan scan') {segment : List Grapheme}
    (hsegment : Plain segment) :
    Alike (Swift.chunkSegment sub sourceId config readings scan segment)
      (chunkSegment sub sourceId config nowMillis scan' (scalarsOf segment)) := by
  have hroom : Alike (Swift.makeRoom sub sourceId config readings (Swift.startBuffer sub scan)
      segment.length) (MootMemory.makeRoom sub sourceId config nowMillis
        (MootMemory.startBuffer sub scan') segment.length) := h.startBuffer.makeRoom segment.length
  have hpushed := hroom.push hsegment
  unfold Swift.chunkSegment MootMemory.chunkSegment
  dsimp only
  rw [length_scalarsOf_eq_iff.mpr hsegment, hpushed.length]
  split
  next => exact hpushed.flush
  next => exact hpushed

theorem Alike.foldl (h : Alike scan scan') {segments : List (List Grapheme)}
    (hsegments : ∀ segment ∈ segments, Plain segment) :
    Alike (segments.foldl (Swift.chunkSegment sub sourceId config readings) scan)
      ((segments.map scalarsOf).foldl (MootMemory.chunkSegment sub sourceId config nowMillis) scan') := by
  induction segments generalizing scan scan' with
  | nil => exact h
  | cons segment segments ih =>
    rw [List.forall_mem_cons] at hsegments
    rw [List.map_cons, List.foldl_cons, List.foldl_cons]
    exact ih (h.chunkSegment hsegments.1) hsegments.2

theorem Alike.chunks (h : Alike scan scan') :
    (if scan.buffer.isEmpty then scan.chunks
      else (Swift.emit sub sourceId readings scan).chunks).map Chunk.span =
        (if scan'.buffer = "" then scan'.chunks
          else (MootMemory.emit sub sourceId nowMillis scan').chunks).map Chunk.span ∧
    (if scan.buffer.isEmpty then scan.chunks
      else (Swift.emit sub sourceId readings scan).chunks).map (·.id) =
        (if scan'.buffer = "" then scan'.chunks
          else (MootMemory.emit sub sourceId nowMillis scan').chunks).map (·.id) := by
  by_cases hempty : scan.buffer.isEmpty
  · rw [if_pos hempty, if_pos (h.isEmpty.mpr hempty)]
    exact ⟨h.spans, h.ids⟩
  · rw [if_neg hempty, if_neg fun hbuffer => hempty (h.isEmpty.mp hbuffer)]
    exact ⟨h.emit.spans, h.emit.ids⟩

/-- The clusters of a text so far are in the buffer or in the text of a chunk. -/
def Swift.ChunkScan.Covers (scan : Swift.ChunkScan sub) (text : List Grapheme) : Prop :=
  ∀ g ∈ text, g ∈ scan.buffer ∨ ∃ chunk ∈ scan.chunks, ∃ part : List Grapheme,
    g ∈ part ∧ chunk.length = part.length ∧ chunk.text = scalarsOf part

variable {text : List Grapheme}

theorem Swift.ChunkScan.Covers.emit (h : scan.Covers text) :
    ∀ g ∈ text, ∃ chunk ∈ (Swift.emit sub sourceId readings scan).chunks, ∃ part : List Grapheme,
      g ∈ part ∧ chunk.length = part.length ∧ chunk.text = scalarsOf part := by
  intro g hg
  rcases h g hg with hbuffer | ⟨chunk, hchunk, hpart⟩
  · exact ⟨_, List.mem_append_right _ (List.mem_singleton_self _), scan.buffer, hbuffer, rfl, rfl⟩
  · exact ⟨chunk, List.mem_append_left _ hchunk, hpart⟩

theorem Swift.ChunkScan.Covers.flush (h : scan.Covers text) :
    (Swift.flush sub sourceId config readings scan).Covers text := by
  unfold Swift.flush
  split
  next => exact h
  next => exact fun g hg => Or.inr (h.emit g hg)

theorem Swift.ChunkScan.Covers.startBuffer (h : scan.Covers text) :
    (Swift.startBuffer sub scan).Covers text := by
  unfold Swift.startBuffer
  split
  next => exact h
  next => exact h

theorem Swift.ChunkScan.Covers.chunkSegment (h : scan.Covers text) (segment : List Grapheme) :
    (Swift.chunkSegment sub sourceId config readings scan segment).Covers (text ++ segment) := by
  have hroom : (Swift.makeRoom sub sourceId config readings (Swift.startBuffer sub scan)
      segment.length).Covers text := by
    unfold Swift.makeRoom
    split
    next => exact h.startBuffer
    next => exact h.startBuffer.flush.startBuffer
  have hpushed : (Swift.push sub (Swift.makeRoom sub sourceId config readings
      (Swift.startBuffer sub scan) segment.length) segment).Covers (text ++ segment) := by
    intro g hg
    rcases List.mem_append.mp hg with hg | hg
    · exact (hroom g hg).imp_left fun hbuffer => List.mem_append_left _ hbuffer
    · exact Or.inl (List.mem_append_right _ hg)
  unfold Swift.chunkSegment
  dsimp only
  split
  next => exact hpushed.flush
  next => exact hpushed

theorem Swift.ChunkScan.Covers.foldl (h : scan.Covers text) (segments : List (List Grapheme)) :
    (segments.foldl (Swift.chunkSegment sub sourceId config readings) scan).Covers
      (text ++ segments.flatten) := by
  induction segments generalizing scan text with
  | nil =>
    rw [List.flatten_nil, List.append_nil]
    exact h
  | cons segment segments ih =>
    rw [List.flatten_cons, ← List.append_assoc]
    exact ih (h.chunkSegment segment)

/-- Every cluster of a text is in a chunk that counts its clusters. -/
theorem Swift.exists_chunk (pieces : List (List Grapheme)) (clock : HlcGenerator) :
    ∀ g ∈ pieces.flatten, ∃ chunk ∈ Swift.chunk sub pieces sourceId config clock readings,
      ∃ part : List Grapheme, g ∈ part ∧ chunk.length = part.length ∧
        chunk.text = scalarsOf part := by
  have hstart : (⟨[], [], 0, 0, clock⟩ : Swift.ChunkScan sub).Covers [] := fun g hg =>
    absurd hg List.not_mem_nil
  have hflatten : (if config.respectSentences then pieces else [pieces.flatten]).flatten =
      pieces.flatten := by
    split
    next => rfl
    next => exact List.flatten_singleton
  have hend : ((if config.respectSentences then pieces else [pieces.flatten]).foldl
      (Swift.chunkSegment sub sourceId config readings) ⟨[], [], 0, 0, clock⟩).Covers
        ([] ++ (if config.respectSentences then pieces else [pieces.flatten]).flatten) :=
    hstart.foldl _
  rw [hflatten, List.nil_append] at hend
  intro g hg
  unfold Swift.chunk
  dsimp only
  generalize (if config.respectSentences then pieces else [pieces.flatten]).foldl
    (Swift.chunkSegment sub sourceId config readings) ⟨[], [], 0, 0, clock⟩ = scan at hend
  split
  next hempty =>
    rcases hend g hg with hbuffer | hchunk
    · rw [List.isEmpty_iff.mp hempty] at hbuffer
      exact absurd hbuffer List.not_mem_nil
    · exact hchunk
  next => exact hend.emit g hg

/-- A chunk's length is the number of scalars of its text. -/
theorem length_of_mem_chunk {text : String} {clock : HlcGenerator} :
    ∀ c ∈ chunk sub text sourceId config clock nowMillis, c.length = c.text.length :=
  forall_chunk fun _ _ _ _ => rfl

theorem chunkerConfiguration_eq (target overlap : Nat) (respectSentences : Bool) :
    Swift.chunkerConfiguration target overlap respectSentences =
      .new target overlap respectSentences := by
  unfold Swift.chunkerConfiguration ChunkerConfiguration.new
  congr 1
  · omega
  · omega

/-- The two ports cut a text into the same chunks where every character of it is one scalar, and
nowhere else. -/
theorem swiftChunk_eq_iff (pieces : List (List Grapheme))
    (hpieces : sub.sentences (scalarsOf pieces.flatten) = pieces.map scalarsOf)
    (sourceId : String) (target overlap : Nat) (respectSentences : Bool)
    (clock clock' : HlcGenerator) (readings : Nat → Int) (nowMillis : Int) :
    ((Swift.chunk sub pieces sourceId
        (Swift.chunkerConfiguration target overlap respectSentences) clock readings).map
          Chunk.span =
      (chunk sub (scalarsOf pieces.flatten) sourceId (.new target overlap respectSentences) clock'
        nowMillis).map Chunk.span ∧
      (Swift.chunk sub pieces sourceId
        (Swift.chunkerConfiguration target overlap respectSentences) clock readings).map (·.id) =
      (chunk sub (scalarsOf pieces.flatten) sourceId (.new target overlap respectSentences) clock'
        nowMillis).map (·.id)) ↔
      ∀ g ∈ pieces.flatten, g.scalars.length = 1 := by
  rw [chunkerConfiguration_eq]
  constructor
  · rintro ⟨hspans, -⟩ g hg
    obtain ⟨c, hc, part, hpart, hlength, htext⟩ := Swift.exists_chunk pieces clock g hg
    have hspan := List.mem_map_of_mem (f := Chunk.span) hc
    rw [hspans] at hspan
    obtain ⟨c', hc', hsame⟩ := List.mem_map.mp hspan
    have hcount := length_of_mem_chunk c' hc'
    have hlength' : c'.length = c.length := congrArg (·.2.1) hsame
    have htext' : c'.text = c.text := congrArg (·.2.2) hsame
    rw [hlength', htext', hlength, htext] at hcount
    exact length_scalarsOf_eq_iff.mp hcount.symm g hpart
  · intro hplain
    have hsegments : (if respectSentences then sub.sentences (scalarsOf pieces.flatten)
        else [scalarsOf pieces.flatten]) =
          (if respectSentences then pieces else [pieces.flatten]).map scalarsOf := by
      split
      next => exact hpieces
      next => rfl
    have hall : ∀ segment ∈ (if respectSentences then pieces else [pieces.flatten]),
        Plain segment := by
      split
      next =>
        exact fun segment hsegment g hg => hplain g (List.mem_flatten.mpr ⟨segment, hsegment, hg⟩)
      next => exact fun segment hsegment => List.mem_singleton.mp hsegment ▸ hplain
    have hstart : Alike (⟨[], [], 0, 0, clock⟩ : Swift.ChunkScan sub) ⟨[], "", 0, 0, clock'⟩ :=
      ⟨rfl, rfl, rfl, fun g hg => absurd hg List.not_mem_nil, rfl, rfl⟩
    have hend : Alike ((if respectSentences then pieces else [pieces.flatten]).foldl
        (Swift.chunkSegment sub sourceId (.new target overlap respectSentences) readings)
          ⟨[], [], 0, 0, clock⟩)
        (((if respectSentences then pieces else [pieces.flatten]).map scalarsOf).foldl
          (chunkSegment sub sourceId (.new target overlap respectSentences) nowMillis)
            ⟨[], "", 0, 0, clock'⟩) := hstart.foldl hall
    rw [← hsegments] at hend
    exact hend.chunks

end Agreement

namespace ReferenceCorpus

/-- A line end, which is one character of two scalars, and a letter. -/
def lineOfText : List Grapheme := [⟨['\r', '\n'], List.cons_ne_nil _ _⟩, ⟨['a'], List.cons_ne_nil _ _⟩]

def letters : List Grapheme := [⟨['a'], List.cons_ne_nil _ _⟩, ⟨['b'], List.cons_ne_nil _ _⟩]

end ReferenceCorpus

theorem swiftChunk_eq_iff_reference :
    ((Swift.chunk referenceCorpus [ReferenceCorpus.letters] "s"
        (Swift.chunkerConfiguration (2 : Nat) (1 : Nat) true) (.new 1) fun _ => 0).map Chunk.span =
      (chunk referenceCorpus (scalarsOf [ReferenceCorpus.letters].flatten) "s" (.new 2 1 true)
        (.new 1) 0).map Chunk.span ∧
      (Swift.chunk referenceCorpus [ReferenceCorpus.letters] "s"
        (Swift.chunkerConfiguration (2 : Nat) (1 : Nat) true) (.new 1) fun _ => 0).map (·.id) =
      (chunk referenceCorpus (scalarsOf [ReferenceCorpus.letters].flatten) "s" (.new 2 1 true)
        (.new 1) 0).map (·.id)) ↔
      ∀ g ∈ [ReferenceCorpus.letters].flatten, g.scalars.length = 1 :=
  swiftChunk_eq_iff [ReferenceCorpus.letters] (by decide) "s" 2 1 true (.new 1) (.new 1) _ 0

/-- After a line end the chunks of the two ports have other offsets and other ids. -/
theorem not_swiftChunk_eq :
    referenceCorpus.sentences (scalarsOf [ReferenceCorpus.lineOfText].flatten) =
      [ReferenceCorpus.lineOfText].map scalarsOf ∧
    (Swift.chunk referenceCorpus [ReferenceCorpus.lineOfText] "s"
      (Swift.chunkerConfiguration (2 : Nat) (1 : Nat) true) (.new 1) fun _ => 0).map Chunk.span =
        [(0, 2, "\r\na"), (1, 1, "a")] ∧
    (chunk referenceCorpus (scalarsOf [ReferenceCorpus.lineOfText].flatten) "s" (.new 2 1 true)
      (.new 1) 0).map Chunk.span = [(0, 3, "\r\na"), (2, 1, "a")] ∧
    (Swift.chunk referenceCorpus [ReferenceCorpus.lineOfText] "s"
      (Swift.chunkerConfiguration (2 : Nat) (1 : Nat) true) (.new 1) fun _ => 0).map (·.id) ≠
        (chunk referenceCorpus (scalarsOf [ReferenceCorpus.lineOfText].flatten) "s" (.new 2 1 true)
          (.new 1) 0).map (·.id) := by
  decide +kernel

end MootMemory
