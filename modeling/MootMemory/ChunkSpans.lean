import MootMemory.SwiftChunker
import Mathlib.Data.List.Chain

namespace MootMemory

variable {sub : CorpusSubstrate}

/-- A chunk holds the characters of the text from its offset on. -/
structure Chunk.Excerpt (text : List Char) (c : Chunk sub) : Prop where
  length : c.text.length = c.length
  reads : c.text.toList = (text.drop c.startOffset).take c.length

def Chunk.Holds (c : Chunk sub) (i : Nat) : Prop :=
  c.startOffset ≤ i ∧ i < c.startOffset + c.length

/-- The number of characters that two spans share. -/
def sharedChars (a b : Chunk sub) : Nat :=
  min (a.startOffset + a.length) (b.startOffset + b.length) - max a.startOffset b.startOffset

/-- The span of the second chunk is within that of the first. -/
def Within (a b : Chunk sub) : Prop :=
  a.startOffset ≤ b.startOffset ∧ b.startOffset + b.length ≤ a.startOffset + a.length

/-- The chunks are excerpts that cover the text in order, each with something new. -/
structure CoversWithoutWaste (text : String) (overlap : Nat) (chunks : List (Chunk sub)) :
    Prop where
  excerpts : ∀ c ∈ chunks, c.Excerpt text.toList
  covers : ∀ i < text.length, ∃ c ∈ chunks, c.Holds i
  increasing : chunks.Pairwise fun a b => a.startOffset < b.startOffset
  overlaps : chunks.IsChain fun a b => sharedChars a b ≤ overlap
  fresh : chunks.IsChain fun a b => ¬Within a b

/-- The second chunk starts the overlap before the end of the first. -/
def Follows (overlap : Nat) (a b : Chunk sub) : Prop :=
  0 < a.length ∧ 0 < b.length ∧ b.startOffset + min overlap a.length = a.startOffset + a.length

theorem Follows.sharedChars_le {overlap : Nat} {a b : Chunk sub} (h : Follows overlap a b) :
    sharedChars a b ≤ overlap := by
  obtain ⟨_, _, hstart⟩ := h
  unfold sharedChars
  omega

theorem Follows.increasing_iff {overlap : Nat} {a b : Chunk sub} (h : Follows overlap a b) :
    a.startOffset < b.startOffset ∧ ¬Within a b ↔ overlap < a.length ∧ overlap < b.length := by
  obtain ⟨_, _, hstart⟩ := h
  unfold Within
  omega

theorem isChain_both_iff {α : Type*} {P : α → Prop} (l : List α) :
    l.IsChain (fun a b => P a ∧ P b) ↔ l.length ≤ 1 ∨ ∀ a ∈ l, P a := by
  induction l with
  | nil => simp
  | cons a l ih =>
    cases l with
    | nil => simp
    | cons b l =>
      rw [List.isChain_cons_cons, ih]
      constructor
      · rintro ⟨⟨ha, hb⟩, hlen | hall⟩
        · have hnil : l = [] := List.eq_nil_of_length_eq_zero (by simpa using hlen)
          subst hnil
          exact Or.inr (by simp [ha, hb])
        · exact Or.inr (List.forall_mem_cons.mpr ⟨ha, hall⟩)
      · rintro (hlen | hall)
        · simp at hlen
        · rw [List.forall_mem_cons] at hall
          exact ⟨⟨hall.1, hall.2 b List.mem_cons_self⟩, Or.inr hall.2⟩

/-- The chunks of a text up to an offset, each following the one before. -/
structure Tiling (overlap : Nat) (text : List Char) (upTo : Nat) (chunks : List (Chunk sub)) :
    Prop where
  excerpts : ∀ c ∈ chunks, c.Excerpt text
  nonempty : ∀ c ∈ chunks, 0 < c.length
  covers : ∀ i < upTo, ∃ c ∈ chunks, c.Holds i
  chain : chunks.IsChain (Follows overlap)

/-- A tiling wastes nothing where all its chunks are longer than the overlap. -/
theorem Tiling.coversWithoutWaste_iff {overlap : Nat} {text : String} {chunks : List (Chunk sub)}
    (h : Tiling overlap text.toList text.length chunks) :
    CoversWithoutWaste text overlap chunks ↔
      chunks.length ≤ 1 ∨ ∀ c ∈ chunks, overlap < c.length := by
  have hfollows := List.isChain_iff_forall_rel_of_append_cons_cons.mp h.chain
  rw [← isChain_both_iff, List.isChain_iff_forall_rel_of_append_cons_cons]
  constructor
  · intro hwaste a b l₁ l₂ hl
    have hfresh := List.isChain_iff_forall_rel_of_append_cons_cons.mp hwaste.fresh hl
    have hlt : a.startOffset < b.startOffset := by
      have hpair := hwaste.increasing
      rw [hl, List.pairwise_append, List.pairwise_cons] at hpair
      exact hpair.2.1.1 b List.mem_cons_self
    exact (hfollows hl).increasing_iff.mp ⟨hlt, hfresh⟩
  · intro hlong
    have hboth : ∀ ⦃a b l₁ l₂⦄, chunks = l₁ ++ a :: b :: l₂ →
        a.startOffset < b.startOffset ∧ ¬Within a b := fun a b l₁ l₂ hl =>
      (hfollows hl).increasing_iff.mpr (hlong hl)
    have : Trans (fun a b : Chunk sub => a.startOffset < b.startOffset)
        (fun a b : Chunk sub => a.startOffset < b.startOffset)
        (fun a b : Chunk sub => a.startOffset < b.startOffset) := ⟨Nat.lt_trans⟩
    exact
      { excerpts := h.excerpts
        covers := h.covers
        increasing := List.IsChain.pairwise
          (List.isChain_iff_forall_rel_of_append_cons_cons.mpr fun a b l₁ l₂ hl => (hboth hl).1)
        overlaps := h.chain.imp fun a b hab => hab.sharedChars_le
        fresh := List.isChain_iff_forall_rel_of_append_cons_cons.mpr fun a b l₁ l₂ hl =>
          (hboth hl).2 }

/-- A further chunk, the overlap before the end of the last one. -/
theorem Tiling.concat {overlap upTo : Nat} {text : List Char} {chunks : List (Chunk sub)}
    {c : Chunk sub} (h : Tiling overlap text upTo chunks) (hc : c.Excerpt text)
    (hpos : 0 < c.length) (hstart : c.startOffset ≤ upTo)
    (hlast : ∀ a ∈ chunks.getLast?, Follows overlap a c) :
    Tiling overlap text (c.startOffset + c.length) (chunks ++ [c]) where
  excerpts := by
    intro a ha
    rcases List.mem_append.mp ha with ha | ha
    · exact h.excerpts a ha
    · rw [List.mem_singleton.mp ha]
      exact hc
  nonempty := by
    intro a ha
    rcases List.mem_append.mp ha with ha | ha
    · exact h.nonempty a ha
    · rw [List.mem_singleton.mp ha]
      exact hpos
  covers := by
    intro i hi
    rcases Nat.lt_or_ge i upTo with hlt | hge
    · obtain ⟨a, ha, hold⟩ := h.covers i hlt
      exact ⟨a, List.mem_append_left _ ha, hold⟩
    · exact ⟨c, List.mem_append_right _ List.mem_cons_self, by omega, hi⟩
  chain := by
    refine List.isChain_append.mpr ⟨h.chain, List.isChain_singleton c, fun a ha b hb => ?_⟩
    cases hb
    exact hlast a ha

theorem Chunk.Excerpt.end_le {text : List Char} {c : Chunk sub} (h : c.Excerpt text)
    (hpos : 0 < c.length) : c.startOffset + c.length ≤ text.length := by
  have hlen := congrArg List.length h.reads
  rw [List.length_take, List.length_drop, String.length_toList, h.length] at hlen
  omega

/-- What is read of a prefix is read of the text. -/
theorem Chunk.Excerpt.append {text : List Char} {c : Chunk sub} (h : c.Excerpt text)
    (more : List Char) : c.Excerpt (text ++ more) := by
  refine ⟨h.length, ?_⟩
  have hlen := congrArg List.length h.reads
  rw [List.length_take, List.length_drop, String.length_toList, h.length] at hlen
  rcases Nat.eq_zero_or_pos c.length with hzero | hpos
  · rw [h.reads, hzero, List.take_zero, List.take_zero]
  · rw [h.reads, List.drop_append_of_le_length (by omega), List.take_append_of_le_length]
    rw [List.length_drop]
    omega

theorem Tiling.append {overlap upTo : Nat} {text : List Char} {chunks : List (Chunk sub)}
    (h : Tiling overlap text upTo chunks) (more : List Char) :
    Tiling overlap (text ++ more) upTo chunks :=
  { h with excerpts := fun c hc => (h.excerpts c hc).append more }

theorem length_pos_of_ne_empty {s : String} (h : s ≠ "") : 0 < s.length :=
  Nat.pos_of_ne_zero (mt String.length_eq_zero_iff.mp h)

section Scan

variable (sourceId : String) {config : ChunkerConfiguration} (nowMillis : Int)
  {scan : ChunkScan sub} {read : List Char}

/-- The chunks tile what has been read, and the buffer holds the rest of it. -/
structure ChunkScan.Tiles (overlap : Nat) (scan : ChunkScan sub) (read : List Char) : Prop where
  tiling : Tiling overlap read scan.bufferStart scan.chunks
  buffer : scan.buffer.toList = read.drop scan.bufferStart
  start_le : scan.bufferStart ≤ read.length
  offset : scan.currentOffset = read.length
  last : ∀ c ∈ scan.chunks.getLast?, 0 < c.length ∧
    scan.bufferStart + min overlap c.length = c.startOffset + c.length

namespace ChunkScan.Tiles

variable {overlap : Nat}

theorem buffer_end (h : scan.Tiles overlap read) :
    scan.bufferStart + scan.buffer.length = read.length := by
  have hlen := congrArg List.length h.buffer
  have hle := h.start_le
  rw [List.length_drop, String.length_toList] at hlen
  omega

theorem startBuffer (h : scan.Tiles overlap read) : startBuffer sub scan = scan := by
  unfold MootMemory.startBuffer
  split
  next hempty =>
    have hend := h.buffer_end
    have hoffset := h.offset
    rw [hempty, String.length_empty, Nat.add_zero, ← hoffset] at hend
    cases scan
    cases hend
    rfl
  next => rfl

theorem push (h : scan.Tiles overlap read) (segment : String) :
    (push sub scan segment).Tiles overlap (read ++ segment.toList) where
  tiling := h.tiling.append segment.toList
  buffer := by
    show (scan.buffer ++ segment).toList = (read ++ segment.toList).drop scan.bufferStart
    rw [List.drop_append_of_le_length h.start_le, ← h.buffer, String.toList_append]
  start_le := by
    rw [List.length_append]
    exact Nat.le_add_right_of_le h.start_le
  offset := by
    rw [List.length_append, ← h.offset]
    rfl
  last := h.last

/-- The chunk of a buffer that is not empty ends where the text read so far does. -/
theorem emit (h : scan.Tiles overlap read) (hbuffer : scan.buffer ≠ "") :
    Tiling overlap read read.length (emit sub sourceId nowMillis scan).chunks := by
  have hpos := length_pos_of_ne_empty hbuffer
  let c : Chunk sub := .contentAddressed sub sourceId scan.bufferStart scan.buffer.length
    scan.buffer (sub.send scan.clock nowMillis).1
  have hexcerpt : c.Excerpt read := by
    refine ⟨rfl, ?_⟩
    show scan.buffer.toList = (read.drop scan.bufferStart).take scan.buffer.length
    rw [← h.buffer, ← String.length_toList, List.take_length]
  have hfollows : ∀ a ∈ scan.chunks.getLast?, Follows overlap a c := fun a ha =>
    ⟨(h.last a ha).1, hpos, (h.last a ha).2⟩
  rw [← h.buffer_end]
  exact h.tiling.concat hexcerpt hpos (Nat.le_refl _) hfollows

theorem flush (h : scan.Tiles config.overlapChars read) :
    (flush sub sourceId config nowMillis scan).Tiles config.overlapChars read := by
  have hend := h.buffer_end
  unfold MootMemory.flush
  split
  next => exact h
  next hbuffer =>
    have hemit := h.emit sourceId nowMillis hbuffer
    constructor
    · exact { hemit with covers := fun i hi => hemit.covers i (by dsimp only at hi; omega) }
    · dsimp only
      split
      next =>
        rw [String.toList_ofList, h.buffer, List.drop_drop]
        congr 1
        omega
      next hzero =>
        have hall : scan.bufferStart + scan.buffer.length -
            min config.overlapChars scan.buffer.length = read.length := by omega
        rw [hall, List.drop_length]
        rfl
    · dsimp only
      omega
    · exact h.offset
    · intro c hc
      rw [show (MootMemory.emit sub sourceId nowMillis scan).chunks = scan.chunks ++ [_] from rfl,
        List.getLast?_concat, Option.mem_some] at hc
      subst hc
      refine ⟨length_pos_of_ne_empty hbuffer, ?_⟩
      show scan.bufferStart + scan.buffer.length - min config.overlapChars scan.buffer.length +
        min config.overlapChars scan.buffer.length = scan.bufferStart + scan.buffer.length
      omega

theorem room (h : scan.Tiles config.overlapChars read) (segLen : Nat) :
    (makeRoom sub sourceId config nowMillis (MootMemory.startBuffer sub scan) segLen).Tiles
      config.overlapChars read := by
  have hflush := h.flush sourceId nowMillis
  rw [h.startBuffer, makeRoom]
  split
  next => exact h
  next => rwa [hflush.startBuffer]

theorem chunkSegment (h : scan.Tiles config.overlapChars read) (segment : String) :
    (chunkSegment sub sourceId config nowMillis scan segment).Tiles config.overlapChars
      (read ++ segment.toList) := by
  have hpush := (h.room sourceId nowMillis segment.length).push segment
  rw [MootMemory.chunkSegment]
  split
  next => exact hpush.flush sourceId nowMillis
  next => exact hpush

end ChunkScan.Tiles

/-- What a segment of `n` characters finds in the buffer: the overlap, if it would not fit. -/
def roomFor (config : ChunkerConfiguration) (buffered n : Nat) : Nat :=
  if buffered + n ≤ config.targetChars ∨ buffered = 0 then buffered
  else min config.overlapChars buffered

/-- The length of the buffer after a segment of `n` characters. -/
def bufferedAfter (config : ChunkerConfiguration) (buffered n : Nat) : Nat :=
  let pushed := roomFor config buffered n + n
  if config.targetChars ≤ pushed then min config.overlapChars pushed else pushed

/-- Segments that do not fit find more than the overlap in the buffer. -/
def FlushesFresh (config : ChunkerConfiguration) : Nat → List Nat → Prop
  | _, [] => True
  | buffered, n :: lengths =>
    (buffered + n ≤ config.targetChars ∨ buffered = 0 ∨ config.overlapChars < buffered) ∧
      FlushesFresh config (bufferedAfter config buffered n) lengths

/-- Also what is left in the end is more than the overlap, unless the text is a single chunk. -/
def ChunksFresh (config : ChunkerConfiguration) (lengths : List Nat) : Prop :=
  FlushesFresh config 0 lengths ∧
    (lengths.sum < config.targetChars ∨ lengths.foldl (bufferedAfter config) 0 = 0 ∨
      config.overlapChars < lengths.foldl (bufferedAfter config) 0)

theorem length_flush : (flush sub sourceId config nowMillis scan).buffer.length =
    min config.overlapChars scan.buffer.length := by
  unfold flush
  split
  next hempty => rw [hempty, String.length_empty, Nat.min_zero]
  next =>
    dsimp only
    split
    next =>
      rw [String.length_ofList, List.length_drop, String.length_toList]
      omega
    next =>
      rw [String.length_empty]
      omega

/-- A flush adds a chunk of the length of the buffer. -/
theorem forall_mem_flush (P : Nat → Prop) :
    (∀ c ∈ (flush sub sourceId config nowMillis scan).chunks, P c.length) ↔
      (∀ c ∈ scan.chunks, P c.length) ∧ (scan.buffer ≠ "" → P scan.buffer.length) := by
  unfold flush
  split
  next hempty => simp [hempty]
  next hbuffer =>
    rw [show ({ emit sub sourceId nowMillis scan with
        buffer := _, bufferStart := _ } : ChunkScan sub).chunks = scan.chunks ++ [_] from rfl,
      List.forall_mem_append, List.forall_mem_singleton]
    simp [hbuffer, Chunk.contentAddressed]

/-- What holds between two segments. -/
structure ChunkScan.Sound (config : ChunkerConfiguration) (scan : ChunkScan sub)
    (read : List Char) : Prop where
  tiles : scan.Tiles config.overlapChars read
  short : scan.buffer.length < config.targetChars
  filled : scan.chunks ≠ [] → config.targetChars ≤ read.length

theorem fits_iff {n : Nat} : scan.buffer.length + n ≤ config.targetChars ∨ scan.buffer = "" ↔
    scan.buffer.length + n ≤ config.targetChars ∨ scan.buffer.length = 0 :=
  or_congr_right String.length_eq_zero_iff.symm

theorem length_makeRoom (h : scan.Tiles config.overlapChars read) (n : Nat) :
    (makeRoom sub sourceId config nowMillis (startBuffer sub scan) n).buffer.length =
      roomFor config scan.buffer.length n := by
  have hflush := h.flush sourceId nowMillis
  rw [h.startBuffer, makeRoom, roomFor, if_congr fits_iff rfl rfl]
  split
  next => rfl
  next => rw [hflush.startBuffer, length_flush]

theorem forall_mem_makeRoom (P : Nat → Prop) (h : scan.Tiles config.overlapChars read) (n : Nat) :
    (∀ c ∈ (makeRoom sub sourceId config nowMillis (startBuffer sub scan) n).chunks,
      P c.length) ↔ (∀ c ∈ scan.chunks, P c.length) ∧
        (scan.buffer.length + n ≤ config.targetChars ∨ scan.buffer.length = 0 ∨
          P scan.buffer.length) := by
  have hflush := h.flush sourceId nowMillis
  have hempty : scan.buffer.length = 0 ↔ scan.buffer = "" := String.length_eq_zero_iff
  rw [h.startBuffer, makeRoom, hempty]
  split
  next hfits => tauto
  next hfull =>
    rw [hflush.startBuffer, forall_mem_flush]
    tauto

theorem chunks_makeRoom (h : scan.Tiles config.overlapChars read) {n : Nat}
    (hfits : scan.buffer.length + n ≤ config.targetChars) :
    (makeRoom sub sourceId config nowMillis (startBuffer sub scan) n).chunks = scan.chunks := by
  rw [h.startBuffer, makeRoom, if_pos (Or.inl hfits)]

/-- One segment: the buffer is as long as its lengths say, and the chunks are longer than the
overlap if they were and the segment did not flush an overlap. -/
theorem ChunkScan.Sound.chunkSegment (hconfig : config.overlapChars < config.targetChars)
    (h : scan.Sound config read) (segment : String) :
    let scan' := chunkSegment sub sourceId config nowMillis scan segment
    scan'.Sound config (read ++ segment.toList) ∧
      scan'.buffer.length = bufferedAfter config scan.buffer.length segment.length ∧
      ((∀ c ∈ scan'.chunks, config.overlapChars < c.length) ↔
        (∀ c ∈ scan.chunks, config.overlapChars < c.length) ∧
          (scan.buffer.length + segment.length ≤ config.targetChars ∨ scan.buffer.length = 0 ∨
            config.overlapChars < scan.buffer.length)) := by
  intro scan'
  have htiles := h.tiles.chunkSegment sourceId nowMillis segment
  let room := makeRoom sub sourceId config nowMillis (startBuffer sub scan) segment.length
  let pushed := push sub room segment
  have hpush : pushed.Tiles config.overlapChars (read ++ segment.toList) :=
    (h.tiles.room sourceId nowMillis segment.length).push segment
  have hlen : pushed.buffer.length = roomFor config scan.buffer.length segment.length +
      segment.length := by
    rw [← length_makeRoom sourceId nowMillis h.tiles]
    exact String.length_append _ _
  have hread : pushed.buffer.length ≤ (read ++ segment.toList).length :=
    hpush.buffer_end ▸ Nat.le_add_left _ _
  have hmore : (read ++ segment.toList).length = read.length + segment.length :=
    List.length_append
  have hroom := forall_mem_makeRoom sourceId nowMillis
    (fun len => config.overlapChars < len) h.tiles segment.length
  have hscan' : scan' = if config.targetChars ≤ pushed.buffer.length then
      flush sub sourceId config nowMillis pushed else pushed := rfl
  have hbuffered : bufferedAfter config scan.buffer.length segment.length =
      if config.targetChars ≤ pushed.buffer.length then
        min config.overlapChars pushed.buffer.length
      else pushed.buffer.length := by
    rw [bufferedAfter, hlen]
  rw [hbuffered]
  by_cases hfull : config.targetChars ≤ pushed.buffer.length
  · rw [if_pos hfull] at hscan' ⊢
    refine ⟨⟨htiles, ?_, fun _ => hfull.trans hread⟩, ?_, ?_⟩
    · rw [hscan', length_flush]
      omega
    · rw [hscan', length_flush]
    · rw [hscan', forall_mem_flush sourceId nowMillis fun len => config.overlapChars < len,
        ← hroom]
      exact and_iff_left fun _ => by omega
  · rw [if_neg hfull] at hscan' ⊢
    refine ⟨⟨htiles, ?_, ?_⟩, ?_, ?_⟩
    · rw [hscan']
      omega
    · intro hchunks
      by_cases hfits : scan.buffer.length + segment.length ≤ config.targetChars
      · have hsame := chunks_makeRoom sourceId nowMillis h.tiles hfits
        have hfilled := h.filled fun hnone => hchunks (by rw [hscan']; exact hsame.trans hnone)
        omega
      · have hend := h.tiles.buffer_end
        omega
    · rw [hscan']
    · rw [hscan']
      exact hroom

theorem ChunkScan.Sound.foldl (hconfig : config.overlapChars < config.targetChars)
    (h : scan.Sound config read) (segments : List String) :
    let scan' := segments.foldl (MootMemory.chunkSegment sub sourceId config nowMillis) scan
    scan'.Sound config (read ++ (String.join segments).toList) ∧
      scan'.buffer.length =
        (segments.map String.length).foldl (bufferedAfter config) scan.buffer.length ∧
      ((∀ c ∈ scan'.chunks, config.overlapChars < c.length) ↔
        (∀ c ∈ scan.chunks, config.overlapChars < c.length) ∧
          FlushesFresh config scan.buffer.length (segments.map String.length)) := by
  induction segments generalizing scan read with
  | nil =>
    refine ⟨?_, rfl, ?_⟩
    · rw [show (String.join []).toList = [] from rfl, List.append_nil]
      exact h
    · exact (iff_of_eq (and_true _)).symm
  | cons segment segments ih =>
    obtain ⟨hsound, hlen, hlong⟩ := h.chunkSegment sourceId nowMillis hconfig segment
    obtain ⟨hsound', hlen', hlong'⟩ := ih hsound
    rw [hlen] at hlen' hlong'
    refine ⟨?_, hlen', ?_⟩
    · rw [String.join_cons, String.toList_append, ← List.append_assoc]
      exact hsound'
    · rw [List.foldl_cons, hlong', hlong, List.map_cons, FlushesFresh]
      exact and_assoc

end Scan

/-- The segments of a text. -/
def segmentsOf (sub : CorpusSubstrate) (config : ChunkerConfiguration) (text : String) :
    List String :=
  if config.respectSentences then sub.sentences text else [text]

theorem ChunkerConfiguration.overlap_lt (target overlap : Nat) (respectSentences : Bool) :
    (ChunkerConfiguration.new target overlap respectSentences).overlapChars <
      (ChunkerConfiguration.new target overlap respectSentences).targetChars := by
  show min overlap (max target 1 - 1) < max target 1
  omega

theorem scanText_sound {config : ChunkerConfiguration}
    (hconfig : config.overlapChars < config.targetChars) {text : String}
    (hjoin : String.join (segmentsOf sub config text) = text) (sourceId : String)
    (clock : HlcGenerator) (nowMillis : Int) :
    let scan := scanText sub text sourceId config clock nowMillis
    let lengths := (segmentsOf sub config text).map String.length
    scan.Sound config text.toList ∧
      scan.buffer.length = lengths.foldl (bufferedAfter config) 0 ∧
      ((∀ c ∈ scan.chunks, config.overlapChars < c.length) ↔ FlushesFresh config 0 lengths) := by
  have hstart : (⟨[], "", 0, 0, clock⟩ : ChunkScan sub).Sound config [] :=
    { tiles :=
        { tiling :=
            { excerpts := fun c hc => absurd hc List.not_mem_nil
              nonempty := fun c hc => absurd hc List.not_mem_nil
              covers := fun i hi => absurd hi (Nat.not_lt_zero i)
              chain := List.isChain_nil }
          buffer := rfl
          start_le := Nat.le_refl 0
          offset := rfl
          last := fun c hc => (nomatch hc) }
      short := Nat.zero_lt_of_lt hconfig
      filled := fun hne => absurd rfl hne }
  obtain ⟨hsound, hlen, hlong⟩ := hstart.foldl sourceId nowMillis
    hconfig (segmentsOf sub config text)
  rw [hjoin, List.nil_append] at hsound
  exact ⟨hsound, hlen, hlong.trans (and_iff_right fun c hc => absurd hc List.not_mem_nil)⟩

/-- The chunks of a scan that has read the text, and the flush of what it leaves. -/
theorem coversWithoutWaste_iff {config : ChunkerConfiguration}
    (hconfig : config.overlapChars < config.targetChars) {text : String}
    (hjoin : String.join (segmentsOf sub config text) = text) (sourceId : String)
    (clock : HlcGenerator) (nowMillis : Int) :
    CoversWithoutWaste text config.overlapChars (chunk sub text sourceId config clock nowMillis) ↔
      ChunksFresh config ((segmentsOf sub config text).map String.length) := by
  let scan := scanText sub text sourceId config clock nowMillis
  obtain ⟨hsound, hlen, hlong⟩ := scanText_sound hconfig hjoin sourceId clock nowMillis
  change scan.Sound config text.toList at hsound
  change scan.buffer.length = _ at hlen
  change (∀ c ∈ scan.chunks, config.overlapChars < c.length) ↔ _ at hlong
  have hsum : ((segmentsOf sub config text).map String.length).sum = text.length := by
    rw [← String.length_join, hjoin]
  have hend := hsound.tiles.buffer_end
  have hfilled := hsound.filled
  have hshort := hsound.short
  rw [String.length_toList] at hend hfilled
  have hchunk : chunk sub text sourceId config clock nowMillis =
      if scan.buffer = "" then scan.chunks else (emit sub sourceId nowMillis scan).chunks := rfl
  have htiling : Tiling config.overlapChars text.toList text.length
      (chunk sub text sourceId config clock nowMillis) := by
    rw [hchunk]
    split
    next hbuffer =>
      rw [hbuffer, String.length_empty, Nat.add_zero] at hend
      rw [← hend]
      exact hsound.tiles.tiling
    next hbuffer =>
      rw [← String.length_toList]
      exact hsound.tiles.emit sourceId nowMillis hbuffer
  rw [ChunksFresh, ← hlong, hsum, ← hlen]
  by_cases hnone : scan.chunks = []
  · -- nothing went out before the end of the text, so there is one chunk at most
    have hstart : scan.bufferStart = 0 := by
      refine Nat.eq_zero_of_not_pos fun hpos => ?_
      obtain ⟨c, hc, _⟩ := hsound.tiles.tiling.covers 0 hpos
      rw [hnone] at hc
      exact absurd hc List.not_mem_nil
    have hlt : text.length < config.targetChars := by omega
    have hone : (chunk sub text sourceId config clock nowMillis).length ≤ 1 := by
      rw [hchunk]
      split
      next => simp [hnone]
      next => simp [emit, hnone]
    have hfresh : ∀ c ∈ scan.chunks, config.overlapChars < c.length := fun c hc => by
      rw [hnone] at hc
      exact absurd hc List.not_mem_nil
    exact iff_of_true (htiling.coversWithoutWaste_iff.mpr (Or.inl hone)) ⟨hfresh, Or.inl hlt⟩
  · have htarget := hfilled hnone
    obtain ⟨c, hc⟩ := List.getLast?_isSome.mpr hnone |> Option.isSome_iff_exists.mp
    have hcend := ((hsound.tiles.tiling.excerpts c (List.mem_of_getLast? hc)).end_le
      (hsound.tiles.tiling.nonempty c (List.mem_of_getLast? hc)))
    obtain ⟨hcpos, hclast⟩ := hsound.tiles.last c hc
    by_cases hbuffer : scan.buffer = ""
    · -- an empty buffer after a flush means that there is no overlap
      rw [hbuffer, String.length_empty] at hend
      rw [String.length_toList] at hcend
      have hzero : config.overlapChars = 0 := by omega
      have hlonger : ∀ a ∈ scan.chunks, config.overlapChars < a.length := fun a ha => by
        rw [hzero]
        exact hsound.tiles.tiling.nonempty a ha
      refine iff_of_true (htiling.coversWithoutWaste_iff.mpr (Or.inr ?_)) ⟨hlonger, Or.inr ?_⟩
      · rw [hchunk, if_pos hbuffer]
        exact hlonger
      · rw [hbuffer]
        exact Or.inl String.length_empty
    · have hpos := length_pos_of_ne_empty hbuffer
      have hchunk' : chunk sub text sourceId config clock nowMillis = scan.chunks ++
          [.contentAddressed sub sourceId scan.bufferStart scan.buffer.length scan.buffer
            (sub.send scan.clock nowMillis).1] := by
        rw [hchunk, if_neg hbuffer]
        rfl
      have hmany : ¬(chunk sub text sourceId config clock nowMillis).length ≤ 1 := by
        have hlen1 := List.length_pos_iff.mpr hnone
        rw [hchunk', List.length_append, List.length_singleton]
        omega
      rw [htiling.coversWithoutWaste_iff, or_iff_right hmany, hchunk', List.forall_mem_append,
        List.forall_mem_singleton]
      refine and_congr_right fun _ => ?_
      show config.overlapChars < scan.buffer.length ↔ _
      omega

theorem chunk_coversWithoutWaste_iff (sub : CorpusSubstrate) (text sourceId : String)
    (target overlap : Nat) (respectSentences : Bool) (clock : HlcGenerator) (nowMillis : Int)
    (hjoin : String.join (segmentsOf sub (.new target overlap respectSentences) text) = text) :
    CoversWithoutWaste text (ChunkerConfiguration.new target overlap respectSentences).overlapChars
      (chunk sub text sourceId (.new target overlap respectSentences) clock nowMillis) ↔
    ChunksFresh (.new target overlap respectSentences)
      ((segmentsOf sub (.new target overlap respectSentences) text).map String.length) :=
  coversWithoutWaste_iff (ChunkerConfiguration.overlap_lt target overlap respectSentences) hjoin
    sourceId clock nowMillis

instance flushesFreshDecidable (config : ChunkerConfiguration) :
    (buffered : Nat) → (lengths : List Nat) → Decidable (FlushesFresh config buffered lengths)
  | _, [] => isTrue trivial
  | buffered, n :: lengths =>
    let _ := flushesFreshDecidable config (bufferedAfter config buffered n) lengths
    inferInstanceAs (Decidable (_ ∧ _))

instance (config : ChunkerConfiguration) (lengths : List Nat) :
    Decidable (ChunksFresh config lengths) :=
  inferInstanceAs (Decidable (_ ∧ _))

/-- Sentences end with a full stop. -/
@[reducible] def sentenceCorpus : CorpusSubstrate :=
  { referenceCorpus with
    sentences := fun text =>
      (text.toList.splitBy fun before _ => before ≠ '.').map String.ofList }

/-- Four sentences in three chunks, each of which begins in the one before. -/
theorem chunk_coversWithoutWaste_iff_sentences :
    (chunk sentenceCorpus "One. Two. Three. Four." "s" (.new 12 3 true) (.new 1) 0).map Chunk.span =
      [(0, 9, "One. Two."), (6, 10, "wo. Three."), (13, 9, "ee. Four.")] ∧
    CoversWithoutWaste "One. Two. Three. Four." (ChunkerConfiguration.new 12 3 true).overlapChars
      (chunk sentenceCorpus "One. Two. Three. Four." "s" (.new 12 3 true) (.new 1) 0) := by
  have hjoin : String.join (segmentsOf sentenceCorpus (.new 12 3 true) "One. Two. Three. Four.") =
      "One. Two. Three. Four." := by decide +kernel
  refine ⟨by decide +kernel, ?_⟩
  exact (chunk_coversWithoutWaste_iff sentenceCorpus "One. Two. Three. Four." "s" 12 3 true (.new 1)
    0 hjoin).mpr (by decide +kernel)

/-- A text that fills the buffer leaves its last character as a chunk of its own. -/
theorem not_coversWithoutWaste_filled :
    String.join (segmentsOf referenceCorpus (.new 2 1 true) "ab") = "ab" ∧
    (chunk referenceCorpus "ab" "s" (.new 2 1 true) (.new 1) 0).map Chunk.span =
      [(0, 2, "ab"), (1, 1, "b")] ∧
    ¬CoversWithoutWaste "ab" (ChunkerConfiguration.new 2 1 true).overlapChars
      (chunk referenceCorpus "ab" "s" (.new 2 1 true) (.new 1) 0) := by
  have hspans : (chunk referenceCorpus "ab" "s" (.new 2 1 true) (.new 1) 0).map Chunk.span =
      [(0, 2, "ab"), (1, 1, "b")] := by decide +kernel
  refine ⟨by decide +kernel, hspans, fun hwaste => ?_⟩
  have hchain : ((chunk referenceCorpus "ab" "s" (.new 2 1 true) (.new 1) 0).map
      Chunk.span).IsChain fun p q => ¬(p.1 ≤ q.1 ∧ q.1 + q.2.1 ≤ p.1 + p.2.1) :=
    (List.isChain_map Chunk.span).mpr hwaste.fresh
  rw [hspans, List.isChain_pair] at hchain
  exact hchain (by decide)

end MootMemory
