import MootMemory.ResidentArray
import MootMemory.Utf8Text
import MootMemory.ResidentPartitions

namespace MootMemory

def VEC_MAGIC : List UInt8 := [0x56, 0x45, 0x43, 0x31]

def VEC_VERSION : Nat := 0x0002

/-- A string behind its byte length, which is cut to 32 bits. -/
def encodeStr (s : String) : List UInt8 := leBytes 4 (strBytes s).length ++ strBytes s

def encodeKey (key : VectorRecordKey) : List UInt8 :=
  encodeStr key.itemId ++ leBytes 4 key.vectorIndex.toNat ++ encodeStr key.modelId ++
    encodeStr key.modelVersion

def encodePartition (p : ModelPartitionEntry) : List UInt8 :=
  encodeStr p.modelId ++ leBytes 4 p.start ++ leBytes 4 p.stop

def encodePartitions (partitions : List ModelPartitionEntry) : List UInt8 :=
  leBytes 4 partitions.length ++ partitions.flatMap encodePartition

/-- The header fields behind the version, all but the kind cut to 32 bits. -/
structure SidecarHeader where
  kind : VectorKind
  stride : Nat
  count : Nat
  liveCount : Nat
  tombstoneWords : Nat
deriving DecidableEq, Repr

def SidecarHeader.encode (h : SidecarHeader) : List UInt8 :=
  VEC_MAGIC ++ leBytes 2 VEC_VERSION ++ leBytes 1 h.kind.raw ++ leBytes 4 h.stride ++
    leBytes 4 h.count ++ leBytes 4 h.liveCount ++ leBytes 4 h.tombstoneWords

/-- The blocks of an array up to its keys, behind a header with the given live count. -/
def encodeFront (arr : ResidentVectorArray) (liveCount : Nat) : List UInt8 :=
  SidecarHeader.encode ⟨arr.kind, arr.stride, arr.count, liveCount, arr.tombstones.length⟩ ++
    arr.tombstones.flatMap (fun w => leBytes 8 w.toNat) ++ arr.storage ++
    arr.keys.flatMap encodeKey

/-- The bytes of the file. -/
def sidecarBytes (arr : ResidentVectorArray) : List UInt8 :=
  encodeFront arr arr.liveCount ++ encodePartitions arr.modelPartitions

/-- Fill the buffer to write; a buffer never gets as long as `2 ^ 63` bytes. -/
def sidecarBuffer (arr : ResidentVectorArray) : Except Fault (List UInt8) :=
  if (sidecarBytes arr).length < 2 ^ 63 then .ok (sidecarBytes arr) else .error .panic

section Parse

variable (data : List UInt8)

/-- The end of the range is a 64-bit sum: past the greatest word it overflows. -/
def checkBounds (pos len : Nat) (ctx : String) : Except Fault Unit :=
  if usizeMax < pos + len then .error .panic
  else if data.length < pos + len then
    .error (decodingFailure
      s!"ResidentArrayStore: truncated at {ctx} (pos={pos}, need={len}, have={data.length})")
  else .ok ()

def readLeU16 (pos : Nat) : Except Fault Nat := do
  checkBounds data pos 2 "u16"
  .ok (leNat (sliceAt data pos 2))

def readLeU32 (pos : Nat) : Except Fault Nat := do
  checkBounds data pos 4 "u32"
  .ok (leNat (sliceAt data pos 4))

def readLeU64 (pos : Nat) : Except Fault UInt64 := do
  checkBounds data pos 8 "u64"
  .ok (UInt64.ofNat (leNat (sliceAt data pos 8)))

def readUtf8String (pos : Nat) : Except Fault String := do
  let len ← readLeU32 data pos
  checkBounds data (pos + 4) len "string body"
  match strOfBytes (sliceAt data (pos + 4) len) with
  | .ok s => .ok s
  | .error e => .error (decodingFailure s!"ResidentArrayStore: invalid UTF-8: {e}")

def decodeKey : Reader Fault VectorRecordKey := fun pos => do
  let p := pos
  let itemId ← readUtf8String data p
  let p := p + (4 + (strBytes itemId).length)
  checkBounds data p 4 "vector_index"
  let vectorIndex ← readLeU32 data p
  let p := p + 4
  let modelId ← readUtf8String data p
  let p := p + (4 + (strBytes modelId).length)
  let modelVersion ← readUtf8String data p
  let p := p + (4 + (strBytes modelVersion).length)
  .ok (⟨itemId, UInt32.ofNat vectorIndex, modelId, modelVersion⟩, p - pos)

/-- One turn of the loop over the partitions. -/
def decodePartition : Reader Fault ModelPartitionEntry := fun pos => do
  let p := pos
  let mid ← readUtf8String data p
  let p := p + (4 + (strBytes mid).length)
  checkBounds data p 8 "partition range"
  let lo ← readLeU32 data p
  let p := p + 4
  let hi ← readLeU32 data p
  let p := p + 4
  .ok (⟨mid, lo, hi⟩, p - pos)

/-- The partitions; fewer than four bytes at the end of the file stand for none. -/
def decodePartitions : Reader Fault (List ModelPartitionEntry) := fun pos =>
  if data.length < pos + 4 then .ok ([], 0)
  else do
    let count ← readLeU32 data pos
    let (partitions, p) ← readMany (decodePartition data) count (pos + 4)
    .ok (partitions, p - pos)

/-- One turn of the loop over the tombstone words. -/
def decodeWord : Reader Fault UInt64 := fun pos => do
  let w ← readLeU64 data pos
  .ok (w, 8)

/-- A product of 64-bit words, or the given error where it overflows. -/
def checkedMul (a b : Nat) (failure : String) : Except Fault Nat :=
  if usizeMax < a * b then .error (decodingFailure failure) else .ok (a * b)

/-- The fields of the header, which take the first 23 bytes. -/
def parseHeader : Except Fault SidecarHeader :=
  if data.length < 4 then
    .error (decodingFailure "ResidentArrayStore: sidecar too short for magic")
  else if sliceAt data 0 4 ≠ VEC_MAGIC then
    .error (decodingFailure
      s!"ResidentArrayStore: bad magic {sliceAt data 0 4}; expected {VEC_MAGIC}")
  else do
    let version ← readLeU16 data 4
    if version ≠ VEC_VERSION then
      .error (decodingFailure
        s!"ResidentArrayStore: unsupported version {version}; expected {VEC_VERSION}")
    else
      checkBounds data 6 1 "kind"
      let kindRaw := leNat (sliceAt data 6 1)
      match VectorKind.fromRaw kindRaw with
      | none => .error (decodingFailure s!"ResidentArrayStore: unknown kind byte {kindRaw}")
      | some kind =>
        let stride ← readLeU32 data 7
        let count ← readLeU32 data 11
        let liveCount ← readLeU32 data 15
        let tombstoneWords ← readLeU32 data 19
        .ok { kind, stride, count, liveCount, tombstoneWords }

/-- The array in a file, with the position behind it. The live count of the header is dropped. -/
def parseSidecarAt : Except Fault (ResidentVectorArray × Nat) := do
  let header ← parseHeader data
  let { kind, stride, count, tombstoneWords, .. } := header
  let pos := 23
  let tombstoneBlock ← checkedMul tombstoneWords 8
    "ResidentArrayStore: tombstone block size overflows usize"
  checkBounds data pos tombstoneBlock "tombstone block"
  let (tombstones, pos) ← readMany (decodeWord data) tombstoneWords pos
  let vectorsBytes ← checkedMul count stride
    "ResidentArrayStore: vectors block size overflows usize"
  checkBounds data pos vectorsBytes "vectors block"
  let storage := sliceAt data pos vectorsBytes
  let pos := pos + vectorsBytes
  let (keys, pos) ← readMany (decodeKey data) count pos
  let (modelPartitions, consumed) ← decodePartitions data pos
  .ok ({ kind, stride, count, storage, keys, modelPartitions, tombstones }, pos + consumed)

def parseSidecar : Except Fault ResidentVectorArray := do
  let (arr, _) ← parseSidecarAt data
  .ok arr

end Parse

/-- The data that a slice can hold: no allocation is as long as `2 ^ 63` bytes. -/
abbrev SidecarData := { data : List UInt8 // data.length < 2 ^ 63 }

/-- The string's length fits its field. -/
def StrFits (s : String) : Prop := (strBytes s).length < 2 ^ 32

structure KeyFits (key : VectorRecordKey) : Prop where
  itemId : StrFits key.itemId
  modelId : StrFits key.modelId
  modelVersion : StrFits key.modelVersion

structure PartitionFits (p : ModelPartitionEntry) : Prop where
  modelId : StrFits p.modelId
  start : p.start < 2 ^ 32
  stop : p.stop < 2 ^ 32

/-- The sizes up to the keys fit their fields. -/
structure FrontFits (arr : ResidentVectorArray) : Prop where
  stride : arr.stride < 2 ^ 32
  count : arr.count < 2 ^ 32
  words : arr.tombstones.length < 2 ^ 32
  storage_length : arr.storage.length = arr.count * arr.stride
  keys_length : arr.keys.length = arr.count
  keys : ∀ key ∈ arr.keys, KeyFits key

/-- The partition index stands at `pos`, or is left out where fewer than four bytes follow. -/
inductive PartitionsAt (data : List UInt8) (pos : Nat) (partitions : List ModelPartitionEntry) :
    Nat → Prop where
  | absent (hend : data.length < pos + 4) (hnil : partitions = []) :
      PartitionsAt data pos partitions 0
  | present (hlen : partitions.length < 2 ^ 32) (hfits : ∀ p ∈ partitions, PartitionFits p)
      (hat : HasAt data pos (encodePartitions partitions)) :
      PartitionsAt data pos partitions (encodePartitions partitions).length

/-- The blocks of `arr` stand in `data` one behind the other and end at `stop`. -/
def LaysOut (data : List UInt8) (arr : ResidentVectorArray) (stop : Nat) : Prop :=
  FrontFits arr ∧ ∃ liveCount consumed, liveCount < 2 ^ 32 ∧
    HasAt data 0 (encodeFront arr liveCount) ∧
    PartitionsAt data (encodeFront arr liveCount).length arr.modelPartitions consumed ∧
    stop = (encodeFront arr liveCount).length + consumed

@[simp] theorem length_encodeStr (s : String) :
    (encodeStr s).length = 4 + (strBytes s).length := by simp [encodeStr]

theorem length_encodeKey (key : VectorRecordKey) :
    (encodeKey key).length = 4 + (strBytes key.itemId).length + 4 +
      (4 + (strBytes key.modelId).length) + (4 + (strBytes key.modelVersion).length) := by
  simp [encodeKey]; omega

theorem length_encodePartition (p : ModelPartitionEntry) :
    (encodePartition p).length = 4 + (strBytes p.modelId).length + 4 + 4 := by
  simp [encodePartition]

theorem length_encodeHeader (h : SidecarHeader) : h.encode.length = 23 := by
  simp [SidecarHeader.encode, VEC_MAGIC]

section Read

variable (data : SidecarData)

theorem checkBounds_ok {pos len : Nat} {ctx : String} {u : Unit} :
    checkBounds data.1 pos len ctx = .ok u ↔ pos + len ≤ data.1.length := by
  have hdata := data.2
  unfold checkBounds usizeMax
  split
  next => simp; omega
  next =>
    split
    next => simp; omega
    next => simp; omega

theorem readLeU16_ok {pos n : Nat} : readLeU16 data.1 pos = .ok n ↔
    n < 2 ^ 16 ∧ HasAt data.1 pos (leBytes 2 n) := by
  simp only [readLeU16, except_bind_ok, checkBounds_ok, Except.ok.injEq]
  rw [show (2 : Nat) ^ 16 = 256 ^ 2 by rfl, hasAt_leBytes]
  exact ⟨fun ⟨_, hle, hn⟩ => ⟨hle, hn⟩, fun ⟨hle, hn⟩ => ⟨(), hle, hn⟩⟩

theorem readLeU32_ok {pos n : Nat} : readLeU32 data.1 pos = .ok n ↔
    n < 2 ^ 32 ∧ HasAt data.1 pos (leBytes 4 n) := by
  simp only [readLeU32, except_bind_ok, checkBounds_ok, Except.ok.injEq]
  rw [show (2 : Nat) ^ 32 = 256 ^ 4 by rfl, hasAt_leBytes]
  exact ⟨fun ⟨_, hle, hn⟩ => ⟨hle, hn⟩, fun ⟨hle, hn⟩ => ⟨(), hle, hn⟩⟩

theorem readLeU64_ok {pos : Nat} {w : UInt64} : readLeU64 data.1 pos = .ok w ↔
    HasAt data.1 pos (leBytes 8 w.toNat) := by
  simp only [readLeU64, except_bind_ok, checkBounds_ok, Except.ok.injEq]
  constructor
  · rintro ⟨_, hle, rfl⟩
    have hlt := leNat_lt (sliceAt data.1 pos 8)
    rw [length_sliceAt hle] at hlt
    have hw : (UInt64.ofNat (leNat (sliceAt data.1 pos 8))).toNat = leNat (sliceAt data.1 pos 8) :=
      UInt64.toNat_ofNat_of_lt hlt
    rw [hw]
    exact (hasAt_leBytes.mpr ⟨hle, rfl⟩).2
  · intro h
    obtain ⟨hle, hn⟩ := hasAt_leBytes.mp ⟨w.toNat_lt, h⟩
    exact ⟨(), hle, by rw [hn, UInt64.ofNat_toNat]⟩

theorem readUtf8String_ok {pos : Nat} {s : String} : readUtf8String data.1 pos = .ok s ↔
    StrFits s ∧ HasAt data.1 pos (encodeStr s) := by
  simp only [readUtf8String, except_bind_ok, checkBounds_ok, readLeU32_ok]
  rw [encodeStr, hasAt_append, length_leBytes]
  constructor
  · rintro ⟨len, ⟨hlen, hat⟩, _, hle, hs⟩
    cases hstr : strOfBytes (sliceAt data.1 (pos + 4) len) with
    | error e => rw [hstr] at hs; cases hs
    | ok s' =>
      rw [hstr] at hs
      obtain rfl : s' = s := Except.ok.inj hs
      have hbytes := strOfBytes_ok.mp hstr
      have hbody := hasAt_sliceAt hle
      have hcount := length_sliceAt hle
      rw [← hbytes] at hbody hcount
      exact ⟨by rw [StrFits, hcount]; exact hlen, by rw [hcount]; exact hat, hbody⟩
  · rintro ⟨hfits, hat, hbody⟩
    refine ⟨_, ⟨hfits, hat⟩, (), hbody.1, ?_⟩
    rw [hbody.2, strOfBytes_ok.mpr rfl]

theorem reads_decodeKey : Reads data.1 encodeKey KeyFits (decodeKey data.1) := by
  intro pos key c
  simp only [decodeKey, except_bind_ok, checkBounds_ok, readUtf8String_ok, readLeU32_ok,
    Except.ok.injEq, Prod.mk.injEq]
  rw [length_encodeKey, encodeKey]
  simp only [hasAt_append, List.length_append, length_leBytes, length_encodeStr]
  constructor
  · rintro ⟨item, ⟨hitem, hitemAt⟩, _, _, index, ⟨hindex, hindexAt⟩, model, ⟨hmodel, hmodelAt⟩,
      version, ⟨hversion, hversionAt⟩, rfl, rfl⟩
    have htoNat : (UInt32.ofNat index).toNat = index := UInt32.toNat_ofNat_of_lt hindex
    refine ⟨⟨hitem, hmodel, hversion⟩, ⟨⟨⟨hitemAt, ?_⟩, ?_⟩, ?_⟩, by dsimp only; omega⟩
    · rw [htoNat]; exact hindexAt
    · simpa only [Nat.add_assoc] using hmodelAt
    · simpa only [Nat.add_assoc] using hversionAt
  · rintro ⟨⟨hitem, hmodel, hversion⟩, ⟨⟨⟨hitemAt, hindexAt⟩, hmodelAt⟩, hversionAt⟩, rfl⟩
    refine ⟨key.itemId, ⟨hitem, hitemAt⟩, (), ?_, key.vectorIndex.toNat,
      ⟨key.vectorIndex.toNat_lt, hindexAt⟩, key.modelId, ⟨hmodel, ?_⟩, key.modelVersion,
      ⟨hversion, ?_⟩, by rw [UInt32.ofNat_toNat], by omega⟩
    · simpa using hindexAt.1
    · simpa only [Nat.add_assoc] using hmodelAt
    · simpa only [Nat.add_assoc] using hversionAt

theorem reads_decodePartition :
    Reads data.1 encodePartition PartitionFits (decodePartition data.1) := by
  intro pos p c
  simp only [decodePartition, except_bind_ok, checkBounds_ok, readUtf8String_ok, readLeU32_ok,
    Except.ok.injEq, Prod.mk.injEq]
  rw [length_encodePartition, encodePartition]
  simp only [hasAt_append, List.length_append, length_leBytes, length_encodeStr]
  constructor
  · rintro ⟨mid, ⟨hmid, hmidAt⟩, _, _, lo, ⟨hlo, hloAt⟩, hi, ⟨hhi, hhiAt⟩, rfl, rfl⟩
    exact ⟨⟨hmid, hlo, hhi⟩, ⟨⟨hmidAt, hloAt⟩, by simpa only [Nat.add_assoc] using hhiAt⟩,
      by dsimp only; omega⟩
  · rintro ⟨⟨hmid, hlo, hhi⟩, ⟨⟨hmidAt, hloAt⟩, hhiAt⟩, rfl⟩
    refine ⟨p.modelId, ⟨hmid, hmidAt⟩, (), ?_, p.start, ⟨hlo, hloAt⟩, p.stop, ⟨hhi, ?_⟩, rfl,
      by omega⟩
    · have hend := hhiAt.1
      rw [length_leBytes] at hend
      omega
    · simpa only [Nat.add_assoc] using hhiAt

theorem reads_decodeWord :
    Reads data.1 (fun w : UInt64 => leBytes 8 w.toNat) (fun _ => True) (decodeWord data.1) := by
  intro pos w c
  simp only [decodeWord, except_bind_ok, readLeU64_ok, Except.ok.injEq, Prod.mk.injEq,
    length_leBytes, true_and]
  constructor
  · rintro ⟨_, hat, rfl, rfl⟩
    exact ⟨hat, rfl⟩
  · rintro ⟨hat, rfl⟩
    exact ⟨w, hat, rfl, rfl⟩

theorem decodePartitions_ok {pos c : Nat} {partitions : List ModelPartitionEntry} :
    decodePartitions data.1 pos = .ok (partitions, c) ↔
      PartitionsAt data.1 pos partitions c := by
  unfold decodePartitions
  split
  next hend =>
    constructor
    · intro h
      cases h
      exact .absent hend rfl
    · rintro (⟨_, rfl⟩ | ⟨_, _, hat⟩)
      · rfl
      · have hle := hat.1
        rw [encodePartitions, List.length_append, length_leBytes] at hle
        omega
  next hle =>
    simp only [except_bind_ok, readLeU32_ok, Prod.exists, Except.ok.injEq, Prod.mk.injEq]
    constructor
    · rintro ⟨n, ⟨hn, hat⟩, ps, p, hrun, rfl, rfl⟩
      obtain ⟨rfl, hfits, hatAll, rfl⟩ :=
        (readMany_iff (reads_decodePartition data) (by omega)).mp hrun
      have hlen : pos + 4 + (ps.flatMap encodePartition).length - pos =
          (encodePartitions ps).length := by
        rw [encodePartitions, List.length_append, length_leBytes]; omega
      rw [hlen]
      exact .present hn hfits (hasAt_append.mpr ⟨hat, by rwa [length_leBytes]⟩)
    · rintro (⟨hend, _⟩ | ⟨hlen, hfits, hat⟩)
      · exact absurd hend hle
      · obtain ⟨hcount, hall⟩ := hasAt_append.mp hat
        rw [length_leBytes] at hall
        refine ⟨_, ⟨hlen, hcount⟩, partitions, _,
          (readMany_iff (reads_decodePartition data) (by omega)).mpr
            ⟨rfl, hfits, hall, rfl⟩, rfl, ?_⟩
        rw [encodePartitions, List.length_append, length_leBytes]; omega

end Read

end MootMemory
