import MootMemory.SidecarFormat

namespace MootMemory.Swift

/-- The greatest `Int`. -/
def intMax : Nat := 2 ^ 63 - 1

/-- Addition of `Int`s traps on overflow. -/
def add (a b : Nat) : Except Fault Nat := if intMax < a + b then .error .panic else .ok (a + b)

section Parse

variable (data : List UInt8)

/-- `data[i]`, which traps out of bounds. -/
def byteAt (i : Nat) : Except Fault UInt8 :=
  match data[i]? with
  | some b => .ok b
  | none => .error .panic

/-- The little-endian number in `k` bytes; the source has one such function for each width. -/
def readLE (k offset : Nat) : Except Fault Nat := do
  let bytes ← (List.range k).mapM fun i => do byteAt data (← add offset i)
  .ok (leNat bytes)

/-- `data[lo..<hi]`, which traps on an inverted range and out of bounds. -/
def slice (lo hi : Nat) : Except Fault (List UInt8) :=
  if hi < lo ∨ data.length < hi then .error .panic else .ok (sliceAt data lo (hi - lo))

/-- `guard offset + len <= data.count`. -/
def guardEnd (offset len : Nat) (failure : String) : Except Fault Unit := do
  let stop ← add offset len
  if data.length < stop then .error (decodingFailure failure) else .ok ()

/-- A number behind the guard that its bytes are there. -/
def guardedLE (k offset : Nat) (failure : String) : Except Fault Nat := do
  guardEnd data offset k failure
  readLE data k offset

/-- A length, a text of that length and the position behind it. The two callers differ in what
they say when it goes wrong. -/
def readString (lenFailure : Nat → String) (bodyFailure : Nat → Nat → String)
    (utf8Failure : Nat → String) (pos : Nat) : Except Fault (String × Nat) := do
  let len ← guardedLE data 4 pos (lenFailure pos)
  let pos ← add pos 4
  guardEnd data pos len (bodyFailure len pos)
  let bytes ← slice data pos (← add pos len)
  match strOfBytes bytes with
  | .error _ => .error (decodingFailure (utf8Failure pos))
  | .ok s =>
    let pos ← add pos len
    .ok (s, pos)

def readKeyString : Nat → Except Fault (String × Nat) :=
  readString data
    (fun pos => s!"ResidentArrayStore.decodeKey: truncated at string length (pos={pos})")
    (fun len pos => s!"ResidentArrayStore.decodeKey: truncated in string body len={len} pos={pos}")
    (fun pos => s!"ResidentArrayStore.decodeKey: invalid UTF-8 at pos={pos}")

/-- The strings are shared with those of earlier keys in the source; no step depends on it. -/
def decodeKey : Reader Fault VectorRecordKey := fun offset => do
  let (itemID, pos) ← readKeyString data offset
  let vectorIndex ← guardedLE data 4 pos
    "ResidentArrayStore.decodeKey: truncated at vectorIndex"
  let pos ← add pos 4
  let (modelID, pos) ← readKeyString data pos
  let (modelVersion, pos) ← readKeyString data pos
  .ok (⟨itemID, UInt32.ofNat vectorIndex, modelID, modelVersion⟩, pos - offset)

def readModelID : Nat → Except Fault (String × Nat) :=
  readString data
    (fun _ => "ResidentArrayStore.decodePartitions: truncated at model_id length")
    (fun _ _ => "ResidentArrayStore.decodePartitions: truncated in model_id body")
    (fun _ => "ResidentArrayStore.decodePartitions: invalid UTF-8 model_id")

/-- `lo..<hi`, which traps when the lower bound is the greater one. -/
def partitionEntry (modelID : String) (lo hi : Nat) : Except Fault ModelPartitionEntry :=
  if hi < lo then .error .panic else .ok ⟨modelID, lo, hi⟩

/-- One turn of the loop over the partitions. -/
def decodePartition : Reader Fault ModelPartitionEntry := fun offset => do
  let (modelID, pos) ← readModelID data offset
  guardEnd data pos 8 "ResidentArrayStore.decodePartitions: truncated at range bounds"
  let lo ← readLE data 4 pos
  let pos ← add pos 4
  let hi ← readLE data 4 pos
  let pos ← add pos 4
  let entry ← partitionEntry modelID lo hi
  .ok (entry, pos - offset)

def decodePartitions : Reader Fault (List ModelPartitionEntry) := fun offset => do
  let stop ← add offset 4
  if data.length < stop then .ok ([], 0)
  else
    let count ← readLE data 4 offset
    let pos ← add offset 4
    let (partitions, pos) ← readMany (decodePartition data) count pos
    .ok (partitions, pos - offset)

/-- One turn of the loop over the tombstone words. -/
def decodeWord : Reader Fault UInt64 := fun offset => do
  let word ← readLE data 8 offset
  .ok (UInt64.ofNat word, 8)

/-- A product that reports its overflow. -/
def multiplied (a b : Nat) (failure : String) : Except Fault Nat :=
  if intMax < a * b then .error (decodingFailure failure) else .ok (a * b)

def parseHeader : Except Fault SidecarHeader :=
  if data.length < 4 then
    .error (decodingFailure "ResidentArrayStore: sidecar too short for magic")
  else do
    let magic ← slice data 0 4
    if magic ≠ VEC_MAGIC then
      .error (decodingFailure s!"ResidentArrayStore: bad magic {magic}; expected VEC1")
    else
      let version ← guardedLE data 2 4 "ResidentArrayStore: truncated at version field"
      if version ≠ VEC_VERSION then
        .error (decodingFailure
          s!"ResidentArrayStore: unsupported version {version}; expected {VEC_VERSION}")
      else
        let kindRaw ← guardedLE data 1 6 "ResidentArrayStore: truncated at kind"
        match VectorKind.fromRaw kindRaw with
        | none => .error (decodingFailure s!"ResidentArrayStore: unknown kind byte {kindRaw}")
        | some kind =>
          let stride ← guardedLE data 4 7 "ResidentArrayStore: truncated at stride field"
          let count ← guardedLE data 4 11 "ResidentArrayStore: truncated at count field"
          let liveCount ← guardedLE data 4 15
            "ResidentArrayStore: truncated at live_count field"
          let tombstoneWords ← guardedLE data 4 19
            "ResidentArrayStore: truncated at tombstone_words field"
          .ok { kind, stride, count, liveCount, tombstoneWords }

def parseSidecar : Except Fault ResidentVectorArray := do
  let header ← parseHeader data
  let { kind, stride, count, tombstoneWords, .. } := header
  let offset := 23
  let tombstoneBlockBytes ← multiplied tombstoneWords 8
    "ResidentArrayStore: tombstone block size overflows"
  guardEnd data offset tombstoneBlockBytes "ResidentArrayStore: truncated in tombstone block"
  let (tombstones, offset) ← readMany (decodeWord data) tombstoneWords offset
  let vectorsBytes ← multiplied count stride "ResidentArrayStore: vectors block size overflows"
  guardEnd data offset vectorsBytes "ResidentArrayStore: truncated in vectors block"
  let storage ← slice data offset (← add offset vectorsBytes)
  let offset ← add offset vectorsBytes
  let (keys, offset) ← readMany (decodeKey data) count offset
  let (modelPartitions, _) ← decodePartitions data offset
  .ok { kind, stride, count, storage, keys, modelPartitions, tombstones }

end Parse

end MootMemory.Swift
