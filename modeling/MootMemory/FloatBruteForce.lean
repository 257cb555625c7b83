import MootMemory.LoopRuns
import MootMemory.ResidentArray
import Mathlib.Data.List.Nodup
import Mathlib.Data.List.Perm.Subperm

namespace MootMemory

/-- The linear-scan index of the float lane; without an array before the first write. -/
structure FloatBruteForceIndex where
  array : Option ResidentVectorArray
deriving DecidableEq, Repr

inductive SearchDirection where
  | nearest
  | farthest
deriving DecidableEq, Repr

/-- The float arithmetic of a search, over the bytes of two vectors. -/
structure FloatMath (D : Type) where
  distance : FloatMetric → List UInt8 → List UInt8 → D
  partialCmp : D → D → Option Ordering
  toRaw : D → Int

namespace FloatBruteForceIndex

def new : FloatBruteForceIndex := ⟨none⟩

/-- The runs of one model from the run that is open on. -/
def partitionRuns (start : Nat) (model : String) (i : Nat) :
    List VectorRecordKey → List ModelPartitionEntry
  | [] => [⟨model, start, i⟩]
  | key :: keys =>
    if key.modelId ≠ model then ⟨model, start, i⟩ :: partitionRuns i key.modelId (i + 1) keys
    else partitionRuns start model (i + 1) keys

/-- The runs of slots of one model, in slot order. -/
def buildPartitions : List VectorRecordKey → List ModelPartitionEntry
  | [] => []
  | key :: keys => partitionRuns 0 key.modelId 1 keys

/-- A failed build leaves the index as it is. -/
def build (_idx : FloatBruteForceIndex) (vectors : List VectorPayload)
    (keys : List VectorRecordKey) : Except Fault FloatBruteForceIndex :=
  match vectors with
  | [] => .ok ⟨some (.empty .float32 0)⟩
  | first :: _ =>
    let stride := first.bytes.length
    if vectors.all fun v => v.kind == .float32 && v.bytes.length == stride then
      .ok ⟨some
        { kind := .float32, stride, count := vectors.length, storage := vectors.flatMap (·.bytes),
          keys, modelPartitions := buildPartitions keys, tombstones := [] }⟩
    else .error <| .err <| .invalidPayload
      "FloatBruteForceIndex.build: all vectors must be Float32 with identical byte length"

/-- The array that an add finds; the first one sets the width of the slots. -/
def arrayFor (idx : FloatBruteForceIndex) (vector : VectorPayload) : ResidentVectorArray :=
  idx.array.getD (.empty .float32 vector.bytes.length)

def appendSlot (arr : ResidentVectorArray) (key : VectorRecordKey) (vector : VectorPayload) :
    ResidentVectorArray :=
  { arr with
    storage := arr.storage ++ vector.bytes
    keys := arr.keys ++ [key]
    count := arr.count + 1
    modelPartitions := buildPartitions (arr.keys ++ [key]) }

/-- The vector goes to a new slot, whatever slots its key has. -/
def add (idx : FloatBruteForceIndex) (key : VectorRecordKey) (vector : VectorPayload) :
    Except Fault FloatBruteForceIndex :=
  if vector.kind ≠ .float32 then
    .error <| .err <| .invalidPayload
      s!"FloatBruteForceIndex.add: vector.kind={vector.kind.debug}; expected Float32"
  else
    let arr := idx.arrayFor vector
    if vector.bytes.length ≠ arr.stride then
      .error <| .err <| .invalidPayload <|
        s!"FloatBruteForceIndex.add: vector has {vector.bytes.length} bytes but index " ++
          s!"stride={arr.stride}; all vectors in one index must share the same dimension"
    else .ok ⟨some (appendSlot arr key vector)⟩

/-- The first slot that holds the key. -/
def slotOf (arr : ResidentVectorArray) (key : VectorRecordKey) : Option Nat :=
  arr.keys.findIdx? (· = key)

/-- The first slot that holds the key dies. -/
def remove (idx : FloatBruteForceIndex) (key : VectorRecordKey) : FloatBruteForceIndex :=
  match idx.array with
  | none => idx
  | some arr =>
    match slotOf arr key with
    | none => idx
    | some slot => ⟨some { arr with tombstones := setWordsBit arr.tombstones slot }⟩

variable {D : Type}

/-- One turn of the scan: the distance of a live slot whose key the filter accepts. -/
def scanStep (math : FloatMath D) (arr : ResidentVectorArray) (probe : VectorPayload)
    (metric : FloatMetric) (filter : Option MetadataFilter) (scored : List (D × VectorRecordKey))
    (i : Nat) : Except Fault (List (D × VectorRecordKey)) :=
  if arr.isTombstoned i then .ok scored
  else match arr.keys[i]? with
    | none => .ok scored
    | some key =>
      if !acceptedBy filter key then .ok scored
      else do
        let bytes ← arr.vectorBytes i
        .ok (scored ++ [(math.distance metric probe.bytes bytes, key)])

/-- Distances that do not compare count as equal; ties go to the smaller key. -/
def scoredCmp (math : FloatMath D) (direction : SearchDirection)
    (a b : D × VectorRecordKey) : Ordering :=
  let primary := match direction with
    | .nearest => math.partialCmp a.1 b.1
    | .farthest => math.partialCmp b.1 a.1
  (primary.getD .eq).then (a.2.cmp b.2)

def hitOf (math : FloatMath D) (metric : DenseMetric) (scored : D × VectorRecordKey) : DenseHit :=
  { key := scored.2, rawDistance := math.toRaw scored.1, metric }

/-- The shared scan of `search` and `search_farthest`. -/
def searchDirected (math : FloatMath D) (idx : FloatBruteForceIndex) (probe : VectorPayload)
    (metric : DenseMetric) (k : Nat) (filter : Option MetadataFilter)
    (direction : SearchDirection) : Except Fault (List DenseHit) :=
  if probe.kind ≠ .float32 then
    .error <| .err <| .invalidPayload
      s!"FloatBruteForceIndex.search: probe.kind={probe.kind.debug}; expected Float32"
  else match metric with
    | .binary _ =>
      .error <| .err <| .invalidPayload <|
        s!"FloatBruteForceIndex.search: metric={metric.debug} is not a float metric; " ++
          "use the binary lane for binary metrics"
    | .float floatMetric =>
      match idx.array with
      | none => .ok []
      | some arr =>
        if arr.kind ≠ .float32 then
          .error <| .err <| .invalidPayload
            s!"FloatBruteForceIndex.search: resident array kind={arr.kind.debug}; expected Float32"
        else if arr.stride = 0 then .ok []
        else if probe.bytes.length ≠ arr.stride then
          .error <| .err <| .invalidPayload <|
            s!"FloatBruteForceIndex.search: probe byte count {probe.bytes.length} " ++
              s!"does not match array stride {arr.stride}"
        else do
          let scored ← (List.range arr.count).foldlM
            (scanStep math arr probe floatMetric filter) []
          let sorted := scored.mergeSort fun a b => (scoredCmp math direction a b).isLE
          .ok ((sorted.take k).map (hitOf math metric))

def search (math : FloatMath D) (idx : FloatBruteForceIndex) (probe : VectorPayload)
    (metric : DenseMetric) (k : Nat) (filter : Option MetadataFilter) :
    Except Fault (List DenseHit) :=
  searchDirected math idx probe metric k filter .nearest

def searchFarthest (math : FloatMath D) (idx : FloatBruteForceIndex) (probe : VectorPayload)
    (metric : DenseMetric) (k : Nat) (filter : Option MetadataFilter) :
    Except Fault (List DenseHit) :=
  searchDirected math idx probe metric k filter .farthest

/-- The key that a search meets at slot `i`: the slot's own, unless the slot is dead. -/
def visibleKey (arr : ResidentVectorArray) (i : Nat) : Option VectorRecordKey :=
  if arr.isTombstoned i then none else arr.keys[i]?

variable {math : FloatMath D} {idx : FloatBruteForceIndex} {arr : ResidentVectorArray}
  {probe : VectorPayload} {metric : DenseMetric} {filter : Option MetadataFilter} {k : Nat}
  {direction : SearchDirection} {hits : List DenseHit} {key : VectorRecordKey}

theorem scanStep_keys {floatMetric : FloatMetric} {scored scored' : List (D × VectorRecordKey)}
    {i : Nat} (h : scanStep math arr probe floatMetric filter scored i = .ok scored') :
    scored'.map Prod.snd =
      scored.map Prod.snd ++ ((visibleKey arr i).filter (acceptedBy filter)).toList := by
  rw [scanStep] at h
  rw [visibleKey]
  split at h
  next hdead => cases h; simp [hdead]
  next hlive =>
    rw [if_neg hlive]
    cases hkey : arr.keys[i]? with
    | none =>
      rw [hkey] at h
      cases h
      simp
    | some key =>
      rw [hkey] at h
      dsimp only at h
      split at h
      next hrefused =>
        cases h
        have hno : acceptedBy filter key = false := by simpa using hrefused
        simp [Option.filter, hno]
      next haccepted =>
        have hyes : acceptedBy filter key = true := by simpa using haccepted
        obtain ⟨bytes, -, h⟩ := except_bind_ok.mp h
        cases h
        simp [Option.filter, hyes]

theorem scan_keys {floatMetric : FloatMetric} {slots : List Nat}
    {scored scored' : List (D × VectorRecordKey)}
    (h : slots.foldlM (scanStep math arr probe floatMetric filter) scored = .ok scored') :
    scored'.map Prod.snd = scored.map Prod.snd ++
      slots.filterMap fun i => (visibleKey arr i).filter (acceptedBy filter) := by
  induction slots generalizing scored with
  | nil =>
    cases h
    simp
  | cons i slots ih =>
    rw [List.foldlM_cons] at h
    obtain ⟨next, hstep, hrest⟩ := except_bind_ok.mp h
    rw [ih hrest, scanStep_keys hstep, List.append_assoc, List.filterMap_cons]
    cases (visibleKey arr i).filter (acceptedBy filter) <;> rfl

/-- The keys of the hits are those of different slots that are visible. -/
theorem searchDirected_keys
    (h : searchDirected math idx probe metric k filter direction = .ok hits) :
    hits = [] ∨ ∃ arr, idx.array = some arr ∧ (hits.map (·.key)).Subperm
      ((List.range arr.count).filterMap (visibleKey arr)) := by
  unfold searchDirected at h
  split at h
  next => cases h
  next =>
    split at h
    next => cases h
    next floatMetric =>
      split at h
      next => cases h; exact Or.inl rfl
      next arr harr =>
        refine Or.inr ⟨arr, harr, ?_⟩
        split at h
        next => cases h
        next =>
          split at h
          next => cases h; exact List.nil_subperm
          next =>
            split at h
            next => cases h
            next =>
              obtain ⟨scored, hscan, h⟩ := except_bind_ok.mp h
              cases h
              have hkeys := scan_keys hscan
              rw [List.map_nil, List.nil_append, ← List.filter_filterMap] at hkeys
              have hsorted := (List.mergeSort_perm scored fun a b =>
                (scoredCmp math direction a b).isLE).map Prod.snd
              have htaken := ((List.take_sublist k (scored.mergeSort fun a b =>
                (scoredCmp math direction a b).isLE)).map Prod.snd).subperm
              rw [hkeys] at hsorted
              rw [List.map_map]
              exact htaken.trans (hsorted.subperm.trans List.filter_sublist.subperm)

end FloatBruteForceIndex

end MootMemory
