import MootMemory.EffectRun
import MootMemory.VectorTypes
import MootMemory.BitCount

namespace MootMemory

/-- `stop` is exclusive. -/
structure ModelPartitionEntry where
  modelId : String
  start : Nat
  stop : Nat
deriving DecidableEq, Repr

/-- Slots of equal width in one byte block, with a key for each and a bitset of dead ones. -/
structure ResidentVectorArray where
  kind : VectorKind
  stride : Nat
  count : Nat
  storage : List UInt8
  keys : List VectorRecordKey
  modelPartitions : List ModelPartitionEntry
  tombstones : List UInt64
deriving DecidableEq, Repr

namespace ResidentVectorArray

def empty (kind : VectorKind) (stride : Nat) : ResidentVectorArray :=
  { kind, stride, count := 0, storage := [], keys := [], modelPartitions := [], tombstones := [] }

def isTombstoned (arr : ResidentVectorArray) (i : Nat) : Bool := wordsBit arr.tombstones i

def liveCount (arr : ResidentVectorArray) : Nat :=
  ((List.range arr.count).filter fun i => !arr.isTombstoned i).length

/-- The bytes of slot `i`; slicing past the storage panics. -/
def vectorBytes (arr : ResidentVectorArray) (i : Nat) : Except Fault (List UInt8) :=
  if arr.storage.length < i * arr.stride + arr.stride then .error .panic
  else .ok (sliceAt arr.storage (i * arr.stride) arr.stride)

/-- `keys[i]`; indexing past the keys panics. -/
def keyAt (arr : ResidentVectorArray) (i : Nat) : Except Fault VectorRecordKey :=
  match arr.keys[i]? with
  | some key => .ok key
  | none => .error .panic

/-- One turn of the loop that sets the bit of every slot with a matching key. -/
def tombstoneStep (arr : ResidentVectorArray) (p : VectorRecordKey → Bool)
    (acc : List UInt64 × Bool) (i : Nat) : Except Fault (List UInt64 × Bool) := do
  let key ← arr.keyAt i
  if p key then .ok (setWordsBit acc.1 i, true) else .ok acc

/-- The bitset with every slot whose key matches set, and whether there was one. -/
def tombstoneMatching (arr : ResidentVectorArray) (p : VectorRecordKey → Bool) :
    Except Fault (List UInt64 × Bool) :=
  (List.range arr.count).foldlM (arr.tombstoneStep p) (arr.tombstones, false)

/-- The key and bytes of slot `i`. -/
def slotRecord (arr : ResidentVectorArray) (i : Nat) : Option VectorRecord :=
  arr.keys[i]?.map fun key => (key, sliceAt arr.storage (i * arr.stride) arr.stride)

/-- The record of slot `i` unless it is dead. -/
def liveSlot (arr : ResidentVectorArray) (i : Nat) : Option VectorRecord :=
  if arr.isTombstoned i then none else arr.slotRecord i

/-- The records of the slots that are not dead, in slot order. -/
def liveRecords (arr : ResidentVectorArray) : List VectorRecord :=
  (List.range arr.count).filterMap arr.liveSlot

/-- The three documented lengths of the blocks. -/
structure Sized (arr : ResidentVectorArray) : Prop where
  storage_length : arr.storage.length = arr.count * arr.stride
  keys_length : arr.keys.length = arr.count
  tombstones_length : arr.tombstones.length = (arr.count + 63) / 64

theorem Sized.keyAt_eq {arr : ResidentVectorArray} (hk : arr.keys.length = arr.count) {i : Nat}
    (hi : i < arr.count) : ∃ key, arr.keys[i]? = some key ∧ arr.keyAt i = .ok key := by
  have hget := List.getElem?_eq_getElem (show i < arr.keys.length by omega)
  exact ⟨_, hget, by rw [keyAt, hget]⟩

theorem slot_end_le (stride : Nat) {i count : Nat} (hi : i < count) :
    i * stride + stride ≤ count * stride := by
  rw [← Nat.succ_mul]
  exact Nat.mul_le_mul_right stride hi

theorem Sized.vectorBytes_eq {arr : ResidentVectorArray} (h : arr.Sized) {i : Nat}
    (hi : i < arr.count) :
    arr.vectorBytes i = .ok (sliceAt arr.storage (i * arr.stride) arr.stride) := by
  have hend := slot_end_le arr.stride hi
  rw [vectorBytes, if_neg (by rw [h.storage_length]; omega)]

/-- The pure loop over the first `n` slots. -/
def markedWords (keys : List VectorRecordKey) (words : List UInt64) (p : VectorRecordKey → Bool)
    (n : Nat) : List UInt64 × Bool :=
  (List.range n).foldl (fun acc i =>
    if keys[i]?.any p then (setWordsBit acc.1 i, true) else acc) (words, false)

theorem markedWords_succ (keys : List VectorRecordKey) (words : List UInt64)
    (p : VectorRecordKey → Bool) (n : Nat) :
    markedWords keys words p (n + 1) =
      if keys[n]?.any p then (setWordsBit (markedWords keys words p n).1 n, true)
      else markedWords keys words p n := by
  simp only [markedWords, List.range_succ, List.foldl_append, List.foldl_cons, List.foldl_nil]

/-- The loop adds exactly the bits of the slots whose key matches. -/
theorem wordsBit_markedWords (keys : List VectorRecordKey) (words : List UInt64)
    (p : VectorRecordKey → Bool) (n i : Nat) :
    wordsBit (markedWords keys words p n).1 i =
      (wordsBit words i || (decide (i < n) && keys[i]?.any p)) := by
  induction n with
  | zero => simp [markedWords]
  | succ n ih =>
    rw [markedWords_succ]
    split
    next hp =>
      rw [wordsBit_setWordsBit, ih]
      by_cases hin : n = i
      · subst hin; simp [hp]
      · simp only [hin, decide_false, Bool.false_or]
        congr 2
        exact decide_eq_decide.mpr (by omega)
    next hp =>
      rw [ih]
      by_cases hin : i = n
      · subst hin; simp [Bool.eq_false_iff.mpr hp]
      · congr 2
        exact decide_eq_decide.mpr (by omega)

theorem length_markedWords (keys : List VectorRecordKey) (words : List UInt64)
    (p : VectorRecordKey → Bool) {n : Nat} (h : (n + 63) / 64 ≤ words.length) :
    (markedWords keys words p n).1.length = words.length := by
  induction n with
  | zero => rfl
  | succ n ih =>
    have hrec := ih (by omega)
    rw [markedWords_succ]
    split
    next => rw [length_setWordsBit, hrec]; omega
    next => exact hrec

theorem markedWords_changed (keys : List VectorRecordKey) (words : List UInt64)
    (p : VectorRecordKey → Bool) (n : Nat) :
    (markedWords keys words p n).2 = (keys.take n).any p := by
  induction n with
  | zero => simp [markedWords]
  | succ n ih =>
    rw [markedWords_succ, List.take_add_one, List.any_append, ← ih]
    cases hk : keys[n]? with
    | none => simp
    | some key => cases hp : p key <;> simp [hp]

theorem tombstoneMatching_eq {arr : ResidentVectorArray} (hk : arr.keys.length = arr.count)
    (p : VectorRecordKey → Bool) :
    arr.tombstoneMatching p = .ok (markedWords arr.keys arr.tombstones p arr.count) := by
  rw [tombstoneMatching, markedWords]
  apply foldlM_ok
  intro i hi s
  obtain ⟨key, hget, hkey⟩ := Sized.keyAt_eq hk (List.mem_range.mp hi)
  rw [tombstoneStep, hkey, hget]
  cases hp : p key <;> simp [hp, bind, Except.bind]

end ResidentVectorArray

end MootMemory
