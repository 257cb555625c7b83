import MootMemory.SidecarFormat

namespace MootMemory

/-- The counts of a header fit their fields. -/
structure HeaderFits (h : SidecarHeader) : Prop where
  stride : h.stride < 2 ^ 32
  count : h.count < 2 ^ 32
  liveCount : h.liveCount < 2 ^ 32
  tombstoneWords : h.tombstoneWords < 2 ^ 32

theorem hasAt_magic {data : List UInt8} :
    HasAt data 0 VEC_MAGIC ↔ 4 ≤ data.length ∧ sliceAt data 0 4 = VEC_MAGIC := by
  simp [HasAt, VEC_MAGIC]

/-- The fields of a header one by one. -/
theorem hasAt_encodeHeader {data : List UInt8} {h : SidecarHeader} :
    HasAt data 0 h.encode ↔ HasAt data 0 VEC_MAGIC ∧
      HasAt data 4 (leBytes 2 VEC_VERSION) ∧ HasAt data 6 (leBytes 1 h.kind.raw) ∧
      HasAt data 7 (leBytes 4 h.stride) ∧ HasAt data 11 (leBytes 4 h.count) ∧
      HasAt data 15 (leBytes 4 h.liveCount) ∧ HasAt data 19 (leBytes 4 h.tombstoneWords) := by
  simp only [SidecarHeader.encode, hasAt_append, List.length_append, length_leBytes, and_assoc]
  rfl

theorem hasAt_kind {data : List UInt8} {pos : Nat} {kind : VectorKind} :
    HasAt data pos (leBytes 1 kind.raw) ↔ pos + 1 ≤ data.length ∧
      VectorKind.fromRaw (leNat (sliceAt data pos 1)) = some kind := by
  rw [VectorKind.fromRaw_eq_some, ← hasAt_leBytes]
  exact (and_iff_right kind.raw_lt).symm

section Parse

variable (data : SidecarData)

theorem parseHeader_ok {h : SidecarHeader} :
    parseHeader data.1 = .ok h ↔ HeaderFits h ∧ HasAt data.1 0 h.encode := by
  rw [hasAt_encodeHeader, hasAt_magic, hasAt_kind]
  constructor
  · intro hrun
    unfold parseHeader at hrun
    split at hrun
    next => cases hrun
    next hlen =>
      split at hrun
      next => cases hrun
      next hmagic =>
        obtain ⟨version, hversion, hrun⟩ := except_bind_ok.mp hrun
        split at hrun
        next => cases hrun
        next heq =>
          obtain ⟨_, hbound, hrun⟩ := except_bind_ok.mp hrun
          obtain ⟨_, hversionAt⟩ := (readLeU16_ok data).mp hversion
          rw [not_not.mp heq] at hversionAt
          dsimp only at hrun
          split at hrun
          next => cases hrun
          next kind hkind =>
            simp only [except_bind_ok, readLeU32_ok, Except.ok.injEq] at hrun
            obtain ⟨stride, ⟨hs, hsAt⟩, count, ⟨hc, hcAt⟩, live, ⟨hl, hlAt⟩, words, ⟨hw, hwAt⟩,
              rfl⟩ := hrun
            exact ⟨⟨hs, hc, hl, hw⟩, ⟨by omega, not_not.mp hmagic⟩, hversionAt,
              ⟨(checkBounds_ok data).mp hbound, hkind⟩, hsAt, hcAt, hlAt, hwAt⟩
  · rintro ⟨hfits, ⟨hlen, hmagic⟩, hversion, ⟨hbound, hkind⟩, hs, hc, hl, hw⟩
    have hread : readLeU16 data.1 4 = .ok VEC_VERSION := (readLeU16_ok data).mpr ⟨by decide, hversion⟩
    rw [parseHeader, if_neg (by omega), if_neg (not_not.mpr hmagic)]
    refine except_bind_ok.mpr ⟨VEC_VERSION, hread, ?_⟩
    rw [if_neg (not_not.mpr rfl)]
    refine except_bind_ok.mpr ⟨(), (checkBounds_ok data).mpr hbound, ?_⟩
    simp only [hkind, except_bind_ok, readLeU32_ok, Except.ok.injEq]
    exact ⟨_, ⟨hfits.stride, hs⟩, _, ⟨hfits.count, hc⟩, _, ⟨hfits.liveCount, hl⟩, _,
      ⟨hfits.tombstoneWords, hw⟩, rfl⟩

theorem checkedMul_ok {a b n : Nat} {failure : String} :
    checkedMul a b failure = .ok n ↔ a * b ≤ usizeMax ∧ n = a * b := by
  unfold checkedMul
  split
  next h => simp; omega
  next h => simp only [Except.ok.injEq]; omega

/-- The parser accepts exactly the files in which the blocks of its array are laid out. -/
theorem parseSidecarAt_ok {arr : ResidentVectorArray} {stop : Nat} :
    parseSidecarAt data.1 = .ok (arr, stop) ↔ LaysOut data.1 arr stop := by
  have hdata := data.2
  simp only [parseSidecarAt, except_bind_ok, parseHeader_ok, checkedMul_ok, checkBounds_ok,
    Prod.exists, decodePartitions_ok, Except.ok.injEq, Prod.mk.injEq]
  constructor
  · rintro ⟨⟨kind, stride, count, live, words⟩, ⟨hfits, hheader⟩, _, ⟨_, rfl⟩, _, hblock, ws, pos₁,
      hws, _, ⟨_, rfl⟩, _, hvectors, keys, pos₂, hkeys, partitions, consumed, hparts, rfl, rfl⟩
    obtain ⟨rfl, _, hwsAt, rfl⟩ := (readMany_iff (reads_decodeWord data) (by omega)).mp hws
    obtain ⟨rfl, hkeyFits, hkeysAt, rfl⟩ :=
      (readMany_iff (reads_decodeKey data) hvectors).mp hkeys
    refine ⟨⟨hfits.stride, hfits.count, hfits.tombstoneWords, length_sliceAt hvectors, rfl,
      hkeyFits⟩, live, consumed, hfits.liveCount, ?_, ?_, ?_⟩
    · simp only [encodeFront, hasAt_append, List.length_append, length_encodeHeader,
        length_sliceAt hvectors, Nat.zero_add]
      exact ⟨⟨⟨hheader, hwsAt⟩, hasAt_sliceAt hvectors⟩, hkeysAt⟩
    · simp only [encodeFront, List.length_append, length_encodeHeader, length_sliceAt hvectors]
      exact hparts
    · simp only [encodeFront, List.length_append, length_encodeHeader, length_sliceAt hvectors]
  · rintro ⟨hfits, live, consumed, hlive, hfront, hparts, rfl⟩
    simp only [encodeFront, hasAt_append, List.length_append, length_encodeHeader, Nat.zero_add]
      at hfront hparts ⊢
    obtain ⟨⟨⟨hheader, hwsAt⟩, hstorageAt⟩, hkeysAt⟩ := hfront
    have hws : (arr.tombstones.flatMap fun w => leBytes 8 w.toNat).length =
        arr.tombstones.length * 8 := by simp
    have hend := hstorageAt.1
    have hkeysPos := hkeysAt.1
    have hheaderEnd := hheader.1
    have hlen := hfits.storage_length
    rw [length_encodeHeader] at hheaderEnd
    have hblock : 23 + arr.tombstones.length * 8 ≤ data.1.length := by omega
    have hwords : arr.tombstones.length * 8 ≤ usizeMax := by unfold usizeMax; omega
    have hvectors : 23 + (arr.tombstones.flatMap fun w => leBytes 8 w.toNat).length +
        arr.count * arr.stride ≤ data.1.length := by omega
    have hbytes : arr.count * arr.stride ≤ usizeMax := by unfold usizeMax; omega
    refine ⟨_, ⟨⟨hfits.stride, hfits.count, hlive, hfits.words⟩, hheader⟩, _,
      ⟨hwords, rfl⟩, (), hblock, arr.tombstones, _,
      (readMany_iff (reads_decodeWord data) (by omega)).mpr ⟨rfl, by simp, hwsAt, rfl⟩, _,
      ⟨hbytes, rfl⟩, (), hvectors, arr.keys, _,
      (readMany_iff (reads_decodeKey data) (by omega)).mpr ⟨hfits.keys_length, hfits.keys, ?_, rfl⟩,
      arr.modelPartitions, consumed, ?_, ?_, ?_⟩
    · rw [← hlen]; exact hkeysAt
    · rw [← hlen]; exact hparts
    · rw [← hlen, hstorageAt.2]
    · rw [← hlen]

theorem parseSidecar_ok {arr : ResidentVectorArray} :
    parseSidecar data.1 = .ok arr ↔ ∃ stop, LaysOut data.1 arr stop := by
  simp only [parseSidecar, except_bind_ok, Prod.exists, parseSidecarAt_ok, Except.ok.injEq]
  constructor
  · rintro ⟨_, stop, h, rfl⟩
    exact ⟨stop, h⟩
  · rintro ⟨stop, h⟩
    exact ⟨arr, stop, h, rfl⟩

end Parse

/-- The sizes, bounds and texts of an array fit the 32-bit fields of the format. -/
structure FieldsFit (arr : ResidentVectorArray) : Prop where
  stride : arr.stride < 2 ^ 32
  count : arr.count < 2 ^ 32
  words : arr.tombstones.length < 2 ^ 32
  keys : ∀ key ∈ arr.keys, KeyFits key
  partitions : ∀ p ∈ arr.modelPartitions, PartitionFits p

theorem FieldsFit.front {arr : ResidentVectorArray} (h : FieldsFit arr) (hsized : arr.Sized) :
    FrontFits arr :=
  ⟨h.stride, h.count, h.words, hsized.storage_length, hsized.keys_length, h.keys⟩

theorem liveCount_le (arr : ResidentVectorArray) : arr.liveCount ≤ arr.count := by
  have h := List.length_filter_le (fun i => !arr.isTombstoned i) (List.range arr.count)
  rwa [List.length_range] at h

theorem hasAt_front (arr : ResidentVectorArray) :
    HasAt (sidecarBytes arr) 0 (encodeFront arr arr.liveCount) := by
  have h := hasAt_mid [] (encodeFront arr arr.liveCount) (encodePartitions arr.modelPartitions)
  rwa [List.nil_append] at h

theorem hasAt_partitions (arr : ResidentVectorArray) :
    HasAt (sidecarBytes arr) (encodeFront arr arr.liveCount).length
      (encodePartitions arr.modelPartitions) := by
  have h := hasAt_mid (encodeFront arr arr.liveCount) (encodePartitions arr.modelPartitions) []
  rwa [List.append_nil] at h

theorem laysOut_sidecarBytes {arr : ResidentVectorArray} (hsized : arr.Sized)
    (hfits : FieldsFit arr) (hlen : arr.modelPartitions.length < 2 ^ 32) :
    LaysOut (sidecarBytes arr) arr (sidecarBytes arr).length := by
  refine ⟨hfits.front hsized, arr.liveCount, _,
    lt_of_le_of_lt (liveCount_le arr) hfits.count, hasAt_front arr,
    .present hlen hfits.partitions (hasAt_partitions arr), ?_⟩
  rw [sidecarBytes, List.length_append]

/-- What the writer puts into the file the parser reads back, to the last byte. -/
theorem parseSidecarAt_sidecarBuffer {arr : ResidentVectorArray} {data : List UInt8}
    (hsized : arr.Sized) (hfits : FieldsFit arr) (hlen : arr.modelPartitions.length < 2 ^ 32)
    (hwrite : sidecarBuffer arr = .ok data) :
    parseSidecarAt data = .ok (arr, data.length) := by
  unfold sidecarBuffer at hwrite
  split at hwrite
  next hsize =>
    obtain rfl : sidecarBytes arr = data := Except.ok.inj hwrite
    exact (parseSidecarAt_ok ⟨sidecarBytes arr, hsize⟩).mpr (laysOut_sidecarBytes hsized hfits hlen)
  next => cases hwrite

theorem parseSidecarAt_sidecarBuffer_one :
    let arr : ResidentVectorArray :=
      { kind := .binary, stride := 2, count := 1, storage := [7, 9],
        keys := [⟨"é", 3, "m", "1"⟩], modelPartitions := [⟨"m", 0, 1⟩], tombstones := [0] }
    parseSidecarAt (sidecarBytes arr) = .ok (arr, 70) := by
  intro arr
  have hitem : StrFits "é" := by unfold StrFits; decide +kernel
  have hmodel : StrFits "m" := by unfold StrFits; decide +kernel
  have hversion : StrFits "1" := by unfold StrFits; decide +kernel
  have hlen : (sidecarBytes arr).length = 70 := by decide +kernel
  rw [← hlen]
  have hsized : arr.Sized := ⟨rfl, rfl, by decide⟩
  have hfits : FieldsFit arr := by
    refine ⟨by decide, by decide, by decide, fun key hkey => ?_, fun p hp => ?_⟩
    · obtain rfl := List.mem_singleton.mp hkey
      exact ⟨hitem, hmodel, hversion⟩
    · obtain rfl := List.mem_singleton.mp hp
      exact ⟨hmodel, by decide, by decide⟩
  exact parseSidecarAt_sidecarBuffer hsized hfits (by decide)
    (by rw [sidecarBuffer, if_pos (by rw [hlen]; decide)])

/-- An array without slots and with `n` partitions of the empty id. -/
def emptyPartitions (n : Nat) : ResidentVectorArray :=
  { ResidentVectorArray.empty .binary 32 with modelPartitions := List.replicate n ⟨"", 0, 0⟩ }

theorem length_sidecarBytes_emptyPartitions (n : Nat) :
    (sidecarBytes (emptyPartitions n)).length = 27 + n * 12 := by
  have hentry : (encodePartition ⟨"", 0, 0⟩).length = 12 := by decide +kernel
  simp [sidecarBytes, encodeFront, encodePartitions, emptyPartitions, ResidentVectorArray.empty,
    length_encodeHeader, List.length_flatMap, hentry]
  omega

theorem sized_emptyPartitions (n : Nat) : (emptyPartitions n).Sized := by
  refine ⟨rfl, rfl, ?_⟩
  simp [emptyPartitions, ResidentVectorArray.empty]

theorem fieldsFit_emptyPartitions (n : Nat) : FieldsFit (emptyPartitions n) := by
  have hentry : PartitionFits ⟨"", 0, 0⟩ := ⟨by unfold StrFits; decide +kernel, by decide, by decide⟩
  refine ⟨?_, ?_, ?_, ?_, fun p hp => by rw [List.eq_of_mem_replicate hp]; exact hentry⟩
  all_goals simp [emptyPartitions, ResidentVectorArray.empty]

/-- A count of partitions that is a multiple of `2 ^ 32` is written as zero. -/
theorem parseSidecarAt_emptyPartitions {n : Nat} (hmod : n % 2 ^ 32 = 0) (hn : n < 2 ^ 59) :
    parseSidecarAt (sidecarBytes (emptyPartitions n)) = .ok (emptyPartitions 0, 27) := by
  have hsize : (sidecarBytes (emptyPartitions n)).length < 2 ^ 63 := by
    rw [length_sidecarBytes_emptyPartitions]; omega
  apply (parseSidecarAt_ok ⟨_, hsize⟩).mpr
  have hzero : leBytes 4 n = encodePartitions [] := by
    rw [← leBytes_mod, show (256 : Nat) ^ 4 = 2 ^ 32 by rfl, hmod]
    rfl
  have hparts := hasAt_partitions (emptyPartitions n)
  rw [encodePartitions, hasAt_append] at hparts
  have hcount : (emptyPartitions n).modelPartitions.length = n := by simp [emptyPartitions]
  rw [hcount, hzero] at hparts
  refine ⟨(fieldsFit_emptyPartitions 0).front (sized_emptyPartitions 0), 0, _, by decide,
    hasAt_front (emptyPartitions n),
    .present (by decide) (by simp [emptyPartitions]) hparts.1, ?_⟩
  decide +kernel

theorem not_parseSidecarAt_sidecarBuffer :
    ¬ ∀ (arr : ResidentVectorArray) (data : List UInt8), arr.Sized → FieldsFit arr →
      sidecarBuffer arr = .ok data → parseSidecarAt data = .ok (arr, data.length) := by
  intro h
  obtain ⟨n, hpos, hmod, hn⟩ : ∃ n : Nat, 0 < n ∧ n % 2 ^ 32 = 0 ∧ n < 2 ^ 59 :=
    ⟨2 ^ 32, by decide, by decide, by decide⟩
  have hsize : (sidecarBytes (emptyPartitions n)).length < 2 ^ 63 := by
    rw [length_sidecarBytes_emptyPartitions]; omega
  have hrun := h (emptyPartitions n) _ (sized_emptyPartitions n) (fieldsFit_emptyPartitions n)
    (by rw [sidecarBuffer, if_pos hsize])
  rw [parseSidecarAt_emptyPartitions hmod hn, length_sidecarBytes_emptyPartitions] at hrun
  have hend : 27 = 27 + n * 12 := (Prod.mk.inj (Except.ok.inj hrun)).2
  omega

section Fields

variable (data : List UInt8)

def u32Field (pos : Nat) : Nat := leNat (sliceAt data pos 4)

/-- The text behind its length, empty where the bytes are no text. -/
def textField (pos : Nat) : String :=
  (strOfBytes (sliceAt data (pos + 4) (u32Field data pos))).toOption.getD ""

def afterText (pos : Nat) : Nat := pos + 4 + u32Field data pos

def strideField : Nat := u32Field data 7

def countField : Nat := u32Field data 11

def tombstoneWordsField : Nat := u32Field data 19

/-- The bit of a slot in the tombstone block; behind the block no bit is set. -/
def tombstoneField (i : Nat) : Bool :=
  (if i / 64 < tombstoneWordsField data then leNat (sliceAt data (23 + i / 64 * 8) 8)
    else 0).testBit (i % 64)

/-- The model id of the key at a position, behind the item id and the vector index. -/
def keyModel (pos : Nat) : String := textField data (afterText data pos + 4)

def afterKey (pos : Nat) : Nat := afterText data (afterText data (afterText data pos + 4))

/-- Where a key stands: the keys follow the header, the tombstone words and the vectors. -/
def keyPos (i : Nat) : Nat :=
  (afterKey data)^[i] (23 + tombstoneWordsField data * 8 + countField data * strideField data)

/-- Where the partition index stands, behind the last key. -/
def partitionsPos : Nat := keyPos data (countField data)

/-- The number of partitions; none where the file ends before it. -/
def partitionCountField : Nat :=
  if data.length < partitionsPos data + 4 then 0 else u32Field data (partitionsPos data)

def partitionPos (j : Nat) : Nat :=
  (fun pos => afterText data pos + 8)^[j] (partitionsPos data + 4)

def partitionField (j : Nat) : ModelPartitionEntry :=
  ⟨textField data (partitionPos data j), u32Field data (afterText data (partitionPos data j)),
    u32Field data (afterText data (partitionPos data j) + 4)⟩

/-- What the parser does not look at in a file: that there are as many tombstone words as the slots
need, and that the partitions are in order, in bounds and cover the slots whose bit is clear. -/
structure SidecarSound : Prop where
  words : tombstoneWordsField data = (countField data + 63) / 64
  sorted : ∀ j < partitionCountField data, ∀ i < j,
    (partitionField data i).modelId < (partitionField data j).modelId
  bounds : ∀ j < partitionCountField data, (partitionField data j).start ≤
    (partitionField data j).stop ∧ (partitionField data j).stop ≤ countField data
  covered : ∀ i < countField data, tombstoneField data i = false →
    ∃ j < partitionCountField data, (partitionField data j).modelId = keyModel data (keyPos data i) ∧
      (partitionField data j).start ≤ i ∧ i < (partitionField data j).stop

variable {data} {pos : Nat}

theorem u32Field_eq {n : Nat} (hn : n < 2 ^ 32) (h : HasAt data pos (leBytes 4 n)) :
    u32Field data pos = n := (hasAt_leBytes.mp ⟨hn, h⟩).2

theorem textField_eq {s : String} (hs : StrFits s) (h : HasAt data pos (encodeStr s)) :
    textField data pos = s ∧ afterText data pos = pos + (encodeStr s).length := by
  rw [encodeStr, hasAt_append, length_leBytes] at h
  obtain ⟨hlen, hbody⟩ := h
  have hfield := u32Field_eq hs hlen
  constructor
  · rw [textField, hfield, hbody.2, strOfBytes_ok.mpr rfl]
    rfl
  · rw [afterText, hfield, length_encodeStr, Nat.add_assoc]

theorem keyModel_eq {key : VectorRecordKey} (hkey : KeyFits key) (h : HasAt data pos (encodeKey key)) :
    keyModel data pos = key.modelId ∧ afterKey data pos = pos + (encodeKey key).length := by
  simp only [encodeKey, hasAt_append, List.length_append, length_leBytes, ← Nat.add_assoc] at h ⊢
  obtain ⟨⟨⟨hitem, -⟩, hmodel⟩, hversion⟩ := h
  have hbehind := (textField_eq hkey.itemId hitem).2
  obtain ⟨htext, hnext⟩ := textField_eq hkey.modelId hmodel
  rw [keyModel, afterKey, hbehind, hnext, (textField_eq hkey.modelVersion hversion).2]
  exact ⟨htext, rfl⟩

theorem partition_eq {p : ModelPartitionEntry} (hp : PartitionFits p)
    (h : HasAt data pos (encodePartition p)) :
    textField data pos = p.modelId ∧ u32Field data (afterText data pos) = p.start ∧
      u32Field data (afterText data pos + 4) = p.stop ∧
      afterText data pos + 8 = pos + (encodePartition p).length := by
  simp only [encodePartition, hasAt_append, List.length_append, length_leBytes, ← Nat.add_assoc]
    at h ⊢
  obtain ⟨⟨hmodel, hstart⟩, hstop⟩ := h
  obtain ⟨htext, hnext⟩ := textField_eq hp.modelId hmodel
  rw [hnext]
  exact ⟨htext, u32Field_eq hp.start hstart, u32Field_eq hp.stop hstop, rfl⟩

/-- The fields of a file are those of an array. -/
structure FieldsOf (data : List UInt8) (arr : ResidentVectorArray) : Prop where
  count : countField data = arr.count
  words : tombstoneWordsField data = arr.tombstones.length
  tombstones : ∀ i, tombstoneField data i = arr.isTombstoned i
  keys : ∀ i key, arr.keys[i]? = some key → keyModel data (keyPos data i) = key.modelId
  partitionCount : partitionCountField data = arr.modelPartitions.length
  partitions : ∀ j p, arr.modelPartitions[j]? = some p → partitionField data j = p

theorem tombstoneField_eq {ws : List UInt64} (hwords : tombstoneWordsField data = ws.length)
    (h : HasAt data 23 (ws.flatMap fun w => leBytes 8 w.toNat)) (i : Nat) :
    tombstoneField data i = wordsBit ws i := by
  have hnext : ∀ n pos, (fun pos => pos + 8)^[n] pos = pos + n * 8 := by
    intro n
    induction n with
    | zero => exact fun pos => rfl
    | succ n ih =>
      intro pos
      rw [Function.iterate_succ_apply, ih]
      omega
  have hword : ∀ w ∈ ws, ∀ pos, HasAt data pos (leBytes 8 w.toNat) →
      (fun pos => pos + 8) pos = pos + (leBytes 8 w.toNat).length := fun w _ pos _ => by
    rw [length_leBytes]
  obtain ⟨hitems, -⟩ := hasAt_flatMap hword h
  rw [tombstoneField, wordsBit_eq, hwords]
  split
  next hlt =>
    have hat := hitems (i / 64) ws[i / 64] (List.getElem?_eq_getElem hlt)
    rw [hnext] at hat
    have hfield := (hasAt_leBytes.mp ⟨(ws[i / 64]).toNat_lt, hat⟩).2
    rw [hfield, List.getElem?_eq_getElem hlt, Option.getD_some]
  next hge =>
    rw [List.getElem?_eq_none (not_lt.mp hge)]
    rfl

/-- The fields are read where the parser reads them. -/
theorem LaysOut.fieldsOf {arr : ResidentVectorArray} {stop : Nat} (h : LaysOut data arr stop) :
    FieldsOf data arr := by
  obtain ⟨hfits, live, consumed, hlive, hfront, hparts, -⟩ := h
  simp only [encodeFront, hasAt_append, List.length_append, length_encodeHeader, Nat.zero_add,
    hasAt_encodeHeader] at hfront hparts
  obtain ⟨⟨⟨⟨-, -, -, hstride, hcount, -, hwords⟩, hwordsAt⟩, -⟩, hkeysAt⟩ := hfront
  have hstrideField : strideField data = arr.stride := u32Field_eq hfits.stride hstride
  have hcountField : countField data = arr.count := u32Field_eq hfits.count hcount
  have hwordsField : tombstoneWordsField data = arr.tombstones.length :=
    u32Field_eq hfits.words hwords
  have hblock : (arr.tombstones.flatMap fun w => leBytes 8 w.toNat).length =
      tombstoneWordsField data * 8 := by simp [hwordsField]
  rw [hblock, hfits.storage_length, ← hcountField, ← hstrideField] at hkeysAt hparts
  obtain ⟨hkeys, hkeysEnd⟩ := hasAt_flatMap
    (fun key hkey pos hat => (keyModel_eq (hfits.keys key hkey) hat).2) hkeysAt
  have hpos : partitionsPos data = 23 + tombstoneWordsField data * 8 +
      countField data * strideField data + (arr.keys.flatMap encodeKey).length := by
    rw [partitionsPos, keyPos, ← hkeysEnd, hfits.keys_length, hcountField]
  rw [← hpos] at hparts
  refine ⟨hcountField, hwordsField, tombstoneField_eq hwordsField hwordsAt, fun i key hkey => ?_,
    ?_, ?_⟩
  · exact (keyModel_eq (hfits.keys key (List.mem_of_getElem? hkey)) (hkeys i key hkey)).1
  · rw [partitionCountField]
    cases hparts with
    | absent hend hnil => rw [if_pos hend, hnil, List.length_nil]
    | present hlen hall hat =>
      rw [encodePartitions, hasAt_append, length_leBytes] at hat
      have hend := hat.1.1
      rw [length_leBytes] at hend
      rw [if_neg (not_lt.mpr hend), u32Field_eq hlen hat.1]
  · intro j p hp
    cases hparts with
    | absent hend hnil => simp [hnil] at hp
    | present hlen hall hat =>
      rw [encodePartitions, hasAt_append, length_leBytes] at hat
      obtain ⟨hitems, -⟩ := hasAt_flatMap
        (fun q hq pos hqat => (partition_eq (hall q hq) hqat).2.2.2) hat.2
      obtain ⟨hmodel, hstart, hstop, -⟩ :=
        partition_eq (hall p (List.mem_of_getElem? hp)) (hitems j p hp)
      rw [partitionField, partitionPos, hmodel, hstart, hstop]

/-- Of an array with the fields, the promises of the file are the documented invariant. -/
theorem FieldsOf.wellFormed_iff {arr : ResidentVectorArray} (h : FieldsOf data arr)
    (hstorage : arr.storage.length = arr.count * arr.stride)
    (hkeys : arr.keys.length = arr.count) : WellFormed arr ↔ SidecarSound data := by
  have hentry : ∀ j (hj : j < arr.modelPartitions.length),
      partitionField data j = arr.modelPartitions[j] := fun j hj =>
    h.partitions j _ (List.getElem?_eq_getElem hj)
  constructor
  · intro hwell
    refine ⟨?_, ?_, ?_, ?_⟩
    · rw [h.words, h.count]
      exact hwell.tombstones_length
    · intro j hj i hi
      rw [h.partitionCount] at hj
      rw [hentry j hj, hentry i (hi.trans hj)]
      exact List.pairwise_iff_getElem.mp hwell.sorted i j (hi.trans hj) hj hi
    · intro j hj
      rw [h.partitionCount] at hj
      rw [hentry j hj, h.count]
      exact hwell.bounds _ (List.getElem_mem hj)
    · intro i hi hlive
      rw [h.count] at hi
      rw [h.tombstones] at hlive
      have hkey := List.getElem?_eq_getElem (show i < arr.keys.length by omega)
      obtain ⟨p, hp, hmodel, hstart, hstop⟩ := hwell.covered i _ hi hkey hlive
      obtain ⟨j, hj, rfl⟩ := List.mem_iff_getElem.mp hp
      refine ⟨j, h.partitionCount ▸ hj, ?_⟩
      rw [hentry j hj, h.keys i _ hkey]
      exact ⟨hmodel, hstart, hstop⟩
  · intro hsound
    refine ⟨⟨hstorage, hkeys, ?_⟩, ?_, ?_, ?_⟩
    · rw [← h.words, ← h.count]
      exact hsound.words
    · rw [List.pairwise_iff_getElem]
      intro i j hi hj hlt
      rw [← hentry i hi, ← hentry j hj]
      exact hsound.sorted j (h.partitionCount ▸ hj) i hlt
    · intro p hp
      obtain ⟨j, hj, rfl⟩ := List.mem_iff_getElem.mp hp
      rw [← hentry j hj, ← h.count]
      exact hsound.bounds j (h.partitionCount ▸ hj)
    · intro i key hi hkey hlive
      obtain ⟨j, hj, hmodel, hstart, hstop⟩ :=
        hsound.covered i (h.count ▸ hi) ((h.tombstones i).trans hlive)
      rw [h.partitionCount] at hj
      rw [hentry j hj] at hmodel hstart hstop
      rw [h.keys i key hkey] at hmodel
      exact ⟨_, List.getElem_mem hj, hmodel, hstart, hstop⟩

end Fields

/-- An accepted file gives a well-formed array exactly when its own fields keep the promises. -/
theorem parseSidecar_wellFormed_iff (data : SidecarData) {arr : ResidentVectorArray}
    (h : parseSidecar data.1 = .ok arr) : WellFormed arr ↔ SidecarSound data.1 := by
  obtain ⟨stop, hat⟩ := (parseSidecar_ok data).mp h
  exact hat.fieldsOf.wellFormed_iff hat.1.storage_length hat.1.keys_length

/-- Two models of one slot each, the second slot dead: a file whose fields keep the promises. -/
def twoModelsSidecar : List UInt8 :=
  sidecarBytes { kind := .binary, stride := 1, count := 2, storage := [7, 9],
                 keys := [⟨"a", 0, "m", "1"⟩, ⟨"b", 0, "n", "1"⟩],
                 modelPartitions := [⟨"m", 0, 1⟩], tombstones := [2] }

theorem parseSidecar_wellFormed_iff_twoModels :
    ∃ arr, parseSidecar twoModelsSidecar = .ok arr ∧ arr.count = 2 ∧ WellFormed arr := by
  have hparse : parseSidecar twoModelsSidecar = .ok
      { kind := .binary, stride := 1, count := 2, storage := [7, 9],
        keys := [⟨"a", 0, "m", "1"⟩, ⟨"b", 0, "n", "1"⟩],
        modelPartitions := [⟨"m", 0, 1⟩], tombstones := [2] } := by decide +kernel
  refine ⟨_, hparse, rfl, ?_⟩
  exact (parseSidecar_wellFormed_iff ⟨twoModelsSidecar, by decide +kernel⟩ hparse).mpr
    ⟨by decide +kernel, by decide +kernel, by decide +kernel, by decide +kernel⟩

/-- No slots, but a tombstone word and a partition of five slots. -/
def looseSidecar : List UInt8 :=
  SidecarHeader.encode ⟨.binary, 32, 0, 0, 1⟩ ++ leBytes 8 0 ++ encodePartitions [⟨"m", 0, 5⟩]

theorem not_parseSidecar_wellFormed :
    ¬ ∀ (data : SidecarData) (arr : ResidentVectorArray),
      parseSidecar data.1 = .ok arr → WellFormed arr := by
  intro h
  have hrun := h ⟨looseSidecar, by decide +kernel⟩
    { ResidentVectorArray.empty .binary 32 with
      modelPartitions := [⟨"m", 0, 5⟩], tombstones := [0] } (by decide +kernel)
  exact absurd hrun.tombstones_length (by decide)

end MootMemory
