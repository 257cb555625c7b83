import MootMemory.SidecarParse
import MootMemory.SwiftPartitions

namespace MootMemory.Swift

section Parse

variable (data : SwiftData)

/-- The words of a block that is there are read without a trap. -/
theorem readMany_decodeWord {n pos : Nat} (h : pos + n * 8 ≤ data.1.length) :
    ∃ ws : List UInt64, readMany (decodeWord data.1) n pos = .ok (ws, pos + n * 8) ∧
      ws.length = n ∧ HasAt data.1 pos (ws.flatMap fun w => leBytes 8 w.toNat) := by
  induction n generalizing pos with
  | zero => exact ⟨[], rfl, rfl, hasAt_nil.mpr (by omega)⟩
  | succ n ih =>
    have hle : pos + 8 ≤ data.1.length := by omega
    obtain ⟨ws, hrun, hlen, hat⟩ := ih (show pos + 8 + n * 8 ≤ data.1.length by omega)
    obtain ⟨hlt, hwordAt⟩ := hasAt_leBytes.mpr ⟨hle, rfl⟩
    have hword : (UInt64.ofNat (leNat (sliceAt data.1 pos 8))).toNat = leNat (sliceAt data.1 pos 8) :=
      UInt64.toNat_ofNat_of_lt hlt
    refine ⟨UInt64.ofNat (leNat (sliceAt data.1 pos 8)) :: ws, ?_, by simp [hlen], ?_⟩
    · refine readMany_succ_ok.mpr ⟨_, 8, ws, ?_, ?_, rfl⟩
      · rw [decodeWord, readLE_eq data hle]; rfl
      · rw [hrun, show pos + 8 + n * 8 = pos + (n + 1) * 8 by omega]
    · rw [List.flatMap_cons, hasAt_append, length_leBytes, hword]
      exact ⟨hwordAt, hat⟩

theorem parseHeader_ok {h : SidecarHeader} :
    parseHeader data.1 = .ok h ↔ HeaderFits h ∧ HasAt data.1 0 h.encode := by
  have hdata := data.2
  rw [hasAt_encodeHeader]
  constructor
  · intro hrun
    unfold parseHeader at hrun
    split at hrun
    next => cases hrun
    next hlen =>
      obtain ⟨magic, hmagic, hrun⟩ := except_bind_ok.mp hrun
      rw [slice_eq data (by omega) (by omega)] at hmagic
      obtain rfl := Except.ok.inj hmagic
      split at hrun
      next => cases hrun
      next hmagic =>
        obtain ⟨version, hversion, hrun⟩ := except_bind_ok.mp hrun
        split at hrun
        next => cases hrun
        next heq =>
          obtain ⟨kindRaw, hkindRaw, hrun⟩ := except_bind_ok.mp hrun
          obtain ⟨_, hversionAt⟩ := (guardedLE_ok data _).mp hversion
          obtain ⟨_, hkindAt⟩ := (guardedLE_ok data _).mp hkindRaw
          rw [not_not.mp heq] at hversionAt
          split at hrun
          next => cases hrun
          next kind hkind =>
            simp only [except_bind_ok, guardedLE_ok, Except.ok.injEq] at hrun
            obtain ⟨stride, ⟨hs, hsAt⟩, count, ⟨hc, hcAt⟩, live, ⟨hl, hlAt⟩, words, ⟨hw, hwAt⟩,
              rfl⟩ := hrun
            rw [VectorKind.fromRaw_eq_some.mp hkind] at hkindAt
            exact ⟨⟨hs, hc, hl, hw⟩, hasAt_magic.mpr ⟨by omega, not_not.mp hmagic⟩, hversionAt,
              hkindAt, hsAt, hcAt, hlAt, hwAt⟩
  · rintro ⟨hfits, hmagic, hversion, hkind, hs, hc, hl, hw⟩
    obtain ⟨hlen, hmagic⟩ := hasAt_magic.mp hmagic
    have hslice : slice data.1 0 4 = .ok VEC_MAGIC := by
      rw [slice_eq data (by omega) (by omega), hmagic]
    have hversionRead := (guardedLE_ok data
      "ResidentArrayStore: truncated at version field").mpr ⟨by decide, hversion⟩
    have hkindRead := (guardedLE_ok data
      "ResidentArrayStore: truncated at kind").mpr ⟨h.kind.raw_lt, hkind⟩
    rw [parseHeader, if_neg (by omega)]
    refine except_bind_ok.mpr ⟨VEC_MAGIC, hslice, ?_⟩
    rw [if_neg (not_not.mpr rfl)]
    refine except_bind_ok.mpr ⟨VEC_VERSION, hversionRead, ?_⟩
    rw [if_neg (not_not.mpr rfl)]
    refine except_bind_ok.mpr ⟨h.kind.raw, hkindRead, ?_⟩
    simp only [VectorKind.fromRaw_eq_some.mpr rfl, except_bind_ok, guardedLE_ok, Except.ok.injEq]
    exact ⟨_, ⟨hfits.stride, hs⟩, _, ⟨hfits.count, hc⟩, _, ⟨hfits.liveCount, hl⟩, _,
      ⟨hfits.tombstoneWords, hw⟩, rfl⟩

theorem parseHeader_ne_panic : parseHeader data.1 ≠ .error .panic := by
  have hdata := data.2
  intro hrun
  have hfield : ∀ {k offset : Nat} {failure : String}, offset + k ≤ 23 →
      guardedLE data.1 k offset failure ≠ .error .panic :=
    fun h => guardedLE_ne_panic data (le_trans h (by decide))
  unfold parseHeader at hrun
  split at hrun
  next => cases hrun
  next hlen =>
    rw [slice_eq data (by omega) (by omega)] at hrun
    rcases except_bind_error.mp hrun with hrun | ⟨magic, _, hrun⟩
    · cases hrun
    split at hrun
    next => cases hrun
    next =>
      rcases except_bind_error.mp hrun with hrun | ⟨version, _, hrun⟩
      · exact hfield (by decide) hrun
      split at hrun
      next => cases hrun
      next =>
        rcases except_bind_error.mp hrun with hrun | ⟨kindRaw, _, hrun⟩
        · exact hfield (by decide) hrun
        split at hrun
        next => cases hrun
        next =>
          simp only [except_bind_error] at hrun
          rcases hrun with hrun | ⟨_, _, hrun | ⟨_, _, hrun | ⟨_, _, hrun | ⟨_, _, hrun⟩⟩⟩⟩
          · exact hfield (by decide) hrun
          · exact hfield (by decide) hrun
          · exact hfield (by decide) hrun
          · exact hfield (by decide) hrun
          · cases hrun

/-- The size of the vectors block is an `Int`, but the end of the block is not. -/
def SizeOverflows (bytes : List UInt8) : Prop :=
  ∃ h, HeaderFits h ∧ HasAt bytes 0 h.encode ∧ 23 + h.tombstoneWords * 8 ≤ bytes.length ∧
    h.count * h.stride ≤ intMax ∧ intMax < 23 + h.tombstoneWords * 8 + h.count * h.stride

/-- Behind blocks that decode stands an inverted partition. -/
def InvertedRange (bytes : List UInt8) : Prop :=
  ∃ arr liveCount, FrontFits arr ∧ liveCount < 2 ^ 32 ∧ HasAt bytes 0 (encodeFront arr liveCount) ∧
    InvertedAt bytes (encodeFront arr liveCount).length

theorem multiplied_ok {a b n : Nat} {failure : String} :
    multiplied a b failure = .ok n ↔ a * b ≤ intMax ∧ n = a * b := by
  unfold multiplied
  split
  next h => simp; omega
  next h => simp only [Except.ok.injEq]; omega

theorem multiplied_ne_panic {a b : Nat} {failure : String} :
    multiplied a b failure ≠ .error .panic := by
  unfold multiplied
  split <;> simp [decodingFailure]

theorem hasAt_blocks {bytes : List UInt8} {arr : ResidentVectorArray} {liveCount : Nat} :
    HasAt bytes 0 (encodeFront arr liveCount) ↔
      HasAt bytes 0 (SidecarHeader.encode
        ⟨arr.kind, arr.stride, arr.count, liveCount, arr.tombstones.length⟩) ∧
      HasAt bytes 23 (arr.tombstones.flatMap fun w => leBytes 8 w.toNat) ∧
      HasAt bytes (23 + arr.tombstones.length * 8) arr.storage ∧
      HasAt bytes (23 + arr.tombstones.length * 8 + arr.storage.length)
        (arr.keys.flatMap encodeKey) := by
  have hwords : (arr.tombstones.flatMap fun w => leBytes 8 w.toNat).length =
      arr.tombstones.length * 8 := by simp
  simp only [encodeFront, hasAt_append, List.length_append, length_encodeHeader, hwords,
    Nat.zero_add, and_assoc]

theorem length_encodeFront (arr : ResidentVectorArray) (liveCount : Nat) :
    (encodeFront arr liveCount).length = 23 + arr.tombstones.length * 8 + arr.storage.length +
      (arr.keys.flatMap encodeKey).length := by
  simp [encodeFront, length_encodeHeader]
  omega

theorem invertedRange_of_blocks {header : SidecarHeader} {ws : List UInt64}
    {keys : List VectorRecordKey} (hfits : HeaderFits header)
    (hat : HasAt data.1 0 header.encode) (hlen : ws.length = header.tombstoneWords)
    (hws : HasAt data.1 23 (ws.flatMap fun w => leBytes 8 w.toNat))
    (hvectors : 23 + header.tombstoneWords * 8 + header.count * header.stride ≤ data.1.length)
    (hkeysLen : keys.length = header.count) (hkeyFits : ∀ key ∈ keys, KeyFits key)
    (hkeys : HasAt data.1 (23 + header.tombstoneWords * 8 + header.count * header.stride)
      (keys.flatMap encodeKey))
    (hinverted : InvertedAt data.1 (23 + header.tombstoneWords * 8 + header.count * header.stride +
      (keys.flatMap encodeKey).length)) : InvertedRange data.1 := by
  obtain ⟨kind, stride, count, liveCount, words⟩ := header
  obtain rfl : ws.length = words := hlen
  have hstorage := hasAt_sliceAt hvectors
  have hstorageLen := length_sliceAt hvectors
  refine ⟨⟨kind, stride, count, sliceAt data.1 (23 + ws.length * 8) (count * stride), keys, [], ws⟩,
    liveCount,
    ⟨hfits.stride, hfits.count, hfits.tombstoneWords, hstorageLen, hkeysLen, hkeyFits⟩,
    hfits.liveCount, ?_, ?_⟩
  · rw [hasAt_blocks]
    exact ⟨hat, hws, hstorage, by rw [hstorageLen]; exact hkeys⟩
  · rw [length_encodeFront, hstorageLen]
    exact hinverted

theorem parseSidecar_panic_of_sizeOverflows (h : SizeOverflows data.1) :
    parseSidecar data.1 = .error .panic := by
  have hdata := data.2
  obtain ⟨header, hfits, hat, hblock, hproduct, hover⟩ := h
  obtain ⟨ws, hws, _⟩ := readMany_decodeWord data hblock
  simp only [parseSidecar, except_bind_error, parseHeader_ok, multiplied_ok, guardEnd_ok,
    guardEnd_panic, Prod.exists]
  refine Or.inr ⟨header, ⟨hfits, hat⟩, Or.inr ⟨_, ⟨by unfold intMax; omega, rfl⟩, Or.inr ⟨(), hblock,
    Or.inr ⟨ws, _, hws, Or.inr ⟨_, ⟨hproduct, rfl⟩, Or.inl hover⟩⟩⟩⟩⟩

theorem parseSidecar_panic_of_invertedRange (h : InvertedRange data.1) :
    parseSidecar data.1 = .error .panic := by
  have hdata := data.2
  obtain ⟨arr, liveCount, hfits, hlive, hfront, hinverted⟩ := h
  obtain ⟨hheader, hwsAt, hstorageAt, hkeysAt⟩ := hasAt_blocks.mp hfront
  have hblock := hasAt_le hstorageAt
  have hvectors := hstorageAt.1
  have hlen := hfits.storage_length
  obtain ⟨ws, hws, _⟩ := readMany_decodeWord data hblock
  have hkeys := (readMany_iff (reads_decodeKey data) (hasAt_le hkeysAt)).mpr
    ⟨hfits.keys_length, hfits.keys, hkeysAt, rfl⟩
  have hparts := (decodePartitions_panic data hfront.1).mpr (by simpa using hinverted)
  rw [Nat.zero_add, length_encodeFront] at hparts
  rw [hlen] at hvectors hkeys hparts
  simp only [parseSidecar, except_bind_error, parseHeader_ok, multiplied_ok, guardEnd_ok,
    guardEnd_panic, add_ok, Prod.exists]
  refine Or.inr ⟨_, ⟨⟨hfits.stride, hfits.count, hlive, hfits.words⟩, hheader⟩,
    Or.inr ⟨_, ⟨by unfold intMax; dsimp only; omega, rfl⟩, Or.inr ⟨(), hblock,
    Or.inr ⟨ws, _, hws, Or.inr ⟨_, ⟨by unfold intMax; dsimp only; omega, rfl⟩, Or.inr ⟨(), hvectors,
    Or.inr ⟨_, ⟨by unfold intMax; dsimp only; omega, rfl⟩, Or.inr ⟨_,
      slice_eq data (Nat.le_add_right _ _) hvectors,
    Or.inr ⟨_, ⟨by unfold intMax; dsimp only; omega, rfl⟩, Or.inr ⟨_, _, hkeys, Or.inl hparts⟩⟩⟩⟩⟩⟩⟩⟩⟩⟩

/-- The parser traps exactly on these two kinds of files. -/
theorem parseSidecar_ne_panic_iff :
    parseSidecar data.1 ≠ .error .panic ↔
      ¬ SizeOverflows data.1 ∧ ¬ InvertedRange data.1 := by
  have hdata := data.2
  rw [← not_or, not_iff_not]
  constructor
  · intro h
    simp only [parseSidecar, except_bind_error, parseHeader_ok, multiplied_ok, guardEnd_ok,
      guardEnd_panic, add_ok, add_panic, Prod.exists] at h
    rcases h with h | ⟨header, ⟨hfits, hat⟩, h⟩
    · exact absurd h (parseHeader_ne_panic data)
    rcases h with h | ⟨_, ⟨_, rfl⟩, h⟩
    · exact absurd h multiplied_ne_panic
    have hsmall := hfits.tombstoneWords
    rcases h with h | ⟨_, hblock, h⟩
    · unfold intMax at h; omega
    obtain ⟨ws, hws, hwsLen, hwsAt⟩ := readMany_decodeWord data hblock
    rw [hws] at h
    rcases h with h | ⟨ws', _, heq, h⟩
    · cases h
    obtain ⟨rfl, rfl⟩ := Prod.mk.inj (Except.ok.inj heq)
    rcases h with h | ⟨_, ⟨hproduct, rfl⟩, h⟩
    · exact absurd h multiplied_ne_panic
    rcases h with h | ⟨_, hvectors, h⟩
    · exact Or.inl ⟨header, hfits, hat, hblock, hproduct, h⟩
    rcases h with h | ⟨_, ⟨_, rfl⟩, h⟩
    · unfold intMax at h; omega
    rw [slice_eq data (Nat.le_add_right _ _) hvectors] at h
    rcases h with h | ⟨_, _, h⟩
    · cases h
    rcases h with h | ⟨_, ⟨_, rfl⟩, h⟩
    · unfold intMax at h; omega
    rcases h with h | ⟨keys, stop, hkeys, h⟩
    · obtain ⟨front, _, _, hfrontAt, hkey⟩ := (readMany_error_iff (reads_decodeKey data) hvectors).mp h
      exact absurd hkey (decodeKey_ne_panic data hfrontAt.1)
    obtain ⟨hkeysLen, hkeyFits, hkeysAt, rfl⟩ :=
      (readMany_iff (reads_decodeKey data) hvectors).mp hkeys
    rcases h with h | ⟨_, _, _, h⟩
    · have hinverted := (decodePartitions_panic data hkeysAt.1).mp h
      exact Or.inr (invertedRange_of_blocks data hfits hat hwsLen hwsAt hvectors hkeysLen hkeyFits
        hkeysAt hinverted)
    · cases h
  · rintro (h | h)
    · exact parseSidecar_panic_of_sizeOverflows data h
    · exact parseSidecar_panic_of_invertedRange data h

end Parse

/-- An empty array with the partition `5..<0`. -/
def invertedSidecar : List UInt8 :=
  SidecarHeader.encode ⟨.binary, 32, 0, 0, 0⟩ ++ encodePartitions [⟨"m", 5, 0⟩]

theorem not_parseSidecar_ne_panic :
    ¬ ∀ data : SwiftData, parseSidecar data.1 ≠ .error .panic := by
  intro h
  exact h ⟨invertedSidecar, by decide +kernel⟩ (by decide +kernel)

end MootMemory.Swift
